import OwlGraph.Proofs.AxiomSet
import OwlGraph.Proofs.LaxLoad
import OwlGraph.Proofs.Phases
import OwlGraph.Proofs.Reading

/-! Loads that meet no problem. Between two steps of such a load it is known which triples are used
and which axioms are there; when all triples are used, nothing is left to be reported. -/

namespace OwlGraph

namespace World

/-- The load met no problem. These triples are used and these axioms are there. -/
structure Clear (world : World) (header : Option Node) (used : Triple → Prop) (facts : AnnotatedAxiom → Prop)
    (session : Session) : Prop where
  holds : world.Holds session
  settled : session.pending = #[]
  silent : session.reports = #[]
  idle : session.visiting = []
  headed : session.header = header
  used : ∀ row ∈ world.rows, session.store.isConsumed row.id = true ↔ used row.triple
  sound : session.ontology.index.Sound
  facts : ∀ fact, fact ∈ session.ontology.axioms ↔ facts fact

section Clear

variable {world : World} {header : Option Node} {used : Triple → Prop} {facts : AnnotatedAxiom → Prop} {session : Session}

theorem Clear.congr (clear : world.Clear header used facts session) {others : Triple → Prop} {known : AnnotatedAxiom → Prop}
    (uses : ∀ triple ∈ world.graph, used triple ↔ others triple) (same : ∀ fact, facts fact ↔ known fact) :
    world.Clear header others known session where
  holds := clear.holds
  settled := clear.settled
  silent := clear.silent
  idle := clear.idle
  headed := clear.headed
  used row member := (clear.used row member).trans (uses row.triple (List.mem_map_of_mem member))
  sound := clear.sound
  facts fact := (clear.facts fact).trans (same fact)

theorem Clear.step (clear : world.Clear header used facts session) {after : Session} {block : List Triple}
    (step : world.Step session after block) : world.Clear header (fun triple => used triple ∨ triple ∈ block) facts after where
  holds := step.holds
  settled := by rw [step.same]; exact clear.settled
  silent := by rw [step.same]; exact clear.silent
  idle := step.visiting.trans clear.idle
  headed := by rw [step.same]; exact clear.headed
  used row member := by rw [step.used row member, clear.used row member]
  sound := by rw [step.same]; exact clear.sound
  facts := by rw [step.same]; exact clear.facts

theorem Clear.consume (clear : world.Clear header used facts session) {row : Row} (member : row ∈ world.rows) :
    world.Clear header (fun triple => used triple ∨ triple = row.triple) facts (session.consume row.id) :=
  (clear.step (consume_step clear.holds member)).congr (by simp) fun _ => Iff.rfl

theorem Clear.commit (clear : world.Clear header used facts session) (id : TripleId) (fact : AnnotatedAxiom) :
    world.Clear header used (fun other => facts other ∨ other = fact) (session.commit id fact) where
  holds := ⟨clear.holds.indexed, clear.holds.rows, clear.holds.rank, clear.holds.ruleVariables, clear.holds.told, clear.holds.known,
    clear.holds.spent⟩
  settled := clear.settled
  silent := clear.silent
  idle := clear.idle
  headed := clear.headed
  used := clear.used
  sound := clear.sound.insert fact
  facts other := by
    rw [Session.commit, Ontology.mem_axioms_add clear.sound, clear.facts]
    exact or_comm

/-- An axiom is replaced by the same with further annotations. -/
theorem Clear.addAnnotations (clear : world.Clear header used facts session) (fact : AnnotatedAxiom) (notes : List Annotation) :
    world.Clear header used (fun other => other = .of fact.bare (fact.annotations ++ notes) ∨ other ≠ fact ∧ facts other)
      (session.addAnnotations fact notes) where
  holds := ⟨clear.holds.indexed, clear.holds.rows, clear.holds.rank, clear.holds.ruleVariables, clear.holds.told, clear.holds.known,
    clear.holds.spent⟩
  settled := clear.settled
  silent := clear.silent
  idle := clear.idle
  headed := clear.headed
  used := clear.used
  sound := (clear.sound.remove fact).insert _
  facts other := by
    rw [Session.addAnnotations, Ontology.mem_axioms_add (clear.sound.remove fact), Ontology.mem_axioms_remove clear.sound, clear.facts]

/-- What does not concern the reading of triples may change. -/
theorem Clear.of_same (clear : world.Clear header used facts session) {after : Session} {head : Option Node}
    (same : after = { session with
      kindsChanged := after.kindsChanged, passes := after.passes, header := after.header, ontology := after.ontology,
      produced := after.produced })
    (index : after.ontology.index = session.ontology.index) (headed : after.header = head) :
    world.Clear head used facts after where
  holds := by
    rw [same]
    exact ⟨clear.holds.indexed, clear.holds.rows, clear.holds.rank, clear.holds.ruleVariables, clear.holds.told,
      clear.holds.known, clear.holds.spent⟩
  settled := by rw [same]; exact clear.settled
  silent := by rw [same]; exact clear.silent
  idle := by rw [same]; exact clear.idle
  headed := headed
  used := by rw [same]; exact clear.used
  sound := index ▸ clear.sound
  facts fact := by
    rw [← clear.facts fact, Ontology.axioms, index]
    rfl

/-- What is told of kinds and of variables may be more by now. -/
theorem Holds.retold (holds : world.Holds session) {isVariable : Iri → Prop} {told : Entity → Prop} (ruleVariables : Std.HashSet Iri)
    (names : ∀ iri, ruleVariables.contains iri = true ↔ isVariable iri)
    (has : ∀ entity, told entity → session.hasKind entity.iri entity.kind = true) :
    { world with isVariable, told }.Holds { session with ruleVariables } :=
  ⟨holds.indexed, holds.rows, holds.rank, names, has, holds.known, holds.spent⟩

theorem Clear.retold (clear : world.Clear header used facts session) {isVariable : Iri → Prop} {told : Entity → Prop}
    (ruleVariables : Std.HashSet Iri) (names : ∀ iri, ruleVariables.contains iri = true ↔ isVariable iri)
    (has : ∀ entity, told entity → session.hasKind entity.iri entity.kind = true) :
    { world with isVariable, told }.Clear header used facts { session with ruleVariables } :=
  ⟨clear.holds.retold ruleVariables names has, clear.settled, clear.silent, clear.idle, clear.headed, clear.used, clear.sound, clear.facts⟩

/-- The number of a row stands for its triple. -/
theorem Holds.produced_insert (holds : world.Holds session) {row other : Row} (member : row ∈ world.rows) (present : other ∈ world.rows)
    (fact : AnnotatedAxiom) : (session.produced.insert row.id fact)[other.id]? =
      if other.triple = row.triple then some fact else session.produced[other.id]? := by
  rw [Std.HashMap.getElem?_insert]
  by_cases same : other.triple = row.triple
  · rw [if_pos same, holds.row_eq present member same, beq_self_eq_true, if_pos rfl]
  · have apart : row.id ≠ other.id := by
      intro number
      have first := TripleStore.mem_liveRows.mp (holds.rows ▸ member : row ∈ session.store.liveRows)
      rw [number, TripleStore.mem_liveRows.mp (holds.rows ▸ present : other ∈ session.store.liveRows)] at first
      exact same (congrArg Row.triple (Option.some.inj first))
    rw [if_neg same, beq_false_of_ne apart, if_neg Bool.false_ne_true]

end Clear

end World

namespace Load

variable {world : World} {context : Context}

/-- If every triple is used, none is left. -/
theorem unconsumed_of_used {headed : Option Node} {used : Triple → Prop} {facts : AnnotatedAxiom → Prop} {session : Session}
    (clear : world.Clear headed used facts session) (all : ∀ triple ∈ world.graph, used triple) : session.store.unconsumed = [] := by
  rw [TripleStore.unconsumed_eq, clear.holds.rows]
  refine List.filter_eq_nil_iff.mpr fun row member => ?_
  simp [(clear.used row member).mpr (all _ (List.mem_map_of_mem member))]

/-- Then nothing is left to be reported either. -/
theorem finish_used {headed : Option Node} {used : Triple → Prop} {facts : AnnotatedAxiom → Prop} {session : Session}
    (clear : world.Clear headed used facts session) (all : ∀ triple ∈ world.graph, used triple) :
    finish context session = (.ok (), session) := by
  have spent : ∀ row ∈ world.rows, session.store.isConsumed row.id = true := fun row member =>
    (clear.used row member).mpr (all _ (List.mem_map_of_mem member))
  have nodes : session.axiomNodes = [] := by
    have none : session.unused (session.store.withObject Owl.Axiom) = [] := by
      rw [clear.holds.withObject]
      exact List.filter_eq_nil_iff.mpr fun row member => by simp [spent row (List.mem_of_mem_filter member)]
    rw [Session.axiomNodes, none]
    rfl
  have notes : withDefaults readAxiomAnnotations context session = (.ok (), session) := readAxiomAnnotations_absent nodes
  rw [finish, Run.bind_run notes, Run.get_bind, unconsumed_of_used clear all]
  rfl

end Load

/-- The world of the triples that a load starts from. -/
def World.ofTriples (config : Config) (number : Nat) (triples : List Triple) (known : Entity → Prop) : World where
  context := ⟨config, number, false⟩
  rows := (TripleStore.ofTriples triples).liveRows
  rank := (TripleStore.ofTriples triples).blankRank
  isVariable _ := False
  known := known
  told _ := False

section Loads

variable {config : Config} {number : Nat} {triples : List Triple} {known : Entity → Prop}

theorem World.mem_graph_ofTriples {triple : Triple} :
    triple ∈ (World.ofTriples config number triples known).graph ↔ triple ∈ triples :=
  TripleStore.mem_rows_ofTriples triples triple

theorem World.clear_start (document : Option Iri) : (World.ofTriples config number triples known).Clear none (fun _ => False)
    (fun _ => False) (Load.start document triples) where
  holds := ⟨TripleStore.indexed_ofTriples triples, rfl, fun _ => rfl, by simp [Load.start, World.ofTriples], nofun,
    by simp [Load.start], fun _ _ => nofun⟩
  settled := rfl
  silent := rfl
  idle := rfl
  headed := rfl
  used row _ := by simp [Load.start, TripleStore.unused_ofTriples]
  sound := AxiomIndex.sound_empty
  facts := by simp [Load.start, Ontology.axioms, AxiomIndex.toList]

end Loads

end OwlGraph
