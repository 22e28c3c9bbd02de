import OwlGraph.Proofs.Candidates
import OwlGraph.Proofs.ClearLoad
import OwlGraph.Proofs.MissingTriples

/-! Graphs that are laid out. Such a graph says which ontology it is about, and otherwise it consists
of triples that stand for axioms, of the triples that describe their operands, and of nodes that add
annotations to axioms. How far a load of it has come is told by the axioms that were read and the nodes
whose annotations were merged. -/

namespace OwlGraph

/-- When the triple that stands for an axiom is read. -/
inductive Stage where
  /-- With the declarations. -/
  | early
  | candidate
  /-- Not before a node points at it, since it is taken for part of a construct. -/
  | late
deriving DecidableEq

/-- A triple that stands for an axiom, the axiom that is read, the triples that are used besides it, and
among them those of annotations, which must be unused before. -/
structure Entry where
  stage : Stage
  main : Triple
  fact : AnnotatedAxiom
  block : List Triple
  notes : List Triple

/-- A node that points at the triple of an axiom, the triples of the node and of its annotations, and
the axiom with these annotations. -/
structure Remark where
  node : BlankNode
  entry : Entry
  block : List Triple
  fact : AnnotatedAxiom

/-- The node of an ontology, what is said about it, the triples of its annotations, and the axioms. -/
structure Layout where
  header : Node
  heading : Ontology
  group : List Triple
  entries : List Entry
  remarks : List Remark

namespace Layout

/-- The triples that are used after those of the base when the axioms of some triples were read and the
annotations of some nodes merged. -/
def Used (layout : Layout) (base done : Triple → Prop) (merged : BlankNode → Prop) (triple : Triple) : Prop :=
  base triple ∨ (∃ entry ∈ layout.entries, done entry.main ∧ (triple = entry.main ∨ triple ∈ entry.block)) ∨
    ∃ remark ∈ layout.remarks, merged remark.node ∧ triple ∈ remark.block

/-- The axioms that are there by then. Merging replaces the axiom that was read. -/
def Tells (layout : Layout) (done : Triple → Prop) (merged : BlankNode → Prop) (fact : AnnotatedAxiom) : Prop :=
  (∃ entry ∈ layout.entries, done entry.main ∧ entry.stage ≠ .late ∧ fact = entry.fact ∧
    ∀ remark ∈ layout.remarks, merged remark.node → remark.entry.fact ≠ fact) ∨
  ∃ remark ∈ layout.remarks, merged remark.node ∧ fact = remark.fact

/-- The triples that are used before any axiom is read: those of the header and of variables. -/
def Base (layout : Layout) (triple : Triple) : Prop :=
  triple ∈ headerTriples layout.heading layout.header ∨ ∃ iri, triple = variableTriple iri

/-- The triple may be used once only: it belongs to annotations of the ontology or of an axiom, or to a node that points at
an axiom. -/
inductive Exclusive (layout : Layout) : List Triple → Prop
  | group : Exclusive layout layout.group
  | notes {entry : Entry} (listed : entry ∈ layout.entries) : Exclusive layout entry.notes
  | remark {remark : Remark} (listed : remark ∈ layout.remarks) : Exclusive layout remark.block

/-- Nothing else uses the triples of annotations and of the nodes that point at axioms. -/
structure Apart (layout : Layout) : Prop where
  own : ∀ block, layout.Exclusive block → ∀ triple ∈ block, ¬ layout.Base triple ∧ ∀ entry ∈ layout.entries, triple ≠ entry.main
  group : ∀ triple ∈ layout.group, (∀ entry ∈ layout.entries, triple ∉ entry.block) ∧ ∀ remark ∈ layout.remarks, triple ∉ remark.block
  notes : ∀ entry ∈ layout.entries, ∀ triple ∈ entry.notes, triple ∈ entry.block ∧ (∀ other ∈ layout.entries, other.main ≠ entry.main → triple ∉ other.block) ∧
    ∀ remark ∈ layout.remarks, triple ∉ remark.block
  remarks : ∀ remark ∈ layout.remarks, ∀ triple ∈ remark.block, (∀ entry ∈ layout.entries, triple ∉ entry.block) ∧
    ∀ other ∈ layout.remarks, other ≠ remark → triple ∉ other.block

end Layout

namespace World

variable (world : World) (layout : Layout)

/-- What the graph says about the ontology itself. -/
structure Heads : Prop where
  stated : ∀ triple ∈ headerTriples layout.heading layout.header, triple ∈ world.graph
  sole : ∀ node, (⟨node, Rdf.type, Owl.Ontology⟩ : Triple) ∈ world.graph → node = layout.header
  about : ∀ triple ∈ world.graph, triple.subject = layout.header → triple ∈ headerTriples layout.heading layout.header ∨
    ∃ note ∈ layout.heading.annotations, triple = note.claim layout.header
  named : layout.heading.id.iri? = layout.header.iri?
  plain : ∀ note ∈ layout.heading.annotations, note.property ∉ [Rdf.type, Owl.versionIRI, Owl.imports]
  described : Annotation.DescribedEach world.graph world.Reifies layout.header layout.heading.annotations layout.group
  subset : ∀ triple ∈ layout.group, triple ∈ world.graph
  annotates : world.Annotates ( Annotation.componentsEach layout.heading.annotations)
  /-- What is read of different annotations is different. -/
  nodup : ∀ read, world.SameNotes layout.heading.annotations read → read.Nodup

/-- What the graph says about entities before any axiom is read. -/
structure Declares : Prop where
  told : ∀ entity : Entity, world.told entity → entity.kind.isBuiltin entity.iri = true ∨ entity.declaring ∈ world.graph
  isVariable : ∀ iri, world.isVariable iri ↔ variableTriple iri ∈ world.graph
  declared : ∀ entity : Entity, entity.declaring ∈ world.graph → entity.kind.isBuiltin entity.iri = false ∧ world.known entity ∧
    ∃ entry ∈ layout.entries, entry.main = entity.declaring
  early : ∀ entry ∈ layout.entries, entry.stage = .early → entry.block = [] ∧
    ∃ entity : Entity, entry.main = entity.declaring ∧ entry.fact = .of (.declaration entity) []
  later : ∀ entry ∈ layout.entries, entry.stage ≠ .early → ∀ entity : Entity, entry.main ≠ entity.declaring
  implied : ∀ iri type : Iri, (⟨iri, Rdf.type, type⟩ : Triple) ∈ world.graph → (Characteristic.ofType? type).isSome →
    world.known ⟨.objectProperty, iri⟩
  plain : ∀ iri : Iri, (⟨iri, Rdf.type, Rdfs.Class⟩ : Triple) ∉ world.graph

/-- What the graph says to state axioms. -/
structure States : Prop where
  mains : ∀ entry ∈ layout.entries, entry.main ∈ world.graph ∧ ¬ layout.Base entry.main
  blocks : ∀ entry ∈ layout.entries, ∀ triple ∈ entry.block, ¬ layout.Base triple ∧ ∀ other ∈ layout.entries, triple ≠ other.main
  candidates : ∀ session, world.Holds session → session.header = some layout.header →
    (∀ entry ∈ layout.entries, entry.stage = .candidate → session.isCandidate entry.main = true) ∧
    (∀ entry ∈ layout.entries, entry.stage = .late → session.isCandidate entry.main = false) ∧
    (∀ entry ∈ layout.entries, ∀ triple ∈ entry.block, triple ∈ world.graph → session.isCandidate triple = false) ∧
    ∀ block, layout.Exclusive block → ∀ triple ∈ block, triple ∈ world.graph → session.isCandidate triple = false
  /-- A forced reading is the same, since no kind is unknown. -/
  reads : ∀ entry ∈ layout.entries, entry.stage ≠ .early → ∀ forced session, world.Holds session → session.visiting = [] →
    world.Unused session entry.notes → ∃ after,
      Translation.statement entry.main { world.context with forced } session = (.ok entry.fact, after) ∧
        world.Step session after entry.block
  late : ∀ entry ∈ layout.entries, entry.stage = .late → entry.notes = [] ∧ ∃ remark ∈ layout.remarks, remark.entry = entry

/-- What the nodes say that add annotations to axioms. -/
structure Marks : Prop where
  listed : ∀ remark ∈ layout.remarks, remark.entry ∈ layout.entries
  nodes : ∀ node : Node, (⟨node, Rdf.type, Owl.Axiom⟩ : Triple) ∈ world.graph ↔ ∃ remark ∈ layout.remarks, node = remark.node
  typed : ∀ remark ∈ layout.remarks, (⟨remark.node, Rdf.type, Owl.Axiom⟩ : Triple) ∈ remark.block
  source : ∀ remark ∈ layout.remarks, ∀ object : Term, (⟨remark.node, Owl.annotatedSource, object⟩ : Triple) ∈ world.graph →
    object = remark.entry.main.subject
  /-- What is annotated is no annotation and no axiom that is annotated itself. -/
  bare : ∀ remark ∈ layout.remarks, ∀ type ∈ Role.pointerTypes,
    (⟨remark.entry.main.subject, Rdf.type, type⟩ : Triple) ∉ world.graph
  reads : ∀ remark ∈ layout.remarks, ∀ session, world.Holds session → session.visiting = [] → world.Unused session remark.block →
    ∃ notes after, Translation.readReification remark.node { world.context with forced := true } session =
        (.ok (remark.entry.main, notes), after) ∧ world.Step session after remark.block ∧
      AnnotatedAxiom.of remark.entry.fact.bare (remark.entry.fact.annotations ++ notes) = remark.fact
  annotated : ∀ remark ∈ layout.remarks, remark.entry.fact.annotations = [] ∧ remark.fact.annotations ≠ []
  single : ∀ remark ∈ layout.remarks, ∀ other ∈ layout.remarks, remark.node = other.node → remark = other

/-- The graph is laid out, and nothing else is in it. -/
structure LaidOut : Prop where
  heads : world.Heads layout
  declares : world.Declares layout
  states : world.States layout
  apart : layout.Apart
  marks : world.Marks layout
  cover : ∀ triple ∈ world.graph, layout.Used (fun triple => layout.Base triple ∨ triple ∈ layout.group) (fun _ => True) (fun _ => True) triple

/-- The world as it is known before the triples that declare entities and variables were all seen. -/
def sofar (seen : Triple → Prop) : World :=
  { world with
    isVariable := fun iri => seen (variableTriple iri)
    told := fun entity => entity.kind.isBuiltin entity.iri = true ∨ seen entity.declaring }

/-- How far a load has come: what it has used, which axioms it has read, and what it has read in the header. -/
structure Progress (base : Triple → Prop) (notes : List Annotation) (done : Triple → Prop) (merged : BlankNode → Prop)
    (session : Session) : Prop where
  clear : world.Clear (some layout.header) (layout.Used base done merged) (layout.Tells done merged) session
  produced : ∀ row ∈ world.rows, ∀ fact, session.produced[row.id]? = some fact ↔
    done row.triple ∧ ∃ entry ∈ layout.entries, entry.main = row.triple ∧ fact = entry.fact
  id : session.ontology.id = layout.heading.id
  imports : ∀ iri, iri ∈ session.ontology.imports ↔ iri ∈ layout.heading.imports
  annotations : session.ontology.annotations = notes

section Progress

variable {world layout} {base : Triple → Prop} {notes : List Annotation} {done : Triple → Prop} {merged : BlankNode → Prop} {session : Session}

theorem Progress.congr (progress : world.Progress layout base notes done merged session) {others known : Triple → Prop} {noted : BlankNode → Prop}
    (uses : ∀ triple ∈ world.graph, base triple ↔ others triple) (same : ∀ entry ∈ layout.entries, done entry.main ↔ known entry.main)
    (marked : ∀ remark ∈ layout.remarks, merged remark.node ↔ noted remark.node) :
    world.Progress layout others notes known noted session where
  clear := by
    refine progress.clear.congr (fun triple member => ?_) fun fact => or_congr ?_ ?_
    · refine or_congr (uses triple member) (or_congr ?_ ?_)
      · exact exists_congr fun entry => and_congr_right fun listed => and_congr_left fun _ => same entry listed
      · exact exists_congr fun remark => and_congr_right fun listed => and_congr_left fun _ => marked remark listed
    · refine exists_congr fun entry => and_congr_right fun listed => and_congr (same entry listed) (and_congr_right fun _ =>
        and_congr_right fun _ => forall₂_congr fun remark inside => ?_)
      rw [marked remark inside]
    · exact exists_congr fun remark => and_congr_right fun listed => and_congr_left fun _ => marked remark listed
  produced row member fact := by
    rw [progress.produced row member fact, and_comm, and_comm (a := known _)]
    refine and_congr_right ?_
    rintro ⟨entry, listed, main, -⟩
    rw [← main, same entry listed]
  id := progress.id
  imports := progress.imports
  annotations := progress.annotations

theorem Progress.retold (progress : world.Progress layout base notes done merged session) {isVariable : Iri → Prop} {told : Entity → Prop}
    (ruleVariables : Std.HashSet Iri) (names : ∀ iri, ruleVariables.contains iri = true ↔ isVariable iri)
    (has : ∀ entity, told entity → session.hasKind entity.iri entity.kind = true) :
    { world with isVariable, told }.Progress layout base notes done merged { session with ruleVariables } :=
  ⟨progress.clear.retold ruleVariables names has, progress.produced, progress.id, progress.imports, progress.annotations⟩

/-- What a reading learns and uses besides what is used already makes no progress. -/
theorem Progress.step (progress : world.Progress layout base notes done merged session) {after : Session} (step : world.Step session after []) :
    world.Progress layout base notes done merged after where
  clear := (progress.clear.step step).congr (by simp) fun _ => Iff.rfl
  produced := by rw [step.same]; exact progress.produced
  id := by rw [step.same]; exact progress.id
  imports := by rw [step.same]; exact progress.imports
  annotations := by rw [step.same]; exact progress.annotations

/-- An axiom was read of the triple of a row, and every axiom that the triple stands for is this one. -/
theorem Progress.commit (progress : world.Progress layout base notes done (fun _ => False) session) {row : Row} (member : row ∈ world.rows)
    {entry : Entry} (listed : entry ∈ layout.entries) (main : row.triple = entry.main) (soon : entry.stage ≠ .late)
    {after : Session} (step : world.Step session after entry.block)
    (alone : ∀ other ∈ layout.entries, other.main = entry.main → other.fact = entry.fact ∧
      ∀ triple ∈ world.graph, triple ∈ other.block → layout.Used base done (fun _ => False) triple ∨ triple ∈ entry.block) :
    world.Progress layout base notes (fun triple => done triple ∨ triple = row.triple) (fun _ => False)
      ((after.consume row.id).commit row.id entry.fact) where
  clear := by
    refine (((progress.clear.step step).consume member).commit row.id entry.fact).congr (fun triple known => ?_) fun fact => ?_
    · constructor
      · rintro (((stated | ⟨other, inside, finished, uses⟩ | ⟨_, _, ⟨⟩, _⟩) | within) | rfl)
        · exact .inl stated
        · exact .inr (.inl ⟨other, inside, .inl finished, uses⟩)
        · exact .inr (.inl ⟨entry, listed, .inr main.symm, .inr within⟩)
        · exact .inr (.inl ⟨entry, listed, .inr main.symm, .inl main⟩)
      · rintro (stated | ⟨other, inside, finished | same, uses⟩ | ⟨_, _, ⟨⟩, _⟩)
        · exact .inl (.inl (.inl stated))
        · exact .inl (.inl (.inr (.inl ⟨other, inside, finished, uses⟩)))
        · rcases uses with rfl | within
          · exact .inr same
          · exact .inl ((alone other inside (same.trans main)).2 triple known within)
    · constructor
      · rintro ((⟨other, inside, finished, others⟩ | ⟨_, _, ⟨⟩, _⟩) | rfl)
        · exact .inl ⟨other, inside, .inl finished, others⟩
        · exact .inl ⟨entry, listed, .inr main.symm, soon, rfl, fun _ _ => False.elim⟩
      · rintro (⟨other, inside, finished | same, others⟩ | ⟨_, _, ⟨⟩, _⟩)
        · exact .inl (.inl ⟨other, inside, finished, others⟩)
        · exact .inr (others.2.1.trans (alone other inside (same.trans main)).1)
  produced other present fact := by
    have before : after.produced = session.produced := by rw [step.same]
    change (after.produced.insert row.id entry.fact)[other.id]? = some fact ↔ _
    rw [step.holds.produced_insert member present, before]
    split
    · next same =>
      constructor
      · intro one
        exact ⟨.inr same, entry, listed, (same.trans main).symm, (Option.some.inj one).symm⟩
      · rintro ⟨-, known, inside, of, rfl⟩
        rw [(alone known inside (of.trans (same.trans main))).1]
    · next apart =>
      rw [progress.produced other present fact, or_iff_left apart]
  id := by
    change after.ontology.id = _
    rw [step.same]
    exact progress.id
  imports := by
    change ∀ iri, iri ∈ after.ontology.imports ↔ _
    rw [step.same]
    exact progress.imports
  annotations := by
    change after.ontology.annotations = _
    rw [step.same]
    exact progress.annotations

end Progress

end World

end OwlGraph
