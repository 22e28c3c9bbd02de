import OwlGraph.Proofs.RegularSessions

/-! Merging the annotations of nodes into axioms. Each merge replaces the axiom on record for a triple
by the same with further annotations, so no axiom is lost, whichever nodes there are and in whatever
order they come. A node that cannot be merged changes neither the axioms nor the triples. -/

namespace OwlGraph

namespace Merge

variable {ontology : Ontology} {merge : Merge} {fact : AnnotatedAxiom}

theorem bare_fact (normal : merge.base.Normal) : merge.fact.bare = merge.base.bare := by
  have same : (AnnotatedAxiom.of merge.base.bare merge.base.annotations).bare = merge.base.bare := congrArg AnnotatedAxiom.bare normal
  exact same

theorem mem_apply (sound : ontology.index.Sound) :
    fact ∈ (merge.apply ontology).axioms ↔ fact = merge.fact ∨ fact ≠ merge.base ∧ fact ∈ ontology.axioms := by
  rw [apply, Ontology.mem_axioms_add (sound.remove _), Ontology.mem_axioms_remove sound]

theorem coherent_apply (coherent : ontology.Coherent) : (merge.apply ontology).Coherent := (coherent.remove _).add _ _

/-- Merging loses no axiom, its annotations apart. -/
theorem exists_mem_foldl {merges : List Merge} (regular : ∀ merge ∈ merges, merge.base.Normal) : ∀ {ontology : Ontology}
    {fact : AnnotatedAxiom}, ontology.Coherent → fact ∈ ontology.axioms →
    ∃ notes, ⟨fact.bare, notes⟩ ∈ (merges.foldl apply ontology).axioms := by
  induction merges with
  | nil => exact fun {_ fact} _ member => ⟨fact.annotations, member⟩
  | cons merge rest ih =>
    intro ontology fact coherent member
    obtain ⟨first, others⟩ := List.forall_mem_cons.mp regular
    have applied : (merge.apply ontology).Coherent := coherent_apply coherent
    by_cases replaced : fact = merge.base
    · subst replaced
      obtain ⟨notes, kept⟩ := ih others applied ((mem_apply coherent.sound).mpr (.inl rfl))
      rw [bare_fact first] at kept
      exact ⟨notes, kept⟩
    · exact ih others applied ((mem_apply coherent.sound).mpr (.inr ⟨replaced, member⟩))

/-- An axiom that merging brings is one that was found, with the annotations that were read. -/
theorem of_mem_foldl {merges : List Merge} : ∀ {ontology : Ontology}, ontology.Coherent →
    fact ∈ (merges.foldl apply ontology).axioms → fact ∈ ontology.axioms ∨ ∃ merge ∈ merges, fact = merge.fact := by
  induction merges with
  | nil => exact fun _ => .inl
  | cons merge rest ih =>
    intro ontology coherent member
    rcases ih (coherent_apply coherent) member with before | ⟨other, later, same⟩
    · rcases (mem_apply coherent.sound).mp before with same | ⟨-, before⟩
      · exact .inr ⟨merge, List.mem_cons_self, same⟩
      · exact .inl before
    · exact .inr ⟨other, List.mem_cons_of_mem _ later, same⟩

end Merge

namespace Session

variable {session middle : Session}

theorem Keeps.rollback (keeps : session.Keeps middle) (point : Checkpoint) : session.Keeps (middle.rollback point) :=
  ⟨TripleStore.indexed_rollback keeps.indexed _, fun row => (TripleStore.mem_liveRows_rollback _ _).trans (keeps.rows row),
    keeps.ontology, keeps.produced⟩

theorem Keeps.consumeAll (indexed : session.store.Indexed) (rows : List Row) : session.Keeps (session.consumeAll rows) := by
  refine ⟨TripleStore.indexed_consumeAll indexed rows, fun row => ?_, rfl, rfl⟩
  change row ∈ (session.store.consumeAll rows).liveRows ↔ _
  rw [TripleStore.liveRows_consumeAll]

end Session

namespace Load

variable {α : Type} {context : Context} {session : Session}

/-- What the node adds to which axiom, if it waits for its axiom and that can be told. -/
def merge? (context : Context) (session : Session) (node : Node) : Option Merge :=
  if session.awaitsAxiom node then (Translation.readMerge node context session).1.toOption else none

theorem merge?_eq_some {node : Node} {merge : Merge} : merge? context session node = some merge ↔
    session.awaitsAxiom node = true ∧ (Translation.readMerge node context session).1 = .ok merge := by
  rw [merge?]
  split
  · next awaits =>
    rw [and_iff_right awaits]
    cases (Translation.readMerge node context session).1 <;> simp [Except.toOption]
  · next other => simp [other]

/-- What the nodes add, one after the other. -/
def merges (context : Context) : Session → List Node → List Merge
  | _, [] => []
  | session, node :: rest => (merge? context session node).toList ++ merges context (readAxiomNode node context session).2 rest

theorem readAxiomNode_awaiting {node : Node} (awaits : session.awaitsAxiom node = true) : readAxiomNode node context session =
    (attempt (Translation.mergeAnnotations node) >>= fun found =>
      if found.isNone then modify fun session => session.consumeAll (session.store.withSubject node) else pure ()) context session := by
  change (if session.awaitsAxiom node then _ else _ : Load Unit) context session = _
  rw [if_pos awaits]

theorem readAxiomNode_idle {node : Node} (idle : ¬ session.awaitsAxiom node = true) :
    readAxiomNode node context session = (.ok (), session) := by
  change (if session.awaitsAxiom node then _ else _ : Load Unit) context session = _
  rw [if_neg idle]
  rfl

/-- In the run over the nodes from the session, the node is reached in the middle one. -/
def ComesTo (context : Context) (session : Session) (nodes : List Node) (node : Node) (middle : Session) : Prop :=
  ∃ earlier later, nodes = earlier ++ node :: later ∧ earlier.forM readAxiomNode context session = (.ok (), middle)

/-- The node was merged: it points to the triple, the axiom is on record for it, and the merge replaced
the axiom. -/
structure Merged (context : Context) (session : Session) (merge : Merge) (after : Session) : Prop where
  annotates : session.Annotates merge.node merge.triple
  grows : session.Grows context after
  stands : after.StandsFor merge.triple merge.base
  ontology : after.ontology = merge.apply session.ontology

section Nodes

variable (mode : context.config.strict = false)
include mode

theorem attempt_of_ok {body : Translation α} {value : α} {middle : Session} (run : body context session = (.ok value, middle)) :
    ∃ reports, attempt body context session = (.ok (some value), { middle with pending := #[], reports }) := by
  rw [attempt_eq]
  exact conclude_of_ok mode run _ _ _ _ _ _

theorem attempt_of_error {body : Translation α} {halt : Halt} {middle : Session} (run : body context session = (.error halt, middle))
    (keeps : session.Keeps middle) : ∃ after, attempt body context session = (.ok none, after) ∧ session.Keeps after := by
  have back : session.Keeps (middle.rollback session.checkpoint) := keeps.rollback _
  rw [attempt_eq, conclude, run]
  cases halt with
  | deferred iri => exact ⟨_, rfl, back⟩
  | failed problem =>
    dsimp only
    rw [giveUp_lax _ _ _ mode]
    exact ⟨_, rfl, back.indexed, back.rows, back.ontology, back.produced⟩

/-- What comes of a node: it is merged, or no triple and no axiom changes. -/
theorem readAxiomNode_cases (orderly : Orderly session) (node : Node) :
    ∃ after, readAxiomNode node context session = (.ok (), after) ∧ Orderly after ∧
      ((∃ merge, merge? context session node = some merge ∧ merge.node = node ∧ Merged context session merge after) ∨
        merge? context session node = none ∧ session.Keeps after) := by
  obtain ⟨_, after, run, settled⟩ := Reaches.of_ends mode (fun _ _ => ends_readAxiomNode node) session orderly
  refine ⟨after, run, settled, ?_⟩
  by_cases awaits : session.awaitsAxiom node = true
  · have given : Run.Leads context session (Translation.readMerge node) _ _ := Translation.leads_readMerge orderly.indexed node
    rcases read : Translation.readMerge node context session with ⟨halt | merge, middle⟩
    · have keeps : session.Keeps middle := by
        have stopped := given.of_error (congrArg Prod.fst read)
        rwa [read] at stopped
      obtain ⟨last, attempted, kept⟩ := attempt_of_error mode (Translation.mergeAnnotations_error read) keeps
      rw [readAxiomNode_awaiting awaits, Run.bind_run attempted] at run
      cases run
      refine .inr ⟨by rw [merge?, if_pos awaits, read]; rfl, kept.trans ?_⟩
      exact Session.Keeps.consumeAll kept.indexed _
    · obtain ⟨same, annotates, finds⟩ := given.of_ok read
      obtain ⟨reports, attempted⟩ := attempt_of_ok mode (Translation.mergeAnnotations_ok read)
      rw [readAxiomNode_awaiting awaits, Run.bind_run attempted] at run
      cases run
      refine .inl ⟨merge, by rw [merge?, if_pos awaits, read]; rfl, same, same ▸ annotates, ?_, ?_, ?_⟩
      · exact ⟨finds.grows.indexed, finds.grows.rows, finds.grows.produced, finds.grows.fresh⟩
      · exact finds.stands
      · exact congrArg merge.apply finds.ontology
  · rw [readAxiomNode_idle awaits] at run
    cases run
    exact .inr ⟨if_neg awaits, .refl orderly.indexed⟩

/-- The run over the nodes makes the merges, and all that was there before is still there. -/
structure Merging (context : Context) (session : Session) (nodes : List Node) (after : Session) : Prop where
  run : nodes.forM readAxiomNode context session = (.ok (), after)
  orderly : Orderly after
  grows : session.Grows context after
  ontology : after.ontology = (merges context session nodes).foldl Merge.apply session.ontology
  stands : ∀ merge ∈ merges context session nodes, after.StandsFor merge.triple merge.base
  met : ∀ merge ∈ merges context session nodes, ∃ middle, ComesTo context session nodes merge.node middle ∧
    merge? context middle merge.node = some merge ∧ middle.Annotates merge.node merge.triple

theorem exists_merging (nodes : List Node) : ∀ {session : Session}, Orderly session → ∃ after, Merging context session nodes after := by
  induction nodes with
  | nil =>
    intro session orderly
    exact ⟨session, rfl, orderly, (Session.Keeps.refl orderly.indexed).grows, rfl, List.forall_mem_nil _, List.forall_mem_nil _⟩
  | cons node rest ih =>
    intro session orderly
    obtain ⟨middle, first, settled, result⟩ := readAxiomNode_cases mode orderly node
    obtain ⟨after, others⟩ := ih settled
    have run : (node :: rest).forM readAxiomNode context session = (.ok (), after) := (Run.bind_run first _).trans others.run
    have listed : merges context session (node :: rest) = (merge? context session node).toList ++ merges context middle rest := by
      rw [merges, first]
    have later {merge : Merge} (member : merge ∈ merges context middle rest) : ∃ last,
        ComesTo context session (node :: rest) merge.node last ∧ merge? context last merge.node = some merge ∧
        last.Annotates merge.node merge.triple := by
      obtain ⟨last, ⟨earlier, later, rfl, reached⟩, made⟩ := others.met merge member
      exact ⟨last, ⟨node :: earlier, later, rfl, (Run.bind_run first _).trans reached⟩, made⟩
    obtain ⟨merge, made, rfl, merged⟩ | ⟨none, keeps⟩ := result
    · rw [made, Option.toList_some] at listed
      refine ⟨after, run, others.orderly, merged.grows.trans others.grows, ?_, ?_, ?_⟩
      · rw [listed, List.singleton_append, List.foldl_cons, ← merged.ontology]
        exact others.ontology
      · rw [listed]
        exact List.forall_mem_cons.mpr ⟨merged.stands.grows others.grows, others.stands⟩
      · rw [listed]
        exact List.forall_mem_cons.mpr ⟨⟨session, ⟨[], rest, rfl, rfl⟩, made, merged.annotates⟩, fun _ => later⟩
    · rw [none, Option.toList_none, List.nil_append] at listed
      refine ⟨after, run, others.orderly, keeps.grows.trans others.grows, ?_, ?_, ?_⟩
      · rw [listed, ← keeps.ontology]
        exact others.ontology
      · rw [listed]
        exact others.stands
      · rw [listed]
        exact fun _ => later

end Nodes

/-- Only axioms in normal form are replaced. -/
theorem Merging.normal {nodes : List Node} {rows : List Row} {after : Session} (merging : Merging context session nodes after)
    (regular : session.Regular rows) : ∀ merge ∈ merges context session nodes, merge.base.Normal := by
  intro merge member
  rcases merging.grows.fresh _ _ (merging.stands merge member) with ⟨id, -, known⟩ | read
  · exact regular.normal id _ known
  · exact read.normal

end Load

/-- Merging the annotations of nodes, whichever they are, after the axioms of a lax load were
translated: the axioms are still there, with whatever annotations; one that is new is the axiom on
record for the triple that a node points to, with its annotations and those read on the node; and a
node that cannot be merged changes neither the axioms nor those on record nor the triples. -/
theorem merging_keeps_axioms {config : Config} (mode : config.strict = false) {number : Nat} {document : Option Iri}
    {triples : List Triple} {session : Session}
    (run : (Load.prepare >>= fun _ => Load.translateAxioms) ⟨config, number, false⟩ (Load.start document triples) = (.ok (), session))
    (nodes : List Node) :
    let context : Context := ⟨config, number, true⟩
    ∃ after, nodes.forM Load.readAxiomNode context session = (.ok (), after) ∧
      (nodes = session.axiomNodes → Load.withDefaults Load.readAxiomAnnotations ⟨config, number, false⟩ session = (.ok (), after)) ∧
      (∀ fact ∈ session.ontology.axioms, ∃ notes, ⟨fact.bare, notes⟩ ∈ after.ontology.axioms) ∧
      (∀ fact ∈ after.ontology.axioms, fact ∉ session.ontology.axioms → ∃ node middle triple base notes,
        Load.ComesTo context session nodes node middle ∧ middle.awaitsAxiom node = true ∧ middle.Annotates node triple ∧
        (Translation.readReification node context middle).1 = .ok (triple, notes) ∧ after.StandsFor triple base ∧
        fact = .of base.bare (base.annotations ++ notes)) ∧
      ∀ node middle halt, Load.ComesTo context session nodes node middle →
        (Translation.mergeAnnotations node context middle).1 = .error halt →
        ∃ next, Load.readAxiomNode node context middle = (.ok (), next) ∧ middle.Keeps next := by
  intro context
  obtain ⟨regular, orderly⟩ := Load.regular_translateAxioms mode run
  obtain ⟨after, merging⟩ : ∃ after, Load.Merging context session nodes after := Load.exists_merging mode nodes orderly
  refine ⟨after, merging.run, fun same => ?_, fun fact member => ?_, fun fact member fresh => ?_, fun node middle halt reached failed => ?_⟩
  · subst same
    exact merging.run
  · rw [merging.ontology]
    exact Merge.exists_mem_foldl (merging.normal regular) regular.coherent member
  · rw [merging.ontology] at member
    obtain ⟨merge, made, rfl⟩ := (Merge.of_mem_foldl regular.coherent member).resolve_left fresh
    obtain ⟨middle, reached, some, annotates⟩ := merging.met merge made
    obtain ⟨awaits, read⟩ := Load.merge?_eq_some.mp some
    exact ⟨merge.node, middle, merge.triple, merge.base, merge.notes, reached, awaits, annotates,
      Translation.readReification_of_readMerge read, merging.stands merge made, rfl⟩
  · obtain ⟨earlier, later, -, passed⟩ := reached
    obtain ⟨other, before⟩ : ∃ other, Load.Merging context session earlier other := Load.exists_merging mode earlier orderly
    obtain rfl : other = middle := congrArg Prod.snd (before.run.symm.trans passed)
    obtain ⟨next, result, -, ⟨merge, some, -⟩ | ⟨-, keeps⟩⟩ := @Load.readAxiomNode_cases context _ mode before.orderly node
    · obtain ⟨-, read⟩ := Load.merge?_eq_some.mp some
      rw [Translation.mergeAnnotations_ok (Prod.ext read rfl)] at failed
      cases failed
    · exact ⟨next, result, keeps⟩

namespace Samples

/-- The node that stands for the declaration. -/
def standIn : BlankNode := ⟨"x"⟩

/-- A class, and a node with a remark that stands for its declaration. -/
def remarked : List Triple :=
  [⟨resource, Rdf.type, Owl.Class⟩, ⟨standIn, Rdf.type, Owl.Axiom⟩, ⟨standIn, Owl.annotatedSource, resource⟩,
    ⟨standIn, Owl.annotatedProperty, Rdf.type⟩, ⟨standIn, Owl.annotatedTarget, Owl.Class⟩,
    ⟨standIn, Rdfs.comment, .literal (.simple "note")⟩]

def standInRows : List Row :=
  [⟨1, standIn, Rdf.type, Owl.Axiom⟩, ⟨2, standIn, Owl.annotatedSource, resource⟩, ⟨3, standIn, Owl.annotatedProperty, Rdf.type⟩,
    ⟨4, standIn, Owl.annotatedTarget, Owl.Class⟩, ⟨5, standIn, Rdfs.comment, .literal (.simple "note")⟩]

def bareDeclaration : AnnotatedAxiom := .of (.declaration ⟨.cls, resource⟩) []

theorem translated_remarked (context : Context) : ∃ session,
    (Load.prepare >>= fun _ => Load.translateAxioms) context (Load.start none remarked) = (.ok (), session) ∧
      session.axiomNodes = [standIn] ∧ bareDeclaration ∈ session.ontology.axioms := by
  let start := Load.start none remarked
  let told := (∅ : Std.HashSet Entity).insert ⟨.cls, resource⟩
  obtain ⟨known, same⟩ : ∃ known, (Session.consume { start with kinds := told, kindsChanged := true } 0).commit 0 bareDeclaration = known :=
    ⟨_, rfl⟩
  have begin : start.store.Lists (⟨0, resource, Rdf.type, Owl.Class⟩ :: standInRows) [] := TripleStore.lists_ofTriples (by decide)
  have listed : known.store.Lists (⟨0, resource, Rdf.type, Owl.Class⟩ :: standInRows) [0] := same ▸ begin.consume 0
  have declared : start.readDeclarations context.config.strict = known := by
    have types : start.unused (start.store.withPredicate Rdf.type) =
        [⟨0, resource, Rdf.type, Owl.Class⟩, ⟨1, standIn, Rdf.type, Owl.Axiom⟩] := by
      rw [begin.indexed.withPredicate, begin.listed, Session.unused_of_lists begin fun row => List.mem_of_mem_filter]
      decide
    have learned : start.learn resource .cls = { start with kinds := told, kindsChanged := true } :=
      if_neg (Bool.eq_false_iff.mp Std.HashSet.contains_empty)
    rw [Session.readDeclarations, types]
    change ((start.learn resource .cls).consume 0).commit 0 bareDeclaration = known
    rw [learned]
    exact same
  have header : known.header = none := same ▸ rfl
  have prepared : Load.prepare context start = (.ok (), known) := by
    have none : start.ontologyNodes = [] := by
      rw [Session.ontologyNodes, begin.indexed.withPredicate, begin.listed]
      decide
    rw [Load.prepare, Run.bind_run (Load.readHeader_absent none)]
    change Load.readHeaderAnnotations context (start.readDeclarations context.config.strict) = _
    rw [declared, Load.readHeaderAnnotations_absent header]
  have special : known.isSpecial standIn = true := by
    rw [Session.isSpecial, header, TripleStore.types, TripleStore.objects, TripleStore.matching, listed.indexed.withSubject, listed.listed]
    decide
  have unconsumed : known.store.unconsumed = standInRows := by
    rw [listed.unconsumed]
    decide
  have parts : ∀ row ∈ standInRows, known.isCandidate row.triple = false := by
    intro row member
    have typing : row.triple.predicate = Rdf.type → row.triple = ⟨standIn, Rdf.type, Owl.Axiom⟩ := by
      revert row
      decide
    have own : row.triple.subject = standIn := by
      revert row
      decide
    by_cases typed : row.triple.predicate = Rdf.type
    · rw [typing typed]
      exact Session.isCandidate_type_eq_false (by decide) (by decide) known standIn
    · simp [Session.isCandidate, typed, own, special]
  have candidates : (known.store.unconsumed.filter fun row => known.isCandidate row.triple) = [] := by
    rw [unconsumed, List.filter_eq_nil_iff]
    exact fun row member => Bool.eq_false_iff.mp (parts row member)
  have nodes : known.axiomNodes = [standIn] := by
    rw [Session.axiomNodes, listed.indexed.withObject, listed.listed, Session.unused_of_lists listed fun row => List.mem_of_mem_filter]
    decide
  have told : bareDeclaration ∈ known.ontology.axioms := same ▸ (Ontology.mem_axioms_add AxiomIndex.sound_empty).mpr (.inl rfl)
  exact ⟨known, (Run.bind_run prepared _).trans (Load.translateAxioms_absent candidates), nodes, told⟩

end Samples
/-- The declaration of the class is still there when the remark has been merged. -/
theorem merging_keeps_axioms_remarked :
    let context : Context := ⟨{ strict := false }, 0, false⟩
    ∃ session after, (Load.prepare >>= fun _ => Load.translateAxioms) context (Load.start none Samples.remarked) = (.ok (), session) ∧
      session.axiomNodes = [.blank Samples.standIn] ∧ Samples.bareDeclaration ∈ session.ontology.axioms ∧
      Load.withDefaults Load.readAxiomAnnotations context session = (.ok (), after) ∧
      ∃ notes, ⟨Samples.bareDeclaration.bare, notes⟩ ∈ after.ontology.axioms := by
  intro context
  obtain ⟨session, run, nodes, told⟩ := Samples.translated_remarked context
  obtain ⟨after, -, merged, kept, -⟩ := @merging_keeps_axioms context.config rfl 0 none Samples.remarked session run session.axiomNodes
  exact ⟨session, after, run, nodes, told, merged rfl, kept _ told⟩

end OwlGraph
