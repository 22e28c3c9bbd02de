import Mathlib.Data.List.Pairwise
import OwlGraph.Proofs.AnnotationTrees
import OwlGraph.Proofs.RenamingBack
import OwlGraph.Proofs.StatementReading

/-! Reading annotations. Unlike a construct, an annotation is read only as long as nothing has
used its triples, and the annotations of a node come in the order of its triples. So what is
read is told up to the order of siblings. -/

namespace OwlGraph

namespace Annotation

variable {graph : List Triple} {stands : Node → Triple → Prop} {source : Node}

theorem Described.claim_mem {note : Annotation} {block : List Triple} (described : Described graph stands source note block) :
    note.claim source ∈ block := by
  obtain ⟨property, value, notes⟩ := note
  obtain ⟨inner, -, -, rfl, -⟩ := described
  exact List.mem_cons_self

theorem Described.claim_mem_graph {note : Annotation} {block : List Triple} (described : Described graph stands source note block) :
    note.claim source ∈ graph := by
  obtain ⟨property, value, notes⟩ := note
  obtain ⟨inner, listed, -⟩ := described
  exact listed

/-- An annotation with the triples that describe it. -/
abbrev Part := Annotation × List Triple

/-- The parts have no triple in common. -/
def Part.Apart (one two : Part) : Prop := ∀ triple ∈ one.2, triple ∉ two.2

theorem Part.Apart.symm : ∀ {one two : Part}, one.Apart two → two.Apart one :=
  fun apart triple inside within => apart triple within inside

instance : Std.Symm Part.Apart := ⟨fun _ _ => Part.Apart.symm⟩

/-- The annotations one by one, each with the triples that describe it. -/
theorem DescribedEach.parts : ∀ {notes : List Annotation} {block : List Triple}, DescribedEach graph stands source notes block →
    ∃ parts : List Part, parts.map Prod.fst = notes ∧ (∀ triple, triple ∈ block ↔ triple ∈ parts.flatMap Prod.snd) ∧
      (∀ part ∈ parts, Described graph stands source part.1 part.2) ∧ parts.Pairwise Part.Apart
  | [], block, described => ⟨[], rfl, fun triple => by simp [show block = [] from described], by simp, .nil⟩
  | note :: notes, block, described => by
    obtain ⟨first, rest, own, others, apart, rfl⟩ := described
    obtain ⟨parts, rfl, cover, each, distinct⟩ := others.parts
    refine ⟨(note, first) :: parts, rfl, fun triple => ?_, List.forall_mem_cons.mpr ⟨own, each⟩, .cons ?_ distinct⟩
    · rw [List.mem_append, cover triple, List.flatMap_cons, List.mem_append]
    · exact fun part member triple inside within => apart triple inside ((cover triple).mpr (List.mem_flatMap.mpr ⟨part, member, within⟩))

/-- About the source itself the block says nothing but the annotations. -/
theorem DescribedEach.claim_of_subject {notes : List Annotation} {block : List Triple}
    (described : DescribedEach graph stands source notes block) {triple : Triple} (member : triple ∈ block)
    (own : triple.subject = source) : ∃ note ∈ notes, triple = note.claim source := by
  obtain ⟨parts, rfl, cover, each, -⟩ := described.parts
  obtain ⟨part, inside, within⟩ := List.mem_flatMap.mp ((cover triple).mp member)
  refine ⟨part.1, List.mem_map_of_mem inside, ?_⟩
  obtain ⟨⟨property, value, notes⟩, block⟩ := part
  obtain ⟨inner, -, apart, rfl, -⟩ := each _ inside
  exact (List.mem_cons.mp within).resolve_right fun deeper => apart triple deeper own

end Annotation

namespace World

variable {world : World}

/-- Nothing has used a triple of the block yet. -/
def Unused (world : World) (session : Session) (block : List Triple) : Prop :=
  ∀ row ∈ world.rows, row.triple ∈ block → session.store.isConsumed row.id = false

theorem Unused.mono {session : Session} {block part : List Triple} (unused : world.Unused session block)
    (subset : ∀ triple ∈ part, triple ∈ block) : world.Unused session part :=
  fun row member inside => unused row member (subset _ inside)

theorem Step.unused {session after : Session} {used block : List Triple} (step : world.Step session after used)
    (unused : world.Unused session block) (apart : ∀ triple ∈ block, triple ∉ used) : world.Unused after block := by
  intro row member inside
  rw [Bool.eq_false_iff]
  intro consumed
  rcases (step.used row member).mp consumed with before | now
  · rw [unused row member inside] at before
    cases before
  · exact apart _ inside now

/-- What is under a node: the triples about other nodes. -/
def beneath (source : Node) (block : List Triple) : List Triple :=
  block.filter fun triple => triple.subject ≠ source

/-- The node stands for the triple, and nothing used it up from the beginning. -/
structure Reifies (world : World) (node : Node) (triple : Triple) : Prop where
  source : ∃ row ∈ world.rows, row.triple = ⟨node, Owl.annotatedSource, triple.subject⟩ ∧ ¬ world.spent row
  type : (⟨node, Rdf.type, Owl.Annotation⟩ : Triple) ∈ world.graph ∨ (⟨node, Rdf.type, Owl.Axiom⟩ : Triple) ∈ world.graph
  property : (⟨node, Owl.annotatedProperty, triple.predicate⟩ : Triple) ∈ world.graph
  target : (⟨node, Owl.annotatedTarget, triple.object⟩ : Triple) ∈ world.graph

/-- An assertion of the property is taken for an annotation, and none for saying what a node stands for. -/
structure Notable (world : World) (property : Iri) : Prop where
  known : world.known ⟨.annotationProperty, property⟩
  told : world.told ⟨.annotationProperty, property⟩
  plain : property ∉ pointerPredicates

/-- The properties of the annotations among the components are notable. -/
def Annotates (world : World) : List Component → Prop :=
  Component.Every fun entity => entity.kind = .annotationProperty → world.Notable entity.iri

theorem Annotates.property {note : Annotation} (annotates : world.Annotates note.components) : world.Notable note.property := by
  obtain ⟨property, value, notes⟩ := note
  exact annotates _ List.mem_cons_self rfl

theorem Annotates.inner {note : Annotation} (annotates : world.Annotates note.components) :
    world.Annotates ( Annotation.componentsEach note.annotations) := by
  obtain ⟨property, value, notes⟩ := note
  exact annotates.tail.tail

theorem Annotates.note {notes : List Annotation} (annotates : world.Annotates ( Annotation.componentsEach notes))
    {note : Annotation} (member : note ∈ notes) : world.Annotates note.components := by
  refine annotates.mono fun component inside => ?_
  rw [ Annotation.componentsEach_eq]
  exact List.mem_flatMap.mpr ⟨note, member, inside⟩

/-- No assertion of the property is taken for an annotation. -/
def Skips (world : World) (property : Iri) : Prop := ∀ session, world.Holds session → session.isAnnotationProperty property = false

section Notes

variable {session : Session} {source : Node} {note : Annotation} {block : List Triple}

/-- A type triple makes no annotation. -/
theorem Coherent.skips_type (coherent : world.Coherent) : world.Skips Rdf.type := by
  intro session holds
  have facts : Rdf.type.isBuiltinAnnotationProperty = false ∧ Rdf.type.isReserved = true := by decide
  rw [Session.isAnnotationProperty]
  split
  next kind found =>
    cases kind with
    | annotating =>
      have has : session.hasKind Rdf.type PropertyKind.annotating.entityKind = true := by
        simpa using List.find?_some found
      refine absurd (holds.stands has) (not_or.mpr ⟨?_, fun known => ?_⟩)
      · exact fun built => absurd (facts.1.symm.trans built) (by decide)
      · exact Iri.isPlain_not_predicate (coherent.plain _ known) (by simp [Role.predicates])
    | _ => rfl
  next => rw [facts.2]; rfl

theorem YieldsAt.readNote_skipped (holds : world.Holds session) (inner : Node → Translation (List Annotation)) {row : Row}
    (skips : world.Skips row.triple.predicate) : world.YieldsAt session (Translation.readNote inner row) none [] [] := by
  intro _
  refine ⟨session, ?_, Step.refl holds⟩
  obtain ⟨id, subject, predicate, object⟩ := row
  change (if session.isAnnotationProperty predicate = true then _ else _ : Translation _) world.context session = _
  rw [skips session holds]
  rfl

theorem Holds.mem_objects (holds : world.Holds session) {node : Node} {predicate : Iri} {object : Term} :
    object ∈ session.store.objects node predicate ↔ (⟨node, predicate, object⟩ : Triple) ∈ world.graph := by
  rw [TripleStore.objects, holds.matching, World.graph, List.mem_map, List.mem_map]
  simp only [List.mem_filter, Bool.and_eq_true, beq_iff_eq]
  constructor
  · rintro ⟨row, ⟨member, rfl, rfl⟩, rfl⟩
    exact ⟨row, member, rfl⟩
  · rintro ⟨row, member, same⟩
    exact ⟨row, ⟨member, by rw [same], by rw [same]⟩, by rw [same]⟩

theorem Holds.hasType (holds : world.Holds session) {node : Node} {cls : Iri} :
    session.store.hasType node cls = true ↔ (⟨node, Rdf.type, cls⟩ : Triple) ∈ world.graph := by
  rw [TripleStore.hasType, TripleStore.types, List.contains_eq_mem, decide_eq_true_iff, List.mem_filterMap, ← holds.mem_objects]
  constructor
  · rintro ⟨term, member, named⟩
    rwa [← Term.iri?_eq_some.mp named]
  · exact fun member => ⟨_, member, rfl⟩

section Reifiers

variable {property : Iri} {value : Term}

/-- The nodes that stand for a triple and are not used up yet. -/
theorem Holds.mem_reifiers (holds : world.Holds session) {node : Node} : node ∈ session.reifiers source property value ↔
    (∃ row ∈ world.rows, row.triple = ⟨node, Owl.annotatedSource, source⟩ ∧ session.store.isConsumed row.id = false) ∧
    ((⟨node, Rdf.type, Owl.Annotation⟩ : Triple) ∈ world.graph ∨ (⟨node, Rdf.type, Owl.Axiom⟩ : Triple) ∈ world.graph) ∧
    (⟨node, Owl.annotatedProperty, property⟩ : Triple) ∈ world.graph ∧ (⟨node, Owl.annotatedTarget, value⟩ : Triple) ∈ world.graph := by
  have rows : (∃ row ∈ session.unused (session.store.withObject source),
      (if row.triple.predicate = Owl.annotatedSource then some row.triple.subject else none) = some node) ↔
      ∃ row ∈ world.rows, row.triple = ⟨node, Owl.annotatedSource, source⟩ ∧ session.store.isConsumed row.id = false := by
    rw [Session.unused, holds.withObject]
    constructor
    · rintro ⟨row, member, kept⟩
      obtain ⟨present, free, object⟩ : row ∈ world.rows ∧ session.store.isConsumed row.id = false ∧ row.triple.object = source := by
        simpa using member
      split at kept
      next predicate =>
        refine ⟨row, present, ?_, free⟩
        rw [← Option.some.inj kept, ← predicate, ← object]
      next => cases kept
    · rintro ⟨row, present, same, free⟩
      exact ⟨row, by simp [present, free, same], by simp [same]⟩
  rw [Session.reifiers, List.mem_filter, List.mem_filterMap, rows, Bool.and_eq_true, Bool.and_eq_true, Session.standsForTriple,
    Bool.or_eq_true, holds.hasType, holds.hasType, List.contains_eq_mem, List.contains_eq_mem, decide_eq_true_iff,
    decide_eq_true_iff, holds.mem_objects, holds.mem_objects, and_assoc]

theorem Holds.reifies (holds : world.Holds session) {node : Node} (member : node ∈ session.reifiers source property value) :
    world.Reifies node ⟨source, property, value⟩ := by
  obtain ⟨⟨row, present, same, free⟩, typed, points, target⟩ := holds.mem_reifiers.mp member
  refine ⟨⟨row, present, same, fun spent => ?_⟩, typed, points, target⟩
  rw [holds.spent row present spent] at free
  cases free

private theorem filterMap_ite {α β : Type} (test : α → Prop) [DecidablePred test] (image : α → β) (items : List α) :
    (items.filterMap fun item => if test item then some (image item) else none) = (items.filter fun item => test item).map image := by
  induction items with
  | nil => rfl
  | cons item rest ih => by_cases kept : test item <;> simp [kept, ih]

theorem Holds.nodup_reifiers (holds : world.Holds session) : (session.reifiers source property value).Nodup := by
  rw [Session.reifiers, Session.unused, holds.withObject, filterMap_ite]
  refine List.Nodup.filter _ (List.Nodup.map_on ?_ ((List.Nodup.of_map Row.triple holds.nodup_graph).filter _ |>.filter _ |>.filter _))
  rintro ⟨id, one⟩ first ⟨other, two⟩ second same
  simp only [List.mem_filter, beq_iff_eq, decide_eq_true_iff] at first second
  refine holds.row_eq first.1.1.1 second.1.1.1 ?_
  cases one
  cases two
  simp_all

/-- The one node that points at the triple is found, as long as it is unused. -/
theorem Holds.reifiers_eq (holds : world.Holds session) {node : BlankNode}
    (only : ∀ other, world.Reifies other ⟨source, property, value⟩ → other = node)
    (bears : Bears world.graph node (pointerValues Owl.Annotation ⟨source, property, value⟩))
    (unused : world.Unused session (triplesAt node (pointerValues Owl.Annotation ⟨source, property, value⟩))) :
    session.reifiers source property value = [.blank node] := by
  have listed : ∀ value' ∈ pointerValues Owl.Annotation ⟨source, property, value⟩,
      (⟨node, value'.1, value'.2⟩ : Triple) ∈ world.graph := fun value' member =>
    (bears _ (List.mem_map_of_mem member) _).mpr member
  have found : Node.blank node ∈ session.reifiers source property value := by
    obtain ⟨row, member, same⟩ := List.mem_map.mp (listed (Owl.annotatedSource, (source : Term)) (by simp [pointerValues]))
    refine holds.mem_reifiers.mpr ⟨⟨row, member, same, unused row member ?_⟩, .inl ?_, ?_, ?_⟩
    · rw [same]
      exact List.mem_map.mpr ⟨(Owl.annotatedSource, (source : Term)), by simp [pointerValues], rfl⟩
    · exact listed (Rdf.type, (Owl.Annotation : Term)) (by simp [pointerValues])
    · exact listed (Owl.annotatedProperty, (property : Term)) (by simp [pointerValues])
    · exact listed (Owl.annotatedTarget, value) (by simp [pointerValues])
  refine List.perm_singleton.mp ((List.perm_ext_iff_of_nodup holds.nodup_reifiers (List.nodup_singleton _)).mpr fun other => ?_)
  rw [List.mem_singleton]
  exact ⟨fun member => only other (holds.reifies member), fun same => same ▸ found⟩

end Reifiers

/-- The triples that say for which triple the node stands are used, and no others. -/
theorem Yields.consumeReification {main : Triple} {node : BlankNode} {notes : List Annotation} {type : Iri} (known : type ∈ Role.pointerTypes)
    (pointer : Pointer world.graph type main node notes) (notable : ∀ note ∈ notes, world.Notable note.property) :
    world.Yields (Translation.consumeReification node) () [] (triplesAt node (pointerValues type main)) := by
  have reifies : ∀ value ∈ pointerValues type main, isReification ⟨node, value.1, value.2⟩ = true := by
    have apart : Owl.annotatedSource ≠ Rdf.type ∧ Owl.annotatedProperty ≠ Rdf.type ∧ Owl.annotatedTarget ≠ Rdf.type := by
      decide
    simpa [pointerValues, isReification, apart, Role.pointerTypes] using known
  refine Yields.get fun session holds => ?_
  rw [holds.withSubject, List.filter_filter]
  refine Yields.weaken (Yields.consumeAll fun row member => (List.mem_filter.mp member).1) (by simp) (fun triple => ?_)
    session holds
  simp only [List.mem_map, List.mem_filter, Bool.and_eq_true, beq_iff_eq, triplesAt]
  constructor
  · rintro ⟨⟨id, subject, predicate, object⟩, ⟨member, reified, rfl⟩, rfl⟩
    rcases pointer.alone predicate object (List.mem_map_of_mem (f := Row.triple) member) with listed | ⟨note, inside, rfl, rfl⟩
    · exact ⟨_, listed, rfl⟩
    · have plain := (notable note inside).plain
      simp only [pointerPredicates, List.mem_cons, List.not_mem_nil, not_or, or_false] at plain
      simp [isReification, plain] at reified
  · rintro ⟨value, member, rfl⟩
    obtain ⟨row, inside, same⟩ := List.mem_map.mp ((pointer.bears _ (List.mem_map_of_mem member) value.2).mpr member)
    exact ⟨row, ⟨inside, by rw [same]; exact reifies value member, by rw [same]⟩, same⟩

/-- The annotations that are read of a node are these, up to their order and the names of anonymous individuals. -/
def SameNotes (world : World) (notes read : List Annotation) : Prop :=
  Annotation.AlikeEach (notes.map ( Annotation.rename world.anonymous)) read

/-- On the node only the annotations are left to be read. -/
def Left (world : World) (session : Session) (node : Node) (notes : List Annotation) : Prop :=
  ∀ row ∈ world.rows, row.triple.subject = node → session.store.isConsumed row.id = false →
    world.Skips row.triple.predicate ∨ ∃ note ∈ notes, row.triple = note.claim node

theorem mem_beneath {triple : Triple} : triple ∈ beneath source block ↔ triple ∈ block ∧ triple.subject ≠ source := by
  simp [beneath]

/-- The node that points at an annotation is read after the triples that make it point there. -/
theorem FindsAt.pointer (holds : world.Holds session) {main : Triple} {node : BlankNode} {notes : List Annotation}
    {rest : List Triple} (notable : ∀ note ∈ notes, world.Notable note.property)
    (pointer : Pointer world.graph Owl.Annotation main node notes)
    (described : Annotation.DescribedEach world.graph world.Reifies node notes rest)
    (unused : world.Unused session rest) {inner : Node → Translation (List Annotation)}
    (reads : ∀ after, world.Holds after → world.Unused after rest → world.Left after node notes →
      world.FindsAt after (inner node) (world.SameNotes notes) (beneath node rest) rest) :
    world.FindsAt session (Translation.nested node do
        Translation.consumeReification node
        inner node) (world.SameNotes notes)
      (triplesAt node (pointerValues Owl.Annotation main) ++ rest)
      (triplesAt node (pointerValues Owl.Annotation main) ++ rest) := by
  have reification := Yields.consumeReification (by simp [Role.pointerTypes]) pointer notable
  refine FindsAt.nested
    (FindsAt.after reification (holds.entered node) fun inside step => reads inside step.holds ?_ ?_) (fun triple within => (mem_beneath.mp within).2) rfl
    (List.mem_append_left rest (List.mem_map.mpr ⟨(Rdf.type, (Owl.Annotation : Term)), by simp [pointerValues], rfl⟩))
    (fun triple within => List.mem_append_right _ (mem_beneath.mp within).1)
  · refine step.unused (fun row member within => unused row member within) fun triple within pointing => ?_
    obtain ⟨value, listed, rfl⟩ := List.mem_map.mp pointing
    obtain ⟨note, present, same⟩ := described.claim_of_subject within rfl
    have key : value.1 = note.property := congrArg Triple.predicate same
    refine (notable note present).plain ?_
    rw [← key]
    exact List.mem_map_of_mem (f := Prod.fst) listed
  · intro row member own free
    obtain ⟨id, subject, predicate, object⟩ := row
    cases own
    rcases pointer.alone predicate object (List.mem_map_of_mem (f := Row.triple) member) with listed | ⟨note, present, rfl, rfl⟩
    · have consumed := (step.used _ member).mpr (Or.inr (List.mem_map.mpr ⟨_, listed, rfl⟩))
      rw [free] at consumed
      cases consumed
    · exact Or.inr ⟨note, present, rfl⟩

/-- What is done about a triple whose predicate is an annotation property. -/
private theorem readNote_annotating (inner : Node → Translation (List Annotation)) (context : Context) (id : TripleId)
    {property : Iri} {value : Term} (annotating : session.isAnnotationProperty property = true) :
    Translation.readNote inner ⟨id, ⟨source, property, value⟩⟩ context session = (do
      Translation.learn property .annotationProperty
      let value' ← Translation.annotationValue value
      Translation.consume id
      let session ← MonadState.get
      let read ← (session.reifiers source property value).mapM fun reifier => Translation.nested reifier do
        Translation.consumeReification reifier
        inner reifier
      return some ( Annotation.mk property value' read.flatten) : Translation (Option Annotation)) context session := by
  have step : Translation.readNote inner ⟨id, ⟨source, property, value⟩⟩ context session =
      (if session.isAnnotationProperty property = true then _ else _ : Translation (Option Annotation)) context session := rfl
  rw [step, if_pos annotating]

/-- A triple of an annotation is read as that annotation, with whatever is under it. -/
theorem FindsAt.readNote (settled : world.Settled) (holds : world.Holds session)
    (described : note.Described world.graph world.Reifies source block) (annotates : world.Annotates note.components) {row : Row}
    (member : row ∈ world.rows) (same : row.triple = note.claim source) (unused : world.Unused session block)
    {inner : Node → Translation (List Annotation)}
    (reads : ∀ (node : BlankNode) (rest : List Triple) (after : Session),
      Annotation.DescribedEach world.graph world.Reifies node note.annotations rest →
      (∀ triple ∈ rest, triple ∈ block ∧ triple.subject ≠ source) → world.Holds after → world.Unused after rest →
      world.Left after node note.annotations →
      world.FindsAt after (inner node) (world.SameNotes note.annotations) (beneath node rest) rest) :
    world.FindsAt session (Translation.readNote inner row)
      (fun read => ∃ own, read = some own ∧ (note.rename world.anonymous).Alike own) (beneath source block) block := by
  have notable := annotates.property
  have inside : ∀ other ∈ note.annotations, world.Notable other.property := fun other present => (annotates.inner.note present).property
  obtain ⟨property, value, notes⟩ := note
  obtain ⟨under, listed, apart, rfl, reified⟩ := described
  obtain ⟨number, triple⟩ := row
  obtain rfl : triple = ⟨source, property, value⟩ := same
  have annotating : session.isAnnotationProperty property = true := by
    rw [Session.isAnnotationProperty, holds.propertyKind? settled .annotating notable.told]
    rfl
  -- The nodes that point at the triple, after it was used.
  have pointers : ∀ after, world.Holds after → world.Unused after under →
      world.FindsAt after ((after.reifiers source property value).mapM fun reifier => Translation.nested reifier do
        Translation.consumeReification reifier
        inner reifier) (fun read => world.SameNotes notes read.flatten) under under := by
    intro after holds free
    rcases reified with ⟨rfl, rfl, none⟩ | ⟨node, rest, -, only, pointer, described, rfl⟩
    · have unpointed : after.reifiers source property value = [] :=
        List.eq_nil_iff_forall_not_mem.mpr fun node member => none node (holds.reifies member)
      rw [unpointed, List.mapM_nil]
      exact (Yields.pure _ after holds).finds Annotation.AlikeEach.nil
    · have read := FindsAt.pointer holds inside pointer described
        (free.mono fun _ => List.mem_append_right _) fun after' holds' free' left =>
          reads node rest after' described (fun triple within => ⟨List.mem_cons_of_mem _ (List.mem_append_right _ within),
            apart triple (List.mem_append_right _ within)⟩) holds' free' left
      rw [holds.reifiers_eq only pointer.bears (free.mono fun _ => List.mem_append_left _), List.mapM_cons]
      simp only [List.mapM_nil, pure_bind]
      refine (read.bind fun notes' after' same step => (Yields.pure [notes'] after' step.holds).finds
        ?_).weaken (fun _ => id) (by simp) (by simp)
      simpa using same
  have claimed : ∀ after, world.Step session after [⟨source, property, value⟩] → world.FindsAt after (do
      let session ← MonadState.get
      let read ← (session.reifiers source property value).mapM fun reifier => Translation.nested reifier do
        Translation.consumeReification reifier
        inner reifier
      return some ( Annotation.mk property (value.rename world.anonymous) read.flatten))
      (fun read => ∃ own, read = some own ∧ (( Annotation.mk property value notes).rename world.anonymous).Alike own)
      under under := by
    intro after step
    have free := step.unused (unused.mono fun triple inside => List.mem_cons_of_mem _ inside) fun triple inside claimed =>
      apart triple inside (by rw [List.mem_singleton.mp claimed])
    refine FindsAt.get ?_
    rw [← List.append_nil under]
    refine (pointers after step.holds free).bind fun notes' last same step => (Yields.pure _ last step.holds).finds ⟨_, rfl, ?_⟩
    rw [ Annotation.rename, Annotation.renameEach_eq_map]
    exact same.alike property (value.rename world.anonymous)
  have consumes : world.Yields (Translation.consume number) () [] [⟨source, property, value⟩] :=
    Yields.consume member
  intro free
  rw [readNote_annotating inner world.context number annotating]
  refine FindsAt.weaken (?_ : world.FindsAt session _ _ ([] ++ ([] ++ ([] ++ under)))
    ([] ++ ([] ++ ([⟨source, property, value⟩] ++ under)))) (fun _ => id) (fun triple within => ?_) (by simp) free
  · refine FindsAt.after (Yields.learn notable.known) holds fun first one => ?_
    refine FindsAt.after (Yields.annotationValue value) one.holds fun second two => ?_
    refine FindsAt.after consumes two.holds fun third three => ?_
    exact claimed third (((one.trans two).trans three).congr (by simp))
  · have within : triple ∈ under := by simpa using within
    exact mem_beneath.mpr ⟨List.mem_cons_of_mem _ within, apart triple within⟩

end Notes

/-- The triples under a source are about fewer nodes. -/
private theorem span_lt {source : Node} {block rest : List Triple} {own : Triple} (owned : own.subject = source)
    (member : own ∈ block) (under : ∀ triple ∈ rest, triple ∈ block ∧ triple.subject ≠ source) : span rest < span block := by
  have fresh : source ∉ (rest.map Triple.subject).dedup := by
    intro inside
    obtain ⟨triple, within, same⟩ := List.mem_map.mp (List.mem_dedup.mp inside)
    exact (under triple within).2 same
  have subset : source :: (rest.map Triple.subject).dedup ⊆ (block.map Triple.subject).dedup := by
    intro other inside
    rw [List.mem_dedup]
    rcases List.mem_cons.mp inside with rfl | inside
    · exact owned ▸ List.mem_map_of_mem member
    · obtain ⟨triple, within, rfl⟩ := List.mem_map.mp (List.mem_dedup.mp inside)
      exact List.mem_map_of_mem (under triple within).1
  exact (List.subperm_of_subset (List.nodup_cons.mpr ⟨fresh, List.nodup_dedup _⟩) subset).length_le

section Rows

variable {source : Node} {parts : List Annotation.Part} {inner : Node → Translation (List Annotation)}

/-- The part whose claim the triple makes. -/
def part? (source : Node) (parts : List Annotation.Part) (triple : Triple) : Option Annotation.Part :=
  parts.find? fun part => triple == part.1.claim source

theorem part?_eq_some {triple : Triple} {part : Annotation.Part} (found : part? source parts triple = some part) :
    part ∈ parts ∧ triple = part.1.claim source :=
  ⟨List.mem_of_find?_eq_some found, by simpa using List.find?_some found⟩

/-- The parts whose claims are made, in the order in which they are made. -/
def made (source : Node) (parts : List Annotation.Part) (claims : List Triple) : List Annotation.Part := claims.filterMap (part? source parts)

/-- When every claim is made once, the parts are made in some order. -/
theorem made_perm (claimed : ∀ part ∈ parts, part.1.claim source ∈ part.2) (apart : parts.Pairwise Annotation.Part.Apart) {claims : List Triple}
    (nodup : claims.Nodup) (all : ∀ part ∈ parts, part.1.claim source ∈ claims) : (made source parts claims).Perm parts := by
  have distinct : parts.Nodup := List.Pairwise.imp_of_mem (fun {one two} member _ apart same =>
    apart _ (claimed one member) (same ▸ claimed one member)) apart
  have made_nodup : (made source parts claims).Nodup := by
    refine List.Nodup.filterMap (fun one two part first second => ?_) nodup
    exact (part?_eq_some first).2.trans (part?_eq_some second).2.symm
  refine (List.perm_ext_iff_of_nodup made_nodup distinct).mpr fun part => ⟨fun member => ?_, fun member => ?_⟩
  · obtain ⟨_, _, found⟩ := List.mem_filterMap.mp member
    exact (part?_eq_some found).1
  refine List.mem_filterMap.mpr ⟨_, all part member, ?_⟩
  cases found : part? source parts (part.1.claim source) with
  | none => exact absurd BEq.rfl (List.find?_eq_none.mp found part member)
  | some other =>
    obtain ⟨present, same⟩ := part?_eq_some found
    by_contra different
    have disjoint := apart.forall member present fun equal => different (congrArg some equal.symm)
    exact disjoint _ (claimed part member) (same ▸ claimed other present)

/-- The rows of a node are read one after the other, each as the annotation that it makes, if any. -/
private theorem finds_rows
    (each : ∀ part ∈ parts, ∀ row ∈ world.rows, row.triple = part.1.claim source → ∀ session, world.Holds session →
      world.Unused session part.2 → world.FindsAt session (Translation.readNote inner row)
        (fun read => ∃ own, read = some own ∧ (part.1.rename world.anonymous).Alike own) (beneath source part.2) part.2) :
    ∀ (rows : List Row) (session : Session), world.Holds session → (∀ row ∈ rows, row ∈ world.rows) →
      (made source parts (rows.map Row.triple)).Pairwise Annotation.Part.Apart →
      (∀ row ∈ rows, world.Skips row.triple.predicate ∨ ∃ part ∈ parts, row.triple = part.1.claim source) →
      world.Unused session ((made source parts (rows.map Row.triple)).flatMap Prod.snd) →
      world.FindsAt session (rows.mapM (Translation.readNote inner))
        (fun read => List.Forall₂ Annotation.Alike
          ((made source parts (rows.map Row.triple)).map fun part => part.1.rename world.anonymous) (read.filterMap id))
        (beneath source ((made source parts (rows.map Row.triple)).flatMap Prod.snd))
        ((made source parts (rows.map Row.triple)).flatMap Prod.snd) := by
  intro rows
  induction rows with
  | nil =>
    intro session holds _ _ _ _
    rw [List.mapM_nil]
    exact (Yields.pure [] session holds).finds .nil
  | cons row rest ih =>
    intro session holds present apart known unused
    obtain ⟨here, later⟩ := List.forall_mem_cons.mp present
    obtain ⟨own, others⟩ := List.forall_mem_cons.mp known
    rw [List.mapM_cons]
    cases found : part? source parts row.triple with
    | some part =>
      obtain ⟨member, makes⟩ := part?_eq_some found
      have whole : made source parts ((row :: rest).map Row.triple) = part :: made source parts (rest.map Row.triple) :=
        List.filterMap_cons_some found
      rw [whole] at apart unused ⊢
      rw [List.flatMap_cons] at unused ⊢
      obtain ⟨disjoint, apart⟩ := List.pairwise_cons.mp apart
      have rest_unused := unused.mono fun _ => List.mem_append_right _
      refine FindsAt.weaken
        ((each part member row here makes session holds (unused.mono fun _ => List.mem_append_left _)).bind
          fun read after read_own step =>
            (ih after step.holds later apart others (step.unused rest_unused fun triple inside within => ?_)).bind
              fun reads last read_rest step' => (Yields.pure (read :: reads) last step'.holds).finds ?_)
        (fun _ => id) (by simp [beneath]) (by simp)
      · obtain ⟨other, listed, inside⟩ := List.mem_flatMap.mp inside
        exact disjoint other listed triple within inside
      · obtain ⟨own, rfl, alike⟩ := read_own
        exact .cons alike read_rest
    | none =>
      have nothing : ∀ part ∈ parts, row.triple ≠ part.1.claim source := by simpa using List.find?_eq_none.mp found
      have skips := own.resolve_right fun ⟨part, member, makes⟩ => nothing part member makes
      have whole : made source parts ((row :: rest).map Row.triple) = made source parts (rest.map Row.triple) :=
        List.filterMap_cons_none found
      rw [whole] at apart unused ⊢
      refine FindsAt.weaken
        (((YieldsAt.readNote_skipped holds inner skips).finds rfl).bind fun read after (same : none = read) step =>
          (ih after step.holds later apart others (step.unused unused (by simp))).bind
            fun reads last read_rest step' => (Yields.pure (read :: reads) last step'.holds).finds ?_)
        (fun _ => id) (by simp) (by simp)
      subst same
      exact read_rest

end Rows

/-- The annotations of a node are read, however deep they are. -/
theorem FindsAt.annotationsWithin (settled : world.Settled) : ∀ (depth : Nat) {source : Node} {notes : List Annotation}
    {block : List Triple} {session : Session}, Annotation.DescribedEach world.graph world.Reifies source notes block →
    span block < depth → world.Annotates ( Annotation.componentsEach notes) → world.Holds session → world.Unused session block →
    world.Left session source notes →
    world.FindsAt session (Translation.annotationsWithin depth source) (world.SameNotes notes) (beneath source block) block
  | 0, _, _, _, _, _, deep, _, _, _, _ => absurd deep (Nat.not_lt_zero _)
  | depth + 1, source, notes, block, session, described, deep, annotates, holds, unused, left => by
    obtain ⟨parts, rfl, cover, each, apart⟩ := described.parts
    have claimed : ∀ part ∈ parts, part.1.claim source ∈ part.2 := fun part member => (each part member).claim_mem
    have covered : ∀ part ∈ parts, ∀ triple ∈ part.2, triple ∈ block := fun part member triple inside =>
      (cover triple).mpr (List.mem_flatMap.mpr ⟨part, member, inside⟩)
    have reads : ∀ part ∈ parts, ∀ row ∈ world.rows, row.triple = part.1.claim source → ∀ session, world.Holds session →
        world.Unused session part.2 → world.FindsAt session (Translation.readNote (Translation.annotationsWithin depth) row)
          (fun read => ∃ own, read = some own ∧ (part.1.rename world.anonymous).Alike own) (beneath source part.2) part.2 := by
      intro part member row present makes session holds unused
      have own := annotates.note (List.mem_map_of_mem member)
      refine FindsAt.readNote settled holds (each part member) own present makes unused
        fun node rest after inner under holds' unused' left' => ?_
      have shallow : span rest < span block := span_lt rfl (covered part member _ (claimed part member)) fun triple inside =>
        ⟨covered part member triple (under triple inside).1, (under triple inside).2⟩
      exact FindsAt.annotationsWithin settled depth inner (by omega) own.inner holds' unused' left'
    let rows := session.unused (session.store.withSubject source)
    have rows_eq : rows = world.rows.filter fun row => !session.store.isConsumed row.id && row.triple.subject == source := by
      rw [← List.filter_filter, ← holds.withSubject]
      rfl
    have mem_rows : ∀ row, row ∈ rows ↔ row ∈ world.rows ∧ session.store.isConsumed row.id = false ∧ row.triple.subject = source := by
      intro row
      rw [rows_eq, List.mem_filter, Bool.and_eq_true, beq_iff_eq, Bool.not_eq_true']
    have perm : (made source parts (rows.map Row.triple)).Perm parts := by
      refine made_perm claimed apart (by rw [rows_eq]; exact holds.nodup_filter _) fun part member => ?_
      obtain ⟨row, present, same⟩ := List.mem_map.mp ((each part member).claim_mem_graph)
      rw [← same]
      exact List.mem_map_of_mem ((mem_rows row).mpr
        ⟨present, unused row present (same ▸ covered part member _ (claimed part member)), by rw [same]; rfl⟩)
    have same : ∀ triple, triple ∈ (made source parts (rows.map Row.triple)).flatMap Prod.snd ↔ triple ∈ block := fun triple =>
      (perm.flatMap_right Prod.snd).mem_iff.trans (cover triple).symm
    have finds := finds_rows reads rows session holds (fun row member => ((mem_rows row).mp member).1)
      ((perm.pairwise_iff Annotation.Part.Apart.symm).mpr apart) (fun row member => ?_) (unused.mono fun triple => (same triple).mp)
    · rw [Translation.annotationsWithin]
      refine FindsAt.get (FindsAt.weaken
        (finds.bind fun read after alike step => (Yields.pure (read.filterMap id) after step.holds).finds ?_)
        (fun _ => id) (fun triple inside => ?_) (by simpa using same))
      · refine ⟨_, ?_, alike⟩
        rw [List.map_map]
        exact (perm.map _).symm
      · rw [List.append_nil, mem_beneath, same] at inside
        exact mem_beneath.mpr inside
    · obtain ⟨present, free, own⟩ := (mem_rows row).mp member
      refine (left row present own free).imp_right ?_
      rintro ⟨note, inside, makes⟩
      obtain ⟨part, member, rfl⟩ := List.mem_map.mp inside
      exact ⟨part, member, makes⟩

/-- The annotations that a node carries. -/
theorem FindsAt.annotationsOn (settled : world.Settled) {source : Node} {notes : List Annotation} {block : List Triple}
    {session : Session} (described : Annotation.DescribedEach world.graph world.Reifies source notes block)
    (subset : ∀ triple ∈ block, triple ∈ world.graph) (annotates : world.Annotates ( Annotation.componentsEach notes))
    (holds : world.Holds session) (unused : world.Unused session block) (left : world.Left session source notes) :
    world.FindsAt session (Translation.annotationsOn source) (world.SameNotes notes) (beneath source block) block :=
  FindsAt.get
    (FindsAt.annotationsWithin settled _ described
      (Nat.lt_succ_of_le (Nat.le_succ_of_le (span_le_limit holds subset))) annotates holds unused left)

end World

end OwlGraph
