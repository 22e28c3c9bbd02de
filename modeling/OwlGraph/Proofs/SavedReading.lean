import OwlGraph.Proofs.CanonicalLabels
import OwlGraph.Proofs.NormalForm
import OwlGraph.Proofs.Reification
import OwlGraph.Proofs.SavedGraph

/-! Reading a saved graph. What leads a piece is read as that piece, and what points at it as its
annotations, up to the order of siblings. That order is none of the normal form. -/

namespace OwlGraph

open Rendering

namespace Annotation

mutual

theorem Alike.akin : ∀ {note other : Annotation}, note.Alike other → note.Akin other
  | _, _, .mk property value order alike => .mk property value (.trans (.of_perm .refl order) (akin_forall₂ alike))

theorem akin_forall₂ : ∀ {notes others : List Annotation}, List.Forall₂ Alike notes others → SetsAkin Akin notes others
  | _, _, .nil => .nil
  | _, _, .cons first rest => .cons first.akin (akin_forall₂ rest)

end

theorem AlikeEach.akin {notes others : List Annotation} (each : AlikeEach notes others) : SetsAkin Akin notes others := by
  obtain ⟨middle, order, alike⟩ := each
  exact .trans (.of_perm .refl order) (akin_forall₂ alike)

end Annotation

/-- With clean words the order in which annotations are read does not matter. -/
theorem AnnotatedAxiom.of_alike {f : BlankNode → BlankNode} (labels : CleanLabels f) {bare : Axiom} {notes read : List Annotation}
    (clean : notes ≠ [] → ∀ note ∈ notes, note.tree.Clean) (same : Annotation.AlikeEach (notes.map ( Annotation.rename f)) read) :
    of (bare.rename f) read = AnnotatedAxiom.rename f ⟨bare, notes⟩ := by
  have neat : ∀ note ∈ notes.map ( Annotation.rename f), note.tree.Clean := by
    intro note member
    have filled : notes ≠ [] := fun none => by simp [none] at member
    exact Annotation.clean_renameEach labels notes (clean filled) note member
  rw [rename_eq_of, of, of, Annotation.canonical_congr same.akin neat]

namespace World

section Pointers

variable {world : World} {session : Session} {main : Triple} {node : BlankNode} {notes : List Annotation} {type : Iri} {rest : List Triple}

variable (settled : world.Settled) (holds : world.Holds session) (known : type ∈ Role.pointerTypes)
  (pointer : Pointer world.graph type main node notes) (described : Annotation.DescribedEach world.graph world.Reifies node notes rest)
  (subset : ∀ triple ∈ rest, triple ∈ world.graph) (annotates : world.Annotates ( Annotation.componentsEach notes))
  (unused : world.Unused session rest)

include described annotates in
/-- What annotates a node is nothing that makes it point at a triple. -/
private theorem not_pointing : ∀ triple ∈ rest, triple ∉ triplesAt node (pointerValues type main) := by
  intro triple within pointing
  obtain ⟨own, listed⟩ := mem_triplesAt.mp pointing
  obtain ⟨note, present, same⟩ := described.claim_of_subject within own
  have key : triple.predicate = note.property := congrArg Triple.predicate same
  exact (annotates.note present).property.plain (key ▸ List.mem_map_of_mem (f := Prod.fst) listed)

include pointer in
/-- A part of the triple at which a node points. -/
theorem Yields.pointerValue {key : Iri} {value : Term} (points : key ∈ Role.pointerPredicates)
    (listed : (key, value) ∈ pointerValues type main) : world.Yields (Translation.singleObject node key) value [] [⟨node, key, value⟩] := by
  refine Yields.singleObject (Role.construct_not_classAxiom _ ?_) fun other => ?_
  · exact List.mem_cons_of_mem _ (List.mem_cons_of_mem _ (Role.mem_structural.mpr (.inr points)))
  · have keys : ((pointerValues type main).map Prod.fst).Nodup := by
      have distinct : pointerPredicates.Nodup := by decide
      exact distinct
    rw [pointer.bears key (List.mem_map_of_mem (f := Prod.fst) listed)]
    exact ⟨fun also => congrArg Prod.snd (List.inj_on_of_nodup_map keys also listed rfl), fun same => same ▸ listed⟩

include settled holds known pointer described subset annotates unused

/-- What is left once it is known at what the node points. -/
theorem FindsAt.pointedNotes : world.FindsAt session (do
      Translation.consumeReification node
      let read ← Translation.annotationsOn node
      return (main, read))
    (fun read => read.1 = main ∧ world.SameNotes notes read.2) (beneath node rest) (triplesAt node (pointerValues type main) ++ rest) := by
  have reified := Yields.consumeReification known pointer fun note member => (annotates.note member).property
  have whole : world.FindsAt session (do
        Translation.consumeReification node
        let read ← Translation.annotationsOn node
        return (main, read))
      (fun read => read.1 = main ∧ world.SameNotes notes read.2) ([] ++ (beneath node rest ++ []))
      (triplesAt node (pointerValues type main) ++ (rest ++ [])) := by
    refine FindsAt.after reified holds fun after step => ?_
    have left : world.Left after node notes := by
      intro row member own free
      obtain ⟨id, _, key, value⟩ := row
      cases own
      rcases pointer.alone key value (List.mem_map_of_mem (f := Row.triple) member) with listed | ⟨note, present, rfl, rfl⟩
      · rw [(step.used _ member).mpr (.inr (mem_triplesAt.mpr ⟨rfl, listed⟩))] at free
        cases free
      · exact .inr ⟨note, present, rfl⟩
    have free := step.unused unused (not_pointing described annotates)
    refine (FindsAt.annotationsOn settled described subset annotates step.holds free left).bind fun read last same done => ?_
    exact (Yields.pure _ last done.holds).finds ⟨rfl, same⟩
  rwa [List.nil_append, List.append_nil, List.append_nil] at whole

/-- What a node says that points at a triple, and its annotations. -/
theorem FindsAt.readReification : world.FindsAt session (Translation.readReification node)
    (fun read => read.1 = main ∧ world.SameNotes notes read.2) rest (triplesAt node (pointerValues type main) ++ rest) := by
  obtain ⟨subject, predicate, object⟩ := main
  have source : (Owl.annotatedSource, (subject : Term)) ∈ pointerValues type ⟨subject, predicate, object⟩ := by simp [pointerValues]
  have property : (Owl.annotatedProperty, (predicate : Term)) ∈ pointerValues type ⟨subject, predicate, object⟩ := by simp [pointerValues]
  have target : (Owl.annotatedTarget, object) ∈ pointerValues type ⟨subject, predicate, object⟩ := by simp [pointerValues]
  have pointing {key : Iri} {value : Term} (listed : (key, value) ∈ pointerValues type ⟨subject, predicate, object⟩) {triple : Triple}
      (same : triple = ⟨node, key, value⟩) : triple ∈ triplesAt node (pointerValues type ⟨subject, predicate, object⟩) :=
    same ▸ mem_triplesAt.mpr ⟨rfl, listed⟩
  have untouched {one two : Session} {key : Iri} {value : Term} (listed : (key, value) ∈ pointerValues type ⟨subject, predicate, object⟩)
      (step : world.Step one two [⟨node, key, value⟩]) (free : world.Unused one rest) : world.Unused two rest :=
    step.unused free fun triple within same => not_pointing described annotates triple within (pointing listed (List.mem_singleton.mp same))
  refine FindsAt.weaken (?_ : world.FindsAt session _ _ ([] ++ ([] ++ ([] ++ ([] ++ beneath node rest))))
    ([⟨node, Owl.annotatedSource, subject⟩] ++ ([⟨node, Owl.annotatedProperty, predicate⟩] ++ ([] ++
      ([⟨node, Owl.annotatedTarget, object⟩] ++ (triplesAt node (pointerValues type ⟨subject, predicate, object⟩) ++ rest))))))
    (fun _ => id) (fun triple within => ?_) (fun triple => ?_)
  · refine FindsAt.after (Yields.pointerValue pointer (by simp [Role.pointerPredicates]) source) holds fun first one => ?_
    have free := untouched source one unused
    refine FindsAt.after (Yields.pointerValue pointer (by simp [Role.pointerPredicates]) property) one.holds fun second two => ?_
    replace free := untouched property two free
    refine FindsAt.after (Yields.named .property predicate) two.holds fun third three => ?_
    replace free := three.unused free (by simp)
    refine FindsAt.after (Yields.pointerValue pointer (by simp [Role.pointerPredicates]) target) three.holds fun fourth four => ?_
    exact FindsAt.pointedNotes settled four.holds known pointer described subset annotates (untouched target four free)
  · have inside : triple ∈ beneath node rest := by simpa using within
    exact (mem_beneath.mp inside).1
  · simp only [List.mem_append, List.mem_singleton, List.not_mem_nil, false_or]
    constructor
    · rintro (same | same | same | inside)
      · exact .inl (pointing source same)
      · exact .inl (pointing property same)
      · exact .inl (pointing target same)
      · exact inside
    · exact fun inside => .inr (.inr (.inr inside))

end Pointers

/-- The labels that a load makes up are words. -/
theorem cleanLabels_anonymous (world : World) : CleanLabels world.anonymous := by
  intro node
  have shape : (s!"s{Nat.repr world.context.number}n{Nat.repr (world.rank node)}").toList =
      's' :: ((Nat.repr world.context.number).toList ++ 'n' :: (Nat.repr (world.rank node)).toList) := by
    simp [toString]
  refine Colouring.clean_label ?_
  rw [shape, List.forall_mem_cons, List.forall_mem_append, List.forall_mem_cons]
  exact ⟨by decide, fun _ => isBreak_of_mem_repr, by decide, fun _ => isBreak_of_mem_repr⟩

namespace Saves

variable {world : World} {ontology : Ontology} {supply : Nat → BlankNode} {header : Node} {group : List Triple}
  {strokes : List Stroke} {block : List Triple} (saves : world.Saves ontology supply header group strokes block)
include saves

theorem stands_iff (entity : Entity) : world.Stands entity ↔ ontology.Stands entity := or_congr_right (saves.known entity)

theorem coherent : world.Coherent where
  single iri a b first second := saves.saveable.single iri a b ((saves.stands_iff _).mp first) ((saves.stands_iff _).mp second)
  apart iri cls datatype := saves.saveable.apart iri ((saves.stands_iff _).mp cls) ((saves.stands_iff _).mp datatype)
  plain iri known := saves.saveable.plain iri ((saves.known _).mp known)

theorem admits {components : List Component} (subset : ∀ component ∈ components, component ∈ ontology.components) :
    world.Admits components := by
  refine fun entity member => ⟨(saves.known entity).mpr (subset _ member), ?_⟩
  rintro kind same
  obtain ⟨_, iri⟩ := entity
  obtain rfl : _ = kind.entityKind := same
  exact (saves.told _).mpr (saves.saveable.told kind iri (subset _ member))

theorem annotates {notes : List Annotation} (subset : ∀ component ∈ Annotation.componentsEach notes, component ∈ ontology.components) :
    world.Annotates ( Annotation.componentsEach notes) := by
  rintro ⟨kind, iri⟩ member rfl
  obtain ⟨known, told⟩ := saves.admits subset _ member
  exact ⟨known, told .annotating rfl, saves.saveable.unpointing subset _ member rfl⟩

theorem sayable {stroke : Stroke} (listed : stroke ∈ strokes) : world.Sayable stroke.bare where
  valid := saves.valid listed
  admits := saves.admits (saves.component listed)
  constant entity member kind variable_ := by
    obtain ⟨_, iri⟩ := entity
    obtain rfl := kind
    exact saves.saveable.constant iri ((saves.isVariable iri).mp variable_) (saves.component listed _ member)
  fitting := saves.fitting listed
  defined datatype range same := by
    obtain ⟨fact, member, piece, -⟩ := saves.origin listed
    have has := Axiom.hasPiece_of_mem piece
    rw [same] at has
    refine (saves.told _).mpr (saves.saveable.defined fact member datatype range ?_)
    generalize fact.bare = bare at has
    cases has with
    | whole => rfl

theorem isVariable_iff (iri : Iri) : world.isVariable iri ↔ variableTriple iri ∈ world.graph := by
  rw [saves.isVariable]
  constructor
  · rintro ⟨fact, member, named⟩
    exact (saves.cover _).mpr (.inr ((saves.inscription.cover _).mpr (.inl ⟨fact, member, iri, named, rfl⟩)))
  · intro typed
    rcases saves.type typed with ⟨-, same⟩ | ⟨-, other, same, named⟩ | ⟨⟨number, same⟩, -⟩ | ⟨stroke, listed, loose, -, main⟩
    · exact absurd same (by decide)
    · exact Node.named.inj same ▸ named
    · cases same
    · exact absurd (main ▸ framing_variable iri) (saves.main_not_framing listed)

/-- A triple that states a piece is read as that piece. -/
theorem yields_stated {stroke : Stroke} (listed : stroke ∈ strokes) (loose : stroke.bare.isGathered = false)
    (undeclared : stroke.bare.kind ≠ .declaration) : world.Yields (Translation.statement stroke.main)
      (AnnotatedAxiom.rename world.anonymous ⟨stroke.bare, []⟩) stroke.operands stroke.operands :=
  Yields.stated saves.coherent (saves.sayable listed) undeclared ((saves.inscribed listed).stated loose)
    fun _ inside => (saves.operand listed inside).1

/-- With the labels of the load the annotations that are read come to those that were written. -/
theorem of_sameNotes {stroke : Stroke} (listed : stroke ∈ strokes) {read : List Annotation} (same : world.SameNotes stroke.notes read) :
    .of (stroke.bare.rename world.anonymous) read = AnnotatedAxiom.rename world.anonymous ⟨stroke.bare, stroke.notes⟩ := by
  refine AnnotatedAxiom.of_alike (cleanLabels_anonymous world) (fun filled => ?_) same
  obtain ⟨fact, member, -, notes⟩ := saves.origin listed
  rw [notes] at filled ⊢
  exact ((saves.saveable.clean ⟨fact, member, filled⟩).1 fact member).notes

section Gathered

variable {stroke : Stroke} (listed : stroke ∈ strokes) {number : Nat} {type : Iri} {values : List (Iri × Term)} {operands : List Triple}
  (whole : stroke.operands = operands ++ triplesAt (supply number) values)
  (alone : ∀ triple ∈ world.graph, triple.subject = supply number → triple ∈ triplesAt (supply number) ((Rdf.type, (type : Term)) :: values) ∨
    ∃ note ∈ stroke.notes, triple = note.claim (supply number))
include listed whole alone

/-- Among what the node gathers there is none of its annotations. -/
private theorem gathers_values : Gathers world.graph (supply number) values := by
  intro predicate structural object
  constructor
  · intro member
    rcases alone _ member rfl with within | ⟨note, inside, same⟩
    · have untyped := (Role.structural_not_candidate predicate structural).1
      exact (List.mem_cons.mp (mem_triplesAt.mp within).2).resolve_left fun same => untyped (congrArg Prod.fst same)
    · obtain rfl : predicate = note.property := congrArg Triple.predicate same
      exact absurd (saves.note_plain listed inside) fun plain => Iri.isPlain_not_predicate plain (Role.structural_known structural)
  · intro inside
    have within : (⟨supply number, predicate, object⟩ : Triple) ∈ stroke.operands :=
      whole ▸ List.mem_append_right _ (mem_triplesAt.mpr ⟨rfl, inside⟩)
    exact (saves.operand listed within).1

omit listed in
/-- Once the operands are read the node carries nothing but its annotations and its type. -/
private theorem left_of_step {session after : Session} (step : world.Step session after stroke.operands) :
    world.Left after (supply number) stroke.notes := by
  rintro ⟨id, subject, predicate, object⟩ member own idle
  cases own
  rcases alone _ (List.mem_map_of_mem member) rfl with inside | ⟨note, inside, same⟩
  · rcases List.mem_cons.mp (mem_triplesAt.mp inside).2 with typed | value
    · obtain rfl : predicate = Rdf.type := congrArg Prod.fst typed
      exact .inl saves.coherent.skips_type
    · rw [(step.used _ member).mpr (.inr (whole ▸ List.mem_append_right _ (mem_triplesAt.mpr ⟨rfl, value⟩)))] at idle
      cases idle
  · exact .inr ⟨note, inside, same⟩

end Gathered

/-- A node that gathers operands is read as the piece, with the annotations that the node carries. -/
theorem finds_gathered {stroke : Stroke} (listed : stroke ∈ strokes) (large : stroke.bare.isGathered = true) {session : Session}
    (holds : world.Holds session) (unused : world.Unused session stroke.noted) :
    world.FindsAt session (Translation.statement stroke.main)
      (· = AnnotatedAxiom.rename world.anonymous ⟨stroke.bare, stroke.notes⟩) (stroke.operands ++ stroke.noted)
      (stroke.operands ++ stroke.noted) := by
  obtain ⟨number, type, values, operands, main, whole, -, gathered, alone, annotated⟩ := (saves.inscribed listed).carrier large
  have carrying : Carrying supply world.graph ontology header group strokes (supply number) stroke.notes stroke.noted := .piece listed annotated
  have known := gathered.inner.1
  have selects : (Term.iri? type).filter Role.axiomTypes.contains = some type := by
    simp [Term.iri?, Term.node?, Node.iri?, known]
  let annotating (bare : Axiom) : Translation AnnotatedAxiom := do
    return .of bare (← Translation.annotationsOn (supply number))
  have form : Translation.statement stroke.main = Translation.nodeAxiom (supply number) type >>= annotating := by
    rw [main, Translation.statement, if_pos rfl]
    simp only [selects, annotating]
  have subset : ∀ triple ∈ operands, triple ∈ world.graph := fun triple inside =>
    (saves.operand listed (whole ▸ List.mem_append_left _ inside)).1
  have bare := Yields.gathered saves.coherent (fun iri => (saves.isVariable_iff iri).mpr) (saves.sayable listed) large gathered
    (saves.gathers_values listed whole alone) subset
  have notes : ∀ after, world.Step session after (operands ++ triplesAt (supply number) values) →
      world.FindsAt after (annotating (stroke.bare.rename world.anonymous))
        (· = AnnotatedAxiom.rename world.anonymous ⟨stroke.bare, stroke.notes⟩) (beneath (supply number) stroke.noted ++ [])
        (stroke.noted ++ []) := by
    intro after step
    have free : world.Unused after stroke.noted := step.unused unused fun triple noted inside =>
      (saves.operand listed (whole ▸ inside)).2.1.not_apposed (saves.noted_apposed listed noted)
    have left := saves.left_of_step whole alone (whole ▸ step)
    refine (FindsAt.annotationsOn saves.coherent.settled (saves.described carrying) carrying.subset
      (saves.annotates (saves.note_component listed)) step.holds free left).bind fun read last same done => ?_
    exact (Yields.pure _ last done.holds).finds (saves.of_sameNotes listed same)
  rw [form]
  refine FindsAt.weaken (FindsAt.after bare holds notes) (fun _ => id) (fun triple within => ?_) (fun triple => ?_)
  · rw [List.append_nil, List.mem_append] at within
    rw [whole, List.mem_append, List.mem_append]
    exact within.imp .inl fun inside => (mem_beneath.mp inside).1
  · rw [List.append_nil, whole]

end Saves

end World

end OwlGraph
