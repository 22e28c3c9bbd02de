import OwlGraph.Proofs.DescribedIndividuals
import OwlGraph.Proofs.Layout
import OwlGraph.Proofs.SavedCandidates
import OwlGraph.Proofs.SavedReading

/-! The graph of a saved ontology is laid out. Every piece of an axiom is an entry, with its annotations
if a node gathers the operands; the other annotations are remarks that are merged later. -/

namespace OwlGraph

open Rendering

/-- Renaming keeps terms apart of which it keeps the anonymous individuals apart. -/
theorem Term.eq_of_rename {f : BlankNode → BlankNode} {nodes : BlankNode → Prop} (apart : ∀ a b, nodes a → nodes b → f a = f b → a = b) :
    ∀ {one two : Term}, (∀ blank : BlankNode, one = blank → nodes blank) → (∀ blank : BlankNode, two = blank → nodes blank) →
      one.rename f = two.rename f → one = two
  | .resource (.named _), .resource (.named _), _, _, same => same
  | .resource (.blank a), .resource (.blank b), first, second, same =>
    congrArg (fun node : BlankNode => (node : Term)) (apart a b (first a rfl) (second b rfl) (Node.blank.inj (Term.resource.inj same)))
  | .literal _, .literal _, _, _, same => same
  | .resource (.named _), .resource (.blank _), _, _, same => nomatch same
  | .resource (.blank _), .resource (.named _), _, _, same => nomatch same
  | .resource _, .literal _, _, _, same => nomatch same
  | .literal _, .resource _, _, _, same => nomatch same

namespace Annotation

variable {f : BlankNode → BlankNode} {notes read : List Annotation}

/-- What an annotation claims about its source. -/
def pair (note : Annotation) : Iri × Term := (note.property, note.value)

theorem DistinctEach.pairwise : ∀ {notes : List Annotation}, DistinctEach notes →
    notes.Pairwise fun note other => other.property = note.property → other.value ≠ note.value
  | [], _ => .nil
  | _ :: _, ⟨_, apart, rest⟩ => .cons apart rest.pairwise

theorem Alike.pair_eq {note other : Annotation} (alike : note.Alike other) : other.pair = note.pair := by
  cases alike
  rfl

/-- Different annotations stay different when they are read with other labels. -/
theorem AlikeEach.nodup (distinct : DistinctEach notes)
    (apart : ∀ note ∈ notes, ∀ other ∈ notes, note.value.rename f = other.value.rename f → note.value = other.value)
    (same : AlikeEach (notes.map (rename f)) read) : read.Nodup := by
  obtain ⟨middle, order, alike⟩ := same
  have pairs : read.map pair = middle.map pair := by
    clear order
    induction alike with
    | nil => rfl
    | cons first _ ih => rw [List.map_cons, List.map_cons, first.pair_eq, ih]
  have claims : ((notes.map (rename f)).map pair).Nodup := by
    rw [List.map_map]
    refine List.pairwise_map.mpr (distinct.pairwise.imp_of_mem fun {note other} member present different claimed => ?_)
    obtain ⟨property, value, inner⟩ := note
    obtain ⟨key, claim, others⟩ := other
    obtain ⟨rfl, value⟩ := Prod.mk.inj claimed
    exact different rfl (apart _ member _ present value).symm
  exact .of_map pair (pairs ▸ (order.map pair).nodup_iff.mp claims)

end Annotation

namespace Stroke

/-- When what leads the piece is read. -/
def stage (stroke : Stroke) : Stage :=
  if stroke.bare.kind = .declaration then .early else if stroke.bare.isHidden then .late else .candidate

/-- The triples of annotations that are read with the piece. -/
def attached (stroke : Stroke) : List Triple := if stroke.bare.isGathered then stroke.noted else []

/-- What is read of the triple that leads the piece, with these labels. -/
def entry (f : BlankNode → BlankNode) (stroke : Stroke) : Entry where
  stage := stroke.stage
  main := stroke.main
  fact := AnnotatedAxiom.rename f ⟨stroke.bare, if stroke.bare.isGathered then stroke.notes else []⟩
  block := stroke.operands ++ stroke.attached
  notes := stroke.attached

/-- What is merged into the piece later, if a node points at the triple that leads it. -/
def remark? (f : BlankNode → BlankNode) (stroke : Stroke) : Option Remark :=
  if stroke.bare.isGathered then none
  else (stroke.own.head?.bind fun triple => triple.subject.blank?).map fun node =>
    ⟨node, stroke.entry f, stroke.own, AnnotatedAxiom.rename f ⟨stroke.bare, stroke.notes⟩⟩

end Stroke

/-- A node points at the triple that leads the piece, and carries its annotations. -/
structure Rendering.Pointed (supply : Nat → BlankNode) (graph : List Triple) (stroke : Stroke) (number : Nat) : Prop where
  loose : stroke.bare.isGathered = false
  filled : stroke.notes ≠ []
  own : stroke.own = triplesAt (supply number) (pointerValues Owl.Axiom stroke.main) ++ stroke.noted
  alone : ∀ triple ∈ graph, triple.subject = supply number → triple ∈ triplesAt (supply number) (pointerValues Owl.Axiom stroke.main) ∨
    ∃ note ∈ stroke.notes, triple = note.claim (supply number)
  annotated : Annotated supply graph (supply number) stroke.notes stroke.noted

/-- That it annotates an axiom is written of the node. -/
theorem Rendering.Pointed.typed {supply : Nat → BlankNode} {graph : List Triple} {stroke : Stroke} {number : Nat}
    (pointed : Pointed supply graph stroke number) : (⟨supply number, Rdf.type, Owl.Axiom⟩ : Triple) ∈ stroke.own :=
  pointed.own ▸ List.mem_append_left _ (mem_triplesAt.mpr ⟨rfl, List.mem_cons_self⟩)

namespace Stroke

variable {supply : Nat → BlankNode} {graph : List Triple} {stroke : Stroke} {f : BlankNode → BlankNode}

theorem remark?_of_pointed {number : Nat} (pointed : Pointed supply graph stroke number) :
    stroke.remark? f = some ⟨supply number, stroke.entry f, stroke.own, AnnotatedAxiom.rename f ⟨stroke.bare, stroke.notes⟩⟩ := by
  rw [remark?, if_neg (by rw [pointed.loose]; exact Bool.false_ne_true)]
  have head : (stroke.own.head?.bind fun triple => triple.subject.blank?) = some (supply number) := by
    rw [pointed.own]
    rfl
  rw [head]
  rfl

theorem pointed_of_remark? (inscribed : Inscribed supply graph stroke) {remark : Remark} (found : stroke.remark? f = some remark) :
    ∃ number, Pointed supply graph stroke number ∧
      remark = ⟨supply number, stroke.entry f, stroke.own, AnnotatedAxiom.rename f ⟨stroke.bare, stroke.notes⟩⟩ := by
  cases large : stroke.bare.isGathered with
  | true =>
    rw [remark?, if_pos large] at found
    cases found
  | false =>
    rcases inscribed.pointer large with ⟨-, none⟩ | ⟨filled, number, own, alone, annotated⟩
    · rw [remark?, none] at found
      split at found <;> cases found
    · have pointed : Pointed supply graph stroke number := ⟨large, filled, own, alone, annotated⟩
      exact ⟨number, pointed, Option.some.inj (found.symm.trans (remark?_of_pointed pointed))⟩

theorem pointed_of_filled (inscribed : Inscribed supply graph stroke) (loose : stroke.bare.isGathered = false) (filled : stroke.notes ≠ []) :
    ∃ number, Pointed supply graph stroke number := by
  rcases inscribed.pointer loose with ⟨none, -⟩ | ⟨-, number, own, alone, annotated⟩
  · exact absurd none filled
  · exact ⟨number, loose, filled, own, alone, annotated⟩

theorem stage_early : stroke.stage = .early ↔ stroke.bare.kind = .declaration := by
  rw [stage]
  split
  · next declared => simp [declared]
  · next other => split <;> simp [other]

theorem stage_late : stroke.stage = .late ↔ stroke.bare.isHidden = true := by
  rw [stage]
  split
  · next declared =>
    generalize stroke.bare = bare at declared
    cases bare with
    | declaration => simp [Axiom.isHidden]
    | _ => cases declared
  · next => split <;> simp [*]

theorem stage_candidate : stroke.stage = .candidate ↔ stroke.bare.kind ≠ .declaration ∧ stroke.bare.isHidden = false := by
  rw [stage]
  split
  · next declared => simp [declared]
  · next other => split <;> simp [*]

theorem declaration_of_stage (early : stroke.stage = .early) : ∃ entity, stroke.bare = .declaration entity := by
  have declared := stage_early.mp early
  generalize stroke.bare = bare at declared
  cases bare with
  | declaration entity => exact ⟨entity, rfl⟩
  | _ => cases declared

theorem isGathered_of_hidden (hidden : stroke.bare.isHidden = true) : stroke.bare.isGathered = false := by
  generalize stroke.bare = bare at hidden
  cases bare <;> first | rfl | cases hidden

end Stroke

namespace World

/-- The ontology in the header, the pieces as entries, and the nodes that point at them as remarks. -/
def layout (world : World) (ontology : Ontology) (header : Node) (group : List Triple) (strokes : List Stroke) : Layout where
  header := header
  heading := ontology
  group := group
  entries := strokes.map (Stroke.entry world.anonymous)
  remarks := strokes.filterMap (Stroke.remark? world.anonymous)

namespace Saves

variable {world : World} {ontology : Ontology} {supply : Nat → BlankNode} {header : Node} {group : List Triple}
  {strokes : List Stroke} {block : List Triple} (saves : world.Saves ontology supply header group strokes block)
include saves

omit saves in
theorem forall_entry {holds : Entry → Prop} (each : ∀ stroke ∈ strokes, holds (stroke.entry world.anonymous)) :
    ∀ entry ∈ (world.layout ontology header group strokes).entries, holds entry := List.forall_mem_map.mpr each

theorem forall_remark {holds : Remark → Prop} (each : ∀ stroke ∈ strokes, ∀ number, Pointed supply world.graph stroke number →
    holds ⟨supply number, stroke.entry world.anonymous, stroke.own, AnnotatedAxiom.rename world.anonymous ⟨stroke.bare, stroke.notes⟩⟩) :
    ∀ remark ∈ (world.layout ontology header group strokes).remarks, holds remark := by
  intro remark member
  obtain ⟨stroke, listed, found⟩ := List.mem_filterMap.mp member
  obtain ⟨number, pointed, rfl⟩ := Stroke.pointed_of_remark? (saves.inscribed listed) found
  exact each stroke listed number pointed

omit saves in
/-- A node that points at what leads a piece is one of the remarks. -/
theorem mem_remarks {stroke : Stroke} (listed : stroke ∈ strokes) {number : Nat} (pointed : Pointed supply world.graph stroke number) :
    ⟨supply number, stroke.entry world.anonymous, stroke.own, AnnotatedAxiom.rename world.anonymous ⟨stroke.bare, stroke.notes⟩⟩ ∈
      (world.layout ontology header group strokes).remarks :=
  List.mem_filterMap.mpr ⟨stroke, listed, Stroke.remark?_of_pointed pointed⟩

omit saves in
/-- What is known of the graph before any axiom is read is no part of what is written of axioms or annotations. -/
theorem framing_of_base {triple : Triple} (base : (world.layout ontology header group strokes).Base triple) : Framing triple := by
  rcases base with heads | ⟨iri, rfl⟩
  · exact framing_header heads
  · exact framing_variable iri

theorem heading : Carrying supply world.graph ontology header group strokes header ontology.annotations group :=
  .heading saves.headed.annotated

theorem heads (labels : ∀ a b, Mentioned world.graph a → Mentioned world.graph b → world.anonymous a = world.anonymous b → a = b) :
    world.Heads (world.layout ontology header group strokes) where
  stated triple member := (saves.cover triple).mpr (.inl (List.mem_append_left _ member))
  sole node typed := by
    rcases saves.type typed with ⟨same, -⟩ | ⟨same, -⟩ | ⟨-, other⟩ | ⟨stroke, listed, -, -, main⟩
    · exact same
    · exact absurd same (by decide)
    · exact absurd rfl other
    · exact absurd (main ▸ .inr ⟨rfl, .inl rfl⟩) (saves.main_not_framing listed)
  about _ member own := saves.about member own
  named := by
    rcases saves.headed.named with ⟨iri, named, rfl⟩ | ⟨named, number, rfl, -⟩
    · exact named
    · exact named
  plain note member := by
    have known : ∀ predicate ∈ [Rdf.type, Owl.versionIRI, Owl.imports], predicate ∈ Role.predicates := by simp [Role.predicates]
    have plain := saves.saveable.plain _ (Ontology.mem_components_of_heading ( Annotation.property_mem_components member))
    exact fun listed => Iri.isPlain_not_predicate plain (known _ listed)
  described := saves.described saves.heading
  subset := saves.heading.subset
  annotates := saves.annotates fun _ => Ontology.mem_components_of_heading
  nodup read same := by
    refine same.nodup saves.saveable.distinct fun note member other present renamed => ?_
    obtain ⟨parts, each, -, described, -⟩ := (saves.described saves.heading).parts
    have mentioned : ∀ note ∈ ontology.annotations, ∀ blank : BlankNode, note.value = blank → Mentioned world.graph blank := by
      rw [← each, List.forall_mem_map]
      exact fun part inside blank value => ⟨_, (described part inside).claim_mem_graph, mem_blanks_object value⟩
    exact Term.eq_of_rename labels (mentioned note member) (mentioned other present) renamed

/-- The entity of which a triple of the graph tells the kind is declared by it. -/
theorem declared {entity : Entity} (member : entity.declaring ∈ world.graph) : ∃ stroke ∈ strokes, stroke.bare = .declaration entity := by
  have kinds : ∀ kind ∈ EntityKind.all, kind.type ≠ Owl.Ontology ∧ kind.type ≠ Swrl.Variable := by decide
  obtain ⟨other, outside⟩ := kinds entity.kind (by cases entity.kind <;> simp [EntityKind.all])
  rcases saves.type member with ⟨-, same⟩ | ⟨same, -⟩ | ⟨⟨number, same⟩, -⟩ | ⟨stroke, listed, loose, -, main⟩
  · exact absurd (Node.named.inj (Term.resource.inj same)) other
  · exact absurd (Node.named.inj (Term.resource.inj same)) outside
  · cases same
  · have leading := saves.leading listed loose
    rw [main] at leading
    exact ⟨stroke, listed, leading.declaration⟩

theorem declaration_main {stroke : Stroke} (listed : stroke ∈ strokes) {entity : Entity} (declares : stroke.bare = .declaration entity) :
    stroke.main = entity.declaring ∧ stroke.operands = [] := by
  have stated := (saves.inscribed listed).stated (by rw [declares]; rfl)
  rw [declares] at stated
  obtain ⟨subject, object, _, _, ⟨here, rfl⟩, ⟨rfl, rfl⟩, main, operands⟩ := stated
  obtain rfl := Term.resource.inj here
  exact ⟨main, operands⟩

/-- What is told to have a characteristic is an object property. -/
theorem implied {iri type : Iri} (member : (⟨iri, Rdf.type, type⟩ : Triple) ∈ world.graph) (trait : (Characteristic.ofType? type).isSome) :
    world.known ⟨.objectProperty, iri⟩ := by
  have none : Characteristic.ofType? Owl.Ontology = none ∧ Characteristic.ofType? Swrl.Variable = none := by decide
  rcases saves.type member with ⟨-, same⟩ | ⟨same, -⟩ | ⟨⟨number, same⟩, -⟩ | ⟨stroke, listed, loose, -, main⟩
  · rw [Node.named.inj (Term.resource.inj same), none.1] at trait
    cases trait
  · rw [Node.named.inj (Term.resource.inj same), none.2] at trait
    cases trait
  · cases same
  · have stated := (saves.inscribed listed).stated loose
    rw [main] at stated
    exact (saves.known _).mpr (saves.component listed _ (Axiom.objectProperty_of_stated stated (saves.fitting listed) trait))

theorem declares : world.Declares (world.layout ontology header group strokes) where
  told entity tells := by
    refine ((saves.told entity).mp tells).imp_right ?_
    rintro ⟨fact, member, same⟩
    obtain ⟨stroke, listed, bare, -⟩ := saves.inscription.pieces fact member (.declaration entity) (by rw [same]; exact List.mem_singleton_self _)
    exact (saves.declaration_main listed bare).1 ▸ saves.main_mem listed
  isVariable := saves.isVariable_iff
  declared entity member := by
    obtain ⟨stroke, listed, bare⟩ := saves.declared member
    obtain ⟨fact, present, piece, -⟩ := saves.origin listed
    have whole : fact.bare = .declaration entity := by
      have has := Axiom.hasPiece_of_mem piece
      rw [bare] at has
      generalize fact.bare = bare at has
      cases has
      rfl
    refine ⟨saves.saveable.undeclared fact present entity whole, (saves.known entity).mpr ?_, _, List.mem_map_of_mem listed,
      (saves.declaration_main listed bare).1⟩
    exact saves.component listed _ (by rw [bare]; exact List.mem_singleton_self _)
  early := by
    refine forall_entry fun stroke listed early => ?_
    obtain ⟨entity, bare⟩ := Stroke.declaration_of_stage early
    obtain ⟨main, operands⟩ := saves.declaration_main listed bare
    have loose : stroke.bare.isGathered = false := by rw [bare]; rfl
    refine ⟨?_, entity, main, ?_⟩
    · simp [Stroke.entry, Stroke.attached, operands, loose]
    · simp only [Stroke.entry, bare]
      rfl
  later := by
    refine forall_entry fun stroke listed late entity same => ?_
    cases large : stroke.bare.isGathered with
    | true =>
      obtain ⟨number, type, main, -⟩ := saves.main_gathered listed large
      cases main.symm.trans same
    | false =>
      have leading := saves.leading listed large
      rw [show stroke.main = entity.declaring from same] at leading
      exact late (Stroke.stage_early.mpr (by rw [leading.declaration]; rfl))
  implied iri type member trait := saves.implied member trait
  plain iri member := by
    have kinds : ∀ kind ∈ EntityKind.all, kind.type ≠ Rdfs.Class := by decide
    have traits : ∀ trait ∈ Characteristic.all, trait.type ≠ Rdfs.Class := by decide
    rcases saves.type member with ⟨-, same⟩ | ⟨same, -⟩ | ⟨⟨number, same⟩, -⟩ | ⟨stroke, listed, loose, -, main⟩
    · exact absurd same (by decide)
    · exact absurd same (by decide)
    · cases same
    · have leading := saves.leading listed loose
      rw [main] at leading
      exact leading.not_class

section Blocks

variable {stroke : Stroke} (listed : stroke ∈ strokes)
include listed

/-- What describes operands leads no piece. -/
theorem operand_ne_main {triple : Triple} (member : triple ∈ stroke.operands) {other : Stroke} (present : other ∈ strokes) :
    triple ≠ other.main := by
  rintro rfl
  obtain ⟨-, part, number, own⟩ := saves.operand listed member
  cases large : other.bare.isGathered with
  | false => exact (saves.leading present large).not_part own part
  | true =>
    have apart : Rdf.type ∉ Role.innerPredicates ∧ Rdf.type ≠ Swrl.arguments := by decide
    obtain ⟨_, type, same, known⟩ := saves.main_gathered present large
    rw [same] at part
    rcases part with ⟨-, other, inner, object⟩ | inner | facet | ⟨arguments, -⟩
    · obtain rfl : type = other := Node.named.inj (Term.resource.inj object)
      exact Role.partType_not_axiomType type (List.mem_append_left _ inner) known
    · exact apart.1 inner
    · exact (Role.facet_not_candidate _ (by simpa [Iri.isFacet] using facet)).1 rfl
    · exact apart.2 arguments

/-- What the annotations of a piece take describes no operands. -/
theorem own_not_operand {triple : Triple} (member : triple ∈ stroke.own) {other : Stroke} (present : other ∈ strokes) :
    triple ∉ other.operands := by
  intro operand
  rcases saves.own_apposed listed member with ⟨-, rfl⟩ | apposed
  · exact saves.operand_ne_main present operand listed rfl
  · exact (saves.operand present operand).2.1.not_apposed apposed

theorem attached_noted {triple : Triple} (member : triple ∈ stroke.attached) :
    stroke.bare.isGathered = true ∧ triple ∈ stroke.own ∧ Apposed triple := by
  rw [Stroke.attached] at member
  split at member
  · next large => exact ⟨large, (saves.inscribed listed).noted_subset triple member, saves.noted_apposed listed member⟩
  · cases member

end Blocks

theorem exclusive {part : List Triple} (exclusive : (world.layout ontology header group strokes).Exclusive part) {triple : Triple}
    (member : triple ∈ part) : Apposed triple ∧ (triple.subject = header ∨ ∃ number, triple.subject = supply number) := by
  cases exclusive with
  | group => exact ⟨(saves.group_remarking triple member).apposed, saves.heading.subject member⟩
  | @notes entry present =>
    obtain ⟨stroke, listed, rfl⟩ := List.mem_map.mp present
    obtain ⟨-, own, apposed⟩ := saves.attached_noted listed member
    exact ⟨apposed, .inr (saves.own_fresh listed own)⟩
  | @remark remark present =>
    obtain ⟨stroke, listed, found⟩ := List.mem_filterMap.mp present
    obtain ⟨number, pointed, rfl⟩ := Stroke.pointed_of_remark? (saves.inscribed listed) found
    refine ⟨(saves.own_apposed listed member).resolve_left ?_, .inr (saves.own_fresh listed member)⟩
    rintro ⟨large, -⟩
    cases large.symm.trans pointed.loose

theorem exclusive_not_candidate {session : Session} (holds : world.Holds session) (headed : session.header = some header)
    {part : List Triple} (exclusive : (world.layout ontology header group strokes).Exclusive part) {triple : Triple} (member : triple ∈ part) :
    session.isCandidate triple = false := by
  obtain ⟨apposed, place⟩ := saves.exclusive exclusive member
  cases exclusive with
  | group => exact saves.group_not_candidate holds headed member
  | @notes entry present =>
    obtain ⟨stroke, listed, rfl⟩ := List.mem_map.mp present
    have own := (saves.attached_noted listed member).2.1
    exact (saves.own_not_candidate holds headed listed own).resolve_left (saves.ne_main apposed place listed)
  | @remark remark present =>
    obtain ⟨stroke, listed, found⟩ := List.mem_filterMap.mp present
    obtain ⟨number, pointed, rfl⟩ := Stroke.pointed_of_remark? (saves.inscribed listed) found
    exact (saves.own_not_candidate holds headed listed member).resolve_left (saves.ne_main apposed place listed)

theorem apart : (world.layout ontology header group strokes).Apart where
  own part exclusive triple member := by
    obtain ⟨apposed, own⟩ := saves.exclusive exclusive member
    refine ⟨fun base => apposed.not_framing (framing_of_base base), forall_entry fun stroke listed => ?_⟩
    exact saves.ne_main apposed own listed
  group triple member := by
    refine ⟨forall_entry fun stroke listed => ?_, saves.forall_remark fun stroke listed _ _ => saves.group_apart member listed⟩
    intro inside
    rcases List.mem_append.mp inside with operand | attached
    · exact (saves.operand listed operand).2.1.not_apposed (saves.group_remarking triple member).apposed
    · exact saves.group_apart member listed (saves.attached_noted listed attached).2.1
  notes := by
    refine forall_entry fun stroke listed triple member => ?_
    obtain ⟨large, own, -⟩ := saves.attached_noted listed member
    refine ⟨List.mem_append_right _ member, forall_entry fun other present different inside => ?_,
      saves.forall_remark fun other present number pointed inside => ?_⟩
    · rcases List.mem_append.mp inside with operand | attached
      · exact saves.own_not_operand listed own present operand
      · exact different (saves.stroke_eq present listed (saves.attached_noted present attached).2.1 own ▸ rfl)
    · rw [saves.stroke_eq listed present own inside, pointed.loose] at large
      cases large
  remarks remark member triple inside := by
    obtain ⟨stroke, listed, found⟩ := List.mem_filterMap.mp member
    obtain ⟨number, pointed, same⟩ := Stroke.pointed_of_remark? (saves.inscribed listed) found
    rw [same] at inside
    refine ⟨forall_entry fun other present within => ?_, fun other also different within => ?_⟩
    · rcases List.mem_append.mp within with operand | attached
      · exact saves.own_not_operand listed inside present operand
      · obtain ⟨large, own, -⟩ := saves.attached_noted present attached
        rw [← saves.stroke_eq listed present inside own, pointed.loose] at large
        cases large
    · obtain ⟨rival, present, made⟩ := List.mem_filterMap.mp also
      obtain ⟨_, _, equal⟩ := Stroke.pointed_of_remark? (saves.inscribed present) made
      rw [equal] at within
      rw [← saves.stroke_eq listed present inside within, found] at made
      exact different (Option.some.inj made).symm

section Reads

omit saves in
/-- Whether unknown kinds are waited for has nothing to do with the graph. -/
def forcing (world : World) (forced : Bool) : World := { world with context := { world.context with forced } }

theorem force (forced : Bool) : (forcing world forced).Saves ontology supply header group strokes block :=
  ⟨saves.saveable, saves.injective, saves.fresh, saves.headed, saves.inscription, saves.cover, saves.shared, saves.known, saves.told, saves.isVariable⟩

omit saves in
theorem holds_force {forced : Bool} {session : Session} : (forcing world forced).Holds session ↔ world.Holds session :=
  ⟨fun holds => ⟨holds.indexed, holds.rows, holds.rank, holds.ruleVariables, holds.told, holds.known, holds.spent⟩,
    fun holds => ⟨holds.indexed, holds.rows, holds.rank, holds.ruleVariables, holds.told, holds.known, holds.spent⟩⟩

omit saves in
/-- A reading that need not wait is the same when nothing may wait. -/
theorem run_of_finds {forced : Bool} {α : Type} {body : Translation α} {post : α → Prop} {visited used : List Triple} {session : Session}
    (finds : (forcing world forced).FindsAt session body post visited used) (idle : session.visiting = []) : ∃ value after,
      body { world.context with forced } session = (.ok value, after) ∧ post value ∧ world.Step session after used := by
  obtain ⟨value, after, run, holds, step⟩ := finds (by simp [idle])
  exact ⟨value, after, run, holds, holds_force.mp step.holds, step.same, step.used⟩

/-- What leads a piece is read as its entry tells. -/
theorem reads_entry {stroke : Stroke} (listed : stroke ∈ strokes) (undeclared : stroke.bare.kind ≠ .declaration) (forced : Bool)
    {session : Session} (holds : world.Holds session) (idle : session.visiting = []) (unused : world.Unused session stroke.attached) :
    ∃ after, Translation.statement stroke.main { world.context with forced } session = (.ok (stroke.entry world.anonymous).fact, after) ∧
      world.Step session after (stroke.operands ++ stroke.attached) := by
  have also := saves.force forced
  have finds : (forcing world forced).FindsAt session (Translation.statement stroke.main) (· = (stroke.entry world.anonymous).fact)
      (stroke.operands ++ stroke.attached) (stroke.operands ++ stroke.attached) := by
    cases large : stroke.bare.isGathered with
    | true =>
      simp only [Stroke.entry, Stroke.attached, large, if_true] at unused ⊢
      exact also.finds_gathered listed large (holds_force.mpr holds) unused
    | false =>
      simp only [Stroke.entry, Stroke.attached, large, Bool.false_eq_true, if_false, List.append_nil]
      exact (also.yields_stated listed large undeclared session (holds_force.mpr holds)).finds rfl
  obtain ⟨_, after, run, rfl, step⟩ := run_of_finds finds idle
  exact ⟨after, run, step⟩

/-- What points at a triple is read as the annotations that are added to its axiom. -/
theorem reads_remark {stroke : Stroke} (listed : stroke ∈ strokes) {number : Nat} (pointed : Pointed supply world.graph stroke number)
    (forced : Bool) {session : Session} (holds : world.Holds session) (idle : session.visiting = []) (unused : world.Unused session stroke.own) :
    ∃ notes after, Translation.readReification (supply number) { world.context with forced } session = (.ok (stroke.main, notes), after) ∧
      world.Step session after stroke.own ∧ .of (stroke.bare.rename world.anonymous) notes =
        AnnotatedAxiom.rename world.anonymous ⟨stroke.bare, stroke.notes⟩ := by
  have also := saves.force forced
  have carrying : Carrying supply world.graph ontology header group strokes (supply number) stroke.notes stroke.noted :=
    .piece listed pointed.annotated
  have pointer : Pointer world.graph Owl.Axiom stroke.main (supply number) stroke.notes := by
    have known : ∀ predicate ∈ pointerPredicates, predicate ∈ Role.predicates := by
      simp [pointerPredicates, Role.predicates, Role.structuralPredicates]
    have keys : (pointerValues Owl.Axiom stroke.main).map Prod.fst = pointerPredicates := rfl
    refine ⟨fun predicate key object => ⟨fun member => ?_, fun value => ?_⟩, fun predicate object member => ?_⟩
    · exact saves.value_of_pointer listed pointed.alone (fun plain => Iri.isPlain_not_predicate plain (known _ (keys ▸ key))) member
    · refine saves.mem_graph listed (List.mem_cons_of_mem _ (List.mem_append_right _ ?_))
      exact pointed.own ▸ List.mem_append_left _ (mem_triplesAt.mpr ⟨rfl, value⟩)
    · refine (pointed.alone _ member rfl).imp (fun inside => (mem_triplesAt.mp inside).2) ?_
      rintro ⟨note, inside, same⟩
      exact ⟨note, inside, congrArg Triple.predicate same, congrArg Triple.object same⟩
  have finds : (forcing world forced).FindsAt session (Translation.readReification (supply number))
      (fun read => read.1 = stroke.main ∧ (forcing world forced).SameNotes stroke.notes read.2) stroke.noted
      (triplesAt (supply number) (pointerValues Owl.Axiom stroke.main) ++ stroke.noted) :=
    FindsAt.readReification also.coherent.settled (holds_force.mpr holds) (by simp [Role.pointerTypes]) pointer
      (also.described carrying) carrying.subset (also.annotates (also.note_component listed))
      fun row member inside => unused row member (pointed.own ▸ List.mem_append_right _ inside)
  obtain ⟨⟨_, notes⟩, after, run, ⟨rfl, same⟩, step⟩ := run_of_finds finds idle
  exact ⟨notes, after, run, pointed.own ▸ step, also.of_sameNotes listed same⟩

end Reads

theorem states : world.States (world.layout ontology header group strokes) where
  mains := forall_entry fun stroke listed => ⟨saves.main_mem listed, fun base => saves.main_not_framing listed (framing_of_base base)⟩
  blocks := by
    refine forall_entry fun stroke listed triple member => ⟨fun base => ?_, forall_entry fun other present => ?_⟩
    · rcases List.mem_append.mp member with operand | attached
      · exact (saves.operand listed operand).2.1.not_framing (framing_of_base base)
      · exact (saves.attached_noted listed attached).2.2.not_framing (framing_of_base base)
    · rcases List.mem_append.mp member with operand | attached
      · exact saves.operand_ne_main listed operand present
      · obtain ⟨-, own, apposed⟩ := saves.attached_noted listed attached
        exact saves.ne_main apposed (.inr (saves.own_fresh listed own)) present
  candidates session holds headed := by
    refine ⟨forall_entry fun stroke listed stage => ?_, forall_entry fun stroke listed stage => ?_,
      forall_entry fun stroke listed triple member _ => ?_,
      fun part exclusive triple member _ => saves.exclusive_not_candidate holds headed exclusive member⟩
    · obtain ⟨undeclared, seen⟩ := Stroke.stage_candidate.mp stage
      exact saves.main_candidate holds headed listed undeclared seen
    · exact saves.hidden_not_candidate holds listed (Stroke.stage_late.mp stage)
    · rcases List.mem_append.mp member with operand | attached
      · exact saves.operand_not_candidate holds listed operand
      · exact saves.exclusive_not_candidate holds headed (.notes (List.mem_map_of_mem listed)) attached
  reads := by
    refine forall_entry fun stroke listed later forced session holds idle unused => ?_
    exact saves.reads_entry listed (fun declared => later (Stroke.stage_early.mpr declared)) forced holds idle unused
  late := by
    refine forall_entry fun stroke listed stage => ?_
    have hidden := Stroke.stage_late.mp stage
    have loose := Stroke.isGathered_of_hidden hidden
    refine ⟨by simp [Stroke.entry, Stroke.attached, loose], ?_⟩
    obtain ⟨fact, member, piece, notes⟩ := saves.origin listed
    have seen := (saves.saveable.facts fact member).seen ((Axiom.isHidden_of_piece (Axiom.hasPiece_of_mem piece)).symm.trans hidden)
    obtain ⟨number, pointed⟩ := Stroke.pointed_of_filled (saves.inscribed listed) loose (notes ▸ seen)
    exact ⟨_, mem_remarks listed pointed, rfl⟩

/-- A node that is said to annotate an axiom points at what leads a piece. -/
theorem pointed_of_type {node : Node} (member : (⟨node, Rdf.type, Owl.Axiom⟩ : Triple) ∈ world.graph) :
    ∃ stroke ∈ strokes, ∃ number, Pointed supply world.graph stroke number ∧ node = supply number := by
  have apposed : Apposed ⟨node, Rdf.type, Owl.Axiom⟩ := .inr ⟨Owl.Axiom, by simp [Role.pointerTypes], .inl ⟨rfl, rfl⟩⟩
  have special : Owl.Axiom ∈ Role.specialTypes ∧ Owl.Axiom ∉ Role.axiomTypes := by decide
  have not_main {stroke : Stroke} (listed : stroke ∈ strokes) (same : (⟨node, Rdf.type, Owl.Axiom⟩ : Triple) = stroke.main) : False := by
    cases large : stroke.bare.isGathered with
    | true =>
      obtain ⟨number, type, main, known⟩ := saves.main_gathered listed large
      cases same.trans main
      exact special.2 known
    | false =>
      have outer := (saves.leading listed large).outer_of_apposed (same ▸ apposed)
      rw [← same] at outer
      exact saves.not_special (saves.outer_ne_fresh listed outer) _ special.1 member
  rcases saves.place member with heads | within | ⟨iri, -, same⟩ | ⟨stroke, listed, same | inside | inside⟩
  · exact absurd (framing_header heads) apposed.not_framing
  · exact absurd (saves.group_remarking _ within) Remarking.not_axiom
  · exact absurd (same ▸ framing_variable iri) apposed.not_framing
  · exact (not_main listed same).elim
  · exact absurd apposed (saves.operand listed inside).2.1.not_apposed
  · refine ⟨stroke, listed, ?_⟩
    cases large : stroke.bare.isGathered with
    | true =>
      obtain ⟨number, _, _, _, -, -, own, -, -, annotated⟩ := (saves.inscribed listed).carrier large
      rw [own] at inside
      rcases List.mem_cons.mp inside with same | noted
      · exact (not_main listed same).elim
      · exact absurd (saves.noted_remarking listed annotated _ noted) Remarking.not_axiom
    | false =>
      rcases (saves.inscribed listed).pointer large with ⟨-, none⟩ | ⟨filled, number, own, alone, annotated⟩
      · rw [none] at inside
        cases inside
      · refine ⟨number, ⟨large, filled, own, alone, annotated⟩, ?_⟩
        rw [own] at inside
        rcases List.mem_append.mp inside with pointer | noted
        · exact (mem_triplesAt.mp pointer).1
        · exact absurd (saves.noted_remarking listed annotated _ noted) Remarking.not_axiom

omit saves in
/-- Annotations that are added to an axiom without annotations are all that it has. -/
theorem of_entry {stroke : Stroke} (loose : stroke.bare.isGathered = false) (f : BlankNode → BlankNode) (notes : List Annotation) :
    (stroke.entry f).fact.annotations = [] ∧
      AnnotatedAxiom.of (stroke.entry f).fact.bare ((stroke.entry f).fact.annotations ++ notes) = .of (stroke.bare.rename f) notes := by
  have none : (stroke.entry f).fact = .of (stroke.bare.rename f) [] := by
    rw [Stroke.entry, loose, AnnotatedAxiom.rename_eq_of]
    rfl
  have empty : Annotation.canonical [] = [] := Annotation.canonical_eq_nil.mpr rfl
  rw [none]
  simp [AnnotatedAxiom.of, empty]

theorem marks : world.Marks (world.layout ontology header group strokes) where
  listed := saves.forall_remark fun stroke listed _ _ => List.mem_map_of_mem listed
  nodes node := by
    constructor
    · intro typed
      obtain ⟨stroke, listed, number, pointed, same⟩ := saves.pointed_of_type typed
      exact ⟨_, mem_remarks listed pointed, same⟩
    · rintro ⟨remark, member, rfl⟩
      revert remark
      exact saves.forall_remark fun stroke listed number pointed =>
        saves.mem_graph listed (List.mem_cons_of_mem _ (List.mem_append_right _ pointed.typed))
  typed := saves.forall_remark fun stroke listed number pointed => pointed.typed
  source := saves.forall_remark fun stroke listed number pointed object member => by
    have value := saves.value_of_pointer listed pointed.alone (not_plain_of_points (by simp [Role.pointerPredicates])) member
    have apart : Owl.annotatedSource ≠ Rdf.type ∧ Owl.annotatedSource ≠ Owl.annotatedProperty ∧ Owl.annotatedSource ≠ Owl.annotatedTarget := by
      decide
    change object = (stroke.main.subject : Term)
    simpa [pointerValues, apart] using value
  bare := saves.forall_remark fun stroke listed number pointed type known typed => by
    have special : ∀ type ∈ Role.pointerTypes, type ∈ Role.specialTypes := by decide
    rcases saves.main_subject listed pointed.loose with outer | ⟨-, plain⟩
    · exact saves.not_special (saves.outer_ne_fresh listed outer) type (special type known) typed
    · exact plain type (special type known) typed
  reads := saves.forall_remark fun stroke listed number pointed session holds idle unused => by
    obtain ⟨notes, after, run, step, same⟩ := saves.reads_remark listed pointed true holds idle unused
    exact ⟨notes, after, run, step, (of_entry pointed.loose world.anonymous notes).2.trans same⟩
  annotated := saves.forall_remark fun stroke listed number pointed => by
    refine ⟨(of_entry pointed.loose world.anonymous []).1, ?_⟩
    rw [AnnotatedAxiom.rename_eq_of, AnnotatedAxiom.of, ne_eq, Annotation.canonical_eq_nil, List.map_eq_nil_iff]
    exact pointed.filled
  single remark member other present same := by
    obtain ⟨stroke, listed, found⟩ := List.mem_filterMap.mp member
    obtain ⟨rival, inside, made⟩ := List.mem_filterMap.mp present
    obtain ⟨number, pointed, own⟩ := Stroke.pointed_of_remark? (saves.inscribed listed) found
    obtain ⟨also, points, equal⟩ := Stroke.pointed_of_remark? (saves.inscribed inside) made
    have node : supply number = supply also := by rwa [own, equal] at same
    rw [saves.stroke_eq listed inside pointed.typed (node ▸ points.typed), made] at found
    exact (Option.some.inj found).symm

/-- A graph that is written of an ontology is laid out. -/
theorem laidOut (labels : ∀ a b, Mentioned world.graph a → Mentioned world.graph b → world.anonymous a = world.anonymous b → a = b) :
    world.LaidOut (world.layout ontology header group strokes) where
  heads := saves.heads labels
  declares := saves.declares
  states := saves.states
  apart := saves.apart
  marks := saves.marks
  cover triple member := by
    rcases saves.place member with heads | within | ⟨iri, named, rfl⟩ | ⟨stroke, listed, rest⟩
    · exact .inl (.inl (.inl heads))
    · exact .inl (.inr within)
    · exact .inl (.inl (.inr ⟨iri, rfl⟩))
    · have entry := List.mem_map_of_mem (f := Stroke.entry world.anonymous) listed
      rcases rest with rfl | operand | own
      · exact .inr (.inl ⟨_, entry, trivial, .inl rfl⟩)
      · exact .inr (.inl ⟨_, entry, trivial, .inr (List.mem_append_left _ operand)⟩)
      cases large : stroke.bare.isGathered with
      | true =>
        obtain ⟨_, _, _, _, -, -, whole, -⟩ := (saves.inscribed listed).carrier large
        rw [whole] at own
        refine .inr (.inl ⟨_, entry, trivial, (List.mem_cons.mp own).imp_right fun noted => List.mem_append_right _ ?_⟩)
        rwa [Stroke.attached, if_pos large]
      | false =>
        have filled : stroke.notes ≠ [] := by
          rcases (saves.inscribed listed).pointer large with ⟨-, none⟩ | ⟨filled, -⟩
          · rw [none] at own
            cases own
          · exact filled
        obtain ⟨number, pointed⟩ := Stroke.pointed_of_filled (saves.inscribed listed) large filled
        exact .inr (.inr ⟨_, mem_remarks listed pointed, trivial, own⟩)

end Saves

end World

end OwlGraph
