import OwlGraph.Proofs.SavedGraph

/-! The candidates of a saved graph. What leads a piece is one, unless it gives a characteristic to an
inverse property; what describes operands, and what belongs to annotations, is none. -/

namespace OwlGraph

open Rendering

/-- What leads an axiom makes a blank node no part of a construct. -/
theorem Leading.not_construct {bare : Axiom} {main : Triple} (leading : Leading bare main) {node : BlankNode} (own : main.subject = node) :
    Session.describesConstruct main = false := by
  have traits : ∀ trait ∈ Characteristic.all, trait.type ∉ Role.constructTypes ∧ trait.type ∉ Role.specialTypes := by decide
  have known : ∀ type, type ∈ Role.constructTypes ∨ type ∈ Role.specialTypes → type ∈ Role.types := by
    intro type listed
    simp only [Role.types, List.mem_append]
    exact .inl (.inl (listed.elim .inr fun special => .inl (.inr special)))
  have untyped : Rdf.type ∉ Role.classAxiomPredicates ++ Role.propertyAxiomPredicates := by decide
  cases leading with
  | declaring => cases own
  | @typing _ object _ _ typed =>
    rw [Session.describesConstruct, if_pos rfl, Bool.eq_false_iff, ne_eq, Option.any_eq_true]
    rintro ⟨type, named, described⟩
    rw [Term.iri?_eq_some] at named
    simp only [Bool.or_eq_true, List.contains_eq_mem, decide_eq_true_iff] at described
    rcases typed with ⟨trait, same⟩ | other
    · obtain rfl : trait.type = type := Node.named.inj (Term.resource.inj (same.symm.trans named))
      have apart := traits trait (by cases trait <;> simp [Characteristic.all])
      exact described.elim apart.1 apart.2
    · exact other type (known type described) named
  | asserting _ plain =>
    have apart : main.predicate ≠ Rdf.type := ne_of_plain plain (by simp [Role.predicates])
    rw [Session.describesConstruct, if_neg apart, List.contains_eq_mem, decide_eq_false_iff_not]
    exact fun structural => Iri.isPlain_not_predicate plain (Role.structural_known structural)
  | relating _ relation named =>
    have apart : main.predicate ≠ Rdf.type := fun same => untyped (same ▸ relation)
    rw [Session.describesConstruct, if_neg apart, List.contains_eq_mem, decide_eq_false_iff_not]
    intro structural
    obtain ⟨-, free, only⟩ := Role.structural_not_candidate _ structural
    obtain ⟨iri, same⟩ := named (only ((List.mem_append.mp relation).resolve_left free))
    cases own.symm.trans same

/-- What leads an axiom and is about a blank node is about one of its individuals, if it types the node or asserts a property. -/
theorem Leading.outer {bare : Axiom} {main : Triple} (leading : Leading bare main) (seen : bare.isHidden = false) {node : BlankNode}
    (own : main.subject = node) (shape : main.predicate = Rdf.type ∨ main.predicate.isPlain = true) : bare.Outer main.subject := by
  have untyped : Rdf.type ∉ Role.classAxiomPredicates ++ Role.propertyAxiomPredicates := by decide
  cases leading with
  | declaring => cases own
  | typing _ outer => exact outer seen
  | asserting _ _ outer => exact outer
  | relating _ relation =>
    rcases shape with typed | plain
    · exact absurd (typed ▸ relation) untyped
    · exact absurd (Role.relation_known relation) (Iri.isPlain_not_predicate plain)

namespace World.Saves

variable {world : World} {ontology : Ontology} {supply : Nat → BlankNode} {header : Node} {group : List Triple}
  {strokes : List Stroke} {block : List Triple} (saves : world.Saves ontology supply header group strokes block)
include saves

/-- A blank node that is not fresh is no part of a construct. -/
theorem loose {node : Node} (foreign : ∀ number, node ≠ supply number) (other : node ≠ header) {blank : BlankNode} (anonymous : node = blank) :
    world.Loose node := by
  intro triple member own
  rcases saves.place member with heads | within | ⟨iri, -, rfl⟩ | ⟨stroke, listed, rfl | inside | inside⟩
  · exact absurd (own.symm.trans (subject_headerTriples triple heads)) other
  · have carrying : Carrying supply world.graph ontology header group strokes header ontology.annotations group :=
      .heading saves.headed.annotated
    rcases carrying.subject within with same | ⟨number, same⟩
    · exact absurd (own.symm.trans same) other
    · exact absurd (own.symm.trans same) (foreign number)
  · cases own.trans anonymous
  · cases large : stroke.bare.isGathered with
    | true =>
      obtain ⟨number, _, same, -⟩ := saves.main_gathered listed large
      exact absurd (own.symm.trans (congrArg Triple.subject same)) (foreign number)
    | false => exact (saves.leading listed large).not_construct (own.trans anonymous)
  · obtain ⟨-, -, number, same⟩ := saves.operand listed inside
    exact absurd (own.symm.trans same) (foreign number)
  · obtain ⟨number, same⟩ := saves.own_fresh listed inside
    exact absurd (own.symm.trans same) (foreign number)

section Sessions

variable {session : Session} (holds : world.Holds session) (headed : session.header = some header)
include holds

theorem operand_not_candidate {stroke : Stroke} (listed : stroke ∈ strokes) {triple : Triple} (member : triple ∈ stroke.operands) :
    session.isCandidate triple = false := by
  obtain ⟨present, part, number, own⟩ := saves.operand listed member
  exact isCandidate_of_part holds present own part

/-- The characteristic of an inverse property is taken for part of the construct. -/
theorem hidden_not_candidate {stroke : Stroke} (listed : stroke ∈ strokes) (hidden : stroke.bare.isHidden = true) :
    session.isCandidate stroke.main = false := by
  have traits : ∀ trait ∈ Characteristic.all, trait.type ∉ Role.axiomTypes := by decide
  have loose : stroke.bare.isGathered = false := by
    generalize stroke.bare = bare at hidden
    cases bare <;> first | rfl | cases hidden
  have stated := (saves.inscribed listed).stated loose
  have inner : ∀ triple ∈ stroke.operands, triple ∈ world.graph := fun triple inside => (saves.operand listed inside).1
  generalize stroke.bare = bare, stroke.main = main, stroke.operands = operands at hidden stated inner
  cases bare with
  | characteristic trait property =>
    cases property with
    | named => cases hidden
    | inverse iri =>
      obtain ⟨subject, object, _, _, ⟨node, here, -, -, rfl⟩, ⟨rfl, rfl⟩, rfl, rfl⟩ := stated
      obtain rfl := Term.resource.inj here
      have structural : session.isStructural node = true := by
        refine holds.isStructural.mpr ⟨⟨node, Owl.inverseOf, iri⟩, inner _ (by simp [triplesAt]), rfl, ?_⟩
        have known : Owl.inverseOf ≠ Rdf.type ∧ Role.structuralPredicates.contains Owl.inverseOf = true := by decide
        rw [Session.describesConstruct, if_neg known.1]
        exact known.2
      have other := traits trait (by cases trait <;> simp [Characteristic.all])
      simp [Session.isCandidate, Session.isTypeCandidate, structural, other]
  | _ => cases hidden

include headed

omit saves in
/-- What belongs to the annotations of a special node is about such a node. -/
theorem remarking_not_candidate {node : Node} {triple : Triple} (special : world.Special header node)
    (remarking : Remarking supply world.graph node triple) (member : triple ∈ world.graph) : session.isCandidate triple = false := by
  rcases remarking with ⟨plain, own⟩ | ⟨points, number, own⟩
  · refine isCandidate_of_special holds headed ?_ (ne_of_plain plain (by simp [Role.predicates]))
    rcases own with rfl | typed
    · exact special
    · exact .inr ⟨Owl.Annotation, by simp [Role.specialTypes], typed⟩
  · exact isCandidate_of_pointing holds member own (by simp [Role.pointerTypes]) points

theorem group_not_candidate {triple : Triple} (member : triple ∈ group) : session.isCandidate triple = false :=
  remarking_not_candidate holds headed (.inl rfl) (saves.group_remarking triple member)
    ((saves.cover triple).mpr (.inl (List.mem_append_right _ member)))

theorem own_not_candidate {stroke : Stroke} (listed : stroke ∈ strokes) {triple : Triple} (member : triple ∈ stroke.own) :
    triple = stroke.main ∨ session.isCandidate triple = false := by
  have present : triple ∈ world.graph := saves.mem_graph listed (List.mem_cons_of_mem _ (List.mem_append_right _ member))
  have known : ∀ type ∈ Owl.Axiom :: Role.axiomTypes, type ∈ Role.specialTypes := by decide
  rcases (saves.inscribed listed).own_cases triple member with ⟨-, same⟩ | ⟨-, number, points⟩ | noted
  · exact .inl same
  · exact .inr (isCandidate_of_pointing holds present (mem_triplesAt.mp points).1 (by simp [Role.pointerTypes]) (pointing_triplesAt points))
  · right
    cases large : stroke.bare.isGathered with
    | true =>
      obtain ⟨number, type, _, _, same, -, -, gathered, -, annotated⟩ := (saves.inscribed listed).carrier large
      refine remarking_not_candidate holds headed (.inr ⟨type, ?_, ?_⟩) (saves.noted_remarking listed annotated triple noted) present
      · exact known type (List.mem_cons_of_mem _ gathered.inner.1)
      · exact same ▸ saves.main_mem listed
    | false =>
      rcases (saves.inscribed listed).pointer large with ⟨-, none⟩ | ⟨-, number, own, -, annotated⟩
      · rw [none] at member
        cases member
      · refine remarking_not_candidate holds headed (.inr ⟨Owl.Axiom, known _ List.mem_cons_self, ?_⟩)
          (saves.noted_remarking listed annotated triple noted) present
        refine saves.mem_graph listed (List.mem_cons_of_mem _ (List.mem_append_right _ ?_))
        exact own ▸ List.mem_append_left _ (mem_triplesAt.mpr ⟨rfl, List.mem_cons_self⟩)

/-- What leads a piece is a candidate, unless it declares something or is taken for part of a construct. -/
theorem main_candidate {stroke : Stroke} (listed : stroke ∈ strokes) (undeclared : stroke.bare.kind ≠ .declaration)
    (seen : stroke.bare.isHidden = false) : session.isCandidate stroke.main = true := by
  cases large : stroke.bare.isGathered with
  | true =>
    obtain ⟨number, type, same, known⟩ := saves.main_gathered listed large
    rw [same, Session.isCandidate]
    simp [Session.isTypeCandidate, known]
  | false =>
    have leading := saves.leading listed large
    have free : ¬ world.Special header stroke.main.subject := by
      rintro (same | ⟨type, special, typed⟩)
      · exact saves.main_ne_header listed same
      · rcases saves.main_subject listed large with outer | ⟨-, plain⟩
        · exact saves.not_special (saves.outer_ne_fresh listed outer) type special typed
        · exact plain type special typed
    refine isCandidate_of_stated holds headed ((saves.inscribed listed).stated large) (saves.valid listed).1 (saves.fitting listed)
      undeclared seen free fun node own shape => ?_
    exact saves.loose (saves.outer_ne_fresh listed (leading.outer seen own shape)) (saves.main_ne_header listed) own

end Sessions

end World.Saves

end OwlGraph
