import OwlGraph.Proofs.AnnotationReading
import OwlGraph.Proofs.Parts

/-! Which triples are candidates. A triple inside a construct, a pointer or an annotation is none,
and a triple that states an axiom is one, unless it gives a characteristic to an inverse property:
the node of such a property is taken for part of a construct. -/

namespace OwlGraph

/-- Whether the triple that states the axiom is taken for a part of a construct: the characteristic
of an inverse property is, since the node of the property is its subject. -/
def Axiom.isHidden : Axiom → Bool
  | .characteristic _ property => !property.isNamed
  | _ => false

namespace World

variable {world : World} {session : Session}

theorem Holds.mem_types (holds : world.Holds session) {node : Node} {type : Iri} :
    type ∈ session.store.types node ↔ (⟨node, Rdf.type, type⟩ : Triple) ∈ world.graph := by
  rw [← holds.hasType, TripleStore.hasType, List.contains_eq_mem, decide_eq_true_iff]

/-- The node stands for the ontology or has one of the types that make it special. -/
def Special (world : World) (header : Node) (node : Node) : Prop :=
  node = header ∨ ∃ type ∈ Role.specialTypes, (⟨node, Rdf.type, type⟩ : Triple) ∈ world.graph

theorem Holds.isSpecial (holds : world.Holds session) {header node : Node} (headed : session.header = some header) :
    session.isSpecial node = true ↔ world.Special header node := by
  rw [Session.isSpecial, headed, Bool.or_eq_true, beq_iff_eq, Option.some.injEq, List.any_eq_true, Special, eq_comm]
  simp only [holds.mem_types, List.contains_eq_mem, decide_eq_true_iff]
  exact or_congr_right ⟨fun ⟨type, member, special⟩ => ⟨type, special, member⟩, fun ⟨type, special, member⟩ => ⟨type, member, special⟩⟩

theorem Holds.isStructural (holds : world.Holds session) {node : BlankNode} :
    session.isStructural node = true ↔
      ∃ triple ∈ world.graph, triple.subject = node ∧ Session.describesConstruct triple = true := by
  rw [Session.isStructural, holds.withSubject, List.any_eq_true]
  simp only [List.mem_filter, beq_iff_eq, World.graph, List.mem_map, exists_exists_and_eq_and, and_assoc]

section Parts

variable {triple : Triple} {node : BlankNode}

theorem describesConstruct_type {type : Iri} (known : type ∈ Role.constructTypes ∨ type ∈ Role.specialTypes) (node : Node) :
    Session.describesConstruct ⟨node, Rdf.type, type⟩ = true := by
  simp only [Session.describesConstruct, if_true, Term.iri?_eq_some.mpr rfl, Option.any_some, Bool.or_eq_true,
    List.contains_eq_mem, decide_eq_true_iff]
  exact known

/-- What describes the type of a construct, an atom or a pointer is no candidate. -/
private theorem isCandidate_partType (holds : world.Holds session) (member : triple ∈ world.graph)
    (own : triple.subject = node) (typed : triple.predicate = Rdf.type) {type : Iri}
    (known : type ∈ Role.constructTypes ++ Role.atomTypes ++ Role.pointerTypes) (object : triple.object = type) :
    session.isCandidate triple = false := by
  have special : ∀ type ∈ Role.atomTypes ++ Role.pointerTypes, type ∈ Role.specialTypes := by
    simp [Role.atomTypes, Role.pointerTypes, Role.specialTypes]
  obtain ⟨subject, predicate, object⟩ := triple
  simp only at own typed object
  subst own typed object
  have structural : session.isStructural node = true := holds.isStructural.mpr ⟨_, member, rfl, describesConstruct_type
    (by rw [List.append_assoc, List.mem_append] at known; exact known.imp_right (special type)) _⟩
  have other := Role.partType_not_axiomType type known
  simp [Session.isCandidate, Session.isTypeCandidate, structural, other]

private theorem isCandidate_structural (own : triple.subject = node) (structural : triple.predicate ∈ Role.structuralPredicates) :
    session.isCandidate triple = false := by
  obtain ⟨untyped, free, only⟩ := Role.structural_not_candidate _ structural
  rw [Session.isCandidate]
  simp only [untyped, if_false, own]
  split
  · rfl
  · split
    · rfl
    next other =>
      rw [not_or] at other
      have outside : triple.predicate ∉ Role.propertyAxiomPredicates := fun inside => other.1 (only inside)
      simp [free, outside, structural]

theorem isCandidate_of_part (holds : world.Holds session) (member : triple ∈ world.graph) (own : triple.subject = node)
    (part : Part world.graph triple) : session.isCandidate triple = false := by
  rcases part with ⟨typed, type, known, object⟩ | inner | facet | ⟨arguments, typed⟩
  · exact isCandidate_partType holds member own typed (List.mem_append_left _ known) object
  · exact isCandidate_structural own (Role.mem_structural.mpr (Or.inl inner))
  · obtain ⟨untyped, free, outside, undefined, other, inside, reserved, unbuilt⟩ :=
      Role.facet_not_candidate _ (by simpa [Iri.isFacet] using facet)
    simp [Session.isCandidate, untyped, free, outside, undefined, other, inside, reserved, unbuilt]
  · obtain ⟨free, outside, undefined, other, untyped, inside⟩ := Role.arguments_not_candidate
    have structural : session.isStructural node = true := holds.isStructural.mpr
      ⟨_, typed, own, describesConstruct_type (Or.inr (by simp [Role.specialTypes])) _⟩
    simp [Session.isCandidate, arguments, own, free, outside, undefined, other, untyped, structural]

theorem isCandidate_of_pointing (holds : world.Holds session) (member : triple ∈ world.graph) (own : triple.subject = node)
    {type : Iri} (known : type ∈ Role.pointerTypes) (pointing : Pointing type triple) : session.isCandidate triple = false := by
  rcases pointing with ⟨typed, object⟩ | points
  · exact isCandidate_partType holds member own typed (List.mem_append_right _ known) object
  · exact isCandidate_structural own (Role.mem_structural.mpr (Or.inr points))

/-- What is said about the ontology, an axiom or an annotation is no candidate either. -/
theorem isCandidate_of_special (holds : world.Holds session) {header : Node} (headed : session.header = some header)
    (special : world.Special header triple.subject) (untyped : triple.predicate ≠ Rdf.type) :
    session.isCandidate triple = false := by
  simp [Session.isCandidate, untyped, (holds.isSpecial headed).mpr special]

end Parts

section Mains

variable {bare : Axiom} {main : Triple} {block : List Triple} {header : Node}

/-- Nothing makes the node a part of a construct. -/
def Loose (world : World) (node : Node) : Prop :=
  ∀ triple ∈ world.graph, triple.subject = node → Session.describesConstruct triple = false

theorem Holds.isStructural_of_loose (holds : world.Holds session) {node : Node} (loose : world.Loose node) :
    session.isStructural node = false := by
  cases node with
  | named => rfl
  | blank node =>
    rw [Bool.eq_false_iff]
    intro structural
    obtain ⟨triple, member, own, describes⟩ := holds.isStructural.mp structural
    rw [loose triple member own] at describes
    cases describes

private theorem isTypeCandidate_stated (holds : world.Holds session) (headed : session.header = some header)
    {subject : Node} {object : Term} (stated : bare.Stated world.graph ⟨subject, Rdf.type, object⟩ block)
    (fitting : bare.Fitting) (undeclared : bare.kind ≠ .declaration) (seen : bare.isHidden = false)
    (free : ¬ world.Special header subject) (loose : ∀ node : BlankNode, subject = node → world.Loose subject) :
    session.isTypeCandidate subject object = true := by
  have special : session.isSpecial subject = false := by
    rw [Bool.eq_false_iff]
    exact fun special => free ((holds.isSpecial headed).mp special)
  have structural : session.isStructural subject = false := by
    cases subject with
    | named => rfl
    | blank node => exact holds.isStructural_of_loose (loose node rfl)
  rcases stated_type fitting undeclared stated with ⟨cls, individual, rfl⟩ | ⟨trait, property, rfl⟩ | ⟨property, rfl⟩
  · obtain ⟨_, _, _, _, -, described, same, -⟩ := stated
    cases same
    rcases class_of_described described with ⟨iri, rfl, rfl⟩ | ⟨node, _, rfl, -, -⟩
    · have allowed : iri.isBuiltinClass = true ∨ iri.isReserved = false := by
        by_cases reserved : iri.isReserved = true
        · exact Or.inl (fitting (by rw [Iri.isVocabulary, reserved, Bool.true_or]))
        · exact Or.inr (by simpa using reserved)
      rw [Session.isTypeCandidate, special, structural]
      rcases allowed with built | own
      · simp [built]
      · simp [own]
    · simp [Session.isTypeCandidate, special, structural]
  · obtain ⟨_, _, _, _, -, ⟨rfl, -⟩, same, -⟩ := stated
    cases same
    have known : (Characteristic.ofType? trait.type).isSome = true ∨ trait.type = Owl.FunctionalProperty := by
      cases trait with
      | functional => exact Or.inr rfl
      | _ => exact Or.inl (by rw [Characteristic.ofType?_type _ (by simp [Characteristic.ofObjects])]; rfl)
    rcases known with known | known <;> simp [Session.isTypeCandidate, special, structural, known]
  · obtain ⟨_, _, _, _, -, ⟨rfl, -⟩, same, -⟩ := stated
    cases same
    simp [Session.isTypeCandidate, special, structural]

/-- A predicate by which some axiom relates two operands. -/
private theorem isCandidate_relation (holds : world.Holds session) (headed : session.header = some header)
    {triple : Triple} (relation : triple.predicate ∈ Role.classAxiomPredicates ++ Role.propertyAxiomPredicates)
    (free : ¬ world.Special header triple.subject) (named : triple.predicate = Owl.inverseOf → triple.subject.iri?.isSome = true) :
    session.isCandidate triple = true := by
  have apart : ∀ predicate ∈ Role.classAxiomPredicates ++ Role.propertyAxiomPredicates,
      predicate ≠ Rdf.type ∧ predicate ∉ Role.definitionPredicates := by decide
  obtain ⟨untyped, undefined⟩ := apart _ relation
  have special : session.isSpecial triple.subject = false := by
    rw [Bool.eq_false_iff]
    exact fun special => free ((holds.isSpecial headed).mp special)
  rw [Session.isCandidate]
  simp only [untyped, if_false, special, Bool.false_eq_true, List.contains_eq_mem, decide_eq_true_iff, undefined, or_false]
  by_cases inverse : triple.predicate = Owl.inverseOf
  · rw [if_pos inverse, named inverse]
  · rw [if_neg inverse]
    rcases List.mem_append.mp relation with member | member <;> simp [member]

private theorem isCandidate_plain (holds : world.Holds session) (headed : session.header = some header)
    {triple : Triple} (plain : triple.predicate.isPlain = true) (free : ¬ world.Special header triple.subject)
    (loose : ∀ node : BlankNode, triple.subject = node → world.Loose triple.subject) : session.isCandidate triple = true := by
  have structural : session.isStructural triple.subject = false := by
    cases own : triple.subject with
    | named => rfl
    | blank node => exact own ▸ holds.isStructural_of_loose (loose node own)
  have special : session.isSpecial triple.subject = false := by
    rw [Bool.eq_false_iff]
    exact fun special => free ((holds.isSpecial headed).mp special)
  have foreign := Iri.isPlain_not_predicate plain
  simp only [Role.predicates, List.mem_append, not_or, List.mem_cons, List.not_mem_nil, or_false] at foreign
  obtain ⟨⟨⟨⟨⟨untyped, -⟩, free⟩, outside⟩, undefined⟩, inner⟩ := foreign
  have other : triple.predicate ≠ Owl.inverseOf := by
    intro same
    exact inner (by rw [same]; simp [Role.structuralPredicates])
  rw [Session.isCandidate]
  simp only [untyped, if_false, special, Bool.false_eq_true, other, List.contains_eq_mem, decide_eq_true_iff, undefined, or_self,
    free, outside, inner, structural]
  rw [Iri.isPlain] at plain
  cases built : triple.predicate.isBuiltinAnnotationProperty with
  | true => rw [Bool.or_true]
  | false =>
    rw [built, Bool.or_false, Iri.isVocabulary] at plain
    simp only [Bool.not_or, Bool.and_eq_true] at plain
    rw [plain.1, Bool.true_or]

/-- The triple that states an axiom is a candidate for it. -/
theorem isCandidate_of_stated (holds : world.Holds session) (headed : session.header = some header)
    (stated : bare.Stated world.graph main block) {limit : Nat} (sound : bare.Sound limit) (fitting : bare.Fitting)
    (undeclared : bare.kind ≠ .declaration) (seen : bare.isHidden = false) (free : ¬ world.Special header main.subject)
    (loose : ∀ node : BlankNode, main.subject = node → main.predicate = Rdf.type ∨ main.predicate.isPlain = true →
      world.Loose main.subject) : session.isCandidate main = true := by
  have predicate := Axiom.predicate_of_stated stated
  by_cases typed : main.predicate = Rdf.type
  · obtain ⟨subject, _, object⟩ := main
    cases typed
    rw [Session.isCandidate]
    exact isTypeCandidate_stated holds headed stated fitting undeclared seen free fun node own => loose node own (Or.inl rfl)
  by_cases plain : main.predicate.isPlain = true
  · exact isCandidate_plain holds headed plain free fun node own => loose node own (Or.inr plain)
  have notPlain : ∀ {property : Iri}, property.isPlain = true → main.predicate ≠ property := by
    rintro property known rfl
    exact plain known
  have apart : Owl.inverseOf ∉ Role.classAxiomPredicates ++ Role.propertyAxiomPredicates.erase Owl.inverseOf := by decide
  have relation : (∃ first second, bare = .inverseObjectProperties first second) ∨
      main.predicate ∈ Role.classAxiomPredicates ++ Role.propertyAxiomPredicates.erase Owl.inverseOf := by
    have listed : Role.propertyAxiomPredicates.erase Owl.inverseOf = Role.propertyAxiomPredicates.take 9 := by decide
    rw [predicate] at typed ⊢
    rw [listed]
    cases bare with
    | inverseObjectProperties first second => exact Or.inl ⟨first, second, rfl⟩
    | declaration | classAssertion | characteristic | functionalDataProperty | rule => exact absurd rfl typed
    | objectPropertyAssertion polarity property =>
      cases polarity with
      | positive => exact absurd predicate (notPlain fitting)
      | negative => exact stated.elim
    | dataPropertyAssertion polarity property =>
      cases polarity with
      | positive => exact absurd predicate (notPlain fitting)
      | negative => exact stated.elim
    | annotationAssertion property => exact absurd predicate (notPlain fitting)
    | _ => exact Or.inr (by simp [Axiom.predicate, Role.classAxiomPredicates, Role.propertyAxiomPredicates])
  rcases relation with ⟨first, second, rfl⟩ | relation
  · have known : main.predicate ∈ Role.classAxiomPredicates ++ Role.propertyAxiomPredicates := by
      simp [predicate, Axiom.predicate, Role.propertyAxiomPredicates]
    refine isCandidate_relation holds headed known free fun _ => ?_
    obtain ⟨_, _, _, _, here, _, rfl, -⟩ := stated
    cases first with
    | named iri =>
      obtain ⟨same, -⟩ := here
      cases same
      rfl
    | inverse => cases sound
  · refine isCandidate_relation holds headed ?_ free fun inverse => absurd (inverse ▸ relation) apart
    exact (List.mem_append.mp relation).elim (List.mem_append_left _) fun member =>
      List.mem_append_right _ (List.mem_of_mem_erase member)

end Mains

end World

end OwlGraph
