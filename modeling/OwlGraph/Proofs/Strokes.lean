import OwlGraph.Proofs.Candidates
import OwlGraph.Proofs.FactDrawing
import OwlGraph.Proofs.MissingTriples

/-! The triples of a saved graph by their looks. What frames the graph, what leads an axiom, what is
part of a construct and what belongs to annotations differ in their predicates and types, or in
whether they are about a fresh node. So each kind of triple is read by one part of the load only. -/

namespace OwlGraph

/-- The triple belongs to the header, or declares a variable. -/
def Framing (triple : Triple) : Prop :=
  triple.predicate ∈ [Owl.versionIRI, Owl.imports] ∨
    triple.predicate = Rdf.type ∧ (triple.object = Owl.Ontology ∨ triple.object = Swrl.Variable)

/-- The triple claims an annotation or makes a node point at a triple. -/
def Apposed (triple : Triple) : Prop :=
  triple.predicate.isPlain = true ∨ ∃ type ∈ Role.pointerTypes, Pointing type triple

/-- The node is a name or an anonymous individual of the axiom. -/
def Axiom.Outer (bare : Axiom) (node : Node) : Prop :=
  (∃ iri, node = .named iri ∧ ∃ component ∈ bare.components, component.iri? = some iri) ∨
    ∃ blank, node = .blank blank ∧ .anonymous blank ∈ bare.components

/-- How a triple looks that states the axiom. -/
inductive Leading (bare : Axiom) : Triple → Prop
  | declaring (entity : Entity) (same : bare = .declaration entity) : Leading bare entity.declaring
  | typing {subject : Node} {object : Term} (undeclared : bare.kind ≠ .declaration) (outer : bare.isHidden = false → bare.Outer subject)
      (typed : (∃ trait : Characteristic, object = trait.type) ∨ ∀ type ∈ Role.types, object ≠ (type : Term)) :
      Leading bare ⟨subject, Rdf.type, object⟩
  | asserting {triple : Triple} (undeclared : bare.kind ≠ .declaration) (plain : triple.predicate.isPlain = true)
      (outer : bare.Outer triple.subject) : Leading bare triple
  | relating {triple : Triple} (undeclared : bare.kind ≠ .declaration)
      (relation : triple.predicate ∈ Role.classAxiomPredicates ++ Role.propertyAxiomPredicates)
      (named : triple.predicate = Owl.inverseOf → ∃ iri, triple.subject = .named iri) : Leading bare triple

namespace Role

theorem inner_apart : ∀ predicate ∈ innerPredicates, predicate ∉ [Owl.versionIRI, Owl.imports] ∧ predicate ∉ pointerPredicates := by
  decide +kernel

theorem structural_known {predicate : Iri} (member : predicate ∈ structuralPredicates) : predicate ∈ predicates :=
  List.mem_append_right _ member

theorem relation_known {predicate : Iri} (member : predicate ∈ classAxiomPredicates ++ propertyAxiomPredicates) : predicate ∈ predicates := by
  simp only [predicates, List.mem_append] at member ⊢
  exact .inl (.inl (member.imp_left .inr))

theorem partType_known : ∀ type ∈ constructTypes ++ atomTypes ++ pointerTypes, type ∈ types := by
  have special : ∀ type ∈ atomTypes ++ pointerTypes, type ∈ specialTypes := by simp [atomTypes, pointerTypes, specialTypes]
  intro type member
  rw [List.append_assoc, List.mem_append] at member
  simp only [types, List.mem_append]
  exact .inl (.inl (member.symm.imp (fun inside => .inr (special type inside)) id))

end Role

section Looks

variable {graph block : List Triple} {triple main : Triple} {bare : Axiom}

theorem ne_of_plain {predicate known : Iri} (plain : predicate.isPlain = true) (member : known ∈ Role.predicates) : predicate ≠ known := by
  rintro rfl
  exact Iri.isPlain_not_predicate plain member

theorem not_plain_of_points {predicate : Iri} (points : predicate ∈ Role.pointerPredicates) : predicate.isPlain ≠ true :=
  fun plain => Iri.isPlain_not_predicate plain (Role.structural_known (Role.mem_structural.mpr (.inr points)))

theorem not_plain_of_pointing {type : Iri} (pointing : Pointing type triple) : triple.predicate.isPlain ≠ true := by
  intro plain
  rcases pointing with ⟨typed, -⟩ | points
  · exact ne_of_plain plain (by simp [Role.predicates]) typed
  · exact not_plain_of_points points plain

/-- What belongs to annotations is no part of a construct. -/
theorem Part.not_apposed (part : Part graph triple) : ¬ Apposed triple := by
  have types : ∀ type ∈ Role.constructTypes ++ Role.atomTypes, type ∉ Role.pointerTypes := by decide
  have pointers : Rdf.type ∉ Role.pointerPredicates ∧ Swrl.arguments ∉ Role.pointerPredicates ∧ Swrl.arguments ≠ Rdf.type := by decide
  rintro (plain | ⟨type, pointing, points⟩)
  · rcases part with ⟨typed, -⟩ | member | facet | ⟨arguments, -⟩
    · exact ne_of_plain plain (by simp [Role.predicates]) typed
    · exact Iri.isPlain_not_predicate plain (Role.structural_known (Role.mem_structural.mpr (.inl member)))
    · obtain ⟨-, -, -, -, -, -, reserved, unbuilt⟩ := Role.facet_not_candidate _ (by simpa [Iri.isFacet] using facet)
      simp [Iri.isPlain, Iri.isVocabulary, reserved, unbuilt] at plain
    · exact ne_of_plain plain (by simp [Role.predicates]) arguments
  · rcases part with ⟨typed, own, known, object⟩ | member | facet | ⟨arguments, -⟩
    · rcases points with ⟨-, same⟩ | points
      · obtain rfl : own = type := Node.named.inj (Term.resource.inj (object.symm.trans same))
        exact types own known pointing
      · exact pointers.1 (typed ▸ points)
    · exact points.elim (fun typed => (Role.structural_not_candidate _ (Role.mem_structural.mpr (.inl member))).1 typed.1)
        (Role.inner_apart _ member).2
    · obtain ⟨untyped, -, -, -, -, outside, -⟩ := Role.facet_not_candidate _ (by simpa [Iri.isFacet] using facet)
      exact points.elim (fun typed => untyped typed.1) fun points => outside (Role.mem_structural.mpr (.inr points))
    · rw [Pointing, arguments] at points
      exact points.elim (fun typed => pointers.2.2 typed.1) pointers.2.1

theorem Part.not_framing (part : Part graph triple) : ¬ Framing triple := by
  have types : ∀ type ∈ Role.constructTypes ++ Role.atomTypes, type ≠ Owl.Ontology ∧ type ≠ Swrl.Variable := by decide
  have facets : ∀ facet ∈ Iri.facets, facet ∉ [Owl.versionIRI, Owl.imports] := by decide
  have others : Rdf.type ∉ [Owl.versionIRI, Owl.imports] ∧ Swrl.arguments ∉ [Owl.versionIRI, Owl.imports] ∧ Swrl.arguments ≠ Rdf.type := by
    decide
  rintro (heads | ⟨typing, object⟩)
  · rcases part with ⟨typed, -⟩ | member | facet | ⟨arguments, -⟩
    · exact others.1 (typed ▸ heads)
    · exact (Role.inner_apart _ member).1 heads
    · exact facets _ (by simpa [Iri.isFacet] using facet) heads
    · exact others.2.1 (arguments ▸ heads)
  · rcases part with ⟨-, own, known, same⟩ | member | facet | ⟨arguments, -⟩
    · rw [same] at object
      simp [types own known] at object
    · exact (Role.structural_not_candidate _ (Role.mem_structural.mpr (.inl member))).1 typing
    · exact (Role.facet_not_candidate _ (by simpa [Iri.isFacet] using facet)).1 typing
    · exact others.2.2 (arguments.symm.trans typing)

theorem Apposed.not_framing (apposed : Apposed triple) : ¬ Framing triple := by
  have types : ∀ type ∈ Role.pointerTypes, type ≠ Owl.Ontology ∧ type ≠ Swrl.Variable := by decide
  have pointers : ∀ predicate ∈ Role.pointerPredicates, predicate ≠ Rdf.type ∧ predicate ∉ [Owl.versionIRI, Owl.imports] := by decide
  have others : Rdf.type ∉ [Owl.versionIRI, Owl.imports] := by decide
  rcases apposed with plain | ⟨type, known, ⟨typed, same⟩ | points⟩
  · rintro (heads | ⟨typed, -⟩)
    · exact Iri.isPlain_not_predicate plain (by
        have known : ∀ predicate ∈ [Owl.versionIRI, Owl.imports], predicate ∈ Role.predicates := by simp [Role.predicates]
        exact known _ heads)
    · exact ne_of_plain plain (by simp [Role.predicates]) typed
  · rintro (heads | ⟨-, object⟩)
    · exact others (typed ▸ heads)
    · rw [same] at object
      simp [types type known] at object
  · rintro (heads | ⟨typed, -⟩)
    · exact (pointers _ points).2 heads
    · exact (pointers _ points).1 typed

theorem framing_header {ontology : Ontology} {node : Node} (member : triple ∈ headerTriples ontology node) : Framing triple := by
  simp only [headerTriples, List.mem_cons, List.mem_append, List.mem_map] at member
  rcases member with rfl | ⟨_, _, rfl⟩ | ⟨_, _, rfl⟩
  · exact .inr ⟨rfl, .inl rfl⟩
  · exact .inl (by simp)
  · exact .inl (by simp)

theorem framing_variable (iri : Iri) : Framing (variableTriple iri) := .inr ⟨rfl, .inr rfl⟩

end Looks

section Leading

variable {graph block : List Triple} {triple main : Triple} {bare : Axiom}

theorem Leading.not_framing (leading : Leading bare main) : ¬ Framing main := by
  have kinds : ∀ kind ∈ EntityKind.all, kind.type ≠ Owl.Ontology ∧ kind.type ≠ Swrl.Variable := by decide
  have traits : ∀ trait ∈ Characteristic.all, trait.type ≠ Owl.Ontology ∧ trait.type ≠ Swrl.Variable := by decide
  have known : Owl.Ontology ∈ Role.types ∧ Swrl.Variable ∈ Role.types := by simp [Role.types]
  have predicates : ∀ predicate ∈ Role.classAxiomPredicates ++ Role.propertyAxiomPredicates,
      predicate ≠ Rdf.type ∧ predicate ∉ [Owl.versionIRI, Owl.imports] := by decide
  have others : Rdf.type ∉ [Owl.versionIRI, Owl.imports] := by decide
  cases leading with
  | declaring entity =>
    rintro (heads | ⟨-, object⟩)
    · exact others heads
    · have own := kinds entity.kind (by cases entity.kind <;> simp [EntityKind.all])
      simp [Entity.declaring, own] at object
  | typing _ _ typed =>
    rintro (heads | ⟨-, object⟩)
    · exact others heads
    · rcases typed with ⟨trait, rfl⟩ | other
      · have own := traits trait (by cases trait <;> simp [Characteristic.all])
        simp [own] at object
      · exact object.elim (other _ known.1) (other _ known.2)
  | asserting _ plain => exact Apposed.not_framing (.inl plain)
  | relating _ relation =>
    rintro (heads | ⟨typed, -⟩)
    · exact (predicates _ relation).2 heads
    · exact (predicates _ relation).1 typed

/-- What leads an axiom and tells the kind of an entity declares it. -/
theorem Leading.declaration {entity : Entity} (leading : Leading bare entity.declaring) : bare = .declaration entity := by
  have traits : ∀ trait ∈ Characteristic.all, ∀ kind ∈ EntityKind.all, kind.type ≠ trait.type := by decide
  have untyped : Rdf.type ∉ Role.classAxiomPredicates ++ Role.propertyAxiomPredicates := by decide
  have listed : entity.kind ∈ EntityKind.all := by cases entity.kind <;> simp [EntityKind.all]
  have known : entity.kind.type ∈ Role.types := by
    simp only [Role.types, List.mem_append]
    exact .inl (.inr (List.mem_map_of_mem listed))
  generalize same : entity.declaring = main at leading
  cases leading with
  | declaring other declares => rw [declares, Entity.declaring_inj same]
  | typing _ _ typed =>
    cases same
    rcases typed with ⟨trait, object⟩ | other
    · refine absurd (Node.named.inj (Term.resource.inj object)) (traits trait ?_ entity.kind listed)
      cases trait <;> simp [Characteristic.all]
    · exact absurd rfl (other _ known)
  | asserting _ plain =>
    rw [← same] at plain
    have known : Rdf.type ∈ Role.predicates := by simp [Role.predicates]
    exact absurd known (Iri.isPlain_not_predicate plain)
  | relating _ relation =>
    cases same
    exact absurd relation untyped

/-- What leads an axiom does not say in passing that something is a class. -/
theorem Leading.not_class {node : Node} : ¬ Leading bare ⟨node, Rdf.type, Rdfs.Class⟩ := by
  have kinds : ∀ kind ∈ EntityKind.all, kind.type ≠ Rdfs.Class := by decide
  have traits : ∀ trait ∈ Characteristic.all, trait.type ≠ Rdfs.Class := by decide
  have untyped : Rdf.type ∉ Role.classAxiomPredicates ++ Role.propertyAxiomPredicates := by decide
  intro leading
  generalize same : (⟨node, Rdf.type, Rdfs.Class⟩ : Triple) = main at leading
  cases leading with
  | declaring entity =>
    refine absurd (Node.named.inj (Term.resource.inj (congrArg Triple.object same))).symm (kinds _ ?_)
    cases entity.kind <;> simp [EntityKind.all]
  | typing _ _ typed =>
    cases same
    rcases typed with ⟨trait, object⟩ | other
    · refine absurd (Node.named.inj (Term.resource.inj object)).symm (traits trait ?_)
      cases trait <;> simp [Characteristic.all]
    · exact absurd rfl (other _ (by simp [Role.types]))
  | asserting _ plain =>
    cases same
    exact absurd rfl (ne_of_plain plain (by simp [Role.predicates]))
  | relating _ relation =>
    cases same
    exact absurd relation untyped

/-- What leads an axiom is no part of a construct if it is about a blank node. -/
theorem Leading.not_part (leading : Leading bare main) {node : BlankNode} (own : main.subject = node) : ¬ Part graph main := by
  have traits : ∀ trait ∈ Characteristic.all, trait.type ∉ Role.constructTypes ++ Role.atomTypes := by decide
  have apart : Rdf.type ∉ Role.innerPredicates ∧ Rdf.type ≠ Swrl.arguments := by decide
  have untyped : Rdf.type ∉ Role.classAxiomPredicates ++ Role.propertyAxiomPredicates := by decide
  cases leading with
  | declaring entity => cases own
  | typing _ _ typed =>
    rintro (⟨-, type, known, object⟩ | member | facet | ⟨arguments, -⟩)
    · rcases typed with ⟨trait, rfl⟩ | other
      · obtain rfl : trait.type = type := Node.named.inj (Term.resource.inj object)
        exact traits trait (by cases trait <;> simp [Characteristic.all]) known
      · exact other type (Role.partType_known type (List.mem_append_left _ known)) object
    · exact apart.1 member
    · exact (Role.facet_not_candidate _ (by simpa [Iri.isFacet] using facet)).1 rfl
    · exact apart.2 arguments
  | asserting _ plain => exact fun part => part.not_apposed (.inl plain)
  | relating _ relation named =>
    rintro (⟨typed, -⟩ | member | facet | ⟨arguments, -⟩)
    · exact untyped (typed ▸ relation)
    · obtain ⟨-, free, only⟩ := Role.structural_not_candidate _ (Role.mem_structural.mpr (.inl member))
      obtain ⟨iri, same⟩ := named (only ((List.mem_append.mp relation).resolve_left free))
      cases own.symm.trans same
    · obtain ⟨-, free, outside, -⟩ := Role.facet_not_candidate _ (by simpa [Iri.isFacet] using facet)
      exact (List.mem_append.mp relation).elim free outside
    · obtain ⟨free, outside, -⟩ := Role.arguments_not_candidate
      rw [arguments] at relation
      exact (List.mem_append.mp relation).elim free outside

/-- Where it looks like an annotation, it is about a name or an anonymous individual of the axiom. -/
theorem Leading.outer_of_apposed (leading : Leading bare main) (apposed : Apposed main) : bare.Outer main.subject := by
  have kinds : ∀ kind ∈ EntityKind.all, kind.type ∉ Role.pointerTypes := by decide
  have traits : ∀ trait ∈ Characteristic.all, trait.type ∉ Role.pointerTypes := by decide
  have apart : Rdf.type ∉ Role.pointerPredicates := by decide
  have relations : ∀ predicate ∈ Role.classAxiomPredicates ++ Role.propertyAxiomPredicates,
      predicate ≠ Rdf.type ∧ predicate ∉ Role.pointerPredicates := by decide +kernel
  have untyped {subject : Node} {object : Term} (apposed : Apposed ⟨subject, Rdf.type, object⟩) :
      ∃ type ∈ Role.pointerTypes, object = (type : Term) := by
    rcases apposed with plain | ⟨type, known, ⟨-, same⟩ | points⟩
    · exact absurd (by simp [Role.predicates]) (Iri.isPlain_not_predicate plain)
    · exact ⟨type, known, same⟩
    · exact absurd points apart
  cases leading with
  | declaring entity =>
    obtain ⟨type, known, same⟩ := untyped apposed
    obtain rfl : entity.kind.type = type := Node.named.inj (Term.resource.inj same)
    exact absurd known (kinds _ (by cases entity.kind <;> simp [EntityKind.all]))
  | typing _ _ typed =>
    obtain ⟨type, known, rfl⟩ := untyped apposed
    rcases typed with ⟨trait, same⟩ | other
    · obtain rfl : type = trait.type := Node.named.inj (Term.resource.inj same)
      exact absurd known (traits _ (by cases trait <;> simp [Characteristic.all]))
    · exact absurd rfl (other type (Role.partType_known type (List.mem_append_right _ known)))
  | asserting _ _ outer => exact outer
  | relating _ relation =>
    obtain ⟨untyped, unpointing⟩ := relations _ relation
    rcases apposed with plain | ⟨type, -, ⟨typed, -⟩ | points⟩
    · exact absurd (Role.relation_known relation) (Iri.isPlain_not_predicate plain)
    · exact absurd typed untyped
    · exact absurd points unpointing

/-- What states an axiom relates two operands, unless it types a node or asserts a property. -/
private theorem relation_of_stated (stated : bare.Stated graph main block) (fitting : bare.Fitting) (untyped : main.predicate ≠ Rdf.type)
    (own : main.predicate.isPlain ≠ true) : main.predicate ∈ Role.classAxiomPredicates ++ Role.propertyAxiomPredicates ∧
      (main.predicate = Owl.inverseOf → ∃ first second, bare = .inverseObjectProperties first second) := by
  have predicate := Axiom.predicate_of_stated stated
  rw [predicate] at untyped own ⊢
  have others : ∀ predicate ∈ Role.classAxiomPredicates ++ Role.propertyAxiomPredicates.erase Owl.inverseOf, predicate ≠ Owl.inverseOf := by
    decide +kernel
  cases bare with
  | inverseObjectProperties first second =>
    exact ⟨by simp [Axiom.predicate, Role.propertyAxiomPredicates], fun _ => ⟨first, second, rfl⟩⟩
  | declaration | classAssertion | characteristic | functionalDataProperty | rule => exact absurd rfl untyped
  | objectPropertyAssertion polarity property =>
    cases polarity with
    | positive => exact absurd fitting own
    | negative => exact stated.elim
  | dataPropertyAssertion polarity property =>
    cases polarity with
    | positive => exact absurd fitting own
    | negative => exact stated.elim
  | annotationAssertion property => exact absurd fitting own
  | _ =>
    have listed : Role.propertyAxiomPredicates.erase Owl.inverseOf = Role.propertyAxiomPredicates.take 9 := by decide
    refine ⟨by simp [Axiom.predicate, Role.classAxiomPredicates, Role.propertyAxiomPredicates], fun same => absurd same (others _ ?_)⟩
    rw [listed]
    simp [Axiom.predicate, Role.classAxiomPredicates, Role.propertyAxiomPredicates]

theorem Axiom.outer_of_individual {individual : Individual} {term : Term} {part : List Triple} {node : Node} (same : term = node)
    (standing : Standing individual term part) (listed : .individual individual ∈ bare.components) : bare.Outer node := by
  obtain rfl : node = individual := Term.resource.inj (same.symm.trans standing.1)
  cases node with
  | named iri => exact .inl ⟨iri, rfl, _, listed, rfl⟩
  | blank blank => exact .inr ⟨blank, rfl, listed⟩

/-- A type tells a class assertion or a characteristic. -/
private theorem Axiom.typing_of_stated {subject : Node} {object : Term} (stated : bare.Stated graph ⟨subject, Rdf.type, object⟩ block)
    (fitting : bare.Fitting) (undeclared : bare.kind ≠ .declaration) : Leading bare ⟨subject, Rdf.type, object⟩ := by
  rcases World.stated_type fitting undeclared stated with ⟨cls, individual, rfl⟩ | ⟨trait, property, rfl⟩ | ⟨property, rfl⟩
  · obtain ⟨_, _, _, _, standing, described, same, -⟩ := stated
    cases same
    exact .typing undeclared (fun _ => outer_of_individual rfl standing (by simp [components])) (.inr (World.asserted_type fitting described))
  · obtain ⟨_, _, _, _, described, ⟨rfl, -⟩, same, -⟩ := stated
    cases same
    refine .typing undeclared (fun seen => ?_) (.inl ⟨trait, rfl⟩)
    cases property with
    | named iri => exact .inl ⟨iri, Term.resource.inj described.1, _, List.mem_cons_self, rfl⟩
    | inverse iri => cases seen
  · obtain ⟨_, _, _, _, ⟨here, -⟩, ⟨rfl, -⟩, same, -⟩ := stated
    cases same
    exact .typing undeclared (fun _ => .inl ⟨property, Term.resource.inj here, _, List.mem_cons_self, rfl⟩) (.inl ⟨.functional, rfl⟩)

/-- A predicate that is no term of the language tells an assertion, which is about a node of the axiom. -/
private theorem Axiom.outer_of_plain (stated : bare.Stated graph main block) (plain : main.predicate.isPlain = true) :
    bare.Outer main.subject := by
  have predicate := Axiom.predicate_of_stated stated
  rw [predicate] at plain
  have outside := Iri.isPlain_not_predicate plain
  cases bare with
  | declaration | classAssertion | characteristic | functionalDataProperty => exact absurd (show Rdf.type ∈ Role.predicates by decide) outside
  | rule => exact stated.elim
  | objectPropertyAssertion polarity property =>
    cases polarity with
    | negative => exact stated.elim
    | positive =>
      cases property with
      | inverse => exact stated.elim
      | named property =>
        obtain ⟨_, _, _, _, standing, -, rfl, -⟩ := stated
        exact outer_of_individual rfl standing (by simp [components])
  | dataPropertyAssertion polarity property =>
    cases polarity with
    | negative => exact stated.elim
    | positive =>
      obtain ⟨_, _, _, _, standing, -, rfl, -⟩ := stated
      exact outer_of_individual rfl standing (by simp [components])
  | annotationAssertion property subject =>
    obtain ⟨node, _, _, _, ⟨here, -⟩, -, rfl, -⟩ := stated
    obtain rfl : node = subject := Term.resource.inj here
    cases node with
    | named iri => exact .inl ⟨iri, rfl, .iri iri, by simp [components, Component.annotated], rfl⟩
    | blank blank => exact .inr ⟨blank, rfl, by simp [components, Component.annotated]⟩
  | _ =>
    refine absurd (Role.relation_known ?_) outside
    simp [Axiom.predicate, Role.classAxiomPredicates, Role.propertyAxiomPredicates]

/-- The triple that states an axiom leads it. -/
theorem Axiom.leading_of_stated {limit : Nat} (stated : bare.Stated graph main block) (sound : bare.Sound limit) (fitting : bare.Fitting) :
    Leading bare main := by
  by_cases declared : bare.kind = .declaration
  · cases bare with
    | declaration entity =>
      obtain ⟨subject, object, _, _, ⟨here, -⟩, ⟨rfl, -⟩, rfl, -⟩ := stated
      obtain rfl := Term.resource.inj here
      exact .declaring entity rfl
    | _ => cases declared
  by_cases typed : main.predicate = Rdf.type
  · obtain ⟨subject, predicate, object⟩ := main
    obtain rfl : predicate = Rdf.type := typed
    exact typing_of_stated stated fitting declared
  by_cases plain : main.predicate.isPlain = true
  · exact .asserting declared plain (outer_of_plain stated plain)
  · obtain ⟨relation, inverse⟩ := relation_of_stated stated fitting typed plain
    refine .relating declared relation fun same => ?_
    obtain ⟨first, second, rfl⟩ := inverse same
    obtain ⟨_, _, _, _, here, _, rfl, -⟩ := stated
    cases first with
    | named iri => exact ⟨iri, Term.resource.inj here.1⟩
    | inverse => cases sound

/-- What has a characteristic of object properties is one. -/
theorem Axiom.objectProperty_of_stated {iri type : Iri} (stated : bare.Stated graph ⟨iri, Rdf.type, type⟩ block) (fitting : bare.Fitting)
    (trait : (Characteristic.ofType? type).isSome) : .entity ⟨.objectProperty, iri⟩ ∈ bare.components := by
  have kinds : ∀ kind ∈ EntityKind.all, Characteristic.ofType? kind.type = none := by decide
  have listed : ∀ trait ∈ Characteristic.ofObjects, trait.type ∈ Role.types := by
    intro trait _
    simp only [Role.types, List.mem_append]
    exact .inr (List.mem_map_of_mem (by cases trait <;> simp [Characteristic.all]))
  obtain ⟨own, found⟩ := Option.isSome_iff_exists.mp trait
  by_cases declared : bare.kind = .declaration
  · cases bare with
    | declaration entity =>
      obtain ⟨_, _, _, _, -, ⟨rfl, -⟩, same, -⟩ := stated
      obtain rfl : type = entity.kind.type := Node.named.inj (Term.resource.inj (congrArg Triple.object same))
      rw [kinds _ (by cases entity.kind <;> simp [EntityKind.all])] at found
      cases found
    | _ => cases declared
  rcases World.stated_type fitting declared stated with ⟨cls, individual, rfl⟩ | ⟨other, property, rfl⟩ | ⟨property, rfl⟩
  · obtain ⟨_, _, _, _, -, described, same, -⟩ := stated
    cases same
    have known : type ∈ Role.types := by
      rw [← show own.type = type by simpa using List.find?_some found]
      exact listed own (List.mem_of_find?_eq_some found)
    exact absurd rfl (World.asserted_type fitting described type known)
  · obtain ⟨_, _, _, _, described, -, same, -⟩ := stated
    cases same
    cases property with
    | named other =>
      obtain rfl : iri = other := Node.named.inj (Term.resource.inj described.1)
      exact List.mem_cons_self
    | inverse other =>
      obtain ⟨node, same, -⟩ := described
      cases same
  · obtain ⟨_, _, _, _, -, ⟨rfl, -⟩, same, -⟩ := stated
    obtain rfl : type = Owl.FunctionalProperty := Node.named.inj (Term.resource.inj (congrArg Triple.object same))
    cases Characteristic.ofType?_functional.symm.trans found

theorem Axiom.loose_of_stated (stated : bare.Stated graph main block) : bare.isGathered = false := by
  unfold Stated at stated
  split at stated
  all_goals first
    | rfl
    | exact stated.elim

end Leading

end OwlGraph
