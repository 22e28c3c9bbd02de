import Mathlib.Logic.Relation
import OwlGraph.Proofs.Components

/-! What occurs in an axiom, at any depth. An axiom falls into pieces, those into smaller ones,
and at the bottom there are components and names that are none: the variable of a rule, the
predicate of a built-in, a facet. The components of an axiom are exactly the components that
occur in it or in its annotations. -/

namespace OwlGraph

open Relation

/-- An annotated axiom and everything that it can fall into. -/
inductive Piece where
  | annotated (fact : AnnotatedAxiom)
  | bare (statement : Axiom)
  | note (note : Annotation)
  | subject (node : Node)
  | value (term : Term)
  | formula (atom : Atom)
  | individualArgument (argument : IndividualArgument)
  | dataArgument (argument : DataArgument)
  | cls (expression : ClassExpression)
  | dataRange (range : DataRange)
  | property (expression : PropertyExpression)
  | individual (node : Individual)
  | literal (constant : Literal)
  | component (leaf : Component)
  | name (iri : Iri)

def DataRange.parts : DataRange → List Piece
  | .datatype iri => [.component (.datatype iri)]
  | .combination _ operands => operands.map .dataRange
  | .complement operand => [.dataRange operand]
  | .oneOf values => values.map .literal
  | .restriction base facets =>
    .component (.datatype base) :: facets.flatMap fun restriction => [.name restriction.facet, .literal restriction.value]

def ClassExpression.parts : ClassExpression → List Piece
  | .named iri => [.component (.cls iri)]
  | .combination _ operands => operands.map .cls
  | .complement operand => [.cls operand]
  | .oneOf individuals => individuals.map .individual
  | .objectValues _ property filler => [.property property, .cls filler]
  | .objectHasValue property individual => [.property property, .individual individual]
  | .hasSelf property => [.property property]
  | .objectCardinality _ _ property filler => .property property :: filler.toList.map .cls
  | .dataValues _ property filler => [.component (.dataProperty property), .dataRange filler]
  | .dataHasValue property value => [.component (.dataProperty property), .literal value]
  | .dataCardinality _ _ property filler => .component (.dataProperty property) :: filler.toList.map .dataRange

def Atom.parts : Atom → List Piece
  | .cls expression argument => [.cls expression, .individualArgument argument]
  | .dataRange range argument => [.dataRange range, .dataArgument argument]
  | .objectProperty property subject object =>
    [.property property, .individualArgument subject, .individualArgument object]
  | .dataProperty property subject object =>
    [.component (.dataProperty property), .individualArgument subject, .dataArgument object]
  | .sameIndividual first second | .differentIndividuals first second =>
    [.individualArgument first, .individualArgument second]
  | .builtin predicate arguments => .name predicate :: arguments.map .dataArgument

def Axiom.parts : Axiom → List Piece
  | .declaration entity => [.component (.entity entity)]
  | .equivalentClasses classes | .disjointClasses classes => classes.map .cls
  | .subClassOf sub sup => [.cls sub, .cls sup]
  | .disjointUnion cls parts => .component (.cls cls) :: parts.map .cls
  | .classAssertion cls individual => [.cls cls, .individual individual]
  | .sameIndividual individuals | .differentIndividuals individuals => individuals.map .individual
  | .objectPropertyAssertion _ property subject object => [.property property, .individual subject, .individual object]
  | .dataPropertyAssertion _ property subject value =>
    [.component (.dataProperty property), .individual subject, .literal value]
  | .equivalentObjectProperties properties | .disjointObjectProperties properties => properties.map .property
  | .subObjectPropertyOf sub sup => [.property sub, .property sup]
  | .inverseObjectProperties first second => [.property first, .property second]
  | .characteristic _ property => [.property property]
  | .objectPropertyDomain property cls | .objectPropertyRange property cls => [.property property, .cls cls]
  | .subPropertyChainOf chain sup => chain.map .property ++ [.property sup]
  | .equivalentDataProperties properties | .disjointDataProperties properties =>
    properties.map fun property => .component (.dataProperty property)
  | .subDataPropertyOf sub sup => [.component (.dataProperty sub), .component (.dataProperty sup)]
  | .functionalDataProperty property => [.component (.dataProperty property)]
  | .dataPropertyDomain property domain => [.component (.dataProperty property), .cls domain]
  | .dataPropertyRange property range => [.component (.dataProperty property), .dataRange range]
  | .hasKey cls objectProperties dataProperties =>
    .cls cls :: objectProperties.map .property ++ dataProperties.map fun property => .component (.dataProperty property)
  | .rule implication => implication.body.map .formula ++ implication.head.map .formula
  | .annotationAssertion property subject value =>
    [.component (.annotationProperty property), .subject subject, .value value]
  | .subAnnotationPropertyOf sub sup => [.component (.annotationProperty sub), .component (.annotationProperty sup)]
  | .annotationPropertyRange property iri | .annotationPropertyDomain property iri =>
    [.component (.annotationProperty property), .component (.iri iri)]
  | .datatypeDefinition datatype range => [.component (.datatype datatype), .dataRange range]

namespace Piece

/-- The parts of a piece, one level down. -/
def parts : Piece → List Piece
  | .annotated fact => .bare fact.bare :: fact.annotations.map .note
  | .bare statement => statement.parts
  | .note remark =>
    .component (.annotationProperty remark.property) :: .value remark.value :: remark.annotations.map .note
  | .subject (.named iri) => [.component (.iri iri)]
  | .subject (.blank node) => [.component (.anonymous node)]
  | .value (.resource node) => [.subject node]
  | .value (.literal constant) => [.literal constant]
  | .formula atom => atom.parts
  | .individualArgument (.variable iri) => [.name iri]
  | .individualArgument (.individual node) => [.individual node]
  | .dataArgument (.variable iri) => [.name iri]
  | .dataArgument (.literal constant) => [.literal constant]
  | .cls expression => expression.parts
  | .dataRange range => range.parts
  | .property expression => [.component (.objectProperty expression.property)]
  | .individual (.named iri) => [.component (.entity ⟨.namedIndividual, iri⟩)]
  | .individual (.blank node) => [.component (.anonymous node)]
  | .literal constant => [.component (.datatype constant.datatype)]
  | .component _ | .name _ => []

/-- Whether the second piece is the first one or a part of it at any depth. -/
def Contains : Piece → Piece → Prop := ReflTransGen fun whole part => part ∈ whole.parts

/-- The components of a piece as the axioms are filed under them. -/
def components : Piece → List Component
  | .annotated fact => fact.components
  | .bare statement => statement.components
  | .note remark => remark.components
  | .subject node => [.annotated node]
  | .value term => [.annotationValue term]
  | .formula atom => atom.components
  | .individualArgument argument => argument.components
  | .dataArgument argument => argument.components
  | .cls expression => expression.components
  | .dataRange range => range.components
  | .property expression => [.property expression]
  | .individual node => [.individual node]
  | .literal constant => [.literal constant]
  | .component leaf => [leaf]
  | .name _ => []

/-- A measure that goes down from a piece to its parts. -/
noncomputable def weight : Piece → Nat
  | .annotated fact => sizeOf fact + 3
  | .bare statement => sizeOf statement + 2
  | .note remark => sizeOf remark + 3
  | .formula atom => sizeOf atom + 2
  | .cls expression => sizeOf expression + 2
  | .dataRange range => sizeOf range + 2
  | .value _ | .individualArgument _ | .dataArgument _ => 2
  | .subject _ | .property _ | .individual _ | .literal _ => 1
  | .component _ | .name _ => 0

theorem weight_of_mem_map {α : Type} [SizeOf α] {make : α → Piece} {extra : Nat}
    (weighs : ∀ item, (make item).weight = sizeOf item + extra) {items : List α} {part : Piece}
    (listed : part ∈ items.map make) : part.weight < sizeOf items + extra := by
  obtain ⟨item, member, rfl⟩ := List.mem_map.mp listed
  have smaller := List.sizeOf_lt_of_mem member
  rw [weighs]
  omega

theorem weight_lt_range {range : DataRange} {part : Piece} (inside : part ∈ range.parts) :
    part.weight < sizeOf range + 2 := by
  cases range with
  | combination =>
    have smaller := weight_of_mem_map (fun _ => rfl) inside
    simp only [DataRange.combination.sizeOf_spec]
    omega
  | complement =>
    cases List.mem_singleton.mp inside
    simp [weight]
  | datatype | oneOf | restriction =>
    simp only [DataRange.parts] at inside
    grind [weight]

theorem weight_lt_class {expression : ClassExpression} {part : Piece} (inside : part ∈ expression.parts) :
    part.weight < sizeOf expression + 2 := by
  cases expression with
  | combination =>
    have smaller := weight_of_mem_map (fun _ => rfl) inside
    simp only [ClassExpression.combination.sizeOf_spec]
    omega
  | objectCardinality _ _ _ filler | dataCardinality _ _ _ filler =>
    simp only [ClassExpression.parts] at inside
    cases filler <;> grind [weight]
  | _ =>
    simp only [ClassExpression.parts] at inside
    grind [weight]

theorem weight_lt_atom {atom : Atom} {part : Piece} (inside : part ∈ atom.parts) :
    part.weight < sizeOf atom + 2 := by
  cases atom <;> simp only [Atom.parts] at inside <;> grind [weight]

theorem weight_lt_axiom {statement : Axiom} {part : Piece} (inside : part ∈ statement.parts) :
    part.weight < sizeOf statement + 2 := by
  cases statement with
  | equivalentClasses | disjointClasses =>
    have smaller := weight_of_mem_map (fun _ => rfl) inside
    simp only [Axiom.equivalentClasses.sizeOf_spec, Axiom.disjointClasses.sizeOf_spec]
    omega
  | disjointUnion =>
    rcases List.mem_cons.mp inside with rfl | listed
    · simp [weight]
    · have smaller := weight_of_mem_map (fun _ => rfl) listed
      simp only [Axiom.disjointUnion.sizeOf_spec]
      omega
  | rule implication =>
    obtain ⟨body, head⟩ := implication
    simp only [Axiom.rule.sizeOf_spec, Rule.mk.sizeOf_spec]
    rcases List.mem_append.mp inside with first | last
    · have smaller := weight_of_mem_map (fun _ => rfl) first
      simp only at smaller
      omega
    · have smaller := weight_of_mem_map (fun _ => rfl) last
      simp only at smaller
      omega
  | _ =>
    simp only [Axiom.parts] at inside
    grind [weight]

theorem weight_lt {whole part : Piece} (inside : part ∈ whole.parts) : part.weight < whole.weight := by
  cases whole with
  | annotated fact =>
    obtain ⟨statement, annotations⟩ := fact
    change part.weight < sizeOf (AnnotatedAxiom.mk statement annotations) + 3
    rw [AnnotatedAxiom.mk.sizeOf_spec]
    rcases List.mem_cons.mp inside with rfl | listed
    · simp only [weight]
      omega
    · have smaller := weight_of_mem_map (fun _ => rfl) listed
      simp only at smaller
      omega
  | note remark =>
    obtain ⟨property, value, annotations⟩ := remark
    change part.weight < sizeOf ( Annotation.mk property value annotations) + 3
    rw [ Annotation.mk.sizeOf_spec]
    simp only [parts, List.mem_cons] at inside
    rcases inside with rfl | rfl | listed
    · simp [weight]
    · simp only [weight]
      omega
    · have smaller := weight_of_mem_map (fun _ => rfl) listed
      omega
  | bare => exact weight_lt_axiom inside
  | formula => exact weight_lt_atom inside
  | cls => exact weight_lt_class inside
  | dataRange => exact weight_lt_range inside
  | individualArgument argument | dataArgument argument | value argument | subject argument | individual argument =>
    cases argument <;> cases List.mem_singleton.mp inside <;> simp [weight]
  | property | literal =>
    cases List.mem_singleton.mp inside
    simp [weight]
  | component | name => cases inside

/-- Taken apart once, a piece has the components of its parts. -/
theorem flatMap_parts {whole : Piece} (compound : ∀ leaf, whole ≠ .component leaf) :
    whole.parts.flatMap components = whole.components := by
  cases whole with
  | annotated fact => simp only [parts, List.flatMap_cons, List.flatMap_map, components, AnnotatedAxiom.components]
  | note remark =>
    obtain ⟨property, value, annotations⟩ := remark
    simp [parts, List.flatMap_map, components, Annotation.components, Annotation.componentsEach_eq]
  | bare statement =>
    cases statement <;>
      simp [parts, Axiom.parts, List.flatMap_map, ← List.map_eq_flatMap, components, Axiom.components, List.flatMap_append]
  | formula atom =>
    cases atom <;>
      simp [parts, Atom.parts, List.flatMap_map, components, Atom.components]
  | cls expression =>
    cases expression with
    | objectCardinality _ _ _ filler | dataCardinality _ _ _ filler =>
      cases filler <;> simp [parts, ClassExpression.parts, components, ClassExpression.components]
    | _ =>
      simp [parts, ClassExpression.parts, List.flatMap_map, ← List.map_eq_flatMap, components,
        ClassExpression.components, ClassExpression.componentsEach_eq]
  | dataRange range =>
    cases range <;>
      simp [parts, DataRange.parts, List.flatMap_map, ← List.map_eq_flatMap, components, DataRange.components,
        DataRange.componentsEach_eq, List.flatMap_assoc]
  | individualArgument argument | dataArgument argument | value argument | subject argument | individual argument =>
    cases argument <;> rfl
  | property | literal | name => rfl
  | component leaf => exact absurd rfl (compound leaf)

/-- A component of a piece is the piece itself or a component of one of its parts. -/
theorem mem_components {whole : Piece} {component : Component} :
    component ∈ whole.components ↔ whole = .component component ∨ ∃ part ∈ whole.parts, component ∈ part.components := by
  by_cases bottom : ∃ leaf, whole = .component leaf
  · obtain ⟨leaf, rfl⟩ := bottom
    simp [components, parts, eq_comm]
  · rw [← flatMap_parts fun leaf same => bottom ⟨leaf, same⟩, List.mem_flatMap]
    exact (or_iff_right fun same => bottom ⟨component, same⟩).symm

theorem contains_component {whole : Piece} {component : Component} :
    whole.Contains (.component component) ↔ component ∈ whole.components := by
  constructor
  · intro chain
    induction chain using ReflTransGen.head_induction_on with
    | refl => exact List.mem_singleton_self component
    | head inside _ ih => exact mem_components.mpr (Or.inr ⟨_, inside, ih⟩)
  · intro member
    induction size : whole.weight using Nat.strongRecOn generalizing whole with
    | ind size ih =>
      rcases mem_components.mp member with rfl | ⟨part, inside, below⟩
      · exact .refl
      · exact .head inside (ih part.weight (size ▸ weight_lt inside) below rfl)

end Piece

namespace AnnotatedAxiom

/-- Whether the component occurs in the axiom or in its annotations, at any depth. -/
def Has (fact : AnnotatedAxiom) (component : Component) : Prop :=
  (Piece.annotated fact).Contains (.component component)

theorem has_iff {fact : AnnotatedAxiom} {component : Component} : fact.Has component ↔ component ∈ fact.components :=
  Piece.contains_component

instance (fact : AnnotatedAxiom) (component : Component) : Decidable (fact.Has component) :=
  decidable_of_iff _ has_iff.symm

/-- Whether the IRI occurs as that of an entity, or as the subject or value of an annotation or
the domain or range of an annotation property. -/
def Mentions (fact : AnnotatedAxiom) (iri : Iri) : Prop := ∃ component, fact.Has component ∧ component.iri? = some iri

theorem mentions_iff {fact : AnnotatedAxiom} {iri : Iri} :
    fact.Mentions iri ↔ ∃ component ∈ fact.components, component.iri? = some iri := by
  simp only [Mentions, has_iff]

instance (fact : AnnotatedAxiom) (iri : Iri) : Decidable (fact.Mentions iri) := decidable_of_iff _ mentions_iff.symm

/-- Whether the IRI occurs at all, be it as a name that is no component. -/
def Shows (fact : AnnotatedAxiom) (iri : Iri) : Prop :=
  fact.Mentions iri ∨ (Piece.annotated fact).Contains (.name iri)

end AnnotatedAxiom

end OwlGraph
