import OwlGraph.Axiom.Basic

/-! What an axiom is made of: the entities it refers to, its anonymous individuals, and the
IRIs that are no entities. The datatype of a literal is an entity, the variable of a rule, the
predicate of a built-in and a facet are nothing of these. -/

namespace OwlGraph

inductive Component where
  | entity (entity : Entity)
  | anonymous (node : BlankNode)
  /-- The subject or value of an annotation, the domain or range of an annotation property. -/
  | iri (iri : Iri)
deriving DecidableEq, Hashable

namespace Component

def cls (iri : Iri) : Component := .entity ⟨.cls, iri⟩

def objectProperty (iri : Iri) : Component := .entity ⟨.objectProperty, iri⟩

def dataProperty (iri : Iri) : Component := .entity ⟨.dataProperty, iri⟩

def annotationProperty (iri : Iri) : Component := .entity ⟨.annotationProperty, iri⟩

def datatype (iri : Iri) : Component := .entity ⟨.datatype, iri⟩

def literal (value : Literal) : Component := datatype value.datatype

def individual : Individual → Component
  | .named name => .entity ⟨.namedIndividual, name⟩
  | .blank node => .anonymous node

def property (expression : PropertyExpression) : Component := objectProperty expression.property

/-- A node that is the subject of an annotation. -/
def annotated : Node → Component
  | .named name => .iri name
  | .blank node => .anonymous node

/-- A term that is the value of an annotation. -/
def annotationValue : Term → Component
  | .resource node => annotated node
  | .literal constant => literal constant

def entity? : Component → Option Entity
  | .entity named => some named
  | _ => none

def anonymous? : Component → Option BlankNode
  | .anonymous node => some node
  | _ => none

/-- The IRI of a component, be it that of an entity or one that is none. -/
def iri? : Component → Option Iri
  | .entity named => some named.iri
  | .iri name => some name
  | .anonymous _ => none

end Component

namespace DataRange

mutual

def components : DataRange → List Component
  | .datatype iri => [.datatype iri]
  | .combination _ operands => componentsEach operands
  | .complement operand => operand.components
  | .oneOf values => values.map .literal
  | .restriction base facets => .datatype base :: facets.map fun restriction => .literal restriction.value

def componentsEach : List DataRange → List Component
  | [] => []
  | range :: rest => range.components ++ componentsEach rest

end

end DataRange

namespace ClassExpression

mutual

def components : ClassExpression → List Component
  | .named iri => [.cls iri]
  | .combination _ operands => componentsEach operands
  | .complement operand => operand.components
  | .oneOf individuals => individuals.map .individual
  | .objectValues _ property filler => .property property :: filler.components
  | .objectHasValue property individual => [.property property, .individual individual]
  | .hasSelf property => [.property property]
  | .objectCardinality _ _ property none => [.property property]
  | .objectCardinality _ _ property (some filler) => .property property :: filler.components
  | .dataValues _ property filler => .dataProperty property :: filler.components
  | .dataHasValue property value => [.dataProperty property, .literal value]
  | .dataCardinality _ _ property none => [.dataProperty property]
  | .dataCardinality _ _ property (some filler) => .dataProperty property :: filler.components

def componentsEach : List ClassExpression → List Component
  | [] => []
  | expression :: rest => expression.components ++ componentsEach rest

end

end ClassExpression

def IndividualArgument.components : IndividualArgument → List Component
  | .variable _ => []
  | .individual node => [.individual node]

def DataArgument.components : DataArgument → List Component
  | .variable _ => []
  | .literal value => [.literal value]

def Atom.components : Atom → List Component
  | .cls expression argument => expression.components ++ argument.components
  | .dataRange range argument => range.components ++ argument.components
  | .objectProperty property subject object => .property property :: (subject.components ++ object.components)
  | .dataProperty property subject object => .dataProperty property :: (subject.components ++ object.components)
  | .sameIndividual first second | .differentIndividuals first second => first.components ++ second.components
  | .builtin _ arguments => arguments.flatMap DataArgument.components

namespace Annotation

mutual

def components : Annotation → List Component
  | ⟨property, value, annotations⟩ =>
    .annotationProperty property :: .annotationValue value :: componentsEach annotations

def componentsEach : List Annotation → List Component
  | [] => []
  | note :: rest => note.components ++ componentsEach rest

end

end Annotation

namespace Axiom

def components : Axiom → List Component
  | .declaration entity => [.entity entity]
  | .equivalentClasses classes | .disjointClasses classes => classes.flatMap ClassExpression.components
  | .subClassOf sub sup => sub.components ++ sup.components
  | .disjointUnion cls parts => .cls cls :: parts.flatMap ClassExpression.components
  | .classAssertion cls individual => cls.components ++ [.individual individual]
  | .sameIndividual individuals | .differentIndividuals individuals => individuals.map .individual
  | .objectPropertyAssertion _ property subject object =>
    [.property property, .individual subject, .individual object]
  | .dataPropertyAssertion _ property subject value =>
    [.dataProperty property, .individual subject, .literal value]
  | .equivalentObjectProperties properties | .disjointObjectProperties properties =>
    properties.map .property
  | .subObjectPropertyOf sub sup => [.property sub, .property sup]
  | .inverseObjectProperties first second => [.property first, .property second]
  | .characteristic _ property => [.property property]
  | .objectPropertyDomain property cls | .objectPropertyRange property cls =>
    .property property :: cls.components
  | .subPropertyChainOf chain sup => chain.map .property ++ [.property sup]
  | .equivalentDataProperties properties | .disjointDataProperties properties =>
    properties.map .dataProperty
  | .subDataPropertyOf sub sup => [.dataProperty sub, .dataProperty sup]
  | .functionalDataProperty property => [.dataProperty property]
  | .dataPropertyDomain property domain => .dataProperty property :: domain.components
  | .dataPropertyRange property range => .dataProperty property :: range.components
  | .hasKey cls objectProperties dataProperties =>
    cls.components ++ objectProperties.map .property ++ dataProperties.map .dataProperty
  | .rule implication => (implication.body ++ implication.head).flatMap Atom.components
  | .annotationAssertion property subject value =>
    [.annotationProperty property, .annotated subject, .annotationValue value]
  | .subAnnotationPropertyOf sub sup => [.annotationProperty sub, .annotationProperty sup]
  | .annotationPropertyRange property iri | .annotationPropertyDomain property iri =>
    [.annotationProperty property, .iri iri]
  | .datatypeDefinition datatype range => .datatype datatype :: range.components

/-- The entities of the axiom, each once, in the order of their kinds and IRIs. -/
def signature (statement : Axiom) : List Entity :=
  Canonical.ordered Entity.le id (statement.components.filterMap Component.entity?)

end Axiom

def AnnotatedAxiom.components (fact : AnnotatedAxiom) : List Component :=
  fact.bare.components ++ fact.annotations.flatMap Annotation.components

end OwlGraph
