import OwlGraph.Annotation
import OwlGraph.Axiom.Kind
import OwlGraph.Rule

/-! Axioms, alone and with their annotations: functional-style text, normal form, renaming of
anonymous individuals. Two axioms that differ only in the order and repetition of set-valued
operands have one normal form, and an annotated axiom is always built in normal form. -/

namespace OwlGraph

/-- An axiom without its annotations. -/
inductive Axiom where
  | declaration (entity : Entity)
  | equivalentClasses (classes : List ClassExpression)
  | subClassOf (sub sup : ClassExpression)
  | disjointClasses (classes : List ClassExpression)
  | disjointUnion (cls : Iri) (parts : List ClassExpression)
  | classAssertion (cls : ClassExpression) (individual : Individual)
  | sameIndividual (individuals : List Individual)
  | differentIndividuals (individuals : List Individual)
  | objectPropertyAssertion (polarity : Polarity) (property : PropertyExpression)
      (subject object : Individual)
  | dataPropertyAssertion (polarity : Polarity) (property : Iri) (subject : Individual) (value : Literal)
  | equivalentObjectProperties (properties : List PropertyExpression)
  | subObjectPropertyOf (sub sup : PropertyExpression)
  | inverseObjectProperties (first second : PropertyExpression)
  | characteristic (trait : Characteristic) (property : PropertyExpression)
  | objectPropertyDomain (property : PropertyExpression) (domain : ClassExpression)
  | objectPropertyRange (property : PropertyExpression) (range : ClassExpression)
  | disjointObjectProperties (properties : List PropertyExpression)
  | subPropertyChainOf (chain : List PropertyExpression) (sup : PropertyExpression)
  | equivalentDataProperties (properties : List Iri)
  | subDataPropertyOf (sub sup : Iri)
  | functionalDataProperty (property : Iri)
  | dataPropertyDomain (property : Iri) (domain : ClassExpression)
  | dataPropertyRange (property : Iri) (range : DataRange)
  | disjointDataProperties (properties : List Iri)
  | hasKey (cls : ClassExpression) (objectProperties : List PropertyExpression) (dataProperties : List Iri)
  | rule (implication : Rule)
  | annotationAssertion (property : Iri) (subject : Node) (value : Term)
  | subAnnotationPropertyOf (sub sup : Iri)
  | annotationPropertyRange (property range : Iri)
  | annotationPropertyDomain (property domain : Iri)
  | datatypeDefinition (datatype : Iri) (range : DataRange)
deriving DecidableEq, Hashable

namespace Axiom

def kind : Axiom → AxiomKind
  | .declaration .. => .declaration
  | .equivalentClasses .. => .equivalentClasses
  | .subClassOf .. => .subClassOf
  | .disjointClasses .. => .disjointClasses
  | .disjointUnion .. => .disjointUnion
  | .classAssertion .. => .classAssertion
  | .sameIndividual .. => .sameIndividual
  | .differentIndividuals .. => .differentIndividuals
  | .objectPropertyAssertion polarity .. => .objectPropertyAssertion polarity
  | .dataPropertyAssertion polarity .. => .dataPropertyAssertion polarity
  | .equivalentObjectProperties .. => .equivalentObjectProperties
  | .subObjectPropertyOf .. => .subObjectPropertyOf
  | .inverseObjectProperties .. => .inverseObjectProperties
  | .characteristic trait _ => .characteristic trait
  | .objectPropertyDomain .. => .objectPropertyDomain
  | .objectPropertyRange .. => .objectPropertyRange
  | .disjointObjectProperties .. => .disjointObjectProperties
  | .subPropertyChainOf .. => .subPropertyChainOf
  | .equivalentDataProperties .. => .equivalentDataProperties
  | .subDataPropertyOf .. => .subDataPropertyOf
  | .functionalDataProperty .. => .functionalDataProperty
  | .dataPropertyDomain .. => .dataPropertyDomain
  | .dataPropertyRange .. => .dataPropertyRange
  | .disjointDataProperties .. => .disjointDataProperties
  | .hasKey .. => .hasKey
  | .rule .. => .rule
  | .annotationAssertion .. => .annotationAssertion
  | .subAnnotationPropertyOf .. => .subAnnotationPropertyOf
  | .annotationPropertyRange .. => .annotationPropertyRange
  | .annotationPropertyDomain .. => .annotationPropertyDomain
  | .datatypeDefinition .. => .datatypeDefinition

def isLogical (statement : Axiom) : Bool := statement.kind.isLogical

/-- The operands as they stand between the parentheses. -/
def operandText : Axiom → String
  | .declaration entity => entity.text
  | .equivalentClasses classes | .disjointClasses classes => spaced (classes.map ClassExpression.text)
  | .subClassOf sub sup => spaced [sub.text, sup.text]
  | .disjointUnion cls parts => spaced [cls.text, spaced (parts.map ClassExpression.text)]
  | .classAssertion cls individual => spaced [cls.text, individual.text]
  | .sameIndividual individuals | .differentIndividuals individuals => spaced (individuals.map Node.text)
  | .objectPropertyAssertion _ property subject object => spaced [property.text, subject.text, object.text]
  | .dataPropertyAssertion _ property subject value => spaced [property.text, subject.text, value.text]
  | .equivalentObjectProperties properties | .disjointObjectProperties properties =>
    spaced (properties.map PropertyExpression.text)
  | .subObjectPropertyOf sub sup => spaced [sub.text, sup.text]
  | .inverseObjectProperties first second => spaced [first.text, second.text]
  | .characteristic _ property => property.text
  | .objectPropertyDomain property cls | .objectPropertyRange property cls =>
    spaced [property.text, cls.text]
  | .subPropertyChainOf chain sup =>
    spaced [applied "ObjectPropertyChain" (chain.map PropertyExpression.text), sup.text]
  | .equivalentDataProperties properties | .disjointDataProperties properties =>
    spaced (properties.map Iri.text)
  | .subDataPropertyOf sub sup | .subAnnotationPropertyOf sub sup => spaced [sub.text, sup.text]
  | .functionalDataProperty property => property.text
  | .dataPropertyDomain property domain => spaced [property.text, domain.text]
  | .dataPropertyRange property range => spaced [property.text, range.text]
  | .hasKey cls objectProperties dataProperties =>
    spaced [cls.text, applied "" (objectProperties.map PropertyExpression.text),
      applied "" (dataProperties.map Iri.text)]
  | .rule implication => implication.text
  | .annotationAssertion property subject value => spaced [property.text, subject.text, value.text]
  | .annotationPropertyRange property iri | .annotationPropertyDomain property iri =>
    spaced [property.text, iri.text]
  | .datatypeDefinition datatype range => spaced [datatype.text, range.text]

/-- The functional-style text with these annotations. -/
def textWith (statement : Axiom) (annotations : List Annotation) : String :=
  applied statement.kind.keyword (annotations.map Annotation.text ++ [statement.operandText])

def text (statement : Axiom) : String := statement.textWith []

/-- Puts every set-valued operand in canonical order, at every depth. Chains of properties, the
arguments of built-ins and facets are sequences and keep their order. -/
def normalize : Axiom → Axiom
  | .equivalentClasses classes => .equivalentClasses (ClassExpression.canonical classes)
  | .subClassOf sub sup => .subClassOf sub.normalize sup.normalize
  | .disjointClasses classes => .disjointClasses (ClassExpression.canonical classes)
  | .disjointUnion cls parts => .disjointUnion cls (ClassExpression.canonical parts)
  | .classAssertion cls individual => .classAssertion cls.normalize individual
  | .sameIndividual individuals => .sameIndividual (Canonical.byText Node.text individuals)
  | .differentIndividuals individuals => .differentIndividuals (Canonical.byText Node.text individuals)
  | .equivalentObjectProperties properties =>
    .equivalentObjectProperties (PropertyExpression.canonical properties)
  | .disjointObjectProperties properties =>
    .disjointObjectProperties (PropertyExpression.canonical properties)
  | .inverseObjectProperties first second =>
    if first.le second then .inverseObjectProperties first second else .inverseObjectProperties second first
  | .objectPropertyDomain property domain => .objectPropertyDomain property domain.normalize
  | .objectPropertyRange property range => .objectPropertyRange property range.normalize
  | .equivalentDataProperties properties => .equivalentDataProperties (Iri.canonical properties)
  | .disjointDataProperties properties => .disjointDataProperties (Iri.canonical properties)
  | .dataPropertyDomain property domain => .dataPropertyDomain property domain.normalize
  | .dataPropertyRange property range => .dataPropertyRange property range.normalize
  | .hasKey cls objectProperties dataProperties =>
    .hasKey cls.normalize (PropertyExpression.canonical objectProperties) (Iri.canonical dataProperties)
  | .rule implication => .rule implication.normalize
  | .datatypeDefinition datatype range => .datatypeDefinition datatype range.normalize
  | statement => statement

/-- Renames the anonymous individuals, leaving every list in its order. -/
def rename (f : BlankNode → BlankNode) : Axiom → Axiom
  | .equivalentClasses classes => .equivalentClasses (classes.map (ClassExpression.rename f))
  | .subClassOf sub sup => .subClassOf (sub.rename f) (sup.rename f)
  | .disjointClasses classes => .disjointClasses (classes.map (ClassExpression.rename f))
  | .disjointUnion cls parts => .disjointUnion cls (parts.map (ClassExpression.rename f))
  | .classAssertion cls individual => .classAssertion (cls.rename f) (individual.rename f)
  | .sameIndividual individuals => .sameIndividual (individuals.map (Node.rename f))
  | .differentIndividuals individuals => .differentIndividuals (individuals.map (Node.rename f))
  | .objectPropertyAssertion polarity property subject object =>
    .objectPropertyAssertion polarity property (subject.rename f) (object.rename f)
  | .dataPropertyAssertion polarity property subject value =>
    .dataPropertyAssertion polarity property (subject.rename f) value
  | .objectPropertyDomain property domain => .objectPropertyDomain property (domain.rename f)
  | .objectPropertyRange property range => .objectPropertyRange property (range.rename f)
  | .dataPropertyDomain property domain => .dataPropertyDomain property (domain.rename f)
  | .hasKey cls objectProperties dataProperties => .hasKey (cls.rename f) objectProperties dataProperties
  | .rule implication => .rule (implication.rename f)
  | .annotationAssertion property subject value =>
    .annotationAssertion property (subject.rename f) (value.rename f)
  | statement => statement

end Axiom

/-- An axiom and its annotations. -/
structure AnnotatedAxiom where
  bare : Axiom
  annotations : List Annotation
deriving DecidableEq, Hashable

namespace AnnotatedAxiom

/-- The axiom and the annotations in normal form. -/
def of (bare : Axiom) (annotations : List Annotation) : AnnotatedAxiom :=
  ⟨bare.normalize, Annotation.canonical annotations⟩

def kind (fact : AnnotatedAxiom) : AxiomKind := fact.bare.kind

def isAnnotated (fact : AnnotatedAxiom) : Bool := !fact.annotations.isEmpty

def text (fact : AnnotatedAxiom) : String := fact.bare.textWith fact.annotations

/-- Renames the anonymous individuals and normalizes again, since the order of the operands
of a set depends on their labels. -/
def rename (f : BlankNode → BlankNode) (fact : AnnotatedAxiom) : AnnotatedAxiom :=
  of (fact.bare.rename f) ( Annotation.renameEach f fact.annotations)

end AnnotatedAxiom

end OwlGraph
