/-! The kinds of axioms, in the order in which OWL 2 lists them. -/

namespace OwlGraph

/-- What an object property may be said to be. -/
inductive Characteristic where
  | functional
  | inverseFunctional
  | symmetric
  | asymmetric
  | transitive
  | reflexive
  | irreflexive
deriving DecidableEq, Hashable

namespace Characteristic

def all : List Characteristic :=
  [.functional, .inverseFunctional, .symmetric, .asymmetric, .transitive, .reflexive, .irreflexive]

def name : Characteristic → String
  | .functional => "Functional"
  | .inverseFunctional => "InverseFunctional"
  | .symmetric => "Symmetric"
  | .asymmetric => "Asymmetric"
  | .transitive => "Transitive"
  | .reflexive => "Reflexive"
  | .irreflexive => "Irreflexive"

end Characteristic

/-- Whether an assertion says that a property holds or that it does not. -/
inductive Polarity where
  | positive
  | negative
deriving DecidableEq, Hashable

def Polarity.name : Polarity → String
  | .positive => ""
  | .negative => "Negative"

inductive AxiomKind where
  | declaration
  | equivalentClasses
  | subClassOf
  | disjointClasses
  | disjointUnion
  | classAssertion
  | sameIndividual
  | differentIndividuals
  | objectPropertyAssertion (polarity : Polarity)
  | dataPropertyAssertion (polarity : Polarity)
  | equivalentObjectProperties
  | subObjectPropertyOf
  | inverseObjectProperties
  | characteristic (trait : Characteristic)
  | objectPropertyDomain
  | objectPropertyRange
  | disjointObjectProperties
  | subPropertyChainOf
  | equivalentDataProperties
  | subDataPropertyOf
  | functionalDataProperty
  | dataPropertyDomain
  | dataPropertyRange
  | disjointDataProperties
  | hasKey
  | rule
  | annotationAssertion
  | subAnnotationPropertyOf
  | annotationPropertyRange
  | annotationPropertyDomain
  | datatypeDefinition
deriving DecidableEq, Hashable

namespace AxiomKind

def all : List AxiomKind :=
  [.declaration, .equivalentClasses, .subClassOf, .disjointClasses, .disjointUnion, .classAssertion,
    .sameIndividual, .differentIndividuals, .objectPropertyAssertion .positive,
    .objectPropertyAssertion .negative, .dataPropertyAssertion .positive, .dataPropertyAssertion .negative,
    .equivalentObjectProperties, .subObjectPropertyOf, .inverseObjectProperties] ++
  Characteristic.all.map .characteristic ++
  [.objectPropertyDomain, .objectPropertyRange, .disjointObjectProperties, .subPropertyChainOf,
    .equivalentDataProperties, .subDataPropertyOf, .functionalDataProperty, .dataPropertyDomain,
    .dataPropertyRange, .disjointDataProperties, .hasKey, .rule, .annotationAssertion,
    .subAnnotationPropertyOf, .annotationPropertyRange, .annotationPropertyDomain, .datatypeDefinition]

/-- The name that tells a kind from every other kind. -/
def name : AxiomKind → String
  | .declaration => "Declaration"
  | .equivalentClasses => "EquivalentClasses"
  | .subClassOf => "SubClassOf"
  | .disjointClasses => "DisjointClasses"
  | .disjointUnion => "DisjointUnion"
  | .classAssertion => "ClassAssertion"
  | .sameIndividual => "SameIndividual"
  | .differentIndividuals => "DifferentIndividuals"
  | .objectPropertyAssertion polarity => polarity.name ++ "ObjectPropertyAssertion"
  | .dataPropertyAssertion polarity => polarity.name ++ "DataPropertyAssertion"
  | .equivalentObjectProperties => "EquivalentObjectProperties"
  | .subObjectPropertyOf => "SubObjectPropertyOf"
  | .inverseObjectProperties => "InverseObjectProperties"
  | .characteristic trait => trait.name ++ "ObjectProperty"
  | .objectPropertyDomain => "ObjectPropertyDomain"
  | .objectPropertyRange => "ObjectPropertyRange"
  | .disjointObjectProperties => "DisjointObjectProperties"
  | .subPropertyChainOf => "SubPropertyChainOf"
  | .equivalentDataProperties => "EquivalentDataProperties"
  | .subDataPropertyOf => "SubDataPropertyOf"
  | .functionalDataProperty => "FunctionalDataProperty"
  | .dataPropertyDomain => "DataPropertyDomain"
  | .dataPropertyRange => "DataPropertyRange"
  | .disjointDataProperties => "DisjointDataProperties"
  | .hasKey => "HasKey"
  | .rule => "Rule"
  | .annotationAssertion => "AnnotationAssertion"
  | .subAnnotationPropertyOf => "SubAnnotationPropertyOf"
  | .annotationPropertyRange => "AnnotationPropertyRange"
  | .annotationPropertyDomain => "AnnotationPropertyDomain"
  | .datatypeDefinition => "DatatypeDefinition"

/-- The word that opens an axiom of the kind in functional-style syntax. A chain of properties
shares it with the inclusion of one property in another. -/
def keyword : AxiomKind → String
  | .subPropertyChainOf => name .subObjectPropertyOf
  | .rule => "DLSafeRule"
  | kind => kind.name

def ofName? (name : String) : Option AxiomKind := all.find? fun kind => kind.name == name

/-- Declarations and the axioms about annotations carry no logical meaning. -/
def isLogical : AxiomKind → Bool
  | .declaration | .annotationAssertion | .subAnnotationPropertyOf | .annotationPropertyRange
  | .annotationPropertyDomain => false
  | _ => true

end AxiomKind

end OwlGraph
