import OwlGraph.Rdf.Term

/-! The vocabularies an OWL 2 graph is written in: RDF, RDF Schema, XML Schema, OWL and
SWRL. A constant bears the name that follows the namespace in its IRI. The predicates at
the end say which IRIs OWL 2 defines itself. -/

namespace OwlGraph

namespace Rdf

def type : Iri := iri "type"
def first : Iri := iri "first"
def rest : Iri := iri "rest"
def nil : Iri := iri "nil"
def List : Iri := iri "List"
def Property : Iri := iri "Property"
def XMLLiteral : Iri := iri "XMLLiteral"
def PlainLiteral : Iri := iri "PlainLiteral"

end Rdf

namespace Rdfs

def namespaceIri : String := "http://www.w3.org/2000/01/rdf-schema#"

/-- The IRI of a name in the RDF Schema namespace. -/
def iri (name : String) : Iri := ⟨namespaceIri ++ name⟩

def Class : Iri := iri "Class"
def Datatype : Iri := iri "Datatype"
def Literal : Iri := iri "Literal"
def comment : Iri := iri "comment"
def domain : Iri := iri "domain"
def isDefinedBy : Iri := iri "isDefinedBy"
def label : Iri := iri "label"
def range : Iri := iri "range"
def seeAlso : Iri := iri "seeAlso"
def subClassOf : Iri := iri "subClassOf"
def subPropertyOf : Iri := iri "subPropertyOf"

end Rdfs

namespace Owl

def namespaceIri : String := "http://www.w3.org/2002/07/owl#"

/-- The IRI of a name in the OWL namespace. -/
def iri (name : String) : Iri := ⟨namespaceIri ++ name⟩

def AllDifferent : Iri := iri "AllDifferent"
def AllDisjointClasses : Iri := iri "AllDisjointClasses"
def AllDisjointProperties : Iri := iri "AllDisjointProperties"
def Annotation : Iri := iri "Annotation"
def AnnotationProperty : Iri := iri "AnnotationProperty"
def AsymmetricProperty : Iri := iri "AsymmetricProperty"
def Axiom : Iri := iri "Axiom"
def Class : Iri := iri "Class"
def DataRange : Iri := iri "DataRange"
def DatatypeProperty : Iri := iri "DatatypeProperty"
def FunctionalProperty : Iri := iri "FunctionalProperty"
def InverseFunctionalProperty : Iri := iri "InverseFunctionalProperty"
def IrreflexiveProperty : Iri := iri "IrreflexiveProperty"
def NamedIndividual : Iri := iri "NamedIndividual"
def NegativePropertyAssertion : Iri := iri "NegativePropertyAssertion"
def Nothing : Iri := iri "Nothing"
def ObjectProperty : Iri := iri "ObjectProperty"
def Ontology : Iri := iri "Ontology"
def ReflexiveProperty : Iri := iri "ReflexiveProperty"
def Restriction : Iri := iri "Restriction"
def SymmetricProperty : Iri := iri "SymmetricProperty"
def Thing : Iri := iri "Thing"
def TransitiveProperty : Iri := iri "TransitiveProperty"

def allValuesFrom : Iri := iri "allValuesFrom"
def annotatedProperty : Iri := iri "annotatedProperty"
def annotatedSource : Iri := iri "annotatedSource"
def annotatedTarget : Iri := iri "annotatedTarget"
def assertionProperty : Iri := iri "assertionProperty"
def backwardCompatibleWith : Iri := iri "backwardCompatibleWith"
def bottomDataProperty : Iri := iri "bottomDataProperty"
def bottomObjectProperty : Iri := iri "bottomObjectProperty"
def cardinality : Iri := iri "cardinality"
def complementOf : Iri := iri "complementOf"
def datatypeComplementOf : Iri := iri "datatypeComplementOf"
def deprecated : Iri := iri "deprecated"
def differentFrom : Iri := iri "differentFrom"
def disjointUnionOf : Iri := iri "disjointUnionOf"
def disjointWith : Iri := iri "disjointWith"
def distinctMembers : Iri := iri "distinctMembers"
def equivalentClass : Iri := iri "equivalentClass"
def equivalentProperty : Iri := iri "equivalentProperty"
def hasKey : Iri := iri "hasKey"
def hasSelf : Iri := iri "hasSelf"
def hasValue : Iri := iri "hasValue"
def imports : Iri := iri "imports"
def incompatibleWith : Iri := iri "incompatibleWith"
def intersectionOf : Iri := iri "intersectionOf"
def inverseOf : Iri := iri "inverseOf"
def maxCardinality : Iri := iri "maxCardinality"
def maxQualifiedCardinality : Iri := iri "maxQualifiedCardinality"
def members : Iri := iri "members"
def minCardinality : Iri := iri "minCardinality"
def minQualifiedCardinality : Iri := iri "minQualifiedCardinality"
def onClass : Iri := iri "onClass"
def onDataRange : Iri := iri "onDataRange"
def onDatatype : Iri := iri "onDatatype"
def onProperty : Iri := iri "onProperty"
def oneOf : Iri := iri "oneOf"
def priorVersion : Iri := iri "priorVersion"
def propertyChainAxiom : Iri := iri "propertyChainAxiom"
def propertyDisjointWith : Iri := iri "propertyDisjointWith"
def qualifiedCardinality : Iri := iri "qualifiedCardinality"
def rational : Iri := iri "rational"
def real : Iri := iri "real"
def sameAs : Iri := iri "sameAs"
def someValuesFrom : Iri := iri "someValuesFrom"
def sourceIndividual : Iri := iri "sourceIndividual"
def targetIndividual : Iri := iri "targetIndividual"
def targetValue : Iri := iri "targetValue"
def topDataProperty : Iri := iri "topDataProperty"
def topObjectProperty : Iri := iri "topObjectProperty"
def unionOf : Iri := iri "unionOf"
def versionIRI : Iri := iri "versionIRI"
def versionInfo : Iri := iri "versionInfo"
def withRestrictions : Iri := iri "withRestrictions"

end Owl

namespace Swrl

def namespaceIri : String := "http://www.w3.org/2003/11/swrl#"

/-- The IRI of a name in the SWRL namespace. -/
def iri (name : String) : Iri := ⟨namespaceIri ++ name⟩

def AtomList : Iri := iri "AtomList"
def BuiltinAtom : Iri := iri "BuiltinAtom"
def ClassAtom : Iri := iri "ClassAtom"
def DataRangeAtom : Iri := iri "DataRangeAtom"
def DatavaluedPropertyAtom : Iri := iri "DatavaluedPropertyAtom"
def DifferentIndividualsAtom : Iri := iri "DifferentIndividualsAtom"
def Imp : Iri := iri "Imp"
def IndividualPropertyAtom : Iri := iri "IndividualPropertyAtom"
def SameIndividualAtom : Iri := iri "SameIndividualAtom"
def Variable : Iri := iri "Variable"
def argument1 : Iri := iri "argument1"
def argument2 : Iri := iri "argument2"
def arguments : Iri := iri "arguments"
def body : Iri := iri "body"
def builtin : Iri := iri "builtin"
def classPredicate : Iri := iri "classPredicate"
def dataRange : Iri := iri "dataRange"
def head : Iri := iri "head"
def propertyPredicate : Iri := iri "propertyPredicate"

end Swrl

namespace Iri

/-- Whether the IRI is made of the namespace and some local name, possibly the empty one. -/
def inNamespace (namespaceIri : String) (iri : Iri) : Bool :=
  namespaceIri.toList.isPrefixOf iri.value.toList

/-- The annotation properties every ontology knows without declaring them. -/
def builtinAnnotationProperties : List Iri :=
  [Rdfs.label, Rdfs.comment, Rdfs.seeAlso, Rdfs.isDefinedBy, Owl.deprecated, Owl.versionInfo,
    Owl.priorVersion, Owl.backwardCompatibleWith, Owl.incompatibleWith]

/-- The datatypes of OWL 2 that lie outside the XML Schema namespace. -/
def builtinDatatypes : List Iri :=
  [Rdfs.Literal, Rdf.langString, Rdf.XMLLiteral, Owl.real, Owl.rational, Rdf.PlainLiteral]

def facets : List Iri :=
  ["length", "minLength", "maxLength", "pattern", "langRange", "minInclusive", "minExclusive",
    "maxInclusive", "maxExclusive", "totalDigits", "fractionDigits"].map Xsd.iri

def isBuiltinAnnotationProperty (iri : Iri) : Bool := builtinAnnotationProperties.contains iri

def isBuiltinDatatype (iri : Iri) : Bool :=
  iri.inNamespace Xsd.namespaceIri || builtinDatatypes.contains iri

def isBuiltinClass (iri : Iri) : Bool := iri == Owl.Thing || iri == Owl.Nothing

def isBuiltinObjectProperty (iri : Iri) : Bool :=
  iri == Owl.topObjectProperty || iri == Owl.bottomObjectProperty

def isBuiltinDataProperty (iri : Iri) : Bool :=
  iri == Owl.topDataProperty || iri == Owl.bottomDataProperty

/-- Whether the IRI lies in a namespace whose names an ontology may not redefine. The SWRL
namespace is not among them. -/
def isReserved (iri : Iri) : Bool :=
  [Rdf.namespaceIri, Rdfs.namespaceIri, Xsd.namespaceIri, Owl.namespaceIri].any iri.inNamespace

/-- Whether the IRI is a facet that a datatype restriction may constrain. -/
def isFacet (iri : Iri) : Bool := facets.contains iri

end Iri

end OwlGraph
