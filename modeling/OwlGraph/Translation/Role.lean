import OwlGraph.Axiom.Mapping
import OwlGraph.Translation.Session

/-! The role of a triple and of a node in the graph. A blank node is either part of a construct
or an anonymous individual; a triple is either a candidate, which stands for an axiom, or part
of a construct, or noise. -/

namespace OwlGraph

namespace Role

/-- The predicates of class axioms, whose subject may be an anonymous class expression. -/
def classAxiomPredicates : List Iri :=
  [Rdfs.subClassOf, Owl.equivalentClass, Owl.disjointWith, Owl.hasKey]

/-- The predicates of the other axioms that one triple stands for. -/
def propertyAxiomPredicates : List Iri :=
  [Owl.disjointUnionOf, Rdfs.subPropertyOf, Owl.propertyChainAxiom, Owl.equivalentProperty,
    Owl.propertyDisjointWith, Rdfs.domain, Rdfs.range, Owl.sameAs, Owl.differentFrom, Owl.inverseOf]

/-- The predicates of class constructors that on a named class state what it is equivalent to. -/
def definitionPredicates : List Iri := [Owl.intersectionOf, Owl.unionOf, Owl.complementOf, Owl.oneOf]

/-- The predicates that describe the inside of a construct and nothing else. -/
def structuralPredicates : List Iri :=
  [Rdf.first, Rdf.rest, Owl.onProperty, Owl.someValuesFrom, Owl.allValuesFrom, Owl.hasValue, Owl.hasSelf,
    Owl.minCardinality, Owl.maxCardinality, Owl.cardinality, Owl.minQualifiedCardinality,
    Owl.maxQualifiedCardinality, Owl.qualifiedCardinality, Owl.onClass, Owl.onDataRange, Owl.onDatatype,
    Owl.withRestrictions, Owl.intersectionOf, Owl.unionOf, Owl.complementOf, Owl.oneOf,
    Owl.datatypeComplementOf, Owl.inverseOf, Owl.members, Owl.distinctMembers, Owl.annotatedSource,
    Owl.annotatedProperty, Owl.annotatedTarget, Owl.sourceIndividual, Owl.assertionProperty,
    Owl.targetIndividual, Owl.targetValue, Swrl.body, Swrl.head, Swrl.classPredicate, Swrl.propertyPredicate,
    Swrl.dataRange, Swrl.argument1, Swrl.argument2, Swrl.builtin]

/-- The types of nodes that stand for a whole axiom. -/
def axiomTypes : List Iri :=
  [Owl.AllDisjointClasses, Owl.AllDisjointProperties, Owl.AllDifferent, Owl.NegativePropertyAssertion,
    Swrl.Imp]

/-- The types of nodes that stand for an axiom, an annotation or a part of a rule. -/
def specialTypes : List Iri :=
  [Owl.Axiom, Owl.Annotation] ++ axiomTypes ++
    [Swrl.AtomList, Swrl.ClassAtom, Swrl.DataRangeAtom, Swrl.IndividualPropertyAtom,
      Swrl.DatavaluedPropertyAtom, Swrl.SameIndividualAtom, Swrl.DifferentIndividualsAtom, Swrl.BuiltinAtom]

/-- The types of anonymous class expressions, data ranges and lists. -/
def constructTypes : List Iri := [Owl.Restriction, Owl.Class, Rdfs.Datatype, Owl.DataRange, Rdf.List]

end Role

/-- What a term looks like before it is read. -/
inductive Shape where
  | cls
  | dataRange
deriving DecidableEq

namespace Session

/-- Whether the node stands for the ontology, an axiom, an annotation or a part of a rule. -/
def isSpecial (session : Session) (node : Node) : Bool :=
  session.header == some node || (session.store.types node).any Role.specialTypes.contains

/-- Whether the triple makes its subject part of a construct. -/
def describesConstruct (triple : Triple) : Bool :=
  if triple.predicate = Rdf.type then
    triple.object.iri?.any fun type => Role.constructTypes.contains type || Role.specialTypes.contains type
  else Role.structuralPredicates.contains triple.predicate

/-- Whether the node is part of a construct. A named node never is. -/
def isStructural (session : Session) : Node → Bool
  | .named _ => false
  | .blank node => (session.store.withSubject node).any fun row => describesConstruct row.triple

/-- Whether a type triple stands for an axiom. -/
def isTypeCandidate (session : Session) (subject : Node) : Term → Bool
  | .literal _ => false
  | .resource (.blank _) => !session.isSpecial subject && !session.isStructural subject
  | .resource (.named type) =>
    Role.axiomTypes.contains type ||
      !session.isSpecial subject && !session.isStructural subject &&
        ((Characteristic.ofType? type).isSome || type == Owl.FunctionalProperty || type.isBuiltinClass ||
          !type.isReserved)

/-- Whether the triple stands for an axiom. -/
def isCandidate (session : Session) (triple : Triple) : Bool :=
  let subject := triple.subject
  let predicate := triple.predicate
  if predicate = Rdf.type then session.isTypeCandidate subject triple.object
  else if session.isSpecial subject then false
  else if predicate = Owl.inverseOf ∨ Role.definitionPredicates.contains predicate then subject.iri?.isSome
  else if Role.classAxiomPredicates.contains predicate then true
  else if Role.propertyAxiomPredicates.contains predicate then true
  else if Role.structuralPredicates.contains predicate ∨ session.isStructural subject then false
  else !predicate.isReserved || predicate.isBuiltinAnnotationProperty

/-- Whether the triple says nothing that the translation does not know anyway. -/
def isNoise (session : Session) (triple : Triple) : Bool :=
  if triple.predicate = Rdf.type then
    match triple.object.iri? with
    | some type =>
      if type = Rdf.List then true
      else if type = Rdfs.Class ∨ type = Rdf.Property then
        triple.subject.iri?.any fun subject =>
          EntityKind.all.any fun kind => session.kinds.contains ⟨kind, subject⟩
      else false
    | none => false
  else false

/-- The first element of a list, as far as one can see. -/
def firstElement? (session : Session) (list : Term) : Option Term :=
  list.node?.bind fun node => (session.store.objects node Rdf.first).head?

/-- The shape that a type of a blank node gives it. -/
def typeShape? (type : Iri) : Option Shape :=
  if type = Owl.Restriction ∨ type = Owl.Class then some .cls
  else if type = Rdfs.Datatype ∨ type = Owl.DataRange then some .dataRange
  else none

/-- What the first telling triple among these says about the shape of their subject; `inner`
tells the shape of an operand. -/
def tripleShape? (session : Session) (inner : Term → Option Shape) : List Row → Option Shape
  | [] => none
  | row :: rows =>
    let predicate := row.triple.predicate
    if predicate = Owl.onProperty ∨ predicate = Owl.complementOf then some .cls
    else if [Owl.datatypeComplementOf, Owl.onDatatype, Owl.withRestrictions].contains predicate then
      some .dataRange
    else if predicate = Owl.intersectionOf ∨ predicate = Owl.unionOf then
      (session.firstElement? row.triple.object).bind inner
    else if predicate = Owl.oneOf then
      (session.firstElement? row.triple.object).map fun
        | .literal _ => .dataRange
        | .resource _ => .cls
    else session.tripleShape? inner rows

/-- Whether the term looks like a class expression or like a data range, seen no deeper than the
given number of blank nodes. -/
def shapeWithin (session : Session) : Nat → Term → Option Shape
  | _, .literal _ => none
  | _, .resource (.named iri) =>
    if session.hasKind iri .cls then some .cls
    else if session.hasKind iri .datatype then some .dataRange
    else none
  | 0, .resource (.blank _) => none
  | depth + 1, .resource (.blank node) =>
    ((session.store.types node).findSome? typeShape?) <|>
      session.tripleShape? (session.shapeWithin depth) (session.store.withSubject node)

def shape? (session : Session) (term : Term) : Option Shape := session.shapeWithin 16 term

end Session

end OwlGraph
