import OwlGraph.Axiom.Basic
import OwlGraph.Axiom.Mapping
import OwlGraph.Rendering.Annotation
import OwlGraph.Rendering.Rule

/-! Writing axioms. Most axioms are one triple. Those without a triple of their own for any number
of operands are written as one triple for every two neighbours, or as a node that gathers the
operands. -/

namespace OwlGraph.Rendering

/-- What an axiom is written as, which decides where its annotations go. -/
inductive Form where
  /-- Every triple stands for the axiom; a node that points at it carries the annotations. -/
  | triples (triples : List Triple)
  /-- The node stands for the axiom and carries the annotations itself. -/
  | node (node : Node)

def Form.triple (subject : Node) (predicate : Iri) (object : Term) : Form :=
  .triples [⟨subject, predicate, object⟩]

/-- A triple for every two neighbours. -/
def neighbours (predicate : Iri) (operands : List Node) : Form :=
  .triples ((operands.zip operands.tail).map fun (first, second) => ⟨first, predicate, second⟩)

/-- Up to two operands make a triple, more are gathered by a node of the type. -/
def gathered (type predicate : Iri) (operands : List Node) : Rendering Form := do
  if operands.length ≤ 2 then return neighbours predicate operands
  return .node (← holder type Owl.members (operands.map .resource))

/-- A node that stands for the denial of an assertion. -/
def denial (subject : Individual) (property : Node) (predicate : Iri) (value : Term) : Rendering Node := do
  let node ← instanceOf Owl.NegativePropertyAssertion
  write node Owl.sourceIndividual subject
  write node Owl.assertionProperty property
  write node predicate value
  return node

def statement : Axiom → Rendering Form
  | .declaration entity => return .triple entity.iri Rdf.type entity.kind.type
  | .equivalentClasses classes => return neighbours Owl.equivalentClass (← classes.mapM classExpression)
  | .subClassOf sub sup => return .triple (← classExpression sub) Rdfs.subClassOf (← classExpression sup)
  | .disjointClasses classes => do
    gathered Owl.AllDisjointClasses Owl.disjointWith (← classes.mapM classExpression)
  | .disjointUnion cls parts => return .triple cls Owl.disjointUnionOf (← list (← classExpressions parts))
  | .classAssertion cls individual => return .triple individual Rdf.type (← classExpression cls)
  | .sameIndividual individuals => return neighbours Owl.sameAs individuals
  | .differentIndividuals individuals => gathered Owl.AllDifferent Owl.differentFrom individuals
  | .objectPropertyAssertion .positive (.named p) subject object => return .triple subject p object
  | .objectPropertyAssertion .positive (.inverse p) subject object => return .triple object p subject
  | .objectPropertyAssertion .negative p subject object =>
    return .node (← denial subject (← property p) Owl.targetIndividual object)
  | .dataPropertyAssertion .positive p subject value => return .triple subject p value
  | .dataPropertyAssertion .negative p subject value => return .node (← denial subject p Owl.targetValue value)
  | .equivalentObjectProperties properties =>
    return neighbours Owl.equivalentProperty (← properties.mapM property)
  | .subObjectPropertyOf sub sup => return .triple (← property sub) Rdfs.subPropertyOf (← property sup)
  | .inverseObjectProperties first second => return .triple (← property first) Owl.inverseOf (← property second)
  | .characteristic trait p => return .triple (← property p) Rdf.type trait.type
  | .objectPropertyDomain p domain => return .triple (← property p) Rdfs.domain (← classExpression domain)
  | .objectPropertyRange p range => return .triple (← property p) Rdfs.range (← classExpression range)
  | .disjointObjectProperties properties => do
    gathered Owl.AllDisjointProperties Owl.propertyDisjointWith (← properties.mapM property)
  | .subPropertyChainOf chain sup => do
    let chain ← chain.mapM property
    return .triple (← property sup) Owl.propertyChainAxiom (← list (chain.map .resource))
  | .equivalentDataProperties properties => return neighbours Owl.equivalentProperty (properties.map .named)
  | .subDataPropertyOf sub sup | .subAnnotationPropertyOf sub sup => return .triple sub Rdfs.subPropertyOf sup
  | .functionalDataProperty p => return .triple p Rdf.type Owl.FunctionalProperty
  | .dataPropertyDomain p domain => return .triple p Rdfs.domain (← classExpression domain)
  | .dataPropertyRange p range => return .triple p Rdfs.range (← dataRange range)
  | .disjointDataProperties properties =>
    gathered Owl.AllDisjointProperties Owl.propertyDisjointWith (properties.map .named)
  | .hasKey cls objectProperties dataProperties => do
    let objectProperties ← objectProperties.mapM property
    let keys := objectProperties ++ dataProperties.map .named
    return .triple (← classExpression cls) Owl.hasKey (← list (keys.map .resource))
  | .rule implication => return .node (← rule implication)
  | .annotationAssertion p subject value => return .triple subject p value
  | .annotationPropertyRange p range => return .triple p Rdfs.range range
  | .annotationPropertyDomain p domain => return .triple p Rdfs.domain domain
  | .datatypeDefinition datatype range => return .triple datatype Owl.equivalentClass (← dataRange range)

/-- Writes a triple that stands for an axiom with the annotations. -/
def annotatedTriple (notes : List Annotation) (triple : Triple) : Rendering Unit := do
  write triple.subject triple.predicate triple.object
  if notes.isEmpty then return
  annotateEach (← pointer Owl.Axiom triple) notes

def fact (fact : AnnotatedAxiom) : Rendering Unit := do
  match ← statement fact.bare with
  | .node node => annotateEach node fact.annotations
  | .triples triples => triples.forM (annotatedTriple fact.annotations)

end OwlGraph.Rendering
