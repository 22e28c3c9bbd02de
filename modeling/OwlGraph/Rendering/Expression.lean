import OwlGraph.Expression.Mapping
import OwlGraph.Rendering.Draft

/-! Writing expressions. A named property, class or datatype is its own node; every other
expression gets a fresh node that carries the triples of its pattern. -/

namespace OwlGraph.Rendering

def property : PropertyExpression → Rendering Node
  | .named iri => return iri
  | .inverse iri => do
    let node ← fresh
    write node Owl.inverseOf iri
    return node

/-- A restriction on the property. -/
def restriction (property : Node) (values : List (Iri × Term)) : Rendering Node := do
  let node ← instanceOf Owl.Restriction
  write node Owl.onProperty property
  values.forM fun (predicate, value) => write node predicate value
  return node

/-- The bound of a cardinality restriction and what it counts, if that is said. -/
def cardinalityValues (bound : Bound) (cardinality : UInt32) (filler : Option (Iri × Node)) :
    List (Iri × Term) :=
  let count : Term := Literal.ofDatatype (cardinalityText cardinality) Xsd.nonNegativeInteger
  match filler with
  | none => [(bound.predicate, count)]
  | some (predicate, node) => [(bound.qualifiedPredicate, count), (predicate, node)]

def facet (restriction : FacetRestriction) : Rendering Term := do
  let node ← fresh
  write node restriction.facet restriction.value
  return node

mutual

def dataRange : DataRange → Rendering Node
  | .datatype iri => return iri
  | .combination junction operands => do
    holder Rdfs.Datatype junction.predicate (← dataRanges operands)
  | .complement operand => do
    let operand ← dataRange operand
    let node ← instanceOf Rdfs.Datatype
    write node Owl.datatypeComplementOf operand
    return node
  | .oneOf values => holder Rdfs.Datatype Owl.oneOf (values.map .literal)
  | .restriction base facets => do
    let head ← list (← facets.mapM facet)
    let node ← instanceOf Rdfs.Datatype
    write node Owl.onDatatype base
    write node Owl.withRestrictions head
    return node

def dataRanges : List DataRange → Rendering (List Term)
  | [] => return []
  | range :: ranges => do
    let node ← dataRange range
    return node :: (← dataRanges ranges)

end

mutual

def classExpression : ClassExpression → Rendering Node
  | .named iri => return iri
  | .combination junction operands => do
    holder Owl.Class junction.predicate (← classExpressions operands)
  | .complement operand => do
    let operand ← classExpression operand
    let node ← instanceOf Owl.Class
    write node Owl.complementOf operand
    return node
  | .oneOf individuals => holder Owl.Class Owl.oneOf (individuals.map .resource)
  | .objectValues quantifier p filler => do
    let p ← property p
    let filler ← classExpression filler
    restriction p [(quantifier.predicate, filler)]
  | .objectHasValue p individual => do
    restriction (← property p) [(Owl.hasValue, individual)]
  | .hasSelf p => do
    restriction (← property p) [(Owl.hasSelf, Literal.ofDatatype "true" Xsd.boolean)]
  | .objectCardinality bound cardinality p none => do
    restriction (← property p) (cardinalityValues bound cardinality none)
  | .objectCardinality bound cardinality p (some filler) => do
    let p ← property p
    let filler ← classExpression filler
    restriction p (cardinalityValues bound cardinality (some (Owl.onClass, filler)))
  | .dataValues quantifier p filler => do
    restriction p [(quantifier.predicate, ← dataRange filler)]
  | .dataHasValue p value => restriction p [(Owl.hasValue, value)]
  | .dataCardinality bound cardinality p none =>
    restriction p (cardinalityValues bound cardinality none)
  | .dataCardinality bound cardinality p (some filler) => do
    let filler ← dataRange filler
    restriction p (cardinalityValues bound cardinality (some (Owl.onDataRange, filler)))

def classExpressions : List ClassExpression → Rendering (List Term)
  | [] => return []
  | expression :: expressions => do
    let node ← classExpression expression
    return node :: (← classExpressions expressions)

end

end OwlGraph.Rendering
