import OwlGraph.Expression.ClassExpression

/-! The predicates by which the parts of an expression hang from its node. Reading and writing
go by the same ones. -/

namespace OwlGraph

def Junction.predicate : Junction → Iri
  | .intersection => Owl.intersectionOf
  | .union => Owl.unionOf

def Quantifier.predicate : Quantifier → Iri
  | .some => Owl.someValuesFrom
  | .all => Owl.allValuesFrom

/-- The predicate of a cardinality without a filler. -/
def Bound.predicate : Bound → Iri
  | .min => Owl.minCardinality
  | .max => Owl.maxCardinality
  | .exact => Owl.cardinality

/-- The predicate of a cardinality with a filler. -/
def Bound.qualifiedPredicate : Bound → Iri
  | .min => Owl.minQualifiedCardinality
  | .max => Owl.maxQualifiedCardinality
  | .exact => Owl.qualifiedCardinality

end OwlGraph
