import OwlGraph.Translation.Collection
import OwlGraph.Translation.Operand

/-! Reading data ranges. -/

namespace OwlGraph

/-- The forms of an anonymous data range. -/
inductive DataRangeForm where
  | combination (junction : Junction)
  | complement
  | oneOf
  | restriction
deriving DecidableEq

namespace DataRangeForm

def all : List DataRangeForm :=
  [.combination .intersection, .combination .union, .complement, .oneOf, .restriction]

def name : DataRangeForm → String
  | .combination junction => "Data" ++ junction.name
  | .complement => "DataComplementOf"
  | .oneOf => "DataOneOf"
  | .restriction => "DatatypeRestriction"

def predicates : DataRangeForm → List Iri
  | .combination junction => [junction.predicate]
  | .complement => [Owl.datatypeComplementOf]
  | .oneOf => [Owl.oneOf]
  | .restriction => [Owl.onDatatype, Owl.withRestrictions]

def family : Family DataRangeForm where
  name := "data range"
  forms := all
  pattern form := ⟨form.name, Rdfs.Datatype, [form.predicates], none⟩

end DataRangeForm

namespace Translation

/-- An element of the list of a datatype restriction: a node with one facet and its value. -/
def facetRestriction (element : Term) : Translation FacetRestriction := do
  let some node := element.node? | unexpected .facetRestriction element
  let view := (← get).view node
  match view.rows.filter fun row => row.triple.predicate.isFacet with
  | [row] =>
    let value ← literal row.triple.object
    consume row.id
    return ⟨row.triple.predicate, value⟩
  | _ => fail (.facetCount node)

/-- Reads a node in the given form; `inner` reads the data ranges it is made of. -/
def readDataRange (inner : Term → Translation DataRange) (view : NodeView) :
    DataRangeForm → Translation DataRange
  | .combination junction => do
    let elements ← operands (← value view junction.predicate)
    return .combination junction (← elements.mapM inner)
  | .complement => do return .complement (← inner (← value view Owl.datatypeComplementOf))
  | .oneOf => do
    let elements ← operands (← value view Owl.oneOf)
    return .oneOf (← elements.mapM literal)
  | .restriction => do
    let base ← named .datatype (← value view Owl.onDatatype)
    let elements ← readList (← value view Owl.withRestrictions)
    return .restriction base (← elements.mapM facetRestriction)

/-- Reads a data range nested no deeper than the given number of blank nodes. -/
def dataRangeWithin : Nat → Term → Translation DataRange
  | _, .resource (.named iri) => do
    learn iri .datatype
    return .datatype iri
  | _, .literal value => unexpected .dataRange value
  | 0, .resource (.blank node) => fail (.selfContained node)
  | depth + 1, .resource (.blank node) => nested node do
    let view := (← get).view node
    dispatch DataRangeForm.family view (readDataRange (dataRangeWithin depth) view)

/-- How many nodes can lie on a path that never returns: those that are the subject of a triple,
and one more. -/
def depthLimit : Translation Nat := return (← get).store.entries.size + 1

def dataRange (term : Term) : Translation DataRange := do dataRangeWithin (← depthLimit) term

end Translation

end OwlGraph
