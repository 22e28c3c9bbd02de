import OwlGraph.Vocabulary

/-! The graph under construction while an ontology is written. A construct without a name of its
own gets a fresh node; the supply of fresh nodes is given from outside, so that nothing here
depends on their labels. -/

namespace OwlGraph

structure Draft where
  /-- How many fresh nodes there are. -/
  made : Nat := 0
  triples : Array Triple := #[]

abbrev Rendering := ReaderT (Nat → BlankNode) (StateM Draft)

namespace Rendering

def write (subject : Node) (predicate : Iri) (object : Term) : Rendering Unit :=
  modify fun draft => { draft with triples := draft.triples.push ⟨subject, predicate, object⟩ }

/-- A node that was not used before. -/
def fresh : Rendering Node := do
  let supply ← read
  modifyGet fun draft => (.blank (supply draft.made), { draft with made := draft.made + 1 })

/-- A fresh node of the type. -/
def instanceOf (type : Iri) : Rendering Node := do
  let node ← fresh
  write node Rdf.type type
  return node

/-- Writes the elements as a list and gives its head. -/
def list : List Term → Rendering Term
  | [] => return Rdf.nil
  | element :: elements => do
    let rest ← list elements
    let cell ← fresh
    write cell Rdf.first element
    write cell Rdf.rest rest
    return cell

/-- A fresh node of the type with the elements as its list. -/
def holder (type predicate : Iri) (elements : List Term) : Rendering Node := do
  let head ← list elements
  let node ← instanceOf type
  write node predicate head
  return node

end Rendering

end OwlGraph
