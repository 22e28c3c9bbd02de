import OwlGraph.Translation.Session

/-! Lists in a graph: a chain of nodes, each with one first element and one rest, that ends in
the empty list. A chain that loops, forks, breaks off or exceeds the allowed length is no list. -/

namespace OwlGraph.Translation

/-- The one value of the predicate on a node of a list, whose triple it uses. -/
def listStep (head : Term) (node : Node) (predicate : Iri) : Translation Term := do
  match (← get).store.matching node predicate with
  | [row] =>
    consume row.id
    return row.triple.object
  | [] => fail (.malformedList head (.gap node predicate))
  | rows => fail (.malformedList head (.fork node predicate (rows.map Row.triple)))

/-- Whether the triple only says that its subject is a list. -/
def isListType (triple : Triple) : Bool :=
  triple.predicate == Rdf.type && (triple.object == Rdf.List || triple.object == Swrl.AtomList)

/-- Reads on from a node of a list, with room for so many more elements. -/
def readListFrom (head : Term) : Nat → Std.HashSet Node → Array Term → Term → Translation (List Term)
  | room, visited, elements, current => do
    if current = .resource (.named Rdf.nil) then return elements.toList
    let some node := current.node? | fail (.malformedList head (.notANode current))
    if visited.contains node then fail (.malformedList head (.loop node))
    match room with
    | 0 => fail (.malformedList head (.tooLong (← read).config.maxListLength))
    | room + 1 =>
      let first ← listStep head node Rdf.first
      let rest ← listStep head node Rdf.rest
      let session ← get
      consumeAll ((session.store.withSubject node).filter fun row => isListType row.triple)
      readListFrom head room (visited.insert node) (elements.push first) rest

/-- The elements of the list that starts at the term. -/
def readList (head : Term) : Translation (List Term) := do
  readListFrom head (← read).config.maxListLength ∅ #[] head

/-- The elements of a list of operands, which should not be empty. -/
def operands (head : Term) : Translation (List Term) := do
  let elements ← readList head
  if elements.isEmpty then recover (.emptyOperands head)
  return elements

end OwlGraph.Translation
