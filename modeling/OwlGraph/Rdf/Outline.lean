import OwlGraph.Canonical
import OwlGraph.Rdf.Term

/-! The outline of a graph: its text without the labels of some of its blank nodes. Such a node is
shown by its predicates and objects in brackets, so the outline does not change when these nodes
are renamed. -/

namespace OwlGraph.Outline

/-- The text of a term, with at most so many brackets inside each other. -/
def termText (hidden : List BlankNode) (triples : List Triple) : Nat → Term → String
  | 0, term => term.text
  | depth + 1, term =>
    match term.blank?.filter hidden.contains with
    | none => term.text
    | some node =>
      let parts := (triples.filter fun triple => triple.subject == .blank node).map fun triple =>
        triple.predicate.text ++ " " ++ termText hidden triples depth triple.object
      "[" ++ " ; ".intercalate (parts.mergeSort Canonical.textLe) ++ "]"

/-- A line for every triple of a shown subject and one for every hidden subject that is the object
of no triple. -/
def lines (hidden : List BlankNode) (triples : List Triple) : List String :=
  let text := termText hidden triples (triples.length + 1)
  let isHidden (node : Node) := (node.blank?.filter hidden.contains).isSome
  let shown := (triples.filter fun triple => !isHidden triple.subject).map fun triple =>
    spaced [triple.subject.text, triple.predicate.text, text triple.object]
  let roots := ((triples.map Triple.subject).eraseDups.filter isHidden).filter fun node =>
    triples.all fun triple => triple.object != .resource node
  (shown ++ roots.map fun node => text (.resource node)).mergeSort Canonical.textLe

end OwlGraph.Outline
