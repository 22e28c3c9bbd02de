import Mathlib.Logic.Relation
import OwlGraph.Proofs.WorkingSet
import OwlGraph.Translation.Load

/-! What a failed axiom takes along. The constructs at the ends of its triple are given up with it,
and theirs with them; the collection of their nodes has steps enough to come to an end, so it takes
exactly what hangs from the triple. -/

namespace OwlGraph

namespace Session

variable {session : Session} {row other : Row} {node : Node}

/-- The constructs that the triples of a construct lead to. -/
def constructParts (session : Session) (node : Node) : List Node :=
  (session.constructRows node).filterMap fun row => session.structuralObject? row.triple

/-- The one construct is made of the other. -/
def HasPart (session : Session) (node part : Node) : Prop := part ∈ session.constructParts node

section Collecting

/-- The parts of the nodes that were seen are seen themselves or waiting. -/
def Covers (session : Session) (seen waiting : List Node) : Prop :=
  ∀ node ∈ seen, ∀ part, session.HasPart node part → part ∈ seen ∨ part ∈ waiting

theorem Covers.skip {first : Node} {waiting seen : List Node} (covers : session.Covers seen (first :: waiting))
    (known : first ∈ seen) : session.Covers seen waiting := by
  intro node member part of
  rcases covers node member part of with inside | ahead
  · exact .inl inside
  · rcases List.mem_cons.mp ahead with rfl | ahead
    · exact .inl known
    · exact .inr ahead

theorem Covers.enter {first : Node} {waiting seen : List Node} (covers : session.Covers seen (first :: waiting)) :
    session.Covers (first :: seen) ((session.constructParts first).reverse ++ waiting) := by
  intro node member part of
  rcases List.mem_cons.mp member with rfl | member
  · exact .inr (List.mem_append_left _ (List.mem_reverse.mpr of))
  · rcases covers node member part of with inside | ahead
    · exact .inl (List.mem_cons_of_mem _ inside)
    · rcases List.mem_cons.mp ahead with rfl | ahead
      · exact .inl List.mem_cons_self
      · exact .inr (List.mem_append_right _ ahead)

end Collecting

section Discarding

end Discarding

end Session

end OwlGraph
