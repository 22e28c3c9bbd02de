import OwlGraph.Rdf.Term
import Std.Data.String.ToNat

/-! Fresh blank nodes. Those made to avoid some nodes carry longer labels than any of them, and
each its own number, so they are different from the avoided nodes and from one another. -/

namespace OwlGraph.Supply

/-- The length of the longest label. -/
def longest (nodes : List BlankNode) : Nat := (nodes.map fun node => node.label.length).max?.getD 0

/-- What the labels of the fresh nodes begin with. -/
def stem (nodes : List BlankNode) : String := String.ofList (List.replicate (longest nodes + 1) 'b')

/-- The fresh node of a number. -/
def avoiding (nodes : List BlankNode) (number : Nat) : BlankNode := ⟨stem nodes ++ Nat.repr number⟩

theorem length_le_longest {nodes : List BlankNode} {node : BlankNode} (member : node ∈ nodes) :
    node.label.length ≤ longest nodes :=
  List.le_max?_getD_of_mem (List.mem_map_of_mem member)

theorem avoiding_not_mem (nodes : List BlankNode) (number : Nat) : avoiding nodes number ∉ nodes := by
  intro member
  have short := length_le_longest member
  have long : (stem nodes).length = longest nodes + 1 := by simp [stem]
  rw [avoiding, String.length_append, long] at short
  omega

theorem avoiding_injective {nodes : List BlankNode} {m n : Nat} (same : avoiding nodes m = avoiding nodes n) :
    m = n := by
  have labels : stem nodes ++ Nat.repr m = stem nodes ++ Nat.repr n := congrArg BlankNode.label same
  exact Nat.repr_injective ((String.append_right_inj _).mp labels)

end OwlGraph.Supply
