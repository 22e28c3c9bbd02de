/-! Set-valued operands are lists in a canonical order without repetitions, so that equal
sets are equal lists. The order compares keys; expressions whose blank nodes and literals
have no order of their own use their text as the key. -/

namespace OwlGraph.Canonical

/-- Keeps the first of every run of neighbours with the same key. -/
def collapse {α κ : Type} [DecidableEq κ] (key : α → κ) (items : List α) : List α :=
  items.foldr (fun item kept => match kept with
    | [] => [item]
    | next :: others => if key item = key next then item :: others else item :: next :: others) []

/-- Sorts by the key, keeping the order of equal keys, and drops all but the first of them. -/
def ordered {α κ : Type} [DecidableEq κ] (le : κ → κ → Bool) (key : α → κ) (items : List α) : List α :=
  (collapse Prod.fst ((items.map fun item => (key item, item)).mergeSort fun a b => le a.1 b.1)).map Prod.snd

/-- Strings in the order of their code points. -/
def textLe (a b : String) : Bool := decide (a ≤ b)

def byText {α : Type} (text : α → String) (items : List α) : List α := ordered textLe text items

end OwlGraph.Canonical
