import OwlGraph.Expression.ClassExpression
import OwlGraph.Translation.Cardinality

/-! A cardinality is read from its decimal digits as it was written. -/

namespace OwlGraph.Cardinality

theorem le_ofDigitChars (number : Nat) (cs : List Char) : number ≤ Nat.ofDigitChars 10 cs number := by
  rw [Nat.ofDigitChars_eq_ofDigitChars_zero]
  have positive : 1 ≤ 10 ^ cs.length := Nat.one_le_pow _ _ (by decide)
  calc number = 1 * number := (Nat.one_mul number).symm
    _ ≤ 10 ^ cs.length * number := Nat.mul_le_mul_right number positive
    _ ≤ _ := Nat.le_add_right _ _

/-- Digits that stay below the limit are read to their end. -/
theorem readDigits_eq (cs : List Char) : ∀ number, (∀ c ∈ cs, c.isDigit = true) →
    Nat.ofDigitChars 10 cs number ≤ limit → readDigits number cs = .ok (Nat.ofDigitChars 10 cs number) := by
  induction cs with
  | nil =>
    intro number _ _
    rw [Nat.ofDigitChars_nil]
    rfl
  | cons c cs ih =>
    intro number digits bounded
    have value : Nat.ofDigitChars 10 (c :: cs) number =
        Nat.ofDigitChars 10 cs (number * 10 + (c.toNat - '0'.toNat)) := by
      rw [Nat.ofDigitChars_cons, Nat.mul_comm]
    rw [value] at bounded ⊢
    have small := Nat.le_trans (le_ofDigitChars _ cs) bounded
    rw [readDigits, if_pos (digits c List.mem_cons_self)]
    simp only [small, if_true]
    exact ih _ (fun other member => digits other (List.mem_cons_of_mem _ member)) bounded

/-- A digit is no white space. -/
theorem isWhiteSpace_of_isDigit {c : Char} (digit : c.isDigit = true) : isWhiteSpace c = false := by
  simp only [Char.isDigit, ge_iff_le, Bool.and_eq_true, decide_eq_true_eq, UInt32.le_iff_toNat_le] at digit
  have lower : 48 ≤ c.toNat := digit.1
  have upper : c.toNat ≤ 57 := digit.2
  simp only [isWhiteSpace, Bool.or_eq_false_iff, Bool.and_eq_false_iff, decide_eq_false_iff_not, beq_eq_false_iff_ne]
  omega

theorem dropWhile_digits {cs : List Char} (digits : ∀ c ∈ cs, c.isDigit = true) :
    cs.dropWhile isWhiteSpace = cs := by
  cases cs with
  | nil => rfl
  | cons c cs => rw [List.dropWhile_cons, isWhiteSpace_of_isDigit (digits c List.mem_cons_self)]; rfl

theorem trim_digits {cs : List Char} (digits : ∀ c ∈ cs, c.isDigit = true) : trim cs = cs := by
  rw [trim, dropWhile_digits digits, dropWhile_digits fun c member => digits c (List.mem_reverse.mp member),
    List.reverse_reverse]

theorem parse_cardinalityText (cardinality : UInt32) :
    parse (cardinalityText cardinality) = .ok cardinality.toNat := by
  have digits : ∀ c ∈ Nat.toDigits 10 cardinality.toNat, c.isDigit = true :=
    fun c member => Nat.isDigit_of_mem_toDigits (by decide) (by decide) member
  have value : Nat.ofDigitChars 10 (Nat.toDigits 10 cardinality.toNat) 0 = cardinality.toNat :=
    Nat.ofDigitChars_ten_toDigits
  have bounded : cardinality.toNat ≤ limit := Nat.le_of_lt_succ cardinality.toNat_lt
  have reading := readDigits_eq _ 0 digits (by rw [value]; exact bounded)
  rw [parse, cardinalityText, String.toList_ofList, trim_digits digits]
  split
  next cs shape =>
    have plus := digits '+' (by rw [shape]; exact List.mem_cons_self)
    exact absurd plus (by decide)
  next =>
    have filled : (Nat.toDigits 10 cardinality.toNat).isEmpty = false := by simp [Nat.toDigits_ne_nil]
    rw [filled, reading, value]
    rfl

end OwlGraph.Cardinality
