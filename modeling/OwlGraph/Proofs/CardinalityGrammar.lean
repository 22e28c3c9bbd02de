import Mathlib.Data.List.TakeWhile
import OwlGraph.Proofs.CardinalityText
import OwlGraph.Proofs.Description
import OwlGraph.Proofs.ReadingEffects
import OwlGraph.Rendering.Expression

/-! Which texts are read as cardinalities. The white space around a text is taken off, and what is
left has to be a decimal number within the limit, perhaps after a plus sign. So of the lexical forms
that XML Schema allows for the non-negative integers all are read but the negative zeros; and beside
them only forms with white space around them that is none in XML. -/

namespace OwlGraph

namespace Cardinality

/-- The characters that XML takes for white space. -/
def isXmlSpace (c : Char) : Bool := c = ' ' || c = '\t' || c = '\n' || c = '\r'

/-- What is left of the text without the blank characters at its beginning and its end. -/
structure Trimmed (blank : Char → Bool) (cs core : List Char) : Prop where
  shape : ∃ before after, cs = before ++ core ++ after ∧ (∀ c ∈ before, blank c = true) ∧ ∀ c ∈ after, blank c = true
  first : ∀ c ∈ core.head?, blank c = false
  last : ∀ c ∈ core.getLast?, blank c = false

/-- Decimal digits, perhaps with leading zeros, for the number. -/
structure Numeral (cs : List Char) (number : Nat) : Prop where
  some : cs ≠ []
  digits : ∀ c ∈ cs, c.isDigit = true
  value : Nat.ofDigitChars 10 cs 0 = number

/-- A numeral, perhaps after a plus sign. -/
def Unnegated (cs : List Char) (number : Nat) : Prop :=
  Numeral cs number ∨ ∃ digits, cs = '+' :: digits ∧ Numeral digits number

/-- The lexical forms of the non-negative integers. Zero may have a minus sign. -/
def NonNegative (cs : List Char) (number : Nat) : Prop :=
  Unnegated cs number ∨ ∃ digits, cs = '-' :: digits ∧ Numeral digits number ∧ number = 0

/-- The text has the form between blank characters. -/
def Between (blank : Char → Bool) (form : List Char → Nat → Prop) (cs : List Char) (number : Nat) : Prop :=
  ∃ core, Trimmed blank cs core ∧ form core number

/-- There is no minus sign and no white space other than that of XML. -/
structure Usual (cs : List Char) : Prop where
  unsigned : '-' ∉ cs
  spaces : ∀ c ∈ cs, isWhiteSpace c = true → isXmlSpace c = true

section Trim

theorem isWhiteSpace_of_isXmlSpace {c : Char} (space : isXmlSpace c = true) : isWhiteSpace c = true := by
  simp only [isXmlSpace, Bool.or_eq_true, decide_eq_true_eq] at space
  rcases space with ((rfl | rfl) | rfl) | rfl <;> decide

theorem head?_dropWhile (blank : Char → Bool) (cs : List Char) : ∀ c ∈ (cs.dropWhile blank).head?, blank c = false := by
  intro c first
  have stops := List.head?_dropWhile_not blank cs
  rw [Option.mem_def.mp first] at stops
  simpa using stops

theorem trimmed_trim (cs : List Char) : Trimmed isWhiteSpace cs (trim cs) := by
  let rest := cs.dropWhile isWhiteSpace
  let kept := rest.reverse.dropWhile isWhiteSpace
  have inner : rest = kept.reverse ++ (rest.reverse.takeWhile isWhiteSpace).reverse := by
    rw [← List.reverse_append, List.takeWhile_append_dropWhile, List.reverse_reverse]
  have blank (items : List Char) : ∀ c ∈ items.takeWhile isWhiteSpace, isWhiteSpace c = true :=
    fun _ => List.mem_takeWhile_imp
  refine ⟨⟨cs.takeWhile isWhiteSpace, (rest.reverse.takeWhile isWhiteSpace).reverse, ?_, blank cs, ?_⟩, ?_, ?_⟩
  · rw [List.append_assoc, show trim cs = kept.reverse from rfl, ← inner]
    exact List.takeWhile_append_dropWhile.symm
  · exact fun c member => blank _ c (List.mem_reverse.mp member)
  · intro c first
    refine head?_dropWhile isWhiteSpace cs c ?_
    rw [show cs.dropWhile isWhiteSpace = rest from rfl, inner]
    exact List.mem_head?_append_of_mem_head? first
  · intro c last
    rw [show trim cs = kept.reverse from rfl, List.getLast?_reverse] at last
    exact head?_dropWhile isWhiteSpace rest.reverse c last

/-- Blank characters before what is not blank are dropped. -/
theorem dropWhile_append_core {blank : Char → Bool} {before core : List Char} (blanks : ∀ c ∈ before, blank c = true)
    (first : ∀ c ∈ core.head?, blank c = false) : (before ++ core).dropWhile blank = core := by
  rw [List.dropWhile_append_of_pos blanks]
  cases core with
  | nil => rfl
  | cons c cs => rw [List.dropWhile_cons, first c rfl]; rfl

theorem Trimmed.eq_trim {cs core : List Char} (trimmed : Trimmed isWhiteSpace cs core) : core = trim cs := by
  obtain ⟨⟨before, after, rfl, early, late⟩, first, last⟩ := trimmed
  have late : ∀ c ∈ after.reverse, isWhiteSpace c = true := fun c member => late c (List.mem_reverse.mp member)
  cases core with
  | nil =>
    have none : (before ++ [] ++ after).dropWhile isWhiteSpace = [] := by
      rw [List.dropWhile_eq_nil_iff, List.append_nil]
      intro c member
      rcases List.mem_append.mp member with sooner | later
      · exact early c sooner
      · exact late c (List.mem_reverse.mpr later)
    rw [trim, none]
    rfl
  | cons c core =>
    have start : (before ++ (c :: core) ++ after).dropWhile isWhiteSpace = c :: core ++ after := by
      rw [List.append_assoc]
      exact dropWhile_append_core early first
    have ends : (after.reverse ++ (c :: core).reverse).dropWhile isWhiteSpace = (c :: core).reverse :=
      dropWhile_append_core late fun d member => last d (by rwa [List.head?_reverse] at member)
    rw [trim, start, List.reverse_append, ends, List.reverse_reverse]

/-- Without white space of other alphabets it makes no difference which white space is taken off. -/
theorem Usual.trimmed_iff {cs core : List Char} (usual : Usual cs) : Trimmed isWhiteSpace cs core ↔ Trimmed isXmlSpace cs core := by
  constructor
  · rintro ⟨⟨before, after, rfl, early, late⟩, first, last⟩
    have plain {c : Char} (none : isWhiteSpace c = false) : isXmlSpace c = false :=
      Bool.eq_false_iff.mpr fun space => Bool.eq_false_iff.mp none (isWhiteSpace_of_isXmlSpace space)
    refine ⟨⟨before, after, rfl, fun c member => ?_, fun c member => ?_⟩, fun c member => plain (first c member),
      fun c member => plain (last c member)⟩
    · exact usual.spaces c (by simp [member]) (early c member)
    · exact usual.spaces c (by simp [member]) (late c member)
  · rintro ⟨⟨before, after, rfl, early, late⟩, first, last⟩
    have plain {c : Char} (member : c ∈ core) (none : isXmlSpace c = false) : isWhiteSpace c = false :=
      Bool.eq_false_iff.mpr fun space => Bool.eq_false_iff.mp none (usual.spaces c (by simp [member]) space)
    exact ⟨⟨before, after, rfl, fun c member => isWhiteSpace_of_isXmlSpace (early c member),
        fun c member => isWhiteSpace_of_isXmlSpace (late c member)⟩,
      fun c member => plain (List.mem_of_mem_head? member) (first c member),
      fun c member => plain (List.mem_of_mem_getLast? member) (last c member)⟩

end Trim

section Numbers

/-- Reading comes to the end exactly if there are only digits and their number is within the limit. -/
theorem readDigits_eq_ok_iff (cs : List Char) : ∀ start number, start ≤ limit → (readDigits start cs = .ok number ↔
    (∀ c ∈ cs, c.isDigit = true) ∧ Nat.ofDigitChars 10 cs start = number ∧ number ≤ limit) := by
  intro start number small
  constructor
  · intro read
    fun_induction readDigits start cs with
    | case1 start =>
      cases read
      exact ⟨List.forall_mem_nil _, Nat.ofDigitChars_nil, small⟩
    | case2 start c cs digit next within ih =>
      obtain ⟨digits, value, bounded⟩ := ih within read
      refine ⟨List.forall_mem_cons.mpr ⟨digit, digits⟩, ?_, bounded⟩
      rw [Nat.ofDigitChars_cons, Nat.mul_comm]
      exact value
    | case3 => cases read
    | case4 => cases read
  · rintro ⟨digits, rfl, bounded⟩
    exact readDigits_eq cs start digits bounded

theorem Numeral.ne_plus {cs : List Char} {number : Nat} (numeral : Numeral cs number) (rest : List Char) : cs ≠ '+' :: rest := by
  rintro rfl
  exact absurd (numeral.digits '+' List.mem_cons_self) (by decide)

/-- A text has only one core. -/
theorem between_iff_trim {form : List Char → Nat → Prop} {cs : List Char} {number : Nat} :
    Between isWhiteSpace form cs number ↔ form (trim cs) number := by
  constructor
  · rintro ⟨core, trimmed, shape⟩
    exact trimmed.eq_trim ▸ shape
  · exact fun shape => ⟨_, trimmed_trim cs, shape⟩

/-- A text is read as a number exactly if it is a numeral within the limit between white space,
perhaps after a plus sign. -/
theorem parse_eq_ok_iff (text : String) (number : Nat) :
    parse text = .ok number ↔ Between isWhiteSpace Unnegated text.toList number ∧ number ≤ limit := by
  have read (digits : List Char) : (if digits.isEmpty then .error .malformed else readDigits 0 digits) = Except.ok number ↔
      Numeral digits number ∧ number ≤ limit := by
    cases digits with
    | nil => exact iff_of_false (fun read => by cases read) fun both => both.1.some rfl
    | cons c cs =>
      rw [List.isEmpty_cons, if_neg Bool.false_ne_true, readDigits_eq_ok_iff _ _ _ (Nat.zero_le _)]
      constructor
      · rintro ⟨digits, value, bounded⟩
        exact ⟨⟨List.cons_ne_nil _ _, digits, value⟩, bounded⟩
      · rintro ⟨⟨-, digits, value⟩, bounded⟩
        exact ⟨digits, value, bounded⟩
  rw [parse, read, between_iff_trim, and_congr_left_iff]
  intro _
  split
  next digits shape =>
    rw [shape]
    constructor
    · exact fun numeral => .inr ⟨digits, rfl, numeral⟩
    · rintro (numeral | ⟨_, same, numeral⟩)
      · exact absurd rfl (numeral.ne_plus digits)
      · exact (List.cons.inj same).2 ▸ numeral
  next other =>
    refine ⟨.inl, fun form => form.resolve_right ?_⟩
    rintro ⟨digits, same, -⟩
    exact other digits same

/-- Usual texts are read as XML Schema has it. -/
theorem Usual.between_iff {cs : List Char} (usual : Usual cs) (number : Nat) :
    Between isWhiteSpace Unnegated cs number ↔ Between isXmlSpace NonNegative cs number := by
  refine exists_congr fun core => ?_
  rw [usual.trimmed_iff, and_congr_right_iff]
  rintro ⟨⟨before, after, rfl, -⟩, -⟩
  refine ⟨.inl, fun form => form.resolve_right ?_⟩
  rintro ⟨digits, rfl, -⟩
  exact usual.unsigned (by simp)

end Numbers

end Cardinality

namespace Translation

open Cardinality

variable {context : Context} (literal : Literal) (session : Session)

/-- A lax reading has the number of the text for its value, or the text has a flaw. -/
theorem cardinality_lax (lax : context.config.strict = false) : (cardinality literal context session).1 =
    match parse literal.value with
    | .ok number => .ok (UInt32.ofNat number)
    | .error .tooLarge => .error (.failed (.cardinalityTooLarge literal limit))
    | .error .malformed => .error (.failed (.cardinalityMalformed literal)) := by
  rw [cardinality]
  simp only [Term.literal?]
  rcases parse literal.value with (_ | _) | number
  · rfl
  · rfl
  · dsimp only
    split
    · rfl
    · rw [Run.bind_run (recover_lax lax _ session)]
      rfl

/-- What a cardinality is written as is read as that cardinality, with no repair. -/
theorem cardinality_written (context : Context) (number : UInt32) :
    cardinality (cardinalityTerm number) context session = (.ok number, session) := by
  have written : cardinalityTerm number = .literal (.typed (cardinalityText number) Xsd.nonNegativeInteger (by decide)) := by
    rw [cardinalityTerm, Literal.ofDatatype, dif_neg]
  rw [written, cardinality]
  simp only [Term.literal?, Literal.value, Literal.datatype, parse_cardinalityText, true_or, if_true, UInt32.ofNat_toNat]
  rfl

/-- Cardinalities are read by a grammar. The texts that are read are the numerals within the limit,
perhaps after a plus sign and between white space, and all others are refused as numbers of a wrong
format. For texts without a minus sign and without white space of other alphabets these are the lexical
forms of the non-negative integers. What is written for a cardinality is read as that cardinality,
strictly too, and nothing is noted. -/
theorem cardinality_read_iff (lax : context.config.strict = false) :
    (∀ number : UInt32, (cardinality literal context session).1 = .ok number ↔
      Between isWhiteSpace Unnegated literal.value.toList number.toNat) ∧
    (Usual literal.value.toList → ∀ number : UInt32, (cardinality literal context session).1 = .ok number ↔
      Between isXmlSpace NonNegative literal.value.toList number.toNat) ∧
    ((∃ number, (cardinality literal context session).1 = .ok number) ∨
      ∃ problem, (cardinality literal context session).1 = .error (.failed problem) ∧ problem.kind = .numericFormat) ∧
    ∀ (context : Context) (number : UInt32) (bound : Bound) (filler : Option (Iri × Node)),
      ∀ value ∈ (Rendering.cardinalityValues bound number filler).head?,
        cardinality value.2 context session = (.ok number, session) := by
  have exact (number : UInt32) : (cardinality literal context session).1 = .ok number ↔
      Between isWhiteSpace Unnegated literal.value.toList number.toNat := by
    have small : number.toNat ≤ limit := Nat.le_of_lt_succ number.toNat_lt
    have parsed := parse_eq_ok_iff literal.value number.toNat
    rw [and_iff_left small] at parsed
    rw [cardinality_lax literal session lax, ← parsed]
    rcases found : parse literal.value with flaw | value
    · cases flaw <;> exact ⟨nofun, nofun⟩
    · have within : value < UInt32.size := Nat.lt_succ_of_le ((parse_eq_ok_iff literal.value value).mp found).2
      rw [Except.ok.injEq, Except.ok.injEq]
      constructor
      · rintro rfl
        exact (UInt32.toNat_ofNat_of_lt within).symm
      · rintro rfl
        exact UInt32.ofNat_toNat
  refine ⟨exact, fun usual number => (exact number).trans (usual.between_iff number.toNat), ?_, ?_⟩
  · rw [cardinality_lax literal session lax]
    rcases parse literal.value with (_ | _) | number
    · exact .inr ⟨_, rfl, rfl⟩
    · exact .inr ⟨_, rfl, rfl⟩
    · exact .inl ⟨_, rfl⟩
  · intro context number bound filler value written
    have count : value.2 = cardinalityTerm number := by
      cases filler <;> exact congrArg Prod.snd (Option.some.inj written).symm
    rw [count]
    exact cardinality_written session context number

/-- A numeral with a plus sign and leading zeros is read between blanks of any alphabet; a negative zero
is refused, although it is a lexical form of the non-negative integers. -/
theorem cardinality_read_iff_signs :
    let context : Context := ⟨{}, 0, false⟩
    let session : Session := { store := {} }
    let count (text : String) : Literal := .typed text Xsd.nonNegativeInteger (by decide)
    context.config.strict = false ∧
    (cardinality (count "\n+007\u00a0") context session).1 = .ok 7 ∧
    Between isXmlSpace NonNegative (count "-0").value.toList 0 ∧
    ∃ problem, (cardinality (count "-0") context session).1 = .error (.failed problem) ∧ problem.kind = .numericFormat := by
  intro context session count
  have lax : context.config.strict = false := rfl
  refine ⟨lax, ?_, ?_, ?_⟩
  · refine ((cardinality_read_iff (count _) session lax).1 7).mpr ⟨['+', '0', '0', '7'], ?_, .inr ⟨['0', '0', '7'], rfl, ?_⟩⟩
    · exact ⟨⟨['\n'], ['\u00a0'], by decide, List.all_eq_true.mp rfl, List.all_eq_true.mp rfl⟩, by rintro _ ⟨⟩; rfl,
        by rintro _ ⟨⟩; rfl⟩
    · exact ⟨by decide, List.all_eq_true.mp rfl, by decide⟩
  · exact ⟨['-', '0'], ⟨⟨[], [], by decide, List.forall_mem_nil _, List.forall_mem_nil _⟩, by rintro _ ⟨⟩; rfl,
      by rintro _ ⟨⟩; rfl⟩, .inr ⟨['0'], rfl, ⟨by decide, List.all_eq_true.mp rfl, by decide⟩, rfl⟩⟩
  · obtain ⟨exact, -, outcome, -⟩ := cardinality_read_iff (count "-0") session lax
    refine outcome.resolve_left fun ⟨number, read⟩ => ?_
    obtain ⟨core, trimmed, form⟩ := (exact number).mp read
    obtain rfl : core = ['-', '0'] := trimmed.eq_trim.trans (by decide)
    rcases form with numeral | ⟨digits, plus, -⟩
    · exact absurd (numeral.digits '-' (by decide)) (by decide)
    · cases plus

end Translation

end OwlGraph
