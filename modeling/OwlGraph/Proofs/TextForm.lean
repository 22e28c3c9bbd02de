import Mathlib.Data.List.Basic
import OwlGraph.Annotation
import OwlGraph.Proofs.CardinalityText
import OwlGraph.Rule

/-! Functional-style text says what it is the text of. A text is the text of a tree of words, and
trees of clean words with the same text are the same tree. So sets that are ordered by the texts
of their members do not lose any. -/

namespace OwlGraph

/-- A text after which another word may follow. -/
def Ends (rest : List Char) : Prop := rest = [] ∨ ∃ more, rest = ' ' :: more ∨ rest = ')' :: more

namespace Literal

private theorem digitChar_injective : ∀ m < 16, ∀ n < 16, hexDigit m = hexDigit n → m = n := by decide

private theorem fourHexDigits_injective {m n : Nat} (small : m < 65536) (low : n < 65536)
    (same : fourHexDigits m = fourHexDigits n) : m = n := by
  have digit : ∀ k : Nat, k % 16 < 16 := fun k => Nat.mod_lt k (by decide)
  simp only [fourHexDigits, List.cons.injEq, and_true] at same
  have first := digitChar_injective _ (digit _) _ (digit _) same.1
  have second := digitChar_injective _ (digit _) _ (digit _) same.2.1
  have third := digitChar_injective _ (digit _) _ (digit _) same.2.2.1
  have fourth := digitChar_injective _ (digit _) _ (digit _) same.2.2.2
  omega

/-- The characters that an escape may consist of besides the backslash. -/
private theorem escapeChar_cases (c : Char) :
    (escapeChar c = [c] ∧ c ≠ '"' ∧ c ≠ '\\') ∨
      (∃ d, escapeChar c = ['\\', d] ∧ d ≠ 'u' ∧
        (c, d) ∈ [('\x08', 'b'), ('\t', 't'), ('\n', 'n'), ('\x0c', 'f'), ('\r', 'r'), ('"', '"'), ('\\', '\\')]) ∨
      escapeChar c = '\\' :: 'u' :: fourHexDigits c.toNat ∧ c.toNat < 65536 := by
  unfold escapeChar
  split_ifs with back tab line form carriage quote slash control
  all_goals try (subst c; exact Or.inr (Or.inl ⟨_, rfl, by decide, by decide⟩))
  · exact Or.inr (Or.inr ⟨rfl, by omega⟩)
  · exact Or.inl ⟨rfl, quote, slash⟩

/-- No escape begins another one. -/
private theorem escapeChar_unique {c d : Char} {s t : List Char} (same : escapeChar c ++ s = escapeChar d ++ t) :
    c = d ∧ s = t := by
  have pairs : ∀ p ∈ [('\x08', 'b'), ('\t', 't'), ('\n', 'n'), ('\x0c', 'f'), ('\r', 'r'), ('"', '"'), ('\\', '\\')],
      ∀ q ∈ [('\x08', 'b'), ('\t', 't'), ('\n', 'n'), ('\x0c', 'f'), ('\r', 'r'), ('"', '"'), ('\\', '\\')],
        p.2 = q.2 → p.1 = q.1 := by decide
  rcases escapeChar_cases c with ⟨one, -, plain⟩ | ⟨e, one, other, listed⟩ | ⟨one, small⟩ <;>
    rcases escapeChar_cases d with ⟨two, -, plain'⟩ | ⟨e', two, other', listed'⟩ | ⟨two, small'⟩ <;>
    rw [one, two] at same <;>
    simp only [List.cons_append, List.nil_append, List.cons.injEq] at same
  · exact same
  · exact absurd same.1 plain
  · exact absurd same.1 plain
  · exact absurd same.1.symm plain'
  · exact ⟨pairs _ listed _ listed' same.2.1, same.2.2⟩
  · exact absurd same.2.1 other
  · exact absurd same.1.symm plain'
  · exact absurd same.2.1.symm other'
  · have digits : fourHexDigits c.toNat ++ s = fourHexDigits d.toNat ++ t := same.2.2
    obtain ⟨head, tail⟩ := List.append_inj digits rfl
    exact ⟨Char.toNat_inj.mp (fourHexDigits_injective small small' head), tail⟩

private theorem escapeChar_ne_quote (c : Char) (s t : List Char) : escapeChar c ++ s ≠ '"' :: t := by
  intro same
  rcases escapeChar_cases c with ⟨one, plain, -⟩ | ⟨e, one, -, -⟩ | ⟨one, -⟩ <;> rw [one] at same <;>
    simp only [List.cons_append, List.cons.injEq] at same
  · exact plain same.1
  · exact absurd same.1 (by decide)
  · exact absurd same.1 (by decide)

private theorem escaped_unique : ∀ (v w s t : List Char),
    v.flatMap escapeChar ++ '"' :: s = w.flatMap escapeChar ++ '"' :: t → v = w ∧ s = t
  | [], [], _, _, same => ⟨rfl, (List.cons.inj same).2⟩
  | [], d :: w, s, t, same => by
    rw [List.flatMap_cons, List.append_assoc] at same
    exact absurd same.symm (escapeChar_ne_quote d _ s)
  | c :: v, [], s, t, same => by
    rw [List.flatMap_cons, List.append_assoc] at same
    exact absurd same (escapeChar_ne_quote c _ t)
  | c :: v, d :: w, s, t, same => by
    rw [List.flatMap_cons, List.flatMap_cons, List.append_assoc, List.append_assoc] at same
    obtain ⟨rfl, later⟩ := escapeChar_unique same
    obtain ⟨rfl, rest⟩ := escaped_unique v w s t later
    exact ⟨rfl, rest⟩

theorem quoted_unique {v w : String} {s t : List Char}
    (same : (quoted v).toList ++ s = (quoted w).toList ++ t) : v = w ∧ s = t := by
  simp only [quoted, String.toList_append, String.toList_ofList, List.append_assoc] at same
  obtain ⟨-, inner⟩ := List.append_inj same rfl
  obtain ⟨value, rest⟩ := escaped_unique v.toList w.toList s t (by simpa using inner)
  exact ⟨String.toList_injective value, rest⟩

end Literal

section Words

/-- Whether the character ends a word. -/
def isBreak (c : Char) : Bool := c == ' ' || c == ')'

variable {v w s t : List Char}

/-- Up to the first character of a class a text is determined. -/
private theorem before_unique {stop : Char → Bool} (plain : ∀ c ∈ v, stop c = false) (free : ∀ c ∈ w, stop c = false)
    (ended : ∀ c ∈ s.head?, stop c = true) (closed : ∀ c ∈ t.head?, stop c = true) (same : v ++ s = w ++ t) :
    v = w ∧ s = t := by
  have taken : ∀ (word rest : List Char), (∀ c ∈ word, stop c = false) → (∀ c ∈ rest.head?, stop c = true) →
      (word ++ rest).takeWhile (fun c => !stop c) = word := by
    intro word rest plain ended
    rw [List.takeWhile_append_of_pos (by simpa using plain)]
    cases rest with
    | nil => simp
    | cons c rest => simp [ended c rfl]
  have words := congrArg (List.takeWhile fun c => !stop c) same
  rw [taken v s plain ended, taken w t free closed] at words
  subst words
  exact ⟨rfl, List.append_cancel_left same⟩

theorem Ends.head {rest : List Char} (ends : Ends rest) : ∀ c ∈ rest.head?, isBreak c = true := by
  intro c first
  rcases ends with rfl | ⟨more, rfl | rfl⟩ <;> cases first <;> rfl

theorem word_unique (plain : ∀ c ∈ v, isBreak c = false) (free : ∀ c ∈ w, isBreak c = false) (ended : Ends s)
    (closed : Ends t) (same : v ++ s = w ++ t) : v = w ∧ s = t :=
  before_unique plain free ended.head closed.head same

/-- What stands before a character that it does not contain is determined. -/
theorem delimited_unique (stop : Char) (plain : stop ∉ v) (free : stop ∉ w) (same : v ++ stop :: s = w ++ stop :: t) :
    v = w ∧ s = t := by
  have absent : ∀ word : List Char, stop ∉ word → ∀ c ∈ word, (c == stop) = false := fun word absent c member =>
    beq_eq_false_iff_ne.mpr (ne_of_mem_of_not_mem member absent)
  obtain ⟨words, rest⟩ := before_unique (absent v plain) (absent w free) (by simp) (by simp) same
  exact ⟨words, (List.cons.inj rest).2⟩

end Words

/-- One word of a text. -/
inductive Leaf where
  | iri (iri : Iri)
  | literal (value : Literal)
  | word (text : String)
  /-- Nothing between two spaces. -/
  | nothing

/-- Whether a character may begin a word that is neither an IRI nor a literal. -/
def isInitial (c : Char) : Bool := c == '_' || c.isDigit

namespace Leaf

def text : Leaf → String
  | .iri name => name.text
  | .literal value => value.text
  | .word text => text
  | .nothing => ""

/-- Where the word stops can be seen. -/
def Clean : Leaf → Prop
  | .iri name => '>' ∉ name.value.toList
  | .literal (.tagged _ language) => ∀ c ∈ language.toList, isBreak c = false
  | .literal (.typed _ datatype _) => '>' ∉ datatype.value.toList
  | .literal (.simple _) => True
  | .word text => (∀ c ∈ text.toList, isBreak c = false) ∧ ∃ c rest, text.toList = c :: rest ∧ isInitial c = true
  | .nothing => True

private theorem iri_unique {a b : Iri} {s t : List Char} (clean : '>' ∉ a.value.toList) (neat : '>' ∉ b.value.toList)
    (same : a.text.toList ++ s = b.text.toList ++ t) : a = b ∧ s = t := by
  simp only [Iri.text, String.toList_append, List.append_assoc] at same
  obtain ⟨-, inner⟩ := List.append_inj same rfl
  obtain ⟨value, rest⟩ := delimited_unique '>' clean neat (by simpa using inner)
  exact ⟨congrArg Iri.mk (String.toList_injective value), rest⟩

private theorem literal_unique {a b : Literal} {s t : List Char} (clean : Clean (.literal a)) (neat : Clean (.literal b))
    (ended : Ends s) (closed : Ends t) (same : a.text.toList ++ s = b.text.toList ++ t) : a = b ∧ s = t := by
  have broken : ∀ {more rest : List Char} {c : Char}, Ends rest → isBreak c = false → rest ≠ c :: more := by
    rintro more rest c ends other rfl
    have found := ends.head c rfl
    rw [other] at found
    cases found
  have at_ : isBreak '@' = false := by decide
  have hat : isBreak '^' = false := by decide
  have apart : '@' ≠ '^' := by decide
  cases a <;> cases b <;>
    simp only [Literal.text, String.toList_append, List.append_assoc] at same <;>
    obtain ⟨rfl, rest⟩ := Literal.quoted_unique same
  · exact ⟨rfl, rest⟩
  · exact absurd rest (broken ended at_)
  · exact absurd rest (broken ended hat)
  · exact absurd rest.symm (broken closed at_)
  · obtain ⟨tag, rest⟩ := word_unique clean neat ended closed (List.cons.inj rest).2
    exact ⟨by rw [String.toList_injective tag], rest⟩
  · exact absurd (List.cons.inj rest).1 apart
  · exact absurd rest.symm (broken closed hat)
  · exact absurd (List.cons.inj rest).1 apart.symm
  · obtain ⟨datatype, ends⟩ := iri_unique clean neat (List.append_cancel_left rest)
    subst datatype
    exact ⟨rfl, ends⟩

private theorem initial_apart {c : Char} (first : isInitial c = true) :
    c ≠ '<' ∧ c ≠ '"' ∧ c.isAlpha = false ∧ c ≠ '(' ∧ isBreak c = false := by
  refine ⟨?_, ?_, ?_, ?_, ?_⟩
  case refine_3 =>
    rw [Bool.eq_false_iff]
    intro letter
    simp only [isInitial, Bool.or_eq_true, beq_iff_eq] at first
    rcases first with rfl | digit
    · exact absurd letter (by decide)
    · delta Char.isAlpha Char.isUpper Char.isLower at letter
      simp only [Char.isDigit, Bool.or_eq_true, Bool.and_eq_true, decide_eq_true_eq, UInt32.le_iff_toNat_le,
        ge_iff_le] at digit letter
      simp at digit letter
      omega
  case refine_5 =>
    rw [Bool.eq_false_iff]
    intro stop
    simp only [isBreak, Bool.or_eq_true, beq_iff_eq] at stop
    rcases stop with rfl | rfl <;> exact absurd first (by decide)
  all_goals
    rintro rfl
    exact absurd first (by decide)

/-- What a word begins with, or what follows if it is empty. -/
def Begins : Leaf → Option Char → Prop
  | .iri _, first => first = some '<'
  | .literal _, first => first = some '"'
  | .word _, first => ∃ c, first = some c ∧ isInitial c = true
  | .nothing, first => ∀ c, first = some c → isBreak c = true

theorem begins {leaf : Leaf} (clean : leaf.Clean) {s : List Char} (ended : Ends s) :
    leaf.Begins (leaf.text.toList ++ s).head? := by
  cases leaf with
  | iri name => simp [Begins, text, Iri.text]
  | literal value => cases value <;> simp [Begins, text, Literal.text, Literal.quoted]
  | word word =>
    obtain ⟨-, c, rest, shape, first⟩ := clean
    exact ⟨c, by simp [text, shape], first⟩
  | nothing => simpa [Begins, text] using ended.head

theorem unique {a b : Leaf} {s t : List Char} (clean : a.Clean) (neat : b.Clean) (ended : Ends s) (closed : Ends t)
    (same : a.text.toList ++ s = b.text.toList ++ t) : a = b ∧ s = t := by
  have here := begins clean ended
  have there := begins neat closed
  rw [same] at here
  have signs : isInitial '<' = false ∧ isInitial '"' = false ∧ isBreak '<' = false ∧ isBreak '"' = false := by decide
  have apart : ∀ c, isInitial c = true → isBreak c = true → False := fun c first stop => by
    simp [(initial_apart first).2.2.2.2] at stop
  cases a <;> cases b
  case iri.iri =>
    obtain ⟨rfl, rest⟩ := iri_unique clean neat same
    exact ⟨rfl, rest⟩
  case literal.literal =>
    obtain ⟨rfl, rest⟩ := literal_unique clean neat ended closed same
    exact ⟨rfl, rest⟩
  case word.word =>
    obtain ⟨words, rest⟩ := word_unique clean.1 neat.1 ended closed same
    exact ⟨congrArg Leaf.word (String.toList_injective words), rest⟩
  case nothing.nothing => exact ⟨rfl, by simpa [text] using same⟩
  all_goals
    exfalso
    simp only [Begins] at here there
    grind

end Leaf

/-- The structure of a text: words in brackets under names. -/
inductive Tree where
  | single (leaf : Leaf)
  | node (name : String) (arguments : List Tree)

namespace Tree

mutual

def text : Tree → String
  | .single leaf => leaf.text
  | .node name arguments => applied name (texts arguments)

def texts : List Tree → List String
  | [] => []
  | tree :: rest => tree.text :: texts rest

end

mutual

def leaves : Tree → List Leaf
  | .single leaf => [leaf]
  | .node _ arguments => leavesEach arguments

def leavesEach : List Tree → List Leaf
  | [] => []
  | tree :: rest => tree.leaves ++ leavesEach rest

end

mutual

/-- Names are made of letters, and nothing does not stand alone. -/
def Formed : Tree → Prop
  | .single _ => True
  | .node name arguments => (∀ c ∈ name.toList, c.isAlpha = true) ∧
      arguments.head? ≠ some (.single .nothing) ∧ FormedEach arguments

def FormedEach : List Tree → Prop
  | [] => True
  | tree :: rest => tree.Formed ∧ FormedEach rest

end

theorem texts_eq_map (trees : List Tree) : texts trees = trees.map text := by
  induction trees with
  | nil => rfl
  | cons tree rest ih => simp [texts, ih]

theorem leavesEach_eq (trees : List Tree) : leavesEach trees = trees.flatMap leaves := by
  induction trees with
  | nil => rfl
  | cons tree rest ih => simp [leavesEach, ih]

theorem formedEach_iff {trees : List Tree} : FormedEach trees ↔ ∀ tree ∈ trees, tree.Formed := by
  induction trees with
  | nil => simp [FormedEach]
  | cons tree rest ih => simp [FormedEach, ih]

/-- The text of the members that follow another one. -/
def following (words : List String) : String := if words.isEmpty then "" else " " ++ spaced words

private theorem spaced_cons (word : String) (words : List String) :
    spaced (word :: words) = word ++ following words := by
  cases words <;> simp [spaced, following, String.append_assoc]

private theorem ends_following (words : List String) (s : List Char) : Ends ((following words).toList ++ ')' :: s) := by
  right
  cases words with
  | nil => exact ⟨s, Or.inr (by simp [following])⟩
  | cons word rest => exact ⟨(spaced (word :: rest)).toList ++ ')' :: s, Or.inl (by simp [following])⟩

private theorem applied_toList (name : String) (words : List String) (s : List Char) :
    (applied name words).toList ++ s = name.toList ++ '(' :: ((spaced words).toList ++ ')' :: s) := by
  simp [applied]

/-- The text of a node begins with a letter or a bracket, which no word does. -/
private theorem leaf_ne_node {leaf : Leaf} {name : String} {words : List String} {s t : List Char} (clean : leaf.Clean)
    (ended : Ends s) (named : ∀ c ∈ name.toList, c.isAlpha = true) :
    leaf.text.toList ++ s ≠ (applied name words).toList ++ t := by
  intro same
  have first := Leaf.begins clean ended
  rw [same, applied_toList] at first
  have opening : ∃ c, (name.toList ++ '(' :: ((spaced words).toList ++ ')' :: t)).head? = some c ∧
      (c.isAlpha = true ∨ c = '(') := by
    cases shape : name.toList with
    | nil => exact ⟨'(', rfl, Or.inr rfl⟩
    | cons c rest => exact ⟨c, rfl, Or.inl (named c (by simp [shape]))⟩
  obtain ⟨c, found, letter⟩ := opening
  rw [found] at first
  have signs : Char.isAlpha '<' = false ∧ Char.isAlpha '"' = false ∧ Char.isAlpha ' ' = false ∧ Char.isAlpha ')' = false ∧
      isBreak '(' = false ∧ isInitial '(' = false := by decide
  cases leaf with
  | iri | literal =>
    cases first
    rcases letter with letter | same
    · simp [signs] at letter
    · exact absurd same (by decide)
  | word =>
    obtain ⟨_, found, initial⟩ := first
    cases found
    obtain ⟨-, -, plain, other, -⟩ := Leaf.initial_apart initial
    rcases letter with letter | same
    · simp [plain] at letter
    · exact other same
  | nothing =>
    have stop := first c rfl
    simp only [isBreak, Bool.or_eq_true, beq_iff_eq] at stop
    rcases stop with rfl | rfl <;> rcases letter with letter | same <;> first
      | simp [signs] at letter
      | exact absurd same (by decide)

/-- A member of some text does not begin with the bracket that closes the list. -/
private theorem first_ne_bracket {tree : Tree} {s t : List Char} (some : tree ≠ .single .nothing) (formed : tree.Formed)
    (clean : ∀ leaf ∈ tree.leaves, leaf.Clean) (ended : Ends t) :
    (spaced []).toList ++ ')' :: s ≠ tree.text.toList ++ t := by
  intro same
  cases tree with
  | single leaf =>
    have first := Leaf.begins (clean leaf (List.mem_singleton_self _)) ended
    rw [text] at same
    rw [← same] at first
    cases leaf with
    | nothing => exact some rfl
    | iri | literal => cases first
    | word =>
      obtain ⟨_, found, initial⟩ := first
      cases found
      exact absurd initial (by decide)
  | node name arguments =>
    rw [text, applied_toList] at same
    cases shape : name.toList with
    | nil =>
      rw [shape] at same
      cases same
    | cons c rest =>
      have letter := formed.1 c (by simp [shape])
      rw [shape] at same
      cases same
      exact absurd letter (by decide)

mutual

/-- Clean trees with the same text are the same tree. -/
theorem text_unique : ∀ (a b : Tree) {s t : List Char}, a.Formed → b.Formed → (∀ leaf ∈ a.leaves, leaf.Clean) →
    (∀ leaf ∈ b.leaves, leaf.Clean) → Ends s → Ends t → a.text.toList ++ s = b.text.toList ++ t → a = b ∧ s = t
  | .single a, .single b, s, t, _, _, clean, neat, ended, closed, same => by
    obtain ⟨rfl, rest⟩ := Leaf.unique (clean a (List.mem_singleton_self _)) (neat b (List.mem_singleton_self _))
      ended closed same
    exact ⟨rfl, rest⟩
  | .single a, .node _ _, _, _, _, named, clean, _, ended, _, same =>
    absurd same (leaf_ne_node (clean a (List.mem_singleton_self _)) ended named.1)
  | .node _ _, .single b, _, _, named, _, _, neat, _, closed, same =>
    absurd same.symm (leaf_ne_node (neat b (List.mem_singleton_self _)) closed named.1)
  | .node name as, .node other bs, s, t, formed, shaped, clean, neat, _, _, same => by
    have bracket : Char.isAlpha '(' = false := by decide
    have free : ∀ {name : String}, (∀ c ∈ name.toList, c.isAlpha = true) → '(' ∉ name.toList := fun named member =>
      absurd (named _ member) (by simp [bracket])
    simp only [text, applied_toList] at same
    obtain ⟨names, inner⟩ := delimited_unique '(' (free formed.1) (free shaped.1) same
    have names := String.toList_injective names
    subst names
    have members : (following (texts as)).toList ++ ')' :: s = (following (texts bs)).toList ++ ')' :: t := by
      match as, bs, formed, shaped, clean, neat, inner with
      | [], [], _, _, _, _, inner => simpa [texts, spaced] using inner
      | [], b :: bs, _, shaped, _, neat, inner =>
        rw [texts, texts, spaced_cons, String.toList_append, List.append_assoc] at inner
        exact absurd inner (first_ne_bracket (by simpa using shaped.2.1) shaped.2.2.1 (fun leaf member => neat leaf
          (List.mem_append_left _ member)) (ends_following _ _))
      | a :: as, [], formed, _, clean, _, inner =>
        rw [texts, texts, spaced_cons, String.toList_append, List.append_assoc] at inner
        exact absurd inner.symm (first_ne_bracket (by simpa using formed.2.1) formed.2.2.1 (fun leaf member => clean leaf
          (List.mem_append_left _ member)) (ends_following _ _))
      | a :: as, b :: bs, _, _, _, _, inner => simpa [texts, following] using inner
    obtain ⟨rfl, rest⟩ := members_unique as bs formed.2.2 shaped.2.2 clean neat members
    exact ⟨rfl, rest⟩

/-- Members are told apart one by one. -/
theorem members_unique : ∀ (as bs : List Tree) {s t : List Char}, FormedEach as → FormedEach bs →
    (∀ leaf ∈ leavesEach as, leaf.Clean) → (∀ leaf ∈ leavesEach bs, leaf.Clean) →
    (following (texts as)).toList ++ ')' :: s = (following (texts bs)).toList ++ ')' :: t → as = bs ∧ s = t
  | [], [], _, _, _, _, _, _, same => ⟨rfl, by simpa [texts, following] using same⟩
  | [], b :: bs, _, _, _, _, _, _, same => by simp [texts, following] at same
  | a :: as, [], _, _, _, _, _, _, same => by simp [texts, following] at same
  | a :: as, b :: bs, s, t, formed, shaped, clean, neat, same => by
    have inner : a.text.toList ++ ((following (texts as)).toList ++ ')' :: s) =
        b.text.toList ++ ((following (texts bs)).toList ++ ')' :: t) := by
      rw [texts, texts, following, following, List.isEmpty_cons, List.isEmpty_cons] at same
      simp only [Bool.false_eq_true, if_false, spaced_cons, String.toList_append, List.append_assoc] at same
      exact List.append_cancel_left same
    obtain ⟨rfl, rest⟩ := text_unique a b formed.1 shaped.1 (fun leaf member => clean leaf (List.mem_append_left _ member))
      (fun leaf member => neat leaf (List.mem_append_left _ member)) (ends_following _ _) (ends_following _ _) inner
    obtain ⟨rfl, ends⟩ := members_unique as bs formed.2 shaped.2 (fun leaf member => clean leaf (List.mem_append_right _ member))
      (fun leaf member => neat leaf (List.mem_append_right _ member)) rest
    exact ⟨rfl, ends⟩

end

end Tree

/-- What words after each other stand for, of which there may be none. -/
def Tree.sequence (trees : List Tree) : List Tree := if trees.isEmpty then [.single .nothing] else trees

def Node.leaf : Node → Leaf
  | .named iri => .iri iri
  | .blank node => .word node.text

def Term.leaf : Term → Leaf
  | .resource node => node.leaf
  | .literal value => .literal value

def PropertyExpression.tree : PropertyExpression → Tree
  | .named iri => .single (.iri iri)
  | .inverse iri => .node "ObjectInverseOf" [.single (.iri iri)]

def cardinalityTree (cardinality : UInt32) : Tree := .single (.word (cardinalityText cardinality))

def FacetRestriction.trees (restriction : FacetRestriction) : List Tree :=
  [.single (.iri restriction.facet), .single (.literal restriction.value)]

namespace DataRange

mutual

def tree : DataRange → Tree
  | .datatype iri => .single (.iri iri)
  | .combination junction operands => .node ("Data" ++ junction.name) (trees operands)
  | .complement operand => .node "DataComplementOf" [operand.tree]
  | .oneOf values => .node "DataOneOf" (values.map fun value => .single (.literal value))
  | .restriction base facets =>
    .node "DatatypeRestriction" (.single (.iri base) :: Tree.sequence (facets.flatMap FacetRestriction.trees))

def trees : List DataRange → List Tree
  | [] => []
  | range :: rest => range.tree :: trees rest

end

end DataRange

namespace ClassExpression

mutual

def tree : ClassExpression → Tree
  | .named iri => .single (.iri iri)
  | .combination junction operands => .node ("Object" ++ junction.name) (trees operands)
  | .complement operand => .node "ObjectComplementOf" [operand.tree]
  | .oneOf individuals => .node "ObjectOneOf" (individuals.map fun node => .single node.leaf)
  | .objectValues quantifier property filler => .node ("Object" ++ quantifier.name) [property.tree, filler.tree]
  | .objectHasValue property individual => .node "ObjectHasValue" [property.tree, .single individual.leaf]
  | .hasSelf property => .node "ObjectHasSelf" [property.tree]
  | .objectCardinality bound cardinality property none =>
    .node ("Object" ++ bound.name) [cardinalityTree cardinality, property.tree]
  | .objectCardinality bound cardinality property (some filler) =>
    .node ("Object" ++ bound.name) [cardinalityTree cardinality, property.tree, filler.tree]
  | .dataValues quantifier property filler => .node ("Data" ++ quantifier.name) [.single (.iri property), filler.tree]
  | .dataHasValue property value => .node "DataHasValue" [.single (.iri property), .single (.literal value)]
  | .dataCardinality bound cardinality property filler =>
    .node ("Data" ++ bound.name)
      (cardinalityTree cardinality :: .single (.iri property) :: (filler.map DataRange.tree).toList)

def trees : List ClassExpression → List Tree
  | [] => []
  | expression :: rest => expression.tree :: trees rest

end

end ClassExpression

def Rule.variableTree (iri : Iri) : Tree := .node "Variable" [.single (.iri iri)]

def IndividualArgument.tree : IndividualArgument → Tree
  | .variable iri => Rule.variableTree iri
  | .individual node => .single node.leaf

def DataArgument.tree : DataArgument → Tree
  | .variable iri => Rule.variableTree iri
  | .literal value => .single (.literal value)

def Atom.tree : Atom → Tree
  | .cls expression argument => .node "ClassAtom" [expression.tree, argument.tree]
  | .dataRange range argument => .node "DataRangeAtom" [range.tree, argument.tree]
  | .objectProperty property subject object =>
    .node "ObjectPropertyAtom" [property.tree, subject.tree, object.tree]
  | .dataProperty property subject object =>
    .node "DataPropertyAtom" [.single (.iri property), subject.tree, object.tree]
  | .sameIndividual first second => .node "SameIndividualAtom" [first.tree, second.tree]
  | .differentIndividuals first second => .node "DifferentIndividualsAtom" [first.tree, second.tree]
  | .builtin predicate arguments =>
    .node "BuiltInAtom" (.single (.iri predicate) :: Tree.sequence (arguments.map DataArgument.tree))

namespace Annotation

mutual

def tree : Annotation → Tree
  | ⟨property, value, annotations⟩ =>
    .node "Annotation" (trees annotations ++ [.single (.iri property), .single value.leaf])

def trees : List Annotation → List Tree
  | [] => []
  | note :: rest => note.tree :: trees rest

end

end Annotation

section Texts

theorem Node.text_leaf (node : Node) : node.leaf.text = node.text := by cases node <;> rfl

theorem Term.text_leaf (term : Term) : term.leaf.text = term.text := by
  cases term with
  | resource node => exact node.text_leaf
  | literal => rfl

theorem PropertyExpression.text_tree (property : PropertyExpression) : property.tree.text = property.text := by
  cases property <;> rfl

/-- A sequence of words is one word for the list it stands in. -/
theorem texts_sequence (word : String) (trees : List Tree) :
    spaced (word :: Tree.texts (Tree.sequence trees)) = spaced [word, spaced (trees.map Tree.text)] := by
  cases trees with
  | nil => rfl
  | cons tree rest => simp [Tree.sequence, Tree.texts_eq_map, spaced]

private theorem spaced_facets (facets : List FacetRestriction) :
    spaced ((facets.flatMap FacetRestriction.trees).map Tree.text) = spaced (facets.map FacetRestriction.text) := by
  induction facets with
  | nil => rfl
  | cons restriction rest ih =>
    cases rest with
    | nil => rfl
    | cons next others =>
      have more : ((next :: others).flatMap FacetRestriction.trees).map Tree.text ≠ [] := by
        simp [FacetRestriction.trees]
      obtain ⟨word, words, shape⟩ := List.exists_cons_of_ne_nil more
      rw [List.flatMap_cons, List.map_append, shape]
      rw [shape] at ih
      simp [FacetRestriction.trees, Tree.text, Leaf.text, spaced, FacetRestriction.text, ih, String.append_assoc]

namespace DataRange

mutual

theorem text_tree : ∀ range : DataRange, range.tree.text = range.text
  | .datatype _ => rfl
  | .combination junction operands => by rw [tree, Tree.text, texts_trees, text]
  | .complement operand => by simp [tree, Tree.text, Tree.texts, text, text_tree operand]
  | .oneOf values => by
    rw [tree, Tree.text, Tree.texts_eq_map, List.map_map, text]
    rfl
  | .restriction base facets => by
    rw [tree, Tree.text, Tree.texts, applied, texts_sequence, spaced_facets, text]
    rfl

theorem texts_trees : ∀ ranges : List DataRange, Tree.texts (trees ranges) = texts ranges
  | [] => rfl
  | range :: rest => by rw [trees, Tree.texts, texts, text_tree range, texts_trees rest]

end

end DataRange

namespace ClassExpression

mutual

theorem text_tree : ∀ expression : ClassExpression, expression.tree.text = expression.text
  | .named _ => rfl
  | .combination junction operands => by rw [tree, Tree.text, texts_trees, text]
  | .complement operand => by simp [tree, Tree.text, Tree.texts, text, text_tree operand]
  | .oneOf individuals => by
    rw [tree, Tree.text, Tree.texts_eq_map, List.map_map, text]
    refine congrArg _ (List.map_congr_left fun node _ => ?_)
    exact node.text_leaf
  | .objectValues _ property filler => by
    simp [tree, Tree.text, Tree.texts, text, text_tree filler, property.text_tree]
  | .objectHasValue property individual => by
    simp [tree, Tree.text, Tree.texts, text, property.text_tree, individual.text_leaf]
  | .hasSelf property => by simp [tree, Tree.text, Tree.texts, text, property.text_tree]
  | .objectCardinality _ _ property none => by
    simp [tree, Tree.text, Tree.texts, text, property.text_tree, cardinalityTree, Leaf.text]
  | .objectCardinality _ _ property (some filler) => by
    simp [tree, Tree.text, Tree.texts, text, property.text_tree, cardinalityTree, Leaf.text, text_tree filler]
  | .dataValues _ property filler => by simp [tree, Tree.text, Tree.texts, text, filler.text_tree, Leaf.text]
  | .dataHasValue property value => by simp [tree, Tree.text, Tree.texts, text, Leaf.text]
  | .dataCardinality _ _ property none => by simp [tree, Tree.text, Tree.texts, text, cardinalityTree, Leaf.text]
  | .dataCardinality _ _ property (some filler) => by
    simp [tree, Tree.text, Tree.texts, text, cardinalityTree, Leaf.text, filler.text_tree]

theorem texts_trees : ∀ expressions : List ClassExpression, Tree.texts (trees expressions) = texts expressions
  | [] => rfl
  | expression :: rest => by rw [trees, Tree.texts, texts, text_tree expression, texts_trees rest]

end

end ClassExpression

theorem IndividualArgument.text_tree (argument : IndividualArgument) : argument.tree.text = argument.text := by
  cases argument with
  | «variable» => rfl
  | individual node => exact node.text_leaf

theorem DataArgument.text_tree (argument : DataArgument) : argument.tree.text = argument.text := by
  cases argument <;> rfl

theorem Atom.text_tree (atom : Atom) : atom.tree.text = atom.text := by
  cases atom with
  | builtin predicate arguments =>
    rw [tree, Tree.text, Tree.texts, applied, texts_sequence, List.map_map, text]
    simp [applied, Tree.text, Leaf.text, Function.comp_def, DataArgument.text_tree]
  | _ =>
    simp [tree, Tree.text, Tree.texts, text, ClassExpression.text_tree, DataRange.text_tree, Leaf.text,
      PropertyExpression.text_tree, IndividualArgument.text_tree, DataArgument.text_tree]

namespace Annotation

mutual

theorem text_tree : ∀ note : Annotation, note.tree.text = note.text
  | ⟨property, value, annotations⟩ => by
    rw [tree, Tree.text, Tree.texts_eq_map, List.map_append, ← Tree.texts_eq_map, texts_trees annotations, text]
    simp only [List.map_cons, List.map_nil, Tree.text, value.text_leaf]
    rfl

theorem texts_trees : ∀ notes : List Annotation, Tree.texts (trees notes) = texts notes
  | [] => rfl
  | note :: rest => by rw [trees, Tree.texts, texts, text_tree note, texts_trees rest]

end

end Annotation

end Texts

end OwlGraph
