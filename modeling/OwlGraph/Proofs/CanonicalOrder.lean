import OwlGraph.Axiom.Basic

/-! Sets as ordered lists. Ordering a list keeps its members, depends only on them as long as
different members have different keys, and does nothing to a list that is ordered already. So
normalizing twice is normalizing once. -/

namespace OwlGraph.Canonical

theorem nodup_eraseDups {α : Type} [BEq α] [LawfulBEq α] (items : List α) : items.eraseDups.Nodup := by
  induction length : items.length using Nat.strongRecOn generalizing items with
  | ind size ih =>
    cases items with
    | nil => exact List.nodup_nil
    | cons item rest =>
      rw [List.eraseDups_cons, List.nodup_cons, List.mem_eraseDups]
      refine ⟨by simp, ih _ ?_ _ rfl⟩
      rw [← length]
      exact Nat.lt_succ_of_le (List.length_filter_le _ _)

theorem eraseDups_concat {α : Type} [DecidableEq α] (items : List α) (item : α) :
    (items ++ [item]).eraseDups = if item ∈ items then items.eraseDups else items.eraseDups ++ [item] := by
  rw [List.eraseDups_append, List.removeAll]
  split
  · next present => simp [present]
  · next absent => simp [absent, List.eraseDups_cons]

theorem eraseDups_of_nodup {α : Type} [DecidableEq α] {items : List α} (distinct : items.Nodup) : items.eraseDups = items := by
  induction items with
  | nil => rfl
  | cons item rest ih =>
    obtain ⟨absent, distinct⟩ := List.nodup_cons.mp distinct
    have apart : ∀ other ∈ rest, (!other == item) = true := by
      intro other member
      rw [Bool.not_eq_true', beq_eq_false_iff_ne]
      exact fun same => absent (same ▸ member)
    rw [List.eraseDups_cons, List.filter_eq_self.mpr apart, ih distinct]

section Ordered

variable {α κ : Type} [DecidableEq κ]

theorem collapse_cons (key : α → κ) (item : α) (rest : List α) :
    collapse key (item :: rest) = match collapse key rest with
      | [] => [item]
      | next :: others => if key item = key next then item :: others else item :: next :: others := rfl

theorem collapse_sublist (key : α → κ) (items : List α) : (collapse key items).Sublist items := by
  induction items with
  | nil => exact List.Sublist.slnil
  | cons item rest ih =>
    rw [collapse_cons]
    split
    next empty => exact (List.nil_sublist rest).cons_cons item
    next next others kept =>
      rw [kept] at ih
      split
      · exact ((List.sublist_cons_self next others).trans ih).cons_cons item
      · exact ih.cons_cons item

/-- Every member leaves one of its key behind. -/
theorem exists_mem_collapse (key : α → κ) {items : List α} {item : α} (member : item ∈ items) :
    ∃ kept ∈ collapse key items, key kept = key item := by
  induction items with
  | nil => cases member
  | cons first rest ih =>
    rw [collapse_cons]
    rcases List.mem_cons.mp member with rfl | later
    · split
      · exact ⟨item, List.mem_singleton_self item, rfl⟩
      · split <;> exact ⟨item, List.mem_cons_self, rfl⟩
    · obtain ⟨kept, inside, same⟩ := ih later
      split
      next empty => rw [empty] at inside; cases inside
      next next others found =>
        rw [found] at inside
        split
        next equal =>
          rcases List.mem_cons.mp inside with rfl | behind
          · exact ⟨first, List.mem_cons_self, equal.trans same⟩
          · exact ⟨kept, List.mem_cons_of_mem _ behind, same⟩
        · exact ⟨kept, List.mem_cons_of_mem _ inside, same⟩

theorem collapse_of_pairwise_ne (key : α → κ) {items : List α}
    (distinct : items.Pairwise fun a b => key a ≠ key b) : collapse key items = items := by
  induction items with
  | nil => rfl
  | cons item rest ih =>
    obtain ⟨apart, later⟩ := List.pairwise_cons.mp distinct
    rw [collapse_cons, ih later]
    cases rest with
    | nil => rfl
    | cons next others => simp [apart next List.mem_cons_self]

/-- What a comparison needs for ordered lists to be canonical. -/
structure Ordering (le : κ → κ → Bool) : Prop where
  total : ∀ a b, le a b || le b a
  trans : ∀ a b c, le a b → le b c → le a c
  antisymm : ∀ a b, le a b → le b a → a = b

variable {le : κ → κ → Bool} (ordering : Ordering le) (key : α → κ)

/-- The items with their keys, sorted by them. -/
private def sorted (le : κ → κ → Bool) (key : α → κ) (items : List α) : List (κ × α) :=
  (items.map fun item => (key item, item)).mergeSort fun a b => le a.1 b.1

omit [DecidableEq κ] in
private theorem sorted_perm (items : List α) :
    (sorted le key items).Perm (items.map fun item => (key item, item)) := List.mergeSort_perm _ _

omit [DecidableEq κ] in
private theorem mem_sorted {items : List α} {entry : κ × α} :
    entry ∈ sorted le key items ↔ entry.1 = key entry.2 ∧ entry.2 ∈ items := by
  rw [(sorted_perm key items).mem_iff, List.mem_map]
  constructor
  · rintro ⟨item, member, rfl⟩
    exact ⟨rfl, member⟩
  · rintro ⟨same, member⟩
    exact ⟨entry.2, member, by rw [← same]⟩

theorem mem_of_mem_ordered {items : List α} {item : α} (member : item ∈ ordered le key items) :
    item ∈ items := by
  obtain ⟨entry, kept, rfl⟩ := List.mem_map.mp member
  exact ((mem_sorted key).mp ((collapse_sublist _ _).subset kept)).2

theorem exists_mem_ordered {items : List α} {item : α} (member : item ∈ items) :
    ∃ kept ∈ ordered le key items, key kept = key item := by
  have listed : (key item, item) ∈ sorted le key items := (mem_sorted key).mpr ⟨rfl, member⟩
  obtain ⟨entry, kept, same⟩ := exists_mem_collapse Prod.fst listed
  have own := ((mem_sorted key).mp ((collapse_sublist _ _).subset kept)).1
  exact ⟨entry.2, List.mem_map_of_mem kept, own.symm.trans same⟩

theorem ordered_eq_nil {items : List α} : ordered le key items = [] ↔ items = [] := by
  constructor
  · intro empty
    cases items with
    | nil => rfl
    | cons item rest =>
      obtain ⟨kept, member, -⟩ := exists_mem_ordered key (List.mem_cons_self (a := item) (l := rest))
      rw [empty] at member
      cases member
  · rintro rfl
    simp [ordered, collapse]

include ordering

omit [DecidableEq κ] in
private theorem pairwise_sorted (items : List α) :
    (sorted le key items).Pairwise fun a b => le a.1 b.1 = true :=
  List.pairwise_mergeSort (fun a b c => ordering.trans a.1 b.1 c.1) (fun a b => ordering.total a.1 b.1) _

private theorem pairwise_collapse {entries : List (κ × α)} (sorted : entries.Pairwise fun a b => le a.1 b.1) :
    (collapse Prod.fst entries).Pairwise fun a b => le a.1 b.1 = true ∧ a.1 ≠ b.1 := by
  induction entries with
  | nil => exact List.Pairwise.nil
  | cons entry rest ih =>
    obtain ⟨least, later⟩ := List.pairwise_cons.mp sorted
    have tail := ih later
    have inside := (collapse_sublist Prod.fst rest).subset
    rw [collapse_cons]
    split
    · exact List.pairwise_singleton _ _
    next next others found =>
      rw [found] at tail inside
      obtain ⟨smallest, behind⟩ := List.pairwise_cons.mp tail
      split
      next equal =>
        refine List.pairwise_cons.mpr ⟨fun other member => ?_, behind⟩
        obtain ⟨below, apart⟩ := smallest other member
        exact ⟨equal ▸ below, fun same => apart (equal ▸ same)⟩
      next apart =>
        refine List.pairwise_cons.mpr ⟨fun other member => ?_, tail⟩
        refine ⟨least other (inside member), fun same => ?_⟩
        rcases List.mem_cons.mp member with rfl | further
        · exact apart same
        · obtain ⟨below, distinct⟩ := smallest other further
          exact distinct (ordering.antisymm _ _ below (same ▸ least next (inside List.mem_cons_self)))

/-- The keys of an ordered list increase strictly. -/
theorem pairwise_ordered (items : List α) :
    (ordered le key items).Pairwise fun a b => le (key a) (key b) = true ∧ key a ≠ key b := by
  have entries := pairwise_collapse ordering (pairwise_sorted ordering key items)
  refine List.pairwise_map.mpr (entries.imp_of_mem ?_)
  intro a b left right increasing
  have first := ((mem_sorted key).mp ((collapse_sublist _ _).subset left)).1
  have second := ((mem_sorted key).mp ((collapse_sublist _ _).subset right)).1
  rw [← first, ← second]
  exact increasing

omit ordering in
theorem ordered_of_pairwise {items : List α}
    (increasing : items.Pairwise fun a b => le (key a) (key b) = true ∧ key a ≠ key b) :
    ordered le key items = items := by
  have unmoved : sorted le key items = items.map fun item => (key item, item) :=
    List.mergeSort_of_pairwise (List.pairwise_map.mpr (increasing.imp And.left))
  have kept : collapse Prod.fst (items.map fun item => (key item, item)) =
      items.map fun item => (key item, item) :=
    collapse_of_pairwise_ne _ (List.pairwise_map.mpr (increasing.imp And.right))
  change (collapse Prod.fst (sorted le key items)).map Prod.snd = items
  rw [unmoved, kept, List.map_map]
  exact List.map_id' items

theorem ordered_ordered (items : List α) :
    ordered le key (ordered le key items) = ordered le key items :=
  ordered_of_pairwise key (pairwise_ordered ordering key items)

omit ordering in
theorem mem_ordered {items : List α} (injective : ∀ a ∈ items, ∀ b ∈ items, key a = key b → a = b) {item : α} :
    item ∈ ordered le key items ↔ item ∈ items := by
  constructor
  · exact mem_of_mem_ordered key
  · intro member
    obtain ⟨kept, inside, same⟩ : ∃ kept ∈ ordered le key items, key kept = key item := exists_mem_ordered key member
    rwa [injective item member kept (mem_of_mem_ordered key inside) same.symm]

theorem nodup_ordered (items : List α) : (ordered le key items).Nodup :=
  (pairwise_ordered ordering key items).imp fun apart same => apart.2 (congrArg key same)

/-- Sets with the same members are the same list. -/
theorem ordered_congr {items others : List α} (same : ∀ item, item ∈ items ↔ item ∈ others)
    (injective : ∀ a ∈ items, ∀ b ∈ items, key a = key b → a = b) :
    ordered le key items = ordered le key others := by
  have injective' : ∀ a ∈ others, ∀ b ∈ others, key a = key b → a = b := fun a left b right =>
    injective a ((same a).mpr left) b ((same b).mpr right)
  refine List.Perm.eq_of_pairwise ?_ ((pairwise_ordered ordering key items).imp And.left)
    ((pairwise_ordered ordering key others).imp And.left) ?_
  · intro a b left right below above
    exact injective a (mem_of_mem_ordered key left) b ((same b).mpr (mem_of_mem_ordered key right))
      (ordering.antisymm _ _ below above)
  · apply (List.perm_ext_iff_of_nodup (nodup_ordered ordering key items) (nodup_ordered ordering key others)).mpr
    intro item
    rw [mem_ordered key injective, mem_ordered key injective', same]

end Ordered

theorem textOrdering : Ordering textLe where
  total a b := by simpa [textLe] using String.le_total a b
  trans a b c below above := by
    simp only [textLe, decide_eq_true_eq] at *
    exact String.le_trans below above
  antisymm a b below above := by
    simp only [textLe, decide_eq_true_eq] at *
    exact String.le_antisymm below above

section ByText

variable {α : Type} (text : α → String)

theorem mem_byText {items : List α} (injective : ∀ a ∈ items, ∀ b ∈ items, text a = text b → a = b) {item : α} :
    item ∈ byText text items ↔ item ∈ items := mem_ordered text injective

theorem byText_congr {items others : List α} (same : ∀ item, item ∈ items ↔ item ∈ others)
    (injective : ∀ a ∈ items, ∀ b ∈ items, text a = text b → a = b) : byText text items = byText text others :=
  ordered_congr textOrdering text same injective

@[simp] theorem byText_byText (items : List α) : byText text (byText text items) = byText text items :=
  ordered_ordered textOrdering text items

theorem mem_of_mem_byText {items : List α} {item : α} : item ∈ byText text items → item ∈ items :=
  mem_of_mem_ordered text

@[simp] theorem byText_eq_nil {items : List α} : byText text items = [] ↔ items = [] := ordered_eq_nil text

/-- Normalizing the members of an ordered set of normal members changes nothing. -/
theorem byText_map_byText {f : α → α} {items : List α} (fixed : ∀ item ∈ items, f (f item) = f item) :
    byText text ((byText text (items.map f)).map f) = byText text (items.map f) := by
  have unchanged : (byText text (items.map f)).map f = byText text (items.map f) := by
    refine (List.map_congr_left fun item member => ?_).trans (List.map_id' _)
    obtain ⟨source, inside, rfl⟩ := List.mem_map.mp (mem_of_mem_byText text member)
    exact fixed source inside
  rw [unchanged, byText_byText]

end ByText

end OwlGraph.Canonical

namespace OwlGraph

open Canonical

theorem Iri.ordering : Ordering fun a b : Iri => textLe a.value b.value where
  total a b := textOrdering.total a.value b.value
  trans a b c := textOrdering.trans a.value b.value c.value
  antisymm a b below above := congrArg Iri.mk (textOrdering.antisymm a.value b.value below above)

@[simp] theorem Iri.mem_canonical {iris : List Iri} {iri : Iri} : iri ∈ Iri.canonical iris ↔ iri ∈ iris :=
  mem_ordered id fun _ _ _ _ same => same

theorem Iri.canonical_congr {iris others : List Iri} (same : ∀ iri, iri ∈ iris ↔ iri ∈ others) :
    Iri.canonical iris = Iri.canonical others :=
  ordered_congr Iri.ordering id same fun _ _ _ _ equal => equal

namespace PropertyExpression

theorem ordering : Ordering PropertyExpression.le where
  total a b := by cases a <;> cases b <;> first | rfl | exact Iri.ordering.total _ _
  trans a b c below above := by
    cases a <;> cases b <;> cases c <;> first
      | rfl
      | exact Iri.ordering.trans _ _ _ below above
      | exact absurd below Bool.false_ne_true
      | exact absurd above Bool.false_ne_true
  antisymm a b below above := by
    cases a <;> cases b <;> first
      | exact congrArg _ (Iri.ordering.antisymm _ _ below above)
      | exact absurd below Bool.false_ne_true
      | exact absurd above Bool.false_ne_true

@[simp] theorem canonical_canonical (properties : List PropertyExpression) :
    canonical (canonical properties) = canonical properties := ordered_ordered ordering id properties

end PropertyExpression

@[simp] theorem Iri.canonical_canonical (properties : List Iri) :
    Iri.canonical (Iri.canonical properties) = Iri.canonical properties :=
  ordered_ordered Iri.ordering id properties

namespace DataRange

mutual

@[simp] theorem normalize_normalize : ∀ range : DataRange, range.normalize.normalize = range.normalize
  | .datatype _ => rfl
  | .combination junction operands => by
    simp only [normalize, normalizeEach_eq_map]
    rw [byText_map_byText text (normalize_each operands)]
  | .complement operand => by simp only [normalize, normalize_normalize operand]
  | .oneOf values => by simp only [normalize, byText_byText]
  | .restriction _ _ => rfl

theorem normalize_each : ∀ (ranges : List DataRange), ∀ range ∈ ranges, range.normalize.normalize = range.normalize
  | [] => List.forall_mem_nil _
  | range :: rest => List.forall_mem_cons.mpr ⟨normalize_normalize range, normalize_each rest⟩

end

end DataRange

namespace ClassExpression

mutual

@[simp] theorem normalize_normalize : ∀ expression : ClassExpression,
    expression.normalize.normalize = expression.normalize
  | .named _ => rfl
  | .combination junction operands => by
    simp only [normalize, normalizeEach_eq_map]
    rw [byText_map_byText text (normalize_each operands)]
  | .complement operand => by simp only [normalize, normalize_normalize operand]
  | .oneOf individuals => by simp only [normalize, byText_byText]
  | .objectValues _ _ filler => by simp only [normalize, normalize_normalize filler]
  | .objectHasValue _ _ => rfl
  | .hasSelf _ => rfl
  | .objectCardinality _ _ _ none => rfl
  | .objectCardinality _ _ _ (some filler) => by simp only [normalize, normalize_normalize filler]
  | .dataValues _ _ filler => by simp only [normalize, DataRange.normalize_normalize]
  | .dataHasValue _ _ => rfl
  | .dataCardinality _ _ _ filler => by
    simp only [normalize, Option.map_map]
    cases filler <;> simp

theorem normalize_each : ∀ (expressions : List ClassExpression), ∀ expression ∈ expressions,
    expression.normalize.normalize = expression.normalize
  | [] => List.forall_mem_nil _
  | expression :: rest => List.forall_mem_cons.mpr ⟨normalize_normalize expression, normalize_each rest⟩

end

@[simp] theorem canonical_canonical (expressions : List ClassExpression) :
    canonical (canonical expressions) = canonical expressions :=
  byText_map_byText text (normalize_each expressions)

end ClassExpression

namespace Annotation

mutual

@[simp] theorem normalize_normalize : ∀ note : Annotation, note.normalize.normalize = note.normalize
  | ⟨property, value, notes⟩ => by
    simp only [normalize, normalizeEach_eq_map]
    rw [byText_map_byText text (normalize_each notes)]

theorem normalize_each : ∀ (notes : List Annotation), ∀ note ∈ notes, note.normalize.normalize = note.normalize
  | [] => List.forall_mem_nil _
  | note :: rest => List.forall_mem_cons.mpr ⟨normalize_normalize note, normalize_each rest⟩

end

@[simp] theorem canonical_canonical (notes : List Annotation) : canonical (canonical notes) = canonical notes :=
  byText_map_byText text (normalize_each notes)

@[simp] theorem canonical_eq_nil {notes : List Annotation} : canonical notes = [] ↔ notes = [] := by
  simp [canonical]

end Annotation

@[simp] theorem Atom.normalize_normalize (atom : Atom) : atom.normalize.normalize = atom.normalize := by
  cases atom <;> simp [Atom.normalize]

@[simp] theorem Atom.canonical_canonical (atoms : List Atom) :
    Atom.canonical (Atom.canonical atoms) = Atom.canonical atoms :=
  byText_map_byText Atom.text fun atom _ => atom.normalize_normalize

@[simp] theorem Axiom.normalize_normalize (statement : Axiom) :
    statement.normalize.normalize = statement.normalize := by
  cases statement with
  | inverseObjectProperties first second =>
    have normal : ∀ {p q : PropertyExpression}, p.le q = true →
        normalize (.inverseObjectProperties p q) = .inverseObjectProperties p q := fun inOrder => if_pos inOrder
    rcases (Bool.or_eq_true _ _).mp (PropertyExpression.ordering.total first second) with inOrder | turned
    · rw [normal inOrder, normal inOrder]
    · by_cases inOrder : first.le second = true
      · rw [normal inOrder, normal inOrder]
      · rw [show normalize (.inverseObjectProperties first second) = .inverseObjectProperties second first from
          if_neg inOrder, normal turned]
  | rule implication => simp [normalize, Rule.normalize]
  | _ => simp [normalize]

end OwlGraph
