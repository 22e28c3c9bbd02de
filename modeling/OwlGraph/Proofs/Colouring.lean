import Mathlib.Data.Finset.Card
import Mathlib.Data.List.Nodup
import OwlGraph.Ontology.Labels
import OwlGraph.Proofs.CanonicalOrder

/-! Colourings. Ranking gives equal colours to equal keys and keeps the order of the keys, and it
uses the colours below their number and no others. So a round of refinement only splits colours,
setting an individual apart splits one, and the rounds end with a colour for each individual. -/

namespace OwlGraph

open Canonical

namespace Colouring

section Orders

/-- Pairs are ordered by their second components where the first ones agree. -/
theorem pairOrdering {κ : Type} {le : κ → κ → Bool} (ordering : Ordering le) : Ordering (pairLe le) where
  total := by
    rintro ⟨i, a⟩ ⟨j, b⟩
    have total := ordering.total a b
    rcases Nat.lt_trichotomy i j with less | rfl | more <;> simp_all [pairLe]
  trans := by
    rintro ⟨i, a⟩ ⟨j, b⟩ ⟨k, c⟩ below above
    simp only [pairLe, Bool.or_eq_true, decide_eq_true_eq, Bool.and_eq_true, beq_iff_eq] at below above ⊢
    rcases below with less | ⟨rfl, first⟩ <;> rcases above with more | ⟨rfl, second⟩
    · exact .inl (Nat.lt_trans less more)
    · exact .inl less
    · exact .inl more
    · exact .inr ⟨rfl, ordering.trans _ _ _ first second⟩
  antisymm := by
    rintro ⟨i, a⟩ ⟨j, b⟩ below above
    simp only [pairLe, Bool.or_eq_true, decide_eq_true_eq, Bool.and_eq_true, beq_iff_eq] at below above
    rcases below with less | ⟨rfl, first⟩
    · rcases above with more | ⟨rfl, -⟩
      · exact absurd more (Nat.lt_asymm less)
      · exact absurd less (Nat.lt_irrefl _)
    · have second := (above.resolve_left (Nat.lt_irrefl _)).2
      rw [ordering.antisymm _ _ first second]

theorem textsOrdering : Ordering textsLe where
  total a b := by
    induction a generalizing b with
    | nil => simp [textsLe]
    | cons first rest ih =>
      cases b with
      | nil => simp [textsLe]
      | cons other others =>
        by_cases same : first = other
        · simpa [textsLe, same] using ih others
        · simpa [textsLe, same, Ne.symm same] using textOrdering.total first other
  trans a b c below above := by
    induction a generalizing b c with
    | nil => rfl
    | cons first rest ih =>
      cases b with
      | nil => cases below
      | cons second more =>
        cases c with
        | nil => cases above
        | cons third others =>
          rw [textsLe] at below above ⊢
          split at below <;> split at above <;> split
          next one two three => exact ih _ _ below above
          next one two three => exact absurd (one.trans two) three
          next one two three => exact absurd (one.symm.trans three) two
          next one two three => exact one ▸ above
          next one two three => exact absurd (three.trans two.symm) one
          next one two three => exact two ▸ below
          next one two three => exact absurd (textOrdering.antisymm _ _ below (three ▸ above)) one
          next one two three => exact textOrdering.trans _ _ _ below above
  antisymm a b below above := by
    induction a generalizing b with
    | nil =>
      cases b with
      | nil => rfl
      | cons => cases above
    | cons first rest ih =>
      cases b with
      | nil => cases below
      | cons other others =>
        rw [textsLe] at below above
        by_cases same : first = other
        · subst same
          rw [if_pos rfl] at below above
          rw [ih others below above]
        · rw [if_neg same] at below
          rw [if_neg (Ne.symm same)] at above
          exact absurd (textOrdering.antisymm _ _ below above) same

/-- What is set apart comes before what is not. -/
theorem apartOrdering : Ordering fun a b : Bool => !a || b where
  total := by decide
  trans := by decide
  antisymm := by decide

end Orders

/-- The individuals that are coloured. -/
def nodes (colouring : Colouring) : List BlankNode := colouring.map Prod.fst

/-- The colours that are given. -/
def used (colouring : Colouring) : Finset Nat := (colouring.map Prod.snd).toFinset

variable {colouring : Colouring} {node other : BlankNode}

theorem mem_used {colour : Nat} : colour ∈ colouring.used ↔ ∃ node, (node, colour) ∈ colouring := by simp [used]

theorem count_eq_card (colouring : Colouring) : colouring.count = colouring.used.card := by
  rw [count, used, ← List.toFinset_card_of_nodup (nodup_eraseDups _)]
  congr 1
  ext colour
  simp

theorem count_le_length (colouring : Colouring) : colouring.count ≤ colouring.length := by
  rw [count_eq_card, ← @List.length_map _ _ colouring Prod.snd]
  exact List.toFinset_card_le _

/-- An entry of a colouring of different individuals tells the colour of its own. -/
theorem colour_of_mem (distinct : colouring.nodes.Nodup) {colour : Nat} (member : (node, colour) ∈ colouring) :
    colouring.lookup node = some colour := by
  induction colouring with
  | nil => cases member
  | cons entry rest ih =>
    obtain ⟨fresh, distinct⟩ := List.nodup_cons.mp distinct
    rcases List.mem_cons.mp member with rfl | later
    · exact List.lookup_cons_self
    · have apart : node ≠ entry.1 := fun same => fresh (same ▸ List.mem_map_of_mem later)
      rw [List.lookup_cons, beq_eq_false_iff_ne.mpr apart]
      exact ih distinct later

theorem exists_colour (member : node ∈ colouring.nodes) : ∃ colour, (node, colour) ∈ colouring := by
  obtain ⟨⟨_, colour⟩, inside, rfl⟩ := List.mem_map.mp member
  exact ⟨colour, inside⟩

theorem mem_of_mem_nodes (distinct : colouring.nodes.Nodup) (member : node ∈ colouring.nodes) :
    (node, colouring.colour node) ∈ colouring := by
  obtain ⟨colour, inside⟩ := exists_colour member
  rw [Colouring.colour, colour_of_mem distinct inside]
  exact inside

section Rank

variable {κ : Type} [DecidableEq κ] {le : κ → κ → Bool} (ordering : Ordering le) {keys : List (BlankNode × κ)}

/-- The keys, each once and in their order. -/
def palette (le : κ → κ → Bool) (keys : List (BlankNode × κ)) : List κ := ordered le id (keys.map Prod.snd)

theorem rank_eq (le : κ → κ → Bool) (keys : List (BlankNode × κ)) :
    rank le keys = keys.map fun entry => (entry.1, (palette le keys).idxOf entry.2) := rfl

@[simp] theorem nodes_rank : (rank le keys).nodes = keys.map Prod.fst := by
  rw [nodes, rank_eq, List.map_map]
  rfl

theorem mem_palette {key : κ} : key ∈ palette le keys ↔ key ∈ keys.map Prod.snd := by
  refine ⟨mem_of_mem_ordered id, fun member => ?_⟩
  obtain ⟨kept, inside, rfl⟩ := @exists_mem_ordered _ _ _ le id _ _ member
  exact inside

theorem mem_palette_of_mem {key : κ} (member : (node, key) ∈ keys) : key ∈ palette le keys :=
  mem_palette.mpr (List.mem_map_of_mem (f := Prod.snd) member)

include ordering in
theorem pairwise_palette : (palette le keys).Pairwise fun a b => le a b = true ∧ a ≠ b := pairwise_ordered ordering id _

include ordering in
theorem nodup_palette : (palette le keys).Nodup := (pairwise_palette ordering).imp And.right

include ordering in
theorem idxOf_palette_lt {a b : κ} (left : a ∈ palette le keys) (right : b ∈ palette le keys) :
    (palette le keys).idxOf a < (palette le keys).idxOf b ↔ le a b = true ∧ a ≠ b := by
  have increasing := List.pairwise_iff_getElem.mp (@pairwise_palette _ _ _ ordering keys)
  have before : ∀ {a b : κ}, a ∈ palette le keys → b ∈ palette le keys →
      (palette le keys).idxOf a < (palette le keys).idxOf b → le a b = true ∧ a ≠ b := by
    intro a b left right less
    have step := increasing _ _ (List.idxOf_lt_length_of_mem left) (List.idxOf_lt_length_of_mem right) less
    rwa [List.getElem_idxOf, List.getElem_idxOf] at step
  refine ⟨before left right, fun ⟨below, apart⟩ => ?_⟩
  rcases Nat.lt_trichotomy ((palette le keys).idxOf a) ((palette le keys).idxOf b) with less | same | more
  · exact less
  · exact absurd ((List.idxOf_inj left).mp same) apart
  · exact absurd (ordering.antisymm _ _ below (before right left more).1) apart

theorem colour_rank (distinct : (keys.map Prod.fst).Nodup) {key : κ} (member : (node, key) ∈ keys) :
    (rank le keys).colour node = (palette le keys).idxOf key := by
  have inside : (node, (palette le keys).idxOf key) ∈ rank le keys :=
    List.mem_map_of_mem (f := fun entry => (entry.1, (palette le keys).idxOf entry.2)) member
  rw [Colouring.colour, colour_of_mem (by rwa [nodes_rank]) inside]
  rfl

include ordering in
/-- Colours are ordered as the keys are. -/
theorem colour_rank_lt (distinct : (keys.map Prod.fst).Nodup) {a b : κ} (left : (node, a) ∈ keys)
    (right : (other, b) ∈ keys) :
    (rank le keys).colour node < (rank le keys).colour other ↔ le a b = true ∧ a ≠ b := by
  rw [colour_rank distinct left, colour_rank distinct right,
    idxOf_palette_lt ordering (mem_palette_of_mem left) (mem_palette_of_mem right)]

/-- Colours are equal where the keys are. -/
theorem colour_rank_inj (distinct : (keys.map Prod.fst).Nodup) {a b : κ} (left : (node, a) ∈ keys)
    (right : (other, b) ∈ keys) : (rank le keys).colour node = (rank le keys).colour other ↔ a = b := by
  rw [colour_rank distinct left, colour_rank distinct right, List.idxOf_inj (mem_palette_of_mem left)]

include ordering in
theorem used_rank : (rank le keys).used = Finset.range (palette le keys).length := by
  ext colour
  rw [mem_used, Finset.mem_range, rank_eq]
  constructor
  · rintro ⟨node, member⟩
    obtain ⟨entry, inside, same⟩ := List.mem_map.mp member
    have below := List.idxOf_lt_length_of_mem (@mem_palette_of_mem entry.1 _ _ le keys _ inside)
    rwa [show (palette le keys).idxOf entry.2 = colour from congrArg Prod.snd same] at below
  · intro below
    obtain ⟨⟨node, key⟩, inside, same⟩ := List.mem_map.mp (mem_palette.mp (List.getElem_mem below))
    refine ⟨node, List.mem_map.mpr ⟨(node, key), inside, ?_⟩⟩
    rw [show key = (palette le keys)[colour] from same, (nodup_palette ordering).idxOf_getElem]

include ordering in
theorem count_rank : (rank le keys).count = (keys.map Prod.snd).toFinset.card := by
  rw [count_eq_card, used_rank ordering, Finset.card_range, ← List.toFinset_card_of_nodup (nodup_palette ordering)]
  congr 1
  ext key
  rw [List.mem_toFinset, List.mem_toFinset, mem_palette]

end Rank

/-- The colours given are those below their number. -/
def Dense (colouring : Colouring) : Prop := colouring.used = Finset.range colouring.count

theorem dense_rank {κ : Type} [DecidableEq κ] {le : κ → κ → Bool} (ordering : Ordering le) (keys : List (BlankNode × κ)) :
    (rank le keys).Dense := by
  have used := @used_rank _ _ _ ordering keys
  rw [Dense, count_eq_card, used, Finset.card_range]

section Rounds

variable (facts : List AnnotatedAxiom) (chosen : BlankNode)

/-- What a round of refinement goes by: the colour and the views. -/
def keys (facts : List AnnotatedAxiom) (colouring : Colouring) : List (BlankNode × Nat × List String) :=
  colouring.map fun entry => (entry.1, entry.2, colouring.views facts entry.1)

/-- What sets one individual apart: the colour, and whether it is another one. -/
def marks (chosen : BlankNode) (colouring : Colouring) : List (BlankNode × Nat × Bool) :=
  colouring.map fun entry => (entry.1, entry.2, entry.1 != chosen)

theorem refine_eq : colouring.refine facts = rank (pairLe textsLe) (keys facts colouring) := rfl

theorem setApart_eq : colouring.setApart chosen = rank (pairLe fun a b => !a || b) (marks chosen colouring) := rfl

theorem nodes_keys : (keys facts colouring).map Prod.fst = colouring.nodes := by simp [keys, nodes]

theorem nodes_marks : (marks chosen colouring).map Prod.fst = colouring.nodes := by simp [marks, nodes]

@[simp] theorem nodes_refine : (colouring.refine facts).nodes = colouring.nodes := by
  rw [refine_eq, nodes_rank, nodes_keys]

@[simp] theorem nodes_setApart : (colouring.setApart chosen).nodes = colouring.nodes := by
  rw [setApart_eq, nodes_rank, nodes_marks]

theorem mem_keys {facts : List AnnotatedAxiom} {colour : Nat} (member : (node, colour) ∈ colouring) :
    (node, colour, colouring.views facts node) ∈ keys facts colouring :=
  List.mem_map_of_mem (f := fun entry : BlankNode × Nat => (entry.1, entry.2, colouring.views facts entry.1)) member

theorem mem_marks {chosen : BlankNode} {colour : Nat} (member : (node, colour) ∈ colouring) :
    (node, colour, node != chosen) ∈ marks chosen colouring :=
  List.mem_map_of_mem (f := fun entry : BlankNode × Nat => (entry.1, entry.2, entry.1 != chosen)) member

/-- Individuals are coloured alike after a round if they were before and have the same views. -/
theorem colour_refine_inj {facts : List AnnotatedAxiom} (distinct : colouring.nodes.Nodup)
    (left : node ∈ colouring.nodes) (right : other ∈ colouring.nodes) :
    (colouring.refine facts).colour node = (colouring.refine facts).colour other ↔
      colouring.colour node = colouring.colour other ∧ colouring.views facts node = colouring.views facts other := by
  rw [refine_eq, colour_rank_inj (by rwa [nodes_keys]) (mem_keys (mem_of_mem_nodes distinct left))
    (mem_keys (mem_of_mem_nodes distinct right)), Prod.mk.injEq]

/-- A round of refinement keeps the order of different colours. -/
theorem colour_refine_lt {facts : List AnnotatedAxiom} (distinct : colouring.nodes.Nodup)
    (left : node ∈ colouring.nodes) (right : other ∈ colouring.nodes)
    (less : colouring.colour node < colouring.colour other) :
    (colouring.refine facts).colour node < (colouring.refine facts).colour other := by
  rw [refine_eq, colour_rank_lt (pairOrdering textsOrdering) (by rwa [nodes_keys])
    (mem_keys (mem_of_mem_nodes distinct left)) (mem_keys (mem_of_mem_nodes distinct right))]
  exact ⟨by simp [pairLe, less], fun same => absurd (congrArg Prod.fst same) (Nat.ne_of_lt less)⟩

theorem dense_refine : (colouring.refine facts).Dense := dense_rank (pairOrdering textsOrdering) _

theorem dense_setApart : (colouring.setApart chosen).Dense := dense_rank (pairOrdering apartOrdering) _

private theorem used_eq_image {κ : Type} [DecidableEq κ] {entries : List (BlankNode × Nat × κ)}
    (same : entries.map (fun entry => (entry.1, entry.2.1)) = colouring) :
    colouring.used = (entries.map Prod.snd).toFinset.image Prod.fst := by
  ext colour
  rw [mem_used, ← same]
  aesop

/-- A round of refinement loses no colour. -/
theorem count_le_count_refine : colouring.count ≤ (colouring.refine facts).count := by
  have same : (keys facts colouring).map (fun entry => (entry.1, entry.2.1)) = colouring := by
    rw [keys, List.map_map]
    exact List.map_id' colouring
  rw [refine_eq, count_rank (pairOrdering textsOrdering), count_eq_card, used_eq_image same]
  exact Finset.card_image_le

/-- Setting one of several individuals of a colour apart adds a colour. -/
theorem count_lt_count_setApart {colour : Nat} (apart : other ≠ chosen) (left : (chosen, colour) ∈ colouring)
    (right : (other, colour) ∈ colouring) : colouring.count < (colouring.setApart chosen).count := by
  have same : (marks chosen colouring).map (fun entry => (entry.1, entry.2.1)) = colouring := by
    rw [marks, List.map_map]
    exact List.map_id' colouring
  rw [setApart_eq, count_rank (pairOrdering apartOrdering), count_eq_card, used_eq_image same]
  refine Nat.lt_of_le_of_ne Finset.card_image_le fun equal => ?_
  have first : (colour, false) ∈ ((marks chosen colouring).map Prod.snd).toFinset := by
    have member := List.mem_map_of_mem (f := Prod.snd) (@mem_marks _ _ chosen _ left)
    rwa [bne_self_eq_false, ← List.mem_toFinset] at member
  have second : (colour, true) ∈ ((marks chosen colouring).map Prod.snd).toFinset := by
    have member := List.mem_map_of_mem (f := Prod.snd) (@mem_marks _ _ chosen _ right)
    rwa [bne_iff_ne.mpr apart, ← List.mem_toFinset] at member
  exact Bool.false_ne_true (congrArg Prod.snd (Finset.card_image_iff.mp equal first second rfl))

/-- If a colour is that of several individuals, one of them is another than the given one. -/
theorem exists_other (distinct : colouring.nodes.Nodup) {colour : Nat} (tied : 1 < colouring.groupSize colour) :
    ∃ other ≠ chosen, (other, colour) ∈ colouring := by
  have group : ((colouring.filter fun entry => entry.2 == colour).map Prod.fst).Nodup :=
    distinct.sublist (List.filter_sublist.map Prod.fst)
  have inside : ∀ entry ∈ colouring.filter fun entry => entry.2 == colour, (entry.1, colour) ∈ colouring := by
    intro entry member
    obtain ⟨listed, same⟩ := List.mem_filter.mp member
    rwa [← eq_of_beq same]
  rw [groupSize, List.countP_eq_length_filter] at tied
  match found : colouring.filter fun entry => entry.2 == colour with
  | [] | [_] => simp [found] at tied
  | first :: second :: _ =>
    rw [found] at group inside
    by_cases same : first.1 = chosen
    · refine ⟨second.1, fun equal => ?_, inside second (by simp)⟩
      rw [List.map_cons, List.map_cons, same, equal] at group
      exact (List.nodup_cons.mp group).1 List.mem_cons_self
    · exact ⟨first.1, same, inside first List.mem_cons_self⟩

theorem tied?_eq_some {colouring : Colouring} {chosen : BlankNode} (found : colouring.tied? = some chosen) :
    ∃ colour, (chosen, colour) ∈ colouring ∧ 1 < colouring.groupSize colour := by
  rw [tied?, Option.map_eq_some_iff] at found
  obtain ⟨entry, first, rfl⟩ := found
  obtain ⟨member, tied⟩ := List.mem_filter.mp (List.mem_mergeSort.mp (List.mem_of_mem_head? first))
  exact ⟨entry.2, member, of_decide_eq_true tied⟩

/-- Without ties every individual has a colour of its own. -/
theorem count_eq_length_of_tied?_eq_none {colouring : Colouring} (none : colouring.tied? = none) :
    colouring.count = colouring.length := by
  rw [tied?, Option.map_eq_none_iff, List.head?_eq_none_iff, ← List.length_eq_zero_iff, List.length_mergeSort,
    List.length_eq_zero_iff, List.filter_eq_nil_iff] at none
  rw [count_eq_card, used, List.toFinset_card_of_nodup, List.length_map]
  refine List.nodup_iff_count_le_one.mpr fun colour => ?_
  have size : (colouring.map Prod.snd).count colour = colouring.groupSize colour := by
    rw [List.count, List.countP_map]
    rfl
  rw [size]
  by_contra tied
  obtain ⟨entry, member, same⟩ := List.countP_pos_iff.mp (Nat.lt_of_succ_lt (Nat.not_le.mp tied))
  exact none entry member (decide_eq_true (eq_of_beq same ▸ Nat.not_le.mp tied))

end Rounds

/-- Every individual has a colour of its own. -/
def Separated (colouring : Colouring) : Prop := colouring.count = colouring.length

theorem length_eq_of_nodes {first second : Colouring} (same : first.nodes = second.nodes) : first.length = second.length := by
  simpa [nodes] using congrArg List.length same

/-- A round: refinement, and an individual set apart if refinement adds no colour. -/
theorem separate_succ {facts : List AnnotatedAxiom} {rounds : Nat} {colouring : Colouring}
    (few : colouring.count < colouring.length) :
    separate facts (rounds + 1) colouring =
      if colouring.count < (colouring.refine facts).count then separate facts rounds (colouring.refine facts)
      else match (colouring.refine facts).tied? with
        | some chosen => separate facts rounds ((colouring.refine facts).setApart chosen)
        | none => colouring.refine facts := by
  rw [separate]
  exact if_pos few

/-- Nothing is done to a colouring that has a colour for each individual. -/
theorem separate_separated {facts : List AnnotatedAxiom} {rounds : Nat} {colouring : Colouring}
    (separated : colouring.Separated) : separate facts rounds colouring = colouring := by
  cases rounds with
  | zero => rfl
  | succ rounds => rw [separate, if_neg (Nat.not_lt.mpr (Nat.le_of_eq separated.symm))]

theorem separated_of_length_le {colouring : Colouring} (many : colouring.length ≤ colouring.count) : colouring.Separated :=
  Nat.le_antisymm colouring.count_le_length many

/-- Enough rounds give every individual a colour of its own, among those below their number. -/
theorem separates (facts : List AnnotatedAxiom) (rounds : Nat) {colouring : Colouring}
    (distinct : colouring.nodes.Nodup) (dense : colouring.Dense) (enough : colouring.length ≤ colouring.count + rounds) :
    (separate facts rounds colouring).nodes = colouring.nodes ∧ (separate facts rounds colouring).Dense ∧
      (separate facts rounds colouring).Separated := by
  induction rounds generalizing colouring with
  | zero => exact ⟨rfl, dense, separated_of_length_le enough⟩
  | succ rounds ih =>
    by_cases few : colouring.count < colouring.length
    case neg =>
      have separated := separated_of_length_le (Nat.not_lt.mp few)
      rw [separate_separated separated]
      exact ⟨rfl, dense, separated⟩
    case pos =>
      have refined := @nodes_refine colouring facts
      have length := length_eq_of_nodes refined
      have kept := @count_le_count_refine colouring facts
      rw [separate_succ few]
      split
      next more =>
        obtain ⟨nodes, rest⟩ := @ih (colouring.refine facts) (refined ▸ distinct) (dense_refine facts) (by omega)
        exact ⟨nodes.trans refined, rest⟩
      next still =>
        split
        next chosen found =>
          obtain ⟨colour, member, tied⟩ := tied?_eq_some found
          obtain ⟨other, apart, inside⟩ := exists_other chosen (refined ▸ distinct) tied
          have more := count_lt_count_setApart chosen apart member inside
          have nodes := (@nodes_setApart (colouring.refine facts) chosen).trans refined
          have lengths := length_eq_of_nodes nodes
          obtain ⟨final, rest⟩ := ih (nodes ▸ distinct) (dense_setApart chosen) (by omega)
          exact ⟨final.trans nodes, rest⟩
        next none => exact ⟨refined, dense_refine facts, count_eq_length_of_tied?_eq_none none⟩

end Colouring

end OwlGraph
