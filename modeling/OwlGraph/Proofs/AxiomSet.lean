import OwlGraph.Ontology.Basic

/-! The axioms of an ontology as a set. An axiom has at most one slot, so adding and removing
change exactly the membership of that axiom, and the rest of the header stays as it is. -/

namespace OwlGraph

namespace AxiomIndex

/-- The table of numbers tells exactly the slot of every axiom. -/
def Sound (index : AxiomIndex) : Prop :=
  ∀ (fact : AnnotatedAxiom) (id : Nat), index.ids[fact]? = some id ↔ index.slots[id]? = some (some fact)

theorem sound_empty : Sound {} := by
  intro fact id
  simp

variable {index : AxiomIndex}

theorem contains_eq_false {fact : AnnotatedAxiom} (sound : index.Sound) (absent : index.contains fact = false)
    (id : Nat) : index.slots[id]? ≠ some (some fact) := by
  intro found
  have listed := (sound fact id).mpr found
  rw [contains, Std.HashMap.contains_eq_isSome_getElem?, listed] at absent
  cases absent

theorem Sound.insert (sound : index.Sound) (fact : AnnotatedAxiom) : (index.insert fact).Sound := by
  unfold AxiomIndex.insert
  split
  · exact sound
  next missing =>
    have absent := contains_eq_false sound (by simpa using missing)
    intro other id
    simp only [Std.HashMap.getElem?_insert, Array.getElem?_push]
    by_cases same : fact = other
    · subst same
      by_cases last : id = index.slots.size
      · simp [last]
      · simp only [beq_self_eq_true, if_true, last, if_false, Option.some.injEq]
        exact ⟨fun first => absurd first.symm last, fun found => absurd found (absent id)⟩
    · simp only [beq_iff_eq, same, if_false]
      by_cases last : id = index.slots.size
      · subst last
        simp [sound other, same]
      · simp only [last, if_false]
        exact sound other id

theorem Sound.remove (sound : index.Sound) (fact : AnnotatedAxiom) : (index.remove fact).Sound := by
  unfold AxiomIndex.remove
  split
  · exact sound
  next slot found =>
    have held := (sound fact slot).mp found
    intro other id
    simp only [Std.HashMap.getElem?_erase, Array.set!_eq_setIfInBounds, Array.getElem?_setIfInBounds]
    by_cases same : fact = other
    · subst same
      have elsewhere : index.slots[id]? = some (some fact) → slot = id := by
        intro also
        have listed := (sound fact id).mpr also
        rw [found] at listed
        exact Option.some.inj listed
      by_cases here : slot = id
      · subst here
        simp only [beq_self_eq_true, if_true]
        split <;> simp
      · simp only [beq_self_eq_true, if_true, here, if_false]
        exact ⟨nofun, fun also => absurd (elsewhere also) here⟩
    · simp only [beq_iff_eq, same, if_false]
      by_cases here : slot = id
      · subst here
        have other_ne : index.slots[slot]? ≠ some (some other) := by
          rw [held]
          simp [same]
        constructor
        · intro listed
          exact absurd ((sound other slot).mp listed) other_ne
        · intro also
          split at also
          · split at also <;> simp at also
          · exact absurd rfl (by assumption)
      · simp only [here, if_false]
        exact sound other id

theorem mem_toList {fact : AnnotatedAxiom} :
    fact ∈ index.toList ↔ ∃ id : Nat, index.slots[id]? = some (some fact) := by
  simp only [toList, List.mem_filterMap, id_eq, exists_eq_right]
  rw [Array.mem_toList_iff, Array.mem_iff_getElem?]

theorem Sound.mem_insert (sound : index.Sound) {fact other : AnnotatedAxiom} :
    other ∈ (index.insert fact).toList ↔ other = fact ∨ other ∈ index.toList := by
  simp only [mem_toList, ← (sound.insert fact) other, ← sound other]
  unfold AxiomIndex.insert
  split
  next present =>
    refine ⟨Or.inr, ?_⟩
    rintro (rfl | known)
    · exact Option.isSome_iff_exists.mp (by rwa [contains, Std.HashMap.contains_eq_isSome_getElem?] at present)
    · exact known
  next missing =>
    simp only [Std.HashMap.getElem?_insert]
    by_cases same : fact = other
    · simp [same]
    · simp [same, Ne.symm same]

theorem Sound.mem_remove (sound : index.Sound) {fact other : AnnotatedAxiom} :
    other ∈ (index.remove fact).toList ↔ other ≠ fact ∧ other ∈ index.toList := by
  simp only [mem_toList, ← (sound.remove fact) other, ← sound other]
  unfold AxiomIndex.remove
  split
  next missing =>
    refine ⟨fun known => ⟨?_, known⟩, And.right⟩
    rintro rfl
    obtain ⟨id, found⟩ := known
    rw [missing] at found
    cases found
  next slot found =>
    simp only [Std.HashMap.getElem?_erase]
    by_cases same : fact = other
    · simp [same]
    · simp [same, Ne.symm same]

theorem Sound.contains_iff (sound : index.Sound) {fact : AnnotatedAxiom} :
    index.contains fact = true ↔ fact ∈ index.toList := by
  rw [mem_toList, contains, Std.HashMap.contains_eq_isSome_getElem?, Option.isSome_iff_exists]
  exact exists_congr fun id => sound fact id

/-- No axiom has two slots. -/
theorem Sound.nodup_toList (sound : index.Sound) : index.toList.Nodup := by
  rw [toList, List.Nodup, List.pairwise_filterMap, List.pairwise_iff_getElem]
  intro i j before within less fact first other second same
  rw [id_eq] at first second
  have slot : ∀ {k : Nat} (bound : k < index.slots.toList.length), index.slots.toList[k] = some fact →
      index.ids[fact]? = some k := by
    intro k bound held
    refine (sound fact k).mpr ?_
    rw [← Array.getElem?_toList, List.getElem?_eq_getElem bound, held]
  have one := slot before first
  rw [slot within (same ▸ second)] at one
  exact Nat.ne_of_gt less (Option.some.inj one)

/-- The count tells how many axioms there are. -/
def Counted (index : AxiomIndex) : Prop := index.live = index.toList.length

theorem toList_insert {fact : AnnotatedAxiom} (absent : index.contains fact = false) :
    (index.insert fact).toList = index.toList ++ [fact] := by
  simp [AxiomIndex.insert, absent, toList]

theorem Counted.insert (counted : index.Counted) (fact : AnnotatedAxiom) : (index.insert fact).Counted := by
  cases found : index.contains fact with
  | true => rwa [AxiomIndex.insert, if_pos found]
  | false =>
    rw [Counted, toList_insert found, List.length_append, ← counted]
    simp [AxiomIndex.insert, found]

/-- Different axioms that are added one after the other are listed in that order. -/
theorem foldl_insert (sound : index.Sound) (counted : index.Counted) {facts : List AnnotatedAxiom}
    (distinct : (index.toList ++ facts).Nodup) :
    (facts.foldl insert index).Sound ∧ (facts.foldl insert index).Counted ∧
      (facts.foldl insert index).toList = index.toList ++ facts := by
  induction facts generalizing index with
  | nil => exact ⟨sound, counted, (List.append_nil _).symm⟩
  | cons fact rest ih =>
    have absent : index.contains fact = false := by
      rw [Bool.eq_false_iff, ne_eq, sound.contains_iff]
      exact fun listed => (List.nodup_append.mp distinct).2.2 fact listed fact List.mem_cons_self rfl
    have listed := toList_insert absent
    rw [List.append_cons, ← listed] at distinct
    obtain ⟨soundly, counts, all⟩ := ih (sound.insert fact) (counted.insert fact) distinct
    exact ⟨soundly, counts, by rw [List.foldl_cons, all, listed, List.append_assoc, List.singleton_append]⟩

end AxiomIndex

namespace Ontology

variable {ontology : Ontology} (sound : ontology.index.Sound)
include sound

theorem mem_axioms_add {fact other : AnnotatedAxiom} :
    other ∈ (ontology.add fact).axioms ↔ other = fact ∨ other ∈ ontology.axioms := sound.mem_insert

theorem mem_axioms_remove {fact other : AnnotatedAxiom} :
    other ∈ (ontology.remove fact).axioms ↔ other ≠ fact ∧ other ∈ ontology.axioms := sound.mem_remove

end Ontology

end OwlGraph
