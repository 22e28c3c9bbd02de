import Mathlib.Data.List.Nodup
import Mathlib.Data.List.Range
import OwlGraph.Proofs.AxiomSet
import OwlGraph.Proofs.CanonicalOrder

/-! The postings of an ontology. Whatever was added and removed, the posting of a key lists the
numbers of exactly the axioms with that key, in increasing order, and there is none where there
is no axiom. So looking something up is filtering the axioms. -/

namespace OwlGraph

namespace AxiomIndex

@[simp] theorem kind_mem_keys {fact : AnnotatedAxiom} {kind : AxiomKind} : .kind kind ∈ keys fact ↔ fact.kind = kind := by
  simp [keys, eq_comm]

@[simp] theorem bare_mem_keys {fact : AnnotatedAxiom} {statement : Axiom} :
    .bare statement ∈ keys fact ↔ fact.bare = statement := by
  simp [keys, eq_comm]

@[simp] theorem component_mem_keys {fact : AnnotatedAxiom} {component : Component} :
    .component component ∈ keys fact ↔ component ∈ fact.components := by
  simp [keys]

/-- The keys of an IRI are the components with that IRI. -/
theorem any_iriKeys {fact : AnnotatedAxiom} {iri : Iri} :
    ((iriKeys iri).any fun key => key ∈ keys fact) = true ↔ ∃ component ∈ fact.components, component.iri? = some iri := by
  simp only [iriKeys, List.any_cons, List.any_map, Bool.or_eq_true, List.any_eq_true, decide_eq_true_eq,
    component_mem_keys, Function.comp_apply]
  constructor
  · rintro (plain | ⟨kind, -, entity⟩)
    · exact ⟨_, plain, rfl⟩
    · exact ⟨_, entity, rfl⟩
  · intro ⟨component, member, same⟩
    cases component with
    | entity entity =>
      obtain ⟨kind, own⟩ := entity
      cases same
      exact Or.inr ⟨kind, by cases kind <;> simp [EntityKind.all], member⟩
    | iri own => cases same; exact Or.inl member
    | anonymous => cases same

theorem nodup_keys (fact : AnnotatedAxiom) : (keys fact).Nodup := by
  have components : (fact.components.eraseDups.map IndexKey.component).Nodup :=
    (Canonical.nodup_eraseDups fact.components).map fun one two same => IndexKey.component.inj same
  simp [keys, components]

/-- Changing the posting of one key after the other changes that of each of them. -/
theorem getElem?_foldl_alter {keys : List IndexKey} (distinct : keys.Nodup)
    (change : Option (List Nat) → Option (List Nat)) (postings : Std.HashMap IndexKey (List Nat)) (key : IndexKey) :
    (keys.foldl (fun postings key => postings.alter key change) postings)[key]? =
      if key ∈ keys then change postings[key]? else postings[key]? := by
  induction keys generalizing postings with
  | nil => simp
  | cons first rest ih =>
    obtain ⟨fresh, distinct⟩ := List.nodup_cons.mp distinct
    rw [List.foldl_cons, ih distinct, Std.HashMap.getElem?_alter]
    by_cases same : key = first
    · subst same
      simp [fresh]
    · simp [same, Ne.symm same]

variable {index : AxiomIndex}

/-- The numbers of the axioms with the key, in increasing order. -/
def numbers (index : AxiomIndex) (key : IndexKey) : List Nat :=
  (List.range index.slots.size).filter fun id => (index.get? id).any fun fact => key ∈ keys fact

/-- Every key has the numbers of its axioms for a posting, and none if there are no axioms. -/
def Filed (index : AxiomIndex) : Prop := ∀ key, index.postings[key]? = (some (index.numbers key)).filter (!·.isEmpty)

theorem filed_empty : Filed {} := by
  intro key
  simp [numbers, Option.filter]

theorem insert_of_present {fact : AnnotatedAxiom} (present : index.contains fact = true) : index.insert fact = index :=
  if_pos present

theorem numbers_insert {fact : AnnotatedAxiom} (absent : index.contains fact = false) (key : IndexKey) :
    (index.insert fact).numbers key = index.numbers key ++ if key ∈ keys fact then [index.slots.size] else [] := by
  have slots : (index.insert fact).slots = index.slots.push (some fact) := by simp [AxiomIndex.insert, absent]
  have old : ∀ id ∈ List.range index.slots.size, (index.insert fact).get? id = index.get? id := by
    intro id inside
    have below := List.mem_range.mp inside
    rw [get?, get?, slots, Array.getElem?_push_lt below, Array.getElem?_eq_getElem below]
  have last : (index.insert fact).get? index.slots.size = some fact := by simp [get?, slots]
  rw [numbers, slots, Array.size_push, List.range_succ, List.filter_append, numbers]
  congr 1
  · apply List.filter_congr
    intro id inside
    rw [old id inside]
  · simp [List.filter_singleton, last]

theorem Filed.insert (filed : index.Filed) (fact : AnnotatedAxiom) : (index.insert fact).Filed := by
  cases present : index.contains fact with
  | true => rwa [insert_of_present present]
  | false =>
    intro key
    have postings : (index.insert fact).postings = (keys fact).foldl
        (fun postings key => postings.alter key fun ids => some (ids.getD [] ++ [index.slots.size])) index.postings := by
      rw [AxiomIndex.insert, present]
      rfl
    rw [postings, getElem?_foldl_alter (nodup_keys fact), numbers_insert present, filed key]
    by_cases member : key ∈ keys fact
    · cases index.numbers key <;> simp [member, Option.filter]
    · simp [member]

theorem remove_of_missing {fact : AnnotatedAxiom} (missing : index.ids[fact]? = none) : index.remove fact = index := by
  unfold AxiomIndex.remove
  rw [missing]

theorem slots_remove {fact : AnnotatedAxiom} {id : Nat} (found : index.ids[fact]? = some id) :
    (index.remove fact).slots = index.slots.set! id none := by
  unfold AxiomIndex.remove
  split
  next missing => rw [missing] at found; cases found
  next other listed => rw [found] at listed; cases listed; rfl

theorem get?_remove {fact : AnnotatedAxiom} {id : Nat} (found : index.ids[fact]? = some id) (other : Nat) :
    (index.remove fact).get? other = if other = id then none else index.get? other := by
  rw [get?, get?, slots_remove found, Array.set!_eq_setIfInBounds, Array.getElem?_setIfInBounds]
  by_cases same : id = other
  · subst same
    simp only [if_true]
    split <;> rfl
  · simp [same, Ne.symm same]

theorem numbers_remove (sound : index.Sound) {fact : AnnotatedAxiom} {id : Nat} (found : index.ids[fact]? = some id)
    (key : IndexKey) : (index.remove fact).numbers key =
      if key ∈ keys fact then (index.numbers key).erase id else index.numbers key := by
  have held : index.slots[id]? = some (some fact) := (sound fact id).mp found
  have own : index.get? id = some fact := by simp [get?, held]
  have distinct : (index.numbers key).Nodup := List.nodup_range.filter _
  have size : (index.remove fact).slots.size = index.slots.size := by simp [slots_remove found]
  have left : (index.remove fact).numbers key = (index.numbers key).filter (· != id) := by
    rw [numbers, size, numbers, List.filter_filter]
    apply List.filter_congr
    intro other _
    rw [get?_remove found]
    by_cases same : other = id <;> simp [same]
  rw [left]
  split
  next => rw [distinct.erase_eq_filter]
  next other =>
    apply List.filter_eq_self.mpr
    intro number listed
    obtain ⟨-, has⟩ := List.mem_filter.mp listed
    have apart : number ≠ id := by
      rintro rfl
      simp [own, other] at has
    simpa using apart

theorem Filed.remove (filed : index.Filed) (sound : index.Sound) (fact : AnnotatedAxiom) : (index.remove fact).Filed := by
  cases found : index.ids[fact]? with
  | none => rwa [remove_of_missing found]
  | some id =>
    intro key
    have postings : (index.remove fact).postings = (keys fact).foldl
        (fun postings key => postings.alter key fun ids => (ids.map (·.erase id)).filter (!·.isEmpty)) index.postings := by
      unfold AxiomIndex.remove
      rw [found]
      rfl
    rw [postings, getElem?_foldl_alter (nodup_keys fact), numbers_remove sound found, filed key]
    by_cases member : key ∈ keys fact
    · cases index.numbers key <;> simp [member, Option.filter]
    · simp [member]

theorem toList_eq : index.toList = (List.range index.slots.size).filterMap index.get? := by
  have slots : index.slots.toList = (List.range index.slots.size).map fun id => (index.slots[id]?).join := by
    apply List.ext_getElem
    · simp
    · intro id inside _
      simp [Array.getElem?_eq_getElem (show id < index.slots.size by simpa using inside)]
  rw [toList, slots, List.filterMap_map]
  rfl

theorem posting_eq (filed : index.Filed) (key : IndexKey) : index.posting key = index.numbers key := by
  rw [posting, Std.HashMap.getD_eq_getD_getElem?, filed key]
  cases index.numbers key <;> simp [Option.filter]

/-- The axioms whose numbers are listed are those that pass the test. -/
theorem filterMap_get? (test : AnnotatedAxiom → Bool) :
    ((List.range index.slots.size).filter fun id => (index.get? id).any test).filterMap index.get? =
      index.toList.filter test := by
  rw [toList_eq, List.filterMap_filter, List.filter_filterMap]
  apply List.filterMap_congr
  intro id _
  cases index.get? id <;> simp [Option.filter]

theorem under_eq (filed : index.Filed) (key : IndexKey) :
    index.under key = index.toList.filter fun fact => key ∈ keys fact := by
  rw [under, posting_eq filed, numbers, filterMap_get?]

theorem mem_numbers {key : IndexKey} {id : Nat} :
    id ∈ index.numbers key ↔ ∃ fact, index.get? id = some fact ∧ key ∈ keys fact := by
  simp only [numbers, List.mem_filter, List.mem_range, Option.any_eq_true, decide_eq_true_eq]
  constructor
  · exact And.right
  · intro ⟨fact, held, has⟩
    have inside : id < index.slots.size := by
      apply Classical.byContradiction
      intro beyond
      simp [get?, Array.getElem?_eq_none (Nat.le_of_not_lt beyond)] at held
    exact ⟨inside, fact, held, has⟩

theorem mem_toList_iff {fact : AnnotatedAxiom} : fact ∈ index.toList ↔ ∃ id, index.get? id = some fact := by
  simp only [mem_toList, get?, Option.join_eq_some_iff]

/-- A key has a posting exactly when an axiom has the key. -/
theorem contains_posting (filed : index.Filed) {key : IndexKey} :
    index.postings.contains key = true ↔ ∃ fact ∈ index.toList, key ∈ keys fact := by
  have some_number : index.postings.contains key = true ↔ ∃ id, id ∈ index.numbers key := by
    rw [Std.HashMap.contains_eq_isSome_getElem?, filed key]
    cases index.numbers key with
    | nil => simp [Option.filter]
    | cons first rest => exact iff_of_true rfl ⟨first, List.mem_cons_self⟩
  rw [some_number]
  constructor
  · intro ⟨id, listed⟩
    obtain ⟨fact, held, has⟩ := mem_numbers.mp listed
    exact ⟨fact, mem_toList_iff.mpr ⟨id, held⟩, has⟩
  · intro ⟨fact, member, has⟩
    obtain ⟨id, held⟩ := mem_toList_iff.mp member
    exact ⟨id, mem_numbers.mpr ⟨fact, held, has⟩⟩

theorem ble_ordering : Canonical.Ordering Nat.ble where
  total a b := by simp; omega
  trans a b c := by simp; omega
  antisymm a b := by simp; omega

/-- Looking for an IRI under all of its keys finds every axiom once and in order. -/
theorem mentioning_eq (filed : index.Filed) (iri : Iri) :
    index.mentioning iri = index.toList.filter fun fact => (iriKeys iri).any (· ∈ keys fact) := by
  let found := (List.range index.slots.size).filter fun id =>
    (index.get? id).any fun fact => (iriKeys iri).any (· ∈ keys fact)
  have increasing : found.Pairwise fun a b => Nat.ble a b = true ∧ a ≠ b := by
    apply (List.pairwise_lt_range.filter _).imp
    intro a b less
    exact ⟨by simp; omega, by omega⟩
  have same : ∀ id, id ∈ (iriKeys iri).flatMap index.posting ↔ id ∈ found := by
    intro id
    simp only [List.mem_flatMap, posting_eq filed, numbers, found, List.mem_filter, Option.any_eq_true,
      List.any_eq_true, decide_eq_true_eq]
    grind
  have ids : Canonical.ordered Nat.ble id ((iriKeys iri).flatMap index.posting) = found := by
    rw [Canonical.ordered_congr ble_ordering id same fun _ _ _ _ equal => equal]
    exact Canonical.ordered_of_pairwise id increasing
  rw [mentioning, ids]
  exact filterMap_get? _

theorem mem_components (filed : index.Filed) {component : Component} :
    component ∈ index.components ↔ ∃ fact ∈ index.toList, component ∈ fact.components := by
  have key : component ∈ index.components ↔ index.postings.contains (.component component) = true := by
    simp only [components, List.mem_filterMap, Std.HashMap.mem_keys, Std.HashMap.contains_iff_mem]
    constructor
    · intro ⟨key, posted, same⟩
      cases key with
      | component => cases same; exact posted
      | kind | bare => cases same
    · intro posted
      exact ⟨_, posted, rfl⟩
  rw [key, contains_posting filed]
  simp

end AxiomIndex

theorem EntityKind.ctorIdx_inj {a b : EntityKind} (same : a.ctorIdx = b.ctorIdx) : a = b := by
  cases a <;> cases b <;> first | rfl | cases same

theorem Entity.ordering : Canonical.Ordering Entity.le where
  total a b := by
    have texts := Canonical.textOrdering.total a.iri.value b.iri.value
    simp only [Entity.le, Bool.or_eq_true, Bool.and_eq_true, decide_eq_true_eq, beq_iff_eq] at texts ⊢
    grind
  trans a b c below above := by
    have texts := Canonical.textOrdering.trans a.iri.value b.iri.value c.iri.value
    simp only [Entity.le, Bool.or_eq_true, Bool.and_eq_true, decide_eq_true_eq, beq_iff_eq] at below above ⊢
    grind
  antisymm a b below above := by
    simp only [Entity.le, Bool.or_eq_true, Bool.and_eq_true, decide_eq_true_eq, beq_iff_eq] at below above
    have kinds : a.kind = b.kind := EntityKind.ctorIdx_inj (by omega)
    have iris : a.iri = b.iri := Iri.ordering.antisymm a.iri b.iri (by grind) (by grind)
    cases a
    cases b
    simp_all

namespace AxiomIndex

variable {index : AxiomIndex}

theorem mem_signature (filed : index.Filed) {entity : Entity} :
    entity ∈ index.signature ↔ ∃ fact ∈ index.toList, .entity entity ∈ fact.components := by
  rw [signature, Canonical.mem_ordered id fun _ _ _ _ same => same, List.mem_filterMap, ← mem_components filed]
  constructor
  · intro ⟨component, member, same⟩
    cases component with
    | entity => cases same; exact member
    | anonymous | iri => cases same
  · intro member
    exact ⟨_, member, rfl⟩

theorem mem_anonymous (filed : index.Filed) {node : BlankNode} :
    node ∈ index.anonymous ↔ ∃ fact ∈ index.toList, .anonymous node ∈ fact.components := by
  have injective : ∀ one two : BlankNode, one.label = two.label → one = two := fun _ _ same => congrArg BlankNode.mk same
  rw [anonymous, Canonical.mem_ordered _ fun one _ two _ => injective one two, List.mem_filterMap, ← mem_components filed]
  constructor
  · intro ⟨component, member, same⟩
    cases component with
    | anonymous => cases same; exact member
    | entity | iri => cases same
  · intro member
    exact ⟨_, member, rfl⟩

theorem nodup_signature : index.signature.Nodup := Canonical.nodup_ordered Entity.ordering id _

theorem nodup_anonymous : index.anonymous.Nodup := Canonical.nodup_ordered Canonical.textOrdering BlankNode.label _

theorem not_mem_toList (sound : index.Sound) {fact : AnnotatedAxiom} : fact ∉ index.toList ↔ index.ids[fact]? = none := by
  rw [← sound.contains_iff, contains, Std.HashMap.contains_eq_isSome_getElem?]
  cases index.ids[fact]? <;> simp

/-- Removing an axiom from the index removes it from the list. -/
theorem toList_remove (sound : index.Sound) (fact : AnnotatedAxiom) :
    (index.remove fact).toList = index.toList.erase fact := by
  cases found : index.ids[fact]? with
  | none =>
    rw [remove_of_missing found, List.erase_of_not_mem ((not_mem_toList sound).mpr found)]
  | some id =>
    have own : ∀ other, index.get? other = some fact ↔ other = id := by
      intro other
      rw [get?, Option.join_eq_some_iff, ← sound fact other, found, Option.some.injEq, eq_comm]
    have size : (index.remove fact).slots.size = index.slots.size := by simp [slots_remove found]
    rw [sound.nodup_toList.erase_eq_filter, toList_eq, toList_eq, size, List.filter_filterMap]
    apply List.filterMap_congr
    intro other _
    rw [get?_remove found]
    split
    next same =>
      rw [(own other).mpr same]
      simp [Option.filter]
    next apart =>
      cases held : index.get? other with
      | none => rfl
      | some known =>
        have different : known ≠ fact := by
          rintro rfl
          exact apart ((own other).mp held)
        simp [Option.filter, different]

theorem Counted.remove (counted : index.Counted) (sound : index.Sound) (fact : AnnotatedAxiom) :
    (index.remove fact).Counted := by
  rw [Counted, toList_remove sound]
  cases found : index.ids[fact]? with
  | none =>
    rw [remove_of_missing found, List.erase_of_not_mem ((not_mem_toList sound).mpr found)]
    exact counted
  | some id =>
    have present : fact ∈ index.toList := mem_toList.mpr ⟨id, (sound fact id).mp found⟩
    rw [List.length_erase_of_mem present, ← counted]
    unfold AxiomIndex.remove
    rw [found]

end AxiomIndex

end OwlGraph
