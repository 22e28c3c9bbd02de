import Mathlib.Data.List.Induction
import Mathlib.Data.List.Nodup
import OwlGraph.Rdf.Store

/-! Lookups in the working set. Each index lists the numbers of exactly the triples with its
key, in increasing order, whatever was inserted, removed, consumed or rolled back. So every
lookup is a filter of the live rows, and consumption changes none of them. -/

namespace OwlGraph.TripleStore

/-- The live triples with their numbers, in the order of the numbers. -/
def liveRows (store : TripleStore) : List Row := (List.range store.entries.size).filterMap store.row?

section Files

variable {κ : Type} [BEq κ] [LawfulBEq κ] [Hashable κ]

/-- The index files every number under the key of its triple and nothing else. -/
def Files (index : Std.HashMap κ (Array TripleId)) (key : Triple → κ) (triples : Array Triple) : Prop :=
  ∀ k, ((index[k]?).getD #[]).toList =
    (List.range triples.size).filter fun id => (triples[id]?).any fun triple => key triple == k

theorem Files.push {index : Std.HashMap κ (Array TripleId)} {key : Triple → κ} {triples : Array Triple}
    (files : Files index key triples) (triple : Triple) :
    Files (file index (key triple) triples.size) key (triples.push triple) := by
  intro k
  have old : ∀ id ∈ List.range triples.size,
      ((triples.push triple)[id]?).any (fun t => key t == k) = (triples[id]?).any fun t => key t == k := by
    intro id inside
    rw [Array.getElem?_push_lt (List.mem_range.mp inside), Array.getElem?_eq_getElem]
  have lookup : ((file index (key triple) triples.size)[k]?).getD #[] =
      if key triple == k then ((index[k]?).getD #[]).push triples.size else (index[k]?).getD #[] := by
    rw [file, Std.HashMap.getElem?_alter]
    split
    · next same =>
      have same := eq_of_beq same
      subst same
      simp
    · rfl
  rw [lookup, Array.size_push, List.range_succ, List.filter_append, List.filter_congr old]
  by_cases same : key triple == k
  · simp [same, files k]
  · simp [same, files k]

end Files

/-- Every index files exactly the triples that were ever inserted. -/
structure Indexed (store : TripleStore) : Prop where
  subjects : Files store.bySubject Triple.subject (store.entries.map StoredTriple.triple)
  predicates : Files store.byPredicate Triple.predicate (store.entries.map StoredTriple.triple)
  objects : Files store.byObject Triple.object (store.entries.map StoredTriple.triple)
  ids : ∀ (triple : Triple) (id : TripleId), store.ids[triple]? = some id ↔
    (store.entries.map StoredTriple.triple)[id]? = some triple

theorem indexed_empty : Indexed {} := by
  constructor
  case ids => intro triple id; simp
  all_goals intro key; simp

/-- Whatever leaves the triples and the indexes alone keeps them in agreement. -/
theorem Indexed.of_same {store after : TripleStore} (indexed : Indexed store)
    (entries : after.entries.map StoredTriple.triple = store.entries.map StoredTriple.triple)
    (others : after = { store with entries := after.entries, log := after.log }) : Indexed after := by
  rw [others]
  exact ⟨entries ▸ indexed.subjects, entries ▸ indexed.predicates, entries ▸ indexed.objects,
    entries ▸ indexed.ids⟩

theorem Indexed.insert {store : TripleStore} (indexed : Indexed store) (triple : Triple) :
    Indexed (store.insert triple).2 := by
  unfold TripleStore.insert
  split
  next id found =>
    split
    · exact indexed
    · refine indexed.of_same ?_ rfl
      have known := (indexed.ids triple id).mp found
      apply Array.ext_getElem?
      intro other
      by_cases same : id = other
      · subst same
        simp only [Array.getElem?_map, Array.set!_eq_setIfInBounds, Array.getElem?_setIfInBounds_self]
        simp only [Array.getElem?_map] at known
        rw [known]
        obtain ⟨inside, -⟩ := Array.getElem?_eq_some_iff.mp (Option.map_eq_some_iff.mp known).choose_spec.1
        simp [inside]
      · simp [same]
  next missing =>
    have size : store.entries.size = (store.entries.map StoredTriple.triple).size := Array.size_map.symm
    refine ⟨?_, ?_, ?_, ?_⟩
    · rw [Array.map_push, size]
      exact indexed.subjects.push triple
    · rw [Array.map_push, size]
      exact indexed.predicates.push triple
    · rw [Array.map_push, size]
      exact indexed.objects.push triple
    · intro other id
      have absent : ∀ id : TripleId, (store.entries.map StoredTriple.triple)[id]? ≠ some triple := by
        intro id found
        rw [(indexed.ids triple id).mpr found] at missing
        cases missing
      rw [Array.map_push, Array.getElem?_push, ← size, Std.HashMap.getElem?_insert]
      by_cases same : triple = other
      · subst same
        by_cases last : id = store.entries.size
        · simp [last]
        · simp only [beq_self_eq_true, if_true, last, if_false, Option.some.injEq]
          exact ⟨fun first => absurd first.symm last, fun found => absurd found (absent id)⟩
      · simp only [beq_iff_eq, same, if_false]
        by_cases last : id = store.entries.size
        · subst last
          have none : (store.entries.map StoredTriple.triple)[store.entries.size]? = none := by simp
          simp [indexed.ids, same]
        · simp only [last, if_false]
          exact indexed.ids other id

/-- The store with some more triples. -/
def insertAll (store : TripleStore) (triples : List Triple) : TripleStore :=
  triples.foldl (fun store triple => (store.insert triple).2) store

theorem Indexed.insertAll (triples : List Triple) : ∀ {store : TripleStore}, Indexed store → Indexed (store.insertAll triples) := by
  induction triples with
  | nil => exact fun indexed => indexed
  | cons triple rest ih => exact fun indexed => ih (indexed.insert triple)

theorem indexed_ofTriples (triples : List Triple) : (ofTriples triples).Indexed := indexed_empty.insertAll triples

theorem mem_liveRows {store : TripleStore} {row : Row} :
    row ∈ store.liveRows ↔ store.row? row.id = some row := by
  simp only [liveRows, List.mem_filterMap, List.mem_range]
  constructor
  · rintro ⟨id, -, found⟩
    have same : row.id = id := by
      simp only [row?, Option.map_eq_some_iff] at found
      obtain ⟨entry, -, rfl⟩ := found
      rfl
    rw [same]
    exact found
  · intro found
    refine ⟨row.id, ?_, found⟩
    simp only [row?, Option.map_eq_some_iff, Option.filter_eq_some_iff] at found
    obtain ⟨entry, ⟨present, -⟩, -⟩ := found
    exact (Array.getElem?_eq_some_iff.mp present).1

theorem row?_eq_some {store : TripleStore} {id : TripleId} {row : Row} :
    store.row? id = some row ↔ row.id = id ∧ ∃ entry, store.entries[id]? = some entry ∧ entry.live = true ∧
      entry.triple = row.triple := by
  simp only [row?, Option.map_eq_some_iff, Option.filter_eq_some_iff]
  constructor
  · rintro ⟨entry, ⟨present, live⟩, rfl⟩
    exact ⟨rfl, entry, present, live, rfl⟩
  · rintro ⟨rfl, entry, present, live, same⟩
    exact ⟨entry, ⟨present, live⟩, by rw [same]⟩

section Lookup

variable {κ : Type} [BEq κ] [Hashable κ]

theorem rows_of_files {store : TripleStore} {index : Std.HashMap κ (Array TripleId)} {key : Triple → κ}
    (files : Files index key (store.entries.map StoredTriple.triple)) (k : κ) :
    store.rows index[k]? = store.liveRows.filter fun row => key row.triple == k := by
  rw [rows, files k, liveRows, List.filterMap_filter, List.filter_filterMap, Array.size_map]
  apply List.filterMap_congr
  intro id _
  cases found : store.row? id with
  | none => simp
  | some row =>
    obtain ⟨-, entry, present, -, same⟩ := row?_eq_some.mp found
    have filed : (store.entries.map StoredTriple.triple)[id]? = some row.triple := by
      rw [Array.getElem?_map, present, Option.map_some, same]
    simp only [Option.filter_some]
    rw [filed, Option.any_some]

end Lookup

namespace Indexed

variable {store : TripleStore} (indexed : store.Indexed)
include indexed

theorem withSubject (subject : Node) :
    store.withSubject subject = store.liveRows.filter fun row => row.triple.subject == subject :=
  rows_of_files indexed.subjects subject

theorem withPredicate (predicate : Iri) :
    store.withPredicate predicate = store.liveRows.filter fun row => row.triple.predicate == predicate :=
  rows_of_files indexed.predicates predicate

theorem withObject (object : Term) :
    store.withObject object = store.liveRows.filter fun row => row.triple.object == object :=
  rows_of_files indexed.objects object

theorem find?_eq_some {triple : Triple} {id : TripleId} :
    store.find? triple = some id ↔ ⟨id, triple⟩ ∈ store.liveRows := by
  rw [mem_liveRows, row?_eq_some, find?, Option.filter_eq_some_iff, indexed.ids]
  simp only [Array.getElem?_map, Option.map_eq_some_iff, true_and]
  constructor
  · rintro ⟨⟨entry, present, same⟩, live⟩
    exact ⟨entry, present, by simpa [present] using live, same⟩
  · rintro ⟨entry, present, live, same⟩
    exact ⟨⟨entry, present, same⟩, by simp [present, live]⟩

/-- A triple has one number. -/
theorem row_eq {row other : Row} (member : row ∈ store.liveRows) (present : other ∈ store.liveRows)
    (same : row.triple = other.triple) : row = other := by
  have first := indexed.find?_eq_some.mpr (show ⟨row.id, row.triple⟩ ∈ store.liveRows from member)
  have second := indexed.find?_eq_some.mpr (show ⟨other.id, other.triple⟩ ∈ store.liveRows from present)
  rw [same, second] at first
  cases row
  cases other
  simp_all

end Indexed

theorem mem_triples_iff {store : TripleStore} {triple : Triple} : triple ∈ store.liveRows.map Row.triple ↔
    ∃ (id : TripleId) (entry : StoredTriple), store.entries[id]? = some entry ∧ entry.live = true ∧ entry.triple = triple := by
  rw [List.mem_map]
  constructor
  · rintro ⟨row, member, rfl⟩
    exact ⟨row.id, (row?_eq_some.mp (mem_liveRows.mp member)).2⟩
  · rintro ⟨id, entry, present, live, rfl⟩
    exact ⟨⟨id, entry.triple⟩, mem_liveRows.mpr (row?_eq_some.mpr ⟨rfl, entry, present, live, rfl⟩), rfl⟩

/-- Inserting a triple that is there changes nothing. Any other one gets a place of its own, in which
there was nothing or the triple itself, removed. -/
theorem Indexed.insert_cases {store : TripleStore} (indexed : store.Indexed) (added : Triple) :
    (added ∈ store.liveRows.map Row.triple ∧ (store.insert added).2 = store) ∨
    (added ∉ store.liveRows.map Row.triple ∧ ∃ place : TripleId,
      (∀ entry, store.entries[place]? = some entry → entry.live = false) ∧
      ∀ id, (store.insert added).2.entries[id]? = if id = place then some ⟨added, true, false⟩ else store.entries[id]?) := by
  by_cases present : added ∈ store.liveRows.map Row.triple
  · obtain ⟨row, member, rfl⟩ := List.mem_map.mp present
    obtain ⟨known, live⟩ := Option.filter_eq_some_iff.mp (indexed.find?_eq_some.mpr member)
    exact .inl ⟨present, by simp only [TripleStore.insert, known, live, if_true]⟩
  · refine .inr ⟨present, ?_⟩
    unfold TripleStore.insert
    split
    next place found =>
      obtain ⟨old, stored, same⟩ : ∃ old, store.entries[place]? = some old ∧ old.triple = added := by
        simpa using (indexed.ids added place).mp found
      have dead : old.live = false :=
        Bool.eq_false_iff.mpr fun live => present (mem_triples_iff.mpr ⟨place, old, stored, live, same⟩)
      have bound : place < store.entries.size := (Array.getElem?_eq_some_iff.mp stored).1
      refine ⟨place, fun entry also => Option.some.inj (stored.symm.trans also) ▸ dead, fun id => ?_⟩
      rw [if_neg (by simp [stored, dead]), Array.set!_eq_setIfInBounds, Array.getElem?_setIfInBounds]
      by_cases here : id = place
      · simp [here, bound]
      · simp [here, Ne.symm here]
    next => exact ⟨store.entries.size, by simp, fun id => Array.getElem?_push⟩

theorem Indexed.mem_insert {store : TripleStore} (indexed : store.Indexed) (added : Triple) {triple : Triple} :
    triple ∈ (store.insert added).2.liveRows.map Row.triple ↔ triple ∈ store.liveRows.map Row.triple ∨ triple = added := by
  rcases indexed.insert_cases added with ⟨present, same⟩ | ⟨-, place, dead, entries⟩
  · rw [same]
    exact (or_iff_left_of_imp fun equal => equal ▸ present).symm
  · simp only [mem_triples_iff, entries]
    constructor
    · rintro ⟨id, entry, stored, live, rfl⟩
      split at stored
      · exact .inr (Option.some.inj stored ▸ rfl)
      · exact .inl ⟨id, entry, stored, live, rfl⟩
    · rintro (⟨id, entry, stored, live, rfl⟩ | rfl)
      · have apart : id ≠ place := by
          rintro rfl
          rw [dead entry stored] at live
          cases live
        exact ⟨id, entry, by rwa [if_neg apart], live, rfl⟩
      · exact ⟨place, _, if_pos rfl, rfl, rfl⟩

/-- The rows of before stay as they are, and the new ones are unused. -/
theorem Indexed.row_insert {store : TripleStore} (indexed : store.Indexed) (added : Triple) {row : Row}
    (member : row ∈ (store.insert added).2.liveRows) :
    (row ∈ store.liveRows ∧ (store.insert added).2.isConsumed row.id = store.isConsumed row.id) ∨
      (row.triple ∉ store.liveRows.map Row.triple ∧ (store.insert added).2.isConsumed row.id = false) := by
  rcases indexed.insert_cases added with ⟨-, same⟩ | ⟨absent, place, -, entries⟩
  · rw [same] at member ⊢
    exact .inl ⟨member, rfl⟩
  · obtain ⟨-, entry, stored, live, same⟩ := row?_eq_some.mp (mem_liveRows.mp member)
    rw [isConsumed, isConsumed, stored]
    rw [entries] at stored
    split at stored
    · obtain rfl := Option.some.inj stored
      exact .inr ⟨same ▸ absent, rfl⟩
    · exact .inl ⟨mem_liveRows.mpr (row?_eq_some.mpr ⟨rfl, entry, stored, live, same⟩), by rw [stored]⟩

theorem Indexed.mem_insertAll (added : List Triple) {triple : Triple} : ∀ {store : TripleStore}, store.Indexed →
    (triple ∈ (store.insertAll added).liveRows.map Row.triple ↔ triple ∈ store.liveRows.map Row.triple ∨ triple ∈ added) := by
  induction added with
  | nil => simp [TripleStore.insertAll]
  | cons first rest ih =>
    intro store indexed
    rw [TripleStore.insertAll, List.foldl_cons, ← TripleStore.insertAll, ih (indexed.insert first), indexed.mem_insert,
      List.mem_cons, or_assoc]

theorem Indexed.row_insertAll (added : List Triple) {row : Row} : ∀ {store : TripleStore}, store.Indexed →
    row ∈ (store.insertAll added).liveRows →
    (row ∈ store.liveRows ∧ (store.insertAll added).isConsumed row.id = store.isConsumed row.id) ∨
      (row.triple ∉ store.liveRows.map Row.triple ∧ (store.insertAll added).isConsumed row.id = false) := by
  induction added with
  | nil => exact fun _ member => .inl ⟨member, rfl⟩
  | cons first rest ih =>
    intro store indexed member
    rcases ih (indexed.insert first) member with ⟨before, same⟩ | ⟨absent, unused⟩
    · rcases indexed.row_insert first before with ⟨old, also⟩ | ⟨new, unused⟩
      · exact .inl ⟨old, same.trans also⟩
      · exact .inr ⟨new, same.trans unused⟩
    · exact .inr ⟨fun old => absent ((indexed.mem_insert first).mpr (.inl old)), unused⟩

theorem size_liveRows_le (store : TripleStore) : store.liveRows.length ≤ store.entries.size := by
  simpa [liveRows] using List.length_filterMap_le store.row? (List.range store.entries.size)

theorem unconsumed_eq (store : TripleStore) :
    store.unconsumed = store.liveRows.filter fun row => !store.isConsumed row.id := by
  rw [unconsumed, liveRows, List.filter_filterMap]
  apply List.filterMap_congr
  intro id _
  cases found : store.row? id with
  | none => rfl
  | some row => simp [(row?_eq_some.mp found).1, Option.filter]

section Consume

theorem consume_shape (store : TripleStore) (id : TripleId) :
    store.consume id =
      { store with entries := (store.consume id).entries, log := (store.consume id).log } := by
  unfold consume
  split <;> rfl

theorem entries_consume (store : TripleStore) (id other : TripleId) :
    (store.consume id).entries[other]? =
      (store.entries[other]?).map fun entry =>
        if other = id then { entry with consumed := true } else entry := by
  unfold consume
  split
  next fresh =>
    rw [Array.getElem?_modify]
    by_cases same : id = other
    · subst same
      simp
    · have other_ne : ¬ other = id := fun equal => same equal.symm
      simp [same, other_ne]
  next stale =>
    by_cases same : other = id
    · subst same
      cases found : store.entries[other]? with
      | none => rfl
      | some entry =>
        have used : entry.consumed = true := by simpa [found] using stale
        simp [← used]
    · simp [same]

variable (store : TripleStore) (id : TripleId)

@[simp] theorem blanks_consume : (store.consume id).blanks = store.blanks := by
  rw [consume_shape]

theorem size_entries_consume : (store.consume id).entries.size = store.entries.size := by
  unfold consume
  split <;> simp

theorem row?_consume (other : TripleId) : (store.consume id).row? other = store.row? other := by
  unfold row?
  rw [entries_consume]
  cases store.entries[other]? with
  | none => rfl
  | some entry => by_cases same : other = id <;> simp [same, Option.filter]

@[simp] theorem liveRows_consume : (store.consume id).liveRows = store.liveRows := by
  rw [liveRows, liveRows, size_entries_consume]
  exact List.filterMap_congr fun other _ => row?_consume store id other

theorem indexed_consume (indexed : store.Indexed) : (store.consume id).Indexed := by
  refine indexed.of_same ?_ (consume_shape store id)
  apply Array.ext_getElem?
  intro other
  rw [Array.getElem?_map, Array.getElem?_map, entries_consume, Option.map_map]
  cases store.entries[other]? with
  | none => rfl
  | some entry => by_cases same : other = id <;> simp [same]

theorem isConsumed_consume {id : TripleId} {row : Row} (member : row ∈ store.liveRows) :
    (store.consume id).isConsumed row.id = (store.isConsumed row.id || row.id == id) := by
  obtain ⟨-, entry, present, -, -⟩ := row?_eq_some.mp (mem_liveRows.mp member)
  rw [isConsumed, isConsumed, entries_consume, present]
  by_cases same : row.id = id <;> simp [same]

end Consume

section ConsumeAll

variable (store : TripleStore)

theorem consumeAll_append (rows others : List Row) :
    store.consumeAll (rows ++ others) = (store.consumeAll rows).consumeAll others :=
  List.foldl_append

@[simp] theorem liveRows_consumeAll (rows : List Row) : (store.consumeAll rows).liveRows = store.liveRows := by
  induction rows generalizing store with
  | nil => rfl
  | cons row rows ih => exact (ih (store.consume row.id)).trans (liveRows_consume store row.id)

theorem indexed_consumeAll {store : TripleStore} (indexed : store.Indexed) (rows : List Row) :
    (store.consumeAll rows).Indexed := by
  induction rows generalizing store with
  | nil => exact indexed
  | cons row rows ih => exact ih (indexed_consume store row.id indexed)

theorem isConsumed_consumeAll {store : TripleStore} {row : Row} (member : row ∈ store.liveRows) (rows : List Row) :
    (store.consumeAll rows).isConsumed row.id = (store.isConsumed row.id || rows.any fun other => row.id == other.id) := by
  induction rows generalizing store with
  | nil => rw [List.any_nil, Bool.or_false, consumeAll, List.foldl_nil]
  | cons other rows ih =>
    rw [← liveRows_consume store other.id] at member
    calc
      (store.consumeAll (other :: rows)).isConsumed row.id
      _ = ((store.consume other.id).isConsumed row.id || rows.any fun other => row.id == other.id) := ih member
      _ = _ := by
        rw [isConsumed_consume store (liveRows_consume store other.id ▸ member), List.any_cons, Bool.or_assoc]

/-- Of two live rows with the same number each is the other. -/
theorem eq_of_id {store : TripleStore} {row other : Row} (member : row ∈ store.liveRows) (present : other ∈ store.liveRows)
    (same : row.id = other.id) : row = other := by
  have first := mem_liveRows.mp member
  have second := mem_liveRows.mp present
  rw [same, second] at first
  exact (Option.some.inj first).symm

end ConsumeAll

section Rollback

/-- Whether there is such a triple, and it is not consumed. -/
def isFree (store : TripleStore) (id : TripleId) : Bool := (store.entries[id]?).any (!·.consumed)

theorem not_consumed_of_free {store : TripleStore} {id : TripleId} (free : store.isFree id = true) :
    store.isConsumed id = false := by
  rw [isFree] at free
  rw [isConsumed]
  cases present : store.entries[id]? with
  | none => rfl
  | some entry => simpa [present] using free

theorem consume_eq (store : TripleStore) (id : TripleId) : store.consume id =
    if store.isFree id then
      { store with
        entries := store.entries.modify id fun entry => { entry with consumed := true }
        log := store.log.push id }
    else store := rfl

/-- The store with some more triples consumed, which the log lists after those of before. -/
structure Extends (store after : TripleStore) (fresh : List TripleId) : Prop where
  others : after = { store with entries := after.entries, log := after.log }
  log : after.log = store.log ++ fresh.toArray
  entries : ∀ id, after.entries[id]? =
    (store.entries[id]?).map fun entry => if id ∈ fresh then { entry with consumed := true } else entry
  fresh : ∀ id ∈ fresh, store.isConsumed id = false

variable {store after : TripleStore} {fresh : List TripleId}

theorem Extends.consume (extending : Extends store after fresh) (id : TripleId) :
    ∃ more, Extends store (after.consume id) more ∧ (fresh.Nodup → more.Nodup) ∧
      ∀ other, other ∈ more ↔ other ∈ fresh ∨ other = id ∧ store.isFree other = true := by
  have entry := extending.entries id
  by_cases unused : after.isFree id = true
  · have marked := entries_consume after id
    have log : (after.consume id).log = after.log.push id := by rw [consume_eq, if_pos unused]
    have outside : id ∉ fresh := by
      intro inside
      rw [isFree, entry] at unused
      cases present : store.entries[id]? <;> simp [present, inside] at unused
    have free : store.isFree id = true := by
      rw [isFree, entry] at unused
      rw [isFree]
      simpa [outside] using unused
    refine ⟨fresh ++ [id], ⟨?_, ?_, fun other => ?_, fun other inside => ?_⟩, ?_, ?_⟩
    · rw [consume_shape, extending.others]
    · rw [log, extending.log]
      simp
    · rw [marked, extending.entries, Option.map_map]
      by_cases same : other = id
      · subst same
        simp [outside, Function.comp_def]
      · simp [same, Function.comp_def]
    · rcases List.mem_append.mp inside with inside | last
      · exact extending.fresh other inside
      · obtain rfl := List.mem_singleton.mp last
        exact not_consumed_of_free free
    · intro distinct
      exact List.nodup_append.mpr ⟨distinct, List.nodup_singleton id, by simpa using fun other inside => ne_of_mem_of_not_mem inside outside⟩
    · intro other
      rw [List.mem_append, List.mem_singleton]
      exact or_congr_right ⟨fun same => ⟨same, same ▸ free⟩, fun both => both.1⟩
  · refine ⟨fresh, by rwa [consume_eq, if_neg unused], fun distinct => distinct, fun other => ⟨.inl, ?_⟩⟩
    rintro (inside | ⟨rfl, free⟩)
    · exact inside
    · by_contra outside
      apply unused
      rw [isFree] at free
      rw [isFree, entry]
      simpa [outside] using free

theorem Extends.consumeAll (rows : List Row) : ∀ {after : TripleStore} {fresh : List TripleId},
    Extends store after fresh → ∃ more, Extends store (after.consumeAll rows) more ∧ (fresh.Nodup → more.Nodup) ∧
      ∀ id, id ∈ more ↔ id ∈ fresh ∨ (∃ row ∈ rows, row.id = id) ∧ store.isFree id = true := by
  induction rows with
  | nil => exact fun extending => ⟨_, extending, fun distinct => distinct, by simp⟩
  | cons row rows ih =>
    intro after fresh extending
    obtain ⟨some, extending, distinct, known⟩ := extending.consume row.id
    obtain ⟨more, extending, further, told⟩ := ih extending
    refine ⟨more, extending, fun alone => further (distinct alone), fun id => ?_⟩
    rw [told, known, List.exists_mem_cons_iff, or_assoc, or_and_right, eq_comm (a := id)]

/-- Consuming triples adds those to the log that were not consumed yet. -/
theorem extends_consumeAll (store : TripleStore) (rows : List Row) :
    ∃ fresh, Extends store (store.consumeAll rows) fresh ∧ fresh.Nodup ∧
      ∀ id, id ∈ fresh ↔ (∃ row ∈ rows, row.id = id) ∧ store.isFree id = true := by
  have none : Extends store store [] := ⟨rfl, by simp, by simp, by simp⟩
  obtain ⟨fresh, extending, distinct, known⟩ := none.consumeAll rows
  exact ⟨fresh, extending, distinct List.nodup_nil, by simpa using known⟩

private theorem free_all (fresh : List TripleId) : ∀ (entries : Array StoredTriple) (id : TripleId),
    (fresh.foldl (fun entries id => entries.modify id fun entry => { entry with consumed := false }) entries)[id]? =
      (entries[id]?).map fun entry => if id ∈ fresh then { entry with consumed := false } else entry := by
  induction fresh with
  | nil => simp
  | cons other fresh ih =>
    intro entries id
    rw [List.foldl_cons, ih, Array.getElem?_modify]
    by_cases same : other = id
    · subst same
      simp [Function.comp_def]
    · have differs : ¬ id = other := fun equal => same equal.symm
      simp [same, differs]

theorem entries_rollback (store : TripleStore) (position : Nat) (id : TripleId) : (store.rollback position).entries[id]? =
    (store.entries[id]?).map fun entry =>
      if id ∈ store.log.toList.drop position then { entry with consumed := false } else entry := free_all _ _ _

theorem indexed_rollback {store : TripleStore} (indexed : store.Indexed) (position : Nat) : (store.rollback position).Indexed := by
  refine indexed.of_same ?_ rfl
  apply Array.ext_getElem?
  intro id
  rw [Array.getElem?_map, Array.getElem?_map, entries_rollback, Option.map_map]
  cases store.entries[id]? with
  | none => rfl
  | some entry => by_cases inside : id ∈ store.log.toList.drop position <;> simp [inside]

theorem indexed_remove {store : TripleStore} (indexed : store.Indexed) (id : TripleId) : (store.remove id).Indexed := by
  refine indexed.of_same ?_ rfl
  apply Array.ext_getElem?
  intro other
  rw [Array.getElem?_map, Array.getElem?_map, TripleStore.remove, Array.getElem?_modify]
  cases store.entries[other]? with
  | none => simp
  | some entry => by_cases same : id = other <;> simp [same]

/-- Rolled back, the store is what it was. -/
theorem Extends.rollback (extending : Extends store after fresh) : after.rollback store.checkpoint = store := by
  have added : after.log.toList.drop store.checkpoint = fresh := by
    rw [extending.log, checkpoint]
    simp
  have log : after.log.take store.checkpoint = store.log := by
    rw [extending.log, checkpoint]
    simp
  have entries : fresh.foldl (fun entries id => entries.modify id fun entry => { entry with consumed := false })
      after.entries = store.entries := by
    apply Array.ext_getElem?
    intro id
    rw [free_all, extending.entries, Option.map_map]
    cases present : store.entries[id]? with
    | none => rfl
    | some entry =>
      by_cases inside : id ∈ fresh
      · have free := extending.fresh id inside
        have clear : entry.consumed = false := by simpa [isConsumed, present] using free
        simp [inside, ← clear]
      · simp [inside]
  rw [TripleStore.rollback, added, log, entries, extending.others]

theorem rollback_consumeAll (store : TripleStore) (rows : List Row) :
    (store.consumeAll rows).rollback store.checkpoint = store := by
  obtain ⟨fresh, extending, -⟩ := store.extends_consumeAll rows
  exact extending.rollback

end Rollback

section OfTriples

private theorem insert_absent {store : TripleStore} {triple : Triple} (absent : store.ids[triple]? = none) :
    (store.insert triple).2.entries = store.entries.push ⟨triple, true, false⟩ ∧
      (store.insert triple).2.blanks = triple.blanks.foldl rankBlank store.blanks := by
  simp only [TripleStore.insert, absent, and_self]

private theorem absent_of_not_mem {store : TripleStore} (indexed : store.Indexed) {triple : Triple}
    (fresh : triple ∉ store.entries.map StoredTriple.triple) : store.ids[triple]? = none := by
  cases found : store.ids[triple]? with
  | none => rfl
  | some id =>
    exact absurd (Array.mem_of_getElem? ((indexed.ids triple id).mp found)) fresh

private theorem insert_all (triples : List Triple) : ∀ (store : TripleStore), store.Indexed →
    ((store.entries.map StoredTriple.triple).toList ++ triples).Nodup →
    (triples.foldl (fun store triple => (store.insert triple).2) store).entries.toList =
      store.entries.toList ++ triples.map (⟨·, true, false⟩) := by
  induction triples with
  | nil => simp
  | cons triple rest ih =>
    intro store indexed distinct
    have fresh : triple ∉ store.entries.map StoredTriple.triple := by
      intro member
      exact List.nodup_append.mp distinct |>.2.2 triple (by simpa using member) triple
        List.mem_cons_self rfl
    obtain ⟨entries, -⟩ := insert_absent (absent_of_not_mem indexed fresh)
    have next := ih (store.insert triple).2 (indexed.insert triple) (by simpa [entries] using distinct)
    rw [List.foldl_cons, next, entries]
    simp

private theorem pick_all (triples : List Triple) :
    (List.range triples.length).filterMap (fun id => triples[id]?) = triples := by
  induction triples with
  | nil => rfl
  | cons triple rest ih =>
    have later : (fun id => (triple :: rest)[id]?) ∘ Nat.succ = fun id => rest[id]? := by
      funext id
      exact List.getElem?_cons_succ
    rw [List.length_cons, List.range_succ_eq_map, List.filterMap_cons, List.filterMap_map, later, ih]
    rfl

variable {triples : List Triple} (distinct : triples.Nodup)
include distinct

theorem entries_ofTriples : (ofTriples triples).entries.toList = triples.map (⟨·, true, false⟩) := by
  simpa [ofTriples] using insert_all triples {} indexed_empty (by simpa using distinct)

theorem isConsumed_ofTriples (id : TripleId) : (ofTriples triples).isConsumed id = false := by
  rw [isConsumed, ← Array.getElem?_toList, entries_ofTriples distinct, List.getElem?_map]
  cases triples[id]? <;> simp

theorem size_ofTriples : (ofTriples triples).entries.size = triples.length := by
  rw [← Array.length_toList, entries_ofTriples distinct, List.length_map]

theorem row?_ofTriples (id : TripleId) : (ofTriples triples).row? id = triples[id]?.map (⟨id, ·⟩) := by
  rw [row?, ← Array.getElem?_toList, entries_ofTriples distinct, List.getElem?_map]
  cases triples[id]? <;> simp [Option.filter]

theorem liveRows_ofTriples : (ofTriples triples).liveRows.map Row.triple = triples := by
  rw [liveRows, size_ofTriples distinct, List.map_filterMap]
  have pick : ∀ id ∈ List.range triples.length,
      ((ofTriples triples).row? id).map Row.triple = triples[id]? := by
    intro id _
    rw [row?_ofTriples distinct id, Option.map_map]
    exact Option.map_id'
  rw [List.filterMap_congr pick, pick_all]

end OfTriples

/-- The store lists these rows, and those with these numbers are used. -/
structure Lists (store : TripleStore) (rows : List Row) (used : List TripleId) : Prop where
  indexed : store.Indexed
  listed : store.liveRows = rows
  used : ∀ row ∈ rows, store.isConsumed row.id = used.contains row.id

theorem lists_ofTriples {triples : List Triple} (distinct : triples.Nodup) :
    Lists (ofTriples triples) ((List.range triples.length).filterMap fun id => triples[id]?.map (⟨id, ·⟩)) [] := by
  refine ⟨indexed_ofTriples triples, ?_, fun row _ => isConsumed_ofTriples distinct row.id⟩
  rw [liveRows, size_ofTriples distinct]
  exact List.filterMap_congr fun id _ => row?_ofTriples distinct id

theorem Lists.consume {store : TripleStore} {rows : List Row} {used : List TripleId} (lists : Lists store rows used)
    (id : TripleId) : Lists (store.consume id) rows (id :: used) := by
  refine ⟨indexed_consume _ _ lists.indexed, (liveRows_consume _ _).trans lists.listed, fun row member => ?_⟩
  rw [isConsumed_consume _ (lists.listed ▸ member), lists.used row member, List.contains_cons, Bool.or_comm]

theorem Lists.unconsumed {store : TripleStore} {rows : List Row} {used : List TripleId} (lists : Lists store rows used) :
    store.unconsumed = rows.filter fun row => !used.contains row.id := by
  rw [unconsumed_eq, lists.listed]
  exact List.filter_congr fun row member => by rw [lists.used row member]

section Repeated

theorem insert_present {store : TripleStore} (indexed : store.Indexed) {triple : Triple}
    (present : triple ∈ store.liveRows.map Row.triple) : (store.insert triple).2 = store :=
  (indexed.insert_cases triple).elim And.right fun absent => absurd present absent.1

theorem ofTriples_concat (triples : List Triple) (triple : Triple) :
    ofTriples (triples ++ [triple]) = ((ofTriples triples).insert triple).2 := by
  rw [ofTriples, List.foldl_append]
  rfl

/-- Inserting a triple again changes nothing, so the distinct triples make up the store. -/
theorem exists_distinct (triples : List Triple) : ∃ distinct : List Triple, distinct.Nodup ∧
    (∀ triple, triple ∈ distinct ↔ triple ∈ triples) ∧ ofTriples triples = ofTriples distinct := by
  induction triples using List.reverseRecOn with
  | nil => exact ⟨[], List.nodup_nil, fun _ => Iff.rfl, rfl⟩
  | append_singleton triples triple ih =>
    obtain ⟨distinct, nodup, members, same⟩ := ih
    by_cases present : triple ∈ distinct
    · refine ⟨distinct, nodup, fun other => ?_, ?_⟩
      · rw [List.mem_append, List.mem_singleton, ← members]
        exact ⟨.inl, fun cases => cases.elim id fun same => same ▸ present⟩
      · rw [ofTriples_concat, same, insert_present (indexed_ofTriples distinct)]
        rwa [liveRows_ofTriples nodup]
    · refine ⟨distinct ++ [triple], ?_, fun other => ?_, ?_⟩
      · exact List.nodup_append.mpr ⟨nodup, List.nodup_singleton triple, fun one member two single same =>
          present (List.mem_singleton.mp single ▸ same ▸ member)⟩
      · rw [List.mem_append, List.mem_append, members]
      · rw [ofTriples_concat, ofTriples_concat, same]

variable (triples : List Triple)

theorem mem_rows_ofTriples (triple : Triple) :
    triple ∈ (ofTriples triples).liveRows.map Row.triple ↔ triple ∈ triples := by
  refine (indexed_empty.mem_insertAll triples).trans (or_iff_right ?_)
  simp [mem_triples_iff]

theorem unused_ofTriples (id : TripleId) : (ofTriples triples).isConsumed id = false := by
  obtain ⟨distinct, nodup, -, same⟩ := exists_distinct triples
  rw [same, isConsumed_ofTriples nodup]

end Repeated

section Ranks

/-- The nodes are ranked in the order of their first occurrences. -/
structure RankedBy (blanks : Std.HashMap BlankNode Nat) (nodes : List BlankNode) : Prop where
  size : blanks.size = nodes.eraseDups.length
  ranks : ∀ node, blanks[node]? = if node ∈ nodes then some (nodes.eraseDups.idxOf node) else none

theorem RankedBy.contains_iff {blanks : Std.HashMap BlankNode Nat} {nodes : List BlankNode} (ranked : RankedBy blanks nodes)
    (node : BlankNode) : blanks.contains node ↔ node ∈ nodes := by
  rw [Std.HashMap.contains_eq_isSome_getElem?, ranked.ranks]
  split <;> simp [*]

/-- Ranking more nodes changes no rank. -/
theorem rank_foldl (nodes : List BlankNode) : ∀ {blanks : Std.HashMap BlankNode Nat} {node : BlankNode} {rank : Nat},
    blanks[node]? = some rank → (nodes.foldl rankBlank blanks)[node]? = some rank := by
  induction nodes with
  | nil => exact fun found => found
  | cons other nodes ih =>
    intro blanks node rank found
    refine ih ?_
    rw [rankBlank]
    split
    · exact found
    · next absent =>
      have apart : ¬ (other == node) = true := by
        intro same
        rw [eq_of_beq same, Std.HashMap.contains_eq_isSome_getElem?, found] at absent
        exact absent rfl
      rw [Std.HashMap.getElem?_insert, if_neg apart, found]

theorem rank_insert {store : TripleStore} {node : BlankNode} {rank : Nat} (found : store.blanks[node]? = some rank)
    (triple : Triple) : (store.insert triple).2.blanks[node]? = some rank := by
  rw [insert]
  split
  · split <;> exact found
  · exact rank_foldl triple.blanks found

/-- Nodes that are ranked keep their ranks. -/
theorem RankedBy.known {blanks : Std.HashMap BlankNode Nat} {nodes more : List BlankNode} (ranked : RankedBy blanks nodes)
    (known : more ⊆ nodes) : RankedBy blanks (nodes ++ more) := by
  have kept : (nodes ++ more).eraseDups = nodes.eraseDups := by
    have none : more.removeAll nodes = [] := by
      rw [List.removeAll, List.filter_eq_nil_iff]
      exact fun node member => by simpa using known member
    rw [List.eraseDups_append, none, List.eraseDups_nil, List.append_nil]
  have same (node : BlankNode) : node ∈ nodes ++ more ↔ node ∈ nodes :=
    List.mem_append.trans ⟨fun either => either.elim id fun member => known member, .inl⟩
  exact ⟨kept ▸ ranked.size, fun node => by rw [ranked.ranks, kept, if_congr (same node) rfl rfl]⟩

theorem RankedBy.rankBlank {blanks : Std.HashMap BlankNode Nat} {nodes : List BlankNode} (ranked : RankedBy blanks nodes)
    (last : BlankNode) : RankedBy (rankBlank blanks last) (nodes ++ [last]) := by
  rw [TripleStore.rankBlank]
  by_cases seen : last ∈ nodes
  · rw [if_pos ((ranked.contains_iff last).mpr seen)]
    exact ranked.known fun node member => List.mem_singleton.mp member ▸ seen
  · have added : (nodes ++ [last]).eraseDups = nodes.eraseDups ++ [last] := by
      rw [List.eraseDups_append]
      simp [List.removeAll, seen, List.eraseDups_cons]
    have absent : ¬ blanks.contains last := fun inside => seen ((ranked.contains_iff last).mp inside)
    rw [if_neg absent]
    refine ⟨?_, fun node => ?_⟩
    · rw [Std.HashMap.size_insert, if_neg (fun inside => absent (Std.HashMap.contains_iff_mem.mpr inside)), ranked.size,
        added, List.length_append]
      rfl
    · simp only [Std.HashMap.getElem?_insert, ranked.ranks, added, List.idxOf_append, List.mem_append, List.mem_singleton,
        List.mem_eraseDups]
      by_cases same : last = node
      · subst same
        simp [seen, ranked.size]
      · by_cases member : node ∈ nodes <;> simp [same, Ne.symm same, member]

theorem RankedBy.foldl {blanks : Std.HashMap BlankNode Nat} {nodes : List BlankNode} (ranked : RankedBy blanks nodes)
    (more : List BlankNode) : RankedBy (more.foldl TripleStore.rankBlank blanks) (nodes ++ more) := by
  induction more generalizing blanks nodes with
  | nil => rwa [List.append_nil]
  | cons node more ih =>
    rw [List.append_cons]
    exact ih (ranked.rankBlank node)

theorem mem_stored_ofTriples (triples : List Triple) (triple : Triple) :
    triple ∈ (ofTriples triples).entries.map StoredTriple.triple ↔ triple ∈ triples := by
  obtain ⟨distinct, nodup, members, same⟩ := exists_distinct triples
  rw [← Array.mem_toList_iff, Array.toList_map, same, entries_ofTriples nodup, List.map_map, ← members]
  exact Iff.of_eq (congrArg (triple ∈ ·) (List.map_id' distinct))

/-- Every blank node of the triples has the rank of its first occurrence: a triple that is there
already adds none. -/
theorem ranked_ofTriples (triples : List Triple) : RankedBy (ofTriples triples).blanks (triples.flatMap Triple.blanks) := by
  induction triples using List.reverseRecOn with
  | nil => exact ⟨rfl, fun node => by simp [ofTriples]⟩
  | append_singleton triples triple ih =>
    rw [ofTriples_concat, List.flatMap_append, List.flatMap_singleton]
    by_cases present : triple ∈ triples
    · rw [insert_present (indexed_ofTriples triples) ((mem_rows_ofTriples triples triple).mpr present)]
      exact ih.known fun node member => List.mem_flatMap.mpr ⟨triple, present, member⟩
    · have absent := absent_of_not_mem (indexed_ofTriples triples) fun stored =>
        present ((mem_stored_ofTriples triples triple).mp stored)
      rw [(insert_absent absent).2]
      exact ih.foldl triple.blanks

end Ranks

end OwlGraph.TripleStore
