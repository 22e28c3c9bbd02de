import OwlGraph.Proofs.CanonicalOrder
import OwlGraph.Proofs.ListSpine

/-! A working set is told by the calls that made it. What was ever inserted has its number from its
first insertion, and is there if the last call about it inserted it. Every lookup filters the rows
that this leaves. -/

namespace OwlGraph.TripleStore

/-- A call that changes the working set. -/
inductive Call where
  | insert (triple : Triple)
  | remove (id : TripleId)
  | consume (id : TripleId)
  | rollback (position : Nat)
deriving DecidableEq

namespace Call

def inserted? : Call → Option Triple
  | .insert triple => some triple
  | .remove _ | .consume _ | .rollback _ => none

/-- Whether the row is there after the call, if the call is about the row. -/
def settles (row : Row) : Call → Option Bool
  | .insert triple => if triple = row.triple then some true else none
  | .remove id => if id = row.id then some false else none
  | .consume _ | .rollback _ => none

end Call

def perform (store : TripleStore) : Call → TripleStore
  | .insert triple => (store.insert triple).2
  | .remove id => store.remove id
  | .consume id => store.consume id
  | .rollback position => store.rollback position

/-- The store after the calls. -/
def run (store : TripleStore) (calls : List Call) : TripleStore := calls.foldl perform store

/-- The store after the calls, empty at first. -/
def replay (calls : List Call) : TripleStore := run {} calls

/-- The triples that the calls insert, in the order of their first insertion. -/
def known (calls : List Call) : List Triple := (calls.filterMap Call.inserted?).eraseDups

/-- Whether the last call about the row inserts it. -/
def leaves (calls : List Call) (row : Row) : Bool := (calls.filterMap (·.settles row)).getLast?.getD false

/-- The rows that the calls leave. The number of a triple is its place in the order of first insertion. -/
def remaining (calls : List Call) : List Row := ((known calls).mapIdx Row.mk).filter (leaves calls)

/-- What the first of the calls that inserts the triple answers. -/
def firstAnswer (triple : Triple) : TripleStore → List Call → Option TripleId
  | _, [] => none
  | store, call :: rest =>
    if call = .insert triple then (store.insert triple).1 else firstAnswer triple (store.perform call) rest

/-- Every lookup of the store filters the rows, each of which is about a triple of its own. -/
structure Filters (store : TripleStore) (rows : List Row) : Prop where
  distinct : (rows.map Row.triple).Nodup
  withSubject : ∀ subject, store.withSubject subject = rows.filter fun row => row.triple.subject = subject
  withPredicate : ∀ predicate, store.withPredicate predicate = rows.filter fun row => row.triple.predicate = predicate
  withObject : ∀ object, store.withObject object = rows.filter fun row => row.triple.object = object
  matching : ∀ subject predicate, store.matching subject predicate =
    rows.filter fun row => row.triple.subject = subject ∧ row.triple.predicate = predicate
  objects : ∀ subject predicate, store.objects subject predicate =
    (rows.filter fun row => row.triple.subject = subject ∧ row.triple.predicate = predicate).map fun row => row.triple.object
  nodup_objects : ∀ subject predicate, (store.objects subject predicate).Nodup
  types : ∀ subject, store.types subject =
    (rows.filter fun row => row.triple.subject = subject ∧ row.triple.predicate = Rdf.type).filterMap fun row => row.triple.object.iri?
  nodup_types : ∀ subject, (store.types subject).Nodup
  unconsumed : store.unconsumed = rows.filter fun row => store.isConsumed row.id = false
  find? : ∀ triple id, store.find? triple = some id ↔ ⟨id, triple⟩ ∈ rows
  size : store.size = rows.length

/-- What stands in the places of an array, in their order. -/
theorem mapIdx_eq_filterMap {α β : Type} (items : List α) : ∀ place : Nat → α → β,
    items.mapIdx place = (List.range items.length).filterMap fun id => items[id]?.map (place id) := by
  induction items with
  | nil => exact fun _ => rfl
  | cons item rest ih =>
    intro place
    rw [List.mapIdx_cons, ih, List.length_cons, List.range_succ_eq_map, List.filterMap_cons, List.filterMap_map]
    rfl

theorem size_eq (store : TripleStore) : store.size = store.liveRows.length := by
  have entries : store.entries.toList = (List.range store.entries.size).filterMap fun id => store.entries[id]? := by
    have places := mapIdx_eq_filterMap store.entries.toList fun _ entry => entry
    rw [List.mapIdx_eq_zipIdx_map] at places
    simpa using places
  rw [size, entries, List.countP_filterMap, liveRows, List.length_filterMap_eq_countP]
  refine List.countP_congr fun id _ => ?_
  rw [row?]
  cases store.entries[id]? with
  | none => simp
  | some entry => cases live : entry.live <;> simp [live, Option.filter]

/-- Lookups in an orderly store filter its live rows. -/
theorem Indexed.filters {store : TripleStore} (indexed : store.Indexed) : store.Filters store.liveRows := by
  have distinct : (store.liveRows.map Row.triple).Nodup :=
    (nodup_liveRows store).map_on fun row member other present same => indexed.row_eq member present same
  have matching (subject : Node) (predicate : Iri) : store.matching subject predicate =
      store.liveRows.filter fun row => row.triple.subject = subject ∧ row.triple.predicate = predicate := by
    rw [indexed.matching]
    exact List.filter_congr fun row _ => (Bool.decide_and _ _).symm
  have objects (subject : Node) (predicate : Iri) : (store.objects subject predicate).Nodup := by
    have rows : (store.matching subject predicate).Nodup := matching subject predicate ▸ (nodup_liveRows store).filter _
    refine rows.map_on fun row member other present same => ?_
    obtain ⟨live, triple⟩ := indexed.mem_matching.mp member
    obtain ⟨alive, second⟩ := indexed.mem_matching.mp present
    exact indexed.row_eq live alive (by rw [triple, second, same])
  refine ⟨distinct, indexed.withSubject, indexed.withPredicate, indexed.withObject, matching, fun subject predicate => ?_, objects,
    fun subject => ?_, fun subject => ?_, ?_, fun triple id => indexed.find?_eq_some, ?_⟩
  · rw [TripleStore.objects, matching]
  · rw [TripleStore.types, TripleStore.objects, matching, List.filterMap_map]
    rfl
  · refine (objects subject Rdf.type).filterMap fun term other iri named also => ?_
    rw [Term.iri?_eq_some.mp named, Term.iri?_eq_some.mp also]
  · rw [unconsumed_eq]
    exact List.filter_congr fun row _ => by cases store.isConsumed row.id <;> rfl
  · exact size_eq store

theorem Call.inserted?_eq_some {call : Call} {triple : Triple} : call.inserted? = some triple ↔ call = .insert triple := by
  cases call <;> simp [Call.inserted?]

theorem mem_known {calls : List Call} {triple : Triple} : triple ∈ known calls ↔ .insert triple ∈ calls := by
  simp only [known, List.mem_eraseDups, List.mem_filterMap, Call.inserted?_eq_some, exists_eq_right]

section Calls

variable (calls : List Call) (call : Call)

theorem run_concat (store : TripleStore) : store.run (calls ++ [call]) = (store.run calls).perform call := List.foldl_concat ..

theorem leaves_concat (row : Row) : leaves (calls ++ [call]) row = (call.settles row).getD (leaves calls row) := by
  rw [leaves, leaves, List.filterMap_append, List.getLast?_append]
  cases settled : call.settles row <;> simp [settled]

/-- A call that inserts nothing new. -/
theorem known_concat (nothing : ∀ triple, call.inserted? = some triple → triple ∈ known calls) :
    known (calls ++ [call]) = known calls := by
  have none : ([call].filterMap Call.inserted?).removeAll (calls.filterMap Call.inserted?) = [] := by
    rw [List.removeAll, List.filter_eq_nil_iff]
    intro triple member
    have inserted : call.inserted? = some triple := by simpa using member
    simpa [known] using nothing triple inserted
  rw [known, List.filterMap_append, List.eraseDups_append, none, List.eraseDups_nil, List.append_nil, known]

theorem known_concat_new {triple : Triple} (new : triple ∉ known calls) :
    known (calls ++ [.insert triple]) = known calls ++ [triple] := by
  have outside : triple ∉ calls.filterMap Call.inserted? := by rwa [known, List.mem_eraseDups] at new
  have added : ([.insert triple].filterMap Call.inserted?).removeAll (calls.filterMap Call.inserted?) = [triple] :=
    List.filter_eq_self.mpr fun other member => by simpa [List.mem_singleton.mp member] using outside
  rw [known, List.filterMap_append, List.eraseDups_append, added, known]
  rfl

end Calls

section Insertion

variable {store : TripleStore} {triple : Triple} {id : TripleId}

/-- Inserting a triple that has a number revives it, if it is not there. -/
theorem Indexed.entries_insert (indexed : store.Indexed) (found : store.ids[triple]? = some id) (other : TripleId) :
    (store.insert triple).2.entries[other]? = (store.entries[other]?).map fun entry =>
      if other = id then { entry with live := true, consumed := entry.live && entry.consumed } else entry := by
  obtain ⟨entry, stored, rfl⟩ : ∃ entry, store.entries[id]? = some entry ∧ entry.triple = triple := by
    simpa using (indexed.ids triple id).mp found
  have bound : id < store.entries.size := (Array.getElem?_eq_some_iff.mp stored).1
  simp only [TripleStore.insert, found, stored, Option.any_some]
  cases live : entry.live with
  | true =>
    rw [if_pos rfl]
    by_cases same : other = id
    · subst same
      rw [stored, Option.map_some, if_pos rfl, live, Bool.true_and, ← live]
    · simp [same]
  | false =>
    rw [if_neg Bool.false_ne_true, Array.set!_eq_setIfInBounds, Array.getElem?_setIfInBounds]
    by_cases same : other = id
    · subst same
      rw [if_pos rfl, if_pos bound, stored, Option.map_some, if_pos rfl, live, Bool.false_and]
    · simp [same, Ne.symm same]

theorem entries_remove (store : TripleStore) (id other : TripleId) :
    (store.remove id).entries[other]? = (store.entries[other]?).map fun entry =>
      if other = id then { entry with live := false } else entry := by
  rw [remove, Array.getElem?_modify]
  by_cases same : id = other
  · simp [same]
  · simp [same, Ne.symm same]

/-- A triple without a number gets the next one. -/
theorem insert_new (missing : store.ids[triple]? = none) :
    (store.insert triple).1 = some store.entries.size ∧
      (store.insert triple).2.entries = store.entries.push ⟨triple, true, false⟩ := by
  simp only [TripleStore.insert, missing, and_self]

end Insertion

theorem Indexed.perform {store : TripleStore} (indexed : store.Indexed) (call : Call) : (store.perform call).Indexed := by
  cases call with
  | insert triple => exact indexed.insert triple
  | remove id => exact indexed_remove indexed id
  | consume id => exact indexed_consume store id indexed
  | rollback position => exact indexed_rollback indexed position

theorem Indexed.run (calls : List Call) : ∀ {store : TripleStore}, store.Indexed → (store.run calls).Indexed := by
  induction calls with
  | nil => exact id
  | cons call rest ih => exact fun indexed => ih (indexed.perform call)

/-- The store is what the calls make of an empty one. -/
structure Recounts (store : TripleStore) (calls : List Call) : Prop where
  indexed : store.Indexed
  known : store.entries.toList.map StoredTriple.triple = known calls
  live : ∀ (id : TripleId) entry, store.entries[id]? = some entry → entry.live = leaves calls ⟨id, entry.triple⟩

namespace Recounts

variable {store : TripleStore} {calls : List Call} {call : Call}

theorem empty : Recounts {} [] := ⟨indexed_empty, rfl, by simp⟩

/-- A call that at most changes marks of the triples. -/
theorem marks (recounts : Recounts store calls) {mark : TripleId → StoredTriple → StoredTriple}
    (entries : ∀ id, (store.perform call).entries[id]? = (store.entries[id]?).map (mark id))
    (nothing : ∀ triple, call.inserted? = some triple → triple ∈ TripleStore.known calls)
    (triple : ∀ id entry, (mark id entry).triple = entry.triple)
    (live : ∀ id entry, store.entries[id]? = some entry →
      (mark id entry).live = (call.settles ⟨id, entry.triple⟩).getD entry.live) :
    Recounts (store.perform call) (calls ++ [call]) := by
  refine ⟨recounts.indexed.perform call, ?_, fun id entry stored => ?_⟩
  · rw [known_concat calls call nothing, ← recounts.known]
    apply List.ext_getElem?
    intro id
    rw [List.getElem?_map, List.getElem?_map, Array.getElem?_toList, Array.getElem?_toList, entries, Option.map_map]
    cases store.entries[id]? with
    | none => rfl
    | some entry => exact congrArg some (triple id entry)
  · rw [entries] at stored
    obtain ⟨old, before, rfl⟩ := Option.map_eq_some_iff.mp stored
    rw [leaves_concat, live id old before, triple, recounts.live id old before]

theorem number_iff (recounts : Recounts store calls) {triple : Triple} {id : TripleId} :
    store.ids[triple]? = some id ↔ (TripleStore.known calls)[id]? = some triple := by
  rw [recounts.indexed.ids, ← recounts.known, ← Array.toList_map, Array.getElem?_toList]

theorem perform (recounts : Recounts store calls) (call : Call) : Recounts (store.perform call) (calls ++ [call]) := by
  cases call with
  | insert triple =>
    cases found : store.ids[triple]? with
    | some id =>
      have own := recounts.number_iff.mp found
      refine recounts.marks (recounts.indexed.entries_insert found) ?_ ?_ ?_
      · rintro _ ⟨⟩
        exact List.mem_of_getElem? own
      · intro other entry
        split <;> rfl
      · intro other entry stored
        have number : store.ids[entry.triple]? = some other := (recounts.indexed.ids _ _).mpr (by simp [stored])
        -- equal numbers and equal triples are the same thing, so the call settles this row only
        have same : other = id ↔ triple = entry.triple := by
          constructor
          · rintro rfl
            exact Option.some.inj (own.symm.trans (recounts.number_iff.mp number))
          · rintro rfl
            exact Option.some.inj (number.symm.trans found)
        rw [Call.settles, ← if_congr same rfl rfl]
        split <;> rfl
    | none =>
      have missing : triple ∉ TripleStore.known calls := by
        intro member
        obtain ⟨id, own⟩ := List.mem_iff_getElem?.mp member
        rw [recounts.number_iff.mpr own] at found
        cases found
      have entries := (insert_new found).2
      refine ⟨recounts.indexed.insert triple, ?_, fun id entry stored => ?_⟩
      · rw [known_concat_new calls missing, ← recounts.known]
        change (store.insert triple).2.entries.toList.map _ = _
        rw [entries, Array.toList_push, List.map_append]
        rfl
      · rw [leaves_concat, Call.settles]
        change (store.insert triple).2.entries[id]? = some entry at stored
        rw [entries, Array.getElem?_push] at stored
        split at stored
        · next last =>
          obtain rfl := Option.some.inj stored
          rw [if_pos rfl]
          rfl
        · have number : store.ids[entry.triple]? = some id := (recounts.indexed.ids _ _).mpr (by simp [stored])
          have apart : triple ≠ entry.triple := by
            rintro rfl
            exact missing (List.mem_of_getElem? (recounts.number_iff.mp number))
          rw [if_neg apart]
          exact recounts.live id entry stored
  | remove id =>
    refine recounts.marks (entries_remove store id) nofun ?_ ?_
    · intro other entry
      split <;> rfl
    · intro other entry _
      rw [Call.settles]
      by_cases same : other = id
      · simp [same]
      · simp [same, Ne.symm same]
  | consume id =>
    refine recounts.marks (entries_consume store id) nofun ?_ ?_
    · intro other entry
      split <;> rfl
    · intro other entry _
      split <;> rfl
  | rollback position =>
    refine recounts.marks (entries_rollback store position) nofun ?_ ?_
    · intro other entry
      split <;> rfl
    · intro other entry _
      split <;> rfl

/-- The rows that the calls leave are those that the store shows. -/
theorem liveRows_eq (recounts : Recounts store calls) : store.liveRows = remaining calls := by
  have length : (TripleStore.known calls).length = store.entries.size := by rw [← recounts.known, List.length_map, Array.length_toList]
  rw [remaining, mapIdx_eq_filterMap, List.filter_filterMap, length, liveRows]
  refine List.filterMap_congr fun id _ => ?_
  rw [← recounts.known, List.getElem?_map, Array.getElem?_toList, row?]
  cases stored : store.entries[id]? with
  | none => rfl
  | some entry => cases live : entry.live <;> simp [Option.filter, live, ← recounts.live id entry stored]

end Recounts

theorem replay_concat (calls : List Call) (call : Call) : replay (calls ++ [call]) = (replay calls).perform call :=
  run_concat calls call {}

theorem recounts_replay (calls : List Call) : Recounts (replay calls) calls := by
  induction calls using List.reverseRecOn with
  | nil => exact .empty
  | append_singleton calls call ih =>
    rw [replay_concat]
    exact ih.perform call

theorem nodup_known (calls : List Call) : (known calls).Nodup := Canonical.nodup_eraseDups _

theorem known_prefix (calls more : List Call) : known calls <+: known (calls ++ more) := by
  rw [known, known, List.filterMap_append, List.eraseDups_append]
  exact List.prefix_append ..

theorem mem_remaining {calls : List Call} {row : Row} :
    row ∈ remaining calls ↔ (known calls)[row.id]? = some row.triple ∧ leaves calls row = true := by
  have place : row ∈ (known calls).mapIdx Row.mk ↔ (known calls)[row.id]? = some row.triple := by
    rw [List.mem_mapIdx, List.getElem?_eq_some_iff]
    constructor
    · rintro ⟨id, inside, rfl⟩
      exact ⟨inside, rfl⟩
    · rintro ⟨inside, same⟩
      exact ⟨row.id, inside, by rw [same]⟩
  rw [remaining, List.mem_filter, place]

/-- The first insertion of a triple tells its place in the order of first insertion. -/
theorem firstAnswer_eq_some {triple : Triple} {id : TripleId} (calls : List Call) : ∀ {earlier : List Call}, triple ∉ known earlier →
    (firstAnswer triple (replay earlier) calls = some id ↔ (known (earlier ++ calls))[id]? = some triple) := by
  induction calls with
  | nil =>
    intro earlier absent
    rw [List.append_nil]
    exact ⟨nofun, fun found => absurd (List.mem_of_getElem? found) absent⟩
  | cons call rest ih =>
    intro earlier absent
    rw [firstAnswer, List.append_cons]
    by_cases here : call = .insert triple
    · subst here
      have recounts := recounts_replay earlier
      have missing : (replay earlier).ids[triple]? = none := by
        rw [Option.eq_none_iff_forall_ne_some]
        exact fun id found => absent (List.mem_of_getElem? (recounts.number_iff.mp found))
      have size : (replay earlier).entries.size = (known earlier).length := by
        rw [← recounts.known, List.length_map, Array.length_toList]
      have place : (known (earlier ++ [.insert triple] ++ rest))[(known earlier).length]? = some triple := by
        obtain ⟨later, same⟩ := known_prefix (earlier ++ [.insert triple]) rest
        rw [← same, known_concat_new earlier absent, List.append_assoc, List.getElem?_append_right (Nat.le_refl _), Nat.sub_self]
        rfl
      rw [if_pos rfl, (insert_new missing).1, size, Option.some.injEq]
      constructor
      · rintro rfl
        exact place
      · intro found
        exact (List.getElem?_inj (List.getElem?_eq_some_iff.mp place).1 (nodup_known _)).mp (place.trans found.symm)
    · rw [if_neg here, ← replay_concat]
      -- no later call than the first that inserts the triple counts
      refine ih fun later => ?_
      rcases List.mem_append.mp (mem_known.mp later) with before | last
      · exact absent (mem_known.mpr before)
      · exact here (List.mem_singleton.mp last).symm

/-- Whatever calls were made on an empty store, every lookup lists the rows that they leave, each once
and in the order of first insertion, and a triple is found if it is one of theirs, with the number that
its first insertion gave it. -/
theorem lookups_exact (calls : List Call) : (replay calls).Filters (remaining calls) ∧
    ∀ triple, (replay calls).find? triple = (firstAnswer triple {} calls).filter fun id => leaves calls ⟨id, triple⟩ := by
  have recounts := recounts_replay calls
  have filters := recounts.indexed.filters
  rw [recounts.liveRows_eq] at filters
  refine ⟨filters, fun triple => Option.ext fun id => ?_⟩
  have unknown : triple ∉ known [] := List.not_mem_nil
  have first : firstAnswer triple {} calls = some id ↔ (known calls)[id]? = some triple := firstAnswer_eq_some calls unknown
  rw [filters.find?, Option.filter_eq_some_iff, first, mem_remaining]

/-- A triple that is inserted again comes where it was. -/
example : let first : Triple := ⟨.named Owl.Thing, Rdf.type, Owl.Class⟩
    let second : Triple := ⟨.named Owl.Nothing, Rdf.type, Owl.Class⟩
    remaining [.insert first, .insert second, .remove 0, .insert first] = [⟨0, first⟩, ⟨1, second⟩] := by decide

end OwlGraph.TripleStore
