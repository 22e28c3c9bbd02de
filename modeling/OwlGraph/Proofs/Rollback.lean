import OwlGraph.Proofs.StoreHistory

/-! What a rollback restores. Back at a checkpoint the log is the one of then, and so is every mark,
but for the triples that were removed and inserted again: such a triple is unused afterwards, and if it
was used before, the log still lists it. -/

namespace OwlGraph.TripleStore

/-- The number of the triple that the call inserts again, if it does. -/
def Call.revived? (store : TripleStore) : Call → Option TripleId
  | .insert triple => (store.insert triple).1.filter fun id => id < store.entries.size
  | .remove _ | .consume _ | .rollback _ => none

/-- The numbers of the triples that the calls insert again. -/
def revived (store : TripleStore) : List Call → List TripleId
  | [] => []
  | call :: rest => (call.revived? store).toList ++ revived (store.perform call) rest

/-- The calls roll back to no earlier position, as those to checkpoints taken after it do not. -/
def Nested (position : Nat) (calls : List Call) : Prop := ∀ other, .rollback other ∈ calls → position ≤ other

/-- No call inserts a triple again that is marked as used. -/
def Spares (store : TripleStore) : List Call → Prop
  | [] => True
  | call :: rest => (∀ id, call.revived? store = some id → store.isConsumed id = false) ∧ Spares (store.perform call) rest

theorem Spares.append {more : List Call} (calls : List Call) : ∀ {store : TripleStore}, Spares store calls →
    Spares (store.run calls) more → Spares store (calls ++ more) := by
  induction calls with
  | nil => exact fun _ later => later
  | cons call rest ih => exact fun spares later => ⟨spares.1, ih spares.2 later⟩

/-- The log lists the used triples, each once. -/
structure Booked (store : TripleStore) : Prop where
  distinct : store.log.toList.Nodup
  listed : ∀ id, id ∈ store.log.toList ↔ store.isConsumed id = true

section Marks

variable {store : TripleStore}

theorem isConsumed_of_entries {after : TripleStore} {mark : StoredTriple → StoredTriple} {id : TripleId}
    (entries : after.entries[id]? = (store.entries[id]?).map mark) :
    after.isConsumed id = (store.entries[id]?).any fun entry => (mark entry).consumed := by
  rw [isConsumed, entries, Option.any_map]

theorem isConsumed_remove (id other : TripleId) : (store.remove id).isConsumed other = store.isConsumed other := by
  rw [isConsumed_of_entries (entries_remove store id other), isConsumed]
  split <;> rfl

theorem log_consume (id : TripleId) : (store.consume id).log = if store.isFree id then store.log.push id else store.log := by
  rw [consume_eq]
  split <;> rfl

theorem isConsumed_consume_eq (id other : TripleId) :
    (store.consume id).isConsumed other = (store.isConsumed other || store.isFree id && other == id) := by
  rw [isConsumed_of_entries (entries_consume store id other), isConsumed, isFree]
  by_cases same : other = id
  · subst same
    cases store.entries[other]? <;> simp
  · simp [same]

theorem isConsumed_rollback (position : Nat) (id : TripleId) :
    (store.rollback position).isConsumed id = (store.isConsumed id && !(store.log.toList.drop position).contains id) := by
  rw [isConsumed_of_entries (entries_rollback store position id), isConsumed]
  by_cases undone : id ∈ store.log.toList.drop position
  · cases store.entries[id]? <;> simp [undone]
  · simp [undone]

theorem log_rollback (position : Nat) : (store.rollback position).log.toList = store.log.toList.take position := by
  change (store.log.take position).toList = _
  rw [Array.take_eq_extract, Array.toList_extract, List.extract_eq_take_drop, Nat.sub_zero, List.drop_zero]

theorem log_insert (triple : Triple) : (store.insert triple).2.log = store.log := by
  rw [insert]
  split
  · split <;> rfl
  · rfl

theorem revived?_eq_some {call : Call} {id : TripleId} :
    call.revived? store = some id ↔ ∃ triple, call = .insert triple ∧ (store.insert triple).1 = some id ∧ id < store.entries.size := by
  cases call <;> simp [Call.revived?, Option.filter_eq_some_iff]

/-- To insert a triple unmarks it if it was removed before, and no other. -/
theorem Indexed.isConsumed_insert (indexed : store.Indexed) (triple : Triple) (id : TripleId) :
    (store.insert triple).2.isConsumed id = (store.isConsumed id && (Call.insert triple).revived? store != some id) := by
  cases found : store.ids[triple]? with
  | some number =>
    obtain ⟨entry, stored, -⟩ : ∃ entry, store.entries[number]? = some entry ∧ entry.triple = triple := by
      simpa using (indexed.ids triple number).mp found
    have bound : number < store.entries.size := (Array.getElem?_eq_some_iff.mp stored).1
    have again : (Call.insert triple).revived? store = if entry.live then none else some number := by
      simp only [Call.revived?, TripleStore.insert, found, stored, Option.any_some]
      cases entry.live <;> simp [Option.filter, bound]
    rw [isConsumed_of_entries (indexed.entries_insert found id), isConsumed, again]
    by_cases same : id = number
    · subst same
      cases live : entry.live <;> simp [stored, live]
    · cases live : entry.live <;> simp [same, Ne.symm same]
  | none =>
    obtain ⟨answer, entries⟩ := insert_new found
    have fresh : (Call.insert triple).revived? store = none := by
      rw [Call.revived?, answer]
      exact Option.filter_some_neg (by simp)
    rw [fresh, isConsumed, entries, Array.getElem?_push, isConsumed]
    split
    · next last => simp [last]
    · simp

end Marks

section Undo

/-- Since the base was left, the log has grown by some more triples. Those are unmarked when they are undone,
and all others are marked as they were at the base, unless they were inserted again. -/
structure Since (base : TripleStore) (again more : List TripleId) (store : TripleStore) : Prop where
  indexed : store.Indexed
  log : store.log.toList = base.log.toList ++ more
  marks : ∀ id, id ∉ more → store.isConsumed id = (base.isConsumed id && !again.contains id)
  undone : ∀ id ∈ more, (base.isConsumed id && !again.contains id) = false

namespace Since

variable {base store : TripleStore} {again more : List TripleId}

theorem refl (indexed : base.Indexed) : Since base [] [] base := ⟨indexed, by simp, by simp, by simp⟩

theorem consume (since : Since base again more store) (id : TripleId) :
    ∃ others, Since base again others (store.consume id) := by
  have indexed := indexed_consume store id since.indexed
  cases free : store.isFree id with
  | false =>
    refine ⟨more, indexed, ?_, fun other outside => ?_, since.undone⟩
    · rw [log_consume, free, if_neg Bool.false_ne_true, since.log]
    · rw [isConsumed_consume_eq, free, Bool.false_and, Bool.or_false, since.marks other outside]
  | true =>
    refine ⟨more ++ [id], indexed, ?_, fun other outside => ?_, fun other inside => ?_⟩
    · rw [log_consume, free, if_pos rfl, Array.toList_push, since.log, List.append_assoc]
    · rw [List.mem_append, List.mem_singleton, not_or] at outside
      rw [isConsumed_consume_eq, since.marks other outside.1, beq_eq_false_iff_ne.mpr outside.2, Bool.and_false, Bool.or_false]
    · by_cases before : other ∈ more
      · exact since.undone other before
      · obtain rfl : other = id := by simpa [before] using inside
        rw [← since.marks other before]
        exact not_consumed_of_free free

theorem rollback (since : Since base again more store) {position : Nat} (later : base.checkpoint ≤ position) :
    Since base again (more.take (position - base.checkpoint)) (store.rollback position) := by
  have kept : (store.rollback position).log.toList = base.log.toList ++ more.take (position - base.checkpoint) := by
    rw [log_rollback, since.log, List.take_append, List.take_of_length_le later]
    rfl
  have dropped : store.log.toList.drop position = more.drop (position - base.checkpoint) := by
    rw [since.log, List.drop_append, List.drop_eq_nil_of_le later]
    rfl
  refine ⟨indexed_rollback since.indexed position, kept, fun id outside => ?_, fun id inside => since.undone id (List.mem_of_mem_take inside)⟩
  rw [isConsumed_rollback, dropped]
  -- what is undone here was unmarked when it was used, whatever is left of the growth of the log
  by_cases undone : id ∈ more.drop (position - base.checkpoint)
  · rw [since.undone id (List.mem_of_mem_drop undone), List.contains_iff_mem.mpr undone, Bool.not_true, Bool.and_false]
  · have apart : id ∉ more := by
      rw [← List.take_append_drop (position - base.checkpoint) more, List.mem_append]
      exact fun either => either.elim outside undone
    rw [since.marks id apart]
    simp [undone]

theorem insert (since : Since base again more store) (triple : Triple) :
    Since base (again ++ ((Call.insert triple).revived? store).toList) more (store.insert triple).2 := by
  have still (id : TripleId) : (base.isConsumed id && !(again ++ ((Call.insert triple).revived? store).toList).contains id) =
      ((base.isConsumed id && !again.contains id) && (Call.insert triple).revived? store != some id) := by
    cases (Call.insert triple).revived? store with
    | none => simp
    | some number =>
      by_cases same : id = number
      · simp [same]
      · simp [same, Ne.symm same]
  refine ⟨since.indexed.insert triple, ?_, fun id outside => ?_, fun id inside => ?_⟩
  · rw [log_insert, since.log]
  · rw [since.indexed.isConsumed_insert, since.marks id outside, still]
  · rw [still, since.undone id inside, Bool.false_and]

theorem remove (since : Since base again more store) (id : TripleId) : Since base again more (store.remove id) :=
  ⟨indexed_remove since.indexed id, since.log, fun other outside => by rw [isConsumed_remove, since.marks other outside], since.undone⟩

theorem perform (since : Since base again more store) {call : Call}
    (later : ∀ position, call = .rollback position → base.checkpoint ≤ position) :
    ∃ others, Since base (again ++ (call.revived? store).toList) others (store.perform call) := by
  cases call with
  | insert triple => exact ⟨more, since.insert triple⟩
  | remove id =>
    rw [Call.revived?, Option.toList_none, List.append_nil]
    exact ⟨more, since.remove id⟩
  | consume id =>
    rw [Call.revived?, Option.toList_none, List.append_nil]
    exact since.consume id
  | rollback position =>
    rw [Call.revived?, Option.toList_none, List.append_nil]
    exact ⟨_, since.rollback (later position rfl)⟩

theorem run (calls : List Call) : ∀ {again more : List TripleId} {store : TripleStore}, Since base again more store →
    Nested base.checkpoint calls → ∃ others, Since base (again ++ revived store calls) others (store.run calls) := by
  induction calls with
  | nil =>
    intro again more store since _
    rw [revived, List.append_nil]
    exact ⟨more, since⟩
  | cons call rest ih =>
    intro again more store since nested
    obtain ⟨others, next⟩ := since.perform fun position same => nested position (same ▸ List.mem_cons_self)
    rw [revived, ← List.append_assoc]
    exact ih next fun position inside => nested position (List.mem_cons_of_mem call inside)

end Since

theorem Since.later {base store : TripleStore} {again more : List TripleId} (since : Since base again more store) :
    base.checkpoint ≤ store.checkpoint := by
  rw [checkpoint, checkpoint, ← Array.length_toList, ← Array.length_toList, since.log, List.length_append]
  exact Nat.le_add_right ..

/-- Undoing everything since the base leaves the log of the base, and its marks but for the triples that
were inserted again. -/
theorem Since.restores {base store : TripleStore} {again more : List TripleId} (since : Since base again more store) :
    (∀ id, (store.rollback base.checkpoint).isConsumed id = (base.isConsumed id && !again.contains id)) ∧
      (store.rollback base.checkpoint).log = base.log := by
  have back := since.rollback (Nat.le_refl _)
  rw [Nat.sub_self, List.take_zero] at back
  exact ⟨fun id => back.marks id List.not_mem_nil, Array.toList_inj.mp (by rw [back.log, List.append_nil])⟩

/-- If no used triple is inserted again, then none that is inserted again was used at the base. -/
theorem Spares.unused {base : TripleStore} (calls : List Call) : ∀ {again more : List TripleId} {store : TripleStore},
    Since base again more store → Nested base.checkpoint calls → Spares store calls →
      ∀ id ∈ revived store calls, (base.isConsumed id && !again.contains id) = false := by
  induction calls with
  | nil => exact fun _ _ _ _ => nofun
  | cons call rest ih =>
    intro again more store since nested spares id inside
    -- unmarked when it is inserted, it was unmarked at the base or has been used since
    by_cases here : id ∈ (call.revived? store).toList
    · by_cases undone : id ∈ more
      · exact since.undone id undone
      · rw [← since.marks id undone, spares.1 id (Option.mem_toList.mp here)]
    · have later := (List.mem_append.mp inside).resolve_left here
      obtain ⟨others, next⟩ := since.perform fun position same => nested position (same ▸ List.mem_cons_self)
      have unused := ih next (fun position member => nested position (List.mem_cons_of_mem call member)) spares.2 id later
      simpa [here] using unused

end Undo

namespace Booked

variable {store : TripleStore}

theorem empty : Booked {} := ⟨List.nodup_nil, fun id => by simp [isConsumed]⟩

theorem consume (booked : store.Booked) (id : TripleId) : (store.consume id).Booked := by
  cases free : store.isFree id with
  | false =>
    refine ⟨?_, fun other => ?_⟩
    · rw [log_consume, free, if_neg Bool.false_ne_true]
      exact booked.distinct
    · rw [log_consume, isConsumed_consume_eq, free, if_neg Bool.false_ne_true, booked.listed, Bool.false_and, Bool.or_false]
  | true =>
    have new : id ∉ store.log.toList := by
      rw [booked.listed, not_consumed_of_free free]
      exact Bool.false_ne_true
    refine ⟨?_, fun other => ?_⟩
    · rw [log_consume, free, if_pos rfl, Array.toList_push]
      rw [← List.concat_eq_append]
      exact booked.distinct.concat new
    · rw [log_consume, isConsumed_consume_eq, free, if_pos rfl, Array.toList_push, List.mem_append, booked.listed]
      simp

theorem rollback (booked : store.Booked) (position : Nat) : (store.rollback position).Booked := by
  have parts := List.take_append_drop position store.log.toList
  have distinct := booked.distinct
  rw [← parts, List.nodup_append'] at distinct
  obtain ⟨kept, -, apart⟩ := distinct
  refine ⟨(log_rollback position).symm ▸ kept, fun id => ?_⟩
  rw [log_rollback, isConsumed_rollback, Bool.and_eq_true, ← booked.listed, Bool.not_eq_true', List.contains_eq_mem, decide_eq_false_iff_not]
  nth_rewrite 2 [← parts]
  rw [List.mem_append]
  constructor
  · exact fun inside => ⟨.inl inside, apart inside⟩
  · rintro ⟨inside | dropped, outside⟩
    · exact inside
    · exact absurd dropped outside

theorem perform (indexed : store.Indexed) (booked : store.Booked) {call : Call}
    (spared : ∀ id, call.revived? store = some id → store.isConsumed id = false) : (store.perform call).Booked := by
  cases call with
  | insert triple =>
    refine ⟨(log_insert triple).symm ▸ booked.distinct, fun id => ?_⟩
    have same : (store.insert triple).2.isConsumed id = store.isConsumed id := by
      rw [indexed.isConsumed_insert]
      by_cases again : (Call.insert triple).revived? store = some id
      · rw [spared id again, Bool.false_and]
      · rw [bne_iff_ne.mpr again, Bool.and_true]
    change id ∈ (store.insert triple).2.log.toList ↔ (store.insert triple).2.isConsumed id = true
    rw [log_insert, same, booked.listed]
  | remove id => exact ⟨booked.distinct, fun other => (booked.listed other).trans (by rw [TripleStore.perform, isConsumed_remove])⟩
  | consume id => exact booked.consume id
  | rollback position => exact booked.rollback position

theorem run (calls : List Call) : ∀ {store : TripleStore}, store.Indexed → store.Booked → Spares store calls →
    (store.run calls).Booked := by
  induction calls with
  | nil => exact fun _ booked _ => booked
  | cons call rest ih => exact fun indexed booked spares => ih (indexed.perform call) (booked.perform indexed spares.1) spares.2

end Booked

/-- Whatever is done after a checkpoint, the log still has its position. Back at it the log is the one of
then, and every triple is marked as it was, unless it was inserted again in between, which leaves it unused. If no triple was used when
it was inserted again before the checkpoint, then the log lists the used triples, each once, exactly if
none was so inserted since that was used at the checkpoint. -/
theorem rollback_restores (past calls : List Call) (nested : Nested (replay past).checkpoint calls) :
    let store := replay past
    let after := (store.run calls).rollback store.checkpoint
    store.checkpoint ≤ (store.run calls).checkpoint ∧
      (∀ id, after.isConsumed id = (store.isConsumed id && !(revived store calls).contains id)) ∧
      after.log = store.log ∧
      (Spares {} past → (after.Booked ↔ ∀ id ∈ revived store calls, store.isConsumed id = false)) := by
  intro store after
  obtain ⟨more, since⟩ := (Since.refl (recounts_replay past).indexed).run calls nested
  rw [List.nil_append] at since
  obtain ⟨marks, log⟩ := since.restores
  refine ⟨since.later, marks, log, fun spares => ?_⟩
  have booked : store.Booked := .run past indexed_empty .empty spares
  have unmarked {id : TripleId} (again : id ∈ revived store calls) : after.isConsumed id = false := by
    rw [marks, List.contains_iff_mem.mpr again, Bool.not_true, Bool.and_false]
  constructor
  · intro still id again
    rw [← Bool.not_eq_true, ← booked.listed, ← log, still.listed, unmarked again]
    exact Bool.false_ne_true
  · intro unused
    refine ⟨log.symm ▸ booked.distinct, fun id => ?_⟩
    rw [log, booked.listed]
    by_cases again : id ∈ revived store calls
    · rw [unused id again, unmarked again]
    · rw [marks, List.contains_eq_mem, decide_eq_false again, Bool.not_false, Bool.and_true]

/-- A triple that was unused at the checkpoint may be inserted again. -/
theorem rollback_restores_reinserted :
    let first : Triple := ⟨.named Owl.Thing, Rdf.type, Owl.Class⟩
    let second : Triple := ⟨.named Owl.Nothing, Rdf.type, Owl.Class⟩
    let past : List Call := [.insert first, .insert second, .consume 0]
    let calls : List Call := [.consume 1, .rollback 1, .remove 1, .insert second, .consume 1]
    let store := replay past
    let after := (store.run calls).rollback store.checkpoint
    Nested store.checkpoint calls ∧ Spares {} past ∧
      after.isConsumed 0 = true ∧ after.isConsumed 1 = false ∧ after.log = #[0] ∧ after.Booked := by
  intro first second past calls store after
  have apart : first ≠ second := by decide
  have nested : Nested store.checkpoint calls := by
    simp [Nested, store, past, calls, replay, run, perform, TripleStore.insert, TripleStore.consume, checkpoint, apart]
  have spares : Spares {} past := by
    simp [Spares, past, Call.revived?, perform, TripleStore.insert, apart]
  obtain ⟨-, marks, log, booked⟩ := rollback_restores past calls nested
  have used : store.isConsumed 0 = true := by
    simp [store, past, replay, run, perform, TripleStore.insert, TripleStore.consume, isConsumed, apart]
  have unused : store.isConsumed 1 = false := by
    simp [store, past, replay, run, perform, TripleStore.insert, TripleStore.consume, isConsumed, apart]
  have again : revived store calls = [1] := by
    simp [store, past, calls, revived, Call.revived?, replay, run, perform, TripleStore.insert, TripleStore.consume,
      TripleStore.rollback, TripleStore.remove, apart, Option.filter]
  have entry : store.log = #[0] := by
    simp [store, past, replay, run, perform, TripleStore.insert, TripleStore.consume, apart]
  refine ⟨nested, spares, ?_, ?_, log.trans entry, (booked spares).mpr ?_⟩
  · rw [marks, used, again]
    rfl
  · rw [marks, unused, Bool.false_and]
  · rintro id inside
    rw [again, List.mem_singleton] at inside
    exact inside ▸ unused

/-- A used triple that is removed and inserted again is unused from then on. It stays in the log, and going
back to a checkpoint at which it was used does not mark it. -/
theorem rollback_not_restoring :
    let triple : Triple := ⟨.named Owl.Thing, Rdf.type, Owl.Class⟩
    let store := replay [.insert triple, .consume 0]
    let calls : List Call := [.remove 0, .insert triple]
    let after := (store.run calls).rollback store.checkpoint
    Nested store.checkpoint calls ∧ 0 < store.entries.size ∧
      store.isConsumed 0 = true ∧ after.isConsumed 0 = false ∧ after.log = #[0] := by
  intro triple store calls after
  simp [after, calls, store, Nested, replay, run, perform, TripleStore.insert, TripleStore.consume, TripleStore.remove,
    TripleStore.rollback, checkpoint, isConsumed]

end OwlGraph.TripleStore
