import OwlGraph.Proofs.LastingAssertions
import OwlGraph.Proofs.Rollback

/-! Which triples a load has used. Triples are removed only when annotations are merged, and one that goes
again was added for the sake of the node. So no used triple is ever inserted again: an attempt that is rolled
back leaves the marks and the log as they were, and the log lists the used triples, each once. -/

namespace OwlGraph

namespace TripleStore

/-- In order, with a log that lists the used triples, each once. -/
structure Balanced (store : TripleStore) : Prop extends Booked store where
  indexed : store.Indexed

/-- No triple has been removed. -/
structure Whole (store : TripleStore) : Prop extends Balanced store where
  live : ∀ (id : TripleId) entry, store.entries[id]? = some entry → entry.live = true

/-- The used triples are there. -/
structure Sound (store : TripleStore) : Prop extends Balanced store where
  present : ∀ (id : TripleId) entry, store.entries[id]? = some entry → entry.consumed = true → entry.live = true

/-- The assertion holds whichever triples are used and freed again. -/
structure Lasting (known : TripleStore → Prop) : Prop where
  indexed : ∀ {store}, known store → store.Indexed
  consume : ∀ {store} id, known store → known (store.consume id)
  rollback : ∀ {store} position, known store → known (store.rollback position)

theorem Lasting.ofSessions {known : TripleStore → Prop} (lasting : Lasting known) : Session.Lasting fun session => known session.store where
  reported _ := id
  noted _ _ _ := id
  indexed := lasting.indexed
  consume := lasting.consume
  rollback point := lasting.rollback point.position
  commit _ _ := id
  named _ := id
  annotated _ := id
  counted _ := id

theorem lasting_balanced : Lasting Balanced where
  indexed := Balanced.indexed
  consume id balanced := ⟨balanced.toBooked.consume id, indexed_consume _ id balanced.indexed⟩
  rollback position balanced := ⟨balanced.toBooked.rollback position, indexed_rollback balanced.indexed position⟩

theorem lasting_whole : Lasting Whole where
  indexed whole := whole.indexed
  consume id whole := by
    refine ⟨lasting_balanced.consume id whole.toBalanced, fun other entry stored => ?_⟩
    rw [entries_consume] at stored
    obtain ⟨before, found, rfl⟩ := Option.map_eq_some_iff.mp stored
    split <;> exact whole.live other before found
  rollback position whole := by
    refine ⟨lasting_balanced.rollback position whole.toBalanced, fun other entry stored => ?_⟩
    rw [entries_rollback] at stored
    obtain ⟨before, found, rfl⟩ := Option.map_eq_some_iff.mp stored
    split <;> exact whole.live other before found

variable {store middle after : TripleStore}

theorem whole_ofTriples (triples : List Triple) : (ofTriples triples).Whole := by
  have unlogged : (ofTriples triples).log = #[] := by
    induction triples using List.reverseRecOn with
    | nil => rfl
    | append_singleton triples triple ih => rw [ofTriples_concat, log_insert, ih]
  refine ⟨⟨⟨?_, fun id => ?_⟩, indexed_ofTriples triples⟩, fun id entry stored => ?_⟩
  · rw [unlogged]
    exact List.nodup_nil
  · rw [unlogged, unused_ofTriples]
    simp
  · obtain ⟨distinct, nodup, -, same⟩ := exists_distinct triples
    rw [same, ← Array.getElem?_toList, entries_ofTriples nodup, List.getElem?_map] at stored
    obtain ⟨triple, -, rfl⟩ := Option.map_eq_some_iff.mp stored
    rfl

theorem Whole.sound (whole : store.Whole) : store.Sound :=
  ⟨whole.toBalanced, fun id entry stored _ => whole.live id entry stored⟩

/-- To use a triple that is there. -/
theorem Sound.consume (sound : store.Sound) {row : Row} (member : row ∈ store.liveRows) : (store.consume row.id).Sound := by
  refine ⟨lasting_balanced.consume row.id sound.toBalanced, fun id entry stored used => ?_⟩
  rw [entries_consume] at stored
  obtain ⟨before, found, rfl⟩ := Option.map_eq_some_iff.mp stored
  obtain ⟨-, here, there, live, -⟩ := row?_eq_some.mp (mem_liveRows.mp member)
  by_cases same : id = row.id
  · subst same
    rw [there] at found
    cases found
    rw [if_pos rfl]
    exact live
  · rw [if_neg same] at used ⊢
    exact sound.present id before found used

theorem Sound.consumeAll (rows : List Row) : ∀ {store : TripleStore}, store.Sound → (∀ row ∈ rows, row ∈ store.liveRows) →
    (store.consumeAll rows).Sound := by
  induction rows with
  | nil => exact fun sound _ => sound
  | cons row rest ih =>
    intro store sound members
    refine ih (sound.consume (members row List.mem_cons_self)) fun other member => ?_
    rw [liveRows_consume]
    exact members other (List.mem_cons_of_mem row member)

/-- No triple that is inserted again was used. -/
theorem Sound.unused (sound : store.Sound) {call : Call} {id : TripleId} (again : call.revived? store = some id) :
    store.isConsumed id = false := by
  obtain ⟨triple, rfl, answer, bound⟩ := revived?_eq_some.mp again
  have stored := Array.getElem?_eq_getElem bound
  have dead : (store.entries[id]?).any (·.live) = false := by
    unfold TripleStore.insert at answer
    split at answer
    · split at answer
      · cases answer
      · next gone =>
        cases answer
        simpa using gone
    · cases answer
      exact absurd bound (Nat.lt_irrefl _)
  rw [isConsumed, stored, Option.any_some]
  rw [stored, Option.any_some] at dead
  by_contra used
  rw [sound.present id _ stored (by simpa using used)] at dead
  cases dead

/-- Some calls lead from the one store to the other that neither roll back nor insert a used triple again. -/
def Proceeds (store after : TripleStore) : Prop :=
  ∃ calls, after = store.run calls ∧ Spares store calls ∧ ∀ position, .rollback position ∉ calls

namespace Proceeds

theorem refl (store : TripleStore) : store.Proceeds store := ⟨[], rfl, trivial, fun _ => List.not_mem_nil⟩

theorem trans (first : store.Proceeds middle) (second : middle.Proceeds after) : store.Proceeds after := by
  obtain ⟨calls, rfl, spares, forward⟩ := first
  obtain ⟨more, rfl, spared, onward⟩ := second
  refine ⟨calls ++ more, List.foldl_append.symm, spares.append calls spared, fun position inside => ?_⟩
  exact (List.mem_append.mp inside).elim (forward position) (onward position)

theorem perform {call : Call} (spared : ∀ id, call.revived? store = some id → store.isConsumed id = false)
    (forward : ∀ position, call ≠ .rollback position) : store.Proceeds (store.perform call) :=
  ⟨[call], rfl, ⟨spared, trivial⟩, fun position inside => forward position (List.mem_singleton.mp inside).symm⟩

theorem consumeAll (rows : List Row) : ∀ store : TripleStore, store.Proceeds (store.consumeAll rows) := by
  induction rows with
  | nil => exact refl
  | cons row rest ih =>
    intro store
    have first : store.Proceeds (store.perform (.consume row.id)) := perform nofun nofun
    exact first.trans (ih _)

theorem balanced (proceeds : store.Proceeds after) (balanced : store.Balanced) : after.Balanced := by
  obtain ⟨calls, rfl, spares, -⟩ := proceeds
  exact ⟨.run calls balanced.indexed balanced.toBooked spares, balanced.indexed.run calls⟩

/-- A rollback to where the calls started leaves the marks and the log as they were. -/
theorem undone (proceeds : store.Proceeds after) (indexed : store.Indexed) :
    (∀ id, (after.rollback store.checkpoint).isConsumed id = store.isConsumed id) ∧
      (after.rollback store.checkpoint).log = store.log := by
  obtain ⟨calls, rfl, spares, forward⟩ := proceeds
  have nested : Nested store.checkpoint calls := fun position inside => absurd inside (forward position)
  obtain ⟨more, since⟩ := (Since.refl indexed).run calls nested
  obtain ⟨marks, log⟩ := since.restores
  refine ⟨fun id => (marks id).trans ?_, log⟩
  by_cases again : id ∈ revived store calls
  · have unused : store.isConsumed id = false := by simpa using Spares.unused calls (.refl indexed) nested spares id again
    rw [unused, Bool.false_and]
  · rw [List.nil_append, List.contains_eq_mem, decide_eq_false again, Bool.not_false, Bool.and_true]

/-- If the same triples are there as where the calls started. -/
theorem sound (proceeds : store.Proceeds after) (sound : store.Sound) (rows : ∀ row, row ∈ after.liveRows ↔ row ∈ store.liveRows) :
    (after.rollback store.checkpoint).Sound := by
  refine ⟨lasting_balanced.rollback _ (proceeds.balanced sound.toBalanced), fun id entry stored used => ?_⟩
  have marked : (after.rollback store.checkpoint).isConsumed id = true := by
    rw [isConsumed, stored]
    exact used
  rw [(proceeds.undone sound.indexed).1] at marked
  obtain ⟨before, found, unfree⟩ := (Option.any_eq_true _ _).mp marked
  have there : ⟨id, before.triple⟩ ∈ store.liveRows :=
    mem_liveRows.mpr (row?_eq_some.mpr ⟨rfl, before, found, sound.present id before found unfree, rfl⟩)
  have still := (mem_liveRows_rollback after store.checkpoint).mpr ((rows _).mpr there)
  obtain ⟨-, other, same, live, -⟩ := row?_eq_some.mp (mem_liveRows.mp still)
  rw [stored] at same
  exact Option.some.inj same ▸ live

end Proceeds

/-- To insert a triple, which then is there. -/
theorem Sound.insert (sound : store.Sound) (triple : Triple) : (store.insert triple).2.Sound := by
  have proceeds : store.Proceeds (store.perform (.insert triple)) := .perform (fun id again => sound.unused again) nofun
  refine ⟨proceeds.balanced sound.toBalanced, fun id entry stored used => ?_⟩
  cases found : store.ids[triple]? with
  | some number =>
    rw [sound.indexed.entries_insert found] at stored
    obtain ⟨before, held, rfl⟩ := Option.map_eq_some_iff.mp stored
    by_cases same : id = number
    · rw [if_pos same]
    · rw [if_neg same] at used ⊢
      exact sound.present id before held used
  | none =>
    rw [(TripleStore.insert_new found).2, Array.getElem?_push] at stored
    split at stored
    · exact Option.some.inj stored ▸ rfl
    · exact sound.present id entry stored used

end TripleStore

namespace Translation

open Run

variable {α β : Type} {context : Context} {session : Session}

/-- Whatever comes of the translation, no used triple is inserted again; and after a success the used ones are there. -/
abbrev Tends (context : Context) (session : Session) (body : Translation α) : Prop :=
  Leads context session body (fun _ after => session.store.Proceeds after.store ∧ after.store.Sound)
    fun after => session.store.Proceeds after.store

theorem Tends.bind {body : Translation α} {next : α → Translation β} {known : α → Session → Prop} {left : Session → Prop}
    (first : Tends context session body) (knows : Leads context session body known left)
    (rest : ∀ value middle, middle.store.Sound → known value middle → Tends context middle (next value)) :
    Tends context session (body >>= next) :=
  Leads.bind (first.and knows |>.weaken (fun _ _ both => both) fun _ => And.left) fun value middle ⟨⟨proceeds, sound⟩, holds⟩ =>
    (rest value middle sound holds).weaken (fun _ _ ⟨onward, after⟩ => ⟨proceeds.trans onward, after⟩) fun _ => proceeds.trans

theorem leaves_readReification (node : Node) : LeavesReading (readReification node) := by
  intro setting told usable
  refine (leaves_singleObject node _ setting told usable).bind fun source => (leaves_singleObject node _ setting told usable).bind fun property =>
    (reads_named _ property).bind fun predicate => (leaves_singleObject node _ setting told usable).bind fun object => ?_
  split
  · exact (leaves_consumeReification node setting told usable).bind fun _ =>
      (leaves_annotationsOn node setting told usable).bind fun notes => .pure _
  · exact reads_unexpected _ _

section Sound

variable (sound : session.store.Sound)
include sound

theorem LeavesReading.tends {body : Translation α} (leaves : LeavesReading body) : Tends context session body := by
  let setting : Setting := ⟨session.store.liveRows, session.header⟩
  obtain ⟨used, noted, kinds, kindsChanged, same, usable, -⟩ := leaves setting (setting.rows.map Row.triple)
    (fun row member => ⟨member, .inr (List.mem_map_of_mem member)⟩) context session ⟨sound.indexed, rfl, rfl⟩
  have proceeds : session.store.Proceeds (body context session).2.store := by
    rw [same]
    exact .consumeAll used session.store
  have after : (body context session).2.store.Sound := by
    rw [same]
    exact sound.consumeAll used fun row member => (usable row member).listed
  rw [Tends, Leads]
  rcases run : body context session with ⟨_ | _, last⟩ <;> rw [run] at proceeds after
  · exact proceeds
  · exact ⟨proceeds, after⟩

theorem tends_lateStatement {id : TripleId} {triple : Triple} (live : ⟨id, triple⟩ ∈ session.store.liveRows) :
    Tends context session (lateStatement id triple) := by
  have reading := leaves_statement triple
  refine (reading.tends sound).bind (reading.leads context sound.indexed) fun fact middle sound keeps => ?_
  have proceeds : middle.store.Proceeds (middle.store.perform (.consume id)) := .perform nofun nofun
  have used : Tends context middle
      (modify fun session => { session.consume id with produced := session.produced.insert id fact }) :=
    .alter ⟨proceeds, sound.consume ((keeps.rows _).mpr live)⟩
  exact used.bind .any fun _ last sound _ => .pure ⟨.refl _, sound⟩

theorem tends_insertMissing (node : Node) (triple : Triple) : Tends context session (insertMissing node triple) := by
  have noted : LeavesReading (recover (.annotatedTripleMissing node triple)) := fun _ _ _ => reads_recover _ rfl
  refine (noted.tends sound).bind .any fun _ middle sound _ => .get ?_
  have proceeds : middle.store.Proceeds (middle.store.perform (.insert triple)) := .perform (fun id again => sound.unused again) nofun
  have grown := sound.insert triple
  split
  · next id store inserted =>
    rw [inserted] at grown
    have added : Tends context middle (modify fun session => { session with store }) :=
      .alter ⟨by simpa [TripleStore.perform, inserted] using proceeds, grown⟩
    exact added.bind .any fun _ last sound _ => .pure ⟨.refl _, sound⟩
  · exact .raise (.refl _)

theorem tends_annotatedFact (node : Node) (triple : Triple) : Tends context session (annotatedFact node triple) := by
  refine .get ?_
  split
  · next id found =>
    split
    · exact .pure ⟨.refl _, sound⟩
    · split
      · exact .stop (.refl _)
      · exact tends_lateStatement sound (sound.indexed.find?_eq_some.mp found)
  · next absent =>
    refine (tends_insertMissing sound node triple).bind (leads_insertMissing sound.indexed node absent) fun id middle sound ⟨readies, _⟩ => ?_
    -- the triple may be used when it goes again; the rollback of the attempt will see to that
    refine Leads.cleanup ((tends_lateStatement sound ((readies.rows _).mpr (.inr rfl))).weaken (fun _ _ both => both) fun after proceeds => ?_)
    have removed : after.store.Proceeds (after.store.perform (.remove id)) := .perform nofun nofun
    exact proceeds.trans removed

theorem tends_mergeAnnotations (node : Node) : Tends context session (mergeAnnotations node) := by
  rw [mergeAnnotations_eq]
  have read : Tends context session (readMerge node) :=
    ((leaves_readReification node).tends sound).bind .any fun (triple, notes) middle sound _ =>
      (tends_annotatedFact sound node triple).bind .any fun _ _ sound _ => .pure ⟨.refl _, sound⟩
  exact read.bind .any fun _ _ sound _ => .alter ⟨.refl _, sound⟩

omit sound in
theorem leads_mergeAnnotations (indexed : session.store.Indexed) (node : Node) :
    Leads context session (mergeAnnotations node) (fun _ _ => True) session.Keeps := by
  rw [mergeAnnotations_eq]
  exact (leads_readMerge indexed node).bind fun _ _ _ => .alter trivial

end Sound

end Translation

namespace Load

open TripleStore

variable {α β : Type} {context : Context} {known : TripleStore → Prop}

/-- Whatever comes of the computation, what was known of the store still is. -/
abbrev SustainsStore (context : Context) (known : TripleStore → Prop) (body : Load α) : Prop :=
  Sustains context (fun session => known session.store) body

section Header

variable (lasting : Lasting known)
include lasting

theorem sustains_readHeaderTriple (version : OntologyId × Bool) (row : Row) :
    SustainsStore context known (readHeaderTriple version row) := by
  have used (value : OntologyId × Bool) : SustainsStore context known (do
      modify (·.consume row.id)
      return value) := Run.Ends.bind (.alter fun _ => lasting.consume row.id) fun _ => .pure value
  unfold readHeaderTriple
  dsimp only
  split
  · exact used _
  split
  · exact .pure _
  split
  · split
    · exact Run.Ends.bind (sustains_report lasting.ofSessions.toUnconcerned _ none) fun _ => used _
    · exact used _
  split
  · exact Run.Ends.bind (.alter fun _ => lasting.consume row.id) fun _ => .pure _
  · exact .pure _

theorem sustains_readHeader : SustainsStore context known readHeader := by
  apply Run.Ends.get
  intro session _
  dsimp only
  split
  · exact Run.Ends.bind (.forM _ fun other _ => sustains_report lasting.ofSessions.toUnconcerned _ none) fun _ =>
      Run.Ends.bind (.foldlM (sustains_readHeaderTriple lasting) _ _) fun found => .alter fun _ => id
  · exact .pure _

theorem sustains_prepare : SustainsStore context known prepare :=
  (sustains_readHeader lasting).bind fun _ => Run.Ends.read (Run.Ends.bind
    (.alter fun _ => lasting.ofSessions.readDeclarations context.config.strict) fun _ => sustains_readHeaderAnnotations lasting.ofSessions)

end Header

/-- A merge that fails is rolled back, so that the used triples are there again. -/
theorem sustains_readAxiomNode (node : Node) : SustainsStore context Sound (readAxiomNode node) := by
  have unconcerned : Session.Unconcerned fun session => session.store.Sound := ⟨fun _ => id, fun _ _ _ => id⟩
  have merge : SustainsStore context Sound (attempt (Translation.mergeAnnotations node)) :=
    sustains_attempt unconcerned fun session sound =>
      ((Translation.tends_mergeAnnotations sound node).and (Translation.leads_mergeAnnotations sound.indexed node)).weaken
        (fun _ _ ⟨⟨_, after⟩, _⟩ => after) fun _ ⟨proceeds, keeps⟩ => proceeds.sound sound keeps.rows
  refine .get fun _ _ => .ite (merge.bind fun _ => .ite (.alter fun session sound => ?_) (.pure _)) (.pure _)
  refine sound.consumeAll _ fun row member => ?_
  rw [sound.indexed.withSubject] at member
  exact List.mem_of_mem_filter member

theorem sustains_readAxiomNodes (nodes : List Node) : SustainsStore context Sound (withDefaults (nodes.forM readAxiomNode)) := by
  have each : SustainsStore { context with forced := true } Sound (nodes.forM readAxiomNode) :=
    .forM _ fun node _ => sustains_readAxiomNode node
  exact each

/-- What follows may know less of the store. -/
theorem known_bind {body : Load α} {next : α → Load β} {after : TripleStore → Prop} (first : SustainsStore context known body)
    (weaker : ∀ store, known store → after store)
    (rest : ∀ value session, known session.store → after (next value context session).2.store) {session : Session}
    (holds : known session.store) : after ((body >>= next) context session).2.store := by
  obtain ⟨kept, -⟩ := first session holds
  cases run : (body context session).1 with
  | error error =>
    rw [Run.bind_error run]
    exact weaker _ kept
  | ok value =>
    rw [Run.bind_ok run]
    exact rest value _ kept

section Whole

variable (context)

theorem sustains_translated : SustainsStore context Whole (prepare >>= fun _ => translateAxioms) :=
  (sustains_prepare lasting_whole).bind fun _ => sustains_translateAxioms lasting_whole.ofSessions

theorem balanced_finish {session : Session} (whole : session.store.Whole) : (finish context session).2.store.Balanced := by
  have merged : SustainsStore context Sound (withDefaults readAxiomAnnotations) := fun session =>
    sustains_readAxiomNodes session.axiomNodes session
  have reported : SustainsStore context Balanced (do (← get).store.unconsumed.forM reportUnparsed) :=
    .get fun _ _ => .forM _ fun row _ => sustains_reportUnparsed lasting_balanced.ofSessions row
  exact known_bind merged (fun _ sound => sound.toBalanced) (fun _ last sound => (reported last sound.toBalanced).1) whole.sound

variable (document : Option Iri) (triples : List Triple)

theorem whole_start : (start document triples).store.Whole := whole_ofTriples triples

/-- However a load ends, the log lists the used triples, each once, and every lookup filters the rows that
are there. -/
theorem translate_balanced :
    let store := (translate context (start document triples)).2.store
    store.Booked ∧ store.Filters store.liveRows := by
  intro store
  have balanced : store.Balanced := by
    have finished := known_bind (sustains_translated context) (fun _ whole => whole.toBalanced) (fun _ _ => balanced_finish context)
      (whole_start document triples)
    rwa [bind_assoc, ← translate_phases] at finished
  exact ⟨balanced.toBooked, balanced.indexed.filters⟩

/-- After any merges of annotations, one that fails and is rolled back leaves the marks, the log and the rows
as they were, though it may have added a triple and removed it. -/
theorem merge_undone {nodes : List Node} {session : Session}
    (run : ((prepare >>= fun _ => translateAxioms) >>= fun _ => withDefaults (nodes.forM readAxiomNode)) context
      (start document triples) = (.ok (), session)) {node : Node} {halt : Halt}
    (failed : (Translation.mergeAnnotations node { context with forced := true } session).1 = .error halt) :
    let after := ((Translation.mergeAnnotations node { context with forced := true } session).2).rollback session.checkpoint
    (∀ id, after.store.isConsumed id = session.store.isConsumed id) ∧ after.store.log = session.store.log ∧
      ∀ row, row ∈ after.store.liveRows ↔ row ∈ session.store.liveRows := by
  intro after
  have sound : session.store.Sound := by
    have merged : SustainsStore context Sound (withDefaults (nodes.forM readAxiomNode)) := sustains_readAxiomNodes nodes
    have kept := known_bind (sustains_translated context) (fun _ whole => whole.sound)
      (fun _ middle whole => (merged middle whole.sound).1) (whole_start document triples)
    rwa [run] at kept
  have proceeds := (Translation.tends_mergeAnnotations sound node).of_error failed
  have keeps := (Translation.leads_mergeAnnotations sound.indexed node).of_error failed
  obtain ⟨marks, log⟩ := proceeds.undone sound.indexed
  exact ⟨marks, log, fun row => (mem_liveRows_rollback _ _).trans (keeps.rows row)⟩

end Whole

end Load

end OwlGraph
