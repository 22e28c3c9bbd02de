import OwlGraph.Proofs.LaxLoad
import OwlGraph.Proofs.RenamingBack

/-! What a node that stands for an axiom comes to. It points to a triple and carries annotations, and
the axiom on record for the triple is looked up, or read now; a triple that the graph lacks is added
for the sake of the node, and goes again if it stands for no axiom. Whatever comes of it, the triples
and the axioms on record of before are still there. -/

namespace OwlGraph

namespace TripleStore

variable {store : TripleStore} {row : Row}

theorem mem_liveRows_remove (store : TripleStore) (id : TripleId) :
    row ∈ (store.remove id).liveRows ↔ row ∈ store.liveRows ∧ row.id ≠ id := by
  rw [mem_liveRows, mem_liveRows, row?_eq_some, row?_eq_some, remove, Array.getElem?_modify]
  by_cases same : id = row.id
  · rw [if_pos same]
    cases store.entries[row.id]? <;> simp [same]
  · simp [same, Ne.symm same]

theorem mem_liveRows_rollback (store : TripleStore) (position : Nat) :
    row ∈ (store.rollback position).liveRows ↔ row ∈ store.liveRows := by
  rw [mem_liveRows, mem_liveRows, row?_eq_some, row?_eq_some, entries_rollback]
  cases store.entries[row.id]? with
  | none => simp
  | some entry => by_cases freed : row.id ∈ store.log.toList.drop position <;> simp [freed]

/-- A triple that is not there gets a number that no live triple has. -/
theorem Indexed.insert_new (indexed : store.Indexed) {triple : Triple} (absent : store.find? triple = none) :
    ∃ id after, store.insert triple = (some id, after) ∧ after.Indexed ∧ (∀ row ∈ store.liveRows, row.id ≠ id) ∧
      ∀ row, row ∈ after.liveRows ↔ row ∈ store.liveRows ∨ row = ⟨id, triple⟩ := by
  have missing : triple ∉ store.liveRows.map Row.triple := by
    intro member
    obtain ⟨row, live, rfl⟩ := List.mem_map.mp member
    rw [indexed.find?_eq_some.mpr live] at absent
    cases absent
  obtain ⟨present, -⟩ | ⟨-, place, dead, entries⟩ := indexed.insert_cases triple
  · exact absurd present missing
  have rows (row : Row) : row ∈ (store.insert triple).2.liveRows ↔ row ∈ store.liveRows ∨ row = ⟨place, triple⟩ := by
    rw [mem_liveRows, mem_liveRows, row?_eq_some, row?_eq_some, entries]
    obtain ⟨id, other⟩ := row
    by_cases same : id = place
    · subst same
      have none : ¬ ∃ entry, store.entries[id]? = some entry ∧ entry.live = true ∧ entry.triple = other := by
        rintro ⟨entry, stored, live, -⟩
        rw [dead entry stored] at live
        cases live
      simpa [none] using (eq_comm : triple = other ↔ other = triple)
    · simp [same]
  have numbered : ∃ id, (store.insert triple).1 = some id ∧ (store.insert triple).2.ids[triple]? = some id := by
    unfold TripleStore.insert
    split
    · next id found =>
      have gone : (store.entries[id]?).any (·.live) = false := by simpa [TripleStore.find?, found] using absent
      rw [if_neg (by simp [gone])]
      exact ⟨id, rfl, found⟩
    · exact ⟨_, rfl, by simp⟩
  obtain ⟨id, first, known⟩ := numbered
  have own := (Option.filter_eq_some_iff.mp ((indexed.insert triple).find?_eq_some.mpr ((rows ⟨place, triple⟩).mpr (.inr rfl)))).1
  obtain rfl : id = place := Option.some.inj (known.symm.trans own)
  refine ⟨id, _, Prod.ext first rfl, indexed.insert triple, fun row live same => ?_, rows⟩
  obtain ⟨-, entry, stored, alive, -⟩ := row?_eq_some.mp (mem_liveRows.mp live)
  rw [dead entry (same ▸ stored)] at alive
  cases alive

end TripleStore

/-- From the session the computation gives a value and leaves a session of the one kind, or it stops and
leaves one of the other kind. -/
def Run.Leads {ε α : Type} (context : Context) (session : Session) (body : Run ε α) (result : α → Session → Prop)
    (stopped : Session → Prop) : Prop :=
  match body context session with
  | (.ok value, after) => result value after
  | (.error _, after) => stopped after

namespace Run.Leads

variable {ε α β : Type} {context : Context} {session : Session} {body : Run ε α} {result : α → Session → Prop}
  {stopped : Session → Prop}

theorem pure {value : α} (holds : result value session) : Leads context session (pure value : Run ε α) result stopped := holds

theorem raise {error : ε} (holds : stopped session) : Leads context session (throw error : Run ε α) result stopped := holds

/-- Nothing follows what stops. -/
theorem stop {error : ε} {next : α → Run ε β} {last : β → Session → Prop} (holds : stopped session) :
    Leads context session (throw error >>= next) last stopped := holds

theorem alter {change : Session → Session} {result : Unit → Session → Prop} (holds : result () (change session)) :
    Leads context session (modify change : Run ε Unit) result stopped := holds

theorem get {next : Session → Run ε α} (rest : Leads context session (next session) result stopped) :
    Leads context session (MonadState.get >>= next) result stopped := rest

theorem bind {next : α → Run ε β} {last : β → Session → Prop} (first : Leads context session body result stopped)
    (rest : ∀ value middle, result value middle → Leads context middle (next value) last stopped) :
    Leads context session (body >>= next) last stopped := by
  rw [Leads] at first ⊢
  rw [bind_eq]
  rcases run : body context session with ⟨value | value, middle⟩
  · rw [run] at first
    exact first
  · rw [run] at first
    exact rest value middle first

theorem of_run (holds : ∀ value after, body context session = (.ok value, after) → result value after) :
    Leads context session body result fun _ => True := by
  rw [Leads]
  split
  · next value after run => exact holds value after run
  · trivial

theorem any : Leads context session body (fun _ _ => True) fun _ => True := .of_run fun _ _ _ => True.intro

theorem and {other : α → Session → Prop} {left : Session → Prop} (first : Leads context session body result stopped)
    (second : Leads context session body other left) :
    Leads context session body (fun value after => result value after ∧ other value after) fun after => stopped after ∧ left after := by
  rw [Leads] at first second ⊢
  rcases run : body context session with ⟨value | value, after⟩ <;>
  · rw [run] at first second
    exact ⟨first, second⟩

theorem weaken {other : α → Session → Prop} {left : Session → Prop} (first : Leads context session body result stopped)
    (later : ∀ value after, result value after → other value after) (otherwise : ∀ after, stopped after → left after) :
    Leads context session body other left := by
  rw [Leads] at first ⊢
  rcases run : body context session with ⟨value | value, after⟩
  · rw [run] at first
    exact otherwise after first
  · rw [run] at first
    exact later value after first

/-- Putting the session in order after an error. -/
theorem cleanup {change : Session → Session} (first : Leads context session body result fun after => stopped (change after)) :
    Leads context session (tryCatch body fun error => do
      modify change
      throw error) result stopped := by
  rw [Leads] at first ⊢
  rw [cleanup_eq]
  rcases run : body context session with ⟨value | value, after⟩ <;> rwa [run] at first

theorem of_ok (leads : Leads context session body result stopped) {value : α} {after : Session}
    (run : body context session = (.ok value, after)) : result value after := by
  rwa [Leads, run] at leads

theorem of_error (leads : Leads context session body result stopped) {error : ε}
    (run : (body context session).1 = .error error) : stopped (body context session).2 := by
  rw [Leads] at leads
  rcases ended : body context session with ⟨value | value, after⟩
  · rwa [ended] at leads
  · rw [ended] at run
    cases run

end Run.Leads

/-- In some session the triple is read as the axiom. -/
def Context.Reads (context : Context) (triple : Triple) (fact : AnnotatedAxiom) : Prop :=
  ∃ session after, Translation.statement triple context session = (.ok fact, after)

namespace Session

/-- Triples may have been used and kinds learned; the triples, the axioms and the axioms on record are
the same. -/
structure Keeps (session after : Session) : Prop where
  indexed : after.store.Indexed
  rows : ∀ row, row ∈ after.store.liveRows ↔ row ∈ session.store.liveRows
  ontology : after.ontology = session.ontology
  produced : after.produced = session.produced

/-- The triple is there, and the axiom is on record for it. -/
def StandsFor (session : Session) (triple : Triple) (fact : AnnotatedAxiom) : Prop :=
  ∃ id, ⟨id, triple⟩ ∈ session.store.liveRows ∧ session.produced[id]? = some fact

/-- The triples and the axioms on record are those of before, and perhaps more, which are read off their
triples. -/
structure Grows (context : Context) (session after : Session) : Prop where
  indexed : after.store.Indexed
  rows : ∀ row ∈ session.store.liveRows, row ∈ after.store.liveRows
  produced : ∀ row ∈ session.store.liveRows, ∀ fact, session.produced[row.id]? = some fact → after.produced[row.id]? = some fact
  fresh : ∀ triple fact, after.StandsFor triple fact → session.StandsFor triple fact ∨ context.Reads triple fact

/-- The node says in three triples for which triple it stands. -/
structure Annotates (session : Session) (node : Node) (triple : Triple) : Prop where
  source : ⟨node, Owl.annotatedSource, .resource triple.subject⟩ ∈ session.store.liveRows.map Row.triple
  property : ⟨node, Owl.annotatedProperty, .resource (.named triple.predicate)⟩ ∈ session.store.liveRows.map Row.triple
  target : ⟨node, Owl.annotatedTarget, triple.object⟩ ∈ session.store.liveRows.map Row.triple

variable {context : Context} {session middle after : Session} {triple : Triple} {fact : AnnotatedAxiom}

theorem Keeps.refl (indexed : session.store.Indexed) : session.Keeps session := ⟨indexed, fun _ => Iff.rfl, rfl, rfl⟩

theorem Keeps.trans (first : session.Keeps middle) (second : middle.Keeps after) : session.Keeps after :=
  ⟨second.indexed, fun row => (second.rows row).trans (first.rows row), second.ontology.trans first.ontology,
    second.produced.trans first.produced⟩

theorem Keeps.triple_iff (keeps : session.Keeps after) : triple ∈ after.store.liveRows.map Row.triple ↔
    triple ∈ session.store.liveRows.map Row.triple := by
  rw [List.mem_map, List.mem_map]
  exact exists_congr fun row => and_congr_left' (keeps.rows row)

theorem Keeps.standsFor_iff (keeps : session.Keeps after) : after.StandsFor triple fact ↔ session.StandsFor triple fact := by
  rw [StandsFor, StandsFor, keeps.produced]
  exact exists_congr fun id => and_congr_left' (keeps.rows _)

theorem Keeps.grows (keeps : session.Keeps after) : session.Grows context after where
  indexed := keeps.indexed
  rows row member := (keeps.rows row).mpr member
  produced _ _ _ known := keeps.produced ▸ known
  fresh _ _ stands := .inl (keeps.standsFor_iff.mp stands)

theorem Grows.trans (first : session.Grows context middle) (second : middle.Grows context after) : session.Grows context after where
  indexed := second.indexed
  rows row member := second.rows row (first.rows row member)
  produced row member fact known := second.produced row (first.rows row member) fact (first.produced row member fact known)
  fresh triple fact stands := (second.fresh triple fact stands).elim (first.fresh triple fact) .inr

theorem StandsFor.grows (stands : session.StandsFor triple fact) (grows : session.Grows context after) : after.StandsFor triple fact := by
  obtain ⟨id, live, known⟩ := stands
  exact ⟨id, grows.rows _ live, grows.produced _ live fact known⟩

/-- The axiom is on record for the triple, and no axiom of the ontology has changed. -/
structure Finds (context : Context) (session after : Session) (triple : Triple) (fact : AnnotatedAxiom) : Prop where
  grows : session.Grows context after
  ontology : after.ontology = session.ontology
  stands : after.StandsFor triple fact

/-- The triple is there and the only one that is new, and no axiom is on record for it. -/
structure Readies (session middle : Session) (id : TripleId) (triple : Triple) : Prop where
  indexed : middle.store.Indexed
  rows : ∀ row, row ∈ middle.store.liveRows ↔ row ∈ session.store.liveRows ∨ row = ⟨id, triple⟩
  unknown : ∀ row ∈ session.store.liveRows, row.id = id → session.produced[row.id]? = none
  ontology : middle.ontology = session.ontology
  produced : middle.produced = session.produced

/-- An axiom is recorded for such a triple. -/
theorem Readies.record {id : TripleId} (readies : session.Readies middle id triple) (read : context.Reads triple fact) :
    session.Finds context { middle.consume id with produced := middle.produced.insert id fact } triple fact := by
  have rows (row : Row) : row ∈ (middle.store.consume id).liveRows ↔ row ∈ session.store.liveRows ∨ row = ⟨id, triple⟩ := by
    rw [TripleStore.liveRows_consume, readies.rows]
  have recorded (number : TripleId) : (middle.produced.insert id fact)[number]? =
      if id = number then some fact else session.produced[number]? := by
    simp only [Std.HashMap.getElem?_insert, beq_iff_eq, readies.produced]
  refine ⟨⟨TripleStore.indexed_consume _ id readies.indexed, fun row member => (rows row).mpr (.inl member), ?_, ?_⟩,
    readies.ontology, id, (rows _).mpr (.inr rfl), Std.HashMap.getElem?_insert_self⟩
  · intro row member other known
    have apart : id ≠ row.id := by
      rintro same
      rw [readies.unknown row member same.symm] at known
      cases known
    exact (recorded row.id).trans ((if_neg apart).trans known)
  · rintro other found ⟨number, live, known⟩
    replace live := (rows _).mp live
    replace known := (recorded number).symm.trans known
    split at known
    · next same =>
      -- no other triple has the number
      subst same
      have here : middle.store.row? id = some ⟨id, triple⟩ := TripleStore.mem_liveRows.mp ((readies.rows ⟨id, triple⟩).mpr (.inr rfl))
      have there : middle.store.row? id = some ⟨id, other⟩ := TripleStore.mem_liveRows.mp ((readies.rows ⟨id, other⟩).mpr live)
      rw [here] at there
      cases there
      exact .inr (Option.some.inj known ▸ read)
    · next apart =>
      rcases live with live | same
      · exact .inl ⟨number, live, known⟩
      · exact absurd (congrArg Row.id same).symm apart

end Session

namespace Translation

open Run Session

variable {α : Type} {context : Context} {session : Session}

theorem LeavesReading.keeps {body : Translation α} (leaves : LeavesReading body) (context : Context)
    (indexed : session.store.Indexed) : session.Keeps (body context session).2 := by
  obtain ⟨used, noted, kinds, kindsChanged, same⟩ := leaves.result context indexed
  rw [same]
  refine ⟨TripleStore.indexed_consumeAll indexed used, fun row => ?_, rfl, rfl⟩
  change row ∈ (session.store.consumeAll used).liveRows ↔ _
  rw [TripleStore.liveRows_consumeAll]

theorem LeavesReading.leads {body : Translation α} (leaves : LeavesReading body) (context : Context) (indexed : session.store.Indexed) :
    Leads context session body (fun _ after => session.Keeps after) session.Keeps := by
  have keeps := leaves.keeps context indexed
  rw [Leads]
  rcases run : body context session with ⟨_ | _, after⟩ <;> rwa [run] at keeps

theorem normal_statement (triple : Triple) :
    Leads context session (statement triple) (fun fact _ => fact.Normal) fun _ => True := by
  unfold statement
  dsimp only
  split
  · split
    · exact Leads.any.bind fun bare _ _ => Leads.any.bind fun notes _ _ => .pure (AnnotatedAxiom.normal_of bare notes)
    · exact Leads.any.bind fun bare _ _ => .pure (AnnotatedAxiom.normal_of bare [])
  · exact Leads.any.bind fun bare _ _ => .pure (AnnotatedAxiom.normal_of bare [])

end Translation

theorem Context.Reads.normal {context : Context} {triple : Triple} {fact : AnnotatedAxiom} (reads : context.Reads triple fact) :
    fact.Normal := by
  obtain ⟨session, after, run⟩ := reads
  exact Run.Leads.of_ok (Translation.normal_statement triple) run

/-- What a node that stands for a triple adds to the axiom that the triple stands for. -/
structure Merge where
  node : Node
  triple : Triple
  base : AnnotatedAxiom
  notes : List Annotation

namespace Merge

/-- The axiom with its annotations and those of the node. -/
def fact (merge : Merge) : AnnotatedAxiom := .of merge.base.bare (merge.base.annotations ++ merge.notes)

/-- Replaces the axiom. -/
def apply (ontology : Ontology) (merge : Merge) : Ontology := (ontology.remove merge.base).add merge.fact

end Merge

namespace Translation

open Run Session

/-- The triple that the node points to and the annotations that it carries. -/
def readReification (node : Node) : Translation (Triple × List Annotation) := do
  let source ← singleObject node Owl.annotatedSource
  let predicate ← named .property (← singleObject node Owl.annotatedProperty)
  let object ← singleObject node Owl.annotatedTarget
  let some subject := source.node? | unexpected .tripleSubject source
  consumeReification node
  let notes ← annotationsOn node
  return (⟨subject, predicate, object⟩, notes)

/-- What the node adds to which axiom. -/
def readMerge (node : Node) : Translation Merge := do
  let (triple, notes) ← readReification node
  let base ← annotatedFact node triple
  return ⟨node, triple, base, notes⟩

theorem mergeAnnotations_eq (node : Node) :
    mergeAnnotations node = readMerge node >>= fun merge => modify (·.addAnnotations merge.base merge.notes) := by
  simp only [mergeAnnotations, readMerge, readReification, bind_assoc, pure_bind]
  congr 1
  funext source
  congr 1
  funext property
  congr 1
  funext predicate
  congr 1
  funext object
  cases source.node? with
  | none => rfl
  | some subject => simp only [bind_assoc, pure_bind]

section Merging

variable {context : Context} {session : Session}

theorem mergeAnnotations_ok {node : Node} {merge : Merge} {middle : Session} (run : readMerge node context session = (.ok merge, middle)) :
    mergeAnnotations node context session = (.ok (), middle.addAnnotations merge.base merge.notes) := by
  rw [mergeAnnotations_eq, bind_run run]
  rfl

theorem mergeAnnotations_error {node : Node} {halt : Halt} {middle : Session} (run : readMerge node context session = (.error halt, middle)) :
    mergeAnnotations node context session = (.error halt, middle) := by
  rw [mergeAnnotations_eq, bind_error (congrArg Prod.fst run), run]

theorem readReification_of_readMerge {node : Node} {merge : Merge} (read : (readMerge node context session).1 = .ok merge) :
    (readReification node context session).1 = .ok (merge.triple, merge.notes) := by
  rcases run : readMerge node context session with ⟨value, after⟩
  rw [run] at read
  subst read
  obtain ⟨⟨triple, notes⟩, middle, reified, run⟩ := exists_of_bind run
  obtain ⟨base, last, -, run⟩ := exists_of_bind run
  cases run
  rw [reified]

theorem leads_value (view : NodeView) (predicate : Iri) :
    Leads context session (value view predicate) (fun object _ => object ∈ view.objects predicate) fun _ => True := by
  unfold value
  split
  · exact .raise True.intro
  · next same => exact .pure (same ▸ List.mem_singleton_self _)
  · next same => exact Leads.any.bind fun _ _ _ => .pure (same ▸ List.mem_cons_self)

variable (indexed : session.store.Indexed)
include indexed

theorem leads_singleObject (node : Node) (predicate : Iri) :
    Leads context session (singleObject node predicate) (fun object after => session.Keeps after ∧
      ⟨node, predicate, object⟩ ∈ session.store.liveRows.map Row.triple) session.Keeps := by
  have found : Leads context session (singleObject node predicate)
      (fun object _ => object ∈ (session.view node).objects predicate) fun _ => True :=
    .get ((leads_value _ _).bind fun object _ shown => Leads.any.bind fun _ _ _ => .pure shown)
  refine ((leaves_singleObject node predicate).leads context indexed |>.and found).weaken (fun object after ⟨keeps, shown⟩ => ⟨keeps, ?_⟩)
    fun _ => And.left
  obtain ⟨row, listed, rfl, rfl⟩ := NodeView.exists_row_of_mem_objects shown
  have inside := List.mem_of_mem_filter listed
  rw [indexed.withSubject, List.mem_filter, beq_iff_eq] at inside
  obtain ⟨live, rfl⟩ := inside
  exact List.mem_map_of_mem live

theorem leads_named (expectation : Expectation) (term : Term) :
    Leads context session (named expectation term) (fun iri after => session.Keeps after ∧ term = .resource (.named iri)) session.Keeps := by
  unfold named
  split
  · next iri same => exact .pure ⟨.refl indexed, Term.iri?_eq_some.mp same⟩
  · exact .raise (.refl indexed)

omit indexed in
/-- What is read later on in the same graph. -/
theorem Keeps.leads {α : Type} {middle : Session} {body : Translation α} {known : α → Prop} (keeps : session.Keeps middle)
    (leads : Leads context middle body (fun value after => middle.Keeps after ∧ known value) middle.Keeps) :
    Leads context middle body (fun value after => session.Keeps after ∧ known value) session.Keeps :=
  leads.weaken (fun _ _ ⟨same, holds⟩ => ⟨keeps.trans same, holds⟩) fun _ => keeps.trans

/-- The node points to the triple that is read, and nothing happens to the triples and the axioms. -/
theorem leads_readReification (node : Node) : Leads context session (readReification node)
    (fun read after => session.Keeps after ∧ session.Annotates node read.1) session.Keeps := by
  have single {middle : Session} (keeps : session.Keeps middle) (predicate : Iri) : Leads context middle (singleObject node predicate)
      (fun object after => session.Keeps after ∧ ⟨node, predicate, object⟩ ∈ session.store.liveRows.map Row.triple) session.Keeps :=
    (Keeps.leads keeps (leads_singleObject keeps.indexed node predicate)).weaken
      (fun object after ⟨same, member⟩ => ⟨same, keeps.triple_iff.mp member⟩) fun _ => id
  have name {middle : Session} (keeps : session.Keeps middle) (term : Term) : Leads context middle (named .property term)
      (fun iri after => session.Keeps after ∧ term = .resource (.named iri)) session.Keeps :=
    Keeps.leads keeps (leads_named keeps.indexed .property term)
  refine (single (.refl indexed) _).bind fun source middle ⟨keeps, first⟩ => (single keeps _).bind fun property middle ⟨keeps, second⟩ =>
    (name keeps property).bind fun predicate middle ⟨keeps, named⟩ => (single keeps _).bind fun object middle ⟨keeps, third⟩ => ?_
  cases source with
  | literal value => exact .raise keeps
  | resource subject =>
    have reified := (leaves_consumeReification node).leads context keeps.indexed
    refine (reified.weaken (fun _ _ => keeps.trans) fun _ => keeps.trans).bind fun _ middle keeps => ?_
    have notes := (leaves_annotationsOn node).leads context keeps.indexed
    exact (notes.weaken (fun _ _ => keeps.trans) fun _ => keeps.trans).bind fun _ _ keeps =>
      .pure ⟨keeps, first, named ▸ second, third⟩

omit indexed in
theorem leads_lateStatement {middle : Session} {id : TripleId} {triple : Triple} (readies : session.Readies middle id triple) :
    Leads context middle (lateStatement id triple) (fun fact after => session.Finds context after triple fact) middle.Keeps := by
  have reads : Leads context middle (statement triple) (fun fact _ => context.Reads triple fact) fun _ => True :=
    Leads.of_run fun fact after run => ⟨middle, after, run⟩
  have read := ((leaves_statement triple).leads context readies.indexed).and reads
  refine Leads.bind (read.weaken (fun _ _ both => both) fun _ => And.left) fun fact after ⟨keeps, reads⟩ => ?_
  have still : session.Readies after id triple := ⟨keeps.indexed, fun row => (keeps.rows row).trans (readies.rows row), readies.unknown,
    keeps.ontology.trans readies.ontology, keeps.produced.trans readies.produced⟩
  have recorded : Leads context after
      (modify fun session => { session.consume id with produced := session.produced.insert id fact } : Translation Unit)
      (fun _ after => session.Finds context after triple fact) middle.Keeps := .alter (still.record reads)
  exact recorded.bind fun _ _ finds => .pure finds

theorem leads_insertMissing (node : Node) {triple : Triple} (absent : session.store.find? triple = none) :
    Leads context session (insertMissing node triple) (fun id middle => session.Readies middle id triple ∧
      ∀ row ∈ session.store.liveRows, row.id ≠ id) session.Keeps := by
  have noted : LeavesReading (recover (.annotatedTripleMissing node triple)) := fun _ _ _ => reads_recover _ rfl
  refine (noted.leads context indexed).bind fun _ middle keeps => .get ?_
  have missing : middle.store.find? triple = none := by
    rw [Option.eq_none_iff_forall_ne_some] at absent ⊢
    intro id found
    exact absent id (indexed.find?_eq_some.mpr ((keeps.rows _).mp (keeps.indexed.find?_eq_some.mp found)))
  obtain ⟨id, store, inserted, grown, fresh, rows⟩ := keeps.indexed.insert_new missing
  have apart (row : Row) (live : row ∈ session.store.liveRows) : row.id ≠ id := fresh row ((keeps.rows row).mpr live)
  have readies : session.Readies { middle with store } id triple := by
    refine ⟨grown, fun row => ?_, fun row live same => absurd same (apart row live), keeps.ontology, keeps.produced⟩
    rw [← keeps.rows row]
    exact rows row
  rw [inserted]
  have added : Leads context middle (modify fun session => { session with store } : Translation Unit)
      (fun _ after => session.Readies after id triple ∧ ∀ row ∈ session.store.liveRows, row.id ≠ id) session.Keeps :=
    .alter ⟨readies, apart⟩
  exact added.bind fun _ _ done => .pure done

/-- The axiom that is found is on record for the triple; if there is none, nothing has happened to the
triples and the axioms. -/
theorem leads_annotatedFact (node : Node) (triple : Triple) :
    Leads context session (annotatedFact node triple) (fun fact after => session.Finds context after triple fact) session.Keeps := by
  refine .get ?_
  split
  · next id found =>
    have live := indexed.find?_eq_some.mp found
    split
    · next fact known => exact .pure ⟨(Keeps.refl indexed).grows, rfl, id, live, known⟩
    · next unknown =>
      have readies : session.Readies session id triple := by
        refine ⟨indexed, fun row => (or_iff_left_of_imp ?_).symm, ?_, rfl, rfl⟩
        · rintro rfl
          exact live
        · rintro row - rfl
          exact unknown
      split
      · exact .stop (Keeps.refl indexed)
      · exact leads_lateStatement readies
  · next absent =>
    refine (leads_insertMissing indexed node absent).bind fun id middle ⟨readies, fresh⟩ => ?_
    refine Leads.cleanup ((leads_lateStatement readies).weaken (fun _ _ finds => finds) fun after keeps => ?_)
    refine ⟨TripleStore.indexed_remove keeps.indexed id, fun row => ?_, keeps.ontology.trans readies.ontology, keeps.produced.trans readies.produced⟩
    change row ∈ (after.store.remove id).liveRows ↔ _
    rw [TripleStore.mem_liveRows_remove, keeps.rows, readies.rows]
    constructor
    · rintro ⟨old | rfl, apart⟩
      · exact old
      · exact absurd rfl apart
    · exact fun old => ⟨.inl old, fresh row old⟩

theorem leads_readMerge (node : Node) : Leads context session (readMerge node) (fun merge after =>
    merge.node = node ∧ session.Annotates node merge.triple ∧ session.Finds context after merge.triple merge.base) session.Keeps := by
  refine (leads_readReification indexed node).bind fun (triple, notes) middle ⟨keeps, annotates⟩ => ?_
  refine ((leads_annotatedFact keeps.indexed node triple).weaken (fun _ _ => id) fun _ => keeps.trans).bind fun base after finds =>
    .pure ⟨rfl, annotates, ?_⟩
  exact ⟨keeps.grows.trans finds.grows, finds.ontology.trans keeps.ontology, finds.stands⟩

end Merging

end Translation

end OwlGraph
