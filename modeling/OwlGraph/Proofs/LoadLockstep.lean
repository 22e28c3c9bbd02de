import OwlGraph.Proofs.TranslationLockstep

/-! Loads in step. A strict load is given up where a lax one reports a problem. There is one
way for a problem to leave no report: the translation in which a lax load met it is put off to
a later pass, and what was noted of it is forgotten. So a load that needs a second pass has to
count as one that has something to show. -/

namespace OwlGraph

namespace Session

theorem Quiet.id : Quiet id := ⟨fun _ => rfl, fun _ => rfl, fun _ => rfl, fun _ _ agrees => agrees⟩

theorem Quiet.comp {first second : Session → Session} (later : Quiet second) (earlier : Quiet first) :
    Quiet fun session => second (first session) :=
  ⟨fun session => (later.pending _).trans (earlier.pending session),
    fun session => (later.reports _).trans (earlier.reports session),
    fun session => (later.passes _).trans (earlier.passes session),
    fun one other agrees => later.agrees _ _ (earlier.agrees one other agrees)⟩

theorem quiet_commit (id : TripleId) (fact : AnnotatedAxiom) : Quiet (·.commit id fact) :=
  ⟨fun _ => rfl, fun _ => rfl, fun _ => rfl, fun _ _ ⟨kinds, same, known⟩ => ⟨kinds, by rw [same]; rfl, known⟩⟩

theorem constructNodes_agrees (session : Session) (kinds : Std.HashSet Entity) (steps : Nat) (waiting seen : List Node) :
    constructNodes { session with kinds } steps waiting seen = session.constructNodes steps waiting seen := by
  induction steps generalizing waiting seen with
  | zero => rfl
  | succ steps ih =>
    cases waiting with
    | nil => rfl
    | cons node waiting =>
      rw [constructNodes, constructNodes]
      split
      · exact ih waiting seen
      · exact ih _ _

theorem quiet_discard (row : Row) : Quiet (·.discard row) := by
  refine ⟨fun _ => rfl, fun _ => rfl, fun _ => rfl, ?_⟩
  rintro session _ ⟨kinds, rfl, known⟩
  refine ⟨kinds, ?_, known⟩
  rw [discard, discard, constructNodes_agrees]
  rfl

theorem Agrees.rollback {first second start other : Session} (agrees : first.Agrees second) (before : start.Agrees other) :
    (first.rollback start.checkpoint).Agrees (second.rollback other.checkpoint) := by
  obtain ⟨kinds, rfl, known⟩ := agrees
  obtain ⟨others, rfl, told⟩ := before
  exact ⟨others, rfl, told⟩

end Session

namespace Load

/-- The session that a load starts from. -/
def start (document : Option Iri) (triples : List Triple) : Session :=
  { store := .ofTriples triples, ontology := { document } }

/-- Loads are given up over problems or report them. Nothing waits on this level. -/
def level : Level LoadError where
  refusal error := ∃ report, error = .refused report
  failure _ := True
  waiting _ := False
  keeps first second := first.reports.size ≤ second.reports.size ∧ first.passes ≤ second.passes
  notes first second := first.reports.size < second.reports.size ∨ 1 < second.passes
  quiet _ reports passes := ⟨Nat.le_of_eq (by rw [reports]), Nat.le_of_eq passes.symm⟩
  trans earlier later := ⟨Nat.le_trans earlier.1 later.1, Nat.le_trans earlier.2 later.2⟩
  notes_of_keeps kept noted := noted.imp (Nat.lt_of_le_of_lt kept.1) id
  notes_keeps noted kept :=
    noted.imp (fun more => Nat.lt_of_lt_of_le more kept.1) fun more => Nat.lt_of_lt_of_le more kept.2

abbrev InStep {α : Type} (context : Context) (body : Load α) : Prop := level.InStep context True body

/-- In step, but for runs that put off what they have to show. -/
abbrev NearStep {α : Type} (context : Context) (postponed : Except LoadError α × Session → Prop) (body : Load α) :
    Prop :=
  level.Lockstep context True postponed body body

variable {α β : Type} {context : Context}

section Reports

theorem report_strict (mode : context.config.strict = true) (problem : Problem) (candidate : Option Triple)
    (session : Session) :
    report problem candidate context session =
      (.error (.refused ⟨problem, .error, candidate, context.config.detailed⟩), session) := by
  change (if context.config.strict then _ else _ : Load Unit) context session = _
  rw [mode]
  rfl

theorem report_lax (mode : context.config.strict = false) (problem : Problem) (candidate : Option Triple)
    (session : Session) :
    report problem candidate context session = (.ok (), { session with
      reports := session.reports.push ⟨problem, problem.severity, candidate, context.config.detailed⟩ }) := by
  change (if context.config.strict then _ else _ : Load Unit) context session = _
  rw [mode]
  rfl

theorem inStep_report (problem : Problem) (candidate : Option Triple) : InStep context (report problem candidate) := by
  have pushed (session : Session) (entry : Report) : session.reports.size < (session.reports.push entry).size := by
    rw [Array.size_push]
    exact Nat.lt_succ_self _
  exact .part _ _ (fun _ session mode => report_strict mode problem candidate session)
    (fun _ session mode => report_lax mode problem candidate session) (fun _ => ⟨_, rfl⟩) (fun _ => id)
    (fun _ session => ⟨Nat.le_of_lt (pushed session _), Nat.le_refl _⟩) fun _ session => .inl (pushed session _)

/-- A lax load has every problem to show that it reports. -/
theorem departs_report (problem : Problem) (candidate : Option Triple) (session : Session) :
    level.Departs session (report problem candidate context.lax session) := by
  rw [report_lax rfl]
  refine .inr (.inl ?_)
  change session.reports.size < (session.reports.push _).size
  rw [Array.size_push]
  exact Nat.lt_succ_self _

theorem inStep_flush : InStep context flush := by
  refine .look (fun _ _ _ => rfl) fun session => Level.Lockstep.bind ?_ fun _ =>
    Level.Lockstep.forM (fun problem => inStep_report problem none) _
  exact .change (fun _ => ⟨Nat.le_refl _, Nat.le_refl _⟩)
    (fun _ _ ⟨kinds, same, known⟩ => ⟨kinds, by rw [same], known⟩) fun _ => rfl

theorem departs_flush {session : Session} (some : 0 < session.pending.size) :
    level.Departs session (flush context.lax session) := by
  have listed : 0 < session.pending.toList.length := by
    rw [Array.length_toList]
    exact some
  obtain ⟨problem, rest, split⟩ := List.exists_cons_of_length_pos listed
  change level.Departs session
    ((session.pending.toList.forM fun problem => report problem none) context.lax { session with pending := #[] })
  rw [split]
  refine Level.Departs.bind (departs_report problem none { session with pending := #[] }) fun _ => ?_
  exact (Level.Lockstep.forM (fun problem => inStep_report problem none) rest).lax_tame

end Reports

section Attempts

/-- Ends an attempt that succeeded. -/
def succeed (keep : Session → Session) (result : β) : Load β := do
  modify keep
  flush
  return result

/-- Ends an attempt that failed. -/
def giveUp (drop : Session → Session) (problem : Problem) (candidate : Option Triple) (result : β) : Load β := do
  modify drop
  report problem candidate
  return result

/-- Runs a translation. If it succeeds the session is changed by its value and the pending repairs
are reported; else it is rolled back, and a failure changes the session too and is reported. -/
def conclude (body : Translation α) (keep : α → Session → Session) (drop : Session → Session)
    (candidate : Option Triple) (done : α → β) (waiting givenUp : β) : Load β := fun context session =>
  let after := (body context session).2
  match (body context session).1 with
  | .ok value => succeed (keep value) (done value) context after
  | .error (.deferred _) => (.ok waiting, after.rollback session.checkpoint)
  | .error (.failed problem) => giveUp drop problem candidate givenUp context (after.rollback session.checkpoint)

theorem outcome_run (body : Translation α) (context : Context) (session : Session) :
    outcome body context session = (.ok (body context session).1, (body context session).2) := rfl

theorem attempt_eq (body : Translation α) :
    attempt body = conclude body (fun _ => id) id none some none none := by
  funext context session
  rw [attempt, Run.get_bind, Run.bind_run (outcome_run body context session), conclude]
  rcases (body context session).1 with (_ | _) | _ <;> rfl

theorem translateCandidate_eq (row : Row) : translateCandidate row =
    conclude (Translation.statement row.triple) (fun fact session => (session.consume row.id).commit row.id fact)
      (·.discard row) (some row.triple) (fun _ => true) false true := by
  funext context session
  rw [translateCandidate, Run.get_bind, Run.bind_run (outcome_run _ context session), conclude]
  rcases (Translation.statement row.triple context session).1 with (_ | _) | _ <;> rfl

section Ends

variable {change : Session → Session} (quiet : Session.Quiet change)
include quiet

theorem inStep_succeed (result : β) : InStep context (succeed change result) :=
  (Level.Lockstep.alter quiet).bind fun _ => inStep_flush.bind fun _ => .pure result

theorem departs_succeed (result : β) {session : Session} (some : 0 < session.pending.size) :
    level.Departs session (succeed change result context.lax session) := by
  have departs : level.Departs (change session) ((flush >>= fun _ => pure result : Load β) context.lax (change session)) :=
    (departs_flush (by rw [quiet.pending]; exact some)).bind fun _ => .pure result
  exact departs.earlier (level.quiet (quiet.pending _) (quiet.reports _) (quiet.passes _))

variable (problem : Problem) (candidate : Option Triple) (result : β)

theorem inStep_giveUp : InStep context (giveUp change problem candidate result) :=
  (Level.Lockstep.alter quiet).bind fun _ => (inStep_report _ _).bind fun _ => .pure result

theorem departs_giveUp (session : Session) :
    level.Departs session (giveUp change problem candidate result context.lax session) := by
  have departs : level.Departs (change session)
      ((report problem candidate >>= fun _ => pure result : Load β) context.lax (change session)) :=
    (departs_report problem candidate (change session)).bind fun _ => .pure result
  exact departs.earlier (level.quiet (quiet.pending _) (quiet.reports _) (quiet.passes _))

omit quiet in
theorem giveUp_strict (mode : context.config.strict = true) (session : Session) :
    ∃ error, (giveUp change problem candidate result context session).1 = .error error ∧ level.refusal error := by
  have run : giveUp change problem candidate result context session =
      (report problem candidate >>= fun _ => pure result : Load β) context (change session) := rfl
  exact ⟨_, by rw [run, Run.bind_error (by rw [report_strict mode])], _, rfl⟩

omit quiet in
theorem giveUp_lax (mode : context.config.strict = false) (session : Session) :
    giveUp change problem candidate result context session = (.ok result, { change session with
      reports := (change session).reports.push ⟨problem, problem.severity, candidate, context.config.detailed⟩ }) := by
  have run : giveUp change problem candidate result context session =
      (report problem candidate >>= fun _ => pure result : Load β) context (change session) := rfl
  rw [run, Run.bind_run (report_lax mode problem candidate _)]
  rfl

end Ends

variable {repairs : Prop} {body : Translation α} {keep : α → Session → Session} {drop : Session → Session}
  {candidate : Option Triple} {done : α → β} {waiting givenUp : β}

/-- A translation only changes the session in ways that the records of the load do not show. -/
theorem keeps_translation (tame : Translation.level.Tame context body) (session : Session) :
    level.keeps session (body context session).2 ∧
      level.keeps session ((body context session).2.rollback session.checkpoint) := by
  obtain ⟨_, reports, passes⟩ := tame.keeps session
  exact ⟨⟨Nat.le_of_eq (by rw [reports]), Nat.le_of_eq passes.symm⟩,
    ⟨Nat.le_of_eq (by rw [← reports]; rfl), Nat.le_of_eq passes.symm⟩⟩

theorem tame_conclude (tame : Translation.level.Tame context body)
    (succeeding : ∀ value, level.Tame context (succeed (keep value) (done value)))
    (failing : ∀ problem, level.Tame context (giveUp drop problem candidate givenUp)) :
    level.Tame context (conclude body keep drop candidate done waiting givenUp) := by
  refine ⟨fun session => ?_, fun _ _ _ _ => id⟩
  obtain ⟨plain, rolled⟩ := keeps_translation tame session
  rw [conclude]
  split
  · exact level.trans plain ((succeeding _).keeps _)
  · exact rolled
  · exact level.trans rolled ((failing _).keeps _)

theorem near_conclude (inStep : Translation.InStep context repairs body) (kept : ∀ value, Session.Quiet (keep value))
    (dropped : Session.Quiet drop) :
    NearStep context (fun outcome => outcome.1 = .ok waiting ∧ repairs ∧ context.forced = false)
      (conclude body keep drop candidate done waiting givenUp) := by
  have succeeding (value : α) : InStep context (succeed (keep value) (done value)) := inStep_succeed (kept value) _
  have failing (problem : Problem) : InStep context (giveUp drop problem candidate givenUp) :=
    inStep_giveUp dropped problem candidate givenUp
  refine ⟨tame_conclude inStep.strict_tame (fun value => (succeeding value).strict_tame) fun problem =>
      (failing problem).strict_tame,
    tame_conclude inStep.lax_tame (fun value => (succeeding value).lax_tame) fun problem => (failing problem).lax_tame,
    fun first second mode agrees => ?_⟩
  rw [conclude, conclude]
  have reports : (body context first).2.reports = first.reports := (inStep.strict_tame.keeps first).2.1
  obtain ⟨plain, rolled⟩ := keeps_translation inStep.lax_tame second
  rcases inStep.together first second mode agrees with same | ⟨possible, apart⟩
  · rw [same.result]
    have agree := same.sessions.rollback agrees
    rcases (body context first).1 with (iri | problem) | value
    · exact .inl ⟨rfl, agree, reports⟩
    · refine ((failing problem).together _ _ mode agree).imp (fun same => ?_) fun apart => ?_
      · exact ⟨same.result, same.sessions, same.reports.trans reports⟩
      · exact ⟨trivial, apart.2.refused, .inl ((apart.2.departs.resolve_right id).earlier rolled)⟩
    · refine ((succeeding value).together _ _ mode same.sessions).imp (fun later => ?_) fun apart => ?_
      · exact ⟨later.result, later.sessions, later.reports.trans reports⟩
      · exact ⟨trivial, apart.2.refused, .inl ((apart.2.departs.resolve_right id).earlier plain)⟩
  · obtain ⟨_, run, problem, rfl⟩ := apart.refused
    rw [run]
    refine .inr ⟨trivial, giveUp_strict problem candidate givenUp mode _, ?_⟩
    cases ended : (body context.lax second).1 with
    | ok value =>
      have noted : second.pending.size < (body context.lax second).2.pending.size :=
        (apart.departs.resolve_right id).resolve_left fun ⟨_, other, _⟩ => nomatch ended.symm.trans other
      exact .inl ((departs_succeed (kept value) _ (Nat.zero_lt_of_lt noted)).earlier plain)
    | error halt =>
      cases halt with
      | deferred iri =>
        exact .inr ⟨rfl, possible, Bool.eq_false_iff.mpr fun forced =>
          inStep.lax_tame.settles forced second _ ended ⟨iri, rfl⟩⟩
      | failed problem => exact .inl ((departs_giveUp dropped problem candidate givenUp _).earlier rolled)

theorem inStep_attempt (inStep : Translation.InStep context repairs body) (settled : repairs → context.forced = true) :
    InStep context (attempt body) := by
  rw [attempt_eq]
  refine (near_conclude inStep (fun _ => .id) .id).imp fun outcome ⟨_, possible, unforced⟩ => ?_
  rw [settled possible] at unforced
  cases unforced

theorem near_translateCandidate (row : Row) : NearStep context
    (fun outcome => outcome.1 = .ok false ∧ context.forced = false) (translateCandidate row) := by
  rw [translateCandidate_eq]
  exact (near_conclude (Translation.inStep_statement row.triple)
    (fun fact => (Session.quiet_commit row.id fact).comp (Session.quiet_consume row.id))
    (Session.quiet_discard row)).imp fun _ ⟨put, _, unforced⟩ => ⟨put, unforced⟩

end Attempts

section Passes

/-- Whether a candidate has to wait for the next pass. One that is used already does not. -/
def postpones (row : Row) : Load Bool := do
  if (← get).store.isConsumed row.id then return false
  return !(← translateCandidate row)

private theorem filterAuxM_append {m : Type → Type} [Monad m] [LawfulMonad m] (test : α → m Bool) (items : List α) :
    ∀ found, items.filterAuxM test found = items.filterAuxM test [] >>= fun rest => pure (rest ++ found) := by
  induction items with
  | nil => exact fun found => by simp only [List.filterAuxM, pure_bind, List.nil_append]
  | cons item items ih =>
    intro found
    simp only [List.filterAuxM, bind_assoc]
    refine bind_congr fun keep => ?_
    rw [ih (bif keep then item :: found else found), ih (bif keep then [item] else [])]
    cases keep <;> simp

theorem runPass_cons (row : Row) (work : List Row) : runPass (row :: work) = do
    let waits ← postpones row
    let others ← runPass work
    return if waits then row :: others else others := by
  have aux := filterAuxM_append postpones work
  change (List.filterAuxM postpones (row :: work) [] >>= fun found => pure found.reverse) = _
  have pass : runPass work = List.filterAuxM postpones work [] >>= fun found => pure found.reverse := rfl
  rw [pass]
  simp only [List.filterAuxM, bind_assoc]
  refine bind_congr fun waits => ?_
  rw [aux]
  cases waits <;> simp

theorem near_postpones (row : Row) : NearStep context
    (fun outcome => outcome.1 = .ok true ∧ context.forced = false) (postpones row) := by
  refine .look (fun _ _ _ => rfl) fun session => .ite (.pure false) ?_
  refine (near_translateCandidate row).after (fun _ => .pure _) fun session ⟨put, unforced⟩ => .inr ⟨?_, unforced⟩
  rw [Run.bind_ok put]
  rfl

theorem near_runPass (work : List Row) : NearStep context
    (fun outcome => (∃ rows, rows ≠ [] ∧ outcome.1 = .ok rows) ∧ context.forced = false) (runPass work) := by
  induction work with
  | nil => exact .pure []
  | cons row rest ih => 
    rw [runPass_cons]
    refine (near_postpones row).after (fun waits => ih.after (fun _ => .pure _) ?_) ?_
    · rintro session ⟨⟨rows, some, run⟩, unforced⟩
      rw [Run.bind_ok run]
      refine .inr ⟨⟨_, ?_, rfl⟩, unforced⟩
      split
      · exact List.cons_ne_nil row rows
      · exact some
    · rintro session ⟨put, unforced⟩
      rw [Run.bind_ok put]
      cases run : (runPass rest context.lax (postpones row context.lax session).2).1 with
      | ok rows =>
        rw [Run.bind_ok run]
        exact .inr ⟨⟨row :: rows, List.cons_ne_nil row rows, rfl⟩, unforced⟩
      | error error =>
        rw [Run.bind_error run]
        exact .inl (.inl ⟨error, rfl, trivial⟩)

theorem inStep_checkCancelled : InStep context checkCancelled := by
  refine .read (.ite (.look (fun _ _ _ => rfl) fun session => .raise _ fun _ => id) (.pure ()))

theorem inStep_beginPass : InStep context beginPass :=
  inStep_checkCancelled.bind fun _ => .change (fun _ => ⟨Nat.le_refl _, Nat.le_succ _⟩)
    (fun _ _ ⟨kinds, same, known⟩ => ⟨kinds, by rw [same], known⟩) fun _ => rfl

theorem beginPass_eq (context : Context) (session : Session) :
    beginPass context session = if context.config.cancelled then (.error (.cancelled session.passes), session)
      else (.ok (), { session with passes := session.passes + 1 }) := by
  change ((if context.config.cancelled then _ else _ : Load Unit) >>= _) context session = _
  split <;> rfl

/-- Every pass after the first shows. -/
theorem departs_beginPass {session : Session} (begun : 0 < session.passes) (before : Session) :
    level.Departs before (beginPass context.lax session) := by
  rw [beginPass_eq]
  split
  · exact .inl ⟨_, rfl, trivial⟩
  · exact .inr (.inr (Nat.succ_lt_succ begun))

theorem inStep_withDefaults {body : Load α} (inStep : InStep { context with forced := true } body) :
    InStep context (withDefaults body) :=
  ⟨⟨inStep.strict_tame.keeps, fun _ _ _ _ => id⟩, ⟨inStep.lax_tame.keeps, fun _ _ _ _ => id⟩, inStep.together⟩

/-- One pass over the candidates. -/
def pass (work : List Row) : Load (List Row) := do
  beginPass
  modify fun session => { session with kindsChanged := false }
  runPass work

/-- What is done about the candidates that a pass left waiting. -/
def afterPass (remaining : Nat) (work waiting : List Row) : Load (List Row) := do
  if waiting.length = work.length ∧ !(← get).kindsChanged then return waiting
  makePasses remaining waiting

theorem makePasses_succ (remaining : Nat) (work : List Row) : makePasses (remaining + 1) work =
    if work.isEmpty then pure [] else pass work >>= afterPass remaining work := by
  rw [makePasses, pass]
  simp only [bind_assoc]
  rfl

theorem afterPass_eq (remaining : Nat) (work waiting : List Row) (context : Context) (session : Session) :
    afterPass remaining work waiting context session =
      if waiting.length = work.length ∧ !session.kindsChanged then (.ok waiting, session)
      else makePasses remaining waiting context session := by
  change (if _ then _ else _ : Load (List Row)) context session = _
  split <;> rfl

section Uncancelled

variable {session : Session} (uncancelled : context.config.cancelled = false)
include uncancelled

/-- The next pass begins. -/
theorem beginPass_ok : beginPass context session = (.ok (), { session with passes := session.passes + 1 }) := by
  rw [beginPass_eq, uncancelled]
  rfl

theorem pass_eq (work : List Row) : pass work context session =
    runPass work context { session with passes := session.passes + 1, kindsChanged := false } := by
  rw [pass, Run.bind_run (beginPass_ok uncancelled)]
  rfl

theorem settle_eq {work : List Row} (nonempty : work ≠ []) : settle work context session =
    (runPass work >>= fun waiting => waiting.forM fun row => report (.unsettled row.triple) none : Load Unit) context
      { session with passes := session.passes + 1 } := by
  rw [settle, if_neg (mt List.isEmpty_iff.mp nonempty), Run.bind_run (beginPass_ok uncancelled)]

end Uncancelled

theorem inStep_anew : InStep context (modify fun session => { session with kindsChanged := false }) :=
  .alter ⟨fun _ => rfl, fun _ => rfl, fun _ => rfl, fun _ _ ⟨kinds, same, known⟩ => ⟨kinds, by rw [same], known⟩⟩

theorem tame_candidates (work : List Row) : level.Tame context.lax (do
    modify fun session => { session with kindsChanged := false }
    runPass work) :=
  (inStep_anew : InStep context _).lax_tame.bind fun _ => (near_runPass work : NearStep context _ _).lax_tame

/-- A pass that ends has been counted. -/
theorem passes_of_pass {session : Session} {work rows : List Row} (run : (pass work context.lax session).1 = .ok rows) :
    0 < (pass work context.lax session).2.passes := by
  cases begun : (beginPass context.lax session).1 with
  | error error =>
    rw [pass, Run.bind_error begun] at run
    cases run
  | ok =>
    have counted : (beginPass context.lax session).2.passes = session.passes + 1 := by
      rw [beginPass_eq] at begun ⊢
      split at begun
      · cases begun
      · rw [if_neg ‹_›]
    rw [pass, Run.bind_ok begun]
    have tame : level.Tame context.lax _ := tame_candidates work
    exact Nat.lt_of_lt_of_le (counted ▸ Nat.succ_pos _) (tame.keeps (beginPass context.lax session).2).2

theorem near_pass (work : List Row) : NearStep context
    (fun outcome => (∃ rows, rows ≠ [] ∧ outcome.1 = .ok rows) ∧ 0 < outcome.2.passes) (pass work) := by
  have near : NearStep context _ (pass work) := inStep_beginPass.bind fun _ => inStep_anew.bind fun _ => near_runPass work
  exact near.imp fun session ⟨waiting, _⟩ =>
    ⟨waiting, waiting.elim fun rows run => passes_of_pass run.2⟩

theorem tame_afterPass {remaining : Nat} (tame : ∀ work, level.Tame context (makePasses remaining work))
    (work waiting : List Row) : level.Tame context (afterPass remaining work waiting) := by
  refine ⟨fun session => ?_, fun _ _ _ _ => id⟩
  rw [afterPass_eq]
  split
  · exact level.refl session
  · exact (tame waiting).keeps session

theorem tame_makePasses (remaining : Nat) : ∀ work, level.Tame context.lax (makePasses remaining work) := by
  induction remaining with
  | zero => exact fun work => .pure work
  | succ remaining ih =>
    intro work
    rw [makePasses_succ]
    split
    · exact .pure []
    · exact (near_pass work).lax_tame.bind fun waiting => tame_afterPass ih work waiting

/-- Candidates that wait after a pass go on to wait, or make for a second pass. -/
theorem remains_afterPass (remaining : Nat) (work : List Row) {rows : List Row} {session : Session} (waiting : rows ≠ [])
    (begun : 0 < session.passes) (before : Session) :
    level.Departs before (afterPass remaining work rows context.lax session) ∨
      (∃ rest, rest ≠ [] ∧ (afterPass remaining work rows context.lax session).1 = .ok rest) ∧
        0 < (afterPass remaining work rows context.lax session).2.passes := by
  rw [afterPass_eq]
  split
  · exact .inr ⟨⟨rows, waiting, rfl⟩, begun⟩
  · cases remaining with
    | zero => exact .inr ⟨⟨rows, waiting, rfl⟩, begun⟩
    | succ remaining =>
      rw [makePasses_succ, if_neg (fun empty => waiting (List.isEmpty_iff.mp empty))]
      have again : level.Departs before (pass rows context.lax session) :=
        (departs_beginPass begun before).bind fun _ => tame_candidates rows
      exact .inl (again.bind fun rest => tame_afterPass (tame_makePasses remaining) rows rest)

theorem near_makePasses (remaining : Nat) : ∀ work, NearStep context
    (fun outcome => (∃ rows, rows ≠ [] ∧ outcome.1 = .ok rows) ∧ 0 < outcome.2.passes) (makePasses remaining work) := by
  induction remaining with
  | zero => exact fun work => .pure work
  | succ remaining ih =>
    intro work
    rw [makePasses_succ]
    refine .ite (.pure []) ((near_pass work).after (fun waiting => .look (fun _ _ _ => rfl) fun session =>
      .ite (.pure waiting) (ih waiting)) ?_)
    rintro session ⟨⟨rows, nonempty, run⟩, begun⟩
    rw [Run.bind_ok run]
    exact remains_afterPass remaining work nonempty begun session

theorem inStep_remaining (work : List Row) (forced : context.forced = true) : InStep context (do
    (← runPass work).forM fun row => report (.unsettled row.triple) none) := by
  have pass : InStep context (runPass work) :=
    (near_runPass work).imp fun _ ⟨_, unforced⟩ => nomatch forced.symm.trans unforced
  exact pass.bind fun rows => .forM (fun row => inStep_report _ none) rows

theorem inStep_settle (work : List Row) (forced : context.forced = true) : InStep context (settle work) :=
  .ite (.pure ()) (inStep_beginPass.bind fun _ => inStep_remaining work forced)

theorem inStep_translateAxioms : InStep context translateAxioms := by
  refine .look (fun _ _ _ => rfl) fun session => .read ((near_makePasses _ _).after (fun waiting =>
    inStep_withDefaults (inStep_settle waiting rfl)) ?_)
  rintro session ⟨⟨rows, nonempty, run⟩, begun⟩
  rw [Run.bind_ok run, withDefaults, settle, if_neg (fun empty => nonempty (List.isEmpty_iff.mp empty))]
  have rest : InStep { context with forced := true } _ := inStep_remaining rows rfl
  exact .inl ((departs_beginPass begun session).bind fun _ => rest.lax_tame)

end Passes

section Whole

theorem inStep_readHeaderTriple (id : OntologyId × Bool) (row : Row) : InStep context (readHeaderTriple id row) := by
  have used : InStep context (modify (·.consume row.id)) := .alter (Session.quiet_consume row.id)
  unfold readHeaderTriple
  refine .ite (used.bind fun _ => .pure id) ?_
  split
  · exact .pure id
  · refine .ite (.ite ((inStep_report _ none).bind fun _ => used.bind fun _ => .pure _) (used.bind fun _ => .pure _))
      (.ite (Level.Lockstep.bind (.alter ?_) fun _ => .pure id) (.pure id))
    exact ⟨fun _ => rfl, fun _ => rfl, fun _ => rfl, fun _ _ ⟨kinds, same, known⟩ => ⟨kinds, by rw [same]; rfl, known⟩⟩

theorem inStep_readHeader : InStep context readHeader := by
  refine .look (fun _ _ _ => rfl) fun session => ?_
  dsimp only
  split
  · refine Level.Lockstep.bind (.forM (fun other => inStep_report _ none) _) fun _ =>
      (Level.Lockstep.foldlM inStep_readHeaderTriple _ _).bind fun _ => .alter ?_
    exact ⟨fun _ => rfl, fun _ => rfl, fun _ => rfl, fun _ _ ⟨kinds, same, known⟩ => ⟨kinds, by rw [same], known⟩⟩
  · exact .pure ()

theorem inStep_readHeaderAnnotations : InStep context readHeaderAnnotations := by
  refine .look (fun _ _ _ => rfl) fun session => ?_
  split
  · refine (inStep_attempt (Translation.inStep_annotationsOn _) False.elim).bind fun notes => ?_
    exact .alter ⟨fun _ => rfl, fun _ => rfl, fun _ => rfl, fun _ _ ⟨kinds, same, known⟩ => ⟨kinds, by rw [same], known⟩⟩
  · exact .pure ()

theorem inStep_readAxiomNode (node : Node) (forced : context.forced = true) : InStep context (readAxiomNode node) := by
  refine .look (fun _ _ _ => rfl) fun session => .ite ?_ (.pure ())
  refine (inStep_attempt (Translation.inStep_mergeAnnotations node) fun _ => forced).bind fun merged => .ite ?_ (.pure ())
  exact .alter ⟨fun _ => rfl, fun _ => rfl, fun _ => rfl, fun _ _ ⟨kinds, same, known⟩ => ⟨kinds, by rw [same]; rfl, known⟩⟩

theorem inStep_readAxiomAnnotations (forced : context.forced = true) : InStep context readAxiomAnnotations :=
  .look (fun _ _ _ => rfl) fun _ => .forM (fun node => inStep_readAxiomNode node forced) _

theorem inStep_reportUnparsed (row : Row) : InStep context (reportUnparsed row) := by
  refine (Level.Lockstep.alter (Session.quiet_consume row.id)).bind fun _ =>
    .look (fun _ _ known => by rw [Session.isNoise_agrees known]) fun session => ?_
  exact .ite (.pure ()) (inStep_report _ none)

/-- What a load does once the entities are declared. -/
def afterDeclarations : Load Unit := do
  readHeaderAnnotations
  translateAxioms
  withDefaults readAxiomAnnotations
  (← get).store.unconsumed.forM reportUnparsed

theorem translate_eq (context : Context) : translate context =
    (readHeader >>= fun _ => modify (·.readDeclarations context.config.strict) >>= fun _ => afterDeclarations)
      context := rfl

theorem inStep_afterDeclarations : InStep context afterDeclarations :=
  inStep_readHeaderAnnotations.bind fun _ => inStep_translateAxioms.bind fun _ =>
    (inStep_withDefaults (inStep_readAxiomAnnotations rfl)).bind fun _ =>
      .look (fun _ _ _ => rfl) fun _ => .forM inStep_reportUnparsed _

end Whole

end Load

end OwlGraph
