import OwlGraph.Translation.Load

/-! Strict and lax runs side by side. A strict run stops at the first problem, where a lax run
of the same computation notes it and goes on. Up to that point they do the same: they have the
same result, and their sessions differ at most in how the known kinds are stored. The rules
below carry this along the sequencing of computations, on the level of translations and on that
of loads; only what counts as a problem differs between the levels. -/

namespace OwlGraph

/-- The same options, but for a lax load. -/
def Config.lax (config : Config) : Config := { config with strict := false }

def Context.lax (context : Context) : Context := { context with config := context.config.lax }

/-- The sessions are the same, and the same kinds are known in them. -/
def Session.Agrees (first second : Session) : Prop :=
  ∃ kinds, second = { first with kinds } ∧ ∀ entity, kinds.contains entity = first.kinds.contains entity

theorem Session.Agrees.refl (session : Session) : session.Agrees session := ⟨_, rfl, fun _ => rfl⟩

/-- A change that does not touch the records of problems, and makes no difference between
sessions that agree. -/
structure Session.Quiet (change : Session → Session) : Prop where
  pending : ∀ session, (change session).pending = session.pending
  reports : ∀ session, (change session).reports = session.reports
  passes : ∀ session, (change session).passes = session.passes
  agrees : ∀ first second : Session, first.Agrees second → (change first).Agrees (change second)

/-- A computation over sessions. -/
abbrev Run (ε α : Type) := ReaderT Context (ExceptT ε (StateM Session)) α

/-- What counts as a problem of computations with these errors. -/
structure Level (ε : Type) where
  /-- The errors by which a strict run refuses its input. -/
  refusal : ε → Prop
  /-- The errors after which a lax run has a problem to show. -/
  failure : ε → Prop
  /-- The errors that a run with defaults for unknown kinds never ends with. -/
  waiting : ε → Prop
  /-- What every run does to the records of problems. -/
  keeps : Session → Session → Prop
  /-- Whether a problem was recorded on the way from one session to the other. -/
  notes : Session → Session → Prop
  quiet : ∀ {first second : Session}, second.pending = first.pending → second.reports = first.reports →
    second.passes = first.passes → keeps first second
  trans : ∀ {first second third}, keeps first second → keeps second third → keeps first third
  notes_of_keeps : ∀ {first second third}, keeps first second → notes second third → notes first third
  notes_keeps : ∀ {first second third}, notes first second → keeps second third → notes first third

namespace Level

variable {ε α β : Type} (level : Level ε)

theorem refl (session : Session) : level.keeps session session := level.quiet rfl rfl rfl

/-- Every run of the computation in the context keeps the records of problems, and waits for
nothing if there are defaults. -/
structure Tame (context : Context) (body : Run ε α) : Prop where
  keeps : ∀ session, level.keeps session (body context session).2
  settles : context.forced = true → ∀ session error, (body context session).1 = .error error → ¬ level.waiting error

/-- The run has a problem to show. -/
def Departs (before : Session) (outcome : Except ε α × Session) : Prop :=
  (∃ error, outcome.1 = .error error ∧ level.failure error) ∨ level.notes before outcome.2

/-- The runs have the same result, and nothing was reported. -/
structure Same (before : Session) (first second : Except ε α × Session) : Prop where
  result : second.1 = first.1
  sessions : first.2.Agrees second.2
  reports : first.2.reports = before.reports

/-- The strict run refuses its input, and the lax run has a problem to show or puts it off. -/
structure Apart (postponed : Except ε α × Session → Prop) (before : Session) (strict lax : Except ε α × Session) :
    Prop where
  refused : ∃ error, strict.1 = .error error ∧ level.refusal error
  departs : level.Departs before lax ∨ postponed lax

/-- A strict run of the one computation and a lax run of the other do the same in sessions that
agree, or, if repairs are possible, they part over a problem. -/
structure Lockstep (context : Context) (repairs : Prop) (postponed : Except ε α × Session → Prop)
    (strict lax : Run ε α) : Prop where
  strict_tame : level.Tame context strict
  lax_tame : level.Tame context.lax lax
  together : ∀ first second, context.config.strict = true → first.Agrees second →
    Same first (strict context first) (lax context.lax second) ∨
      repairs ∧ level.Apart postponed second (strict context first) (lax context.lax second)

/-- In step, and no problem is ever put off. -/
abbrev InStep (context : Context) (repairs : Prop) (body : Run ε α) : Prop :=
  level.Lockstep context repairs (fun _ => False) body body

end Level

namespace Run

variable {ε α β : Type}

theorem bind_eq (body : Run ε α) (next : α → Run ε β) (context : Context) (session : Session) :
    (body >>= next) context session =
      match (body context session).1 with
      | .ok value => next value context (body context session).2
      | .error error => (.error error, (body context session).2) := by
  change (ExceptT.bindCont (fun a => next a context) (body context session).1) (body context session).2 = _
  cases (body context session).1 <;> rfl

theorem get_bind (next : Session → Run ε α) (context : Context) (session : Session) :
    (MonadState.get >>= next) context session = next session context session := rfl

theorem bind_ok {body : Run ε α} {context : Context} {session : Session} {value : α}
    (run : (body context session).1 = .ok value) (next : α → Run ε β) :
    (body >>= next) context session = next value context (body context session).2 := by
  rw [bind_eq, run]

theorem bind_run {body : Run ε α} {context : Context} {session after : Session} {value : α}
    (run : body context session = (.ok value, after)) (next : α → Run ε β) :
    (body >>= next) context session = next value context after := by
  rw [bind_eq, run]

theorem bind_error {body : Run ε α} {context : Context} {session : Session} {error : ε}
    (run : (body context session).1 = .error error) (next : α → Run ε β) :
    (body >>= next) context session = (.error error, (body context session).2) := by
  rw [bind_eq, run]

/-- What a sequence gives is given by its second part, started where the first ended. -/
theorem exists_of_bind {body : Run ε α} {next : α → Run ε β} {context : Context} {session after : Session} {value : β}
    (run : (body >>= next) context session = (.ok value, after)) :
    ∃ found middle, body context session = (.ok found, middle) ∧ next found context middle = (.ok value, after) := by
  rw [bind_eq] at run
  split at run
  · rename_i found ended
    exact ⟨found, _, Prod.ext ended rfl, run⟩
  · cases run

/-- Putting the session in order after an error. -/
theorem cleanup_eq (body : Run ε α) (change : Session → Session) (context : Context) (session : Session) :
    (tryCatch body fun error => do
      modify change
      throw error) context session =
    match (body context session).1 with
    | .ok value => (.ok value, (body context session).2)
    | .error error => (.error error, change (body context session).2) := by
  change (match (body context session).1 with
    | .ok value => Pure.pure (.ok value)
    | .error error => _ : StateM Session (Except ε α)) (body context session).2 = _
  cases (body context session).1 <;> rfl

end Run

namespace Level

section Rules

variable {ε α β : Type} {level : Level ε} {context : Context} {repairs : Prop}
  {postponed other : Except ε α × Session → Prop}

theorem Tame.pure (value : α) : level.Tame context (pure value) :=
  ⟨level.refl, fun _ _ _ ended => nomatch ended⟩

theorem Tame.bind {body : Run ε α} {next : α → Run ε β} (tame : level.Tame context body)
    (rest : ∀ value, level.Tame context (next value)) : level.Tame context (body >>= next) := by
  constructor
  · intro session
    cases run : (body context session).1 with
    | ok value =>
      rw [Run.bind_ok run]
      exact level.trans (tame.keeps session) ((rest value).keeps _)
    | error error =>
      rw [Run.bind_error run]
      exact tame.keeps session
  · intro forced session error
    cases run : (body context session).1 with
    | ok value =>
      rw [Run.bind_ok run]
      exact (rest value).settles forced _ error
    | error halt =>
      rw [Run.bind_error run]
      intro same
      injection same with same
      exact same ▸ tame.settles forced session halt run

theorem Departs.earlier {before middle : Session} {outcome : Except ε α × Session}
    (kept : level.keeps before middle) (departs : level.Departs middle outcome) : level.Departs before outcome :=
  departs.imp id (level.notes_of_keeps kept)

/-- A problem on record stays on record. -/
theorem Departs.bind {body : Run ε α} {next : α → Run ε β} {before session : Session}
    (departs : level.Departs before (body context session)) (rest : ∀ value, level.Tame context (next value)) :
    level.Departs before ((body >>= next) context session) := by
  cases run : (body context session).1 with
  | ok value =>
    rw [Run.bind_ok run]
    rcases departs with ⟨error, ended, _⟩ | noted
    · rw [run] at ended
      cases ended
    · exact .inr (level.notes_keeps noted ((rest value).keeps _))
  | error error =>
    rw [Run.bind_error run]
    exact departs.imp (fun ⟨other, ended, fails⟩ => ⟨error, rfl, by rw [run] at ended; cases ended; exact fails⟩) id

theorem Lockstep.imp {strict lax : Run ε α} (lockstep : level.Lockstep context repairs postponed strict lax)
    (implies : ∀ session, postponed (lax context.lax session) → other (lax context.lax session)) :
    level.Lockstep context repairs other strict lax :=
  ⟨lockstep.strict_tame, lockstep.lax_tame, fun first second mode agrees =>
    (lockstep.together first second mode agrees).imp id fun ⟨possible, apart⟩ =>
      ⟨possible, apart.refused, apart.departs.imp id (implies _)⟩⟩

theorem Lockstep.pure (value : α) : level.Lockstep context repairs postponed (pure value) (pure value) :=
  ⟨.pure value, .pure value, fun _ _ _ agrees => .inl ⟨rfl, agrees, rfl⟩⟩

theorem Lockstep.raise (error : ε) (settled : context.forced = true → ¬ level.waiting error) :
    level.Lockstep context repairs postponed (throw error : Run ε α) (throw error) := by
  refine ⟨⟨level.refl, fun forced _ _ same => ?_⟩, ⟨level.refl, fun forced _ _ same => ?_⟩,
    fun _ _ _ agrees => .inl ⟨rfl, agrees, rfl⟩⟩
  all_goals
    injection same with same
    exact same ▸ settled forced

/-- What is put off first may be put off still after what follows, or show in it. -/
theorem Lockstep.after {strict lax : Run ε α} {next last : α → Run ε β} {rest : Except ε β × Session → Prop}
    (lockstep : level.Lockstep context repairs postponed strict lax)
    (follows : ∀ value, level.Lockstep context repairs rest (next value) (last value))
    (remains : ∀ session, postponed (lax context.lax session) →
      level.Departs session ((lax >>= last) context.lax session) ∨ rest ((lax >>= last) context.lax session)) :
    level.Lockstep context repairs rest (strict >>= next) (lax >>= last) := by
  have tame := fun value => (follows value).lax_tame
  refine ⟨lockstep.strict_tame.bind fun value => (follows value).strict_tame, lockstep.lax_tame.bind tame,
    fun first second mode agrees => ?_⟩
  rcases lockstep.together first second mode agrees with same | ⟨possible, apart⟩
  · cases run : (strict context first).1 with
    | ok value =>
      rw [Run.bind_ok run, Run.bind_ok (same.result.trans run)]
      refine ((follows value).together _ _ mode same.sessions).imp (fun later => ?_) fun ⟨possible, later⟩ => ?_
      · exact ⟨later.result, later.sessions, later.reports.trans same.reports⟩
      · exact ⟨possible, later.refused,
          later.departs.imp (fun departs => departs.earlier (lockstep.lax_tame.keeps second)) id⟩
    | error error =>
      rw [Run.bind_error run, Run.bind_error (same.result.trans run)]
      exact .inl ⟨rfl, same.sessions, same.reports⟩
  · obtain ⟨error, run, refused⟩ := apart.refused
    rw [Run.bind_error run]
    exact .inr ⟨possible, ⟨error, rfl, refused⟩,
      apart.departs.elim (fun departs => .inl (departs.bind tame)) (remains second)⟩

theorem Lockstep.bind {strict lax : Run ε α} {next last : α → Run ε β} {rest : Except ε β × Session → Prop}
    (lockstep : level.Lockstep context repairs (fun _ => False) strict lax)
    (follows : ∀ value, level.Lockstep context repairs rest (next value) (last value)) :
    level.Lockstep context repairs rest (strict >>= next) (lax >>= last) :=
  lockstep.after follows fun _ => False.elim

/-- Looking at the session tells the same in both runs if it does not depend on how the known
kinds are stored. -/
theorem Lockstep.look {next : Session → Run ε α}
    (blind : ∀ (session : Session) (kinds : Std.HashSet Entity),
      (∀ entity, kinds.contains entity = session.kinds.contains entity) → next { session with kinds } = next session)
    (rest : ∀ session, level.Lockstep context repairs postponed (next session) (next session)) :
    level.Lockstep context repairs postponed (MonadState.get >>= next) (MonadState.get >>= next) := by
  refine ⟨⟨fun session => (rest session).strict_tame.keeps session,
      fun forced session => (rest session).strict_tame.settles forced session⟩,
    ⟨fun session => (rest session).lax_tame.keeps session,
      fun forced session => (rest session).lax_tame.settles forced session⟩, ?_⟩
  rintro session _ mode ⟨kinds, rfl, known⟩
  have same : (MonadState.get >>= next) context.lax { session with kinds } = next session context.lax { session with kinds } :=
    congrFun (congrFun (blind session kinds known) context.lax) _
  rw [same]
  exact (rest session).together session _ mode ⟨kinds, rfl, known⟩

theorem Lockstep.read {next after : Context → Run ε α}
    (rest : level.Lockstep context repairs postponed (next context) (after context.lax)) :
    level.Lockstep context repairs postponed (MonadReader.read >>= next) (MonadReader.read >>= after) :=
  ⟨⟨rest.strict_tame.keeps, rest.strict_tame.settles⟩, ⟨rest.lax_tame.keeps, rest.lax_tame.settles⟩, rest.together⟩

theorem Lockstep.change {change : Session → Session} (kept : ∀ session, level.keeps session (change session))
    (agrees : ∀ first second, first.Agrees second → (change first).Agrees (change second))
    (reports : ∀ session, (change session).reports = session.reports) :
    level.InStep context repairs (modify change : Run ε Unit) :=
  ⟨⟨kept, fun _ _ _ ended => nomatch ended⟩, ⟨kept, fun _ _ _ ended => nomatch ended⟩,
    fun first second _ same => .inl ⟨rfl, agrees first second same, reports first⟩⟩

theorem Lockstep.alter {change : Session → Session} (quiet : Session.Quiet change) :
    level.InStep context repairs (modify change : Run ε Unit) :=
  .change (fun session => level.quiet (quiet.pending session) (quiet.reports session) (quiet.passes session))
    quiet.agrees quiet.reports

/-- Where the modes differ: a strict run ends with an error and a lax one records a problem. -/
theorem Lockstep.part {body : Run ε Unit} (error : Context → ε) (change : Context → Session → Session)
    (strict : ∀ context session, context.config.strict = true → body context session = (.error (error context), session))
    (lax : ∀ context session, context.config.strict = false → body context session = (.ok (), change context session))
    (refused : ∀ context, level.refusal (error context)) (settled : ∀ context, ¬ level.waiting (error context))
    (kept : ∀ context session, level.keeps session (change context session))
    (noted : ∀ context session, level.notes session (change context session)) :
    level.InStep context True body := by
  have tame (context : Context) : level.Tame context body := by
    cases mode : context.config.strict with
    | true =>
      refine ⟨fun session => ?_, fun _ session halt ended => ?_⟩
      · rw [strict context session mode]
        exact level.refl session
      · rw [strict context session mode] at ended
        cases ended
        exact settled context
    | false =>
      refine ⟨fun session => ?_, fun _ session halt ended => ?_⟩
      · rw [lax context session mode]
        exact kept context session
      · rw [lax context session mode] at ended
        cases ended
  refine ⟨tame context, tame context.lax, fun first second mode _ => .inr ⟨trivial, ?_⟩⟩
  rw [strict context first mode, lax context.lax second rfl]
  exact ⟨⟨_, rfl, refused context⟩, .inl (.inr (noted context.lax second))⟩

/-- Putting the session in order after an error, which stays the same. -/
theorem Lockstep.cleanup {body : Run ε α} {change : Session → Session}
    (inStep : level.InStep context repairs body) (quiet : Session.Quiet change) :
    level.InStep context repairs (tryCatch body fun error => do
      modify change
      throw error) := by
  have kept (session : Session) : level.keeps session (change session) :=
    level.quiet (quiet.pending session) (quiet.reports session) (quiet.passes session)
  have tame {context : Context} {body : Run ε α} (tame : level.Tame context body) : level.Tame context
      (tryCatch body fun error => do
        modify change
        throw error) := by
    refine ⟨fun session => ?_, fun forced session error ended => ?_⟩
    · rw [Run.cleanup_eq]
      split
      · exact tame.keeps session
      · exact level.trans (tame.keeps session) (kept _)
    · rw [Run.cleanup_eq] at ended
      split at ended
      · cases ended
      · rename_i halt run
        cases ended
        exact tame.settles forced session _ run
  refine ⟨tame inStep.strict_tame, tame inStep.lax_tame, fun first second mode same => ?_⟩
  rw [Run.cleanup_eq, Run.cleanup_eq]
  rcases inStep.together first second mode same with same | ⟨possible, apart⟩
  · rw [same.result]
    split
    · exact .inl ⟨rfl, same.sessions, same.reports⟩
    · exact .inl ⟨rfl, quiet.agrees _ _ same.sessions, (quiet.reports _).trans same.reports⟩
  · obtain ⟨error, run, refused⟩ := apart.refused
    have departs := apart.departs.resolve_right id
    rw [run]
    refine .inr ⟨possible, ⟨error, rfl, refused⟩, ?_⟩
    split
    · rename_i ended
      exact .inl (.inr (departs.resolve_left fun ⟨_, other, _⟩ => nomatch ended.symm.trans other))
    · rename_i ended
      refine .inl (departs.imp (fun ⟨_, other, fails⟩ => ⟨_, rfl, ?_⟩) fun noted => level.notes_keeps noted (kept _))
      rw [ended] at other
      cases other
      exact fails

theorem Lockstep.ite {test : Prop} [Decidable test] {strict lax : Run ε α} {first second : Run ε α}
    (yes : level.Lockstep context repairs postponed strict lax) (no : level.Lockstep context repairs postponed first second) :
    level.Lockstep context repairs postponed (if test then strict else first) (if test then lax else second) := by
  split
  · exact yes
  · exact no

theorem Lockstep.mapM {read : α → Run ε β} (each : ∀ item, level.InStep context repairs (read item))
    (items : List α) : level.InStep context repairs (items.mapM read) := by
  induction items with
  | nil => exact .pure []
  | cons item rest ih =>
    rw [List.mapM_cons]
    exact (each item).bind fun value => ih.bind fun values => .pure _

theorem Lockstep.forM {act : α → Run ε Unit} (each : ∀ item, level.InStep context repairs (act item))
    (items : List α) : level.InStep context repairs (items.forM act) := by
  induction items with
  | nil => exact .pure ()
  | cons item rest ih => exact (each item).bind fun _ => ih

theorem Lockstep.foldlM {step : β → α → Run ε β}
    (each : ∀ value item, level.InStep context repairs (step value item)) (items : List α) :
    ∀ value, level.InStep context repairs (items.foldlM step value) := by
  induction items with
  | nil => exact fun value => .pure value
  | cons item rest ih => exact fun value => (each value item).bind ih

end Rules

end Level

end OwlGraph
