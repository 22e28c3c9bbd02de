import OwlGraph.Proofs.LoadSteps

/-! Lax loads. A load that is neither strict nor cancelled is never given up. What it reads of the
graph leaves the store in order, and between two of its steps no repair is pending. -/

namespace OwlGraph

namespace Load

variable {α β : Type} {context : Context}

/-- Started in a session of the one kind, the computation gives a value and leaves a session of the
other kind. -/
def Reaches (context : Context) (before : Session → Prop) (body : Load α) (after : α → Session → Prop) : Prop :=
  ∀ session, before session → ∃ value last, body context session = (.ok value, last) ∧ after value last

namespace Reaches

variable {before other : Session → Prop} {after last : α → Session → Prop}

theorem pure {value : α} (implies : ∀ session, before session → after value session) :
    Reaches context before (pure value) after := fun session holds => ⟨value, session, rfl, implies session holds⟩

theorem bind {body : Load α} {next : α → Load β} {after : α → Session → Prop} {last : β → Session → Prop}
    (first : Reaches context before body after) (rest : ∀ value, Reaches context (after value) (next value) last) :
    Reaches context before (body >>= next) last := by
  intro session holds
  obtain ⟨value, middle, run, reached⟩ := first session holds
  rw [Run.bind_run run]
  exact rest value middle reached

theorem weaken {body : Load α} (reaches : Reaches context other body last) (sooner : ∀ session, before session → other session)
    (later : ∀ value session, last value session → after value session) : Reaches context before body after := by
  intro session holds
  obtain ⟨value, middle, run, reached⟩ := reaches session (sooner session holds)
  exact ⟨value, middle, run, later value middle reached⟩

/-- What follows runs in the very session that was looked at. -/
theorem look {next : Session → Load α} (rest : ∀ session, before session →
    Reaches context (· = session) (next session) after) : Reaches context before (MonadState.get >>= next) after :=
  fun session holds => rest session holds session rfl

theorem get {next : Session → Load α} (rest : ∀ session, Reaches context before (next session) after) :
    Reaches context before (MonadState.get >>= next) after := fun session holds => rest session session holds

theorem read {next : Context → Load α} (rest : Reaches context before (next context) after) :
    Reaches context before (MonadReader.read >>= next) after := rest

theorem alter {change : Session → Session} {after : Unit → Session → Prop}
    (implies : ∀ session, before session → after () (change session)) : Reaches context before (modify change) after :=
  fun session holds => ⟨(), change session, rfl, implies session holds⟩

theorem ite {test : Prop} [Decidable test] {body other : Load α} (yes : test → Reaches context before body after)
    (no : ¬ test → Reaches context before other after) : Reaches context before (if test then body else other) after := by
  split
  · exact yes ‹_›
  · exact no ‹_›

theorem withDefaults {body : Load α} (reaches : Reaches { context with forced := true } before body after) :
    Reaches context before (Load.withDefaults body) after := reaches

theorem forM {act : α → Load Unit} {invariant : Session → Prop} (items : List α)
    (each : ∀ item ∈ items, Reaches context invariant (act item) fun _ => invariant) :
    Reaches context invariant (items.forM act) fun _ => invariant := by
  induction items with
  | nil => exact .pure fun _ => id
  | cons item rest ih =>
    exact (each item List.mem_cons_self).bind fun _ => ih fun other member => each other (List.mem_cons_of_mem _ member)

end Reaches

section Reports

variable (mode : context.config.strict = false)
include mode

theorem reaches_report (problem : Problem) (candidate : Option Triple) {before : Session → Prop} {after : Session → Prop}
    (implies : ∀ session reports, before session → (∀ report ∈ session.reports, report ∈ reports) →
      (∃ report ∈ reports, report.problem = problem ∧ report.candidate = candidate) → after { session with reports }) :
    Reaches context before (report problem candidate) fun _ => after := by
  intro session holds
  refine ⟨(), _, report_lax mode problem candidate session, implies session _ holds (fun report member => ?_) ⟨_, Array.mem_push_self, rfl, rfl⟩⟩
  exact Array.mem_push_of_mem _ member

/-- A lax load reports one problem after the other. -/
theorem reports_lax (problem : β → Problem) (items : List β) : ∀ session : Session, ∃ reports,
    (items.forM fun item => report (problem item) none : Load Unit) context session = (.ok (), { session with reports }) ∧
      (∀ report ∈ session.reports, report ∈ reports) ∧ ∀ item ∈ items, ∃ report ∈ reports, report.problem = problem item := by
  induction items with
  | nil => exact fun session => ⟨session.reports, rfl, fun _ => id, List.forall_mem_nil _⟩
  | cons item items ih =>
    intro session
    obtain ⟨reports, run, kept, told⟩ := ih { session with
      reports := session.reports.push ⟨problem item, (problem item).severity, none, context.config.detailed⟩ }
    refine ⟨reports, (Run.bind_run (report_lax mode (problem item) none session) _).trans run,
      fun report member => kept report (Array.mem_push_of_mem _ member), List.forall_mem_cons.mpr ⟨?_, told⟩⟩
    exact ⟨_, kept _ Array.mem_push_self, rfl⟩

/-- Flushing turns every pending repair into a report. -/
theorem flush_lax (session : Session) : ∃ reports, flush context session = (.ok (), { session with pending := #[], reports }) ∧
    (∀ report ∈ session.reports, report ∈ reports) ∧
      ∀ problem ∈ session.pending, ∃ report ∈ reports, report.problem = problem := by
  obtain ⟨reports, run, kept, told⟩ := reports_lax mode id session.pending.toList { session with pending := #[] }
  exact ⟨reports, run, kept, fun problem member => told problem (Array.mem_toList_iff.mpr member)⟩

/-- An attempt keeps what a reading, its rollback and a report keep. -/
theorem reaches_attempt {invariant : Session → Prop} {body : Translation α}
    (succeeds : ∀ session reports, invariant session → (∀ report ∈ (body context session).2.reports, report ∈ reports) →
      invariant { (body context session).2 with pending := #[], reports })
    (returns : ∀ session, invariant session → invariant ((body context session).2.rollback session.checkpoint))
    (reported : ∀ session reports, invariant session → (∀ report ∈ session.reports, report ∈ reports) →
      invariant { session with reports }) :
    Reaches context invariant (attempt body) fun _ => invariant := by
  intro session holds
  rw [attempt_eq, conclude]
  cases (body context session).1 with
  | ok value =>
    obtain ⟨reports, run, old, -⟩ := flush_lax mode (body context session).2
    refine ⟨some value, { (body context session).2 with pending := #[], reports }, ?_, succeeds session reports holds old⟩
    change (flush >>= fun _ => Pure.pure (some value) : Load (Option α)) context (body context session).2 = _
    rw [Run.bind_run run]
    rfl
  | error halt =>
    cases halt with
    | deferred iri => exact ⟨none, _, rfl, returns session holds⟩
    | failed problem =>
      have given : Reaches context invariant (report problem none) fun _ => invariant :=
        reaches_report mode problem none fun session reports holds old _ => reported session reports holds old
      obtain ⟨_, last, run, after⟩ := given _ (returns session holds)
      refine ⟨none, last, ?_, after⟩
      change (report problem none >>= fun _ => Pure.pure none : Load (Option α)) context _ = _
      rw [Run.bind_run run]
      rfl

end Reports

/-- A lax computation whose steps keep the session in order gives a value. -/
theorem Reaches.of_ends (mode : context.config.strict = false) {body : Load α} (ends : ∀ first passes, Ends context first passes body) :
    Reaches context Orderly body fun _ => Orderly := by
  intro session orderly
  obtain ⟨follows, refuses⟩ := ends session session.passes session (.refl orderly)
  cases run : (body context session).1 with
  | ok value => exact ⟨value, _, Prod.ext run rfl, follows.toOrderly⟩
  | error error =>
    obtain ⟨strict, -⟩ := refuses error run
    rw [mode] at strict
    cases strict

theorem orderly_prepare (mode : context.config.strict = false) : Reaches context Orderly prepare fun _ => Orderly :=
  .of_ends mode fun _ _ => ends_prepare

end Load

end OwlGraph
