import OwlGraph.Proofs.Lockstep

/-! What a computation over sessions gives if it gives anything: assertions about the value and the
session that are left to the case of success, and the rules by which they follow the sequencing of
computations. -/

namespace OwlGraph.Run

variable {ε α β : Type} {context : Context}

/-- If the computation gives a value when it is started in a session of the one kind, then value
and session are of the other kind. -/
def Yields (context : Context) (before : Session → Prop) (body : Run ε α) (after : α → Session → Prop) : Prop :=
  ∀ session value last, before session → body context session = (.ok value, last) → after value last

namespace Yields

variable {before other : Session → Prop} {after last : α → Session → Prop} {invariant : Session → Prop}

theorem pure {value : α} (implies : ∀ session, before session → after value session) :
    Yields context before (pure value : Run ε α) after := by
  rintro session _ _ holds ⟨⟩
  exact implies session holds

theorem raise (error : ε) : Yields context before (throw error : Run ε α) after := by
  intro session value final _ run
  cases show ((.error error, session) : Except ε α × Session) = (.ok value, final) from run

theorem bind {body : Run ε α} {next : α → Run ε β} {after : α → Session → Prop} {last : β → Session → Prop}
    (first : Yields context before body after) (rest : ∀ value, Yields context (after value) (next value) last) :
    Yields context before (body >>= next) last := by
  intro session value final holds run
  rw [bind_eq] at run
  split at run
  · next middle ended => exact rest middle _ value final (first session middle _ holds (Prod.ext ended rfl)) run
  · cases run

/-- Nothing follows what stops. -/
theorem stop {last : β → Session → Prop} (error : ε) (next : α → Run ε β) :
    Yields context before (throw error >>= next) last := by
  intro session value final _ run
  cases show ((.error error, session) : Except ε β × Session) = (.ok value, final) from run

theorem weaken {body : Run ε α} (yields : Yields context other body last) (sooner : ∀ session, before session → other session)
    (later : ∀ value session, last value session → after value session) : Yields context before body after :=
  fun session value final holds run => later value final (yields session value final (sooner session holds) run)

theorem imp {body : Run ε α} (yields : Yields context before body last)
    (later : ∀ value session, last value session → after value session) : Yields context before body after :=
  yields.weaken (fun _ => id) later

/-- What follows runs in the very session that was looked at. -/
theorem look {next : Session → Run ε α} (rest : ∀ session, before session →
    Yields context (· = session) (next session) after) : Yields context before (MonadState.get >>= next) after :=
  fun session value final holds run => rest session holds session value final rfl run

theorem get {next : Session → Run ε α} (rest : ∀ session, before session → Yields context before (next session) after) :
    Yields context before (MonadState.get >>= next) after :=
  fun session value final holds run => rest session holds session value final holds run

theorem read {next : Context → Run ε α} (rest : Yields context before (next context) after) :
    Yields context before (MonadReader.read >>= next) after := rest

theorem alter {change : Session → Session} {after : Unit → Session → Prop}
    (implies : ∀ session, before session → after () (change session)) :
    Yields context before (modify change : Run ε Unit) after := by
  rintro session _ _ holds ⟨⟩
  exact implies session holds

theorem ite {test : Prop} [Decidable test] {body other : Run ε α} (yes : test → Yields context before body after)
    (no : ¬ test → Yields context before other after) : Yields context before (if test then body else other) after := by
  split
  · exact yes ‹_›
  · exact no ‹_›

theorem mapM {act : α → Run ε β} {good : β → Prop} (items : List α)
    (each : ∀ item ∈ items, Yields context invariant (act item) fun value session => invariant session ∧ good value) :
    Yields context invariant (items.mapM act) fun values session => invariant session ∧ ∀ value ∈ values, good value := by
  induction items with
  | nil => exact .pure fun _ holds => ⟨holds, List.forall_mem_nil _⟩
  | cons item rest ih =>
    rw [List.mapM_cons]
    refine (each item List.mem_cons_self).bind fun value => ?_
    have others : Yields context (fun session => invariant session ∧ good value) (rest.mapM act) fun values session =>
        (invariant session ∧ ∀ value ∈ values, good value) ∧ good value := by
      intro session values final ⟨holds, own⟩ run
      exact ⟨ih (fun other member => each other (List.mem_cons_of_mem _ member)) session values final holds run, own⟩
    exact others.bind fun values => .pure fun _ ⟨⟨holds, others⟩, own⟩ => ⟨holds, List.forall_mem_cons.mpr ⟨own, others⟩⟩

theorem forM {act : α → Run ε Unit} (items : List α)
    (each : ∀ item ∈ items, Yields context invariant (act item) fun _ => invariant) :
    Yields context invariant (items.forM act) fun _ => invariant := by
  induction items with
  | nil => exact .pure fun _ => id
  | cons item rest ih =>
    exact (each item List.mem_cons_self).bind fun _ => ih fun other member => each other (List.mem_cons_of_mem _ member)

theorem foldlM {step : β → α → Run ε β} {good : β → Prop} (items : List α)
    (each : ∀ item ∈ items, ∀ value, good value →
      Yields context invariant (step value item) fun value session => invariant session ∧ good value) :
    ∀ value, good value → Yields context invariant (items.foldlM step value) fun value session => invariant session ∧ good value := by
  induction items with
  | nil => exact fun value own => .pure fun _ holds => ⟨holds, own⟩
  | cons item rest ih =>
    intro value own
    rw [List.foldlM_cons]
    refine (each item List.mem_cons_self value own).bind fun next => ?_
    intro session final end_ ⟨holds, own⟩ run
    exact ih (fun other member => each other (List.mem_cons_of_mem _ member)) next own session final end_ holds run

end Yields

end OwlGraph.Run
