import OwlGraph.Proofs.Lockstep
import OwlGraph.Proofs.PairedSessions

/-! Computations side by side over graphs that differ in the labels of their blank nodes. Started
in sessions that correspond, they end alike and leave sessions that correspond. The rules carry
this along the sequencing of computations; what a computation reads from the graph is related by
the pairing, what it builds from it is the same and stands for paired nodes. -/

namespace OwlGraph.Pairing

variable {ε α β γ : Type}

/-- Both end with values that are related, or with errors that are. -/
inductive Results (wrong : ε → ε → Prop) (right : α → α → Prop) : Except ε α → Except ε α → Prop
  | ok {first second : α} (values : right first second) : Results wrong right (.ok first) (.ok second)
  | error {first second : ε} (errors : wrong first second) : Results wrong right (.error first) (.error second)

/-- The same value, of which something holds. -/
structure Exactly (good : α → Prop) (first second : α) : Prop where
  same : second = first
  own : good first

/-- In corresponding sessions the computations end alike and leave corresponding sessions. -/
def Parallel (pairing : Pairing) (wrong : ε → ε → Prop) (context : Context) (right : α → α → Prop) (body other : Run ε α) : Prop :=
  context.number = pairing.number → ∀ first second, pairing.Sessions first second →
    Results wrong right (body context first).1 (other context second).1 ∧
      pairing.Sessions (body context first).2 (other context second).2

namespace Parallel

variable {pairing : Pairing} {wrong : ε → ε → Prop} {context : Context} {left : α → α → Prop} {right : β → β → Prop}
  {good : α → Prop} {fine : β → Prop}

theorem pure {value twin : β} (values : right value twin) :
    pairing.Parallel wrong context right (Pure.pure value) (Pure.pure twin) := fun _ _ _ same => ⟨.ok values, same⟩

/-- A value that both computations have found. -/
theorem settled {value : β} (own : fine value) :
    pairing.Parallel wrong context (Exactly fine) (Pure.pure value) (Pure.pure value) := .pure ⟨rfl, own⟩

theorem raise {error halt : ε} (errors : wrong error halt) :
    pairing.Parallel wrong context right (throw error) (throw halt) := fun _ _ _ same => ⟨.error errors, same⟩

/-- Nothing follows what stops. -/
theorem stop {error halt : ε} (errors : wrong error halt) (next after : α → Run ε β) :
    pairing.Parallel wrong context right (throw error >>= next) (throw halt >>= after) :=
  fun _ _ _ same => ⟨.error errors, same⟩

/-- What follows may depend on related values. -/
theorem relate {body other : Run ε α} {next after : α → Run ε β} (parallel : pairing.Parallel wrong context left body other)
    (rest : ∀ value twin, left value twin → pairing.Parallel wrong context right (next value) (after twin)) :
    pairing.Parallel wrong context right (body >>= next) (other >>= after) := by
  intro numbered first second same
  obtain ⟨results, later⟩ := parallel numbered first second same
  rw [Run.bind_eq, Run.bind_eq]
  generalize (body context first).1 = result at results
  generalize (other context second).1 = outcome at results
  cases results with
  | ok values => exact rest _ _ values numbered _ _ later
  | error errors => exact ⟨.error errors, later⟩

/-- What follows may depend on a value that both have found. -/
theorem bind {body other : Run ε α} {next after : α → Run ε β}
    (parallel : pairing.Parallel wrong context (Exactly good) body other)
    (rest : ∀ value, good value → pairing.Parallel wrong context right (next value) (after value)) :
    pairing.Parallel wrong context right (body >>= next) (other >>= after) := by
  refine parallel.relate ?_
  rintro _ value ⟨rfl, own⟩
  exact rest value own

theorem look {next after : Session → Run ε β}
    (rest : ∀ first second, pairing.Sessions first second → pairing.Parallel wrong context right (next first) (after second)) :
    pairing.Parallel wrong context right (MonadState.get >>= next) (MonadState.get >>= after) :=
  fun numbered first second same => rest first second same numbered first second same

theorem read {next after : Context → Run ε β}
    (rest : context.number = pairing.number → pairing.Parallel wrong context right (next context) (after context)) :
    pairing.Parallel wrong context right (MonadReader.read >>= next) (MonadReader.read >>= after) :=
  fun numbered => rest numbered numbered

theorem alter {change turn : Session → Session}
    (kept : ∀ first second, pairing.Sessions first second → pairing.Sessions (change first) (turn second)) :
    pairing.Parallel wrong context (Exactly fun _ => True) (modify change : Run ε Unit) (modify turn) :=
  fun _ first second same => ⟨.ok ⟨rfl, trivial⟩, kept first second same⟩

theorem ite {test exam : Prop} [Decidable test] [Decidable exam] (same : exam ↔ test) {body other next after : Run ε β}
    (yes : test → pairing.Parallel wrong context right body other) (no : ¬ test → pairing.Parallel wrong context right next after) :
    pairing.Parallel wrong context right (if test then body else next) (if exam then other else after) := by
  by_cases holds : test
  · rw [if_pos holds, if_pos (same.mpr holds)]
    exact yes holds
  · rw [if_neg holds, if_neg (fun other => holds (same.mp other))]
    exact no holds

/-- Putting the session in order after an error, which stays as it is. -/
theorem cleanup {body other : Run ε α} {change : Session → Session} (parallel : pairing.Parallel wrong context left body other)
    (kept : ∀ first second, pairing.Sessions first second → pairing.Sessions (change first) (change second)) :
    pairing.Parallel wrong context left
      (tryCatch body fun error => do
        modify change
        throw error)
      (tryCatch other fun error => do
        modify change
        throw error) := by
  intro numbered first second same
  obtain ⟨results, later⟩ := parallel numbered first second same
  rw [Run.cleanup_eq, Run.cleanup_eq]
  generalize (body context first).1 = result at results
  generalize (other context second).1 = outcome at results
  cases results with
  | ok values => exact ⟨.ok values, later⟩
  | error errors => exact ⟨.error errors, kept _ _ later⟩

section Lists

variable {holds : γ → γ → Prop} {items others : List γ} (listed : List.Forall₂ holds items others)
include listed

theorem mapM {act deed : γ → Run ε β}
    (each : ∀ item twin, holds item twin → pairing.Parallel wrong context (Exactly fine) (act item) (deed twin)) :
    pairing.Parallel wrong context (Exactly fun values => ∀ value ∈ values, fine value) (items.mapM act) (others.mapM deed) := by
  induction listed with
  | nil => exact .settled (List.forall_mem_nil _)
  | cons own _ ih =>
    rw [List.mapM_cons, List.mapM_cons]
    exact (each _ _ own).bind fun value first => ih.bind fun values rest =>
      .settled (List.forall_mem_cons.mpr ⟨first, rest⟩)

theorem forM {act deed : γ → Run ε Unit}
    (each : ∀ item twin, holds item twin → pairing.Parallel wrong context (Exactly fun _ => True) (act item) (deed twin)) :
    pairing.Parallel wrong context (Exactly fun _ => True) (items.forM act) (others.forM deed) := by
  induction listed with
  | nil => exact .settled trivial
  | cons own _ ih => exact (each _ _ own).bind fun _ _ => ih

theorem foldlM {step stride : β → γ → Run ε β}
    (each : ∀ value, fine value → ∀ item twin, holds item twin →
      pairing.Parallel wrong context (Exactly fine) (step value item) (stride value twin)) :
    ∀ value, fine value → pairing.Parallel wrong context (Exactly fine) (items.foldlM step value) (others.foldlM stride value) := by
  induction listed with
  | nil => exact fun value own => .settled own
  | cons first _ ih =>
    intro value own
    rw [List.foldlM_cons, List.foldlM_cons]
    exact (each value own _ _ first).bind ih

end Lists

end Parallel

end OwlGraph.Pairing
