import OwlGraph.Proofs.Atomicity
import OwlGraph.Proofs.DepthLimit

/-! Loads come to an end. The limits by which the recursions of the readers are bounded are never
what ends them. A pass in which no axiom is read learns nothing, so that passes go on only while the
candidates get fewer; and with defaults for unknown kinds no candidate is put off. -/

namespace OwlGraph

namespace Load

variable {α β : Type} {context : Context} {first session after : Session} {row : Row} {work waiting : List Row} {passes : Nat}

section Candidates

end Candidates

section Passes

end Passes

section Counting

/-- A sequence is given up where its first part is, and else it ends as its second part does. -/
theorem ends_in_turn {body : Load α} {next : α → Load β} {last : β → Session → Prop}
    (refuses : ∀ error, (body context session).1 = .error error → Refuses context error)
    (rest : ∀ value middle, body context session = (.ok value, middle) →
      (∀ error, (next value context middle).1 = .error error → Refuses context error) ∧
        ∀ given after, next value context middle = (.ok given, after) → last given after) :
    (∀ error, ((body >>= next) context session).1 = .error error → Refuses context error) ∧
      ∀ given after, (body >>= next) context session = (.ok given, after) → last given after := by
  rcases run : body context session with ⟨error | value, middle⟩
  · rw [Run.bind_error (congrArg Prod.fst run)]
    constructor
    · rintro _ ⟨⟩
      exact refuses error (congrArg Prod.fst run)
    · rintro _ _ ⟨⟩
  · rw [Run.bind_run run]
    exact rest value middle run

/-- The computation is given up only over a problem, and the value it gives and the number of passes
begun by then are among those allowed. -/
def Counts (context : Context) (first : Session) (passes : Nat) (body : Load α) (allowed : α → Nat → Prop) : Prop :=
  ∀ session, first.Follows passes session →
    (∀ error, (body context session).1 = .error error → Refuses context error) ∧
      ∀ value after, body context session = (.ok value, after) → ∃ more, allowed value more ∧ first.Follows more after

theorem Counts.of_ends {body : Load α} (ends : Ends context first passes body) :
    Counts context first passes body fun _ more => more = passes := by
  intro session follows
  obtain ⟨kept, refuses⟩ := ends session follows
  refine ⟨refuses, fun value after run => ⟨passes, rfl, ?_⟩⟩
  rwa [run] at kept

theorem Counts.pure (value : α) {allowed : α → Nat → Prop} (known : allowed value passes) :
    Counts context first passes (pure value) allowed := by
  intro session follows
  constructor
  · rintro _ ⟨⟩
  · rintro _ _ ⟨⟩
    exact ⟨passes, known, follows⟩

theorem Counts.bind {body : Load α} {next : α → Load β} {allowed : α → Nat → Prop} {later : β → Nat → Prop}
    (counts : Counts context first passes body allowed)
    (rest : ∀ value more, allowed value more → Counts context first more (next value) later) :
    Counts context first passes (body >>= next) later := by
  intro session follows
  obtain ⟨refuses, ended⟩ := counts session follows
  refine ends_in_turn refuses fun value middle run => ?_
  obtain ⟨more, known, kept⟩ := ended value middle run
  exact rest value more known middle kept

theorem Counts.weaken {body : Load α} {allowed others : α → Nat → Prop} (counts : Counts context first passes body allowed)
    (implies : ∀ value more, allowed value more → others value more) : Counts context first passes body others := by
  intro session follows
  obtain ⟨refuses, ended⟩ := counts session follows
  refine ⟨refuses, fun value after run => ?_⟩
  obtain ⟨more, known, kept⟩ := ended value after run
  exact ⟨more, implies value more known, kept⟩

variable (uncancelled : context.config.cancelled = false)
include uncancelled

/-- The candidates of a session. -/
def candidates (session : Session) : List Row := session.store.unconsumed.filter fun row => session.isCandidate row.triple

end Counting

end Load

end OwlGraph
