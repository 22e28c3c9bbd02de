import OwlGraph.Proofs.ReadingEffects

/-! How computations end: an assertion about the session that they keep whatever comes of them,
together with the errors that they can end with. Readings keep every assertion that is stable under
what they do, and so does the merging of annotations, which also adds triples and removes them. -/

namespace OwlGraph

namespace Run

variable {ε α β : Type} {context : Context} {assertion : Session → Prop} {fine : ε → Prop}

/-- Started where the assertion holds, the computation ends where it holds, and if with an error
then with a fine one. -/
def Ends (context : Context) (assertion : Session → Prop) (fine : ε → Prop) (body : Run ε α) : Prop :=
  ∀ session, assertion session → assertion (body context session).2 ∧
    ∀ error, (body context session).1 = .error error → fine error

namespace Ends

theorem pure (value : α) : Ends context assertion fine (pure value : Run ε α) := fun _ holds => ⟨holds, nofun⟩

theorem raise {error : ε} (known : fine error) : Ends context assertion fine (throw error : Run ε α) := by
  intro session holds
  refine ⟨holds, ?_⟩
  rintro _ ⟨⟩
  exact known

theorem bind {body : Run ε α} {next : α → Run ε β} (first : Ends context assertion fine body)
    (rest : ∀ value, Ends context assertion fine (next value)) : Ends context assertion fine (body >>= next) := by
  intro session holds
  obtain ⟨kept, known⟩ := first session holds
  cases run : (body context session).1 with
  | ok value =>
    rw [bind_ok run]
    exact rest value _ kept
  | error error =>
    rw [bind_error run]
    refine ⟨kept, ?_⟩
    rintro _ ⟨⟩
    exact known error run

theorem get {next : Session → Run ε α} (rest : ∀ session, assertion session → Ends context assertion fine (next session)) :
    Ends context assertion fine (MonadState.get >>= next) := fun session holds => rest session holds session holds

theorem read {next : Context → Run ε α} (rest : Ends context assertion fine (next context)) :
    Ends context assertion fine (MonadReader.read >>= next) := rest

theorem alter {change : Session → Session} (kept : ∀ session, assertion session → assertion (change session)) :
    Ends context assertion fine (modify change : Run ε Unit) := fun session holds => ⟨kept session holds, nofun⟩

/-- Putting the session in order after an error. -/
theorem cleanup {body : Run ε α} {change : Session → Session} (first : Ends context assertion fine body)
    (kept : ∀ session, assertion session → assertion (change session)) :
    Ends context assertion fine (tryCatch body fun error => do
      modify change
      throw error) := by
  intro session holds
  obtain ⟨left, known⟩ := first session holds
  rw [cleanup_eq]
  cases run : (body context session).1 with
  | ok value => exact ⟨left, nofun⟩
  | error error =>
    refine ⟨kept _ left, ?_⟩
    rintro _ ⟨⟩
    exact known error run

theorem forM {act : α → Run ε Unit} (items : List α) (each : ∀ item ∈ items, Ends context assertion fine (act item)) :
    Ends context assertion fine (items.forM act) := by
  induction items with
  | nil => exact .pure ()
  | cons item rest ih =>
    exact (each item List.mem_cons_self).bind fun _ => ih fun other member => each other (List.mem_cons_of_mem _ member)

theorem foldlM {step : β → α → Run ε β} (each : ∀ value item, Ends context assertion fine (step value item)) (items : List α) :
    ∀ value, Ends context assertion fine (items.foldlM step value) := by
  induction items with
  | nil => exact fun value => .pure value
  | cons item rest ih => exact fun value => (each value item).bind ih

theorem ite {test : Prop} [Decidable test] {body other : Run ε α} (yes : Ends context assertion fine body)
    (no : Ends context assertion fine other) : Ends context assertion fine (if test then body else other) := by
  split
  · exact yes
  · exact no

end Ends

end Run

/-- Readings keep the assertion, and so do the additions and removals by which annotations are
merged. -/
structure Session.Stable (assertion : Session → Prop) : Prop where
  indexed : ∀ {session}, assertion session → session.store.Indexed
  reading : ∀ {session used noted kinds kindsChanged}, assertion session → (∀ problem ∈ noted, problem.isMet = true) →
    assertion (session.reading used noted kinds kindsChanged)
  stored : ∀ {session store}, assertion session → store.Indexed → assertion { session with store }
  recorded : ∀ {session id fact}, assertion session → assertion { session with produced := session.produced.insert id fact }
  revised : ∀ {session ontology}, assertion session → assertion { session with ontology }

namespace Translation

open Run

variable {α : Type} {context : Context} {assertion : Session → Prop}

/-- The computation keeps the assertion and stops only over what reading meets. -/
abbrev Ends (context : Context) (assertion : Session → Prop) (body : Translation α) : Prop :=
  Run.Ends context assertion (fun halt => halt.isMet = true) body

theorem ends_fail (problem : Problem) (met : problem.isMet = true) :
    Ends context assertion (fail problem : Translation α) :=
  have known : (Halt.failed problem).isMet = true := met
  .raise known

section Merging

variable (stable : Session.Stable assertion)
include stable

theorem LeavesReading.ends {body : Translation α} (leaves : LeavesReading body) : Ends context assertion body := by
  intro session holds
  obtain ⟨used, noted, kinds, kindsChanged, same, met, known⟩ := leaves.meets context (stable.indexed holds)
  refine ⟨?_, known⟩
  rw [same]
  exact stable.reading holds met

theorem ends_insertMissing (node : Node) (triple : Triple) : Ends context assertion (insertMissing node triple) := by
  apply Run.Ends.bind (LeavesReading.ends stable fun _ _ _ => reads_recover _ rfl)
  intro _
  apply Run.Ends.get
  intro session holds
  split
  · rename_i id store inserted
    have grown := (stable.indexed holds).insert triple
    rw [inserted] at grown
    exact Run.Ends.bind (.alter fun _ known => stable.stored known grown) fun _ => .pure id
  · exact ends_fail _ rfl

theorem ends_lateStatement (id : TripleId) (triple : Triple) : Ends context assertion (lateStatement id triple) := by
  have read : Ends context assertion (statement triple) :=
    LeavesReading.ends stable (leaves_statement triple)
  refine read.bind fun fact => Run.Ends.bind (.alter fun session holds => ?_) fun _ => .pure fact
  exact stable.recorded (stable.stored holds (TripleStore.indexed_consume _ id (stable.indexed holds)))

theorem ends_annotatedFact (node : Node) (triple : Triple) : Ends context assertion (annotatedFact node triple) := by
  apply Run.Ends.get
  intro session holds
  split
  · split
    · exact .pure _
    · split
      · exact Run.Ends.bind (ends_fail _ rfl) fun _ => ends_lateStatement stable _ _
      · exact ends_lateStatement stable _ _
  · apply Run.Ends.bind (ends_insertMissing stable node triple)
    intro id
    apply Run.Ends.cleanup (ends_lateStatement stable id triple)
    intro session holds
    exact stable.stored holds (TripleStore.indexed_remove (stable.indexed holds) id)

theorem ends_mergeAnnotations (node : Node) : Ends context assertion (mergeAnnotations node) := by
  have single (predicate : Iri) : Ends context assertion (singleObject node predicate) :=
    LeavesReading.ends stable (leaves_singleObject node predicate)
  have name (term : Term) : Ends context assertion (named .property term) :=
    LeavesReading.ends stable fun _ _ _ => reads_named _ _
  have reified : Ends context assertion (consumeReification node) :=
    LeavesReading.ends stable (leaves_consumeReification node)
  have notes : Ends context assertion (annotationsOn node) :=
    LeavesReading.ends stable (leaves_annotationsOn node)
  refine (single _).bind fun source => (single _).bind fun property => (name property).bind fun predicate =>
    (single _).bind fun object => ?_
  split
  · exact reified.bind fun _ => notes.bind fun found => (ends_annotatedFact stable _ _).bind fun fact =>
      .alter fun _ holds => stable.revised holds
  · exact ends_fail _ rfl

end Merging

end Translation

end OwlGraph
