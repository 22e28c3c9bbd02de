import OwlGraph.Proofs.Lockstep
import OwlGraph.Proofs.Roles
import OwlGraph.Proofs.WorkingSet

/-! What the reading of an axiom leaves behind. Whatever comes of it, it has used some triples,
noted some repairs and learned some kinds, and nothing else has changed, so a rollback undoes it.
Of the triples that stand for axioms of their own it uses only those that a repair names. -/

namespace OwlGraph

/-- Whether reading can meet the problem. That a triple is unsettled shows only when nothing is read
any more. -/
def Problem.isMet : Problem → Bool
  | .unsettled _ => false
  | _ => true

def Halt.isMet : Halt → Bool
  | .deferred _ => true
  | .failed problem => problem.isMet

/-- Whether the triple is the type of a node that stands for an axiom. -/
def Role.entersNode (triple : Triple) : Bool :=
  triple.predicate == Rdf.type && triple.object.iri?.any axiomTypes.contains

namespace Session

/-- Whether the triple stands for an axiom and is no part of another one: it does not enter a node,
and a construct is its subject only if it is a class axiom. -/
def isIndependent (session : Session) (triple : Triple) : Bool :=
  session.isCandidate triple && !Role.entersNode triple &&
    (Role.classAxiomPredicates.contains triple.predicate || !session.isStructural triple.subject)

/-- The session after triples were used, repairs noted and kinds learned. -/
def reading (session : Session) (used : List Row) (noted : List Problem) (kinds : Std.HashSet Entity)
    (kindsChanged : Bool) : Session :=
  { session with
    store := session.store.consumeAll used, pending := session.pending ++ noted.toArray, kinds, kindsChanged }

section Reading

variable (session : Session) (used others : List Row) (noted more : List Problem) (kinds known : Std.HashSet Entity)
  (kindsChanged changed : Bool)

theorem reading_nil : session.reading [] [] kinds kindsChanged = { session with kinds, kindsChanged } := by
  rw [reading, Array.append_empty]
  rfl

theorem reading_reading : (session.reading used noted kinds kindsChanged).reading others more known changed =
    session.reading (used ++ others) (noted ++ more) known changed := by
  rw [reading, reading, reading, TripleStore.consumeAll_append, ← List.append_toArray, Array.append_assoc]

/-- A reading is undone by the rollback to where it started. -/
theorem rollback_reading : (session.reading used noted kinds kindsChanged).rollback session.checkpoint = session := by
  rw [rollback, reading, checkpoint, TripleStore.rollback_consumeAll]
  simp

end Reading

end Session

/-- What stays as it is while axioms are read: the triples of the graph and the node of the
header. -/
structure Setting where
  rows : List Row
  header : Option Node

namespace Setting

/-- The session shows the graph and the header. -/
structure Holds (setting : Setting) (session : Session) : Prop where
  indexed : session.store.Indexed
  rows : session.store.liveRows = setting.rows
  header : session.header = setting.header

variable {setting : Setting} {session other : Session} {triple : Triple} {row : Row}

theorem Holds.reading (holds : setting.Holds session) (used : List Row) (noted : List Problem)
    (kinds : Std.HashSet Entity) (kindsChanged : Bool) :
    setting.Holds (session.reading used noted kinds kindsChanged) :=
  ⟨TripleStore.indexed_consumeAll holds.indexed used, (TripleStore.liveRows_consumeAll _ used).trans holds.rows,
    holds.header⟩

theorem Holds.visit (holds : setting.Holds session) (visiting : List Node) : setting.Holds { session with visiting } :=
  ⟨holds.indexed, holds.rows, holds.header⟩

theorem Holds.mem_withSubject (holds : setting.Holds session) {node : Node} :
    row ∈ session.store.withSubject node ↔ row ∈ setting.rows ∧ row.triple.subject = node := by
  rw [holds.indexed.withSubject, holds.rows, List.mem_filter, beq_iff_eq]

section Roles

variable (holds : setting.Holds session) (same : setting.Holds other)
include holds same

theorem Holds.withSubject_eq (node : Node) : session.store.withSubject node = other.store.withSubject node := by
  rw [holds.indexed.withSubject, same.indexed.withSubject, holds.rows, same.rows]

theorem Holds.isSpecial_eq (node : Node) : session.isSpecial node = other.isSpecial node := by
  simp only [Session.isSpecial, TripleStore.types, TripleStore.objects, TripleStore.matching,
    holds.withSubject_eq same, holds.header, same.header]

theorem Holds.isStructural_eq (node : Node) : session.isStructural node = other.isStructural node := by
  cases node with
  | named iri => rfl
  | blank node => simp only [Session.isStructural, holds.withSubject_eq same]

end Roles

/-- The triple stands for no axiom of its own. -/
def Dependent (setting : Setting) (triple : Triple) : Prop :=
  ∀ session, setting.Holds session → session.isIndependent triple = false

theorem dependent_of_candidate (none : ∀ session : Session, session.isCandidate triple = false) :
    setting.Dependent triple := fun session _ => by rw [Session.isIndependent, none, Bool.false_and, Bool.false_and]

/-- Triples of a node that stands for an axiom, an annotation or a part of a rule. -/
theorem Holds.dependent_of_special (holds : setting.Holds session) (special : session.isSpecial triple.subject = true) :
    setting.Dependent triple := by
  intro other same
  have special := (same.isSpecial_eq holds triple.subject).trans special
  obtain ⟨subject, predicate, object⟩ := triple
  by_cases type : predicate = Rdf.type
  · rw [Session.isIndependent, Session.isCandidate, if_pos type]
    rcases object with (iri | node) | literal
    · have enters : Role.entersNode ⟨subject, predicate, .resource (.named iri)⟩ = Role.axiomTypes.contains iri := by
        rw [Role.entersNode, type]
        exact Bool.true_and _
      rw [enters, Session.isTypeCandidate, special]
      cases Role.axiomTypes.contains iri <;> rfl
    · rw [Session.isTypeCandidate, special]
      rfl
    · rfl
  · rw [Session.isIndependent, Session.isCandidate, if_neg type, special, if_pos rfl, Bool.false_and, Bool.false_and]

/-- Triples of a construct that are no class axioms. -/
theorem Holds.dependent_of_structural (holds : setting.Holds session)
    (structural : session.isStructural triple.subject = true)
    (inner : Role.classAxiomPredicates.contains triple.predicate = false) : setting.Dependent triple := by
  intro other same
  rw [Session.isIndependent, inner, same.isStructural_eq holds, structural]
  simp

/-- Triples whose predicate only describes the inside of constructs. -/
theorem dependent_of_predicate (structural : triple.predicate ∈ Role.structuralPredicates)
    (inner : triple.predicate ≠ Owl.inverseOf ∧ triple.predicate ∉ Role.definitionPredicates) :
    setting.Dependent triple := by
  obtain ⟨untyped, noClassAxiom, noAxiom⟩ := Role.structural_not_candidate _ structural
  refine dependent_of_candidate fun session => ?_
  have noProperty : triple.predicate ∉ Role.propertyAxiomPredicates := fun listed => inner.1 (noAxiom listed)
  rw [Session.isCandidate, if_neg untyped]
  simp [inner, noClassAxiom, noProperty, structural]

theorem dependent_of_facet (facet : triple.predicate.isFacet = true) : setting.Dependent triple := by
  obtain ⟨untyped, noClassAxiom, noProperty, noDefinition, noInverse, -, reserved, unannotated⟩ :=
    Role.facet_not_candidate _ (by simpa [Iri.isFacet] using facet)
  refine dependent_of_candidate fun session => ?_
  rw [Session.isCandidate, if_neg untyped]
  simp [noInverse, noDefinition, noClassAxiom, noProperty, reserved, unannotated]

/-- A triple of the graph that the reading of an axiom may use: one that stands for no axiom of
its own or is told of already. -/
structure Usable (setting : Setting) (told : List Triple) (row : Row) : Prop where
  listed : row ∈ setting.rows
  reason : setting.Dependent row.triple ∨ row.triple ∈ told

theorem Usable.weaken {told names : List Triple} (usable : setting.Usable told row) (fewer : told ⊆ names) :
    setting.Usable names row :=
  ⟨usable.listed, usable.reason.imp id fun member => fewer member⟩

/-- Whatever comes of the translation, it leaves a reading behind that uses only triples it may
use: beside those told of before, those that its repairs name. All of its problems are met in
reading. -/
def Reads {α : Type} (setting : Setting) (told : List Triple) (body : Translation α) : Prop :=
  ∀ context session, setting.Holds session → ∃ used noted kinds kindsChanged,
    (body context session).2 = session.reading used noted kinds kindsChanged ∧
      (∀ row ∈ used, setting.Usable (told ++ noted.flatMap Problem.triples) row) ∧
        (∀ problem ∈ noted, problem.isMet = true) ∧
          ∀ halt, (body context session).1 = .error halt → halt.isMet = true

namespace Reads

variable {α β : Type} {told names : List Triple}

/-- A computation that uses no triple and notes no repair. -/
theorem of_kinds {body : Translation α} (same : ∀ context session, (body context session).2 =
    { session with
      kinds := (body context session).2.kinds, kindsChanged := (body context session).2.kindsChanged })
    (met : ∀ context session halt, (body context session).1 = .error halt → halt.isMet = true) :
    setting.Reads told body := fun context session _ =>
  ⟨[], [], _, _, (same context session).trans (Session.reading_nil _ _ _).symm, List.forall_mem_nil _,
    List.forall_mem_nil _, met context session⟩

theorem pure (value : α) : setting.Reads told (pure value) := .of_kinds (fun _ _ => rfl) fun _ _ _ => nofun

theorem raise (halt : Halt) (met : halt.isMet = true) : setting.Reads told (throw halt : Translation α) := by
  apply of_kinds fun _ _ => rfl
  rintro context session _ ⟨⟩
  exact met

/-- Nothing follows what stops. -/
theorem stop (halt : Halt) (next : α → Translation β) (met : halt.isMet = true) :
    setting.Reads told (throw halt >>= next) := by
  apply of_kinds fun _ _ => rfl
  rintro context session _ ⟨⟩
  exact met

theorem bind {body : Translation α} {next : α → Translation β} (first : setting.Reads told body)
    (rest : ∀ value, setting.Reads told (next value)) : setting.Reads told (body >>= next) := by
  intro context session holds
  obtain ⟨used, noted, kinds, kindsChanged, same, usable, met, ends⟩ := first context session holds
  cases run : (body context session).1 with
  | error halt =>
    rw [Run.bind_error run]
    refine ⟨used, noted, kinds, kindsChanged, same, usable, met, ?_⟩
    rintro _ ⟨⟩
    exact ends halt run
  | ok value =>
    rw [Run.bind_ok run, same]
    obtain ⟨others, more, known, changed, again, usable', met', ends'⟩ :=
      rest value context _ (holds.reading used noted kinds kindsChanged)
    refine ⟨used ++ others, noted ++ more, known, changed, again.trans (Session.reading_reading ..), fun row member => ?_,
      fun problem member => (List.mem_append.mp member).elim (met problem) (met' problem), ends'⟩
    rw [List.flatMap_append]
    rcases List.mem_append.mp member with member | member
    · exact (usable row member).weaken (by simp)
    · exact (usable' row member).weaken (by simp)

theorem look {next : Session → Translation α} (rest : ∀ session, setting.Holds session → setting.Reads told (next session)) :
    setting.Reads told (MonadState.get >>= next) := fun context session holds =>
  rest session holds context session holds

theorem read {next : Context → Translation α} (rest : ∀ context, setting.Reads told (next context)) :
    setting.Reads told (MonadReader.read >>= next) := fun context session holds => rest context context session holds

theorem ite {test : Prop} [Decidable test] {body other : Translation α} (yes : setting.Reads told body)
    (no : setting.Reads told other) : setting.Reads told (if test then body else other) := by
  split
  · exact yes
  · exact no

theorem mapM {act : α → Translation β} (items : List α) (each : ∀ item ∈ items, setting.Reads told (act item)) :
    setting.Reads told (items.mapM act) := by
  induction items with
  | nil => exact .pure []
  | cons item rest ih =>
    rw [List.mapM_cons]
    exact (each item List.mem_cons_self).bind fun _ =>
      (ih fun other member => each other (List.mem_cons_of_mem _ member)).bind fun _ => .pure _

theorem forM {act : α → Translation Unit} (each : ∀ item, setting.Reads told (act item)) (items : List α) :
    setting.Reads told (items.forM act) := by
  induction items with
  | nil => exact .pure ()
  | cons item rest ih => exact (each item).bind fun _ => ih

theorem foldlM {step : β → α → Translation β} (each : ∀ value item, setting.Reads told (step value item))
    (items : List α) : ∀ value, setting.Reads told (items.foldlM step value) := by
  induction items with
  | nil => exact fun value => .pure value
  | cons item rest ih => exact fun value => (each value item).bind ih

end Reads

end Setting

/-- Allowed to use any triple of the graph, the translation leaves a reading behind. -/
def Translation.LeavesReading {α : Type} (body : Translation α) : Prop :=
  ∀ (setting : Setting) (told : List Triple), (∀ row ∈ setting.rows, setting.Usable told row) → setting.Reads told body

theorem Translation.LeavesReading.meets {α : Type} {body : Translation α} (leaves : LeavesReading body) (context : Context)
    {session : Session} (indexed : session.store.Indexed) : ∃ used noted kinds kindsChanged,
      (body context session).2 = session.reading used noted kinds kindsChanged ∧
        (∀ problem ∈ noted, problem.isMet = true) ∧ ∀ halt, (body context session).1 = .error halt → halt.isMet = true := by
  let setting : Setting := ⟨session.store.liveRows, session.header⟩
  obtain ⟨used, noted, kinds, kindsChanged, same, -, met⟩ := leaves setting (setting.rows.map Row.triple)
    (fun row member => ⟨member, .inr (List.mem_map_of_mem member)⟩) context session ⟨indexed, rfl, rfl⟩
  exact ⟨used, noted, kinds, kindsChanged, same, met⟩

theorem Translation.LeavesReading.result {α : Type} {body : Translation α} (leaves : LeavesReading body) (context : Context)
    {session : Session} (indexed : session.store.Indexed) : ∃ used noted kinds kindsChanged,
      (body context session).2 = session.reading used noted kinds kindsChanged := by
  obtain ⟨used, noted, kinds, kindsChanged, same, -⟩ := leaves.meets context indexed
  exact ⟨used, noted, kinds, kindsChanged, same⟩

/-- Whatever the translation did, a rollback to where it started undoes it. -/
theorem Translation.LeavesReading.undone {α : Type} {body : Translation α} (leaves : LeavesReading body) (context : Context)
    {session : Session} (indexed : session.store.Indexed) :
    (body context session).2.rollback session.checkpoint = session := by
  obtain ⟨used, noted, kinds, kindsChanged, same⟩ := leaves.result context indexed
  rw [same, Session.rollback_reading]

end OwlGraph
