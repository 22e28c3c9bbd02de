import OwlGraph.Proofs.LoadLockstep
import OwlGraph.Proofs.WorkingSet

/-! The header and the declarations in both modes. The header uses only triples about the
ontology itself, and the declarations mean the same in both modes if every resource typed as a
class of RDF Schema is declared to be a class too. -/

namespace OwlGraph

namespace Run

variable {ε α β : Type}

/-- Whatever comes of the computation, the assertion about the session stays true. -/
def Preserves (assertion : Session → Prop) (body : Run ε α) : Prop :=
  ∀ context session, assertion session → assertion (body context session).2

variable {assertion : Session → Prop}

theorem Preserves.pure (value : α) : Preserves assertion (pure value : Run ε α) := fun _ _ holds => holds

theorem Preserves.bind {body : Run ε α} {next : α → Run ε β} (first : Preserves assertion body)
    (rest : ∀ value, Preserves assertion (next value)) : Preserves assertion (body >>= next) := by
  intro context session holds
  cases run : (body context session).1 with
  | ok value =>
    rw [bind_ok run]
    exact rest value context _ (first context session holds)
  | error error =>
    rw [bind_error run]
    exact first context session holds

theorem Preserves.get {next : Session → Run ε α}
    (rest : ∀ session, assertion session → Preserves assertion (next session)) :
    Preserves assertion (MonadState.get >>= next) := fun context session holds => rest session holds context session holds

theorem Preserves.alter {change : Session → Session} (kept : ∀ session, assertion session → assertion (change session)) :
    Preserves assertion (modify change : Run ε Unit) := fun _ session holds => kept session holds

theorem Preserves.forM {act : α → Run ε Unit} (each : ∀ item, Preserves assertion (act item)) (items : List α) :
    Preserves assertion (items.forM act) := by
  induction items with
  | nil => exact .pure ()
  | cons item rest ih => exact (each item).bind fun _ => ih

theorem Preserves.foldlM {step : β → α → Run ε β} (items : List α)
    (each : ∀ item ∈ items, ∀ value, Preserves assertion (step value item)) :
    ∀ value, Preserves assertion (items.foldlM step value) := by
  induction items with
  | nil => exact fun value => .pure value
  | cons item rest ih =>
    exact fun value => (each item List.mem_cons_self value).bind
      (ih fun other member => each other (List.mem_cons_of_mem _ member))

end Run

theorem Ontology.index_addImport (ontology : Ontology) (iri : Iri) : (ontology.addImport iri).index = ontology.index := by
  rw [addImport]
  split <;> rfl

/-- A session in which at most triples about the ontology itself were used. -/
structure Session.HeaderOnly (start session : Session) : Prop where
  kinds : session.kinds = start.kinds
  kindsChanged : session.kindsChanged = start.kindsChanged
  indexed : session.store.Indexed
  rows : session.store.liveRows = start.store.liveRows
  used : ∀ row ∈ start.store.liveRows, session.store.isConsumed row.id = true →
    start.store.isConsumed row.id = true ∨
      (row.triple.predicate = Rdf.type → row.triple.object = .resource (.named Owl.Ontology))
  index : session.ontology.index = start.ontology.index
  produced : session.produced = start.produced

namespace Session.HeaderOnly

variable {start session : Session}

theorem refl (indexed : start.store.Indexed) : HeaderOnly start start :=
  ⟨rfl, rfl, indexed, rfl, fun _ _ used => .inl used, rfl, rfl⟩

theorem consume (only : HeaderOnly start session) {row : Row} (member : row ∈ start.store.liveRows)
    (header : row.triple.predicate = Rdf.type → row.triple.object = .resource (.named Owl.Ontology)) :
    HeaderOnly start (session.consume row.id) := by
  refine ⟨only.kinds, only.kindsChanged, TripleStore.indexed_consume _ _ only.indexed,
    (TripleStore.liveRows_consume _ _).trans only.rows, fun other present used => ?_, only.index, only.produced⟩
  have live : other ∈ session.store.liveRows := only.rows ▸ present
  rw [Session.consume, TripleStore.isConsumed_consume _ live, Bool.or_eq_true, beq_iff_eq] at used
  rcases used with used | same
  · exact only.used other present used
  · have one := TripleStore.mem_liveRows.mp present
    have two := TripleStore.mem_liveRows.mp member
    rw [same, two] at one
    exact .inr (Option.some.inj one ▸ header)

end Session.HeaderOnly

theorem Load.preserves_report {assertion : Session → Prop}
    (blind : ∀ (session : Session) (reports : Array Report), assertion session → assertion { session with reports })
    (problem : Problem) (candidate : Option Triple) : Run.Preserves assertion (Load.report problem candidate) := by
  intro context session holds
  cases mode : context.config.strict with
  | true =>
    rw [Load.report_strict mode]
    exact holds
  | false =>
    rw [Load.report_lax mode]
    exact blind session _ holds

namespace Load

variable {start : Session}

theorem preserves_readHeaderTriple (id : OntologyId × Bool) {row : Row} (member : row ∈ start.store.liveRows) :
    Run.Preserves start.HeaderOnly (readHeaderTriple id row) := by
  obtain ⟨number, subject, predicate, object⟩ := row
  have use (header : predicate = Rdf.type → object = .resource (.named Owl.Ontology)) :
      Run.Preserves start.HeaderOnly (modify (·.consume number) : Load Unit) :=
    .alter fun _ only => only.consume member header
  unfold readHeaderTriple
  dsimp only
  split
  · rename_i test
    exact (use fun _ => test.2).bind fun _ => .pure id
  split
  · exact .pure id
  split
  · rename_i version
    have untyped : predicate ≠ Rdf.type := by
      rw [version]
      decide
    have count (result : OntologyId × Bool) : Run.Preserves start.HeaderOnly (do
        modify (·.consume number)
        return result : Load (OntologyId × Bool)) :=
      (use fun type => absurd type untyped).bind fun _ => .pure result
    split
    · refine Run.Preserves.bind ?_ fun _ => count _
      exact preserves_report (fun _ _ only => ⟨only.kinds, only.kindsChanged, only.indexed, only.rows, only.used, only.index, only.produced⟩) _ _
    · exact count _
  split
  · rename_i imports
    have untyped : predicate ≠ Rdf.type := by
      rw [imports]
      decide
    refine Run.Preserves.bind (.alter fun session only => ?_) fun _ => .pure id
    have used := only.consume member fun type => absurd type untyped
    exact ⟨used.kinds, used.kindsChanged, used.indexed, used.rows, used.used, (Ontology.index_addImport _ _).trans used.index,
      used.produced⟩
  · exact .pure id

theorem readHeader_headerOnly (indexed : start.store.Indexed) (context : Context) :
    start.HeaderOnly (readHeader context start).2 := by
  have preserves : Run.Preserves start.HeaderOnly readHeader := by
    refine .get fun session only => ?_
    dsimp only
    split
    · refine (Run.Preserves.forM (fun other => preserves_report ?_ _ none) _).bind fun _ =>
        (Run.Preserves.foldlM _ (fun row member id => preserves_readHeaderTriple id ?_) _).bind fun _ => .alter ?_
      · exact fun _ _ only => ⟨only.kinds, only.kindsChanged, only.indexed, only.rows, only.used, only.index, only.produced⟩
      · rw [only.indexed.withSubject, only.rows] at member
        exact List.mem_of_mem_filter member
      · exact fun _ only => ⟨only.kinds, only.kindsChanged, only.indexed, only.rows, only.used, only.index, only.produced⟩
    · exact .pure ()
  exact preserves context start (.refl indexed)

end Load

namespace Session

section Kinds

variable {session : Session} {iri : Iri} {kind : EntityKind}

theorem learn_shape (session : Session) (iri : Iri) (kind : EntityKind) : session.learn iri kind = { session with
    kinds := (session.learn iri kind).kinds, kindsChanged := (session.learn iri kind).kindsChanged } := by
  rw [learn]
  split <;> rfl

theorem contains_learn {entity : Entity} : (session.learn iri kind).kinds.contains entity = true ↔
    session.kinds.contains entity = true ∨ entity = ⟨kind, iri⟩ := by
  rw [learn]
  split
  · next known => exact ⟨.inl, fun cases => cases.elim id fun same => same ▸ known⟩
  · rw [Std.HashSet.contains_insert, Bool.or_eq_true, beq_iff_eq, or_comm, eq_comm (a := entity)]

theorem kindsChanged_learn (honest : session.kindsChanged = true ↔ ∃ entity, session.kinds.contains entity = true) :
    (session.learn iri kind).kindsChanged = true ↔ ∃ entity, (session.learn iri kind).kinds.contains entity = true := by
  have known : ∃ entity, (session.learn iri kind).kinds.contains entity = true := ⟨_, contains_learn.mpr (.inr rfl)⟩
  refine ⟨fun _ => known, fun _ => ?_⟩
  rw [learn]
  split
  · next present => exact honest.mpr ⟨_, present⟩
  · rfl

end Kinds

/-- The second session knows the kinds of the first, and takes some more resources for classes. -/
structure Ahead (classes : Iri → Prop) (first second : Session) : Prop where
  same : second = { first with kinds := second.kinds, kindsChanged := second.kindsChanged }
  more : ∀ entity, first.kinds.contains entity = true → second.kinds.contains entity = true
  only : ∀ entity, second.kinds.contains entity = true →
    first.kinds.contains entity = true ∨ ∃ iri, classes iri ∧ entity = ⟨.cls, iri⟩
  first_changed : first.kindsChanged = true ↔ ∃ entity, first.kinds.contains entity = true
  second_changed : second.kindsChanged = true ↔ ∃ entity, second.kinds.contains entity = true

namespace Ahead

variable {classes : Iri → Prop} {first second : Session}

theorem learn (ahead : Ahead classes first second) (iri : Iri) (kind : EntityKind) :
    Ahead classes (first.learn iri kind) (second.learn iri kind) := by
  refine ⟨?_, fun entity known => ?_, fun entity known => ?_, kindsChanged_learn ahead.first_changed,
    kindsChanged_learn ahead.second_changed⟩
  · calc
      second.learn iri kind
      _ = { second with
            kinds := (second.learn iri kind).kinds, kindsChanged := (second.learn iri kind).kindsChanged } :=
          learn_shape second iri kind
      _ = { first with
            kinds := (second.learn iri kind).kinds, kindsChanged := (second.learn iri kind).kindsChanged } := by
          rw [ahead.same]
      _ = _ := by rw [learn_shape first iri kind]
  · exact contains_learn.mpr ((contains_learn.mp known).imp (ahead.more entity) id)
  · rcases contains_learn.mp known with known | same
    · exact (ahead.only entity known).imp (fun known => contains_learn.mpr (.inl known)) id
    · exact .inl (contains_learn.mpr (.inr same))

theorem learn_class (ahead : Ahead classes first second) {iri : Iri} (inside : classes iri) :
    Ahead classes first (second.learn iri .cls) := by
  refine ⟨?_, fun entity known => contains_learn.mpr (.inl (ahead.more entity known)), fun entity known => ?_,
    ahead.first_changed, kindsChanged_learn ahead.second_changed⟩
  · calc
      second.learn iri .cls
      _ = { second with
            kinds := (second.learn iri .cls).kinds, kindsChanged := (second.learn iri .cls).kindsChanged } :=
          learn_shape second iri .cls
      _ = _ := by rw [ahead.same]
  · exact (contains_learn.mp known).elim (ahead.only entity) fun same => .inr ⟨iri, inside, same⟩

/-- A change that has nothing to do with the known kinds. -/
theorem alter (ahead : Ahead classes first second) (change : Session → Session)
    (apart : ∀ (session : Session) (kinds : Std.HashSet Entity) (kindsChanged : Bool),
      change { session with kinds, kindsChanged } = { change session with kinds, kindsChanged }) :
    Ahead classes (change first) (change second) := by
  have own (session : Session) : (change session).kinds = session.kinds ∧
      (change session).kindsChanged = session.kindsChanged := by
    rw [show change session = _ from apart session session.kinds session.kindsChanged]
    exact ⟨rfl, rfl⟩
  obtain ⟨same, more, only, first_changed, second_changed⟩ := ahead
  refine ⟨?_, ?_, ?_, ?_, ?_⟩
  · rw [(own second).1, (own second).2, ← apart, ← same]
  · rw [(own first).1, (own second).1]
    exact more
  · rw [(own first).1, (own second).1]
    exact only
  · rw [(own first).1, (own first).2]
    exact first_changed
  · rw [(own second).1, (own second).2]
    exact second_changed

theorem declare (ahead : Ahead classes first second) {row : Row} (inside : ∀ iri, row.triple.subject.iri? = some iri →
    row.triple.object.iri? = some Rdfs.Class → classes iri) :
    Ahead classes (first.declare true row) (second.declare false row) := by
  unfold Session.declare
  split
  · next iri type named typed =>
    split
    · next kind _ =>
      have known := (ahead.learn iri kind).alter (·.consume row.id) fun _ _ _ => rfl
      dsimp only
      split
      · exact known
      · exact known.alter (·.commit row.id (.of (.declaration ⟨kind, iri⟩) [])) fun _ _ _ => rfl
    · split
      · exact ahead.alter (fun session => { session.consume row.id with ruleVariables := session.ruleVariables.insert iri })
          fun _ _ _ => rfl
      · split
        · exact ahead.learn iri .objectProperty
        · rw [if_neg (fun test => by simp at test)]
          split
          · next plain => exact ahead.learn_class (inside iri named (plain.1 ▸ typed))
          · exact ahead
  · exact ahead

end Ahead

theorem contains_declare {entity : Entity} {session : Session} (known : session.kinds.contains entity = true)
    (strict : Bool) (row : Row) : (session.declare strict row).kinds.contains entity = true := by
  unfold declare
  split
  · split
    · dsimp only
      split <;> exact contains_learn.mpr (.inl known)
    · split
      · exact known
      · split
        · exact contains_learn.mpr (.inl known)
        · split
          · exact contains_learn.mpr (.inl known)
          · exact known
  · exact known

/-- An entity is known by the kind that a triple declares it to be of. -/
theorem declared_kind {row : Row} {iri : Iri} {kind : EntityKind} (subject : row.triple.subject.iri? = some iri)
    (object : row.triple.object.iri? = some kind.type) (strict : Bool) (rows : List Row) :
    ∀ session : Session, row ∈ rows ∨ session.kinds.contains ⟨kind, iri⟩ = true →
      (rows.foldl (Session.declare strict) session).kinds.contains ⟨kind, iri⟩ = true := by
  induction rows with
  | nil => exact fun session known => known.resolve_left List.not_mem_nil
  | cons other rows ih =>
    intro session known
    refine ih _ ?_
    rcases known with member | known
    · refine (List.mem_cons.mp member).symm.imp id fun same => ?_
      subst same
      unfold declare
      rw [subject, object]
      dsimp only
      rw [EntityKind.ofType?_type]
      dsimp only
      split <;> exact contains_learn.mpr (.inr rfl)
    · exact .inr (contains_declare known strict other)

/-- If every resource typed as a class of RDF Schema is declared to be a class too, the
declarations mean the same in both modes. -/
theorem readDeclarations_agrees {first second : Session} (agrees : first.Agrees second)
    (fresh : first.kindsChanged = false) (unknown : ∀ entity, first.kinds.contains entity = false)
    (declared : ∀ row ∈ first.unused (first.store.withPredicate Rdf.type), ∀ iri, row.triple.subject.iri? = some iri →
      row.triple.object.iri? = some Rdfs.Class →
        ∃ other ∈ first.unused (first.store.withPredicate Rdf.type), other.triple.subject.iri? = some iri ∧
          other.triple.object.iri? = some Owl.Class) :
    (first.readDeclarations true).Agrees (second.readDeclarations false) := by
  obtain ⟨kinds, rfl, known⟩ := agrees
  let types := first.unused (first.store.withPredicate Rdf.type)
  let classes (iri : Iri) : Prop :=
    ∃ row ∈ types, row.triple.subject.iri? = some iri ∧ row.triple.object.iri? = some Rdfs.Class
  have honest {kinds : Std.HashSet Entity} (none : ∀ entity, kinds.contains entity = false) :
      first.kindsChanged = true ↔ ∃ entity, kinds.contains entity = true := by
    rw [fresh]
    exact ⟨fun changed => (nomatch changed), fun ⟨entity, present⟩ => (none entity).symm.trans present⟩
  have start : Ahead classes first { first with kinds } :=
    ⟨rfl, fun entity present => (known entity).trans present, fun entity present => .inl ((known entity).symm.trans present),
      honest unknown, honest fun entity => (known entity).trans (unknown entity)⟩
  have ahead (rows : List Row) (inside : ∀ row ∈ rows, row ∈ types) : ∀ first second : Session, Ahead classes first second →
      Ahead classes (rows.foldl (declare true) first) (rows.foldl (declare false) second) := by
    induction rows with
    | nil => exact fun _ _ ahead => ahead
    | cons row rows ih =>
      exact fun _ _ ahead => ih (fun other member => inside other (List.mem_cons_of_mem _ member)) _ _
        (ahead.declare fun iri subject object => ⟨row, inside row List.mem_cons_self, subject, object⟩)
  have level := ahead types (fun _ => id) _ _ start
  have same (entity : Entity) : (types.foldl (declare false) { first with kinds }).kinds.contains entity =
      (types.foldl (declare true) first).kinds.contains entity := by
    refine Bool.eq_iff_iff.mpr ⟨fun present => (level.only entity present).elim id ?_, level.more entity⟩
    rintro ⟨iri, ⟨row, member, subject, object⟩, rfl⟩
    obtain ⟨other, inside, subject, object⟩ := declared row member iri subject object
    have cls : other.triple.object.iri? = some (EntityKind.type .cls) := object
    exact declared_kind subject cls true types first (.inl inside)
  have changed : (types.foldl (declare false) { first with kinds }).kindsChanged =
      (types.foldl (declare true) first).kindsChanged := by
    refine Bool.eq_iff_iff.mpr ?_
    rw [level.first_changed, level.second_changed]
    exact exists_congr fun entity => by rw [same]
  exact ⟨_, level.same.trans (by rw [changed]; rfl), same⟩

/-- What survives each thing that reading a declaration can do survives the reading of declarations. -/
theorem readDeclarations_keeps {holds : Session → Prop}
    (learned : ∀ session iri kind, holds session → holds (session.learn iri kind))
    (used : ∀ session id, holds session → holds (session.consume id))
    (declared : ∀ session id entity, holds session → holds (session.commit id (.of (.declaration entity) [])))
    (named : ∀ session ruleVariables, holds session → holds { session with ruleVariables })
    (strict : Bool) {session : Session} (start : holds session) : holds (session.readDeclarations strict) := by
  have one (session : Session) (row : Row) (before : holds session) : holds (session.declare strict row) := by
    unfold declare
    split
    · next iri type _ _ =>
      split
      · next kind _ =>
        have known : holds ((session.learn iri kind).consume row.id) := used _ _ (learned _ _ _ before)
        dsimp only
        split
        · exact known
        · exact declared _ _ _ known
      · split
        · exact named _ _ (used _ row.id before)
        · split
          · exact learned _ _ _ before
          · split
            · exact learned _ _ _ before
            · exact before
    · exact before
  rw [readDeclarations]
  generalize session.unused (session.store.withPredicate Rdf.type) = rows
  induction rows generalizing session with
  | nil => exact start
  | cons row rows ih => exact ih (one session row start)

/-- Declarations leave the records of problems alone. -/
theorem records_readDeclarations (strict : Bool) (session : Session) :
    (session.readDeclarations strict).pending = session.pending ∧
      (session.readDeclarations strict).reports = session.reports ∧
        (session.readDeclarations strict).passes = session.passes := by
  let same (after : Session) : Prop :=
    after.pending = session.pending ∧ after.reports = session.reports ∧ after.passes = session.passes
  have learned (after : Session) (iri : Iri) (kind : EntityKind) (before : same after) : same (after.learn iri kind) := by
    rw [learn_shape]
    exact before
  exact @readDeclarations_keeps same learned (fun _ _ => id) (fun _ _ _ => id) (fun _ _ => id) strict session ⟨rfl, rfl, rfl⟩

end Session

end OwlGraph
