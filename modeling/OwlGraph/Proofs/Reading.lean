import Mathlib.Data.List.Nodup
import OwlGraph.Proofs.Roles
import OwlGraph.Proofs.WorkingSet
import OwlGraph.Translation.PropertyKind

/-! Readings that succeed. While the triples of a graph are read nothing changes but which of
them are used and which kinds are known, and the kinds that may become known are settled in
advance. So a reading is told by its value and by the triples that it uses, and readings that
follow one another use the triples of both. -/

namespace OwlGraph

/-- The place of the kind in the order of preference. -/
def PropertyKind.rank : PropertyKind → Nat
  | .object => 0
  | .data => 1
  | .annotating => 2

/-- A property has the first of the kinds that are known of it. -/
theorem Session.propertyKind?_eq_some {session : Session} {iri : Iri} {kind : PropertyKind} :
    session.propertyKind? iri = some kind ↔ session.hasKind iri kind.entityKind = true ∧
      ∀ other : PropertyKind, session.hasKind iri other.entityKind = true → kind.rank ≤ other.rank := by
  have every (test : PropertyKind → Prop) : (∀ kind, test kind) ↔ test .object ∧ test .data ∧ test .annotating :=
    ⟨fun all => ⟨all _, all _, all _⟩, fun ⟨object, data, annotating⟩ kind => by cases kind <;> assumption⟩
  rw [Session.propertyKind?, every, PropertyKind.all]
  cases object : session.hasKind iri PropertyKind.object.entityKind <;> cases data : session.hasKind iri PropertyKind.data.entityKind <;>
    cases annotating : session.hasKind iri PropertyKind.annotating.entityKind <;> cases kind <;>
    simp [object, data, annotating, PropertyKind.rank]

/-- What stays fixed while the triples of a graph are read. -/
structure World where
  context : Context
  rows : List Row
  rank : BlankNode → Nat
  isVariable : Iri → Prop
  /-- The entities that may become known. -/
  known : Entity → Prop
  /-- The entities that are known from the beginning. -/
  told : Entity → Prop
  /-- The rows that are used from the beginning. -/
  spent : Row → Prop := fun _ => False

namespace World

def graph (world : World) : List Triple := world.rows.map Row.triple

/-- The anonymous individual that a blank node stands for. -/
def anonymous (world : World) (node : BlankNode) : BlankNode :=
  ⟨s!"s{Nat.repr world.context.number}n{Nat.repr (world.rank node)}"⟩

/-- Whether the entity is built in or may become known. -/
def Stands (world : World) (entity : Entity) : Prop :=
  entity.kind.isBuiltin entity.iri = true ∨ world.known entity

/-- No IRI has two kinds between which the mapping of a triple would have to choose. -/
structure Coherent (world : World) : Prop where
  single : ∀ (iri : Iri) (a b : PropertyKind), world.Stands ⟨a.entityKind, iri⟩ →
    world.Stands ⟨b.entityKind, iri⟩ → a = b
  apart : ∀ iri : Iri, world.Stands ⟨.cls, iri⟩ → ¬ world.Stands ⟨.datatype, iri⟩
  plain : ∀ iri : Iri, world.known ⟨.annotationProperty, iri⟩ → iri.isPlain = true

/-- A property that is told to be of a kind neither has nor gets one that is preferred to it. -/
def Settled (world : World) : Prop :=
  ∀ (iri : Iri) (kind other : PropertyKind), world.told ⟨kind.entityKind, iri⟩ → world.Stands ⟨kind.entityKind, iri⟩ →
    world.Stands ⟨other.entityKind, iri⟩ → kind.rank ≤ other.rank

theorem Coherent.settled {world : World} (coherent : world.Coherent) : world.Settled :=
  fun iri kind other _ stands also => Nat.le_of_eq (congrArg PropertyKind.rank (coherent.single iri kind other stands also))

/-- A session in which the graph is the one of the world. -/
structure Holds (world : World) (session : Session) : Prop where
  indexed : session.store.Indexed
  rows : session.store.liveRows = world.rows
  rank : ∀ node, session.store.blankRank node = world.rank node
  ruleVariables : ∀ iri, session.ruleVariables.contains iri = true ↔ world.isVariable iri
  told : ∀ entity, world.told entity → session.hasKind entity.iri entity.kind = true
  known : ∀ entity, session.kinds.contains entity = true → world.known entity
  spent : ∀ row ∈ world.rows, world.spent row → session.store.isConsumed row.id = true

/-- What a reading that uses these triples does to a session. -/
structure Step (world : World) (session after : Session) (block : List Triple) : Prop where
  holds : world.Holds after
  same : after = { session with
    store := after.store, kinds := after.kinds, kindsChanged := after.kindsChanged }
  used : ∀ row ∈ world.rows, after.store.isConsumed row.id = true ↔
    session.store.isConsumed row.id = true ∨ row.triple ∈ block

/-- In this session the translation has this value and uses these triples, if none of the
constructs to be visited is being read already. -/
def YieldsAt {α : Type} (world : World) (session : Session) (body : Translation α) (value : α)
    (visited block : List Triple) : Prop :=
  (∀ node ∈ session.visiting, ∀ triple ∈ visited, triple.subject ≠ node) →
    ∃ after, body world.context session = (.ok value, after) ∧ world.Step session after block

/-- In this session the translation has a value of which the assertion holds, and uses these triples. -/
def FindsAt {α : Type} (world : World) (session : Session) (body : Translation α) (post : α → Prop)
    (visited block : List Triple) : Prop :=
  (∀ node ∈ session.visiting, ∀ triple ∈ visited, triple.subject ≠ node) →
    ∃ value after, body world.context session = (.ok value, after) ∧ post value ∧ world.Step session after block

/-- The translation has this value and uses these triples in every session of the world. -/
def Yields {α : Type} (world : World) (body : Translation α) (value : α)
    (visited block : List Triple) : Prop :=
  ∀ session, world.Holds session → world.YieldsAt session body value visited block

variable {world : World}

theorem Step.refl {session : Session} (holds : world.Holds session) : world.Step session session [] :=
  ⟨holds, rfl, fun row _ => by simp⟩

theorem Step.trans {first second third : Session} {one two : List Triple}
    (earlier : world.Step first second one) (later : world.Step second third two) :
    world.Step first third (one ++ two) := by
  refine ⟨later.holds, ?_, fun row member => ?_⟩
  · rw [later.same, earlier.same]
  · rw [later.used row member, earlier.used row member, List.mem_append, or_assoc]

theorem Step.congr {session after : Session} {block other : List Triple}
    (step : world.Step session after block) (same : ∀ triple, triple ∈ block ↔ triple ∈ other) :
    world.Step session after other :=
  ⟨step.holds, step.same, fun row member => by rw [step.used row member, same]⟩

theorem Step.visiting {session after : Session} {block : List Triple} (step : world.Step session after block) :
    after.visiting = session.visiting := by
  rw [step.same]

section Rules

variable {α β : Type} {session : Session} {value : α} {result : β} {body : Translation α}
  {next : α → Translation β} {post : α → Prop} {last : β → Prop} {visited others block rest : List Triple}

private theorem run_bind {context : Context} {after : Session}
    (run : body context session = (.ok value, after)) :
    (body >>= next) context session = next value context after := by
  change (ExceptT.bindCont (fun a => next a context) (body context session).1) (body context session).2 = _
  rw [run]
  rfl

theorem YieldsAt.finds (yields : world.YieldsAt session body value visited block) (holds : post value) :
    world.FindsAt session body post visited block := by
  intro free
  obtain ⟨after, run, step⟩ := yields free
  exact ⟨value, after, run, holds, step⟩

theorem FindsAt.bind (first : world.FindsAt session body post visited block)
    (second : ∀ value after, post value → world.Step session after block →
      world.FindsAt after (next value) last others rest) :
    world.FindsAt session (body >>= next) last (visited ++ others) (block ++ rest) := by
  intro free
  obtain ⟨value, middle, run, holds, step⟩ := first fun node member triple inside =>
    free node member triple (List.mem_append_left _ inside)
  have free' : ∀ node ∈ middle.visiting, ∀ triple ∈ others, triple.subject ≠ node := by
    rw [step.visiting]
    exact fun node member triple inside => free node member triple (List.mem_append_right _ inside)
  obtain ⟨result, after, run', holds', step'⟩ := second value middle holds step free'
  exact ⟨result, after, (run_bind run).trans run', holds', step.trans step'⟩

/-- What comes first has one value. -/
theorem FindsAt.after (first : world.Yields body value visited block) (holds : world.Holds session)
    (second : ∀ after, world.Step session after block → world.FindsAt after (next value) last others rest) :
    world.FindsAt session (body >>= next) last (visited ++ others) (block ++ rest) :=
  ((first session holds).finds rfl).bind fun _ after same step => by
    subst same
    exact second after step

theorem FindsAt.weaken {needed : α → Prop} (finds : world.FindsAt session body needed visited block)
    (implies : ∀ value, needed value → post value) (more : ∀ triple ∈ visited, triple ∈ others)
    (same : ∀ triple, triple ∈ block ↔ triple ∈ rest) : world.FindsAt session body post others rest := by
  intro free
  obtain ⟨value, after, run, holds, step⟩ := finds fun node member triple inside => free node member triple (more triple inside)
  exact ⟨value, after, run, implies value holds, step.congr same⟩

theorem YieldsAt.bind (first : world.YieldsAt session body value visited block)
    (second : ∀ after, world.Step session after block → world.YieldsAt after (next value) result others rest) :
    world.YieldsAt session (body >>= next) result (visited ++ others) (block ++ rest) := by
  intro free
  obtain ⟨middle, run, step⟩ := first fun node member triple inside =>
    free node member triple (List.mem_append_left _ inside)
  have free' : ∀ node ∈ middle.visiting, ∀ triple ∈ others, triple.subject ≠ node := by
    rw [step.visiting]
    exact fun node member triple inside => free node member triple (List.mem_append_right _ inside)
  obtain ⟨after, run', step'⟩ := second middle step free'
  exact ⟨after, (run_bind run).trans run', step.trans step'⟩

theorem Yields.bind (first : world.Yields body value visited block)
    (second : world.Yields (next value) result others rest) :
    world.Yields (body >>= next) result (visited ++ others) (block ++ rest) :=
  fun session holds => (first session holds).bind fun after step => second after step.holds

theorem YieldsAt.weaken (yields : world.YieldsAt session body value visited block)
    (more : ∀ triple ∈ visited, triple ∈ others) (same : ∀ triple, triple ∈ block ↔ triple ∈ rest) :
    world.YieldsAt session body value others rest := by
  intro free
  obtain ⟨after, run, step⟩ := yields fun node member triple inside => free node member triple (more triple inside)
  exact ⟨after, run, step.congr same⟩

theorem Yields.weaken (yields : world.Yields body value visited block)
    (more : ∀ triple ∈ visited, triple ∈ others) (same : ∀ triple, triple ∈ block ↔ triple ∈ rest) :
    world.Yields body value others rest := fun session holds => (yields session holds).weaken more same

theorem Yields.pure (value : α) : world.Yields (pure value) value [] [] :=
  fun session holds _ => ⟨session, rfl, Step.refl holds⟩

/-- Most readings look at the session only for what is the same in every session of the world. -/
theorem Yields.get {next : Session → Translation β}
    (yields : ∀ session, world.Holds session → world.YieldsAt session (next session) result visited block) :
    world.Yields (MonadState.get >>= next) result visited block := yields

theorem FindsAt.get {next : Session → Translation β} (finds : world.FindsAt session (next session) last visited block) :
    world.FindsAt session (MonadState.get >>= next) last visited block := finds

theorem Yields.read {next : Context → Translation β}
    (yields : world.Yields (next world.context) result visited block) :
    world.Yields (MonadReader.read >>= next) result visited block := yields

/-- Reading a part of a construct first, and from its value the rest, without visiting more. -/
theorem Yields.step (first : world.Yields body value [] block)
    (second : world.Yields (next value) result visited rest) :
    world.Yields (body >>= next) result visited (block ++ rest) := first.bind second

theorem Yields.look (first : world.Yields body value [] [])
    (second : world.Yields (next value) result visited block) :
    world.Yields (body >>= next) result visited block := first.bind second

end Rules

section Primitives

variable {session : Session}

theorem Holds.row_eq (holds : world.Holds session) {row other : Row} (member : row ∈ world.rows)
    (present : other ∈ world.rows) (same : row.triple = other.triple) : row = other :=
  holds.indexed.row_eq (holds.rows ▸ member) (holds.rows ▸ present) same

/-- Using a row keeps everything else. -/
theorem consume_step (holds : world.Holds session) {row : Row} (member : row ∈ world.rows) :
    world.Step session (session.consume row.id) [row.triple] := by
  have rows : (session.consume row.id).store.liveRows = world.rows := by
    rw [Session.consume, TripleStore.liveRows_consume, holds.rows]
  refine ⟨⟨TripleStore.indexed_consume _ _ holds.indexed, rows, ?_, holds.ruleVariables, holds.told,
    holds.known, fun other present before => ?_⟩, rfl, ?_⟩
  · intro node
    simpa [Session.consume, TripleStore.blankRank] using holds.rank node
  · rw [Session.consume, TripleStore.isConsumed_consume _ (holds.rows ▸ present), holds.spent other present before, Bool.true_or]
  · intro other present
    have live : other ∈ session.store.liveRows := holds.rows ▸ present
    rw [Session.consume, TripleStore.isConsumed_consume _ live, Bool.or_eq_true, beq_iff_eq, List.mem_singleton]
    refine or_congr_right ⟨fun same => ?_, fun same => ?_⟩
    · have first := TripleStore.mem_liveRows.mp live
      have second := TripleStore.mem_liveRows.mp (holds.rows ▸ member : row ∈ session.store.liveRows)
      rw [same, second] at first
      rw [Option.some.inj first]
    · rw [holds.row_eq present member same]

theorem consumeAll_step {rows : List Row} : ∀ {session : Session}, world.Holds session →
    (∀ row ∈ rows, row ∈ world.rows) →
    world.Step session (session.consumeAll rows) (rows.map Row.triple) := by
  induction rows with
  | nil => exact fun holds _ => Step.refl holds
  | cons row rest ih =>
    intro session holds members
    have first := consume_step holds (members row List.mem_cons_self)
    exact first.trans (ih first.holds fun other inside => members other (List.mem_cons_of_mem _ inside))

theorem Yields.consume {row : Row} (member : row ∈ world.rows) :
    world.Yields (Translation.consume row.id) () [] [row.triple] :=
  fun _ holds _ => ⟨_, rfl, consume_step holds member⟩

theorem Yields.consumeAll {rows : List Row} (members : ∀ row ∈ rows, row ∈ world.rows) :
    world.Yields (Translation.consumeAll rows) () [] (rows.map Row.triple) :=
  fun _ holds _ => ⟨_, rfl, consumeAll_step holds members⟩

theorem learn_step (holds : world.Holds session) {iri : Iri} {kind : EntityKind}
    (allowed : world.known ⟨kind, iri⟩) : world.Step session (session.learn iri kind) [] := by
  unfold Session.learn
  split
  · exact Step.refl holds
  · refine ⟨⟨holds.indexed, holds.rows, holds.rank, holds.ruleVariables, ?_, ?_, holds.spent⟩, rfl, fun row _ => by simp⟩
    · intro entity told
      have before := holds.told entity told
      rw [Session.hasKind, Bool.or_eq_true] at before ⊢
      refine before.imp_right fun old => ?_
      rw [Std.HashSet.contains_insert, old, Bool.or_true]
    · intro entity present
      rw [Std.HashSet.contains_insert, Bool.or_eq_true, beq_iff_eq] at present
      rcases present with rfl | old
      · exact allowed
      · exact holds.known entity old

theorem Yields.learn {iri : Iri} {kind : EntityKind} (allowed : world.known ⟨kind, iri⟩) :
    world.Yields (Translation.learn iri kind) () [] [] :=
  fun _ holds _ => ⟨_, rfl, learn_step holds allowed⟩

/-- Reading the construct of a node visits that node besides what its parts visit. -/
theorem FindsAt.nested {α : Type} {node : Node} {body : Translation α} {post : α → Prop} {visited others block : List Triple}
    (finds : world.FindsAt { session with visiting := node :: session.visiting } body post visited block)
    (apart : ∀ triple ∈ visited, triple.subject ≠ node) {own : Triple} (owned : own.subject = node)
    (inside : own ∈ others) (more : ∀ triple ∈ visited, triple ∈ others) :
    world.FindsAt session (Translation.nested node body) post others block := by
  intro free
  have unvisited : session.visiting.contains node = false := by
    rw [List.contains_eq_mem, decide_eq_false_iff_not]
    exact fun member => free node member own inside owned
  obtain ⟨value, after, run, holds, step⟩ := finds (by
    intro other member triple within
    rcases List.mem_cons.mp member with rfl | earlier
    · exact apart triple within
    · exact free other earlier triple (more triple within))
  refine ⟨value, { after with visiting := after.visiting.erase node }, ?_, holds, ?_⟩
  · rw [Translation.nested, unvisited, if_neg Bool.false_ne_true, run]
  · refine ⟨⟨step.holds.indexed, step.holds.rows, step.holds.rank, step.holds.ruleVariables,
      step.holds.told, step.holds.known, step.holds.spent⟩, ?_, step.used⟩
    have restored : after.visiting.erase node = session.visiting := by
      rw [step.visiting]
      exact List.erase_cons_head ..
    rw [restored, step.same]

theorem Holds.entered (holds : world.Holds session) (node : Node) :
    world.Holds { session with visiting := node :: session.visiting } :=
  ⟨holds.indexed, holds.rows, holds.rank, holds.ruleVariables, holds.told, holds.known, holds.spent⟩

theorem Yields.nested {α : Type} {node : Node} {body : Translation α} {value : α} {visited block : List Triple}
    (yields : world.Yields body value visited block) (apart : ∀ triple ∈ visited, triple.subject ≠ node) {own : Triple}
    (owned : own.subject = node) (inside : own ∈ block) (more : ∀ triple ∈ visited, triple ∈ block) :
    world.Yields (Translation.nested node body) value block block := by
  intro session holds free
  obtain ⟨_, after, run, rfl, step⟩ :=
    ((yields _ (holds.entered node)).finds rfl).nested apart owned inside more free
  exact ⟨after, run, step⟩

end Primitives

section Lookup

variable {session : Session} (holds : world.Holds session)
include holds

theorem Holds.withSubject (subject : Node) :
    session.store.withSubject subject = world.rows.filter fun row => row.triple.subject == subject := by
  rw [holds.indexed.withSubject, holds.rows]

theorem Holds.withObject (object : Term) :
    session.store.withObject object = world.rows.filter fun row => row.triple.object == object := by
  rw [holds.indexed.withObject, holds.rows]

theorem Holds.matching (subject : Node) (predicate : Iri) :
    session.store.matching subject predicate =
      world.rows.filter fun row => row.triple.subject == subject && row.triple.predicate == predicate := by
  rw [TripleStore.matching, holds.withSubject, List.filter_filter]
  exact List.filter_congr fun row _ => Bool.and_comm _ _

theorem Holds.anonymous : session.anonymous world.context.number = world.anonymous := by
  funext node
  rw [Session.anonymous, World.anonymous, holds.rank]

/-- The rows of the graph and their triples determine each other. -/
theorem Holds.nodup_graph : world.graph.Nodup := by
  have distinct : world.rows.Nodup := by
    rw [← holds.rows, TripleStore.liveRows]
    refine List.Nodup.filterMap ?_ List.nodup_range
    intro first second row left right
    rw [← (TripleStore.row?_eq_some.mp left).1, ← (TripleStore.row?_eq_some.mp right).1]
  exact List.Nodup.map_on (fun _ member _ present same => holds.row_eq member present same) distinct

theorem Holds.nodup_filter (test : Row → Bool) : ((world.rows.filter test).map Row.triple).Nodup :=
  holds.nodup_graph.sublist (List.Sublist.map _ List.filter_sublist)

end Lookup

section Kinds

variable {session : Session} (settled : world.Settled) (holds : world.Holds session)
include holds

theorem Holds.stands {iri : Iri} {kind : EntityKind} (has : session.hasKind iri kind = true) :
    world.Stands ⟨kind, iri⟩ := by
  rw [Session.hasKind, Bool.or_eq_true] at has
  exact has.imp_right (holds.known ⟨kind, iri⟩)

include settled

theorem Holds.propertyKind? {iri : Iri} (kind : PropertyKind) (told : world.told ⟨kind.entityKind, iri⟩) :
    session.propertyKind? iri = some kind := by
  have has := holds.told _ told
  exact Session.propertyKind?_eq_some.mpr
    ⟨has, fun other known => settled iri kind other told (holds.stands has) (holds.stands known)⟩

end Kinds

end World

end OwlGraph
