import OwlGraph.Proofs.Drawing
import OwlGraph.Proofs.Reading

/-! Readings in a session that was given some more triples. Whatever a session holds, there is a world
of it, in which some entities may become known that were not; the kinds of its properties stay what
they are. When the added triples are written with nodes that are new to the session, it says
nothing else about those nodes. -/

namespace OwlGraph

/-- The world of a session in which these entities may become known. -/
def World.of (context : Context) (session : Session) (learned : Entity → Prop) : World where
  context := context
  rows := session.store.liveRows
  rank := session.store.blankRank
  isVariable iri := session.ruleVariables.contains iri = true
  known entity := session.kinds.contains entity = true ∨ learned entity
  told entity := ∃ kind : PropertyKind, entity.kind = kind.entityKind ∧ session.propertyKind? entity.iri = some kind
  spent row := session.store.isConsumed row.id = true

namespace World

variable {context : Context} {session : Session} {learned : Entity → Prop}

theorem holds_of (indexed : session.store.Indexed) : (World.of context session learned).Holds session where
  indexed := indexed
  rows := rfl
  rank _ := rfl
  ruleVariables _ := Iff.rfl
  told := by
    rintro entity ⟨kind, same, found⟩
    rw [same]
    exact (Session.propertyKind?_eq_some.mp found).1
  known _ := Or.inl
  spent _ _ := id

section Kinds

variable (had : ∀ (iri : Iri) (kind : PropertyKind), learned ⟨kind.entityKind, iri⟩ → session.hasKind iri kind.entityKind = true)
include had

theorem hasKind_of_stands {iri : Iri} {kind : PropertyKind} (stands : (World.of context session learned).Stands ⟨kind.entityKind, iri⟩) :
    session.hasKind iri kind.entityKind = true := by
  rw [Session.hasKind, Bool.or_eq_true]
  rcases stands with built | known | may
  · exact .inl built
  · exact .inr known
  · have has := had iri kind may
    rwa [Session.hasKind, Bool.or_eq_true] at has

theorem settled_of : (World.of context session learned).Settled := by
  rintro iri kind other ⟨first, same, found⟩ - stands
  have injective : ∀ one two : PropertyKind, one.entityKind = two.entityKind → one = two := by
    intro one two
    cases one <;> cases two <;> decide
  obtain rfl := injective kind first same
  exact (Session.propertyKind?_eq_some.mp found).2 other (hasKind_of_stands had stands)

/-- No property changes its kind. -/
theorem Holds.propertyKind?_of {after : Session} (holds : (World.of context session learned).Holds after) (iri : Iri) :
    after.propertyKind? iri = session.propertyKind? iri := by
  cases found : session.propertyKind? iri with
  | some kind => exact holds.propertyKind? (settled_of had) kind ⟨kind, rfl, found⟩
  | none =>
    have unknown := List.find?_eq_none.mp found
    exact List.find?_eq_none.mpr fun kind listed has => unknown kind listed (hasKind_of_stands had (holds.stands has))

end Kinds

end World

namespace Session

/-- The session with some more triples in its store. -/
def insertAll (session : Session) (triples : List Triple) : Session :=
  { session with store := session.store.insertAll triples }

/-- The supply gives different nodes, and none that occurs in the session. -/
structure Lacks (session : Session) (supply : Nat → BlankNode) : Prop where
  distinct : ∀ m n, supply m = supply n → m = n
  absent : ∀ number, ∀ row ∈ session.store.liveRows, supply number ∉ row.triple.blanks
  unvisited : ∀ number, Node.blank (supply number) ∉ session.visiting

/-- After the triples are inserted the reading succeeds. It notes no problem, changes nothing but the
kinds that are known and what is used, and uses just these triples. The value may depend on how the
session names anonymous individuals. -/
def ReadsBack {α : Type} (session : Session) (context : Context) (triples : List Triple) (reading : Translation α)
    (post : (BlankNode → BlankNode) → α → Prop) : Prop :=
  let given := session.insertAll triples
  ∃ value after, reading context given = (.ok value, after) ∧ post (given.anonymous context.number) value ∧
    after = { given with store := after.store, kinds := after.kinds, kindsChanged := after.kindsChanged } ∧
    after.store.liveRows = given.store.liveRows ∧
    (∀ triple ∈ triples, ∃ id, after.store.find? triple = some id ∧ after.store.isConsumed id = true) ∧
    ∀ row ∈ given.store.liveRows, row.triple ∉ triples → after.store.isConsumed row.id = given.store.isConsumed row.id

theorem Lacks.subject_ne {session : Session} {supply : Nat → BlankNode} (lacks : session.Lacks supply) {row : Row}
    (member : row ∈ session.store.liveRows) (number : Nat) : row.triple.subject ≠ supply number := by
  intro same
  refine lacks.absent number row member ?_
  simp [Triple.blanks, same, Node.blank?]

/-- Two readings of the same triples have the same value. -/
theorem ReadsBack.agree {α : Type} {context : Context} {session other : Session} {triples others : List Triple}
    {reading : Translation α} {post last : (BlankNode → BlankNode) → α → Prop} (one : session.ReadsBack context triples reading post)
    (two : other.ReadsBack context others reading last) (same : session.insertAll triples = other.insertAll others) :
    ∃ value, post ((session.insertAll triples).anonymous context.number) value ∧
      last ((session.insertAll triples).anonymous context.number) value := by
  obtain ⟨value, after, run, first, -⟩ := one
  obtain ⟨value', after', run', second, -⟩ := two
  rw [← same] at run' second
  cases run.symm.trans run'
  exact ⟨value, first, second⟩

variable {session : Session} {context : Context} {triples : List Triple}

theorem mem_graph_insertAll (indexed : session.store.Indexed) {learned : Entity → Prop} {triple : Triple} :
    triple ∈ (World.of context (session.insertAll triples) learned).graph ↔
      triple ∈ session.store.liveRows.map Row.triple ∨ triple ∈ triples :=
  indexed.mem_insertAll triples

/-- The rows of before stay as they are, and the others are rows of the triples. -/
theorem row_insertAll (indexed : session.store.Indexed) {row : Row} (member : row ∈ (session.insertAll triples).store.liveRows) :
    (row ∈ session.store.liveRows ∧ (session.insertAll triples).store.isConsumed row.id = session.store.isConsumed row.id) ∨
      row.triple ∈ triples := by
  rcases indexed.row_insertAll triples member with old | ⟨new, -⟩
  · exact .inl old
  · exact .inr (((indexed.mem_insertAll triples).mp (List.mem_map_of_mem member)).resolve_left new)

theorem readsBack_of_finds {α : Type} (indexed : session.store.Indexed) {learned : Entity → Prop} {reading : Translation α}
    {post : (BlankNode → BlankNode) → α → Prop} {visited block : List Triple}
    (finds : (World.of context (session.insertAll triples) learned).FindsAt (session.insertAll triples) reading
      (post (World.of context (session.insertAll triples) learned).anonymous) visited block)
    (same : ∀ triple, triple ∈ block ↔ triple ∈ triples)
    (free : ∀ node ∈ session.visiting, ∀ triple ∈ visited, triple.subject ≠ node) : session.ReadsBack context triples reading post := by
  obtain ⟨value, after, run, holds, step⟩ := finds free
  refine ⟨value, after, run, holds, step.same, step.holds.rows, fun triple member => ?_, fun row present foreign => ?_⟩
  · obtain ⟨row, present, rfl⟩ := List.mem_map.mp ((mem_graph_insertAll indexed).mpr (.inr member))
    exact ⟨row.id, step.holds.indexed.find?_eq_some.mpr (step.holds.rows ▸ present), (step.used row present).mpr (.inr ((same _).mpr member))⟩
  · rw [Bool.eq_iff_iff, step.used row present, same]
    exact or_iff_left foreign

variable {supply : Nat → BlankNode}

/-- Of the fresh nodes the graph says what is written and nothing else. -/
theorem Lacks.sealed (lacks : session.Lacks supply) (indexed : session.store.Indexed) {learned : Entity → Prop} {start stop : Nat}
    {block : List Triple} (same : ∀ triple, triple ∈ block ↔ triple ∈ triples) :
    Rendering.Sealed supply (fun _ => False) (World.of context (session.insertAll triples) learned).graph start stop block where
  subset triple member := (mem_graph_insertAll indexed).mpr (.inr ((same triple).mp member))
  only triple member number _ _ own := by
    refine .inl ((same triple).mpr (((mem_graph_insertAll indexed).mp member).resolve_left fun old => ?_))
    obtain ⟨row, present, rfl⟩ := List.mem_map.mp old
    exact lacks.subject_ne present number own

end Session

end OwlGraph
