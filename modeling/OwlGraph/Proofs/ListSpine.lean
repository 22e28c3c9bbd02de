import OwlGraph.Proofs.Lockstep
import OwlGraph.Proofs.WorkingSet
import OwlGraph.Translation.Collection

/-! Which terms are read as lists. A list is told by the triples alone: a chain of different
nodes, each with one first element and one rest, which ends in the empty list and is no longer
than the limit. Reading a term finds the elements of the list that starts at it and uses the
triples of that list, whatever else the graph holds; if there is no such list, the reading fails. -/

namespace OwlGraph

namespace TripleStore

/-- The live triples. -/
def graph (store : TripleStore) : List Triple := store.liveRows.map Row.triple

theorem nodup_liveRows (store : TripleStore) : store.liveRows.Nodup := by
  refine List.Nodup.filterMap ?_ List.nodup_range
  intro first second row left right
  rw [← (row?_eq_some.mp left).1, ← (row?_eq_some.mp right).1]

@[simp] theorem graph_consumeAll (store : TripleStore) (rows : List Row) : (store.consumeAll rows).graph = store.graph := by
  rw [graph, graph, liveRows_consumeAll]

theorem Indexed.matching {store : TripleStore} (indexed : store.Indexed) (subject : Node) (predicate : Iri) :
    store.matching subject predicate =
      store.liveRows.filter fun row => row.triple.subject == subject && row.triple.predicate == predicate := by
  rw [TripleStore.matching, indexed.withSubject, List.filter_filter]
  exact List.filter_congr fun row _ => Bool.and_comm _ _

theorem Indexed.mem_matching {store : TripleStore} (indexed : store.Indexed) {subject : Node} {predicate : Iri} {row : Row} :
    row ∈ store.matching subject predicate ↔
      row ∈ store.liveRows ∧ row.triple = ⟨subject, predicate, row.triple.object⟩ := by
  rw [indexed.matching, List.mem_filter, Bool.and_eq_true, beq_iff_eq, beq_iff_eq]
  refine and_congr_right fun _ => ⟨?_, fun same => ?_⟩
  · rintro ⟨rfl, rfl⟩
    rfl
  · rw [same]
    exact ⟨rfl, rfl⟩

theorem Indexed.withSubject_consumeAll {store : TripleStore} (indexed : store.Indexed) (rows : List Row) (subject : Node) :
    (store.consumeAll rows).withSubject subject = store.withSubject subject := by
  rw [indexed.withSubject, (indexed_consumeAll indexed rows).withSubject, liveRows_consumeAll]

theorem Indexed.matching_consumeAll {store : TripleStore} (indexed : store.Indexed) (rows : List Row) (subject : Node)
    (predicate : Iri) : (store.consumeAll rows).matching subject predicate = store.matching subject predicate := by
  rw [TripleStore.matching, indexed.withSubject_consumeAll, ← TripleStore.matching]

/-- Consuming rows of the store uses their triples and no others. -/
theorem isConsumed_consumeAll_iff {store : TripleStore} {rows : List Row} (live : ∀ row ∈ rows, row ∈ store.liveRows)
    (id : TripleId) :
    (store.consumeAll rows).isConsumed id = true ↔ store.isConsumed id = true ∨ ∃ row ∈ rows, row.id = id := by
  by_cases some : ∃ row ∈ rows, row.id = id
  · obtain ⟨row, member, rfl⟩ := some
    refine iff_of_true ?_ (.inr ⟨row, member, rfl⟩)
    rw [isConsumed_consumeAll (live row member), Bool.or_eq_true]
    exact .inr (List.any_eq_true.mpr ⟨row, member, beq_self_eq_true _⟩)
  · obtain ⟨fresh, extending, -, told⟩ := store.extends_consumeAll rows
    have outside : id ∉ fresh := fun inside => some ((told id).mp inside).1
    rw [or_iff_left some, isConsumed, isConsumed, extending.entries]
    cases store.entries[id]? with
    | none => rfl
    | some entry => simp [outside]

end TripleStore

/-- The node has the predicate with this object and with no other one. -/
def Single (graph : List Triple) (node : Node) (predicate : Iri) (object : Term) : Prop :=
  ∀ other : Term, (⟨node, predicate, other⟩ : Triple) ∈ graph ↔ other = object

theorem Single.unique {graph : List Triple} {node : Node} {predicate : Iri} {object other : Term}
    (single : Single graph node predicate object) (also : Single graph node predicate other) : object = other :=
  (also object).mp ((single object).mpr rfl)

/-- The nodes carry the elements, and each one's rest is the next, from the term to the empty list. -/
inductive Spine (graph : List Triple) : Term → List Node → List Term → Prop
  | nil : Spine graph Rdf.nil [] []
  | cons {node : Node} {nodes : List Node} {element rest : Term} {elements : List Term}
      (proper : node ≠ .named Rdf.nil) (first : Single graph node Rdf.first element)
      (next : Single graph node Rdf.rest rest) (spine : Spine graph rest nodes elements) :
      Spine graph node (node :: nodes) (element :: elements)

/-- A chain that starts at a node starts with it, and goes on at its rest. -/
theorem Spine.exists_of_node {graph : List Triple} {node : Node} {nodes : List Node} {elements : List Term}
    (spine : Spine graph node nodes elements) (proper : node ≠ .named Rdf.nil) :
    ∃ element rest others found, nodes = node :: others ∧ elements = element :: found ∧
      Single graph node Rdf.first element ∧ Single graph node Rdf.rest rest ∧ Spine graph rest others found := by
  generalize start : Term.resource node = head at spine
  cases spine with
  | nil => exact absurd (Term.resource.inj start) proper
  | @cons _ others element rest found _ first next spine =>
    cases start
    exact ⟨element, rest, others, found, rfl, rfl, first, next, spine⟩

/-- A term starts one chain at most. -/
theorem Spine.unique {graph : List Triple} {head : Term} {nodes others : List Node} {elements found : List Term}
    (spine : Spine graph head nodes elements) (also : Spine graph head others found) :
    nodes = others ∧ elements = found := by
  induction spine generalizing others found with
  | nil =>
    cases also with
    | nil => exact ⟨rfl, rfl⟩
    | cons proper => exact absurd rfl proper
  | cons proper first next _ ih =>
    cases also with
    | nil => exact absurd rfl proper
    | cons _ firstAlso nextAlso spineAlso =>
      cases next.unique nextAlso
      obtain ⟨rfl, rfl⟩ := ih spineAlso
      rw [first.unique firstAlso]
      exact ⟨rfl, rfl⟩

/-- The chain is a list: no node comes twice, and there are no more nodes than the limit. -/
structure IsList (graph : List Triple) (limit : Nat) (head : Term) (nodes : List Node) (elements : List Term) : Prop where
  spine : Spine graph head nodes elements
  distinct : nodes.Nodup
  short : nodes.length ≤ limit

@[simp] theorem Session.store_consumeAll (session : Session) (rows : List Row) :
    (session.consumeAll rows).store = session.store.consumeAll rows := rfl

theorem Session.consumeAll_append (session : Session) (rows others : List Row) :
    session.consumeAll (rows ++ others) = (session.consumeAll rows).consumeAll others := by
  simp only [Session.consumeAll, TripleStore.consumeAll_append]

/-- The triples of a node that belong to the list: its element, its rest, and that it is a list. -/
def Triple.OfList (triple : Triple) : Prop :=
  triple.predicate = Rdf.first ∨ triple.predicate = Rdf.rest ∨
    triple.predicate = Rdf.type ∧ (triple.object = Rdf.List ∨ triple.object = Swrl.AtomList)

namespace Translation

variable (context : Context) {session : Session} (head : Term)

/-- The one value is found and its triple used. -/
private theorem listStep_single (indexed : session.store.Indexed) {node : Node} {predicate : Iri} {object : Term}
    (single : Single session.store.graph node predicate object) :
    ∃ row, (∀ other, other ∈ session.store.matching node predicate ↔ other = row) ∧
      listStep head node predicate context session = (.ok object, session.consumeAll [row]) := by
  obtain ⟨row, member, same⟩ := List.mem_map.mp ((single object).mpr rfl)
  have only (other : Row) : other ∈ session.store.matching node predicate ↔ other = row := by
    rw [indexed.mem_matching]
    constructor
    · rintro ⟨present, told⟩
      have value : other.triple.object = object :=
        (single _).mp (told ▸ List.mem_map_of_mem (f := Row.triple) present)
      exact indexed.row_eq present member (by rw [told, same, value])
    · rintro rfl
      exact ⟨member, by rw [same]⟩
  have found : session.store.matching node predicate = [row] := by
    refine List.perm_singleton.mp ((List.perm_ext_iff_of_nodup ?_ (List.nodup_singleton row)).mpr fun other => ?_)
    · rw [indexed.matching]
      exact session.store.nodup_liveRows.filter _
    · rw [only, List.mem_singleton]
  refine ⟨row, only, ?_⟩
  rw [listStep, Run.get_bind, found, show object = row.triple.object by rw [same]]
  rfl

/-- Without exactly one value the step fails. -/
private theorem listStep_flawed (indexed : session.store.Indexed) {node : Node} {predicate : Iri}
    (none : ∀ object, ¬ Single session.store.graph node predicate object) :
    ∃ flaw, (listStep head node predicate context session).1 = .error (.failed (.malformedList head flaw)) := by
  rw [listStep, Run.get_bind]
  rcases found : session.store.matching node predicate with _ | ⟨row, _ | ⟨other, rows⟩⟩
  · exact ⟨_, rfl⟩
  · have only (other : Row) : other ∈ session.store.matching node predicate ↔ other = row := by
      rw [found, List.mem_singleton]
    obtain ⟨member, same⟩ := indexed.mem_matching.mp ((only row).mpr rfl)
    refine absurd (fun object => ⟨fun present => ?_, ?_⟩) (none row.triple.object)
    · obtain ⟨also, listed, told⟩ := List.mem_map.mp present
      rw [← (only also).mp (indexed.mem_matching.mpr ⟨listed, by rw [told]⟩), told]
    · rintro rfl
      exact same ▸ List.mem_map_of_mem (f := Row.triple) member
  · exact ⟨_, rfl⟩

/-- What a reading has before it: a list none of whose nodes has been visited. -/
private structure Upcoming (graph : List Triple) (visited : Std.HashSet Node) (room : Nat) (current : Term)
    (nodes : List Node) (elements : List Term) : Prop extends IsList graph room current nodes elements where
  unvisited : ∀ node ∈ nodes, visited.contains node = false

/-- At a node comes the node, and then what comes at its rest. -/
private theorem upcoming_node {graph : List Triple} {visited : Std.HashSet Node} {room : Nat} {node : Node}
    {element rest : Term} (proper : node ≠ .named Rdf.nil) (new : visited.contains node = false)
    (first : Single graph node Rdf.first element) (next : Single graph node Rdf.rest rest)
    {nodes : List Node} {elements : List Term} :
    Upcoming graph visited (room + 1) node nodes elements ↔ ∃ others found,
      nodes = node :: others ∧ elements = element :: found ∧ Upcoming graph (visited.insert node) room rest others found := by
  constructor
  · rintro ⟨⟨spine, distinct, short⟩, unvisited⟩
    obtain ⟨_, _, others, found, rfl, rfl, firstAlso, nextAlso, spine⟩ := spine.exists_of_node proper
    cases next.unique nextAlso
    obtain ⟨fresh, distinct⟩ := List.nodup_cons.mp distinct
    refine ⟨others, found, rfl, by rw [first.unique firstAlso],
      ⟨spine, distinct, Nat.le_of_succ_le_succ short⟩, fun other member => ?_⟩
    rw [Std.HashSet.contains_insert, Bool.or_eq_false_iff, beq_eq_false_iff_ne]
    exact ⟨fun same => fresh (same ▸ member), unvisited other (List.mem_cons_of_mem _ member)⟩
  · rintro ⟨others, found, rfl, rfl, ⟨spine, distinct, short⟩, unvisited⟩
    have apart (other : Node) (member : other ∈ others) : node ≠ other ∧ visited.contains other = false := by
      simpa [Std.HashSet.contains_insert] using unvisited other member
    refine ⟨⟨.cons proper first next spine, List.nodup_cons.mpr ⟨fun member => (apart node member).1 rfl, distinct⟩,
      Nat.succ_le_succ short⟩, fun other member => ?_⟩
    rcases List.mem_cons.mp member with rfl | later
    · exact new
    · exact (apart other later).2

/-- Whether the row belongs to the list with these nodes. -/
def Belongs (store : TripleStore) (nodes : List Node) (row : Row) : Prop :=
  row ∈ store.liveRows ∧ row.triple.subject ∈ nodes ∧ row.triple.OfList

private theorem belongs_cons {store : TripleStore} {node : Node} {nodes : List Node} {row : Row} :
    Belongs store (node :: nodes) row ↔ Belongs store [node] row ∨ Belongs store nodes row := by
  simp only [Belongs, List.mem_cons, List.not_mem_nil, or_false, or_and_right, and_or_left]

/-- The triples of the list at a node are those that are looked up there. -/
private theorem belongs_single {store : TripleStore} (indexed : store.Indexed) {node : Node} {row : Row} :
    Belongs store [node] row ↔ row ∈ store.matching node Rdf.first ∨ row ∈ store.matching node Rdf.rest ∨
      row ∈ (store.withSubject node).filter fun row => isListType row.triple := by
  have own : row ∈ store.withSubject node ↔ row ∈ store.liveRows ∧ row.triple.subject = node := by
    simp [indexed.withSubject]
  simp only [Belongs, List.mem_singleton, Triple.OfList, TripleStore.matching, List.mem_filter, isListType,
    Bool.and_eq_true, Bool.or_eq_true, beq_iff_eq, ← and_or_left, own, and_assoc]

@[simp] private theorem belongs_consumeAll {store : TripleStore} {rows : List Row} {nodes : List Node} {row : Row} :
    Belongs (store.consumeAll rows) nodes row ↔ Belongs store nodes row := by
  rw [Belongs, TripleStore.liveRows_consumeAll, ← Belongs]

/-- What comes of reading on from a term: the elements of the list that starts there, after those read
before, with the triples of the list used; or a failure if no list starts there. -/
private def ReadsOn (room : Nat) (visited : Std.HashSet Node) (read : Array Term) (current : Term) (session : Session) : Prop :=
  (∃ nodes elements rows, Upcoming session.store.graph visited room current nodes elements ∧
    (∀ row, row ∈ rows ↔ Belongs session.store nodes row) ∧
    readListFrom head room visited read current context session = (.ok (read.toList ++ elements), session.consumeAll rows)) ∨
  ((¬ ∃ nodes elements, Upcoming session.store.graph visited room current nodes elements) ∧
    ∃ flaw, (readListFrom head room visited read current context session).1 = .error (.failed (.malformedList head flaw)))

private theorem readsOn_nil (room : Nat) (visited : Std.HashSet Node) (read : Array Term) (session : Session) :
    ReadsOn context head room visited read Rdf.nil session := by
  have done : readListFrom head room visited read Rdf.nil context session = (.ok read.toList, session) := by
    cases room <;> simp [readListFrom] <;> rfl
  refine .inl ⟨[], [], [], ⟨⟨.nil, List.nodup_nil, Nat.zero_le _⟩, by simp⟩, by simp [Belongs], ?_⟩
  rw [done, List.append_nil]
  rfl

private theorem readsOn_literal (room : Nat) (visited : Std.HashSet Node) (read : Array Term) (value : Literal)
    (session : Session) : ReadsOn context head room visited read value session := by
  refine .inr ⟨?_, .notANode value, ?_⟩
  · rintro ⟨nodes, elements, upcoming⟩
    cases upcoming.spine
  · cases room <;> rfl

private theorem readListFrom_node (room : Nat) {visited : Std.HashSet Node} (read : Array Term) {node : Node}
    (proper : node ≠ .named Rdf.nil) (new : visited.contains node = false) :
    readListFrom head (room + 1) visited read node = (do
      let first ← listStep head node Rdf.first
      let rest ← listStep head node Rdf.rest
      let session ← get
      consumeAll ((session.store.withSubject node).filter fun row => isListType row.triple)
      readListFrom head room (visited.insert node) (read.push first) rest) := by
  rw [readListFrom, if_neg (by simpa using proper)]
  simp only [Term.node?, new]
  rfl

/-- Reading a node that has one element and one rest uses the triples of the list at the node. -/
private theorem readListFrom_step (room : Nat) {visited : Std.HashSet Node} (read : Array Term) {node : Node}
    (indexed : session.store.Indexed) (proper : node ≠ .named Rdf.nil) (new : visited.contains node = false)
    {element rest : Term} (isElement : Single session.store.graph node Rdf.first element)
    (isRest : Single session.store.graph node Rdf.rest rest) :
    ∃ used, (∀ row, row ∈ used ↔ Belongs session.store [node] row) ∧
      readListFrom head (room + 1) visited read node context session =
        readListFrom head room (visited.insert node) (read.push element) rest context (session.consumeAll used) := by
  obtain ⟨first, isFirst, run⟩ := listStep_single context head indexed isElement
  rw [readListFrom_node head room read proper new, Run.bind_run run]
  have indexed_first : (session.consumeAll [first]).store.Indexed := TripleStore.indexed_consumeAll indexed [first]
  obtain ⟨next, isNext, run⟩ := listStep_single context head indexed_first
    ((session.store.graph_consumeAll [first]).symm ▸ isRest)
  have types : ((session.consumeAll [first]).consumeAll [next]).store.withSubject node = session.store.withSubject node :=
    (indexed_first.withSubject_consumeAll [next] node).trans (indexed.withSubject_consumeAll [first] node)
  rw [Run.bind_run run, Run.get_bind, types]
  refine ⟨[first] ++ [next] ++ (session.store.withSubject node).filter fun row => isListType row.triple, fun row => ?_, ?_⟩
  · have isNext : row = next ↔ row ∈ session.store.matching node Rdf.rest := by
      rw [← isNext, Session.consumeAll, indexed.matching_consumeAll]
    rw [List.mem_append, List.mem_append, List.mem_singleton, List.mem_singleton, ← isFirst, isNext, or_assoc,
      belongs_single indexed]
  · rw [Session.consumeAll_append, Session.consumeAll_append]
    rfl

/-- A node that has no element or no rest, or several, is the start of no list, and reading it fails. -/
private theorem readListFrom_stuck (room : Nat) {visited : Std.HashSet Node} (read : Array Term) {node : Node}
    (indexed : session.store.Indexed) (proper : node ≠ .named Rdf.nil) (new : visited.contains node = false)
    (lacks : ¬ ∃ element rest, Single session.store.graph node Rdf.first element ∧
      Single session.store.graph node Rdf.rest rest) :
    ∃ flaw, (readListFrom head (room + 1) visited read node context session).1 =
      .error (.failed (.malformedList head flaw)) := by
  rw [readListFrom_node head room read proper new]
  by_cases told : ∃ element, Single session.store.graph node Rdf.first element
  · obtain ⟨element, isElement⟩ := told
    obtain ⟨first, -, run⟩ := listStep_single context head indexed isElement
    have restless (rest : Term) : ¬ Single (session.consumeAll [first]).store.graph node Rdf.rest rest := fun isRest =>
      lacks ⟨element, rest, isElement, session.store.graph_consumeAll [first] ▸ isRest⟩
    obtain ⟨flaw, failed⟩ := listStep_flawed context head
      (TripleStore.indexed_consumeAll indexed [first]) restless
    exact ⟨flaw, by rw [Run.bind_run run, Run.bind_error failed]⟩
  · obtain ⟨flaw, failed⟩ := listStep_flawed context head indexed (not_exists.mp told)
    exact ⟨flaw, by rw [Run.bind_error failed]⟩

/-- A node that was visited, or one for which there is no room, is the start of no list that is ahead. -/
private theorem readsOn_refused {room : Nat} {visited : Std.HashSet Node} (read : Array Term) {node : Node}
    (proper : node ≠ .named Rdf.nil) (refused : visited.contains node = true ∨ room = 0) (session : Session) :
    ReadsOn context head room visited read node session := by
  refine .inr ⟨?_, ?_⟩
  · rintro ⟨nodes, elements, upcoming⟩
    have member : node ∈ nodes := by
      obtain ⟨_, _, _, _, rfl, -⟩ := upcoming.spine.exists_of_node proper
      exact List.mem_cons_self
    rcases refused with seen | rfl
    · rw [upcoming.unvisited node member] at seen
      cases seen
    · exact Nat.not_succ_le_zero _ (Nat.le_trans (List.length_pos_of_mem member) upcoming.short)
  · cases seen : visited.contains node with
    | true => 
      cases room <;> (rw [readListFrom, if_neg (by simpa using proper)]; simp only [Term.node?, seen]; exact ⟨_, rfl⟩)
    | false =>
      obtain rfl : room = 0 := refused.resolve_left (by simp [seen])
      rw [readListFrom, if_neg (by simpa using proper)]
      simp only [Term.node?, seen]
      exact ⟨_, rfl⟩

/-- By recursion on the room that is left: reading a node leaves one place less for its rest. -/
private theorem readsOn (room : Nat) (visited : Std.HashSet Node) (read : Array Term) (current : Term)
    (session : Session) (indexed : session.store.Indexed) : ReadsOn context head room visited read current session := by
  rcases current with node | value
  case literal => exact readsOn_literal context head room visited read value session
  by_cases proper : node = .named Rdf.nil
  · exact proper ▸ readsOn_nil context head room visited read session
  cases new : visited.contains node
  case true => exact readsOn_refused context head read proper (.inl new) session
  cases room with
  | zero => exact readsOn_refused context head read proper (.inr rfl) session
  | succ room =>
    by_cases links : ∃ element rest, Single session.store.graph node Rdf.first element ∧
      Single session.store.graph node Rdf.rest rest
    case neg =>
      refine .inr ⟨?_, readListFrom_stuck context head room read indexed proper new links⟩
      rintro ⟨nodes, elements, upcoming⟩
      obtain ⟨element, rest, -, -, -, -, isElement, isRest, -⟩ := upcoming.spine.exists_of_node proper
      exact links ⟨element, rest, isElement, isRest⟩
    obtain ⟨element, rest, isElement, isRest⟩ := links
    obtain ⟨used, own, step⟩ := readListFrom_step context head room read indexed proper new isElement isRest
    have later := readsOn room (visited.insert node) (read.push element) rest (session.consumeAll used)
      (TripleStore.indexed_consumeAll indexed used)
    simp only [ReadsOn, Session.store_consumeAll, TripleStore.graph_consumeAll, belongs_consumeAll] at later
    rw [ReadsOn, step]
    rcases later with ⟨nodes, elements, rows, upcoming, belongs, run⟩ | ⟨none, flaw, run⟩
    · refine .inl ⟨node :: nodes, element :: elements, used ++ rows,
        (upcoming_node proper new isElement isRest).mpr ⟨nodes, elements, rfl, rfl, upcoming⟩, fun row => ?_, ?_⟩
      · rw [List.mem_append, own, belongs, ← belongs_cons]
      · rw [run, Session.consumeAll_append, Array.toList_push, List.append_assoc, List.singleton_append]
    · refine .inr ⟨?_, flaw, run⟩
      rintro ⟨nodes, elements, upcoming⟩
      obtain ⟨others, found, -, -, upcoming⟩ := (upcoming_node proper new isElement isRest).mp upcoming
      exact none ⟨others, found, upcoming⟩

/-- Reading a term finds a list that starts there, or there is none. -/
theorem readList_cases (indexed : session.store.Indexed) :
    (∃ nodes elements rows, IsList session.store.graph context.config.maxListLength head nodes elements ∧
      (∀ row, row ∈ rows ↔ Belongs session.store nodes row) ∧
      readList head context session = (.ok elements, session.consumeAll rows)) ∨
    ((¬ ∃ nodes elements, IsList session.store.graph context.config.maxListLength head nodes elements) ∧
      ∃ flaw, (readList head context session).1 = .error (.failed (.malformedList head flaw))) := by
  rcases readsOn context head context.config.maxListLength ∅ #[] head session indexed with
    ⟨nodes, elements, rows, upcoming, belongs, run⟩ | ⟨none, flaw, run⟩
  · exact .inl ⟨nodes, elements, rows, upcoming.toIsList, belongs, run⟩
  · exact .inr ⟨fun ⟨nodes, elements, list⟩ => none ⟨nodes, elements, list, by simp⟩, flaw, run⟩

/-- Lists are read exactly. A reading gives the elements of the list that starts at the term, and uses,
besides what was used before, the triples of the list at its nodes; it changes nothing else. Where no
list starts, it fails for that reason. -/
theorem readList_exact (context : Context) (session : Session) (indexed : session.store.Indexed) (head : Term) :
    let graph := session.store.graph
    let limit := context.config.maxListLength
    let outcome := readList head context session
    (∀ elements, outcome.1 = .ok elements ↔ ∃ nodes, IsList graph limit head nodes elements) ∧
    (∀ nodes elements, IsList graph limit head nodes elements →
      (∃ rows, outcome.2 = session.consumeAll rows) ∧
      ∀ id, outcome.2.store.isConsumed id = true ↔ session.store.isConsumed id = true ∨
        ∃ row ∈ session.store.liveRows, row.id = id ∧ row.triple.subject ∈ nodes ∧ row.triple.OfList) ∧
    ((¬ ∃ nodes elements, IsList graph limit head nodes elements) →
      ∃ flaw, outcome.1 = .error (.failed (.malformedList head flaw))) := by
  intro graph limit outcome
  rcases readList_cases context head indexed with
    ⟨nodes, elements, rows, list, belongs, run⟩ | ⟨none, flaw, run⟩
  · have ended : outcome = (.ok elements, session.consumeAll rows) := run
    rw [ended]
    refine ⟨fun found => ⟨?_, ?_⟩, fun others found also => ⟨⟨rows, rfl⟩, fun id => ?_⟩,
      fun none => absurd ⟨nodes, elements, list⟩ none⟩
    · rintro ⟨⟩
      exact ⟨nodes, list⟩
    · rintro ⟨others, also⟩
      rw [(list.spine.unique also.spine).2]
    · rw [Session.store_consumeAll, TripleStore.isConsumed_consumeAll_iff fun row member => ((belongs row).mp member).1,
        ← (list.spine.unique also.spine).1]
      simp only [belongs, Belongs]
      refine or_congr_right (exists_congr fun row => ?_)
      rw [and_assoc, and_comm (b := row.id = id)]
  · have ended : outcome.1 = .error (.failed (.malformedList head flaw)) := run
    rw [ended]
    exact ⟨fun found => ⟨nofun, fun ⟨nodes, list⟩ => absurd ⟨nodes, found, list⟩ none⟩,
      fun nodes elements list => absurd ⟨nodes, elements, list⟩ none, fun _ => ⟨flaw, rfl⟩⟩

namespace Samples

def listNode : Node := .named ⟨"http://example.com/list"⟩

def ringNode : Node := .named ⟨"http://example.com/ring"⟩

def member : Term := .literal (.simple "member")

/-- A list of one element, with its type and a comment, and a node that is its own rest. -/
def listAndRing : List Triple :=
  [⟨listNode, Rdf.first, member⟩, ⟨listNode, Rdf.rest, Rdf.nil⟩, ⟨listNode, Rdf.type, Rdf.List⟩,
    ⟨listNode, Rdfs.comment, member⟩, ⟨ringNode, Rdf.first, member⟩, ⟨ringNode, Rdf.rest, ringNode⟩]

theorem single_listAndRing (node : Node) (predicate : Iri) (object : Term)
    (told : ∀ triple ∈ listAndRing, triple.subject = node → triple.predicate = predicate → triple.object = object)
    (given : ⟨node, predicate, object⟩ ∈ listAndRing) :
    Single (TripleStore.ofTriples listAndRing).graph node predicate object := by
  intro other
  rw [TripleStore.graph, TripleStore.mem_rows_ofTriples]
  exact ⟨fun present => told _ present rfl rfl, fun same => same ▸ given⟩

end Samples

/-- The list is read for its one element, and its comment is left unused; the node that is its own
rest starts no list. -/
theorem readList_exact_ring :
    let context : Context := ⟨{}, 0, false⟩
    let session : Session := { store := .ofTriples Samples.listAndRing }
    session.store.Indexed ∧
    (readList Samples.listNode context session).1 = .ok [Samples.member] ∧
    (∀ id, (readList Samples.listNode context session).2.store.isConsumed id = true ↔
      ∃ row ∈ session.store.liveRows, row.id = id ∧ row.triple.subject = Samples.listNode ∧ row.triple.OfList) ∧
    ∃ flaw, (readList Samples.ringNode context session).1 = .error (.failed (.malformedList Samples.ringNode flaw)) := by
  intro context session
  have indexed : session.store.Indexed := TripleStore.indexed_ofTriples _
  have list : IsList session.store.graph context.config.maxListLength Samples.listNode [Samples.listNode] [Samples.member] := by
    refine ⟨.cons (by decide) (Samples.single_listAndRing _ _ _ (by decide) (by decide))
      (Samples.single_listAndRing _ _ Rdf.nil (by decide) (by decide)) .nil, List.nodup_singleton _, by decide⟩
  have ring : ¬ ∃ nodes elements, IsList session.store.graph context.config.maxListLength Samples.ringNode nodes elements := by
    rintro ⟨nodes, elements, spine, distinct, -⟩
    have again : Single session.store.graph Samples.ringNode Rdf.rest Samples.ringNode :=
      Samples.single_listAndRing _ _ _ (by decide) (by decide)
    have proper : Samples.ringNode ≠ .named Rdf.nil := by decide
    obtain ⟨_, _, others, _, rfl, -, -, next, later⟩ := spine.exists_of_node proper
    cases next.unique again
    obtain ⟨_, _, _, _, rfl, -⟩ := later.exists_of_node proper
    simp at distinct
  obtain ⟨finds, uses, -⟩ := readList_exact context session indexed Samples.listNode
  obtain ⟨-, -, fails⟩ := readList_exact context session indexed Samples.ringNode
  refine ⟨indexed, (finds _).mpr ⟨_, list⟩, fun id => ?_, fails ring⟩
  rw [(uses _ _ list).2 id, TripleStore.unused_ofTriples]
  simp only [Bool.false_eq_true, false_or, List.mem_singleton]

end Translation

end OwlGraph
