import OwlGraph.Proofs.Description
import OwlGraph.Proofs.Reading
import OwlGraph.Proofs.Roles
import OwlGraph.Translation.Pattern

/-! Reading the node of a construct. Where a graph describes a node, its view shows just the
values of the construct. Which pattern the node fits then hangs on the predicates alone, and
every value is read as it was written. -/

namespace OwlGraph

/-- The view has these values and no others. -/
structure NodeView.Shows (view : NodeView) (values : List (Iri × Term)) : Prop where
  one : ∀ predicate object, (predicate, object) ∈ values → view.objects predicate = [object]
  only : ∀ triple ∈ view.triples, (triple.predicate, triple.object) ∈ values

namespace NodeView

variable {view : NodeView} {values : List (Iri × Term)}

theorem mem_objects {predicate : Iri} {object : Term} :
    object ∈ view.objects predicate ↔ ∃ triple ∈ view.triples, triple.predicate = predicate ∧ triple.object = object := by
  simp [objects, and_assoc]

theorem Shows.objects_eq_nil (shows : view.Shows values) {predicate : Iri}
    (absent : predicate ∉ values.map Prod.fst) : view.objects predicate = [] := by
  refine List.eq_nil_iff_forall_not_mem.mpr fun object member => absent ?_
  obtain ⟨triple, present, rfl, rfl⟩ := mem_objects.mp member
  exact List.mem_map.mpr ⟨_, shows.only triple present, rfl⟩

theorem Shows.has (shows : view.Shows values) {predicate : Iri} :
    view.has predicate = (values.map Prod.fst).contains predicate := by
  by_cases present : predicate ∈ values.map Prod.fst
  · obtain ⟨value, member, rfl⟩ := List.mem_map.mp present
    have kept : (values.map Prod.fst).contains value.1 = true := by simpa using ⟨value.2, member⟩
    rw [NodeView.has, shows.one value.1 value.2 member, kept]
    rfl
  · have missing : (values.map Prod.fst).contains predicate = false := by simpa using present
    rw [NodeView.has, shows.objects_eq_nil present, missing]
    rfl

theorem Shows.count (shows : view.Shows values) (predicate : Iri) :
    (view.count predicate == 1) = (values.map Prod.fst).contains predicate := by
  rw [← shows.has, NodeView.has, NodeView.count]
  by_cases present : predicate ∈ values.map Prod.fst
  · obtain ⟨value, member, rfl⟩ := List.mem_map.mp present
    rw [shows.one value.1 value.2 member]
    rfl
  · rw [shows.objects_eq_nil present]
    rfl

theorem Shows.first? (shows : view.Shows values) {predicate : Iri} {object : Term}
    (member : (predicate, object) ∈ values) : view.first? predicate = some object := by
  rw [NodeView.first?, shows.one predicate object member]
  rfl

theorem Shows.first?_eq_none (shows : view.Shows values) {predicate : Iri}
    (absent : predicate ∉ values.map Prod.fst) : view.first? predicate = none := by
  rw [NodeView.first?, shows.objects_eq_nil absent]
  rfl

theorem Shows.types (shows : view.Shows values) {type : Iri} (member : (Rdf.type, (type : Term)) ∈ values) :
    view.types = [type] := by
  rw [NodeView.types, shows.one _ _ member]
  rfl

theorem Shows.withKind (shows : view.Shows values) (kind : Option PropertyKind) :
    ({ view with propertyKind := kind } : NodeView).Shows values := ⟨shows.one, shows.only⟩

end NodeView

/-- Whether a node of the type with values for these predicates fits the pattern. -/
def Pattern.suits (pattern : Pattern) (type : Iri) (keys : List Iri) (kind : Option PropertyKind) : Bool :=
  type == pattern.type && (pattern.kind.isNone || pattern.kind == kind) && pattern.alternatives.any fun predicates =>
    predicates.all keys.contains && keys.all fun key => key == Rdf.type || predicates.contains key

theorem Pattern.fits_eq_suits (pattern : Pattern) {view : NodeView} {values : List (Iri × Term)} {type : Iri}
    (shows : view.Shows values) (typed : (Rdf.type, (type : Term)) ∈ values) :
    pattern.fits view = pattern.suits type (values.map Prod.fst) view.propertyKind := by
  have counted : (values.map Prod.fst).contains Rdf.type = true := by simpa using ⟨_, typed⟩
  have covers : ∀ predicates : List Iri, (view.triples.all fun triple =>
      triple.predicate == Rdf.type || predicates.contains triple.predicate) =
        (values.map Prod.fst).all fun key => key == Rdf.type || predicates.contains key := by
    intro predicates
    rw [Bool.eq_iff_iff, List.all_eq_true, List.all_eq_true]
    constructor
    · intro all key member
      obtain ⟨value, present, rfl⟩ := List.mem_map.mp member
      have shown : value.2 ∈ view.objects value.1 := by rw [shows.one _ _ present]; exact List.mem_singleton_self _
      obtain ⟨triple, inside, same, -⟩ := NodeView.mem_objects.mp shown
      rw [← same]
      exact all triple inside
    · intro all triple member
      exact all _ (List.mem_map.mpr ⟨_, shows.only triple member, rfl⟩)
  rw [fits, suits, shows.types typed, shows.count, counted, fitsKind]
  simp only [shows.count, covers, Bool.and_true]
  congr 2
  simp

namespace World

variable {world : World}

/-- The triples of a node that describe it, as every session of the world sees them. -/
def view (world : World) (node : Node) : NodeView :=
  ⟨node, world.rows.filter fun row => row.triple.subject == node &&
    !Role.classAxiomPredicates.contains row.triple.predicate, none⟩

theorem Holds.view {session : Session} (holds : world.Holds session) (node : Node) :
    session.view node = world.view node := by
  rw [Session.view, World.view, holds.withSubject, List.filter_filter]
  congr 2
  funext row
  exact Bool.and_comm _ _

theorem mem_view_triples {node : Node} {triple : Triple} : triple ∈ (world.view node).triples ↔
    triple ∈ world.graph ∧ triple.subject = node ∧ triple.predicate ∉ Role.classAxiomPredicates := by
  simp only [NodeView.triples, World.view, World.graph, List.mem_map, List.mem_filter, Bool.and_eq_true,
    beq_iff_eq, Bool.not_eq_true', List.contains_eq_mem, decide_eq_false_iff_not]
  constructor
  · rintro ⟨row, ⟨member, own, free⟩, rfl⟩
    exact ⟨⟨row, member, rfl⟩, own, free⟩
  · rintro ⟨⟨row, member, rfl⟩, own, free⟩
    exact ⟨row, ⟨member, own, free⟩, rfl⟩

theorem view_rows_subset {node : Node} : ∀ row ∈ (world.view node).rows, row ∈ world.rows :=
  fun _ member => (List.mem_filter.mp member).1

/-- The objects of one predicate, if the graph has just one such triple. -/
theorem Holds.objects_view {session : Session} (holds : world.Holds session) {node : Node} {predicate : Iri}
    {object : Term} (free : predicate ∉ Role.classAxiomPredicates)
    (single : ∀ other : Term, (⟨node, predicate, other⟩ : Triple) ∈ world.graph ↔ other = object) :
    (world.view node).objects predicate = [object] := by
  have distinct : ((world.view node).objects predicate).Nodup := by
    refine List.Nodup.map_on ?_ ((holds.nodup_filter _).filter _)
    intro first inside second present same
    have own := (mem_view_triples.mp (List.mem_filter.mp inside).1).2.1
    have also := (mem_view_triples.mp (List.mem_filter.mp present).1).2.1
    have key := (List.mem_filter.mp inside).2
    have key' := (List.mem_filter.mp present).2
    simp only [beq_iff_eq] at key key'
    cases first
    cases second
    simp_all
  have members : ∀ other, other ∈ (world.view node).objects predicate ↔ other = object := by
    intro other
    rw [NodeView.mem_objects]
    constructor
    · rintro ⟨triple, present, rfl, rfl⟩
      obtain ⟨member, rfl, -⟩ := mem_view_triples.mp present
      exact (single _).mp member
    · rintro rfl
      exact ⟨_, mem_view_triples.mpr ⟨(single other).mpr rfl, rfl, free⟩, rfl, rfl⟩
  match shape : (world.view node).objects predicate with
  | [] => exact absurd ((members object).mpr rfl) (by simp [shape])
  | [other] => rw [(members other).mp (by simp [shape])]
  | first :: second :: rest =>
    have one := (members first).mp (by simp [shape])
    have two := (members second).mp (by simp [shape])
    rw [shape, one, two] at distinct
    simp at distinct

theorem shows_of_carries {session : Session} (holds : world.Holds session) {node : BlankNode}
    {values : List (Iri × Term)} (carries : Carries world.graph node values)
    (distinct : (values.map Prod.fst).Nodup) : (world.view node).Shows values := by
  constructor
  · intro predicate object member
    have free := ((carries predicate object).mpr member).2
    refine holds.objects_view free fun other => ⟨fun present => ?_, ?_⟩
    · have also := (carries predicate other).mp ⟨present, free⟩
      exact congrArg Prod.snd (List.inj_on_of_nodup_map distinct also member rfl)
    · rintro rfl
      exact ((carries predicate other).mpr member).1
  · intro triple member
    obtain ⟨present, own, free⟩ := mem_view_triples.mp member
    obtain ⟨subject, predicate, object⟩ := triple
    subst own
    exact (carries predicate object).mp ⟨present, free⟩

theorem mem_view_of_carries {node : BlankNode} {values : List (Iri × Term)}
    (carries : Carries world.graph node values) (triple : Triple) :
    triple ∈ (world.view node).triples ↔ triple ∈ triplesAt node values := by
  obtain ⟨subject, predicate, object⟩ := triple
  rw [mem_view_triples, triplesAt, List.mem_map]
  constructor
  · rintro ⟨present, rfl, free⟩
    exact ⟨(predicate, object), (carries predicate object).mp ⟨present, free⟩, rfl⟩
  · rintro ⟨value, member, same⟩
    cases same
    exact ⟨((carries _ _).mpr member).1, rfl, ((carries _ _).mpr member).2⟩

section Readings

variable {α Form : Type} {values : List (Iri × Term)}

theorem Yields.value {view : NodeView} {predicate : Iri} {object : Term}
    (single : view.objects predicate = [object]) : world.Yields (Translation.value view predicate) object [] [] := by
  rw [Translation.value, single]
  exact Yields.pure object

theorem Yields.singleObject {node : Node} {predicate : Iri} {object : Term}
    (free : predicate ∉ Role.classAxiomPredicates)
    (single : ∀ other : Term, (⟨node, predicate, other⟩ : Triple) ∈ world.graph ↔ other = object) :
    world.Yields (Translation.singleObject node predicate) object [] [⟨node, predicate, object⟩] := by
  refine Yields.get fun session holds => ?_
  rw [holds.view]
  refine (((Yields.value (holds.objects_view free single)).look
    ((Yields.consumeAll fun row member => view_rows_subset row (List.mem_filter.mp member).1).step
      (Yields.pure object))).weaken (fun _ member => member) fun triple => ?_) session holds
  rw [List.append_nil, List.mem_map]
  constructor
  · rintro ⟨row, member, rfl⟩
    obtain ⟨inside, same⟩ := List.mem_filter.mp member
    have present := mem_view_triples.mp (List.mem_map_of_mem (f := Row.triple) inside)
    have key : row.triple.predicate = predicate := by simpa using same
    obtain ⟨listed, own, -⟩ := present
    obtain ⟨id, ⟨subject, key, value⟩⟩ := row
    subst own
    subst key
    simp [(single value).mp listed]
  · intro member
    rw [List.mem_singleton] at member
    subst member
    obtain ⟨row, inside, same⟩ := List.mem_map.mp
      (mem_view_triples.mpr ⟨(single object).mpr rfl, rfl, free⟩ : _ ∈ (world.view node).triples)
    exact ⟨row, List.mem_filter.mpr ⟨inside, by simp [same]⟩, same⟩

/-- The form that the predicates of the node select is read, and its triples are used. -/
theorem Yields.dispatch {family : Family Form} {view : NodeView} {form : Form} {readForm : Form → Translation α}
    {value : α} {visited parts : List Triple}
    (selected : family.forms.find? (fun form => (family.pattern form).fits view) = some form)
    (reads : world.Yields (readForm form) value visited parts) (inside : ∀ row ∈ view.rows, row ∈ world.rows) :
    world.Yields (Translation.dispatch family view readForm) value visited (parts ++ view.triples) := by
  have select : world.Yields (Translation.selectForm family view) form [] [] := by
    rw [Translation.selectForm, selected]
    exact Yields.pure form
  refine (select.look (reads.bind ((Yields.consumeAll inside).step (Yields.pure value)))).weaken ?_ ?_
  · simp
  · simp [NodeView.triples]

end Readings

end World

end OwlGraph
