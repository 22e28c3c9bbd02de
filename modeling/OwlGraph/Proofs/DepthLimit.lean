import Mathlib.Logic.Function.Iterate
import OwlGraph.Proofs.LoadSteps

/-! The limits on the depth of nesting never show. A node is not entered twice on one way down, and
only nodes that triples are about are gone into, so no way down is longer than the graph has
triples. So a reading that is unfolded as often does not come to what stands at the end. -/

namespace OwlGraph

namespace Setting

open Translation

variable {setting : Setting} {visiting : List Node} {α β Form : Type}

/-- The triples of the graph. -/
def triples (setting : Setting) : List Triple := setting.rows.map Row.triple

theorem usable_all {row : Row} (member : row ∈ setting.rows) : setting.Usable setting.triples row :=
  ⟨member, .inr (List.mem_map_of_mem member)⟩

theorem open_all (node : Node) : setting.Open setting.triples node := fun _ member _ => usable_all member

/-- A reading changes neither the graph nor the nodes being read. -/
theorem Reads.returns {body : Translation α} (reads : setting.Reads setting.triples body) (context : Context) {session : Session}
    (holds : setting.Holds session) :
    setting.Holds (body context session).2 ∧ (body context session).2.visiting = session.visiting := by
  obtain ⟨used, noted, kinds, kindsChanged, same, -⟩ := reads context session holds
  rw [same]
  exact ⟨holds.reading used noted kinds kindsChanged, rfl⟩

/-- The nodes that triples are about and that are not being read. -/
def ahead (setting : Setting) (visiting : List Node) : List Node :=
  (setting.rows.map fun row => row.triple.subject).filter fun node => !visiting.contains node

theorem length_ahead_le (setting : Setting) (visiting : List Node) : (setting.ahead visiting).length ≤ setting.rows.length := by
  have all : (setting.rows.map fun row => row.triple.subject).length = setting.rows.length := List.length_map _
  exact all ▸ List.length_filter_le _ _

/-- There are fewer nodes ahead when one of them is entered. -/
theorem length_ahead_cons {node : Node} (subject : ∃ row ∈ setting.rows, row.triple.subject = node) (fresh : node ∉ visiting) :
    (setting.ahead (node :: visiting)).length < (setting.ahead visiting).length := by
  have rest : setting.ahead (node :: visiting) = (setting.ahead visiting).filter (· != node) := by
    rw [ahead, ahead, List.filter_filter]
    congr 1
    funext other
    rw [List.contains_cons, Bool.not_or]
    rfl
  rw [rest, List.length_filter_lt_length_iff_exists]
  obtain ⟨row, member, rfl⟩ := subject
  refine ⟨row.triple.subject, ?_, by simp⟩
  rw [ahead, List.mem_filter]
  exact ⟨List.mem_map_of_mem member, by simpa using fresh⟩

/-- The computations do the same in sessions that show the setting and read these nodes. -/
def Alike (setting : Setting) (visiting : List Node) (body other : Translation α) : Prop :=
  ∀ context session, setting.Holds session → session.visiting = visiting → body context session = other context session

/-- A node without triples fits no form. -/
theorem selectForm_bare {family : Family Form} {view : NodeView} (anchored : Anchored family) (bare : view.rows = []) :
    selectForm family view =
      fail (.noPattern view.node family.name (family.forms.map fun form => (family.pattern form).name) view.triples) := by
  have lacks (predicate : Iri) : view.objects predicate = [] := by
    rw [NodeView.objects, NodeView.triples, bare]
    rfl
  have unfit (form : Form) : (family.pattern form).fits view = false := by
    rw [Pattern.fits, NodeView.types, lacks]
    rfl
  have unfitting (form : Form) : (family.pattern form).fitsLeniently view = false := by
    rw [Pattern.fitsLeniently, Bool.and_eq_false_iff, List.any_eq_false]
    right
    intro predicates chosen all
    obtain ⟨predicate, member, -⟩ := anchored form predicates chosen
    have present := List.all_eq_true.mp all predicate member
    rw [NodeView.has, lacks] at present
    cases present
  rw [selectForm]
  simp only [unfit, unfitting, List.find?_eq_none.mpr, Bool.false_eq_true, not_false_eq_true, implies_true, List.filter_false]

theorem reads_selectForm (family : Family Form) (view : NodeView) : setting.Reads setting.triples (selectForm family view) := by
  unfold selectForm
  split
  · exact .pure _
  · split
    · exact reads_fail _ rfl
    · exact (reads_recover _ rfl).bind fun _ => .pure _

namespace Alike

theorem refl (body : Translation α) : setting.Alike visiting body body := fun _ _ _ _ => rfl

theorem bind {body other : Translation α} {next more : α → Translation β} (first : setting.Alike visiting body other)
    (reads : setting.Reads setting.triples body) (rest : ∀ value, setting.Alike visiting (next value) (more value)) :
    setting.Alike visiting (body >>= next) (other >>= more) := by
  intro context session holds inside
  rw [Run.bind_eq, Run.bind_eq, ← first context session holds inside]
  obtain ⟨later, still⟩ := reads.returns context holds
  split
  · exact rest _ context _ later (still.trans inside)
  · rfl

/-- What follows the same computation. -/
theorem next {body : Translation α} {next more : α → Translation β} (reads : setting.Reads setting.triples body)
    (rest : ∀ value, setting.Alike visiting (next value) (more value)) :
    setting.Alike visiting (body >>= next) (body >>= more) := (refl body).bind reads rest

theorem look {next more : Session → Translation α} (rest : ∀ session, setting.Holds session →
    setting.Alike visiting (next session) (more session)) :
    setting.Alike visiting (MonadState.get >>= next) (MonadState.get >>= more) :=
  fun context session holds inside => rest session holds context session holds inside

theorem nested {body other : Translation α} {node : Node}
    (inner : node ∉ visiting → setting.Alike (node :: visiting) body other) :
    setting.Alike visiting (Translation.nested node body) (Translation.nested node other) := by
  intro context session holds inside
  rw [Translation.nested, Translation.nested]
  split
  · rfl
  · rename_i fresh
    rw [inside, List.contains_iff_mem] at fresh
    rw [inner fresh context _ (holds.visit _) (congrArg (node :: ·) inside)]

theorem mapM {act other : α → Translation β} (items : List α) (reads : ∀ item ∈ items, setting.Reads setting.triples (act item))
    (each : ∀ item ∈ items, setting.Alike visiting (act item) (other item)) :
    setting.Alike visiting (items.mapM act) (items.mapM other) := by
  induction items with
  | nil => exact .refl _
  | cons item rest ih =>
    rw [List.mapM_cons, List.mapM_cons]
    have later (other : α) (member : other ∈ rest) := reads other (List.mem_cons_of_mem _ member)
    refine (each item List.mem_cons_self).bind (reads item List.mem_cons_self) fun value => ?_
    exact (ih later fun other member => each other (List.mem_cons_of_mem _ member)).bind (.mapM rest later) fun _ => .refl _

/-- The form of a node that has one is what decides how it is read. -/
theorem dispatch {family : Family Form} {view : NodeView} {readForm other : Form → Translation α} (anchored : Anchored family)
    (each : view.rows ≠ [] → ∀ form, setting.Alike visiting (readForm form) (other form))
    (reads : ∀ form, setting.Reads setting.triples (readForm form)) :
    setting.Alike visiting (Translation.dispatch family view readForm) (Translation.dispatch family view other) := by
  by_cases bare : view.rows = []
  · rw [Translation.dispatch, Translation.dispatch, selectForm_bare anchored bare]
    exact fun _ _ _ _ => rfl
  · exact .next (reads_selectForm family view) fun form => (each bare form).bind (reads form) fun _ => .refl _

end Alike

end Setting

namespace Translation

open Setting

variable {setting : Setting} {visiting : List Node} {α : Type}

section DataRanges

theorem alike_readDataRange {inner other : Term → Translation DataRange} (reads : ∀ term, setting.Reads setting.triples (inner term))
    (each : ∀ term, setting.Alike visiting (inner term) (other term)) (view : NodeView) (form : DataRangeForm) :
    setting.Alike visiting (readDataRange inner view form) (readDataRange other view form) := by
  cases form with
  | combination junction =>
    exact .next (reads_value _ _) fun head => .next (reads_operands head) fun elements =>
      (Alike.mapM elements (fun term _ => reads term) fun term _ => each term).bind (.mapM _ fun term _ => reads term)
        fun _ => .refl _
  | complement => exact .next (reads_value _ _) fun object => (each object).bind (reads object) fun _ => .refl _
  | oneOf | restriction => exact .refl _

/-- The reading of a data range, given that of its parts. -/
def dataRangeStep (inner : Term → Translation DataRange) : Term → Translation DataRange
  | .resource (.named iri) => do
    learn iri .datatype
    return .datatype iri
  | .literal value => unexpected .dataRange value
  | .resource (.blank node) => nested node do
    let view := (← get).view node
    dispatch DataRangeForm.family view (readDataRange inner view)

theorem dataRangeWithin_succ (depth : Nat) : dataRangeWithin (depth + 1) = dataRangeStep (dataRangeWithin depth) := by
  funext term
  rcases term with (iri | node) | value <;> rw [dataRangeWithin, dataRangeStep]

/-- Whatever stands at the end of a reading that leaves room for the nodes ahead is not come to. -/
theorem alike_dataRangeStep (inner : Term → Translation DataRange) (depth : Nat) : ∀ (limit : Nat) (visiting : List Node)
    (term : Term), (setting.ahead visiting).length < depth → (setting.ahead visiting).length < limit →
      setting.Alike visiting (dataRangeWithin depth term) (dataRangeStep^[limit] inner term) := by
  induction depth with
  | zero =>
    intro limit visiting term enough
    cases enough
  | succ depth ih =>
    intro limit visiting term enough further
    obtain ⟨limit, rfl⟩ := Nat.exists_eq_add_one_of_ne_zero (Nat.ne_zero_of_lt further)
    rw [dataRangeWithin_succ, Function.iterate_succ_apply']
    rcases term with (iri | node) | value
    · exact .refl _
    · rw [dataRangeStep, dataRangeStep]
      apply Alike.nested
      intro fresh
      apply Alike.look
      intro session holds
      apply Alike.dispatch anchored_dataRange
      · intro some form
        obtain ⟨row, member⟩ := List.exists_mem_of_ne_nil _ some
        have subject := holds.mem_view.mp member
        have fewer := length_ahead_cons ⟨row, subject.1, subject.2.1⟩ fresh
        apply alike_readDataRange (reads_dataRangeWithin depth _)
        intro term
        exact ih limit _ term (by omega) (by omega)
      · exact reads_readDataRange (reads_dataRangeWithin depth _) _
    · exact .refl _

end DataRanges

section ClassExpressions

theorem alike_boundOf {filler other : Term → Translation α} (reads : ∀ term, setting.Reads setting.triples (filler term))
    (each : ∀ term, setting.Alike visiting (filler term) (other term)) (view : NodeView) (bound : Bound) (predicate : Iri) :
    setting.Alike visiting (boundOf view bound predicate filler) (boundOf view bound predicate other) := by
  unfold boundOf
  split
  · exact .next (reads_value _ _) fun number => .next (reads_cardinality number) fun _ =>
      .next (reads_value _ _) fun object => (each object).bind (reads object) fun _ => .refl _
  · exact .refl _

theorem alike_readClassExpression {inner other : Term → Translation ClassExpression}
    (reads : ∀ term, setting.Reads setting.triples (inner term))
    (each : ∀ term, setting.Alike visiting (inner term) (other term)) (view : NodeView) (form : ClassForm) :
    setting.Alike visiting (readClassExpression inner view form) (readClassExpression other view form) := by
  cases form with
  | combination junction =>
    exact .next (reads_value _ _) fun head => .next (reads_operands head) fun elements =>
      (Alike.mapM elements (fun term _ => reads term) fun term _ => each term).bind (.mapM _ fun term _ => reads term)
        fun _ => .refl _
  | complement => exact .next (reads_value _ _) fun object => (each object).bind (reads object) fun _ => .refl _
  | objectValues quantifier =>
    exact .next (reads_value _ _) fun object => .next (reads_propertyExpression object) fun _ =>
      .next (reads_value _ _) fun filler => (each filler).bind (reads filler) fun _ => .refl _
  | objectCardinality bound =>
    exact .next (reads_value _ _) fun object => .next (reads_propertyExpression object) fun _ =>
      (alike_boundOf reads each view bound _).bind (reads_boundOf view bound _ reads) fun _ => .refl _
  | oneOf | objectHasValue | hasSelf | dataValues _ | dataHasValue | dataCardinality _ => exact .refl _

/-- The reading of a class expression, given that of its parts. -/
def classExpressionStep (inner : Term → Translation ClassExpression) : Term → Translation ClassExpression
  | .resource (.named iri) => do
    learn iri .cls
    return .named iri
  | .literal value => unexpected .classExpression value
  | .resource (.blank node) => nested node do
    let plain := (← get).view node
    let view := { plain with propertyKind := ← restrictionKind plain }
    dispatch ClassForm.family view (readClassExpression inner view)

theorem classExpressionWithin_succ (depth : Nat) :
    classExpressionWithin (depth + 1) = classExpressionStep (classExpressionWithin depth) := by
  funext term
  rcases term with (iri | node) | value <;> rw [classExpressionWithin, classExpressionStep]

/-- Whatever stands at the end of a reading that leaves room for the nodes ahead is not come to. -/
theorem alike_classExpressionStep (inner : Term → Translation ClassExpression) (depth : Nat) : ∀ (limit : Nat)
    (visiting : List Node) (term : Term), (setting.ahead visiting).length < depth → (setting.ahead visiting).length < limit →
      setting.Alike visiting (classExpressionWithin depth term) (classExpressionStep^[limit] inner term) := by
  induction depth with
  | zero =>
    intro limit visiting term enough
    cases enough
  | succ depth ih =>
    intro limit visiting term enough further
    obtain ⟨limit, rfl⟩ := Nat.exists_eq_add_one_of_ne_zero (Nat.ne_zero_of_lt further)
    rw [classExpressionWithin_succ, Function.iterate_succ_apply']
    rcases term with (iri | node) | value
    · exact .refl _
    · rw [classExpressionStep, classExpressionStep]
      apply Alike.nested
      intro fresh
      apply Alike.look
      intro session holds
      apply Alike.next (reads_restrictionKind _)
      intro kind
      apply Alike.dispatch anchored_class
      · intro some form
        obtain ⟨row, member⟩ := List.exists_mem_of_ne_nil _ some
        have subject := holds.mem_view.mp member
        have fewer := length_ahead_cons ⟨row, subject.1, subject.2.1⟩ fresh
        apply alike_readClassExpression (reads_classExpressionWithin depth _)
        intro term
        exact ih limit _ term (by omega) (by omega)
      · exact reads_readClassExpression (reads_classExpressionWithin depth _) _
    · exact .refl _

end ClassExpressions

section Annotations

/-- What stands for an annotation is what a triple is about. -/
theorem exists_row_of_reifier {session : Session} (holds : setting.Holds session) {source reifier : Node} {property : Iri} {value : Term}
    (member : reifier ∈ session.reifiers source property value) : ∃ row ∈ setting.rows, row.triple.subject = reifier := by
  obtain ⟨listed, -⟩ := List.mem_filter.mp member
  obtain ⟨row, unused, points⟩ := List.mem_filterMap.mp listed
  rw [Session.unused, List.mem_filter, holds.indexed.withObject, holds.rows, List.mem_filter] at unused
  refine ⟨row, unused.1.1, ?_⟩
  split at points
  · exact Option.some.inj points
  · cases points

theorem alike_readNote {inner other : Node → Translation (List Annotation)}
    (reads : ∀ node, setting.Reads setting.triples (inner node))
    (each : ∀ node, (∃ row ∈ setting.rows, row.triple.subject = node) → node ∉ visiting →
      setting.Alike (node :: visiting) (inner node) (other node)) {row : Row} (listed : row ∈ setting.rows) :
    setting.Alike visiting (readNote inner row) (readNote other row) := by
  obtain ⟨id, source, property, object⟩ := row
  apply Alike.look
  intro session _
  split
  · refine .next (reads_learn _ _) fun _ => .next (reads_annotationValue _) fun value =>
      .next (reads_consume (usable_all listed)) fun _ => .look fun session holds => ?_
    have reified (node : Node) : setting.Reads setting.triples (do
        consumeReification node
        inner node) := (reads_consumeReification (open_all node)).bind fun _ => reads node
    refine (Alike.mapM _ (fun node _ => reads_nested node (reified node)) fun node member => .nested fun fresh => ?_).bind
      (.mapM _ fun node _ => reads_nested node (reified node)) fun _ => .refl _
    exact .next (reads_consumeReification (open_all node)) fun _ => each node (exists_row_of_reifier holds member) fresh
  · exact .refl _

/-- The reading of the annotations of a node, given that of the annotations of those. -/
def annotationsStep (inner : Node → Translation (List Annotation)) (node : Node) : Translation (List Annotation) := do
  let session ← get
  let notes ← (session.unused (session.store.withSubject node)).mapM (readNote inner)
  return notes.filterMap id

theorem annotationsWithin_succ (depth : Nat) : annotationsWithin (depth + 1) = annotationsStep (annotationsWithin depth) := by
  funext node
  rw [annotationsWithin, annotationsStep]

/-- Whatever stands at the end of a reading that leaves room for the nodes ahead is not come to. -/
theorem alike_annotationsStep (inner : Node → Translation (List Annotation)) (depth : Nat) : ∀ (limit : Nat)
    (visiting : List Node) (node : Node), (setting.ahead visiting).length < depth → (setting.ahead visiting).length < limit →
      setting.Alike visiting (annotationsWithin depth node) (annotationsStep^[limit] inner node) := by
  induction depth with
  | zero =>
    intro limit visiting node enough
    cases enough
  | succ depth ih =>
    intro limit visiting node enough further
    obtain ⟨limit, rfl⟩ := Nat.exists_eq_add_one_of_ne_zero (Nat.ne_zero_of_lt further)
    rw [annotationsWithin_succ, Function.iterate_succ_apply']
    have reads (node : Node) : setting.Reads setting.triples (annotationsWithin depth node) :=
      reads_annotationsWithin depth node (open_all node)
    apply Alike.look
    intro session holds
    have listed (row : Row) (member : row ∈ session.unused (session.store.withSubject node)) : row ∈ setting.rows := by
      rw [Session.unused, List.mem_filter, holds.mem_withSubject] at member
      exact member.1.1
    have note (row : Row) (member : row ∈ session.unused (session.store.withSubject node)) :
        setting.Reads setting.triples (readNote (annotationsWithin depth) row) :=
      reads_readNote (fun node _ => reads node) (usable_all (listed row member))
    refine (Alike.mapM _ note fun row member => alike_readNote reads (fun node subject fresh => ?_) (listed row member)).bind
      (.mapM _ note) fun _ => .refl _
    have fewer := length_ahead_cons subject fresh
    exact ih limit _ node (by omega) (by omega)

end Annotations

section Limits

variable {session : Session} {depth limit : Nat}

/-- What is read alike with enough room for the nodes ahead is read alike with any two limits of
more than the number of triples. -/
theorem alike_limit (indexed : session.store.Indexed) (reader other : Nat → Translation α)
    (alike : ∀ (setting : Setting) (visiting : List Node) (depth limit : Nat), (setting.ahead visiting).length < depth →
      (setting.ahead visiting).length < limit → setting.Alike visiting (reader depth) (other limit))
    (enough : session.store.entries.size < depth) (further : session.store.entries.size < limit) (context : Context) :
    reader depth context session = other limit context session := by
  let setting : Setting := ⟨session.store.liveRows, session.header⟩
  have room : (setting.ahead session.visiting).length ≤ session.store.entries.size :=
    Nat.le_trans (setting.length_ahead_le session.visiting) session.store.size_liveRows_le
  exact alike setting session.visiting depth limit (by omega) (by omega) context session ⟨indexed, rfl, rfl⟩ rfl

variable (indexed : session.store.Indexed) (enough : session.store.entries.size < depth)
include indexed enough

theorem classExpressionStep_limit (context : Context) (inner : Term → Translation ClassExpression) (term : Term) :
    classExpressionStep^[depth] inner term context session = classExpression term context session :=
  (alike_limit indexed (classExpressionWithin · term) (classExpressionStep^[·] inner term)
    (fun _ visiting depth limit => alike_classExpressionStep inner depth limit visiting term) (Nat.lt_succ_self _) enough context).symm

theorem dataRangeStep_limit (context : Context) (inner : Term → Translation DataRange) (term : Term) :
    dataRangeStep^[depth] inner term context session = dataRange term context session :=
  (alike_limit indexed (dataRangeWithin · term) (dataRangeStep^[·] inner term)
    (fun _ visiting depth limit => alike_dataRangeStep inner depth limit visiting term) (Nat.lt_succ_self _) enough context).symm

theorem annotationsStep_limit (context : Context) (inner : Node → Translation (List Annotation)) (node : Node) :
    annotationsStep^[depth] inner node context session = annotationsOn node context session := by
  rw [annotationsOn, Run.get_bind]
  exact (alike_limit indexed (annotationsWithin · node) (annotationsStep^[·] inner node)
    (fun _ visiting depth limit => alike_annotationsStep inner depth limit visiting node) (by omega) enough context).symm

end Limits

end Translation

end OwlGraph
