import OwlGraph.Proofs.Parallel

/-! Translations side by side. No translation tells blank nodes apart by their labels: the terms it
finds are paired, and what it reads is the same in both graphs, with anonymous individuals that
stand for paired nodes only. -/

namespace OwlGraph

/-- Both wait for the kind of the same property, or have failed alike. -/
inductive Halt.Alike : Halt → Halt → Prop
  | deferred (iri : Iri) : Alike (.deferred iri) (.deferred iri)
  | failed {first second : Problem} (problems : first.Alike second) : Alike (.failed first) (.failed second)

namespace Pairing

open Translation

variable {pairing : Pairing} {context : Context} {α β : Type} {right : α → α → Prop} {good : α → Prop}
  {subject resource : Node} {object value : Term} {objects values : List Term} {rows others : List Row}
  {shown image : NodeView}

/-- The translations read the same from corresponding graphs, and it is good. -/
abbrev Reads (pairing : Pairing) (context : Context) (good : α → Prop) (body other : Translation α) : Prop :=
  pairing.Parallel Halt.Alike context (Exactly good) body other

/-- The translations read the same from corresponding graphs, and it has no anonymous individuals. -/
abbrev Tells (pairing : Pairing) (context : Context) (body other : Translation α) : Prop :=
  pairing.Reads context (fun _ => True) body other

/-- The translations find corresponding terms. -/
abbrev Finds (pairing : Pairing) (context : Context) (body other : Translation Term) : Prop :=
  pairing.Parallel Halt.Alike context pairing.Terms body other

section Primitives

theorem parallel_fail {problem trouble : Problem} (alike : problem.Alike trouble) :
    pairing.Parallel Halt.Alike context right (fail problem) (fail trouble) := .raise (.failed alike)

theorem parallel_unexpected (expectation : Expectation) (found term : Term) :
    pairing.Parallel Halt.Alike context right (unexpected expectation found) (unexpected expectation term) :=
  parallel_fail ⟨rfl, rfl⟩

theorem tells_recover {problem trouble : Problem} (alike : problem.Alike trouble) :
    pairing.Tells context (recover problem) (recover trouble) := by
  refine .read fun _ => .ite Iff.rfl (fun _ => parallel_fail alike) fun _ => .alter fun first second same => ?_
  have pending : List.Forall₂ Problem.Alike (first.pending.push problem).toList (second.pending.push trouble).toList := by
    rw [Array.toList_push, Array.toList_push]
    exact List.rel_append same.pending (.cons alike .nil)
  exact { same with pending }

theorem tells_learn (iri : Iri) (kind : EntityKind) : pairing.Tells context (learn iri kind) (learn iri kind) :=
  .alter fun _ _ same => same.learn iri kind

theorem tells_consume (id : TripleId) : pairing.Tells context (consume id) (consume id) :=
  .alter fun _ _ same => same.consume id

theorem tells_consumeAll (listed : List.Forall₂ pairing.Rows rows others) :
    pairing.Tells context (consumeAll rows) (consumeAll others) := .alter fun _ _ same => same.consumeAll listed

/-- Waiting for the kind of a property, where it is not known and has no default. -/
theorem parallel_wait (iri : Iri) {next after : Unit → Translation α}
    (parallel : pairing.Parallel Halt.Alike context right (next ()) (after ())) :
    pairing.Parallel Halt.Alike context right (if context.forced then next () else defer iri >>= next)
      (if context.forced then after () else defer iri >>= after) :=
  .ite Iff.rfl (fun _ => parallel) fun _ => .stop (.deferred iri) next after

theorem parallel_nested {body other : Translation α} (nodes : pairing.Nodes subject resource)
    (parallel : pairing.Parallel Halt.Alike context right body other) :
    pairing.Parallel Halt.Alike context right (nested subject body) (nested resource other) := by
  have left {path track : List Node} (visiting : List.Forall₂ pairing.Nodes path track) :
      List.Forall₂ pairing.Nodes (path.erase subject) (track.erase resource) := by
    induction visiting with
    | nil => exact .nil
    | cons own rest ih =>
      rw [List.erase_cons, List.erase_cons, own.beq_eq nodes]
      split
      · exact rest
      · exact .cons own ih
  intro numbered first second same
  rw [nested, nested, contains_of_forall₂ Nodes.eq_iff same.visiting nodes]
  split
  · exact ⟨.error (.failed ⟨rfl, rfl⟩), same⟩
  · obtain ⟨results, later⟩ := parallel numbered { first with visiting := subject :: first.visiting }
      { second with visiting := resource :: second.visiting } { same with visiting := .cons nodes same.visiting }
    exact ⟨results, { later with visiting := left later.visiting }⟩

end Primitives

section Properties

theorem tells_resolveProperty (iri : Iri) (hint : Option PropertyKind) :
    pairing.Tells context (resolveProperty iri hint) (resolveProperty iri hint) := by
  refine .look fun first second same => ?_
  rw [same.propertyKind?]
  split
  · exact .settled trivial
  · exact (tells_learn _ _).bind fun _ _ => .settled trivial
  · exact .read fun _ => parallel_wait iri (.bind (tells_recover ⟨rfl, rfl⟩) fun _ _ => (tells_learn _ _).bind fun _ _ => .settled trivial)

theorem tells_commonKind (listed : List.Forall₂ pairing.Terms objects values) :
    pairing.Tells context (commonKind objects) (commonKind values) := by
  refine .look fun first second same => ?_
  rw [findSome?_of_forall₂ listed fun _ _ own => same.termPropertyKind? own]
  have rel := rel_head? listed
  generalize objects.head? = head at rel
  generalize values.head? = front at rel
  generalize objects.findSome? first.termPropertyKind? = known
  rcases known with _ | kind
  · rcases rel with ((iri | pair) | literal) | _
    · exact tells_resolveProperty iri none
    · exact parallel_unexpected _ _ _
    · exact parallel_unexpected _ _ _
    · exact .settled trivial
  · exact .settled trivial

theorem tells_pairKind (one : pairing.Terms object value) {target image : Term} (two : pairing.Terms target image) :
    pairing.Tells context (pairKind object target) (pairKind value image) := by
  have listed : List.Forall₂ pairing.Terms [object, target] [value, image] := .cons one (.cons two .nil)
  refine (tells_commonKind listed).bind fun kind _ => ?_
  rw [filterMap_of_forall₂ listed fun _ _ own => own.iri?]
  refine Parallel.bind (.forM (rel_refl _) ?_) fun _ _ => .settled trivial
  rintro iri _ rfl
  exact tells_learn iri kind.entityKind

theorem tells_subjectKind (nodes : pairing.Nodes subject resource) (hint : Option PropertyKind) :
    pairing.Tells context (subjectKind subject hint) (subjectKind resource hint) := by
  cases nodes with
  | named iri => exact tells_resolveProperty iri hint
  | blank => exact .settled trivial

end Properties

section Collections

theorem finds_listStep (head front : Term) (nodes : pairing.Nodes subject resource) (predicate : Iri) :
    pairing.Finds context (listStep head subject predicate) (listStep front resource predicate) := by
  refine .look fun first second same => ?_
  have rel := same.store.matching nodes predicate
  generalize first.store.matching subject predicate = rows at rel
  generalize second.store.matching resource predicate = others at rel
  rcases rel with _ | ⟨own, _ | ⟨next, rest⟩⟩
  · exact parallel_fail ⟨rfl, rfl⟩
  · dsimp only
    rw [own.id]
    exact (tells_consume _).bind fun _ _ => .pure own.triple.object
  · exact parallel_fail ⟨rfl, rfl⟩

theorem isListType_eq {triple statement : Triple} (triples : pairing.Triples triple statement) :
    isListType statement = isListType triple := by
  rw [isListType, isListType, triples.predicate, triples.object_beq, triples.object_beq]

/-- The same nodes have been visited. -/
def Visited (pairing : Pairing) (first second : Std.HashSet Node) : Prop :=
  ∀ node partner, pairing.Nodes node partner → second.contains partner = first.contains node

theorem Visited.insert {first second : Std.HashSet Node} (visited : pairing.Visited first second)
    (nodes : pairing.Nodes subject resource) : pairing.Visited (first.insert subject) (second.insert resource) := by
  intro node partner own
  rw [Std.HashSet.contains_insert, Std.HashSet.contains_insert, nodes.beq_eq own, visited node partner own]

theorem finds_readListFrom (head front : Term) : ∀ (room : Nat) {first second : Std.HashSet Node} {elements members : Array Term}
    {object value : Term}, pairing.Visited first second → List.Forall₂ pairing.Terms elements.toList members.toList →
    pairing.Terms object value → pairing.Parallel Halt.Alike context (List.Forall₂ pairing.Terms)
      (readListFrom head room first elements object) (readListFrom front room second members value) := by
  intro room
  induction room with
  | zero =>
    intro first second elements members object value visited listed terms
    unfold readListFrom
    refine .ite (terms.eq_iff (.named Rdf.nil)) (fun _ => .pure listed) fun _ => ?_
    cases terms with
    | literal => exact parallel_fail ⟨rfl, rfl⟩
    | resource nodes =>
      refine .ite (by rw [visited _ _ nodes]) (fun _ => .stop (.failed ⟨rfl, rfl⟩) _ _) fun _ => ?_
      exact .read fun _ => parallel_fail ⟨rfl, rfl⟩
  | succ room ih =>
    intro first second elements members object value visited listed terms
    unfold readListFrom
    refine .ite (terms.eq_iff (.named Rdf.nil)) (fun _ => .pure listed) fun _ => ?_
    cases terms with
    | literal => exact parallel_fail ⟨rfl, rfl⟩
    | resource nodes =>
      refine .ite (by rw [visited _ _ nodes]) (fun _ => .stop (.failed ⟨rfl, rfl⟩) _ _) fun _ => ?_
      refine (finds_listStep _ _ nodes _).relate fun element member own => (finds_listStep _ _ nodes _).relate fun rest tail later =>
        .look fun _ _ same => ?_
      have types := rel_filter (same.store.withSubject nodes) fun _ _ own => isListType_eq own.triple
      refine (tells_consumeAll types).bind fun _ _ => ih (visited.insert nodes) ?_ later
      rw [Array.toList_push, Array.toList_push]
      exact List.rel_append listed (.cons own .nil)

theorem finds_readList (terms : pairing.Terms object value) :
    pairing.Parallel Halt.Alike context (List.Forall₂ pairing.Terms) (readList object) (readList value) := by
  refine .read fun _ => finds_readListFrom object value _ (fun _ _ _ => ?_) .nil terms
  rw [Std.HashSet.contains_empty, Std.HashSet.contains_empty]

theorem finds_operands (terms : pairing.Terms object value) :
    pairing.Parallel Halt.Alike context (List.Forall₂ pairing.Terms) (operands object) (operands value) := by
  refine (finds_readList terms).relate fun elements members listed => ?_
  exact .ite (by rw [isEmpty_of_forall₂ listed]) (fun _ => Parallel.bind (tells_recover ⟨rfl, rfl⟩) fun _ _ => .pure listed)
    fun _ => .pure listed

theorem reads_operandsWith {act : Term → Translation α}
    (each : ∀ object value, pairing.Terms object value → pairing.Reads context good (act object) (act value))
    (terms : pairing.Terms object value) :
    pairing.Reads context (fun elements => ∀ element ∈ elements, good element) (operandsWith act object) (operandsWith act value) :=
  (finds_operands terms).relate fun _ _ listed => .mapM listed each

end Collections

section Patterns

variable {Form : Type}

theorem tells_selectForm (family : Family Form) (views : pairing.Views shown image) :
    pairing.Tells context (selectForm family shown) (selectForm family image) := by
  have strictly : (fun form => (family.pattern form).fits image) = fun form => (family.pattern form).fits shown :=
    funext fun form => views.fits (family.pattern form)
  have leniently : (fun form => (family.pattern form).fitsLeniently image) = fun form => (family.pattern form).fitsLeniently shown :=
    funext fun form => views.fitsLeniently (family.pattern form)
  rw [selectForm, selectForm, strictly, leniently]
  split
  · exact .settled trivial
  · split
    · exact parallel_fail ⟨rfl, rfl⟩
    · exact Parallel.bind (tells_recover ⟨rfl, rfl⟩) fun _ _ => .settled trivial

theorem reads_dispatch (family : Family Form) (views : pairing.Views shown image) {readForm scan : Form → Translation α}
    (each : ∀ form, pairing.Reads context good (readForm form) (scan form)) :
    pairing.Reads context good (dispatch family shown readForm) (dispatch family image scan) :=
  (tells_selectForm family views).bind fun form _ => (each form).bind fun _ own =>
    (tells_consumeAll views.rows).bind fun _ _ => .settled own

theorem Views.finds (views : pairing.Views shown image) (predicate : Iri) :
    pairing.Finds context (Translation.value shown predicate) (Translation.value image predicate) := by
  have rel := views.objects predicate
  rw [Translation.value, Translation.value]
  generalize shown.objects predicate = objects at rel
  generalize image.objects predicate = values at rel
  rcases rel with _ | ⟨terms, _ | _⟩
  · exact parallel_fail ⟨rfl, rfl⟩
  · exact .pure terms
  · exact Parallel.bind (tells_recover ⟨rfl, rfl⟩) fun _ _ => .pure terms

theorem Nodes.finds (nodes : pairing.Nodes subject resource) (predicate : Iri) :
    pairing.Finds context (singleObject subject predicate) (singleObject resource predicate) := by
  refine .look fun first second same => ((same.view nodes).finds predicate).relate fun _ _ terms => ?_
  have used : List.Forall₂ pairing.Rows ((first.view subject).rows.filter fun row => row.triple.predicate == predicate)
      ((second.view resource).rows.filter fun row => row.triple.predicate == predicate) :=
    rel_filter (same.view nodes).rows fun _ _ own => by rw [own.triple.predicate]
  exact (tells_consumeAll used).bind fun _ _ => .pure terms

end Patterns

section Operands

theorem tells_named (expectation : Expectation) (terms : pairing.Terms object value) :
    pairing.Tells context (named expectation object) (named expectation value) := by
  rw [named, named, terms.iri?]
  split
  · exact .settled trivial
  · exact parallel_unexpected _ _ _

theorem tells_propertyExpression (terms : pairing.Terms object value) :
    pairing.Tells context (propertyExpression object) (propertyExpression value) := by
  rcases terms with (iri | pair) | _
  · exact (tells_learn _ _).bind fun _ _ => .settled trivial
  · refine (Nodes.finds (.blank pair) _).relate fun _ _ found => ?_
    rcases found with (iri | _) | _
    · exact (tells_learn _ _).bind fun _ _ => .settled trivial
    · exact parallel_unexpected _ _ _
    · exact parallel_unexpected _ _ _
  · exact parallel_unexpected _ _ _

theorem tells_dataProperty (terms : pairing.Terms object value) :
    pairing.Tells context (dataProperty object) (dataProperty value) :=
  (tells_named _ terms).bind fun _ _ => (tells_learn _ _).bind fun _ _ => .settled trivial

theorem reads_individualOf (nodes : pairing.Nodes subject resource) :
    pairing.Reads context (fun node => pairing.Covered (.individual node)) (individualOf subject) (individualOf resource) := by
  refine .look fun first second same => .read fun numbered => ?_
  obtain ⟨equal, covered⟩ := same.individual nodes
  rw [numbered, equal]
  exact .settled covered

theorem reads_individual (terms : pairing.Terms object value) :
    pairing.Reads context (fun node => pairing.Covered (.individual node)) (individual object) (individual value) := by
  cases terms with
  | literal => exact parallel_unexpected _ _ _
  | resource nodes => exact reads_individualOf nodes

theorem tells_literal (terms : pairing.Terms object value) : pairing.Tells context (literal object) (literal value) := by
  rw [literal, literal, terms.literal?]
  split
  · exact .settled trivial
  · exact parallel_unexpected _ _ _

theorem reads_annotationValue (terms : pairing.Terms object value) :
    pairing.Reads context (fun term => pairing.Covered (.annotationValue term)) (annotationValue object) (annotationValue value) := by
  refine .look fun first second same => .read fun numbered => ?_
  obtain ⟨equal, covered⟩ := same.annotationValue terms
  rw [numbered, equal]
  exact .settled covered

theorem tells_asVariable (terms : pairing.Terms object value) : pairing.Tells context (asVariable object) (asVariable value) := by
  refine .look fun first second same => ?_
  rw [terms.iri?, same.ruleVariables]
  exact .settled trivial

theorem reads_individualArgument (terms : pairing.Terms object value) :
    pairing.Reads context (fun argument => pairing.Covers argument.components) (individualArgument object) (individualArgument value) := by
  refine (tells_asVariable terms).bind fun found _ => ?_
  cases found with
  | some iri => exact .settled (List.forall_mem_nil _)
  | none => exact (reads_individual terms).bind fun _ own => .settled (List.forall_mem_singleton.mpr own)

theorem tells_dataArgument (terms : pairing.Terms object value) :
    pairing.Tells context (dataArgument object) (dataArgument value) := by
  refine (tells_asVariable terms).bind fun found _ => ?_
  cases found with
  | some iri => exact .settled trivial
  | none => exact (tells_literal terms).bind fun _ _ => .settled trivial

theorem tells_cardinality (terms : pairing.Terms object value) :
    pairing.Tells context (cardinality object) (cardinality value) := by
  rw [cardinality, cardinality, terms.literal?]
  split
  · split
    · exact parallel_fail ⟨rfl, rfl⟩
    · exact parallel_fail ⟨rfl, rfl⟩
    · exact .ite Iff.rfl (fun _ => .settled trivial) fun _ => Parallel.bind (tells_recover ⟨rfl, rfl⟩) fun _ _ => .settled trivial
  · exact parallel_unexpected _ _ _

end Operands

section Expressions

theorem tells_facetRestriction (terms : pairing.Terms object value) :
    pairing.Tells context (facetRestriction object) (facetRestriction value) := by
  cases terms with
  | literal => exact parallel_unexpected _ _ _
  | resource nodes =>
    refine .look fun first second same => ?_
    have rel : List.Forall₂ pairing.Rows ((first.view _).rows.filter fun row => row.triple.predicate.isFacet)
        ((second.view _).rows.filter fun row => row.triple.predicate.isFacet) :=
      rel_filter (same.view nodes).rows fun _ _ own => by rw [own.triple.predicate]
    dsimp only
    generalize (first.view _).rows.filter _ = rows at rel
    generalize (second.view _).rows.filter _ = others at rel
    rcases rel with _ | ⟨own, _ | _⟩
    · exact parallel_fail ⟨rfl, rfl⟩
    · refine (tells_literal own.triple.object).bind fun _ _ => ?_
      rw [own.id, own.triple.predicate]
      exact (tells_consume _).bind fun _ _ => .settled trivial
    · exact parallel_fail ⟨rfl, rfl⟩

theorem tells_readDataRange {inner other : Term → Translation DataRange}
    (each : ∀ object value, pairing.Terms object value → pairing.Tells context (inner object) (other value))
    (views : pairing.Views shown image) (form : DataRangeForm) :
    pairing.Tells context (readDataRange inner shown form) (readDataRange other image form) := by
  cases form with
  | combination junction =>
    exact (views.finds _).relate fun _ _ head => (finds_operands head).relate fun _ _ listed =>
      (Parallel.mapM listed each).bind fun _ _ => .settled trivial
  | complement => exact (views.finds _).relate fun _ _ operand => (each _ _ operand).bind fun _ _ => .settled trivial
  | oneOf =>
    exact (views.finds _).relate fun _ _ head => (finds_operands head).relate fun _ _ listed =>
      (Parallel.mapM listed fun _ _ own => tells_literal own).bind fun _ _ => .settled trivial
  | restriction =>
    exact (views.finds _).relate fun _ _ base => (tells_named _ base).bind fun _ _ => (views.finds _).relate fun _ _ head =>
      (finds_readList head).relate fun _ _ listed =>
        (Parallel.mapM listed fun _ _ own => tells_facetRestriction own).bind fun _ _ => .settled trivial

theorem tells_dataRangeWithin (depth : Nat) : ∀ object value, pairing.Terms object value →
    pairing.Tells context (dataRangeWithin depth object) (dataRangeWithin depth value) := by
  have named (depth : Nat) (iri : Iri) :
      pairing.Tells context (dataRangeWithin depth (.resource (.named iri))) (dataRangeWithin depth (.resource (.named iri))) := by
    unfold dataRangeWithin
    exact (tells_learn _ _).bind fun _ _ => .settled trivial
  have literal (depth : Nat) (value : Literal) :
      pairing.Tells context (dataRangeWithin depth (.literal value)) (dataRangeWithin depth (.literal value)) := by
    unfold dataRangeWithin
    exact parallel_unexpected _ _ _
  induction depth with
  | zero =>
    rintro _ _ ((iri | _) | value)
    · exact named _ iri
    · exact parallel_fail ⟨rfl, rfl⟩
    · exact literal _ value
  | succ depth ih =>
    rintro _ _ ((iri | pair) | value)
    · exact named _ iri
    · refine parallel_nested (.blank pair) (.look fun _ _ same => ?_)
      have views := same.view (.blank pair)
      exact reads_dispatch _ views (tells_readDataRange ih views)
    · exact literal _ value

theorem tells_depthLimit : pairing.Tells context depthLimit depthLimit := by
  refine .look fun first second same => ?_
  rw [same.store.size]
  exact .settled trivial

theorem tells_dataRange (terms : pairing.Terms object value) : pairing.Tells context (dataRange object) (dataRange value) :=
  tells_depthLimit.bind fun depth _ => tells_dataRangeWithin depth object value terms

theorem tells_restrictionKind (views : pairing.Views shown image) :
    pairing.Tells context (restrictionKind shown) (restrictionKind image) := by
  have rel := views.first? Owl.onProperty
  rw [restrictionKind, restrictionKind]
  generalize shown.first? Owl.onProperty = object at rel
  generalize image.first? Owl.onProperty = value at rel
  rcases rel with ((iri | _) | _) | _
  · refine .look fun first second same => ?_
    rw [same.restrictionHint? views]
    exact (tells_resolveProperty _ _).bind fun _ _ => .settled trivial
  · exact .settled trivial
  · exact .settled trivial
  · exact .settled trivial

theorem reads_boundOf (views : pairing.Views shown image) (bound : Bound) (fillerPredicate : Iri) {filler stuffing : Term → Translation α}
    (each : ∀ object value, pairing.Terms object value → pairing.Reads context good (filler object) (stuffing value)) :
    pairing.Reads context (fun bounds => ∀ filler ∈ bounds.2, good filler) (boundOf shown bound fillerPredicate filler)
      (boundOf image bound fillerPredicate stuffing) := by
  refine .ite (by rw [views.has]) (fun _ => ?_) fun _ => ?_
  · exact (views.finds _).relate fun _ _ number => (tells_cardinality number).bind fun _ _ => (views.finds _).relate fun _ _ object =>
      (each _ _ object).bind fun _ own => .settled fun _ same => by cases same; exact own
  · exact (views.finds _).relate fun _ _ number => (tells_cardinality number).bind fun _ _ => .settled nofun

theorem covers_dataRange (range : DataRange) : pairing.Covers range.components := by
  intro component member
  obtain ⟨iri, rfl⟩ := range.component_eq member
  exact trivial

theorem covers_classes {classes : List ClassExpression} (own : ∀ cls ∈ classes, pairing.Covers cls.components) :
    pairing.Covers (classes.flatMap ClassExpression.components) := List.forall_mem_flatMap.mpr own

theorem reads_readClassExpression {inner other : Term → Translation ClassExpression}
    (each : ∀ object value, pairing.Terms object value →
      pairing.Reads context (fun cls => pairing.Covers cls.components) (inner object) (other value))
    (views : pairing.Views shown image) (form : ClassForm) :
    pairing.Reads context (fun cls => pairing.Covers cls.components) (readClassExpression inner shown form)
      (readClassExpression other image form) := by
  cases form with
  | combination junction =>
    refine (views.finds _).relate fun _ _ head => (finds_operands head).relate fun _ _ listed =>
      (Parallel.mapM listed each).bind fun operands own => .settled ?_
    rw [ClassExpression.components, ClassExpression.componentsEach_eq]
    exact covers_classes own
  | complement => exact (views.finds _).relate fun _ _ operand => (each _ _ operand).bind fun _ own => .settled own
  | oneOf =>
    exact (views.finds _).relate fun _ _ head => (finds_operands head).relate fun _ _ listed =>
      (Parallel.mapM listed fun _ _ own => reads_individual own).bind fun _ own => .settled (List.forall_mem_map.mpr own)
  | objectValues quantifier =>
    exact (views.finds _).relate fun _ _ property => (tells_propertyExpression property).bind fun _ _ =>
      (views.finds _).relate fun _ _ filler => (each _ _ filler).bind fun _ own => .settled (List.forall_mem_cons.mpr ⟨trivial, own⟩)
  | objectHasValue =>
    exact (views.finds _).relate fun _ _ property => (tells_propertyExpression property).bind fun _ _ =>
      (views.finds _).relate fun _ _ filler => (reads_individual filler).bind fun _ own =>
        .settled (List.forall_mem_cons.mpr ⟨trivial, List.forall_mem_singleton.mpr own⟩)
  | hasSelf =>
    exact (views.finds _).relate fun _ _ property => (tells_propertyExpression property).bind fun _ _ =>
      (views.finds _).relate fun _ _ truth => (tells_literal truth).bind fun _ _ =>
        .ite Iff.rfl (fun _ => .settled (List.forall_mem_singleton.mpr trivial)) fun _ => .stop (.failed ⟨rfl, rfl⟩) _ _
  | objectCardinality bound =>
    refine (views.finds _).relate fun _ _ property => (tells_propertyExpression property).bind fun _ _ =>
      (reads_boundOf views bound _ each).bind fun ⟨_, filler⟩ own => .settled ?_
    cases filler with
    | none => exact List.forall_mem_singleton.mpr trivial
    | some filler => exact List.forall_mem_cons.mpr ⟨trivial, own filler rfl⟩
  | dataValues quantifier =>
    exact (views.finds _).relate fun _ _ property => (tells_dataProperty property).bind fun _ _ =>
      (views.finds _).relate fun _ _ filler => (tells_dataRange filler).bind fun range _ =>
        .settled (List.forall_mem_cons.mpr ⟨trivial, covers_dataRange range⟩)
  | dataHasValue =>
    exact (views.finds _).relate fun _ _ property => (tells_dataProperty property).bind fun _ _ =>
      (views.finds _).relate fun _ _ filler => (tells_literal filler).bind fun _ _ =>
        .settled (List.forall_mem_cons.mpr ⟨trivial, List.forall_mem_singleton.mpr trivial⟩)
  | dataCardinality bound =>
    refine (views.finds _).relate fun _ _ property => (tells_dataProperty property).bind fun _ _ =>
      (reads_boundOf views bound _ fun _ _ own => tells_dataRange own).bind fun ⟨_, filler⟩ _ => .settled ?_
    cases filler with
    | none => exact List.forall_mem_singleton.mpr trivial
    | some filler => exact List.forall_mem_cons.mpr ⟨trivial, covers_dataRange filler⟩

theorem reads_classExpressionWithin (depth : Nat) : ∀ object value, pairing.Terms object value →
    pairing.Reads context (fun cls => pairing.Covers cls.components) (classExpressionWithin depth object)
      (classExpressionWithin depth value) := by
  have named (depth : Nat) (iri : Iri) : pairing.Reads context (fun cls => pairing.Covers cls.components)
      (classExpressionWithin depth (.resource (.named iri))) (classExpressionWithin depth (.resource (.named iri))) := by
    unfold classExpressionWithin
    exact (tells_learn _ _).bind fun _ _ => .settled (List.forall_mem_singleton.mpr trivial)
  have literal (depth : Nat) (value : Literal) : pairing.Reads context (fun cls => pairing.Covers cls.components)
      (classExpressionWithin depth (.literal value)) (classExpressionWithin depth (.literal value)) := by
    unfold classExpressionWithin
    exact parallel_unexpected _ _ _
  induction depth with
  | zero =>
    rintro _ _ ((iri | _) | value)
    · exact named _ iri
    · exact parallel_fail ⟨rfl, rfl⟩
    · exact literal _ value
  | succ depth ih =>
    rintro _ _ ((iri | pair) | value)
    · exact named _ iri
    · refine parallel_nested (.blank pair) (.look fun _ _ same => ?_)
      have views := same.view (.blank pair)
      refine (tells_restrictionKind views).bind fun kind _ => ?_
      exact reads_dispatch _ (views.ofKind kind) (reads_readClassExpression ih (views.ofKind kind))
    · exact literal _ value

theorem reads_classExpression (terms : pairing.Terms object value) :
    pairing.Reads context (fun cls => pairing.Covers cls.components) (classExpression object) (classExpression value) :=
  tells_depthLimit.bind fun depth _ => reads_classExpressionWithin depth object value terms

end Expressions

end Pairing

end OwlGraph
