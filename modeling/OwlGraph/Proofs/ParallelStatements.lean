import OwlGraph.Proofs.ParallelTranslation

/-! Axioms and annotations side by side. From corresponding triples the same axioms are read, with
the same annotations, and their anonymous individuals stand for paired nodes. -/

namespace OwlGraph.Pairing

open Translation

variable {pairing : Pairing} {context : Context} {subject resource : Node} {object value : Term} {objects values : List Term}
  {triple statement : Triple} {row other : Row} {shown image : NodeView}

section Rules

theorem tells_atomPropertyKind (views : pairing.Views shown image) :
    pairing.Tells context (atomPropertyKind shown) (atomPropertyKind image) := by
  have rel := views.first? Swrl.propertyPredicate
  rw [atomPropertyKind, atomPropertyKind, views.atomHint?]
  generalize shown.first? Swrl.propertyPredicate = object at rel
  generalize image.first? Swrl.propertyPredicate = value at rel
  rcases rel with ((iri | _) | _) | _
  · exact (tells_resolveProperty _ _).bind fun _ _ => .settled trivial
  · exact .settled trivial
  · exact .settled trivial
  · exact .settled trivial

theorem covers_dataArgument (argument : DataArgument) : pairing.Covers argument.components := by
  cases argument with
  | «variable» => exact List.forall_mem_nil _
  | literal => exact List.forall_mem_singleton.mpr trivial

theorem reads_readAtom (views : pairing.Views shown image) (form : AtomForm) :
    pairing.Reads context (fun atom => pairing.Covers atom.components) (readAtom shown form) (readAtom image form) := by
  cases form with
  | cls =>
    exact (views.finds _).relate fun _ _ predicate => (views.finds _).relate fun _ _ argument =>
      (reads_classExpression predicate).bind fun _ cls => (reads_individualArgument argument).bind fun _ own =>
        .settled (List.forall_mem_append.mpr ⟨cls, own⟩)
  | dataRange =>
    exact (views.finds _).relate fun _ _ range => (views.finds _).relate fun _ _ argument =>
      (tells_dataRange range).bind fun range _ => (tells_dataArgument argument).bind fun argument _ =>
        .settled (List.forall_mem_append.mpr ⟨covers_dataRange range, covers_dataArgument argument⟩)
  | objectProperty =>
    exact (views.finds _).relate fun _ _ predicate => (views.finds _).relate fun _ _ subject => (views.finds _).relate fun _ _ object =>
      (tells_propertyExpression predicate).bind fun _ _ => (reads_individualArgument subject).bind fun _ one =>
        (reads_individualArgument object).bind fun _ two =>
          .settled (List.forall_mem_cons.mpr ⟨trivial, List.forall_mem_append.mpr ⟨one, two⟩⟩)
  | dataProperty =>
    exact (views.finds _).relate fun _ _ predicate => (views.finds _).relate fun _ _ subject => (views.finds _).relate fun _ _ object =>
      (tells_dataProperty predicate).bind fun _ _ => (reads_individualArgument subject).bind fun _ one =>
        (tells_dataArgument object).bind fun argument _ =>
          .settled (List.forall_mem_cons.mpr ⟨trivial, List.forall_mem_append.mpr ⟨one, covers_dataArgument argument⟩⟩)
  | sameIndividual | differentIndividuals =>
    exact (views.finds _).relate fun _ _ first => (views.finds _).relate fun _ _ second =>
      (reads_individualArgument first).bind fun _ one => (reads_individualArgument second).bind fun _ two =>
        .settled (List.forall_mem_append.mpr ⟨one, two⟩)
  | builtin =>
    exact (views.finds _).relate fun _ _ predicate => (views.finds _).relate fun _ _ list => (tells_named _ predicate).bind fun _ _ =>
      (finds_readList list).relate fun _ _ listed =>
        (Parallel.mapM listed fun _ _ own => tells_dataArgument own).bind fun arguments _ =>
          .settled (List.forall_mem_flatMap.mpr fun argument _ => covers_dataArgument argument)

theorem reads_atom (terms : pairing.Terms object value) :
    pairing.Reads context (fun atom => pairing.Covers atom.components) (atom object) (atom value) := by
  cases terms with
  | literal => exact parallel_unexpected _ _ _
  | resource nodes =>
    refine parallel_nested nodes (.look fun _ _ same => ?_)
    have views := same.view nodes
    exact (tells_atomPropertyKind views).bind fun kind _ => reads_dispatch _ (views.ofKind kind) (reads_readAtom (views.ofKind kind))

theorem reads_atoms (terms : pairing.Terms object value) :
    pairing.Reads context (fun atoms => ∀ atom ∈ atoms, pairing.Covers atom.components) (atoms object) (atoms value) :=
  (finds_readList terms).relate fun _ _ listed => .mapM listed fun _ _ own => reads_atom own

theorem reads_rule (nodes : pairing.Nodes subject resource) :
    pairing.Reads context (fun rule => pairing.Covers (Axiom.rule rule).components) (rule subject) (rule resource) :=
  (nodes.finds _).relate fun _ _ body => (nodes.finds _).relate fun _ _ head =>
    (reads_atoms body).bind fun _ one => (reads_atoms head).bind fun _ two =>
      .settled (List.forall_mem_flatMap.mpr (List.forall_mem_append.mpr ⟨one, two⟩))

end Rules

section Annotations

/-- The annotations have no anonymous individuals but those that stand for paired nodes. -/
abbrev Notes (pairing : Pairing) (notes : List Annotation) : Prop := ∀ note ∈ notes, pairing.Covers note.components

theorem isReification_eq (triples : pairing.Triples triple statement) : isReification statement = isReification triple := by
  rw [isReification, isReification, triples.predicate, triples.object_beq, triples.object_beq]

theorem tells_consumeReification (nodes : pairing.Nodes subject resource) :
    pairing.Tells context (consumeReification subject) (consumeReification resource) :=
  .look fun _ _ same => tells_consumeAll (rel_filter (same.store.withSubject nodes) fun _ _ own => isReification_eq own.triple)

theorem reads_readNote {inner scan : Node → Translation (List Annotation)}
    (each : ∀ subject resource, pairing.Nodes subject resource → pairing.Reads context pairing.Notes (inner subject) (scan resource))
    (rows : pairing.Rows row other) :
    pairing.Reads context (fun note => pairing.Notes note.toList) (readNote inner row) (readNote scan other) := by
  obtain ⟨id, source, property, object⟩ := row
  obtain ⟨_, resource, _, value⟩ := other
  obtain ⟨rfl, nodes, rfl, terms⟩ := rows
  refine .look fun first second same => .ite (by rw [same.isAnnotationProperty]) (fun _ => ?_) fun _ => .settled (List.forall_mem_nil _)
  refine (tells_learn _ _).bind fun _ _ => (reads_annotationValue terms).bind fun value own =>
    (tells_consume _).bind fun _ _ => .look fun _ _ same => ?_
  refine (Parallel.mapM (same.reifiers nodes _ terms) fun _ _ reifier =>
    parallel_nested reifier ((tells_consumeReification reifier).bind fun _ _ => each _ _ reifier)).bind fun notes inner => .settled ?_
  refine List.forall_mem_singleton.mpr ?_
  rw [ Annotation.components, Annotation.componentsEach_eq]
  refine List.forall_mem_cons.mpr ⟨trivial, List.forall_mem_cons.mpr ⟨own, List.forall_mem_flatMap.mpr fun note listed => ?_⟩⟩
  obtain ⟨some, member, inside⟩ := List.mem_flatten.mp listed
  exact inner some member note inside

theorem reads_annotationsWithin (depth : Nat) : ∀ subject resource, pairing.Nodes subject resource →
    pairing.Reads context pairing.Notes (annotationsWithin depth subject) (annotationsWithin depth resource) := by
  induction depth with
  | zero => exact fun _ _ _ => parallel_fail ⟨rfl, rfl⟩
  | succ depth ih =>
    intro subject resource nodes
    refine .look fun _ _ same => (Parallel.mapM (same.unused (same.store.withSubject nodes)) fun _ _ own =>
      reads_readNote ih own).bind fun notes own => .settled fun note member => ?_
    obtain ⟨some, listed, found⟩ := List.mem_filterMap.mp member
    exact own some listed note (by rw [show some = Option.some note from found]; exact List.mem_singleton_self _)

theorem reads_annotationsOn (nodes : pairing.Nodes subject resource) :
    pairing.Reads context pairing.Notes (annotationsOn subject) (annotationsOn resource) := by
  refine .look fun _ _ same => ?_
  rw [same.store.size]
  exact reads_annotationsWithin _ _ _ nodes

end Annotations

section Statements

/-- The translations read the same axiom. -/
abbrev States (pairing : Pairing) (context : Context) (body other : Translation Axiom) : Prop :=
  pairing.Reads context (fun bare => pairing.Covers bare.components) body other

variable {target counterpart : Term} (one : pairing.Terms object value) (two : pairing.Terms target counterpart)
  (nodes : pairing.Nodes subject resource)

section Pairs

variable {β γ : Type} {fine : β → Prop} {able : γ → Prop}

/-- An axiom that is read from two terms. -/
theorem states_pair {act : Term → Translation β} {deed : Term → Translation γ} (first : pairing.Reads context fine (act object) (act value))
    (second : pairing.Reads context able (deed target) (deed counterpart)) {make : β → γ → Axiom}
    (covers : ∀ a b, fine a → able b → pairing.Covers (make a b).components) :
    pairing.States context (do return make (← act object) (← deed target)) (do return make (← act value) (← deed counterpart)) :=
  first.bind fun a own => second.bind fun b able => .settled (covers a b own able)

theorem covers_pair {first second : Component} (one : pairing.Covered first) (two : pairing.Covered second) :
    pairing.Covers [first, second] := List.forall_mem_cons.mpr ⟨one, List.forall_mem_singleton.mpr two⟩

theorem covers_two_classes {first second : ClassExpression} (one : pairing.Covers first.components)
    (two : pairing.Covers second.components) : pairing.Covers ([first, second].flatMap ClassExpression.components) :=
  covers_classes (List.forall_mem_cons.mpr ⟨one, List.forall_mem_singleton.mpr two⟩)

end Pairs

include one in
theorem reads_classDefinition (predicate : Iri) : pairing.Reads context (fun cls : ClassExpression => pairing.Covers cls.components)
    (classDefinition predicate object) (classDefinition predicate value) := by
  have junction (junction : Junction) : pairing.Reads context (fun cls : ClassExpression => pairing.Covers cls.components)
      (do return .combination junction (← operandsWith classExpression object))
      (do return .combination junction (← operandsWith classExpression value)) := by
    refine (reads_operandsWith (fun _ _ own => reads_classExpression own) one).bind fun operands own => .settled ?_
    rw [ClassExpression.components, ClassExpression.componentsEach_eq]
    exact covers_classes own
  refine .ite Iff.rfl (fun _ => junction .intersection) fun _ => .ite Iff.rfl (fun _ => junction .union) fun _ =>
    .ite Iff.rfl (fun _ => ?_) fun _ => ?_
  · exact (reads_classExpression one).bind fun _ own => .settled own
  · exact (reads_operandsWith (fun _ _ own => reads_individual own) one).bind fun _ own => .settled (List.forall_mem_map.mpr own)

include one in
theorem tells_keyProperty (keys : Array PropertyExpression × Array Iri) :
    pairing.Tells context (keyProperty keys object) (keyProperty keys value) := by
  have shapes := one
  rcases shapes with (iri | pair) | literal
  case' resource.named => refine (tells_resolveProperty iri none).bind fun kind _ => ?_
  case' resource.blank => refine (Parallel.settled trivial : pairing.Tells context (pure PropertyKind.object) _).bind fun kind _ => ?_
  case' literal => refine (parallel_unexpected _ _ _ : pairing.Tells context _ _).bind fun kind _ => ?_
  all_goals
    cases kind with
    | object => exact (tells_propertyExpression one).bind fun _ _ => .settled trivial
    | data => exact (tells_dataProperty one).bind fun _ _ => .settled trivial
    | annotating => exact parallel_unexpected _ _ _

include one two in
theorem states_hasKey : pairing.States context (hasKey object target) (hasKey value counterpart) :=
  (reads_classExpression one).bind fun _ cls => (finds_readList two).relate fun _ _ listed =>
    (Parallel.foldlM listed (fun keys _ _ _ own => tells_keyProperty own keys) _ trivial).bind fun _ _ =>
      .settled (List.forall_mem_append.mpr ⟨List.forall_mem_append.mpr ⟨cls, List.forall_mem_map.mpr fun _ _ => trivial⟩,
        List.forall_mem_map.mpr fun _ _ => trivial⟩)

include one two in
theorem states_subPropertyOf : pairing.States context (subPropertyOf object target) (subPropertyOf value counterpart) := by
  refine (tells_pairKind one two).bind fun kind _ => ?_
  cases kind with
  | object =>
    exact states_pair (tells_propertyExpression one) (tells_propertyExpression two) fun _ _ _ _ => covers_pair trivial trivial
  | data => exact states_pair (tells_dataProperty one) (tells_dataProperty two) fun _ _ _ _ => covers_pair trivial trivial
  | annotating => exact states_pair (tells_named _ one) (tells_named _ two) fun _ _ _ _ => covers_pair trivial trivial

include one two in
theorem states_equivalentProperties :
    pairing.States context (equivalentProperties object target) (equivalentProperties value counterpart) := by
  refine (tells_pairKind one two).bind fun kind _ => ?_
  cases kind with
  | object =>
    exact states_pair (tells_propertyExpression one) (tells_propertyExpression two) fun _ _ _ _ => covers_pair trivial trivial
  | data => exact states_pair (tells_dataProperty one) (tells_dataProperty two) fun _ _ _ _ => covers_pair trivial trivial
  | annotating => exact parallel_unexpected _ _ _

include one two in
theorem states_disjointPair : pairing.States context (disjointPair object target) (disjointPair value counterpart) := by
  refine (tells_pairKind one two).bind fun kind _ => ?_
  cases kind with
  | object =>
    exact states_pair (tells_propertyExpression one) (tells_propertyExpression two) fun _ _ _ _ => covers_pair trivial trivial
  | data => exact states_pair (tells_dataProperty one) (tells_dataProperty two) fun _ _ _ _ => covers_pair trivial trivial
  | annotating => exact parallel_unexpected _ _ _

include nodes one in
theorem states_propertyDomain : pairing.States context (propertyDomain subject object) (propertyDomain resource value) := by
  refine (tells_subjectKind nodes none).bind fun kind _ => ?_
  cases kind with
  | object =>
    exact states_pair (tells_propertyExpression (.resource nodes)) (reads_classExpression one) fun _ _ _ own =>
      List.forall_mem_cons.mpr ⟨trivial, own⟩
  | data =>
    exact states_pair (tells_dataProperty (.resource nodes)) (reads_classExpression one) fun _ _ _ own =>
      List.forall_mem_cons.mpr ⟨trivial, own⟩
  | annotating =>
    exact states_pair (tells_named _ (.resource nodes)) (tells_named _ one) fun _ _ _ _ => covers_pair trivial trivial

include nodes one in
theorem states_propertyRange : pairing.States context (propertyRange subject object) (propertyRange resource value) := by
  refine .look fun first second same => ?_
  rw [same.shape? one]
  refine (tells_subjectKind nodes _).bind fun kind _ => ?_
  cases kind with
  | object =>
    exact states_pair (tells_propertyExpression (.resource nodes)) (reads_classExpression one) fun _ _ _ own =>
      List.forall_mem_cons.mpr ⟨trivial, own⟩
  | data =>
    exact states_pair (tells_dataProperty (.resource nodes)) (tells_dataRange one) fun _ range _ _ =>
      List.forall_mem_cons.mpr ⟨trivial, covers_dataRange range⟩
  | annotating =>
    exact states_pair (tells_named _ (.resource nodes)) (tells_named _ one) fun _ _ _ _ => covers_pair trivial trivial

include one in
theorem tells_assertionKind (predicate : Iri) :
    pairing.Tells context (assertionKind predicate object) (assertionKind predicate value) := by
  refine .look fun first second same => ?_
  rw [same.propertyKind?]
  split
  · exact .settled trivial
  · rw [one.literal?]
    refine .read fun _ => parallel_wait predicate (.read fun _ => .ite Iff.rfl (fun _ => ?_) fun _ => ?_)
    · exact (tells_learn _ _).bind fun _ _ => .settled trivial
    · exact .bind (tells_recover ⟨rfl, rfl⟩) fun _ _ => .settled trivial

include nodes one in
theorem states_assertion (predicate : Iri) :
    pairing.States context (assertion subject predicate object) (assertion resource predicate value) := by
  refine (tells_assertionKind one predicate).bind fun kind _ => ?_
  cases kind with
  | annotating =>
    exact (reads_individualOf nodes).bind fun _ own => (reads_annotationValue one).bind fun _ held =>
      .settled (List.forall_mem_cons.mpr ⟨trivial, covers_pair (covered_annotated own) held⟩)
  | object =>
    exact (tells_propertyExpression (.named predicate)).bind fun _ _ => (reads_individual (.resource nodes)).bind fun _ own =>
      (reads_individual one).bind fun _ held => .settled (List.forall_mem_cons.mpr ⟨trivial, covers_pair own held⟩)
  | data =>
    exact (tells_dataProperty (.named predicate)).bind fun _ _ => (reads_individual (.resource nodes)).bind fun _ own =>
      (tells_literal one).bind fun _ _ => .settled (List.forall_mem_cons.mpr ⟨trivial, covers_pair own trivial⟩)

include nodes one in
theorem states_predicateAxiom (predicate : Iri) :
    pairing.States context (predicateAxiom subject predicate object) (predicateAxiom resource predicate value) := by
  have self : pairing.Terms subject resource := .resource nodes
  have cls {object value : Term} (terms : pairing.Terms object value) : pairing.Reads context
    (fun cls => pairing.Covers cls.components) (classExpression object) (classExpression value) := reads_classExpression terms
  have individual {object value : Term} (terms : pairing.Terms object value) : pairing.Reads context
    (fun node => pairing.Covered (.individual node)) (individual object) (individual value) := reads_individual terms
  unfold predicateAxiom
  refine .ite Iff.rfl (fun _ => ?subClassOf) fun _ => .ite Iff.rfl (fun _ => ?equivalentClass) fun _ =>
    .ite Iff.rfl (fun _ => ?disjointWith) fun _ => .ite Iff.rfl (fun _ => ?disjointUnionOf) fun _ =>
    .ite Iff.rfl (fun _ => states_hasKey self one) fun _ => .ite Iff.rfl (fun _ => states_subPropertyOf self one) fun _ =>
    .ite Iff.rfl (fun _ => ?propertyChain) fun _ => .ite Iff.rfl (fun _ => states_equivalentProperties self one) fun _ =>
    .ite Iff.rfl (fun _ => states_disjointPair self one) fun _ => .ite Iff.rfl (fun _ => ?inverseOf) fun _ =>
    .ite Iff.rfl (fun _ => states_propertyDomain one nodes) fun _ =>
    .ite Iff.rfl (fun _ => states_propertyRange one nodes) fun _ => .ite Iff.rfl (fun _ => ?sameAs) fun _ =>
    .ite Iff.rfl (fun _ => ?differentFrom) fun _ => .ite Iff.rfl (fun _ => ?definition) fun _ => states_assertion one nodes predicate
  case subClassOf => exact states_pair (cls self) (cls one) fun _ _ sub sup => List.forall_mem_append.mpr ⟨sub, sup⟩
  case equivalentClass =>
    refine .look fun first second same => .ite (by rw [same.definesDatatype nodes one]) (fun _ => ?_) fun _ => ?_
    · exact states_pair (tells_named _ self) (tells_dataRange one) fun _ range _ _ =>
        List.forall_mem_cons.mpr ⟨trivial, covers_dataRange range⟩
    · exact states_pair (cls self) (cls one) fun _ _ => covers_two_classes
  case disjointWith => exact states_pair (cls self) (cls one) fun _ _ => covers_two_classes
  case disjointUnionOf =>
    exact (tells_named _ self).bind fun _ _ => (tells_learn _ _).bind fun _ _ =>
      (reads_operandsWith (fun _ _ own => reads_classExpression own) one).bind fun _ own =>
        .settled (List.forall_mem_cons.mpr ⟨trivial, covers_classes own⟩)
  case propertyChain =>
    exact (tells_propertyExpression self).bind fun _ _ =>
      (reads_operandsWith (fun _ _ own => tells_propertyExpression own) one).bind fun _ _ =>
        .settled (List.forall_mem_append.mpr ⟨List.forall_mem_map.mpr fun _ _ => trivial, List.forall_mem_singleton.mpr trivial⟩)
  case inverseOf =>
    exact states_pair (tells_propertyExpression self) (tells_propertyExpression one) fun _ _ _ _ => covers_pair trivial trivial
  case sameAs => exact states_pair (individual self) (individual one) fun _ _ => covers_pair
  case differentFrom => exact states_pair (individual self) (individual one) fun _ _ => covers_pair
  case definition => exact states_pair (cls self) (reads_classDefinition one predicate) fun _ _ => covers_two_classes

include nodes in
theorem states_functionalProperty : pairing.States context (functionalProperty subject) (functionalProperty resource) := by
  refine (tells_subjectKind nodes none).bind fun kind _ => ?_
  cases kind with
  | object => exact (tells_propertyExpression (.resource nodes)).bind fun _ _ => .settled (List.forall_mem_singleton.mpr trivial)
  | data => exact (tells_dataProperty (.resource nodes)).bind fun _ _ => .settled (List.forall_mem_singleton.mpr trivial)
  | annotating => exact parallel_unexpected _ _ _

include nodes one in
theorem states_classAssertion : pairing.States context (classAssertion subject object) (classAssertion resource value) := by
  refine .ite (by rw [one.literal?]) (fun _ => .stop (.failed ⟨rfl, rfl⟩) _ _) fun _ => ?_
  exact states_pair (reads_classExpression one) (reads_individual (.resource nodes)) fun _ _ own held =>
    List.forall_mem_append.mpr ⟨own, List.forall_mem_singleton.mpr held⟩

include nodes one in
theorem states_typeAxiom : pairing.States context (typeAxiom subject object) (typeAxiom resource value) := by
  rw [typeAxiom, typeAxiom, one.iri?]
  split
  · refine .ite Iff.rfl (fun _ => states_functionalProperty nodes) fun _ => ?_
    split
    · exact (tells_propertyExpression (.resource nodes)).bind fun _ _ => .settled (List.forall_mem_singleton.mpr trivial)
    · exact states_classAssertion one nodes
  · exact states_classAssertion one nodes

theorem states_disjointProperties (listed : List.Forall₂ pairing.Terms objects values) :
    pairing.States context (disjointProperties objects) (disjointProperties values) := by
  refine (tells_commonKind listed).bind fun kind _ => ?_
  cases kind with
  | object =>
    exact (Parallel.mapM listed fun _ _ own => tells_propertyExpression own).bind fun _ _ =>
      .settled (List.forall_mem_map.mpr fun _ _ => trivial)
  | data =>
    exact (Parallel.mapM listed fun _ _ own => tells_dataProperty own).bind fun _ _ =>
      .settled (List.forall_mem_map.mpr fun _ _ => trivial)
  | annotating => exact parallel_fail ⟨rfl, rfl⟩

section Entered

variable (entered : pairing.Nodes subject resource)
include entered

theorem states_negativeAssertion : pairing.States context (negativeAssertion subject) (negativeAssertion resource) := by
  refine (entered.finds _).relate fun _ _ source => (reads_individual source).bind fun _ own =>
    (entered.finds _).relate fun _ _ property => .look fun first second same =>
      .ite (by rw [isEmpty_of_forall₂ (same.store.matching entered _)]) (fun _ => ?_) fun _ => ?_
  · exact (entered.finds _).relate fun _ _ target => (tells_propertyExpression property).bind fun _ _ =>
      (reads_individual target).bind fun _ other => .settled (List.forall_mem_cons.mpr ⟨trivial, covers_pair own other⟩)
  · exact (entered.finds _).relate fun _ _ constant => (tells_dataProperty property).bind fun _ _ =>
      (tells_literal constant).bind fun _ _ => .settled (List.forall_mem_cons.mpr ⟨trivial, covers_pair own trivial⟩)

theorem states_nodeAxiom (type : Iri) : pairing.States context (nodeAxiom subject type) (nodeAxiom resource type) := by
  refine .ite Iff.rfl (fun _ => ?_) fun _ => .ite Iff.rfl (fun _ => ?_) fun _ => .ite Iff.rfl (fun _ => ?_) fun _ =>
    .ite Iff.rfl (fun _ => states_negativeAssertion entered) fun _ => ?_
  · exact (entered.finds _).relate fun _ _ head => (reads_operandsWith (fun _ _ own => reads_classExpression own) head).bind fun _ own =>
      .settled (covers_classes own)
  · exact (entered.finds _).relate fun _ _ head => (finds_readList head).relate fun _ _ listed => states_disjointProperties listed
  · refine .look fun first second same => ?_
    rw [isEmpty_of_forall₂ (same.store.matching entered _)]
    exact (entered.finds _).relate fun _ _ head => (reads_operandsWith (fun _ _ own => reads_individual own) head).bind fun _ own =>
      .settled (List.forall_mem_map.mpr own)
  · exact (reads_rule entered).bind fun _ own => .settled own

end Entered

theorem reads_statement (triples : pairing.Triples triple statement) :
    pairing.Reads context (fun fact => pairing.Covers fact.components) (Translation.statement triple) (Translation.statement statement) := by
  obtain ⟨subject, predicate, object⟩ := triple
  obtain ⟨resource, relation, value⟩ := statement
  have nodes : pairing.Nodes subject resource := triples.subject
  have terms : pairing.Terms object value := triples.object
  obtain rfl : relation = predicate := triples.predicate
  have bare {body other : Translation Axiom} (states : pairing.States context body other) :
      pairing.Reads context (fun fact : AnnotatedAxiom => pairing.Covers fact.components) (do return .of (← body) [])
        (do return .of (← other) []) :=
    states.bind fun _ own => .settled (Founded.covers_of own (List.forall_mem_nil _))
  rw [Translation.statement, Translation.statement, terms.iri?]
  refine .ite Iff.rfl (fun _ => ?_) fun _ => bare (states_predicateAxiom terms nodes _)
  split
  · exact (states_nodeAxiom nodes _).bind fun _ own => (reads_annotationsOn nodes).bind fun _ noted =>
      .settled (Founded.covers_of own noted)
  · exact bare (states_typeAxiom terms nodes)

end Statements

section Merging

theorem tells_insertMissing (node partner : Node) (triples : pairing.Triples triple statement) :
    pairing.Tells context (insertMissing node triple) (insertMissing partner statement) := by
  refine .bind (tells_recover ⟨rfl, rfl⟩) fun _ _ => .look fun first second same => ?_
  obtain ⟨number, stores⟩ := same.store.insert triples
  generalize first.store.insert triple = inserted at number stores
  generalize second.store.insert statement = added at number stores
  obtain ⟨id, store⟩ := inserted
  obtain ⟨copied, copy⟩ := added
  obtain rfl : copied = id := number
  cases copied with
  | none => exact parallel_fail ⟨rfl, rfl⟩
  | some id => exact Parallel.bind (.alter fun _ _ later => { later with store := stores }) fun _ _ => .settled trivial

theorem reads_lateStatement (id : TripleId) (triples : pairing.Triples triple statement) :
    pairing.Reads context (fun fact => pairing.Covers fact.components) (lateStatement id triple) (lateStatement id statement) := by
  refine (reads_statement triples).bind fun fact own => Parallel.bind (.alter fun first second same => ?_) fun _ _ => .settled own
  exact { same.consume id with
    produced := congrArg (·.insert id fact) same.produced
    founded := same.founded.tell own id }

theorem reads_annotatedFact (node partner : Node) (triples : pairing.Triples triple statement) :
    pairing.Reads context (fun fact => pairing.Covers fact.components) (annotatedFact node triple) (annotatedFact partner statement) := by
  refine .look fun first second same => ?_
  rw [same.store.find? triples]
  split
  · next id found =>
    rw [same.produced, same.store.isConsumed]
    split
    · next fact told => exact .settled (same.founded.told id fact told)
    · exact .ite Iff.rfl (fun _ => .stop (.failed ⟨rfl, rfl⟩) _ _) fun _ => reads_lateStatement id triples
  · exact (tells_insertMissing node partner triples).bind fun id _ => (reads_lateStatement id triples).cleanup fun first second same =>
      { same with store := same.store.remove id }

theorem tells_mergeAnnotations (nodes : pairing.Nodes subject resource) :
    pairing.Tells context (mergeAnnotations subject) (mergeAnnotations resource) := by
  refine (nodes.finds _).relate fun _ _ source => (nodes.finds _).relate fun _ _ property => (tells_named _ property).bind fun predicate _ =>
    (nodes.finds _).relate fun _ _ target => ?_
  cases source with
  | literal => exact parallel_fail ⟨rfl, rfl⟩
  | resource own =>
    have annotated : pairing.Triples ⟨_, predicate, _⟩ ⟨_, predicate, _⟩ := ⟨own, rfl, target⟩
    exact (tells_consumeReification nodes).bind fun _ _ => (reads_annotationsOn nodes).bind fun _ noted =>
      (reads_annotatedFact subject resource annotated).bind fun _ held => .alter fun _ _ same => same.addAnnotations held noted

end Merging

end OwlGraph.Pairing
