import OwlGraph.Proofs.Declarations
import OwlGraph.Proofs.Effects
import OwlGraph.Proofs.Phases

/-! Every translation leaves a reading behind, whatever comes of it. What it uses of the graph are
the insides of constructs, the triples of nodes that stand for axioms, annotations or parts of
rules, and, where a node is read leniently, the triples that the repair names. -/

namespace OwlGraph

namespace Setting

variable {setting : Setting} {session : Session} {told : List Triple} {row part : Row}

/-- All triples of the node may be used. -/
def Open (setting : Setting) (told : List Triple) (node : Node) : Prop :=
  ∀ row ∈ setting.rows, row.triple.subject = node → setting.Usable told row

theorem Holds.open_of_special (holds : setting.Holds session) {node : Node} (special : session.isSpecial node = true) :
    setting.Open told node := fun row member same =>
  ⟨member, .inl (holds.dependent_of_special (by rw [same]; exact special))⟩

/-- A type of a node that is listed among the special ones makes the node special. -/
theorem Holds.special_of_type (holds : setting.Holds session) (member : row ∈ setting.rows)
    (typed : row.triple.predicate = Rdf.type) {type : Iri} (object : row.triple.object.iri? = some type)
    (listed : type ∈ Role.specialTypes) : session.isSpecial row.triple.subject = true := by
  have inside : row ∈ session.store.matching row.triple.subject Rdf.type := by
    rw [TripleStore.matching, List.mem_filter, beq_iff_eq]
    exact ⟨holds.mem_withSubject.mpr ⟨member, rfl⟩, typed⟩
  have known : type ∈ session.store.types row.triple.subject := by
    rw [TripleStore.types, TripleStore.objects, List.mem_filterMap]
    exact ⟨_, List.mem_map_of_mem inside, object⟩
  rw [Session.isSpecial, Bool.or_eq_true]
  exact .inr (List.any_eq_true.mpr ⟨type, known, List.contains_iff_mem.mpr listed⟩)

theorem Holds.open_of_enters (holds : setting.Holds session) (member : row ∈ setting.rows)
    (enters : Role.entersNode row.triple = true) : setting.Open told row.triple.subject := by
  rw [Role.entersNode, Bool.and_eq_true, beq_iff_eq, Option.any_eq_true] at enters
  obtain ⟨typed, type, object, listed⟩ := enters
  have special : type ∈ Role.specialTypes :=
    List.mem_append_left _ (List.mem_append_right _ (List.contains_iff_mem.mp listed))
  exact holds.open_of_special (holds.special_of_type member typed object special)

/-- Triples of an anonymous construct that are no class axioms. -/
theorem dependent_of_construct (listed : part ∈ setting.rows) (anonymous : part.triple.subject.iri? = none)
    (describes : Session.describesConstruct part.triple = true) (same : row.triple.subject = part.triple.subject)
    (inner : Role.classAxiomPredicates.contains row.triple.predicate = false) : setting.Dependent row.triple := by
  intro session holds
  refine holds.dependent_of_structural ?_ inner session holds
  rw [same]
  have present := holds.mem_withSubject.mpr ⟨listed, rfl⟩
  cases subject : part.triple.subject with
  | named iri =>
    rw [subject] at anonymous
    cases anonymous
  | blank node => exact List.any_eq_true.mpr ⟨part, subject ▸ present, describes⟩

theorem describesConstruct_of_structural {triple : Triple} (listed : triple.predicate ∈ Role.structuralPredicates) :
    Session.describesConstruct triple = true := by
  rw [Session.describesConstruct, if_neg (Role.structural_not_candidate _ listed).1]
  exact List.contains_iff_mem.mpr listed

theorem structural_not_classAxiom {predicate : Iri} (listed : predicate ∈ Role.structuralPredicates) :
    Role.classAxiomPredicates.contains predicate = false := by
  have apart := (Role.structural_not_candidate _ listed).2.1
  simpa using apart

theorem dependent_of_inverse (member : row ∈ setting.rows) (anonymous : row.triple.subject.iri? = none)
    (predicate : row.triple.predicate ∈ Role.structuralPredicates) : setting.Dependent row.triple :=
  dependent_of_construct member anonymous (describesConstruct_of_structural predicate) rfl (structural_not_classAxiom predicate)

theorem dependent_of_listType (member : row ∈ setting.rows) (typed : Translation.isListType row.triple = true) :
    setting.Dependent row.triple := by
  rw [Translation.isListType, Bool.and_eq_true, beq_iff_eq, Bool.or_eq_true, beq_iff_eq, beq_iff_eq] at typed
  obtain ⟨type, list | atoms⟩ := typed
  · refine dependent_of_candidate fun session => ?_
    have triple : row.triple = ⟨row.triple.subject, Rdf.type, Rdf.List⟩ := by rw [← type, ← list]
    rw [triple]
    exact Session.isCandidate_type_eq_false (by decide) (by decide) session _
  · intro session holds
    have object : row.triple.object.iri? = some Swrl.AtomList := by rw [atoms]; rfl
    exact holds.dependent_of_special (holds.special_of_type member type object (by decide)) session holds

end Setting

namespace NodeView

variable {view : NodeView}

theorem exists_row_of_mem_objects {predicate : Iri} {object : Term} (member : object ∈ view.objects predicate) :
    ∃ row ∈ view.rows, row.triple.predicate = predicate ∧ row.triple.object = object := by
  simpa [objects, triples, and_assoc] using member

theorem exists_row_of_count {predicate : Iri} (one : view.count predicate = 1) :
    ∃ row ∈ view.rows, row.triple.predicate = predicate := by
  obtain ⟨object, single⟩ := List.length_eq_one_iff.mp one
  have inside : object ∈ view.objects predicate := by
    rw [single]
    exact List.mem_singleton_self object
  obtain ⟨row, member, same, -⟩ := exists_row_of_mem_objects inside
  exact ⟨row, member, same⟩

theorem exists_row_of_types {type : Iri} (only : view.types = [type]) :
    ∃ row ∈ view.rows, row.triple.predicate = Rdf.type ∧ row.triple.object.iri? = some type := by
  have member : type ∈ view.types := by
    rw [only]
    exact List.mem_singleton_self type
  obtain ⟨object, inside, same⟩ := List.mem_filterMap.mp member
  obtain ⟨row, listed, typed, rfl⟩ := exists_row_of_mem_objects inside
  exact ⟨row, listed, typed, same⟩

end NodeView

namespace Setting

variable {setting : Setting} {session : Session} {Form : Type}

theorem Holds.mem_view (holds : setting.Holds session) {node : Node} {row : Row} : row ∈ (session.view node).rows ↔
    row ∈ setting.rows ∧ row.triple.subject = node ∧
      Role.classAxiomPredicates.contains row.triple.predicate = false := by
  rw [Session.view, List.mem_filter, holds.mem_withSubject, Bool.not_eq_true', and_assoc]

/-- Every way to make up a form has a predicate that only constructs have. -/
def Anchored (family : Family Form) : Prop :=
  ∀ form, ∀ predicates ∈ (family.pattern form).alternatives, ∃ predicate ∈ predicates, predicate ∈ Role.structuralPredicates

variable {family : Family Form} {form : Form} {view : NodeView}

theorem Holds.dependent_of_construct_fits (holds : setting.Holds session) {node : BlankNode}
    (rows : view.rows = (session.view (.blank node)).rows) (anchored : Anchored family)
    (fits : (family.pattern form).fits view = true) : ∀ row ∈ view.rows, setting.Dependent row.triple := by
  simp only [Pattern.fits, Bool.and_eq_true, List.any_eq_true, List.all_eq_true, beq_iff_eq] at fits
  obtain ⟨-, predicates, chosen, each, -⟩ := fits
  obtain ⟨predicate, member, structural⟩ := anchored form predicates chosen
  obtain ⟨part, present, rfl⟩ := NodeView.exists_row_of_count (each predicate member)
  rw [rows, holds.mem_view] at present
  intro row inside
  rw [rows, holds.mem_view] at inside
  refine dependent_of_construct present.1 ?_ (describesConstruct_of_structural structural)
    (inside.2.1.trans present.2.1.symm) inside.2.2
  rw [present.2.1]
  rfl

theorem Holds.dependent_of_special_fits (holds : setting.Holds session) {node : Node}
    (rows : view.rows = (session.view node).rows) (listed : (family.pattern form).type ∈ Role.specialTypes)
    (fits : (family.pattern form).fits view = true) : ∀ row ∈ view.rows, setting.Dependent row.triple := by
  simp only [Pattern.fits, Bool.and_eq_true, beq_iff_eq] at fits
  obtain ⟨part, present, typed, object⟩ := NodeView.exists_row_of_types fits.1.1.1
  rw [rows, holds.mem_view] at present
  intro row inside
  rw [rows, holds.mem_view] at inside
  have special := holds.special_of_type present.1 typed object listed
  exact holds.dependent_of_special (by rw [inside.2.1, ← present.2.1]; exact special)

theorem anchored_dataRange : Anchored DataRangeForm.family := by
  intro form predicates chosen
  rcases form with (_ | _) | _ | _ | _ <;>
    simp_all [DataRangeForm.family, DataRangeForm.predicates, Junction.predicate, Role.structuralPredicates]

theorem anchored_class : Anchored ClassForm.family := by
  intro form predicates chosen
  cases form with
  | combination junction =>
    simp only [ClassForm.family, ClassForm.pattern, ClassForm.alternatives, List.mem_singleton] at chosen
    cases junction <;> simp [chosen, Junction.predicate, Role.structuralPredicates]
  | complement | oneOf =>
    simp only [ClassForm.family, ClassForm.pattern, ClassForm.alternatives, List.mem_singleton] at chosen
    simp [chosen, Role.structuralPredicates]
  | _ =>
    refine ⟨Owl.onProperty, ?_, by simp [Role.structuralPredicates]⟩
    simp only [ClassForm.family, ClassForm.pattern, ClassForm.alternatives, List.mem_cons, List.not_mem_nil, or_false] at chosen
    first
      | rw [chosen]; exact List.mem_cons_self
      | rcases chosen with rfl | rfl <;> exact List.mem_cons_self

theorem special_atom (form : AtomForm) : (AtomForm.family.pattern form).type ∈ Role.specialTypes := by
  cases form <;> simp [AtomForm.family, AtomForm.pattern, Role.specialTypes]

end Setting

namespace Translation

open Setting

variable {setting : Setting} {session : Session} {told : List Triple} {α β Form : Type}

section Primitives

theorem reads_fail (problem : Problem) (met : problem.isMet = true) :
    setting.Reads told (fail problem : Translation α) := .raise (.failed problem) met

theorem reads_unexpected (expectation : Expectation) (found : Term) :
    setting.Reads told (unexpected expectation found : Translation α) := .raise _ rfl

theorem recover_strict {context : Context} (mode : context.config.strict = true) (problem : Problem) (session : Session) :
    recover problem context session = (.error (.failed problem), session) := by
  change (if context.config.strict then fail problem else _ : Translation Unit) context session = _
  rw [mode]
  rfl

theorem recover_lax {context : Context} (mode : context.config.strict = false) (problem : Problem) (session : Session) :
    recover problem context session = (.ok (), { session with pending := session.pending.push problem }) := by
  change (if context.config.strict then _ else _ : Translation Unit) context session = _
  rw [mode]
  rfl

/-- What follows a repair may use the triples that the repair names. -/
theorem reads_repair (problem : Problem) {next : Unit → Translation α}
    (rest : setting.Reads (told ++ problem.triples) (next ())) (met : problem.isMet = true) :
    setting.Reads told (recover problem >>= next) := by
  intro context session holds
  cases mode : context.config.strict with
  | true =>
    rw [Run.bind_error (by rw [recover_strict mode]), recover_strict mode]
    refine ⟨[], [], _, _, (Session.reading_nil session _ _).symm, List.forall_mem_nil _, List.forall_mem_nil _, ?_⟩
    rintro _ ⟨⟩
    exact met
  | false =>
    have noted : { session with pending := session.pending.push problem } =
        session.reading [] [problem] session.kinds session.kindsChanged := by
      rw [Session.reading, ← Array.push_eq_append]
      rfl
    rw [Run.bind_run (recover_lax mode problem session), noted]
    obtain ⟨used, more, kinds, kindsChanged, same, usable, others, ends⟩ := rest context _ (holds.reading [] [problem] _ _)
    refine ⟨used, problem :: more, kinds, kindsChanged, same.trans (Session.reading_reading ..), fun row member => ?_,
      List.forall_mem_cons.mpr ⟨met, others⟩, ends⟩
    rw [List.flatMap_cons, ← List.append_assoc]
    exact usable row member

theorem reads_recover (problem : Problem) (met : problem.isMet = true) : setting.Reads told (recover problem) := by
  have reads : setting.Reads told (recover problem >>= pure) := reads_repair problem (.pure ()) met
  rwa [bind_pure] at reads

theorem reads_learn (iri : Iri) (kind : EntityKind) : setting.Reads told (learn iri kind) :=
  .of_kinds (fun _ session => Session.learn_shape session iri kind) fun _ _ _ => nofun

theorem reads_consumeAll {rows : List Row} (usable : ∀ row ∈ rows, setting.Usable told row) :
    setting.Reads told (consumeAll rows) := by
  intro context session _
  refine ⟨rows, [], session.kinds, session.kindsChanged, ?_, fun row member => ?_, List.forall_mem_nil _, fun _ => nofun⟩
  · rw [Session.reading, Array.append_empty]
    rfl
  · rw [List.flatMap_nil, List.append_nil]
    exact usable row member

theorem reads_consume {row : Row} (usable : setting.Usable told row) : setting.Reads told (consume row.id) :=
  have all : ∀ other ∈ [row], setting.Usable told other := fun _ single => List.mem_singleton.mp single ▸ usable
  reads_consumeAll all

theorem reads_nested {body : Translation α} (node : Node) (reads : setting.Reads told body) :
    setting.Reads told (nested node body) := by
  intro context session holds
  rw [nested]
  split
  · refine ⟨[], [], _, _, (Session.reading_nil session _ _).symm, List.forall_mem_nil _, List.forall_mem_nil _, ?_⟩
    rintro _ ⟨⟩
    rfl
  · obtain ⟨used, noted, kinds, kindsChanged, same, usable⟩ :=
      reads context _ (holds.visit (node :: session.visiting))
    refine ⟨used, noted, kinds, kindsChanged, ?_, usable⟩
    let after := (body context { session with visiting := node :: session.visiting }).2
    calc
      { after with visiting := after.visiting.erase node }
      _ = { session.reading used noted kinds kindsChanged with visiting := (node :: session.visiting).erase node } := by
        rw [show after = _ from same]
        rfl
      _ = session.reading used noted kinds kindsChanged := by
        rw [List.erase_cons_head]
        rfl

end Primitives

section Properties

theorem reads_resolveProperty (iri : Iri) (hint : Option PropertyKind) : setting.Reads told (resolveProperty iri hint) := by
  refine .look fun session _ => ?_
  split
  · exact .pure _
  · exact (reads_learn _ _).bind fun _ => .pure _
  · refine .read fun context => ?_
    have rest : setting.Reads told (do
        recover (.undeclaredProperty iri)
        learn iri .objectProperty
        return PropertyKind.object) :=
      (reads_recover _ rfl).bind fun _ => (reads_learn _ _).bind fun _ => .pure _
    exact .ite rest (.stop _ _ rfl)

theorem reads_commonKind (members : List Term) : setting.Reads told (commonKind members) := by
  refine .look fun session _ => ?_
  split
  · exact .pure _
  · exact reads_resolveProperty _ _
  · exact reads_unexpected _ _
  · exact .pure _

theorem reads_pairKind (first second : Term) : setting.Reads told (pairKind first second) :=
  (reads_commonKind _).bind fun kind => (Reads.forM (fun iri => reads_learn iri _) _).bind fun _ => .pure kind

theorem reads_subjectKind (subject : Node) (hint : Option PropertyKind) : setting.Reads told (subjectKind subject hint) := by
  cases subject with
  | named iri => exact reads_resolveProperty iri hint
  | blank _ => exact .pure _

end Properties

section Collections

theorem reads_listStep (head : Term) (node : Node) {predicate : Iri} (structural : predicate ∈ Role.structuralPredicates)
    (inner : predicate ≠ Owl.inverseOf ∧ predicate ∉ Role.definitionPredicates) :
    setting.Reads told (listStep head node predicate) := by
  refine .look fun session holds => ?_
  split
  · rename_i row only
    have member : row ∈ session.store.matching node predicate := only ▸ List.mem_singleton_self row
    rw [TripleStore.matching, List.mem_filter, holds.mem_withSubject, beq_iff_eq] at member
    obtain ⟨⟨listed, -⟩, rfl⟩ := member
    exact (reads_consume ⟨listed, .inl (dependent_of_predicate structural inner)⟩).bind fun _ => .pure _
  · exact reads_fail _ rfl
  · exact reads_fail _ rfl

theorem reads_readListFrom (head : Term) : ∀ (room : Nat) (visited : Std.HashSet Node) (elements : Array Term)
    (current : Term), setting.Reads told (readListFrom head room visited elements current) := by
  intro room
  induction room with
  | zero =>
    intro visited elements current
    unfold readListFrom
    refine .ite (.pure _) ?_
    split
    · exact .ite (.stop _ _ rfl) (.read fun _ => reads_fail _ rfl)
    · exact reads_fail _ rfl
  | succ room ih =>
    intro visited elements current
    unfold readListFrom
    refine .ite (.pure _) ?_
    split
    · rename_i node _
      have step : setting.Reads told (do
          let first ← listStep head node Rdf.first
          let rest ← listStep head node Rdf.rest
          let session ← get
          consumeAll ((session.store.withSubject node).filter fun row => isListType row.triple)
          readListFrom head room (visited.insert node) (elements.push first) rest) := by
        refine (reads_listStep _ _ (by decide) (by decide)).bind fun _ =>
          (reads_listStep _ _ (by decide) (by decide)).bind fun _ => .look fun session holds =>
            (reads_consumeAll fun row member => ?_).bind fun _ => ih _ _ _
        rw [List.mem_filter, holds.mem_withSubject] at member
        exact ⟨member.1.1, .inl (dependent_of_listType member.1.1 member.2)⟩
      exact .ite (.stop _ _ rfl) step
    · exact reads_fail _ rfl

theorem reads_readList (head : Term) : setting.Reads told (readList head) := .read fun _ => reads_readListFrom head _ _ _ _

theorem reads_operands (head : Term) : setting.Reads told (operands head) :=
  (reads_readList head).bind fun _ => .ite ((reads_recover _ rfl).bind fun _ => .pure _) (.pure _)

theorem reads_operandsWith {read : Term → Translation α} (each : ∀ term, setting.Reads told (read term)) (head : Term) :
    setting.Reads told (operandsWith read head) :=
  (reads_operands head).bind fun elements => .mapM elements fun term _ => each term

end Collections

section Patterns

/-- A node that fits a pattern strictly has no triples that stand for axioms of their own, and one
that fits it leniently has a repair that names them all. -/
theorem reads_dispatch {family : Family Form} {view : NodeView} {readForm : Form → Translation α}
    (listed : ∀ row ∈ view.rows, row ∈ setting.rows)
    (fitting : ∀ form, (family.pattern form).fits view = true → ∀ row ∈ view.rows, setting.Dependent row.triple)
    (each : ∀ told form, setting.Reads told (readForm form)) : setting.Reads told (dispatch family view readForm) := by
  have rest (told : List Triple) (form : Form) (usable : ∀ row ∈ view.rows, setting.Usable told row) :
      setting.Reads told (do
        let result ← readForm form
        consumeAll view.rows
        return result) :=
    (each told form).bind fun result => (reads_consumeAll usable).bind fun _ => .pure result
  unfold dispatch selectForm
  split
  · rename_i form found
    rw [pure_bind]
    have fits := List.find?_some found
    exact rest told form fun row member => ⟨listed row member, .inl (fitting form fits row member)⟩
  · split
    · exact .stop _ _ rfl
    · rw [bind_assoc]
      refine reads_repair _ ?_ rfl
      rw [pure_bind]
      exact rest _ _ fun row member =>
        ⟨listed row member, .inr (List.mem_append_right _ (List.mem_map_of_mem member))⟩

theorem reads_value (view : NodeView) (predicate : Iri) : setting.Reads told (value view predicate) := by
  unfold value
  split
  · exact reads_fail _ rfl
  · exact .pure _
  · exact (reads_recover _ rfl).bind fun _ => .pure _

theorem reads_singleObject (node : Node) (predicate : Iri) (usable : ∀ row ∈ setting.rows, row.triple.subject = node →
    row.triple.predicate = predicate → setting.Usable told row) : setting.Reads told (singleObject node predicate) := by
  refine .look fun session holds => (reads_value _ _).bind fun object =>
    (reads_consumeAll fun row member => ?_).bind fun _ => .pure object
  rw [List.mem_filter, holds.mem_view, beq_iff_eq] at member
  exact usable row member.1.1 member.1.2.1 member.2

/-- Reading a value by which a node gathers the parts of an axiom. -/
theorem reads_gathered (node : Node) {predicate : Iri} (structural : predicate ∈ Role.structuralPredicates)
    (inner : predicate ≠ Owl.inverseOf ∧ predicate ∉ Role.definitionPredicates) :
    setting.Reads told (singleObject node predicate) :=
  reads_singleObject node predicate fun _ listed _ same =>
    ⟨listed, .inl (dependent_of_predicate (same ▸ structural) (same ▸ inner))⟩

end Patterns

section Operands

theorem reads_named (expectation : Expectation) (term : Term) : setting.Reads told (named expectation term) := by
  unfold named
  split
  · exact .pure _
  · exact reads_unexpected _ _

theorem reads_propertyExpression (term : Term) : setting.Reads told (propertyExpression term) := by
  rcases term with (iri | node) | _
  · exact (reads_learn _ _).bind fun _ => .pure _
  · refine (reads_singleObject _ _ fun row listed subject inverse => ⟨listed, .inl ?_⟩).bind fun object => ?_
    · exact dependent_of_inverse listed (by rw [subject]; rfl) (by rw [inverse]; decide)
    · split
      · exact (reads_learn _ _).bind fun _ => .pure _
      · exact reads_unexpected _ _
  · exact reads_unexpected _ _

theorem reads_dataProperty (term : Term) : setting.Reads told (dataProperty term) :=
  (reads_named _ _).bind fun iri => (reads_learn _ _).bind fun _ => .pure iri

theorem reads_individualOf (node : Node) : setting.Reads told (individualOf node) :=
  .look fun _ _ => .read fun _ => .pure _

theorem reads_individual (term : Term) : setting.Reads told (individual term) := by
  unfold individual
  split
  · exact reads_individualOf _
  · exact reads_unexpected _ _

theorem reads_literal (term : Term) : setting.Reads told (literal term) := by
  unfold literal
  split
  · exact .pure _
  · exact reads_unexpected _ _

theorem reads_annotationValue (term : Term) : setting.Reads told (annotationValue term) :=
  .look fun _ _ => .read fun _ => .pure _

theorem reads_asVariable (term : Term) : setting.Reads told (asVariable term) := .look fun _ _ => .pure _

theorem reads_individualArgument (term : Term) : setting.Reads told (individualArgument term) := by
  refine (reads_asVariable term).bind fun iri => ?_
  split
  · exact .pure _
  · exact (reads_individual term).bind fun _ => .pure _

theorem reads_dataArgument (term : Term) : setting.Reads told (dataArgument term) := by
  refine (reads_asVariable term).bind fun iri => ?_
  split
  · exact .pure _
  · exact (reads_literal term).bind fun _ => .pure _

theorem reads_cardinality (term : Term) : setting.Reads told (cardinality term) := by
  unfold cardinality
  split
  · split
    · exact reads_fail _ rfl
    · exact reads_fail _ rfl
    · exact .ite (.pure _) ((reads_recover _ rfl).bind fun _ => .pure _)
  · exact reads_unexpected _ _

end Operands

section Expressions

theorem reads_facetRestriction (element : Term) : setting.Reads told (facetRestriction element) := by
  unfold facetRestriction
  split
  · rename_i node _
    refine .look fun session holds => ?_
    dsimp only
    split
    · rename_i row only
      have member : row ∈ (session.view node).rows.filter fun row => row.triple.predicate.isFacet :=
        only ▸ List.mem_singleton_self row
      rw [List.mem_filter, holds.mem_view] at member
      exact (reads_literal _).bind fun _ =>
        (reads_consume ⟨member.1.1, .inl (dependent_of_facet member.2)⟩).bind fun _ => .pure _
    · exact reads_fail _ rfl
  · exact reads_unexpected _ _

theorem reads_readDataRange {inner : Term → Translation DataRange} (each : ∀ term, setting.Reads told (inner term))
    (view : NodeView) (form : DataRangeForm) : setting.Reads told (readDataRange inner view form) := by
  have value (predicate : Iri) : setting.Reads told (value view predicate) := reads_value view predicate
  cases form with
  | combination junction =>
    exact (value _).bind fun head => (reads_operands head).bind fun elements =>
      (Reads.mapM elements fun term _ => each term).bind fun _ => .pure _
  | complement => exact (value _).bind fun object => (each object).bind fun _ => .pure _
  | oneOf =>
    exact (value _).bind fun head => (reads_operands head).bind fun elements =>
      (Reads.mapM elements fun term _ => reads_literal term).bind fun _ => .pure _
  | restriction =>
    exact (value _).bind fun base => (reads_named _ base).bind fun _ => (value _).bind fun head =>
      (reads_readList head).bind fun elements =>
        (Reads.mapM elements fun term _ => reads_facetRestriction term).bind fun _ => .pure _

theorem reads_dataRangeWithin (depth : Nat) : ∀ told term, setting.Reads told (dataRangeWithin depth term) := by
  have named (depth : Nat) (told : List Triple) (iri : Iri) :
      setting.Reads told (dataRangeWithin depth (.resource (.named iri))) := by
    unfold dataRangeWithin
    exact (reads_learn _ _).bind fun _ => .pure _
  have literal (depth : Nat) (told : List Triple) (value : Literal) :
      setting.Reads told (dataRangeWithin depth (.literal value)) := by
    unfold dataRangeWithin
    exact reads_unexpected _ _
  induction depth with
  | zero =>
    rintro told ((iri | node) | value)
    · exact named _ told iri
    · exact reads_fail _ rfl
    · exact literal _ told value
  | succ depth ih =>
    rintro told ((iri | node) | value)
    · exact named _ told iri
    · refine reads_nested _ (.look fun session holds => reads_dispatch (fun row member => (holds.mem_view.mp member).1)
        (fun form fits => ?_) fun told form => reads_readDataRange (ih told) _ form)
      exact holds.dependent_of_construct_fits rfl anchored_dataRange fits
    · exact literal _ told value

theorem reads_depthLimit : setting.Reads told depthLimit := .look fun _ _ => .pure _

theorem reads_dataRange (term : Term) : setting.Reads told (dataRange term) :=
  reads_depthLimit.bind fun depth => reads_dataRangeWithin depth told term

theorem reads_restrictionKind (view : NodeView) : setting.Reads told (restrictionKind view) := by
  unfold restrictionKind
  split
  · exact .pure _
  · exact .look fun _ _ => (reads_resolveProperty _ _).bind fun _ => .pure _
  · exact .pure _

theorem reads_boundOf (view : NodeView) (bound : Bound) (fillerPredicate : Iri) {filler : Term → Translation α}
    (each : ∀ term, setting.Reads told (filler term)) :
    setting.Reads told (boundOf view bound fillerPredicate filler) := by
  have value (predicate : Iri) : setting.Reads told (value view predicate) := reads_value view predicate
  exact .ite
    ((value _).bind fun number => (reads_cardinality number).bind fun _ => (value _).bind fun object =>
      (each object).bind fun _ => .pure _)
    ((value _).bind fun number => (reads_cardinality number).bind fun _ => .pure _)

theorem reads_readClassExpression {inner : Term → Translation ClassExpression}
    (each : ∀ term, setting.Reads told (inner term)) (view : NodeView) (form : ClassForm) :
    setting.Reads told (readClassExpression inner view form) := by
  have value (predicate : Iri) : setting.Reads told (value view predicate) := reads_value view predicate
  cases form with
  | combination junction =>
    exact (value _).bind fun head => (reads_operands head).bind fun elements =>
      (Reads.mapM elements fun term _ => each term).bind fun _ => .pure _
  | complement => exact (value _).bind fun object => (each object).bind fun _ => .pure _
  | oneOf =>
    exact (value _).bind fun head => (reads_operands head).bind fun elements =>
      (Reads.mapM elements fun term _ => reads_individual term).bind fun _ => .pure _
  | objectValues quantifier =>
    exact (value _).bind fun object => (reads_propertyExpression object).bind fun _ =>
      (value _).bind fun filler => (each filler).bind fun _ => .pure _
  | objectHasValue =>
    exact (value _).bind fun object => (reads_propertyExpression object).bind fun _ =>
      (value _).bind fun filler => (reads_individual filler).bind fun _ => .pure _
  | hasSelf =>
    exact (value _).bind fun object => (reads_propertyExpression object).bind fun _ =>
      (value _).bind fun truth => (reads_literal truth).bind fun _ => .ite (.pure _) (.stop _ _ rfl)
  | objectCardinality bound =>
    exact (value _).bind fun object => (reads_propertyExpression object).bind fun _ =>
      (reads_boundOf view bound _ each).bind fun _ => .pure _
  | dataValues quantifier =>
    exact (value _).bind fun object => (reads_dataProperty object).bind fun _ =>
      (value _).bind fun filler => (reads_dataRange filler).bind fun _ => .pure _
  | dataHasValue =>
    exact (value _).bind fun object => (reads_dataProperty object).bind fun _ =>
      (value _).bind fun filler => (reads_literal filler).bind fun _ => .pure _
  | dataCardinality bound =>
    exact (value _).bind fun object => (reads_dataProperty object).bind fun _ =>
      (reads_boundOf view bound _ reads_dataRange).bind fun _ => .pure _

theorem reads_classExpressionWithin (depth : Nat) : ∀ told term, setting.Reads told (classExpressionWithin depth term) := by
  have named (depth : Nat) (told : List Triple) (iri : Iri) :
      setting.Reads told (classExpressionWithin depth (.resource (.named iri))) := by
    unfold classExpressionWithin
    exact (reads_learn _ _).bind fun _ => .pure _
  have literal (depth : Nat) (told : List Triple) (value : Literal) :
      setting.Reads told (classExpressionWithin depth (.literal value)) := by
    unfold classExpressionWithin
    exact reads_unexpected _ _
  induction depth with
  | zero =>
    rintro told ((iri | node) | value)
    · exact named _ told iri
    · exact reads_fail _ rfl
    · exact literal _ told value
  | succ depth ih =>
    rintro told ((iri | node) | value)
    · exact named _ told iri
    · refine reads_nested _ (.look fun session holds => (reads_restrictionKind _).bind fun _ =>
        reads_dispatch (fun row member => (holds.mem_view.mp member).1) (fun form fits => ?_)
          fun told form => reads_readClassExpression (ih told) _ form)
      exact holds.dependent_of_construct_fits rfl anchored_class fits
    · exact literal _ told value

theorem reads_classExpression (term : Term) : setting.Reads told (classExpression term) :=
  reads_depthLimit.bind fun depth => reads_classExpressionWithin depth told term

end Expressions

section Rules

theorem reads_atomPropertyKind (view : NodeView) : setting.Reads told (atomPropertyKind view) := by
  unfold atomPropertyKind
  split
  · exact (reads_resolveProperty _ _).bind fun _ => .pure _
  · exact .pure _

theorem reads_readAtom (view : NodeView) (form : AtomForm) : setting.Reads told (readAtom view form) := by
  have value (predicate : Iri) : setting.Reads told (value view predicate) := reads_value view predicate
  cases form with
  | cls =>
    exact (value _).bind fun predicate => (value _).bind fun argument =>
      (reads_classExpression predicate).bind fun _ => (reads_individualArgument argument).bind fun _ => .pure _
  | dataRange =>
    exact (value _).bind fun range => (value _).bind fun argument =>
      (reads_dataRange range).bind fun _ => (reads_dataArgument argument).bind fun _ => .pure _
  | objectProperty =>
    exact (value _).bind fun predicate => (value _).bind fun subject => (value _).bind fun object =>
      (reads_propertyExpression predicate).bind fun _ => (reads_individualArgument subject).bind fun _ =>
        (reads_individualArgument object).bind fun _ => .pure _
  | dataProperty =>
    exact (value _).bind fun predicate => (value _).bind fun subject => (value _).bind fun object =>
      (reads_dataProperty predicate).bind fun _ => (reads_individualArgument subject).bind fun _ =>
        (reads_dataArgument object).bind fun _ => .pure _
  | sameIndividual | differentIndividuals =>
    exact (value _).bind fun first => (value _).bind fun second =>
      (reads_individualArgument first).bind fun _ => (reads_individualArgument second).bind fun _ => .pure _
  | builtin =>
    exact (value _).bind fun predicate => (value _).bind fun list => (reads_named _ predicate).bind fun _ =>
      (reads_readList list).bind fun elements =>
        (Reads.mapM elements fun term _ => reads_dataArgument term).bind fun _ => .pure _

theorem reads_atom (term : Term) : setting.Reads told (atom term) := by
  unfold atom
  split
  · refine reads_nested _ (.look fun session holds => (reads_atomPropertyKind _).bind fun _ =>
      reads_dispatch (fun row member => (holds.mem_view.mp member).1) (fun form fits => ?_)
        fun _ => reads_readAtom _)
    exact holds.dependent_of_special_fits rfl (special_atom form) fits
  · exact reads_unexpected _ _

theorem reads_atoms (head : Term) : setting.Reads told (atoms head) :=
  (reads_readList head).bind fun elements => .mapM elements fun term _ => reads_atom term

theorem reads_rule (node : Node) : setting.Reads told (rule node) :=
  (reads_gathered node (by decide) (by decide)).bind fun body => (reads_gathered node (by decide) (by decide)).bind fun head =>
    (reads_atoms body).bind fun _ => (reads_atoms head).bind fun _ => .pure _

end Rules

section Annotations

/-- Nodes that stand for the annotation of a triple are special. -/
theorem special_of_reifier {source reifier : Node} {property : Iri} {value : Term}
    (member : reifier ∈ session.reifiers source property value) : session.isSpecial reifier = true := by
  rw [Session.reifiers, List.mem_filter, Bool.and_eq_true, Bool.and_eq_true, Session.standsForTriple, Bool.or_eq_true] at member
  rw [Session.isSpecial, Bool.or_eq_true]
  have types : Owl.Annotation ∈ Role.specialTypes ∧ Owl.Axiom ∈ Role.specialTypes := by decide
  rcases member.2.1.1 with annotation | ax
  · exact .inr (List.any_eq_true.mpr ⟨_, List.contains_iff_mem.mp annotation, List.contains_iff_mem.mpr types.1⟩)
  · exact .inr (List.any_eq_true.mpr ⟨_, List.contains_iff_mem.mp ax, List.contains_iff_mem.mpr types.2⟩)

theorem reads_consumeReification {node : Node} (free : setting.Open told node) :
    setting.Reads told (consumeReification node) := by
  refine .look fun session holds => reads_consumeAll fun row member => ?_
  rw [List.mem_filter, holds.mem_withSubject] at member
  exact free row member.1.1 member.1.2

theorem reads_readNote {inner : Node → Translation (List Annotation)}
    (each : ∀ node, setting.Open told node → setting.Reads told (inner node)) {row : Row}
    (usable : setting.Usable told row) : setting.Reads told (readNote inner row) := by
  obtain ⟨id, source, property, object⟩ := row
  refine .look fun session _ => .ite ?_ (.pure none)
  refine (reads_learn property _).bind fun _ => (reads_annotationValue object).bind fun value =>
    (reads_consume usable).bind fun _ => .look fun session holds => (Reads.mapM _ fun reifier member => ?_).bind fun _ => .pure _
  have free : setting.Open told reifier := holds.open_of_special (special_of_reifier member)
  exact reads_nested reifier ((reads_consumeReification free).bind fun _ => each reifier free)

theorem reads_annotationsWithin (depth : Nat) : ∀ node, setting.Open told node →
    setting.Reads told (annotationsWithin depth node) := by
  induction depth with
  | zero => exact fun node _ => reads_fail _ rfl
  | succ depth ih =>
    intro node free
    refine .look fun session holds => (Reads.mapM _ fun row member => reads_readNote ih ?_).bind fun _ => .pure _
    rw [Session.unused, List.mem_filter, holds.mem_withSubject] at member
    exact free row member.1.1 member.1.2

theorem reads_annotationsOn {node : Node} (free : setting.Open told node) : setting.Reads told (annotationsOn node) :=
  .look fun _ _ => reads_annotationsWithin _ node free

end Annotations

section Statements

theorem reads_classDefinition (predicate : Iri) (object : Term) : setting.Reads told (classDefinition predicate object) :=
  .ite ((reads_operandsWith reads_classExpression object).bind fun _ => .pure _)
    (.ite ((reads_operandsWith reads_classExpression object).bind fun _ => .pure _)
      (.ite ((reads_classExpression object).bind fun _ => .pure _)
        ((reads_operandsWith reads_individual object).bind fun _ => .pure _)))

theorem reads_keyProperty (keys : Array PropertyExpression × Array Iri) (property : Term) :
    setting.Reads told (keyProperty keys property) := by
  rcases property with (iri | node) | value
  case' resource.named => refine (reads_resolveProperty iri none).bind fun kind => ?_
  case' resource.blank => refine (Reads.pure PropertyKind.object).bind fun kind => ?_
  case' literal => refine (reads_unexpected _ _).bind fun kind => ?_
  all_goals
    cases kind with
    | object => exact (reads_propertyExpression _).bind fun _ => .pure _
    | data => exact (reads_dataProperty _).bind fun _ => .pure _
    | annotating => exact reads_unexpected _ _

theorem reads_hasKey (subject object : Term) : setting.Reads told (hasKey subject object) :=
  (reads_classExpression subject).bind fun _ => (reads_readList object).bind fun elements =>
    (Reads.foldlM reads_keyProperty elements _).bind fun _ => .pure _

theorem reads_subPropertyOf (subject object : Term) : setting.Reads told (subPropertyOf subject object) := by
  refine (reads_pairKind subject object).bind fun kind => ?_
  cases kind with
  | object =>
    exact (reads_propertyExpression subject).bind fun _ => (reads_propertyExpression object).bind fun _ => .pure _
  | data => exact (reads_dataProperty subject).bind fun _ => (reads_dataProperty object).bind fun _ => .pure _
  | annotating => exact (reads_named _ subject).bind fun _ => (reads_named _ object).bind fun _ => .pure _

theorem reads_equivalentProperties (subject object : Term) : setting.Reads told (equivalentProperties subject object) := by
  refine (reads_pairKind subject object).bind fun kind => ?_
  cases kind with
  | object =>
    exact (reads_propertyExpression subject).bind fun _ => (reads_propertyExpression object).bind fun _ => .pure _
  | data => exact (reads_dataProperty subject).bind fun _ => (reads_dataProperty object).bind fun _ => .pure _
  | annotating => exact reads_unexpected _ _

theorem reads_disjointPair (subject object : Term) : setting.Reads told (disjointPair subject object) := by
  refine (reads_pairKind subject object).bind fun kind => ?_
  cases kind with
  | object =>
    exact (reads_propertyExpression subject).bind fun _ => (reads_propertyExpression object).bind fun _ => .pure _
  | data => exact (reads_dataProperty subject).bind fun _ => (reads_dataProperty object).bind fun _ => .pure _
  | annotating => exact reads_unexpected _ _

theorem reads_propertyDomain (subject : Node) (object : Term) : setting.Reads told (propertyDomain subject object) := by
  refine (reads_subjectKind subject none).bind fun kind => ?_
  cases kind with
  | object =>
    exact (reads_propertyExpression _).bind fun _ => (reads_classExpression object).bind fun _ => .pure _
  | data => exact (reads_dataProperty _).bind fun _ => (reads_classExpression object).bind fun _ => .pure _
  | annotating => exact (reads_named _ _).bind fun _ => (reads_named _ object).bind fun _ => .pure _

theorem reads_propertyRange (subject : Node) (object : Term) : setting.Reads told (propertyRange subject object) := by
  refine .look fun session _ => (reads_subjectKind subject _).bind fun kind => ?_
  cases kind with
  | object =>
    exact (reads_propertyExpression _).bind fun _ => (reads_classExpression object).bind fun _ => .pure _
  | data => exact (reads_dataProperty _).bind fun _ => (reads_dataRange object).bind fun _ => .pure _
  | annotating => exact (reads_named _ _).bind fun _ => (reads_named _ object).bind fun _ => .pure _

theorem reads_assertionKind (predicate : Iri) (object : Term) : setting.Reads told (assertionKind predicate object) := by
  refine .look fun session _ => ?_
  split
  · exact .pure _
  · refine .read fun _ => .ite ?_ (.stop _ _ rfl)
    exact .read fun _ => .ite ((reads_learn _ _).bind fun _ => .pure _) ((reads_recover _ rfl).bind fun _ => .pure _)

theorem reads_assertion (subject : Node) (predicate : Iri) (object : Term) :
    setting.Reads told (assertion subject predicate object) := by
  refine (reads_assertionKind predicate object).bind fun kind => ?_
  cases kind with
  | annotating => exact (reads_individualOf subject).bind fun _ => (reads_annotationValue object).bind fun _ => .pure _
  | object =>
    exact (reads_propertyExpression _).bind fun _ => (reads_individual _).bind fun _ =>
      (reads_individual object).bind fun _ => .pure _
  | data =>
    exact (reads_dataProperty _).bind fun _ => (reads_individual _).bind fun _ =>
      (reads_literal object).bind fun _ => .pure _

theorem reads_predicateAxiom (subject : Node) (predicate : Iri) (object : Term) :
    setting.Reads told (predicateAxiom subject predicate object) := by
  have cls (term : Term) : setting.Reads told (classExpression term) := reads_classExpression term
  unfold predicateAxiom
  refine .ite ?_ (.ite ?_ (.ite ?_ (.ite ?_ (.ite (reads_hasKey _ object) (.ite (reads_subPropertyOf _ object)
    (.ite ?_ (.ite (reads_equivalentProperties _ object) (.ite (reads_disjointPair _ object)
      (.ite ?_ (.ite (reads_propertyDomain subject object) (.ite (reads_propertyRange subject object)
        (.ite ?_ (.ite ?_ (.ite ?_ (reads_assertion subject predicate object)))))))))))))))
  · exact (cls _).bind fun _ => (cls object).bind fun _ => .pure _
  · refine .look fun session _ => .ite ?_ ?_
    · exact (reads_named _ _).bind fun _ => (reads_dataRange object).bind fun _ => .pure _
    · exact (cls _).bind fun _ => (cls object).bind fun _ => .pure _
  · exact (cls _).bind fun _ => (cls object).bind fun _ => .pure _
  · exact (reads_named _ _).bind fun _ => (reads_learn _ _).bind fun _ =>
      (reads_operandsWith reads_classExpression object).bind fun _ => .pure _
  · exact (reads_propertyExpression _).bind fun _ =>
      (reads_operandsWith reads_propertyExpression object).bind fun _ => .pure _
  · exact (reads_propertyExpression _).bind fun _ => (reads_propertyExpression object).bind fun _ => .pure _
  · exact (reads_individual _).bind fun _ => (reads_individual object).bind fun _ => .pure _
  · exact (reads_individual _).bind fun _ => (reads_individual object).bind fun _ => .pure _
  · exact (cls _).bind fun _ => (reads_classDefinition predicate object).bind fun _ => .pure _

theorem reads_functionalProperty (subject : Node) : setting.Reads told (functionalProperty subject) := by
  refine (reads_subjectKind subject none).bind fun kind => ?_
  cases kind with
  | object => exact (reads_propertyExpression _).bind fun _ => .pure _
  | data => exact (reads_dataProperty _).bind fun _ => .pure _
  | annotating => exact reads_unexpected _ _

theorem reads_classAssertion (subject : Node) (object : Term) : setting.Reads told (classAssertion subject object) :=
  .ite (.stop _ _ rfl) ((reads_classExpression object).bind fun _ => (reads_individual _).bind fun _ => .pure _)

theorem reads_typeAxiom (subject : Node) (object : Term) : setting.Reads told (typeAxiom subject object) := by
  unfold typeAxiom
  split
  · refine .ite (reads_functionalProperty subject) ?_
    split
    · exact (reads_propertyExpression _).bind fun _ => .pure _
    · exact reads_classAssertion subject object
  · exact reads_classAssertion subject object

theorem reads_disjointProperties (members : List Term) : setting.Reads told (disjointProperties members) := by
  refine (reads_commonKind members).bind fun kind => ?_
  cases kind with
  | object => exact (Reads.mapM members fun term _ => reads_propertyExpression term).bind fun _ => .pure _
  | data => exact (Reads.mapM members fun term _ => reads_dataProperty term).bind fun _ => .pure _
  | annotating => exact reads_fail _ rfl

theorem reads_negativeAssertion (node : Node) : setting.Reads told (negativeAssertion node) := by
  refine (reads_gathered node (by decide) (by decide)).bind fun source => (reads_individual source).bind fun _ =>
    (reads_gathered node (by decide) (by decide)).bind fun property => .look fun session _ => .ite ?_ ?_
  · exact (reads_gathered node (by decide) (by decide)).bind fun target => (reads_propertyExpression property).bind fun _ =>
      (reads_individual target).bind fun _ => .pure _
  · exact (reads_gathered node (by decide) (by decide)).bind fun value => (reads_dataProperty property).bind fun _ =>
      (reads_literal value).bind fun _ => .pure _

theorem reads_nodeAxiom (node : Node) (type : Iri) : setting.Reads told (nodeAxiom node type) := by
  have members : setting.Reads told (singleObject node Owl.members) := reads_gathered node (by decide) (by decide)
  refine .ite ?_ (.ite ?_ (.ite ?_ (.ite (reads_negativeAssertion node) ?_)))
  · exact members.bind fun head => (reads_operandsWith reads_classExpression head).bind fun _ => .pure _
  · exact members.bind fun head => (reads_readList head).bind fun members => reads_disjointProperties members
  · refine .look fun session _ => Reads.bind ?_ fun head => (reads_operandsWith reads_individual head).bind fun _ => .pure _
    split
    · exact reads_gathered node (by decide) (by decide)
    · exact members
  · exact (reads_rule node).bind fun _ => .pure _

/-- The reading of an axiom, if the triples of the node may be used that the triple enters. -/
theorem reads_statement {triple : Triple} (free : Role.entersNode triple = true → setting.Open told triple.subject) :
    setting.Reads told (statement triple) := by
  obtain ⟨subject, predicate, object⟩ := triple
  unfold statement
  by_cases typed : predicate = Rdf.type
  · refine .ite ?_ ((reads_predicateAxiom _ _ _).bind fun _ => .pure _)
    split
    · rename_i type entered
      obtain ⟨named, listed⟩ := Option.filter_eq_some_iff.mp entered
      have enters : Role.entersNode ⟨subject, predicate, object⟩ = true := by
        rw [Role.entersNode, typed, named]
        exact listed
      exact (reads_nodeAxiom _ _).bind fun _ => (reads_annotationsOn (free enters)).bind fun _ => .pure _
    · exact (reads_typeAxiom _ _).bind fun _ => .pure _
  · dsimp only
    rw [if_neg typed]
    exact (reads_predicateAxiom _ _ _).bind fun _ => .pure _

end Statements

theorem leaves_statement (triple : Triple) : LeavesReading (statement triple) := fun _ _ usable =>
  reads_statement fun _ row member _ => usable row member

theorem leaves_singleObject (node : Node) (predicate : Iri) : LeavesReading (singleObject node predicate) := fun _ _ usable =>
  reads_singleObject node predicate fun row member _ _ => usable row member

theorem leaves_consumeReification (node : Node) : LeavesReading (consumeReification node) := fun _ _ usable =>
  reads_consumeReification fun row member _ => usable row member

theorem leaves_annotationsOn (node : Node) : LeavesReading (annotationsOn node) := fun _ _ usable =>
  reads_annotationsOn fun row member _ => usable row member

end Translation

end OwlGraph
