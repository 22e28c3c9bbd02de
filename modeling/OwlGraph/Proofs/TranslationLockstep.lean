import OwlGraph.Proofs.Lockstep

/-! Every translation is in step with itself: a strict run and a lax run of it part only where
a repair is made. -/

namespace OwlGraph

section Looks

variable {session : Session} {kinds : Std.HashSet Entity}
  (known : ∀ entity, kinds.contains entity = session.kinds.contains entity)
include known

theorem Session.hasKind_agrees (iri : Iri) (kind : EntityKind) :
    Session.hasKind { session with kinds } iri kind = session.hasKind iri kind := by
  rw [Session.hasKind, Session.hasKind, known]

theorem Session.propertyKind?_agrees (iri : Iri) :
    Session.propertyKind? { session with kinds } iri = session.propertyKind? iri := by
  simp only [Session.propertyKind?, Session.hasKind_agrees known]

theorem Session.termPropertyKind?_agrees :
    Session.termPropertyKind? { session with kinds } = session.termPropertyKind? := by
  funext term
  rcases term with (iri | _) | _
  · exact Session.propertyKind?_agrees known iri
  · rfl
  · rfl

theorem Session.shapeWithin_agrees (depth : Nat) :
    Session.shapeWithin { session with kinds } depth = session.shapeWithin depth := by
  have tripleShape (inner : Term → Option Shape) (rows : List Row) :
      Session.tripleShape? { session with kinds } inner rows = session.tripleShape? inner rows := by
    induction rows with
    | nil => rfl
    | cons row rows ih =>
      rw [Session.tripleShape?, ih]
      rfl
  induction depth with
  | zero =>
    funext term
    rcases term with (iri | _) | _
    · simp only [Session.shapeWithin, Session.hasKind_agrees known]
    · rfl
    · rfl
  | succ depth ih =>
    funext term
    rcases term with (iri | node) | _
    · simp only [Session.shapeWithin, Session.hasKind_agrees known]
    · rw [Session.shapeWithin, Session.shapeWithin, ih, tripleShape]
    · rfl

theorem Session.shape?_agrees (term : Term) :
    Session.shape? { session with kinds } term = session.shape? term := by
  rw [Session.shape?, Session.shape?, Session.shapeWithin_agrees known]

theorem Session.restrictionHint?_agrees (view : NodeView) :
    Session.restrictionHint? { session with kinds } view = session.restrictionHint? view := by
  simp only [Session.restrictionHint?, Session.shape?_agrees known]

theorem Session.definesDatatype_agrees (subject : Node) (object : Term) :
    Session.definesDatatype { session with kinds } subject object = session.definesDatatype subject object := by
  simp only [Session.definesDatatype, Session.shape?_agrees known, Session.hasKind_agrees known]

theorem Session.isAnnotationProperty_agrees (iri : Iri) :
    Session.isAnnotationProperty { session with kinds } iri = session.isAnnotationProperty iri := by
  rw [Session.isAnnotationProperty, Session.isAnnotationProperty, Session.propertyKind?_agrees known]

theorem Session.isNoise_agrees (triple : Triple) :
    Session.isNoise { session with kinds } triple = session.isNoise triple := by
  simp only [Session.isNoise, known]

end Looks

theorem Session.quiet_learn (iri : Iri) (kind : EntityKind) : Quiet (·.learn iri kind) := by
  constructor
  case agrees =>
    rintro session _ ⟨kinds, rfl, known⟩
    rw [learn, learn, known]
    split
    · exact ⟨kinds, rfl, known⟩
    · exact ⟨kinds.insert ⟨kind, iri⟩, rfl, fun entity => by
        rw [Std.HashSet.contains_insert, Std.HashSet.contains_insert, known]⟩
  all_goals
    intro session
    rw [learn]
    split <;> rfl

theorem Session.quiet_consume (id : TripleId) : Quiet (·.consume id) :=
  ⟨fun _ => rfl, fun _ => rfl, fun _ => rfl, fun _ _ ⟨kinds, same, known⟩ => ⟨kinds, by rw [same]; rfl, known⟩⟩

theorem Session.quiet_consumeAll (rows : List Row) : Quiet (·.consumeAll rows) :=
  ⟨fun _ => rfl, fun _ => rfl, fun _ => rfl, fun _ _ ⟨kinds, same, known⟩ => ⟨kinds, by rw [same]; rfl, known⟩⟩

namespace Translation

/-- Translations fail over problems and note the repairs they make as pending. -/
def level : Level Halt where
  refusal halt := ∃ problem, halt = .failed problem
  failure halt := ∃ problem, halt = .failed problem
  waiting halt := ∃ iri, halt = .deferred iri
  keeps first second :=
    first.pending.size ≤ second.pending.size ∧ second.reports = first.reports ∧ second.passes = first.passes
  notes first second := first.pending.size < second.pending.size
  quiet pending reports passes := ⟨Nat.le_of_eq (by rw [pending]), reports, passes⟩
  trans earlier later :=
    ⟨Nat.le_trans earlier.1 later.1, later.2.1.trans earlier.2.1, later.2.2.trans earlier.2.2⟩
  notes_of_keeps kept noted := Nat.lt_of_le_of_lt kept.1 noted
  notes_keeps noted kept := Nat.lt_of_lt_of_le noted kept.1

/-- Strict and lax runs of the translation do the same or, if repairs are possible, part over one. -/
abbrev InStep {α : Type} (context : Context) (repairs : Prop) (body : Translation α) : Prop :=
  level.InStep context repairs body

variable {α β Form : Type} {context : Context} {repairs : Prop}

section Primitives

theorem inStep_fail (problem : Problem) : InStep context repairs (fail problem : Translation α) :=
  .raise _ fun _ ⟨_, same⟩ => nomatch same

theorem inStep_unexpected (expectation : Expectation) (found : Term) :
    InStep context repairs (unexpected expectation found : Translation α) := inStep_fail _

/-- The one place where the modes differ. -/
theorem inStep_recover (problem : Problem) : InStep context True (recover problem) := by
  refine .part (fun _ => .failed problem) (fun _ session => { session with pending := session.pending.push problem })
    (fun context session mode => ?_) (fun context session mode => ?_) (fun _ => ⟨problem, rfl⟩)
    (fun _ ⟨_, same⟩ => nomatch same) (fun _ session => ⟨?_, rfl, rfl⟩) fun _ session => ?_
  · change (if context.config.strict then fail problem else _ : Translation Unit) context session = _
    rw [mode]
    rfl
  · change (if context.config.strict then _ else _ : Translation Unit) context session = _
    rw [mode]
    rfl
  · exact Nat.le_of_lt (by rw [Array.size_push]; exact Nat.lt_succ_self _)
  · change session.pending.size < (session.pending.push problem).size
    rw [Array.size_push]
    exact Nat.lt_succ_self _

/-- Waiting for the kind of a property, where it is not known and has no default. -/
theorem inStep_wait (iri : Iri) {next : Unit → Translation α} (inStep : InStep context repairs (next ())) :
    InStep context repairs (if context.forced then next () else defer iri >>= next) := by
  cases forced : context.forced with
  | true => exact inStep
  | false =>
    refine Level.Lockstep.bind (.raise _ fun other => ?_) fun _ => inStep
    rw [forced] at other
    cases other

theorem inStep_learn (iri : Iri) (kind : EntityKind) : InStep context repairs (learn iri kind) :=
  .alter (Session.quiet_learn iri kind)

theorem inStep_consume (id : TripleId) : InStep context repairs (consume id) := .alter (Session.quiet_consume id)

theorem inStep_consumeAll (rows : List Row) : InStep context repairs (consumeAll rows) :=
  .alter (Session.quiet_consumeAll rows)

theorem inStep_nested {body : Translation α} (node : Node) (inStep : InStep context repairs body) :
    InStep context repairs (nested node body) := by
  have tame (context : Context) (tame : level.Tame context body) : level.Tame context (nested node body) := by
    refine ⟨fun session => ?_, fun forced session halt => ?_⟩
    · rw [nested]
      split
      · exact level.refl session
      · exact tame.keeps { session with visiting := node :: session.visiting }
    · rw [nested]
      split
      · intro ended
        injection ended with ended
        exact ended ▸ fun ⟨_, same⟩ => nomatch same
      · exact tame.settles forced _ halt
  have leave {first second : Session} (agrees : first.Agrees second) : Session.Agrees
      { first with visiting := first.visiting.erase node } { second with visiting := second.visiting.erase node } := by
    obtain ⟨kinds, rfl, known⟩ := agrees
    exact ⟨kinds, rfl, known⟩
  refine ⟨tame context inStep.strict_tame, tame context.lax inStep.lax_tame, ?_⟩
  rintro session _ mode ⟨kinds, rfl, known⟩
  rw [nested, nested]
  split
  · exact .inl ⟨rfl, ⟨kinds, rfl, known⟩, rfl⟩
  · refine (inStep.together { session with visiting := node :: session.visiting }
      { session with visiting := node :: session.visiting, kinds } mode ⟨kinds, rfl, known⟩).imp
      (fun same => ?_) fun ⟨possible, apart⟩ => ⟨possible, apart.refused, apart.departs⟩
    exact ⟨same.result, leave same.sessions, same.reports⟩

end Primitives

section Properties

theorem inStep_resolveProperty (iri : Iri) (hint : Option PropertyKind) :
    InStep context True (resolveProperty iri hint) := by
  refine .look (fun session kinds known => by rw [Session.propertyKind?_agrees known]) fun session => ?_
  split
  · exact .pure _
  · exact (inStep_learn _ _).bind fun _ => .pure _
  · exact .read (inStep_wait iri ((inStep_recover _).bind fun _ => (inStep_learn _ _).bind fun _ => .pure _))

theorem inStep_commonKind (members : List Term) : InStep context True (commonKind members) := by
  refine .look (fun session kinds known => by rw [Session.termPropertyKind?_agrees known]) fun session => ?_
  split
  · exact .pure _
  · exact inStep_resolveProperty _ _
  · exact inStep_unexpected _ _
  · exact .pure _

theorem inStep_pairKind (first second : Term) : InStep context True (pairKind first second) :=
  (inStep_commonKind _).bind fun kind => (Level.Lockstep.forM (fun iri => inStep_learn iri _) _).bind fun _ => .pure kind

theorem inStep_subjectKind (subject : Node) (hint : Option PropertyKind) :
    InStep context True (subjectKind subject hint) := by
  cases subject with
  | named iri => exact inStep_resolveProperty iri hint
  | blank _ => exact .pure _

end Properties

section Collections

theorem inStep_listStep (head : Term) (node : Node) (predicate : Iri) :
    InStep context repairs (listStep head node predicate) := by
  refine .look (fun _ _ _ => rfl) fun session => ?_
  split
  · exact (inStep_consume _).bind fun _ => .pure _
  · exact inStep_fail _
  · exact inStep_fail _

theorem inStep_readListFrom (head : Term) : ∀ (room : Nat) (visited : Std.HashSet Node) (elements : Array Term)
    (current : Term), InStep context repairs (readListFrom head room visited elements current) := by
  intro room
  induction room with
  | zero =>
    intro visited elements current
    unfold readListFrom
    refine .ite (.pure _) ?_
    split
    · exact .ite ((inStep_fail _).bind fun _ => .read (inStep_fail _)) (.read (inStep_fail _))
    · exact inStep_fail _
  | succ room ih =>
    intro visited elements current
    unfold readListFrom
    refine .ite (.pure _) ?_
    split
    · rename_i node _
      have step : InStep context repairs (do
          let first ← listStep head node Rdf.first
          let rest ← listStep head node Rdf.rest
          let session ← get
          consumeAll ((session.store.withSubject node).filter fun row => isListType row.triple)
          readListFrom head room (visited.insert node) (elements.push first) rest) :=
        (inStep_listStep _ _ _).bind fun _ => (inStep_listStep _ _ _).bind fun _ =>
          .look (fun _ _ _ => rfl) fun _ => (inStep_consumeAll _).bind fun _ => ih _ _ _
      exact .ite ((inStep_fail _).bind fun _ => step) step
    · exact inStep_fail _

theorem inStep_readList (head : Term) : InStep context repairs (readList head) :=
  .read (inStep_readListFrom head _ _ _ _)

theorem inStep_operands (head : Term) : InStep context True (operands head) := by
  refine (inStep_readList head).bind fun elements => ?_
  exact .ite ((inStep_recover _).bind fun _ => .pure _) (.pure _)

theorem inStep_operandsWith {read : Term → Translation α} (each : ∀ term, InStep context True (read term)) (head : Term) :
    InStep context True (operandsWith read head) :=
  (inStep_operands head).bind fun elements => .mapM each elements

end Collections

section Patterns

theorem inStep_selectForm (family : Family Form) (view : NodeView) : InStep context True (selectForm family view) := by
  unfold selectForm
  split
  · exact .pure _
  · split
    · exact inStep_fail _
    · exact (inStep_recover _).bind fun _ => .pure _

theorem inStep_dispatch (family : Family Form) (view : NodeView) {readForm : Form → Translation α}
    (each : ∀ form, InStep context True (readForm form)) : InStep context True (dispatch family view readForm) :=
  (inStep_selectForm family view).bind fun form => (each form).bind fun result =>
    (inStep_consumeAll _).bind fun _ => .pure result

theorem inStep_value (view : NodeView) (predicate : Iri) : InStep context True (value view predicate) := by
  unfold value
  split
  · exact inStep_fail _
  · exact .pure _
  · exact (inStep_recover _).bind fun _ => .pure _

theorem inStep_singleObject (node : Node) (predicate : Iri) : InStep context True (singleObject node predicate) := by
  refine .look (fun _ _ _ => rfl) fun session => ?_
  exact (inStep_value _ _).bind fun object => (inStep_consumeAll _).bind fun _ => .pure object

end Patterns

section Operands

theorem inStep_named (expectation : Expectation) (term : Term) : InStep context repairs (named expectation term) := by
  unfold named
  split
  · exact .pure _
  · exact inStep_unexpected _ _

theorem inStep_propertyExpression (term : Term) : InStep context True (propertyExpression term) := by
  rcases term with (iri | node) | _
  · exact (inStep_learn _ _).bind fun _ => .pure _
  · refine (inStep_singleObject _ _).bind fun object => ?_
    split
    · exact (inStep_learn _ _).bind fun _ => .pure _
    · exact inStep_unexpected _ _
  · exact inStep_unexpected _ _

theorem inStep_dataProperty (term : Term) : InStep context repairs (dataProperty term) :=
  (inStep_named _ _).bind fun iri => (inStep_learn _ _).bind fun _ => .pure iri

theorem inStep_individualOf (node : Node) : InStep context repairs (individualOf node) := by
  refine .look (fun _ _ _ => rfl) fun session => ?_
  exact .read (.pure _)

theorem inStep_individual (term : Term) : InStep context repairs (individual term) := by
  unfold individual
  split
  · exact inStep_individualOf _
  · exact inStep_unexpected _ _

theorem inStep_literal (term : Term) : InStep context repairs (literal term) := by
  unfold literal
  split
  · exact .pure _
  · exact inStep_unexpected _ _

theorem inStep_annotationValue (term : Term) : InStep context repairs (annotationValue term) := by
  refine .look (fun _ _ _ => rfl) fun session => ?_
  exact .read (.pure _)

theorem inStep_asVariable (term : Term) : InStep context repairs (asVariable term) := by
  refine .look (fun _ _ _ => rfl) fun session => ?_
  exact .pure _

theorem inStep_individualArgument (term : Term) : InStep context repairs (individualArgument term) := by
  refine (inStep_asVariable term).bind fun iri => ?_
  split
  · exact .pure _
  · exact (inStep_individual term).bind fun _ => .pure _

theorem inStep_dataArgument (term : Term) : InStep context repairs (dataArgument term) := by
  refine (inStep_asVariable term).bind fun iri => ?_
  split
  · exact .pure _
  · exact (inStep_literal term).bind fun _ => .pure _

theorem inStep_cardinality (term : Term) : InStep context True (cardinality term) := by
  unfold cardinality
  split
  · split
    · exact inStep_fail _
    · exact inStep_fail _
    · exact .ite (.pure _) ((inStep_recover _).bind fun _ => .pure _)
  · exact inStep_unexpected _ _

end Operands

section Expressions

theorem inStep_facetRestriction (element : Term) : InStep context repairs (facetRestriction element) := by
  unfold facetRestriction
  split
  · refine .look (fun _ _ _ => rfl) fun session => ?_
    dsimp only
    split
    · exact (inStep_literal _).bind fun _ => (inStep_consume _).bind fun _ => .pure _
    · exact inStep_fail _
  · exact inStep_unexpected _ _

theorem inStep_readDataRange {inner : Term → Translation DataRange} (each : ∀ term, InStep context True (inner term))
    (view : NodeView) (form : DataRangeForm) : InStep context True (readDataRange inner view form) := by
  have value (predicate : Iri) : InStep context True (value view predicate) := inStep_value view predicate
  cases form with
  | combination junction =>
    exact (value _).bind fun head => (inStep_operands head).bind fun elements =>
      (Level.Lockstep.mapM each elements).bind fun _ => .pure _
  | complement => exact (value _).bind fun object => (each object).bind fun _ => .pure _
  | oneOf =>
    exact (value _).bind fun head => (inStep_operands head).bind fun elements =>
      (Level.Lockstep.mapM inStep_literal elements).bind fun _ => .pure _
  | restriction =>
    exact (value _).bind fun base => (inStep_named _ base).bind fun _ => (value _).bind fun head =>
      (inStep_readList head).bind fun elements =>
        (Level.Lockstep.mapM inStep_facetRestriction elements).bind fun _ => .pure _

theorem inStep_dataRangeWithin (depth : Nat) : ∀ term, InStep context True (dataRangeWithin depth term) := by
  have named (depth : Nat) (iri : Iri) : InStep context True (dataRangeWithin depth (.resource (.named iri))) := by
    unfold dataRangeWithin
    exact (inStep_learn _ _).bind fun _ => .pure _
  have literal (depth : Nat) (value : Literal) : InStep context True (dataRangeWithin depth (.literal value)) := by
    unfold dataRangeWithin
    exact inStep_unexpected _ _
  induction depth with
  | zero =>
    rintro ((iri | node) | value)
    · exact named _ iri
    · exact inStep_fail _
    · exact literal _ value
  | succ depth ih =>
    rintro ((iri | node) | value)
    · exact named _ iri
    · refine inStep_nested node (.look (fun _ _ _ => rfl) fun session => ?_)
      exact inStep_dispatch _ _ (inStep_readDataRange ih _)
    · exact literal _ value

theorem inStep_depthLimit : InStep context repairs depthLimit := by
  refine .look (fun _ _ _ => rfl) fun session => ?_
  exact .pure _

theorem inStep_dataRange (term : Term) : InStep context True (dataRange term) :=
  inStep_depthLimit.bind fun depth => inStep_dataRangeWithin depth term

theorem inStep_restrictionKind (view : NodeView) : InStep context True (restrictionKind view) := by
  unfold restrictionKind
  split
  · exact .pure _
  · exact .look (fun _ _ known => by rw [Session.restrictionHint?_agrees known]) fun session =>
      (inStep_resolveProperty _ _).bind fun _ => .pure _
  · exact .pure _

theorem inStep_boundOf (view : NodeView) (bound : Bound) (fillerPredicate : Iri) {filler : Term → Translation α}
    (each : ∀ term, InStep context True (filler term)) :
    InStep context True (boundOf view bound fillerPredicate filler) := by
  have value (predicate : Iri) : InStep context True (value view predicate) := inStep_value view predicate
  exact .ite
    ((value _).bind fun number => (inStep_cardinality number).bind fun _ => (value _).bind fun object =>
      (each object).bind fun _ => .pure _)
    ((value _).bind fun number => (inStep_cardinality number).bind fun _ => .pure _)

theorem inStep_readClassExpression {inner : Term → Translation ClassExpression}
    (each : ∀ term, InStep context True (inner term)) (view : NodeView) (form : ClassForm) :
    InStep context True (readClassExpression inner view form) := by
  have value (predicate : Iri) : InStep context True (value view predicate) := inStep_value view predicate
  cases form with
  | combination junction =>
    exact (value _).bind fun head => (inStep_operands head).bind fun elements =>
      (Level.Lockstep.mapM each elements).bind fun _ => .pure _
  | complement => exact (value _).bind fun object => (each object).bind fun _ => .pure _
  | oneOf =>
    exact (value _).bind fun head => (inStep_operands head).bind fun elements =>
      (Level.Lockstep.mapM inStep_individual elements).bind fun _ => .pure _
  | objectValues quantifier =>
    exact (value _).bind fun object => (inStep_propertyExpression object).bind fun _ =>
      (value _).bind fun filler => (each filler).bind fun _ => .pure _
  | objectHasValue =>
    exact (value _).bind fun object => (inStep_propertyExpression object).bind fun _ =>
      (value _).bind fun filler => (inStep_individual filler).bind fun _ => .pure _
  | hasSelf =>
    exact (value _).bind fun object => (inStep_propertyExpression object).bind fun _ =>
      (value _).bind fun truth => (inStep_literal truth).bind fun _ =>
        .ite (.pure _) ((inStep_fail _).bind fun _ => .pure _)
  | objectCardinality bound =>
    exact (value _).bind fun object => (inStep_propertyExpression object).bind fun _ =>
      (inStep_boundOf view bound _ each).bind fun _ => .pure _
  | dataValues quantifier =>
    exact (value _).bind fun object => (inStep_dataProperty object).bind fun _ =>
      (value _).bind fun filler => (inStep_dataRange filler).bind fun _ => .pure _
  | dataHasValue =>
    exact (value _).bind fun object => (inStep_dataProperty object).bind fun _ =>
      (value _).bind fun filler => (inStep_literal filler).bind fun _ => .pure _
  | dataCardinality bound =>
    exact (value _).bind fun object => (inStep_dataProperty object).bind fun _ =>
      (inStep_boundOf view bound _ inStep_dataRange).bind fun _ => .pure _

theorem inStep_classExpressionWithin (depth : Nat) : ∀ term, InStep context True (classExpressionWithin depth term) := by
  have named (depth : Nat) (iri : Iri) : InStep context True (classExpressionWithin depth (.resource (.named iri))) := by
    unfold classExpressionWithin
    exact (inStep_learn _ _).bind fun _ => .pure _
  have literal (depth : Nat) (value : Literal) : InStep context True (classExpressionWithin depth (.literal value)) := by
    unfold classExpressionWithin
    exact inStep_unexpected _ _
  induction depth with
  | zero =>
    rintro ((iri | node) | value)
    · exact named _ iri
    · exact inStep_fail _
    · exact literal _ value
  | succ depth ih =>
    rintro ((iri | node) | value)
    · exact named _ iri
    · refine inStep_nested node (.look (fun _ _ _ => rfl) fun session => ?_)
      exact (inStep_restrictionKind _).bind fun _ => inStep_dispatch _ _ (inStep_readClassExpression ih _)
    · exact literal _ value

theorem inStep_classExpression (term : Term) : InStep context True (classExpression term) :=
  inStep_depthLimit.bind fun depth => inStep_classExpressionWithin depth term

end Expressions

section Rules

theorem inStep_atomPropertyKind (view : NodeView) : InStep context True (atomPropertyKind view) := by
  unfold atomPropertyKind
  split
  · exact (inStep_resolveProperty _ _).bind fun _ => .pure _
  · exact .pure _

theorem inStep_readAtom (view : NodeView) (form : AtomForm) : InStep context True (readAtom view form) := by
  have value (predicate : Iri) : InStep context True (value view predicate) := inStep_value view predicate
  cases form with
  | cls =>
    exact (value _).bind fun predicate => (value _).bind fun argument =>
      (inStep_classExpression predicate).bind fun _ => (inStep_individualArgument argument).bind fun _ => .pure _
  | dataRange =>
    exact (value _).bind fun range => (value _).bind fun argument =>
      (inStep_dataRange range).bind fun _ => (inStep_dataArgument argument).bind fun _ => .pure _
  | objectProperty =>
    exact (value _).bind fun predicate => (value _).bind fun subject => (value _).bind fun object =>
      (inStep_propertyExpression predicate).bind fun _ => (inStep_individualArgument subject).bind fun _ =>
        (inStep_individualArgument object).bind fun _ => .pure _
  | dataProperty =>
    exact (value _).bind fun predicate => (value _).bind fun subject => (value _).bind fun object =>
      (inStep_dataProperty predicate).bind fun _ => (inStep_individualArgument subject).bind fun _ =>
        (inStep_dataArgument object).bind fun _ => .pure _
  | sameIndividual | differentIndividuals =>
    exact (value _).bind fun first => (value _).bind fun second =>
      (inStep_individualArgument first).bind fun _ => (inStep_individualArgument second).bind fun _ => .pure _
  | builtin =>
    exact (value _).bind fun predicate => (value _).bind fun list => (inStep_named _ predicate).bind fun _ =>
      (inStep_readList list).bind fun elements =>
        (Level.Lockstep.mapM inStep_dataArgument elements).bind fun _ => .pure _

theorem inStep_atom (term : Term) : InStep context True (atom term) := by
  unfold atom
  split
  · refine inStep_nested _ (.look (fun _ _ _ => rfl) fun session => ?_)
    exact (inStep_atomPropertyKind _).bind fun _ => inStep_dispatch _ _ (inStep_readAtom _)
  · exact inStep_unexpected _ _

theorem inStep_atoms (head : Term) : InStep context True (atoms head) :=
  (inStep_readList head).bind fun elements => .mapM inStep_atom elements

theorem inStep_rule (node : Node) : InStep context True (rule node) :=
  (inStep_singleObject node _).bind fun body => (inStep_singleObject node _).bind fun head =>
    (inStep_atoms body).bind fun _ => (inStep_atoms head).bind fun _ => .pure _

end Rules

/-! Annotations are read without repairs. -/

section Annotations

theorem inStep_consumeReification (node : Node) : InStep context repairs (consumeReification node) :=
  .look (fun _ _ _ => rfl) fun _ => inStep_consumeAll _

theorem inStep_readNote {inner : Node → Translation (List Annotation)} (each : ∀ node, InStep context repairs (inner node))
    (row : Row) : InStep context repairs (readNote inner row) := by
  obtain ⟨id, source, property, object⟩ := row
  refine .look (fun _ _ known => by rw [Session.isAnnotationProperty_agrees known]) fun session =>
    .ite ?_ (.pure none)
  refine (inStep_learn property _).bind fun _ => (inStep_annotationValue object).bind fun value =>
    (inStep_consume id).bind fun _ => .look (fun _ _ _ => rfl) fun session => ?_
  exact (Level.Lockstep.mapM (fun reifier =>
    inStep_nested reifier ((inStep_consumeReification reifier).bind fun _ => each reifier)) _).bind fun _ => .pure _

theorem inStep_annotationsWithin (depth : Nat) : ∀ node, InStep context repairs (annotationsWithin depth node) := by
  induction depth with
  | zero => exact fun node => inStep_fail _
  | succ depth ih =>
    exact fun node => .look (fun _ _ _ => rfl) fun _ =>
      (Level.Lockstep.mapM (inStep_readNote ih) _).bind fun _ => .pure _

theorem inStep_annotationsOn (node : Node) : InStep context repairs (annotationsOn node) :=
  .look (fun _ _ _ => rfl) fun _ => inStep_annotationsWithin _ node

end Annotations

section Statements

theorem inStep_classDefinition (predicate : Iri) (object : Term) : InStep context True (classDefinition predicate object) :=
  .ite ((inStep_operandsWith inStep_classExpression object).bind fun _ => .pure _)
    (.ite ((inStep_operandsWith inStep_classExpression object).bind fun _ => .pure _)
      (.ite ((inStep_classExpression object).bind fun _ => .pure _)
        ((inStep_operandsWith inStep_individual object).bind fun _ => .pure _)))

theorem inStep_keyProperty (keys : Array PropertyExpression × Array Iri) (property : Term) :
    InStep context True (keyProperty keys property) := by
  rcases property with (iri | node) | value
  case' resource.named => refine (inStep_resolveProperty iri none).bind fun kind => ?_
  case' resource.blank => refine (Level.Lockstep.pure PropertyKind.object).bind fun kind => ?_
  case' literal => refine (inStep_unexpected _ _).bind fun kind => ?_
  all_goals
    cases kind with
    | object => exact (inStep_propertyExpression _).bind fun _ => .pure _
    | data => exact (inStep_dataProperty _).bind fun _ => .pure _
    | annotating => exact inStep_unexpected _ _

theorem inStep_hasKey (subject object : Term) : InStep context True (hasKey subject object) :=
  (inStep_classExpression subject).bind fun _ => (inStep_readList object).bind fun elements =>
    (Level.Lockstep.foldlM inStep_keyProperty elements _).bind fun _ => .pure _

theorem inStep_subPropertyOf (subject object : Term) : InStep context True (subPropertyOf subject object) := by
  refine (inStep_pairKind subject object).bind fun kind => ?_
  cases kind with
  | object =>
    exact (inStep_propertyExpression subject).bind fun _ => (inStep_propertyExpression object).bind fun _ => .pure _
  | data => exact (inStep_dataProperty subject).bind fun _ => (inStep_dataProperty object).bind fun _ => .pure _
  | annotating => exact (inStep_named _ subject).bind fun _ => (inStep_named _ object).bind fun _ => .pure _

theorem inStep_equivalentProperties (subject object : Term) : InStep context True (equivalentProperties subject object) := by
  refine (inStep_pairKind subject object).bind fun kind => ?_
  cases kind with
  | object =>
    exact (inStep_propertyExpression subject).bind fun _ => (inStep_propertyExpression object).bind fun _ => .pure _
  | data => exact (inStep_dataProperty subject).bind fun _ => (inStep_dataProperty object).bind fun _ => .pure _
  | annotating => exact inStep_unexpected _ _

theorem inStep_disjointPair (subject object : Term) : InStep context True (disjointPair subject object) := by
  refine (inStep_pairKind subject object).bind fun kind => ?_
  cases kind with
  | object =>
    exact (inStep_propertyExpression subject).bind fun _ => (inStep_propertyExpression object).bind fun _ => .pure _
  | data => exact (inStep_dataProperty subject).bind fun _ => (inStep_dataProperty object).bind fun _ => .pure _
  | annotating => exact inStep_unexpected _ _

theorem inStep_propertyDomain (subject : Node) (object : Term) : InStep context True (propertyDomain subject object) := by
  refine (inStep_subjectKind subject none).bind fun kind => ?_
  cases kind with
  | object =>
    exact (inStep_propertyExpression _).bind fun _ => (inStep_classExpression object).bind fun _ => .pure _
  | data => exact (inStep_dataProperty _).bind fun _ => (inStep_classExpression object).bind fun _ => .pure _
  | annotating => exact (inStep_named _ _).bind fun _ => (inStep_named _ object).bind fun _ => .pure _

theorem inStep_propertyRange (subject : Node) (object : Term) : InStep context True (propertyRange subject object) := by
  refine .look (fun _ _ known => by rw [Session.shape?_agrees known]) fun session => ?_
  refine (inStep_subjectKind subject _).bind fun kind => ?_
  cases kind with
  | object =>
    exact (inStep_propertyExpression _).bind fun _ => (inStep_classExpression object).bind fun _ => .pure _
  | data => exact (inStep_dataProperty _).bind fun _ => (inStep_dataRange object).bind fun _ => .pure _
  | annotating => exact (inStep_named _ _).bind fun _ => (inStep_named _ object).bind fun _ => .pure _

theorem inStep_assertionKind (predicate : Iri) (object : Term) : InStep context True (assertionKind predicate object) := by
  refine .look (fun _ _ known => by rw [Session.propertyKind?_agrees known]) fun session => ?_
  split
  · exact .pure _
  · refine .read (inStep_wait predicate (.read (.ite ?_ ?_)))
    · exact (inStep_learn _ _).bind fun _ => .pure _
    · exact (inStep_recover _).bind fun _ => .pure _

theorem inStep_assertion (subject : Node) (predicate : Iri) (object : Term) :
    InStep context True (assertion subject predicate object) := by
  refine (inStep_assertionKind predicate object).bind fun kind => ?_
  cases kind with
  | annotating => exact (inStep_individualOf subject).bind fun _ => (inStep_annotationValue object).bind fun _ => .pure _
  | object =>
    exact (inStep_propertyExpression _).bind fun _ => (inStep_individual _).bind fun _ =>
      (inStep_individual object).bind fun _ => .pure _
  | data =>
    exact (inStep_dataProperty _).bind fun _ => (inStep_individual _).bind fun _ =>
      (inStep_literal object).bind fun _ => .pure _

theorem inStep_predicateAxiom (subject : Node) (predicate : Iri) (object : Term) :
    InStep context True (predicateAxiom subject predicate object) := by
  have cls (term : Term) : InStep context True (classExpression term) := inStep_classExpression term
  unfold predicateAxiom
  refine .ite ?_ (.ite ?_ (.ite ?_ (.ite ?_ (.ite (inStep_hasKey _ object) (.ite (inStep_subPropertyOf _ object)
    (.ite ?_ (.ite (inStep_equivalentProperties _ object) (.ite (inStep_disjointPair _ object)
      (.ite ?_ (.ite (inStep_propertyDomain subject object) (.ite (inStep_propertyRange subject object)
        (.ite ?_ (.ite ?_ (.ite ?_ (inStep_assertion subject predicate object)))))))))))))))
  · exact (cls _).bind fun _ => (cls object).bind fun _ => .pure _
  · refine .look (fun _ _ known => by rw [Session.definesDatatype_agrees known]) fun session => .ite ?_ ?_
    · exact (inStep_named _ _).bind fun _ => (inStep_dataRange object).bind fun _ => .pure _
    · exact (cls _).bind fun _ => (cls object).bind fun _ => .pure _
  · exact (cls _).bind fun _ => (cls object).bind fun _ => .pure _
  · exact (inStep_named _ _).bind fun _ => (inStep_learn _ _).bind fun _ =>
      (inStep_operandsWith inStep_classExpression object).bind fun _ => .pure _
  · exact (inStep_propertyExpression _).bind fun _ =>
      (inStep_operandsWith inStep_propertyExpression object).bind fun _ => .pure _
  · exact (inStep_propertyExpression _).bind fun _ => (inStep_propertyExpression object).bind fun _ => .pure _
  · exact (inStep_individual _).bind fun _ => (inStep_individual object).bind fun _ => .pure _
  · exact (inStep_individual _).bind fun _ => (inStep_individual object).bind fun _ => .pure _
  · exact (cls _).bind fun _ => (inStep_classDefinition predicate object).bind fun _ => .pure _

theorem inStep_functionalProperty (subject : Node) : InStep context True (functionalProperty subject) := by
  refine (inStep_subjectKind subject none).bind fun kind => ?_
  cases kind with
  | object => exact (inStep_propertyExpression _).bind fun _ => .pure _
  | data => exact (inStep_dataProperty _).bind fun _ => .pure _
  | annotating => exact inStep_unexpected _ _

theorem inStep_classAssertion (subject : Node) (object : Term) : InStep context True (classAssertion subject object) := by
  have rest : InStep context True (do
      let cls ← classExpression object
      return Axiom.classAssertion cls (← individual subject)) :=
    (inStep_classExpression object).bind fun _ => (inStep_individual _).bind fun _ => .pure _
  exact .ite ((inStep_unexpected _ _).bind fun _ => rest) rest

theorem inStep_typeAxiom (subject : Node) (object : Term) : InStep context True (typeAxiom subject object) := by
  unfold typeAxiom
  split
  · refine .ite (inStep_functionalProperty subject) ?_
    split
    · exact (inStep_propertyExpression _).bind fun _ => .pure _
    · exact inStep_classAssertion subject object
  · exact inStep_classAssertion subject object

theorem inStep_disjointProperties (members : List Term) : InStep context True (disjointProperties members) := by
  refine (inStep_commonKind members).bind fun kind => ?_
  cases kind with
  | object => exact (Level.Lockstep.mapM inStep_propertyExpression members).bind fun _ => .pure _
  | data => exact (Level.Lockstep.mapM inStep_dataProperty members).bind fun _ => .pure _
  | annotating => exact inStep_fail _

theorem inStep_negativeAssertion (node : Node) : InStep context True (negativeAssertion node) := by
  have single (predicate : Iri) : InStep context True (singleObject node predicate) := inStep_singleObject node predicate
  refine (single _).bind fun source => (inStep_individual source).bind fun _ => (single _).bind fun property =>
    .look (fun _ _ _ => rfl) fun session => .ite ?_ ?_
  · exact (single _).bind fun target => (inStep_propertyExpression property).bind fun _ =>
      (inStep_individual target).bind fun _ => .pure _
  · exact (single _).bind fun value => (inStep_dataProperty property).bind fun _ =>
      (inStep_literal value).bind fun _ => .pure _

theorem inStep_nodeAxiom (node : Node) (type : Iri) : InStep context True (nodeAxiom node type) := by
  have single (predicate : Iri) : InStep context True (singleObject node predicate) := inStep_singleObject node predicate
  refine .ite ?_ (.ite ?_ (.ite ?_ (.ite (inStep_negativeAssertion node) ?_)))
  · exact (single _).bind fun head => (inStep_operandsWith inStep_classExpression head).bind fun _ => .pure _
  · exact (single _).bind fun head => (inStep_readList head).bind fun members => inStep_disjointProperties members
  · exact .look (fun _ _ _ => rfl) fun session => (single _).bind fun head =>
      (inStep_operandsWith inStep_individual head).bind fun _ => .pure _
  · exact (inStep_rule node).bind fun _ => .pure _

theorem inStep_statement (triple : Triple) : InStep context True (statement triple) := by
  unfold statement
  refine .ite ?_ ((inStep_predicateAxiom _ _ _).bind fun _ => .pure _)
  split
  · exact (inStep_nodeAxiom _ _).bind fun _ => (inStep_annotationsOn _).bind fun _ => .pure _
  · exact (inStep_typeAxiom _ _).bind fun _ => .pure _

end Statements

section Merging

theorem inStep_insertMissing (node : Node) (triple : Triple) : InStep context True (insertMissing node triple) := by
  refine (inStep_recover _).bind fun _ => .look (fun _ _ _ => rfl) fun session => ?_
  split
  · refine Level.Lockstep.bind ?_ fun _ => .pure _
    exact .alter ⟨fun _ => rfl, fun _ => rfl, fun _ => rfl, fun _ _ ⟨kinds, same, known⟩ => ⟨kinds, by rw [same], known⟩⟩
  · exact inStep_fail _

theorem inStep_lateStatement (id : TripleId) (triple : Triple) : InStep context True (lateStatement id triple) := by
  refine (inStep_statement triple).bind fun fact => Level.Lockstep.bind ?_ fun _ => .pure fact
  exact .alter ⟨fun _ => rfl, fun _ => rfl, fun _ => rfl, fun _ _ ⟨kinds, same, known⟩ => ⟨kinds, by rw [same]; rfl, known⟩⟩

theorem inStep_annotatedFact (node : Node) (triple : Triple) : InStep context True (annotatedFact node triple) := by
  refine .look (fun _ _ _ => rfl) fun session => ?_
  split
  · split
    · exact .pure _
    · exact .ite ((inStep_fail _).bind fun _ => inStep_lateStatement _ _) (inStep_lateStatement _ _)
  · refine (inStep_insertMissing node triple).bind fun id => (inStep_lateStatement id triple).cleanup ?_
    exact ⟨fun _ => rfl, fun _ => rfl, fun _ => rfl, fun _ _ ⟨kinds, same, known⟩ => ⟨kinds, by rw [same], known⟩⟩

theorem inStep_mergeAnnotations (node : Node) : InStep context True (mergeAnnotations node) := by
  have single (predicate : Iri) : InStep context True (singleObject node predicate) := inStep_singleObject node predicate
  refine (single _).bind fun source => (single _).bind fun property => (inStep_named _ property).bind fun predicate =>
    (single _).bind fun object => ?_
  split
  · refine (inStep_consumeReification node).bind fun _ => (inStep_annotationsOn node).bind fun notes =>
      (inStep_annotatedFact node _).bind fun fact => ?_
    exact .alter ⟨fun _ => rfl, fun _ => rfl, fun _ => rfl, fun _ _ ⟨kinds, same, known⟩ => ⟨kinds, by rw [same]; rfl, known⟩⟩
  · exact inStep_unexpected _ _

end Merging

end Translation

end OwlGraph
