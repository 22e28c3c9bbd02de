import OwlGraph.Proofs.Components
import OwlGraph.Proofs.Outcomes
import OwlGraph.Proofs.ReadingEffects

/-! Declared kinds of properties while axioms are read. A property that is known to be a data
property and no object property is read as an object property only where the form of the axiom
gives all its properties one kind; the same holds with the kinds exchanged. -/

namespace OwlGraph

open Run

namespace Session

theorem hasKind_learn {session : Session} {iri other : Iri} {kind known : EntityKind} :
    (session.learn iri kind).hasKind other known = true ↔
      session.hasKind other known = true ∨ (⟨known, other⟩ : Entity) = ⟨kind, iri⟩ := by
  rw [hasKind, hasKind, Bool.or_eq_true, Bool.or_eq_true, contains_learn, or_assoc]

theorem propertyKind?_eq_object {session : Session} {iri : Iri} :
    session.propertyKind? iri = some .object ↔ session.hasKind iri .objectProperty = true := by
  cases object : session.hasKind iri .objectProperty <;> cases data : session.hasKind iri .dataProperty <;>
    cases annotating : session.hasKind iri .annotationProperty <;>
    simp [propertyKind?, PropertyKind.all, PropertyKind.entityKind, object, data, annotating]

theorem propertyKind?_eq_data {session : Session} {iri : Iri} :
    session.propertyKind? iri = some .data ↔
      session.hasKind iri .objectProperty = false ∧ session.hasKind iri .dataProperty = true := by
  cases object : session.hasKind iri .objectProperty <;> cases data : session.hasKind iri .dataProperty <;>
    cases annotating : session.hasKind iri .annotationProperty <;>
    simp [propertyKind?, PropertyKind.all, PropertyKind.entityKind, object, data, annotating]

end Session

/-- A property and whether it was declared to be a data property or an object property. -/
structure PropertyStanding where
  property : Iri
  ofData : Bool

namespace PropertyStanding

def kind : PropertyStanding → PropertyKind
  | ⟨_, true⟩ => .data
  | ⟨_, false⟩ => .object

/-- The property as what it was not declared to be. -/
def rival : PropertyStanding → Entity
  | ⟨property, true⟩ => ⟨.objectProperty, property⟩
  | ⟨property, false⟩ => ⟨.dataProperty, property⟩

/-- Whether the components include the property as what it was not declared to be. -/
def Foreign (standing : PropertyStanding) (components : List Component) : Prop := Component.entity standing.rival ∈ components

/-- The property is known by its declared kind. -/
structure Known (standing : PropertyStanding) (setting : Setting) (session : Session) : Prop where
  holds : setting.Holds session
  kind : session.propertyKind? standing.property = some standing.kind

/-- A data property has no inverse and is none. -/
def Uninverted (standing : PropertyStanding) (setting : Setting) : Prop :=
  standing.ofData = true → ∀ row ∈ setting.rows, row.triple.predicate = Owl.inverseOf →
    row.triple.subject ≠ standing.property ∧ row.triple.object ≠ standing.property

variable {standing : PropertyStanding} {setting : Setting} {session : Session}

theorem kind_eq_data (data : standing.ofData = true) : standing.kind = .data := by
  obtain ⟨_, _ | _⟩ := standing
  · cases data
  · rfl

theorem kind_eq_object (object : standing.ofData = false) : standing.kind = .object := by
  obtain ⟨_, _ | _⟩ := standing
  · rfl
  · cases object

theorem Known.learn (known : standing.Known setting session) {iri : Iri} {kind : EntityKind}
    (apart : standing.ofData = true → (⟨kind, iri⟩ : Entity) ≠ standing.rival) :
    standing.Known setting (session.learn iri kind) := by
  refine ⟨?_, ?_⟩
  · rw [Session.learn_shape]
    exact ⟨known.holds.indexed, known.holds.rows, known.holds.header⟩
  · obtain ⟨property, _ | _⟩ := standing
    · have before := Session.propertyKind?_eq_object.mp known.kind
      exact Session.propertyKind?_eq_object.mpr (Session.hasKind_learn.mpr (.inl before))
    · obtain ⟨unlike, before⟩ := Session.propertyKind?_eq_data.mp known.kind
      refine Session.propertyKind?_eq_data.mpr ⟨?_, Session.hasKind_learn.mpr (.inl before)⟩
      rw [Bool.eq_false_iff] at unlike ⊢
      exact fun after => (Session.hasKind_learn.mp after).elim unlike fun same => apart rfl same.symm

theorem Known.consumeAll (known : standing.Known setting session) (rows : List Row) :
    standing.Known setting (session.consumeAll rows) :=
  ⟨⟨TripleStore.indexed_consumeAll known.holds.indexed rows,
    (TripleStore.liveRows_consumeAll _ rows).trans known.holds.rows, known.holds.header⟩, known.kind⟩

theorem Known.consume (known : standing.Known setting session) (id : TripleId) : standing.Known setting (session.consume id) :=
  ⟨⟨TripleStore.indexed_consume _ id known.holds.indexed, (TripleStore.liveRows_consume _ id).trans known.holds.rows,
    known.holds.header⟩, known.kind⟩

theorem Known.pending (known : standing.Known setting session) (pending : Array Problem) :
    standing.Known setting { session with pending } :=
  ⟨⟨known.holds.indexed, known.holds.rows, known.holds.header⟩, known.kind⟩

theorem Known.visiting (known : standing.Known setting session) (visiting : List Node) :
    standing.Known setting { session with visiting } :=
  ⟨⟨known.holds.indexed, known.holds.rows, known.holds.header⟩, known.kind⟩

/-- Only kinds of object properties can be mistaken. -/
theorem ne_rival {iri : Iri} {kind : EntityKind} (other : kind ≠ .objectProperty) (data : standing.ofData = true) :
    (⟨kind, iri⟩ : Entity) ≠ standing.rival := by
  obtain ⟨property, _ | _⟩ := standing
  · cases data
  · exact fun same => other (congrArg Entity.kind same)

/-- The translation keeps the kind of the property, and what it reads is good. -/
abbrev Keeps {α : Type} (standing : PropertyStanding) (setting : Setting) (context : Context) (body : Translation α)
    (good : α → Prop) : Prop :=
  Yields context (standing.Known setting) body fun value session => standing.Known setting session ∧ good value

end PropertyStanding

namespace Translation

open PropertyStanding

variable {standing : PropertyStanding} {setting : Setting} {context : Context} {α β Form : Type}

section Rules

variable {good : α → Prop} {fine : β → Prop}

theorem keeps_pure {value : α} (own : good value) : standing.Keeps setting context (pure value) good :=
  .pure fun _ known => ⟨known, own⟩

theorem keeps_bind {body : Translation α} {next : α → Translation β} (first : standing.Keeps setting context body good)
    (rest : ∀ value, good value → standing.Keeps setting context (next value) fine) :
    standing.Keeps setting context (body >>= next) fine :=
  Yields.bind first fun value session result final ⟨known, own⟩ run => rest value own session result final known run

theorem keeps_look {next : Session → Translation α}
    (rest : ∀ session, standing.Known setting session → standing.Keeps setting context (next session) good) :
    standing.Keeps setting context (MonadState.get >>= next) good := Yields.get rest

theorem keeps_imp {body : Translation α} {better : α → Prop} (keeps : standing.Keeps setting context body better)
    (weaker : ∀ value, better value → good value) : standing.Keeps setting context body good :=
  Yields.imp keeps fun value _ ⟨known, own⟩ => ⟨known, weaker value own⟩

theorem keeps_alter {change : Session → Session}
    (kept : ∀ session, standing.Known setting session → standing.Known setting (change session)) {good : Unit → Prop} (own : good ()) :
    standing.Keeps setting context (modify change) good := .alter fun session known => ⟨kept session known, own⟩

theorem keeps_fail (problem : Problem) : standing.Keeps setting context (fail problem) good := .raise _

theorem keeps_unexpected (expectation : Expectation) (found : Term) :
    standing.Keeps setting context (unexpected expectation found) good := .raise _

theorem keeps_recover (problem : Problem) : standing.Keeps setting context (recover problem) fun _ => True := by
  refine .read (.ite (fun _ => .raise _) fun _ => .alter fun session known => ⟨known.pending _, trivial⟩)

theorem keeps_learn {iri : Iri} {kind : EntityKind} (apart : standing.ofData = true → (⟨kind, iri⟩ : Entity) ≠ standing.rival) :
    standing.Keeps setting context (learn iri kind) fun _ => True :=
  keeps_alter (fun _ known => known.learn apart) trivial

theorem keeps_learn_other (iri : Iri) {kind : EntityKind} (other : kind ≠ .objectProperty) :
    standing.Keeps setting context (learn iri kind) fun _ => True := keeps_learn (ne_rival other)

theorem keeps_consumeAll (rows : List Row) : standing.Keeps setting context (consumeAll rows) fun _ => True :=
  keeps_alter (fun _ known => known.consumeAll rows) trivial

theorem keeps_consume (id : TripleId) : standing.Keeps setting context (consume id) fun _ => True :=
  keeps_alter (fun _ known => known.consume id) trivial

theorem keeps_nested {body : Translation α} (node : Node) (keeps : standing.Keeps setting context body good) :
    standing.Keeps setting context (nested node body) good := by
  intro session value final known run
  rw [nested] at run
  split at run
  · cases run
  · cases ended : body context { session with visiting := node :: session.visiting } with
    | mk result after =>
      rw [ended] at run
      obtain ⟨rfl, rfl⟩ := Prod.mk.inj run
      obtain ⟨kept, own⟩ := keeps _ value after (known.visiting _) ended
      exact ⟨kept.visiting _, own⟩

end Rules

section Kinds

/-- The kind that is found for the property is the declared one. -/
theorem keeps_resolveProperty (iri : Iri) (hint : Option PropertyKind) :
    standing.Keeps setting context (resolveProperty iri hint) fun kind => iri = standing.property → kind = standing.kind := by
  refine .look fun session known => ?_
  have unknown (none : session.propertyKind? iri = none) : iri ≠ standing.property := by
    rintro rfl
    rw [known.kind] at none
    cases none
  have learned (kind : PropertyKind) (none : session.propertyKind? iri = none) : standing.Keeps setting context (do
      learn iri kind.entityKind
      return kind) fun kind => iri = standing.property → kind = standing.kind :=
    keeps_bind (keeps_learn fun data same => unknown none (by
      obtain ⟨property, _ | _⟩ := standing
      · cases data
      · exact congrArg Entity.iri same)) fun _ _ => keeps_pure fun same => absurd same (unknown none)
  suffices resolved : standing.Keeps setting context _ fun kind => iri = standing.property → kind = standing.kind from
    resolved.weaken (fun _ same => same ▸ known) fun _ _ => id
  split
  · next kind found =>
    refine keeps_pure fun same => ?_
    rw [same, known.kind] at found
    exact (Option.some.inj found).symm
  · next kind none => exact learned kind none
  · next none =>
    refine .read (.ite (fun _ => ?_) fun _ => .stop _ _)
    exact keeps_bind (keeps_recover _) fun _ _ => learned .object none

theorem keeps_subjectKind (subject : Node) (hint : Option PropertyKind) :
    standing.Keeps setting context (subjectKind subject hint) fun kind =>
      subject = standing.property → kind = standing.kind := by
  cases subject with
  | named iri => exact keeps_imp (keeps_resolveProperty iri hint) fun kind own same => own (Node.named.inj same)
  | blank => exact keeps_pure nofun

end Kinds

section Collections

theorem keeps_listStep (head : Term) (node : Node) (predicate : Iri) :
    standing.Keeps setting context (listStep head node predicate) fun _ => True := by
  refine keeps_look fun session _ => ?_
  split
  · exact keeps_bind (keeps_consume _) fun _ _ => keeps_pure trivial
  · exact keeps_fail _
  · exact keeps_fail _

theorem keeps_readListFrom (head : Term) : ∀ (room : Nat) (visited : Std.HashSet Node) (elements : Array Term) (current : Term),
    standing.Keeps setting context (readListFrom head room visited elements current) fun _ => True := by
  intro room
  induction room with
  | zero =>
    intro visited elements current
    unfold readListFrom
    refine .ite (fun _ => keeps_pure trivial) fun _ => ?_
    split
    · exact .ite (fun _ => .stop _ _) fun _ => .read (keeps_fail _)
    · exact keeps_fail _
  | succ room ih =>
    intro visited elements current
    unfold readListFrom
    refine .ite (fun _ => keeps_pure trivial) fun _ => ?_
    split
    · refine .ite (fun _ => .stop _ _) fun _ => ?_
      exact keeps_bind (keeps_listStep _ _ _) fun _ _ => keeps_bind (keeps_listStep _ _ _) fun _ _ =>
        keeps_look fun _ _ => keeps_bind (keeps_consumeAll _) fun _ _ => ih _ _ _
    · exact keeps_fail _

theorem keeps_readList (head : Term) : standing.Keeps setting context (readList head) fun _ => True :=
  .read (keeps_readListFrom head _ _ _ _)

theorem keeps_operands (head : Term) : standing.Keeps setting context (operands head) fun _ => True :=
  keeps_bind (keeps_readList head) fun _ _ =>
    .ite (fun _ => keeps_bind (keeps_recover _) fun _ _ => keeps_pure trivial) fun _ => keeps_pure trivial

theorem keeps_operandsWith {read : Term → Translation α} {good : α → Prop}
    (each : ∀ term, standing.Keeps setting context (read term) good) (head : Term) :
    standing.Keeps setting context (operandsWith read head) fun values => ∀ value ∈ values, good value :=
  keeps_bind (keeps_operands head) fun elements _ => Yields.mapM elements fun term _ => each term

end Collections

section Patterns

theorem keeps_selectForm (family : Family Form) (view : NodeView) :
    standing.Keeps setting context (selectForm family view) fun form => (family.pattern form).fitsKind view = true := by
  unfold selectForm
  split
  · next form found =>
    refine keeps_pure ?_
    have fits := List.find?_some found
    simp only [Pattern.fits, Bool.and_eq_true] at fits
    exact fits.1.2
  · split
    · exact keeps_fail _
    · next form others found =>
      refine keeps_bind (keeps_recover _) fun _ _ => keeps_pure ?_
      have member : form ∈ family.forms.filter fun form => (family.pattern form).fitsLeniently view := found ▸ List.mem_cons_self
      have fits := List.of_mem_filter member
      rw [Pattern.fitsLeniently, Bool.and_eq_true] at fits
      exact fits.1

theorem keeps_dispatch {family : Family Form} {view : NodeView} {readForm : Form → Translation α} {good : α → Prop}
    (each : ∀ form, (family.pattern form).fitsKind view = true → standing.Keeps setting context (readForm form) good) :
    standing.Keeps setting context (dispatch family view readForm) good :=
  keeps_bind (keeps_selectForm family view) fun form fits => keeps_bind (each form fits) fun _ own =>
    keeps_bind (keeps_consumeAll _) fun _ _ => keeps_pure own

theorem keeps_value (view : NodeView) (predicate : Iri) :
    standing.Keeps setting context (value view predicate) fun term => view.first? predicate = some term := by
  unfold value
  split
  · exact keeps_fail _
  · next found => exact keeps_pure (by rw [NodeView.first?, found, List.head?_cons])
  · next found =>
    exact keeps_bind (keeps_recover _) fun _ _ => keeps_pure (by rw [NodeView.first?, found, List.head?_cons])

/-- The value of a predicate is the object of a triple of the graph. -/
theorem keeps_singleObject (node : Node) (predicate : Iri) :
    standing.Keeps setting context (singleObject node predicate) fun term =>
      ∃ row ∈ setting.rows, row.triple.predicate = predicate ∧ row.triple.object = term := by
  refine keeps_look fun session known => keeps_bind (keeps_value _ _) fun object found =>
    keeps_bind (keeps_consumeAll _) fun _ _ => keeps_pure ?_
  have member : object ∈ (session.view node).objects predicate := List.mem_of_mem_head? found
  obtain ⟨row, listed, same, own⟩ := NodeView.exists_row_of_mem_objects member
  exact ⟨row, (known.holds.mem_view.mp listed).1, same, own⟩

end Patterns

section Operands

theorem keeps_named (expectation : Expectation) (term : Term) :
    standing.Keeps setting context (named expectation term) fun iri => term.iri? = some iri := by
  unfold named
  split
  · next found => exact keeps_pure found
  · exact keeps_unexpected _ _

/-- An object property that is read is not the property if this was declared to be a data property
and is not read here. -/
theorem keeps_propertyExpression (uninverted : standing.Uninverted setting) {term : Term}
    (apart : standing.ofData = true → term ≠ standing.property) :
    standing.Keeps setting context (propertyExpression term) fun expression =>
      Component.property expression ≠ .entity standing.rival := by
  have different {iri : Iri} (apart : standing.ofData = true → iri ≠ standing.property) :
      (⟨.objectProperty, iri⟩ : Entity) ≠ standing.rival := by
    obtain ⟨property, _ | _⟩ := standing
    · exact fun same => nomatch congrArg Entity.kind same
    · exact fun same => apart rfl (congrArg Entity.iri same)
  have learned {iri : Iri} (expression : PropertyExpression) (own : expression.property = iri)
      (apart : standing.ofData = true → iri ≠ standing.property) : standing.Keeps setting context (do
        learn iri .objectProperty
        return expression) fun expression => Component.property expression ≠ .entity standing.rival :=
    keeps_bind (keeps_learn fun _ => different apart) fun _ _ =>
      keeps_pure fun same => different apart (own ▸ Component.entity.inj same)
  rcases term with (iri | node) | _
  · exact learned (.named iri) rfl fun data same => apart data (same ▸ rfl)
  · refine keeps_bind (keeps_singleObject _ _) fun object found => ?_
    obtain ⟨row, listed, inverse, own⟩ := found
    split
    · next iri =>
      refine learned (.inverse iri) rfl fun data same => (uninverted data row listed inverse).2 ?_
      rw [own, same]
    · exact keeps_unexpected _ _
  · exact keeps_unexpected _ _

theorem keeps_dataProperty {term : Term} (apart : standing.ofData = false → term ≠ standing.property) :
    standing.Keeps setting context (dataProperty term) fun iri => Component.dataProperty iri ≠ .entity standing.rival := by
  refine keeps_bind (keeps_named _ _) fun iri found => keeps_bind (keeps_learn_other _ (by decide)) fun _ _ => keeps_pure ?_
  obtain ⟨property, _ | _⟩ := standing
  · intro same
    have named : iri = property := congrArg Entity.iri (Component.entity.inj same)
    rcases term with (other | node) | _ <;> cases found
    exact apart rfl (named ▸ rfl)
  · exact fun same => nomatch congrArg Entity.kind (Component.entity.inj same)

theorem keeps_individualOf (node : Node) : standing.Keeps setting context (individualOf node) fun _ => True :=
  keeps_look fun _ _ => .read (keeps_pure trivial)

theorem keeps_individual (term : Term) : standing.Keeps setting context (individual term) fun _ => True := by
  unfold individual
  split
  · exact keeps_individualOf _
  · exact keeps_unexpected _ _

theorem keeps_literal (term : Term) : standing.Keeps setting context (literal term) fun _ => True := by
  unfold literal
  split
  · exact keeps_pure trivial
  · exact keeps_unexpected _ _

theorem keeps_annotationValue (term : Term) : standing.Keeps setting context (annotationValue term) fun _ => True :=
  keeps_look fun _ _ => .read (keeps_pure trivial)

theorem keeps_asVariable (term : Term) : standing.Keeps setting context (asVariable term) fun _ => True :=
  keeps_look fun _ _ => keeps_pure trivial

theorem keeps_individualArgument (term : Term) : standing.Keeps setting context (individualArgument term) fun _ => True := by
  refine keeps_bind (keeps_asVariable term) fun iri _ => ?_
  split
  · exact keeps_pure trivial
  · exact keeps_bind (keeps_individual term) fun _ _ => keeps_pure trivial

theorem keeps_dataArgument (term : Term) : standing.Keeps setting context (dataArgument term) fun _ => True := by
  refine keeps_bind (keeps_asVariable term) fun iri _ => ?_
  split
  · exact keeps_pure trivial
  · exact keeps_bind (keeps_literal term) fun _ _ => keeps_pure trivial

theorem keeps_cardinality (term : Term) : standing.Keeps setting context (cardinality term) fun _ => True := by
  unfold cardinality
  split
  · split
    · exact keeps_fail _
    · exact keeps_fail _
    · exact .ite (fun _ => keeps_pure trivial) fun _ => keeps_bind (keeps_recover _) fun _ _ => keeps_pure trivial
  · exact keeps_unexpected _ _

end Operands

section Ranges

theorem keeps_facetRestriction (element : Term) : standing.Keeps setting context (facetRestriction element) fun _ => True := by
  unfold facetRestriction
  split
  · refine keeps_look fun session _ => ?_
    dsimp only
    split
    · exact keeps_bind (keeps_literal _) fun _ _ => keeps_bind (keeps_consume _) fun _ _ => keeps_pure trivial
    · exact keeps_fail _
  · exact keeps_unexpected _ _

theorem keeps_readDataRange {inner : Term → Translation DataRange}
    (each : ∀ term, standing.Keeps setting context (inner term) fun _ => True) (view : NodeView) (form : DataRangeForm) :
    standing.Keeps setting context (readDataRange inner view form) fun _ => True := by
  cases form with
  | combination =>
    exact keeps_bind (keeps_value _ _) fun _ _ => keeps_bind (keeps_operands _) fun elements _ =>
      keeps_bind (Yields.mapM elements fun term _ => each term) fun _ _ => keeps_pure trivial
  | complement => exact keeps_bind (keeps_value _ _) fun _ _ => keeps_bind (each _) fun _ _ => keeps_pure trivial
  | oneOf =>
    exact keeps_bind (keeps_value _ _) fun _ _ => keeps_bind (keeps_operands _) fun elements _ =>
      keeps_bind (Yields.mapM elements fun term _ => keeps_literal term) fun _ _ => keeps_pure trivial
  | restriction =>
    exact keeps_bind (keeps_value _ _) fun _ _ => keeps_bind (keeps_named _ _) fun _ _ =>
      keeps_bind (keeps_value _ _) fun _ _ => keeps_bind (keeps_readList _) fun elements _ =>
        keeps_bind (Yields.mapM elements fun term _ => keeps_facetRestriction term) fun _ _ => keeps_pure trivial

theorem keeps_dataRangeWithin (depth : Nat) : ∀ term, standing.Keeps setting context (dataRangeWithin depth term) fun _ => True := by
  induction depth with
  | zero =>
    rintro ((iri | node) | value) <;> rw [dataRangeWithin]
    · exact keeps_bind (keeps_learn_other _ (by decide)) fun _ _ => keeps_pure trivial
    · exact keeps_fail _
    · exact keeps_unexpected _ _
  | succ depth ih =>
    rintro ((iri | node) | value) <;> rw [dataRangeWithin]
    · exact keeps_bind (keeps_learn_other _ (by decide)) fun _ _ => keeps_pure trivial
    · exact keeps_nested _ (keeps_look fun _ _ => keeps_dispatch fun form _ => keeps_readDataRange ih _ form)
    · exact keeps_unexpected _ _

theorem keeps_depthLimit : standing.Keeps setting context depthLimit fun _ => True := keeps_look fun _ _ => keeps_pure trivial

theorem keeps_dataRange (term : Term) : standing.Keeps setting context (dataRange term) fun _ => True :=
  keeps_bind keeps_depthLimit fun _ _ => keeps_dataRangeWithin _ term

end Ranges

section Absence

/-- What is read by the kind found for it is not the property if that is not its kind. -/
theorem apart_of_kind {term : Term} {kind : PropertyKind} (own : term = standing.property → kind = standing.kind) :
    (kind = .object → standing.ofData = true → term ≠ standing.property) ∧
      (kind = .data → standing.ofData = false → term ≠ standing.property) := by
  refine ⟨fun found data same => ?_, fun found object same => ?_⟩
  · exact nomatch found.symm.trans ((own same).trans (PropertyStanding.kind_eq_data data))
  · exact nomatch found.symm.trans ((own same).trans (PropertyStanding.kind_eq_object object))

/-- The property is not read as what it was not declared to be if the pattern asks for the kind
that was found. -/
theorem apart_of_first {view : NodeView} {predicate : Iri} {term : Term} {kind : PropertyKind}
    (found : view.first? predicate = some standing.property → view.propertyKind = some standing.kind)
    (fits : view.propertyKind = some kind) (first : view.first? predicate = some term) :
    (kind = .object → standing.ofData = true → term ≠ standing.property) ∧
      (kind = .data → standing.ofData = false → term ≠ standing.property) :=
  apart_of_kind fun same => Option.some.inj (fits.symm.trans (found (first.trans (congrArg some same))))

theorem fitsKind_eq {pattern : Pattern} {view : NodeView} {kind : PropertyKind} (asks : pattern.kind = some kind)
    (fits : pattern.fitsKind view = true) : view.propertyKind = some kind := by
  rw [Pattern.fitsKind, asks, Option.isNone_some, Bool.false_or, beq_iff_eq] at fits
  exact fits.symm

theorem entity_ne_rival {kind : EntityKind} {iri : Iri} (noObject : kind ≠ .objectProperty) (noData : kind ≠ .dataProperty) :
    Component.entity ⟨kind, iri⟩ ≠ .entity standing.rival := by
  obtain ⟨property, _ | _⟩ := standing
  · exact fun same => noData (congrArg Entity.kind (Component.entity.inj same))
  · exact fun same => noObject (congrArg Entity.kind (Component.entity.inj same))

theorem individual_ne_rival (node : Individual) : Component.individual node ≠ .entity standing.rival := by
  cases node with
  | named => exact entity_ne_rival (by decide) (by decide)
  | blank => exact fun same => by cases same

theorem iri_ne_rival (iri : Iri) : Component.iri iri ≠ .entity standing.rival := fun same => by cases same

theorem literal_ne_rival (value : Literal) : Component.literal value ≠ .entity standing.rival := entity_ne_rival (by decide) (by decide)

theorem not_foreign_cons {component : Component} {rest : List Component} (first : component ≠ .entity standing.rival)
    (others : ¬ standing.Foreign rest) : ¬ standing.Foreign (component :: rest) := fun member =>
  (List.mem_cons.mp member).elim (fun same => first same.symm) others

theorem not_foreign_append {before after : List Component} (first : ¬ standing.Foreign before)
    (second : ¬ standing.Foreign after) : ¬ standing.Foreign (before ++ after) := fun member =>
  (List.mem_append.mp member).elim first second

theorem not_foreign_flatMap {γ : Type} {components : γ → List Component} {items : List γ}
    (each : ∀ item ∈ items, ¬ standing.Foreign (components item)) : ¬ standing.Foreign (items.flatMap components) := by
  intro member
  obtain ⟨item, own, inside⟩ := List.mem_flatMap.mp member
  exact each item own inside

theorem not_foreign_map {γ : Type} {component : γ → Component} {items : List γ}
    (each : ∀ item ∈ items, component item ≠ .entity standing.rival) : ¬ standing.Foreign (items.map component) := by
  intro member
  obtain ⟨item, own, same⟩ := List.mem_map.mp member
  exact each item own same

theorem not_foreign_dataRange (range : DataRange) : ¬ standing.Foreign range.components := by
  intro member
  obtain ⟨iri, same⟩ := range.component_eq member
  obtain ⟨property, _ | _⟩ := standing <;> cases same

end Absence

section Expressions

theorem keeps_restrictionKind (view : NodeView) : standing.Keeps setting context (restrictionKind view) fun kind =>
    view.first? Owl.onProperty = some standing.property → kind = some standing.kind := by
  unfold restrictionKind
  split
  · next found => exact keeps_pure fun named => nomatch found.symm.trans named
  · next iri found =>
    refine keeps_look fun session _ => keeps_bind (keeps_resolveProperty iri _) fun kind own => keeps_pure fun named => ?_
    have same : iri = standing.property := Node.named.inj (Term.resource.inj (Option.some.inj (found.symm.trans named)))
    rw [own same]
  · next _ other => exact keeps_pure fun named => absurd named (other standing.property)

theorem keeps_boundOf {filler : Term → Translation α} {good : α → Prop}
    (each : ∀ term, standing.Keeps setting context (filler term) good) (view : NodeView) (bound : Bound) (fillerPredicate : Iri) :
    standing.Keeps setting context (boundOf view bound fillerPredicate filler) fun result => ∀ value ∈ result.2, good value := by
  refine .ite (fun _ => ?_) fun _ => ?_
  · exact keeps_bind (keeps_value _ _) fun _ _ => keeps_bind (keeps_cardinality _) fun _ _ =>
      keeps_bind (keeps_value _ _) fun _ _ => keeps_bind (each _) fun value own =>
        keeps_pure fun other same => Option.some.inj same ▸ own
  · exact keeps_bind (keeps_value _ _) fun _ _ => keeps_bind (keeps_cardinality _) fun _ _ => keeps_pure nofun

/-- A class expression mentions the property by its declared kind only. -/
theorem keeps_readClassExpression (uninverted : standing.Uninverted setting) {inner : Term → Translation ClassExpression}
    (each : ∀ term, standing.Keeps setting context (inner term) fun expression => ¬ standing.Foreign expression.components)
    {view : NodeView} (found : view.first? Owl.onProperty = some standing.property → view.propertyKind = some standing.kind)
    {form : ClassForm} (fits : form.pattern.fitsKind view = true) :
    standing.Keeps setting context (readClassExpression inner view form) fun expression => ¬ standing.Foreign expression.components := by
  have object (asks : form.kind = some .object) {next : PropertyExpression → Translation ClassExpression}
      (rest : ∀ property, Component.property property ≠ .entity standing.rival → standing.Keeps setting context (next property)
        fun expression => ¬ standing.Foreign expression.components) : standing.Keeps setting context (do
        let property ← propertyExpression (← value view Owl.onProperty)
        next property) fun expression => ¬ standing.Foreign expression.components :=
    keeps_bind (keeps_value _ _) fun term first => keeps_bind
      (keeps_propertyExpression uninverted ((apart_of_first found (fitsKind_eq asks fits) first).1 rfl)) rest
  have data (asks : form.kind = some .data) {next : Iri → Translation ClassExpression}
      (rest : ∀ property, Component.dataProperty property ≠ .entity standing.rival → standing.Keeps setting context (next property)
        fun expression => ¬ standing.Foreign expression.components) : standing.Keeps setting context (do
        let property ← dataProperty (← value view Owl.onProperty)
        next property) fun expression => ¬ standing.Foreign expression.components :=
    keeps_bind (keeps_value _ _) fun term first => keeps_bind
      (keeps_dataProperty ((apart_of_first found (fitsKind_eq asks fits) first).2 rfl)) rest
  cases form with
  | combination =>
    refine keeps_bind (keeps_value _ _) fun _ _ => keeps_bind (keeps_operands _) fun elements _ =>
      keeps_bind (Yields.mapM elements fun term _ => each term) fun operands absent => keeps_pure ?_
    rw [ClassExpression.components, ClassExpression.componentsEach_eq]
    exact not_foreign_flatMap absent
  | complement =>
    refine keeps_bind (keeps_value _ _) fun _ _ => keeps_bind (each _) fun operand absent => keeps_pure ?_
    rwa [ClassExpression.components]
  | oneOf =>
    refine keeps_bind (keeps_value _ _) fun _ _ => keeps_bind (keeps_operands _) fun elements _ =>
      keeps_bind (Yields.mapM elements fun term _ => keeps_individual term) fun individuals _ => keeps_pure ?_
    exact not_foreign_map fun node _ => individual_ne_rival node
  | objectValues =>
    exact object rfl fun property other => keeps_bind (keeps_value _ _) fun _ _ => keeps_bind (each _) fun filler absent =>
      keeps_pure (not_foreign_cons other absent)
  | objectHasValue =>
    exact object rfl fun property other => keeps_bind (keeps_value _ _) fun _ _ => keeps_bind (keeps_individual _) fun node _ =>
      keeps_pure (not_foreign_cons other (not_foreign_cons (individual_ne_rival node) List.not_mem_nil))
  | hasSelf =>
    refine object rfl fun property other => keeps_bind (keeps_value _ _) fun _ _ => keeps_bind (keeps_literal _) fun truth _ => ?_
    exact .ite (fun _ => keeps_pure (not_foreign_cons other List.not_mem_nil)) fun _ => .stop _ _
  | objectCardinality =>
    refine object rfl fun property other => keeps_bind (keeps_boundOf each _ _ _) fun ⟨number, filler⟩ absent => keeps_pure ?_
    cases filler with
    | none => exact not_foreign_cons other List.not_mem_nil
    | some filler => exact not_foreign_cons other (absent filler rfl)
  | dataValues =>
    exact data rfl fun property other => keeps_bind (keeps_value _ _) fun _ _ => keeps_bind (keeps_dataRange _) fun range _ =>
      keeps_pure (not_foreign_cons other (not_foreign_dataRange range))
  | dataHasValue =>
    exact data rfl fun property other => keeps_bind (keeps_value _ _) fun _ _ => keeps_bind (keeps_literal _) fun constant _ =>
      keeps_pure (not_foreign_cons other (not_foreign_cons (literal_ne_rival constant) List.not_mem_nil))
  | dataCardinality =>
    refine data rfl fun property other => keeps_bind (keeps_boundOf keeps_dataRange _ _ _) fun ⟨number, filler⟩ _ => keeps_pure ?_
    cases filler with
    | none => exact not_foreign_cons other List.not_mem_nil
    | some filler => exact not_foreign_cons other (not_foreign_dataRange filler)

theorem keeps_classExpressionWithin (uninverted : standing.Uninverted setting) (depth : Nat) : ∀ term,
    standing.Keeps setting context (classExpressionWithin depth term) fun expression => ¬ standing.Foreign expression.components := by
  have named (iri : Iri) : standing.Keeps setting context (do
      learn iri .cls
      return ClassExpression.named iri) fun expression => ¬ standing.Foreign expression.components :=
    keeps_bind (keeps_learn_other _ (by decide)) fun _ _ =>
      keeps_pure (not_foreign_cons (entity_ne_rival (by decide) (by decide)) List.not_mem_nil)
  induction depth with
  | zero =>
    rintro ((iri | node) | value) <;> rw [classExpressionWithin]
    · exact named iri
    · exact keeps_fail _
    · exact keeps_unexpected _ _
  | succ depth ih =>
    rintro ((iri | node) | value) <;> rw [classExpressionWithin]
    · exact named iri
    · refine keeps_nested _ (keeps_look fun session _ => keeps_bind (keeps_restrictionKind _) fun kind found => ?_)
      exact keeps_dispatch fun form fits => keeps_readClassExpression uninverted ih found fits
    · exact keeps_unexpected _ _

theorem keeps_classExpression (uninverted : standing.Uninverted setting) (term : Term) :
    standing.Keeps setting context (classExpression term) fun expression => ¬ standing.Foreign expression.components :=
  keeps_bind keeps_depthLimit fun _ _ => keeps_classExpressionWithin uninverted _ term

end Expressions

section Atoms

theorem keeps_atomPropertyKind (view : NodeView) : standing.Keeps setting context (atomPropertyKind view) fun kind =>
    view.first? Swrl.propertyPredicate = some standing.property → kind = some standing.kind := by
  unfold atomPropertyKind
  split
  · next iri found =>
    refine keeps_bind (keeps_resolveProperty iri _) fun kind own => keeps_pure fun named => ?_
    have same : iri = standing.property := Node.named.inj (Term.resource.inj (Option.some.inj (found.symm.trans named)))
    rw [own same]
  · next _ other => exact keeps_pure fun named => absurd named (other standing.property)

theorem not_foreign_individualArgument (argument : IndividualArgument) : ¬ standing.Foreign argument.components := by
  cases argument with
  | «variable» => exact List.not_mem_nil
  | individual node => exact not_foreign_cons (individual_ne_rival node) List.not_mem_nil

theorem not_foreign_dataArgument (argument : DataArgument) : ¬ standing.Foreign argument.components := by
  cases argument with
  | «variable» => exact List.not_mem_nil
  | literal value => exact not_foreign_cons (literal_ne_rival value) List.not_mem_nil

theorem keeps_readAtom (uninverted : standing.Uninverted setting) {view : NodeView}
    (found : view.first? Swrl.propertyPredicate = some standing.property → view.propertyKind = some standing.kind)
    {form : AtomForm} (fits : form.pattern.fitsKind view = true) :
    standing.Keeps setting context (readAtom view form) fun atom => ¬ standing.Foreign atom.components := by
  cases form with
  | cls =>
    exact keeps_bind (keeps_value _ _) fun _ _ => keeps_bind (keeps_value _ _) fun _ _ =>
      keeps_bind (keeps_classExpression uninverted _) fun expression absent => keeps_bind (keeps_individualArgument _) fun argument _ =>
        keeps_pure (not_foreign_append absent (not_foreign_individualArgument argument))
  | dataRange =>
    exact keeps_bind (keeps_value _ _) fun _ _ => keeps_bind (keeps_value _ _) fun _ _ =>
      keeps_bind (keeps_dataRange _) fun range _ => keeps_bind (keeps_dataArgument _) fun argument _ =>
        keeps_pure (not_foreign_append (not_foreign_dataRange range) (not_foreign_dataArgument argument))
  | objectProperty =>
    exact keeps_bind (keeps_value _ _) fun predicate first => keeps_bind (keeps_value _ _) fun _ _ =>
      keeps_bind (keeps_value _ _) fun _ _ =>
        keeps_bind (keeps_propertyExpression uninverted ((apart_of_first found (fitsKind_eq rfl fits) first).1 rfl)) fun property other =>
          keeps_bind (keeps_individualArgument _) fun subject _ => keeps_bind (keeps_individualArgument _) fun object _ =>
            keeps_pure (not_foreign_cons other
              (not_foreign_append (not_foreign_individualArgument subject) (not_foreign_individualArgument object)))
  | dataProperty =>
    exact keeps_bind (keeps_value _ _) fun predicate first => keeps_bind (keeps_value _ _) fun _ _ =>
      keeps_bind (keeps_value _ _) fun _ _ =>
        keeps_bind (keeps_dataProperty ((apart_of_first found (fitsKind_eq rfl fits) first).2 rfl)) fun property other =>
          keeps_bind (keeps_individualArgument _) fun subject _ => keeps_bind (keeps_dataArgument _) fun object _ =>
            keeps_pure (not_foreign_cons other
              (not_foreign_append (not_foreign_individualArgument subject) (not_foreign_dataArgument object)))
  | sameIndividual | differentIndividuals =>
    exact keeps_bind (keeps_value _ _) fun _ _ => keeps_bind (keeps_value _ _) fun _ _ =>
      keeps_bind (keeps_individualArgument _) fun first _ => keeps_bind (keeps_individualArgument _) fun second _ =>
        keeps_pure (not_foreign_append (not_foreign_individualArgument first) (not_foreign_individualArgument second))
  | builtin =>
    exact keeps_bind (keeps_value _ _) fun _ _ => keeps_bind (keeps_value _ _) fun _ _ =>
      keeps_bind (keeps_named _ _) fun _ _ => keeps_bind (keeps_readList _) fun elements _ =>
        keeps_bind (Yields.mapM elements fun term _ => keeps_dataArgument term) fun arguments _ =>
          keeps_pure (not_foreign_flatMap fun argument _ => not_foreign_dataArgument argument)

theorem keeps_atom (uninverted : standing.Uninverted setting) (term : Term) :
    standing.Keeps setting context (atom term) fun atom => ¬ standing.Foreign atom.components := by
  unfold atom
  split
  · refine keeps_nested _ (keeps_look fun session _ => keeps_bind (keeps_atomPropertyKind _) fun kind found => ?_)
    exact keeps_dispatch fun form fits => keeps_readAtom uninverted found fits
  · exact keeps_unexpected _ _

theorem keeps_atoms (uninverted : standing.Uninverted setting) (head : Term) : standing.Keeps setting context (atoms head)
    fun atoms => ∀ atom ∈ atoms, ¬ standing.Foreign atom.components :=
  keeps_bind (keeps_readList head) fun elements _ => Yields.mapM elements fun term _ => keeps_atom uninverted term

theorem keeps_rule (uninverted : standing.Uninverted setting) (node : Node) : standing.Keeps setting context (rule node)
    fun implication => ¬ standing.Foreign (Axiom.rule implication).components :=
  keeps_bind (keeps_singleObject _ _) fun _ _ => keeps_bind (keeps_singleObject _ _) fun _ _ =>
    keeps_bind (keeps_atoms uninverted _) fun _ inBody => keeps_bind (keeps_atoms uninverted _) fun _ inHead =>
      keeps_pure (not_foreign_flatMap (List.forall_mem_append.mpr ⟨inBody, inHead⟩))

end Atoms

section Annotations

theorem keeps_consumeReification (node : Node) : standing.Keeps setting context (consumeReification node) fun _ => True :=
  keeps_look fun _ _ => keeps_consumeAll _

theorem keeps_readNote {inner : Node → Translation (List Annotation)}
    (each : ∀ node, standing.Keeps setting context (inner node) fun _ => True) (row : Row) :
    standing.Keeps setting context (readNote inner row) fun _ => True := by
  have reified (node : Node) : standing.Keeps setting context (nested node do
      consumeReification node
      inner node) fun _ => True :=
    keeps_nested _ (keeps_bind (keeps_consumeReification _) fun _ _ => each _)
  refine keeps_look fun session _ => .ite (fun _ => ?_) fun _ => keeps_pure trivial
  exact keeps_bind (keeps_learn_other _ (by decide)) fun _ _ => keeps_bind (keeps_annotationValue _) fun _ _ =>
    keeps_bind (keeps_consume _) fun _ _ => keeps_look fun session _ =>
      keeps_bind (Yields.mapM _ fun reifier _ => reified reifier) fun _ _ => keeps_pure trivial

theorem keeps_annotationsWithin (depth : Nat) : ∀ node,
    standing.Keeps setting context (annotationsWithin depth node) fun _ => True := by
  induction depth with
  | zero => exact fun node => keeps_fail _
  | succ depth ih =>
    exact fun node => keeps_look fun session _ =>
      keeps_bind (Yields.mapM _ fun row _ => keeps_readNote ih row) fun _ _ => keeps_pure trivial

theorem keeps_annotationsOn (node : Node) : standing.Keeps setting context (annotationsOn node) fun _ => True :=
  keeps_look fun _ _ => keeps_annotationsWithin _ node

theorem annotated_ne_rival (node : Node) : Component.annotated node ≠ .entity standing.rival := by
  cases node with
  | named iri => exact iri_ne_rival iri
  | blank => exact fun same => by cases same

theorem annotationValue_ne_rival (value : Term) : Component.annotationValue value ≠ .entity standing.rival := by
  cases value with
  | resource node => exact annotated_ne_rival node
  | literal constant => exact literal_ne_rival constant

mutual

/-- Annotations refer to no properties but annotation properties. -/
theorem not_foreign_note : ∀ note : Annotation, ¬ standing.Foreign note.components
  | ⟨_, value, notes⟩ => by
    rw [ Annotation.components]
    exact not_foreign_cons (entity_ne_rival (by decide) (by decide))
      (not_foreign_cons (annotationValue_ne_rival value) (not_foreign_notes notes))

theorem not_foreign_notes : ∀ notes : List Annotation, ¬ standing.Foreign ( Annotation.componentsEach notes)
  | [] => List.not_mem_nil
  | note :: rest => not_foreign_append (not_foreign_note note) (not_foreign_notes rest)

end

end Annotations

end Translation

end OwlGraph
