import Mathlib.Data.List.Perm.Basic
import OwlGraph.Proofs.PatternReading
import OwlGraph.Translation.Atom

/-! Strict patterns never compete. The predicates of a node that fits a pattern strictly are those of
one of its alternatives, each with one value. So two patterns that the node fits agree in their types,
in the kinds of properties they are about and in the predicates of an alternative; and no two patterns
of a family do. Then the form of the node hangs neither on the order of the patterns nor on that of the
triples. -/

namespace OwlGraph

namespace NodeView

variable {view other : NodeView}

theorem objects_perm (rows : other.rows.Perm view.rows) (predicate : Iri) :
    (other.objects predicate).Perm (view.objects predicate) := ((rows.map _).filter _).map _

/-- Predicates with at most one value each have the same values in whatever order the triples come. -/
theorem objects_eq_of_perm (rows : other.rows.Perm view.rows) {predicate : Iri} (few : view.count predicate ≤ 1) :
    other.objects predicate = view.objects predicate := by
  have perm := objects_perm rows predicate
  rw [count] at few
  cases shape : view.objects predicate with
  | nil => exact List.perm_nil.mp (shape ▸ perm)
  | cons object rest =>
    have last : rest = [] := by
      rw [shape, List.length_cons] at few
      exact List.eq_nil_of_length_eq_zero (Nat.le_zero.mp (Nat.le_of_succ_le_succ few))
    rw [shape, last] at perm
    rw [last]
    exact List.perm_singleton.mp perm

end NodeView

namespace Pattern

variable {pattern rival : Pattern} {view other : NodeView} {predicates : List Iri}

/-- The node has the type of the pattern, and apart from it the predicates of the alternative, each with
one value. -/
structure Fit (pattern : Pattern) (view : NodeView) (predicates : List Iri) : Prop where
  types : view.types = [pattern.type]
  typed : view.count Rdf.type = 1
  kind : pattern.fitsKind view = true
  alternative : predicates ∈ pattern.alternatives
  each : ∀ predicate ∈ predicates, view.count predicate = 1
  only : ∀ triple ∈ view.triples, triple.predicate = Rdf.type ∨ triple.predicate ∈ predicates

theorem fits_iff : pattern.fits view = true ↔ ∃ predicates, pattern.Fit view predicates := by
  simp only [fits, Bool.and_eq_true, beq_iff_eq, List.any_eq_true, List.all_eq_true, Bool.or_eq_true, List.contains_iff_mem]
  constructor
  · rintro ⟨⟨⟨types, typed⟩, kind⟩, predicates, alternative, each, only⟩
    exact ⟨predicates, types, typed, kind, alternative, each, only⟩
  · rintro ⟨predicates, types, typed, kind, alternative, each, only⟩
    exact ⟨⟨⟨types, typed⟩, kind⟩, predicates, alternative, each, only⟩

/-- A node that fits a pattern strictly fits it leniently. -/
theorem fitsLeniently_of_fits (fits : pattern.fits view = true) : pattern.fitsLeniently view = true := by
  obtain ⟨predicates, fit⟩ := fits_iff.mp fits
  rw [fitsLeniently, fit.kind, Bool.true_and, List.any_eq_true]
  refine ⟨predicates, fit.alternative, List.all_eq_true.mpr fun predicate member => ?_⟩
  have one : (view.objects predicate).length = 1 := fit.each predicate member
  rw [NodeView.has, Bool.not_eq_true', List.isEmpty_eq_false_iff]
  exact List.ne_nil_of_length_pos (one ▸ Nat.one_pos)

namespace Fit

variable (fit : pattern.Fit view predicates)
include fit

/-- No predicate of the node has several values. -/
theorem count_le (predicate : Iri) : view.count predicate ≤ 1 := by
  by_cases type : predicate = Rdf.type
  · exact type ▸ Nat.le_of_eq fit.typed
  by_cases member : predicate ∈ predicates
  · exact Nat.le_of_eq (fit.each predicate member)
  · have none : view.objects predicate = [] := by
      refine List.eq_nil_iff_forall_not_mem.mpr fun object present => ?_
      obtain ⟨triple, inside, rfl, -⟩ := NodeView.mem_objects.mp present
      exact (fit.only triple inside).elim type member
    rw [NodeView.count, none]
    exact Nat.zero_le _

theorem objects_eq (rows : other.rows.Perm view.rows) (predicate : Iri) : other.objects predicate = view.objects predicate :=
  NodeView.objects_eq_of_perm rows (fit.count_le predicate)

theorem reorder (rows : other.rows.Perm view.rows) (kind : other.propertyKind = view.propertyKind) :
    pattern.Fit other predicates where
  types := by rw [NodeView.types, fit.objects_eq rows, ← NodeView.types, fit.types]
  typed := by rw [NodeView.count, fit.objects_eq rows, ← NodeView.count, fit.typed]
  kind := by rw [fitsKind, kind, ← fitsKind, fit.kind]
  alternative := fit.alternative
  each predicate member := by rw [NodeView.count, fit.objects_eq rows, ← NodeView.count, fit.each predicate member]
  only triple member := fit.only triple ((rows.map Row.triple).mem_iff.mp member)

/-- Every predicate of the alternative but the type is among those of any other alternative that the
node has. -/
theorem subset {others : List Iri} (also : rival.Fit view others) {predicate : Iri} (member : predicate ∈ predicates)
    (proper : predicate ≠ Rdf.type) : predicate ∈ others := by
  obtain ⟨object, present⟩ : ∃ object, object ∈ view.objects predicate :=
    List.exists_mem_of_length_pos (Nat.lt_of_lt_of_eq Nat.one_pos (fit.each predicate member).symm)
  obtain ⟨triple, inside, rfl, -⟩ := NodeView.mem_objects.mp present
  exact (also.only triple inside).resolve_left proper

end Fit

/-- Whether the predicates but the type are different ones. -/
def differ (predicates others : List Iri) : Bool :=
  predicates.any (fun predicate => predicate != Rdf.type && !others.contains predicate) ||
    others.any fun predicate => predicate != Rdf.type && !predicates.contains predicate

/-- Whether the patterns have different types, are about properties of different kinds, or have only
alternatives with different predicates. -/
def apart (pattern rival : Pattern) : Bool :=
  pattern.type != rival.type || (pattern.kind.isSome && rival.kind.isSome && pattern.kind != rival.kind) ||
    pattern.alternatives.all fun predicates => rival.alternatives.all fun others => differ predicates others

theorem Fit.not_differ {others : List Iri} (fit : pattern.Fit view predicates) (also : rival.Fit view others) :
    differ predicates others = false := by
  simp only [differ, Bool.or_eq_false_iff, List.any_eq_false, Bool.and_eq_true, bne_iff_ne, Bool.not_eq_true', not_and,
    Bool.not_eq_false, List.contains_iff_mem]
  exact ⟨fun predicate member proper => fit.subset also member proper, fun predicate member proper => also.subset fit member proper⟩

/-- No node fits two patterns that are apart. -/
theorem not_fits_of_apart (apart : pattern.apart rival = true) (fits : pattern.fits view = true) : rival.fits view = false := by
  refine Bool.eq_false_iff.mpr fun also => ?_
  obtain ⟨predicates, fit⟩ := fits_iff.mp fits
  obtain ⟨others, also⟩ := fits_iff.mp also
  simp only [Pattern.apart, Bool.or_eq_true, bne_iff_ne, Bool.and_eq_true, List.all_eq_true] at apart
  rcases apart with (types | ⟨⟨own, others⟩, kinds⟩) | alternatives
  · exact types (List.singleton_inj.mp (fit.types.symm.trans also.types))
  · have kind {pattern : Pattern} (fits : pattern.fitsKind view = true) (some : pattern.kind.isSome = true) :
        pattern.kind = view.propertyKind := by
      rw [fitsKind, Option.isNone_eq_false_iff.mpr some, Bool.false_or, beq_iff_eq] at fits
      exact fits
    exact kinds ((kind fit.kind own).trans (kind also.kind others).symm)
  · have both := alternatives _ fit.alternative _ also.alternative
    rw [fit.not_differ also] at both
    exact Bool.false_ne_true both

end Pattern

namespace Family

variable {Form : Type} {family : Family Form} {view other : NodeView} {form : Form}

/-- Different forms of the family have patterns that are apart. -/
def Separated (family : Family Form) : Prop :=
  ∀ form ∈ family.forms, ∀ rival ∈ family.forms, form ≠ rival → (family.pattern form).apart (family.pattern rival) = true

instance [DecidableEq Form] (family : Family Form) : Decidable family.Separated :=
  inferInstanceAs (Decidable (∀ form ∈ family.forms, ∀ rival ∈ family.forms,
    form ≠ rival → (family.pattern form).apart (family.pattern rival) = true))

theorem Separated.unique (separated : family.Separated) (member : form ∈ family.forms)
    (fits : (family.pattern form).fits view = true) {rival : Form} (registered : rival ∈ family.forms)
    (also : (family.pattern rival).fits view = true) : form = rival := by
  by_contra different
  have none := Pattern.not_fits_of_apart (separated form member rival registered different) fits
  exact Bool.false_ne_true (none.symm.trans also)

/-- The form that a node fits strictly is found in whatever order the forms are tried and the triples
come. -/
theorem Separated.find?_eq (separated : family.Separated) (member : form ∈ family.forms)
    (fits : (family.pattern form).fits view = true) {forms : List Form} (order : forms.Perm family.forms)
    (rows : other.rows.Perm view.rows) (kind : other.propertyKind = view.propertyKind) :
    (forms.find? fun form => (family.pattern form).fits other) = some form := by
  obtain ⟨predicates, fit⟩ := Pattern.fits_iff.mp fits
  have still : (family.pattern form).fits other = true := Pattern.fits_iff.mpr ⟨predicates, fit.reorder rows kind⟩
  match found : forms.find? fun form => (family.pattern form).fits other with
  | none => exact absurd still (List.find?_eq_none.mp found form (order.mem_iff.mpr member))
  | some rival =>
    have registered : rival ∈ family.forms := order.mem_iff.mp (List.mem_of_find?_eq_some found)
    have also : (family.pattern rival).fits other = true := List.find?_some (p := fun form => (family.pattern form).fits other) found
    exact congrArg some (separated.unique registered also member still)

end Family

theorem ClassForm.separated : ClassForm.family.Separated := by
  decide +kernel

theorem DataRangeForm.separated : DataRangeForm.family.Separated := by
  decide +kernel

theorem AtomForm.separated : AtomForm.family.Separated := by
  decide +kernel

/-- The patterns of the family never compete for a node that fits one of them strictly. -/
structure Family.Exclusive {Form : Type} (family : Family Form) : Prop where
  complete (form : Form) : form ∈ family.forms
  /-- No node fits two patterns strictly, nor does a form stand twice among those tried. -/
  single (view : NodeView) : (family.forms.filter fun form => (family.pattern form).fits view).length ≤ 1
  lenient {view : NodeView} {form : Form} (fits : (family.pattern form).fits view = true) :
    (family.pattern form).fitsLeniently view = true
  /-- The form of the node is selected, and nothing is noted, in whatever order the forms are tried and
  the triples come. -/
  selected {view other : NodeView} {form : Form} {forms : List Form} (fits : (family.pattern form).fits view = true)
    (order : forms.Perm family.forms) (rows : other.rows.Perm view.rows) (kind : other.propertyKind = view.propertyKind) :
    Translation.selectForm { family with forms } other = pure form
  /-- The node is read in the form that it fits. -/
  dispatched {α : Type} {view other : NodeView} {form : Form} {forms : List Form} (fits : (family.pattern form).fits view = true)
    (order : forms.Perm family.forms) (rows : other.rows.Perm view.rows) (kind : other.propertyKind = view.propertyKind)
    (readForm : Form → Translation α) :
    Translation.dispatch { family with forms } other readForm = do
      let result ← readForm form
      Translation.consumeAll other.rows
      return result

namespace Translation

variable {Form : Type} {family : Family Form} {view other : NodeView} {form : Form}

theorem selectForm_of_fits (separated : family.Separated) (member : form ∈ family.forms)
    (fits : (family.pattern form).fits view = true) {forms : List Form} (order : forms.Perm family.forms)
    (rows : other.rows.Perm view.rows) (kind : other.propertyKind = view.propertyKind) :
    selectForm { family with forms } other = pure form := by
  rw [selectForm, separated.find?_eq member fits order rows kind]

theorem length_le_one_of_unique {α : Type} {items : List α} (distinct : items.Nodup)
    (unique : ∀ item ∈ items, ∀ other ∈ items, item = other) : items.length ≤ 1 := by
  rcases items with _ | ⟨item, _ | ⟨other, rest⟩⟩
  · exact Nat.zero_le _
  · exact Nat.le_refl _
  · have same : item = other := unique item (by simp) other (by simp)
    exact absurd (same ▸ List.mem_cons_self) (List.nodup_cons.mp distinct).1

theorem exclusive_of_separated (separated : family.Separated) (complete : ∀ form, form ∈ family.forms)
    (distinct : family.forms.Nodup) : family.Exclusive where
  complete := complete
  single view := by
    have unique : ∀ form ∈ family.forms.filter fun form => (family.pattern form).fits view,
        ∀ rival ∈ family.forms.filter fun form => (family.pattern form).fits view, form = rival := by
      intro form member rival registered
      obtain ⟨-, fits⟩ := List.mem_filter.mp member
      obtain ⟨-, also⟩ := List.mem_filter.mp registered
      exact separated.unique (complete form) fits (complete rival) also
    exact length_le_one_of_unique (distinct.filter _) unique
  lenient := Pattern.fitsLeniently_of_fits
  selected fits order rows kind := selectForm_of_fits separated (complete _) fits order rows kind
  dispatched fits order rows kind readForm := by
    rw [dispatch, selectForm_of_fits separated (complete _) fits order rows kind, pure_bind]

/-- The kind of the property of a restriction hangs only on the values of the node. -/
theorem restrictionKind_congr (same : other.objects = view.objects) : restrictionKind other = restrictionKind view := by
  have first : other.first? = view.first? := funext fun predicate => congrArg List.head? (congrFun same predicate)
  have has : other.has = view.has :=
    funext fun predicate => congrArg (fun objects : List Term => !objects.isEmpty) (congrFun same predicate)
  have hint (session : Session) : session.restrictionHint? other = session.restrictionHint? view := by
    rw [Session.restrictionHint?, first, has, ← Session.restrictionHint?]
  simp only [restrictionKind, first, hint]

theorem atomPropertyKind_congr (same : other.objects = view.objects) : atomPropertyKind other = atomPropertyKind view := by
  have first : other.first? = view.first? := funext fun predicate => congrArg List.head? (congrFun same predicate)
  have hint : other.atomHint? = view.atomHint? := by
    simp only [NodeView.atomHint?, NodeView.types, same, first]
  simp only [atomPropertyKind, first, hint]

/-- The values of a node that fits a form strictly are the same in whatever order the triples come. -/
theorem objects_eq_of_fits {pattern : Pattern} {kind : Option PropertyKind}
    (fits : pattern.fits { view with propertyKind := kind } = true) (rows : other.rows.Perm view.rows) :
    other.objects = view.objects := by
  obtain ⟨predicates, fit⟩ := Pattern.fits_iff.mp fits
  exact funext fun predicate => fit.objects_eq rows predicate

/-- Strict patterns never compete: the forms of class expressions, of data ranges and of atoms are
selected, and the kinds of properties that some are about are found, in whatever order the forms are
tried and the triples of the node come. -/
theorem strict_patterns_exclusive :
    (ClassForm.family.Exclusive ∧ DataRangeForm.family.Exclusive ∧ AtomForm.family.Exclusive) ∧
    (∀ (form : ClassForm) (view other : NodeView) (kind : Option PropertyKind),
      form.pattern.fits { view with propertyKind := kind } = true → other.rows.Perm view.rows →
        restrictionKind other = restrictionKind view) ∧
    ∀ (form : AtomForm) (view other : NodeView) (kind : Option PropertyKind),
      form.pattern.fits { view with propertyKind := kind } = true → other.rows.Perm view.rows →
        atomPropertyKind other = atomPropertyKind view := by
  refine ⟨⟨?classes, ?ranges, ?atoms⟩, fun form view other kind fits rows => ?restrictions,
    fun form view other kind fits rows => ?properties⟩
  case classes =>
    refine exclusive_of_separated ClassForm.separated (fun form => ?_) (by decide)
    rcases form with ⟨_ | _⟩ | _ | _ | ⟨_ | _⟩ | _ | _ | ⟨_ | _ | _⟩ | ⟨_ | _⟩ | _ | ⟨_ | _ | _⟩ <;> decide
  case ranges =>
    refine exclusive_of_separated DataRangeForm.separated (fun form => ?_) (by decide)
    rcases form with ⟨_ | _⟩ | _ | _ | _ <;> decide
  case atoms =>
    refine exclusive_of_separated AtomForm.separated (fun form => ?_) (by decide)
    cases form <;> decide
  case restrictions => exact restrictionKind_congr (objects_eq_of_fits fits rows)
  case properties => exact atomPropertyKind_congr (objects_eq_of_fits fits rows)

end Translation

end OwlGraph
