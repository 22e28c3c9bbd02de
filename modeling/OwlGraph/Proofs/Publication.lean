import Mathlib.Data.List.Basic
import Mathlib.Data.List.Induction
import OwlGraph.Catalog

/-! What the IRIs of a catalog designate. An ontology may have an IRI as its version, as its own
or as that of its document. The IRI designates the ontology published last among those that have
it in the foremost of these roles. So publishing shadows an older ontology of the same IRI, unless
the older one has it in a role that comes before. -/

namespace OwlGraph

namespace Published

/-- The role in which the ontology has the IRI: as its version, as its own, as that of its
document, or not at all. -/
def rank (item : Published) (iri : Iri) : Nat :=
  if item.ontology.id.version? = some iri then 0
  else if item.ontology.id.iri? = some iri then 1
  else if item.ontology.document = some iri then 2
  else 3

variable {item : Published} {iri : Iri}

theorem rank_le_zero : item.rank iri ≤ 0 ↔ item.ontology.id.version? = some iri := by
  unfold rank
  split_ifs <;> simp [*]

theorem rank_le_one : item.rank iri ≤ 1 ↔ item.ontology.id.version? = some iri ∨ item.ontology.id.iri? = some iri := by
  unfold rank
  split_ifs <;> simp [*]

theorem rank_le_two : item.rank iri ≤ 2 ↔ item.ontology.id.version? = some iri ∨ item.ontology.id.iri? = some iri ∨
    item.ontology.document = some iri := by
  unfold rank
  split_ifs <;> simp [*]

end Published

namespace Catalog

/-- The catalog to which the ontologies were published one after the other. -/
def ofPublished (handling : MissingImport) (items : List Published) : Catalog := items.foldl publish { handling }

theorem ofPublished_concat (handling : MissingImport) (items : List Published) (item : Published) :
    ofPublished handling (items ++ [item]) = (ofPublished handling items).publish item := by
  simp only [ofPublished, List.foldl_append, List.foldl_cons, List.foldl_nil]

/-- The ontology published last among those that have the IRI for their key. -/
def last? (key : Published → Option Iri) (items : List Published) (iri : Iri) : Option Published :=
  items.reverse.find? fun item => decide (key item = some iri)

theorem getElem?_enter (entries : Std.HashMap Iri Published) (key : Option Iri) (item : Published) (iri : Iri) :
    (enter entries key item)[iri]? = if key = some iri then some item else entries[iri]? := by
  cases key with
  | none => simp [enter]
  | some other => simp [enter, Std.HashMap.getElem?_insert]

theorem last?_concat (key : Published → Option Iri) (items : List Published) (item : Published) (iri : Iri) :
    last? key (items ++ [item]) iri = if key item = some iri then some item else last? key items iri := by
  simp only [last?, List.reverse_append, List.reverse_cons, List.reverse_nil, List.nil_append, List.cons_append, List.find?_cons]
  by_cases same : key item = some iri
  · simp only [same, decide_true, if_true]
  · simp only [same, decide_false, if_false]

/-- Every table holds the last publication under each of its keys. -/
structure Holds (items : List Published) (catalog : Catalog) : Prop where
  version : ∀ iri : Iri, catalog.byVersion[iri]? = last? (·.ontology.id.version?) items iri
  own : ∀ iri : Iri, catalog.byIri[iri]? = last? (·.ontology.id.iri?) items iri
  document : ∀ iri : Iri, catalog.byDocument[iri]? = last? (·.ontology.document) items iri

theorem Holds.publish {items : List Published} {catalog : Catalog} (holds : Holds items catalog) (item : Published) :
    Holds (items ++ [item]) (catalog.publish item) where
  version iri := by
    rw [last?_concat, ← holds.version]
    apply getElem?_enter
  own iri := by
    rw [last?_concat, ← holds.own]
    apply getElem?_enter
  document iri := by
    rw [last?_concat, ← holds.document]
    apply getElem?_enter

theorem holds_ofPublished (handling : MissingImport) (items : List Published) : Holds items (ofPublished handling items) := by
  induction items using List.reverseRecOn with
  | nil =>
    constructor
    all_goals
      intro iri
      simp [ofPublished, last?]
  | append_singleton items item ih =>
    rw [ofPublished_concat]
    exact ih.publish item

/-- The IRI designates the ontology: it has the IRI in a role, those published before in none that
is before it, and those published later in none that is not after it. -/
def Designates (items : List Published) (iri : Iri) (item : Published) : Prop :=
  item.rank iri < 3 ∧ ∃ earlier later, items = earlier ++ item :: later ∧
    (∀ other ∈ earlier, item.rank iri ≤ other.rank iri) ∧ ∀ other ∈ later, item.rank iri < other.rank iri

theorem last?_eq_some {key : Published → Option Iri} {items : List Published} {iri : Iri} {item : Published} :
    last? key items iri = some item ↔ key item = some iri ∧
      ∃ earlier later, items = earlier ++ item :: later ∧ ∀ other ∈ later, key other ≠ some iri := by
  rw [last?, List.find?_eq_some_iff_append, decide_eq_true_eq]
  apply and_congr_right
  intro _
  constructor
  · intro ⟨later, earlier, split, absent⟩
    refine ⟨earlier.reverse, later.reverse, ?_, ?_⟩
    · simpa using congrArg List.reverse split
    · intro other member
      simpa using absent other (List.mem_reverse.mp member)
  · intro ⟨earlier, later, split, absent⟩
    refine ⟨later.reverse, earlier.reverse, ?_, ?_⟩
    · simp [split]
    · intro other member
      simpa using absent other (List.mem_reverse.mp member)

theorem last?_eq_none {key : Published → Option Iri} {items : List Published} {iri : Iri} :
    last? key items iri = none ↔ ∀ item ∈ items, key item ≠ some iri := by
  simp [last?]

theorem Designates.mem {items : List Published} {iri : Iri} {item : Published} (designates : Designates items iri item) :
    item ∈ items := by
  obtain ⟨-, earlier, later, split, -, -⟩ := designates
  simp [split]

/-- No publication has the IRI in a role before that of the one it designates. -/
theorem Designates.foremost {items : List Published} {iri : Iri} {item other : Published} (designates : Designates items iri item)
    (member : other ∈ items) : item.rank iri ≤ other.rank iri := by
  obtain ⟨-, earlier, later, split, before, after⟩ := designates
  rw [split, List.mem_append, List.mem_cons] at member
  rcases member with inside | same | inside
  · exact before other inside
  · subst same
    exact Nat.le_refl _
  · exact Nat.le_of_lt (after other inside)

/-- If the foremost role of the IRI is the one that a table is about, what the table finds is what
the IRI designates. -/
theorem found_iff_designates {key : Published → Option Iri} {items : List Published} {iri : Iri} {first item : Published}
    (found : last? key items iri = some first) {role : Nat} (proper : role < 3) (least : ∀ other ∈ items, role ≤ other.rank iri)
    (told : ∀ other ∈ items, key other = some iri ↔ other.rank iri ≤ role) : some first = some item ↔ Designates items iri item := by
  rw [← found, last?_eq_some]
  constructor
  · intro ⟨own, earlier, later, split, absent⟩
    subst split
    have lowest := (told item (by simp)).mp own
    refine ⟨by omega, earlier, later, rfl, ?_, ?_⟩
    · intro other member
      have bound := least other (by simp [member])
      omega
    · intro other member
      have above := mt (told other (by simp [member])).mpr (absent other member)
      omega
  · intro designates
    obtain ⟨own, before, behind, position, -⟩ := last?_eq_some.mp found
    have taken : first ∈ items := by simp [position]
    have bound := designates.foremost taken
    have low := (told first taken).mp own
    obtain ⟨-, earlier, later, split, -, after⟩ := designates
    subst split
    refine ⟨(told item (by simp)).mpr (by omega), earlier, later, rfl, ?_⟩
    intro other member same
    have bound := least item (by simp)
    have below := (told other (by simp [member])).mp same
    have above := after other member
    omega

/-- The catalog finds what the publications make the IRI designate. -/
theorem get?_ofPublished {handling : MissingImport} {items : List Published} {iri : Iri} {item : Published} :
    (ofPublished handling items).get? iri = some item ↔ Designates items iri item := by
  obtain ⟨version, own, document⟩ := holds_ofPublished handling items
  rw [get?, version, own, document]
  -- The first table with an entry decides, and what the tables before it lack no publication has.
  cases versions : last? (·.ontology.id.version?) items iri with
  | some first =>
    apply found_iff_designates versions (show 0 < 3 by omega) (fun _ _ => Nat.zero_le _)
    exact fun _ _ => Published.rank_le_zero.symm
  | none =>
    have unversioned := last?_eq_none.mp versions
    cases names : last? (·.ontology.id.iri?) items iri with
    | some first =>
      apply found_iff_designates names (show 1 < 3 by omega)
      · intro other member
        exact Nat.not_le.mp (mt Published.rank_le_zero.mp (unversioned other member))
      · intro other member
        simp only [Published.rank_le_one, unversioned other member, false_or]
    | none =>
      have unnamed := last?_eq_none.mp names
      cases documents : last? (·.ontology.document) items iri with
      | some first =>
        apply found_iff_designates documents (show 2 < 3 by omega)
        · intro other member
          apply Nat.not_le.mp
          simp only [Published.rank_le_one, unversioned other member, unnamed other member, or_self, not_false_iff]
        · intro other member
          simp only [Published.rank_le_two, unversioned other member, unnamed other member, false_or]
      | none =>
        have absent : ¬ Designates items iri item := by
          intro designates
          have member := designates.mem
          have low := Published.rank_le_two.mp (Nat.le_of_lt_succ designates.1)
          simp [unversioned item member, unnamed item member, last?_eq_none.mp documents item member] at low
        simpa using absent

/-- What the last publication does to its IRIs. It is found under each of them exactly if no
earlier one has the IRI in a role before. What is found in its place is such an earlier one. -/
theorem publish_shadows_iff {handling : MissingImport} {items : List Published} {item : Published} {iri : Iri}
    (own : item.rank iri < 3) :
    (((ofPublished handling items).publish item).get? iri = some item ↔ ∀ earlier ∈ items, item.rank iri ≤ earlier.rank iri) ∧
    ∀ found, ((ofPublished handling items).publish item).get? iri = some found → found ≠ item →
      found ∈ items ∧ found.rank iri < item.rank iri := by
  rw [← ofPublished_concat]
  have shadows : (ofPublished handling (items ++ [item])).get? iri = some item ↔ ∀ earlier ∈ items, item.rank iri ≤ earlier.rank iri := by
    rw [get?_ofPublished]
    constructor
    · intro designates earlier member
      exact designates.foremost (List.mem_append_left _ member)
    · intro foremost
      exact ⟨own, items, [], rfl, foremost, List.forall_mem_nil _⟩
  refine ⟨shadows, ?_⟩
  intro found known different
  have designates := get?_ofPublished.mp known
  have before : ¬ ∀ earlier ∈ items, item.rank iri ≤ earlier.rank iri := by
    rw [← shadows, known]
    exact fun same => different (Option.some.inj same)
  simp only [not_forall, Nat.not_le] at before
  obtain ⟨earlier, member, sooner⟩ := before
  refine ⟨?_, Nat.lt_of_le_of_lt (designates.foremost (List.mem_append_left _ member)) sooner⟩
  simpa [different] using designates.mem

namespace Samples

/-- An ontology with a version. -/
def draft : Published := ⟨0, { id := .named ⟨"http://example.com/draft"⟩ (some ⟨"http://example.com/x"⟩) }⟩

/-- An ontology whose own IRI is the one of that version. -/
def final : Published := ⟨1, { id := .named ⟨"http://example.com/x"⟩ none }⟩

end Samples

/-- The last publication does not shadow an earlier one that has its IRI for a version. -/
theorem publish_shadows_iff_draft : Samples.final.rank ⟨"http://example.com/x"⟩ < 3 ∧
    ((ofPublished .silent [Samples.draft]).publish Samples.final).get? ⟨"http://example.com/x"⟩ ≠ some Samples.final := by
  have own : Samples.final.rank ⟨"http://example.com/x"⟩ < 3 := by decide
  refine ⟨own, ?_⟩
  intro found
  have bound := (publish_shadows_iff own).1.mp found Samples.draft (List.mem_singleton_self _)
  revert bound
  decide

end Catalog

end OwlGraph
