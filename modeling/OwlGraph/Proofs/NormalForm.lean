import Mathlib.Data.List.Dedup
import Mathlib.Data.List.Perm.Basic
import OwlGraph.Proofs.AxiomText

/-! Normal forms are canonical. Values are akin if one becomes the other by permuting and repeating
the members of sets, at any depth; which operands are sets and which are sequences is told by the
relation. Akin values have one normal form, and every value is akin to its own: so the normal forms
of two values are the same exactly if the values are akin. -/

namespace OwlGraph

open Canonical

/-- As sets the lists are the same, but for members that are related instead of the same. -/
inductive SetsAkin {α : Type} (related : α → α → Prop) : List α → List α → Prop
  | nil : SetsAkin related [] []
  | cons {a b : α} {as bs : List α} (first : related a b) (rest : SetsAkin related as bs) :
      SetsAkin related (a :: as) (b :: bs)
  | swap (a b : α) (items : List α) : SetsAkin related (a :: b :: items) (b :: a :: items)
  | again (a : α) (items : List α) : SetsAkin related (a :: items) (a :: a :: items)
  | symm {as bs : List α} (akin : SetsAkin related as bs) : SetsAkin related bs as
  | trans {as bs cs : List α} (first : SetsAkin related as bs) (second : SetsAkin related bs cs) : SetsAkin related as cs

/-- The values of an enumeration and the operands of combinations are sets, facets are a sequence. -/
inductive DataRange.Akin : DataRange → DataRange → Prop
  | refl (range : DataRange) : Akin range range
  | symm {a b : DataRange} (akin : Akin a b) : Akin b a
  | trans {a b c : DataRange} (first : Akin a b) (second : Akin b c) : Akin a c
  | combination (junction : Junction) {as bs : List DataRange} (sets : SetsAkin Akin as bs) :
      Akin (.combination junction as) (.combination junction bs)
  | complement {a b : DataRange} (akin : Akin a b) : Akin (.complement a) (.complement b)
  | oneOf {as bs : List Literal} (sets : SetsAkin Eq as bs) : Akin (.oneOf as) (.oneOf bs)

inductive ClassExpression.Akin : ClassExpression → ClassExpression → Prop
  | refl (expression : ClassExpression) : Akin expression expression
  | symm {a b : ClassExpression} (akin : Akin a b) : Akin b a
  | trans {a b c : ClassExpression} (first : Akin a b) (second : Akin b c) : Akin a c
  | combination (junction : Junction) {as bs : List ClassExpression} (sets : SetsAkin Akin as bs) :
      Akin (.combination junction as) (.combination junction bs)
  | complement {a b : ClassExpression} (akin : Akin a b) : Akin (.complement a) (.complement b)
  | oneOf {as bs : List Individual} (sets : SetsAkin Eq as bs) : Akin (.oneOf as) (.oneOf bs)
  | objectValues (quantifier : Quantifier) (property : PropertyExpression) {a b : ClassExpression} (akin : Akin a b) :
      Akin (.objectValues quantifier property a) (.objectValues quantifier property b)
  | objectCardinality (bound : Bound) (cardinality : UInt32) (property : PropertyExpression) {a b : ClassExpression}
      (akin : Akin a b) :
      Akin (.objectCardinality bound cardinality property (some a)) (.objectCardinality bound cardinality property (some b))
  | dataValues (quantifier : Quantifier) (property : Iri) {a b : DataRange} (akin : a.Akin b) :
      Akin (.dataValues quantifier property a) (.dataValues quantifier property b)
  | dataCardinality (bound : Bound) (cardinality : UInt32) (property : Iri) {a b : DataRange} (akin : a.Akin b) :
      Akin (.dataCardinality bound cardinality property (some a)) (.dataCardinality bound cardinality property (some b))

/-- The annotations of an annotation are a set. -/
inductive Annotation.Akin : Annotation → Annotation → Prop
  | refl (note : Annotation) : Akin note note
  | symm {a b : Annotation} (akin : Akin a b) : Akin b a
  | trans {a b c : Annotation} (first : Akin a b) (second : Akin b c) : Akin a c
  | mk (property : Iri) (value : Term) {as bs : List Annotation} (sets : SetsAkin Akin as bs) :
      Akin ⟨property, value, as⟩ ⟨property, value, bs⟩

/-- The arguments of a built-in are a sequence. -/
inductive Atom.Akin : Atom → Atom → Prop
  | refl (atom : Atom) : Akin atom atom
  | symm {a b : Atom} (akin : Akin a b) : Akin b a
  | trans {a b c : Atom} (first : Akin a b) (second : Akin b c) : Akin a c
  | cls {a b : ClassExpression} (akin : a.Akin b) (argument : IndividualArgument) : Akin (.cls a argument) (.cls b argument)
  | dataRange {a b : DataRange} (akin : a.Akin b) (argument : DataArgument) :
      Akin (.dataRange a argument) (.dataRange b argument)

/-- Chains of properties are sequences. The operands of an inverse are a pair without order. -/
inductive Axiom.Akin : Axiom → Axiom → Prop
  | refl (bare : Axiom) : Akin bare bare
  | symm {a b : Axiom} (akin : Akin a b) : Akin b a
  | trans {a b c : Axiom} (first : Akin a b) (second : Akin b c) : Akin a c
  | equivalentClasses {as bs : List ClassExpression} (sets : SetsAkin ClassExpression.Akin as bs) :
      Akin (.equivalentClasses as) (.equivalentClasses bs)
  | subClassOf {a b c d : ClassExpression} (sub : a.Akin b) (sup : c.Akin d) : Akin (.subClassOf a c) (.subClassOf b d)
  | disjointClasses {as bs : List ClassExpression} (sets : SetsAkin ClassExpression.Akin as bs) :
      Akin (.disjointClasses as) (.disjointClasses bs)
  | disjointUnion (cls : Iri) {as bs : List ClassExpression} (sets : SetsAkin ClassExpression.Akin as bs) :
      Akin (.disjointUnion cls as) (.disjointUnion cls bs)
  | classAssertion {a b : ClassExpression} (akin : a.Akin b) (individual : Individual) :
      Akin (.classAssertion a individual) (.classAssertion b individual)
  | sameIndividual {as bs : List Individual} (sets : SetsAkin Eq as bs) : Akin (.sameIndividual as) (.sameIndividual bs)
  | differentIndividuals {as bs : List Individual} (sets : SetsAkin Eq as bs) :
      Akin (.differentIndividuals as) (.differentIndividuals bs)
  | equivalentObjectProperties {as bs : List PropertyExpression} (sets : SetsAkin Eq as bs) :
      Akin (.equivalentObjectProperties as) (.equivalentObjectProperties bs)
  | inverseObjectProperties (first second : PropertyExpression) :
      Akin (.inverseObjectProperties first second) (.inverseObjectProperties second first)
  | objectPropertyDomain (property : PropertyExpression) {a b : ClassExpression} (akin : a.Akin b) :
      Akin (.objectPropertyDomain property a) (.objectPropertyDomain property b)
  | objectPropertyRange (property : PropertyExpression) {a b : ClassExpression} (akin : a.Akin b) :
      Akin (.objectPropertyRange property a) (.objectPropertyRange property b)
  | disjointObjectProperties {as bs : List PropertyExpression} (sets : SetsAkin Eq as bs) :
      Akin (.disjointObjectProperties as) (.disjointObjectProperties bs)
  | equivalentDataProperties {as bs : List Iri} (sets : SetsAkin Eq as bs) :
      Akin (.equivalentDataProperties as) (.equivalentDataProperties bs)
  | dataPropertyDomain (property : Iri) {a b : ClassExpression} (akin : a.Akin b) :
      Akin (.dataPropertyDomain property a) (.dataPropertyDomain property b)
  | dataPropertyRange (property : Iri) {a b : DataRange} (akin : a.Akin b) :
      Akin (.dataPropertyRange property a) (.dataPropertyRange property b)
  | disjointDataProperties {as bs : List Iri} (sets : SetsAkin Eq as bs) :
      Akin (.disjointDataProperties as) (.disjointDataProperties bs)
  | hasKey {a b : ClassExpression} (akin : a.Akin b) {os ps : List PropertyExpression} (objects : SetsAkin Eq os ps)
      {ds es : List Iri} (data : SetsAkin Eq ds es) : Akin (.hasKey a os ds) (.hasKey b ps es)
  | rule {body head others more : List Atom} (bodies : SetsAkin Atom.Akin body others)
      (heads : SetsAkin Atom.Akin head more) : Akin (.rule ⟨body, head⟩) (.rule ⟨others, more⟩)
  | datatypeDefinition (datatype : Iri) {a b : DataRange} (akin : a.Akin b) :
      Akin (.datatypeDefinition datatype a) (.datatypeDefinition datatype b)

/-- The annotations of an axiom are a set. -/
structure AnnotatedAxiom.Akin (fact other : AnnotatedAxiom) : Prop where
  bare : fact.bare.Akin other.bare
  notes : SetsAkin Annotation.Akin fact.annotations other.annotations

namespace SetsAkin

variable {α : Type} {related other : α → α → Prop} {as bs : List α}

theorem mono (implies : ∀ a b, related a b → other a b) (akin : SetsAkin related as bs) : SetsAkin other as bs := by
  induction akin with
  | nil => exact .nil
  | cons first _ ih => exact .cons (implies _ _ first) ih
  | swap => exact .swap ..
  | again => exact .again ..
  | symm _ ih => exact .symm ih
  | trans _ _ left right => exact .trans left right

theorem mem_iff (akin : SetsAkin Eq as bs) (item : α) : item ∈ as ↔ item ∈ bs := by
  induction akin with
  | nil => exact Iff.rfl
  | cons first _ ih => rw [first, List.mem_cons, List.mem_cons, ih]
  | swap => rw [List.mem_cons, List.mem_cons, List.mem_cons, List.mem_cons, or_left_comm]
  | again => simp
  | symm _ ih => exact ih.symm
  | trans _ _ left right => exact left.trans right

section Refl

variable (refl : ∀ a, related a a)
include refl

theorem of_perm (perm : as.Perm bs) : SetsAkin related as bs := by
  induction perm with
  | nil => exact .nil
  | cons item _ ih => exact .cons (refl item) ih
  | swap first second items => exact .swap ..
  | trans _ _ left right => exact .trans left right

/-- A member that is there already can be left out. -/
theorem of_dedup [DecidableEq α] (items : List α) : SetsAkin related items items.dedup := by
  induction items with
  | nil => exact .nil
  | cons item rest ih =>
    by_cases member : item ∈ rest
    · rw [List.dedup_cons_of_mem member]
      refine .trans ?_ ih
      have front : SetsAkin related rest (item :: rest.erase item) := of_perm refl (List.perm_cons_erase member)
      exact .trans (.cons (refl item) front) (.trans (.symm (.again item _)) (.symm front))
    · rw [List.dedup_cons_of_notMem member]
      exact .cons (refl item) ih

/-- Lists with the same members are the same as sets. -/
theorem of_mem (same : ∀ item, item ∈ as ↔ item ∈ bs) : SetsAkin related as bs := by
  classical
  have perm : as.dedup.Perm bs.dedup := (List.perm_ext_iff_of_nodup (List.nodup_dedup as) (List.nodup_dedup bs)).mpr
    fun item => by rw [List.mem_dedup, List.mem_dedup, same]
  exact .trans (of_dedup refl as) (.trans (of_perm refl perm) (.symm (of_dedup refl bs)))

end Refl

theorem of_map {f : α → α} : ∀ {items : List α}, (∀ item ∈ items, related item (f item)) → SetsAkin related items (items.map f)
  | [], _ => .nil
  | _ :: _, each => .cons (each _ List.mem_cons_self) (of_map fun other member => each other (List.mem_cons_of_mem _ member))

/-- A set is akin to its canonical order if its members are akin to their normal forms. -/
theorem of_canonical {text : α → String} {normal : α → α} {items : List α} (refl : ∀ a, related a a)
    (own : ∀ item ∈ items, related item (normal item))
    (injective : ∀ a ∈ items.map normal, ∀ b ∈ items.map normal, text a = text b → a = b) :
    SetsAkin related items (byText text (items.map normal)) :=
  .trans (.of_map own) (.of_mem refl fun _ => (mem_byText text injective).symm)

end SetsAkin

/-- Either both values have clean words or none has, and if they have, they have one normal form. -/
structure Agree {α : Type} (clean : α → Prop) (normal : α → α) (a b : α) : Prop where
  words : clean a ↔ clean b
  same : clean a → normal a = normal b

namespace Agree

variable {α : Type} {clean : α → Prop} {normal : α → α} {a b c : α}

theorem refl (a : α) : Agree clean normal a a := ⟨Iff.rfl, fun _ => rfl⟩

theorem symm (agree : Agree clean normal a b) : Agree clean normal b a :=
  ⟨agree.words.symm, fun neat => (agree.same (agree.words.mpr neat)).symm⟩

theorem trans (first : Agree clean normal a b) (second : Agree clean normal b c) : Agree clean normal a c :=
  ⟨first.words.trans second.words, fun neat => (first.same neat).trans (second.same (first.words.mp neat))⟩

/-- Values around parts that agree do so too, if nothing but the part is normalized in them. -/
theorem lift {β : Type} {whole : β → Prop} {form : β → β} (wrap : α → β) (others : Prop) (agree : Agree clean normal a b)
    (words : ∀ part, whole (wrap part) ↔ others ∧ clean part) (same : ∀ part, form (wrap part) = wrap (normal part)) :
    Agree whole form (wrap a) (wrap b) where
  words := by rw [words, words, agree.words]
  same neat := by rw [same, same, agree.same ((words a).mp neat).2]

end Agree

namespace SetsAkin

variable {α : Type} {clean : α → Prop} {normal : α → α} {as bs : List α}

theorem clean_iff (akin : SetsAkin (Agree clean normal) as bs) : (∀ item ∈ as, clean item) ↔ ∀ item ∈ bs, clean item := by
  induction akin with
  | nil => exact Iff.rfl
  | cons first _ ih => rw [List.forall_mem_cons, List.forall_mem_cons, first.words, ih]
  | swap a b items =>
    simp only [List.forall_mem_cons]
    rw [and_left_comm]
  | again a items =>
    simp only [List.forall_mem_cons]
    rw [and_self_left]
  | symm _ ih => exact ih.symm
  | trans _ _ left right => exact left.trans right

/-- The members of akin sets have the same normal forms. -/
theorem mem_normal (akin : SetsAkin (Agree clean normal) as bs) (words : ∀ item ∈ as, clean item) (item : α) :
    item ∈ as.map normal ↔ item ∈ bs.map normal := by
  induction akin with
  | nil => exact Iff.rfl
  | cons first _ ih =>
    obtain ⟨own, others⟩ := List.forall_mem_cons.mp words
    rw [List.map_cons, List.map_cons, List.mem_cons, List.mem_cons, first.same own, ih others]
  | swap a b items => simp only [List.map_cons, List.mem_cons, or_left_comm]
  | again a items => simp
  | symm akin ih => exact (ih (akin.clean_iff.mpr words)).symm
  | trans first _ left right => exact (left words).trans (right (first.clean_iff.mp words))

end SetsAkin

theorem PropertyExpression.canonical_congr {as bs : List PropertyExpression} (same : ∀ property, property ∈ as ↔ property ∈ bs) :
    canonical as = canonical bs := ordered_congr ordering id same fun _ _ _ _ equal => equal

theorem PropertyExpression.mem_canonical {properties : List PropertyExpression} {property : PropertyExpression} :
    property ∈ canonical properties ↔ property ∈ properties := mem_ordered id fun _ _ _ _ same => same

namespace DataRange

theorem clean_combination {junction : Junction} {ranges : List DataRange} :
    (combination junction ranges).tree.Clean ↔ ∀ range ∈ ranges, range.tree.Clean := by
  rw [tree, clean_node, trees_eq_map, List.forall_mem_map]

/-- The normal forms of clean operands are told apart by their texts. -/
theorem normal_injective {ranges : List DataRange} (clean : ∀ range ∈ ranges, range.tree.Clean) :
    ∀ a ∈ ranges.map normalize, ∀ b ∈ ranges.map normalize, a.text = b.text → a = b := fun a left b right =>
  text_injective (clean_normalizeEach ranges clean a left) (clean_normalizeEach ranges clean b right)

mutual

theorem Akin.agree : ∀ {a b : DataRange}, a.Akin b → Agree (·.tree.Clean) normalize a b
  | _, _, .refl range => .refl range
  | _, _, .symm akin => akin.agree.symm
  | _, _, .trans first second => first.agree.trans second.agree
  | _, _, .combination junction sets => by
    have agree := agreeEach sets
    refine ⟨by rw [clean_combination, clean_combination, agree.clean_iff], fun clean => ?_⟩
    rw [clean_combination] at clean
    rw [normalize, normalize, normalizeEach_eq_map, normalizeEach_eq_map,
      byText_congr text (agree.mem_normal clean) (normal_injective clean)]
  | _, _, .complement akin => akin.agree.lift complement True (fun _ => by simp [tree, clean_node]) fun _ => rfl
  | _, _, .oneOf sets => by
    have own {values : List Literal} : (oneOf values).tree.Clean ↔ ∀ value ∈ values, (Leaf.literal value).Clean := by
      simp [tree, clean_node, clean_single]
    refine ⟨by simp only [own, sets.mem_iff], fun clean => ?_⟩
    rw [own] at clean
    rw [normalize, normalize, byText_congr Literal.text sets.mem_iff fun a left b right =>
      Literal.text_injective (clean a left) (clean b right)]

theorem agreeEach : ∀ {as bs : List DataRange}, SetsAkin Akin as bs → SetsAkin (Agree (·.tree.Clean) normalize) as bs
  | _, _, .nil => .nil
  | _, _, .cons first rest => .cons first.agree (agreeEach rest)
  | _, _, .swap a b items => .swap a b items
  | _, _, .again a items => .again a items
  | _, _, .symm akin => .symm (agreeEach akin)
  | _, _, .trans first second => .trans (agreeEach first) (agreeEach second)

end

mutual

/-- Every data range is akin to its normal form. -/
theorem akin_normalize : ∀ range : DataRange, range.tree.Clean → range.Akin range.normalize
  | .datatype _, _ => .refl _
  | .combination junction operands, clean => by
    rw [clean_combination] at clean
    rw [normalize, normalizeEach_eq_map]
    exact .combination junction (.of_canonical .refl (akin_normalizeEach operands clean) (normal_injective clean))
  | .complement operand, clean => .complement (akin_normalize operand (by simpa [tree, clean_node] using clean))
  | .oneOf values, clean => by
    have clean : ∀ value ∈ values, (Leaf.literal value).Clean := by simpa [tree, clean_node, clean_single] using clean
    exact .oneOf (.of_mem (fun _ => rfl) fun value => (mem_byText Literal.text fun a left b right =>
      Literal.text_injective (clean a left) (clean b right)).symm)
  | .restriction _ _, _ => .refl _

theorem akin_normalizeEach : ∀ ranges : List DataRange, (∀ range ∈ ranges, range.tree.Clean) →
    ∀ range ∈ ranges, range.Akin range.normalize
  | [], _ => List.forall_mem_nil _
  | range :: rest, clean => by
    obtain ⟨first, others⟩ := List.forall_mem_cons.mp clean
    exact List.forall_mem_cons.mpr ⟨akin_normalize range first, akin_normalizeEach rest others⟩

end

end DataRange

namespace ClassExpression

theorem clean_combination {junction : Junction} {expressions : List ClassExpression} :
    (combination junction expressions).tree.Clean ↔ ∀ expression ∈ expressions, expression.tree.Clean := by
  rw [tree, clean_node, trees_eq_map, List.forall_mem_map]

theorem clean_oneOf {individuals : List Individual} :
    (oneOf individuals).tree.Clean ↔ ∀ node ∈ individuals, node.leaf.Clean := by
  simp [tree, clean_node, clean_single]

/-- The normal forms of clean operands are told apart by their texts. -/
theorem normal_injective {expressions : List ClassExpression} (clean : ∀ expression ∈ expressions, expression.tree.Clean) :
    ∀ a ∈ expressions.map normalize, ∀ b ∈ expressions.map normalize, a.text = b.text → a = b := fun a left b right =>
  text_injective (clean_normalizeEach expressions clean a left) (clean_normalizeEach expressions clean b right)

mutual

theorem Akin.agree : ∀ {a b : ClassExpression}, a.Akin b → Agree (·.tree.Clean) normalize a b
  | _, _, .refl expression => .refl expression
  | _, _, .symm akin => akin.agree.symm
  | _, _, .trans first second => first.agree.trans second.agree
  | _, _, .combination junction sets => by
    have agree := agreeEach sets
    refine ⟨by rw [clean_combination, clean_combination, agree.clean_iff], fun clean => ?_⟩
    rw [clean_combination] at clean
    rw [normalize, normalize, normalizeEach_eq_map, normalizeEach_eq_map,
      byText_congr text (agree.mem_normal clean) (normal_injective clean)]
  | _, _, .complement akin => akin.agree.lift complement True (fun _ => by simp [tree, clean_node]) fun _ => rfl
  | _, _, .oneOf sets => by
    refine ⟨by simp only [clean_oneOf, sets.mem_iff], fun clean => ?_⟩
    rw [clean_oneOf] at clean
    rw [normalize, normalize, byText_congr Node.text sets.mem_iff fun a left b right =>
      Node.text_injective (clean a left) (clean b right)]
  | _, _, .objectValues quantifier property akin =>
    akin.agree.lift (objectValues quantifier property) property.tree.Clean (fun _ => by simp [tree, clean_node]) fun _ => rfl
  | _, _, .objectCardinality bound cardinality property akin =>
    akin.agree.lift (objectCardinality bound cardinality property <| some ·) ((cardinalityTree cardinality).Clean ∧ property.tree.Clean)
      (fun _ => by simp [tree, clean_node, and_assoc]) fun _ => rfl
  | _, _, .dataValues quantifier property akin =>
    akin.agree.lift (dataValues quantifier property) property.tree.Clean (fun _ => by simp [tree, clean_node, Iri.tree]) fun _ => rfl
  | _, _, .dataCardinality bound cardinality property akin =>
    akin.agree.lift (dataCardinality bound cardinality property <| some ·) ((cardinalityTree cardinality).Clean ∧ property.tree.Clean)
      (fun _ => by simp [tree, clean_node, Iri.tree, and_assoc]) fun _ => rfl

theorem agreeEach : ∀ {as bs : List ClassExpression}, SetsAkin Akin as bs → SetsAkin (Agree (·.tree.Clean) normalize) as bs
  | _, _, .nil => .nil
  | _, _, .cons first rest => .cons first.agree (agreeEach rest)
  | _, _, .swap a b items => .swap a b items
  | _, _, .again a items => .again a items
  | _, _, .symm akin => .symm (agreeEach akin)
  | _, _, .trans first second => .trans (agreeEach first) (agreeEach second)

end

mutual

/-- Every class expression is akin to its normal form. -/
theorem akin_normalize : ∀ expression : ClassExpression, expression.tree.Clean → expression.Akin expression.normalize
  | .named _, _ | .objectHasValue _ _, _ | .hasSelf _, _ | .dataHasValue _ _, _ | .objectCardinality _ _ _ none, _
  | .dataCardinality _ _ _ none, _ => .refl _
  | .combination junction operands, clean => by
    rw [clean_combination] at clean
    rw [normalize, normalizeEach_eq_map]
    exact .combination junction (.of_canonical .refl (akin_normalizeEach operands clean) (normal_injective clean))
  | .complement operand, clean => .complement (akin_normalize operand (by simpa [tree, clean_node] using clean))
  | .oneOf individuals, clean => by
    rw [clean_oneOf] at clean
    exact .oneOf (.of_mem (fun _ => rfl) fun node => (mem_byText Node.text fun a left b right =>
      Node.text_injective (clean a left) (clean b right)).symm)
  | .objectValues quantifier property filler, clean =>
    .objectValues quantifier property (akin_normalize filler (clean_node.mp clean _ (by simp)))
  | .objectCardinality bound cardinality property (some filler), clean =>
    .objectCardinality bound cardinality property (akin_normalize filler (clean_node.mp clean _ (by simp)))
  | .dataValues quantifier property filler, clean =>
    .dataValues quantifier property (filler.akin_normalize (clean_node.mp clean _ (by simp)))
  | .dataCardinality bound cardinality property (some filler), clean =>
    .dataCardinality bound cardinality property (filler.akin_normalize (clean_node.mp clean _ (by simp)))

theorem akin_normalizeEach : ∀ expressions : List ClassExpression, (∀ expression ∈ expressions, expression.tree.Clean) →
    ∀ expression ∈ expressions, expression.Akin expression.normalize
  | [], _ => List.forall_mem_nil _
  | expression :: rest, clean => by
    obtain ⟨first, others⟩ := List.forall_mem_cons.mp clean
    exact List.forall_mem_cons.mpr ⟨akin_normalize expression first, akin_normalizeEach rest others⟩

end

/-- Akin sets are the same in canonical order. -/
theorem canonical_congr {as bs : List ClassExpression} (sets : SetsAkin Akin as bs)
    (clean : ∀ expression ∈ as, expression.tree.Clean) : canonical as = canonical bs :=
  byText_congr text ((agreeEach sets).mem_normal clean) (normal_injective clean)

theorem akin_canonical {expressions : List ClassExpression} (clean : ∀ expression ∈ expressions, expression.tree.Clean) :
    SetsAkin Akin expressions (canonical expressions) :=
  .of_canonical .refl (akin_normalizeEach expressions clean) (normal_injective clean)

end ClassExpression

namespace Annotation

/-- The normal forms of clean annotations are told apart by their texts. -/
theorem normal_injective {notes : List Annotation} (clean : ∀ note ∈ notes, note.tree.Clean) :
    ∀ a ∈ notes.map normalize, ∀ b ∈ notes.map normalize, a.text = b.text → a = b := fun a left b right =>
  text_injective (clean_normalizeEach notes clean a left) (clean_normalizeEach notes clean b right)

mutual

theorem Akin.agree : ∀ {a b : Annotation}, a.Akin b → Agree (·.tree.Clean) normalize a b
  | _, _, .refl note => .refl note
  | _, _, .symm akin => akin.agree.symm
  | _, _, .trans first second => first.agree.trans second.agree
  | _, _, .mk property value sets => by
    have agree := agreeEach sets
    refine ⟨by rw [clean_mk, clean_mk, agree.clean_iff], fun clean => ?_⟩
    have inner := (clean_mk.mp clean).2.2
    rw [normalize, normalize, normalizeEach_eq_map, normalizeEach_eq_map,
      byText_congr text (agree.mem_normal inner) (normal_injective inner)]

theorem agreeEach : ∀ {as bs : List Annotation}, SetsAkin Akin as bs → SetsAkin (Agree (·.tree.Clean) normalize) as bs
  | _, _, .nil => .nil
  | _, _, .cons first rest => .cons first.agree (agreeEach rest)
  | _, _, .swap a b items => .swap a b items
  | _, _, .again a items => .again a items
  | _, _, .symm akin => .symm (agreeEach akin)
  | _, _, .trans first second => .trans (agreeEach first) (agreeEach second)

end

mutual

/-- Every annotation is akin to its normal form. -/
theorem akin_normalize : ∀ note : Annotation, note.tree.Clean → note.Akin note.normalize
  | ⟨property, value, notes⟩, clean => by
    have inner := (clean_mk.mp clean).2.2
    rw [normalize, normalizeEach_eq_map]
    exact .mk property value (.of_canonical .refl (akin_normalizeEach notes inner) (normal_injective inner))

theorem akin_normalizeEach : ∀ notes : List Annotation, (∀ note ∈ notes, note.tree.Clean) →
    ∀ note ∈ notes, note.Akin note.normalize
  | [], _ => List.forall_mem_nil _
  | note :: rest, clean => by
    obtain ⟨first, others⟩ := List.forall_mem_cons.mp clean
    exact List.forall_mem_cons.mpr ⟨akin_normalize note first, akin_normalizeEach rest others⟩

end

/-- Akin sets are the same in canonical order. -/
theorem canonical_congr {as bs : List Annotation} (sets : SetsAkin Akin as bs) (clean : ∀ note ∈ as, note.tree.Clean) :
    canonical as = canonical bs :=
  byText_congr text ((agreeEach sets).mem_normal clean) (normal_injective clean)

theorem akin_canonical {notes : List Annotation} (clean : ∀ note ∈ notes, note.tree.Clean) :
    SetsAkin Akin notes (canonical notes) :=
  .of_canonical .refl (akin_normalizeEach notes clean) (normal_injective clean)

end Annotation

namespace Atom

theorem normal_injective {atoms : List Atom} (clean : ∀ atom ∈ atoms, atom.tree.Clean) :
    ∀ a ∈ atoms.map normalize, ∀ b ∈ atoms.map normalize, a.text = b.text → a = b := by
  have tidy : ∀ atom ∈ atoms.map normalize, atom.tree.Clean :=
    List.forall_mem_map.mpr fun atom member => clean_normalize (clean atom member)
  exact fun a left b right => text_injective (tidy a left) (tidy b right)

theorem Akin.agree {a b : Atom} (akin : a.Akin b) : Agree (·.tree.Clean) normalize a b := by
  induction akin with
  | refl atom => exact .refl atom
  | symm _ ih => exact ih.symm
  | trans _ _ left right => exact left.trans right
  | cls akin argument =>
    exact akin.agree.lift (Atom.cls · argument) argument.tree.Clean (fun _ => by simp [tree, clean_node, and_comm]) fun _ => rfl
  | dataRange akin argument =>
    exact akin.agree.lift (Atom.dataRange · argument) argument.tree.Clean (fun _ => by simp [tree, clean_node, and_comm]) fun _ => rfl

theorem akin_normalize {atom : Atom} (clean : atom.tree.Clean) : atom.Akin atom.normalize := by
  cases atom with
  | cls expression argument => exact .cls (expression.akin_normalize (clean_node.mp clean _ (by simp))) argument
  | dataRange range argument => exact .dataRange (range.akin_normalize (clean_node.mp clean _ (by simp))) argument
  | _ => exact .refl _

/-- Akin sets are the same in canonical order. -/
theorem canonical_congr {as bs : List Atom} (sets : SetsAkin Akin as bs) (clean : ∀ atom ∈ as, atom.tree.Clean) :
    canonical as = canonical bs :=
  byText_congr text ((sets.mono fun _ _ akin => akin.agree).mem_normal clean) (normal_injective clean)

theorem akin_canonical {atoms : List Atom} (clean : ∀ atom ∈ atoms, atom.tree.Clean) : SetsAkin Akin atoms (canonical atoms) :=
  .of_canonical .refl (fun _ member => akin_normalize (clean _ member)) (normal_injective clean)

end Atom

theorem clean_sequence {trees : List Tree} : (∀ tree ∈ Tree.sequence trees, tree.Clean) ↔ ∀ tree ∈ trees, tree.Clean := by
  cases trees with
  | nil => simp [Tree.sequence, clean_single, Leaf.Clean]
  | cons tree rest => rfl

namespace Axiom

/-- Whether all words of the axiom are clean. -/
def Tidy (bare : Axiom) : Prop := ∀ tree ∈ bare.trees, tree.Clean

theorem tidy_rule {body head : List Atom} :
    (rule ⟨body, head⟩).Tidy ↔ (∀ atom ∈ body, atom.tree.Clean) ∧ ∀ atom ∈ head, atom.tree.Clean := by
  simp [Tidy, trees, clean_node]

/-- The operands of an inverse are put in order. -/
theorem normalize_inverse (first second : PropertyExpression) :
    normalize (.inverseObjectProperties first second) = normalize (.inverseObjectProperties second first) := by
  have ordering := PropertyExpression.ordering
  simp only [normalize]
  by_cases below : first.le second = true <;> by_cases above : second.le first = true
  · rw [ordering.antisymm first second below above]
  · rw [if_pos below, if_neg above]
  · rw [if_neg below, if_pos above]
  · rcases (Bool.or_eq_true _ _).mp (ordering.total first second) with inOrder | turned
    · exact absurd inOrder below
    · exact absurd turned above

theorem Akin.agree {a b : Axiom} (akin : a.Akin b) : Agree Tidy normalize a b := by
  induction akin with
  | refl bare => exact .refl bare
  | symm _ ih => exact ih.symm
  | trans _ _ left right => exact left.trans right
  | equivalentClasses sets | disjointClasses sets | disjointUnion _ sets =>
    have words := (ClassExpression.agreeEach sets).clean_iff
    refine ⟨by simp [Tidy, trees, words, clean_sequence], fun clean => ?_⟩
    rw [normalize, normalize, ClassExpression.canonical_congr sets (by simp_all [Tidy, trees, clean_sequence])]
  | subClassOf sub sup =>
    refine ⟨by simp [Tidy, trees, sub.agree.words, sup.agree.words], fun clean => ?_⟩
    rw [normalize, normalize, sub.agree.same (clean _ (by simp [trees])), sup.agree.same (clean _ (by simp [trees]))]
  | classAssertion akin | objectPropertyDomain _ akin | objectPropertyRange _ akin | dataPropertyDomain _ akin =>
    refine ⟨by simp [Tidy, trees, akin.agree.words], fun clean => ?_⟩
    rw [normalize, normalize, akin.agree.same (clean _ (by simp [trees]))]
  | dataPropertyRange _ akin | datatypeDefinition _ akin =>
    refine ⟨by simp [Tidy, trees, akin.agree.words], fun clean => ?_⟩
    rw [normalize, normalize, akin.agree.same (clean _ (by simp [trees]))]
  | sameIndividual sets | differentIndividuals sets =>
    refine ⟨by simp [Tidy, trees, sets.mem_iff], fun clean => ?_⟩
    have words := List.forall_mem_map.mp clean
    rw [normalize, normalize, byText_congr Node.text sets.mem_iff fun a left b right =>
      Node.text_injective (clean_single.mp (words a left)) (clean_single.mp (words b right))]
  | equivalentObjectProperties sets | disjointObjectProperties sets =>
    refine ⟨by simp [Tidy, trees, sets.mem_iff], fun _ => ?_⟩
    rw [normalize, normalize, PropertyExpression.canonical_congr sets.mem_iff]
  | equivalentDataProperties sets | disjointDataProperties sets =>
    refine ⟨by simp [Tidy, trees, sets.mem_iff], fun _ => ?_⟩
    rw [normalize, normalize, Iri.canonical_congr sets.mem_iff]
  | inverseObjectProperties first second =>
    exact ⟨by simp [Tidy, trees, and_comm], fun _ => normalize_inverse first second⟩
  | hasKey akin objects data =>
    refine ⟨by simp [Tidy, trees, clean_node, akin.agree.words, objects.mem_iff, data.mem_iff], fun clean => ?_⟩
    rw [normalize, normalize, akin.agree.same (clean _ (by simp [trees])), PropertyExpression.canonical_congr objects.mem_iff,
      Iri.canonical_congr data.mem_iff]
  | rule bodies heads =>
    have words {as bs : List Atom} (sets : SetsAkin Atom.Akin as bs) :
        (∀ atom ∈ as, atom.tree.Clean) ↔ ∀ atom ∈ bs, atom.tree.Clean := (sets.mono fun _ _ akin => akin.agree).clean_iff
    refine ⟨by rw [tidy_rule, tidy_rule, words bodies, words heads], fun clean => ?_⟩
    obtain ⟨inBody, inHead⟩ := tidy_rule.mp clean
    rw [normalize, normalize, Rule.normalize, Rule.normalize, Atom.canonical_congr bodies inBody,
      Atom.canonical_congr heads inHead]

/-- Every axiom is akin to its normal form. -/
theorem akin_normalize {bare : Axiom} (clean : bare.Tidy) : bare.Akin bare.normalize := by
  have classes {expressions : List ClassExpression} (clean : ∀ tree ∈ expressions.map ClassExpression.tree, tree.Clean) :=
    ClassExpression.akin_canonical (List.forall_mem_map.mp clean)
  have nodes {individuals : List Individual} (clean : ∀ tree ∈ individuals.map Node.tree, tree.Clean) :
      SetsAkin Eq individuals (byText Node.text individuals) :=
    .of_mem (fun _ => rfl) fun node => (mem_byText Node.text fun a left b right => Node.text_injective
      (clean_single.mp (List.forall_mem_map.mp clean a left)) (clean_single.mp (List.forall_mem_map.mp clean b right))).symm
  have properties (expressions : List PropertyExpression) : SetsAkin Eq expressions (PropertyExpression.canonical expressions) :=
    .of_mem (fun _ => rfl) fun _ => PropertyExpression.mem_canonical.symm
  have iris (properties : List Iri) : SetsAkin Eq properties (Iri.canonical properties) :=
    .of_mem (fun _ => rfl) fun _ => Iri.mem_canonical.symm
  have own {tree : Tree} (member : tree ∈ bare.trees) : tree.Clean := clean tree member
  cases bare with
  | equivalentClasses => exact .equivalentClasses (classes clean)
  | disjointClasses => exact .disjointClasses (classes clean)
  | disjointUnion cls => exact .disjointUnion cls (classes (clean_sequence.mp (List.forall_mem_cons.mp clean).2))
  | subClassOf sub sup => exact .subClassOf (sub.akin_normalize (own (by simp [trees]))) (sup.akin_normalize (own (by simp [trees])))
  | classAssertion cls individual => exact .classAssertion (cls.akin_normalize (own (by simp [trees]))) individual
  | sameIndividual => exact .sameIndividual (nodes clean)
  | differentIndividuals => exact .differentIndividuals (nodes clean)
  | equivalentObjectProperties expressions => exact .equivalentObjectProperties (properties expressions)
  | disjointObjectProperties expressions => exact .disjointObjectProperties (properties expressions)
  | inverseObjectProperties first second =>
    rw [normalize]
    split
    · exact .refl _
    · exact .inverseObjectProperties first second
  | objectPropertyDomain property domain => exact .objectPropertyDomain property (domain.akin_normalize (own (by simp [trees])))
  | objectPropertyRange property range => exact .objectPropertyRange property (range.akin_normalize (own (by simp [trees])))
  | equivalentDataProperties properties => exact .equivalentDataProperties (iris properties)
  | disjointDataProperties properties => exact .disjointDataProperties (iris properties)
  | dataPropertyDomain property domain => exact .dataPropertyDomain property (domain.akin_normalize (own (by simp [trees])))
  | dataPropertyRange property range => exact .dataPropertyRange property (range.akin_normalize (own (by simp [trees])))
  | hasKey cls objects data => exact .hasKey (cls.akin_normalize (own (by simp [trees]))) (properties objects) (iris data)
  | rule implication =>
    obtain ⟨inBody, inHead⟩ := tidy_rule.mp clean
    exact .rule ( Atom.akin_canonical inBody) ( Atom.akin_canonical inHead)
  | datatypeDefinition datatype range => exact .datatypeDefinition datatype (range.akin_normalize (own (by simp [trees])))
  | _ => exact .refl _

end Axiom

theorem AnnotatedAxiom.clean_tree {fact : AnnotatedAxiom} :
    fact.tree.Clean ↔ fact.bare.Tidy ∧ ∀ note ∈ fact.annotations, note.tree.Clean := by
  have operands : (∀ tree ∈ if fact.annotations.isEmpty then fact.bare.trees else Tree.sequence fact.bare.trees, tree.Clean) ↔
      fact.bare.Tidy := by
    split
    · rfl
    · exact clean_sequence
  rw [tree, clean_node, List.forall_mem_append, List.forall_mem_map, operands, and_comm]

theorem AnnotatedAxiom.of_eq_iff_akin {first second : AnnotatedAxiom} (clean : first.tree.Clean) (neat : second.tree.Clean) :
    AnnotatedAxiom.of first.bare first.annotations = .of second.bare second.annotations ↔ first.Akin second := by
  obtain ⟨words, notes⟩ := clean_tree.mp clean
  obtain ⟨others, more⟩ := clean_tree.mp neat
  rw [of, of, mk.injEq]
  constructor
  · rintro ⟨bare, annotations⟩
    exact ⟨(Axiom.akin_normalize words).trans (bare ▸ (Axiom.akin_normalize others).symm),
      ( Annotation.akin_canonical notes).trans (annotations ▸ ( Annotation.akin_canonical more).symm)⟩
  · rintro ⟨bare, annotations⟩
    exact ⟨bare.agree.same words, Annotation.canonical_congr annotations notes⟩

/-- Built axioms are canonical: they are the same exactly if what they are built from is the same up to
permuting and repeating the members of sets and up to the order of inverses, and building an axiom from
what is built already changes nothing. The former asks that labels, tags and IRIs are without the
characters that end them in the text, since sets are ordered by the text. -/
theorem normal_form_canonical :
    (∀ a b s t, (AnnotatedAxiom.mk a s).tree.Clean → (AnnotatedAxiom.mk b t).tree.Clean →
      (AnnotatedAxiom.of a s = AnnotatedAxiom.of b t ↔ (AnnotatedAxiom.mk a s).Akin ⟨b, t⟩)) ∧
    (∀ a : Axiom, a.normalize.normalize = a.normalize) ∧
    (∀ s : List Annotation, Annotation.canonical ( Annotation.canonical s) = Annotation.canonical s) :=
  ⟨fun _ _ _ _ clean neat => AnnotatedAxiom.of_eq_iff_akin clean neat, Axiom.normalize_normalize,
    Annotation.canonical_canonical⟩

/-- The individuals below a cardinality are a set as well as the operands of the union around it and the
notes of the axiom. -/
theorem normal_form_canonical_nested :
    let named := ClassExpression.named ⟨"http://example.com/A"⟩
    let two (individuals : List Individual) : ClassExpression :=
      .objectCardinality .min 2 (.named ⟨"http://example.com/p"⟩) (some (.oneOf individuals))
    let i := Node.named ⟨"http://example.com/i"⟩
    let x := Node.blank ⟨"x"⟩
    let note : Annotation := ⟨⟨"http://example.com/note"⟩, .literal (.simple "said"), []⟩
    AnnotatedAxiom.of (.subClassOf (.combination .union [named, two [i, x], named]) named) [note, note] =
      .of (.subClassOf (.combination .union [two [x, i, x], named]) named) [note] := by
  intro named two i x note
  have name : named.tree.Clean := clean_single.mpr (by simp [Leaf.Clean])
  have blank : x.leaf.Clean := clean_single.mp (BlankNode.clean_tree.mpr (by simp [isBreak]))
  have filled (individuals : List Individual) (within : ∀ node ∈ individuals, node = i ∨ node = x) :
      (two individuals).tree.Clean := by
    have filler : (ClassExpression.oneOf individuals).tree.Clean := ClassExpression.clean_oneOf.mpr fun node member => by
      rcases within node member with rfl | rfl
      · simp [i, Node.leaf, Leaf.Clean]
      · exact blank
    simpa [two, ClassExpression.tree, clean_node, clean_cardinalityTree, PropertyExpression.tree, clean_single, Leaf.Clean]
      using filler
  have said : note.tree.Clean := Annotation.clean_mk.mpr (by simp [Term.leaf, Leaf.Clean])
  refine (normal_form_canonical.1 _ _ _ _ ?_ ?_).mpr ⟨.subClassOf (.combination .union ?_) (.refl named), .symm (.again note [])⟩
  · refine AnnotatedAxiom.clean_tree.mpr ⟨?_, by simpa using said⟩
    simp [Axiom.Tidy, Axiom.trees, ClassExpression.clean_combination, name, filled [i, x] (by simp)]
  · refine AnnotatedAxiom.clean_tree.mpr ⟨?_, by simpa using said⟩
    simp [Axiom.Tidy, Axiom.trees, ClassExpression.clean_combination, name, filled [x, i, x] (by simp)]
  · have individuals : SetsAkin Eq [i, x] [x, i, x] := .of_mem (fun _ => rfl) (by simp [or_comm])
    have inner : (two [i, x]).Akin (two [x, i, x]) := .objectCardinality _ _ _ (.oneOf individuals)
    exact .trans (.of_mem .refl (by simp [or_comm])) (.cons inner (.cons (.refl named) .nil))

end OwlGraph
