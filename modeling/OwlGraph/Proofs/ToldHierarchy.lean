import Mathlib.Data.List.Nodup
import Mathlib.Logic.Relation
import OwlGraph.Hierarchy
import OwlGraph.Proofs.CanonicalOrder

/-! The told hierarchy as a relation. Its two tables hold exactly the inclusions that the axioms
tell between different named classes, and the closure of a class is exactly what a chain of
them leads to. -/

namespace OwlGraph

open Relation

/-- What an axiom says outright about two named classes. Operands of an equivalence that are no
names say nothing here. -/
inductive Axiom.Includes : Axiom → Iri → Iri → Prop
  | inclusion (sub sup : Iri) : Includes (.subClassOf (.named sub) (.named sup)) sub sup
  | equivalence {classes : List ClassExpression} {sub sup : Iri} (left : .named sub ∈ classes)
      (right : .named sup ∈ classes) : Includes (.equivalentClasses classes) sub sup

theorem ClassExpression.mem_iris {classes : List ClassExpression} {cls : Iri} :
    cls ∈ classes.filterMap iri? ↔ .named cls ∈ classes := by
  rw [List.mem_filterMap]
  constructor
  · intro ⟨expression, member, name⟩
    cases expression with
    | named iri => cases name; exact member
    | _ => cases name
  · intro member
    exact ⟨_, member, rfl⟩

namespace Hierarchy

theorem mem_pairs {classes : List Iri} {sub sup : Iri} (apart : sub ≠ sup) :
    (sub, sup) ∈ pairs classes ∨ (sup, sub) ∈ pairs classes ↔ sub ∈ classes ∧ sup ∈ classes := by
  induction classes with
  | nil => simp [pairs]
  | cons cls rest ih =>
    simp only [pairs, List.mem_append, List.mem_map, Prod.mk.injEq, List.mem_cons]
    by_cases first : sub = cls
    · subst first
      have behind : ((sub, sup) ∈ pairs rest ∨ (sup, sub) ∈ pairs rest) → sup ∈ rest := fun listed => (ih.mp listed).2
      grind
    · by_cases second : sup = cls
      · subst second
        have behind : ((sub, sup) ∈ pairs rest ∨ (sup, sub) ∈ pairs rest) → sub ∈ rest := fun listed => (ih.mp listed).1
        grind
      · grind

section Tables

variable {κ : Type} [BEq κ] [LawfulBEq κ] [Hashable κ] {table : Std.HashMap κ (List Iri)}

theorem mem_relate {key other : κ} {value cls : Iri} :
    cls ∈ (relate table key value).getD other [] ↔ (other = key ∧ cls = value) ∨ cls ∈ table.getD other [] := by
  rw [relate, Std.HashMap.getD_alter]
  split
  next same =>
    have same := eq_of_beq same
    subst same
    simp [Std.HashMap.getD_eq_getD_getElem?]
  next apart =>
    have apart : other ≠ key := fun same => apart (by simp [same])
    simp [apart]

theorem nodup_relate {key other : κ} {value : Iri} (distinct : (table.getD other []).Nodup) :
    ((relate table key value).getD other []).Nodup := by
  rw [relate, Std.HashMap.getD_alter]
  split
  next same =>
    have same := eq_of_beq same
    subst same
    rw [Std.HashMap.getD_eq_getD_getElem?] at distinct
    exact distinct.insert
  next => exact distinct

end Tables

/-- The tables hold the pairs of different classes that are told, and each of them once. -/
structure Reflects (hierarchy : Hierarchy) (told : Iri → Iri → Prop) : Prop where
  mem_above : ∀ sub sup, sup ∈ hierarchy.above sub ↔ sub ≠ sup ∧ told sub sup
  mem_below : ∀ sub sup, sub ∈ hierarchy.below sup ↔ sub ≠ sup ∧ told sub sup
  nodup_above : ∀ cls, (hierarchy.above cls).Nodup
  nodup_below : ∀ cls, (hierarchy.below cls).Nodup

namespace Reflects

variable {hierarchy : Hierarchy} {told : Iri → Iri → Prop}

theorem empty : Reflects {} fun _ _ => False := by
  constructor <;> simp [above, below]

theorem congr (reflects : Reflects hierarchy told) {others : Iri → Iri → Prop}
    (same : ∀ sub sup, sub ≠ sup → (told sub sup ↔ others sub sup)) : Reflects hierarchy others := by
  constructor
  · intro sub sup
    rw [reflects.mem_above]
    exact and_congr_right (same sub sup)
  · intro sub sup
    rw [reflects.mem_below]
    exact and_congr_right (same sub sup)
  · exact reflects.nodup_above
  · exact reflects.nodup_below

theorem subsume (reflects : Reflects hierarchy told) (lower upper : Iri) :
    Reflects (hierarchy.subsume lower upper) fun sub sup => told sub sup ∨ sub = lower ∧ sup = upper := by
  unfold Hierarchy.subsume
  split
  next same =>
    subst same
    apply reflects.congr
    grind
  next apart =>
    constructor
    · intro sub sup
      have old := reflects.mem_above sub sup
      simp only [above] at old ⊢
      rw [mem_relate, old]
      grind
    · intro sub sup
      have old := reflects.mem_below sub sup
      simp only [below] at old ⊢
      rw [mem_relate, old]
      grind
    · intro cls
      exact nodup_relate (reflects.nodup_above cls)
    · intro cls
      exact nodup_relate (reflects.nodup_below cls)

/-- What the two tables hold depends on nothing else in the hierarchy. -/
theorem of_tables {other : Hierarchy} (reflects : Reflects hierarchy told) (parents : other.parents = hierarchy.parents)
    (children : other.children = hierarchy.children) : Reflects other told := by
  constructor
  · simpa only [above, parents] using reflects.mem_above
  · simpa only [below, children] using reflects.mem_below
  · simpa only [above, parents] using reflects.nodup_above
  · simpa only [below, children] using reflects.nodup_below

theorem equate (reflects : Reflects hierarchy told) (related : List (Iri × Iri)) :
    Reflects (related.foldl (fun hierarchy (one, two) => (hierarchy.subsume one two).subsume two one) hierarchy)
      fun sub sup => told sub sup ∨ (sub, sup) ∈ related ∨ (sup, sub) ∈ related := by
  induction related generalizing hierarchy told with
  | nil => exact reflects.congr (by simp)
  | cons pair rest ih =>
    apply (ih ((reflects.subsume pair.1 pair.2).subsume pair.2 pair.1)).congr
    intro sub sup _
    simp only [List.mem_cons, Prod.ext_iff]
    grind

theorem separate_tables (hierarchy : Hierarchy) (related : List (Iri × Iri)) :
    (related.foldl (fun hierarchy (one, two) => hierarchy.separate one two) hierarchy).parents = hierarchy.parents ∧
    (related.foldl (fun hierarchy (one, two) => hierarchy.separate one two) hierarchy).children = hierarchy.children := by
  induction related generalizing hierarchy with
  | nil => exact ⟨rfl, rfl⟩
  | cons pair rest ih => exact ih (hierarchy.separate pair.1 pair.2)

/-- An axiom that says nothing about named classes tells no pair. -/
theorem untold (reflects : Reflects hierarchy told) {statement : Axiom} (silent : ∀ sub sup, ¬ statement.Includes sub sup) :
    Reflects hierarchy fun sub sup => told sub sup ∨ statement.Includes sub sup :=
  reflects.congr fun sub sup _ => (or_iff_left (silent sub sup)).symm

theorem tell (reflects : Reflects hierarchy told) (fact : AnnotatedAxiom) :
    Reflects (hierarchy.tell fact) fun sub sup => told sub sup ∨ fact.bare.Includes sub sup := by
  unfold Hierarchy.tell
  split
  next lower upper bare =>
    apply (reflects.subsume lower upper).congr
    intro sub sup _
    apply or_congr_right
    rw [bare]
    constructor
    · rintro ⟨rfl, rfl⟩
      exact .inclusion sub sup
    · intro includes
      cases includes
      exact ⟨rfl, rfl⟩
  next classes bare =>
    apply (reflects.equate _).congr
    intro sub sup apart
    apply or_congr_right
    rw [mem_pairs apart, ClassExpression.mem_iris, ClassExpression.mem_iris, bare]
    constructor
    · intro ⟨left, right⟩
      exact .equivalence left right
    · intro includes
      cases includes with
      | equivalence left right => exact ⟨left, right⟩
  next classes bare =>
    have tables := separate_tables hierarchy (pairs (classes.filterMap ClassExpression.iri?))
    apply (reflects.of_tables tables.1 tables.2).untold
    rw [bare]
    nofun
  next cls individual bare =>
    have classified : Reflects (hierarchy.classify individual cls) told := reflects.of_tables rfl rfl
    apply classified.untold
    rw [bare]
    nofun
  next noInclusion noEquivalence _ _ =>
    apply reflects.untold
    intro sub sup includes
    generalize bare : fact.bare = statement at includes
    cases includes with
    | inclusion => exact noInclusion _ _ bare
    | equivalence => exact noEquivalence _ bare

theorem foldl_tell (reflects : Reflects hierarchy told) (facts : List AnnotatedAxiom) :
    Reflects (facts.foldl Hierarchy.tell hierarchy)
      fun sub sup => told sub sup ∨ ∃ fact ∈ facts, fact.bare.Includes sub sup := by
  induction facts generalizing hierarchy told with
  | nil => exact reflects.congr (by simp)
  | cons fact rest ih =>
    apply (ih (reflects.tell fact)).congr
    intro sub sup _
    simp [or_assoc]

end Reflects

/-- Whether an axiom of the ontologies says that the second class includes the first. -/
def Told (ontologies : List Ontology) (sub sup : Iri) : Prop :=
  ∃ ontology ∈ ontologies, ∃ fact ∈ ontology.axioms, fact.bare.Includes sub sup

theorem reflects_ofOntologies (ontologies : List Ontology) : (ofOntologies ontologies).Reflects (Told ontologies) := by
  apply (Reflects.empty.foldl_tell (ontologies.flatMap Ontology.axioms)).congr
  intro sub sup _
  simp only [false_or, List.mem_flatMap, Told]
  constructor
  · intro ⟨fact, ⟨ontology, source, member⟩, includes⟩
    exact ⟨ontology, source, fact, member, includes⟩
  · intro ⟨ontology, source, fact, member, includes⟩
    exact ⟨fact, ⟨ontology, source, member⟩, includes⟩

section Spread

variable {step : Iri → List Iri}

theorem subset_spread (rounds : Nat) (waiting reached : List Iri) : reached ⊆ spread step rounds waiting reached := by
  induction rounds generalizing waiting reached with
  | zero => simp [spread]
  | succ rounds ih =>
    cases waiting with
    | nil => simp [spread]
    | cons cls rest => exact List.Subset.trans (List.subset_append_left reached _) (ih _ _)

theorem spread_sound {rounds : Nat} {waiting reached : List Iri} {cls : Iri}
    (found : cls ∈ spread step rounds waiting reached) :
    cls ∈ reached ∨ ∃ start ∈ waiting, TransGen (fun one two => two ∈ step one) start cls := by
  induction rounds, waiting, reached using spread.induct step with
  | case1 => exact Or.inl (by simpa [spread] using found)
  | case2 => exact Or.inl (by simpa [spread] using found)
  | case3 rounds first waiting reached fresh ih =>
    rw [spread] at found
    have single : ∀ next ∈ fresh, next ∈ step first := fun next member => (List.mem_filter.mp member).1
    rcases ih found with known | ⟨start, waits, chain⟩
    · rcases List.mem_append.mp known with old | new
      · exact Or.inl old
      · exact Or.inr ⟨first, List.mem_cons_self, .single (single cls new)⟩
    · rcases List.mem_append.mp waits with new | later
      · exact Or.inr ⟨first, List.mem_cons_self, .head (single start new) chain⟩
      · exact Or.inr ⟨start, List.mem_cons_of_mem first later, chain⟩

/-- With enough rounds the result has every step from the waiting classes and from the classes
that were reached on the way. A round takes one class off the waiting ones and adds only
classes that were not reached before, so the rounds that are needed are the classes that wait
and those that are still out of reach. -/
theorem spread_closed {classes : List Iri} (inside : ∀ cls, step cls ⊆ classes) (single : ∀ cls, (step cls).Nodup)
    {rounds : Nat} {waiting reached : List Iri} (distinct : reached.Nodup) (within : reached ⊆ classes)
    (enough : waiting.length + classes.length ≤ rounds + reached.length) {cls : Iri}
    (source : cls ∈ waiting ∨ cls ∈ spread step rounds waiting reached ∧ cls ∉ reached) :
    step cls ⊆ spread step rounds waiting reached := by
  induction rounds, waiting, reached using spread.induct step with
  | case1 waiting reached =>
    have bound := distinct.length_le_of_subset within
    have none : waiting = [] := List.length_eq_zero_iff.mp (by omega)
    simp [none, spread] at source
  | case2 rounds reached => simp [spread] at source
  | case3 rounds first waiting reached fresh ih =>
    have new : ∀ next ∈ fresh, next ∈ step first ∧ next ∉ reached := by simp [fresh]
    have distinct' : (reached ++ fresh).Nodup := by
      apply List.nodup_append.mpr
      refine ⟨distinct, (single first).filter _, ?_⟩
      intro old member next added same
      exact (new next added).2 (same ▸ member)
    have within' : reached ++ fresh ⊆ classes := by
      intro next member
      rcases List.mem_append.mp member with old | added
      · exact within old
      · exact inside first (new next added).1
    have enough' : (fresh ++ waiting).length + classes.length ≤ rounds + (reached ++ fresh).length := by
      simp only [List.length_cons, List.length_append] at enough ⊢
      omega
    have closed := ih distinct' within' enough'
    rw [spread] at source ⊢
    by_cases first_eq : cls = first
    · -- the steps of this class are reached already or reached now
      subst first_eq
      intro next member
      apply subset_spread
      by_cases old : next ∈ reached
      · exact List.mem_append_left _ old
      · exact List.mem_append_right _ (List.mem_filter.mpr ⟨member, by simpa using old⟩)
    · apply closed
      rcases source with waits | ⟨found, unreached⟩
      · exact Or.inl (List.mem_append_right _ ((List.mem_cons.mp waits).resolve_left first_eq))
      · by_cases added : cls ∈ fresh
        · exact Or.inl (List.mem_append_left _ added)
        · exact Or.inr ⟨found, by simp [unreached, added]⟩

theorem mem_spread {classes : List Iri} (inside : ∀ cls, step cls ⊆ classes) (single : ∀ cls, (step cls).Nodup)
    {cls other : Iri} :
    other ∈ spread step (classes.length + 1) [cls] [] ↔ TransGen (fun one two => two ∈ step one) cls other := by
  have closed : ∀ next, next = cls ∨ next ∈ spread step (classes.length + 1) [cls] [] →
      step next ⊆ spread step (classes.length + 1) [cls] [] := by
    intro next source
    apply spread_closed inside single List.nodup_nil (List.nil_subset _) (by simp; omega)
    simpa using source
  constructor
  · intro found
    simpa using spread_sound found
  · intro chain
    induction chain with
    | single first => exact closed cls (Or.inl rfl) first
    | tail _ last ih => exact closed _ (Or.inr ih) last

end Spread

namespace Reflects

variable {hierarchy : Hierarchy} {told : Iri → Iri → Prop} (reflects : Reflects hierarchy told)
include reflects

/-- Every class above another one is a key of the table of subclasses. -/
theorem mem_ancestors {cls other : Iri} :
    other ∈ hierarchy.ancestors cls ↔ TransGen (fun sub sup => sup ∈ hierarchy.above sub) cls other := by
  rw [ancestors, ← Std.HashMap.length_keys]
  apply mem_spread _ reflects.nodup_above
  intro sub sup member
  have listed := (reflects.mem_below sub sup).mpr ((reflects.mem_above sub sup).mp member)
  rw [Std.HashMap.mem_keys]
  apply Classical.byContradiction
  intro missing
  rw [below, Std.HashMap.getD_eq_fallback missing] at listed
  cases listed

theorem mem_descendants {cls other : Iri} :
    other ∈ hierarchy.descendants cls ↔ TransGen (fun sub sup => sup ∈ hierarchy.above sub) other cls := by
  have turned : (fun sup sub => sub ∈ hierarchy.below sup) = Function.swap fun sub sup => sup ∈ hierarchy.above sub := by
    funext sup sub
    exact propext ((reflects.mem_below sub sup).trans (reflects.mem_above sub sup).symm)
  rw [← transGen_swap, ← turned, descendants, ← Std.HashMap.length_keys]
  apply mem_spread _ reflects.nodup_below
  intro sup sub member
  have listed := (reflects.mem_above sub sup).mpr ((reflects.mem_below sub sup).mp member)
  rw [Std.HashMap.mem_keys]
  apply Classical.byContradiction
  intro missing
  rw [above, Std.HashMap.getD_eq_fallback missing] at listed
  cases listed

/-- Inclusions of a class in itself make no difference to chains. -/
theorem reflTransGen_above {cls other : Iri} :
    ReflTransGen (fun sub sup => sup ∈ hierarchy.above sub) cls other ↔ ReflTransGen told cls other := by
  constructor
  · intro chain
    exact ReflTransGen.mono (fun sub sup step => ((reflects.mem_above sub sup).mp step).2) _ _ chain
  · intro chain
    induction chain with
    | refl => exact .refl
    | @tail middle last _ step ih =>
      by_cases same : middle = last
      · exact same ▸ ih
      · exact ih.tail ((reflects.mem_above middle last).mpr ⟨same, step⟩)

theorem mem_equivalents {cls other : Iri} :
    other ∈ hierarchy.equivalents cls ↔ other ≠ cls ∧ ReflTransGen told cls other ∧ ReflTransGen told other cls := by
  simp only [equivalents, List.mem_filter, Bool.and_eq_true, bne_iff_ne, ne_eq, List.contains_iff_mem,
    reflects.mem_ancestors, reflects.mem_descendants]
  rw [← reflects.reflTransGen_above, ← reflects.reflTransGen_above, reflTransGen_iff_eq_or_transGen,
    reflTransGen_iff_eq_or_transGen]
  grind

/-- A class, its equivalents and the classes strictly above it are what its chains lead to. -/
theorem mem_superClasses {cls other : Iri} :
    other = cls ∨ other ∈ hierarchy.equivalentClasses cls ∨ other ∈ hierarchy.superClasses cls false ↔
      ReflTransGen told cls other := by
  have chain : other = cls ∨ other ∈ hierarchy.ancestors cls ↔ ReflTransGen told cls other := by
    rw [← reflects.reflTransGen_above, reflTransGen_iff_eq_or_transGen, reflects.mem_ancestors]
  have weaker : other ∈ hierarchy.equivalents cls → other ∈ hierarchy.ancestors cls := fun member =>
    (List.mem_filter.mp member).1
  rw [← chain]
  simp only [equivalentClasses, superClasses, strictly, Iri.mem_canonical, List.mem_filter, Bool.and_eq_true,
    bne_iff_ne, Bool.not_eq_true', List.contains_eq_mem, decide_eq_false_iff_not, Bool.false_eq_true, if_false]
  grind

theorem mem_equivalentClasses {cls other : Iri} :
    other = cls ∨ other ∈ hierarchy.equivalentClasses cls ↔
      ReflTransGen told cls other ∧ ReflTransGen told other cls := by
  rw [equivalentClasses, Iri.mem_canonical, reflects.mem_equivalents]
  constructor
  · rintro (rfl | ⟨-, up, down⟩)
    · exact ⟨.refl, .refl⟩
    · exact ⟨up, down⟩
  · intro ⟨up, down⟩
    by_cases same : other = cls
    · exact Or.inl same
    · exact Or.inr ⟨same, up, down⟩

end Reflects

end Hierarchy

end OwlGraph
