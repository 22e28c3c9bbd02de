import OwlGraph.Proofs.Answers

/-! What the answer to one query says about another. Every query walks the told inclusions from
its own end and leaves out the equivalent classes in its own place; but all of them ask whether
chains lead from one class to another. So answers for all classes agree with each other. Answers
about told classes do not: instances are looked for under every equivalent class, types are not. -/

namespace OwlGraph

open Relation

namespace Hierarchy

section Chains

variable {told : Iri → Iri → Prop}

/-- Chains lead to the class and back. -/
def Equated (told : Iri → Iri → Prop) (cls other : Iri) : Prop := ReflTransGen told cls other ∧ ReflTransGen told other cls

theorem Equated.symm {cls other : Iri} (equated : Equated told cls other) : Equated told other cls := And.symm equated

theorem equated_swap {cls other : Iri} : Equated (Function.swap told) cls other ↔ Equated told cls other := by
  simp only [Equated, reflTransGen_swap]
  exact And.comm

theorem Equated.beyond_iff {cls one other : Iri} (equated : Equated told cls one) :
    Beyond told one other ↔ Beyond told cls other :=
  ⟨Beyond.head equated.1, Beyond.head equated.2⟩

theorem Beyond.not_equated {cls other : Iri} (beyond : Beyond told cls other) : ¬ Equated told cls other :=
  fun equated => beyond.2 equated.2

theorem Beyond.not_beyond {cls other : Iri} (beyond : Beyond told cls other) : ¬ Beyond told other cls :=
  fun back => beyond.2 back.1

end Chains

namespace Reflects

variable {hierarchy : Hierarchy} {told : Iri → Iri → Prop} (reflects : Reflects hierarchy told)
include reflects

theorem mem_equivalentClasses_iff {cls other : Iri} :
    other ∈ hierarchy.equivalentClasses cls ↔ other ≠ cls ∧ Equated told cls other := by
  rw [equivalentClasses, Iri.mem_canonical, reflects.mem_equivalents, Equated]

/-- The class itself, the classes above it, those below it and its equivalents have nothing in common. -/
theorem answers_disjoint (cls : Iri) : [[cls], hierarchy.superClasses cls false, hierarchy.subClasses cls false,
    hierarchy.equivalentClasses cls].Pairwise List.Disjoint := by
  have self : Equated told cls cls := ⟨.refl, .refl⟩
  have above : ∀ other ∈ hierarchy.superClasses cls false, Beyond told cls other :=
    fun other => reflects.mem_superClasses_all.mp
  have below : ∀ other ∈ hierarchy.subClasses cls false, Beyond told other cls := by
    intro other member
    rw [reflects.mem_subClasses_all, beyond_swap] at member
    exact member
  have beside : ∀ other ∈ hierarchy.equivalentClasses cls, other ≠ cls ∧ Equated told cls other :=
    fun other => reflects.mem_equivalentClasses_iff.mp
  simp only [List.pairwise_cons, List.mem_cons, List.not_mem_nil, or_false, forall_eq_or_imp, forall_eq, false_implies, implies_true,
    and_true, List.Pairwise.nil, List.disjoint_left]
  refine ⟨⟨?_, ?_, ?_⟩, ⟨?_, ?_⟩, ?_⟩
  · exact fun member => (above cls member).not_equated self
  · exact fun member => (below cls member).not_equated self
  · exact fun member => (beside cls member).1 rfl
  · exact fun other upper lower => (above other upper).not_beyond (below other lower)
  · exact fun other upper equal => (above other upper).not_equated (beside other equal).2
  · exact fun other lower equal => (below other lower).not_equated (beside other equal).2.symm

/-- Equivalent classes have the same classes strictly above and below. -/
theorem answers_eq_of_equated {cls one : Iri} (equated : Equated told cls one) :
    hierarchy.superClasses one false = hierarchy.superClasses cls false ∧
      hierarchy.subClasses one false = hierarchy.subClasses cls false := by
  constructor
  · apply strictly_eq
    intro other
    exact reflects.mem_superClasses_all.trans (equated.beyond_iff.trans reflects.mem_superClasses_all.symm)
  · apply strictly_eq
    intro other
    have swapped : Equated (Function.swap told) cls one := equated_swap.mpr equated
    exact reflects.mem_subClasses_all.trans (swapped.beyond_iff.trans reflects.mem_subClasses_all.symm)

end Reflects

/-- The queries agree: superclasses with subclasses, equivalents with each other, instances with
types. Strict superclasses are a strict order on the classes up to equivalence. -/
theorem queries_agree (ontologies : List Ontology) :
    let hierarchy := ofOntologies ontologies
    (∀ cls other, other ∈ hierarchy.superClasses cls false ↔ cls ∈ hierarchy.subClasses other false) ∧
    (∀ cls other, other ∈ hierarchy.equivalentClasses cls ↔ cls ∈ hierarchy.equivalentClasses other) ∧
    (∀ cls, [[cls], hierarchy.superClasses cls false, hierarchy.subClasses cls false,
      hierarchy.equivalentClasses cls].Pairwise List.Disjoint) ∧
    (∀ lower middle upper, middle ∈ hierarchy.superClasses lower false → upper ∈ hierarchy.superClasses middle false →
      upper ∈ hierarchy.superClasses lower false) ∧
    (∀ cls, ∀ one ∈ hierarchy.equivalentClasses cls, hierarchy.superClasses one false = hierarchy.superClasses cls false ∧
      hierarchy.subClasses one false = hierarchy.subClasses cls false) ∧
    ∀ cls individual, individual ∈ hierarchy.instances cls false ↔ cls ∈ hierarchy.types individual false := by
  intro hierarchy
  have reflects : hierarchy.Reflects (Told ontologies) := reflects_ofOntologies ontologies
  have records := records_ofOntologies ontologies
  refine ⟨fun cls other => ?_, fun cls other => ?_, reflects.answers_disjoint, fun lower middle upper => ?_,
    fun cls one equal => ?_, fun cls individual => ?_⟩
  · rw [reflects.mem_superClasses_all, reflects.mem_subClasses_all, beyond_swap]
  · rw [reflects.mem_equivalentClasses_iff, reflects.mem_equivalentClasses_iff, ne_comm, Equated, And.comm (a := ReflTransGen _ _ _),
      Equated]
  · simp only [reflects.mem_superClasses_all]
    exact fun below above => below.tail above.1
  · exact reflects.answers_eq_of_equated (reflects.mem_equivalentClasses_iff.mp equal).2
  · rw [mem_instances reflects records, mem_types reflects records]
    simp [HasType]

namespace Samples

/-- A class with two names, under a class that is under another one. -/
def kennelFacts : List AnnotatedAxiom :=
  [⟨.equivalentClasses [.named ⟨"ex:Dog"⟩, .named ⟨"ex:Hound"⟩], []⟩, ⟨.subClassOf (.named ⟨"ex:Hound"⟩) (.named ⟨"ex:Mammal"⟩), []⟩,
    ⟨.subClassOf (.named ⟨"ex:Mammal"⟩) (.named ⟨"ex:Animal"⟩), []⟩]

def kennel : Ontology := { index := kennelFacts.foldl AxiomIndex.insert {} }

theorem axioms_kennel : kennel.axioms = kennelFacts := by
  have distinct : kennelFacts.Nodup := by decide
  exact (AxiomIndex.foldl_insert AxiomIndex.sound_empty rfl distinct).2.2

theorem told_kennel {sub sup : Iri} : Told [kennel] sub sup ↔ ∃ fact ∈ kennelFacts, fact.bare.Includes sub sup := by
  rw [← axioms_kennel]
  simp [Told]

/-- How high a class stands. -/
def level (cls : Iri) : Nat := if cls = ⟨"ex:Animal"⟩ then 2 else if cls = ⟨"ex:Mammal"⟩ then 1 else 0

theorem level_le {sub sup : Iri} (chain : ReflTransGen (Told [kennel]) sub sup) : level sub ≤ level sup := by
  induction chain with
  | refl => exact Nat.le_refl _
  | tail _ step ih =>
    refine Nat.le_trans ih ?_
    obtain ⟨fact, listed, includes⟩ := told_kennel.mp step
    simp only [kennelFacts, List.mem_cons, List.not_mem_nil, or_false] at listed
    rcases listed with rfl | rfl | rfl
    · cases includes with
      | equivalence left right =>
        simp only [List.mem_cons, ClassExpression.named.injEq, List.not_mem_nil, or_false] at left right
        rcases left with rfl | rfl <;> rcases right with rfl | rfl <;> decide
    · cases includes
      decide
    · cases includes
      decide

theorem beyond_of_step {sub sup : Iri} (step : ∃ fact ∈ kennelFacts, fact.bare.Includes sub sup) (higher : level sub < level sup) :
    Beyond (Told [kennel]) sub sup :=
  ⟨.single (told_kennel.mpr step), fun back => Nat.not_le_of_lt higher (level_le back)⟩

end Samples

theorem queries_agree_kennel :
    let hierarchy := ofOntologies [Samples.kennel]
    (⟨"ex:Mammal"⟩ ∈ hierarchy.superClasses ⟨"ex:Hound"⟩ false ∧ ⟨"ex:Animal"⟩ ∈ hierarchy.superClasses ⟨"ex:Mammal"⟩ false ∧
      ⟨"ex:Dog"⟩ ∈ hierarchy.equivalentClasses ⟨"ex:Hound"⟩) ∧
    ⟨"ex:Animal"⟩ ∈ hierarchy.superClasses ⟨"ex:Hound"⟩ false ∧
    hierarchy.superClasses ⟨"ex:Dog"⟩ false = hierarchy.superClasses ⟨"ex:Hound"⟩ false := by
  intro hierarchy
  have reflects : hierarchy.Reflects (Told [Samples.kennel]) := reflects_ofOntologies [Samples.kennel]
  have mammal : ⟨"ex:Mammal"⟩ ∈ hierarchy.superClasses ⟨"ex:Hound"⟩ false := reflects.mem_superClasses_all.mpr
    (Samples.beyond_of_step ⟨_, List.mem_cons_of_mem _ List.mem_cons_self, .inclusion _ _⟩ (by decide))
  have animal : ⟨"ex:Animal"⟩ ∈ hierarchy.superClasses ⟨"ex:Mammal"⟩ false := reflects.mem_superClasses_all.mpr
    (Samples.beyond_of_step ⟨_, List.mem_cons_of_mem _ (List.mem_cons_of_mem _ List.mem_cons_self), .inclusion _ _⟩ (by decide))
  have dog : ⟨"ex:Dog"⟩ ∈ hierarchy.equivalentClasses ⟨"ex:Hound"⟩ := by
    refine reflects.mem_equivalentClasses_iff.mpr ⟨by decide, .single (Samples.told_kennel.mpr ?_), .single (Samples.told_kennel.mpr ?_)⟩
    · exact ⟨_, List.mem_cons_self, .equivalence (List.mem_cons_of_mem _ List.mem_cons_self) List.mem_cons_self⟩
    · exact ⟨_, List.mem_cons_self, .equivalence List.mem_cons_self (List.mem_cons_of_mem _ List.mem_cons_self)⟩
  obtain ⟨-, -, -, transitive, equal, -⟩ := queries_agree [Samples.kennel]
  exact ⟨⟨mammal, animal, dog⟩, transitive _ _ _ mammal animal, (equal _ _ dog).1⟩

/-- An individual is a direct instance of the classes equivalent to its direct types. So the direct
answers agree exactly if whatever is equivalent to a told type of an individual is told as well. -/
theorem direct_instances_iff (ontologies : List Ontology) :
    let hierarchy := ofOntologies ontologies
    (∀ cls individual, individual ∈ hierarchy.instances cls true ↔
      ∃ type ∈ hierarchy.types individual true, cls = type ∨ cls ∈ hierarchy.equivalentClasses type) ∧
    ((∀ cls individual, individual ∈ hierarchy.instances cls true ↔ cls ∈ hierarchy.types individual true) ↔
      ∀ individual, ∀ type ∈ hierarchy.types individual true, hierarchy.equivalentClasses type ⊆ hierarchy.types individual true) := by
  intro hierarchy
  have reflects : hierarchy.Reflects (Told ontologies) := reflects_ofOntologies ontologies
  have records := records_ofOntologies ontologies
  have around : ∀ cls individual, individual ∈ hierarchy.instances cls true ↔
      ∃ type ∈ hierarchy.types individual true, cls = type ∨ cls ∈ hierarchy.equivalentClasses type := by
    intro cls individual
    simp only [mem_instances reflects records, mem_types reflects records, reflects.mem_equivalentClasses, true_implies, if_true]
  refine ⟨around, ?_⟩
  simp only [around]
  constructor
  · intro agree individual type member cls equal
    exact (agree cls individual).mp ⟨type, member, Or.inr equal⟩
  · intro closed cls individual
    constructor
    · rintro ⟨type, member, rfl | equal⟩
      · exact member
      · exact closed individual type member equal
    · exact fun member => ⟨cls, member, Or.inl rfl⟩

end Hierarchy

end OwlGraph
