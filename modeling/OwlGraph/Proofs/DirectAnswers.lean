import OwlGraph.Proofs.ToldHierarchy

/-! Direct answers beside all answers. A direct answer is one told inclusion away from the class
or an equivalent one, so the direct answers and what lies beyond them are all the answers.
They are the closest classes as long as no told inclusion passes over a class in between. -/

namespace OwlGraph

open Relation

namespace Hierarchy

section Chains

variable {told : Iri → Iri → Prop}

/-- Chains lead to the class and none leads back. -/
def Beyond (told : Iri → Iri → Prop) (cls other : Iri) : Prop :=
  ReflTransGen told cls other ∧ ¬ ReflTransGen told other cls

/-- One step leads to the class from where chains go to and fro, and none leads back. -/
def Adjacent (told : Iri → Iri → Prop) (cls other : Iri) : Prop :=
  ∃ one, ReflTransGen told cls one ∧ ReflTransGen told one cls ∧ told one other ∧ ¬ ReflTransGen told other cls

theorem Adjacent.beyond {cls other : Iri} (adjacent : Adjacent told cls other) : Beyond told cls other := by
  obtain ⟨one, up, _, step, noWay⟩ := adjacent
  exact ⟨up.tail step, noWay⟩

theorem Beyond.tail {cls middle other : Iri} (beyond : Beyond told cls middle) (chain : ReflTransGen told middle other) :
    Beyond told cls other :=
  ⟨beyond.1.trans chain, fun back => beyond.2 (chain.trans back)⟩

theorem Beyond.head {cls middle other : Iri} (chain : ReflTransGen told cls middle) (beyond : Beyond told middle other) :
    Beyond told cls other :=
  ⟨chain.trans beyond.1, fun back => beyond.2 (back.trans chain)⟩

/-- The first step of a chain from which there is no way back. -/
theorem Beyond.exists_adjacent {cls other : Iri} (beyond : Beyond told cls other) :
    ∃ next, Adjacent told cls next ∧ ReflTransGen told next other := by
  obtain ⟨chain, noWay⟩ := beyond
  -- the steps before it stay among the classes with a way back, which are those to start over from
  have first : ∀ start, ReflTransGen told start other → ReflTransGen told cls start → ReflTransGen told start cls →
      ∃ next, Adjacent told cls next ∧ ReflTransGen told next other := by
    intro start rest
    induction rest using ReflTransGen.head_induction_on with
    | refl => exact fun _ back => absurd back noWay
    | @head start next step rest ih =>
      intro up back
      by_cases returns : ReflTransGen told next cls
      · exact ih (up.tail step) returns
      · exact ⟨next, ⟨start, up, back, step, returns⟩, rest⟩
  exact first cls chain .refl .refl

theorem beyond_iff_adjacent {cls other : Iri} :
    Beyond told cls other ↔ ∃ next, Adjacent told cls next ∧ ReflTransGen told next other := by
  constructor
  · exact Beyond.exists_adjacent
  · intro ⟨next, adjacent, chain⟩
    exact adjacent.beyond.tail chain

/-- Adjacent classes lie beside each other exactly if no step passes over a class in between. -/
theorem adjacent_apart_iff :
    (∀ cls near far, Adjacent told cls near → Adjacent told cls far → ¬ Beyond told near far) ↔
      ∀ lower middle upper, told lower upper → Beyond told lower middle → ¬ Beyond told middle upper := by
  constructor
  · intro apart lower middle upper step below above
    obtain ⟨near, adjacent, chain⟩ := below.exists_adjacent
    have beyond : Beyond told near upper := Beyond.head chain above
    have far : Adjacent told lower upper := ⟨lower, .refl, .refl, step, (below.tail above.1).2⟩
    exact apart lower near upper adjacent far beyond
  · intro tight cls near far adjacent ⟨one, _, back, step, _⟩ beyond
    exact tight one near far step (Beyond.head back adjacent.beyond) beyond

theorem beyond_swap {cls other : Iri} : Beyond (Function.swap told) cls other ↔ Beyond told other cls := by
  simp only [Beyond, reflTransGen_swap]

end Chains

namespace Reflects

variable {hierarchy : Hierarchy} {told : Iri → Iri → Prop} (reflects : Reflects hierarchy told)
include reflects

theorem mem_strictly {cls other : Iri} {candidates : List Iri} :
    other ∈ hierarchy.strictly cls candidates ↔
      other ∈ candidates ∧ ¬ (ReflTransGen told cls other ∧ ReflTransGen told other cls) := by
  have equivalent : other ∈ hierarchy.equivalents cls ↔ _ := reflects.mem_equivalents
  have same : other = cls → ReflTransGen told cls other ∧ ReflTransGen told other cls := by
    rintro rfl
    exact ⟨.refl, .refl⟩
  simp only [strictly, Iri.mem_canonical, List.mem_filter, Bool.and_eq_true, bne_iff_ne, Bool.not_eq_true',
    List.contains_eq_mem, decide_eq_false_iff_not]
  grind

theorem mem_around {cls one : Iri} :
    one ∈ cls :: hierarchy.equivalents cls ↔ ReflTransGen told cls one ∧ ReflTransGen told one cls := by
  rw [← reflects.mem_equivalentClasses, equivalentClasses, Iri.mem_canonical, List.mem_cons]

theorem mem_superClasses_all {cls other : Iri} : other ∈ hierarchy.superClasses cls false ↔ Beyond told cls other := by
  have chain : ReflTransGen told cls other ↔ other = cls ∨ other ∈ hierarchy.ancestors cls := by
    rw [← reflects.reflTransGen_above, reflTransGen_iff_eq_or_transGen, reflects.mem_ancestors]
  have same : other = cls → ReflTransGen told other cls := by
    rintro rfl
    exact .refl
  rw [superClasses, reflects.mem_strictly, if_neg (by simp), Beyond, chain]
  grind

theorem mem_subClasses_all {cls other : Iri} :
    other ∈ hierarchy.subClasses cls false ↔ Beyond (Function.swap told) cls other := by
  have chain : ReflTransGen told other cls ↔ cls = other ∨ other ∈ hierarchy.descendants cls := by
    rw [← reflects.reflTransGen_above, reflTransGen_iff_eq_or_transGen, reflects.mem_descendants]
  have same : cls = other → ReflTransGen told cls other := by
    rintro rfl
    exact .refl
  rw [beyond_swap, subClasses, reflects.mem_strictly, if_neg (by simp), Beyond, chain]
  grind

/-- A class, its equivalents and the classes strictly below it are what leads to it. -/
theorem mem_subClasses {cls other : Iri} :
    other = cls ∨ other ∈ hierarchy.equivalentClasses cls ∨ other ∈ hierarchy.subClasses cls false ↔
      ReflTransGen told other cls := by
  rw [← or_assoc, reflects.mem_equivalentClasses, reflects.mem_subClasses_all, beyond_swap, Beyond]
  tauto

theorem mem_superClasses_direct {cls other : Iri} :
    other ∈ hierarchy.superClasses cls true ↔ Adjacent told cls other := by
  rw [superClasses, reflects.mem_strictly, if_pos rfl, List.mem_flatMap]
  constructor
  · rintro ⟨⟨one, around, step⟩, apart⟩
    obtain ⟨up, back⟩ := reflects.mem_around.mp around
    have step := ((reflects.mem_above one other).mp step).2
    exact ⟨one, up, back, step, fun noWay => apart ⟨up.tail step, noWay⟩⟩
  · rintro ⟨one, up, back, step, noWay⟩
    have different : one ≠ other := by
      rintro rfl
      exact noWay back
    exact ⟨⟨one, reflects.mem_around.mpr ⟨up, back⟩, (reflects.mem_above one other).mpr ⟨different, step⟩⟩,
      fun both => noWay both.2⟩

theorem mem_subClasses_direct {cls other : Iri} :
    other ∈ hierarchy.subClasses cls true ↔ Adjacent (Function.swap told) cls other := by
  rw [subClasses, reflects.mem_strictly, if_pos rfl, List.mem_flatMap]
  simp only [Adjacent, reflTransGen_swap]
  constructor
  · rintro ⟨⟨one, around, step⟩, apart⟩
    obtain ⟨up, back⟩ := reflects.mem_around.mp around
    have step := ((reflects.mem_below other one).mp step).2
    exact ⟨one, back, up, step, fun noWay => apart ⟨noWay, .head step back⟩⟩
  · rintro ⟨one, back, up, step, noWay⟩
    have different : other ≠ one := by
      rintro rfl
      exact noWay up
    exact ⟨⟨one, reflects.mem_around.mpr ⟨up, back⟩, (reflects.mem_below other one).mpr ⟨different, step⟩⟩,
      fun both => noWay both.1⟩

end Reflects

/-- All answers are the direct ones, their equivalents and the answers beyond them, upwards as
well as downwards. -/
theorem direct_generates (ontologies : List Ontology) (cls other : Iri) :
    let hierarchy := ofOntologies ontologies
    (other ∈ hierarchy.superClasses cls false ↔ ∃ next ∈ hierarchy.superClasses cls true,
      other = next ∨ other ∈ hierarchy.equivalentClasses next ∨ other ∈ hierarchy.superClasses next false) ∧
    (other ∈ hierarchy.subClasses cls false ↔ ∃ next ∈ hierarchy.subClasses cls true,
      other = next ∨ other ∈ hierarchy.equivalentClasses next ∨ other ∈ hierarchy.subClasses next false) := by
  intro hierarchy
  have reflects : hierarchy.Reflects (Told ontologies) := reflects_ofOntologies ontologies
  constructor
  · rw [reflects.mem_superClasses_all, beyond_iff_adjacent]
    simp only [reflects.mem_superClasses, reflects.mem_superClasses_direct]
  · rw [reflects.mem_subClasses_all, beyond_iff_adjacent]
    simp only [reflects.mem_subClasses, reflects.mem_subClasses_direct, reflTransGen_swap]

/-- No told inclusion passes over a class strictly between its two classes. -/
def Tight (ontologies : List Ontology) : Prop :=
  ∀ lower upper, Told ontologies lower upper → ∀ middle ∈ (ofOntologies ontologies).superClasses lower false,
    upper ∉ (ofOntologies ontologies).superClasses middle false

/-- Direct answers need not be the closest classes: a told inclusion counts, no matter what else
leads the same way. They are, upwards and downwards alike, exactly if no told inclusion is
a short cut. -/
theorem direct_closest_iff (ontologies : List Ontology) :
    let hierarchy := ofOntologies ontologies
    ((∀ cls, ∀ near ∈ hierarchy.superClasses cls true, ∀ far ∈ hierarchy.superClasses cls true,
        far ∉ hierarchy.superClasses near false) ↔ Tight ontologies) ∧
    ((∀ cls, ∀ near ∈ hierarchy.subClasses cls true, ∀ far ∈ hierarchy.subClasses cls true,
        far ∉ hierarchy.subClasses near false) ↔ Tight ontologies) := by
  intro hierarchy
  have reflects : hierarchy.Reflects (Told ontologies) := reflects_ofOntologies ontologies
  have tight : Tight ontologies ↔ ∀ lower middle upper, Told ontologies lower upper →
      Beyond (Told ontologies) lower middle → ¬ Beyond (Told ontologies) middle upper := by
    simp only [Tight, ← reflects.mem_superClasses_all]
    grind
  constructor
  · rw [tight, ← adjacent_apart_iff]
    simp only [reflects.mem_superClasses_all, reflects.mem_superClasses_direct]
    grind
  · rw [tight]
    have apart := @adjacent_apart_iff (Function.swap (Told ontologies))
    simp only [reflects.mem_subClasses_all, reflects.mem_subClasses_direct, beyond_swap] at apart ⊢
    grind

end Hierarchy

end OwlGraph
