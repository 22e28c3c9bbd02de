import Mathlib.Data.Set.Basic
import OwlGraph.Proofs.AxiomSet
import OwlGraph.Proofs.ToldHierarchy

/-! Told inclusions are all that follows. An interpretation gives every class name a set of
things, `owl:Thing` and `owl:Nothing` included as ordinary names. What a chain of told
inclusions leads to holds in every interpretation of the axioms; and where there is no chain,
the interpretation of a class by the names that lead to it tells the two apart. -/

namespace OwlGraph

open Relation

/-- What an axiom asks of an interpretation, as far as it is about named classes. -/
def Axiom.HoldsIn {Domain : Type} (meaning : Iri → Set Domain) : Axiom → Prop
  | .subClassOf (.named sub) (.named sup) => meaning sub ⊆ meaning sup
  | .equivalentClasses classes => ∀ one two, .named one ∈ classes → .named two ∈ classes → meaning one = meaning two
  | _ => True

namespace Hierarchy

def Models {Domain : Type} (meaning : Iri → Set Domain) (ontologies : List Ontology) : Prop :=
  ∀ ontology ∈ ontologies, ∀ fact ∈ ontology.axioms, fact.bare.HoldsIn meaning

/-- The first class is part of the second one in every interpretation that satisfies the axioms. -/
def EntailsInclusion (ontologies : List Ontology) (sub sup : Iri) : Prop :=
  ∀ (Domain : Type) (meaning : Iri → Set Domain), Models meaning ontologies → meaning sub ⊆ meaning sup

/-- The classes are equal in every interpretation that satisfies the axioms. -/
def EntailsEquality (ontologies : List Ontology) (one two : Iri) : Prop :=
  ∀ (Domain : Type) (meaning : Iri → Set Domain), Models meaning ontologies → meaning one = meaning two

variable {ontologies : List Ontology}

theorem models_iff {Domain : Type} {meaning : Iri → Set Domain} :
    Models meaning ontologies ↔ ∀ sub sup, Told ontologies sub sup → meaning sub ⊆ meaning sup := by
  constructor
  · intro models sub sup ⟨ontology, source, fact, member, includes⟩
    have holds := models ontology source fact member
    generalize fact.bare = statement at holds includes
    cases includes with
    | inclusion => exact holds
    | equivalence left right => exact (holds sub sup left right).subset
  · intro inclusions ontology source fact member
    have told : ∀ sub sup, fact.bare.Includes sub sup → meaning sub ⊆ meaning sup := fun sub sup includes =>
      inclusions sub sup ⟨ontology, source, fact, member, includes⟩
    generalize fact.bare = statement at told
    unfold Axiom.HoldsIn
    split
    · exact told _ _ (.inclusion _ _)
    · intro one two left right
      exact (told one two (.equivalence left right)).antisymm (told two one (.equivalence right left))
    · trivial

theorem entailsInclusion_iff {sub sup : Iri} :
    EntailsInclusion ontologies sub sup ↔ ReflTransGen (Told ontologies) sub sup := by
  constructor
  · intro entailed
    -- every class is the set of the names that lead to it
    have models : Models (fun cls => {name | ReflTransGen (Told ontologies) name cls}) ontologies :=
      models_iff.mpr fun _ _ told _ chain => chain.tail told
    exact entailed Iri _ models .refl
  · intro chain Domain meaning models
    induction chain with
    | refl => exact subset_rfl
    | tail _ told ih => exact ih.trans (models_iff.mp models _ _ told)

theorem entailsEquality_iff {one two : Iri} : EntailsEquality ontologies one two ↔
    ReflTransGen (Told ontologies) one two ∧ ReflTransGen (Told ontologies) two one := by
  rw [← entailsInclusion_iff, ← entailsInclusion_iff]
  constructor
  · intro entailed
    constructor
    · intro Domain meaning models
      exact (entailed Domain meaning models).subset
    · intro Domain meaning models
      exact (entailed Domain meaning models).symm.subset
  · intro ⟨left, right⟩ Domain meaning models
    exact (left Domain meaning models).antisymm (right Domain meaning models)

/-- Whether an ontology has the axiom with any annotations. -/
def States (ontologies : List Ontology) (statement : Axiom) : Prop :=
  ∃ ontology ∈ ontologies, ∃ fact ∈ ontology.axioms, fact.bare = statement

theorem told_iff {sub sup : Iri} :
    Told ontologies sub sup ↔ ∃ statement, States ontologies statement ∧ statement.Includes sub sup := by
  constructor
  · intro ⟨ontology, source, fact, member, includes⟩
    exact ⟨fact.bare, ⟨ontology, source, fact, member, rfl⟩, includes⟩
  · intro ⟨statement, ⟨ontology, source, fact, member, bare⟩, includes⟩
    exact ⟨ontology, source, fact, member, bare ▸ includes⟩

/-- Hierarchies that reflect the same relation answer alike. -/
structure Alike (one two : Hierarchy) : Prop where
  equivalentClasses : ∀ cls, one.equivalentClasses cls = two.equivalentClasses cls
  superClasses : ∀ cls direct, one.superClasses cls direct = two.superClasses cls direct
  subClasses : ∀ cls direct, one.subClasses cls direct = two.subClasses cls direct

theorem strictly_congr {one two : Hierarchy} {cls : Iri} {candidates others : List Iri}
    (equivalents : ∀ other, other ∈ one.equivalents cls ↔ other ∈ two.equivalents cls)
    (same : ∀ other, other ∈ candidates ↔ other ∈ others) :
    one.strictly cls candidates = two.strictly cls others := by
  apply Iri.canonical_congr
  intro other
  simp [same, equivalents]

theorem Reflects.alike {one two : Hierarchy} {told : Iri → Iri → Prop} (first : one.Reflects told)
    (second : two.Reflects told) : Alike one two := by
  have equivalents : ∀ cls other, other ∈ one.equivalents cls ↔ other ∈ two.equivalents cls := by
    intro cls other
    rw [first.mem_equivalents, second.mem_equivalents]
  have above : ∀ sub sup, sup ∈ one.above sub ↔ sup ∈ two.above sub := by
    intro sub sup
    rw [first.mem_above, second.mem_above]
  have below : ∀ sup sub, sub ∈ one.below sup ↔ sub ∈ two.below sup := by
    intro sup sub
    rw [first.mem_below, second.mem_below]
  constructor
  · intro cls
    exact Iri.canonical_congr (equivalents cls)
  · intro cls direct
    apply strictly_congr (equivalents cls)
    intro other
    cases direct with
    | false => simp [first.mem_ancestors, second.mem_ancestors, above]
    | true => simp [equivalents, above]
  · intro cls direct
    apply strictly_congr (equivalents cls)
    intro other
    cases direct with
    | false => simp [first.mem_descendants, second.mem_descendants, above]
    | true => simp [equivalents, below]

/-- The told hierarchy is exact: its answers are what holds in every interpretation of the named
classes, so they depend on nothing but the axioms that are stated, and not on their order,
their annotations or the ontology that states them. -/
theorem ofOntologies_exact (ontologies : List Ontology) :
    (∀ cls other, (other = cls ∨ other ∈ (ofOntologies ontologies).equivalentClasses cls ∨
        other ∈ (ofOntologies ontologies).superClasses cls false) ↔ EntailsInclusion ontologies cls other) ∧
    (∀ cls other, (other = cls ∨ other ∈ (ofOntologies ontologies).equivalentClasses cls) ↔
        EntailsEquality ontologies cls other) ∧
    ∀ others, (∀ statement, States ontologies statement ↔ States others statement) →
      Alike (ofOntologies ontologies) (ofOntologies others) := by
  have reflects := reflects_ofOntologies ontologies
  refine ⟨?_, ?_, ?_⟩
  · intro cls other
    rw [reflects.mem_superClasses, entailsInclusion_iff]
  · intro cls other
    rw [reflects.mem_equivalentClasses, entailsEquality_iff]
  · intro others same
    apply reflects.alike
    apply (reflects_ofOntologies others).congr
    intro sub sup _
    simp only [told_iff, same]

/-- One ontology with two axioms, and two ontologies with one of them each, in the other order and annotated. -/
theorem ofOntologies_exact_split :
    let inclusion : Axiom := .subClassOf (.named ⟨"ex:Dog"⟩) (.named ⟨"ex:Animal"⟩)
    let equivalence : Axiom := .equivalentClasses [.named ⟨"ex:Animal"⟩, .named ⟨"ex:Beast"⟩]
    let note : Annotation := ⟨⟨"rdfs:comment"⟩, .resource (.named ⟨"ex:note"⟩), []⟩
    let together : Ontology := (({} : Ontology).add ⟨inclusion, []⟩).add ⟨equivalence, []⟩
    let apart : List Ontology := [({} : Ontology).add ⟨equivalence, [note]⟩, ({} : Ontology).add ⟨inclusion, []⟩]
    (∀ statement, States [together] statement ↔ States apart statement) ∧
      Alike (ofOntologies [together]) (ofOntologies apart) := by
  intro inclusion equivalence note together apart
  have same : ∀ statement, States [together] statement ↔ States apart statement := by
    intro statement
    have single : ∀ fact other : AnnotatedAxiom, other ∈ (({} : Ontology).add fact).axioms ↔ other = fact := by
      intro fact other
      rw [Ontology.mem_axioms_add AxiomIndex.sound_empty]
      simp [Ontology.axioms, AxiomIndex.toList]
    have both : ∀ other, other ∈ together.axioms ↔ other = ⟨equivalence, []⟩ ∨ other = ⟨inclusion, []⟩ := by
      intro other
      rw [Ontology.mem_axioms_add (AxiomIndex.sound_empty.insert _), single]
    simp [States, apart, single, both]
  exact ⟨same, (ofOntologies_exact [together]).2.2 apart same⟩

end Hierarchy

end OwlGraph
