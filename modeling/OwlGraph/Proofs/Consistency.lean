import Mathlib.Data.Set.Lattice
import Mathlib.Order.CompletePartialOrder
import OwlGraph.Proofs.Entailment

/-! The consistency answer is exact. The types of an individual are what its told types lead
to, and an interpretation that satisfies the axioms gives the individual all of them: it must
not reach the empty class or two disjoint ones. If no individual does, the individuals
themselves make an interpretation, each in the classes that are its types. -/

namespace OwlGraph

open Relation

/-- What an axiom says outright about two classes with nothing in common. The operands are
taken as they are listed, so a class that is listed twice is disjoint with itself. -/
inductive Axiom.Excludes : Axiom → Iri → Iri → Prop
  | disjointness {classes : List ClassExpression} {one two : Iri}
      (listed : (one, two) ∈ Hierarchy.pairs (classes.filterMap ClassExpression.iri?)) :
      Excludes (.disjointClasses classes) one two

/-- What an axiom says outright about the type of an individual. -/
inductive Axiom.Classifies : Axiom → Individual → Iri → Prop
  | assertion (cls : Iri) (individual : Individual) : Classifies (.classAssertion (.named cls) individual) individual cls

/-- Sets for the class names and elements for the individuals. Nothing is in `owl:Nothing`;
`owl:Thing` is a name like any other. -/
structure Interpretation (Domain : Type) where
  classes : Iri → Set Domain
  individuals : Individual → Domain
  nothing : classes Owl.Nothing = ∅

/-- Whether an interpretation satisfies an axiom, as far as it is about named classes. -/
def Axiom.TrueIn {Domain : Type} (interpretation : Interpretation Domain) : Axiom → Prop
  | .disjointClasses classes => (classes.filterMap ClassExpression.iri?).Pairwise fun one two =>
      Disjoint (interpretation.classes one) (interpretation.classes two)
  | .classAssertion (.named cls) individual => interpretation.individuals individual ∈ interpretation.classes cls
  | statement => statement.HoldsIn interpretation.classes

namespace Hierarchy

def Satisfies {Domain : Type} (interpretation : Interpretation Domain) (ontologies : List Ontology) : Prop :=
  ∀ ontology ∈ ontologies, ∀ fact ∈ ontology.axioms, fact.bare.TrueIn interpretation

/-- Whether an axiom of the ontologies says that the classes are disjoint, the first one listed
before the second one. -/
def Excluded (ontologies : List Ontology) (one two : Iri) : Prop :=
  ∃ ontology ∈ ontologies, ∃ fact ∈ ontology.axioms, fact.bare.Excludes one two

def Classified (ontologies : List Ontology) (individual : Individual) (cls : Iri) : Prop :=
  ∃ ontology ∈ ontologies, ∃ fact ∈ ontology.axioms, fact.bare.Classifies individual cls

theorem forall_pairs {classes : List Iri} {related : Iri → Iri → Prop} :
    (∀ one two, (one, two) ∈ pairs classes → related one two) ↔ classes.Pairwise related := by
  induction classes with
  | nil => simp [pairs]
  | cons cls rest ih =>
    rw [List.pairwise_cons, ← ih]
    simp only [pairs, List.mem_append, List.mem_map, Prod.mk.injEq]
    grind

section Tables

/-- The tables of types and of disjoint classes hold the given relations, the latter both ways. -/
structure Records (hierarchy : Hierarchy) (classified : Individual → Iri → Prop) (excluded : Iri → Iri → Prop) :
    Prop where
  mem_toldTypes : ∀ individual cls, cls ∈ hierarchy.toldTypes.getD individual [] ↔ classified individual cls
  mem_disjoint : ∀ one two, hierarchy.disjoint.contains (one, two) ↔ excluded one two ∨ excluded two one

namespace Records

variable {hierarchy : Hierarchy} {classified : Individual → Iri → Prop} {excluded : Iri → Iri → Prop}

theorem empty : Records {} (fun _ _ => False) fun _ _ => False := by
  constructor <;> simp

theorem congr (records : Records hierarchy classified excluded) {typed : Individual → Iri → Prop}
    {apart : Iri → Iri → Prop} (types : ∀ individual cls, classified individual cls ↔ typed individual cls)
    (disjoint : ∀ one two, excluded one two ↔ apart one two) : Records hierarchy typed apart := by
  have first : classified = typed := funext₂ fun individual cls => propext (types individual cls)
  have second : excluded = apart := funext₂ fun one two => propext (disjoint one two)
  exact first ▸ second ▸ records

theorem of_tables {other : Hierarchy} (records : Records hierarchy classified excluded)
    (types : other.toldTypes = hierarchy.toldTypes) (disjoint : other.disjoint = hierarchy.disjoint) :
    Records other classified excluded := by
  constructor
  · simpa only [types] using records.mem_toldTypes
  · simpa only [disjoint] using records.mem_disjoint

theorem subsume (records : Records hierarchy classified excluded) (sub sup : Iri) :
    Records (hierarchy.subsume sub sup) classified excluded := by
  unfold Hierarchy.subsume
  split
  · exact records
  · exact records.of_tables rfl rfl

theorem equate (records : Records hierarchy classified excluded) (related : List (Iri × Iri)) :
    Records (related.foldl (fun hierarchy (one, two) => (hierarchy.subsume one two).subsume two one) hierarchy)
      classified excluded := by
  induction related generalizing hierarchy with
  | nil => exact records
  | cons pair rest ih => exact ih ((records.subsume _ _).subsume _ _)

theorem separate (records : Records hierarchy classified excluded) (related : List (Iri × Iri)) :
    Records (related.foldl (fun hierarchy (one, two) => hierarchy.separate one two) hierarchy) classified
      fun one two => excluded one two ∨ (one, two) ∈ related := by
  induction related generalizing hierarchy excluded with
  | nil => exact records.congr (by simp) (by simp)
  | cons pair rest ih =>
    have first : Records (hierarchy.separate pair.1 pair.2) classified
        fun one two => excluded one two ∨ (one, two) = pair := by
      constructor
      · exact records.mem_toldTypes
      · intro one two
        have old := records.mem_disjoint one two
        simp only [Hierarchy.separate, Std.HashSet.contains_insert, Bool.or_eq_true, beq_iff_eq, Prod.ext_iff, old]
        grind
    apply (ih first).congr
    · simp
    · simp [or_assoc]

theorem classify (records : Records hierarchy classified excluded) (individual : Individual) (cls : Iri) :
    Records (hierarchy.classify individual cls)
      (fun other type => classified other type ∨ other = individual ∧ type = cls) excluded := by
  constructor
  · intro other type
    rw [Hierarchy.classify, mem_relate, records.mem_toldTypes]
    exact or_comm
  · exact records.mem_disjoint

/-- An axiom that is no disjointness and no assertion leaves the relations as they are. -/
theorem silent (records : Records hierarchy classified excluded) {statement : Axiom}
    (noType : ∀ individual cls, ¬ statement.Classifies individual cls) (noPair : ∀ one two, ¬ statement.Excludes one two) :
    Records hierarchy (fun individual cls => classified individual cls ∨ statement.Classifies individual cls)
      fun one two => excluded one two ∨ statement.Excludes one two :=
  records.congr (fun individual cls => (or_iff_left (noType individual cls)).symm)
    fun one two => (or_iff_left (noPair one two)).symm

theorem tell (records : Records hierarchy classified excluded) (fact : AnnotatedAxiom) :
    Records (hierarchy.tell fact)
      (fun individual cls => classified individual cls ∨ fact.bare.Classifies individual cls)
      fun one two => excluded one two ∨ fact.bare.Excludes one two := by
  unfold Hierarchy.tell
  split
  next sub sup bare =>
    apply (records.subsume sub sup).silent
    · rw [bare]
      nofun
    · rw [bare]
      nofun
  next classes bare =>
    apply (records.equate _).silent
    · rw [bare]
      nofun
    · rw [bare]
      nofun
  next classes bare =>
    rw [bare]
    apply (records.separate _).congr
    · exact fun individual cls => (or_iff_left nofun).symm
    · intro one two
      apply or_congr_right
      constructor
      · exact .disjointness
      · rintro ⟨listed⟩
        exact listed
  next cls individual bare =>
    rw [bare]
    apply (records.classify individual cls).congr
    · intro other type
      apply or_congr_right
      constructor
      · rintro ⟨rfl, rfl⟩
        exact .assertion type other
      · rintro ⟨⟩
        exact ⟨rfl, rfl⟩
    · exact fun one two => (or_iff_left nofun).symm
  next _ _ noDisjointness noAssertion =>
    apply records.silent
    · intro individual cls classifies
      generalize bare : fact.bare = statement at classifies
      cases classifies with
      | assertion => exact noAssertion _ _ bare
    · intro one two excludes
      generalize bare : fact.bare = statement at excludes
      cases excludes with
      | disjointness => exact noDisjointness _ bare

theorem foldl_tell (records : Records hierarchy classified excluded) (facts : List AnnotatedAxiom) :
    Records (facts.foldl Hierarchy.tell hierarchy)
      (fun individual cls => classified individual cls ∨ ∃ fact ∈ facts, fact.bare.Classifies individual cls)
      fun one two => excluded one two ∨ ∃ fact ∈ facts, fact.bare.Excludes one two := by
  induction facts generalizing hierarchy classified excluded with
  | nil => exact records.congr (by simp) (by simp)
  | cons fact rest ih =>
    apply (ih (records.tell fact)).congr
    · simp [or_assoc]
    · simp [or_assoc]

end Records

theorem records_ofOntologies (ontologies : List Ontology) :
    (ofOntologies ontologies).Records (Classified ontologies) (Excluded ontologies) := by
  apply (Records.empty.foldl_tell (ontologies.flatMap Ontology.axioms)).congr
  · intro individual cls
    simp only [false_or, List.mem_flatMap, Classified]
    grind
  · intro one two
    simp only [false_or, List.mem_flatMap, Excluded]
    grind

end Tables

/-- The told types of the individual and what they lead to. -/
def HasType (told : Iri → Iri → Prop) (classified : Individual → Iri → Prop) (individual : Individual) (cls : Iri) :
    Prop :=
  ∃ type, classified individual type ∧ ReflTransGen told type cls

section Answers

variable {hierarchy : Hierarchy} {told : Iri → Iri → Prop} {classified : Individual → Iri → Prop}
  {excluded : Iri → Iri → Prop}

theorem mem_allTypes (reflects : Reflects hierarchy told) (records : Records hierarchy classified excluded)
    {individual : Individual} {cls : Iri} :
    cls ∈ hierarchy.allTypes (hierarchy.toldTypes.getD individual []) ↔ HasType told classified individual cls := by
  simp only [allTypes, List.mem_append, List.mem_flatMap, records.mem_toldTypes, reflects.mem_ancestors, HasType,
    ← reflects.reflTransGen_above, reflTransGen_iff_eq_or_transGen]
  grind

/-- Individuals without a told type are not in the table; they have no types to clash. -/
theorem isConsistent_iff (reflects : Reflects hierarchy told) (records : Records hierarchy classified excluded) :
    hierarchy.isConsistent = true ↔
      ∀ individual, ¬ HasType told classified individual Owl.Nothing ∧ ∀ one two, excluded one two →
        HasType told classified individual one → ¬ HasType told classified individual two := by
  have clash : ∀ individual, ¬ HasType told classified individual Owl.Nothing ∧ (∀ one two, excluded one two →
      HasType told classified individual one → ¬ HasType told classified individual two) ↔
      let types := (hierarchy.allTypes (hierarchy.toldTypes.getD individual [])).eraseDups
      (!types.contains Owl.Nothing &&
        !types.any fun one => types.any fun two => hierarchy.disjoint.contains (one, two)) = true := by
    intro individual
    simp only [← mem_allTypes reflects records, Bool.and_eq_true, Bool.not_eq_true', ← Bool.not_eq_true,
      List.contains_iff_mem, List.any_eq_true, List.mem_eraseDups, not_exists, not_and, records.mem_disjoint]
    grind
  rw [isConsistent, List.all_eq_true]
  constructor
  · intro checked individual
    rw [clash]
    cases entry : hierarchy.toldTypes[individual]? with
    | none => simp [Std.HashMap.getD_eq_getD_getElem?, entry, allTypes]
    | some types =>
      have found := checked (individual, types) (Std.HashMap.mem_toList_iff_getElem?_eq_some.mpr entry)
      simpa only [Std.HashMap.getD_eq_getD_getElem?, entry, Option.getD_some] using found
  · intro consistent ⟨individual, types⟩ member
    have entry := Std.HashMap.mem_toList_iff_getElem?_eq_some.mp member
    have checked := (clash individual).mp (consistent individual)
    simpa only [Std.HashMap.getD_eq_getD_getElem?, entry, Option.getD_some] using checked

end Answers

section Interpretations

variable {Domain : Type} {interpretation : Interpretation Domain} {ontologies : List Ontology}

theorem trueIn_iff {statement : Axiom} : statement.TrueIn interpretation ↔ statement.HoldsIn interpretation.classes ∧
    (∀ one two, statement.Excludes one two → Disjoint (interpretation.classes one) (interpretation.classes two)) ∧
    ∀ individual cls, statement.Classifies individual cls →
      interpretation.individuals individual ∈ interpretation.classes cls := by
  unfold Axiom.TrueIn
  split
  next classes =>
    rw [← forall_pairs]
    constructor
    · intro disjoint
      exact ⟨trivial, fun one two ⟨listed⟩ => disjoint one two listed, nofun⟩
    · intro ⟨_, disjoint, _⟩ one two listed
      exact disjoint one two (.disjointness listed)
  next cls individual =>
    constructor
    · intro member
      exact ⟨trivial, nofun, fun _ _ ⟨_, _⟩ => member⟩
    · intro ⟨_, _, member⟩
      exact member individual cls (.assertion cls individual)
  next noDisjointness noAssertion =>
    refine (and_iff_left ⟨?_, ?_⟩).symm
    · intro one two excludes
      cases excludes with
      | disjointness => exact absurd rfl (noDisjointness _)
    · intro individual cls classifies
      cases classifies with
      | assertion => exact absurd rfl (noAssertion _ _)

theorem satisfies_iff : Satisfies interpretation ontologies ↔ Models interpretation.classes ontologies ∧
    (∀ one two, Excluded ontologies one two → Disjoint (interpretation.classes one) (interpretation.classes two)) ∧
    ∀ individual cls, Classified ontologies individual cls →
      interpretation.individuals individual ∈ interpretation.classes cls := by
  simp only [Satisfies, trueIn_iff, Models, Excluded, Classified]
  grind

/-- The element of an individual is in all of its types. -/
theorem mem_of_hasType (satisfies : Satisfies interpretation ontologies) {individual : Individual} {cls : Iri}
    (hasType : HasType (Told ontologies) (Classified ontologies) individual cls) :
    interpretation.individuals individual ∈ interpretation.classes cls := by
  obtain ⟨models, _, typed⟩ := satisfies_iff.mp satisfies
  obtain ⟨type, classified, chain⟩ := hasType
  exact entailsInclusion_iff.mpr chain Domain interpretation.classes models (typed individual type classified)

/-- The individuals as an interpretation, each in its types. -/
def individualsWithin (told : Iri → Iri → Prop) (classified : Individual → Iri → Prop)
    (nothing : ∀ individual, ¬ HasType told classified individual Owl.Nothing) : Interpretation Individual where
  classes cls := {individual | HasType told classified individual cls}
  individuals := id
  nothing := Set.eq_empty_of_forall_notMem nothing

theorem satisfies_individualsWithin
    (nothing : ∀ individual, ¬ HasType (Told ontologies) (Classified ontologies) individual Owl.Nothing)
    (apart : ∀ individual one two, Excluded ontologies one two →
      HasType (Told ontologies) (Classified ontologies) individual one →
      ¬ HasType (Told ontologies) (Classified ontologies) individual two) :
    Satisfies (individualsWithin (Told ontologies) (Classified ontologies) nothing) ontologies := by
  rw [satisfies_iff]
  refine ⟨?_, ?_, ?_⟩
  · apply models_iff.mpr
    intro sub sup told individual ⟨type, classified, chain⟩
    exact ⟨type, classified, chain.tail told⟩
  · intro one two excluded
    apply Set.disjoint_left.mpr
    exact fun individual => apart individual one two excluded
  · intro individual cls classified
    exact ⟨cls, classified, .refl⟩

end Interpretations

/-- The ontologies are found consistent exactly if an interpretation with some element satisfies
all that their axioms say about named classes. -/
theorem isConsistent_iff_satisfiable (ontologies : List Ontology) :
    (ofOntologies ontologies).isConsistent = true ↔
      ∃ (Domain : Type) (_ : Nonempty Domain) (interpretation : Interpretation Domain),
        Satisfies interpretation ontologies := by
  rw [isConsistent_iff (reflects_ofOntologies ontologies) (records_ofOntologies ontologies)]
  constructor
  · intro consistent
    exact ⟨Individual, ⟨.blank ⟨""⟩⟩, _, satisfies_individualsWithin (fun individual => (consistent individual).1)
      fun individual => (consistent individual).2⟩
  · intro ⟨Domain, _, interpretation, satisfies⟩ individual
    constructor
    · intro falls
      have member := mem_of_hasType satisfies falls
      rw [interpretation.nothing] at member
      exact member
    · intro one two excluded first second
      have disjoint := (satisfies_iff.mp satisfies).2.1 one two excluded
      exact Set.disjoint_left.mp disjoint (mem_of_hasType satisfies first) (mem_of_hasType satisfies second)

end Hierarchy

end OwlGraph
