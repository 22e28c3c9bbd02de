import OwlGraph.Proofs.ClassAxioms
import OwlGraph.Proofs.SavedOntology

/-! Saving keeps the answers. An ontology whose axioms relate named classes is not loaded back axiom
by axiom: an equivalence comes back as its pieces and one of fewer than two classes not at all. What
is told by chains stays the same, and so do all answers, up to the labels of individuals. -/

namespace OwlGraph

/-- What the names of classes and individuals may be. No other kind of entity occurs. -/
def Entity.Plain : Entity → Prop
  | ⟨.cls, iri⟩ => iri.isVocabulary = true → iri.isBuiltinClass = true
  | ⟨.namedIndividual, _⟩ => True
  | _ => False

/-- The entities of the axiom are plain, and none bears the name of the ontology. -/
structure Axiom.Nameable (ontology : Ontology) (bare : Axiom) : Prop where
  plain : ∀ entity, .entity entity ∈ bare.components → entity.Plain
  apart : ∀ entity, .entity entity ∈ bare.components → ontology.id.iri? ≠ some entity.iri

namespace Ontology

/-- The axioms relate named classes and carry no annotations, as does the ontology. -/
structure Taxonomic (ontology : Ontology) : Prop where
  coherent : ontology.Coherent
  unannotated : ontology.annotations = []
  facts : ∀ fact ∈ ontology.axioms, fact.annotations = [] ∧ fact.bare.Taxonomic
  nameable : ∀ fact ∈ ontology.axioms, fact.bare.Nameable ontology

/-- Every list of operands has at most this many members. -/
def Limited (ontology : Ontology) (limit : Nat) : Prop :=
  ∀ fact ∈ ontology.axioms, ∀ count, fact.bare.arity? = some count → count ≤ limit

variable {ontology : Ontology} {bare : Axiom}

theorem taxonomic_of_empty (empty : ontology.index = {}) (unannotated : ontology.annotations = []) : ontology.Taxonomic := by
  have none : ontology.axioms = [] := by
    rw [axioms, empty]
    rfl
  exact ⟨coherent_of_empty empty, unannotated, by simp [none], by simp [none]⟩

theorem Taxonomic.add (taxonomic : ontology.Taxonomic) (own : bare.Taxonomic) (nameable : bare.Nameable ontology) :
    (ontology.add (.of bare [])).Taxonomic where
  coherent := taxonomic.coherent.add bare []
  unannotated := taxonomic.unannotated
  facts fact member := by
    rcases (mem_axioms_add taxonomic.coherent.sound).mp member with rfl | old
    · exact ⟨ Annotation.canonical_eq_nil.mpr rfl, own.normalize⟩
    · exact taxonomic.facts fact old
  nameable fact member := by
    rcases (mem_axioms_add taxonomic.coherent.sound).mp member with rfl | old
    · exact ⟨fun entity inside => nameable.plain entity (bare.components_normalize inside),
        fun entity inside => nameable.apart entity (bare.components_normalize inside)⟩
    · obtain ⟨plain, apart⟩ := taxonomic.nameable fact old
      exact ⟨plain, apart⟩

theorem Limited.add {limit : Nat} (limited : ontology.Limited limit) (taxonomic : ontology.Taxonomic) (own : bare.Taxonomic)
    (few : ∀ count, bare.arity? = some count → count ≤ limit) : (ontology.add (.of bare [])).Limited limit := by
  intro fact member count counted
  rcases (mem_axioms_add taxonomic.coherent.sound).mp member with rfl | old
  · obtain ⟨total, same, fewer⟩ := own.arity_normalize counted
    exact fewer.trans (few total same)
  · exact limited fact old count counted

/-- Axioms over named classes with few operands may be added one after the other. -/
theorem Taxonomic.addAll {limit : Nat} {statements : List Axiom} (own : ∀ bare ∈ statements, bare.Taxonomic ∧
    bare.Nameable ontology ∧ ∀ count, bare.arity? = some count → count ≤ limit) (taxonomic : ontology.Taxonomic)
    (limited : ontology.Limited limit) :
    (statements.foldl (fun ontology bare => ontology.add (.of bare [])) ontology).Taxonomic ∧
      (statements.foldl (fun ontology bare => ontology.add (.of bare [])) ontology).Limited limit := by
  induction statements generalizing ontology with
  | nil => exact ⟨taxonomic, limited⟩
  | cons bare rest ih =>
    obtain ⟨⟨known, nameable, few⟩, others⟩ := List.forall_mem_cons.mp own
    refine ih (fun bare member => ?_) (taxonomic.add known nameable) (limited.add taxonomic known few)
    obtain ⟨known, ⟨plain, apart⟩, few⟩ := others bare member
    exact ⟨known, ⟨plain, apart⟩, few⟩

end Ontology

section Saving

namespace Axiom

variable {ontology : Ontology} {bare : Axiom} (taxonomic : bare.Taxonomic)
include taxonomic

/-- An axiom over named classes is about entities and anonymous individuals. -/
theorem Taxonomic.component : ∀ component ∈ bare.components, (∃ entity, component = .entity entity) ∨ ∃ node, component = .anonymous node := by
  have named (iri : Iri) : ∀ component ∈ (ClassExpression.named iri).components, ∃ entity, component = .entity entity :=
    List.forall_mem_singleton.mpr ⟨⟨.cls, iri⟩, rfl⟩
  have each (classes : List Iri) : ∀ component ∈ (classes.map ClassExpression.named).flatMap ClassExpression.components,
      ∃ entity, component = .entity entity := by
    intro component member
    obtain ⟨_, inside, within⟩ := List.mem_flatMap.mp member
    obtain ⟨iri, -, rfl⟩ := List.mem_map.mp inside
    exact named iri component within
  cases taxonomic with
  | inclusion sub sup => exact fun component member => .inl ((List.mem_append.mp member).elim (named sub component) (named sup component))
  | equivalence classes | disjointness classes => exact fun component member => .inl (each classes component member)
  | assertion cls individual =>
    intro component member
    rcases List.mem_append.mp member with inside | own
    · exact .inl (named cls component inside)
    · rw [List.mem_singleton.mp own]
      cases individual with
      | named iri => exact .inl ⟨⟨.namedIndividual, iri⟩, rfl⟩
      | blank node => exact .inr ⟨node, rfl⟩

/-- Such an axiom can be saved, unless a list cannot hold its classes. -/
theorem Taxonomic.saveable {limit : Nat} (room : ∀ count, bare.arity? = some count → count ≤ limit) (nameable : bare.Nameable ontology) :
    AnnotatedAxiom.Saveable limit ⟨bare, []⟩ where
  valid := by
    refine ⟨?_, fun count counted _ => room count counted⟩
    cases taxonomic <;> simp [Sound, ClassExpression.WellFormed]
  related := by
    cases taxonomic with
    | inclusion | assertion => trivial
    | equivalence classes | disjointness classes =>
      match classes with
      | [iri] => exact ⟨iri, rfl⟩
      | [] | _ :: _ :: _ => trivial
  fitting := by
    cases taxonomic with
    | inclusion | equivalence | disjointness => trivial
    | assertion cls => exact nameable.plain ⟨.cls, cls⟩ List.mem_cons_self
  seen hidden := by cases taxonomic <;> cases hidden
  distinct := trivial

end Axiom

variable {ontology : Ontology}

namespace Ontology.Taxonomic

section

variable (taxonomic : ontology.Taxonomic)
include taxonomic

theorem component : ∀ component ∈ ontology.components, ∃ fact ∈ ontology.axioms, component ∈ fact.bare.components := by
  intro component member
  rcases List.mem_append.mp member with stated | noted
  · obtain ⟨fact, listed, within⟩ := List.mem_flatMap.mp stated
    refine ⟨fact, listed, (List.mem_append.mp within).resolve_right ?_⟩
    rw [(taxonomic.facts fact listed).1]
    exact List.not_mem_nil
  · rw [taxonomic.unannotated] at noted
    cases noted

theorem plain {entity : Entity} (member : .entity entity ∈ ontology.components) : entity.Plain := by
  obtain ⟨fact, listed, component⟩ := taxonomic.component _ member
  exact (taxonomic.nameable fact listed).plain entity component

theorem no_property (kind : PropertyKind) (iri : Iri) : .entity ⟨kind.entityKind, iri⟩ ∉ ontology.components := by
  intro member
  have plain := taxonomic.plain member
  cases kind <;> exact plain

theorem no_variable (iri : Iri) : ¬ ontology.HasVariable iri := by
  rintro ⟨fact, member, named⟩
  have known := (taxonomic.facts fact member).2
  generalize fact.bare = bare at known named
  cases known <;> cases named

theorem unannotated_fact {fact : AnnotatedAxiom} (member : fact ∈ ontology.axioms) : ¬ fact.annotations ≠ [] :=
  not_not.mpr (taxonomic.facts fact member).1

end

/-- An ontology whose axioms relate named classes can be saved. -/
theorem saveable {limit : Nat} (taxonomic : ontology.Taxonomic) (limited : ontology.Limited limit) : ontology.Saveable limit where
  facts fact member := by
    obtain ⟨none, known⟩ := taxonomic.facts fact member
    have saveable := known.saveable (limited fact member) (taxonomic.nameable fact member)
    rwa [← none] at saveable
  distinct := by rw [taxonomic.unannotated]; trivial
  single iri a b first second :=
    Iri.single_builtin (first.resolve_right (taxonomic.no_property a iri)) (second.resolve_right (taxonomic.no_property b iri))
  apart iri cls datatype := by
    have built : iri.isBuiltinDatatype = true := datatype.resolve_right fun member => taxonomic.plain member
    have known : iri.isBuiltinClass = true :=
      cls.elim (fun built => built) fun member => taxonomic.plain member (Iri.isVocabulary_of_isBuiltinDatatype built)
    rw [Iri.not_datatype_of_class known] at built
    cases built
  plain iri member := absurd member (taxonomic.no_property .annotating iri)
  told kind iri member := absurd member (taxonomic.no_property kind iri)
  defined fact member datatype range same := by
    have known := (taxonomic.facts fact member).2
    rw [same] at known
    cases known
  undeclared fact member entity same := by
    have known := (taxonomic.facts fact member).2
    rw [same] at known
    cases known
  constant iri named := absurd named (taxonomic.no_variable iri)
  named iri named := by
    refine ⟨taxonomic.no_variable iri, fun fact member component within called => ?_⟩
    rcases (taxonomic.facts fact member).2.component component within with ⟨entity, rfl⟩ | ⟨node, rfl⟩
    · exact (taxonomic.nameable fact member).apart entity within (named.trans called.symm)
    · cases called
  clean := fun ⟨_, member, noted⟩ => absurd noted (taxonomic.unannotated_fact member)
  separated _ _ _ member _ noted := absurd noted (taxonomic.unannotated_fact member)

end Ontology.Taxonomic

variable {supply : Nat → BlankNode} {config : Config} {graph : List Triple}

/-- Saving keeps the answers. Let the axioms relate named classes, and let the fresh nodes be different from each other and
from the individuals. Then the triples that are written, in whatever order, are loaded without a problem, and the ontology
that is loaded answers alike, up to the labels of the individuals. -/
theorem saving_keeps_answers (taxonomic : ontology.Taxonomic) (distinct : Function.Injective supply)
    (fresh : ∀ number, supply number ∉ ontology.blanks) (same : ∀ triple, triple ∈ graph ↔ triple ∈ ontology.written supply)
    (uncancelled : config.cancelled = false)
    (limited : ontology.Limited config.maxListLength) (number : Nat)
    (document : Option Iri) : ∃ loaded, loadTriples config number document graph = .ok loaded ∧ loaded.reports = [] ∧
      ∃ rename : BlankNode → BlankNode, Function.Injective rename ∧
        Hierarchy.AlikeUpTo rename (.ofOntologies [ontology]) (.ofOntologies [loaded.ontology]) := by
  obtain ⟨loaded, run, recalls⟩ := loadTriples_of_saved ⟨taxonomic.saveable limited, distinct, fresh, same, uncancelled⟩ number document
  refine ⟨loaded, run, recalls.reports, freshLabel number graph, freshLabel_injective, ?_⟩
  refine Hierarchy.Retells.alikeUpTo (fun bare => ?_) (fun fact member => (taxonomic.facts fact member).2)
    (fun fact member => congrArg AnnotatedAxiom.bare (taxonomic.coherent.normal fact member)) freshLabel_injective
  simp only [recalls.facts]
  constructor
  · rintro ⟨_, ⟨own, member, piece, part, rfl⟩, rfl⟩
    exact ⟨own, member, piece, part, rfl⟩
  · rintro ⟨own, member, piece, part, rfl⟩
    exact ⟨_, ⟨own, member, piece, part, rfl⟩, rfl⟩

namespace Samples

/-- Sets of three classes and of one, an inclusion, and an anonymous individual in one of the classes. -/
def zooStatements : List Axiom :=
  [.equivalentClasses ([⟨"ex:Animal"⟩, ⟨"ex:Beast"⟩, ⟨"ex:Creature"⟩].map .named),
    .disjointClasses ([⟨"ex:Cat"⟩, ⟨"ex:Dog"⟩, ⟨"ex:Horse"⟩].map .named), .disjointClasses ([⟨"ex:Cat"⟩].map .named),
    .subClassOf (.named ⟨"ex:Dog"⟩) (.named ⟨"ex:Beast"⟩), .classAssertion (.named ⟨"ex:Dog"⟩) (.blank ⟨"rex"⟩)]

def zoo : Ontology :=
  zooStatements.foldl (fun ontology bare => ontology.add (.of bare [])) { id := .named ⟨"ex:zoo"⟩ none, imports := [⟨"ex:base"⟩] }

theorem zoo_taxonomic : zoo.Taxonomic ∧ zoo.Limited 3 := by
  let names : List Iri := [⟨"ex:Animal"⟩, ⟨"ex:Beast"⟩, ⟨"ex:Creature"⟩, ⟨"ex:Cat"⟩, ⟨"ex:Dog"⟩, ⟨"ex:Horse"⟩]
  have named : ∀ bare ∈ zooStatements, ∀ component ∈ bare.components,
      component = .anonymous ⟨"rex"⟩ ∨ ∃ iri ∈ names, component = Component.cls iri := by decide
  have plain : ∀ iri ∈ names, iri.isVocabulary = false ∧ (⟨"ex:zoo"⟩ : Iri) ≠ iri := by decide
  have few : ∀ bare ∈ zooStatements, ∀ count ∈ bare.arity?, count ≤ 3 := by decide
  have taxonomic : ∀ bare ∈ zooStatements, bare.Taxonomic := by
    simp only [zooStatements, List.forall_mem_cons]
    exact ⟨.equivalence _, .disjointness _, .disjointness _, .inclusion _ _, .assertion _ _, List.forall_mem_nil _⟩
  have entity : ∀ bare ∈ zooStatements, ∀ entity, .entity entity ∈ bare.components → ∃ iri ∈ names, entity = ⟨.cls, iri⟩ := by
    intro bare member entity inside
    obtain ⟨iri, listed, same⟩ := (named bare member _ inside).resolve_left (by rintro ⟨⟩)
    exact ⟨iri, listed, Component.entity.inj same⟩
  refine Ontology.Taxonomic.addAll (fun bare member => ⟨taxonomic bare member, ⟨fun own inside => ?_, fun own inside => ?_⟩,
    few bare member⟩) (Ontology.taxonomic_of_empty rfl rfl) (List.forall_mem_nil _)
  · obtain ⟨iri, listed, rfl⟩ := entity bare member own inside
    intro vocabulary
    rw [(plain iri listed).1] at vocabulary
    cases vocabulary
  · obtain ⟨iri, listed, rfl⟩ := entity bare member own inside
    exact fun same => (plain iri listed).2 (Option.some.inj same)

end Samples

/-- The triples may come in the opposite order, and lists of three operands are enough. -/
theorem saving_keeps_answers_zoo : (Samples.zoo.Taxonomic ∧ Samples.zoo.Limited 3) ∧
    Function.Injective Samples.zoo.supply ∧ (∀ number, Samples.zoo.supply number ∉ Samples.zoo.blanks) ∧
    ∃ loaded, loadTriples { strict := true, maxListLength := 3 } 7 none Samples.zoo.triples.reverse = .ok loaded ∧
      loaded.reports = [] ∧ ∃ rename : BlankNode → BlankNode, Function.Injective rename ∧
        Hierarchy.AlikeUpTo rename (.ofOntologies [Samples.zoo]) (.ofOntologies [loaded.ontology]) := by
  have distinct : Function.Injective Samples.zoo.supply := fun _ _ => Supply.avoiding_injective
  have fresh : ∀ number, Samples.zoo.supply number ∉ Samples.zoo.blanks := Supply.avoiding_not_mem _
  have same : ∀ triple, triple ∈ Samples.zoo.triples.reverse ↔ triple ∈ Samples.zoo.written Samples.zoo.supply := fun triple =>
    List.mem_reverse.trans List.mem_eraseDups
  exact ⟨Samples.zoo_taxonomic, distinct, fresh,
    saving_keeps_answers Samples.zoo_taxonomic.1 distinct fresh same rfl Samples.zoo_taxonomic.2 7 none⟩

end Saving

end OwlGraph
