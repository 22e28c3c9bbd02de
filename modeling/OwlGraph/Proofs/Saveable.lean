import OwlGraph.Proofs.Components
import OwlGraph.Proofs.FactDrawing

/-! Ontologies that can be saved and loaded again. What the kinds of their entities are is declared,
what is written of one axiom is not taken for another one, and nothing is written in a form that a
load does not read. -/

namespace OwlGraph

/-- The axiom can be written so that it is read again, if lists may have so many elements. -/
structure AnnotatedAxiom.Saveable (limit : Nat) (fact : AnnotatedAxiom) : Prop where
  valid : fact.bare.WellFormed limit
  related : fact.bare.Related
  fitting : fact.bare.Fitting
  /-- What is taken for a part of a construct is read only when something points at it. -/
  seen : fact.bare.isHidden = true → fact.annotations ≠ []
  distinct : Annotation.DistinctEach fact.annotations

namespace Ontology

/-- The entity is built in or declared. -/
def Tells (ontology : Ontology) (entity : Entity) : Prop :=
  entity.kind.isBuiltin entity.iri = true ∨ ∃ fact ∈ ontology.axioms, fact.bare = .declaration entity

/-- The entity is built in or occurs. -/
def Stands (ontology : Ontology) (entity : Entity) : Prop :=
  entity.kind.isBuiltin entity.iri = true ∨ .entity entity ∈ ontology.components

/-- Some rule has the variable. -/
def HasVariable (ontology : Ontology) (iri : Iri) : Prop := ∃ fact ∈ ontology.axioms, iri ∈ fact.bare.variableNames

/-- The ontology can be saved so that it is loaded again. -/
structure Saveable (limit : Nat) (ontology : Ontology) : Prop where
  facts : ∀ fact ∈ ontology.axioms, fact.Saveable limit
  distinct : Annotation.DistinctEach ontology.annotations
  single : ∀ (iri : Iri) (a b : PropertyKind), ontology.Stands ⟨a.entityKind, iri⟩ → ontology.Stands ⟨b.entityKind, iri⟩ → a = b
  apart : ∀ iri : Iri, ontology.Stands ⟨.cls, iri⟩ → ¬ ontology.Stands ⟨.datatype, iri⟩
  plain : ∀ iri : Iri, .annotationProperty iri ∈ ontology.components → iri.isPlain = true
  told : ∀ (kind : PropertyKind) (iri : Iri), .entity ⟨kind.entityKind, iri⟩ ∈ ontology.components → ontology.Tells ⟨kind.entityKind, iri⟩
  defined : ∀ fact ∈ ontology.axioms, ∀ datatype range, fact.bare = .datatypeDefinition datatype range → ontology.Tells ⟨.datatype, datatype⟩
  undeclared : ∀ fact ∈ ontology.axioms, ∀ entity, fact.bare = .declaration entity → entity.kind.isBuiltin entity.iri = false
  constant : ∀ iri, ontology.HasVariable iri → .entity ⟨.namedIndividual, iri⟩ ∉ ontology.components
  /-- Nothing else is called like the ontology. -/
  named : ∀ iri, ontology.id.iri? = some iri → ¬ ontology.HasVariable iri ∧
    ∀ fact ∈ ontology.axioms, ∀ component ∈ fact.bare.components, component.iri? ≠ some iri
  /-- What is annotated is found again by its normal form, and that takes words that can be told apart. -/
  clean : (∃ fact ∈ ontology.axioms, fact.annotations ≠ []) → (∀ fact ∈ ontology.axioms, fact.Clean) ∧
    ∀ node ∈ ontology.blanks, (Leaf.word node.text).Clean
  /-- A triple that stands for an axiom without annotations is not annotated for another one. -/
  separated : ∀ one ∈ ontology.axioms, ∀ two ∈ ontology.axioms, one.annotations = [] → two.annotations ≠ [] →
    ∀ piece ∈ one.bare.pieces, ∀ other ∈ two.bare.pieces, other.isGathered = false → piece.normalize ≠ other.normalize

variable {ontology : Ontology} {limit : Nat} {fact : AnnotatedAxiom}

theorem mem_components_of_bare (member : fact ∈ ontology.axioms) {component : Component} (inside : component ∈ fact.bare.components) :
    component ∈ ontology.components :=
  List.mem_append_left _ (List.mem_flatMap.mpr ⟨fact, member, List.mem_append_left _ inside⟩)

theorem mem_components_of_note (member : fact ∈ ontology.axioms) {component : Component}
    (inside : component ∈ Annotation.componentsEach fact.annotations) : component ∈ ontology.components := by
  refine List.mem_append_left _ (List.mem_flatMap.mpr ⟨fact, member, List.mem_append_right _ ?_⟩)
  rwa [ Annotation.componentsEach_eq] at inside

theorem mem_components_of_heading {component : Component} (inside : component ∈ Annotation.componentsEach ontology.annotations) :
    component ∈ ontology.components := by
  refine List.mem_append_right _ ?_
  rwa [ Annotation.componentsEach_eq] at inside

theorem mem_blanks {node : BlankNode} : node ∈ ontology.blanks ↔ .anonymous node ∈ ontology.components := by
  rw [blanks, List.mem_filterMap]
  constructor
  · rintro ⟨component, member, same⟩
    cases component with
    | anonymous => rwa [← Option.some.inj same]
    | entity | iri => cases same
  · exact fun member => ⟨_, member, rfl⟩

namespace Saveable

variable (saveable : ontology.Saveable limit)
include saveable

theorem unpointing {components : List Component} (subset : ∀ component ∈ components, component ∈ ontology.components) :
    Rendering.Unpointing components := by
  have known : ∀ predicate ∈ pointerPredicates, predicate ∈ Role.predicates := by
    simp [pointerPredicates, Role.predicates, Role.structuralPredicates]
  rintro ⟨kind, iri⟩ member (rfl : kind = _) inside
  exact Iri.isPlain_not_predicate (saveable.plain iri (subset _ member)) (known iri inside)

/-- Every axiom can be written if no fresh node is one of the individuals. -/
theorem drawable {supply : Nat → BlankNode} (fresh : ∀ number, supply number ∉ ontology.blanks) (member : fact ∈ ontology.axioms) :
    Rendering.Drawable supply limit fact where
  valid := (saveable.facts fact member).valid
  related := (saveable.facts fact member).related
  foreign _ component number same := fresh number (mem_blanks.mpr (same ▸ mem_components_of_bare member component))
  unpointing := saveable.unpointing fun _ => mem_components_of_note member
  distinct := (saveable.facts fact member).distinct

end Saveable

end Ontology

namespace Iri

/-- No IRI is built in as a property of two kinds. -/
theorem single_builtin {iri : Iri} {a b : PropertyKind} (first : a.entityKind.isBuiltin iri = true)
    (second : b.entityKind.isBuiltin iri = true) : a = b := by
  have objects : ∀ iri ∈ [Owl.topObjectProperty, Owl.bottomObjectProperty], iri.isBuiltinDataProperty = false := by decide
  have notes : ∀ iri ∈ builtinAnnotationProperties, iri.isBuiltinObjectProperty = false ∧ iri.isBuiltinDataProperty = false := by
    decide
  have object : iri.isBuiltinObjectProperty = true → iri.isBuiltinDataProperty = false := fun built =>
    objects iri (by simpa [isBuiltinObjectProperty] using built)
  have note : iri.isBuiltinAnnotationProperty = true → iri.isBuiltinObjectProperty = false ∧ iri.isBuiltinDataProperty = false :=
    fun built => notes iri (by simpa [isBuiltinAnnotationProperty] using built)
  cases a <;> cases b <;> first
    | rfl
    | (simp only [PropertyKind.entityKind, EntityKind.isBuiltin] at first second
       simp [first, second] at object note)

theorem isVocabulary_of_isBuiltinDatatype {iri : Iri} (datatype : iri.isBuiltinDatatype = true) : iri.isVocabulary = true := by
  have rdf (name : String) : (Rdf.iri name).isVocabulary = true :=
    isVocabulary_of_inNamespace (by simp) (inNamespace_append _ name)
  have rdfs (name : String) : (Rdfs.iri name).isVocabulary = true :=
    isVocabulary_of_inNamespace (by simp) (inNamespace_append _ name)
  have owl (name : String) : (Owl.iri name).isVocabulary = true :=
    isVocabulary_of_inNamespace (by simp) (inNamespace_append _ name)
  have listed : ∀ iri ∈ builtinDatatypes, iri.isVocabulary = true := by
    simp only [builtinDatatypes, List.forall_mem_cons]
    exact ⟨rdfs _, rdf _, rdf _, owl _, owl _, rdf _, List.forall_mem_nil _⟩
  rw [isBuiltinDatatype, Bool.or_eq_true] at datatype
  rcases datatype with inside | member
  · exact isVocabulary_of_inNamespace (by simp) inside
  · exact listed iri (by simpa using member)

theorem not_datatype_of_class {iri : Iri} (cls : iri.isBuiltinClass = true) : iri.isBuiltinDatatype = false := by
  have apart : ∀ iri ∈ [Owl.Thing, Owl.Nothing], iri.isBuiltinDatatype = false := by decide
  exact apart iri (by simpa [isBuiltinClass] using cls)

end Iri

theorem Annotation.property_mem_components {notes : List Annotation} {note : Annotation} (member : note ∈ notes) :
    .annotationProperty note.property ∈ componentsEach notes := by
  rw [componentsEach_eq]
  obtain ⟨property, value, inner⟩ := note
  exact List.mem_flatMap.mpr ⟨_, member, List.mem_cons_self⟩

/-- The words of a piece are those of the axiom. -/
theorem Axiom.clean_of_piece {bare piece : Axiom} (has : bare.HasPiece piece) (clean : bare.Clean) : piece.Clean := by
  cases has with
  | whole => exact clean
  | equivalentClasses first second | disjointClasses first second | sameIndividual first second | differentIndividuals first second =>
    exact List.forall_mem_cons.mpr ⟨clean _ first, List.forall_mem_singleton.mpr (clean _ second)⟩
  | _ => trivial

/-- Renaming keeps apart the normal forms of clean axioms of which it keeps the anonymous individuals apart. -/
theorem Axiom.normalize_of_rename {f : BlankNode → BlankNode} (labels : CleanLabels f) {nodes : BlankNode → Prop}
    (apart : ∀ a b, nodes a → nodes b → f a = f b → a = b) (words : ∀ node, nodes node → (Leaf.word node.text).Clean)
    {first second : Axiom} (clean : first.Clean) (neat : second.Clean)
    (left : ∀ blank, .anonymous blank ∈ first.components → nodes blank) (right : ∀ blank, .anonymous blank ∈ second.components → nodes blank)
    (same : (first.rename f).normalize = (second.rename f).normalize) : first.normalize = second.normalize := by
  have inside (bare : Axiom) (known : ∀ blank, .anonymous blank ∈ bare.components → nodes blank) :
      ∀ blank, .anonymous blank ∈ (AnnotatedAxiom.of bare []).components → nodes blank := by
    intro blank member
    refine known blank ?_
    simpa using AnnotatedAxiom.components_of bare [] member
  have whole (bare : Axiom) (clean : bare.Clean) : (AnnotatedAxiom.of bare []).rename f = .of (bare.rename f) [] := by
    rw [AnnotatedAxiom.rename_eq_of]
    have none : Annotation.canonical [] = [] := Annotation.canonical_eq_nil.mpr rfl
    simp only [AnnotatedAxiom.of, none, List.map_nil, Axiom.normalize_rename labels clean]
  have equal := AnnotatedAxiom.rename_injective labels apart words (AnnotatedAxiom.clean_of clean (List.forall_mem_nil _))
    (AnnotatedAxiom.clean_of neat (List.forall_mem_nil _)) (AnnotatedAxiom.normal_of first []) (AnnotatedAxiom.normal_of second [])
    (inside first left) (inside second right) (by rw [whole first clean, whole second neat, AnnotatedAxiom.of, AnnotatedAxiom.of, same])
  exact congrArg AnnotatedAxiom.bare equal

end OwlGraph
