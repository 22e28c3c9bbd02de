import OwlGraph.Axiom.Mapping
import OwlGraph.Expression.Mapping
import OwlGraph.Translation.Role

/-! Which predicates play which role. These are facts about finitely many names, each checked by
evaluation. -/

namespace OwlGraph

namespace Role

/-- The predicates by which constructs hang together. -/
def constructPredicates : List Iri := Rdf.type :: Swrl.arguments :: structuralPredicates

@[simp] theorem expression_construct : Rdf.type ∈ constructPredicates ∧ Rdf.first ∈ constructPredicates ∧
    Rdf.rest ∈ constructPredicates ∧ Owl.onProperty ∈ constructPredicates ∧ Owl.onClass ∈ constructPredicates ∧
    Owl.onDataRange ∈ constructPredicates ∧ Owl.hasValue ∈ constructPredicates ∧
    Owl.hasSelf ∈ constructPredicates ∧ Owl.complementOf ∈ constructPredicates ∧ Owl.oneOf ∈ constructPredicates ∧
    Owl.datatypeComplementOf ∈ constructPredicates ∧ Owl.onDatatype ∈ constructPredicates ∧
    Owl.withRestrictions ∈ constructPredicates ∧ Owl.inverseOf ∈ constructPredicates := by
  simp [constructPredicates, structuralPredicates]

@[simp] theorem atom_construct : Swrl.classPredicate ∈ constructPredicates ∧ Swrl.dataRange ∈ constructPredicates ∧
    Swrl.propertyPredicate ∈ constructPredicates ∧ Swrl.argument1 ∈ constructPredicates ∧
    Swrl.argument2 ∈ constructPredicates ∧ Swrl.builtin ∈ constructPredicates ∧
    Swrl.arguments ∈ constructPredicates := by
  simp [constructPredicates, structuralPredicates]

@[simp] theorem gathering_structural : Owl.members ∈ structuralPredicates ∧
    Owl.sourceIndividual ∈ structuralPredicates ∧ Owl.assertionProperty ∈ structuralPredicates ∧
    Owl.targetIndividual ∈ structuralPredicates ∧ Owl.targetValue ∈ structuralPredicates ∧
    Swrl.body ∈ structuralPredicates ∧ Swrl.head ∈ structuralPredicates := by
  simp [structuralPredicates]

theorem construct_not_classAxiom : ∀ predicate ∈ constructPredicates, predicate ∉ classAxiomPredicates := by
  decide +kernel

theorem facet_not_classAxiom {facet : Iri} (isFacet : facet.isFacet = true) : facet ∉ classAxiomPredicates := by
  have apart : ∀ facet ∈ Iri.facets, facet ∉ classAxiomPredicates := by decide
  exact apart facet (by simpa [Iri.isFacet] using isFacet)

@[simp] theorem junction_construct (junction : Junction) : junction.predicate ∈ constructPredicates := by
  cases junction <;> simp [constructPredicates, structuralPredicates, Junction.predicate]

@[simp] theorem quantifier_construct (quantifier : Quantifier) : quantifier.predicate ∈ constructPredicates := by
  cases quantifier <;> simp [constructPredicates, structuralPredicates, Quantifier.predicate]

@[simp] theorem bound_construct (bound : Bound) : bound.predicate ∈ constructPredicates := by
  cases bound <;> simp [constructPredicates, structuralPredicates, Bound.predicate]

@[simp] theorem qualified_construct (bound : Bound) : bound.qualifiedPredicate ∈ constructPredicates := by
  cases bound <;> simp [constructPredicates, structuralPredicates, Bound.qualifiedPredicate]

/-- The predicates that say for which triple a node stands. -/
def pointerPredicates : List Iri := [Owl.annotatedSource, Owl.annotatedProperty, Owl.annotatedTarget]

/-- The predicates inside an expression, a list, an atom or a node that gathers operands. -/
def innerPredicates : List Iri := structuralPredicates.take 25 ++ structuralPredicates.drop 28

theorem mem_structural {predicate : Iri} :
    predicate ∈ structuralPredicates ↔ predicate ∈ innerPredicates ∨ predicate ∈ pointerPredicates := by
  have parts : structuralPredicates = structuralPredicates.take 25 ++ (pointerPredicates ++ structuralPredicates.drop 28) := rfl
  rw [parts, innerPredicates, List.mem_append, List.mem_append, List.mem_append, or_left_comm, or_comm]

@[simp] theorem construct_inner : Rdf.first ∈ innerPredicates ∧ Rdf.rest ∈ innerPredicates ∧
    Owl.onProperty ∈ innerPredicates ∧ Owl.onClass ∈ innerPredicates ∧ Owl.onDataRange ∈ innerPredicates ∧
    Owl.hasValue ∈ innerPredicates ∧ Owl.hasSelf ∈ innerPredicates ∧ Owl.complementOf ∈ innerPredicates ∧
    Owl.oneOf ∈ innerPredicates ∧ Owl.datatypeComplementOf ∈ innerPredicates ∧ Owl.onDatatype ∈ innerPredicates ∧
    Owl.withRestrictions ∈ innerPredicates ∧ Owl.inverseOf ∈ innerPredicates ∧ Swrl.classPredicate ∈ innerPredicates ∧
    Swrl.dataRange ∈ innerPredicates ∧ Swrl.propertyPredicate ∈ innerPredicates ∧ Swrl.argument1 ∈ innerPredicates ∧
    Swrl.argument2 ∈ innerPredicates ∧ Swrl.builtin ∈ innerPredicates ∧ Owl.members ∈ innerPredicates ∧
    Owl.sourceIndividual ∈ innerPredicates ∧ Owl.assertionProperty ∈ innerPredicates ∧
    Owl.targetIndividual ∈ innerPredicates ∧ Owl.targetValue ∈ innerPredicates ∧ Swrl.body ∈ innerPredicates ∧
    Swrl.head ∈ innerPredicates := by
  simp [innerPredicates, structuralPredicates]

@[simp] theorem junction_inner (junction : Junction) : junction.predicate ∈ innerPredicates := by
  cases junction <;> simp [innerPredicates, structuralPredicates, Junction.predicate]

@[simp] theorem quantifier_inner (quantifier : Quantifier) : quantifier.predicate ∈ innerPredicates := by
  cases quantifier <;> simp [innerPredicates, structuralPredicates, Quantifier.predicate]

@[simp] theorem bound_inner (bound : Bound) : bound.predicate ∈ innerPredicates ∧ bound.qualifiedPredicate ∈ innerPredicates := by
  cases bound <;> simp [innerPredicates, structuralPredicates, Bound.predicate, Bound.qualifiedPredicate]

/-- The types of nodes that are part of a rule. -/
def atomTypes : List Iri :=
  [Swrl.ClassAtom, Swrl.DataRangeAtom, Swrl.IndividualPropertyAtom, Swrl.DatavaluedPropertyAtom,
    Swrl.SameIndividualAtom, Swrl.DifferentIndividualsAtom, Swrl.BuiltinAtom]

/-- The types of nodes that point at a triple. -/
def pointerTypes : List Iri := [Owl.Axiom, Owl.Annotation]

theorem structural_not_candidate : ∀ predicate ∈ structuralPredicates, predicate ≠ Rdf.type ∧
    predicate ∉ classAxiomPredicates ∧ (predicate ∈ propertyAxiomPredicates → predicate = Owl.inverseOf) := by
  decide +kernel

theorem arguments_not_candidate : Swrl.arguments ∉ classAxiomPredicates ∧ Swrl.arguments ∉ propertyAxiomPredicates ∧
    Swrl.arguments ∉ definitionPredicates ∧ Swrl.arguments ≠ Owl.inverseOf ∧ Swrl.arguments ≠ Rdf.type ∧
    Swrl.arguments ∉ structuralPredicates := by
  decide

theorem facet_not_candidate : ∀ facet ∈ Iri.facets, facet ≠ Rdf.type ∧ facet ∉ classAxiomPredicates ∧
    facet ∉ propertyAxiomPredicates ∧ facet ∉ definitionPredicates ∧ facet ≠ Owl.inverseOf ∧ facet ∉ structuralPredicates ∧
    facet.isReserved = true ∧ facet.isBuiltinAnnotationProperty = false := by
  decide +kernel

theorem partType_not_axiomType : ∀ type ∈ constructTypes ++ atomTypes ++ pointerTypes, type ∉ axiomTypes := by
  decide +kernel

/-- The predicates that the mapping gives a meaning of its own. -/
def predicates : List Iri :=
  [Rdf.type, Owl.versionIRI, Owl.imports, Swrl.arguments] ++ classAxiomPredicates ++ propertyAxiomPredicates ++
    definitionPredicates ++ structuralPredicates

/-- The types that the mapping gives a meaning of its own. -/
def types : List Iri :=
  [Owl.Ontology, Swrl.Variable, Rdfs.Class, Rdf.Property, Rdf.List] ++ specialTypes ++ constructTypes ++
    EntityKind.all.map EntityKind.type ++ Characteristic.all.map Characteristic.type

end Role

namespace Iri

/-- Whether the IRI lies in one of the namespaces that the mapping draws its names from. -/
def isVocabulary (iri : Iri) : Bool := iri.isReserved || iri.inNamespace Swrl.namespaceIri

/-- Whether the IRI may be the predicate of an assertion. -/
def isPlain (iri : Iri) : Bool := !iri.isVocabulary || iri.isBuiltinAnnotationProperty

theorem inNamespace_append (space name : String) : (⟨space ++ name⟩ : Iri).inNamespace space = true := by
  simp [inNamespace]

theorem isVocabulary_of_inNamespace {iri : Iri} {space : String}
    (member : space ∈ [Rdf.namespaceIri, Rdfs.namespaceIri, Xsd.namespaceIri, Owl.namespaceIri, Swrl.namespaceIri])
    (inside : iri.inNamespace space = true) : iri.isVocabulary = true := by
  rw [isVocabulary, isReserved]
  simp only [List.mem_cons, List.not_mem_nil, or_false] at member
  rcases member with rfl | rfl | rfl | rfl | rfl <;> simp [inside]

private theorem vocabulary_rdf (name : String) : (Rdf.iri name).isVocabulary = true :=
  isVocabulary_of_inNamespace (by simp) (inNamespace_append _ name)

private theorem vocabulary_rdfs (name : String) : (Rdfs.iri name).isVocabulary = true :=
  isVocabulary_of_inNamespace (by simp) (inNamespace_append _ name)

private theorem vocabulary_owl (name : String) : (Owl.iri name).isVocabulary = true :=
  isVocabulary_of_inNamespace (by simp) (inNamespace_append _ name)

private theorem vocabulary_swrl (name : String) : (Swrl.iri name).isVocabulary = true :=
  isVocabulary_of_inNamespace (by simp) (inNamespace_append _ name)

section Names

-- A name is told by its namespace, without comparing the texts of two namespaces.
attribute [local irreducible] Rdf.iri Rdfs.iri Owl.iri Swrl.iri isVocabulary

theorem isVocabulary_predicate : ∀ predicate ∈ Role.predicates, predicate.isVocabulary = true := by
  unfold Role.predicates Role.classAxiomPredicates Role.propertyAxiomPredicates Role.definitionPredicates
    Role.structuralPredicates
  simp only [List.forall_mem_append]
  repeat' first
    | exact List.forall_mem_nil _
    | refine And.intro ?_ ?_
    | refine List.forall_mem_cons.mpr ⟨?_, ?_⟩
    | exact vocabulary_owl _
    | exact vocabulary_swrl _
    | exact vocabulary_rdfs _
    | exact vocabulary_rdf _

theorem isVocabulary_type : ∀ type ∈ Role.types, type.isVocabulary = true := by
  unfold Role.types Role.specialTypes Role.axiomTypes Role.constructTypes EntityKind.all Characteristic.all
  simp only [List.forall_mem_append, List.map_cons, List.map_nil]
  repeat' first
    | exact List.forall_mem_nil _
    | refine And.intro ?_ ?_
    | refine List.forall_mem_cons.mpr ⟨?_, ?_⟩
    | exact vocabulary_owl _
    | exact vocabulary_swrl _
    | exact vocabulary_rdfs _
    | exact vocabulary_rdf _

end Names

/-- The mapping reads nothing but assertions and annotations from a plain predicate. -/
theorem isPlain_not_predicate {iri : Iri} (plain : iri.isPlain = true) : iri ∉ Role.predicates := by
  have apart : ∀ iri ∈ builtinAnnotationProperties, iri ∉ Role.predicates := by decide +kernel
  intro member
  rw [isPlain, isVocabulary_predicate iri member] at plain
  exact apart iri (by simpa [isBuiltinAnnotationProperty] using plain) member

/-- What may be a class of its own is no type that the mapping knows. -/
theorem not_type_of_class {iri : Iri} (own : iri.isVocabulary = true → iri.isBuiltinClass = true) :
    iri ∉ Role.types := by
  have apart : ∀ iri ∈ [Owl.Thing, Owl.Nothing], iri ∉ Role.types := by decide
  intro member
  exact apart iri (by simpa [isBuiltinClass] using own (isVocabulary_type iri member)) member

end Iri

end OwlGraph
