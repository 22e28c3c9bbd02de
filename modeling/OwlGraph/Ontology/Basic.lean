import OwlGraph.Ontology.Index

/-! Ontologies: a header and a set of annotated axioms. -/

namespace OwlGraph

/-- What names an ontology. Only an ontology with an IRI may have a version. -/
inductive OntologyId where
  | anonymous
  | named (iri : Iri) (version : Option Iri)
deriving DecidableEq, Inhabited

namespace OntologyId

/-- Sets the version of a named ontology; an anonymous one stays as it is. -/
def withVersion (version : Iri) : OntologyId → OntologyId
  | .anonymous => .anonymous
  | .named iri _ => .named iri (some version)

def of (iri version : Option Iri) : OntologyId :=
  match iri with
  | none => .anonymous
  | some iri => .named iri version

def iri? : OntologyId → Option Iri
  | .anonymous => none
  | .named iri _ => some iri

def version? : OntologyId → Option Iri
  | .anonymous => none
  | .named _ version => version

def isAnonymous (id : OntologyId) : Bool := id.iri?.isNone

end OntologyId

structure Ontology where
  id : OntologyId := .anonymous
  /-- The IRI of the document the ontology was read from. -/
  document : Option Iri := none
  imports : List Iri := []
  annotations : List Annotation := []
  index : AxiomIndex := {}

namespace Ontology

def addImport (ontology : Ontology) (iri : Iri) : Ontology :=
  if ontology.imports.contains iri then ontology else { ontology with imports := ontology.imports ++ [iri] }

/-- Adds an ontology annotation as it is, unless an equal one is there. -/
def annotate (ontology : Ontology) (note : Annotation) : Ontology :=
  if ontology.annotations.contains note then ontology
  else { ontology with annotations := ontology.annotations ++ [note] }

def add (ontology : Ontology) (fact : AnnotatedAxiom) : Ontology :=
  { ontology with index := ontology.index.insert fact }

def remove (ontology : Ontology) (fact : AnnotatedAxiom) : Ontology :=
  { ontology with index := ontology.index.remove fact }

def contains (ontology : Ontology) (fact : AnnotatedAxiom) : Bool := ontology.index.contains fact

/-- A change to the axioms. -/
inductive Revision where
  | add (fact : AnnotatedAxiom)
  | remove (fact : AnnotatedAxiom)

/-- Carries out the change and tells whether the set of axioms is another one now. -/
def revise (ontology : Ontology) : Revision → Bool × Ontology
  | .add fact => (!ontology.contains fact, ontology.add fact)
  | .remove fact => (ontology.contains fact, ontology.remove fact)

/-- The axioms that differ from this one at most in their annotations. -/
def versions (ontology : Ontology) (statement : Axiom) : List AnnotatedAxiom :=
  ontology.index.under (.bare statement.normalize)

/-- Whether the axiom is there with any annotations. -/
def containsBare (ontology : Ontology) (statement : Axiom) : Bool :=
  ontology.index.postings.contains (.bare statement.normalize)

/-- Every axiom, in the order of insertion. -/
def axioms (ontology : Ontology) : List AnnotatedAxiom := ontology.index.toList

def axiomCount (ontology : Ontology) : Nat := ontology.index.live

def isEmpty (ontology : Ontology) : Bool := ontology.axiomCount == 0

def ofKind (ontology : Ontology) (kind : AxiomKind) : List AnnotatedAxiom := ontology.index.under (.kind kind)

def logicalAxioms (ontology : Ontology) : List AnnotatedAxiom :=
  ontology.axioms.filter fun fact => fact.kind.isLogical

/-- The axioms in which the entity occurs. -/
def referencing (ontology : Ontology) (entity : Entity) : List AnnotatedAxiom :=
  ontology.index.under (.component (.entity entity))

/-- The axioms in which the IRI occurs as an entity of any kind, or as no entity. -/
def mentioning (ontology : Ontology) (iri : Iri) : List AnnotatedAxiom := ontology.index.mentioning iri

def mentioningAnonymous (ontology : Ontology) (node : BlankNode) : List AnnotatedAxiom :=
  ontology.index.under (.component (.anonymous node))

/-- The annotation assertions about the IRI. -/
def annotationAssertions (ontology : Ontology) (iri : Iri) : List AnnotatedAxiom :=
  (ontology.mentioning iri).filter fun fact => match fact.bare with
    | .annotationAssertion _ subject _ => subject == .named iri
    | _ => false

/-- The declarations of entities with the IRI. -/
def declarations (ontology : Ontology) (iri : Iri) : List AnnotatedAxiom :=
  (ontology.mentioning iri).filter fun fact => match fact.bare with
    | .declaration entity => entity.iri == iri
    | _ => false

def signature (ontology : Ontology) : List Entity := ontology.index.signature

def entities (ontology : Ontology) (kind : EntityKind) : List Iri :=
  (ontology.signature.filter fun entity => entity.kind == kind).map Entity.iri

def anonymousIndividuals (ontology : Ontology) : List BlankNode := ontology.index.anonymous

def containsEntity (ontology : Ontology) (entity : Entity) : Bool :=
  ontology.index.postings.contains (.component (.entity entity))

/-- The two sides of an inclusion between named classes. -/
def inclusion? (fact : AnnotatedAxiom) : Option (Iri × Iri) :=
  match fact.bare with
  | .subClassOf (.named sub) (.named sup) => some (sub, sup)
  | _ => none

/-- The named classes that the class is asserted to be a subclass of. -/
def directSuperClasses (ontology : Ontology) (cls : Iri) : List Iri :=
  (ontology.referencing ⟨.cls, cls⟩).filterMap fun fact =>
    ((inclusion? fact).filter fun pair => pair.1 == cls).map Prod.snd

/-- The named classes that are asserted to be subclasses of the class. -/
def directSubClasses (ontology : Ontology) (cls : Iri) : List Iri :=
  (ontology.referencing ⟨.cls, cls⟩).filterMap fun fact =>
    ((inclusion? fact).filter fun pair => pair.2 == cls).map Prod.fst

/-- Whether both ontologies have the same annotated axioms. -/
def sameAxioms (ontology other : Ontology) : Bool :=
  ontology.axiomCount == other.axiomCount && ontology.axioms.all other.contains

end Ontology

end OwlGraph
