import OwlGraph.Translation.Operand

/-! Reading the annotations that a node carries, and the annotations of those annotations, which
nodes that point back at them carry. -/

namespace OwlGraph

/-- Whether the triple says that its subject stands for a triple, or for which one. -/
def isReification (triple : Triple) : Bool :=
  if triple.predicate = Rdf.type then triple.object == Owl.Axiom || triple.object == Owl.Annotation
  else [Owl.annotatedSource, Owl.annotatedProperty, Owl.annotatedTarget].contains triple.predicate

namespace Session

/-- Whether an assertion of the property is taken for an annotation. -/
def isAnnotationProperty (session : Session) (iri : Iri) : Bool :=
  match session.propertyKind? iri with
  | some kind => kind == .annotating
  | none => !iri.isReserved

/-- Whether the node stands for an axiom or for an annotation. -/
def standsForTriple (session : Session) (node : Node) : Bool :=
  session.store.hasType node Owl.Annotation || session.store.hasType node Owl.Axiom

/-- The triples that are not consumed yet, among these. -/
def unused (session : Session) (rows : List Row) : List Row :=
  rows.filter fun row => !session.store.isConsumed row.id

/-- The nodes that stand for the annotation of the source by the property and value. -/
def reifiers (session : Session) (source : Node) (property : Iri) (value : Term) : List Node :=
  ((session.unused (session.store.withObject source)).filterMap fun row =>
    if row.triple.predicate = Owl.annotatedSource then some row.triple.subject else none).filter fun node =>
      session.standsForTriple node &&
        (session.store.objects node Owl.annotatedProperty).contains property &&
        (session.store.objects node Owl.annotatedTarget).contains value

end Session

namespace Translation

/-- Uses the triples that say which triple the node stands for. -/
def consumeReification (node : Node) : Translation Unit := do
  let session ← get
  consumeAll ((session.store.withSubject node).filter fun row => isReification row.triple)

/-- The annotation that a triple stands for, if its predicate is an annotation property; `inner`
reads the annotations that a node carries. -/
def readNote (inner : Node → Translation (List Annotation)) (row : Row) : Translation (Option Annotation) := do
  let ⟨source, property, object⟩ := row.triple
  unless (← get).isAnnotationProperty property do return none
  learn property .annotationProperty
  let value ← annotationValue object
  consume row.id
  let reifiers := (← get).reifiers source property object
  let notes ← reifiers.mapM fun reifier => nested reifier do
    consumeReification reifier
    inner reifier
  return some ⟨property, value, notes.flatten⟩

/-- Reads the annotations of a node, those of annotations no deeper than the given number. -/
def annotationsWithin : Nat → Node → Translation (List Annotation)
  | 0, node => fail (.selfContained node)
  | depth + 1, node => do
    let session ← get
    let notes ← (session.unused (session.store.withSubject node)).mapM
      (readNote (annotationsWithin depth))
    return notes.filterMap id

/-- The annotations that a node carries. -/
def annotationsOn (node : Node) : Translation (List Annotation) := do
  annotationsWithin ((← get).store.entries.size + 2) node

end Translation

end OwlGraph
