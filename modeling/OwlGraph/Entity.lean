import OwlGraph.Canonical
import OwlGraph.Vocabulary

/-! Entities: an IRI in one of the six roles OWL 2 knows. One IRI may play several roles
and is then several entities. -/

namespace OwlGraph

inductive EntityKind where
  | cls
  | objectProperty
  | dataProperty
  | annotationProperty
  | datatype
  | namedIndividual
deriving DecidableEq, Hashable

namespace EntityKind

def all : List EntityKind :=
  [.cls, .objectProperty, .dataProperty, .annotationProperty, .datatype, .namedIndividual]

def name : EntityKind → String
  | .cls => "Class"
  | .objectProperty => "ObjectProperty"
  | .dataProperty => "DataProperty"
  | .annotationProperty => "AnnotationProperty"
  | .datatype => "Datatype"
  | .namedIndividual => "NamedIndividual"

def ofName? (name : String) : Option EntityKind := all.find? fun kind => kind.name == name

/-- Whether OWL 2 itself defines the IRI as an entity of the kind. -/
def isBuiltin : EntityKind → Iri → Bool
  | .cls, iri => iri.isBuiltinClass
  | .objectProperty, iri => iri.isBuiltinObjectProperty
  | .dataProperty, iri => iri.isBuiltinDataProperty
  | .annotationProperty, iri => iri.isBuiltinAnnotationProperty
  | .datatype, iri => iri.isBuiltinDatatype
  | .namedIndividual, _ => false

end EntityKind

structure Entity where
  kind : EntityKind
  iri : Iri
deriving DecidableEq, Hashable

def Entity.text (entity : Entity) : String := entity.kind.name ++ "(" ++ entity.iri.text ++ ")"

/-- Entities in the order of their kinds, those of one kind in the order of their IRIs. -/
def Entity.le (a b : Entity) : Bool :=
  a.kind.ctorIdx < b.kind.ctorIdx || a.kind.ctorIdx == b.kind.ctorIdx && Canonical.textLe a.iri.value b.iri.value

/-- An individual is the node that stands for it. -/
abbrev Individual := Node

end OwlGraph
