import OwlGraph.Axiom.Kind
import OwlGraph.Entity

/-! The types by which a triple declares an entity or gives a property a characteristic. Reading
and writing go by the same ones. -/

namespace OwlGraph

namespace EntityKind

/-- The type that declares an entity of the kind. -/
def type : EntityKind → Iri
  | .cls => Owl.Class
  | .objectProperty => Owl.ObjectProperty
  | .dataProperty => Owl.DatatypeProperty
  | .annotationProperty => Owl.AnnotationProperty
  | .datatype => Rdfs.Datatype
  | .namedIndividual => Owl.NamedIndividual

/-- The kind of entity that a type declares. -/
def ofType? (type : Iri) : Option EntityKind := all.find? fun kind => kind.type == type

theorem ofType?_type (kind : EntityKind) : ofType? kind.type = some kind := by
  cases kind <;> decide

theorem type_of_ofType? {type : Iri} {kind : EntityKind} (declared : ofType? type = some kind) :
    kind.type = type := by
  simpa using List.find?_some declared

end EntityKind

namespace Characteristic

def type : Characteristic → Iri
  | .functional => Owl.FunctionalProperty
  | .inverseFunctional => Owl.InverseFunctionalProperty
  | .symmetric => Owl.SymmetricProperty
  | .asymmetric => Owl.AsymmetricProperty
  | .transitive => Owl.TransitiveProperty
  | .reflexive => Owl.ReflexiveProperty
  | .irreflexive => Owl.IrreflexiveProperty

/-- The characteristics that only an object property can have. A data property may be functional
too. -/
def ofObjects : List Characteristic :=
  [.inverseFunctional, .symmetric, .asymmetric, .transitive, .reflexive, .irreflexive]

/-- The characteristic that a type gives to its subject, which must then be an object property. -/
def ofType? (type : Iri) : Option Characteristic := ofObjects.find? fun trait => trait.type == type

theorem ofType?_type : ∀ trait ∈ ofObjects, ofType? trait.type = some trait := by decide

theorem ofType?_functional : ofType? (type .functional) = none := by decide

end Characteristic

end OwlGraph
