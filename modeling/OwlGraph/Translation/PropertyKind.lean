import OwlGraph.Translation.Role

/-! The kind of a property. The mapping reads many triples in one way for object properties, in
another for data properties and in a third for annotation properties. A kind is known from a
declaration, inferred from a hint, waited for, or in the end taken by default. -/

namespace OwlGraph

inductive PropertyKind where
  | object
  | data
  | annotating
deriving DecidableEq

namespace PropertyKind

def entityKind : PropertyKind → EntityKind
  | .object => .objectProperty
  | .data => .dataProperty
  | .annotating => .annotationProperty

/-- The kinds in the order of preference for an IRI that has several. -/
def all : List PropertyKind := [.object, .data, .annotating]

end PropertyKind

/-- The kind of the property, if any is known. -/
def Session.propertyKind? (session : Session) (iri : Iri) : Option PropertyKind :=
  PropertyKind.all.find? fun kind => session.hasKind iri kind.entityKind

/-- The kind that a term has as a property. An anonymous property is an object property. -/
def Session.termPropertyKind? (session : Session) : Term → Option PropertyKind
  | .resource (.named iri) => session.propertyKind? iri
  | .resource (.blank _) => some .object
  | .literal _ => none

namespace Translation

/-- The kind of the property: known, or learned from the hint. Without either it is waited for,
and when nothing can tell it any more the property is an object property. -/
def resolveProperty (iri : Iri) (hint : Option PropertyKind) : Translation PropertyKind := do
  match (← get).propertyKind? iri, hint with
  | some kind, _ => return kind
  | none, some kind =>
    learn iri kind.entityKind
    return kind
  | none, none =>
    unless (← read).forced do defer iri
    recover (.undeclaredProperty iri)
    learn iri .objectProperty
    return .object

/-- The kind that some properties of one axiom have in common: that of the first whose kind is
known, else that of the first property. -/
def commonKind (members : List Term) : Translation PropertyKind := do
  let session ← get
  match members.findSome? session.termPropertyKind?, members.head? with
  | some kind, _ => return kind
  | none, some (.resource (.named iri)) => resolveProperty iri none
  | none, some other => unexpected .property other
  | none, none => return .object

/-- The common kind of two properties, learned for both. -/
def pairKind (first second : Term) : Translation PropertyKind := do
  let kind ← commonKind [first, second]
  ([first, second].filterMap Term.iri?).forM fun iri => learn iri kind.entityKind
  return kind

/-- The kind of a property that is the subject of an axiom triple. -/
def subjectKind (subject : Node) (hint : Option PropertyKind) : Translation PropertyKind :=
  match subject with
  | .named iri => resolveProperty iri hint
  | .blank _ => return .object

end Translation

end OwlGraph
