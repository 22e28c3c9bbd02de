import OwlGraph.Translation.PropertyKind

/-! Patterns: which triples of a node make up which construct. A family of patterns covers the
constructs that one kind of expression can be. A node that fits a pattern strictly has exactly
its triples; one that fits it leniently has at least them, which only a lax load accepts. -/

namespace OwlGraph

/-- The triples that describe a node, without the class axioms it is the subject of. -/
structure NodeView where
  node : Node
  rows : List Row
  /-- The kind of the property that the construct is about, if it is about one. -/
  propertyKind : Option PropertyKind := none

namespace NodeView

def triples (view : NodeView) : List Triple := view.rows.map Row.triple

def objects (view : NodeView) (predicate : Iri) : List Term :=
  (view.triples.filter fun triple => triple.predicate == predicate).map Triple.object

def count (view : NodeView) (predicate : Iri) : Nat := (view.objects predicate).length

def has (view : NodeView) (predicate : Iri) : Bool := !(view.objects predicate).isEmpty

def first? (view : NodeView) (predicate : Iri) : Option Term := (view.objects predicate).head?

/-- The named types of the node. -/
def types (view : NodeView) : List Iri := (view.objects Rdf.type).filterMap Term.iri?

end NodeView

/-- The triples of a node that describe it as part of a construct. -/
def Session.view (session : Session) (node : Node) : NodeView :=
  ⟨node, (session.store.withSubject node).filter fun row =>
    !Role.classAxiomPredicates.contains row.triple.predicate, none⟩

/-- A type and sets of predicates, any one of which makes up the construct. -/
structure Pattern where
  name : String
  type : Iri
  alternatives : List (List Iri)
  /-- The kind of property the construct is about, if it is about one. -/
  kind : Option PropertyKind := none

namespace Pattern

def fitsKind (pattern : Pattern) (view : NodeView) : Bool :=
  pattern.kind.isNone || pattern.kind == view.propertyKind

/-- One triple for the type, one for every predicate of an alternative, and no others. -/
def fits (pattern : Pattern) (view : NodeView) : Bool :=
  view.types == [pattern.type] && view.count Rdf.type == 1 && pattern.fitsKind view &&
    pattern.alternatives.any fun predicates =>
      predicates.all (fun predicate => view.count predicate == 1) &&
        view.triples.all fun triple =>
          triple.predicate == Rdf.type || predicates.contains triple.predicate

/-- Every predicate of an alternative, whatever else there is. -/
def fitsLeniently (pattern : Pattern) (view : NodeView) : Bool :=
  pattern.fitsKind view && pattern.alternatives.any fun predicates => predicates.all view.has

end Pattern

/-- The forms of one kind of expression, in the order in which their patterns are tried. -/
structure Family (Form : Type) where
  name : String
  forms : List Form
  pattern : Form → Pattern

namespace Translation

/-- The first form whose pattern the node fits, strictly if it fits any so. -/
def selectForm {Form : Type} (family : Family Form) (view : NodeView) : Translation Form := do
  match family.forms.find? fun form => (family.pattern form).fits view with
  | some form => return form
  | none =>
    match family.forms.filter fun form => (family.pattern form).fitsLeniently view with
    | [] =>
      let names := family.forms.map fun form => (family.pattern form).name
      fail (.noPattern view.node family.name names view.triples)
    | form :: others =>
      recover (.lenient view.node family.name (family.pattern form).name
        (others.map fun other => (family.pattern other).name) view.triples)
      return form

/-- Reads the node in the form that its triples select, and then uses them all. -/
def dispatch {Form α : Type} (family : Family Form) (view : NodeView) (readForm : Form → Translation α) :
    Translation α := do
  let form ← selectForm family view
  let result ← readForm form
  consumeAll view.rows
  return result

/-- The value of the predicate, of which there should be one. -/
def value (view : NodeView) (predicate : Iri) : Translation Term := do
  match view.objects predicate with
  | [] => fail (.noValue view.node predicate)
  | [object] => return object
  | object :: _ =>
    recover (.severalValues view.node predicate object
      (view.triples.filter fun triple => triple.predicate == predicate))
    return object

/-- The value of the predicate on the node, whose triples it uses. -/
def singleObject (node : Node) (predicate : Iri) : Translation Term := do
  let view := (← get).view node
  let object ← value view predicate
  consumeAll (view.rows.filter fun row => row.triple.predicate == predicate)
  return object

end Translation

end OwlGraph
