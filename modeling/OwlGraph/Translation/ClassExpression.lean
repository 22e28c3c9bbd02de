import OwlGraph.Translation.Cardinality
import OwlGraph.Translation.DataRange

/-! Reading class expressions. The kind of the property that a restriction is on decides
whether it is one on individuals or on data. -/

namespace OwlGraph

/-- The forms of an anonymous class expression. -/
inductive ClassForm where
  | combination (junction : Junction)
  | complement
  | oneOf
  | objectValues (quantifier : Quantifier)
  | objectHasValue
  | hasSelf
  | objectCardinality (bound : Bound)
  | dataValues (quantifier : Quantifier)
  | dataHasValue
  | dataCardinality (bound : Bound)
deriving DecidableEq

namespace ClassForm

def all : List ClassForm :=
  [.combination .intersection, .combination .union, .complement, .oneOf, .objectValues .some,
    .objectValues .all, .objectHasValue, .hasSelf, .objectCardinality .min, .objectCardinality .max, .objectCardinality .exact,
    .dataValues .some, .dataValues .all, .dataHasValue, .dataCardinality .min, .dataCardinality .max,
    .dataCardinality .exact]

def name : ClassForm → String
  | .combination junction => "Object" ++ junction.name
  | .complement => "ObjectComplementOf"
  | .oneOf => "ObjectOneOf"
  | .objectValues quantifier => "Object" ++ quantifier.name
  | .objectHasValue => "ObjectHasValue"
  | .hasSelf => "ObjectHasSelf"
  | .objectCardinality bound => "Object" ++ bound.name
  | .dataValues quantifier => "Data" ++ quantifier.name
  | .dataHasValue => "DataHasValue"
  | .dataCardinality bound => "Data" ++ bound.name

/-- The sets of predicates that make up the form. A cardinality has two: without and with a
filler. -/
def alternatives : ClassForm → List (List Iri)
  | .combination junction => [[junction.predicate]]
  | .complement => [[Owl.complementOf]]
  | .oneOf => [[Owl.oneOf]]
  | .objectValues quantifier | .dataValues quantifier => [[Owl.onProperty, quantifier.predicate]]
  | .objectHasValue | .dataHasValue => [[Owl.onProperty, Owl.hasValue]]
  | .hasSelf => [[Owl.onProperty, Owl.hasSelf]]
  | .objectCardinality bound =>
    [[Owl.onProperty, bound.predicate], [Owl.onProperty, bound.qualifiedPredicate, Owl.onClass]]
  | .dataCardinality bound =>
    [[Owl.onProperty, bound.predicate], [Owl.onProperty, bound.qualifiedPredicate, Owl.onDataRange]]

/-- The kind of the property of a restriction. -/
def kind : ClassForm → Option PropertyKind
  | .combination _ | .complement | .oneOf => none
  | .objectValues _ | .objectHasValue | .hasSelf | .objectCardinality _ => some .object
  | .dataValues _ | .dataHasValue | .dataCardinality _ => some .data

def pattern (form : ClassForm) : Pattern :=
  ⟨form.name, if form.kind.isSome then Owl.Restriction else Owl.Class, form.alternatives, form.kind⟩

def family : Family ClassForm := ⟨"class expression", all, pattern⟩

end ClassForm

/-- What the filler of a restriction tells about the kind of its property. -/
def Session.restrictionHint? (session : Session) (view : NodeView) : Option PropertyKind :=
  if view.has Owl.hasSelf ∨ view.has Owl.onClass then some .object
  else if view.has Owl.onDataRange then some .data
  else match view.first? Owl.hasValue with
    | some (.literal _) => some .data
    | some (.resource _) => some .object
    | none =>
      ([Owl.someValuesFrom, Owl.allValuesFrom].filterMap view.first?).findSome? fun filler =>
        (session.shape? filler).map fun
          | .cls => .object
          | .dataRange => .data

namespace Translation

/-- The kind of the property that the node restricts, if it restricts one. -/
def restrictionKind (view : NodeView) : Translation (Option PropertyKind) := do
  match view.first? Owl.onProperty with
  | some (.resource (.blank _)) => return some .object
  | some (.resource (.named iri)) => return some (← resolveProperty iri ((← get).restrictionHint? view))
  | _ => return none

/-- The cardinality, and the filler if the restriction is a qualified one. -/
def boundOf {α : Type} (view : NodeView) (bound : Bound) (fillerPredicate : Iri)
    (filler : Term → Translation α) : Translation (UInt32 × Option α) := do
  if view.has bound.qualifiedPredicate then
    let number ← cardinality (← value view bound.qualifiedPredicate)
    return (number, some (← filler (← value view fillerPredicate)))
  else
    return (← cardinality (← value view bound.predicate), none)

/-- Reads a node in the given form; `inner` reads the class expressions it is made of. -/
def readClassExpression (inner : Term → Translation ClassExpression) (view : NodeView) :
    ClassForm → Translation ClassExpression
  | .combination junction => do
    let elements ← operands (← value view junction.predicate)
    return .combination junction (← elements.mapM inner)
  | .complement => do return .complement (← inner (← value view Owl.complementOf))
  | .oneOf => do
    let elements ← operands (← value view Owl.oneOf)
    return .oneOf (← elements.mapM individual)
  | .objectValues quantifier => do
    let property ← propertyExpression (← value view Owl.onProperty)
    return .objectValues quantifier property (← inner (← value view quantifier.predicate))
  | .objectHasValue => do
    let property ← propertyExpression (← value view Owl.onProperty)
    return .objectHasValue property (← individual (← value view Owl.hasValue))
  | .hasSelf => do
    let property ← propertyExpression (← value view Owl.onProperty)
    let truth ← literal (← value view Owl.hasSelf)
    unless truth.value = "true" ∨ truth.value = "1" do fail (.selfNotTrue view.node truth)
    return .hasSelf property
  | .objectCardinality bound => do
    let property ← propertyExpression (← value view Owl.onProperty)
    let (number, filler) ← boundOf view bound Owl.onClass inner
    return .objectCardinality bound number property filler
  | .dataValues quantifier => do
    let property ← dataProperty (← value view Owl.onProperty)
    return .dataValues quantifier property (← dataRange (← value view quantifier.predicate))
  | .dataHasValue => do
    let property ← dataProperty (← value view Owl.onProperty)
    return .dataHasValue property (← literal (← value view Owl.hasValue))
  | .dataCardinality bound => do
    let property ← dataProperty (← value view Owl.onProperty)
    let (number, filler) ← boundOf view bound Owl.onDataRange dataRange
    return .dataCardinality bound number property filler

/-- Reads a class expression nested no deeper than the given number of blank nodes. -/
def classExpressionWithin : Nat → Term → Translation ClassExpression
  | _, .resource (.named iri) => do
    learn iri .cls
    return .named iri
  | _, .literal value => unexpected .classExpression value
  | 0, .resource (.blank node) => fail (.selfContained node)
  | depth + 1, .resource (.blank node) => nested node do
    let plain := (← get).view node
    let view := { plain with propertyKind := ← restrictionKind plain }
    dispatch ClassForm.family view (readClassExpression (classExpressionWithin depth) view)

def classExpression (term : Term) : Translation ClassExpression := do
  classExpressionWithin (← depthLimit) term

end Translation

end OwlGraph
