import OwlGraph.Expression.Mapping
import OwlGraph.Rule
import OwlGraph.Translation.Pattern

/-! The operands of axioms and expressions that are no expressions of classes or data:
properties, individuals, literals and the arguments of rule atoms. Reading one tells the kind
of its IRI. -/

namespace OwlGraph.Translation

/-- The IRI of a term that should be named. -/
def named (expectation : Expectation) (term : Term) : Translation Iri :=
  match term.iri? with
  | some iri => return iri
  | none => unexpected expectation term

/-- A named object property, or a blank node with one as its inverse. -/
def propertyExpression : Term → Translation PropertyExpression
  | .resource (.named iri) => do
    learn iri .objectProperty
    return .named iri
  | .resource (.blank node) => do
    match ← singleObject node Owl.inverseOf with
    | .resource (.named iri) =>
      learn iri .objectProperty
      return .inverse iri
    | other => unexpected .namedObjectProperty other
  | term => unexpected .objectPropertyExpression term

def dataProperty (term : Term) : Translation Iri := do
  let iri ← named .dataProperty term
  learn iri .dataProperty
  return iri

/-- The individual that a node stands for. -/
def individualOf (node : Node) : Translation Individual := do
  let session ← get
  return node.rename (session.anonymous (← read).number)

def individual (term : Term) : Translation Individual :=
  match term.node? with
  | some node => individualOf node
  | none => unexpected .individual term

def literal (term : Term) : Translation Literal :=
  match term.literal? with
  | some literal => return literal
  | none => unexpected .literal term

/-- The value of an annotation, its blank nodes read as anonymous individuals. -/
def annotationValue (term : Term) : Translation Term := do
  let session ← get
  return term.rename (session.anonymous (← read).number)

/-- The variable that a term stands for, if it stands for one. -/
def asVariable (term : Term) : Translation (Option Iri) := do
  let session ← get
  return term.iri?.filter session.ruleVariables.contains

def individualArgument (term : Term) : Translation IndividualArgument := do
  match ← asVariable term with
  | some iri => return .variable iri
  | none => return .individual (← individual term)

def dataArgument (term : Term) : Translation DataArgument := do
  match ← asVariable term with
  | some iri => return .variable iri
  | none => return .literal (← literal term)

end OwlGraph.Translation
