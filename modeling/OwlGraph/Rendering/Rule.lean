import OwlGraph.Rendering.Expression
import OwlGraph.Rule

/-! Writing rules: every atom is a node of the type of its form. A variable is declared wherever
it occurs. -/

namespace OwlGraph.Rendering

def variableTerm (iri : Iri) : Rendering Term := do
  write iri Rdf.type Swrl.Variable
  return iri

def individualArgument : IndividualArgument → Rendering Term
  | .variable iri => variableTerm iri
  | .individual node => return node

def dataArgument : DataArgument → Rendering Term
  | .variable iri => variableTerm iri
  | .literal value => return value

/-- An atom of a predicate and one argument. -/
def unaryAtom (type predicate : Iri) (operand : Node) (argument : Term) : Rendering Node := do
  let node ← instanceOf type
  write node predicate operand
  write node Swrl.argument1 argument
  return node

/-- An atom of two arguments. -/
def binaryAtom (type : Iri) (first second : Term) : Rendering Node := do
  let node ← instanceOf type
  write node Swrl.argument1 first
  write node Swrl.argument2 second
  return node

/-- An atom of a property and two arguments. -/
def propertyAtom (type : Iri) (property : Node) (first second : Term) : Rendering Node := do
  let node ← binaryAtom type first second
  write node Swrl.propertyPredicate property
  return node

def atom : Atom → Rendering Node
  | .cls expression argument => do
    unaryAtom Swrl.ClassAtom Swrl.classPredicate (← classExpression expression) (← individualArgument argument)
  | .dataRange range argument => do
    unaryAtom Swrl.DataRangeAtom Swrl.dataRange (← dataRange range) (← dataArgument argument)
  | .objectProperty p subject object => do
    propertyAtom Swrl.IndividualPropertyAtom (← property p) (← individualArgument subject)
      (← individualArgument object)
  | .dataProperty p subject object => do
    propertyAtom Swrl.DatavaluedPropertyAtom p (← individualArgument subject) (← dataArgument object)
  | .sameIndividual first second => do
    binaryAtom Swrl.SameIndividualAtom (← individualArgument first) (← individualArgument second)
  | .differentIndividuals first second => do
    binaryAtom Swrl.DifferentIndividualsAtom (← individualArgument first) (← individualArgument second)
  | .builtin predicate arguments => do
    let head ← list (← arguments.mapM dataArgument)
    let node ← instanceOf Swrl.BuiltinAtom
    write node Swrl.builtin predicate
    write node Swrl.arguments head
    return node

def atoms (atoms : List Atom) : Rendering Term := do
  list (← atoms.mapM fun item => return .resource (← atom item))

def rule (rule : Rule) : Rendering Node := do
  let body ← atoms rule.body
  let head ← atoms rule.head
  let node ← instanceOf Swrl.Imp
  write node Swrl.body body
  write node Swrl.head head
  return node

end OwlGraph.Rendering
