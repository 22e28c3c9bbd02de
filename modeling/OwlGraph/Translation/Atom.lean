import OwlGraph.Translation.ClassExpression

/-! Reading the atoms of rules. -/

namespace OwlGraph

inductive AtomForm where
  | cls
  | dataRange
  | objectProperty
  | dataProperty
  | sameIndividual
  | differentIndividuals
  | builtin
deriving DecidableEq

namespace AtomForm

def all : List AtomForm :=
  [.cls, .dataRange, .objectProperty, .dataProperty, .sameIndividual, .differentIndividuals, .builtin]

def pattern : AtomForm → Pattern
  | .cls => ⟨"ClassAtom", Swrl.ClassAtom, [[Swrl.classPredicate, Swrl.argument1]], none⟩
  | .dataRange => ⟨"DataRangeAtom", Swrl.DataRangeAtom, [[Swrl.dataRange, Swrl.argument1]], none⟩
  | .objectProperty =>
    ⟨"IndividualPropertyAtom", Swrl.IndividualPropertyAtom,
      [[Swrl.propertyPredicate, Swrl.argument1, Swrl.argument2]], some .object⟩
  | .dataProperty =>
    ⟨"DatavaluedPropertyAtom", Swrl.DatavaluedPropertyAtom,
      [[Swrl.propertyPredicate, Swrl.argument1, Swrl.argument2]], some .data⟩
  | .sameIndividual =>
    ⟨"SameIndividualAtom", Swrl.SameIndividualAtom, [[Swrl.argument1, Swrl.argument2]], none⟩
  | .differentIndividuals =>
    ⟨"DifferentIndividualsAtom", Swrl.DifferentIndividualsAtom, [[Swrl.argument1, Swrl.argument2]], none⟩
  | .builtin => ⟨"BuiltinAtom", Swrl.BuiltinAtom, [[Swrl.builtin, Swrl.arguments]], none⟩

def family : Family AtomForm := ⟨"SWRL atom", all, pattern⟩

end AtomForm

/-- What the type or the second argument of an atom tells about the kind of its property. -/
def NodeView.atomHint? (view : NodeView) : Option PropertyKind :=
  (view.types.findSome? fun type =>
    if type = Swrl.IndividualPropertyAtom then some .object
    else if type = Swrl.DatavaluedPropertyAtom then some .data
    else none) <|>
  match view.first? Swrl.argument2 with
  | some (.literal _) => some .data
  | _ => none

namespace Translation

/-- The kind of the property that the atom is about, if it names one. -/
def atomPropertyKind (view : NodeView) : Translation (Option PropertyKind) := do
  match view.first? Swrl.propertyPredicate with
  | some (.resource (.named iri)) => return some (← resolveProperty iri view.atomHint?)
  | _ => return none

/-- Reads a node in the given form. -/
def readAtom (view : NodeView) : AtomForm → Translation Atom
  | .cls => do
    let predicate ← value view Swrl.classPredicate
    let argument ← value view Swrl.argument1
    return .cls (← classExpression predicate) (← individualArgument argument)
  | .dataRange => do
    let range ← value view Swrl.dataRange
    let argument ← value view Swrl.argument1
    return .dataRange (← dataRange range) (← dataArgument argument)
  | .objectProperty => do
    let predicate ← value view Swrl.propertyPredicate
    let subject ← value view Swrl.argument1
    let object ← value view Swrl.argument2
    return .objectProperty (← propertyExpression predicate) (← individualArgument subject)
      (← individualArgument object)
  | .dataProperty => do
    let predicate ← value view Swrl.propertyPredicate
    let subject ← value view Swrl.argument1
    let object ← value view Swrl.argument2
    return .dataProperty (← dataProperty predicate) (← individualArgument subject) (← dataArgument object)
  | .sameIndividual => do
    let first ← value view Swrl.argument1
    let second ← value view Swrl.argument2
    return .sameIndividual (← individualArgument first) (← individualArgument second)
  | .differentIndividuals => do
    let first ← value view Swrl.argument1
    let second ← value view Swrl.argument2
    return .differentIndividuals (← individualArgument first) (← individualArgument second)
  | .builtin => do
    let predicate ← value view Swrl.builtin
    let list ← value view Swrl.arguments
    let iri ← named .builtin predicate
    return .builtin iri (← (← readList list).mapM dataArgument)

def atom (term : Term) : Translation Atom := do
  let some node := term.node? | unexpected .atom term
  nested node do
    let plain := (← get).view node
    let view := { plain with propertyKind := ← atomPropertyKind plain }
    dispatch AtomForm.family view (readAtom view)

/-- The atoms of a conjunction, which may be empty. -/
def atoms (head : Term) : Translation (List Atom) := do (← readList head).mapM atom

end Translation

end OwlGraph
