import OwlGraph.Expression.ClassExpression

/-! Rules: a body and a head of atoms, both read as conjunctions. Their atoms are sets, the
arguments of a built-in are a sequence. -/

namespace OwlGraph

/-- An argument that ranges over individuals. -/
inductive IndividualArgument where
  | variable (iri : Iri)
  | individual (individual : Individual)
deriving DecidableEq, Hashable

/-- An argument that ranges over literals. -/
inductive DataArgument where
  | variable (iri : Iri)
  | literal (value : Literal)
deriving DecidableEq, Hashable

namespace Rule

def variableText (iri : Iri) : String := applied "Variable" [iri.text]

end Rule

def IndividualArgument.text : IndividualArgument → String
  | .variable iri => Rule.variableText iri
  | .individual node => node.text

def DataArgument.text : DataArgument → String
  | .variable iri => Rule.variableText iri
  | .literal value => value.text

def IndividualArgument.rename (f : BlankNode → BlankNode) : IndividualArgument → IndividualArgument
  | .variable iri => .variable iri
  | .individual node => .individual (node.rename f)

inductive Atom where
  | cls (expression : ClassExpression) (argument : IndividualArgument)
  | dataRange (range : DataRange) (argument : DataArgument)
  | objectProperty (property : PropertyExpression) (subject object : IndividualArgument)
  | dataProperty (property : Iri) (subject : IndividualArgument) (object : DataArgument)
  | sameIndividual (first second : IndividualArgument)
  | differentIndividuals (first second : IndividualArgument)
  | builtin (predicate : Iri) (arguments : List DataArgument)
deriving DecidableEq, Hashable

namespace Atom

def text : Atom → String
  | .cls expression argument => applied "ClassAtom" [expression.text, argument.text]
  | .dataRange range argument => applied "DataRangeAtom" [range.text, argument.text]
  | .objectProperty property subject object =>
    applied "ObjectPropertyAtom" [property.text, subject.text, object.text]
  | .dataProperty property subject object =>
    applied "DataPropertyAtom" [property.text, subject.text, object.text]
  | .sameIndividual first second => applied "SameIndividualAtom" [first.text, second.text]
  | .differentIndividuals first second => applied "DifferentIndividualsAtom" [first.text, second.text]
  | .builtin predicate arguments =>
    applied "BuiltInAtom" [predicate.text, spaced (arguments.map DataArgument.text)]

def normalize : Atom → Atom
  | .cls expression argument => .cls expression.normalize argument
  | .dataRange range argument => .dataRange range.normalize argument
  | .objectProperty property subject object => .objectProperty property subject object
  | .dataProperty property subject object => .dataProperty property subject object
  | .sameIndividual first second => .sameIndividual first second
  | .differentIndividuals first second => .differentIndividuals first second
  | .builtin predicate arguments => .builtin predicate arguments

def rename (f : BlankNode → BlankNode) : Atom → Atom
  | .cls expression argument => .cls (expression.rename f) (argument.rename f)
  | .dataRange range argument => .dataRange range argument
  | .objectProperty property subject object => .objectProperty property (subject.rename f) (object.rename f)
  | .dataProperty property subject object => .dataProperty property (subject.rename f) object
  | .sameIndividual first second => .sameIndividual (first.rename f) (second.rename f)
  | .differentIndividuals first second => .differentIndividuals (first.rename f) (second.rename f)
  | .builtin predicate arguments => .builtin predicate arguments

/-- The atoms of a conjunction, each normal and each once, in the order of their texts. -/
def canonical (atoms : List Atom) : List Atom := Canonical.byText text (atoms.map normalize)

end Atom

/-- The conjunction of the body implies the conjunction of the head. -/
structure Rule where
  body : List Atom
  head : List Atom
deriving DecidableEq, Hashable

namespace Rule

def text (rule : Rule) : String :=
  spaced [applied "Body" (rule.body.map Atom.text), applied "Head" (rule.head.map Atom.text)]

def normalize (rule : Rule) : Rule := ⟨Atom.canonical rule.body, Atom.canonical rule.head⟩

def rename (f : BlankNode → BlankNode) (rule : Rule) : Rule :=
  ⟨rule.body.map (Atom.rename f), rule.head.map (Atom.rename f)⟩

end Rule

end OwlGraph
