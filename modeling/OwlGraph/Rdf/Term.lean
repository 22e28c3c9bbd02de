/-! RDF terms and triples, and the text that stands for each of them. A node is what may
be the subject of a triple; a term is what may be its object. A literal of the string
datatype is always the simple one, which the type itself demands. -/

namespace OwlGraph

/-- An IRI, known by its characters alone. -/
structure Iri where
  value : String
deriving DecidableEq, Hashable, Inhabited

/-- A blank node, known by its label within one graph. -/
structure BlankNode where
  label : String
deriving DecidableEq, Hashable, Inhabited

namespace Xsd

def namespaceIri : String := "http://www.w3.org/2001/XMLSchema#"

/-- The IRI of a name in the XML Schema namespace. -/
def iri (name : String) : Iri := ⟨namespaceIri ++ name⟩

def string : Iri := iri "string"
def boolean : Iri := iri "boolean"
def integer : Iri := iri "integer"
def nonNegativeInteger : Iri := iri "nonNegativeInteger"

end Xsd

namespace Rdf

def namespaceIri : String := "http://www.w3.org/1999/02/22-rdf-syntax-ns#"

/-- The IRI of a name in the RDF namespace. -/
def iri (name : String) : Iri := ⟨namespaceIri ++ name⟩

def langString : Iri := iri "langString"

end Rdf

/-- A literal: a plain string, a string in a language, or a lexical form of another datatype. -/
inductive Literal where
  | simple (value : String)
  | tagged (value language : String)
  | typed (value : String) (datatype : Iri) (notString : datatype ≠ Xsd.string)
deriving DecidableEq, Hashable

namespace Literal

/-- The literal with this lexical form and datatype. -/
def ofDatatype (value : String) (datatype : Iri) : Literal :=
  if other : datatype = Xsd.string then .simple value else .typed value datatype other

/-- The lexical form. -/
def value : Literal → String
  | .simple value | .tagged value _ | .typed value _ _ => value

def datatype : Literal → Iri
  | .simple _ => Xsd.string
  | .tagged _ _ => Rdf.langString
  | .typed _ datatype _ => datatype

end Literal

/-- What may be the subject of a triple: a named resource or a blank node. -/
inductive Node where
  | named (iri : Iri)
  | blank (node : BlankNode)
deriving DecidableEq, Hashable

/-- What may be the object of a triple. -/
inductive Term where
  | resource (node : Node)
  | literal (value : Literal)
deriving DecidableEq, Hashable

instance : Coe Iri Node := ⟨.named⟩
instance : Coe BlankNode Node := ⟨.blank⟩
instance : Coe Node Term := ⟨.resource⟩
instance : Coe Literal Term := ⟨.literal⟩
instance : Coe Iri Term := ⟨fun iri => .resource (.named iri)⟩

structure Triple where
  subject : Node
  predicate : Iri
  object : Term
deriving DecidableEq, Hashable

/-- The texts, one space between neighbours. -/
def spaced : List String → String
  | [] => ""
  | [text] => text
  | text :: next :: rest => text ++ " " ++ spaced (next :: rest)

def Iri.text (iri : Iri) : String := "<" ++ iri.value ++ ">"

def BlankNode.text (node : BlankNode) : String := "_:" ++ node.label

namespace Literal

/-- The upper-case hexadecimal digit of a value below sixteen. -/
def hexDigit (value : Nat) : Char := (Nat.digitChar value).toUpper

/-- Exactly four hexadecimal digits, most significant first. -/
def fourHexDigits (code : Nat) : List Char :=
  [hexDigit (code / 4096 % 16), hexDigit (code / 256 % 16), hexDigit (code / 16 % 16), hexDigit (code % 16)]

/-- Quotes, backslashes, the remaining control characters and the two code points that are
no characters are escaped; everything else stands for itself. -/
def escapeChar (c : Char) : List Char :=
  if c = '\x08' then ['\\', 'b']
  else if c = '\t' then ['\\', 't']
  else if c = '\n' then ['\\', 'n']
  else if c = '\x0c' then ['\\', 'f']
  else if c = '\r' then ['\\', 'r']
  else if c = '"' then ['\\', '"']
  else if c = '\\' then ['\\', '\\']
  else if c.toNat ≤ 0x1f ∨ c.toNat = 0x7f ∨ c.toNat = 0xfffe ∨ c.toNat = 0xffff then
    '\\' :: 'u' :: fourHexDigits c.toNat
  else [c]

/-- The lexical form in quotes. -/
def quoted (value : String) : String := "\"" ++ String.ofList (value.toList.flatMap escapeChar) ++ "\""

def text : Literal → String
  | .simple value => quoted value
  | .tagged value language => quoted value ++ "@" ++ language
  | .typed value datatype _ => quoted value ++ "^^" ++ datatype.text

end Literal

namespace Node

def text : Node → String
  | .named iri => iri.text
  | .blank node => node.text

def iri? : Node → Option Iri
  | .named iri => some iri
  | .blank _ => none

theorem iri?_eq_some {node : Node} {iri : Iri} : node.iri? = some iri ↔ node = iri := by
  cases node with
  | named other => exact ⟨fun named => congrArg Node.named (Option.some.inj named), fun same => congrArg Node.iri? same⟩
  | blank other => exact ⟨nofun, nofun⟩

def blank? : Node → Option BlankNode
  | .named _ => none
  | .blank node => some node

/-- Replaces a blank node by its image; a named node keeps its name. -/
def rename (f : BlankNode → BlankNode) : Node → Node
  | .named iri => .named iri
  | .blank node => .blank (f node)

end Node

namespace Term

def text : Term → String
  | .resource node => node.text
  | .literal value => value.text

def node? : Term → Option Node
  | .resource node => some node
  | .literal _ => none

def iri? (term : Term) : Option Iri := term.node?.bind Node.iri?

theorem iri?_eq_some {term : Term} {iri : Iri} : term.iri? = some iri ↔ term = iri := by
  cases term with
  | resource node => exact Node.iri?_eq_some.trans ⟨congrArg Term.resource, fun same => Term.resource.inj same⟩
  | literal value => exact ⟨nofun, nofun⟩

def blank? (term : Term) : Option BlankNode := term.node?.bind Node.blank?

def literal? : Term → Option Literal
  | .resource _ => none
  | .literal value => some value

def rename (f : BlankNode → BlankNode) : Term → Term
  | .resource node => .resource (node.rename f)
  | .literal value => .literal value

end Term

def Triple.text (triple : Triple) : String :=
  spaced [triple.subject.text, triple.predicate.text, triple.object.text]

/-- The blank nodes of a triple, its subject before its object. -/
def Triple.blanks (triple : Triple) : List BlankNode :=
  triple.subject.blank?.toList ++ triple.object.blank?.toList

end OwlGraph
