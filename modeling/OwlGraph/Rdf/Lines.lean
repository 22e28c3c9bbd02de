import OwlGraph.Rdf.IriSyntax
import OwlGraph.Rdf.LanguageTag

/-! Graphs written one triple a line. A line holds a triple and a full stop, or with quads a
triple, the name of the graph it belongs to, and a full stop. It may be blank, and a comment
may end it. Reading fails on the first line that is not of this form, and it puts language tags
into lower case. -/

namespace OwlGraph.Lines

def skipBlank (cs : List Char) : List Char := cs.dropWhile fun c => c == ' ' || c == '\t'

/-- The character whose code point the hexadecimal digits write. -/
def codePoint? (digits : List Char) : Option Char := do
  let code ← digits.foldlM (fun value digit => (hexValue? digit).map (16 * value + ·)) 0
  if code.isValidChar then some (Char.ofNat code) else none
where
  hexValue? (c : Char) : Option Nat :=
    if c.isDigit then some (c.toNat - '0'.toNat)
    else if 'a' ≤ c ∧ c ≤ 'f' then some (c.toNat - 'a'.toNat + 10)
    else if 'A' ≤ c ∧ c ≤ 'F' then some (c.toNat - 'A'.toNat + 10)
    else none

/-- The character that a backslash and this one stand for. -/
def escaped? : Char → Option Char
  | 'b' => some '\x08'
  | 't' => some '\t'
  | 'n' => some '\n'
  | 'f' => some '\x0c'
  | 'r' => some '\r'
  | '"' => some '"'
  | '\'' => some '\''
  | '\\' => some '\\'
  | _ => none

/-- Puts a character before what reading went on to yield. -/
def cons? (c : Option Char) (rest : Option (List Char × List Char)) : Option (List Char × List Char) := do
  let c ← c
  let (cs, rest) ← rest
  return (c :: cs, rest)

/-- Reads up to the closing quote. -/
def readQuoted : List Char → Option (List Char × List Char)
  | [] => none
  | '"' :: rest => some ([], rest)
  | '\\' :: 'u' :: a :: b :: c :: d :: rest => cons? (codePoint? [a, b, c, d]) (readQuoted rest)
  | '\\' :: 'U' :: a :: b :: c :: d :: e :: f :: g :: h :: rest =>
    cons? (codePoint? [a, b, c, d, e, f, g, h]) (readQuoted rest)
  | '\\' :: c :: rest => cons? (escaped? c) (readQuoted rest)
  | c :: rest => if c = '\\' then none else cons? (some c) (readQuoted rest)

/-- Whether an IRI between brackets may hold the character as it is. -/
def isIriChar (c : Char) : Bool := 0x20 < c.toNat && !"<>\"\x7b\x7d|^\x60\\".toList.contains c

/-- Reads up to the closing bracket. -/
def readBracketed : List Char → Option (List Char × List Char)
  | [] => none
  | '>' :: rest => some ([], rest)
  | '\\' :: 'u' :: a :: b :: c :: d :: rest => cons? (codePoint? [a, b, c, d]) (readBracketed rest)
  | '\\' :: 'U' :: a :: b :: c :: d :: e :: f :: g :: h :: rest =>
    cons? (codePoint? [a, b, c, d, e, f, g, h]) (readBracketed rest)
  | c :: rest => if isIriChar c then cons? (some c) (readBracketed rest) else none

def readIri : List Char → Option (Iri × List Char)
  | '<' :: cs => do
    let (value, rest) ← readBracketed cs
    return (← Iri.parse? (String.ofList value), rest)
  | _ => none

/-- The letters of names, those beyond ASCII too. -/
def isNameLetter (c : Char) : Bool :=
  let code := c.toNat
  c.isAlpha || (0xc0 ≤ code && code ≤ 0x2ff && code != 0xd7 && code != 0xf7) ||
    (0x370 ≤ code && code ≤ 0x1fff && code != 0x37e) || code == 0x200c || code == 0x200d ||
    (0x2070 ≤ code && code ≤ 0x218f) || (0x2c00 ≤ code && code ≤ 0x2fef) || (0x3001 ≤ code && code ≤ 0xd7ff) ||
    (0xf900 ≤ code && code ≤ 0xfdcf) || (0xfdf0 ≤ code && code ≤ 0xfffd) || (0x10000 ≤ code && code ≤ 0xeffff)

def isNameStart (c : Char) : Bool := isNameLetter c || c == '_' || c.isDigit

def isNameChar (c : Char) : Bool :=
  let code := c.toNat
  isNameStart c || c == '-' || code == 0xb7 || (0x300 ≤ code && code ≤ 0x36f) || code == 0x203f || code == 0x2040

/-- Reads a label. Full stops at its end do not belong to it. -/
def readBlank : List Char → Option (BlankNode × List Char)
  | '_' :: ':' :: cs =>
    let taken := cs.takeWhile fun c => isNameChar c || c == '.'
    let label := (taken.reverse.dropWhile (· == '.')).reverse
    if label.head?.any isNameStart then some (⟨String.ofList label⟩, cs.drop label.length) else none
  | _ => none

def readNode (cs : List Char) : Option (Node × List Char) :=
  match cs with
  | '_' :: _ => (readBlank cs).map fun (node, rest) => (.blank node, rest)
  | _ => (readIri cs).map fun (iri, rest) => (.named iri, rest)

/-- Reads a language tag and puts it into lower case. -/
def readLanguage (cs : List Char) : Option (String × List Char) :=
  let taken := cs.takeWhile fun c => c.isAlphanum || c == '-'
  let tag := String.ofList (taken.map Char.toLower)
  if LanguageTag.isWellFormed tag then some (tag, cs.drop taken.length) else none

/-- Reads a literal. A datatype is refused if it is the one of strings in a language, because such
a string has a tag in its place. -/
def readLiteral : List Char → Option (Literal × List Char)
  | '"' :: cs => do
    let (value, rest) ← readQuoted cs
    let value := String.ofList value
    match skipBlank rest with
    | '@' :: cs =>
      let (language, rest) ← readLanguage cs
      return (.tagged value language, rest)
    | '^' :: '^' :: cs =>
      let (datatype, rest) ← readIri (skipBlank cs)
      guard (datatype ≠ Rdf.langString)
      return (.ofDatatype value datatype, rest)
    | rest => return (.simple value, rest)
  | _ => none

def readTerm (cs : List Char) : Option (Term × List Char) :=
  match cs with
  | '"' :: _ => (readLiteral cs).map fun (literal, rest) => (.literal literal, rest)
  | _ => (readNode cs).map fun (node, rest) => (.resource node, rest)

/-- Reads the end of a line after its full stop. -/
def readEnd (cs : List Char) : Option Unit :=
  match skipBlank cs with
  | [] | '#' :: _ => some ()
  | _ => none

/-- Reads the full stop, or with quads first the name of a graph; tells whether there was none. -/
def readGraphName (quads : Bool) (cs : List Char) : Option Bool :=
  match skipBlank cs with
  | '.' :: rest => (readEnd rest).map fun _ => true
  | cs => do
    guard quads
    let (_, rest) ← readNode cs
    match skipBlank rest with
    | '.' :: rest => (readEnd rest).map fun _ => false
    | _ => none

/-- Reads a line. It holds no triple of the graph without a name if it is blank or if its triple
belongs to another graph. -/
def readLine (quads : Bool) (cs : List Char) : Option (Option Triple) :=
  match skipBlank cs with
  | [] | '#' :: _ => some none
  | cs => do
    let (subject, rest) ← readNode cs
    let (predicate, rest) ← readIri (skipBlank rest)
    let (object, rest) ← readTerm (skipBlank rest)
    let default ← readGraphName quads rest
    return if default then some ⟨subject, predicate, object⟩ else none

/-- The lines of a text, without what ends them. -/
def split (cs : List Char) : List (List Char) :=
  cs.foldr (fun c lines =>
    if c = '\n' ∨ c = '\r' then [] :: lines
    else match lines with
      | [] => [[c]]
      | line :: others => (c :: line) :: others) [[]]

/-- The triples of the graph without a name. -/
def read (quads : Bool) (text : String) : Option (List Triple) :=
  ((split text.toList).mapM (readLine quads)).map fun lines => lines.filterMap id

def write (triples : List Triple) : String := String.join (triples.map fun triple => triple.text ++ " .\n")

end OwlGraph.Lines
