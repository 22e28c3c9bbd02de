import OwlGraph.Translation.Session

/-! Cardinalities: the lexical form of a literal read as a number of at most 32 bits. -/

namespace OwlGraph

namespace Cardinality

/-- The characters with the Unicode property of being white space. -/
def isWhiteSpace (c : Char) : Bool :=
  let code := c.toNat
  (0x09 ≤ code && code ≤ 0x0d) || code == 0x20 || code == 0x85 || code == 0xa0 || code == 0x1680 ||
    (0x2000 ≤ code && code ≤ 0x200a) || code == 0x2028 || code == 0x2029 || code == 0x202f ||
    code == 0x205f || code == 0x3000

/-- The text without the white space around it. -/
def trim (cs : List Char) : List Char :=
  ((cs.dropWhile isWhiteSpace).reverse.dropWhile isWhiteSpace).reverse

inductive Flaw where
  | tooLarge
  | malformed
deriving DecidableEq

/-- The greatest cardinality. -/
def limit : Nat := 4294967295

/-- Reads decimal digits from left to right after those that make up the given number. The
first character that is no digit or leads beyond the limit ends the reading. -/
def readDigits : Nat → List Char → Except Flaw Nat
  | number, [] => .ok number
  | number, c :: cs =>
    if c.isDigit then
      let next := number * 10 + (c.toNat - '0'.toNat)
      if next ≤ limit then readDigits next cs else .error .tooLarge
    else .error .malformed

/-- Decimal digits, perhaps after a plus sign and between white space. -/
def parse (text : String) : Except Flaw Nat :=
  let digits := match trim text.toList with
    | '+' :: cs => cs
    | cs => cs
  if digits.isEmpty then .error .malformed else readDigits 0 digits

end Cardinality

/-- Reads the number a cardinality literal stands for. Its datatype should be that of the
integers or of the non-negative ones. -/
def Translation.cardinality (term : Term) : Translation UInt32 := do
  let some literal := term.literal? | unexpected .literal term
  match Cardinality.parse literal.value with
  | .error .tooLarge => fail (.cardinalityTooLarge literal Cardinality.limit)
  | .error .malformed => fail (.cardinalityMalformed literal)
  | .ok number =>
    unless literal.datatype = Xsd.nonNegativeInteger ∨ literal.datatype = Xsd.integer do
      recover (.cardinalityDatatype literal)
    return UInt32.ofNat number

end OwlGraph
