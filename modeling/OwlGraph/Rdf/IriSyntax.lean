import OwlGraph.Rdf.Term

/-! Which texts are absolute IRIs: a scheme, then an authority and a path or a path alone,
then perhaps a query and a fragment. Every part has its own set of characters, and any part
but the scheme and the number after a host may hold percent-encoded bytes. -/

namespace OwlGraph.IriSyntax

def isHexDigit (c : Char) : Bool := c.isDigit || ('a' ≤ c && c ≤ 'f') || ('A' ≤ c && c ≤ 'F')

/-- The characters beyond ASCII that may stand anywhere in an IRI. -/
def isWide (c : Char) : Bool :=
  let code := c.toNat
  (0xa0 ≤ code && code ≤ 0xd7ff) || (0xf900 ≤ code && code ≤ 0xfdcf) || (0xfdf0 ≤ code && code ≤ 0xffef) ||
    (0x10000 ≤ code && code < 0xf0000 && code % 0x10000 ≤ 0xfffd && !(0xe0000 ≤ code && code < 0xe1000))

/-- The characters that only a query may hold. -/
def isPrivate (c : Char) : Bool :=
  let code := c.toNat
  (0xe000 ≤ code && code ≤ 0xf8ff) || (0xf0000 ≤ code && code % 0x10000 ≤ 0xfffd)

/-- Unreserved characters and the delimiters that carry no meaning of their own. -/
def isPlain (c : Char) : Bool := c.isAlphanum || "!$&'()*+,-.;=_~".toList.contains c || isWide c

def isPathChar (c : Char) : Bool := isPlain c || c == ':' || c == '@' || c == '/'

def isFragmentChar (c : Char) : Bool := isPathChar c || c == '?'

def isQueryChar (c : Char) : Bool := isFragmentChar c || isPrivate c

/-- Whether every character is allowed or belongs to a percent-encoded byte. -/
def encoded (allowed : Char → Bool) : List Char → Bool
  | [] => true
  | '%' :: high :: low :: rest => isHexDigit high && isHexDigit low && encoded allowed rest
  | c :: rest => c != '%' && allowed c && encoded allowed rest

/-- The characters before the first separator and those after it, if there is one. -/
def cut (separator : Char) (cs : List Char) : List Char × Option (List Char) :=
  match cs.dropWhile (· != separator) with
  | [] => (cs, none)
  | _ :: after => (cs.takeWhile (· != separator), some after)

/-- Four decimal numbers below 256 without leading zeros. -/
def isIpv4 (text : String) : Bool :=
  let parts := text.splitOn "."
  parts.length == 4 && parts.all fun part =>
    part.toList.all Char.isDigit && part.length ≤ 3 && (part.toNat?.any fun value =>
      value < 256 && String.ofList (Nat.toDigits 10 value) == part)

/-- How many groups of sixteen bits the text writes; only the last may be an IPv4 address. -/
def groups? : List String → Option Nat
  | [] => some 0
  | [part] => if isIpv4 part then some 2 else if isGroup part then some 1 else none
  | part :: rest => if isGroup part then (groups? rest).map (· + 1) else none
where
  isGroup (part : String) : Bool := 0 < part.length && part.length ≤ 4 && part.toList.all isHexDigit

/-- Eight groups, or fewer with one gap that stands for the missing ones. -/
def isIpv6 (text : String) : Bool :=
  let groupsOf (side : String) : Option Nat := if side.isEmpty then some 0 else groups? (side.splitOn ":")
  match text.splitOn "::" with
  | [whole] => groupsOf whole == some 8
  | [before, after] =>
    !before.toList.contains '.' && match groupsOf before, groupsOf after with
      | some m, some n => m + n ≤ 7
      | _, _ => false
  | _ => false

/-- A version in hexadecimal digits, a point, and an address of that version. -/
def isFutureIp (cs : List Char) : Bool :=
  match cut '.' cs with
  | (_ :: version, some address) =>
    !version.isEmpty && version.all isHexDigit && !address.isEmpty &&
      address.all fun c => c == ':' || c.toNat < 0x80 && isPlain c
  | _ => false

def isIpLiteral (cs : List Char) : Bool :=
  match cs with
  | 'v' :: _ | 'V' :: _ => isFutureIp cs
  | _ => isIpv6 (String.ofList cs)

/-- Whether what follows the colon after a host is a number, perhaps of no digits. -/
def isHostNumber (digits : Option (List Char)) : Bool := (digits.getD []).all Char.isDigit

def isHost (cs : List Char) : Bool :=
  match cs with
  | '[' :: inner =>
    match cut ']' inner with
    | (address, some []) => isIpLiteral address
    | (address, some (':' :: digits)) => isIpLiteral address && isHostNumber (some digits)
    | _ => false
  | _ => let (host, digits) := cut ':' cs; encoded isPlain host && isHostNumber digits

/-- An authority: a host and perhaps a number, and before them perhaps a user. -/
def isAuthority (cs : List Char) : Bool :=
  match cut '@' cs with
  | (user, some host) => encoded (fun c => isPlain c || c == ':') user && isHost host
  | (host, none) => isHost host

/-- What follows the scheme and its colon, without query and fragment. -/
def isHierarchy : List Char → Bool
  | '/' :: '/' :: rest =>
    isAuthority (rest.takeWhile (· != '/')) && encoded isPathChar (rest.dropWhile (· != '/'))
  | path => encoded isPathChar path

def isSchemeChar (c : Char) : Bool := c.isAlphanum || c == '+' || c == '-' || c == '.'

end OwlGraph.IriSyntax

namespace OwlGraph

/-- Whether the text is an absolute IRI. -/
def Iri.isAbsolute (text : String) : Bool :=
  match IriSyntax.cut ':' text.toList with
  | (scheme, some rest) =>
    let (beforeFragment, fragment) := IriSyntax.cut '#' rest
    let (hierarchy, query) := IriSyntax.cut '?' beforeFragment
    (scheme.head?.any Char.isAlpha) && scheme.all IriSyntax.isSchemeChar && IriSyntax.isHierarchy hierarchy &&
      IriSyntax.encoded IriSyntax.isQueryChar (query.getD []) &&
      IriSyntax.encoded IriSyntax.isFragmentChar (fragment.getD [])
  | _ => false

/-- The IRI with these characters, if they form an absolute one. -/
def Iri.parse? (text : String) : Option Iri := if Iri.isAbsolute text then some ⟨text⟩ else none

end OwlGraph
