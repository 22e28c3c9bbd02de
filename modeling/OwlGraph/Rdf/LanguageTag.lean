/-! Which texts are language tags. A tag is a row of parts with hyphens between them: a language
with its extended parts, a script, a region, variants, extensions, parts for private use. Only the
language is required, and a tag may be all private use. No part needs another one to be known: its
length and its characters tell what it is. A few tags that break these rules are kept for their age.
Case means nothing in a tag, so that all tags here are in lower case. -/

namespace OwlGraph.LanguageTag

def isAlphabetic (part : String) : Bool := part.toList.all Char.isAlpha

def isNumeric (part : String) : Bool := part.toList.all Char.isDigit

/-- What every part is: letters and digits, none longer than eight. -/
def isPart (part : String) : Bool := 0 < part.length && part.length ≤ 8 && part.toList.all Char.isAlphanum

def isLanguage (part : String) : Bool := 2 ≤ part.length && isAlphabetic part

/-- A language within the one that the short first part names. -/
def isExtended (part : String) : Bool := part.length == 3 && isAlphabetic part

def isScript (part : String) : Bool := part.length == 4 && isAlphabetic part

def isRegion (part : String) : Bool :=
  part.length == 2 && isAlphabetic part || part.length == 3 && isNumeric part

def isVariant (part : String) : Bool :=
  5 ≤ part.length || part.length == 4 && part.toList.head?.any Char.isDigit

/-- Leaves out parts at the front that pass the test, at most so many. -/
def skip (test : String → Bool) : Nat → List String → List String
  | most + 1, part :: rest => if test part then skip test most rest else part :: rest
  | _, parts => parts

mutual

/-- What may end a tag: extensions, each opened by a part of one character, and after them parts
for private use, which the letter x opens. What is opened is not empty. -/
def isEnding : List String → Bool
  | [] => true
  | opening :: rest => if opening == "x" then !rest.isEmpty else opening.length == 1 && isExtension rest

/-- The parts of an extension, none of a single character, and what ends the tag after them. -/
def isExtension : List String → Bool
  | [] => false
  | part :: rest => 2 ≤ part.length && (isExtension rest || isEnding rest)

end

/-- A short language may have up to three extended parts. -/
def isRegular : List String → Bool
  | [] => false
  | "x" :: rest => !rest.isEmpty
  | language :: rest =>
    let rest := if language.length ≤ 3 then skip isExtended 3 rest else rest
    isLanguage language && isEnding ((skip isRegion 1 (skip isScript 1 rest)).dropWhile isVariant)

/-- The tags that were registered before there were rules for their parts, and that break them. -/
def irregular : List String :=
  ["en-gb-oed", "i-ami", "i-bnn", "i-default", "i-enochian", "i-hak", "i-klingon", "i-lux", "i-mingo",
    "i-navajo", "i-pwn", "i-tao", "i-tay", "i-tsu", "sgn-be-fr", "sgn-be-nl", "sgn-ch-de"]

/-- Whether the text, in lower case, is a language tag. -/
def isWellFormed (tag : String) : Bool :=
  let parts := tag.splitOn "-"
  parts.all isPart && isRegular parts || irregular.contains tag

end OwlGraph.LanguageTag
