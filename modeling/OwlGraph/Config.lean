/-! The options of a load. -/

namespace OwlGraph

/-- What to do about an import that a catalog does not hold. -/
inductive MissingImport where
  | silent
  | fail
deriving DecidableEq

structure Config where
  /-- Refuse input that departs from the mapping instead of repairing it. -/
  strict : Bool := false
  /-- Reports show their triples and the patterns that were tried. -/
  detailed : Bool := false
  /-- Read an assertion of an undeclared property as an annotation assertion. -/
  danglingAsAnnotations : Bool := false
  maxListLength : Nat := 100000
  maxPasses : Nat := 1000
  missingImports : MissingImport := .silent
  /-- The load has been cancelled, which takes effect before the next pass. -/
  cancelled : Bool := false

end OwlGraph
