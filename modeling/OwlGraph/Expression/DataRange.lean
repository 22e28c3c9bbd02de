import OwlGraph.Entity

/-! Data ranges, their functional-style text, and the normal form in which set-valued
operands are canonical at every depth. Facets keep their order. -/

namespace OwlGraph

/-- The two ways of combining any number of operands. -/
inductive Junction where
  | intersection
  | union
deriving DecidableEq, Hashable

/-- The two quantifiers of a restriction on the values of a property. -/
inductive Quantifier where
  | some
  | all
deriving DecidableEq, Hashable

/-- What a cardinality restriction bounds. -/
inductive Bound where
  | min
  | max
  | exact
deriving DecidableEq, Hashable

def Junction.name : Junction → String
  | .intersection => "IntersectionOf"
  | .union => "UnionOf"

def Quantifier.name : Quantifier → String
  | .some => "SomeValuesFrom"
  | .all => "AllValuesFrom"

def Bound.name : Bound → String
  | .min => "MinCardinality"
  | .max => "MaxCardinality"
  | .exact => "ExactCardinality"

/-- The name of a construct and its arguments in functional-style syntax. -/
def applied (name : String) (arguments : List String) : String := name ++ "(" ++ spaced arguments ++ ")"

structure FacetRestriction where
  facet : Iri
  value : Literal
deriving DecidableEq, Hashable

def FacetRestriction.text (restriction : FacetRestriction) : String :=
  spaced [restriction.facet.text, restriction.value.text]

inductive DataRange where
  | datatype (iri : Iri)
  | combination (junction : Junction) (operands : List DataRange)
  | complement (operand : DataRange)
  | oneOf (values : List Literal)
  | restriction (base : Iri) (facets : List FacetRestriction)

namespace DataRange

mutual

def text : DataRange → String
  | .datatype iri => iri.text
  | .combination junction operands => applied ("Data" ++ junction.name) (texts operands)
  | .complement operand => applied "DataComplementOf" [operand.text]
  | .oneOf values => applied "DataOneOf" (values.map Literal.text)
  | .restriction base facets =>
    applied "DatatypeRestriction" [base.text, spaced (facets.map FacetRestriction.text)]

def texts : List DataRange → List String
  | [] => []
  | range :: rest => range.text :: texts rest

end

theorem texts_eq_map (ranges : List DataRange) : texts ranges = ranges.map text := by
  induction ranges with
  | nil => rfl
  | cons range rest ih => simp [texts, ih]

mutual

def normalize : DataRange → DataRange
  | .datatype iri => .datatype iri
  | .combination junction operands => .combination junction (Canonical.byText text (normalizeEach operands))
  | .complement operand => .complement operand.normalize
  | .oneOf values => .oneOf (Canonical.byText Literal.text values)
  | .restriction base facets => .restriction base facets

def normalizeEach : List DataRange → List DataRange
  | [] => []
  | range :: rest => range.normalize :: normalizeEach rest

end

theorem normalizeEach_eq_map (ranges : List DataRange) : normalizeEach ranges = ranges.map normalize := by
  induction ranges with
  | nil => rfl
  | cons range rest ih => simp [normalizeEach, ih]

def datatype? : DataRange → Option Iri
  | .datatype iri => some iri
  | _ => none

mutual

def same : DataRange → DataRange → Bool
  | .datatype a, .datatype b => a == b
  | .combination j as, .combination k bs => j == k && sameEach as bs
  | .complement a, .complement b => a.same b
  | .oneOf as, .oneOf bs => as == bs
  | .restriction a fs, .restriction b gs => a == b && fs == gs
  | _, _ => false

def sameEach : List DataRange → List DataRange → Bool
  | [], [] => true
  | a :: as, b :: bs => a.same b && sameEach as bs
  | _, _ => false

end

mutual

theorem same_iff : ∀ a b : DataRange, a.same b = true ↔ a = b
  | .datatype _, b => by cases b <;> simp [same]
  | .combination _ as, b => by cases b <;> simp [same, sameEach_iff as]
  | .complement a, b => by cases b <;> simp [same, same_iff a]
  | .oneOf _, b => by cases b <;> simp [same]
  | .restriction _ _, b => by cases b <;> simp [same]

theorem sameEach_iff : ∀ as bs : List DataRange, sameEach as bs = true ↔ as = bs
  | [], bs => by cases bs <;> simp [sameEach]
  | a :: as, bs => by cases bs <;> simp [sameEach, same_iff a, sameEach_iff as]

end

instance : DecidableEq DataRange := fun a b => decidable_of_iff _ (same_iff a b)

/-- Equal data ranges have equal texts, so the text serves as the hash key. -/
instance : Hashable DataRange := ⟨fun range => hash range.text⟩

end DataRange

end OwlGraph
