import OwlGraph.Expression.DataRange

/-! Object property expressions and class expressions, their functional-style text, and the
normal form in which set-valued operands are canonical at every depth. -/

namespace OwlGraph

/-- An object property or the inverse of one. -/
inductive PropertyExpression where
  | named (property : Iri)
  | inverse (property : Iri)
deriving DecidableEq, Hashable

namespace PropertyExpression

/-- The object property that the expression is built on. -/
def property : PropertyExpression → Iri
  | .named property | .inverse property => property

def isNamed : PropertyExpression → Bool
  | .named _ => true
  | .inverse _ => false

def invert : PropertyExpression → PropertyExpression
  | .named property => .inverse property
  | .inverse property => .named property

def text : PropertyExpression → String
  | .named property => property.text
  | .inverse property => applied "ObjectInverseOf" [property.text]

/-- Named properties come before inverses; within each, properties follow their IRIs. -/
def le : PropertyExpression → PropertyExpression → Bool
  | .named _, .inverse _ => true
  | .inverse _, .named _ => false
  | .named a, .named b | .inverse a, .inverse b => Canonical.textLe a.value b.value

/-- The expressions of a set, each once, in their order. -/
def canonical (expressions : List PropertyExpression) : List PropertyExpression :=
  Canonical.ordered le id expressions

end PropertyExpression

/-- The properties of a set, each once, in the order of their IRIs. -/
def Iri.canonical (properties : List Iri) : List Iri :=
  Canonical.ordered (fun a b => Canonical.textLe a.value b.value) id properties

inductive ClassExpression where
  | named (iri : Iri)
  | combination (junction : Junction) (operands : List ClassExpression)
  | complement (operand : ClassExpression)
  | oneOf (individuals : List Individual)
  | objectValues (quantifier : Quantifier) (property : PropertyExpression) (filler : ClassExpression)
  | objectHasValue (property : PropertyExpression) (individual : Individual)
  | hasSelf (property : PropertyExpression)
  | objectCardinality (bound : Bound) (cardinality : UInt32) (property : PropertyExpression)
      (filler : Option ClassExpression)
  | dataValues (quantifier : Quantifier) (property : Iri) (filler : DataRange)
  | dataHasValue (property : Iri) (value : Literal)
  | dataCardinality (bound : Bound) (cardinality : UInt32) (property : Iri) (filler : Option DataRange)

/-- The decimal digits of a cardinality. -/
def cardinalityText (cardinality : UInt32) : String := String.ofList (Nat.toDigits 10 cardinality.toNat)

namespace ClassExpression

def thing : ClassExpression := .named Owl.Thing

def nothing : ClassExpression := .named Owl.Nothing

mutual

def text : ClassExpression → String
  | .named iri => iri.text
  | .combination junction operands => applied ("Object" ++ junction.name) (texts operands)
  | .complement operand => applied "ObjectComplementOf" [operand.text]
  | .oneOf individuals => applied "ObjectOneOf" (individuals.map Node.text)
  | .objectValues quantifier property filler =>
    applied ("Object" ++ quantifier.name) [property.text, filler.text]
  | .objectHasValue property individual => applied "ObjectHasValue" [property.text, individual.text]
  | .hasSelf property => applied "ObjectHasSelf" [property.text]
  | .objectCardinality bound cardinality property none =>
    applied ("Object" ++ bound.name) [cardinalityText cardinality, property.text]
  | .objectCardinality bound cardinality property (some filler) =>
    applied ("Object" ++ bound.name) [cardinalityText cardinality, property.text, filler.text]
  | .dataValues quantifier property filler =>
    applied ("Data" ++ quantifier.name) [property.text, filler.text]
  | .dataHasValue property value => applied "DataHasValue" [property.text, value.text]
  | .dataCardinality bound cardinality property filler =>
    applied ("Data" ++ bound.name)
      (cardinalityText cardinality :: property.text :: (filler.map DataRange.text).toList)

def texts : List ClassExpression → List String
  | [] => []
  | expression :: rest => expression.text :: texts rest

end

theorem texts_eq_map (expressions : List ClassExpression) : texts expressions = expressions.map text := by
  induction expressions with
  | nil => rfl
  | cons expression rest ih => simp [texts, ih]

mutual

def normalize : ClassExpression → ClassExpression
  | .named iri => .named iri
  | .combination junction operands => .combination junction (Canonical.byText text (normalizeEach operands))
  | .complement operand => .complement operand.normalize
  | .oneOf individuals => .oneOf (Canonical.byText Node.text individuals)
  | .objectValues quantifier property filler => .objectValues quantifier property filler.normalize
  | .objectHasValue property individual => .objectHasValue property individual
  | .hasSelf property => .hasSelf property
  | .objectCardinality bound cardinality property none => .objectCardinality bound cardinality property none
  | .objectCardinality bound cardinality property (some filler) =>
    .objectCardinality bound cardinality property (some filler.normalize)
  | .dataValues quantifier property filler => .dataValues quantifier property filler.normalize
  | .dataHasValue property value => .dataHasValue property value
  | .dataCardinality bound cardinality property filler =>
    .dataCardinality bound cardinality property (filler.map DataRange.normalize)

def normalizeEach : List ClassExpression → List ClassExpression
  | [] => []
  | expression :: rest => expression.normalize :: normalizeEach rest

end

theorem normalizeEach_eq_map (expressions : List ClassExpression) :
    normalizeEach expressions = expressions.map normalize := by
  induction expressions with
  | nil => rfl
  | cons expression rest ih => simp [normalizeEach, ih]

/-- The expressions of a set, each normal and each once, in the order of their texts. -/
def canonical (expressions : List ClassExpression) : List ClassExpression :=
  Canonical.byText text (expressions.map normalize)

mutual

/-- Renames the anonymous individuals, leaving every list in its order. -/
def rename (f : BlankNode → BlankNode) : ClassExpression → ClassExpression
  | .named iri => .named iri
  | .combination junction operands => .combination junction (renameEach f operands)
  | .complement operand => .complement (operand.rename f)
  | .oneOf individuals => .oneOf (individuals.map (Node.rename f))
  | .objectValues quantifier property filler => .objectValues quantifier property (filler.rename f)
  | .objectHasValue property individual => .objectHasValue property (individual.rename f)
  | .hasSelf property => .hasSelf property
  | .objectCardinality bound cardinality property none => .objectCardinality bound cardinality property none
  | .objectCardinality bound cardinality property (some filler) =>
    .objectCardinality bound cardinality property (some (filler.rename f))
  | .dataValues quantifier property filler => .dataValues quantifier property filler
  | .dataHasValue property value => .dataHasValue property value
  | .dataCardinality bound cardinality property filler => .dataCardinality bound cardinality property filler

def renameEach (f : BlankNode → BlankNode) : List ClassExpression → List ClassExpression
  | [] => []
  | expression :: rest => expression.rename f :: renameEach f rest

end

theorem renameEach_eq_map (f : BlankNode → BlankNode) (expressions : List ClassExpression) :
    renameEach f expressions = expressions.map (rename f) := by
  induction expressions with
  | nil => rfl
  | cons expression rest ih => simp [renameEach, ih]

/-- The class, if the expression is a named one. -/
def iri? : ClassExpression → Option Iri
  | .named iri => some iri
  | _ => none

mutual

def same : ClassExpression → ClassExpression → Bool
  | .named a, .named b => a == b
  | .combination j as, .combination k bs => j == k && sameEach as bs
  | .complement a, .complement b => a.same b
  | .oneOf as, .oneOf bs => as == bs
  | .objectValues q p a, .objectValues r s b => q == r && p == s && a.same b
  | .objectHasValue p a, .objectHasValue q b => p == q && a == b
  | .hasSelf p, .hasSelf q => p == q
  | .objectCardinality k n p none, .objectCardinality l m q none => k == l && n == m && p == q
  | .objectCardinality k n p (some a), .objectCardinality l m q (some b) =>
    k == l && n == m && p == q && a.same b
  | .dataValues q p a, .dataValues r s b => q == r && p == s && a == b
  | .dataHasValue p a, .dataHasValue q b => p == q && a == b
  | .dataCardinality k n p a, .dataCardinality l m q b => k == l && n == m && p == q && a == b
  | _, _ => false

def sameEach : List ClassExpression → List ClassExpression → Bool
  | [], [] => true
  | a :: as, b :: bs => a.same b && sameEach as bs
  | _, _ => false

end

mutual

theorem same_iff : ∀ a b : ClassExpression, a.same b = true ↔ a = b
  | .named _, b => by cases b <;> simp [same]
  | .combination _ as, b => by cases b <;> simp [same, sameEach_iff as]
  | .complement a, b => by cases b <;> simp [same, same_iff a]
  | .oneOf _, b => by cases b <;> simp [same]
  | .objectValues _ _ a, b => by cases b <;> simp [same, same_iff a, and_assoc]
  | .objectHasValue _ _, b => by cases b <;> simp [same]
  | .hasSelf _, b => by cases b <;> simp [same]
  | .objectCardinality _ _ _ none, b => by
    cases b with
    | objectCardinality _ _ _ filler => cases filler <;> simp [same, and_assoc]
    | _ => simp [same]
  | .objectCardinality _ _ _ (some a), b => by
    cases b with
    | objectCardinality _ _ _ filler => cases filler <;> simp [same, same_iff a, and_assoc]
    | _ => simp [same]
  | .dataValues _ _ _, b => by cases b <;> simp [same, and_assoc]
  | .dataHasValue _ _, b => by cases b <;> simp [same]
  | .dataCardinality _ _ _ _, b => by cases b <;> simp [same, and_assoc]

theorem sameEach_iff : ∀ as bs : List ClassExpression, sameEach as bs = true ↔ as = bs
  | [], bs => by cases bs <;> simp [sameEach]
  | a :: as, bs => by cases bs <;> simp [sameEach, same_iff a, sameEach_iff as]

end

instance : DecidableEq ClassExpression := fun a b => decidable_of_iff _ (same_iff a b)

/-- Equal class expressions have equal texts, so the text serves as the hash key. -/
instance : Hashable ClassExpression := ⟨fun expression => hash expression.text⟩

end ClassExpression

end OwlGraph
