import OwlGraph.Axiom.Basic

/-! The expressions and axioms that a graph can describe. Operands are held in lists, of which a
load accepts only those up to its limit, and an empty list of operands only when it is lax. A
restriction of a datatype restricts facets, and an atom is about a named property. -/

namespace OwlGraph

/-- The operands of a construct, at least one and no more than a list may hold. -/
def Operands {α : Type} (limit : Nat) (items : List α) : Prop := items ≠ [] ∧ items.length ≤ limit

namespace DataRange

mutual

def WellFormed (limit : Nat) : DataRange → Prop
  | .datatype _ => True
  | .combination _ operands => Operands limit operands ∧ WellFormedEach limit operands
  | .complement operand => operand.WellFormed limit
  | .oneOf values => Operands limit values
  | .restriction _ facets => facets.length ≤ limit ∧ ∀ restriction ∈ facets, restriction.facet.isFacet = true

def WellFormedEach (limit : Nat) : List DataRange → Prop
  | [] => True
  | range :: rest => range.WellFormed limit ∧ WellFormedEach limit rest

end

theorem wellFormedEach_iff {limit : Nat} {ranges : List DataRange} :
    WellFormedEach limit ranges ↔ ∀ range ∈ ranges, range.WellFormed limit := by
  induction ranges with
  | nil => simp [WellFormedEach]
  | cons range rest ih => simp [WellFormedEach, ih]

end DataRange

namespace ClassExpression

mutual

def WellFormed (limit : Nat) : ClassExpression → Prop
  | .named _ | .objectHasValue _ _ | .hasSelf _ | .dataHasValue _ _ => True
  | .combination _ operands => Operands limit operands ∧ WellFormedEach limit operands
  | .complement operand => operand.WellFormed limit
  | .oneOf individuals => Operands limit individuals
  | .objectValues _ _ filler => filler.WellFormed limit
  | .objectCardinality _ _ _ none | .dataCardinality _ _ _ none => True
  | .objectCardinality _ _ _ (some filler) => filler.WellFormed limit
  | .dataValues _ _ filler => filler.WellFormed limit
  | .dataCardinality _ _ _ (some filler) => filler.WellFormed limit

def WellFormedEach (limit : Nat) : List ClassExpression → Prop
  | [] => True
  | expression :: rest => expression.WellFormed limit ∧ WellFormedEach limit rest

end

theorem wellFormedEach_iff {limit : Nat} {expressions : List ClassExpression} :
    WellFormedEach limit expressions ↔ ∀ expression ∈ expressions, expression.WellFormed limit := by
  induction expressions with
  | nil => simp [WellFormedEach]
  | cons expression rest ih => simp [WellFormedEach, ih]

end ClassExpression

namespace Atom

def WellFormed (limit : Nat) : Atom → Prop
  | .cls expression _ => expression.WellFormed limit
  | .dataRange range _ => range.WellFormed limit
  | .objectProperty property _ _ => property.isNamed = true
  | .builtin _ arguments => arguments.length ≤ limit
  | .dataProperty _ _ _ | .sameIndividual _ _ | .differentIndividuals _ _ => True

end Atom

/-- A conjunction that a list holds. -/
def Rule.Conjunction (limit : Nat) (atoms : List Atom) : Prop :=
  atoms.length ≤ limit ∧ ∀ atom ∈ atoms, atom.WellFormed limit

namespace Axiom

/-- Whether the axiom is written as a node that gathers its operands. -/
def isGathered : Axiom → Bool
  | .disjointClasses operands => 2 < operands.length
  | .differentIndividuals operands => 2 < operands.length
  | .disjointObjectProperties operands => 2 < operands.length
  | .disjointDataProperties operands => 2 < operands.length
  | .objectPropertyAssertion .negative .. | .dataPropertyAssertion .negative .. | .rule _ => true
  | _ => false

/-- How many operands of one kind the axiom has, if they are not a fixed number. -/
def arity? : Axiom → Option Nat
  | .equivalentClasses operands | .disjointClasses operands => some operands.length
  | .sameIndividual operands | .differentIndividuals operands => some operands.length
  | .equivalentObjectProperties operands | .disjointObjectProperties operands => some operands.length
  | .equivalentDataProperties operands | .disjointDataProperties operands => some operands.length
  | _ => none

/-- The expressions of the axiom are well formed. -/
def Sound (limit : Nat) : Axiom → Prop
  | .equivalentClasses classes | .disjointClasses classes => ∀ cls ∈ classes, cls.WellFormed limit
  | .disjointUnion _ parts => Operands limit parts ∧ ∀ cls ∈ parts, cls.WellFormed limit
  | .subClassOf sub sup => sub.WellFormed limit ∧ sup.WellFormed limit
  | .classAssertion cls _ => cls.WellFormed limit
  | .inverseObjectProperties first _ => first.isNamed = true
  | .objectPropertyDomain _ cls | .objectPropertyRange _ cls | .dataPropertyDomain _ cls => cls.WellFormed limit
  | .subPropertyChainOf chain _ => Operands limit chain
  | .dataPropertyRange _ range | .datatypeDefinition _ range => range.WellFormed limit
  | .hasKey cls objectProperties dataProperties =>
    cls.WellFormed limit ∧ objectProperties.length + dataProperties.length ≤ limit
  | .rule implication => Rule.Conjunction limit implication.body ∧ Rule.Conjunction limit implication.head
  | _ => True

/-- The expressions of the axiom are well formed, and a list can hold the operands that a node
gathers. The first of two inverse properties is a named one. -/
def WellFormed (limit : Nat) (bare : Axiom) : Prop :=
  bare.Sound limit ∧ ∀ count, bare.arity? = some count → 2 < count → count ≤ limit

end Axiom

end OwlGraph
