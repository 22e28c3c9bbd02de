import Mathlib.Data.List.Forall2
import OwlGraph.Axiom.Mapping
import OwlGraph.Axiom.Component
import OwlGraph.Expression.Mapping
import OwlGraph.Translation.Role

/-! What it means for a graph to describe a construct at a term. The description says which
triples a node has, but neither in which order they come nor which labels the nodes bear. It
stands between writing and reading: what is written describes the construct, and what
describes a construct is read as that construct. The last argument of a description lists the
triples that make it up. -/

namespace OwlGraph

/-- The triples of a node with these predicates and objects. -/
def triplesAt (node : BlankNode) (values : List (Iri × Term)) : List Triple :=
  values.map fun (predicate, object) => ⟨node, predicate, object⟩

/-- The node has just these values, apart from the class axioms it is the subject of. -/
def Carries (graph : List Triple) (node : BlankNode) (values : List (Iri × Term)) : Prop :=
  ∀ (predicate : Iri) (object : Term),
    ((⟨node, predicate, object⟩ : Triple) ∈ graph ∧ predicate ∉ Role.classAxiomPredicates) ↔
      (predicate, object) ∈ values

/-- The term is a node with just these values, which is no part of its parts. -/
def Construct (graph : List Triple) (values : List (Iri × Term)) (parts : List Triple) (term : Term)
    (block : List Triple) : Prop :=
  ∃ node : BlankNode, term = node ∧ Carries graph node values ∧ (∀ triple ∈ parts, triple.subject ≠ node) ∧
    block = parts ++ triplesAt node values

/-- The list that starts at the term has these elements. -/
def Chain (graph : List Triple) : List Term → Term → List Triple → Prop
  | [], head, block => head = Rdf.nil ∧ block = []
  | element :: elements, head, block => ∃ rest tail, Chain graph elements rest tail ∧
    Construct graph [(Rdf.first, element), (Rdf.rest, rest)] tail head block

/-- The terms describe the items one by one. -/
def Each {α : Type} (describes : α → Term → List Triple → Prop) : List α → List Term → List Triple → Prop
  | [], [], block => block = []
  | item :: items, term :: terms, block => ∃ first rest,
    describes item term first ∧ Each describes items terms rest ∧ block = first ++ rest
  | _, _, _ => False

theorem Each.length_eq {α : Type} {describes : α → Term → List Triple → Prop} {items : List α} {terms : List Term}
    {block : List Triple} (each : Each describes items terms block) : terms.length = items.length := by
  induction items generalizing terms block with
  | nil => cases terms with
    | nil => rfl
    | cons => cases each
  | cons item items ih => cases terms with
    | nil => cases each
    | cons term terms =>
      obtain ⟨first, rest, -, others, -⟩ := each
      rw [List.length_cons, List.length_cons, ih others]

def PropertyExpression.Described (graph : List Triple) : PropertyExpression → Term → List Triple → Prop
  | .named iri, term, block => term = iri ∧ block = []
  | .inverse iri, term, block => ∃ node : BlankNode, term = node ∧
    (∀ object : Term, (⟨node, Owl.inverseOf, object⟩ : Triple) ∈ graph ↔ object = iri) ∧
    (∀ type ∈ Role.specialTypes, (⟨node, Rdf.type, type⟩ : Triple) ∉ graph) ∧
    block = triplesAt node [(Owl.inverseOf, iri)]

def FacetRestriction.Described (graph : List Triple) (restriction : FacetRestriction) (term : Term)
    (block : List Triple) : Prop :=
  Construct graph [(restriction.facet, restriction.value)] [] term block

namespace DataRange

mutual

def Described (graph : List Triple) : DataRange → Term → List Triple → Prop
  | .datatype iri, term, block => term = iri ∧ block = []
  | .combination junction operands, term, block => ∃ elements head inner chain,
    DescribedEach graph operands elements inner ∧ Chain graph elements head chain ∧
    Construct graph [(Rdf.type, Rdfs.Datatype), (junction.predicate, head)] (inner ++ chain) term block
  | .complement operand, term, block => ∃ element inner, Described graph operand element inner ∧
    Construct graph [(Rdf.type, Rdfs.Datatype), (Owl.datatypeComplementOf, element)] inner term block
  | .oneOf values, term, block => ∃ head chain, Chain graph (values.map .literal) head chain ∧
    Construct graph [(Rdf.type, Rdfs.Datatype), (Owl.oneOf, head)] chain term block
  | .restriction base facets, term, block => ∃ elements head inner chain,
    Each (FacetRestriction.Described graph) facets elements inner ∧ Chain graph elements head chain ∧
    Construct graph [(Rdf.type, Rdfs.Datatype), (Owl.onDatatype, base), (Owl.withRestrictions, head)]
      (inner ++ chain) term block

def DescribedEach (graph : List Triple) : List DataRange → List Term → List Triple → Prop
  | [], [], block => block = []
  | range :: ranges, term :: terms, block => ∃ first rest,
    Described graph range term first ∧ DescribedEach graph ranges terms rest ∧ block = first ++ rest
  | _, _, _ => False

end

end DataRange

/-- The literal that stands for a cardinality. -/
def cardinalityTerm (cardinality : UInt32) : Term :=
  Literal.ofDatatype (cardinalityText cardinality) Xsd.nonNegativeInteger

/-- The values of a node that restricts a property. -/
def restrictionValues (property : Term) (values : List (Iri × Term)) : List (Iri × Term) :=
  (Rdf.type, (Owl.Restriction : Term)) :: (Owl.onProperty, property) :: values

namespace ClassExpression

mutual

def Described (graph : List Triple) : ClassExpression → Term → List Triple → Prop
  | .named iri, term, block => term = iri ∧ block = []
  | .combination junction operands, term, block => ∃ elements head inner chain,
    DescribedEach graph operands elements inner ∧ Chain graph elements head chain ∧
    Construct graph [(Rdf.type, Owl.Class), (junction.predicate, head)] (inner ++ chain) term block
  | .complement operand, term, block => ∃ element inner, Described graph operand element inner ∧
    Construct graph [(Rdf.type, Owl.Class), (Owl.complementOf, element)] inner term block
  | .oneOf individuals, term, block => ∃ head chain, Chain graph (individuals.map .resource) head chain ∧
    Construct graph [(Rdf.type, Owl.Class), (Owl.oneOf, head)] chain term block
  | .objectValues quantifier p filler, term, block => ∃ property own element inner,
    p.Described graph property own ∧ Described graph filler element inner ∧
    Construct graph (restrictionValues property [(quantifier.predicate, element)]) (own ++ inner) term block
  | .objectHasValue p individual, term, block => ∃ property own, p.Described graph property own ∧
    Construct graph (restrictionValues property [(Owl.hasValue, individual)]) own term block
  | .hasSelf p, term, block => ∃ property own, p.Described graph property own ∧
    Construct graph (restrictionValues property [(Owl.hasSelf, Literal.ofDatatype "true" Xsd.boolean)]) own
      term block
  | .objectCardinality bound cardinality p none, term, block => ∃ property own, p.Described graph property own ∧
    Construct graph (restrictionValues property [(bound.predicate, cardinalityTerm cardinality)]) own term block
  | .objectCardinality bound cardinality p (some filler), term, block => ∃ property own element inner,
    p.Described graph property own ∧ Described graph filler element inner ∧
    Construct graph (restrictionValues property
      [(bound.qualifiedPredicate, cardinalityTerm cardinality), (Owl.onClass, element)]) (own ++ inner) term block
  | .dataValues quantifier p filler, term, block => ∃ element inner, filler.Described graph element inner ∧
    Construct graph (restrictionValues p [(quantifier.predicate, element)]) inner term block
  | .dataHasValue p value, term, block =>
    Construct graph (restrictionValues p [(Owl.hasValue, value)]) [] term block
  | .dataCardinality bound cardinality p none, term, block =>
    Construct graph (restrictionValues p [(bound.predicate, cardinalityTerm cardinality)]) [] term block
  | .dataCardinality bound cardinality p (some filler), term, block => ∃ element inner,
    filler.Described graph element inner ∧
    Construct graph (restrictionValues p
      [(bound.qualifiedPredicate, cardinalityTerm cardinality), (Owl.onDataRange, element)]) inner term block

def DescribedEach (graph : List Triple) : List ClassExpression → List Term → List Triple → Prop
  | [], [], block => block = []
  | expression :: expressions, term :: terms, block => ∃ first rest,
    Described graph expression term first ∧ DescribedEach graph expressions terms rest ∧ block = first ++ rest
  | _, _, _ => False

end

end ClassExpression

theorem DataRange.describedEach_eq (graph : List Triple) : ∀ ranges terms block,
    DataRange.DescribedEach graph ranges terms block ↔ Each (DataRange.Described graph) ranges terms block
  | [], [], _ => Iff.rfl
  | [], _ :: _, _ | _ :: _, [], _ => Iff.rfl
  | _ :: ranges, _ :: terms, _ => by
    simp only [DataRange.DescribedEach, Each, describedEach_eq graph ranges terms]

theorem ClassExpression.describedEach_eq (graph : List Triple) : ∀ expressions terms block,
    ClassExpression.DescribedEach graph expressions terms block ↔
      Each (ClassExpression.Described graph) expressions terms block
  | [], [], _ => Iff.rfl
  | [], _ :: _, _ | _ :: _, [], _ => Iff.rfl
  | _ :: expressions, _ :: terms, _ => by
    simp only [ClassExpression.DescribedEach, Each, describedEach_eq graph expressions terms]

/-- An argument of an atom; a variable must be declared. -/
def IndividualArgument.Described (graph : List Triple) : IndividualArgument → Term → Prop
  | .variable iri, term => term = iri ∧ (⟨iri, Rdf.type, Swrl.Variable⟩ : Triple) ∈ graph
  | .individual node, term => term = node

def DataArgument.Described (graph : List Triple) : DataArgument → Term → Prop
  | .variable iri, term => term = iri ∧ (⟨iri, Rdf.type, Swrl.Variable⟩ : Triple) ∈ graph
  | .literal value, term => term = value

namespace Atom

/-- The values of a node that relates two arguments. -/
def binaryValues (type : Iri) (first second : Term) : List (Iri × Term) :=
  [(Rdf.type, type), (Swrl.argument1, first), (Swrl.argument2, second)]

/-- An atom of an inverse property is not described by anything. -/
def Described (graph : List Triple) : Atom → Term → List Triple → Prop
  | .cls expression argument, term, block => ∃ element inner value, expression.Described graph element inner ∧
    argument.Described graph value ∧
    Construct graph [(Rdf.type, Swrl.ClassAtom), (Swrl.classPredicate, element), (Swrl.argument1, value)] inner
      term block
  | .dataRange range argument, term, block => ∃ element inner value, range.Described graph element inner ∧
    argument.Described graph value ∧
    Construct graph [(Rdf.type, Swrl.DataRangeAtom), (Swrl.dataRange, element), (Swrl.argument1, value)] inner
      term block
  | .objectProperty (.named property) subject object, term, block => ∃ first second,
    subject.Described graph first ∧ object.Described graph second ∧
    Construct graph (binaryValues Swrl.IndividualPropertyAtom first second ++ [(Swrl.propertyPredicate, (property : Term))])
      [] term block
  | .objectProperty (.inverse _) _ _, _, _ => False
  | .dataProperty property subject object, term, block => ∃ first second,
    subject.Described graph first ∧ object.Described graph second ∧
    Construct graph (binaryValues Swrl.DatavaluedPropertyAtom first second ++ [(Swrl.propertyPredicate, (property : Term))])
      [] term block
  | .sameIndividual subject object, term, block => ∃ first second,
    subject.Described graph first ∧ object.Described graph second ∧
    Construct graph (binaryValues Swrl.SameIndividualAtom first second) [] term block
  | .differentIndividuals subject object, term, block => ∃ first second,
    subject.Described graph first ∧ object.Described graph second ∧
    Construct graph (binaryValues Swrl.DifferentIndividualsAtom first second) [] term block
  | .builtin predicate arguments, term, block => ∃ elements head chain,
    List.Forall₂ (DataArgument.Described graph) arguments elements ∧ Chain graph elements head chain ∧
    Construct graph [(Rdf.type, Swrl.BuiltinAtom), (Swrl.builtin, predicate), (Swrl.arguments, head)] chain
      term block

end Atom

end OwlGraph
