import OwlGraph.Rdf.Term

/-! What can go wrong in a translation. A problem is a cause; its kind, its message, the node
and triples it concerns and the patterns that were tried follow from the cause. A warning
tells of input that was repaired or passed over, an error of an axiom that was given up. -/

namespace OwlGraph

inductive ProblemKind where
  | structuralAmbiguity
  | malformedList
  | missingRequiredTriple
  | numericFormat
  | unresolvedForwardReference
  | multipleValues
  | invalidValue
  | unparsedTriple
deriving DecidableEq

def ProblemKind.phrase : ProblemKind → String
  | .structuralAmbiguity => "structural ambiguity"
  | .malformedList => "malformed list"
  | .missingRequiredTriple => "missing required triple"
  | .numericFormat => "numeric format error"
  | .unresolvedForwardReference => "unresolved forward reference"
  | .multipleValues => "multiple values"
  | .invalidValue => "invalid value"
  | .unparsedTriple => "unparsed triple"

inductive Severity where
  | warning
  | error
deriving DecidableEq

/-- What a term should have been. -/
inductive Expectation where
  | annotationProperty
  | atom
  | builtin
  | cls
  | classExpression
  | dataProperty
  | dataRange
  | datatype
  | facetRestriction
  | individual
  | iri
  | keyProperty
  | literal
  | namedClass
  | namedObjectProperty
  | objectOrDataProperty
  | objectPropertyExpression
  | property
  | tripleSubject
deriving DecidableEq

def Expectation.phrase : Expectation → String
  | .annotationProperty => "an annotation property"
  | .atom => "a SWRL atom"
  | .builtin => "a built-in"
  | .cls => "a class"
  | .classExpression => "a class expression"
  | .dataProperty => "a data property"
  | .dataRange => "a data range"
  | .datatype => "a datatype"
  | .facetRestriction => "a facet restriction"
  | .individual => "an individual"
  | .iri => "an IRI"
  | .keyProperty => "a key property"
  | .literal => "a literal"
  | .namedClass => "a named class"
  | .namedObjectProperty => "a named object property"
  | .objectOrDataProperty => "an object or data property"
  | .objectPropertyExpression => "an object property expression"
  | .property => "a property"
  | .tripleSubject => "the subject of a triple"

/-- Why a chain of list nodes is no list. -/
inductive ListFlaw where
  | notANode (term : Term)
  | loop (node : Node)
  | tooLong (limit : Nat)
  | gap (node : Node) (predicate : Iri)
  | fork (node : Node) (predicate : Iri) (triples : List Triple)
deriving DecidableEq

inductive Problem where
  /-- Another node is typed as an ontology too. -/
  | severalHeaders (other : Node)
  /-- The triple gives the header one more version. -/
  | severalVersions (triple : Triple) (version : Iri)
  /-- The triple still waits for the kind of a property when nothing can tell it any more. -/
  | unsettled (triple : Triple)
  /-- No translation made use of the triple. -/
  | unparsed (triple : Triple)
  /-- Nothing tells the kind of the property. -/
  | undeclaredProperty (iri : Iri)
  /-- Only the value of an assertion tells the kind of its property. -/
  | undeclaredPredicate (iri : Iri) (ofData : Bool)
  /-- The node is part of the construct it stands for. -/
  | selfContained (node : Node)
  /-- The triples of the node fit no pattern of the family, not even leniently. -/
  | noPattern (node : Node) (family : String) (patterns : List String) (triples : List Triple)
  /-- The triples of the node fit patterns of the family only leniently; the first is used. -/
  | lenient (node : Node) (family : String) (pattern : String) (others : List String) (triples : List Triple)
  | noValue (node : Node) (predicate : Iri)
  | severalValues (node : Node) (predicate : Iri) (used : Term) (triples : List Triple)
  | unexpected (expectation : Expectation) (found : Term)
  | cardinalityTooLarge (literal : Literal) (limit : Nat)
  | cardinalityMalformed (literal : Literal)
  | cardinalityDatatype (literal : Literal)
  /-- The value of a self restriction is not true. -/
  | selfNotTrue (node : Node) (literal : Literal)
  | facetCount (node : Node)
  | malformedList (head : Term) (flaw : ListFlaw)
  | emptyOperands (head : Term)
  | disjointAnnotationProperties
  | annotatedTripleMissing (node : Node) (triple : Triple)
  | annotatedTripleNoAxiom (node : Node) (triple : Triple)
  | annotatedTripleRefused (triple : Triple)
deriving DecidableEq

namespace Problem

def kind : Problem → ProblemKind
  | .severalHeaders .. | .severalVersions .. | .severalValues .. => .multipleValues
  | .unsettled .. | .undeclaredProperty .. | .undeclaredPredicate .. => .unresolvedForwardReference
  | .unparsed .. => .unparsedTriple
  | .noPattern .. | .noValue .. | .facetCount .. | .annotatedTripleMissing .. => .missingRequiredTriple
  | .lenient .. => .structuralAmbiguity
  | .cardinalityTooLarge .. | .cardinalityMalformed .. => .numericFormat
  | .malformedList .. => .malformedList
  | .selfContained .. | .unexpected .. | .cardinalityDatatype .. | .selfNotTrue .. | .emptyOperands ..
  | .disjointAnnotationProperties | .annotatedTripleNoAxiom .. | .annotatedTripleRefused .. => .invalidValue

def severity : Problem → Severity
  | .severalHeaders .. | .severalVersions .. | .unparsed .. | .undeclaredProperty .. | .undeclaredPredicate ..
  | .lenient .. | .severalValues .. | .cardinalityDatatype .. | .emptyOperands ..
  | .annotatedTripleMissing .. =>
    .warning
  | _ => .error

def flawMessage : ListFlaw → String
  | .notANode term => s!"{term.text} cannot be a list node"
  | .loop node => s!"the list loops back to {node.text}"
  | .tooLong limit => s!"the list is longer than {Nat.repr limit} elements"
  | .gap node predicate => s!"{node.text} has no {predicate.text}"
  | .fork node predicate _ => s!"{node.text} has several {predicate.text} values"

def message : Problem → String
  | .severalHeaders other => s!"several ontology headers, {other.text} is ignored"
  | .severalVersions _ version => s!"several version IRIs, {version.text} is ignored"
  | .unsettled _ => "the triple could not be translated"
  | .unparsed triple => s!"{triple.text} was not translated into any axiom"
  | .undeclaredProperty iri => s!"{iri.text} is never declared, reading it as an object property"
  | .undeclaredPredicate iri false =>
    s!"{iri.text} is never declared, reading it as an object property from its value"
  | .undeclaredPredicate iri true =>
    s!"{iri.text} is never declared, reading it as a data property from its value"
  | .selfContained _ => "the construct contains itself"
  | .noPattern node family _ _ => s!"{node.text} lacks the triples of every {family} pattern"
  | .lenient node _ pattern [] _ =>
    s!"{node.text} does not follow the RDF mapping of {pattern}, reading it leniently"
  | .lenient node family pattern (_ :: _) _ =>
    s!"{node.text} matches several {family} patterns, using {pattern}"
  | .noValue node predicate => s!"{node.text} has no {predicate.text} value"
  | .severalValues node predicate used _ =>
    s!"{node.text} has several {predicate.text} values, using {used.text}"
  | .unexpected expectation found => s!"expected {expectation.phrase}, found {found.text}"
  | .cardinalityTooLarge literal limit => s!"the cardinality {literal.text} is larger than {Nat.repr limit}"
  | .cardinalityMalformed literal => s!"the cardinality {literal.text} is not a non-negative integer"
  | .cardinalityDatatype literal => s!"the cardinality {literal.text} should be an xsd:nonNegativeInteger"
  | .selfNotTrue _ literal => s!"owl:hasSelf must be true, found {literal.text}"
  | .facetCount node => s!"{node.text} should restrict exactly one facet"
  | .malformedList _ flaw => flawMessage flaw
  | .emptyOperands _ => "the operand list is empty"
  | .disjointAnnotationProperties => "annotation properties cannot be disjoint"
  | .annotatedTripleMissing _ triple =>
    s!"the annotated triple {triple.text} is missing from the graph, adding it"
  | .annotatedTripleNoAxiom _ triple => s!"the annotated triple {triple.text} does not stand for an axiom"
  | .annotatedTripleRefused triple => s!"the annotated triple {triple.text} cannot be added"

/-- The term the problem was found on. -/
def subject? : Problem → Option Term
  | .severalHeaders node | .selfContained node | .noPattern node .. | .lenient node .. | .noValue node _
  | .severalValues node .. | .selfNotTrue node _ | .facetCount node | .annotatedTripleMissing node _
  | .annotatedTripleNoAxiom node _ => some node
  | .undeclaredProperty iri | .undeclaredPredicate iri _ => some iri
  | .unexpected _ found => some found
  | .cardinalityTooLarge literal _ | .cardinalityMalformed literal => some literal
  | .malformedList head _ | .emptyOperands head => some head
  | .severalVersions .. | .unsettled .. | .unparsed .. | .cardinalityDatatype .. | .disjointAnnotationProperties
  | .annotatedTripleRefused .. => none

def triples : Problem → List Triple
  | .severalVersions triple _ | .unsettled triple | .unparsed triple | .annotatedTripleMissing _ triple =>
    [triple]
  | .noPattern _ _ _ triples | .lenient _ _ _ _ triples | .severalValues _ _ _ triples
  | .malformedList _ (.fork _ _ triples) => triples
  | _ => []

/-- The names of the patterns that were tried or found to fit. -/
def patterns : Problem → List String
  | .noPattern _ _ patterns _ => patterns
  | .lenient _ _ pattern others _ => pattern :: others
  | _ => []

end Problem

/-- A problem as it is handed to the caller. -/
structure Report where
  problem : Problem
  severity : Severity
  /-- The triple whose axiom was given up because of the problem. -/
  candidate : Option Triple
  detailed : Bool
deriving DecidableEq

namespace Report

def triples (report : Report) : List Triple := report.problem.triples ++ report.candidate.toList

/-- The kind, the message and the node; if details are wanted, also the triples and patterns. -/
def text (report : Report) : String :=
  let problem := report.problem
  let subject := match problem.subject? with
    | some term => s!" (on {term.text})"
    | none => ""
  let details :=
    if report.detailed then
      report.triples.map (fun triple => "\n  triple: " ++ triple.text) ++
        if problem.patterns.isEmpty then [] else ["\n  attempted: " ++ ", ".intercalate problem.patterns]
    else []
  problem.kind.phrase ++ ": " ++ problem.message ++ subject ++ String.join details

end Report

end OwlGraph
