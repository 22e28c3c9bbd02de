import OwlGraph.Axiom.Mapping
import OwlGraph.Ontology.Basic
import OwlGraph.Proofs.Description
import OwlGraph.Proofs.WellFormed

/-! What it means for a graph to describe an axiom. Most axioms are stated by one triple between
two operands, some by a triple for every two neighbours among the operands, and others are
gathered by a node. An annotation is a triple about its source, and a pointer at that triple
where the annotation is itself annotated. -/

namespace OwlGraph

/-- The term stands for itself. -/
def Standing (value : Term) (term : Term) (block : List Triple) : Prop := term = value ∧ block = []

/-- The term is the list of what is described one after the other. -/
def Listed (graph : List Triple) (each : List Term → List Triple → Prop) (head : Term) (block : List Triple) : Prop :=
  ∃ elements parts chain, each elements parts ∧ Chain graph elements head chain ∧ block = parts ++ chain

/-- The triple relates what is described first to what is described second. -/
def Joined (first second : Term → List Triple → Prop) (predicate : Iri) (main : Triple) (block : List Triple) : Prop :=
  ∃ (subject : Node) (object : Term) (left right : List Triple), first subject left ∧ second object right ∧
    main = ⟨subject, predicate, object⟩ ∧ block = left ++ right

/-- The properties of a key, those of objects before those of data. -/
def KeysDescribed (graph : List Triple) (objectProperties : List PropertyExpression) (dataProperties : List Iri)
    (terms : List Term) (block : List Triple) : Prop :=
  ∃ elements, Each (PropertyExpression.Described graph) objectProperties elements block ∧
    terms = elements ++ dataProperties.map fun iri : Iri => (iri : Term)

/-- On this node the predicates have these values and no others. -/
def Bears (graph : List Triple) (node : BlankNode) (values : List (Iri × Term)) : Prop :=
  ∀ predicate ∈ values.map Prod.fst, ∀ object : Term,
    (⟨node, predicate, object⟩ : Triple) ∈ graph ↔ (predicate, object) ∈ values

/-- Of what describes the inside of a construct, the node has just these values. -/
def Gathers (graph : List Triple) (node : BlankNode) (values : List (Iri × Term)) : Prop :=
  ∀ predicate ∈ Role.structuralPredicates, ∀ object : Term,
    (⟨node, predicate, object⟩ : Triple) ∈ graph ↔ (predicate, object) ∈ values

/-- What is said about the node of an ontology, apart from annotations. -/
def headerTriples (ontology : Ontology) (node : Node) : List Triple :=
  ⟨node, Rdf.type, Owl.Ontology⟩ ::
    (ontology.id.version?.toList.map (fun version : Iri => (⟨node, Owl.versionIRI, version⟩ : Triple)) ++
      ontology.imports.map fun iri : Iri => (⟨node, Owl.imports, iri⟩ : Triple))

theorem subject_headerTriples {ontology : Ontology} {node : Node} : ∀ triple ∈ headerTriples ontology node, triple.subject = node := by
  simp only [headerTriples, List.forall_mem_cons, List.forall_mem_append, List.forall_mem_map, implies_true, and_self]

/-- The triple that declares a variable. -/
def variableTriple (iri : Iri) : Triple := ⟨iri, Rdf.type, Swrl.Variable⟩

/-- Every two neighbours. -/
def neighbourPairs {α : Type} (items : List α) : List (α × α) := items.zip items.tail

namespace Axiom

/-- The axioms that together say the same and that one triple each can state. An axiom that is
gathered by a node is its own piece. -/
def pieces (bare : Axiom) : List Axiom :=
  if bare.isGathered then [bare]
  else match bare with
    | .equivalentClasses classes => (neighbourPairs classes).map fun pair => .equivalentClasses [pair.1, pair.2]
    | .disjointClasses classes => (neighbourPairs classes).map fun pair => .disjointClasses [pair.1, pair.2]
    | .sameIndividual individuals => (neighbourPairs individuals).map fun pair => .sameIndividual [pair.1, pair.2]
    | .differentIndividuals individuals =>
      (neighbourPairs individuals).map fun pair => .differentIndividuals [pair.1, pair.2]
    | .equivalentObjectProperties properties =>
      (neighbourPairs properties).map fun pair => .equivalentObjectProperties [pair.1, pair.2]
    | .disjointObjectProperties properties =>
      (neighbourPairs properties).map fun pair => .disjointObjectProperties [pair.1, pair.2]
    | .equivalentDataProperties properties =>
      (neighbourPairs properties).map fun pair => .equivalentDataProperties [pair.1, pair.2]
    | .disjointDataProperties properties =>
      (neighbourPairs properties).map fun pair => .disjointDataProperties [pair.1, pair.2]
    | .objectPropertyAssertion .positive (.inverse property) subject object =>
      [.objectPropertyAssertion .positive (.named property) object subject]
    | statement => [statement]

/-- The triple states the axiom, and the block describes its operands. -/
def Stated (graph : List Triple) : Axiom → Triple → List Triple → Prop
  | .declaration entity => Joined (Standing entity.iri) (Standing entity.kind.type) Rdf.type
  | .equivalentClasses [first, second] => Joined (first.Described graph) (second.Described graph) Owl.equivalentClass
  | .subClassOf sub sup => Joined (sub.Described graph) (sup.Described graph) Rdfs.subClassOf
  | .disjointClasses [first, second] => Joined (first.Described graph) (second.Described graph) Owl.disjointWith
  | .disjointUnion cls parts =>
    Joined (Standing cls) (Listed graph (Each (ClassExpression.Described graph) parts)) Owl.disjointUnionOf
  | .classAssertion cls individual => Joined (Standing individual) (cls.Described graph) Rdf.type
  | .sameIndividual [first, second] => Joined (Standing first) (Standing second) Owl.sameAs
  | .differentIndividuals [first, second] => Joined (Standing first) (Standing second) Owl.differentFrom
  | .objectPropertyAssertion .positive (.named property) subject object =>
    Joined (Standing subject) (Standing object) property
  | .dataPropertyAssertion .positive property subject value => Joined (Standing subject) (Standing value) property
  | .equivalentObjectProperties [first, second] =>
    Joined (first.Described graph) (second.Described graph) Owl.equivalentProperty
  | .subObjectPropertyOf sub sup => Joined (sub.Described graph) (sup.Described graph) Rdfs.subPropertyOf
  | .inverseObjectProperties first second => Joined (first.Described graph) (second.Described graph) Owl.inverseOf
  | .characteristic trait property => Joined (property.Described graph) (Standing trait.type) Rdf.type
  | .objectPropertyDomain property domain => Joined (property.Described graph) (domain.Described graph) Rdfs.domain
  | .objectPropertyRange property range => Joined (property.Described graph) (range.Described graph) Rdfs.range
  | .disjointObjectProperties [first, second] =>
    Joined (first.Described graph) (second.Described graph) Owl.propertyDisjointWith
  | .subPropertyChainOf chain sup => Joined (sup.Described graph)
    (Listed graph (Each (PropertyExpression.Described graph) chain)) Owl.propertyChainAxiom
  | .equivalentDataProperties [first, second] => Joined (Standing first) (Standing second) Owl.equivalentProperty
  | .subDataPropertyOf sub sup | .subAnnotationPropertyOf sub sup =>
    Joined (Standing sub) (Standing sup) Rdfs.subPropertyOf
  | .functionalDataProperty property => Joined (Standing property) (Standing Owl.FunctionalProperty) Rdf.type
  | .dataPropertyDomain property domain => Joined (Standing property) (domain.Described graph) Rdfs.domain
  | .dataPropertyRange property range => Joined (Standing property) (range.Described graph) Rdfs.range
  | .disjointDataProperties [first, second] => Joined (Standing first) (Standing second) Owl.propertyDisjointWith
  | .hasKey cls objectProperties dataProperties => Joined (cls.Described graph)
    (Listed graph (KeysDescribed graph objectProperties dataProperties)) Owl.hasKey
  | .annotationAssertion property subject value => Joined (Standing subject) (Standing value) property
  | .annotationPropertyRange property range => Joined (Standing property) (Standing range) Rdfs.range
  | .annotationPropertyDomain property domain => Joined (Standing property) (Standing domain) Rdfs.domain
  | .datatypeDefinition datatype range => Joined (Standing datatype) (range.Described graph) Owl.equivalentClass
  | _ => fun _ _ => False

/-- The predicate of the triples that state the axiom. -/
def predicate : Axiom → Iri
  | .equivalentClasses _ | .datatypeDefinition _ _ => Owl.equivalentClass
  | .subClassOf _ _ => Rdfs.subClassOf
  | .disjointClasses _ => Owl.disjointWith
  | .disjointUnion _ _ => Owl.disjointUnionOf
  | .sameIndividual _ => Owl.sameAs
  | .differentIndividuals _ => Owl.differentFrom
  | .objectPropertyAssertion _ property _ _ => property.property
  | .dataPropertyAssertion _ property _ _ | .annotationAssertion property _ _ => property
  | .equivalentObjectProperties _ | .equivalentDataProperties _ => Owl.equivalentProperty
  | .disjointObjectProperties _ | .disjointDataProperties _ => Owl.propertyDisjointWith
  | .subObjectPropertyOf _ _ | .subDataPropertyOf _ _ | .subAnnotationPropertyOf _ _ => Rdfs.subPropertyOf
  | .inverseObjectProperties _ _ => Owl.inverseOf
  | .objectPropertyDomain _ _ | .dataPropertyDomain _ _ | .annotationPropertyDomain _ _ => Rdfs.domain
  | .objectPropertyRange _ _ | .dataPropertyRange _ _ | .annotationPropertyRange _ _ => Rdfs.range
  | .subPropertyChainOf _ _ => Owl.propertyChainAxiom
  | .hasKey _ _ _ => Owl.hasKey
  | .declaration _ | .classAssertion _ _ | .characteristic _ _ | .functionalDataProperty _ | .rule _ => Rdf.type

theorem predicate_of_stated {graph : List Triple} {bare : Axiom} {main : Triple} {block : List Triple}
    (stated : bare.Stated graph main block) : main.predicate = bare.predicate := by
  unfold Stated at stated
  split at stated
  all_goals first
    | obtain ⟨_, _, _, _, -, -, rfl, -⟩ := stated
      rfl
    | exact False.elim stated

/-- The node of the type gathers the operands of the axiom in these values. The block describes
the operands. -/
def Gathered (graph : List Triple) : Axiom → Iri → List (Iri × Term) → List Triple → Prop
  | .disjointClasses classes, type, values, block => type = Owl.AllDisjointClasses ∧ ∃ head,
    Listed graph (Each (ClassExpression.Described graph) classes) head block ∧ values = [(Owl.members, head)]
  | .disjointObjectProperties properties, type, values, block => type = Owl.AllDisjointProperties ∧ ∃ head,
    Listed graph (Each (PropertyExpression.Described graph) properties) head block ∧ values = [(Owl.members, head)]
  | .disjointDataProperties properties, type, values, block => type = Owl.AllDisjointProperties ∧ ∃ head,
    Chain graph (properties.map fun iri : Iri => (iri : Term)) head block ∧ values = [(Owl.members, head)]
  | .differentIndividuals individuals, type, values, block => type = Owl.AllDifferent ∧ ∃ head,
    Chain graph (individuals.map .resource) head block ∧ values = [(Owl.members, head)]
  | .objectPropertyAssertion .negative property subject object, type, values, block =>
    type = Owl.NegativePropertyAssertion ∧ ∃ term, property.Described graph term block ∧
    values = [(Owl.sourceIndividual, (subject : Term)), (Owl.assertionProperty, term), (Owl.targetIndividual, (object : Term))]
  | .dataPropertyAssertion .negative property subject value, type, values, block =>
    type = Owl.NegativePropertyAssertion ∧ block = [] ∧
    values = [(Owl.sourceIndividual, (subject : Term)), (Owl.assertionProperty, (property : Term)), (Owl.targetValue, (value : Term))]
  | .rule implication, type, values, block => type = Swrl.Imp ∧ ∃ body head first second,
    Listed graph (Each (Atom.Described graph) implication.body) body first ∧
    Listed graph (Each (Atom.Described graph) implication.head) head second ∧
    values = [(Swrl.body, body), (Swrl.head, head)] ∧ block = first ++ second
  | _, _, _, _ => False

end Axiom

/-- The triples of a node of the type that points at the triple. -/
def pointerValues (type : Iri) (triple : Triple) : List (Iri × Term) :=
  [(Rdf.type, type), (Owl.annotatedSource, (triple.subject : Term)), (Owl.annotatedProperty, (triple.predicate : Term)),
    (Owl.annotatedTarget, triple.object)]

/-- The predicates that make a node point at a triple. -/
def pointerPredicates : List Iri := [Rdf.type, Owl.annotatedSource, Owl.annotatedProperty, Owl.annotatedTarget]

/-- The node points at the triple and carries nothing else but the annotations. -/
structure Pointer (graph : List Triple) (type : Iri) (triple : Triple) (node : BlankNode) (notes : List Annotation) :
    Prop where
  bears : Bears graph node (pointerValues type triple)
  alone : ∀ (predicate : Iri) (object : Term), (⟨node, predicate, object⟩ : Triple) ∈ graph →
    (predicate, object) ∈ pointerValues type triple ∨ ∃ note ∈ notes, predicate = note.property ∧ object = note.value

namespace Annotation

mutual

/-- The block describes the annotation of the source. Where it is annotated itself, one node stands
for it, points at it and carries nothing but its annotations. -/
def Described (graph : List Triple) (stands : Node → Triple → Prop) (source : Node) : Annotation → List Triple → Prop
  | ⟨property, value, notes⟩, block =>
    ∃ inner, (⟨source, property, value⟩ : Triple) ∈ graph ∧ (∀ triple ∈ inner, triple.subject ≠ source) ∧
      block = ⟨source, property, value⟩ :: inner ∧
      ((notes = [] ∧ inner = [] ∧ ∀ node, ¬ stands node ⟨source, property, value⟩) ∨
        ∃ (node : BlankNode) (rest : List Triple), notes ≠ [] ∧
          (∀ other, stands other ⟨source, property, value⟩ → other = node) ∧
          Pointer graph Owl.Annotation ⟨source, property, value⟩ node notes ∧ DescribedEach graph stands node notes rest ∧
          inner = triplesAt node (pointerValues Owl.Annotation ⟨source, property, value⟩) ++ rest)

/-- The blocks of the annotations have nothing in common. -/
def DescribedEach (graph : List Triple) (stands : Node → Triple → Prop) (source : Node) : List Annotation → List Triple → Prop
  | [], block => block = []
  | note :: notes, block => ∃ first rest, Described graph stands source note first ∧
    DescribedEach graph stands source notes rest ∧
    (∀ triple ∈ first, triple ∉ rest) ∧ block = first ++ rest

end

end Annotation

end OwlGraph
