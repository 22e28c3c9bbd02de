import OwlGraph.Translation.Annotation
import OwlGraph.Translation.Atom

/-! Reading the axiom that a candidate triple stands for. Most axioms are one triple and hang on
its predicate; those that are spread over the triples of a node are entered through the type
of the node and carry the annotations of the node. -/

namespace OwlGraph

/-- Whether an equivalence of classes defines a datatype. -/
def Session.definesDatatype (session : Session) (subject : Node) (object : Term) : Bool :=
  subject.iri?.any fun iri =>
    !session.hasKind iri .cls && (session.hasKind iri .datatype || session.shape? object == some .dataRange)

namespace Translation

/-- Reads the expressions of a list of operands. -/
def operandsWith {α : Type} (readElement : Term → Translation α) (head : Term) : Translation (List α) := do
  (← operands head).mapM readElement

/-- The class expression that a constructor on a named class says it is equivalent to. -/
def classDefinition (predicate : Iri) (object : Term) : Translation ClassExpression := do
  if predicate = Owl.intersectionOf then
    return .combination .intersection (← operandsWith classExpression object)
  else if predicate = Owl.unionOf then return .combination .union (← operandsWith classExpression object)
  else if predicate = Owl.complementOf then return .complement (← classExpression object)
  else return .oneOf (← operandsWith individual object)

/-- Puts a key property with those of its kind. -/
def keyProperty (keys : Array PropertyExpression × Array Iri) (property : Term) :
    Translation (Array PropertyExpression × Array Iri) := do
  let kind ← match property with
    | .resource (.named iri) => resolveProperty iri none
    | .resource (.blank _) => pure .object
    | .literal _ => unexpected .keyProperty property
  match kind with
  | .object => return (keys.1.push (← propertyExpression property), keys.2)
  | .data => return (keys.1, keys.2.push (← dataProperty property))
  | .annotating => unexpected .objectOrDataProperty property

def hasKey (subject object : Term) : Translation Axiom := do
  let cls ← classExpression subject
  let keys ← (← readList object).foldlM keyProperty (#[], #[])
  return .hasKey cls keys.1.toList keys.2.toList

def subPropertyOf (subject object : Term) : Translation Axiom := do
  match ← pairKind subject object with
  | .object => return .subObjectPropertyOf (← propertyExpression subject) (← propertyExpression object)
  | .data => return .subDataPropertyOf (← dataProperty subject) (← dataProperty object)
  | .annotating =>
    return .subAnnotationPropertyOf (← named .annotationProperty subject) (← named .annotationProperty object)

def equivalentProperties (subject object : Term) : Translation Axiom := do
  match ← pairKind subject object with
  | .object => return .equivalentObjectProperties [← propertyExpression subject, ← propertyExpression object]
  | .data => return .equivalentDataProperties [← dataProperty subject, ← dataProperty object]
  | .annotating => unexpected .objectOrDataProperty subject

def disjointPair (subject object : Term) : Translation Axiom := do
  match ← pairKind subject object with
  | .object => return .disjointObjectProperties [← propertyExpression subject, ← propertyExpression object]
  | .data => return .disjointDataProperties [← dataProperty subject, ← dataProperty object]
  | .annotating => unexpected .objectOrDataProperty subject

def propertyDomain (subject : Node) (object : Term) : Translation Axiom := do
  match ← subjectKind subject none with
  | .object => return .objectPropertyDomain (← propertyExpression subject) (← classExpression object)
  | .data => return .dataPropertyDomain (← dataProperty subject) (← classExpression object)
  | .annotating => return .annotationPropertyDomain (← named .annotationProperty subject) (← named .iri object)

def propertyRange (subject : Node) (object : Term) : Translation Axiom := do
  let hint := ((← get).shape? object).map fun
    | .cls => .object
    | .dataRange => .data
  match ← subjectKind subject hint with
  | .object => return .objectPropertyRange (← propertyExpression subject) (← classExpression object)
  | .data => return .dataPropertyRange (← dataProperty subject) (← dataRange object)
  | .annotating => return .annotationPropertyRange (← named .annotationProperty subject) (← named .iri object)

/-- The kind of the property of an assertion. When nothing declares the property, the value
tells it in the end. -/
def assertionKind (predicate : Iri) (object : Term) : Translation PropertyKind := do
  match (← get).propertyKind? predicate with
  | some kind => return kind
  | none =>
    unless (← read).forced do defer predicate
    if (← read).config.danglingAsAnnotations then
      learn predicate .annotationProperty
      return .annotating
    let ofData := object.literal?.isSome
    recover (.undeclaredPredicate predicate ofData)
    return if ofData then .data else .object

/-- A triple whose predicate is a property of the ontology. -/
def assertion (subject : Node) (predicate : Iri) (object : Term) : Translation Axiom := do
  match ← assertionKind predicate object with
  | .annotating => return .annotationAssertion predicate (← individualOf subject) (← annotationValue object)
  | .object =>
    return .objectPropertyAssertion .positive (← propertyExpression predicate) (← individual subject)
      (← individual object)
  | .data =>
    return .dataPropertyAssertion .positive (← dataProperty predicate) (← individual subject) (← literal object)

/-- The axiom of a triple that is no type triple. -/
def predicateAxiom (subject : Node) (predicate : Iri) (object : Term) : Translation Axiom := do
  if predicate = Rdfs.subClassOf then return .subClassOf (← classExpression subject) (← classExpression object)
  else if predicate = Owl.equivalentClass then
    if (← get).definesDatatype subject object then
      return .datatypeDefinition (← named .datatype subject) (← dataRange object)
    else return .equivalentClasses [← classExpression subject, ← classExpression object]
  else if predicate = Owl.disjointWith then
    return .disjointClasses [← classExpression subject, ← classExpression object]
  else if predicate = Owl.disjointUnionOf then
    let cls ← named .namedClass subject
    learn cls .cls
    return .disjointUnion cls (← operandsWith classExpression object)
  else if predicate = Owl.hasKey then hasKey subject object
  else if predicate = Rdfs.subPropertyOf then subPropertyOf subject object
  else if predicate = Owl.propertyChainAxiom then
    let sup ← propertyExpression subject
    return .subPropertyChainOf (← operandsWith propertyExpression object) sup
  else if predicate = Owl.equivalentProperty then equivalentProperties subject object
  else if predicate = Owl.propertyDisjointWith then disjointPair subject object
  else if predicate = Owl.inverseOf then
    return .inverseObjectProperties (← propertyExpression subject) (← propertyExpression object)
  else if predicate = Rdfs.domain then propertyDomain subject object
  else if predicate = Rdfs.range then propertyRange subject object
  else if predicate = Owl.sameAs then return .sameIndividual [← individual subject, ← individual object]
  else if predicate = Owl.differentFrom then
    return .differentIndividuals [← individual subject, ← individual object]
  else if Role.definitionPredicates.contains predicate then
    let cls ← classExpression subject
    return .equivalentClasses [cls, ← classDefinition predicate object]
  else assertion subject predicate object

def functionalProperty (subject : Node) : Translation Axiom := do
  match ← subjectKind subject none with
  | .object => return .characteristic .functional (← propertyExpression subject)
  | .data => return .functionalDataProperty (← dataProperty subject)
  | .annotating => unexpected .objectOrDataProperty subject

def classAssertion (subject : Node) (object : Term) : Translation Axiom := do
  if object.literal?.isSome then unexpected .cls object
  let cls ← classExpression object
  return .classAssertion cls (← individual subject)

/-- The axiom of a type triple that does not enter a node. -/
def typeAxiom (subject : Node) (object : Term) : Translation Axiom := do
  match object.iri? with
  | some type =>
    if type = Owl.FunctionalProperty then functionalProperty subject
    else match Characteristic.ofType? type with
      | some trait => return .characteristic trait (← propertyExpression subject)
      | none => classAssertion subject object
  | none => classAssertion subject object

/-- The disjointness of the properties in a list. -/
def disjointProperties (members : List Term) : Translation Axiom := do
  match ← commonKind members with
  | .object => return .disjointObjectProperties (← members.mapM propertyExpression)
  | .data => return .disjointDataProperties (← members.mapM dataProperty)
  | .annotating => fail .disjointAnnotationProperties

def negativeAssertion (node : Node) : Translation Axiom := do
  let subject ← individual (← singleObject node Owl.sourceIndividual)
  let property ← singleObject node Owl.assertionProperty
  if ((← get).store.matching node Owl.targetValue).isEmpty then
    let target ← singleObject node Owl.targetIndividual
    return .objectPropertyAssertion .negative (← propertyExpression property) subject (← individual target)
  else
    let value ← singleObject node Owl.targetValue
    return .dataPropertyAssertion .negative (← dataProperty property) subject (← literal value)

def rule (node : Node) : Translation Rule := do
  let body ← singleObject node Swrl.body
  let head ← singleObject node Swrl.head
  return ⟨← atoms body, ← atoms head⟩

/-- The axiom that a node of one of the axiom types stands for. -/
def nodeAxiom (node : Node) (type : Iri) : Translation Axiom := do
  if type = Owl.AllDisjointClasses then
    return .disjointClasses (← operandsWith classExpression (← singleObject node Owl.members))
  else if type = Owl.AllDisjointProperties then
    disjointProperties (← readList (← singleObject node Owl.members))
  else if type = Owl.AllDifferent then
    let predicate :=
      if ((← get).store.matching node Owl.members).isEmpty then Owl.distinctMembers else Owl.members
    return .differentIndividuals (← operandsWith individual (← singleObject node predicate))
  else if type = Owl.NegativePropertyAssertion then negativeAssertion node
  else return .rule (← rule node)

/-- The axiom that the triple stands for. -/
def statement (triple : Triple) : Translation AnnotatedAxiom := do
  let ⟨subject, predicate, object⟩ := triple
  if predicate = Rdf.type then
    match object.iri?.filter Role.axiomTypes.contains with
    | some type =>
      let bare ← nodeAxiom subject type
      return .of bare (← annotationsOn subject)
    | none => return .of (← typeAxiom subject object) []
  else return .of (← predicateAxiom subject predicate object) []

end Translation

end OwlGraph
