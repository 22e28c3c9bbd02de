import OwlGraph.Translation.Annotation

/-! Reading what a graph says about its ontology and which entities it declares. This comes
before any axiom, since the kinds of entities decide how axioms are read. -/

namespace OwlGraph

namespace Session

/-- The nodes typed as an ontology, each once. -/
def ontologyNodes (session : Session) : List Node :=
  ((session.store.withPredicate Rdf.type).filterMap fun row =>
    if row.triple.object = .resource (.named Owl.Ontology) then some row.triple.subject else none).eraseDups

def isImported (session : Session) (node : Node) : Bool :=
  (session.store.withObject node).any fun row => row.triple.predicate == Owl.imports

/-- The node that stands for the ontology: the first that no triple imports, else the first. -/
def headerNode? (session : Session) : Option Node :=
  (session.ontologyNodes.find? fun node => !session.isImported node) <|> session.ontologyNodes.head?

/-- Reads a type triple that declares an entity, a variable or by implication the kind of its
subject. A built-in entity is not worth a declaration. -/
def declare (strict : Bool) (session : Session) (row : Row) : Session :=
  match row.triple.subject.iri?, row.triple.object.iri? with
  | some iri, some type =>
    match EntityKind.ofType? type with
    | some kind =>
      let known := (session.learn iri kind).consume row.id
      if kind.isBuiltin iri then known else known.commit row.id (.of (.declaration ⟨kind, iri⟩) [])
    | none =>
      if type = Swrl.Variable then
        { session.consume row.id with ruleVariables := session.ruleVariables.insert iri }
      else if (Characteristic.ofType? type).isSome then session.learn iri .objectProperty
      else if type = Rdfs.Class ∧ !strict then session.learn iri .cls
      else session
  | _, _ => session

/-- Reads the declarations of the graph. -/
def readDeclarations (strict : Bool) (session : Session) : Session :=
  (session.unused (session.store.withPredicate Rdf.type)).foldl (declare strict) session

end Session

namespace Load

/-- Reads one triple of the header node. The first version counts, the others are reported. -/
def readHeaderTriple (id : OntologyId × Bool) (row : Row) : Load (OntologyId × Bool) := do
  let ⟨_, predicate, object⟩ := row.triple
  if predicate = Rdf.type ∧ object = .resource (.named Owl.Ontology) then
    modify (·.consume row.id)
    return id
  match object.iri? with
  | none => return id
  | some iri =>
    if predicate = Owl.versionIRI then
      let (present, versioned) := id
      if versioned then report (.severalVersions row.triple iri) none
      modify (·.consume row.id)
      return if versioned then id else (present.withVersion iri, true)
    else if predicate = Owl.imports then
      modify fun session => { session.consume row.id with ontology := session.ontology.addImport iri }
      return id
    else return id

/-- Reads the IRI, the version and the imports of the ontology. -/
def readHeader : Load Unit := do
  let session ← get
  let some node := session.headerNode? | return
  (session.ontologyNodes.filter (· != node)).forM fun other => report (.severalHeaders other) none
  let plain := match node with
    | .named iri => OntologyId.named iri none
    | .blank _ => .anonymous
  let (id, _) ← (session.store.withSubject node).foldlM readHeaderTriple (plain, false)
  modify fun session => { session with header := some node, ontology := { session.ontology with id := id } }

/-- Reads the annotations of the ontology. -/
def readHeaderAnnotations : Load Unit := do
  let some node := (← get).header | return
  let notes := (← attempt (Translation.annotationsOn node)).getD []
  modify fun session => { session with ontology := notes.foldl Ontology.annotate session.ontology }

end Load

end OwlGraph
