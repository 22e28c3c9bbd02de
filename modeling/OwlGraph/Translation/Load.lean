import OwlGraph.Rdf.Lines
import OwlGraph.Translation.Header
import OwlGraph.Translation.Statement

/-! Loading an ontology from the triples of a graph: the header, the declarations, the
annotations of the ontology, the axioms, the annotations of axioms, and at last a report of
what is left. Axioms are translated in passes. A triple that needs the kind of a property which
nothing tells yet waits for the next pass; when a pass gets nowhere, a forced one settles what
still waits by defaults. -/

namespace OwlGraph

namespace Session

/-- The structural blank nodes among the ends of a triple. -/
def structuralObject? (session : Session) (triple : Triple) : Option Node :=
  (triple.object.blank?.map Node.blank).filter session.isStructural

/-- The triples of a node that vanish with a construct it is part of. -/
def constructRows (session : Session) (node : Node) : List Row :=
  (session.store.withSubject node).filter fun row =>
    !Role.classAxiomPredicates.contains row.triple.predicate

/-- The nodes of the constructs that hang from the waiting nodes. Every triple brings a node at
most once to the waiting ones. -/
def constructNodes (session : Session) : Nat → List Node → List Node → List Node
  | 0, _, seen | _, [], seen => seen
  | steps + 1, node :: waiting, seen =>
    if seen.contains node then session.constructNodes steps waiting seen
    else
      let next := (session.constructRows node).filterMap fun row => session.structuralObject? row.triple
      session.constructNodes steps (next.reverse ++ waiting) (node :: seen)

/-- Uses up a triple whose axiom was given up, and the constructs that hang from it. -/
def discard (session : Session) (row : Row) : Session :=
  let ends := (session.structuralObject? row.triple).toList ++
    if session.isStructural row.triple.subject then [row.triple.subject] else []
  let nodes := session.constructNodes (session.store.entries.size + 2) ends []
  (session.consume row.id).consumeAll (nodes.flatMap session.constructRows)

/-- The nodes that stand for annotated axioms and are not used yet, each once. -/
def axiomNodes (session : Session) : List Node :=
  ((session.unused (session.store.withObject Owl.Axiom)).filterMap fun row =>
    if row.triple.predicate = Rdf.type then some row.triple.subject else none).eraseDups

/-- Whether the node still waits for its axiom. One whose source stands for a triple itself
annotates an annotation and does not. -/
def awaitsAxiom (session : Session) (node : Node) : Bool :=
  (session.unused (session.store.matching node Rdf.type)).any (fun row => row.triple.object == Owl.Axiom) &&
    !((session.store.objects node Owl.annotatedSource).filterMap Term.node?).any session.standsForTriple

/-- Replaces an axiom by the same with further annotations. -/
def addAnnotations (session : Session) (fact : AnnotatedAxiom) (notes : List Annotation) : Session :=
  { session with
    ontology := (session.ontology.remove fact).add (.of fact.bare (fact.annotations ++ notes)) }

end Session

namespace Translation

/-- Adds the triple that a node annotates and that the graph lacks. -/
def insertMissing (node : Node) (triple : Triple) : Translation TripleId := do
  recover (.annotatedTripleMissing node triple)
  let session ← get
  match session.store.insert triple with
  | (some id, store) =>
    modify fun session => { session with store := store }
    return id
  | (none, _) => fail (.annotatedTripleRefused triple)

/-- Reads the axiom of a triple that none was read of yet. -/
def lateStatement (id : TripleId) (triple : Triple) : Translation AnnotatedAxiom := do
  let fact ← statement triple
  modify fun session => { session.consume id with produced := session.produced.insert id fact }
  return fact

/-- The axiom of the triple that a node annotates. A triple added for the sake of the node goes
again if it stands for no axiom. -/
def annotatedFact (node : Node) (triple : Triple) : Translation AnnotatedAxiom := do
  let session ← get
  match session.store.find? triple with
  | some id =>
    match session.produced[id]? with
    | some fact => return fact
    | none =>
      if session.store.isConsumed id then fail (.annotatedTripleNoAxiom node triple)
      lateStatement id triple
  | none =>
    let id ← insertMissing node triple
    tryCatch (lateStatement id triple) fun halt => do
      modify fun session => { session with store := session.store.remove id }
      throw halt

/-- Merges the annotations of a node into the axiom that it annotates. -/
def mergeAnnotations (node : Node) : Translation Unit := do
  let source ← singleObject node Owl.annotatedSource
  let predicate ← named .property (← singleObject node Owl.annotatedProperty)
  let object ← singleObject node Owl.annotatedTarget
  let some subject := source.node? | unexpected .tripleSubject source
  consumeReification node
  let notes ← annotationsOn node
  let fact ← annotatedFact node ⟨subject, predicate, object⟩
  modify (·.addAnnotations fact notes)

end Translation

namespace Load

/-- Translates a candidate and tells whether it is done with, one way or the other. -/
def translateCandidate (row : Row) : Load Bool := do
  let point := (← get).checkpoint
  match ← outcome (Translation.statement row.triple) with
  | .ok fact =>
    modify fun session => (session.consume row.id).commit row.id fact
    flush
    return true
  | .error halt =>
    modify (·.rollback point)
    match halt with
    | .deferred _ => return false
    | .failed problem =>
      modify (·.discard row)
      report problem (some row.triple)
      return true

/-- Tries every candidate that is not used yet, and gives back those that have to wait. -/
def runPass (work : List Row) : Load (List Row) :=
  work.filterM fun row => do
    if (← get).store.isConsumed row.id then return false
    return !(← translateCandidate row)

def checkCancelled : Load Unit := do
  if (← read).config.cancelled then throw (.cancelled (← get).passes)

/-- Starts a pass, unless the load has been cancelled. -/
def beginPass : Load Unit := do
  checkCancelled
  modify fun session => { session with passes := session.passes + 1 }

/-- Makes passes, at most so many, until one neither translates a candidate nor learns a kind. -/
def makePasses : Nat → List Row → Load (List Row)
  | 0, work => return work
  | remaining + 1, work => do
    if work.isEmpty then return []
    beginPass
    modify fun session => { session with kindsChanged := false }
    let waiting ← runPass work
    if waiting.length = work.length ∧ !(← get).kindsChanged then return waiting
    makePasses remaining waiting

/-- Runs what follows with defaults for the kinds that nothing tells. -/
def withDefaults {α : Type} (body : Load α) : Load α :=
  withReader (fun context => { context with forced := true }) body

/-- Settles the candidates that still wait. -/
def settle (work : List Row) : Load Unit := do
  if work.isEmpty then return
  beginPass
  (← runPass work).forM fun row => report (.unsettled row.triple) none

def translateAxioms : Load Unit := do
  let session ← get
  let work := session.store.unconsumed.filter fun row => session.isCandidate row.triple
  let waiting ← makePasses (← read).config.maxPasses work
  withDefaults (settle waiting)

/-- Merges the annotations of a node that stands for an axiom. If that fails, the node is passed
over. -/
def readAxiomNode (node : Node) : Load Unit := do
  if (← get).awaitsAxiom node then
    if (← attempt (Translation.mergeAnnotations node)).isNone then
      modify fun session => session.consumeAll (session.store.withSubject node)

def readAxiomAnnotations : Load Unit := do
  (← get).axiomNodes.forM readAxiomNode

/-- Reports a triple that nothing made use of. -/
def reportUnparsed (row : Row) : Load Unit := do
  modify (·.consume row.id)
  unless (← get).isNoise row.triple do report (.unparsed row.triple) none

def translate : Load Unit := do
  readHeader
  modify (·.readDeclarations (← read).config.strict)
  readHeaderAnnotations
  translateAxioms
  withDefaults readAxiomAnnotations
  (← get).store.unconsumed.forM reportUnparsed

end Load

/-- What a load that was not given up results in. -/
structure Loaded where
  ontology : Ontology
  /-- The problems that were recovered from, in the order in which they were met. -/
  reports : List Report
  passes : Nat

/-- Loads an ontology from triples. The number of the load scopes its anonymous individuals. -/
def loadTriples (config : Config) (number : Nat) (document : Option Iri) (triples : List Triple) :
    Except LoadError Loaded :=
  match Load.translate ⟨config, number, false⟩ { store := .ofTriples triples, ontology := { document } } with
  | (.ok (), session) => .ok ⟨session.ontology, session.reports.toList, session.passes⟩
  | (.error error, _) => .error error

/-- How the text of a document is written. -/
inductive Format where
  | triples
  | quads
  /-- Only as far as it agrees with lines of triples. Its relative IRIs need a base. -/
  | turtle
deriving DecidableEq

/-- Loads an ontology from the text of a document. -/
def loadText (config : Config) (number : Nat) (document : Option Iri) (format : Format) (text : String) :
    Except LoadError Loaded :=
  if format = .turtle ∧ document.any (fun iri => !Iri.isAbsolute iri.value) then .error .invalidBase
  else match Lines.read (format == .quads) text with
    | some triples => loadTriples config number document triples
    | none => .error .malformed

end OwlGraph
