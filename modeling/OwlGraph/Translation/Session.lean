import OwlGraph.Config
import OwlGraph.Ontology.Basic
import OwlGraph.Rdf.Store
import OwlGraph.Translation.Problem
import Std.Data.HashSet

/-! The state of one load and the two levels on which it proceeds. A translation reads a
construct and may be deferred or fail; what it did up to then stays in the state. A load runs
translations as attempts: an attempt that does not succeed is rolled back, so that the triples
it used are free again and the kinds it learned are forgotten. -/

namespace OwlGraph

/-- What stays the same while triples are translated. -/
structure Context where
  config : Config
  /-- The number of the load, part of the labels of its anonymous individuals. -/
  number : Nat
  /-- Whether unknown kinds of properties get a default instead of being waited for. -/
  forced : Bool := false

structure Session where
  store : TripleStore
  ontology : Ontology := {}
  reports : Array Report := #[]
  /-- The repairs of the translation in progress, reported when it succeeds. -/
  pending : Array Problem := #[]
  /-- The kinds known of the IRIs of the graph, in addition to the built-in ones. -/
  kinds : Std.HashSet Entity := ∅
  kindsChanged : Bool := false
  ruleVariables : Std.HashSet Iri := ∅
  /-- The node that stands for the ontology. -/
  header : Option Node := none
  /-- The axiom that each translated triple stands for. -/
  produced : Std.HashMap TripleId AnnotatedAxiom := ∅
  /-- The nodes whose constructs are being read, the innermost first. -/
  visiting : List Node := []
  passes : Nat := 0

namespace Session

/-- What an attempt may change and its rollback restores. -/
structure Checkpoint where
  position : Nat
  pending : Nat
  kinds : Std.HashSet Entity
  kindsChanged : Bool

def checkpoint (session : Session) : Checkpoint :=
  ⟨session.store.checkpoint, session.pending.size, session.kinds, session.kindsChanged⟩

def rollback (session : Session) (point : Checkpoint) : Session :=
  { session with
    store := session.store.rollback point.position
    pending := session.pending.take point.pending
    kinds := point.kinds
    kindsChanged := point.kindsChanged }

def hasKind (session : Session) (iri : Iri) (kind : EntityKind) : Bool :=
  kind.isBuiltin iri || session.kinds.contains ⟨kind, iri⟩

/-- Adds a kind to those known of the IRI. -/
def learn (session : Session) (iri : Iri) (kind : EntityKind) : Session :=
  if session.kinds.contains ⟨kind, iri⟩ then session
  else { session with kinds := session.kinds.insert ⟨kind, iri⟩, kindsChanged := true }

def consume (session : Session) (id : TripleId) : Session :=
  { session with store := session.store.consume id }

def consumeAll (session : Session) (rows : List Row) : Session :=
  { session with store := session.store.consumeAll rows }

/-- Records the axiom that a triple stands for and adds it to the ontology. -/
def commit (session : Session) (id : TripleId) (fact : AnnotatedAxiom) : Session :=
  { session with
    produced := session.produced.insert id fact
    ontology := session.ontology.add fact }

/-- The label of the anonymous individual that a blank node stands for: the number of the load
and the rank of the node among the blank nodes of the graph. -/
def anonymous (session : Session) (number : Nat) (node : BlankNode) : BlankNode :=
  ⟨s!"s{Nat.repr number}n{Nat.repr (session.store.blankRank node)}"⟩

end Session

/-- Why a translation stopped. -/
inductive Halt where
  /-- The kind of the property is needed and not known yet. -/
  | deferred (iri : Iri)
  | failed (problem : Problem)
deriving DecidableEq

abbrev Translation := ReaderT Context (ExceptT Halt (StateM Session))

namespace Translation

def defer {α : Type} (iri : Iri) : Translation α := throw (.deferred iri)

def fail {α : Type} (problem : Problem) : Translation α := throw (.failed problem)

def unexpected {α : Type} (expectation : Expectation) (found : Term) : Translation α :=
  fail (.unexpected expectation found)

/-- Notes the repair of input that departs from the mapping, which a strict load refuses. -/
def recover (problem : Problem) : Translation Unit := do
  if (← read).config.strict then fail problem
  else modify fun session => { session with pending := session.pending.push problem }

def learn (iri : Iri) (kind : EntityKind) : Translation Unit := modify (·.learn iri kind)

def consume (id : TripleId) : Translation Unit := modify (·.consume id)

def consumeAll (rows : List Row) : Translation Unit := modify (·.consumeAll rows)

/-- Reads the construct of a node that is not among those being read, and takes the node off
them again whatever comes of it. -/
def nested {α : Type} (node : Node) (body : Translation α) : Translation α := fun context session =>
  if session.visiting.contains node then (.error (.failed (.selfContained node)), session)
  else
    let (result, after) := body context { session with visiting := node :: session.visiting }
    (result, { after with visiting := after.visiting.erase node })

end Translation

/-- Why a load was given up. -/
inductive LoadError where
  /-- A strict load met a problem. -/
  | refused (report : Report)
  | cancelled (passes : Nat)
  /-- The text of the document is not well formed. -/
  | malformed
  /-- The IRI of the document cannot serve as a base. -/
  | invalidBase
deriving DecidableEq

def LoadError.message : LoadError → String
  | .refused report => report.text
  | .cancelled passes => s!"Ontology loading cancelled after {Nat.repr passes} translation passes"
  | .malformed => "The text of the document is not well formed"
  | .invalidBase => "The document IRI is not a valid base IRI"

abbrev Load := ReaderT Context (ExceptT LoadError (StateM Session))

namespace Load

/-- Reports a problem, which ends a strict load. -/
def report (problem : Problem) (candidate : Option Triple) : Load Unit := do
  let config := (← read).config
  if config.strict then throw (.refused ⟨problem, .error, candidate, config.detailed⟩)
  modify fun session => { session with
    reports := session.reports.push ⟨problem, problem.severity, candidate, config.detailed⟩ }

/-- Reports the pending repairs. -/
def flush : Load Unit := do
  let pending := (← get).pending
  modify fun session => { session with pending := #[] }
  pending.toList.forM fun problem => report problem none

/-- Runs a translation in the present state and tells how it ended. -/
def outcome {α : Type} (body : Translation α) : Load (Except Halt α) :=
  fun context session => let (result, after) := body context session; (.ok result, after)

/-- Runs a translation and rolls it back unless it succeeds; a failure is reported. -/
def attempt {α : Type} (body : Translation α) : Load (Option α) := do
  let point := (← get).checkpoint
  match ← outcome body with
  | .ok value =>
    flush
    return some value
  | .error halt =>
    modify (·.rollback point)
    match halt with
    | .deferred _ => return none
    | .failed problem =>
      report problem none
      return none

end Load

end OwlGraph
