import OwlGraph.Vocabulary
import Std.Data.HashMap

/-! The working set of triples of one load. A triple gets its number when it is first
inserted and keeps it: removal leaves the number behind, and inserting the triple again
revives it. A triple that has been used in a translation is consumed; the log of
consumptions allows a tentative one to be undone. Every lookup lists the live triples that
qualify, each once, in the order of their numbers. -/

namespace OwlGraph

abbrev TripleId := Nat

/-- A triple of the store and its number. -/
structure Row where
  id : TripleId
  triple : Triple
deriving DecidableEq

structure StoredTriple where
  triple : Triple
  live : Bool
  consumed : Bool

structure TripleStore where
  entries : Array StoredTriple := #[]
  ids : Std.HashMap Triple TripleId := ∅
  bySubject : Std.HashMap Node (Array TripleId) := ∅
  byPredicate : Std.HashMap Iri (Array TripleId) := ∅
  byObject : Std.HashMap Term (Array TripleId) := ∅
  /-- The consumed triples in the order of their consumption. -/
  log : Array TripleId := #[]
  /-- How many blank nodes occurred before each one, the subject of a triple before its object. -/
  blanks : Std.HashMap BlankNode Nat := ∅

namespace TripleStore

/-- Files a number under a key. -/
def file {κ : Type} [BEq κ] [Hashable κ] (index : Std.HashMap κ (Array TripleId)) (key : κ) (id : TripleId) :
    Std.HashMap κ (Array TripleId) :=
  index.alter key fun ids => some ((ids.getD #[]).push id)

/-- Gives the blank node the next rank unless it has one. -/
def rankBlank (blanks : Std.HashMap BlankNode Nat) (node : BlankNode) : Std.HashMap BlankNode Nat :=
  if blanks.contains node then blanks else blanks.insert node blanks.size

/-- Adds a triple and tells its number, or nothing if the triple is already there. -/
def insert (store : TripleStore) (triple : Triple) : Option TripleId × TripleStore :=
  match store.ids[triple]? with
  | some id =>
    if (store.entries[id]?).any (·.live) then (none, store)
    else (some id, { store with entries := store.entries.set! id ⟨triple, true, false⟩ })
  | none =>
    let id := store.entries.size
    (some id, { store with
      entries := store.entries.push ⟨triple, true, false⟩
      ids := store.ids.insert triple id
      bySubject := file store.bySubject triple.subject id
      byPredicate := file store.byPredicate triple.predicate id
      byObject := file store.byObject triple.object id
      blanks := triple.blanks.foldl rankBlank store.blanks })

def ofTriples (triples : List Triple) : TripleStore :=
  triples.foldl (fun store triple => (store.insert triple).2) {}

def remove (store : TripleStore) (id : TripleId) : TripleStore :=
  { store with entries := store.entries.modify id fun entry => { entry with live := false } }

/-- The number of a live triple. -/
def find? (store : TripleStore) (triple : Triple) : Option TripleId :=
  (store.ids[triple]?).filter fun id => (store.entries[id]?).any (·.live)

def size (store : TripleStore) : Nat := store.entries.toList.countP (·.live)

def isConsumed (store : TripleStore) (id : TripleId) : Bool := (store.entries[id]?).any (·.consumed)

/-- Marks the triple as used, recording it in the log unless it already was. -/
def consume (store : TripleStore) (id : TripleId) : TripleStore :=
  if (store.entries[id]?).any (!·.consumed) then
    { store with
      entries := store.entries.modify id fun entry => { entry with consumed := true }
      log := store.log.push id }
  else store

def consumeAll (store : TripleStore) (rows : List Row) : TripleStore :=
  rows.foldl (fun store row => store.consume row.id) store

/-- The present position in the log. -/
def checkpoint (store : TripleStore) : Nat := store.log.size

/-- Makes every triple consumed after the position unused again. -/
def rollback (store : TripleStore) (position : Nat) : TripleStore :=
  { store with
    entries := (store.log.toList.drop position).foldl
      (fun entries id => entries.modify id fun entry => { entry with consumed := false }) store.entries
    log := store.log.take position }

def row? (store : TripleStore) (id : TripleId) : Option Row :=
  ((store.entries[id]?).filter (·.live)).map fun entry => ⟨id, entry.triple⟩

def rows (store : TripleStore) (ids : Option (Array TripleId)) : List Row :=
  (ids.getD #[]).toList.filterMap store.row?

def withSubject (store : TripleStore) (subject : Node) : List Row := store.rows store.bySubject[subject]?

def withPredicate (store : TripleStore) (predicate : Iri) : List Row := store.rows store.byPredicate[predicate]?

def withObject (store : TripleStore) (object : Term) : List Row := store.rows store.byObject[object]?

def matching (store : TripleStore) (subject : Node) (predicate : Iri) : List Row :=
  (store.withSubject subject).filter fun row => row.triple.predicate == predicate

def objects (store : TripleStore) (subject : Node) (predicate : Iri) : List Term :=
  (store.matching subject predicate).map fun row => row.triple.object

/-- The named types of the subject. -/
def types (store : TripleStore) (subject : Node) : List Iri :=
  (store.objects subject Rdf.type).filterMap Term.iri?

def hasType (store : TripleStore) (subject : Node) (cls : Iri) : Bool := (store.types subject).contains cls

/-- The live triples that are not consumed. -/
def unconsumed (store : TripleStore) : List Row :=
  (List.range store.entries.size).filterMap fun id =>
    (store.row? id).filter fun _ => !store.isConsumed id

/-- How many blank nodes occurred before this one. -/
def blankRank (store : TripleStore) (node : BlankNode) : Nat := store.blanks.getD node store.blanks.size

end TripleStore

end OwlGraph
