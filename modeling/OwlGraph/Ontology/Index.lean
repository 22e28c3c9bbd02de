import OwlGraph.Axiom.Component
import Std.Data.HashMap

/-! The axioms of an ontology in the order of their insertion, filed under everything they can
be looked up by. An axiom occupies one slot; removing it leaves the slot empty, so that the
others keep their numbers. A posting lists the numbers of the axioms filed under a key in
increasing order and is absent when there are none. -/

namespace OwlGraph

/-- What an axiom can be looked up by. -/
inductive IndexKey where
  | kind (kind : AxiomKind)
  | bare (bare : Axiom)
  | component (component : Component)
deriving DecidableEq, Hashable

structure AxiomIndex where
  slots : Array (Option AnnotatedAxiom) := #[]
  live : Nat := 0
  ids : Std.HashMap AnnotatedAxiom Nat := ∅
  postings : Std.HashMap IndexKey (List Nat) := ∅

namespace AxiomIndex

/-- The keys of an axiom, each once. -/
def keys (fact : AnnotatedAxiom) : List IndexKey :=
  .kind fact.kind :: .bare fact.bare :: fact.components.eraseDups.map .component

def file (postings : Std.HashMap IndexKey (List Nat)) (key : IndexKey) (id : Nat) :
    Std.HashMap IndexKey (List Nat) :=
  postings.alter key fun ids => some (ids.getD [] ++ [id])

def unfile (postings : Std.HashMap IndexKey (List Nat)) (key : IndexKey) (id : Nat) :
    Std.HashMap IndexKey (List Nat) :=
  postings.alter key fun ids => (ids.map (·.erase id)).filter (!·.isEmpty)

def contains (index : AxiomIndex) (fact : AnnotatedAxiom) : Bool := index.ids.contains fact

/-- Adds the axiom unless it is there. -/
def insert (index : AxiomIndex) (fact : AnnotatedAxiom) : AxiomIndex :=
  if index.contains fact then index
  else
    let id := index.slots.size
    { slots := index.slots.push (some fact)
      live := index.live + 1
      ids := index.ids.insert fact id
      postings := (keys fact).foldl (fun postings key => file postings key id) index.postings }

/-- Removes the axiom if it is there. -/
def remove (index : AxiomIndex) (fact : AnnotatedAxiom) : AxiomIndex :=
  match index.ids[fact]? with
  | none => index
  | some id =>
    { slots := index.slots.set! id none
      live := index.live - 1
      ids := index.ids.erase fact
      postings := (keys fact).foldl (fun postings key => unfile postings key id) index.postings }

/-- Every axiom, in the order of insertion. -/
def toList (index : AxiomIndex) : List AnnotatedAxiom := index.slots.toList.filterMap id

def get? (index : AxiomIndex) (id : Nat) : Option AnnotatedAxiom := (index.slots[id]?).join

def posting (index : AxiomIndex) (key : IndexKey) : List Nat := index.postings.getD key []

/-- The axioms filed under the key, in the order of insertion. -/
def under (index : AxiomIndex) (key : IndexKey) : List AnnotatedAxiom :=
  (index.posting key).filterMap index.get?

/-- The keys under which the IRI is filed: as an entity of any kind or as no entity. -/
def iriKeys (iri : Iri) : List IndexKey :=
  .component (.iri iri) :: EntityKind.all.map fun kind => .component (.entity ⟨kind, iri⟩)

/-- The axioms that use the IRI in any way, in the order of insertion. -/
def mentioning (index : AxiomIndex) (iri : Iri) : List AnnotatedAxiom :=
  (Canonical.ordered Nat.ble id ((iriKeys iri).flatMap index.posting)).filterMap index.get?

def components (index : AxiomIndex) : List Component :=
  index.postings.keys.filterMap fun
    | .component component => some component
    | _ => none

/-- The entities that occur in axioms, in the order of their kinds and IRIs. -/
def signature (index : AxiomIndex) : List Entity :=
  Canonical.ordered Entity.le id (index.components.filterMap Component.entity?)

/-- The anonymous individuals that occur in axioms, in the order of their labels. -/
def anonymous (index : AxiomIndex) : List BlankNode :=
  Canonical.ordered Canonical.textLe BlankNode.label (index.components.filterMap Component.anonymous?)

end AxiomIndex

end OwlGraph
