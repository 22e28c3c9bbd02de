import OwlGraph.Config
import OwlGraph.Ontology.Basic

/-! Catalogs of published ontologies and the closure of imports. A published ontology never
changes; its handle tells it from every other one, equal ones included. Publishing makes an
ontology the one that its IRIs designate. -/

namespace OwlGraph

/-- An ontology that has been published. -/
structure Published where
  handle : Nat
  ontology : Ontology

inductive ImportsError where
  | missing (iri : Iri)
  | unknown (iri : Iri)
deriving DecidableEq

def ImportsError.message : ImportsError → String
  | .missing iri => s!"The imported ontology {iri.text} is not in the catalog"
  | .unknown iri => s!"The ontology {iri.text} is not in the catalog"

structure Catalog where
  published : Array Published := #[]
  byVersion : Std.HashMap Iri Published := ∅
  byIri : Std.HashMap Iri Published := ∅
  byDocument : Std.HashMap Iri Published := ∅
  handling : MissingImport := .silent

namespace Catalog

/-- Enters an ontology under one of its IRIs, if it has such a one. -/
def enter (entries : Std.HashMap Iri Published) (key : Option Iri) (item : Published) :
    Std.HashMap Iri Published :=
  match key with
  | some iri => entries.insert iri item
  | none => entries

def publish (catalog : Catalog) (item : Published) : Catalog :=
  { catalog with
    published := catalog.published.push item
    byVersion := enter catalog.byVersion item.ontology.id.version? item
    byIri := enter catalog.byIri item.ontology.id.iri? item
    byDocument := enter catalog.byDocument item.ontology.document item }

/-- The ontology that an IRI designates: as its version, else as itself, else as its document. -/
def get? (catalog : Catalog) (iri : Iri) : Option Published :=
  catalog.byVersion[iri]? <|> catalog.byIri[iri]? <|> catalog.byDocument[iri]?

def size (catalog : Catalog) : Nat := catalog.published.size

/-- The ontologies that these imports designate and that are not known yet, each once. -/
def discover (catalog : Catalog) (known : List Published) : List Iri → Except ImportsError (List Published)
  | [] => .ok []
  | iri :: imports =>
    match catalog.get? iri with
    | none => if catalog.handling = .silent then discover catalog known imports else .error (.missing iri)
    | some item =>
      if known.any (·.handle == item.handle) then discover catalog known imports
      else (discover catalog (known ++ [item]) imports).map (item :: ·)

/-- Follows the imports of the waiting ontologies, the earlier discovered first. Every ontology
of the catalog waits at most once, so as many steps as it holds and one for the root suffice. -/
def explore (catalog : Catalog) : Nat → List Published → List Published → Except ImportsError (List Published)
  | 0, _, known | _, [], known => .ok known
  | steps + 1, next :: waiting, known =>
    match catalog.discover known next.ontology.imports with
    | .error error => .error error
    | .ok found => explore catalog steps (waiting ++ found) (known ++ found)

/-- The root and every ontology it imports, directly or not, each once, breadth first. -/
def importsClosure (catalog : Catalog) (root : Published) : Except ImportsError (List Published) :=
  catalog.explore (catalog.size + 1) [root] [root]

/-- The closure of imports of the ontology that an IRI designates. -/
def importsClosureOf (catalog : Catalog) (iri : Iri) : Except ImportsError (List Published) :=
  match catalog.get? iri with
  | some root => catalog.importsClosure root
  | none => .error (.unknown iri)

end Catalog

end OwlGraph
