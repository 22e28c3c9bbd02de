import OwlGraph.Ontology.Basic
import Std.Data.HashSet

/-! What the axioms of some ontologies say outright about named classes: inclusions,
equivalences, disjointness and types. The answers follow inclusions through any number of
steps and never look inside a class expression. -/

namespace OwlGraph

structure Hierarchy where
  parents : Std.HashMap Iri (List Iri) := ∅
  children : Std.HashMap Iri (List Iri) := ∅
  toldTypes : Std.HashMap Individual (List Iri) := ∅
  disjoint : Std.HashSet (Iri × Iri) := ∅

namespace Hierarchy

/-- Adds a value to those of a key, unless it is among them. -/
def relate {κ : Type} [BEq κ] [Hashable κ] (table : Std.HashMap κ (List Iri)) (key : κ) (value : Iri) :
    Std.HashMap κ (List Iri) :=
  table.alter key fun values => some ((values.getD []).insert value)

/-- Records an inclusion. That a class includes itself is not worth recording. -/
def subsume (hierarchy : Hierarchy) (sub sup : Iri) : Hierarchy :=
  if sub = sup then hierarchy
  else { hierarchy with
    parents := relate hierarchy.parents sub sup
    children := relate hierarchy.children sup sub }

def separate (hierarchy : Hierarchy) (a b : Iri) : Hierarchy :=
  { hierarchy with disjoint := (hierarchy.disjoint.insert (a, b)).insert (b, a) }

def classify (hierarchy : Hierarchy) (individual : Individual) (cls : Iri) : Hierarchy :=
  { hierarchy with toldTypes := relate hierarchy.toldTypes individual cls }

/-- Every two members of the list, the earlier one first. -/
def pairs : List Iri → List (Iri × Iri)
  | [] => []
  | cls :: rest => rest.map (cls, ·) ++ pairs rest

/-- Adds what an axiom says about named classes. -/
def tell (hierarchy : Hierarchy) (fact : AnnotatedAxiom) : Hierarchy :=
  match fact.bare with
  | .subClassOf (.named sub) (.named sup) => hierarchy.subsume sub sup
  | .equivalentClasses classes =>
    (pairs (classes.filterMap ClassExpression.iri?)).foldl
      (fun told (a, b) => (told.subsume a b).subsume b a) hierarchy
  | .disjointClasses classes =>
    (pairs (classes.filterMap ClassExpression.iri?)).foldl (fun told (a, b) => told.separate a b) hierarchy
  | .classAssertion (.named cls) individual => hierarchy.classify individual cls
  | _ => hierarchy

def ofOntologies (ontologies : List Ontology) : Hierarchy :=
  (ontologies.flatMap Ontology.axioms).foldl tell {}

/-- Takes steps from the waiting classes to those not reached before. A class waits at most
once, so as many rounds as there are classes suffice. -/
def spread (step : Iri → List Iri) : Nat → List Iri → List Iri → List Iri
  | 0, _, reached | _, [], reached => reached
  | rounds + 1, cls :: waiting, reached =>
    let fresh := (step cls).filter fun next => !reached.contains next
    spread step rounds (fresh ++ waiting) (reached ++ fresh)

def above (hierarchy : Hierarchy) (cls : Iri) : List Iri := hierarchy.parents.getD cls []

def below (hierarchy : Hierarchy) (cls : Iri) : List Iri := hierarchy.children.getD cls []

/-- The classes reached by one step up or more. The class itself is among them if it lies on a
cycle. -/
def ancestors (hierarchy : Hierarchy) (cls : Iri) : List Iri :=
  spread hierarchy.above (hierarchy.children.size + 1) [cls] []

/-- The classes reached by one step down or more. -/
def descendants (hierarchy : Hierarchy) (cls : Iri) : List Iri :=
  spread hierarchy.below (hierarchy.parents.size + 1) [cls] []

/-- The other classes that are both above and below the class. -/
def equivalents (hierarchy : Hierarchy) (cls : Iri) : List Iri :=
  let descendants := hierarchy.descendants cls
  (hierarchy.ancestors cls).filter fun other => other != cls && descendants.contains other

def equivalentClasses (hierarchy : Hierarchy) (cls : Iri) : List Iri :=
  Iri.canonical (hierarchy.equivalents cls)

/-- Leaves out the class and its equivalents. -/
def strictly (hierarchy : Hierarchy) (cls : Iri) (candidates : List Iri) : List Iri :=
  let equivalents := hierarchy.equivalents cls
  Iri.canonical (candidates.filter fun other => other != cls && !equivalents.contains other)

/-- The strict superclasses: all of them, or those told of the class or an equivalent one. -/
def superClasses (hierarchy : Hierarchy) (cls : Iri) (direct : Bool) : List Iri :=
  hierarchy.strictly cls
    (if direct then (cls :: hierarchy.equivalents cls).flatMap hierarchy.above else hierarchy.ancestors cls)

/-- The strict subclasses: all of them, or those told of the class or an equivalent one. -/
def subClasses (hierarchy : Hierarchy) (cls : Iri) (direct : Bool) : List Iri :=
  hierarchy.strictly cls
    (if direct then (cls :: hierarchy.equivalents cls).flatMap hierarchy.below else hierarchy.descendants cls)

/-- The individuals told to be in the class or an equivalent one, or in any class below. -/
def instances (hierarchy : Hierarchy) (cls : Iri) (direct : Bool) : List Individual :=
  let classes := cls :: hierarchy.equivalents cls ++ if direct then [] else hierarchy.descendants cls
  Canonical.byText Node.text
    ((hierarchy.toldTypes.toList.filter fun (_, told) => told.any classes.contains).map Prod.fst)

/-- The told types and everything above them. -/
def allTypes (hierarchy : Hierarchy) (told : List Iri) : List Iri :=
  told ++ told.flatMap hierarchy.ancestors

def types (hierarchy : Hierarchy) (individual : Individual) (direct : Bool) : List Iri :=
  let told := hierarchy.toldTypes.getD individual []
  Iri.canonical (if direct then told else hierarchy.allTypes told)

/-- Whether no individual falls into the empty class or into two disjoint classes. -/
def isConsistent (hierarchy : Hierarchy) : Bool :=
  hierarchy.toldTypes.toList.all fun (_, told) =>
    let types := (hierarchy.allTypes told).eraseDups
    !types.contains Owl.Nothing && !types.any fun a => types.any fun b => hierarchy.disjoint.contains (a, b)

end Hierarchy

end OwlGraph
