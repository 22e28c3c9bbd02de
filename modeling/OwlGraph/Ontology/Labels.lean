import OwlGraph.Ontology.Basic

/-! Canonical labels for anonymous individuals. Every individual has a colour, at first the
same. A round of refinement colours it anew by its colour and by the texts of the axioms it
occurs in, in which it is called by one label and the others by their colours. When the
colours stop splitting, one individual of a smallest tied group is set apart and refinement
goes on. The final colour of an individual is its label, so nothing depends on the labels the
individuals had, except which of the tied ones is set apart. -/

namespace OwlGraph

/-- The anonymous individuals of the axiom and of its annotations. -/
def AnnotatedAxiom.anonymous (fact : AnnotatedAxiom) : List BlankNode :=
  (fact.components.filterMap Component.anonymous?).eraseDups

/-- Every anonymous individual with its colour. -/
abbrev Colouring := List (BlankNode × Nat)

namespace Colouring

/-- How many colours there are. -/
def count (colouring : Colouring) : Nat := (colouring.map Prod.snd).eraseDups.length

def colour (colouring : Colouring) (node : BlankNode) : Nat := (colouring.lookup node).getD 0

/-- Numbers the distinct keys in increasing order and colours every node by its key. -/
def rank {κ : Type} [DecidableEq κ] (le : κ → κ → Bool) (keys : List (BlankNode × κ)) : Colouring :=
  let distinct := Canonical.ordered le id (keys.map Prod.snd)
  keys.map fun (node, key) => (node, distinct.idxOf key)

/-- Lists of texts in dictionary order. -/
def textsLe : List String → List String → Bool
  | [], _ => true
  | _ :: _, [] => false
  | a :: as, b :: bs => if a = b then textsLe as bs else Canonical.textLe a b

/-- Compares the first components, and the second ones if those are equal. -/
def pairLe {κ : Type} (le : κ → κ → Bool) (a b : Nat × κ) : Bool :=
  a.1 < b.1 || a.1 == b.1 && le a.2 b.2

/-- The text of an axiom from the viewpoint of one of its anonymous individuals. -/
def view (colouring : Colouring) (node : BlankNode) (fact : AnnotatedAxiom) : String :=
  (fact.rename fun other =>
    if other = node then ⟨"self"⟩ else ⟨"k" ++ Nat.repr (colouring.colour other)⟩).text

/-- The views of the axioms in which the individual occurs, in the order of their texts. -/
def views (facts : List AnnotatedAxiom) (colouring : Colouring) (node : BlankNode) : List String :=
  ((facts.filter fun fact => fact.anonymous.contains node).map (colouring.view node)).mergeSort Canonical.textLe

/-- Splits every colour by the axioms the individuals occur in. -/
def refine (facts : List AnnotatedAxiom) (colouring : Colouring) : Colouring :=
  rank (pairLe textsLe) (colouring.map fun (node, colour) => (node, (colour, colouring.views facts node)))

/-- How many individuals have the colour. -/
def groupSize (colouring : Colouring) (colour : Nat) : Nat :=
  colouring.countP fun entry => entry.2 == colour

/-- An individual of a smallest tied group, of the least colour among these, and with the least
label of its group. -/
def tied? (colouring : Colouring) : Option BlankNode :=
  let ties := colouring.filter fun entry => 1 < colouring.groupSize entry.2
  let order (a b : BlankNode × Nat) : Bool :=
    pairLe (pairLe Canonical.textLe) (colouring.groupSize a.2, a.2, a.1.label)
      (colouring.groupSize b.2, b.2, b.1.label)
  (ties.mergeSort order).head?.map Prod.fst

/-- Gives one individual a colour of its own, before that of its group. -/
def setApart (colouring : Colouring) (chosen : BlankNode) : Colouring :=
  rank (pairLe fun a b => !a || b) (colouring.map fun (node, colour) => (node, (colour, node != chosen)))

/-- Refines and sets apart until every individual has a colour of its own. Every round adds a
colour, so no more rounds than individuals are needed. -/
def separate (facts : List AnnotatedAxiom) : Nat → Colouring → Colouring
  | 0, colouring => colouring
  | rounds + 1, colouring =>
    if colouring.count < colouring.length then
      let refined := colouring.refine facts
      if colouring.count < refined.count then separate facts rounds refined
      else match refined.tied? with
        | some chosen => separate facts rounds (refined.setApart chosen)
        | none => refined
    else colouring

/-- The final colouring of the anonymous individuals of the axioms. -/
def canonical (facts : List AnnotatedAxiom) : Colouring :=
  let nodes := (facts.flatMap AnnotatedAxiom.anonymous).eraseDups
  separate facts nodes.length (nodes.map fun node => (node, 0))

/-- The label that stands for a colour. An individual without a colour keeps its label. -/
def label (colouring : Colouring) (node : BlankNode) : BlankNode :=
  match colouring.lookup node with
  | some colour => ⟨"c" ++ Nat.repr colour⟩
  | none => node

end Colouring

/-- Names the anonymous individuals of the axioms by their final colours. Ontology annotations
keep their labels. -/
def Ontology.canonicalize (ontology : Ontology) : Ontology :=
  let colouring := Colouring.canonical ontology.axioms
  { ontology with
    index := ontology.axioms.foldl (fun index fact => index.insert (fact.rename colouring.label)) {} }

end OwlGraph
