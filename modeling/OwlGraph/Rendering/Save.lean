import OwlGraph.Ontology.Basic
import OwlGraph.Rendering.Statement
import OwlGraph.Rendering.Supply

/-! Saving an ontology as the triples of a graph: first the header, then the axioms in their
order. Anonymous individuals keep their labels, and no fresh node is one of them. -/

namespace OwlGraph

namespace Rendering

def header (ontology : Ontology) : Rendering Unit := do
  let node ← match ontology.id.iri? with
    | some iri => pure (.named iri)
    | none => fresh
  write node Rdf.type Owl.Ontology
  ontology.id.version?.forM fun version => write node Owl.versionIRI version
  ontology.imports.forM fun iri => write node Owl.imports iri
  annotateEach node ontology.annotations

def ontology (ontology : Ontology) : Rendering Unit := do
  header ontology
  ontology.axioms.forM fact

end Rendering

namespace Ontology

/-- What the axioms and the annotations of the ontology are made of. -/
def components (ontology : Ontology) : List Component :=
  ontology.axioms.flatMap AnnotatedAxiom.components ++ ontology.annotations.flatMap ( Annotation.components)

/-- The anonymous individuals of the axioms and of the annotations of the ontology. -/
def blanks (ontology : Ontology) : List BlankNode := ontology.components.filterMap Component.anonymous?

/-- The fresh nodes that the graph of the ontology may use. -/
def supply (ontology : Ontology) : Nat → BlankNode := Supply.avoiding ontology.blanks

def draft (ontology : Ontology) : Draft := ((Rendering.ontology ontology).run ontology.supply |>.run {}).2

/-- The triples of the graph that stands for the ontology, each once. -/
def triples (ontology : Ontology) : List Triple := ontology.draft.triples.toList.eraseDups

/-- The nodes of the graph that no individual of the ontology is. -/
def freshNodes (ontology : Ontology) : List BlankNode := (List.range ontology.draft.made).map ontology.supply

end Ontology

end OwlGraph
