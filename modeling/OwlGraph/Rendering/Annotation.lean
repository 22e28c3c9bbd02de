import OwlGraph.Annotation
import OwlGraph.Rendering.Draft

/-! Writing annotations. An annotation is a triple about its subject. A further node points at
that triple where the annotation is itself annotated. -/

namespace OwlGraph.Rendering

/-- A fresh node of the type that points at the triple. -/
def pointer (type : Iri) (triple : Triple) : Rendering Node := do
  let node ← instanceOf type
  write node Owl.annotatedSource triple.subject
  write node Owl.annotatedProperty triple.predicate
  write node Owl.annotatedTarget triple.object
  return node

mutual

def annotate (subject : Node) : Annotation → Rendering Unit
  | ⟨property, value, notes⟩ => do
    write subject property value
    if notes.isEmpty then return
    annotateEach (← pointer Owl.Annotation ⟨subject, property, value⟩) notes

def annotateEach (subject : Node) : List Annotation → Rendering Unit
  | [] => return
  | note :: notes => do
    annotate subject note
    annotateEach subject notes

end

end OwlGraph.Rendering
