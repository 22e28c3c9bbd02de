import OwlGraph.Expression.ClassExpression

/-! Annotations: a property, a value, and the annotations of the annotation itself. A list
of annotations is a set, at every depth. -/

namespace OwlGraph

structure Annotation where
  property : Iri
  value : Term
  annotations : List Annotation

namespace Annotation

mutual

/-- The annotations of an annotation stand before its property and value. -/
def text : Annotation → String
  | ⟨property, value, annotations⟩ =>
    applied "Annotation" (texts annotations ++ [property.text, value.text])

def texts : List Annotation → List String
  | [] => []
  | note :: rest => note.text :: texts rest

end

theorem texts_eq_map (notes : List Annotation) : texts notes = notes.map text := by
  induction notes with
  | nil => rfl
  | cons note rest ih => simp [texts, ih]

mutual

def normalize : Annotation → Annotation
  | ⟨property, value, annotations⟩ => ⟨property, value, Canonical.byText text (normalizeEach annotations)⟩

def normalizeEach : List Annotation → List Annotation
  | [] => []
  | note :: rest => note.normalize :: normalizeEach rest

end

theorem normalizeEach_eq_map (notes : List Annotation) : normalizeEach notes = notes.map normalize := by
  induction notes with
  | nil => rfl
  | cons note rest ih => simp [normalizeEach, ih]

/-- The annotations of a set, each normal and each once, in the order of their texts. -/
def canonical (notes : List Annotation) : List Annotation :=
  Canonical.byText text (notes.map normalize)

mutual

/-- Renames the anonymous values, leaving every list in its order. -/
def rename (f : BlankNode → BlankNode) : Annotation → Annotation
  | ⟨property, value, annotations⟩ => ⟨property, value.rename f, renameEach f annotations⟩

def renameEach (f : BlankNode → BlankNode) : List Annotation → List Annotation
  | [] => []
  | note :: rest => note.rename f :: renameEach f rest

end

theorem renameEach_eq_map (f : BlankNode → BlankNode) (notes : List Annotation) :
    renameEach f notes = notes.map (rename f) := by
  induction notes with
  | nil => rfl
  | cons note rest ih => simp [renameEach, ih]

mutual

def same : Annotation → Annotation → Bool
  | ⟨p, a, as⟩, ⟨q, b, bs⟩ => p == q && a == b && sameEach as bs

def sameEach : List Annotation → List Annotation → Bool
  | [], [] => true
  | a :: as, b :: bs => a.same b && sameEach as bs
  | _, _ => false

end

mutual

theorem same_iff : ∀ a b : Annotation, a.same b = true ↔ a = b
  | ⟨_, _, as⟩, b => by cases b; simp [same, sameEach_iff as, and_assoc]

theorem sameEach_iff : ∀ as bs : List Annotation, sameEach as bs = true ↔ as = bs
  | [], bs => by cases bs <;> simp [sameEach]
  | a :: as, bs => by cases bs <;> simp [sameEach, same_iff a, sameEach_iff as]

end

instance : DecidableEq Annotation := fun a b => decidable_of_iff _ (same_iff a b)

/-- Equal annotations have equal texts, so the text serves as the hash key. -/
instance : Hashable Annotation := ⟨fun note => hash note.text⟩

end Annotation

end OwlGraph
