import Mathlib.Data.List.Forall2
import OwlGraph.Annotation

/-! Annotations as trees. The order of the annotations on one thing does not matter, and two of them
that make the same claim about it are not told apart by their claims. -/

namespace OwlGraph.Annotation

/-- The triple that makes the annotation of the source. -/
def claim (source : Node) (note : Annotation) : Triple := ⟨source, note.property, note.value⟩

/-- The same annotation but for the order of the annotations on it, at every depth. -/
inductive Alike : Annotation → Annotation → Prop
  | mk (property : Iri) (value : Term) {notes middle others : List Annotation} (order : notes.Perm middle)
      (alike : List.Forall₂ Alike middle others) : Alike ⟨property, value, notes⟩ ⟨property, value, others⟩

/-- The same annotations in any order. -/
def AlikeEach (notes others : List Annotation) : Prop := ∃ middle, notes.Perm middle ∧ List.Forall₂ Alike middle others

theorem AlikeEach.alike {notes others : List Annotation} (each : AlikeEach notes others) (property : Iri) (value : Term) :
    Alike ⟨property, value, notes⟩ ⟨property, value, others⟩ := by
  obtain ⟨middle, order, alike⟩ := each
  exact .mk property value order alike

theorem Alike.each {note other : Annotation} (alike : note.Alike other) : AlikeEach note.annotations other.annotations := by
  obtain ⟨property, value, order, alike⟩ := alike
  exact ⟨_, order, alike⟩

theorem AlikeEach.nil : AlikeEach [] [] := ⟨[], .refl [], .nil⟩

theorem AlikeEach.eq_nil {others : List Annotation} (each : AlikeEach [] others) : others = [] := by
  obtain ⟨middle, order, alike⟩ := each
  obtain rfl := order.nil_eq
  exact List.forall₂_nil_left_iff.mp alike

theorem AlikeEach.singleton {note : Annotation} {others : List Annotation} (each : AlikeEach [note] others) :
    ∃ own, others = [own] ∧ note.Alike own := by
  obtain ⟨middle, order, alike⟩ := each
  obtain rfl := List.singleton_perm.mp order
  cases alike with
  | cons alike rest =>
    obtain rfl := List.forall₂_nil_left_iff.mp rest
    exact ⟨_, rfl, alike⟩

mutual

/-- No two annotations on one thing make the same claim. -/
def Distinct : Annotation → Prop
  | ⟨_, _, notes⟩ => DistinctEach notes

def DistinctEach : List Annotation → Prop
  | [] => True
  | note :: rest => note.Distinct ∧ (∀ other ∈ rest, other.property = note.property → other.value ≠ note.value) ∧ DistinctEach rest

end

end OwlGraph.Annotation
