import OwlGraph.Proofs.Candidates
import OwlGraph.Proofs.StatementDrawing

/-! What the pieces of an axiom have in common with it. A piece is the axiom itself, relates two of
its operands, or asserts an inverse property the other way round. -/

namespace OwlGraph

theorem mem_of_mem_neighbourPairs {α : Type} {items : List α} {pair : α × α} (member : pair ∈ neighbourPairs items) :
    pair.1 ∈ items ∧ pair.2 ∈ items := by
  obtain ⟨left, right⟩ := List.of_mem_zip member
  exact ⟨left, List.mem_of_mem_tail right⟩

namespace Axiom

/-- How a piece comes from an axiom. -/
inductive HasPiece : Axiom → Axiom → Prop
  | whole (bare : Axiom) : HasPiece bare bare
  | equivalentClasses {classes : List ClassExpression} {a b : ClassExpression} (first : a ∈ classes) (second : b ∈ classes) :
    HasPiece (.equivalentClasses classes) (.equivalentClasses [a, b])
  | disjointClasses {classes : List ClassExpression} {a b : ClassExpression} (first : a ∈ classes) (second : b ∈ classes) :
    HasPiece (.disjointClasses classes) (.disjointClasses [a, b])
  | sameIndividual {individuals : List Individual} {a b : Individual} (first : a ∈ individuals) (second : b ∈ individuals) :
    HasPiece (.sameIndividual individuals) (.sameIndividual [a, b])
  | differentIndividuals {individuals : List Individual} {a b : Individual} (first : a ∈ individuals) (second : b ∈ individuals) :
    HasPiece (.differentIndividuals individuals) (.differentIndividuals [a, b])
  | equivalentObjectProperties {properties : List PropertyExpression} {a b : PropertyExpression} (first : a ∈ properties)
      (second : b ∈ properties) : HasPiece (.equivalentObjectProperties properties) (.equivalentObjectProperties [a, b])
  | disjointObjectProperties {properties : List PropertyExpression} {a b : PropertyExpression} (first : a ∈ properties)
      (second : b ∈ properties) : HasPiece (.disjointObjectProperties properties) (.disjointObjectProperties [a, b])
  | equivalentDataProperties {properties : List Iri} {a b : Iri} (first : a ∈ properties) (second : b ∈ properties) :
    HasPiece (.equivalentDataProperties properties) (.equivalentDataProperties [a, b])
  | disjointDataProperties {properties : List Iri} {a b : Iri} (first : a ∈ properties) (second : b ∈ properties) :
    HasPiece (.disjointDataProperties properties) (.disjointDataProperties [a, b])
  | turned (property : Iri) (subject object : Individual) :
    HasPiece (.objectPropertyAssertion .positive (.inverse property) subject object)
      (.objectPropertyAssertion .positive (.named property) object subject)

variable {bare piece : Axiom}

theorem hasPiece_of_mem (member : piece ∈ bare.pieces) : HasPiece bare piece := by
  have pairs {α : Type} {items : List α} {f : α × α → Axiom} (listed : piece ∈ (neighbourPairs items).map f) :
      ∃ pair, pair.1 ∈ items ∧ pair.2 ∈ items ∧ piece = f pair := by
    obtain ⟨pair, inside, rfl⟩ := List.mem_map.mp listed
    exact ⟨pair, (mem_of_mem_neighbourPairs inside).1, (mem_of_mem_neighbourPairs inside).2, rfl⟩
  unfold pieces at member
  split at member
  · rw [List.mem_singleton.mp member]
    exact .whole bare
  split at member
  case h_1 => obtain ⟨pair, first, second, rfl⟩ := pairs member; exact .equivalentClasses first second
  case h_2 => obtain ⟨pair, first, second, rfl⟩ := pairs member; exact .disjointClasses first second
  case h_3 => obtain ⟨pair, first, second, rfl⟩ := pairs member; exact .sameIndividual first second
  case h_4 => obtain ⟨pair, first, second, rfl⟩ := pairs member; exact .differentIndividuals first second
  case h_5 => obtain ⟨pair, first, second, rfl⟩ := pairs member; exact .equivalentObjectProperties first second
  case h_6 => obtain ⟨pair, first, second, rfl⟩ := pairs member; exact .disjointObjectProperties first second
  case h_7 => obtain ⟨pair, first, second, rfl⟩ := pairs member; exact .equivalentDataProperties first second
  case h_8 => obtain ⟨pair, first, second, rfl⟩ := pairs member; exact .disjointDataProperties first second
  case h_9 => rw [List.mem_singleton.mp member]; exact .turned ..
  case h_10 => rw [List.mem_singleton.mp member]; exact .whole _

theorem components_of_piece (has : HasPiece bare piece) : ∀ component ∈ piece.components, component ∈ bare.components := by
  cases has with
  | whole => exact fun _ => id
  | turned property subject object =>
    intro component member
    simp only [components, List.mem_cons, List.not_mem_nil, or_false] at member ⊢
    exact member.imp id Or.symm
  | equivalentClasses first second | disjointClasses first second =>
    simp only [components, List.flatMap_cons, List.flatMap_nil, List.append_nil, List.forall_mem_append]
    exact ⟨fun component inside => List.mem_flatMap.mpr ⟨_, first, inside⟩, fun component inside => List.mem_flatMap.mpr ⟨_, second, inside⟩⟩
  | sameIndividual first second | differentIndividuals first second | equivalentObjectProperties first second
  | disjointObjectProperties first second | equivalentDataProperties first second | disjointDataProperties first second =>
    exact List.forall_mem_cons.mpr ⟨List.mem_map_of_mem first, List.forall_mem_singleton.mpr (List.mem_map_of_mem second)⟩

theorem wellFormed_of_piece {limit : Nat} (has : HasPiece bare piece) (valid : bare.WellFormed limit) : piece.WellFormed limit := by
  have two : ∀ {count : Nat}, some 2 = some count → 2 < count → count ≤ limit := by
    rintro count ⟨⟩ more
    exact absurd more (Nat.lt_irrefl 2)
  cases has with
  | whole => exact valid
  | equivalentClasses first second | disjointClasses first second =>
    exact ⟨List.forall_mem_cons.mpr ⟨valid.1 _ first, List.forall_mem_singleton.mpr (valid.1 _ second)⟩, fun _ => two⟩
  | turned => exact ⟨trivial, nofun⟩
  | _ => exact ⟨trivial, fun _ => two⟩

theorem fitting_of_piece (has : HasPiece bare piece) (fitting : bare.Fitting) : piece.Fitting := by
  cases has <;> exact fitting

/-- Pieces are of the same kind as the axiom. -/
theorem kind_of_piece (has : HasPiece bare piece) : piece.kind = bare.kind := by cases has <;> rfl

theorem isHidden_of_piece (has : HasPiece bare piece) : piece.isHidden = bare.isHidden := by cases has <;> rfl

theorem variableNames_of_loose (loose : bare.isGathered = false) : bare.variableNames = [] := by
  cases bare with
  | rule => cases loose
  | _ => rfl

end Axiom

end OwlGraph
