import Mathlib.Data.Set.List
import OwlGraph.Proofs.Answers
import OwlGraph.Proofs.Pieces
import OwlGraph.Proofs.RenamingBack

/-! Axioms over named classes and their pieces. The pieces of an equivalence relate neighbours, so
chains of them lead to all operands. A disjointness of two classes or more is its own only piece,
and one of fewer classes tells nothing. So the pieces, renamed and in normal form, answer as the
axioms do. -/

namespace OwlGraph

open Relation

/-- Every two members of a list are linked by steps between neighbours. -/
theorem neighbours_connected {α : Type} {items : List α} {one two : α} (first : one ∈ items) (second : two ∈ items) :
    ReflTransGen (SymmGen fun a b => (a, b) ∈ neighbourPairs items) one two := by
  have headed : ∀ (item : α) (rest : List α), ∀ other ∈ item :: rest,
      ReflTransGen (SymmGen fun a b => (a, b) ∈ neighbourPairs (item :: rest)) item other := by
    intro item rest
    induction rest generalizing item with
    | nil =>
      intro other member
      rw [List.mem_singleton.mp member]
    | cons next rest ih =>
      intro other member
      have step : (item, next) ∈ neighbourPairs (item :: next :: rest) := List.mem_cons_self
      rcases List.mem_cons.mp member with rfl | later
      · exact .refl
      · refine .head (Or.inl step) (ReflTransGen.mono (fun a b => ?_) _ _ (ih next other later))
        exact Or.imp (List.mem_cons_of_mem _) (List.mem_cons_of_mem _)
  cases items with
  | nil => cases first
  | cons item rest => exact (symm (headed item rest one first)).trans (headed item rest two second)

theorem neighbourPairs_map {α β : Type} (f : α → β) (items : List α) :
    neighbourPairs (items.map f) = (neighbourPairs items).map (Prod.map f f) := by
  rw [neighbourPairs, ← List.map_tail, List.zip_map]
  rfl

theorem Iri.text_inj {one two : Iri} (same : one.text = two.text) : one = two :=
  Node.named.inj (Node.text_inj same)

/-- Names stay the operands that they are, in their order. -/
theorem ClassExpression.named_mem_canonical {classes : List Iri} {cls : Iri} :
    .named cls ∈ canonical (classes.map .named) ↔ cls ∈ classes := by
  have normal : (classes.map ClassExpression.named).map normalize = classes.map .named := by simp [normalize]
  rw [canonical, normal, Canonical.mem_byText]
  · simp
  · simp only [List.forall_mem_map, text]
    exact fun one _ two _ same => congrArg _ (Iri.text_inj same)

namespace Axiom

/-- The axiom relates named classes, or puts an individual in one. -/
inductive Taxonomic : Axiom → Prop
  | inclusion (sub sup : Iri) : Taxonomic (.subClassOf (.named sub) (.named sup))
  | equivalence (classes : List Iri) : Taxonomic (.equivalentClasses (classes.map .named))
  | disjointness (classes : List Iri) : Taxonomic (.disjointClasses (classes.map .named))
  | assertion (cls : Iri) (individual : Individual) : Taxonomic (.classAssertion (.named cls) individual)

/-- A set of names is one of names in normal form as well, and no longer. -/
theorem canonical_named (classes : List Iri) : ∃ names : List Iri,
    ClassExpression.canonical (classes.map .named) = names.map .named ∧ names.length ≤ classes.length := by
  have normal : (classes.map ClassExpression.named).map ClassExpression.normalize = classes.map .named := by
    simp [ClassExpression.normalize]
  have subset : ClassExpression.canonical (classes.map .named) ⊆ classes.map .named := by
    rw [ClassExpression.canonical, normal]
    exact fun _ => Canonical.mem_of_mem_byText _
  have named : ∀ expression ∈ ClassExpression.canonical (classes.map .named), expression ∈ Set.range ClassExpression.named := by
    intro expression member
    obtain ⟨iri, -, same⟩ := List.mem_map.mp (subset member)
    exact ⟨iri, same⟩
  obtain ⟨names, same⟩ := (Set.range_list_map ClassExpression.named).ge named
  have size : (ClassExpression.canonical (classes.map .named)).length ≤ (classes.map ClassExpression.named).length :=
    (Canonical.nodup_ordered Canonical.textOrdering ClassExpression.text _).length_le_of_subset subset
  exact ⟨names, same.symm, by simpa [← same] using size⟩

theorem Taxonomic.normalize {bare : Axiom} (taxonomic : bare.Taxonomic) : bare.normalize.Taxonomic := by
  cases taxonomic with
  | inclusion sub sup => exact .inclusion sub sup
  | equivalence classes =>
    obtain ⟨names, same, -⟩ := canonical_named classes
    rw [Axiom.normalize, same]
    exact .equivalence names
  | disjointness classes =>
    obtain ⟨names, same, -⟩ := canonical_named classes
    rw [Axiom.normalize, same]
    exact .disjointness names
  | assertion cls individual => exact .assertion cls individual

theorem Taxonomic.arity_normalize {bare : Axiom} (taxonomic : bare.Taxonomic) {count : Nat}
    (counted : bare.normalize.arity? = some count) : ∃ total, bare.arity? = some total ∧ count ≤ total := by
  cases taxonomic with
  | inclusion => cases counted
  | equivalence classes =>
    obtain ⟨names, same, size⟩ := canonical_named classes
    rw [Axiom.normalize, same] at counted
    cases counted
    exact ⟨_, rfl, by simpa using size⟩
  | disjointness classes =>
    obtain ⟨names, same, size⟩ := canonical_named classes
    rw [Axiom.normalize, same] at counted
    cases counted
    exact ⟨_, rfl, by simpa using size⟩
  | assertion => cases counted

/-- The axiom about renamed individuals, in normal form. -/
def image (f : BlankNode → BlankNode) (bare : Axiom) : Axiom := (bare.rename f).normalize

section Pieces

theorem rename_named (f : BlankNode → BlankNode) (classes : List Iri) :
    (classes.map ClassExpression.named).map (ClassExpression.rename f) = classes.map .named := by
  simp [ClassExpression.rename]

theorem pieces_equivalence (classes : List Iri) : pieces (.equivalentClasses (classes.map .named)) =
    (neighbourPairs classes).map fun pair => .equivalentClasses [.named pair.1, .named pair.2] := by
  rw [pieces, if_neg (by simp [isGathered])]
  simp [neighbourPairs_map]

theorem pieces_disjointness {classes : List Iri} (some : 2 ≤ classes.length) :
    pieces (.disjointClasses (classes.map .named)) = [.disjointClasses (classes.map .named)] := by
  match classes, some with
  | [one, two], _ => rfl
  | one :: two :: three :: rest, _ => rw [pieces, if_pos (by simp [isGathered])]

theorem pieces_disjointness_small {classes : List Iri} (few : classes.length < 2) :
    pieces (.disjointClasses (classes.map .named)) = [] := by
  match classes, few with
  | [], _ => rfl
  | [one], _ => rfl

/-- A piece is the axiom itself or the equivalence of two neighbours. -/
theorem Taxonomic.piece_cases {bare piece : Axiom} (taxonomic : bare.Taxonomic) (member : piece ∈ bare.pieces) :
    piece = bare ∨ ∃ (classes : List Iri) (one two : Iri), bare = .equivalentClasses (classes.map .named) ∧
      (one, two) ∈ neighbourPairs classes ∧ piece = .equivalentClasses [.named one, .named two] := by
  cases taxonomic with
  | inclusion => exact Or.inl (List.mem_singleton.mp member)
  | equivalence classes =>
    rw [pieces_equivalence, List.mem_map] at member
    obtain ⟨⟨one, two⟩, pair, rfl⟩ := member
    exact Or.inr ⟨classes, one, two, rfl, pair, rfl⟩
  | disjointness classes =>
    by_cases some : 2 ≤ classes.length
    · rw [pieces_disjointness some] at member
      exact Or.inl (List.mem_singleton.mp member)
    · rw [pieces_disjointness_small (by omega)] at member
      cases member
  | assertion => exact Or.inl (List.mem_singleton.mp member)

section Piece

variable {bare piece : Axiom} (taxonomic : bare.Taxonomic) (member : piece ∈ bare.pieces)
include taxonomic member

theorem taxonomic_of_piece : piece.Taxonomic := by
  rcases taxonomic.piece_cases member with rfl | ⟨classes, one, two, -, -, rfl⟩
  · exact taxonomic
  · exact .equivalence [one, two]

end Piece

end Pieces

section Telling

variable {f : BlankNode → BlankNode} {bare : Axiom} {sub sup : Iri}

theorem includes_equivalence {classes : List ClassExpression} :
    (Axiom.equivalentClasses classes).Includes sub sup ↔ .named sub ∈ classes ∧ .named sup ∈ classes := by
  constructor
  · rintro (_ | ⟨left, right⟩)
    exact ⟨left, right⟩
  · exact fun ⟨left, right⟩ => .equivalence left right

theorem includes_image (taxonomic : bare.Taxonomic) : (bare.image f).Includes sub sup ↔ bare.Includes sub sup := by
  cases taxonomic with
  | inclusion lower upper => exact Iff.rfl
  | equivalence classes =>
    have same : (Axiom.equivalentClasses (classes.map .named)).image f =
        .equivalentClasses (ClassExpression.canonical (classes.map .named)) := by
      rw [image, rename, rename_named, normalize]
    rw [same, includes_equivalence, includes_equivalence]
    simp [ClassExpression.named_mem_canonical]
  | disjointness classes => exact iff_of_false (by rintro ⟨⟩) (by rintro ⟨⟩)
  | assertion cls individual => exact iff_of_false (by rintro ⟨⟩) (by rintro ⟨⟩)

/-- Operands in normal form stay in their order, so the same pairs are told. -/
theorem excludes_image (taxonomic : bare.Taxonomic) (normal : bare.normalize = bare) {one two : Iri} :
    (bare.image f).Excludes one two ↔ bare.Excludes one two := by
  cases taxonomic with
  | inclusion lower upper => exact iff_of_false (by rintro ⟨⟩) (by rintro ⟨⟩)
  | equivalence classes => exact iff_of_false (by rintro ⟨⟩) (by rintro ⟨⟩)
  | disjointness classes => rw [image, rename, rename_named, normal]
  | assertion cls individual => exact iff_of_false (by rintro ⟨⟩) (by rintro ⟨⟩)

/-- What a piece tells, the axiom tells. -/
theorem includes_of_piece {piece : Axiom} (taxonomic : bare.Taxonomic) (member : piece ∈ bare.pieces)
    (includes : piece.Includes sub sup) : bare.Includes sub sup := by
  rcases taxonomic.piece_cases member with rfl | ⟨classes, one, two, rfl, pair, rfl⟩
  · exact includes
  · obtain ⟨left, right⟩ := mem_of_mem_neighbourPairs pair
    rw [includes_equivalence] at includes ⊢
    simp only [List.mem_cons, ClassExpression.named.injEq, List.not_mem_nil, or_false, List.mem_map, exists_eq_right] at includes ⊢
    grind

/-- What the axiom tells, chains of what its pieces tell lead to. -/
theorem chain_of_includes (taxonomic : bare.Taxonomic) (includes : bare.Includes sub sup) :
    ReflTransGen (fun lower upper => ∃ piece ∈ bare.pieces, piece.Includes lower upper) sub sup := by
  cases taxonomic with
  | inclusion lower upper => exact .single ⟨_, List.mem_singleton_self _, includes⟩
  | equivalence classes =>
    rw [includes_equivalence] at includes
    have linked := @neighbours_connected Iri classes sub sup (by simpa using includes.1) (by simpa using includes.2)
    refine ReflTransGen.mono (fun one two neighbours => ?_) _ _ linked
    rw [pieces_equivalence]
    rcases neighbours with pair | pair
    · exact ⟨_, List.mem_map_of_mem pair, .equivalence (by simp) (by simp)⟩
    · exact ⟨_, List.mem_map_of_mem pair, .equivalence (by simp) (by simp)⟩
  | disjointness classes => cases includes
  | assertion cls individual => cases includes

/-- Unless a piece tells the same, the axiom tells the converse too. -/
theorem piece_or_converse (taxonomic : bare.Taxonomic) (includes : bare.Includes sub sup) :
    (∃ piece ∈ bare.pieces, piece.Includes sub sup) ∨ bare.Includes sup sub := by
  cases taxonomic with
  | inclusion lower upper => exact Or.inl ⟨_, List.mem_singleton_self _, includes⟩
  | equivalence classes => exact Or.inr (includes_equivalence.mpr (includes_equivalence.mp includes).symm)
  | disjointness classes => cases includes
  | assertion cls individual => cases includes

theorem excludes_pieces (taxonomic : bare.Taxonomic) (normal : bare.normalize = bare) {one two : Iri} :
    (∃ piece ∈ bare.pieces, (piece.image f).Excludes one two) ↔ bare.Excludes one two := by
  constructor
  · rintro ⟨piece, member, excludes⟩
    rcases taxonomic.piece_cases member with rfl | ⟨_, _, _, -, -, rfl⟩
    · exact (excludes_image taxonomic normal).mp excludes
    · cases excludes
  · intro excludes
    refine ⟨bare, ?_, (excludes_image taxonomic normal).mpr excludes⟩
    cases taxonomic with
    | disjointness classes =>
      obtain ⟨listed⟩ := excludes
      have some : 2 ≤ classes.length := by
        match classes, listed with
        | _ :: _ :: _, _ => simp
      rw [pieces_disjointness some]
      exact List.mem_singleton_self _
    | inclusion | equivalence | assertion => cases excludes

theorem classifies_pieces (taxonomic : bare.Taxonomic) {individual : Individual} {cls : Iri} :
    (∃ piece ∈ bare.pieces, (piece.image f).Classifies individual cls) ↔
      ∃ own : Individual, own.rename f = individual ∧ bare.Classifies own cls := by
  constructor
  · rintro ⟨piece, member, classifies⟩
    rcases taxonomic.piece_cases member with rfl | ⟨_, _, _, -, -, rfl⟩
    · cases taxonomic with
      | assertion cls own =>
        cases classifies
        exact ⟨own, rfl, .assertion cls own⟩
      | inclusion | equivalence | disjointness => cases classifies
    · cases classifies
  · rintro ⟨own, rfl, ⟨_, _⟩⟩
    exact ⟨_, List.mem_singleton_self _, .assertion cls (own.rename f)⟩

end Telling

end Axiom

namespace Hierarchy

/-- The ontology has the pieces of the axioms of the other one, about renamed individuals. -/
def Retells (rename : BlankNode → BlankNode) (ontology loaded : Ontology) : Prop :=
  ∀ bare, (∃ fact ∈ loaded.axioms, fact.bare = bare) ↔ ∃ fact ∈ ontology.axioms, ∃ piece ∈ fact.bare.pieces,
    piece.image rename = bare

section Retelling

variable {ontology loaded : Ontology} {rename : BlankNode → BlankNode} (retells : Retells rename ontology loaded)

include retells in
/-- What holds of some axiom that is loaded holds of some piece, and the other way round. -/
theorem Retells.exists_iff (property : Axiom → Prop) : (∃ fact ∈ loaded.axioms, property fact.bare) ↔
    ∃ fact ∈ ontology.axioms, ∃ piece ∈ fact.bare.pieces, property (piece.image rename) := by
  constructor
  · rintro ⟨fact, member, holds⟩
    obtain ⟨source, stated, piece, part, image⟩ := (retells fact.bare).mp ⟨fact, member, rfl⟩
    exact ⟨source, stated, piece, part, image ▸ holds⟩
  · rintro ⟨source, stated, piece, part, holds⟩
    obtain ⟨fact, member, image⟩ := (retells _).mpr ⟨source, stated, piece, part, rfl⟩
    exact ⟨fact, member, image ▸ holds⟩

theorem told_singleton {sub sup : Iri} : Told [ontology] sub sup ↔ ∃ fact ∈ ontology.axioms, fact.bare.Includes sub sup := by
  simp [Told]

variable (taxonomic : ∀ fact ∈ ontology.axioms, fact.bare.Taxonomic)
include retells taxonomic

namespace Retells

theorem told_iff {sub sup : Iri} : Told [loaded] sub sup ↔
    ∃ fact ∈ ontology.axioms, ∃ piece ∈ fact.bare.pieces, piece.Includes sub sup := by
  rw [told_singleton, retells.exists_iff fun bare => bare.Includes sub sup]
  refine exists_congr fun fact => and_congr_right fun member => exists_congr fun piece => and_congr_right fun part => ?_
  exact Axiom.includes_image (Axiom.taxonomic_of_piece (taxonomic fact member) part)

theorem told_of_told {sub sup : Iri} (told : Told [loaded] sub sup) : Told [ontology] sub sup := by
  obtain ⟨fact, member, piece, part, includes⟩ := (retells.told_iff taxonomic).mp told
  exact told_singleton.mpr ⟨fact, member, Axiom.includes_of_piece (taxonomic fact member) part includes⟩

/-- The pieces of an equivalence lead from each operand to each other one. -/
theorem chain_iff {cls other : Iri} : ReflTransGen (Told [loaded]) cls other ↔ ReflTransGen (Told [ontology]) cls other := by
  constructor
  · exact ReflTransGen.mono (fun _ _ => retells.told_of_told taxonomic) _ _
  · intro chain
    induction chain with
    | refl => exact .refl
    | tail _ step ih =>
      obtain ⟨fact, member, includes⟩ := told_singleton.mp step
      refine ih.trans (ReflTransGen.mono (fun sub sup part => ?_) _ _ (Axiom.chain_of_includes (taxonomic fact member) includes))
      exact (retells.told_iff taxonomic).mpr ⟨fact, member, part⟩

/-- An inclusion from which no chain leads back is no part of an equivalence, so it is a piece. -/
theorem told_congr {cls other : Iri} (noWay : ¬ ReflTransGen (Told [ontology]) other cls) :
    Told [loaded] cls other ↔ Told [ontology] cls other := by
  refine ⟨retells.told_of_told taxonomic, fun step => ?_⟩
  obtain ⟨fact, member, includes⟩ := told_singleton.mp step
  rcases Axiom.piece_or_converse (taxonomic fact member) includes with part | converse
  · exact (retells.told_iff taxonomic).mpr ⟨fact, member, part⟩
  · exact absurd (.single (told_singleton.mpr ⟨fact, member, converse⟩)) noWay

theorem classified_iff {individual : Individual} {cls : Iri} : Classified [loaded] individual cls ↔
    ∃ own : Individual, own.rename rename = individual ∧ Classified [ontology] own cls := by
  simp only [Classified, List.mem_singleton, exists_eq_left]
  rw [retells.exists_iff fun bare => bare.Classifies individual cls]
  constructor
  · rintro ⟨fact, member, part⟩
    obtain ⟨own, renamed, classifies⟩ := (Axiom.classifies_pieces (taxonomic fact member)).mp part
    exact ⟨own, renamed, fact, member, classifies⟩
  · rintro ⟨own, renamed, fact, member, classifies⟩
    exact ⟨fact, member, (Axiom.classifies_pieces (taxonomic fact member)).mpr ⟨own, renamed, classifies⟩⟩

theorem excluded_iff (normal : ∀ fact ∈ ontology.axioms, fact.bare.normalize = fact.bare) {one two : Iri} :
    Excluded [loaded] one two ↔ Excluded [ontology] one two := by
  simp only [Excluded, List.mem_singleton, exists_eq_left]
  rw [retells.exists_iff fun bare => bare.Excludes one two]
  exact exists_congr fun fact => and_congr_right fun member =>
    Axiom.excludes_pieces (taxonomic fact member) (normal fact member)

/-- An ontology that has the pieces of the axioms of another one answers as that one does. -/
theorem alikeUpTo (normal : ∀ fact ∈ ontology.axioms, fact.bare.normalize = fact.bare)
    (injective : Function.Injective rename) : AlikeUpTo rename (ofOntologies [ontology]) (ofOntologies [loaded]) := by
  refine Hierarchy.alikeUpTo (reflects_ofOntologies _) (reflects_ofOntologies _) (fun _ _ => retells.chain_iff taxonomic)
    (fun _ _ => retells.told_congr taxonomic) (records_ofOntologies _) (records_ofOntologies _)
    (fun _ _ => retells.classified_iff taxonomic) (fun cls other => ?_) injective
  rw [retells.excluded_iff taxonomic normal, retells.excluded_iff taxonomic normal]

end Retells

end Retelling

end Hierarchy

end OwlGraph
