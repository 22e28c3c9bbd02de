import Mathlib.Logic.Function.Iterate
import OwlGraph.Proofs.Isomorphism

/-! Refinement by itself. A round that adds no colour to a colouring with the colours below their number
changes nothing. So where rounds of refinement end with a colour for each individual, no individual is
ever set apart, and nothing that canonical labels go by hangs on the names. -/

namespace OwlGraph

namespace Colouring

variable {p : BlankNode → BlankNode} {facts others : List AnnotatedAxiom} {colouring other : Colouring}

/-- Items that are numbered in their order stand where their numbers say. -/
theorem idxOf_eq_of_map_eq_range {α : Type} [DecidableEq α] {items : List α} {number : α → Nat} {count : Nat}
    (range : items.map number = List.range count) {item : α} (member : item ∈ items) : items.idxOf item = number item := by
  have small : items.idxOf item < items.length := List.idxOf_lt_length_of_mem member
  have length : items.length = count := by simpa using congrArg List.length range
  have there : (items.map number)[items.idxOf item]? = some (number item) := by
    rw [List.getElem?_map, List.getElem?_eq_getElem small, List.getElem_idxOf]
    rfl
  rw [range, List.getElem?_range (length ▸ small)] at there
  exact Option.some.inj there

/-- The keys of a round in their order. -/
def keyOrder (facts : List AnnotatedAxiom) (colouring : Colouring) : List (Nat × List String) :=
  palette (pairLe textsLe) (keys facts colouring)

theorem length_keyOrder (facts : List AnnotatedAxiom) (colouring : Colouring) :
    (keyOrder facts colouring).length = (colouring.refine facts).count := by
  rw [count_eq_card, refine_eq, used_rank (pairOrdering textsOrdering), Finset.card_range, keyOrder]

/-- The keys begin with the colours that are used. -/
theorem mem_colours_keyOrder {colour : Nat} : colour ∈ (keyOrder facts colouring).map Prod.fst ↔ colour ∈ colouring.used := by
  have entries : ((keys facts colouring).map Prod.snd).map Prod.fst = colouring.map Prod.snd := by
    rw [keys, List.map_map, List.map_map]
    rfl
  rw [used, List.mem_toFinset, ← entries, List.mem_map, List.mem_map]
  exact exists_congr fun key => and_congr_left' mem_palette

theorem pairwise_colours_keyOrder (facts : List AnnotatedAxiom) (colouring : Colouring) :
    ((keyOrder facts colouring).map Prod.fst).Pairwise (· ≤ ·) := by
  refine List.pairwise_map.mpr ((pairwise_palette (pairOrdering textsOrdering)).imp ?_)
  rintro key later ⟨below, -⟩
  simp only [pairLe, Bool.or_eq_true, decide_eq_true_eq, Bool.and_eq_true, beq_iff_eq] at below
  rcases below with less | ⟨equal, -⟩
  · exact Nat.le_of_lt less
  · exact Nat.le_of_eq equal

section Stable

variable (dense : colouring.Dense) (still : (colouring.refine facts).count = colouring.count)
include dense still

/-- Where a round adds no colour, there is one key for each colour. -/
theorem colours_keyOrder : (keyOrder facts colouring).map Prod.fst = List.range colouring.count := by
  have same : ((keyOrder facts colouring).map Prod.fst).toFinset = colouring.used := by
    ext colour
    rw [List.mem_toFinset, mem_colours_keyOrder]
  have length : colouring.used.card = ((keyOrder facts colouring).map Prod.fst).length := by
    rw [List.length_map, length_keyOrder, still, count_eq_card]
  have distinct : ((keyOrder facts colouring).map Prod.fst).Nodup :=
    Multiset.toFinset_card_eq_card_iff_nodup.mp ((congrArg Finset.card same).trans length)
  refine List.Perm.eq_of_pairwise (fun _ _ _ _ => Nat.le_antisymm) (pairwise_colours_keyOrder facts colouring)
    List.pairwise_le_range ?_
  refine (List.perm_ext_iff_of_nodup distinct List.nodup_range).mpr fun colour => ?_
  rw [mem_colours_keyOrder, dense, Finset.mem_range, List.mem_range]

/-- A round that adds no colour changes nothing. -/
theorem refine_eq_self : colouring.refine facts = colouring := by
  rw [refine_eq, rank_eq, ← keyOrder, keys, List.map_map]
  refine (List.map_congr_left fun entry member => ?_).trans (List.map_id' colouring)
  have inside : (entry.2, colouring.views facts entry.1) ∈ keyOrder facts colouring := mem_palette_of_mem (mem_keys member)
  exact Prod.ext rfl (idxOf_eq_of_map_eq_range (colours_keyOrder dense still) inside)

end Stable

/-- Rounds of refinement alone end with a colour for each individual. -/
def Distinguishes (facts : List AnnotatedAxiom) (colouring : Colouring) : Prop :=
  ∃ rounds, ((refine facts)^[rounds] colouring).Separated

/-- Where refinement alone separates the individuals, none is set apart. -/
theorem choices_eq_nil (rounds : Nat) (dense : colouring.Dense) (distinguishes : colouring.Distinguishes facts) :
    choices facts rounds colouring = [] := by
  induction rounds generalizing colouring with
  | zero => rfl
  | succ rounds ih =>
    rw [choices]
    split
    next few =>
      obtain ⟨further, separated⟩ := distinguishes
      -- A round that adds no colour would be the last that changes anything.
      have more : colouring.count < (colouring.refine facts).count := by
        refine Nat.lt_of_le_of_ne (count_le_count_refine facts) fun still => ?_
        rw [Function.iterate_fixed (refine_eq_self dense still.symm)] at separated
        exact Nat.ne_of_lt few separated
      rw [if_pos more]
      refine ih (dense_refine facts) ?_
      cases further with
      | zero => exact absurd separated (Nat.ne_of_lt few)
      | succ further => exact ⟨further, separated⟩
    next => rfl

theorem colour_start {node : BlankNode} (own : node ∈ individuals facts) : (start facts).colour node = 0 := by
  have entry : (node, 0) ∈ start facts := List.mem_map_of_mem (f := fun node => (node, 0)) own
  rw [colour, colour_of_mem (covers_start facts).distinct entry]
  rfl

/-- Colours that tell all individuals apart are one for each. -/
theorem separated_of_injOn (distinct : colouring.nodes.Nodup)
    (apart : Set.InjOn colouring.colour {node | node ∈ colouring.nodes}) : colouring.Separated := by
  have colours : colouring.map Prod.snd = colouring.nodes.map colouring.colour := by
    rw [nodes, List.map_map]
    refine List.map_congr_left fun entry member => ?_
    rw [Function.comp_apply, colour, colour_of_mem distinct member]
    rfl
  have nodup : (colouring.map Prod.snd).Nodup := colours ▸ distinct.map_on fun a left b right same => apart left right same
  rw [Separated, count_eq_card, used, List.toFinset_card_of_nodup nodup, List.length_map]

/-- The finer colouring gives different colours where the other one does, in the same order. -/
def Splits (finer colouring : Colouring) : Prop := ∀ a ∈ colouring.nodes, ∀ b ∈ colouring.nodes,
  (colouring.colour a < colouring.colour b → finer.colour a < finer.colour b) ∧
  (finer.colour a = finer.colour b → colouring.colour a = colouring.colour b)

theorem Covers.splits_refine (covers : colouring.Covers facts) : (colouring.refine facts).Splits colouring :=
  fun _ left _ right => ⟨colour_refine_lt covers.distinct left right,
    fun same => ((colour_refine_inj covers.distinct left right).mp same).1⟩

/-- A renaming that keeps the individuals of the axioms apart can be taken to give clean labels to all
others too. -/
theorem exists_isomorphic (clean : ∀ fact ∈ facts, fact.Clean)
    (names : ∀ node ∈ individuals facts, (Leaf.word (p node).text).Clean)
    (apart : Set.InjOn p {node | node ∈ individuals facts}) (renamed : others.Perm (facts.map (AnnotatedAxiom.rename p))) :
    ∃ q, Isomorphic q facts others ∧ ∀ node ∈ individuals facts, q node = p node := by
  obtain ⟨q, labels, agree⟩ := @exists_cleanLabels p {node | node ∈ individuals facts} names
  have same : facts.map (AnnotatedAxiom.rename p) = facts.map (AnnotatedAxiom.rename q) :=
    List.map_congr_left fun fact member =>
      AnnotatedAxiom.rename_congr fun node own => (agree node (mem_individuals.mpr ⟨fact, member, own⟩)).symm
  refine ⟨q, ⟨labels, clean, fun a left b right equal => ?_, same ▸ renamed⟩, agree⟩
  rw [agree a left, agree b right] at equal
  exact apart left right equal

/-- Which individuals correspond hangs on the names of those of the axioms alone. -/
theorem Covers.matched_congr {q : BlankNode → BlankNode} (covers : colouring.Covers facts)
    (agree : ∀ node ∈ individuals facts, q node = p node) : Matched q colouring other ↔ Matched p colouring other := by
  have same : colouring.map (fun entry => (q entry.1, entry.2)) = colouring.map fun entry => (p entry.1, entry.2) :=
    List.map_congr_left fun entry member =>
      Prod.ext (agree _ ((covers.nodes _).mp (List.mem_map_of_mem (f := Prod.fst) member))) rfl
  rw [Matched, same, Matched]

end Colouring

namespace Ontology

open Colouring

variable {p : BlankNode → BlankNode} {facts others : List AnnotatedAxiom}

/-- Refinement does not see the names of the individuals nor the order of the axioms, and it only splits
colours, in their order. So if it separates all individuals, ontologies with the same axioms up to the
names have the same axioms after the individuals got canonical labels. -/
theorem refinement_unlabelled (clean : ∀ fact ∈ facts, fact.Clean)
    (words : ∀ node ∈ individuals facts, (Leaf.word node.text).Clean)
    (names : ∀ node ∈ individuals facts, (Leaf.word (p node).text).Clean)
    (apart : Set.InjOn p {node | node ∈ individuals facts})
    (renamed : others.Perm (facts.map (AnnotatedAxiom.rename p))) :
    (∀ colouring other, colouring.Covers facts → Matched p colouring other →
      Matched p (colouring.refine facts) (other.refine others) ∧
      (other.refine others).count = (colouring.refine facts).count ∧
      (colouring.refine facts).Splits colouring ∧ (colouring.refine facts).Dense) ∧
    ((start facts).Distinguishes facts → ∀ ontology other : Ontology, ontology.Coherent → other.Coherent →
      ontology.axioms = facts → (∀ fact, fact ∈ other.axioms ↔ fact ∈ others) →
      ontology.canonicalize.sameAxioms other.canonicalize = true) := by
  obtain ⟨q, isomorphic, agree⟩ := exists_isomorphic clean names apart renamed
  refine ⟨fun colouring other covers matched => ?refined, fun distinguishes ontology other coherent built own same => ?canonical⟩
  case refined =>
    have refined : Matched q (colouring.refine facts) (other.refine others) :=
      ((covers.matched_congr agree).mpr matched).refine isomorphic covers
    exact ⟨(covers.refine.matched_congr agree).mp refined, refined.count_eq, covers.splits_refine, dense_refine facts⟩
  case canonical =>
    subst own
    have listed : others.Nodup := renamed.nodup_iff.mpr (nodup_map_rename coherent clean
      (fun node member => words node (mem_individuals.mpr member))
      (fun a left b right => apart (mem_individuals.mpr left) (mem_individuals.mpr right))
      fun node member => names node (mem_individuals.mpr member))
    have axioms : other.axioms.Perm others := (List.perm_ext_iff_of_nodup built.sound.nodup_toList listed).mpr same
    have none := choices_eq_nil (individuals ontology.axioms).length (dense_start _) distinguishes
    refine sameAxioms_of_isomorphic coherent built (fun node member => words node (mem_individuals.mpr member)) (p := q)
      { isomorphic with renamed := axioms.trans isomorphic.renamed } ?_
    rw [none]
    exact List.forall_mem_nil _

theorem text_link (first second : String) : (link first second).text =
    (Axiom.objectPropertyAssertion .positive (.named ⟨"ex:p"⟩) (.blank ⟨first⟩) (.blank ⟨second⟩)).text := by
  have none : (link first second).annotations = [] := Annotation.canonical_eq_nil.mpr rfl
  rw [AnnotatedAxiom.text, none]
  rfl

theorem mem_individuals_link {node : BlankNode} : node ∈ individuals [link "a" "b"] ↔ node = ⟨"a"⟩ ∨ node = ⟨"b"⟩ := by
  rw [mem_individuals]
  simp only [List.mem_singleton, exists_eq_left]
  constructor
  · intro inside
    have own := AnnotatedAxiom.components_of _ _ inside
    simpa [Axiom.components, Component.property, Component.objectProperty, Component.individual] using own
  · rintro (rfl | rfl) <;>
      exact AnnotatedAxiom.anonymous_of trivial (List.forall_mem_nil _) (by
        simp [Axiom.components, Component.property, Component.objectProperty, Component.individual])

theorem views_link (colouring : Colouring) {node : BlankNode} (own : node ∈ individuals [link "a" "b"]) :
    colouring.views [link "a" "b"] node = [colouring.view node (link "a" "b")] := by
  obtain ⟨fact, listed, inside⟩ := mem_individuals.mp own
  rw [List.mem_singleton.mp listed] at inside
  rw [views, List.filter_singleton, List.contains_iff_mem.mpr (mem_anonymous.mpr inside)]
  exact List.mergeSort_singleton _

/-- An assertion looks different from its two sides, so a round tells them apart. -/
theorem distinguishes_link : (start [link "a" "b"]).Distinguishes [link "a" "b"] := by
  have covers := covers_start [link "a" "b"]
  have first : (⟨"a"⟩ : BlankNode) ∈ individuals [link "a" "b"] := mem_individuals_link.mpr (.inl rfl)
  have second : (⟨"b"⟩ : BlankNode) ∈ individuals [link "a" "b"] := mem_individuals_link.mpr (.inr rfl)
  have apart : (start [link "a" "b"]).views [link "a" "b"] ⟨"a"⟩ ≠ (start [link "a" "b"]).views [link "a" "b"] ⟨"b"⟩ := by
    rw [views_link _ first, views_link _ second, view, view, rename_link, rename_link, colour_start first, colour_start second,
      text_link, text_link]
    decide +kernel
  refine ⟨1, separated_of_injOn covers.refine.distinct fun node left rival right same => ?_⟩
  have own := (covers.refine.nodes node).mp left
  have also := (covers.refine.nodes rival).mp right
  have alike := (colour_refine_inj covers.distinct ((covers.nodes node).mpr own) ((covers.nodes rival).mpr also)).mp same
  rcases mem_individuals_link.mp own with rfl | rfl <;> rcases mem_individuals_link.mp also with rfl | rfl
  · rfl
  · exact absurd alike.2 apart
  · exact absurd alike.2.symm apart
  · rfl

/-- An ontology with one axiom. -/
def stating (fact : AnnotatedAxiom) : Ontology := ({ } : Ontology).add fact

theorem axioms_stating_link (first second : String) : (stating (link first second)).axioms = [link first second] := by
  have empty : ({ } : Ontology).Coherent := coherent_of_empty rfl
  have coherent : (stating (link first second)).Coherent := empty.add _ _
  refine List.perm_singleton.mp ((List.perm_ext_iff_of_nodup coherent.sound.nodup_toList (List.nodup_singleton _)).mpr fun fact => ?_)
  have none : fact ∉ ({ } : Ontology).axioms := List.not_mem_nil
  exact (mem_axioms_add empty.sound).trans ((or_iff_left none).trans List.mem_singleton.symm)

/-- The individuals of one assertion, renamed. -/
theorem refinement_unlabelled_link :
    (Matched turned ((start [link "a" "b"]).refine [link "a" "b"])
        (Colouring.refine [link "x" "y"] ((start [link "a" "b"]).map fun entry => (turned entry.1, entry.2))) ∧
      (start [link "a" "b"]).Distinguishes [link "a" "b"]) ∧
    (stating (link "a" "b")).canonicalize.sameAxioms (stating (link "x" "y")).canonicalize = true := by
  have names : ∀ node ∈ individuals [link "a" "b"], turned node = ⟨"x"⟩ ∨ turned node = ⟨"y"⟩ := by
    intro node _
    rw [turned]
    split
    · exact .inl rfl
    · exact .inr rfl
  obtain ⟨refined, canonical⟩ := @refinement_unlabelled turned [link "a" "b"] [link "x" "y"]
    (List.forall_mem_singleton.mpr (AnnotatedAxiom.clean_of trivial (List.forall_mem_nil _)))
    (fun node member => by
      rcases mem_individuals_link.mp member with rfl | rfl <;> exact clean_label (by simp [isBreak]))
    (fun node member => by
      rcases names node member with same | same <;> exact same ▸ clean_label (by simp [isBreak]))
    (fun node left rival right same => by
      rcases mem_individuals_link.mp left with rfl | rfl <;> rcases mem_individuals_link.mp right with rfl | rfl
      · rfl
      · exact absurd same (by decide)
      · exact absurd same (by decide)
      · rfl)
    (by rw [List.map_singleton, rename_link]; exact List.Perm.refl _)
  refine ⟨⟨(refined _ _ (covers_start _) (List.Perm.refl _)).1, distinguishes_link⟩, ?_⟩
  exact canonical distinguishes_link _ _ ((coherent_of_empty rfl).add _ _) ((coherent_of_empty rfl).add _ _)
    (axioms_stating_link _ _) (fun fact => by rw [axioms_stating_link])

end Ontology

end OwlGraph
