import Mathlib.Data.Set.Card
import Std.Data.String.ToNat
import OwlGraph.Proofs.AxiomSet
import OwlGraph.Proofs.Colouring
import OwlGraph.Proofs.Components

/-! Canonical labels lose nothing. The final colouring tells all anonymous individuals apart and
uses the colours below their number, so the labels are a bijection, different axioms stay
different, and the axioms are those that were there, each renamed. -/

namespace OwlGraph

namespace Ontology

/-- What holds of an ontology to which axioms in normal form are added and from which axioms are
removed. -/
structure Coherent (ontology : Ontology) : Prop where
  sound : ontology.index.Sound
  normal : ∀ fact ∈ ontology.axioms, fact.Normal

variable {ontology : Ontology}

theorem coherent_of_empty (empty : ontology.index = {}) : ontology.Coherent where
  sound := empty ▸ AxiomIndex.sound_empty
  normal fact member := by
    rw [axioms, empty] at member
    cases member

theorem Coherent.add (coherent : ontology.Coherent) (bare : Axiom) (notes : List Annotation) :
    (ontology.add (.of bare notes)).Coherent where
  sound := coherent.sound.insert _
  normal fact member := by
    rcases (mem_axioms_add coherent.sound).mp member with rfl | known
    · exact AnnotatedAxiom.normal_of bare notes
    · exact coherent.normal fact known

theorem Coherent.remove (coherent : ontology.Coherent) (fact : AnnotatedAxiom) : (ontology.remove fact).Coherent where
  sound := coherent.sound.remove _
  normal other member := coherent.normal other ((mem_axioms_remove coherent.sound).mp member).2

end Ontology

namespace Colouring

variable {facts : List AnnotatedAxiom} {node : BlankNode}

/-- The anonymous individuals of the axioms, each once. -/
def individuals (facts : List AnnotatedAxiom) : List BlankNode := (facts.flatMap AnnotatedAxiom.anonymous).eraseDups

theorem mem_anonymous {fact : AnnotatedAxiom} : node ∈ fact.anonymous ↔ .anonymous node ∈ fact.components := by
  rw [AnnotatedAxiom.anonymous, List.mem_eraseDups, List.mem_filterMap]
  constructor
  · rintro ⟨component, member, same⟩
    cases component with
    | anonymous => exact Option.some.inj same ▸ member
    | entity | iri => cases same
  · exact fun member => ⟨_, member, rfl⟩

theorem mem_individuals : node ∈ individuals facts ↔ ∃ fact ∈ facts, .anonymous node ∈ fact.components := by
  simp only [individuals, List.mem_eraseDups, List.mem_flatMap, mem_anonymous]

theorem nodup_individuals : (individuals facts).Nodup := Canonical.nodup_eraseDups _

/-- The colouring that refinement starts with. -/
def start (facts : List AnnotatedAxiom) : Colouring := (individuals facts).map fun node => (node, 0)

theorem canonical_eq (facts : List AnnotatedAxiom) :
    canonical facts = separate facts (individuals facts).length (start facts) := rfl

@[simp] theorem nodes_start (facts : List AnnotatedAxiom) : (start facts).nodes = individuals facts := by
  rw [nodes, start, List.map_map]
  exact List.map_id' _

@[simp] theorem length_start (facts : List AnnotatedAxiom) : (start facts).length = (individuals facts).length :=
  List.length_map _

theorem dense_start (facts : List AnnotatedAxiom) : (start facts).Dense := by
  have used : (start facts).used ⊆ {0} := by
    intro colour member
    obtain ⟨node, entry⟩ := mem_used.mp member
    obtain ⟨other, -, same⟩ := List.mem_map.mp entry
    exact Finset.mem_singleton.mpr (congrArg Prod.snd same).symm
  rw [Dense, count_eq_card]
  rcases Finset.subset_singleton_iff.mp used with none | one
  · rw [none]
    rfl
  · rw [one]
    rfl

/-- More rounds than are needed change nothing. -/
theorem separate_add (facts : List AnnotatedAxiom) (rounds more : Nat) (colouring : Colouring) :
    separate facts (rounds + more) colouring = separate facts more (separate facts rounds colouring) := by
  induction rounds generalizing colouring with
  | zero => rw [Nat.zero_add, separate]
  | succ rounds ih =>
    by_cases few : colouring.count < colouring.length
    case neg =>
      have separated := separated_of_length_le (Nat.not_lt.mp few)
      rw [separate_separated separated, separate_separated separated, separate_separated separated]
    case pos =>
      rw [Nat.succ_add, separate_succ few, separate_succ few]
      split
      next more => exact ih _
      next still =>
        split
        next chosen found => exact ih _
        next none => exact (separate_separated (count_eq_length_of_tied?_eq_none none)).symm

theorem canonical_separates (facts : List AnnotatedAxiom) :
    (canonical facts).nodes = individuals facts ∧ (canonical facts).Dense ∧ (canonical facts).Separated := by
  have result := @separates facts (individuals facts).length (start facts)
    (nodes_start facts ▸ nodup_individuals) (dense_start facts) (by simp)
  rwa [nodes_start] at result

theorem label_of_mem {colouring : Colouring} (distinct : colouring.nodes.Nodup) {colour : Nat}
    (member : (node, colour) ∈ colouring) : colouring.label node = ⟨"c" ++ Nat.repr colour⟩ := by
  rw [label, colour_of_mem distinct member]

theorem name_injective {first second : Nat} (same : (⟨"c" ++ Nat.repr first⟩ : BlankNode) = ⟨"c" ++ Nat.repr second⟩) :
    first = second :=
  Nat.repr_injective ((String.append_right_inj _).mp (congrArg BlankNode.label same))

theorem clean_label {label : String} (plain : ∀ c ∈ label.toList, isBreak c = false) :
    (Leaf.word (BlankNode.text ⟨label⟩)).Clean := by
  have shape : (BlankNode.text ⟨label⟩).toList = '_' :: ':' :: label.toList := by simp [BlankNode.text]
  refine ⟨?_, '_', _, shape, by decide⟩
  rw [shape, List.forall_mem_cons, List.forall_mem_cons]
  exact ⟨by decide, by decide, plain⟩

theorem clean_numbered {stem : String} (plain : ∀ c ∈ stem.toList, isBreak c = false) (number : Nat) :
    (Leaf.word (BlankNode.text ⟨stem ++ Nat.repr number⟩)).Clean := by
  refine clean_label ?_
  rw [String.toList_append, List.forall_mem_append]
  exact ⟨plain, fun _ => isBreak_of_mem_repr⟩

theorem clean_name (colour : Nat) : (Leaf.word (BlankNode.text ⟨"c" ++ Nat.repr colour⟩)).Clean :=
  clean_numbered (by simp [isBreak]) colour

/-- A renaming can be replaced by one that gives clean labels to all individuals if it does so to
those that matter. -/
theorem exists_cleanLabels {f : BlankNode → BlankNode} {nodes : Set BlankNode}
    (names : ∀ node ∈ nodes, (Leaf.word (f node).text).Clean) :
    ∃ g, CleanLabels g ∧ ∀ node ∈ nodes, g node = f node := by
  classical
  let g : BlankNode → BlankNode := fun node => if node ∈ nodes then f node else ⟨"c" ++ Nat.repr 0⟩
  have inside : ∀ node ∈ nodes, g node = f node := fun node member => if_pos member
  refine ⟨g, fun node => ?_, inside⟩
  by_cases member : node ∈ nodes
  · rw [inside node member]
    exact names node member
  · rw [show g node = ⟨"c" ++ Nat.repr 0⟩ from if_neg member]
    exact clean_name 0

theorem nodup_colours {colouring : Colouring} (separated : colouring.Separated) : (colouring.map Prod.snd).Nodup := by
  rw [Separated, count_eq_card, used, ← @List.length_map _ _ colouring Prod.snd] at separated
  exact Multiset.toFinset_card_eq_card_iff_nodup.mp separated

/-- A colouring with a colour for each individual, among those below their number, labels them by
a bijection. -/
theorem bijOn_label {colouring : Colouring} (distinct : colouring.nodes.Nodup) (dense : colouring.Dense)
    (separated : colouring.Separated) :
    Set.BijOn colouring.label {node | node ∈ colouring.nodes}
      {name | ∃ colour < colouring.nodes.length, name = ⟨"c" ++ Nat.repr colour⟩} := by
  have below : ∀ colour, colour < colouring.nodes.length ↔ ∃ node, (node, colour) ∈ colouring := by
    intro colour
    rw [← mem_used, dense, Finset.mem_range, separated, nodes, List.length_map]
  refine ⟨fun node member => ?_, fun node member other inside same => ?_, ?_⟩
  · obtain ⟨colour, entry⟩ := exists_colour member
    exact ⟨colour, (below colour).mpr ⟨node, entry⟩, label_of_mem distinct entry⟩
  · obtain ⟨colour, entry⟩ := exists_colour member
    obtain ⟨shade, twin⟩ := exists_colour inside
    rw [label_of_mem distinct entry, label_of_mem distinct twin] at same
    obtain rfl := name_injective same
    exact congrArg Prod.fst (List.inj_on_of_nodup_map (nodup_colours separated) entry twin rfl)
  · rintro name ⟨colour, small, shape⟩
    obtain ⟨node, entry⟩ := (below colour).mp small
    exact ⟨node, List.mem_map_of_mem (f := Prod.fst) entry, shape ▸ label_of_mem distinct entry⟩

theorem ncard_individuals (facts : List AnnotatedAxiom) :
    {node | ∃ fact ∈ facts, .anonymous node ∈ fact.components}.ncard = (individuals facts).length := by
  have same : {node | ∃ fact ∈ facts, .anonymous node ∈ fact.components} = ((individuals facts).toFinset : Set BlankNode) := by
    ext node
    rw [List.coe_toFinset, Set.mem_ofPred_eq, Set.mem_ofPred_eq, mem_individuals]
  rw [same, Set.ncard_coe_finset, List.toFinset_card_of_nodup nodup_individuals]

/-- The final labels are a bijection from the individuals of the axioms onto the first names. -/
theorem bijOn_canonical (facts : List AnnotatedAxiom) :
    Set.BijOn (canonical facts).label {node | ∃ fact ∈ facts, .anonymous node ∈ fact.components}
      {name | ∃ number < {node | ∃ fact ∈ facts, .anonymous node ∈ fact.components}.ncard,
        name = ⟨"c" ++ Nat.repr number⟩} := by
  obtain ⟨nodes, dense, separated⟩ := canonical_separates facts
  have bijective := bijOn_label (nodes ▸ nodup_individuals) dense separated
  rw [ncard_individuals]
  simpa only [nodes, mem_individuals] using bijective

end Colouring

namespace Ontology

open Colouring

variable {ontology : Ontology}

/-- The anonymous individuals that occur in axioms. -/
def inhabitants (ontology : Ontology) : Set BlankNode := {node | ∃ fact ∈ ontology.axioms, .anonymous node ∈ fact.components}

/-- Different axioms stay different when the labels of their individuals do. -/
theorem nodup_map_rename {f : BlankNode → BlankNode} (coherent : ontology.Coherent)
    (clean : ∀ fact ∈ ontology.axioms, fact.Clean) (words : ∀ node ∈ ontology.inhabitants, (Leaf.word node.text).Clean)
    (apart : Set.InjOn f ontology.inhabitants) (names : ∀ node ∈ ontology.inhabitants, (Leaf.word (f node).text).Clean) :
    (ontology.axioms.map (AnnotatedAxiom.rename f)).Nodup := by
  obtain ⟨g, labels, agree⟩ := exists_cleanLabels names
  have same : ontology.axioms.map (AnnotatedAxiom.rename f) = ontology.axioms.map (AnnotatedAxiom.rename g) :=
    List.map_congr_left fun fact member =>
      AnnotatedAxiom.rename_congr fun node own => (agree node ⟨fact, member, own⟩).symm
  rw [same]
  refine coherent.sound.nodup_toList.map_on fun first left second right equal => ?_
  refine AnnotatedAxiom.rename_injective labels ?_ words (clean first left)
    (clean second right) (coherent.normal first left) (coherent.normal second right) (fun _ own => ⟨first, left, own⟩)
    (fun _ own => ⟨second, right, own⟩) equal
  intro a b here there shared
  exact apart here there (by rwa [agree a here, agree b there] at shared)

/-- The axioms after the individuals got canonical labels are those before, each renamed. -/
theorem canonicalize_rebuilt (coherent : ontology.Coherent) (clean : ∀ fact ∈ ontology.axioms, fact.Clean)
    (words : ∀ node ∈ ontology.inhabitants, (Leaf.word node.text).Clean) :
    ontology.canonicalize.index.Sound ∧ ontology.canonicalize.index.Counted ∧ ontology.canonicalize.axioms =
      ontology.axioms.map (AnnotatedAxiom.rename (canonical ontology.axioms).label) := by
  have bijective := bijOn_canonical ontology.axioms
  have distinct := nodup_map_rename coherent clean words bijective.injOn fun node member => by
    obtain ⟨colour, -, shape⟩ := bijective.mapsTo member
    rw [shape]
    exact clean_name colour
  have rebuilt := AxiomIndex.foldl_insert AxiomIndex.sound_empty rfl distinct
  rwa [List.foldl_map] at rebuilt

theorem Coherent.canonicalize (coherent : ontology.Coherent) (clean : ∀ fact ∈ ontology.axioms, fact.Clean)
    (words : ∀ node ∈ ontology.inhabitants, (Leaf.word node.text).Clean) : ontology.canonicalize.Coherent := by
  obtain ⟨sound, -, axioms⟩ := canonicalize_rebuilt coherent clean words
  refine ⟨sound, ?_⟩
  rw [axioms, List.forall_mem_map]
  exact fun fact _ => AnnotatedAxiom.normal_of _ _

/-- Canonical labels lose nothing. The rounds come to an end, the labels are a bijection from the
anonymous individuals onto the first names, every axiom is there in its place and renamed, and
the header stays as it was. -/
theorem canonicalize_faithful (coherent : ontology.Coherent) (clean : ∀ fact ∈ ontology.axioms, fact.Clean)
    (words : ∀ node ∈ ontology.inhabitants, (Leaf.word node.text).Clean) :
    (∀ more, separate ontology.axioms ((individuals ontology.axioms).length + more) (start ontology.axioms) =
      canonical ontology.axioms) ∧
    Set.BijOn (canonical ontology.axioms).label ontology.inhabitants
      {name | ∃ number < ontology.inhabitants.ncard, name = ⟨"c" ++ Nat.repr number⟩} ∧
    ontology.canonicalize.axioms = ontology.axioms.map (AnnotatedAxiom.rename (canonical ontology.axioms).label) ∧
    { ontology.canonicalize with index := ontology.index } = ontology := by
  refine ⟨fun more => ?_, bijOn_canonical ontology.axioms, (canonicalize_rebuilt coherent clean words).2.2, rfl⟩
  rw [separate_add, ← canonical_eq]
  exact separate_separated (canonical_separates ontology.axioms).2.2

/-- Two individuals whose labels are names that canonical labels give. -/
def crossed : Ontology :=
  (({ } : Ontology).add (.of (.sameIndividual [.blank ⟨"c1"⟩, .blank ⟨"c0"⟩]) [])).add
    (.of (.objectPropertyAssertion .positive (.named ⟨"ex:p"⟩) (.blank ⟨"c1"⟩) (.blank ⟨"c0"⟩)) [])

theorem coherent_crossed : crossed.Coherent := ((coherent_of_empty rfl).add _ _).add _ _

theorem mem_crossed {fact : AnnotatedAxiom} (member : fact ∈ crossed.axioms) :
    fact = .of (.objectPropertyAssertion .positive (.named ⟨"ex:p"⟩) (.blank ⟨"c1"⟩) (.blank ⟨"c0"⟩)) [] ∨
      fact = .of (.sameIndividual [.blank ⟨"c1"⟩, .blank ⟨"c0"⟩]) [] := by
  have empty : ({ } : Ontology).Coherent := coherent_of_empty rfl
  rcases (mem_axioms_add (empty.add _ _).sound).mp member with last | earlier
  · exact .inl last
  · rcases (mem_axioms_add empty.sound).mp earlier with first | none
    · exact .inr first
    · cases none

theorem clean_crossed : ∀ fact ∈ crossed.axioms, fact.Clean := by
  have words : ∀ number, (Leaf.word (BlankNode.text ⟨"c" ++ Nat.repr number⟩)).Clean := clean_name
  intro fact member
  rcases mem_crossed member with rfl | rfl
  · exact AnnotatedAxiom.clean_of trivial (List.forall_mem_nil _)
  · refine AnnotatedAxiom.clean_of (List.forall_mem_cons.mpr ⟨words 1, List.forall_mem_cons.mpr ⟨words 0, ?_⟩⟩) ?_
    · exact List.forall_mem_nil _
    · exact List.forall_mem_nil _

theorem words_crossed : ∀ node ∈ crossed.inhabitants, (Leaf.word node.text).Clean := by
  rintro node ⟨fact, member, inside⟩
  have named : node = ⟨"c1"⟩ ∨ node = ⟨"c0"⟩ := by
    rcases mem_crossed member with rfl | rfl
    all_goals
      have own := AnnotatedAxiom.components_of _ _ inside
      simpa [Axiom.components, Component.property, Component.objectProperty, Component.individual] using own
  rcases named with rfl | rfl
  · exact clean_name 1
  · exact clean_name 0

theorem canonicalize_faithful_crossed :
    (crossed.Coherent ∧ (∀ fact ∈ crossed.axioms, fact.Clean) ∧ ∀ node ∈ crossed.inhabitants, (Leaf.word node.text).Clean) ∧
    (∀ more, separate crossed.axioms ((individuals crossed.axioms).length + more) (start crossed.axioms) =
      canonical crossed.axioms) ∧
    Set.BijOn (canonical crossed.axioms).label crossed.inhabitants
      {name | ∃ number < crossed.inhabitants.ncard, name = ⟨"c" ++ Nat.repr number⟩} ∧
    crossed.canonicalize.axioms = crossed.axioms.map (AnnotatedAxiom.rename (canonical crossed.axioms).label) ∧
    { crossed.canonicalize with index := crossed.index } = crossed :=
  ⟨⟨coherent_crossed, clean_crossed, words_crossed⟩, canonicalize_faithful coherent_crossed clean_crossed words_crossed⟩

end Ontology

end OwlGraph
