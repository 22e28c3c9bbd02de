import OwlGraph.Proofs.CanonicalLabels

/-! Canonical labels of ontologies that are equal up to the names of their anonymous individuals.
Refinement does not see the names, nor the order of the axioms: it gives corresponding individuals
the same colours. Only the choice of an individual to be set apart goes by the names, so canonical
labels agree where the renaming keeps the order of the names that are compared there. -/

namespace OwlGraph

open Canonical

namespace Colouring

variable {p : BlankNode → BlankNode} {facts others : List AnnotatedAxiom} {colouring other : Colouring} {node : BlankNode}

/-- The axioms of one list are those of the other in some order, renamed so that the individuals
stay apart. -/
structure Isomorphic (p : BlankNode → BlankNode) (facts others : List AnnotatedAxiom) : Prop where
  labels : CleanLabels p
  clean : ∀ fact ∈ facts, fact.Clean
  apart : ∀ a ∈ individuals facts, ∀ b ∈ individuals facts, p a = p b → a = b
  renamed : others.Perm (facts.map (AnnotatedAxiom.rename p))

/-- Every individual of the axioms is coloured once, and no other one. -/
structure Covers (colouring : Colouring) (facts : List AnnotatedAxiom) : Prop where
  distinct : colouring.nodes.Nodup
  nodes : ∀ node, node ∈ colouring.nodes ↔ node ∈ individuals facts

/-- Corresponding individuals have the same colours. -/
def Matched (p : BlankNode → BlankNode) (colouring other : Colouring) : Prop :=
  other.Perm (colouring.map fun entry => (p entry.1, entry.2))

theorem covers_start (facts : List AnnotatedAxiom) : (start facts).Covers facts where
  distinct := nodes_start facts ▸ nodup_individuals
  nodes node := by rw [nodes_start]

theorem Covers.refine (covers : colouring.Covers facts) : (colouring.refine facts).Covers facts := by
  have same := @nodes_refine colouring facts
  exact ⟨same ▸ covers.distinct, same ▸ covers.nodes⟩

theorem Covers.setApart (covers : colouring.Covers facts) (chosen : BlankNode) : (colouring.setApart chosen).Covers facts := by
  have same := @nodes_setApart colouring chosen
  exact ⟨same ▸ covers.distinct, same ▸ covers.nodes⟩

namespace Matched

theorem length_eq (matched : Matched p colouring other) : other.length = colouring.length := by
  simpa using List.Perm.length_eq matched

theorem colours_perm (matched : Matched p colouring other) : (other.map Prod.snd).Perm (colouring.map Prod.snd) := by
  have colours := matched.map Prod.snd
  rwa [List.map_map] at colours

theorem count_eq (matched : Matched p colouring other) : other.count = colouring.count := by
  rw [count_eq_card, count_eq_card, used, used, List.toFinset_eq_of_perm _ _ matched.colours_perm]

theorem groupSize_eq (matched : Matched p colouring other) (colour : Nat) :
    other.groupSize colour = colouring.groupSize colour := by
  rw [groupSize, groupSize, matched.countP_eq, List.countP_map]
  rfl

theorem mem_iff (matched : Matched p colouring other) {name : BlankNode} {colour : Nat} :
    (name, colour) ∈ other ↔ ∃ node, (node, colour) ∈ colouring ∧ p node = name := by
  rw [List.Perm.mem_iff matched, List.mem_map]
  constructor
  · rintro ⟨⟨node, colour⟩, member, same⟩
    cases same
    exact ⟨node, member, rfl⟩
  · rintro ⟨node, member, rfl⟩
    exact ⟨_, member, rfl⟩

end Matched

/-- Equal sets of keys are numbered alike. -/
theorem matched_rank {κ : Type} [DecidableEq κ] {le : κ → κ → Bool} (ordering : Ordering le)
    {keys corresponding : List (BlankNode × κ)}
    (matched : corresponding.Perm (keys.map fun entry => (p entry.1, entry.2))) :
    Matched p (rank le keys) (rank le corresponding) := by
  have same : palette le corresponding = palette le keys := by
    have members : ∀ key, key ∈ palette le corresponding ↔ key ∈ palette le keys := by
      intro key
      rw [mem_palette, mem_palette, (matched.map Prod.snd).mem_iff, List.map_map]
      rfl
    refine List.Perm.eq_of_pairwise (fun a b _ _ => ordering.antisymm a b)
      ((pairwise_palette ordering).imp And.left) ((pairwise_palette ordering).imp And.left) ?_
    exact (List.perm_ext_iff_of_nodup (nodup_palette ordering) (nodup_palette ordering)).mpr members
  rw [Matched, rank_eq, rank_eq, same, List.map_map]
  have entries := matched.map fun entry => (entry.1, (palette le keys).idxOf entry.2)
  rwa [List.map_map] at entries

section Corresponding

variable (isomorphic : Isomorphic p facts others) (covers : colouring.Covers facts) (matched : Matched p colouring other)
include isomorphic

theorem Isomorphic.anonymous_iff {fact : AnnotatedAxiom} (member : fact ∈ facts) (own : node ∈ individuals facts) :
    p node ∈ (fact.rename p).anonymous ↔ node ∈ fact.anonymous := by
  rw [mem_anonymous, mem_anonymous, AnnotatedAxiom.anonymous_rename isomorphic.labels (isomorphic.clean fact member)]
  constructor
  · rintro ⟨twin, inside, same⟩
    rwa [isomorphic.apart node own twin (mem_individuals.mpr ⟨fact, member, inside⟩) same.symm]
  · exact fun inside => ⟨node, inside, rfl⟩

theorem Isomorphic.individuals_perm : (individuals others).Perm ((individuals facts).map p) := by
  refine (List.perm_ext_iff_of_nodup nodup_individuals (nodup_individuals.map_on fun a left b right =>
    isomorphic.apart a left b right)).mpr fun name => ?_
  rw [mem_individuals, List.mem_map]
  constructor
  · rintro ⟨fact, member, inside⟩
    obtain ⟨original, listed, rfl⟩ := List.mem_map.mp (isomorphic.renamed.mem_iff.mp member)
    obtain ⟨node, own, same⟩ :=
      (AnnotatedAxiom.anonymous_rename isomorphic.labels (isomorphic.clean original listed)).mp inside
    exact ⟨node, mem_individuals.mpr ⟨original, listed, own⟩, same⟩
  · rintro ⟨node, member, rfl⟩
    obtain ⟨fact, listed, own⟩ := mem_individuals.mp member
    exact ⟨fact.rename p, isomorphic.renamed.mem_iff.mpr (List.mem_map_of_mem listed),
      (AnnotatedAxiom.anonymous_rename isomorphic.labels (isomorphic.clean fact listed)).mpr ⟨node, own, rfl⟩⟩

theorem Isomorphic.matched_start : Matched p (start facts) (start others) := by
  have entries := isomorphic.individuals_perm.map fun node => (node, 0)
  rw [Matched, start, start, List.map_map]
  rwa [List.map_map] at entries

include covers matched

theorem Matched.nodup_nodes : other.nodes.Nodup := by
  have names := matched.map Prod.fst
  rw [List.map_map] at names
  have renamed : colouring.map (Prod.fst ∘ fun entry => (p entry.1, entry.2)) = colouring.nodes.map p := by
    rw [nodes, List.map_map]
    rfl
  rw [renamed] at names
  refine names.nodup_iff.mpr (covers.distinct.map_on fun a left b right => ?_)
  exact isomorphic.apart a ((covers.nodes a).mp left) b ((covers.nodes b).mp right)

theorem Matched.colour_eq (own : node ∈ individuals facts) : other.colour (p node) = colouring.colour node := by
  have entry := mem_of_mem_nodes covers.distinct ((covers.nodes node).mpr own)
  have twin := matched.mem_iff.mpr ⟨node, entry, rfl⟩
  rw [colour, colour_of_mem (matched.nodup_nodes isomorphic covers) twin]
  rfl

/-- An axiom looks the same from the viewpoints of corresponding individuals. -/
theorem Matched.view_eq {fact : AnnotatedAxiom} (member : fact ∈ facts) (own : node ∈ individuals facts) :
    other.view (p node) (fact.rename p) = colouring.view node fact := by
  have labels : CleanLabels fun name => if name = p node then ⟨"self"⟩ else ⟨"k" ++ Nat.repr (other.colour name)⟩ := by
    intro name
    simp only
    split
    · exact clean_label (by simp [isBreak])
    · exact clean_numbered (by simp [isBreak]) _
  refine congrArg AnnotatedAxiom.text ?_
  refine AnnotatedAxiom.rename_comp isomorphic.labels labels (isomorphic.clean fact member) fun blank inside => ?_
  have listed := mem_individuals.mpr ⟨fact, member, inside⟩
  rw [matched.colour_eq isomorphic covers listed]
  by_cases same : blank = node
  · rw [if_pos same, if_pos (congrArg p same)]
  · rw [if_neg same, if_neg fun equal => same (isomorphic.apart blank listed node own equal)]

theorem Matched.views_eq (own : node ∈ individuals facts) : other.views others (p node) = colouring.views facts node := by
  have corresponding : ((others.filter fun fact => fact.anonymous.contains (p node)).map (other.view (p node))).Perm
      ((facts.filter fun fact => fact.anonymous.contains node).map (colouring.view node)) := by
    refine ((isomorphic.renamed.filter _).map _).trans (List.Perm.of_eq ?_)
    rw [List.filter_map, List.map_map]
    have kept : facts.filter ((fun fact => fact.anonymous.contains (p node)) ∘ AnnotatedAxiom.rename p) =
        facts.filter fun fact => fact.anonymous.contains node := by
      refine List.filter_congr fun fact member => ?_
      rw [Bool.eq_iff_iff, Function.comp_apply, List.contains_iff_mem, List.contains_iff_mem]
      exact isomorphic.anonymous_iff member own
    rw [kept]
    exact List.map_congr_left fun fact member =>
      matched.view_eq isomorphic covers (List.mem_of_mem_filter member) own
  have sorted : ∀ texts : List String, (texts.mergeSort textLe).Pairwise fun a b => textLe a b = true := fun texts =>
    List.pairwise_mergeSort textOrdering.trans textOrdering.total texts
  refine List.Perm.eq_of_pairwise (fun a b _ _ => textOrdering.antisymm a b) (sorted _) (sorted _) ?_
  exact (List.mergeSort_perm _ _).trans (corresponding.trans (List.mergeSort_perm _ _).symm)

/-- Refinement does not see the names of the individuals. -/
theorem Matched.refine : Matched p (colouring.refine facts) (other.refine others) := by
  rw [refine_eq, refine_eq]
  refine matched_rank (pairOrdering textsOrdering) ?_
  have entries := matched.map fun entry => (entry.1, entry.2, other.views others entry.1)
  refine entries.trans (List.Perm.of_eq ?_)
  rw [keys, List.map_map, List.map_map]
  refine List.map_congr_left fun entry member => ?_
  have own := (covers.nodes entry.1).mp (List.mem_map_of_mem member)
  simp only [Function.comp_apply, matched.views_eq isomorphic covers own]

theorem Matched.setApart {chosen : BlankNode} (own : chosen ∈ individuals facts) :
    Matched p (colouring.setApart chosen) (other.setApart (p chosen)) := by
  rw [setApart_eq, setApart_eq]
  refine matched_rank (pairOrdering apartOrdering) ?_
  have entries := matched.map fun entry => (entry.1, entry.2, entry.1 != p chosen)
  refine entries.trans (List.Perm.of_eq ?_)
  rw [marks, List.map_map, List.map_map]
  refine List.map_congr_left fun entry member => ?_
  have listed := (covers.nodes entry.1).mp (List.mem_map_of_mem member)
  have same : (p entry.1 != p chosen) = (entry.1 != chosen) := by
    rw [Bool.eq_iff_iff, bne_iff_ne, bne_iff_ne]
    exact not_congr ⟨isomorphic.apart _ listed _ own, congrArg p⟩
  simp only [Function.comp_apply, same]

end Corresponding

section Choices

/-- A sorted list begins with the item that none comes before. -/
theorem head?_mergeSort_iff {α κ : Type} {le : κ → κ → Bool} (ordering : Ordering le) {key : α → κ}
    (injective : ∀ a b, key a = key b → a = b) {items : List α} {item : α} :
    (items.mergeSort fun a b => le (key a) (key b)).head? = some item ↔
      item ∈ items ∧ ∀ next ∈ items, le (key item) (key next) = true := by
  have sorted : (items.mergeSort fun a b => le (key a) (key b)).Pairwise fun a b => le (key a) (key b) = true :=
    List.pairwise_mergeSort (fun a b c => ordering.trans (key a) (key b) (key c)) (fun a b => ordering.total (key a) (key b)) _
  have first : ∀ {head : α}, (items.mergeSort fun a b => le (key a) (key b)).head? = some head →
      head ∈ items ∧ ∀ next ∈ items, le (key head) (key next) = true := by
    intro head found
    obtain ⟨rest, shape⟩ := List.head?_eq_some_iff.mp found
    refine ⟨List.mem_mergeSort.mp (List.mem_of_mem_head? found), fun next member => ?_⟩
    have listed : next ∈ items.mergeSort fun a b => le (key a) (key b) := List.mem_mergeSort.mpr member
    rw [shape] at listed sorted
    rcases List.mem_cons.mp listed with rfl | later
    · simpa using ordering.total (key next) (key next)
    · exact (List.pairwise_cons.mp sorted).1 next later
  refine ⟨first, fun ⟨member, least⟩ => ?_⟩
  have some : (items.mergeSort fun a b => le (key a) (key b)).head?.isSome := by
    rw [List.isSome_head?]
    exact List.ne_nil_of_mem (List.mem_mergeSort.mpr member)
  obtain ⟨head, found⟩ := Option.isSome_iff_exists.mp some
  obtain ⟨own, before⟩ := first found
  rw [found, injective head item (ordering.antisymm _ _ (before item member) (least head own))]

/-- What individuals are compared by when one of them is to be set apart. -/
def rivalry (colouring : Colouring) (entry : BlankNode × Nat) : Nat × Nat × String :=
  (colouring.groupSize entry.2, entry.2, entry.1.label)

def ties (colouring : Colouring) : Colouring := colouring.filter fun entry => 1 < colouring.groupSize entry.2

theorem rivalryOrdering : Ordering (pairLe (pairLe textLe)) := pairOrdering (pairOrdering textOrdering)

theorem rivalry_injective {a b : BlankNode × Nat} (same : colouring.rivalry a = colouring.rivalry b) : a = b := by
  obtain ⟨⟨first⟩, i⟩ := a
  obtain ⟨⟨second⟩, j⟩ := b
  cases congrArg (fun key => key.2.1) same
  cases congrArg (fun key => key.2.2) same
  rfl

theorem tied?_eq (colouring : Colouring) : colouring.tied? =
    (colouring.ties.mergeSort fun a b => pairLe (pairLe textLe) (colouring.rivalry a) (colouring.rivalry b)).head?.map Prod.fst := rfl

/-- The first one of the tied individuals is that which none of them comes before. -/
theorem tied?_eq_some_iff {chosen : BlankNode} : colouring.tied? = some chosen ↔ ∃ colour, (chosen, colour) ∈ colouring.ties ∧
    ∀ entry ∈ colouring.ties, pairLe (pairLe textLe) (colouring.rivalry (chosen, colour)) (colouring.rivalry entry) = true := by
  rw [tied?_eq, Option.map_eq_some_iff]
  constructor
  · rintro ⟨⟨chosen, colour⟩, first, rfl⟩
    exact ⟨colour, (head?_mergeSort_iff rivalryOrdering fun _ _ => rivalry_injective).mp first⟩
  · rintro ⟨colour, least⟩
    exact ⟨(chosen, colour), (head?_mergeSort_iff rivalryOrdering fun _ _ => rivalry_injective).mpr least, rfl⟩

theorem tied?_eq_none_iff : colouring.tied? = none ↔ colouring.ties = [] := by
  rw [tied?_eq, Option.map_eq_none_iff, List.head?_eq_none_iff, ← List.length_eq_zero_iff, List.length_mergeSort,
    List.length_eq_zero_iff]

/-- The colourings in which an individual is set apart. -/
def choices (facts : List AnnotatedAxiom) : Nat → Colouring → List Colouring
  | 0, _ => []
  | rounds + 1, colouring =>
    if colouring.count < colouring.length then
      let refined := colouring.refine facts
      if colouring.count < refined.count then choices facts rounds refined
      else match refined.tied? with
        | some chosen => refined :: choices facts rounds (refined.setApart chosen)
        | none => []
    else []

/-- Whether the renaming keeps the order of the names of individuals of one colour. -/
def KeepsOrder (p : BlankNode → BlankNode) (colouring : Colouring) : Prop :=
  ∀ a b colour, (a, colour) ∈ colouring → (b, colour) ∈ colouring → a.label ≤ b.label → (p a).label ≤ (p b).label

theorem Matched.mem_ties (matched : Matched p colouring other) {name : BlankNode} {colour : Nat} :
    (name, colour) ∈ other.ties ↔ ∃ node, (node, colour) ∈ colouring.ties ∧ p node = name := by
  simp only [ties, List.mem_filter, matched.mem_iff, matched.groupSize_eq]
  constructor
  · rintro ⟨⟨node, member, same⟩, tied⟩
    exact ⟨node, ⟨member, tied⟩, same⟩
  · rintro ⟨node, ⟨member, tied⟩, same⟩
    exact ⟨⟨node, member, same⟩, tied⟩

theorem Matched.tied?_eq_none (matched : Matched p colouring other) (found : colouring.tied? = none) : other.tied? = none := by
  refine tied?_eq_none_iff.mpr (List.eq_nil_iff_forall_not_mem.mpr fun entry listed => ?_)
  obtain ⟨node, member, -⟩ := matched.mem_ties.mp listed
  rw [tied?_eq_none_iff.mp found] at member
  cases member

theorem Matched.tied?_eq (matched : Matched p colouring other) (kept : KeepsOrder p colouring) :
    other.tied? = colouring.tied?.map p := by
  cases found : colouring.tied? with
  | none => exact matched.tied?_eq_none found
  | some chosen =>
    obtain ⟨colour, member, least⟩ := tied?_eq_some_iff.mp found
    refine tied?_eq_some_iff.mpr ⟨colour, matched.mem_ties.mpr ⟨chosen, member, rfl⟩, ?_⟩
    rintro ⟨name, shade⟩ listed
    obtain ⟨rival, own, rfl⟩ := matched.mem_ties.mp listed
    have before := least _ own
    simp only [rivalry, pairLe, matched.groupSize_eq, Bool.or_eq_true, decide_eq_true_eq, Bool.and_eq_true, beq_iff_eq,
      textLe] at before ⊢
    rcases before with fewer | ⟨alike, less | ⟨rfl, ordered⟩⟩
    · exact .inl (of_decide_eq_true fewer)
    · exact .inr ⟨alike, .inl (of_decide_eq_true less)⟩
    · exact .inr ⟨alike, .inr ⟨rfl, kept chosen rival colour (List.mem_of_mem_filter member)
        (List.mem_of_mem_filter own) (of_decide_eq_true ordered)⟩⟩

/-- The rounds go alike if the names are in the same order wherever they are compared. -/
theorem Matched.separate (isomorphic : Isomorphic p facts others) (rounds : Nat) (covers : colouring.Covers facts)
    (matched : Matched p colouring other) (kept : ∀ choice ∈ choices facts rounds colouring, KeepsOrder p choice) :
    Matched p (separate facts rounds colouring) (separate others rounds other) := by
  induction rounds generalizing colouring other with
  | zero => exact matched
  | succ rounds ih =>
    rw [choices] at kept
    by_cases few : colouring.count < colouring.length
    case neg =>
      have many := separated_of_length_le (Nat.not_lt.mp few)
      have twin : other.Separated := by rw [Separated, matched.count_eq, matched.length_eq, many]
      rwa [separate_separated many, separate_separated twin]
    case pos =>
      have refined := matched.refine isomorphic covers
      rw [if_pos few] at kept
      rw [separate_succ few, separate_succ (by rwa [matched.count_eq, matched.length_eq]), matched.count_eq, refined.count_eq]
      by_cases more : colouring.count < (colouring.refine facts).count
      · rw [if_pos more] at kept ⊢
        rw [if_pos more]
        exact ih covers.refine refined kept
      · rw [if_neg more] at kept ⊢
        rw [if_neg more]
        cases found : (colouring.refine facts).tied? with
        | none =>
          rw [refined.tied?_eq_none found]
          exact refined
        | some chosen =>
          rw [found] at kept
          obtain ⟨now, later⟩ := List.forall_mem_cons.mp kept
          obtain ⟨colour, member, -⟩ := tied?_eq_some found
          have own := (covers.refine.nodes chosen).mp (List.mem_map_of_mem (f := Prod.fst) member)
          rw [refined.tied?_eq now, found]
          exact ih (covers.refine.setApart chosen) (refined.setApart isomorphic covers.refine own) later

theorem Isomorphic.matched_canonical (isomorphic : Isomorphic p facts others)
    (kept : ∀ choice ∈ choices facts (individuals facts).length (start facts), KeepsOrder p choice) :
    Matched p (canonical facts) (canonical others) := by
  have rounds : (individuals others).length = (individuals facts).length := by
    rw [isomorphic.individuals_perm.length_eq, List.length_map]
  rw [canonical_eq, canonical_eq, rounds]
  exact isomorphic.matched_start.separate isomorphic _ (covers_start facts) kept

/-- Corresponding individuals get the same canonical labels. -/
theorem Isomorphic.label_eq (isomorphic : Isomorphic p facts others)
    (kept : ∀ choice ∈ choices facts (individuals facts).length (start facts), KeepsOrder p choice)
    (own : node ∈ individuals facts) : (canonical others).label (p node) = (canonical facts).label node := by
  obtain ⟨nodes, -, -⟩ := canonical_separates facts
  obtain ⟨names, -, -⟩ := canonical_separates others
  obtain ⟨colour, entry⟩ := exists_colour (nodes ▸ own)
  have twin := (isomorphic.matched_canonical kept).mem_iff.mpr ⟨node, entry, rfl⟩
  rw [label_of_mem (nodes ▸ nodup_individuals) entry, label_of_mem (names ▸ nodup_individuals) twin]

/-- Every colouring in which an individual is set apart colours the individuals of the axioms. -/
theorem covers_choices {rounds : Nat} (covers : colouring.Covers facts) :
    ∀ choice ∈ choices facts rounds colouring, choice.Covers facts := by
  induction rounds generalizing colouring with
  | zero => exact List.forall_mem_nil _
  | succ rounds ih =>
    rw [choices]
    split
    · dsimp only
      split
      · exact ih covers.refine
      · split
        next chosen _ => exact List.forall_mem_cons.mpr ⟨covers.refine, ih (covers.refine.setApart chosen)⟩
        · exact List.forall_mem_nil _
    · exact List.forall_mem_nil _

end Choices

end Colouring

namespace Ontology

open Colouring

variable {ontology other : Ontology} {p : BlankNode → BlankNode}

theorem sameAxioms_of_perm (sound : other.index.Sound) (counted : ontology.index.Counted) (counts : other.index.Counted)
    (same : other.axioms.Perm ontology.axioms) : ontology.sameAxioms other = true := by
  have numbers : ontology.axiomCount = other.axiomCount := counted.trans (same.length_eq.symm.trans counts.symm)
  rw [sameAxioms, numbers, beq_self_eq_true, Bool.true_and, List.all_eq_true]
  exact fun fact member => sound.contains_iff.mpr (same.mem_iff.mpr member)

theorem sameAxioms_of_isomorphic (coherent : ontology.Coherent) (built : other.Coherent)
    (words : ∀ node ∈ ontology.inhabitants, (Leaf.word node.text).Clean)
    (isomorphic : Isomorphic p ontology.axioms other.axioms)
    (kept : ∀ choice ∈ choices ontology.axioms (individuals ontology.axioms).length (start ontology.axioms), KeepsOrder p choice) :
    ontology.canonicalize.sameAxioms other.canonicalize = true := by
  have clean : ∀ fact ∈ other.axioms, fact.Clean := by
    intro fact member
    obtain ⟨original, listed, rfl⟩ := List.mem_map.mp (isomorphic.renamed.mem_iff.mp member)
    exact AnnotatedAxiom.clean_rename isomorphic.labels (isomorphic.clean original listed)
  have renamed : ∀ node ∈ other.inhabitants, ∃ source ∈ individuals ontology.axioms, p source = node := fun node member =>
    List.mem_map.mp (isomorphic.individuals_perm.mem_iff.mp (mem_individuals.mpr member))
  have names : ∀ node ∈ other.inhabitants, (Leaf.word node.text).Clean := by
    intro node member
    obtain ⟨source, -, rfl⟩ := renamed node member
    exact isomorphic.labels source
  obtain ⟨-, counted, before⟩ := canonicalize_rebuilt coherent isomorphic.clean words
  obtain ⟨sound, counts, after⟩ := canonicalize_rebuilt built clean names
  refine sameAxioms_of_perm sound counted counts ?_
  obtain ⟨g, labels, agree⟩ := @exists_cleanLabels (canonical other.axioms).label other.inhabitants fun node member => by
    obtain ⟨colour, -, shape⟩ := (bijOn_canonical other.axioms).mapsTo member
    rw [shape]
    exact clean_name colour
  rw [before, after]
  refine (isomorphic.renamed.map _).trans (List.Perm.of_eq ?_)
  rw [List.map_map]
  refine List.map_congr_left fun fact member => ?_
  have there : fact.rename p ∈ other.axioms := isomorphic.renamed.mem_iff.mpr (List.mem_map_of_mem member)
  calc (fact.rename p).rename (canonical other.axioms).label = (fact.rename p).rename g :=
        AnnotatedAxiom.rename_congr fun node own => (agree node ⟨_, there, own⟩).symm
    _ = fact.rename (canonical ontology.axioms).label := by
        refine AnnotatedAxiom.rename_comp isomorphic.labels labels (isomorphic.clean fact member) fun node own => ?_
        have inside : .anonymous (p node) ∈ (fact.rename p).components :=
          (AnnotatedAxiom.anonymous_rename isomorphic.labels (isomorphic.clean fact member)).mpr ⟨node, own, rfl⟩
        rw [agree _ ⟨_, there, inside⟩]
        exact isomorphic.label_eq kept (mem_individuals.mpr ⟨fact, member, own⟩)

/-- Ontologies with the same axioms up to the order of the axioms and the names of the anonymous
individuals have the same axioms after these got canonical labels, if the names are in the same
order wherever one of several tied individuals is set apart. -/
theorem sameAxioms_canonicalize (coherent : ontology.Coherent) (built : other.Coherent)
    (clean : ∀ fact ∈ ontology.axioms, fact.Clean) (words : ∀ node ∈ ontology.inhabitants, (Leaf.word node.text).Clean)
    (names : ∀ node ∈ ontology.inhabitants, (Leaf.word (p node).text).Clean) (apart : Set.InjOn p ontology.inhabitants)
    (renamed : ∀ fact, fact ∈ other.axioms ↔ fact ∈ ontology.axioms.map (AnnotatedAxiom.rename p))
    (kept : ∀ choice ∈ choices ontology.axioms (individuals ontology.axioms).length (start ontology.axioms), KeepsOrder p choice) :
    ontology.canonicalize.sameAxioms other.canonicalize = true := by
  obtain ⟨q, labels, agree⟩ := exists_cleanLabels names
  have inhabits : ∀ {node}, node ∈ individuals ontology.axioms → node ∈ ontology.inhabitants := mem_individuals.mp
  have same : ontology.axioms.map (AnnotatedAxiom.rename p) = ontology.axioms.map (AnnotatedAxiom.rename q) :=
    List.map_congr_left fun fact member =>
      AnnotatedAxiom.rename_congr fun node own => (agree node ⟨fact, member, own⟩).symm
  refine sameAxioms_of_isomorphic coherent built words (p := q) ⟨labels, clean, fun a left b right equal => ?_, ?_⟩
    fun choice member a b colour first second ordered => ?_
  · rw [agree a (inhabits left), agree b (inhabits right)] at equal
    exact apart (inhabits left) (inhabits right) equal
  · rw [← same]
    exact (List.perm_ext_iff_of_nodup built.sound.nodup_toList (nodup_map_rename coherent clean words apart names)).mpr renamed
  · have covered := (covers_choices (covers_start ontology.axioms) choice member).nodes
    have here := (covered a).mp (List.mem_map_of_mem (f := Prod.fst) first)
    have there := (covered b).mp (List.mem_map_of_mem (f := Prod.fst) second)
    rw [agree a (inhabits here), agree b (inhabits there)]
    exact kept choice member a b colour first second ordered

def link (first second : String) : AnnotatedAxiom :=
  .of (.objectPropertyAssertion .positive (.named ⟨"ex:p"⟩) (.blank ⟨first⟩) (.blank ⟨second⟩)) []

/-- Two individuals in a circle, which no refinement tells apart. -/
def circle (first second : String) : Ontology := (({ } : Ontology).add (link first second)).add (link second first)

theorem coherent_circle (first second : String) : (circle first second).Coherent :=
  ((coherent_of_empty rfl).add _ _).add _ _

theorem mem_circle {first second : String} {fact : AnnotatedAxiom} :
    fact ∈ (circle first second).axioms ↔ fact = link second first ∨ fact = link first second := by
  have empty : ({ } : Ontology).Coherent := coherent_of_empty rfl
  have first : (({ } : Ontology).add (link first second)).Coherent := empty.add _ _
  have none : fact ∉ ({ } : Ontology).axioms := List.not_mem_nil
  rw [circle, mem_axioms_add first.sound, mem_axioms_add empty.sound, or_iff_left none]

theorem mem_inhabitants_circle {first second : String} {node : BlankNode} (member : node ∈ (circle first second).inhabitants) :
    node = ⟨first⟩ ∨ node = ⟨second⟩ := by
  obtain ⟨fact, listed, inside⟩ := member
  rcases mem_circle.mp listed with rfl | rfl
  all_goals
    have own := AnnotatedAxiom.components_of _ _ inside
    simp [Axiom.components, Component.property, Component.objectProperty, Component.individual] at own
    tauto

/-- The names of the one circle become those of the other. -/
def turned (node : BlankNode) : BlankNode := if node = ⟨"a"⟩ then ⟨"x"⟩ else ⟨"y"⟩

theorem rename_link {f : BlankNode → BlankNode} (first second : String) :
    (link first second).rename f = link (f ⟨first⟩).label (f ⟨second⟩).label := by
  have none : (link first second).annotations = [] := Annotation.canonical_eq_nil.mpr rfl
  rw [AnnotatedAxiom.rename_eq_of, none]
  rfl

theorem sameAxioms_canonicalize_circle :
    (∀ fact, fact ∈ (circle "y" "x").axioms ↔ fact ∈ (circle "a" "b").axioms.map (AnnotatedAxiom.rename turned)) ∧
    (circle "a" "b").canonicalize.sameAxioms (circle "y" "x").canonicalize = true := by
  have renamed : ∀ fact, fact ∈ (circle "y" "x").axioms ↔ fact ∈ (circle "a" "b").axioms.map (AnnotatedAxiom.rename turned) := by
    intro fact
    rw [mem_circle, List.mem_map]
    constructor
    · rintro (rfl | rfl)
      · exact ⟨link "a" "b", mem_circle.mpr (.inr rfl), rename_link _ _⟩
      · exact ⟨link "b" "a", mem_circle.mpr (.inl rfl), rename_link _ _⟩
    · rintro ⟨original, member, rfl⟩
      rcases mem_circle.mp member with rfl | rfl
      · exact .inr (rename_link _ _)
      · exact .inl (rename_link _ _)
  refine ⟨renamed, sameAxioms_canonicalize (coherent_circle _ _) (coherent_circle _ _) ?_ ?_ ?_ ?_ renamed ?_⟩
  · intro fact member
    rcases mem_circle.mp member with rfl | rfl <;> exact AnnotatedAxiom.clean_of trivial (List.forall_mem_nil _)
  · intro node member
    rcases mem_inhabitants_circle member with rfl | rfl <;> exact clean_label (by simp [isBreak])
  · intro node member
    rcases mem_inhabitants_circle member with rfl | rfl <;> exact clean_label (by simp [isBreak])
  · intro a left b right same
    rcases mem_inhabitants_circle left with rfl | rfl <;> rcases mem_inhabitants_circle right with rfl | rfl
    · rfl
    · exact absurd same (by decide)
    · exact absurd same (by decide)
    · rfl
  · intro choice member a b colour first second ordered
    have covered := (covers_choices (covers_start _) choice member).nodes
    have here := (covered a).mp (List.mem_map_of_mem (f := Prod.fst) first)
    have there := (covered b).mp (List.mem_map_of_mem (f := Prod.fst) second)
    rcases mem_inhabitants_circle (mem_individuals.mp here) with rfl | rfl <;>
      rcases mem_inhabitants_circle (mem_individuals.mp there) with rfl | rfl
    · exact String.le_refl _
    · exact (by decide : "x" ≤ "y")
    · exact absurd ordered (by decide)
    · exact String.le_refl _

end Ontology

end OwlGraph
