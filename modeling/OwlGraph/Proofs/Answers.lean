import OwlGraph.Proofs.Consistency
import OwlGraph.Proofs.DirectAnswers

/-! What the answers depend on. They are told by the chains of told inclusions, by the told
inclusions that no chain leads back from, by the told types and by which classes are disjoint.
Inclusions among equivalent classes may be told in one way or another. -/

namespace OwlGraph

open Relation

/-- The text of a node tells which node it is, whatever characters its name has. -/
theorem Node.text_inj {one two : Node} (same : one.text = two.text) : one = two := by
  have apart : ∀ (iri : Iri) (node : BlankNode), iri.text ≠ node.text := by
    intro iri node same
    have first := congrArg (fun text : String => text.toList.head?) same
    simp [Iri.text, BlankNode.text] at first
  cases one with
  | named iri => cases two with
    | named other =>
      have texts : "<" ++ iri.value ++ ">" = "<" ++ other.value ++ ">" := same
      rw [String.append_left_inj, String.append_right_inj] at texts
      exact congrArg _ (congrArg Iri.mk texts)
    | blank other => exact absurd same (apart iri other)
  | blank node => cases two with
    | named other => exact absurd same.symm (apart other node)
    | blank other =>
      have labels : "_:" ++ node.label = "_:" ++ other.label := same
      exact congrArg _ (congrArg BlankNode.mk ((String.append_right_inj _).mp labels))

theorem Node.rename_inj {f : BlankNode → BlankNode} (injective : Function.Injective f) {one two : Node} :
    one.rename f = two.rename f ↔ one = two := by
  cases one <;> cases two <;> simp [Node.rename, injective.eq_iff]

namespace Hierarchy

section Members

variable {hierarchy : Hierarchy} {told : Iri → Iri → Prop} {classified : Individual → Iri → Prop}
  {excluded : Iri → Iri → Prop} (reflects : Reflects hierarchy told) (records : Records hierarchy classified excluded)
include reflects records

theorem mem_types {individual : Individual} {direct : Bool} {cls : Iri} : cls ∈ hierarchy.types individual direct ↔
    if direct then classified individual cls else HasType told classified individual cls := by
  rw [types, Iri.mem_canonical]
  cases direct with
  | true => exact records.mem_toldTypes individual cls
  | false => exact mem_allTypes reflects records

theorem mem_instances {cls : Iri} {direct : Bool} {individual : Individual} : individual ∈ hierarchy.instances cls direct ↔
    ∃ type, classified individual type ∧ ReflTransGen told type cls ∧ (direct = true → ReflTransGen told cls type) := by
  have classes : ∀ type, type ∈ (cls :: hierarchy.equivalents cls ++ if direct then [] else hierarchy.descendants cls) ↔
      ReflTransGen told type cls ∧ (direct = true → ReflTransGen told cls type) := by
    intro type
    rw [List.mem_append, reflects.mem_around]
    cases direct with
    | true => simp [and_comm]
    | false =>
      have chain : ReflTransGen told type cls ↔ cls = type ∨ type ∈ hierarchy.descendants cls := by
        rw [← reflects.reflTransGen_above, reflTransGen_iff_eq_or_transGen, reflects.mem_descendants]
      have same : cls = type → ReflTransGen told cls type := by
        rintro rfl
        exact .refl
      simp only [Bool.false_eq_true, if_false, false_implies, and_true]
      grind
  rw [instances, Canonical.mem_byText Node.text fun _ _ _ _ => Node.text_inj]
  simp only [List.mem_map, List.mem_filter, List.any_eq_true, List.contains_iff_mem, classes, Prod.exists]
  constructor
  · rintro ⟨_, types, ⟨entry, type, listed, related⟩, rfl⟩
    have found := Std.HashMap.mem_toList_iff_getElem?_eq_some.mp entry
    refine ⟨type, (records.mem_toldTypes _ type).mp ?_, related⟩
    rwa [Std.HashMap.getD_eq_getD_getElem?, found]
  · rintro ⟨type, told, related⟩
    have listed := (records.mem_toldTypes individual type).mpr told
    rw [Std.HashMap.getD_eq_getD_getElem?] at listed
    cases entry : hierarchy.toldTypes[individual]? with
    | none => simp [entry] at listed
    | some types =>
      rw [entry, Option.getD_some] at listed
      exact ⟨individual, types, ⟨Std.HashMap.mem_toList_iff_getElem?_eq_some.mpr entry, type, listed, related⟩, rfl⟩

end Members

/-- The hierarchies answer alike, the second one about the individuals under other names. -/
structure AlikeUpTo (rename : BlankNode → BlankNode) (one two : Hierarchy) : Prop extends Alike one two where
  instances : ∀ cls direct individual, individual ∈ two.instances cls direct ↔
    ∃ own ∈ one.instances cls direct, own.rename rename = individual
  types : ∀ individual direct cls, cls ∈ two.types individual direct ↔
    ∃ own : Individual, own.rename rename = individual ∧ cls ∈ one.types own direct
  isConsistent : two.isConsistent = one.isConsistent

/-- Answers with the same members are the same. -/
theorem strictly_eq {one two : Hierarchy} {cls base : Iri} {candidates others : List Iri}
    (same : ∀ other, other ∈ one.strictly cls candidates ↔ other ∈ two.strictly base others) :
    one.strictly cls candidates = two.strictly base others := by
  apply Iri.canonical_congr
  simpa only [strictly, Iri.mem_canonical] using same

section Alike

variable {one two : Hierarchy} {told tells : Iri → Iri → Prop} (first : one.Reflects told) (second : two.Reflects tells)
  (chains : ∀ cls other, ReflTransGen tells cls other ↔ ReflTransGen told cls other)
  (steps : ∀ cls other, ¬ ReflTransGen told other cls → (tells cls other ↔ told cls other))

include chains in
theorem beyond_congr {cls other : Iri} : Beyond tells cls other ↔ Beyond told cls other := by
  rw [Beyond, Beyond, chains, chains]

include chains steps in
theorem adjacent_congr {cls other : Iri} : Adjacent tells cls other ↔ Adjacent told cls other := by
  simp only [Adjacent, chains]
  refine exists_congr fun middle => and_congr_right fun _ => and_congr_right fun back => and_congr_left fun noWay => ?_
  exact steps middle other fun returns => noWay (returns.trans back)

include first second chains steps

/-- Only the inclusions from which no chain leads back show in direct answers. -/
theorem alike_of_chains : Alike one two := by
  have chainsDown : ∀ cls other, ReflTransGen (Function.swap tells) cls other ↔ ReflTransGen (Function.swap told) cls other := by
    simp only [reflTransGen_swap]
    exact fun cls other => chains other cls
  have stepsDown : ∀ cls other, ¬ ReflTransGen (Function.swap told) other cls →
      (Function.swap tells cls other ↔ Function.swap told cls other) := by
    simp only [reflTransGen_swap]
    exact fun cls other => steps other cls
  constructor
  · intro cls
    apply Iri.canonical_congr
    intro other
    rw [first.mem_equivalents, second.mem_equivalents, chains, chains]
  · intro cls direct
    apply strictly_eq
    intro other
    cases direct with
    | true => exact first.mem_superClasses_direct.trans ((adjacent_congr chains steps).symm.trans second.mem_superClasses_direct.symm)
    | false => exact first.mem_superClasses_all.trans ((beyond_congr chains).symm.trans second.mem_superClasses_all.symm)
  · intro cls direct
    apply strictly_eq
    intro other
    cases direct with
    | true =>
      exact first.mem_subClasses_direct.trans ((adjacent_congr chainsDown stepsDown).symm.trans second.mem_subClasses_direct.symm)
    | false => exact first.mem_subClasses_all.trans ((beyond_congr chainsDown).symm.trans second.mem_subClasses_all.symm)

variable {classified classifies : Individual → Iri → Prop} {excluded excludes : Iri → Iri → Prop}
  (types : one.Records classified excluded) (others : two.Records classifies excludes)
  {rename : BlankNode → BlankNode}
  (typed : ∀ individual cls, classifies individual cls ↔ ∃ own : Individual, own.rename rename = individual ∧ classified own cls)
include types others typed

/-- Chains may be told in another way, types of renamed individuals, and disjoint classes in another order. -/
theorem alikeUpTo (apart : ∀ cls other, excludes cls other ∨ excludes other cls ↔ excluded cls other ∨ excluded other cls)
    (injective : Function.Injective rename) : AlikeUpTo rename one two := by
  have hasType : ∀ individual cls, HasType tells classifies individual cls ↔
      ∃ own : Individual, own.rename rename = individual ∧ HasType told classified own cls := by
    intro individual cls
    simp only [HasType, typed, chains]
    grind
  have same : ∀ own cls, HasType tells classifies (own.rename rename) cls ↔ HasType told classified own cls := by
    intro own cls
    simp [hasType, Node.rename_inj injective]
  refine ⟨alike_of_chains first second chains steps, ?_, ?_, ?_⟩
  · intro cls direct individual
    simp only [mem_instances first types, mem_instances second others, typed, chains]
    grind
  · intro individual direct cls
    simp only [mem_types first types, mem_types second others]
    cases direct with
    | true => exact typed individual cls
    | false => exact hasType individual cls
  · rw [Bool.eq_iff_iff, isConsistent_iff first types, isConsistent_iff second others]
    have clash : ∀ own, (∀ one two, excludes one two → HasType tells classifies (own.rename rename) one →
        ¬ HasType tells classifies (own.rename rename) two) ↔
        ∀ one two, excluded one two → HasType told classified own one → ¬ HasType told classified own two := by
      intro own
      simp only [same]
      grind
    constructor
    · intro consistent own
      exact ⟨fun falls => (consistent (own.rename rename)).1 ((same own _).mpr falls),
        (clash own).mp (consistent (own.rename rename)).2⟩
    · intro consistent individual
      constructor
      · intro falls
        obtain ⟨own, -, falls⟩ := (hasType _ _).mp falls
        exact (consistent own).1 falls
      · intro one two excludes left right
        obtain ⟨own, rfl, -⟩ := (hasType _ _).mp left
        exact (clash own).mpr (consistent own).2 one two excludes left right

end Alike

end Hierarchy

end OwlGraph
