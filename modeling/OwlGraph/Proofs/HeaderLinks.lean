import OwlGraph.Proofs.CanonicalLabels

/-! What canonical labels leave of the links between header and axioms. Axioms are renamed and
ontology annotations are not. So an individual of the header stays the one that the axioms speak of
only if its label is its canonical name already, and one that the axioms do not speak of is taken
for one of theirs if its label is a name that they get. -/

namespace OwlGraph

open Colouring

/-- Where anonymous individuals occur in an ontology. -/
inductive Place where
  | statement (fact : AnnotatedAxiom)
  | header (note : Annotation)

namespace Place

/-- What occurs there, in annotations of any depth too. -/
def components : Place → List Component
  | .statement fact => fact.components
  | .header note => note.components

/-- The place once the axioms are renamed. -/
def renamed (f : BlankNode → BlankNode) : Place → Place
  | .statement fact => .statement (fact.rename f)
  | .header note => .header note

/-- The label of an occurrence once the axioms are renamed. -/
def carried (f : BlankNode → BlankNode) : Place → BlankNode → BlankNode
  | .statement _, node => f node
  | .header _, node => node

end Place

namespace Ontology

variable {ontology : Ontology} {f : BlankNode → BlankNode}

def places (ontology : Ontology) : List Place := ontology.axioms.map .statement ++ ontology.annotations.map .header

/-- The anonymous individuals that occur in ontology annotations. -/
def headerIndividuals (ontology : Ontology) : Set BlankNode :=
  {node | ∃ note ∈ ontology.annotations, .anonymous node ∈ note.components}

/-- Any two occurrences of individuals have one label once the axioms are renamed if and only if they
had one before. -/
def Linked (ontology : Ontology) (f : BlankNode → BlankNode) : Prop :=
  ∀ place ∈ ontology.places, ∀ other ∈ ontology.places, ∀ a b, .anonymous a ∈ place.components →
    .anonymous b ∈ other.components → (place.carried f a = other.carried f b ↔ a = b)

theorem mem_places {place : Place} : place ∈ ontology.places ↔
    (∃ fact ∈ ontology.axioms, .statement fact = place) ∨ ∃ note ∈ ontology.annotations, .header note = place := by
  rw [places, List.mem_append, List.mem_map, List.mem_map]

theorem linked_iff : ontology.Linked f ↔ Set.InjOn f ontology.inhabitants ∧
    ∀ a ∈ ontology.inhabitants, ∀ b ∈ ontology.headerIndividuals, f a = b ↔ a = b := by
  constructor
  · intro linked
    have stated {fact : AnnotatedAxiom} (member : fact ∈ ontology.axioms) : .statement fact ∈ ontology.places :=
      mem_places.mpr (.inl ⟨fact, member, rfl⟩)
    refine ⟨?_, ?_⟩
    · intro a ⟨fact, member, inside⟩ b ⟨other, here, within⟩ same
      exact (linked _ (stated member) _ (stated here) a b inside within).mp same
    · intro a ⟨fact, member, inside⟩ b ⟨note, here, within⟩
      exact linked _ (stated member) _ (mem_places.mpr (.inr ⟨note, here, rfl⟩)) a b inside within
  · intro ⟨apart, across⟩ place member other here a b inside within
    rcases mem_places.mp member with ⟨fact, stated, rfl⟩ | ⟨note, noted, rfl⟩ <;>
      rcases mem_places.mp here with ⟨twin, also, rfl⟩ | ⟨remark, also, rfl⟩
    · exact apart.eq_iff ⟨fact, stated, inside⟩ ⟨twin, also, within⟩
    · exact across a ⟨fact, stated, inside⟩ b ⟨remark, also, within⟩
    · rw [eq_comm, @eq_comm _ a]
      exact across b ⟨twin, also, within⟩ a ⟨note, noted, inside⟩
    · exact Iff.rfl

/-- A renaming of the axioms that keeps their individuals apart keeps the links to the header if the
header's individuals that the axioms speak of keep their labels, and the others are not captured. -/
theorem linked_iff_of_injOn (apart : Set.InjOn f ontology.inhabitants) : ontology.Linked f ↔
    ∀ node ∈ ontology.headerIndividuals, (node ∈ ontology.inhabitants → f node = node) ∧
      (node ∉ ontology.inhabitants → node ∉ f '' ontology.inhabitants) := by
  rw [linked_iff, and_iff_right apart]
  constructor
  · intro across node remarked
    refine ⟨fun known => (across node known node remarked).mpr rfl, ?_⟩
    rintro foreign ⟨other, known, captured⟩
    obtain rfl := (across other known node remarked).mp captured
    exact foreign known
  · intro fixed a known b remarked
    obtain ⟨kept, free⟩ := fixed b remarked
    by_cases shared : b ∈ ontology.inhabitants
    · calc f a = b ↔ f a = f b := by rw [kept shared]
        _ ↔ a = b := apart.eq_iff known shared
    · have other : a ≠ b := fun same => shared (same ▸ known)
      exact iff_of_false (fun captured => free shared ⟨a, known, captured⟩) other

theorem mem_foldl_rename (facts : List AnnotatedAxiom) {index : AxiomIndex} (sound : index.Sound) {fact : AnnotatedAxiom} :
    fact ∈ (facts.foldl (fun index fact => index.insert (fact.rename f)) index).toList ↔
      fact ∈ index.toList ∨ ∃ old ∈ facts, old.rename f = fact := by
  induction facts generalizing index with
  | nil => simp
  | cons first rest ih =>
    rw [List.foldl_cons, ih (sound.insert _), sound.mem_insert, List.exists_mem_cons_iff, @eq_comm _ fact, or_assoc,
      or_left_comm]

theorem mem_axioms_canonicalize {fact : AnnotatedAxiom} : fact ∈ ontology.canonicalize.axioms ↔
    ∃ old ∈ ontology.axioms, old.rename (canonical ontology.axioms).label = fact := by
  have rebuilt := @mem_foldl_rename (canonical ontology.axioms).label ontology.axioms {} AxiomIndex.sound_empty fact
  have none : fact ∉ ({} : AxiomIndex).toList := List.not_mem_nil
  rwa [or_iff_right none] at rebuilt

/-- The places are those that there were, with the axioms renamed. -/
theorem mem_places_canonicalize {place : Place} : place ∈ ontology.canonicalize.places ↔
    ∃ old ∈ ontology.places, old.renamed (canonical ontology.axioms).label = place := by
  rw [mem_places]
  constructor
  · rintro (⟨fact, member, rfl⟩ | ⟨note, member, rfl⟩)
    · obtain ⟨old, stated, rfl⟩ := mem_axioms_canonicalize.mp member
      exact ⟨.statement old, mem_places.mpr (.inl ⟨old, stated, rfl⟩), rfl⟩
    · exact ⟨.header note, mem_places.mpr (.inr ⟨note, member, rfl⟩), rfl⟩
  · rintro ⟨old, member, rfl⟩
    rcases mem_places.mp member with ⟨fact, stated, rfl⟩ | ⟨note, noted, rfl⟩
    · exact .inl ⟨_, mem_axioms_canonicalize.mpr ⟨fact, stated, rfl⟩, rfl⟩
    · exact .inr ⟨note, noted, rfl⟩

/-- The individuals at a place are those that were there, each with the label that it carries. -/
theorem anonymous_renamed (clean : ∀ fact ∈ ontology.axioms, fact.Clean) {place : Place} (member : place ∈ ontology.places)
    (names : ∀ node ∈ ontology.inhabitants, (Leaf.word (f node).text).Clean) {node : BlankNode} :
    .anonymous node ∈ (place.renamed f).components ↔ ∃ old, .anonymous old ∈ place.components ∧ place.carried f old = node := by
  rcases mem_places.mp member with ⟨fact, stated, rfl⟩ | ⟨note, -, rfl⟩
  · -- Outside the axioms the labels may be of any form, so they give way to clean ones there.
    obtain ⟨g, labels, agree⟩ := exists_cleanLabels names
    have same : fact.rename f = fact.rename g :=
      AnnotatedAxiom.rename_congr fun node own => (agree node ⟨fact, stated, own⟩).symm
    rw [Place.renamed, same]
    refine (AnnotatedAxiom.anonymous_rename labels (clean fact stated)).trans ?_
    exact exists_congr fun old => and_congr_right fun own => by rw [agree old ⟨fact, stated, own⟩, Place.carried]
  · simp only [Place.renamed, Place.carried, exists_eq_right]

/-- Canonical labels rename the axioms and leave the header. The links between occurrences stay as they
were exactly if every individual of the header that occurs in an axiom has its canonical name already,
and no other individual of the header has one of the names that the axioms use. -/
theorem canonicalize_linked_iff (clean : ∀ fact ∈ ontology.axioms, fact.Clean) :
    let label := (canonical ontology.axioms).label
    (∀ place, place ∈ ontology.canonicalize.places ↔ ∃ old ∈ ontology.places, old.renamed label = place) ∧
    (∀ place ∈ ontology.places, ∀ node, .anonymous node ∈ (place.renamed label).components ↔
      ∃ old, .anonymous old ∈ place.components ∧ place.carried label old = node) ∧
    (ontology.Linked label ↔ ∀ node ∈ ontology.headerIndividuals,
      (node ∈ ontology.inhabitants → label node = node) ∧
      (node ∉ ontology.inhabitants → ∀ number < ontology.inhabitants.ncard, node ≠ ⟨"c" ++ Nat.repr number⟩)) := by
  intro label
  have bijective : Set.BijOn label ontology.inhabitants
      {name | ∃ number < ontology.inhabitants.ncard, name = ⟨"c" ++ Nat.repr number⟩} := bijOn_canonical ontology.axioms
  refine ⟨fun place => mem_places_canonicalize, fun place member node => ?_, ?_⟩
  · apply anonymous_renamed clean member
    intro other known
    obtain ⟨number, -, named⟩ := bijective.mapsTo known
    rw [named]
    exact clean_name number
  · rw [linked_iff_of_injOn bijective.injOn, bijective.image_eq]
    simp only [Set.mem_ofPred_eq, not_exists, not_and, ne_eq]

/-- An axiom and the header speak of one individual. -/
def mentioned : Ontology :=
  ({ annotations := [⟨⟨"ex:about"⟩, .resource (.blank ⟨"x"⟩), []⟩] } : Ontology).add
    (.of (.objectPropertyAssertion .positive (.named ⟨"ex:p"⟩) (.named ⟨"ex:a"⟩) (.blank ⟨"x"⟩)) [])

theorem mem_mentioned {fact : AnnotatedAxiom} : fact ∈ mentioned.axioms ↔
    fact = .of (.objectPropertyAssertion .positive (.named ⟨"ex:p"⟩) (.named ⟨"ex:a"⟩) (.blank ⟨"x"⟩)) [] := by
  have none : fact ∉ ({} : AxiomIndex).toList := List.not_mem_nil
  exact (mem_axioms_add AxiomIndex.sound_empty).trans (or_iff_left none)

/-- Afterwards the header mentions another individual than the axiom. -/
theorem canonicalize_linked_iff_mentioned :
    (∀ fact ∈ mentioned.axioms, fact.Clean) ∧ ¬ mentioned.Linked (canonical mentioned.axioms).label := by
  have clean : ∀ fact ∈ mentioned.axioms, fact.Clean := by
    intro fact member
    rw [mem_mentioned.mp member]
    exact AnnotatedAxiom.clean_of trivial (List.forall_mem_nil _)
  have known : (⟨"x"⟩ : BlankNode) ∈ mentioned.inhabitants :=
    ⟨_, mem_mentioned.mpr rfl, AnnotatedAxiom.anonymous_of trivial (List.forall_mem_nil _) (by decide)⟩
  have remarked : (⟨"x"⟩ : BlankNode) ∈ mentioned.headerIndividuals :=
    ⟨_, List.mem_singleton_self _, by decide⟩
  refine ⟨clean, fun linked => ?_⟩
  have kept := (((canonicalize_linked_iff clean).2.2.mp linked) _ remarked).1 known
  obtain ⟨number, -, named⟩ := (bijOn_canonical mentioned.axioms).mapsTo known
  have first := congrArg (fun node : BlankNode => node.label.toList.head?) (kept.symm.trans named)
  simp at first

end Ontology

end OwlGraph
