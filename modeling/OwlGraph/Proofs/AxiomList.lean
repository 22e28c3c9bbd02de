import OwlGraph.Proofs.Occurrence
import OwlGraph.Proofs.Postings

/-! An ontology is a plain list of axioms. After any additions and removals every query gives
what filtering the list gives, and an axiom is found by whatever occurs in it at any depth. -/

namespace OwlGraph.Ontology

/-- What the change makes of a plain list: an axiom is appended unless it is there, or deleted. -/
def Revision.apply : Revision → List AnnotatedAxiom → List AnnotatedAxiom
  | .add fact, facts => if fact ∈ facts then facts else facts ++ [fact]
  | .remove fact, facts => facts.erase fact

/-- The ontology after the changes, without axioms at first. -/
def replay (header : Ontology) (revisions : List Revision) : Ontology :=
  revisions.foldl (fun ontology revision => (ontology.revise revision).2) { header with index := {} }

/-- The plain list after the changes, empty at first. -/
def record (revisions : List Revision) : List AnnotatedAxiom :=
  revisions.foldl (fun facts revision => revision.apply facts) []

/-- Every query of the ontology gives what the plain list of axioms gives. -/
structure Lists (ontology : Ontology) (facts : List AnnotatedAxiom) : Prop where
  axioms : ontology.axioms = facts
  axiomCount : ontology.axiomCount = facts.length
  isEmpty : ontology.isEmpty = facts.isEmpty
  logicalAxioms : ontology.logicalAxioms = facts.filter fun fact => fact.bare.isLogical
  contains : ∀ fact, ontology.contains fact = decide (fact ∈ facts)
  containsBare : ∀ statement, ontology.containsBare statement = facts.any fun fact => fact.bare = statement.normalize
  versions : ∀ statement, ontology.versions statement = facts.filter fun fact => fact.bare = statement.normalize
  ofKind : ∀ kind, ontology.ofKind kind = facts.filter fun fact => fact.kind = kind
  referencing : ∀ entity, ontology.referencing entity = facts.filter fun fact => fact.Has (.entity entity)
  mentioning : ∀ iri, ontology.mentioning iri = facts.filter fun fact => fact.Mentions iri
  mentioningAnonymous : ∀ node, ontology.mentioningAnonymous node = facts.filter fun fact => fact.Has (.anonymous node)
  annotationAssertions : ∀ iri, ontology.annotationAssertions iri = facts.filter fun fact =>
    match fact.bare with
    | .annotationAssertion _ subject _ => subject == .named iri
    | _ => false
  declarations : ∀ iri, ontology.declarations iri = facts.filter fun fact =>
    match fact.bare with
    | .declaration entity => entity.iri == iri
    | _ => false
  directSuperClasses : ∀ cls, ontology.directSuperClasses cls = facts.filterMap fun fact =>
    match fact.bare with
    | .subClassOf (.named sub) (.named sup) => if sub = cls then some sup else none
    | _ => none
  directSubClasses : ∀ cls, ontology.directSubClasses cls = facts.filterMap fun fact =>
    match fact.bare with
    | .subClassOf (.named sub) (.named sup) => if sup = cls then some sub else none
    | _ => none
  containsEntity : ∀ entity, ontology.containsEntity entity = facts.any fun fact => fact.Has (.entity entity)
  nodup_signature : ontology.signature.Nodup
  mem_signature : ∀ entity, entity ∈ ontology.signature ↔ ∃ fact ∈ facts, fact.Has (.entity entity)
  nodup_anonymous : ontology.anonymousIndividuals.Nodup
  mem_anonymous : ∀ node, node ∈ ontology.anonymousIndividuals ↔ ∃ fact ∈ facts, fact.Has (.anonymous node)

/-- What additions and removals keep: the index of the ontology is in order and holds the list. -/
structure Holds (ontology : Ontology) (facts : List AnnotatedAxiom) : Prop where
  sound : ontology.index.Sound
  counted : ontology.index.Counted
  filed : ontology.index.Filed
  axioms : ontology.axioms = facts

theorem holds_empty (header : Ontology) : Holds { header with index := {} } [] where
  sound := AxiomIndex.sound_empty
  counted := rfl
  filed := AxiomIndex.filed_empty
  axioms := rfl

variable {ontology : Ontology} {facts : List AnnotatedAxiom}

namespace Holds

variable (holds : Holds ontology facts)
include holds

theorem contains (fact : AnnotatedAxiom) : ontology.contains fact = true ↔ fact ∈ facts := by
  rw [← holds.axioms]
  exact holds.sound.contains_iff

theorem nodup : facts.Nodup := by
  rw [← holds.axioms]
  exact holds.sound.nodup_toList

theorem revise (revision : Revision) : Holds (ontology.revise revision).2 (revision.apply facts) := by
  cases revision with
  | add fact =>
    refine ⟨holds.sound.insert fact, holds.counted.insert fact, holds.filed.insert fact, ?_⟩
    rw [Revision.apply]
    split
    next present =>
      have known : ontology.index.contains fact = true := (holds.contains fact).mpr present
      rw [Ontology.axioms, Ontology.revise, add, AxiomIndex.insert_of_present known]
      exact holds.axioms
    next missing =>
      have absent : ontology.index.contains fact = false :=
        Bool.eq_false_iff.mpr fun known => missing ((holds.contains fact).mp known)
      rw [← holds.axioms]
      exact AxiomIndex.toList_insert absent
  | remove fact =>
    refine ⟨holds.sound.remove fact, holds.counted.remove holds.sound fact, holds.filed.remove holds.sound fact, ?_⟩
    rw [Revision.apply, ← holds.axioms]
    exact AxiomIndex.toList_remove holds.sound fact

theorem changes (revision : Revision) : (ontology.revise revision).1 = true ↔ revision.apply facts ≠ facts := by
  cases revision with
  | add fact =>
    simp only [Ontology.revise, Revision.apply, Bool.not_eq_true', Bool.eq_false_iff, ne_eq, holds.contains]
    by_cases present : fact ∈ facts <;> simp [present]
  | remove fact =>
    simp only [Ontology.revise, Revision.apply, holds.contains, ne_eq, List.erase_eq_self_iff]
    simp

theorem axiomCount : ontology.axiomCount = facts.length := holds.counted.trans (congrArg List.length holds.axioms)

theorem sameAxioms {other : Ontology} {others : List AnnotatedAxiom} (holds' : Holds other others) :
    ontology.sameAxioms other = true ↔ ∀ fact, fact ∈ facts ↔ fact ∈ others := by
  simp only [Ontology.sameAxioms, Bool.and_eq_true, beq_iff_eq, List.all_eq_true, holds.axioms, holds'.contains,
    holds.axiomCount, holds'.axiomCount]
  constructor
  · intro ⟨size, inside⟩ fact
    have perm : facts.Perm others :=
      (List.subperm_of_subset holds.nodup inside).perm_of_length_le (le_of_eq size.symm)
    exact perm.mem_iff
  · intro same
    have perm : facts.Perm others := (List.perm_ext_iff_of_nodup holds.nodup holds'.nodup).mpr same
    exact ⟨perm.length_eq, fun fact => (same fact).mp⟩

theorem under (key : IndexKey) {test : AnnotatedAxiom → Prop} [DecidablePred test]
    (means : ∀ fact, key ∈ AxiomIndex.keys fact ↔ test fact) : ontology.index.under key = facts.filter fun fact => test fact := by
  rw [AxiomIndex.under_eq holds.filed, ← holds.axioms]
  apply List.filter_congr
  intro fact _
  simp only [means]

theorem posted (key : IndexKey) {test : AnnotatedAxiom → Prop} [DecidablePred test]
    (means : ∀ fact, key ∈ AxiomIndex.keys fact ↔ test fact) :
    ontology.index.postings.contains key = facts.any fun fact => test fact := by
  rw [Bool.eq_iff_iff, AxiomIndex.contains_posting holds.filed, List.any_eq_true, ← holds.axioms]
  simp only [means, decide_eq_true_eq]
  rfl

theorem referencing (entity : Entity) :
    ontology.referencing entity = facts.filter fun fact => fact.Has (.entity entity) :=
  holds.under _ fun _ => AxiomIndex.component_mem_keys.trans AnnotatedAxiom.has_iff.symm

theorem mentioning (iri : Iri) : ontology.mentioning iri = facts.filter fun fact => fact.Mentions iri := by
  rw [Ontology.mentioning, AxiomIndex.mentioning_eq holds.filed, ← holds.axioms]
  apply List.filter_congr
  intro fact _
  rw [Bool.eq_iff_iff, decide_eq_true_eq, AnnotatedAxiom.mentions_iff, AxiomIndex.any_iriKeys]

/-- A query among the axioms that mention an IRI may as well be asked of all axioms, if what it
looks for mentions the IRI anyway. -/
theorem filter_mentioning {iri : Iri} {test : AnnotatedAxiom → Bool}
    (mentions : ∀ fact, test fact = true → fact.Mentions iri) :
    (ontology.mentioning iri).filter test = facts.filter test := by
  rw [holds.mentioning, List.filter_filter]
  apply List.filter_congr
  intro fact _
  cases tested : test fact with
  | false => rfl
  | true => simp [mentions fact tested]

theorem filterMap_referencing {entity : Entity} {find : AnnotatedAxiom → Option Iri}
    (refers : ∀ fact iri, find fact = some iri → fact.Has (.entity entity)) :
    (ontology.referencing entity).filterMap find = facts.filterMap find := by
  rw [holds.referencing, List.filterMap_filter]
  apply List.filterMap_congr
  intro fact _
  cases found : find fact with
  | none => simp
  | some iri => simp [refers fact iri found]

end Holds

theorem has_of_inclusion {fact : AnnotatedAxiom} {sub sup : Iri} (told : inclusion? fact = some (sub, sup)) :
    fact.Has (.cls sub) ∧ fact.Has (.cls sup) := by
  unfold inclusion? at told
  split at told
  next lower upper bare =>
    cases told
    simp [AnnotatedAxiom.has_iff, AnnotatedAxiom.components, bare, Axiom.components, ClassExpression.components]
  next => cases told

/-- Both ways to ask for the named classes that stand to a class in a stated inclusion. -/
theorem Holds.inclusions (holds : Holds ontology facts) {cls : Iri} (own other : Iri × Iri → Iri)
    (refers : ∀ {fact : AnnotatedAxiom} {pair : Iri × Iri}, inclusion? fact = some pair → fact.Has (.cls (own pair))) :
    ((ontology.referencing ⟨.cls, cls⟩).filterMap fun fact =>
        ((inclusion? fact).filter fun pair => own pair == cls).map other) =
      facts.filterMap fun fact =>
        match fact.bare with
        | .subClassOf (.named sub) (.named sup) => if own (sub, sup) = cls then some (other (sub, sup)) else none
        | _ => none := by
  have same : ∀ fact, ((inclusion? fact).filter fun pair => own pair == cls).map other =
      match fact.bare with
      | .subClassOf (.named sub) (.named sup) => if own (sub, sup) = cls then some (other (sub, sup)) else none
      | _ => none := by
    intro fact
    unfold inclusion?
    cases fact.bare with
    | subClassOf sub sup => cases sub <;> cases sup <;> simp [Option.filter, apply_ite]
    | _ => rfl
  rw [← funext same]
  apply holds.filterMap_referencing
  intro fact iri found
  obtain ⟨pair, kept, rfl⟩ := Option.map_eq_some_iff.mp found
  obtain ⟨told, stands⟩ := Option.filter_eq_some_iff.mp kept
  cases eq_of_beq stands
  exact refers told

/-- Every query of an ontology that holds the list is answered by the list. -/
theorem Holds.lists (holds : Holds ontology facts) : Lists ontology facts where
  axioms := holds.axioms
  axiomCount := holds.axiomCount
  isEmpty := by
    rw [isEmpty, holds.axiomCount]
    cases facts <;> rfl
  logicalAxioms := by
    rw [logicalAxioms, holds.axioms]
    rfl
  contains fact := by rw [Bool.eq_iff_iff, holds.contains, decide_eq_true_eq]
  containsBare statement := holds.posted _ fun _ => AxiomIndex.bare_mem_keys
  versions statement := holds.under _ fun _ => AxiomIndex.bare_mem_keys
  ofKind kind := holds.under _ fun _ => AxiomIndex.kind_mem_keys
  referencing := holds.referencing
  mentioning := holds.mentioning
  mentioningAnonymous node := holds.under _ fun _ => AxiomIndex.component_mem_keys.trans AnnotatedAxiom.has_iff.symm
  annotationAssertions iri := by
    apply holds.filter_mentioning
    intro fact about
    apply AnnotatedAxiom.mentions_iff.mpr
    split at about
    next property subject value bare =>
      cases eq_of_beq about
      exact ⟨.iri iri, by simp [AnnotatedAxiom.components, bare, Axiom.components, Component.annotated], rfl⟩
    next => cases about
  declarations iri := by
    apply holds.filter_mentioning
    intro fact about
    apply AnnotatedAxiom.mentions_iff.mpr
    split at about
    next entity bare =>
      cases eq_of_beq about
      exact ⟨.entity entity, by simp [AnnotatedAxiom.components, bare, Axiom.components], rfl⟩
    next => cases about
  directSuperClasses cls := holds.inclusions Prod.fst Prod.snd fun told => (has_of_inclusion told).1
  directSubClasses cls := holds.inclusions Prod.snd Prod.fst fun told => (has_of_inclusion told).2
  containsEntity entity := holds.posted _ fun _ => AxiomIndex.component_mem_keys.trans AnnotatedAxiom.has_iff.symm
  nodup_signature := AxiomIndex.nodup_signature
  mem_signature entity := by
    simp only [AnnotatedAxiom.has_iff, ← holds.axioms]
    exact AxiomIndex.mem_signature holds.filed
  nodup_anonymous := AxiomIndex.nodup_anonymous
  mem_anonymous node := by
    simp only [AnnotatedAxiom.has_iff, ← holds.axioms]
    exact AxiomIndex.mem_anonymous holds.filed

theorem holds_replay (header : Ontology) (revisions : List Revision) : Holds (replay header revisions) (record revisions) := by
  have run : ∀ {ontology : Ontology} {facts : List AnnotatedAxiom}, Holds ontology facts →
      Holds (revisions.foldl (fun ontology revision => (ontology.revise revision).2) ontology)
        (revisions.foldl (fun facts revision => revision.apply facts) facts) := by
    induction revisions with
    | nil => exact fun holds => holds
    | cons revision rest ih => exact fun holds => ih (holds.revise revision)
  exact run (holds_empty header)

/-- An ontology that starts without axioms is the plain list of what was added and not removed:
each change tells whether the list is another one, every query is answered by the list, and two
ontologies have the same axioms when their lists have the same members. -/
theorem replay_lists (header : Ontology) (revisions : List Revision) :
    Lists (replay header revisions) (record revisions) ∧
    (∀ revision : Revision,
      ((replay header revisions).revise revision).1 = true ↔ revision.apply (record revisions) ≠ record revisions) ∧
    ∀ (other : Ontology) (others : List Revision),
      (replay header revisions).sameAxioms (replay other others) = true ↔
        ∀ fact, fact ∈ record revisions ↔ fact ∈ record others := by
  have holds := holds_replay header revisions
  refine ⟨holds.lists, holds.changes, ?_⟩
  intro other others
  exact holds.sameAxioms (holds_replay other others)

/-- The predicate of a built-in is no component: the rule is there and shows the IRI, and looking
for the IRI does not find it. -/
theorem predicate_not_mentioned :
    let predicate : Iri := ⟨"http://example.com/adult"⟩
    let fact : AnnotatedAxiom := ⟨.rule ⟨[.builtin predicate [.variable ⟨"http://example.com/x"⟩]], []⟩, []⟩
    fact ∈ record [.add fact] ∧ fact.Shows predicate ∧ fact ∉ (replay {} [.add fact]).mentioning predicate := by
  intro predicate fact
  refine ⟨List.mem_singleton_self fact, ?_, ?_⟩
  · apply Or.inr
    -- from the axiom to the rule, to its atom, to the predicate
    apply Relation.ReflTransGen.head (b := .bare fact.bare)
    · simp [Piece.parts]
    · apply Relation.ReflTransGen.head (b := .formula (.builtin predicate [.variable ⟨"http://example.com/x"⟩]))
      · simp [Piece.parts, Axiom.parts, fact]
      · apply Relation.ReflTransGen.single
        simp [Piece.parts, Atom.parts]
  · rw [(holds_replay {} [.add fact]).mentioning]
    simp [AnnotatedAxiom.mentions_iff, fact, AnnotatedAxiom.components, Axiom.components, Atom.components,
      DataArgument.components]

end OwlGraph.Ontology
