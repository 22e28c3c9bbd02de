import Mathlib.Data.List.Forall2
import OwlGraph.Axiom.Component
import OwlGraph.Proofs.WorkingSet

/-! Graphs that differ in the labels of their blank nodes. The nodes of the one are paired with
those of the other, each with one, and terms, triples and working sets correspond when they are
the same but for paired nodes in corresponding places. Every lookup in corresponding working
sets finds corresponding triples in the same order, and every change of them is a change of both. -/

namespace OwlGraph

/-- The pairs of blank nodes of two graphs, and the ranks of the nodes of the first. -/
structure Pairing where
  Pairs : BlankNode → BlankNode → Prop
  same_iff : ∀ {first second other partner}, Pairs first second → Pairs other partner →
    (second = partner ↔ first = other)
  /-- The number of both loads. -/
  number : Nat
  rank : BlankNode → Nat

namespace Pairing

section Lists

variable {α β γ δ : Type} {holds : α → β → Prop} {image : γ → δ → Prop}

theorem rel_option_map {first : Option α} {second : Option β} {f : α → γ} {g : β → δ} (rel : Option.Rel holds first second)
    (each : ∀ a b, holds a b → image (f a) (g b)) : Option.Rel image (first.map f) (second.map g) := by
  cases rel with
  | none => exact .none
  | some own => exact .some (each _ _ own)

theorem rel_option_filter {first : Option α} {second : Option β} {p : α → Bool} {q : β → Bool}
    (rel : Option.Rel holds first second) (each : ∀ a b, holds a b → q b = p a) :
    Option.Rel holds (first.filter p) (second.filter q) := by
  cases rel with
  | none => exact .none
  | some own =>
    rw [Option.filter_some, Option.filter_some, each _ _ own]
    split
    · exact .some own
    · exact .none

theorem any_of_rel {first : Option α} {second : Option β} {p : α → Bool} {q : β → Bool}
    (rel : Option.Rel holds first second) (each : ∀ a b, holds a b → q b = p a) : second.any q = first.any p := by
  cases rel with
  | none => rfl
  | some own => exact each _ _ own

theorem rel_toList {first : Option α} {second : Option β} (rel : Option.Rel holds first second) :
    List.Forall₂ holds first.toList second.toList := by
  cases rel with
  | none => exact .nil
  | some own => exact .cons own .nil

theorem rel_filter {first : List α} {second : List β} {p : α → Bool} {q : β → Bool} (rel : List.Forall₂ holds first second)
    (each : ∀ a b, holds a b → q b = p a) : List.Forall₂ holds (first.filter p) (second.filter q) :=
  List.rel_filter (fun a b own => by simp only [each a b own]) rel

theorem rel_filterMap {first : List α} {second : List β} {f : α → Option γ} {g : β → Option δ}
    (rel : List.Forall₂ holds first second) (each : ∀ a b, holds a b → Option.Rel image (f a) (g b)) :
    List.Forall₂ image (first.filterMap f) (second.filterMap g) := List.rel_filterMap (fun a b own => each a b own) rel

/-- What is made of the elements that pass a test. -/
theorem rel_filterMap_ite {first : List α} {second : List β} {p : α → Prop} {q : β → Prop} [DecidablePred p] [DecidablePred q]
    {f : α → γ} {g : β → δ} (rel : List.Forall₂ holds first second) (test : ∀ a b, holds a b → (q b ↔ p a))
    (each : ∀ a b, holds a b → image (f a) (g b)) :
    List.Forall₂ image (first.filterMap fun a => if p a then some (f a) else none)
      (second.filterMap fun b => if q b then some (g b) else none) := by
  refine rel_filterMap rel fun a b own => ?_
  rw [if_congr (test a b own) rfl rfl]
  split
  · exact .some (each a b own)
  · exact .none

theorem rel_map {first : List α} {second : List β} {f : α → γ} {g : β → δ} (rel : List.Forall₂ holds first second)
    (each : ∀ a b, holds a b → image (f a) (g b)) : List.Forall₂ image (first.map f) (second.map g) :=
  List.rel_map (fun a b own => each a b own) rel

theorem any_of_forall₂ {first : List α} {second : List β} {p : α → Bool} {q : β → Bool}
    (rel : List.Forall₂ holds first second) (each : ∀ a b, holds a b → q b = p a) : second.any q = first.any p := by
  induction rel with
  | nil => rfl
  | cons own _ ih => rw [List.any_cons, List.any_cons, each _ _ own, ih]

theorem isEmpty_of_forall₂ {first : List α} {second : List β} (rel : List.Forall₂ holds first second) :
    second.isEmpty = first.isEmpty := by
  cases rel <;> rfl

theorem filterMap_of_forall₂ {first : List α} {second : List β} {f : α → Option γ} {g : β → Option γ}
    (rel : List.Forall₂ holds first second) (each : ∀ a b, holds a b → g b = f a) :
    second.filterMap g = first.filterMap f := by
  induction rel with
  | nil => rfl
  | cons own _ ih => rw [List.filterMap_cons, List.filterMap_cons, each _ _ own, ih]

theorem findSome?_of_forall₂ {first : List α} {second : List β} {f : α → Option γ} {g : β → Option γ}
    (rel : List.Forall₂ holds first second) (each : ∀ a b, holds a b → g b = f a) :
    second.findSome? g = first.findSome? f := by
  induction rel with
  | nil => rfl
  | cons own _ ih => rw [List.findSome?_cons, List.findSome?_cons, each _ _ own, ih]

theorem rel_find? {first : List α} {second : List β} {p : α → Bool} {q : β → Bool} (rel : List.Forall₂ holds first second)
    (each : ∀ a b, holds a b → q b = p a) : Option.Rel holds (first.find? p) (second.find? q) := by
  induction rel with
  | nil => exact .none
  | cons own _ ih =>
    rw [List.find?_cons, List.find?_cons, each _ _ own]
    split
    · exact .some own
    · exact ih

theorem rel_refl (items : List α) : List.Forall₂ Eq items items := List.forall₂_refl items

theorem rel_head? {first : List α} {second : List β} (rel : List.Forall₂ holds first second) :
    Option.Rel holds first.head? second.head? := by
  cases rel with
  | nil => exact .none
  | cons own _ => exact .some own

section Unique

variable [BEq α] [LawfulBEq α] [BEq β] [LawfulBEq β] (unique : ∀ {a b c d}, holds a b → holds c d → (b = d ↔ a = c))
include unique

theorem beq_of_unique {a c : α} {b d : β} (one : holds a b) (two : holds c d) : (b == d) = (a == c) := by
  rw [Bool.eq_iff_iff, beq_iff_eq, beq_iff_eq]
  exact unique one two

theorem contains_of_forall₂ {first : List α} {second : List β} {a : α} {b : β} (rel : List.Forall₂ holds first second)
    (own : holds a b) : second.contains b = first.contains a := by
  rw [List.contains_eq_any_beq, List.contains_eq_any_beq]
  exact any_of_forall₂ rel fun _ _ other => beq_of_unique unique own other

theorem rel_eraseDups {first : List α} {second : List β} (rel : List.Forall₂ holds first second) :
    List.Forall₂ holds first.eraseDups second.eraseDups := by
  cases rel with
  | nil => exact .nil
  | @cons a b first second own rest =>
    have others : List.Forall₂ holds (first.filter fun other => !other == a) (second.filter fun other => !other == b) :=
      rel_filter rest fun _ _ other => by rw [beq_of_unique unique other own]
    rw [List.eraseDups_cons, List.eraseDups_cons]
    exact .cons own (rel_eraseDups others)
termination_by first.length
decreasing_by exact Nat.lt_succ_of_le (List.length_filter_le _ _)

theorem idxOf_of_forall₂ {first : List α} {second : List β} {a : α} {b : β} (rel : List.Forall₂ holds first second)
    (own : holds a b) : second.idxOf b = first.idxOf a := by
  induction rel with
  | nil => rfl
  | cons other _ ih => rw [List.idxOf_cons, List.idxOf_cons, beq_of_unique unique other own, ih]

end Unique

end Lists

variable (pairing : Pairing)

/-- The label of the anonymous individual that a paired node stands for. -/
def label (node : BlankNode) : BlankNode := ⟨s!"s{Nat.repr pairing.number}n{Nat.repr (pairing.rank node)}"⟩

/-- An anonymous individual stands for a paired node. -/
def Covered : Component → Prop
  | .anonymous name => ∃ first second, pairing.Pairs first second ∧ name = pairing.label first
  | .entity _ | .iri _ => True

/-- All anonymous individuals among the components stand for paired nodes. -/
abbrev Covers (components : List Component) : Prop := ∀ component ∈ components, pairing.Covered component

inductive Nodes : Node → Node → Prop
  | named (iri : Iri) : Nodes (.named iri) (.named iri)
  | blank {first second : BlankNode} (pair : pairing.Pairs first second) : Nodes (.blank first) (.blank second)

inductive Terms : Term → Term → Prop
  | resource {first second : Node} (nodes : pairing.Nodes first second) : Terms (.resource first) (.resource second)
  | literal (value : Literal) : Terms (.literal value) (.literal value)

structure Triples (first second : Triple) : Prop where
  subject : pairing.Nodes first.subject second.subject
  predicate : second.predicate = first.predicate
  object : pairing.Terms first.object second.object

structure Rows (first second : Row) : Prop where
  id : second.id = first.id
  triple : pairing.Triples first.triple second.triple

structure Stored (first second : StoredTriple) : Prop where
  triple : pairing.Triples first.triple second.triple
  live : second.live = first.live
  consumed : second.consumed = first.consumed

/-- The working sets hold corresponding triples under the same numbers. -/
structure Contents (first second : TripleStore) : Prop where
  indexed : first.Indexed
  reindexed : second.Indexed
  entries : ∀ id : TripleId, Option.Rel pairing.Stored first.entries[id]? second.entries[id]?
  log : second.log = first.log

/-- The contents correspond, and the paired nodes have the ranks of the pairing. -/
structure Stores (first second : TripleStore) : Prop extends pairing.Contents first second where
  ranks : ∀ node partner, pairing.Pairs node partner →
    first.blanks[node]? = some (pairing.rank node) ∧ second.blanks[partner]? = some (pairing.rank node)

variable {pairing} {subject resource : Node} {object value : Term} {triple statement : Triple} {first second : TripleStore}

section Terms

variable {node partner : Node} {term twin : Term} {other image : Triple}

theorem Nodes.eq_iff (nodes : pairing.Nodes subject resource) (others : pairing.Nodes node partner) :
    resource = partner ↔ subject = node := by
  cases nodes with
  | named iri =>
    cases others with
    | named name => exact Iff.rfl
    | blank pair => exact ⟨nofun, nofun⟩
  | blank pair =>
    cases others with
    | named name => exact ⟨nofun, nofun⟩
    | blank same =>
      rw [Node.blank.injEq, Node.blank.injEq]
      exact pairing.same_iff pair same

theorem Nodes.beq_eq (nodes : pairing.Nodes subject resource) (others : pairing.Nodes node partner) :
    (resource == partner) = (subject == node) := beq_of_unique Nodes.eq_iff nodes others

theorem Nodes.iri? (nodes : pairing.Nodes subject resource) : resource.iri? = subject.iri? := by
  cases nodes <;> rfl

theorem Nodes.blank? (nodes : pairing.Nodes subject resource) : Option.Rel pairing.Pairs subject.blank? resource.blank? := by
  cases nodes with
  | named => exact .none
  | blank pair => exact .some pair

theorem Terms.named (iri : Iri) : pairing.Terms iri iri := .resource (.named iri)

theorem Terms.eq_iff (terms : pairing.Terms object value) (others : pairing.Terms term twin) :
    value = twin ↔ object = term := by
  cases terms with
  | literal constant =>
    cases others with
    | literal other => exact Iff.rfl
    | resource nodes => exact ⟨nofun, nofun⟩
  | resource nodes =>
    cases others with
    | literal other => exact ⟨nofun, nofun⟩
    | resource same =>
      rw [Term.resource.injEq, Term.resource.injEq]
      exact nodes.eq_iff same

theorem Terms.beq_eq (terms : pairing.Terms object value) (others : pairing.Terms term twin) :
    (value == twin) = (object == term) := beq_of_unique Terms.eq_iff terms others

theorem Terms.iri? (terms : pairing.Terms object value) : value.iri? = object.iri? := by
  cases terms with
  | literal => rfl
  | resource nodes => exact nodes.iri?

theorem Terms.literal? (terms : pairing.Terms object value) : value.literal? = object.literal? := by
  cases terms <;> rfl

theorem Terms.blank? (terms : pairing.Terms object value) : Option.Rel pairing.Pairs object.blank? value.blank? := by
  cases terms with
  | literal => exact .none
  | resource nodes => exact nodes.blank?

theorem Terms.node? (terms : pairing.Terms object value) : Option.Rel pairing.Nodes object.node? value.node? := by
  cases terms with
  | literal => exact .none
  | resource nodes => exact .some nodes

theorem Triples.eq_iff (triples : pairing.Triples triple statement) (others : pairing.Triples other image) :
    statement = image ↔ triple = other := by
  obtain ⟨subject, predicate, object⟩ := triple
  obtain ⟨resource, relation, value⟩ := statement
  cases other
  cases image
  rw [Triple.mk.injEq, Triple.mk.injEq]
  exact and_congr (triples.subject.eq_iff others.subject)
    (and_congr (Eq.congr triples.predicate others.predicate) (triples.object.eq_iff others.object))

/-- Which type a triple states does not depend on the labels. -/
theorem Triples.object_eq (triples : pairing.Triples triple statement) (iri : Iri) :
    statement.object = iri ↔ triple.object = iri := triples.object.eq_iff (.named iri)

theorem Triples.object_beq (triples : pairing.Triples triple statement) (iri : Iri) :
    (statement.object == iri) = (triple.object == iri) := triples.object.beq_eq (.named iri)

end Terms

namespace Contents

section Lookups

variable (contents : pairing.Contents first second)
include contents

theorem size : second.entries.size = first.entries.size := by
  have absent (id : Nat) : second.entries.size ≤ id ↔ first.entries.size ≤ id := by
    rw [← Array.getElem?_eq_none_iff, ← Array.getElem?_eq_none_iff]
    have rel := contents.entries id
    generalize first.entries[id]? = entry at rel
    generalize second.entries[id]? = twin at rel
    cases rel with
    | none => exact Iff.rfl
    | some => exact ⟨nofun, nofun⟩
  exact Nat.le_antisymm ((absent _).mpr (Nat.le_refl _)) ((absent _).mp (Nat.le_refl _))

theorem isConsumed (id : TripleId) : second.isConsumed id = first.isConsumed id :=
  any_of_rel (contents.entries id) fun _ _ own => own.consumed

theorem row? (id : TripleId) : Option.Rel pairing.Rows (first.row? id) (second.row? id) :=
  rel_option_map (rel_option_filter (contents.entries id) fun _ _ own => own.live) fun _ _ own => ⟨rfl, own.triple⟩

theorem liveRows : List.Forall₂ pairing.Rows first.liveRows second.liveRows := by
  rw [TripleStore.liveRows, TripleStore.liveRows, contents.size]
  refine rel_filterMap (rel_refl _) ?_
  rintro id _ rfl
  exact contents.row? id

theorem withSubject (nodes : pairing.Nodes subject resource) :
    List.Forall₂ pairing.Rows (first.withSubject subject) (second.withSubject resource) := by
  rw [contents.indexed.withSubject, contents.reindexed.withSubject]
  exact rel_filter contents.liveRows fun _ _ own => own.triple.subject.beq_eq nodes

theorem withObject (terms : pairing.Terms object value) :
    List.Forall₂ pairing.Rows (first.withObject object) (second.withObject value) := by
  rw [contents.indexed.withObject, contents.reindexed.withObject]
  exact rel_filter contents.liveRows fun _ _ own => own.triple.object.beq_eq terms

theorem withPredicate (predicate : Iri) :
    List.Forall₂ pairing.Rows (first.withPredicate predicate) (second.withPredicate predicate) := by
  rw [contents.indexed.withPredicate, contents.reindexed.withPredicate]
  exact rel_filter contents.liveRows fun _ _ own => by rw [own.triple.predicate]

theorem unconsumed : List.Forall₂ pairing.Rows first.unconsumed second.unconsumed := by
  rw [TripleStore.unconsumed_eq, TripleStore.unconsumed_eq]
  exact rel_filter contents.liveRows fun _ _ own => by rw [own.id, contents.isConsumed]

theorem matching (nodes : pairing.Nodes subject resource) (predicate : Iri) :
    List.Forall₂ pairing.Rows (first.matching subject predicate) (second.matching resource predicate) :=
  rel_filter (contents.withSubject nodes) fun _ _ own => by rw [own.triple.predicate]

theorem objects (nodes : pairing.Nodes subject resource) (predicate : Iri) :
    List.Forall₂ pairing.Terms (first.objects subject predicate) (second.objects resource predicate) :=
  rel_map (contents.matching nodes predicate) fun _ _ own => own.triple.object

theorem types (nodes : pairing.Nodes subject resource) : second.types resource = first.types subject :=
  filterMap_of_forall₂ (contents.objects nodes _) fun _ _ own => own.iri?

theorem hasType (nodes : pairing.Nodes subject resource) (cls : Iri) : second.hasType resource cls = first.hasType subject cls := by
  rw [TripleStore.hasType, TripleStore.hasType, contents.types nodes]

theorem ids (triples : pairing.Triples triple statement) : second.ids[statement]? = first.ids[triple]? := by
  apply Option.ext
  intro id
  rw [contents.indexed.ids, contents.reindexed.ids, Array.getElem?_map, Array.getElem?_map]
  have rel := contents.entries id
  generalize first.entries[id]? = entry at rel
  generalize second.entries[id]? = twin at rel
  cases rel with
  | none => exact ⟨nofun, nofun⟩
  | some own =>
    rw [Option.map_some, Option.map_some, Option.some.injEq, Option.some.injEq]
    exact own.triple.eq_iff triples

theorem isLive (id : TripleId) : (second.entries[id]?).any (·.live) = (first.entries[id]?).any (·.live) :=
  any_of_rel (contents.entries id) fun _ _ own => own.live

theorem find? (triples : pairing.Triples triple statement) : second.find? statement = first.find? triple := by
  simp only [TripleStore.find?, contents.ids triples, contents.isLive]

end Lookups

theorem insert (contents : pairing.Contents first second) (triples : pairing.Triples triple statement) :
    (second.insert statement).1 = (first.insert triple).1 ∧
      pairing.Contents (first.insert triple).2 (second.insert statement).2 := by
  have fresh : pairing.Stored ⟨triple, true, false⟩ ⟨statement, true, false⟩ := ⟨triples, rfl, rfl⟩
  have parts : (second.insert statement).1 = (first.insert triple).1 ∧
      (∀ id : TripleId, Option.Rel pairing.Stored (first.insert triple).2.entries[id]? (second.insert statement).2.entries[id]?) ∧
      (second.insert statement).2.log = (first.insert triple).2.log := by
    rw [TripleStore.insert, TripleStore.insert, contents.ids triples]
    split
    · rw [contents.isLive]
      split
      · exact ⟨rfl, contents.entries, contents.log⟩
      · refine ⟨rfl, fun other => ?_, contents.log⟩
        rw [Array.set!_eq_setIfInBounds, Array.set!_eq_setIfInBounds, Array.getElem?_setIfInBounds,
          Array.getElem?_setIfInBounds, contents.size]
        split
        · split
          · exact .some fresh
          · exact .none
        · exact contents.entries other
    · refine ⟨congrArg some contents.size, fun other => ?_, contents.log⟩
      rw [Array.getElem?_push, Array.getElem?_push, contents.size]
      split
      · exact .some fresh
      · exact contents.entries other
  exact ⟨parts.1, contents.indexed.insert triple, contents.reindexed.insert statement, parts.2.1, parts.2.2⟩

theorem ofTriples {triples others : List Triple} (same : List.Forall₂ pairing.Triples triples others) :
    pairing.Contents (.ofTriples triples) (.ofTriples others) := by
  have grow : ∀ {first second : TripleStore}, pairing.Contents first second →
      pairing.Contents (triples.foldl (fun store triple => (store.insert triple).2) first)
        (others.foldl (fun store triple => (store.insert triple).2) second) := by
    induction same with
    | nil => exact fun contents => contents
    | cons own _ ih => exact fun contents => ih (contents.insert own).2
  exact grow ⟨TripleStore.indexed_empty, TripleStore.indexed_empty, fun id => by simp, rfl⟩

end Contents

namespace Stores

section Changes

variable (stores : pairing.Stores first second)
include stores

theorem consume (id : TripleId) : pairing.Stores (first.consume id) (second.consume id) where
  indexed := TripleStore.indexed_consume _ _ stores.indexed
  reindexed := TripleStore.indexed_consume _ _ stores.reindexed
  entries other := by
    rw [TripleStore.entries_consume, TripleStore.entries_consume]
    refine rel_option_map (stores.entries other) fun entry twin own => ?_
    split
    · exact ⟨own.triple, own.live, rfl⟩
    · exact own
  log := by
    have unused : (second.entries[id]?).any (!·.consumed) = (first.entries[id]?).any (!·.consumed) :=
      any_of_rel (stores.entries id) fun _ _ own => by rw [own.consumed]
    rw [TripleStore.consume, TripleStore.consume, unused]
    split
    · exact congrArg (Array.push · id) stores.log
    · exact stores.log
  ranks node partner pair := by
    rw [TripleStore.blanks_consume, TripleStore.blanks_consume]
    exact stores.ranks node partner pair

theorem consumeAll {rows others : List Row} (same : List.Forall₂ pairing.Rows rows others) :
    pairing.Stores (first.consumeAll rows) (second.consumeAll others) := by
  induction same generalizing first second with
  | nil => exact stores
  | cons own _ ih =>
    rw [TripleStore.consumeAll, TripleStore.consumeAll, List.foldl_cons, List.foldl_cons, own.id]
    exact ih (stores.consume _)

theorem rollback (position : Nat) : pairing.Stores (first.rollback position) (second.rollback position) where
  indexed := TripleStore.indexed_rollback stores.indexed position
  reindexed := TripleStore.indexed_rollback stores.reindexed position
  entries id := by
    rw [TripleStore.entries_rollback, TripleStore.entries_rollback, stores.log]
    refine rel_option_map (stores.entries id) fun entry twin own => ?_
    split
    · exact ⟨own.triple, own.live, rfl⟩
    · exact own
  log := congrArg (Array.take · position) stores.log
  ranks := stores.ranks

theorem insert (triples : pairing.Triples triple statement) : (second.insert statement).1 = (first.insert triple).1 ∧
    pairing.Stores (first.insert triple).2 (second.insert statement).2 := by
  obtain ⟨number, contents⟩ := stores.toContents.insert triples
  refine ⟨number, contents, fun node partner pair => ?_⟩
  obtain ⟨rank, same⟩ := stores.ranks node partner pair
  exact ⟨TripleStore.rank_insert rank triple, TripleStore.rank_insert same statement⟩

theorem remove (id : TripleId) : pairing.Stores (first.remove id) (second.remove id) where
  indexed := TripleStore.indexed_remove stores.indexed id
  reindexed := TripleStore.indexed_remove stores.reindexed id
  entries other := by
    rw [TripleStore.remove, TripleStore.remove, Array.getElem?_modify, Array.getElem?_modify]
    split
    · exact rel_option_map (stores.entries other) fun _ _ own => ⟨own.triple, rfl, own.consumed⟩
    · exact stores.entries other
  log := stores.log
  ranks := stores.ranks

end Changes

end Stores

end Pairing

end OwlGraph
