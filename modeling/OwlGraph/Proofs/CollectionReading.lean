import Mathlib.Data.List.Dedup
import Mathlib.Data.List.Perm.Subperm
import OwlGraph.Proofs.PatternReading
import OwlGraph.Translation.Collection

/-! Reading lists, and reading the members of a list one by one. How many different subjects a
block of triples has bounds how deep the constructs in it are nested. -/

namespace OwlGraph

/-- How many nodes the triples are about. -/
def span (block : List Triple) : Nat := (block.map Triple.subject).dedup.length

theorem span_mono {first second : List Triple} (subset : ∀ triple ∈ first, triple ∈ second) :
    span first ≤ span second := by
  refine (List.subperm_of_subset (List.nodup_dedup _) fun node member => ?_).length_le
  obtain ⟨triple, inside, rfl⟩ := List.mem_map.mp (List.mem_dedup.mp member)
  exact List.mem_dedup.mpr (List.mem_map_of_mem (subset triple inside))

theorem span_le_length (block : List Triple) : span block ≤ block.length := by
  have shorter := (List.dedup_sublist (block.map Triple.subject)).length_le
  rwa [List.length_map] at shorter

/-- A construct is about one node more than its parts. -/
theorem Construct.span_lt {graph : List Triple} {value : Iri × Term} {values : List (Iri × Term)}
    {parts : List Triple} {term : Term} {block : List Triple}
    (built : Construct graph (value :: values) parts term block) : span parts < span block := by
  obtain ⟨node, -, -, apart, rfl⟩ := built
  have fresh : Node.blank node ∉ (parts.map Triple.subject).dedup := by
    intro member
    obtain ⟨triple, inside, same⟩ := List.mem_map.mp (List.mem_dedup.mp member)
    exact apart triple inside same
  have within : Node.blank node :: (parts.map Triple.subject).dedup ⊆
      ((parts ++ triplesAt node (value :: values)).map Triple.subject).dedup := by
    intro other member
    rw [List.mem_dedup, List.map_append, List.mem_append]
    rcases List.mem_cons.mp member with rfl | inside
    · exact Or.inr List.mem_cons_self
    · exact Or.inl (List.mem_dedup.mp inside)
  exact (List.subperm_of_subset (List.nodup_cons.mpr ⟨fresh, List.nodup_dedup _⟩) within).length_le

/-- The parts of a construct are nested less deep than the construct. -/
theorem Construct.descend {graph : List Triple} {value : Iri × Term} {values : List (Iri × Term)}
    {parts : List Triple} {term : Term} {block : List Triple} {depth : Nat}
    (built : Construct graph (value :: values) parts term block) (deep : span block ≤ depth) :
    ∃ less, depth = less + 1 ∧ span parts ≤ less := by
  have lower := built.span_lt
  exact ⟨depth - 1, by omega, by omega⟩

theorem Construct.parts_subset {graph : List Triple} {values : List (Iri × Term)} {parts : List Triple} {term : Term}
    {block : List Triple} (built : Construct graph values parts term block) : ∀ triple ∈ parts, triple ∈ block := by
  obtain ⟨_, -, -, -, rfl⟩ := built
  exact fun _ member => List.mem_append_left _ member

namespace World

variable {world : World} {α β γ : Type}

/-- The length of the longest list that is accepted. -/
def limit (world : World) : Nat := world.context.config.maxListLength

theorem Holds.matching_eq {session : Session} (holds : world.Holds session) {node : Node} {predicate : Iri}
    {object : Term} (single : ∀ other : Term, (⟨node, predicate, other⟩ : Triple) ∈ world.graph ↔ other = object) :
    ∃ row ∈ world.rows, row.triple = ⟨node, predicate, object⟩ ∧ session.store.matching node predicate = [row] := by
  obtain ⟨row, member, same⟩ := List.mem_map.mp ((single object).mpr rfl)
  refine ⟨row, member, same, ?_⟩
  rw [holds.matching]
  refine List.perm_singleton.mp ((List.perm_ext_iff_of_nodup ?_ (List.nodup_singleton row)).mpr fun other => ?_)
  · exact List.Nodup.of_map Row.triple (holds.nodup_filter _)
  · rw [List.mem_singleton, List.mem_filter, Bool.and_eq_true, beq_iff_eq, beq_iff_eq]
    constructor
    · rintro ⟨present, own, key⟩
      have inside : (⟨node, predicate, other.triple.object⟩ : Triple) ∈ world.graph := by
        rw [← own, ← key]
        exact List.mem_map_of_mem present
      refine holds.row_eq present member ?_
      rw [same, ← own, ← key, ← (single _).mp inside]
    · rintro rfl
      rw [same]
      exact ⟨member, rfl, rfl⟩

theorem Yields.listStep {head : Term} {node : Node} {predicate : Iri} {object : Term}
    (single : ∀ other : Term, (⟨node, predicate, other⟩ : Triple) ∈ world.graph ↔ other = object) :
    world.Yields (Translation.listStep head node predicate) object [] [⟨node, predicate, object⟩] := by
  refine Yields.get fun session holds => ?_
  obtain ⟨⟨id, triple⟩, member, rfl, found⟩ := holds.matching_eq single
  rw [found]
  exact Yields.step (Yields.consume member) (Yields.pure object) session holds

theorem carries_single {graph : List Triple} {node : BlankNode} {values : List (Iri × Term)}
    (carries : Carries graph node values) (distinct : (values.map Prod.fst).Nodup) {predicate : Iri} {object : Term}
    (member : (predicate, object) ∈ values) (other : Term) :
    (⟨node, predicate, other⟩ : Triple) ∈ graph ↔ other = object := by
  have kept := (carries predicate object).mpr member
  constructor
  · intro present
    have also := (carries predicate other).mp ⟨present, kept.2⟩
    exact congrArg Prod.snd (List.inj_on_of_nodup_map distinct also member rfl)
  · rintro rfl
    exact kept.1

private theorem cell_keys : [Rdf.first, Rdf.rest].Nodup ∧ Rdf.type ∉ [Rdf.first, Rdf.rest] ∧
    Rdf.type ∉ Role.classAxiomPredicates := by
  decide

/-- A cell of a list has no type, so that reading the cell uses nothing more. -/
private theorem cell_types {session : Session} (holds : world.Holds session) {cell : BlankNode} {element rest : Term}
    (carries : Carries world.graph cell [(Rdf.first, element), (Rdf.rest, rest)]) :
    (session.store.withSubject cell).filter (fun row => Translation.isListType row.triple) = [] := by
  rw [holds.withSubject, List.filter_filter, List.filter_eq_nil_iff]
  intro row member typed
  rw [Bool.and_eq_true, beq_iff_eq] at typed
  obtain ⟨isType, own⟩ := typed
  rw [Translation.isListType, Bool.and_eq_true, beq_iff_eq] at isType
  obtain ⟨key, -⟩ := isType
  have present : (⟨cell, Rdf.type, row.triple.object⟩ : Triple) ∈ world.graph := by
    rw [← own, ← key]
    exact List.mem_map_of_mem member
  have listed := (carries _ _).mp ⟨present, cell_keys.2.2⟩
  exact cell_keys.2.1 (List.mem_map_of_mem (f := Prod.fst) listed)

private theorem readListFrom_nil (head : Term) (room : Nat) (visited : Std.HashSet Node) (read : Array Term) :
    Translation.readListFrom head room visited read Rdf.nil = pure read.toList := by
  cases room <;> simp [Translation.readListFrom]

private theorem readListFrom_cell (head : Term) (room : Nat) {visited : Std.HashSet Node} (read : Array Term)
    {cell : BlankNode} (new : visited.contains (Node.blank cell) = false) :
    Translation.readListFrom head (room + 1) visited read cell = (do
      let first ← Translation.listStep head cell Rdf.first
      let rest ← Translation.listStep head cell Rdf.rest
      let session ← get
      Translation.consumeAll ((session.store.withSubject cell).filter fun row => Translation.isListType row.triple)
      Translation.readListFrom head room (visited.insert cell) (read.push first) rest) := by
  rw [Translation.readListFrom, if_neg (by simp)]
  simp only [Term.node?, new]
  rfl

private theorem yields_readListFrom (head : Term) : ∀ (elements : List Term) (room : Nat)
    (visited : Std.HashSet Node) (read : Array Term) (current : Term) (block : List Triple),
    Chain world.graph elements current block → elements.length ≤ room →
    (∀ triple ∈ block, visited.contains triple.subject = false) →
    world.Yields (Translation.readListFrom head room visited read current) (read.toList ++ elements) [] block
  | [], room, visited, read, current, block, chain, _, _ => by
    obtain ⟨rfl, rfl⟩ := chain
    rw [readListFrom_nil, List.append_nil]
    exact Yields.pure _
  | element :: elements, 0, _, _, _, _, _, bound, _ => absurd bound (Nat.not_succ_le_zero _)
  | element :: elements, room + 1, visited, read, current, block, chain, bound, unvisited => by
    obtain ⟨rest, tail, behind, cell, rfl, carries, apart, rfl⟩ := chain
    have new : visited.contains (Node.blank cell) = false :=
      unvisited ⟨cell, Rdf.first, element⟩ (List.mem_append_right _ List.mem_cons_self)
    have first : world.Yields (Translation.listStep head cell Rdf.first) element [] [⟨cell, Rdf.first, element⟩] :=
      Yields.listStep (carries_single carries cell_keys.1 (by simp))
    have second : world.Yields (Translation.listStep head cell Rdf.rest) rest [] [⟨cell, Rdf.rest, rest⟩] :=
      Yields.listStep (carries_single carries cell_keys.1 (by simp))
    have later := yields_readListFrom head elements room (visited.insert cell) (read.push element) rest tail behind
      (Nat.le_of_succ_le_succ bound) fun triple member => by
        rw [Std.HashSet.contains_insert, Bool.or_eq_false_iff]
        exact ⟨by simpa using (apart triple member).symm, unvisited triple (List.mem_append_left _ member)⟩
    have onward : world.Yields (do
        let session ← get
        Translation.consumeAll ((session.store.withSubject cell).filter fun row => Translation.isListType row.triple)
        Translation.readListFrom head room (visited.insert cell) (read.push element) rest)
        (read.toList ++ element :: elements) [] tail := by
      refine Yields.get fun session holds => ?_
      rw [cell_types holds carries]
      rw [Array.toList_push, List.append_assoc] at later
      exact Yields.step (Yields.consumeAll (by simp)) later session holds
    rw [readListFrom_cell head room read new]
    refine Yields.weaken (Yields.step first (Yields.step second onward)) (fun _ member => member) fun triple => ?_
    simp only [triplesAt, List.map_cons, List.map_nil, List.mem_append, List.mem_cons, List.not_mem_nil, or_false]
    tauto

theorem Yields.readList {elements : List Term} {head : Term} {block : List Triple}
    (chain : Chain world.graph elements head block) (bound : elements.length ≤ world.limit) :
    world.Yields (Translation.readList head) elements [] block := by
  refine Yields.read ?_
  have yields := yields_readListFrom head elements _ ∅ #[] head block chain bound (by simp)
  exact yields

theorem Yields.operands {elements : List Term} {head : Term} {block : List Triple}
    (chain : Chain world.graph elements head block) (bound : elements.length ≤ world.limit)
    (filled : elements ≠ []) : world.Yields (Translation.operands head) elements [] block := by
  have yields : world.Yields (Translation.operands head) elements [] (block ++ []) := by
    refine Yields.step (Yields.readList chain bound) ?_
    rw [List.isEmpty_eq_false_iff.mpr filled]
    exact Yields.pure elements
  rwa [List.append_nil] at yields

/-- Members that are described one by one are read one by one. -/
theorem Yields.each {describes : α → Term → List Triple → Prop} {read : Term → Translation β} {image : α → β}
    {items : List α} {terms : List Term} {block : List Triple} (each : Each describes items terms block)
    (reads : ∀ item ∈ items, ∀ term part, describes item term part → (∀ triple ∈ part, triple ∈ block) →
      world.Yields (read term) (image item) part part) :
    world.Yields (terms.mapM read) (items.map image) block block := by
  induction items generalizing terms block with
  | nil =>
    cases terms with
    | nil =>
      cases each
      rw [List.mapM_nil]
      exact Yields.pure []
    | cons => cases each
  | cons item items ih =>
    cases terms with
    | nil => cases each
    | cons term terms =>
      obtain ⟨first, rest, described, others, rfl⟩ := each
      have one := reads item List.mem_cons_self term first described fun _ member => List.mem_append_left _ member
      have more := ih others fun other member term part described subset => reads other
        (List.mem_cons_of_mem _ member) term part described fun triple inside => List.mem_append_right _ (subset triple inside)
      rw [List.mapM_cons]
      refine Yields.weaken (Yields.bind one (Yields.bind more (Yields.pure _))) ?_ ?_ <;> simp

/-- Members that are read without using anything. -/
theorem Yields.eachLook {stands : α → γ → Prop} {read : γ → Translation β} {image : α → β} {items : List α}
    {terms : List γ} (pairs : List.Forall₂ stands items terms)
    (reads : ∀ item ∈ items, ∀ term, stands item term → world.Yields (read term) (image item) [] []) :
    world.Yields (terms.mapM read) (items.map image) [] [] := by
  induction pairs with
  | nil =>
    rw [List.mapM_nil]
    exact Yields.pure []
  | cons here _ ih =>
    rw [List.mapM_cons]
    exact Yields.look (reads _ List.mem_cons_self _ here)
      (Yields.look (ih fun other member => reads other (List.mem_cons_of_mem _ member)) (Yields.pure _))

/-- Members that stand for themselves. -/
theorem Yields.eachSelf {term : α → γ} {read : γ → Translation β} {image : α → β}
    (reads : ∀ item, world.Yields (read (term item)) (image item) [] []) (items : List α) :
    world.Yields ((items.map term).mapM read) (items.map image) [] [] := by
  refine Yields.eachLook
    (List.forall₂_map_right_iff.mpr (List.forall₂_same.mpr fun _ _ => rfl)) fun item _ other same => ?_
  rw [← same]
  exact reads item

end World

end OwlGraph
