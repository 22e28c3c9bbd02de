import OwlGraph.Proofs.LaidOutLoad
import OwlGraph.Proofs.SavedLayout

/-! Saving and loading. The triples that are written of an ontology are loaded without a problem, in any
order and in either mode. The header comes back as it was, and the axioms come back as their pieces,
with their annotations and up to the labels of anonymous individuals. -/

namespace OwlGraph

open Rendering

namespace World.Saves

variable {world : World} {ontology : Ontology} {supply : Nat → BlankNode} {header : Node} {group : List Triple}
  {strokes : List Stroke} {block : List Triple} (saves : world.Saves ontology supply header group strokes block)
include saves

/-- The anonymous individuals of a piece occur in the graph. -/
theorem mentioned {stroke : Stroke} (listed : stroke ∈ strokes) {node : BlankNode} (member : .anonymous node ∈ stroke.bare.components) :
    Mentioned world.graph node := by
  cases large : stroke.bare.isGathered with
  | false =>
    refine (((saves.inscribed listed).stated large).mentioned member).mono (List.forall_mem_cons.mpr ⟨saves.main_mem listed, ?_⟩)
    exact fun triple inside => (saves.operand listed inside).1
  | true =>
    obtain ⟨number, type, values, operands, -, whole, -, gathered, -⟩ := (saves.inscribed listed).carrier large
    refine (gathered.mentioned member (supply number)).mono fun triple inside => (saves.operand listed ?_).1
    rwa [whole]

/-- So do those of its annotations. -/
theorem note_mentioned {stroke : Stroke} (listed : stroke ∈ strokes) {node : BlankNode}
    (member : .anonymous node ∈ Annotation.componentsEach stroke.notes) : Mentioned world.graph node := by
  have written {number : Nat} (annotated : Annotated supply world.graph (supply number) stroke.notes stroke.noted) :
      Mentioned world.graph node := by
    have carrying : Carrying supply world.graph ontology header group strokes (supply number) stroke.notes stroke.noted := .piece listed annotated
    exact ( Annotation.DescribedEach.mentioned (saves.described carrying) member).mono carrying.subset
  cases large : stroke.bare.isGathered with
  | true =>
    obtain ⟨number, _, _, _, -, -, -, -, -, annotated⟩ := (saves.inscribed listed).carrier large
    exact written annotated
  | false =>
    rcases (saves.inscribed listed).pointer large with ⟨none, -⟩ | ⟨-, number, -, -, annotated⟩
    · rw [none] at member
      cases member
    · exact written annotated

variable (labels : ∀ a b, Mentioned world.graph a → Mentioned world.graph b → world.anonymous a = world.anonymous b → a = b)
include labels

/-- What is read of an axiom without annotations is not read of one to which some are added. -/
theorem fact_apart {one two : Stroke} (first : one ∈ strokes) (second : two ∈ strokes) (bare : one.notes = []) (filled : two.notes ≠ [])
    (loose : two.bare.isGathered = false) : AnnotatedAxiom.rename world.anonymous ⟨one.bare, []⟩ ≠
      AnnotatedAxiom.rename world.anonymous ⟨two.bare, []⟩ := by
  intro same
  obtain ⟨fact, member, piece, notes⟩ := saves.origin first
  obtain ⟨other, present, part, others⟩ := saves.origin second
  obtain ⟨clean, words⟩ := saves.saveable.clean ⟨other, present, others ▸ filled⟩
  let nodes (node : BlankNode) : Prop := Mentioned world.graph node ∧ node ∈ ontology.blanks
  have inside {stroke : Stroke} (listed : stroke ∈ strokes) : ∀ blank, .anonymous blank ∈ stroke.bare.components → nodes blank :=
    fun blank within => ⟨saves.mentioned listed within, Ontology.mem_blanks.mpr (saves.component listed _ within)⟩
  refine saves.saveable.separated fact member other present (notes ▸ bare) (others ▸ filled) _ piece _ part loose ?_
  refine Axiom.normalize_of_rename (cleanLabels_anonymous world) (fun a b left right => labels a b left.1 right.1)
    (fun node within => words node within.2) (Axiom.clean_of_piece (Axiom.hasPiece_of_mem piece) (clean fact member).bare)
    (Axiom.clean_of_piece (Axiom.hasPiece_of_mem part) (clean other present).bare) (inside first) (inside second) ?_
  rw [AnnotatedAxiom.rename_eq_of, AnnotatedAxiom.rename_eq_of] at same
  exact congrArg AnnotatedAxiom.bare same

/-- In the end the axioms are the pieces with their annotations. -/
theorem tells_iff (fact : AnnotatedAxiom) : (world.layout ontology header group strokes).Tells (fun _ => True) (fun _ => True) fact ↔
    ∃ stroke ∈ strokes, fact = AnnotatedAxiom.rename world.anonymous ⟨stroke.bare, stroke.notes⟩ := by
  have remark {stroke : Stroke} (listed : stroke ∈ strokes) (loose : stroke.bare.isGathered = false) (filled : stroke.notes ≠ []) :
      ∃ remark ∈ (world.layout ontology header group strokes).remarks, remark.entry = stroke.entry world.anonymous ∧
        remark.fact = AnnotatedAxiom.rename world.anonymous ⟨stroke.bare, stroke.notes⟩ := by
    obtain ⟨number, pointed⟩ := Stroke.pointed_of_filled (saves.inscribed listed) loose filled
    exact ⟨_, List.mem_filterMap.mpr ⟨stroke, listed, Stroke.remark?_of_pointed pointed⟩, rfl, rfl⟩
  have loosely {stroke : Stroke} (loose : stroke.bare.isGathered = false) :
      (stroke.entry world.anonymous).fact = AnnotatedAxiom.rename world.anonymous ⟨stroke.bare, []⟩ := by
    rw [Stroke.entry, loose]
    rfl
  constructor
  · rintro (⟨entry, member, -, -, rfl, kept⟩ | ⟨note, member, -, rfl⟩)
    · obtain ⟨stroke, listed, rfl⟩ := List.mem_map.mp member
      refine ⟨stroke, listed, ?_⟩
      cases large : stroke.bare.isGathered with
      | true => simp only [Stroke.entry, large, if_true]
      | false =>
        have bare : stroke.notes = [] := by
          by_contra filled
          obtain ⟨note, inside, same, -⟩ := remark listed large filled
          exact kept note inside trivial (congrArg Entry.fact same)
        rw [loosely large, bare]
    · revert note
      exact saves.forall_remark fun stroke listed number pointed => ⟨stroke, listed, rfl⟩
  · rintro ⟨stroke, listed, rfl⟩
    by_cases pointed : stroke.bare.isGathered = false ∧ stroke.notes ≠ []
    · obtain ⟨note, inside, -, same⟩ := remark listed pointed.1 pointed.2
      exact .inr ⟨note, inside, trivial, same.symm⟩
    have own : (stroke.entry world.anonymous).fact = AnnotatedAxiom.rename world.anonymous ⟨stroke.bare, stroke.notes⟩ := by
      cases large : stroke.bare.isGathered with
      | true => simp only [Stroke.entry, large, if_true]
      | false => rw [loosely large, by_contra fun filled => pointed ⟨large, filled⟩]
    refine .inl ⟨_, List.mem_map_of_mem listed, trivial, fun late => ?_, own.symm, saves.forall_remark fun other present number points _ same => ?_⟩
    · have hidden := Stroke.stage_late.mp late
      obtain ⟨fact, member, piece, notes⟩ := saves.origin listed
      have seen := (saves.saveable.facts fact member).seen ((Axiom.isHidden_of_piece (Axiom.hasPiece_of_mem piece)).symm.trans hidden)
      exact pointed ⟨Stroke.isGathered_of_hidden hidden, notes ▸ seen⟩
    · rw [loosely points.loose] at same
      by_cases bare : stroke.notes = []
      · rw [bare] at same
        exact saves.fact_apart labels listed present bare points.filled points.loose same.symm
      · have empty := congrArg AnnotatedAxiom.annotations same
        rw [AnnotatedAxiom.rename_eq_of, AnnotatedAxiom.rename_eq_of] at empty
        have none : stroke.notes.map ( Annotation.rename world.anonymous) = [] :=
          Annotation.canonical_eq_nil.mp (empty.symm.trans ( Annotation.canonical_eq_nil.mpr rfl))
        exact bare (List.map_eq_nil_iff.mp none)

end World.Saves

/-- The labels that a load gives to the blank nodes of a graph, and other ones to all other nodes. -/
def freshLabel (number : Nat) (triples : List Triple) (node : BlankNode) : BlankNode :=
  if node ∈ blankNodes triples then individualLabel number triples node else ⟨"x" ++ node.label⟩

section Labels

variable {config : Config} {number : Nat} {triples : List Triple} {known : Entity → Prop}

theorem freshLabel_injective : Function.Injective (freshLabel number triples) := by
  have apart : ∀ node other : BlankNode, individualLabel number triples node ≠ ⟨"x" ++ other.label⟩ := by
    intro node other same
    have first := congrArg (fun node : BlankNode => node.label.toList.head?) same
    simp [individualLabel, toString] at first
  intro node other same
  unfold freshLabel at same
  split at same
  next member =>
    split at same
    · exact individualLabel_injective member same
    · exact absurd same (apart node other)
  next =>
    split at same
    · exact absurd same.symm (apart other node)
    · exact congrArg BlankNode.mk ((String.append_right_inj _).mp (congrArg BlankNode.label same))

theorem World.anonymous_ofTriples {node : BlankNode} (member : node ∈ blankNodes triples) :
    (World.ofTriples config number triples known).anonymous node = freshLabel number triples node := by
  have rank : (TripleStore.ofTriples triples).blankRank node = (blankNodes triples).idxOf node := by
    rw [TripleStore.blankRank, Std.HashMap.getD_eq_getD_getElem?, (TripleStore.ranked_ofTriples triples).ranks,
      if_pos (List.mem_eraseDups.mp member)]
    rfl
  rw [freshLabel, if_pos member, individualLabel, World.anonymous]
  exact congrArg (fun rank : Nat => BlankNode.mk s!"s{Nat.repr number}n{Nat.repr rank}") rank

end Labels

/-- The loaded ontology is the one that was saved, up to the labels of anonymous individuals: axioms came back as their pieces. -/
structure Loaded.Recalls (loaded : Loaded) (ontology : Ontology) (rename : BlankNode → BlankNode) : Prop where
  reports : loaded.reports = []
  id : loaded.ontology.id = ontology.id
  imports : ∀ iri, iri ∈ loaded.ontology.imports ↔ iri ∈ ontology.imports
  annotations : Annotation.AlikeEach (ontology.annotations.map ( Annotation.rename rename)) loaded.ontology.annotations
  facts : ∀ fact, fact ∈ loaded.ontology.axioms ↔ ∃ own ∈ ontology.axioms, ∃ piece ∈ own.bare.pieces,
    fact = AnnotatedAxiom.rename rename ⟨piece, own.annotations⟩

/-- The graph consists of the triples that are written of the ontology, and a load may read it. -/
structure Ontology.Saved (ontology : Ontology) (supply : Nat → BlankNode) (config : Config) (graph : List Triple) : Prop where
  saveable : ontology.Saveable config.maxListLength
  distinct : Function.Injective supply
  fresh : ∀ number, supply number ∉ ontology.blanks
  same : ∀ triple, triple ∈ graph ↔ triple ∈ ontology.written supply
  uncancelled : config.cancelled = false

/-- The triples that are written of an ontology are loaded without a problem, and give it back. -/
theorem loadTriples_of_saved {ontology : Ontology} {supply : Nat → BlankNode} {config : Config} {graph : List Triple}
    (saved : ontology.Saved supply config graph) (number : Nat) (document : Option Iri) :
    ∃ loaded, loadTriples config number document graph = .ok loaded ∧ loaded.Recalls ontology (freshLabel number graph) := by
  obtain ⟨saveable, distinct, fresh, same, uncancelled⟩ := saved
  let known (entity : Entity) : Prop := .entity entity ∈ ontology.components
  let world : World := { World.ofTriples config number graph known with isVariable := ontology.HasVariable, told := ontology.Tells }
  have inside (triple : Triple) : triple ∈ world.graph ↔ triple ∈ graph := TripleStore.mem_rows_ofTriples graph triple
  obtain ⟨header, group, strokes, block, headed, inscription, cover, shared⟩ := drawn_of_written (fun m n equal => distinct equal)
    (saveable.unpointing fun _ => Ontology.mem_components_of_heading) saveable.distinct
    (fun own member => saveable.drawable fresh member) fun triple => (inside triple).trans (same triple)
  have saves : world.Saves ontology supply header group strokes block := ⟨saveable, fun m n equal => distinct equal, fresh, headed, inscription,
    cover, shared, fun _ => Iff.rfl, fun _ => Iff.rfl, fun _ => Iff.rfl⟩
  -- The labels of the load and the injective ones agree on the graph.
  have agree (node : BlankNode) (mentioned : Mentioned world.graph node) : world.anonymous node = freshLabel number graph node := by
    have listed : node ∈ blankNodes graph := mem_blankNodes.mpr (mentioned.mono fun triple => (inside triple).mp)
    exact (World.anonymous_ofTriples listed : (World.ofTriples config number graph known).anonymous node = _)
  have labels : ∀ a b, Mentioned world.graph a → Mentioned world.graph b → world.anonymous a = world.anonymous b → a = b := by
    intro a b first second equal
    rw [agree a first, agree b second] at equal
    exact freshLabel_injective equal
  obtain ⟨loaded, run, gives⟩ := loadTriples_of_laidOut saves.coherent.settled (saves.laidOut labels) uncancelled document
  refine ⟨loaded, run, gives.reports, gives.id, gives.imports, ?_, fun fact => ?_⟩
  · have renamed : ontology.annotations.map ( Annotation.rename world.anonymous) =
        ontology.annotations.map ( Annotation.rename (freshLabel number graph)) := by
      have kept : ontology.annotations.map ( Annotation.rename id) = ontology.annotations :=
        (List.map_congr_left fun note _ => note.rename_id).trans (List.map_id' _)
      have renamed := Annotation.rename_compEach (f := id) ontology.annotations fun node member =>
        agree node (((saves.described saves.heading).mentioned member).mono saves.heading.subset)
      rwa [kept] at renamed
    exact renamed ▸ gives.annotations
  · rw [gives.facts fact, saves.tells_iff labels]
    have rename {stroke : Stroke} (listed : stroke ∈ strokes) : AnnotatedAxiom.rename world.anonymous ⟨stroke.bare, stroke.notes⟩ =
        AnnotatedAxiom.rename (freshLabel number graph) ⟨stroke.bare, stroke.notes⟩ := by
      refine AnnotatedAxiom.rename_congr fun node member => agree node ?_
      rcases List.mem_append.mp member with bare | notes
      · exact saves.mentioned listed bare
      · exact saves.note_mentioned listed ( Annotation.componentsEach_eq _ ▸ notes)
    constructor
    · rintro ⟨stroke, listed, rfl⟩
      obtain ⟨own, member, piece, notes⟩ := saves.origin listed
      exact ⟨own, member, stroke.bare, piece, notes ▸ rename listed⟩
    · rintro ⟨own, member, piece, part, rfl⟩
      obtain ⟨stroke, listed, rfl, notes⟩ := saves.inscription.pieces own member piece part
      exact ⟨stroke, listed, notes ▸ (rename listed).symm⟩

end OwlGraph
