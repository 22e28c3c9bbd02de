import OwlGraph.Proofs.Saveable
import OwlGraph.Proofs.Strokes

/-! The graph of a saved ontology, told apart. Every triple belongs to the header, to its annotations, to
a variable or to one piece of an axiom, and there it leads the piece, describes an operand or belongs
to the annotations. What a node points at is said in one place only. -/

namespace OwlGraph

open Rendering

/-- The triple claims an annotation of the node or of a node that stands for one, or it makes a fresh node stand for one. -/
def Remarking (supply : Nat → BlankNode) (graph : List Triple) (node : Node) (triple : Triple) : Prop :=
  triple.predicate.isPlain = true ∧ (triple.subject = node ∨ (⟨triple.subject, Rdf.type, Owl.Annotation⟩ : Triple) ∈ graph) ∨
    Pointing Owl.Annotation triple ∧ ∃ number, triple.subject = supply number

theorem Remarking.apposed {supply : Nat → BlankNode} {graph : List Triple} {node : Node} {triple : Triple}
    (remarking : Remarking supply graph node triple) : Apposed triple :=
  remarking.imp And.left fun points => ⟨Owl.Annotation, by simp [Role.pointerTypes], points.1⟩

/-- No annotation is a node that points at an axiom. -/
theorem Remarking.not_axiom {supply : Nat → BlankNode} {graph : List Triple} {node other : Node} :
    ¬ Remarking supply graph node ⟨other, Rdf.type, Owl.Axiom⟩ := by
  have apart : (Owl.Axiom : Term) ≠ Owl.Annotation ∧ Rdf.type ∉ Role.pointerPredicates := by decide
  rintro (⟨plain, -⟩ | ⟨⟨-, object⟩ | points, -⟩)
  · exact ne_of_plain plain (by simp [Role.predicates]) rfl
  · exact apart.1 object
  · exact apart.2 points

/-- What is written of annotations with plain properties. -/
theorem Rendering.Annotated.remarking {supply : Nat → BlankNode} {graph block : List Triple} {node : Node} {notes : List Annotation}
    (annotated : Annotated supply graph node notes block)
    (plain : ∀ iri, .annotationProperty iri ∈ Annotation.componentsEach notes → iri.isPlain = true) :
    ∀ triple ∈ block, Remarking supply graph node triple := by
  obtain ⟨first, last, noted, isSealed, described⟩ := annotated
  have each := described (fun _ _ => False) ⟨isSealed, fun _ _ _ => False.elim⟩
  intro triple member
  rcases each.place triple member with points | ⟨property, subject⟩
  · refine .inr ⟨points, ?_⟩
    rcases noted.subjects triple member with ⟨note, inside, rfl⟩ | ⟨number, -, -, own⟩
    · refine absurd (plain _ ?_) (not_plain_of_pointing points)
      exact Annotation.property_mem_components inside
    · exact ⟨number, own⟩
  · exact .inl ⟨plain _ property, subject⟩

namespace Stroke

/-- The triples of the annotations themselves, without those of a node that points at the triple. -/
def noted (stroke : Stroke) : List Triple :=
  if stroke.bare.isGathered then stroke.own.tail else stroke.own.drop 4

end Stroke

namespace Rendering.Inscribed

variable {supply : Nat → BlankNode} {graph : List Triple} {stroke : Stroke}

theorem stated (inscribed : Inscribed supply graph stroke) (loose : stroke.bare.isGathered = false) :
    stroke.bare.Stated graph stroke.main stroke.operands := by
  cases inscribed with
  | plain stated => exact stated
  | pointed stated => exact stated
  | gathered large => cases large.symm.trans loose

/-- Annotations of the piece are on a node that points at its triple. -/
theorem pointer (inscribed : Inscribed supply graph stroke) (loose : stroke.bare.isGathered = false) :
    (stroke.notes = [] ∧ stroke.own = []) ∨ stroke.notes ≠ [] ∧ ∃ number,
      stroke.own = triplesAt (supply number) (pointerValues Owl.Axiom stroke.main) ++ stroke.noted ∧
      (∀ triple ∈ graph, triple.subject = supply number → triple ∈ triplesAt (supply number) (pointerValues Owl.Axiom stroke.main) ∨
        ∃ note ∈ stroke.notes, triple = note.claim (supply number)) ∧
      Annotated supply graph (supply number) stroke.notes stroke.noted := by
  cases inscribed with
  | plain => exact .inl ⟨rfl, rfl⟩
  | @pointed bare notes main operands block number stated filled alone annotated =>
    have rest : (⟨bare, notes, main, operands, triplesAt (supply number) (pointerValues Owl.Axiom main) ++ block⟩ : Stroke).noted = block := by
      rw [Stroke.noted, if_neg (by rw [loose]; exact Bool.false_ne_true)]
      rfl
    rw [rest]
    exact .inr ⟨filled, number, rfl, alone, annotated⟩
  | gathered large => cases large.symm.trans loose

/-- The node that gathers the operands and carries the annotations. -/
theorem carrier (inscribed : Inscribed supply graph stroke) (large : stroke.bare.isGathered = true) : ∃ number type values operands,
    stroke.main = ⟨supply number, Rdf.type, (type : Iri)⟩ ∧ stroke.operands = operands ++ triplesAt (supply number) values ∧
      stroke.own = stroke.main :: stroke.noted ∧ stroke.bare.Gathered graph type values operands ∧
      (∀ triple ∈ graph, triple.subject = supply number →
        triple ∈ triplesAt (supply number) ((Rdf.type, (type : Term)) :: values) ∨ ∃ note ∈ stroke.notes, triple = note.claim (supply number)) ∧
      Annotated supply graph (supply number) stroke.notes stroke.noted := by
  cases inscribed with
  | plain stated => cases large.symm.trans (Axiom.loose_of_stated stated)
  | pointed stated => cases large.symm.trans (Axiom.loose_of_stated stated)
  | @gathered bare notes type values operands block number large gathered alone annotated =>
    have rest : (⟨bare, notes, ⟨supply number, Rdf.type, type⟩, operands ++ triplesAt (supply number) values,
        ⟨supply number, Rdf.type, type⟩ :: block⟩ : Stroke).noted = block := by
      rw [Stroke.noted, if_pos large]
      rfl
    rw [rest]
    exact ⟨number, type, values, operands, rfl, rfl, rfl, gathered, alone, annotated⟩

/-- The annotations of the piece are written somewhere, if there are any. -/
theorem annotated (inscribed : Inscribed supply graph stroke) :
    stroke.noted = [] ∨ ∃ number, Annotated supply graph (supply number) stroke.notes stroke.noted := by
  cases large : stroke.bare.isGathered with
  | true =>
    obtain ⟨number, _, _, _, -, -, -, -, -, annotated⟩ := inscribed.carrier large
    exact .inr ⟨number, annotated⟩
  | false =>
    rcases inscribed.pointer large with ⟨-, none⟩ | ⟨-, number, -, -, annotated⟩
    · left
      rw [Stroke.noted, none]
      split <;> rfl
    · exact .inr ⟨number, annotated⟩

/-- What the annotations take besides: the triple that leads the piece, or those that point at it. -/
theorem own_cases (inscribed : Inscribed supply graph stroke) : ∀ triple ∈ stroke.own,
    (stroke.bare.isGathered = true ∧ triple = stroke.main) ∨
    (stroke.bare.isGathered = false ∧ ∃ number, triple ∈ triplesAt (supply number) (pointerValues Owl.Axiom stroke.main)) ∨
    triple ∈ stroke.noted := by
  intro triple member
  cases large : stroke.bare.isGathered with
  | true =>
    obtain ⟨_, _, _, _, -, -, own, -⟩ := inscribed.carrier large
    rw [own] at member
    exact (List.mem_cons.mp member).imp (fun same => ⟨rfl, same⟩) .inr
  | false =>
    rcases inscribed.pointer large with ⟨-, none⟩ | ⟨-, number, own, -⟩
    · rw [none] at member
      cases member
    · rw [own] at member
      exact .inr ((List.mem_append.mp member).imp_left fun inside => ⟨rfl, number, inside⟩)

theorem noted_subset (inscribed : Inscribed supply graph stroke) : ∀ triple ∈ stroke.noted, triple ∈ stroke.own := by
  intro triple member
  cases large : stroke.bare.isGathered with
  | true =>
    obtain ⟨_, _, _, _, -, -, own, -⟩ := inscribed.carrier large
    rw [own]
    exact List.mem_cons_of_mem _ member
  | false =>
    rcases inscribed.pointer large with ⟨-, none⟩ | ⟨-, number, own, -⟩
    · rw [Stroke.noted, none] at member
      split at member <;> cases member
    · rw [own]
      exact List.mem_append_right _ member

end Rendering.Inscribed

namespace World

/-- The graph is what is written of the ontology, and known is what the ontology says. -/
structure Saves (world : World) (ontology : Ontology) (supply : Nat → BlankNode) (header : Node) (group : List Triple)
    (strokes : List Stroke) (block : List Triple) : Prop where
  saveable : ontology.Saveable world.limit
  injective : ∀ m n, supply m = supply n → m = n
  fresh : ∀ number, supply number ∉ ontology.blanks
  headed : Headed supply world.graph ontology header group
  inscription : Inscription supply world.graph ontology.axioms strokes block
  cover : ∀ triple, triple ∈ world.graph ↔ triple ∈ headerTriples ontology header ++ group ∨ triple ∈ block
  shared : ∀ triple ∈ headerTriples ontology header ++ group, triple ∈ block → ∀ number, triple.subject ≠ supply number
  known : ∀ entity, world.known entity ↔ .entity entity ∈ ontology.components
  told : ∀ entity, world.told entity ↔ ontology.Tells entity
  isVariable : ∀ iri, world.isVariable iri ↔ ontology.HasVariable iri

namespace Saves

variable {world : World} {ontology : Ontology} {supply : Nat → BlankNode} {header : Node} {group : List Triple}
  {strokes : List Stroke} {block : List Triple} (saves : world.Saves ontology supply header group strokes block)
include saves

section Origin

variable {stroke : Stroke} (listed : stroke ∈ strokes)
include listed

theorem inscribed : Inscribed supply world.graph stroke := saves.inscription.inscribed stroke listed

/-- The axiom that the piece comes from. -/
theorem origin : ∃ fact ∈ ontology.axioms, stroke.bare ∈ fact.bare.pieces ∧ stroke.notes = fact.annotations :=
  saves.inscription.source stroke listed

theorem component : ∀ component ∈ stroke.bare.components, component ∈ ontology.components := by
  obtain ⟨fact, member, piece, -⟩ := saves.origin listed
  exact fun component inside =>
    Ontology.mem_components_of_bare member (Axiom.components_of_piece (Axiom.hasPiece_of_mem piece) component inside)

theorem note_component : ∀ component ∈ Annotation.componentsEach stroke.notes, component ∈ ontology.components := by
  obtain ⟨fact, member, -, notes⟩ := saves.origin listed
  exact fun component inside => Ontology.mem_components_of_note member (notes ▸ inside)

theorem valid : stroke.bare.WellFormed world.limit := by
  obtain ⟨fact, member, piece, -⟩ := saves.origin listed
  exact Axiom.wellFormed_of_piece (Axiom.hasPiece_of_mem piece) (saves.saveable.facts fact member).valid

theorem fitting : stroke.bare.Fitting := by
  obtain ⟨fact, member, piece, -⟩ := saves.origin listed
  exact Axiom.fitting_of_piece (Axiom.hasPiece_of_mem piece) (saves.saveable.facts fact member).fitting

theorem leading (loose : stroke.bare.isGathered = false) : Leading stroke.bare stroke.main :=
  Axiom.leading_of_stated ((saves.inscribed listed).stated loose) (saves.valid listed).1 (saves.fitting listed)

theorem mem_block {triple : Triple} (member : triple ∈ stroke.triples) : triple ∈ block :=
  (saves.inscription.cover triple).mpr (.inr ⟨stroke, listed, member⟩)

theorem mem_graph {triple : Triple} (member : triple ∈ stroke.triples) : triple ∈ world.graph :=
  (saves.cover triple).mpr (.inr (saves.mem_block listed member))

theorem main_mem : stroke.main ∈ world.graph := saves.mem_graph listed List.mem_cons_self

theorem own_mem : ∀ triple ∈ stroke.own, triple ∈ block :=
  fun _ member => saves.mem_block listed (List.mem_cons_of_mem _ (List.mem_append_right _ member))

/-- What describes the operands is part of a construct, and about fresh nodes. -/
theorem operand {triple : Triple} (member : triple ∈ stroke.operands) :
    triple ∈ world.graph ∧ Part world.graph triple ∧ ∃ number, triple.subject = supply number := by
  have part : Part world.graph triple := by
    have inscribed := saves.inscribed listed
    cases large : stroke.bare.isGathered with
    | false => exact (inscribed.stated large).part (saves.valid listed).1 triple member
    | true =>
      obtain ⟨number, type, values, operands, -, whole, -, gathered, -⟩ := inscribed.carrier large
      rw [whole] at member
      rcases List.mem_append.mp member with inside | own
      · exact gathered.part (saves.valid listed).1 triple inside
      · obtain ⟨value, inside, rfl⟩ := List.mem_map.mp own
        exact .inr (.inl (gathered.inner.2 value inside))
  refine ⟨saves.mem_graph listed (List.mem_cons_of_mem _ (List.mem_append_left _ member)), part, ?_⟩
  refine (saves.inscription.introduced stroke listed triple member).resolve_right ?_
  rintro ⟨iri, rfl⟩
  exact part.not_framing (framing_variable iri)

theorem own_fresh {triple : Triple} (member : triple ∈ stroke.own) : ∃ number, triple.subject = supply number :=
  (saves.inscribed listed).fresh triple member

theorem noted_remarking {number : Nat} (annotated : Annotated supply world.graph (supply number) stroke.notes stroke.noted) :
    ∀ triple ∈ stroke.noted, Remarking supply world.graph (supply number) triple :=
  annotated.remarking fun iri member => saves.saveable.plain iri (saves.note_component listed _ member)

theorem noted_apposed {triple : Triple} (member : triple ∈ stroke.noted) : Apposed triple := by
  rcases (saves.inscribed listed).annotated with none | ⟨number, annotated⟩
  · rw [none] at member
    cases member
  · exact (saves.noted_remarking listed annotated triple member).apposed

/-- The node that gathers operands has no type that frames or annotates anything. -/
theorem main_gathered (large : stroke.bare.isGathered = true) : ∃ number type, stroke.main = ⟨supply number, Rdf.type, (type : Iri)⟩ ∧
    type ∈ Role.axiomTypes := by
  obtain ⟨number, type, _, _, same, -, -, gathered, -⟩ := (saves.inscribed listed).carrier large
  exact ⟨number, type, same, gathered.inner.1⟩

theorem own_apposed {triple : Triple} (member : triple ∈ stroke.own) :
    stroke.bare.isGathered = true ∧ triple = stroke.main ∨ Apposed triple := by
  rcases (saves.inscribed listed).own_cases triple member with gathers | ⟨-, number, points⟩ | noted
  · exact .inl gathers
  · exact .inr (.inr ⟨Owl.Axiom, by simp [Role.pointerTypes], pointing_triplesAt points⟩)
  · exact .inr (saves.noted_apposed listed noted)

theorem main_not_framing : ¬ Framing stroke.main := by
  have types : ∀ type ∈ Role.axiomTypes, type ≠ Owl.Ontology ∧ type ≠ Swrl.Variable := by decide
  have untyped : Rdf.type ∉ [Owl.versionIRI, Owl.imports] := by decide
  cases large : stroke.bare.isGathered with
  | false => exact (saves.leading listed large).not_framing
  | true =>
    obtain ⟨number, type, same, known⟩ := saves.main_gathered listed large
    rw [same]
    rintro (heads | ⟨-, object⟩)
    · exact untyped heads
    · simp [types type known] at object

end Origin

section Header

theorem group_remarking : ∀ triple ∈ group, Remarking supply world.graph header triple :=
  saves.headed.annotated.remarking fun iri member => saves.saveable.plain iri (Ontology.mem_components_of_heading member)

theorem foreign {node : BlankNode} (component : .anonymous node ∈ ontology.components) (number : Nat) : node ≠ supply number :=
  fun same => saves.fresh number (Ontology.mem_blanks.mpr (same ▸ component))

theorem outer_ne_fresh {stroke : Stroke} (listed : stroke ∈ strokes) {node : Node} (outer : stroke.bare.Outer node) (number : Nat) :
    node ≠ supply number := by
  rcases outer with ⟨iri, rfl, -⟩ | ⟨blank, rfl, component⟩
  · exact nofun
  · exact fun same => saves.foreign (saves.component listed _ component) number (Node.blank.inj same)

theorem outer_ne_header {stroke : Stroke} (listed : stroke ∈ strokes) {node : Node} (outer : stroke.bare.Outer node) : node ≠ header := by
  rcases saves.headed.named with ⟨iri, named, rfl⟩ | ⟨-, number, rfl, -⟩
  · rintro rfl
    rcases outer with ⟨other, same, component, inside, called⟩ | ⟨blank, same, -⟩
    · cases same
      obtain ⟨fact, member, piece, -⟩ := saves.origin listed
      have within := Axiom.components_of_piece (Axiom.hasPiece_of_mem piece) component inside
      exact (saves.saveable.named iri named).2 fact member component within called
    · cases same
  · exact saves.outer_ne_fresh listed outer number

/-- Where a triple of the graph stands. -/
theorem place {triple : Triple} (member : triple ∈ world.graph) : triple ∈ headerTriples ontology header ∨ triple ∈ group ∨
    (∃ iri, ontology.HasVariable iri ∧ triple = variableTriple iri) ∨
    ∃ stroke ∈ strokes, triple = stroke.main ∨ triple ∈ stroke.operands ∨ triple ∈ stroke.own := by
  rcases (saves.cover triple).mp member with inside | inside
  · exact (List.mem_append.mp inside).imp_right .inl
  · refine .inr (.inr (((saves.inscription.cover triple).mp inside).imp ?_ ?_))
    · exact fun ⟨fact, listed, iri, named, same⟩ => ⟨iri, ⟨fact, listed, named⟩, same⟩
    · exact fun ⟨stroke, listed, within⟩ => ⟨stroke, listed, (List.mem_cons.mp within).imp_right List.mem_append.mp⟩

/-- The subject of what leads a piece is a name or an individual of it, or a node about which an operand is described. -/
theorem main_subject {stroke : Stroke} (listed : stroke ∈ strokes) (loose : stroke.bare.isGathered = false) :
    stroke.bare.Outer stroke.main.subject ∨ (∃ number, stroke.main.subject = supply number) ∧
      ∀ type ∈ Role.specialTypes, (⟨stroke.main.subject, Rdf.type, type⟩ : Triple) ∉ world.graph := by
  rcases Axiom.subject_of_stated ((saves.inscribed listed).stated loose) with named | ⟨⟨triple, inside, same⟩, plain⟩ | anonymous
  · exact .inl (.inl named)
  · obtain ⟨-, -, number, own⟩ := saves.operand listed inside
    exact .inr ⟨⟨number, (Term.resource.inj same).trans own⟩, plain _ rfl⟩
  · exact .inl (.inr anonymous)

/-- About the node of the ontology nothing is said but its header and its annotations. -/
theorem about {triple : Triple} (member : triple ∈ world.graph) (own : triple.subject = header) :
    triple ∈ headerTriples ontology header ∨ ∃ note ∈ ontology.annotations, triple = note.claim header := by
  rcases saves.headed.named with ⟨iri, named, rfl⟩ | ⟨-, number, rfl, alone⟩
  · have apart : ∀ number, triple.subject ≠ supply number := fun number same => nomatch own.symm.trans same
    rcases saves.place member with heads | within | ⟨other, declared, rfl⟩ | ⟨stroke, listed, rfl | inside | inside⟩
    · exact .inl heads
    · obtain ⟨first, last, noted, -⟩ := saves.headed.annotated
      refine .inr ((noted.subjects triple within).resolve_right ?_)
      exact fun ⟨number, _, _, same⟩ => apart number same
    · cases own
      exact absurd declared (saves.saveable.named iri named).1
    · cases large : stroke.bare.isGathered with
      | true =>
        obtain ⟨number, _, same, -⟩ := saves.main_gathered listed large
        exact absurd (by rw [same]) (apart number)
      | false =>
        rcases saves.main_subject listed large with outer | ⟨⟨number, same⟩, -⟩
        · exact absurd own (saves.outer_ne_header listed outer)
        · exact absurd same (apart number)
    · obtain ⟨-, -, number, same⟩ := saves.operand listed inside
      exact absurd same (apart number)
    · obtain ⟨number, same⟩ := saves.own_fresh listed inside
      exact absurd same (apart number)
  · exact alone triple member own

/-- So it is not the subject of what leads a piece. -/
theorem main_ne_header {stroke : Stroke} (listed : stroke ∈ strokes) : stroke.main.subject ≠ header := by
  intro own
  rcases saves.about (saves.main_mem listed) own with heads | ⟨note, inside, same⟩
  · exact saves.main_not_framing listed (framing_header heads)
  · have plain : stroke.main.predicate.isPlain = true := by
      rw [same]
      exact saves.saveable.plain _ (Ontology.mem_components_of_heading ( Annotation.property_mem_components inside))
    cases large : stroke.bare.isGathered with
    | true =>
      obtain ⟨number, type, gathers, -⟩ := saves.main_gathered listed large
      rw [gathers] at plain
      exact ne_of_plain plain (by simp [Role.predicates]) rfl
    | false => exact saves.outer_ne_header listed ((saves.leading listed large).outer_of_apposed (.inl plain)) own

end Header

section Types

/-- The types that are written: of the ontology, of variables, of fresh nodes, and those that state axioms. -/
theorem type {node : Node} {object : Term} (member : (⟨node, Rdf.type, object⟩ : Triple) ∈ world.graph) :
    (node = header ∧ object = Owl.Ontology) ∨ (object = Swrl.Variable ∧ ∃ iri, node = .named iri ∧ ontology.HasVariable iri) ∨
      ((∃ number, node = supply number) ∧ object ≠ Owl.Ontology) ∨
      ∃ stroke ∈ strokes, stroke.bare.isGathered = false ∧ stroke.bare.Outer node ∧ stroke.main = ⟨node, Rdf.type, object⟩ := by
  have fresh (number : Nat) (own : node = supply number) (unframed : ¬ Framing ⟨node, Rdf.type, object⟩) :
      (∃ number, node = supply number) ∧ object ≠ Owl.Ontology :=
    ⟨⟨number, own⟩, fun same => unframed (.inr ⟨rfl, .inl same⟩)⟩
  rcases saves.place member with heads | within | ⟨iri, declared, same⟩ | ⟨stroke, listed, same | inside | inside⟩
  · have apart : Owl.versionIRI ≠ Rdf.type ∧ Owl.imports ≠ Rdf.type := by decide
    exact .inl (by simpa [headerTriples, apart] using heads)
  · rcases saves.group_remarking _ within with ⟨plain, -⟩ | ⟨points, number, own⟩
    · exact absurd rfl (ne_of_plain plain (by simp [Role.predicates]))
    · exact .inr (.inr (.inl (fresh number own (Apposed.not_framing (.inr ⟨_, by simp [Role.pointerTypes], points⟩)))))
  · cases same
    exact .inr (.inl ⟨rfl, iri, rfl, declared⟩)
  · have unframed : ¬ Framing ⟨node, Rdf.type, object⟩ := same ▸ saves.main_not_framing listed
    cases large : stroke.bare.isGathered with
    | true =>
      obtain ⟨number, type, gathers, -⟩ := saves.main_gathered listed large
      exact .inr (.inr (.inl (fresh number (congrArg Triple.subject (same.trans gathers)) unframed)))
    | false =>
      rcases saves.main_subject listed large with outer | ⟨⟨number, own⟩, -⟩
      · exact .inr (.inr (.inr ⟨stroke, listed, large, by rwa [← same] at outer, same.symm⟩))
      · exact .inr (.inr (.inl (fresh number ((congrArg Triple.subject same).trans own) unframed)))
  · obtain ⟨-, part, number, own⟩ := saves.operand listed inside
    exact .inr (.inr (.inl (fresh number own part.not_framing)))
  · obtain ⟨number, own⟩ := saves.own_fresh listed inside
    refine .inr (.inr (.inl (fresh number own ?_)))
    rcases saves.own_apposed listed inside with ⟨-, same⟩ | apposed
    · exact same ▸ saves.main_not_framing listed
    · exact apposed.not_framing

/-- A type of a node that is not fresh is no type by which a node gathers operands, points at a triple or is an atom. -/
theorem not_special {node : Node} (foreign : ∀ number, node ≠ supply number) : ∀ type ∈ Role.specialTypes,
    (⟨node, Rdf.type, type⟩ : Triple) ∉ world.graph := by
  have apart : Owl.Ontology ∉ Role.specialTypes ∧ Swrl.Variable ∉ Role.specialTypes := by decide
  have kinds : ∀ kind ∈ EntityKind.all, kind.type ∉ Role.specialTypes := by decide
  have traits : ∀ trait ∈ Characteristic.all, trait.type ∉ Role.specialTypes := by decide
  intro type special member
  have known : type ∈ Role.types := by
    simp only [Role.types, List.mem_append]
    exact .inl (.inl (.inl (.inr special)))
  rcases saves.type member with ⟨-, same⟩ | ⟨same, -⟩ | ⟨⟨number, own⟩, -⟩ | ⟨stroke, listed, loose, -, main⟩
  · exact apart.1 (Node.named.inj (Term.resource.inj same) ▸ special)
  · exact apart.2 (Node.named.inj (Term.resource.inj same) ▸ special)
  · exact foreign number own
  · have leading := saves.leading listed loose
    rw [main] at leading
    generalize triple : (⟨node, Rdf.type, type⟩ : Triple) = found at leading
    cases leading with
    | declaring entity =>
      obtain rfl : type = entity.kind.type := Node.named.inj (Term.resource.inj (congrArg Triple.object triple))
      exact kinds _ (by cases entity.kind <;> simp [EntityKind.all]) special
    | typing _ _ typed =>
      cases triple
      rcases typed with ⟨trait, same⟩ | other
      · obtain rfl : type = trait.type := Node.named.inj (Term.resource.inj same)
        exact traits _ (by cases trait <;> simp [Characteristic.all]) special
      · exact other type known rfl
    | asserting _ plain =>
      cases triple
      exact ne_of_plain plain (by simp [Role.predicates]) rfl
    | relating _ relation =>
      have untyped : Rdf.type ∉ Role.classAxiomPredicates ++ Role.propertyAxiomPredicates := by decide
      cases triple
      exact untyped relation

end Types

section Notes

/-- What is written of annotations, and of what points at a triple, leads no piece. -/
theorem ne_main {triple : Triple} (apposed : Apposed triple) (own : triple.subject = header ∨ ∃ number, triple.subject = supply number)
    {stroke : Stroke} (listed : stroke ∈ strokes) : triple ≠ stroke.main := by
  rintro rfl
  cases large : stroke.bare.isGathered with
  | true =>
    have types : ∀ type ∈ Role.axiomTypes, type ∉ Role.pointerTypes := by decide
    have untyped : Rdf.type ∉ Role.pointerPredicates := by decide
    obtain ⟨number, type, same, known⟩ := saves.main_gathered listed large
    rw [same] at apposed
    rcases apposed with plain | ⟨other, pointing, ⟨-, object⟩ | points⟩
    · exact ne_of_plain plain (by simp [Role.predicates]) rfl
    · obtain rfl : type = other := Node.named.inj (Term.resource.inj object)
      exact types type known pointing
    · exact untyped points
  | false =>
    have outer := (saves.leading listed large).outer_of_apposed apposed
    rcases own with same | ⟨number, same⟩
    · exact saves.outer_ne_header listed outer same
    · exact saves.outer_ne_fresh listed outer number same

/-- Pieces of which the annotations take the same triple are the same. -/
theorem stroke_eq {one two : Stroke} (first : one ∈ strokes) (second : two ∈ strokes) {triple : Triple} (inside : triple ∈ one.own)
    (within : triple ∈ two.own) : one = two := by
  by_contra different
  exact saves.inscription.apart.forall first second different triple inside within

omit saves in
/-- Annotations and what is written of them: those of the ontology, or those of a piece. -/
inductive Carrying (supply : Nat → BlankNode) (graph : List Triple) (ontology : Ontology) (header : Node) (group : List Triple)
    (strokes : List Stroke) : Node → List Annotation → List Triple → Prop
  | heading (annotated : Annotated supply graph header ontology.annotations group) :
    Carrying supply graph ontology header group strokes header ontology.annotations group
  | piece {stroke : Stroke} {number : Nat} (listed : stroke ∈ strokes)
      (annotated : Annotated supply graph (supply number) stroke.notes stroke.noted) :
    Carrying supply graph ontology header group strokes (supply number) stroke.notes stroke.noted

variable {node : Node} {notes : List Annotation} {part : List Triple}

omit saves in
theorem Carrying.annotated (carrying : Carrying supply world.graph ontology header group strokes node notes part) :
    Annotated supply world.graph node notes part := by
  cases carrying with
  | heading annotated => exact annotated
  | piece _ annotated => exact annotated

omit saves in
/-- What is written of annotations is about the node that carries them or a fresh one. -/
theorem Carrying.subject (carrying : Carrying supply world.graph ontology header group strokes node notes part) {triple : Triple}
    (member : triple ∈ part) : triple.subject = header ∨ ∃ number, triple.subject = supply number := by
  obtain ⟨first, last, noted, -⟩ := carrying.annotated
  rcases noted.subjects triple member with ⟨note, -, rfl⟩ | ⟨number, -, -, own⟩
  · cases carrying with
    | heading => exact .inl rfl
    | @piece _ number => exact .inr ⟨number, rfl⟩
  · exact .inr ⟨number, own⟩

theorem carrying_apposed (carrying : Carrying supply world.graph ontology header group strokes node notes part) {triple : Triple}
    (member : triple ∈ part) : Apposed triple := by
  cases carrying with
  | heading => exact (saves.group_remarking triple member).apposed
  | piece listed => exact saves.noted_apposed listed member

/-- What is written of the annotations of the ontology is written of nothing else. -/
theorem group_apart {triple : Triple} (member : triple ∈ group) {stroke : Stroke} (listed : stroke ∈ strokes) : triple ∉ stroke.own := by
  intro inside
  obtain ⟨number, own⟩ := saves.own_fresh listed inside
  exact saves.shared triple (List.mem_append_right _ member) (saves.own_mem listed triple inside) number own

theorem carrying_eq (carrying : Carrying supply world.graph ontology header group strokes node notes part) {other : Node}
    {more : List Annotation} {rest : List Triple} (also : Carrying supply world.graph ontology header group strokes other more rest)
    {triple : Triple} (inside : triple ∈ part) (within : triple ∈ rest) : part = rest := by
  cases carrying with
  | heading =>
    cases also with
    | heading => rfl
    | piece listed => exact absurd ((saves.inscribed listed).noted_subset triple within) (saves.group_apart inside listed)
  | piece listed =>
    cases also with
    | heading => exact absurd ((saves.inscribed listed).noted_subset triple inside) (saves.group_apart within listed)
    | piece present =>
      rw [saves.stroke_eq listed present ((saves.inscribed listed).noted_subset triple inside)
        ((saves.inscribed present).noted_subset triple within)]

/-- A triple by which a node points somewhere belongs to annotations, or makes it point at what leads a piece. -/
theorem pointing {other : Node} {predicate : Iri} {object : Term} (points : predicate ∈ Role.pointerPredicates)
    (member : (⟨other, predicate, object⟩ : Triple) ∈ world.graph) :
    (∃ node notes part, Carrying supply world.graph ontology header group strokes node notes part ∧
      (⟨other, predicate, object⟩ : Triple) ∈ part) ∨
    ∃ stroke ∈ strokes, ∃ number, other = supply number ∧ ∀ triple ∈ world.graph, triple.subject = supply number →
      triple ∈ triplesAt (supply number) (pointerValues Owl.Axiom stroke.main) ∨ ∃ note ∈ stroke.notes, triple = note.claim (supply number) := by
  have apposed : Apposed ⟨other, predicate, object⟩ := .inr ⟨Owl.Axiom, by simp [Role.pointerTypes], .inr points⟩
  rcases saves.place member with heads | within | ⟨iri, -, same⟩ | ⟨stroke, listed, same | inside | inside⟩
  · exact absurd (framing_header heads) apposed.not_framing
  · exact .inl ⟨_, _, _, .heading saves.headed.annotated, within⟩
  · exact absurd (same ▸ framing_variable iri) apposed.not_framing
  · have plain := not_plain_of_points points
    have untyped : Rdf.type ∉ Role.pointerPredicates := by decide
    cases large : stroke.bare.isGathered with
    | true =>
      obtain ⟨number, type, main, -⟩ := saves.main_gathered listed large
      cases same.trans main
      exact absurd points untyped
    | false =>
      have relations : ∀ predicate ∈ Role.classAxiomPredicates ++ Role.propertyAxiomPredicates, predicate ∉ Role.pointerPredicates := by
        decide +kernel
      have leading := saves.leading listed large
      rw [← same] at leading
      generalize triple : (⟨other, predicate, object⟩ : Triple) = found at leading
      cases leading with
      | declaring | typing =>
        cases triple
        exact absurd points untyped
      | asserting _ asserted =>
        cases triple
        exact absurd asserted plain
      | relating _ relation =>
        cases triple
        exact absurd points (relations _ relation)
  · exact absurd apposed (saves.operand listed inside).2.1.not_apposed
  · have inscribed := saves.inscribed listed
    have fresh := saves.own_fresh listed inside
    cases large : stroke.bare.isGathered with
    | true =>
      obtain ⟨number, _, _, _, -, -, own, -, -, annotated⟩ := inscribed.carrier large
      rw [own] at inside
      refine .inl ⟨_, _, _, .piece listed annotated, (List.mem_cons.mp inside).resolve_left fun same => ?_⟩
      exact saves.ne_main apposed (.inr fresh) listed same
    | false =>
      rcases inscribed.pointer large with ⟨-, none⟩ | ⟨-, number, own, alone, annotated⟩
      · rw [none] at inside
        cases inside
      · rw [own] at inside
        rcases List.mem_append.mp inside with pointer | noted
        · exact .inr ⟨stroke, listed, number, (mem_triplesAt.mp pointer).1, alone⟩
        · exact .inl ⟨_, _, _, .piece listed annotated, noted⟩

theorem note_plain {stroke : Stroke} (listed : stroke ∈ strokes) {note : Annotation} (member : note ∈ stroke.notes) :
    note.property.isPlain = true :=
  saves.saveable.plain _ (saves.note_component listed _ ( Annotation.property_mem_components member))

/-- Of a node that points at what leads a piece, only that is said, and the annotations. -/
theorem value_of_pointer {stroke : Stroke} (listed : stroke ∈ strokes) {number : Nat}
    (alone : ∀ triple ∈ world.graph, triple.subject = supply number →
      triple ∈ triplesAt (supply number) (pointerValues Owl.Axiom stroke.main) ∨ ∃ note ∈ stroke.notes, triple = note.claim (supply number))
    {predicate : Iri} {object : Term} (other : predicate.isPlain ≠ true) (member : (⟨supply number, predicate, object⟩ : Triple) ∈ world.graph) :
    (predicate, object) ∈ pointerValues Owl.Axiom stroke.main := by
  rcases alone _ member rfl with pointer | ⟨note, inside, same⟩
  · exact (mem_triplesAt.mp pointer).2
  · obtain rfl : predicate = note.property := congrArg Triple.predicate same
    exact absurd (saves.note_plain listed inside) other

/-- Who stands for a triple of annotations points at it among them. -/
theorem standing (carrying : Carrying supply world.graph ontology header group strokes node notes part) {triple : Triple}
    (member : triple ∈ part) {other : Node} (stood : world.Reifies other triple) : Points part other triple := by
  obtain ⟨⟨row, present, same, -⟩, -, property, target⟩ := stood
  have source : (⟨other, Owl.annotatedSource, triple.subject⟩ : Triple) ∈ world.graph := same ▸ List.mem_map_of_mem present
  rcases saves.pointing (by simp [Role.pointerPredicates]) source with ⟨_, _, rest, also, inside⟩ | ⟨stroke, listed, number, rfl, alone⟩
  · obtain ⟨first, last, noted, isSealed, -⟩ := also.annotated
    have made := noted.made (by simp [pointerPredicates]) inside
    have points : Points rest other triple := ⟨inside, isSealed.mem_of_made property made, isSealed.mem_of_made target made⟩
    rw [saves.carrying_eq carrying also member (noted.pointed other triple points)]
    exact points
  · have value {predicate : Iri} {object : Term} (pointing : predicate ∈ Role.pointerPredicates)
        (member : (⟨supply number, predicate, object⟩ : Triple) ∈ world.graph) : (predicate, object) ∈ pointerValues Owl.Axiom stroke.main :=
      saves.value_of_pointer listed alone (not_plain_of_points pointing) member
    have led : triple = stroke.main := eq_of_pointerValues (value (by simp [Role.pointerPredicates]) source)
      (value (by simp [Role.pointerPredicates]) property) (value (by simp [Role.pointerPredicates]) target)
    exact absurd led (saves.ne_main (saves.carrying_apposed carrying member) (carrying.subject member) listed)

/-- What is written of annotations describes them. -/
theorem described (carrying : Carrying supply world.graph ontology header group strokes node notes part) :
    Annotation.DescribedEach world.graph world.Reifies node notes part := by
  obtain ⟨first, last, -, isSealed, described⟩ := carrying.annotated
  exact described _ ⟨isSealed, fun triple member other => saves.standing carrying member⟩

omit saves in
theorem Carrying.subset (carrying : Carrying supply world.graph ontology header group strokes node notes part) :
    ∀ triple ∈ part, triple ∈ world.graph := by
  obtain ⟨first, last, -, isSealed, -⟩ := carrying.annotated
  exact isSealed.subset

end Notes

end Saves

end World

end OwlGraph
