import OwlGraph.Proofs.AnnotationDrawing
import OwlGraph.Proofs.Pieces
import OwlGraph.Rendering.Save

/-! Writing axioms with their annotations. Every piece of an axiom leaves the triple that stands for
it, the triples of its operands, and the triples that are written for its annotations: those of the
node that gathers the operands, or of a node that points at the triple. -/

namespace OwlGraph

section Subjects

variable {graph block : List Triple} {term : Term}

/-- The term is a node about which the block says something and that has no special type. -/
def About (graph : List Triple) (term : Term) (block : List Triple) : Prop :=
  (∃ triple ∈ block, term = triple.subject) ∧
    ∀ node : Node, term = node → ∀ type ∈ Role.specialTypes, (⟨node, Rdf.type, type⟩ : Triple) ∉ graph

theorem Construct.subject {value : Iri × Term} {values : List (Iri × Term)} {parts : List Triple}
    (built : Construct graph (value :: values) parts term block) : ∃ triple ∈ block, term = triple.subject := by
  obtain ⟨node, rfl, -, -, rfl⟩ := built
  exact ⟨⟨node, value.1, value.2⟩, List.mem_append_right _ List.mem_cons_self, rfl⟩

/-- A class is named, or there is something about its node in the block. -/
private theorem subject_of_class : ∀ {expression : ClassExpression}, expression.Described graph term block →
    (∃ iri : Iri, expression = .named iri) ∨ ∃ triple ∈ block, term = triple.subject
  | .named iri, _ => .inl ⟨iri, rfl⟩
  | .combination _ _, ⟨_, _, _, _, _, _, built⟩ => .inr built.subject
  | .complement _, ⟨_, _, _, built⟩ => .inr built.subject
  | .oneOf _, ⟨_, _, _, built⟩ => .inr built.subject
  | .objectValues _ _ _, ⟨_, _, _, _, _, _, built⟩ => .inr (Construct.subject built)
  | .objectHasValue _ _, ⟨_, _, _, built⟩ => .inr (Construct.subject built)
  | .hasSelf _, ⟨_, _, _, built⟩ => .inr (Construct.subject built)
  | .objectCardinality _ _ _ none, ⟨_, _, _, built⟩ => .inr (Construct.subject built)
  | .objectCardinality _ _ _ (some _), ⟨_, _, _, _, _, _, built⟩ => .inr (Construct.subject built)
  | .dataValues _ _ _, ⟨_, _, _, built⟩ => .inr (Construct.subject built)
  | .dataHasValue _ _, built => .inr (Construct.subject built)
  | .dataCardinality _ _ _ none, built => .inr (Construct.subject built)
  | .dataCardinality _ _ _ (some _), ⟨_, _, _, built⟩ => .inr (Construct.subject built)

theorem ClassExpression.Described.subject {expression : ClassExpression} (described : expression.Described graph term block) :
    (∃ iri : Iri, term = iri ∧ .cls iri ∈ expression.components) ∨ About graph term block := by
  have plain : ∀ type ∈ [Owl.Class, Owl.Restriction], type ∉ Role.specialTypes := by decide
  rcases subject_of_class described with ⟨iri, rfl⟩ | about
  · exact .inl ⟨iri, described.1, List.mem_singleton_self _⟩
  · rcases World.class_of_described described with ⟨iri, rfl, rfl⟩ | ⟨node, type, rfl, known, single⟩
    · exact .inl ⟨iri, rfl, List.mem_singleton_self _⟩
    · refine .inr ⟨about, fun other same special listed typed => ?_⟩
      obtain rfl := Term.resource.inj same
      obtain rfl := Node.named.inj (Term.resource.inj ((single _).mp typed))
      exact plain _ (by simpa using known) listed

theorem PropertyExpression.Described.subject {expression : PropertyExpression} (described : expression.Described graph term block) :
    (∃ iri : Iri, term = iri ∧ expression = .named iri) ∨ About graph term block := by
  cases expression with
  | named iri => exact .inl ⟨iri, described.1, rfl⟩
  | inverse iri =>
    obtain ⟨node, rfl, -, plain, rfl⟩ := described
    refine .inr ⟨⟨_, List.mem_cons_self, rfl⟩, fun other same => ?_⟩
    rwa [← Term.resource.inj same]

/-- The node is named by the components, or the block says something about it, or it is an anonymous individual among them. -/
def Located (graph : List Triple) (components : List Component) (node : Node) (block : List Triple) : Prop :=
  (∃ iri, node = .named iri ∧ ∃ component ∈ components, component.iri? = some iri) ∨ About graph node block ∨
    ∃ blank, node = .blank blank ∧ .anonymous blank ∈ components

namespace Located

variable {components more : List Component} {node : Node} {iri : Iri}

theorem of_class {expression : ClassExpression} (subset : ∀ component ∈ expression.components, component ∈ components)
    (described : expression.Described graph node block) : Located graph components node block := by
  rcases described.subject with ⟨iri, same, member⟩ | about
  · exact .inl ⟨iri, Term.resource.inj same, _, subset _ member, rfl⟩
  · exact .inr (.inl about)

theorem of_property {expression : PropertyExpression} (listed : .property expression ∈ components)
    (described : expression.Described graph node block) : Located graph components node block := by
  rcases described.subject with ⟨iri, same, rfl⟩ | about
  · exact .inl ⟨iri, Term.resource.inj same, _, listed, rfl⟩
  · exact .inr (.inl about)

theorem of_named {component : Component} (listed : component ∈ components) (named : component.iri? = some iri)
    (standing : Standing iri node block) : Located graph components node block :=
  .inl ⟨iri, Term.resource.inj standing.1, component, listed, named⟩

theorem of_individual {individual : Individual} (listed : .individual individual ∈ components)
    (standing : Standing individual node block) : Located graph components node block := by
  obtain rfl := Term.resource.inj standing.1
  cases node with
  | named iri => exact .inl ⟨iri, rfl, _, listed, rfl⟩
  | blank blank => exact .inr (.inr ⟨blank, rfl, listed⟩)

theorem of_annotated {subject : Node} (listed : .annotated subject ∈ components)
    (standing : Standing subject node block) : Located graph components node block := by
  obtain rfl := Term.resource.inj standing.1
  cases node with
  | named iri => exact .inl ⟨iri, rfl, _, listed, rfl⟩
  | blank blank => exact .inr (.inr ⟨blank, rfl, listed⟩)

end Located

theorem Joined.located {first second : Term → List Triple → Prop} {predicate : Iri} {main : Triple} {components : List Component}
    (joined : Joined first second predicate main block) (known : ∀ (node : Node) left, first node left → Located graph components node left) :
    Located graph components main.subject block := by
  obtain ⟨subject, object, left, right, here, -, rfl, rfl⟩ := joined
  refine (known subject left here).imp_right (Or.imp_left fun ⟨⟨triple, member, same⟩, plain⟩ => ⟨⟨triple, ?_, same⟩, plain⟩)
  exact List.mem_append_left _ member

/-- The subject of the triple that states an axiom is a name or an anonymous individual of the axiom, or the node of
an operand. -/
theorem Axiom.subject_of_stated {bare : Axiom} {main : Triple} (stated : bare.Stated graph main block) :
    Located graph bare.components main.subject block := by
  unfold Axiom.Stated at stated
  split at stated
  all_goals first
    | exact stated.elim
    | exact stated.located fun _ _ => Located.of_named List.mem_cons_self rfl
    | exact stated.located fun _ _ => Located.of_class fun component member => by simp [Axiom.components, member]
    | exact stated.located fun _ _ => Located.of_property (by simp [Axiom.components])
    | exact stated.located fun _ _ => Located.of_individual List.mem_cons_self
    | exact stated.located fun _ _ => Located.of_individual (List.mem_cons_of_mem _ List.mem_cons_self)
    | exact stated.located fun _ _ => Located.of_individual (List.mem_append_right _ List.mem_cons_self)
    | exact stated.located fun _ _ => Located.of_annotated (List.mem_cons_of_mem _ List.mem_cons_self)

end Subjects

/-- The triples that are written of the ontology with these fresh nodes. -/
def Ontology.written (ontology : Ontology) (supply : Nat → BlankNode) : List Triple :=
  ((Rendering.ontology ontology).run supply |>.run {}).2.triples.toList

/-- A piece of an axiom as it is written: the triple that stands for it, the triples that describe its
operands, and those that the annotations take. -/
structure Stroke where
  bare : Axiom
  notes : List Annotation
  main : Triple
  operands : List Triple
  own : List Triple

namespace Stroke

/-- All that is written of the piece. -/
def triples (stroke : Stroke) : List Triple := stroke.main :: (stroke.operands ++ stroke.own)

/-- The annotations of the pieces take different triples. -/
def Apart (one two : Stroke) : Prop := ∀ triple ∈ one.own, triple ∉ two.own

instance : Std.Symm Apart := ⟨fun _ _ apart triple inside within => apart triple within inside⟩

end Stroke

namespace Rendering

variable {supply : Nat → BlankNode} {graph block part : List Triple} {start middle stop limit : Nat}

/-- The annotations are written on the node, and nothing else is said about the nodes that they take. -/
def Annotated (supply : Nat → BlankNode) (graph : List Triple) (node : Node) (notes : List Annotation) (block : List Triple) : Prop :=
  ∃ first last, Noted supply node notes first last block ∧ Sealed supply (fun _ => False) graph first last block ∧
    ∀ stands, Hosts supply graph stands first last block → Annotation.DescribedEach graph stands node notes block

/-- How a piece of an axiom is written. -/
inductive Inscribed (supply : Nat → BlankNode) (graph : List Triple) : Stroke → Prop
  | plain {bare : Axiom} {main : Triple} {operands : List Triple} (stated : bare.Stated graph main operands) :
    Inscribed supply graph ⟨bare, [], main, operands, []⟩
  /-- A node points at the triple. -/
  | pointed {bare : Axiom} {notes : List Annotation} {main : Triple} {operands block : List Triple} {number : Nat}
      (stated : bare.Stated graph main operands) (filled : notes ≠ [])
      (alone : ∀ triple ∈ graph, triple.subject = supply number → triple ∈ triplesAt (supply number) (pointerValues Owl.Axiom main) ∨
        ∃ note ∈ notes, triple = note.claim (supply number))
      (annotated : Annotated supply graph (supply number) notes block) :
    Inscribed supply graph ⟨bare, notes, main, operands, triplesAt (supply number) (pointerValues Owl.Axiom main) ++ block⟩
  /-- The node gathers the operands, and so does it carry the annotations. -/
  | gathered {bare : Axiom} {notes : List Annotation} {type : Iri} {values : List (Iri × Term)} {operands block : List Triple}
      {number : Nat} (large : bare.isGathered = true) (gathered : bare.Gathered graph type values operands)
      (alone : ∀ triple ∈ graph, triple.subject = supply number →
        triple ∈ triplesAt (supply number) ((Rdf.type, (type : Term)) :: values) ∨ ∃ note ∈ notes, triple = note.claim (supply number))
      (annotated : Annotated supply graph (supply number) notes block) :
    Inscribed supply graph ⟨bare, notes, ⟨supply number, Rdf.type, type⟩, operands ++ triplesAt (supply number) values,
      ⟨supply number, Rdf.type, type⟩ :: block⟩

theorem Annotated.fresh {number : Nat} {notes : List Annotation} (annotated : Annotated supply graph (supply number) notes block) :
    ∀ triple ∈ block, ∃ number, triple.subject = supply number := by
  obtain ⟨first, last, noted, -⟩ := annotated
  intro triple member
  rcases noted.subjects triple member with ⟨note, -, rfl⟩ | ⟨other, -, -, own⟩
  · exact ⟨number, rfl⟩
  · exact ⟨other, own⟩

/-- What the annotations take is about fresh nodes. -/
theorem Inscribed.fresh {stroke : Stroke} (inscribed : Inscribed supply graph stroke) :
    ∀ triple ∈ stroke.own, ∃ number, triple.subject = supply number := by
  cases inscribed with
  | plain => exact List.forall_mem_nil _
  | pointed _ _ _ annotated =>
    exact List.forall_mem_append.mpr ⟨fun triple member => ⟨_, (mem_triplesAt.mp member).1⟩, annotated.fresh⟩
  | gathered _ _ _ annotated => exact List.forall_mem_cons.mpr ⟨⟨_, rfl⟩, annotated.fresh⟩

/-- A part of what is written, if the nodes of an inner interval occur in this part only. -/
theorem Sealed.restrict {free : Triple → Prop} (sealed : Sealed supply (fun _ => False) graph start stop block) {low high : Nat}
    (least : start ≤ low) (most : high ≤ stop) (subset : ∀ triple ∈ part, triple ∈ block)
    (only : ∀ triple ∈ block, Made supply low high triple.subject → triple ∈ part ∨ free triple) :
    Sealed supply free graph low high part where
  subset triple member := sealed.subset triple (subset triple member)
  only triple member number lower upper own := by
    have inside := (sealed.only triple member number (by omega) (by omega) own).resolve_right id
    exact only triple inside ⟨number, lower, upper, own⟩

/-- The latter part of what is written, if the former says nothing about its nodes. -/
theorem Sealed.latter (sealed : Sealed supply (fun _ => False) graph start stop (part ++ block)) (least : start ≤ middle)
    (only : ∀ triple ∈ part, ¬ Made supply middle stop triple.subject) : Sealed supply (fun _ => False) graph middle stop block := by
  refine sealed.restrict least (Nat.le_refl _) (fun triple => List.mem_append_right _) fun triple member made => .inl ?_
  exact (List.mem_append.mp member).resolve_left fun inside => only triple inside made

variable (distinct : ∀ m n, supply m = supply n → m = n)
include distinct

/-- Two parts, of which the latter may say about the nodes of the former what is allowed there. -/
theorem Draws.owned {α β : Type} {body : Rendering α} {next : α → Rendering β} {value : α} {result : β} {allowed : Triple → Prop}
    {post : List Triple → β → List Triple → Prop} (emits : Emits supply body start value middle part)
    (within : Within supply start middle part) (later : Emits supply (next value) middle result stop block) (le : middle ≤ stop)
    (bounds : ∀ triple, allowed triple → ∀ number, triple.subject = supply number → start ≤ number ∧ number < middle)
    (placed : ∀ triple ∈ block, allowed triple ∨ Made supply middle stop triple.subject)
    (described : ∀ graph, Sealed supply allowed graph start middle part → Sealed supply (fun _ => False) graph middle stop block →
      post graph result (part ++ block)) : Draws supply (fun _ => False) (body >>= next) start post := by
  have lower := within.le
  refine ⟨result, stop, part ++ block, emits.bind later, ⟨by omega, fun triple member number same => ?_⟩, fun graph sealed => ?_⟩
  · rcases List.mem_append.mp member with inside | inside
    · have := within.subjects triple inside number same
      omega
    · rcases placed triple inside with free | made
      · have := bounds triple free number same
        omega
      · have := made.bounds distinct same
        omega
  · refine described graph ?_ (sealed.right within)
    refine sealed.restrict (Nat.le_refl _) le (fun triple => List.mem_append_left _) fun triple member made => ?_
    exact (List.mem_append.mp member).imp_right fun inside => (placed triple inside).resolve_right (made.apart distinct)

/-- The triple that stands for a piece and the node that points at it, if that takes one. -/
theorem draws_annotatedTriple {notes : List Annotation} (plain : Unpointing ( Annotation.componentsEach notes))
    (apart : Annotation.DistinctEach notes) (main : Triple) (start : Nat) : ∃ stop own,
      Emits supply (annotatedTriple notes main) start () stop (main :: own) ∧ start ≤ stop ∧
      (∀ triple ∈ own, Made supply start stop triple.subject) ∧
      ∀ graph, Sealed supply (fun _ => False) graph start stop own → ∀ (bare : Axiom) operands, bare.Stated graph main operands →
        Inscribed supply graph ⟨bare, notes, main, operands, own⟩ := by
  cases notes with
  | nil =>
    refine ⟨start, [], (Emits.write _ _ _).bind (Emits.pure ()), Nat.le_refl _, List.forall_mem_nil _, ?_⟩
    exact fun graph _ bare operands stated => .plain stated
  | cons note others =>
    have later : ∀ number, start + 1 ≤ number → (supply start : Node) ≠ supply number := fresh_ne distinct (Nat.lt_succ_self start)
    obtain ⟨stop, rest, emits, noted, described⟩ := draws_annotateEach distinct (note :: others) later plain apart
    have le := noted.le
    have own : ∀ triple ∈ triplesAt (supply start) (pointerValues Owl.Axiom main) ++ rest,
        triple.subject = supply start ∨ Made supply (start + 1) stop triple.subject := by
      exact List.forall_mem_append.mpr ⟨fun triple member => .inl (mem_triplesAt.mp member).1, fun triple => noted.about⟩
    refine ⟨stop, triplesAt (supply start) (pointerValues Owl.Axiom main) ++ rest, (Emits.write _ _ _).bind ((emits_pointer Owl.Axiom main).bind emits), by omega, fun triple member => ?_,
      fun graph sealed bare operands stated => .pointed stated (List.cons_ne_nil _ _) (fun triple member same => ?_) ⟨start + 1, stop, noted, ?_, described graph⟩⟩
    · rcases own triple member with same | made
      · exact ⟨start, Nat.le_refl _, by omega, same⟩
      · exact made.mono (Nat.le_succ _) (Nat.le_refl _)
    · have inside := (sealed.only triple member start (Nat.le_refl _) (by omega) same).resolve_right id
      refine (List.mem_append.mp inside).imp_right fun within => (noted.subjects triple within).resolve_right ?_
      exact same ▸ noted.not_made
    · exact sealed.latter (Nat.le_succ _) fun triple pointing made => noted.not_made ((mem_triplesAt.mp pointing).1 ▸ made)

omit distinct in
/-- The strokes are those of the pieces, each with the annotations, and the block is what they take besides operands. -/
structure Penned (supply : Nat → BlankNode) (graph : List Triple) (notes : List Annotation) (pieces : List Sketch)
    (strokes : List Stroke) (start stop : Nat) (block : List Triple) : Prop where
  bares : strokes.map Stroke.bare = pieces.map Sketch.bare
  operands : strokes.map Stroke.operands = pieces.map Sketch.operands
  notes : ∀ stroke ∈ strokes, stroke.notes = notes
  inscribed : ∀ stroke ∈ strokes, Inscribed supply graph stroke
  made : ∀ stroke ∈ strokes, ∀ triple ∈ stroke.own, Made supply start stop triple.subject
  cover : ∀ triple, triple ∈ block ↔ ∃ stroke ∈ strokes, triple = stroke.main ∨ triple ∈ stroke.own
  apart : strokes.Pairwise Stroke.Apart

/-- The triples that stand for the pieces of an axiom, one after the other. They are not about the nodes that their
annotations take. -/
theorem draws_mains {notes : List Annotation} (plain : Unpointing ( Annotation.componentsEach notes))
    (apart : Annotation.DistinctEach notes) (mains : List Triple) : ∀ start, (∀ main ∈ mains, ∀ number, start ≤ number →
      main.subject ≠ supply number) → ∃ stop block, Emits supply (mains.forM (annotatedTriple notes)) start () stop block ∧ start ≤ stop ∧
      (∀ triple ∈ block, triple ∈ mains ∨ Made supply start stop triple.subject) ∧
      ∀ graph, Sealed supply (fun _ => False) graph start stop block → ∀ pieces : List Sketch, pieces.map Sketch.main = mains →
        (∀ piece ∈ pieces, piece.bare.Stated graph piece.main piece.operands) →
          ∃ strokes, Penned supply graph notes pieces strokes start stop block := by
  induction mains with
  | nil =>
    intro start _
    refine ⟨start, [], Emits.pure (), Nat.le_refl _, List.forall_mem_nil _, fun graph _ pieces none _ => ?_⟩
    obtain rfl := List.map_eq_nil_iff.mp none
    exact ⟨[], rfl, rfl, List.forall_mem_nil _, List.forall_mem_nil _, List.forall_mem_nil _, by simp, .nil⟩
  | cons main mains ih =>
    intro start outside
    obtain ⟨here, others⟩ := List.forall_mem_cons.mp outside
    obtain ⟨middle, own, emits, le, made, inscribed⟩ := draws_annotatedTriple distinct plain apart main start
    obtain ⟨stop, block, emits', le', placed, inscribe⟩ := ih middle fun other member number least =>
      others other member number (Nat.le_trans le least)
    have behind : ∀ triple ∈ block, ¬ Made supply start middle triple.subject := by
      rintro triple member ⟨number, least, most, same⟩
      rcases placed triple member with listed | later
      · exact others triple listed number least same
      · exact Made.apart distinct ⟨number, least, most, same⟩ later
    have ahead : ∀ triple ∈ main :: own, ¬ Made supply middle stop triple.subject := by
      rintro triple member ⟨number, least, most, same⟩
      rcases List.mem_cons.mp member with rfl | inside
      · exact here number (Nat.le_trans le least) same
      · exact (made triple inside).apart distinct ⟨number, least, most, same⟩
    refine ⟨stop, (main :: own) ++ block, emits.bind emits', Nat.le_trans le le', fun triple member => ?_, fun graph sealed pieces same stated => ?_⟩
    · rcases List.mem_append.mp member with first | later
      · rcases List.mem_cons.mp first with rfl | inside
        · exact .inl List.mem_cons_self
        · exact .inr ((made triple inside).mono (Nat.le_refl _) le')
      · exact (placed triple later).imp (List.mem_cons_of_mem _) fun made => made.mono le (Nat.le_refl _)
    · obtain ⟨piece, rest, rfl, rfl, remaining⟩ := List.map_eq_cons_iff.mp same
      obtain ⟨first, later⟩ := List.forall_mem_cons.mp stated
      have stroke := inscribed graph (sealed.restrict (Nat.le_refl _) le' (fun triple inside =>
        List.mem_append_left _ (List.mem_cons_of_mem _ inside)) fun triple member within => .inl ?_) piece.bare piece.operands first
      · obtain ⟨strokes, penned⟩ := inscribe graph (sealed.latter le ahead) rest remaining later
        refine ⟨⟨piece.bare, notes, piece.main, piece.operands, own⟩ :: strokes, ?_, ?_, List.forall_mem_cons.mpr ⟨rfl, penned.notes⟩,
          List.forall_mem_cons.mpr ⟨stroke, penned.inscribed⟩, List.forall_mem_cons.mpr ⟨fun triple inside => ?_, fun other member triple inside => ?_⟩,
          fun triple => ?_, .cons (fun other member triple inside within => ?_) penned.apart⟩
        · rw [List.map_cons, List.map_cons, penned.bares]
        · rw [List.map_cons, List.map_cons, penned.operands]
        · exact (made triple inside).mono (Nat.le_refl _) le'
        · exact (penned.made other member triple inside).mono le (Nat.le_refl _)
        · rw [List.mem_append, penned.cover, List.mem_cons, List.exists_mem_cons_iff]
        · exact (made triple inside).apart distinct (penned.made other member triple within)
      · refine (List.mem_cons.mp ((List.mem_append.mp member).resolve_right fun inside => behind triple inside within)).resolve_left ?_
        rintro rfl
        obtain ⟨number, least, -, same⟩ := within
        exact here number least same

omit distinct in
/-- What is written of the axioms, each with its annotations. -/
structure Inscription (supply : Nat → BlankNode) (graph : List Triple) (facts : List AnnotatedAxiom) (strokes : List Stroke)
    (block : List Triple) : Prop where
  inscribed : ∀ stroke ∈ strokes, Inscribed supply graph stroke
  source : ∀ stroke ∈ strokes, ∃ fact ∈ facts, stroke.bare ∈ fact.bare.pieces ∧ stroke.notes = fact.annotations
  pieces : ∀ fact ∈ facts, ∀ piece ∈ fact.bare.pieces, ∃ stroke ∈ strokes, stroke.bare = piece ∧ stroke.notes = fact.annotations
  cover : ∀ triple, triple ∈ block ↔ (∃ fact ∈ facts, ∃ iri ∈ fact.bare.variableNames, triple = variableTriple iri) ∨
    ∃ stroke ∈ strokes, triple ∈ stroke.triples
  apart : strokes.Pairwise Stroke.Apart
  introduced : ∀ stroke ∈ strokes, ∀ triple ∈ stroke.operands, Introduces supply triple

omit distinct in
/-- The axiom can be written with these fresh nodes, so that it can be read again. -/
structure Drawable (supply : Nat → BlankNode) (limit : Nat) (fact : AnnotatedAxiom) : Prop where
  valid : fact.bare.WellFormed limit
  related : fact.bare.Related
  foreign : ∀ node, .anonymous node ∈ fact.bare.components → ∀ number, node ≠ supply number
  unpointing : Unpointing ( Annotation.componentsEach fact.annotations)
  distinct : Annotation.DistinctEach fact.annotations

section Facts

variable {own : AnnotatedAxiom} (drawable : Drawable supply limit own)
include drawable

omit distinct in
/-- Where the subject of a triple that stands for a piece was made, if it is a fresh node. -/
private theorem made_of_main {pieces : List Sketch} (within : Within supply start middle block)
    (bares : pieces.map Sketch.bare = own.bare.pieces) (stated : ∀ piece ∈ pieces, piece.bare.Stated graph piece.main piece.operands)
    (cover : ∀ triple, triple ∈ block ↔ ∃ piece ∈ pieces, triple ∈ piece.operands) {piece : Sketch} (member : piece ∈ pieces)
    {number : Nat} (same : piece.main.subject = supply number) : start ≤ number ∧ number < middle := by
  rcases Axiom.subject_of_stated (stated piece member) with ⟨iri, named, -⟩ | ⟨⟨triple, inside, subject⟩, -⟩ | ⟨node, blank, listed⟩
  · cases named.symm.trans same
  · exact within.subjects triple ((cover triple).mpr ⟨piece, member, inside⟩) number ((Term.resource.inj subject).symm.trans same)
  · have has := Axiom.hasPiece_of_mem (bares ▸ List.mem_map_of_mem member)
    exact absurd (Node.blank.inj (blank.symm.trans same)) (drawable.foreign node (Axiom.components_of_piece has _ listed) number)

omit distinct drawable in
/-- An axiom that triples stand for, one for each piece. -/
theorem Penned.inscription {pieces : List Sketch} {strokes : List Stroke} (penned : Penned supply graph own.annotations pieces strokes middle stop block)
    (loose : own.bare.isGathered = false) (bares : pieces.map Sketch.bare = own.bare.pieces)
    (cover : ∀ triple, triple ∈ part ↔ ∃ piece ∈ pieces, triple ∈ piece.operands) (introduced : ∀ triple ∈ part, Introduces supply triple) :
    Inscription supply graph [own] strokes (part ++ block) := by
  have listed : strokes.map Stroke.bare = own.bare.pieces := penned.bares.trans bares
  have operand (triple : Triple) : triple ∈ part ↔ ∃ stroke ∈ strokes, triple ∈ stroke.operands := by
    have both : (∃ part ∈ pieces.map Sketch.operands, triple ∈ part) ↔ ∃ part ∈ strokes.map Stroke.operands, triple ∈ part := by
      rw [penned.operands]
    simpa [cover] using both
  refine ⟨penned.inscribed, fun stroke member => ?_, ?_, fun triple => ?_, penned.apart, fun stroke member triple inside => ?_⟩
  · exact ⟨own, List.mem_singleton_self _, listed ▸ List.mem_map_of_mem member, penned.notes stroke member⟩
  · refine List.forall_mem_singleton.mpr fun piece member => ?_
    obtain ⟨stroke, inside, rfl⟩ := List.mem_map.mp (listed.symm ▸ member)
    exact ⟨stroke, inside, rfl, penned.notes stroke inside⟩
  · have none : ¬ ∃ fact ∈ [own], ∃ iri ∈ fact.bare.variableNames, triple = variableTriple iri := by
      simp [Axiom.variableNames_of_loose loose]
    rw [List.mem_append, operand, penned.cover, or_iff_right none, ← exists_or]
    simp only [Stroke.triples, List.mem_cons, List.mem_append, ← and_or_left]
    exact exists_congr fun stroke => and_congr_right fun _ => or_left_comm
  · exact introduced triple ((operand triple).mpr ⟨stroke, member, inside⟩)

omit distinct drawable in
/-- An axiom that a node stands for, which carries the annotations. -/
theorem Form.Tells.inscription {carrier : Node} (tells : (Form.node carrier).Tells supply own.annotations graph own.bare part)
    (annotated : Annotated supply graph carrier own.annotations block) (introduced : ∀ triple ∈ part, Introduces supply triple) :
    ∃ strokes, Inscription supply graph [own] strokes (part ++ block) := by
  obtain ⟨large, number, type, values, operands, rfl, gathered, declaring, alone⟩ := tells
  have pieces : own.bare.pieces = [own.bare] := by
    unfold Axiom.pieces
    rw [if_pos large]
  refine ⟨[⟨own.bare, own.annotations, ⟨supply number, Rdf.type, type⟩, operands ++ triplesAt (supply number) values,
    ⟨supply number, Rdf.type, type⟩ :: block⟩], ?_, ?_, ?_, fun triple => ?_, List.pairwise_singleton .., ?_⟩
  · exact List.forall_mem_singleton.mpr (.gathered large gathered alone annotated)
  · exact List.forall_mem_singleton.mpr ⟨own, List.mem_singleton_self _, by simp [pieces], rfl⟩
  · exact List.forall_mem_singleton.mpr (by simp [pieces])
  · simp only [List.mem_append, declaring triple, Stroke.triples, triplesAt, List.map_cons, List.mem_cons, List.not_mem_nil, or_false]
    grind
  · refine List.forall_mem_singleton.mpr fun triple inside => introduced triple ((declaring triple).mpr (.inl ?_))
    simp only [triplesAt, List.map_cons, List.mem_append, List.mem_cons] at inside ⊢
    exact inside.imp_right .inr

theorem draws_fact (start : Nat) : Draws supply (fun _ => False) (fact own) start fun graph _ block =>
    ∃ strokes, Inscription supply graph [own] strokes block := by
  have whole : Outlines.Statement supply own.annotations own.bare (statement own.bare) start :=
    states_statement distinct drawable.valid drawable.related drawable.foreign
  obtain ⟨form, middle, first, emits, within, tells⟩ := whole
  have itself := tells first ⟨fun _ => id, fun _ member _ _ _ _ => .inl member⟩
  have introduced := (introduces_statement own.bare).of_emits emits
  rw [fact]
  cases form with
  | triples mains =>
    obtain ⟨loose, pieces, bares, rfl, stated, cover⟩ := itself
    have bounds : ∀ main ∈ pieces.map Sketch.main, ∀ number, main.subject = supply number → start ≤ number ∧ number < middle := by
      rw [List.forall_mem_map]
      exact fun piece member number => made_of_main drawable within bares stated cover member
    obtain ⟨stop, block, emits', le, placed, inscribe⟩ := draws_mains distinct drawable.unpointing drawable.distinct
      (pieces.map Sketch.main) middle fun main member number least same => by have := (bounds main member number same).2; omega
    refine Draws.owned distinct emits within emits' le bounds placed fun graph sealed marks => ?_
    obtain ⟨-, others, bares', same, stated', cover'⟩ := tells graph sealed
    obtain ⟨strokes, penned⟩ := inscribe graph marks others same stated'
    exact ⟨strokes, penned.inscription loose bares' cover' introduced⟩
  | node carrier =>
    obtain ⟨-, number, type, values, operands, rfl, -, declaring, -⟩ := itself
    have bounds : start ≤ number ∧ number < middle := by
      refine within.subjects ⟨supply number, Rdf.type, type⟩ ((declaring _).mpr (.inl ?_)) number rfl
      exact List.mem_append_right _ List.mem_cons_self
    obtain ⟨stop, block, emits', noted, described⟩ :=
      draws_annotateEach distinct own.annotations (fresh_ne distinct bounds.2) drawable.unpointing drawable.distinct
    refine Draws.owned distinct emits within emits' noted.le ?_ noted.subjects fun graph sealed marks => ?_
    · rintro _ ⟨note, -, rfl⟩ other same
      obtain rfl := distinct _ _ (Node.blank.inj same)
      exact bounds
    · exact (tells graph sealed).inscription ⟨middle, stop, noted, marks, described graph⟩ introduced

end Facts

section Whole

variable {α β : Type} {body : Rendering α} {next : α → Rendering β} {allowed : Triple → Prop}
  {post : List Triple → α → List Triple → Prop} {last : α → List Triple → β → List Triple → Prop}

omit distinct in
/-- Two parts have no triple about a fresh node in common. -/
theorem Draws.follow (draws : Draws supply allowed body start post)
    (later : ∀ value middle, Draws supply allowed (next value) middle (last value)) :
    Draws supply allowed (body >>= next) start fun graph result block => ∃ value first second, post graph value first ∧
      last value graph result second ∧ block = first ++ second ∧
        ∀ triple ∈ first, triple ∈ second → ∀ number, triple.subject ≠ supply number := by
  obtain ⟨value, middle, first, emits, within, described⟩ := draws
  obtain ⟨result, stop, second, emits', within', described'⟩ := later value middle
  refine ⟨result, stop, first ++ second, emits.bind emits', within.append within', fun graph sealed => ?_⟩
  refine ⟨value, first, second, described graph (sealed.left within'), described' graph (sealed.right within), rfl, ?_⟩
  intro triple early late number same
  have before := within.subjects triple early number same
  have after := within'.subjects triple late number same
  omega

omit distinct in
theorem Inscription.append {facts others : List AnnotatedAxiom} {strokes more : List Stroke} {first second : List Triple}
    (one : Inscription supply graph facts strokes first) (two : Inscription supply graph others more second)
    (apart : ∀ triple ∈ first, triple ∈ second → ∀ number, triple.subject ≠ supply number) :
    Inscription supply graph (facts ++ others) (strokes ++ more) (first ++ second) where
  inscribed := List.forall_mem_append.mpr ⟨one.inscribed, two.inscribed⟩
  source := by
    refine List.forall_mem_append.mpr ⟨fun stroke member => ?_, fun stroke member => ?_⟩
    · obtain ⟨fact, inside, from_⟩ := one.source stroke member
      exact ⟨fact, List.mem_append_left _ inside, from_⟩
    · obtain ⟨fact, inside, from_⟩ := two.source stroke member
      exact ⟨fact, List.mem_append_right _ inside, from_⟩
  pieces := by
    refine List.forall_mem_append.mpr ⟨fun fact member piece listed => ?_, fun fact member piece listed => ?_⟩
    · obtain ⟨stroke, inside, same⟩ := one.pieces fact member piece listed
      exact ⟨stroke, List.mem_append_left _ inside, same⟩
    · obtain ⟨stroke, inside, same⟩ := two.pieces fact member piece listed
      exact ⟨stroke, List.mem_append_right _ inside, same⟩
  cover triple := by
    simp only [List.mem_append, one.cover, two.cover, or_and_right, exists_or]
    exact or_or_or_comm
  introduced := List.forall_mem_append.mpr ⟨one.introduced, two.introduced⟩
  apart := by
    refine List.pairwise_append.mpr ⟨one.apart, two.apart, fun stroke member other present triple inside within => ?_⟩
    obtain ⟨number, same⟩ := (one.inscribed stroke member).fresh triple inside
    refine apart triple ((one.cover triple).mpr (.inr ⟨stroke, member, ?_⟩)) ((two.cover triple).mpr (.inr ⟨other, present, ?_⟩)) number same
    · exact List.mem_cons_of_mem _ (List.mem_append_right _ inside)
    · exact List.mem_cons_of_mem _ (List.mem_append_right _ within)

theorem draws_facts (facts : List AnnotatedAxiom) (drawable : ∀ own ∈ facts, Drawable supply limit own) : ∀ start,
    Draws supply (fun _ => False) (facts.forM fact) start fun graph _ block => ∃ strokes, Inscription supply graph facts strokes block := by
  induction facts with
  | nil =>
    refine fun start => (Draws.pure ()).weaken ?_
    rintro graph _ block ⟨-, rfl⟩
    exact ⟨[], List.forall_mem_nil _, List.forall_mem_nil _, List.forall_mem_nil _, by simp, .nil, List.forall_mem_nil _⟩
  | cons own facts ih =>
    obtain ⟨first, rest⟩ := List.forall_mem_cons.mp drawable
    refine fun start => ((draws_fact distinct first start).follow fun _ middle => ih rest middle).weaken ?_
    rintro graph _ block ⟨_, one, two, ⟨strokes, inscribed⟩, ⟨more, others⟩, rfl, apart⟩
    exact ⟨strokes ++ more, inscribed.append others apart⟩

end Whole

section Header

variable {ontology : Ontology} {node : Node}

/-- A named node is the IRI of the ontology; about a fresh one nothing else is said. -/
structure Headed (supply : Nat → BlankNode) (graph : List Triple) (ontology : Ontology) (node : Node) (block : List Triple) : Prop where
  named : (∃ iri, ontology.id.iri? = some iri ∧ node = .named iri) ∨ ontology.id.iri? = none ∧ ∃ number, node = supply number ∧
    ∀ triple ∈ graph, triple.subject = node → triple ∈ headerTriples ontology node ∨ ∃ note ∈ ontology.annotations, triple = note.claim node
  annotated : Annotated supply graph node ontology.annotations block

omit distinct in
theorem Emits.each {α : Type} {body : α → Rendering Unit} {made : α → List Triple} (items : List α)
    (emits : ∀ item ∈ items, Emits supply (body item) start () start (made item)) :
    Emits supply (items.forM body) start () start (items.flatMap made) := by
  induction items with
  | nil => exact Emits.pure ()
  | cons item rest ih =>
    exact (emits item List.mem_cons_self).bind (ih fun other member => emits other (List.mem_cons_of_mem _ member))

omit distinct in
/-- What follows once the node is chosen. -/
private theorem emits_about {body : Rendering Unit} (emits : Emits supply body start () stop block) : Emits supply (do
    write node Rdf.type Owl.Ontology
    ontology.id.version?.forM fun version => write node Owl.versionIRI version
    ontology.imports.forM fun iri => write node Owl.imports iri
    body) start () stop (headerTriples ontology node ++ block) := by
  have version : Emits supply (ontology.id.version?.forM fun version => write node Owl.versionIRI version) start () start
      (ontology.id.version?.toList.map fun version : Iri => (⟨node, Owl.versionIRI, version⟩ : Triple)) := by
    cases ontology.id.version? with
    | none => exact Emits.pure ()
    | some version => exact Emits.write node Owl.versionIRI version
  have imports : Emits supply (ontology.imports.forM fun iri => write node Owl.imports iri) start () start
      (ontology.imports.map fun iri : Iri => (⟨node, Owl.imports, iri⟩ : Triple)) := by
    rw [List.map_eq_flatMap]
    exact Emits.each _ fun iri _ => Emits.write node Owl.imports iri
  have last : Emits supply ((ontology.imports.forM fun iri => write node Owl.imports iri) >>= fun _ => body) start () stop _ :=
    imports.bind emits
  rw [headerTriples, List.cons_append, List.append_assoc, ← List.singleton_append]
  exact (Emits.write node Rdf.type Owl.Ontology).bind (Emits.bind version last)

theorem draws_header (unpointing : Unpointing ( Annotation.componentsEach ontology.annotations))
    (apart : Annotation.DistinctEach ontology.annotations) : Draws supply (fun _ => False) (header ontology) start fun graph _ block =>
      ∃ node notes, Headed supply graph ontology node notes ∧ block = headerTriples ontology node ++ notes := by
  rw [header]
  cases own : ontology.id.iri? with
  | some iri =>
    have later : ∀ number, start ≤ number → (iri : Node) ≠ supply number := by simp
    obtain ⟨stop, notes, emits, noted, described⟩ := draws_annotateEach distinct ontology.annotations later unpointing apart
    have subjects : ∀ triple ∈ headerTriples ontology iri ++ notes,
        triple.subject = (iri : Node) ∨ Made supply start stop triple.subject := by
      exact List.forall_mem_append.mpr ⟨fun triple member => .inl (subject_headerTriples triple member), fun triple => noted.about⟩
    refine ⟨(), stop, headerTriples ontology iri ++ notes, (Emits.pure _).bind (emits_about emits), ⟨noted.le, ?_⟩, fun graph sealed => ?_⟩
    · intro triple member number same
      have made := (subjects triple member).resolve_left (by simp [same])
      exact made.bounds distinct same
    · refine ⟨iri, notes, ⟨.inl ⟨iri, own, rfl⟩, start, stop, noted, ?_, described graph⟩, rfl⟩
      exact sealed.latter (Nat.le_refl _) fun triple inside made => noted.not_made (subject_headerTriples triple inside ▸ made)
  | none =>
    have later : ∀ number, start + 1 ≤ number → (supply start : Node) ≠ supply number := fresh_ne distinct (Nat.lt_succ_self start)
    obtain ⟨stop, notes, emits, noted, described⟩ := draws_annotateEach distinct ontology.annotations later unpointing apart
    have le := noted.le
    have subjects : ∀ triple ∈ headerTriples ontology (supply start) ++ notes,
        triple.subject = supply start ∨ Made supply (start + 1) stop triple.subject := by
      exact List.forall_mem_append.mpr ⟨fun triple member => .inl (subject_headerTriples triple member), fun triple => noted.about⟩
    refine ⟨(), stop, headerTriples ontology (supply start) ++ notes, Emits.fresh.bind (emits_about emits), ⟨by omega, ?_⟩, fun graph sealed => ?_⟩
    · intro triple member number same
      rcases subjects triple member with here | made
      · have := distinct _ _ (Node.blank.inj (here.symm.trans same))
        omega
      · have := made.bounds distinct same
        omega
    · refine ⟨supply start, notes, ⟨.inr ⟨own, start, rfl, fun triple member same => ?_⟩, start + 1, stop, noted, ?_, described graph⟩, rfl⟩
      · have inside := (sealed.only triple member start (Nat.le_refl _) (by omega) same).resolve_right id
        refine (List.mem_append.mp inside).imp_right fun within => (noted.subjects triple within).resolve_right ?_
        exact same ▸ noted.not_made
      · exact sealed.latter (Nat.le_succ _) fun triple inside made => noted.not_made (subject_headerTriples triple inside ▸ made)

/-- A graph with the triples that are written of an ontology consists of what is said about its node, the annotations of
the ontology, and what is written of its axioms. No triple about a fresh node belongs to two of them. -/
theorem drawn_of_written (unpointing : Unpointing ( Annotation.componentsEach ontology.annotations))
    (apart : Annotation.DistinctEach ontology.annotations) (drawable : ∀ own ∈ ontology.axioms, Drawable supply limit own)
    (same : ∀ triple, triple ∈ graph ↔ triple ∈ ontology.written supply) : ∃ node notes strokes block,
      Headed supply graph ontology node notes ∧ Inscription supply graph ontology.axioms strokes block ∧
      (∀ triple, triple ∈ graph ↔ triple ∈ headerTriples ontology node ++ notes ∨ triple ∈ block) ∧
      ∀ triple ∈ headerTriples ontology node ++ notes, triple ∈ block → ∀ number, triple.subject ≠ supply number := by
  obtain ⟨_, stop, written, emits, within, described⟩ := (draws_header distinct unpointing apart).follow fun _ middle =>
    draws_facts distinct ontology.axioms drawable middle
  have whole : ontology.written supply = written := congrArg (fun ended => ended.2.triples.toList) emits.run
  rw [whole] at same
  obtain ⟨_, first, block, ⟨node, notes, headed, rfl⟩, ⟨strokes, inscription⟩, rfl, shared⟩ :=
    described graph ⟨fun triple => (same triple).mpr, fun triple member _ _ _ _ => .inl ((same triple).mp member)⟩
  exact ⟨node, notes, strokes, block, headed, inscription, fun triple => (same triple).trans List.mem_append, shared⟩

end Header

end Rendering

end OwlGraph
