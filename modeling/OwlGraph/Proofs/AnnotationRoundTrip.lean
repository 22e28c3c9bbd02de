import OwlGraph.Proofs.AnnotationDrawing
import OwlGraph.Proofs.AnnotationReading
import OwlGraph.Proofs.Insertion
import OwlGraph.Rendering.Supply

/-! Annotations that are written and read back. What is written on a node describes the annotations
if nothing else stands for one of them: a further node that does adds its own annotations to those of
the annotation that it stands for. -/

namespace OwlGraph

/-- The annotations can be written on the node with these fresh nodes. Their properties are annotation
properties and nothing else, no two on one thing make the same claim, and the node has no other ones. -/
structure Session.Annotatable (session : Session) (supply : Nat → BlankNode) (node : Node) (notes : List Annotation) : Prop where
  indexed : session.store.Indexed
  lacks : session.Lacks supply
  foreign : ∀ number, node ≠ supply number
  distinct : Annotation.DistinctEach notes
  properties : ∀ iri, Component.annotationProperty iri ∈ Annotation.componentsEach notes →
    (iri.isBuiltinAnnotationProperty = true ∨ iri.isReserved = false ∧ session.hasKind iri .annotationProperty = true) ∧
    session.hasKind iri .objectProperty = false ∧ session.hasKind iri .dataProperty = false
  /-- What the node already has of these is unused. -/
  bare : ∀ row ∈ session.store.liveRows, row.triple.subject = node → session.isAnnotationProperty row.triple.predicate = true →
    session.store.isConsumed row.id = false ∧ ∃ note ∈ notes, row.triple = note.claim node

/-- The world of a session with the triples, in which the properties of the annotations may become known. -/
abbrev World.noting (context : Context) (session : Session) (triples : List Triple) (notes : List Annotation) : World :=
  .of context (session.insertAll triples) fun entity =>
    entity.kind = .annotationProperty ∧ Component.entity entity ∈ Annotation.componentsEach notes

namespace Session.Annotatable

open Rendering (Noted Hosts)

variable {context : Context} {session : Session} {supply : Nat → BlankNode} {node : Node} {notes : List Annotation}
  {stop : Nat} {block triples : List Triple} (annotatable : session.Annotatable supply node notes)
include annotatable

section Properties

variable {iri : Iri} (member : Component.annotationProperty iri ∈ Annotation.componentsEach notes)
include member

theorem propertyKind? : session.propertyKind? iri = some .annotating := by
  obtain ⟨known, object, data⟩ := annotatable.properties iri member
  rw [Session.propertyKind?_eq_some]
  constructor
  · rcases known with built | ⟨-, has⟩
    · exact Bool.or_eq_true_iff.mpr (.inl built)
    · exact has
  · intro other also
    cases other with
    | object => exact absurd (object.symm.trans also) (by decide)
    | data => exact absurd (data.symm.trans also) (by decide)
    | annotating => exact Nat.le_refl _

theorem plain : iri ∉ pointerPredicates := by
  have pointing : ∀ predicate ∈ pointerPredicates, predicate.isBuiltinAnnotationProperty = false ∧ predicate.isReserved = true := by
    decide
  intro inside
  rcases (annotatable.properties iri member).1 with built | ⟨free, -⟩
  · exact absurd (built.symm.trans (pointing iri inside).1) (by decide)
  · exact absurd (free.symm.trans (pointing iri inside).2) (by decide)

end Properties

theorem unpointing : Rendering.Unpointing ( Annotation.componentsEach notes) := by
  rintro ⟨kind, iri⟩ member (rfl : kind = _)
  exact annotatable.plain member

/-- A property that may become known is known to be an annotation property. -/
theorem had (iri : Iri) (kind : PropertyKind)
    (learned : kind.entityKind = .annotationProperty ∧ Component.entity ⟨kind.entityKind, iri⟩ ∈ Annotation.componentsEach notes) :
    (session.insertAll triples).hasKind iri kind.entityKind = true := by
  obtain ⟨same, member⟩ := learned
  rw [same] at member ⊢
  exact (Session.propertyKind?_eq_some.mp (annotatable.propertyKind? member)).1

theorem annotates : (World.noting context session triples notes).Annotates ( Annotation.componentsEach notes) := by
  rintro ⟨kind, iri⟩ member (rfl : kind = _)
  exact ⟨.inr ⟨rfl, member⟩, ⟨.annotating, rfl, annotatable.propertyKind? member⟩, annotatable.plain member⟩

theorem claims : ∀ note ∈ notes, session.isAnnotationProperty note.property = true := by
  intro note member
  have listed : Component.annotationProperty note.property ∈ Annotation.componentsEach notes := by
    rw [ Annotation.componentsEach_eq]
    obtain ⟨property, value, inner⟩ := note
    exact List.mem_flatMap.mpr ⟨_, member, List.mem_cons_self⟩
  rw [Session.isAnnotationProperty, annotatable.propertyKind? listed]
  rfl

section Block

variable (same : ∀ triple, triple ∈ block ↔ triple ∈ triples)

include same in
/-- Of the fresh nodes nothing was said before. -/
theorem sealed : Rendering.Sealed supply (fun _ => False) (World.noting context session triples notes).graph 0 stop block :=
  annotatable.lacks.sealed annotatable.indexed same

variable (noted : Noted supply node notes 0 stop block)
include noted

/-- What the session had of the block are claims that the node already makes, and these are unused. -/
theorem unused_of_old {row : Row} (old : row ∈ session.store.liveRows) (inside : row.triple ∈ block) :
    session.store.isConsumed row.id = false := by
  rcases noted.subjects _ inside with ⟨note, member, claimed⟩ | ⟨number, -, -, own⟩
  · refine (annotatable.bare row old (congrArg Triple.subject claimed) ?_).1
    rw [claimed]
    exact annotatable.claims note member
  · exact absurd own (annotatable.lacks.subject_ne old number)

theorem unused : (World.noting context session triples notes).Unused (session.insertAll triples) block := by
  intro row member inside
  rcases annotatable.indexed.row_insertAll triples member with ⟨old, kept⟩ | ⟨-, unused⟩
  · exact kept.trans (annotatable.unused_of_old noted old inside)
  · exact unused

include same

theorem left : (World.noting context session triples notes).Left (session.insertAll triples) node notes := by
  intro row member own free
  rcases row_insertAll annotatable.indexed member with ⟨old, -⟩ | inside
  · cases taken : session.isAnnotationProperty row.triple.predicate with
    | false =>
      refine .inl fun after holds => ?_
      rw [Session.isAnnotationProperty, World.Holds.propertyKind?_of annotatable.had holds]
      exact taken
    | true => exact .inr (annotatable.bare row old own taken).2
  · refine .inr ((noted.subjects _ ((same _).mpr inside)).resolve_right ?_)
    rw [own]
    exact noted.not_made

/-- Who stands for a triple of the block and already pointed at its subject stands for one of the annotations of the node. -/
theorem mem_reifiers_of_old {triple : Triple} (member : triple ∈ block) {other : Node}
    (stood : (World.noting context session triples notes).Reifies other triple)
    (old : (⟨other, Owl.annotatedSource, triple.subject⟩ : Triple) ∉ triples) :
    ∃ note ∈ notes, other ∈ session.reifiers node note.property note.value := by
  obtain ⟨⟨row, present, points, unspent⟩, type, property, target⟩ := stood
  obtain ⟨known, kept⟩ := (row_insertAll annotatable.indexed present).resolve_right fun new => old (points ▸ new)
  have before {predicate : Iri} {object : Term} (pointing : predicate ∈ pointerPredicates)
      (now : (⟨other, predicate, object⟩ : Triple) ∈ (World.noting context session triples notes).graph) :
      (⟨other, predicate, object⟩ : Triple) ∈ session.store.liveRows.map Row.triple := by
    refine ((mem_graph_insertAll annotatable.indexed).mp now).resolve_right fun new => ?_
    obtain ⟨number, -, -, own⟩ := noted.made pointing ((same _).mpr new)
    exact annotatable.lacks.subject_ne known number (by rw [points]; exact own)
  obtain ⟨note, listed, rfl⟩ : ∃ note ∈ notes, triple = note.claim node := by
    refine (noted.subjects triple member).resolve_right ?_
    rintro ⟨number, -, -, own⟩
    refine annotatable.lacks.absent number row known ?_
    simp [points, own, Triple.blanks, Term.blank?, Term.node?, Node.blank?]
  have holds : (World.of context session fun _ => False).Holds session := World.holds_of annotatable.indexed
  refine ⟨note, listed, holds.mem_reifiers.mpr ⟨⟨row, known, points, ?_⟩, ?_, ?_, ?_⟩⟩
  · exact Bool.eq_false_iff.mpr fun used => unspent (kept.trans used)
  · exact type.imp (before (by simp [pointerPredicates])) (before (by simp [pointerPredicates]))
  · exact before (by simp [pointerPredicates]) property
  · exact before (by simp [pointerPredicates]) target

/-- Nobody stands for a triple of the block but who points at it there, if nobody stands for one of the
annotations from the beginning. -/
theorem hosts (unreified : ∀ note ∈ notes, session.reifiers node note.property note.value = []) :
    Hosts supply (World.noting context session triples notes).graph (World.noting context session triples notes).Reifies 0 stop block where
  toSealed := annotatable.sealed same
  standing triple member other stood := by
    by_cases new : (⟨other, Owl.annotatedSource, triple.subject⟩ : Triple) ∈ triples
    · have inside := (same _).mpr new
      have made := noted.made (by simp [pointerPredicates]) inside
      exact ⟨inside, (annotatable.sealed same).mem_of_made stood.property made, (annotatable.sealed same).mem_of_made stood.target made⟩
    · obtain ⟨note, listed, reified⟩ := annotatable.mem_reifiers_of_old same noted member stood new
      rw [unreified note listed] at reified
      cases reified

end Block

end Session.Annotatable

variable (context : Context) (session : Session) (supply : Nat → BlankNode) (node : Node) (notes : List Annotation)

/-- Annotations are read back as they were written, in some order at every depth. -/
theorem annotations_read_back (annotatable : session.Annotatable supply node notes)
    (unreified : ∀ note ∈ notes, session.reifiers node note.property note.value = []) (triples : List Triple)
    (order : triples.Perm ((Rendering.annotateEach node notes).run supply |>.run {}).2.triples.toList) :
    session.ReadsBack context triples (Translation.annotationsOn node)
      fun rename read => Annotation.AlikeEach (notes.map ( Annotation.rename rename)) read := by
  obtain ⟨stop, block, emits, noted, describes⟩ := Rendering.draws_annotateEach annotatable.lacks.distinct notes
    (fun number _ => annotatable.foreign number) annotatable.unpointing annotatable.distinct
  rw [emits.run] at order
  have same : ∀ triple, triple ∈ block ↔ triple ∈ triples := fun triple => order.mem_iff.symm
  have hosts : Rendering.Hosts supply (World.noting context session triples notes).graph _ 0 stop block :=
    annotatable.hosts same noted unreified
  have finds := World.FindsAt.annotationsOn (World.settled_of annotatable.had) (describes _ _ hosts) hosts.subset
    annotatable.annotates (World.holds_of (annotatable.indexed.insertAll triples)) (annotatable.unused noted) (annotatable.left same noted)
  refine Session.readsBack_of_finds annotatable.indexed finds same fun visited inside triple member own => ?_
  obtain ⟨written, elsewhere⟩ := World.mem_beneath.mp member
  rcases noted.subjects triple written with ⟨note, -, rfl⟩ | ⟨number, -, -, fresh⟩
  · exact elsewhere rfl
  · exact annotatable.lacks.unvisited number (fresh ▸ own ▸ inside)

namespace Samples

def page : Node := .named ⟨"ex:page"⟩

/-- A remark on the page, with the annotations of the remark. -/
def remark (notes : List Annotation) : Annotation := ⟨Rdfs.comment, .literal (.simple "seen"), notes⟩

def aside : Annotation := ⟨Rdfs.label, .literal (.simple "twice"), []⟩

/-- A session that knows an annotation property and was given the triples. -/
def noticed (triples : List Triple) : Session where
  store := .ofTriples triples
  kinds := .ofList [⟨.annotationProperty, ⟨"ex:note"⟩⟩]

theorem mem_noticed {triples : List Triple} {row : Row} (member : row ∈ (noticed triples).store.liveRows) : row.triple ∈ triples :=
  (TripleStore.mem_rows_ofTriples triples row.triple).mp (List.mem_map_of_mem member)

theorem insertAll_noticed (triples others : List Triple) : (noticed triples).insertAll others = noticed (triples ++ others) := by
  rw [Session.insertAll, noticed, noticed, TripleStore.insertAll, TripleStore.ofTriples, TripleStore.ofTriples, List.foldl_append]

theorem annotatable_noticed {triples : List Triple} {nodes : List BlankNode} {notes : List Annotation}
    (about : ∀ triple ∈ triples, triple.subject ≠ page ∧ ∀ blank ∈ triple.blanks, blank ∈ nodes) (distinct : Annotation.DistinctEach notes)
    (named : ∀ entity ∈ ( Annotation.componentsEach notes).filterMap Component.entity?, entity.kind = .annotationProperty →
      entity.iri ∈ [Rdfs.comment, Rdfs.label, ⟨"ex:note"⟩]) :
    (noticed triples).Annotatable (Supply.avoiding nodes) page notes where
  indexed := TripleStore.indexed_ofTriples triples
  lacks := ⟨fun _ _ => Supply.avoiding_injective, fun number row member inside =>
    Supply.avoiding_not_mem nodes number ((about _ (mem_noticed member)).2 _ inside), nofun⟩
  foreign := nofun
  distinct := distinct
  properties iri member := by
    have facts : ∀ iri ∈ [Rdfs.comment, Rdfs.label, ⟨"ex:note"⟩],
        (iri.isBuiltinAnnotationProperty = true ∨ iri.isReserved = false ∧ iri = ⟨"ex:note"⟩) ∧
          EntityKind.objectProperty.isBuiltin iri = false ∧ EntityKind.dataProperty.isBuiltin iri = false := by decide
    obtain ⟨known, object, data⟩ := facts iri (named _ (List.mem_filterMap.mpr ⟨_, member, rfl⟩) rfl)
    refine ⟨known.imp_right (And.imp_right ?_), ?_, ?_⟩
    · rintro rfl
      simp [Session.hasKind, noticed]
    · simp [Session.hasKind, noticed, object]
    · simp [Session.hasKind, noticed, data]
  bare _ member own := absurd own (about _ (mem_noticed member)).1

theorem reifiers_noticed {triples : List Triple} {property : Iri} {value : Term}
    (apart : ∀ triple ∈ triples, triple.predicate = Owl.annotatedProperty → triple.object ≠ property) :
    (noticed triples).reifiers page property value = [] := by
  have holds : (World.of ⟨{}, 1, false⟩ (noticed triples) fun _ => False).Holds (noticed triples) :=
    World.holds_of (TripleStore.indexed_ofTriples triples)
  refine List.eq_nil_iff_forall_not_mem.mpr fun node member => ?_
  obtain ⟨-, -, points, -⟩ := holds.mem_reifiers.mp member
  exact apart _ ((TripleStore.mem_rows_ofTriples triples _).mp points) rfl rfl

/-- Someone stands for an annotation of the page by the property. -/
def pointing (node : BlankNode) (property : Iri) : List Triple :=
  triplesAt node (pointerValues Owl.Annotation ⟨page, property, .literal (.simple "seen")⟩)

/-- Two remarks, the one annotated in turn. -/
def remarks : List Annotation :=
  [remark [⟨⟨"ex:note"⟩, (⟨"z"⟩ : BlankNode), [aside]⟩, aside], ⟨Rdfs.comment, .literal (.simple "again"), []⟩]

end Samples

theorem annotations_read_back_remarks :
    (Samples.noticed (Samples.pointing ⟨"z"⟩ Rdfs.label)).ReadsBack ⟨{}, 1, false⟩
      ((Rendering.annotateEach Samples.page Samples.remarks).run (Supply.avoiding [⟨"z"⟩]) |>.run {}).2.triples.toList.reverse
      (Translation.annotationsOn Samples.page)
      fun rename read => Annotation.AlikeEach (Samples.remarks.map ( Annotation.rename rename)) read := by
  have annotatable : (Samples.noticed (Samples.pointing ⟨"z"⟩ Rdfs.label)).Annotatable (Supply.avoiding [⟨"z"⟩]) Samples.page Samples.remarks := by
    refine Samples.annotatable_noticed (by decide) ?_ (by decide)
    simp [Samples.remarks, Samples.remark, Samples.aside, Annotation.DistinctEach, Annotation.Distinct]
  refine annotations_read_back _ _ _ _ _ annotatable (fun note member => Samples.reifiers_noticed ?_) _ (List.reverse_perm _)
  have comment : note.property = Rdfs.comment := by
    revert note
    decide
  rw [comment]
  decide

namespace Samples

/-- The node stands for a remark on the page, with an aside. -/
def earlier (node : BlankNode) : List Triple := pointing node Rdfs.comment ++ [aside.claim node]

theorem written_remark (supply : Nat → BlankNode) :
    ((Rendering.annotateEach page [remark [aside]]).run supply |>.run {}).2.triples.toList =
      (remark [aside]).claim page :: earlier (supply 0) := rfl

theorem annotatable_remark : (noticed []).Annotatable (Supply.avoiding []) page [remark [aside]] := by
  refine annotatable_noticed nofun ?_ (by decide)
  simp [remark, aside, Annotation.DistinctEach, Annotation.Distinct]

theorem written_bare_remark (supply : Nat → BlankNode) :
    ((Rendering.annotateEach page [remark []]).run supply |>.run {}).2.triples.toList = [(remark []).claim page] := rfl

theorem annotatable_bare_remark (node : BlankNode) :
    (noticed (earlier node)).Annotatable (Supply.avoiding [node]) page [remark []] := by
  refine annotatable_noticed ?_ ?_ (by decide)
  · simp [earlier, pointing, triplesAt, pointerValues, page, aside, Annotation.claim, Triple.blanks, Term.blank?, Node.blank?, Term.node?]
  · simp [remark, Annotation.DistinctEach, Annotation.Distinct]

end Samples

/-- A node that stands for an annotation from the beginning adds its own annotations to it. -/
theorem annotations_not_read_back : ¬ ∀ (context : Context) (session : Session) (supply : Nat → BlankNode) (node : Node)
    (notes : List Annotation), session.Annotatable supply node notes → ∀ triples : List Triple,
      triples.Perm ((Rendering.annotateEach node notes).run supply |>.run {}).2.triples.toList →
        session.ReadsBack context triples (Translation.annotationsOn node)
          fun rename read => Annotation.AlikeEach (notes.map ( Annotation.rename rename)) read := by
  intro claim
  obtain ⟨node, fresh⟩ : ∃ node, node = Supply.avoiding [] 0 := ⟨_, rfl⟩
  -- The same triples are inserted at once, for the remark with its aside, and the last of them alone, for the remark without it.
  have whole := claim ⟨{}, 1, false⟩ _ _ _ _ Samples.annotatable_remark (Samples.earlier node ++ [(Samples.remark []).claim Samples.page]) (by
    rw [Samples.written_remark, fresh]
    exact List.perm_append_comm)
  have bare := claim ⟨{}, 1, false⟩ _ _ _ _ (Samples.annotatable_bare_remark node) [(Samples.remark []).claim Samples.page]
    (by rw [Samples.written_bare_remark])
  obtain ⟨read, annotated, unannotated⟩ := whole.agree bare
    (by rw [Samples.insertAll_noticed, Samples.insertAll_noticed, List.nil_append])
  obtain ⟨own, rfl, alike⟩ := annotated.singleton
  obtain ⟨other, same, alike'⟩ := unannotated.singleton
  obtain rfl := List.singleton_inj.mp same
  obtain ⟨deeper, found, -⟩ := alike.each.singleton
  cases found.symm.trans alike'.each.eq_nil

end OwlGraph
