import OwlGraph.Proofs.AxiomSet
import OwlGraph.Proofs.Components
import OwlGraph.Proofs.Pairing
import OwlGraph.Translation.Load

/-! Sessions over graphs that differ in the labels of their blank nodes. They agree on everything
but the graphs, the nodes they keep and the wording of the problems, whose kinds and severities
they agree on; and every anonymous individual they tell of stands for a paired node. What a load
asks of a session it is told the same in both. -/

namespace OwlGraph

/-- Problems of the same kind and severity. -/
structure Problem.Alike (first second : Problem) : Prop where
  kind : second.kind = first.kind
  severity : second.severity = first.severity

/-- Reports of problems of the same kind, made with the same severity. -/
structure Report.Alike (first second : Report) : Prop where
  kind : second.problem.kind = first.problem.kind
  severity : second.severity = first.severity
  detailed : second.detailed = first.detailed

namespace Pairing

variable (pairing : Pairing)

/-- Every anonymous individual of the ontology and of the axioms of triples stands for a paired node. -/
structure Founded (ontology : Ontology) (produced : Std.HashMap TripleId AnnotatedAxiom) : Prop where
  sound : ontology.index.Sound
  facts : ∀ fact ∈ ontology.axioms, pairing.Covers fact.components
  notes : ∀ note ∈ ontology.annotations, pairing.Covers note.components
  told : ∀ (id : TripleId) (fact : AnnotatedAxiom), produced[id]? = some fact → pairing.Covers fact.components

structure Sessions (first second : Session) : Prop where
  store : pairing.Stores first.store second.store
  ontology : second.ontology = first.ontology
  reports : List.Forall₂ Report.Alike first.reports.toList second.reports.toList
  pending : List.Forall₂ Problem.Alike first.pending.toList second.pending.toList
  kinds : second.kinds = first.kinds
  kindsChanged : second.kindsChanged = first.kindsChanged
  ruleVariables : second.ruleVariables = first.ruleVariables
  header : Option.Rel pairing.Nodes first.header second.header
  produced : second.produced = first.produced
  visiting : List.Forall₂ pairing.Nodes first.visiting second.visiting
  passes : second.passes = first.passes
  founded : pairing.Founded first.ontology first.produced

/-- The nodes are described by corresponding triples. -/
structure Views (first second : NodeView) : Prop where
  node : pairing.Nodes first.node second.node
  rows : List.Forall₂ pairing.Rows first.rows second.rows
  propertyKind : second.propertyKind = first.propertyKind

variable {pairing} {first second : Session} {subject resource : Node} {object value : Term} {triple statement : Triple}
  {rows others : List Row} {shown image : NodeView}

theorem covered_annotated {node : Node} (covered : pairing.Covered (.individual node)) : pairing.Covered (.annotated node) := by
  cases node with
  | named => trivial
  | blank => exact covered

namespace Founded

variable {ontology : Ontology} {produced : Std.HashMap TripleId AnnotatedAxiom}

theorem covers_of {bare : Axiom} {notes : List Annotation} (own : pairing.Covers bare.components)
    (noted : ∀ note ∈ notes, pairing.Covers note.components) : pairing.Covers (AnnotatedAxiom.of bare notes).components := by
  intro component member
  rcases List.mem_append.mp (AnnotatedAxiom.components_of bare notes member) with inside | inside
  · exact own component inside
  · obtain ⟨note, listed, inside⟩ := List.mem_flatMap.mp inside
    exact noted note listed component inside

theorem add (founded : pairing.Founded ontology produced) {fact : AnnotatedAxiom} (own : pairing.Covers fact.components) :
    pairing.Founded (ontology.add fact) produced where
  sound := founded.sound.insert fact
  facts other member := ((Ontology.mem_axioms_add founded.sound).mp member).elim (fun same => same ▸ own) (founded.facts other)
  notes := founded.notes
  told := founded.told

theorem remove (founded : pairing.Founded ontology produced) (fact : AnnotatedAxiom) :
    pairing.Founded (ontology.remove fact) produced where
  sound := founded.sound.remove fact
  facts other member := founded.facts other ((Ontology.mem_axioms_remove founded.sound).mp member).2
  notes := founded.notes
  told := founded.told

theorem tell (founded : pairing.Founded ontology produced) {fact : AnnotatedAxiom} (own : pairing.Covers fact.components)
    (id : TripleId) : pairing.Founded ontology (produced.insert id fact) where
  sound := founded.sound
  facts := founded.facts
  notes := founded.notes
  told other found present := by
    rw [Std.HashMap.getElem?_insert] at present
    split at present
    · cases present
      exact own
    · exact founded.told other found present

theorem annotate (founded : pairing.Founded ontology produced) {note : Annotation} (own : pairing.Covers note.components) :
    pairing.Founded (ontology.annotate note) produced := by
  rw [Ontology.annotate]
  split
  · exact founded
  · exact ⟨founded.sound, founded.facts, List.forall_mem_append.mpr ⟨founded.notes, List.forall_mem_singleton.mpr own⟩, founded.told⟩

theorem addImport (founded : pairing.Founded ontology produced) (iri : Iri) :
    pairing.Founded (ontology.addImport iri) produced := by
  rw [Ontology.addImport]
  split
  · exact founded
  · exact ⟨founded.sound, founded.facts, founded.notes, founded.told⟩

end Founded

namespace Views

variable (views : pairing.Views shown image)
include views

theorem ofKind (propertyKind : Option PropertyKind) : pairing.Views { shown with propertyKind } { image with propertyKind } :=
  { views with propertyKind := rfl }

theorem triples : List.Forall₂ pairing.Triples shown.triples image.triples := rel_map views.rows fun _ _ own => own.triple

theorem objects (predicate : Iri) : List.Forall₂ pairing.Terms (shown.objects predicate) (image.objects predicate) :=
  rel_map (rel_filter views.triples fun _ _ own => by rw [own.predicate]) fun _ _ own => own.object

theorem count (predicate : Iri) : image.count predicate = shown.count predicate := (views.objects predicate).length_eq.symm

theorem has (predicate : Iri) : image.has predicate = shown.has predicate := by
  rw [NodeView.has, NodeView.has, isEmpty_of_forall₂ (views.objects predicate)]

theorem first? (predicate : Iri) : Option.Rel pairing.Terms (shown.first? predicate) (image.first? predicate) :=
  rel_head? (views.objects predicate)

theorem types : image.types = shown.types := filterMap_of_forall₂ (views.objects _) fun _ _ own => own.iri?

theorem fits (pattern : Pattern) : pattern.fits image = pattern.fits shown := by
  have all (predicates : List Iri) :
      image.triples.all (fun triple => triple.predicate == Rdf.type || predicates.contains triple.predicate) =
        shown.triples.all fun triple => triple.predicate == Rdf.type || predicates.contains triple.predicate := by
    rw [List.all_eq_not_any_not, List.all_eq_not_any_not]
    exact congrArg _ (any_of_forall₂ views.triples fun _ _ own => by rw [own.predicate])
  simp only [Pattern.fits, Pattern.fitsKind, views.types, views.count, views.propertyKind, all]

theorem fitsLeniently (pattern : Pattern) : pattern.fitsLeniently image = pattern.fitsLeniently shown := by
  have has : image.has = shown.has := funext views.has
  simp only [Pattern.fitsLeniently, Pattern.fitsKind, has, views.propertyKind]

theorem atomHint? : image.atomHint? = shown.atomHint? := by
  rw [NodeView.atomHint?, NodeView.atomHint?, views.types]
  have rel := views.first? Swrl.argument2
  generalize shown.first? Swrl.argument2 = object at rel
  generalize image.first? Swrl.argument2 = value at rel
  rcases rel with (_ | _) | _ <;> rfl

end Views

namespace Sessions

section Questions

variable (same : pairing.Sessions first second)
include same

theorem hasKind (iri : Iri) (kind : EntityKind) : second.hasKind iri kind = first.hasKind iri kind := by
  rw [Session.hasKind, Session.hasKind, same.kinds]

theorem propertyKind? (iri : Iri) : second.propertyKind? iri = first.propertyKind? iri := by
  simp only [Session.propertyKind?, same.hasKind]

theorem termPropertyKind? (terms : pairing.Terms object value) :
    second.termPropertyKind? value = first.termPropertyKind? object := by
  rcases terms with (iri | _) | _
  · exact same.propertyKind? iri
  · rfl
  · rfl

theorem isAnnotationProperty (iri : Iri) : second.isAnnotationProperty iri = first.isAnnotationProperty iri := by
  rw [Session.isAnnotationProperty, Session.isAnnotationProperty, same.propertyKind?]

theorem standsForTriple (nodes : pairing.Nodes subject resource) :
    second.standsForTriple resource = first.standsForTriple subject := by
  rw [Session.standsForTriple, Session.standsForTriple, same.store.hasType nodes, same.store.hasType nodes]

theorem unused (listed : List.Forall₂ pairing.Rows rows others) :
    List.Forall₂ pairing.Rows (first.unused rows) (second.unused others) :=
  rel_filter listed fun _ _ own => by rw [own.id, same.store.isConsumed]

theorem reifiers (nodes : pairing.Nodes subject resource) (property : Iri) (terms : pairing.Terms object value) :
    List.Forall₂ pairing.Nodes (first.reifiers subject property object) (second.reifiers resource property value) := by
  refine rel_filter (rel_filterMap_ite (same.unused (same.store.withObject (.resource nodes)))
    (fun _ _ own => by rw [own.triple.predicate]) fun _ _ own => own.triple.subject) fun node partner own => ?_
  rw [same.standsForTriple own, contains_of_forall₂ Terms.eq_iff (same.store.objects own _) (.named property),
    contains_of_forall₂ Terms.eq_iff (same.store.objects own _) terms]

theorem isSpecial (nodes : pairing.Nodes subject resource) : second.isSpecial resource = first.isSpecial subject := by
  have header : (second.header == some resource) = (first.header == some subject) := by
    have rel := same.header
    generalize first.header = header at rel
    generalize second.header = twin at rel
    cases rel with
    | none => rfl
    | some own => exact own.beq_eq nodes
  rw [Session.isSpecial, Session.isSpecial, header, same.store.types nodes]

omit same in
theorem describesConstruct (triples : pairing.Triples triple statement) :
    Session.describesConstruct statement = Session.describesConstruct triple := by
  rw [Session.describesConstruct, Session.describesConstruct, triples.predicate, triples.object.iri?]

theorem isStructural (nodes : pairing.Nodes subject resource) : second.isStructural resource = first.isStructural subject := by
  cases nodes with
  | named iri => rfl
  | blank pair =>
    exact any_of_forall₂ (same.store.withSubject (.blank pair)) fun _ _ own => describesConstruct own.triple

theorem isTypeCandidate (nodes : pairing.Nodes subject resource) (terms : pairing.Terms object value) :
    second.isTypeCandidate resource value = first.isTypeCandidate subject object := by
  rcases terms with (iri | _) | _
  · rw [Session.isTypeCandidate, Session.isTypeCandidate, same.isSpecial nodes, same.isStructural nodes]
  · rw [Session.isTypeCandidate, Session.isTypeCandidate, same.isSpecial nodes, same.isStructural nodes]
  · rfl

theorem isCandidate (triples : pairing.Triples triple statement) : second.isCandidate statement = first.isCandidate triple := by
  simp only [Session.isCandidate, triples.predicate, same.isTypeCandidate triples.subject triples.object,
    same.isSpecial triples.subject, same.isStructural triples.subject, triples.subject.iri?]

theorem isNoise (triples : pairing.Triples triple statement) : second.isNoise statement = first.isNoise triple := by
  simp only [Session.isNoise, triples.predicate, triples.object.iri?, triples.subject.iri?, same.kinds]

theorem firstElement? (terms : pairing.Terms object value) :
    Option.Rel pairing.Terms (first.firstElement? object) (second.firstElement? value) := by
  cases terms with
  | literal => exact .none
  | resource nodes => exact rel_head? (same.store.objects nodes _)

theorem tripleShape? {inner image : Term → Option Shape}
    (each : ∀ object value, pairing.Terms object value → image value = inner object) (listed : List.Forall₂ pairing.Rows rows others) :
    second.tripleShape? image others = first.tripleShape? inner rows := by
  induction listed with
  | nil => rfl
  | cons own _ ih =>
    have rel := same.firstElement? own.triple.object
    rw [Session.tripleShape?, Session.tripleShape?, own.triple.predicate, ih]
    generalize first.firstElement? _ = element at rel
    generalize second.firstElement? _ = twin at rel
    cases rel with
    | none => rfl
    | some terms =>
      rw [Option.bind_some, Option.bind_some, each _ _ terms]
      cases terms <;> rfl

theorem shapeWithin (depth : Nat) : ∀ object value, pairing.Terms object value →
    second.shapeWithin depth value = first.shapeWithin depth object := by
  induction depth with
  | zero =>
    rintro _ _ ((iri | _) | _)
    · simp only [Session.shapeWithin, same.hasKind]
    · rfl
    · rfl
  | succ depth ih =>
    rintro _ _ ((iri | pair) | _)
    · simp only [Session.shapeWithin, same.hasKind]
    · rw [Session.shapeWithin, Session.shapeWithin, same.store.types (.blank pair),
        same.tripleShape? ih (same.store.withSubject (.blank pair))]
    · rfl

theorem shape? (terms : pairing.Terms object value) : second.shape? value = first.shape? object :=
  same.shapeWithin 16 object value terms

theorem definesDatatype (nodes : pairing.Nodes subject resource) (terms : pairing.Terms object value) :
    second.definesDatatype resource value = first.definesDatatype subject object := by
  simp only [Session.definesDatatype, nodes.iri?, same.shape? terms, same.hasKind]

theorem view (nodes : pairing.Nodes subject resource) : pairing.Views (first.view subject) (second.view resource) :=
  ⟨nodes, rel_filter (same.store.withSubject nodes) fun _ _ own => by rw [own.triple.predicate], rfl⟩

theorem restrictionHint? (views : pairing.Views shown image) : second.restrictionHint? image = first.restrictionHint? shown := by
  have fillers : List.Forall₂ pairing.Terms ([Owl.someValuesFrom, Owl.allValuesFrom].filterMap shown.first?)
      ([Owl.someValuesFrom, Owl.allValuesFrom].filterMap image.first?) :=
    rel_filterMap (rel_refl _) fun predicate _ same => same ▸ views.first? predicate
  have rel := views.first? Owl.hasValue
  rw [Session.restrictionHint?, Session.restrictionHint?, views.has, views.has, views.has,
    findSome?_of_forall₂ fillers fun _ _ own => by rw [same.shape? own]]
  generalize shown.first? Owl.hasValue = object at rel
  generalize image.first? Owl.hasValue = value at rel
  rcases rel with (_ | _) | _ <;> rfl

end Questions

section Individuals

variable (same : pairing.Sessions first second)
include same

theorem anonymous {node partner : BlankNode} (pair : pairing.Pairs node partner) :
    first.anonymous pairing.number node = pairing.label node ∧ second.anonymous pairing.number partner = pairing.label node := by
  obtain ⟨rank, twin⟩ := same.store.ranks node partner pair
  rw [Session.anonymous, Session.anonymous, TripleStore.blankRank, TripleStore.blankRank,
    Std.HashMap.getD_eq_getD_getElem?, Std.HashMap.getD_eq_getD_getElem?, rank, twin]
  exact ⟨rfl, rfl⟩

theorem individual (nodes : pairing.Nodes subject resource) :
    resource.rename (second.anonymous pairing.number) = subject.rename (first.anonymous pairing.number) ∧
      pairing.Covered (.individual (subject.rename (first.anonymous pairing.number))) := by
  cases nodes with
  | named iri => exact ⟨rfl, trivial⟩
  | blank pair =>
    obtain ⟨label, twin⟩ := same.anonymous pair
    exact ⟨congrArg Node.blank (twin.trans label.symm), _, _, pair, label⟩

theorem annotationValue (terms : pairing.Terms object value) :
    value.rename (second.anonymous pairing.number) = object.rename (first.anonymous pairing.number) ∧
      pairing.Covered (.annotationValue (object.rename (first.anonymous pairing.number))) := by
  cases terms with
  | literal => exact ⟨rfl, trivial⟩
  | resource nodes =>
    obtain ⟨equal, covered⟩ := same.individual nodes
    exact ⟨congrArg Term.resource equal, covered_annotated covered⟩

end Individuals

section Changes

variable (same : pairing.Sessions first second)
include same

theorem learn (iri : Iri) (kind : EntityKind) : pairing.Sessions (first.learn iri kind) (second.learn iri kind) := by
  rw [Session.learn, Session.learn, same.kinds]
  split
  · exact same
  · exact { same with kinds := rfl, kindsChanged := rfl }

theorem consume (id : TripleId) : pairing.Sessions (first.consume id) (second.consume id) :=
  { same with store := same.store.consume id }

theorem consumeAll (listed : List.Forall₂ pairing.Rows rows others) :
    pairing.Sessions (first.consumeAll rows) (second.consumeAll others) :=
  { same with store := same.store.consumeAll listed }

theorem commit (id : TripleId) {fact : AnnotatedAxiom} (own : pairing.Covers fact.components) :
    pairing.Sessions (first.commit id fact) (second.commit id fact) :=
  { same with
    ontology := congrArg (Ontology.add · fact) same.ontology
    produced := congrArg (·.insert id fact) same.produced
    founded := (same.founded.add own).tell own id }

theorem addAnnotations {fact : AnnotatedAxiom} {notes : List Annotation} (own : pairing.Covers fact.components)
    (noted : ∀ note ∈ notes, pairing.Covers note.components) :
    pairing.Sessions (first.addAnnotations fact notes) (second.addAnnotations fact notes) := by
  obtain ⟨bare, known⟩ := List.forall_mem_append.mp own
  refine { same with
    ontology := congrArg (fun ontology => (Ontology.remove ontology fact).add _) same.ontology
    founded := (same.founded.remove fact).add (Founded.covers_of bare ?_) }
  refine List.forall_mem_append.mpr ⟨fun note listed component inside => ?_, noted⟩
  exact known component (List.mem_flatMap.mpr ⟨note, listed, inside⟩)

/-- Rolled back to corresponding points, the sessions correspond again. -/
theorem rollback {start origin : Session} (before : pairing.Sessions start origin) :
    pairing.Sessions (first.rollback start.checkpoint) (second.rollback origin.checkpoint) := by
  have position : origin.checkpoint.position = start.checkpoint.position := congrArg Array.size before.store.log
  have pending : origin.checkpoint.pending = start.checkpoint.pending := before.pending.length_eq.symm
  have taken : List.Forall₂ Problem.Alike (first.pending.take start.checkpoint.pending).toList
      (second.pending.take start.checkpoint.pending).toList := by
    simpa using List.forall₂_take start.checkpoint.pending same.pending
  rw [Session.rollback, Session.rollback, position, pending]
  exact { same with
    store := same.store.rollback start.checkpoint.position
    pending := taken
    kinds := before.kinds
    kindsChanged := before.kindsChanged }

end Changes

end Sessions

end Pairing

end OwlGraph
