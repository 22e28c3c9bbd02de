import OwlGraph.Proofs.LoadLockstep
import OwlGraph.Proofs.ParallelStatements

/-! Loads side by side. The header is found at paired nodes, the same entities are declared, the
candidates correspond and are tried in the same order, and each comes to the same end. -/

namespace OwlGraph

/-- Loads that were given up alike: refused over problems of the same kind, or cancelled after as
many passes. -/
inductive LoadError.Alike : LoadError → LoadError → Prop
  | refused {first second : Report} (reports : first.Alike second) : Alike (.refused first) (.refused second)
  | cancelled (passes : Nat) : Alike (.cancelled passes) (.cancelled passes)
  | malformed : Alike .malformed .malformed
  | invalidBase : Alike .invalidBase .invalidBase

namespace Pairing

variable {pairing : Pairing} {subject resource : Node} {triple statement : Triple} {row other : Row} {rows others : List Row}
  {nodes partners waiting deferred seen met : List Node}

namespace Sessions

variable {first second : Session} (same : pairing.Sessions first second)
include same

theorem ontologyNodes : List.Forall₂ pairing.Nodes first.ontologyNodes second.ontologyNodes := by
  exact rel_eraseDups Nodes.eq_iff (rel_filterMap_ite (same.store.withPredicate _)
    (fun _ _ own => own.triple.object_eq Owl.Ontology) fun _ _ own => own.triple.subject)

theorem isImported (own : pairing.Nodes subject resource) : second.isImported resource = first.isImported subject :=
  any_of_forall₂ (same.store.withObject (.resource own)) fun _ _ own => by rw [own.triple.predicate]

theorem headerNode? : Option.Rel pairing.Nodes first.headerNode? second.headerNode? := by
  have found := rel_find? same.ontologyNodes fun _ _ own => congrArg not (same.isImported own)
  have head := rel_head? same.ontologyNodes
  rw [Session.headerNode?, Session.headerNode?]
  generalize first.ontologyNodes.find? _ = node at found
  generalize second.ontologyNodes.find? _ = partner at found
  cases found with
  | none => exact head
  | some own => exact .some own

theorem declare (strict : Bool) (own : pairing.Rows row other) :
    pairing.Sessions (first.declare strict row) (second.declare strict other) := by
  have declared (id : TripleId) (entity : Entity) :
      pairing.Covers (AnnotatedAxiom.of (.declaration entity) []).components :=
    Founded.covers_of (List.forall_mem_singleton.mpr trivial) (List.forall_mem_nil _)
  rw [Session.declare, Session.declare, own.triple.subject.iri?, own.triple.object.iri?, own.id]
  split
  · split
    · dsimp only
      split
      · exact (same.learn _ _).consume _
      · exact ((same.learn _ _).consume _).commit _ (declared row.id _)
    · split
      · exact { same.consume row.id with ruleVariables := by rw [same.ruleVariables] }
      · split
        · exact same.learn _ _
        · split
          · exact same.learn _ _
          · exact same
  · exact same

theorem readDeclarations (strict : Bool) : pairing.Sessions (first.readDeclarations strict) (second.readDeclarations strict) := by
  have each : ∀ {rows others : List Row}, List.Forall₂ pairing.Rows rows others → ∀ {first second : Session},
      pairing.Sessions first second →
      pairing.Sessions (rows.foldl (Session.declare strict) first) (others.foldl (Session.declare strict) second) := by
    intro rows others listed
    induction listed with
    | nil => exact fun same => same
    | cons own _ ih => exact fun same => ih (same.declare strict own)
  exact each (same.unused (same.store.withPredicate _)) same

theorem structuralObject? (triples : pairing.Triples triple statement) :
    Option.Rel pairing.Nodes (first.structuralObject? triple) (second.structuralObject? statement) := by
  have blank : Option.Rel pairing.Nodes (triple.object.blank?.map Node.blank) (statement.object.blank?.map Node.blank) :=
    rel_option_map triples.object.blank? fun _ _ => .blank
  exact rel_option_filter blank fun _ _ own => same.isStructural own

theorem constructRows (own : pairing.Nodes subject resource) :
    List.Forall₂ pairing.Rows (first.constructRows subject) (second.constructRows resource) :=
  rel_filter (same.store.withSubject own) fun _ _ own => by rw [own.triple.predicate]

theorem constructNodes (steps : Nat) : ∀ {waiting deferred seen met : List Node}, List.Forall₂ pairing.Nodes waiting deferred →
    List.Forall₂ pairing.Nodes seen met →
    List.Forall₂ pairing.Nodes (first.constructNodes steps waiting seen) (second.constructNodes steps deferred met) := by
  induction steps with
  | zero => exact fun _ listed => by rwa [Session.constructNodes, Session.constructNodes]
  | succ steps ih =>
    intro waiting deferred seen met pending listed
    cases pending with
    | nil => exact listed
    | cons own rest =>
      rw [Session.constructNodes, Session.constructNodes, contains_of_forall₂ Nodes.eq_iff listed own]
      split
      · exact ih rest listed
      · have next := rel_filterMap (same.constructRows own) fun _ _ row => same.structuralObject? row.triple
        exact ih (List.rel_append (List.rel_reverse next) rest) (.cons own listed)

theorem discard (own : pairing.Rows row other) : pairing.Sessions (first.discard row) (second.discard other) := by
  have object := rel_toList (same.structuralObject? own.triple)
  have subject : List.Forall₂ pairing.Nodes (if first.isStructural row.triple.subject then [row.triple.subject] else [])
      (if second.isStructural other.triple.subject then [other.triple.subject] else []) := by
    rw [same.isStructural own.triple.subject]
    split
    · exact .cons own.triple.subject .nil
    · exact .nil
  have nodes := same.constructNodes (first.store.entries.size + 2) (List.rel_append object subject) .nil
  rw [Session.discard, Session.discard, same.store.size, own.id]
  exact (same.consume row.id).consumeAll (List.rel_flatMap nodes fun _ _ own => same.constructRows own)

theorem axiomNodes : List.Forall₂ pairing.Nodes first.axiomNodes second.axiomNodes := by
  exact rel_eraseDups Nodes.eq_iff (rel_filterMap_ite (same.unused (same.store.withObject (.named Owl.Axiom)))
    (fun _ _ own => by rw [own.triple.predicate]) fun _ _ own => own.triple.subject)

theorem awaitsAxiom (own : pairing.Nodes subject resource) : second.awaitsAxiom resource = first.awaitsAxiom subject := by
  have typed := any_of_forall₂ (same.unused (same.store.matching own Rdf.type)) fun _ _ own => own.triple.object_beq Owl.Axiom
  have sources := any_of_forall₂ (rel_filterMap (same.store.objects own Owl.annotatedSource) fun _ _ terms => terms.node?)
    fun _ _ own => same.standsForTriple own
  rw [Session.awaitsAxiom, Session.awaitsAxiom, typed, sources]

end Sessions

open Load

variable {context : Context} {α β : Type} {good : α → Prop} {fine : β → Prop} {right : α → α → Prop}

/-- The loads do the same. -/
abbrev Loads (pairing : Pairing) (context : Context) (body other : Load α) : Prop :=
  pairing.Parallel LoadError.Alike context (Exactly fun _ => True) body other

section Reports

theorem loads_report {problem trouble : Problem} (candidate statement : Option Triple) (alike : problem.Alike trouble) :
    pairing.Loads context (report problem candidate) (report trouble statement) := by
  refine .read fun _ => .ite Iff.rfl (fun _ => .stop (.refused ⟨alike.kind, rfl, rfl⟩) _ _) fun _ => .alter fun first second same => ?_
  refine { same with reports := ?_ }
  rw [Array.toList_push, Array.toList_push]
  exact List.rel_append same.reports (.cons ⟨alike.kind, alike.severity, rfl⟩ .nil)

theorem loads_flush : pairing.Loads context flush flush :=
  .look fun _ _ same => Parallel.bind (.alter fun _ _ later => { later with pending := .nil }) fun _ _ =>
    .forM same.pending fun _ _ own => loads_report none none own

end Reports

section Attempts

variable {body deed : Translation α} {keep kept : α → Session → Session} {drop dropped : Session → Session}
  {candidate image : Option Triple} {done : α → β} {waiting givenUp : β}

/-- Translations that read the same are concluded alike. -/
theorem parallel_conclude (reads : pairing.Reads context good body deed)
    (keeps : ∀ value, good value → ∀ first second, pairing.Sessions first second → pairing.Sessions (keep value first) (kept value second))
    (drops : ∀ first second, pairing.Sessions first second → pairing.Sessions (drop first) (dropped second))
    (ended : ∀ value, good value → fine (done value)) (waits : fine waiting) (gave : fine givenUp) :
    pairing.Parallel LoadError.Alike context (Exactly fine) (conclude body keep drop candidate done waiting givenUp)
      (conclude deed kept dropped image done waiting givenUp) := by
  intro numbered first second same
  obtain ⟨results, later⟩ := reads numbered first second same
  rw [conclude, conclude]
  generalize (body context first).1 = result at results
  generalize (deed context second).1 = outcome at results
  cases results with
  | ok values =>
    obtain ⟨rfl, own⟩ := values
    have succeed : pairing.Parallel LoadError.Alike context (Exactly fine) (succeed (keep _) (done _)) (succeed (kept _) (done _)) :=
      Parallel.bind (.alter (keeps _ own)) fun _ _ => loads_flush.bind fun _ _ => .settled (ended _ own)
    exact succeed numbered _ _ later
  | error errors =>
    have back := later.rollback same
    cases errors with
    | deferred iri => exact ⟨.ok ⟨rfl, waits⟩, back⟩
    | failed problems =>
      have giveUp : pairing.Parallel LoadError.Alike context (Exactly fine) (giveUp drop _ candidate givenUp)
          (giveUp dropped _ image givenUp) :=
        Parallel.bind (.alter drops) fun _ _ => (loads_report _ _ problems).bind fun _ _ => .settled gave
      exact giveUp numbered _ _ back

theorem parallel_attempt (reads : pairing.Reads context good body deed) :
    pairing.Parallel LoadError.Alike context (Exactly fun found => ∀ value ∈ found, good value) (attempt body) (attempt deed) := by
  rw [attempt_eq, attempt_eq]
  exact parallel_conclude reads (fun _ _ _ _ => id) (fun _ _ => id) (fun _ own _ same => by cases same; exact own) nofun nofun

theorem loads_translateCandidate (own : pairing.Rows row other) :
    pairing.Loads context (translateCandidate row) (translateCandidate other) := by
  rw [translateCandidate_eq, translateCandidate_eq, own.id]
  exact parallel_conclude (Pairing.reads_statement own.triple) (fun _ covers _ _ same => (same.consume _).commit _ covers)
    (fun _ _ same => same.discard own) (fun _ _ => trivial) trivial trivial

end Attempts

section Passes

/-- The loads leave corresponding triples over. -/
abbrev Leaves (pairing : Pairing) (context : Context) (body other : Load (List Row)) : Prop :=
  pairing.Parallel LoadError.Alike context (List.Forall₂ pairing.Rows) body other

theorem leaves_runPass (listed : List.Forall₂ pairing.Rows rows others) :
    pairing.Leaves context (runPass rows) (runPass others) := by
  induction listed with
  | nil => exact .pure .nil
  | cons own _ ih =>
    rw [runPass_cons, runPass_cons]
    have postpones : pairing.Loads context (postpones _) (postpones _) :=
      .look fun _ _ same => .ite (by rw [own.id, same.store.isConsumed]) (fun _ => .settled trivial) fun _ =>
        (loads_translateCandidate own).bind fun _ _ => .settled trivial
    refine postpones.bind fun waits _ => ih.relate fun rows others rest => .pure ?_
    cases waits with
    | false => exact rest
    | true => exact .cons own rest

theorem loads_beginPass : pairing.Loads context beginPass beginPass := by
  refine Parallel.bind (?_ : pairing.Loads context checkCancelled checkCancelled) fun _ _ =>
    .alter fun _ _ same => { same with passes := congrArg (· + 1) same.passes }
  refine .read fun _ => .ite Iff.rfl (fun _ => .look fun first second same => ?_) fun _ => .settled trivial
  rw [same.passes]
  exact .raise (.cancelled _)

theorem leaves_makePasses (remaining : Nat) : ∀ {rows others : List Row}, List.Forall₂ pairing.Rows rows others →
    pairing.Leaves context (makePasses remaining rows) (makePasses remaining others) := by
  induction remaining with
  | zero => exact fun listed => .pure listed
  | succ remaining ih =>
    intro rows others listed
    rw [makePasses, makePasses]
    refine .ite (by rw [isEmpty_of_forall₂ listed]) (fun _ => .pure .nil) fun _ => loads_beginPass.bind fun _ _ =>
      Parallel.bind (.alter fun _ _ same => { same with kindsChanged := rfl }) fun _ _ =>
        (leaves_runPass listed).relate fun rest left kept => .look fun first second same => ?_
    exact .ite (by rw [kept.length_eq, listed.length_eq, same.kindsChanged]) (fun _ => .pure kept) fun _ => ih kept

theorem parallel_withDefaults {body deed : Load α} (parallel : pairing.Parallel LoadError.Alike { context with forced := true } right body deed) :
    pairing.Parallel LoadError.Alike context right (withDefaults body) (withDefaults deed) := parallel

theorem loads_settle (listed : List.Forall₂ pairing.Rows rows others) : pairing.Loads context (settle rows) (settle others) := by
  exact .ite (by rw [isEmpty_of_forall₂ listed]) (fun _ => .settled trivial) fun _ => loads_beginPass.bind fun _ _ =>
    (leaves_runPass listed).relate fun _ _ rest => .forM rest fun _ _ _ =>
      loads_report none none ⟨rfl, rfl⟩

theorem loads_translateAxioms : pairing.Loads context translateAxioms translateAxioms := by
  refine .look fun _ _ same => .read fun _ => (leaves_makePasses _ ?_).relate fun _ _ rest => parallel_withDefaults (loads_settle rest)
  exact rel_filter same.store.unconsumed fun _ _ own => same.isCandidate own.triple

end Passes

section Whole

theorem loads_readHeaderTriple (id : OntologyId × Bool) (own : pairing.Rows row other) :
    pairing.Loads context (readHeaderTriple id row) (readHeaderTriple id other) := by
  obtain ⟨number, subject, predicate, object⟩ := row
  obtain ⟨count, resource, relation, value⟩ := other
  have terms : pairing.Terms object value := own.triple.object
  obtain rfl : count = number := own.id
  obtain rfl : relation = predicate := own.triple.predicate
  have used : pairing.Loads context (modify (·.consume count)) (modify (·.consume count)) := .alter fun _ _ same => same.consume count
  unfold readHeaderTriple
  refine .ite (and_congr Iff.rfl (terms.eq_iff (.named Owl.Ontology))) (fun _ => used.bind fun _ _ => .settled trivial) fun _ => ?_
  rw [terms.iri?]
  split
  · exact .settled trivial
  · refine .ite Iff.rfl (fun _ => .ite Iff.rfl (fun _ => ?_) fun _ => used.bind fun _ _ => .settled trivial) fun _ =>
      .ite Iff.rfl (fun _ => Parallel.bind (.alter fun _ _ same => ?_) fun _ _ => .settled trivial) fun _ => .settled trivial
    · exact .bind (loads_report none none ⟨rfl, rfl⟩) fun _ _ => used.bind fun _ _ => .settled trivial
    · exact { same.consume count with
        ontology := congrArg (Ontology.addImport · _) same.ontology
        founded := same.founded.addImport _ }

theorem loads_readHeader : pairing.Loads context readHeader readHeader := by
  refine .look fun first second same => ?_
  have rel := same.headerNode?
  dsimp only
  generalize first.headerNode? = node at rel
  generalize second.headerNode? = partner at rel
  cases rel with
  | none => exact .settled trivial
  | @some node partner own =>
    have others : List.Forall₂ pairing.Nodes (first.ontologyNodes.filter (· != node)) (second.ontologyNodes.filter (· != partner)) :=
      rel_filter same.ontologyNodes fun _ _ other => congrArg not (other.beq_eq own)
    have rest (plain : OntologyId) : pairing.Loads context
        (do
          let id ← (first.store.withSubject node).foldlM readHeaderTriple (plain, false)
          modify fun session => { session with header := some node, ontology := { session.ontology with id := id.1 } })
        (do
          let id ← (second.store.withSubject partner).foldlM readHeaderTriple (plain, false)
          modify fun session => { session with header := some partner, ontology := { session.ontology with id := id.1 } }) := by
      refine Parallel.bind (.foldlM (same.store.withSubject own) (fun id _ _ _ own => loads_readHeaderTriple id own) _ trivial)
        fun id _ => .alter fun _ _ same => ?_
      exact { same with
        header := .some own
        ontology := by rw [same.ontology]
        founded := ⟨same.founded.sound, same.founded.facts, same.founded.notes, same.founded.told⟩ }
    refine Parallel.bind (.forM others fun _ _ _ => loads_report none none ⟨rfl, rfl⟩) fun _ _ => ?_
    cases own with
    | named iri => exact rest (.named iri none)
    | blank => exact rest .anonymous

theorem loads_readHeaderAnnotations : pairing.Loads context readHeaderAnnotations readHeaderAnnotations := by
  refine .look fun first second same => ?_
  have rel := same.header
  generalize first.header = node at rel
  generalize second.header = partner at rel
  cases rel with
  | none => exact .settled trivial
  | some own =>
    refine (parallel_attempt (reads_annotationsOn own)).bind fun notes noted => .alter fun first second same => ?_
    have own : pairing.Notes (notes.getD []) := by
      cases notes with
      | none => exact List.forall_mem_nil _
      | some notes => exact noted notes rfl
    have founded : ∀ {notes : List Annotation} {ontology : Ontology}, pairing.Notes notes →
        pairing.Founded ontology first.produced → pairing.Founded (notes.foldl Ontology.annotate ontology) first.produced := by
      intro notes
      induction notes with
      | nil => exact fun _ founded => founded
      | cons note rest ih =>
        exact fun own founded => ih (fun other member => own other (List.mem_cons_of_mem _ member))
          (founded.annotate (own note List.mem_cons_self))
    exact { same with ontology := by rw [same.ontology], founded := founded own same.founded }

theorem loads_readAxiomNode (own : pairing.Nodes subject resource) :
    pairing.Loads context (readAxiomNode subject) (readAxiomNode resource) := by
  refine .look fun first second same => .ite (by rw [same.awaitsAxiom own]) (fun _ => ?_) fun _ => .settled trivial
  refine (parallel_attempt (tells_mergeAnnotations own)).bind fun merged _ => .ite Iff.rfl (fun _ => ?_) fun _ => .settled trivial
  exact .alter fun _ _ same => same.consumeAll (same.store.withSubject own)

theorem loads_readAxiomAnnotations : pairing.Loads context readAxiomAnnotations readAxiomAnnotations :=
  .look fun _ _ same => .forM same.axiomNodes fun _ _ own => loads_readAxiomNode own

theorem loads_reportUnparsed (own : pairing.Rows row other) :
    pairing.Loads context (reportUnparsed row) (reportUnparsed other) := by
  refine Parallel.bind (.alter fun _ _ same => own.id ▸ same.consume row.id) fun _ _ => .look fun first second same => ?_
  exact .ite (by rw [same.isNoise own.triple]) (fun _ => .settled trivial) fun _ => loads_report none none ⟨rfl, rfl⟩

theorem loads_translate : pairing.Loads context translate translate := by
  refine loads_readHeader.bind fun _ _ => .read fun _ => Parallel.bind (.alter fun _ _ same => same.readDeclarations _) fun _ _ =>
    loads_readHeaderAnnotations.bind fun _ _ => loads_translateAxioms.bind fun _ _ =>
      (parallel_withDefaults loads_readAxiomAnnotations).bind fun _ _ => .look fun _ _ same => ?_
  exact .forM same.store.unconsumed fun _ _ own => loads_reportUnparsed own

end Whole

end Pairing

end OwlGraph
