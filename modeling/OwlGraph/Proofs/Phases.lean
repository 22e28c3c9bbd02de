import OwlGraph.Proofs.LoadLockstep
import OwlGraph.Proofs.WorkingSet

/-! The phases of a load, told from what the session shows of the graph: which triples are
candidates, what names are read as, and what a phase does that finds nothing or one thing to do. -/

namespace OwlGraph

namespace Session

theorem unused_of_lists {session : Session} {rows some : List Row} {used : List TripleId}
    (lists : session.store.Lists rows used) (inside : ∀ row ∈ some, row ∈ rows) :
    session.unused some = some.filter fun row => !used.contains row.id :=
  List.filter_congr fun row member => by rw [lists.used row (inside row member)]

/-- No triple has the type of an axiom for its object. -/
theorem axiomNodes_of_lists {session : Session} {rows : List Row} {used : List TripleId} (lists : session.store.Lists rows used)
    (plain : ∀ row ∈ rows, row.triple.object ≠ Owl.Axiom) : session.axiomNodes = [] := by
  have none : session.store.withObject Owl.Axiom = [] := by
    rw [lists.indexed.withObject, lists.listed, List.filter_eq_nil_iff]
    exact fun row member same => plain row member (beq_iff_eq.mp same)
  rw [axiomNodes, none]
  rfl

/-- A reserved type that says nothing of its subject beyond its kind stands for no axiom. -/
theorem isCandidate_type_eq_false {type : Iri} (node : Role.axiomTypes.contains type = false)
    (trait : ((Characteristic.ofType? type).isSome || type == Owl.FunctionalProperty || type.isBuiltinClass ||
      !type.isReserved) = false) (session : Session) (subject : Node) :
    session.isCandidate ⟨subject, Rdf.type, type⟩ = false := by
  calc
    session.isCandidate ⟨subject, Rdf.type, type⟩
    _ = session.isTypeCandidate subject (.resource (.named type)) := by
        rw [isCandidate]
        exact if_pos rfl
    _ = false := by rw [isTypeCandidate, node, trait, Bool.and_false, Bool.or_false]

theorem isCandidate_classAxiom {session : Session} {triple : Triple}
    (listed : triple.predicate ∈ Role.classAxiomPredicates) (special : session.isSpecial triple.subject = false) :
    session.isCandidate triple = true := by
  have other : triple.predicate ≠ Rdf.type ∧
      ¬(triple.predicate = Owl.inverseOf ∨ Role.definitionPredicates.contains triple.predicate = true) := by
    revert listed
    generalize triple.predicate = predicate
    revert predicate
    decide
  rw [isCandidate, if_neg other.1, special, if_neg Bool.false_ne_true, if_neg other.2,
    if_pos (List.contains_iff_mem.mpr listed)]

end Session

namespace Translation

theorem classExpression_named (iri : Iri) (context : Context) (session : Session) :
    classExpression iri context session = (.ok (.named iri), session.learn iri .cls) := by
  change classExpressionWithin (session.store.entries.size + 1) (.resource (.named iri)) context session = _
  rw [classExpressionWithin]
  rfl

theorem dataRange_named (iri : Iri) (context : Context) (session : Session) :
    dataRange iri context session = (.ok (.datatype iri), session.learn iri .datatype) := by
  change dataRangeWithin (session.store.entries.size + 1) (.resource (.named iri)) context session = _
  rw [dataRangeWithin]
  rfl

variable {session : Session} {iri other : Iri}

/-- An equivalence of two names, where the first is no datatype. -/
theorem statement_equivalentClasses (undefined : session.definesDatatype iri other = false) (context : Context) :
    statement ⟨iri, Owl.equivalentClass, other⟩ context session =
      (.ok (.of (.equivalentClasses [.named iri, .named other]) []), (session.learn iri .cls).learn other .cls) := by
  change (predicateAxiom iri Owl.equivalentClass other >>= fun bare => pure (AnnotatedAxiom.of bare []) :
    Translation AnnotatedAxiom) context session = _
  refine Run.bind_run ?_ _
  rw [predicateAxiom, if_neg (by decide), if_pos rfl, Run.get_bind, undefined]
  refine (Run.bind_run (classExpression_named iri context session) _).trans ?_
  exact Run.bind_run (classExpression_named other context _) _

/-- An equivalence of two names, where the first is a datatype. -/
theorem statement_datatypeDefinition (defined : session.definesDatatype iri other = true) (context : Context) :
    statement ⟨iri, Owl.equivalentClass, other⟩ context session =
      (.ok (.of (.datatypeDefinition iri (.datatype other)) []), session.learn other .datatype) := by
  have name : named .datatype iri context session = (.ok iri, session) := rfl
  change (predicateAxiom iri Owl.equivalentClass other >>= fun bare => pure (AnnotatedAxiom.of bare []) :
    Translation AnnotatedAxiom) context session = _
  refine Run.bind_run ?_ _
  rw [predicateAxiom, if_neg (by decide), if_pos rfl, Run.get_bind, defined, if_pos rfl]
  refine (Run.bind_run name _).trans ?_
  exact Run.bind_run (dataRange_named other context session) _

end Translation

namespace Load

variable {context : Context} {session after : Session}

theorem readHeader_absent (absent : session.ontologyNodes = []) : readHeader context session = (.ok (), session) := by
  have header : session.headerNode? = none := by
    rw [Session.headerNode?, absent]
    rfl
  rw [readHeader, Run.get_bind]
  dsimp only
  rw [header]
  rfl

theorem readHeaderAnnotations_absent (absent : session.header = none) :
    readHeaderAnnotations context session = (.ok (), session) := by
  rw [readHeaderAnnotations, Run.get_bind, absent]
  rfl

theorem flush_clean (clean : session.pending = #[]) : flush context session = (.ok (), session) := by
  change (session.pending.toList.forM fun problem => report problem none : Load Unit) context { session with pending := #[] } = _
  rw [clean]
  exact congrArg (Prod.mk _) (by rw [← clean])

theorem translateCandidate_ok {row : Row} {fact : AnnotatedAxiom}
    (run : Translation.statement row.triple context session = (.ok fact, after)) (clean : after.pending = #[]) :
    translateCandidate row context session = (.ok true, (after.consume row.id).commit row.id fact) := by
  rw [translateCandidate_eq, conclude, run]
  change (flush >>= fun _ => pure true : Load Bool) context ((after.consume row.id).commit row.id fact) = _
  have flushed : flush context ((after.consume row.id).commit row.id fact) = _ := flush_clean clean
  rw [Run.bind_run flushed]
  rfl

/-- A candidate that was read along with another one does not wait. -/
theorem postpones_used {row : Row} (used : session.store.isConsumed row.id = true) :
    postpones row context session = (.ok false, session) := by
  change (if session.store.isConsumed row.id then pure false else _ : Load Bool) context session = _
  rw [used]
  rfl

theorem postpones_unused {row : Row} (unused : session.store.isConsumed row.id = false) :
    postpones row context session = (translateCandidate row >>= fun done => pure !done : Load Bool) context session := by
  change (if session.store.isConsumed row.id then pure false
    else translateCandidate row >>= fun done => pure !done : Load Bool) context session = _
  rw [unused, if_neg Bool.false_ne_true]

theorem postpones_ok {row : Row} {fact : AnnotatedAxiom} (unused : session.store.isConsumed row.id = false)
    (run : Translation.statement row.triple context session = (.ok fact, after)) (clean : after.pending = #[]) :
    postpones row context session = (.ok false, (after.consume row.id).commit row.id fact) := by
  have translated := translateCandidate_ok run clean
  rw [postpones_unused unused, Run.bind_run translated]
  rfl

/-- The only candidate of a pass is translated. -/
theorem runPass_single {row : Row} {fact : AnnotatedAxiom} (unused : session.store.isConsumed row.id = false)
    (run : Translation.statement row.triple context session = (.ok fact, after)) (clean : after.pending = #[]) :
    runPass [row] context session = (.ok [], (after.consume row.id).commit row.id fact) := by
  rw [runPass_cons, Run.bind_run (postpones_ok unused run clean)]
  rfl

theorem translateAxioms_eq : translateAxioms context session =
    (makePasses context.config.maxPasses (session.store.unconsumed.filter fun row => session.isCandidate row.triple) >>=
      fun waiting => withDefaults (settle waiting)) context session := rfl

theorem translateAxioms_absent (absent : (session.store.unconsumed.filter fun row => session.isCandidate row.triple) = []) :
    translateAxioms context session = (.ok (), session) := by
  rw [translateAxioms_eq, absent]
  cases context.config.maxPasses <;> rfl

/-- One pass is enough if it leaves no candidate waiting. -/
theorem translateAxioms_once {work : List Row}
    (found : (session.store.unconsumed.filter fun row => session.isCandidate row.triple) = work) (nonempty : work ≠ [])
    (uncancelled : context.config.cancelled = false) (allowed : 0 < context.config.maxPasses)
    (run : runPass work context { session with passes := session.passes + 1, kindsChanged := false } = (.ok [], after)) :
    translateAxioms context session = (.ok (), after) := by
  obtain ⟨remaining, limit⟩ := Nat.exists_eq_add_one_of_ne_zero (Nat.ne_of_gt allowed)
  have passed : pass work context session = (.ok [], after) := (pass_eq uncancelled work).trans run
  have made : makePasses context.config.maxPasses work context session = (.ok [], after) := by
    rw [limit, makePasses_succ, if_neg (fun empty => nonempty (List.isEmpty_iff.mp empty)),
      Run.bind_run passed, afterPass_eq, if_neg (fun same => nonempty (List.length_eq_zero_iff.mp same.1.symm))]
    cases remaining <;> rfl
  rw [translateAxioms_eq, found, Run.bind_run made]
  rfl

theorem readAxiomAnnotations_absent (absent : session.axiomNodes = []) :
    readAxiomAnnotations context session = (.ok (), session) := by
  change (session.axiomNodes.forM readAxiomNode) context session = _
  rw [absent]
  rfl

theorem reportUnparsed_noise {row : Row} (noise : (session.consume row.id).isNoise row.triple = true) :
    reportUnparsed row context session = (.ok (), session.consume row.id) := by
  change (if (session.consume row.id).isNoise row.triple then pure ()
    else report (.unparsed row.triple) none : Load Unit) context (session.consume row.id) = _
  rw [noise]
  rfl

theorem afterDeclarations_ok {translated : Session} (header : session.header = none)
    (axioms : translateAxioms context session = (.ok (), translated)) (nodes : translated.axiomNodes = [])
    (rest : translated.store.unconsumed.forM reportUnparsed context translated = (.ok (), after)) :
    afterDeclarations context session = (.ok (), after) := by
  have notes : withDefaults readAxiomAnnotations context translated = (.ok (), translated) :=
    readAxiomAnnotations_absent nodes
  rw [afterDeclarations, Run.bind_run (readHeaderAnnotations_absent header), Run.bind_run axioms]
  exact (Run.bind_run notes _).trans rest

/-- A load of a graph that does not speak of the ontology. -/
theorem translate_ok (absent : session.ontologyNodes = [])
    (rest : afterDeclarations context (session.readDeclarations context.config.strict) = (.ok (), after)) :
    translate context session = (.ok (), after) := by
  rw [translate_eq, Run.bind_run (readHeader_absent absent)]
  exact rest

end Load

/-- What a load that ends in the session results in. -/
def Loaded.of (session : Session) : Loaded := ⟨session.ontology, session.reports.toList, session.passes⟩

theorem loadTriples_eq_ok {config : Config} {number : Nat} {document : Option Iri} {triples : List Triple} {loaded : Loaded} :
    loadTriples config number document triples = .ok loaded ↔
      (Load.translate ⟨config, number, false⟩ (Load.start document triples)).1 = .ok () ∧
        Loaded.of (Load.translate ⟨config, number, false⟩ (Load.start document triples)).2 = loaded := by
  have start : { store := .ofTriples triples, ontology := { document } } = Load.start document triples := rfl
  rw [loadTriples, start]
  rcases Load.translate ⟨config, number, false⟩ (Load.start document triples) with ⟨error | _, session⟩
  · simp
  · simp [Loaded.of]

theorem loadTriples_eq_error {config : Config} {number : Nat} {document : Option Iri} {triples : List Triple} {error : LoadError} :
    loadTriples config number document triples = .error error ↔
      (Load.translate ⟨config, number, false⟩ (Load.start document triples)).1 = .error error := by
  have start : { store := .ofTriples triples, ontology := { document } } = Load.start document triples := rfl
  rw [loadTriples, start]
  rcases Load.translate ⟨config, number, false⟩ (Load.start document triples) with ⟨error | _, session⟩ <;> simp

theorem loadTriples_of_run {config : Config} {number : Nat} {document : Option Iri} {triples : List Triple} {after : Session}
    (run : Load.translate ⟨config, number, false⟩ (Load.start document triples) = (.ok (), after)) :
    loadTriples config number document triples = .ok (Loaded.of after) := by
  rw [loadTriples_eq_ok, run]
  exact ⟨rfl, rfl⟩

end OwlGraph
