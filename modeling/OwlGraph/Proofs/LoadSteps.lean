import OwlGraph.Proofs.Endings

/-! What the steps of a load leave behind. Between two of them the store is in order and no repair
is pending. Only problems that reading meets are ever reported, and a load is given up over one of
those, if it is strict, or because it was cancelled. -/

namespace OwlGraph

/-- In order: the store and its indexes agree, and no repair is pending. -/
structure Load.Orderly (session : Session) : Prop where
  indexed : session.store.Indexed
  settled : session.pending = #[]

namespace Session

/-- On the way from the first session so many passes were begun in all, and only problems that
reading meets were noted and reported. -/
structure Underway (first : Session) (passes : Nat) (second : Session) : Prop where
  indexed : second.store.Indexed
  passes : second.passes = passes
  noted : ∀ problem ∈ second.pending, problem.isMet = true
  reported : ∀ report ∈ second.reports, report ∈ first.reports ∨ report.problem.isMet = true

/-- The second session comes after the first by whole steps of a load. -/
structure Follows (first : Session) (passes : Nat) (second : Session) : Prop extends Load.Orderly second where
  passes : second.passes = passes
  reported : ∀ report ∈ second.reports, report ∈ first.reports ∨ report.problem.isMet = true

variable {first second : Session} {passes : Nat}

theorem Follows.refl (orderly : Load.Orderly first) : first.Follows first.passes first := ⟨orderly, rfl, fun _ => .inl⟩

/-- Only the store and the records of problems and passes matter. -/
theorem Follows.same (follows : first.Follows passes second) {third : Session} (indexed : third.store.Indexed)
    (pending : third.pending = second.pending) (counted : third.passes = second.passes)
    (reports : third.reports = second.reports) : first.Follows passes third := by
  refine ⟨⟨indexed, pending.trans follows.settled⟩, counted.trans follows.passes, ?_⟩
  rw [reports]
  exact follows.reported

theorem Follows.underway (follows : first.Follows passes second) : first.Underway passes second := by
  refine ⟨follows.indexed, follows.passes, ?_, follows.reported⟩
  rw [follows.settled]
  intro problem member
  cases member with | mk member => exact absurd member List.not_mem_nil

theorem Underway.flushed (underway : first.Underway passes second) : first.Follows passes { second with pending := #[] } :=
  ⟨⟨underway.indexed, rfl⟩, underway.passes, underway.reported⟩

/-- A rollback to where no repair was pending. -/
theorem Underway.rollback (underway : first.Underway passes second) {point : Session} (settled : point.pending = #[]) :
    first.Follows passes (second.rollback point.checkpoint) := by
  refine ⟨⟨TripleStore.indexed_rollback underway.indexed _, ?_⟩, underway.passes, underway.reported⟩
  rw [Session.rollback, checkpoint, settled]
  exact Array.extract_zero

theorem stable_underway : Stable (first.Underway passes) where
  indexed underway := underway.indexed
  reading underway met := by
    refine ⟨TripleStore.indexed_consumeAll underway.indexed _, underway.passes, ?_, underway.reported⟩
    intro problem member
    rcases Array.mem_append.mp member with old | new
    · exact underway.noted problem old
    · exact met problem (List.mem_toArray.mp new)
  stored underway indexed := ⟨indexed, underway.passes, underway.noted, underway.reported⟩
  recorded underway := ⟨underway.indexed, underway.passes, underway.noted, underway.reported⟩
  revised underway := ⟨underway.indexed, underway.passes, underway.noted, underway.reported⟩

end Session

namespace Load

variable {α β : Type} {context : Context} {first : Session} {passes : Nat}

/-- How a load that is not cancelled is given up: only a strict one, over a problem that reading
meets. -/
def Refuses (context : Context) (error : LoadError) : Prop :=
  context.config.strict = true ∧ ∃ report, error = .refused report ∧ report.problem.isMet = true

/-- The computation takes such steps, and is given up only over a problem. -/
abbrev Ends (context : Context) (first : Session) (passes : Nat) (body : Load α) : Prop :=
  Run.Ends context (first.Follows passes) (Refuses context) body

/-- Where such a computation leaves a session in order. -/
theorem Ends.follows {body : Load α} (ends : ∀ first passes, Ends context first passes body) {session after : Session}
    {outcome : Except LoadError α} (orderly : Orderly session) (run : body context session = (outcome, after)) :
    session.Follows session.passes after := by
  have follows := (ends session session.passes session (.refl orderly)).1
  rwa [run] at follows

section Reports

theorem ends_report {problem : Problem} (met : problem.isMet = true) (candidate : Option Triple) :
    Ends context first passes (report problem candidate) := by
  intro session follows
  cases mode : context.config.strict with
  | true =>
    rw [report_strict mode]
    refine ⟨follows, ?_⟩
    rintro _ ⟨⟩
    exact ⟨mode, _, rfl, met⟩
  | false =>
    rw [report_lax mode]
    refine ⟨⟨⟨follows.indexed, follows.settled⟩, follows.passes, ?_⟩, ?_⟩
    · intro report member
      rcases Array.mem_push.mp member with old | rfl
      · exact follows.reported report old
      · exact .inr met
    · rintro _ ⟨⟩

/-- A success reports what was noted on the way to it. -/
theorem ends_succeed (keep : Session → Session) (result : β) {session : Session} (underway : first.Underway passes (keep session)) :
    first.Follows passes (succeed keep result context session).2 ∧
      ∀ error, (succeed keep result context session).1 = .error error → Refuses context error := by
  have each : Ends context first passes ((keep session).pending.toList.forM fun problem => report problem none) :=
    .forM _ fun problem member => ends_report (underway.noted problem (Array.mem_toList_iff.mp member)) none
  have run : succeed keep result context session =
      (((keep session).pending.toList.forM fun problem => report problem none) >>= fun _ => pure result : Load β) context
        { keep session with pending := #[] } := rfl
  rw [run]
  exact (each.bind fun _ => .pure result) _ underway.flushed

variable {body : Translation α} {keep : α → Session → Session} {drop : Session → Session}
  {candidate : Option Triple} {done : α → β} {waiting givenUp : β}

theorem ends_conclude (reads : Translation.Ends context (first.Underway passes) body)
    (keeping : ∀ value session, first.Underway passes session → first.Underway passes (keep value session))
    (dropping : ∀ session, first.Follows passes session → first.Follows passes (drop session)) :
    Ends context first passes (conclude body keep drop candidate done waiting givenUp) := by
  intro session follows
  obtain ⟨underway, known⟩ := reads session follows.underway
  have undone := underway.rollback follows.settled
  rw [conclude]
  split
  · rename_i value _
    exact ends_succeed (keep value) (done value) (keeping value _ underway)
  · refine ⟨undone, ?_⟩
    rintro _ ⟨⟩
  · rename_i problem failed
    have given : Ends context first passes (giveUp drop problem candidate givenUp) :=
      Run.Ends.bind (.alter dropping) fun _ => (ends_report (known _ failed) candidate).bind fun _ => .pure _
    exact given _ undone

theorem ends_attempt (reads : Translation.Ends context (first.Underway passes) body) : Ends context first passes (attempt body) := by
  rw [attempt_eq]
  exact ends_conclude reads (fun _ _ => id) fun _ => id

end Reports

theorem ends_withDefaults {body : Load α} (ends : Ends { context with forced := true } first passes body) :
    Ends context first passes (withDefaults body) := ends

section Preparation

theorem ends_consume (id : TripleId) : Ends context first passes (modify (·.consume id)) := by
  apply Run.Ends.alter
  intro session follows
  exact follows.same (TripleStore.indexed_consume _ id follows.indexed) rfl rfl rfl

theorem ends_readHeaderTriple (version : OntologyId × Bool) (row : Row) :
    Ends context first passes (readHeaderTriple version row) := by
  have used (value : OntologyId × Bool) : Ends context first passes (do
      modify (·.consume row.id)
      return value) := (ends_consume row.id).bind fun _ => .pure value
  unfold readHeaderTriple
  dsimp only
  split
  · exact used _
  split
  · exact .pure _
  split
  · split
    · exact Run.Ends.bind (ends_report rfl none) fun _ => used _
    · exact used _
  split
  · refine Run.Ends.bind (.alter fun session follows => ?_) fun _ => .pure _
    exact follows.same (TripleStore.indexed_consume _ row.id follows.indexed) rfl rfl rfl
  · exact .pure _

theorem ends_readHeader : Ends context first passes readHeader := by
  apply Run.Ends.get
  intro session _
  dsimp only
  split
  · refine Run.Ends.bind (.forM _ fun other _ => ends_report rfl none) fun _ =>
      Run.Ends.bind (.foldlM ends_readHeaderTriple _ _) fun found => .alter ?_
    exact fun _ follows => follows.same follows.indexed rfl rfl rfl
  · exact .pure _

theorem follows_readDeclarations (strict : Bool) {session : Session} (follows : first.Follows passes session) :
    first.Follows passes (session.readDeclarations strict) := by
  apply Session.readDeclarations_keeps _ _ _ _ strict follows
  · intro session iri kind before
    rw [Session.learn_shape]
    exact before.same before.indexed rfl rfl rfl
  · exact fun _ id before => before.same (TripleStore.indexed_consume _ id before.indexed) rfl rfl rfl
  · exact fun _ _ _ before => before.same before.indexed rfl rfl rfl
  · exact fun _ _ before => before.same before.indexed rfl rfl rfl

theorem ends_readHeaderAnnotations : Ends context first passes readHeaderAnnotations := by
  apply Run.Ends.get
  intro session _
  split
  · rename_i node _
    have notes : Translation.Ends context (first.Underway passes) (Translation.annotationsOn node) :=
      Translation.LeavesReading.ends Session.stable_underway (Translation.leaves_annotationsOn node)
    refine (ends_attempt notes).bind fun found => .alter fun _ follows => ?_
    exact follows.same follows.indexed rfl rfl rfl
  · exact .pure _

/-- What a load does before it translates axioms. -/
def prepare : Load Unit := do
  readHeader
  modify (·.readDeclarations (← read).config.strict)
  readHeaderAnnotations

theorem ends_prepare : Ends context first passes prepare :=
  ends_readHeader.bind fun _ => Run.Ends.read (Run.Ends.bind (.alter fun _ follows => follows_readDeclarations _ follows) fun _ =>
    ends_readHeaderAnnotations)

/-- Without triples about types there is no header and no declaration to read. -/
theorem prepare_untyped {session : Session} (untyped : session.store.withPredicate Rdf.type = []) (absent : session.header = none) :
    prepare context session = (.ok (), session) := by
  have header : readHeader context session = (.ok (), session) := by
    apply readHeader_absent
    rw [Session.ontologyNodes, untyped]
    rfl
  have declared : session.readDeclarations context.config.strict = session := by
    rw [Session.readDeclarations, untyped]
    rfl
  rw [prepare, Run.bind_run header]
  change readHeaderAnnotations context (session.readDeclarations context.config.strict) = _
  rw [declared, readHeaderAnnotations_absent absent]

end Preparation

section Candidates

theorem ends_translateCandidate (row : Row) : Ends context first passes (translateCandidate row) := by
  have read : Translation.Ends context (first.Underway passes) (Translation.statement row.triple) :=
    Translation.LeavesReading.ends Session.stable_underway (Translation.leaves_statement row.triple)
  rw [translateCandidate_eq]
  apply ends_conclude read
  · intro fact session underway
    exact ⟨TripleStore.indexed_consume _ row.id underway.indexed, underway.passes, underway.noted, underway.reported⟩
  · intro session follows
    have used := TripleStore.indexed_consume _ row.id follows.indexed
    exact follows.same (TripleStore.indexed_consumeAll used _) rfl rfl rfl

end Candidates

section Merging

theorem ends_readAxiomNode (node : Node) : Ends context first passes (readAxiomNode node) := by
  have merge : Ends context first passes (attempt (Translation.mergeAnnotations node)) :=
    ends_attempt (Translation.ends_mergeAnnotations Session.stable_underway node)
  apply Run.Ends.get
  intro session _
  refine .ite (merge.bind fun _ => .ite (.alter fun session follows => ?_) (.pure _)) (.pure _)
  exact follows.same (TripleStore.indexed_consumeAll follows.indexed _) rfl rfl rfl

theorem ends_reportUnparsed (row : Row) : Ends context first passes (reportUnparsed row) :=
  (ends_consume row.id).bind fun _ => .get fun _ _ => .ite (.pure _) (ends_report rfl none)

/-- What a load does after it translated axioms. -/
def finish : Load Unit := do
  withDefaults readAxiomAnnotations
  (← get).store.unconsumed.forM reportUnparsed

theorem ends_finish : Ends context first passes finish := by
  have merged : Ends context first passes (withDefaults readAxiomAnnotations) :=
    ends_withDefaults (.get fun session _ => .forM _ fun node _ => ends_readAxiomNode node)
  exact merged.bind fun _ => .get fun session _ => .forM _ fun row _ => ends_reportUnparsed row

theorem translate_phases : translate = prepare >>= fun _ => translateAxioms >>= fun _ => finish := by
  simp only [translate, prepare, finish, bind_assoc]

end Merging

end Load

end OwlGraph
