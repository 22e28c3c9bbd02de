import OwlGraph.Proofs.Reification

/-! Assertions about sessions that no step of a load can make false: they hold on when triples are used and
freed again, and when problems, kinds and axioms are recorded. What a load reads keeps them, whatever comes
of it. -/

namespace OwlGraph

namespace Session

/-- Problems and kinds may be recorded. -/
structure Unconcerned (assertion : Session → Prop) : Prop where
  reported : ∀ {session} report, assertion session → assertion { session with reports := session.reports.push report }
  noted : ∀ {session} pending kinds kindsChanged, assertion session → assertion { session with pending, kinds, kindsChanged }

/-- Triples may be used and freed again, and what they stand for be recorded. -/
structure Lasting (assertion : Session → Prop) : Prop extends Unconcerned assertion where
  indexed : ∀ {session}, assertion session → session.store.Indexed
  consume : ∀ {session} id, assertion session → assertion (session.consume id)
  rollback : ∀ {session} point, assertion session → assertion (session.rollback point)
  commit : ∀ {session} id fact, assertion session → assertion (session.commit id fact)
  named : ∀ {session} ruleVariables, assertion session → assertion { session with ruleVariables }
  annotated : ∀ {session} (notes : List Annotation), assertion session →
    assertion { session with ontology := notes.foldl Ontology.annotate session.ontology }
  counted : ∀ {session} passes, assertion session → assertion { session with passes }

namespace Lasting

variable {assertion : Session → Prop} (lasting : Lasting assertion)
include lasting

theorem consumeAll (rows : List Row) : ∀ {session : Session}, assertion session → assertion (session.consumeAll rows) := by
  induction rows with
  | nil => exact id
  | cons row rest ih => exact fun holds => ih (lasting.consume row.id holds)

theorem readDeclarations (strict : Bool) {session : Session} (holds : assertion session) : assertion (session.readDeclarations strict) := by
  apply Session.readDeclarations_keeps _ _ _ _ strict holds
  · intro session iri kind before
    rw [learn_shape]
    exact lasting.noted session.pending _ _ before
  · exact fun _ id => lasting.consume id
  · exact fun _ id entity => lasting.commit id _
  · exact fun _ => lasting.named

end Lasting

end Session

namespace Load

open Session

variable {α β : Type} {context : Context} {assertion : Session → Prop}

/-- Whatever comes of the computation, the assertion holds on. -/
abbrev Sustains (context : Context) (assertion : Session → Prop) (body : Load α) : Prop :=
  Run.Ends context assertion (fun _ => True) body

section Reports

variable (unconcerned : Unconcerned assertion)
include unconcerned

theorem sustains_report (problem : Problem) (candidate : Option Triple) : Sustains context assertion (report problem candidate) := by
  intro session holds
  cases mode : context.config.strict with
  | true =>
    rw [report_strict mode]
    exact ⟨holds, fun _ _ => trivial⟩
  | false =>
    rw [report_lax mode]
    exact ⟨unconcerned.reported _ holds, fun _ _ => trivial⟩

theorem sustains_flush : Sustains context assertion flush :=
  .get fun _ _ => Run.Ends.bind (.alter fun session => unconcerned.noted #[] session.kinds session.kindsChanged) fun _ =>
    .forM _ fun problem _ => sustains_report unconcerned problem none

/-- An attempt keeps what the translation keeps if it succeeds, and what its rollback keeps if not. -/
theorem sustains_conclude {body : Translation α} {keep : α → Session → Session} {drop : Session → Session}
    {candidate : Option Triple} {done : α → β} {waiting givenUp : β}
    (reads : ∀ session, assertion session → Run.Leads context session body (fun _ => assertion)
      fun after => assertion (after.rollback session.checkpoint))
    (keeping : ∀ value session, assertion session → assertion (keep value session))
    (dropping : ∀ session, assertion session → assertion (drop session)) :
    Sustains context assertion (conclude body keep drop candidate done waiting givenUp) := by
  intro session holds
  have read := reads session holds
  rw [conclude]
  split
  · next value found =>
    have kept : Sustains context assertion (succeed (keep value) (done value)) :=
      Run.Ends.bind (.alter (keeping value)) fun _ => (sustains_flush unconcerned).bind fun _ => .pure _
    exact kept _ (read.of_ok (Prod.ext found rfl))
  · next stopped => exact ⟨read.of_error stopped, fun _ _ => trivial⟩
  · next problem stopped =>
    have given : Sustains context assertion (giveUp drop problem candidate givenUp) :=
      Run.Ends.bind (.alter dropping) fun _ => (sustains_report unconcerned problem candidate).bind fun _ => .pure _
    exact given _ (read.of_error stopped)

theorem sustains_attempt {body : Translation α} (reads : ∀ session, assertion session →
    Run.Leads context session body (fun _ => assertion) fun after => assertion (after.rollback session.checkpoint)) :
    Sustains context assertion (attempt body) := by
  rw [attempt_eq]
  exact sustains_conclude unconcerned reads (fun _ _ => id) fun _ => id

end Reports

section Steps

variable (lasting : Lasting assertion)
include lasting

theorem leads_reading {body : Translation α} (leaves : Translation.LeavesReading body) (session : Session) (holds : assertion session) :
    Run.Leads context session body (fun _ => assertion) fun after => assertion (after.rollback session.checkpoint) := by
  obtain ⟨used, noted, kinds, kindsChanged, same⟩ := leaves.result context (lasting.indexed holds)
  have read : assertion (body context session).2 := by
    rw [same]
    exact lasting.noted _ _ _ (lasting.consumeAll used holds)
  rw [Run.Leads]
  rcases run : body context session with ⟨_ | _, after⟩ <;> rw [run] at read
  · exact lasting.rollback _ read
  · exact read

theorem sustains_readHeaderAnnotations : Sustains context assertion readHeaderAnnotations := by
  apply Run.Ends.get
  intro session _
  split
  · next node _ =>
    have notes : Sustains context assertion (attempt (Translation.annotationsOn node)) :=
      sustains_attempt lasting.toUnconcerned (leads_reading lasting (Translation.leaves_annotationsOn node))
    exact notes.bind fun found => .alter fun _ => lasting.annotated _
  · exact .pure _

theorem sustains_translateCandidate (row : Row) : Sustains context assertion (translateCandidate row) := by
  rw [translateCandidate_eq]
  apply sustains_conclude lasting.toUnconcerned (leads_reading lasting (Translation.leaves_statement row.triple))
  · exact fun fact session holds => lasting.commit row.id fact (lasting.consume row.id holds)
  · exact fun session holds => lasting.consumeAll _ (lasting.consume row.id holds)

theorem sustains_runPass (work : List Row) : Sustains context assertion (runPass work) := by
  induction work with
  | nil => exact .pure []
  | cons row work ih =>
    have tried : Sustains context assertion (postpones row) :=
      .get fun _ _ => .ite (.pure _) ((sustains_translateCandidate lasting row).bind fun _ => .pure _)
    rw [runPass_cons]
    exact tried.bind fun _ => ih.bind fun _ => .pure _

theorem sustains_beginPass : Sustains context assertion beginPass := by
  intro session holds
  rw [beginPass_eq]
  split
  · exact ⟨holds, fun _ _ => trivial⟩
  · exact ⟨lasting.counted _ holds, fun _ _ => trivial⟩

theorem sustains_makePasses (remaining : Nat) : ∀ work : List Row, Sustains context assertion (makePasses remaining work) := by
  induction remaining with
  | zero => exact fun work => .pure work
  | succ remaining ih =>
    intro work
    have passed : Sustains context assertion (pass work) := (sustains_beginPass lasting).bind fun _ =>
      Run.Ends.bind (.alter fun session => lasting.noted session.pending session.kinds false) fun _ => sustains_runPass lasting work
    rw [makePasses_succ]
    exact .ite (.pure _) (passed.bind fun waiting => .get fun _ _ => .ite (.pure _) (ih waiting))

theorem sustains_settle (work : List Row) : Sustains context assertion (settle work) :=
  .ite (.pure _) ((sustains_beginPass lasting).bind fun _ => (sustains_runPass lasting work).bind fun _ =>
    .forM _ fun _ _ => sustains_report lasting.toUnconcerned _ none)

theorem sustains_translateAxioms : Sustains context assertion translateAxioms := by
  have settled (waiting : List Row) : Sustains context assertion (withDefaults (settle waiting)) := sustains_settle lasting waiting
  exact .get fun _ _ => .read ((sustains_makePasses lasting _ _).bind settled)

theorem sustains_reportUnparsed (row : Row) : Sustains context assertion (reportUnparsed row) :=
  Run.Ends.bind (.alter fun _ => lasting.consume row.id) fun _ =>
    .get fun _ _ => .ite (.pure _) (sustains_report lasting.toUnconcerned _ none)

end Steps

end Load

end OwlGraph
