import OwlGraph.Proofs.Atomicity
import OwlGraph.Proofs.CanonicalLabels
import OwlGraph.Proofs.Isolation
import OwlGraph.Proofs.LoadedKinds
import OwlGraph.Proofs.Reification

/-! What is kept up to the end of the translation of axioms in a lax load: the triples are those of the
graph, and every axiom is in normal form, be it of the ontology or on record for a triple. -/

namespace OwlGraph

theorem Ontology.Coherent.of_index {ontology other : Ontology} (coherent : ontology.Coherent)
    (same : other.index = ontology.index) : other.Coherent where
  sound := same ▸ coherent.sound
  normal fact member := by
    rw [axioms, same] at member
    exact coherent.normal fact member

/-- Whether it holds of a session is told by its triples, its axioms and the axioms on record. -/
def Session.Steady (holds : Session → Prop) : Prop :=
  ∀ session after : Session, after.store.liveRows = session.store.liveRows → after.ontology.index = session.ontology.index →
    after.produced = session.produced → holds session → holds after

/-- These are the triples, and the axioms of the ontology and those on record are in normal form. -/
structure Session.Regular (rows : List Row) (session : Session) : Prop where
  rows : session.store.liveRows = rows
  coherent : session.ontology.Coherent
  normal : ∀ (id : TripleId) (fact : AnnotatedAxiom), session.produced[id]? = some fact → fact.Normal

namespace Session.Regular

variable {rows : List Row} {session after : Session}

theorem steady : Session.Steady (Session.Regular rows) := fun _ _ listed index produced regular =>
  ⟨listed.trans regular.rows, regular.coherent.of_index index, produced ▸ regular.normal⟩

theorem of_same (regular : session.Regular rows) (listed : after.store.liveRows = session.store.liveRows)
    (index : after.ontology.index = session.ontology.index) (produced : after.produced = session.produced) : after.Regular rows :=
  steady session after listed index produced regular

theorem consume (regular : session.Regular rows) (id : TripleId) : (session.consume id).Regular rows :=
  regular.of_same (TripleStore.liveRows_consume _ _) rfl rfl

theorem consumeAll (regular : session.Regular rows) (used : List Row) : (session.consumeAll used).Regular rows :=
  regular.of_same (TripleStore.liveRows_consumeAll _ _) rfl rfl

theorem commit (regular : session.Regular rows) (id : TripleId) {fact : AnnotatedAxiom} (normal : fact.Normal) :
    (session.commit id fact).Regular rows := by
  refine ⟨regular.rows, ?_, fun number other known => ?_⟩
  · have added := regular.coherent.add fact.bare fact.annotations
    rwa [normal] at added
  · replace known : (session.produced.insert id fact)[number]? = some other := known
    rw [Std.HashMap.getElem?_insert] at known
    split at known
    · exact Option.some.inj known ▸ normal
    · exact regular.normal number other known

theorem learn (regular : session.Regular rows) (iri : Iri) (kind : EntityKind) : (session.learn iri kind).Regular rows := by
  rw [learn_shape]
  exact regular.of_same rfl rfl rfl

theorem readDeclarations (regular : session.Regular rows) (strict : Bool) : (session.readDeclarations strict).Regular rows := by
  apply Session.readDeclarations_keeps _ _ _ _ strict regular
  · exact fun _ iri kind before => before.learn iri kind
  · exact fun _ id before => before.consume id
  · exact fun _ id _ before => before.commit id (AnnotatedAxiom.normal_of _ _)
  · exact fun _ _ before => before.of_same rfl rfl rfl

/-- A reading keeps the session so. -/
theorem read {context : Context} {α : Type} {body : Translation α} (regular : session.Regular rows) (leaves : Translation.LeavesReading body)
    (indexed : session.store.Indexed) : (body context session).2.Regular rows := by
  obtain ⟨used, noted, kinds, kindsChanged, same⟩ := leaves.result context indexed
  rw [same]
  exact (regular.consumeAll used).of_same rfl rfl rfl

end Session.Regular

namespace Load

variable {α β : Type} {context : Context} {session : Session}

/-- In a lax load what was read is put to use. -/
theorem conclude_of_ok (mode : context.config.strict = false) {body : Translation α} {value : α} {middle : Session}
    (run : body context session = (.ok value, middle)) (keep : α → Session → Session) (drop : Session → Session)
    (candidate : Option Triple) (done : α → β) (waiting givenUp : β) : ∃ reports,
    conclude body keep drop candidate done waiting givenUp context session =
      (.ok (done value), { keep value middle with pending := #[], reports }) := by
  obtain ⟨reports, flushed, -⟩ := flush_lax mode (keep value middle)
  refine ⟨reports, ?_⟩
  rw [conclude, run]
  change (flush >>= fun _ => Pure.pure (done value) : Load β) context (keep value middle) = _
  rw [Run.bind_run flushed]
  rfl

/-- In a lax load a reading is kept and its value put to use, or it is undone and the session as it was,
or it is given up. -/
theorem conclude_reading (mode : context.config.strict = false) {body : Translation α} (leaves : Translation.LeavesReading body)
    (indexed : session.store.Indexed) (keep : α → Session → Session) (drop : Session → Session) (candidate : Option Triple)
    (done : α → β) (waiting givenUp : β) :
    (∃ value middle reports, body context session = (.ok value, middle) ∧
      conclude body keep drop candidate done waiting givenUp context session =
        (.ok (done value), { keep value middle with pending := #[], reports })) ∨
    conclude body keep drop candidate done waiting givenUp context session = (.ok waiting, session) ∨
    ∃ reports, conclude body keep drop candidate done waiting givenUp context session = (.ok givenUp, { drop session with reports }) := by
  have undone := leaves.undone context indexed
  rcases run : body context session with ⟨(_ | problem) | value, middle⟩
  · rw [run] at undone
    rw [conclude, run]
    exact .inr (.inl (congrArg (Prod.mk _) undone))
  · rw [run] at undone
    refine .inr (.inr ⟨(drop session).reports.push ⟨problem, problem.severity, candidate, context.config.detailed⟩, ?_⟩)
    rw [conclude, run]
    dsimp only
    rw [undone, giveUp_lax _ _ _ mode]
  · obtain ⟨reports, concluded⟩ := conclude_of_ok mode run keep drop candidate done waiting givenUp
    exact .inl ⟨value, middle, reports, rfl, concluded⟩

theorem regular_start (document : Option Iri) (triples : List Triple) :
    (start document triples).Regular (TripleStore.ofTriples triples).liveRows where
  rows := rfl
  coherent := Ontology.coherent_of_empty rfl
  normal id fact known := by
    replace known : (∅ : Std.HashMap TripleId AnnotatedAxiom)[id]? = some fact := known
    simp at known

section Regular

variable (mode : context.config.strict = false) {rows : List Row}
include mode

theorem steady_attempt {holds : Session → Prop} (steady : Session.Steady holds) {body : Translation α}
    (leaves : Translation.LeavesReading body) : Reaches context (fun session => session.store.Indexed ∧ holds session) (attempt body)
      fun _ session => session.store.Indexed ∧ holds session := by
  refine reaches_attempt mode (fun session reports before _ => ?_) (fun session before => ?_) fun session reports before _ =>
    ⟨before.1, steady session _ rfl rfl rfl before.2⟩
  · obtain ⟨used, noted, kinds, kindsChanged, same⟩ := leaves.result context before.1
    rw [same]
    exact ⟨TripleStore.indexed_consumeAll before.1 used, steady session _ (TripleStore.liveRows_consumeAll _ used) rfl rfl before.2⟩
  · rw [leaves.undone context before.1]
    exact before

theorem steady_readHeaderAnnotations {holds : Session → Prop} (steady : Session.Steady holds) :
    Reaches context (fun session => session.store.Indexed ∧ holds session) readHeaderAnnotations fun _ session => holds session := by
  refine .get fun session => ?_
  split
  · next node _ =>
    refine (steady_attempt mode steady (Translation.leaves_annotationsOn node)).bind fun notes => .alter fun session before => ?_
    exact steady session _ rfl (Ontology.index_foldl_annotate _ _) rfl before.2
  · exact .pure fun _ => And.right

/-- What holds after the declarations were read holds when all is prepared. -/
theorem steady_prepare {holds : Session → Prop} (steady : Session.Steady holds) (document : Option Iri) (triples : List Triple)
    (declared : ∀ headed, (start document triples).HeaderOnly headed → holds (headed.readDeclarations context.config.strict)) :
    ∃ session, prepare context (start document triples) = (.ok (), session) ∧ holds session := by
  have indexed : (start document triples).store.Indexed := TripleStore.indexed_ofTriples triples
  obtain ⟨_, headed, header, -⟩ := Reaches.of_ends mode (fun _ _ => ends_readHeader) _ ⟨indexed, rfl⟩
  have only := readHeader_headerOnly indexed context
  rw [header] at only
  have headers := Ends.follows (fun _ _ => ends_readHeader) ⟨indexed, rfl⟩ header
  have ready := (follows_readDeclarations context.config.strict headers).indexed
  obtain ⟨_, session, noted, after⟩ := steady_readHeaderAnnotations mode steady _ ⟨ready, declared headed only⟩
  refine ⟨session, ?_, after⟩
  rw [prepare, Run.bind_run header]
  exact noted

theorem regular_prepare {document : Option Iri} {triples : List Triple} {session : Session}
    (run : prepare context (start document triples) = (.ok (), session)) :
    session.Regular (TripleStore.ofTriples triples).liveRows := by
  obtain ⟨after, same, regular⟩ := steady_prepare mode Session.Regular.steady document triples fun headed only =>
    ((regular_start document triples).of_same only.rows only.index only.produced).readDeclarations context.config.strict
  obtain rfl : after = session := congrArg Prod.snd (same.symm.trans run)
  exact regular

/-- A candidate that is translated adds its axiom; else no axiom changes. -/
theorem regular_translateCandidate (row : Row) : Run.Yields context (fun session => session.store.Indexed ∧ session.Regular rows)
    (translateCandidate row) fun _ => Session.Regular rows := by
  rintro session value last ⟨indexed, regular⟩ run
  rw [translateCandidate_eq] at run
  have leaves := Translation.leaves_statement row.triple
  obtain ⟨fact, middle, reports, read, ended⟩ | ended | ⟨reports, ended⟩ := conclude_reading mode leaves indexed
    (fun fact session => (session.consume row.id).commit row.id fact) (·.discard row) (some row.triple) (fun _ => true) false true
  · rw [ended] at run
    cases run
    have normal : fact.Normal := Run.Leads.of_ok (Translation.normal_statement row.triple) read
    have kept : (Translation.statement row.triple context session).2.Regular rows := regular.read leaves indexed
    rw [read] at kept
    exact ((kept.consume row.id).commit row.id normal).of_same rfl rfl rfl
  · rw [ended] at run
    cases run
    exact regular
  · rw [ended] at run
    cases run
    exact ((regular.consume row.id).consumeAll _).of_same rfl rfl rfl

end Regular

/-- The axioms are in normal form between any two candidates. -/
theorem Between.regular {config : Config} (mode : config.strict = false) {number : Nat} {document : Option Iri} {triples : List Triple}
    {forced : Bool} {session : Session} (between : Between config number document triples forced session) :
    session.Regular (TripleStore.ofTriples triples).liveRows := by
  induction between with
  | prepared run => exact regular_prepare mode run
  | begun _ run regular | forced _ run regular =>
    rw [beginPass_eq] at run
    split at run
    · cases run
    · cases run
      exact regular.of_same rfl rfl rfl
  | tried between run regular => exact regular_translateCandidate mode _ _ _ _ ⟨between.orderly.indexed, regular⟩ run

/-- After axioms were translated they are in normal form, and the session is in order. -/
theorem regular_translateAxioms {config : Config} (mode : config.strict = false) {number : Nat} {document : Option Iri} {triples : List Triple}
    {session : Session} (run : (prepare >>= fun _ => translateAxioms) ⟨config, number, false⟩ (start document triples) = (.ok (), session)) :
    session.Regular (TripleStore.ofTriples triples).liveRows ∧ Orderly session := by
  let good (session : Session) : Prop := session.Regular (TripleStore.ofTriples triples).liveRows ∧ Orderly session
  obtain ⟨_, prepared, begun, run⟩ := Run.exists_of_bind run
  have between {forced : Bool} {session : Session} (between : Between config number document triples forced session) : good session :=
    ⟨between.regular mode, between.orderly⟩
  have reported (waiting : List Row) : Run.Yields ⟨config, number, true⟩ (Between config number document triples true)
      (waiting.forM fun row => report (.unsettled row.triple) none) fun _ => good := by
    refine (Run.Yields.forM waiting fun row _ => ?_).weaken (fun _ => between) fun _ _ => id
    rintro session _ _ ⟨regular, orderly⟩ run
    rw [report_lax mode] at run
    cases run
    exact ⟨regular.of_same rfl rfl rfl, orderly.indexed, orderly.settled⟩
  have settled (waiting : List Row) : Run.Yields ⟨config, number, true⟩ (Between config number document triples false)
      (settle waiting) fun _ => good := by
    refine .ite (fun _ => .pure fun _ => between) fun _ => ?_
    rw [← bind_assoc]
    exact (Between.yields_settle waiting).bind reported
  have translated : Run.Yields ⟨config, number, false⟩ (Between config number document triples false) translateAxioms fun _ => good :=
    .get fun session _ => .read ((Between.yields_makePasses _ _).bind fun waiting => yields_withDefaults (settled waiting))
  exact translated _ _ _ (.prepared begun) run

/-- A lax load that is not cancelled comes through its translation of axioms. -/
theorem exists_translated {config : Config} (mode : config.strict = false) (uncancelled : config.cancelled = false) (number : Nat)
    (document : Option Iri) (triples : List Triple) : ∃ session,
    (prepare >>= fun _ => translateAxioms) ⟨config, number, false⟩ (start document triples) = (.ok (), session) := by
  let context : Context := ⟨config, number, false⟩
  have lax : context.config.strict = false := mode
  obtain ⟨_, before, prepared, orderly⟩ := orderly_prepare lax (start document triples) ⟨TripleStore.indexed_ofTriples triples, rfl⟩
  let setting : Setting := ⟨before.store.liveRows, before.header⟩
  have kept : Kept setting (fun _ => False) (fun _ => False) before :=
    ⟨⟨orderly.indexed, rfl, rfl⟩, orderly.settled, fun _ member => member.elim⟩
  obtain ⟨_, session, translated, -⟩ := reaches_translateAxioms lax uncancelled (fun _ member => member.elim) kept before rfl
  exact ⟨session, (Run.bind_run prepared _).trans translated⟩

end Load

end OwlGraph
