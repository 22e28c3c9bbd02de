import OwlGraph.Proofs.CanonicalLabels
import OwlGraph.Proofs.ImposedKinds
import OwlGraph.Proofs.StrictLax

/-! Kinds of properties in what a strict load gives. As long as no axiom imposes a kind on it, a
property is known by its declared kind and mistaken by no axiom; once an axiom has imposed one, the
ontology shows the axiom. What is put off is undone. -/

namespace OwlGraph

open Run

theorem Ontology.index_foldl_annotate (notes : List Annotation) : ∀ ontology : Ontology,
    (notes.foldl Ontology.annotate ontology).index = ontology.index := by
  induction notes with
  | nil => exact fun _ => rfl
  | cons note rest ih =>
    intro ontology
    rw [List.foldl_cons, ih, annotate]
    split <;> rfl

namespace PropertyStanding

/-- No axiom that was read mistakes the property. -/
structure Unmistaken (standing : PropertyStanding) (session : Session) : Prop where
  axioms : ∀ fact ∈ session.ontology.axioms, ¬ standing.Foreign fact.bare.components
  produced : ∀ (id : TripleId) (fact : AnnotatedAxiom), session.produced[id]? = some fact → ¬ standing.Foreign fact.bare.components

/-- An axiom of the ontology imposes a kind on the property. -/
def Overruled (standing : PropertyStanding) (session : Session) : Prop := ∃ fact ∈ session.ontology.axioms, standing.Imposed fact.bare

/-- A session in which the property is known and not mistaken, unless an axiom of the ontology, or
one that is due to join it, imposes a kind on the property. -/
structure Upholds (standing : PropertyStanding) (setting : Setting) (due : List AnnotatedAxiom) (session : Session) : Prop where
  holds : setting.Holds session
  sound : session.ontology.index.Sound
  state : standing.Overruled session ∨ (∃ fact ∈ due, standing.Imposed fact.bare) ∨
    standing.Known setting session ∧ standing.Unmistaken session ∧ ∀ fact ∈ due, ¬ standing.Foreign fact.bare.components

variable {standing : PropertyStanding} {setting : Setting} {session after : Session} {due : List AnnotatedAxiom} {fact : AnnotatedAxiom}

/-- Nothing but the store and the records has changed. -/
theorem Upholds.frame (upholds : standing.Upholds setting due session) (holds : setting.Holds after)
    (ontology : after.ontology.index = session.ontology.index) (kinds : after.kinds = session.kinds)
    (produced : after.produced = session.produced) : standing.Upholds setting due after := by
  have axioms : after.ontology.axioms = session.ontology.axioms := congrArg AxiomIndex.toList ontology
  refine ⟨holds, ontology ▸ upholds.sound, upholds.state.imp (fun ⟨other, member, imposed⟩ => ⟨other, axioms ▸ member, imposed⟩)
    (Or.imp_right fun ⟨known, unmistaken, absent⟩ => ⟨⟨holds, ?_⟩, ⟨?_, ?_⟩, absent⟩)⟩
  · rw [← known.kind, Session.propertyKind?, Session.propertyKind?]
    simp only [Session.hasKind, kinds]
  · exact axioms ▸ unmistaken.axioms
  · exact produced ▸ unmistaken.produced

theorem Unmistaken.insert (unmistaken : standing.Unmistaken session) (absent : ¬ standing.Foreign fact.bare.components)
    (key id : TripleId) (other : AnnotatedAxiom) (found : (session.produced.insert key fact)[id]? = some other) :
    ¬ standing.Foreign other.bare.components := by
  rw [Std.HashMap.getElem?_insert] at found
  split at found
  · exact Option.some.inj found ▸ absent
  · exact unmistaken.produced id other found

/-- The axiom of a triple is recorded. -/
theorem Upholds.produce (upholds : standing.Upholds setting [fact] session) (id : TripleId) :
    standing.Upholds setting [fact] { session.consume id with produced := session.produced.insert id fact } := by
  have holds : setting.Holds { session.consume id with produced := session.produced.insert id fact } :=
    ⟨TripleStore.indexed_consume _ id upholds.holds.indexed, (TripleStore.liveRows_consume _ id).trans upholds.holds.rows,
      upholds.holds.header⟩
  refine ⟨holds, upholds.sound, upholds.state.imp_right (Or.imp_right fun ⟨known, unmistaken, absent⟩ => ?_)⟩
  exact ⟨⟨holds, known.kind⟩, ⟨unmistaken.axioms, unmistaken.insert (absent fact (List.mem_singleton_self fact)) id⟩, absent⟩

/-- The axiom of a triple joins the ontology. -/
theorem Upholds.commit (upholds : standing.Upholds setting [fact] session) (id : TripleId) :
    standing.Upholds setting [] ((session.consume id).commit id fact) := by
  obtain ⟨holds, sound, state⟩ := upholds.produce id
  have members : ∀ other, other ∈ ((session.consume id).commit id fact).ontology.axioms ↔ other = fact ∨ other ∈ session.ontology.axioms :=
    fun other => Ontology.mem_axioms_add sound
  refine ⟨⟨holds.indexed, holds.rows, holds.header⟩, sound.insert fact, ?_⟩
  rcases state with ⟨other, member, imposed⟩ | ⟨other, single, imposed⟩ | ⟨known, unmistaken, absent⟩
  · exact .inl ⟨other, (members other).mpr (.inr member), imposed⟩
  · exact .inl ⟨other, (members other).mpr (.inl (List.mem_singleton.mp single)), imposed⟩
  · refine .inr (.inr ⟨⟨⟨holds.indexed, holds.rows, holds.header⟩, known.kind⟩, ⟨fun other member => ?_, unmistaken.produced⟩,
      List.forall_mem_nil _⟩)
    exact ((members other).mp member).elim (fun same => same ▸ absent fact (List.mem_singleton_self fact)) (unmistaken.axioms other)

/-- Further annotations leave the axiom itself as it is. -/
theorem Upholds.addAnnotations (upholds : standing.Upholds setting [fact] session) (notes : List Annotation) :
    standing.Upholds setting [] (session.addAnnotations fact notes) := by
  have holds : setting.Holds (session.addAnnotations fact notes) :=
    ⟨upholds.holds.indexed, upholds.holds.rows, upholds.holds.header⟩
  have sound := upholds.sound.remove fact
  have members : ∀ other, other ∈ (session.addAnnotations fact notes).ontology.axioms ↔
      other = .of fact.bare (fact.annotations ++ notes) ∨ other ≠ fact ∧ other ∈ session.ontology.axioms := fun other =>
    (Ontology.mem_axioms_add sound).trans (or_congr_right (Ontology.mem_axioms_remove upholds.sound))
  have again (imposed : standing.Imposed fact.bare) : standing.Overruled (session.addAnnotations fact notes) :=
    ⟨_, (members _).mpr (.inl rfl), imposed.normalize⟩
  refine ⟨holds, sound.insert _, ?_⟩
  rcases upholds.state with ⟨other, member, imposed⟩ | ⟨other, single, imposed⟩ | ⟨known, unmistaken, absent⟩
  · by_cases same : other = fact
    · exact .inl (again (same ▸ imposed))
    · exact .inl ⟨other, (members other).mpr (.inr ⟨same, member⟩), imposed⟩
  · exact .inl (again (List.mem_singleton.mp single ▸ imposed))
  · refine .inr (.inr ⟨⟨holds, known.kind⟩, ⟨fun other member => ?_, unmistaken.produced⟩, List.forall_mem_nil _⟩)
    rcases (members other).mp member with rfl | ⟨-, listed⟩
    · exact fun foreign => absent fact (List.mem_singleton_self fact) (fact.bare.components_normalize foreign)
    · exact unmistaken.axioms other listed

end PropertyStanding

namespace Translation

open PropertyStanding

variable {standing : PropertyStanding} {setting : Setting} {context : Context} {α β : Type} {due : List AnnotatedAxiom}

/-- What reading leaves behind upholds the declaration as the value that it gives does. -/
theorem yields_reading {body : Translation α} {outcome : α → Session → Prop} (leaves : LeavesReading body)
    (yields : Yields context (standing.Known setting) body outcome) : Yields context (standing.Upholds setting []) body
      fun value session => setting.Holds session ∧ session.ontology.index.Sound ∧
        (standing.Overruled session ∨ outcome value session ∧ standing.Unmistaken session) := by
  intro session value final upholds run
  obtain ⟨used, noted, kinds, kindsChanged, same⟩ := leaves.result context upholds.holds.indexed
  rw [run] at same
  obtain rfl : final = session.reading used noted kinds kindsChanged := same
  refine ⟨upholds.holds.reading used noted kinds kindsChanged, upholds.sound, ?_⟩
  rcases upholds.state with overruled | ⟨_, none, _⟩ | ⟨known, unmistaken, -⟩
  · exact .inl overruled
  · cases none
  · exact .inr ⟨yields session value _ known run, ⟨unmistaken.axioms, unmistaken.produced⟩⟩

theorem upholds_reading {body : Translation α} {good : α → Prop} (leaves : LeavesReading body)
    (keeps : standing.Keeps setting context body good) :
    Yields context (standing.Upholds setting []) body fun _ => standing.Upholds setting [] :=
  (yields_reading leaves keeps).imp fun _ _ ⟨holds, sound, state⟩ =>
    ⟨holds, sound, state.imp_right fun ⟨⟨known, _⟩, unmistaken⟩ => .inr ⟨known, unmistaken, List.forall_mem_nil _⟩⟩

theorem upholds_statement (plain : standing.Plain setting) {triple : Triple} (listed : triple ∈ setting.rows.map Row.triple) :
    Yields context (standing.Upholds setting []) (statement triple) fun fact => standing.Upholds setting [fact] := by
  refine (yields_reading (leaves_statement triple) (settles_statement plain listed)).imp fun fact session ⟨holds, sound, state⟩ =>
    ⟨holds, sound, state.imp_right ?_⟩
  rintro ⟨imposed | ⟨known, absent⟩, unmistaken⟩
  · exact .inl ⟨fact, List.mem_singleton_self fact, imposed⟩
  · exact .inr ⟨known, unmistaken, List.forall_mem_singleton.mpr absent⟩

theorem upholds_lateStatement (plain : standing.Plain setting) (id : TripleId) {triple : Triple}
    (listed : triple ∈ setting.rows.map Row.triple) :
    Yields context (standing.Upholds setting []) (lateStatement id triple) fun fact => standing.Upholds setting [fact] :=
  (upholds_statement plain listed).bind fun fact =>
    Yields.bind (.alter fun _ upholds => upholds.produce id) fun _ => .pure fun _ (upholds : standing.Upholds setting [fact] _) => upholds

/-- Whatever stops the translation, it leaves no more than a reading behind. -/
def Reverts (context : Context) (body : Translation α) : Prop :=
  ∀ session halt, session.store.Indexed → (body context session).1 = .error halt →
    ∃ used noted kinds kindsChanged, (body context session).2 = session.reading used noted kinds kindsChanged

theorem Reverts.of_leaves {body : Translation α} (leaves : LeavesReading body) : Reverts context body :=
  fun _ _ indexed _ => leaves.result context indexed

theorem Reverts.bind {body : Translation α} {next : α → Translation β} (leaves : LeavesReading body)
    (rest : ∀ value, Reverts context (next value)) : Reverts context (body >>= next) := by
  intro session halt indexed stopped
  obtain ⟨used, noted, kinds, kindsChanged, same⟩ := leaves.result context indexed
  cases ended : (body context session).1 with
  | error =>
    rw [bind_error ended]
    exact ⟨used, noted, kinds, kindsChanged, same⟩
  | ok value =>
    rw [bind_ok ended, same] at stopped ⊢
    obtain ⟨others, more, known, changed, again⟩ := rest value _ halt (TripleStore.indexed_consumeAll indexed used) stopped
    exact ⟨_, _, _, _, again.trans (Session.reading_reading ..)⟩

theorem Reverts.get {next : Session → Translation α} (rest : ∀ session, Reverts context (next session)) :
    Reverts context (MonadState.get >>= next) := fun session halt indexed stopped => rest session session halt indexed stopped

/-- Nothing stops what comes last. -/
theorem Reverts.last {body : Translation α} {next : α → Translation β} (reverts : Reverts context body)
    (ends : ∀ value session, ∃ result, (next value context session).1 = .ok result) : Reverts context (body >>= next) := by
  intro session halt indexed stopped
  cases ended : (body context session).1 with
  | error other =>
    rw [bind_error ended]
    exact reverts session other indexed ended
  | ok value =>
    obtain ⟨result, given⟩ := ends value (body context session).2
    rw [bind_ok ended, given] at stopped
    cases stopped

/-- A strict load adds no triple to the graph. -/
theorem insertMissing_strict (mode : context.config.strict = true) (node : Node) (triple : Triple) (next : TripleId → Translation α)
    (session : Session) : (insertMissing node triple >>= next) context session =
      (.error (.failed (.annotatedTripleMissing node triple)), session) := by
  rw [insertMissing, bind_assoc, bind_error (by rw [recover_strict mode]), recover_strict mode]

section Merging

variable (mode : context.config.strict = true)
include mode

theorem upholds_annotatedFact (plain : standing.Plain setting) (node : Node) (triple : Triple) :
    Yields context (standing.Upholds setting []) (annotatedFact node triple) fun fact => standing.Upholds setting [fact] := by
  refine .look fun session upholds => ?_
  split
  · next id found =>
    have listed : triple ∈ setting.rows.map Row.triple :=
      upholds.holds.rows ▸ List.mem_map_of_mem ((upholds.holds.indexed.find?_eq_some).mp found)
    split
    · next fact told =>
      refine .pure fun _ same => same ▸ ⟨upholds.holds, upholds.sound, ?_⟩
      rcases upholds.state with overruled | ⟨_, none, _⟩ | ⟨known, unmistaken, -⟩
      · exact .inl overruled
      · cases none
      · exact .inr (.inr ⟨known, unmistaken, List.forall_mem_singleton.mpr (unmistaken.produced id fact told)⟩)
    · exact .ite (fun _ => .stop _ _) fun _ =>
        (upholds_lateStatement plain id listed).weaken (fun _ same => same ▸ upholds) fun _ _ kept => kept
  · intro session value final _ run
    cases (insertMissing_strict mode node triple _ session).symm.trans run

theorem reverts_annotatedFact (node : Node) (triple : Triple) : Reverts context (annotatedFact node triple) := by
  have late (id : TripleId) : Reverts context (lateStatement id triple) :=
    (Reverts.of_leaves (leaves_statement triple)).last fun fact _ => ⟨fact, rfl⟩
  refine .get fun session => ?_
  split
  · split
    · exact .of_leaves fun _ _ _ => .pure _
    · split
      · exact .of_leaves fun _ _ _ => .stop _ _ rfl
      · exact late _
  · intro start halt _ _
    exact ⟨[], [], start.kinds, start.kindsChanged, by rw [insertMissing_strict mode, Session.reading_nil]⟩

theorem reverts_mergeAnnotations (node : Node) : Reverts context (mergeAnnotations node) := by
  refine .bind (leaves_singleObject _ _) fun source => .bind (leaves_singleObject _ _) fun property =>
    .bind (fun _ _ _ => reads_named _ _) fun predicate => .bind (leaves_singleObject _ _) fun object => ?_
  split
  · refine .bind (leaves_consumeReification node) fun _ => .bind (leaves_annotationsOn node) fun notes => ?_
    exact (reverts_annotatedFact mode _ _).last fun _ _ => ⟨(), rfl⟩
  · exact .of_leaves fun _ _ _ => reads_unexpected _ _

theorem upholds_mergeAnnotations (plain : standing.Plain setting) (node : Node) :
    Yields context (standing.Upholds setting []) (mergeAnnotations node) fun _ => standing.Upholds setting [] := by
  have single (predicate : Iri) : Yields context (standing.Upholds setting []) (singleObject node predicate)
      fun _ => standing.Upholds setting [] := upholds_reading (leaves_singleObject node predicate) (keeps_singleObject node predicate)
  refine (single _).bind fun source => (single _).bind fun property =>
    (upholds_reading (fun _ _ _ => reads_named _ _) (keeps_named _ _)).bind fun predicate => (single _).bind fun object => ?_
  split
  · refine (upholds_reading (leaves_consumeReification node) (keeps_consumeReification node)).bind fun _ =>
      (upholds_reading (leaves_annotationsOn node) (keeps_annotationsOn node)).bind fun notes =>
        (upholds_annotatedFact mode plain _ _).bind fun fact => .alter fun _ upholds => upholds.addAnnotations notes
  · exact .raise _

end Merging

end Translation

namespace Load

open PropertyStanding

variable {standing : PropertyStanding} {setting : Setting} {context : Context} {α β : Type}

theorem yields_withDefaults {body : Load α} {before : Session → Prop} {after : α → Session → Prop}
    (yields : Yields { context with forced := true } before body after) : Yields context before (withDefaults body) after := yields

section Strictness

variable (mode : context.config.strict = true)
include mode

/-- After a report nothing goes on. -/
theorem yields_report {before : Session → Prop} {after : Unit → Session → Prop} (problem : Problem) (candidate : Option Triple) :
    Yields context before (report problem candidate) after := by
  intro session value final _ run
  rw [report_strict mode] at run
  cases run

theorem upholds_flush : Yields context (standing.Upholds setting []) flush fun _ => standing.Upholds setting [] := by
  have clear : Yields context (standing.Upholds setting []) (modify fun session => { session with pending := #[] } : Load Unit)
      fun _ => standing.Upholds setting [] :=
    .alter fun session upholds => upholds.frame ⟨upholds.holds.indexed, upholds.holds.rows, upholds.holds.header⟩ rfl rfl rfl
  exact .get fun session _ => clear.bind fun _ => .forM _ fun problem _ => yields_report mode problem none

/-- An attempt upholds the declaration if the translation does, and what stops is undone. -/
theorem upholds_conclude {body : Translation α} {keep : α → Session → Session} {drop : Session → Session}
    {candidate : Option Triple} {done : α → β} {waiting givenUp : β} (reverts : Translation.Reverts context body)
    (yields : Yields context (standing.Upholds setting []) body fun value session => standing.Upholds setting [] (keep value session)) :
    Yields context (standing.Upholds setting []) (conclude body keep drop candidate done waiting givenUp)
      fun _ => standing.Upholds setting [] := by
  intro session value final upholds run
  rw [conclude] at run
  split at run
  · next result ended =>
    have succeeds : Yields context (fun session => standing.Upholds setting [] (keep result session)) (succeed (keep result) (done result))
        fun _ => standing.Upholds setting [] :=
      Yields.bind (.alter fun _ kept => kept) fun _ => (upholds_flush mode).bind fun _ => .pure fun _ kept => kept
    exact succeeds _ value final (yields session result _ upholds (Prod.ext ended rfl)) run
  · next ended =>
    obtain ⟨used, noted, kinds, kindsChanged, same⟩ := reverts session _ upholds.holds.indexed ended
    rw [same, Session.rollback_reading] at run
    cases run
    exact upholds
  · next problem ended =>
    have gives : Yields context (fun _ => True) (giveUp drop problem candidate givenUp) fun _ => standing.Upholds setting [] :=
      Yields.bind (.alter fun _ _ => trivial : Yields context (fun _ => True) _ fun _ _ => True) fun _ =>
        Yields.bind (yields_report mode problem candidate : Yields context _ _ fun _ _ => False) fun _ => .pure fun _ => False.elim
    exact gives _ value final trivial run

theorem upholds_translateCandidate (plain : standing.Plain setting) {row : Row} (listed : row ∈ setting.rows) :
    Yields context (standing.Upholds setting []) (translateCandidate row) fun _ => standing.Upholds setting [] := by
  rw [translateCandidate_eq]
  exact upholds_conclude mode (.of_leaves (Translation.leaves_statement row.triple))
    ((Translation.upholds_statement plain (List.mem_map_of_mem listed)).imp fun fact session upholds => upholds.commit row.id)

theorem upholds_attempt {body : Translation α} (reverts : Translation.Reverts context body)
    (yields : Yields context (standing.Upholds setting []) body fun _ => standing.Upholds setting []) :
    Yields context (standing.Upholds setting []) (attempt body) fun _ => standing.Upholds setting [] := by
  rw [attempt_eq]
  exact upholds_conclude mode reverts yields

theorem upholds_runPass (plain : standing.Plain setting) (work : List Row) (listed : ∀ row ∈ work, row ∈ setting.rows) :
    Yields context (standing.Upholds setting []) (runPass work)
      fun waiting session => standing.Upholds setting [] session ∧ ∀ row ∈ waiting, row ∈ setting.rows := by
  induction work with
  | nil => exact .pure fun _ upholds => ⟨upholds, List.forall_mem_nil _⟩
  | cons row rest ih =>
    obtain ⟨first, others⟩ := List.forall_mem_cons.mp listed
    have tried : Yields context (standing.Upholds setting []) (postpones row) fun _ => standing.Upholds setting [] := by
      refine .get fun session _ => .ite (fun _ => .pure fun _ upholds => upholds) fun _ => ?_
      exact (upholds_translateCandidate mode plain first).bind fun _ => .pure fun _ upholds => upholds
    rw [runPass_cons]
    refine tried.bind fun waits => (ih others).bind fun waiting => .pure fun session ⟨upholds, inside⟩ => ⟨upholds, ?_⟩
    split
    · exact List.forall_mem_cons.mpr ⟨first, inside⟩
    · exact inside

omit mode in
theorem upholds_beginPass : Yields context (standing.Upholds setting []) beginPass fun _ => standing.Upholds setting [] := by
  have checked : Yields context (standing.Upholds setting []) checkCancelled fun _ => standing.Upholds setting [] :=
    .read (.ite (fun _ => .get fun session _ => .raise _) fun _ => .pure fun _ upholds => upholds)
  exact checked.bind fun _ => .alter fun session upholds =>
    upholds.frame ⟨upholds.holds.indexed, upholds.holds.rows, upholds.holds.header⟩ rfl rfl rfl

theorem upholds_makePasses (plain : standing.Plain setting) (remaining : Nat) : ∀ work : List Row, (∀ row ∈ work, row ∈ setting.rows) →
    Yields context (standing.Upholds setting []) (makePasses remaining work)
      fun waiting session => standing.Upholds setting [] session ∧ ∀ row ∈ waiting, row ∈ setting.rows := by
  induction remaining with
  | zero => exact fun work listed => .pure fun _ upholds => ⟨upholds, listed⟩
  | succ remaining ih =>
    intro work listed
    have anew : Yields context (standing.Upholds setting []) (modify fun session => { session with kindsChanged := false } : Load Unit)
        fun _ => standing.Upholds setting [] :=
      .alter fun session upholds => upholds.frame ⟨upholds.holds.indexed, upholds.holds.rows, upholds.holds.header⟩ rfl rfl rfl
    rw [makePasses_succ]
    refine .ite (fun _ => .pure fun _ upholds => ⟨upholds, List.forall_mem_nil _⟩) fun _ => ?_
    refine (upholds_beginPass.bind fun _ => anew.bind fun _ => upholds_runPass mode plain work listed).bind fun waiting => ?_
    refine .get fun session ⟨_, inside⟩ => .ite (fun _ => .pure fun _ kept => kept) fun _ => ?_
    exact (ih waiting inside).weaken (fun _ kept => kept.1) fun _ _ kept => kept

theorem upholds_settle (plain : standing.Plain setting) (work : List Row) (listed : ∀ row ∈ work, row ∈ setting.rows) :
    Yields context (standing.Upholds setting []) (settle work) fun _ => standing.Upholds setting [] :=
  .ite (fun _ => .pure fun _ upholds => upholds) fun _ => upholds_beginPass.bind fun _ =>
    (upholds_runPass mode plain work listed).bind fun waiting =>
      (Yields.forM waiting fun row _ => yields_report mode (.unsettled row.triple) none).weaken (fun _ kept => kept.1) fun _ _ kept => kept

theorem upholds_translateAxioms (plain : standing.Plain setting) :
    Yields context (standing.Upholds setting []) translateAxioms fun _ => standing.Upholds setting [] := by
  refine .get fun session upholds => ?_
  have listed : ∀ row ∈ session.store.unconsumed.filter (fun row => session.isCandidate row.triple), row ∈ setting.rows := by
    intro row member
    have inside := List.mem_of_mem_filter member
    rw [TripleStore.unconsumed_eq, upholds.holds.rows] at inside
    exact List.mem_of_mem_filter inside
  refine .read ((upholds_makePasses mode plain _ _ listed).bind fun waiting session final last ⟨kept, inside⟩ run => ?_)
  have settled := @upholds_settle standing setting { context with forced := true } mode plain waiting inside
  exact yields_withDefaults settled session final last kept run

theorem upholds_readHeaderAnnotations :
    Yields context (standing.Upholds setting []) readHeaderAnnotations fun _ => standing.Upholds setting [] := by
  refine .get fun session _ => ?_
  split
  · next node _ =>
    refine (upholds_attempt mode (.of_leaves (Translation.leaves_annotationsOn node))
      (Translation.upholds_reading (Translation.leaves_annotationsOn node) (Translation.keeps_annotationsOn node))).bind fun notes => ?_
    exact .alter fun session upholds => upholds.frame ⟨upholds.holds.indexed, upholds.holds.rows, upholds.holds.header⟩
      (Ontology.index_foldl_annotate _ _) rfl rfl
  · exact .pure fun _ upholds => upholds

theorem upholds_readAxiomAnnotations (plain : standing.Plain setting) :
    Yields context (standing.Upholds setting []) readAxiomAnnotations fun _ => standing.Upholds setting [] := by
  refine .get fun session _ => .forM _ fun node _ => .get fun session _ => .ite (fun _ => ?_) fun _ => .pure fun _ upholds => upholds
  refine (upholds_attempt mode (Translation.reverts_mergeAnnotations mode node)
    (Translation.upholds_mergeAnnotations mode plain node)).bind fun merged => ?_
  refine .ite (fun _ => .alter fun session upholds => ?_) fun _ => .pure fun _ upholds => upholds
  exact upholds.frame ⟨TripleStore.indexed_consumeAll upholds.holds.indexed _,
    (TripleStore.liveRows_consumeAll _ _).trans upholds.holds.rows, upholds.holds.header⟩ rfl rfl rfl

theorem upholds_reportUnparsed (row : Row) :
    Yields context (standing.Upholds setting []) (reportUnparsed row) fun _ => standing.Upholds setting [] := by
  have use : Yields context (standing.Upholds setting []) (modify (·.consume row.id) : Load Unit) fun _ => standing.Upholds setting [] :=
    .alter fun session upholds => upholds.frame ⟨TripleStore.indexed_consume _ _ upholds.holds.indexed,
      (TripleStore.liveRows_consume _ _).trans upholds.holds.rows, upholds.holds.header⟩ rfl rfl rfl
  exact use.bind fun _ => .get fun session _ => .ite (fun _ => .pure fun _ upholds => upholds) fun _ => yields_report mode _ none

/-- What comes after the declarations upholds them. -/
theorem upholds_afterDeclarations (plain : standing.Plain setting) :
    Yields context (standing.Upholds setting []) afterDeclarations fun _ => standing.Upholds setting [] := by
  refine (upholds_readHeaderAnnotations mode).bind fun _ => (upholds_translateAxioms mode plain).bind fun _ => ?_
  have merged : Yields { context with forced := true } (standing.Upholds setting []) readAxiomAnnotations fun _ => standing.Upholds setting [] :=
    upholds_readAxiomAnnotations mode plain
  exact (yields_withDefaults merged).bind fun _ => .get fun session _ => .forM _ fun row _ => upholds_reportUnparsed mode row

end Strictness

end Load

section Declarations

variable {standing : PropertyStanding} {setting : Setting} {session : Session} {row : Row}

/-- A session in which declarations are read that do not mistake the property. -/
structure PropertyStanding.Told (standing : PropertyStanding) (setting : Setting) (session : Session) : Prop where
  holds : setting.Holds session
  sound : session.ontology.index.Sound
  unmistaken : standing.Unmistaken session
  unlearned : standing.ofData = true → session.hasKind standing.property .objectProperty = false

theorem PropertyStanding.Told.learn (told : standing.Told setting session) {iri : Iri} {kind : EntityKind}
    (apart : standing.ofData = true → (⟨kind, iri⟩ : Entity) ≠ ⟨.objectProperty, standing.property⟩) :
    standing.Told setting (session.learn iri kind) := by
  have unlearned (data : standing.ofData = true) : (session.learn iri kind).hasKind standing.property .objectProperty = false := by
    rw [Bool.eq_false_iff]
    intro learned
    rcases Session.hasKind_learn.mp learned with before | same
    · exact Bool.eq_false_iff.mp (told.unlearned data) before
    · exact apart data same.symm
  refine ⟨?_, ?_, ⟨?_, ?_⟩, unlearned⟩ <;> rw [Session.learn_shape]
  · exact ⟨told.holds.indexed, told.holds.rows, told.holds.header⟩
  · exact told.sound
  · exact told.unmistaken.axioms
  · exact told.unmistaken.produced

theorem PropertyStanding.Told.consume (told : standing.Told setting session) (id : TripleId) : standing.Told setting (session.consume id) :=
  ⟨⟨TripleStore.indexed_consume _ id told.holds.indexed, (TripleStore.liveRows_consume _ id).trans told.holds.rows,
    told.holds.header⟩, told.sound, ⟨told.unmistaken.axioms, told.unmistaken.produced⟩, told.unlearned⟩

theorem PropertyStanding.Told.commit (told : standing.Told setting session) (id : TripleId) {entity : Entity} (other : entity ≠ standing.rival) :
    standing.Told setting (session.commit id (.of (.declaration entity) [])) := by
  have absent : ¬ standing.Foreign (AnnotatedAxiom.of (.declaration entity) []).bare.components :=
    Translation.not_foreign_cons (fun same => other (Component.entity.inj same)) List.not_mem_nil
  refine ⟨⟨told.holds.indexed, told.holds.rows, told.holds.header⟩, told.sound.insert _, ⟨fun fact member => ?_, told.unmistaken.insert absent id⟩,
    told.unlearned⟩
  rcases (Ontology.mem_axioms_add told.sound).mp member with rfl | before
  · exact absent
  · exact told.unmistaken.axioms fact before

/-- A type that does not make the property what it was not declared to be. -/
theorem PropertyStanding.Told.declare (told : standing.Told setting session)
    (other : ∀ (iri : Iri) (kind : EntityKind), row.triple.subject = iri → row.triple.object = kind.type →
      (⟨kind, iri⟩ : Entity) ≠ standing.rival)
    (untyped : standing.ofData = true → ∀ trait ∈ Characteristic.ofObjects, row.triple.subject = standing.property →
      row.triple.object ≠ trait.type) : standing.Told setting (session.declare true row) := by
  unfold Session.declare
  split
  · next iri type named typed =>
    rw [Node.iri?_eq_some] at named
    rw [Term.iri?_eq_some] at typed
    split
    · next kind found =>
      have apart := other iri kind named (by rw [typed, EntityKind.type_of_ofType? found])
      have known := (told.learn fun data same => apart (same.trans (rival_of_data data).symm)).consume row.id
      dsimp only
      split
      · exact known
      · exact known.commit row.id apart
    · split
      · have used := told.consume row.id
        exact ⟨⟨used.holds.indexed, used.holds.rows, used.holds.header⟩, used.sound,
          ⟨used.unmistaken.axioms, used.unmistaken.produced⟩, used.unlearned⟩
      · split
        · next trait =>
          obtain ⟨trait, found⟩ := Option.isSome_iff_exists.mp trait
          have name : trait.type = type := by simpa using List.find?_some found
          refine told.learn fun data same => untyped data trait (List.mem_of_find?_eq_some found) ?_ (name ▸ typed)
          exact named.trans (congrArg Node.named (congrArg Entity.iri same))
        · rw [if_neg fun test => by simp at test]
          exact told
  · exact told

/-- The triples declare the property to be of the one kind and not of the other, and do not make a
data property an object property. -/
structure PropertyStanding.Declared (standing : PropertyStanding) (triples : List Triple) : Prop where
  declared : ⟨standing.property, Rdf.type, standing.kind.entityKind.type⟩ ∈ triples
  undeclared : ⟨standing.property, Rdf.type, standing.rival.kind.type⟩ ∉ triples
  ordinary : standing.ofData = true → EntityKind.isBuiltin .objectProperty standing.property = false
  untyped : standing.ofData = true → ∀ trait ∈ Characteristic.ofObjects, ⟨standing.property, Rdf.type, trait.type⟩ ∉ triples
  uninverted : standing.ofData = true → ∀ triple ∈ triples, triple.predicate = Owl.inverseOf →
    triple.subject ≠ standing.property ∧ triple.object ≠ standing.property

variable {triples : List Triple} {document : Option Iri}

theorem PropertyStanding.Declared.plain (declared : standing.Declared triples) :
    standing.Plain ⟨(TripleStore.ofTriples triples).liveRows, session.header⟩ := by
  have listed : ∀ row ∈ (TripleStore.ofTriples triples).liveRows, row.triple ∈ triples := fun row member =>
    (TripleStore.mem_rows_ofTriples triples _).mp (List.mem_map_of_mem member)
  refine ⟨fun data row member inverse => declared.uninverted data row.triple (listed row member) inverse,
    fun data row member type trait own object subject => declared.untyped data trait own ?_⟩
  rw [← subject, ← type, ← object]
  exact listed row member

theorem PropertyStanding.Declared.told (declared : standing.Declared triples) (rows : List Row)
    (types : ∀ row ∈ rows, row.triple ∈ triples ∧ row.triple.predicate = Rdf.type) :
    ∀ session : Session, standing.Told setting session → standing.Told setting (rows.foldl (Session.declare true) session) := by
  induction rows with
  | nil => exact fun _ told => told
  | cons row rest ih =>
    obtain ⟨⟨listed, type⟩, others⟩ := List.forall_mem_cons.mp types
    have shape {subject : Node} {object : Term} (own : row.triple.subject = subject) (target : row.triple.object = object) :
        ⟨subject, Rdf.type, object⟩ ∈ triples := own ▸ target ▸ type ▸ listed
    refine fun session told => ih others _ (told.declare (fun iri kind own target same => ?_) fun data trait among own target => ?_)
    · have iris : iri = standing.property := by simpa [rival_eq] using congrArg Entity.iri same
      refine declared.undeclared (shape (own.trans (congrArg Node.named iris)) ?_)
      rw [target, ← same]
    · exact declared.untyped data trait among (shape own target)

/-- The declarations make the property known by its declared kind. -/
theorem PropertyStanding.Declared.upholds (declared : standing.Declared triples) (header : (Load.start document triples).HeaderOnly session) :
    standing.Upholds ⟨(TripleStore.ofTriples triples).liveRows, session.header⟩ [] (session.readDeclarations true) := by
  have begins : standing.Told ⟨(TripleStore.ofTriples triples).liveRows, session.header⟩ session := by
    refine ⟨⟨header.indexed, header.rows, rfl⟩, header.index ▸ AxiomIndex.sound_empty, ⟨fun fact member => ?_, fun id fact found => ?_⟩, fun data => ?_⟩
    · rw [Ontology.axioms, header.index] at member
      cases member
    · rw [header.produced] at found
      exact absurd found (by rw [Load.start]; simp)
    · rw [Session.hasKind, declared.ordinary data, header.kinds]
      exact Std.HashSet.contains_empty
  let types := session.unused (session.store.withPredicate Rdf.type)
  have typed : ∀ row ∈ types, row.triple ∈ triples ∧ row.triple.predicate = Rdf.type := by
    intro row member
    change row ∈ session.unused (session.store.withPredicate Rdf.type) at member
    rw [Session.unused, header.indexed.withPredicate, List.mem_filter, List.mem_filter, header.rows, beq_iff_eq] at member
    exact ⟨(TripleStore.mem_rows_ofTriples triples _).mp (List.mem_map_of_mem member.1.1), member.1.2⟩
  have told : standing.Told _ (session.readDeclarations true) := declared.told types typed session begins
  have known : (session.readDeclarations true).hasKind standing.property standing.kind.entityKind = true := by
    have other (kind : PropertyKind) : Term.resource (.named kind.entityKind.type) ≠ .resource (.named Owl.Ontology) := by
      cases kind <;> decide
    obtain ⟨row, inside, same⟩ := (Load.mem_declarations header rfl (other _)).mpr declared.declared
    rw [Session.hasKind, Bool.or_eq_true]
    refine .inr (Session.declared_kind ?_ ?_ true types session (.inl inside)) <;> rw [same] <;> rfl
  refine ⟨told.holds, told.sound, .inr (.inr ⟨⟨told.holds, ?_⟩, told.unmistaken, List.forall_mem_nil _⟩)⟩
  obtain ⟨property, _ | _⟩ := standing
  · exact Session.propertyKind?_eq_object.mpr known
  · exact Session.propertyKind?_eq_data.mpr ⟨told.unlearned rfl, known⟩

end Declarations

section Loads

variable {config : Config} {number : Nat} {document : Option Iri} {triples : List Triple} {loaded : Loaded} {standing : PropertyStanding}

/-- What a strict load gives takes a declared property for what it was not declared to be only if an
axiom imposes that. -/
theorem PropertyStanding.Declared.overruled (declared : standing.Declared triples)
    (accepted : loadTriples { config with strict := true } number document triples = .ok loaded)
    {fact : AnnotatedAxiom} (member : fact ∈ loaded.ontology.axioms) (foreign : standing.Foreign fact.components) :
    ∃ cause ∈ loaded.ontology.axioms, cause.kind ∈ imposing standing.ofData ∧ standing.Foreign cause.components := by
  obtain ⟨run, rfl⟩ := loadTriples_eq_ok.mp accepted
  let context : Context := ⟨{ config with strict := true }, number, false⟩
  have mode : context.config.strict = true := rfl
  let start := Load.start document triples
  have header : start.HeaderOnly (Load.readHeader context start).2 :=
    Load.readHeader_headerOnly (TripleStore.indexed_ofTriples triples) context
  have declare (context : Context) (session : Session) :
      (modify (·.readDeclarations true) >>= fun _ => Load.afterDeclarations : Load Unit) context session =
        Load.afterDeclarations context (session.readDeclarations true) := rfl
  have upholds : standing.Upholds ⟨(TripleStore.ofTriples triples).liveRows, (Load.readHeader context start).2.header⟩ []
      (Load.translate context start).2 := by
    obtain ⟨final, ended⟩ : ∃ final, Load.translate context start = (.ok (), final) := ⟨_, Prod.ext run rfl⟩
    rw [ended]
    cases read : (Load.readHeader context start).1 with
    | error error =>
      rw [Load.translate_eq, bind_error read] at ended
      cases ended
    | ok =>
      rw [Load.translate_eq, bind_ok read, show context.config.strict = true from rfl, declare] at ended
      exact Load.upholds_afterDeclarations mode declared.plain _ () final (declared.upholds header) ended
  rcases upholds.state with ⟨cause, listed, kind, inside⟩ | ⟨_, none, _⟩ | ⟨-, unmistaken, -⟩
  · exact ⟨cause, listed, kind, List.mem_append_left _ inside⟩
  · cases none
  · refine absurd foreign (Translation.not_foreign_append (unmistaken.axioms fact member) ?_)
    exact Translation.not_foreign_flatMap fun note _ => Translation.not_foreign_note note

/-- Beside any declaration, the graph makes the property an object property: by its name, by a
characteristic that only object properties have, or by an inverse. -/
def MakesObjectProperty (triples : List Triple) (iri : Iri) : Prop :=
  EntityKind.isBuiltin .objectProperty iri = true ∨
    (∃ trait ∈ Characteristic.ofObjects, ⟨iri, Rdf.type, trait.type⟩ ∈ triples) ∨
      ∃ triple ∈ triples, triple.predicate = Owl.inverseOf ∧ (triple.subject = iri ∨ triple.object = iri)

/-- A strict load keeps the declared kinds of properties, but for the axioms that impose a kind. A
property that is declared as a data property alone and not made an object property by other triples
is referred to as an object property only if an axiom that relates object properties or denies an
assertion of one does so. The same holds of object properties. -/
theorem declared_kinds_kept (accepted : loadTriples { config with strict := true } number document triples = .ok loaded) (iri : Iri) :
    (⟨iri, Rdf.type, Owl.DatatypeProperty⟩ ∈ triples → ⟨iri, Rdf.type, Owl.ObjectProperty⟩ ∉ triples →
      ¬ MakesObjectProperty triples iri → ∀ fact ∈ loaded.ontology.axioms, Component.objectProperty iri ∈ fact.components →
        ∃ cause ∈ loaded.ontology.axioms, cause.kind ∈ PropertyStanding.imposing true ∧ Component.objectProperty iri ∈ cause.components) ∧
    (⟨iri, Rdf.type, Owl.ObjectProperty⟩ ∈ triples → ⟨iri, Rdf.type, Owl.DatatypeProperty⟩ ∉ triples →
      ∀ fact ∈ loaded.ontology.axioms, Component.dataProperty iri ∈ fact.components →
        ∃ cause ∈ loaded.ontology.axioms, cause.kind ∈ PropertyStanding.imposing false ∧ Component.dataProperty iri ∈ cause.components) := by
  refine ⟨fun declared undeclared plain fact member foreign => ?_, fun declared undeclared fact member foreign => ?_⟩
  · have standing : PropertyStanding.Declared ⟨iri, true⟩ triples := by
      refine ⟨declared, undeclared, fun _ => ?_, fun _ trait among listed => plain (.inr (.inl ⟨trait, among, listed⟩)),
        fun _ triple listed inverse => ?_⟩
      · rw [Bool.eq_false_iff]
        exact fun builtin => plain (.inl builtin)
      · exact ⟨fun own => plain (.inr (.inr ⟨triple, listed, inverse, .inl own⟩)),
          fun own => plain (.inr (.inr ⟨triple, listed, inverse, .inr own⟩))⟩
    exact standing.overruled accepted member foreign
  · have standing : PropertyStanding.Declared ⟨iri, false⟩ triples := ⟨declared, undeclared, nofun, nofun, nofun⟩
    exact standing.overruled accepted member foreign

end Loads

namespace Translation

variable {session : Session} {iri other : Iri}

/-- An inclusion of two names, where the first is an object property. -/
theorem statement_subObjectPropertyOf (object : session.propertyKind? iri = some .object) (context : Context) :
    statement ⟨iri, Rdfs.subPropertyOf, other⟩ context session =
      (.ok (.of (.subObjectPropertyOf (.named iri) (.named other)) []),
        (((session.learn iri .objectProperty).learn other .objectProperty).learn iri .objectProperty).learn other .objectProperty) := by
  have common : commonKind [iri, other] context session = (.ok .object, session) := by
    rw [commonKind, get_bind]
    have found : [(iri : Term), other].findSome? session.termPropertyKind? = some .object := by
      rw [List.findSome?_cons, Session.termPropertyKind?, object]
    rw [found]
    rfl
  have kind : pairKind iri other context session =
      (.ok .object, (session.learn iri .objectProperty).learn other .objectProperty) := by
    rw [pairKind, bind_run common]
    rfl
  have read (iri : Iri) (session : Session) :
      propertyExpression iri context session = (.ok (.named iri), session.learn iri .objectProperty) := rfl
  change (predicateAxiom iri Rdfs.subPropertyOf other >>= fun bare => pure (AnnotatedAxiom.of bare []) :
    Translation AnnotatedAxiom) context session = _
  refine bind_run ?_ _
  rw [predicateAxiom, if_neg (by decide), if_neg (by decide), if_neg (by decide), if_neg (by decide), if_neg (by decide), if_pos rfl,
    subPropertyOf, bind_run kind]
  exact (bind_run (read iri _) _).trans (bind_run (read other _) _)

end Translation

namespace Samples

def size : Iri := ⟨"http://example.com/size"⟩

def extent : Iri := ⟨"http://example.com/extent"⟩

/-- A data property that includes an object property. -/
def inclusion : List Triple :=
  [⟨size, Rdf.type, Owl.DatatypeProperty⟩, ⟨extent, Rdf.type, Owl.ObjectProperty⟩, ⟨extent, Rdfs.subPropertyOf, size⟩]

def ofSize : Row := ⟨0, size, Rdf.type, Owl.DatatypeProperty⟩

def ofExtent : Row := ⟨1, extent, Rdf.type, Owl.ObjectProperty⟩

def including : Row := ⟨2, extent, Rdfs.subPropertyOf, size⟩

def included : AnnotatedAxiom := .of (.subObjectPropertyOf (.named extent) (.named size)) []

/-- A session after the declarations. -/
def typed (kinds : Std.HashSet Entity) (kindsChanged : Bool) (passes : Nat) : Session :=
  let start := Load.start none inclusion
  let first : AnnotatedAxiom := .of (.declaration ⟨.dataProperty, size⟩) []
  let second : AnnotatedAxiom := .of (.declaration ⟨.objectProperty, extent⟩) []
  { start with
    store := (start.store.consume 0).consume 1
    ontology := (start.ontology.add first).add second
    produced := (start.produced.insert 0 first).insert 1 second
    kinds, kindsChanged, passes }

theorem begins_inclusion : (Load.start none inclusion).store.Lists [ofSize, ofExtent, including] [] :=
  TripleStore.lists_ofTriples (by decide)

theorem declares_inclusion : ∃ kinds kindsChanged, (Load.start none inclusion).readDeclarations true = typed kinds kindsChanged 0 ∧
    kinds.contains ⟨.objectProperty, extent⟩ = true := by
  let start := Load.start none inclusion
  have types : start.unused (start.store.withPredicate Rdf.type) = [ofSize, ofExtent] := by
    rw [begins_inclusion.indexed.withPredicate, begins_inclusion.listed,
      Session.unused_of_lists begins_inclusion fun row => List.mem_of_mem_filter]
    decide
  let first := ((start.learn size .dataProperty).consume 0).commit 0 (.of (.declaration ⟨.dataProperty, size⟩) [])
  let second := first.learn extent .objectProperty
  refine ⟨second.kinds, second.kindsChanged, ?_, Session.contains_learn.mpr (.inr rfl)⟩
  rw [Session.readDeclarations, types]
  change (second.consume 1).commit 1 (.of (.declaration ⟨.objectProperty, extent⟩) []) = _
  rw [show second = _ from Session.learn_shape first extent .objectProperty,
    show first = ((Session.consume _ 0).commit 0 _) from congrArg (fun learned => (Session.consume learned 0).commit 0 _)
      (Session.learn_shape start size .dataProperty)]
  rfl

/-- A strict load takes the data property for an object property. -/
theorem loads_inclusion : ∃ loaded, loadTriples { strict := true } 0 none inclusion = .ok loaded ∧ included ∈ loaded.ontology.axioms := by
  let context : Context := ⟨{ strict := true }, 0, false⟩
  obtain ⟨kinds, before, told, known⟩ := declares_inclusion
  have listed : (typed kinds before 0).store.Lists [ofSize, ofExtent, including] [1, 0] := (begins_inclusion.consume 0).consume 1
  have work : ((typed kinds before 0).store.unconsumed.filter fun row => (typed kinds before 0).isCandidate row.triple) = [including] := by
    have special : (typed kinds before 0).isSpecial extent = false := by
      rw [Session.isSpecial, TripleStore.types, TripleStore.objects, TripleStore.matching, listed.indexed.withSubject,
        listed.listed, show (typed kinds before 0).header = none from rfl]
      decide
    have yes : (typed kinds before 0).isCandidate including.triple = true := by
      rw [Session.isCandidate, if_neg (by decide), show (typed kinds before 0).isSpecial including.triple.subject = false from special]
      rfl
    have unconsumed : (typed kinds before 0).store.unconsumed = [including] := by
      rw [listed.unconsumed]
      decide
    rw [unconsumed, List.filter_cons, yes]
    rfl
  have object : (typed kinds false 1).propertyKind? extent = some .object :=
    Session.propertyKind?_eq_object.mpr (by rw [Session.hasKind, Bool.or_eq_true]; exact .inr known)
  obtain ⟨later, after, read⟩ : ∃ later after, Translation.statement including.triple context (typed kinds false 1) =
      (.ok included, typed later after 1) := by
    have learns (kinds : Std.HashSet Entity) (changed : Bool) (iri : Iri) :
        ∃ later after, (typed kinds changed 1).learn iri .objectProperty = typed later after 1 := ⟨_, _, Session.learn_shape _ _ _⟩
    obtain ⟨kinds₁, changed₁, first⟩ := learns kinds false extent
    obtain ⟨kinds₂, changed₂, second⟩ := learns kinds₁ changed₁ size
    obtain ⟨kinds₃, changed₃, third⟩ := learns kinds₂ changed₂ extent
    obtain ⟨later, after, last⟩ := learns kinds₃ changed₃ size
    refine ⟨later, after, (Translation.statement_subObjectPropertyOf object context).trans ?_⟩
    rw [first, second, third, last]
    rfl
  obtain ⟨final, ended⟩ : ∃ final, ((typed later after 1).consume 2).commit 2 included = final := ⟨_, rfl⟩
  have store : final.store = (((Load.start none inclusion).store.consume 0).consume 1).consume 2 := ended ▸ rfl
  have ontology : final.ontology = (typed later after 1).ontology.add included := ended ▸ rfl
  have done : final.store.Lists [ofSize, ofExtent, including] [2, 1, 0] := store ▸ listed.consume 2
  have axioms : Load.translateAxioms context (typed kinds before 0) = (.ok (), final) := by
    have pass : Load.runPass [including] context (typed kinds false 1) = (.ok [], final) :=
      ended ▸ Load.runPass_single (listed.used including (by decide)) read rfl
    exact Load.translateAxioms_once work (by decide) rfl (Nat.succ_pos _) pass
  have nodes : final.axiomNodes = [] := Session.axiomNodes_of_lists done (by decide)
  have rest : final.store.unconsumed.forM Load.reportUnparsed context final = (.ok (), final) := by
    have unconsumed : final.store.unconsumed = [] := by
      rw [done.unconsumed]
      decide
    rw [unconsumed]
    rfl
  have run : Load.translate context (Load.start none inclusion) = (.ok (), final) := by
    refine Load.translate_ok ?_ ?_
    · rw [Session.ontologyNodes, begins_inclusion.indexed.withPredicate, begins_inclusion.listed]
      decide
    · rw [told]
      exact Load.afterDeclarations_ok rfl axioms nodes rest
  refine ⟨Loaded.of final, loadTriples_of_run run, ?_⟩
  have sound : (typed later after 1).ontology.index.Sound := (AxiomIndex.sound_empty.insert _).insert _
  change included ∈ final.ontology.axioms
  rw [ontology]
  exact (Ontology.mem_axioms_add sound).mpr (.inl rfl)

theorem plain_inclusion : ¬ MakesObjectProperty inclusion size := by
  rintro (builtin | ⟨trait, among, listed⟩ | ⟨triple, listed, inverse, -⟩)
  · exact absurd builtin (by decide)
  · revert trait
    decide
  · revert triple
    decide

end Samples

theorem declared_kinds_kept_inclusion : ∃ loaded, loadTriples { strict := true } 0 none Samples.inclusion = .ok loaded ∧
    Samples.included ∈ loaded.ontology.axioms ∧ ∃ cause ∈ loaded.ontology.axioms, cause.kind ∈ PropertyStanding.imposing true ∧
      Component.objectProperty Samples.size ∈ cause.components := by
  obtain ⟨loaded, accepted, member⟩ := Samples.loads_inclusion
  exact ⟨loaded, accepted, member, (@declared_kinds_kept {} 0 none Samples.inclusion loaded accepted Samples.size).1 (by decide) (by decide)
    Samples.plain_inclusion Samples.included member (by decide)⟩

/-- A property that is declared as a data property alone is referred to as an object property. -/
theorem not_declared_kinds_kept : ¬ ∀ (config : Config) (number : Nat) (document : Option Iri) (triples : List Triple)
    (loaded : Loaded), loadTriples { config with strict := true } number document triples = .ok loaded → ∀ iri : Iri,
      (⟨iri, Rdf.type, Owl.DatatypeProperty⟩ ∈ triples → ⟨iri, Rdf.type, Owl.ObjectProperty⟩ ∉ triples →
        ⟨iri, Rdf.type, Owl.AnnotationProperty⟩ ∉ triples →
          ∀ fact ∈ loaded.ontology.axioms, Component.objectProperty iri ∉ fact.components) ∧
      (⟨iri, Rdf.type, Owl.ObjectProperty⟩ ∈ triples → ⟨iri, Rdf.type, Owl.DatatypeProperty⟩ ∉ triples →
        ⟨iri, Rdf.type, Owl.AnnotationProperty⟩ ∉ triples →
          ∀ fact ∈ loaded.ontology.axioms, Component.dataProperty iri ∉ fact.components) := by
  intro claim
  obtain ⟨loaded, accepted, member⟩ := Samples.loads_inclusion
  exact (claim {} 0 none Samples.inclusion loaded accepted Samples.size).1 (by decide) (by decide) (by decide) Samples.included member
    (by decide)

end OwlGraph
