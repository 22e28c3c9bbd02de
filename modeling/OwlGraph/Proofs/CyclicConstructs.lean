import OwlGraph.Proofs.Unfolding

/-! Constructs that contain themselves are refused. Every reading comes to an end, since it goes into
no node that it is inside of. Whatever comes of it, it leaves those nodes behind that were being read
before, and what it gives was found along ways on which no node comes twice. -/

namespace OwlGraph

/-- The session in which what stands for the annotation by the triple is looked for. -/
def Session.noting (session : Session) (row : Row) : Session :=
  (session.learn row.triple.predicate .annotationProperty).consume row.id

namespace Setting

open Translation

variable {setting : Setting} {α β : Type}

/-- The computation fails for no other reason than that a construct contains itself. -/
def Refuses (setting : Setting) (body : Translation α) : Prop :=
  ∀ context session halt, setting.Holds session → (body context session).1 = .error halt →
    ∃ node, halt = .failed (.selfContained node)

namespace Refuses

theorem sure {body : Translation α} (gives : ∀ context session, ∃ value, (body context session).1 = .ok value) :
    setting.Refuses body := by
  intro context session halt _ run
  obtain ⟨value, found⟩ := gives context session
  rw [found] at run
  cases run

theorem bind {body : Translation α} {next : α → Translation β} (first : setting.Refuses body)
    (reads : setting.Reads setting.triples body) (rest : ∀ value, setting.Refuses (next value)) :
    setting.Refuses (body >>= next) := by
  intro context session halt holds run
  cases ended : (body context session).1 with
  | error _ =>
    rw [Run.bind_error ended] at run
    cases run
    exact first context session _ holds ended
  | ok value =>
    rw [Run.bind_ok ended] at run
    exact rest value context _ halt (reads.returns context holds).1 run

theorem look {next : Session → Translation α} (rest : ∀ session, setting.Holds session → setting.Refuses (next session)) :
    setting.Refuses (MonadState.get >>= next) :=
  fun context session halt holds run => rest session holds context session halt holds run

theorem nested {body : Translation α} (node : Node) (inner : setting.Refuses body) : setting.Refuses (nested node body) := by
  intro context session halt holds run
  rw [Translation.nested] at run
  split at run
  · cases run
    exact ⟨node, rfl⟩
  · exact inner context _ halt (holds.visit _) run

theorem mapM {act : α → Translation β} (items : List α) (reads : ∀ item ∈ items, setting.Reads setting.triples (act item))
    (each : ∀ item ∈ items, setting.Refuses (act item)) : setting.Refuses (items.mapM act) := by
  induction items with
  | nil => exact sure fun _ _ => ⟨_, rfl⟩
  | cons item rest ih =>
    rw [List.mapM_cons]
    have later (other : α) (member : other ∈ rest) := reads other (List.mem_cons_of_mem _ member)
    exact bind (each item List.mem_cons_self) (reads item List.mem_cons_self) fun _ =>
      bind (ih later fun other member => each other (List.mem_cons_of_mem _ member)) (.mapM rest later) fun _ =>
        sure fun _ _ => ⟨_, rfl⟩

end Refuses

end Setting

namespace Translation

open Setting

variable {setting : Setting} {session : Session} {α : Type}

section Annotations

theorem refuses_readNote {inner : Node → Translation (List Annotation)} (reads : ∀ node, setting.Reads setting.triples (inner node))
    (each : ∀ node, setting.Refuses (inner node)) {row : Row} (listed : row ∈ setting.rows) :
    setting.Refuses (readNote inner row) := by
  obtain ⟨id, source, property, object⟩ := row
  refine .look fun session _ => ?_
  split
  · refine .bind (.sure fun _ _ => ⟨_, rfl⟩) (reads_learn _ _) fun _ => .bind (.sure fun _ _ => ⟨_, rfl⟩) (reads_annotationValue _)
      fun value => .bind (.sure fun _ _ => ⟨_, rfl⟩) (reads_consume (usable_all listed)) fun _ => .look fun session holds => ?_
    have reified (node : Node) : setting.Reads setting.triples (do
        consumeReification node
        inner node) := (reads_consumeReification (open_all node)).bind fun _ => reads node
    have entered (node : Node) : setting.Refuses (nested node do
        consumeReification node
        inner node) :=
      .nested node (.bind (.sure fun _ _ => ⟨_, rfl⟩) (reads_consumeReification (open_all node)) fun _ => each node)
    exact .bind (.mapM _ (fun node _ => reads_nested node (reified node)) fun node _ => entered node)
      (.mapM _ fun node _ => reads_nested node (reified node)) fun _ => .sure fun _ _ => ⟨_, rfl⟩
  · exact .sure fun _ _ => ⟨_, rfl⟩

theorem refuses_annotationsWithin (depth : Nat) (node : Node) : setting.Refuses (annotationsWithin depth node) := by
  induction depth generalizing node with
  | zero =>
    rintro context session _ - ⟨⟩
    exact ⟨node, rfl⟩
  | succ depth ih =>
    refine .look fun session holds => ?_
    have reads (node : Node) : setting.Reads setting.triples (annotationsWithin depth node) :=
      reads_annotationsWithin depth node (open_all node)
    have listed (row : Row) (member : row ∈ session.unused (session.store.withSubject node)) : row ∈ setting.rows := by
      rw [Session.unused, List.mem_filter, holds.mem_withSubject] at member
      exact member.1.1
    have note (row : Row) (member : row ∈ session.unused (session.store.withSubject node)) :
        setting.Reads setting.triples (readNote (annotationsWithin depth) row) :=
      reads_readNote (fun node _ => reads node) (usable_all (listed row member))
    exact .bind (.mapM _ note fun row member => refuses_readNote reads ih (listed row member)) (.mapM _ note) fun _ =>
      .sure fun _ _ => ⟨_, rfl⟩

theorem holds_noting (holds : setting.Holds session) {row : Row} (listed : row ∈ setting.rows) :
    setting.Holds (session.noting row) ∧ (session.noting row).visiting = session.visiting := by
  have reads : setting.Reads setting.triples (do
      learn row.triple.predicate .annotationProperty
      consume row.id) := (reads_learn _ _).bind fun _ => reads_consume (usable_all listed)
  exact reads.returns ⟨{}, 0, false⟩ holds

/-- A note is read for its own annotations after its triple is used. -/
theorem readNote_eq (inner : Node → Translation (List Annotation)) {row : Row} (context : Context)
    (told : session.isAnnotationProperty row.triple.predicate = true) : ∃ value, readNote inner row context session = (do
      let notes ← ((session.noting row).reifiers row.triple.subject row.triple.predicate row.triple.object).mapM fun reifier =>
        nested reifier do
          consumeReification reifier
          inner reifier
      return some ⟨row.triple.predicate, value, notes.flatten⟩ : Translation (Option Annotation)) context (session.noting row) := by
  obtain ⟨id, source, property, object⟩ := row
  change ∃ value, (if session.isAnnotationProperty property = true then _ else _ : Translation _) context session = _
  have learned : learn property .annotationProperty context session = (.ok (), session.learn property .annotationProperty) := rfl
  have valued (session : Session) : annotationValue object context session =
      (.ok (object.rename (session.anonymous context.number)), session) := rfl
  have used (session : Session) : consume id context session = (.ok (), session.consume id) := rfl
  refine ⟨object.rename ((session.learn property .annotationProperty).anonymous context.number), ?_⟩
  rw [if_pos told, Run.bind_run learned, Run.bind_run (valued _), Run.bind_run (used _), Run.get_bind, Session.noting]

/-- No note is read through a node that is being read. -/
theorem readNote_refused (holds : setting.Holds session) {inner : Node → Translation (List Annotation)}
    (reads : ∀ node, setting.Reads setting.triples (inner node)) (each : ∀ node, setting.Refuses (inner node)) {row : Row}
    (listed : row ∈ setting.rows) (told : session.isAnnotationProperty row.triple.predicate = true) {reifier : Node}
    (member : reifier ∈ (session.noting row).reifiers row.triple.subject row.triple.predicate row.triple.object)
    (visited : reifier ∈ session.visiting) (context : Context) :
    ∃ node, (readNote inner row context session).1 = .error (.failed (.selfContained node)) := by
  -- Only cycles make the reading fail, and a note that is read has no reifier that was being read.
  match run : (readNote inner row context session).1 with
  | .error halt =>
    obtain ⟨node, rfl⟩ := refuses_readNote reads each listed context session halt holds run
    exact ⟨node, rfl⟩
  | .ok note =>
    obtain ⟨value, body⟩ := readNote_eq inner context told
    obtain ⟨later, inside⟩ := holds_noting holds listed
    obtain ⟨notes, after, read, -⟩ := Run.exists_of_bind (body.symm.trans (Prod.ext run rfl))
    have entered (node : Node) : setting.Gives session.visiting (nested node do
        consumeReification node
        inner node) fun _ => node ∉ session.visiting := .nested fun fresh _ _ _ _ _ _ => fresh
    have reified (node : Node) : setting.Reads setting.triples (nested node do
        consumeReification node
        inner node) := reads_nested node ((reads_consumeReification (open_all node)).bind fun _ => reads node)
    have unvisited := Gives.mapM _ (fun node _ => reified node) (fun node _ => entered node) context _ notes later inside
      (congrArg Prod.fst read)
    obtain ⟨_, -, fresh⟩ := exists_of_mem_right unvisited.flip member
    exact absurd visited fresh

end Annotations

/-- However often a reading is unfolded, beyond the number of triples, it does not come to what stands at
the end. -/
structure Terminates (context : Context) (session : Session) : Prop where
  classes (inner : Term → Translation ClassExpression) {depth : Nat} (enough : session.store.entries.size < depth) (term : Term) :
    classExpressionStep^[depth] inner term context session = classExpression term context session
  dataRanges (inner : Term → Translation DataRange) {depth : Nat} (enough : session.store.entries.size < depth) (term : Term) :
    dataRangeStep^[depth] inner term context session = dataRange term context session
  annotations (inner : Node → Translation (List Annotation)) {depth : Nat} (enough : session.store.entries.size < depth)
    (node : Node) : annotationsStep^[depth] inner node context session = annotationsOn node context session

/-- How a reading treats the nodes that are being read. -/
structure Guards (context : Context) (session : Session) (reader : Term → Translation α) (unfolds : Term → α → Prop) : Prop where
  /-- The nodes being read are those from before, whatever comes of the reading. -/
  releases (term : Term) : (reader term context session).2.visiting = session.visiting
  refuses {node : BlankNode} (visited : .blank node ∈ session.visiting) : ∃ problem : Problem, problem.kind = .invalidValue ∧
    reader node context session = (.error (.failed problem), session)
  acyclic {term : Term} {value : α} (run : (reader term context session).1 = .ok value) : unfolds term value

/-- How the reading of annotations treats the nodes that are being read. -/
structure GuardsNotes (context : Context) (session : Session) : Prop where
  releases (node : Node) : (annotationsOn node context session).2.visiting = session.visiting
  /-- A note is not read if what stands for it is being read. -/
  refuses {row : Row} (listed : row ∈ session.store.liveRows)
    (told : session.isAnnotationProperty row.triple.predicate = true) {reifier : Node}
    (member : reifier ∈ (session.noting row).reifiers row.triple.subject row.triple.predicate row.triple.object)
    (visited : reifier ∈ session.visiting) (depth : Nat) : ∃ problem : Problem, problem.kind = .invalidValue ∧
      (readNote (annotationsWithin depth) row context session).1 = .error (.failed problem)
  acyclic {node : Node} {notes : List Annotation} (run : (annotationsOn node context session).1 = .ok notes) :
    ∀ note ∈ notes, note.Unfolds session.store.graph session.visiting node

theorem nested_visited {node : Node} (visited : node ∈ session.visiting) (body : Translation α) (context : Context) :
    nested node body context session = (.error (.failed (.selfContained node)), session) := by
  rw [nested, if_pos (List.contains_iff_mem.mpr visited)]

theorem guards_of_gives {reader : Term → Translation α} {unfolds : Term → α → Prop} {context : Context}
    (holds : setting.Holds session) (reads : ∀ term, setting.Reads setting.triples (reader term))
    (enters : ∀ node : BlankNode, ∃ body, reader node context session = nested node body context session)
    (gives : ∀ term, setting.Gives session.visiting (reader term) (unfolds term)) : Guards context session reader unfolds where
  releases term := ((reads term).returns context holds).2
  refuses {node} visited := by
    obtain ⟨body, run⟩ := enters node
    exact ⟨.selfContained node, rfl, run.trans (nested_visited visited body context)⟩
  acyclic run := gives _ context session _ holds rfl run

/-- Constructs that contain themselves are refused, whatever the triples and the nodes being read. -/
theorem cyclic_constructs_refused (context : Context) {session : Session} (indexed : session.store.Indexed) :
    Terminates context session ∧
    Guards context session classExpression (ClassExpression.Unfolds session.store.graph session.visiting) ∧
    Guards context session dataRange (DataRange.Unfolds session.store.graph session.visiting) ∧
    Guards context session atom (Atom.Unfolds session.store.graph session.visiting) ∧
    GuardsNotes context session := by
  let setting : Setting := ⟨session.store.liveRows, session.header⟩
  have holds : setting.Holds session := ⟨indexed, rfl, rfl⟩
  have limit : depthLimit context session = (.ok (session.store.entries.size + 1), session) := rfl
  have classes (node : BlankNode) : ∃ body, classExpression node context session = nested node body context session := by
    rw [classExpression, Run.bind_run limit, classExpressionWithin]
    exact ⟨_, rfl⟩
  have dataRanges (node : BlankNode) : ∃ body, dataRange node context session = nested node body context session := by
    rw [dataRange, Run.bind_run limit, dataRangeWithin]
    exact ⟨_, rfl⟩
  have atoms (node : BlankNode) : ∃ body, atom node context session = nested node body context session := by
    rw [atom]
    exact ⟨_, rfl⟩
  refine ⟨?terminates, guards_of_gives holds reads_classExpression classes gives_classExpression,
    guards_of_gives holds reads_dataRange dataRanges gives_dataRange, guards_of_gives holds reads_atom atoms gives_atom, ?notes⟩
  case terminates =>
    exact ⟨fun inner _ enough term => classExpressionStep_limit indexed enough context inner term,
      fun inner _ enough term => dataRangeStep_limit indexed enough context inner term,
      fun inner _ enough node => annotationsStep_limit indexed enough context inner node⟩
  case notes =>
    refine ⟨fun node => ((reads_annotationsOn (open_all node)).returns context holds).2,
      fun {row} listed told {reifier} member visited depth => ?_, fun run => gives_annotationsOn _ context session _ holds rfl run⟩
    obtain ⟨node, failed⟩ := readNote_refused holds (fun node => reads_annotationsWithin depth node (open_all node))
      (refuses_annotationsWithin depth) listed told member visited context
    exact ⟨.selfContained node, rfl, failed⟩

namespace Samples

def ouroboros : BlankNode := ⟨"x"⟩

/-- A class that is its own complement. -/
def ownComplement : List Triple :=
  [⟨ouroboros, Rdf.type, Owl.Class⟩, ⟨ouroboros, Owl.complementOf, ouroboros⟩]

theorem mem_ownComplement {predicate : Iri} {object : Term}
    (member : (⟨ouroboros, predicate, object⟩ : Triple) ∈ (TripleStore.ofTriples ownComplement).graph) :
    predicate = Rdf.type ∨ predicate = Owl.complementOf ∧ object = ouroboros := by
  rw [TripleStore.graph, TripleStore.mem_rows_ofTriples] at member
  rcases List.mem_cons.mp member with same | later
  · exact .inl (congrArg Triple.predicate same)
  · cases List.mem_singleton.mp later
    exact .inr ⟨rfl, rfl⟩

theorem not_unfolds_ownComplement (path : List Node) (expression : ClassExpression) :
    ¬ expression.Unfolds (TripleStore.ofTriples ownComplement).graph path ouroboros := by
  have apart {predicate : Iri} {object : Term}
      (member : (⟨ouroboros, predicate, object⟩ : Triple) ∈ (TripleStore.ofTriples ownComplement).graph)
      (other : predicate ≠ Rdf.type ∧ predicate ≠ Owl.complementOf) : False :=
    (mem_ownComplement member).elim other.1 fun found => other.2 found.1
  intro unfolds
  generalize start : (ouroboros : Term) = term at unfolds
  cases unfolds with
  | named => cases start
  | complement fresh value part =>
    cases start
    rcases mem_ownComplement value with same | ⟨-, rfl⟩
    · exact absurd same (by decide)
    · exact part.fresh List.mem_cons_self
  | @combination _ _ junction _ _ _ lists =>
    cases start
    obtain ⟨_, _, value, -⟩ := lists
    exact apart value (by cases junction <;> decide)
  | @objectValues _ _ quantifier _ _ _ value | @dataValues _ _ quantifier _ _ _ value =>
    cases start
    exact apart value (by cases quantifier <;> decide)
  | @objectCardinality _ _ bound _ _ value | @dataCardinality _ _ bound _ _ value =>
    cases start
    exact apart value (by cases bound <;> decide)
  | oneOf _ value | objectHasValue _ value | hasSelf _ value | qualifiedObject _ value | dataHasValue _ value | qualifiedData _ value =>
    cases start
    exact apart value (by decide)

end Samples

/-- A class that is its own complement is never read, and is refused while it is being read. -/
theorem cyclic_constructs_refused_complement :
    let context : Context := ⟨{}, 0, false⟩
    let session : Session := { store := .ofTriples Samples.ownComplement }
    let inside : Session := { session with visiting := [Samples.ouroboros] }
    session.store.Indexed ∧
    (∀ expression, (classExpression Samples.ouroboros context session).1 ≠ .ok expression) ∧
    (classExpression Samples.ouroboros context session).2.visiting = [] ∧
    ∃ problem : Problem, problem.kind = .invalidValue ∧
      classExpression Samples.ouroboros context inside = (.error (.failed problem), inside) := by
  intro context session inside
  have indexed : session.store.Indexed := TripleStore.indexed_ofTriples _
  obtain ⟨-, outside, -⟩ := cyclic_constructs_refused context indexed
  obtain ⟨-, within, -⟩ := @cyclic_constructs_refused context inside indexed
  refine ⟨indexed, fun expression run => ?_, outside.releases _, within.refuses List.mem_cons_self⟩
  exact Samples.not_unfolds_ownComplement [] expression (outside.acyclic run)

end Translation

end OwlGraph
