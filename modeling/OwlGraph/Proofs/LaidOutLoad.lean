import OwlGraph.Proofs.Preparing

/-! Loads of graphs that are laid out. Every candidate is read in the first pass, the nodes that point
at axioms are merged one after the other, and nothing is left to be reported. -/

namespace OwlGraph

namespace Load

open World

variable {world : World} {layout : Layout}

section Passes

variable {base : Triple → Prop} {notes : List Annotation} {done : Triple → Prop} {session : Session}

/-- The triples that are used before any axiom is read, apart from declarations. -/
def Opening (layout : Layout) (triple : Triple) : Prop := layout.Base triple ∨ triple ∈ layout.group

variable (laid : world.LaidOut layout) (forced : Bool)
include laid

theorem not_opening_main {entry : Entry} (listed : entry ∈ layout.entries) : ¬ Opening layout entry.main := by
  rintro (base | group)
  · exact (laid.states.mains entry listed).2 base
  · exact (laid.apart.own _ .group _ group).2 entry listed rfl

/-- A triple that stands for an axiom is used only when the axiom was read. -/
theorem done_of_used {merged : BlankNode → Prop} (progress : world.Progress layout (Opening layout) notes done merged session) {row : Row}
    (member : row ∈ world.rows) {entry : Entry} (listed : entry ∈ layout.entries) (main : row.triple = entry.main)
    (used : session.store.isConsumed row.id = true) : done row.triple := by
  rcases (progress.clear.used row member).mp used with opening | ⟨other, inside, finished, here | within⟩ | ⟨remark, inside, -, within⟩
  · exact absurd (main ▸ opening) (not_opening_main laid listed)
  · exact here ▸ finished
  · exact absurd main ((laid.states.blocks other inside _ within).2 entry listed)
  · exact absurd main ((laid.apart.own _ (.remark inside) _ within).2 entry listed)

omit laid in
theorem used_of_done {merged : BlankNode → Prop} (progress : world.Progress layout (Opening layout) notes done merged session) {row : Row}
    (member : row ∈ world.rows) {entry : Entry} (listed : entry ∈ layout.entries) (main : row.triple = entry.main)
    (finished : done row.triple) : session.store.isConsumed row.id = true :=
  (progress.clear.used row member).mpr (.inr (.inl ⟨entry, listed, main ▸ finished, .inl main⟩))

/-- The annotations of an axiom are unused until the axiom is read. -/
theorem unused_notes {merged : BlankNode → Prop} (progress : world.Progress layout (Opening layout) notes done merged session) {entry : Entry}
    (listed : entry ∈ layout.entries) (unread : ¬ done entry.main) : world.Unused session entry.notes := by
  intro row member inside
  rw [Bool.eq_false_iff, ne_eq, progress.clear.used row member]
  obtain ⟨within, others, remarks⟩ := laid.apart.notes entry listed _ inside
  rintro ((base | group) | ⟨other, present, finished, main | used⟩ | ⟨remark, present, -, used⟩)
  · exact (laid.apart.own _ (.notes listed) _ inside).1 base
  · exact (laid.apart.group _ group).1 entry listed within
  · exact (laid.apart.own _ (.notes listed) _ inside).2 other present main
  · by_cases same : other.main = entry.main
    · exact unread (same ▸ finished)
    · exact others other present same used
  · exact remarks remark present used

/-- A triple that declares nothing stands for no declaration. -/
theorem stage_of_main {entry other : Entry} (listed : entry ∈ layout.entries) (soon : entry.stage ≠ .early) (also : other ∈ layout.entries)
    (same : other.main = entry.main) : other.stage ≠ .early := by
  intro early
  obtain ⟨-, entity, declares, -⟩ := laid.declares.early other also early
  exact laid.declares.later entry listed soon entity (same.symm.trans declares)

/-- Entries of one triple are read alike. -/
theorem alike_of_read (holds : world.Holds session) (idle : session.visiting = []) {entry other : Entry} (also : other ∈ layout.entries)
    (soon : other.stage ≠ .early) (same : other.main = entry.main) (unused : world.Unused session other.notes) {after : Session}
    (run : Translation.statement entry.main { world.context with forced } session = (.ok entry.fact, after))
    (step : world.Step session after entry.block) : other.fact = entry.fact ∧
      ∀ row ∈ world.rows, row.triple ∈ other.block → session.store.isConsumed row.id = true ∨ row.triple ∈ entry.block := by
  obtain ⟨last, read, also_step⟩ := laid.states.reads other also soon forced session holds idle unused
  rw [same, run] at read
  obtain ⟨value, rfl⟩ := Prod.ext_iff.mp read
  exact ⟨(Except.ok.inj value).symm, fun row member within => (step.used row member).mp ((also_step.used row member).mpr (.inr within))⟩

/-- The triple of a row stands for an axiom that is read as a candidate. -/
def Candidate (world : World) (layout : Layout) (row : Row) : Prop :=
  row ∈ world.rows ∧ ∃ entry ∈ layout.entries, entry.stage = .candidate ∧ row.triple = entry.main

/-- At first the candidates are those that the layout tells. -/
theorem mem_candidates_laidOut (progress : world.Progress layout (Opening layout) notes
      (fun triple => ∃ entity : Entity, triple = entity.declaring) (fun _ => False) session) (row : Row) :
    row ∈ session.store.unconsumed.filter (fun row => session.isCandidate row.triple) ↔ Candidate world layout row := by
  obtain ⟨candidate, late, blocks, exclusive⟩ := laid.states.candidates session progress.clear.holds progress.clear.headed
  rw [TripleStore.unconsumed_eq, List.mem_filter, List.mem_filter, progress.clear.holds.rows, Bool.not_eq_true']
  constructor
  · rintro ⟨⟨member, unused⟩, chosen⟩
    have free (used : layout.Used (Opening layout) (fun triple => ∃ entity : Entity, triple = entity.declaring) (fun _ => False) row.triple) :
        False := by
      rw [(progress.clear.used row member).mpr used] at unused
      cases unused
    have known : row.triple ∈ world.graph := List.mem_map_of_mem member
    have other (unchosen : session.isCandidate row.triple = false) : False := by
      rw [unchosen] at chosen
      cases chosen
    refine ⟨member, ?_⟩
    rcases laid.cover _ known with opening | ⟨entry, listed, -, main | within⟩ | ⟨remark, listed, -, within⟩
    · exact (free (.inl opening)).elim
    · refine ⟨entry, listed, ?_, main⟩
      cases stage : entry.stage with
      | early =>
        obtain ⟨-, entity, declares, -⟩ := laid.declares.early entry listed stage
        exact (free (.inr (.inl ⟨entry, listed, ⟨entity, declares⟩, .inl main⟩))).elim
      | candidate => rfl
      | late => exact (other (main ▸ late entry listed stage)).elim
    · exact (other (blocks entry listed _ within known)).elim
    · exact (other (exclusive _ (.remark listed) _ within known)).elim
  · rintro ⟨member, entry, listed, stage, main⟩
    refine ⟨⟨member, ?_⟩, main ▸ candidate entry listed stage⟩
    rw [Bool.eq_false_iff]
    intro used
    obtain ⟨entity, declares⟩ := done_of_used laid progress member listed main used
    exact laid.declares.later entry listed (by simp [stage]) entity (main.symm.trans declares)

theorem reaches_postpones_laidOut {row : Row} (candidate : Candidate world layout row) : Reaches { world.context with forced }
    (world.Progress layout (Opening layout) notes done fun _ => False) (postpones row) fun waits session =>
      waits = false ∧ world.Progress layout (Opening layout) notes (fun triple => done triple ∨ triple = row.triple) (fun _ => False) session := by
  obtain ⟨member, entry, listed, stage, main⟩ := candidate
  have later : entry.stage ≠ .early ∧ entry.stage ≠ .late := by simp [stage]
  refine .look fun session progress => .ite (fun used => .pure ?_) fun unused => ?_
  · rintro _ rfl
    refine ⟨rfl, progress.congr (fun _ _ => Iff.rfl) (fun other _ => (or_iff_left_of_imp fun same => ?_).symm) fun _ _ => Iff.rfl⟩
    exact same ▸ done_of_used laid progress member listed main used
  · rintro _ rfl
    have unread : ¬ done entry.main := fun finished => unused (used_of_done progress member listed main (main ▸ finished))
    obtain ⟨after, run, step⟩ := laid.states.reads entry listed later.1 forced _ progress.clear.holds progress.clear.idle
      (unused_notes laid progress listed unread)
    have silent : after.pending = #[] := by rw [step.same]; exact progress.clear.settled
    have translated := translateCandidate_ok (main ▸ run) silent
    refine ⟨false, _, Run.bind_run translated _, rfl, progress.commit member listed main later.2 step
      fun other also same => ?_⟩
    obtain ⟨fact, used⟩ := alike_of_read laid forced progress.clear.holds progress.clear.idle also (stage_of_main laid listed later.1 also same) same
      (unused_notes laid progress also (same ▸ unread)) run step
    refine ⟨fact, fun triple known within => ?_⟩
    obtain ⟨row, member, rfl⟩ := List.mem_map.mp known
    exact (used row member within).imp_left (progress.clear.used row member).mp

/-- A pass gives no candidate back. -/
theorem reaches_runPass_laidOut (work : List Row) (present : ∀ row ∈ work, Candidate world layout row) : ∀ done : Triple → Prop,
    Reaches { world.context with forced } (world.Progress layout (Opening layout) notes done fun _ => False) (runPass work)
      fun waiting session => waiting = [] ∧
        world.Progress layout (Opening layout) notes (fun triple => done triple ∨ ∃ row ∈ work, triple = row.triple) (fun _ => False) session := by
  induction work with
  | nil => exact fun done session progress => ⟨[], session, rfl, rfl, by simpa using progress⟩
  | cons row work ih =>
    intro done
    obtain ⟨first, others⟩ := List.forall_mem_cons.mp present
    rw [runPass_cons]
    refine (reaches_postpones_laidOut laid forced first).bind fun waits => ?_
    rintro session ⟨rfl, progress⟩
    obtain ⟨waiting, last, run, rfl, reached⟩ := ih others _ session progress
    exact ⟨[], last, Run.bind_run run _, rfl, by simpa [or_assoc] using reached⟩

omit laid in
theorem Progress.passes (progress : world.Progress layout (Opening layout) notes done (fun _ => False) session) (kindsChanged : Bool) (passes : Nat) :
    world.Progress layout (Opening layout) notes done (fun _ => False) { session with kindsChanged, passes } := by
  have clear := progress.clear
  have same : world.Clear (some layout.header) _ _ { session with kindsChanged, passes } := clear.of_same rfl rfl clear.headed
  exact ⟨same, progress.produced, progress.id, progress.imports, progress.annotations⟩

variable (uncancelled : world.context.config.cancelled = false)
include uncancelled

omit laid in
theorem reaches_beginPass_laidOut : Reaches { world.context with forced } (world.Progress layout (Opening layout) notes done fun _ => False)
    beginPass fun _ => world.Progress layout (Opening layout) notes done fun _ => False := by
  intro session progress
  exact ⟨(), _, beginPass_ok uncancelled, Progress.passes progress _ _⟩

/-- Either there is no pass or the first one is enough. -/
theorem reaches_makePasses_laidOut (remaining : Nat) (work : List Row) (present : ∀ row ∈ work, Candidate world layout row) :
    Reaches { world.context with forced } (world.Progress layout (Opening layout) notes done fun _ => False) (makePasses remaining work)
      fun waiting session => waiting = work ∧ world.Progress layout (Opening layout) notes done (fun _ => False) session ∨
        waiting = [] ∧ world.Progress layout (Opening layout) notes (fun triple => done triple ∨ ∃ row ∈ work, triple = row.triple)
          (fun _ => False) session := by
  cases remaining with
  | zero => exact .pure fun session progress => Or.inl ⟨rfl, progress⟩
  | succ remaining =>
    rw [makePasses_succ]
    refine .ite (fun empty => .pure fun session progress => Or.inl ⟨(List.isEmpty_iff.mp empty).symm, progress⟩) fun some => ?_
    have anew : Reaches { world.context with forced } (world.Progress layout (Opening layout) notes done fun _ => False)
        (modify fun session => { session with kindsChanged := false }) fun _ => world.Progress layout (Opening layout) notes done fun _ => False :=
      .alter fun session progress => Progress.passes progress false session.passes
    have passed : Reaches { world.context with forced } (world.Progress layout (Opening layout) notes done fun _ => False) (pass work) _ :=
      (reaches_beginPass_laidOut forced uncancelled).bind fun _ => anew.bind fun _ =>
        reaches_runPass_laidOut laid forced work present done
    refine passed.bind fun waiting => ?_
    rintro session ⟨rfl, progress⟩
    have other : ¬ (([] : List Row).length = work.length ∧ (!session.kindsChanged) = true) := by
      rintro ⟨size, -⟩
      exact some (List.isEmpty_iff.mpr (List.length_eq_zero_iff.mp size.symm))
    refine ⟨[], session, ?_, Or.inr ⟨rfl, progress⟩⟩
    rw [afterPass_eq, if_neg other]
    cases remaining <;> rfl

theorem reaches_settle_laidOut (work : List Row) (present : ∀ row ∈ work, Candidate world layout row) :
    Reaches { world.context with forced } (world.Progress layout (Opening layout) notes done fun _ => False) (settle work) fun _ =>
      world.Progress layout (Opening layout) notes (fun triple => done triple ∨ ∃ row ∈ work, triple = row.triple) fun _ => False := by
  refine .ite (fun empty => .pure fun session progress => ?_) fun _ =>
    (reaches_beginPass_laidOut forced uncancelled).bind fun _ => (reaches_runPass_laidOut laid forced work present done).bind
      fun waiting => ?_
  · simpa [List.isEmpty_iff.mp empty] using progress
  · rintro session ⟨rfl, progress⟩
    exact ⟨(), session, rfl, progress⟩

/-- The triples of the axioms that are read before the annotations of nodes are merged, and of those that
nodes were merged into. -/
def Read (layout : Layout) (merged : BlankNode → Prop) (triple : Triple) : Prop :=
  (∃ entry ∈ layout.entries, entry.stage ≠ .late ∧ triple = entry.main) ∨
    ∃ remark ∈ layout.remarks, merged remark.node ∧ triple = remark.entry.main

theorem reaches_translateAxioms_laidOut (plain : world.context.forced = false) :
    Reaches world.context (world.Progress layout (Opening layout) notes (fun triple => ∃ entity : Entity, triple = entity.declaring) fun _ => False)
      translateAxioms fun _ => world.Progress layout (Opening layout) notes (Read layout fun _ => False) fun _ => False := by
  refine .look fun session progress => ?_
  have work := mem_candidates_laidOut laid progress
  have unlate := (laid.states.candidates session progress.clear.holds progress.clear.headed)
  generalize session.store.unconsumed.filter (fun row => session.isCandidate row.triple) = rows at work
  have present : ∀ row ∈ rows, Candidate world layout row := fun row => (work row).mp
  have all : ∀ after, world.Progress layout (Opening layout) notes
      (fun triple => (∃ entity : Entity, triple = entity.declaring) ∨ ∃ row ∈ rows, triple = row.triple) (fun _ => False) after →
      world.Progress layout (Opening layout) notes (Read layout fun _ => False) (fun _ => False) after := by
    refine fun after reached => reached.congr (fun _ _ => Iff.rfl) (fun entry listed => ?_) fun _ _ => Iff.rfl
    rw [Read]
    simp only [false_and, and_false, exists_false, or_false]
    constructor
    · rintro (⟨entity, declares⟩ | ⟨row, member, same⟩)
      · refine ⟨entry, listed, fun late => ?_, rfl⟩
        exact laid.declares.later entry listed (by simp [late]) entity declares
      · obtain ⟨-, other, inside, stage, main⟩ := present row member
        exact ⟨other, inside, by simp [stage], same.trans main⟩
    · rintro ⟨other, inside, soon, same⟩
      cases stage : other.stage with
      | early =>
        obtain ⟨-, entity, declares, -⟩ := laid.declares.early other inside stage
        exact .inl ⟨entity, same.trans declares⟩
      | candidate =>
        obtain ⟨row, member, of⟩ := List.mem_map.mp (laid.states.mains other inside).1
        exact .inr ⟨row, (work row).mpr ⟨member, other, inside, stage, of⟩, same.trans of.symm⟩
      | late => exact absurd stage soon
  have context : { world.context with forced := false } = world.context := by
    rw [← plain]
  have made := reaches_makePasses_laidOut laid false uncancelled world.context.config.maxPasses rows present session progress
  rw [context] at made
  obtain ⟨waiting, last, run, reached⟩ := made
  have settled : ∃ value after, settle waiting { world.context with forced := true } last = (.ok value, after) ∧
      world.Progress layout (Opening layout) notes (Read layout fun _ => False) (fun _ => False) after := by
    rcases reached with ⟨rfl, progress⟩ | ⟨rfl, progress⟩
    · obtain ⟨value, after, ended, reached⟩ := reaches_settle_laidOut laid true uncancelled waiting present last progress
      exact ⟨value, after, ended, all after reached⟩
    · exact ⟨(), last, rfl, all last progress⟩
  rintro _ rfl
  change ∃ value after, (makePasses world.context.config.maxPasses rows >>= fun waiting => withDefaults (settle waiting))
    world.context _ = (.ok value, after) ∧ _
  rw [Run.bind_run run]
  exact settled

end Passes

section Remarks

variable {notes : List Annotation} {merged : BlankNode → Prop} {session : Session} (laid : world.LaidOut layout)
include laid

/-- The triples of a node are unused until its annotations are merged. -/
theorem unused_remark {done : Triple → Prop} (progress : world.Progress layout (Opening layout) notes done merged session)
    {remark : Remark} (listed : remark ∈ layout.remarks) (waiting : ¬ merged remark.node) : world.Unused session remark.block := by
  intro row member inside
  rw [Bool.eq_false_iff, ne_eq, progress.clear.used row member]
  obtain ⟨entries, others⟩ := laid.apart.remarks remark listed _ inside
  obtain ⟨base, mains⟩ := laid.apart.own _ (.remark listed) _ inside
  rintro ((opening | group) | ⟨entry, present, -, main | within⟩ | ⟨other, present, done, within⟩)
  · exact base opening
  · exact (laid.apart.group _ group).2 remark listed inside
  · exact mains entry present main
  · exact entries entry present within
  · by_cases same : other = remark
    · exact waiting (same ▸ done)
    · exact others other present same within

/-- The node still waits for its axiom. -/
theorem awaitsAxiom_laidOut {done : Triple → Prop} (progress : world.Progress layout (Opening layout) notes done merged session)
    {remark : Remark} (listed : remark ∈ layout.remarks) (waiting : ¬ merged remark.node) : session.awaitsAxiom remark.node = true := by
  have holds := progress.clear.holds
  rw [Session.awaitsAxiom, Bool.and_eq_true]
  constructor
  · obtain ⟨row, member, same⟩ := List.mem_map.mp ((laid.marks.nodes remark.node).mpr ⟨remark, listed, rfl⟩)
    refine List.any_eq_true.mpr ⟨row, ?_, by rw [same]; rfl⟩
    have free := unused_remark laid progress listed waiting row member (same ▸ laid.marks.typed remark listed)
    rw [holds.matching]
    simp [Session.unused, member, same, free]
  · rw [Bool.not_eq_true', Bool.eq_false_iff, ne_eq, List.any_eq_true]
    rintro ⟨node, source, stands⟩
    obtain ⟨object, pointed, same⟩ := List.mem_filterMap.mp source
    obtain rfl := laid.marks.source remark listed object (holds.mem_objects.mp pointed)
    obtain rfl := Option.some.inj same
    have bare := laid.marks.bare remark listed
    rw [Session.standsForTriple, Bool.or_eq_true, holds.hasType, holds.hasType] at stands
    exact stands.elim (bare Owl.Annotation (by simp [Role.pointerTypes])) (bare Owl.Axiom (by simp [Role.pointerTypes]))

variable {remark : Remark}

/-- The nodes whose annotations are merged when those of one more are. -/
def Joined (merged : BlankNode → Prop) (remark : Remark) (node : BlankNode) : Prop := merged node ∨ node = remark.node

theorem joined_iff (listed : remark ∈ layout.remarks) {other : Remark} (also : other ∈ layout.remarks) :
    Joined merged remark other.node ↔ merged other.node ∨ other = remark :=
  or_congr_right ⟨laid.marks.single other also remark listed, congrArg Remark.node⟩

theorem read_joined (listed : remark ∈ layout.remarks) {triple : Triple} :
    Read layout (Joined merged remark) triple ↔ Read layout merged triple ∨ triple = remark.entry.main := by
  constructor
  · rintro (soon | ⟨other, also, done, rfl⟩)
    · exact .inl (.inl soon)
    · rcases (joined_iff laid listed also).mp done with before | rfl
      · exact .inl (.inr ⟨other, also, before, rfl⟩)
      · exact .inr rfl
  · rintro ((soon | ⟨other, also, done, rfl⟩) | rfl)
    · exact .inl soon
    · exact .inr ⟨other, also, .inl done, rfl⟩
    · exact .inr ⟨remark, listed, .inr rfl, rfl⟩

/-- An axiom without annotations is replaced by the one with those of the node. -/
theorem tells_joined (listed : remark ∈ layout.remarks) (fact : AnnotatedAxiom) :
    layout.Tells (Read layout (Joined merged remark)) (Joined merged remark) fact ↔
      fact = remark.fact ∨ fact ≠ remark.entry.fact ∧ layout.Tells (Read layout merged) merged fact := by
  have soon (merged : BlankNode → Prop) {entry : Entry} (listed : entry ∈ layout.entries) (soon : entry.stage ≠ .late) :
      Read layout merged entry.main := .inl ⟨entry, listed, soon, rfl⟩
  constructor
  · rintro (⟨entry, inside, -, stage, rfl, others⟩ | ⟨other, also, done, rfl⟩)
    · refine .inr ⟨(others remark listed (.inr rfl)).symm, .inl ⟨entry, inside, soon _ inside stage, stage, rfl, ?_⟩⟩
      exact fun other also before => others other also (.inl before)
    · rcases (joined_iff laid listed also).mp done with before | rfl
      · refine .inr ⟨fun same => ?_, .inr ⟨other, also, before, rfl⟩⟩
        exact (laid.marks.annotated other also).2 (same ▸ (laid.marks.annotated remark listed).1)
      · exact .inl rfl
  · rintro (rfl | ⟨other, ⟨entry, inside, -, stage, rfl, others⟩ | ⟨one, also, done, rfl⟩⟩)
    · exact .inr ⟨remark, listed, .inr rfl, rfl⟩
    · refine .inl ⟨entry, inside, soon _ inside stage, stage, rfl, fun one also done => ?_⟩
      rcases (joined_iff laid listed also).mp done with before | rfl
      · exact others one also before
      · exact other.symm
    · exact .inr ⟨one, also, .inl done, rfl⟩

/-- The triples of an axiom are used when a node is merged into it. -/
theorem used_joined (listed : remark ∈ layout.remarks) (triple : Triple) :
    (layout.Used (Opening layout) (Read layout merged) merged triple ∨ triple ∈ remark.block) ∨
        (∃ entry ∈ layout.entries, entry.main = remark.entry.main ∧ (triple = entry.main ∨ triple ∈ entry.block)) ↔
      layout.Used (Opening layout) (Read layout (Joined merged remark)) (Joined merged remark) triple := by
  constructor
  · rintro (((opening | ⟨entry, inside, done, uses⟩ | ⟨other, also, done, within⟩) | within) | ⟨entry, inside, same, uses⟩)
    · exact .inl opening
    · exact .inr (.inl ⟨entry, inside, (read_joined laid listed).mpr (.inl done), uses⟩)
    · exact .inr (.inr ⟨other, also, .inl done, within⟩)
    · exact .inr (.inr ⟨remark, listed, .inr rfl, within⟩)
    · exact .inr (.inl ⟨entry, inside, (read_joined laid listed).mpr (.inr same), uses⟩)
  · rintro (opening | ⟨entry, inside, done, uses⟩ | ⟨other, also, done, within⟩)
    · exact .inl (.inl (.inl opening))
    · rcases (read_joined laid listed).mp done with before | same
      · exact .inl (.inl (.inr (.inl ⟨entry, inside, before, uses⟩)))
      · exact .inr ⟨entry, inside, same, uses⟩
    · rcases (joined_iff laid listed also).mp done with before | rfl
      · exact .inl (.inl (.inr (.inr ⟨other, also, before, within⟩)))
      · exact .inl (.inr within)

omit laid in
/-- The axiom that a node annotates is on record, and its triples and those of the annotations are used. -/
structure OnRecord (world : World) (layout : Layout) (merged : BlankNode → Prop) (remark : Remark) (session after : Session) : Prop where
  clear : world.Clear (some layout.header) (layout.Used (Opening layout) (Read layout (Joined merged remark)) (Joined merged remark))
    (layout.Tells (Read layout merged) merged) after
  produced : ∀ row ∈ world.rows, ∀ fact, after.produced[row.id]? = some fact ↔ Read layout (Joined merged remark) row.triple ∧
    ∃ entry ∈ layout.entries, entry.main = row.triple ∧ fact = entry.fact
  ontology : after.ontology = session.ontology

section Annotated

variable {middle : Session} {row : Row} (progress : world.Progress layout (Opening layout) notes (Read layout merged) merged session)
  (listed : remark ∈ layout.remarks) (step : world.Step session middle remark.block) (member : row ∈ world.rows)
  (main : row.triple = remark.entry.main)
include laid progress listed step member main

omit laid progress listed in
private theorem find_main : middle.store.find? remark.entry.main = some row.id := by
  refine step.holds.indexed.find?_eq_some.mpr ?_
  rw [step.holds.rows, ← main]
  exact member

/-- An axiom that was read before is found. -/
theorem annotatedFact_known (before : Read layout merged remark.entry.main) :
    Translation.annotatedFact remark.node remark.entry.main { world.context with forced := true } middle = (.ok remark.entry.fact, middle) ∧
      OnRecord world layout merged remark session middle := by
  have produced : middle.produced = session.produced := by rw [step.same]
  have known : middle.produced[row.id]? = some remark.entry.fact := by
    rw [produced, progress.produced row member]
    exact ⟨main ▸ before, remark.entry, laid.marks.listed remark listed, main.symm, rfl⟩
  refine ⟨?_, (progress.clear.step step).congr (fun triple _ => ?_) fun _ => Iff.rfl, fun other present fact => ?_, ?_⟩
  · rw [Translation.annotatedFact, Run.get_bind, find_main step member main]
    dsimp only
    rw [known]
    rfl
  · rw [← used_joined laid listed triple]
    refine (or_iff_left_of_imp ?_).symm
    rintro ⟨entry, listed, same, uses⟩
    exact .inl (.inr (.inl ⟨entry, listed, same ▸ before, uses⟩))
  · rw [produced, progress.produced other present, read_joined laid listed, or_iff_left_of_imp fun same => same ▸ before]
  · rw [step.same]

omit step member main in
/-- An axiom that was not read before is read last, as are those that its triple states too. -/
theorem late_of_unread (before : ¬ Read layout merged remark.entry.main) {other : Entry} (also : other ∈ layout.entries)
    (same : other.main = remark.entry.main) : remark.entry.stage = .late ∧ other.stage = .late ∧ world.Unused middle other.notes := by
  have inside := laid.marks.listed remark listed
  have late : remark.entry.stage = .late := by
    by_contra soon
    exact before (.inl ⟨remark.entry, inside, soon, rfl⟩)
  have soon := stage_of_main laid inside (by simp [late]) also same
  have stage : other.stage = .late := by
    obtain ⟨candidate, unchosen, -⟩ := laid.states.candidates session progress.clear.holds progress.clear.headed
    cases stage : other.stage with
    | early => exact absurd stage soon
    | candidate =>
      have chosen := candidate other also stage
      rw [same, unchosen remark.entry inside late] at chosen
      cases chosen
    | late => rfl
  refine ⟨late, stage, fun row _ within => ?_⟩
  rw [(laid.states.late other also stage).1] at within
  cases within

/-- An axiom that was not read before is read now. -/
theorem annotatedFact_unknown (before : ¬ Read layout merged remark.entry.main) : ∃ after,
    Translation.annotatedFact remark.node remark.entry.main { world.context with forced := true } middle = (.ok remark.entry.fact, after) ∧
      OnRecord world layout merged remark session after := by
  have inside := laid.marks.listed remark listed
  have produced : middle.produced = session.produced := by rw [step.same]
  have idle : middle.visiting = [] := step.visiting.trans progress.clear.idle
  have others (other : Entry) (also : other ∈ layout.entries) (same : other.main = remark.entry.main) :
      other.stage ≠ .early ∧ world.Unused middle other.notes := by
    obtain ⟨-, late, unused⟩ := late_of_unread laid progress listed before also same
    exact ⟨by simp [late], unused⟩
  obtain ⟨after, run, read⟩ := laid.states.reads remark.entry inside (others _ inside rfl).1 true middle step.holds idle (others _ inside rfl).2
  have free : middle.store.isConsumed row.id = false := by
    rw [Bool.eq_false_iff, ne_eq, step.used row member, not_or]
    refine ⟨fun consumed => before ?_, fun within => (laid.apart.own _ (.remark listed) _ within).2 _ inside main⟩
    exact main ▸ done_of_used laid progress member inside main consumed
  have unknown : middle.produced[row.id]? = none := by
    rw [produced, Option.eq_none_iff_forall_ne_some]
    exact fun fact known => before (main ▸ ((progress.produced row member fact).mp known).1)
  have kept : after.produced = session.produced := by rw [read.same, produced]
  have clear := ((progress.clear.step step).step read).consume member
  have last : world.Clear (some layout.header) _ _
      { after.consume row.id with produced := after.produced.insert row.id remark.entry.fact } := clear.of_same rfl rfl clear.headed
  refine ⟨_, ?_, last.congr (fun triple known => ?_) fun _ => Iff.rfl, fun other present fact => ?_, ?_⟩
  · rw [Translation.annotatedFact, Run.get_bind, find_main step member main]
    dsimp only
    rw [unknown]
    dsimp only
    rw [free, if_neg Bool.false_ne_true]
    exact Run.bind_run run _
  · rw [← used_joined laid listed triple]
    constructor
    · rintro ((known | within) | rfl)
      · exact .inl known
      · exact .inr ⟨remark.entry, inside, rfl, .inr within⟩
      · exact .inr ⟨remark.entry, inside, rfl, .inl main⟩
    · rintro (known | ⟨other, also, same, rfl | within⟩)
      · exact .inl (.inl known)
      · exact .inr (same.trans main.symm)
      · obtain ⟨soon, unused⟩ := others other also same
        obtain ⟨row, member, rfl⟩ := List.mem_map.mp known
        have used := (alike_of_read laid true step.holds idle also soon same unused run read).2 row member within
        exact .inl (used.imp_left ((progress.clear.step step).used row member).mp)
  · change (after.produced.insert row.id remark.entry.fact)[other.id]? = some fact ↔ _
    rw [read.holds.produced_insert member present, kept, read_joined laid listed, ← main]
    split
    · next same =>
      constructor
      · intro one
        exact ⟨.inr same, remark.entry, inside, main.symm.trans same.symm, (Option.some.inj one).symm⟩
      · rintro ⟨-, entry, also, of, rfl⟩
        obtain ⟨soon, unused⟩ := others entry also (of.trans (same.trans main))
        rw [(alike_of_read laid true step.holds idle also soon (of.trans (same.trans main)) unused run read).1]
    · next apart => rw [progress.produced other present fact, or_iff_left apart]
  · change after.ontology = _
    rw [read.same, step.same]

end Annotated

/-- The axiom that a node annotates is found, or it is read now. -/
theorem annotatedFact_laidOut (progress : world.Progress layout (Opening layout) notes (Read layout merged) merged session)
    (listed : remark ∈ layout.remarks) {middle : Session} (step : world.Step session middle remark.block) :
    ∃ after, Translation.annotatedFact remark.node remark.entry.main { world.context with forced := true } middle =
        (.ok remark.entry.fact, after) ∧ OnRecord world layout merged remark session after := by
  obtain ⟨row, member, main⟩ := List.mem_map.mp (laid.states.mains remark.entry (laid.marks.listed remark listed)).1
  by_cases before : Read layout merged remark.entry.main
  · exact ⟨middle, annotatedFact_known laid progress listed step member main before⟩
  · exact annotatedFact_unknown laid progress listed step member main before

/-- The annotations of one node are merged. -/
theorem reaches_readAxiomNode_laidOut (listed : remark ∈ layout.remarks) (waiting : ¬ merged remark.node) :
    Reaches { world.context with forced := true } (world.Progress layout (Opening layout) notes (Read layout merged) merged)
      (readAxiomNode remark.node) fun _ => world.Progress layout (Opening layout) notes (Read layout (Joined merged remark)) (Joined merged remark) := by
  intro session progress
  have unused := unused_remark laid progress listed waiting
  obtain ⟨found, middle, run, step, fact⟩ := laid.marks.reads remark listed session progress.clear.holds progress.clear.idle unused
  obtain ⟨after, annotated, clear, produced, ontology⟩ := annotatedFact_laidOut laid progress listed step
  have merge : Translation.readMerge remark.node { world.context with forced := true } session =
      (.ok ⟨remark.node, remark.entry.main, remark.entry.fact, found⟩, after) := by
    rw [Translation.readMerge, Run.bind_run run]
    exact Run.bind_run annotated _
  have attempted := attempt_clean (Translation.mergeAnnotations_ok merge) clear.settled
  refine ⟨(), after.addAnnotations remark.entry.fact found, ?_, ?_⟩
  · rw [readAxiomNode_awaiting (awaitsAxiom_laidOut laid progress listed waiting), Run.bind_run attempted]
    rfl
  · refine ⟨(clear.addAnnotations remark.entry.fact found).congr (fun _ _ => Iff.rfl) fun other => ?_, produced, ?_, ?_, ?_⟩
    · rw [fact, tells_joined laid listed]
    · exact (congrArg Ontology.id ontology).trans progress.id
    · exact fun iri => (congrArg (iri ∈ Ontology.imports ·) ontology).to_iff.trans (progress.imports iri)
    · exact (congrArg Ontology.annotations ontology).trans progress.annotations

/-- The annotations of the nodes are merged one after the other. -/
theorem reaches_forM_readAxiomNode_laidOut (nodes : List Node) : ∀ merged : BlankNode → Prop, nodes.Nodup →
    (∀ node ∈ nodes, ∃ remark ∈ layout.remarks, node = remark.node ∧ ¬ merged remark.node) →
    Reaches { world.context with forced := true } (world.Progress layout (Opening layout) notes (Read layout merged) merged)
      (nodes.forM readAxiomNode) fun _ =>
        let merged := fun node => merged node ∨ Node.blank node ∈ nodes
        world.Progress layout (Opening layout) notes (Read layout merged) merged := by
  induction nodes with
  | nil => exact fun merged _ _ => .pure fun session progress => by simpa using progress
  | cons node nodes ih =>
    intro merged nodup present
    obtain ⟨fresh, distinct⟩ := List.nodup_cons.mp nodup
    obtain ⟨⟨remark, listed, rfl, waiting⟩, others⟩ := List.forall_mem_cons.mp present
    have rest := ih (Joined merged remark) distinct fun other inside => by
      obtain ⟨remark', also, rfl, free⟩ := others other inside
      refine ⟨remark', also, rfl, ?_⟩
      rintro (before | same)
      · exact free before
      · exact fresh (same ▸ inside)
    have same : (fun other => Joined merged remark other ∨ Node.blank other ∈ nodes) =
        fun other => merged other ∨ Node.blank other ∈ Node.blank remark.node :: nodes := by
      funext other
      simp only [Joined, List.mem_cons, Node.blank.injEq, or_assoc]
    rw [same] at rest
    exact (reaches_readAxiomNode_laidOut laid listed waiting).bind fun _ => rest

/-- The nodes that point at axioms. -/
theorem mem_axiomNodes_laidOut {done : Triple → Prop} (progress : world.Progress layout (Opening layout) notes done (fun _ => False) session) (node : Node) :
    node ∈ session.axiomNodes ↔ ∃ remark ∈ layout.remarks, node = remark.node := by
  have typed : node ∈ session.axiomNodes ↔ ∃ row ∈ world.rows, row.triple = ⟨node, Rdf.type, Owl.Axiom⟩ ∧ session.store.isConsumed row.id = false := by
    rw [Session.axiomNodes, List.mem_eraseDups, Session.unused, progress.clear.holds.withObject, List.mem_filterMap]
    constructor
    · rintro ⟨⟨number, ⟨subject, predicate, object⟩⟩, member, chosen⟩
      obtain ⟨present, free, rfl⟩ : _ ∧ session.store.isConsumed number = false ∧ object = Owl.Axiom := by simpa using member
      obtain ⟨rfl, rfl⟩ : predicate = Rdf.type ∧ subject = node := by simpa using chosen
      exact ⟨_, present, rfl, free⟩
    · rintro ⟨row, present, same, free⟩
      exact ⟨row, by simp [present, free, same], by simp [same]⟩
  rw [typed, ← laid.marks.nodes node]
  constructor
  · rintro ⟨row, member, same, -⟩
    exact same ▸ List.mem_map_of_mem member
  · intro said
    obtain ⟨row, member, same⟩ := List.mem_map.mp said
    obtain ⟨remark, listed, rfl⟩ := (laid.marks.nodes node).mp said
    refine ⟨row, member, same, unused_remark laid progress listed id row member (same ▸ laid.marks.typed remark listed)⟩

/-- When the annotations of all nodes are merged, everything is used. -/
theorem reaches_finish_laidOut : Reaches world.context (world.Progress layout (Opening layout) notes (Read layout fun _ => False) fun _ => False)
    finish fun _ => world.Progress layout (Opening layout) notes (fun _ => True) fun _ => True := by
  intro session progress
  have nodes := mem_axiomNodes_laidOut laid progress
  obtain ⟨_, after, run, reached⟩ := reaches_forM_readAxiomNode_laidOut laid session.axiomNodes (fun _ => False) (Canonical.nodup_eraseDups _)
    (fun node member => by simpa using (nodes node).mp member) session progress
  have merged (remark : Remark) (listed : remark ∈ layout.remarks) : (False ∨ Node.blank remark.node ∈ session.axiomNodes) ↔ True :=
    iff_true_intro (.inr ((nodes _).mpr ⟨remark, listed, rfl⟩))
  have last : world.Progress layout (Opening layout) notes (fun _ => True) (fun _ => True) after := by
    refine reached.congr (fun _ _ => Iff.rfl) (fun entry listed => iff_true_intro ?_) merged
    by_cases late : entry.stage = .late
    · obtain ⟨-, remark, inside, rfl⟩ := laid.states.late entry listed late
      exact .inr ⟨remark, inside, (merged remark inside).mpr trivial, rfl⟩
    · exact .inl ⟨entry, listed, late, rfl⟩
  have all : ∀ triple ∈ world.graph, layout.Used (Opening layout) (fun _ => True) (fun _ => True) triple := laid.cover
  have read : withDefaults readAxiomAnnotations world.context session = (.ok (), after) := run
  refine ⟨(), after, ?_, last⟩
  rw [finish, Run.bind_run read, Run.get_bind, unconsumed_of_used last.clear all]
  rfl

end Remarks

theorem reaches_translate_laidOut (settled : world.Settled) (laid : world.LaidOut layout) (uncancelled : world.context.config.cancelled = false)
    (plain : world.context.forced = false) : Reaches world.context (Collects world layout [] (.of layout.header.iri? none, false)) translate
      fun _ session => ∃ notes, world.SameNotes layout.heading.annotations notes ∧
        world.Progress layout (Opening layout) notes (fun _ => True) (fun _ => True) session := by
  rw [translate_phases]
  refine (reaches_prepare_laidOut settled laid.heads laid.declares laid.states laid.apart).bind fun _ session => ?_
  rintro ⟨notes, same, progress⟩
  obtain ⟨value, last, run, reached⟩ := (reaches_translateAxioms_laidOut laid uncancelled plain).bind (fun _ => reaches_finish_laidOut laid)
    session progress
  exact ⟨value, last, run, notes, same, reached⟩

end Load

/-- The load gave what the layout of the graph tells, and met no problem. -/
structure Layout.Gives (layout : Layout) (world : World) (loaded : Loaded) : Prop where
  reports : loaded.reports = []
  id : loaded.ontology.id = layout.heading.id
  imports : ∀ iri, iri ∈ loaded.ontology.imports ↔ iri ∈ layout.heading.imports
  annotations : world.SameNotes layout.heading.annotations loaded.ontology.annotations
  facts : ∀ fact, fact ∈ loaded.ontology.axioms ↔ layout.Tells (fun _ => True) (fun _ => True) fact

/-- A graph that is laid out is loaded without a problem, in either mode, and gives what it tells. -/
theorem loadTriples_of_laidOut {config : Config} {number : Nat} {triples : List Triple} {known told : Entity → Prop} {isVariable : Iri → Prop}
    {layout : Layout} (settled : { World.ofTriples config number triples known with isVariable, told }.Settled)
    (laid : { World.ofTriples config number triples known with isVariable, told }.LaidOut layout) (uncancelled : config.cancelled = false)
    (document : Option Iri) : ∃ loaded, loadTriples config number document triples = .ok loaded ∧
      layout.Gives { World.ofTriples config number triples known with isVariable, told } loaded := by
  let world : World := { World.ofTriples config number triples known with isVariable, told }
  have begins : Load.Collects world layout [] (.of layout.header.iri? none, false) (Load.start document triples) := by
    refine ⟨?_, rfl, by simp, by simp [Load.start], rfl, rfl⟩
    have clear : (World.ofTriples config number triples known).Clear none _ _ _ := World.clear_start document
    have retold : (world.sofar fun _ => False).Clear none _ _ (Load.start document triples) :=
      clear.retold (Load.start document triples).ruleVariables (by simp [Load.start]) fun entity tells => ?_
    · exact retold.congr (by simp) fun _ => Iff.rfl
    · rw [Session.hasKind, tells.resolve_right id, Bool.true_or]
  obtain ⟨_, last, run, notes, same, progress⟩ := Load.reaches_translate_laidOut settled laid uncancelled rfl _ begins
  refine ⟨_, loadTriples_of_run run, ?_, progress.id, progress.imports, progress.annotations ▸ same, progress.clear.facts⟩
  rw [Loaded.of, progress.clear.silent]

end OwlGraph
