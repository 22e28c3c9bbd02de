import OwlGraph.Proofs.LaxLoad

/-! Isolation of failures. In a lax load that is not cancelled, a triple that stands for an axiom
of its own ends with an axiom recorded for it or with a report that names it, whatever happens to
other axioms. Triples of the inside of a construct are not covered: a failed axiom takes the
constructs that hang from it along. -/

namespace OwlGraph

namespace Session

/-- An axiom is recorded for the triple, or a report names it. -/
def Accounts (session : Session) (row : Row) : Prop :=
  session.produced.contains row.id = true ∨ ∃ report ∈ session.reports, row.triple ∈ report.triples

theorem Accounts.mono {session after : Session} {row : Row} (accounts : session.Accounts row)
    (produced : ∀ id, session.produced.contains id = true → after.produced.contains id = true)
    (reports : ∀ report ∈ session.reports, report ∈ after.reports) : after.Accounts row := by
  refine accounts.imp (produced row.id) ?_
  rintro ⟨report, member, names⟩
  exact ⟨report, reports report member, names⟩

/-- What hangs from a failed axiom are constructs. -/
theorem constructNodes_structural (session : Session) (steps : Nat) : ∀ waiting seen : List Node,
    (∀ node ∈ waiting, session.isStructural node = true) → (∀ node ∈ seen, session.isStructural node = true) →
      ∀ node ∈ session.constructNodes steps waiting seen, session.isStructural node = true := by
  induction steps with
  | zero =>
    intro waiting seen _ behind
    cases waiting <;> exact behind
  | succ steps ih =>
    intro waiting seen ahead behind
    cases waiting with
    | nil => exact behind
    | cons node waiting =>
      obtain ⟨first, rest⟩ := List.forall_mem_cons.mp ahead
      rw [constructNodes]
      split
      · exact ih waiting seen rest behind
      · refine ih _ _ (fun other member => ?_) (List.forall_mem_cons.mpr ⟨first, behind⟩)
        rcases List.mem_append.mp member with next | later
        · obtain ⟨row, -, found⟩ := List.mem_filterMap.mp (List.mem_reverse.mp next)
          exact (Option.filter_eq_some_iff.mp found).2
        · exact rest other later

end Session

namespace Setting

variable {setting : Setting} {session : Session} {row other : Row}

theorem Holds.consume (holds : setting.Holds session) (id : TripleId) : setting.Holds (session.consume id) :=
  ⟨TripleStore.indexed_consume _ id holds.indexed, (TripleStore.liveRows_consume _ id).trans holds.rows, holds.header⟩

theorem Holds.discard (holds : setting.Holds session) (row : Row) : setting.Holds (session.discard row) :=
  ⟨TripleStore.indexed_consumeAll (holds.consume row.id).indexed _,
    (TripleStore.liveRows_consumeAll _ _).trans (holds.consume row.id).rows, holds.header⟩

/-- Giving an axiom up uses its triple and the insides of constructs. -/
theorem Holds.isConsumed_discard (holds : setting.Holds session) (member : other ∈ setting.rows)
    (used : (session.discard row).store.isConsumed other.id = true) :
    session.store.isConsumed other.id = true ∨ other.id = row.id ∨ setting.Dependent other.triple := by
  let ends := (session.structuralObject? row.triple).toList ++
    if session.isStructural row.triple.subject then [row.triple.subject] else []
  let nodes := session.constructNodes (session.store.entries.size + 2) ends []
  have structural : ∀ node ∈ nodes, session.isStructural node = true := by
    refine session.constructNodes_structural _ ends [] (fun node listed => ?_) (List.forall_mem_nil _)
    rcases List.mem_append.mp listed with object | subject
    · exact (Option.filter_eq_some_iff.mp (Option.mem_toList.mp object)).2
    · split at subject
      · rename_i structural
        exact List.mem_singleton.mp subject ▸ structural
      · cases subject
  have live : other ∈ session.store.liveRows := holds.rows ▸ member
  have kept : other ∈ (session.store.consume row.id).liveRows := by rwa [TripleStore.liveRows_consume]
  replace used : ((session.store.consume row.id).consumeAll (nodes.flatMap session.constructRows)).isConsumed other.id =
    true := used
  rw [TripleStore.isConsumed_consumeAll kept, TripleStore.isConsumed_consume _ live, Bool.or_eq_true, Bool.or_eq_true,
    beq_iff_eq, or_assoc] at used
  refine used.imp id (.imp id fun listed => ?_)
  obtain ⟨part, inside, same⟩ := List.any_eq_true.mp listed
  obtain ⟨node, known, inside⟩ := List.mem_flatMap.mp inside
  rw [Session.constructRows, List.mem_filter, holds.mem_withSubject, Bool.not_eq_true'] at inside
  obtain ⟨⟨present, subject⟩, inner⟩ := inside
  obtain rfl : other = part := TripleStore.eq_of_id live (holds.rows ▸ present) (beq_iff_eq.mp same)
  exact holds.dependent_of_structural (subject ▸ structural node known) inner

end Setting

namespace Load

variable {α : Type} {context : Context}

/-- Between two candidates: the graph is as it was, no repair is pending, and every row to keep
account of is accounted for if it is used or due. -/
structure Kept (setting : Setting) (own due : Row → Prop) (session : Session) : Prop where
  holds : setting.Holds session
  settled : session.pending = #[]
  account : ∀ row, own row → due row ∨ session.store.isConsumed row.id = true → session.Accounts row

theorem Kept.weaken {setting : Setting} {own due other : Row → Prop} {session : Session}
    (kept : Kept setting own due session) (fewer : ∀ row, other row → due row) : Kept setting own other session :=
  ⟨kept.holds, kept.settled, fun row member reason => kept.account row member (reason.imp (fewer row) id)⟩

/-- The rows of the graph that stand for axioms of their own. -/
def Independent (setting : Setting) (row : Row) : Prop := row ∈ setting.rows ∧ ¬ setting.Dependent row.triple

section Candidates

variable {setting : Setting} {other : Row} {own due : Row → Prop} {session : Session} (mode : context.config.strict = false)
  (covers : ∀ row, own row → Independent setting row)
include mode covers

/-- An axiom that was read is recorded for its triple, and every other independent triple that was
used for it is named by a repair. -/
theorem kept_succeed (kept : Kept setting own due session) {used : List Row} {noted : List Problem}
    (usable : ∀ row ∈ used, setting.Usable (noted.flatMap Problem.triples) row) (kinds : Std.HashSet Entity)
    (kindsChanged : Bool) (fact : AnnotatedAxiom) :
    ∃ last, succeed (fun session => (session.consume other.id).commit other.id fact) true context
        (session.reading used noted kinds kindsChanged) = (.ok true, last) ∧
      Kept setting own (fun row => due row ∨ other = row) last := by
  let read := session.reading used noted kinds kindsChanged
  let done := (read.consume other.id).commit other.id fact
  obtain ⟨reports, run, old, told⟩ := flush_lax mode done
  have recorded (number : TripleId) (known : session.produced.contains number = true ∨ number = other.id) :
      done.produced.contains number = true := by
    change (session.produced.insert other.id fact).contains number = true
    rw [Std.HashMap.contains_insert, Bool.or_eq_true, beq_iff_eq]
    exact known.symm.imp Eq.symm id
  have grown {row : Row} (accounts : session.Accounts row) : Session.Accounts { done with pending := #[], reports } row :=
    accounts.mono (fun number known => recorded number (.inl known)) old
  have holds : setting.Holds (read.consume other.id) := (kept.holds.reading used noted kinds kindsChanged).consume other.id
  refine ⟨{ done with pending := #[], reports }, ?_, ⟨holds.indexed, holds.rows, holds.header⟩, rfl,
    fun row member reason => ?_⟩
  · change (flush >>= fun _ => Pure.pure true : Load Bool) context done = _
    rw [Run.bind_run run]
    rfl
  · rcases reason with (before | same) | consumed
    · exact grown (kept.account row member (.inl before))
    · exact .inl (recorded row.id (.inr (congrArg Row.id same).symm))
    · have live : row ∈ session.store.liveRows := kept.holds.rows ▸ (covers row member).1
      have still : row ∈ (session.store.consumeAll used).liveRows := by rwa [TripleStore.liveRows_consumeAll]
      replace consumed : ((session.store.consumeAll used).consume other.id).isConsumed row.id = true := consumed
      rw [TripleStore.isConsumed_consume _ still, TripleStore.isConsumed_consumeAll live, Bool.or_eq_true, Bool.or_eq_true,
        beq_iff_eq] at consumed
      rcases consumed with (before | inside) | same
      · exact grown (kept.account row member (.inr before))
      · obtain ⟨part, inside, same⟩ := List.any_eq_true.mp inside
        obtain ⟨known, reason⟩ := usable part inside
        obtain rfl : row = part := TripleStore.eq_of_id live (kept.holds.rows ▸ known) (beq_iff_eq.mp same)
        obtain ⟨problem, repair, names⟩ := List.mem_flatMap.mp (reason.resolve_left (covers row member).2)
        have pending : problem ∈ done.pending := by
          change problem ∈ session.pending ++ noted.toArray
          rw [Array.mem_append]
          exact .inr (List.mem_toArray.mpr repair)
        obtain ⟨report, reported, same⟩ := told problem pending
        exact .inr ⟨report, reported, List.mem_append_left _ (same ▸ names)⟩
      · exact .inl (recorded row.id (.inr same))

/-- An axiom that was given up is reported with its triple, and no other independent triple goes
with it. -/
theorem reaches_giveUp (present : other ∈ setting.rows) (problem : Problem) :
    Reaches context (Kept setting own due) (giveUp (·.discard other) problem (some other.triple) true)
      fun done session => done = true ∧ Kept setting own (fun row => due row ∨ other = row) session := by
  intro session kept
  let dropped := session.discard other
  let given : Report := ⟨problem, problem.severity, some other.triple, context.config.detailed⟩
  let last := { dropped with reports := dropped.reports.push given }
  have grown {row : Row} (accounts : session.Accounts row) : last.Accounts row :=
    accounts.mono (fun _ => id) fun report member => Array.mem_push_of_mem _ member
  have own : last.Accounts other := .inr ⟨given, Array.mem_push_self, List.mem_append_right _ (List.mem_singleton_self _)⟩
  have holds : setting.Holds dropped := kept.holds.discard other
  refine ⟨true, last, ?_, rfl, ⟨holds.indexed, holds.rows, holds.header⟩, kept.settled, fun row member reason => ?_⟩
  · change (report problem (some other.triple) >>= fun _ => Pure.pure true : Load Bool) context dropped = _
    rw [Run.bind_run (report_lax mode problem (some other.triple) dropped)]
    rfl
  · rcases reason with (before | rfl) | consumed
    · exact grown (kept.account row member (.inl before))
    · exact own
    · rcases kept.holds.isConsumed_discard (covers row member).1 consumed with before | same | part
      · exact grown (kept.account row member (.inr before))
      · exact TripleStore.eq_of_id (kept.holds.rows ▸ present) (kept.holds.rows ▸ (covers row member).1) same.symm ▸ own
      · exact absurd part (covers row member).2

theorem reaches_translateCandidate (present : other ∈ setting.rows) :
    Reaches context (Kept setting own due) (translateCandidate other) fun done =>
      Kept setting own fun row => due row ∨ done = true ∧ other = row := by
  intro session kept
  have reads : setting.Reads [] (Translation.statement other.triple) :=
    Translation.reads_statement (kept.holds.open_of_enters present)
  obtain ⟨used, noted, kinds, kindsChanged, same, usable, -⟩ := reads context session kept.holds
  rw [translateCandidate_eq, conclude, same]
  cases (Translation.statement other.triple context session).1 with
  | ok fact =>
    obtain ⟨last, run, after⟩ := kept_succeed mode covers kept usable kinds kindsChanged fact
    exact ⟨true, last, run, after.weaken fun _ => .imp id And.right⟩
  | error halt =>
    cases halt with
    | deferred iri =>
      refine ⟨false, session, ?_, kept.weaken fun _ reason => reason.resolve_right (by simp)⟩
      exact congrArg (Prod.mk _) (Session.rollback_reading session used noted kinds kindsChanged)
    | failed problem =>
      dsimp only
      rw [Session.rollback_reading]
      obtain ⟨_, last, run, rfl, after⟩ := reaches_giveUp mode covers present problem session kept
      exact ⟨true, last, run, after.weaken fun _ => .imp id And.right⟩

theorem reaches_postpones (present : other ∈ setting.rows) : Reaches context (Kept setting own due) (postpones other)
    fun waits => Kept setting own fun row => due row ∨ waits = false ∧ other = row := by
  refine .look fun session kept => .ite (fun used => .pure ?_) fun _ => ?_
  · rintro _ rfl
    refine ⟨kept.holds, kept.settled, fun row member reason => kept.account row member ?_⟩
    rcases reason with (before | ⟨_, rfl⟩) | consumed
    · exact .inl before
    · exact .inr used
    · exact .inr consumed
  · have translated : Reaches context (· = session) (translateCandidate other) fun done =>
        Kept setting own fun row => due row ∨ done = true ∧ other = row :=
      (reaches_translateCandidate mode covers present).weaken (fun _ same => same ▸ kept) fun _ _ => id
    refine translated.bind fun done => .pure fun session kept => kept.weaken fun row => ?_
    cases done <;> simp

/-- A pass settles every row that it does not give back. -/
theorem reaches_runPass (work : List Row) (present : ∀ other ∈ work, other ∈ setting.rows) : ∀ due : Row → Prop,
    Reaches context (Kept setting own due) (runPass work) fun waiting session =>
      (∀ other ∈ waiting, other ∈ work) ∧ Kept setting own (fun row => due row ∨ row ∈ work ∧ row ∉ waiting) session := by
  induction work with
  | nil => exact fun due session kept => ⟨[], session, rfl, And.intro (List.forall_mem_nil _) (kept.weaken (by simp))⟩
  | cons first work ih =>
    intro due
    obtain ⟨head, tail⟩ := List.forall_mem_cons.mp present
    rw [runPass_cons]
    refine (reaches_postpones mode covers head).bind fun waits => (ih tail _).bind fun others =>
      .pure fun session reached => ⟨fun other member => ?_, reached.2.weaken fun row => ?_⟩
    · cases waits with
      | false => exact List.mem_cons_of_mem _ (reached.1 other member)
      | true =>
        rcases List.mem_cons.mp member with rfl | member
        · exact List.mem_cons_self
        · exact List.mem_cons_of_mem _ (reached.1 other member)
    · rintro (before | ⟨member, absent⟩)
      · exact .inl (.inl before)
      · cases waits with
        | false =>
          rcases List.mem_cons.mp member with rfl | member
          · exact .inl (.inr ⟨rfl, rfl⟩)
          · exact .inr ⟨member, absent⟩
        | true =>
          obtain ⟨differs, absent⟩ := not_or.mp (List.mem_cons.not.mp absent)
          exact .inr ⟨(List.mem_cons.mp member).resolve_left differs, absent⟩

omit covers in
/-- What still waits in the end is reported. -/
theorem reaches_unsettled (waiting : List Row) : ∀ due : Row → Prop, Reaches context (Kept setting own due)
    (waiting.forM fun other => report (.unsettled other.triple) none) fun _ => Kept setting own fun row => due row ∨ row ∈ waiting := by
  induction waiting with
  | nil => exact fun due => .pure fun session kept => kept.weaken (by simp)
  | cons other waiting ih =>
    intro due
    have one : Reaches context (Kept setting own due) (report (.unsettled other.triple) none)
        fun _ => Kept setting own fun row => due row ∨ row = other := by
      refine reaches_report mode _ _ fun session reports kept old told =>
        ⟨⟨kept.holds.indexed, kept.holds.rows, kept.holds.header⟩, kept.settled, fun row member reason => ?_⟩
      obtain ⟨given, reported, same, -⟩ := told
      rcases reason with (before | rfl) | consumed
      · exact (kept.account row member (.inl before)).mono (fun _ => id) old
      · exact .inr ⟨given, reported, List.mem_append_left _ (by rw [same]; exact List.mem_singleton_self _)⟩
      · exact (kept.account row member (.inr consumed)).mono (fun _ => id) old
    exact (one.bind fun _ => ih _).weaken (fun _ => id) fun _ session kept => kept.weaken (by simp [or_assoc])

end Candidates

section Passes

variable {setting : Setting} {own : Row → Prop} (mode : context.config.strict = false)
  (uncancelled : context.config.cancelled = false) (covers : ∀ row, own row → Independent setting row)
include mode uncancelled covers

omit mode covers in
theorem reaches_beginPass (due : Row → Prop) : Reaches context (Kept setting own due) beginPass fun _ => Kept setting own due := by
  intro session kept
  exact ⟨(), { session with passes := session.passes + 1 }, beginPass_ok uncancelled,
    ⟨kept.holds.indexed, kept.holds.rows, kept.holds.header⟩, kept.settled, kept.account⟩

theorem reaches_pass {work : List Row} (present : ∀ other ∈ work, other ∈ setting.rows) (due : Row → Prop) :
    Reaches context (Kept setting own due) (pass work) fun waiting session =>
      (∀ other ∈ waiting, other ∈ work) ∧ Kept setting own (fun row => due row ∨ row ∈ work ∧ row ∉ waiting) session := by
  have anew : Reaches context (Kept setting own due) (modify fun session => { session with kindsChanged := false })
      fun _ => Kept setting own due :=
    .alter fun session kept => ⟨⟨kept.holds.indexed, kept.holds.rows, kept.holds.header⟩, kept.settled, kept.account⟩
  exact (reaches_beginPass uncancelled due).bind fun _ => anew.bind fun _ => reaches_runPass mode covers work present due

theorem reaches_makePasses (remaining : Nat) : ∀ (work : List Row), (∀ other ∈ work, other ∈ setting.rows) →
    ∀ due : Row → Prop, Reaches context (Kept setting own due) (makePasses remaining work) fun waiting session =>
      (∀ other ∈ waiting, other ∈ work) ∧ Kept setting own (fun row => due row ∨ row ∈ work ∧ row ∉ waiting) session := by
  have idle (work : List Row) (due : Row → Prop) (session : Session) (kept : Kept setting own due session) :
      (∀ other ∈ work, other ∈ work) ∧ Kept setting own (fun row => due row ∨ row ∈ work ∧ row ∉ work) session :=
    ⟨fun _ => id, kept.weaken fun row reason => reason.resolve_right fun both => both.2 both.1⟩
  induction remaining with
  | zero => exact fun work _ due => .pure (idle work due)
  | succ remaining ih =>
    intro work present due
    rw [makePasses_succ]
    refine .ite (fun empty => ?_) fun _ => (reaches_pass mode uncancelled covers present due).bind fun waiting => ?_
    · rw [List.isEmpty_iff.mp empty]
      exact .pure (idle [] due)
    · rintro session ⟨inside, kept⟩
      rw [afterPass_eq]
      split
      · exact ⟨waiting, session, rfl, inside, kept⟩
      · obtain ⟨rest, last, run, fewer, kept⟩ := ih waiting (fun other member => present other (inside other member)) _ session kept
        refine ⟨rest, last, run, fun other member => inside other (fewer other member), kept.weaken fun row => ?_⟩
        rintro (before | ⟨member, absent⟩)
        · exact .inl (.inl before)
        · by_cases waits : row ∈ waiting
          · exact .inr ⟨waits, absent⟩
          · exact .inl (.inr ⟨member, waits⟩)

theorem reaches_settle {work : List Row} (present : ∀ other ∈ work, other ∈ setting.rows) (due : Row → Prop) :
    Reaches context (Kept setting own due) (settle work) fun _ => Kept setting own fun row => due row ∨ row ∈ work := by
  refine .ite (fun empty => .pure fun session kept => kept.weaken ?_) fun _ => (reaches_beginPass uncancelled due).bind fun _ =>
    (reaches_runPass mode covers work present due).bind fun waiting => ?_
  · rw [List.isEmpty_iff.mp empty]
    simp
  · refine (reaches_unsettled mode waiting _).weaken (fun _ holds => holds.2) fun _ session kept => kept.weaken fun row => ?_
    by_cases waits : row ∈ waiting <;> simp [waits]

/-- After the axioms were translated, every candidate is due. -/
theorem reaches_translateAxioms {start : Session} (kept : Kept setting own (fun _ => False) start) :
    Reaches context (· = start) translateAxioms fun _ => Kept setting own fun row =>
      row ∈ start.store.unconsumed ∧ start.isCandidate row.triple = true := by
  refine .look fun session same => ?_
  subst session
  have present : ∀ other ∈ start.store.unconsumed.filter (fun other => start.isCandidate other.triple), other ∈ setting.rows := by
    intro other member
    rw [TripleStore.unconsumed_eq, List.mem_filter, List.mem_filter, kept.holds.rows] at member
    exact member.1.1
  have passed : Reaches context (· = start) (makePasses context.config.maxPasses _) _ :=
    (reaches_makePasses mode uncancelled covers _ _ present _).weaken (fun _ same => same ▸ kept) fun _ _ => id
  refine .read (passed.bind fun waiting => .withDefaults ?_)
  rintro last ⟨inside, kept⟩
  obtain ⟨value, final, run, settled⟩ := @reaches_settle { context with forced := true } setting own mode uncancelled covers waiting
    (fun other member => present other (inside other member)) _ last kept
  refine ⟨value, final, run, settled.weaken fun row candidate => ?_⟩
  by_cases waits : row ∈ waiting
  · exact .inr waits
  · exact .inl (.inr ⟨List.mem_filter.mpr candidate, waits⟩)

end Passes

end Load

/-- The rows are accounted for in a session whose store is in order. -/
structure Session.Recorded (due : Row → Prop) (session : Session) : Prop where
  indexed : session.store.Indexed
  accounts : ∀ row, due row → session.Accounts row

/-- Nothing that is read makes an account disappear. -/
theorem Session.stable_recorded {due : Row → Prop} : Session.Stable (Session.Recorded due) where
  indexed recorded := recorded.indexed
  reading recorded _ := ⟨TripleStore.indexed_consumeAll recorded.indexed _, recorded.accounts⟩
  stored recorded indexed := ⟨indexed, recorded.accounts⟩
  recorded {session id fact} recorded := by
    refine ⟨recorded.indexed, fun row known => (recorded.accounts row known).imp (fun present => ?_) fun named => named⟩
    change (session.produced.insert id fact).contains row.id = true
    rw [Std.HashMap.contains_insert, present, Bool.or_true]
  revised recorded := ⟨recorded.indexed, recorded.accounts⟩

namespace Load

variable {context : Context} {due : Row → Prop}

section Merging

variable (mode : context.config.strict = false)
include mode

theorem recorded_readAxiomNode (node : Node) :
    Reaches context (Session.Recorded due) (readAxiomNode node) fun _ => Session.Recorded due := by
  have kept : Translation.Ends context (Session.Recorded due) (Translation.mergeAnnotations node) :=
    Translation.ends_mergeAnnotations Session.stable_recorded node
  have merge : Reaches context (Session.Recorded due) (attempt (Translation.mergeAnnotations node)) fun _ => Session.Recorded due := by
    refine reaches_attempt mode (fun session reports recorded old => ?_) (fun session recorded => ?_)
      fun session reports recorded old => ⟨recorded.indexed, fun row known => (recorded.accounts row known).mono (fun _ => id) old⟩
    · obtain ⟨after, -⟩ := kept session recorded
      exact ⟨after.indexed, fun row known => (after.accounts row known).mono (fun _ => id) old⟩
    · obtain ⟨after, -⟩ := kept session recorded
      exact ⟨TripleStore.indexed_rollback after.indexed _, after.accounts⟩
  have pass : Reaches context (Session.Recorded due) (modify fun session => session.consumeAll (session.store.withSubject node))
      fun _ => Session.Recorded due :=
    .alter fun session recorded => ⟨TripleStore.indexed_consumeAll recorded.indexed _, recorded.accounts⟩
  exact .get fun session => .ite
    (fun _ => merge.bind fun merged => .ite (fun _ => pass) fun _ => .pure fun _ => id) fun _ => .pure fun _ => id

theorem recorded_reportUnparsed (row : Row) :
    Reaches context (Session.Recorded due) (reportUnparsed row) fun _ => Session.Recorded due := by
  have use : Reaches context (Session.Recorded due) (modify (·.consume row.id)) fun _ => Session.Recorded due :=
    .alter fun session recorded => ⟨TripleStore.indexed_consume _ _ recorded.indexed, recorded.accounts⟩
  refine use.bind fun _ => .get fun session => .ite (fun _ => .pure fun _ => id) fun _ => ?_
  exact reaches_report mode _ none fun _ _ recorded old _ =>
    ⟨recorded.indexed, fun row known => (recorded.accounts row known).mono (fun _ => id) old⟩

end Merging

theorem recorded_finish (mode : context.config.strict = false) :
    Reaches context (Session.Recorded due) finish fun _ => Session.Recorded due := by
  have merged : Reaches context (Session.Recorded due) (withDefaults readAxiomAnnotations) fun _ => Session.Recorded due :=
    .withDefaults (.get fun session => .forM _ fun node _ => @recorded_readAxiomNode { context with forced := true } due mode node)
  exact merged.bind fun _ => .get fun session => .forM _ fun row _ => recorded_reportUnparsed mode row

end Load

/-- A lax load that is not cancelled succeeds, and every independent candidate at the start of the
translation of axioms ends with an axiom recorded for it or among the triples of a report. -/
theorem accounts_of_independent {config : Config} (lax : config.strict = false) (uncancelled : config.cancelled = false)
    (number : Nat) (document : Option Iri) (triples : List Triple) :
    ∃ loaded, loadTriples config number document triples = .ok loaded ∧
      let context : Context := ⟨config, number, false⟩
      let before := (Load.prepare context (Load.start document triples)).2
      let after := (Load.translate context (Load.start document triples)).2
      ∀ row ∈ before.store.unconsumed, before.isIndependent row.triple = true →
        after.produced.contains row.id = true ∨ ∃ report ∈ loaded.reports, row.triple ∈ report.triples := by
  let context : Context := ⟨config, number, false⟩
  have mode : context.config.strict = false := lax
  obtain ⟨_, before, prepared, orderly⟩ := Load.orderly_prepare mode (Load.start document triples)
    ⟨TripleStore.indexed_ofTriples triples, rfl⟩
  let setting : Setting := ⟨before.store.liveRows, before.header⟩
  let own (row : Row) : Prop := row ∈ before.store.unconsumed ∧ before.isIndependent row.triple = true
  have holds : setting.Holds before := ⟨orderly.indexed, rfl, rfl⟩
  have unused {row : Row} (member : row ∈ before.store.unconsumed) :
      row ∈ setting.rows ∧ before.store.isConsumed row.id = false := by
    rwa [TripleStore.unconsumed_eq, List.mem_filter, Bool.not_eq_true'] at member
  have covers (row : Row) (member : own row) : Load.Independent setting row :=
    ⟨(unused member.1).1, fun dependent => Bool.false_ne_true ((dependent before holds).symm.trans member.2)⟩
  obtain ⟨_, middle, translated, kept⟩ := Load.reaches_translateAxioms mode uncancelled covers
    ⟨holds, orderly.settled, fun row member reason =>
      absurd ((unused member.1).2.symm.trans (reason.resolve_left id)) Bool.false_ne_true⟩ before rfl
  have recorded : Session.Recorded own middle := by
    refine ⟨kept.holds.indexed, fun row member => kept.account row member (.inl ⟨member.1, ?_⟩)⟩
    have independent := member.2
    rw [Session.isIndependent, Bool.and_eq_true, Bool.and_eq_true] at independent
    exact independent.1.1
  obtain ⟨_, after, finished, recorded⟩ := Load.recorded_finish mode middle recorded
  have run : Load.translate context (Load.start document triples) = (.ok (), after) := by
    rw [Load.translate_phases, Run.bind_run prepared, Run.bind_run translated]
    exact finished
  refine ⟨Loaded.of after, loadTriples_of_run run, ?_⟩
  intro context first last row member independent
  have same : first = before ∧ last = after := ⟨congrArg Prod.snd prepared, congrArg Prod.snd run⟩
  rw [same.1] at member independent
  rw [same.2]
  refine (recorded.accounts row ⟨member, independent⟩).imp id ?_
  rintro ⟨report, reported, names⟩
  exact ⟨report, Array.mem_toList_iff.mpr reported, names⟩

namespace Samples

/-- The first axiom fails, for the inverse of a property has to be named, and it takes along the
construct of the node that the third triple is about. -/
def shared : List Triple :=
  [⟨.named ⟨"http://example.com/p"⟩, Rdfs.subPropertyOf, .resource (.blank ⟨"i"⟩)⟩,
    ⟨.blank ⟨"i"⟩, Owl.inverseOf, .resource (.blank ⟨"j"⟩)⟩,
    ⟨.blank ⟨"i"⟩, Rdfs.subClassOf, .resource (.named ⟨"http://example.com/A"⟩)⟩]

def failing : Row := ⟨0, .named ⟨"http://example.com/p"⟩, Rdfs.subPropertyOf, .resource (.blank ⟨"i"⟩)⟩

def inverting : Row := ⟨1, .blank ⟨"i"⟩, Owl.inverseOf, .resource (.blank ⟨"j"⟩)⟩

def sharing : Row := ⟨2, .blank ⟨"i"⟩, Rdfs.subClassOf, .resource (.named ⟨"http://example.com/A"⟩)⟩

theorem begins_shared : (Load.start none shared).store.Lists [failing, inverting, sharing] [] :=
  TripleStore.lists_ofTriples (by decide)

theorem prepare_shared (context : Context) :
    Load.prepare context (Load.start none shared) = (.ok (), Load.start none shared) := by
  apply Load.prepare_untyped _ rfl
  rw [begins_shared.indexed.withPredicate, begins_shared.listed]
  decide

end Samples

theorem accounts_of_independent_shared : ∃ loaded, loadTriples { strict := false } 0 none Samples.shared = .ok loaded ∧
    let before := (Load.prepare ⟨{ strict := false }, 0, false⟩ (Load.start none Samples.shared)).2
    let after := (Load.translate ⟨{ strict := false }, 0, false⟩ (Load.start none Samples.shared)).2
    Samples.sharing ∈ before.store.unconsumed ∧ before.isIndependent Samples.sharing.triple = true ∧
      (after.produced.contains 2 = true ∨ ∃ report ∈ loaded.reports, Samples.sharing.triple ∈ report.triples) := by
  have member : Samples.sharing ∈ (Load.start none Samples.shared).store.unconsumed := by
    rw [Samples.begins_shared.unconsumed]
    decide
  have special : (Load.start none Samples.shared).isSpecial Samples.sharing.triple.subject = false := by
    have untyped : (Load.start none Samples.shared).store.types Samples.sharing.triple.subject = [] := by
      rw [TripleStore.types, TripleStore.objects, TripleStore.matching, Samples.begins_shared.indexed.withSubject,
        Samples.begins_shared.listed]
      decide
    rw [Session.isSpecial, untyped]
    rfl
  have independent : (Load.start none Samples.shared).isIndependent Samples.sharing.triple = true := by
    rw [Session.isIndependent, Session.isCandidate_classAxiom (by decide) special]
    rfl
  obtain ⟨loaded, run, accounts⟩ := @accounts_of_independent { strict := false } rfl rfl 0 none Samples.shared
  have prepared := congrArg Prod.snd (Samples.prepare_shared ⟨{ strict := false }, 0, false⟩)
  refine ⟨loaded, run, prepared ▸ member, prepared ▸ independent, ?_⟩
  exact accounts Samples.sharing (prepared ▸ member) (prepared ▸ independent)

end OwlGraph
