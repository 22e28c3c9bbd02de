import Std.Data.String.ToNat
import OwlGraph.Proofs.PropertyGraph

/-! How kinds spread over a graph of properties. A pass reads every triple one of whose properties is
known by then, so that after so many passes the kinds of all properties at that distance from a
declared one are known, whatever the order of the triples is. The last pass is one more than the
distance of the farthest property, unless the passes are limited to fewer. -/

namespace OwlGraph.PropertyGraph

section Passes

variable (lines : List Line) (config : Config) (number : Nat)

/-- The kinds of the properties that are so far from a declared one are known. -/
def Informed (distance : Nat) (session : Session) : Prop :=
  ∀ property, Within lines distance property → Knows session property

/-- The kind of no property of the triple is known. -/
def Unknown (session : Session) (triple : Triple) : Prop :=
  ∀ line ∈ lines, triple = line.triple → ∀ property ∈ line.properties, ¬ Knows session property

/-- What a pass over candidates leaves behind. Those that wait had no property of a known kind when it
was their turn, so they had none before. -/
structure Passed (done : Triple → Prop) (before : Session) (work waiting : List Row) (also : Triple → Prop) (after : Session) :
    Prop where
  spread : Spread lines config number also after
  passes : after.passes = before.passes
  more : ∀ property, Knows before property → Knows after property
  kept : ∀ triple, done triple → also triple
  waits : ∀ row ∈ waiting, row ∈ work ∧ Unknown lines before row.triple
  covered : ∀ row ∈ work, row ∈ waiting ∨ also row.triple
  fewer : waiting.length ≤ work.length
  idle : waiting.length = work.length → waiting = work ∧ after = before

variable {lines config number} {done : Triple → Prop} {session : Session}

theorem Unknown.earlier {before after : Session} {triple : Triple} (unknown : Unknown lines after triple)
    (more : ∀ property, Knows before property → Knows after property) : Unknown lines before triple :=
  fun line member same property mentioned knows => unknown line member same property mentioned (more property knows)

section Cons

variable {before middle after : Session} {earlier also : Triple → Prop} {row : Row} {work waiting : List Row}

/-- The first candidate is done and the others follow. -/
theorem Passed.read (passed : Passed lines config number earlier middle work waiting also after) (passes : middle.passes = before.passes)
    (more : ∀ property, Knows before property → Knows middle property) (kept : ∀ triple, done triple → earlier triple)
    (read : earlier row.triple) : Passed lines config number done before (row :: work) waiting also after where
  spread := passed.spread
  passes := passed.passes.trans passes
  more property knows := passed.more property (more property knows)
  kept triple finished := passed.kept triple (kept triple finished)
  waits other member := (passed.waits other member).imp (List.mem_cons_of_mem _) fun unknown => unknown.earlier more
  covered := List.forall_mem_cons.mpr ⟨.inr (passed.kept _ read), passed.covered⟩
  fewer := Nat.le_succ_of_le passed.fewer
  idle same := absurd (same ▸ passed.fewer) (Nat.not_succ_le_self _)

/-- The first candidate waits and the others follow. -/
theorem Passed.wait (passed : Passed lines config number done before work waiting also after)
    (unknown : Unknown lines before row.triple) : Passed lines config number done before (row :: work) (row :: waiting) also after where
  spread := passed.spread
  passes := passed.passes
  more := passed.more
  kept := passed.kept
  waits := List.forall_mem_cons.mpr ⟨⟨List.mem_cons_self, unknown⟩, fun other member =>
    (passed.waits other member).imp_left (List.mem_cons_of_mem _)⟩
  covered := List.forall_mem_cons.mpr ⟨.inl List.mem_cons_self, fun other member =>
    (passed.covered other member).imp_left (List.mem_cons_of_mem _)⟩
  fewer := Nat.succ_le_succ passed.fewer
  idle same := (passed.idle (Nat.succ.inj same)).imp_left (congrArg _)

end Cons

variable (coherent : Coherent lines)
include coherent

/-- If forced, the pass has to find a property of a known kind in every candidate. -/
theorem runPass_spread (forced : Bool) (work : List Row) : ∀ {done : Triple → Prop} {session : Session},
    (∀ row ∈ work, row ∈ (world lines config number).rows ∧ Relates lines row.triple) →
    (forced = true → ∀ row ∈ work, ¬ Unknown lines session row.triple) →
    Spread lines config number done session →
    ∃ waiting also after, Load.runPass work ⟨config, number, forced⟩ session = (.ok waiting, after) ∧
      Passed lines config number done session work waiting also after := by
  induction work with
  | nil =>
    intro done session _ _ spread
    exact ⟨[], done, session, rfl, spread, rfl, fun _ => id, fun _ => id, nofun, nofun, Nat.le_refl _, fun _ => ⟨rfl, rfl⟩⟩
  | cons row work ih =>
    intro done session each near spread
    obtain ⟨⟨listed, link, first, second, member, same⟩, others⟩ := List.forall_mem_cons.mp each
    have later : forced = true → ∀ row ∈ work, ¬ Unknown lines session row.triple := fun must =>
      (List.forall_mem_cons.mp (near must)).2
    rw [Load.runPass_cons]
    by_cases used : session.store.isConsumed row.id = true
    · have postponed : Load.postpones row ⟨config, number, forced⟩ session = (.ok false, session) := Load.postpones_used used
      obtain ⟨waiting, also, after, run, passed⟩ := ih others later spread
      exact ⟨waiting, also, after, (Run.bind_run postponed _).trans (Run.bind_run run _),
        passed.read rfl (fun _ => id) (fun _ => id) ((spread.clear.used row listed).mp used)⟩
    have unused : session.store.isConsumed row.id = false := Bool.eq_false_iff.mpr used
    by_cases knows : Knows session first ∨ Knows session second
    · obtain ⟨middle, postponed, read, passes, told⟩ :=
        postpones_known coherent spread member same listed unused knows ⟨config, number, forced⟩
      have more : ∀ property, Knows session property → Knows middle property :=
        fun property known => (told property).mpr (.inl known)
      obtain ⟨waiting, also, after, run, passed⟩ := ih others
        (fun must other inside unknown => later must other inside (unknown.earlier more)) read
      exact ⟨waiting, also, after, (Run.bind_run postponed _).trans (Run.bind_run run _),
        passed.read passes more (fun _ => .inl) (.inr rfl)⟩
    · obtain ⟨here, there⟩ := not_or.mp knows
      have unknown : Unknown lines session row.triple := by
        intro line inside own property mentioned
        obtain rfl := Line.triple_injective (own.symm.trans same)
        rcases List.mem_pair.mp mentioned with rfl | rfl
        · exact here
        · exact there
      have waits : forced = false := Bool.eq_false_iff.mpr fun must => near must row List.mem_cons_self unknown
      have postponed : Load.postpones row ⟨config, number, forced⟩ session = (.ok true, session) :=
        postpones_unknown coherent spread member same unused here there waits
      obtain ⟨waiting, also, after, run, passed⟩ := ih others later spread
      exact ⟨row :: waiting, also, after, (Run.bind_run postponed _).trans (Run.bind_run run _), passed.wait unknown⟩

end Passes

section Spreading

variable (lines : List Line) (config : Config) (number : Nat)

/-- Between two passes the kinds are known of the properties that are no farther from a declared one
than there have been passes. The candidates that wait are farther than that, but for the last pass. -/
structure Between (work : List Row) (done : Triple → Prop) (session : Session) : Prop where
  spread : Spread lines config number done session
  candidates : ∀ row ∈ work, row ∈ (world lines config number).rows ∧ Relates lines row.triple
  covered : ∀ line ∈ lines, done line.triple ∨ ∃ row ∈ work, row.triple = line.triple
  informed : Informed lines session.passes session
  late : ∀ row ∈ work, ∀ line ∈ lines, row.triple = line.triple → ∀ property ∈ line.properties,
    ∀ distance < session.passes, ¬ Within lines distance property
  bounded : ∀ distance, (∀ property, Operand lines property → Within lines distance property) → session.passes ≤ 1 + distance

variable {lines config number} {done : Triple → Prop} {session : Session} {work : List Row}

/-- If a link never has one property of a known kind and one of an unknown kind, then every property is known
that is linked to a declared one, near or far. -/
theorem informed_of_closed (told : Informed lines 0 session)
    (closed : ∀ link first second, .relation link first second ∈ lines → (Knows session first ↔ Knows session second)) :
    ∀ distance, Informed lines distance session
  | 0 => told
  | distance + 1 => by
    have near := informed_of_closed told closed distance
    rintro property (within | ⟨other, ⟨link, member | member⟩, within⟩)
    · exact near property within
    · exact (closed link property other member).mpr (near other within)
    · exact (closed link other property member).mp (near other within)

section Pass

variable (coherent : Coherent lines)
include coherent

/-- A pass reads a candidate at least. Otherwise no property of a candidate is linked to a declared one. -/
theorem Passed.reads {before after : Session} {also : Triple → Prop} {waiting : List Row}
    (passed : Passed lines config number done before work waiting also after) (some : work ≠ [])
    (candidates : ∀ row ∈ work, row ∈ (world lines config number).rows ∧ Relates lines row.triple)
    (covered : ∀ line ∈ lines, done line.triple ∨ ∃ row ∈ work, row.triple = line.triple) (told : Informed lines 0 before) :
    waiting.length ≠ work.length := by
  intro full
  obtain ⟨all, same⟩ := passed.idle full
  have unknown (row : Row) (inside : row ∈ work) : Unknown lines before row.triple := (passed.waits row (all ▸ inside)).2
  have closed : ∀ link first second, .relation link first second ∈ lines → (Knows before first ↔ Knows before second) := by
    intro link first second member
    rcases covered _ member with already | ⟨row, inside, own⟩
    · have knows := passed.spread.known _ member (passed.kept _ already)
      rw [same] at knows
      exact iff_of_true (knows first Line.first_mem) (knows second Line.second_mem)
    · have knowsNot := unknown row inside _ member own
      exact iff_of_false (knowsNot first Line.first_mem) (knowsNot second Line.second_mem)
  obtain ⟨row, inside⟩ := List.exists_mem_of_ne_nil work some
  obtain ⟨-, link, first, second, member, own⟩ := candidates row inside
  obtain ⟨kind, has, -⟩ := coherent.kind first ⟨second, linked_of_mem member⟩
  obtain ⟨distance, within⟩ := has.within
  exact unknown row inside _ member own first Line.first_mem (informed_of_closed told closed distance first within)

/-- One more pass. If it is forced, a property of every candidate has to be near enough. -/
theorem Between.pass (between : Between lines config number work done session) (forced : Bool) (some : work ≠ [])
    (near : forced = true → ∀ row ∈ work, ∃ line ∈ lines, row.triple = line.triple ∧ ∃ property ∈ line.properties,
      Within lines session.passes property) (changed : Bool) :
    ∃ waiting also after, Load.runPass work ⟨config, number, forced⟩
        { session with passes := session.passes + 1, kindsChanged := changed } = (.ok waiting, after) ∧
      Between lines config number waiting also after ∧ after.passes = session.passes + 1 ∧
      waiting.length ≠ work.length ∧ ∀ row ∈ waiting, row ∈ work := by
  let begun : Session := { session with passes := session.passes + 1, kindsChanged := changed }
  have start : Spread lines config number done begun := between.spread.of_same rfl
  have must : forced = true → ∀ row ∈ work, ¬ Unknown lines begun row.triple := by
    intro yes row inside unknown
    obtain ⟨line, member, same, property, mentioned, within⟩ := near yes row inside
    exact unknown line member same property mentioned (between.informed property within)
  obtain ⟨waiting, also, after, run, passed⟩ := runPass_spread coherent forced work between.candidates must start
  have covered : ∀ line ∈ lines, also line.triple ∨ ∃ row ∈ waiting, row.triple = line.triple := by
    intro line member
    rcases between.covered line member with already | ⟨row, inside, same⟩
    · exact .inl (passed.kept _ already)
    · exact (passed.covered row inside).symm.imp (fun read => same ▸ read) fun waits => ⟨row, waits, same⟩
  have informed : Informed lines (session.passes + 1) after := by
    rintro property (within | ⟨other, linked, within⟩)
    · exact passed.more property (between.informed property within)
    have settled : ∀ line ∈ lines, property ∈ line.properties → other ∈ line.properties → Knows after property := by
      intro line member own mentioned
      rcases covered line member with read | ⟨row, waits, same⟩
      · exact passed.spread.known line member read property own
      · exact absurd (between.informed other within) ((passed.waits row waits).2 line member same other mentioned)
    obtain ⟨link, member | member⟩ := linked
    · exact settled _ member Line.first_mem Line.second_mem
    · exact settled _ member Line.second_mem Line.first_mem
  have fewer := passed.reads coherent some between.candidates between.covered fun property within =>
    between.informed property (within.mono (Nat.zero_le _))
  refine ⟨waiting, also, after, run, ⟨passed.spread, fun row waits => between.candidates row (passed.waits row waits).1, covered,
    passed.passes ▸ informed, ?_, ?_⟩, passed.passes, fewer, fun row waits => (passed.waits row waits).1⟩
  · intro row waits line member same property mentioned distance less within
    rw [passed.passes] at less
    exact (passed.waits row waits).2 line member same property mentioned
      (between.informed property (within.mono (Nat.le_of_lt_succ less)))
  · intro distance all
    obtain ⟨row, inside⟩ := List.exists_mem_of_ne_nil work some
    obtain ⟨-, link, first, second, member, same⟩ := between.candidates row inside
    have within := all first ⟨second, linked_of_mem member⟩
    have reached : session.passes ≤ distance := Nat.not_lt.mp fun less =>
      between.late row inside _ member same first Line.first_mem distance less within
    calc
      after.passes
      _ = session.passes + 1 := passed.passes
      _ ≤ distance + 1 := Nat.succ_le_succ reached
      _ = 1 + distance := Nat.add_comm ..

end Pass

section Loads

variable (coherent : Coherent lines) (uncancelled : config.cancelled = false)
include coherent uncancelled

/-- Passes are made until no candidate waits, or as many as are allowed. -/
theorem makePasses_spread (remaining : Nat) : ∀ {work : List Row} {done : Triple → Prop} {session : Session},
    Between lines config number work done session →
    ∃ waiting also after, Load.makePasses remaining work ⟨config, number, false⟩ session = (.ok waiting, after) ∧
      Between lines config number waiting also after ∧ (waiting = [] ∨ after.passes = session.passes + remaining) := by
  induction remaining with
  | zero => exact fun {work done session} between => ⟨work, done, session, rfl, between, .inr rfl⟩
  | succ remaining ih =>
    intro work done session between
    rw [Load.makePasses_succ]
    by_cases empty : work = []
    · subst empty
      exact ⟨[], done, session, rfl, between, .inl rfl⟩
    obtain ⟨waiting, also, after, run, next, passes, fewer, -⟩ := between.pass coherent false empty nofun false
    have made : Load.pass work ⟨config, number, false⟩ session = (.ok waiting, after) := (Load.pass_eq uncancelled work).trans run
    obtain ⟨last, finished, final, rest, ended, counted⟩ := ih next
    refine ⟨last, finished, final, ?_, ended, counted.imp_right fun same => by omega⟩
    rw [if_neg (mt List.isEmpty_iff.mp empty), Run.bind_run made, Load.afterPass_eq, if_neg fun same => fewer same.1]
    exact rest

/-- The last pass reads what waits, if no triple is farther from a declared property than the passes have come. -/
theorem settle_spread (between : Between lines config number work done session)
    (near : ∀ row ∈ work, ∃ line ∈ lines, row.triple = line.triple ∧ ∃ property ∈ line.properties, Within lines session.passes property) :
    ∃ also after, Load.settle work ⟨config, number, true⟩ session = (.ok (), after) ∧
      Between lines config number [] also after := by
  by_cases empty : work = []
  · subst empty
    exact ⟨done, session, rfl, between⟩
  obtain ⟨waiting, also, after, run, last, passes, -, among⟩ := between.pass coherent true empty (fun _ => near) session.kindsChanged
  have none : waiting = [] := by
    refine List.eq_nil_iff_forall_not_mem.mpr fun row waits => ?_
    obtain ⟨line, member, same, property, mentioned, within⟩ := near row (among row waits)
    exact last.late row waits line member same property mentioned session.passes (passes ▸ Nat.lt_succ_self _) within
  subst none
  exact ⟨also, after, (Load.settle_eq uncancelled empty).trans (Run.bind_run run _), last⟩

/-- All candidates are read if no triple is farther from a declared property than there may be passes. -/
theorem translateAxioms_spread (spread : Spread lines config number (Declares lines) session) (none : session.passes = 0)
    (near : ∀ link first second, .relation link first second ∈ lines →
      Within lines config.maxPasses first ∨ Within lines config.maxPasses second) :
    ∃ also after, Load.translateAxioms ⟨config, number, false⟩ session = (.ok (), after) ∧
      Between lines config number [] also after := by
  have candidates := spread.mem_candidates
  generalize found : session.store.unconsumed.filter (fun row => session.isCandidate row.triple) = work at candidates
  have start : Between lines config number work (Declares lines) session := by
    refine ⟨spread, fun row => (candidates row).mp, fun line member => ?_, ?_, ?_, fun distance _ => ?_⟩
    · cases line with
      | declaration kind property => exact .inl ⟨kind, property, member, rfl⟩
      | relation link first second =>
        obtain ⟨row, listed, same⟩ := exists_row member
        exact .inr ⟨row, (candidates row).mpr ⟨listed, link, first, second, member, same⟩, same⟩
    · rw [none]
      rintro property ⟨kind, member⟩
      exact spread.known _ member ⟨kind, property, member, rfl⟩ property Line.declared_mem
    · exact fun _ _ _ _ _ _ _ distance less => absurd less (none ▸ Nat.not_lt_zero distance)
    · exact none ▸ Nat.zero_le _
  obtain ⟨waiting, also, middle, made, between, counted⟩ := makePasses_spread coherent uncancelled config.maxPasses start
  have enough : ∀ row ∈ waiting, ∃ line ∈ lines, row.triple = line.triple ∧ ∃ property ∈ line.properties,
      Within lines middle.passes property := by
    intro row waits
    have all : middle.passes = config.maxPasses := by
      rw [counted.resolve_left (List.ne_nil_of_mem waits), none, Nat.zero_add]
    obtain ⟨-, link, first, second, member, same⟩ := between.candidates row waits
    refine ⟨_, member, same, ?_⟩
    rw [all]
    exact (near link first second member).elim (fun within => ⟨first, Line.first_mem, within⟩)
      fun within => ⟨second, Line.second_mem, within⟩
  obtain ⟨finished, after, settled, last⟩ := settle_spread coherent uncancelled between enough
  refine ⟨finished, after, ?_, last⟩
  rw [Load.translateAxioms_eq, found, Run.bind_run made]
  exact settled

end Loads

end Spreading

/-- Before axioms are read the entities are declared, and nothing else happens. -/
theorem prepare_start {lines : List Line} (coherent : Coherent lines) (config : Config) (number : Nat) (document : Option Iri) :
    Load.prepare ⟨config, number, false⟩ (Load.start document (lines.map Line.triple)) =
      (.ok (), (Load.start document (lines.map Line.triple)).readDeclarations config.strict) := by
  have clear : (world lines config number).Clear none (fun _ => False) (fun _ => False) (Load.start document (lines.map Line.triple)) :=
    World.clear_start document
  have spread : Spread lines config number (Declares lines) _ := spread_readDeclarations coherent document config.strict
  rw [Load.prepare, Run.bind_run (Load.readHeader_absent (ontologyNodes_eq_nil clear.holds))]
  exact Load.readHeaderAnnotations_absent spread.clear.headed

/-- Kinds spread over whole components. A graph of properties is loaded without a problem, in either mode and
in whatever order its triples are: every triple gives the axiom for the kind of its component, and nothing else
gives one. There are no more passes than it takes to get from the declared properties to the farthest one, and
one. The number of passes is limited, so one property of every triple must not be farther than that. -/
theorem kinds_spread {lines : List Line} (coherent : Coherent lines) {config : Config} (uncancelled : config.cancelled = false)
    (near : ∀ link first second, .relation link first second ∈ lines →
      Within lines config.maxPasses first ∨ Within lines config.maxPasses second) (number : Nat) (document : Option Iri) :
    ∃ loaded, loadTriples config number document (lines.map Line.triple) = .ok loaded ∧ loaded.reports = [] ∧
      (∀ line ∈ lines, ∃ fact ∈ loaded.ontology.axioms, line.Means lines fact) ∧
      (∀ fact ∈ loaded.ontology.axioms, ∃ line ∈ lines, line.Means lines fact) ∧
      ∀ distance, (∀ property, Operand lines property → Within lines distance property) → loaded.passes ≤ 1 + distance := by
  let start := Load.start document (lines.map Line.triple)
  let context : Context := ⟨config, number, false⟩
  have spread : Spread lines config number (Declares lines) (start.readDeclarations config.strict) :=
    spread_readDeclarations coherent document config.strict
  have none : (start.readDeclarations config.strict).passes = 0 := (Session.records_readDeclarations config.strict start).2.2
  obtain ⟨done, after, translated, between⟩ := translateAxioms_spread coherent uncancelled spread none near
  have all : ∀ line ∈ lines, done line.triple := fun line member =>
    (between.covered line member).resolve_right fun ⟨_, waits, _⟩ => absurd waits List.not_mem_nil
  have finished : Load.finish context after = (.ok (), after) := by
    refine Load.finish_used between.spread.clear fun triple member => ?_
    obtain ⟨row, listed, rfl⟩ := List.mem_map.mp member
    obtain ⟨line, inside, same⟩ := mem_rows listed
    exact same ▸ all line inside
  have run : Load.translate context start = (.ok (), after) := by
    rw [Load.translate_phases, Run.bind_run (prepare_start coherent config number document), Run.bind_run translated]
    exact finished
  refine ⟨Loaded.of after, loadTriples_of_run run, ?_, fun line member => ?_, fun fact member => ?_, between.bounded⟩
  · rw [Loaded.of, between.spread.clear.silent]
  · have means : ∃ fact, line.Means lines fact := by
      cases line with
      | declaration => exact ⟨_, rfl⟩
      | relation link first second =>
        obtain ⟨kind, has, -⟩ := coherent.kind first ⟨second, linked_of_mem member⟩
        exact ⟨_, kind, has, rfl⟩
    obtain ⟨fact, means⟩ := means
    exact ⟨fact, (between.spread.clear.facts fact).mpr ⟨line, member, all line member, means⟩, means⟩
  · obtain ⟨line, inside, -, means⟩ := (between.spread.clear.facts fact).mp member
    exact ⟨line, inside, means⟩

namespace Samples

def step (n : Nat) : Iri := ⟨"http://example.com/p" ++ Nat.repr n⟩

def edge (n : Nat) : Line := .relation .sub (step (n + 1)) (step n)

/-- So many links, the farthest first. -/
def climb (base count : Nat) : List Line := (List.range' base count).reverse.map edge

/-- A chain of properties of which only the nearest is declared. -/
def chain (count : Nat) : List Line := climb 0 count ++ [.declaration .object (step 0)]

theorem step_injective : Function.Injective step := fun _ _ same =>
  Nat.repr_injective ((String.append_right_inj _).mp (congrArg Iri.value same))

theorem plain_step (n : Nat) : (step n).isReserved = false := by
  have value : (step n).value.toList = "http://example.com/p".toList ++ (Nat.repr n).toList := String.toList_append
  simp only [Iri.isReserved, Iri.inNamespace, value]
  rfl

theorem climb_succ (base count : Nat) : climb base (count + 1) = edge (base + count) :: climb base count := by
  simp [climb, List.range'_1_concat]

theorem mem_climb {base count : Nat} {line : Line} : line ∈ climb base count ↔ ∃ i, base ≤ i ∧ i < base + count ∧ edge i = line := by
  simp [climb, List.mem_range'_1, and_assoc]

theorem edge_mem_chain {count i : Nat} (less : i < count) : edge i ∈ chain count :=
  List.mem_append_left _ (mem_climb.mpr ⟨i, Nat.zero_le i, by omega, rfl⟩)

theorem within_chain {count : Nat} : ∀ {n : Nat}, n ≤ count → Within (chain count) n (step n)
  | 0, _ => ⟨.object, by simp [chain]⟩
  | n + 1, less => .inr ⟨step n, linked_of_mem (edge_mem_chain less), within_chain (Nat.le_of_succ_le less)⟩

theorem mem_chain {count : Nat} {line : Line} (member : line ∈ chain count) :
    line = .declaration .object (step 0) ∨ ∃ i < count, line = edge i := by
  rcases List.mem_append.mp member with inside | last
  · obtain ⟨i, -, less, rfl⟩ := mem_climb.mp inside
    exact .inr ⟨i, by omega, rfl⟩
  · exact .inl (List.mem_singleton.mp last)

theorem operand_chain {count : Nat} {property : Iri} (operand : Operand (chain count) property) : ∃ n ≤ count, property = step n := by
  have each : ∀ {link first second}, .relation link first second ∈ chain count →
      (∃ n ≤ count, first = step n) ∧ ∃ n ≤ count, second = step n := by
    intro link first second member
    rcases mem_chain member with other | ⟨i, less, same⟩
    · cases other
    · obtain ⟨-, rfl, rfl⟩ := Line.relation.inj same
      exact ⟨⟨i + 1, less, rfl⟩, i, Nat.le_of_lt less, rfl⟩
  obtain ⟨other, link, member | member⟩ := operand
  · exact (each member).1
  · exact (each member).2

theorem coherent_chain (count : Nat) : Coherent (chain count) := by
  refine .of_single .object (fun line member property mentioned => ?_) (fun kind property member => ?_) fun property operand => ?_
  · rcases mem_chain member with rfl | ⟨i, -, rfl⟩
    · obtain rfl := List.mem_singleton.mp mentioned
      exact plain_step 0
    · rcases List.mem_pair.mp mentioned with rfl | rfl <;> exact plain_step _
  · rcases mem_chain member with same | ⟨i, -, other⟩
    · exact (Line.declaration.inj same).1
    · cases other
  · obtain ⟨n, le, rfl⟩ := operand_chain operand
    exact ⟨n, within_chain le⟩

end Samples

theorem kinds_spread_chain : Coherent (Samples.chain 2) ∧ ∃ loaded,
    loadTriples { strict := true } 0 none ((Samples.chain 2).map Line.triple) = .ok loaded ∧ loaded.passes ≤ 3 ∧
      Link.fact (Samples.step 2) (Samples.step 1) .sub .object ∈ loaded.ontology.axioms := by
  have coherent := Samples.coherent_chain 2
  have near : ∀ link first second, .relation link first second ∈ Samples.chain 2 →
      Within (Samples.chain 2) 1000 first ∨ Within (Samples.chain 2) 1000 second := by
    intro link first second member
    obtain ⟨n, le, rfl⟩ := Samples.operand_chain ⟨second, linked_of_mem member⟩
    exact .inl ((Samples.within_chain le).mono (by omega))
  obtain ⟨loaded, run, -, read, -, bounded⟩ := @kinds_spread _ coherent { strict := true } rfl near 0 none
  refine ⟨coherent, loaded, run, bounded 2 fun property operand => ?_, ?_⟩
  · obtain ⟨n, le, rfl⟩ := Samples.operand_chain operand
    exact (Samples.within_chain le).mono le
  · obtain ⟨fact, member, kind, ⟨declared, -, declares⟩, rfl⟩ := read (Samples.edge 1) (Samples.edge_mem_chain (by decide))
    rcases Samples.mem_chain declares with same | ⟨_, _, other⟩
    · obtain rfl : kind = .object := (Line.declaration.inj same).1
      exact member
    · cases other

namespace Samples

section Refused

variable {count n : Nat} {config : Config} {number : Nat} {done : Triple → Prop} {session : Session}

/-- The first links have been read, and no property is known that is farther. -/
structure Reached (count : Nat) (config : Config) (number : Nat) (done : Triple → Prop) (n : Nat) (session : Session) : Prop where
  spread : Spread (chain count) config number done session
  knows : ∀ property, Knows session property ↔ ∃ i ≤ n, property = step i
  undone : ∀ i, n ≤ i → ¬ done (edge i).triple

theorem Reached.knows_step (reached : Reached count config number done n session) {i : Nat} : Knows session (step i) ↔ i ≤ n := by
  rw [reached.knows]
  constructor
  · rintro ⟨j, le, same⟩
    exact step_injective same ▸ le
  · exact fun le => ⟨i, le, rfl⟩

theorem Reached.unused (reached : Reached count config number done n session) {row : Row} {i : Nat} (le : n ≤ i)
    (listed : row ∈ (world (chain count) config number).rows) (same : row.triple = (edge i).triple) :
    session.store.isConsumed row.id = false := by
  rw [Bool.eq_false_iff, ne_eq, reached.spread.clear.used row listed, same]
  exact reached.undone i le

/-- A pass over a chain reads the last link, and no other. -/
theorem runPass_chain (more : Nat) : ∀ {n : Nat} {work : List Row}, n + more < count →
    (∀ row ∈ work, row ∈ (world (chain count) config number).rows) →
    work.map Row.triple = (climb n (more + 1)).map Line.triple → Reached count config number done n session →
    ∃ waiting also after, Load.runPass work ⟨config, number, false⟩ session = (.ok waiting, after) ∧
      waiting.map Row.triple = (climb (n + 1) more).map Line.triple ∧ (∀ row ∈ waiting, row ∈ work) ∧
      Reached count config number also (n + 1) after := by
  induction more with
  | zero =>
    intro n work less listed same reached
    obtain ⟨row, rfl, own⟩ : ∃ row, work = [row] ∧ row.triple = (edge n).triple := by
      obtain ⟨row, rest, rfl, own, last⟩ := List.map_eq_cons_iff.mp (same.trans (by rw [climb_succ]; rfl))
      exact ⟨row, by rw [List.map_eq_nil_iff.mp last], own⟩
    have inside := listed row List.mem_cons_self
    obtain ⟨after, postponed, read, -, knows⟩ := postpones_known (coherent_chain count) reached.spread (edge_mem_chain less) own inside
      (reached.unused (Nat.le_refl n) inside own) (.inr (reached.knows_step.mpr (Nat.le_refl n))) ⟨config, number, false⟩
    refine ⟨[], _, after, ?_, rfl, nofun, read, fun property => ?_, ?_⟩
    · rw [Load.runPass_cons, Run.bind_run postponed]
      rfl
    · rw [knows, reached.knows]
      constructor
      · rintro (⟨i, le, rfl⟩ | rfl | rfl)
        · exact ⟨i, Nat.le_succ_of_le le, rfl⟩
        · exact ⟨n + 1, Nat.le_refl _, rfl⟩
        · exact ⟨n, Nat.le_succ n, rfl⟩
      · rintro ⟨i, le, rfl⟩
        rcases Nat.le_succ_iff.mp le with old | rfl
        · exact .inl ⟨i, old, rfl⟩
        · exact .inr (.inl rfl)
    · rintro i le (finished | here)
      · exact reached.undone i (Nat.le_of_succ_le le) finished
      · have edges := Line.relation.inj (Line.triple_injective (here.trans own))
        exact absurd (step_injective edges.2.2) (Nat.ne_of_gt le)
  | succ more ih =>
    intro n work less listed same reached
    obtain ⟨row, rest, rfl, own, others⟩ := List.map_eq_cons_iff.mp (same.trans (by rw [climb_succ]; rfl))
    obtain ⟨inside, among⟩ := List.forall_mem_cons.mp listed
    have postponed : Load.postpones row ⟨config, number, false⟩ session = (.ok true, session) :=
      postpones_unknown (coherent_chain count) reached.spread (edge_mem_chain less) own (reached.unused (Nat.le_add_right ..) inside own)
        (fun knows => by have := reached.knows_step.mp knows; omega) (fun knows => by have := reached.knows_step.mp knows; omega) rfl
    obtain ⟨waiting, also, after, run, left, kept, next⟩ := ih (by omega) among others reached
    refine ⟨row :: waiting, also, after, ?_, ?_, ?_, next⟩
    · rw [Load.runPass_cons, Run.bind_run postponed, Run.bind_run run]
      rfl
    · rw [List.map_cons, own, left, climb_succ, List.map_cons, Nat.add_right_comm, Nat.add_assoc]
    · exact List.forall_mem_cons.mpr ⟨List.mem_cons_self, fun other waits => List.mem_cons_of_mem _ (kept other waits)⟩

theorem Reached.of_same (reached : Reached count config number done n session) {after : Session}
    (same : after = { session with kindsChanged := after.kindsChanged, passes := after.passes }) :
    Reached count config number done n after :=
  ⟨reached.spread.of_same same, by rw [same]; exact reached.knows, reached.undone⟩

theorem length_climb (base count : Nat) : (climb base count).length = count := by simp [climb]

/-- As many links are read as passes are made. -/
theorem makePasses_chain (uncancelled : config.cancelled = false) (remaining more : Nat) :
    ∀ {n : Nat} {work : List Row} {done : Triple → Prop} {session : Session}, n + (remaining + more) < count →
    (∀ row ∈ work, row ∈ (world (chain count) config number).rows) →
    work.map Row.triple = (climb n (remaining + more + 1)).map Line.triple → Reached count config number done n session →
    ∃ waiting also after, Load.makePasses remaining work ⟨config, number, false⟩ session = (.ok waiting, after) ∧
      waiting.map Row.triple = (climb (n + remaining) (more + 1)).map Line.triple ∧ (∀ row ∈ waiting, row ∈ work) ∧
      Reached count config number also (n + remaining) after := by
  induction remaining with
  | zero =>
    intro n work done session _ _ same reached
    exact ⟨work, done, session, rfl, by simpa using same, fun _ => id, reached⟩
  | succ remaining ih =>
    intro n work done session less listed same reached
    have size : work.length = remaining + 1 + more + 1 := by
      rw [← List.length_map, same, List.length_map, length_climb]
    have start : Reached count config number done n { session with passes := session.passes + 1, kindsChanged := false } :=
      reached.of_same rfl
    obtain ⟨waiting, also, after, run, left, kept, next⟩ := runPass_chain (remaining + 1 + more) less listed same start
    have made : Load.pass work ⟨config, number, false⟩ session = (.ok waiting, after) := (Load.pass_eq uncancelled work).trans run
    have fewer : waiting.length ≠ work.length := by
      rw [size, ← List.length_map, left, List.length_map, length_climb]
      omega
    obtain ⟨last, finished, final, rest, far, among, ended⟩ := ih (by omega) (fun row waits => listed row (kept row waits))
      (by rw [left, Nat.add_right_comm]) next
    refine ⟨last, finished, final, ?_, ?_, fun row waits => kept row (among row waits), ?_⟩
    · rw [Load.makePasses_succ, if_neg (fun empty => by simp [List.isEmpty_iff.mp empty] at size), Run.bind_run made,
        Load.afterPass_eq, if_neg fun same => fewer same.1]
      exact rest
    · rw [far, Nat.add_assoc, Nat.add_comm 1]
    · rwa [Nat.add_assoc, Nat.add_comm 1] at ended

/-- The candidates of a chain are its links. -/
theorem candidates_chain (spread : Spread (chain count) config number (Declares (chain count)) session) :
    (session.store.unconsumed.filter fun row => session.isCandidate row.triple).map Row.triple = (climb 0 count).map Line.triple := by
  have distinct : (chain count).Nodup := by
    have edges : Function.Injective edge := fun _ _ same => step_injective (Line.relation.inj same).2.2
    refine List.nodup_append.mpr ⟨(List.nodup_reverse.mpr List.nodup_range').map edges, List.nodup_singleton _, ?_⟩
    rintro line inside _ last rfl
    obtain ⟨i, -, -, other⟩ := mem_climb.mp inside
    cases other.trans (List.mem_singleton.mp last)
  have graph : (world (chain count) config number).rows.map Row.triple = (chain count).map Line.triple :=
    TripleStore.liveRows_ofTriples (distinct.map Line.triple_injective)
  have links : session.store.unconsumed.filter (fun row => session.isCandidate row.triple) =
      (world (chain count) config number).rows.filter fun row => row.triple.predicate == Rdfs.subPropertyOf := by
    have found := spread.mem_candidates
    rw [TripleStore.unconsumed_eq, spread.clear.holds.rows, List.filter_filter] at found ⊢
    refine List.filter_congr fun row inside => ?_
    rw [Bool.eq_iff_iff, beq_iff_eq]
    have candidate := (found row).trans (and_iff_right inside)
    rw [List.mem_filter, and_iff_right inside] at candidate
    refine candidate.trans ?_
    obtain ⟨line, member, same⟩ := mem_rows inside
    rcases mem_chain member with rfl | ⟨i, -, rfl⟩
    · refine iff_of_false ?_ (by rw [same]; decide)
      rintro ⟨link, _, _, -, other⟩
      exact link.predicate_ne_type (congrArg Triple.predicate (other.symm.trans same))
    · exact iff_of_true ⟨.sub, _, _, member, same⟩ (by rw [same]; rfl)
  calc
    _ = ((world (chain count) config number).rows.map Row.triple).filter fun triple => triple.predicate == Rdfs.subPropertyOf := by
      rw [links, List.filter_map]
      rfl
    _ = (climb 0 count).map Line.triple := by
      rw [graph, chain, List.map_append, List.filter_append]
      have all : ((climb 0 count).map Line.triple).filter (fun triple => triple.predicate == Rdfs.subPropertyOf) =
          (climb 0 count).map Line.triple := by
        refine List.filter_eq_self.mpr (List.forall_mem_map.mpr fun line inside => ?_)
        obtain ⟨i, -, -, rfl⟩ := mem_climb.mp inside
        rfl
      have last : ([Line.declaration .object (step 0)].map Line.triple).filter (fun triple => triple.predicate == Rdfs.subPropertyOf) = [] :=
        rfl
      rw [all, last, List.append_nil]

/-- The last pass of a strict load is refused over a link that is too far. -/
theorem settle_refused (strict : config.strict = true) (uncancelled : config.cancelled = false) (less : n + 1 < count)
    (reached : Reached count config number done n session) {row : Row} (listed : row ∈ (world (chain count) config number).rows)
    (own : row.triple = (edge (n + 1)).triple) (rest : List Row) :
    ∃ report, (Load.settle (row :: rest) ⟨config, number, true⟩ session).1 = .error (.refused report) := by
  have last : Reached count config number done n { session with passes := session.passes + 1 } := reached.of_same rfl
  obtain ⟨report, refused⟩ : ∃ report, (Load.postpones row ⟨config, number, true⟩ { session with passes := session.passes + 1 }).1 =
      .error (.refused report) :=
    postpones_refused (coherent_chain count) last.spread (edge_mem_chain less) own (last.unused (Nat.le_succ n) listed own)
      (fun knows => by have := last.knows_step.mp knows; omega) (fun knows => by have := last.knows_step.mp knows; omega) rfl strict
  have passed : (Load.runPass (row :: rest) ⟨config, number, true⟩ { session with passes := session.passes + 1 }).1 =
      .error (.refused report) := by
    rw [Load.runPass_cons, Run.bind_error refused]
  refine ⟨report, ?_⟩
  rw [Load.settle_eq uncancelled (List.cons_ne_nil row rest), Run.bind_error passed]

/-- When the entities are declared, the nearest property of a chain is known. -/
theorem reached_declarations (document : Option Iri) (strict : Bool) : Reached count config number (Declares (chain count)) 0
    ((Load.start document ((chain count).map Line.triple)).readDeclarations strict) := by
  refine ⟨spread_readDeclarations (coherent_chain count) document strict, fun property => ?_, ?_⟩
  · rw [knows_readDeclarations (coherent_chain count) document strict]
    constructor
    · rintro ⟨kind, member⟩
      rcases mem_chain member with same | ⟨_, _, other⟩
      · exact ⟨0, Nat.le_refl 0, (Line.declaration.inj same).2⟩
      · cases other
    · rintro ⟨i, le, rfl⟩
      exact ⟨.object, by simp [chain, Nat.le_zero.mp le]⟩
  · rintro i - ⟨kind, property, -, same⟩
    cases (Line.triple_injective same : edge i = .declaration kind property)

/-- A strict load is refused over a chain that has two links more than there may be passes. -/
theorem chain_refused (strict : config.strict = true) (uncancelled : config.cancelled = false) (document : Option Iri) :
    ∃ report, loadTriples config number document ((chain (config.maxPasses + 2)).map Line.triple) = .error (.refused report) := by
  have coherent := coherent_chain (config.maxPasses + 2)
  obtain ⟨session, prepared, reached⟩ : ∃ session,
      Load.prepare ⟨config, number, false⟩ (Load.start document ((chain (config.maxPasses + 2)).map Line.triple)) = (.ok (), session) ∧
      Reached (config.maxPasses + 2) config number (Declares (chain (config.maxPasses + 2))) 0 session :=
    ⟨_, prepare_start coherent config number document, reached_declarations document config.strict⟩
  obtain ⟨waiting, also, middle, made, left, kept, ended⟩ := makePasses_chain uncancelled config.maxPasses 1 (by omega)
    (fun row among => ((reached.spread.mem_candidates row).mp among).1) (candidates_chain reached.spread) reached
  obtain ⟨row, rest, rfl, own, -⟩ := List.map_eq_cons_iff.mp (left.trans (by rw [climb_succ]; rfl))
  have listed := ((reached.spread.mem_candidates row).mp (kept row List.mem_cons_self)).1
  obtain ⟨report, refused⟩ := settle_refused strict uncancelled (by omega) ended listed own rest
  have translated : (Load.translateAxioms ⟨config, number, false⟩ session).1 = .error (.refused report) := by
    rw [Load.translateAxioms_eq, Run.bind_run made]
    exact refused
  refine ⟨report, loadTriples_eq_error.mpr ?_⟩
  rw [Load.translate_phases, Run.bind_run prepared, Run.bind_error translated]

end Refused

end Samples

/-- The number of passes is limited by the configuration, which by itself allows a thousand. So a chain can be
too long for a strict load. -/
theorem not_kinds_spread_chain :
    (Coherent (Samples.chain 3) ∧ ∃ report,
      loadTriples { strict := true, maxPasses := 1 } 0 none ((Samples.chain 3).map Line.triple) = .error (.refused report)) ∧
    (Coherent (Samples.chain 1002) ∧ ∃ report,
      loadTriples { strict := true } 0 none ((Samples.chain 1002).map Line.triple) = .error (.refused report)) :=
  ⟨⟨Samples.coherent_chain 3, Samples.chain_refused rfl rfl none⟩, Samples.coherent_chain 1002, Samples.chain_refused rfl rfl none⟩

end OwlGraph.PropertyGraph
