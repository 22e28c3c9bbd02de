import OwlGraph.Proofs.AxiomSet
import OwlGraph.Proofs.Declarations
import OwlGraph.Proofs.Phases

/-! What a strict load accepts, a lax load reads in the same way, and what a lax load reads
without a report in one pass, a strict load accepts. Both need that the declarations mean the
same in both modes: a lax load takes a resource typed as a class of RDF Schema for a class. -/

namespace OwlGraph

/-- Every resource typed as a class of RDF Schema is declared to be a class too. -/
def DeclaresClasses (triples : List Triple) : Prop :=
  ∀ iri : Iri, (⟨iri, Rdf.type, Rdfs.Class⟩ : Triple) ∈ triples → (⟨iri, Rdf.type, Owl.Class⟩ : Triple) ∈ triples

namespace Load

variable {triples : List Triple} {document : Option Iri}

/-- The header leaves every other type to be read. -/
theorem mem_declarations {session : Session} (header : (start document triples).HeaderOnly session) {triple : Triple}
    (type : triple.predicate = Rdf.type) (other : triple.object ≠ .resource (.named Owl.Ontology)) :
    (∃ row ∈ session.unused (session.store.withPredicate Rdf.type), row.triple = triple) ↔ triple ∈ triples := by
  have rows : session.store.liveRows = (TripleStore.ofTriples triples).liveRows := header.rows
  rw [← TripleStore.mem_rows_ofTriples triples, ← rows, header.indexed.withPredicate, List.mem_map, Session.unused]
  refine exists_congr fun row => and_congr_left ?_
  rintro rfl
  rw [List.mem_filter, List.mem_filter]
  refine ⟨fun member => member.1.1, fun member => ⟨⟨member, beq_iff_eq.mpr type⟩, ?_⟩⟩
  rw [Bool.not_eq_true', Bool.eq_false_iff]
  intro used
  rcases header.used row (header.rows ▸ member) used with before | about
  · exact absurd before (by rw [start, TripleStore.unused_ofTriples]; exact Bool.false_ne_true)
  · exact other (about type)

theorem agrees_declarations (declares : DeclaresClasses triples) {first second : Session}
    (header : (start document triples).HeaderOnly first) (agrees : first.Agrees second) :
    (first.readDeclarations true).Agrees (second.readDeclarations false) := by
  refine Session.readDeclarations_agrees agrees header.kindsChanged (fun entity => ?_) fun row member iri subject object => ?_
  · rw [header.kinds, start]
    exact Std.HashSet.contains_empty
  · have type : row.triple = ⟨iri, Rdf.type, Rdfs.Class⟩ := by
      rw [Session.unused, header.indexed.withPredicate, List.mem_filter, List.mem_filter, beq_iff_eq] at member
      rw [← Node.iri?_eq_some.mp subject, ← member.1.2, ← Term.iri?_eq_some.mp object]
    have cls : Term.resource (.named Rdfs.Class) ≠ .resource (.named Owl.Ontology) := by decide
    have owl : Term.resource (.named Owl.Class) ≠ .resource (.named Owl.Ontology) := by decide
    have told := declares iri ((mem_declarations header rfl cls).mp ⟨row, member, type⟩)
    obtain ⟨other, inside, same⟩ := (mem_declarations header rfl owl).mpr told
    exact ⟨other, inside, by rw [same]; rfl, by rw [same]; rfl⟩

theorem keeps_readDeclarations (strict : Bool) (session : Session) :
    level.keeps session (session.readDeclarations strict) := by
  obtain ⟨pending, reports, passes⟩ := Session.records_readDeclarations strict session
  exact level.quiet pending reports passes

theorem tame_readDeclarations (context : Context) (strict : Bool) :
    level.Tame context (modify (·.readDeclarations strict) : Load Unit) :=
  ⟨keeps_readDeclarations strict, fun _ _ _ ended => nomatch ended⟩

theorem translate_together (declares : DeclaresClasses triples) {context : Context} (mode : context.config.strict = true) :
    Level.Same (start document triples) (translate context (start document triples))
        (translate context.lax (start document triples)) ∨
      level.Apart (fun _ => False) (start document triples) (translate context (start document triples))
        (translate context.lax (start document triples)) := by
  have header : (start document triples).HeaderOnly (readHeader context (start document triples)).2 :=
    readHeader_headerOnly (TripleStore.indexed_ofTriples triples) context
  rw [translate_eq, translate_eq, mode, show context.lax.config.strict = false from rfl]
  rcases inStep_readHeader.together _ _ mode (.refl (start document triples)) with same | ⟨-, apart⟩
  · cases run : (readHeader context (start document triples)).1 with
    | error error =>
      rw [Run.bind_error run, Run.bind_error (same.result.trans run)]
      exact .inl ⟨rfl, same.sessions, same.reports⟩
    | ok =>
      have declare (context : Context) (strict : Bool) (session : Session) :
          (modify (·.readDeclarations strict) >>= fun _ => afterDeclarations : Load Unit) context session =
            afterDeclarations context (session.readDeclarations strict) := rfl
      rw [Run.bind_ok run, Run.bind_ok (same.result.trans run), declare, declare]
      have declared := agrees_declarations declares header same.sessions
      refine (inStep_afterDeclarations.together _ _ mode declared).imp (fun later => ?_) fun ⟨_, apart⟩ => ?_
      · refine ⟨later.result, later.sessions, later.reports.trans ?_⟩
        exact (Session.records_readDeclarations true _).2.1.trans same.reports
      · refine ⟨apart.refused, .inl ((apart.departs.resolve_right id).earlier ?_)⟩
        exact level.trans (inStep_readHeader.lax_tame.keeps _) (keeps_readDeclarations false _)
  · obtain ⟨error, run, refused⟩ := apart.refused
    rw [Run.bind_error run]
    refine .inr ⟨⟨error, rfl, refused⟩, .inl ((apart.departs.resolve_right id).bind fun _ => ?_)⟩
    exact (tame_readDeclarations _ _).bind fun _ => inStep_afterDeclarations.lax_tame

end Load

theorem Loaded.of_agrees {first second : Session} (agrees : first.Agrees second) : of second = of first := by
  obtain ⟨kinds, rfl, -⟩ := agrees
  rfl

section Loads

variable {config : Config} {number : Nat} {document : Option Iri} {triples : List Triple} {loaded : Loaded}

/-- What a strict load accepts is what a lax load reads, and without a report. -/
theorem lax_of_strict (declares : DeclaresClasses triples)
    (accepted : loadTriples { config with strict := true } number document triples = .ok loaded) :
    loadTriples { config with strict := false } number document triples = .ok loaded ∧ loaded.reports = [] := by
  obtain ⟨run, rfl⟩ := loadTriples_eq_ok.mp accepted
  let context : Context := ⟨{ config with strict := true }, number, false⟩
  have mode : context.config.strict = true := rfl
  rcases @Load.translate_together triples document declares context mode with same | apart
  · refine ⟨loadTriples_eq_ok.mpr ⟨same.result.trans run, Loaded.of_agrees same.sessions⟩, ?_⟩
    rw [Loaded.of, same.reports]
    rfl
  · obtain ⟨error, refused, -⟩ := apart.refused
    rw [run] at refused
    cases refused

namespace Samples

def resource : Iri := ⟨"http://example.com/A"⟩

/-- A class that is typed as a class of RDF Schema too. -/
def typedTwice : List Triple := [⟨resource, Rdf.type, Owl.Class⟩, ⟨resource, Rdf.type, Rdfs.Class⟩]

def first : Row := ⟨0, resource, Rdf.type, Owl.Class⟩

def second : Row := ⟨1, resource, Rdf.type, Rdfs.Class⟩

theorem declares_typedTwice : DeclaresClasses typedTwice := by
  intro iri member
  rcases List.mem_cons.mp member with same | member
  · have differ : Term.resource (.named Rdfs.Class) ≠ .resource (.named Owl.Class) := by decide
    exact absurd (congrArg Triple.object same) differ
  · obtain rfl : iri = resource := by
      injection List.mem_singleton.mp member with subject
      exact Node.named.inj subject
    exact List.mem_cons_self

theorem loads_typedTwice (strict : Bool) : ∃ loaded, loadTriples { strict } 0 none typedTwice = .ok loaded ∧
    loaded.reports = [] ∧ loaded.passes = 0 := by
  let context : Context := ⟨{ strict }, 0, false⟩
  let start := Load.start none typedTwice
  let told := (∅ : Std.HashSet Entity).insert ⟨.cls, resource⟩
  obtain ⟨known, same⟩ : ∃ known, (Session.consume { start with kinds := told, kindsChanged := true } 0).commit 0
      (.of (.declaration ⟨.cls, resource⟩) []) = known := ⟨_, rfl⟩
  have kinds : known.kinds = told := same ▸ rfl
  have present : known.kinds.contains ⟨.cls, resource⟩ = true := kinds ▸ Std.HashSet.contains_insert_self
  have begin : start.store.Lists [first, second] [] := TripleStore.lists_ofTriples (by decide)
  have store : known.store = start.store.consume 0 := same ▸ rfl
  have listed : known.store.Lists [first, second] [0] := store ▸ begin.consume 0
  have declared : start.readDeclarations strict = known := by
    have types : start.unused (start.store.withPredicate Rdf.type) = [first, second] := by
      rw [begin.indexed.withPredicate, begin.listed, Session.unused_of_lists begin fun row => List.mem_of_mem_filter]
      decide
    have learned : start.learn resource .cls = { start with kinds := told, kindsChanged := true } :=
      if_neg (Bool.eq_false_iff.mp Std.HashSet.contains_empty)
    have one : start.declare strict first = known := by
      change ((start.learn resource .cls).consume 0).commit 0 _ = _
      rw [learned]
      exact same
    have two : known.declare strict second = known := by
      cases strict with
      | true => rfl
      | false => exact if_pos present
    rw [Session.readDeclarations, types, List.foldl_cons, one]
    exact two
  have unconsumed : known.store.unconsumed = [second] := by
    rw [listed.unconsumed]
    decide
  have work : (known.store.unconsumed.filter fun row => known.isCandidate row.triple) = [] := by
    rw [unconsumed, List.filter_cons_of_neg, List.filter_nil]
    exact Bool.eq_false_iff.mp (Session.isCandidate_type_eq_false (by decide) (by decide) known resource)
  have nodes : known.axiomNodes = [] := Session.axiomNodes_of_lists listed (by decide)
  have noise : (known.consume 1).isNoise second.triple = true := by
    have test : (known.consume 1).isNoise second.triple =
        EntityKind.all.any fun kind => known.kinds.contains ⟨kind, resource⟩ := rfl
    rw [test]
    exact List.any_eq_true.mpr ⟨.cls, by decide, present⟩
  have run : Load.translate context start = (.ok (), known.consume 1) := by
    refine Load.translate_ok ?_ ?_
    · rw [Session.ontologyNodes, begin.indexed.withPredicate, begin.listed]
      decide
    · rw [declared]
      refine Load.afterDeclarations_ok (same ▸ rfl) (Load.translateAxioms_absent work) nodes ?_
      rw [unconsumed]
      exact Run.bind_run (Load.reportUnparsed_noise noise) _
  have reports : known.reports = #[] := same ▸ rfl
  have passes : known.passes = 0 := same ▸ rfl
  refine ⟨Loaded.of (known.consume 1), loadTriples_of_run run, ?_, passes⟩
  exact congrArg Array.toList reports

end Samples

theorem lax_of_strict_typedTwice : ∃ loaded, DeclaresClasses Samples.typedTwice ∧
    loadTriples { strict := true } 0 none Samples.typedTwice = .ok loaded ∧
      loadTriples { strict := false } 0 none Samples.typedTwice = .ok loaded ∧ loaded.reports = [] := by
  obtain ⟨loaded, accepted, -⟩ := Samples.loads_typedTwice true
  exact ⟨loaded, Samples.declares_typedTwice, accepted,
    @lax_of_strict {} 0 none Samples.typedTwice loaded Samples.declares_typedTwice accepted⟩

namespace Samples

def datatype : Iri := ⟨"http://example.com/D"⟩

/-- A datatype that is typed as a class of RDF Schema, but declared to be none. -/
def definition : List Triple :=
  [⟨datatype, Rdf.type, Rdfs.Class⟩, ⟨datatype, Rdf.type, Rdfs.Datatype⟩, ⟨datatype, Owl.equivalentClass, Xsd.string⟩]

def typing : Row := ⟨0, datatype, Rdf.type, Rdfs.Class⟩

def declaring : Row := ⟨1, datatype, Rdf.type, Rdfs.Datatype⟩

def defining : Row := ⟨2, datatype, Owl.equivalentClass, Xsd.string⟩

def declaration : AnnotatedAxiom := .of (.declaration ⟨.datatype, datatype⟩) []

/-- A session after the declarations. The modes differ in the kinds that are known by then. -/
def declared (kinds : Std.HashSet Entity) (kindsChanged : Bool) (passes : Nat) : Session :=
  let start := Load.start none definition
  { start with
    store := start.store.consume 1
    ontology := start.ontology.add declaration
    produced := start.produced.insert 1 declaration
    kinds, kindsChanged, passes }

theorem begins_definition : (Load.start none definition).store.Lists [typing, declaring, defining] [] :=
  TripleStore.lists_ofTriples (by decide)

theorem declares_definition (strict : Bool) : ∃ kinds kindsChanged,
    (Load.start none definition).readDeclarations strict = declared kinds kindsChanged 0 ∧
      ∀ entity, kinds.contains entity = true ↔
        entity = ⟨.datatype, datatype⟩ ∨ strict = false ∧ entity = ⟨.cls, datatype⟩ := by
  let start := Load.start none definition
  have types : start.unused (start.store.withPredicate Rdf.type) = [typing, declaring] := by
    rw [begins_definition.indexed.withPredicate, begins_definition.listed,
      Session.unused_of_lists begins_definition fun row => List.mem_of_mem_filter]
    decide
  have none : ∀ entity, start.kinds.contains entity = false := fun entity => Std.HashSet.contains_empty
  rw [Session.readDeclarations, types]
  cases strict with
  | true =>
    let told := start.learn datatype .datatype
    refine ⟨told.kinds, told.kindsChanged, ?_, fun entity => ?_⟩
    · change (told.consume 1).commit 1 declaration = _
      rw [show told = _ from Session.learn_shape start datatype .datatype]
      rfl
    · rw [Session.contains_learn, none]
      simp
  | false =>
    let first := start.learn datatype .cls
    let told := first.learn datatype .datatype
    refine ⟨told.kinds, told.kindsChanged, ?_, fun entity => ?_⟩
    · change (told.consume 1).commit 1 declaration = _
      rw [show told = _ from Session.learn_shape first datatype .datatype,
        show first = _ from Session.learn_shape start datatype .cls]
      rfl
    · rw [Session.contains_learn, Session.contains_learn, none]
      simp [or_comm]

theorem work_definition (kinds : Std.HashSet Entity) (kindsChanged : Bool) :
    let session := declared kinds kindsChanged 0
    (session.store.unconsumed.filter fun row => session.isCandidate row.triple) = [defining] := by
  intro session
  have listed : session.store.Lists [typing, declaring, defining] [1] := begins_definition.consume 1
  have special : session.isSpecial datatype = false := by
    rw [Session.isSpecial, TripleStore.types, TripleStore.objects, TripleStore.matching, listed.indexed.withSubject,
      listed.listed, show session.header = none from rfl]
    decide
  have no : session.isCandidate typing.triple = false :=
    Session.isCandidate_type_eq_false (by decide) (by decide) session datatype
  have yes : session.isCandidate defining.triple = true := Session.isCandidate_classAxiom (by decide) special
  have unconsumed : session.store.unconsumed = [typing, defining] := by
    rw [listed.unconsumed]
    decide
  rw [unconsumed, List.filter_cons, no, List.filter_cons, yes]
  rfl

/-- Whatever axiom the definition is read as, it is the one that the load gives beside the
declaration, as long as the resource stays a datatype. -/
theorem loads_definition {strict : Bool} {fact : AnnotatedAxiom} {kinds later : Std.HashSet Entity} {before after : Bool}
    (told : (Load.start none definition).readDeclarations strict = declared kinds before 0)
    (read : Translation.statement defining.triple ⟨{ strict }, 0, false⟩ (declared kinds false 1) =
      (.ok fact, declared later after 1))
    (kept : later.contains ⟨.datatype, datatype⟩ = true) :
    ∃ loaded, loadTriples { strict } 0 none definition = .ok loaded ∧
      ∀ other, other ∈ loaded.ontology.axioms ↔ other = fact ∨ other = declaration := by
  let context : Context := ⟨{ strict }, 0, false⟩
  have listed := begins_definition.consume 1
  obtain ⟨final, ended⟩ : ∃ final, ((declared later after 1).consume 2).commit 2 fact = final := ⟨_, rfl⟩
  have store : final.store = ((Load.start none definition).store.consume 1).consume 2 := ended ▸ rfl
  have known : final.kinds = later := ended ▸ rfl
  have facts : final.ontology = (Ontology.add {} declaration).add fact := ended ▸ rfl
  have axioms : Load.translateAxioms context (declared kinds before 0) = (.ok (), final) := by
    have pass : Load.runPass [defining] context (declared kinds false 1) = (.ok [], final) :=
      ended ▸ Load.runPass_single (listed.used defining (by decide)) read rfl
    exact Load.translateAxioms_once (work_definition kinds before) (by decide) rfl (Nat.succ_pos _) pass
  have done : final.store.Lists [typing, declaring, defining] [2, 1] := store ▸ listed.consume 2
  have nodes : final.axiomNodes = [] := Session.axiomNodes_of_lists done (by decide)
  have noise : (final.consume 0).isNoise typing.triple = true := by
    have test : (final.consume 0).isNoise typing.triple =
        EntityKind.all.any fun kind => final.kinds.contains ⟨kind, datatype⟩ := rfl
    rw [test, known]
    exact List.any_eq_true.mpr ⟨.datatype, by decide, kept⟩
  have rest : final.store.unconsumed.forM Load.reportUnparsed context final = (.ok (), final.consume 0) := by
    have unconsumed : final.store.unconsumed = [typing] := by
      rw [done.unconsumed]
      decide
    rw [unconsumed]
    exact Run.bind_run (Load.reportUnparsed_noise noise) _
  have run : Load.translate context (Load.start none definition) = (.ok (), final.consume 0) := by
    refine Load.translate_ok ?_ ?_
    · rw [Session.ontologyNodes, begins_definition.indexed.withPredicate, begins_definition.listed]
      decide
    · rw [told]
      exact Load.afterDeclarations_ok rfl axioms nodes rest
  refine ⟨Loaded.of (final.consume 0), loadTriples_of_run run, fun other => ?_⟩
  have empty : other ∉ Ontology.axioms {} := List.not_mem_nil
  calc
    other ∈ final.ontology.axioms
    _ ↔ other ∈ ((Ontology.add {} declaration).add fact).axioms := by rw [facts]
    _ ↔ other = fact ∨ other ∈ (Ontology.add {} declaration).axioms :=
      Ontology.mem_axioms_add (AxiomIndex.sound_empty.insert declaration)
    _ ↔ other = fact ∨ other = declaration := by rw [Ontology.mem_axioms_add AxiomIndex.sound_empty, or_iff_left empty]

section Kinds

variable {strict : Bool} {kinds : Std.HashSet Entity} (known : ∀ entity, kinds.contains entity = true ↔
  entity = ⟨.datatype, datatype⟩ ∨ strict = false ∧ entity = ⟨.cls, datatype⟩)
include known

theorem hasKind_declared (kindsChanged : Bool) (passes : Nat) (kind : EntityKind) :
    (declared kinds kindsChanged passes).hasKind datatype kind =
      decide (kind = .datatype ∨ strict = false ∧ kind = .cls) := by
  have builtin : kind.isBuiltin datatype = false := by cases kind <;> rfl
  change (kind.isBuiltin datatype || kinds.contains ⟨kind, datatype⟩) = _
  rw [builtin, Bool.false_or, Bool.eq_iff_iff, known, decide_eq_true_iff]
  simp

theorem definesDatatype_declared (kindsChanged : Bool) (passes : Nat) :
    (declared kinds kindsChanged passes).definesDatatype datatype Xsd.string = strict := by
  change (!(declared kinds kindsChanged passes).hasKind datatype .cls &&
    ((declared kinds kindsChanged passes).hasKind datatype .datatype || _)) = strict
  rw [hasKind_declared known, hasKind_declared known]
  cases strict <;> rfl

end Kinds

theorem loads_definition_strict : ∃ loaded, loadTriples { strict := true } 0 none definition = .ok loaded ∧
    ∀ fact, fact ∈ loaded.ontology.axioms ↔
      fact = .of (.datatypeDefinition datatype (.datatype Xsd.string)) [] ∨ fact = declaration := by
  obtain ⟨kinds, before, told, known⟩ := declares_definition true
  have read := Translation.statement_datatypeDefinition (definesDatatype_declared known false 1) ⟨{ strict := true }, 0, false⟩
  rw [Session.learn_shape] at read
  exact loads_definition told read (Session.contains_learn.mpr (.inl ((known _).mpr (.inl rfl))))

theorem loads_definition_lax : ∃ loaded, loadTriples { strict := false } 0 none definition = .ok loaded ∧
    ∀ fact, fact ∈ loaded.ontology.axioms ↔
      fact = .of (.equivalentClasses [.named datatype, .named Xsd.string]) [] ∨ fact = declaration := by
  obtain ⟨kinds, before, told, known⟩ := declares_definition false
  have read := Translation.statement_equivalentClasses (definesDatatype_declared known false 1) ⟨{ strict := false }, 0, false⟩
  rw [Session.learn_shape, Session.learn_shape (declared kinds false 1)] at read
  have kept : ((declared kinds false 1).learn datatype .cls).kinds.contains ⟨.datatype, datatype⟩ = true :=
    Session.contains_learn.mpr (.inl ((known _).mpr (.inl rfl)))
  exact loads_definition told read (Session.contains_learn.mpr (.inl kept))

end Samples

/-- Without the declaration as a class, the lax load takes for a class what the strict load takes
for a datatype, and reads other axioms. -/
theorem not_lax_of_strict : ¬ ∀ (config : Config) (number : Nat) (document : Option Iri) (triples : List Triple)
    (loaded : Loaded), loadTriples { config with strict := true } number document triples = .ok loaded →
      ∃ other, loadTriples { config with strict := false } number document triples = .ok other ∧
        other.ontology.id = loaded.ontology.id ∧ other.ontology.imports = loaded.ontology.imports ∧
        other.ontology.annotations = loaded.ontology.annotations ∧ other.ontology.axioms = loaded.ontology.axioms ∧
        other.reports = [] := by
  intro claim
  obtain ⟨first, accepted, facts⟩ := Samples.loads_definition_strict
  obtain ⟨second, read, others⟩ := Samples.loads_definition_lax
  obtain ⟨other, again, -, -, -, same, -⟩ := claim {} 0 none Samples.definition first accepted
  obtain rfl : second = other := Except.ok.inj (read.symm.trans again)
  have member := (facts _).mpr (.inl rfl)
  rw [← same, others] at member
  exact absurd member (by decide)

/-- What a lax load reads in one pass without a report is what a strict load accepts. -/
theorem strict_of_lax (declares : DeclaresClasses triples)
    (accepted : loadTriples { config with strict := false } number document triples = .ok loaded)
    (clean : loaded.reports = []) (once : loaded.passes ≤ 1) :
    loadTriples { config with strict := true } number document triples = .ok loaded := by
  obtain ⟨run, rfl⟩ := loadTriples_eq_ok.mp accepted
  let context : Context := ⟨{ config with strict := true }, number, false⟩
  have mode : context.config.strict = true := rfl
  rcases @Load.translate_together triples document declares context mode with same | apart
  · exact loadTriples_eq_ok.mpr ⟨same.result.symm.trans run, (Loaded.of_agrees same.sessions).symm⟩
  · rcases apart.departs.resolve_right id with ⟨error, ended, _⟩ | noted
    · exact nomatch run.symm.trans ended
    · rcases noted with reported | again
      · rw [Loaded.of, Array.toList_eq_nil_iff] at clean
        exact absurd (congrArg Array.size clean) (Nat.ne_of_gt reported)
      · exact absurd again (Nat.not_lt_of_le once)

theorem strict_of_lax_typedTwice : ∃ loaded, DeclaresClasses Samples.typedTwice ∧
    loadTriples { strict := false } 0 none Samples.typedTwice = .ok loaded ∧ loaded.reports = [] ∧ loaded.passes ≤ 1 ∧
      loadTriples { strict := true } 0 none Samples.typedTwice = .ok loaded := by
  obtain ⟨loaded, accepted, clean, passes⟩ := Samples.loads_typedTwice false
  have once : loaded.passes ≤ 1 := passes ▸ Nat.zero_le 1
  exact ⟨loaded, Samples.declares_typedTwice, accepted, clean, once,
    @strict_of_lax {} 0 none Samples.typedTwice loaded Samples.declares_typedTwice accepted clean once⟩

end Loads

end OwlGraph
