import OwlGraph.Proofs.Merging

/-! Triples that nodes annotate and that the graph lacks. They are added and read by what reads
candidates. A declaration is no candidate, so one that is missing is not read as if it were there: it comes
out as the assertion that its subject belongs to the type. -/

namespace OwlGraph

/-- The triple that declares an entity. -/
def Entity.declaring (entity : Entity) : Triple := ⟨entity.iri, Rdf.type, entity.kind.type⟩

theorem Entity.declaring_inj {entity other : Entity} (same : entity.declaring = other.declaring) : entity = other := by
  obtain ⟨kind, iri⟩ := entity
  obtain ⟨kind', iri'⟩ := other
  obtain ⟨subject, -, object⟩ := Triple.mk.injEq .. ▸ same
  have kinds : EntityKind.ofType? kind.type = EntityKind.ofType? kind'.type := congrArg _ (by simpa using object)
  rw [EntityKind.ofType?_type, EntityKind.ofType?_type] at kinds
  obtain rfl := Option.some.inj kinds
  obtain rfl : iri = iri' := by simpa using subject
  rfl

/-- What a missing declaration is read as. -/
def Entity.assertion (entity : Entity) : AnnotatedAxiom := .of (.classAssertion (.named entity.kind.type) (.named entity.iri)) []

theorem Translation.statement_declaring (entity : Entity) (context : Context) (session : Session) :
    statement entity.declaring context session = (.ok entity.assertion, session.learn entity.kind.type .cls) := by
  have plain (kind : EntityKind) : Role.axiomTypes.contains kind.type = false ∧ kind.type ≠ Owl.FunctionalProperty ∧
      Characteristic.ofType? kind.type = none := by cases kind <;> decide
  obtain ⟨untyped, functional, trait⟩ := plain entity.kind
  have entered : ((Term.resource (.named entity.kind.type)).iri?.filter Role.axiomTypes.contains) = none :=
    Option.filter_eq_none_iff.mpr fun type same => by
      cases same
      rw [untyped]
      exact Bool.false_ne_true
  have bare : typeAxiom entity.iri entity.kind.type context session =
      (.ok (.classAssertion (.named entity.kind.type) (.named entity.iri)), session.learn entity.kind.type .cls) := by
    change (if entity.kind.type = Owl.FunctionalProperty then _ else _ : Translation Axiom) context session = _
    rw [if_neg functional, trait]
    exact Run.bind_run (classExpression_named entity.kind.type context session) _
  rw [Entity.declaring, statement, if_pos rfl, entered]
  exact Run.bind_run bare _

theorem Session.steady_standsFor (triple : Triple) (fact : AnnotatedAxiom) : Session.Steady fun session => session.StandsFor triple fact := by
  rintro session after rows - produced ⟨id, live, known⟩
  exact ⟨id, rows ▸ live, produced ▸ known⟩

namespace Session

variable {strict : Bool} {session : Session} {entity : Entity} {row : Row}

theorem produced_declare_of_ne {id : TripleId} (apart : row.id ≠ id) :
    (session.declare strict row).produced[id]? = session.produced[id]? := by
  have learned (iri : Iri) (kind : EntityKind) : (session.learn iri kind).produced = session.produced := by rw [learn_shape]
  unfold Session.declare
  split
  · next iri _ _ _ =>
    split
    · next kind _ =>
      dsimp only
      split
      · exact congrArg (·[id]?) (learned iri kind)
      · change ((session.learn iri kind).produced.insert row.id _)[id]? = _
        rw [Std.HashMap.getElem?_insert, if_neg (by simpa using apart), learned]
    · split
      · rfl
      · split
        · exact congrArg (·[id]?) (learned _ _)
        · split
          · exact congrArg (·[id]?) (learned _ _)
          · rfl
  · rfl

theorem produced_declare (declares : row.triple = entity.declaring) (ordinary : entity.kind.isBuiltin entity.iri = false) :
    (session.declare strict row).produced[row.id]? = some (.of (.declaration entity) []) := by
  have subject : row.triple.subject.iri? = some entity.iri := by rw [declares]; rfl
  have object : row.triple.object.iri? = some entity.kind.type := by rw [declares]; rfl
  rw [Session.declare, subject, object]
  dsimp only
  rw [EntityKind.ofType?_type]
  dsimp only
  rw [if_neg (Bool.eq_false_iff.mp ordinary)]
  exact Std.HashMap.getElem?_insert_self

/-- Once the row is declared, the declaration stays on record for it. -/
theorem produced_foldl_declare (declares : row.triple = entity.declaring) (ordinary : entity.kind.isBuiltin entity.iri = false)
    (rows : List Row) : ∀ session : Session, row ∈ rows → (∀ other ∈ rows, other.id = row.id → other = row) →
    (rows.foldl (Session.declare strict) session).produced[row.id]? = some (.of (.declaration entity) []) := by
  induction rows using List.reverseRecOn with
  | nil => exact fun _ member => absurd member List.not_mem_nil
  | append_singleton rows last ih =>
    intro session member apart
    rw [List.foldl_append, List.foldl_cons, List.foldl_nil]
    by_cases same : last = row
    · subst same
      exact produced_declare declares ordinary
    · have inside : row ∈ rows := (List.mem_append.mp member).resolve_right fun single => same (List.mem_singleton.mp single).symm
      rw [produced_declare_of_ne fun number => same (apart last (List.mem_append_right _ (List.mem_singleton_self _)) number)]
      exact ih session inside fun other listed => apart other (List.mem_append_left _ listed)

end Session

namespace Load

variable {context : Context} {config : Config} {document : Option Iri} {triples : List Triple}

/-- A declaration that is in the graph is on record before any axiom is translated. -/
theorem declaration_standsFor (mode : context.config.strict = false) (document : Option Iri) {entity : Entity}
    (ordinary : entity.kind.isBuiltin entity.iri = false) (present : entity.declaring ∈ triples) :
    ∃ session, prepare context (start document triples) = (.ok (), session) ∧
      session.StandsFor entity.declaring (.of (.declaration entity) []) := by
  refine steady_prepare mode (Session.steady_standsFor _ _) document triples fun headed only => ?_
  have other : entity.declaring.object ≠ .resource (.named Owl.Ontology) := by
    have kinds (kind : EntityKind) : Term.resource (.named kind.type) ≠ .resource (.named Owl.Ontology) := by cases kind <;> decide
    exact kinds entity.kind
  obtain ⟨row, listed, declares⟩ := (mem_declarations only rfl other).mpr present
  have live (other : Row) (member : other ∈ headed.unused (headed.store.withPredicate Rdf.type)) : other ∈ headed.store.liveRows := by
    have typed := List.mem_of_mem_filter member
    rw [only.indexed.withPredicate] at typed
    exact List.mem_of_mem_filter typed
  have regular : headed.Regular _ := (regular_start document triples).of_same only.rows only.index only.produced
  have kept : row ∈ (headed.readDeclarations context.config.strict).store.liveRows := by
    rw [(regular.readDeclarations _).rows, ← regular.rows]
    exact live row listed
  refine ⟨row.id, ?_, Session.produced_foldl_declare declares ordinary _ headed listed fun other member same => ?_⟩
  · rw [← declares]
    exact kept
  · have one := TripleStore.mem_liveRows.mp (live other member)
    rw [same, TripleStore.mem_liveRows.mp (live row listed)] at one
    exact (Option.some.inj one).symm

/-- An axiom into which the annotations of a missing triple are merged is what the triple is read as. -/
theorem reads_of_missing {number : Nat} {session : Session} (mode : config.strict = false)
    (run : (prepare >>= fun _ => translateAxioms) ⟨config, number, false⟩ (start document triples) = (.ok (), session))
    {nodes : List Node} {merge : Merge} (member : merge ∈ merges ⟨config, number, true⟩ session nodes) (missing : merge.triple ∉ triples) :
    (Context.mk config number true).Reads merge.triple merge.base := by
  obtain ⟨regular, orderly⟩ := regular_translateAxioms mode run
  obtain ⟨after, merging⟩ : ∃ after, Merging ⟨config, number, true⟩ session nodes after := exists_merging mode nodes orderly
  refine (merging.grows.fresh _ _ (merging.stands merge member)).resolve_left ?_
  rintro ⟨id, live, -⟩
  rw [regular.rows] at live
  exact missing ((TripleStore.mem_rows_ofTriples triples merge.triple).mp (List.mem_map_of_mem live))

end Load

/-- A missing triple that nodes annotate is read as candidates are, which a declaration is not: one that
is in the graph stands for the declaration, and one that is missing for an assertion. -/
theorem missing_triple_read {config : Config} (mode : config.strict = false) (number : Nat) (document : Option Iri) (triples : List Triple)
    {session : Session}
    (run : (Load.prepare >>= fun _ => Load.translateAxioms) ⟨config, number, false⟩ (Load.start document triples) = (.ok (), session))
    (nodes : List Node) :
    (∀ merge ∈ Load.merges ⟨config, number, true⟩ session nodes, merge.triple ∉ triples →
      (Context.mk config number true).Reads merge.triple merge.base) ∧
    ∀ entity : Entity, entity.kind.isBuiltin entity.iri = false →
      (entity.declaring ∉ triples → ∀ merge ∈ Load.merges ⟨config, number, true⟩ session nodes, merge.triple = entity.declaring →
        merge.base = entity.assertion) ∧
      ∃ prepared, Load.prepare ⟨config, number, false⟩ (Load.start document (entity.declaring :: triples)) = (.ok (), prepared) ∧
        prepared.StandsFor entity.declaring (.of (.declaration entity) []) := by
  let context : Context := ⟨config, number, false⟩
  have lax : context.config.strict = false := mode
  have reads {merge : Merge} (member : merge ∈ Load.merges ⟨config, number, true⟩ session nodes) (missing : merge.triple ∉ triples) :=
    Load.reads_of_missing mode run member missing
  refine ⟨fun merge member missing => reads member missing, fun entity ordinary =>
    ⟨fun missing merge member same => ?_, Load.declaration_standsFor lax document ordinary List.mem_cons_self⟩⟩
  obtain ⟨middle, after, read⟩ := reads member (same ▸ missing)
  rw [same, Translation.statement_declaring] at read
  exact (Except.ok.inj (congrArg Prod.fst read)).symm

namespace Samples

def unlisted : Entity := ⟨.cls, ⟨"http://example.com/A"⟩⟩

/-- A node with a remark on the declaration of a class, which is missing. -/
def undeclared : List Triple :=
  [⟨.blank ⟨"x"⟩, Rdf.type, Owl.Axiom⟩, ⟨.blank ⟨"x"⟩, Owl.annotatedSource, unlisted.iri⟩,
    ⟨.blank ⟨"x"⟩, Owl.annotatedProperty, Rdf.type⟩, ⟨.blank ⟨"x"⟩, Owl.annotatedTarget, Owl.Class⟩,
    ⟨.blank ⟨"x"⟩, Rdfs.comment, .literal (.simple "note")⟩]

end Samples

theorem missing_triple_read_undeclared :
    let context : Context := ⟨{ strict := false }, 0, false⟩
    ∃ session, (Load.prepare >>= fun _ => Load.translateAxioms) context (Load.start none Samples.undeclared) = (.ok (), session) ∧
      (∀ merge ∈ Load.merges ⟨{ strict := false }, 0, true⟩ session session.axiomNodes,
        merge.triple = Samples.unlisted.declaring → merge.base = Samples.unlisted.assertion) ∧
      ∃ prepared, Load.prepare context (Load.start none (Samples.unlisted.declaring :: Samples.undeclared)) = (.ok (), prepared) ∧
        prepared.StandsFor Samples.unlisted.declaring (.of (.declaration Samples.unlisted) []) := by
  intro context
  obtain ⟨session, run⟩ := @Load.exists_translated context.config rfl rfl 0 none Samples.undeclared
  obtain ⟨missing, present⟩ := (@missing_triple_read context.config rfl 0 none Samples.undeclared session run session.axiomNodes).2
    Samples.unlisted (by decide)
  exact ⟨session, run, missing (by decide), present⟩

end OwlGraph
