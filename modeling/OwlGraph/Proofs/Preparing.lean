import OwlGraph.Proofs.HeaderReading
import OwlGraph.Proofs.Layout

/-! What a load of a graph that is laid out does before it reads axioms. It reads the header, takes
over the declarations, and reads the annotations of the ontology. -/

namespace OwlGraph

theorem OntologyId.of_iri?_version? (id : OntologyId) : .of id.iri? id.version? = id := by
  cases id <;> rfl

theorem mem_headerTriples {ontology : Ontology} {node : Node} {triple : Triple} : triple ∈ headerTriples ontology node ↔
    triple = ⟨node, Rdf.type, Owl.Ontology⟩ ∨ (∃ iri : Iri, ontology.id.version? = some iri ∧ triple = ⟨node, Owl.versionIRI, iri⟩) ∨
      ∃ iri ∈ ontology.imports, triple = ⟨node, Owl.imports, iri⟩ := by
  simp only [headerTriples, List.mem_cons, List.mem_append, List.mem_map, Option.mem_toList, eq_comm]

theorem Entity.declaring_ne_variableTriple (entity : Entity) (iri : Iri) : entity.declaring ≠ variableTriple iri := by
  have kinds (kind : EntityKind) : (kind.type : Term) ≠ Swrl.Variable := by cases kind <;> decide
  exact fun same => kinds entity.kind (congrArg Triple.object same)

/-- The predicates of what is said about the node of an ontology. -/
theorem header_predicates : Rdf.type ≠ Owl.versionIRI ∧ Rdf.type ≠ Owl.imports ∧ Owl.versionIRI ≠ Owl.imports := by decide

/-- Different annotations are all kept. -/
theorem Ontology.foldl_annotate (notes : List Annotation) : ∀ ontology : Ontology, (ontology.annotations ++ notes).Nodup →
    notes.foldl Ontology.annotate ontology = { ontology with annotations := ontology.annotations ++ notes } := by
  induction notes with
  | nil => exact fun ontology _ => by rw [List.append_nil]; rfl
  | cons note notes ih =>
    intro ontology nodup
    have fresh : ontology.annotations.contains note = false := by
      rw [List.contains_eq_mem, decide_eq_false_iff_not]
      exact fun member => (List.nodup_append.mp nodup).2.2 note member note List.mem_cons_self rfl
    rw [List.append_cons] at nodup
    rw [List.foldl_cons, Ontology.annotate, fresh, if_neg Bool.false_ne_true, ih _ nodup, List.append_assoc]
    rfl

/-- The triple declares an entity, and it has been seen. -/
def SeenDeclaration (seen : Triple → Prop) (triple : Triple) : Prop := seen triple ∧ ∃ entity : Entity, triple = entity.declaring

namespace Load

open World

variable {world : World} {layout : Layout} {context : Context}

/-- What a translation reads is kept if it notes no repair. -/
theorem attempt_clean {α : Type} {body : Translation α} {value : α} {session after : Session}
    (run : body context session = (.ok value, after)) (clean : after.pending = #[]) :
    attempt body context session = (.ok (some value), after) := by
  rw [attempt_eq, conclude, run]
  exact Run.bind_run (flush_clean clean) _

section Header

variable (heads : world.Heads layout)

/-- What has been made of these triples of the header. -/
structure Collects (world : World) (layout : Layout) (seen : List Row) (value : OntologyId × Bool) (session : Session) : Prop where
  clear : (world.sofar fun _ => False).Clear none (fun triple => triple ∈ headerTriples layout.heading layout.header ∧
    ∃ row ∈ seen, row.triple = triple) (fun _ => False) session
  id : value.1 = .of layout.header.iri? (if value.2 then layout.heading.id.version? else none)
  version : value.2 = true ↔ ∃ row ∈ seen, row.triple.predicate = Owl.versionIRI
  imports : ∀ iri : Iri, iri ∈ session.ontology.imports ↔ ∃ row ∈ seen, row.triple = ⟨layout.header, Owl.imports, iri⟩
  produced : session.produced = ∅
  annotations : session.ontology.annotations = []

variable {seen : List Row} {value : OntologyId × Bool} {session : Session} {row : Row}

/-- A triple that is used. -/
theorem Collects.use (collects : Collects world layout seen value session) (member : row ∈ world.rows)
    (stated : row.triple ∈ headerTriples layout.heading layout.header) (present : Bool)
    (version : present = true ↔ value.2 = true ∨ row.triple.predicate = Owl.versionIRI) (ontology : Ontology)
    (index : ontology.index = session.ontology.index) (annotations : ontology.annotations = session.ontology.annotations)
    (imports : ∀ iri : Iri, iri ∈ ontology.imports ↔ iri ∈ session.ontology.imports ∨ row.triple = ⟨layout.header, Owl.imports, iri⟩) :
    Collects world layout (seen ++ [row]) (.of layout.header.iri? (if present then layout.heading.id.version? else none), present)
      { session.consume row.id with ontology } where
  clear := by
    have consumed : (world.sofar fun _ => False).Clear none _ _ (session.consume row.id) := collects.clear.consume member
    have used : (world.sofar fun _ => False).Clear none _ _ { session.consume row.id with ontology } := consumed.of_same rfl index consumed.headed
    refine used.congr (fun triple _ => ?_) fun _ => Iff.rfl
    simp only [List.mem_append, List.mem_singleton, or_and_right, exists_or, exists_eq_left]
    constructor
    · rintro (⟨header, earlier⟩ | rfl)
      · exact ⟨header, .inl earlier⟩
      · exact ⟨stated, .inr rfl⟩
    · rintro ⟨header, earlier | rfl⟩
      · exact .inl ⟨header, earlier⟩
      · exact .inr rfl
  id := rfl
  version := by simp [version, collects.version, or_and_right, exists_or, -Prod.exists]
  imports iri := by simp [imports, collects.imports, or_and_right, exists_or]
  produced := collects.produced
  annotations := annotations.trans collects.annotations

/-- A triple that is left to be read as an annotation. -/
theorem Collects.leave (collects : Collects world layout seen value session) (other : row.triple ∉ headerTriples layout.heading layout.header)
    (unversioned : row.triple.predicate ≠ Owl.versionIRI) (local_ : row.triple.predicate ≠ Owl.imports) :
    Collects world layout (seen ++ [row]) value session where
  clear := by
    refine collects.clear.congr (fun triple _ => ?_) fun _ => Iff.rfl
    simp only [List.mem_append, List.mem_singleton, or_and_right, exists_or, exists_eq_left]
    refine and_congr_right fun header => (or_iff_left ?_).symm
    rintro rfl
    exact other header
  id := collects.id
  version := by simp [collects.version, unversioned, or_and_right, exists_or]
  imports iri := by
    have apart : row.triple ≠ ⟨layout.header, Owl.imports, iri⟩ := fun same => local_ (by rw [same])
    simp [collects.imports, apart, or_and_right, exists_or]
  produced := collects.produced
  annotations := collects.annotations

include heads

/-- A triple about the node is no annotation if its predicate is one that the header has. -/
theorem mem_headerTriples_of_special {triple : Triple} (stated : triple ∈ world.graph) (own : triple.subject = layout.header)
    (special : triple.predicate ∈ [Rdf.type, Owl.versionIRI, Owl.imports]) : triple ∈ headerTriples layout.heading layout.header := by
  refine (heads.about triple stated own).resolve_right ?_
  rintro ⟨note, claimed, rfl⟩
  exact heads.plain note claimed special

/-- The version that the graph tells is the one of the heading. -/
theorem version_of_stated {triple : Triple} (stated : triple ∈ world.graph) (own : triple.subject = layout.header)
    (versioned : triple.predicate = Owl.versionIRI) : ∃ iri : Iri, layout.heading.id.version? = some iri ∧
      triple = ⟨layout.header, Owl.versionIRI, iri⟩ := by
  have listed := mem_headerTriples_of_special heads stated own (by simp [versioned])
  rcases mem_headerTriples.mp listed with same | found | ⟨_, -, same⟩
  · exact absurd ((congrArg Triple.predicate same).symm.trans versioned) header_predicates.1
  · exact found
  · exact absurd ((congrArg Triple.predicate same).symm.trans versioned) header_predicates.2.2.symm

theorem imports_iff_stated (iri : Iri) : (⟨layout.header, Owl.imports, iri⟩ : Triple) ∈ world.graph ↔ iri ∈ layout.heading.imports := by
  constructor
  · intro stated
    have listed := mem_headerTriples_of_special heads stated rfl (by simp)
    rcases mem_headerTriples.mp listed with same | ⟨_, -, same⟩ | ⟨other, imported, same⟩
    · exact absurd (congrArg Triple.predicate same).symm header_predicates.2.1
    · exact absurd (congrArg Triple.predicate same).symm header_predicates.2.2
    · cases same
      exact imported
  · exact fun imported => heads.stated _ (mem_headerTriples.mpr (.inr (.inr ⟨iri, imported, rfl⟩)))

/-- Once all triples about the node are seen the ontology has its name and its version. -/
theorem Collects.named (collects : Collects world layout seen value session) (listed : ∀ triple, (∃ row ∈ seen, row.triple = triple) ↔
    triple ∈ world.graph ∧ triple.subject = layout.header) : value.1 = layout.heading.id := by
  rw [collects.id, ← heads.named]
  cases versioned : value.2 with
  | true => exact OntologyId.of_iri?_version? _
  | false =>
    have none : layout.heading.id.version? = none := by
      refine Option.eq_none_iff_forall_ne_some.mpr fun iri same => ?_
      have member : ⟨layout.header, Owl.versionIRI, iri⟩ ∈ headerTriples layout.heading layout.header :=
        mem_headerTriples.mpr (.inr (.inl ⟨iri, same, rfl⟩))
      obtain ⟨row, inside, same⟩ := (listed _).mpr ⟨heads.stated _ member, rfl⟩
      have := collects.version.mpr ⟨row, inside, by rw [same]⟩
      rw [versioned] at this
      cases this
    have whole := OntologyId.of_iri?_version? layout.heading.id
    rw [none] at whole
    exact whole

/-- One triple of the header meets no problem, unless it is a second version. -/
theorem reaches_readHeaderTriple_laidOut (member : row ∈ world.rows) (own : row.triple.subject = layout.header)
    (first : value.2 = true → row.triple.predicate ≠ Owl.versionIRI) :
    Reaches context (Collects world layout seen value) (readHeaderTriple value row) fun result => Collects world layout (seen ++ [row]) result := by
  obtain ⟨version, imports, apart⟩ := header_predicates
  have said : row.triple ∈ world.graph := List.mem_map_of_mem member
  have place := heads.about _ said own
  obtain ⟨number, triple⟩ := row
  dsimp only at own said place first ⊢
  rcases place with stated | ⟨note, listed, rfl⟩
  · rcases mem_headerTriples.mp stated with rfl | ⟨iri, versioned, rfl⟩ | ⟨iri, imported, rfl⟩
    · rw [readHeaderTriple]
      simp only [and_self, if_true]
      refine Reaches.bind (.alter fun session collects => ?_) fun _ => .pure fun _ => id
      have used := collects.use member stated value.2 (by simp [version]) session.ontology rfl rfl (by simp [imports])
      rwa [← collects.id] at used
    · have untyped : ¬ (Owl.versionIRI = Rdf.type ∧ (iri : Term) = .resource (.named Owl.Ontology)) := fun both => version both.1.symm
      have fresh : value.2 = false := by simpa using first
      rw [readHeaderTriple]
      simp only [untyped, if_false, Term.iri?, Term.node?, Node.iri?, Option.bind_some, if_true, fresh, Bool.false_eq_true]
      refine Reaches.bind (.alter fun session collects => ?_) fun _ => .pure fun _ => id
      have used := collects.use member stated true (by simp) session.ontology rfl rfl (by simp [apart])
      have present : value.1.withVersion iri = .of layout.header.iri? layout.heading.id.version? := by
        rw [collects.id, fresh, versioned]
        cases layout.header <;> rfl
      rwa [present]
    · have untyped : ¬ (Owl.imports = Rdf.type ∧ (iri : Term) = .resource (.named Owl.Ontology)) := fun both => imports both.1.symm
      rw [readHeaderTriple]
      simp only [untyped, if_false, Term.iri?, Term.node?, Node.iri?, Option.bind_some, apart.symm, if_true]
      refine Reaches.bind (.alter fun session collects => ?_) fun _ => .pure fun _ => id
      have used := collects.use member stated value.2 (by simp [apart.symm]) (session.ontology.addImport iri)
        (Ontology.index_addImport _ _) ?_ ?_
      · rwa [← collects.id] at used
      · rw [Ontology.addImport]
        split <;> rfl
      · intro other
        rw [Ontology.addImport]
        split
        next known =>
          refine (or_iff_left_of_imp fun same => ?_).symm
          cases same
          exact List.contains_iff_mem.mp known
        next => simp [eq_comm]
  · have plain := heads.plain note listed
    simp only [List.mem_cons, List.not_mem_nil, or_false, not_or] at plain
    obtain ⟨untyped, unversioned, external⟩ := plain
    have other : note.claim layout.header ∉ headerTriples layout.heading layout.header := by
      rw [mem_headerTriples]
      rintro (same | ⟨_, -, same⟩ | ⟨_, -, same⟩)
      · exact untyped (congrArg Triple.predicate same)
      · exact unversioned (congrArg Triple.predicate same)
      · exact external (congrArg Triple.predicate same)
    have form : readHeaderTriple value ⟨number, note.claim layout.header⟩ = pure value := by
      rw [readHeaderTriple]
      simp only [ Annotation.claim, untyped, unversioned, external, false_and, if_false]
      split <;> rfl
    rw [form]
    exact .pure fun session collects => collects.leave other unversioned external

/-- The triples of the header, one after the other. A second version would be the same triple again. -/
theorem reaches_readHeaderTriples_laidOut (rows : List Row) : ∀ (seen : List Row) (value : OntologyId × Bool),
    (∀ row ∈ seen ++ rows, row ∈ world.rows ∧ row.triple.subject = layout.header) → ((seen ++ rows).map Row.triple).Nodup →
    Reaches context (Collects world layout seen value) (rows.foldlM readHeaderTriple value) fun result =>
      Collects world layout (seen ++ rows) result := by
  induction rows with
  | nil =>
    intro seen value _ _
    rw [List.append_nil]
    exact .pure fun _ => id
  | cons row rows ih =>
    intro seen value present nodup
    obtain ⟨member, own⟩ := present row (by simp)
    have version : ∀ other ∈ seen ++ row :: rows, other.triple.predicate = Owl.versionIRI →
        ∃ iri : Iri, layout.heading.id.version? = some iri ∧ other.triple = ⟨layout.header, Owl.versionIRI, iri⟩ := by
      intro other inside versioned
      obtain ⟨listed, about⟩ := present other inside
      exact version_of_stated heads (List.mem_map_of_mem listed) about versioned
    have step : Reaches context (Collects world layout seen value) (readHeaderTriple value row) fun result =>
        Collects world layout (seen ++ [row]) result := by
      intro session collects
      refine reaches_readHeaderTriple_laidOut heads member own (fun versioned again => ?_) session collects
      obtain ⟨other, inside, before⟩ := collects.version.mp versioned
      obtain ⟨iri, one, same⟩ := version row (by simp) again
      obtain ⟨iri', two, same'⟩ := version other (List.mem_append_left _ inside) before
      obtain rfl := Option.some.inj (one.symm.trans two)
      rw [List.map_append, List.map_cons, List.nodup_append] at nodup
      exact nodup.2.2 _ (List.mem_map_of_mem inside) _ List.mem_cons_self (same'.trans same.symm)
    rw [List.foldlM_cons]
    refine step.bind fun result => ?_
    rw [List.append_cons seen row rows] at present nodup ⊢
    exact ih (seen ++ [row]) result present nodup

/-- The triples that are used when these types were seen. -/
def Seen (layout : Layout) (seen : Triple → Prop) (triple : Triple) : Prop :=
  triple ∈ headerTriples layout.heading layout.header ∨ ∃ iri, triple = variableTriple iri ∧ seen triple

omit heads in
theorem ontologyNodes_laidOut (heads : world.Heads layout) {session : Session} {seen : Triple → Prop} (holds : (world.sofar seen).Holds session) :
    session.ontologyNodes = [layout.header] := by
  refine List.perm_singleton.mp ((List.perm_ext_iff_of_nodup (Canonical.nodup_eraseDups _) (List.nodup_singleton _)).mpr fun node => ?_)
  have stored : session.store.liveRows.map Row.triple = world.graph := congrArg (List.map Row.triple) holds.rows
  refine (Session.mem_ontologyNodes holds.indexed).trans ?_
  rw [stored, List.mem_singleton]
  constructor
  · exact heads.sole node
  · rintro rfl
    exact heads.stated _ (mem_headerTriples.mpr (.inl rfl))

theorem reaches_readHeader_laidOut : Reaches context (Collects world layout [] (.of layout.header.iri? none, false)) readHeader fun _ =>
    (world.sofar fun _ => False).Progress layout (Seen layout fun _ => False) [] (fun _ => False) fun _ => False := by
  intro session collects
  have nodes : session.ontologyNodes = [layout.header] := ontologyNodes_laidOut heads collects.clear.holds
  have found : session.headerNode? = some layout.header := by
    rw [Session.headerNode?, nodes]
    cases other : session.isImported layout.header <;> simp [other]
  have alone : (session.ontologyNodes.filter fun node => node != layout.header) = [] := by simp [nodes]
  have rows : session.store.withSubject layout.header = world.rows.filter fun row => row.triple.subject == layout.header :=
    collects.clear.holds.withSubject layout.header
  have present : ∀ row ∈ [] ++ session.store.withSubject layout.header, row ∈ world.rows ∧ row.triple.subject = layout.header := by
    simp [rows]
  have distinct : (([] ++ session.store.withSubject layout.header).map Row.triple).Nodup := by
    rw [List.nil_append, rows]
    exact collects.clear.holds.nodup_filter _
  have fold : Reaches context _ _ _ := reaches_readHeaderTriples_laidOut heads _ [] (.of layout.header.iri? none, false) present distinct
  rw [readHeader_found found, alone]
  change ∃ value last, ((session.store.withSubject layout.header).foldlM readHeaderTriple (.of layout.header.iri? none, false) >>= fun value =>
    modify fun session => { session with header := some layout.header, ontology := { session.ontology with id := value.1 } } : Load Unit)
      context session = (.ok value, last) ∧ _
  refine Reaches.bind fold (fun result => .alter fun after collects => ?_) session collects
  have listed (triple : Triple) : (∃ row ∈ [] ++ session.store.withSubject layout.header, row.triple = triple) ↔
      triple ∈ world.graph ∧ triple.subject = layout.header := by
    simp only [List.nil_append, rows, List.mem_filter, beq_iff_eq, World.graph, List.mem_map, and_assoc]
    constructor
    · rintro ⟨row, member, own, rfl⟩
      exact ⟨⟨row, member, rfl⟩, own⟩
    · rintro ⟨⟨row, member, rfl⟩, own⟩
      exact ⟨row, member, own, rfl⟩
  have named : (world.sofar fun _ => False).Clear (some layout.header) _ _
      { after with header := some layout.header, ontology := { after.ontology with id := result.1 } } := collects.clear.of_same rfl rfl rfl
  refine ⟨named.congr (fun triple member => ?_) fun fact => by simp [Layout.Tells], fun row _ fact => ?_,
    ?_, fun iri => ?_, collects.annotations⟩
  · rw [listed]
    simp only [Layout.Used, Seen, false_and, and_false, exists_false, or_false]
    exact ⟨And.left, fun stated => ⟨stated, member, subject_headerTriples triple stated⟩⟩
  · simp [collects.produced]
  · exact collects.named heads listed
  · change iri ∈ after.ontology.imports ↔ _
    rw [collects.imports, listed, imports_iff_stated heads, and_iff_left rfl]

end Header

section Declarations

/-- What has been made of the header and of these triples that give types. -/
def Knows (world : World) (layout : Layout) (seen : Triple → Prop) (session : Session) : Prop :=
  (world.sofar seen).Progress layout (Seen layout seen) [] (SeenDeclaration seen) (fun _ => False) session

variable {seen : Triple → Prop} {session : Session} {row : Row} {strict : Bool}

/-- A triple that declares nothing is passed over. -/
theorem Knows.pass (knows : Knows world layout seen session) {triple : Triple} (entities : ∀ entity : Entity, triple ≠ entity.declaring)
    (names : ∀ iri, triple ≠ variableTriple iri) : Knows world layout (fun other => seen other ∨ other = triple) session := by
  have name (iri : Iri) : (seen (variableTriple iri) ∨ variableTriple iri = triple) ↔ seen (variableTriple iri) :=
    or_iff_left fun same => names iri same.symm
  have entity (entity : Entity) : (seen entity.declaring ∨ entity.declaring = triple) ↔ seen entity.declaring :=
    or_iff_left fun same => entities entity same.symm
  have same : world.sofar (fun other => seen other ∨ other = triple) = world.sofar seen := by simp only [World.sofar, name, entity]
  rw [Knows, same]
  refine Progress.congr knows (fun other _ => or_congr_right (exists_congr fun iri => and_congr_right ?_)) (fun entry _ => ?_)
    fun _ _ => Iff.rfl
  · rintro rfl
    exact (name iri).symm
  · refine ⟨fun ⟨before, one⟩ => ⟨.inl before, one⟩, ?_⟩
    rintro ⟨before | same, other, one⟩
    · exact ⟨before, other, one⟩
    · exact absurd (same.symm.trans one) (entities other)

theorem Knows.learn (knows : Knows world layout seen session) {iri : Iri} {kind : EntityKind} (allowed : world.known ⟨kind, iri⟩) :
    Knows world layout seen (session.learn iri kind) :=
  Progress.step knows (learn_step knows.clear.holds allowed)

theorem Knows.variable_ (knows : Knows world layout seen session) (member : row ∈ world.rows) {iri : Iri} (names : row.triple = variableTriple iri) :
    Knows world layout (fun other => seen other ∨ other = row.triple)
      { session.consume row.id with ruleVariables := session.ruleVariables.insert iri } := by
  have step := consume_step knows.clear.holds member
  have used : (world.sofar seen).Progress layout (Seen layout fun other => seen other ∨ other = row.triple) [] (SeenDeclaration seen)
      (fun _ => False) (session.consume row.id) := by
    refine ⟨(knows.clear.step step).congr (fun triple _ => ?_) fun _ => Iff.rfl, knows.produced, knows.id, knows.imports, knows.annotations⟩
    rw [List.mem_singleton]
    constructor
    · rintro (((header | ⟨other, rfl, before⟩) | later) | rfl)
      · exact .inl (.inl header)
      · exact .inl (.inr ⟨other, rfl, .inl before⟩)
      · exact .inr later
      · exact .inl (.inr ⟨iri, names, .inr rfl⟩)
    · rintro ((header | ⟨other, rfl, before | own⟩) | later)
      · exact .inl (.inl (.inl header))
      · exact .inl (.inl (.inr ⟨other, rfl, before⟩))
      · exact .inr own
      · exact .inl (.inr later)
  have told : (world.sofar fun other => seen other ∨ other = row.triple).Progress layout _ _ _ _
      { session.consume row.id with ruleVariables := session.ruleVariables.insert iri } :=
    used.retold (session.ruleVariables.insert iri) (fun other => ?_) fun entity tells => ?_
  · refine told.congr (fun _ _ => Iff.rfl) (fun other _ => ?_) fun _ _ => Iff.rfl
    refine and_congr_left ?_
    rintro ⟨entity, one⟩
    exact (or_iff_left fun own => entity.declaring_ne_variableTriple iri (one.symm.trans (own.trans names))).symm
  · rw [Std.HashSet.contains_insert, Bool.or_eq_true, beq_iff_eq, or_comm, names]
    exact or_congr (knows.clear.holds.ruleVariables other) ⟨fun same => same ▸ rfl, fun same => (by simpa [variableTriple] using same : other = iri).symm⟩
  · rcases tells with builtin | before | own
    · exact knows.clear.holds.told entity (.inl builtin)
    · exact knows.clear.holds.told entity (.inr before)
    · exact absurd (own.trans names) (entity.declaring_ne_variableTriple iri)

theorem Knows.entity (declares : world.Declares layout) (knows : Knows world layout seen session) (member : row ∈ world.rows) {entity : Entity}
    (same : row.triple = entity.declaring) : Knows world layout (fun other => seen other ∨ other = row.triple)
      (((session.learn entity.iri entity.kind).consume row.id).commit row.id (.of (.declaration entity) [])) := by
  obtain ⟨-, known, entry, listed, main⟩ := declares.declared entity (same ▸ List.mem_map_of_mem member)
  have read (other : Entry) (inside : other ∈ layout.entries) (of : other.main = entity.declaring) :
      other.stage = .early ∧ other.block = [] ∧ other.fact = .of (.declaration entity) [] := by
    have early : other.stage = .early := by
      by_contra later
      exact declares.later other inside later entity of
    obtain ⟨empty, same, declaring, fact⟩ := declares.early other inside early
    obtain rfl := Entity.declaring_inj (of.symm.trans declaring)
    exact ⟨early, empty, fact⟩
  obtain ⟨early, empty, fact⟩ := read entry listed main
  have step := learn_step knows.clear.holds known
  have committed := Progress.commit knows member listed (same.trans main.symm) (by simp [early]) (empty ▸ step)
    fun other inside of => by
      obtain ⟨-, none, alike⟩ := read other inside (of.trans main)
      exact ⟨alike.trans fact.symm, by simp [none]⟩
  rw [fact] at committed
  have told : (world.sofar fun other => seen other ∨ other = row.triple).Progress layout _ [] _ (fun _ => False) _ :=
    Progress.retold committed (session.learn entity.iri entity.kind).ruleVariables (fun iri => ?_) fun other tells => ?_
  · refine told.congr (fun triple _ => or_congr_right (exists_congr fun iri => and_congr_right ?_)) (fun other _ => ?_) fun _ _ => Iff.rfl
    · rintro rfl
      exact (or_iff_left fun variable_ => entity.declaring_ne_variableTriple iri (same.symm.trans variable_.symm)).symm
    · rw [SeenDeclaration, SeenDeclaration, or_and_right]
      exact or_congr_right (iff_self_and.mpr fun own => ⟨entity, own.trans same⟩)
  · refine (step.holds.ruleVariables iri).trans (or_iff_left ?_).symm
    exact fun variable_ => entity.declaring_ne_variableTriple iri (same.symm.trans variable_.symm)
  · change (session.learn entity.iri entity.kind).hasKind other.iri other.kind = true
    rcases tells with builtin | before | own
    · exact step.holds.told other (.inl builtin)
    · exact step.holds.told other (.inr before)
    · obtain rfl := Entity.declaring_inj (own.trans same)
      rw [Session.hasKind, Session.contains_learn.mpr (.inr rfl), Bool.or_true]

/-- One triple that gives a type. -/
theorem Knows.declare (declares : world.Declares layout) (knows : Knows world layout seen session) (member : row ∈ world.rows)
    (typed : row.triple.predicate = Rdf.type) :
    Knows world layout (fun other => seen other ∨ other = row.triple) (session.declare strict row) := by
  have said : row.triple ∈ world.graph := List.mem_map_of_mem member
  rw [Session.declare]
  split
  · next iri type subject object =>
    have triple : row.triple = ⟨iri, Rdf.type, type⟩ := by
      rw [← Node.iri?_eq_some.mp subject, ← Term.iri?_eq_some.mp object, ← typed]
    split
    · next kind declared =>
      obtain rfl := EntityKind.type_of_ofType? declared
      have own : row.triple = (⟨kind, iri⟩ : Entity).declaring := triple
      have ordinary : kind.isBuiltin iri = false := (declares.declared ⟨kind, iri⟩ (own ▸ said)).1
      dsimp only
      rw [ordinary, if_neg Bool.false_ne_true]
      have read := knows.entity declares member own
      exact read
    · next undeclared =>
      have entities (entity : Entity) : row.triple ≠ entity.declaring := by
        intro same
        have types : type = entity.kind.type := Node.named.inj (Term.resource.inj (congrArg Triple.object (triple.symm.trans same)))
        rw [types, EntityKind.ofType?_type] at undeclared
        cases undeclared
      split
      · next name =>
        have own : row.triple = variableTriple iri := by rw [triple, name, variableTriple]
        exact knows.variable_ member own
      · next other =>
        have names (name : Iri) : row.triple ≠ variableTriple name := fun same =>
          other (Node.named.inj (Term.resource.inj (congrArg Triple.object (triple.symm.trans same))))
        split
        · next trait => exact (knows.learn (declares.implied iri type (triple ▸ said) trait)).pass entities names
        · split
          · next cls => exact absurd (cls.1 ▸ triple ▸ said) (declares.plain iri)
          · exact knows.pass entities names
  · next other =>
    refine knows.pass (fun entity same => ?_) fun iri same => ?_
    · exact other entity.iri entity.kind.type (by rw [same]; rfl) (by rw [same]; rfl)
    · exact other iri Swrl.Variable (by rw [same]; rfl) (by rw [same]; rfl)

theorem Knows.readDeclarations (declares : world.Declares layout) (rows : List Row)
    (typed : ∀ row ∈ rows, row ∈ world.rows ∧ row.triple.predicate = Rdf.type) : ∀ (seen : Triple → Prop) (session : Session),
    Knows world layout seen session →
      Knows world layout (fun other => seen other ∨ ∃ row ∈ rows, other = row.triple) (rows.foldl (Session.declare strict) session) := by
  induction rows with
  | nil =>
    intro seen session knows
    simpa using knows
  | cons row rows ih =>
    intro seen session knows
    obtain ⟨⟨member, type⟩, others⟩ := List.forall_mem_cons.mp typed
    have rest := ih others _ (session.declare strict row) (knows.declare declares member type)
    simpa only [List.foldl_cons, List.mem_cons, exists_eq_or_imp, or_assoc] using rest

/-- Every triple that gives a type is seen, unless the header is about it. -/
theorem readDeclarations_laidOut (declares : world.Declares layout) (states : world.States layout)
    (knows : Knows world layout (fun _ => False) session) : world.Progress layout layout.Base []
      (fun triple => ∃ entity : Entity, triple = entity.declaring) (fun _ => False) (session.readDeclarations strict) := by
  have used (row : Row) (member : row ∈ world.rows) : session.store.isConsumed row.id = true ↔ 
      row.triple ∈ headerTriples layout.heading layout.header := by
    rw [knows.clear.used row member]
    simp [Layout.Used, Seen, SeenDeclaration]
  have listed (row : Row) : row ∈ session.unused (session.store.withPredicate Rdf.type) ↔
      row ∈ world.rows ∧ row.triple.predicate = Rdf.type ∧ row.triple ∉ headerTriples layout.heading layout.header := by
    have rows : session.store.liveRows = world.rows := knows.clear.holds.rows
    rw [Session.unused, List.mem_filter, knows.clear.holds.indexed.withPredicate, rows, List.mem_filter, beq_iff_eq, Bool.not_eq_true', and_assoc]
    exact and_congr_right fun member => and_congr_right fun _ => by rw [← used row member, Bool.not_eq_true]
  have read : Knows world layout _ (session.readDeclarations strict) :=
    Knows.readDeclarations declares (session.unused (session.store.withPredicate Rdf.type)) (fun row member =>
      ⟨((listed row).mp member).1, ((listed row).mp member).2.1⟩) _ session knows
  have seen (triple : Triple) (typed : triple.predicate = Rdf.type) (other : triple.object ≠ .resource (.named Owl.Ontology)) :
      (False ∨ ∃ row ∈ session.unused (session.store.withPredicate Rdf.type), triple = row.triple) ↔ triple ∈ world.graph := by
    rw [false_or]
    constructor
    · rintro ⟨row, member, rfl⟩
      exact List.mem_map_of_mem ((listed row).mp member).1
    · intro said
      obtain ⟨row, member, rfl⟩ := List.mem_map.mp said
      refine ⟨row, (listed row).mpr ⟨member, typed, fun header => ?_⟩, rfl⟩
      rcases mem_headerTriples.mp header with same | ⟨_, -, same⟩ | ⟨_, -, same⟩
      · exact other (congrArg Triple.object same)
      · exact header_predicates.1 (typed.symm.trans (congrArg Triple.predicate same))
      · exact header_predicates.2.1 (typed.symm.trans (congrArg Triple.predicate same))
  have name (iri : Iri) := seen (variableTriple iri) rfl (fun same => absurd (Node.named.inj (Term.resource.inj same)) (by decide))
  have entity (entity : Entity) := seen entity.declaring rfl fun same => by
    have kinds (kind : EntityKind) : (kind.type : Term) ≠ .resource (.named Owl.Ontology) := by cases kind <;> decide
    exact kinds entity.kind same
  have told : world.Progress layout _ [] _ (fun _ => False) (session.readDeclarations strict) :=
    Progress.retold read (session.readDeclarations strict).ruleVariables (fun iri => ?_) fun other tells => ?_
  · refine told.congr (fun triple said => or_congr_right (exists_congr fun iri => ?_)) (fun entry listed => ?_) fun _ _ => Iff.rfl
    · exact and_iff_left_of_imp fun same => same ▸ (name iri).mpr (same ▸ said)
    · refine and_iff_right_of_imp ?_
      rintro ⟨other, same⟩
      rw [same]
      exact (entity other).mpr (same ▸ (states.mains entry listed).1)
  · exact (read.clear.holds.ruleVariables iri).trans ((name iri).trans (declares.isVariable iri).symm)
  · exact read.clear.holds.told other ((declares.told other tells).imp_right (entity other).mpr)

end Declarations

section Notes

/-- The annotations of the ontology are read. -/
theorem reaches_readHeaderAnnotations_laidOut (settled : world.Settled) (heads : world.Heads layout) (apart : layout.Apart)
    {done : Triple → Prop} : Reaches world.context (world.Progress layout layout.Base [] done fun _ => False) readHeaderAnnotations
      fun _ session => ∃ read, world.SameNotes layout.heading.annotations read ∧
        world.Progress layout (fun triple => layout.Base triple ∨ triple ∈ layout.group) read done (fun _ => False) session := by
  intro session progress
  have clear := progress.clear
  have unused : world.Unused session layout.group := by
    intro row member inside
    rw [Bool.eq_false_iff, ne_eq, clear.used row member]
    rintro (base | ⟨entry, listed, -, main | within⟩ | ⟨_, _, ⟨⟩, _⟩)
    · exact (apart.own _ .group _ inside).1 base
    · exact (apart.own _ .group _ inside).2 entry listed main
    · exact (apart.group _ inside).1 entry listed within
  have left : world.Left session layout.header layout.heading.annotations := by
    intro row member own free
    refine .inr ((heads.about _ (List.mem_map_of_mem member) own).resolve_left fun header => ?_)
    rw [(clear.used row member).mpr (.inl (.inl header))] at free
    cases free
  obtain ⟨read, after, run, same, step⟩ := FindsAt.annotationsOn settled heads.described heads.subset heads.annotates clear.holds unused left
    (by simp [clear.idle])
  have silent : after.pending = #[] := by rw [step.same]; exact clear.settled
  have found := attempt_clean run silent
  have none : after.ontology.annotations = [] := by rw [step.same]; exact progress.annotations
  have kept := Ontology.foldl_annotate read after.ontology (by rw [none]; exact heads.nodup read same)
  refine ⟨(), { after with ontology := read.foldl Ontology.annotate after.ontology }, ?_, read, same, ?_⟩
  · rw [readHeaderAnnotations, Run.get_bind, clear.headed]
    exact Run.bind_run found _
  · rw [kept, none, List.nil_append]
    have noted : world.Clear (some layout.header) _ _ { after with ontology := { after.ontology with annotations := read } } :=
      (clear.step step).of_same rfl rfl (clear.step step).headed
    refine ⟨noted.congr (fun triple _ => ?_) fun _ => Iff.rfl, ?_, ?_, ?_, rfl⟩
    · simp only [Layout.Used]
      grind
    · rw [step.same]; exact progress.produced
    · rw [step.same]; exact progress.id
    · rw [step.same]; exact progress.imports

/-- Before any axiom is read the header, the declarations and the annotations of the ontology are. -/
theorem reaches_prepare_laidOut (settled : world.Settled) (heads : world.Heads layout) (declares : world.Declares layout)
    (states : world.States layout) (apart : layout.Apart) :
    Reaches world.context (Collects world layout [] (.of layout.header.iri? none, false)) prepare fun _ session =>
      ∃ read, world.SameNotes layout.heading.annotations read ∧
        world.Progress layout (fun triple => layout.Base triple ∨ triple ∈ layout.group) read
          (fun triple => ∃ entity : Entity, triple = entity.declaring) (fun _ => False) session := by
  refine (reaches_readHeader_laidOut heads).bind fun _ session progress => ?_
  have knows : Knows world layout (fun _ => False) session := progress.congr (fun _ _ => Iff.rfl) (by simp [SeenDeclaration]) fun _ _ => Iff.rfl
  exact reaches_readHeaderAnnotations_laidOut settled heads apart _ (readDeclarations_laidOut declares states knows)

end Notes

end Load

end OwlGraph
