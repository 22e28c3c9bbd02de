import OwlGraph.Proofs.CanonicalOrder
import OwlGraph.Proofs.LastingHeader
import OwlGraph.Proofs.RegularSessions

/-! What a load makes of the header. One of the nodes typed as an ontology stands for it, one that
nothing imports if there is such a node, and the others are reported. Its imports are all kept. The
first of its versions counts and the others are reported; but only an ontology with an IRI has a
version, so the first version of a blank node is lost without a report. -/

namespace OwlGraph

/-- The IRI that the triple gives the node for a value of the property. -/
def Triple.value? (node : Node) (predicate : Iri) (triple : Triple) : Option Iri :=
  if triple.subject = node ∧ triple.predicate = predicate then triple.object.iri? else none

/-- The IRIs that are values of the property for the node, in the order of their first occurrences. -/
def valuesOf (triples : List Triple) (node : Node) (predicate : Iri) : List Iri :=
  (triples.filterMap (Triple.value? node predicate)).eraseDups

section Values

variable {triple : Triple} {node : Node} {predicate : Iri}

theorem Triple.value?_eq_some {iri : Iri} : triple.value? node predicate = some iri ↔ triple = ⟨node, predicate, iri⟩ := by
  obtain ⟨subject, property, object⟩ := triple
  rw [value?, Option.ite_none_right_eq_some, Term.iri?_eq_some, and_assoc, mk.injEq]

theorem filterMap_eraseDups {α β : Type} [DecidableEq α] [DecidableEq β] {f : α → Option β}
    (alike : ∀ a b c, f a = some c → f b = some c → a = b) (items : List α) :
    items.eraseDups.filterMap f = (items.filterMap f).eraseDups := by
  induction items using List.reverseRecOn with
  | nil => rfl
  | append_singleton items item ih =>
    rw [Canonical.eraseDups_concat, List.filterMap_append]
    cases found : f item with
    | none =>
      have none : List.filterMap f [item] = [] := by simp [found]
      rw [none, List.append_nil, ← ih]
      split
      · rfl
      · rw [List.filterMap_append, none, List.append_nil]
    | some value =>
      have one : List.filterMap f [item] = [value] := by simp [found]
      have listed : value ∈ items.filterMap f ↔ item ∈ items := by
        rw [List.mem_filterMap]
        constructor
        · rintro ⟨other, member, same⟩
          exact alike other item value same found ▸ member
        · exact fun member => ⟨item, member, found⟩
      rw [one, Canonical.eraseDups_concat, apply_ite (List.filterMap f), List.filterMap_append, one, ih]
      simp only [listed]

/-- The values that distinct triples give are distinct. -/
theorem filterMap_value? (triples : List Triple) (node : Node) (predicate : Iri) :
    triples.eraseDups.filterMap (Triple.value? node predicate) = valuesOf triples node predicate := by
  apply filterMap_eraseDups
  intro first second value left right
  rw [Triple.value?_eq_some.mp left, Triple.value?_eq_some.mp right]

end Values

namespace TripleStore

theorem ofTriples_eraseDups (triples : List Triple) : ofTriples triples.eraseDups = ofTriples triples := by
  induction triples using List.reverseRecOn with
  | nil => rfl
  | append_singleton triples triple ih =>
    rw [Canonical.eraseDups_concat, ofTriples_concat]
    split
    · next present => rw [ih, insert_present (indexed_ofTriples triples) ((mem_rows_ofTriples triples triple).mpr present)]
    · rw [ofTriples_concat, ih]

/-- The store lists every triple once, in the order of the first occurrences. -/
theorem triples_ofTriples (triples : List Triple) : (ofTriples triples).liveRows.map Row.triple = triples.eraseDups := by
  rw [← ofTriples_eraseDups]
  exact liveRows_ofTriples (Canonical.nodup_eraseDups triples)

end TripleStore

/-- What is made of the triples about the node that stands for the ontology. -/
structure ReadsHeader (triples : List Triple) (node : Node) (ontology : Ontology) (reports : List Report) : Prop where
  typed : ⟨node, Rdf.type, Owl.Ontology⟩ ∈ triples
  /-- Nothing imports the node, unless every node typed as an ontology is imported. -/
  leading : ∀ other, ⟨other, Rdf.type, Owl.Ontology⟩ ∈ triples → (∀ importer, ⟨importer, Owl.imports, other⟩ ∉ triples) →
    ∀ importer, ⟨importer, Owl.imports, node⟩ ∉ triples
  id : ontology.id = .of node.iri? (valuesOf triples node Owl.versionIRI).head?
  imports : ontology.imports = valuesOf triples node Owl.imports
  versions : ∀ version ∈ (valuesOf triples node Owl.versionIRI).tail,
    ∃ report ∈ reports, ⟨node, Owl.versionIRI, version⟩ ∈ report.triples
  others : ∀ other, ⟨other, Rdf.type, Owl.Ontology⟩ ∈ triples → other ≠ node →
    ∃ report ∈ reports, report.problem.subject? = some (.resource other)

theorem ReadsHeader.mono {triples : List Triple} {node : Node} {ontology other : Ontology} {reports more : List Report}
    (reads : ReadsHeader triples node ontology reports) (id : other.id = ontology.id) (imports : other.imports = ontology.imports)
    (kept : ∀ report ∈ reports, report ∈ more) : ReadsHeader triples node other more where
  typed := reads.typed
  leading := reads.leading
  id := id.trans reads.id
  imports := imports.trans reads.imports
  versions version member := by
    obtain ⟨report, told, names⟩ := reads.versions version member
    exact ⟨report, kept report told, names⟩
  others node typed apart := by
    obtain ⟨report, told, names⟩ := reads.others node typed apart
    exact ⟨report, kept report told, names⟩

namespace Load

/-- What has been made of the triples of the node that were read so far, if these are the versions and
the imports that they give: the first version counts and the others are reported. -/
structure Collected (node : Node) (first : Session) (versions imports : List Iri) (value : OntologyId × Bool) (session : Session) :
    Prop where
  id : value.1 = .of node.iri? versions.head?
  versioned : value.2 = !versions.isEmpty
  imports : session.ontology.imports = imports.eraseDups
  reports : ∀ report ∈ first.reports, report ∈ session.reports
  told : ∀ version ∈ versions.tail, ∃ report ∈ session.reports, ⟨node, Owl.versionIRI, version⟩ ∈ report.triples

namespace Collected

variable {node : Node} {first session : Session} {versions imports : List Iri} {value : OntologyId × Bool} {iri : Iri}

theorem consume (collected : Collected node first versions imports value session) (id : TripleId) :
    Collected node first versions imports value (session.consume id) :=
  ⟨collected.id, collected.versioned, collected.imports, collected.reports, collected.told⟩

theorem addImport (collected : Collected node first versions imports value session) (iri : Iri) :
    Collected node first versions (imports ++ [iri]) value { session with ontology := session.ontology.addImport iri } := by
  refine ⟨collected.id, collected.versioned, ?_, collected.reports, collected.told⟩
  have listed : session.ontology.imports.contains iri = true ↔ iri ∈ imports := by
    rw [collected.imports, List.contains_iff_mem, List.mem_eraseDups]
  rw [Canonical.eraseDups_concat, ← collected.imports]
  dsimp only [Ontology.addImport]
  simp only [listed]
  split <;> rfl

theorem setVersion (collected : Collected node first versions imports value session) (unversioned : value.2 = false) (iri : Iri) :
    Collected node first (versions ++ [iri]) imports (value.1.withVersion iri, true) session := by
  have none : versions = [] := by
    have empty := collected.versioned.symm.trans unversioned
    rwa [Bool.not_eq_false', List.isEmpty_iff] at empty
  have id := collected.id
  subst none
  refine ⟨?_, rfl, collected.imports, collected.reports, List.forall_mem_nil _⟩
  rw [id]
  cases node <;> rfl

/-- A version that does not count is reported. -/
theorem reject (collected : Collected node first versions imports value session) (versioned : value.2 = true) {reports : Array Report}
    (kept : ∀ report ∈ session.reports, report ∈ reports)
    (told : ∃ report ∈ reports, ⟨node, Owl.versionIRI, iri⟩ ∈ report.triples) :
    Collected node first (versions ++ [iri]) imports value { session with reports } := by
  have some : versions ≠ [] := by
    rintro rfl
    exact Bool.false_ne_true (collected.versioned.symm.trans versioned)
  refine ⟨?_, ?_, collected.imports, fun report member => kept report (collected.reports report member), ?_⟩
  · rw [List.head?_append_of_ne_nil _ some, collected.id]
  · simp [versioned]
  · rw [List.tail_append_of_ne_nil some, List.forall_mem_append]
    refine ⟨fun version member => ?_, List.forall_mem_singleton.mpr told⟩
    obtain ⟨report, known, names⟩ := collected.told version member
    exact ⟨report, kept report known, names⟩

end Collected

variable {context : Context} {node : Node} {first : Session} (mode : context.config.strict = false)
include mode

/-- One triple of the node gives a version, an import or neither. -/
theorem reaches_readHeaderTriple {versions imports : List Iri} (value : OntologyId × Bool) {row : Row} (own : row.triple.subject = node) :
    Reaches context (Collected node first versions imports value) (readHeaderTriple value row)
      (Collected node first (versions ++ (row.triple.value? node Owl.versionIRI).toList)
        (imports ++ (row.triple.value? node Owl.imports).toList)) := by
  obtain ⟨number, subject, predicate, object⟩ := row
  subst own
  have values (property : Iri) : Triple.value? subject property ⟨subject, predicate, object⟩ =
      if predicate = property then object.iri? else none := by simp [Triple.value?]
  have apart : Rdf.type ≠ Owl.versionIRI ∧ Rdf.type ≠ Owl.imports ∧ Owl.versionIRI ≠ Owl.imports := by decide
  unfold readHeaderTriple
  dsimp only
  rw [values, values]
  split
  case isTrue header =>
    rw [header.1, if_neg apart.1, if_neg apart.2.1, Option.toList_none, List.append_nil, List.append_nil]
    exact Reaches.bind (.alter fun _ collected => collected.consume number) fun _ => .pure fun _ => id
  case isFalse =>
    split
    next unnamed =>
      simp only [unnamed, ite_self, Option.toList_none, List.append_nil]
      exact .pure fun _ => id
    next iri named =>
      rw [named]
      split
      case isTrue version =>
        subst version
        rw [if_neg apart.2.2, Option.toList_some, Option.toList_none, List.append_nil]
        split
        next versioned =>
          have rejected : Reaches context (Collected subject first versions imports value)
              (report (.severalVersions ⟨subject, Owl.versionIRI, object⟩ iri) none)
              fun _ => Collected subject first (versions ++ [iri]) imports value := by
            refine reaches_report mode _ none fun session reports collected kept ⟨report, told, same, _⟩ => ?_
            refine collected.reject versioned kept ⟨report, told, ?_⟩
            rw [Report.triples, same, Term.iri?_eq_some.mp named]
            exact List.mem_append_left _ (List.mem_singleton_self _)
          exact rejected.bind fun _ => Reaches.bind (.alter fun _ collected => collected.consume number) fun _ => .pure fun _ => id
        next unversioned =>
          refine Reaches.bind (.alter fun session collected => ?_) fun _ => .pure fun _ => id
          exact (collected.setVersion (Bool.eq_false_iff.mpr unversioned) iri).consume number
      case isFalse other =>
        rw [Option.toList_none, List.append_nil]
        split
        case isTrue imported =>
          rw [Option.toList_some]
          exact Reaches.bind (.alter fun _ collected => (collected.consume number).addImport iri) fun _ => .pure fun _ => id
        case isFalse neither =>
          rw [Option.toList_none, List.append_nil]
          exact .pure fun _ => id

/-- The triples of the node give the versions and the imports, in their order. -/
theorem reaches_readHeaderTriples (rows : List Row) : (∀ row ∈ rows, row.triple.subject = node) →
    ∀ (versions imports : List Iri) (value : OntologyId × Bool),
      Reaches context (Collected node first versions imports value) (rows.foldlM readHeaderTriple value)
        (Collected node first (versions ++ (rows.map Row.triple).filterMap (Triple.value? node Owl.versionIRI))
          (imports ++ (rows.map Row.triple).filterMap (Triple.value? node Owl.imports))) := by
  induction rows with
  | nil =>
    intro _ versions imports value
    rw [List.map_nil, List.filterMap_nil, List.filterMap_nil, List.append_nil, List.append_nil]
    exact .pure fun _ => id
  | cons row rows ih =>
    intro own versions imports value
    obtain ⟨here, later⟩ := List.forall_mem_cons.mp own
    have split (property : Iri) : ((row :: rows).map Row.triple).filterMap (Triple.value? node property) =
        (row.triple.value? node property).toList ++ (rows.map Row.triple).filterMap (Triple.value? node property) := by
      rw [List.map_cons, List.filterMap_cons]
      cases row.triple.value? node property <;> rfl
    rw [split, split, ← List.append_assoc, ← List.append_assoc]
    exact (reaches_readHeaderTriple mode value here).bind fun found => ih later _ _ found

end Load

namespace Session

variable {session : Session} {node : Node}

theorem mem_ontologyNodes (indexed : session.store.Indexed) : node ∈ session.ontologyNodes ↔
    ⟨node, Rdf.type, Owl.Ontology⟩ ∈ session.store.liveRows.map Row.triple := by
  rw [ontologyNodes, List.mem_eraseDups, List.mem_filterMap, indexed.withPredicate, List.mem_map]
  constructor
  · rintro ⟨⟨id, subject, predicate, object⟩, member, same⟩
    rw [List.mem_filter, beq_iff_eq] at member
    obtain ⟨live, rfl⟩ := member
    obtain ⟨rfl, rfl⟩ := Option.ite_none_right_eq_some.mp same |>.imp_right Option.some.inj
    exact ⟨_, live, rfl⟩
  · rintro ⟨row, live, same⟩
    refine ⟨row, List.mem_filter.mpr ⟨live, ?_⟩, ?_⟩
    · rw [same]
      exact beq_self_eq_true _
    · rw [same]
      exact if_pos rfl

theorem isImported_iff (indexed : session.store.Indexed) : session.isImported node = true ↔
    ∃ importer, ⟨importer, Owl.imports, node⟩ ∈ session.store.liveRows.map Row.triple := by
  rw [isImported, List.any_eq_true, indexed.withObject]
  constructor
  · rintro ⟨⟨id, importer, predicate, object⟩, member, importing⟩
    rw [List.mem_filter, beq_iff_eq] at member
    obtain ⟨live, rfl⟩ := member
    obtain rfl := eq_of_beq importing
    exact ⟨importer, List.mem_map_of_mem (f := Row.triple) live⟩
  · rintro ⟨importer, member⟩
    obtain ⟨row, live, same⟩ := List.mem_map.mp member
    refine ⟨row, List.mem_filter.mpr ⟨live, ?_⟩, ?_⟩ <;>
    · rw [same]
      exact beq_self_eq_true _

/-- The node is typed as an ontology, and not imported unless all such nodes are. -/
theorem headerNode?_spec (found : session.headerNode? = some node) : node ∈ session.ontologyNodes ∧
    ∀ other ∈ session.ontologyNodes, session.isImported other = false → session.isImported node = false := by
  rw [headerNode?] at found
  cases free : session.ontologyNodes.find? fun node => !session.isImported node with
  | some leading =>
    rw [free] at found
    cases found
    exact ⟨List.mem_of_find?_eq_some free, fun _ _ _ => by simpa using List.find?_some free⟩
  | none =>
    rw [free] at found
    refine ⟨List.mem_of_head? found, fun other member unimported => ?_⟩
    have imported := List.find?_eq_none.mp free other member
    rw [unimported] at imported
    exact absurd rfl imported

theorem headerNode?_eq_none (none : session.headerNode? = none) : session.ontologyNodes = [] := by
  rw [headerNode?] at none
  cases free : session.ontologyNodes.find? fun node => !session.isImported node with
  | some leading =>
    rw [free] at none
    cases none
  | none =>
    rw [free] at none
    exact List.head?_eq_none_iff.mp none

end Session

namespace Load

variable {context : Context} {node : Node} {document : Option Iri} {triples : List Triple}

theorem readHeader_found {session : Session} (found : session.headerNode? = some node) : readHeader context session =
    ((session.ontologyNodes.filter (· != node)).forM (fun other => report (.severalHeaders other) none) >>= fun _ =>
      (session.store.withSubject node).foldlM readHeaderTriple (.of node.iri? none, false) >>= fun value =>
        modify fun session => { session with header := some node, ontology := { session.ontology with id := value.1 } })
      context session := by
  rw [readHeader, Run.get_bind]
  dsimp only
  rw [found]
  cases node <;> rfl

theorem exists_headed (mode : context.config.strict = false) (found : (start document triples).headerNode? = some node) :
    ∃ headed, readHeader context (start document triples) = (.ok (), headed) ∧
      ReadsHeader triples node headed.ontology headed.reports.toList := by
  let session := start document triples
  have indexed : session.store.Indexed := TripleStore.indexed_ofTriples triples
  have stored (triple : Triple) : triple ∈ session.store.liveRows.map Row.triple ↔ triple ∈ triples :=
    TripleStore.mem_rows_ofTriples triples triple
  have typed (other : Node) : other ∈ session.ontologyNodes ↔ ⟨other, Rdf.type, Owl.Ontology⟩ ∈ triples :=
    (Session.mem_ontologyNodes indexed).trans (stored _)
  have imported (other : Node) : session.isImported other = true ↔ ∃ importer, ⟨importer, Owl.imports, other⟩ ∈ triples :=
    (Session.isImported_iff indexed).trans (exists_congr fun importer => stored _)
  have own : ∀ row ∈ session.store.withSubject node, row.triple.subject = node := by
    intro row member
    rw [indexed.withSubject] at member
    exact eq_of_beq (List.mem_filter.mp member).2
  have values (property : Iri) : ((session.store.withSubject node).map Row.triple).filterMap (Triple.value? node property) =
      valuesOf triples node property := by
    have other (triple : Triple) (foreign : ¬ triple.subject = node) : triple.value? node property = none :=
      if_neg fun both => foreign both.1
    calc ((session.store.withSubject node).map Row.triple).filterMap (Triple.value? node property)
      _ = (session.store.liveRows.map Row.triple).filterMap (Triple.value? node property) := by
        rw [indexed.withSubject, List.filterMap_map, List.filterMap_map, List.filterMap_filter]
        refine List.filterMap_congr fun row _ => ?_
        simp only [Function.comp_apply, beq_iff_eq]
        split
        · rfl
        · next foreign => exact (other row.triple foreign).symm
      _ = triples.eraseDups.filterMap (Triple.value? node property) :=
        congrArg (List.filterMap _) (TripleStore.triples_ofTriples triples)
      _ = valuesOf triples node property := filterMap_value? triples node property
  obtain ⟨reports, told, -, others⟩ := reports_lax mode Problem.severalHeaders (session.ontologyNodes.filter (· != node)) session
  let noticed : Session := { session with reports }
  have begins : Collected node noticed [] [] (.of node.iri? none, false) noticed :=
    ⟨rfl, rfl, rfl, fun _ member => member, List.forall_mem_nil _⟩
  obtain ⟨value, headed, run, collected⟩ := reaches_readHeaderTriples mode (session.store.withSubject node) own [] []
    (.of node.iri? none, false) noticed begins
  rw [List.nil_append, List.nil_append, values, values] at collected
  refine ⟨{ headed with header := some node, ontology := { headed.ontology with id := value.1 } }, ?_, ?_⟩
  · rw [readHeader_found found, Run.bind_run told, Run.bind_run run]
    rfl
  · obtain ⟨chosen, leading⟩ := Session.headerNode?_spec found
    have unimported (other : Node) : session.isImported other = false ↔ ∀ importer, ⟨importer, Owl.imports, other⟩ ∉ triples := by
      rw [← Bool.not_eq_true, imported, not_exists]
    have listed {report : Report} (member : report ∈ headed.reports) : report ∈ headed.reports.toList :=
      Array.mem_toList_iff.mpr member
    refine ⟨(typed node).mp chosen, fun other ontology free => ?_, collected.id, ?_, fun version further => ?_,
      fun other ontology apart => ?_⟩
    · exact (unimported node).mp (leading other ((typed other).mpr ontology) ((unimported other).mpr free))
    · exact collected.imports.trans (Canonical.eraseDups_of_nodup (Canonical.nodup_eraseDups _))
    · obtain ⟨report, known, names⟩ := collected.told version further
      exact ⟨report, listed known, names⟩
    · have ignored : other ∈ session.ontologyNodes.filter (· != node) :=
        List.mem_filter.mpr ⟨(typed other).mpr ontology, bne_iff_ne.mpr apart⟩
      obtain ⟨report, known, same⟩ := others other ignored
      exact ⟨report, listed (collected.reports report known), by rw [same, Problem.subject?]⟩

/-- A lax load that is not cancelled succeeds with the names, the imports and the reports that reading the
header gave. -/
theorem exists_loaded {config : Config} (lax : config.strict = false) (uncancelled : config.cancelled = false) {number : Nat}
    {headed : Session} (header : readHeader ⟨config, number, false⟩ (start document triples) = (.ok (), headed)) :
    ∃ loaded, loadTriples config number document triples = .ok loaded ∧ loaded.ontology.id = headed.ontology.id ∧
      loaded.ontology.imports = headed.ontology.imports ∧ ∀ report ∈ headed.reports.toList, report ∈ loaded.reports := by
  let context : Context := ⟨config, number, false⟩
  have mode : context.config.strict = false := lax
  obtain ⟨session, translated⟩ := exists_translated lax uncancelled number document triples
  obtain ⟨-, orderly⟩ := regular_translateAxioms lax translated
  obtain ⟨_, after, finished, -⟩ := Reaches.of_ends mode (fun _ _ => ends_finish) session orderly
  have run : translate context (start document triples) = (.ok (), after) := by
    rw [translate_phases, ← bind_assoc, Run.bind_run translated]
    exact finished
  have begins : Orderly (start document triples) := ⟨TripleStore.indexed_ofTriples triples, rfl⟩
  have indexed : headed.store.Indexed := (Ends.follows (fun _ _ => ends_readHeader) begins header).indexed
  have rest : afterDeclarations context (headed.readDeclarations config.strict) = (.ok (), after) := by
    rw [translate_eq, Run.bind_run header] at run
    exact run
  obtain ⟨retained, -⟩ := @retains_afterDeclarations context headed _ (Session.lasting_retained.readDeclarations config.strict (.refl indexed))
  rw [rest] at retained
  refine ⟨Loaded.of after, loadTriples_of_run run, retained.id, retained.imports, fun report member => ?_⟩
  exact Array.mem_toList_iff.mpr (retained.reports report (Array.mem_toList_iff.mp member))

end Load

/-- A lax load that is not cancelled succeeds. If nodes are typed as an ontology, one of them stands for
it, and of the IRIs that are its versions and imports only the first version of a blank node is lost
without a report; the other nodes are reported. Else the ontology has no name and no imports. -/
theorem header_accounted {config : Config} (lax : config.strict = false) (uncancelled : config.cancelled = false) (number : Nat)
    (document : Option Iri) (triples : List Triple) : ∃ loaded, loadTriples config number document triples = .ok loaded ∧
    match (Load.start document triples).headerNode? with
    | some node => ReadsHeader triples node loaded.ontology loaded.reports
    | none => (∀ node, ⟨node, Rdf.type, Owl.Ontology⟩ ∉ triples) ∧ loaded.ontology.id = .anonymous ∧ loaded.ontology.imports = [] := by
  cases found : (Load.start document triples).headerNode? with
  | some node =>
    obtain ⟨headed, header, reads⟩ := @Load.exists_headed ⟨config, number, false⟩ node document triples lax found
    obtain ⟨loaded, run, id, imports, reports⟩ := Load.exists_loaded lax uncancelled header
    exact ⟨loaded, run, reads.mono id imports reports⟩
  | none =>
    have absent := Session.headerNode?_eq_none found
    obtain ⟨loaded, run, id, imports, -⟩ := Load.exists_loaded lax uncancelled (Load.readHeader_absent absent)
    refine ⟨loaded, run, fun node typed => ?_, id, imports⟩
    have listed : node ∈ (Load.start document triples).ontologyNodes :=
      (Session.mem_ontologyNodes (TripleStore.indexed_ofTriples triples)).mpr ((TripleStore.mem_rows_ofTriples triples _).mpr typed)
    exact List.not_mem_nil (absent ▸ listed)

namespace Samples

/-- A nameless ontology. -/
def nameless : BlankNode := ⟨"o"⟩

def imported : Iri := ⟨"http://example.com/b"⟩

/-- Two versions of the nameless ontology, which imports the other one. -/
def versioned : List Triple :=
  [⟨imported, Rdf.type, Owl.Ontology⟩, ⟨nameless, Rdf.type, Owl.Ontology⟩,
    ⟨nameless, Owl.versionIRI, (⟨"http://example.com/v1"⟩ : Iri)⟩, ⟨nameless, Owl.versionIRI, (⟨"http://example.com/v2"⟩ : Iri)⟩,
    ⟨nameless, Owl.imports, imported⟩]

theorem headerNode?_versioned : (Load.start none versioned).headerNode? = some (.blank nameless) := by
  have begin : (Load.start none versioned).store.Lists _ [] := TripleStore.lists_ofTriples (by decide)
  have nodes : (Load.start none versioned).ontologyNodes = [.named imported, .blank nameless] := by
    rw [Session.ontologyNodes, begin.indexed.withPredicate, begin.listed]
    decide
  have first : (Load.start none versioned).isImported (.named imported) = true := by
    rw [Session.isImported, begin.indexed.withObject, begin.listed]
    decide
  have second : (Load.start none versioned).isImported (.blank nameless) = false := by
    rw [Session.isImported, begin.indexed.withObject, begin.listed]
    decide
  simp [Session.headerNode?, nodes, first, second]

end Samples

/-- The first version is lost, the second one and the other node are reported. -/
theorem header_accounted_versioned : ∃ loaded, loadTriples { strict := false } 0 none Samples.versioned = .ok loaded ∧
    loaded.ontology.id = .anonymous ∧ loaded.ontology.imports = [Samples.imported] ∧
    (∃ report ∈ loaded.reports, ⟨Samples.nameless, Owl.versionIRI, (⟨"http://example.com/v2"⟩ : Iri)⟩ ∈ report.triples) ∧
    ∃ report ∈ loaded.reports, report.problem.subject? = some (.resource Samples.imported) := by
  obtain ⟨loaded, run, reads⟩ := @header_accounted { strict := false } rfl rfl 0 none Samples.versioned
  rw [Samples.headerNode?_versioned] at reads
  have versions : valuesOf Samples.versioned Samples.nameless Owl.versionIRI =
      [⟨"http://example.com/v1"⟩, ⟨"http://example.com/v2"⟩] := by decide
  have imports : valuesOf Samples.versioned Samples.nameless Owl.imports = [Samples.imported] := by decide
  refine ⟨loaded, run, reads.id, reads.imports.trans imports, ?_, ?_⟩
  · apply reads.versions
    rw [versions]
    exact List.mem_singleton_self _
  · exact reads.others Samples.imported List.mem_cons_self nofun

end OwlGraph
