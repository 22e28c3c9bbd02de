import OwlGraph.Proofs.AnnotationTrees
import OwlGraph.Proofs.RuleDrawing
import OwlGraph.Rendering.Statement

/-! Writing an axiom describes it. What stands for the axiom is known only after its operands are
written: the triples between them, or the node that gathers them. So what the rest of the graph may
say about the fresh nodes depends on the form that the axiom is given. -/

namespace OwlGraph

/-- One of the axioms that together say what an axiom says, the triple that states it, and the
triples that describe its operands. -/
structure Sketch where
  bare : Axiom
  main : Triple
  operands : List Triple

namespace Axiom

/-- The variables of a rule. -/
def variableNames : Axiom → List Iri
  | .rule implication => implication.variableNames
  | _ => []

/-- A single operand, which no triple relates to another one, has a name. -/
def Related : Axiom → Prop
  | .equivalentClasses [cls] | .disjointClasses [cls] => ∃ iri, cls = .named iri
  | .equivalentObjectProperties [property] | .disjointObjectProperties [property] => property.isNamed = true
  | _ => True

end Axiom

namespace Rendering

/-- What else may be said about the fresh nodes: that the triples stand for the axiom, or that the
node carries its annotations. -/
def Form.Allows (notes : List Annotation) : Form → Triple → Prop
  | .triples mains, triple => triple ∈ mains
  | .node carrier, triple => ∃ note ∈ notes, triple = note.claim carrier

/-- In the graph the form stands for the axiom, whose operands the block describes. -/
def Form.Tells (supply : Nat → BlankNode) (notes : List Annotation) (graph : List Triple) (bare : Axiom) : Form → List Triple → Prop
  | .triples mains, block => bare.isGathered = false ∧ ∃ pieces : List Sketch, pieces.map Sketch.bare = bare.pieces ∧
      pieces.map Sketch.main = mains ∧ (∀ piece ∈ pieces, piece.bare.Stated graph piece.main piece.operands) ∧
      ∀ triple, triple ∈ block ↔ ∃ piece ∈ pieces, triple ∈ piece.operands
  | .node carrier, block => bare.isGathered = true ∧ ∃ (number : Nat) (type : Iri) (values : List (Iri × Term)) (operands : List Triple),
      carrier = supply number ∧ bare.Gathered graph type values operands ∧
      Declaring bare.variableNames (operands ++ triplesAt (supply number) ((Rdf.type, (type : Term)) :: values)) block ∧
      ∀ triple ∈ graph, triple.subject = carrier →
        triple ∈ triplesAt (supply number) ((Rdf.type, (type : Term)) :: values) ∨ ∃ note ∈ notes, triple = note.claim carrier

variable {supply : Nat → BlankNode} {allowed : Triple → Prop} {start middle stop limit : Nat}
  {graph block first second : List Triple} {notes : List Annotation} {bare : Axiom}

theorem Sealed.mono {other : Triple → Prop} (sealed : Sealed supply allowed graph start stop block)
    (implies : ∀ triple, allowed triple → other triple ∨ ∀ number, start ≤ number → number < stop → triple.subject ≠ supply number) :
    Sealed supply other graph start stop block where
  subset := sealed.subset
  only triple member number least most own := (sealed.only triple member number least most own).imp_right fun free =>
    (implies triple free).resolve_right fun foreign => foreign number least most own

/-- The body writes something of which the assertion holds in every graph that says nothing else about
the fresh nodes but what the value allows. -/
def Outlines {α : Type} (supply : Nat → BlankNode) (allowed : α → Triple → Prop) (body : Rendering α) (start : Nat)
    (post : List Triple → α → List Triple → Prop) : Prop :=
  ∃ value stop block, Emits supply body start value stop block ∧ Within supply start stop block ∧
    ∀ graph, Sealed supply (allowed value) graph start stop block → post graph value block

/-- What a statement is to come to. -/
abbrev Outlines.Statement (supply : Nat → BlankNode) (notes : List Annotation) (bare : Axiom) (body : Rendering Form) (start : Nat) : Prop :=
  Outlines supply (Form.Allows notes) body start fun graph form block => form.Tells supply notes graph bare block

section Triples

variable {α : Type} {body : Rendering α} {post : List Triple → α → List Triple → Prop}

/-- What is described in every graph that seals it is described by itself. -/
theorem Draws.own (draws : Draws supply allowed body start post) : ∃ value stop block, Emits supply body start value stop block ∧
    Within supply start stop block ∧ post block value block ∧
    ∀ graph, Sealed supply allowed graph start stop block → post graph value block := by
  obtain ⟨value, stop, block, emits, within, described⟩ := draws
  exact ⟨value, stop, block, emits, within, described block ⟨fun _ => id, fun _ member _ _ _ _ => .inl member⟩, described⟩

/-- What comes next may be told by what is described. -/
theorem Draws.congr {β : Type} {next : α → Rendering β} (other : α → Rendering β) {free : β → Triple → Prop}
    {last : List Triple → β → List Triple → Prop} (draws : Draws supply allowed body start post) (same : ∀ graph a block, post graph a block → next a = other a)
    (outlines : Outlines supply free (body >>= other) start last) : Outlines supply free (body >>= next) start last := by
  obtain ⟨a, middle, parts, emits, -, own, -⟩ := draws.own
  obtain ⟨value, stop, block, run, rest⟩ := outlines
  refine ⟨value, stop, block, fun triples => ?_, rest⟩
  rw [← run triples]
  change next (body supply ⟨start, triples⟩).1 supply _ = other (body supply ⟨start, triples⟩).1 supply _
  rw [emits triples, same _ _ _ own]

/-- The parts of an axiom and then the triples between them. -/
theorem Draws.statement (draws : Draws supply allowed body start post) (mains : α → List Triple)
    (free : ∀ graph a block, post graph a block → ∀ main ∈ mains a, allowed main ∨ ∀ number, main.subject ≠ supply number)
    (tells : ∀ graph a block, post graph a block → (Form.triples (mains a)).Tells supply notes graph bare block) :
    Outlines.Statement supply notes bare (body >>= fun a => Pure.pure (.triples (mains a))) start := by
  obtain ⟨a, stop, block, emits, within, own, described⟩ := draws.own
  refine ⟨.triples (mains a), stop, block, ?_, within, fun graph sealed => tells graph a block (described graph (sealed.mono ?_))⟩
  · have whole : Emits supply (body >>= fun a => Pure.pure (Form.triples (mains a))) start (.triples (mains a)) stop (block ++ []) :=
      emits.bind (Emits.pure _)
    rwa [List.append_nil] at whole
  · exact fun main member => (free _ a _ own main member).imp_right fun foreign number _ _ => foreign number

theorem tells_triple {piece : Axiom} {main : Triple} {operands : List Triple} (loose : bare.isGathered = false)
    (pieces : bare.pieces = [piece]) (stated : piece.Stated graph main operands) (same : ∀ triple, triple ∈ block ↔ triple ∈ operands) :
    (Form.triples [main]).Tells supply notes graph bare block :=
  ⟨loose, [⟨piece, main, operands⟩], pieces.symm, rfl, List.forall_mem_singleton.mpr stated, by simpa using same⟩

/-- What is written without an operand. -/
theorem states_plain {piece : Axiom} {main : Triple} (loose : bare.isGathered = false) (pieces : bare.pieces = [piece])
    (stated : ∀ graph, piece.Stated graph main []) :
    Outlines.Statement supply notes bare (Pure.pure (.triples [main])) start :=
  ⟨_, start, [], Emits.pure _, Within.nil, fun graph _ => tells_triple loose pieces (stated graph) fun _ => Iff.rfl⟩

end Triples

section Neighbours

variable {α : Type} {describes : α → Term → List Triple → Prop} {predicate : Iri} {piece : α → α → Axiom}
  (stated : ∀ (a b : α) (one two : Node) (left right : List Triple), describes a one left → describes b two right →
    (piece a b).Stated graph ⟨one, predicate, two⟩ (left ++ right))
include stated

omit stated in
/-- The nodes of the items, the first one taken apart. -/
private theorem Each.uncons {item : α} {items : List α} {nodes : List Node}
    (each : Each describes (item :: items) (nodes.map Term.resource) block) : ∃ (node : Node) (rest : List Node) (first later : List Triple),
      nodes = node :: rest ∧ describes item node first ∧ Each describes items (rest.map Term.resource) later ∧ block = first ++ later := by
  cases nodes with
  | nil => exact each.elim
  | cons node rest =>
    obtain ⟨first, later, own, others, rfl⟩ := each
    exact ⟨node, rest, first, later, rfl, own, others, rfl⟩

omit stated in
private theorem Each.unnil {nodes : List Node} (each : Each describes [] (nodes.map Term.resource) block) : nodes = [] ∧ block = [] := by
  cases nodes with
  | nil => exact ⟨rfl, each⟩
  | cons => exact each.elim

/-- Two operands and more: each is an operand of some piece. -/
private theorem tells_neighbours_cons (items : List α) : ∀ (a b : α) (nodes : List Node) (block : List Triple),
    Each describes (a :: b :: items) (nodes.map Term.resource) block → ∃ pieces : List Sketch,
      pieces.map Sketch.bare = (neighbourPairs (a :: b :: items)).map (fun pair => piece pair.1 pair.2) ∧
      pieces.map Sketch.main = (nodes.zip nodes.tail).map (fun (one, two) => ⟨one, predicate, two⟩) ∧
      (∀ piece ∈ pieces, piece.bare.Stated graph piece.main piece.operands) ∧
      ∀ triple, triple ∈ block ↔ ∃ piece ∈ pieces, triple ∈ piece.operands := by
  induction items with
  | nil =>
    intro a b nodes block each
    obtain ⟨one, _, left, _, rfl, here, rest, rfl⟩ := Each.uncons each
    obtain ⟨two, _, right, _, rfl, there, none, rfl⟩ := Each.uncons rest
    obtain ⟨rfl, rfl⟩ := Each.unnil none
    refine ⟨[⟨piece a b, ⟨one, predicate, two⟩, left ++ right⟩], rfl, rfl, ?_, by simp⟩
    exact List.forall_mem_singleton.mpr (stated a b one two left right here there)
  | cons c items ih =>
    intro a b nodes block each
    obtain ⟨one, _, left, _, rfl, here, rest, rfl⟩ := Each.uncons each
    obtain ⟨pieces, bares, mains, all, cover⟩ := ih b c _ _ rest
    obtain ⟨two, others, right, more, rfl, there, -, rfl⟩ := Each.uncons rest
    refine ⟨⟨piece a b, ⟨one, predicate, two⟩, left ++ right⟩ :: pieces, ?_, ?_, ?_, fun triple => ?_⟩
    · rw [List.map_cons, bares]
      rfl
    · rw [List.map_cons, mains]
      rfl
    · exact List.forall_mem_cons.mpr ⟨stated a b one two left right here there, all⟩
    · have first : triple ∈ right → ∃ piece ∈ pieces, triple ∈ piece.operands := fun inside =>
        (cover triple).mp (List.mem_append_left _ inside)
      rw [List.mem_append, cover triple, List.exists_mem_cons_iff, List.mem_append, or_assoc, or_iff_right_of_imp first]

/-- The triples between neighbours tell the axiom, if a single operand needs no triples. -/
theorem tells_neighbours {items : List α} {nodes : List Node} (loose : bare.isGathered = false)
    (pieces : bare.pieces = (neighbourPairs items).map fun pair => piece pair.1 pair.2)
    (single : ∀ item, items = [item] → ∀ term block, describes item term block → block = [])
    (each : Each describes items (nodes.map Term.resource) block) :
    (neighbours predicate nodes).Tells supply notes graph bare block := by
  refine ⟨loose, ?_⟩
  rw [pieces]
  match items with
  | [] =>
    obtain ⟨rfl, rfl⟩ := Each.unnil each
    exact ⟨[], rfl, rfl, List.forall_mem_nil _, by simp⟩
  | [item] =>
    obtain ⟨node, _, first, _, rfl, own, none, rfl⟩ := Each.uncons each
    obtain ⟨rfl, rfl⟩ := Each.unnil none
    exact ⟨[], rfl, rfl, List.forall_mem_nil _, by simp [single item rfl _ _ own]⟩
  | a :: b :: rest =>
    obtain ⟨pieces, bares, mains, all, cover⟩ := tells_neighbours_cons stated rest a b nodes block each
    exact ⟨pieces, bares, mains, all, cover⟩

end Neighbours

section Nodes

variable {α : Type} {body : Rendering α} {post : List Triple → α → List Triple → Prop}
  (distinct : ∀ m n, supply m = supply n → m = n)
include distinct

/-- The operands of an axiom and then the node that gathers them. Only about this node the graph says
more, and that later. -/
theorem Draws.node (draws : Draws supply (fun _ => False) body start post) (type : Iri) (values : α → List (Iri × Term))
    (large : bare.isGathered = true)
    (gathered : ∀ graph a block, post graph a block → ∃ operands, bare.Gathered graph type (values a) operands ∧
      Declaring bare.variableNames operands block) :
    Outlines.Statement supply notes bare
      (body >>= fun a => Rendering.construct ((Rdf.type, (type : Term)) :: values a) >>= fun node => Pure.pure (.node node)) start := by
  obtain ⟨a, middle, parts, emits, within, described⟩ := draws
  have within' : Within supply middle (middle + 1) (triplesAt (supply middle) ((Rdf.type, (type : Term)) :: values a)) :=
    within_triplesAt distinct _
  have node : Emits supply (Rendering.construct ((Rdf.type, (type : Term)) :: values a) >>= fun node => Pure.pure (Form.node node)) middle
      (.node (supply middle)) (middle + 1) (triplesAt (supply middle) ((Rdf.type, (type : Term)) :: values a) ++ []) :=
    (Emits.construct _).bind (Emits.pure _)
  rw [List.append_nil] at node
  refine ⟨.node (supply middle), middle + 1, _, emits.bind node, within.append within', fun graph sealed => ?_⟩
  have inner : Sealed supply (fun _ => False) graph start middle parts := by
    refine (sealed.left within').mono fun triple => ?_
    rintro ⟨note, -, rfl⟩
    refine .inr fun number _ most same => ?_
    have := distinct _ _ (Node.blank.inj same)
    omega
  obtain ⟨operands, gathered, declaring⟩ := gathered graph a parts (described graph inner)
  refine ⟨large, middle, type, values a, operands, rfl, gathered, declaring.append_left _, fun triple member own => ?_⟩
  exact (sealed.right within).only triple member middle (Nat.le_refl _) (Nat.lt_succ_self _) own

end Nodes

section Statements

variable {α β : Type} (distinct : ∀ m n, supply m = supply n → m = n)
include distinct

/-- The properties whose operands are drawn after an object property has been, which may be an inverse one. -/
private theorem states_subject {body : Rendering α} {next : α → Rendering β} {one : List Triple → α → List Triple → Prop}
    {two : α → List Triple → β → List Triple → Prop} (draws : Draws supply (fun _ => False) body start one)
    (property : PropertyExpression) (later : ∀ a middle, Draws supply (fun _ => False) (next a) middle (two a)) (predicate : Iri)
    (object : β → Term) (free : predicate ≠ Owl.inverseOf ∧ predicate ≠ Rdf.type)
    (tells : ∀ graph a b (subject : Node) first second third, one graph a first → property.Described graph subject second →
      two a graph b third → (Form.triple subject predicate (object b)).Tells supply notes graph bare (first ++ (second ++ third))) :
    Outlines.Statement supply notes bare (body >>= fun a => Rendering.property property >>= fun subject => next a >>= fun b =>
      Pure.pure (.triple subject predicate (object b))) start := by
  have draws' : ∀ middle, Draws supply (fun triple => triple.predicate = predicate) (Rendering.property property) middle
      fun graph node block => property.Described graph node block := fun middle => by
    refine draws_property distinct ?_ property
    rintro triple rfl
    exact ⟨free.1, fun type typed => absurd typed free.2⟩
  obtain ⟨a, middle, first, emits, within, -, described⟩ := draws.own
  obtain ⟨subject, last, second, emits', within', own, described'⟩ := (draws' middle).own
  obtain ⟨b, stop, third, emits'', within'', -, described''⟩ := (later a last).own
  have located : ∀ number, subject = .blank (supply number) → middle ≤ number ∧ number < last := by
    intro number same
    cases property with
    | named iri => cases same.symm.trans (Term.resource.inj own.1)
    | inverse iri =>
      obtain ⟨node, here, -, -, rfl⟩ := own
      refine within'.subjects _ List.mem_cons_self number ?_
      rw [← same]
      exact (Term.resource.inj here).symm
  have inside := within'.append within''
  refine ⟨_, stop, first ++ (second ++ third), ?_, within.append inside, fun graph sealed =>
    tells graph a b subject first second third (described graph ?_) (described' graph ?_) (described'' graph ?_)⟩
  · have whole : Emits supply (body >>= fun a => Rendering.property property >>= fun subject => next a >>= fun b =>
        Pure.pure (Form.triple subject predicate (object b))) start (.triple subject predicate (object b)) stop
        (first ++ (second ++ (third ++ []))) := emits.bind (emits'.bind (emits''.bind (Emits.pure _)))
    rwa [List.append_nil] at whole
  · refine (sealed.left inside).mono fun triple main => .inr fun number _ most same => ?_
    obtain rfl := List.mem_singleton.mp main
    have := (located number same).1
    omega
  · refine ((sealed.right within).left within'').mono fun triple main => .inl ?_
    obtain rfl := List.mem_singleton.mp main
    rfl
  · refine ((sealed.right within).right within').mono fun triple main => .inr fun number least _ same => ?_
    obtain rfl := List.mem_singleton.mp main
    have := (located number same).2
    omega

omit distinct in
/-- Triples between neighbours after these have been written. -/
private theorem states_neighbours {body : Rendering (List Node)} {items : List α} {describes : List Triple → α → Term → List Triple → Prop}
    {predicate : Iri} (piece : α → α → Axiom)
    (draws : Draws supply (fun triple => triple.predicate = predicate) body start fun graph nodes block =>
      Each (describes graph) items (nodes.map Term.resource) block)
    (loose : bare.isGathered = false) (pieces : bare.pieces = (neighbourPairs items).map fun pair => piece pair.1 pair.2)
    (single : ∀ graph item, items = [item] → ∀ term block, describes graph item term block → block = [])
    (stated : ∀ graph (a b : α) (one two : Node) (left right : List Triple), describes graph a one left → describes graph b two right →
      (piece a b).Stated graph ⟨one, predicate, two⟩ (left ++ right)) :
    Outlines.Statement supply notes bare (body >>= fun nodes => Pure.pure (neighbours predicate nodes)) start := by
  refine draws.statement (fun nodes => (nodes.zip nodes.tail).map fun (first, second) => ⟨first, predicate, second⟩) ?_ ?_
  · intro graph nodes block _ main member
    obtain ⟨pair, -, rfl⟩ := List.mem_map.mp member
    exact .inl rfl
  · exact fun graph nodes block each => tells_neighbours (stated graph) loose pieces (single graph) each

/-- Up to two operands make triples, more are gathered by a node. -/
private theorem states_gathered {body : Rendering (List Node)} {items : List α} {describes : List Triple → α → Term → List Triple → Prop}
    {type predicate : Iri} (piece : α → α → Axiom)
    (draws : ∀ allowed : Triple → Prop, (∀ triple, allowed triple → triple.predicate = predicate) → Draws supply allowed body start
      fun graph nodes block => Each (describes graph) items (nodes.map Term.resource) block)
    (counted : bare.isGathered = decide (2 < items.length))
    (pieces : items.length ≤ 2 → bare.pieces = (neighbourPairs items).map fun pair => piece pair.1 pair.2)
    (single : ∀ graph item, items = [item] → ∀ term block, describes graph item term block → block = [])
    (stated : ∀ graph (a b : α) (one two : Node) (left right : List Triple), describes graph a one left → describes graph b two right →
      (piece a b).Stated graph ⟨one, predicate, two⟩ (left ++ right))
    (constant : bare.variableNames = [])
    (gathers : ∀ graph (nodes : List Node) head parts chain, Each (describes graph) items (nodes.map Term.resource) parts →
      Chain graph (nodes.map Term.resource) head chain → bare.Gathered graph type [(Owl.members, head)] (parts ++ chain)) :
    Outlines.Statement supply notes bare (body >>= gathered type predicate) start := by
  have length : ∀ graph (nodes : List Node) block, Each (describes graph) items (nodes.map Term.resource) block →
      nodes.length = items.length := fun graph nodes block each => by rw [← each.length_eq, List.length_map]
  by_cases few : items.length ≤ 2
  · refine (draws _ fun _ => id).congr (fun nodes => Pure.pure (neighbours predicate nodes)) (fun graph nodes block each => ?_)
      (states_neighbours piece (draws _ fun _ => id) (by simpa [counted] using few) (pieces few) single stated)
    rw [gathered, if_pos (by rw [length graph nodes block each]; exact few)]
  · have many : bare.isGathered = true := by simpa [counted] using few
    have none := draws (fun _ => False) nofun
    refine none.congr (fun nodes => list (nodes.map .resource) >>= fun head =>
      construct [(Rdf.type, (type : Term)), (Owl.members, head)] >>= fun node => Pure.pure (.node node))
      (fun graph nodes block each => ?_) ?_
    · rw [gathered, if_neg (by rw [length graph nodes block each]; exact few)]
      rfl
    · refine (none.bind fun nodes middle => draws_list distinct nofun (nodes.map .resource)).node distinct type
        (fun head => [(Owl.members, head)]) many ?_
      rintro graph head _ ⟨nodes, _, parts, chain, _, each, list, rfl⟩
      exact ⟨_, gathers graph nodes head parts chain each list, constant ▸ .none _⟩

/-- What is said of all classes, and what of all properties. -/
private theorem draws_classes {classes : List ClassExpression} (valid : ∀ cls ∈ classes, cls.WellFormed limit)
    (inner : ∀ triple, allowed triple → triple.predicate ∈ Role.classAxiomPredicates) (start : Nat) :
    Draws supply allowed (classes.mapM classExpression) start fun graph nodes block =>
      Each (ClassExpression.Described graph) classes (nodes.map Term.resource) block :=
  Draws.each Term.resource classes fun cls member start => draws_classExpression distinct inner cls (valid cls member) start

private theorem draws_properties {properties : List PropertyExpression} {predicate : Iri}
    (free : predicate ≠ Owl.inverseOf ∧ predicate ≠ Rdf.type) (only : ∀ triple, allowed triple → triple.predicate = predicate) (start : Nat) :
    Draws supply allowed (properties.mapM property) start fun graph nodes block =>
      Each (PropertyExpression.Described graph) properties (nodes.map Term.resource) block := by
  refine Draws.each Term.resource properties fun expression _ start => draws_property distinct (fun triple known => ?_) expression
  rw [only triple known]
  exact ⟨free.1, fun _ typed => absurd typed free.2⟩

omit distinct in
/-- Operands that are nodes from the beginning. -/
private theorem draws_nodes (items : List α) (node : α → Node) : Draws supply allowed (Pure.pure (items.map node)) start
    fun _ nodes block => Each (fun item => Standing (node item)) items (nodes.map Term.resource) block := by
  refine (Draws.pure _).weaken ?_
  rintro graph _ _ ⟨rfl, rfl⟩
  induction items with
  | nil => rfl
  | cons item rest ih => exact ⟨[], [], ⟨rfl, rfl⟩, ih, rfl⟩

omit distinct in
private theorem standing_each {items : List α} {term : α → Term} {terms : List Term}
    (each : Each (fun item => Standing (term item)) items terms block) : terms = items.map term ∧ block = [] := by
  induction items generalizing terms block with
  | nil => cases terms with
    | nil => exact ⟨rfl, each⟩
    | cons => exact each.elim
  | cons item rest ih => cases terms with
    | nil => exact each.elim
    | cons first others =>
      obtain ⟨_, _, ⟨rfl, rfl⟩, later, rfl⟩ := each
      obtain ⟨rfl, rfl⟩ := ih later
      exact ⟨rfl, rfl⟩

omit distinct in
private theorem named_single {items : List ClassExpression} {graph : List Triple} (related : ∀ cls, items = [cls] → ∃ iri, cls = .named iri)
    (item : ClassExpression) (only : items = [item]) (term : Term) (block : List Triple) (described : item.Described graph term block) :
    block = [] := by
  obtain ⟨iri, rfl⟩ := related item only
  exact described.2

omit distinct in
private theorem named_property {items : List PropertyExpression} {graph : List Triple}
    (related : ∀ expression, items = [expression] → expression.isNamed = true) (item : PropertyExpression) (only : items = [item])
    (term : Term) (block : List Triple) (described : item.Described graph term block) : block = [] := by
  have named := related item only
  cases item with
  | named iri => exact described.2
  | inverse iri => cases named

omit distinct in
/-- The triples of a subject that is drawn before its object. -/
private theorem states_pair {left : Rendering Node} {right : Rendering Node} {one two : List Triple → Node → List Triple → Prop}
    {predicate : Iri} (draws : Draws supply (fun triple => triple.predicate = predicate) left start one)
    (later : ∀ middle, Draws supply (fun triple => triple.predicate = predicate) right middle two) (loose : bare.isGathered = false)
    (pieces : bare.pieces = [bare])
    (stated : ∀ graph (a b : Node) first second, one graph a first → two graph b second →
      bare.Stated graph ⟨a, predicate, b⟩ (first ++ second)) :
    Outlines.Statement supply notes bare
      (left >>= fun a => right >>= fun b => Pure.pure (.triple a predicate b)) start := by
  refine (draws.pair later).statement (fun parts => [⟨parts.1, predicate, parts.2⟩]) ?_ ?_
  · exact fun _ _ _ _ => List.forall_mem_singleton.mpr (.inl rfl)
  · rintro graph ⟨a, b⟩ _ ⟨first, second, here, there, rfl⟩
    exact tells_triple loose pieces (stated graph a b first second here there) fun _ => Iff.rfl

omit distinct in
/-- The triple of a subject that is no fresh node. -/
private theorem states_object {body : Rendering α} {one : List Triple → α → List Triple → Prop} {subject : Node} {predicate : Iri}
    (object : α → Term) (draws : Draws supply (fun _ => False) body start one) (outside : ∀ number, subject ≠ supply number)
    (loose : bare.isGathered = false) (pieces : bare.pieces = [bare])
    (stated : ∀ graph a block, one graph a block → bare.Stated graph ⟨subject, predicate, object a⟩ block) :
    Outlines.Statement supply notes bare (body >>= fun a => Pure.pure (.triple subject predicate (object a))) start := by
  refine draws.statement (fun a => [⟨subject, predicate, object a⟩]) ?_ ?_
  · exact fun _ _ _ _ => List.forall_mem_singleton.mpr (.inr outside)
  · exact fun graph a block described => tells_triple loose pieces (stated graph a block described) fun _ => Iff.rfl

/-- Writing an axiom describes it, if its expressions are well formed and its anonymous individuals no fresh nodes. -/
theorem states_statement (valid : bare.WellFormed limit) (related : bare.Related)
    (foreign : ∀ node, .anonymous node ∈ bare.components → ∀ number, node ≠ supply number) :
    Outlines.Statement supply notes bare (statement bare) start := by
  obtain ⟨sound, -⟩ := valid
  have classAxiom : ∀ predicate ∈ Role.classAxiomPredicates, ∀ triple : Triple, triple.predicate = predicate →
      triple.predicate ∈ Role.classAxiomPredicates := fun predicate known triple same => same ▸ known
  have listed : Rdfs.subClassOf ∈ Role.classAxiomPredicates ∧ Owl.equivalentClass ∈ Role.classAxiomPredicates ∧
      Owl.disjointWith ∈ Role.classAxiomPredicates ∧ Owl.hasKey ∈ Role.classAxiomPredicates := by decide
  have free : ∀ predicate ∈ [Owl.equivalentProperty, Rdfs.subPropertyOf, Owl.propertyDisjointWith, Owl.hasKey, Rdfs.domain, Rdfs.range,
      Owl.propertyChainAxiom], predicate ≠ Owl.inverseOf ∧ predicate ≠ Rdf.type := by decide
  have joined (subject : Node) (predicate : Iri) (object : Term) :
      Joined (Standing subject) (Standing object) predicate ⟨subject, predicate, object⟩ [] :=
    ⟨subject, object, [], [], ⟨rfl, rfl⟩, ⟨rfl, rfl⟩, rfl, rfl⟩
  match bare, sound, related, foreign with
  | .declaration entity, _, _, _ => exact states_plain rfl rfl fun _ => joined ..
  | .equivalentClasses classes, sound, related, _ =>
    refine states_neighbours (fun a b => .equivalentClasses [a, b]) (draws_classes distinct sound (classAxiom _ listed.2.1) start) rfl rfl
      (fun graph => named_single fun cls only => by subst only; exact related) ?_
    exact fun graph a b one two left right here there => ⟨one, two, left, right, here, there, rfl, rfl⟩
  | .subClassOf sub sup, sound, _, _ =>
    exact states_pair (draws_classExpression distinct (classAxiom _ listed.1) sub sound.1 start)
      (fun middle => draws_classExpression distinct (classAxiom _ listed.1) sup sound.2 middle) rfl rfl
      fun graph one two left right here there => ⟨one, two, left, right, here, there, rfl, rfl⟩
  | .disjointClasses classes, sound, related, _ =>
    refine states_gathered distinct (fun a b => .disjointClasses [a, b]) (fun allowed only => draws_classes distinct sound
      (fun triple known => classAxiom _ listed.2.2.1 triple (only triple known)) start) rfl ?_
      (fun graph => named_single fun cls only => by subst only; exact related) ?_ rfl ?_
    · intro few
      rw [Axiom.pieces, if_neg (by simpa [Axiom.isGathered] using few)]
    · exact fun graph a b one two left right here there => ⟨one, two, left, right, here, there, rfl, rfl⟩
    · exact fun graph nodes head parts chain each list => ⟨rfl, head, ⟨_, parts, chain, each, list, rfl⟩, rfl⟩
  | .disjointUnion cls parts, sound, _, _ =>
    refine states_object id (draws_listed distinct nofun (draws_classExpressions distinct nofun parts
      (ClassExpression.wellFormedEach_iff.mpr sound.2) start)) nofun rfl rfl ?_
    rintro graph head _ ⟨elements, inner, chain, each, list, rfl⟩
    exact ⟨cls, head, [], _, ⟨rfl, rfl⟩, ⟨elements, inner, chain, (ClassExpression.describedEach_eq ..).mp each, list, rfl⟩, rfl, rfl⟩
  | .classAssertion cls individual, sound, _, foreign =>
    refine states_object (fun node : Node => (node : Term)) (draws_classExpression distinct nofun cls sound start) (fun number same => ?_)
      rfl rfl fun graph node block described => ⟨individual, node, [], block, ⟨rfl, rfl⟩, described, rfl, rfl⟩
    subst same
    exact foreign (supply number) (by simp [Axiom.components, Component.individual]) number rfl
  | .sameIndividual individuals, _, _, _ =>
    have draws : Draws supply (fun triple => triple.predicate = Owl.sameAs) (Pure.pure (individuals.map id)) start _ :=
      draws_nodes individuals id
    rw [List.map_id] at draws
    exact states_neighbours (fun a b => .sameIndividual [a, b]) draws rfl rfl (fun _ _ _ _ _ described => described.2)
      fun graph a b one two left right here there => ⟨one, two, left, right, here, there, rfl, rfl⟩
  | .differentIndividuals individuals, _, _, _ =>
    have draws : ∀ allowed : Triple → Prop, (∀ triple, allowed triple → triple.predicate = Owl.differentFrom) →
        Draws supply allowed (Pure.pure (individuals.map id)) start _ := fun _ _ => draws_nodes individuals id
    rw [List.map_id] at draws
    refine states_gathered distinct (fun a b => .differentIndividuals [a, b]) draws rfl ?_
      (fun _ _ _ _ _ described => described.2) ?_ rfl ?_
    · intro few
      rw [Axiom.pieces, if_neg (by simpa [Axiom.isGathered] using few)]
    · exact fun graph a b one two left right here there => ⟨one, two, left, right, here, there, rfl, rfl⟩
    · intro graph nodes head parts chain each list
      obtain ⟨same, rfl⟩ := standing_each each
      exact ⟨rfl, head, by rw [same] at list; exact list, rfl⟩
  | .objectPropertyAssertion .positive (.named p) subject object, _, _, _ =>
    exact states_plain rfl rfl fun _ => joined ..
  | .objectPropertyAssertion .positive (.inverse p) subject object, _, _, _ =>
    exact states_plain rfl rfl fun _ => joined ..
  | .objectPropertyAssertion .negative p subject object, _, _, _ =>
    exact (draws_property distinct nofun p).node distinct Owl.NegativePropertyAssertion
      (fun node => [(Owl.sourceIndividual, (subject : Term)), (Owl.assertionProperty, (node : Term)), (Owl.targetIndividual, (object : Term))])
      rfl fun graph node block described => ⟨block, ⟨rfl, node, described, rfl⟩, .none _⟩
  | .dataPropertyAssertion .positive p subject value, _, _, _ =>
    exact states_plain rfl rfl fun _ => joined ..
  | .dataPropertyAssertion .negative p subject value, _, _, _ =>
    exact (Draws.pure ()).node distinct Owl.NegativePropertyAssertion
      (fun _ => [(Owl.sourceIndividual, (subject : Term)), (Owl.assertionProperty, (p : Term)), (Owl.targetValue, (value : Term))])
      rfl fun graph _ block empty => ⟨[], ⟨rfl, rfl, rfl⟩, by rw [empty.2]; exact .none _⟩
  | .equivalentObjectProperties properties, _, related, _ =>
    refine states_neighbours (fun a b => .equivalentObjectProperties [a, b])
      (draws_properties distinct (free _ (by simp)) (fun _ => id) start) rfl rfl
      (fun graph => named_property fun expression only => by subst only; exact related) ?_
    exact fun graph a b one two left right here there => ⟨one, two, left, right, here, there, rfl, rfl⟩
  | .subObjectPropertyOf sub sup, _, _, _ =>
    have unfree : ∀ triple : Triple, triple.predicate = Rdfs.subPropertyOf → triple.predicate ≠ Owl.inverseOf ∧
        ∀ type : Iri, triple.predicate = Rdf.type → triple.object = type → type ∉ Role.specialTypes := by
      intro triple same
      rw [same]
      exact ⟨(free _ (by simp)).1, fun _ typed => absurd typed (free _ (by simp)).2⟩
    exact states_pair (draws_property distinct unfree sub) (fun middle => draws_property distinct unfree sup) rfl rfl
      fun graph one two left right here there => ⟨one, two, left, right, here, there, rfl, rfl⟩
  | .inverseObjectProperties (.named iri) second, _, _, _ =>
    exact states_object (fun node : Node => (node : Term)) (draws_property distinct nofun second) nofun rfl rfl
      fun graph node block described => ⟨iri, node, [], block, ⟨rfl, rfl⟩, described, rfl, rfl⟩
  | .characteristic trait p, _, _, _ =>
    have ordinary : ∀ trait ∈ Characteristic.all, trait.type ∉ Role.specialTypes := by decide
    have apart : Rdf.type ≠ Owl.inverseOf := by decide
    have unfree : ∀ triple : Triple, triple.predicate = Rdf.type ∧ triple.object = trait.type → triple.predicate ≠ Owl.inverseOf ∧
        ∀ type : Iri, triple.predicate = Rdf.type → triple.object = type → type ∉ Role.specialTypes := by
      rintro triple ⟨typed, object⟩
      refine ⟨typed ▸ apart, fun type _ same => ?_⟩
      obtain rfl : trait.type = type := by simpa using object.symm.trans same
      exact ordinary trait (by cases trait <;> simp [Characteristic.all])
    refine (draws_property distinct unfree p).statement (fun node => [⟨node, Rdf.type, trait.type⟩]) ?_ ?_
    · exact fun _ _ _ _ => List.forall_mem_singleton.mpr (.inl ⟨rfl, rfl⟩)
    · exact fun graph node block described => tells_triple rfl rfl
        ⟨node, trait.type, block, [], described, ⟨rfl, rfl⟩, rfl, (List.append_nil _).symm⟩ fun _ => Iff.rfl
  | .objectPropertyDomain p domain, sound, _, _ =>
    refine states_subject distinct (Draws.pure ()) p (fun _ middle => draws_classExpression distinct nofun domain sound middle)
      Rdfs.domain (fun node : Node => (node : Term)) (free _ (by simp)) ?_
    rintro graph _ b subject _ second third ⟨-, rfl⟩ here there
    exact tells_triple rfl rfl ⟨subject, b, second, third, here, there, rfl, rfl⟩ fun _ => Iff.rfl
  | .objectPropertyRange p range, sound, _, _ =>
    refine states_subject distinct (Draws.pure ()) p (fun _ middle => draws_classExpression distinct nofun range sound middle)
      Rdfs.range (fun node : Node => (node : Term)) (free _ (by simp)) ?_
    rintro graph _ b subject _ second third ⟨-, rfl⟩ here there
    exact tells_triple rfl rfl ⟨subject, b, second, third, here, there, rfl, rfl⟩ fun _ => Iff.rfl
  | .disjointObjectProperties properties, _, related, _ =>
    refine states_gathered distinct (fun a b => .disjointObjectProperties [a, b])
      (fun allowed only => draws_properties distinct (free Owl.propertyDisjointWith (by simp)) only start) rfl ?_
      (fun graph => named_property fun expression only => by subst only; exact related) ?_ rfl ?_
    · intro few
      rw [Axiom.pieces, if_neg (by simpa [Axiom.isGathered] using few)]
    · exact fun graph a b one two left right here there => ⟨one, two, left, right, here, there, rfl, rfl⟩
    · exact fun graph nodes head parts chain each list => ⟨rfl, head, ⟨_, parts, chain, each, list, rfl⟩, rfl⟩
  | .subPropertyChainOf chain sup, _, _, _ =>
    refine states_subject distinct (draws_properties distinct (free Owl.propertyChainAxiom (by simp)) nofun start) sup
      (fun nodes middle => draws_list distinct nofun (nodes.map .resource)) Owl.propertyChainAxiom id (free _ (by simp)) ?_
    intro graph nodes head subject parts own spine each described list
    exact tells_triple rfl rfl ⟨subject, head, own, parts ++ spine, described, ⟨_, parts, spine, each, list, rfl⟩, rfl, rfl⟩
      fun triple => by simp only [List.mem_append]; exact or_left_comm
  | .equivalentDataProperties properties, _, _, _ =>
    exact states_neighbours (fun a b => .equivalentDataProperties [a, b]) (draws_nodes properties .named) rfl rfl
      (fun _ _ _ _ _ described => described.2)
      fun graph a b one two left right here there => ⟨one, two, left, right, here, there, rfl, rfl⟩
  | .subDataPropertyOf sub sup, _, _, _ | .subAnnotationPropertyOf sub sup, _, _, _ | .functionalDataProperty p, _, _, _
  | .annotationAssertion p subject value, _, _, _ | .annotationPropertyRange p range, _, _, _
  | .annotationPropertyDomain p domain, _, _, _ => exact states_plain rfl rfl fun _ => joined ..
  | .dataPropertyDomain p domain, sound, _, _ =>
    exact states_object (fun node : Node => (node : Term)) (draws_classExpression distinct nofun domain sound start) nofun rfl rfl
      fun graph node block described => ⟨p, node, [], block, ⟨rfl, rfl⟩, described, rfl, rfl⟩
  | .dataPropertyRange p range, sound, _, _ =>
    exact states_object (fun node : Node => (node : Term)) (draws_dataRange distinct nofun range sound start) nofun rfl rfl
      fun graph node block described => ⟨p, node, [], block, ⟨rfl, rfl⟩, described, rfl, rfl⟩
  | .datatypeDefinition datatype range, sound, _, _ =>
    exact states_object (fun node : Node => (node : Term)) (draws_dataRange distinct nofun range sound start) nofun rfl rfl
      fun graph node block described => ⟨datatype, node, [], block, ⟨rfl, rfl⟩, described, rfl, rfl⟩
  | .disjointDataProperties properties, _, _, _ =>
    refine states_gathered distinct (fun a b => .disjointDataProperties [a, b]) (fun allowed only => draws_nodes properties .named) rfl ?_
      (fun _ _ _ _ _ described => described.2) ?_ rfl ?_
    · intro few
      rw [Axiom.pieces, if_neg (by simpa [Axiom.isGathered] using few)]
    · exact fun graph a b one two left right here there => ⟨one, two, left, right, here, there, rfl, rfl⟩
    · intro graph nodes head parts chain each list
      obtain ⟨same, rfl⟩ := standing_each each
      exact ⟨rfl, head, by rw [same] at list; exact list, rfl⟩
  | .hasKey cls objectProperties dataProperties, sound, _, _ =>
    have key : ∀ triple : Triple, triple.predicate = Owl.hasKey → triple.predicate ∈ Role.classAxiomPredicates := classAxiom _ listed.2.2.2
    refine (((draws_properties distinct (free Owl.hasKey (by simp)) (fun _ => id) start).bind fun nodes middle =>
      (draws_classExpression distinct key cls sound.1 middle).pair fun middle =>
        draws_list distinct key ((nodes ++ dataProperties.map Node.named).map Term.resource)).statement
          (fun parts => [⟨parts.1, Owl.hasKey, parts.2⟩]) ?_ ?_)
    · exact fun _ _ _ _ => List.forall_mem_singleton.mpr (.inl rfl)
    · rintro graph ⟨node, head⟩ _ ⟨nodes, _, parts, _, _, each, ⟨own, chain, described, list, rfl⟩, rfl⟩
      refine tells_triple rfl rfl ⟨node, head, own, parts ++ chain, described, ⟨_, parts, chain, ⟨_, each, rfl⟩, ?_, rfl⟩, rfl, rfl⟩
        fun triple => by simp only [List.mem_append]; exact or_left_comm
      rw [List.map_append, List.map_map] at list
      exact list
  | .rule implication, sound, _, _ =>
    refine ((draws_atoms distinct nofun sound.1.2).pair fun _ => draws_atoms distinct nofun sound.2.2).node distinct Swrl.Imp
      (fun parts => [(Swrl.body, parts.1), (Swrl.head, parts.2)]) rfl ?_
    rintro graph ⟨body, head⟩ _ ⟨_, _, ⟨first, inBody, declaring⟩, ⟨second, inHead, more⟩, rfl⟩
    refine ⟨first ++ second, ⟨rfl, body, head, first, second, inBody, inHead, rfl, rfl⟩, ?_⟩
    rw [Axiom.variableNames, Rule.variableNames, List.flatMap_append]
    exact declaring.append more

end Statements

section Subjects

private theorem introduces_gathered (type predicate : Iri) (nodes : List Node) : Writes Introduces (gathered type predicate nodes) := by
  unfold gathered
  split
  · exact .pure _
  · exact (Writes.introduces ((anew_list (nodes.map .resource)).bind fun head =>
      anew_construct [(Rdf.type, (type : Term)), (Owl.members, head)])).bind fun _ => .pure _

/-- Whatever form an axiom takes, what is written of its operands is about fresh nodes or declares a variable. -/
theorem introduces_statement (bare : Axiom) : Writes Introduces (statement bare) := by
  have classes (items : List ClassExpression) : Writes Introduces (items.mapM classExpression) :=
    .each items fun item => .introduces (anew_classExpression item)
  have properties (items : List PropertyExpression) : Writes Introduces (items.mapM property) :=
    .each items fun item => .introduces (anew_property item)
  have cls (item : ClassExpression) : Writes Introduces (classExpression item) := .introduces (anew_classExpression item)
  have range (item : DataRange) : Writes Introduces (dataRange item) := .introduces (anew_dataRange item)
  have role (item : PropertyExpression) : Writes Introduces (property item) := .introduces (anew_property item)
  have listed (items : List Term) : Writes Introduces (list items) := .introduces (anew_list items)
  have denied (subject : Individual) (node : Node) (predicate : Iri) (value : Term) : Writes Introduces (denial subject node predicate value) :=
    introduces_construct [(Rdf.type, (Owl.NegativePropertyAssertion : Term)), (Owl.sourceIndividual, (subject : Term)),
      (Owl.assertionProperty, (node : Term)), (predicate, value)]
  cases bare with
  | declaration | sameIndividual | equivalentDataProperties | subDataPropertyOf | subAnnotationPropertyOf | functionalDataProperty
  | annotationAssertion | annotationPropertyRange | annotationPropertyDomain => exact .pure _
  | equivalentClasses items => exact (classes items).bind fun _ => .pure _
  | subClassOf sub sup => exact (cls sub).bind fun _ => (cls sup).bind fun _ => .pure _
  | disjointClasses items => exact (classes items).bind fun _ => introduces_gathered _ _ _
  | disjointUnion _ parts => exact (Writes.introduces (anew_classExpressions parts)).bind fun _ => (listed _).bind fun _ => .pure _
  | classAssertion item => exact (cls item).bind fun _ => .pure _
  | differentIndividuals => exact introduces_gathered _ _ _
  | objectPropertyAssertion polarity item =>
    cases polarity with
    | positive => cases item <;> exact .pure _
    | negative => exact (role item).bind fun _ => (denied _ _ _ _).bind fun _ => .pure _
  | dataPropertyAssertion polarity =>
    cases polarity with
    | positive => exact .pure _
    | negative => exact (denied _ _ _ _).bind fun _ => .pure _
  | equivalentObjectProperties items => exact (properties items).bind fun _ => .pure _
  | subObjectPropertyOf one other => exact (role one).bind fun _ => (role other).bind fun _ => .pure _
  | inverseObjectProperties one other => exact (role one).bind fun _ => (role other).bind fun _ => .pure _
  | characteristic _ item => exact (role item).bind fun _ => .pure _
  | objectPropertyDomain item domain => exact (role item).bind fun _ => (cls domain).bind fun _ => .pure _
  | objectPropertyRange item other => exact (role item).bind fun _ => (cls other).bind fun _ => .pure _
  | disjointObjectProperties items => exact (properties items).bind fun _ => introduces_gathered _ _ _
  | subPropertyChainOf chain sup => exact (properties chain).bind fun _ => (role sup).bind fun _ => (listed _).bind fun _ => .pure _
  | dataPropertyDomain _ domain => exact (cls domain).bind fun _ => .pure _
  | dataPropertyRange _ other => exact (range other).bind fun _ => .pure _
  | disjointDataProperties => exact introduces_gathered _ _ _
  | hasKey item keys => exact (properties keys).bind fun _ => (cls item).bind fun _ => (listed _).bind fun _ => .pure _
  | rule implication => exact (introduces_rule implication).bind fun _ => .pure _
  | datatypeDefinition _ other => exact (range other).bind fun _ => .pure _

end Subjects

end Rendering

end OwlGraph
