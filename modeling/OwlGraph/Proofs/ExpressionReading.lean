import OwlGraph.Axiom.Component
import OwlGraph.Proofs.CardinalityText
import OwlGraph.Proofs.CollectionReading
import OwlGraph.Proofs.WellFormed
import OwlGraph.Translation.ClassExpression

/-! Reading what describes an expression. The value is the expression, its anonymous individuals
named anew, and the triples that are used are those of the description. -/

namespace OwlGraph

namespace DataRangeForm

theorem mem_all (form : DataRangeForm) : form ∈ all := by
  cases form with
  | combination junction => cases junction <;> simp [all]
  | _ => simp [all]

private theorem selected_all : ∀ form ∈ all, all.find? (fun other =>
    (family.pattern other).suits Rdfs.Datatype (Rdf.type :: form.predicates) none) = some form := by
  decide

theorem nodup_keys (form : DataRangeForm) : (Rdf.type :: form.predicates).Nodup := by
  have nodup : ∀ form ∈ all, (Rdf.type :: form.predicates).Nodup := by decide
  exact nodup form (mem_all form)

/-- A node with the predicates of a form is read in that form. -/
theorem selected (form : DataRangeForm) {view : NodeView} {rest : List (Iri × Term)}
    (keys : rest.map Prod.fst = form.predicates) (kind : view.propertyKind = none)
    (shows : view.Shows ((Rdf.type, (Rdfs.Datatype : Term)) :: rest)) :
    family.forms.find? (fun other => (family.pattern other).fits view) = some form := by
  have suits := selected_all form (mem_all form)
  rw [← keys] at suits
  refine (congrArg (all.find? ·) (funext fun other => ?_)).trans suits
  rw [Pattern.fits_eq_suits _ shows List.mem_cons_self, kind]
  rfl

end DataRangeForm

namespace ClassForm

theorem mem_all (form : ClassForm) : form ∈ all := by
  cases form with
  | combination junction => cases junction <;> simp [all]
  | objectValues quantifier | dataValues quantifier => cases quantifier <;> simp [all]
  | objectCardinality bound | dataCardinality bound => cases bound <;> simp [all]
  | _ => simp [all]

private theorem selected_all : ∀ form ∈ all, ∀ keys ∈ form.alternatives, all.find? (fun other =>
    other.pattern.suits form.pattern.type (Rdf.type :: keys) form.kind) = some form := by
  decide

theorem nodup_keys (form : ClassForm) : ∀ keys ∈ form.alternatives, (Rdf.type :: keys).Nodup := by
  have nodup : ∀ form ∈ all, ∀ keys ∈ form.alternatives, (Rdf.type :: keys).Nodup := by decide
  exact nodup form (mem_all form)

theorem unrestricted (form : ClassForm) (kindless : form.kind = none) :
    ∀ keys ∈ form.alternatives, Owl.onProperty ∉ Rdf.type :: keys := by
  have apart : ∀ form ∈ all, form.kind = none → ∀ keys ∈ form.alternatives, Owl.onProperty ∉ Rdf.type :: keys := by
    decide
  exact apart form (mem_all form) kindless

/-- A node with the predicates of a form is read in that form, if its property is of the kind. -/
theorem selected (form : ClassForm) {view : NodeView} {rest : List (Iri × Term)}
    (keys : rest.map Prod.fst ∈ form.alternatives) (kind : view.propertyKind = form.kind)
    (shows : view.Shows ((Rdf.type, (form.pattern.type : Term)) :: rest)) :
    family.forms.find? (fun other => (family.pattern other).fits view) = some form := by
  refine (congrArg (all.find? ·) (funext fun other => ?_)).trans (selected_all form (mem_all form) _ keys)
  rw [Pattern.fits_eq_suits _ shows List.mem_cons_self, kind]
  rfl

end ClassForm

/-- The entities among the components have the property. -/
def Component.Every (holds : Entity → Prop) (components : List Component) : Prop :=
  ∀ entity, Component.entity entity ∈ components → holds entity

namespace Component.Every

variable {holds : Entity → Prop} {component : Component} {first rest : List Component}

theorem mono {some all : List Component} (every : Component.Every holds all)
    (subset : ∀ component ∈ some, component ∈ all) : Component.Every holds some :=
  fun entity member => every entity (subset _ member)

theorem cons (own : ∀ entity, component = .entity entity → holds entity) (every : Component.Every holds rest) :
    Component.Every holds (component :: rest) :=
  fun entity member => (List.mem_cons.mp member).elim (fun same => own entity same.symm) (every entity)

theorem append (left : Component.Every holds first) (right : Component.Every holds rest) : Component.Every holds (first ++ rest) :=
  fun entity member => (List.mem_append.mp member).elim (left entity) (right entity)

theorem head (every : Component.Every holds (component :: rest)) : Component.Every holds [component] := by
  refine every.mono fun other member => ?_
  rw [List.mem_singleton.mp member]
  exact List.mem_cons_self

theorem tail (every : Component.Every holds (component :: rest)) : Component.Every holds rest :=
  every.mono fun _ member => List.mem_cons_of_mem _ member

theorem left (every : Component.Every holds (first ++ rest)) : Component.Every holds first :=
  every.mono fun _ member => List.mem_append_left _ member

theorem right (every : Component.Every holds (first ++ rest)) : Component.Every holds rest :=
  every.mono fun _ member => List.mem_append_right _ member

end Component.Every

namespace World

variable {world : World}

/-- What must hold of an entity for an expression it occurs in to be read. The kinds of
properties must be known from the beginning, since they decide how triples are read. -/
structure Admissible (world : World) (entity : Entity) : Prop where
  known : world.known entity
  told : ∀ kind : PropertyKind, entity.kind = kind.entityKind → world.told entity

def Admits (world : World) : List Component → Prop := Component.Every world.Admissible

/-- No individual among the components is taken for a variable. -/
def Constant (world : World) : List Component → Prop :=
  Component.Every fun entity => entity.kind = .namedIndividual → ¬ world.isVariable entity.iri

section Operands

variable {term : Term} {block : List Triple}

theorem Yields.individual (node : Node) :
    world.Yields (Translation.individual node) (node.rename world.anonymous) [] [] := by
  refine Yields.get fun session holds => ?_
  refine (Yields.read ?_ : world.Yields _ _ [] []) session holds
  rw [holds.anonymous]
  exact Yields.pure _

theorem Yields.literal (value : Literal) : world.Yields (Translation.literal value) value [] [] := Yields.pure value

theorem Yields.named (expectation : Expectation) (iri : Iri) :
    world.Yields (Translation.named expectation iri) iri [] [] := Yields.pure iri

private theorem inverse_not_classAxiom : Owl.inverseOf ∉ Role.classAxiomPredicates :=
  Role.construct_not_classAxiom _ (by simp)

theorem Yields.propertyExpression {expression : PropertyExpression} (admits : world.Admits [.property expression])
    (described : expression.Described world.graph term block) :
    world.Yields (Translation.propertyExpression term) expression [] block := by
  have known := (admits _ (List.mem_singleton_self _)).known
  cases expression with
  | named iri =>
    obtain ⟨rfl, rfl⟩ := described
    exact Yields.look (Yields.learn known) (Yields.pure _)
  | inverse iri =>
    obtain ⟨node, rfl, single, -, rfl⟩ := described
    refine Yields.weaken (Yields.step (Yields.singleObject inverse_not_classAxiom single)
      (Yields.look (Yields.learn known) (Yields.pure _))) (fun _ member => member) (by simp [triplesAt])

theorem Yields.dataProperty {property : Iri} (admits : world.Admits [.dataProperty property]) :
    world.Yields (Translation.dataProperty property) property [] [] :=
  Yields.look (Yields.named _ property) (Yields.look (Yields.learn (admits _ (List.mem_singleton_self _)).known) (Yields.pure _))

theorem Yields.cardinality (cardinality : UInt32) :
    world.Yields (Translation.cardinality (cardinalityTerm cardinality)) cardinality [] [] := by
  have written : cardinalityTerm cardinality =
      .literal (.ofDatatype (cardinalityText cardinality) Xsd.nonNegativeInteger) := rfl
  have value (datatype : Iri) : (Literal.ofDatatype (cardinalityText cardinality) datatype).value =
      cardinalityText cardinality := by
    unfold Literal.ofDatatype
    split <;> rfl
  have datatype (text : String) : (Literal.ofDatatype text Xsd.nonNegativeInteger).datatype = Xsd.nonNegativeInteger := by
    unfold Literal.ofDatatype
    split
    next same => rw [same]; rfl
    next => rfl
  rw [written, Translation.cardinality]
  simp only [Term.literal?, value, Cardinality.parse_cardinalityText, datatype, true_or, if_true,
    UInt32.ofNat_toNat]
  exact Yields.pure cardinality

end Operands

section DataRanges

theorem Yields.facetRestriction {restriction : FacetRestriction} {term : Term} {block : List Triple}
    (known : restriction.facet.isFacet = true) (described : restriction.Described world.graph term block) :
    world.Yields (Translation.facetRestriction term) restriction block block := by
  obtain ⟨node, rfl, carries, -, rfl⟩ := described
  have single := carries_single carries (by simp) (List.mem_singleton_self _)
  refine Yields.get fun session holds => ?_
  rw [holds.view]
  obtain ⟨row, member, same, -⟩ := holds.matching_eq single
  have rows : (world.view node).rows.filter (fun row => row.triple.predicate.isFacet) = [row] := by
    refine List.perm_singleton.mp ((List.perm_ext_iff_of_nodup ?_ (List.nodup_singleton row)).mpr fun other => ?_)
    · exact ((List.Nodup.of_map Row.triple (holds.nodup_filter _)).filter _)
    · rw [List.mem_singleton, List.mem_filter]
      constructor
      · rintro ⟨inside, -⟩
        have listed := (mem_view_of_carries carries _).mp (List.mem_map_of_mem (f := Row.triple) inside)
        refine holds.row_eq (view_rows_subset other inside) member ?_
        rw [same]
        exact List.mem_singleton.mp listed
      · rintro rfl
        have shown := (mem_view_of_carries carries other.triple).mpr (by rw [same]; exact List.mem_singleton_self _)
        obtain ⟨again, inside, twin⟩ := List.mem_map.mp shown
        rw [holds.row_eq (view_rows_subset again inside) member twin] at inside
        exact ⟨inside, by rw [same]; exact known⟩
  obtain ⟨id, triple⟩ := row
  subst same
  simp only [rows]
  exact Yields.weaken (Yields.look (Yields.literal restriction.value) (Yields.step (Yields.consume member) (Yields.pure restriction)))
    (fun _ absent => absurd absent List.not_mem_nil) (fun _ => Iff.rfl) session holds

/-- A node that describes a data range of a form, whose parts are read. -/
private theorem yields_dataRangeNode (form : DataRangeForm) {rest : List (Iri × Term)} {parts : List Triple}
    {term : Term} {block : List Triple} {depth : Nat} {range : DataRange}
    (built : Construct world.graph ((Rdf.type, (Rdfs.Datatype : Term)) :: rest) parts term block)
    (keys : rest.map Prod.fst = form.predicates)
    (reads : ∀ view : NodeView, view.Shows ((Rdf.type, (Rdfs.Datatype : Term)) :: rest) →
      world.Yields (Translation.readDataRange (Translation.dataRangeWithin depth) view form) range parts parts) :
    world.Yields (Translation.dataRangeWithin (depth + 1) term) range block block := by
  obtain ⟨node, rfl, carries, apart, rfl⟩ := built
  have distinct : (((Rdf.type, (Rdfs.Datatype : Term)) :: rest).map Prod.fst).Nodup := by
    rw [List.map_cons, keys]
    exact form.nodup_keys
  have body : world.Yields (do
      let view := (← get).view node
      Translation.dispatch DataRangeForm.family view
        (Translation.readDataRange (Translation.dataRangeWithin depth) view))
      range parts (parts ++ triplesAt node ((Rdf.type, (Rdfs.Datatype : Term)) :: rest)) := by
    refine Yields.get fun session holds => ?_
    have shows := shows_of_carries holds carries distinct
    rw [holds.view]
    refine (Yields.weaken (Yields.dispatch (form.selected keys rfl shows) (reads _ shows) view_rows_subset)
      (fun _ member => member) fun triple => ?_) session holds
    rw [List.mem_append, List.mem_append, mem_view_of_carries carries]
  exact Yields.nested body apart rfl
    (List.mem_append_right _ List.mem_cons_self) fun _ member => List.mem_append_left _ member

mutual

theorem yields_dataRangeWithin : ∀ (range : DataRange) {term : Term} {block : List Triple} {depth : Nat},
    range.WellFormed world.limit → world.Admits range.components → range.Described world.graph term block →
    span block ≤ depth → world.Yields (Translation.dataRangeWithin depth term) range block block
  | .datatype iri, term, block, depth, _, admits, described, _ => by
    obtain ⟨rfl, rfl⟩ := described
    rw [Translation.dataRangeWithin]
    exact Yields.look (Yields.learn (admits _ (List.mem_singleton_self _)).known) (Yields.pure _)
  | .combination junction operands, term, block, depth, valid, admits, described, deep => by
    obtain ⟨elements, head, inner, chain, each, list, built⟩ := described
    obtain ⟨depth, rfl, shallow⟩ := built.descend deep
    refine yields_dataRangeNode (.combination junction) built rfl fun view shows => ?_
    have size := ((DataRange.describedEach_eq _ _ _ _).mp each).length_eq
    have filled : elements ≠ [] := fun empty => valid.1.1 (List.length_eq_zero_iff.mp (by rw [← size, empty]; rfl))
    have reads := yields_dataRangesWithin operands valid.2 admits each
      (Nat.le_trans (span_mono fun _ member => List.mem_append_left _ member) shallow)
    refine Yields.weaken (Yields.look (Yields.value (shows.one _ head (by simp)))
      (Yields.step (Yields.operands list (size ▸ valid.1.2) filled) (Yields.bind reads (Yields.pure _))))
      ?_ ?_ <;> simp +contextual [or_comm]
  | .complement operand, term, block, depth, valid, admits, described, deep => by
    obtain ⟨element, inner, described, built⟩ := described
    obtain ⟨depth, rfl, shallow⟩ := built.descend deep
    refine yields_dataRangeNode .complement built rfl fun view shows => ?_
    have reads := yields_dataRangeWithin operand valid admits described shallow
    refine Yields.weaken (Yields.look (Yields.value (shows.one _ element (by simp))) (Yields.bind reads (Yields.pure _)))
      ?_ ?_ <;> simp
  | .oneOf values, term, block, depth, valid, _, described, deep => by
    obtain ⟨head, chain, list, built⟩ := described
    obtain ⟨depth, rfl, shallow⟩ := built.descend deep
    refine yields_dataRangeNode .oneOf built rfl fun view shows => ?_
    have reads : world.Yields ((values.map Term.literal).mapM Translation.literal) (values.map id) [] [] :=
      Yields.eachSelf Yields.literal values
    rw [List.map_id] at reads
    refine Yields.weaken (Yields.look (Yields.value (shows.one _ head (by simp)))
      (Yields.step (Yields.operands list (by simpa using valid.2) (by simpa using valid.1)) (Yields.look reads (Yields.pure _))))
      ?_ ?_ <;> simp
  | .restriction base facets, term, block, depth, valid, admits, described, deep => by
    obtain ⟨elements, head, inner, chain, each, list, built⟩ := described
    obtain ⟨depth, rfl, shallow⟩ := built.descend deep
    refine yields_dataRangeNode .restriction built rfl fun view shows => ?_
    have reads := Yields.each each fun restriction member term part described _ =>
      Yields.facetRestriction (valid.2 restriction member) described
    rw [List.map_id'] at reads
    refine Yields.weaken (Yields.look (Yields.value (shows.one _ (base : Term) (by simp)))
      (Yields.look (Yields.named _ base) (Yields.look (Yields.value (shows.one _ head (by simp)))
      (Yields.step (Yields.readList list (each.length_eq ▸ valid.1)) (Yields.bind reads (Yields.pure _)))))) ?_ ?_ <;>
      simp +contextual [or_comm]

theorem yields_dataRangesWithin : ∀ (ranges : List DataRange) {terms : List Term} {block : List Triple} {depth : Nat},
    DataRange.WellFormedEach world.limit ranges → world.Admits (DataRange.componentsEach ranges) →
    DataRange.DescribedEach world.graph ranges terms block → span block ≤ depth →
    world.Yields (terms.mapM (Translation.dataRangeWithin depth)) ranges block block
  | [], [], block, depth, _, _, each, _ => by
    cases each
    rw [List.mapM_nil]
    exact Yields.pure []
  | range :: ranges, term :: terms, block, depth, valid, admits, each, deep => by
    obtain ⟨first, rest, described, others, rfl⟩ := each
    have one := yields_dataRangeWithin range valid.1
      admits.left described
      (Nat.le_trans (span_mono fun _ member => List.mem_append_left _ member) deep)
    have more := yields_dataRangesWithin ranges valid.2
      admits.right others
      (Nat.le_trans (span_mono fun _ member => List.mem_append_right _ member) deep)
    rw [List.mapM_cons]
    refine Yields.weaken (Yields.bind one (Yields.bind more (Yields.pure _))) ?_ ?_ <;> simp

end

theorem span_le_limit {session : Session} (holds : world.Holds session) {block : List Triple}
    (subset : ∀ triple ∈ block, triple ∈ world.graph) : span block ≤ session.store.entries.size := by
  refine Nat.le_trans (span_mono subset) (Nat.le_trans (span_le_length _) ?_)
  rw [World.graph, List.length_map, ← holds.rows]
  exact TripleStore.size_liveRows_le _

theorem Yields.dataRange {range : DataRange} {term : Term} {block : List Triple} (valid : range.WellFormed world.limit)
    (admits : world.Admits range.components) (described : range.Described world.graph term block)
    (subset : ∀ triple ∈ block, triple ∈ world.graph) :
    world.Yields (Translation.dataRange term) range block block :=
  Yields.get fun session holds => yields_dataRangeWithin range valid admits described
    (Nat.le_succ_of_le (span_le_limit holds subset)) session holds

end DataRanges

section ClassExpressions

/-- What decides in which kind a property is read. -/
theorem Yields.resolveProperty (settled : world.Settled) {iri : Iri} (kind : PropertyKind)
    (told : world.told ⟨kind.entityKind, iri⟩) (hint : Option PropertyKind) :
    world.Yields (Translation.resolveProperty iri hint) kind [] [] := by
  refine Yields.get fun session holds => ?_
  rw [holds.propertyKind? settled kind told]
  exact Yields.pure kind session holds

variable {view : NodeView} {values : List (Iri × Term)}

private theorem yields_restrictionKind_named (settled : world.Settled) {iri : Iri} {kind : PropertyKind}
    (told : world.told ⟨kind.entityKind, iri⟩) (shown : view.first? Owl.onProperty = some (iri : Term)) :
    world.Yields (Translation.restrictionKind view) (some kind) [] [] := by
  rw [Translation.restrictionKind, shown]
  exact Yields.get fun session holds =>
    Yields.look (Yields.resolveProperty settled _ told _) (Yields.pure (some kind)) session holds

private theorem yields_restrictionKind_property (settled : world.Settled) {expression : PropertyExpression}
    {term : Term} {block : List Triple} (admits : world.Admits [.property expression])
    (described : expression.Described world.graph term block) (shown : view.first? Owl.onProperty = some term) :
    world.Yields (Translation.restrictionKind view) (some .object) [] [] := by
  cases expression with
  | named iri =>
    obtain ⟨rfl, -⟩ := described
    exact yields_restrictionKind_named settled ((admits _ (List.mem_singleton_self _)).told .object rfl) shown
  | inverse iri =>
    obtain ⟨node, rfl, -⟩ := described
    rw [Translation.restrictionKind, shown]
    exact Yields.pure _

private theorem yields_restrictionKind_none (absent : view.first? Owl.onProperty = none) :
    world.Yields (Translation.restrictionKind view) none [] [] := by
  rw [Translation.restrictionKind, absent]
  exact Yields.pure _

/-- A node that describes a class expression of a form, whose parts are read. -/
private theorem yields_classNode (form : ClassForm) {rest : List (Iri × Term)} {parts : List Triple} {term : Term}
    {block : List Triple} {depth : Nat} {expression : ClassExpression}
    (built : Construct world.graph ((Rdf.type, (form.pattern.type : Term)) :: rest) parts term block)
    (keys : rest.map Prod.fst ∈ form.alternatives)
    (kind : ∀ view : NodeView, view.Shows ((Rdf.type, (form.pattern.type : Term)) :: rest) →
      world.Yields (Translation.restrictionKind view) form.kind [] [])
    (reads : ∀ view : NodeView, view.Shows ((Rdf.type, (form.pattern.type : Term)) :: rest) →
      world.Yields (Translation.readClassExpression (Translation.classExpressionWithin depth) view form) expression
        parts parts) :
    world.Yields (Translation.classExpressionWithin (depth + 1) term) expression block block := by
  obtain ⟨node, rfl, carries, apart, rfl⟩ := built
  have distinct : (((Rdf.type, (form.pattern.type : Term)) :: rest).map Prod.fst).Nodup := form.nodup_keys _ keys
  have body : world.Yields (do
      let plain := (← get).view node
      let view := { plain with propertyKind := ← Translation.restrictionKind plain }
      Translation.dispatch ClassForm.family view
        (Translation.readClassExpression (Translation.classExpressionWithin depth) view))
      expression parts (parts ++ triplesAt node ((Rdf.type, (form.pattern.type : Term)) :: rest)) := by
    refine Yields.get fun session holds => ?_
    have shows := shows_of_carries holds carries distinct
    rw [holds.view]
    refine Yields.weaken (Yields.look (kind _ shows)
      (Yields.dispatch (form.selected keys rfl (shows.withKind form.kind)) (reads _ (shows.withKind form.kind))
        view_rows_subset)) (fun _ member => member) (fun triple => ?_) session holds
    rw [List.mem_append, List.mem_append, ← mem_view_of_carries carries]
    rfl
  exact Yields.nested body apart rfl
    (List.mem_append_right _ List.mem_cons_self) fun _ member => List.mem_append_left _ member

private theorem keys_cardinality (bound : Bound) : bound.qualifiedPredicate ∉ [Rdf.type, Owl.onProperty, bound.predicate] := by
  have apart : ∀ bound ∈ [Bound.min, .max, .exact],
      bound.qualifiedPredicate ∉ [Rdf.type, Owl.onProperty, bound.predicate] := by decide
  exact apart bound (by cases bound <;> simp)

/-- A cardinality without a filler. -/
private theorem yields_boundOf_none {α : Type} {property : Term} {bound : Bound} {cardinality : UInt32}
    {predicate : Iri} {filler : Term → Translation α}
    (shows : view.Shows (restrictionValues property [(bound.predicate, cardinalityTerm cardinality)])) :
    world.Yields (Translation.boundOf view bound predicate filler) (cardinality, none) [] [] := by
  have unqualified : view.has bound.qualifiedPredicate = false := by
    rw [shows.has]
    simpa [restrictionValues] using keys_cardinality bound
  rw [Translation.boundOf, unqualified]
  exact Yields.look (Yields.value (shows.one _ (cardinalityTerm cardinality) (by simp [restrictionValues])))
    (Yields.look (Yields.cardinality cardinality) (Yields.pure _))

/-- A cardinality with a filler. -/
private theorem yields_boundOf_some {α : Type} {property element : Term} {bound : Bound} {cardinality : UInt32}
    {predicate : Iri} {filler : Term → Translation α} {value : α} {block : List Triple}
    (shows : view.Shows (restrictionValues property
      [(bound.qualifiedPredicate, cardinalityTerm cardinality), (predicate, element)]))
    (reads : world.Yields (filler element) value block block) :
    world.Yields (Translation.boundOf view bound predicate filler) (cardinality, some value) block block := by
  have qualified : view.has bound.qualifiedPredicate = true := by
    rw [shows.has]
    simp [restrictionValues]
  rw [Translation.boundOf, qualified]
  refine Yields.weaken (Yields.look (Yields.value (shows.one _ (cardinalityTerm cardinality) (by simp [restrictionValues])))
    (Yields.look (Yields.cardinality cardinality) (Yields.look (Yields.value (shows.one _ element (by simp [restrictionValues])))
      (Yields.bind reads (Yields.pure _))))) ?_ ?_ <;> simp

variable (settled : world.Settled)
include settled

mutual

theorem yields_classExpressionWithin : ∀ (expression : ClassExpression) {term : Term} {block : List Triple} {depth : Nat},
    expression.WellFormed world.limit → world.Admits expression.components →
    expression.Described world.graph term block → span block ≤ depth → (∀ triple ∈ block, triple ∈ world.graph) →
    world.Yields (Translation.classExpressionWithin depth term) (expression.rename world.anonymous) block block
  | .named iri, term, block, depth, _, admits, described, _, _ => by
    obtain ⟨rfl, rfl⟩ := described
    rw [Translation.classExpressionWithin]
    exact Yields.look (Yields.learn (admits _ (List.mem_singleton_self _)).known) (Yields.pure _)
  | .combination junction operands, term, block, depth, valid, admits, described, deep, subset => by
    obtain ⟨elements, head, inner, chain, each, list, built⟩ := described
    obtain ⟨depth, rfl, shallow⟩ := built.descend deep
    have size := ((ClassExpression.describedEach_eq _ _ _ _).mp each).length_eq
    have filled : elements ≠ [] := fun empty => valid.1.1 (List.length_eq_zero_iff.mp (by rw [← size, empty]; rfl))
    have reads := yields_classExpressionsWithin operands valid.2 admits each
      (Nat.le_trans (span_mono fun _ member => List.mem_append_left _ member) shallow)
      fun triple member => subset triple (built.parts_subset triple (List.mem_append_left _ member))
    refine yields_classNode (.combination junction) built (List.mem_singleton_self _) (fun view shows =>
      yields_restrictionKind_none (shows.first?_eq_none
        (ClassForm.unrestricted (.combination junction) rfl _ (List.mem_singleton_self _)))) fun view shows => ?_
    refine Yields.weaken (Yields.look (Yields.value (shows.one _ head (by simp)))
      (Yields.step (Yields.operands list (size ▸ valid.1.2) filled) (Yields.bind reads (Yields.pure _))))
      ?_ ?_ <;> simp +contextual [or_comm]
  | .complement operand, term, block, depth, valid, admits, described, deep, subset => by
    obtain ⟨element, inner, described, built⟩ := described
    obtain ⟨depth, rfl, shallow⟩ := built.descend deep
    have reads := yields_classExpressionWithin operand valid admits described shallow
      fun triple member => subset triple (built.parts_subset triple member)
    refine yields_classNode .complement built (List.mem_singleton_self _) (fun view shows =>
      yields_restrictionKind_none (shows.first?_eq_none
        (ClassForm.unrestricted .complement rfl _ (List.mem_singleton_self _)))) fun view shows => ?_
    refine Yields.weaken (Yields.look (Yields.value (shows.one _ element (by simp))) (Yields.bind reads (Yields.pure _)))
      ?_ ?_ <;> simp
  | .oneOf individuals, term, block, depth, valid, _, described, deep, _ => by
    obtain ⟨head, chain, list, built⟩ := described
    obtain ⟨depth, rfl, shallow⟩ := built.descend deep
    have reads : world.Yields ((individuals.map Term.resource).mapM Translation.individual)
        (individuals.map (Node.rename world.anonymous)) [] [] := Yields.eachSelf Yields.individual individuals
    refine yields_classNode .oneOf built (List.mem_singleton_self _) (fun view shows =>
      yields_restrictionKind_none (shows.first?_eq_none
        (ClassForm.unrestricted .oneOf rfl _ (List.mem_singleton_self _)))) fun view shows => ?_
    refine Yields.weaken (Yields.look (Yields.value (shows.one _ head (by simp)))
      (Yields.step (Yields.operands list (by simpa using valid.2) (by simpa using valid.1)) (Yields.look reads (Yields.pure _))))
      ?_ ?_ <;> simp
  | .objectValues quantifier p filler, term, block, depth, valid, admits, described, deep, subset => by
    obtain ⟨property, own, element, inner, named, described, built⟩ := described
    obtain ⟨depth, rfl, shallow⟩ := built.descend deep
    have reads := yields_classExpressionWithin filler valid
      admits.tail described
      (Nat.le_trans (span_mono fun _ member => List.mem_append_right _ member) shallow)
      fun triple member => subset triple (built.parts_subset triple (List.mem_append_right _ member))
    refine yields_classNode (.objectValues quantifier) built (List.mem_singleton_self _)
      (fun view shows => yields_restrictionKind_property settled admits.head named (shows.first? (by simp)))
      fun view shows => ?_
    refine Yields.weaken (Yields.look (Yields.value (shows.one _ property (by simp)))
      (Yields.step (Yields.propertyExpression admits.head named) (Yields.look (Yields.value (shows.one _ element (by simp)))
        (Yields.bind reads (Yields.pure _))))) ?_ ?_ <;> simp +contextual
  | .objectHasValue p individual, term, block, depth, _, admits, described, deep, subset => by
    obtain ⟨property, own, named, built⟩ := described
    obtain ⟨depth, rfl, shallow⟩ := built.descend deep
    refine yields_classNode .objectHasValue built (List.mem_singleton_self _)
      (fun view shows => yields_restrictionKind_property settled admits.head named (shows.first? (by simp)))
      fun view shows => ?_
    refine Yields.weaken (Yields.look (Yields.value (shows.one _ property (by simp)))
      (Yields.step (Yields.propertyExpression admits.head named) (Yields.look
        (Yields.value (shows.one _ (individual : Term) (by simp)))
        (Yields.look (Yields.individual individual) (Yields.pure _))))) ?_ ?_ <;> simp
  | .hasSelf p, term, block, depth, _, admits, described, deep, subset => by
    obtain ⟨property, own, named, built⟩ := described
    obtain ⟨depth, rfl, shallow⟩ := built.descend deep
    refine yields_classNode .hasSelf built (List.mem_singleton_self _)
      (fun view shows => yields_restrictionKind_property settled admits named (shows.first? (by simp)))
      fun view shows => ?_
    have truth : (Literal.ofDatatype "true" Xsd.boolean).value = "true" := by
      unfold Literal.ofDatatype
      split <;> rfl
    have reads : world.Yields (do
        let truth ← Translation.literal (Literal.ofDatatype "true" Xsd.boolean)
        unless truth.value = "true" ∨ truth.value = "1" do Translation.fail (.selfNotTrue view.node truth)
        return ClassExpression.hasSelf p) (.hasSelf p) [] [] := by
      refine Yields.look (Yields.literal _) ?_
      rw [truth, if_pos (Or.inl rfl)]
      exact Yields.pure _
    refine Yields.weaken (Yields.look (Yields.value (shows.one _ property (by simp)))
      (Yields.step (Yields.propertyExpression admits named)
        (Yields.look (Yields.value (shows.one _ (Literal.ofDatatype "true" Xsd.boolean : Term) (by simp))) reads)))
      ?_ ?_ <;> simp
  | .objectCardinality bound cardinality p none, term, block, depth, _, admits, described, deep, _ => by
    obtain ⟨property, own, named, built⟩ := described
    obtain ⟨depth, rfl, shallow⟩ := built.descend deep
    refine yields_classNode (.objectCardinality bound) built List.mem_cons_self
      (fun view shows => yields_restrictionKind_property settled admits named (shows.first? (by simp)))
      fun view shows => ?_
    refine Yields.weaken (Yields.look (Yields.value (shows.one _ property (by simp)))
      (Yields.step (Yields.propertyExpression admits named) (Yields.look (yields_boundOf_none shows) (Yields.pure _))))
      ?_ ?_ <;> simp
  | .objectCardinality bound cardinality p (some filler), term, block, depth, valid, admits, described, deep, subset => by
    obtain ⟨property, own, element, inner, named, described, built⟩ := described
    obtain ⟨depth, rfl, shallow⟩ := built.descend deep
    have reads := yields_classExpressionWithin filler valid
      admits.tail described
      (Nat.le_trans (span_mono fun _ member => List.mem_append_right _ member) shallow)
      fun triple member => subset triple (built.parts_subset triple (List.mem_append_right _ member))
    refine yields_classNode (.objectCardinality bound) built (List.mem_cons_of_mem _ List.mem_cons_self)
      (fun view shows => yields_restrictionKind_property settled admits.head named (shows.first? (by simp)))
      fun view shows => ?_
    refine Yields.weaken (Yields.look (Yields.value (shows.one _ property (by simp)))
      (Yields.step (Yields.propertyExpression admits.head named) (Yields.bind (yields_boundOf_some shows reads) (Yields.pure _))))
      ?_ ?_ <;> simp +contextual
  | .dataValues quantifier p filler, term, block, depth, valid, admits, described, deep, subset => by
    obtain ⟨element, inner, described, built⟩ := described
    obtain ⟨depth, rfl, shallow⟩ := built.descend deep
    have reads := Yields.dataRange valid admits.tail described
      fun triple member => subset triple (built.parts_subset triple member)
    refine yields_classNode (.dataValues quantifier) built (List.mem_singleton_self _)
      (fun view shows => yields_restrictionKind_named settled ((admits _ List.mem_cons_self).told .data rfl) (shows.first? (by simp)))
      fun view shows => ?_
    refine Yields.weaken (Yields.look (Yields.value (shows.one _ (p : Term) (by simp)))
      (Yields.look (Yields.dataProperty admits.head) (Yields.look (Yields.value (shows.one _ element (by simp)))
        (Yields.bind reads (Yields.pure _))))) ?_ ?_ <;> simp
  | .dataHasValue p value, term, block, depth, _, admits, built, deep, _ => by
    obtain ⟨depth, rfl, shallow⟩ := built.descend deep
    refine yields_classNode .dataHasValue built (List.mem_singleton_self _)
      (fun view shows => yields_restrictionKind_named settled ((admits _ List.mem_cons_self).told .data rfl) (shows.first? (by simp)))
      fun view shows => ?_
    exact Yields.look (Yields.value (shows.one _ (p : Term) (by simp)))
      (Yields.look (Yields.dataProperty admits.head) (Yields.look (Yields.value (shows.one _ (value : Term) (by simp)))
        (Yields.look (Yields.literal value) (Yields.pure _))))
  | .dataCardinality bound cardinality p none, term, block, depth, _, admits, built, deep, _ => by
    obtain ⟨depth, rfl, shallow⟩ := built.descend deep
    refine yields_classNode (.dataCardinality bound) built List.mem_cons_self
      (fun view shows => yields_restrictionKind_named settled ((admits _ List.mem_cons_self).told .data rfl) (shows.first? (by simp)))
      fun view shows => ?_
    exact Yields.look (Yields.value (shows.one _ (p : Term) (by simp)))
      (Yields.look (Yields.dataProperty admits) (Yields.look (yields_boundOf_none shows) (Yields.pure _)))
  | .dataCardinality bound cardinality p (some filler), term, block, depth, valid, admits, described, deep, subset => by
    obtain ⟨element, inner, described, built⟩ := described
    obtain ⟨depth, rfl, shallow⟩ := built.descend deep
    have reads := Yields.dataRange valid admits.tail described
      fun triple member => subset triple (built.parts_subset triple member)
    refine yields_classNode (.dataCardinality bound) built (List.mem_cons_of_mem _ List.mem_cons_self)
      (fun view shows => yields_restrictionKind_named settled ((admits _ List.mem_cons_self).told .data rfl) (shows.first? (by simp)))
      fun view shows => ?_
    refine Yields.weaken (Yields.look (Yields.value (shows.one _ (p : Term) (by simp)))
      (Yields.look (Yields.dataProperty admits.head) (Yields.bind (yields_boundOf_some shows reads) (Yields.pure _))))
      ?_ ?_ <;> simp

theorem yields_classExpressionsWithin : ∀ (expressions : List ClassExpression) {terms : List Term}
    {block : List Triple} {depth : Nat}, ClassExpression.WellFormedEach world.limit expressions →
    world.Admits (ClassExpression.componentsEach expressions) →
    ClassExpression.DescribedEach world.graph expressions terms block → span block ≤ depth →
    (∀ triple ∈ block, triple ∈ world.graph) →
    world.Yields (terms.mapM (Translation.classExpressionWithin depth))
      (ClassExpression.renameEach world.anonymous expressions) block block
  | [], [], block, depth, _, _, each, _, _ => by
    cases each
    rw [List.mapM_nil]
    exact Yields.pure []
  | expression :: expressions, term :: terms, block, depth, valid, admits, each, deep, subset => by
    obtain ⟨first, rest, described, others, rfl⟩ := each
    have one := yields_classExpressionWithin expression valid.1
      admits.left described
      (Nat.le_trans (span_mono fun _ member => List.mem_append_left _ member) deep)
      fun triple member => subset triple (List.mem_append_left _ member)
    have more := yields_classExpressionsWithin expressions valid.2
      admits.right others
      (Nat.le_trans (span_mono fun _ member => List.mem_append_right _ member) deep)
      fun triple member => subset triple (List.mem_append_right _ member)
    rw [List.mapM_cons]
    refine Yields.weaken (Yields.bind one (Yields.bind more (Yields.pure _))) ?_ ?_ <;> simp

end

theorem Yields.classExpression {expression : ClassExpression} {term : Term} {block : List Triple}
    (valid : expression.WellFormed world.limit) (admits : world.Admits expression.components)
    (described : expression.Described world.graph term block) (subset : ∀ triple ∈ block, triple ∈ world.graph) :
    world.Yields (Translation.classExpression term) (expression.rename world.anonymous) block block :=
  Yields.get fun session holds => yields_classExpressionWithin settled expression valid admits described
    (Nat.le_succ_of_le (span_le_limit holds subset)) subset session holds

end ClassExpressions

end World

end OwlGraph
