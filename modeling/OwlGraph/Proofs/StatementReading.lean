import OwlGraph.Proofs.RuleReading
import OwlGraph.Proofs.StatementDescription
import OwlGraph.Translation.Statement

/-! Reading what states an axiom. The triple that states it is read as that axiom, its anonymous
individuals named anew, and the triples that are used are those of its operands. -/

namespace OwlGraph

/-- No name of the vocabulary is asserted as a class or a property, unless it is built in. -/
def Axiom.Fitting : Axiom → Prop
  | .classAssertion (.named iri) _ => iri.isVocabulary = true → iri.isBuiltinClass = true
  | .objectPropertyAssertion .positive property _ _ => property.property.isPlain = true
  | .dataPropertyAssertion .positive property _ _ | .annotationAssertion property _ _ => property.isPlain = true
  | _ => True

namespace World

variable {world : World}

/-- What must hold of an axiom for its statement to be read as that axiom. -/
structure Sayable (world : World) (bare : Axiom) : Prop where
  valid : bare.WellFormed world.limit
  admits : world.Admits bare.components
  constant : world.Constant bare.components
  fitting : bare.Fitting
  defined : ∀ datatype range, bare = .datatypeDefinition datatype range → world.told ⟨.datatype, datatype⟩

section Parts

variable {α β γ : Type} {first : Translation α} {second : Translation β} {a : α} {b : β}
  {one two one' two' : List Triple}

/-- Two operands, read one after the other. -/
theorem Yields.both (left : world.Yields first a one one') (right : world.Yields second b two two') (f : α → β → γ) :
    world.Yields (do return f (← first) (← second)) (f a b) (one ++ two) (one' ++ two') := by
  refine Yields.weaken (Yields.bind left (Yields.bind right (Yields.pure (f a b)))) ?_ ?_ <;> simp

/-- The operands of a list, read one by one. -/
theorem Yields.operandsWith {describes : β → Term → List Triple → Prop} {read : Term → Translation α} {image : β → α}
    {items : List β} {head : Term} {block : List Triple}
    (listed : Listed world.graph (Each describes items) head block) (filled : Operands world.limit items)
    (reads : ∀ item ∈ items, ∀ term part, describes item term part → (∀ triple ∈ part, triple ∈ block) →
      world.Yields (read term) (image item) part part) :
    world.Yields (Translation.operandsWith read head) (items.map image) block block := by
  obtain ⟨elements, parts, chain, each, list, rfl⟩ := listed
  have size := each.length_eq
  have some : elements ≠ [] := fun empty => filled.1 (List.length_eq_zero_iff.mp (by rw [← size, empty]; rfl))
  have members := Yields.each each fun item member term part described subset =>
    reads item member term part described fun triple inside => List.mem_append_left _ (subset triple inside)
  refine Yields.weaken (Yields.step (Yields.operands list (size ▸ filled.2) some) members) ?_ ?_ <;>
    simp +contextual [or_comm]

end Parts

section Kinds

theorem Yields.commonKind {members : List Term} (kind : PropertyKind) {term : Term} (present : term ∈ members)
    (known : ∀ session, world.Holds session → ∀ other ∈ members, session.termPropertyKind? other = some kind) :
    world.Yields (Translation.commonKind members) kind [] [] := by
  refine Yields.get fun session holds => ?_
  cases members with
  | nil => cases present
  | cons first rest =>
    rw [List.findSome?_cons, known session holds first List.mem_cons_self]
    exact Yields.pure kind session holds

theorem Yields.pairKind {first second : Term} {kind : PropertyKind}
    (known : ∀ session, world.Holds session → ∀ other ∈ [first, second], session.termPropertyKind? other = some kind)
    (allowed : ∀ iri, some iri = first.iri? ∨ some iri = second.iri? → world.known ⟨kind.entityKind, iri⟩) :
    world.Yields (Translation.pairKind first second) kind [] [] := by
  have each : ∀ iris : List Iri, (∀ iri ∈ iris, world.known ⟨kind.entityKind, iri⟩) →
      world.Yields (iris.forM fun iri => Translation.learn iri kind.entityKind) () [] [] := by
    intro iris
    induction iris with
    | nil => exact fun _ => Yields.pure ()
    | cons iri rest ih =>
      intro all
      exact Yields.look (Yields.learn (all iri List.mem_cons_self)) (ih fun other member => all other (List.mem_cons_of_mem _ member))
  refine Yields.look (Yields.commonKind _ List.mem_cons_self known) (Yields.look (each _ fun iri member => ?_) (Yields.pure kind))
  obtain ⟨term, inside, same⟩ := List.mem_filterMap.mp member
  refine allowed iri ?_
  rcases List.mem_cons.mp inside with rfl | other
  · exact Or.inl same.symm
  · rw [List.mem_singleton.mp other] at same
    exact Or.inr same.symm

variable (coherent : world.Coherent)
include coherent

/-- A property of a term of which the kind is known. -/
private theorem termPropertyKind {session : Session} (holds : world.Holds session) {expression : PropertyExpression}
    {term : Term} {block : List Triple} (admits : world.Admits [.property expression])
    (described : expression.Described world.graph term block) : session.termPropertyKind? term = some .object := by
  cases expression with
  | named iri =>
    obtain ⟨rfl, -⟩ := described
    exact holds.propertyKind? coherent.settled .object ((admits _ (List.mem_singleton_self _)).told .object rfl)
  | inverse iri =>
    obtain ⟨node, rfl, -⟩ := described
    rfl

/-- Two object properties are taken for such. -/
theorem Yields.pairKind_object {first second : PropertyExpression} {one two : Term} {left right : List Triple}
    (admits : world.Admits [.property first, .property second]) (here : first.Described world.graph one left)
    (there : second.Described world.graph two right) :
    world.Yields (Translation.pairKind one two) .object [] [] := by
  have known : ∀ (expression : PropertyExpression) (term : Term) (block : List Triple) (iri : Iri),
      world.Admits [.property expression] → expression.Described world.graph term block → some iri = term.iri? →
      world.known ⟨.objectProperty, iri⟩ := by
    intro expression term block iri admits described same
    cases expression with
    | named name =>
      obtain ⟨rfl, -⟩ := described
      cases same
      exact (admits _ (List.mem_singleton_self _)).known
    | inverse name =>
      obtain ⟨node, rfl, -⟩ := described
      cases same
  refine Yields.pairKind (fun session holds other member => ?_) fun iri same => ?_
  · rcases List.mem_cons.mp member with rfl | later
    · exact termPropertyKind coherent holds admits.head here
    · rw [List.mem_singleton.mp later]
      exact termPropertyKind coherent holds admits.tail there
  · rcases same with same | same
    · exact known first one left iri admits.head here same
    · exact known second two right iri admits.tail there same

/-- Two named properties of one kind are taken for such. -/
theorem Yields.pairKind_named {first second : Iri} (kind : PropertyKind)
    (admits : world.Admits [.entity ⟨kind.entityKind, first⟩, .entity ⟨kind.entityKind, second⟩]) :
    world.Yields (Translation.pairKind first second) kind [] [] := by
  have one := admits ⟨kind.entityKind, first⟩ (by simp)
  have two := admits ⟨kind.entityKind, second⟩ (by simp)
  refine Yields.pairKind (fun session holds other member => ?_) fun iri same => ?_
  · rcases List.mem_cons.mp member with rfl | later
    · exact holds.propertyKind? coherent.settled kind (one.told kind rfl)
    · rw [List.mem_singleton.mp later]
      exact holds.propertyKind? coherent.settled kind (two.told kind rfl)
  · rcases same with same | same <;> cases same
    · exact one.known
    · exact two.known

theorem Yields.subjectKind_object {expression : PropertyExpression} {node : Node} {block : List Triple}
    (admits : world.Admits [.property expression]) (described : expression.Described world.graph node block)
    (hint : Option PropertyKind) : world.Yields (Translation.subjectKind node hint) .object [] [] := by
  cases expression with
  | named iri =>
    obtain ⟨same, -⟩ := described
    cases same
    exact Yields.resolveProperty coherent.settled .object ((admits _ (List.mem_singleton_self _)).told .object rfl) hint
  | inverse iri =>
    obtain ⟨blank, same, -⟩ := described
    cases same
    exact Yields.pure _

theorem Yields.subjectKind_named {iri : Iri} (kind : PropertyKind)
    (admits : world.Admits [.entity ⟨kind.entityKind, iri⟩]) (hint : Option PropertyKind) :
    world.Yields (Translation.subjectKind iri hint) kind [] [] :=
  Yields.resolveProperty coherent.settled kind ((admits _ (List.mem_singleton_self _)).told kind rfl) hint

end Kinds

section Keys

variable (coherent : world.Coherent)
include coherent

private theorem yields_objectKeys {properties : List PropertyExpression} {terms : List Term} {block : List Triple}
    (admits : world.Admits (properties.map .property))
    (each : Each (PropertyExpression.Described world.graph) properties terms block)
    (objects : Array PropertyExpression) (data : Array Iri) :
    world.Yields (terms.foldlM Translation.keyProperty (objects, data)) (objects ++ properties.toArray, data) [] block := by
  induction properties generalizing terms block objects with
  | nil =>
    cases terms with
    | nil =>
      cases each
      simpa using Yields.pure (objects, data)
    | cons => cases each
  | cons property properties ih =>
    cases terms with
    | nil => cases each
    | cons term terms =>
      obtain ⟨first, rest, described, others, rfl⟩ := each
      have reads := Yields.propertyExpression admits.head described
      have one : world.Yields (Translation.keyProperty (objects, data) term) (objects.push property, data) [] first := by
        rw [← List.append_nil first]
        cases property with
        | named iri =>
          obtain ⟨rfl, -⟩ := described
          exact Yields.look (Yields.resolveProperty coherent.settled .object
            ((admits _ List.mem_cons_self).told .object rfl) none) (Yields.step reads (Yields.pure _))
        | inverse iri =>
          obtain ⟨node, rfl, -⟩ := described
          exact Yields.look (Yields.pure PropertyKind.object) (Yields.step reads (Yields.pure _))
      have more := ih admits.tail others (objects.push property)
      rw [Array.push_eq_append, Array.append_assoc, ← List.toArray_cons] at more
      rw [List.foldlM_cons]
      exact Yields.step one more

private theorem yields_dataKeys {properties : List Iri} (admits : world.Admits (properties.map .dataProperty))
    (objects : Array PropertyExpression) (data : Array Iri) :
    world.Yields ((properties.map fun iri : Iri => (iri : Term)).foldlM Translation.keyProperty (objects, data))
      (objects, data ++ properties.toArray) [] [] := by
  induction properties generalizing data with
  | nil => simpa using Yields.pure (objects, data)
  | cons property properties ih =>
    have one : world.Yields (Translation.keyProperty (objects, data) (property : Term))
        (objects, data.push property) [] [] :=
      Yields.look (Yields.resolveProperty coherent.settled .data ((admits _ List.mem_cons_self).told .data rfl) none)
        (Yields.look (Yields.dataProperty admits.head) (Yields.pure _))
    have more := ih admits.tail (data.push property)
    rw [Array.push_eq_append, Array.append_assoc, ← List.toArray_cons] at more
    rw [List.map_cons, List.foldlM_cons]
    exact Yields.look one more

theorem Yields.keys {objectProperties : List PropertyExpression} {dataProperties : List Iri} {terms : List Term}
    {block : List Triple} (admits : world.Admits (objectProperties.map .property ++ dataProperties.map .dataProperty))
    (described : KeysDescribed world.graph objectProperties dataProperties terms block) :
    world.Yields (terms.foldlM Translation.keyProperty (#[], #[]))
      (objectProperties.toArray, dataProperties.toArray) [] block := by
  obtain ⟨elements, each, rfl⟩ := described
  have objects := yields_objectKeys coherent admits.left each #[] #[]
  have data := yields_dataKeys coherent admits.right objectProperties.toArray #[]
  rw [Array.empty_append] at objects data
  rw [List.foldlM_append]
  exact Yields.weaken (Yields.step objects data) (fun _ member => member) (by simp)

end Keys

section Shapes

/-- A node of an anonymous class expression has the one type of class expressions. -/
theorem class_of_described {graph : List Triple} {expression : ClassExpression} {term : Term}
    {block : List Triple} (described : expression.Described graph term block) :
    (∃ iri : Iri, expression = .named iri ∧ term = iri) ∨ ∃ (node : BlankNode) (type : Iri), term = node ∧
      (type = Owl.Class ∨ type = Owl.Restriction) ∧
      ∀ other : Term, (⟨node, Rdf.type, other⟩ : Triple) ∈ graph ↔ other = type := by
  have typed : ∀ (form : ClassForm) {rest : List (Iri × Term)} {parts : List Triple},
      Construct graph ((Rdf.type, (form.pattern.type : Term)) :: rest) parts term block →
      rest.map Prod.fst ∈ form.alternatives → ∃ (node : BlankNode) (type : Iri), term = node ∧
        (type = Owl.Class ∨ type = Owl.Restriction) ∧
        ∀ other : Term, (⟨node, Rdf.type, other⟩ : Triple) ∈ graph ↔ other = type := by
    rintro form rest parts ⟨node, rfl, carries, -, -⟩ keys
    refine ⟨node, form.pattern.type, rfl, ?_, carries_single carries (form.nodup_keys _ keys) List.mem_cons_self⟩
    rw [ClassForm.pattern]
    split
    · exact Or.inr rfl
    · exact Or.inl rfl
  match expression, described with
  | .named iri, ⟨same, _⟩ => exact Or.inl ⟨iri, rfl, same⟩
  | .combination junction _, ⟨_, _, _, _, _, _, built⟩ =>
    exact Or.inr (typed (.combination junction) built (List.mem_singleton_self _))
  | .complement _, ⟨_, _, _, built⟩ => exact Or.inr (typed .complement built (List.mem_singleton_self _))
  | .oneOf _, ⟨_, _, _, built⟩ => exact Or.inr (typed .oneOf built (List.mem_singleton_self _))
  | .objectValues quantifier _ _, ⟨_, _, _, _, _, _, built⟩ =>
    exact Or.inr (typed (.objectValues quantifier) built (List.mem_singleton_self _))
  | .objectHasValue _ _, ⟨_, _, _, built⟩ => exact Or.inr (typed .objectHasValue built (List.mem_singleton_self _))
  | .hasSelf _, ⟨_, _, _, built⟩ => exact Or.inr (typed .hasSelf built (List.mem_singleton_self _))
  | .objectCardinality bound _ _ none, ⟨_, _, _, built⟩ =>
    exact Or.inr (typed (.objectCardinality bound) built List.mem_cons_self)
  | .objectCardinality bound _ _ (some _), ⟨_, _, _, _, _, _, built⟩ =>
    exact Or.inr (typed (.objectCardinality bound) built (List.mem_cons_of_mem _ List.mem_cons_self))
  | .dataValues quantifier _ _, ⟨_, _, _, built⟩ =>
    exact Or.inr (typed (.dataValues quantifier) built (List.mem_singleton_self _))
  | .dataHasValue _ _, built => exact Or.inr (typed .dataHasValue built (List.mem_singleton_self _))
  | .dataCardinality bound _ _ none, built => exact Or.inr (typed (.dataCardinality bound) built List.mem_cons_self)
  | .dataCardinality bound _ _ (some _), ⟨_, _, _, built⟩ =>
    exact Or.inr (typed (.dataCardinality bound) built (List.mem_cons_of_mem _ List.mem_cons_self))

variable {session : Session} (coherent : world.Coherent) (holds : world.Holds session)
include coherent holds

private theorem not_datatype {iri : Iri} (admits : world.Admits [.cls iri]) : session.hasKind iri .datatype = false := by
  rw [Bool.eq_false_iff]
  intro also
  exact coherent.apart iri (Or.inr (admits _ (List.mem_singleton_self _)).known) (holds.stands also)

/-- A class expression does not look like a data range. -/
private theorem shape_of_described {expression : ClassExpression} {term : Term} {block : List Triple}
    (admits : world.Admits expression.components) (described : expression.Described world.graph term block) :
    session.shape? term ≠ some .dataRange := by
  rcases class_of_described described with ⟨iri, rfl, rfl⟩ | ⟨node, type, rfl, known, single⟩
  · rw [Session.shape?, Session.shapeWithin, not_datatype coherent holds admits]
    split <;> simp
  · obtain ⟨row, -, same, found⟩ := holds.matching_eq single
    have types : session.store.types node = [type] := by
      rw [TripleStore.types, TripleStore.objects, found, List.map_singleton, same]
      rfl
    have shape : Session.typeShape? type = some .cls := by
      rcases known with rfl | rfl <;> decide
    rw [Session.shape?, Session.shapeWithin, types, List.findSome?_cons, shape]
    simp

theorem definesDatatype_classes {first second : ClassExpression} {subject : Node} {object : Term} {one two : List Triple}
    (admits : world.Admits (first.components ++ second.components)) (here : first.Described world.graph subject one)
    (there : second.Described world.graph object two) : session.definesDatatype subject object = false := by
  have other := shape_of_described coherent holds admits.right there
  rcases class_of_described here with ⟨iri, rfl, same⟩ | ⟨node, type, same, -⟩
  · cases same
    rw [Session.definesDatatype]
    simp [Node.iri?, not_datatype coherent holds admits.left, other]
  · cases same
    rfl

theorem definesDatatype_datatype {datatype : Iri} (told : world.told ⟨.datatype, datatype⟩) (object : Term) :
    session.definesDatatype datatype object = true := by
  have has := holds.told _ told
  have no : session.hasKind datatype .cls = false := by
    rw [Bool.eq_false_iff]
    exact fun also => coherent.apart datatype (holds.stands also) (holds.stands has)
  simp [Session.definesDatatype, Node.iri?, no, has]

end Shapes

section Statements

variable {subject : Node} {predicate : Iri} {object : Term} {bare : Axiom} {block left right : List Triple}

private theorem yields_predicate (different : predicate ≠ Rdf.type)
    (reads : world.Yields (Translation.predicateAxiom subject predicate object) bare block block) :
    world.Yields (Translation.statement ⟨subject, predicate, object⟩) (.of bare []) block block := by
  rw [Translation.statement, if_neg different]
  exact Yields.weaken (Yields.bind reads (Yields.pure _)) (by simp) (by simp)

private theorem yields_type (plain : ∀ type ∈ Role.axiomTypes, object ≠ (type : Term))
    (reads : world.Yields (Translation.typeAxiom subject object) bare block block) :
    world.Yields (Translation.statement ⟨subject, Rdf.type, object⟩) (.of bare []) block block := by
  have other : object.iri?.filter Role.axiomTypes.contains = none := by
    cases object with
    | resource node =>
      cases node with
      | named iri =>
        have absent : iri ∉ Role.axiomTypes := fun member => plain iri member rfl
        simp [Term.iri?, Term.node?, Node.iri?, Option.filter, absent]
      | blank => rfl
    | literal => rfl
  rw [Translation.statement, if_pos rfl]
  simp only [other]
  exact Yields.weaken (Yields.bind reads (Yields.pure _)) (by simp) (by simp)

/-! The reading that each predicate selects. -/

private theorem predicateAxiom_disjointWith : Translation.predicateAxiom subject Owl.disjointWith object =
    (do return .disjointClasses [← Translation.classExpression subject, ← Translation.classExpression object]) := by
  rw [Translation.predicateAxiom]
  repeat rw [if_neg (by decide)]
  rw [if_pos rfl]

private theorem predicateAxiom_disjointUnionOf : Translation.predicateAxiom subject Owl.disjointUnionOf object =
    (do
      let cls ← Translation.named .namedClass subject
      Translation.learn cls .cls
      return .disjointUnion cls (← Translation.operandsWith Translation.classExpression object)) := by
  rw [Translation.predicateAxiom]
  repeat rw [if_neg (by decide)]
  rw [if_pos rfl]

private theorem predicateAxiom_hasKey : Translation.predicateAxiom subject Owl.hasKey object =
    Translation.hasKey subject object := by
  rw [Translation.predicateAxiom]
  repeat rw [if_neg (by decide)]
  rw [if_pos rfl]

private theorem predicateAxiom_subPropertyOf : Translation.predicateAxiom subject Rdfs.subPropertyOf object =
    Translation.subPropertyOf subject object := by
  rw [Translation.predicateAxiom]
  repeat rw [if_neg (by decide)]
  rw [if_pos rfl]

private theorem predicateAxiom_propertyChainAxiom : Translation.predicateAxiom subject Owl.propertyChainAxiom object =
    (do
      let sup ← Translation.propertyExpression subject
      return .subPropertyChainOf (← Translation.operandsWith Translation.propertyExpression object) sup) := by
  rw [Translation.predicateAxiom]
  repeat rw [if_neg (by decide)]
  rw [if_pos rfl]

private theorem predicateAxiom_equivalentProperty : Translation.predicateAxiom subject Owl.equivalentProperty object =
    Translation.equivalentProperties subject object := by
  rw [Translation.predicateAxiom]
  repeat rw [if_neg (by decide)]
  rw [if_pos rfl]

private theorem predicateAxiom_propertyDisjointWith : Translation.predicateAxiom subject Owl.propertyDisjointWith object =
    Translation.disjointPair subject object := by
  rw [Translation.predicateAxiom]
  repeat rw [if_neg (by decide)]
  rw [if_pos rfl]

private theorem predicateAxiom_inverseOf : Translation.predicateAxiom subject Owl.inverseOf object =
    (do
      return .inverseObjectProperties (← Translation.propertyExpression subject) (← Translation.propertyExpression object)) := by
  rw [Translation.predicateAxiom]
  repeat rw [if_neg (by decide)]
  rw [if_pos rfl]

private theorem predicateAxiom_domain : Translation.predicateAxiom subject Rdfs.domain object =
    Translation.propertyDomain subject object := by
  rw [Translation.predicateAxiom]
  repeat rw [if_neg (by decide)]
  rw [if_pos rfl]

private theorem predicateAxiom_range : Translation.predicateAxiom subject Rdfs.range object =
    Translation.propertyRange subject object := by
  rw [Translation.predicateAxiom]
  repeat rw [if_neg (by decide)]
  rw [if_pos rfl]

private theorem predicateAxiom_sameAs : Translation.predicateAxiom subject Owl.sameAs object =
    (do return .sameIndividual [← Translation.individual subject, ← Translation.individual object]) := by
  rw [Translation.predicateAxiom]
  repeat rw [if_neg (by decide)]
  rw [if_pos rfl]

private theorem predicateAxiom_differentFrom : Translation.predicateAxiom subject Owl.differentFrom object =
    (do return .differentIndividuals [← Translation.individual subject, ← Translation.individual object]) := by
  rw [Translation.predicateAxiom]
  repeat rw [if_neg (by decide)]
  rw [if_pos rfl]

/-- What is asserted of a property is no other axiom. -/
private theorem predicateAxiom_plain (plain : predicate.isPlain = true) :
    Translation.predicateAxiom subject predicate object = Translation.assertion subject predicate object := by
  have other : ∀ known ∈ Role.predicates, predicate ≠ known := by
    rintro known member rfl
    exact Iri.isPlain_not_predicate plain member
  have undefined : Role.definitionPredicates.contains predicate = false := by
    rw [List.contains_eq_mem, decide_eq_false_iff_not]
    intro member
    refine other predicate ?_ rfl
    exact List.mem_append_left _ (List.mem_append_right _ member)
  rw [Translation.predicateAxiom]
  repeat rw [if_neg (other _ (by simp [Role.predicates, Role.classAxiomPredicates, Role.propertyAxiomPredicates]))]
  rw [undefined]
  rfl

private theorem plain_ne_type (plain : predicate.isPlain = true) : predicate ≠ Rdf.type := by
  rintro rfl
  exact Iri.isPlain_not_predicate plain (by simp [Role.predicates])

private theorem yields_assertionKind (coherent : world.Coherent) (kind : PropertyKind) (admits : world.Admits [.entity ⟨kind.entityKind, predicate⟩]) :
    world.Yields (Translation.assertionKind predicate object) kind [] [] := by
  refine Yields.get fun session holds => ?_
  rw [holds.propertyKind? coherent.settled kind ((admits _ (List.mem_singleton_self _)).told kind rfl)]
  exact Yields.pure kind session holds

private theorem subset_left {graph : List Triple} (subset : ∀ triple ∈ left ++ right, triple ∈ graph) :
    ∀ triple ∈ left, triple ∈ graph := fun _ member => subset _ (List.mem_append_left _ member)

private theorem subset_right {graph : List Triple} (subset : ∀ triple ∈ left ++ right, triple ∈ graph) :
    ∀ triple ∈ right, triple ∈ graph := fun _ member => subset _ (List.mem_append_right _ member)

/-- Two class expressions that one triple relates. -/
private theorem yields_classes (coherent : world.Coherent) {first second : ClassExpression}
    (f : ClassExpression → ClassExpression → Axiom)
    (valid : first.WellFormed world.limit ∧ second.WellFormed world.limit)
    (admits : world.Admits (first.components ++ second.components)) (here : first.Described world.graph subject left)
    (there : second.Described world.graph object right) (subset : ∀ triple ∈ left ++ right, triple ∈ world.graph) :
    world.Yields (do return f (← Translation.classExpression subject) (← Translation.classExpression object))
      (f (first.rename world.anonymous) (second.rename world.anonymous)) (left ++ right) (left ++ right) :=
  Yields.both (Yields.classExpression coherent.settled valid.1 admits.left here (subset_left subset))
    (Yields.classExpression coherent.settled valid.2 admits.right there (subset_right subset)) f

/-- Two object properties that one triple relates. -/
private theorem yields_properties {first second : PropertyExpression} (f : PropertyExpression → PropertyExpression → Axiom)
    (admits : world.Admits [.property first, .property second]) (here : first.Described world.graph subject left)
    (there : second.Described world.graph object right) :
    world.Yields (do return f (← Translation.propertyExpression subject) (← Translation.propertyExpression object))
      (f first second) (left ++ right) (left ++ right) :=
  Yields.weaken (Yields.both (Yields.propertyExpression admits.head here) (Yields.propertyExpression admits.tail there) f)
    (by simp) (by simp)

/-- Two data properties that one triple relates. -/
private theorem yields_dataProperties {first second : Iri} (f : Iri → Iri → Axiom)
    (admits : world.Admits [.dataProperty first, .dataProperty second]) :
    world.Yields (do return f (← Translation.dataProperty first) (← Translation.dataProperty second))
      (f first second) [] [] :=
  Yields.both (Yields.dataProperty admits.head) (Yields.dataProperty admits.tail) f

/-- Two individuals that one triple relates. -/
private theorem yields_individuals (first second : Node) (f : Node → Node → Axiom) :
    world.Yields (do return f (← Translation.individual first) (← Translation.individual second))
      (f (first.rename world.anonymous) (second.rename world.anonymous)) [] [] :=
  Yields.both (Yields.individual first) (Yields.individual second) f

theorem Yields.annotationValue (value : Term) :
    world.Yields (Translation.annotationValue value) (value.rename world.anonymous) [] [] := by
  refine Yields.get fun session holds => ?_
  refine (Yields.read ?_ : world.Yields _ _ [] []) session holds
  rw [holds.anonymous]
  exact Yields.pure _

section Functions

variable (coherent : world.Coherent)

private theorem yields_chain {chain : List PropertyExpression} {sup : PropertyExpression}
    (valid : Operands world.limit chain) (admits : world.Admits (chain.map .property ++ [.property sup]))
    (here : sup.Described world.graph subject left)
    (listed : Listed world.graph (Each (PropertyExpression.Described world.graph) chain) object right) :
    world.Yields (do
      let sup ← Translation.propertyExpression subject
      return Axiom.subPropertyChainOf (← Translation.operandsWith Translation.propertyExpression object) sup)
      (.subPropertyChainOf chain sup) (left ++ right) (left ++ right) := by
  have members : world.Yields (Translation.operandsWith Translation.propertyExpression object) (chain.map id) right right := by
    refine Yields.operandsWith listed valid fun item member term part described _ => ?_
    have reads : world.Yields (Translation.propertyExpression term) item [] part :=
      Yields.propertyExpression (admits.left.mono fun _ same =>
        List.mem_map.mpr ⟨item, member, (List.mem_singleton.mp same).symm⟩) described
    exact reads.weaken (by simp) (by simp)
  rw [List.map_id] at members
  exact Yields.weaken (Yields.step (Yields.propertyExpression admits.right here) (Yields.bind members (Yields.pure _)))
    (by simp +contextual) (by simp)

include coherent

theorem Yields.hasKey {cls : ClassExpression} {objectProperties : List PropertyExpression} {dataProperties : List Iri}
    (valid : (Axiom.hasKey cls objectProperties dataProperties).Sound world.limit)
    (admits : world.Admits (Axiom.hasKey cls objectProperties dataProperties).components)
    (here : cls.Described world.graph subject left)
    (listed : Listed world.graph (KeysDescribed world.graph objectProperties dataProperties) object right)
    (subset : ∀ triple ∈ left ++ right, triple ∈ world.graph) :
    world.Yields (Translation.hasKey subject object)
      (.hasKey (cls.rename world.anonymous) objectProperties dataProperties) (left ++ right) (left ++ right) := by
  obtain ⟨elements, parts, chain, keys, list, rfl⟩ := listed
  have size : elements.length = objectProperties.length + dataProperties.length := by
    obtain ⟨terms, each, rfl⟩ := keys
    rw [List.length_append, List.length_map, each.length_eq]
  have every : world.Admits (cls.components ++ (objectProperties.map .property ++ dataProperties.map .dataProperty)) := by
    simpa [Axiom.components, List.append_assoc] using admits
  exact Yields.weaken (Yields.bind (Yields.classExpression coherent.settled valid.1 every.left here (subset_left subset))
    (Yields.step (Yields.readList list (size ▸ valid.2)) (Yields.step (Yields.keys coherent every.right keys)
      (Yields.pure _)))) (by simp +contextual) (by simp [or_comm])

theorem Yields.subAnnotationPropertyOf {sub sup : Iri}
    (admits : world.Admits [.annotationProperty sub, .annotationProperty sup]) :
    world.Yields (Translation.subPropertyOf sub sup) (.subAnnotationPropertyOf sub sup) [] [] :=
  Yields.look (Yields.pairKind_named coherent .annotating admits)
    (Yields.look (Yields.named _ sub) (Yields.look (Yields.named _ sup) (Yields.pure _)))

theorem Yields.objectPropertyDomain {property : PropertyExpression} {domain : ClassExpression}
    (valid : domain.WellFormed world.limit) (admits : world.Admits (.property property :: domain.components))
    (here : property.Described world.graph subject left) (there : domain.Described world.graph object right)
    (subset : ∀ triple ∈ right, triple ∈ world.graph) :
    world.Yields (Translation.propertyDomain subject object)
      (.objectPropertyDomain property (domain.rename world.anonymous)) (left ++ right) (left ++ right) :=
  Yields.look (Yields.subjectKind_object coherent admits.head here none)
    (Yields.weaken (Yields.both (Yields.propertyExpression admits.head here)
      (Yields.classExpression coherent.settled valid admits.tail there subset) Axiom.objectPropertyDomain)
      (by simp +contextual) (by simp))

theorem Yields.dataPropertyDomain {property : Iri} {domain : ClassExpression} (valid : domain.WellFormed world.limit)
    (admits : world.Admits (.dataProperty property :: domain.components))
    (there : domain.Described world.graph object right) (subset : ∀ triple ∈ right, triple ∈ world.graph) :
    world.Yields (Translation.propertyDomain property object)
      (.dataPropertyDomain property (domain.rename world.anonymous)) right right :=
  Yields.look (Yields.subjectKind_named coherent .data admits.head none)
    (Yields.both (Yields.dataProperty admits.head) (Yields.classExpression coherent.settled valid admits.tail there subset)
      Axiom.dataPropertyDomain)

theorem Yields.annotationPropertyDomain {property domain : Iri}
    (admits : world.Admits [.annotationProperty property, .iri domain]) :
    world.Yields (Translation.propertyDomain property domain) (.annotationPropertyDomain property domain) [] [] :=
  Yields.look (Yields.subjectKind_named coherent .annotating admits.head none)
    (Yields.look (Yields.named _ property) (Yields.look (Yields.named _ domain) (Yields.pure _)))

theorem Yields.objectPropertyRange {property : PropertyExpression} {range : ClassExpression}
    (valid : range.WellFormed world.limit) (admits : world.Admits (.property property :: range.components))
    (here : property.Described world.graph subject left) (there : range.Described world.graph object right)
    (subset : ∀ triple ∈ right, triple ∈ world.graph) :
    world.Yields (Translation.propertyRange subject object)
      (.objectPropertyRange property (range.rename world.anonymous)) (left ++ right) (left ++ right) :=
  Yields.get fun session holds => (Yields.look (Yields.subjectKind_object coherent admits.head here _)
    (Yields.weaken (Yields.both (Yields.propertyExpression admits.head here)
      (Yields.classExpression coherent.settled valid admits.tail there subset) Axiom.objectPropertyRange)
      (by simp +contextual) (by simp))) session holds

theorem Yields.dataPropertyRange {property : Iri} {range : DataRange} (valid : range.WellFormed world.limit)
    (admits : world.Admits (.dataProperty property :: range.components))
    (there : range.Described world.graph object right) (subset : ∀ triple ∈ right, triple ∈ world.graph) :
    world.Yields (Translation.propertyRange property object) (.dataPropertyRange property range) right right :=
  Yields.get fun session holds => (Yields.look (Yields.subjectKind_named coherent .data admits.head _)
    (Yields.both (Yields.dataProperty admits.head) (Yields.dataRange valid admits.tail there subset)
      Axiom.dataPropertyRange)) session holds

theorem Yields.annotationPropertyRange {property range : Iri}
    (admits : world.Admits [.annotationProperty property, .iri range]) :
    world.Yields (Translation.propertyRange property range) (.annotationPropertyRange property range) [] [] :=
  Yields.get fun session holds => (Yields.look (Yields.subjectKind_named coherent .annotating admits.head _)
    (Yields.both (Yields.named _ property) (Yields.named _ range) Axiom.annotationPropertyRange)) session holds

end Functions

/-- The axiom of a triple that is no type triple. -/
private theorem yields_predicateAxiom (coherent : world.Coherent) : ∀ (bare : Axiom) {subject : Node} {predicate : Iri}
    {object : Term} {block : List Triple}, world.Sayable bare → predicate ≠ Rdf.type →
    bare.Stated world.graph ⟨subject, predicate, object⟩ block → (∀ triple ∈ block, triple ∈ world.graph) →
    world.Yields (Translation.predicateAxiom subject predicate object) (bare.rename world.anonymous) block block := by
  intro bare subject predicate object block sayable different stated subset
  obtain ⟨⟨valid, -⟩, admits, -, fitting, defined⟩ := sayable
  match bare, stated with
  | .subClassOf sub sup, stated =>
    obtain ⟨_, _, left, right, here, there, same, rfl⟩ := stated
    cases same
    rw [Translation.predicateAxiom, if_pos rfl]
    exact yields_classes coherent .subClassOf valid admits here there subset
  | .equivalentClasses [first, second], stated =>
    obtain ⟨_, _, left, right, here, there, same, rfl⟩ := stated
    cases same
    have pair : world.Admits (first.components ++ second.components) := by simpa [Axiom.components] using admits
    rw [Translation.predicateAxiom, if_neg (by decide), if_pos rfl]
    refine Yields.get fun session holds => ?_
    rw [definesDatatype_classes coherent holds pair here there]
    exact yields_classes coherent (fun a b => .equivalentClasses [a, b]) ⟨valid _ (by simp), valid _ (by simp)⟩ pair here there
      subset session holds
  | .disjointClasses [first, second], stated =>
    obtain ⟨_, _, left, right, here, there, same, rfl⟩ := stated
    cases same
    rw [predicateAxiom_disjointWith]
    exact yields_classes coherent (fun a b => .disjointClasses [a, b]) ⟨valid _ (by simp), valid _ (by simp)⟩
      (by simpa [Axiom.components] using admits) here there subset
  | .disjointUnion cls parts, stated =>
    obtain ⟨_, _, _, right, ⟨here, rfl⟩, listed, same, rfl⟩ := stated
    cases same
    cases here
    rw [predicateAxiom_disjointUnionOf]
    refine Yields.weaken (Yields.look (Yields.named _ cls) (Yields.look (Yields.learn (admits _ List.mem_cons_self).known)
      (Yields.bind (Yields.operandsWith listed valid.1
        fun item member term part described inside => ?_) (Yields.pure _)))) (by simp) (by simp)
    exact Yields.classExpression coherent.settled (valid.2 item member)
      (admits.tail.mono fun _ within => List.mem_flatMap.mpr ⟨item, member, within⟩) described
      fun triple within => subset triple (inside triple within)
  | .sameIndividual [first, second], stated =>
    obtain ⟨_, _, _, _, ⟨here, rfl⟩, ⟨there, rfl⟩, same, rfl⟩ := stated
    cases same
    cases here
    cases there
    rw [predicateAxiom_sameAs]
    exact yields_individuals _ _ fun a b => .sameIndividual [a, b]
  | .differentIndividuals [first, second], stated =>
    obtain ⟨_, _, _, _, ⟨here, rfl⟩, ⟨there, rfl⟩, same, rfl⟩ := stated
    cases same
    cases here
    cases there
    rw [predicateAxiom_differentFrom]
    exact yields_individuals _ _ fun a b => .differentIndividuals [a, b]
  | .objectPropertyAssertion .positive (.named property) first second, stated =>
    obtain ⟨_, _, _, _, ⟨here, rfl⟩, ⟨there, rfl⟩, same, rfl⟩ := stated
    cases same
    cases here
    cases there
    have known : world.Admits [.property (.named predicate)] := admits.head
    have plain : predicate.isPlain = true := fitting
    rw [predicateAxiom_plain plain]
    exact Yields.look (yields_assertionKind coherent .object known)
      (Yields.look (Yields.propertyExpression known ⟨rfl, rfl⟩)
        (Yields.look (Yields.individual _) (Yields.look (Yields.individual _) (Yields.pure _))))
  | .dataPropertyAssertion .positive property first value, stated =>
    obtain ⟨_, _, _, _, ⟨here, rfl⟩, ⟨there, rfl⟩, same, rfl⟩ := stated
    cases same
    cases here
    cases there
    rw [predicateAxiom_plain fitting]
    exact Yields.look (yields_assertionKind coherent .data admits.head)
      (Yields.look (Yields.dataProperty admits.head)
        (Yields.look (Yields.individual _) (Yields.look (Yields.literal _) (Yields.pure _))))
  | .annotationAssertion property node value, stated =>
    obtain ⟨_, _, _, _, ⟨here, rfl⟩, ⟨there, rfl⟩, same, rfl⟩ := stated
    cases same
    cases here
    cases there
    rw [predicateAxiom_plain fitting]
    exact Yields.look (yields_assertionKind coherent .annotating admits.head)
      (Yields.look (Yields.individual _) (Yields.look (Yields.annotationValue _) (Yields.pure _)))
  | .equivalentObjectProperties [first, second], stated =>
    obtain ⟨_, _, left, right, here, there, same, rfl⟩ := stated
    cases same
    rw [predicateAxiom_equivalentProperty]
    exact Yields.look (Yields.pairKind_object coherent admits here there)
      (yields_properties (fun a b => .equivalentObjectProperties [a, b]) admits here there)
  | .disjointObjectProperties [first, second], stated =>
    obtain ⟨_, _, left, right, here, there, same, rfl⟩ := stated
    cases same
    rw [predicateAxiom_propertyDisjointWith]
    exact Yields.look (Yields.pairKind_object coherent admits here there)
      (yields_properties (fun a b => .disjointObjectProperties [a, b]) admits here there)
  | .subObjectPropertyOf sub sup, stated =>
    obtain ⟨_, _, left, right, here, there, same, rfl⟩ := stated
    cases same
    rw [predicateAxiom_subPropertyOf]
    exact Yields.look (Yields.pairKind_object coherent admits here there)
      (yields_properties .subObjectPropertyOf admits here there)
  | .inverseObjectProperties first second, stated =>
    obtain ⟨_, _, left, right, here, there, same, rfl⟩ := stated
    cases same
    rw [predicateAxiom_inverseOf]
    exact yields_properties .inverseObjectProperties admits here there
  | .equivalentDataProperties [first, second], stated =>
    obtain ⟨_, _, _, _, ⟨here, rfl⟩, ⟨there, rfl⟩, same, rfl⟩ := stated
    cases same
    cases here
    cases there
    rw [predicateAxiom_equivalentProperty]
    exact Yields.look (Yields.pairKind_named coherent .data admits)
      (yields_dataProperties (fun a b => .equivalentDataProperties [a, b]) admits)
  | .disjointDataProperties [first, second], stated =>
    obtain ⟨_, _, _, _, ⟨here, rfl⟩, ⟨there, rfl⟩, same, rfl⟩ := stated
    cases same
    cases here
    cases there
    rw [predicateAxiom_propertyDisjointWith]
    exact Yields.look (Yields.pairKind_named coherent .data admits)
      (yields_dataProperties (fun a b => .disjointDataProperties [a, b]) admits)
  | .subDataPropertyOf sub sup, stated =>
    obtain ⟨_, _, _, _, ⟨here, rfl⟩, ⟨there, rfl⟩, same, rfl⟩ := stated
    cases same
    cases here
    cases there
    rw [predicateAxiom_subPropertyOf]
    exact Yields.look (Yields.pairKind_named coherent .data admits)
      (yields_dataProperties .subDataPropertyOf admits)
  | .subAnnotationPropertyOf sub sup, stated =>
    obtain ⟨_, _, _, _, ⟨here, rfl⟩, ⟨there, rfl⟩, same, rfl⟩ := stated
    cases same
    cases here
    cases there
    rw [predicateAxiom_subPropertyOf]
    exact Yields.subAnnotationPropertyOf coherent admits
  | .objectPropertyDomain property domain, stated =>
    obtain ⟨_, _, left, right, here, there, same, rfl⟩ := stated
    cases same
    rw [predicateAxiom_domain]
    exact Yields.objectPropertyDomain coherent valid admits here there (subset_right subset)
  | .dataPropertyDomain property domain, stated =>
    obtain ⟨_, _, _, right, ⟨here, rfl⟩, there, same, rfl⟩ := stated
    cases same
    cases here
    rw [predicateAxiom_domain]
    exact Yields.dataPropertyDomain coherent valid admits there subset
  | .annotationPropertyDomain property domain, stated =>
    obtain ⟨_, _, _, _, ⟨here, rfl⟩, ⟨there, rfl⟩, same, rfl⟩ := stated
    cases same
    cases here
    cases there
    rw [predicateAxiom_domain]
    exact Yields.annotationPropertyDomain coherent admits
  | .objectPropertyRange property range, stated =>
    obtain ⟨_, _, left, right, here, there, same, rfl⟩ := stated
    cases same
    rw [predicateAxiom_range]
    exact Yields.objectPropertyRange coherent valid admits here there (subset_right subset)
  | .dataPropertyRange property range, stated =>
    obtain ⟨_, _, _, right, ⟨here, rfl⟩, there, same, rfl⟩ := stated
    cases same
    cases here
    rw [predicateAxiom_range]
    exact Yields.dataPropertyRange coherent valid admits there subset
  | .annotationPropertyRange property range, stated =>
    obtain ⟨_, _, _, _, ⟨here, rfl⟩, ⟨there, rfl⟩, same, rfl⟩ := stated
    cases same
    cases here
    cases there
    rw [predicateAxiom_range]
    exact Yields.annotationPropertyRange coherent admits
  | .subPropertyChainOf chain sup, stated =>
    obtain ⟨_, _, left, right, here, listed, same, rfl⟩ := stated
    cases same
    rw [predicateAxiom_propertyChainAxiom]
    exact yields_chain valid admits here listed
  | .hasKey cls objectProperties dataProperties, stated =>
    obtain ⟨_, _, left, right, here, ⟨elements, parts, chain, keys, list, rfl⟩, same, rfl⟩ := stated
    cases same
    rw [predicateAxiom_hasKey]
    exact Yields.hasKey coherent valid admits here ⟨elements, parts, chain, keys, list, rfl⟩ subset
  | .datatypeDefinition datatype range, stated =>
    obtain ⟨_, _, _, right, ⟨here, rfl⟩, there, same, rfl⟩ := stated
    cases same
    cases here
    rw [Translation.predicateAxiom, if_neg (by decide), if_pos rfl]
    refine Yields.get fun session holds => ?_
    rw [definesDatatype_datatype coherent holds (defined datatype range rfl)]
    exact Yields.both (Yields.named _ datatype) (Yields.dataRange valid admits.tail there subset)
      Axiom.datatypeDefinition session holds
  | .declaration entity, stated =>
    obtain ⟨_, _, _, _, -, -, same, -⟩ := stated
    cases same
    exact absurd rfl different
  | .classAssertion cls individual, stated =>
    obtain ⟨_, _, _, _, -, -, same, -⟩ := stated
    cases same
    exact absurd rfl different
  | .characteristic trait property, stated =>
    obtain ⟨_, _, _, _, -, -, same, -⟩ := stated
    cases same
    exact absurd rfl different
  | .functionalDataProperty property, stated =>
    obtain ⟨_, _, _, _, -, -, same, -⟩ := stated
    cases same
    exact absurd rfl different

/-- A type triple states the class of an individual or the characteristic of a property. -/
theorem stated_type {graph : List Triple} (fitting : bare.Fitting) (undeclared : bare.kind ≠ .declaration)
    (stated : bare.Stated graph ⟨subject, Rdf.type, object⟩ block) :
    (∃ cls individual, bare = .classAssertion cls individual) ∨ (∃ trait property, bare = .characteristic trait property) ∨
      ∃ property, bare = .functionalDataProperty property := by
  have same := Axiom.predicate_of_stated stated
  have plain : ∀ {predicate : Iri}, predicate.isPlain = true → Rdf.type ≠ predicate := fun known => (plain_ne_type known).symm
  cases bare with
  | classAssertion cls individual => exact Or.inl ⟨cls, individual, rfl⟩
  | characteristic trait property => exact Or.inr (Or.inl ⟨trait, property, rfl⟩)
  | functionalDataProperty property => exact Or.inr (Or.inr ⟨property, rfl⟩)
  | declaration => exact absurd rfl undeclared
  | rule => exact stated.elim
  | objectPropertyAssertion polarity property =>
    cases polarity with
    | positive => exact absurd same (plain fitting)
    | negative => exact stated.elim
  | dataPropertyAssertion polarity property =>
    cases polarity with
    | positive => exact absurd same (plain fitting)
    | negative => exact stated.elim
  | annotationAssertion property => exact absurd same (plain fitting)
  | _ =>
    have apart : Rdf.type ∉ Role.classAxiomPredicates ++ Role.propertyAxiomPredicates := by decide
    refine absurd ?_ apart
    rw [show Rdf.type = _ from same]
    simp [Axiom.predicate, Role.classAxiomPredicates, Role.propertyAxiomPredicates]

/-- The type that a class is asserted by is none of those that the mapping knows. -/
theorem asserted_type {graph : List Triple} {cls : ClassExpression} {individual : Individual}
    (fitting : (Axiom.classAssertion cls individual).Fitting) (described : cls.Described graph object block) :
    ∀ type ∈ Role.types, object ≠ (type : Term) := by
  rintro type member rfl
  rcases class_of_described described with ⟨iri, rfl, same⟩ | ⟨node, _, same, -⟩
  · cases same
    exact Iri.not_type_of_class fitting member
  · cases same

/-- The axiom of a type triple that does not enter a node. -/
private theorem yields_typeAxiom (coherent : world.Coherent) (sayable : world.Sayable bare)
    (undeclared : bare.kind ≠ .declaration) (stated : bare.Stated world.graph ⟨subject, Rdf.type, object⟩ block)
    (subset : ∀ triple ∈ block, triple ∈ world.graph) :
    world.Yields (Translation.typeAxiom subject object) (bare.rename world.anonymous) block block ∧
      ∀ type ∈ Role.axiomTypes, object ≠ (type : Term) := by
  obtain ⟨⟨valid, -⟩, admits, -, fitting, -⟩ := sayable
  rcases stated_type fitting undeclared stated with ⟨cls, individual, rfl⟩ | ⟨trait, property, rfl⟩ | ⟨property, rfl⟩
  · obtain ⟨_, _, _, right, ⟨here, rfl⟩, there, same, rfl⟩ := stated
    cases same
    cases here
    have foreign := asserted_type fitting there
    refine ⟨?_, fun type member => foreign type (by simp [Role.types, Role.specialTypes, member])⟩
    have resource : object.literal?.isSome = false := by
      rcases class_of_described there with ⟨iri, -, rfl⟩ | ⟨node, _, rfl, -⟩ <;> rfl
    have reads : world.Yields (Translation.classAssertion subject object)
        (.classAssertion (cls.rename world.anonymous) (subject.rename world.anonymous)) block block := by
      rw [Translation.classAssertion, resource]
      exact Yields.weaken (Yields.both (Yields.classExpression coherent.settled valid admits.left there subset)
        (Yields.individual subject) Axiom.classAssertion) (by simp) (by simp)
    rw [Translation.typeAxiom]
    split
    next type named =>
      have same : object = (type : Term) := by
        cases object with
        | resource node => cases node <;> cases named; rfl
        | literal => cases named
      have other : Characteristic.ofType? type = none := by
        refine List.find?_eq_none.mpr fun trait member known => foreign type ?_ same
        rw [beq_iff_eq] at known
        rw [← known]
        cases trait <;> simp [Role.types, Characteristic.all]
      rw [if_neg (by rintro rfl; exact foreign _ (by simp [Role.types, Characteristic.all, Characteristic.type]) same), other]
      exact reads
    next => exact reads
  · obtain ⟨_, _, left, _, here, ⟨there, rfl⟩, same, rfl⟩ := stated
    cases same
    cases there
    have property := Yields.propertyExpression admits here
    refine ⟨?_, ?_⟩
    · rw [List.append_nil, Translation.typeAxiom]
      simp only [Term.iri?, Term.node?, Node.iri?, Option.bind_some]
      by_cases functional : trait = .functional
      · subst functional
        rw [if_pos (show Characteristic.type .functional = Owl.FunctionalProperty from rfl)]
        exact Yields.look (Yields.subjectKind_object coherent admits here none)
          (Yields.weaken (Yields.step property (Yields.pure _)) (by simp) (by simp))
      · have known : trait ∈ Characteristic.ofObjects := by cases trait <;> simp [Characteristic.ofObjects] at functional ⊢
        rw [if_neg, Characteristic.ofType?_type trait known]
        · exact Yields.weaken (Yields.step property (Yields.pure _)) (by simp) (by simp)
        · intro same
          have found := Characteristic.ofType?_type trait known
          rw [same] at found
          cases Characteristic.ofType?_functional.symm.trans found
    · have apart : ∀ trait ∈ Characteristic.all, trait.type ∉ Role.axiomTypes := by decide
      intro type member same
      cases same
      exact apart trait (by cases trait <;> simp [Characteristic.all]) member
  · obtain ⟨_, _, _, _, ⟨here, rfl⟩, ⟨there, rfl⟩, same, rfl⟩ := stated
    cases same
    cases here
    cases there
    refine ⟨?_, fun type member same => ?_⟩
    · rw [Translation.typeAxiom]
      simp only [Term.iri?, Term.node?, Node.iri?, Option.bind_some, if_true]
      exact Yields.look (Yields.subjectKind_named coherent .data admits none)
        (Yields.look (Yields.dataProperty admits) (Yields.pure _))
    · have apart : Owl.FunctionalProperty ∉ Role.axiomTypes := by decide
      cases same
      exact apart member

/-- The triple that states an axiom is read as that axiom. -/
theorem Yields.stated (coherent : world.Coherent) {bare : Axiom} {main : Triple} (sayable : world.Sayable bare)
    (undeclared : bare.kind ≠ .declaration) (stated : bare.Stated world.graph main block)
    (subset : ∀ triple ∈ block, triple ∈ world.graph) :
    world.Yields (Translation.statement main) (.of (bare.rename world.anonymous) []) block block := by
  obtain ⟨subject, predicate, object⟩ := main
  by_cases typed : predicate = Rdf.type
  · subst typed
    obtain ⟨reads, plain⟩ := yields_typeAxiom coherent sayable undeclared stated subset
    exact yields_type plain reads
  · exact yields_predicate typed (yields_predicateAxiom coherent bare sayable typed stated subset)

end Statements

section Gatherings

variable {node : BlankNode} {values : List (Iri × Term)} {block : List Triple}

/-- The value of a predicate on a node that gathers operands. -/
private theorem yields_value (gathers : Gathers world.graph node values) (distinct : (values.map Prod.fst).Nodup)
    {predicate : Iri} {object : Term} (member : (predicate, object) ∈ values)
    (known : predicate ∈ Role.structuralPredicates) :
    world.Yields (Translation.singleObject node predicate) object [] [⟨node, predicate, object⟩] := by
  refine Yields.singleObject (Role.construct_not_classAxiom _ (by simp [Role.constructPredicates, known])) fun other => ?_
  rw [gathers predicate known]
  constructor
  · exact fun also => congrArg Prod.snd (List.inj_on_of_nodup_map distinct also member rfl)
  · rintro rfl
    exact member

/-- Whether a node has a value of the predicate. -/
private theorem matching_isEmpty {session : Session} (holds : world.Holds session) (gathers : Gathers world.graph node values)
    {predicate : Iri} (known : predicate ∈ Role.structuralPredicates) :
    (session.store.matching node predicate).isEmpty = !(values.map Prod.fst).contains predicate := by
  rw [holds.matching, Bool.eq_iff_iff, List.isEmpty_iff, List.filter_eq_nil_iff, Bool.not_eq_true', List.contains_eq_mem,
    decide_eq_false_iff_not]
  constructor
  · intro none member
    obtain ⟨value, inside, rfl⟩ := List.mem_map.mp member
    obtain ⟨row, present, same⟩ := List.mem_map.mp ((gathers value.1 known value.2).mpr inside)
    exact none row present (by simp [same])
  · intro absent row present kept
    rw [Bool.and_eq_true, beq_iff_eq, beq_iff_eq] at kept
    refine absent (List.mem_map.mpr ⟨(predicate, row.triple.object), (gathers predicate known _).mp ?_, rfl⟩)
    rw [← kept.1, ← kept.2]
    exact List.mem_map_of_mem present

/-- The atoms of a conjunction. -/
private theorem yields_atoms (coherent : world.Coherent)
    (declares : ∀ iri : Iri, (⟨iri, Rdf.type, Swrl.Variable⟩ : Triple) ∈ world.graph → world.isVariable iri)
    {atoms : List Atom} {head : Term} (valid : Rule.Conjunction world.limit atoms)
    (admits : world.Admits (atoms.flatMap Atom.components)) (constant : world.Constant (atoms.flatMap Atom.components))
    (listed : Listed world.graph (Each (Atom.Described world.graph) atoms) head block)
    (subset : ∀ triple ∈ block, triple ∈ world.graph) :
    world.Yields (Translation.atoms head) (atoms.map (Atom.rename world.anonymous)) block block := by
  obtain ⟨elements, parts, chain, each, list, rfl⟩ := listed
  have members := Yields.each each
    fun atom member term part described inside => Yields.atom coherent declares (valid.2 atom member)
      (admits.mono fun _ within => List.mem_flatMap.mpr ⟨atom, member, within⟩)
      (constant.mono fun _ within => List.mem_flatMap.mpr ⟨atom, member, within⟩) described
      fun triple within => subset triple (List.mem_append_left _ (inside triple within))
  exact Yields.weaken (Yields.step (Yields.readList list (each.length_eq ▸ valid.1)) members) (by simp +contextual)
    (by simp [or_comm])

/-- The operands of an axiom that are individuals. -/
private theorem yields_individualOperands {individuals : List Individual} {head : Term}
    (filled : Operands world.limit individuals) (list : Chain world.graph (individuals.map .resource) head block) :
    world.Yields (Translation.operandsWith Translation.individual head)
      (individuals.map (Node.rename world.anonymous)) [] block := by
  have reads : world.Yields ((individuals.map Term.resource).mapM Translation.individual)
      (individuals.map (Node.rename world.anonymous)) [] [] := Yields.eachSelf Yields.individual individuals
  exact Yields.weaken (Yields.step (Yields.operands list (by simpa using filled.2) (by simpa using filled.1)) reads)
    (by simp) (by simp)

section Disjointness

variable (coherent : world.Coherent)
include coherent

theorem Yields.disjointObjectProperties {properties : List PropertyExpression} {members : List Term}
    (admits : world.Admits (properties.map .property)) (filled : properties ≠ [])
    (each : Each (PropertyExpression.Described world.graph) properties members block) :
    world.Yields (Translation.disjointProperties members) (.disjointObjectProperties properties) [] block := by
  have own : ∀ property ∈ properties, world.Admits [.property property] := fun property member =>
    admits.mono fun _ same => List.mem_map.mpr ⟨property, member, (List.mem_singleton.mp same).symm⟩
  have reads : world.Yields (members.mapM Translation.propertyExpression) properties [] block := by
    induction properties generalizing members block with
    | nil => exact absurd rfl filled
    | cons property rest ih =>
      cases members with
      | nil => cases each
      | cons term terms =>
        obtain ⟨first, others, described, later, rfl⟩ := each
        have one := Yields.propertyExpression (own property List.mem_cons_self) described
        rw [List.mapM_cons]
        cases rest with
        | nil =>
          cases terms with
          | nil =>
            cases later
            rw [List.mapM_nil]
            exact Yields.step one (Yields.look (Yields.pure []) (Yields.pure _))
          | cons => cases later
        | cons next rest =>
          have more := ih admits.tail nofun later fun property member => own property (List.mem_cons_of_mem _ member)
          exact Yields.weaken (Yields.step one (Yields.step more (Yields.pure _))) (by simp) (by simp)
  have known : ∀ session, world.Holds session → ∀ other ∈ members, session.termPropertyKind? other = some .object := by
    intro session holds other member
    clear reads filled admits
    induction properties generalizing members block with
    | nil => cases members with
      | nil => cases member
      | cons => cases each
    | cons property rest ih => cases members with
      | nil => cases each
      | cons term terms =>
        obtain ⟨first, others, described, later, rfl⟩ := each
        rcases List.mem_cons.mp member with rfl | inside
        · exact termPropertyKind coherent holds (own property List.mem_cons_self) described
        · exact ih later (fun property inside => own property (List.mem_cons_of_mem _ inside)) inside
  obtain ⟨first, present⟩ : ∃ first, first ∈ members := by
    refine List.exists_mem_of_ne_nil _ fun empty => filled (List.length_eq_zero_iff.mp ?_)
    rw [← each.length_eq, empty]
    rfl
  exact Yields.look (Yields.commonKind _ present known) (Yields.weaken (Yields.step reads (Yields.pure _)) (by simp) (by simp))

theorem Yields.disjointDataProperties {properties : List Iri} (admits : world.Admits (properties.map .dataProperty))
    (filled : properties ≠ []) :
    world.Yields (Translation.disjointProperties (properties.map fun iri : Iri => (iri : Term)))
      (.disjointDataProperties properties) [] [] := by
  have own : ∀ property ∈ properties, world.Admits [.dataProperty property] := fun property member =>
    admits.mono fun _ same => List.mem_map.mpr ⟨property, member, (List.mem_singleton.mp same).symm⟩
  have reads : world.Yields ((properties.map fun iri : Iri => (iri : Term)).mapM Translation.dataProperty)
      (properties.map id) [] [] := by
    refine Yields.eachLook (List.forall₂_map_right_iff.mpr (List.forall₂_same.mpr fun _ _ => rfl))
      fun property member term same => ?_
    subst same
    exact Yields.dataProperty (own property member)
  rw [List.map_id] at reads
  obtain ⟨first, present⟩ := List.exists_mem_of_ne_nil _ filled
  refine Yields.look (Yields.commonKind .data (List.mem_map_of_mem present) fun session holds other member => ?_)
    (Yields.look reads (Yields.pure _))
  obtain ⟨property, inside, rfl⟩ := List.mem_map.mp member
  exact holds.propertyKind? coherent.settled .data ((own property inside _ (List.mem_singleton_self _)).told .data rfl)

end Disjointness

section Denials

private theorem denial_keys : [Owl.sourceIndividual, Owl.assertionProperty, Owl.targetIndividual].Nodup ∧
    [Owl.sourceIndividual, Owl.assertionProperty, Owl.targetValue].Nodup ∧
    Owl.targetValue ∉ [Owl.sourceIndividual, Owl.assertionProperty, Owl.targetIndividual] := by
  decide

theorem Yields.negativeObject {property : PropertyExpression} {subject object : Individual} {term : Term}
    (admits : world.Admits [.property property]) (described : property.Described world.graph term block)
    (gathers : Gathers world.graph node [(Owl.sourceIndividual, (subject : Term)), (Owl.assertionProperty, term),
      (Owl.targetIndividual, (object : Term))]) :
    world.Yields (Translation.negativeAssertion node)
      (.objectPropertyAssertion .negative property (subject.rename world.anonymous) (object.rename world.anonymous)) []
      (block ++ triplesAt node [(Owl.sourceIndividual, (subject : Term)), (Owl.assertionProperty, term),
        (Owl.targetIndividual, (object : Term))]) := by
  have target : world.Yields (do
      let session ← MonadState.get
      if (session.store.matching node Owl.targetValue).isEmpty then
        let target ← Translation.singleObject node Owl.targetIndividual
        return Axiom.objectPropertyAssertion .negative (← Translation.propertyExpression term)
          (subject.rename world.anonymous) (← Translation.individual target)
      else
        let value ← Translation.singleObject node Owl.targetValue
        return .dataPropertyAssertion .negative (← Translation.dataProperty term) (subject.rename world.anonymous)
          (← Translation.literal value))
      (.objectPropertyAssertion .negative property (subject.rename world.anonymous) (object.rename world.anonymous))
      [] (⟨node, Owl.targetIndividual, object⟩ :: block) := by
    refine Yields.get fun session holds => ?_
    rw [matching_isEmpty holds gathers (by simp)]
    simp only [List.map_cons, List.map_nil, List.contains_eq_mem, denial_keys.2.2, decide_false, Bool.not_false, if_true]
    have reads := Yields.both (Yields.propertyExpression admits described) (Yields.individual object)
      fun property object => Axiom.objectPropertyAssertion .negative property (subject.rename world.anonymous) object
    rw [List.append_nil, List.append_nil] at reads
    exact Yields.step (yields_value gathers denial_keys.1 (by simp) (by simp)) reads session holds
  refine Yields.weaken (Yields.step (yields_value gathers denial_keys.1 (by simp) (by simp))
    (Yields.look (Yields.individual subject)
    (Yields.step (yields_value gathers denial_keys.1 (by simp) (by simp)) target))) (by simp) fun triple => ?_
  simp only [triplesAt, List.map_cons, List.map_nil, List.mem_append, List.mem_cons, List.not_mem_nil, or_false]
  tauto

theorem Yields.negativeData {property : Iri} {subject : Individual} {value : Literal}
    (admits : world.Admits [.dataProperty property])
    (gathers : Gathers world.graph node [(Owl.sourceIndividual, (subject : Term)), (Owl.assertionProperty, (property : Term)),
      (Owl.targetValue, (value : Term))]) :
    world.Yields (Translation.negativeAssertion node)
      (.dataPropertyAssertion .negative property (subject.rename world.anonymous) value) []
      (triplesAt node [(Owl.sourceIndividual, (subject : Term)), (Owl.assertionProperty, (property : Term)),
        (Owl.targetValue, (value : Term))]) := by
  have target : world.Yields (do
      let session ← MonadState.get
      if (session.store.matching node Owl.targetValue).isEmpty then
        let target ← Translation.singleObject node Owl.targetIndividual
        return Axiom.objectPropertyAssertion .negative (← Translation.propertyExpression property)
          (subject.rename world.anonymous) (← Translation.individual target)
      else
        let value ← Translation.singleObject node Owl.targetValue
        return .dataPropertyAssertion .negative (← Translation.dataProperty property) (subject.rename world.anonymous)
          (← Translation.literal value))
      (.dataPropertyAssertion .negative property (subject.rename world.anonymous) value)
      [] [⟨node, Owl.targetValue, value⟩] := by
    refine Yields.get fun session holds => ?_
    rw [matching_isEmpty holds gathers (by simp)]
    simp only [List.map_cons, List.map_nil, List.contains_eq_mem, List.mem_cons, true_or, or_true, decide_true,
      Bool.not_true, Bool.false_eq_true, if_false]
    have reads := Yields.both (Yields.dataProperty admits) (Yields.literal value)
      fun property value => Axiom.dataPropertyAssertion .negative property (subject.rename world.anonymous) value
    exact Yields.step (yields_value gathers denial_keys.2.1 (by simp) (by simp)) reads session holds
  exact Yields.weaken (Yields.step (yields_value gathers denial_keys.2.1 (by simp) (by simp))
    (Yields.look (Yields.individual subject)
    (Yields.step (yields_value gathers denial_keys.2.1 (by simp) (by simp)) target)))
    (by simp) (by simp [triplesAt])

end Denials

/-- The axiom that a node gathers. -/
theorem Yields.gathered (coherent : world.Coherent)
    (declares : ∀ iri : Iri, (⟨iri, Rdf.type, Swrl.Variable⟩ : Triple) ∈ world.graph → world.isVariable iri)
    {bare : Axiom} {type : Iri} (sayable : world.Sayable bare) (large : bare.isGathered = true)
    (gathered : bare.Gathered world.graph type values block) (gathers : Gathers world.graph node values)
    (subset : ∀ triple ∈ block, triple ∈ world.graph) :
    world.Yields (Translation.nodeAxiom node type) (bare.rename world.anonymous) block
      (block ++ triplesAt node values) := by
  obtain ⟨⟨valid, room⟩, admits, constant, -, -⟩ := sayable
  have filled : ∀ {α : Type} {items : List α}, bare.arity? = some items.length → 2 < items.length →
      Operands world.limit items := fun counted many =>
    ⟨fun empty => by simp [empty] at many, room _ counted many⟩
  match bare, gathered with
  | .disjointClasses classes, gathered =>
    obtain ⟨rfl, head, listed, rfl⟩ := gathered
    have many : 2 < classes.length := by simpa [Axiom.isGathered] using large
    rw [Translation.nodeAxiom, if_pos rfl]
    have reads := Yields.operandsWith listed (filled rfl many)
      fun item member term part described inside => Yields.classExpression coherent.settled (valid item member)
        (admits.mono fun _ within => List.mem_flatMap.mpr ⟨item, member, within⟩) described
        fun triple within => subset triple (inside triple within)
    exact Yields.weaken (Yields.step (yields_value gathers (by simp) (List.mem_singleton_self _) (by simp))
      (Yields.bind reads (Yields.pure _))) (by simp) (by simp [triplesAt, or_comm])
  | .disjointObjectProperties properties, gathered =>
    obtain ⟨rfl, head, ⟨elements, parts, chain, each, list, rfl⟩, rfl⟩ := gathered
    have many : 2 < properties.length := by simpa [Axiom.isGathered] using large
    have bounds := filled rfl many
    rw [Translation.nodeAxiom, if_neg (by decide), if_pos rfl]
    exact Yields.weaken (Yields.step (yields_value gathers (by simp) (List.mem_singleton_self _) (by simp))
      (Yields.step (Yields.readList list (each.length_eq ▸ bounds.2))
        (Yields.disjointObjectProperties coherent admits bounds.1 each)))
      (by simp) fun triple => by simp only [triplesAt, List.map_cons, List.map_nil, List.mem_append]; tauto
  | .disjointDataProperties properties, gathered =>
    obtain ⟨rfl, head, list, rfl⟩ := gathered
    have many : 2 < properties.length := by simpa [Axiom.isGathered] using large
    have bounds := filled rfl many
    rw [Translation.nodeAxiom, if_neg (by decide), if_pos rfl]
    exact Yields.weaken (Yields.step (yields_value gathers (by simp) (List.mem_singleton_self _) (by simp))
      (Yields.step (Yields.readList list (by simpa using bounds.2)) (Yields.disjointDataProperties coherent admits bounds.1)))
      (by simp) (by simp [triplesAt, or_comm])
  | .differentIndividuals individuals, gathered =>
    obtain ⟨rfl, head, list, rfl⟩ := gathered
    have many : 2 < individuals.length := by simpa [Axiom.isGathered] using large
    rw [Translation.nodeAxiom, if_neg (by decide), if_neg (by decide), if_pos rfl]
    refine Yields.get fun session holds => ?_
    rw [matching_isEmpty holds gathers (by simp)]
    have reads : world.Yields (do
        return Axiom.differentIndividuals (← Translation.operandsWith Translation.individual
          (← Translation.singleObject node Owl.members)))
        (.differentIndividuals (individuals.map (Node.rename world.anonymous))) block
        (block ++ triplesAt node [(Owl.members, head)]) :=
      Yields.weaken (Yields.step (yields_value gathers (by simp) (List.mem_singleton_self _) (by simp))
        (Yields.step (yields_individualOperands (filled rfl many) list) (Yields.pure _)))
        (by simp) (by simp [triplesAt, or_comm])
    exact reads session holds
  | .objectPropertyAssertion .negative property subject object, gathered =>
    obtain ⟨rfl, term, described, rfl⟩ := gathered
    rw [Translation.nodeAxiom]
    repeat rw [if_neg (by decide)]
    rw [if_pos rfl]
    exact Yields.weaken (Yields.negativeObject admits.head described gathers) (by simp) (by simp)
  | .dataPropertyAssertion .negative property subject value, gathered =>
    obtain ⟨rfl, rfl, rfl⟩ := gathered
    rw [Translation.nodeAxiom]
    repeat rw [if_neg (by decide)]
    rw [if_pos rfl]
    exact Yields.negativeData admits.head gathers
  | .rule implication, gathered =>
    obtain ⟨rfl, body, head, first, second, inBody, inHead, rfl, rfl⟩ := gathered
    have keys : [Swrl.body, Swrl.head].Nodup := by decide
    have same : (Axiom.rule implication).components =
        implication.body.flatMap Atom.components ++ implication.head.flatMap Atom.components := List.flatMap_append
    rw [same] at admits constant
    rw [Translation.nodeAxiom]
    repeat rw [if_neg (by decide)]
    have reads : world.Yields (Translation.rule node) (implication.rename world.anonymous) (first ++ second)
        (first ++ second ++ triplesAt node [(Swrl.body, body), (Swrl.head, head)]) := by
      refine Yields.weaken (Yields.step (yields_value gathers keys (by simp) (by simp))
        (Yields.step (yields_value gathers keys (by simp) (by simp))
        (Yields.bind (yields_atoms coherent declares valid.1 admits.left constant.left inBody (subset_left subset))
        (Yields.bind (yields_atoms coherent declares valid.2 admits.right constant.right inHead (subset_right subset)) (Yields.pure _)))))
        (by simp) fun triple => ?_
      simp only [triplesAt, List.map_cons, List.map_nil, List.mem_append, List.mem_cons, List.not_mem_nil, or_false]
      tauto
    exact Yields.weaken (Yields.bind reads (Yields.pure _)) (by simp) (by simp)

end Gatherings

end World

end OwlGraph
