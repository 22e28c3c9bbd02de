import OwlGraph.Proofs.Drawing
import OwlGraph.Proofs.Roles
import OwlGraph.Proofs.WellFormed

/-! Writing an expression describes it. Only the fresh nodes of the expression, which are all that
is written about, must be left alone by the rest of the graph, apart from class axioms about them
and, where the expression is an inverse property, anything that does not give it another inverse. -/

namespace OwlGraph.Rendering

section Subjects

variable {α β : Type}

/-- All that the body writes, with these fresh nodes, is allowed. -/
def Writes (allowed : (Nat → BlankNode) → Triple → Prop) (body : Rendering α) : Prop := ∀ supply draft, ∃ block : List Triple,
  (body supply draft).2.triples = draft.triples ++ block.toArray ∧ ∀ triple ∈ block, allowed supply triple

namespace Writes

variable {allowed other : (Nat → BlankNode) → Triple → Prop}

theorem pure (value : α) : Writes allowed (pure value) := by
  refine fun supply draft => ⟨[], ?_, nofun⟩
  rw [Array.append_empty]
  rfl

theorem bind {body : Rendering α} {next : α → Rendering β} (first : Writes allowed body) (second : ∀ value, Writes allowed (next value)) :
    Writes allowed (body >>= next) := by
  intro supply draft
  obtain ⟨block, wrote, fresh⟩ := first supply draft
  obtain ⟨more, added, also⟩ := second (body supply draft).1 supply (body supply draft).2
  refine ⟨block ++ more, ?_, List.forall_mem_append.mpr ⟨fresh, also⟩⟩
  rw [← List.append_toArray, ← Array.append_assoc, ← wrote]
  exact added

theorem map {body : Rendering α} (writes : Writes allowed body) (f : α → β) : Writes allowed (f <$> body) :=
  writes.bind fun value => pure (f value)

theorem each {body : α → Rendering β} (items : List α) (writes : ∀ item, Writes allowed (body item)) :
    Writes allowed (items.mapM body) := by
  induction items with
  | nil => exact pure []
  | cons item rest ih =>
    rw [List.mapM_cons]
    exact (writes item).bind fun value => ih.bind fun values => pure (value :: values)

theorem mono {body : Rendering α} (writes : Writes allowed body) (more : ∀ supply triple, allowed supply triple → other supply triple) :
    Writes other body := by
  intro supply draft
  obtain ⟨block, wrote, each⟩ := writes supply draft
  exact ⟨block, wrote, fun triple member => more supply triple (each triple member)⟩

/-- What is written is the block that the body appends. -/
theorem of_emits {body : Rendering α} (writes : Writes allowed body) {supply : Nat → BlankNode} {start stop : Nat} {value : α}
    {block : List Triple} (emits : Emits supply body start value stop block) : ∀ triple ∈ block, allowed supply triple := by
  obtain ⟨other, wrote, each⟩ := writes supply ⟨start, #[]⟩
  have same : other = block := by
    rw [emits] at wrote
    simpa using wrote.symm
  exact same ▸ each

end Writes

/-- All that the body writes is about fresh nodes. -/
abbrev Anew (body : Rendering α) : Prop := Writes (fun supply triple => ∃ number, triple.subject = supply number) body

theorem anew_construct (values : List (Iri × Term)) : Anew (construct values) := by
  intro supply draft
  refine ⟨_, congrArg (·.2.triples) (Emits.construct values draft.triples), fun triple member => ?_⟩
  exact ⟨draft.made, (mem_triplesAt.mp member).1⟩

theorem anew_property : ∀ expression, Anew (property expression)
  | .named iri => Writes.pure (Node.named iri)
  | .inverse iri => anew_construct [(Owl.inverseOf, iri)]

theorem anew_list (elements : List Term) : Anew (list elements) := by
  induction elements with
  | nil => exact Writes.pure _
  | cons element rest ih =>
    exact (ih.bind fun tail => anew_construct [(Rdf.first, element), (Rdf.rest, tail)]).map fun node : Node => (node : Term)

theorem anew_facet (restriction : FacetRestriction) : Anew (facet restriction) :=
  (anew_construct [(restriction.facet, (restriction.value : Term))]).map fun node : Node => (node : Term)

mutual

theorem anew_dataRange : ∀ range, Anew (dataRange range)
  | .datatype iri => Writes.pure (Node.named iri)
  | .combination junction operands => ((anew_dataRanges operands).bind anew_list).bind fun head =>
    anew_construct [(Rdf.type, (Rdfs.Datatype : Term)), (junction.predicate, head)]
  | .complement operand => (anew_dataRange operand).bind fun node =>
    anew_construct [(Rdf.type, (Rdfs.Datatype : Term)), (Owl.datatypeComplementOf, (node : Term))]
  | .oneOf values => (anew_list (values.map .literal)).bind fun head =>
    anew_construct [(Rdf.type, (Rdfs.Datatype : Term)), (Owl.oneOf, head)]
  | .restriction base facets => ((Writes.each facets anew_facet).bind anew_list).bind fun head =>
    anew_construct [(Rdf.type, (Rdfs.Datatype : Term)), (Owl.onDatatype, (base : Term)), (Owl.withRestrictions, head)]

theorem anew_dataRanges : ∀ ranges, Anew (dataRanges ranges)
  | [] => Writes.pure []
  | range :: ranges => (anew_dataRange range).bind fun node =>
    (anew_dataRanges ranges).bind fun nodes => Writes.pure ((node : Term) :: nodes)

end

theorem anew_restriction (property : Node) (values : List (Iri × Term)) : Anew (restriction property values) :=
  anew_construct (restrictionValues property values)

mutual

theorem anew_classExpression : ∀ expression, Anew (classExpression expression)
  | .named iri => Writes.pure (Node.named iri)
  | .combination junction operands => ((anew_classExpressions operands).bind anew_list).bind fun head =>
    anew_construct [(Rdf.type, (Owl.Class : Term)), (junction.predicate, head)]
  | .complement operand => (anew_classExpression operand).bind fun node =>
    anew_construct [(Rdf.type, (Owl.Class : Term)), (Owl.complementOf, (node : Term))]
  | .oneOf individuals => (anew_list (individuals.map .resource)).bind fun head =>
    anew_construct [(Rdf.type, (Owl.Class : Term)), (Owl.oneOf, head)]
  | .objectValues _ p filler => (anew_property p).bind fun _ => (anew_classExpression filler).bind fun _ => anew_restriction _ _
  | .objectHasValue p _ | .hasSelf p | .objectCardinality _ _ p none => (anew_property p).bind fun _ => anew_restriction _ _
  | .objectCardinality _ _ p (some filler) =>
    (anew_property p).bind fun _ => (anew_classExpression filler).bind fun _ => anew_restriction _ _
  | .dataValues _ _ filler | .dataCardinality _ _ _ (some filler) => (anew_dataRange filler).bind fun _ => anew_restriction _ _
  | .dataHasValue _ _ | .dataCardinality _ _ _ none => anew_restriction _ _

theorem anew_classExpressions : ∀ expressions, Anew (classExpressions expressions)
  | [] => Writes.pure []
  | expression :: expressions => (anew_classExpression expression).bind fun node =>
    (anew_classExpressions expressions).bind fun nodes => Writes.pure ((node : Term) :: nodes)

end

end Subjects

variable {supply : Nat → BlankNode} {allowed : Triple → Prop} {start : Nat} {limit : Nat}
  (distinct : ∀ m n, supply m = supply n → m = n)
include distinct

theorem draws_property (free : ∀ triple, allowed triple → triple.predicate ≠ Owl.inverseOf ∧
    ∀ type : Iri, triple.predicate = Rdf.type → triple.object = type → type ∉ Role.specialTypes) (expression : PropertyExpression) :
    Draws supply allowed (property expression) start fun graph node block =>
      expression.Described graph node block := by
  cases expression with
  | named iri => exact (Draws.pure (Node.named iri)).weaken fun graph node block ⟨same, empty⟩ => ⟨congrArg _ same, empty⟩
  | inverse iri =>
    refine ⟨_, _, _, Emits.construct [(Owl.inverseOf, iri)], within_triplesAt distinct _, fun graph sealed => ?_⟩
    refine ⟨supply start, rfl, fun object => ⟨fun member => ?_, ?_⟩, fun type special member => ?_, rfl⟩
    · have said := sealed.only _ member start (Nat.le_refl _) (Nat.lt_succ_self _) rfl
      simpa using (mem_triplesAt.mp (said.resolve_right fun other => (free _ other).1 rfl)).2
    · rintro rfl
      exact sealed.subset _ (mem_triplesAt.mpr ⟨rfl, List.mem_singleton_self _⟩)
    · have said := sealed.only _ member start (Nat.le_refl _) (Nat.lt_succ_self _) rfl
      have own := (mem_triplesAt.mp (said.resolve_right fun other => (free _ other).2 type rfl rfl special)).2
      have apart : Rdf.type ≠ Owl.inverseOf := by decide
      exact apart (congrArg Prod.fst (List.mem_singleton.mp own))

variable (inner : ∀ triple, allowed triple → triple.predicate ∈ Role.classAxiomPredicates)
include inner

omit distinct in
theorem free_inverse (triple : Triple) (free : allowed triple) : triple.predicate ≠ Owl.inverseOf ∧
    ∀ type : Iri, triple.predicate = Rdf.type → triple.object = type → type ∉ Role.specialTypes := by
  have known : ∀ predicate ∈ Role.constructPredicates, triple.predicate ≠ predicate := by
    rintro predicate construct rfl
    exact Role.construct_not_classAxiom _ construct (inner triple free)
  exact ⟨known _ (by simp), fun _ typed => absurd typed (known _ (by simp))⟩

/-- The parts of a construct and then its node, when the values say how the construct hangs together. -/
private theorem draws_construct {α : Type} {body : Rendering α} {post : List Triple → α → List Triple → Prop}
    (draws : Draws supply allowed body start post) (values : α → List (Iri × Term))
    (own : ∀ a, ∀ value ∈ values a, value.1 ∈ Role.constructPredicates) :
    Draws supply allowed (body >>= fun a => construct (values a)) start fun graph node block =>
      ∃ a parts, post graph a parts ∧ Construct graph (values a) parts node block :=
  draws.construct distinct values inner fun a value member => Role.construct_not_classAxiom _ (own a value member)

theorem draws_list (elements : List Term) :
    Draws supply allowed (list elements) start fun graph head block => Chain graph elements head block := by
  induction elements with
  | nil => exact Draws.pure _
  | cons element rest ih =>
    refine ((draws_construct distinct inner ih (fun tail => [(Rdf.first, element), (Rdf.rest, tail)]) ?_).map
      (fun node : Node => (node : Term))).weaken ?_
    · simp [Role.constructPredicates, Role.structuralPredicates]
    · rintro graph head block ⟨node, ⟨tail, parts, chain, cell⟩, rfl⟩
      exact ⟨tail, parts, chain, cell⟩

/-- What is drawn and then the list of it. -/
theorem draws_listed {body : Rendering (List Term)} {post : List Triple → List Term → List Triple → Prop}
    (draws : Draws supply allowed body start post) :
    Draws supply allowed (body >>= list) start fun graph head block => ∃ elements parts chain,
      post graph elements parts ∧ Chain graph elements head chain ∧ block = parts ++ chain := by
  refine (draws.bind fun elements _ => draws_list distinct inner elements).weaken ?_
  rintro graph head block ⟨elements, _, parts, chain, _, holds, list, rfl⟩
  exact ⟨elements, parts, chain, holds, list, rfl⟩

/-- A node of the type that is about one other thing. -/
private theorem draws_typed {α : Type} {body : Rendering α} {post : List Triple → α → List Triple → Prop}
    (draws : Draws supply allowed body start post) (type predicate : Iri) (object : α → Term)
    (known : predicate ∈ Role.constructPredicates) :
    Draws supply allowed (body >>= fun a => construct [(Rdf.type, type), (predicate, object a)]) start
      fun graph node block => ∃ a parts, post graph a parts ∧
        Construct graph [(Rdf.type, type), (predicate, object a)] parts node block := by
  refine draws_construct distinct inner draws (fun a => [(Rdf.type, (type : Term)), (predicate, object a)]) ?_
  simp [known]

theorem draws_facet {restriction : FacetRestriction} (known : restriction.facet.isFacet = true) :
    Draws supply allowed (facet restriction) start fun graph term block =>
      restriction.Described graph term block := by
  have nothing : Draws supply allowed (Pure.pure ()) start fun _ result block => result = () ∧ block = [] :=
    Draws.pure ()
  have draws := nothing.construct distinct (fun _ => [(restriction.facet, (restriction.value : Term))]) inner
    (by simpa using Role.facet_not_classAxiom known)
  refine (draws.map fun node : Node => (node : Term)).weaken ?_
  rintro graph term block ⟨node, ⟨_, _, ⟨rfl, rfl⟩, built⟩, rfl⟩
  exact built

mutual

theorem draws_dataRange : ∀ (range : DataRange) (_ : range.WellFormed limit) (start : Nat),
    Draws supply allowed (dataRange range) start fun graph node block => range.Described graph node block
  | .datatype iri, _, start => (Draws.pure (Node.named iri)).weaken fun _ _ _ ⟨same, empty⟩ => ⟨congrArg _ same, empty⟩
  | .combination junction operands, valid, start => by
    refine (draws_typed distinct inner (draws_listed distinct inner (draws_dataRanges operands valid.2 start))
      Rdfs.Datatype junction.predicate id (by simp)).weaken ?_
    rintro graph node block ⟨head, _, ⟨elements, parts, chain, each, list, rfl⟩, built⟩
    exact ⟨elements, head, parts, chain, each, list, built⟩
  | .complement operand, valid, start => by
    refine (draws_typed distinct inner (draws_dataRange operand valid start) Rdfs.Datatype Owl.datatypeComplementOf
      (fun node => (node : Term)) (by simp)).weaken ?_
    rintro graph node block ⟨operand, parts, described, built⟩
    exact ⟨operand, parts, described, built⟩
  | .oneOf values, _, start =>
    draws_typed distinct inner (draws_list distinct inner (values.map .literal)) Rdfs.Datatype Owl.oneOf id
      (by simp)
  | .restriction base facets, valid, start => by
    have each : Draws supply allowed (facets.mapM facet) start fun graph values block =>
        Each (FacetRestriction.Described graph) facets (values.map id) block :=
      Draws.each id facets fun restriction member _ => draws_facet distinct inner (valid.2 restriction member)
    refine (draws_construct distinct inner (draws_listed distinct inner each)
      (fun head => [(Rdf.type, (Rdfs.Datatype : Term)), (Owl.onDatatype, (base : Term)), (Owl.withRestrictions, head)])
      (by simp)).weaken ?_
    rintro graph node block ⟨head, _, ⟨elements, parts, chain, described, list, rfl⟩, built⟩
    exact ⟨elements, head, parts, chain, by simpa using described, list, built⟩

theorem draws_dataRanges : ∀ (ranges : List DataRange) (_ : DataRange.WellFormedEach limit ranges) (start : Nat),
    Draws supply allowed (dataRanges ranges) start fun graph elements block =>
      DataRange.DescribedEach graph ranges elements block
  | [], _, start => (Draws.pure []).weaken fun _ _ _ ⟨same, empty⟩ => by subst same; exact empty
  | range :: ranges, valid, start => by
    refine ((draws_dataRange range valid.1 start).bind fun node middle =>
      (draws_dataRanges ranges valid.2 middle).bind fun nodes _ => Draws.pure ((node : Term) :: nodes)).weaken ?_
    rintro graph elements block ⟨node, _, first, _, _, described, ⟨nodes, _, second, _, _, each, ⟨rfl, rfl⟩, rfl⟩, rfl⟩
    exact ⟨first, second, described, each, by rw [List.append_nil]⟩

end

/-- A restriction, after what it is about. -/
private theorem draws_restriction {α : Type} {body : Rendering α} {post : List Triple → α → List Triple → Prop}
    (draws : Draws supply allowed body start post) (property : α → Term) (values : α → List (Iri × Term))
    (known : ∀ a, ∀ value ∈ values a, value.1 ∈ Role.constructPredicates) :
    Draws supply allowed (body >>= fun a => construct (restrictionValues (property a) (values a))) start
      fun graph node block => ∃ a parts, post graph a parts ∧
        Construct graph (restrictionValues (property a) (values a)) parts node block := by
  refine draws_construct distinct inner draws (fun a => restrictionValues (property a) (values a)) fun a => ?_
  refine List.forall_mem_cons.mpr ⟨by simp, List.forall_mem_cons.mpr ⟨?_, known a⟩⟩
  simp

mutual

theorem draws_classExpression : ∀ (expression : ClassExpression) (_ : expression.WellFormed limit) (start : Nat),
    Draws supply allowed (classExpression expression) start fun graph node block =>
      expression.Described graph node block
  | .named iri, _, start => (Draws.pure (Node.named iri)).weaken fun _ _ _ ⟨same, empty⟩ => ⟨congrArg _ same, empty⟩
  | .combination junction operands, valid, start => by
    refine (draws_typed distinct inner (draws_listed distinct inner (draws_classExpressions operands valid.2 start))
      Owl.Class junction.predicate id (by simp)).weaken ?_
    rintro graph node block ⟨head, _, ⟨elements, parts, chain, each, list, rfl⟩, built⟩
    exact ⟨elements, head, parts, chain, each, list, built⟩
  | .complement operand, valid, start => by
    refine (draws_typed distinct inner (draws_classExpression operand valid start) Owl.Class Owl.complementOf
      (fun node => (node : Term)) (by simp)).weaken ?_
    rintro graph node block ⟨operand, parts, described, built⟩
    exact ⟨operand, parts, described, built⟩
  | .oneOf individuals, _, start =>
    draws_typed distinct inner (draws_list distinct inner (individuals.map .resource)) Owl.Class Owl.oneOf id
      (by simp)
  | .objectValues quantifier p filler, valid, start => by
    refine (draws_restriction distinct inner ((draws_property distinct (free_inverse inner) p).pair
      fun middle => draws_classExpression filler valid middle) (fun parts => (parts.1 : Term))
      (fun parts => [(quantifier.predicate, (parts.2 : Term))]) (by simp)).weaken ?_
    rintro graph node block ⟨⟨property, element⟩, _, ⟨own, parts, named, described, rfl⟩, built⟩
    exact ⟨property, own, element, parts, named, described, built⟩
  | .objectHasValue p individual, _, start => by
    refine (draws_restriction distinct inner (draws_property distinct (free_inverse inner) p) (fun node => (node : Term))
      (fun _ => [(Owl.hasValue, (individual : Term))]) (by simp)).weaken ?_
    rintro graph node block ⟨property, own, named, built⟩
    exact ⟨property, own, named, built⟩
  | .hasSelf p, _, start => by
    refine (draws_restriction distinct inner (draws_property distinct (free_inverse inner) p) (fun node => (node : Term))
      (fun _ => [(Owl.hasSelf, (Literal.ofDatatype "true" Xsd.boolean : Term))])
      (by simp)).weaken ?_
    rintro graph node block ⟨property, own, named, built⟩
    exact ⟨property, own, named, built⟩
  | .objectCardinality bound cardinality p none, _, start => by
    refine (draws_restriction distinct inner (draws_property distinct (free_inverse inner) p) (fun node => (node : Term))
      (fun _ => [(bound.predicate, cardinalityTerm cardinality)]) (by simp)).weaken ?_
    rintro graph node block ⟨property, own, named, built⟩
    exact ⟨property, own, named, built⟩
  | .objectCardinality bound cardinality p (some filler), valid, start => by
    refine (draws_restriction distinct inner ((draws_property distinct (free_inverse inner) p).pair
      fun middle => draws_classExpression filler valid middle) (fun parts => (parts.1 : Term))
      (fun parts => [(bound.qualifiedPredicate, cardinalityTerm cardinality), (Owl.onClass, (parts.2 : Term))])
      (by simp)).weaken ?_
    rintro graph node block ⟨⟨property, element⟩, _, ⟨own, parts, named, described, rfl⟩, built⟩
    exact ⟨property, own, element, parts, named, described, built⟩
  | .dataValues quantifier p filler, valid, start => by
    refine (draws_restriction distinct inner (draws_dataRange distinct inner filler valid start) (fun _ => (p : Term))
      (fun element => [(quantifier.predicate, (element : Term))]) (by simp)).weaken ?_
    rintro graph node block ⟨element, parts, described, built⟩
    exact ⟨element, parts, described, built⟩
  | .dataHasValue p value, _, start => by
    refine (draws_restriction distinct inner (Draws.pure ()) (fun _ => (p : Term))
      (fun _ => [(Owl.hasValue, (value : Term))]) (by simp)).weaken ?_
    rintro graph node block ⟨_, _, ⟨rfl, rfl⟩, built⟩
    exact built
  | .dataCardinality bound cardinality p none, _, start => by
    refine (draws_restriction distinct inner (Draws.pure ()) (fun _ => (p : Term))
      (fun _ => [(bound.predicate, cardinalityTerm cardinality)]) (by simp)).weaken ?_
    rintro graph node block ⟨_, _, ⟨rfl, rfl⟩, built⟩
    exact built
  | .dataCardinality bound cardinality p (some filler), valid, start => by
    refine (draws_restriction distinct inner (draws_dataRange distinct inner filler valid start) (fun _ => (p : Term))
      (fun element => [(bound.qualifiedPredicate, cardinalityTerm cardinality), (Owl.onDataRange, (element : Term))])
      (by simp)).weaken ?_
    rintro graph node block ⟨element, parts, described, built⟩
    exact ⟨element, parts, described, built⟩

theorem draws_classExpressions : ∀ (expressions : List ClassExpression)
    (_ : ClassExpression.WellFormedEach limit expressions) (start : Nat),
    Draws supply allowed (classExpressions expressions) start fun graph elements block =>
      ClassExpression.DescribedEach graph expressions elements block
  | [], _, start => (Draws.pure []).weaken fun _ _ _ ⟨same, empty⟩ => by subst same; exact empty
  | expression :: expressions, valid, start => by
    refine ((draws_classExpression expression valid.1 start).bind fun node middle =>
      (draws_classExpressions expressions valid.2 middle).bind fun nodes _ => Draws.pure ((node : Term) :: nodes)).weaken ?_
    rintro graph elements block ⟨node, _, first, _, _, described, ⟨nodes, _, second, _, _, each, ⟨rfl, rfl⟩, rfl⟩, rfl⟩
    exact ⟨first, second, described, each, by rw [List.append_nil]⟩

end

end OwlGraph.Rendering
