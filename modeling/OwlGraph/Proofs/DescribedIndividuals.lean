import OwlGraph.Proofs.AnnotationReading
import OwlGraph.Proofs.BlankNodeLabels

/-! The anonymous individuals of what a graph describes occur in the graph: an expression, an axiom or
an annotation has none that the triples of its description do not mention. -/

namespace OwlGraph

/-- Some triple of the block has the blank node as its subject or its object. -/
def Mentioned (block : List Triple) (node : BlankNode) : Prop := ∃ triple ∈ block, node ∈ triple.blanks

section Blocks

variable {graph block more : List Triple} {node : BlankNode} {term : Term}

theorem mem_blankNodes : node ∈ blankNodes block ↔ Mentioned block node := by
  rw [blankNodes, List.mem_eraseDups, List.mem_flatMap, Mentioned]

theorem mem_blanks_subject {triple : Triple} (own : triple.subject = node) : node ∈ triple.blanks := by
  simp [Triple.blanks, own, Node.blank?]

theorem mem_blanks_object {triple : Triple} (value : triple.object = node) : node ∈ triple.blanks := by
  simp [Triple.blanks, value, Term.blank?, Term.node?, Node.blank?]

theorem Mentioned.mono (mentioned : Mentioned block node) (subset : ∀ triple ∈ block, triple ∈ more) : Mentioned more node :=
  let ⟨triple, member, inside⟩ := mentioned
  ⟨triple, subset triple member, inside⟩

theorem Mentioned.append (mentioned : Mentioned block node ∨ Mentioned more node) : Mentioned (block ++ more) node :=
  mentioned.elim (fun left => left.mono fun _ => List.mem_append_left _) fun right => right.mono fun _ => List.mem_append_right _

theorem individual_eq_anonymous {individual : Individual} (same : .anonymous node = Component.individual individual) :
    individual = .blank node := by
  cases individual with
  | named => cases same
  | blank => cases same; rfl

theorem annotated_eq_anonymous {subject : Node} (same : .anonymous node = Component.annotated subject) : subject = .blank node := by
  cases subject with
  | named => cases same
  | blank => cases same; rfl

theorem annotationValue_eq_anonymous {value : Term} (same : .anonymous node = Component.annotationValue value) : value = node := by
  cases value with
  | resource subject => rw [annotated_eq_anonymous same]
  | literal => cases same

section Constructs

variable {values : List (Iri × Term)} {parts : List Triple}

theorem Construct.mentioned (built : Construct graph values parts term block) (inside : Mentioned parts node ∨ ∃ value ∈ values, value.2 = node) :
    Mentioned block node := by
  obtain ⟨own, rfl, -, -, rfl⟩ := built
  refine Mentioned.append (inside.imp_right fun ⟨value, listed, same⟩ => ?_)
  exact ⟨⟨own, value.1, value.2⟩, List.mem_map_of_mem listed, mem_blanks_object same⟩

theorem Chain.mentioned : ∀ {elements : List Term} {head : Term} {block : List Triple}, Chain graph elements head block →
    (node : Term) ∈ elements → Mentioned block node
  | element :: elements, _, _, ⟨rest, tail, chain, built⟩, member => by
    rcases List.mem_cons.mp member with same | later
    · exact built.mentioned (.inr ⟨(Rdf.first, element), List.mem_cons_self, same.symm⟩)
    · exact built.mentioned (.inl (chain.mentioned later))

end Constructs

mutual

theorem ClassExpression.Described.mentioned : ∀ {expression : ClassExpression} {term : Term} {block : List Triple},
    expression.Described graph term block → .anonymous node ∈ expression.components → Mentioned block node
  | .named _, _, _, _, member => nomatch List.mem_singleton.mp member
  | .combination _ _, _, _, ⟨_, _, _, _, each, _, built⟩, member =>
    built.mentioned (.inl (.append (.inl (ClassExpression.DescribedEach.mentioned each member))))
  | .complement _, _, _, ⟨_, _, operand, built⟩, member => built.mentioned (.inl (ClassExpression.Described.mentioned operand member))
  | .oneOf individuals, _, _, ⟨_, _, list, built⟩, member => by
    obtain ⟨individual, inside, same⟩ := List.mem_map.mp member
    refine built.mentioned (.inl (list.mentioned ?_))
    rw [← individual_eq_anonymous same.symm]
    exact List.mem_map_of_mem inside
  | .objectValues _ _ _, _, _, ⟨_, _, _, _, _, filler, built⟩, member => Construct.mentioned built
      (.inl (.append (.inr (ClassExpression.Described.mentioned filler ((List.mem_cons.mp member).resolve_left nofun)))))
  | .objectHasValue _ individual, _, _, ⟨_, _, _, built⟩, member => by
    have same := (List.mem_cons.mp member).resolve_left nofun
    refine Construct.mentioned built (.inr ⟨(Owl.hasValue, (individual : Term)), by simp [restrictionValues], ?_⟩)
    rw [← individual_eq_anonymous (List.mem_singleton.mp same)]
  | .hasSelf _, _, _, _, member => nomatch List.mem_singleton.mp member
  | .objectCardinality _ _ _ none, _, _, _, member => nomatch List.mem_singleton.mp member
  | .objectCardinality _ _ _ (some _), _, _, ⟨_, _, _, _, _, filler, built⟩, member => Construct.mentioned built
      (.inl (.append (.inr (ClassExpression.Described.mentioned filler ((List.mem_cons.mp member).resolve_left nofun)))))
  | .dataValues _ _ range, _, _, _, member | .dataCardinality _ _ _ (some range), _, _, _, member =>
    absurd ((List.mem_cons.mp member).resolve_left nofun) (range.anonymous_not_mem node)
  | .dataHasValue _ _, _, _, _, member => nomatch List.mem_singleton.mp ((List.mem_cons.mp member).resolve_left nofun)
  | .dataCardinality _ _ _ none, _, _, _, member => nomatch List.mem_singleton.mp member

theorem ClassExpression.DescribedEach.mentioned : ∀ {expressions : List ClassExpression} {terms : List Term} {block : List Triple},
    ClassExpression.DescribedEach graph expressions terms block → .anonymous node ∈ ClassExpression.componentsEach expressions →
    Mentioned block node
  | _ :: _, _ :: _, _, ⟨_, _, first, rest, same⟩, member => by
    subst same
    exact .append ((List.mem_append.mp member).imp (ClassExpression.Described.mentioned first) (ClassExpression.DescribedEach.mentioned rest))

end

theorem IndividualArgument.value_of_anonymous {argument : IndividualArgument} {value : Term} (described : argument.Described graph value)
    (member : .anonymous node ∈ argument.components) : value = node := by
  match argument, member with
  | .individual own, member =>
    rw [← individual_eq_anonymous (List.mem_singleton.mp member)]
    exact described

theorem DataArgument.anonymous_not_mem : ∀ argument : DataArgument, .anonymous node ∉ argument.components
  | .variable _ => List.not_mem_nil
  | .literal _ => fun member => nomatch List.mem_singleton.mp member

theorem Atom.Described.mentioned : ∀ {atom : Atom} {term : Term} {block : List Triple}, atom.Described graph term block →
    .anonymous node ∈ atom.components → Mentioned block node
  | .cls _ _, _, _, ⟨_, _, value, described, named, built⟩, member => by
    refine built.mentioned ((List.mem_append.mp member).imp described.mentioned fun inside => ?_)
    exact ⟨(Swrl.argument1, value), by simp, IndividualArgument.value_of_anonymous named inside⟩
  | .dataRange range argument, _, _, _, member =>
    absurd member (List.not_mem_append (range.anonymous_not_mem node) argument.anonymous_not_mem)
  | .objectProperty (.named _) _ _, _, _, ⟨first, second, one, two, built⟩, member => by
    have inside := (List.mem_cons.mp member).resolve_left nofun
    refine Construct.mentioned built (.inr ?_)
    rcases List.mem_append.mp inside with subject | object
    · exact ⟨(Swrl.argument1, first), by simp [binaryValues], IndividualArgument.value_of_anonymous one subject⟩
    · exact ⟨(Swrl.argument2, second), by simp [binaryValues], IndividualArgument.value_of_anonymous two object⟩
  | .dataProperty _ _ argument, _, _, ⟨first, second, one, _, built⟩, member => by
    have inside := (List.mem_cons.mp member).resolve_left nofun
    have subject := (List.mem_append.mp inside).resolve_right argument.anonymous_not_mem
    exact Construct.mentioned built (.inr ⟨(Swrl.argument1, first), by simp [binaryValues], IndividualArgument.value_of_anonymous one subject⟩)
  | .sameIndividual _ _, _, _, ⟨first, second, one, two, built⟩, member
  | .differentIndividuals _ _, _, _, ⟨first, second, one, two, built⟩, member => by
    refine Construct.mentioned built (.inr ?_)
    rcases List.mem_append.mp member with subject | object
    · exact ⟨(Swrl.argument1, first), by simp [binaryValues], IndividualArgument.value_of_anonymous one subject⟩
    · exact ⟨(Swrl.argument2, second), by simp [binaryValues], IndividualArgument.value_of_anonymous two object⟩
  | .builtin _ arguments, _, _, _, member => by
    obtain ⟨argument, -, inside⟩ := List.mem_flatMap.mp member
    exact absurd inside argument.anonymous_not_mem

theorem Each.mentioned {α : Type} {describes : α → Term → List Triple → Prop} {components : α → List Component} :
    ∀ {items : List α} {terms : List Term} {block : List Triple}, Each describes items terms block →
      (∀ item ∈ items, ∀ term part, describes item term part → .anonymous node ∈ components item → Mentioned part node) →
      .anonymous node ∈ items.flatMap components → Mentioned block node
  | _ :: _, _ :: _, _, ⟨_, _, first, rest, same⟩, each, member => by
    subst same
    obtain ⟨own, others⟩ := List.forall_mem_cons.mp each
    rw [List.flatMap_cons] at member
    exact .append ((List.mem_append.mp member).imp (own _ _ first) (rest.mentioned others))

/-- In a statement the blank node is mentioned with the operand that it comes from. -/
theorem Joined.mentioned {first second : Term → List Triple → Prop} {predicate : Iri} {main : Triple} (joined : Joined first second predicate main block)
    (inside : (∀ term part, first term part → term = node ∨ Mentioned part node) ∨
      ∀ term part, second term part → term = node ∨ Mentioned part node) : Mentioned (main :: block) node := by
  obtain ⟨subject, object, left, right, here, there, rfl, rfl⟩ := joined
  have later {part : List Triple} (subset : ∀ triple ∈ part, triple ∈ left ++ right) (mentioned : Mentioned part node) :
      Mentioned (⟨subject, predicate, object⟩ :: (left ++ right)) node :=
    mentioned.mono fun triple member => List.mem_cons_of_mem _ (subset triple member)
  rcases inside with first | second
  · rcases first _ left here with same | mentioned
    · exact ⟨_, List.mem_cons_self, mem_blanks_subject (Term.resource.inj same)⟩
    · exact later (fun _ => List.mem_append_left _) mentioned
  · rcases second _ right there with same | mentioned
    · exact ⟨_, List.mem_cons_self, mem_blanks_object same⟩
    · exact later (fun _ => List.mem_append_right _) mentioned

theorem Axiom.Stated.mentioned {bare : Axiom} {main : Triple} (stated : bare.Stated graph main block)
    (member : .anonymous node ∈ bare.components) : Mentioned (main :: block) node := by
  have cls {item : ClassExpression} (inside : .anonymous node ∈ item.components) (term : Term) (part : List Triple)
      (described : item.Described graph term part) : term = node ∨ Mentioned part node := .inr (described.mentioned inside)
  have standing {value : Term} (same : value = node) (term : Term) (part : List Triple) (stands : Standing value term part) :
      term = node ∨ Mentioned part node := .inl (stands.1.trans same)
  have individual {own : Individual} (same : .anonymous node = Component.individual own) : (own : Term) = node :=
    congrArg Term.resource (individual_eq_anonymous same)
  have range (range : DataRange) : .anonymous node ∉ range.components := range.anonymous_not_mem node
  have expressions {items : List ClassExpression} (inside : .anonymous node ∈ items.flatMap ClassExpression.components) (term : Term)
      (part : List Triple) (listed : Listed graph (Each (ClassExpression.Described graph) items) term part) : term = node ∨ Mentioned part node := by
    obtain ⟨elements, parts, chain, each, -, rfl⟩ := listed
    exact .inr (.append (.inl (each.mentioned (fun _ _ _ _ described => described.mentioned) inside)))
  unfold Stated at stated
  split at stated
  all_goals
    simp only [components, List.mem_cons, List.mem_append, List.flatMap_cons, List.flatMap_nil, List.append_nil, List.map_cons, List.map_nil,
      List.not_mem_nil, or_false, false_or, reduceCtorEq, Component.cls, Component.objectProperty, Component.dataProperty,
      Component.annotationProperty, Component.datatype, Component.property, Component.literal, List.mem_map, and_false, exists_false, range] at member
  all_goals first
    | exact stated.elim
    | exact stated.mentioned (.inl (cls member))
    | exact stated.mentioned (.inr (cls member))
    | exact stated.mentioned (member.imp cls cls)
    | exact stated.mentioned (.inl (standing (individual member)))
    | exact stated.mentioned (member.imp (fun same => standing (individual same)) fun same => standing (individual same))
    | exact stated.mentioned (member.symm.imp (fun same => standing (individual same)) cls)
    | exact stated.mentioned (.inr (expressions member))
    | exact stated.mentioned (member.imp (fun same => standing (congrArg Term.resource (annotated_eq_anonymous same)))
        fun same => standing (annotationValue_eq_anonymous same))

theorem mentioned_triplesAt {own : BlankNode} {values : List (Iri × Term)} {predicate : Iri} {object : Term} (same : object = node)
    (listed : (predicate, object) ∈ values) : Mentioned (triplesAt own values) node :=
  ⟨⟨own, predicate, object⟩, List.mem_map_of_mem listed, mem_blanks_object same⟩

/-- In what is gathered the blank node is mentioned with an operand, or is a value of the node that gathers them. -/
theorem Axiom.Gathered.mentioned {bare : Axiom} {type : Iri} {values : List (Iri × Term)} (gathered : bare.Gathered graph type values block)
    (member : .anonymous node ∈ bare.components) (own : BlankNode) : Mentioned (block ++ triplesAt own values) node := by
  have individual {known : Individual} (same : .anonymous node = Component.individual known) : (known : Term) = node :=
    congrArg Term.resource (individual_eq_anonymous same)
  match bare, gathered with
  | .disjointClasses _, gathered =>
    obtain ⟨-, head, ⟨elements, parts, chain, each, -, rfl⟩, rfl⟩ := gathered
    exact .append (.inl (.append (.inl (each.mentioned (fun _ _ _ _ described => described.mentioned) member))))
  | .disjointObjectProperties _, _ | .disjointDataProperties _, _ =>
    obtain ⟨_, -, same⟩ := List.mem_map.mp member
    cases same
  | .differentIndividuals _, gathered =>
    obtain ⟨-, head, list, rfl⟩ := gathered
    obtain ⟨known, inside, same⟩ := List.mem_map.mp member
    refine .append (.inl (list.mentioned ?_))
    rw [← individual same.symm]
    exact List.mem_map_of_mem inside
  | .objectPropertyAssertion .negative _ _ _, gathered =>
    obtain ⟨-, term, -, rfl⟩ := gathered
    have inside := (List.mem_cons.mp member).resolve_left nofun
    refine .append (.inr ?_)
    rcases List.mem_cons.mp inside with same | later
    · exact mentioned_triplesAt (individual same) List.mem_cons_self
    · exact mentioned_triplesAt (individual (List.mem_singleton.mp later))
        (List.mem_cons_of_mem _ (List.mem_cons_of_mem _ List.mem_cons_self))
  | .dataPropertyAssertion .negative _ _ _, gathered =>
    obtain ⟨-, -, rfl⟩ := gathered
    have inside := (List.mem_cons.mp member).resolve_left nofun
    rcases List.mem_cons.mp inside with same | later
    · exact .append (.inr (mentioned_triplesAt (individual same) List.mem_cons_self))
    · cases List.mem_singleton.mp later
  | .rule implication, gathered =>
    obtain ⟨-, body, head, first, second, ⟨_, _, _, inBody, -, rfl⟩, ⟨_, _, _, inHead, -, rfl⟩, rfl, rfl⟩ := gathered
    have atoms : .anonymous node ∈ implication.body.flatMap Atom.components ++ implication.head.flatMap Atom.components := by
      rw [← List.flatMap_append]
      exact member
    refine .append (.inl (.append ((List.mem_append.mp atoms).imp (fun inside => ?_) fun inside => ?_)))
    · exact .append (.inl (inBody.mentioned (fun _ _ _ _ described => described.mentioned) inside))
    · exact .append (.inl (inHead.mentioned (fun _ _ _ _ described => described.mentioned) inside))

namespace Annotation

variable {stands : Node → Triple → Prop}

mutual

theorem Described.mentioned : ∀ {note : Annotation} {source : Node} {block : List Triple}, Described graph stands source note block →
    .anonymous node ∈ note.components → Mentioned block node
  | ⟨property, value, notes⟩, source, _, ⟨inner, _, _, same, reified⟩, member => by
    subst same
    have inside := (List.mem_cons.mp member).resolve_left nofun
    rcases List.mem_cons.mp inside with own | deeper
    · exact ⟨_, List.mem_cons_self, mem_blanks_object (annotationValue_eq_anonymous own)⟩
    · rcases reified with ⟨rfl, -, -⟩ | ⟨_, rest, -, -, -, described, rfl⟩
      · cases deeper
      · refine (DescribedEach.mentioned described deeper).mono fun triple within => ?_
        exact List.mem_cons_of_mem _ (List.mem_append_right _ within)

theorem DescribedEach.mentioned : ∀ {notes : List Annotation} {source : Node} {block : List Triple}, DescribedEach graph stands source notes block →
    .anonymous node ∈ componentsEach notes → Mentioned block node
  | _ :: _, _, _, ⟨_, _, first, rest, _, same⟩, member => by
    subst same
    exact .append ((List.mem_append.mp member).imp (Described.mentioned first) (DescribedEach.mentioned rest))

end

end Annotation

end Blocks

end OwlGraph
