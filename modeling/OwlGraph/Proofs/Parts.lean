import OwlGraph.Proofs.Roles
import OwlGraph.Proofs.StatementDescription

/-! What the triples of a description look like. Those of a construct have predicates that only
occur inside constructs, those of an annotation either make a node point at a triple or have the
property of the annotation. -/

namespace OwlGraph

/-- The triple belongs to the inside of a construct. -/
def Part (graph : List Triple) (triple : Triple) : Prop :=
  (triple.predicate = Rdf.type ∧ ∃ type ∈ Role.constructTypes ++ Role.atomTypes, triple.object = (type : Term)) ∨
  triple.predicate ∈ Role.innerPredicates ∨ triple.predicate.isFacet = true ∨
  (triple.predicate = Swrl.arguments ∧ (⟨triple.subject, Rdf.type, Swrl.BuiltinAtom⟩ : Triple) ∈ graph)

/-- The triple makes its subject a node of the type that points at another triple. -/
def Pointing (type : Iri) (triple : Triple) : Prop :=
  (triple.predicate = Rdf.type ∧ triple.object = (type : Term)) ∨ triple.predicate ∈ Role.pointerPredicates

/-- The value may stand on the node of a construct with these values. -/
def Fits (values : List (Iri × Term)) (value : Iri × Term) : Prop :=
  (value.1 = Rdf.type ∧ ∃ type ∈ Role.constructTypes ++ Role.atomTypes, value.2 = (type : Term)) ∨
  value.1 ∈ Role.innerPredicates ∨ value.1.isFacet = true ∨
  (value.1 = Swrl.arguments ∧ (Rdf.type, (Swrl.BuiltinAtom : Term)) ∈ values)

section Constructs

variable {graph block : List Triple} {term : Term}

theorem Construct.part {values : List (Iri × Term)} {parts : List Triple} (built : Construct graph values parts term block)
    (fits : ∀ value ∈ values, Fits values value) (inner : ∀ triple ∈ parts, Part graph triple) :
    ∀ triple ∈ block, Part graph triple := by
  obtain ⟨node, rfl, carries, -, rfl⟩ := built
  intro triple member
  rcases List.mem_append.mp member with inside | own
  · exact inner triple inside
  · obtain ⟨value, listed, rfl⟩ := List.mem_map.mp own
    rcases fits value listed with typed | known | facet | ⟨arguments, typed⟩
    · exact Or.inl typed
    · exact Or.inr (Or.inl known)
    · exact Or.inr (Or.inr (Or.inl facet))
    · exact Or.inr (Or.inr (Or.inr ⟨arguments, ((carries _ _).mpr typed).1⟩))

/-- The type of a construct and a predicate that only occurs inside constructs. -/
private theorem fits_typed {type : Iri} (known : type ∈ Role.constructTypes ++ Role.atomTypes) {rest : List (Iri × Term)}
    (inner : ∀ value ∈ rest, value.1 ∈ Role.innerPredicates) :
    ∀ value ∈ (Rdf.type, (type : Term)) :: rest, Fits ((Rdf.type, (type : Term)) :: rest) value :=
  List.forall_mem_cons.mpr ⟨Or.inl ⟨rfl, type, known, rfl⟩, fun value member => Or.inr (Or.inl (inner value member))⟩

private theorem mem_append_of {parts others : List Triple} (left : ∀ triple ∈ parts, Part graph triple)
    (right : ∀ triple ∈ others, Part graph triple) : ∀ triple ∈ parts ++ others, Part graph triple :=
  fun triple member => (List.mem_append.mp member).elim (left triple) (right triple)

theorem Chain.part : ∀ {elements : List Term} {head : Term} {block : List Triple}, Chain graph elements head block →
    ∀ triple ∈ block, Part graph triple
  | [], _, _, ⟨_, rfl⟩ => List.forall_mem_nil _
  | _ :: _, _, _, ⟨_, _, chain, built⟩ => built.part (by simp [Fits]) chain.part

theorem Each.part {α : Type} {describes : α → Term → List Triple → Prop} : ∀ {items : List α} {terms : List Term}
    {block : List Triple}, Each describes items terms block →
    (∀ item ∈ items, ∀ term block, describes item term block → ∀ triple ∈ block, Part graph triple) →
    ∀ triple ∈ block, Part graph triple
  | [], [], _, each, _ => by rw [show _ = [] from each]; exact List.forall_mem_nil _
  | _ :: _, _ :: _, _, ⟨_, _, first, rest, same⟩, parts => by
    subst same
    obtain ⟨own, others⟩ := List.forall_mem_cons.mp parts
    exact mem_append_of (own _ _ first) (rest.part others)

theorem PropertyExpression.Described.part {expression : PropertyExpression}
    (described : expression.Described graph term block) : ∀ triple ∈ block, Part graph triple := by
  cases expression with
  | named => rw [described.2]; exact List.forall_mem_nil _
  | inverse iri =>
    obtain ⟨node, -, -, -, rfl⟩ := described
    exact List.forall_mem_singleton.mpr (Or.inr (Or.inl (by simp)))

mutual

theorem DataRange.Described.part : ∀ {range : DataRange} {limit : Nat} {term : Term} {block : List Triple},
    range.Described graph term block → range.WellFormed limit → ∀ triple ∈ block, Part graph triple
  | .datatype _, _, _, _, ⟨_, rfl⟩, _ => List.forall_mem_nil _
  | .combination _ _, _, _, _, ⟨_, _, _, _, each, list, built⟩, valid =>
    built.part (fits_typed (by simp [Role.constructTypes]) (by simp))
      (mem_append_of (DataRange.DescribedEach.part each valid.2) list.part)
  | .complement _, _, _, _, ⟨_, _, operand, built⟩, valid =>
    built.part (fits_typed (by simp [Role.constructTypes]) (by simp)) (DataRange.Described.part operand valid)
  | .oneOf _, _, _, _, ⟨_, _, list, built⟩, _ =>
    built.part (fits_typed (by simp [Role.constructTypes]) (by simp)) list.part
  | .restriction _ _, _, _, _, ⟨_, _, _, _, each, list, built⟩, valid => by
    refine built.part (fits_typed (by simp [Role.constructTypes]) (by simp)) (mem_append_of (each.part ?_) list.part)
    intro restriction member _ _ described
    refine Construct.part described ?_ (List.forall_mem_nil _)
    exact List.forall_mem_singleton.mpr (Or.inr (Or.inr (Or.inl (valid.2 restriction member))))

theorem DataRange.DescribedEach.part : ∀ {ranges : List DataRange} {limit : Nat} {terms : List Term} {block : List Triple},
    DataRange.DescribedEach graph ranges terms block → DataRange.WellFormedEach limit ranges → ∀ triple ∈ block, Part graph triple
  | [], _, [], _, each, _ => by rw [show _ = [] from each]; exact List.forall_mem_nil _
  | _ :: _, _, _ :: _, _, ⟨_, _, first, rest, same⟩, valid => by
    subst same
    exact mem_append_of (DataRange.Described.part first valid.1) (DataRange.DescribedEach.part rest valid.2)

end

/-- A restriction with values that only occur inside constructs. -/
private theorem fits_restriction {property : Term} {rest : List (Iri × Term)} (inner : ∀ value ∈ rest, value.1 ∈ Role.innerPredicates) :
    ∀ value ∈ restrictionValues property rest, Fits (restrictionValues property rest) value :=
  fits_typed (by simp [Role.constructTypes]) (List.forall_mem_cons.mpr ⟨by simp, inner⟩)

mutual

theorem ClassExpression.Described.part : ∀ {expression : ClassExpression} {limit : Nat} {term : Term} {block : List Triple},
    expression.Described graph term block → expression.WellFormed limit → ∀ triple ∈ block, Part graph triple
  | .named _, _, _, _, ⟨_, rfl⟩, _ => List.forall_mem_nil _
  | .combination _ _, _, _, _, ⟨_, _, _, _, each, list, built⟩, valid =>
    built.part (fits_typed (by simp [Role.constructTypes]) (by simp))
      (mem_append_of (ClassExpression.DescribedEach.part each valid.2) list.part)
  | .complement _, _, _, _, ⟨_, _, operand, built⟩, valid =>
    built.part (fits_typed (by simp [Role.constructTypes]) (by simp)) (ClassExpression.Described.part operand valid)
  | .oneOf _, _, _, _, ⟨_, _, list, built⟩, _ => built.part (fits_typed (by simp [Role.constructTypes]) (by simp)) list.part
  | .objectValues _ _ _, _, _, _, ⟨_, _, _, _, own, filler, built⟩, valid =>
    Construct.part built (fits_restriction (by simp)) (mem_append_of own.part (ClassExpression.Described.part filler valid))
  | .objectHasValue _ _, _, _, _, ⟨_, _, own, built⟩, _ => Construct.part built (fits_restriction (by simp)) own.part
  | .hasSelf _, _, _, _, ⟨_, _, own, built⟩, _ => Construct.part built (fits_restriction (by simp)) own.part
  | .objectCardinality _ _ _ none, _, _, _, ⟨_, _, own, built⟩, _ => Construct.part built (fits_restriction (by simp)) own.part
  | .objectCardinality _ _ _ (some _), _, _, _, ⟨_, _, _, _, own, filler, built⟩, valid =>
    Construct.part built (fits_restriction (by simp)) (mem_append_of own.part (ClassExpression.Described.part filler valid))
  | .dataValues _ _ _, _, _, _, ⟨_, _, filler, built⟩, valid =>
    Construct.part built (fits_restriction (by simp)) (DataRange.Described.part filler valid)
  | .dataHasValue _ _, _, _, _, built, _ => Construct.part built (fits_restriction (by simp)) (List.forall_mem_nil _)
  | .dataCardinality _ _ _ none, _, _, _, built, _ => Construct.part built (fits_restriction (by simp)) (List.forall_mem_nil _)
  | .dataCardinality _ _ _ (some _), _, _, _, ⟨_, _, filler, built⟩, valid =>
    Construct.part built (fits_restriction (by simp)) (DataRange.Described.part filler valid)

theorem ClassExpression.DescribedEach.part : ∀ {expressions : List ClassExpression} {limit : Nat} {terms : List Term} {block : List Triple},
    ClassExpression.DescribedEach graph expressions terms block → ClassExpression.WellFormedEach limit expressions →
    ∀ triple ∈ block, Part graph triple
  | [], _, [], _, each, _ => by rw [show _ = [] from each]; exact List.forall_mem_nil _
  | _ :: _, _, _ :: _, _, ⟨_, _, first, rest, same⟩, valid => by
    subst same
    exact mem_append_of (ClassExpression.Described.part first valid.1) (ClassExpression.DescribedEach.part rest valid.2)

end

theorem Atom.Described.part {limit : Nat} : ∀ {atom : Atom} {term : Term} {block : List Triple}, atom.Described graph term block →
    atom.WellFormed limit → ∀ triple ∈ block, Part graph triple
  | .cls _ _, _, _, ⟨_, _, _, described, _, built⟩, valid =>
    built.part (fits_typed (by simp [Role.atomTypes]) (by simp)) (ClassExpression.Described.part described valid)
  | .dataRange _ _, _, _, ⟨_, _, _, described, _, built⟩, valid =>
    built.part (fits_typed (by simp [Role.atomTypes]) (by simp)) (DataRange.Described.part described valid)
  | .objectProperty (.named _) _ _, _, _, ⟨_, _, _, _, built⟩, _ | .dataProperty _ _ _, _, _, ⟨_, _, _, _, built⟩, _ =>
    Construct.part built (fits_typed (by simp [Role.atomTypes]) (by simp)) (List.forall_mem_nil _)
  | .sameIndividual _ _, _, _, ⟨_, _, _, _, built⟩, _ | .differentIndividuals _ _, _, _, ⟨_, _, _, _, built⟩, _ =>
    Construct.part built (fits_typed (by simp [Role.atomTypes]) (by simp)) (List.forall_mem_nil _)
  | .builtin _ _, _, _, ⟨_, _, _, _, list, built⟩, _ => by
    refine built.part (List.forall_mem_cons.mpr ⟨.inl ⟨rfl, _, by simp [Role.atomTypes], rfl⟩, ?_⟩) list.part
    refine List.forall_mem_cons.mpr ⟨.inr (.inl (by simp)), List.forall_mem_singleton.mpr ?_⟩
    exact .inr (.inr (.inr ⟨rfl, List.mem_cons_self⟩))

theorem Listed.part {each : List Term → List Triple → Prop} {head : Term} (listed : Listed graph each head block)
    (parts : ∀ terms part, each terms part → ∀ triple ∈ part, Part graph triple) : ∀ triple ∈ block, Part graph triple := by
  obtain ⟨elements, inner, chain, described, list, rfl⟩ := listed
  exact mem_append_of (parts elements inner described) list.part

theorem Joined.part {first second : Term → List Triple → Prop} {predicate : Iri} {main : Triple}
    (joined : Joined first second predicate main block) (here : ∀ term part, first term part → ∀ triple ∈ part, Part graph triple)
    (there : ∀ term part, second term part → ∀ triple ∈ part, Part graph triple) : ∀ triple ∈ block, Part graph triple := by
  obtain ⟨subject, object, left, right, one, two, -, rfl⟩ := joined
  exact mem_append_of (here _ left one) (there _ right two)

theorem Standing.part {value term : Term} (standing : Standing value term block) : ∀ triple ∈ block, Part graph triple := by
  rw [standing.2]
  exact List.forall_mem_nil _

end Constructs

section Axioms

variable {graph block : List Triple} {limit : Nat}

/-- Properties, as they come in chains, keys and lists of members. -/
private theorem part_properties {properties : List PropertyExpression} {terms : List Term} {part : List Triple}
    (each : Each (PropertyExpression.Described graph) properties terms part) : ∀ triple ∈ part, Part graph triple :=
  each.part fun _ _ _ _ described => described.part

/-- What describes the operands of an axiom that a triple states. -/
theorem Axiom.Stated.part {bare : Axiom} {main : Triple} (stated : bare.Stated graph main block) (sound : bare.Sound limit) :
    ∀ triple ∈ block, Part graph triple := by
  have cls {item : ClassExpression} (valid : item.WellFormed limit) (term : Term) (part : List Triple)
      (described : item.Described graph term part) : ∀ triple ∈ part, Part graph triple := described.part valid
  have range {item : DataRange} (valid : item.WellFormed limit) (term : Term) (part : List Triple)
      (described : item.Described graph term part) : ∀ triple ∈ part, Part graph triple := described.part valid
  have role {item : PropertyExpression} (term : Term) (part : List Triple) (described : item.Described graph term part) :
      ∀ triple ∈ part, Part graph triple := described.part
  have standing {value : Term} (term : Term) (part : List Triple) (stands : Standing value term part) :
      ∀ triple ∈ part, Part graph triple := stands.part
  unfold Stated at stated
  split at stated
  all_goals first
    | exact stated.elim
    | exact stated.part standing standing
    | exact stated.part role role
    | exact stated.part role standing
    | exact stated.part standing (cls sound)
    | exact stated.part role (cls sound)
    | exact stated.part standing (range sound)
    | exact stated.part (cls sound.1) (cls sound.2)
    | exact stated.part (cls (sound _ (by simp))) (cls (sound _ (by simp)))
    | exact stated.part role fun _ _ listed => listed.part fun _ _ => part_properties
    | exact stated.part (cls sound.1) fun _ _ listed => listed.part fun _ _ ⟨_, each, _⟩ => part_properties each
    | exact stated.part standing fun _ _ listed => listed.part fun _ _ each => each.part fun item member term part =>
        cls (sound.2 item member) term part

/-- What describes the operands that a node gathers. -/
theorem Axiom.Gathered.part {bare : Axiom} {type : Iri} {values : List (Iri × Term)} (gathered : bare.Gathered graph type values block)
    (sound : bare.Sound limit) : ∀ triple ∈ block, Part graph triple := by
  unfold Gathered at gathered
  split at gathered
  · obtain ⟨-, _, listed, -⟩ := gathered
    exact listed.part fun _ _ each => each.part fun item member _ _ described => described.part (sound item member)
  · obtain ⟨-, _, listed, -⟩ := gathered
    exact listed.part fun _ _ => part_properties
  · obtain ⟨-, _, list, -⟩ := gathered
    exact list.part
  · obtain ⟨-, _, list, -⟩ := gathered
    exact list.part
  · obtain ⟨-, _, described, -⟩ := gathered
    exact described.part
  · obtain ⟨-, rfl, -⟩ := gathered
    exact List.forall_mem_nil _
  · obtain ⟨-, _, _, _, _, inBody, inHead, -, rfl⟩ := gathered
    have conjunction {items : List Atom} (valid : Rule.Conjunction limit items) (terms : List Term) (part : List Triple)
        (each : Each (Atom.Described graph) items terms part) : ∀ triple ∈ part, Part graph triple :=
      each.part fun item member _ _ described => described.part (valid.2 item member)
    exact List.forall_mem_append.mpr ⟨inBody.part (conjunction sound.1), inHead.part (conjunction sound.2)⟩
  · exact gathered.elim

/-- The node that gathers operands has the type of an axiom, and its values only occur inside constructs. -/
theorem Axiom.Gathered.inner {bare : Axiom} {type : Iri} {values : List (Iri × Term)} (gathered : bare.Gathered graph type values block) :
    type ∈ Role.axiomTypes ∧ ∀ value ∈ values, value.1 ∈ Role.innerPredicates := by
  have known : [Owl.AllDisjointClasses, Owl.AllDisjointProperties, Owl.AllDifferent, Owl.NegativePropertyAssertion, Swrl.Imp] ⊆
      Role.axiomTypes := fun _ => id
  unfold Gathered at gathered
  split at gathered
  all_goals first
    | exact gathered.elim
    | obtain ⟨rfl, _, -, rfl⟩ := gathered
      exact ⟨known (by simp), by simp⟩
    | obtain ⟨rfl, _, _, _, _, -, -, rfl, -⟩ := gathered
      exact ⟨known (by simp), by simp⟩

end Axioms

section Annotations

variable {graph : List Triple} {stands : Node → Triple → Prop}

/-- The triple claims an annotation with one of these properties, of the source or of a node that stands for an annotation. -/
def Claiming (graph : List Triple) (source : Node) (components : List Component) (triple : Triple) : Prop :=
  .annotationProperty triple.predicate ∈ components ∧
    (triple.subject = source ∨ (⟨triple.subject, Rdf.type, Owl.Annotation⟩ : Triple) ∈ graph)

theorem Claiming.mono {source : Node} {components others : List Component} {triple : Triple} (claims : Claiming graph source components triple)
    (subset : ∀ component ∈ components, component ∈ others) : Claiming graph source others triple :=
  ⟨subset _ claims.1, claims.2⟩

theorem pointing_triplesAt {type : Iri} {main triple : Triple} {node : BlankNode}
    (member : triple ∈ triplesAt node (pointerValues type main)) : Pointing type triple := by
  obtain ⟨value, listed, rfl⟩ := List.mem_map.mp member
  simp only [pointerValues, List.mem_cons, List.not_mem_nil, or_false] at listed
  rcases listed with rfl | rfl | rfl | rfl
  · exact .inl ⟨rfl, rfl⟩
  all_goals exact .inr (by simp [Role.pointerPredicates])

namespace Annotation

mutual

theorem Described.place : ∀ {note : Annotation} {source : Node} {block : List Triple}, Described graph stands source note block →
    ∀ triple ∈ block, Pointing Owl.Annotation triple ∨ Claiming graph source note.components triple
  | ⟨property, value, notes⟩, source, block, ⟨inner, _, _, same, reified⟩ => by
    subst same
    refine List.forall_mem_cons.mpr ⟨.inr ⟨List.mem_cons_self, .inl rfl⟩, ?_⟩
    rcases reified with ⟨-, rfl, -⟩ | ⟨node, rest, -, -, pointer, described, rfl⟩
    · exact List.forall_mem_nil _
    · refine List.forall_mem_append.mpr ⟨fun triple member => .inl (pointing_triplesAt member), fun triple member => ?_⟩
      refine (DescribedEach.place described triple member).imp_right fun ⟨property, subject⟩ => ⟨List.mem_cons_of_mem _ (List.mem_cons_of_mem _ property), .inr ?_⟩
      refine subject.elim (fun same => ?_) id
      rw [same]
      exact (pointer.bears Rdf.type (by simp [pointerValues]) _).mpr (by simp [pointerValues])

theorem DescribedEach.place : ∀ {notes : List Annotation} {source : Node} {block : List Triple}, DescribedEach graph stands source notes block →
    ∀ triple ∈ block, Pointing Owl.Annotation triple ∨ Claiming graph source (componentsEach notes) triple
  | [], _, _, same => by
    rw [show _ = [] from same]
    exact List.forall_mem_nil _
  | note :: notes, _, _, ⟨first, rest, described, others, _, same⟩ => by
    subst same
    exact List.forall_mem_append.mpr
      ⟨fun triple member => (Described.place described triple member).imp_right fun claims => claims.mono fun _ => List.mem_append_left _,
        fun triple member => (DescribedEach.place others triple member).imp_right fun claims => claims.mono fun _ => List.mem_append_right _⟩

end

end Annotation

end Annotations

end OwlGraph
