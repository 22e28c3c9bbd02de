import OwlGraph.Proofs.PropertyKinds

/-! Kinds of properties in the axioms that are read. An axiom that relates properties to each other
takes them all for properties of one kind, whatever kinds they were declared to be of, and a
negative assertion goes by its target. Every other axiom takes a property for what it was declared
to be. -/

namespace OwlGraph

open Run

theorem PropertyKind.entityKind_injective : Function.Injective PropertyKind.entityKind := by
  rintro (_ | _ | _) (_ | _ | _) same <;> first | rfl | cases same

namespace PropertyStanding

/-- The kind of property that the property was not declared to be of. -/
def against : PropertyStanding → PropertyKind
  | ⟨_, true⟩ => .object
  | ⟨_, false⟩ => .data

/-- The kinds of axioms that take a property declared to be a data property for an object property,
or that take one declared to be an object property for a data property. -/
def imposing : Bool → List AxiomKind
  | true => [.subObjectPropertyOf, .equivalentObjectProperties, .disjointObjectProperties, .subPropertyChainOf,
      .objectPropertyAssertion .negative]
  | false => [.subDataPropertyOf, .equivalentDataProperties, .disjointDataProperties, .dataPropertyAssertion .negative]

/-- The axiom takes the property for what it was not declared to be, as axioms of its kind may. -/
def Imposed (standing : PropertyStanding) (bare : Axiom) : Prop :=
  bare.kind ∈ imposing standing.ofData ∧ standing.Foreign bare.components

/-- Nothing in the graph makes the data property an object property. -/
structure Plain (standing : PropertyStanding) (setting : Setting) : Prop where
  uninverted : standing.Uninverted setting
  untyped : standing.ofData = true → ∀ row ∈ setting.rows, row.triple.predicate = Rdf.type →
    ∀ trait ∈ Characteristic.ofObjects, row.triple.object = .resource (.named trait.type) → row.triple.subject ≠ standing.property

/-- The axiom imposes a kind on the property, or neither the axiom nor the session mistakes it. -/
def Settles (standing : PropertyStanding) (setting : Setting) (bare : Axiom) (session : Session) : Prop :=
  standing.Imposed bare ∨ standing.Known setting session ∧ ¬ standing.Foreign bare.components

variable {standing : PropertyStanding} {setting : Setting}

theorem rival_eq : standing.rival = ⟨standing.against.entityKind, standing.property⟩ := by
  obtain ⟨_, _ | _⟩ := standing <;> rfl

theorem against_eq_object (data : standing.ofData = true) : standing.against = .object := by
  obtain ⟨_, _ | _⟩ := standing
  · cases data
  · rfl

theorem against_eq_data (object : standing.ofData = false) : standing.against = .data := by
  obtain ⟨_, _ | _⟩ := standing
  · rfl
  · cases object

theorem rival_of_data (data : standing.ofData = true) : standing.rival = ⟨.objectProperty, standing.property⟩ := by
  rw [rival_eq, against_eq_object data]
  rfl

theorem Imposed.normalize {bare : Axiom} (imposed : standing.Imposed bare) : standing.Imposed bare.normalize := by
  have properties : ∀ {properties : List PropertyExpression} {component : Component}, component ∈ properties.map Component.property →
      component ∈ (PropertyExpression.canonical properties).map Component.property := by
    rintro properties component member
    obtain ⟨property, own, rfl⟩ := List.mem_map.mp member
    obtain ⟨kept, inside, rfl⟩ := Canonical.exists_mem_ordered id own
    exact List.mem_map_of_mem inside
  have iris : ∀ {iris : List Iri} {component : Component}, component ∈ iris.map Component.dataProperty →
      component ∈ (Iri.canonical iris).map Component.dataProperty := by
    rintro iris component member
    obtain ⟨property, own, rfl⟩ := List.mem_map.mp member
    obtain ⟨kept, inside, rfl⟩ := Canonical.exists_mem_ordered id own
    exact List.mem_map_of_mem inside
  obtain ⟨listed, foreign⟩ := imposed
  cases bare with
  | equivalentObjectProperties | disjointObjectProperties => exact ⟨listed, properties foreign⟩
  | equivalentDataProperties | disjointDataProperties => exact ⟨listed, iris foreign⟩
  | subObjectPropertyOf | subPropertyChainOf | subDataPropertyOf | objectPropertyAssertion | dataPropertyAssertion =>
    exact ⟨listed, foreign⟩
  | _ => obtain ⟨_, _ | _⟩ := standing <;> simp [imposing, Axiom.kind] at listed

theorem Settles.normalize {bare : Axiom} {session : Session} (settles : standing.Settles setting bare session) :
    standing.Settles setting bare.normalize session :=
  settles.imp Imposed.normalize fun ⟨known, absent⟩ => ⟨known, fun foreign => absent (bare.components_normalize foreign)⟩

end PropertyStanding

namespace Translation

open PropertyStanding

variable {standing : PropertyStanding} {setting : Setting} {context : Context} {α β : Type}

/-- Whatever the session, a value that the translation gives is good. -/
abbrev Gives (context : Context) (body : Translation α) (good : α → Prop) : Prop :=
  Yields context (fun _ => True) body fun value _ => good value

section Given

variable {good : α → Prop} {fine : β → Prop}

theorem gives_pure {value : α} (own : good value) : Gives context (pure value) good := .pure fun _ _ => own

theorem gives_bind {body : Translation α} {next : α → Translation β} (first : Gives context body good)
    (rest : ∀ value, good value → Gives context (next value) fine) : Gives context (body >>= next) fine :=
  Yields.bind first fun value session result final own run => rest value own session result final trivial run

theorem gives_any (body : Translation α) : Gives context body fun _ => True := fun _ _ _ _ _ => trivial

/-- Reading an item of the list gives what reading the item alone gives. -/
theorem gives_mapM {act : α → Translation β} {item : α} (each : Gives context (act item) fine) : ∀ {items : List α}, item ∈ items →
    Gives context (items.mapM act) fun values => ∃ value ∈ values, fine value
  | other :: rest, member => by
    rw [List.mapM_cons]
    rcases List.mem_cons.mp member with rfl | later
    · exact gives_bind each fun value own => gives_bind (gives_any _) fun values _ =>
        gives_pure ⟨value, List.mem_cons_self, own⟩
    · exact gives_bind (gives_any _) fun _ _ => gives_bind (gives_mapM each later) fun values ⟨value, inside, own⟩ =>
        gives_pure ⟨value, List.mem_cons_of_mem _ inside, own⟩

theorem gives_propertyExpression (term : Term) : Gives context (propertyExpression term) fun expression =>
    ∀ iri : Iri, term = iri → Component.property expression = .objectProperty iri := by
  rcases term with (iri | node) | value
  · exact gives_bind (gives_any _) fun _ _ => gives_pure fun other same => by cases same; rfl
  · exact fun _ _ _ _ _ _ same => nomatch same
  · exact fun _ _ _ _ _ _ same => nomatch same

theorem gives_dataProperty (term : Term) : Gives context (dataProperty term) fun property =>
    ∀ iri : Iri, term = iri → property = iri := by
  rcases term with (iri | node) | value
  · exact gives_bind (gives_pure rfl : Gives context _ fun found => found = iri) fun found same => gives_bind (gives_any _) fun _ _ =>
      gives_pure fun other named => by cases named; exact same
  · exact fun _ _ _ _ _ _ same => nomatch same
  · exact fun _ _ _ _ _ _ same => nomatch same

/-- One of two operands is read as the item is. -/
theorem gives_pair {read : Term → Translation α} {first second item : Term} (member : item ∈ [first, second])
    (each : Gives context (read item) good) {next : α → α → Translation β}
    (rest : ∀ a b, good a ∨ good b → Gives context (next a b) fine) : Gives context (do
      let a ← read first
      let b ← read second
      next a b) fine := by
  rcases List.mem_pair.mp member with rfl | rfl
  · exact gives_bind each fun a own => gives_bind (gives_any _) fun b _ => rest a b (.inl own)
  · exact gives_bind (gives_any _) fun a _ => gives_bind each fun b own => rest a b (.inr own)

end Given

section Mistaken

variable (data : standing.ofData = true) (object : standing.ofData = false)

include data in
theorem gives_foreign_object : Gives context (propertyExpression standing.property) fun expression =>
    Component.property expression = .entity standing.rival := by
  obtain ⟨property, _ | _⟩ := standing
  · cases data
  · exact (gives_propertyExpression _).imp fun expression _ own => own property rfl

include object in
theorem gives_foreign_data : Gives context (dataProperty standing.property) fun iri =>
    Component.dataProperty iri = .entity standing.rival := by
  obtain ⟨property, _ | _⟩ := standing
  · exact (gives_dataProperty _).imp fun iri _ own => congrArg Component.dataProperty (own property rfl)
  · cases object

end Mistaken

section Kinds

theorem keeps_commonKind (members : List Term) : standing.Keeps setting context (commonKind members) fun _ => True := by
  refine keeps_look fun session _ => ?_
  split
  · exact keeps_pure trivial
  · exact keeps_imp (keeps_resolveProperty _ _) fun _ _ => trivial
  · exact keeps_unexpected _ _
  · exact keeps_pure trivial

/-- The common kind of two properties is learned for both, which may be against a declaration. -/
theorem yields_pairKind (first second : Term) : Yields context (standing.Known setting) (pairKind first second) fun kind session =>
    standing.Known setting session ∨ kind = standing.against ∧ (standing.property : Term) ∈ [first, second] := by
  refine (keeps_commonKind _).bind fun kind => ?_
  by_cases conflict : kind = standing.against ∧ (standing.property : Term) ∈ [first, second]
  · have given : Gives context (do
        ([first, second].filterMap Term.iri?).forM fun iri => learn iri kind.entityKind
        return kind) fun found => found = kind := gives_bind (gives_any _) fun _ _ => gives_pure rfl
    exact given.weaken (fun _ _ => trivial) fun found _ same => .inr (same ▸ conflict)
  · have apart : ∀ iri ∈ [first, second].filterMap Term.iri?, (⟨kind.entityKind, iri⟩ : Entity) ≠ standing.rival := by
      intro iri member same
      obtain ⟨term, listed, named⟩ := List.mem_filterMap.mp member
      rw [rival_eq] at same
      obtain ⟨kinds, iris⟩ := Entity.mk.inj same
      rw [Term.iri?_eq_some.mp named, iris] at listed
      exact conflict ⟨PropertyKind.entityKind_injective kinds, listed⟩
    have learned : Yields context (standing.Known setting)
        (([first, second].filterMap Term.iri?).forM fun iri => learn iri kind.entityKind) fun _ => standing.Known setting :=
      .forM _ fun iri member => .alter fun _ known => known.learn fun _ => apart iri member
    exact (learned.weaken (fun _ holds => holds.1) fun _ _ => id).bind fun _ => .pure fun _ => .inl

/-- Settles an axiom by the kind that is found for some terms. -/
theorem settles_common {members : List Term} {kindOf : Translation PropertyKind} {form : PropertyKind → Translation Axiom}
    (found : Yields context (standing.Known setting) kindOf fun kind session =>
      standing.Known setting session ∨ kind = standing.against ∧ (standing.property : Term) ∈ members)
    (mistaken : (standing.property : Term) ∈ members → Gives context (form standing.against) standing.Imposed)
    (kept : ∀ kind, (kind = standing.against → (standing.property : Term) ∉ members) →
      standing.Keeps setting context (form kind) fun bare => ¬ standing.Foreign bare.components) :
    Yields context (standing.Known setting) (kindOf >>= form) (standing.Settles setting) := by
  refine found.bind fun kind session bare final holds run => ?_
  by_cases conflict : kind = standing.against ∧ (standing.property : Term) ∈ members
  · obtain ⟨rfl, member⟩ := conflict
    exact .inl (mistaken member session bare final trivial run)
  · exact .inr (kept kind (fun same member => conflict ⟨same, member⟩) session bare final (holds.resolve_right conflict) run)

theorem settles_keeps {body : Translation Axiom} (keeps : standing.Keeps setting context body fun bare => ¬ standing.Foreign bare.components) :
    Yields context (standing.Known setting) body (standing.Settles setting) := keeps.imp fun _ _ => .inr

theorem settles_after {good : α → Prop} {body : Translation α} {next : α → Translation Axiom}
    (keeps : standing.Keeps setting context body good)
    (rest : ∀ value, Yields context (standing.Known setting) (next value) (standing.Settles setting)) :
    Yields context (standing.Known setting) (body >>= next) (standing.Settles setting) :=
  Yields.bind keeps fun value => (rest value).weaken (fun _ holds => holds.1) fun _ _ => id

end Kinds

section Related

variable (uninverted : standing.Uninverted setting)
include uninverted

/-- Two properties that an axiom relates. -/
theorem settles_pair {subject object : Term} {form : PropertyKind → Translation Axiom}
    {objects : PropertyExpression → PropertyExpression → Axiom} {data : Iri → Iri → Axiom}
    (asObjects : form .object = do return objects (← propertyExpression subject) (← propertyExpression object))
    (asData : form .data = do return data (← dataProperty subject) (← dataProperty object))
    (ofObjects : ∀ a b, (objects a b).kind ∈ imposing true ∧ (objects a b).components = [.property a, .property b])
    (ofData : ∀ a b, (data a b).kind ∈ imposing false ∧ (data a b).components = [.dataProperty a, .dataProperty b])
    (annotating : standing.Keeps setting context (form .annotating) fun bare => ¬ standing.Foreign bare.components) :
    Yields context (standing.Known setting) (pairKind subject object >>= form) (standing.Settles setting) := by
  refine settles_common (yields_pairKind subject object) (fun member => ?_) fun kind absent => ?_
  · obtain ⟨property, _ | _⟩ := standing
    · rw [show against ⟨property, false⟩ = .data from rfl, asData]
      refine gives_pair member (gives_foreign_data rfl) fun a b own => gives_pure ⟨(ofData a b).1, ?_⟩
      rw [(ofData a b).2]
      rcases own with own | own <;> simp [Foreign, own]
    · rw [show against ⟨property, true⟩ = .object from rfl, asObjects]
      refine gives_pair member (gives_foreign_object rfl) fun a b own => gives_pure ⟨(ofObjects a b).1, ?_⟩
      rw [(ofObjects a b).2]
      rcases own with own | own <;> simp [Foreign, own]
  · have apart : kind = standing.against → subject ≠ standing.property ∧ object ≠ standing.property := fun same =>
      ⟨fun own => absent same (own ▸ List.mem_cons_self), fun own => absent same (own ▸ List.mem_pair.mpr (.inr rfl))⟩
    cases kind with
    | object =>
      rw [asObjects]
      have differ (ofData : standing.ofData = true) := apart (against_eq_object ofData).symm
      refine keeps_bind (keeps_propertyExpression uninverted fun data => (differ data).1) fun a first =>
        keeps_bind (keeps_propertyExpression uninverted fun data => (differ data).2) fun b second => keeps_pure ?_
      rw [(ofObjects a b).2]
      exact not_foreign_cons first (not_foreign_cons second List.not_mem_nil)
    | data =>
      rw [asData]
      have differ (ofObject : standing.ofData = false) := apart (against_eq_data ofObject).symm
      refine keeps_bind (keeps_dataProperty fun object => (differ object).1) fun a first =>
        keeps_bind (keeps_dataProperty fun object => (differ object).2) fun b second => keeps_pure ?_
      rw [(ofData a b).2]
      exact not_foreign_cons first (not_foreign_cons second List.not_mem_nil)
    | annotating => exact annotating

theorem settles_subPropertyOf (subject object : Term) :
    Yields context (standing.Known setting) (subPropertyOf subject object) (standing.Settles setting) := by
  refine settles_pair uninverted rfl rfl (fun _ _ => ⟨by simp [imposing, Axiom.kind], rfl⟩) (fun _ _ => ⟨by simp [imposing, Axiom.kind], rfl⟩) ?_
  exact keeps_bind (keeps_named _ _) fun _ _ => keeps_bind (keeps_named _ _) fun _ _ => keeps_pure
    (not_foreign_cons (entity_ne_rival (by decide) (by decide)) (not_foreign_cons (entity_ne_rival (by decide) (by decide)) List.not_mem_nil))

theorem settles_equivalentProperties (subject object : Term) :
    Yields context (standing.Known setting) (equivalentProperties subject object) (standing.Settles setting) :=
  settles_pair uninverted rfl rfl (fun _ _ => ⟨by simp [imposing, Axiom.kind], rfl⟩) (fun _ _ => ⟨by simp [imposing, Axiom.kind], rfl⟩) (keeps_unexpected _ _)

theorem settles_disjointPair (subject object : Term) :
    Yields context (standing.Known setting) (disjointPair subject object) (standing.Settles setting) :=
  settles_pair uninverted rfl rfl (fun _ _ => ⟨by simp [imposing, Axiom.kind], rfl⟩) (fun _ _ => ⟨by simp [imposing, Axiom.kind], rfl⟩) (keeps_unexpected _ _)

/-- The properties in a list. -/
theorem settles_disjointProperties (members : List Term) :
    Yields context (standing.Known setting) (disjointProperties members) (standing.Settles setting) := by
  have found : Yields context (standing.Known setting) (commonKind members) fun kind session =>
      standing.Known setting session ∨ kind = standing.against ∧ (standing.property : Term) ∈ members :=
    (keeps_commonKind members).imp fun _ _ ⟨known, _⟩ => .inl known
  refine settles_common found (fun member => ?_) fun kind absent => ?_
  · obtain ⟨property, _ | _⟩ := standing
    · refine gives_bind (gives_mapM (gives_foreign_data rfl) member) fun iris ⟨iri, inside, own⟩ =>
        gives_pure ⟨by simp [imposing, Axiom.kind], ?_⟩
      exact List.mem_map.mpr ⟨iri, inside, own⟩
    · refine gives_bind (gives_mapM (gives_foreign_object rfl) member) fun properties ⟨expression, inside, own⟩ =>
        gives_pure ⟨by simp [imposing, Axiom.kind], ?_⟩
      exact List.mem_map.mpr ⟨expression, inside, own⟩
  · have apart (same : kind = standing.against) : ∀ term ∈ members, term ≠ standing.property := fun term member own =>
      absent same (own ▸ member)
    cases kind with
    | object =>
      exact keeps_bind (Yields.mapM members fun term member => keeps_propertyExpression uninverted fun data =>
        apart (against_eq_object data).symm term member) fun _ others => keeps_pure (not_foreign_map others)
    | data =>
      exact keeps_bind (Yields.mapM members fun term member => keeps_dataProperty fun object =>
        apart (against_eq_data object).symm term member) fun _ others => keeps_pure (not_foreign_map others)
    | annotating => exact keeps_fail _

/-- A list of object properties has the data property in it, or the property is not mistaken. -/
theorem yields_properties (head : Term) : Yields context (standing.Known setting) (operandsWith propertyExpression head) fun chain session =>
    standing.ofData = true ∧ Component.entity standing.rival ∈ chain.map Component.property ∨
      standing.Known setting session ∧ Component.entity standing.rival ∉ chain.map Component.property := by
  refine Yields.bind (keeps_operands head) fun elements => ?_
  by_cases inside : standing.ofData = true ∧ (standing.property : Term) ∈ elements
  · exact (gives_mapM (gives_foreign_object inside.1) inside.2).weaken (fun _ _ => trivial) fun chain _ ⟨expression, member, own⟩ =>
      .inl ⟨inside.1, List.mem_map.mpr ⟨expression, member, own⟩⟩
  · have keeps : standing.Keeps setting context (elements.mapM propertyExpression) fun chain =>
        ∀ expression ∈ chain, Component.property expression ≠ .entity standing.rival :=
      Yields.mapM elements fun term member => keeps_propertyExpression uninverted fun data same => inside ⟨data, same ▸ member⟩
    exact keeps.weaken (fun _ holds => holds.1) fun chain _ ⟨known, others⟩ => .inr ⟨known, not_foreign_map others⟩

/-- A chain of properties and the property that it is included in. -/
theorem settles_chain (subject object : Term) : Yields context (standing.Known setting) (do
      let sup ← propertyExpression subject
      return Axiom.subPropertyChainOf (← operandsWith propertyExpression object) sup) (standing.Settles setting) := by
  have imposed (data : standing.ofData = true) {chain : List PropertyExpression} {sup : PropertyExpression}
      (foreign : standing.Foreign (Axiom.subPropertyChainOf chain sup).components) :
      standing.Imposed (.subPropertyChainOf chain sup) := ⟨by rw [data]; simp [imposing, Axiom.kind], foreign⟩
  by_cases above : standing.ofData = true ∧ subject = standing.property
  · obtain ⟨data, rfl⟩ := above
    have given : Gives context (do
        let sup ← propertyExpression standing.property
        return Axiom.subPropertyChainOf (← operandsWith propertyExpression object) sup) standing.Imposed :=
      gives_bind (gives_foreign_object data) fun sup own => gives_bind (gives_any _) fun chain _ => gives_pure (imposed data
        (List.mem_append_right _ (own ▸ List.mem_singleton_self _)))
    exact given.weaken (fun _ _ => trivial) fun _ _ => .inl
  · refine Yields.bind (keeps_propertyExpression uninverted fun data same => above ⟨data, same⟩)
      fun sup session bare final ⟨known, other⟩ => ?_
    refine Yields.bind (yields_properties uninverted object) (fun chain => .pure fun session holds => ?_) session bare final known
    refine holds.imp (fun ⟨data, inside⟩ => imposed data (List.mem_append_left _ inside)) fun ⟨known, absent⟩ => ⟨known, ?_⟩
    exact not_foreign_append absent (not_foreign_cons other List.not_mem_nil)

end Related

section Statements

variable (plain : standing.Plain setting)
include plain

theorem keeps_classes (head : Term) : standing.Keeps setting context (operandsWith classExpression head) fun classes =>
    ¬ standing.Foreign (classes.flatMap ClassExpression.components) :=
  keeps_imp (keeps_operandsWith (keeps_classExpression plain.uninverted) head) fun _ => not_foreign_flatMap

theorem keeps_pairOfClasses (subject object : Term) {form : List ClassExpression → Axiom}
    (made : ∀ classes, (form classes).components = classes.flatMap ClassExpression.components) :
    standing.Keeps setting context (do return form [← classExpression subject, ← classExpression object])
      fun bare => ¬ standing.Foreign bare.components := by
  refine keeps_bind (keeps_classExpression plain.uninverted _) fun first absent =>
    keeps_bind (keeps_classExpression plain.uninverted _) fun second missing => keeps_pure ?_
  rw [made]
  exact not_foreign_flatMap (List.forall_mem_cons.mpr ⟨absent, List.forall_mem_singleton.mpr missing⟩)

theorem keeps_classDefinition (predicate : Iri) (object : Term) : standing.Keeps setting context (classDefinition predicate object)
    fun expression => ¬ standing.Foreign expression.components := by
  have combination (junction : Junction) : standing.Keeps setting context (do
      return ClassExpression.combination junction (← operandsWith classExpression object))
        fun expression => ¬ standing.Foreign expression.components := by
    refine keeps_bind (keeps_classes plain object) fun classes absent => keeps_pure ?_
    rwa [ClassExpression.components, ClassExpression.componentsEach_eq]
  refine .ite (fun _ => combination _) fun _ => .ite (fun _ => combination _) fun _ => .ite (fun _ => ?_) fun _ => ?_
  · refine keeps_bind (keeps_classExpression plain.uninverted _) fun operand absent => keeps_pure ?_
    rwa [ClassExpression.components]
  · refine keeps_bind (keeps_operandsWith keeps_individual object) fun individuals _ => keeps_pure ?_
    exact not_foreign_map fun node _ => individual_ne_rival node

/-- A key property is put with those of its kind. -/
theorem keeps_keyProperty {keys : Array PropertyExpression × Array Iri}
    (own : (∀ property ∈ keys.1, Component.property property ≠ .entity standing.rival) ∧
      ∀ property ∈ keys.2, Component.dataProperty property ≠ .entity standing.rival) (term : Term) :
    standing.Keeps setting context (keyProperty keys term) fun keys =>
      (∀ property ∈ keys.1, Component.property property ≠ .entity standing.rival) ∧
        ∀ property ∈ keys.2, Component.dataProperty property ≠ .entity standing.rival := by
  rcases term with (iri | node) | value
  case' resource.named => refine keeps_bind (keeps_resolveProperty iri none) fun kind found => ?_
  case' resource.blank => refine keeps_bind (keeps_pure (rfl : PropertyKind.object = .object)) fun kind found => ?_
  case' literal => exact keeps_bind (keeps_unexpected _ _ : standing.Keeps setting context _ fun _ => False) nofun
  case' resource.named => have apart := apart_of_kind fun same : (iri : Term) = standing.property => found (Node.named.inj (Term.resource.inj same))
  case' resource.blank => have apart := @apart_of_kind standing (.resource (.blank node)) kind nofun
  all_goals
    cases kind with
    | object =>
      refine keeps_bind (keeps_propertyExpression plain.uninverted (apart.1 rfl)) fun property other => keeps_pure ⟨?_, own.2⟩
      exact fun added member => (Array.mem_push.mp member).elim (own.1 added) fun same => same ▸ other
    | data =>
      refine keeps_bind (keeps_dataProperty (apart.2 rfl)) fun property other => keeps_pure ⟨own.1, ?_⟩
      exact fun added member => (Array.mem_push.mp member).elim (own.2 added) fun same => same ▸ other
    | annotating => exact keeps_unexpected _ _

theorem keeps_hasKey (subject object : Term) : standing.Keeps setting context (hasKey subject object)
    fun bare => ¬ standing.Foreign bare.components := by
  refine keeps_bind (keeps_classExpression plain.uninverted _) fun cls absent => keeps_bind (keeps_readList _) fun elements _ =>
    keeps_bind (Yields.foldlM elements (fun term _ keys own => keeps_keyProperty plain own term) (#[], #[]) ⟨nofun, nofun⟩)
      fun keys own => keeps_pure ?_
  refine not_foreign_append (not_foreign_append absent (not_foreign_map fun property member => ?_)) (not_foreign_map fun property member => ?_)
  · exact own.1 property (Array.mem_toList_iff.mp member)
  · exact own.2 property (Array.mem_toList_iff.mp member)

theorem keeps_propertyDomain (subject : Node) (object : Term) : standing.Keeps setting context (propertyDomain subject object)
    fun bare => ¬ standing.Foreign bare.components := by
  refine keeps_bind (keeps_subjectKind subject none) fun kind found => ?_
  have apart := apart_of_kind fun same : (subject : Term) = standing.property => found (Term.resource.inj same)
  cases kind with
  | object =>
    exact keeps_bind (keeps_propertyExpression plain.uninverted (apart.1 rfl)) fun _ other =>
      keeps_bind (keeps_classExpression plain.uninverted _) fun _ absent => keeps_pure (not_foreign_cons other absent)
  | data =>
    exact keeps_bind (keeps_dataProperty (apart.2 rfl)) fun _ other =>
      keeps_bind (keeps_classExpression plain.uninverted _) fun _ absent => keeps_pure (not_foreign_cons other absent)
  | annotating =>
    exact keeps_bind (keeps_named _ _) fun _ _ => keeps_bind (keeps_named _ _) fun _ _ => keeps_pure
      (not_foreign_cons (entity_ne_rival (by decide) (by decide)) (not_foreign_cons (iri_ne_rival _) List.not_mem_nil))

theorem keeps_propertyRange (subject : Node) (object : Term) : standing.Keeps setting context (propertyRange subject object)
    fun bare => ¬ standing.Foreign bare.components := by
  refine keeps_look fun session _ => keeps_bind (keeps_subjectKind subject _) fun kind found => ?_
  have apart := apart_of_kind fun same : (subject : Term) = standing.property => found (Term.resource.inj same)
  cases kind with
  | object =>
    exact keeps_bind (keeps_propertyExpression plain.uninverted (apart.1 rfl)) fun _ other =>
      keeps_bind (keeps_classExpression plain.uninverted _) fun _ absent => keeps_pure (not_foreign_cons other absent)
  | data =>
    exact keeps_bind (keeps_dataProperty (apart.2 rfl)) fun _ other =>
      keeps_bind (keeps_dataRange _) fun range _ => keeps_pure (not_foreign_cons other (not_foreign_dataRange range))
  | annotating =>
    exact keeps_bind (keeps_named _ _) fun _ _ => keeps_bind (keeps_named _ _) fun _ _ => keeps_pure
      (not_foreign_cons (entity_ne_rival (by decide) (by decide)) (not_foreign_cons (iri_ne_rival _) List.not_mem_nil))

omit plain in
theorem keeps_assertionKind (predicate : Iri) (object : Term) : standing.Keeps setting context (assertionKind predicate object)
    fun kind => predicate = standing.property → kind = standing.kind := by
  refine keeps_look fun session known => ?_
  split
  · next kind found =>
    refine keeps_pure fun same => ?_
    rw [same, known.kind] at found
    exact (Option.some.inj found).symm
  · next none =>
    have unknown : predicate ≠ standing.property := by
      rintro rfl
      rw [known.kind] at none
      cases none
    refine .read (.ite (fun _ => ?_) fun _ => .stop _ _)
    refine .ite (fun _ => keeps_bind (keeps_learn_other _ (by decide)) fun _ _ => keeps_pure fun same => absurd same unknown) fun _ => ?_
    exact keeps_bind (keeps_recover _) fun _ _ => keeps_pure fun same => absurd same unknown

theorem keeps_assertion (subject : Node) (predicate : Iri) (object : Term) :
    standing.Keeps setting context (assertion subject predicate object) fun bare => ¬ standing.Foreign bare.components := by
  refine keeps_bind (keeps_assertionKind predicate object) fun kind found => ?_
  have apart := apart_of_kind fun same : (predicate : Term) = standing.property => found (Node.named.inj (Term.resource.inj same))
  cases kind with
  | object =>
    exact keeps_bind (keeps_propertyExpression plain.uninverted (apart.1 rfl)) fun _ other =>
      keeps_bind (keeps_individual _) fun first _ => keeps_bind (keeps_individual _) fun second _ => keeps_pure
        (not_foreign_cons other (not_foreign_cons (individual_ne_rival first) (not_foreign_cons (individual_ne_rival second) List.not_mem_nil)))
  | data =>
    exact keeps_bind (keeps_dataProperty (apart.2 rfl)) fun _ other =>
      keeps_bind (keeps_individual _) fun first _ => keeps_bind (keeps_literal _) fun second _ => keeps_pure
        (not_foreign_cons other (not_foreign_cons (individual_ne_rival first) (not_foreign_cons (literal_ne_rival second) List.not_mem_nil)))
  | annotating =>
    exact keeps_bind (keeps_individualOf _) fun first _ => keeps_bind (keeps_annotationValue _) fun second _ => keeps_pure
      (not_foreign_cons (entity_ne_rival (by decide) (by decide)) (not_foreign_cons (annotated_ne_rival first)
        (not_foreign_cons (annotationValue_ne_rival second) List.not_mem_nil)))

theorem settles_predicateAxiom {subject : Node} {predicate : Iri} {object : Term}
    (listed : ⟨subject, predicate, object⟩ ∈ setting.rows.map Row.triple) :
    Yields context (standing.Known setting) (predicateAxiom subject predicate object) (standing.Settles setting) := by
  have uninverted := plain.uninverted
  refine .ite (fun _ => ?_) fun _ => .ite (fun _ => ?_) fun _ => .ite (fun _ => ?_) fun _ => .ite (fun _ => ?_) fun _ =>
    .ite (fun _ => ?_) fun _ => .ite (fun _ => ?_) fun _ => .ite (fun _ => ?_) fun _ => .ite (fun _ => ?_) fun _ =>
    .ite (fun _ => ?_) fun _ => .ite (fun inverse => ?_) fun _ => .ite (fun _ => ?_) fun _ => .ite (fun _ => ?_) fun _ =>
    .ite (fun _ => ?_) fun _ => .ite (fun _ => ?_) fun _ => .ite (fun _ => ?_) fun _ => ?_
  · exact settles_keeps (keeps_bind (keeps_classExpression uninverted _) fun _ first =>
      keeps_bind (keeps_classExpression uninverted _) fun _ second => keeps_pure (not_foreign_append first second))
  · refine settles_keeps (keeps_look fun session _ => .ite (fun _ => ?_) fun _ => keeps_pairOfClasses plain _ _ fun _ => rfl)
    exact keeps_bind (keeps_named _ _) fun _ _ => keeps_bind (keeps_dataRange _) fun range _ =>
      keeps_pure (not_foreign_cons (entity_ne_rival (by decide) (by decide)) (not_foreign_dataRange range))
  · exact settles_keeps (keeps_pairOfClasses plain _ _ fun _ => rfl)
  · exact settles_keeps (keeps_bind (keeps_named _ _) fun _ _ => keeps_bind (keeps_learn_other _ (by decide)) fun _ _ =>
      keeps_bind (keeps_classes plain _) fun _ absent => keeps_pure (not_foreign_cons (entity_ne_rival (by decide) (by decide)) absent))
  · exact settles_keeps (keeps_hasKey plain _ _)
  · exact settles_subPropertyOf uninverted _ _
  · exact settles_chain uninverted _ _
  · exact settles_equivalentProperties uninverted _ _
  · exact settles_disjointPair uninverted _ _
  · obtain ⟨row, member, same⟩ := List.mem_map.mp listed
    have apart (data : standing.ofData = true) := uninverted data row member (by rw [same]; exact inverse)
    rw [same] at apart
    exact settles_keeps (keeps_bind (keeps_propertyExpression uninverted fun data own => (apart data).1 (Term.resource.inj own)) fun _ first =>
      keeps_bind (keeps_propertyExpression uninverted fun data => (apart data).2) fun _ second =>
        keeps_pure (not_foreign_cons first (not_foreign_cons second List.not_mem_nil)))
  · exact settles_keeps (keeps_propertyDomain plain _ _)
  · exact settles_keeps (keeps_propertyRange plain _ _)
  · exact settles_keeps (keeps_bind (keeps_individual _) fun first _ => keeps_bind (keeps_individual _) fun second _ =>
      keeps_pure (not_foreign_map fun node _ => individual_ne_rival node))
  · exact settles_keeps (keeps_bind (keeps_individual _) fun first _ => keeps_bind (keeps_individual _) fun second _ =>
      keeps_pure (not_foreign_map fun node _ => individual_ne_rival node))
  · exact settles_keeps (keeps_bind (keeps_classExpression uninverted _) fun cls first =>
      keeps_bind (keeps_classDefinition plain _ _) fun definition second => keeps_pure
        (not_foreign_flatMap (List.forall_mem_cons.mpr ⟨first, List.forall_mem_singleton.mpr second⟩)))
  · exact settles_keeps (keeps_assertion plain _ _ _)

theorem keeps_functionalProperty (subject : Node) : standing.Keeps setting context (functionalProperty subject)
    fun bare => ¬ standing.Foreign bare.components := by
  refine keeps_bind (keeps_subjectKind subject none) fun kind found => ?_
  have apart := apart_of_kind fun same : (subject : Term) = standing.property => found (Term.resource.inj same)
  cases kind with
  | object =>
    exact keeps_bind (keeps_propertyExpression plain.uninverted (apart.1 rfl)) fun _ other =>
      keeps_pure (not_foreign_cons other List.not_mem_nil)
  | data => exact keeps_bind (keeps_dataProperty (apart.2 rfl)) fun _ other => keeps_pure (not_foreign_cons other List.not_mem_nil)
  | annotating => exact keeps_unexpected _ _

theorem keeps_classAssertion (subject : Node) (object : Term) : standing.Keeps setting context (classAssertion subject object)
    fun bare => ¬ standing.Foreign bare.components := by
  have read : standing.Keeps setting context (do
      let cls ← classExpression object
      return Axiom.classAssertion cls (← individual subject)) fun bare => ¬ standing.Foreign bare.components :=
    keeps_bind (keeps_classExpression plain.uninverted _) fun _ absent => keeps_bind (keeps_individual _) fun node _ =>
      keeps_pure (not_foreign_append absent (not_foreign_cons (individual_ne_rival node) List.not_mem_nil))
  exact .ite (fun _ => .stop _ _) fun _ => read

theorem keeps_typeAxiom {subject : Node} {object : Term} (listed : ⟨subject, Rdf.type, object⟩ ∈ setting.rows.map Row.triple) :
    standing.Keeps setting context (typeAxiom subject object) fun bare => ¬ standing.Foreign bare.components := by
  unfold typeAxiom
  split
  · next type typed =>
    refine .ite (fun _ => keeps_functionalProperty plain subject) fun _ => ?_
    split
    · next trait found =>
      obtain ⟨row, member, same⟩ := List.mem_map.mp listed
      have apart (data : standing.ofData = true) : (subject : Term) ≠ standing.property := by
        have name : trait.type = type := by simpa using List.find?_some found
        have object : row.triple.object = .resource (.named trait.type) := by rw [same, Term.iri?_eq_some.mp typed, name]
        have apart := plain.untyped data row member (by rw [same]) trait (List.mem_of_find?_eq_some found) object
        rw [same] at apart
        exact fun own => apart (Term.resource.inj own)
      exact keeps_bind (keeps_propertyExpression plain.uninverted apart) fun _ other =>
        keeps_pure (not_foreign_cons other List.not_mem_nil)
    · exact keeps_classAssertion plain subject object
  · exact keeps_classAssertion plain subject object

/-- A negative assertion reads its property by the kind of its target. -/
theorem settles_negativeAssertion (node : Node) :
    Yields context (standing.Known setting) (negativeAssertion node) (standing.Settles setting) := by
  have uninverted := plain.uninverted
  refine settles_after (keeps_singleObject _ _) fun source => settles_after (keeps_individual _) fun subject =>
    settles_after (keeps_singleObject _ _) fun property => .get fun session _ => .ite (fun _ => ?_) fun _ => ?_
  · refine settles_after (keeps_singleObject _ _) fun target => ?_
    by_cases mistaken : standing.ofData = true ∧ property = standing.property
    · obtain ⟨data, rfl⟩ := mistaken
      have given : Gives context (do
          let expression ← propertyExpression standing.property
          return Axiom.objectPropertyAssertion .negative expression subject (← individual target)) standing.Imposed :=
        gives_bind (gives_foreign_object data) fun expression own => gives_bind (gives_any _) fun value _ => gives_pure
          ⟨by rw [data]; simp [imposing, Axiom.kind], List.mem_cons.mpr (.inl own.symm)⟩
      exact given.weaken (fun _ _ => trivial) fun _ _ => .inl
    · exact settles_keeps (keeps_bind (keeps_propertyExpression uninverted fun data same => mistaken ⟨data, same⟩) fun _ other =>
        keeps_bind (keeps_individual _) fun value _ => keeps_pure (not_foreign_cons other
          (not_foreign_cons (individual_ne_rival subject) (not_foreign_cons (individual_ne_rival value) List.not_mem_nil))))
  · refine settles_after (keeps_singleObject _ _) fun target => ?_
    by_cases mistaken : standing.ofData = false ∧ property = standing.property
    · obtain ⟨object, rfl⟩ := mistaken
      have given : Gives context (do
          let iri ← dataProperty standing.property
          return Axiom.dataPropertyAssertion .negative iri subject (← literal target)) standing.Imposed :=
        gives_bind (gives_foreign_data object) fun expression own => gives_bind (gives_any _) fun value _ => gives_pure
          ⟨by rw [object]; simp [imposing, Axiom.kind], List.mem_cons.mpr (.inl own.symm)⟩
      exact given.weaken (fun _ _ => trivial) fun _ _ => .inl
    · exact settles_keeps (keeps_bind (keeps_dataProperty fun object same => mistaken ⟨object, same⟩) fun _ other =>
        keeps_bind (keeps_literal _) fun value _ => keeps_pure (not_foreign_cons other
          (not_foreign_cons (individual_ne_rival subject) (not_foreign_cons (literal_ne_rival value) List.not_mem_nil))))

theorem settles_nodeAxiom (node : Node) (type : Iri) :
    Yields context (standing.Known setting) (nodeAxiom node type) (standing.Settles setting) := by
  refine .ite (fun _ => ?_) fun _ => .ite (fun _ => ?_) fun _ => .ite (fun _ => ?_) fun _ => .ite (fun _ => ?_) fun _ => ?_
  · exact settles_keeps (keeps_bind (keeps_singleObject _ _) fun head _ => keeps_bind (keeps_classes plain head) fun _ absent =>
      keeps_pure absent)
  · exact settles_after (keeps_singleObject _ _) fun head => settles_after (keeps_readList head) fun elements =>
      settles_disjointProperties plain.uninverted elements
  · exact settles_keeps (keeps_look fun session _ => keeps_bind (keeps_singleObject _ _) fun head _ =>
      keeps_bind (keeps_operandsWith keeps_individual head) fun individuals _ =>
        keeps_pure (not_foreign_map fun node _ => individual_ne_rival node))
  · exact settles_negativeAssertion plain node
  · exact settles_keeps (keeps_bind (keeps_rule plain.uninverted node) fun _ absent => keeps_pure absent)

/-- The axiom of a triple of the graph imposes a kind, or the property stays what it was declared
to be. -/
theorem settles_statement {triple : Triple} (listed : triple ∈ setting.rows.map Row.triple) :
    Yields context (standing.Known setting) (statement triple) fun fact => standing.Settles setting fact.bare := by
  have alone {bare : Translation Axiom} (settles : Yields context (standing.Known setting) bare (standing.Settles setting)) :
      Yields context (standing.Known setting) (do return AnnotatedAxiom.of (← bare) [])
        fun fact => standing.Settles setting fact.bare :=
    settles.bind fun _ => .pure fun _ => Settles.normalize
  obtain ⟨subject, predicate, object⟩ := triple
  refine .ite (fun type => ?_) fun _ => alone (settles_predicateAxiom plain listed)
  split
  · refine (settles_nodeAxiom plain subject _).bind fun bare => Yields.bind ?_ fun notes => .pure fun _ => Settles.normalize
    rintro session notes final (imposed | ⟨known, absent⟩) run
    · exact .inl imposed
    · exact .inr ⟨(keeps_annotationsOn subject session notes final known run).1, absent⟩
  · exact alone (settles_keeps (keeps_typeAxiom plain (type ▸ listed)))

end Statements

end Translation

end OwlGraph
