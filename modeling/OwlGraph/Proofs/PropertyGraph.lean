import Mathlib.Logic.ExistsUnique
import Mathlib.Logic.Relation
import OwlGraph.Proofs.Candidates
import OwlGraph.Proofs.ClearLoad
import OwlGraph.Proofs.Effects

/-! Graphs of properties: declarations of object and data properties, and triples that relate two
properties of one kind. The kind of a property that is not declared is told by those that it is
linked to, near and far. A triple between properties is read as soon as the kind of one is known, and
then the kind of the other is known too. -/

namespace OwlGraph.PropertyGraph

inductive Kind where
  | object
  | data
deriving DecidableEq

def Kind.propertyKind : Kind → PropertyKind
  | .object => .object
  | .data => .data

def Kind.entityKind (kind : Kind) : EntityKind := kind.propertyKind.entityKind

theorem Kind.of_entityKind {kind : Kind} {other : PropertyKind} (same : other.entityKind = kind.entityKind) :
    other = kind.propertyKind := by
  revert same
  cases kind <;> cases other <;> decide

theorem Kind.entityKind_injective : Function.Injective entityKind := by
  intro kind other same
  revert same
  cases kind <;> cases other <;> decide

/-- How a triple relates two properties. -/
inductive Link where
  | sub
  | equivalent
  | disjoint
deriving DecidableEq

namespace Link

def predicate : Link → Iri
  | .sub => Rdfs.subPropertyOf
  | .equivalent => Owl.equivalentProperty
  | .disjoint => Owl.propertyDisjointWith

theorem predicate_ne_type (link : Link) : link.predicate ≠ Rdf.type := by cases link <;> decide

/-- The axiom that the triple stands for between properties of the kind. -/
def fact (first second : Iri) : Link → Kind → AnnotatedAxiom
  | .sub, .object => .of (.subObjectPropertyOf (.named first) (.named second)) []
  | .sub, .data => .of (.subDataPropertyOf first second) []
  | .equivalent, .object => .of (.equivalentObjectProperties [.named first, .named second]) []
  | .equivalent, .data => .of (.equivalentDataProperties [first, second]) []
  | .disjoint, .object => .of (.disjointObjectProperties [.named first, .named second]) []
  | .disjoint, .data => .of (.disjointDataProperties [first, second]) []

end Link

inductive Line where
  | declaration (kind : Kind) (property : Iri)
  | relation (link : Link) (first second : Iri)

namespace Line

def triple : Line → Triple
  | .declaration kind property => ⟨property, Rdf.type, kind.entityKind.type⟩
  | .relation link first second => ⟨first, link.predicate, second⟩

def properties : Line → List Iri
  | .declaration _ property => [property]
  | .relation _ first second => [first, second]

theorem declared_mem {kind : Kind} {property : Iri} : property ∈ (declaration kind property).properties := List.mem_cons_self

theorem first_mem {link : Link} {first second : Iri} : first ∈ (relation link first second).properties := List.mem_cons_self

theorem second_mem {link : Link} {first second : Iri} : second ∈ (relation link first second).properties :=
  List.mem_cons_of_mem _ List.mem_cons_self

theorem triple_injective : Function.Injective triple := by
  rintro (⟨kind, property⟩ | ⟨link, first, second⟩) (⟨other, name⟩ | ⟨also, one, two⟩) same <;>
    obtain ⟨subjects, predicates, objects⟩ := Triple.mk.inj same
  · have types : kind.entityKind.type = other.entityKind.type := by simpa using objects
    have kinds : kind = other := by
      revert types
      cases kind <;> cases other <;> decide
    rw [kinds, Node.named.inj subjects]
  · exact absurd predicates.symm also.predicate_ne_type
  · exact absurd predicates link.predicate_ne_type
  · have links : link = also := by
      revert predicates
      cases link <;> cases also <;> decide
    rw [links, Node.named.inj subjects, show second = two by simpa using objects]

end Line

section Graph

variable (lines : List Line)

/-- A triple relates the properties, in one direction or the other. -/
def Linked (first second : Iri) : Prop := ∃ link, .relation link first second ∈ lines ∨ .relation link second first ∈ lines

def Operand (property : Iri) : Prop := ∃ other, Linked lines property other

/-- A property in the component of this one is declared to be of the kind. -/
def HasKind (property : Iri) (kind : Kind) : Prop :=
  ∃ declared, Relation.ReflTransGen (Linked lines) property declared ∧ .declaration kind declared ∈ lines

/-- The property is at most so many triples away from a declared one. -/
def Within : Nat → Iri → Prop
  | 0, property => ∃ kind, .declaration kind property ∈ lines
  | distance + 1, property => Within distance property ∨ ∃ other, Linked lines property other ∧ Within distance other

/-- The triple is a declaration. -/
def Declares (triple : Triple) : Prop :=
  ∃ kind property, .declaration kind property ∈ lines ∧ triple = (Line.declaration kind property).triple

/-- The triple is that of a link. -/
def Relates (triple : Triple) : Prop :=
  ∃ link first second, .relation link first second ∈ lines ∧ triple = (Line.relation link first second).triple

/-- No name is reserved, and the declared properties of a component, of which there are some, are of
one kind. -/
structure Coherent : Prop where
  plain : ∀ line ∈ lines, ∀ property ∈ line.properties, property.isReserved = false
  kind : ∀ property, Operand lines property → ∃! kind, HasKind lines property kind

/-- The axiom that a line stands for. -/
def Line.Means : Line → AnnotatedAxiom → Prop
  | .declaration kind property, fact => fact = .of (.declaration ⟨kind.entityKind, property⟩) []
  | .relation link first second, fact => ∃ kind, HasKind lines first kind ∧ fact = link.fact first second kind

end Graph

variable {lines : List Line} {link : Link} {first second property : Iri} {kind : Kind}

theorem Linked.symm (linked : Linked lines first second) : Linked lines second first :=
  linked.imp fun _ => Or.symm

theorem HasKind.linked (linked : Linked lines first second) (has : HasKind lines second kind) : HasKind lines first kind := by
  obtain ⟨declared, path, member⟩ := has
  exact ⟨declared, path.head linked, member⟩

theorem Coherent.plain_operand (coherent : Coherent lines) (operand : Operand lines property) : property.isReserved = false := by
  obtain ⟨other, link, member | member⟩ := operand
  · exact coherent.plain _ member property Line.first_mem
  · exact coherent.plain _ member property Line.second_mem

theorem linked_of_mem (member : .relation link first second ∈ lines) : Linked lines first second := ⟨link, .inl member⟩

/-- Of an operand the kind is known that its component has. -/
theorem Coherent.kind_eq (coherent : Coherent lines) (operand : Operand lines property) {other : Kind}
    (has : HasKind lines property kind) (also : HasKind lines property other) : kind = other :=
  (coherent.kind property operand).unique has also

/-- A declared property is a step away at most from any property that is linked to it. -/
theorem Within.linked {distance : Nat} (linked : Linked lines first second) (within : Within lines distance second) :
    Within lines (distance + 1) first := .inr ⟨second, linked, within⟩

theorem Within.mono {distance more : Nat} (within : Within lines distance property) (le : distance ≤ more) :
    Within lines more property := by
  induction le with
  | refl => exact within
  | step _ ih => exact .inl ih

/-- A property whose component has a kind is at some distance from a declared one. -/
theorem HasKind.within (has : HasKind lines property kind) : ∃ distance, Within lines distance property := by
  obtain ⟨declared, path, member⟩ := has
  induction path using Relation.ReflTransGen.head_induction_on with
  | refl => exact ⟨0, kind, member⟩
  | head linked _ ih => exact ih.imp' (· + 1) fun _ => Within.linked linked

theorem Within.hasKind {lines : List Line} : ∀ {distance : Nat} {property : Iri}, Within lines distance property →
    ∃ kind, HasKind lines property kind
  | 0, _, ⟨kind, member⟩ => ⟨kind, _, .refl, member⟩
  | _ + 1, _, .inl within => within.hasKind
  | _ + 1, _, .inr ⟨_, linked, within⟩ => within.hasKind.imp fun _ has => has.linked linked

/-- If there is one kind of declarations, the components only have to be declared somewhere. -/
theorem Coherent.of_single {lines : List Line} (kind : Kind)
    (plain : ∀ line ∈ lines, ∀ property ∈ line.properties, property.isReserved = false)
    (single : ∀ other property, .declaration other property ∈ lines → other = kind)
    (near : ∀ property, Operand lines property → ∃ distance, Within lines distance property) : Coherent lines := by
  refine ⟨plain, fun property operand => ?_⟩
  obtain ⟨distance, within⟩ := near property operand
  obtain ⟨told, has⟩ := within.hasKind
  have unique : ∀ other, HasKind lines property other → other = kind := fun other ⟨declared, _, member⟩ => single other declared member
  exact ⟨told, has, fun other also => (unique other also).trans (unique told has).symm⟩

end PropertyGraph

/-- What OWL 2 itself defines is named by a reserved name. -/
theorem PropertyKind.isBuiltin_eq_false {iri : Iri} (plain : iri.isReserved = false) (kind : PropertyKind) :
    kind.entityKind.isBuiltin iri = false := by
  -- A name is reserved by its namespace, whatever comes behind it.
  have rdfs (name : String) : (Rdfs.iri name).isReserved = true := by simp [Iri.isReserved, Rdfs.iri, Iri.inNamespace_append]
  have owl (name : String) : (Owl.iri name).isReserved = true := by simp [Iri.isReserved, Owl.iri, Iri.inNamespace_append]
  have other {name : Iri} (reserved : name.isReserved = true) : (iri == name) = false := by
    refine beq_false_of_ne fun same => ?_
    rw [same, reserved] at plain
    cases plain
  cases kind with
  | object | data => exact Bool.or_eq_false_iff.mpr ⟨other (owl _), other (owl _)⟩
  | annotating =>
    have reserved : ∀ name ∈ Iri.builtinAnnotationProperties, name.isReserved = true := by
      simp only [Iri.builtinAnnotationProperties, List.forall_mem_cons]
      exact ⟨rdfs _, rdfs _, rdfs _, rdfs _, owl _, owl _, owl _, owl _, owl _, List.forall_mem_nil _⟩
    refine Bool.eq_false_iff.mpr fun listed => ?_
    rw [reserved iri (List.contains_iff_mem.mp listed)] at plain
    cases plain

namespace PropertyGraph

variable {lines : List Line} {link : Link} {first second property : Iri} {kind : Kind} {session : Session}

/-- The triple of a link is read by telling the common kind first. -/
theorem statement_eq (link : Link) (first second : Iri) : ∃ read : PropertyKind → Translation AnnotatedAxiom,
    Translation.statement (Line.relation link first second).triple = Translation.pairKind first second >>= read ∧
      ∀ (kind : Kind) (context : Context) (session : Session), read kind.propertyKind context session =
        (.ok (link.fact first second kind), (session.learn first kind.entityKind).learn second kind.entityKind) := by
  rw [Line.triple, Translation.statement, if_neg link.predicate_ne_type]
  cases link <;> rw [Link.predicate, Translation.predicateAxiom]
  case sub =>
    iterate 5 rw [if_neg (by decide)]
    rw [if_pos rfl, Translation.subPropertyOf, bind_assoc]
    exact ⟨_, rfl, fun kind _ _ => by cases kind <;> rfl⟩
  case equivalent =>
    iterate 7 rw [if_neg (by decide)]
    rw [if_pos rfl, Translation.equivalentProperties, bind_assoc]
    exact ⟨_, rfl, fun kind _ _ => by cases kind <;> rfl⟩
  case disjoint =>
    iterate 8 rw [if_neg (by decide)]
    rw [if_pos rfl, Translation.disjointPair, bind_assoc]
    exact ⟨_, rfl, fun kind _ _ => by cases kind <;> rfl⟩

/-- The session after both properties have been learned to be of the kind. -/
def learnBoth (session : Session) (first second : Iri) (kind : Kind) : Session :=
  (session.learn first kind.entityKind).learn second kind.entityKind

/-- The kind is that of the first property whose kind is known. -/
theorem statement_known (found : session.propertyKind? first = some kind.propertyKind ∨
      session.propertyKind? first = none ∧ session.propertyKind? second = some kind.propertyKind) (context : Context) :
    Translation.statement (Line.relation link first second).triple context session =
      (.ok (link.fact first second kind), learnBoth (learnBoth session first second kind) first second kind) := by
  have common : Translation.commonKind [first, second] context session = (.ok kind.propertyKind, session) := by
    have told : [(first : Term), second].findSome? session.termPropertyKind? = some kind.propertyKind := by
      rcases found with here | ⟨unknown, there⟩
      · rw [List.findSome?_cons, Session.termPropertyKind?, here]
      · rw [List.findSome?_cons, Session.termPropertyKind?, unknown, List.findSome?_cons, Session.termPropertyKind?, there]
    rw [Translation.commonKind, Run.get_bind, told]
    rfl
  have pair : Translation.pairKind first second context session = (.ok kind.propertyKind, learnBoth session first second kind) := by
    rw [Translation.pairKind, Run.bind_run common]
    rfl
  obtain ⟨read, eq, reads⟩ := statement_eq link first second
  rw [eq, Run.bind_run pair, reads]
  rfl

/-- Without a kind for either property it depends on the first whether the triple waits. -/
theorem statement_unknown {context : Context} {halt : Halt} (here : session.propertyKind? first = none)
    (there : session.propertyKind? second = none)
    (halts : Translation.resolveProperty first none context session = (.error halt, session)) :
    Translation.statement (Line.relation link first second).triple context session = (.error halt, session) := by
  have common : Translation.commonKind [first, second] context session = (.error halt, session) := by
    have untold : [(first : Term), second].findSome? session.termPropertyKind? = none := by
      rw [List.findSome?_cons, Session.termPropertyKind?, here, List.findSome?_cons, Session.termPropertyKind?, there]
      rfl
    rw [Translation.commonKind, Run.get_bind, untold]
    exact halts
  have pair : Translation.pairKind first second context session = (.error halt, session) := by
    rw [Translation.pairKind, Run.bind_error (congrArg Prod.fst common), common]
  obtain ⟨read, eq, -⟩ := statement_eq link first second
  rw [eq, Run.bind_error (congrArg Prod.fst pair), pair]

theorem resolveProperty_waits {context : Context} (unknown : session.propertyKind? property = none)
    (waits : context.forced = false) :
    Translation.resolveProperty property none context session = (.error (.deferred property), session) := by
  rw [Translation.resolveProperty, Run.get_bind, unknown]
  change (if context.forced = true then _ else throw (.deferred property) : Translation PropertyKind) context session = _
  rw [waits]
  rfl

theorem resolveProperty_refused {context : Context} (unknown : session.propertyKind? property = none)
    (forced : context.forced = true) (strict : context.config.strict = true) :
    Translation.resolveProperty property none context session = (.error (.failed (.undeclaredProperty property)), session) := by
  have recovers : Translation.recover (.undeclaredProperty property) context session =
      (.error (.failed (.undeclaredProperty property)), session) := by
    change (if context.config.strict = true then Translation.fail _ else _ : Translation Unit) context session = _
    rw [strict]
    rfl
  rw [Translation.resolveProperty, Run.get_bind, unknown]
  change (if context.forced = true then _ else _ : Translation PropertyKind) context session = _
  rw [if_pos forced, Run.bind_error (congrArg Prod.fst recovers), recovers]

section Sessions

variable (lines) (config : Config) (number : Nat)

/-- What the kinds of the properties may be is told by the components. -/
def world : World := .ofTriples config number (lines.map Line.triple) fun entity =>
  ∃ kind : Kind, entity.kind = kind.entityKind ∧ HasKind lines entity.iri kind

omit lines in
/-- Whether the kind of the property is known. -/
def Knows (session : Session) (property : Iri) : Prop :=
  ∃ kind : Kind, session.kinds.contains ⟨kind.entityKind, property⟩ = true

/-- The load met no problem. The axioms of the triples that are done are there, and the kinds of the
properties of these triples are known. -/
structure Spread (done : Triple → Prop) (session : Session) : Prop where
  clear : (world lines config number).Clear none done (fun fact => ∃ line ∈ lines, done line.triple ∧ line.Means lines fact) session
  known : ∀ line ∈ lines, done line.triple → ∀ property ∈ line.properties, Knows session property

variable {lines config number} {done : Triple → Prop}

theorem mem_rows {row : Row} (listed : row ∈ (world lines config number).rows) : ∃ line ∈ lines, row.triple = line.triple := by
  have member : row.triple ∈ lines.map Line.triple := World.mem_graph_ofTriples.mp (List.mem_map_of_mem listed)
  obtain ⟨line, inside, same⟩ := List.mem_map.mp member
  exact ⟨line, inside, same.symm⟩

theorem exists_row {line : Line} (member : line ∈ lines) : ∃ row ∈ (world lines config number).rows, row.triple = line.triple :=
  List.mem_map.mp (World.mem_graph_ofTriples.mpr (List.mem_map_of_mem member))

theorem Spread.congr (spread : Spread lines config number done session) {others : Triple → Prop}
    (same : ∀ line ∈ lines, done line.triple ↔ others line.triple) : Spread lines config number others session where
  clear := by
    refine spread.clear.congr (fun triple member => ?_) fun fact => exists_congr fun line => and_congr_right fun member =>
      and_congr_left fun _ => same line member
    obtain ⟨row, listed, rfl⟩ := List.mem_map.mp member
    obtain ⟨line, inside, own⟩ := mem_rows listed
    rw [own]
    exact same line inside
  known line member finished := spread.known line member ((same line member).mpr finished)

theorem Spread.of_same (spread : Spread lines config number done session) {after : Session}
    (same : after = { session with kindsChanged := after.kindsChanged, passes := after.passes }) :
    Spread lines config number done after where
  clear := spread.clear.of_same (by rw [same]) (by rw [same]) (by rw [same]; exact spread.clear.headed)
  known := by rw [same]; exact spread.known

theorem Coherent.means_unique (coherent : Coherent lines) {line : Line} (member : line ∈ lines) {fact other : AnnotatedAxiom}
    (means : line.Means lines fact) (also : line.Means lines other) : fact = other := by
  cases line with
  | declaration => exact means.trans also.symm
  | relation link first second =>
    obtain ⟨kind, has, rfl⟩ := means
    obtain ⟨told, known, rfl⟩ := also
    rw [coherent.kind_eq ⟨_, linked_of_mem member⟩ has known]

/-- A triple is done when its axiom is added after the kinds of its properties have been learned. -/
theorem Spread.read (coherent : Coherent lines) (spread : Spread lines config number done session) {row : Row}
    (listed : row ∈ (world lines config number).rows) {line : Line} (member : line ∈ lines) (same : row.triple = line.triple)
    {learned : Session} (step : (world lines config number).Step session learned [])
    (more : ∀ property, Knows session property → Knows learned property)
    (knows : ∀ property ∈ line.properties, Knows learned property) {fact : AnnotatedAxiom} (means : line.Means lines fact) :
    Spread lines config number (fun triple => done triple ∨ triple = row.triple) ((learned.consume row.id).commit row.id fact) := by
  refine ⟨(((spread.clear.step step).consume listed).commit row.id _).congr (fun triple _ => by simp) fun other => ?_, ?_⟩
  · constructor
    · rintro (⟨told, inside, finished, meant⟩ | rfl)
      · exact ⟨told, inside, .inl finished, meant⟩
      · exact ⟨line, member, .inr same.symm, means⟩
    · rintro ⟨told, inside, finished | own, meant⟩
      · exact .inl ⟨told, inside, finished, meant⟩
      · obtain rfl := Line.triple_injective (own.trans same)
        exact .inr (coherent.means_unique member meant means)
  · rintro told inside (finished | own) property mentioned
    · exact more property (spread.known told inside finished property mentioned)
    · obtain rfl := Line.triple_injective (own.trans same)
      exact knows property mentioned

section Kinds

variable (coherent : Coherent lines) (holds : (world lines config number).Holds session)
include holds

theorem hasKind_of_contains (known : session.kinds.contains ⟨kind.entityKind, property⟩ = true) : HasKind lines property kind := by
  obtain ⟨other, same, has⟩ := holds.known _ known
  rwa [Kind.entityKind_injective same]

include coherent

theorem propertyKind?_of_contains (operand : Operand lines property) (known : session.kinds.contains ⟨kind.entityKind, property⟩ = true) :
    session.propertyKind? property = some kind.propertyKind := by
  have has := hasKind_of_contains holds known
  refine Session.propertyKind?_eq_some.mpr ⟨?_, fun other also => ?_⟩
  · rw [Session.hasKind, Bool.or_eq_true]
    exact .inr known
  · rw [Session.hasKind, PropertyKind.isBuiltin_eq_false (coherent.plain_operand operand), Bool.false_or] at also
    obtain ⟨told, same, toldKind⟩ := holds.known _ also
    exact Nat.le_of_eq (by rw [Kind.of_entityKind same, coherent.kind_eq operand has toldKind])

theorem propertyKind?_eq_none (operand : Operand lines property) (unknown : ¬ Knows session property) :
    session.propertyKind? property = none := by
  refine Option.eq_none_iff_forall_ne_some.mpr fun kind told => ?_
  have known := (Session.propertyKind?_eq_some.mp told).1
  rw [Session.hasKind, PropertyKind.isBuiltin_eq_false (coherent.plain_operand operand), Bool.false_or] at known
  obtain ⟨other, same, -⟩ := holds.known _ known
  exact unknown ⟨other, same ▸ known⟩

/-- If a property of a link is known, the kind of both is that of their component. -/
theorem kind_of_known (member : .relation link first second ∈ lines) (knows : Knows session first ∨ Knows session second) :
    ∃ kind : Kind, HasKind lines first kind ∧ HasKind lines second kind ∧ (session.propertyKind? first = some kind.propertyKind ∨
      session.propertyKind? first = none ∧ session.propertyKind? second = some kind.propertyKind) := by
  have linked := linked_of_mem member
  by_cases here : Knows session first
  · obtain ⟨kind, known⟩ := here
    have has := hasKind_of_contains holds known
    exact ⟨kind, has, has.linked linked.symm, .inl (propertyKind?_of_contains coherent holds ⟨_, linked⟩ known)⟩
  · obtain ⟨kind, known⟩ := knows.resolve_left here
    have has := hasKind_of_contains holds known
    exact ⟨kind, has.linked linked, has, .inr ⟨propertyKind?_eq_none coherent holds ⟨_, linked⟩ here,
      propertyKind?_of_contains coherent holds ⟨_, linked.symm⟩ known⟩⟩

end Kinds

theorem knows_learnBoth : Knows (learnBoth session first second kind) property ↔
    Knows session property ∨ property = first ∨ property = second := by
  constructor
  · rintro ⟨told, contains⟩
    rw [learnBoth, Session.contains_learn, Session.contains_learn, or_assoc] at contains
    exact contains.imp (fun known => ⟨told, known⟩) (Or.imp (congrArg Entity.iri) (congrArg Entity.iri))
  · rintro (⟨told, known⟩ | rfl | rfl)
    · exact ⟨told, Session.contains_learn.mpr (.inl (Session.contains_learn.mpr (.inl known)))⟩
    · exact ⟨kind, Session.contains_learn.mpr (.inl (Session.contains_learn.mpr (.inr rfl)))⟩
    · exact ⟨kind, Session.contains_learn.mpr (.inr rfl)⟩

theorem learnBoth_step (holds : (world lines config number).Holds session) (here : HasKind lines first kind)
    (there : HasKind lines second kind) : (world lines config number).Step session (learnBoth session first second kind) [] := by
  have step : (world lines config number).Step session (session.learn first kind.entityKind) [] :=
    World.learn_step holds ⟨kind, rfl, here⟩
  exact step.trans (World.learn_step step.holds ⟨kind, rfl, there⟩)

section Candidates

variable {row : Row} (coherent : Coherent lines) (spread : Spread lines config number done session)
  (member : .relation link first second ∈ lines) (same : row.triple = (Line.relation link first second).triple)
include coherent spread member same

/-- A candidate is read if the kind of one of its properties is known, and tells that of the other. -/
theorem postpones_known (listed : row ∈ (world lines config number).rows) (unused : session.store.isConsumed row.id = false)
    (knows : Knows session first ∨ Knows session second) (context : Context) :
    ∃ after, Load.postpones row context session = (.ok false, after) ∧
      Spread lines config number (fun triple => done triple ∨ triple = row.triple) after ∧ after.passes = session.passes ∧
      ∀ property, Knows after property ↔ Knows session property ∨ property = first ∨ property = second := by
  obtain ⟨kind, here, there, found⟩ := kind_of_known coherent spread.clear.holds member knows
  obtain ⟨learned, read, step, knows⟩ : ∃ learned,
      Translation.statement row.triple context session = (.ok (link.fact first second kind), learned) ∧
      (world lines config number).Step session learned [] ∧
      ∀ property, Knows learned property ↔ Knows session property ∨ property = first ∨ property = second := by
    have once := learnBoth_step spread.clear.holds here there
    refine ⟨_, same ▸ statement_known found context, once.trans (learnBoth_step once.holds here there), fun property => ?_⟩
    rw [knows_learnBoth, knows_learnBoth, or_assoc, or_self]
  have settled : learned.pending = #[] := by
    rw [step.same]
    exact spread.clear.settled
  refine ⟨(learned.consume row.id).commit row.id (link.fact first second kind), Load.postpones_ok unused read settled,
    spread.read coherent listed member same step (fun property known => (knows property).mpr (.inl known))
      (fun property mentioned => (knows property).mpr (.inr (by simpa [Line.properties] using mentioned))) ⟨kind, here, rfl⟩, ?_, knows⟩
  change learned.passes = session.passes
  rw [step.same]

/-- A candidate waits if the kind of neither property is known, and nothing has changed. -/
theorem postpones_unknown (unused : session.store.isConsumed row.id = false) (here : ¬ Knows session first)
    (there : ¬ Knows session second) {context : Context} (waits : context.forced = false) :
    Load.postpones row context session = (.ok true, session) := by
  have linked := linked_of_mem member
  have unknown := propertyKind?_eq_none coherent spread.clear.holds ⟨_, linked⟩ here
  have halts : Translation.statement row.triple context session = (.error (.deferred first), session) :=
    same ▸ statement_unknown unknown (propertyKind?_eq_none coherent spread.clear.holds ⟨_, linked.symm⟩ there)
      (resolveProperty_waits unknown waits)
  have kept : session.rollback session.checkpoint = session := by
    have undone := Session.rollback_reading session [] [] session.kinds session.kindsChanged
    rwa [Session.reading_nil] at undone
  have translated : Load.translateCandidate row context session = (.ok false, session) := by
    rw [Load.translateCandidate_eq, Load.conclude, halts]
    dsimp only
    rw [kept]
  rw [Load.postpones_unused unused, Run.bind_run translated]
  rfl

/-- A strict load is refused over a candidate if no kind is known and there is no pass to wait for. -/
theorem postpones_refused (unused : session.store.isConsumed row.id = false) (here : ¬ Knows session first)
    (there : ¬ Knows session second) {context : Context} (forced : context.forced = true) (strict : context.config.strict = true) :
    ∃ report, (Load.postpones row context session).1 = .error (.refused report) := by
  have linked := linked_of_mem member
  have unknown := propertyKind?_eq_none coherent spread.clear.holds ⟨_, linked⟩ here
  have halts : Translation.statement row.triple context session = (.error (.failed (.undeclaredProperty first)), session) :=
    same ▸ statement_unknown unknown (propertyKind?_eq_none coherent spread.clear.holds ⟨_, linked.symm⟩ there)
      (resolveProperty_refused unknown forced strict)
  obtain ⟨_, refused, report, rfl⟩ : ∃ error, (Load.giveUp (·.discard row) (.undeclaredProperty first) (some row.triple) true
      context (session.rollback session.checkpoint)).1 = .error error ∧ Load.level.refusal error :=
    Load.giveUp_strict _ _ _ strict _
  have translated : (Load.translateCandidate row context session).1 = .error (.refused report) := by
    rw [Load.translateCandidate_eq, Load.conclude, halts]
    exact refused
  refine ⟨report, ?_⟩
  rw [Load.postpones_unused unused, Run.bind_error translated]

end Candidates

section Declarations

variable (coherent : Coherent lines)
include coherent

theorem declare_eq {row : Row} (member : .declaration kind property ∈ lines)
    (same : row.triple = (Line.declaration kind property).triple) (strict : Bool) (session : Session) :
    session.declare strict row = ((session.learn property kind.entityKind).consume row.id).commit row.id
      (.of (.declaration ⟨kind.entityKind, property⟩) []) := by
  have plain : kind.entityKind.isBuiltin property = false :=
    PropertyKind.isBuiltin_eq_false (coherent.plain _ member property Line.declared_mem) kind.propertyKind
  have subject : row.triple.subject.iri? = some property := by rw [same]; rfl
  have object : row.triple.object.iri? = some kind.entityKind.type := by rw [same]; rfl
  rw [Session.declare, subject, object]
  dsimp only
  rw [EntityKind.ofType?_type]
  dsimp only
  rw [plain, if_neg Bool.false_ne_true]

/-- A declaration is read like any other triple, and has one property. -/
theorem Spread.declare (spread : Spread lines config number done session) {row : Row}
    (listed : row ∈ (world lines config number).rows) (member : .declaration kind property ∈ lines)
    (same : row.triple = (Line.declaration kind property).triple) (strict : Bool) :
    Spread lines config number (fun triple => done triple ∨ triple = row.triple) (session.declare strict row) := by
  have step : (world lines config number).Step session (session.learn property kind.entityKind) [] :=
    World.learn_step spread.clear.holds ⟨kind, rfl, property, .refl, member⟩
  rw [declare_eq coherent member same strict session]
  refine spread.read coherent listed member same step (fun other => ?_) (fun other mentioned => ?_) rfl
  · exact Exists.imp fun _ contains => Session.contains_learn.mpr (.inl contains)
  · have own : other = property := by simpa [Line.properties] using mentioned
    exact ⟨kind, Session.contains_learn.mpr (.inr (own ▸ rfl))⟩

theorem Spread.declareAll (strict : Bool) (rows : List Row) : ∀ {done : Triple → Prop} {session : Session},
    (∀ row ∈ rows, row ∈ (world lines config number).rows ∧ Declares lines row.triple) →
    Spread lines config number done session →
    Spread lines config number (fun triple => done triple ∨ ∃ row ∈ rows, triple = row.triple) (rows.foldl (Session.declare strict) session) := by
  induction rows with
  | nil =>
    intro done session _ spread
    simpa using spread
  | cons row rows ih =>
    intro done session each spread
    obtain ⟨⟨listed, kind, property, member, same⟩, others⟩ := List.forall_mem_cons.mp each
    have last := ih others (spread.declare coherent listed member same strict)
    simpa [or_assoc] using last

theorem knows_declareAll (strict : Bool) (rows : List Row) : ∀ {session : Session},
    (∀ row ∈ rows, Declares lines row.triple) → Knows (rows.foldl (Session.declare strict) session) property →
    Knows session property ∨ ∃ kind, .declaration kind property ∈ lines := by
  induction rows with
  | nil => exact fun _ knows => .inl knows
  | cons row rows ih =>
    intro session each knows
    obtain ⟨⟨kind, declared, member, same⟩, others⟩ := List.forall_mem_cons.mp each
    rcases ih others knows with ⟨told, contains⟩ | known
    · rw [declare_eq coherent member same strict session] at contains
      rcases Session.contains_learn.mp contains with before | own
      · exact .inl ⟨told, before⟩
      · obtain rfl : property = declared := congrArg Entity.iri own
        exact .inr ⟨kind, member⟩
    · exact .inr known

variable (config number) in
omit coherent in
/-- The declarations are the type triples. -/
theorem mem_types (document : Option Iri) (row : Row) : row ∈ (Load.start document (lines.map Line.triple)).unused
    ((Load.start document (lines.map Line.triple)).store.withPredicate Rdf.type) ↔
      row ∈ (world lines config number).rows ∧ Declares lines row.triple := by
  have clear : (world lines config number).Clear none (fun _ => False) (fun _ => False) (Load.start document (lines.map Line.triple)) :=
    World.clear_start document
  rw [Session.unused, List.mem_filter, clear.holds.indexed.withPredicate, clear.holds.rows, List.mem_filter, beq_iff_eq, and_assoc]
  refine and_congr_right fun listed => ?_
  rw [and_iff_left (by simpa using clear.used row listed)]
  obtain ⟨⟨kind, property⟩ | ⟨link, _, _⟩, member, same⟩ := mem_rows listed
  · exact iff_of_true (congrArg Triple.predicate same) ⟨kind, property, member, same⟩
  · refine iff_of_false (fun typed => link.predicate_ne_type ((congrArg Triple.predicate same).symm.trans typed)) ?_
    rintro ⟨_, _, -, other⟩
    exact link.predicate_ne_type (congrArg Triple.predicate (same.symm.trans other))

/-- When the entities are declared, the declarations are done and nothing else is. -/
theorem spread_readDeclarations (document : Option Iri) (strict : Bool) :
    Spread lines config number (Declares lines) ((Load.start document (lines.map Line.triple)).readDeclarations strict) := by
  have clear : (world lines config number).Clear none (fun _ => False) (fun _ => False) (Load.start document (lines.map Line.triple)) :=
    World.clear_start document
  have start : Spread lines config number (fun _ => False) (Load.start document (lines.map Line.triple)) :=
    ⟨clear.congr (fun _ _ => Iff.rfl) (by simp), fun _ _ => False.elim⟩
  refine (start.declareAll coherent strict _ fun row => (mem_types config number document row).mp).congr fun line member => ?_
  rw [false_or]
  constructor
  · rintro ⟨row, among, same⟩
    exact same ▸ ((mem_types config number document row).mp among).2
  · intro declares
    obtain ⟨row, listed, same⟩ := exists_row member
    exact ⟨row, (mem_types config number document row).mpr ⟨listed, same ▸ declares⟩, same.symm⟩

/-- No other property is known then. -/
theorem knows_readDeclarations (document : Option Iri) (strict : Bool) :
    Knows ((Load.start document (lines.map Line.triple)).readDeclarations strict) property ↔ ∃ kind, .declaration kind property ∈ lines := by
  constructor
  · intro knows
    refine (knows_declareAll coherent strict _ (fun row member => ((mem_types {} 0 document row).mp member).2) knows).resolve_left ?_
    rintro ⟨kind, contains⟩
    simp [Load.start] at contains
  · rintro ⟨kind, member⟩
    have spread : Spread lines {} 0 (Declares lines) ((Load.start document (lines.map Line.triple)).readDeclarations strict) :=
      spread_readDeclarations coherent document strict
    exact spread.known _ member ⟨kind, property, member, rfl⟩ property Line.declared_mem

omit coherent in
/-- Then the triples of links are what is left to be read. -/
theorem Spread.mem_candidates (spread : Spread lines config number (Declares lines) session) (row : Row) :
    row ∈ session.store.unconsumed.filter (fun row => session.isCandidate row.triple) ↔
      row ∈ (world lines config number).rows ∧ Relates lines row.triple := by
  have holds := spread.clear.holds
  rw [TripleStore.unconsumed_eq, List.mem_filter, List.mem_filter, holds.rows, Bool.not_eq_true', and_assoc]
  refine and_congr_right fun listed => ?_
  rw [Bool.eq_false_iff, ne_eq, spread.clear.used row listed]
  obtain ⟨_ | ⟨link, first, second⟩, member, same⟩ := mem_rows listed
  case declaration kind property =>
    refine iff_of_false (fun both => both.1 ⟨kind, property, member, same⟩) ?_
    rintro ⟨link, _, _, -, other⟩
    exact link.predicate_ne_type (congrArg Triple.predicate (other.symm.trans same))
  refine iff_of_true ⟨?_, ?_⟩ ⟨link, first, second, member, same⟩
  · rintro ⟨_, _, -, other⟩
    exact link.predicate_ne_type (congrArg Triple.predicate (same.symm.trans other))
  · have special : session.isSpecial first = false := by
      rw [Session.isSpecial, spread.clear.headed, Bool.eq_false_iff, ne_eq, Bool.or_eq_true, not_or, List.any_eq_true]
      refine ⟨by simp, ?_⟩
      rintro ⟨type, typed, special⟩
      obtain ⟨row, among, said⟩ := List.mem_map.mp (holds.mem_types.mp typed)
      obtain ⟨⟨kind, _⟩ | ⟨link, _, _⟩, -, told⟩ := mem_rows among
      · have types : type = kind.entityKind.type := by simpa [Line.triple] using (Triple.mk.inj (said.symm.trans told)).2.2
        rw [types] at special
        revert special
        cases kind <;> decide
      · exact link.predicate_ne_type (congrArg Triple.predicate (told.symm.trans said))
    rw [same, Line.triple, Session.isCandidate]
    dsimp only
    rw [if_neg link.predicate_ne_type, special]
    cases link <;> rfl

omit coherent in
/-- No node stands for the ontology. -/
theorem ontologyNodes_eq_nil (holds : (world lines config number).Holds session) : session.ontologyNodes = [] := by
  have untyped : (session.store.withPredicate Rdf.type).filterMap (fun row =>
      if row.triple.object = .resource (.named Owl.Ontology) then some row.triple.subject else none) = [] := by
    refine List.filterMap_eq_nil_iff.mpr fun row member => if_neg fun ontology => ?_
    rw [holds.indexed.withPredicate, holds.rows, List.mem_filter, beq_iff_eq] at member
    obtain ⟨listed, typed⟩ := member
    obtain ⟨⟨kind, _⟩ | ⟨link, _, _⟩, -, same⟩ := mem_rows listed
    · have types : kind.entityKind.type = Owl.Ontology := by simpa [same, Line.triple] using ontology
      revert types
      cases kind <;> decide
    · exact link.predicate_ne_type ((congrArg Triple.predicate same).symm.trans typed)
  rw [Session.ontologyNodes, untyped]
  rfl

end Declarations

end Sessions

end PropertyGraph

end OwlGraph
