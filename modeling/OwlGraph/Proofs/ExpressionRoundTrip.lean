import OwlGraph.Proofs.ExpressionDrawing
import OwlGraph.Proofs.ExpressionReading
import OwlGraph.Proofs.Insertion
import OwlGraph.Rendering.Supply

/-! Expressions that are written and read back. What is written with new nodes describes the
expression in every session that it is inserted into, and what describes an expression is read as
that expression if its properties are known to be of the kinds that they have in it. -/

namespace OwlGraph

section Components

mutual

/-- A data range is made of datatypes. -/
theorem DataRange.every_datatype : ∀ range : DataRange, Component.Every (·.kind = .datatype) range.components
  | .datatype iri => by simp [Component.Every, DataRange.components, Component.datatype]
  | .combination _ operands => DataRange.everyEach_datatype operands
  | .complement operand => operand.every_datatype
  | .oneOf _ | .restriction _ _ => by
    simp +contextual [Component.Every, DataRange.components, Component.literal, Component.datatype]

theorem DataRange.everyEach_datatype : ∀ ranges : List DataRange, Component.Every (·.kind = .datatype) (DataRange.componentsEach ranges)
  | [] => nofun
  | range :: rest => .append range.every_datatype (DataRange.everyEach_datatype rest)

end

mutual

/-- A class expression is made of no annotation properties. -/
theorem ClassExpression.every_unannotating : ∀ expression : ClassExpression,
    Component.Every (·.kind ≠ .annotationProperty) expression.components
  | .named _ => .cons nofun nofun
  | .combination _ operands => ClassExpression.everyEach_unannotating operands
  | .complement operand => operand.every_unannotating
  | .oneOf individuals => by
    intro entity member
    obtain ⟨node, -, same⟩ := List.mem_map.mp member
    cases node <;> cases same
    nofun
  | .objectValues _ _ filler | .objectCardinality _ _ _ (some filler) => .cons nofun filler.every_unannotating
  | .objectHasValue _ (.named _) => .cons nofun (.cons nofun nofun)
  | .objectHasValue _ (.blank _) => .cons nofun nofun
  | .hasSelf _ | .objectCardinality _ _ _ none | .dataCardinality _ _ _ none => .cons nofun nofun
  | .dataHasValue _ _ => .cons nofun (.cons nofun nofun)
  | .dataValues _ _ filler | .dataCardinality _ _ _ (some filler) => .cons nofun
    fun entity member => by simp [filler.every_datatype entity member]

theorem ClassExpression.everyEach_unannotating : ∀ expressions : List ClassExpression,
    Component.Every (·.kind ≠ .annotationProperty) (ClassExpression.componentsEach expressions)
  | [] => nofun
  | expression :: rest => .append expression.every_unannotating (ClassExpression.everyEach_unannotating rest)

end

end Components

/-- The known kinds tell of every property among the components that it is of the kind that it has there. -/
structure Session.Decides (session : Session) (components : List Component) : Prop where
  object : ∀ iri, Component.objectProperty iri ∈ components → session.hasKind iri .objectProperty = true
  data : ∀ iri, Component.dataProperty iri ∈ components →
    session.hasKind iri .dataProperty = true ∧ session.hasKind iri .objectProperty = false

theorem Session.Decides.propertyKind? {session : Session} {components : List Component} (decides : session.Decides components)
    (unannotating : Component.Every (·.kind ≠ .annotationProperty) components) {iri : Iri} {kind : PropertyKind}
    (member : Component.entity ⟨kind.entityKind, iri⟩ ∈ components) : session.propertyKind? iri = some kind := by
  rw [Session.propertyKind?_eq_some]
  cases kind with
  | object => exact ⟨decides.object iri member, fun other _ => Nat.zero_le _⟩
  | data =>
    obtain ⟨has, free⟩ := decides.data iri member
    refine ⟨has, fun other also => ?_⟩
    cases other with
    | object => exact absurd (free.symm.trans also) (by decide)
    | _ => decide
  | annotating => exact absurd rfl (unannotating _ member)

section RoundTrips

variable {context : Context} {session : Session} {supply : Nat → BlankNode} {triples : List Triple}

/-- What is drawn of an expression is read back, whatever the order in which its triples are inserted. -/
theorem readsBack_of_draws {α : Type} {body : Rendering Node} {described : List Triple → Node → List Triple → Prop} (learned : Entity → Prop)
    {reading : Node → Translation α} (value : (BlankNode → BlankNode) → α) (indexed : session.store.Indexed)
    (lacks : session.Lacks supply) (draws : Rendering.Draws supply (fun _ => False) body 0 described) (anew : Rendering.Anew body)
    (order : triples.Perm (body.run supply |>.run {}).2.triples.toList)
    (reads : let world := World.of context (session.insertAll triples) learned
      ∀ node block, described world.graph node block → (∀ triple ∈ block, triple ∈ world.graph) →
        world.Yields (reading node) (value world.anonymous) block block) :
    session.ReadsBack context triples (reading (body.run supply |>.run {}).1) fun rename read => read = value rename := by
  obtain ⟨node, stop, block, emits, -, described⟩ := draws
  rw [emits.run] at order ⊢
  have same : ∀ triple, triple ∈ block ↔ triple ∈ triples := fun triple => order.mem_iff.symm
  have sealed : Rendering.Sealed supply (fun _ => False) (World.of context (session.insertAll triples) learned).graph 0 stop block :=
    lacks.sealed indexed same
  have yields := reads node block (described _ sealed) sealed.subset
  refine Session.readsBack_of_finds indexed ((yields _ (World.holds_of (indexed.insertAll triples))).finds rfl) same ?_
  intro visited inside triple member own
  obtain ⟨written, wrote, fresh⟩ := anew supply {}
  have made : block = written := by
    have both := (congrArg (fun ended => ended.2.triples.toList) emits.run).symm.trans (congrArg Array.toList wrote)
    simpa using both
  obtain ⟨number, subject⟩ := fresh triple (made ▸ member)
  exact lacks.unvisited number (subject ▸ own ▸ inside)

variable (context session supply)

/-- Class expressions and data ranges are read back as they were written. -/
theorem expressions_read_back (indexed : session.store.Indexed) (lacks : session.Lacks supply) :
    (∀ expression : ClassExpression, expression.WellFormed context.config.maxListLength → session.Decides expression.components →
      let written := (Rendering.classExpression expression).run supply |>.run {}
      ∀ triples : List Triple, triples.Perm written.2.triples.toList →
        session.ReadsBack context triples (Translation.classExpression written.1) fun rename read => read = expression.rename rename) ∧
    ∀ range : DataRange, range.WellFormed context.config.maxListLength →
      let written := (Rendering.dataRange range).run supply |>.run {}
      ∀ triples : List Triple, triples.Perm written.2.triples.toList →
        session.ReadsBack context triples (Translation.dataRange written.1) fun _ read => read = range := by
  have nothing : ∀ triple : Triple, False → triple.predicate ∈ Role.classAxiomPredicates := nofun
  constructor
  · intro expression valid decides written triples order
    have decided {iri : Iri} {kind : PropertyKind} (member : Component.entity ⟨kind.entityKind, iri⟩ ∈ expression.components) :
        session.propertyKind? iri = some kind := decides.propertyKind? expression.every_unannotating member
    have had : ∀ (iri : Iri) (kind : PropertyKind), Component.entity ⟨kind.entityKind, iri⟩ ∈ expression.components →
        (session.insertAll triples).hasKind iri kind.entityKind = true :=
      fun iri kind member => (Session.propertyKind?_eq_some.mp (decided member)).1
    refine readsBack_of_draws (fun entity => Component.entity entity ∈ expression.components) expression.rename indexed lacks
      (Rendering.draws_classExpression lacks.distinct nothing expression valid 0) (Rendering.anew_classExpression expression) order
      fun node block described subset => World.Yields.classExpression (World.settled_of had) valid (fun entity member => ?_) described subset
    refine ⟨.inr member, fun kind same => ⟨kind, same, decided ?_⟩⟩
    rwa [← same]
  · intro range valid written triples order
    refine readsBack_of_draws (fun entity => Component.entity entity ∈ range.components) (fun _ => range) indexed lacks
      (Rendering.draws_dataRange lacks.distinct nothing range valid 0) (Rendering.anew_dataRange range) order
      fun node block described subset => World.Yields.dataRange valid (fun entity member => ?_) described subset
    refine ⟨.inr member, fun kind same => ?_⟩
    rw [range.every_datatype entity member] at same
    cases kind <;> cases same

end RoundTrips

namespace Samples

/-- Who keeps at least two of a named and an unnamed animal, and is of age. -/
def keepers : ClassExpression :=
  .combination .intersection
    [.objectCardinality .min 2 (.inverse ⟨"ex:keptBy"⟩) (some (.oneOf [.named ⟨"ex:Rex"⟩, .blank ⟨"stray"⟩])),
      .dataValues .some ⟨"ex:age"⟩ (.restriction Xsd.integer [⟨Xsd.iri "minInclusive", .ofDatatype "18" Xsd.integer⟩])]

def grownUp : DataRange := .combination .union [.complement (.oneOf [.ofDatatype "17" Xsd.integer]), .datatype Xsd.string]

/-- A session with an axiom about other nodes, in which the two properties are known. -/
def kept : Session where
  store := .ofTriples [⟨.blank ⟨"x"⟩, Rdfs.subClassOf, (.named ⟨"ex:Owner"⟩ : Node)⟩]
  kinds := .ofList [⟨.objectProperty, ⟨"ex:keptBy"⟩⟩, ⟨.dataProperty, ⟨"ex:age"⟩⟩]

/-- A strict load that accepts lists of two. -/
def narrow : Context := ⟨{ strict := true, maxListLength := 2 }, 1, true⟩

def fresh : Nat → BlankNode := Supply.avoiding [⟨"x"⟩]

theorem lacks_kept : kept.Lacks fresh where
  distinct _ _ := Supply.avoiding_injective
  absent number row member := by
    have only := (TripleStore.mem_rows_ofTriples _ _).mp (List.mem_map_of_mem member : row.triple ∈ kept.store.liveRows.map Row.triple)
    rw [List.mem_singleton.mp only]
    have other : fresh number ∉ [⟨"x"⟩] := Supply.avoiding_not_mem [⟨"x"⟩] number
    simpa [Triple.blanks, Node.blank?, Term.blank?, Term.node?] using other
  unvisited _ := nofun

theorem components_keepers : keepers.components = [.objectProperty ⟨"ex:keptBy"⟩, .individual (.named ⟨"ex:Rex"⟩),
    .individual (.blank ⟨"stray"⟩), .dataProperty ⟨"ex:age"⟩, .datatype Xsd.integer,
    .literal (.ofDatatype "18" Xsd.integer)] := rfl

theorem decides_kept : kept.Decides keepers.components where
  object iri member := by
    have only : iri = ⟨"ex:keptBy"⟩ := by simpa [components_keepers, Component.objectProperty, Component.dataProperty,
      Component.individual, Component.datatype, Component.literal] using member
    simp [only, Session.hasKind, kept]
  data iri member := by
    have only : iri = ⟨"ex:age"⟩ := by simpa [components_keepers, Component.objectProperty, Component.dataProperty,
      Component.individual, Component.datatype, Component.literal] using member
    have plain : EntityKind.objectProperty.isBuiltin ⟨"ex:age"⟩ = false := by decide
    simp [only, Session.hasKind, kept, plain]

end Samples

theorem expressions_read_back_keepers :
    Samples.kept.ReadsBack Samples.narrow
      ((Rendering.classExpression Samples.keepers).run Samples.fresh |>.run {}).2.triples.toList.reverse
      (Translation.classExpression ((Rendering.classExpression Samples.keepers).run Samples.fresh |>.run {}).1)
      (fun rename read => read = Samples.keepers.rename rename) ∧
    Samples.kept.ReadsBack Samples.narrow ((Rendering.dataRange Samples.grownUp).run Samples.fresh |>.run {}).2.triples.toList
      (Translation.dataRange ((Rendering.dataRange Samples.grownUp).run Samples.fresh |>.run {}).1) fun _ read => read = Samples.grownUp := by
  have indexed : Samples.kept.store.Indexed := TripleStore.indexed_ofTriples _
  obtain ⟨classes, ranges⟩ := expressions_read_back Samples.narrow Samples.kept Samples.fresh indexed Samples.lacks_kept
  have valid : Samples.keepers.WellFormed 2 := by
    have facet : (Xsd.iri "minInclusive").isFacet = true := by decide
    simp [Samples.keepers, ClassExpression.WellFormed, ClassExpression.WellFormedEach, DataRange.WellFormed, Operands, facet]
  have validRange : Samples.grownUp.WellFormed 2 := by
    simp [Samples.grownUp, DataRange.WellFormed, DataRange.WellFormedEach, Operands]
  exact ⟨classes _ valid Samples.decides_kept _ (List.reverse_perm _), ranges _ validRange _ (List.Perm.refl _)⟩

end OwlGraph
