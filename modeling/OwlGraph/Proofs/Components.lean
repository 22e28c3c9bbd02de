import OwlGraph.Proofs.RenamingBack

/-! The components of normal forms and of renamed axioms. A normal form has no components but
those of what it was made from, and it has all the anonymous individuals if the words that order
the operands are clean. So the anonymous individuals of a renamed axiom are the renamed ones. -/

namespace OwlGraph

open Canonical

/-- The component after the anonymous individuals have been renamed. -/
def Component.rename (f : BlankNode → BlankNode) : Component → Component
  | .anonymous node => .anonymous (f node)
  | .entity named => .entity named
  | .iri name => .iri name

namespace Canonical

variable {α : Type} {text : α → String} {normal : α → α} {components : α → List Component} {items : List α}

/-- The members of a set have no more components than the items it was made from. -/
theorem flatMap_byText_subset (fewer : ∀ item ∈ items, components (normal item) ⊆ components item) :
    (byText text (items.map normal)).flatMap components ⊆ items.flatMap components := by
  intro component member
  obtain ⟨_, listed, inside⟩ := List.mem_flatMap.mp member
  obtain ⟨item, own, rfl⟩ := List.mem_map.mp (mem_of_mem_byText text listed)
  exact List.mem_flatMap.mpr ⟨item, own, fewer item own inside⟩

theorem mem_flatMap_byText {component : Component}
    (injective : ∀ a ∈ items.map normal, ∀ b ∈ items.map normal, text a = text b → a = b)
    (kept : ∀ item ∈ items, component ∈ components item → component ∈ components (normal item))
    (member : component ∈ items.flatMap components) : component ∈ (byText text (items.map normal)).flatMap components := by
  obtain ⟨item, own, inside⟩ := List.mem_flatMap.mp member
  exact List.mem_flatMap.mpr
    ⟨normal item, (mem_byText text injective).mpr (List.mem_map_of_mem own), kept item own inside⟩

omit normal components in
theorem append_subset_append {first second before after : List α} (left : first ⊆ before) (right : second ⊆ after) :
    first ++ second ⊆ before ++ after :=
  List.append_subset.mpr ⟨List.subset_append_of_subset_left _ left, List.subset_append_of_subset_right _ right⟩

end Canonical

namespace DataRange

theorem componentsEach_eq (ranges : List DataRange) : componentsEach ranges = ranges.flatMap components := by
  induction ranges with
  | nil => rfl
  | cons range rest ih => rw [componentsEach, ih, List.flatMap_cons]

mutual

theorem components_normalize : ∀ range : DataRange, range.normalize.components ⊆ range.components
  | .datatype _ | .restriction _ _ => List.Subset.refl _
  | .combination _ operands => by
    rw [normalize, components, components, componentsEach_eq, componentsEach_eq, normalizeEach_eq_map]
    exact flatMap_byText_subset (components_normalizeEach operands)
  | .complement operand => by
    rw [normalize, components, components]
    exact components_normalize operand
  | .oneOf values => by
    rw [normalize, components, components]
    exact List.map_subset _ fun _ => mem_of_mem_byText _

theorem components_normalizeEach : ∀ ranges : List DataRange, ∀ range ∈ ranges, range.normalize.components ⊆ range.components
  | [] => List.forall_mem_nil _
  | range :: rest => List.forall_mem_cons.mpr ⟨components_normalize range, components_normalizeEach rest⟩

end

variable {component : Component}

mutual

/-- A data range is made of datatypes. -/
theorem component_eq : ∀ range : DataRange, component ∈ range.components → ∃ iri, component = .datatype iri
  | .datatype iri, member => ⟨iri, List.mem_singleton.mp member⟩
  | .combination _ operands, member => component_eqEach operands member
  | .complement operand, member => component_eq operand member
  | .oneOf _, member => by
    obtain ⟨value, -, rfl⟩ := List.mem_map.mp member
    exact ⟨value.datatype, rfl⟩
  | .restriction base _, member => by
    rcases List.mem_cons.mp member with rfl | inside
    · exact ⟨base, rfl⟩
    · obtain ⟨restriction, -, rfl⟩ := List.mem_map.mp inside
      exact ⟨restriction.value.datatype, rfl⟩

theorem component_eqEach : ∀ ranges : List DataRange, component ∈ componentsEach ranges → ∃ iri, component = .datatype iri
  | [], member => nomatch member
  | range :: rest, member => (List.mem_append.mp member).elim (component_eq range) (component_eqEach rest)

end

theorem anonymous_not_mem (range : DataRange) (blank : BlankNode) : Component.anonymous blank ∉ range.components := fun member =>
  nomatch range.component_eq member

end DataRange

theorem DataRange.rename_components (f : BlankNode → BlankNode) (range : DataRange) :
    range.components.map (Component.rename f) = range.components := by
  refine (List.map_congr_left fun component member => ?_).trans (List.map_id' _)
  cases component with
  | anonymous blank => exact absurd member (range.anonymous_not_mem blank)
  | entity | iri => rfl

@[simp] theorem Component.rename_entity (f : BlankNode → BlankNode) (named : Entity) :
    (Component.entity named).rename f = .entity named := rfl

@[simp] theorem Component.rename_iri (f : BlankNode → BlankNode) (name : Iri) : (Component.iri name).rename f = .iri name := rfl

theorem Component.rename_individual (f : BlankNode → BlankNode) (node : Node) :
    Component.individual (node.rename f) = (Component.individual node).rename f := by cases node <;> rfl

theorem Component.rename_annotated (f : BlankNode → BlankNode) (node : Node) :
    Component.annotated (node.rename f) = (Component.annotated node).rename f := by cases node <;> rfl

theorem Component.rename_annotationValue (f : BlankNode → BlankNode) (term : Term) :
    Component.annotationValue (term.rename f) = (Component.annotationValue term).rename f := by
  cases term with
  | resource node => exact Component.rename_annotated f node
  | literal => rfl

namespace ClassExpression

mutual

theorem components_normalize : ∀ expression : ClassExpression, expression.normalize.components ⊆ expression.components
  | .named _ | .objectHasValue _ _ | .hasSelf _ | .objectCardinality _ _ _ none | .dataHasValue _ _
  | .dataCardinality _ _ _ none => List.Subset.refl _
  | .combination _ operands => by
    rw [normalize, components, components, componentsEach_eq, componentsEach_eq, normalizeEach_eq_map]
    exact flatMap_byText_subset (components_normalizeEach operands)
  | .complement operand => by
    rw [normalize, components, components]
    exact components_normalize operand
  | .oneOf individuals => by
    rw [normalize, components, components]
    exact List.map_subset _ fun _ => mem_of_mem_byText _
  | .objectValues _ _ filler | .objectCardinality _ _ _ (some filler) => by
    rw [normalize, components, components]
    exact List.cons_subset_cons _ (components_normalize filler)
  | .dataValues _ _ filler | .dataCardinality _ _ _ (some filler) => List.cons_subset_cons _ filler.components_normalize

theorem components_normalizeEach : ∀ expressions : List ClassExpression, ∀ expression ∈ expressions,
    expression.normalize.components ⊆ expression.components
  | [] => List.forall_mem_nil _
  | expression :: rest => List.forall_mem_cons.mpr ⟨components_normalize expression, components_normalizeEach rest⟩

end

theorem normalized_injective {expressions : List ClassExpression} (clean : ∀ cls ∈ expressions, cls.tree.Clean) :
    ∀ a ∈ expressions.map normalize, ∀ b ∈ expressions.map normalize, a.text = b.text → a = b := fun a left b right =>
  text_injective (clean_normalizeEach expressions clean a left) (clean_normalizeEach expressions clean b right)

variable {blank : BlankNode}

mutual

theorem anonymous_normalize : ∀ expression : ClassExpression, expression.tree.Clean →
    .anonymous blank ∈ expression.components → .anonymous blank ∈ expression.normalize.components
  | .named _, _, member | .objectHasValue _ _, _, member | .hasSelf _, _, member | .objectCardinality _ _ _ none, _, member
  | .dataHasValue _ _, _, member | .dataCardinality _ _ _ none, _, member => member
  | .combination _ operands, clean, member => by
    rw [tree, clean_node, trees_eq_map, List.forall_mem_map] at clean
    rw [components, componentsEach_eq] at member
    rw [normalize, components, componentsEach_eq, normalizeEach_eq_map]
    exact mem_flatMap_byText (normalized_injective clean) (anonymous_normalizeEach operands clean) member
  | .complement operand, clean, member => by
    rw [tree, clean_node] at clean
    rw [components] at member
    rw [normalize, components]
    exact anonymous_normalize operand (by simpa using clean) member
  | .oneOf individuals, clean, member => by
    rw [tree, clean_node, List.forall_mem_map] at clean
    rw [components] at member
    rw [normalize, components]
    obtain ⟨node, own, same⟩ := List.mem_map.mp member
    rw [← same]
    refine List.mem_map_of_mem ((mem_byText Node.text fun a left b right => ?_).mpr own)
    exact Node.text_injective (clean_single.mp (clean a left)) (clean_single.mp (clean b right))
  | .objectValues _ _ filler, clean, member | .objectCardinality _ _ _ (some filler), clean, member => by
    simp only [tree, clean_node, List.forall_mem_cons] at clean
    rw [components] at member
    rw [normalize, components]
    exact (List.mem_cons.mp member).elim (fun same => same ▸ List.mem_cons_self) fun inside =>
      List.mem_cons_of_mem _ (anonymous_normalize filler (by tauto) inside)
  | .dataValues _ _ filler, _, member | .dataCardinality _ _ _ (some filler), _, member =>
    (List.mem_cons.mp member).elim nofun fun inside => absurd inside (filler.anonymous_not_mem blank)

theorem anonymous_normalizeEach : ∀ expressions : List ClassExpression, (∀ cls ∈ expressions, cls.tree.Clean) →
    ∀ expression ∈ expressions, .anonymous blank ∈ expression.components → .anonymous blank ∈ expression.normalize.components
  | [], _ => List.forall_mem_nil _
  | expression :: rest, clean => by
    obtain ⟨first, others⟩ := List.forall_mem_cons.mp clean
    exact List.forall_mem_cons.mpr ⟨anonymous_normalize expression first, anonymous_normalizeEach rest others⟩

end

mutual

theorem components_rename (f : BlankNode → BlankNode) : ∀ expression : ClassExpression,
    (expression.rename f).components = expression.components.map (Component.rename f)
  | .named _ | .hasSelf _ | .objectCardinality _ _ _ none | .dataHasValue _ _ | .dataCardinality _ _ _ none => rfl
  | .combination _ operands => by
    rw [rename, components, components]
    exact components_renameEach f operands
  | .complement operand => by
    rw [rename, components, components]
    exact components_rename f operand
  | .oneOf individuals => by
    rw [rename, components, components, List.map_map, List.map_map]
    exact List.map_congr_left fun node _ => Component.rename_individual f node
  | .objectValues _ _ filler | .objectCardinality _ _ _ (some filler) => by
    rw [rename, components, components, List.map_cons, components_rename f filler]
    rfl
  | .objectHasValue _ individual => by
    rw [rename, components, components, Component.rename_individual]
    rfl
  | .dataValues _ _ filler | .dataCardinality _ _ _ (some filler) =>
    congrArg (List.cons _) (filler.rename_components f).symm

theorem components_renameEach (f : BlankNode → BlankNode) : ∀ expressions : List ClassExpression,
    componentsEach (renameEach f expressions) = (componentsEach expressions).map (Component.rename f)
  | [] => rfl
  | expression :: rest => by
    rw [renameEach, componentsEach, componentsEach, List.map_append, components_rename f expression,
      components_renameEach f rest]

end

end ClassExpression

namespace Annotation

mutual

theorem components_normalize : ∀ note : Annotation, note.normalize.components ⊆ note.components
  | ⟨property, value, notes⟩ => by
    rw [normalize, components, components, componentsEach_eq, componentsEach_eq, normalizeEach_eq_map]
    exact List.cons_subset_cons _ (List.cons_subset_cons _ (flatMap_byText_subset (components_normalizeEach notes)))

theorem components_normalizeEach : ∀ notes : List Annotation, ∀ note ∈ notes, note.normalize.components ⊆ note.components
  | [] => List.forall_mem_nil _
  | note :: rest => List.forall_mem_cons.mpr ⟨components_normalize note, components_normalizeEach rest⟩

end

theorem normalized_injective {notes : List Annotation} (clean : ∀ note ∈ notes, note.tree.Clean) :
    ∀ a ∈ notes.map normalize, ∀ b ∈ notes.map normalize, a.text = b.text → a = b := fun a left b right =>
  text_injective (clean_normalizeEach notes clean a left) (clean_normalizeEach notes clean b right)

variable {blank : BlankNode}

mutual

theorem anonymous_normalize : ∀ note : Annotation, note.tree.Clean →
    .anonymous blank ∈ note.components → .anonymous blank ∈ note.normalize.components
  | ⟨property, value, notes⟩, clean, member => by
    have inner := (clean_mk.mp clean).2.2
    rw [components, componentsEach_eq, List.mem_cons, List.mem_cons] at member
    rw [normalize, components, componentsEach_eq, normalizeEach_eq_map, List.mem_cons, List.mem_cons]
    exact member.imp_right (Or.imp_right
      (mem_flatMap_byText (normalized_injective inner) (anonymous_normalizeEach notes inner)))

theorem anonymous_normalizeEach : ∀ notes : List Annotation, (∀ note ∈ notes, note.tree.Clean) →
    ∀ note ∈ notes, .anonymous blank ∈ note.components → .anonymous blank ∈ note.normalize.components
  | [], _ => List.forall_mem_nil _
  | note :: rest, clean => by
    obtain ⟨first, others⟩ := List.forall_mem_cons.mp clean
    exact List.forall_mem_cons.mpr ⟨anonymous_normalize note first, anonymous_normalizeEach rest others⟩

end

mutual

theorem components_rename (f : BlankNode → BlankNode) : ∀ note : Annotation,
    (note.rename f).components = note.components.map (Component.rename f)
  | ⟨_, _, notes⟩ => by
    rw [rename, components, components, List.map_cons, List.map_cons, components_renameEach f notes,
      Component.rename_annotationValue]
    rfl

theorem components_renameEach (f : BlankNode → BlankNode) : ∀ notes : List Annotation,
    componentsEach (renameEach f notes) = (componentsEach notes).map (Component.rename f)
  | [] => rfl
  | note :: rest => by
    rw [renameEach, componentsEach, componentsEach, List.map_append, components_rename f note, components_renameEach f rest]

end

end Annotation

theorem Atom.components_normalize (atom : Atom) : atom.normalize.components ⊆ atom.components := by
  cases atom with
  | cls expression argument => exact append_subset_append expression.components_normalize (List.Subset.refl _)
  | dataRange range argument => exact append_subset_append range.components_normalize (List.Subset.refl _)
  | _ => exact List.Subset.refl _

theorem Atom.anonymous_normalize {blank : BlankNode} {atom : Atom} (clean : atom.tree.Clean)
    (member : .anonymous blank ∈ atom.components) : .anonymous blank ∈ atom.normalize.components := by
  cases atom with
  | cls expression argument =>
    rw [Atom.tree, clean_node] at clean
    exact List.mem_append.mpr ((List.mem_append.mp member).imp
      (expression.anonymous_normalize (clean _ List.mem_cons_self)) id)
  | dataRange range argument =>
    exact List.mem_append.mpr ((List.mem_append.mp member).imp (fun inside => absurd inside (range.anonymous_not_mem blank)) id)
  | _ => exact member

theorem IndividualArgument.components_rename (f : BlankNode → BlankNode) (argument : IndividualArgument) :
    (argument.rename f).components = argument.components.map (Component.rename f) := by
  cases argument with
  | «variable» => rfl
  | individual node => exact congrArg (fun part => [part]) (Component.rename_individual f node)

theorem DataArgument.rename_components (f : BlankNode → BlankNode) (argument : DataArgument) :
    argument.components.map (Component.rename f) = argument.components := by cases argument <;> rfl

theorem Atom.components_rename (f : BlankNode → BlankNode) (atom : Atom) :
    (atom.rename f).components = atom.components.map (Component.rename f) := by
  have arguments : ∀ arguments : List DataArgument, (arguments.flatMap DataArgument.components).map (Component.rename f) =
      arguments.flatMap DataArgument.components := by
    intro arguments
    rw [List.map_flatMap]
    exact congrArg (List.flatMap · arguments) (funext fun argument => argument.rename_components f)
  cases atom <;> simp [rename, components, ClassExpression.components_rename, IndividualArgument.components_rename,
    DataRange.rename_components, DataArgument.rename_components, arguments, Component.rename, Component.property,
    Component.objectProperty, Component.dataProperty]

namespace Axiom

theorem components_normalize (bare : Axiom) : bare.normalize.components ⊆ bare.components := by
  have classes : ∀ classes : List ClassExpression,
      (ClassExpression.canonical classes).flatMap ClassExpression.components ⊆ classes.flatMap ClassExpression.components :=
    fun classes => flatMap_byText_subset fun cls _ => cls.components_normalize
  have atoms : ∀ atoms : List Atom, (Atom.canonical atoms).flatMap Atom.components ⊆ atoms.flatMap Atom.components :=
    fun atoms => flatMap_byText_subset fun atom _ => atom.components_normalize
  have properties : ∀ properties : List PropertyExpression,
      (PropertyExpression.canonical properties).map Component.property ⊆ properties.map Component.property :=
    fun properties => List.map_subset _ fun _ => mem_of_mem_ordered id
  have iris : ∀ iris : List Iri, (Iri.canonical iris).map Component.dataProperty ⊆ iris.map Component.dataProperty :=
    fun iris => List.map_subset _ fun _ => mem_of_mem_ordered id
  cases bare with
  | equivalentClasses | disjointClasses => exact classes _
  | disjointUnion => exact List.cons_subset_cons _ (classes _)
  | subClassOf sub sup => exact append_subset_append sub.components_normalize sup.components_normalize
  | classAssertion cls => exact append_subset_append cls.components_normalize (List.Subset.refl _)
  | sameIndividual | differentIndividuals => exact List.map_subset _ fun _ => mem_of_mem_byText _
  | equivalentObjectProperties | disjointObjectProperties => exact properties _
  | equivalentDataProperties | disjointDataProperties => exact iris _
  | inverseObjectProperties first second =>
    rw [normalize]
    split
    · exact List.Subset.refl _
    · exact (List.Perm.swap _ _ []).subset
  | objectPropertyDomain _ cls | objectPropertyRange _ cls | dataPropertyDomain _ cls =>
    exact List.cons_subset_cons _ cls.components_normalize
  | dataPropertyRange _ range | datatypeDefinition _ range => exact List.cons_subset_cons _ range.components_normalize
  | hasKey cls => exact append_subset_append (append_subset_append cls.components_normalize (properties _)) (iris _)
  | rule implication =>
    rw [normalize, components, components, Rule.normalize, List.flatMap_append, List.flatMap_append]
    exact append_subset_append (atoms _) (atoms _)
  | _ => exact List.Subset.refl _

theorem anonymous_normalize {blank : BlankNode} {bare : Axiom} (clean : bare.Clean)
    (member : .anonymous blank ∈ bare.components) : .anonymous blank ∈ bare.normalize.components := by
  have classes : ∀ {classes : List ClassExpression}, (∀ cls ∈ classes, cls.tree.Clean) →
      .anonymous blank ∈ classes.flatMap ClassExpression.components →
      .anonymous blank ∈ (ClassExpression.canonical classes).flatMap ClassExpression.components := fun clean =>
    mem_flatMap_byText (ClassExpression.normalized_injective clean) fun cls own => cls.anonymous_normalize (clean cls own)
  have atoms : ∀ {atoms : List Atom}, (∀ atom ∈ atoms, atom.tree.Clean) → .anonymous blank ∈ atoms.flatMap Atom.components →
      .anonymous blank ∈ (Atom.canonical atoms).flatMap Atom.components := by
    intro atoms clean
    refine mem_flatMap_byText ?_ fun atom own => Atom.anonymous_normalize (clean atom own)
    rintro _ left _ right same
    obtain ⟨a, here, rfl⟩ := List.mem_map.mp left
    obtain ⟨b, there, rfl⟩ := List.mem_map.mp right
    exact Atom.text_injective (Atom.clean_normalize (clean a here)) (Atom.clean_normalize (clean b there)) same
  cases bare with
  | equivalentClasses | disjointClasses => exact classes clean member
  | disjointUnion => exact (List.mem_cons.mp member).elim (fun same => by cases same) fun inside => List.mem_cons_of_mem _ (classes clean inside)
  | subClassOf sub sup =>
    exact List.mem_append.mpr ((List.mem_append.mp member).imp (sub.anonymous_normalize clean.1) (sup.anonymous_normalize clean.2))
  | classAssertion cls =>
    exact List.mem_append.mpr ((List.mem_append.mp member).imp_left (cls.anonymous_normalize clean))
  | sameIndividual | differentIndividuals =>
    obtain ⟨node, own, same⟩ := List.mem_map.mp member
    rw [normalize, components, ← same]
    exact List.mem_map_of_mem ((mem_byText Node.text fun a left b right =>
      Node.text_injective (clean a left) (clean b right)).mpr own)
  | equivalentObjectProperties | disjointObjectProperties | equivalentDataProperties | disjointDataProperties =>
    obtain ⟨property, -, same⟩ := List.mem_map.mp member
    cases same
  | inverseObjectProperties => simp [components, Component.property, Component.objectProperty] at member
  | objectPropertyDomain _ cls | objectPropertyRange _ cls | dataPropertyDomain _ cls =>
    exact (List.mem_cons.mp member).elim (fun same => by cases same) fun inside => List.mem_cons_of_mem _ (cls.anonymous_normalize clean inside)
  | dataPropertyRange _ range | datatypeDefinition _ range =>
    exact (List.mem_cons.mp member).elim (fun same => by cases same) fun inside => absurd inside (range.anonymous_not_mem blank)
  | hasKey cls =>
    have own : .anonymous blank ∈ cls.components := by
      simpa [components, Component.property, Component.objectProperty, Component.dataProperty] using member
    exact List.mem_append_left _ (List.mem_append_left _ (cls.anonymous_normalize clean own))
  | rule implication =>
    obtain ⟨inBody, inHead⟩ := List.forall_mem_append.mp clean
    rw [components, List.flatMap_append, List.mem_append] at member
    rw [normalize, components, Rule.normalize, List.flatMap_append, List.mem_append]
    exact member.imp (atoms inBody) (atoms inHead)
  | _ => exact member

theorem components_rename (f : BlankNode → BlankNode) (bare : Axiom) :
    (bare.rename f).components = bare.components.map (Component.rename f) := by
  have classes : ∀ classes : List ClassExpression, (classes.map (ClassExpression.rename f)).flatMap ClassExpression.components =
      (classes.flatMap ClassExpression.components).map (Component.rename f) := by
    intro classes
    rw [List.flatMap_map, List.map_flatMap]
    exact congrArg (List.flatMap · classes) (funext fun cls => cls.components_rename f)
  have atoms : ∀ atoms : List Atom, (atoms.map ( Atom.rename f)).flatMap Atom.components =
      (atoms.flatMap Atom.components).map (Component.rename f) := by
    intro atoms
    rw [List.flatMap_map, List.map_flatMap]
    exact congrArg (List.flatMap · atoms) (funext fun atom => atom.components_rename f)
  have nodes : ∀ nodes : List Node, (nodes.map ( Node.rename f)).map Component.individual =
      (nodes.map Component.individual).map (Component.rename f) := by
    intro nodes
    rw [List.map_map, List.map_map]
    exact List.map_congr_left fun node _ => Component.rename_individual f node
  have properties : Component.rename f ∘ Component.property = Component.property := rfl
  have data : Component.rename f ∘ Component.dataProperty = Component.dataProperty := rfl
  cases bare <;> simp [rename, components, classes, nodes, atoms, properties, data, Rule.rename,
    ClassExpression.components_rename, Component.rename_individual, Component.rename_annotated,
    Component.rename_annotationValue, DataRange.rename_components, Component.property, Component.objectProperty,
    Component.dataProperty, Component.annotationProperty, Component.cls, Component.datatype, Component.literal]

end Axiom

namespace AnnotatedAxiom

variable {fact : AnnotatedAxiom} {blank : BlankNode}

/-- An axiom in normal form has no components but those that it was made from. -/
theorem components_of (bare : Axiom) (notes : List Annotation) :
    (of bare notes).components ⊆ bare.components ++ notes.flatMap Annotation.components :=
  append_subset_append bare.components_normalize (flatMap_byText_subset fun note _ => note.components_normalize)

theorem anonymous_of {bare : Axiom} {notes : List Annotation} (clean : bare.Clean) (neat : ∀ note ∈ notes, note.tree.Clean)
    (member : .anonymous blank ∈ bare.components ++ notes.flatMap Annotation.components) :
    .anonymous blank ∈ (of bare notes).components :=
  List.mem_append.mpr ((List.mem_append.mp member).imp (Axiom.anonymous_normalize clean)
    (mem_flatMap_byText ( Annotation.normalized_injective neat) fun note own => note.anonymous_normalize (neat note own)))

theorem components_renamed (f : BlankNode → BlankNode) (fact : AnnotatedAxiom) :
    (fact.bare.rename f).components ++ (fact.annotations.map ( Annotation.rename f)).flatMap Annotation.components =
      fact.components.map (Component.rename f) := by
  rw [components, List.map_append, Axiom.components_rename, List.flatMap_map, List.map_flatMap]
  exact congrArg (_ ++ List.flatMap · fact.annotations) (funext fun note => note.components_rename f)

/-- The anonymous individuals of a renamed axiom are those of the axiom, renamed. -/
theorem anonymous_rename {f : BlankNode → BlankNode} (labels : CleanLabels f) (clean : fact.Clean) :
    .anonymous blank ∈ (fact.rename f).components ↔ ∃ node, .anonymous node ∈ fact.components ∧ f node = blank := by
  have sources : .anonymous blank ∈ fact.components.map (Component.rename f) ↔
      ∃ node, .anonymous node ∈ fact.components ∧ f node = blank := by
    rw [List.mem_map]
    constructor
    · rintro ⟨component, member, same⟩
      cases component with
      | anonymous node => exact ⟨node, member, Component.anonymous.inj same⟩
      | entity | iri => cases same
    · rintro ⟨node, member, rfl⟩
      exact ⟨_, member, rfl⟩
  rw [← sources, ← components_renamed, rename_eq_of]
  exact ⟨fun member => components_of _ _ member, fun member => anonymous_of (Axiom.clean_rename labels clean.bare)
    ( Annotation.clean_renameEach labels fact.annotations clean.notes) member⟩

end AnnotatedAxiom

end OwlGraph
