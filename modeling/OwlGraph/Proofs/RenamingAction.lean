import OwlGraph.Proofs.CanonicalLabels
import OwlGraph.Proofs.NormalForm

/-! Renaming is an action of the maps on labels, also of those that make one individual of two. Then
members of a set become the same and are merged, so the axiom has fewer components than before; but
akin values have the same components, and every value is akin to its normal form, so the components
as a set are those before, each renamed. -/

namespace OwlGraph

open Canonical

/-- The members of akin sets have together the same parts, if related members have. -/
theorem SetsAkin.mem_flatMap {α β : Type} {parts : α → List β} {item : β} {as bs : List α}
    (akin : SetsAkin (fun a b => item ∈ parts a ↔ item ∈ parts b) as bs) :
    item ∈ as.flatMap parts ↔ item ∈ bs.flatMap parts := by
  induction akin with
  | nil => exact Iff.rfl
  | cons first _ ih => rw [List.flatMap_cons, List.flatMap_cons, List.mem_append, List.mem_append, first, ih]
  | swap a b items =>
    simp only [List.flatMap_cons, List.mem_append]
    exact or_left_comm
  | again a items => simp only [List.flatMap_cons, List.mem_append, or_self_left]
  | symm _ ih => exact ih.symm
  | trans _ _ left right => exact left.trans right

theorem SetsAkin.mem_map {α β : Type} {part : α → β} {item : β} {as bs : List α} (akin : SetsAkin Eq as bs) :
    item ∈ as.map part ↔ item ∈ bs.map part := by
  rw [List.mem_map, List.mem_map]
  exact exists_congr fun member => and_congr_left' (akin.mem_iff member)

variable {f : BlankNode → BlankNode}

section Akin

variable {component : Component}

namespace DataRange

mutual

theorem Akin.mem_components : ∀ {a b : DataRange}, a.Akin b → (component ∈ a.components ↔ component ∈ b.components)
  | _, _, .refl _ => Iff.rfl
  | _, _, .symm akin => akin.mem_components.symm
  | _, _, .trans first second => first.mem_components.trans second.mem_components
  | _, _, .combination _ sets => by
    rw [components, components, componentsEach_eq, componentsEach_eq]
    exact (alikeEach sets).mem_flatMap
  | _, _, .complement akin => by
    rw [components, components]
    exact akin.mem_components
  | _, _, .oneOf sets => by
    rw [components, components]
    exact sets.mem_map

theorem alikeEach : ∀ {as bs : List DataRange}, SetsAkin Akin as bs →
    SetsAkin (fun a b => component ∈ a.components ↔ component ∈ b.components) as bs
  | _, _, .nil => .nil
  | _, _, .cons first rest => .cons first.mem_components (alikeEach rest)
  | _, _, .swap a b items => .swap a b items
  | _, _, .again a items => .again a items
  | _, _, .symm akin => .symm (alikeEach akin)
  | _, _, .trans first second => .trans (alikeEach first) (alikeEach second)

end

end DataRange

namespace ClassExpression

mutual

theorem Akin.mem_components : ∀ {a b : ClassExpression}, a.Akin b → (component ∈ a.components ↔ component ∈ b.components)
  | _, _, .refl _ => Iff.rfl
  | _, _, .symm akin => akin.mem_components.symm
  | _, _, .trans first second => first.mem_components.trans second.mem_components
  | _, _, .combination _ sets => by
    rw [components, components, componentsEach_eq, componentsEach_eq]
    exact (alikeEach sets).mem_flatMap
  | _, _, .complement akin => by
    rw [components, components]
    exact akin.mem_components
  | _, _, .oneOf sets => by
    rw [components, components]
    exact sets.mem_map
  | _, _, .objectValues _ _ akin | _, _, .objectCardinality _ _ _ akin => by
    rw [components, components, List.mem_cons, List.mem_cons, akin.mem_components]
  | _, _, .dataValues _ _ akin | _, _, .dataCardinality _ _ _ akin => by
    rw [components, components, List.mem_cons, List.mem_cons, akin.mem_components]

theorem alikeEach : ∀ {as bs : List ClassExpression}, SetsAkin Akin as bs →
    SetsAkin (fun a b => component ∈ a.components ↔ component ∈ b.components) as bs
  | _, _, .nil => .nil
  | _, _, .cons first rest => .cons first.mem_components (alikeEach rest)
  | _, _, .swap a b items => .swap a b items
  | _, _, .again a items => .again a items
  | _, _, .symm akin => .symm (alikeEach akin)
  | _, _, .trans first second => .trans (alikeEach first) (alikeEach second)

end

end ClassExpression

namespace Annotation

mutual

theorem Akin.mem_components : ∀ {a b : Annotation}, a.Akin b → (component ∈ a.components ↔ component ∈ b.components)
  | _, _, .refl _ => Iff.rfl
  | _, _, .symm akin => akin.mem_components.symm
  | _, _, .trans first second => first.mem_components.trans second.mem_components
  | _, _, .mk _ _ sets => by
    simp only [components, componentsEach_eq, List.mem_cons, (alikeEach sets).mem_flatMap]

theorem alikeEach : ∀ {as bs : List Annotation}, SetsAkin Akin as bs →
    SetsAkin (fun a b => component ∈ a.components ↔ component ∈ b.components) as bs
  | _, _, .nil => .nil
  | _, _, .cons first rest => .cons first.mem_components (alikeEach rest)
  | _, _, .swap a b items => .swap a b items
  | _, _, .again a items => .again a items
  | _, _, .symm akin => .symm (alikeEach akin)
  | _, _, .trans first second => .trans (alikeEach first) (alikeEach second)

end

end Annotation

theorem Atom.Akin.mem_components {a b : Atom} (akin : a.Akin b) : component ∈ a.components ↔ component ∈ b.components := by
  induction akin with
  | refl => exact Iff.rfl
  | symm _ ih => exact ih.symm
  | trans _ _ left right => exact left.trans right
  | cls akin | dataRange akin => rw [components, components, List.mem_append, List.mem_append, akin.mem_components]

/-- Akin axioms have the same components. -/
theorem Axiom.Akin.mem_components {a b : Axiom} (akin : a.Akin b) : component ∈ a.components ↔ component ∈ b.components := by
  induction akin with
  | refl => exact Iff.rfl
  | symm _ ih => exact ih.symm
  | trans _ _ left right => exact left.trans right
  | equivalentClasses sets | disjointClasses sets => exact (ClassExpression.alikeEach sets).mem_flatMap
  | disjointUnion cls sets =>
    rw [components, components, List.mem_cons, List.mem_cons, (ClassExpression.alikeEach sets).mem_flatMap]
  | subClassOf sub sup =>
    rw [components, components, List.mem_append, List.mem_append, sub.mem_components, sup.mem_components]
  | classAssertion akin => rw [components, components, List.mem_append, List.mem_append, akin.mem_components]
  | objectPropertyDomain _ akin | objectPropertyRange _ akin | dataPropertyDomain _ akin =>
    rw [components, components, List.mem_cons, List.mem_cons, akin.mem_components]
  | dataPropertyRange _ akin | datatypeDefinition _ akin =>
    rw [components, components, List.mem_cons, List.mem_cons, akin.mem_components]
  | sameIndividual sets | differentIndividuals sets => exact sets.mem_map
  | equivalentObjectProperties sets | disjointObjectProperties sets => exact sets.mem_map
  | equivalentDataProperties sets | disjointDataProperties sets => exact sets.mem_map
  | inverseObjectProperties first second => exact (List.Perm.swap _ _ []).mem_iff
  | hasKey akin objects data =>
    simp only [components, List.mem_append, akin.mem_components, objects.mem_map, data.mem_map]
  | rule bodies heads =>
    have atoms {as bs : List Atom} (sets : SetsAkin Atom.Akin as bs) :
        component ∈ as.flatMap Atom.components ↔ component ∈ bs.flatMap Atom.components :=
      (sets.mono fun _ _ akin => akin.mem_components).mem_flatMap
    simp only [components, List.flatMap_append, List.mem_append, atoms bodies, atoms heads]

end Akin

namespace Axiom

theorem Tidy.clean {bare : Axiom} (tidy : bare.Tidy) : bare.Clean := by
  have own {tree : Tree} (member : tree ∈ bare.trees) : tree.Clean := tidy tree member
  cases bare with
  | equivalentClasses | disjointClasses => exact List.forall_mem_map.mp tidy
  | disjointUnion => exact List.forall_mem_map.mp (clean_sequence.mp (List.forall_mem_cons.mp tidy).2)
  | subClassOf => exact ⟨own (by simp [trees]), own (by simp [trees])⟩
  | classAssertion | objectPropertyDomain | objectPropertyRange | dataPropertyDomain | hasKey => exact own (by simp [trees])
  | sameIndividual | differentIndividuals => exact fun node member => clean_single.mp (List.forall_mem_map.mp tidy node member)
  | rule implication => exact List.forall_mem_append.mpr (tidy_rule.mp tidy)
  | _ => trivial

end Axiom

theorem Node.tidy_rename (labels : CleanLabels f) {node : Node} (clean : node.tree.Clean) : (node.rename f).tree.Clean :=
  clean_single.mpr (Node.clean_rename (clean_single.mp clean) labels)

namespace Axiom

theorem tidy_rename (labels : CleanLabels f) {bare : Axiom} (tidy : bare.Tidy) : (bare.rename f).Tidy := by
  have classes {expressions : List ClassExpression} (clean : ∀ tree ∈ expressions.map ClassExpression.tree, tree.Clean) :
      ∀ tree ∈ (expressions.map (ClassExpression.rename f)).map ClassExpression.tree, tree.Clean :=
    List.forall_mem_map.mpr (ClassExpression.clean_renameEach labels expressions (List.forall_mem_map.mp clean))
  have nodes {individuals : List Individual} (clean : ∀ tree ∈ individuals.map Node.tree, tree.Clean) :
      ∀ tree ∈ (individuals.map (Node.rename f)).map Node.tree, tree.Clean := by
    rw [List.map_map]
    exact List.forall_mem_map.mpr fun node member => Node.tidy_rename labels (List.forall_mem_map.mp clean node member)
  cases bare with
  | equivalentClasses | disjointClasses => exact classes tidy
  | disjointUnion =>
    obtain ⟨own, parts⟩ := List.forall_mem_cons.mp tidy
    exact List.forall_mem_cons.mpr ⟨own, clean_sequence.mpr (classes (clean_sequence.mp parts))⟩
  | sameIndividual | differentIndividuals => exact nodes tidy
  | rule implication =>
    obtain ⟨inBody, inHead⟩ := tidy_rule.mp tidy
    have atoms {atoms : List Atom} (clean : ∀ atom ∈ atoms, atom.tree.Clean) : ∀ atom ∈ atoms.map (Atom.rename f), atom.tree.Clean :=
      List.forall_mem_map.mpr fun atom member => Atom.clean_rename labels (clean atom member)
    exact tidy_rule.mpr ⟨atoms inBody, atoms inHead⟩
  | subClassOf sub sup =>
    simp only [Tidy, trees, rename, List.forall_mem_cons] at tidy ⊢
    exact ⟨sub.clean_rename labels tidy.1, sup.clean_rename labels tidy.2.1, tidy.2.2⟩
  | classAssertion cls =>
    simp only [Tidy, trees, rename, List.forall_mem_cons] at tidy ⊢
    exact ⟨cls.clean_rename labels tidy.1, Node.tidy_rename labels tidy.2.1, tidy.2.2⟩
  | objectPropertyAssertion =>
    simp only [Tidy, trees, rename, List.forall_mem_cons] at tidy ⊢
    exact ⟨tidy.1, Node.tidy_rename labels tidy.2.1, Node.tidy_rename labels tidy.2.2.1, tidy.2.2.2⟩
  | dataPropertyAssertion =>
    simp only [Tidy, trees, rename, List.forall_mem_cons] at tidy ⊢
    exact ⟨tidy.1, Node.tidy_rename labels tidy.2.1, tidy.2.2⟩
  | objectPropertyDomain _ cls | objectPropertyRange _ cls | dataPropertyDomain _ cls =>
    simp only [Tidy, trees, rename, List.forall_mem_cons] at tidy ⊢
    exact ⟨tidy.1, cls.clean_rename labels tidy.2.1, tidy.2.2⟩
  | hasKey cls =>
    simp only [Tidy, trees, rename, List.forall_mem_cons] at tidy ⊢
    exact ⟨cls.clean_rename labels tidy.1, tidy.2⟩
  | annotationAssertion =>
    simp only [Tidy, trees, rename, List.forall_mem_cons] at tidy ⊢
    exact ⟨tidy.1, Node.tidy_rename labels tidy.2.1, clean_single.mpr (Term.clean_rename (clean_single.mp tidy.2.2.1) labels), tidy.2.2.2⟩
  | _ => exact tidy

end Axiom

namespace AnnotatedAxiom

variable {fact : AnnotatedAxiom} {component : Component}

theorem clean_of_tree (clean : fact.tree.Clean) : fact.Clean :=
  ⟨(clean_tree.mp clean).1.clean, (clean_tree.mp clean).2⟩

/-- Normalizing leaves the components of an axiom as they are, as a set. -/
theorem mem_components_of {bare : Axiom} {notes : List Annotation} (tidy : bare.Tidy) (clean : ∀ note ∈ notes, note.tree.Clean) :
    component ∈ (of bare notes).components ↔ component ∈ bare.components ++ notes.flatMap Annotation.components := by
  rw [of, components, List.mem_append, List.mem_append, (Axiom.akin_normalize tidy).mem_components,
    ( Annotation.alikeEach ( Annotation.akin_canonical clean)).mem_flatMap]

theorem clean_tree_of {bare : Axiom} {notes : List Annotation} (tidy : bare.Tidy) (clean : ∀ note ∈ notes, note.tree.Clean) :
    (of bare notes).tree.Clean :=
  clean_tree.mpr ⟨(Axiom.akin_normalize tidy).agree.words.mp tidy, fun note member =>
    Annotation.clean_normalizeEach notes clean note (mem_of_mem_byText _ member)⟩

/-- The components of a renamed axiom are those of the axiom, renamed. -/
theorem mem_components_rename (labels : CleanLabels f) (clean : fact.tree.Clean) :
    component ∈ (fact.rename f).components ↔ ∃ part ∈ fact.components, part.rename f = component := by
  obtain ⟨tidy, neat⟩ := clean_tree.mp clean
  rw [rename_eq_of, mem_components_of (Axiom.tidy_rename labels tidy) ( Annotation.clean_renameEach labels _ neat),
    components_renamed, List.mem_map]

end AnnotatedAxiom

/-- Renaming is an action on the axioms in normal form: one renaming after the other is the renaming by
their composition, and the identity changes nothing. The anonymous individuals of the renamed axiom are
the images of those of the axiom, and its other components are the same. The labels, before and after,
are asked to be without the characters that end them in the text, since sets are ordered by the text;
the maps need not be injective. -/
theorem AnnotatedAxiom.renaming_action {fact : AnnotatedAxiom} (normal : fact.Normal) (clean : fact.tree.Clean)
    {f g : BlankNode → BlankNode} (labels : ∀ node, .anonymous node ∈ fact.components → (Node.blank (f node)).tree.Clean)
    (others : ∀ node, .anonymous node ∈ fact.components → (Node.blank (g (f node))).tree.Clean) :
    (fact.rename f).rename g = fact.rename (g ∘ f) ∧ fact.rename id = fact ∧
    (∀ node, .anonymous node ∈ (fact.rename f).components ↔ ∃ other, .anonymous other ∈ fact.components ∧ f other = node) ∧
    (∀ named, .entity named ∈ (fact.rename f).components ↔ .entity named ∈ fact.components) ∧
    ∀ iri, .iri iri ∈ (fact.rename f).components ↔ .iri iri ∈ fact.components := by
  -- Nothing is said about the labels of other individuals, so each map gives way to one with clean labels for all.
  obtain ⟨p, cleanLabels, agree⟩ := @Colouring.exists_cleanLabels f
    {node | Component.anonymous node ∈ fact.components} fun node member => clean_single.mp (labels node member)
  have same : fact.rename f = fact.rename p := rename_congr fun node member => (agree node member).symm
  have blanks (node : BlankNode) : .anonymous node ∈ (fact.rename p).components ↔
      ∃ other, .anonymous other ∈ fact.components ∧ f other = node := by
    rw [anonymous_rename cleanLabels (clean_of_tree clean)]
    exact exists_congr fun other => and_congr_right fun member => by rw [agree other member]
  obtain ⟨q, cleanOthers, concur⟩ := @Colouring.exists_cleanLabels g
    {node | Component.anonymous node ∈ (fact.rename p).components} fun node member => by
      obtain ⟨other, inside, rfl⟩ := (blanks node).mp member
      exact clean_single.mp (others other inside)
  have kept (component : Component) (still : ∀ part : Component, part.rename p = component ↔ part = component) :
      component ∈ (fact.rename p).components ↔ component ∈ fact.components := by
    rw [mem_components_rename cleanLabels clean]
    simp only [still, exists_eq_right]
  rw [same]
  refine ⟨?_, rename_id normal, blanks, fun named => kept _ fun part => ?_, fun iri => kept _ fun part => ?_⟩
  · rw [rename_congr fun node member => (concur node member).symm]
    refine rename_comp cleanLabels cleanOthers (clean_of_tree clean) fun node member => ?_
    rw [agree node member, Function.comp_apply]
    exact concur _ ((blanks _).mpr ⟨node, member, rfl⟩)
  · cases part <;> simp [Component.rename]
  · cases part <;> simp [Component.rename]

/-- Both individuals of the axiom get one label, so that two operands of the union become one, and the
annotation goes along. -/
theorem AnnotatedAxiom.renaming_action_merged :
    let one (label : String) : ClassExpression := .oneOf [.blank ⟨label⟩]
    let said : Annotation := ⟨⟨"http://example.com/about"⟩, .resource (.blank ⟨"y"⟩), []⟩
    let fact := AnnotatedAxiom.of (.subClassOf (.combination .union [one "x", one "y"]) (.named ⟨"http://example.com/A"⟩)) [said]
    let f : BlankNode → BlankNode := fun _ => ⟨"z"⟩
    let g : BlankNode → BlankNode := fun node => ⟨node.label ++ "0"⟩
    (fact.rename f).rename g = fact.rename (fun _ => ⟨"z0"⟩) ∧
    (∀ node, .anonymous node ∈ (fact.rename f).components ↔ node = ⟨"z"⟩) ∧
    .entity ⟨.cls, ⟨"http://example.com/A"⟩⟩ ∈ (fact.rename f).components := by
  intro one said fact f g
  have label (letter : String) (plain : ∀ c ∈ letter.toList, isBreak c = false) : (Node.blank ⟨letter⟩).tree.Clean :=
    BlankNode.clean_tree.mpr plain
  have x := label "x" (by simp [isBreak])
  have y := label "y" (by simp [isBreak])
  have tidy : (Axiom.subClassOf (.combination .union [one "x", one "y"]) (.named ⟨"http://example.com/A"⟩)).Tidy := by
    have name : (ClassExpression.named ⟨"http://example.com/A"⟩).tree.Clean := clean_single.mpr (by simp [Leaf.Clean])
    have single {node : Node} (clean : node.tree.Clean) : (ClassExpression.oneOf [node]).tree.Clean :=
      ClassExpression.clean_oneOf.mpr (by simpa using clean_single.mp clean)
    simp [Axiom.Tidy, Axiom.trees, ClassExpression.clean_combination, name, one, single x, single y]
  have noted : ∀ note ∈ [said], note.tree.Clean := by
    have value : (Term.resource (.blank ⟨"y"⟩)).leaf.Clean := clean_single.mp y
    exact List.forall_mem_singleton.mpr ( Annotation.clean_mk.mpr ⟨by simp [Leaf.Clean], value, List.forall_mem_nil _⟩)
  have member {component : Component} : component ∈ fact.components ↔ _ := AnnotatedAxiom.mem_components_of tidy noted
  obtain ⟨composed, -, blanks, named, -⟩ := AnnotatedAxiom.renaming_action (AnnotatedAxiom.normal_of _ _)
    (AnnotatedAxiom.clean_tree_of tidy noted) (f := f) (g := g) (fun _ _ => label "z" (by simp [isBreak]))
    fun _ _ => label "z0" (by simp [isBreak])
  refine ⟨composed, fun node => ?_, (named _).mpr (member.mpr ?_)⟩
  · rw [blanks]
    have there : Component.anonymous ⟨"x"⟩ ∈ fact.components := member.mpr (by
      simp [Axiom.components, ClassExpression.components, ClassExpression.componentsEach, one, Component.individual])
    constructor
    · rintro ⟨_, _, same⟩
      exact same.symm
    · exact fun same => ⟨_, there, same.symm⟩
  · simp [Axiom.components, ClassExpression.components, Component.cls]

end OwlGraph
