import OwlGraph.Proofs.ExpressionReading
import OwlGraph.Proofs.TextForm

/-! The text of an expression determines the expression, as long as its words are clean. -/

namespace OwlGraph

/-- Whether every word of the tree is clean. -/
def Tree.Clean (tree : Tree) : Prop := ∀ leaf ∈ tree.leaves, leaf.Clean

theorem Tree.text_injective {a b : Tree} (formed : a.Formed) (shaped : b.Formed) (clean : a.Clean) (neat : b.Clean)
    (same : a.text = b.text) : a = b :=
  (Tree.text_unique a b (s := []) (t := []) formed shaped clean neat (Or.inl rfl) (Or.inl rfl) (by rw [same])).1

section Formed

theorem formed_node {name : String} {trees : List Tree} (letters : name.toList.all Char.isAlpha = true)
    (some : ∀ tree ∈ trees.head?, tree ≠ .single .nothing) (formed : ∀ tree ∈ trees, tree.Formed) :
    (Tree.node name trees).Formed :=
  ⟨fun c member => List.all_eq_true.mp letters c member, fun first => some _ first rfl, Tree.formedEach_iff.mpr formed⟩

theorem leaf_ne_nothing (node : Node) : Tree.single node.leaf ≠ .single .nothing := by
  cases node <;> simp [Node.leaf]

theorem formed_sequence {trees : List Tree} (formed : ∀ tree ∈ trees, tree.Formed) :
    ∀ tree ∈ Tree.sequence trees, tree.Formed := by
  unfold Tree.sequence
  split
  · simp [Tree.Formed]
  · exact formed

theorem PropertyExpression.formed_tree (property : PropertyExpression) :
    property.tree.Formed ∧ property.tree ≠ .single .nothing := by
  cases property with
  | named => simp [tree, Tree.Formed]
  | inverse => exact ⟨formed_node (by decide) (by simp) (by simp [Tree.Formed]), by simp [tree]⟩

namespace DataRange

mutual

theorem formed_tree : ∀ range : DataRange, range.tree.Formed ∧ range.tree ≠ .single .nothing
  | .datatype _ => by simp [tree, Tree.Formed]
  | .combination junction operands => by
    have inner := formed_trees operands
    exact ⟨formed_node (by cases junction <;> decide) (fun tree first => (inner tree (List.mem_of_mem_head? first)).2)
      fun tree member => (inner tree member).1, by simp [tree]⟩
  | .complement operand => by
    have inner := formed_tree operand
    exact ⟨formed_node (by decide) (by simpa using inner.2) (by simpa using inner.1), by simp [tree]⟩
  | .oneOf values => by
    refine ⟨formed_node (by decide) (fun tree first => ?_) (fun tree member => ?_), by simp [tree]⟩
    · obtain ⟨value, -, rfl⟩ := List.mem_map.mp (List.mem_of_mem_head? first)
      simp
    · obtain ⟨value, -, rfl⟩ := List.mem_map.mp member
      trivial
  | .restriction base facets => by
    refine ⟨formed_node (by decide) (by simp) (List.forall_mem_cons.mpr ⟨trivial, formed_sequence fun tree member => ?_⟩),
      by simp [tree]⟩
    obtain ⟨restriction, -, inside⟩ := List.mem_flatMap.mp member
    simp only [FacetRestriction.trees, List.mem_cons, List.not_mem_nil, or_false] at inside
    rcases inside with rfl | rfl <;> trivial

theorem formed_trees : ∀ ranges : List DataRange, ∀ tree ∈ trees ranges, tree.Formed ∧ tree ≠ .single .nothing
  | [] => List.forall_mem_nil _
  | range :: rest => List.forall_mem_cons.mpr ⟨formed_tree range, formed_trees rest⟩

end

end DataRange

namespace ClassExpression

mutual

theorem formed_tree : ∀ expression : ClassExpression, expression.tree.Formed ∧ expression.tree ≠ .single .nothing
  | .named _ => by simp [tree, Tree.Formed]
  | .combination junction operands => by
    have inner := formed_trees operands
    exact ⟨formed_node (by cases junction <;> decide) (fun tree first => (inner tree (List.mem_of_mem_head? first)).2)
      fun tree member => (inner tree member).1, by simp [tree]⟩
  | .complement operand => by
    have inner := formed_tree operand
    exact ⟨formed_node (by decide) (by simpa using inner.2) (by simpa using inner.1), by simp [tree]⟩
  | .oneOf individuals => by
    refine ⟨formed_node (by decide) (fun tree first => ?_) (fun tree member => ?_), by simp [tree]⟩
    · obtain ⟨node, -, rfl⟩ := List.mem_map.mp (List.mem_of_mem_head? first)
      exact leaf_ne_nothing node
    · obtain ⟨node, -, rfl⟩ := List.mem_map.mp member
      trivial
  | .objectValues quantifier property filler => by
    have own := property.formed_tree
    have inner := formed_tree filler
    exact ⟨formed_node (by cases quantifier <;> decide) (by simpa using own.2) (by simpa using ⟨own.1, inner.1⟩), by simp [tree]⟩
  | .objectHasValue property individual => by
    have own := property.formed_tree
    exact ⟨formed_node (by decide) (by simpa using own.2) (by simpa [Tree.Formed] using own.1), by simp [tree]⟩
  | .hasSelf property => by
    have own := property.formed_tree
    exact ⟨formed_node (by decide) (by simpa using own.2) (by simpa using own.1), by simp [tree]⟩
  | .objectCardinality bound _ property none => by
    have own := property.formed_tree
    exact ⟨formed_node (by cases bound <;> decide) (by simp [cardinalityTree])
      (by simpa [cardinalityTree, Tree.Formed] using own.1), by simp [tree]⟩
  | .objectCardinality bound _ property (some filler) => by
    have own := property.formed_tree
    have inner := formed_tree filler
    exact ⟨formed_node (by cases bound <;> decide) (by simp [cardinalityTree])
      (by simpa [cardinalityTree, Tree.Formed] using ⟨own.1, inner.1⟩), by simp [tree]⟩
  | .dataValues quantifier _ filler => by
    have inner := filler.formed_tree
    exact ⟨formed_node (by cases quantifier <;> decide) (by simp) (by simpa [Tree.Formed] using inner.1), by simp [tree]⟩
  | .dataHasValue _ _ => ⟨formed_node (by decide) (by simp) (by simp [Tree.Formed]), by simp [tree]⟩
  | .dataCardinality bound _ _ none =>
    ⟨formed_node (by cases bound <;> decide) (by simp [cardinalityTree]) (by simp [cardinalityTree, Tree.Formed]), by simp [tree]⟩
  | .dataCardinality bound _ _ (some filler) => by
    have inner := filler.formed_tree
    exact ⟨formed_node (by cases bound <;> decide) (by simp [cardinalityTree])
      (by simpa [cardinalityTree, Tree.Formed] using inner.1), by simp [tree]⟩

theorem formed_trees : ∀ expressions : List ClassExpression,
    ∀ tree ∈ trees expressions, tree.Formed ∧ tree ≠ .single .nothing
  | [] => List.forall_mem_nil _
  | expression :: rest => List.forall_mem_cons.mpr ⟨formed_tree expression, formed_trees rest⟩

end

end ClassExpression

private theorem variableTree_formed (iri : Iri) : (Rule.variableTree iri).Formed :=
  formed_node (by decide) (by simp) (by simp [Tree.Formed])

theorem IndividualArgument.formed_tree (argument : IndividualArgument) :
    argument.tree.Formed ∧ argument.tree ≠ .single .nothing := by
  cases argument with
  | «variable» iri => exact ⟨variableTree_formed iri, by simp [tree, Rule.variableTree]⟩
  | individual node => exact ⟨trivial, leaf_ne_nothing node⟩

theorem DataArgument.formed_tree (argument : DataArgument) : argument.tree.Formed := by
  cases argument with
  | «variable» iri => exact variableTree_formed iri
  | literal => trivial

theorem Atom.formed_tree (atom : Atom) : atom.tree.Formed := by
  have formed := ClassExpression.formed_tree
  have ranged := DataRange.formed_tree
  have owned := PropertyExpression.formed_tree
  have argued := IndividualArgument.formed_tree
  have valued := DataArgument.formed_tree
  cases atom with
  | builtin predicate arguments =>
    refine formed_node (by decide) (by simp) (List.forall_mem_cons.mpr ⟨trivial, formed_sequence fun tree member => ?_⟩)
    obtain ⟨argument, -, rfl⟩ := List.mem_map.mp member
    exact valued argument
  | _ => refine formed_node (by decide) ?_ ?_ <;> simp_all [Tree.Formed]

namespace Annotation

mutual

theorem formed_tree : ∀ note : Annotation, note.tree.Formed ∧ note.tree ≠ .single .nothing
  | ⟨property, value, annotations⟩ => by
    have inner := formed_trees annotations
    refine ⟨formed_node (by decide) (fun tree first => ?_) (fun tree member => ?_), by simp [tree]⟩
    · cases shape : trees annotations with
      | nil =>
        rw [shape] at first
        cases first
        simp
      | cons head rest =>
        rw [shape] at first
        cases first
        exact (inner _ (by simp [shape])).2
    · rcases List.mem_append.mp member with inside | inside
      · exact (inner tree inside).1
      · simp only [List.mem_cons, List.not_mem_nil, or_false] at inside
        rcases inside with rfl | rfl <;> trivial

theorem formed_trees : ∀ notes : List Annotation, ∀ tree ∈ trees notes, tree.Formed ∧ tree ≠ .single .nothing
  | [] => List.forall_mem_nil _
  | note :: rest => List.forall_mem_cons.mpr ⟨formed_tree note, formed_trees rest⟩

end

end Annotation

end Formed

section Injective

@[simp] theorem Node.leaf_inj {a b : Node} : a.leaf = b.leaf ↔ a = b := by
  cases a with
  | named => cases b <;> simp [leaf]
  | blank node =>
    cases b with
    | named => simp [leaf]
    | blank other =>
      obtain ⟨label⟩ := node
      obtain ⟨other⟩ := other
      simp [leaf, BlankNode.text]

@[simp] theorem Term.leaf_inj {a b : Term} : a.leaf = b.leaf ↔ a = b := by
  cases a with
  | resource node =>
    cases b with
    | resource other => simp [leaf]
    | literal => cases node <;> simp [leaf, Node.leaf]
  | literal value =>
    cases b with
    | resource other => cases other <;> simp [leaf, Node.leaf]
    | literal => simp [leaf]

@[simp] theorem cardinalityText_inj {m n : UInt32} : cardinalityText m = cardinalityText n ↔ m = n := by
  refine ⟨fun same => ?_, congrArg _⟩
  have parsed := Cardinality.parse_cardinalityText m
  rw [same, Cardinality.parse_cardinalityText] at parsed
  exact UInt32.toNat_inj.mp (Except.ok.inj parsed).symm

@[simp] theorem PropertyExpression.tree_inj {a b : PropertyExpression} : a.tree = b.tree ↔ a = b := by
  cases a <;> cases b <;> simp [tree]

@[simp] private theorem sequence_inj {as bs : List Tree} (some : ∀ tree ∈ as ++ bs, tree ≠ .single .nothing) :
    Tree.sequence as = Tree.sequence bs ↔ as = bs := by
  refine ⟨fun same => ?_, congrArg _⟩
  cases as <;> cases bs <;> simp_all [Tree.sequence]

private theorem facets_inj : ∀ {fs gs : List FacetRestriction},
    fs.flatMap FacetRestriction.trees = gs.flatMap FacetRestriction.trees → fs = gs
  | [], [], _ => rfl
  | [], _ :: _, same => by simp [FacetRestriction.trees] at same
  | _ :: _, [], same => by simp [FacetRestriction.trees] at same
  | ⟨facet, value⟩ :: fs, ⟨other, constant⟩ :: gs, same => by
    simp only [List.flatMap_cons, FacetRestriction.trees, List.cons_append, List.nil_append, List.cons.injEq,
      Tree.single.injEq, Leaf.iri.injEq, Leaf.literal.injEq] at same
    obtain ⟨rfl, rfl, rest⟩ := same
    rw [facets_inj rest]

private theorem facets_some (facets : List FacetRestriction) :
    ∀ tree ∈ facets.flatMap FacetRestriction.trees, tree ≠ .single .nothing := by
  intro tree member
  obtain ⟨restriction, -, inside⟩ := List.mem_flatMap.mp member
  simp only [FacetRestriction.trees, List.mem_cons, List.not_mem_nil, or_false] at inside
  rcases inside with rfl | rfl <;> simp

private theorem junction_inj {kind : String} {a b : Junction} (same : kind ++ a.name = kind ++ b.name) : a = b := by
  have names := (String.append_right_inj kind).mp same
  cases a <;> cases b <;> first | rfl | exact absurd names (by decide)

namespace DataRange

mutual

theorem tree_inj : ∀ a b : DataRange, a.tree = b.tree → a = b
  | .datatype _, b => by cases b <;> simp [tree]
  | .combination junction as, b => by
    cases b with
    | combination other bs =>
      intro same
      simp only [tree, Tree.node.injEq] at same
      rw [junction_inj same.1, trees_inj as bs same.2]
    | _ => cases junction <;> simp [tree, Junction.name]
  | .complement a, b => by
    cases b with
    | complement b => simpa [tree] using tree_inj a b
    | combination junction => cases junction <;> simp [tree, Junction.name]
    | _ => simp [tree]
  | .oneOf as, b => by
    cases b with
    | oneOf bs =>
      intro same
      have injective : Function.Injective fun value : Literal => Tree.single (.literal value) := fun _ _ same => by simpa using same
      rw [tree, tree, Tree.node.injEq] at same
      rw [List.map_injective_iff.mpr injective same.2]
    | combination junction => cases junction <;> simp [tree, Junction.name]
    | _ => simp [tree]
  | .restriction base facets, b => by
    cases b with
    | restriction other bs =>
      intro same
      simp only [tree, Tree.node.injEq, List.cons.injEq, Tree.single.injEq, Leaf.iri.injEq, true_and] at same
      obtain ⟨rfl, rest⟩ := same
      rw [sequence_inj (List.forall_mem_append.mpr ⟨facets_some _, facets_some _⟩)] at rest
      rw [facets_inj rest]
    | combination junction => cases junction <;> simp [tree, Junction.name]
    | _ => simp [tree]

theorem trees_inj : ∀ as bs : List DataRange, trees as = trees bs → as = bs
  | [], [], _ => rfl
  | [], _ :: _, same => nomatch same
  | _ :: _, [], same => nomatch same
  | a :: as, b :: bs, same => by
    rw [tree_inj a b (List.cons.inj same).1, trees_inj as bs (List.cons.inj same).2]

end

end DataRange

/-- The name of a node. -/
def Tree.name? : Tree → Option String
  | .single _ => none
  | .node name _ => some name

namespace ClassExpression

/-- The form of an anonymous class expression, of which its text begins with the name. -/
private def form? : ClassExpression → Option ClassForm
  | .named _ => none
  | .combination junction _ => some (.combination junction)
  | .complement _ => some .complement
  | .oneOf _ => some .oneOf
  | .objectValues quantifier _ _ => some (.objectValues quantifier)
  | .objectHasValue _ _ => some .objectHasValue
  | .hasSelf _ => some .hasSelf
  | .objectCardinality bound _ _ _ => some (.objectCardinality bound)
  | .dataValues quantifier _ _ => some (.dataValues quantifier)
  | .dataHasValue _ _ => some .dataHasValue
  | .dataCardinality bound _ _ _ => some (.dataCardinality bound)

private theorem form_of_tree {a b : ClassExpression} (same : a.tree = b.tree) : a.form? = b.form? := by
  have own : ∀ e : ClassExpression, e.form?.map ClassForm.name = e.tree.name? := by
    intro e
    cases e with
    | objectCardinality _ _ _ filler => cases filler <;> rfl
    | _ => rfl
  have names : ∀ f ∈ ClassForm.all, ∀ g ∈ ClassForm.all, f.name = g.name → f = g := by decide
  have headings : a.form?.map ClassForm.name = b.form?.map ClassForm.name := by rw [own a, own b, same]
  cases one : a.form? <;> cases two : b.form? <;> rw [one, two] at headings <;> simp at headings ⊢
  exact names _ (ClassForm.mem_all _) _ (ClassForm.mem_all _) headings

mutual

theorem tree_inj : ∀ a b : ClassExpression, a.tree = b.tree → a = b
  | .named _, b, same => by
    have forms := form_of_tree same
    cases b <;> simp [form?] at forms
    simpa [tree] using same
  | .combination junction as, b, same => by
    have forms := form_of_tree same
    cases b <;> simp [form?] at forms
    simp only [tree, Tree.node.injEq] at same
    rw [forms, trees_inj as _ same.2]
  | .complement a, b, same => by
    have forms := form_of_tree same
    cases b <;> simp [form?] at forms
    rw [tree_inj a _ (by simpa [tree] using same)]
  | .oneOf as, b, same => by
    have forms := form_of_tree same
    cases b <;> simp [form?] at forms
    have injective : Function.Injective fun node : Individual => Tree.single node.leaf := fun _ _ same => by simpa using same
    rw [tree, tree, Tree.node.injEq] at same
    rw [List.map_injective_iff.mpr injective same.2]
  | .objectValues quantifier property a, b, same => by
    have forms := form_of_tree same
    cases b <;> simp [form?] at forms
    simp only [tree, Tree.node.injEq, List.cons.injEq, PropertyExpression.tree_inj] at same
    rw [forms, same.2.1, tree_inj a _ same.2.2.1]
  | .objectHasValue property individual, b, same => by
    have forms := form_of_tree same
    cases b <;> simp [form?] at forms
    simpa [tree] using same
  | .hasSelf property, b, same => by
    have forms := form_of_tree same
    cases b <;> simp [form?] at forms
    simpa [tree] using same
  | .objectCardinality bound cardinality property none, b, same => by
    have forms := form_of_tree same
    cases b <;> simp [form?] at forms
    next _ _ filler => cases filler <;> simp [tree, cardinalityTree] at same; simp [forms, same]
  | .objectCardinality bound cardinality property (some a), b, same => by
    have forms := form_of_tree same
    cases b <;> simp [form?] at forms
    next _ _ filler =>
      cases filler <;> simp [tree, cardinalityTree] at same
      simp [forms, same.2.1, same.2.2.1, tree_inj a _ same.2.2.2]
  | .dataValues quantifier property range, b, same => by
    have forms := form_of_tree same
    cases b <;> simp [form?] at forms
    simp only [tree, Tree.node.injEq, List.cons.injEq, Tree.single.injEq, Leaf.iri.injEq] at same
    rw [forms, same.2.1, DataRange.tree_inj _ _ same.2.2.1]
  | .dataHasValue property value, b, same => by
    have forms := form_of_tree same
    cases b <;> simp [form?] at forms
    simpa [tree] using same
  | .dataCardinality bound cardinality property filler, b, same => by
    have forms := form_of_tree same
    cases b <;> simp [form?] at forms
    next _ _ other =>
      cases filler <;> cases other <;> simp [tree, cardinalityTree] at same
      · simp [forms, same]
      · simp [forms, same.2.1, same.2.2.1, DataRange.tree_inj _ _ same.2.2.2]

theorem trees_inj : ∀ as bs : List ClassExpression, trees as = trees bs → as = bs
  | [], [], _ => rfl
  | [], _ :: _, same => nomatch same
  | _ :: _, [], same => nomatch same
  | a :: as, b :: bs, same => by
    rw [tree_inj a b (List.cons.inj same).1, trees_inj as bs (List.cons.inj same).2]

end

end ClassExpression

@[simp] private theorem variableTree_inj {a b : Iri} : Rule.variableTree a = Rule.variableTree b ↔ a = b := by
  simp [Rule.variableTree]

@[simp] private theorem IndividualArgument.tree_inj {a b : IndividualArgument} : a.tree = b.tree ↔ a = b := by
  cases a <;> cases b <;> simp [tree, Rule.variableTree]

@[simp] private theorem DataArgument.tree_inj {a b : DataArgument} : a.tree = b.tree ↔ a = b := by
  cases a <;> cases b <;> simp [tree, Rule.variableTree]

theorem Atom.tree_inj {a b : Atom} (same : a.tree = b.tree) : a = b := by
  have some (arguments : List DataArgument) : ∀ tree ∈ arguments.map DataArgument.tree, tree ≠ .single .nothing := by
    intro tree member
    obtain ⟨argument, -, rfl⟩ := List.mem_map.mp member
    cases argument <;> simp [DataArgument.tree, Rule.variableTree]
  cases a with
  | cls => cases b <;> simp [tree] at same; simp [ClassExpression.tree_inj _ _ same.1, same.2]
  | dataRange => cases b <;> simp [tree] at same; simp [DataRange.tree_inj _ _ same.1, same.2]
  | builtin predicate arguments =>
    cases b <;> simp [tree] at same
    rw [sequence_inj (List.forall_mem_append.mpr ⟨some _, some _⟩)] at same
    have injective : Function.Injective DataArgument.tree := fun _ _ same => by simpa using same
    rw [same.1, List.map_injective_iff.mpr injective same.2]
  | _ => cases b <;> simp [tree] at same; simp [same]

namespace Annotation

mutual

theorem tree_inj : ∀ a b : Annotation, a.tree = b.tree → a = b
  | ⟨property, value, as⟩, ⟨other, constant, bs⟩, same => by
    simp only [tree, Tree.node.injEq, true_and] at same
    obtain ⟨notes, own⟩ := List.append_inj' same rfl
    simp only [List.cons.injEq, Tree.single.injEq, Leaf.iri.injEq, Term.leaf_inj, and_true] at own
    rw [trees_inj as bs notes, own.1, own.2]

theorem trees_inj : ∀ as bs : List Annotation, trees as = trees bs → as = bs
  | [], [], _ => rfl
  | [], _ :: _, same => nomatch same
  | _ :: _, [], same => nomatch same
  | a :: as, b :: bs, same => by
    rw [tree_inj a b (List.cons.inj same).1, trees_inj as bs (List.cons.inj same).2]

end

end Annotation

end Injective

/-! What the texts of clean operands determine. -/

theorem Node.text_injective {a b : Node} (clean : a.leaf.Clean) (neat : b.leaf.Clean) (same : a.text = b.text) : a = b := by
  rw [← a.text_leaf, ← b.text_leaf] at same
  have found := Leaf.unique (s := []) (t := []) clean neat (Or.inl rfl) (Or.inl rfl) (by rw [same])
  exact Node.leaf_inj.mp found.1

theorem Literal.text_injective {a b : Literal} (clean : (Leaf.literal a).Clean) (neat : (Leaf.literal b).Clean)
    (same : a.text = b.text) : a = b := by
  have found := Leaf.unique (a := .literal a) (b := .literal b) (s := []) (t := []) clean neat (Or.inl rfl) (Or.inl rfl)
    (by rw [Leaf.text, Leaf.text, same])
  exact Leaf.literal.inj found.1

theorem DataRange.text_injective {a b : DataRange} (clean : a.tree.Clean) (neat : b.tree.Clean)
    (same : a.text = b.text) : a = b := by
  rw [← a.text_tree, ← b.text_tree] at same
  exact DataRange.tree_inj a b (Tree.text_injective a.formed_tree.1 b.formed_tree.1 clean neat same)

theorem ClassExpression.text_injective {a b : ClassExpression} (clean : a.tree.Clean) (neat : b.tree.Clean)
    (same : a.text = b.text) : a = b := by
  rw [← a.text_tree, ← b.text_tree] at same
  exact ClassExpression.tree_inj a b (Tree.text_injective a.formed_tree.1 b.formed_tree.1 clean neat same)

theorem Atom.text_injective {a b : Atom} (clean : a.tree.Clean) (neat : b.tree.Clean) (same : a.text = b.text) :
    a = b := by
  rw [← a.text_tree, ← b.text_tree] at same
  exact Atom.tree_inj (Tree.text_injective a.formed_tree b.formed_tree clean neat same)

theorem Annotation.text_injective {a b : Annotation} (clean : a.tree.Clean) (neat : b.tree.Clean)
    (same : a.text = b.text) : a = b := by
  rw [← a.text_tree, ← b.text_tree] at same
  exact Annotation.tree_inj a b (Tree.text_injective a.formed_tree.1 b.formed_tree.1 clean neat same)

end OwlGraph
