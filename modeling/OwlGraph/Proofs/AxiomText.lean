import OwlGraph.Proofs.Renaming

/-! The text of an annotated axiom determines the axiom and its annotations, as long as its words
are clean. Its annotations come first and are told from the operands by their name; the name of the
axiom tells its kind, but for the two kinds that share one, of which only chains begin with a chain. -/

namespace OwlGraph

open Canonical

theorem spaced_append {words others : List String} (some : words ≠ []) (more : others ≠ []) :
    spaced (words ++ others) = spaced words ++ " " ++ spaced others := by
  induction words with
  | nil => exact absurd rfl some
  | cons word rest ih =>
    cases rest with
    | nil =>
      obtain ⟨next, later, rfl⟩ := List.exists_cons_of_ne_nil more
      simp [spaced]
    | cons next rest => simp [spaced, String.append_assoc] at ih ⊢; exact ih

def Entity.tree (entity : Entity) : Tree := .node entity.kind.name [.single (.iri entity.iri)]

def Iri.tree (iri : Iri) : Tree := .single (.iri iri)

def Literal.tree (value : Literal) : Tree := .single (.literal value)

def Node.tree (node : Node) : Tree := .single node.leaf

def Term.tree (term : Term) : Tree := .single term.leaf

namespace Axiom

/-- The operands, of which a disjoint union without parts still leaves the space before them. -/
def trees : Axiom → List Tree
  | .declaration entity => [entity.tree]
  | .equivalentClasses classes | .disjointClasses classes => classes.map ClassExpression.tree
  | .subClassOf sub sup => [sub.tree, sup.tree]
  | .disjointUnion cls parts => cls.tree :: Tree.sequence (parts.map ClassExpression.tree)
  | .classAssertion cls individual => [cls.tree, individual.tree]
  | .sameIndividual individuals | .differentIndividuals individuals => individuals.map Node.tree
  | .objectPropertyAssertion _ property subject object => [property.tree, subject.tree, object.tree]
  | .dataPropertyAssertion _ property subject value => [property.tree, subject.tree, value.tree]
  | .equivalentObjectProperties properties | .disjointObjectProperties properties =>
    properties.map PropertyExpression.tree
  | .subObjectPropertyOf sub sup => [sub.tree, sup.tree]
  | .inverseObjectProperties first second => [first.tree, second.tree]
  | .characteristic _ property => [property.tree]
  | .objectPropertyDomain property cls | .objectPropertyRange property cls => [property.tree, cls.tree]
  | .subPropertyChainOf chain sup => [.node "ObjectPropertyChain" (chain.map PropertyExpression.tree), sup.tree]
  | .equivalentDataProperties properties | .disjointDataProperties properties => properties.map Iri.tree
  | .subDataPropertyOf sub sup | .subAnnotationPropertyOf sub sup => [sub.tree, sup.tree]
  | .functionalDataProperty property => [property.tree]
  | .dataPropertyDomain property domain => [property.tree, domain.tree]
  | .dataPropertyRange property range | .datatypeDefinition property range => [property.tree, range.tree]
  | .hasKey cls objectProperties dataProperties =>
    [cls.tree, .node "" (objectProperties.map PropertyExpression.tree), .node "" (dataProperties.map Iri.tree)]
  | .rule implication => [.node "Body" (implication.body.map Atom.tree), .node "Head" (implication.head.map Atom.tree)]
  | .annotationAssertion property subject value => [property.tree, subject.tree, value.tree]
  | .annotationPropertyRange property iri | .annotationPropertyDomain property iri => [property.tree, iri.tree]

end Axiom

/-- Behind annotations there is a space before the operands, also when there are none. -/
def AnnotatedAxiom.tree (fact : AnnotatedAxiom) : Tree :=
  .node fact.bare.kind.keyword <| fact.annotations.map Annotation.tree ++
    if fact.annotations.isEmpty then fact.bare.trees else Tree.sequence fact.bare.trees

section Texts

@[simp] theorem Iri.text_tree (iri : Iri) : iri.tree.text = iri.text := rfl

@[simp] theorem Literal.text_tree (value : Literal) : value.tree.text = value.text := rfl

@[simp] theorem Node.text_tree (node : Node) : node.tree.text = node.text := node.text_leaf

@[simp] theorem Term.text_tree (term : Term) : term.tree.text = term.text := term.text_leaf

theorem Entity.text_tree (entity : Entity) : entity.tree.text = entity.text := by
  simp [tree, Tree.text, Tree.texts, applied, spaced, Leaf.text, text, String.append_assoc]

theorem Axiom.text_trees (bare : Axiom) : spaced (bare.trees.map Tree.text) = bare.operandText := by
  have lists {α : Type} {tree : α → Tree} {text : α → String} (same : ∀ item, (tree item).text = text item)
      (items : List α) : (items.map tree).map Tree.text = items.map text := by
    rw [List.map_map]
    exact List.map_congr_left fun item _ => same item
  have classes := lists ClassExpression.text_tree
  have properties := lists PropertyExpression.text_tree
  have atoms := lists Atom.text_tree
  have nodes := lists Node.text_tree
  have iris := lists Iri.text_tree
  have group (name : String) (trees : List Tree) : (Tree.node name trees).text = applied name (trees.map Tree.text) := by
    rw [Tree.text, Tree.texts_eq_map]
  cases bare with
  | disjointUnion cls parts =>
    rw [trees, List.map_cons, ← Tree.texts_eq_map, texts_sequence, classes, operandText, Iri.text_tree]
  | declaration entity => exact entity.text_tree
  | _ =>
    simp only [trees, operandText, List.map_cons, List.map_nil, classes, properties, atoms, nodes, iris, group,
      ClassExpression.text_tree, PropertyExpression.text_tree, DataRange.text_tree, Node.text_tree, Iri.text_tree,
      Literal.text_tree, Term.text_tree, Rule.text, spaced]
    try rfl

private theorem spaced_sequence (trees : List Tree) :
    spaced ((Tree.sequence trees).map Tree.text) = spaced (trees.map Tree.text) := by
  cases trees <;> rfl

theorem AnnotatedAxiom.text_tree (fact : AnnotatedAxiom) : fact.tree.text = fact.text := by
  obtain ⟨bare, notes⟩ := fact
  have lists : (notes.map Annotation.tree).map Tree.text = notes.map Annotation.text := by
    rw [List.map_map]
    exact List.map_congr_left fun note _ => note.text_tree
  rw [tree, Tree.text, Tree.texts_eq_map, text, Axiom.textWith, applied, applied, ← bare.text_trees]
  cases notes with
  | nil => rfl
  | cons note rest =>
    have some : (Tree.sequence bare.trees).map Tree.text ≠ [] := by cases bare.trees <;> simp [Tree.sequence]
    rw [List.isEmpty_cons, if_neg Bool.false_ne_true, List.map_append, lists, spaced_append (by simp) some,
      spaced_append (by simp) (by simp), spaced_sequence]
    rfl

end Texts

section Formed

theorem AxiomKind.mem_all (kind : AxiomKind) : kind ∈ all := by
  cases kind with
  | objectPropertyAssertion polarity | dataPropertyAssertion polarity => cases polarity <;> decide
  | characteristic trait => cases trait <;> decide
  | _ => decide

/-- Whether the tree can be the first operand of an axiom: it is a word or a node, and no annotation. -/
structure Tree.Operand (tree : Tree) : Prop where
  formed : tree.Formed
  word : tree ≠ .single .nothing
  other : tree.name? ≠ some "Annotation"

theorem Tree.operand_node {name : String} {trees : List Tree} (letters : name.toList.all Char.isAlpha = true)
    (other : name ≠ "Annotation") (first : ∀ tree ∈ trees.head?, tree ≠ .single .nothing)
    (formed : ∀ tree ∈ trees, tree.Formed) : (Tree.node name trees).Operand :=
  ⟨formed_node letters first formed, by simp, by simpa [name?] using other⟩

theorem Iri.operand_tree (iri : Iri) : iri.tree.Operand := ⟨trivial, by simp [tree], by simp [tree, Tree.name?]⟩

theorem Node.operand_tree (node : Node) : node.tree.Operand :=
  ⟨trivial, leaf_ne_nothing node, by simp [tree, Tree.name?]⟩

theorem Entity.operand_tree (entity : Entity) : entity.tree.Operand := by
  have letters : ∀ kind : EntityKind, kind.name.toList.all Char.isAlpha = true ∧ kind.name ≠ "Annotation" := by
    intro kind
    cases kind <;> decide
  exact Tree.operand_node (letters entity.kind).1 (letters entity.kind).2 (by simp) (by simp [Tree.Formed])

theorem PropertyExpression.operand_tree (property : PropertyExpression) : property.tree.Operand := by
  obtain ⟨formed, word⟩ := property.formed_tree
  exact ⟨formed, word, by cases property <;> simp [tree, Tree.name?]⟩

theorem ClassExpression.operand_tree (expression : ClassExpression) : expression.tree.Operand := by
  obtain ⟨formed, word⟩ := expression.formed_tree
  refine ⟨formed, word, ?_⟩
  cases expression with
  | combination junction => cases junction <;> simp [tree, Tree.name?, Junction.name]
  | objectValues quantifier | dataValues quantifier => cases quantifier <;> simp [tree, Tree.name?, Quantifier.name]
  | objectCardinality bound _ _ filler => cases bound <;> cases filler <;> simp [tree, Tree.name?, Bound.name]
  | dataCardinality bound => cases bound <;> simp [tree, Tree.name?, Bound.name]
  | _ => simp [tree, Tree.name?]

theorem Atom.operand_tree (atom : Atom) : atom.tree.Operand :=
  ⟨atom.formed_tree, by cases atom <;> simp [tree], by cases atom <;> simp [tree, Tree.name?]⟩

@[simp] theorem Literal.formed_tree (value : Literal) : value.tree.Formed := trivial

@[simp] theorem Iri.formed_tree (iri : Iri) : iri.tree.Formed := trivial

@[simp] theorem Node.formed_tree (node : Node) : node.tree.Formed := trivial

@[simp] theorem Term.formed_tree (term : Term) : term.tree.Formed := trivial

/-- The trees stand for operands: words and nodes, of which the first begins no annotation. -/
private structure Axiom.Arranged (trees : List Tree) : Prop where
  formed : ∀ tree ∈ trees, tree.Formed
  first : ∀ tree ∈ trees.head?, tree.Operand

private theorem Axiom.arranged_map {α : Type} {tree : α → Tree} (operand : ∀ item, (tree item).Operand) (items : List α) :
    Arranged (items.map tree) := by
  have all : ∀ found ∈ items.map tree, found.Operand := List.forall_mem_map.mpr fun item _ => operand item
  exact ⟨fun found member => (all found member).formed, fun found first => all found (List.mem_of_mem_head? first)⟩

private theorem Axiom.arranged_cons {first : Tree} {others : List Tree} (operand : first.Operand)
    (formed : ∀ tree ∈ others, tree.Formed) : Arranged (first :: others) :=
  ⟨List.forall_mem_cons.mpr ⟨operand.formed, formed⟩, by rintro _ ⟨⟩; exact operand⟩

private theorem Axiom.Arranged.node {trees : List Tree} (arranged : Arranged trees) {name : String}
    (letters : name.toList.all Char.isAlpha = true) (other : name ≠ "Annotation") : (Tree.node name trees).Operand :=
  Tree.operand_node letters other (fun tree first => (arranged.first tree first).word) arranged.formed

theorem Axiom.arranged_trees (bare : Axiom) : Arranged bare.trees := by
  have classes := arranged_map ClassExpression.operand_tree
  have properties := arranged_map PropertyExpression.operand_tree
  have iris := arranged_map Iri.operand_tree
  have formed (expression : ClassExpression) : expression.tree.Formed := expression.formed_tree.1
  have ranged (range : DataRange) : range.tree.Formed := range.formed_tree.1
  have owned (property : PropertyExpression) : property.tree.Formed := property.formed_tree.1
  cases bare with
  | declaration entity => exact arranged_cons entity.operand_tree (by simp)
  | equivalentClasses | disjointClasses => exact classes _
  | sameIndividual | differentIndividuals => exact arranged_map Node.operand_tree _
  | equivalentObjectProperties | disjointObjectProperties => exact properties _
  | equivalentDataProperties | disjointDataProperties => exact iris _
  | disjointUnion cls parts => exact arranged_cons cls.operand_tree (formed_sequence (classes parts).formed)
  | subPropertyChainOf chain sup =>
    exact arranged_cons ((properties chain).node (by decide) (by decide)) (by simp [owned])
  | hasKey cls objectProperties dataProperties =>
    refine arranged_cons cls.operand_tree (List.forall_mem_cons.mpr ⟨?_, List.forall_mem_singleton.mpr ?_⟩)
    · exact ((properties objectProperties).node (by decide) (by decide)).formed
    · exact ((iris dataProperties).node (by decide) (by decide)).formed
  | rule implication =>
    have atoms := arranged_map Atom.operand_tree
    refine arranged_cons ((atoms implication.body).node (by decide) (by decide)) (List.forall_mem_singleton.mpr ?_)
    exact ((atoms implication.head).node (by decide) (by decide)).formed
  | subClassOf sub => exact arranged_cons sub.operand_tree (by simp [formed])
  | classAssertion cls => exact arranged_cons cls.operand_tree (by simp)
  | objectPropertyAssertion _ property | characteristic _ property | objectPropertyDomain property
  | objectPropertyRange property | subObjectPropertyOf property | inverseObjectProperties property =>
    exact arranged_cons property.operand_tree (by simp [formed, owned])
  | _ => exact arranged_cons ( Iri.operand_tree _) (by simp [formed, ranged])

theorem AnnotatedAxiom.formed_tree (fact : AnnotatedAxiom) : fact.tree.Formed := by
  obtain ⟨bare, notes⟩ := fact
  have letters : ∀ kind ∈ AxiomKind.all, kind.keyword.toList.all Char.isAlpha = true := by decide +kernel
  have operands := bare.arranged_trees
  refine formed_node (letters bare.kind bare.kind.mem_all) ?_ ?_
  · cases notes with
    | nil => exact fun tree first => (operands.first tree first).word
    | cons note rest =>
      rintro _ ⟨⟩
      exact note.formed_tree.2
  · refine List.forall_mem_append.mpr ⟨List.forall_mem_map.mpr fun note _ => note.formed_tree.1, ?_⟩
    split
    · exact operands.formed
    · exact formed_sequence operands.formed

end Formed

section Injective

/-- A sequence tells its members, unless one begins with nothing. -/
theorem Tree.sequence_inj {as bs : List Tree} (some : ∀ tree ∈ as.head?, tree ≠ .single .nothing)
    (other : ∀ tree ∈ bs.head?, tree ≠ .single .nothing) (same : sequence as = sequence bs) : as = bs := by
  cases as <;> cases bs <;> simp_all [sequence]

theorem Iri.tree_injective : Function.Injective Iri.tree := fun _ _ same => by simpa [tree] using same

theorem Literal.tree_injective : Function.Injective Literal.tree := fun _ _ same => by simpa [tree] using same

theorem Node.tree_injective : Function.Injective Node.tree := fun _ _ same => by simpa [tree] using same

theorem Term.tree_injective : Function.Injective Term.tree := fun _ _ same => by simpa [tree] using same

theorem Entity.tree_injective : Function.Injective Entity.tree := by
  have names : ∀ a b : EntityKind, a.name = b.name → a = b := by
    intro a b
    cases a <;> cases b <;> decide
  rintro ⟨kind, iri⟩ ⟨other, name⟩ same
  simp only [tree, Tree.node.injEq, List.cons.injEq, Tree.single.injEq, Leaf.iri.injEq, and_true] at same
  rw [names _ _ same.1, same.2]

/-- Axioms of one kind with the same operands are the same. -/
theorem Axiom.trees_inj {a b : Axiom} (kinds : a.kind = b.kind) (same : a.trees = b.trees) : a = b := by
  have classes (a b : ClassExpression) : a.tree = b.tree ↔ a = b := ⟨ClassExpression.tree_inj a b, congrArg _⟩
  have ranges (a b : DataRange) : a.tree = b.tree ↔ a = b := ⟨DataRange.tree_inj a b, congrArg _⟩
  have lists {α : Type} {tree : α → Tree} (injective : Function.Injective tree) (as bs : List α) :
      as.map tree = bs.map tree ↔ as = bs := (List.map_injective_iff.mpr injective).eq_iff
  have sets := lists fun a b => ClassExpression.tree_inj a b
  have properties := lists fun a b => (PropertyExpression.tree_inj (a := a) (b := b)).mp
  have atoms := lists fun a b => Atom.tree_inj (a := a) (b := b)
  cases a with
  | disjointUnion cls parts =>
    cases b <;> cases kinds
    rename_i other others
    simp only [trees, List.cons.injEq, Iri.tree_injective.eq_iff] at same
    have words (parts : List ClassExpression) : ∀ tree ∈ (parts.map ClassExpression.tree).head?, tree ≠ .single .nothing :=
      fun tree first => ((arranged_map ClassExpression.operand_tree parts).first tree first).word
    rw [same.1, (sets _ _).mp (Tree.sequence_inj (words _) (words _) same.2)]
  | rule implication =>
    cases b <;> cases kinds
    rename_i other
    simp only [trees, List.cons.injEq, Tree.node.injEq, atoms, true_and, and_true] at same
    obtain ⟨body, head⟩ := implication
    obtain ⟨_, _⟩ := other
    rw [rule.injEq, Rule.mk.injEq]
    exact same
  | _ =>
    cases b <;> cases kinds
    simp only [trees, List.cons.injEq, Tree.node.injEq, and_true, true_and, classes, ranges, sets, properties,
      PropertyExpression.tree_inj, lists Iri.tree_injective, lists Node.tree_injective, Iri.tree_injective.eq_iff,
      Literal.tree_injective.eq_iff, Node.tree_injective.eq_iff, Term.tree_injective.eq_iff, Entity.tree_injective.eq_iff] at same
    simp only [same]

/-- Two kinds of axioms share a keyword, the inclusion of a property and that of a chain. -/
theorem AxiomKind.keyword_inj {kind other : AxiomKind} (same : kind.keyword = other.keyword) :
    kind = other ∨ kind ∈ [subPropertyChainOf, subObjectPropertyOf] ∧ other ∈ [subPropertyChainOf, subObjectPropertyOf] := by
  have listed : ∀ kind ∈ all, ∀ other ∈ all, kind.keyword = other.keyword → kind = other ∨
      kind ∈ [subPropertyChainOf, subObjectPropertyOf] ∧ other ∈ [subPropertyChainOf, subObjectPropertyOf] := by
    decide +kernel
  exact listed kind kind.mem_all other other.mem_all same

/-- Of the two kinds with one keyword, the operands tell which one it is. -/
theorem Axiom.kind_of_first {bare : Axiom} (either : bare.kind ∈ [.subPropertyChainOf, .subObjectPropertyOf]) :
    bare.kind = if bare.trees.head?.bind Tree.name? = some "ObjectPropertyChain" then .subPropertyChainOf
      else .subObjectPropertyOf := by
  cases bare with
  | subPropertyChainOf chain sup => rfl
  | subObjectPropertyOf sub sup => cases sub <;> rfl
  | _ => simp [kind] at either

/-- The keyword and the operands tell the axiom. -/
theorem Axiom.eq_of_keyword {a b : Axiom} (names : a.kind.keyword = b.kind.keyword) (same : a.trees = b.trees) : a = b := by
  refine trees_inj ?_ same
  rcases AxiomKind.keyword_inj names with kinds | ⟨left, right⟩
  · exact kinds
  · rw [kind_of_first left, kind_of_first right, same]

/-- The annotations of an axiom are those of its parts that come before any other one. -/
private theorem takeWhile_parts (notes : List Annotation) {operands : List Tree}
    (first : ∀ tree ∈ operands.head?, tree.name? ≠ some "Annotation") :
    (notes.map Annotation.tree ++ operands).takeWhile (fun tree => tree.name? == some "Annotation") =
      notes.map Annotation.tree := by
  have named : ∀ tree ∈ notes.map Annotation.tree, (tree.name? == some "Annotation") = true :=
    List.forall_mem_map.mpr fun note _ => by obtain ⟨property, value, inner⟩ := note; rfl
  rw [List.takeWhile_append_of_pos named]
  cases operands with
  | nil => rw [List.takeWhile_nil, List.append_nil]
  | cons tree rest => rw [List.takeWhile_cons_of_neg (by simpa using first tree rfl), List.append_nil]

/-- The parts of an axiom tell its annotations from its operands, and its keyword and its operands
tell the axiom. -/
theorem AnnotatedAxiom.tree_inj {a b : AnnotatedAxiom} (same : a.tree = b.tree) : a = b := by
  obtain ⟨bare, notes⟩ := a
  obtain ⟨other, others⟩ := b
  obtain ⟨names, parts⟩ := Tree.node.inj same
  have first (bare : Axiom) (notes : List Annotation) :
      ∀ tree ∈ (if notes.isEmpty then bare.trees else Tree.sequence bare.trees).head?, tree.name? ≠ some "Annotation" := by
    have operands := bare.arranged_trees.first
    split
    · exact fun tree first => (operands tree first).other
    · cases shape : bare.trees with
      | nil => rintro _ ⟨⟩; simp [Tree.name?]
      | cons tree rest => rintro _ ⟨⟩; exact (operands tree (by simp [shape])).other
  have told := congrArg (List.takeWhile fun tree => tree.name? == some "Annotation") parts
  rw [takeWhile_parts _ (first bare notes), takeWhile_parts _ (first other others)] at told
  obtain rfl := List.map_injective_iff.mpr (fun a b => Annotation.tree_inj a b) told
  have operands := List.append_cancel_left parts
  have word (bare : Axiom) : ∀ tree ∈ bare.trees.head?, tree ≠ .single .nothing := fun tree first =>
    (bare.arranged_trees.first tree first).word
  rw [AnnotatedAxiom.mk.injEq]
  refine ⟨Axiom.eq_of_keyword names ?_, rfl⟩
  split at operands
  · exact operands
  · exact Tree.sequence_inj (word bare) (word other) operands

end Injective

theorem AnnotatedAxiom.text_injective {a b : AnnotatedAxiom} (clean : a.tree.Clean) (neat : b.tree.Clean)
    (same : a.text = b.text) : a = b := by
  rw [← a.text_tree, ← b.text_tree] at same
  exact AnnotatedAxiom.tree_inj (Tree.text_injective a.formed_tree b.formed_tree clean neat same)

/-! What a clean word is: an IRI without the bracket that ends it, and a label without a space or a
closing bracket. A cardinality is always one. -/

theorem Iri.clean_tree {iri : Iri} : iri.tree.Clean ↔ '>' ∉ iri.value.toList := clean_single

theorem BlankNode.clean_tree {node : BlankNode} : (Node.blank node).tree.Clean ↔ ∀ c ∈ node.label.toList, isBreak c = false := by
  have shape : node.text.toList = '_' :: ':' :: node.label.toList := by simp [BlankNode.text]
  refine clean_single.trans ⟨fun clean c member => clean.1 c (by simp [shape, member]), fun plain => ⟨?_, '_', _, shape, by decide⟩⟩
  rw [shape, List.forall_mem_cons, List.forall_mem_cons]
  exact ⟨by decide, by decide, plain⟩

theorem clean_cardinalityTree (cardinality : UInt32) : (cardinalityTree cardinality).Clean := by
  have repr : cardinalityText cardinality = Nat.repr cardinality.toNat := by
    simp [cardinalityText, Nat.repr]
  obtain ⟨first, rest, shape⟩ := List.exists_cons_of_ne_nil (l := (Nat.repr cardinality.toNat).toList)
    (by simp [Nat.repr, Nat.toDigits_ne_nil])
  have digit : first.isDigit = true := isDigit_of_mem_repr (shape ▸ List.mem_cons_self)
  refine clean_single.mpr ⟨fun c member => isBreak_of_mem_repr (repr ▸ member), first, rest, repr ▸ shape, ?_⟩
  rw [isInitial, digit, Bool.or_true]

/-- The text tells the values whose words are clean: values with one text are the same, so that a set
that is ordered by the text keeps all its members. -/
structure Legible {α : Type} (text : α → String) (tree : α → Tree) : Prop where
  injective : ∀ a b, (tree a).Clean → (tree b).Clean → text a = text b → a = b
  kept : ∀ items : List α, (∀ item ∈ items, (tree item).Clean) → ∀ item, item ∈ byText text items ↔ item ∈ items

private theorem Legible.of {α : Type} {text : α → String} {tree : α → Tree}
    (injective : ∀ a b, (tree a).Clean → (tree b).Clean → text a = text b → a = b) : Legible text tree where
  injective := injective
  kept _ clean _ := mem_byText text fun a left b right => injective a b (clean a left) (clean b right)

/-- The functional-style text of axioms with their annotations, of expressions, individuals, literals,
atoms and annotations is injective, as long as IRIs are without the bracket that ends them, and labels
and language tags without spaces and closing brackets. -/
theorem texts_injective :
    Legible AnnotatedAxiom.text AnnotatedAxiom.tree ∧ Legible ClassExpression.text ClassExpression.tree ∧
    Legible DataRange.text DataRange.tree ∧ Legible Node.text Node.tree ∧ Legible Literal.text Literal.tree ∧
    Legible Atom.text Atom.tree ∧ Legible Annotation.text Annotation.tree := by
  refine ⟨.of fun a b => AnnotatedAxiom.text_injective, .of fun a b => ClassExpression.text_injective,
    .of fun a b => DataRange.text_injective, .of fun a b clean neat => ?_, .of fun a b clean neat => ?_,
    .of fun a b => Atom.text_injective, .of fun a b => Annotation.text_injective⟩
  · exact Node.text_injective (clean_single.mp clean) (clean_single.mp neat)
  · exact Literal.text_injective (clean_single.mp clean) (clean_single.mp neat)

/-- A literal that contains brackets and quotes is taken for nothing else. -/
theorem texts_injective_quotes :
    let named := ClassExpression.named ⟨"http://example.com/A"⟩
    let value := ClassExpression.dataHasValue ⟨"http://example.com/p"⟩ (.simple "x\") <http://example.com/A>")
    named.tree.Clean ∧ value.tree.Clean ∧
    ∀ item, item ∈ byText ClassExpression.text [value, named, value] ↔ item = named ∨ item = value := by
  intro named value
  have clean : named.tree.Clean := clean_single.mpr (by simp [Leaf.Clean])
  have neat : value.tree.Clean := clean_node.mpr (by simp [clean_single, Leaf.Clean])
  refine ⟨clean, neat, fun item => ?_⟩
  rw [texts_injective.2.1.kept _ (by simp [clean, neat])]
  simp only [List.mem_cons, List.not_mem_nil, or_false]
  tauto

end OwlGraph
