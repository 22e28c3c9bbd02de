import OwlGraph.Axiom.Component
import OwlGraph.Proofs.CanonicalOrder
import OwlGraph.Proofs.TextInjectivity

/-! Renaming the anonymous individuals. The order of a set hangs on the labels, so an axiom is
normalized again after it was renamed. When its words are clean, nothing is lost on the way:
renaming back gives the axiom that it was. -/

namespace OwlGraph

open Canonical

variable {f g : BlankNode → BlankNode}

/-- Whether every label is a clean word. -/
def CleanLabels (f : BlankNode → BlankNode) : Prop := ∀ node, (Leaf.word (f node).text).Clean

theorem isDigit_of_mem_repr {number : Nat} {c : Char} (member : c ∈ (Nat.repr number).toList) : c.isDigit = true := by
  have member : c ∈ Nat.toDigits 10 number := by simpa [Nat.repr] using member
  exact Nat.isDigit_of_mem_toDigits (by decide) (by decide) member

theorem isBreak_of_mem_repr {number : Nat} {c : Char} (member : c ∈ (Nat.repr number).toList) : isBreak c = false := by
  have digit := isDigit_of_mem_repr member
  rw [Bool.eq_false_iff]
  intro stop
  simp only [isBreak, Bool.or_eq_true, beq_iff_eq] at stop
  rcases stop with rfl | rfl <;> exact absurd digit (by decide)

theorem Node.clean_rename {node : Node} (clean : node.leaf.Clean) (labels : CleanLabels f) : (node.rename f).leaf.Clean := by
  cases node with
  | named => exact clean
  | blank node => exact labels node

theorem Term.clean_rename {term : Term} (clean : term.leaf.Clean) (labels : CleanLabels f) : (term.rename f).leaf.Clean := by
  cases term with
  | resource node => exact Node.clean_rename clean labels
  | literal => exact clean

theorem clean_node {name : String} {trees : List Tree} :
    (Tree.node name trees).Clean ↔ ∀ tree ∈ trees, tree.Clean := by
  simp only [Tree.Clean, Tree.leaves, Tree.leavesEach_eq, List.mem_flatMap]
  exact ⟨fun all tree member leaf inside => all leaf ⟨tree, member, inside⟩,
    fun all leaf ⟨tree, member, inside⟩ => all tree member leaf inside⟩

theorem clean_single {leaf : Leaf} : (Tree.single leaf).Clean ↔ leaf.Clean := by
  simp [Tree.Clean, Tree.leaves]

namespace DataRange

theorem trees_eq_map (ranges : List DataRange) : trees ranges = ranges.map tree := by
  induction ranges with
  | nil => rfl
  | cons range rest ih => simp [trees, ih]

mutual

theorem clean_normalize : ∀ range : DataRange, range.tree.Clean → range.normalize.tree.Clean
  | .datatype _, clean => clean
  | .combination junction operands, clean => by
    rw [tree, clean_node, trees_eq_map] at clean
    rw [normalize, tree, clean_node, trees_eq_map, List.forall_mem_map, normalizeEach_eq_map]
    exact fun operand member => clean_normalizeEach operands (List.forall_mem_map.mp clean) operand
      (mem_of_mem_byText text member)
  | .complement operand, clean => by
    rw [tree, clean_node] at clean
    rw [normalize, tree, clean_node]
    simpa using clean_normalize operand (by simpa using clean)
  | .oneOf values, clean => by
    rw [tree, clean_node, List.forall_mem_map] at clean
    rw [normalize, tree, clean_node, List.forall_mem_map]
    exact fun value member => clean value (mem_of_mem_byText Literal.text member)
  | .restriction _ _, clean => clean

theorem clean_normalizeEach : ∀ ranges : List DataRange, (∀ range ∈ ranges, range.tree.Clean) →
    ∀ range ∈ ranges.map normalize, range.tree.Clean
  | [], _ => List.forall_mem_nil _
  | range :: rest, clean => by
    obtain ⟨first, others⟩ := List.forall_mem_cons.mp clean
    exact List.forall_mem_cons.mpr ⟨clean_normalize range first, clean_normalizeEach rest others⟩

end

end DataRange

namespace ClassExpression

theorem trees_eq_map (expressions : List ClassExpression) : trees expressions = expressions.map tree := by
  induction expressions with
  | nil => rfl
  | cons expression rest ih => simp [trees, ih]

mutual

theorem clean_normalize : ∀ expression : ClassExpression, expression.tree.Clean → expression.normalize.tree.Clean
  | .named _, clean | .objectHasValue _ _, clean | .hasSelf _, clean | .dataHasValue _ _, clean
  | .objectCardinality _ _ _ none, clean | .dataCardinality _ _ _ none, clean => clean
  | .combination junction operands, clean => by
    rw [tree, clean_node, trees_eq_map] at clean
    rw [normalize, tree, clean_node, trees_eq_map, List.forall_mem_map, normalizeEach_eq_map]
    exact fun operand member => clean_normalizeEach operands (List.forall_mem_map.mp clean) operand
      (mem_of_mem_byText text member)
  | .complement operand, clean => by
    rw [tree, clean_node] at clean
    rw [normalize, tree, clean_node]
    simpa using clean_normalize operand (by simpa using clean)
  | .oneOf individuals, clean => by
    rw [tree, clean_node, List.forall_mem_map] at clean
    rw [normalize, tree, clean_node, List.forall_mem_map]
    exact fun node member => clean node (mem_of_mem_byText Node.text member)
  | .objectValues _ property filler, clean => by
    simp only [tree, clean_node, List.forall_mem_cons] at clean
    simp only [normalize, tree, clean_node, List.forall_mem_cons]
    exact ⟨clean.1, clean_normalize filler clean.2.1, clean.2.2⟩
  | .objectCardinality _ _ property (some filler), clean => by
    simp only [tree, clean_node, List.forall_mem_cons] at clean
    simp only [normalize, tree, clean_node, List.forall_mem_cons]
    exact ⟨clean.1, clean.2.1, clean_normalize filler clean.2.2.1, clean.2.2.2⟩
  | .dataValues _ property filler, clean => by
    simp only [tree, clean_node, List.forall_mem_cons] at clean
    simp only [normalize, tree, clean_node, List.forall_mem_cons]
    exact ⟨clean.1, filler.clean_normalize clean.2.1, clean.2.2⟩
  | .dataCardinality _ _ property (some filler), clean => by
    simp only [tree, clean_node, Option.map_some, Option.toList_some, List.forall_mem_cons] at clean
    simp only [normalize, tree, clean_node, Option.map_some, Option.toList_some, List.forall_mem_cons]
    exact ⟨clean.1, clean.2.1, filler.clean_normalize clean.2.2.1, clean.2.2.2⟩

theorem clean_normalizeEach : ∀ expressions : List ClassExpression, (∀ expression ∈ expressions, expression.tree.Clean) →
    ∀ expression ∈ expressions.map normalize, expression.tree.Clean
  | [], _ => List.forall_mem_nil _
  | expression :: rest, clean => by
    obtain ⟨first, others⟩ := List.forall_mem_cons.mp clean
    exact List.forall_mem_cons.mpr ⟨clean_normalize expression first, clean_normalizeEach rest others⟩

end

variable (labels : CleanLabels f)
include labels

mutual

theorem clean_rename : ∀ expression : ClassExpression, expression.tree.Clean → (expression.rename f).tree.Clean
  | .named _, clean | .hasSelf _, clean | .dataHasValue _ _, clean | .objectCardinality _ _ _ none, clean
  | .dataCardinality _ _ _ none, clean | .dataValues _ _ _, clean | .dataCardinality _ _ _ (some _), clean => clean
  | .objectHasValue property individual, clean => by
    simp only [tree, clean_node, List.forall_mem_cons, clean_single] at clean
    simp only [rename, tree, clean_node, List.forall_mem_cons, clean_single]
    exact ⟨clean.1, Node.clean_rename clean.2.1 labels, clean.2.2⟩
  | .combination junction operands, clean => by
    rw [tree, clean_node, trees_eq_map] at clean
    rw [rename, tree, clean_node, trees_eq_map, List.forall_mem_map, renameEach_eq_map]
    exact clean_renameEach operands (List.forall_mem_map.mp clean)
  | .complement operand, clean => by
    rw [tree, clean_node] at clean
    rw [rename, tree, clean_node]
    simpa using clean_rename operand (by simpa using clean)
  | .oneOf individuals, clean => by
    rw [tree, clean_node, List.forall_mem_map] at clean
    rw [rename, tree, clean_node, List.forall_mem_map, List.forall_mem_map]
    exact fun node member => clean_single.mpr (Node.clean_rename (clean_single.mp (clean node member)) labels)
  | .objectValues _ property filler, clean => by
    simp only [tree, clean_node, List.forall_mem_cons] at clean
    simp only [rename, tree, clean_node, List.forall_mem_cons]
    exact ⟨clean.1, clean_rename filler clean.2.1, clean.2.2⟩
  | .objectCardinality _ _ property (some filler), clean => by
    simp only [tree, clean_node, List.forall_mem_cons] at clean
    simp only [rename, tree, clean_node, List.forall_mem_cons]
    exact ⟨clean.1, clean.2.1, clean_rename filler clean.2.2.1, clean.2.2.2⟩

theorem clean_renameEach : ∀ expressions : List ClassExpression, (∀ expression ∈ expressions, expression.tree.Clean) →
    ∀ expression ∈ expressions.map (rename f), expression.tree.Clean
  | [], _ => List.forall_mem_nil _
  | expression :: rest, clean => by
    obtain ⟨first, others⟩ := List.forall_mem_cons.mp clean
    exact List.forall_mem_cons.mpr ⟨clean_rename expression first, clean_renameEach rest others⟩

end

end ClassExpression

namespace Annotation

theorem trees_eq_map (notes : List Annotation) : trees notes = notes.map tree := by
  induction notes with
  | nil => rfl
  | cons note rest ih => simp [trees, ih]

theorem clean_mk {property : Iri} {value : Term} {notes : List Annotation} :
    ( Annotation.mk property value notes).tree.Clean ↔
      (Leaf.iri property).Clean ∧ value.leaf.Clean ∧ ∀ note ∈ notes, note.tree.Clean := by
  rw [tree, clean_node, List.forall_mem_append, trees_eq_map, List.forall_mem_map]
  simp only [List.forall_mem_cons, clean_single, List.not_mem_nil, false_implies, implies_true, and_true]
  tauto

mutual

theorem clean_normalize : ∀ note : Annotation, note.tree.Clean → note.normalize.tree.Clean
  | ⟨property, value, notes⟩, clean => by
    obtain ⟨own, said, clean⟩ := clean_mk.mp clean
    rw [normalize, clean_mk, normalizeEach_eq_map]
    exact ⟨own, said, fun note member => clean_normalizeEach notes clean note (mem_of_mem_byText text member)⟩

theorem clean_normalizeEach : ∀ notes : List Annotation, (∀ note ∈ notes, note.tree.Clean) →
    ∀ note ∈ notes.map normalize, note.tree.Clean
  | [], _ => List.forall_mem_nil _
  | note :: rest, clean => by
    obtain ⟨first, others⟩ := List.forall_mem_cons.mp clean
    exact List.forall_mem_cons.mpr ⟨clean_normalize note first, clean_normalizeEach rest others⟩

end

variable (labels : CleanLabels f)
include labels

mutual

theorem clean_rename : ∀ note : Annotation, note.tree.Clean → (note.rename f).tree.Clean
  | ⟨property, value, notes⟩, clean => by
    obtain ⟨own, said, clean⟩ := clean_mk.mp clean
    rw [rename, clean_mk, renameEach_eq_map]
    exact ⟨own, Term.clean_rename said labels, clean_renameEach notes clean⟩

theorem clean_renameEach : ∀ notes : List Annotation, (∀ note ∈ notes, note.tree.Clean) →
    ∀ note ∈ notes.map (rename f), note.tree.Clean
  | [], _ => List.forall_mem_nil _
  | note :: rest, clean => by
    obtain ⟨first, others⟩ := List.forall_mem_cons.mp clean
    exact List.forall_mem_cons.mpr ⟨clean_rename note first, clean_renameEach rest others⟩

end

end Annotation

namespace Atom

theorem clean_normalize {atom : Atom} (clean : atom.tree.Clean) : atom.normalize.tree.Clean := by
  cases atom with
  | cls expression argument =>
    simp only [tree, clean_node, List.forall_mem_cons] at clean
    simp only [normalize, tree, clean_node, List.forall_mem_cons]
    exact ⟨expression.clean_normalize clean.1, clean.2⟩
  | dataRange range argument =>
    simp only [tree, clean_node, List.forall_mem_cons] at clean
    simp only [normalize, tree, clean_node, List.forall_mem_cons]
    exact ⟨range.clean_normalize clean.1, clean.2⟩
  | _ => exact clean

theorem clean_rename (labels : CleanLabels f) {atom : Atom} (clean : atom.tree.Clean) : (atom.rename f).tree.Clean := by
  have argued : ∀ {argument : IndividualArgument}, argument.tree.Clean → (argument.rename f).tree.Clean := by
    intro argument clean
    cases argument with
    | «variable» => exact clean
    | individual node => exact clean_single.mpr (Node.clean_rename (clean_single.mp clean) labels)
  cases atom with
  | cls expression argument =>
    simp only [tree, clean_node, List.forall_mem_cons] at clean
    simp only [rename, tree, clean_node, List.forall_mem_cons]
    exact ⟨expression.clean_rename labels clean.1, argued clean.2.1, clean.2.2⟩
  | dataRange => exact clean
  | builtin => exact clean
  | objectProperty =>
    simp only [tree, clean_node, List.forall_mem_cons] at clean
    simp only [rename, tree, clean_node, List.forall_mem_cons]
    exact ⟨clean.1, argued clean.2.1, argued clean.2.2.1, clean.2.2.2⟩
  | dataProperty =>
    simp only [tree, clean_node, List.forall_mem_cons] at clean
    simp only [rename, tree, clean_node, List.forall_mem_cons]
    exact ⟨clean.1, argued clean.2.1, clean.2.2⟩
  | sameIndividual | differentIndividuals =>
    simp only [tree, clean_node, List.forall_mem_cons] at clean
    simp only [rename, tree, clean_node, List.forall_mem_cons]
    exact ⟨argued clean.1, argued clean.2.1, clean.2.2⟩

end Atom

namespace Canonical

variable {α : Type} {text : α → String}

/-- Normal members are renamed and normalized as the members that they were normalized from. -/
theorem byText_rename {normal renamed : α → α} {items : List α}
    (injective : ∀ a ∈ items, ∀ b ∈ items, text (normal a) = text (normal b) → normal a = normal b)
    (faithful : ∀ a ∈ items, ∀ b ∈ items, text (normal (renamed a)) = text (normal (renamed b)) →
      normal (renamed a) = normal (renamed b))
    (same : ∀ a ∈ items, normal (renamed (normal a)) = normal (renamed a)) :
    byText text (((byText text (items.map normal)).map renamed).map normal) =
      byText text ((items.map renamed).map normal) := by
  have members : ∀ item, item ∈ ((byText text (items.map normal)).map renamed).map normal ↔
      item ∈ (items.map renamed).map normal := by
    intro item
    simp only [List.mem_map, exists_exists_and_eq_and]
    constructor
    · rintro ⟨a, member, rfl⟩
      obtain ⟨b, inside, rfl⟩ := List.mem_map.mp (mem_of_mem_byText text member)
      exact ⟨b, inside, (same b inside).symm⟩
    · rintro ⟨a, inside, rfl⟩
      exact ⟨normal a, (mem_byText text (by simpa using injective)).mpr (List.mem_map_of_mem inside), same a inside⟩
  refine byText_congr text members fun a left b right => ?_
  obtain ⟨c, here, rfl⟩ : ∃ c ∈ items, normal (renamed c) = a := by
    simpa [List.mem_map] using (members a).mp left
  obtain ⟨d, there, rfl⟩ : ∃ d ∈ items, normal (renamed d) = b := by
    simpa [List.mem_map] using (members b).mp right
  exact faithful c here d there

/-- Members that have no normal form of their own. -/
theorem byText_rename_id {renamed : α → α} {items : List α}
    (injective : ∀ a ∈ items, ∀ b ∈ items, text a = text b → a = b)
    (faithful : ∀ a ∈ items, ∀ b ∈ items, text (renamed a) = text (renamed b) → renamed a = renamed b) :
    byText text ((byText text items).map renamed) = byText text (items.map renamed) := by
  have plain : byText text (((byText text (items.map id)).map renamed).map id) =
      byText text ((items.map renamed).map id) := byText_rename injective faithful fun _ _ => rfl
  simpa using plain

end Canonical

section Normal

variable (labels : CleanLabels g)
include labels

theorem Node.byText_rename {nodes : List Node} (clean : ∀ node ∈ nodes, node.leaf.Clean) :
    byText Node.text ((byText Node.text nodes).map (Node.rename g)) = byText Node.text (nodes.map (Node.rename g)) :=
  byText_rename_id (fun a left b right => Node.text_injective (clean a left) (clean b right))
    fun a left b right => Node.text_injective (clean_rename (clean a left) labels) (clean_rename (clean b right) labels)

namespace ClassExpression

mutual

theorem normalize_rename : ∀ expression : ClassExpression, expression.tree.Clean →
    (expression.normalize.rename g).normalize = (expression.rename g).normalize
  | .named _, _ | .objectHasValue _ _, _ | .hasSelf _, _ | .dataHasValue _ _, _ | .objectCardinality _ _ _ none, _
  | .dataCardinality _ _ _ none, _ => rfl
  | .dataValues _ _ filler, _ => by simp [normalize, rename]
  | .dataCardinality _ _ _ (some filler), _ => by simp [normalize, rename]
  | .combination junction operands, clean => by
    rw [tree, clean_node, trees_eq_map, List.forall_mem_map] at clean
    simp only [normalize, rename, normalizeEach_eq_map, renameEach_eq_map]
    rw [Canonical.byText_rename (fun a left b right => text_injective (clean_normalize a (clean a left))
      (clean_normalize b (clean b right))) (fun a left b right => text_injective
        (clean_normalize _ (clean_rename labels a (clean a left))) (clean_normalize _ (clean_rename labels b (clean b right))))
      (normalize_renameEach operands clean)]
  | .complement operand, clean => by
    rw [tree, clean_node] at clean
    simp only [normalize, rename, normalize_rename operand (by simpa using clean)]
  | .oneOf individuals, clean => by
    rw [tree, clean_node, List.forall_mem_map] at clean
    simp only [normalize, rename]
    rw [Node.byText_rename labels fun node member => clean_single.mp (clean node member)]
  | .objectValues _ property filler, clean => by
    simp only [tree, clean_node, List.forall_mem_cons] at clean
    simp only [normalize, rename, normalize_rename filler clean.2.1]
  | .objectCardinality _ _ property (some filler), clean => by
    simp only [tree, clean_node, List.forall_mem_cons] at clean
    simp only [normalize, rename, normalize_rename filler clean.2.2.1]

theorem normalize_renameEach : ∀ expressions : List ClassExpression, (∀ expression ∈ expressions, expression.tree.Clean) →
    ∀ expression ∈ expressions, (expression.normalize.rename g).normalize = (expression.rename g).normalize
  | [], _ => List.forall_mem_nil _
  | expression :: rest, clean => by
    obtain ⟨first, others⟩ := List.forall_mem_cons.mp clean
    exact List.forall_mem_cons.mpr ⟨normalize_rename expression first, normalize_renameEach rest others⟩

end

theorem canonical_rename {expressions : List ClassExpression} (clean : ∀ expression ∈ expressions, expression.tree.Clean) :
    canonical ((canonical expressions).map (rename g)) = canonical (expressions.map (rename g)) :=
  Canonical.byText_rename (fun a left b right => text_injective (clean_normalize a (clean a left))
    (clean_normalize b (clean b right))) (fun a left b right => text_injective
      (clean_normalize _ (clean_rename labels a (clean a left))) (clean_normalize _ (clean_rename labels b (clean b right))))
    (normalize_renameEach labels expressions clean)

end ClassExpression

namespace Annotation

mutual

theorem normalize_rename : ∀ note : Annotation, note.tree.Clean →
    (note.normalize.rename g).normalize = (note.rename g).normalize
  | ⟨property, value, notes⟩, clean => by
    obtain ⟨-, -, clean⟩ := clean_mk.mp clean
    simp only [normalize, rename, normalizeEach_eq_map, renameEach_eq_map]
    rw [Canonical.byText_rename (fun a left b right => text_injective (clean_normalize a (clean a left))
      (clean_normalize b (clean b right))) (fun a left b right => text_injective
        (clean_normalize _ (clean_rename labels a (clean a left))) (clean_normalize _ (clean_rename labels b (clean b right))))
      (normalize_renameEach notes clean)]

theorem normalize_renameEach : ∀ notes : List Annotation, (∀ note ∈ notes, note.tree.Clean) →
    ∀ note ∈ notes, (note.normalize.rename g).normalize = (note.rename g).normalize
  | [], _ => List.forall_mem_nil _
  | note :: rest, clean => by
    obtain ⟨first, others⟩ := List.forall_mem_cons.mp clean
    exact List.forall_mem_cons.mpr ⟨normalize_rename note first, normalize_renameEach rest others⟩

end

theorem canonical_rename {notes : List Annotation} (clean : ∀ note ∈ notes, note.tree.Clean) :
    canonical ((canonical notes).map (rename g)) = canonical (notes.map (rename g)) :=
  Canonical.byText_rename (fun a left b right => text_injective (clean_normalize a (clean a left))
    (clean_normalize b (clean b right))) (fun a left b right => text_injective
      (clean_normalize _ (clean_rename labels a (clean a left))) (clean_normalize _ (clean_rename labels b (clean b right))))
    (normalize_renameEach labels notes clean)

end Annotation

namespace Atom

theorem normalize_rename {atom : Atom} (clean : atom.tree.Clean) :
    (atom.normalize.rename g).normalize = (atom.rename g).normalize := by
  cases atom with
  | cls expression argument =>
    simp only [tree, clean_node, List.forall_mem_cons] at clean
    simp only [normalize, rename, expression.normalize_rename labels clean.1]
  | dataRange range => simp [normalize, rename]
  | _ => rfl

theorem canonical_rename {atoms : List Atom} (clean : ∀ atom ∈ atoms, atom.tree.Clean) :
    canonical ((canonical atoms).map (rename g)) = canonical (atoms.map (rename g)) :=
  Canonical.byText_rename (fun a left b right => text_injective (clean_normalize (clean a left))
    (clean_normalize (clean b right))) (fun a left b right => text_injective
      (clean_normalize (clean_rename labels (clean a left))) (clean_normalize (clean_rename labels (clean b right))))
    fun atom member => normalize_rename labels (clean atom member)

end Atom

end Normal

namespace Axiom

/-- Whether the words that order the operands of the axiom are clean. -/
def Clean : Axiom → Prop
  | .equivalentClasses classes | .disjointClasses classes | .disjointUnion _ classes => ∀ cls ∈ classes, cls.tree.Clean
  | .subClassOf sub sup => sub.tree.Clean ∧ sup.tree.Clean
  | .classAssertion cls _ | .objectPropertyDomain _ cls | .objectPropertyRange _ cls | .dataPropertyDomain _ cls
  | .hasKey cls _ _ => cls.tree.Clean
  | .sameIndividual individuals | .differentIndividuals individuals => ∀ node ∈ individuals, node.leaf.Clean
  | .rule implication => ∀ atom ∈ implication.body ++ implication.head, atom.tree.Clean
  | _ => True

theorem normalize_rename (labels : CleanLabels g) {bare : Axiom} (clean : bare.Clean) :
    (bare.normalize.rename g).normalize = (bare.rename g).normalize := by
  have classes := fun {es : List ClassExpression} (clean : ∀ cls ∈ es, cls.tree.Clean) =>
    ClassExpression.canonical_rename labels clean
  have cls := fun {e : ClassExpression} => e.normalize_rename labels
  have nodes := fun {ns : List Node} (clean : ∀ node ∈ ns, node.leaf.Clean) => Node.byText_rename labels clean
  cases bare with
  | inverseObjectProperties first second =>
    have unmoved : ∀ bare : Axiom, bare = .inverseObjectProperties first second ∨ bare = .inverseObjectProperties second first →
        bare.rename g = bare := by rintro _ (rfl | rfl) <;> rfl
    rw [unmoved _ (by rw [normalize]; split <;> simp), unmoved _ (Or.inl rfl), normalize_normalize]
  | rule implication =>
    obtain ⟨inBody, inHead⟩ := List.forall_mem_append.mp clean
    simp only [normalize, rename, Rule.normalize, Rule.rename, Atom.canonical_rename labels inBody,
      Atom.canonical_rename labels inHead]
  | equivalentClasses | disjointClasses | disjointUnion => simp only [normalize, rename, classes clean]
  | subClassOf => simp only [normalize, rename, cls clean.1, cls clean.2]
  | classAssertion | objectPropertyDomain | objectPropertyRange | dataPropertyDomain => simp only [normalize, rename, cls clean]
  | hasKey => simp only [normalize, rename, cls clean, PropertyExpression.canonical_canonical, Iri.canonical_canonical]
  | sameIndividual | differentIndividuals => simp only [normalize, rename, nodes clean]
  | _ => simp [normalize, rename]

end Axiom

end OwlGraph
