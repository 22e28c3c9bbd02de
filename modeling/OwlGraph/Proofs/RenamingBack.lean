import OwlGraph.Proofs.Renaming

/-! Renaming and renaming agree. A renaming that tells the anonymous individuals of an axiom
apart can be undone, so axioms that differ are renamed to axioms that differ. -/

namespace OwlGraph

open Canonical

variable {f g h : BlankNode → BlankNode}

theorem Node.rename_comp {node : Node} (agree : ∀ blank, Component.anonymous blank = .individual node → g (f blank) = h blank) :
    (node.rename f).rename g = node.rename h := by
  cases node with
  | named => rfl
  | blank blank => exact congrArg Node.blank (agree blank rfl)

theorem Node.rename_comp_all {nodes : List Node}
    (agree : ∀ blank, Component.anonymous blank ∈ nodes.map Component.individual → g (f blank) = h blank) :
    (nodes.map (Node.rename f)).map (Node.rename g) = nodes.map (Node.rename h) := by
  rw [List.map_map]
  refine List.map_congr_left fun node member => ?_
  exact node.rename_comp fun blank same => agree blank (same ▸ List.mem_map_of_mem member)

theorem Term.rename_comp {term : Term} (agree : ∀ blank, Component.anonymous blank = .annotationValue term → g (f blank) = h blank) :
    (term.rename f).rename g = term.rename h := by
  cases term with
  | resource node =>
    refine congrArg Term.resource (node.rename_comp fun blank same => agree blank ?_)
    cases node with
    | named => cases same
    | blank => exact same
  | literal => rfl

@[simp] theorem Node.rename_id (node : Node) : node.rename id = node := by cases node <;> rfl

@[simp] theorem Term.rename_id (term : Term) : term.rename id = term := by
  cases term with
  | resource node => exact congrArg Term.resource node.rename_id
  | literal => rfl

namespace ClassExpression

mutual

@[simp] theorem rename_id : ∀ expression : ClassExpression, expression.rename id = expression
  | .named _ | .hasSelf _ | .dataHasValue _ _ | .objectCardinality _ _ _ none | .dataCardinality _ _ _ _
  | .dataValues _ _ _ => rfl
  | .combination _ operands => by rw [rename, renameEach_id operands]
  | .complement operand => by rw [rename, rename_id operand]
  | .oneOf _ => by simp [rename, List.map_id'']
  | .objectValues _ _ filler => by rw [rename, rename_id filler]
  | .objectHasValue _ _ => by rw [rename, Node.rename_id]
  | .objectCardinality _ _ _ (some filler) => by rw [rename, rename_id filler]

theorem renameEach_id : ∀ expressions : List ClassExpression, renameEach id expressions = expressions
  | [] => rfl
  | expression :: rest => by rw [renameEach, rename_id expression, renameEach_id rest]

end

mutual

theorem rename_comp : ∀ expression : ClassExpression,
    (∀ blank, Component.anonymous blank ∈ expression.components → g (f blank) = h blank) →
    (expression.rename f).rename g = expression.rename h
  | .named _, _ | .hasSelf _, _ | .dataHasValue _ _, _ | .objectCardinality _ _ _ none, _
  | .dataCardinality _ _ _ none, _ | .dataValues _ _ _, _ | .dataCardinality _ _ _ (some _), _ => rfl
  | .combination junction operands, agree => by
    simp only [rename, renameEach_eq_map, rename_compEach operands agree]
  | .complement operand, agree => by simp only [rename, rename_comp operand agree]
  | .oneOf individuals, agree => by simp only [rename, Node.rename_comp_all agree]
  | .objectValues _ property filler, agree => by
    simp only [rename, rename_comp filler fun blank member => agree blank (List.mem_cons_of_mem _ member)]
  | .objectHasValue property individual, agree => by
    simp only [rename, individual.rename_comp fun blank same => agree blank (by simp [components, same])]
  | .objectCardinality _ _ property (some filler), agree => by
    simp only [rename, rename_comp filler fun blank member => agree blank (List.mem_cons_of_mem _ member)]

theorem rename_compEach : ∀ expressions : List ClassExpression,
    (∀ blank, Component.anonymous blank ∈ componentsEach expressions → g (f blank) = h blank) →
    (expressions.map (rename f)).map (rename g) = expressions.map (rename h)
  | [], _ => rfl
  | expression :: rest, agree => by
    simp only [List.map_cons, rename_comp expression fun blank member => agree blank (List.mem_append_left _ member),
      rename_compEach rest fun blank member => agree blank (List.mem_append_right _ member)]

end

theorem componentsEach_eq (expressions : List ClassExpression) :
    componentsEach expressions = expressions.flatMap components := by
  induction expressions with
  | nil => rfl
  | cons expression rest ih => rw [componentsEach, ih, List.flatMap_cons]

end ClassExpression

namespace Annotation

mutual

@[simp] theorem rename_id : ∀ note : Annotation, note.rename id = note
  | ⟨_, _, notes⟩ => by rw [rename, Term.rename_id, renameEach_id notes]

theorem renameEach_id : ∀ notes : List Annotation, renameEach id notes = notes
  | [] => rfl
  | note :: rest => by rw [renameEach, rename_id note, renameEach_id rest]

end

mutual

theorem rename_comp : ∀ note : Annotation,
    (∀ blank, Component.anonymous blank ∈ note.components → g (f blank) = h blank) →
    (note.rename f).rename g = note.rename h
  | ⟨property, value, notes⟩, agree => by
    simp only [rename, renameEach_eq_map, value.rename_comp fun blank same => agree blank (by simp [components, same]),
      rename_compEach notes fun blank member => agree blank (by simp [components, member])]

theorem rename_compEach : ∀ notes : List Annotation,
    (∀ blank, Component.anonymous blank ∈ componentsEach notes → g (f blank) = h blank) →
    (notes.map (rename f)).map (rename g) = notes.map (rename h)
  | [], _ => rfl
  | note :: rest, agree => by
    simp only [List.map_cons, rename_comp note fun blank member => agree blank (List.mem_append_left _ member),
      rename_compEach rest fun blank member => agree blank (List.mem_append_right _ member)]

end

theorem componentsEach_eq (notes : List Annotation) : componentsEach notes = notes.flatMap components := by
  induction notes with
  | nil => rfl
  | cons note rest ih => rw [componentsEach, ih, List.flatMap_cons]

end Annotation

theorem IndividualArgument.rename_comp {argument : IndividualArgument}
    (agree : ∀ blank, Component.anonymous blank ∈ argument.components → g (f blank) = h blank) :
    (argument.rename f).rename g = argument.rename h := by
  cases argument with
  | «variable» => rfl
  | individual node =>
    exact congrArg IndividualArgument.individual (node.rename_comp fun blank same => agree blank (same ▸ List.mem_singleton_self _))

@[simp] theorem IndividualArgument.rename_id (argument : IndividualArgument) : argument.rename id = argument := by
  cases argument with
  | «variable» => rfl
  | individual node => exact congrArg IndividualArgument.individual node.rename_id

@[simp] theorem Atom.rename_id (atom : Atom) : atom.rename id = atom := by cases atom <;> simp [rename]

theorem Atom.rename_comp {atom : Atom} (agree : ∀ blank, Component.anonymous blank ∈ atom.components → g (f blank) = h blank) :
    (atom.rename f).rename g = atom.rename h := by
  cases atom with
  | cls expression argument =>
    simp only [rename, expression.rename_comp fun blank member => agree blank (List.mem_append_left _ member),
      argument.rename_comp fun blank member => agree blank (List.mem_append_right _ member)]
  | dataRange | builtin => rfl
  | objectProperty property subject object =>
    simp only [rename, subject.rename_comp fun blank member => agree blank (by simp [components, member]),
      object.rename_comp fun blank member => agree blank (by simp [components, member])]
  | dataProperty property subject object =>
    simp only [rename, subject.rename_comp fun blank member => agree blank (by simp [components, member])]
  | sameIndividual first second | differentIndividuals first second =>
    simp only [rename, first.rename_comp fun blank member => agree blank (by simp [components, member]),
      second.rename_comp fun blank member => agree blank (by simp [components, member])]

theorem Atom.rename_comp_all {atoms : List Atom}
    (agree : ∀ atom ∈ atoms, ∀ blank, Component.anonymous blank ∈ atom.components → g (f blank) = h blank) :
    (atoms.map (rename f)).map (rename g) = atoms.map (rename h) := by
  rw [List.map_map]
  exact List.map_congr_left fun atom member => atom.rename_comp (agree atom member)

namespace Axiom

@[simp] theorem rename_id (bare : Axiom) : bare.rename id = bare := by
  cases bare <;> simp [rename, Rule.rename, List.map_id'']

theorem rename_comp {bare : Axiom} (agree : ∀ blank, Component.anonymous blank ∈ bare.components → g (f blank) = h blank) :
    (bare.rename f).rename g = bare.rename h := by
  have classes : ∀ {es : List ClassExpression}, (∀ blank, Component.anonymous blank ∈ es.flatMap ClassExpression.components →
      g (f blank) = h blank) → (es.map (ClassExpression.rename f)).map (ClassExpression.rename g) = es.map (ClassExpression.rename h) :=
    fun agree => ClassExpression.rename_compEach _ (by rwa [ClassExpression.componentsEach_eq])
  cases bare with
  | equivalentClasses | disjointClasses => simp only [rename, classes agree]
  | disjointUnion => simp only [rename, classes fun blank member => agree blank (List.mem_cons_of_mem _ member)]
  | subClassOf sub sup =>
    simp only [rename, sub.rename_comp fun blank member => agree blank (List.mem_append_left _ member),
      sup.rename_comp fun blank member => agree blank (List.mem_append_right _ member)]
  | classAssertion cls individual =>
    simp only [rename, cls.rename_comp fun blank member => agree blank (List.mem_append_left _ member),
      individual.rename_comp fun blank same => agree blank (by simp [components, same])]
  | sameIndividual | differentIndividuals => simp only [rename, Node.rename_comp_all agree]
  | objectPropertyAssertion polarity property subject object =>
    simp only [rename, subject.rename_comp fun blank same => agree blank (by simp [components, same]),
      object.rename_comp fun blank same => agree blank (by simp [components, same])]
  | dataPropertyAssertion polarity property subject value =>
    simp only [rename, subject.rename_comp fun blank same => agree blank (by simp [components, same])]
  | objectPropertyDomain property cls | objectPropertyRange property cls | dataPropertyDomain property cls =>
    simp only [rename, cls.rename_comp fun blank member => agree blank (List.mem_cons_of_mem _ member)]
  | hasKey cls objectProperties dataProperties =>
    simp only [rename, cls.rename_comp fun blank member => agree blank
      (List.mem_append_left _ (List.mem_append_left _ member))]
  | rule implication =>
    have inside : ∀ atom ∈ implication.body ++ implication.head, ∀ blank,
        Component.anonymous blank ∈ atom.components → g (f blank) = h blank :=
      fun atom member blank own => agree blank (List.mem_flatMap.mpr ⟨atom, member, own⟩)
    simp only [rename, Rule.rename,
      Atom.rename_comp_all fun atom member => inside atom (List.mem_append_left _ member),
      Atom.rename_comp_all fun atom member => inside atom (List.mem_append_right _ member)]
  | annotationAssertion property subject value =>
    have own : (subject.rename f).rename g = subject.rename h := by
      refine subject.rename_comp fun blank same => agree blank ?_
      cases subject with
      | named => cases same
      | blank => simp [components, Component.annotated, Component.anonymous.inj same]
    simp only [rename, own, value.rename_comp fun blank same => agree blank (by simp [components, same])]
  | _ => rfl

theorem clean_rename (labels : CleanLabels f) {bare : Axiom} (clean : bare.Clean) : (bare.rename f).Clean := by
  cases bare with
  | equivalentClasses | disjointClasses | disjointUnion =>
    exact List.forall_mem_map.mpr fun cls member => cls.clean_rename labels (clean cls member)
  | subClassOf sub sup => exact ⟨sub.clean_rename labels clean.1, sup.clean_rename labels clean.2⟩
  | classAssertion cls | objectPropertyDomain _ cls | objectPropertyRange _ cls | dataPropertyDomain _ cls
  | hasKey cls => exact ClassExpression.clean_rename labels cls clean
  | sameIndividual | differentIndividuals =>
    exact List.forall_mem_map.mpr fun node member => Node.clean_rename (clean node member) labels
  | rule implication =>
    intro atom member
    simp only [Rule.rename, ← List.map_append, List.mem_map] at member
    obtain ⟨original, inside, rfl⟩ := member
    exact Atom.clean_rename labels (clean original inside)
  | _ => trivial

theorem clean_normalize {bare : Axiom} (clean : bare.Clean) : bare.normalize.Clean := by
  cases bare with
  | equivalentClasses classes | disjointClasses classes | disjointUnion _ classes =>
    exact fun cls member => ClassExpression.clean_normalizeEach classes clean cls (mem_of_mem_byText _ member)
  | subClassOf sub sup => exact ⟨sub.clean_normalize clean.1, sup.clean_normalize clean.2⟩
  | classAssertion cls | objectPropertyDomain _ cls | objectPropertyRange _ cls | dataPropertyDomain _ cls
  | hasKey cls => exact ClassExpression.clean_normalize cls clean
  | sameIndividual | differentIndividuals => exact fun node member => clean node (mem_of_mem_byText _ member)
  | rule implication =>
    obtain ⟨inBody, inHead⟩ := List.forall_mem_append.mp clean
    have atoms : ∀ {atoms : List Atom}, (∀ atom ∈ atoms, atom.tree.Clean) → ∀ atom ∈ Atom.canonical atoms, atom.tree.Clean := by
      intro atoms clean atom member
      obtain ⟨original, inside, rfl⟩ := List.mem_map.mp (mem_of_mem_byText _ member)
      exact Atom.clean_normalize (clean original inside)
    exact List.forall_mem_append.mpr ⟨atoms inBody, atoms inHead⟩
  | inverseObjectProperties => rw [normalize]; split <;> trivial
  | _ => trivial

end Axiom

namespace AnnotatedAxiom

/-- Whether the words that order the axiom and its annotations are clean. -/
structure Clean (fact : AnnotatedAxiom) : Prop where
  bare : fact.bare.Clean
  notes : ∀ note ∈ fact.annotations, note.tree.Clean

/-- Whether the axiom is in normal form. -/
def Normal (fact : AnnotatedAxiom) : Prop := of fact.bare fact.annotations = fact

theorem normal_of (bare : Axiom) (notes : List Annotation) : (of bare notes).Normal := by
  simp [Normal, of]

theorem clean_of {bare : Axiom} {notes : List Annotation} (clean : bare.Clean) (neat : ∀ note ∈ notes, note.tree.Clean) :
    (of bare notes).Clean where
  bare := Axiom.clean_normalize clean
  notes note member := Annotation.clean_normalizeEach notes neat note (mem_of_mem_byText _ member)

variable {fact : AnnotatedAxiom}

theorem rename_eq_of (f : BlankNode → BlankNode) (fact : AnnotatedAxiom) :
    fact.rename f = of (fact.bare.rename f) (fact.annotations.map ( Annotation.rename f)) := by
  rw [rename, Annotation.renameEach_eq_map]

theorem rename_id (normal : fact.Normal) : fact.rename id = fact := by
  have notes : fact.annotations.map ( Annotation.rename id) = fact.annotations :=
    (List.map_congr_left fun note _ => note.rename_id).trans (List.map_id' _)
  rw [rename_eq_of, Axiom.rename_id, notes]
  exact normal

theorem notes_comp (agree : ∀ blank, Component.anonymous blank ∈ fact.components → g (f blank) = h blank) :
    (fact.annotations.map ( Annotation.rename f)).map ( Annotation.rename g) = fact.annotations.map ( Annotation.rename h) :=
  Annotation.rename_compEach fact.annotations fun blank member => agree blank (List.mem_append_right _ (by
    rwa [← Annotation.componentsEach_eq]))

/-- Renaming depends on the anonymous individuals of the axiom alone. -/
theorem rename_congr (agree : ∀ blank, Component.anonymous blank ∈ fact.components → f blank = g blank) :
    fact.rename f = fact.rename g := by
  have bare : (fact.bare.rename id).rename f = fact.bare.rename g :=
    Axiom.rename_comp fun blank member => agree blank (List.mem_append_left _ member)
  have notes := notes_comp (f := id) (g := f) agree
  have kept : fact.annotations.map ( Annotation.rename id) = fact.annotations :=
    (List.map_congr_left fun note _ => note.rename_id).trans (List.map_id' _)
  rw [Axiom.rename_id] at bare
  rw [kept] at notes
  rw [rename_eq_of, rename_eq_of, bare, notes]

theorem clean_rename (labels : CleanLabels f) (clean : fact.Clean) : (fact.rename f).Clean := by
  rw [rename_eq_of]
  exact clean_of (Axiom.clean_rename labels clean.bare) ( Annotation.clean_renameEach labels fact.annotations clean.notes)

/-- Two renamings one after the other are one. -/
theorem rename_comp (labels : CleanLabels f) (others : CleanLabels g) (clean : fact.Clean)
    (agree : ∀ blank, Component.anonymous blank ∈ fact.components → g (f blank) = h blank) :
    (fact.rename f).rename g = fact.rename h := by
  have bare : (fact.bare.rename f).rename g = fact.bare.rename h :=
    Axiom.rename_comp fun blank member => agree blank (List.mem_append_left _ member)
  have cleanNotes : ∀ note ∈ fact.annotations.map ( Annotation.rename f), note.tree.Clean :=
    Annotation.clean_renameEach labels fact.annotations clean.notes
  rw [rename_eq_of h, ← bare, ← notes_comp agree]
  simp only [rename_eq_of, of, mk.injEq]
  exact ⟨Axiom.normalize_rename others (Axiom.clean_rename labels clean.bare),
    Annotation.canonical_rename others cleanNotes⟩

theorem rename_back (labels : CleanLabels f) (others : CleanLabels g) (clean : fact.Clean) (normal : fact.Normal)
    (back : ∀ blank, Component.anonymous blank ∈ fact.components → g (f blank) = blank) :
    (fact.rename f).rename g = fact :=
  (rename_comp labels others clean (h := id) back).trans (rename_id normal)

/-- Renaming keeps apart the clean axioms of which it keeps the anonymous individuals apart. -/
theorem rename_injective (labels : CleanLabels f) {nodes : BlankNode → Prop}
    (apart : ∀ a b, nodes a → nodes b → f a = f b → a = b)
    (words : ∀ node, nodes node → (Leaf.word node.text).Clean) {first second : AnnotatedAxiom} (clean : first.Clean)
    (neat : second.Clean) (normal : first.Normal) (regular : second.Normal)
    (left : ∀ blank, Component.anonymous blank ∈ first.components → nodes blank)
    (right : ∀ blank, Component.anonymous blank ∈ second.components → nodes blank)
    (same : first.rename f = second.rename f) : first = second := by
  classical
  -- A way back need not be defined but on the new names; anywhere else it gives what the renaming gives.
  let g : BlankNode → BlankNode := fun name => if found : ∃ node, nodes node ∧ f node = name then found.choose else f name
  have back : ∀ node, nodes node → g (f node) = node := by
    intro node member
    have found : ∃ other, nodes other ∧ f other = f node := ⟨node, member, rfl⟩
    simp only [g, dif_pos found]
    exact apart _ _ found.choose_spec.1 member found.choose_spec.2
  have others : CleanLabels g := by
    intro name
    by_cases found : ∃ node, nodes node ∧ f node = name
    · simp only [g, dif_pos found]
      exact words _ found.choose_spec.1
    · simp only [g, dif_neg found]
      exact labels name
  calc first = (first.rename f).rename g :=
        (rename_back labels others clean normal fun blank member => back blank (left blank member)).symm
    _ = (second.rename f).rename g := by rw [same]
    _ = second := rename_back labels others neat regular fun blank member => back blank (right blank member)

end AnnotatedAxiom

end OwlGraph
