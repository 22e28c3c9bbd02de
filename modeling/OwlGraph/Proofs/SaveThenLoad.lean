import OwlGraph.Proofs.SavedOntology

/-! What comes back of an ontology that is saved and loaded: all of its axioms if no triples stand for
one of them piece by piece, and in any case its characteristics of properties and its rules. The order
of the triples plays no part. -/

namespace OwlGraph

namespace Loaded.Recalls

variable {loaded : Loaded} {ontology : Ontology} {rename : BlankNode → BlankNode} (recalls : loaded.Recalls ontology rename)
include recalls

/-- An axiom that is its own only piece comes back with its annotations. -/
theorem mem_axioms {own : AnnotatedAxiom} (member : own ∈ ontology.axioms) (whole : own.bare.pieces = [own.bare]) :
    own.rename rename ∈ loaded.ontology.axioms :=
  (recalls.facts _).mpr ⟨own, member, own.bare, whole ▸ List.mem_singleton_self _, rfl⟩

/-- If every axiom is its own only piece, the axioms are the same ones. -/
theorem axioms_iff (whole : ∀ own ∈ ontology.axioms, own.bare.pieces = [own.bare]) (fact : AnnotatedAxiom) :
    fact ∈ loaded.ontology.axioms ↔ ∃ own ∈ ontology.axioms, own.rename rename = fact := by
  constructor
  · intro member
    obtain ⟨own, present, piece, part, rfl⟩ := (recalls.facts fact).mp member
    rw [whole own present] at part
    exact ⟨own, present, by rw [List.mem_singleton.mp part]⟩
  · rintro ⟨own, present, rfl⟩
    exact recalls.mem_axioms present (whole own present)

end Loaded.Recalls

theorem Axiom.kind_normalize (bare : Axiom) : bare.normalize.kind = bare.kind := by
  cases bare with
  | inverseObjectProperties => rw [normalize]; split <;> rfl
  | _ => rfl

namespace Samples

def onlyChildren : List Annotation := [⟨Rdfs.comment, .literal (.simple "only children"), []⟩]

/-- Somebody who is a parent is the parent of a person. -/
def parenthood : Rule :=
  ⟨[.objectProperty (.named ⟨"ex:parent"⟩) (.variable ⟨"ex:x"⟩) (.individual (.blank ⟨"someone"⟩))],
    [.cls (.objectValues .some (.inverse ⟨"ex:parent"⟩) (.named ⟨"ex:Person"⟩)) (.individual (.blank ⟨"someone"⟩))]⟩

/-- The inverse of a property is functional, a rule is about both, and somebody is not the parent of Ann. -/
def familyFacts : List AnnotatedAxiom :=
  [⟨.declaration ⟨.objectProperty, ⟨"ex:parent"⟩⟩, []⟩,
    ⟨.characteristic .functional (.inverse ⟨"ex:parent"⟩), onlyChildren⟩,
    ⟨.rule parenthood, []⟩,
    ⟨.objectPropertyAssertion .negative (.named ⟨"ex:parent"⟩) (.named ⟨"ex:Ann"⟩) (.blank ⟨"someone"⟩), []⟩]

def family : Ontology where
  id := .named ⟨"ex:family"⟩ none
  imports := [⟨"ex:base"⟩]
  annotations := [⟨Rdfs.label, .literal (.simple "family"), []⟩]
  index := familyFacts.foldl AxiomIndex.insert {}

theorem axioms_family : family.axioms = familyFacts := by
  have distinct : familyFacts.Nodup := by decide
  exact (AxiomIndex.foldl_insert AxiomIndex.sound_empty rfl distinct).2.2

theorem mem_family {fact : AnnotatedAxiom} : fact ∈ family.axioms ↔ fact ∈ familyFacts := by rw [axioms_family]

/-- All that occurs in the family. -/
def familyComponents : List Component :=
  [.objectProperty ⟨"ex:parent"⟩, .annotationProperty Rdfs.comment, .annotationProperty Rdfs.label, .datatype Xsd.string,
    .cls ⟨"ex:Person"⟩, .individual (.named ⟨"ex:Ann"⟩), .anonymous ⟨"someone"⟩]

theorem components_family : ∀ component ∈ family.components, component ∈ familyComponents := by
  rw [Ontology.components, axioms_family, family]
  decide

/-- The entities of the family that are not built in. -/
def familyEntities : List Entity := [⟨.objectProperty, ⟨"ex:parent"⟩⟩, ⟨.cls, ⟨"ex:Person"⟩⟩, ⟨.namedIndividual, ⟨"ex:Ann"⟩⟩]

theorem stands_family {entity : Entity} (stands : family.Stands entity) :
    entity ∈ familyEntities ∨ entity.kind.isBuiltin entity.iri = true := by
  have known : ∀ component ∈ familyComponents, ∀ entity ∈ component.entity?,
      entity ∈ familyEntities ∨ entity.kind.isBuiltin entity.iri = true := by decide
  exact stands.elim .inr fun member => known _ (components_family _ member) entity rfl

theorem property_family {kind : PropertyKind} {iri : Iri} (stands : family.Stands ⟨kind.entityKind, iri⟩) :
    kind = .object ∧ iri = ⟨"ex:parent"⟩ ∨ kind.entityKind.isBuiltin iri = true := by
  refine (stands_family stands).imp_left fun member => ?_
  cases kind <;> simp [familyEntities, PropertyKind.entityKind] at member ⊢
  exact member

theorem family_clean : (∀ fact ∈ family.axioms, fact.Clean) ∧ ∀ node ∈ family.blanks, (Leaf.word node.text).Clean := by
  have someone : (Leaf.word (BlankNode.text ⟨"someone"⟩)).Clean := Colouring.clean_label (by simp [isBreak])
  have words : ∀ node ∈ family.blanks, (Leaf.word node.text).Clean := by
    intro node member
    have known : ∀ component ∈ familyComponents, ∀ node ∈ component.anonymous?, node = ⟨"someone"⟩ := by decide
    rw [known _ (components_family _ (Ontology.mem_blanks.mp member)) node rfl]
    exact someone
  have note : ∀ note ∈ onlyChildren, note.tree.Clean := by
    simp [onlyChildren, Annotation.tree, Annotation.trees, clean_node, clean_single, Leaf.Clean, Term.leaf, Rdfs.comment, Rdfs.iri, Rdfs.namespaceIri]
  have rule : (Axiom.rule parenthood).Clean := by
    simpa [parenthood, Axiom.Clean, Atom.tree, IndividualArgument.tree, Rule.variableTree, PropertyExpression.tree, ClassExpression.tree,
      Node.leaf, clean_node, clean_single, Leaf.Clean] using someone
  rw [axioms_family]
  refine ⟨?_, words⟩
  simp only [familyFacts, List.forall_mem_cons]
  exact ⟨⟨trivial, List.forall_mem_nil _⟩, ⟨trivial, note⟩, ⟨rule, List.forall_mem_nil _⟩, ⟨trivial, List.forall_mem_nil _⟩,
    List.forall_mem_nil _⟩

theorem facts_family : ∀ fact ∈ familyFacts, fact.Saveable 1 := by
  have aside : Annotation.DistinctEach onlyChildren := by simp [onlyChildren, Annotation.DistinctEach, Annotation.Distinct]
  have rule : (Axiom.rule parenthood).Sound 1 := by
    simp [parenthood, Axiom.Sound, Rule.Conjunction, Atom.WellFormed, ClassExpression.WellFormed, PropertyExpression.isNamed]
  have each : ∀ fact ∈ familyFacts, fact.bare.Sound 1 ∧ fact.bare.Related ∧ fact.bare.Fitting ∧ Annotation.DistinctEach fact.annotations := by
    simp only [familyFacts, List.forall_mem_cons]
    exact ⟨⟨trivial, trivial, trivial, trivial⟩, ⟨trivial, trivial, trivial, aside⟩, ⟨rule, trivial, trivial, trivial⟩,
      ⟨trivial, trivial, trivial, trivial⟩, List.forall_mem_nil _⟩
  have fixed : ∀ fact ∈ familyFacts, fact.bare.arity? = none := by decide
  have seen : ∀ fact ∈ familyFacts, fact.bare.isHidden = true → fact.annotations ≠ [] := by decide
  intro fact member
  obtain ⟨sound, related, fitting, distinct⟩ := each fact member
  refine ⟨⟨sound, fun count same => ?_⟩, related, fitting, seen fact member, distinct⟩
  rw [fixed fact member] at same
  cases same

theorem family_saveable : family.Saveable 1 where
  facts fact member := facts_family fact (mem_family.mp member)
  distinct := by simp [family, Annotation.DistinctEach, Annotation.Distinct]
  single iri a b first second := by
    have parent (kind : PropertyKind) : kind.entityKind.isBuiltin ⟨"ex:parent"⟩ = false := by cases kind <;> decide
    rcases property_family first with ⟨rfl, rfl⟩ | one <;> rcases property_family second with ⟨rfl, same⟩ | two
    · rfl
    · rw [parent] at two
      cases two
    · rw [same, parent] at one
      cases one
    · exact Iri.single_builtin one two
  apart iri cls datatype := by
    have known : iri.isBuiltinDatatype = true := (stands_family datatype).resolve_left (by simp [familyEntities])
    have person : (⟨"ex:Person"⟩ : Iri).isBuiltinDatatype = false := by decide
    rcases stands_family cls with member | builtin
    · simp only [familyEntities, List.mem_cons, Entity.mk.injEq, reduceCtorEq, false_and, true_and, List.not_mem_nil, or_false, false_or] at member
      rw [member, person] at known
      cases known
    · rw [Iri.not_datatype_of_class builtin] at known
      cases known
  plain := by
    have known : ∀ component ∈ familyComponents, ∀ entity ∈ component.entity?, entity.kind = .annotationProperty → entity.iri.isPlain = true := by
      decide
    exact fun iri member => known _ (components_family _ member) ⟨.annotationProperty, iri⟩ rfl rfl
  told kind iri member := by
    rcases property_family (.inr member) with ⟨rfl, rfl⟩ | builtin
    · exact .inr ⟨⟨.declaration ⟨.objectProperty, ⟨"ex:parent"⟩⟩, []⟩, mem_family.mpr List.mem_cons_self, rfl⟩
    · exact .inl builtin
  defined := by
    rw [axioms_family]
    simp [familyFacts]
  undeclared fact member entity same := by
    have declared : ∀ fact ∈ familyFacts, fact.bare.kind = .declaration → fact.bare = .declaration ⟨.objectProperty, ⟨"ex:parent"⟩⟩ := by decide
    have known := declared fact (mem_family.mp member) (by rw [same]; rfl)
    rw [Axiom.declaration.inj (same.symm.trans known)]
    decide
  constant iri named member := by
    have known : ∀ fact ∈ familyFacts, ∀ iri ∈ fact.bare.variableNames, .entity ⟨.namedIndividual, iri⟩ ∉ familyComponents := by decide
    obtain ⟨fact, present, inside⟩ := named
    exact known fact (mem_family.mp present) iri inside (components_family _ member)
  named iri same := by
    have unnamed : ∀ fact ∈ familyFacts, ⟨"ex:family"⟩ ∉ fact.bare.variableNames := by decide
    have elsewhere : ∀ fact ∈ familyFacts, ∀ component ∈ fact.bare.components, component.iri? ≠ some ⟨"ex:family"⟩ := by decide
    obtain rfl : (⟨"ex:family"⟩ : Iri) = iri := Option.some.inj same
    refine ⟨?_, fun fact member => elsewhere fact (mem_family.mp member)⟩
    rintro ⟨fact, member, inside⟩
    have known := mem_family.mp member
    exact unnamed fact known inside
  clean _ := family_clean
  separated := by
    have different : ∀ one ∈ familyFacts, ∀ two ∈ familyFacts, one.annotations = [] → two.annotations ≠ [] →
        one.bare.kind ≠ two.bare.kind := by
      simp [familyFacts, Axiom.kind]
    rw [axioms_family]
    intro one first two second none some piece part other sort _ same
    refine different one first two second none some ?_
    rw [← Axiom.kind_of_piece (Axiom.hasPiece_of_mem part), ← Axiom.kind_of_piece (Axiom.hasPiece_of_mem sort),
      ← Axiom.kind_normalize piece, same, Axiom.kind_normalize]

/-- The triples may come in the opposite order, and lists of one element are enough. -/
theorem family_saved : family.Saved family.supply { strict := true, maxListLength := 1 } family.triples.reverse where
  saveable := family_saveable
  distinct _ _ := Supply.avoiding_injective
  fresh := Supply.avoiding_not_mem _
  same _ := List.mem_reverse.trans List.mem_eraseDups
  uncancelled := rfl

end Samples

variable {ontology : Ontology} {supply : Nat → BlankNode} {config : Config} {graph : List Triple}

/-- Saving and loading gives the ontology back. The triples may come in any order. The load is without a problem, and up to the
labels of the anonymous individuals the header is the same and the axioms are the pieces of those that were saved, with their
annotations. These are the very axioms if each is its own only piece. -/
theorem saved_ontology_returns (saved : ontology.Saved supply config graph) (number : Nat) (document : Option Iri) :
    ∃ loaded, loadTriples config number document graph = .ok loaded ∧ ∃ rename : BlankNode → BlankNode, Function.Injective rename ∧
      loaded.Recalls ontology rename ∧ ((∀ own ∈ ontology.axioms, own.bare.pieces = [own.bare]) →
        ∀ fact, fact ∈ loaded.ontology.axioms ↔ ∃ own ∈ ontology.axioms, own.rename rename = fact) := by
  obtain ⟨loaded, run, recalls⟩ := loadTriples_of_saved saved number document
  exact ⟨loaded, run, freshLabel number graph, freshLabel_injective, recalls, recalls.axioms_iff⟩

theorem saved_ontology_returns_family :
    Samples.family.Saved Samples.family.supply { strict := true, maxListLength := 1 } Samples.family.triples.reverse ∧
    ∃ loaded, loadTriples { strict := true, maxListLength := 1 } 7 none Samples.family.triples.reverse = .ok loaded ∧
      ∃ rename : BlankNode → BlankNode, Function.Injective rename ∧ loaded.Recalls Samples.family rename ∧
        ∀ fact, fact ∈ loaded.ontology.axioms ↔ ∃ own ∈ Samples.familyFacts, own.rename rename = fact := by
  obtain ⟨loaded, run, rename, injective, recalls, same⟩ := saved_ontology_returns Samples.family_saved 7 none
  have whole : ∀ own ∈ Samples.familyFacts, own.bare.pieces = [own.bare] := by decide
  rw [Samples.axioms_family] at same
  exact ⟨Samples.family_saved, loaded, run, rename, injective, recalls, same whole⟩

/-- Characteristics of properties come back, those of inverse properties too if they are annotated. -/
theorem saved_characteristics_return (saved : ontology.Saved supply config graph) (number : Nat) (document : Option Iri) :
    ∃ loaded, loadTriples config number document graph = .ok loaded ∧ loaded.reports = [] ∧
      ∃ rename : BlankNode → BlankNode, Function.Injective rename ∧ ∀ trait property notes,
        ⟨.characteristic trait property, notes⟩ ∈ ontology.axioms →
          .of (.characteristic trait property) (notes.map ( Annotation.rename rename)) ∈ loaded.ontology.axioms := by
  obtain ⟨loaded, run, recalls⟩ := loadTriples_of_saved saved number document
  refine ⟨loaded, run, recalls.reports, freshLabel number graph, freshLabel_injective, fun trait property notes member => ?_⟩
  have back := recalls.mem_axioms member rfl
  rwa [AnnotatedAxiom.rename_eq_of] at back

theorem saved_characteristics_return_family :
    Samples.family.Saved Samples.family.supply { strict := true, maxListLength := 1 } Samples.family.triples.reverse ∧
    ∃ loaded, loadTriples { strict := true, maxListLength := 1 } 7 none Samples.family.triples.reverse = .ok loaded ∧
      loaded.reports = [] ∧ .of (.characteristic .functional (.inverse ⟨"ex:parent"⟩)) Samples.onlyChildren ∈ loaded.ontology.axioms := by
  obtain ⟨loaded, run, clear, rename, -, back⟩ := saved_characteristics_return Samples.family_saved 7 none
  rw [Samples.axioms_family] at back
  have kept : Samples.onlyChildren.map ( Annotation.rename rename) = Samples.onlyChildren := rfl
  have returned := back .functional (.inverse ⟨"ex:parent"⟩) Samples.onlyChildren (List.mem_cons_of_mem _ List.mem_cons_self)
  rw [kept] at returned
  exact ⟨Samples.family_saved, loaded, run, clear, returned⟩

/-- Rules whose atoms are about named properties come back, atom by atom. -/
theorem saved_rules_return (saved : ontology.Saved supply config graph) (number : Nat) (document : Option Iri) :
    ∃ loaded, loadTriples config number document graph = .ok loaded ∧ loaded.reports = [] ∧
      ∃ rename : BlankNode → BlankNode, Function.Injective rename ∧ ∀ (implication : Rule) notes,
        ⟨.rule implication, notes⟩ ∈ ontology.axioms →
          .of (.rule (implication.rename rename)) (notes.map ( Annotation.rename rename)) ∈ loaded.ontology.axioms := by
  obtain ⟨loaded, run, recalls⟩ := loadTriples_of_saved saved number document
  refine ⟨loaded, run, recalls.reports, freshLabel number graph, freshLabel_injective, fun implication notes member => ?_⟩
  have back := recalls.mem_axioms member rfl
  rwa [AnnotatedAxiom.rename_eq_of] at back

theorem saved_rules_return_family :
    Samples.family.Saved Samples.family.supply { strict := true, maxListLength := 1 } Samples.family.triples.reverse ∧
    ∃ loaded, loadTriples { strict := true, maxListLength := 1 } 7 none Samples.family.triples.reverse = .ok loaded ∧
      loaded.reports = [] ∧ ∃ rename : BlankNode → BlankNode, Function.Injective rename ∧
        .of (.rule (Samples.parenthood.rename rename)) [] ∈ loaded.ontology.axioms := by
  obtain ⟨loaded, run, clear, rename, injective, back⟩ := saved_rules_return Samples.family_saved 7 none
  refine ⟨Samples.family_saved, loaded, run, clear, rename, injective, back Samples.parenthood [] ?_⟩
  rw [Samples.axioms_family]
  exact List.mem_cons_of_mem _ (List.mem_cons_of_mem _ List.mem_cons_self)

/-- The labels are clean if those of the nodes are. -/
theorem clean_freshLabel {number : Nat} {node : BlankNode} (words : (Leaf.word node.text).Clean) :
    (Leaf.word (freshLabel number graph node).text).Clean := by
  by_cases member : node ∈ blankNodes graph
  · have same : (World.ofTriples {} number graph fun _ => False).anonymous node = freshLabel number graph node :=
      World.anonymous_ofTriples member
    rw [← same]
    exact World.cleanLabels_anonymous _ node
  · have shape : ("x" ++ node.label).toList = 'x' :: node.label.toList := by simp
    rw [freshLabel, if_neg member]
    refine Colouring.clean_label ?_
    rw [shape, List.forall_mem_cons]
    exact ⟨by decide, fun c inside => words.1 c (by simp [BlankNode.text, inside])⟩

theorem Ontology.Saved.perm {other : List Triple} (saved : ontology.Saved supply config graph) (order : other.Perm graph) :
    ontology.Saved supply config other where
  saveable := saved.saveable
  distinct := saved.distinct
  fresh := saved.fresh
  same triple := order.mem_iff.trans (saved.same triple)
  uncancelled := saved.uncancelled

/-- The individuals of what comes back of an axiom are individuals of the ontology. -/
theorem Ontology.mem_blanks_of_piece {own : AnnotatedAxiom} (member : own ∈ ontology.axioms) {piece : Axiom} (part : piece ∈ own.bare.pieces)
    {node : BlankNode} (inside : .anonymous node ∈ (⟨piece, own.annotations⟩ : AnnotatedAxiom).components) : node ∈ ontology.blanks := by
  refine mem_blanks.mpr ?_
  rcases List.mem_append.mp inside with bare | note
  · exact mem_components_of_bare member (Axiom.components_of_piece (Axiom.hasPiece_of_mem part) _ bare)
  · exact mem_components_of_note member ( Annotation.componentsEach_eq _ ▸ note)

section Orders

variable {loaded : Loaded} {f g rename : BlankNode → BlankNode}

/-- Clean labels may be exchanged for others, one by one. -/
theorem exists_exchange (injective : Function.Injective f) (words : ∀ node ∈ ontology.blanks, (Leaf.word (g node).text).Clean) :
    ∃ rename, CleanLabels rename ∧ ∀ node ∈ ontology.blanks, rename (f node) = g node := by
  have back (node : BlankNode) : g (Function.invFun f (f node)) = g node := congrArg g (Function.leftInverse_invFun injective node)
  -- Off the individuals the labels may be of any form, so they give way to clean ones there.
  obtain ⟨rename, labels, agree⟩ := @Colouring.exists_cleanLabels (g ∘ Function.invFun f) (f '' {node | node ∈ ontology.blanks}) (by
    rintro _ ⟨node, member, rfl⟩
    rw [Function.comp_apply, back]
    exact words node member)
  exact ⟨rename, labels, fun node member => (agree _ ⟨node, member, rfl⟩).trans (back node)⟩

variable (clean : ∀ fact ∈ ontology.axioms, fact.Clean) (words : ∀ node ∈ ontology.blanks, (Leaf.word (f node).text).Clean)
  {own : AnnotatedAxiom} (member : own ∈ ontology.axioms) {piece : Axiom} (part : piece ∈ own.bare.pieces)
include clean words member part

/-- A piece whose individuals are labelled anew is one that is labelled by clean words. -/
private theorem exists_relabelled : ∃ clear, CleanLabels clear ∧ AnnotatedAxiom.Clean ⟨piece, own.annotations⟩ ∧
    (∀ node, .anonymous node ∈ (⟨piece, own.annotations⟩ : AnnotatedAxiom).components → clear node = f node) ∧
    AnnotatedAxiom.rename f ⟨piece, own.annotations⟩ = AnnotatedAxiom.rename clear ⟨piece, own.annotations⟩ := by
  obtain ⟨clear, labels, agree⟩ := exists_exchange (f := id) Function.injective_id words
  have same (node : BlankNode) (inside : .anonymous node ∈ (⟨piece, own.annotations⟩ : AnnotatedAxiom).components) : clear node = f node :=
    agree node (Ontology.mem_blanks_of_piece member part inside)
  refine ⟨clear, labels, ⟨?_, (clean own member).notes⟩, same, AnnotatedAxiom.rename_congr fun node inside => (same node inside).symm⟩
  exact Axiom.clean_of_piece (Axiom.hasPiece_of_mem part) (clean own member).bare

/-- The individuals of a piece that is labelled anew are those of the ontology. -/
theorem exists_original {name : BlankNode} (inside : .anonymous name ∈ (AnnotatedAxiom.rename f ⟨piece, own.annotations⟩).components) :
    ∃ node ∈ ontology.blanks, f node = name := by
  obtain ⟨clear, labels, tidy, agree, same⟩ := exists_relabelled clean words member part
  rw [same] at inside
  obtain ⟨node, within, rfl⟩ := (AnnotatedAxiom.anonymous_rename labels tidy).mp inside
  exact ⟨node, Ontology.mem_blanks_of_piece member part within, (agree node within).symm⟩

theorem rename_relabelled (others : CleanLabels rename) (step : ∀ node ∈ ontology.blanks, rename (f node) = g node) :
    (AnnotatedAxiom.rename f ⟨piece, own.annotations⟩).rename rename = AnnotatedAxiom.rename g ⟨piece, own.annotations⟩ := by
  obtain ⟨clear, labels, tidy, agree, same⟩ := exists_relabelled clean words member part
  rw [same]
  refine AnnotatedAxiom.rename_comp labels others tidy fun node inside => ?_
  rw [agree node inside, step node (Ontology.mem_blanks_of_piece member part inside)]

end Orders

/-- The order of the triples of a saved ontology does not matter. In every order they are loaded without a problem and give the
same header and the same axioms, up to an injective renaming of the individuals. -/
theorem saved_order_irrelevant {other : List Triple} (saved : ontology.Saved supply config graph) (order : other.Perm graph)
    (clean : ∀ fact ∈ ontology.axioms, fact.Clean) (words : ∀ node ∈ ontology.blanks, (Leaf.word node.text).Clean)
    (number again : Nat) (document : Option Iri) :
    ∃ first second, loadTriples config number document graph = .ok first ∧ loadTriples config again document other = .ok second ∧
      ∃ a b rename : BlankNode → BlankNode, first.Recalls ontology a ∧ second.Recalls ontology b ∧
        (∀ node ∈ ontology.blanks, rename (a node) = b node) ∧ Set.InjOn rename first.ontology.inhabitants ∧
        ∀ fact, fact ∈ second.ontology.axioms ↔ ∃ own ∈ first.ontology.axioms, own.rename rename = fact := by
  obtain ⟨first, run, recalls⟩ := loadTriples_of_saved saved number document
  obtain ⟨second, rerun, recalls'⟩ := loadTriples_of_saved (saved.perm order) again document
  have fresh {count : Nat} {triples : List Triple} (node : BlankNode) (member : node ∈ ontology.blanks) :
      (Leaf.word (freshLabel count triples node).text).Clean := clean_freshLabel (words node member)
  obtain ⟨rename, labels, step⟩ := exists_exchange (f := freshLabel number graph) (g := freshLabel again other) freshLabel_injective fresh
  refine ⟨first, second, run, rerun, freshLabel number graph, freshLabel again other, rename, recalls, recalls', step, ?_, fun fact => ?_⟩
  · have own : ∀ name ∈ first.ontology.inhabitants, ∃ node ∈ ontology.blanks, freshLabel number graph node = name := by
      rintro name ⟨fact, member, inside⟩
      obtain ⟨own, present, piece, part, rfl⟩ := (recalls.facts fact).mp member
      exact exists_original clean fresh present part inside
    intro one left two right same
    obtain ⟨node, known, rfl⟩ := own one left
    obtain ⟨node', known', rfl⟩ := own two right
    rw [step _ known, step _ known'] at same
    rw [freshLabel_injective same]
  · rw [recalls'.facts]
    constructor
    · rintro ⟨own, member, piece, part, rfl⟩
      exact ⟨_, (recalls.facts _).mpr ⟨own, member, piece, part, rfl⟩, rename_relabelled clean fresh member part labels step⟩
    · rintro ⟨_, member, rfl⟩
      obtain ⟨own, present, piece, part, rfl⟩ := (recalls.facts _).mp member
      exact ⟨own, present, piece, part, rename_relabelled clean fresh present part labels step⟩

theorem saved_order_irrelevant_family :
    (Samples.family.Saved Samples.family.supply { strict := true, maxListLength := 1 } Samples.family.triples.reverse ∧
      Samples.family.triples.Perm Samples.family.triples.reverse ∧ (∀ fact ∈ Samples.family.axioms, fact.Clean) ∧
      ∀ node ∈ Samples.family.blanks, (Leaf.word node.text).Clean) ∧
    ∃ first second, loadTriples { strict := true, maxListLength := 1 } 7 none Samples.family.triples.reverse = .ok first ∧
      loadTriples { strict := true, maxListLength := 1 } 3 none Samples.family.triples = .ok second ∧
      ∃ rename : BlankNode → BlankNode, Set.InjOn rename first.ontology.inhabitants ∧
        ∀ fact, fact ∈ second.ontology.axioms ↔ ∃ own ∈ first.ontology.axioms, own.rename rename = fact := by
  obtain ⟨clean, words⟩ := Samples.family_clean
  have order : Samples.family.triples.Perm Samples.family.triples.reverse := (List.reverse_perm _).symm
  obtain ⟨first, second, run, rerun, _, _, rename, -, -, -, injective, same⟩ :=
    saved_order_irrelevant Samples.family_saved order clean words 7 3 none
  exact ⟨⟨Samples.family_saved, order, clean, words⟩, first, second, run, rerun, rename, injective, same⟩

end OwlGraph
