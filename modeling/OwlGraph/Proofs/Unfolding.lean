import OwlGraph.Proofs.DepthLimit
import OwlGraph.Proofs.ListSpine
import OwlGraph.Proofs.PatternReading

/-! What a reading gives unfolds the graph from the term that was read. It was found along ways into
the graph on which no node comes twice: a blank node is gone into only where the way has not passed
it yet, and the parts of what it stands for are found further on. -/

namespace OwlGraph

/-- The node has a list of these elements for a value of the predicate. -/
def Lists (graph : List Triple) (node : Node) (predicate : Iri) (elements : List Term) : Prop :=
  ∃ head nodes, (⟨node, predicate, head⟩ : Triple) ∈ graph ∧ Spine graph head nodes elements

/-- The data range that the term stands for when a way that passed the nodes of the path comes to it. -/
inductive DataRange.Unfolds (graph : List Triple) : List Node → Term → DataRange → Prop
  | datatype (path : List Node) (iri : Iri) : Unfolds graph path iri (.datatype iri)
  | combination {path : List Node} {node : BlankNode} {junction : Junction} {elements : List Term} {operands : List DataRange}
      (fresh : .blank node ∉ path) (lists : Lists graph node junction.predicate elements)
      (count : elements.length = operands.length)
      (parts : ∀ part ∈ elements.zip operands, Unfolds graph (node :: path) part.1 part.2) :
      Unfolds graph path node (.combination junction operands)
  | complement {path : List Node} {node : BlankNode} {element : Term} {operand : DataRange} (fresh : .blank node ∉ path)
      (value : (⟨node, Owl.datatypeComplementOf, element⟩ : Triple) ∈ graph)
      (part : Unfolds graph (node :: path) element operand) : Unfolds graph path node (.complement operand)
  | oneOf {path : List Node} {node : BlankNode} {head : Term} (fresh : .blank node ∉ path)
      (value : (⟨node, Owl.oneOf, head⟩ : Triple) ∈ graph) (values : List Literal) : Unfolds graph path node (.oneOf values)
  | restriction {path : List Node} {node : BlankNode} {head : Term} (fresh : .blank node ∉ path)
      (value : (⟨node, Owl.withRestrictions, head⟩ : Triple) ∈ graph) (base : Iri) (facets : List FacetRestriction) :
      Unfolds graph path node (.restriction base facets)

/-- The class expression that the term stands for when a way that passed the nodes of the path comes to
it. -/
inductive ClassExpression.Unfolds (graph : List Triple) : List Node → Term → ClassExpression → Prop
  | named (path : List Node) (iri : Iri) : Unfolds graph path iri (.named iri)
  | combination {path : List Node} {node : BlankNode} {junction : Junction} {elements : List Term} {operands : List ClassExpression}
      (fresh : .blank node ∉ path) (lists : Lists graph node junction.predicate elements)
      (count : elements.length = operands.length)
      (parts : ∀ part ∈ elements.zip operands, Unfolds graph (node :: path) part.1 part.2) :
      Unfolds graph path node (.combination junction operands)
  | complement {path : List Node} {node : BlankNode} {element : Term} {operand : ClassExpression} (fresh : .blank node ∉ path)
      (value : (⟨node, Owl.complementOf, element⟩ : Triple) ∈ graph)
      (part : Unfolds graph (node :: path) element operand) : Unfolds graph path node (.complement operand)
  | oneOf {path : List Node} {node : BlankNode} {head : Term} (fresh : .blank node ∉ path)
      (value : (⟨node, Owl.oneOf, head⟩ : Triple) ∈ graph) (individuals : List Individual) :
      Unfolds graph path node (.oneOf individuals)
  | objectValues {path : List Node} {node : BlankNode} {quantifier : Quantifier} {element : Term} {filler : ClassExpression}
      (fresh : .blank node ∉ path) (value : (⟨node, quantifier.predicate, element⟩ : Triple) ∈ graph)
      (part : Unfolds graph (node :: path) element filler) (property : PropertyExpression) :
      Unfolds graph path node (.objectValues quantifier property filler)
  | objectHasValue {path : List Node} {node : BlankNode} {element : Term} (fresh : .blank node ∉ path)
      (value : (⟨node, Owl.hasValue, element⟩ : Triple) ∈ graph) (property : PropertyExpression) (individual : Individual) :
      Unfolds graph path node (.objectHasValue property individual)
  | hasSelf {path : List Node} {node : BlankNode} {element : Term} (fresh : .blank node ∉ path)
      (value : (⟨node, Owl.hasSelf, element⟩ : Triple) ∈ graph) (property : PropertyExpression) :
      Unfolds graph path node (.hasSelf property)
  | objectCardinality {path : List Node} {node : BlankNode} {bound : Bound} {element : Term} (fresh : .blank node ∉ path)
      (value : (⟨node, bound.predicate, element⟩ : Triple) ∈ graph) (cardinality : UInt32) (property : PropertyExpression) :
      Unfolds graph path node (.objectCardinality bound cardinality property none)
  | qualifiedObject {path : List Node} {node : BlankNode} {element : Term} {filler : ClassExpression}
      (fresh : .blank node ∉ path) (value : (⟨node, Owl.onClass, element⟩ : Triple) ∈ graph)
      (part : Unfolds graph (node :: path) element filler) (bound : Bound) (cardinality : UInt32) (property : PropertyExpression) :
      Unfolds graph path node (.objectCardinality bound cardinality property (some filler))
  | dataValues {path : List Node} {node : BlankNode} {quantifier : Quantifier} {element : Term} {filler : DataRange}
      (fresh : .blank node ∉ path) (value : (⟨node, quantifier.predicate, element⟩ : Triple) ∈ graph)
      (part : filler.Unfolds graph (node :: path) element) (property : Iri) :
      Unfolds graph path node (.dataValues quantifier property filler)
  | dataHasValue {path : List Node} {node : BlankNode} {element : Term} (fresh : .blank node ∉ path)
      (value : (⟨node, Owl.hasValue, element⟩ : Triple) ∈ graph) (property : Iri) (literal : Literal) :
      Unfolds graph path node (.dataHasValue property literal)
  | dataCardinality {path : List Node} {node : BlankNode} {bound : Bound} {element : Term} (fresh : .blank node ∉ path)
      (value : (⟨node, bound.predicate, element⟩ : Triple) ∈ graph) (cardinality : UInt32) (property : Iri) :
      Unfolds graph path node (.dataCardinality bound cardinality property none)
  | qualifiedData {path : List Node} {node : BlankNode} {element : Term} {filler : DataRange}
      (fresh : .blank node ∉ path) (value : (⟨node, Owl.onDataRange, element⟩ : Triple) ∈ graph)
      (part : filler.Unfolds graph (node :: path) element) (bound : Bound) (cardinality : UInt32) (property : Iri) :
      Unfolds graph path node (.dataCardinality bound cardinality property (some filler))

theorem ClassExpression.Unfolds.fresh {graph : List Triple} {path : List Node} {node : BlankNode} {expression : ClassExpression}
    (unfolds : expression.Unfolds graph path node) : .blank node ∉ path := by
  cases unfolds <;> assumption

/-- The atom that the term stands for. Atoms are no parts of atoms, but of classes and of data. -/
inductive Atom.Unfolds (graph : List Triple) : List Node → Term → Atom → Prop
  | cls {path : List Node} {node : Node} {element : Term} {expression : ClassExpression} (fresh : node ∉ path)
      (value : (⟨node, Swrl.classPredicate, element⟩ : Triple) ∈ graph)
      (part : expression.Unfolds graph (node :: path) element) (argument : IndividualArgument) :
      Unfolds graph path node (.cls expression argument)
  | dataRange {path : List Node} {node : Node} {element : Term} {range : DataRange} (fresh : node ∉ path)
      (value : (⟨node, Swrl.dataRange, element⟩ : Triple) ∈ graph)
      (part : range.Unfolds graph (node :: path) element) (argument : DataArgument) :
      Unfolds graph path node (.dataRange range argument)
  | objectProperty {path : List Node} {node : Node} {element : Term} (fresh : node ∉ path)
      (value : (⟨node, Swrl.propertyPredicate, element⟩ : Triple) ∈ graph) (property : PropertyExpression)
      (subject object : IndividualArgument) : Unfolds graph path node (.objectProperty property subject object)
  | dataProperty {path : List Node} {node : Node} {element : Term} (fresh : node ∉ path)
      (value : (⟨node, Swrl.propertyPredicate, element⟩ : Triple) ∈ graph) (property : Iri) (subject : IndividualArgument)
      (object : DataArgument) : Unfolds graph path node (.dataProperty property subject object)
  | sameIndividual {path : List Node} {node : Node} {element : Term} (fresh : node ∉ path)
      (value : (⟨node, Swrl.argument1, element⟩ : Triple) ∈ graph) (first second : IndividualArgument) :
      Unfolds graph path node (.sameIndividual first second)
  | differentIndividuals {path : List Node} {node : Node} {element : Term} (fresh : node ∉ path)
      (value : (⟨node, Swrl.argument1, element⟩ : Triple) ∈ graph) (first second : IndividualArgument) :
      Unfolds graph path node (.differentIndividuals first second)
  | builtin {path : List Node} {node : Node} {element : Term} (fresh : node ∉ path)
      (value : (⟨node, Swrl.builtin, element⟩ : Triple) ∈ graph) (predicate : Iri) (arguments : List DataArgument) :
      Unfolds graph path node (.builtin predicate arguments)

/-- The annotation of a node. Its own annotations are those of nodes that point back at the node. -/
inductive Annotation.Unfolds (graph : List Triple) : List Node → Node → Annotation → Prop
  | mk {path : List Node} {source : Node} {notes : List Annotation} (reifier : Annotation → Node)
      (fresh : ∀ note ∈ notes, reifier note ∉ path)
      (points : ∀ note ∈ notes, (⟨reifier note, Owl.annotatedSource, source⟩ : Triple) ∈ graph)
      (parts : ∀ note ∈ notes, Unfolds graph (reifier note :: path) (reifier note) note) (property : Iri) (value : Term) :
      Unfolds graph path source ⟨property, value, notes⟩

theorem Annotation.Unfolds.of_exists {graph : List Triple} {path : List Node} {source : Node} {notes : List Annotation}
    (found : ∀ note ∈ notes, ∃ reifier, reifier ∉ path ∧ (⟨reifier, Owl.annotatedSource, source⟩ : Triple) ∈ graph ∧
      note.Unfolds graph (reifier :: path) reifier) (property : Iri) (value : Term) :
    Annotation.Unfolds graph path source ⟨property, value, notes⟩ := by
  -- Equal notes get one reifier; which one of theirs does not matter.
  have choice : ∀ note, ∃ reifier, note ∈ notes → reifier ∉ path ∧ (⟨reifier, Owl.annotatedSource, source⟩ : Triple) ∈ graph ∧
      note.Unfolds graph (reifier :: path) reifier := by
    intro note
    by_cases member : note ∈ notes
    · exact (found note member).imp fun _ holds _ => holds
    · exact ⟨source, fun inside => absurd inside member⟩
  choose reifier holds using choice
  exact .mk reifier (fun note member => (holds note member).1) (fun note member => (holds note member).2.1)
    (fun note member => (holds note member).2.2) property value

theorem exists_of_mem_right {α β : Type} {holds : α → β → Prop} {items : List α} {values : List β}
    (related : List.Forall₂ holds items values) {value : β} (member : value ∈ values) : ∃ item ∈ items, holds item value := by
  induction related with
  | nil => cases member
  | cons own _ ih =>
    rcases List.mem_cons.mp member with rfl | later
    · exact ⟨_, List.mem_cons_self, own⟩
    · obtain ⟨item, inside, holds⟩ := ih later
      exact ⟨item, List.mem_cons_of_mem _ inside, holds⟩

namespace Setting

open Translation

variable {setting : Setting} {path : List Node} {α β Form : Type}

/-- What the computation gives in sessions that show the setting and read the nodes of the path, if it
gives anything. -/
def Gives (setting : Setting) (path : List Node) (body : Translation α) (good : α → Prop) : Prop :=
  ∀ context session value, setting.Holds session → session.visiting = path → (body context session).1 = .ok value → good value

namespace Gives

variable {good : α → Prop}

theorem pure {value : α} (holds : good value) : setting.Gives path (pure value) good := by
  rintro context session _ - - ⟨⟩
  exact holds

theorem fail (problem : Problem) : setting.Gives path (fail problem) good := by
  rintro context session _ - - ⟨⟩

theorem stop (problem : Problem) (next : β → Translation α) : setting.Gives path (Translation.fail problem >>= next) good := by
  rintro context session _ - - ⟨⟩

theorem imp {also : α → Prop} {body : Translation α} (gives : setting.Gives path body also)
    (implies : ∀ value, also value → good value) : setting.Gives path body good :=
  fun context session value holds inside run => implies value (gives context session value holds inside run)

theorem bind {body : Translation α} {next : α → Translation β} {middle : α → Prop} {good : β → Prop}
    (first : setting.Gives path body middle) (reads : setting.Reads setting.triples body)
    (rest : ∀ value, middle value → setting.Gives path (next value) good) : setting.Gives path (body >>= next) good := by
  intro context session value holds inside run
  cases ended : (body context session).1 with
  | error halt =>
    rw [Run.bind_error ended] at run
    cases run
  | ok found =>
    rw [Run.bind_ok ended] at run
    obtain ⟨later, still⟩ := reads.returns context holds
    exact rest found (first context session found holds inside ended) context _ value later (still.trans inside) run

/-- What follows a reading that is of no account. -/
theorem next {body : Translation α} {next : α → Translation β} {good : β → Prop} (reads : setting.Reads setting.triples body)
    (rest : ∀ value, setting.Gives path (next value) good) : setting.Gives path (body >>= next) good := by
  have anything : setting.Gives path body fun _ => True := fun _ _ _ _ _ _ => trivial
  exact anything.bind reads fun value _ => rest value

theorem look {next : Session → Translation α} (rest : ∀ session, setting.Holds session → setting.Gives path (next session) good) :
    setting.Gives path (MonadState.get >>= next) good :=
  fun context session value holds inside run => rest session holds context session value holds inside run

theorem ite {test : Prop} [Decidable test] {body other : Translation α} (yes : setting.Gives path body good)
    (no : setting.Gives path other good) : setting.Gives path (if test then body else other) good := by
  split
  · exact yes
  · exact no

/-- A node that is gone into was not on the path. -/
theorem nested {body : Translation α} {node : Node} (inner : node ∉ path → setting.Gives (node :: path) body good) :
    setting.Gives path (nested node body) good := by
  intro context session value holds inside run
  rw [Translation.nested] at run
  split at run
  · cases run
  · rename_i fresh
    rw [inside, List.contains_iff_mem] at fresh
    exact inner fresh context _ value (holds.visit _) (congrArg (node :: ·) inside) run

theorem mapM {act : α → Translation β} {good : α → β → Prop} (items : List α)
    (reads : ∀ item ∈ items, setting.Reads setting.triples (act item))
    (each : ∀ item ∈ items, setting.Gives path (act item) (good item)) :
    setting.Gives path (items.mapM act) (List.Forall₂ good items) := by
  induction items with
  | nil => exact pure .nil
  | cons item rest ih =>
    rw [List.mapM_cons]
    refine bind (each item List.mem_cons_self) (reads item List.mem_cons_self) fun value own => ?_
    have others := ih (fun other member => reads other (List.mem_cons_of_mem _ member))
      fun other member => each other (List.mem_cons_of_mem _ member)
    exact bind others (.mapM rest fun other member => reads other (List.mem_cons_of_mem _ member)) fun _ all =>
      pure (.cons own all)

/-- A node is read in one of the forms. -/
theorem dispatch {family : Family Form} {view : NodeView} {readForm : Form → Translation α}
    (reads : ∀ form, setting.Reads setting.triples (readForm form)) (each : ∀ form, setting.Gives path (readForm form) good) :
    setting.Gives path (dispatch family view readForm) good :=
  next (reads_selectForm family view) fun form => bind (each form) (reads form) fun _ holds => by
    rintro context session _ - - ⟨⟩
    exact holds

end Gives

/-- What the view shows of the node is in the graph. -/
def Shows (setting : Setting) (view : NodeView) (node : Node) : Prop :=
  ∀ predicate object, object ∈ view.objects predicate → (⟨node, predicate, object⟩ : Triple) ∈ setting.triples

theorem Holds.shows {session : Session} (holds : setting.Holds session) (node : Node) (kind : Option PropertyKind) :
    setting.Shows { session.view node with propertyKind := kind } node := by
  intro predicate object member
  obtain ⟨triple, shown, rfl, rfl⟩ := NodeView.mem_objects.mp member
  obtain ⟨row, listed, rfl⟩ := List.mem_map.mp shown
  obtain ⟨inside, rfl, -⟩ := holds.mem_view.mp listed
  exact List.mem_map_of_mem inside

end Setting

namespace Translation

open Setting

variable {setting : Setting} {path : List Node} {α β : Type}

section Operands

theorem gives_value {view : NodeView} {node : Node} (shows : setting.Shows view node) (predicate : Iri) :
    setting.Gives path (value view predicate) fun object => (⟨node, predicate, object⟩ : Triple) ∈ setting.triples := by
  have first : setting.Gives path (value view predicate) (· ∈ view.objects predicate) := by
    unfold value
    split
    · exact .fail _
    · rename_i object found
      exact .pure (found ▸ List.mem_singleton_self _)
    · rename_i object others _ found
      exact .next (reads_recover _ rfl) fun _ => .pure (found ▸ List.mem_cons_self)
  exact first.imp fun object member => shows predicate object member

theorem gives_readList (head : Term) :
    setting.Gives path (readList head) fun elements => ∃ nodes, Spine setting.triples head nodes elements := by
  intro context session value holds _ run
  have graph : session.store.graph = setting.triples := congrArg (List.map Row.triple) holds.rows
  rcases readList_cases context head holds.indexed with ⟨nodes, elements, rows, list, -, found⟩ | ⟨-, flaw, failed⟩
  · rw [found] at run
    cases run
    exact ⟨nodes, graph ▸ list.spine⟩
  · rw [failed] at run
    cases run

/-- The operands of a construct stand for the elements of its list. -/
theorem gives_operands {inner : Term → Translation β} {view : NodeView} {node : Node} (shows : setting.Shows view node)
    (reads : ∀ term, setting.Reads setting.triples (inner term)) {part : Term → β → Prop}
    (each : ∀ term, setting.Gives path (inner term) (part term)) {result : List β → α} {good : α → Prop} (predicate : Iri)
    (whole : ∀ elements, Lists setting.triples node predicate elements → ∀ values, elements.length = values.length →
      (∀ pair ∈ elements.zip values, part pair.1 pair.2) → good (result values)) :
    setting.Gives path (do
      let elements ← operands (← value view predicate)
      let values ← elements.mapM inner
      return result values) good := by
  refine .bind (gives_value shows predicate) (reads_value _ _) fun head member => ?_
  have list : setting.Gives path (operands head) (Lists setting.triples node predicate) := by
    refine .bind (gives_readList head) (reads_readList head) fun elements ⟨nodes, spine⟩ => ?_
    have found : Lists setting.triples node predicate elements := ⟨head, nodes, member, spine⟩
    -- That a list is empty is noted, but nothing follows from it.
    exact .ite (.next (reads_recover _ rfl) fun _ => .pure found) (.pure found)
  refine .bind list (reads_operands head) fun elements lists => ?_
  refine .bind (.mapM elements (fun term _ => reads term) fun term _ => each term) (.mapM elements fun term _ => reads term)
    fun values all => .pure (whole elements lists values all.length_eq fun pair inside => ?_)
  exact (List.forall₂_iff_zip.mp all).2 inside

end Operands

section DataRanges

theorem gives_readDataRange {inner : Term → Translation DataRange} {view : NodeView} {node : BlankNode}
    (fresh : .blank node ∉ path) (shows : setting.Shows view node) (reads : ∀ term, setting.Reads setting.triples (inner term))
    (each : ∀ term, setting.Gives (node :: path) (inner term) (DataRange.Unfolds setting.triples (node :: path) term))
    (form : DataRangeForm) :
    setting.Gives (node :: path) (readDataRange inner view form) (DataRange.Unfolds setting.triples path node) := by
  have value (predicate : Iri) : setting.Gives (node :: path) (value view predicate)
      fun object => (⟨node, predicate, object⟩ : Triple) ∈ setting.triples := gives_value shows predicate
  cases form with
  | combination junction =>
    exact gives_operands shows reads each junction.predicate fun elements lists operands count parts =>
      .combination fresh lists count parts
  | complement =>
    exact .bind (value _) (reads_value _ _) fun element member => .bind (each element) (reads element) fun _ part =>
      .pure (.complement fresh member part)
  | oneOf =>
    exact .bind (value _) (reads_value _ _) fun head member => .next (reads_operands head) fun elements =>
      .next (.mapM elements fun term _ => reads_literal term) fun _ => .pure (.oneOf fresh member _)
  | restriction =>
    exact .next (reads_value _ _) fun base => .next (reads_named _ base) fun _ => .bind (value _) (reads_value _ _) fun head member =>
      .next (reads_readList head) fun elements => .next (.mapM elements fun term _ => reads_facetRestriction term) fun _ =>
        .pure (.restriction fresh member _ _)

theorem gives_dataRangeWithin (depth : Nat) : ∀ (path : List Node) (term : Term),
    setting.Gives path (dataRangeWithin depth term) (DataRange.Unfolds setting.triples path term) := by
  have named (depth : Nat) (path : List Node) (iri : Iri) : setting.Gives path (dataRangeWithin depth (.resource (.named iri)))
      (DataRange.Unfolds setting.triples path iri) := by
    unfold dataRangeWithin
    exact .next (reads_learn _ _) fun _ => .pure (.datatype path iri)
  induction depth with
  | zero =>
    rintro path ((iri | node) | value)
    · exact named 0 path iri
    · exact .fail _
    · exact .fail _
  | succ depth ih =>
    rintro path ((iri | node) | value)
    · exact named _ path iri
    · refine .nested fun fresh => .look fun session holds => ?_
      exact .dispatch (reads_readDataRange (reads_dataRangeWithin depth _) _)
        (gives_readDataRange fresh (holds.shows node none) (reads_dataRangeWithin depth _) (ih (node :: path)))
    · exact .fail _

theorem gives_dataRange (term : Term) : setting.Gives path (dataRange term) (DataRange.Unfolds setting.triples path term) :=
  .next reads_depthLimit fun depth => gives_dataRangeWithin depth path term

end DataRanges

section ClassExpressions

theorem gives_boundOf {filler : Term → Translation α} {view : NodeView} {node : BlankNode} (shows : setting.Shows view node)
    {good : Term → α → Prop} (reads : ∀ term, setting.Reads setting.triples (filler term))
    (each : ∀ term, setting.Gives path (filler term) (good term)) (bound : Bound) (predicate : Iri) :
    setting.Gives path (boundOf view bound predicate filler) fun found => ∃ element, match found.2 with
      | none => (⟨node, bound.predicate, element⟩ : Triple) ∈ setting.triples
      | some part => (⟨node, predicate, element⟩ : Triple) ∈ setting.triples ∧ good element part := by
  unfold boundOf
  refine .ite ?_ ?_
  · refine .next (reads_value _ _) fun number => .next (reads_cardinality number) fun _ =>
      .bind (gives_value shows predicate) (reads_value _ _) fun element member => ?_
    exact .bind (each element) (reads element) fun part holds => .pure ⟨element, member, holds⟩
  · exact .bind (gives_value shows _) (reads_value _ _) fun number member => .next (reads_cardinality number) fun _ =>
      .pure ⟨number, member⟩

theorem gives_readClassExpression {inner : Term → Translation ClassExpression} {view : NodeView} {node : BlankNode}
    (fresh : .blank node ∉ path) (shows : setting.Shows view node) (reads : ∀ term, setting.Reads setting.triples (inner term))
    (each : ∀ term, setting.Gives (node :: path) (inner term) (ClassExpression.Unfolds setting.triples (node :: path) term))
    (form : ClassForm) :
    setting.Gives (node :: path) (readClassExpression inner view form) (ClassExpression.Unfolds setting.triples path node) := by
  have value (predicate : Iri) : setting.Gives (node :: path) (value view predicate)
      fun object => (⟨node, predicate, object⟩ : Triple) ∈ setting.triples := gives_value shows predicate
  cases form with
  | combination junction =>
    exact gives_operands shows reads each junction.predicate fun elements lists operands count parts =>
      .combination fresh lists count parts
  | complement =>
    exact .bind (value _) (reads_value _ _) fun element member => .bind (each element) (reads element) fun _ part =>
      .pure (.complement fresh member part)
  | oneOf =>
    exact .bind (value _) (reads_value _ _) fun head member => .next (reads_operands head) fun elements =>
      .next (.mapM elements fun term _ => reads_individual term) fun _ => .pure (.oneOf fresh member _)
  | objectValues quantifier =>
    exact .next (reads_value _ _) fun object => .next (reads_propertyExpression object) fun _ =>
      .bind (value _) (reads_value _ _) fun element member => .bind (each element) (reads element) fun _ part =>
        .pure (.objectValues fresh member part _)
  | objectHasValue =>
    exact .next (reads_value _ _) fun object => .next (reads_propertyExpression object) fun _ =>
      .bind (value _) (reads_value _ _) fun other member => .next (reads_individual other) fun _ =>
        .pure (.objectHasValue fresh member _ _)
  | hasSelf =>
    refine .next (reads_value _ _) fun object => .next (reads_propertyExpression object) fun _ =>
      .bind (value _) (reads_value _ _) fun truth member => .next (reads_literal truth) fun literal => ?_
    exact .ite (.pure (.hasSelf fresh member _)) (.stop _ _)
  | objectCardinality bound =>
    refine .next (reads_value _ _) fun object => .next (reads_propertyExpression object) fun property => ?_
    refine .bind (gives_boundOf shows reads each bound _) (reads_boundOf view bound _ reads)
      fun ⟨number, filler⟩ ⟨element, found⟩ => .pure ?_
    cases filler with
    | none => exact .objectCardinality fresh found number property
    | some filler => exact .qualifiedObject fresh found.1 found.2 bound number property
  | dataValues quantifier =>
    exact .next (reads_value _ _) fun object => .next (reads_dataProperty object) fun _ =>
      .bind (value _) (reads_value _ _) fun element member => .bind (gives_dataRange element) (reads_dataRange element)
        fun _ part => .pure (.dataValues fresh member part _)
  | dataHasValue =>
    exact .next (reads_value _ _) fun object => .next (reads_dataProperty object) fun _ =>
      .bind (value _) (reads_value _ _) fun other member => .next (reads_literal other) fun _ =>
        .pure (.dataHasValue fresh member _ _)
  | dataCardinality bound =>
    refine .next (reads_value _ _) fun object => .next (reads_dataProperty object) fun property => ?_
    refine .bind (gives_boundOf shows reads_dataRange gives_dataRange bound _) (reads_boundOf view bound _ reads_dataRange)
      fun ⟨number, filler⟩ ⟨element, found⟩ => .pure ?_
    cases filler with
    | none => exact .dataCardinality fresh found number property
    | some filler => exact .qualifiedData fresh found.1 found.2 bound number property

theorem gives_classExpressionWithin (depth : Nat) : ∀ (path : List Node) (term : Term),
    setting.Gives path (classExpressionWithin depth term) (ClassExpression.Unfolds setting.triples path term) := by
  have named (depth : Nat) (path : List Node) (iri : Iri) :
      setting.Gives path (classExpressionWithin depth (.resource (.named iri))) (ClassExpression.Unfolds setting.triples path iri) := by
    unfold classExpressionWithin
    exact .next (reads_learn _ _) fun _ => .pure (.named path iri)
  induction depth with
  | zero =>
    rintro path ((iri | node) | value)
    · exact named 0 path iri
    · exact .fail _
    · exact .fail _
  | succ depth ih =>
    rintro path ((iri | node) | value)
    · exact named _ path iri
    · refine .nested fun fresh => .look fun session holds => .next (reads_restrictionKind _) fun kind => ?_
      exact .dispatch (reads_readClassExpression (reads_classExpressionWithin depth _) _)
        (gives_readClassExpression fresh (holds.shows node kind) (reads_classExpressionWithin depth _) (ih (node :: path)))
    · exact .fail _

theorem gives_classExpression (term : Term) :
    setting.Gives path (classExpression term) (ClassExpression.Unfolds setting.triples path term) :=
  .next reads_depthLimit fun depth => gives_classExpressionWithin depth path term

end ClassExpressions

section Atoms

theorem gives_readAtom {view : NodeView} {node : Node} (fresh : node ∉ path) (shows : setting.Shows view node) (form : AtomForm) :
    setting.Gives (node :: path) (readAtom view form) (Atom.Unfolds setting.triples path node) := by
  have value (predicate : Iri) : setting.Gives (node :: path) (value view predicate)
      fun object => (⟨node, predicate, object⟩ : Triple) ∈ setting.triples := gives_value shows predicate
  cases form with
  | cls =>
    exact .bind (value _) (reads_value _ _) fun element member => .next (reads_value _ _) fun argument =>
      .bind (gives_classExpression element) (reads_classExpression element) fun _ part =>
        .next (reads_individualArgument argument) fun _ => .pure (.cls fresh member part _)
  | dataRange =>
    exact .bind (value _) (reads_value _ _) fun element member => .next (reads_value _ _) fun argument =>
      .bind (gives_dataRange element) (reads_dataRange element) fun _ part =>
        .next (reads_dataArgument argument) fun _ => .pure (.dataRange fresh member part _)
  | objectProperty =>
    exact .bind (value _) (reads_value _ _) fun predicate member => .next (reads_value _ _) fun subject =>
      .next (reads_value _ _) fun object => .next (reads_propertyExpression predicate) fun _ =>
        .next (reads_individualArgument subject) fun _ => .next (reads_individualArgument object) fun _ =>
          .pure (.objectProperty fresh member _ _ _)
  | dataProperty =>
    exact .bind (value _) (reads_value _ _) fun predicate member => .next (reads_value _ _) fun subject =>
      .next (reads_value _ _) fun object => .next (reads_dataProperty predicate) fun _ =>
        .next (reads_individualArgument subject) fun _ => .next (reads_dataArgument object) fun _ =>
          .pure (.dataProperty fresh member _ _ _)
  | sameIndividual =>
    exact .bind (value _) (reads_value _ _) fun first member => .next (reads_value _ _) fun second =>
      .next (reads_individualArgument first) fun _ => .next (reads_individualArgument second) fun _ =>
        .pure (.sameIndividual fresh member _ _)
  | differentIndividuals =>
    exact .bind (value _) (reads_value _ _) fun first member => .next (reads_value _ _) fun second =>
      .next (reads_individualArgument first) fun _ => .next (reads_individualArgument second) fun _ =>
        .pure (.differentIndividuals fresh member _ _)
  | builtin =>
    exact .bind (value _) (reads_value _ _) fun predicate member => .next (reads_value _ _) fun list =>
      .next (reads_named _ predicate) fun _ => .next (reads_readList list) fun elements =>
        .next (.mapM elements fun term _ => reads_dataArgument term) fun _ => .pure (.builtin fresh member _ _)

theorem gives_atom (term : Term) : setting.Gives path (atom term) (Atom.Unfolds setting.triples path term) := by
  cases term with
  | resource node =>
    exact .nested fun fresh => .look fun session holds => .next (reads_atomPropertyKind _) fun kind =>
      .dispatch (reads_readAtom _) (gives_readAtom fresh (holds.shows node kind))
  | literal value => exact .fail _

end Atoms

section Annotations

/-- What stands for an annotation points at what is annotated. -/
theorem points_of_reifier {session : Session} (holds : setting.Holds session) {source reifier : Node} {property : Iri} {value : Term}
    (member : reifier ∈ session.reifiers source property value) :
    (⟨reifier, Owl.annotatedSource, source⟩ : Triple) ∈ setting.triples := by
  obtain ⟨listed, -⟩ := List.mem_filter.mp member
  obtain ⟨row, unused, points⟩ := List.mem_filterMap.mp listed
  rw [Session.unused, List.mem_filter, holds.indexed.withObject, holds.rows, List.mem_filter, beq_iff_eq] at unused
  split at points
  next predicate =>
    cases points
    rw [← predicate, ← unused.1.2]
    exact List.mem_map_of_mem unused.1.1
  next => cases points

theorem gives_readNote {inner : Node → Translation (List Annotation)}
    (reads : ∀ node, setting.Reads setting.triples (inner node))
    (each : ∀ node, setting.Gives (node :: path) (inner node)
      fun notes => ∀ note ∈ notes, note.Unfolds setting.triples (node :: path) node)
    {row : Row} (listed : row ∈ setting.rows) :
    setting.Gives path (readNote inner row) fun note =>
      ∀ found, note = some found → found.Unfolds setting.triples path row.triple.subject := by
  obtain ⟨id, source, property, object⟩ := row
  refine .look fun session _ => ?_
  split
  · refine .next (reads_learn _ _) fun _ => .next (reads_annotationValue _) fun value =>
      .next (reads_consume (usable_all listed)) fun _ => .look fun session holds => ?_
    have reified (node : Node) : setting.Reads setting.triples (do
        consumeReification node
        inner node) := (reads_consumeReification (open_all node)).bind fun _ => reads node
    have entered (node : Node) (member : node ∈ session.reifiers source property object) :
        setting.Gives path (nested node do
          consumeReification node
          inner node) fun notes => node ∉ path ∧ (⟨node, Owl.annotatedSource, source⟩ : Triple) ∈ setting.triples ∧
            ∀ note ∈ notes, note.Unfolds setting.triples (node :: path) node :=
      .nested fun fresh => .next (reads_consumeReification (open_all node)) fun _ => (each node).imp fun _ all =>
        ⟨fresh, points_of_reifier holds member, all⟩
    refine .bind (.mapM _ (fun node _ => reads_nested node (reified node)) entered)
      (.mapM _ fun node _ => reads_nested node (reified node)) fun notes all => .pure ?_
    rintro _ ⟨⟩
    refine .of_exists (fun note member => ?_) property value
    obtain ⟨own, read, inside⟩ := List.mem_flatten.mp member
    obtain ⟨reifier, -, fresh, points, unfold⟩ := exists_of_mem_right all read
    exact ⟨reifier, fresh, points, unfold note inside⟩
  · exact .pure nofun

theorem gives_annotationsWithin (depth : Nat) : ∀ (path : List Node) (node : Node),
    setting.Gives path (annotationsWithin depth node) fun notes => ∀ note ∈ notes, note.Unfolds setting.triples path node := by
  induction depth with
  | zero => exact fun _ _ => .fail _
  | succ depth ih =>
    intro path node
    refine .look fun session holds => ?_
    have reads (node : Node) : setting.Reads setting.triples (annotationsWithin depth node) :=
      reads_annotationsWithin depth node (open_all node)
    have listed (row : Row) (member : row ∈ session.unused (session.store.withSubject node)) :
        row ∈ setting.rows ∧ row.triple.subject = node := by
      rw [Session.unused, List.mem_filter, holds.mem_withSubject] at member
      exact member.1
    refine .bind (.mapM _ (fun row member => reads_readNote (fun node _ => reads node) (usable_all (listed row member).1))
      fun row member => gives_readNote reads (fun node => ih (node :: path) node) (listed row member).1)
      (.mapM _ fun row member => reads_readNote (fun node _ => reads node) (usable_all (listed row member).1))
      fun notes all => .pure fun note member => ?_
    obtain ⟨found, read, same⟩ := List.mem_filterMap.mp member
    obtain ⟨row, inside, unfolds⟩ := exists_of_mem_right all read
    exact (listed row inside).2 ▸ unfolds note same

theorem gives_annotationsOn (node : Node) :
    setting.Gives path (annotationsOn node) fun notes => ∀ note ∈ notes, note.Unfolds setting.triples path node :=
  .look fun _ _ => gives_annotationsWithin _ path node

end Annotations

end Translation

end OwlGraph
