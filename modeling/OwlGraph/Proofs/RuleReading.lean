import OwlGraph.Proofs.ExpressionReading
import OwlGraph.Translation.Atom

/-! Reading what describes the atom of a rule. The kind of the property of an atom is known
before its form is selected, so that no atom is read as one of another kind. -/

namespace OwlGraph

namespace AtomForm

theorem mem_all (form : AtomForm) : form ∈ all := by cases form <;> simp [all]

/-- The predicates of an atom of the form, in the order in which they are written. -/
def keys : AtomForm → List Iri
  | .cls => [Swrl.classPredicate, Swrl.argument1]
  | .dataRange => [Swrl.dataRange, Swrl.argument1]
  | .objectProperty | .dataProperty => [Swrl.argument1, Swrl.argument2, Swrl.propertyPredicate]
  | .sameIndividual | .differentIndividuals => [Swrl.argument1, Swrl.argument2]
  | .builtin => [Swrl.builtin, Swrl.arguments]

private theorem selected_all : ∀ form ∈ all, all.find? (fun other =>
    other.pattern.suits form.pattern.type (Rdf.type :: form.keys) form.pattern.kind) = some form := by
  decide

theorem nodup_keys (form : AtomForm) : (Rdf.type :: form.keys).Nodup := by
  have nodup : ∀ form ∈ all, (Rdf.type :: form.keys).Nodup := by decide
  exact nodup form (mem_all form)

/-- Only an atom of a property has a property. -/
theorem propertyless (form : AtomForm) (kindless : form.pattern.kind = none) :
    Swrl.propertyPredicate ∉ Rdf.type :: form.keys := by
  have apart : ∀ form ∈ all, form.pattern.kind = none → Swrl.propertyPredicate ∉ Rdf.type :: form.keys := by
    decide
  exact apart form (mem_all form) kindless

/-- A node with the predicates of a form is read in that form, if its property is of the kind. -/
theorem selected (form : AtomForm) {view : NodeView} {rest : List (Iri × Term)}
    (keys : rest.map Prod.fst = form.keys) (kind : view.propertyKind = form.pattern.kind)
    (shows : view.Shows ((Rdf.type, (form.pattern.type : Term)) :: rest)) :
    family.forms.find? (fun other => (family.pattern other).fits view) = some form := by
  have suits := selected_all form (mem_all form)
  rw [← keys] at suits
  refine (congrArg (all.find? ·) (funext fun other => ?_)).trans suits
  rw [Pattern.fits_eq_suits _ shows List.mem_cons_self, kind]
  rfl

end AtomForm

namespace World

variable {world : World}

section Arguments

variable {term : Term}

private theorem yields_asVariable {iri : Iri} (isVariable : world.isVariable iri) :
    world.Yields (Translation.asVariable iri) (some iri) [] [] := by
  refine Yields.get fun session holds => ?_
  have known : session.ruleVariables.contains iri = true := (holds.ruleVariables iri).mpr isVariable
  rw [show (Term.iri? iri).filter session.ruleVariables.contains = some iri by simp [Term.iri?, Term.node?, Node.iri?, known]]
  exact Yields.pure (some iri) session holds

private theorem yields_asVariable_none (constant : ∀ iri, term.iri? = some iri → ¬ world.isVariable iri) :
    world.Yields (Translation.asVariable term) none [] [] := by
  refine Yields.get fun session holds => ?_
  have missing : term.iri?.filter session.ruleVariables.contains = none := by
    cases named : term.iri? with
    | none => rfl
    | some iri =>
      have free : ¬ session.ruleVariables.contains iri = true :=
        fun listed => constant iri named ((holds.ruleVariables iri).mp listed)
      simp [Option.filter, free]
  rw [missing]
  exact Yields.pure none session holds

variable (declares : ∀ iri : Iri, (⟨iri, Rdf.type, Swrl.Variable⟩ : Triple) ∈ world.graph → world.isVariable iri)
include declares

theorem Yields.individualArgument {argument : IndividualArgument} (constant : world.Constant argument.components)
    (described : argument.Described world.graph term) :
    world.Yields (Translation.individualArgument term) (argument.rename world.anonymous) [] [] := by
  cases argument with
  | «variable» iri =>
    obtain ⟨rfl, declared⟩ := described
    exact Yields.look (yields_asVariable (declares iri declared)) (Yields.pure _)
  | individual node =>
    subst described
    refine Yields.look (yields_asVariable_none fun iri same => ?_) (Yields.look (Yields.individual node) (Yields.pure _))
    cases node with
    | named name =>
      cases same
      exact constant _ (List.mem_singleton_self _) rfl
    | blank => cases same

theorem Yields.dataArgument {argument : DataArgument} (described : argument.Described world.graph term) :
    world.Yields (Translation.dataArgument term) argument [] [] := by
  cases argument with
  | «variable» iri =>
    obtain ⟨rfl, declared⟩ := described
    exact Yields.look (yields_asVariable (declares iri declared)) (Yields.pure _)
  | literal value =>
    subst described
    exact Yields.look (yields_asVariable_none nofun) (Yields.look (Yields.literal value) (Yields.pure _))

end Arguments

section Atoms

variable {term : Term} {block : List Triple}

/-- A node that describes an atom of a form, whose parts are read. -/
private theorem yields_atomNode (form : AtomForm) {rest : List (Iri × Term)} {parts : List Triple} {atom : Atom}
    (built : Construct world.graph ((Rdf.type, (form.pattern.type : Term)) :: rest) parts term block)
    (keys : rest.map Prod.fst = form.keys)
    (kind : ∀ view : NodeView, view.Shows ((Rdf.type, (form.pattern.type : Term)) :: rest) →
      world.Yields (Translation.atomPropertyKind view) form.pattern.kind [] [])
    (reads : ∀ view : NodeView, view.Shows ((Rdf.type, (form.pattern.type : Term)) :: rest) →
      world.Yields (Translation.readAtom view form) atom parts parts) :
    world.Yields (Translation.atom term) atom block block := by
  obtain ⟨node, rfl, carries, apart, rfl⟩ := built
  have distinct : (((Rdf.type, (form.pattern.type : Term)) :: rest).map Prod.fst).Nodup := by
    rw [List.map_cons, keys]
    exact form.nodup_keys
  have body : world.Yields (do
      let plain := (← get).view node
      let view := { plain with propertyKind := ← Translation.atomPropertyKind plain }
      Translation.dispatch AtomForm.family view (Translation.readAtom view))
      atom parts (parts ++ triplesAt node ((Rdf.type, (form.pattern.type : Term)) :: rest)) := by
    refine Yields.get fun session holds => ?_
    have shows := shows_of_carries holds carries distinct
    rw [holds.view]
    refine Yields.weaken (Yields.look (kind _ shows)
      (Yields.dispatch (form.selected keys rfl (shows.withKind form.pattern.kind))
        (reads _ (shows.withKind form.pattern.kind)) view_rows_subset)) (fun _ member => member) (fun triple => ?_) session holds
    rw [List.mem_append, List.mem_append, ← mem_view_of_carries carries]
    rfl
  exact Yields.nested body apart rfl
    (List.mem_append_right _ List.mem_cons_self) fun _ member => List.mem_append_left _ member

variable {view : NodeView} {values : List (Iri × Term)}

private theorem yields_atomPropertyKind (coherent : world.Coherent) {iri : Iri} {kind : PropertyKind}
    (told : world.told ⟨kind.entityKind, iri⟩) (shown : view.first? Swrl.propertyPredicate = some (iri : Term)) :
    world.Yields (Translation.atomPropertyKind view) (some kind) [] [] := by
  rw [Translation.atomPropertyKind, shown]
  exact Yields.look (Yields.resolveProperty coherent.settled _ told _) (Yields.pure (some kind))

private theorem yields_atomPropertyKind_none (form : AtomForm) (kindless : form.pattern.kind = none)
    (shows : view.Shows values) (keys : values.map Prod.fst = Rdf.type :: form.keys) :
    world.Yields (Translation.atomPropertyKind view) form.pattern.kind [] [] := by
  have absent := shows.first?_eq_none (by rw [keys]; exact form.propertyless kindless)
  rw [Translation.atomPropertyKind, absent, kindless]
  exact Yields.pure none

variable (coherent : world.Coherent)
  (declares : ∀ iri : Iri, (⟨iri, Rdf.type, Swrl.Variable⟩ : Triple) ∈ world.graph → world.isVariable iri)
include coherent declares

theorem Yields.atom : ∀ {atom : Atom}, atom.WellFormed world.limit → world.Admits atom.components →
    world.Constant atom.components → atom.Described world.graph term block → (∀ triple ∈ block, triple ∈ world.graph) →
    world.Yields (Translation.atom term) (atom.rename world.anonymous) block block
  | .cls expression argument, valid, admits, constant, described, subset => by
    obtain ⟨element, inner, value, described, argued, built⟩ := described
    have reads := Yields.classExpression coherent.settled valid admits.left described
      fun triple member => subset triple (built.parts_subset triple member)
    refine yields_atomNode .cls built rfl (fun view shows => yields_atomPropertyKind_none .cls rfl shows rfl)
      fun view shows => ?_
    refine Yields.weaken (Yields.look (Yields.value (shows.one _ element (by simp)))
      (Yields.look (Yields.value (shows.one _ value (by simp))) (Yields.bind reads
        (Yields.look (Yields.individualArgument declares constant.right argued) (Yields.pure _))))) ?_ ?_ <;> simp
  | .dataRange range argument, valid, admits, _, described, subset => by
    obtain ⟨element, inner, value, described, argued, built⟩ := described
    have reads := Yields.dataRange valid admits.left described
      fun triple member => subset triple (built.parts_subset triple member)
    refine yields_atomNode .dataRange built rfl (fun view shows => yields_atomPropertyKind_none .dataRange rfl shows rfl)
      fun view shows => ?_
    refine Yields.weaken (Yields.look (Yields.value (shows.one _ element (by simp)))
      (Yields.look (Yields.value (shows.one _ value (by simp))) (Yields.bind reads
        (Yields.look (Yields.dataArgument declares argued) (Yields.pure _))))) ?_ ?_ <;> simp
  | .objectProperty (.named property) subject object, _, admits, constant, described, _ => by
    obtain ⟨first, second, one, two, built⟩ := described
    refine yields_atomNode .objectProperty built rfl (fun view shows => yields_atomPropertyKind coherent
      ((admits _ List.mem_cons_self).told .object rfl) (shows.first? (by simp [PropertyExpression.property]))) fun view shows => ?_
    exact Yields.look (Yields.value (shows.one _ (property : Term) (by simp)))
      (Yields.look (Yields.value (shows.one _ first (by simp)))
      (Yields.look (Yields.value (shows.one _ second (by simp)))
      (Yields.look (Yields.propertyExpression admits.head ⟨rfl, rfl⟩)
      (Yields.look (Yields.individualArgument declares constant.tail.left one)
      (Yields.look (Yields.individualArgument declares constant.tail.right two) (Yields.pure _))))))
  | .objectProperty (.inverse _) _ _, valid, _, _, _, _ => nomatch valid
  | .dataProperty property subject object, _, admits, constant, described, _ => by
    obtain ⟨first, second, one, two, built⟩ := described
    refine yields_atomNode .dataProperty built rfl (fun view shows => yields_atomPropertyKind coherent
      ((admits _ List.mem_cons_self).told .data rfl) (shows.first? (by simp))) fun view shows => ?_
    exact Yields.look (Yields.value (shows.one _ (property : Term) (by simp)))
      (Yields.look (Yields.value (shows.one _ first (by simp)))
      (Yields.look (Yields.value (shows.one _ second (by simp)))
      (Yields.look (Yields.dataProperty admits.head) (Yields.look (Yields.individualArgument declares constant.tail.left one)
      (Yields.look (Yields.dataArgument declares two) (Yields.pure _))))))
  | .sameIndividual subject object, _, _, constant, described, _ => by
    obtain ⟨first, second, one, two, built⟩ := described
    refine yields_atomNode .sameIndividual built rfl
      (fun view shows => yields_atomPropertyKind_none .sameIndividual rfl shows rfl) fun view shows => ?_
    exact Yields.look (Yields.value (shows.one _ first (by simp)))
      (Yields.look (Yields.value (shows.one _ second (by simp)))
      (Yields.look (Yields.individualArgument declares constant.left one)
      (Yields.look (Yields.individualArgument declares constant.right two) (Yields.pure _))))
  | .differentIndividuals subject object, _, _, constant, described, _ => by
    obtain ⟨first, second, one, two, built⟩ := described
    refine yields_atomNode .differentIndividuals built rfl
      (fun view shows => yields_atomPropertyKind_none .differentIndividuals rfl shows rfl) fun view shows => ?_
    exact Yields.look (Yields.value (shows.one _ first (by simp)))
      (Yields.look (Yields.value (shows.one _ second (by simp)))
      (Yields.look (Yields.individualArgument declares constant.left one)
      (Yields.look (Yields.individualArgument declares constant.right two) (Yields.pure _))))
  | .builtin predicate arguments, valid, _, _, described, _ => by
    obtain ⟨elements, head, chain, pairs, list, built⟩ := described
    have reads : world.Yields (elements.mapM Translation.dataArgument) (arguments.map id) [] [] :=
      Yields.eachLook pairs fun argument _ term argued => Yields.dataArgument declares argued
    rw [List.map_id] at reads
    refine yields_atomNode .builtin built rfl (fun view shows => yields_atomPropertyKind_none .builtin rfl shows rfl)
      fun view shows => ?_
    refine Yields.weaken (Yields.look (Yields.value (shows.one _ (predicate : Term) (by simp)))
      (Yields.look (Yields.value (shows.one _ head (by simp))) (Yields.look (Yields.named _ predicate)
      (Yields.step (Yields.readList list (pairs.length_eq ▸ valid)) (Yields.look reads (Yields.pure _)))))) ?_ ?_ <;> simp

end Atoms

end World

end OwlGraph
