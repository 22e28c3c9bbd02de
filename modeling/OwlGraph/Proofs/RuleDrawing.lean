import OwlGraph.Proofs.ExpressionDrawing
import OwlGraph.Proofs.StatementDescription
import OwlGraph.Rendering.Rule

/-! Writing rules describes them. Besides the triples of the atoms, every occurrence of a variable
declares it; these declarations are about no fresh node and belong to no atom. -/

namespace OwlGraph

/-- The variables of the argument. -/
def IndividualArgument.variableNames : IndividualArgument → List Iri
  | .variable iri => [iri]
  | .individual _ => []

def DataArgument.variableNames : DataArgument → List Iri
  | .variable iri => [iri]
  | .literal _ => []

def Atom.variableNames : Atom → List Iri
  | .cls _ argument => argument.variableNames
  | .dataRange _ argument => argument.variableNames
  | .objectProperty _ subject object => subject.variableNames ++ object.variableNames
  | .dataProperty _ subject object => subject.variableNames ++ object.variableNames
  | .sameIndividual first second | .differentIndividuals first second => first.variableNames ++ second.variableNames
  | .builtin _ arguments => arguments.flatMap DataArgument.variableNames

def Rule.variableNames (rule : Rule) : List Iri := (rule.body ++ rule.head).flatMap Atom.variableNames

/-- The block consists of the operands and of the declarations of the variables. -/
def Declaring (names : List Iri) (operands block : List Triple) : Prop :=
  ∀ triple, triple ∈ block ↔ triple ∈ operands ∨ ∃ iri ∈ names, triple = variableTriple iri

namespace Declaring

variable {names others : List Iri} {operands block first second one two : List Triple}

theorem none (block : List Triple) : Declaring [] block block := by simp [Declaring]

theorem append (left : Declaring names one first) (right : Declaring others two second) :
    Declaring (names ++ others) (one ++ two) (first ++ second) := by
  intro triple
  simp only [List.mem_append, left triple, right triple, or_and_right, exists_or]
  exact or_or_or_comm

theorem append_left (declaring : Declaring names operands block) (more : List Triple) :
    Declaring names (operands ++ more) (block ++ more) := by
  have both := declaring.append (none more)
  rwa [List.append_nil] at both

end Declaring

/-- A construct of the operands alone. -/
theorem Construct.declaring {graph parts operands block : List Triple} {values : List (Iri × Term)} {term : Term}
    {names : List Iri} (built : Construct graph values parts term block) (declaring : Declaring names operands parts) :
    ∃ own, Construct graph values operands term own ∧ Declaring names own block := by
  obtain ⟨node, rfl, carries, apart, rfl⟩ := built
  refine ⟨_, ⟨node, rfl, carries, fun triple member => ?_, rfl⟩, declaring.append_left _⟩
  exact apart triple ((declaring triple).mpr (.inl member))

/-- Items that are described apart from their variables are described one by one. -/
theorem Each.declaring {α : Type} {describes : α → Term → List Triple → Prop} {names : α → List Iri} :
    ∀ {items : List α} {terms : List Term} {block : List Triple},
      Each (fun item term block => ∃ operands, describes item term operands ∧ Declaring (names item) operands block)
        items terms block → ∃ operands, Each describes items terms operands ∧ Declaring (items.flatMap names) operands block
  | [], [], _, each => ⟨[], rfl, by rw [show _ = [] from each]; exact .none []⟩
  | [], _ :: _, _, each | _ :: _, [], _, each => each.elim
  | _ :: _, _ :: _, _, ⟨_, _, ⟨first, described, declaring⟩, rest, rfl⟩ => by
    obtain ⟨others, each, more⟩ := rest.declaring
    exact ⟨first ++ others, ⟨first, others, described, each, rfl⟩, declaring.append more⟩

namespace Rendering

section Subjects

/-- The triple is about a fresh node or declares a variable. -/
def Introduces (supply : Nat → BlankNode) (triple : Triple) : Prop :=
  (∃ number, triple.subject = supply number) ∨ ∃ iri, triple = variableTriple iri

theorem Writes.introduces {α : Type} {body : Rendering α} (anew : Anew body) : Writes Introduces body := anew.mono fun _ _ => .inl

theorem introduces_construct (values : List (Iri × Term)) : Writes Introduces (construct values) := .introduces (anew_construct values)

theorem introduces_variableTerm (iri : Iri) : Writes Introduces (variableTerm iri) := by
  refine Writes.bind (fun supply draft => ⟨[variableTriple iri], rfl, ?_⟩) fun _ => .pure _
  exact List.forall_mem_singleton.mpr (.inr ⟨iri, rfl⟩)

theorem introduces_individualArgument : ∀ argument, Writes Introduces (individualArgument argument)
  | .variable iri => introduces_variableTerm iri
  | .individual _ => .pure _

theorem introduces_dataArgument : ∀ argument, Writes Introduces (dataArgument argument)
  | .variable iri => introduces_variableTerm iri
  | .literal _ => .pure _

theorem introduces_atom : ∀ a, Writes Introduces (atom a)
  | .cls expression argument => (Writes.introduces (anew_classExpression expression)).bind fun node =>
    (introduces_individualArgument argument).bind fun value =>
      introduces_construct [(Rdf.type, (Swrl.ClassAtom : Term)), (Swrl.classPredicate, (node : Term)), (Swrl.argument1, value)]
  | .dataRange range argument => (Writes.introduces (anew_dataRange range)).bind fun node =>
    (introduces_dataArgument argument).bind fun value =>
      introduces_construct [(Rdf.type, (Swrl.DataRangeAtom : Term)), (Swrl.dataRange, (node : Term)), (Swrl.argument1, value)]
  | .objectProperty p subject object => (Writes.introduces (anew_property p)).bind fun node =>
    (introduces_individualArgument subject).bind fun first => (introduces_individualArgument object).bind fun second =>
      introduces_construct (Atom.binaryValues Swrl.IndividualPropertyAtom first second ++ [(Swrl.propertyPredicate, (node : Term))])
  | .dataProperty p subject object => (introduces_individualArgument subject).bind fun first =>
    (introduces_dataArgument object).bind fun second =>
      introduces_construct (Atom.binaryValues Swrl.DatavaluedPropertyAtom first second ++ [(Swrl.propertyPredicate, (p : Term))])
  | .sameIndividual one other => (introduces_individualArgument one).bind fun first =>
    (introduces_individualArgument other).bind fun second =>
      introduces_construct (Atom.binaryValues Swrl.SameIndividualAtom first second)
  | .differentIndividuals one other => (introduces_individualArgument one).bind fun first =>
    (introduces_individualArgument other).bind fun second =>
      introduces_construct (Atom.binaryValues Swrl.DifferentIndividualsAtom first second)
  | .builtin predicate arguments => (Writes.each arguments introduces_dataArgument).bind fun elements =>
    (Writes.introduces (anew_list elements)).bind fun head =>
      introduces_construct [(Rdf.type, (Swrl.BuiltinAtom : Term)), (Swrl.builtin, (predicate : Term)), (Swrl.arguments, head)]

theorem introduces_rule (implication : Rule) : Writes Introduces (rule implication) := by
  have conjunction (items : List Atom) : Writes Introduces (atoms items) :=
    (Writes.each items fun item => (introduces_atom item).bind fun _ => .pure _).bind fun elements => .introduces (anew_list elements)
  exact (conjunction implication.body).bind fun body => (conjunction implication.head).bind fun head =>
    introduces_construct [(Rdf.type, (Swrl.Imp : Term)), (Swrl.body, body), (Swrl.head, head)]

end Subjects

variable {supply : Nat → BlankNode} {allowed : Triple → Prop} {start : Nat} {limit : Nat}

theorem draws_variableTerm (iri : Iri) : Draws supply allowed (variableTerm iri) start fun graph term block =>
    term = iri ∧ variableTriple iri ∈ graph ∧ Declaring [iri] [] block := by
  have emits : Emits supply (variableTerm iri) start (iri : Term) start ([variableTriple iri] ++ []) :=
    (Emits.write iri Rdf.type Swrl.Variable).bind (Emits.pure _)
  refine ⟨_, _, _, emits, ⟨Nat.le_refl _, ?_⟩, fun graph sealed => ⟨rfl, sealed.subset _ List.mem_cons_self, ?_⟩⟩
  · exact List.forall_mem_singleton.mpr nofun
  · simp [Declaring]

theorem draws_individualArgument (argument : IndividualArgument) :
    Draws supply allowed (individualArgument argument) start fun graph term block =>
      argument.Described graph term ∧ Declaring argument.variableNames [] block := by
  cases argument with
  | «variable» iri =>
    exact (draws_variableTerm iri).weaken fun graph term block ⟨same, declared, declaring⟩ => ⟨⟨same, declared⟩, declaring⟩
  | individual node =>
    exact (Draws.pure (node : Term)).weaken fun graph term block ⟨same, empty⟩ => ⟨same, by rw [empty]; exact .none []⟩

theorem draws_dataArgument (argument : DataArgument) :
    Draws supply allowed (dataArgument argument) start fun graph term block =>
      argument.Described graph term ∧ Declaring argument.variableNames [] block := by
  cases argument with
  | «variable» iri =>
    exact (draws_variableTerm iri).weaken fun graph term block ⟨same, declared, declaring⟩ => ⟨⟨same, declared⟩, declaring⟩
  | literal value =>
    exact (Draws.pure (value : Term)).weaken fun graph term block ⟨same, empty⟩ => ⟨same, by rw [empty]; exact .none []⟩

theorem draws_dataArguments (arguments : List DataArgument) :
    Draws supply allowed (arguments.mapM dataArgument) start fun graph elements block =>
      List.Forall₂ (DataArgument.Described graph) arguments elements ∧ Declaring (arguments.flatMap DataArgument.variableNames) [] block := by
  induction arguments generalizing start with
  | nil =>
    rw [List.mapM_nil]
    refine (Draws.pure []).weaken ?_
    rintro graph elements block ⟨rfl, rfl⟩
    exact ⟨.nil, .none []⟩
  | cons argument rest ih =>
    rw [List.mapM_cons]
    refine ((draws_dataArgument argument).bind fun value middle => ih.bind fun values _ => Draws.pure (value :: values)).weaken ?_
    rintro graph elements block
      ⟨value, _, first, _, _, ⟨described, declaring⟩, ⟨values, _, second, _, _, ⟨each, more⟩, ⟨rfl, rfl⟩, rfl⟩, rfl⟩
    rw [List.append_nil]
    exact ⟨.cons described each, declaring.append more⟩

variable (distinct : ∀ m n, supply m = supply n → m = n)
  (inner : ∀ triple, allowed triple → triple.predicate ∈ Role.classAxiomPredicates)
include distinct inner

/-- The parts of an atom and then its node. -/
private theorem draws_atomNode {α : Type} {body : Rendering α} {post : List Triple → α → List Triple → Prop}
    (draws : Draws supply allowed body start post) (values : α → List (Iri × Term))
    (own : ∀ a, ∀ value ∈ values a, value.1 ∈ Role.constructPredicates) :
    Draws supply allowed (body >>= fun a => construct (values a)) start fun graph node block =>
      ∃ a parts, post graph a parts ∧ Construct graph (values a) parts node block :=
  draws.construct distinct values inner fun a value member => Role.construct_not_classAxiom _ (own a value member)

/-- An atom of two arguments, the later values of its node apart. -/
private theorem draws_arguments {α β : Type} {left : Rendering α} {right : Rendering β}
    {one : List Triple → α → Prop} {two : List Triple → β → Prop} {names others : List Iri}
    (draws : ∀ start, Draws supply allowed left start fun graph value block => one graph value ∧ Declaring names [] block)
    (later : ∀ start, Draws supply allowed right start fun graph value block => two graph value ∧ Declaring others [] block)
    (values : α × β → List (Iri × Term)) (own : ∀ a, ∀ value ∈ values a, value.1 ∈ Role.constructPredicates) :
    Draws supply allowed ((do let a ← left; let b ← right; Pure.pure (a, b)) >>= fun a => construct (values a)) start
      fun graph node block => ∃ operands, (∃ first second, one graph first ∧ two graph second ∧
        Construct graph (values (first, second)) [] node operands) ∧ Declaring (names ++ others) operands block := by
  refine (draws_atomNode distinct inner ((draws start).pair later) values own).weaken ?_
  rintro graph node block ⟨⟨a, b⟩, _, ⟨first, second, ⟨here, declaring⟩, ⟨there, more⟩, rfl⟩, built⟩
  obtain ⟨operands, built, declared⟩ := built.declaring (declaring.append more)
  exact ⟨operands, ⟨a, b, here, there, built⟩, declared⟩

theorem draws_atom : ∀ (a : Atom) (_ : a.WellFormed limit) (start : Nat),
    Draws supply allowed (atom a) start fun graph node block =>
      ∃ operands, a.Described graph node operands ∧ Declaring a.variableNames operands block
  | .cls expression argument, valid, start => by
    refine (draws_atomNode distinct inner ((draws_classExpression distinct inner expression valid start).pair
      fun _ => draws_individualArgument argument) (fun parts => [(Rdf.type, (Swrl.ClassAtom : Term)),
        (Swrl.classPredicate, (parts.1 : Term)), (Swrl.argument1, parts.2)]) (by simp)).weaken ?_
    rintro graph node block ⟨⟨element, value⟩, _, ⟨first, second, described, ⟨filled, declaring⟩, rfl⟩, built⟩
    obtain ⟨operands, built, declared⟩ := built.declaring ((Declaring.none first).append declaring)
    rw [List.append_nil] at built
    exact ⟨operands, ⟨element, first, value, described, filled, built⟩, declared⟩
  | .dataRange range argument, valid, start => by
    refine (draws_atomNode distinct inner ((draws_dataRange distinct inner range valid start).pair
      fun _ => draws_dataArgument argument) (fun parts => [(Rdf.type, (Swrl.DataRangeAtom : Term)),
        (Swrl.dataRange, (parts.1 : Term)), (Swrl.argument1, parts.2)]) (by simp)).weaken ?_
    rintro graph node block ⟨⟨element, value⟩, _, ⟨first, second, described, ⟨filled, declaring⟩, rfl⟩, built⟩
    obtain ⟨operands, built, declared⟩ := built.declaring ((Declaring.none first).append declaring)
    rw [List.append_nil] at built
    exact ⟨operands, ⟨element, first, value, described, filled, built⟩, declared⟩
  | .objectProperty (.named property) subject object, _, start =>
    draws_arguments distinct inner (fun _ => draws_individualArgument subject) (fun _ => draws_individualArgument object)
      (fun parts => Atom.binaryValues Swrl.IndividualPropertyAtom parts.1 parts.2 ++ [(Swrl.propertyPredicate, (property : Term))])
      (by simp [Atom.binaryValues])
  | .dataProperty property subject object, _, start =>
    draws_arguments distinct inner (fun _ => draws_individualArgument subject) (fun _ => draws_dataArgument object)
      (fun parts => Atom.binaryValues Swrl.DatavaluedPropertyAtom parts.1 parts.2 ++ [(Swrl.propertyPredicate, (property : Term))])
      (by simp [Atom.binaryValues])
  | .sameIndividual first second, _, start =>
    draws_arguments distinct inner (fun _ => draws_individualArgument first) (fun _ => draws_individualArgument second)
      (fun parts => Atom.binaryValues Swrl.SameIndividualAtom parts.1 parts.2) (by simp [Atom.binaryValues])
  | .differentIndividuals first second, _, start =>
    draws_arguments distinct inner (fun _ => draws_individualArgument first) (fun _ => draws_individualArgument second)
      (fun parts => Atom.binaryValues Swrl.DifferentIndividualsAtom parts.1 parts.2) (by simp [Atom.binaryValues])
  | .builtin predicate arguments, _, start => by
    refine (draws_atomNode distinct inner (draws_listed distinct inner (draws_dataArguments arguments))
      (fun head => [(Rdf.type, (Swrl.BuiltinAtom : Term)), (Swrl.builtin, (predicate : Term)), (Swrl.arguments, head)])
      (by simp)).weaken ?_
    rintro graph node block ⟨head, _, ⟨elements, parts, chain, ⟨each, declaring⟩, list, rfl⟩, built⟩
    obtain ⟨operands, built, declared⟩ := built.declaring (declaring.append_left chain)
    exact ⟨operands, ⟨elements, head, chain, each, list, built⟩, declared⟩

/-- A conjunction and the list of its atoms. -/
theorem draws_atoms {conjunction : List Atom} (valid : ∀ a ∈ conjunction, a.WellFormed limit) :
    Draws supply allowed (atoms conjunction) start fun graph head block => ∃ operands,
      Listed graph (Each (Atom.Described graph) conjunction) head operands ∧
        Declaring (conjunction.flatMap Atom.variableNames) operands block := by
  have each : Draws supply allowed (conjunction.mapM fun item => return (.resource (← atom item) : Term)) start
      fun graph values block => Each (fun item term block => ∃ operands, item.Described graph term operands ∧
        Declaring item.variableNames operands block) conjunction (values.map id) block := by
    refine Draws.each id conjunction fun item member start => ?_
    refine ((draws_atom distinct inner item (valid item member) start).map fun node : Node => (node : Term)).weaken ?_
    rintro graph term block ⟨node, described, rfl⟩
    exact described
  refine (draws_listed distinct inner each).weaken ?_
  rintro graph head block ⟨elements, parts, chain, described, list, rfl⟩
  rw [List.map_id] at described
  obtain ⟨operands, described, declaring⟩ := described.declaring
  exact ⟨operands ++ chain, ⟨elements, operands, chain, described, list, rfl⟩, declaring.append_left chain⟩

end Rendering

end OwlGraph
