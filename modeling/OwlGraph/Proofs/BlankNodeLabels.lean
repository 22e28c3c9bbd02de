import Mathlib.Data.Set.Function
import Std.Data.String.ToNat
import OwlGraph.Proofs.ParallelLoad
import OwlGraph.Proofs.Phases

/-! The labels of blank nodes do not matter. Graphs that differ in them load alike: the header, the
axioms and the problems are the same. An anonymous individual is called by the number of the load
and by the place of its blank node among those of the graph, in the order in which they first
occur; so different nodes have different individuals, and loads with different numbers share none. -/

namespace OwlGraph

/-- The triple with its blank nodes renamed. -/
def Triple.rename (f : BlankNode → BlankNode) (triple : Triple) : Triple :=
  ⟨triple.subject.rename f, triple.predicate, triple.object.rename f⟩

/-- The blank nodes of the triples, each once, in the order in which they first occur; the subject of
a triple comes before its object. -/
def blankNodes (triples : List Triple) : List BlankNode := (triples.flatMap Triple.blanks).eraseDups

/-- The label of the anonymous individual that a blank node of the triples stands for. -/
def individualLabel (number : Nat) (triples : List Triple) (node : BlankNode) : BlankNode :=
  ⟨s!"s{Nat.repr number}n{Nat.repr ((blankNodes triples).idxOf node)}"⟩

/-- The anonymous individual occurs in an axiom or in an annotation of the ontology. -/
def Ontology.Mentions (ontology : Ontology) (name : BlankNode) : Prop :=
  (∃ fact ∈ ontology.axioms, .anonymous name ∈ fact.components) ∨
    ∃ note ∈ ontology.annotations, .anonymous name ∈ note.components

/-- The same ontology after the same number of passes, and problems of the same kinds and severities
in the same order. -/
structure Loaded.Alike (first second : Loaded) : Prop where
  ontology : second.ontology = first.ontology
  passes : second.passes = first.passes
  reports : List.Forall₂ Report.Alike first.reports second.reports

namespace Pairing

variable {pairing : Pairing} {triples others : List Triple}

section Start

theorem rel_blanks {triple statement : Triple} (same : pairing.Triples triple statement) :
    List.Forall₂ pairing.Pairs triple.blanks statement.blanks :=
  List.rel_append (rel_toList same.subject.blank?) (rel_toList same.object.blank?)

theorem Stores.ofTriples (same : List.Forall₂ pairing.Triples triples others)
    (occurs : ∀ node partner, pairing.Pairs node partner → node ∈ triples.flatMap Triple.blanks)
    (ranks : ∀ node, pairing.rank node = (blankNodes triples).idxOf node) :
    pairing.Stores (.ofTriples triples) (.ofTriples others) := by
  have blanks : List.Forall₂ pairing.Pairs (triples.flatMap Triple.blanks) (others.flatMap Triple.blanks) :=
    List.rel_flatMap same fun _ _ own => rel_blanks own
  refine ⟨.ofTriples same, fun node partner pair => ?_⟩
  have member := occurs node partner pair
  have present : partner ∈ others.flatMap Triple.blanks := by
    rw [← List.contains_iff_mem, contains_of_forall₂ pairing.same_iff blanks pair, List.contains_iff_mem]
    exact member
  rw [(TripleStore.ranked_ofTriples triples).ranks, (TripleStore.ranked_ofTriples others).ranks, if_pos member, if_pos present,
    idxOf_of_forall₂ pairing.same_iff (rel_eraseDups pairing.same_iff blanks) pair, ranks]
  exact ⟨rfl, rfl⟩

theorem sessions_start (stores : pairing.Stores (.ofTriples triples) (.ofTriples others)) (document : Option Iri) :
    pairing.Sessions (Load.start document triples) (Load.start document others) where
  store := stores
  ontology := rfl
  reports := .nil
  pending := .nil
  kinds := rfl
  kindsChanged := rfl
  ruleVariables := rfl
  header := .none
  produced := rfl
  visiting := .nil
  passes := rfl
  founded := ⟨AxiomIndex.sound_empty, nofun, nofun, fun id fact found => by simp [Load.start] at found⟩

end Start

/-- Graphs with paired nodes load alike. -/
theorem results_loadTriples (config : Config) (document : Option Iri)
    (stores : pairing.Stores (.ofTriples triples) (.ofTriples others)) :
    Results LoadError.Alike Loaded.Alike
      (loadTriples config pairing.number document triples) (loadTriples config pairing.number document others) := by
  obtain ⟨results, later⟩ := @loads_translate pairing ⟨config, pairing.number, false⟩ rfl _ _ (sessions_start stores document)
  rw [Load.start, Load.start] at results later
  rw [loadTriples, loadTriples]
  generalize Load.translate ⟨config, pairing.number, false⟩ _ = run at results later ⊢
  generalize Load.translate ⟨config, pairing.number, false⟩ _ = rerun at results later ⊢
  obtain ⟨result, first⟩ := run
  obtain ⟨outcome, second⟩ := rerun
  cases results with
  | error errors => exact .error errors
  | ok => exact .ok ⟨later.ontology, later.passes, later.reports⟩

/-- The anonymous individuals of a loaded ontology stand for paired nodes. -/
theorem mentions_of_accepted {config : Config} {document : Option Iri} {loaded : Loaded} {name : BlankNode}
    (stores : pairing.Stores (.ofTriples triples) (.ofTriples others))
    (accepted : loadTriples config pairing.number document triples = .ok loaded) (mentions : loaded.ontology.Mentions name) :
    ∃ node partner, pairing.Pairs node partner ∧ name = pairing.label node := by
  have later := (@loads_translate pairing ⟨config, pairing.number, false⟩ rfl _ _ (sessions_start stores document)).2
  obtain ⟨-, rfl⟩ := loadTriples_eq_ok.mp accepted
  rcases mentions with ⟨fact, member, inside⟩ | ⟨note, member, inside⟩
  · exact later.founded.facts fact member _ inside
  · exact later.founded.notes note member _ inside

/-- The translator has one name for a paired node before the load and after it. -/
theorem anonymous_translate (config : Config) (document : Option Iri) {node partner : BlankNode}
    (stores : pairing.Stores (.ofTriples triples) (.ofTriples others)) (pair : pairing.Pairs node partner) :
    (Load.start document triples).anonymous pairing.number node = pairing.label node ∧
      (Load.translate ⟨config, pairing.number, false⟩ (Load.start document triples)).2.anonymous pairing.number node =
        pairing.label node := by
  have started := sessions_start stores document
  have ended := (@loads_translate pairing ⟨config, pairing.number, false⟩ rfl _ _ started).2
  exact ⟨(started.anonymous pair).1, (ended.anonymous pair).1⟩

/-- Pairs the blank nodes of the triples with their new names. -/
def ofRenaming (number : Nat) (triples : List Triple) (f : BlankNode → BlankNode)
    (apart : Set.InjOn f {node | node ∈ triples.flatMap Triple.blanks}) : Pairing where
  Pairs node partner := node ∈ triples.flatMap Triple.blanks ∧ partner = f node
  same_iff := by
    rintro node _ other _ ⟨here, rfl⟩ ⟨there, rfl⟩
    exact ⟨fun same => apart here there same, congrArg f⟩
  number := number
  rank := (blankNodes triples).idxOf

theorem rel_rename (number : Nat) {f : BlankNode → BlankNode} (apart : Set.InjOn f {node | node ∈ triples.flatMap Triple.blanks}) :
    List.Forall₂ (ofRenaming number triples f apart).Triples triples (triples.map (Triple.rename f)) := by
  have node {node : Node} (inside : ∀ blank ∈ node.blank?, blank ∈ triples.flatMap Triple.blanks) :
      (ofRenaming number triples f apart).Nodes node (node.rename f) := by
    cases node with
    | named iri => exact .named iri
    | blank blank => exact .blank ⟨inside blank rfl, rfl⟩
  rw [List.forall₂_map_right_iff, List.forall₂_same]
  intro triple member
  have inside : ∀ blank ∈ triple.blanks, blank ∈ triples.flatMap Triple.blanks := fun blank own =>
    List.mem_flatMap.mpr ⟨triple, member, own⟩
  have subject : ∀ blank ∈ triple.subject.blank?, blank ∈ triples.flatMap Triple.blanks := fun blank own =>
    inside blank (List.mem_append_left _ (Option.mem_toList.mpr own))
  have object : ∀ blank ∈ triple.object.blank?, blank ∈ triples.flatMap Triple.blanks := fun blank own =>
    inside blank (List.mem_append_right _ (Option.mem_toList.mpr own))
  refine ⟨node subject, rfl, ?_⟩
  change (ofRenaming number triples f apart).Terms triple.object (triple.object.rename f)
  cases shape : triple.object with
  | literal value => exact .literal value
  | resource target => exact .resource (node fun blank own => object blank (by rw [shape]; exact own))

theorem stores_rename (number : Nat) {f : BlankNode → BlankNode} (apart : Set.InjOn f {node | node ∈ triples.flatMap Triple.blanks}) :
    (ofRenaming number triples f apart).Stores (.ofTriples triples) (.ofTriples (triples.map (Triple.rename f))) :=
  .ofTriples (rel_rename number apart) (fun _ _ pair => pair.1) fun _ => rfl

end Pairing

section Labels

variable {config : Config} {number count : Nat} {document : Option Iri} {triples : List Triple} {loaded : Loaded} {name : BlankNode}

/-- The number of the load and the rank of the node can be read off the label: no digit is the letter between them. -/
theorem label_injective {rank place : Nat} (same : (⟨s!"s{Nat.repr number}n{Nat.repr rank}"⟩ : BlankNode) =
    ⟨s!"s{Nat.repr count}n{Nat.repr place}"⟩) : number = count ∧ rank = place := by
  have digits (value : Nat) : 'n' ∉ (Nat.repr value).toList := fun member =>
    absurd (isDigit_of_mem_repr member) (by decide)
  have shape (number rank : Nat) : (s!"s{Nat.repr number}n{Nat.repr rank}").toList =
      's' :: ((Nat.repr number).toList ++ 'n' :: (Nat.repr rank).toList) := by
    simp [toString]
  have texts := congrArg String.toList (congrArg BlankNode.label same)
  rw [shape, shape, List.cons.injEq, List.append_cons_inj_of_notMem (digits number) (digits rank)] at texts
  exact ⟨Nat.repr_injective (String.toList_inj.mp texts.2.1), Nat.repr_injective (String.toList_inj.mp texts.2.2.2)⟩

theorem individualLabel_injective {node other : BlankNode} (member : node ∈ blankNodes triples)
    (same : individualLabel number triples node = individualLabel number triples other) : node = other :=
  (List.idxOf_inj member).mp (label_injective same).2

/-- Every anonymous individual is called after a blank node of the graph. -/
theorem mentions_loadTriples (accepted : loadTriples config number document triples = .ok loaded) (mentions : loaded.ontology.Mentions name) :
    ∃ node ∈ blankNodes triples, name = individualLabel number triples node := by
  have stores := Pairing.stores_rename number (Set.injOn_id {node | node ∈ triples.flatMap Triple.blanks})
  obtain ⟨node, partner, ⟨member, -⟩, same⟩ := Pairing.mentions_of_accepted stores accepted mentions
  exact ⟨node, List.mem_eraseDups.mpr member, same⟩

/-- Loads with different numbers share no anonymous individual. -/
theorem mentions_apart {setting : Config} {place : Option Iri} {graph : List Triple} {other : Loaded} (different : count ≠ number)
    (accepted : loadTriples config number document triples = .ok loaded) (admitted : loadTriples setting count place graph = .ok other)
    (mentions : loaded.ontology.Mentions name) : ¬ other.ontology.Mentions name := by
  intro also
  obtain ⟨node, -, called⟩ := mentions_loadTriples accepted mentions
  obtain ⟨partner, -, named⟩ := mentions_loadTriples admitted also
  exact different (label_injective (named.symm.trans called)).1

end Labels

/-- Blank nodes are known by their places in the graph alone. Graphs that differ only in the labels of
their blank nodes load alike. The translator calls a blank node by the number of the load and the rank
of the node among the blank nodes, before the load and after it, and every anonymous individual is
called so; hence different nodes, and loads with different numbers, never share one. -/
theorem loadTriples_rename (config : Config) (number : Nat) (document : Option Iri) (triples : List Triple)
    (f : BlankNode → BlankNode) (apart : Set.InjOn f {node | node ∈ triples.flatMap Triple.blanks}) :
    Pairing.Results LoadError.Alike Loaded.Alike (loadTriples config number document triples)
      (loadTriples config number document (triples.map (Triple.rename f))) ∧
    (∀ node ∈ blankNodes triples,
      (Load.start document triples).anonymous number node = individualLabel number triples node ∧
      (Load.translate ⟨config, number, false⟩ (Load.start document triples)).2.anonymous number node =
        individualLabel number triples node) ∧
    (∀ node ∈ blankNodes triples, ∀ other ∈ blankNodes triples,
      individualLabel number triples node = individualLabel number triples other → node = other) ∧
    ∀ loaded, loadTriples config number document triples = .ok loaded →
      (∀ name, loaded.ontology.Mentions name → ∃ node ∈ blankNodes triples, name = individualLabel number triples node) ∧
      ∀ setting count place graph other, count ≠ number → loadTriples setting count place graph = .ok other →
        ∀ name, loaded.ontology.Mentions name → ¬ other.ontology.Mentions name := by
  have stores := Pairing.stores_rename number apart
  have alike := Pairing.results_loadTriples config document stores
  have called (node : BlankNode) (member : node ∈ blankNodes triples) :=
    Pairing.anonymous_translate config document stores ⟨List.mem_eraseDups.mp member, rfl⟩
  refine ⟨alike, called, fun node member other _ same => individualLabel_injective member same, fun loaded accepted => ⟨?_, ?_⟩⟩
  · exact fun name mentions => mentions_loadTriples accepted mentions
  · exact fun setting count place graph other different admitted name mentions =>
      mentions_apart different accepted admitted mentions

namespace Samples

/-- An anonymous individual that refers to another one. -/
def reference : List Triple := [⟨.blank ⟨"a"⟩, Rdfs.seeAlso, .resource (.blank ⟨"b"⟩)⟩]

def referring : Row := ⟨0, .blank ⟨"a"⟩, Rdfs.seeAlso, .resource (.blank ⟨"b"⟩)⟩

/-- The labels in the place of each other. -/
def crossing (node : BlankNode) : BlankNode := if node = ⟨"a"⟩ then ⟨"b"⟩ else if node = ⟨"b"⟩ then ⟨"a"⟩ else node

theorem crossing_apart : Set.InjOn crossing {node | node ∈ reference.flatMap Triple.blanks} := by
  have nodes : reference.flatMap Triple.blanks = [⟨"a"⟩, ⟨"b"⟩] := rfl
  intro node here other there
  rw [Set.mem_ofPred, nodes, List.mem_pair] at here there
  rcases here with rfl | rfl <;> rcases there with rfl | rfl <;> decide

theorem begins_reference : (Load.start none reference).store.Lists [referring] [] := TripleStore.lists_ofTriples (by decide)

/-- A strict load accepts the reference. -/
theorem loads_reference : ∃ loaded, loadTriples { strict := true } 3 none reference = .ok loaded ∧
    loaded.ontology.Mentions ((Load.start none reference).anonymous 3 ⟨"a"⟩) ∧
      loaded.ontology.Mentions ((Load.start none reference).anonymous 3 ⟨"b"⟩) := by
  let context : Context := ⟨{ strict := true }, 3, false⟩
  let start := Load.start none reference
  let fact : AnnotatedAxiom := .of (.annotationAssertion Rdfs.seeAlso (.blank (start.anonymous 3 ⟨"a"⟩))
    (.resource (.blank (start.anonymous 3 ⟨"b"⟩)))) []
  have untyped : start.store.withPredicate Rdf.type = [] := by
    rw [begins_reference.indexed.withPredicate, begins_reference.listed]
    decide
  have declared : start.readDeclarations true = start := by
    rw [Session.readDeclarations, untyped]
    rfl
  have work : (start.store.unconsumed.filter fun row => start.isCandidate row.triple) = [referring] := by
    have subjects : start.store.withSubject referring.triple.subject = [referring] := by
      rw [begins_reference.indexed.withSubject, begins_reference.listed]
      decide
    have special : start.isSpecial referring.triple.subject = false := by
      rw [Session.isSpecial, TripleStore.types, TripleStore.objects, TripleStore.matching, subjects]
      decide
    have structural : start.isStructural referring.triple.subject = false := by
      change ((start.store.withSubject referring.triple.subject).any fun row => Session.describesConstruct row.triple) = false
      rw [subjects]
      decide
    have yes : start.isCandidate referring.triple = true := by
      rw [Session.isCandidate, if_neg (by decide), special, structural]
      decide
    have unconsumed : start.store.unconsumed = [referring] := by
      rw [begins_reference.unconsumed]
      decide
    rw [unconsumed, List.filter_cons, yes]
    rfl
  let first : Session := { start with passes := 1, kindsChanged := false }
  have kind : first.propertyKind? Rdfs.seeAlso = some .annotating := by
    have none (kind : EntityKind) : first.kinds.contains ⟨kind, Rdfs.seeAlso⟩ = false := Std.HashSet.contains_empty
    simp only [Session.propertyKind?, PropertyKind.all, Session.hasKind, none]
    decide
  have read : Translation.statement referring.triple context first = (.ok fact, first) := by
    have annotating : Translation.assertionKind Rdfs.seeAlso referring.triple.object context first = (.ok .annotating, first) := by
      rw [Translation.assertionKind, Run.get_bind, kind]
      rfl
    have bare : Translation.predicateAxiom referring.triple.subject Rdfs.seeAlso referring.triple.object context first =
        (.ok (.annotationAssertion Rdfs.seeAlso (.blank (start.anonymous 3 ⟨"a"⟩)) (.resource (.blank (start.anonymous 3 ⟨"b"⟩)))),
          first) := by
      change Translation.assertion _ _ _ context first = _
      rw [Translation.assertion, Run.bind_run annotating]
      rfl
    exact Run.bind_run bare _
  let final := (first.consume 0).commit 0 fact
  have done : final.store.Lists [referring] [0] := begins_reference.consume 0
  have axioms : Load.translateAxioms context start = (.ok (), final) :=
    Load.translateAxioms_once work (by decide) rfl (Nat.succ_pos _)
      (Load.runPass_single (begins_reference.used referring (by decide)) read rfl)
  have nodes : final.axiomNodes = [] := Session.axiomNodes_of_lists done (by decide)
  have rest : final.store.unconsumed.forM Load.reportUnparsed context final = (.ok (), final) := by
    have unconsumed : final.store.unconsumed = [] := by
      rw [done.unconsumed]
      decide
    rw [unconsumed]
    rfl
  have run : Load.translate context start = (.ok (), final) := by
    refine Load.translate_ok ?_ ?_
    · rw [Session.ontologyNodes, untyped]
      rfl
    · rw [declared]
      exact Load.afterDeclarations_ok rfl axioms nodes rest
  have told : fact ∈ final.ontology.axioms := (Ontology.mem_axioms_add AxiomIndex.sound_empty).mpr (.inl rfl)
  exact ⟨Loaded.of final, loadTriples_of_run run,
    .inl ⟨fact, told, List.mem_cons_of_mem _ List.mem_cons_self⟩,
    .inl ⟨fact, told, List.mem_cons_of_mem _ (List.mem_cons_of_mem _ List.mem_cons_self)⟩⟩

end Samples

theorem loadTriples_rename_crossing :
    Set.InjOn Samples.crossing {node | node ∈ Samples.reference.flatMap Triple.blanks} ∧
    Pairing.Results LoadError.Alike Loaded.Alike (loadTriples { strict := true } 3 none Samples.reference)
      (loadTriples { strict := true } 3 none (Samples.reference.map (Triple.rename Samples.crossing))) ∧
    ∃ loaded, loadTriples { strict := true } 3 none Samples.reference = .ok loaded ∧
      loaded.ontology.Mentions (individualLabel 3 Samples.reference ⟨"a"⟩) ∧
      loaded.ontology.Mentions (individualLabel 3 Samples.reference ⟨"b"⟩) ∧
      ∀ other, loadTriples { strict := true } 4 none Samples.reference = .ok other →
        ¬ other.ontology.Mentions (individualLabel 3 Samples.reference ⟨"a"⟩) := by
  obtain ⟨loaded, accepted, first, second⟩ := Samples.loads_reference
  obtain ⟨alike, called, -, shared⟩ :=
    loadTriples_rename { strict := true } 3 none Samples.reference Samples.crossing Samples.crossing_apart
  have nodes : blankNodes Samples.reference = [⟨"a"⟩, ⟨"b"⟩] := by decide
  rw [(called ⟨"a"⟩ (by rw [nodes]; decide)).1] at first
  rw [(called ⟨"b"⟩ (by rw [nodes]; decide)).1] at second
  exact ⟨Samples.crossing_apart, alike, loaded, accepted, first, second, fun other admitted =>
    (shared loaded accepted).2 _ 4 none Samples.reference other (by decide) admitted _ first⟩

end OwlGraph
