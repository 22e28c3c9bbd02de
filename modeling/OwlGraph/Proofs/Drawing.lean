import Mathlib.Data.List.Nodup
import OwlGraph.Proofs.Description
import OwlGraph.Rendering.Expression

/-! Writing that is described. Writing only appends triples, and takes fresh nodes from an
interval of the supply. When every triple about those nodes is among the appended ones, the
graph describes what was written, whatever else it says. -/

namespace OwlGraph.Rendering

variable {α β : Type} {supply : Nat → BlankNode} {allowed : Triple → Prop} {start middle stop : Nat}
  {graph block first second : List Triple}

/-- The body appends the block, which takes the fresh nodes from the start up to the stop. -/
def Emits (supply : Nat → BlankNode) (body : Rendering α) (start : Nat) (value : α) (stop : Nat)
    (block : List Triple) : Prop :=
  ∀ triples, body supply ⟨start, triples⟩ = (value, ⟨stop, triples ++ block.toArray⟩)

theorem Emits.pure (value : α) : Emits supply (pure value) start value start [] := by
  intro triples
  change (value, (⟨start, triples⟩ : Draft)) = _
  simp

/-- What is written from the beginning is the block. -/
theorem Emits.run {body : Rendering α} {value : α} (emits : Emits supply body 0 value stop block) :
    (body.run supply |>.run {}) = (value, ⟨stop, block.toArray⟩) := by
  have run := emits #[]
  rwa [Array.empty_append] at run

theorem Emits.bind {body : Rendering α} {next : α → Rendering β} {value : α} {result : β}
    (emits : Emits supply body start value middle first)
    (later : Emits supply (next value) middle result stop second) :
    Emits supply (body >>= next) start result stop (first ++ second) := by
  intro triples
  change (next (body supply ⟨start, triples⟩).1) supply (body supply ⟨start, triples⟩).2 = _
  rw [emits triples, later]
  simp

theorem Emits.write (subject : Node) (predicate : Iri) (object : Term) :
    Emits supply (write subject predicate object) start () start [⟨subject, predicate, object⟩] := fun triples => by
  change ((), (⟨start, triples.push _⟩ : Draft)) = _
  rw [Array.push_eq_append]

theorem Emits.fresh : Emits supply fresh start (.blank (supply start)) (start + 1) [] := fun triples => by
  change (Node.blank (supply start), (⟨start + 1, triples⟩ : Draft)) = _
  simp

/-- A fresh node in a subject position lies in the interval. -/
structure Within (supply : Nat → BlankNode) (start stop : Nat) (block : List Triple) : Prop where
  le : start ≤ stop
  subjects : ∀ triple ∈ block, ∀ number, triple.subject = supply number → start ≤ number ∧ number < stop

theorem Within.nil : Within supply start start [] := ⟨Nat.le_refl _, fun _ member => nomatch member⟩

theorem Within.append (before : Within supply start middle first) (after : Within supply middle stop second) :
    Within supply start stop (first ++ second) := by
  have lower := before.le
  have upper := after.le
  refine ⟨by omega, fun triple member number own => ?_⟩
  rcases List.mem_append.mp member with inside | inside
  · have bounds := before.subjects triple inside number own
    omega
  · have bounds := after.subjects triple inside number own
    omega

/-- The graph holds the block, and about the fresh nodes of the interval it says nothing else but
what is allowed. -/
structure Sealed (supply : Nat → BlankNode) (allowed : Triple → Prop) (graph : List Triple) (start stop : Nat)
    (block : List Triple) : Prop where
  subset : ∀ triple ∈ block, triple ∈ graph
  only : ∀ triple ∈ graph, ∀ number, start ≤ number → number < stop → triple.subject = supply number →
    triple ∈ block ∨ allowed triple

theorem Sealed.left (sealed : Sealed supply allowed graph start stop (first ++ second))
    (after : Within supply middle stop second) : Sealed supply allowed graph start middle first := by
  refine ⟨fun triple member => sealed.subset triple (List.mem_append_left _ member), ?_⟩
  intro triple member number lower upper own
  have bound := after.le
  refine (sealed.only triple member number lower (by omega) own).imp_left fun inside => ?_
  refine (List.mem_append.mp inside).resolve_right fun behind => ?_
  have bounds := after.subjects triple behind number own
  omega

theorem Sealed.right (sealed : Sealed supply allowed graph start stop (first ++ second))
    (before : Within supply start middle first) : Sealed supply allowed graph middle stop second := by
  refine ⟨fun triple member => sealed.subset triple (List.mem_append_right _ member), ?_⟩
  intro triple member number lower upper own
  have bound := before.le
  refine (sealed.only triple member number (by omega) upper own).imp_left fun inside => ?_
  refine (List.mem_append.mp inside).resolve_left fun earlier => ?_
  have bounds := before.subjects triple earlier number own
  omega

/-- The body writes something of which the assertion holds in every graph that seals it. -/
def Draws (supply : Nat → BlankNode) (allowed : Triple → Prop) (body : Rendering α) (start : Nat)
    (post : List Triple → α → List Triple → Prop) : Prop :=
  ∃ value stop block, Emits supply body start value stop block ∧ Within supply start stop block ∧
    ∀ graph, Sealed supply allowed graph start stop block → post graph value block

theorem Draws.weaken {body : Rendering α} {post needed : List Triple → α → List Triple → Prop}
    (draws : Draws supply allowed body start needed)
    (implies : ∀ graph value block, needed graph value block → post graph value block) :
    Draws supply allowed body start post := by
  obtain ⟨value, stop, block, emits, within, described⟩ := draws
  exact ⟨value, stop, block, emits, within, fun graph sealed => implies graph value block (described graph sealed)⟩

theorem Draws.pure (value : α) :
    Draws supply allowed (pure value) start fun _ result block => result = value ∧ block = [] :=
  ⟨value, start, [], Emits.pure value, Within.nil, fun _ _ => ⟨rfl, rfl⟩⟩

theorem Draws.bind {body : Rendering α} {next : α → Rendering β} {post : List Triple → α → List Triple → Prop}
    {last : α → Nat → List Triple → β → List Triple → Prop} (draws : Draws supply allowed body start post)
    (later : ∀ value middle, Draws supply allowed (next value) middle (last value middle)) :
    Draws supply allowed (body >>= next) start fun graph result block => ∃ value middle first second,
      Within supply start middle first ∧ post graph value first ∧ last value middle graph result second ∧
        block = first ++ second := by
  obtain ⟨value, middle, first, emits, within, described⟩ := draws
  obtain ⟨result, stop, second, emits', within', described'⟩ := later value middle
  refine ⟨result, stop, first ++ second, emits.bind emits', within.append within', fun graph sealed => ?_⟩
  exact ⟨value, middle, first, second, within, described graph (sealed.left within'),
    described' graph (sealed.right within), rfl⟩

theorem Draws.map {body : Rendering α} {post : List Triple → α → List Triple → Prop}
    (draws : Draws supply allowed body start post) (f : α → β) :
    Draws supply allowed (f <$> body) start fun graph result block =>
      ∃ value, post graph value block ∧ result = f value := by
  refine (draws.bind fun value _ => Draws.pure (f value)).weaken ?_
  rintro graph result block ⟨value, _, first, rest, _, holds, ⟨rfl, rfl⟩, rfl⟩
  exact ⟨value, by rwa [List.append_nil], rfl⟩

/-- Two parts of a construct, one after the other. -/
theorem Draws.pair {left : Rendering α} {right : Rendering β} {one : List Triple → α → List Triple → Prop}
    {two : List Triple → β → List Triple → Prop} (draws : Draws supply allowed left start one)
    (later : ∀ middle, Draws supply allowed right middle two) :
    Draws supply allowed (do let a ← left; let b ← right; Pure.pure (a, b)) start fun graph result block =>
      ∃ first second, one graph result.1 first ∧ two graph result.2 second ∧ block = first ++ second := by
  refine (draws.bind fun a middle => (later middle).bind fun b _ => Draws.pure (a, b)).weaken ?_
  rintro graph result block ⟨a, _, first, rest, _, holds, ⟨b, _, second, _, _, holds', ⟨rfl, rfl⟩, rfl⟩, rfl⟩
  exact ⟨first, second, holds, holds', by simp⟩

/-- Items drawn one after the other are described one by one. -/
theorem Draws.each {draw : α → Rendering β} (term : β → Term)
    {describes : List Triple → α → Term → List Triple → Prop} (items : List α)
    (draws : ∀ item ∈ items, ∀ start, Draws supply allowed (draw item) start fun graph value block =>
      describes graph item (term value) block) :
    Draws supply allowed (items.mapM draw) start fun graph values block =>
      Each (describes graph) items (values.map term) block := by
  induction items generalizing start with
  | nil =>
    rw [List.mapM_nil]
    refine (Draws.pure []).weaken ?_
    rintro graph values block ⟨rfl, rfl⟩
    exact rfl
  | cons item rest ih =>
    rw [List.mapM_cons]
    refine ((draws item List.mem_cons_self start).bind fun value middle =>
      (ih fun other member => draws other (List.mem_cons_of_mem _ member)).bind fun values _ =>
        Draws.pure (value :: values)).weaken ?_
    rintro graph values block ⟨value, _, first, _, _, holds, ⟨others, _, second, _, _, each, ⟨rfl, rfl⟩, rfl⟩, rfl⟩
    exact ⟨first, second, holds, each, by rw [List.append_nil]⟩

/-- A fresh node with these values. -/
def construct (values : List (Iri × Term)) : Rendering Node := do
  let node ← fresh
  values.forM fun (predicate, object) => write node predicate object
  return node

theorem Emits.values (node : BlankNode) (values : List (Iri × Term)) :
    Emits supply (values.forM fun (predicate, object) => Rendering.write node predicate object) start () start
      (triplesAt node values) := by
  induction values with
  | nil => exact Emits.pure ()
  | cons value rest ih =>
    exact (Emits.write node value.1 value.2).bind ih

theorem Emits.construct (values : List (Iri × Term)) :
    Emits supply (construct values) start (.blank (supply start)) (start + 1) (triplesAt (supply start) values) := by
  have written : Emits supply ((values.forM fun (predicate, object) => Rendering.write (.blank (supply start)) predicate object) >>=
      fun _ => Pure.pure (Node.blank (supply start))) (start + 1) (.blank (supply start)) (start + 1)
      (triplesAt (supply start) values ++ []) :=
    (Emits.values (supply start) values).bind (Emits.pure _)
  rw [List.append_nil] at written
  exact Emits.fresh.bind written

theorem mem_triplesAt {node : BlankNode} {values : List (Iri × Term)} {triple : Triple} :
    triple ∈ triplesAt node values ↔ triple.subject = node ∧ (triple.predicate, triple.object) ∈ values := by
  rw [triplesAt, List.mem_map]
  constructor
  · rintro ⟨value, member, rfl⟩
    exact ⟨rfl, member⟩
  · rintro ⟨own, member⟩
    exact ⟨_, member, by cases triple; cases own; rfl⟩

variable (distinct : ∀ m n, supply m = supply n → m = n)
include distinct

theorem within_triplesAt (values : List (Iri × Term)) :
    Within supply start (start + 1) (triplesAt (supply start) values) := by
  refine ⟨Nat.le_succ _, fun triple member number own => ?_⟩
  have same := distinct _ _ (Node.blank.inj ((mem_triplesAt.mp member).1.symm.trans own))
  omega

/-- The parts of a construct and then its node. -/
theorem Draws.construct {body : Rendering α} {post : List Triple → α → List Triple → Prop}
    (draws : Draws supply allowed body start post) (values : α → List (Iri × Term))
    (inner : ∀ triple, allowed triple → triple.predicate ∈ Role.classAxiomPredicates)
    (own : ∀ a, ∀ value ∈ values a, value.1 ∉ Role.classAxiomPredicates) :
    Draws supply allowed (body >>= fun a => Rendering.construct (values a)) start fun graph node block =>
      ∃ a parts, post graph a parts ∧ Construct graph (values a) parts node block := by
  obtain ⟨a, middle, parts, emits, within, described⟩ := draws
  have within' : Within supply middle (middle + 1) (triplesAt (supply middle) (values a)) :=
    within_triplesAt distinct (values a)
  refine ⟨_, _, _, emits.bind (Emits.construct (values a)), within.append within', fun graph sealed => ?_⟩
  have sealed' := sealed.right within
  refine ⟨a, parts, described graph (sealed.left within'), supply middle, rfl, ?_, ?_, rfl⟩
  · intro predicate object
    constructor
    · rintro ⟨member, constructive⟩
      have said := sealed'.only _ member middle (Nat.le_refl _) (Nat.lt_succ_self _) rfl
      exact (mem_triplesAt.mp (said.resolve_right fun free => constructive (inner _ free))).2
    · intro member
      exact ⟨sealed'.subset _ (mem_triplesAt.mpr ⟨rfl, member⟩), own a _ member⟩
  · intro triple member same
    have bounds := within.subjects triple member middle same
    omega

end OwlGraph.Rendering
