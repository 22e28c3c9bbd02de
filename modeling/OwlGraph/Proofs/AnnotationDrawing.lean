import OwlGraph.Proofs.AnnotationTrees
import OwlGraph.Proofs.Drawing
import OwlGraph.Proofs.ExpressionReading
import OwlGraph.Proofs.StatementDescription
import OwlGraph.Rendering.Annotation

/-! Writing annotations describes them. What is written are their claims about the source, and triples
about fresh nodes, each of which points at a triple that is written too. So if nobody else stands for
these triples, who stands for one of them is the node that was made for it. -/

namespace OwlGraph.Rendering

variable {supply : Nat → BlankNode} {source : Node} {notes others : List Annotation} {start middle stop : Nat}
  {first second block graph : List Triple} {stands : Node → Triple → Prop}

/-- The triples make the node point at the triple. -/
structure Points (block : List Triple) (node : Node) (triple : Triple) : Prop where
  source : (⟨node, Owl.annotatedSource, triple.subject⟩ : Triple) ∈ block
  property : (⟨node, Owl.annotatedProperty, triple.predicate⟩ : Triple) ∈ block
  target : (⟨node, Owl.annotatedTarget, triple.object⟩ : Triple) ∈ block

/-- What a node points at is one triple. -/
theorem eq_of_pointerValues {type : Iri} {triple main : Triple}
    (source : (Owl.annotatedSource, (triple.subject : Term)) ∈ pointerValues type main)
    (property : (Owl.annotatedProperty, (triple.predicate : Term)) ∈ pointerValues type main)
    (target : (Owl.annotatedTarget, triple.object) ∈ pointerValues type main) : triple = main := by
  have apart : Owl.annotatedSource ≠ Rdf.type ∧ Owl.annotatedProperty ≠ Rdf.type ∧ Owl.annotatedTarget ≠ Rdf.type ∧
      Owl.annotatedSource ≠ Owl.annotatedProperty ∧ Owl.annotatedSource ≠ Owl.annotatedTarget ∧
      Owl.annotatedProperty ≠ Owl.annotatedTarget := by decide
  obtain ⟨subject, predicate, object⟩ := triple
  cases main
  simp_all [pointerValues, eq_comm]

/-- The node is a fresh one of the interval. -/
def Made (supply : Nat → BlankNode) (start stop : Nat) (node : Node) : Prop :=
  ∃ number, start ≤ number ∧ number < stop ∧ node = supply number

/-- The block is written of the annotations of the source. -/
structure Noted (supply : Nat → BlankNode) (source : Node) (notes : List Annotation) (start stop : Nat) (block : List Triple) :
    Prop where
  le : start ≤ stop
  foreign : ∀ number, start ≤ number → source ≠ supply number
  plain : ∀ note ∈ notes, note.property ∉ pointerPredicates
  subjects : ∀ triple ∈ block, (∃ note ∈ notes, triple = note.claim source) ∨ Made supply start stop triple.subject
  pointed : ∀ node triple, Points block node triple → triple ∈ block

/-- The graph holds the block, says nothing else about the fresh nodes, and who stands for a triple of
the block points at it in the block. -/
structure Hosts (supply : Nat → BlankNode) (graph : List Triple) (stands : Node → Triple → Prop) (start stop : Nat)
    (block : List Triple) : Prop extends Sealed supply (fun _ => False) graph start stop block where
  standing : ∀ triple ∈ block, ∀ node, stands node triple → Points block node triple

theorem Sealed.mem_of_made (sealed : Sealed supply (fun _ => False) graph start stop block) {triple : Triple} (member : triple ∈ graph)
    (made : Made supply start stop triple.subject) : triple ∈ block := by
  obtain ⟨number, least, most, own⟩ := made
  exact (sealed.only triple member number least most own).resolve_right id

theorem Made.mono {node : Node} {lower upper : Nat} (made : Made supply start stop node) (low : lower ≤ start) (high : stop ≤ upper) :
    Made supply lower upper node := by
  obtain ⟨number, least, most, rfl⟩ := made
  exact ⟨number, by omega, by omega, rfl⟩

theorem Made.bounds (distinct : ∀ m n, supply m = supply n → m = n) {node : Node} (made : Made supply start stop node) {number : Nat}
    (same : node = supply number) : start ≤ number ∧ number < stop := by
  obtain ⟨other, least, most, own⟩ := made
  obtain rfl := distinct _ _ (Node.blank.inj (own.symm.trans same))
  exact ⟨least, most⟩

theorem Made.apart (distinct : ∀ m n, supply m = supply n → m = n) {node : Node} (early : Made supply start middle node)
    (late : Made supply middle stop node) : False := by
  obtain ⟨number, -, most, same⟩ := early
  have least := (late.bounds distinct same).1
  omega

/-- Nodes that are made later are other ones. -/
theorem fresh_ne (distinct : ∀ m n, supply m = supply n → m = n) {number : Nat} (earlier : number < middle) :
    ∀ other, middle ≤ other → (supply number : Node) ≠ supply other := by
  intro other least same
  have := distinct _ _ (Node.blank.inj same)
  omega

namespace Noted

theorem nil (foreign : ∀ number, start ≤ number → source ≠ supply number) : Noted supply source [] start start [] :=
  ⟨Nat.le_refl _, foreign, nofun, nofun, fun _ _ points => nomatch points.source⟩

theorem not_made (noted : Noted supply source notes start stop block) : ¬ Made supply start stop source :=
  fun ⟨number, least, _, same⟩ => noted.foreign number least same

/-- What is written is about the source or about a fresh node. -/
theorem about (noted : Noted supply source notes start stop block) {triple : Triple} (member : triple ∈ block) :
    triple.subject = source ∨ Made supply start stop triple.subject := by
  rcases noted.subjects triple member with ⟨note, -, rfl⟩ | made
  · exact .inl rfl
  · exact .inr made

/-- What points at a triple is a fresh node. -/
theorem made (noted : Noted supply source notes start stop block) {node : Node} {predicate : Iri} {object : Term}
    (pointing : predicate ∈ pointerPredicates) (member : (⟨node, predicate, object⟩ : Triple) ∈ block) : Made supply start stop node := by
  refine (noted.subjects _ member).resolve_left ?_
  rintro ⟨note, inside, same⟩
  have key : predicate = note.property := congrArg Triple.predicate same
  exact noted.plain note inside (key ▸ pointing)

theorem made_of_points (noted : Noted supply source notes start stop block) {node : Node} {triple : Triple}
    (points : Points block node triple) : Made supply start stop node := noted.made (by simp [pointerPredicates]) points.source

section Append

variable (distinct : ∀ m n, supply m = supply n → m = n) (one : Noted supply source notes start middle first)
  (two : Noted supply source others middle stop second)
include distinct one two

theorem points_append {node : Node} {triple : Triple} (points : Points (first ++ second) node triple) :
    Points first node triple ∨ Points second node triple := by
  have side {predicate : Iri} {object : Term} (pointing : predicate ∈ pointerPredicates)
      (member : (⟨node, predicate, object⟩ : Triple) ∈ first ++ second) :
      ((⟨node, predicate, object⟩ : Triple) ∈ first ∧ Made supply start middle node) ∨
        ((⟨node, predicate, object⟩ : Triple) ∈ second ∧ Made supply middle stop node) :=
    (List.mem_append.mp member).imp (fun inside => ⟨inside, one.made pointing inside⟩) fun inside => ⟨inside, two.made pointing inside⟩
  have source := side (by simp [pointerPredicates]) points.source
  have property := side (by simp [pointerPredicates]) points.property
  have target := side (by simp [pointerPredicates]) points.target
  rcases source with ⟨source, early⟩ | ⟨source, late⟩
  · exact .inl ⟨source, (property.resolve_right fun other => early.apart distinct other.2).1,
      (target.resolve_right fun other => early.apart distinct other.2).1⟩
  · exact .inr ⟨source, (property.resolve_left fun other => other.2.apart distinct late).1,
      (target.resolve_left fun other => other.2.apart distinct late).1⟩

theorem append : Noted supply source (notes ++ others) start stop (first ++ second) where
  le := Nat.le_trans one.le two.le
  foreign := one.foreign
  plain := List.forall_mem_append.mpr ⟨one.plain, two.plain⟩
  subjects triple member := by
    rcases List.mem_append.mp member with inside | inside
    · refine (one.subjects triple inside).imp ?_ fun made => made.mono (Nat.le_refl _) two.le
      exact fun ⟨note, listed, same⟩ => ⟨note, List.mem_append_left _ listed, same⟩
    · refine (two.subjects triple inside).imp ?_ fun made => made.mono one.le (Nat.le_refl _)
      exact fun ⟨note, listed, same⟩ => ⟨note, List.mem_append_right _ listed, same⟩
  pointed node triple points := List.mem_append.mpr
    ((points_append distinct one two points).imp (one.pointed node triple) (two.pointed node triple))

variable (differ : ∀ note ∈ notes, ∀ other ∈ others, note.claim source ≠ other.claim source)
include differ

theorem apart {triple : Triple} (early : triple ∈ first) (late : triple ∈ second) : False := by
  rcases one.subjects triple early with ⟨note, listed, rfl⟩ | made
  · rcases two.subjects _ late with ⟨other, present, same⟩ | made
    · exact differ note listed other present same
    · exact two.not_made made
  · rcases two.subjects _ late with ⟨other, present, rfl⟩ | also
    · exact one.not_made made
    · exact made.apart distinct also

theorem hosts_left (hosts : Hosts supply graph stands start stop (first ++ second)) : Hosts supply graph stands start middle first where
  subset triple member := hosts.subset triple (List.mem_append_left _ member)
  only triple member number least most own := by
    have made : Made supply start middle triple.subject := ⟨number, least, most, own⟩
    refine .inl ((List.mem_append.mp (hosts.mem_of_made member (made.mono (Nat.le_refl _) two.le))).resolve_right fun late => ?_)
    rcases two.subjects triple late with ⟨note, -, rfl⟩ | other
    · exact one.not_made made
    · exact made.apart distinct other
  standing triple member node stood := by
    refine (points_append distinct one two (hosts.standing triple (List.mem_append_left _ member) node stood)).resolve_right ?_
    exact fun points => apart distinct one two differ member (two.pointed node triple points)

theorem hosts_right (hosts : Hosts supply graph stands start stop (first ++ second)) : Hosts supply graph stands middle stop second where
  subset triple member := hosts.subset triple (List.mem_append_right _ member)
  only triple member number least most own := by
    have made : Made supply middle stop triple.subject := ⟨number, least, most, own⟩
    refine .inl ((List.mem_append.mp (hosts.mem_of_made member (made.mono one.le (Nat.le_refl _)))).resolve_left fun early => ?_)
    rcases one.subjects triple early with ⟨note, -, rfl⟩ | other
    · exact two.not_made made
    · exact other.apart distinct made
  standing triple member node stood := by
    refine (points_append distinct one two (hosts.standing triple (List.mem_append_right _ member) node stood)).resolve_left ?_
    exact fun points => apart distinct one two differ (one.pointed node triple points) member

end Append

section Annotated

variable {property : Iri} {value : Term} {rest : List Triple} (distinct : ∀ m n, supply m = supply n → m = n)
  (foreign : ∀ number, start ≤ number → source ≠ supply number) (plain : property ∉ pointerPredicates)

/-- What is written of an annotation that is annotated: its claim, the node that points at it, and the annotations on that node. -/
def annotated (supply : Nat → BlankNode) (source : Node) (property : Iri) (value : Term) (start : Nat) (rest : List Triple) :
    List Triple :=
  ⟨source, property, value⟩ :: (triplesAt (supply start) (pointerValues Owl.Annotation ⟨source, property, value⟩) ++ rest)

theorem mem_annotated {triple : Triple} : triple ∈ annotated supply source property value start rest ↔
    triple = ⟨source, property, value⟩ ∨
    (triple.subject = supply start ∧
      (triple.predicate, triple.object) ∈ pointerValues Owl.Annotation ⟨source, property, value⟩) ∨ triple ∈ rest := by
  rw [annotated, List.mem_cons, List.mem_append, mem_triplesAt]

section Unannotated

include foreign plain

theorem leaf : Noted supply source [⟨property, value, []⟩] start start [⟨source, property, value⟩] where
  le := Nat.le_refl _
  foreign := foreign
  plain := List.forall_mem_singleton.mpr plain
  subjects triple member := .inl ⟨_, List.mem_singleton_self _, List.mem_singleton.mp member⟩
  pointed node triple points := by
    obtain rfl : Owl.annotatedSource = property := congrArg Triple.predicate (List.mem_singleton.mp points.source)
    exact absurd (by simp [pointerPredicates]) plain

end Unannotated

variable (inner : Noted supply (supply start) notes (start + 1) stop rest)
include inner

/-- What is said of the annotations is not about the source. -/
theorem subject_ne (foreign : ∀ number, start ≤ number → source ≠ supply number) {triple : Triple} (member : triple ∈ rest) :
    triple.subject ≠ source := by
  rintro rfl
  rcases inner.subjects triple member with ⟨note, -, rfl⟩ | ⟨number, least, -, same⟩
  · exact foreign start (Nat.le_refl _) rfl
  · exact foreign number (by omega) same

/-- Of the fresh node that points at the claim only its annotations are said besides. -/
theorem pointer_of_mem {predicate : Iri} {object : Term} (foreign : ∀ number, start ≤ number → source ≠ supply number)
    (member : (⟨supply start, predicate, object⟩ : Triple) ∈ annotated supply source property value start rest) :
    (predicate, object) ∈ pointerValues Owl.Annotation ⟨source, property, value⟩ ∨
      ∃ note ∈ notes, predicate = note.property ∧ object = note.value := by
  rcases mem_annotated.mp member with same | ⟨-, listed⟩ | inside
  · exact absurd (congrArg Triple.subject same).symm (foreign start (Nat.le_refl _))
  · exact .inl listed
  · refine .inr ?_
    rcases inner.subjects _ inside with ⟨note, listed, same⟩ | made
    · exact ⟨note, listed, congrArg Triple.predicate same, congrArg Triple.object same⟩
    · exact absurd made inner.not_made

include distinct plain

theorem points_annotated {node : Node} {triple : Triple} (points : Points (annotated supply source property value start rest) node triple) :
    (node = supply start ∧ triple = ⟨source, property, value⟩) ∨ Points rest node triple := by
  have side {predicate : Iri} {object : Term} (pointing : predicate ∈ pointerPredicates)
      (member : (⟨node, predicate, object⟩ : Triple) ∈ annotated supply source property value start rest) :
      (node = supply start ∧ (predicate, object) ∈ pointerValues Owl.Annotation ⟨source, property, value⟩) ∨
        ((⟨node, predicate, object⟩ : Triple) ∈ rest ∧ Made supply (start + 1) stop node) := by
    rcases mem_annotated.mp member with same | own | inside
    · have key : predicate = property := congrArg Triple.predicate same
      exact absurd (key ▸ pointing) plain
    · exact .inl own
    · exact .inr ⟨inside, inner.made pointing inside⟩
  have later {other : Node} (own : other = supply start) (made : Made supply (start + 1) stop other) : False := by
    have := (made.bounds distinct own).1
    omega
  have source := side (by simp [pointerPredicates]) points.source
  have target := side (by simp [pointerPredicates]) points.target
  have key := side (by simp [pointerPredicates]) points.property
  rcases source with ⟨own, source⟩ | ⟨source, made⟩
  · refine .inl ⟨own, ?_⟩
    have key := (key.resolve_right fun other => later own other.2).2
    have target := (target.resolve_right fun other => later own other.2).2
    exact eq_of_pointerValues source key target
  · exact .inr ⟨source, (key.resolve_left fun other => later other.1 made).1, (target.resolve_left fun other => later other.1 made).1⟩

include foreign

theorem node : Noted supply source [⟨property, value, notes⟩] start stop (annotated supply source property value start rest) where
  le := by have := inner.le; omega
  foreign := foreign
  plain := List.forall_mem_singleton.mpr plain
  subjects triple member := by
    rcases mem_annotated.mp member with same | ⟨own, -⟩ | inside
    · exact .inl ⟨_, List.mem_singleton_self _, same⟩
    · exact .inr ⟨start, Nat.le_refl _, inner.le, own⟩
    · refine .inr ?_
      rcases inner.subjects triple inside with ⟨note, -, rfl⟩ | made
      · exact ⟨start, Nat.le_refl _, inner.le, rfl⟩
      · exact made.mono (Nat.le_succ _) (Nat.le_refl _)
  pointed node triple points := by
    rcases points_annotated distinct plain inner points with ⟨-, rfl⟩ | deeper
    · exact List.mem_cons_self
    · exact mem_annotated.mpr (.inr (.inr (inner.pointed node triple deeper)))

variable (hosts : Hosts supply graph stands start stop (annotated supply source property value start rest))
include hosts

theorem hosts_rest : Hosts supply graph stands (start + 1) stop rest where
  subset triple member := hosts.subset triple (mem_annotated.mpr (.inr (.inr member)))
  only triple member number least most same := by
    have made : Made supply (start + 1) stop triple.subject := ⟨number, least, most, same⟩
    rcases mem_annotated.mp (hosts.mem_of_made member (made.mono (Nat.le_succ _) (Nat.le_refl _))) with rfl | ⟨own, -⟩ | inside
    · exact absurd same (foreign number (by omega))
    · exact absurd (own ▸ made) inner.not_made
    · exact .inl inside
  standing triple member node stood := by
    refine (points_annotated distinct plain inner
      (hosts.standing triple (mem_annotated.mpr (.inr (.inr member))) node stood)).resolve_left ?_
    rintro ⟨-, rfl⟩
    exact inner.subject_ne foreign member rfl

/-- In a graph that hosts it, what is written of an annotation describes it. -/
theorem described (filled : notes ≠ []) (deeper : Annotation.DescribedEach graph stands (supply start) notes rest) :
    Annotation.Described graph stands source ⟨property, value, notes⟩ (annotated supply source property value start rest) := by
  have own : Made supply start stop (supply start) := ⟨start, Nat.le_refl _, inner.le, rfl⟩
  have beneath : ∀ triple ∈ triplesAt (supply start) (pointerValues Owl.Annotation ⟨source, property, value⟩) ++ rest,
      triple.subject ≠ source := by
    intro triple member
    rcases List.mem_append.mp member with pointing | inside
    · rw [(mem_triplesAt.mp pointing).1]
      exact fun same => foreign start (Nat.le_refl _) same.symm
    · exact inner.subject_ne foreign inside
  have only : ∀ other, stands other ⟨source, property, value⟩ → other = supply start := by
    intro other stood
    rcases points_annotated distinct plain inner (hosts.standing _ List.mem_cons_self other stood) with ⟨same, -⟩ | deeper
    · exact same
    · exact absurd rfl (inner.subject_ne foreign (inner.pointed other _ deeper))
  have alone : ∀ (predicate : Iri) (object : Term), (⟨supply start, predicate, object⟩ : Triple) ∈ graph →
      (predicate, object) ∈ pointerValues Owl.Annotation ⟨source, property, value⟩ ∨
        ∃ note ∈ notes, predicate = note.property ∧ object = note.value :=
    fun predicate object member => inner.pointer_of_mem foreign (hosts.mem_of_made member own)
  have bears : Bears graph (supply start) (pointerValues Owl.Annotation ⟨source, property, value⟩) := by
    intro predicate pointing object
    constructor
    · intro member
      refine (alone predicate object member).resolve_right ?_
      rintro ⟨note, listed, rfl, -⟩
      exact inner.plain note listed pointing
    · exact fun listed => hosts.subset _ (mem_annotated.mpr (.inr (.inl ⟨rfl, listed⟩)))
  exact ⟨_, hosts.subset _ List.mem_cons_self, beneath, rfl, .inr ⟨supply start, rest, filled, only, ⟨bears, alone⟩, deeper, rfl⟩⟩

end Annotated

end Noted

/-- No property of an annotation among the components makes a node point at a triple. -/
def Unpointing : List Component → Prop :=
  Component.Every fun entity => entity.kind = .annotationProperty → entity.iri ∉ pointerPredicates

section Writing

theorem emits_pointer (type : Iri) (main : Triple) :
    Emits supply (pointer type main) start (.blank (supply start)) (start + 1) (triplesAt (supply start) (pointerValues type main)) :=
  Emits.construct (pointerValues type main)

variable (distinct : ∀ m n, supply m = supply n → m = n)
include distinct

mutual

/-- What is written of an annotation describes it in every graph that hosts it. -/
theorem draws_annotate : ∀ (note : Annotation) {source : Node} {start : Nat}, (∀ number, start ≤ number → source ≠ supply number) →
    Unpointing note.components → note.Distinct → ∃ stop block, Emits supply (annotate source note) start () stop block ∧
      Noted supply source [note] start stop block ∧
      ∀ graph stands, Hosts supply graph stands start stop block → note.Described graph stands source block
  | ⟨property, value, []⟩, source, start, foreign, plain, _ => by
    have noted : Noted supply source [⟨property, value, []⟩] start start [⟨source, property, value⟩] :=
      Noted.leaf foreign (plain _ List.mem_cons_self rfl)
    refine ⟨start, _, (Emits.write source property value).bind (Emits.pure ()), noted, fun graph stands hosts => ?_⟩
    refine ⟨[], hosts.subset _ List.mem_cons_self, nofun, rfl, .inl ⟨rfl, rfl, fun node stood => ?_⟩⟩
    have made := noted.made_of_points (hosts.standing _ List.mem_cons_self node stood)
    obtain ⟨number, least, most, -⟩ := made
    omega
  | ⟨property, value, first :: others⟩, source, start, foreign, plain, apart => by
    have later : ∀ number, start + 1 ≤ number → (supply start : Node) ≠ supply number := fresh_ne distinct (Nat.lt_succ_self start)
    obtain ⟨stop, rest, emits, inner, described⟩ := draws_annotateEach (first :: others) later plain.tail.tail apart
    have own : property ∉ pointerPredicates := plain _ List.mem_cons_self rfl
    refine ⟨stop, _, (Emits.write source property value).bind ((emits_pointer Owl.Annotation ⟨source, property, value⟩).bind emits),
      Noted.node distinct foreign own inner, fun graph stands hosts => ?_⟩
    exact Noted.described distinct foreign own inner hosts nofun
      (described graph stands (Noted.hosts_rest distinct foreign own inner hosts))

theorem draws_annotateEach : ∀ (notes : List Annotation) {source : Node} {start : Nat},
    (∀ number, start ≤ number → source ≠ supply number) → Unpointing ( Annotation.componentsEach notes) → Annotation.DistinctEach notes →
    ∃ stop block, Emits supply (annotateEach source notes) start () stop block ∧ Noted supply source notes start stop block ∧
      ∀ graph stands, Hosts supply graph stands start stop block → Annotation.DescribedEach graph stands source notes block
  | [], source, start, foreign, _, _ => ⟨start, [], Emits.pure (), Noted.nil foreign, fun _ _ _ => rfl⟩
  | note :: notes, source, start, foreign, plain, ⟨inside, apart, others⟩ => by
    obtain ⟨middle, first, emits, one, described⟩ := draws_annotate note foreign plain.left inside
    have later : ∀ number, middle ≤ number → source ≠ supply number := fun number least => foreign number (Nat.le_trans one.le least)
    obtain ⟨stop, second, emits', two, described'⟩ := draws_annotateEach notes later plain.right others
    have differ : ∀ note' ∈ [note], ∀ other ∈ notes, note'.claim source ≠ other.claim source := by
      simp only [List.mem_singleton, forall_eq, Annotation.claim, ne_eq, Triple.mk.injEq, true_and, not_and]
      exact fun other member same value => apart other member same.symm value.symm
    refine ⟨stop, first ++ second, emits.bind emits', Noted.append distinct one two, fun graph stands hosts => ?_⟩
    exact ⟨first, second, described graph stands (Noted.hosts_left distinct one two differ hosts),
      described' graph stands (Noted.hosts_right distinct one two differ hosts),
      fun triple early late => Noted.apart distinct one two differ early late, rfl⟩

end

end Writing

end OwlGraph.Rendering
