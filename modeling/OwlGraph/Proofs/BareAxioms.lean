import OwlGraph.Proofs.Merging

/-! When an axiom without annotations is in a loaded ontology. Every merge starts again from the axiom
that is on record for the triple, whatever was merged into it before, so the last merge decides: the bare
axiom is there exactly if that one brought no annotations. -/

namespace OwlGraph

namespace Merge

variable {merge : Merge} {fact : AnnotatedAxiom}

/-- A merge leaves a bare axiom behind only if it is one into that axiom and brings nothing. -/
theorem eq_fact_iff (normal : merge.base.Normal) (bare : fact.annotations = []) :
    fact = merge.fact ↔ merge.base = fact ∧ merge.notes = [] := by
  constructor
  · intro same
    have none : merge.base.annotations ++ merge.notes = [] := by
      rw [same] at bare
      exact Annotation.canonical_eq_nil.mp bare
    obtain ⟨base, notes⟩ := List.append_eq_nil_iff.mp none
    refine ⟨?_, notes⟩
    calc
      merge.base
      _ = .of merge.base.bare merge.base.annotations := normal.symm
      _ = merge.fact := by rw [Merge.fact, base, notes, List.append_nil]
      _ = fact := same.symm
  · rintro ⟨rfl, notes⟩
    rw [Merge.fact, notes, List.append_nil]
    exact normal.symm

/-- The last of the merges into the axiom. -/
def last? (merges : List Merge) (fact : AnnotatedAxiom) : Option Merge := merges.reverse.find? fun merge => merge.base = fact

theorem last?_concat (merges : List Merge) (merge : Merge) (fact : AnnotatedAxiom) :
    last? (merges ++ [merge]) fact = if merge.base = fact then some merge else last? merges fact := by
  rw [last?, List.reverse_concat, List.find?_cons]
  split <;> simp_all [last?]

theorem coherent_foldl {ontology : Ontology} (coherent : ontology.Coherent) (merges : List Merge) :
    (merges.foldl apply ontology).Coherent := by
  induction merges generalizing ontology with
  | nil => exact coherent
  | cons merge rest ih => exact ih (coherent_apply coherent)

/-- The bare axiom is there if nothing was merged into it or the last merge brought nothing. -/
theorem mem_foldl_iff {ontology : Ontology} (coherent : ontology.Coherent) (bare : fact.annotations = []) (merges : List Merge) :
    (∀ merge ∈ merges, merge.base.Normal) → (fact ∈ (merges.foldl apply ontology).axioms ↔
      match last? merges fact with
      | some merge => merge.notes = []
      | none => fact ∈ ontology.axioms) := by
  induction merges using List.reverseRecOn with
  | nil => exact fun _ => Iff.rfl
  | append_singleton merges merge ih =>
    intro regular
    have normal : merge.base.Normal := regular merge (List.mem_append_right _ (List.mem_singleton_self _))
    have before := ih fun other member => regular other (List.mem_append_left _ member)
    rw [List.foldl_append, List.foldl_cons, List.foldl_nil, mem_apply (coherent_foldl coherent merges).sound, eq_fact_iff normal bare,
      last?_concat]
    by_cases same : merge.base = fact
    · simp [same]
    · simp only [same, Ne.symm same, false_and, false_or, if_false, ne_eq, not_false_eq_true, true_and]
      exact before

end Merge

namespace Load

variable {context : Context}

/-- Reporting what was not used leaves the ontology as it is. -/
theorem ontology_reportUnparsed (mode : context.config.strict = false) (ontology : Ontology) (rows : List Row) :
    Reaches context (fun session => session.ontology = ontology) (rows.forM reportUnparsed) fun _ session => session.ontology = ontology := by
  refine .forM rows fun row _ => ?_
  have use : Reaches context (fun session => session.ontology = ontology) (modify (·.consume row.id))
      fun _ session => session.ontology = ontology := .alter fun _ same => same
  exact use.bind fun _ => .get fun session => .ite (fun _ => .pure fun _ => id) fun _ =>
    reaches_report mode _ none fun _ _ same _ _ => same

end Load

/-- A lax load that is not cancelled gives a bare axiom exactly if the last merge into it brought no
annotations, or there was none and the axiom was translated. -/
theorem bare_iff_last_merge {config : Config} (mode : config.strict = false) (uncancelled : config.cancelled = false) (number : Nat)
    (document : Option Iri) (triples : List Triple) : ∃ session loaded,
    (Load.prepare >>= fun _ => Load.translateAxioms) ⟨config, number, false⟩ (Load.start document triples) = (.ok (), session) ∧
    loadTriples config number document triples = .ok loaded ∧
    ∀ fact : AnnotatedAxiom, fact.annotations = [] → (fact ∈ loaded.ontology.axioms ↔
      match Merge.last? (Load.merges ⟨config, number, true⟩ session session.axiomNodes) fact with
      | some merge => merge.notes = []
      | none => fact ∈ session.ontology.axioms) := by
  let context : Context := ⟨config, number, false⟩
  have lax : context.config.strict = false := mode
  obtain ⟨session, run⟩ := Load.exists_translated mode uncancelled number document triples
  obtain ⟨regular, orderly⟩ := Load.regular_translateAxioms mode run
  obtain ⟨after, merging⟩ : ∃ after, Load.Merging ⟨config, number, true⟩ session session.axiomNodes after := Load.exists_merging mode _ orderly
  obtain ⟨_, final, reported, same⟩ := Load.ontology_reportUnparsed lax after.ontology after.store.unconsumed after rfl
  have merged : Load.withDefaults Load.readAxiomAnnotations context session = (.ok (), after) := merging.run
  have finished : Load.finish context session = (.ok (), final) := by
    rw [Load.finish, Run.bind_run merged]
    exact reported
  have translated : Load.translate context (Load.start document triples) = (.ok (), final) := by
    rw [Load.translate_phases, ← bind_assoc, Run.bind_run run]
    exact finished
  refine ⟨session, Loaded.of final, run, loadTriples_of_run translated, fun fact bare => ?_⟩
  change fact ∈ final.ontology.axioms ↔ _
  rw [same, merging.ontology]
  exact Merge.mem_foldl_iff regular.coherent bare _ (merging.normal regular)

namespace Samples

def narrower : Iri := ⟨"http://example.com/A"⟩

def wider : Iri := ⟨"http://example.com/B"⟩

/-- An inclusion with two nodes that stand for it, of which only the first carries an annotation. -/
def twiceRemarked : List Triple :=
  [⟨narrower, Rdfs.subClassOf, wider⟩,
    ⟨.blank ⟨"x"⟩, Rdf.type, Owl.Axiom⟩, ⟨.blank ⟨"x"⟩, Owl.annotatedSource, narrower⟩,
    ⟨.blank ⟨"x"⟩, Owl.annotatedProperty, Rdfs.subClassOf⟩, ⟨.blank ⟨"x"⟩, Owl.annotatedTarget, wider⟩,
    ⟨.blank ⟨"x"⟩, Rdfs.comment, .literal (.simple "note")⟩,
    ⟨.blank ⟨"y"⟩, Rdf.type, Owl.Axiom⟩, ⟨.blank ⟨"y"⟩, Owl.annotatedSource, narrower⟩,
    ⟨.blank ⟨"y"⟩, Owl.annotatedProperty, Rdfs.subClassOf⟩, ⟨.blank ⟨"y"⟩, Owl.annotatedTarget, wider⟩]

def bareInclusion : AnnotatedAxiom := .of (.subClassOf (.named narrower) (.named wider)) []

end Samples

theorem bare_iff_last_merge_twiceRemarked : ∃ session loaded,
    (Load.prepare >>= fun _ => Load.translateAxioms) ⟨{ strict := false }, 0, false⟩ (Load.start none Samples.twiceRemarked) = (.ok (), session) ∧
    loadTriples { strict := false } 0 none Samples.twiceRemarked = .ok loaded ∧
    (Samples.bareInclusion ∈ loaded.ontology.axioms ↔
      match Merge.last? (Load.merges ⟨{ strict := false }, 0, true⟩ session session.axiomNodes) Samples.bareInclusion with
      | some merge => merge.notes = []
      | none => Samples.bareInclusion ∈ session.ontology.axioms) := by
  obtain ⟨session, loaded, run, load, bare⟩ := @bare_iff_last_merge { strict := false } rfl rfl 0 none Samples.twiceRemarked
  exact ⟨session, loaded, run, load, bare Samples.bareInclusion ( Annotation.canonical_eq_nil.mpr rfl)⟩

end OwlGraph
