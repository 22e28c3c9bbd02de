import OwlGraph.Proofs.LastingAssertions

/-! What was read in the header lasts. Whatever a load does after it read the header, and whatever
comes of it, the ontology keeps its names and its imports, and no report is lost. -/

namespace OwlGraph

theorem Ontology.header_foldl_annotate (notes : List Annotation) : ∀ ontology : Ontology,
    (notes.foldl Ontology.annotate ontology).id = ontology.id ∧
      (notes.foldl Ontology.annotate ontology).imports = ontology.imports := by
  induction notes with
  | nil => exact fun _ => ⟨rfl, rfl⟩
  | cons note rest ih =>
    intro ontology
    rw [List.foldl_cons, (ih _).1, (ih _).2, annotate]
    split <;> exact ⟨rfl, rfl⟩

/-- The second session has the names and the imports of the first, and its reports. -/
structure Session.Retained (first session : Session) : Prop where
  indexed : session.store.Indexed
  id : session.ontology.id = first.ontology.id
  imports : session.ontology.imports = first.ontology.imports
  reports : ∀ report ∈ first.reports, report ∈ session.reports

namespace Session

variable {first session : Session}

theorem Retained.refl (indexed : session.store.Indexed) : session.Retained session := ⟨indexed, rfl, rfl, fun _ member => member⟩

theorem lasting_retained : Session.Lasting first.Retained where
  indexed retained := retained.indexed
  reported _ retained := ⟨retained.indexed, retained.id, retained.imports, fun report member =>
    Array.mem_push_of_mem _ (retained.reports report member)⟩
  noted _ _ _ retained := ⟨retained.indexed, retained.id, retained.imports, retained.reports⟩
  consume id retained := ⟨TripleStore.indexed_consume _ id retained.indexed, retained.id, retained.imports, retained.reports⟩
  rollback _ retained := ⟨TripleStore.indexed_rollback retained.indexed _, retained.id, retained.imports, retained.reports⟩
  commit _ _ retained := ⟨retained.indexed, retained.id, retained.imports, retained.reports⟩
  named _ retained := ⟨retained.indexed, retained.id, retained.imports, retained.reports⟩
  annotated notes retained := by
    obtain ⟨id, imports⟩ := Ontology.header_foldl_annotate notes _
    exact ⟨retained.indexed, id.trans retained.id, imports.trans retained.imports, retained.reports⟩
  counted _ retained := ⟨retained.indexed, retained.id, retained.imports, retained.reports⟩

end Session

namespace Translation

variable {context : Context} {first : Session}

/-- The records of problems are none of the axioms' concern. -/
theorem stable_reports : Session.Stable fun session => session.store.Indexed ∧ ∀ report ∈ first.reports, report ∈ session.reports where
  indexed := And.left
  reading known _ := ⟨TripleStore.indexed_consumeAll known.1 _, known.2⟩
  stored known indexed := ⟨indexed, known.2⟩
  recorded known := known
  revised known := known

theorem retained_mergeAnnotations (node : Node) {session : Session} (retained : first.Retained session) :
    first.Retained (mergeAnnotations node context session).2 := by
  obtain ⟨⟨indexed, reports⟩, -⟩ := ends_mergeAnnotations stable_reports node session ⟨retained.indexed, retained.reports⟩
  have header : (mergeAnnotations node context session).2.ontology.id = session.ontology.id ∧
      (mergeAnnotations node context session).2.ontology.imports = session.ontology.imports := by
    have given : Run.Leads context session (readMerge node) _ _ := leads_readMerge retained.indexed node
    rcases run : readMerge node context session with ⟨halt | merge, middle⟩
    · have stopped := given.of_error (congrArg Prod.fst run)
      rw [run] at stopped
      rw [mergeAnnotations_error run, stopped.ontology]
      exact ⟨rfl, rfl⟩
    · obtain ⟨-, -, finds⟩ := given.of_ok run
      rw [mergeAnnotations_ok run, ← finds.ontology]
      exact ⟨rfl, rfl⟩
  exact ⟨indexed, header.1.trans retained.id, header.2.trans retained.imports, reports⟩

end Translation

namespace Load

open Session

variable {context : Context} {first : Session}

theorem retains_readAxiomNode (node : Node) : Sustains context first.Retained (readAxiomNode node) := by
  have merge : Sustains context first.Retained (attempt (Translation.mergeAnnotations node)) :=
    sustains_attempt lasting_retained.toUnconcerned fun session retained => by
      have merged : first.Retained (Translation.mergeAnnotations node context session).2 := Translation.retained_mergeAnnotations node retained
      rw [Run.Leads]
      rcases run : Translation.mergeAnnotations node context session with ⟨_ | _, after⟩ <;> rw [run] at merged
      · exact lasting_retained.rollback _ merged
      · exact merged
  exact .get fun _ _ => .ite (merge.bind fun _ => .ite (.alter fun _ => lasting_retained.consumeAll _) (.pure _)) (.pure _)

/-- All that a load does once it read the header and the declarations leaves the header and the reports. -/
theorem retains_afterDeclarations : Sustains context first.Retained afterDeclarations := by
  have merged : Sustains context first.Retained (withDefaults readAxiomAnnotations) := fun session =>
    (Run.Ends.forM _ fun node _ => retains_readAxiomNode node : Sustains { context with forced := true } _ _) session
  exact (sustains_readHeaderAnnotations lasting_retained).bind fun _ => (sustains_translateAxioms lasting_retained).bind fun _ =>
    merged.bind fun _ => .get fun _ _ => .forM _ fun row _ => sustains_reportUnparsed lasting_retained row

end Load

end OwlGraph
