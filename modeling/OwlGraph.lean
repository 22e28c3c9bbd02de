import OwlGraph.Rdf.IriSyntax
import OwlGraph.Rdf.Outline
import OwlGraph.Rdf.Store
import OwlGraph.Ontology.Basic
import OwlGraph.Ontology.Labels
import OwlGraph.Catalog
import OwlGraph.Hierarchy
import OwlGraph.Translation.Load
import OwlGraph.Rendering.Save
import OwlGraph.Proofs.WorkingSet
import OwlGraph.Proofs.AxiomSet
import OwlGraph.Proofs.CanonicalOrder
import OwlGraph.Proofs.Reading
import OwlGraph.Proofs.Description
import OwlGraph.Proofs.Drawing
import OwlGraph.Proofs.WellFormed
import OwlGraph.Proofs.Roles
import OwlGraph.Proofs.ExpressionDrawing
import OwlGraph.Proofs.PatternReading
import OwlGraph.Proofs.CardinalityText
import OwlGraph.Proofs.CollectionReading
import OwlGraph.Proofs.ExpressionReading
import OwlGraph.Proofs.Insertion
import OwlGraph.Proofs.ExpressionRoundTrip
import OwlGraph.Proofs.RuleReading
import OwlGraph.Proofs.StatementDescription
import OwlGraph.Proofs.StatementReading
import OwlGraph.Proofs.TextForm
import OwlGraph.Proofs.TextInjectivity
import OwlGraph.Proofs.Renaming
import OwlGraph.Proofs.RenamingBack
import OwlGraph.Proofs.AnnotationReading
import OwlGraph.Proofs.AnnotationDrawing
import OwlGraph.Proofs.AnnotationRoundTrip
import OwlGraph.Proofs.RuleDrawing
import OwlGraph.Proofs.StatementDrawing
import OwlGraph.Proofs.Candidates
import OwlGraph.Proofs.Pieces
import OwlGraph.Proofs.FactDrawing
import OwlGraph.Proofs.LoadLockstep
import OwlGraph.Proofs.Phases
import OwlGraph.Proofs.StrictLax
import OwlGraph.Proofs.Endings
import OwlGraph.Proofs.LoadSteps
import OwlGraph.Proofs.ClearLoad
import OwlGraph.Proofs.Isolation
import OwlGraph.Proofs.Components
import OwlGraph.Proofs.Colouring
import OwlGraph.Proofs.CanonicalLabels
import OwlGraph.Proofs.Isomorphism
import OwlGraph.Proofs.Outcomes
import OwlGraph.Proofs.PropertyKinds
import OwlGraph.Proofs.ImposedKinds
import OwlGraph.Proofs.LoadedKinds
import OwlGraph.Proofs.Pairing
import OwlGraph.Proofs.PairedSessions
import OwlGraph.Proofs.Parallel
import OwlGraph.Proofs.ParallelTranslation
import OwlGraph.Proofs.ParallelStatements
import OwlGraph.Proofs.ParallelLoad
import OwlGraph.Proofs.BlankNodeLabels
import OwlGraph.Proofs.DescribedIndividuals
import OwlGraph.Proofs.ToldHierarchy
import OwlGraph.Proofs.Entailment
import OwlGraph.Proofs.Occurrence
import OwlGraph.Proofs.Postings
import OwlGraph.Proofs.AxiomList
import OwlGraph.Proofs.DepthLimit
import OwlGraph.Proofs.Discarding
import OwlGraph.Proofs.Atomicity
import OwlGraph.Proofs.Passes
import OwlGraph.Proofs.DirectAnswers
import OwlGraph.Proofs.Consistency
import OwlGraph.Proofs.Answers
import OwlGraph.Proofs.QueryAgreement
import OwlGraph.Proofs.ClassAxioms
import OwlGraph.Proofs.ListSpine
import OwlGraph.Proofs.AxiomText
import OwlGraph.Proofs.NormalForm
import OwlGraph.Proofs.RenamingAction
import OwlGraph.Proofs.PropertyGraph
import OwlGraph.Proofs.KindSpread
import OwlGraph.Proofs.Reification
import OwlGraph.Proofs.RegularSessions
import OwlGraph.Proofs.Merging
import OwlGraph.Proofs.BareAxioms
import OwlGraph.Proofs.MissingTriples
import OwlGraph.Proofs.Publication
import OwlGraph.Proofs.ImportsClosure
import OwlGraph.Proofs.HeaderLinks
import OwlGraph.Proofs.LastingAssertions
import OwlGraph.Proofs.LastingHeader
import OwlGraph.Proofs.HeaderReading
import OwlGraph.Proofs.Layout
import OwlGraph.Proofs.Preparing
import OwlGraph.Proofs.LaidOutLoad
import OwlGraph.Proofs.Strokes
import OwlGraph.Proofs.Saveable
import OwlGraph.Proofs.SavedGraph
import OwlGraph.Proofs.SavedCandidates
import OwlGraph.Proofs.SavedReading
import OwlGraph.Proofs.SavedLayout
import OwlGraph.Proofs.SavedOntology
import OwlGraph.Proofs.SaveThenLoad
import OwlGraph.Proofs.SavedAnswers
import OwlGraph.Proofs.CardinalityGrammar
import OwlGraph.Proofs.Refinement
import OwlGraph.Proofs.StrictPatterns
import OwlGraph.Proofs.CyclicConstructs
import OwlGraph.Proofs.StoreHistory
import OwlGraph.Proofs.Rollback
import OwlGraph.Proofs.UsedTriples
