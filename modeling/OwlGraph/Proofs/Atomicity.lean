import OwlGraph.Proofs.Discarding
import OwlGraph.Proofs.LoadSteps
import OwlGraph.Proofs.Outcomes

/-! Tentative translations are atomic. A candidate whose translation is deferred leaves no trace, and
one whose translation fails leaves no trace but its report and the triples that are given up with
it. -/

namespace OwlGraph

namespace Load

/-- The sessions of a load between two candidates of a pass. They come after the preparations;
passes begin, and in a pass candidates are translated. The last pass is made with defaults. -/
inductive Between (config : Config) (number : Nat) (document : Option Iri) (triples : List Triple) : Bool → Session → Prop
  | prepared {session : Session} (run : prepare ⟨config, number, false⟩ (start document triples) = (.ok (), session)) :
      Between config number document triples false session
  | begun {session after : Session} (between : Between config number document triples false session)
      (run : beginPass ⟨config, number, false⟩ session = (.ok (), after)) :
      Between config number document triples false { after with kindsChanged := false }
  | forced {session after : Session} (between : Between config number document triples false session)
      (run : beginPass ⟨config, number, true⟩ session = (.ok (), after)) : Between config number document triples true after
  | tried {forced done : Bool} {session after : Session} {row : Row} (between : Between config number document triples forced session)
      (run : translateCandidate row ⟨config, number, forced⟩ session = (.ok done, after)) :
      Between config number document triples forced after

namespace Between

variable {config : Config} {number : Nat} {document : Option Iri} {triples : List Triple} {forced : Bool} {session after : Session}

theorem orderly (between : Between config number document triples forced session) : Orderly session := by
  induction between with
  | prepared run =>
    have begins : Orderly (start document triples) := ⟨TripleStore.indexed_ofTriples triples, rfl⟩
    exact (Ends.follows (fun _ _ => ends_prepare) begins run).toOrderly
  | begun _ run orderly | forced _ run orderly =>
    rw [beginPass_eq] at run
    split at run
    · cases run
    · cases run
      exact ⟨orderly.indexed, orderly.settled⟩
  | tried _ run orderly => exact (Ends.follows (fun _ _ => ends_translateCandidate _) orderly run).toOrderly

/-- To try candidates one after the other leads from one such session to the next. -/
theorem yields_runPass (work : List Row) : Run.Yields ⟨config, number, forced⟩ (Between config number document triples forced)
    (runPass work) fun _ => Between config number document triples forced := by
  induction work with
  | nil => exact .pure fun _ => id
  | cons row work ih =>
    have translated : Run.Yields ⟨config, number, forced⟩ (Between config number document triples forced)
        (translateCandidate row) fun _ => Between config number document triples forced :=
      fun _ _ _ between run => between.tried run
    have tried : Run.Yields ⟨config, number, forced⟩ (Between config number document triples forced)
        (postpones row) fun _ => Between config number document triples forced :=
      .get fun _ _ => .ite (fun _ => .pure fun _ => id) fun _ => translated.bind fun _ => .pure fun _ => id
    rw [runPass_cons]
    exact tried.bind fun _ => ih.bind fun _ => .pure fun _ => id

/-- The passes of a load go through such sessions. -/
theorem yields_makePasses (remaining : Nat) : ∀ work : List Row, Run.Yields ⟨config, number, false⟩
    (Between config number document triples false) (makePasses remaining work) fun _ => Between config number document triples false := by
  induction remaining with
  | zero => exact fun _ => .pure fun _ => id
  | succ remaining ih =>
    intro work
    have begins : Run.Yields ⟨config, number, false⟩ (Between config number document triples false) beginPass
        fun _ session => Between config number document triples false { session with kindsChanged := false } :=
      fun _ _ _ between run => between.begun run
    have passed : Run.Yields ⟨config, number, false⟩ (Between config number document triples false) (pass work)
        fun _ => Between config number document triples false :=
      begins.bind fun _ => Run.Yields.bind (.alter fun _ => id) fun _ => yields_runPass work
    rw [makePasses_succ]
    exact .ite (fun _ => .pure fun _ => id) fun _ => passed.bind fun waiting =>
      .get fun _ _ => .ite (fun _ => .pure fun _ => id) fun _ => ih waiting

theorem yields_settle (work : List Row) : Run.Yields ⟨config, number, true⟩ (Between config number document triples false)
    (beginPass >>= fun _ => runPass work) fun _ => Between config number document triples true :=
  have begins : Run.Yields ⟨config, number, true⟩ (Between config number document triples false) beginPass
      fun _ => Between config number document triples true := fun _ _ _ between run => between.forced run
  begins.bind fun _ => yields_runPass work

end Between

end Load

namespace Samples

/-- The first triple cannot be read, and the second has to wait for the kind of its property. -/
def unread : List Triple :=
  [⟨.named ⟨"http://example.com/A"⟩, Rdfs.subClassOf, .literal (.simple "A")⟩,
    ⟨.named ⟨"http://example.com/p"⟩, Rdfs.domain, .resource (.named ⟨"http://example.com/A"⟩)⟩]

end Samples

end OwlGraph
