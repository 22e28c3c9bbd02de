import Mathlib.Data.List.Nodup
import Mathlib.Data.List.Perm.Subperm
import Mathlib.Logic.Relation
import OwlGraph.Proofs.Publication

/-! The closure of imports is what can be reached. Exploring keeps a list of the ontologies known,
of which those at the front have been looked at and the others wait. The list is always what comes
of gathering the imports of the front, so that in the end, when none waits, it is what comes of
gathering its own imports. Together with reachability this determines the list. -/

namespace OwlGraph

namespace Catalog

/-- The ontologies that the imports of this one designate, in the order of the imports. -/
def imported (catalog : Catalog) (item : Published) : List Published := item.ontology.imports.filterMap catalog.get?

/-- The second ontology can be reached from the first through imports. -/
def Reaches (catalog : Catalog) : Published → Published → Prop :=
  Relation.ReflTransGen fun item other => other ∈ catalog.imported item

/-- Whether no ontology of the catalog goes by the IRI. -/
def lacks (catalog : Catalog) (iri : Iri) : Bool := (catalog.get? iri).isNone

/-- Puts each ontology that is not known yet behind the known ones. -/
def gather (known items : List Published) : List Published :=
  items.foldl (fun known item => if known.any (·.handle == item.handle) then known else known ++ [item]) known

/-- The list begins with the root and holds just what can be reached from it, each ontology once.
The order is that of a scan from front to back, in which what an ontology imports and the list
does not hold yet goes to its end. -/
structure BreadthFirst (catalog : Catalog) (root : Published) (closure : List Published) : Prop where
  rooted : closure.head? = some root
  once : (closure.map Published.handle).Nodup
  exact : ∀ item, item ∈ closure ↔ catalog.Reaches root item
  ordered : closure = gather [root] (closure.flatMap catalog.imported)

section Gather

theorem gather_append (known items others : List Published) :
    gather known (items ++ others) = gather (gather known items) others := List.foldl_append ..

theorem gather_cons (known : List Published) (item : Published) (items : List Published) :
    gather known (item :: items) =
      gather (if known.any (·.handle == item.handle) then known else known ++ [item]) items := List.foldl_cons ..

/-- Gathering adds to the known ontologies some of those that are gathered. -/
theorem gather_extends (items : List Published) : ∀ known : List Published,
    ∃ found, gather known items = known ++ found ∧ ∀ item ∈ found, item ∈ items := by
  induction items with
  | nil =>
    intro known
    exact ⟨[], (List.append_nil _).symm, List.forall_mem_nil _⟩
  | cons item items ih =>
    intro known
    rw [gather_cons]
    split
    · obtain ⟨found, same, inside⟩ := ih known
      exact ⟨found, same, fun other member => List.mem_cons_of_mem _ (inside other member)⟩
    · obtain ⟨found, same, inside⟩ := ih (known ++ [item])
      refine ⟨item :: found, by simp [same], ?_⟩
      intro other member
      rcases List.mem_cons.mp member with first | later
      · simp [first]
      · exact List.mem_cons_of_mem _ (inside other later)

theorem mem_gather {known items : List Published} {item : Published} (member : item ∈ gather known items) :
    item ∈ known ∨ item ∈ items := by
  obtain ⟨found, extended, inside⟩ := gather_extends items known
  rw [extended, List.mem_append] at member
  exact member.imp id (inside item)

/-- No handle is there twice. -/
theorem nodup_gather (items : List Published) : ∀ {known : List Published}, (known.map Published.handle).Nodup →
    ((gather known items).map Published.handle).Nodup := by
  induction items with
  | nil => exact fun distinct => distinct
  | cons item items ih =>
    intro known distinct
    rw [gather_cons]
    split
    · exact ih distinct
    next absent =>
      apply ih
      rw [List.map_append, List.map_singleton, List.nodup_append]
      refine ⟨distinct, List.nodup_singleton _, ?_⟩
      intro handle member other single same
      obtain ⟨one, inside, named⟩ := List.mem_map.mp member
      apply absent
      rw [List.any_eq_true]
      exact ⟨one, inside, by simpa [named, same] using single⟩

/-- Everything gathered is there, at least another ontology of the same handle. -/
theorem exists_mem_gather (items : List Published) : ∀ {known : List Published} {item : Published}, item ∈ items →
    ∃ other ∈ gather known items, other.handle = item.handle := by
  induction items with
  | nil =>
    intro known item member
    cases member
  | cons first items ih =>
    intro known item member
    rw [gather_cons]
    rcases List.mem_cons.mp member with same | later
    · subst same
      obtain ⟨found, extended, -⟩ := gather_extends items (if known.any (·.handle == item.handle) then known else known ++ [item])
      rw [extended]
      split
      next present =>
        obtain ⟨other, inside, same⟩ := List.any_eq_true.mp present
        exact ⟨other, List.mem_append_left _ inside, beq_iff_eq.mp same⟩
      · exact ⟨item, by simp, rfl⟩
    · exact ih later

end Gather

section Exploration

variable {catalog : Catalog} {root : Published}

/-- The catalog with imports that are missing passed over. -/
def quiet (catalog : Catalog) : Catalog := { catalog with handling := .silent }

theorem discover_missing {iri : Iri} (missing : catalog.get? iri = none) (known : List Published) (imports : List Iri) :
    catalog.discover known (iri :: imports) =
      if catalog.handling = .silent then catalog.discover known imports else .error (.missing iri) := by
  rw [discover, missing]

theorem discover_present {iri : Iri} {item : Published} (present : catalog.get? iri = some item) (known : List Published)
    (imports : List Iri) : catalog.discover known (iri :: imports) =
      if known.any (·.handle == item.handle) then catalog.discover known imports
      else (catalog.discover (known ++ [item]) imports).map (item :: ·) := by
  rw [discover, present]

/-- The handling matters only for the first import that is missing. -/
theorem discover_eq (imports : List Iri) : ∀ known : List Published, catalog.discover known imports =
    match catalog.handling, imports.find? catalog.lacks with
    | .fail, some iri => .error (.missing iri)
    | _, _ => catalog.quiet.discover known imports := by
  induction imports with
  | nil =>
    intro known
    cases catalog.handling <;> rfl
  | cons iri imports ih =>
    intro known
    cases found : catalog.get? iri with
    | none =>
      have missing : catalog.lacks iri = true := by rw [lacks, found, Option.isNone_none]
      have passed := @discover_missing catalog.quiet iri found known imports
      rw [discover_missing found, List.find?_cons_of_pos missing, passed]
      cases handling : catalog.handling with
      | silent => rw [if_pos rfl, ih known, handling, quiet, if_pos rfl]
      | fail => rfl
    | some item =>
      have present : ¬ catalog.lacks iri = true := by simp [lacks, found]
      have taken := @discover_present catalog.quiet iri item found known imports
      rw [discover_present found, List.find?_cons_of_neg present, taken, ih known, ih (known ++ [item])]
      cases catalog.handling with
      | silent => rfl
      | fail =>
        cases imports.find? catalog.lacks with
        | none => rfl
        | some iri => exact ite_self _

/-- Looking at imports finds what gathering adds. -/
theorem discover_quiet (imports : List Iri) : ∀ known : List Published, ∃ found,
    catalog.quiet.discover known imports = .ok found ∧ known ++ found = gather known (imports.filterMap catalog.get?) := by
  induction imports with
  | nil => exact fun known => ⟨[], rfl, List.append_nil _⟩
  | cons iri imports ih =>
    intro known
    cases found : catalog.get? iri with
    | none =>
      have passed := @discover_missing catalog.quiet iri found known imports
      rw [passed, List.filterMap_cons_none found]
      exact ih known
    | some item =>
      have taken := @discover_present catalog.quiet iri item found known imports
      rw [taken, List.filterMap_cons_some found, gather_cons]
      split
      · exact ih known
      · obtain ⟨others, run, extended⟩ := ih (known ++ [item])
        refine ⟨item :: others, by rw [run]; rfl, ?_⟩
        rw [← extended, List.append_assoc, List.singleton_append]

/-- What a scan of the front has left behind. -/
structure Scanned (catalog : Catalog) (root : Published) (front waiting : List Published) : Prop where
  gathered : front ++ waiting = gather [root] (front.flatMap catalog.imported)
  reached : ∀ item ∈ front ++ waiting, catalog.Reaches root item

theorem Scanned.advance {front waiting found : List Published} {next : Published} (scanned : catalog.Scanned root front (next :: waiting))
    (extended : front ++ next :: waiting ++ found = gather (front ++ next :: waiting) (catalog.imported next)) :
    catalog.Scanned root (front ++ [next]) (waiting ++ found) := by
  have ahead : front ++ [next] ++ (waiting ++ found) = gather (front ++ next :: waiting) (catalog.imported next) := by
    rw [← extended]
    simp only [List.append_assoc, List.cons_append, List.nil_append]
  constructor
  · rw [ahead, scanned.gathered, List.flatMap_append, gather_append]
    simp only [List.flatMap_cons, List.flatMap_nil, List.append_nil]
  · intro item member
    rw [ahead] at member
    rcases mem_gather member with before | new
    · exact scanned.reached item before
    · exact (scanned.reached next (by simp)).tail new

/-- The scan comes to its end if it may take as many steps as there are ontologies to know. -/
theorem explore_quiet {limit : Nat} (few : ∀ front : List Published, (gather [root] (front.flatMap catalog.imported)).length ≤ limit)
    (steps : Nat) : ∀ front waiting : List Published, catalog.Scanned root front waiting → limit ≤ front.length + steps →
      ∃ rest, catalog.quiet.explore steps waiting (front ++ waiting) = .ok (front ++ rest) ∧ catalog.Scanned root (front ++ rest) [] := by
  induction steps with
  | zero =>
    intro front waiting scanned enough
    have bound := few front
    rw [← scanned.gathered, List.length_append] at bound
    obtain rfl : waiting = [] := List.length_eq_zero_iff.mp (by omega)
    refine ⟨[], rfl, ?_⟩
    rw [List.append_nil]
    exact scanned
  | succ steps ih =>
    intro front waiting scanned enough
    cases waiting with
    | nil =>
      refine ⟨[], rfl, ?_⟩
      rw [List.append_nil]
      exact scanned
    | cons next waiting =>
      obtain ⟨found, run, extended⟩ := @discover_quiet catalog next.ontology.imports (front ++ next :: waiting)
      have fuel : limit ≤ (front ++ [next]).length + steps := by
        rw [List.length_append, List.length_singleton]
        omega
      obtain ⟨rest, explored, closed⟩ := ih (front ++ [next]) (waiting ++ found) (scanned.advance extended) fuel
      simp only [List.append_assoc, List.singleton_append] at explored closed
      refine ⟨next :: rest, ?_, closed⟩
      rw [explore, run]
      simpa only [List.append_assoc, List.cons_append] using explored

/-- What is known stays at the front. -/
theorem explore_extends (steps : Nat) : ∀ {waiting known closure : List Published},
    catalog.explore steps waiting known = .ok closure → ∃ later, closure = known ++ later := by
  induction steps with
  | zero =>
    intro waiting known closure run
    obtain rfl : known = closure := by simpa [explore] using run
    exact ⟨[], (List.append_nil _).symm⟩
  | succ steps ih =>
    intro waiting known closure run
    cases waiting with
    | nil =>
      obtain rfl : known = closure := by simpa [explore] using run
      exact ⟨[], (List.append_nil _).symm⟩
    | cons next waiting =>
      rw [explore] at run
      cases looked : catalog.discover known next.ontology.imports with
      | error error =>
        rw [looked] at run
        cases run
      | ok found =>
        rw [looked] at run
        obtain ⟨later, same⟩ := ih run
        exact ⟨found ++ later, by rw [same, List.append_assoc]⟩

/-- The handling matters only for the first import that the scan finds missing. -/
theorem explore_eq (steps : Nat) : ∀ front waiting rest : List Published,
    catalog.quiet.explore steps waiting (front ++ waiting) = .ok (front ++ rest) → rest.length ≤ steps →
      catalog.explore steps waiting (front ++ waiting) =
        match catalog.handling, (rest.flatMap (·.ontology.imports)).find? catalog.lacks with
        | .fail, some iri => .error (.missing iri)
        | _, _ => .ok (front ++ rest) := by
  induction steps with
  | zero =>
    intro front waiting rest explored short
    obtain rfl : rest = [] := List.length_eq_zero_iff.mp (Nat.le_zero.mp short)
    cases catalog.handling <;> exact explored
  | succ steps ih =>
    intro front waiting rest explored short
    cases waiting with
    | nil =>
      have none : front ++ [] = front ++ rest := Except.ok.inj explored
      obtain rfl : [] = rest := List.append_cancel_left none
      cases catalog.handling <;> rfl
    | cons next waiting =>
      obtain ⟨found, run, -⟩ := @discover_quiet catalog next.ontology.imports (front ++ next :: waiting)
      rw [explore, run] at explored
      obtain ⟨later, closed⟩ := explore_extends steps explored
      obtain ⟨others, rfl⟩ : ∃ others, rest = next :: others := by
        simp only [List.append_assoc, List.append_cancel_left_eq, List.cons_append] at closed
        exact ⟨_, closed⟩
      have ahead : front ++ next :: waiting ++ found = (front ++ [next]) ++ (waiting ++ found) := by
        simp only [List.append_assoc, List.cons_append, List.nil_append]
      have again : front ++ next :: others = (front ++ [next]) ++ others := by
        simp only [List.append_assoc, List.cons_append, List.nil_append]
      dsimp only at explored
      rw [ahead, again] at explored
      have further := ih (front ++ [next]) (waiting ++ found) others explored (Nat.le_of_succ_le_succ short)
      rw [explore, discover_eq, run, List.flatMap_cons, List.find?_append, again]
      cases handling : catalog.handling with
      | silent =>
        rw [handling] at further
        dsimp only
        rw [ahead, further]
      | fail =>
        rw [handling] at further
        cases next.ontology.imports.find? catalog.lacks with
        | some iri => rfl
        | none =>
          dsimp only [Option.none_or]
          rw [ahead, further]

end Exploration

/-- No two of the ontologies have one handle. -/
def Identified (items : List Published) : Prop := ∀ item ∈ items, ∀ other ∈ items, item.handle = other.handle → item = other

section Closure

variable {handling : MissingImport} {items : List Published} {root : Published}

theorem mem_of_mem_imported {item other : Published} (member : other ∈ (ofPublished handling items).imported item) : other ∈ items := by
  obtain ⟨iri, -, found⟩ := List.mem_filterMap.mp member
  exact (get?_ofPublished.mp found).mem

theorem mem_gather_root {front : List Published} {item : Published}
    (member : item ∈ gather [root] (front.flatMap (ofPublished handling items).imported)) : item ∈ root :: items := by
  rcases mem_gather member with first | later
  · exact List.mem_cons.mpr (.inl (List.mem_singleton.mp first))
  · obtain ⟨importer, -, step⟩ := List.mem_flatMap.mp later
    exact List.mem_cons_of_mem _ (mem_of_mem_imported step)

theorem nodup_gather_root (others : List Published) : (gather [root] others).Nodup :=
  (@nodup_gather others [root] (List.nodup_singleton _)).of_map

/-- There are no more ontologies to know than were published, and the root. -/
theorem length_gather_le (front : List Published) :
    (gather [root] (front.flatMap (ofPublished handling items).imported)).length ≤ items.length + 1 := by
  have subset : gather [root] (front.flatMap (ofPublished handling items).imported) ⊆ root :: items := fun _ => mem_gather_root
  simpa using (List.subperm_of_subset (nodup_gather_root _) subset).length_le

/-- An ontology that is imported is gathered if handles tell ontologies apart. -/
theorem mem_gather_of_imported (identified : Identified (root :: items)) {front : List Published} {item other : Published}
    (inside : item ∈ front) (step : other ∈ (ofPublished handling items).imported item) :
    other ∈ gather [root] (front.flatMap (ofPublished handling items).imported) := by
  obtain ⟨twin, member, same⟩ := @exists_mem_gather _ [root] other (List.mem_flatMap.mpr ⟨item, inside, step⟩)
  rwa [← identified twin (mem_gather_root member) other (List.mem_cons_of_mem _ (mem_of_mem_imported step)) same]

theorem mem_gather_self (others : List Published) : root ∈ gather [root] others := by
  obtain ⟨found, extended, -⟩ := gather_extends others [root]
  simp [extended]

/-- A scan that has come to its end has found what can be reached. -/
theorem Scanned.breadthFirst (identified : Identified (root :: items)) {closure : List Published}
    (scanned : (ofPublished handling items).Scanned root closure []) : (ofPublished handling items).BreadthFirst root closure := by
  obtain ⟨gathered, reached⟩ := scanned
  rw [List.append_nil] at gathered reached
  refine ⟨?_, ?_, fun item => ⟨reached item, fun reaches => ?_⟩, gathered⟩
  · obtain ⟨found, extended, -⟩ := gather_extends (closure.flatMap (ofPublished handling items).imported) [root]
    rw [gathered, extended]
    rfl
  · rw [gathered]
    exact nodup_gather _ (List.nodup_singleton _)
  · induction reaches with
    | refl =>
      rw [gathered]
      exact mem_gather_self _
    | tail _ step inside =>
      rw [gathered]
      exact mem_gather_of_imported identified inside step

/-- As long as something that can be reached is missing, the scan of what comes before finds more. -/
theorem BreadthFirst.lt_length (identified : Identified (root :: items)) {closure : List Published}
    (ranked : (ofPublished handling items).BreadthFirst root closure) {count : Nat} (short : count < closure.length) :
    ∃ found rest, gather [root] ((closure.take count).flatMap (ofPublished handling items).imported) = found ∧
      closure = found ++ rest ∧ count < found.length := by
  let catalog := ofPublished handling items
  let found := gather [root] ((closure.take count).flatMap catalog.imported)
  obtain ⟨rest, extended, -⟩ := gather_extends ((closure.drop count).flatMap catalog.imported) found
  have split : closure = found ++ rest := by
    calc
      closure = gather [root] ((closure.take count ++ closure.drop count).flatMap catalog.imported) := by
        rw [List.take_append_drop]
        exact ranked.ordered
      _ = found ++ rest := by rw [List.flatMap_append, gather_append, extended]
  refine ⟨found, rest, rfl, split, ?_⟩
  -- Otherwise all that was found has been scanned, so that nothing else can be reached.
  apply Nat.lt_of_not_le
  intro small
  have scanned : ∀ item ∈ found, item ∈ closure.take count := by
    intro item member
    rw [split, List.take_append, List.take_of_length_le small]
    exact List.mem_append_left _ member
  have closed : ∀ item, catalog.Reaches root item → item ∈ found := by
    intro item reaches
    induction reaches with
    | refl => exact mem_gather_self _
    | tail _ step inside => exact mem_gather_of_imported identified (scanned _ inside) step
  have bound : closure.length ≤ found.length :=
    (List.subperm_of_subset ranked.once.of_map fun item member => closed item ((ranked.exact item).mp member)).length_le
  omega

/-- There is one such list. -/
theorem BreadthFirst.unique (identified : Identified (root :: items)) {closure other : List Published}
    (ranked : (ofPublished handling items).BreadthFirst root closure) (again : (ofPublished handling items).BreadthFirst root other) :
    other = closure := by
  have same : closure.length = other.length := by
    apply List.Perm.length_eq
    rw [List.perm_ext_iff_of_nodup ranked.once.of_map again.once.of_map]
    intro item
    rw [ranked.exact, again.exact]
  -- Two such lists that agree at the front agree on what the scan of the front finds.
  have agree : ∀ count ≤ closure.length, other.take count = closure.take count := by
    intro count
    induction count with
    | zero => simp
    | succ count ih =>
      intro inside
      have front := ih (Nat.le_of_succ_le inside)
      obtain ⟨found, rest, scan, split, more⟩ := ranked.lt_length identified inside
      obtain ⟨twin, tail, rescan, resplit, -⟩ := again.lt_length identified (show count < other.length by omega)
      rw [front, scan] at rescan
      subst rescan
      rw [split, resplit, List.take_append_of_le_length more, List.take_append_of_le_length more]
  have whole := agree closure.length (Nat.le_refl _)
  rwa [List.take_length, same, List.take_length] at whole

theorem handling_ofPublished (handling : MissingImport) (items : List Published) : (ofPublished handling items).handling = handling := by
  induction items using List.reverseRecOn with
  | nil => rfl
  | append_singleton items item ih =>
    rw [ofPublished_concat]
    exact ih

theorem size_ofPublished (handling : MissingImport) (items : List Published) : (ofPublished handling items).size = items.length := by
  induction items using List.reverseRecOn with
  | nil => rfl
  | append_singleton items item ih =>
    rw [ofPublished_concat, List.length_append, ← ih]
    exact Array.size_push _

/-- The closure of imports is exactly what can be reached. There is one list of the ontologies that
the root reaches which is in breadth-first order, and it is the result, unless the catalog fails
over missing imports and the scan of that list meets one, in which case the first is reported. -/
theorem importsClosure_exact (identified : Identified (root :: items)) :
    ∃ closure, (ofPublished handling items).BreadthFirst root closure ∧
      (∀ other, (ofPublished handling items).BreadthFirst root other → other = closure) ∧
      (ofPublished handling items).importsClosure root =
        match handling, (closure.flatMap (·.ontology.imports)).find? (ofPublished handling items).lacks with
        | .fail, some iri => .error (.missing iri)
        | _, _ => .ok closure := by
  let catalog := ofPublished handling items
  have start : catalog.Scanned root [] [root] :=
    ⟨rfl, fun item member => List.mem_singleton.mp member ▸ Relation.ReflTransGen.refl⟩
  have enough : items.length + 1 ≤ ([] : List Published).length + (catalog.size + 1) := by
    rw [size_ofPublished]
    exact Nat.le_add_left _ _
  obtain ⟨closure, explored, scanned⟩ := explore_quiet length_gather_le (catalog.size + 1) [] [root] start enough
  have ranked : catalog.BreadthFirst root closure := scanned.breadthFirst identified
  have short : closure.length ≤ catalog.size + 1 := by
    have bound := @length_gather_le handling items root closure
    rw [← ranked.ordered] at bound
    rwa [size_ofPublished]
  refine ⟨closure, ranked, fun other again => ranked.unique identified again, ?_⟩
  have run := explore_eq (catalog.size + 1) [] [root] closure explored short
  rw [handling_ofPublished] at run
  exact run

end Closure

namespace Samples

/-- It imports an ontology by its document, and one that is not there. -/
def main : Published :=
  ⟨0, { id := .named ⟨"http://example.com/main"⟩ none
        imports := [⟨"http://example.com/base.ttl"⟩, ⟨"http://example.com/missing"⟩] }⟩

/-- It imports itself and, by its version, an ontology that imports it. -/
def base : Published :=
  ⟨1, { id := .named ⟨"http://example.com/base"⟩ none
        document := some ⟨"http://example.com/base.ttl"⟩
        imports := [⟨"http://example.com/base"⟩, ⟨"http://example.com/unit/2"⟩] }⟩

def unit : Published :=
  ⟨2, { id := .named ⟨"http://example.com/unit"⟩ (some ⟨"http://example.com/unit/2"⟩), imports := [⟨"http://example.com/base"⟩] }⟩

end Samples

/-- A root that is not in the catalog, and imports in a circle. -/
theorem importsClosure_exact_circle : Identified [Samples.main, Samples.base, Samples.unit] ∧
    ∃ closure, (ofPublished .fail [Samples.base, Samples.unit]).BreadthFirst Samples.main closure ∧
      (∀ other, (ofPublished .fail [Samples.base, Samples.unit]).BreadthFirst Samples.main other → other = closure) ∧
      (ofPublished .fail [Samples.base, Samples.unit]).importsClosure Samples.main =
        match MissingImport.fail, (closure.flatMap (·.ontology.imports)).find? (ofPublished .fail [Samples.base, Samples.unit]).lacks with
        | .fail, some iri => .error (.missing iri)
        | _, _ => .ok closure := by
  have identified : Identified [Samples.main, Samples.base, Samples.unit] := by
    unfold Identified
    simp [Samples.main, Samples.base, Samples.unit]
  exact ⟨identified, importsClosure_exact identified⟩

end Catalog

end OwlGraph
