import MokuroBunko.Library.SeriesConvergence
import Mathlib.Data.List.Sort
import Mathlib.Logic.Function.Basic

/-! The catalog and the passes that write it (`service.rs`, `schema.rs`). What runs under the pass
lock is one step: a long pass reads one series a step and publishes what it read in its last one,
an update stores facts and publishes the catalog in one step.
-/

namespace MokuroBunko.Library

open MokuroBunko.Lib MokuroBunko.Data

-- The file

/-- The fields of `raw` under the keys, in the order of the keys. -/
def keptFields (raw : Object) (keys : List String) (passes : Json → Bool) : Object :=
  keys.filterMap (fun key => ((raw.get? key).filter passes).map (fun value => (key, value)))

def factsPayload (facts : SeriesFacts) : Object :=
  let tag := Text.strip (facts.tag.getD "")
  [("external_ids", .obj (keptFields facts.externalIds idKeys (fun _ => true))),
    ("titles", .obj (keptFields facts.titles titleKeys (fun value => truthy (some value)))),
    ("synonyms", .arr facts.synonyms)]
  ++ (if tag = "" then [] else [("tag", Json.str tag)])
  ++ ((facts.unit.filter (trackingUnits.contains ·)).toList.map (fun unit => ("unit", .str unit)))

def catalogEntry (title : String) (facts : SeriesFacts) : Json :=
  .obj (("series_title", .str title) :: factsPayload facts ++ [("updated_at", .str facts.updatedAt)])

/-- The entries whose series comes for the first time. -/
def firstOfEach (seriesKey : String → String)
    : List (String × SeriesFacts) → List String → List (String × String × SeriesFacts)
  | [], _ => []
  | (title, facts) :: rest, seen =>
      if seriesKey title ∈ seen then firstOfEach seriesKey rest seen
      else (seriesKey title, title, facts)
        :: firstOfEach seriesKey rest (seriesKey title :: seen)

/-- What `dump_catalog_file` writes. -/
def dumpCatalogFile (seriesKey : String → String) (entries : List (String × SeriesFacts))
    : Json :=
  let ordered := (firstOfEach seriesKey entries []).insertionSort (fun a b =>
    a.1 < b.1 ∨ (a.1 = b.1 ∧ a.2.1 ≤ b.2.1))
  let newest := ordered.foldl (fun newest entry =>
    if newest < entry.2.2.updatedAt then entry.2.2.updatedAt else newest) factlessUpdatedAt
  .obj [("version", .num (.int 1)), ("updated_at", .str newest),
    ("series", .arr (ordered.map (fun entry => catalogEntry entry.2.1 entry.2.2)))]

/-- The entry of a series in the catalog. -/
def entryOf (catalog : Option Json) (title : String) : Option Json :=
  match (catalog.bind Json.asObject?).bind (Object.get? · "series") with
  | some (.arr entries) => entries.find? (fun entry =>
      entry.asObject?.bind (Object.get? · "series_title") = some (.str title))
  | _ => none

-- Passes

/-- `SeriesFacts::default`. -/
def defaultFacts : SeriesFacts where
  externalIds := []
  titles := []
  synonyms := []
  tag := none
  unit := none
  updatedAt := factlessUpdatedAt

/-- A pass of `recompile_all` or `recompile_series_batch` between its first step and its last.
`overtaken` is ours: the facts of a series were changed after the pass read them. -/
structure Pass where
  id : ℕ
  full : Bool
  waiting : List String
  collected : List (String × SeriesFacts)
  overtaken : Bool

structure Metadata where
  rows : String → Option SeriesFactsRow
  catalog : Option Json
  passes : List Pass

/-- What happens under the lock. A step that publishes says whether the file could be
written. -/
inductive PassEvent where
  | start (id : ℕ) (full : Bool)
  | collect (id : ℕ)
  | publish (id : ℕ) (written : Bool)
  | abandon (id : ℕ)
  | recompileSeries (written : Bool)
  | applyUpdate (accepted : AcceptedUpdate) (written : Bool)

namespace Metadata

/-- `row_for`. -/
def rowFor (rows : String → Option SeriesFactsRow) (key : String) : SeriesFacts :=
  (rows key).elim defaultFacts factsOf

variable (library : List String) (titleKey seriesKey : String → String)

/-- The facts of every folder, as a pass in one step reads them. -/
def catalogEntries (rows : String → Option SeriesFactsRow) : List (String × SeriesFacts) :=
  library.map (fun title => (title, rowFor rows (titleKey title)))

def dump (rows : String → Option SeriesFactsRow) : Json :=
  dumpCatalogFile seriesKey (catalogEntries library titleKey rows)

/-- Read the series the pass comes to next. -/
def collectNext (rows : String → Option SeriesFactsRow) (pass : Pass) : Option Pass :=
  match pass.waiting with
  | [] => none
  | title :: rest => some {
      pass with
      waiting := rest
      collected := pass.collected ++ [(title, rowFor rows (titleKey title))]
    }

/-- Note that the facts under the key are no longer those the pass has read. -/
def overtake (key : String) (pass : Pass) : Pass :=
  { pass with
    overtaken := pass.overtaken || pass.collected.any (fun entry => titleKey entry.1 = key) }

/-- The rows after an update. -/
def updateRows (rows : String → Option SeriesFactsRow) (accepted : AcceptedUpdate)
    : String → Option SeriesFactsRow :=
  let key := titleKey accepted.resolvedTitle
  Function.update rows key (some (applySeriesUpdate (rows key) accepted).row)

/-- Whether an update changes the facts of its series. -/
def factsMove (rows : String → Option SeriesFactsRow) (accepted : AcceptedUpdate) : Bool :=
  let key := titleKey accepted.resolvedTitle
  rowFor (updateRows titleKey rows accepted) key ≠ rowFor rows key

/-- One step, if it can be taken. -/
def step (state : Metadata) : PassEvent → Option Metadata
  | .start id full =>
      if state.passes.any (fun pass => pass.id = id ∨ (full ∧ pass.full)) then none
      else some {
        state with
        passes := ⟨id, full, library, [], false⟩ :: state.passes
      }
  | .collect id => do
      let pass ← state.passes.find? (fun pass => pass.id = id)
      let next ← collectNext titleKey state.rows pass
      some {
        state with
        passes := next :: state.passes.filter (fun pass => pass.id ≠ id)
      }
  | .publish id written => do
      let pass ← state.passes.find? (fun pass => pass.id = id)
      if pass.waiting = [] then
        some {
          state with
          catalog := if written then some (dumpCatalogFile seriesKey pass.collected)
            else state.catalog
          passes := state.passes.filter (fun pass => pass.id ≠ id)
        }
      else none
  | .abandon id =>
      some { state with passes := state.passes.filter (fun pass => pass.id ≠ id) }
  | .recompileSeries written =>
      some {
        state with
        catalog := if written then some (dump library titleKey seriesKey state.rows)
          else state.catalog
      }
  | .applyUpdate accepted written =>
      if accepted.resolvedTitle ∈ library then
        let rows := updateRows titleKey state.rows accepted
        some {
          rows
          catalog := if written then some (dump library titleKey seriesKey rows)
            else state.catalog
          passes :=
            if factsMove titleKey state.rows accepted then
              state.passes.map (overtake titleKey (titleKey accepted.resolvedTitle))
            else state.passes
        }
      else none

def run (state : Metadata) : List PassEvent → Option Metadata
  | [] => some state
  | event :: rest => (step library titleKey seriesKey state event).bind (fun next => next.run rest)

/-- The step publishes no facts that were changed since they were read, and an update that
changes facts gets its catalog written. -/
def timely (state : Metadata) : PassEvent → Bool
  | .publish id _ => state.passes.all (fun pass => pass.id ≠ id ∨ pass.overtaken = false)
  | .applyUpdate accepted written => !factsMove titleKey state.rows accepted || written
  | _ => true

/-- Every step of the run is timely. -/
def timelyRun (state : Metadata) : List PassEvent → Bool
  | [] => true
  | event :: rest => timely titleKey state event
      && (step library titleKey seriesKey state event).all (fun next => next.timelyRun rest)

/-- The step writes the catalog. -/
def Publishes : PassEvent → Bool
  | .publish _ written | .recompileSeries written | .applyUpdate _ written => written
  | _ => false

/-- Every series has the entry its stored facts compile to. -/
def Current (state : Metadata) : Prop :=
  ∀ title, entryOf state.catalog title
    = entryOf (some (dump library titleKey seriesKey state.rows)) title

-- What a pass has read

variable {library titleKey seriesKey}

/-- A pass goes through the folders in order, and what it has read is what is stored unless it
was overtaken. -/
structure Faithful (library : List String) (titleKey : String → String)
    (rows : String → Option SeriesFactsRow) (pass : Pass)
    : Prop where
  order : pass.collected.map Prod.fst ++ pass.waiting = library
  stored : pass.overtaken = false
    → ∀ entry ∈ pass.collected, entry.2 = rowFor rows (titleKey entry.1)

theorem Faithful.collected_eq {rows : String → Option SeriesFactsRow} {pass : Pass}
    (faithful : Faithful library titleKey rows pass) (complete : pass.waiting = [])
    (timely : pass.overtaken = false)
    : pass.collected = catalogEntries library titleKey rows := by
  have titles := faithful.order
  rw [complete, List.append_nil] at titles
  rw [catalogEntries, ← titles, List.map_map]
  symm
  apply List.map_congr_left (g := id) _ |>.trans (List.map_id _)
  intro entry member
  exact Prod.ext rfl (faithful.stored timely entry member).symm

theorem Faithful.collectNext {rows : String → Option SeriesFactsRow} {pass next : Pass}
    (faithful : Faithful library titleKey rows pass)
    (taken : collectNext titleKey rows pass = some next)
    : Faithful library titleKey rows next := by
  unfold Metadata.collectNext at taken
  cases waiting : pass.waiting with
  | nil =>
      rw [waiting] at taken
      cases taken
  | cons title rest =>
      rw [waiting] at taken
      obtain rfl := Option.some.inj taken
      have order := faithful.order
      rw [waiting] at order
      refine ⟨by simpa using order, ?_⟩
      intro timely entry member
      obtain old | new := List.mem_append.mp member
      · exact faithful.stored timely entry old
      · rw [List.mem_singleton.mp new]

theorem rowFor_updateRows {rows : String → Option SeriesFactsRow} {accepted : AcceptedUpdate}
    {key : String} (other : key ≠ titleKey accepted.resolvedTitle)
    : rowFor (updateRows titleKey rows accepted) key = rowFor rows key := by
  rw [rowFor, updateRows, Function.update_of_ne other, rowFor]

theorem rowFor_of_still {rows : String → Option SeriesFactsRow} {accepted : AcceptedUpdate}
    (still : factsMove titleKey rows accepted = false) (key : String)
    : rowFor (updateRows titleKey rows accepted) key = rowFor rows key := by
  by_cases same : key = titleKey accepted.resolvedTitle
  · rw [same]
    simpa [factsMove] using still
  · exact rowFor_updateRows same

theorem Faithful.overtake {rows : String → Option SeriesFactsRow} {pass : Pass}
    (faithful : Faithful library titleKey rows pass) (accepted : AcceptedUpdate)
    : Faithful library titleKey (updateRows titleKey rows accepted)
      (Metadata.overtake titleKey (titleKey accepted.resolvedTitle) pass) := by
  refine ⟨faithful.order, ?_⟩
  intro timely entry member
  simp only [Metadata.overtake, Bool.or_eq_false_iff, List.any_eq_false, decide_eq_true_eq]
    at timely
  rw [rowFor_updateRows (timely.2 entry member)]
  exact faithful.stored timely.1 entry member

theorem Faithful.of_still {rows : String → Option SeriesFactsRow} {pass : Pass}
    (faithful : Faithful library titleKey rows pass) {accepted : AcceptedUpdate}
    (still : factsMove titleKey rows accepted = false)
    : Faithful library titleKey (updateRows titleKey rows accepted) pass := by
  refine ⟨faithful.order, ?_⟩
  intro timely entry member
  rw [rowFor_of_still still]
  exact faithful.stored timely entry member

theorem step_faithful {state next : Metadata} {event : PassEvent}
    (taken : step library titleKey seriesKey state event = some next)
    (faithful : ∀ pass ∈ state.passes, Faithful library titleKey state.rows pass)
    : ∀ pass ∈ next.passes, Faithful library titleKey next.rows pass := by
  intro pass member
  cases event with
  | start id full =>
      simp only [step] at taken
      split at taken
      · cases taken
      · obtain rfl := Option.some.inj taken
        obtain rfl | old := List.mem_cons.mp member
        · exact ⟨rfl, fun _ entry absent => by cases absent⟩
        · exact faithful pass old
  | collect id =>
      obtain ⟨found, search, taken⟩ := Option.bind_eq_some_iff.mp taken
      obtain ⟨advanced, read, taken⟩ := Option.bind_eq_some_iff.mp taken
      obtain rfl := Option.some.inj taken
      obtain rfl | old := List.mem_cons.mp member
      · exact (faithful found (List.mem_of_find?_eq_some search)).collectNext read
      · exact faithful pass (List.mem_of_mem_filter old)
  | publish id written =>
      obtain ⟨found, search, taken⟩ := Option.bind_eq_some_iff.mp taken
      split at taken
      · obtain rfl := Option.some.inj taken
        exact faithful pass (List.mem_of_mem_filter member)
      · cases taken
  | abandon id =>
      obtain rfl := Option.some.inj taken
      exact faithful pass (List.mem_of_mem_filter member)
  | recompileSeries written =>
      obtain rfl := Option.some.inj taken
      exact faithful pass member
  | applyUpdate accepted written =>
      simp only [step] at taken
      split at taken
      · obtain rfl := Option.some.inj taken
        dsimp only at member ⊢
        split at member
        · obtain ⟨old, present, rfl⟩ := List.mem_map.mp member
          exact (faithful old present).overtake accepted
        · rename_i still
          exact (faithful pass member).of_still (Bool.eq_false_iff.mpr still)
      · cases taken

-- The catalog

/-- The catalog is what one pass in one step would write. -/
def UpToDate (library : List String) (titleKey seriesKey : String → String)
    (state : Metadata) : Prop :=
  state.catalog = some (dump library titleKey seriesKey state.rows)

theorem step_upToDate {state next : Metadata} {event : PassEvent}
    (taken : step library titleKey seriesKey state event = some next)
    (faithful : ∀ pass ∈ state.passes, Faithful library titleKey state.rows pass)
    (timely : state.timely titleKey event)
    (current : UpToDate library titleKey seriesKey state ∨ Publishes event)
    : UpToDate library titleKey seriesKey next := by
  unfold UpToDate at current ⊢
  cases event with
  | start id full =>
      simp only [step] at taken
      split at taken
      · cases taken
      · obtain rfl := Option.some.inj taken
        exact current.resolve_right Bool.false_ne_true
  | collect id =>
      obtain ⟨found, search, taken⟩ := Option.bind_eq_some_iff.mp taken
      obtain ⟨advanced, read, taken⟩ := Option.bind_eq_some_iff.mp taken
      obtain rfl := Option.some.inj taken
      exact current.resolve_right Bool.false_ne_true
  | publish id written =>
      obtain ⟨found, search, taken⟩ := Option.bind_eq_some_iff.mp taken
      split at taken
      · rename_i complete
        obtain rfl := Option.some.inj taken
        have member := List.mem_of_find?_eq_some search
        have same : found.id = id := by simpa using List.find?_some search
        simp only [Metadata.timely, List.all_eq_true, decide_eq_true_eq] at timely
        have collected := (faithful found member).collected_eq complete
          ((timely found member).resolve_left (not_not_intro same))
        cases written with
        | true => exact congrArg (fun entries => some (dumpCatalogFile seriesKey entries)) collected
        | false => exact current.resolve_right Bool.false_ne_true
      · cases taken
  | abandon id =>
      obtain rfl := Option.some.inj taken
      exact current.resolve_right Bool.false_ne_true
  | recompileSeries written =>
      obtain rfl := Option.some.inj taken
      cases written with
      | true => rfl
      | false => exact current.resolve_right Bool.false_ne_true
  | applyUpdate accepted written =>
      simp only [step] at taken
      split at taken
      · obtain rfl := Option.some.inj taken
        cases written with
        | true => rfl
        | false =>
            have still : factsMove titleKey state.rows accepted = false := by
              simpa [Metadata.timely] using timely
            have entries : catalogEntries library titleKey (updateRows titleKey state.rows accepted)
                = catalogEntries library titleKey state.rows := by
              apply List.map_congr_left
              intro title _
              rw [rowFor_of_still still]
            rw [dump, entries]
            exact current.resolve_right Bool.false_ne_true
      · cases taken

theorem run_upToDate {state last : Metadata} {events : List PassEvent}
    (reached : state.run library titleKey seriesKey events = some last)
    (faithful : ∀ pass ∈ state.passes, Faithful library titleKey state.rows pass)
    (timely : state.timelyRun library titleKey seriesKey events)
    (current : UpToDate library titleKey seriesKey state ∨ events.any Publishes)
    : UpToDate library titleKey seriesKey last := by
  induction events generalizing state with
  | nil =>
      obtain rfl := Option.some.inj reached
      exact current.resolve_right Bool.false_ne_true
  | cons event events ih =>
      obtain ⟨next, taken, later⟩ := Option.bind_eq_some_iff.mp reached
      rw [timelyRun, taken, Option.all_some, Bool.and_eq_true] at timely
      apply ih later (step_faithful taken faithful) timely.2
      rw [List.any_cons, Bool.or_eq_true, ← or_assoc] at current
      exact current.imp_left (step_upToDate taken faithful timely.1)

/-- In a run whose steps are all timely the catalog is current from the first publication on,
whatever is under way. -/
theorem catalog_current {state last : Metadata} {events : List PassEvent}
    (idle : state.passes = []) (reached : state.run library titleKey seriesKey events = some last)
    (timely : state.timelyRun library titleKey seriesKey events)
    (current : UpToDate library titleKey seriesKey state ∨ events.any Publishes)
    : Current library titleKey seriesKey last := by
  have faithful : ∀ pass ∈ state.passes, Faithful library titleKey state.rows pass := by
    simp [idle]
  intro title
  rw [run_upToDate reached faithful timely current]

def oneFolder : Metadata where
  rows := fun _ => none
  catalog := none
  passes := []

def oneEdit : AcceptedUpdate := accept (edit "2026-06-01T00:00:00Z") (by decide +kernel)

theorem catalog_current_edit
    : ∃ last, oneFolder.run ["Series"] (fun _ => "series") (fun _ => "series")
        [.applyUpdate oneEdit true, .start 0 true, .collect 0, .publish 0 true] = some last
      ∧ Current ["Series"] (fun _ => "series") (fun _ => "series") last := by
  have ended : (oneFolder.run ["Series"] (fun _ => "series") (fun _ => "series")
      [.applyUpdate oneEdit true, .start 0 true, .collect 0, .publish 0 true]).isSome := by
    decide +kernel
  obtain ⟨last, reached⟩ := Option.isSome_iff_exists.mp ended
  exact ⟨last, reached, catalog_current rfl reached (by decide +kernel) (Or.inr (by decide))⟩

/-- A pass that read the facts before an edit takes the edit out of the catalog. -/
theorem pass_undoes_edit
    : ∃ last, oneFolder.run ["Series"] (fun _ => "series") (fun _ => "series")
        [.start 0 true, .collect 0, .applyUpdate oneEdit true, .publish 0 true] = some last
      ∧ last.passes = [] ∧ ¬ Current ["Series"] (fun _ => "series") (fun _ => "series") last := by
  have ended : ((oneFolder.run ["Series"] (fun _ => "series") (fun _ => "series")
      [.start 0 true, .collect 0, .applyUpdate oneEdit true, .publish 0 true]).any
        (fun last => last.passes.isEmpty ∧ entryOf last.catalog "Series" ≠ entryOf
          (some (dump ["Series"] (fun _ => "series") (fun _ => "series") last.rows))
          "Series")) := by
    decide +kernel
  obtain ⟨ends, facts⟩ := (Option.any_eq_true_iff_get _ _).mp ended
  obtain ⟨idle, behind⟩ := of_decide_eq_true facts
  exact ⟨_, (Option.some_get ends).symm, List.isEmpty_iff.mp idle,
    fun current => behind (current "Series")⟩

end Metadata

end MokuroBunko.Library
