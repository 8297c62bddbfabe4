import MokuroBunko.Lib.OrderedMap
import MokuroBunko.Lib.Rotation
import MokuroBunko.Sched.NaturalKey
import Mathlib.Data.List.Dedup
import Mathlib.Data.List.Sort

/-! The order of the OCR queue, and what serving its head over and over does. Rows come in
the operator's order; within a row the series take turns after the one served last.
-/

namespace MokuroBunko.Sched

open MokuroBunko.Lib

-- The order

/-- `JobKey`: what the order needs to know about a job. -/
structure JobKey where
  series : String
  volume : String
  generationId : String
deriving DecidableEq

/-- The key a name sorts by. -/
abbrev NameKey := NaturalKey ×ₗ String

/-- Rank, row, position in the series, lap of the round, series, volume. -/
abbrev SortKey := ℕ ×ₗ String ×ₗ ℕ ×ₗ ℕ ×ₗ NameKey ×ₗ NameKey

section Order

variable (unicode : UnicodeTables)

/-- The volumes of a series that wait in a row, each once, in reading order. -/
def waitingVolumes (keys : List JobKey) (generationId series : String) : List String :=
  let volumes := ((keys.filter
    (fun key => key.generationId = generationId ∧ key.series = series)).map JobKey.volume).dedup
  volumes.insertionSort (fun a b => unicode.nameKey a ≤ unicode.nameKey b)

/-- A job's place among the waiting volumes of its series and row. -/
def position (keys : List JobKey) (key : JobKey) : ℕ :=
  (waitingVolumes unicode keys key.generationId key.series).idxOf key.volume

/-- The key the queue is sorted by. -/
def sortKey (keys : List JobKey) (generationRank : OrderedMap String ℕ)
    (lastServed : OrderedMap String String) (key : JobKey) : SortKey :=
  let cursor := (lastServed.get? key.generationId).map unicode.nameKey
  let seriesKey := unicode.nameKey key.series
  toLex ((generationRank.get? key.generationId).getD generationRank.entries.length,
    toLex (key.generationId,
      toLex (position unicode keys key,
        toLex (wrapped cursor seriesKey,
          toLex (seriesKey, unicode.nameKey key.volume)))))

/-- `order_jobs`: the jobs by their sort keys, of equal ones the first stays first. -/
def orderJobs {ι : Type} (jobs : List ι) (generationRank : OrderedMap String ℕ)
    (key : ι → JobKey) (lastServed : OrderedMap String String) : List ι :=
  let keyed := sortKey unicode (jobs.map key) generationRank lastServed
  jobs.insertionSort (fun a b => keyed (key a) ≤ keyed (key b))

variable {unicode}

theorem orderJobs_head {ι : Type} {jobs : List ι} {generationRank : OrderedMap String ℕ}
    {key : ι → JobKey} {lastServed : OrderedMap String String} {head : ι}
    (first : (orderJobs unicode jobs generationRank key lastServed).head? = some head)
    : head ∈ jobs ∧ ∀ other ∈ jobs,
        sortKey unicode (jobs.map key) generationRank lastServed (key head)
          ≤ sortKey unicode (jobs.map key) generationRank lastServed (key other) := by
  let keyed := sortKey unicode (jobs.map key) generationRank lastServed
  let before : ι → ι → Prop := fun a b => keyed (key a) ≤ keyed (key b)
  have total : Std.Total before := ⟨fun a b => le_total (keyed (key a)) (keyed (key b))⟩
  have transitive : IsTrans ι before := ⟨fun _ _ _ => le_trans⟩
  have sorted : (jobs.insertionSort before).Pairwise before := List.pairwise_insertionSort before jobs
  have same : orderJobs unicode jobs generationRank key lastServed = jobs.insertionSort before := rfl
  rw [same] at first
  obtain ⟨rest, split⟩ := List.head?_eq_some_iff.mp first
  have members : ∀ job, job ∈ jobs ↔ job = head ∨ job ∈ rest := by
    intro job
    rw [← List.mem_insertionSort before, split, List.mem_cons]
  refine ⟨(members head).mpr (.inl rfl), ?_⟩
  intro other member
  rcases (members other).mp member with rfl | later
  · exact le_rfl
  · rw [split] at sorted
    exact List.rel_of_pairwise_cons sorted later

variable (unicode) in
theorem exists_position_zero {keys : List JobKey} {key : JobKey} (waiting : key ∈ keys)
    : ∃ other ∈ keys, other.generationId = key.generationId ∧ other.series = key.series
        ∧ position unicode keys other = 0 := by
  have present : key.volume ∈ waitingVolumes unicode keys key.generationId key.series := by
    simp only [waitingVolumes, List.mem_insertionSort, List.mem_dedup, List.mem_map,
      List.mem_filter]
    exact ⟨key, ⟨waiting, by simp⟩, rfl⟩
  cases volumes : waitingVolumes unicode keys key.generationId key.series with
  | nil => simp [volumes] at present
  | cons volume rest =>
      have first : volume ∈ waitingVolumes unicode keys key.generationId key.series := by
        simp [volumes]
      simp only [waitingVolumes, List.mem_insertionSort, List.mem_dedup, List.mem_map,
        List.mem_filter] at first
      obtain ⟨other, ⟨member, same⟩, ownVolume⟩ := first
      obtain ⟨sameRow, sameSeries⟩ := of_decide_eq_true same
      refine ⟨other, member, sameRow, sameSeries, ?_⟩
      rw [position, sameRow, sameSeries, volumes, ownVolume, List.idxOf_cons_self]

theorem rotated_le_of_sortKey_le {keys : List JobKey} {generationRank : OrderedMap String ℕ}
    {lastServed : OrderedMap String String} {first second : JobKey}
    (ordered : sortKey unicode keys generationRank lastServed first
      ≤ sortKey unicode keys generationRank lastServed second)
    (sameRow : first.generationId = second.generationId)
    (leads : position unicode keys second = 0)
    : rotated ((lastServed.get? first.generationId).map unicode.nameKey)
          (unicode.nameKey first.series)
        ≤ rotated ((lastServed.get? first.generationId).map unicode.nameKey)
          (unicode.nameKey second.series) := by
  simp only [sortKey, sameRow, leads, Prod.Lex.toLex_le_toLex, lt_irrefl, true_and,
    false_or, Nat.not_lt_zero] at ordered
  obtain ⟨-, inRound⟩ := ordered
  rw [rotated, rotated, Prod.Lex.toLex_le_toLex, sameRow]
  rcases inRound with earlierLap | ⟨sameLap, earlierSeries | ⟨sameSeries, -⟩⟩
  · exact .inl earlierLap
  · exact .inr ⟨sameLap, earlierSeries.le⟩
  · exact .inr ⟨sameLap, sameSeries.le⟩

theorem head_rotated_le {ι : Type} {jobs : List ι} {generationRank : OrderedMap String ℕ}
    {key : ι → JobKey} {lastServed : OrderedMap String String} {head : ι}
    (first : (orderJobs unicode jobs generationRank key lastServed).head? = some head)
    {waiting : ι} (member : waiting ∈ jobs)
    (sameRow : (key waiting).generationId = (key head).generationId)
    : rotated ((lastServed.get? (key head).generationId).map unicode.nameKey)
          (unicode.nameKey (key head).series)
        ≤ rotated ((lastServed.get? (key head).generationId).map unicode.nameKey)
          (unicode.nameKey (key waiting).series) := by
  obtain ⟨-, least⟩ := orderJobs_head first
  obtain ⟨other, otherMember, otherRow, otherSeries, leads⟩ :=
    exists_position_zero unicode (List.mem_map_of_mem (f := key) member)
  obtain ⟨job, jobMember, rfl⟩ := List.mem_map.mp otherMember
  have bounded := rotated_le_of_sortKey_le (least job jobMember)
    (sameRow.symm.trans otherRow.symm) leads
  rwa [otherSeries] at bounded

end Order

-- Runs

/-- What one step of a run finds: the rows' ranks and the jobs that wait. -/
structure QueueStep (ι : Type) where
  generationRank : OrderedMap String ℕ
  jobs : List ι

/-- A run: what each step finds, and the series served last when it begins. Between steps
jobs come and go as they please; a step that finds no job serves none.
-/
structure QueueRun (ι : Type) where
  unicode : UnicodeTables
  key : ι → JobKey
  found : ℕ → QueueStep ι
  initial : OrderedMap String String

namespace QueueRun

variable {ι : Type}

/-- The head of the queue a step finds, under the series served last. -/
def headOf (run : QueueRun ι) (lastServed : OrderedMap String String) (step : QueueStep ι)
    : Option ι :=
  (orderJobs run.unicode step.jobs step.generationRank run.key lastServed).head?

/-- The series served last in each row, before each step. -/
def lastServed (run : QueueRun ι) : ℕ → OrderedMap String String
  | 0 => run.initial
  | step + 1 =>
      match run.headOf (run.lastServed step) (run.found step) with
      | some head =>
          (run.lastServed step).insert (run.key head).generationId (run.key head).series
      | none => run.lastServed step

/-- The job a step serves. -/
def served (run : QueueRun ι) (step : ℕ) : Option ι :=
  run.headOf (run.lastServed step) (run.found step)

/-- The step serves a job of this series in this row. -/
def Serves (run : QueueRun ι) (step : ℕ) (row series : String) : Prop :=
  ∃ job, run.served step = some job ∧ (run.key job).generationId = row
    ∧ (run.key job).series = series

/-- A job of this series waits in this row when the step is taken. -/
def Pending (run : QueueRun ι) (step : ℕ) (row series : String) : Prop :=
  ∃ job ∈ (run.found step).jobs, (run.key job).generationId = row
    ∧ (run.key job).series = series

/-- The row's cursor before a step. -/
def cursor (run : QueueRun ι) (step : ℕ) (row : String) : Option NameKey :=
  ((run.lastServed step).get? row).map run.unicode.nameKey

variable {run : QueueRun ι} {step : ℕ} {row series : String}

theorem cursor_succ_of_serves (serves : run.Serves step row series)
    : run.cursor (step + 1) row = some (run.unicode.nameKey series) := by
  obtain ⟨job, served, rfl, rfl⟩ := serves
  simp only [QueueRun.served] at served
  simp [cursor, lastServed, served]

theorem cursor_succ_of_not_serves (idle : ∀ series, ¬ run.Serves step row series)
    : run.cursor (step + 1) row = run.cursor step row := by
  cases served : run.headOf (run.lastServed step) (run.found step) with
  | none => simp [cursor, lastServed, served]
  | some head =>
      have otherRow : row ≠ (run.key head).generationId :=
        fun same => idle _ ⟨head, served, same.symm, rfl⟩
      simp [cursor, lastServed, served, otherRow]

theorem rotated_le_of_serves {waiting : String} (serves : run.Serves step row series)
    (pending : run.Pending step row waiting)
    : rotated (run.cursor step row) (run.unicode.nameKey series)
        ≤ rotated (run.cursor step row) (run.unicode.nameKey waiting) := by
  obtain ⟨job, served, rfl, rfl⟩ := serves
  obtain ⟨other, member, sameRow, rfl⟩ := pending
  exact head_rotated_le served member sameRow

/-- From a row's cursor the first series is reached before the second. -/
def Precedes (run : QueueRun ι) (step : ℕ) (row first second : String) : Prop :=
  rotated (run.cursor step row) (run.unicode.nameKey first)
    < rotated (run.cursor step row) (run.unicode.nameKey second)

theorem precedes_of_serves {other : String} (serves : run.Serves step row series)
    (distinct : other ≠ series)
    : run.Precedes (step + 1) row other series := by
  rw [Precedes, cursor_succ_of_serves serves]
  exact rotated_lt_cursor (run.unicode.nameKey_injective.ne distinct)

theorem Precedes.after_step {waiting later : String} (precedes : run.Precedes step row waiting later)
    (pending : run.Pending step row waiting) (unserved : ¬ run.Serves step row waiting)
    : run.Precedes (step + 1) row waiting later := by
  by_cases idle : ∀ series, ¬ run.Serves step row series
  · rw [Precedes, cursor_succ_of_not_serves idle]
    exact precedes
  · push Not at idle
    obtain ⟨next, serves⟩ := idle
    have distinct : next ≠ waiting := by
      rintro rfl
      exact unserved serves
    have leads : rotated (run.cursor step row) (run.unicode.nameKey next)
        < rotated (run.cursor step row) (run.unicode.nameKey waiting) := by
      refine lt_of_le_of_ne (rotated_le_of_serves serves pending) ?_
      intro same
      exact distinct (run.unicode.nameKey_injective (Prod.mk.inj (toLex_inj.mp same)).2)
    rw [Precedes, cursor_succ_of_serves serves]
    exact rotated_lt_of_advance leads precedes

theorem Precedes.after_steps {start steps : ℕ} {waiting later : String}
    (precedes : run.Precedes start row waiting later)
    (pending : ∀ step, start ≤ step → step < start + steps → run.Pending step row waiting)
    (unserved : ∀ step, start ≤ step → step < start + steps → ¬ run.Serves step row waiting)
    : run.Precedes (start + steps) row waiting later := by
  induction steps with
  | zero => exact precedes
  | succ steps ih =>
      have before := ih (fun step low high => pending step low (by omega))
        (fun step low high => unserved step low (by omega))
      exact before.after_step (pending _ (by omega) (by omega)) (unserved _ (by omega) (by omega))

/-- Between two times a series is served in a row, every other series that had a job
waiting there at each step since the first is served. Witness: right after the first time
the other series precedes it in the row's round, and keeps preceding it until served.
-/
theorem waiting_series_served_between {first second : ℕ} {other : String}
    (later : first < second) (servedFirst : run.Serves first row series)
    (servedSecond : run.Serves second row series) (distinct : other ≠ series)
    (pending : ∀ step, first < step → step ≤ second → run.Pending step row other)
    : ∃ step, first < step ∧ step < second ∧ run.Serves step row other := by
  by_contra starved
  push Not at starved
  obtain ⟨steps, rfl⟩ := Nat.exists_eq_add_of_lt later
  have ahead : run.Precedes (first + 1 + steps) row other series :=
    Precedes.after_steps (precedes_of_serves servedFirst distinct)
      (fun step low high => pending step (by omega) (by omega))
      (fun step low high => starved step (by omega) (by omega))
  rw [show first + 1 + steps = first + steps + 1 by omega] at ahead
  exact absurd (rotated_le_of_serves servedSecond (pending _ (by omega) le_rfl)) ahead.not_ge

def twoSeriesRun : QueueRun (String × String) where
  unicode := {
    nfkc := id
    casefold := fun _ => []
    isAlnum := fun _ => true
    decimal := fun _ => none
  }
  key := fun job => ⟨job.1, job.2, "g"⟩
  found := fun step => {
    generationRank := .empty
    jobs :=
      match step with
      | 0 => [("A", "1")]
      | 1 => [("B", "1")]
      | _ => [("B", "2"), ("A", "2")]
  }
  initial := .empty

theorem nameKey_twoSeriesRun
    : twoSeriesRun.unicode.nameKey = fun name => toLex ([], name) := by
  funext name
  have folded : twoSeriesRun.unicode.folded name = [] :=
    List.flatMap_eq_nil_iff.mpr fun _ _ => rfl
  simp [UnicodeTables.nameKey, UnicodeTables.naturalKey, folded, UnicodeTables.runs,
    UnicodeTables.textRun]

theorem twoSeriesRun_serves
    : twoSeriesRun.Serves 0 "g" "A" ∧ twoSeriesRun.Serves 2 "g" "A" := by
  refine ⟨⟨("A", "1"), rfl, rfl, rfl⟩, ⟨("A", "2"), ?_, rfl, rfl⟩⟩
  have cursor : (twoSeriesRun.lastServed 2) = OrderedMap.empty.insert "g" "B" := by decide
  simp only [served, headOf, cursor, orderJobs, sortKey, position, waitingVolumes,
    nameKey_twoSeriesRun]
  decide

/-- The other series is served in between. -/
theorem twoSeriesRun_serves_between
    : ∃ step, 0 < step ∧ step < 2 ∧ twoSeriesRun.Serves step "g" "B" :=
  waiting_series_served_between (by decide) twoSeriesRun_serves.1 twoSeriesRun_serves.2
    (by decide)
    (by
      intro step low high
      obtain rfl | rfl : step = 1 ∨ step = 2 := by omega
      · exact ⟨("B", "1"), by simp [twoSeriesRun], rfl, rfl⟩
      · exact ⟨("B", "2"), by simp [twoSeriesRun], rfl, rfl⟩)

end QueueRun

end MokuroBunko.Sched
