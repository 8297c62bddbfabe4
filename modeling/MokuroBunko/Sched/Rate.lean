import MokuroBunko.Data.Json
import MokuroBunko.Lib.CheckedArithmetic
import Mathlib.Data.List.Sort

/-! How fast a row reads pages. A rate comes from this process's volumes, the recorded
history and the saved benchmarks, blended in seconds per page; every division is checked.
-/

namespace MokuroBunko.Sched

open MokuroBunko.Lib MokuroBunko.Data

-- Constants

/-- Weight of the newest completed volume in the session's moving average. -/
def SESSION_ALPHA : ℚ := 1 / 2

/-- Pages a volume must have emitted before its own rate counts. -/
def MIN_INFLIGHT_PAGES : ℤ := 4

/-- What the prior is worth, in pages of in-flight evidence. -/
def BLEND_PRIOR_PAGES : ℚ := 16

/-- Pages a session must have finished before it outweighs older evidence. -/
def SESSION_PRIOR_PAGES : ℚ := 64

def DEFAULT_STARTUP_SECONDS : ℚ := 20

/-- The most a volume's fixed cost may be believed to be. -/
def MAX_LATENCY_SECONDS : ℚ := 60

/-- Recent pairs the latency fit keeps per key. -/
def LATENCY_SAMPLES : ℕ := 8

/-- Recent pairs the delivered throughput keeps per key. -/
def RECENT_VOLUMES : ℕ := 20

def SOURCE_SESSION : String := "session"
def SOURCE_SESSION_OPENING : String := "session (opening volume)"
def SOURCE_HISTORY : String := "history"
def SOURCE_BENCH : String := "bench"
def SOURCE_VOLUME : String := "volume"
def FIT_SUFFIX : String := " (fit)"
def STARTUP_SESSION : String := "session"
def STARTUP_BENCH : String := "bench"
def STARTUP_DEFAULT : String := "default"

/-- The machine key of this server. -/
def LOCAL_MACHINE : String := "local"

/-- `rate_key`: the row id for this server, `<id>@<name>` for a processor. -/
def rateKey (generationId machine : String) : String :=
  if machine = LOCAL_MACHINE then generationId else generationId ++ "@" ++ machine

-- Rates and cost lines

/-- `emission_rate(M, t)`: `(M - 1) / t` for `M ≥ 2, t > 0`. -/
def emissionRate (pagesDone : ℤ) (secondsSinceFirst : ℚ) : Checked (Option ℚ) :=
  if pagesDone < 2 ∨ secondsSinceFirst ≤ 0 then .ok none
  else do
    let rate ← checkedDiv ((pagesDone - 1 : ℤ) : ℚ) secondsSinceFirst
    return if 0 < rate then some rate else none

theorem emissionRate_yields (pagesDone : ℤ) (secondsSinceFirst : ℚ)
    : Checked.Yields (emissionRate pagesDone secondsSinceFirst)
        (fun rate => ∀ live ∈ rate, 0 < live) := by
  unfold emissionRate
  split_ifs with undefined
  · exact .pure (by simp)
  · have seconds : secondsSinceFirst ≠ 0 := by
      push Not at undefined
      exact undefined.2.ne'
    refine Checked.Yields.bind (.div seconds) ?_
    intro rate _
    exact .pure (by simp)

/-- A volume's cost line: `seconds = latency + pages * seconds_per_page`. -/
structure VolumeCostFit where
  latencySeconds : ℚ
  secondsPerPage : ℚ

/-- `VolumeCostFit::pages_per_second`. -/
def VolumeCostFit.pagesPerSecond (fit : VolumeCostFit) : Checked ℚ :=
  checkedDiv 1 fit.secondsPerPage

/-- The distinct page counts of the pairs, up to the second. -/
def distinctPages : List (ℚ × ℚ) → List ℚ → List ℚ
  | [], distinct => distinct
  | (pages, _) :: rest, distinct =>
      let distinct := if pages ∈ distinct then distinct else distinct ++ [pages]
      if 2 ≤ distinct.length then distinct else distinctPages rest distinct

/-- The running sums of the weighted least squares. -/
structure FitSums where
  total : ℚ
  sumX : ℚ
  sumY : ℚ
  sumXX : ℚ
  sumXY : ℚ

/-- The sums over the pairs, oldest first: a pair's weight loses a factor `1 - alpha` for
every newer pair.
-/
def weightedSums (alpha : ℚ) : FitSums → List (ℚ × ℚ) → FitSums
  | sums, [] => sums
  | sums, (x, y) :: newer =>
      let weight := (1 - alpha) ^ newer.length
      weightedSums alpha {
        total := sums.total + weight
        sumX := sums.sumX + weight * x
        sumY := sums.sumY + weight * y
        sumXX := sums.sumXX + weight * x * x
        sumXY := sums.sumXY + weight * x * y
      } newer

/-- `fit_volume_cost`: weighted least squares over (pages, seconds). Nothing with fewer
than two distinct page counts or a slope that is not positive.
-/
def fitVolumeCost (samples : List (ℚ × ℚ)) (alpha : ℚ) : Checked (Option VolumeCostFit) :=
  let pairs := samples.filter (fun pair => 0 < pair.1 ∧ 0 < pair.2)
  if (distinctPages pairs []).length < 2 then .ok none
  else
    let sums := weightedSums alpha ⟨0, 0, 0, 0, 0⟩ pairs
    let denominator := sums.total * sums.sumXX - sums.sumX * sums.sumX
    if denominator ≤ 0 then .ok none
    else do
      let slope ← checkedDiv (sums.total * sums.sumXY - sums.sumX * sums.sumY) denominator
      if slope ≤ 0 then .ok none
      else
        let intercept ← checkedDiv (sums.sumY - slope * sums.sumX) sums.total
        return some {
          latencySeconds := min MAX_LATENCY_SECONDS (max 0 intercept)
          secondsPerPage := slope
        }

theorem one_le_total_weightedSums {alpha : ℚ} (share : alpha ≤ 1) {pairs : List (ℚ × ℚ)}
    (present : pairs ≠ []) {sums : FitSums} (nonneg : 0 ≤ sums.total)
    : 1 ≤ (weightedSums alpha sums pairs).total := by
  induction pairs generalizing sums with
  | nil => exact absurd rfl present
  | cons pair newer ih =>
      obtain ⟨x, y⟩ := pair
      have weight : 0 ≤ (1 - alpha) ^ newer.length := pow_nonneg (by linarith) _
      cases newer with
      | nil => simpa [weightedSums] using nonneg
      | cons next newest =>
          exact ih (by simp) (by simpa [weightedSums] using add_nonneg nonneg weight)

/-- A fit has a positive cost per page and a fixed cost of at most a minute. -/
structure VolumeCostFit.Usable (fit : VolumeCostFit) : Prop where
  perPage : 0 < fit.secondsPerPage
  latency : 0 ≤ fit.latencySeconds ∧ fit.latencySeconds ≤ MAX_LATENCY_SECONDS

theorem fitVolumeCost_yields {alpha : ℚ} (share : alpha ≤ 1) (samples : List (ℚ × ℚ))
    : Checked.Yields (fitVolumeCost samples alpha) (fun fit => ∀ line ∈ fit, line.Usable) := by
  unfold fitVolumeCost
  extract_lets pairs sums denominator
  split_ifs with few flat
  · exact .pure (by simp)
  · exact .pure (by simp)
  have present : pairs ≠ [] := by
    intro none
    simp [none, distinctPages] at few
  have total : 1 ≤ sums.total := one_le_total_weightedSums share present le_rfl
  refine Checked.Yields.bind (.div (not_le.mp flat).ne') ?_
  intro slope _
  split_ifs with falling
  · exact .pure (by simp)
  refine Checked.Yields.bind (.div (zero_lt_one.trans_le total).ne') ?_
  intro intercept _
  refine .pure ?_
  simp only [Option.mem_def, Option.some.injEq]
  rintro _ rfl
  exact ⟨by simpa using falling, le_min (by simp [MAX_LATENCY_SECONDS]) (le_max_left _ _),
    min_le_left _ _⟩

/-- `RateEstimate`: one row's speed, its fixed per-volume cost and their source. -/
structure RateEstimate where
  pagesPerSecond : ℚ
  source : String
  volumesObserved : ℤ
  latencySeconds : ℚ

namespace RateEstimate

/-- A positive page rate and a latency of at most a minute. -/
structure Usable (estimate : RateEstimate) : Prop where
  rate : 0 < estimate.pagesPerSecond
  latency : 0 ≤ estimate.latencySeconds ∧ estimate.latencySeconds ≤ MAX_LATENCY_SECONDS

/-- `RateEstimate::bench`: a page rate and no fixed cost. -/
def bench (pagesPerSecond : ℚ) : RateEstimate := ⟨pagesPerSecond, SOURCE_BENCH, 0, 0⟩

/-- `RateEstimate::seconds_for`: how long the pages take, without the fixed cost. -/
def secondsFor (estimate : RateEstimate) (pages : ℚ) : ℚ := pages / estimate.pagesPerSecond

/-- `RateEstimate::volume_seconds`: a whole volume, fill and drain included. -/
def volumeSeconds (estimate : RateEstimate) (pages : ℚ) : ℚ :=
  estimate.latencySeconds + estimate.secondsFor pages

theorem usable_of_pos {pagesPerSecond : ℚ} (positive : 0 < pagesPerSecond) (source : String)
    (volumes : ℤ)
    : Usable ⟨pagesPerSecond, source, volumes, 0⟩ :=
  ⟨positive, le_rfl, by simp [MAX_LATENCY_SECONDS]⟩

theorem Usable.volumeSeconds_nonneg {estimate : RateEstimate} (usable : estimate.Usable)
    {pages : ℚ} (nonneg : 0 ≤ pages)
    : 0 ≤ estimate.volumeSeconds pages :=
  add_nonneg usable.latency.1 (div_nonneg nonneg usable.rate.le)

end RateEstimate

/-- A fit turned into an estimate, as the session and the history do. -/
def VolumeCostFit.estimate (fit : VolumeCostFit) (source : String) (volumes : ℤ)
    : Checked (Option RateEstimate) := do
  let rate ← fit.pagesPerSecond
  return some ⟨rate, source, volumes, fit.latencySeconds⟩

theorem VolumeCostFit.Usable.estimate_yields {fit : VolumeCostFit} (usable : fit.Usable)
    (source : String) (volumes : ℤ)
    : Checked.Yields (fit.estimate source volumes)
        (fun estimate => ∀ found ∈ estimate, found.Usable) := by
  refine Checked.Yields.bind (.div usable.perPage.ne') ?_
  rintro rate rfl
  refine .pure ?_
  simp only [Option.mem_def, Option.some.injEq]
  rintro _ rfl
  exact ⟨one_div_pos.mpr usable.perPage, usable.latency⟩

/-- `StartupEstimate`: what opening a session costs and where that came from. -/
structure StartupEstimate where
  seconds : ℚ
  source : String
  rough : Bool

/-- `StartupEstimate::new`. -/
def StartupEstimate.new (seconds : ℚ) (source : String) : StartupEstimate :=
  ⟨seconds, source, false⟩

/-- `StartupEstimate::default_estimate`. -/
def StartupEstimate.defaultEstimate : StartupEstimate :=
  ⟨DEFAULT_STARTUP_SECONDS, STARTUP_DEFAULT, true⟩

end MokuroBunko.Sched
