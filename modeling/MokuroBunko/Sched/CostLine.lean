import MokuroBunko.Lib.LeastSquares
import MokuroBunko.Sched.Rate
import Mathlib.Tactic.NormNum

/-! The cost line of a row's volumes is the weighted least squares line through the samples
that can be used: those with a positive page count and positive seconds.
-/

namespace MokuroBunko.Sched

open MokuroBunko.Lib MokuroBunko.Data
open LeastSquares (Point moment Weighted Best)

-- The samples as weighted points

/-- The samples a fit uses. -/
def usableSamples (samples : List (ℚ × ℚ)) : List (ℚ × ℚ) :=
  samples.filter (fun pair => 0 < pair.1 ∧ 0 < pair.2)

/-- The samples as points, oldest first, each weighted by the number of newer ones. -/
def points (alpha : ℚ) : List (ℚ × ℚ) → List (Point ℚ)
  | [] => []
  | (x, y) :: newer => ⟨(1 - alpha) ^ newer.length, x, y⟩ :: points alpha newer

theorem mem_points {alpha : ℚ} {pairs : List (ℚ × ℚ)} {point : Point ℚ}
    (member : point ∈ points alpha pairs)
    : (point.x, point.y) ∈ pairs ∧ ∃ newer, point.weight = (1 - alpha) ^ newer := by
  induction pairs with
  | nil => cases member
  | cons pair rest ih =>
      rcases List.mem_cons.mp member with rfl | below
      · exact ⟨List.mem_cons_self, rest.length, rfl⟩
      · exact ⟨List.mem_cons_of_mem _ (ih below).1, (ih below).2⟩

theorem exists_point (alpha : ℚ) {pairs : List (ℚ × ℚ)} {pair : ℚ × ℚ}
    (member : pair ∈ pairs)
    : ∃ point ∈ points alpha pairs, (point.x, point.y) = pair := by
  induction pairs with
  | nil => cases member
  | cons first rest ih =>
      rcases List.mem_cons.mp member with rfl | below
      · exact ⟨_, List.mem_cons_self, rfl⟩
      · obtain ⟨point, listed, same⟩ := ih below
        exact ⟨point, List.mem_cons_of_mem _ listed, same⟩

theorem weighted_points {alpha : ℚ} (below : alpha < 1) (pairs : List (ℚ × ℚ))
    : Weighted (points alpha pairs) := by
  intro point member
  obtain ⟨newer, weight⟩ := (mem_points member).2
  rw [weight]
  exact pow_pos (sub_pos.mpr below) newer

theorem weightedSums_eq (alpha : ℚ) (pairs : List (ℚ × ℚ)) (sums : FitSums)
    : weightedSums alpha sums pairs = {
        total := sums.total + LeastSquares.total (points alpha pairs)
        sumX := sums.sumX + LeastSquares.sumX (points alpha pairs)
        sumY := sums.sumY + LeastSquares.sumY (points alpha pairs)
        sumXX := sums.sumXX + LeastSquares.sumXX (points alpha pairs)
        sumXY := sums.sumXY + LeastSquares.sumXY (points alpha pairs)
      } := by
  induction pairs generalizing sums with
  | nil => simp [weightedSums, points]
  | cons pair newer ih =>
      rw [weightedSums, ih]
      simp only [points, LeastSquares.moment_cons, FitSums.mk.injEq]
      refine ⟨?_, ?_, ?_, ?_, ?_⟩ <;> ring

-- Two page counts

/-- Two of the samples have different page counts. -/
def PagesDiffer (pairs : List (ℚ × ℚ)) : Prop :=
  ∃ first ∈ pairs, ∃ second ∈ pairs, first.1 ≠ second.1

theorem differ_points (alpha : ℚ) {pairs : List (ℚ × ℚ)} (differ : PagesDiffer pairs)
    : LeastSquares.Differ (points alpha pairs) := by
  obtain ⟨first, listed, second, listed', apart⟩ := differ
  obtain ⟨point, member, rfl⟩ := exists_point alpha listed
  obtain ⟨other, member', rfl⟩ := exists_point alpha listed'
  exact ⟨point, member, other, member', apart⟩

theorem distinctPages_lt_iff (pairs : List (ℚ × ℚ)) (known : ℚ)
    : (distinctPages pairs [known]).length < 2 ↔ ∀ pair ∈ pairs, pair.1 = known := by
  induction pairs with
  | nil => simp [distinctPages]
  | cons pair rest ih =>
      by_cases same : pair.1 = known
      · simp [distinctPages, same, ih]
      · simp [distinctPages, same]

theorem distinctPages_few_iff (pairs : List (ℚ × ℚ))
    : (distinctPages pairs []).length < 2 ↔ ¬ PagesDiffer pairs := by
  cases pairs with
  | nil => simp [distinctPages, PagesDiffer]
  | cons pair rest =>
      have begins : distinctPages (pair :: rest) [] = distinctPages rest [pair.1] := by
        simp [distinctPages]
      rw [begins, distinctPages_lt_iff]
      constructor
      · rintro alike ⟨first, listed, second, listed', apart⟩
        have same : ∀ other ∈ pair :: rest, other.1 = pair.1 := by
          intro other member
          rcases List.mem_cons.mp member with rfl | below
          · rfl
          · exact alike other below
        exact apart ((same first listed).trans (same second listed').symm)
      · intro alike other member
        by_contra apart
        exact alike ⟨other, List.mem_cons_of_mem _ member, pair, List.mem_cons_self, apart⟩

-- The fit

/-- The denominator `fit_volume_cost` divides by, over the samples it uses. -/
def fitDenominator (samples : List (ℚ × ℚ)) (alpha : ℚ) : ℚ :=
  let sums := weightedSums alpha ⟨0, 0, 0, 0, 0⟩ (usableSamples samples)
  sums.total * sums.sumXX - sums.sumX * sums.sumX

theorem fitDenominator_eq (samples : List (ℚ × ℚ)) (alpha : ℚ)
    : fitDenominator samples alpha
      = LeastSquares.determinant (points alpha (usableSamples samples)) := by
  simp [fitDenominator, weightedSums_eq, LeastSquares.determinant]

theorem fitDenominator_pos {samples : List (ℚ × ℚ)} {alpha : ℚ} (below : alpha < 1)
    (differ : PagesDiffer (usableSamples samples))
    : 0 < fitDenominator samples alpha := by
  rw [fitDenominator_eq]
  exact LeastSquares.determinant_pos (weighted_points below _) (differ_points alpha differ)

theorem fitVolumeCost_few {samples : List (ℚ × ℚ)} (alpha : ℚ)
    (alike : ¬ PagesDiffer (usableSamples samples))
    : fitVolumeCost samples alpha = .ok none := by
  have few := (distinctPages_few_iff _).mpr alike
  unfold usableSamples at few
  unfold fitVolumeCost
  dsimp only
  rw [if_pos few]

theorem fitVolumeCost_many {samples : List (ℚ × ℚ)} {alpha : ℚ} (below : alpha < 1)
    (differ : PagesDiffer (usableSamples samples))
    : fitVolumeCost samples alpha
      = .ok (if LeastSquares.slope (points alpha (usableSamples samples)) ≤ 0 then none
          else some {
            latencySeconds := min MAX_LATENCY_SECONDS
              (max 0 (LeastSquares.intercept (points alpha (usableSamples samples))))
            secondsPerPage := LeastSquares.slope (points alpha (usableSamples samples))
          }) := by
  have many := mt (distinctPages_few_iff _).mp (not_not.mpr differ)
  have regular := fitDenominator_pos below differ
  obtain ⟨_, listed, _⟩ := differ_points alpha differ
  have heavy := LeastSquares.total_pos (weighted_points below _) listed
  have sums := weightedSums_eq alpha (usableSamples samples) ⟨0, 0, 0, 0, 0⟩
  simp only [zero_add] at sums
  rw [fitDenominator_eq] at regular
  unfold fitVolumeCost
  rw [show (samples.filter fun pair => decide (0 < pair.1 ∧ 0 < pair.2))
    = usableSamples samples from rfl]
  dsimp only
  rw [if_neg many, sums]
  dsimp only
  rw [← LeastSquares.determinant, if_neg (not_le.mpr regular),
    Checked.checkedDiv_of_ne regular.ne']
  simp only [Except.bind, bind]
  rw [← LeastSquares.slope]
  split
  case isTrue flat => rfl
  case isFalse rising =>
    rw [Checked.checkedDiv_of_ne heavy.ne', ← LeastSquares.intercept]
    rfl

/-- The samples of a cost line: seconds against pages, the fixed part and the rate. -/
def OnLine (pairs : List (ℚ × ℚ)) (latency rate : ℚ) : Prop :=
  ∀ pair ∈ pairs, pair.2 = latency + pair.1 / rate

/-- Over the usable samples: with two page counts the denominator is positive; a rising line
through them all is the fit when its intercept lies in `[0, 60]`; and there is no fit exactly
when the page counts agree or the least squares line does not rise. -/
theorem fit_sound {alpha : ℚ} (below : alpha < 1) (samples : List (ℚ × ℚ))
    : (PagesDiffer (usableSamples samples) → 0 < fitDenominator samples alpha)
      ∧ (∀ latency rate, PagesDiffer (usableSamples samples) → 0 < rate → 0 ≤ latency
          → latency ≤ MAX_LATENCY_SECONDS → OnLine (usableSamples samples) latency rate
          → fitVolumeCost samples alpha = .ok (some ⟨latency, 1 / rate⟩))
      ∧ (fitVolumeCost samples alpha = .ok none
        ↔ ¬ PagesDiffer (usableSamples samples)
          ∨ ∃ latency slope, Best (points alpha (usableSamples samples)) latency slope
              ∧ slope ≤ 0) := by
  have weighted := weighted_points below (usableSamples samples)
  have best := fun differ : PagesDiffer (usableSamples samples) =>
    @LeastSquares.best_iff _ _ _ _ _ weighted (differ_points alpha differ)
  refine ⟨fitDenominator_pos below, ?_, ?_⟩
  · intro latency rate differ rises nonneg small onLine
    have through : ∀ point ∈ points alpha (usableSamples samples),
        point.y = latency + point.x * (1 / rate) := by
      intro point member
      rw [mul_one_div]
      exact onLine _ (mem_points member).1
    have least := LeastSquares.best_of_through weighted through
    obtain ⟨crossing, tilt⟩ := (best differ).mp least
    have rising : ¬ 1 / rate ≤ 0 := not_le.mpr (one_div_pos.mpr rises)
    rw [fitVolumeCost_many below differ, ← crossing, ← tilt, if_neg rising, max_eq_right nonneg,
      min_eq_right small]
  · by_cases differ : PagesDiffer (usableSamples samples)
    · rw [fitVolumeCost_many below differ]
      constructor
      · intro none
        refine .inr ⟨_, _, (best differ).mpr ⟨rfl, rfl⟩, ?_⟩
        by_contra rising
        rw [if_neg rising] at none
        cases none
      · rintro (alike | ⟨latency, slope, least, flat⟩)
        · exact absurd differ alike
        · obtain ⟨_, rfl⟩ := (best differ).mp least
          rw [if_pos flat]
    · exact iff_of_true (fitVolumeCost_few alpha differ) (.inl differ)

/-- Two volumes on a line of one page a second behind five seconds. -/
theorem fit_sound_two_volumes
    : fitVolumeCost [(1, 6), (2, 7)] (1 / 2) = .ok (some ⟨5, 1 / 1⟩) := by
  have usable : usableSamples [(1, 6), (2, 7)] = [(1, 6), (2, 7)] := by
    unfold usableSamples
    decide +kernel
  refine (fit_sound (by norm_num) [(1, 6), (2, 7)]).2.1 5 1 ?_ (by norm_num) (by norm_num) ?_ ?_
  · rw [usable]
    exact ⟨(1, 6), by simp, (2, 7), by simp, by norm_num⟩
  · unfold MAX_LATENCY_SECONDS
    norm_num
  · rw [usable]
    unfold OnLine
    norm_num

/-- A sample without pages lies on the line and is left out, and the fit with it. -/
theorem fit_leaves_out_empty_volume
    : PagesDiffer [(0, 5), (1, 6)] ∧ OnLine [(0, 5), (1, 6)] 5 1
      ∧ fitVolumeCost [(0, 5), (1, 6)] (1 / 2) = .ok none := by
  refine ⟨⟨(0, 5), by simp, (1, 6), by simp, by norm_num⟩, ?_, ?_⟩
  · unfold OnLine
    norm_num
  · refine fitVolumeCost_few _ ?_
    have usable : usableSamples [(0, 5), (1, 6)] = [(1, 6)] := by
      unfold usableSamples
      decide +kernel
    rw [usable]
    simp [PagesDiffer]

end MokuroBunko.Sched
