import Mathlib.Algebra.BigOperators.Group.List.Basic
import Mathlib.Algebra.Order.Field.Basic
import Mathlib.Tactic.FieldSimp
import Mathlib.Tactic.LinearCombination
import Mathlib.Tactic.Linarith
import Mathlib.Tactic.Positivity
import Mathlib.Tactic.Ring

/-! Weighted least squares for a line through finitely many points, over any ordered field:
the moments of the points, the determinant of the normal equations, and the one line of
least cost when two abscissas differ.
-/

namespace MokuroBunko.Lib.LeastSquares

variable {K : Type*} [Field K]

structure Point (K : Type*) where
  weight : K
  x : K
  y : K

/-- The weighted sum of a quantity over the points. -/
def moment (quantity : Point K → K) (points : List (Point K)) : K :=
  (points.map (fun point => point.weight * quantity point)).sum

/-- The weighted squares of the distances from the line `y = latency + x * slope`. -/
def cost (points : List (Point K)) (latency slope : K) : K :=
  moment (fun point => (point.y - latency - point.x * slope) ^ 2) points

/-- No line costs less. -/
def Best [LinearOrder K] (points : List (Point K)) (latency slope : K) : Prop :=
  ∀ otherLatency otherSlope, cost points latency slope ≤ cost points otherLatency otherSlope

/-- Two of the points have different abscissas. -/
def Differ (points : List (Point K)) : Prop :=
  ∃ first ∈ points, ∃ second ∈ points, first.x ≠ second.x

def Weighted [LinearOrder K] (points : List (Point K)) : Prop :=
  ∀ point ∈ points, 0 < point.weight

abbrev total (points : List (Point K)) : K := moment (fun _ => 1) points
abbrev sumX (points : List (Point K)) : K := moment Point.x points
abbrev sumY (points : List (Point K)) : K := moment Point.y points
abbrev sumXX (points : List (Point K)) : K := moment (fun point => point.x * point.x) points
abbrev sumXY (points : List (Point K)) : K := moment (fun point => point.x * point.y) points

/-- The determinant of the normal equations. -/
def determinant (points : List (Point K)) : K :=
  total points * sumXX points - sumX points * sumX points

variable {points : List (Point K)} {quantity : Point K → K}

@[simp] theorem moment_nil : moment quantity ([] : List (Point K)) = 0 := rfl

@[simp] theorem moment_cons (point : Point K) (rest : List (Point K))
    : moment quantity (point :: rest)
      = point.weight * quantity point + moment quantity rest := by
  simp [moment]

theorem moment_square_sub (place : K)
    : moment (fun point => (point.x - place) ^ 2) points
      = sumXX points - 2 * place * sumX points + place ^ 2 * total points := by
  induction points with
  | nil => simp
  | cons point rest ih =>
      simp only [moment_cons, ih]
      ring

/-- The slope that solves the normal equations. -/
def slope (points : List (Point K)) : K :=
  (total points * sumXY points - sumX points * sumY points) / determinant points

/-- The intercept that solves the normal equations. -/
def intercept (points : List (Point K)) : K :=
  (sumY points - slope points * sumX points) / total points

theorem cost_eq (latency slope : K)
    : cost points latency slope
      = moment (fun point => point.y ^ 2) points - 2 * latency * sumY points
        - 2 * slope * sumXY points + latency ^ 2 * total points
        + 2 * latency * slope * sumX points + slope ^ 2 * sumXX points := by
  unfold cost
  induction points with
  | nil => simp
  | cons point rest ih =>
      simp only [moment_cons, ih]
      ring

theorem total_mul_cost_sub (heavy : total points ≠ 0) (regular : determinant points ≠ 0)
    (latency line : K)
    : total points * (cost points latency line
          - cost points (intercept points) (slope points))
      = (total points * (latency - intercept points)
            + sumX points * (line - slope points)) ^ 2
        + determinant points * (line - slope points) ^ 2 := by
  have sloping : slope points * determinant points
      = total points * sumXY points - sumX points * sumY points :=
    div_mul_cancel₀ _ regular
  have crossing : intercept points * total points
      = sumY points - slope points * sumX points :=
    div_mul_cancel₀ _ heavy
  rw [cost_eq, cost_eq]
  unfold determinant at sloping ⊢
  generalize slope points = s at *
  generalize intercept points = c at *
  generalize total points = t at *
  generalize sumX points = x at *
  generalize sumY points = y at *
  generalize sumXX points = xx at *
  generalize sumXY points = xy at *
  linear_combination (2 * (line - s)) * sloping
    + (2 * t * (latency - c) + 2 * x * (line - s)) * crossing

variable [LinearOrder K] [IsStrictOrderedRing K]

theorem moment_nonneg (weighted : Weighted points) (nonneg : ∀ point, 0 ≤ quantity point)
    : 0 ≤ moment quantity points := by
  induction points with
  | nil => exact le_rfl
  | cons point rest ih =>
      rw [moment_cons]
      have here := mul_nonneg (weighted point List.mem_cons_self).le (nonneg point)
      have below := ih (fun other member => weighted other (List.mem_cons_of_mem _ member))
      exact add_nonneg here below

theorem moment_pos (weighted : Weighted points) (nonneg : ∀ point, 0 ≤ quantity point)
    {witness : Point K} (member : witness ∈ points) (positive : 0 < quantity witness)
    : 0 < moment quantity points := by
  induction points with
  | nil => cases member
  | cons point rest ih =>
      rw [moment_cons]
      have heavy := weighted point List.mem_cons_self
      have others : Weighted rest :=
        fun other member => weighted other (List.mem_cons_of_mem _ member)
      rcases List.mem_cons.mp member with rfl | below
      · exact add_pos_of_pos_of_nonneg (mul_pos heavy positive) (moment_nonneg others nonneg)
      · exact add_pos_of_nonneg_of_pos (mul_nonneg heavy.le (nonneg point)) (ih others below)

theorem total_pos (weighted : Weighted points) {point : Point K} (member : point ∈ points)
    : 0 < total points :=
  moment_pos weighted (fun _ => zero_le_one) member zero_lt_one

theorem determinant_pos (weighted : Weighted points) (differ : Differ points)
    : 0 < determinant points := by
  obtain ⟨first, listed, second, listed', apart⟩ := differ
  have heavy := total_pos weighted listed
  let mean := sumX points / total points
  have spread : 0 < moment (fun point => (point.x - mean) ^ 2) points := by
    have away : first.x - mean ≠ 0 ∨ second.x - mean ≠ 0 := by
      by_contra same
      push Not at same
      exact apart (by linarith [same.1, same.2])
    rcases away with away | away
    · exact moment_pos weighted (fun _ => sq_nonneg _) listed (by positivity)
    · exact moment_pos weighted (fun _ => sq_nonneg _) listed' (by positivity)
  have scaled := mul_pos heavy spread
  rw [moment_square_sub] at scaled
  have atMean : total points * mean = sumX points := mul_div_cancel₀ _ heavy.ne'
  have same : total points
        * (sumXX points - 2 * mean * sumX points + mean ^ 2 * total points)
      = determinant points := by
    unfold determinant
    linear_combination (total points * mean - sumX points) * atMean
  rwa [same] at scaled

theorem best_iff (weighted : Weighted points) (differ : Differ points) {latency line : K}
    : Best points latency line ↔ latency = intercept points ∧ line = slope points := by
  have regular := determinant_pos weighted differ
  obtain ⟨_, listed, _⟩ := id differ
  have heavy := total_pos weighted listed
  have above := total_mul_cost_sub heavy.ne' regular.ne'
  constructor
  · intro best
    have below := best (intercept points) (slope points)
    have squares := above latency line
    have small : total points * (cost points latency line
        - cost points (intercept points) (slope points)) ≤ 0 :=
      mul_nonpos_of_nonneg_of_nonpos heavy.le (sub_nonpos.mpr below)
    rw [squares] at small
    have tilt : line - slope points = 0 := by
      by_contra other
      have positive := mul_pos regular (sq_pos_of_ne_zero other)
      linarith [sq_nonneg (total points * (latency - intercept points)
        + sumX points * (line - slope points))]
    rw [tilt] at small
    have shift : latency - intercept points = 0 := by
      have zero : (total points * (latency - intercept points)) ^ 2 = 0 :=
        le_antisymm (by linarith) (sq_nonneg _)
      rcases mul_eq_zero.mp (pow_eq_zero_iff two_ne_zero |>.mp zero) with none | same
      · exact absurd none heavy.ne'
      · exact same
    exact ⟨sub_eq_zero.mp shift, sub_eq_zero.mp tilt⟩
  · rintro ⟨rfl, rfl⟩ otherLatency otherSlope
    have squares := above otherLatency otherSlope
    have nonneg : 0 ≤ total points * (cost points otherLatency otherSlope
        - cost points (intercept points) (slope points)) := by
      rw [squares]
      positivity
    exact sub_nonneg.mp (nonneg_of_mul_nonneg_right nonneg heavy)

theorem best_of_through (weighted : Weighted points) {latency line : K}
    (through : ∀ point ∈ points, point.y = latency + point.x * line)
    : Best points latency line := by
  have free : cost points latency line = 0 := by
    unfold cost moment
    refine List.sum_eq_zero ?_
    intro term listed
    obtain ⟨point, member, rfl⟩ := List.mem_map.mp listed
    dsimp only
    rw [through point member]
    ring
  intro otherLatency otherSlope
  rw [free]
  exact moment_nonneg weighted (fun _ => sq_nonneg _)

end MokuroBunko.Lib.LeastSquares
