import Mathlib.Algebra.Order.Field.Basic
import Mathlib.Algebra.Order.Ring.Rat
import Mathlib.Tactic.Linarith
import Mathlib.Tactic.Positivity
import Mathlib.Tactic.Ring

/-! Arithmetic that stops at a division by zero, with the rules that show it never does,
and blends of two values that stay between them.
-/

namespace MokuroBunko.Lib

-- Computations that stop at a division by zero

/-- The only way a checked computation stops. -/
inductive DivisionByZero where
  | divisionByZero
deriving DecidableEq

/-- A computation that either stops at a division by zero or has a result. -/
abbrev Checked (α : Type) := Except DivisionByZero α

/-- Division that stops when the divisor is zero. -/
def checkedDiv {K : Type} [Field K] [DecidableEq K] (dividend divisor : K) : Checked K :=
  if divisor = 0 then .error .divisionByZero else .ok (dividend / divisor)

namespace Checked

variable {α β : Type}

/-- The computation divides by zero nowhere and its result satisfies `post`. -/
def Yields (computation : Checked α) (post : α → Prop) : Prop :=
  ∃ value, computation = .ok value ∧ post value

theorem Yields.pure {value : α} {post : α → Prop} (holds : post value)
    : Yields (.ok value) post :=
  ⟨value, rfl, holds⟩

theorem Yields.bind {computation : Checked α} {next : α → Checked β} {mid : α → Prop}
    {post : β → Prop} (first : Yields computation mid)
    (rest : ∀ value, mid value → Yields (next value) post)
    : Yields (computation >>= next) post := by
  obtain ⟨value, rfl, holds⟩ := first
  exact rest value holds

theorem Yields.mono {computation : Checked α} {post weaker : α → Prop}
    (yields : Yields computation post) (weaken : ∀ value, post value → weaker value)
    : Yields computation weaker := by
  obtain ⟨value, rfl, holds⟩ := yields
  exact ⟨value, rfl, weaken value holds⟩

theorem Yields.of_ok {value : α} {post : α → Prop} (yields : Yields (.ok value) post)
    : post value := by
  obtain ⟨found, same, holds⟩ := yields
  cases same
  exact holds

theorem Yields.div {K : Type} [Field K] [DecidableEq K] {dividend divisor : K}
    (nonzero : divisor ≠ 0)
    : Yields (checkedDiv dividend divisor) (fun quotient => quotient = dividend / divisor) :=
  ⟨dividend / divisor, by simp [checkedDiv, nonzero], rfl⟩

theorem checkedDiv_of_ne {K : Type} [Field K] [DecidableEq K] {dividend divisor : K}
    (nonzero : divisor ≠ 0)
    : checkedDiv dividend divisor = .ok (dividend / divisor) := by
  simp [checkedDiv, nonzero]

/-- The first result found along a list, if any candidate has one. -/
def findFirst (search : α → Checked (Option β)) : List α → Checked (Option β)
  | [] => .ok none
  | candidate :: rest => do
      match ← search candidate with
      | some found => return some found
      | none => findFirst search rest

theorem Yields.findFirst {search : α → Checked (Option β)} {post : β → Prop}
    {candidates : List α}
    (each : ∀ candidate ∈ candidates,
      Yields (search candidate) (fun found => ∀ value ∈ found, post value))
    : Yields (Checked.findFirst search candidates) (fun found => ∀ value ∈ found, post value) := by
  induction candidates with
  | nil => exact .pure (by simp)
  | cons candidate rest ih =>
      have restYields := ih (fun other member => each other (List.mem_cons_of_mem _ member))
      refine Yields.bind (each candidate (by simp)) ?_
      intro found holds
      cases found with
      | some value => exact .pure holds
      | none => exact restYields

end Checked

-- Blends

section Between

variable {K : Type*} [LinearOrder K]

/-- The value lies between the two others, whichever is the larger. -/
def Between (value left right : K) : Prop := min left right ≤ value ∧ value ≤ max left right

theorem Between.lt {value left right bound : K} (between : Between value left right)
    (leftAbove : bound < left) (rightAbove : bound < right)
    : bound < value :=
  lt_of_lt_of_le (lt_min leftAbove rightAbove) between.1

theorem Between.mem_Icc {value left right low high : K} (between : Between value left right)
    (leftIn : low ≤ left ∧ left ≤ high) (rightIn : low ≤ right ∧ right ≤ high)
    : low ≤ value ∧ value ≤ high :=
  ⟨(le_min leftIn.1 rightIn.1).trans between.1, between.2.trans (max_le leftIn.2 rightIn.2)⟩

end Between

section Blends

variable {K : Type*} [Field K] [LinearOrder K] [IsStrictOrderedRing K]

theorem blend_between {weight : K} (left right : K) (nonneg : 0 ≤ weight) (le_one : weight ≤ 1)
    : Between (weight * left + (1 - weight) * right) left right := by
  have rest : 0 ≤ 1 - weight := by linarith
  constructor
  · calc min left right
        = weight * min left right + (1 - weight) * min left right := by ring
      _ ≤ weight * left + (1 - weight) * right :=
          add_le_add (mul_le_mul_of_nonneg_left (min_le_left _ _) nonneg)
            (mul_le_mul_of_nonneg_left (min_le_right _ _) rest)
  · calc weight * left + (1 - weight) * right
        ≤ weight * max left right + (1 - weight) * max left right :=
          add_le_add (mul_le_mul_of_nonneg_left (le_max_left _ _) nonneg)
            (mul_le_mul_of_nonneg_left (le_max_right _ _) rest)
      _ = max left right := by ring

theorem Between.one_div {value left right : K} (leftPos : 0 < left) (rightPos : 0 < right)
    (between : Between value (1 / left) (1 / right))
    : Between (1 / value) left right := by
  have valuePos : 0 < value := between.lt (by positivity) (by positivity)
  obtain ⟨low, high⟩ := between
  constructor
  · rcases max_choice (1 / left) (1 / right) with which | which <;> rw [which] at high
    · exact (min_le_left _ _).trans ((le_one_div leftPos valuePos).mpr high)
    · exact (min_le_right _ _).trans ((le_one_div rightPos valuePos).mpr high)
  · rcases min_choice (1 / left) (1 / right) with which | which <;> rw [which] at low
    · exact ((one_div_le valuePos leftPos).mpr low).trans (le_max_left _ _)
    · exact ((one_div_le valuePos rightPos).mpr low).trans (le_max_right _ _)

end Blends

end MokuroBunko.Lib
