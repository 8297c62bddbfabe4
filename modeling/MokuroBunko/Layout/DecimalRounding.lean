import MokuroBunko.Library.NewestWins

/-! `round_digits` (`py.rs`): a double rounded to a number of decimal digits in integers of 128 bits.
What the last division and the parsing of a text make of the integer is left to the doubles.
-/

namespace MokuroBunko.Layout

open MokuroBunko.Library

-- Doubles

/-- A double by its bits. -/
structure Double where
  bits : BitVec 64
deriving DecidableEq

namespace Double

variable (x : Double)

def isNegative : Bool := x.bits.msb

def expBits : ℕ := x.bits.toNat / 2 ^ 52 % 2 ^ 11

def frac : ℕ := x.bits.toNat % 2 ^ 52

def isFinite : Bool := x.expBits ≠ 0x7ff

/-- The mantissa, with the bit that is not stored. -/
def mant : ℕ := if x.expBits = 0 then x.frac else 2 ^ 52 ||| x.frac

def exp : ℤ := if x.expBits = 0 then -1074 else x.expBits - 1075

/-- What a finite double stands for. -/
def value : ℚ := (if x.isNegative then -1 else 1) * (x.mant * 2 ^ x.exp)

theorem mant_lt : x.mant < 2 ^ 53 := by
  have small : x.frac < 2 ^ 52 := Nat.mod_lt _ (by decide)
  unfold mant
  split
  · omega
  · have sum := Nat.two_pow_add_eq_or_of_lt small 1
    rw [Nat.mul_one] at sum
    omega

end Double

-- Rounding

/-- The result of an operation of `u128`, nothing when it overflows. -/
def u128 (number : ℕ) : Option ℕ := if number < 2 ^ 128 then some number else none

/-- The `q` of `round_digits`. -/
def roundedQuotient (mant k ndigits : ℕ) : Option ℕ := do
  let pow10 ← u128 (10 ^ ndigits)
  let num ← u128 (mant * pow10)
  if 127 ≤ k then pure 0
  else
    let q := num / 2 ^ k
    let whole := q * 2 ^ k % 2 ^ 128
    let rem ← if whole ≤ num then some (num - whole) else none
    let half := 2 ^ (k - 1)
    if half < rem ∨ rem = half ∧ q % 2 = 1 then u128 (q + 1) else pure q

/-- What `round_digits` returns, before the doubles make a double of it. -/
inductive Rounded where
  /-- The number itself. -/
  | unchanged
  /-- `q as f64 / 10f64.powi(ndigits)`, with the sign. -/
  | divided (negative : Bool) (q : ℕ)
  /-- The double read from `{q}e-{ndigits}`, with the sign. -/
  | parsed (negative : Bool) (q : ℕ)
deriving DecidableEq

def roundDigits (x : Double) (ndigits : ℕ) : Option Rounded :=
  if ! x.isFinite || x.mant = 0 then some .unchanged
  else if 22 < ndigits then some .unchanged
  else if 0 ≤ x.exp then some .unchanged
  else
    (roundedQuotient x.mant (-x.exp).toNat ndigits).map (fun q =>
      if q ≤ 2 ^ 53 then .divided x.isNegative q else .parsed x.isNegative q)

/-- The result times the power of ten. -/
def Rounded.scaled (x : Double) (ndigits : ℕ) : Rounded → ℚ
  | .unchanged => x.value * 10 ^ ndigits
  | .divided negative q | .parsed negative q => (if negative then -1 else 1) * q

-- What is computed

theorem nearest_neg (x : ℚ) : nearest (-x) = -nearest x := by
  by_cases whole : x = ⌊x⌋
  · rw [whole, ← Int.cast_neg, nearest_intCast, nearest_intCast]
  · have lower := lt_of_le_of_ne (Int.floor_le x) (Ne.symm whole)
    have upper := Int.lt_floor_add_one x
    have floor : ⌊-x⌋ = -⌊x⌋ - 1 := by
      rw [Int.floor_eq_iff]
      push_cast
      constructor <;> linarith
    unfold nearest
    rw [floor]
    push_cast
    generalize ⌊x⌋ = n at lower upper
    obtain less | half | more := lt_trichotomy (x - n) (1 / 2)
    · rw [if_neg, if_pos (.inl less)]
      · ring
      · rintro (other | ⟨other, _⟩) <;> linarith
    · -- the two whole numbers beside a tie are not both even
      by_cases even : n % 2 = 0
      · rw [if_neg, if_pos (.inr ⟨half, even⟩)]
        · ring
        · rintro (other | ⟨_, other⟩)
          · linarith
          · omega
      · rw [if_pos (.inr ⟨by linarith, by omega⟩), if_neg]
        · ring
        · rintro (other | ⟨_, other⟩)
          · linarith
          · exact even other
    · rw [if_pos (.inl (by linarith)), if_neg]
      · ring
      · rintro (other | ⟨other, _⟩) <;> linarith

theorem nearest_div {num half : ℕ} (positive : 0 < half)
    : nearest (num / (2 * half : ℕ))
      = if half < num % (2 * half)
          ∨ num % (2 * half) = half ∧ num / (2 * half) % 2 = 1 then
          (num / (2 * half) : ℕ) + 1
        else (num / (2 * half) : ℕ) := by
  have floor : ⌊(num / (2 * half : ℕ) : ℚ)⌋ = (num / (2 * half) : ℕ) := by
    exact Rat.floor_natCast_div_natCast num (2 * half)
  have split : (num : ℚ) / (2 * half : ℕ) - (num / (2 * half) : ℕ)
      = (num % (2 * half) : ℕ) / (2 * half : ℕ) := by
    rw [sub_eq_iff_eq_add, div_add' _ _ _ (by positivity), div_left_inj' (by positivity)]
    exact_mod_cast (Nat.mod_add_div' num (2 * half)).symm
  have below : (num % (2 * half) : ℕ) / (2 * half : ℕ) < (1 / 2 : ℚ)
      ↔ num % (2 * half) < half := by
    rw [div_lt_div_iff₀ (by positivity) two_pos]
    norm_cast
    omega
  have equal : (num % (2 * half) : ℕ) / (2 * half : ℕ) = (1 / 2 : ℚ)
      ↔ num % (2 * half) = half := by
    rw [div_eq_div_iff (by positivity) two_ne_zero]
    norm_cast
    omega
  unfold nearest
  simp only [floor, Int.cast_natCast, split, below, equal]
  generalize num % (2 * half) = rem
  generalize num / (2 * half) = q
  split_ifs <;> omega

theorem mant_mul_lt {mant ndigits : ℕ} (small : mant < 2 ^ 53) (few : ndigits ≤ 22)
    : mant * 10 ^ ndigits < 2 ^ 127 := by
  have power : 10 ^ ndigits ≤ 10 ^ 22 := Nat.pow_le_pow_right (by decide) few
  calc mant * 10 ^ ndigits ≤ (2 ^ 53 - 1) * 10 ^ 22 := Nat.mul_le_mul (by omega) power
    _ < 2 ^ 127 := by decide

theorem roundedQuotient_spec {mant k ndigits : ℕ} (positive : 0 < k) (small : mant < 2 ^ 53)
    (few : ndigits ≤ 22)
    : ∃ q, roundedQuotient mant k ndigits = some q
      ∧ (q : ℤ) = if 127 ≤ k then 0 else nearest (mant * 10 ^ ndigits / 2 ^ k : ℚ) := by
  have power : 10 ^ ndigits ≤ 10 ^ 22 := Nat.pow_le_pow_right (by decide) few
  have product := mant_mul_lt small few
  have fits : u128 (10 ^ ndigits) = some (10 ^ ndigits) :=
    if_pos (power.trans_lt (by decide))
  have fits' : u128 (mant * 10 ^ ndigits) = some (mant * 10 ^ ndigits) :=
    if_pos (product.trans (by decide))
  unfold roundedQuotient
  simp only [fits, fits', Option.bind_eq_bind, Option.bind_some]
  rw [show (mant * 10 ^ ndigits : ℚ) = (mant * 10 ^ ndigits : ℕ) by push_cast; rfl]
  generalize mant * 10 ^ ndigits = num at product
  obtain ⟨shift, rfl⟩ : ∃ shift, k = shift + 1 := ⟨k - 1, by omega⟩
  by_cases deep : 127 ≤ shift + 1
  · exact ⟨0, by rw [if_pos deep]; rfl, by rw [if_pos deep]; rfl⟩
  · have power : (2 : ℚ) ^ (shift + 1) = (2 * 2 ^ shift : ℕ) := by
      push_cast
      ring
    rw [if_neg deep, if_neg deep, Nat.add_sub_cancel, power, nearest_div (by positivity),
      pow_succ']
    have whole : num / (2 * 2 ^ shift) * (2 * 2 ^ shift) ≤ num := Nat.div_mul_le_self ..
    have rest := Nat.mod_add_div' num (2 * 2 ^ shift)
    have most : num / (2 * 2 ^ shift) ≤ num := Nat.div_le_self ..
    rw [Nat.mod_eq_of_lt (by omega), if_pos whole,
      show num - num / (2 * 2 ^ shift) * (2 * 2 ^ shift) = num % (2 * 2 ^ shift) by omega]
    split
    · exact ⟨_, if_pos (by omega), rfl⟩
    · exact ⟨_, rfl, rfl⟩

/-- The failing case: a shift of 127, and more than half a unit that is left of the number. -/
def Double.Overlooked (x : Double) (ndigits : ℕ) : Prop :=
  x.exp = -127 ∧ 2 ^ 126 < x.mant * 10 ^ ndigits

theorem nearest_deep {num k : ℕ} (deep : 127 ≤ k) (small : num < 2 ^ 127)
    : nearest (num / 2 ^ k) = 0 ↔ ¬ (k = 127 ∧ 2 ^ 126 < num) := by
  obtain ⟨shift, rfl⟩ : ∃ shift, k = shift + 1 := ⟨k - 1, by omega⟩
  have power : 2 ^ 127 ≤ 2 ^ (shift + 1) := Nat.pow_le_pow_right two_pos deep
  have twice : (2 : ℚ) ^ (shift + 1) = (2 * 2 ^ shift : ℕ) := by
    push_cast
    ring
  rw [twice, nearest_div (by positivity), ← pow_succ', Nat.mod_eq_of_lt (by omega),
    Nat.div_eq_of_lt (by omega)]
  have larger : 2 ^ shift < num ↔ shift + 1 = 127 ∧ 2 ^ 126 < num := by
    constructor
    · intro more
      have shallow : shift < 127 :=
        (Nat.pow_lt_pow_iff_right (by decide)).mp (more.trans small)
      obtain rfl : shift = 126 := by omega
      exact ⟨rfl, more⟩
    · rintro ⟨exact, more⟩
      rwa [show shift = 126 by omega]
  rw [← larger]
  split <;> simp_all

theorem nearest_signed (negative : Bool) (x : ℚ)
    : nearest ((if negative then -1 else 1) * x) = (if negative then -1 else 1) * nearest x := by
  cases negative
  · simp
  · simp [nearest_neg]

/-- A finite double is rounded, half to even and without an overflow, but where a shift of 127 is
taken to leave nothing. -/
theorem roundDigits_exact_iff {x : Double} {ndigits : ℕ} (finite : x.isFinite = true)
    (few : ndigits ≤ 22)
    : ∃ result, roundDigits x ndigits = some result
      ∧ (result.scaled x ndigits = nearest (x.value * 10 ^ ndigits) ↔ ¬ x.Overlooked ndigits) := by
  unfold roundDigits
  rw [finite, if_neg (Nat.not_lt.mpr few)]
  by_cases zero : x.mant = 0
  · refine ⟨.unchanged, by simp [zero], ?_⟩
    have nothing : nearest 0 = 0 := by exact_mod_cast nearest_intCast 0
    simp [Rounded.scaled, Double.value, Double.Overlooked, zero, nothing]
  by_cases whole : 0 ≤ x.exp
  · refine ⟨.unchanged, by simp [zero, whole], ?_⟩
    have integer : x.value * 10 ^ ndigits
        = ((if x.isNegative then -1 else 1) * (x.mant * 2 ^ x.exp.toNat) * 10 ^ ndigits : ℤ) := by
      have power : (2 : ℚ) ^ x.exp = 2 ^ x.exp.toNat := by
        rw [← zpow_natCast, Int.toNat_of_nonneg whole]
      rw [Double.value, power]
      push_cast
      rfl
    rw [Rounded.scaled, integer, nearest_intCast]
    exact ⟨fun _ overlooked => by rw [overlooked.1] at whole; omega, fun _ => rfl⟩
  · obtain ⟨q, found, rounded⟩ := @roundedQuotient_spec x.mant (-x.exp).toNat ndigits (by omega)
      x.mant_lt few
    have scaled : x.value * 10 ^ ndigits = (if x.isNegative then -1 else 1)
        * (x.mant * 10 ^ ndigits / 2 ^ (-x.exp).toNat) := by
      have power : (2 : ℚ) ^ x.exp = ((2 : ℚ) ^ (-x.exp).toNat)⁻¹ := by
        rw [← zpow_natCast, Int.toNat_of_nonneg (by omega), zpow_neg, inv_inv]
      rw [Double.value, power]
      ring
    refine ⟨if q ≤ 2 ^ 53 then .divided x.isNegative q else .parsed x.isNegative q, ?_, ?_⟩
    · simp [zero, whole, found]
    have same : (if q ≤ 2 ^ 53 then Rounded.divided x.isNegative q
        else .parsed x.isNegative q).scaled x ndigits = (if x.isNegative then -1 else 1) * q := by
      split <;> rfl
    have sign : (if x.isNegative then -1 else 1 : ℚ) ≠ 0 := by split <;> decide
    have integers : (if x.isNegative then -1 else 1 : ℚ) * q
          = ((if x.isNegative then -1 else 1 : ℤ)
            * nearest (x.mant * 10 ^ ndigits / 2 ^ (-x.exp).toNat) : ℤ)
        ↔ (q : ℤ) = nearest (x.mant * 10 ^ ndigits / 2 ^ (-x.exp).toNat) := by
      push_cast
      rw [mul_right_inj' sign]
      norm_cast
    rw [same, scaled, nearest_signed, integers, rounded]
    by_cases deep : 127 ≤ (-x.exp).toNat
    · have product : x.mant * 10 ^ ndigits < 2 ^ 127 := mant_mul_lt x.mant_lt few
      have number : (x.mant * 10 ^ ndigits : ℚ) = (x.mant * 10 ^ ndigits : ℕ) := by
        push_cast
        rfl
      rw [if_pos deep, number, eq_comm, nearest_deep deep product, Double.Overlooked,
        show (-x.exp).toNat = 127 ↔ x.exp = -127 by omega]
    · rw [if_neg deep]
      exact ⟨fun _ overlooked => by rw [overlooked.1] at deep; omega, fun _ => rfl⟩

/-- The greatest double below 2^-74. -/
def belowShift : Double := ⟨0x3b4fffffffffffff⟩

theorem roundDigits_exact_iff_below
    : belowShift.isFinite = true ∧ 22 ≤ 22
      ∧ ∃ result, roundDigits belowShift 22 = some result
        ∧ (result.scaled belowShift 22 = nearest (belowShift.value * 10 ^ 22)
          ↔ ¬ belowShift.Overlooked 22) :=
  ⟨by decide, le_rfl, roundDigits_exact_iff (by decide) le_rfl⟩

/-- It is more than half a unit of the twenty-second digit, and is rounded to nothing. -/
theorem roundDigits_below
    : ∃ result, roundDigits belowShift 22 = some result
      ∧ result.scaled belowShift 22 = 0 ∧ nearest (belowShift.value * 10 ^ 22) = 1 := by
  refine ⟨.divided false 0, by decide +kernel, by simp [Rounded.scaled], ?_⟩
  · have value : belowShift.value = (2 ^ 53 - 1) / 2 ^ 127 := by
      rw [Double.value, show belowShift.isNegative = false by decide,
        show belowShift.mant = 2 ^ 53 - 1 by decide +kernel,
        show belowShift.exp = -127 by decide +kernel]
      norm_num
    rw [value]
    norm_num [nearest]

end MokuroBunko.Layout
