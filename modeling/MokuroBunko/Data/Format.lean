import MokuroBunko.Data.Json

/-! Numbers as texts.
-/

namespace MokuroBunko.Data

/-- `round_ties_even`: the nearest whole number, the even one of two. -/
def roundTiesEven (value : ℚ) : ℤ :=
  let low := ⌊value⌋
  let fraction := value - low
  if fraction < 1 / 2 then low
  else if 1 / 2 < fraction then low + 1
  else if low % 2 = 0 then low
  else low + 1

/-- `round_int`: the nearest whole number, saturating. -/
def roundInt (value : ℚ) : ℤ := max i64Min (min i64Max (roundTiesEven value))

theorem roundTiesEven_mono {low high : ℚ} (le : low ≤ high)
    : roundTiesEven low ≤ roundTiesEven high := by
  have floors : ⌊low⌋ ≤ ⌊high⌋ := Int.floor_le_floor le
  unfold roundTiesEven
  dsimp only
  rcases floors.lt_or_eq with less | same
  · split_ifs <;> omega
  · rw [same]
    split_ifs <;> first | omega | linarith

theorem roundInt_mono {low high : ℚ} (le : low ≤ high) : roundInt low ≤ roundInt high :=
  max_le_max_left _ (min_le_min_left _ (roundTiesEven_mono le))

theorem roundInt_nonneg {value : ℚ} (nonneg : 0 ≤ value) : 0 ≤ roundInt value := by
  have low : 0 ≤ ⌊value⌋ := Int.floor_nonneg.mpr nonneg
  refine le_max_of_le_right (le_min (by decide) ?_)
  unfold roundTiesEven
  dsimp only
  split_ifs <;> omega

/-- The digits of a number, padded with zeros to at least `width`. -/
def paddedDigits (width value : ℕ) : String :=
  let digits := toString value
  String.ofList (List.replicate (width - digits.length) '0') ++ digits

/-- `fmt_fixed`: fixed notation, ties to even. -/
def fmtFixed (value : ℚ) (digits : ℕ) : String :=
  let scaled := (roundTiesEven (|value| * 10 ^ digits)).toNat
  let text := paddedDigits (digits + 1) scaled
  let whole := String.ofList (text.toList.take (text.length - digits))
  let fraction := String.ofList (text.toList.drop (text.length - digits))
  (if value < 0 then "-" else "") ++ whole ++ (if digits = 0 then "" else "." ++ fraction)

end MokuroBunko.Data
