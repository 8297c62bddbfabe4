import Mathlib.Data.List.Induction
import Mathlib.Data.List.Lex
import Mathlib.Tactic.IntervalCases
import Mathlib.Tactic.Ring

/-! Decimal numbers of a fixed width, and when texts made of them compare as the numbers do.
-/

namespace MokuroBunko.Lib.Decimal

/-- The digits of a number, with zeros in front up to the width. -/
def padded (width value : ℕ) : List Char := (Nat.toDigits 10 value).leftpad width '0'

/-- The last digits of a number, as many as the width. -/
def fixed : ℕ → ℕ → List Char
  | 0, _ => []
  | width + 1, value => fixed width (value / 10) ++ [(value % 10).digitChar]

@[simp] theorem length_fixed (width value : ℕ) : (fixed width value).length = width := by
  induction width generalizing value with
  | zero => rfl
  | succ width ih => rw [fixed, List.length_append, ih, List.length_singleton]

theorem fixed_zero (width : ℕ) : fixed width 0 = List.replicate width '0' := by
  induction width with
  | zero => rfl
  | succ width ih => rw [fixed, Nat.zero_div, ih, List.replicate_succ']; rfl

theorem padded_eq_fixed {width value : ℕ} (short : (Nat.toDigits 10 value).length ≤ width)
    : padded width value = fixed width value := by
  unfold padded
  induction width generalizing value with
  | zero =>
      exact absurd (List.length_eq_zero_iff.mp (Nat.le_zero.mp short)) Nat.toDigits_ne_nil
  | succ width ih =>
      rw [fixed]
      obtain small | large := Nat.lt_or_ge value 10
      · rw [Nat.div_eq_of_lt small, fixed_zero, Nat.mod_eq_of_lt small,
          Nat.toDigits_of_lt_base small]
        simp [List.leftpad]
      · rw [Nat.toDigits_of_base_le (by omega) large] at short ⊢
        rw [List.length_append, List.length_singleton] at short
        rw [← ih (by omega)]
        simp [List.leftpad]

theorem append_lt_append {left right more others : List Char}
    (length : left.length = right.length) (smaller : left < right)
    : left ++ more < right ++ others := by
  induction left generalizing right with
  | nil =>
      cases right with
      | nil => exact absurd smaller (List.lt_irrefl [])
      | cons _ _ => cases length
  | cons first rest ih =>
      cases right with
      | nil => cases length
      | cons first' rest' =>
          rw [List.cons_append, List.cons_append, List.cons_lt_cons_iff]
          obtain before | ⟨same, later⟩ := List.cons_lt_cons_iff.mp smaller
          · exact .inl before
          · exact .inr ⟨same, ih (Nat.succ.inj length) later⟩

theorem digitChar_lt {first second : ℕ} (smaller : first < second) (digit : second < 10)
    : first.digitChar < second.digitChar := by
  interval_cases second <;> interval_cases first <;> decide

theorem fixed_lt {width first second : ℕ} (smaller : first < second)
    (small : second < 10 ^ width)
    : fixed width first < fixed width second := by
  induction width generalizing first second with
  | zero =>
      rw [Nat.pow_zero] at small
      omega
  | succ width ih =>
      rw [Nat.pow_succ] at small
      rw [fixed, fixed]
      obtain less | same := Nat.lt_or_eq_of_le (Nat.div_le_div_right (c := 10) smaller.le)
      · exact append_lt_append (by simp) (ih less (by omega))
      · rw [same]
        apply List.append_left_lt
        rw [List.cons_lt_cons_iff]
        exact .inl (digitChar_lt (by omega) (by omega))

-- Numbers of any length

/-- Digits without the zeros in front, of which one stays for zero. -/
def stripped (digits : List Char) : List Char :=
  let trimmed := digits.dropWhile (· = '0')
  if trimmed = [] then ['0'] else trimmed

theorem toDigits_ofDigitChars {first : Char} {rest : List Char}
    (digits : ∀ char ∈ first :: rest, char.isDigit) (solid : first ≠ '0')
    : 0 < Nat.ofDigitChars 10 (first :: rest) 0
      ∧ Nat.toDigits 10 (Nat.ofDigitChars 10 (first :: rest) 0) = first :: rest := by
  have value {char : Char} (digit : char.isDigit)
      : char.toNat - '0'.toNat < 10 ∧ (char.toNat - '0'.toNat).digitChar = char := by
    obtain ⟨low, high⟩ := Char.isDigit_iff_toNat.mp digit
    have zero : '0'.toNat = 48 := rfl
    have nine : '9'.toNat = 57 := rfl
    rw [zero] at low ⊢
    rw [nine] at high
    obtain ⟨number, same⟩ : ∃ number, char.toNat = number := ⟨_, rfl⟩
    rw [same] at low high ⊢
    obtain rfl : char = Char.ofNat number := by rw [← same, Char.ofNat_toNat]
    constructor
    · omega
    · interval_cases number <;> decide
  induction rest using List.reverseRecOn with
  | nil =>
      obtain ⟨small, own⟩ := value (digits first List.mem_cons_self)
      simp only [Nat.ofDigitChars_cons, Nat.ofDigitChars_nil, Nat.mul_zero, Nat.zero_add]
      refine ⟨Nat.pos_of_ne_zero fun zero => ?_, ?_⟩
      · rw [zero] at own
        exact solid own.symm
      · rw [Nat.toDigits_of_lt_base small, own]
  | append_singleton front last ih =>
      rw [← List.cons_append, List.forall_mem_append] at digits
      obtain ⟨positive, read⟩ := ih digits.1
      obtain ⟨small, own⟩ := value (digits.2 last List.mem_cons_self)
      rw [← List.cons_append, Nat.ofDigitChars_append, Nat.ofDigitChars_cons,
        Nat.ofDigitChars_nil]
      refine ⟨by omega, ?_⟩
      rw [← Nat.toDigits_append_toDigits (by decide) positive small, read,
        Nat.toDigits_of_lt_base small, own]

theorem stripped_eq_toDigits {digits : List Char} (all : ∀ char ∈ digits, char.isDigit)
    : stripped digits = Nat.toDigits 10 (Nat.ofDigitChars 10 digits 0) := by
  induction digits with
  | nil => rfl
  | cons first rest ih =>
      by_cases zero : first = '0'
      · subst zero
        have shorter : stripped ('0' :: rest) = stripped rest := by simp [stripped]
        rw [shorter, ih fun char isIn => all char (List.mem_cons_of_mem _ isIn)]
        simp [Nat.ofDigitChars_cons]
      · rw [(toDigits_ofDigitChars all zero).2]
        simp [stripped, zero]

theorem toDigits_lt_iff {first second : ℕ}
    : ((Nat.toDigits 10 first).length < (Nat.toDigits 10 second).length
        ∨ (Nat.toDigits 10 first).length = (Nat.toDigits 10 second).length
          ∧ Nat.toDigits 10 first < Nat.toDigits 10 second)
      ↔ first < second := by
  have grows {first second : ℕ} (smaller : first < second)
      : (Nat.toDigits 10 first).length < (Nat.toDigits 10 second).length
        ∨ (Nat.toDigits 10 first).length = (Nat.toDigits 10 second).length
          ∧ Nat.toDigits 10 first < Nat.toDigits 10 second := by
    have small : second < 10 ^ (Nat.toDigits 10 second).length :=
      (Nat.length_toDigits_le_iff (by decide) Nat.length_toDigits_pos).mp le_rfl
    have short : (Nat.toDigits 10 first).length ≤ (Nat.toDigits 10 second).length :=
      (Nat.length_toDigits_le_iff (by decide) Nat.length_toDigits_pos).mpr (smaller.trans small)
    obtain less | same := Nat.lt_or_eq_of_le short
    · exact .inl less
    · refine .inr ⟨same, ?_⟩
      have digits {number : ℕ} (length : (Nat.toDigits 10 number).length
          = (Nat.toDigits 10 second).length)
          : Nat.toDigits 10 number = fixed (Nat.toDigits 10 second).length number := by
        rw [← padded_eq_fixed length.le, padded, ← length, List.leftpad]
        simp
      rw [digits same, digits rfl, length_fixed]
      exact fixed_lt smaller small
  constructor
  · intro before
    by_contra notLess
    obtain same | more := Nat.eq_or_lt_of_le (Nat.not_lt.mp notLess)
    · rw [same] at before
      obtain shorter | ⟨_, earlier⟩ := before
      · omega
      · exact List.lt_irrefl _ earlier
    · obtain longer | ⟨same, later⟩ := grows more
      · omega
      · obtain shorter | ⟨_, earlier⟩ := before
        · omega
        · exact List.lt_irrefl _ (List.lt_trans later earlier)
  · exact grows

theorem toDigits_injective : Function.Injective (Nat.toDigits 10) := by
  intro first second same
  obtain less | rfl | more := lt_trichotomy first second
  · rw [← toDigits_lt_iff, same, toDigits_lt_iff] at less
    exact absurd less (lt_irrefl _)
  · rfl
  · rw [← toDigits_lt_iff, same, toDigits_lt_iff] at more
    exact absurd more (lt_irrefl _)

/-- The number that digits denote in their order. -/
def positional (values : List ℕ) : ℕ := values.foldl (fun number digit => 10 * number + digit) 0

theorem ofNat_eq_digitChar {value : ℕ} (small : value < 10)
    : Char.ofNat (48 + value) = value.digitChar := by
  interval_cases value <;> rfl

theorem ofDigitChars_map {values : List ℕ} (small : ∀ value ∈ values, value < 10) (start : ℕ)
    : Nat.ofDigitChars 10 (values.map fun value => Char.ofNat (48 + value)) start
      = values.foldl (fun number digit => 10 * number + digit) start := by
  induction values generalizing start with
  | nil => rfl
  | cons value rest ih =>
      rw [List.forall_mem_cons] at small
      rw [List.map_cons, ofNat_eq_digitChar small.1,
        Nat.ofDigitChars_cons_digitChar_of_lt_ten small.1, ih small.2, List.foldl_cons]

theorem stripped_map {values : List ℕ} (small : ∀ value ∈ values, value < 10)
    : stripped (values.map fun value => Char.ofNat (48 + value))
      = Nat.toDigits 10 (positional values) := by
  have digits : ∀ char ∈ values.map fun value => Char.ofNat (48 + value), char.isDigit := by
    simp only [List.forall_mem_map]
    intro value isIn
    have bound := small value isIn
    interval_cases value <;> rfl
  rw [stripped_eq_toDigits digits, ofDigitChars_map small, positional]

-- Texts of several numbers

/-- Numbers one after another: each of its width, with a character after it. -/
def cells : List (ℕ × Char) → List ℕ → List Char
  | (width, after) :: formats, value :: values => fixed width value ++ after :: cells formats values
  | _, _ => []

theorem cells_lt {formats : List (ℕ × Char)} {first second : List ℕ}
    (lengths : first.length = second.length)
    (fits : List.Forall₂ (fun format value => value < 10 ^ format.1) formats second)
    (smaller : first < second)
    : cells formats first < cells formats second := by
  induction fits generalizing first with
  | nil =>
      obtain rfl := List.length_eq_zero_iff.mp lengths
      exact absurd smaller (List.lt_irrefl [])
  | @cons format value formats values small _ ih =>
      cases first with
      | nil => cases lengths
      | cons value' values' =>
          obtain ⟨width, after⟩ := format
          rw [cells, cells]
          obtain before | ⟨same, later⟩ := List.cons_lt_cons_iff.mp smaller
          · exact append_lt_append (by simp) (fixed_lt before small)
          · rw [same]
            apply List.append_left_lt
            rw [List.cons_lt_cons_iff]
            exact .inr ⟨rfl, ih (Nat.succ.inj lengths) later⟩

end MokuroBunko.Lib.Decimal
