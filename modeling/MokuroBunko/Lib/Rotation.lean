import Mathlib.Data.Prod.Lex
import Mathlib.Order.Lattice

/-! Rounds over a linear order that begin just after a cursor and wrap around to it.
-/

namespace MokuroBunko.Lib

variable {α : Type*} [LinearOrder α]

/-- Which lap of the round an element falls in: what lies past the cursor comes first. -/
def wrapped (cursor : Option α) (element : α) : ℕ :=
  match cursor with
  | none => 0
  | some cursor => if cursor < element then 0 else 1

/-- An element's place in the round that begins after the cursor. -/
def rotated (cursor : Option α) (element : α) : ℕ ×ₗ α := toLex (wrapped cursor element, element)

theorem rotated_lt_iff {cursor first second : α}
    : rotated (some cursor) first < rotated (some cursor) second
      ↔ (cursor < first ∧ first < second) ∨ (first < second ∧ second ≤ cursor)
        ∨ (second ≤ cursor ∧ cursor < first) := by
  simp only [rotated, wrapped, Prod.Lex.toLex_lt_toLex]
  rcases lt_or_ge cursor first with past | wraps
  · rcases lt_or_ge cursor second with otherPast | otherWraps
    · simp [past, otherPast, otherPast.not_ge]
    · simp [past, otherWraps, otherWraps.not_gt]
  · rcases lt_or_ge cursor second with otherPast | otherWraps
    · simp [wraps.not_gt, otherPast, otherPast.not_ge]
    · simp [wraps.not_gt, otherWraps, otherWraps.not_gt]

theorem rotated_lt_cursor {cursor element : α} (other : element ≠ cursor)
    : rotated (some cursor) element < rotated (some cursor) cursor := by
  rcases lt_or_gt_of_ne other with before | past
  · exact rotated_lt_iff.mpr (.inr (.inl ⟨before, le_rfl⟩))
  · exact rotated_lt_iff.mpr (.inr (.inr ⟨le_rfl, past⟩))

theorem rotated_lt_of_advance {cursor : Option α} {next first second : α}
    (leads : rotated cursor next < rotated cursor first)
    (ordered : rotated cursor first < rotated cursor second)
    : rotated (some next) first < rotated (some next) second := by
  rw [rotated_lt_iff]
  cases cursor with
  | none =>
      simp only [rotated, wrapped, Prod.Lex.toLex_lt_toLex, lt_irrefl, true_and, false_or]
        at leads ordered
      exact .inl ⟨leads, ordered⟩
  | some cursor =>
      rw [rotated_lt_iff] at leads ordered
      rcases leads with ⟨_, _⟩ | ⟨_, _⟩ | ⟨_, _⟩ <;>
        rcases ordered with ⟨_, _⟩ | ⟨_, _⟩ | ⟨_, _⟩ <;>
        grind

end MokuroBunko.Lib
