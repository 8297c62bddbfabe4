import Mathlib.Data.List.Basic

/-! Programs that take elements and slices of lists: they stop at a place outside the list,
fail, or return a value. What such a program means is the set of values it returns; the rules
here find it from the program's parts, and show that it never stops.
-/

namespace MokuroBunko.Lib

/-- The only way such a program stops. -/
inductive OutOfBounds where
  | outOfBounds
deriving DecidableEq

/-- A program that stops, fails or returns a value. -/
abbrev Sliced (α : Type) := OptionT (Except OutOfBounds) α

namespace Sliced

variable {α β : Type}

def stop : Sliced α := OptionT.mk (.error .outOfBounds)

def fail : Sliced α := OptionT.mk (.ok none)

/-- Go on only if the condition holds. -/
def require (condition : Prop) [Decidable condition] : Sliced Unit :=
  if condition then pure () else fail

/-- The value, if there is one. -/
def ofOption (value : Option α) : Sliced α := OptionT.mk (.ok value)

/-- The element at a place. -/
def pick (list : List α) (place : ℕ) : Sliced α :=
  match list[place]? with
  | some element => pure element
  | none => stop

/-- The elements from a place up to another. -/
def slice (list : List α) (start finish : ℕ) : Sliced (List α) :=
  if start ≤ finish ∧ finish ≤ list.length then pure ((list.take finish).drop start) else stop

/-- The program never stops, and returns exactly the values that are related to it. -/
structure Means (program : Sliced α) (returned : α → Prop) : Prop where
  runs : ∃ result, program.run = .ok result
  returns : ∀ value, program.run = .ok (some value) ↔ returned value

namespace Means

variable {program : Sliced α} {returned : α → Prop}

theorem congr {other : α → Prop} (means : Means program returned)
    (same : ∀ value, returned value ↔ other value)
    : Means program other :=
  ⟨means.runs, fun value => (means.returns value).trans (same value)⟩

theorem pure (value : α) : Means (Pure.pure value) (fun result => result = value) := by
  refine ⟨⟨some value, rfl⟩, fun result => ?_⟩
  rw [OptionT.run_pure]
  constructor
  · rintro ⟨⟩
    rfl
  · rintro rfl
    rfl

theorem ofOption (value : Option α)
    : Means (Sliced.ofOption value) (fun result => value = some result) := by
  refine ⟨⟨value, rfl⟩, fun result => ?_⟩
  constructor
  · rintro ⟨⟩
    rfl
  · rintro rfl
    rfl

theorem require (condition : Prop) [Decidable condition]
    : Means (Sliced.require condition) (fun _ => condition) := by
  unfold Sliced.require
  by_cases holds : condition
  · rw [if_pos holds]
    exact (pure ()).congr (fun _ => ⟨fun _ => holds, fun _ => rfl⟩)
  · rw [if_neg holds]
    refine ⟨⟨none, rfl⟩, fun value => ⟨?_, fun absurdly => absurd absurdly holds⟩⟩
    rintro ⟨⟩

theorem bind {next : α → Sliced β} {after : α → β → Prop} (first : Means program returned)
    (rest : ∀ value, returned value → Means (next value) (after value))
    : Means (program >>= next) (fun result => ∃ value, returned value ∧ after value result) := by
  obtain ⟨outcome, run⟩ := first.runs
  have opened : (program >>= next).run
      = outcome.elim (.ok none) (fun value => (next value).run) := by
    change program = .ok outcome at run
    subst run
    cases outcome with
    | none => rfl
    | some value => rfl
  cases outcome with
  | none =>
      refine ⟨⟨none, opened⟩, fun result => ?_⟩
      rw [opened]
      constructor
      · rintro ⟨⟩
      · rintro ⟨value, isReturned, -⟩
        have again := (first.returns value).mpr isReturned
        rw [run] at again
        cases again
  | some value =>
      have isReturned := (first.returns value).mp run
      have next := rest value isReturned
      refine ⟨?_, fun result => ?_⟩
      · rw [opened]
        exact next.runs
      · rw [opened, Option.elim_some, next.returns]
        constructor
        · intro isAfter
          exact ⟨value, isReturned, isAfter⟩
        · rintro ⟨other, otherReturned, isAfter⟩
          have again := (first.returns other).mpr otherReturned
          rw [run] at again
          cases again
          exact isAfter

theorem require_of_not {condition : Prop} [Decidable condition] (fails : ¬ condition)
    (next : Unit → Sliced β)
    : Means (Sliced.require condition >>= next) (fun _ => False) := by
  have after (_ : Unit) (holds : condition) : Means (next ()) (fun _ => False) :=
    absurd holds fails
  refine ((require condition).bind after).congr (fun _ => ⟨?_, False.elim⟩)
  rintro ⟨-, holds, -⟩
  exact fails holds

theorem pick {list : List α} {place : ℕ} (within : place < list.length)
    : Means (Sliced.pick list place) (fun result => result = list[place]) := by
  unfold Sliced.pick
  rw [List.getElem?_eq_getElem within]
  exact pure _

theorem slice {list : List α} {start finish : ℕ} (ordered : start ≤ finish)
    (within : finish ≤ list.length)
    : Means (Sliced.slice list start finish)
        (fun result => result = (list.take finish).drop start) := by
  unfold Sliced.slice
  rw [if_pos ⟨ordered, within⟩]
  exact pure _

end Means

end Sliced

end MokuroBunko.Lib
