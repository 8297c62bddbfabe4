import MokuroBunko.Lib.OrderedMap
import Mathlib.Data.List.Forall2
import Mathlib.Data.List.Sort
import Mathlib.Data.Option.Basic

/-! Lists and entry lists of two runs, related element by element: what the usual list
operations and the entry operations preserve.
-/

namespace MokuroBunko.Lib

-- Lists

section Lists

variable {α β γ δ : Type*} {rel : α → β → Prop}

theorem map_eq_of_forall₂ {left : α → γ} {right : β → γ} {xs : List α} {ys : List β}
    (same : ∀ x y, rel x y → left x = right y) (related : List.Forall₂ rel xs ys)
    : xs.map left = ys.map right := by
  induction related with
  | nil => rfl
  | cons head _ ih => simp [same _ _ head, ih]

theorem filterMap_eq_of_forall₂ {left : α → Option γ} {right : β → Option γ} {xs : List α}
    {ys : List β} (same : ∀ x y, rel x y → left x = right y)
    (related : List.Forall₂ rel xs ys)
    : xs.filterMap left = ys.filterMap right := by
  induction related with
  | nil => rfl
  | cons head _ ih => simp [List.filterMap_cons, same _ _ head, ih]

theorem countP_eq_of_forall₂ {left : α → Bool} {right : β → Bool} {xs : List α} {ys : List β}
    (same : ∀ x y, rel x y → left x = right y) (related : List.Forall₂ rel xs ys)
    : xs.countP left = ys.countP right := by
  induction related with
  | nil => rfl
  | cons head _ ih => simp [List.countP_cons, same _ _ head, ih]

theorem forall₂_filterMap {out : γ → δ → Prop} {left : α → Option γ} {right : β → Option δ}
    {xs : List α} {ys : List β}
    (step : ∀ x y, rel x y → Option.Rel out (left x) (right y))
    (related : List.Forall₂ rel xs ys)
    : List.Forall₂ out (xs.filterMap left) (ys.filterMap right) := by
  induction related with
  | nil => exact .nil
  | cons head _ ih =>
      rw [List.filterMap_cons, List.filterMap_cons]
      have stepped := step _ _ head
      revert stepped
      generalize left _ = found
      generalize right _ = other
      intro stepped
      cases stepped with
      | none => exact ih
      | some pair => exact .cons pair ih

theorem foldl_related {state : γ → δ → Prop} {left : γ → α → γ} {right : δ → β → δ}
    (step : ∀ c d x y, state c d → rel x y → state (left c x) (right d y))
    {c : γ} {d : δ} (start : state c d) {xs : List α} {ys : List β}
    (related : List.Forall₂ rel xs ys)
    : state (xs.foldl left c) (ys.foldl right d) := by
  induction related generalizing c d with
  | nil => exact start
  | cons head _ ih => exact ih (step _ _ _ _ start head)

theorem zipIdx_related {xs : List α} {ys : List β} (related : List.Forall₂ rel xs ys)
    (start : ℕ)
    : List.Forall₂ (fun x y => rel x.1 y.1 ∧ x.2 = y.2) (xs.zipIdx start)
        (ys.zipIdx start) := by
  induction related generalizing start with
  | nil => exact .nil
  | cons head _ ih => exact .cons ⟨head, rfl⟩ (ih _)

variable {before : α → α → Prop} [DecidableRel before] {behind : β → β → Prop}
  [DecidableRel behind]

theorem insertionSort_related
    (agree : ∀ x y x' y', rel x y → rel x' y' → (before x x' ↔ behind y y'))
    {xs : List α} {ys : List β} (related : List.Forall₂ rel xs ys)
    : List.Forall₂ rel (xs.insertionSort before) (ys.insertionSort behind) := by
  have inserted : ∀ {x y}, rel x y → ∀ {xs ys}, List.Forall₂ rel xs ys →
      List.Forall₂ rel (xs.orderedInsert before x) (ys.orderedInsert behind y) := by
    intro x y pair xs ys others
    induction others with
    | nil => exact .cons pair .nil
    | @cons x' y' _ _ head tail ih =>
        by_cases first : before x x'
        · have firstToo := (agree _ _ _ _ pair head).mp first
          simpa only [List.orderedInsert, first, firstToo, if_true] using
            List.Forall₂.cons pair (.cons head tail)
        · have later : ¬ behind y y' := fun h => first ((agree _ _ _ _ pair head).mpr h)
          simpa only [List.orderedInsert, first, later, if_false] using
            List.Forall₂.cons head ih
  induction related with
  | nil => exact .nil
  | cons head _ ih => exact inserted head ih

end Lists

-- Entries under renamed keys

namespace Entries

variable {κ ν μ : Type*} [DecidableEq κ] {rename : κ → κ} {rel : ν → μ → Prop}

/-- The right entries are the left ones under renamed keys, with related values. -/
def Renamed (rename : κ → κ) (rel : ν → μ → Prop) (left : List (κ × ν))
    (right : List (κ × μ)) : Prop :=
  List.Forall₂ (fun x y => y.1 = rename x.1 ∧ rel x.2 y.2) left right

theorem Renamed.get? (injective : Function.Injective rename) {left : List (κ × ν)}
    {right : List (κ × μ)} (related : Renamed rename rel left right) (key : κ)
    : Option.Rel rel (Entries.get? key left) (Entries.get? (rename key) right) := by
  induction related with
  | nil => exact .none
  | @cons x y _ _ head _ ih =>
      by_cases found : x.1 = key
      · have foundToo : y.1 = rename key := by rw [head.1, found]
        simpa [found, foundToo] using Option.Rel.some head.2
      · have foundNot : y.1 ≠ rename key := by
          rw [head.1]
          exact fun same => found (injective same)
        simpa [found, foundNot] using ih

theorem Renamed.insert (injective : Function.Injective rename) {left : List (κ × ν)}
    {right : List (κ × μ)} (related : Renamed rename rel left right) (key : κ) {value : ν}
    {other : μ} (pair : rel value other)
    : Renamed rename rel (Entries.insert key value left)
        (Entries.insert (rename key) other right) := by
  induction related with
  | nil => exact .cons ⟨rfl, pair⟩ .nil
  | @cons x y _ _ head tail ih =>
      by_cases found : x.1 = key
      · have foundToo : y.1 = rename key := by rw [head.1, found]
        simp only [Entries.insert, found, foundToo, if_true]
        exact List.Forall₂.cons ⟨rfl, pair⟩ tail
      · have foundNot : y.1 ≠ rename key := by
          rw [head.1]
          exact fun same => found (injective same)
        simp only [Entries.insert, found, foundNot, if_false]
        exact List.Forall₂.cons head ih

end Entries

end MokuroBunko.Lib
