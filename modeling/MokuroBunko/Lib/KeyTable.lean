import MokuroBunko.Lib.OrderedMap
import Mathlib.Data.List.Pairwise

/-! Tables of keys that several guards hold side by side. Which keys get in each other's way
is a symmetric relation of the user's; the table is a plain list that forgets who holds what.
-/

namespace MokuroBunko.Lib

-- Removing without keeping the order

section SwapRemove

variable {κ : Type*}

/-- `Vec::swap_remove`: the last element takes the removed one's place. -/
def swapRemove (held : List κ) (place : ℕ) : List κ :=
  match held.getLast? with
  | none => held
  | some last => (held.set place last).dropLast

theorem swapRemove_perm {held : List κ} {place : ℕ} (inside : place < held.length)
    : (swapRemove held place).Perm (held.eraseIdx place) := by
  obtain rfl | ⟨init, last, rfl⟩ := held.eq_nil_or_concat'
  · simp at inside
  · simp only [swapRemove, List.getLast?_concat]
    simp only [List.length_append, List.length_cons, List.length_nil] at inside
    obtain earlier | final := Nat.lt_or_eq_of_le (Nat.lt_succ_iff.mp inside)
    · rw [List.set_append_left place last earlier, List.dropLast_concat,
        List.eraseIdx_append_of_lt_length earlier]
      exact (List.set_perm_cons_eraseIdx earlier last).trans
        (List.perm_append_singleton last _).symm
    · subst final
      rw [List.eraseIdx_append_of_length_le (Nat.le_refl _)]
      simp

variable [DecidableEq κ]

/-- Remove one copy of the key, if there is one. -/
def removeOne (held : List κ) (key : κ) : List κ :=
  match held.findIdx? (fun other => other == key) with
  | none => held
  | some place => swapRemove held place

/-- Remove the keys one after another. -/
def removeEach (held keys : List κ) : List κ := keys.foldl removeOne held

theorem removeOne_perm (held : List κ) (key : κ)
    : (removeOne held key).Perm (held.erase key) := by
  unfold removeOne
  rw [List.erase_eq_eraseP', List.eraseP_eq_eraseIdx]
  cases found : held.findIdx? (fun other => other == key) with
  | none => exact .refl _
  | some place =>
      have inside := (List.findIdx?_eq_some_iff_findIdx_eq.mp found).1
      exact swapRemove_perm inside

theorem removeEach_perm {held keys rest : List κ} (balanced : held.Perm (keys ++ rest))
    : (removeEach held keys).Perm rest := by
  induction keys generalizing held with
  | nil => exact balanced
  | cons key keys ih =>
      apply ih
      have erased := (removeOne_perm held key).trans (balanced.erase key)
      simpa only [List.cons_append, List.erase_cons_head] using erased

end SwapRemove

-- Tables and guards

/-- The keys held, and who holds which. -/
structure KeyTable (κ : Type*) where
  held : List κ
  guards : OrderedMap ℕ (List κ)

namespace KeyTable

variable {κ : Type*}

/-- The keys of a guard enter the table. -/
def take (table : KeyTable κ) (guard : ℕ) (keys : List κ) : KeyTable κ where
  held := table.held ++ keys
  guards := table.guards.insert guard keys

/-- The table holds the keys of its guards and no others, and no two of them conflict. -/
structure Exclusive (conflict : κ → κ → Prop) (table : KeyTable κ) : Prop where
  balanced : table.held.Perm table.guards.values.flatten
  apart : table.held.Pairwise (fun first second => ¬ conflict first second)

variable {conflict : κ → κ → Prop} {table : KeyTable κ} {guard other : ℕ} {keys : List κ}

theorem exclusive_empty : Exclusive conflict ⟨[], .empty⟩ := ⟨.refl _, .nil⟩

theorem Exclusive.take (exclusive : table.Exclusive conflict)
    (fresh : table.guards.get? guard = none)
    (clear : ∀ held ∈ table.held, ∀ key ∈ keys, ¬ conflict held key)
    (own : keys.Pairwise (fun first second => ¬ conflict first second))
    : (table.take guard keys).Exclusive conflict where
  balanced := by
    have grown := exclusive.balanced.append_right keys
    simpa only [KeyTable.take, OrderedMap.values_insert_fresh fresh, List.flatten_append,
      List.flatten_singleton] using grown
  apart := List.pairwise_append.mpr ⟨exclusive.apart, own, clear⟩

theorem Exclusive.guards_apart (exclusive : table.Exclusive conflict)
    (symmetric : ∀ {first second}, conflict first second → conflict second first)
    {others : List κ} (differ : guard ≠ other) (found : table.guards.get? guard = some keys)
    (foundOther : table.guards.get? other = some others)
    : ∀ key ∈ keys, ∀ held ∈ others, ¬ conflict key held := by
  have flat := (exclusive.balanced.pairwise_iff
    (fun apart meets => apart (symmetric meets))).mp exclusive.apart
  have lists := (List.pairwise_flatten.mp flat).2
  rw [OrderedMap.values, List.pairwise_map] at lists
  have members : (guard, keys) ≠ (other, others) := fun same => differ (congrArg Prod.fst same)
  have symm : Std.Symm (fun first second : ℕ × List κ =>
      ∀ key ∈ first.2, ∀ held ∈ second.2, ¬ conflict key held) :=
    ⟨fun first second apart key inKeys held inHeld meets =>
      apart held inHeld key inKeys (symmetric meets)⟩
  exact lists.forall (OrderedMap.mem_entries_iff.mpr found)
    (OrderedMap.mem_entries_iff.mpr foundOther) members

variable [DecidableEq κ]

/-- A guard's keys leave the table. -/
def release (table : KeyTable κ) (guard : ℕ) : KeyTable κ where
  held := removeEach table.held ((table.guards.get? guard).getD [])
  guards := table.guards.erase guard

theorem Exclusive.release_held (exclusive : table.Exclusive conflict)
    (found : table.guards.get? guard = some keys)
    : (table.release guard).held.Perm (table.guards.erase guard).values.flatten := by
  apply removeEach_perm
  rw [found]
  have split := exclusive.balanced.trans (OrderedMap.values_perm_erase found).flatten
  simpa only [List.flatten_cons, Option.getD_some] using split

theorem Exclusive.release (exclusive : table.Exclusive conflict)
    (symmetric : ∀ {first second}, conflict first second → conflict second first)
    (found : table.guards.get? guard = some keys)
    : (table.release guard).Exclusive conflict where
  balanced := exclusive.release_held found
  apart := by
    have split := exclusive.balanced.trans (OrderedMap.values_perm_erase found).flatten
    have flat := (split.pairwise_iff
      (fun apart meets => apart (symmetric meets))).mp exclusive.apart
    have rest := (List.pairwise_append.mp flat).2.1
    exact ((exclusive.release_held found).pairwise_iff
      (fun apart meets => apart (symmetric meets))).mpr rest

end KeyTable

end MokuroBunko.Lib
