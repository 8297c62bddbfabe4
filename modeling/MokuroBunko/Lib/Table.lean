import Mathlib.Data.List.Nodup

/-! Tables of a database: rows, no two of which have the same key.
-/

namespace MokuroBunko.Lib

structure Table {ρ κ : Type} (key : ρ → κ) where
  rows : List ρ
  unique : (rows.map key).Nodup

namespace Table

variable {ρ κ : Type} {key : ρ → κ}

def empty : Table key := ⟨[], List.nodup_nil⟩

/-- An `UPDATE`, and how many rows it changed. -/
def update (table : Table key) (which : ρ → Bool) (set : ρ → ρ)
    (keeps : ∀ row, key (set row) = key row := by intro _; rfl)
    : Table key × ℕ :=
  (
    {
      rows := table.rows.map (fun row => if which row then set row else row)
      unique := by
        have same : key ∘ (fun row => if which row then set row else row) = key := by
          funext row
          simp only [Function.comp_apply]
          split
          · exact keeps row
          · rfl
        rw [List.map_map, same]
        exact table.unique
    },
    table.rows.countP which
  )

/-- A `DELETE`, and how many rows it removed. -/
def delete (table : Table key) (which : ρ → Bool) : Table key × ℕ :=
  (
    {
      rows := table.rows.filter (fun row => ¬ which row)
      unique := table.unique.sublist (List.filter_sublist.map key)
    },
    table.rows.countP which
  )

variable [DecidableEq κ]

/-- The row with the key. -/
def find? (table : Table key) (wanted : κ) : Option ρ :=
  table.rows.find? (fun row => key row = wanted)

/-- An `INSERT`, refused if there is a row with the key. -/
def insert (table : Table key) (row : ρ) : Option (Table key) :=
  if fresh : key row ∉ table.rows.map key then
    some
      {
        rows := table.rows ++ [row]
        unique := by
          rw [List.map_append, List.nodup_append]
          refine ⟨table.unique, by simp, ?_⟩
          intro first isFirst second isSecond same
          rw [List.map_singleton, List.mem_singleton] at isSecond
          rw [same, isSecond] at isFirst
          exact fresh isFirst
      }
  else none

theorem insert_eq_some {table after : Table key} {row : ρ} (inserted : table.insert row = some after)
    : key row ∉ table.rows.map key ∧ after.rows = table.rows ++ [row] := by
  unfold insert at inserted
  split at inserted
  · rename_i fresh
    cases inserted
    exact ⟨fresh, rfl⟩
  · contradiction

theorem eq_of_key {table : Table key} {first second : ρ} (isFirst : first ∈ table.rows)
    (isSecond : second ∈ table.rows) (same : key first = key second)
    : first = second :=
  List.inj_on_of_nodup_map table.unique isFirst isSecond same

theorem find?_eq_some_iff {table : Table key} {wanted : κ} {row : ρ}
    : table.find? wanted = some row ↔ row ∈ table.rows ∧ key row = wanted := by
  unfold find?
  constructor
  · intro found
    exact ⟨List.mem_of_find?_eq_some found, by simpa using List.find?_some found⟩
  · intro facts
    obtain ⟨isRow, same⟩ := facts
    cases found : table.rows.find? (fun row => key row = wanted) with
    | none =>
        rw [List.find?_eq_none] at found
        exact absurd same (by simpa using found row isRow)
    | some other =>
        have isOther := List.mem_of_find?_eq_some found
        have key_other : key other = wanted := by simpa using List.find?_some found
        rw [table.eq_of_key isOther isRow (key_other.trans same.symm)]

end Table

end MokuroBunko.Lib
