import Mathlib.Data.List.FinRange
import Mathlib.Data.List.Perm.Basic
import Mathlib.Data.List.Perm.Lattice
import Mathlib.Logic.Function.Basic

/-! Lists sorted, split into runs and collected by key, with no element lost or doubled.
-/

namespace MokuroBunko.Lib

variable {α κ : Type}

-- Sorting

/-- A sort by any comparison. Where the comparison is no total order the order it leaves is not
specified, but it keeps the elements.
-/
structure Sorting where
  sortBy : {α : Type} → (α → α → Ordering) → List α → List α
  perm : ∀ {α : Type} (compare : α → α → Ordering) (list : List α), (sortBy compare list).Perm list

/-- The stable sort. -/
instance : Inhabited Sorting where
  default := {
    sortBy := fun compare list => list.mergeSort (fun a b => compare a b != .gt)
    perm := fun _ list => List.mergeSort_perm list _
  }

-- Runs

/-- The last run with the items after it; with no run there is none to extend. -/
def extendLast (items : List α) : List (List α) → List (List α)
  | [] => []
  | [run] => [run ++ items]
  | run :: next :: rest => run :: extendLast items (next :: rest)

@[simp] theorem flatten_extendLast {items : List α} {runs : List (List α)} (some : runs ≠ [])
    : (extendLast items runs).flatten = runs.flatten ++ items := by
  fun_induction extendLast items runs with
  | case1 => contradiction
  | case2 run => simp
  | case3 run next rest ih => simp [ih]

theorem foldl_select_sublist {joins : List α → α → Bool} {list : List α} (taken : List α)
    : ∃ more, list.foldl (fun row item => if joins row item then row ++ [item] else row) taken
        = taken ++ more ∧ more.Sublist list := by
  induction list generalizing taken with
  | nil => exact ⟨[], by simp, List.Sublist.refl _⟩
  | cons item rest ih =>
      rw [List.foldl_cons]
      split
      · obtain ⟨more, same, sub⟩ := ih (taken ++ [item])
        exact ⟨item :: more, by simp [same], sub.cons_cons item⟩
      · obtain ⟨more, same, sub⟩ := ih taken
        exact ⟨more, same, sub.cons item⟩

theorem perm_append_filter_notMem [DecidableEq α] {row list : List α} (nodup : list.Nodup)
    (sub : row.Sublist list)
    : (row ++ list.filter (fun item => ! row.contains item)).Perm list := by
  have chosen : row.Perm (list.filter row.contains) := by
    apply (List.perm_ext_iff_of_nodup (nodup.sublist sub) (nodup.filter _)).mpr
    intro item
    simp only [List.mem_filter, List.contains_eq_mem, decide_eq_true_eq]
    exact ⟨fun member => ⟨sub.mem member, member⟩, fun both => both.2⟩
  exact (chosen.append_right _).trans (List.filter_append_perm _ list)

theorem map_places (list : List α) (f : α → κ)
    : (List.finRange list.length).map (fun place => f list[place]) = list.map f := by
  apply List.ext_getElem
  · simp
  · intro place _ _
    simp

-- Groups by key

/-- The item at the end of the group of its key. -/
def pushAt [DecidableEq κ] (groups : κ → List α) (key : κ) (item : α) : κ → List α :=
  Function.update groups key (groups key ++ [item])

/-- The groups with any item, in the order of the keys. -/
def groupsOf (keys : List κ) (groups : κ → List α) : List (List α) :=
  (keys.map groups).filter (fun group => ! group.isEmpty)

theorem flatten_groupsOf {keys : List κ} {groups : κ → List α}
    : (groupsOf keys groups).flatten = keys.flatMap groups := by
  rw [groupsOf, List.flatten_filter_not_isEmpty, List.flatMap_def]

theorem flatMap_pushAt_of_notMem [DecidableEq κ] {keys : List κ} {groups : κ → List α} {key : κ}
    {item : α} (absent : key ∉ keys)
    : keys.flatMap (pushAt groups key item) = keys.flatMap groups := by
  apply List.flatMap_congr
  intro other member
  have apart : other ≠ key := by
    intro same
    subst same
    exact absent member
  exact Function.update_of_ne apart _ _

theorem flatMap_pushAt [DecidableEq κ] {keys : List κ} {groups : κ → List α} {key : κ} {item : α}
    (nodup : keys.Nodup) (member : key ∈ keys)
    : (keys.flatMap (pushAt groups key item)).Perm (keys.flatMap groups ++ [item]) := by
  obtain ⟨before, after, rfl⟩ := List.append_of_mem member
  have apart := List.nodup_middle.mp nodup
  have absent : key ∉ before ++ after := (List.nodup_cons.mp apart).1
  simp only [List.mem_append, not_or] at absent
  rw [List.flatMap_append, List.flatMap_cons, flatMap_pushAt_of_notMem absent.1,
    flatMap_pushAt_of_notMem absent.2, List.flatMap_append, List.flatMap_cons, pushAt,
    Function.update_self]
  simp only [List.append_assoc]
  have moved : ([item] ++ after.flatMap groups).Perm (after.flatMap groups ++ [item]) :=
    List.perm_append_comm
  exact (moved.append_left _).append_left _

end MokuroBunko.Lib
