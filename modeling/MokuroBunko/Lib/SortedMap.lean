import Mathlib.Data.List.Dedup
import Mathlib.Data.List.Pairwise
import Mathlib.Data.List.Sort
import Mathlib.Order.Lattice

/-! Sets kept as strictly increasing lists, so that listing them has one order and equality of sets is
equality of lists; and maps kept as lists of entries in the order of their keys.
-/

namespace MokuroBunko.Lib

/-- A set as its elements in increasing order. -/
structure SortedSet (α : Type*) [LinearOrder α] where
  elements : List α
  increasing : elements.Pairwise (· < ·)
deriving DecidableEq

namespace SortedSet

variable {α : Type*} [LinearOrder α]

instance : Membership α (SortedSet α) := ⟨fun set element => element ∈ set.elements⟩

theorem mem_def {set : SortedSet α} {element : α} : element ∈ set ↔ element ∈ set.elements :=
  Iff.rfl

instance (element : α) (set : SortedSet α) : Decidable (element ∈ set) :=
  decidable_of_iff (element ∈ set.elements) Iff.rfl

/-- The set of a list's elements. -/
def ofList (elements : List α) : SortedSet α where
  elements := elements.dedup.insertionSort (· ≤ ·)
  increasing := by
    have sorted := List.pairwise_insertionSort (· ≤ ·) elements.dedup
    have distinct : (elements.dedup.insertionSort (· ≤ ·)).Nodup :=
      (List.perm_insertionSort _ _).nodup_iff.mpr elements.nodup_dedup
    exact (sorted.and distinct).imp fun ⟨le, ne⟩ => lt_of_le_of_ne le ne

@[simp] theorem mem_ofList {element : α} {elements : List α}
    : element ∈ ofList elements ↔ element ∈ elements := by
  simp [mem_def, ofList]

theorem ext_mem {left right : SortedSet α} (same : ∀ element, element ∈ left ↔ element ∈ right)
    : left = right := by
  have perm : left.elements.Perm right.elements :=
    (List.perm_ext_iff_of_nodup (left.increasing.imp ne_of_lt)
      (right.increasing.imp ne_of_lt)).mpr same
  have equal : left.elements = right.elements :=
    perm.eq_of_pairwise (fun _ _ _ _ less greater => absurd less greater.not_gt)
      left.increasing right.increasing
  cases left
  cases right
  simpa using equal

end SortedSet

end MokuroBunko.Lib

namespace MokuroBunko.Lib.SortedMap

variable {κ ν : Type*} [LinearOrder κ]

/-- Set the value of a key, in its place. -/
def insert (key : κ) (value : ν) : List (κ × ν) → List (κ × ν)
  | [] => [(key, value)]
  | (found, old) :: rest =>
      if key < found then (key, value) :: (found, old) :: rest
      else if key = found then (key, value) :: rest
      else (found, old) :: insert key value rest

/-- The keys increase. -/
def Sorted (entries : List (κ × ν)) : Prop := entries.Pairwise (fun left right => left.1 < right.1)

theorem mem_insert {key : κ} {value : ν} {entries : List (κ × ν)} {entry : κ × ν}
    (isIn : entry ∈ insert key value entries)
    : entry = (key, value) ∨ entry ∈ entries := by
  induction entries with
  | nil => exact .inl (List.mem_singleton.mp isIn)
  | cons first rest ih =>
      rw [insert] at isIn
      split at isIn
      · exact List.mem_cons.mp isIn
      split at isIn
      · exact (List.mem_cons.mp isIn).imp id (List.mem_cons_of_mem _)
      · obtain isFirst | isLater := List.mem_cons.mp isIn
        · exact .inr (isFirst ▸ List.mem_cons_self)
        · exact (ih isLater).imp id (List.mem_cons_of_mem _)

theorem Sorted.insert {entries : List (κ × ν)} (sorted : Sorted entries) (key : κ) (value : ν)
    : Sorted (SortedMap.insert key value entries) := by
  induction entries with
  | nil => exact List.pairwise_singleton _ _
  | cons first rest ih =>
      obtain ⟨below, restSorted⟩ := List.pairwise_cons.mp sorted
      rw [SortedMap.insert]
      split
      · rename_i less
        refine List.pairwise_cons.mpr ⟨?_, sorted⟩
        intro entry isIn
        obtain isFirst | isLater := List.mem_cons.mp isIn
        · rw [isFirst]
          exact less
        · exact lt_trans less (below entry isLater)
      rename_i notLess
      split
      · rename_i same
        refine List.pairwise_cons.mpr ⟨?_, restSorted⟩
        intro entry isIn
        rw [same]
        exact below entry isIn
      · rename_i different
        refine List.pairwise_cons.mpr ⟨?_, ih restSorted⟩
        intro entry isIn
        obtain isNew | isOld := mem_insert isIn
        · rw [isNew]
          exact lt_of_le_of_ne (not_lt.mp notLess) (fun same => different same.symm)
        · exact below entry isOld

theorem insert_above {entries : List (κ × ν)} {key : κ} {value : ν}
    (above : ∀ entry ∈ entries, entry.1 < key)
    : insert key value entries = entries ++ [(key, value)] := by
  induction entries with
  | nil => rfl
  | cons first rest ih =>
      have less := above first List.mem_cons_self
      rw [insert, if_neg (not_lt.mpr (le_of_lt less)), if_neg (ne_of_gt less),
        ih (fun entry isIn => above entry (List.mem_cons_of_mem _ isIn)), List.cons_append]

theorem foldl_insert {entries start : List (κ × ν)} (sorted : Sorted (start ++ entries))
    : entries.foldl (fun map entry => insert entry.1 entry.2 map) start = start ++ entries := by
  induction entries generalizing start with
  | nil => exact (List.append_nil start).symm
  | cons first rest ih =>
      have above : ∀ entry ∈ start, entry.1 < first.1 := by
        intro entry isIn
        exact (List.pairwise_append.mp sorted).2.2 entry isIn first List.mem_cons_self
      have regrouped : start ++ first :: rest = (start ++ [first]) ++ rest := by
        rw [List.append_assoc, List.singleton_append]
      rw [List.foldl_cons, insert_above above, regrouped]
      exact ih (regrouped ▸ sorted)

theorem foldl_insert_nil {entries : List (κ × ν)} (sorted : Sorted entries)
    : entries.foldl (fun map entry => insert entry.1 entry.2 map) [] = entries := by
  have same := foldl_insert (List.nil_append entries ▸ sorted)
  rwa [List.nil_append] at same

end MokuroBunko.Lib.SortedMap
