import Mathlib.Algebra.GroupWithZero.Nat
import Mathlib.Data.List.Nodup
import Mathlib.Data.List.Basic
import Mathlib.Data.List.Perm.Basic
import Mathlib.Tactic.SplitIfs

/-! Insertion-ordered maps: lists of entries whose keys are pairwise distinct.
An insertion under a known key keeps the entry's place, a new key goes to the end.
-/

namespace MokuroBunko.Lib

-- Raw entry lists

namespace Entries

variable {κ ν : Type*} [DecidableEq κ]

/-- The value of the first entry filed under `key`. -/
def get? (key : κ) : List (κ × ν) → Option ν
  | [] => none
  | (found, value) :: rest => if found = key then some value else get? key rest

/-- Replace the value filed under `key` in place, or append a new entry. -/
def insert (key : κ) (value : ν) : List (κ × ν) → List (κ × ν)
  | [] => [(key, value)]
  | (found, old) :: rest =>
      if found = key then (found, value) :: rest else (found, old) :: insert key value rest

/-- Drop every entry filed under `key`, keeping the order of the others. -/
def erase (key : κ) (entries : List (κ × ν)) : List (κ × ν) :=
  entries.filter (fun entry => entry.1 ≠ key)

@[simp] theorem get?_nil (key : κ) : get? key ([] : List (κ × ν)) = none := rfl

@[simp] theorem get?_cons (key : κ) (entry : κ × ν) (rest : List (κ × ν))
    : get? key (entry :: rest) = if entry.1 = key then some entry.2 else get? key rest := rfl

@[simp] theorem get?_insert (key asked : κ) (value : ν) (entries : List (κ × ν))
    : get? asked (insert key value entries)
      = if asked = key then some value else get? asked entries := by
  induction entries with
  | nil => simp [insert, eq_comm]
  | cons entry rest ih =>
      by_cases same : entry.1 = key
      · by_cases at_key : asked = key <;> simp_all [insert, eq_comm]
      · by_cases found : entry.1 = asked
        · have other : asked ≠ key := fun h => same (found.trans h)
          simp [insert, found, other]
        · simp [insert, same, found, ih]

@[simp] theorem get?_erase (key asked : κ) (entries : List (κ × ν))
    : get? asked (erase key entries) = if asked = key then none else get? asked entries := by
  induction entries with
  | nil => simp [erase]
  | cons entry rest ih =>
      simp only [erase] at ih
      by_cases same : entry.1 = key
      · by_cases at_key : asked = key <;> simp_all [erase, eq_comm]
      · by_cases found : entry.1 = asked <;> simp_all [erase]

theorem mem_of_get? {key : κ} {value : ν} {entries : List (κ × ν)}
    (found : get? key entries = some value)
    : (key, value) ∈ entries := by
  induction entries with
  | nil => simp at found
  | cons entry rest ih =>
      by_cases same : entry.1 = key
      · have eq : entry.2 = value := by simpa [same] using found
        subst same eq
        simp
      · exact List.mem_cons_of_mem _ (ih (by simpa [same] using found))

theorem get?_of_mem {key : κ} {value : ν} {entries : List (κ × ν)}
    (distinct : (entries.map Prod.fst).Nodup) (member : (key, value) ∈ entries)
    : get? key entries = some value := by
  induction entries with
  | nil => simp at member
  | cons entry rest ih =>
      obtain ⟨absent, restDistinct⟩ := List.nodup_cons.mp distinct
      rcases List.mem_cons.mp member with same | later
      · subst same
        simp
      · have other : entry.1 ≠ key := by
          intro same
          exact absent (List.mem_map.mpr ⟨(key, value), later, same.symm⟩)
        simp [other, ih restDistinct later]

theorem get?_eq_none_iff {key : κ} {entries : List (κ × ν)}
    : get? key entries = none ↔ key ∉ entries.map Prod.fst := by
  induction entries with
  | nil => simp
  | cons entry rest ih =>
      by_cases same : entry.1 = key
      · simp [same]
      · have other : key ≠ entry.1 := fun h => same h.symm
        simp only [get?_cons, same, if_false, ih, List.map_cons, List.mem_cons, other, false_or]

theorem keys_insert (key : κ) (value : ν) (entries : List (κ × ν))
    : (insert key value entries).map Prod.fst
      = if key ∈ entries.map Prod.fst then entries.map Prod.fst
        else entries.map Prod.fst ++ [key] := by
  induction entries with
  | nil => simp [insert]
  | cons entry rest ih =>
      by_cases same : entry.1 = key
      · simp [insert, same]
      · have other : key ≠ entry.1 := fun h => same h.symm
        by_cases inRest : key ∈ rest.map Prod.fst
        · simp only [insert, same, if_false, List.map_cons, ih, inRest, if_true, List.mem_cons,
            or_true]
        · simp only [insert, same, if_false, List.map_cons, ih, inRest, List.mem_cons, other,
            or_self, List.cons_append]

end Entries

-- Maps with distinct keys

/-- A map as its entries in order, no key twice. -/
structure OrderedMap (κ ν : Type*) where
  entries : List (κ × ν)
  keysNodup : (entries.map Prod.fst).Nodup
deriving DecidableEq

namespace OrderedMap

variable {κ ν : Type*} [DecidableEq κ]

/-- The map without entries. -/
def empty : OrderedMap κ ν := ⟨[], List.nodup_nil⟩

instance : Inhabited (OrderedMap κ ν) := ⟨empty⟩

/-- The value filed under `key`. -/
def get? (map : OrderedMap κ ν) (key : κ) : Option ν := Entries.get? key map.entries

/-- Whether some entry is filed under `key`. -/
def contains (map : OrderedMap κ ν) (key : κ) : Bool := (map.get? key).isSome

/-- The keys in order. -/
def keys (map : OrderedMap κ ν) : List κ := map.entries.map Prod.fst

/-- The values in order. -/
def values (map : OrderedMap κ ν) : List ν := map.entries.map Prod.snd

/-- Whether the map has no entry. -/
def isEmpty (map : OrderedMap κ ν) : Bool := map.entries.isEmpty

/-- File `value` under `key`: in place when the key is known, else as the last entry. -/
def insert (map : OrderedMap κ ν) (key : κ) (value : ν) : OrderedMap κ ν where
  entries := Entries.insert key value map.entries
  keysNodup := by
    rw [Entries.keys_insert]
    split_ifs with known
    · exact map.keysNodup
    · exact List.nodup_append.mpr ⟨map.keysNodup, by simp, by
        intro first inOld second inNew same
        obtain rfl := List.mem_singleton.mp inNew
        exact known (same ▸ inOld)⟩

/-- Remove the entry filed under `key`, keeping the order of the others. -/
def erase (map : OrderedMap κ ν) (key : κ) : OrderedMap κ ν where
  entries := Entries.erase key map.entries
  keysNodup := map.keysNodup.sublist (List.filter_sublist.map _)

/-- Keep the entries that satisfy `keep`. -/
def retain (map : OrderedMap κ ν) (keep : κ → ν → Bool) : OrderedMap κ ν where
  entries := map.entries.filter (fun entry => keep entry.1 entry.2)
  keysNodup := map.keysNodup.sublist (List.filter_sublist.map _)

/-- Change the value filed under `key` in place, if there is one. -/
def modify (map : OrderedMap κ ν) (key : κ) (change : ν → ν) : OrderedMap κ ν where
  entries := map.entries.map
    (fun entry => if entry.1 = key then (entry.1, change entry.2) else entry)
  keysNodup := by
    have same : (map.entries.map
        (fun entry => if entry.1 = key then (entry.1, change entry.2) else entry)).map Prod.fst
        = map.entries.map Prod.fst := by
      rw [List.map_map]
      apply List.map_congr_left
      intro entry _
      by_cases at_key : entry.1 = key <;> simp [at_key]
    rw [same]
    exact map.keysNodup

/-- File `value` under `key` as the first entry. -/
def insertFront (map : OrderedMap κ ν) (key : κ) (value : ν) : OrderedMap κ ν where
  entries := (key, value) :: (map.erase key).entries
  keysNodup := by
    refine List.nodup_cons.mpr ⟨?_, (map.erase key).keysNodup⟩
    simp [erase, Entries.erase]

@[simp] theorem get?_empty (key : κ) : (empty : OrderedMap κ ν).get? key = none := rfl

@[simp] theorem get?_insert (map : OrderedMap κ ν) (key asked : κ) (value : ν)
    : (map.insert key value).get? asked = if asked = key then some value else map.get? asked :=
  Entries.get?_insert key asked value map.entries

@[simp] theorem get?_erase (map : OrderedMap κ ν) (key asked : κ)
    : (map.erase key).get? asked = if asked = key then none else map.get? asked :=
  Entries.get?_erase key asked map.entries

theorem mem_entries_iff {map : OrderedMap κ ν} {key : κ} {value : ν}
    : (key, value) ∈ map.entries ↔ map.get? key = some value :=
  ⟨Entries.get?_of_mem map.keysNodup, Entries.mem_of_get?⟩

theorem mem_keys_iff {map : OrderedMap κ ν} {key : κ}
    : key ∈ map.keys ↔ ∃ value, map.get? key = some value := by
  rw [← Option.isSome_iff_exists, Option.isSome_iff_ne_none, ne_eq, get?,
    Entries.get?_eq_none_iff, keys, not_not]

theorem mem_values_iff {map : OrderedMap κ ν} {value : ν}
    : value ∈ map.values ↔ ∃ key, map.get? key = some value := by
  simp [values, ← mem_entries_iff]

theorem values_insert_fresh {map : OrderedMap κ ν} {key : κ} {value : ν}
    (fresh : map.get? key = none)
    : (map.insert key value).values = map.values ++ [value] := by
  have absent := Entries.get?_eq_none_iff.mp fresh
  unfold values insert
  dsimp only
  generalize map.entries = entries at absent
  induction entries with
  | nil => rfl
  | cons entry rest ih =>
      simp only [List.map_cons, List.mem_cons, not_or] at absent
      rw [Entries.insert, if_neg (Ne.symm absent.1), List.map_cons, ih absent.2, List.map_cons,
        List.cons_append]

theorem values_perm_erase {map : OrderedMap κ ν} {key : κ} {value : ν}
    (found : map.get? key = some value)
    : map.values.Perm (value :: (map.erase key).values) := by
  obtain ⟨entries, distinct⟩ := map
  simp only [get?, values, erase] at found ⊢
  induction entries with
  | nil => simp at found
  | cons entry rest ih =>
      obtain ⟨absent, restDistinct⟩ := List.nodup_cons.mp distinct
      by_cases same : entry.1 = key
      · have read : entry.2 = value := by simpa [same] using found
        have kept : Entries.erase key rest = rest := by
          apply List.filter_eq_self.mpr
          intro later member
          have other : later.1 ≠ key := by
            intro eq
            exact absent (List.mem_map.mpr ⟨later, member, eq.trans same.symm⟩)
          simpa using other
        rw [List.map_cons, read, Entries.erase, List.filter_cons_of_neg (by simpa using same)]
        exact .cons _ (.of_eq (congrArg _ kept.symm))
      · have later := ih restDistinct (by simpa [same] using found)
        rw [List.map_cons, Entries.erase, List.filter_cons_of_pos (by simpa using same),
          List.map_cons]
        exact (later.cons _).trans (.swap ..)

theorem length_insert_le (map : OrderedMap κ ν) (key : κ) (value : ν)
    : (map.insert key value).entries.length ≤ map.entries.length + 1 := by
  have keys := congrArg List.length (Entries.keys_insert key value map.entries)
  rw [List.length_map] at keys
  unfold insert
  dsimp only
  rw [keys]
  split_ifs <;> simp

@[simp] theorem get?_retain (map : OrderedMap κ ν) (keep : κ → ν → Bool) (asked : κ)
    : (map.retain keep).get? asked = (map.get? asked).filter (keep asked) := by
  ext value
  rw [← mem_entries_iff]
  simp [retain, Option.filter_eq_some_iff, mem_entries_iff]

@[simp] theorem get?_modify (map : OrderedMap κ ν) (key asked : κ) (change : ν → ν)
    : (map.modify key change).get? asked
      = if asked = key then (map.get? asked).map change else map.get? asked := by
  obtain ⟨entries, distinct⟩ := map
  simp only [get?, modify]
  clear distinct
  induction entries with
  | nil => simp
  | cons entry rest ih =>
      by_cases same : entry.1 = key <;> by_cases found : entry.1 = asked
      · obtain rfl := same
        simp [found]
      · have other : asked ≠ key := fun h => found (same.trans h.symm)
        have unread : ¬ key = asked := fun h => other h.symm
        subst same
        simpa [unread, other] using ih
      · have other : asked ≠ key := fun h => same (found.trans h)
        simp [found, other]
      · simpa [same, found] using ih

@[simp] theorem get?_insertFront (map : OrderedMap κ ν) (key asked : κ) (value : ν)
    : (map.insertFront key value).get? asked
      = if asked = key then some value else map.get? asked := by
  have read := get?_erase map key asked
  simp only [get?, insertFront, Entries.get?_cons] at read ⊢
  by_cases same : asked = key
  · simp [same]
  · have other : ¬ key = asked := fun h => same h.symm
    simp [same, other, read]

theorem entries_erase_insert (map : OrderedMap κ ν) (key : κ) (value : ν)
    : ((map.insert key value).erase key).entries = (map.erase key).entries := by
  obtain ⟨entries, distinct⟩ := map
  simp only [insert, erase]
  clear distinct
  induction entries with
  | nil => simp [Entries.insert, Entries.erase]
  | cons entry rest ih =>
      by_cases same : entry.1 = key
      · simp [Entries.insert, Entries.erase, same]
      · simp only [Entries.erase] at ih ⊢
        rw [Entries.insert, if_neg same]
        simpa [same] using ih

/-- The entries weighed and added up. -/
def weigh (map : OrderedMap κ ν) (weight : κ → ν → ℕ) : ℕ :=
  (map.entries.map (fun entry => weight entry.1 entry.2)).sum

theorem weigh_erase {map : OrderedMap κ ν} {key : κ} {value : ν} (weight : κ → ν → ℕ)
    (found : map.get? key = some value)
    : map.weigh weight = weight key value + (map.erase key).weigh weight := by
  obtain ⟨entries, distinct⟩ := map
  simp only [get?, weigh, erase] at found ⊢
  induction entries with
  | nil => simp at found
  | cons entry rest ih =>
      obtain ⟨absent, restDistinct⟩ := List.nodup_cons.mp distinct
      by_cases same : entry.1 = key
      · have read : entry.2 = value := by simpa [same] using found
        have kept : Entries.erase key rest = rest := by
          apply List.filter_eq_self.mpr
          intro later member
          have other : later.1 ≠ key := by
            intro eq
            exact absent (List.mem_map.mpr ⟨later, member, eq.trans same.symm⟩)
          simpa using other
        rw [Entries.erase, List.filter_cons_of_neg (by simpa using same), List.map_cons,
          List.sum_cons, same, read]
        exact congrArg _ (congrArg _ (congrArg _ kept.symm))
      · have later := ih restDistinct (by simpa [same] using found)
        rw [Entries.erase, List.filter_cons_of_pos (by simpa using same), List.map_cons,
          List.sum_cons, List.map_cons, List.sum_cons, later]
        simp only [Entries.erase]
        omega

theorem weigh_insert (map : OrderedMap κ ν) (weight : κ → ν → ℕ) (key : κ) (value : ν)
    : (map.insert key value).weigh weight
      = weight key value + (map.erase key).weigh weight := by
  have read : (map.insert key value).get? key = some value := by simp
  rw [weigh_erase weight read, weigh, weigh,
    entries_erase_insert]

theorem weigh_le {map other : OrderedMap κ ν} {light heavy : κ → ν → ℕ}
    (covered : ∀ key value, map.get? key = some value
      → light key value = 0 ∨ ∃ kept, other.get? key = some kept
          ∧ light key value ≤ heavy key kept)
    : map.weigh light ≤ other.weigh heavy := by
  obtain ⟨entries, distinct⟩ := map
  unfold weigh
  dsimp only
  induction entries generalizing other with
  | nil => exact Nat.zero_le _
  | cons entry rest ih =>
      obtain ⟨absent, restDistinct⟩ := List.nodup_cons.mp distinct
      have later : ∀ key value, Entries.get? key rest = some value → key ≠ entry.1 := by
        intro key value found same
        exact absent (List.mem_map.mpr ⟨(key, value), Entries.mem_of_get? found, same⟩)
      have read : ∀ key value, Entries.get? key rest = some value
          → get? ⟨entry :: rest, distinct⟩ key = some value := by
        intro key value found
        rw [get?, Entries.get?_cons, if_neg (Ne.symm (later key value found)), found]
      rw [List.map_cons, List.sum_cons]
      rcases covered entry.1 entry.2 (by simp [get?]) with weightless | ⟨kept, found, heavier⟩
      · have others := @ih other restDistinct
          (fun key value inRest => covered key value (read key value inRest))
        omega
      · have others := @ih (other.erase entry.1) restDistinct (by
          intro key value inRest
          rw [get?_erase, if_neg (later key value inRest)]
          exact covered key value (read key value inRest))
        have split := weigh_erase heavy found
        unfold weigh at split
        omega

theorem weigh_erase_eq (map : OrderedMap κ ν) (weight : κ → ν → ℕ) (key : κ)
    : (map.erase key).weigh weight
      = map.weigh (fun other value => if other = key then 0 else weight other value) := by
  apply Nat.le_antisymm
  · apply weigh_le
    intro other value found
    rw [get?_erase] at found
    split_ifs at found with same
    exact .inr ⟨value, found, Nat.le_of_eq (if_neg same).symm⟩
  · apply weigh_le
    intro other value found
    by_cases same : other = key
    · exact .inl (if_pos same)
    · refine .inr ⟨value, ?_, ?_⟩
      · rw [get?_erase, if_neg same, found]
      · exact Nat.le_of_eq (if_neg same)

end OrderedMap

end MokuroBunko.Lib
