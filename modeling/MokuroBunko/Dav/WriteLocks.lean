import MokuroBunko.Lib.KeyTable
import MokuroBunko.Lib.Text
import Mathlib.Data.List.Destutter
import Mathlib.Data.List.Lex
import Mathlib.Data.List.Sort

/-! Path write locks (`write_locks.rs`). A write that finds its path, or an ancestor or
descendant of it, held by another write fails at once. The table is behind a mutex, so an
acquisition and a drop are one step each.
-/

namespace MokuroBunko.Dav

open MokuroBunko.Lib

/-- An absolute path: the names below the root, in order. -/
abbrev OsPath := List String

/-- The components of a path after lower-casing. -/
abbrev Key := List String

/-- `lower` is `to_string_lossy` followed by `to_lowercase`; the root is a component too. -/
def keyOf (lower : String → String) (path : OsPath) : Key := ("/" :: path).map lower

/-- One key starts with the other. -/
def conflicts (first second : Key) : Bool :=
  let shorter := min first.length second.length
  first.take shorter == second.take shorter

/-- `Vec::dedup` of the sorted keys. -/
def keysOf (lower : String → String) (paths : List OsPath) : List Key :=
  ((paths.map (keyOf lower)).insertionSort (· ≤ ·)).destutter (· ≠ ·)

/-- The loop of `try_lock_all` over the keys: it stops at the first that conflicts with a held
key or with one asked for earlier. -/
def blocked (held earlier : List Key) : List Key → Bool
  | [] => false
  | key :: rest =>
      held.any (conflicts · key) || earlier.any (conflicts · key)
        || blocked held (earlier ++ [key]) rest

/-- The table after `try_lock_all`, and the keys of the guard it returns. -/
def tryLockAll (lower : String → String) (held : List Key) (paths : List OsPath)
    : List Key × Option (List Key) :=
  let keys := keysOf lower paths
  if blocked held [] keys then (held, none) else (held ++ keys, some keys)

/-- `Drop for WriteLockGuard`. -/
def dropGuard (held keys : List Key) : List Key := removeEach held keys

-- When two paths conflict

theorem conflicts_iff {first second : Key}
    : conflicts first second = true ↔ first <+: second ∨ second <+: first := by
  simp only [conflicts, beq_iff_eq]
  obtain shorter | shorter := Nat.le_total first.length second.length
  · rw [Nat.min_eq_left shorter, List.take_length]
    constructor
    · intro same
      exact .inl (same ▸ List.take_prefix ..)
    · intro related
      obtain below | above := related
      · exact List.prefix_iff_eq_take.mp below
      · have same := above.eq_of_length_le shorter
        rw [same, List.take_length]
  · rw [Nat.min_eq_right shorter, List.take_length]
    constructor
    · intro same
      exact .inr (same ▸ List.take_prefix ..)
    · intro related
      obtain below | above := related
      · have same := below.eq_of_length_le shorter
        rw [same, List.take_length]
      · exact (List.prefix_iff_eq_take.mp above).symm

theorem conflicts_symm {first second : Key} (meets : conflicts first second = true)
    : conflicts second first = true :=
  conflicts_iff.mpr (conflicts_iff.mp meets).symm

theorem blocked_eq_false {held earlier keys : List Key}
    (clear : blocked held earlier keys = false)
    : (∀ key ∈ keys, ∀ other ∈ held ++ earlier, ¬ conflicts other key)
      ∧ keys.Pairwise (fun first second => ¬ conflicts first second) := by
  induction keys generalizing earlier with
  | nil => exact ⟨nofun, .nil⟩
  | cons key rest ih =>
      simp only [blocked, Bool.or_eq_false_iff, List.any_eq_false] at clear
      obtain ⟨⟨ofHeld, ofEarlier⟩, later⟩ := clear
      obtain ⟨apart, own⟩ := ih later
      constructor
      · intro asked member other present
        rcases List.mem_cons.mp member with same | inRest
        · subst same
          exact (List.mem_append.mp present).elim (ofHeld other) (ofEarlier other)
        · apply apart asked inRest other
          rw [← List.append_assoc]
          exact List.mem_append_left _ present
      · refine List.pairwise_cons.mpr ⟨?_, own⟩
        intro asked inRest
        exact apart asked inRest key (by simp)

theorem blocked_of_clear {held earlier keys : List Key}
    (apart : ∀ key ∈ keys, ∀ other ∈ held ++ earlier, ¬ conflicts other key)
    (own : keys.Pairwise (fun first second => ¬ conflicts first second))
    : blocked held earlier keys = false := by
  induction keys generalizing earlier with
  | nil => rfl
  | cons key rest ih =>
      obtain ⟨fromKey, restOwn⟩ := List.pairwise_cons.mp own
      simp only [blocked, Bool.or_eq_false_iff, List.any_eq_false]
      refine ⟨⟨?_, ?_⟩, ?_⟩
      · intro other present
        exact apart key (by simp) other (by simp [present])
      · intro other present
        exact apart key (by simp) other (by simp [present])
      · apply ih _ restOwn
        intro asked inRest other present
        rw [← List.append_assoc] at present
        rcases List.mem_append.mp present with old | new
        · exact apart asked (by simp [inRest]) other old
        · obtain rfl := List.mem_singleton.mp new
          exact fromKey asked inRest

-- The keys asked for

theorem mem_destutter' {asked : Key} (first : Key) (keys : List Key)
    : asked ∈ keys.destutter' (· ≠ ·) first ↔ asked = first ∨ asked ∈ keys := by
  induction keys generalizing first with
  | nil => simp
  | cons key rest ih =>
      by_cases same : first = key
      · rw [List.destutter'_cons_neg rest (by simpa using same), ih]
        simp [same]
      · rw [List.destutter'_cons_pos rest same, List.mem_cons, ih, List.mem_cons]

theorem mem_keysOf {lower : String → String} {paths : List OsPath} {key : Key}
    : key ∈ keysOf lower paths ↔ ∃ path ∈ paths, keyOf lower path = key := by
  have kept : ∀ keys : List Key, key ∈ keys.destutter (· ≠ ·) ↔ key ∈ keys := by
    intro keys
    cases keys with
    | nil => rfl
    | cons first rest => rw [List.destutter_cons', mem_destutter', List.mem_cons]
  rw [keysOf, kept, List.mem_insertionSort, List.mem_map]

theorem increasing_of_sorted {keys : List Key} (sorted : keys.IsChain (· ≤ ·))
    (apart : keys.IsChain (· ≠ ·))
    : keys.IsChain (· < ·) := by
  induction keys with
  | nil => exact .nil
  | cons first rest ih =>
      cases rest with
      | nil => exact .singleton first
      | cons second rest =>
          obtain ⟨below, restSorted⟩ := List.isChain_cons_cons.mp sorted
          obtain ⟨differ, restApart⟩ := List.isChain_cons_cons.mp apart
          exact List.isChain_cons_cons.mpr
            ⟨lt_of_le_of_ne below differ, ih restSorted restApart⟩

theorem keysOf_nodup (lower : String → String) (paths : List OsPath)
    : (keysOf lower paths).Nodup := by
  have sorted := List.pairwise_insertionSort (· ≤ ·) (paths.map (keyOf lower))
  have thinned := sorted.sublist (List.destutter_sublist (· ≠ ·) _)
  have apart := List.isChain_destutter (· ≠ ·) ((paths.map (keyOf lower)).insertionSort (· ≤ ·))
  exact (increasing_of_sorted thinned.isChain apart).sortedLT.nodup

theorem tryLockAll_isSome_iff {lower : String → String} {held : List Key} {paths : List OsPath}
    : (tryLockAll lower held paths).2.isSome
      ↔ (∀ key ∈ keysOf lower paths, ∀ other ∈ held, ¬ conflicts other key)
        ∧ ∀ key ∈ keysOf lower paths, ∀ other ∈ keysOf lower paths,
            key ≠ other → ¬ conflicts key other := by
  have symm : Std.Symm (fun first second : Key => ¬ conflicts first second) :=
    ⟨fun _ _ apart meets => apart (conflicts_symm meets)⟩
  unfold tryLockAll
  dsimp only
  constructor
  · intro given
    split at given
    case isTrue => cases given
    case isFalse clear =>
      obtain ⟨apart, own⟩ := blocked_eq_false (Bool.eq_false_of_not_eq_true clear)
      exact ⟨fun key member other present => apart key member other (by simpa using present),
        fun key member other present differ => own.forall member present differ⟩
  · intro clear
    obtain ⟨apart, own⟩ := clear
    have pairwise := (keysOf_nodup lower paths).pairwise_of_forall_ne own
    rw [if_neg]
    · rfl
    · rw [blocked_of_clear (by simpa using apart) pairwise]
      exact Bool.false_ne_true

-- Runs

/-- The table after a request asked for the paths: `guard` names the guard it may get. -/
def tried (lower : String → String) (table : KeyTable Key) (guard : ℕ) (paths : List OsPath)
    : KeyTable Key :=
  match tryLockAll lower table.held paths with
  | (held, none) => { table with held }
  | (held, some keys) => { held, guards := table.guards.insert guard keys }

/-- The table after a guard was dropped. -/
def dropped (table : KeyTable Key) (guard : ℕ) : KeyTable Key :=
  match table.guards.get? guard with
  | none => table
  | some keys => { held := dropGuard table.held keys, guards := table.guards.erase guard }

theorem guards_tried_of_ne {lower : String → String} {table : KeyTable Key} {guard other : ℕ}
    {paths : List OsPath} (differ : other ≠ guard)
    : (tried lower table guard paths).guards.get? other = table.guards.get? other := by
  unfold tried
  split
  · rfl
  · rw [OrderedMap.get?_insert, if_neg differ]

theorem mem_guards_tried {lower : String → String} {table : KeyTable Key} {guard : ℕ}
    {paths : List OsPath} {keys : List Key} (fresh : table.guards.get? guard = none)
    (given : (tried lower table guard paths).guards.get? guard = some keys)
    : ∀ path ∈ paths, keyOf lower path ∈ keys := by
  intro path asked
  unfold tried tryLockAll at given
  dsimp only at given
  split at given
  case _ held found =>
    rw [fresh] at given
    cases given
  case _ held others found =>
    rw [OrderedMap.get?_insert, if_pos rfl] at given
    obtain rfl := Option.some.inj given
    split at found
    case isTrue => cases (Prod.mk.inj found).2
    case isFalse =>
      obtain rfl := Option.some.inj (Prod.mk.inj found).2
      exact mem_keysOf.mpr ⟨path, asked, rfl⟩

theorem guards_dropped {table : KeyTable Key} {guard other : ℕ}
    : (dropped table guard).guards.get? other
      = if other = guard then none else table.guards.get? other := by
  unfold dropped
  split
  case h_1 absent =>
    split
    case isTrue same => rw [same, absent]
    case isFalse => rfl
  case h_2 => rw [OrderedMap.get?_erase]

/-- Any number of requests asking for locks and dropping their guards, in any order. -/
inductive LocksReachable (lower : String → String) : KeyTable Key → Prop
  | start : LocksReachable lower ⟨[], .empty⟩
  | acquire {table} (before : LocksReachable lower table) (guard : ℕ) (paths : List OsPath)
    (fresh : table.guards.get? guard = none)
    : LocksReachable lower (tried lower table guard paths)
  | drop {table} (before : LocksReachable lower table) (guard : ℕ)
    : LocksReachable lower (dropped table guard)

/-- The locks' conflict relation, as the table's. -/
abbrev Exclusive (table : KeyTable Key) : Prop :=
  table.Exclusive (fun first second => conflicts first second = true)

theorem Exclusive.tried {lower : String → String} {table : KeyTable Key} {guard : ℕ}
    (exclusive : Exclusive table) (paths : List OsPath)
    (fresh : table.guards.get? guard = none)
    : Exclusive (tried lower table guard paths) := by
  unfold Dav.tried tryLockAll
  dsimp only
  split
  case _ held found =>
    split at found
    · obtain rfl := (Prod.mk.inj found).1
      exact exclusive
    · cases (Prod.mk.inj found).2
  case _ held keys found =>
    split at found
    case isTrue => cases (Prod.mk.inj found).2
    case isFalse clear =>
      obtain ⟨rfl, given⟩ := Prod.mk.inj found
      obtain rfl := Option.some.inj given
      obtain ⟨apart, own⟩ := blocked_eq_false (Bool.eq_false_of_not_eq_true clear)
      exact exclusive.take fresh
        (fun other present key member => apart key member other (by simpa using present)) own

theorem Exclusive.dropped {table : KeyTable Key} (exclusive : Exclusive table) (guard : ℕ)
    : Exclusive (dropped table guard) := by
  unfold Dav.dropped
  cases found : table.guards.get? guard with
  | none => exact exclusive
  | some keys =>
      have left := exclusive.release conflicts_symm found
      unfold KeyTable.release at left
      rw [found] at left
      exact left

theorem LocksReachable.exclusive {lower : String → String} {table : KeyTable Key}
    (reachable : LocksReachable lower table)
    : Exclusive table := by
  induction reachable with
  | start => exact KeyTable.exclusive_empty
  | acquire _ guard paths fresh ih => exact ih.tried paths fresh
  | drop _ guard ih => exact ih.dropped guard

theorem Exclusive.perm_dropGuard {table : KeyTable Key} (exclusive : Exclusive table)
    {guard : ℕ} {keys : List Key} (found : table.guards.get? guard = some keys)
    : table.held.Perm (keys ++ dropGuard table.held keys) := by
  have split := exclusive.balanced.trans (OrderedMap.values_perm_erase found).flatten
  rw [List.flatten_cons] at split
  exact split.trans ((removeEach_perm split).symm.append_left keys)

/-- The keys of different guards are never equal or one below the other; a refused request
leaves the table alone; a guard has exactly the keys asked for, conflicting with nothing held
nor with each other; and dropping it takes out exactly these. -/
theorem path_locks_exclude (lower : String → String) {table : KeyTable Key}
    (reachable : LocksReachable lower table)
    : (∀ guard other keys others, guard ≠ other
        → table.guards.get? guard = some keys → table.guards.get? other = some others
        → ∀ key ∈ keys, ∀ held ∈ others, ¬ key <+: held ∧ ¬ held <+: key)
      ∧ (∀ guard paths, (tryLockAll lower table.held paths).2 = none
        → tried lower table guard paths = table)
      ∧ (∀ paths keys, (tryLockAll lower table.held paths).2 = some keys
        → (tryLockAll lower table.held paths).1 = table.held ++ keys
          ∧ (∀ key, key ∈ keys ↔ ∃ path ∈ paths, keyOf lower path = key)
          ∧ ∀ key ∈ keys, ∀ other ∈ table.held ++ keys, key ≠ other
            → ¬ key <+: other ∧ ¬ other <+: key)
      ∧ ∀ guard keys, table.guards.get? guard = some keys
        → table.held.Perm (keys ++ (dropped table guard).held)
          ∧ (∀ key, key ∈ (dropped table guard).held ↔ key ∈ table.held ∧ key ∉ keys)
          ∧ (dropped table guard).guards = table.guards.erase guard := by
  have exclusive := reachable.exclusive
  have unrelated : ∀ {first second : Key}, ¬ conflicts first second
      → ¬ first <+: second ∧ ¬ second <+: first := by
    intro first second apart
    exact not_or.mp (fun related => apart (conflicts_iff.mpr related))
  refine ⟨?_, ?_, ?_, ?_⟩
  · intro guard other keys others differ found foundOther key member held present
    exact unrelated
      (exclusive.guards_apart conflicts_symm differ found foundOther key member held present)
  · intro guard paths refused
    unfold tried
    unfold tryLockAll at refused ⊢
    dsimp only at refused ⊢
    split at refused
    case isTrue stopped => rw [if_pos stopped]
    case isFalse => cases refused
  · intro paths keys given
    have clear := tryLockAll_isSome_iff.mp (Option.isSome_iff_exists.mpr ⟨keys, given⟩)
    unfold tryLockAll at given ⊢
    dsimp only at given ⊢
    split at given
    case isTrue => cases given
    case isFalse free =>
      obtain rfl := Option.some.inj given
      rw [if_neg free]
      refine ⟨rfl, fun key => mem_keysOf, ?_⟩
      intro key member other present differ
      rcases List.mem_append.mp present with held | asked
      · exact (unrelated (clear.1 key member other held)).symm
      · exact unrelated (clear.2 key member other asked differ)
  · intro guard keys found
    have apart := exclusive.perm_dropGuard found
    unfold dropped
    rw [found]
    refine ⟨apart, ?_, rfl⟩
    intro key
    have nodup : (keys ++ dropGuard table.held keys).Nodup := by
      have distinct := (apart.pairwise_iff
        (fun apart meets => apart (conflicts_symm meets))).mp exclusive.apart
      apply distinct.imp
      intro first second differ same
      exact differ (conflicts_iff.mpr (.inl (same ▸ List.prefix_rfl)))
    rw [apart.mem_iff, List.mem_append]
    constructor
    · intro left
      exact ⟨.inr left, fun taken => (List.nodup_append.mp nodup).2.2 key taken key left rfl⟩
    · intro held
      exact held.1.resolve_left held.2

/-- `a` held by one write, `ab` asked for in two spellings by another. -/
def twoWriters : KeyTable Key :=
  tried Text.asciiLower (tried Text.asciiLower ⟨[], .empty⟩ 0 [["a"]]) 1 [["AB"], ["ab"]]

theorem path_locks_exclude_two
    : twoWriters.guards.get? 0 = some [["/", "a"]]
      ∧ twoWriters.guards.get? 1 = some [["/", "ab"]]
      ∧ ¬ ["/", "a"] <+: ["/", "ab"]
      ∧ twoWriters.held.Perm ([["/", "ab"]] ++ (dropped twoWriters 1).held) := by
  have first : twoWriters.guards.get? 0 = some [["/", "a"]] := by decide +kernel
  have second : twoWriters.guards.get? 1 = some [["/", "ab"]] := by decide +kernel
  have reachable : LocksReachable Text.asciiLower twoWriters :=
    .acquire (.acquire .start 0 _ rfl) 1 _ (by decide +kernel)
  have facts := path_locks_exclude Text.asciiLower reachable
  exact ⟨first, second,
    (facts.1 0 1 _ _ (by decide) first second _ (by simp) _ (by simp)).1,
    (facts.2.2.2 1 _ second).1⟩

end MokuroBunko.Dav
