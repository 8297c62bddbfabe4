import MokuroBunko.Lib.OrderedMap
import Mathlib.Data.String.Basic

/-! The limiter of failed logins (`http/limiter.rs`). Times are in nanoseconds.
-/

namespace MokuroBunko.Http

open MokuroBunko.Lib

/-- How many failures within the window block a key, and for how long. -/
structure AuthLimiter where
  maxFailures : ℕ
  window : ℕ
  block : ℕ

/-- What is known of a key. The pending checks are those that were allowed and not yet resolved. -/
structure Entry where
  failures : List ℕ
  blockedUntil : Option ℕ
  pending : List ℕ
  deriving DecidableEq

def Entry.default : Entry := ⟨[], none, []⟩

abbrev LimiterTable := List (String × Entry)

def second : ℕ := 1000000000

/-- Unverified password checks that one key may have in flight at once. -/
def maxPending : ℕ := 4

def pendingTtl : ℕ := 60 * second

def maxKeys : ℕ := 10000

def AuthLimiter.default : AuthLimiter := ⟨10, 300 * second, 900 * second⟩

/-- The times from the first one on that is no older than the age. -/
def dropStale (now age : ℕ) (times : List ℕ) : List ℕ := times.dropWhile (fun time => age < now - time)

/-- Drop expired keys; if still full, drop the least recently active tenth. -/
def evict (table : LimiterTable) (now window : ℕ) : LimiterTable :=
  let kept := table.filter (fun (_, entry) =>
    entry.blockedUntil.any (now < ·) || entry.failures.getLast?.any (now - · ≤ window))
  if kept.length < maxKeys then kept
  else
    let byAge := kept.map (fun (key, entry) =>
      ((entry.failures.getLast?.or entry.blockedUntil).getD now, key))
    let sorted := byAge.mergeSort (fun first second =>
      first.1 < second.1 || (first.1 = second.1 && first.2 ≤ second.2))
    let dropped := (sorted.take (maxKeys / 10)).map Prod.snd
    kept.filter (fun (key, _) => key ∉ dropped)

/-- Whether the key is blocked at the time. -/
def Entry.isBlocked (entry : Entry) (now : ℕ) : Bool := entry.blockedUntil.any (now < ·)

/-- `check` on the entry of its key: allowed and pending from now on, no slot free, or blocked. -/
def Entry.check (limiter : AuthLimiter) (entry : Entry) (now : ℕ) : Except ℕ Bool × Entry :=
  if entry.isBlocked now then
    (.error ((entry.blockedUntil.getD 0 - now) / second + 1), entry)
  else
    let failures := dropStale now limiter.window entry.failures
    let pending := dropStale now pendingTtl entry.pending
    if limiter.maxFailures ≤ failures.length then
      (.error (limiter.block / second), ⟨[], some (now + limiter.block), pending⟩)
    else if maxPending ≤ pending.length then (.ok false, ⟨failures, none, pending⟩)
    else (.ok true, ⟨failures, none, pending ++ [now]⟩)

/-- One turn of `allow_blocking`, or the whole of `allow`. -/
def AuthLimiter.check (limiter : AuthLimiter) (table : LimiterTable) (key : String) (now : ℕ)
    : Except ℕ Bool × LimiterTable :=
  let table :=
    if (Entries.get? key table).isNone ∧ maxKeys ≤ table.length then evict table now limiter.window
    else table
  let (answer, entry) := ((Entries.get? key table).getD .default).check limiter now
  (answer, Entries.insert key entry table)

/-- `allow` never waits: without a free slot it answers one second. -/
def AuthLimiter.allow (limiter : AuthLimiter) (table : LimiterTable) (key : String) (now : ℕ)
    : Except ℕ Unit × LimiterTable :=
  match limiter.check table key now with
  | (.ok true, table) => (.ok (), table)
  | (.ok false, table) => (.error 1, table)
  | (.error retry, table) => (.error retry, table)

def resolve (table : LimiterTable) (key : String) (failed : Bool) (now : ℕ) : LimiterTable :=
  match Entries.get? key table with
  | none => table
  | some entry =>
      let pending := entry.pending.tail
      if failed then Entries.insert key { entry with pending, failures := entry.failures ++ [now] } table
      else if pending.isEmpty then Entries.erase key table
      else Entries.insert key ⟨[], none, pending⟩ table

def recordFailure (table : LimiterTable) (key : String) (now : ℕ) : LimiterTable :=
  resolve table key true now

def recordSuccess (table : LimiterTable) (key : String) (now : ℕ) : LimiterTable :=
  resolve table key false now

-- What the operations do to a key

/-- The key's entry, a new one if it has none. -/
def entryOf (table : LimiterTable) (key : String) : Entry := (Entries.get? key table).getD .default

/-- What a check does to its entry. -/
inductive Checked (limiter : AuthLimiter) (entry : Entry) (now : ℕ) : Except ℕ Bool × Entry → Prop where
  | refuses (retry : ℕ) (blocked : entry.isBlocked now = true) : Checked limiter entry now (.error retry, entry)
  | blocks (retry : ℕ) (unblocked : entry.isBlocked now = false)
    (many : limiter.maxFailures ≤ (dropStale now limiter.window entry.failures).length)
    : Checked limiter entry now
      (.error retry, ⟨[], some (now + limiter.block), dropStale now pendingTtl entry.pending⟩)
  | full (unblocked : entry.isBlocked now = false)
    : Checked limiter entry now
      (
        .ok false,
        ⟨dropStale now limiter.window entry.failures, none, dropStale now pendingTtl entry.pending⟩
      )
  | admits (unblocked : entry.isBlocked now = false)
    (few : (dropStale now limiter.window entry.failures).length < limiter.maxFailures)
    (free : (dropStale now pendingTtl entry.pending).length < maxPending)
    : Checked limiter entry now
      (
        .ok true,
        ⟨dropStale now limiter.window entry.failures, none,
          dropStale now pendingTtl entry.pending ++ [now]⟩
      )

theorem Entry.checked (limiter : AuthLimiter) (entry : Entry) (now : ℕ)
    : Checked limiter entry now (entry.check limiter now) := by
  unfold Entry.check
  split
  · rename_i blocked
    exact .refuses _ blocked
  rename_i notBlocked
  have unblocked := eq_false_of_ne_true notBlocked
  dsimp only
  split
  · rename_i many
    exact .blocks _ unblocked many
  rename_i few
  split
  · exact .full unblocked
  · rename_i free
    exact .admits unblocked (Nat.lt_of_not_le few) (Nat.lt_of_not_le free)

section Table

variable {table : LimiterTable} {key other : String}

theorem check_table (limiter : AuthLimiter) (room : table.length < maxKeys) (key : String) (now : ℕ)
    : limiter.check table key now
      = (
          ((entryOf table key).check limiter now).1,
          Entries.insert key ((entryOf table key).check limiter now).2 table
        ) := by
  have notFull : ¬ ((Entries.get? key table).isNone ∧ maxKeys ≤ table.length) := by
    intro full
    exact absurd full.2 (Nat.not_le.mpr room)
  simp only [AuthLimiter.check, if_neg notFull, entryOf]

@[simp] theorem entryOf_insert (entry : Entry)
    : entryOf (Entries.insert key entry table) other = if other = key then entry else entryOf table other := by
  unfold entryOf
  rw [Entries.get?_insert]
  split <;> rfl

theorem entryOf_resolve_ne (failed : Bool) (now : ℕ) (different : other ≠ key)
    : entryOf (resolve table key failed now) other = entryOf table other := by
  unfold resolve
  split
  · rfl
  dsimp only
  split
  · rw [entryOf_insert, if_neg different]
  split
  · unfold entryOf
    rw [Entries.get?_erase, if_neg different]
  · rw [entryOf_insert, if_neg different]

theorem entryOf_failure (now : ℕ) (pending : (entryOf table key).pending ≠ [])
    : entryOf (resolve table key true now) key
      = {
          entryOf table key with
          pending := (entryOf table key).pending.tail
          failures := (entryOf table key).failures ++ [now]
        } := by
  unfold resolve
  split
  · rename_i absent
    exact absurd (by simp only [entryOf, absent, Option.getD_none, Entry.default]) pending
  · rename_i entry isEntry
    rw [if_pos rfl, entryOf_insert, if_pos rfl]
    simp only [entryOf, isEntry, Option.getD_some]

theorem entryOf_success (now : ℕ)
    : entryOf (resolve table key false now) key = ⟨[], none, (entryOf table key).pending.tail⟩ := by
  unfold resolve
  split
  · rename_i absent
    simp only [entryOf, absent, Option.getD_none, Entry.default, List.tail_nil]
  · rename_i entry isEntry
    simp only [Bool.false_eq_true, if_false]
    split
    · rename_i alone
      simp only [entryOf, Entries.get?_erase, if_true, Option.getD_none, Entry.default, isEntry,
        Option.getD_some, List.isEmpty_iff.mp alone]
    · rw [entryOf_insert, if_pos rfl]
      simp only [entryOf, isEntry, Option.getD_some]

end Table

end MokuroBunko.Http
