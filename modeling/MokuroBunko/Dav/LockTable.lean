import MokuroBunko.Lib.OrderedMap
import MokuroBunko.Lib.Text
import Mathlib.Data.List.Destutter
import Mathlib.Data.List.Sort

/-! The WebDAV lock table (`locks.rs`). Every operation runs under the table's mutex, reads
the clock for itself and, most of them, first drops the locks that have expired.
-/

namespace MokuroBunko.Dav

open MokuroBunko.Lib

/-- A reading of the clock, in nanoseconds. -/
abbrev Instant := ℕ

/-- `MAX_LOCKS`. -/
def maxLocks : ℕ := 10_000

inductive Scope where
  | exclusive
  | shared
deriving DecidableEq, Repr

structure Lock where
  token : String
  key : String
  rootHref : String
  scope : Scope
  infiniteDepth : Bool
  ownerXml : String
  /-- Seconds, or negative for infinite. -/
  timeout : ℤ
  expires : Option Instant
  principal : String
deriving DecidableEq, Repr

inductive AcquireError where
  | conflict (hrefs : List String)
  | tooMany
deriving DecidableEq, Repr

def Lock.expired (lock : Lock) (now : Instant) : Bool := lock.expires.any (· ≤ now)

/-- The `expires` field of a lock taken or refreshed at `now`. -/
def expiry (timeout : ℤ) (now : Instant) : Option Instant :=
  if 0 ≤ timeout then some (now + timeout.toNat * 1_000_000_000) else none

/-- Whether the key `child` lies below the key `parent`. -/
def isChild (parent child : String) : Bool :=
  if parent = "/" then child ≠ "/"
  else match parent.toList.isPrefixOf? child.toList with
    | some (next :: _) => next == '/' || next == '\x00'
    | _ => false

/-- `sort` then `dedup`. -/
def sortedHrefs (hrefs : List String) : List String :=
  (hrefs.insertionSort (· ≤ ·)).destutter (· ≠ ·)

structure LockManager where
  locks : OrderedMap String Lock

namespace LockManager

variable (manager : LockManager)

def purge (now : Instant) : LockManager where
  locks := manager.locks.retain (fun _ lock => !lock.expired now)

/-- Locks set directly on `key`. -/
def locksOn (now : Instant) (key : String) : LockManager × List Lock :=
  let map := manager.purge now
  let found := map.locks.values.filter (·.key == key)
  (map, found.insertionSort (fun first second => first.token ≤ second.token))

def indirectTokens (now : Instant) (key principal : String) : LockManager × List String :=
  let map := manager.purge now
  let held := map.locks.values.filter (fun lock =>
    lock.principal == principal
      && (lock.key == key || (lock.infiniteDepth && isChild lock.key key)))
  (map, held.map Lock.token)

/-- Whether `check_write` leaves the lock out of its conflicts. -/
def passes (key : String) (infinite : Bool) (tokens : List String) (principal : String)
    (lock : Lock) : Bool :=
  let direct := lock.key == key
  let viaParent := lock.infiniteDepth && isChild lock.key key
  let below := infinite && isChild key lock.key
  if !(direct || viaParent || below) then true
  else (direct || viaParent) && lock.principal == principal && tokens.contains lock.token

def checkWrite (now : Instant) (key : String) (infinite : Bool) (tokens : List String)
    (principal : String) : LockManager × Except (List String) Unit :=
  let map := manager.purge now
  let conflicts := (map.locks.values.filter
    (fun lock => !passes key infinite tokens principal lock)).map Lock.rootHref
  (map, if conflicts.isEmpty then .ok () else .error (sortedHrefs conflicts))

/-- Whether a lock of the asked scope and depth on `key` conflicts with the held one. -/
def clashes (key : String) (scope : Scope) (infiniteDepth : Bool) (lock : Lock) : Bool :=
  let direct := lock.key == key
  let viaParent := lock.infiniteDepth && isChild lock.key key
  let below := infiniteDepth && isChild key lock.key
  if direct || viaParent then !(lock.scope == .shared && scope == .shared) else below

/-- `drawn` is the random token, `later` the clock when the lock is made. -/
def acquire (now later : Instant) (drawn key rootHref : String) (scope : Scope)
    (infiniteDepth : Bool) (ownerXml : String) (timeout : ℤ) (principal : String)
    : LockManager × Except AcquireError Lock :=
  let map := manager.purge now
  if maxLocks ≤ map.locks.entries.length then (map, .error .tooMany)
  else
    let conflicts := (map.locks.values.filter (clashes key scope infiniteDepth)).map
      Lock.rootHref
    if !conflicts.isEmpty then (map, .error (.conflict (sortedHrefs conflicts)))
    else
      let lock : Lock := {
        token := drawn
        key
        rootHref
        scope
        infiniteDepth
        ownerXml
        timeout
        expires := expiry timeout later
        principal
      }
      ({ locks := map.locks.insert drawn lock }, .ok lock)

def refresh (now later : Instant) (token : String) (timeout : ℤ)
    : LockManager × Option Lock :=
  let map := manager.purge now
  let locks := map.locks.modify token
    (fun lock => { lock with timeout, expires := expiry timeout later })
  ({ locks }, locks.get? token)

def get (now : Instant) (token : String) : LockManager × Option Lock :=
  let map := manager.purge now
  (map, map.locks.get? token)

def isLockedByToken (now : Instant) (key token : String) : LockManager × Bool :=
  let (map, found) := manager.get now token
  (map, found.any (fun lock => lock.key == key || isChild lock.key key))

def release (token : String) : LockManager where
  locks := manager.locks.erase token

/-- Forget every lock on `key` and below. -/
def removeTree (key : String) : LockManager where
  locks := manager.locks.retain (fun _ lock => !(lock.key == key || isChild key lock.key))

end LockManager

-- What a lock covers

/-- The key `child` continues the key `parent` past a segment's end; everything but the
root is below the root. -/
def Below (parent child : String) : Prop :=
  (parent = "/" ∧ child ≠ "/")
    ∨ (parent ≠ "/" ∧ ∃ rest, child.toList = parent.toList ++ '/' :: rest
      ∨ child.toList = parent.toList ++ '\x00' :: rest)

theorem isChild_iff {parent child : String}
    : isChild parent child = true ↔ Below parent child := by
  have reads : ∀ rest, parent.toList.isPrefixOf? child.toList = some rest
      ↔ parent.toList ++ rest = child.toList := by
    intro rest
    exact List.isPrefixOf?_eq_some_iff_append_eq
  unfold isChild Below
  by_cases root : parent = "/"
  · simp [root]
  · simp only [root, false_and, ne_eq, not_false_eq_true, true_and, false_or, if_false]
    constructor
    · intro child
      split at child
      case h_1 next rest found =>
        have whole := (reads _).mp found
        simp only [Bool.or_eq_true, beq_iff_eq] at child
        obtain rfl | rfl := child
        · exact ⟨rest, .inl whole.symm⟩
        · exact ⟨rest, .inr whole.symm⟩
      case h_2 => cases child
    · intro continued
      obtain ⟨rest, slash | nul⟩ := continued
      · rw [(reads _).mpr slash.symm]
        rfl
      · rw [(reads _).mpr nul.symm]
        rfl

/-- Whether the lock covers the key: it is set there, or on an ancestor to infinite depth. -/
def Lock.Covers (lock : Lock) (key : String) : Prop :=
  lock.key = key ∨ (lock.infiniteDepth = true ∧ Below lock.key key)

/-- Two locks overlap when one of them covers the key of the other. -/
def Lock.Overlaps (first second : Lock) : Prop :=
  first.Covers second.key ∨ second.Covers first.key

theorem Lock.covers_iff {lock : Lock} {key : String}
    : lock.Covers key
      ↔ (lock.key == key || (lock.infiniteDepth && isChild lock.key key)) = true := by
  simp [Lock.Covers, isChild_iff]

namespace LockManager

variable {manager : LockManager}

theorem shared_of_not_clashes {key : String} {scope : Scope} {infiniteDepth : Bool}
    {held asked : Lock} (clear : clashes key scope infiniteDepth held = false)
    (sameKey : asked.key = key) (sameScope : asked.scope = scope)
    (sameDepth : asked.infiniteDepth = infiniteDepth) (overlap : held.Overlaps asked)
    : held.scope = .shared ∧ asked.scope = .shared := by
  subst sameKey sameScope sameDepth
  unfold clashes at clear
  dsimp only at clear
  rw [Lock.Overlaps, Lock.covers_iff, Lock.covers_iff] at overlap
  split at clear
  case isTrue => simpa using clear
  case isFalse apart =>
    obtain covered | covers := overlap
    · exact absurd covered apart
    · rw [clear, Bool.or_false, beq_iff_eq] at covers
      simp [covers] at apart

/-- What holds of the table between operations. -/
structure Sound (manager : LockManager) : Prop where
  filed : ∀ token lock, manager.locks.get? token = some lock → lock.token = token
  compatible
    : ∀ token other lock second, token ≠ other
        → manager.locks.get? token = some lock → manager.locks.get? other = some second
        → lock.Overlaps second → lock.scope = .shared ∧ second.scope = .shared
  bounded : manager.locks.entries.length ≤ maxLocks

theorem Sound.of_sublist (sound : manager.Sound) {later : LockManager}
    (among : ∀ token lock, later.locks.get? token = some lock
      → manager.locks.get? token = some lock)
    (fewer : later.locks.entries.length ≤ manager.locks.entries.length)
    : later.Sound where
  filed token lock found := sound.filed token lock (among token lock found)
  compatible token other lock second differ found foundOther :=
    sound.compatible token other lock second differ (among _ _ found) (among _ _ foundOther)
  bounded := fewer.trans sound.bounded

theorem Sound.retain (sound : manager.Sound) (keep : String → Lock → Bool)
    : Sound ⟨manager.locks.retain keep⟩ := by
  apply sound.of_sublist
  · intro token lock found
    rw [OrderedMap.get?_retain, Option.filter_eq_some_iff] at found
    exact found.1
  · exact List.length_filter_le ..

theorem Sound.purge (sound : manager.Sound) (now : Instant) : (manager.purge now).Sound :=
  sound.retain _

theorem get?_purge {now : Instant} {token : String} {lock : Lock}
    : (manager.purge now).locks.get? token = some lock
      ↔ manager.locks.get? token = some lock ∧ lock.expired now = false := by
  simp [LockManager.purge, Option.filter_eq_some_iff]

theorem Sound.release (sound : manager.Sound) (token : String) : (manager.release token).Sound := by
  apply sound.of_sublist
  · intro other lock found
    unfold LockManager.release at found
    rw [OrderedMap.get?_erase] at found
    split at found
    · cases found
    · exact found
  · exact List.length_filter_le ..

theorem Sound.refresh (sound : manager.Sound) (now later : Instant) (token : String)
    (timeout : ℤ)
    : (manager.refresh now later token timeout).1.Sound := by
  have purged := sound.purge now
  have reads : ∀ other lock,
      (manager.refresh now later token timeout).1.locks.get? other = some lock
      → ∃ old, (manager.purge now).locks.get? other = some old ∧ lock.token = old.token
        ∧ lock.key = old.key ∧ lock.scope = old.scope
        ∧ lock.infiniteDepth = old.infiniteDepth := by
    intro other lock found
    unfold LockManager.refresh at found
    dsimp only at found
    rw [OrderedMap.get?_modify] at found
    split at found
    · obtain ⟨old, held, rfl⟩ := Option.map_eq_some_iff.mp found
      exact ⟨old, held, rfl, rfl, rfl, rfl⟩
    · exact ⟨lock, found, rfl, rfl, rfl, rfl⟩
  constructor
  · intro other lock found
    obtain ⟨old, held, same, _⟩ := reads other lock found
    exact same.trans (purged.filed other old held)
  · intro first other lock second differ found foundOther overlap
    obtain ⟨old, held, _, key, scope, depth⟩ := reads first lock found
    obtain ⟨old', held', _, key', scope', depth'⟩ := reads other second foundOther
    rw [scope, scope']
    apply purged.compatible first other old old' differ held held'
    simpa only [Lock.Overlaps, Lock.Covers, key, key', depth, depth'] using overlap
  · have same : (manager.refresh now later token timeout).1.locks.entries.length
        = (manager.purge now).locks.entries.length := by
      simp [LockManager.refresh, OrderedMap.modify]
    rw [same]
    exact purged.bounded

theorem Sound.acquire (sound : manager.Sound) (now later : Instant)
    (drawn key rootHref : String) (scope : Scope) (infiniteDepth : Bool) (ownerXml : String)
    (timeout : ℤ) (principal : String)
    : (manager.acquire now later drawn key rootHref scope infiniteDepth ownerXml timeout
        principal).1.Sound := by
  have purged := sound.purge now
  unfold LockManager.acquire
  dsimp only
  split
  case isTrue => exact purged
  case isFalse room =>
    split
    case isTrue => exact purged
    case isFalse free =>
      have clear : ∀ token held, (manager.purge now).locks.get? token = some held
          → clashes key scope infiniteDepth held = false := by
        intro token held found
        by_contra clash
        have listed : held ∈ (manager.purge now).locks.values :=
          OrderedMap.mem_values_iff.mpr ⟨token, found⟩
        simp only [List.isEmpty_map, Bool.not_eq_true', Bool.not_eq_false, List.isEmpty_iff,
          List.filter_eq_nil_iff] at free
        exact free held listed (Bool.eq_true_of_not_eq_false clash)
      constructor
      · intro token lock found
        rw [OrderedMap.get?_insert] at found
        split at found
        case isTrue same =>
          obtain rfl := Option.some.inj found
          exact same.symm
        case isFalse => exact purged.filed token lock found
      · intro token other lock second differ found foundOther overlap
        rw [OrderedMap.get?_insert] at found foundOther
        split at found
        case isTrue same =>
          obtain rfl := Option.some.inj found
          rw [if_neg (fun eq => differ (same.trans eq.symm))] at foundOther
          exact (shared_of_not_clashes (clear other second foundOther) rfl rfl rfl
            overlap.symm).symm
        case isFalse =>
          split at foundOther
          case isTrue =>
            obtain rfl := Option.some.inj foundOther
            exact shared_of_not_clashes (clear token lock found) rfl rfl rfl overlap
          case isFalse =>
            exact purged.compatible token other lock second differ found foundOther overlap
      · exact (OrderedMap.length_insert_le ..).trans (Nat.lt_of_not_le room)

-- Runs

/-- One call on the table, with the clock it reads and the token it draws. -/
inductive Call where
  | locksOn (now : Instant) (key : String)
  | indirectTokens (now : Instant) (key principal : String)
  | checkWrite (now : Instant) (key : String) (infinite : Bool) (tokens : List String)
    (principal : String)
  | acquire (now later : Instant) (drawn key rootHref : String) (scope : Scope)
    (infiniteDepth : Bool) (ownerXml : String) (timeout : ℤ) (principal : String)
  | refresh (now later : Instant) (token : String) (timeout : ℤ)
  | get (now : Instant) (token : String)
  | isLockedByToken (now : Instant) (key token : String)
  | release (token : String)
  | removeTree (key : String)

/-- The table after the call. -/
def called (manager : LockManager) : Call → LockManager
  | .locksOn now key => (manager.locksOn now key).1
  | .indirectTokens now key principal => (manager.indirectTokens now key principal).1
  | .checkWrite now key infinite tokens principal =>
      (manager.checkWrite now key infinite tokens principal).1
  | .acquire now later drawn key rootHref scope infiniteDepth ownerXml timeout principal =>
      (manager.acquire now later drawn key rootHref scope infiniteDepth ownerXml timeout
        principal).1
  | .refresh now later token timeout => (manager.refresh now later token timeout).1
  | .get now token => (manager.get now token).1
  | .isLockedByToken now key token => (manager.isLockedByToken now key token).1
  | .release token => manager.release token
  | .removeTree key => manager.removeTree key

/-- The table after the calls, from the empty one. -/
def after (calls : List Call) : LockManager := calls.foldl called ⟨.empty⟩

theorem Sound.called (sound : manager.Sound) (call : Call) : (manager.called call).Sound := by
  cases call with
  | acquire now later drawn key rootHref scope infiniteDepth ownerXml timeout principal =>
      exact sound.acquire now later drawn key rootHref scope infiniteDepth ownerXml timeout
        principal
  | refresh now later token timeout => exact sound.refresh now later token timeout
  | release token => exact sound.release token
  | removeTree key => exact sound.retain _
  | _ => exact sound.purge _

theorem sound_empty : Sound ⟨.empty⟩ where
  filed token lock found := by cases found
  compatible token other lock second differ found := by cases found
  bounded := Nat.zero_le maxLocks

theorem sound_after (calls : List Call) : (after calls).Sound := by
  have run : ∀ manager : LockManager, manager.Sound
      → (calls.foldl LockManager.called manager).Sound := by
    induction calls with
    | nil => exact fun manager sound => sound
    | cons call rest ih => exact fun manager sound => ih _ (sound.called call)
  exact run _ sound_empty

/-- The lock is in the table and has not expired. -/
def Live (manager : LockManager) (now : Instant) (lock : Lock) : Prop :=
  manager.locks.get? lock.token = some lock ∧ lock.expired now = false

/-- The clock a call reads first, if it drops expired locks. -/
def Call.now : Call → Option Instant
  | .locksOn now _ | .indirectTokens now _ _ | .checkWrite now _ _ _ _
  | .acquire now _ _ _ _ _ _ _ _ _ | .refresh now _ _ _ | .get now _
  | .isLockedByToken now _ _ => some now
  | .release _ | .removeTree _ => none

/-- Whether the call ends the lock or gives it another time. -/
def Call.Touches (lock : Lock) : Call → Prop
  | .acquire _ _ drawn _ _ _ _ _ _ _ => drawn = lock.token
  | .refresh _ _ token _ => token = lock.token
  | .release token => token = lock.token
  | .removeTree key => lock.key = key ∨ Below key lock.key
  | _ => False

theorem Live.called {now : Instant} {lock : Lock} (live : manager.Live now lock) (call : Call)
    (early : call.now.all (!lock.expired ·)) (spared : ¬ call.Touches lock)
    : (manager.called call).Live now lock := by
  have kept : ∀ reading, call.now = some reading
      → (manager.purge reading).locks.get? lock.token = some lock := by
    intro reading reads
    rw [reads] at early
    exact get?_purge.mpr ⟨live.1, by simpa using early⟩
  refine ⟨?_, live.2⟩
  cases call with
  | acquire reading later drawn key rootHref scope infiniteDepth ownerXml timeout principal =>
      have purged := kept reading rfl
      have other : lock.token ≠ drawn := fun same => spared same.symm
      unfold LockManager.called LockManager.acquire
      dsimp only
      split
      · exact purged
      · split
        · exact purged
        · rw [OrderedMap.get?_insert, if_neg other]
          exact purged
  | refresh reading later token timeout =>
      have other : lock.token ≠ token := fun same => spared same.symm
      unfold LockManager.called LockManager.refresh
      dsimp only
      rw [OrderedMap.get?_modify, if_neg other]
      exact kept reading rfl
  | release token =>
      have other : lock.token ≠ token := fun same => spared same.symm
      unfold LockManager.called LockManager.release
      dsimp only
      rw [OrderedMap.get?_erase, if_neg other]
      exact live.1
  | removeTree key =>
      simp only [Call.Touches, ← isChild_iff] at spared
      unfold LockManager.called LockManager.removeTree
      dsimp only
      rw [OrderedMap.get?_retain, live.1, Option.filter_eq_some_iff]
      refine ⟨rfl, ?_⟩
      simpa [not_or] using spared
  | _ => exact kept _ rfl

theorem checkWrite_refuses {now : Instant} {lock : Lock} {key principal : String}
    {infinite : Bool} {tokens : List String} (live : manager.Live now lock)
    (covers : lock.Covers key) (other : ¬ (lock.principal = principal ∧ lock.token ∈ tokens))
    : ∃ hrefs, (manager.checkWrite now key infinite tokens principal).2 = .error hrefs := by
  have stored : lock ∈ (manager.purge now).locks.values :=
    OrderedMap.mem_values_iff.mpr ⟨lock.token, get?_purge.mpr live⟩
  have stops : passes key infinite tokens principal lock = false := by
    unfold passes
    dsimp only
    rw [Lock.covers_iff] at covers
    rw [covers]
    simpa using other
  unfold LockManager.checkWrite
  dsimp only
  rw [if_neg]
  · exact ⟨_, rfl⟩
  · intro empty
    simp only [List.isEmpty_map, List.isEmpty_iff, List.filter_eq_nil_iff] at empty
    exact empty lock stored (by rw [stops]; rfl)

/-- After any calls: overlapping live locks are shared, a path under a live exclusive lock can
be written by nobody but the owner presenting its token, and the table is bounded. -/
theorem lock_table_invariant (calls : List Call) (now : Instant)
    : (∀ lock second, lock ≠ second → (after calls).Live now lock
        → (after calls).Live now second → lock.Overlaps second
        → lock.scope = .shared ∧ second.scope = .shared)
      ∧ (∀ lock key infinite tokens principal, (after calls).Live now lock
        → lock.scope = .exclusive → lock.Covers key
        → ¬ (lock.principal = principal ∧ lock.token ∈ tokens)
        → ∃ hrefs, ((after calls).checkWrite now key infinite tokens principal).2 = .error hrefs)
      ∧ (after calls).locks.entries.length ≤ maxLocks := by
  have sound := sound_after calls
  refine ⟨?_, ?_, sound.bounded⟩
  · intro lock second differ live liveSecond
    apply sound.compatible lock.token second.token lock second _ live.1 liveSecond.1
    intro same
    have one := live.1
    rw [same, liveSecond.1] at one
    exact differ (Option.some.inj one).symm
  · intro lock key infinite tokens principal live _ covers other
    exact checkWrite_refuses live covers other

end LockManager

end MokuroBunko.Dav
