import MokuroBunko.Dav.LockTable

/-! The two requests that name a lock by its token: a refreshing `LOCK` and an `UNLOCK`
(`lock.rs`). Both ask whether the token locks the URL's key, and that question forgets the
depth of the lock which a write and the listing of the covering tokens look at.
-/

namespace MokuroBunko.Dav.LockManager

open MokuroBunko.Lib

-- The requests

/-- A refused request: its status and its text. -/
abbrev Refusal := ℕ × String

/-- The refreshing branch of `lock`: a `LOCK` without a body on `key`. -/
def refreshRequest (manager : LockManager) (asked now later : Instant) (key : String)
    (tokens : List String) (timeout : ℤ)
    : LockManager × Except Refusal Lock :=
  match tokens with
  | [token] =>
      let (map, locked) := manager.isLockedByToken asked key token
      if !locked then (map, .error (412, "Lock token does not match URL."))
      else
        match map.refresh now later token timeout with
        | (map, some lock) => (map, .ok lock)
        | (map, none) => (map, .error (412, ""))
  | _ =>
      (manager,
        .error (400, "Expected a lock token (only one lock may be refreshed at a time)."))

/-- `unlock`, from the key on: `mapped` is whether the path has a resource. -/
def unlockRequest (manager : LockManager) (listed asked now : Instant) (path key : String)
    (mapped : Bool) (token : Option String) (principal : String)
    : LockManager × Except Refusal Unit :=
  let (map, direct) := if mapped then (manager, []) else manager.locksOn listed key
  -- A lock-null resource can still be unlocked.
  if !mapped && direct.isEmpty then (map, .error (404, path))
  else
    match token with
    | none => (map, .error (400, "Missing lock token."))
    | some token =>
        let (map, locked) := map.isLockedByToken asked key token
        if !locked then (map, .error (409, "Resource is not locked by token."))
        else
          let (map, found) := map.get now token
          if found.any (·.principal ≠ principal) then
            (map, .error (403, "Token was created by another user."))
          else (map.release token, .ok ())

-- Coverage

/-- The token is among those that cover the key, for whoever holds it. -/
def Covered (manager : LockManager) (now : Instant) (key token : String) : Prop :=
  ∃ principal, token ∈ (manager.indirectTokens now key principal).2

/-- The live lock of the token is on that one resource, and the key lies below it. -/
def ShallowAbove (manager : LockManager) (now : Instant) (key token : String) : Prop :=
  ∃ lock, manager.Live now lock ∧ lock.token = token ∧ lock.infiniteDepth = false
    ∧ Below lock.key key

variable {manager : LockManager} {now : Instant} {key token : String}

theorem not_below_self : ¬ Below key key := by
  rintro (⟨root, other⟩ | ⟨_, rest, slash | nul⟩)
  · exact other root
  · have longer := congrArg List.length slash
    simp at longer
  · have longer := congrArg List.length nul
    simp at longer

theorem Sound.get?_purge_iff (sound : manager.Sound) {lock : Lock}
    : (manager.purge now).locks.get? token = some lock
      ↔ manager.Live now lock ∧ lock.token = token := by
  rw [get?_purge]
  constructor
  · rintro ⟨found, fresh⟩
    have same := sound.filed token lock found
    exact ⟨⟨same ▸ found, fresh⟩, same⟩
  · rintro ⟨⟨found, fresh⟩, rfl⟩
    exact ⟨found, fresh⟩

theorem Sound.covered_iff (sound : manager.Sound)
    : manager.Covered now key token
      ↔ ∃ lock, manager.Live now lock ∧ lock.token = token ∧ lock.Covers key := by
  simp only [Covered, indirectTokens, List.mem_map, List.mem_filter, Bool.and_eq_true,
    beq_iff_eq]
  constructor
  · rintro ⟨principal, lock, ⟨stored, _, covers⟩, rfl⟩
    obtain ⟨other, found⟩ := OrderedMap.mem_values_iff.mp stored
    obtain ⟨live, rfl⟩ := (sound.get?_purge_iff).mp found
    exact ⟨lock, live, rfl, Lock.covers_iff.mpr covers⟩
  · rintro ⟨lock, live, rfl, covers⟩
    have found := (sound.get?_purge_iff).mpr ⟨live, rfl⟩
    have stored := OrderedMap.mem_values_iff.mpr ⟨lock.token, found⟩
    exact ⟨lock.principal, lock, ⟨stored, rfl, Lock.covers_iff.mp covers⟩, rfl⟩

theorem passes_eq_false_iff {principal : String} {lock : Lock}
    : passes key false [] principal lock = false ↔ lock.Covers key := by
  rw [Lock.covers_iff]
  unfold passes
  dsimp only
  cases lock.key == key || (lock.infiniteDepth && isChild lock.key key) <;> simp

theorem Sound.isLockedByToken_iff (sound : manager.Sound)
    : (manager.isLockedByToken now key token).2 = true
      ↔ ∃ lock, manager.Live now lock ∧ lock.token = token
          ∧ (lock.key = key ∨ Below lock.key key) := by
  simp only [isLockedByToken, get, Option.any_eq_true, Bool.or_eq_true, beq_iff_eq,
    isChild_iff, sound.get?_purge_iff, and_assoc]

/-- The question of the two requests agrees with the coverage that a write and the listing of
the covering tokens see, except below a lock on one resource. -/
theorem isLockedByToken_agrees_iff (sound : manager.Sound) (now : Instant)
    (key token : String)
    : (((manager.isLockedByToken now key token).2 = true ↔ manager.Covered now key token)
        ↔ ¬ manager.ShallowAbove now key token)
      ∧ (manager.Covered now key token
        ↔ ∃ lock, manager.Live now lock ∧ lock.token = token
            ∧ ∀ principal, passes key false [] principal lock = false) := by
  have only : ∀ first second, manager.Live now first → first.token = token
      → manager.Live now second → second.token = token → first = second := by
    intro first second live same live' same'
    have found := (sound.get?_purge_iff).mpr ⟨live, same⟩
    rw [(sound.get?_purge_iff).mpr ⟨live', same'⟩] at found
    exact (Option.some.inj found).symm
  constructor
  · rw [sound.isLockedByToken_iff, sound.covered_iff]
    constructor
    · rintro agree ⟨lock, live, same, shallow, below⟩
      obtain ⟨other, live', same', direct | ⟨deep, _⟩⟩ :=
        agree.mp ⟨lock, live, same, .inr below⟩
      · obtain rfl := only lock other live same live' same'
        exact not_below_self (direct ▸ below)
      · obtain rfl := only lock other live same live' same'
        rw [shallow] at deep
        cases deep
    · intro apart
      constructor
      · rintro ⟨lock, live, same, direct | below⟩
        · exact ⟨lock, live, same, .inl direct⟩
        · refine ⟨lock, live, same, .inr ⟨?_, below⟩⟩
          by_contra shallow
          exact apart ⟨lock, live, same, Bool.eq_false_of_not_eq_true shallow, below⟩
      · rintro ⟨lock, live, same, direct | ⟨_, below⟩⟩
        · exact ⟨lock, live, same, .inl direct⟩
        · exact ⟨lock, live, same, .inr below⟩
  · rw [sound.covered_iff]
    simp only [passes_eq_false_iff, forall_const]

def shallowTable : LockManager :=
  after [.acquire 0 0 "t" "/a" "/a/" .exclusive false "" 60 "alice"]

theorem isLockedByToken_agrees_after_acquire
    : shallowTable.Sound
      ∧ (((shallowTable.isLockedByToken 1 "/a" "t").2 = true
            ↔ shallowTable.Covered 1 "/a" "t")
          ↔ ¬ shallowTable.ShallowAbove 1 "/a" "t") :=
  ⟨sound_after _, (isLockedByToken_agrees_iff (sound_after _) 1 "/a" "t").1⟩

/-- A member's URL refreshes and unlocks the lock on the collection alone, which does not
cover the member. -/
theorem shallow_lock_unlocked_below
    : ¬ ((shallowTable.isLockedByToken 1 "/a/b" "t").2 = true
          ↔ shallowTable.Covered 1 "/a/b" "t")
      ∧ (shallowTable.unlockRequest 1 1 1 "/a/b" "/a/b" true (some "t") "alice").2.isOk = true
      ∧ (shallowTable.refreshRequest 1 1 1 "/a/b" ["t"] 60).2.isOk = true := by
  have sound : shallowTable.Sound := sound_after _
  have locked : (shallowTable.isLockedByToken 1 "/a/b" "t").2 = true := by decide +kernel
  have opened : (shallowTable.checkWrite 1 "/a/b" false [] "bob").2.isOk = true := by
    decide +kernel
  refine ⟨?_, by decide +kernel, by decide +kernel⟩
  intro agree
  obtain ⟨lock, live, _, covers⟩ := sound.covered_iff.mp (agree.mp locked)
  obtain ⟨hrefs, refused⟩ := @checkWrite_refuses shallowTable 1 lock "/a/b" "bob" false []
    live covers (by simp)
  rw [refused] at opened
  cases opened

end MokuroBunko.Dav.LockManager
