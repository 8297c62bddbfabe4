import MokuroBunko.Dav.HistoryStock

/-! Runs of uploads into the reading history beside deletions. The path lock keeps deletions
away from the file an upload is to replace, the account's guard keeps its other uploads away.
-/

namespace MokuroBunko.Dav

open MokuroBunko.Lib

namespace Histories

/-- Who holds what, and that every request's findings are right. -/
structure Kept (roots : Roots) (limits : HistoryLimits) (lower : String → String)
    (world : Histories) : Prop where
  exclusive : Exclusive world.locks
  unlocked : ∀ {id}, world.nextRequest ≤ id → world.locks.guards.get? id = none
  numbered : ∀ {id phase}, world.requests.get? id = some phase → id < world.nextRequest
  locked : ∀ {id phase path}, world.requests.get? id = some phase
    → phase.lockedPath = some path
    → ∃ keys, world.locks.guards.get? id = some keys ∧ keyOf lower path ∈ keys
  handles : ∀ {id phase put mutex}, world.requests.get? id = some phase
    → phase.handle = some (put, mutex) → world.accounts.get? put.base = some mutex
  alone : ∀ {id other phase phase' put put' mutex}, world.requests.get? id = some phase
    → world.requests.get? other = some phase' → phase.inside = some (put, mutex)
    → phase'.inside = some (put', mutex) → id = other
  placed : ∀ {id phase put}, world.requests.get? id = some phase → phase.upload = some put
    → roots.IsBase put.base ∧ inHistory put.base put.dest = true
  stock : Stock roots limits world.disk
  fits : ∀ {id phase}, world.requests.get? id = some phase → Fits limits world.disk phase
  settled : ∀ {id}, id ∈ world.committed ++ world.refused.map Prod.fst
    → id < world.nextRequest ∧ ∀ phase, world.requests.get? id = some phase → phase.isOver = true
  parted : ∀ {id}, id ∈ world.committed → id ∉ world.refused.map Prod.fst

variable {roots : Roots} {limits : HistoryLimits} {lower : String → String} {world : Histories}

/-- A server that starts on stored histories. -/
def start (disk : OrderedMap OsPath Stored) : Histories where
  disk := disk
  locks := ⟨[], .empty⟩
  accounts := .empty
  nextMutex := 0
  requests := .empty
  nextRequest := 0
  committed := []
  refused := []

theorem Kept.start {disk : OrderedMap OsPath Stored} (stock : Stock roots limits disk)
    : Kept roots limits lower (start disk) where
  exclusive := KeyTable.exclusive_empty
  unlocked _ := rfl
  numbered := nofun
  locked := nofun
  handles := nofun
  alone := nofun
  placed := nofun
  stock := stock
  fits := nofun
  settled := nofun
  parted := nofun

-- A request goes on

theorem phase_cases {id other : ℕ} {phase phase' : Phase}
    (read : (world.setPhase id phase).requests.get? other = some phase')
    : (other = id ∧ phase' = phase)
      ∨ (other ≠ id ∧ world.requests.get? other = some phase') := by
  rw [setPhase, OrderedMap.get?_insert] at read
  split at read
  case isTrue same => exact .inl ⟨same, (Option.some.inj read).symm⟩
  case isFalse differ => exact .inr ⟨differ, read⟩

/-- What a request must show to go on in a phase. -/
structure MayEnter (limits : HistoryLimits) (world : Histories) (id : ℕ) (old phase : Phase)
    : Prop where
  lockedPath : ∀ path, phase.lockedPath = some path → old.lockedPath = some path
  upload : ∀ put, phase.upload = some put → old.upload = some put
  handle : ∀ put mutex, phase.handle = some (put, mutex)
    → world.accounts.get? put.base = some mutex
  inside : ∀ put mutex, phase.inside = some (put, mutex)
    → ∀ other phase' put', world.requests.get? other = some phase'
    → phase'.inside = some (put', mutex) → other = id
  fits : Fits limits world.disk phase
  isOver : old.isOver = true → phase.isOver = true

theorem Kept.setPhase (kept : Kept roots limits lower world) {id : ℕ} {old phase : Phase}
    (found : world.requests.get? id = some old) (may : MayEnter limits world id old phase)
    : Kept roots limits lower (world.setPhase id phase) := by
  refine {
    exclusive := kept.exclusive
    unlocked := kept.unlocked
    numbered := ?_
    locked := ?_
    handles := ?_
    alone := ?_
    placed := ?_
    stock := kept.stock
    fits := ?_
    settled := ?_
    parted := kept.parted
  }
  · intro other phase' read
    obtain ⟨rfl, rfl⟩ | ⟨_, before⟩ := phase_cases read
    · exact kept.numbered found
    · exact kept.numbered before
  · intro other phase' path read locked
    obtain ⟨rfl, rfl⟩ | ⟨_, before⟩ := phase_cases read
    · exact kept.locked found (may.lockedPath path locked)
    · exact kept.locked before locked
  · intro other phase' put mutex read handle
    obtain ⟨rfl, rfl⟩ | ⟨_, before⟩ := phase_cases read
    · exact may.handle put mutex handle
    · exact kept.handles before handle
  · intro first second phase₁ phase₂ put₁ put₂ mutex read₁ read₂ inside₁ inside₂
    obtain ⟨rfl, rfl⟩ | ⟨_, before₁⟩ := phase_cases read₁
    · obtain ⟨rfl, rfl⟩ | ⟨_, before₂⟩ := phase_cases read₂
      · rfl
      · exact (may.inside put₁ mutex inside₁ second phase₂ put₂ before₂ inside₂).symm
    · obtain ⟨rfl, rfl⟩ | ⟨_, before₂⟩ := phase_cases read₂
      · exact may.inside put₂ mutex inside₂ first phase₁ put₁ before₁ inside₁
      · exact kept.alone before₁ before₂ inside₁ inside₂
  · intro other phase' put read upload
    obtain ⟨rfl, rfl⟩ | ⟨_, before⟩ := phase_cases read
    · exact kept.placed found (may.upload put upload)
    · exact kept.placed before upload
  · intro other phase' read
    obtain ⟨rfl, rfl⟩ | ⟨_, before⟩ := phase_cases read
    · exact may.fits
    · exact kept.fits before
  · intro other listed
    obtain ⟨known, isOver⟩ := kept.settled listed
    refine ⟨known, ?_⟩
    intro phase' read
    obtain ⟨rfl, rfl⟩ | ⟨_, before⟩ := phase_cases read
    · exact may.isOver (isOver old found)
    · exact isOver phase' before

theorem Kept.mayStay (kept : Kept roots limits lower world) {id : ℕ} {old phase : Phase}
    {put : Put} {mutex : ℕ} (found : world.requests.get? id = some old)
    (inside : old.inside = some (put, mutex)) (stays : phase.inside = some (put, mutex))
    (fits : Fits limits world.disk phase) (isOver : old.isOver = false ∨ phase.isOver = true)
    : MayEnter limits world id old phase where
  lockedPath path locked := by
    have now := Phase.lockedPath_of_upload (Phase.upload_of_handle (Phase.handle_of_inside stays))
    have before :=
      Phase.lockedPath_of_upload (Phase.upload_of_handle (Phase.handle_of_inside inside))
    rw [← locked, now, before]
  upload put' upload := by
    have now := Phase.upload_of_handle (Phase.handle_of_inside stays)
    have before := Phase.upload_of_handle (Phase.handle_of_inside inside)
    rw [← upload, now, before]
  handle put' mutex' handle := by
    obtain ⟨rfl, rfl⟩ := Prod.mk.inj
      (Option.some.inj ((Phase.handle_of_inside stays).symm.trans handle))
    exact kept.handles found (Phase.handle_of_inside inside)
  inside put' mutex' inside' other phase' other' read held := by
    obtain ⟨rfl, rfl⟩ := Prod.mk.inj (Option.some.inj (stays.symm.trans inside'))
    exact kept.alone read found held inside
  fits := fits
  isOver ended := isOver.resolve_left (fun going => by
    rw [ended] at going
    cases going)

theorem mayAbandon (id : ℕ) (old : Phase) : MayEnter limits world id old .unlocking where
  lockedPath path locked := by cases locked
  upload put upload := by cases upload
  handle put mutex handle := by cases handle
  inside put mutex inside := by cases inside
  fits := trivial
  isOver _ := rfl

/-- A request that comes in holds the locks of its paths from then on, or is turned away. -/
theorem Kept.tryLock (kept : Kept roots limits lower world) {paths : List OsPath}
    {phase : Phase} (asked : ∀ path, phase.lockedPath = some path → path ∈ paths)
    (outside : phase.handle = none) (fits : Fits limits world.disk phase)
    (placed : ∀ put, phase.upload = some put
      → roots.IsBase put.base ∧ inHistory put.base put.dest = true)
    : Kept roots limits lower (world.tryLock lower paths phase) := by
  have fresh := kept.unlocked (Nat.le_refl world.nextRequest)
  have absent : world.requests.get? world.nextRequest = none := by
    apply Option.eq_none_iff_forall_ne_some.mpr
    intro phase' found
    exact absurd (kept.numbered found) (Nat.lt_irrefl _)
  have guards : ∀ {id keys}, id < world.nextRequest → world.locks.guards.get? id = some keys
      → (tried lower world.locks world.nextRequest paths).guards.get? id = some keys := by
    intro id keys known found
    rw [guards_tried_of_ne (Nat.ne_of_lt known), found]
  have unlocked : ∀ {id}, world.nextRequest + 1 ≤ id
      → (tried lower world.locks world.nextRequest paths).guards.get? id = none := by
    intro id beyond
    rw [guards_tried_of_ne (by omega)]
    exact kept.unlocked (by omega)
  have noInside : ∀ held, phase.inside ≠ some held := by
    intro held inside
    rw [Phase.handle_of_inside inside] at outside
    cases outside
  have counted : Kept roots limits lower { world with
      locks := tried lower world.locks world.nextRequest paths
      nextRequest := world.nextRequest + 1 } := {
    exclusive := kept.exclusive.tried paths fresh
    unlocked := unlocked
    numbered := fun found => Nat.lt_succ_of_lt (kept.numbered found)
    locked := by
      intro id phase' path found locked
      obtain ⟨keys, held, member⟩ := kept.locked found locked
      exact ⟨keys, guards (kept.numbered found) held, member⟩
    handles := kept.handles
    alone := kept.alone
    placed := kept.placed
    stock := kept.stock
    fits := kept.fits
    settled := fun listed =>
      ⟨Nat.lt_succ_of_lt (kept.settled listed).1, (kept.settled listed).2⟩
    parted := kept.parted
  }
  unfold Histories.tryLock
  dsimp only
  split
  case isFalse => exact counted
  case isTrue given =>
    obtain ⟨keys, given⟩ := Option.isSome_iff_exists.mp given
    refine {
      exclusive := counted.exclusive
      unlocked := counted.unlocked
      numbered := ?_
      locked := ?_
      handles := ?_
      alone := ?_
      placed := ?_
      stock := counted.stock
      fits := ?_
      settled := ?_
      parted := counted.parted
    }
    · intro other phase' read
      obtain ⟨rfl, rfl⟩ | ⟨_, before⟩ := phase_cases read
      · exact Nat.lt_succ_self _
      · exact counted.numbered before
    · intro other phase' path read locked
      obtain ⟨rfl, rfl⟩ | ⟨_, before⟩ := phase_cases read
      · exact ⟨keys, given, mem_guards_tried fresh given path (asked path locked)⟩
      · exact counted.locked before locked
    · intro other phase' put mutex read handle
      obtain ⟨rfl, rfl⟩ | ⟨_, before⟩ := phase_cases read
      · rw [outside] at handle
        cases handle
      · exact counted.handles before handle
    · intro first second phase₁ phase₂ put₁ put₂ mutex read₁ read₂ inside₁ inside₂
      obtain ⟨rfl, rfl⟩ | ⟨_, before₁⟩ := phase_cases read₁
      · exact absurd inside₁ (noInside _)
      · obtain ⟨rfl, rfl⟩ | ⟨_, before₂⟩ := phase_cases read₂
        · exact absurd inside₂ (noInside _)
        · exact counted.alone before₁ before₂ inside₁ inside₂
    · intro other phase' put read upload
      obtain ⟨rfl, rfl⟩ | ⟨_, before⟩ := phase_cases read
      · exact placed put upload
      · exact counted.placed before upload
    · intro other phase' read
      obtain ⟨rfl, rfl⟩ | ⟨_, before⟩ := phase_cases read
      · exact fits
      · exact counted.fits before
    · intro other listed
      refine ⟨(counted.settled listed).1, ?_⟩
      intro phase' read
      obtain ⟨rfl, rfl⟩ | ⟨_, before⟩ := phase_cases read
      · exact absurd (kept.settled listed).1 (Nat.lt_irrefl _)
      · exact (counted.settled listed).2 phase' before

theorem Kept.unlock (kept : Kept roots limits lower world) (id : ℕ)
    : Kept roots limits lower { world with
        locks := dropped world.locks id
        requests := world.requests.erase id } := by
  have still : ∀ {other phase}, (world.requests.erase id).get? other = some phase
      → other ≠ id ∧ world.requests.get? other = some phase := by
    intro other phase read
    rw [OrderedMap.get?_erase] at read
    split at read
    case isTrue => cases read
    case isFalse differ => exact ⟨differ, read⟩
  exact {
    exclusive := kept.exclusive.dropped id
    unlocked := by
      intro other beyond
      dsimp only at beyond ⊢
      rw [guards_dropped, kept.unlocked beyond, ite_self]
    numbered := fun read => kept.numbered (still read).2
    locked := by
      intro other phase path read locked
      obtain ⟨differ, found⟩ := still read
      dsimp only
      rw [guards_dropped, if_neg differ]
      exact kept.locked found locked
    handles := fun read => kept.handles (still read).2
    alone := fun first second => kept.alone (still first).2 (still second).2
    placed := fun read => kept.placed (still read).2
    stock := kept.stock
    fits := fun read => kept.fits (still read).2
    settled := fun listed =>
      ⟨(kept.settled listed).1, fun phase read => (kept.settled listed).2 phase (still read).2⟩
    parted := kept.parted
  }

-- The account's mutex

theorem Kept.cloneMutex (kept : Kept roots limits lower world) {id : ℕ} {put : Put}
    (found : world.requests.get? id = some (.locked put))
    : Kept roots limits lower (world.cloneMutex id put) := by
  unfold Histories.cloneMutex
  split
  case h_1 mutex known =>
    refine kept.setPhase found {
      lockedPath := fun path locked => locked
      upload := fun put' upload => upload
      handle := ?_
      inside := nofun
      fits := trivial
      isOver := fun ended => ended
    }
    intro put' mutex' handle
    obtain ⟨rfl, rfl⟩ := Prod.mk.inj (Option.some.inj handle)
    exact known
  case h_2 unknown =>
    have made : Kept roots limits lower { world with
        accounts := world.accounts.insert put.base world.nextMutex
        nextMutex := world.nextMutex + 1 } := {
      exclusive := kept.exclusive
      unlocked := kept.unlocked
      numbered := kept.numbered
      locked := kept.locked
      handles := by
        intro other phase put' mutex read handle
        have before := kept.handles read handle
        dsimp only
        rw [OrderedMap.get?_insert, if_neg, before]
        intro same
        rw [same, unknown] at before
        cases before
      alone := kept.alone
      placed := kept.placed
      stock := kept.stock
      fits := kept.fits
      settled := kept.settled
      parted := kept.parted
    }
    refine made.setPhase found {
      lockedPath := fun path locked => locked
      upload := fun put' upload => upload
      handle := ?_
      inside := nofun
      fits := trivial
      isOver := fun ended => ended
    }
    intro put' mutex' handle
    obtain ⟨rfl, rfl⟩ := Prod.mk.inj (Option.some.inj handle)
    simp

theorem Kept.enter (kept : Kept roots limits lower world) {id : ℕ} {put : Put} {mutex : ℕ}
    (found : world.requests.get? id = some (.waiting put mutex))
    (free : world.taken mutex = false)
    : Kept roots limits lower (world.setPhase id (.entered put mutex)) := by
  refine kept.setPhase found {
    lockedPath := fun path locked => locked
    upload := fun put' upload => upload
    handle := fun put' mutex' handle => kept.handles found handle
    inside := ?_
    fits := trivial
    isOver := fun ended => ended
  }
  intro put' mutex' inside other phase' other' read held
  obtain ⟨rfl, rfl⟩ := Prod.mk.inj (Option.some.inj inside)
  have unheld := List.any_eq_false.mp free _ (OrderedMap.mem_entries_iff.mpr read)
  rw [held] at unheld
  simp at unheld

theorem Kept.dropMutex (kept : Kept roots limits lower world) {id : ℕ} {put : Put}
    {mutex : ℕ} (found : world.requests.get? id = some (.leaving put mutex))
    : Kept roots limits lower (world.dropMutex id put) := by
  have left : Kept roots limits lower (world.setPhase id .unlocking) :=
    kept.setPhase found (mayAbandon id _)
  refine {
    exclusive := left.exclusive
    unlocked := left.unlocked
    numbered := left.numbered
    locked := left.locked
    handles := ?_
    alone := left.alone
    placed := left.placed
    stock := left.stock
    fits := left.fits
    settled := left.settled
    parted := left.parted
  }
  intro other phase put' mutex' read handle
  have known := left.handles read handle
  obtain ⟨rfl, rfl⟩ | ⟨differ, before⟩ := phase_cases read
  · cases handle
  · unfold Histories.dropMutex
    dsimp only
    split
    case h_1 => exact known
    case h_2 held accounted =>
      split
      case isTrue => exact known
      case isFalse unshared =>
        rw [OrderedMap.get?_erase, if_neg]
        · exact known
        · intro same
          have one : held = mutex' :=
            Option.some.inj (accounted.symm.trans (same ▸ kept.handles before handle))
          have others := List.any_eq_false.mp (Bool.eq_false_of_not_eq_true unshared) _
            (OrderedMap.mem_entries_iff.mpr before)
          rw [handle, one] at others
          simp [differ] at others

-- Ends of an upload

section Upload

variable {id : ℕ} {old : Phase} {put : Put} {mutex : ℕ}

theorem Kept.stop (kept : Kept roots limits lower world)
    (found : world.requests.get? id = some old) (inside : old.inside = some (put, mutex))
    : Kept roots limits lower (world.setPhase id (.leaving put mutex)) :=
  kept.setPhase found (kept.mayStay found inside rfl trivial (.inr rfl))

theorem Kept.unsettled (kept : Kept roots limits lower world)
    (found : world.requests.get? id = some old) (going : old.isOver = false)
    : id ∉ world.committed ∧ id ∉ world.refused.map Prod.fst := by
  have untouched : id ∉ world.committed ++ world.refused.map Prod.fst := by
    intro listed
    have isOver := (kept.settled listed).2 old found
    rw [going] at isOver
    cases isOver
  rw [List.mem_append, not_or] at untouched
  exact untouched

theorem Kept.refuse (kept : Kept roots limits lower world)
    (found : world.requests.get? id = some old) (inside : old.inside = some (put, mutex))
    (going : old.isOver = false) (rejection : Rejection)
    : Kept roots limits lower { world.setPhase id (.leaving put mutex) with
        refused := (id, rejection) :: world.refused } := by
  have ended := kept.stop found inside
  obtain ⟨unpublished, _⟩ := kept.unsettled found going
  refine {
    exclusive := ended.exclusive
    unlocked := ended.unlocked
    numbered := ended.numbered
    locked := ended.locked
    handles := ended.handles
    alone := ended.alone
    placed := ended.placed
    stock := ended.stock
    fits := ended.fits
    settled := ?_
    parted := ?_
  }
  · intro other listed
    by_cases same : other = id
    · subst same
      refine ⟨kept.numbered found, ?_⟩
      intro phase read
      obtain ⟨_, rfl⟩ | ⟨differ, _⟩ := phase_cases read
      · rfl
      · exact absurd rfl differ
    · apply ended.settled
      simpa [Histories.setPhase, same] using listed
  · intro other published listed
    rcases List.mem_cons.mp listed with same | before
    · subst same
      exact unpublished published
    · exact kept.parted published before

theorem Kept.held (kept : Kept roots limits lower world)
    (found : world.requests.get? id = some old) (inside : old.inside = some (put, mutex))
    (going : old.isOver = false) {caps : HistoryCaps} {size : ℕ} {next : Phase}
    (stays : next.inside = some (put, mutex))
    (fits : caps.check size = none → Fits limits world.disk next)
    : Kept roots limits lower (world.held id put mutex caps size next) := by
  unfold Histories.held
  split
  case h_1 passed =>
    exact kept.setPhase found (kept.mayStay found inside stays (fits passed) (.inl going))
  case h_2 rejection _ => exact kept.refuse found inside going rejection

/-- The account's other uploads are not past the guard, and other accounts' trees are apart:
nobody's findings change when the file appears. -/
theorem Kept.publish (kept : Kept roots limits lower world) {caps : HistoryCaps} {written : ℕ}
    (found : world.requests.get? id = some (.writing put mutex caps written))
    (unchanged : Bool)
    : Kept roots limits lower (world.publish id put mutex written unchanged) := by
  have ended : Kept roots limits lower (world.setPhase id (.leaving put mutex)) :=
    kept.stop found rfl
  obtain ⟨_, unrefused⟩ := kept.unsettled found rfl
  obtain ⟨ofBase, inside⟩ := kept.placed found rfl
  obtain ⟨small, fitting, _, room⟩ := kept.fits found
  unfold Histories.publish
  dsimp only
  split
  case isTrue => exact ended
  case isFalse =>
    split
    case isFalse => exact ended
    case isTrue placeable =>
      obtain ⟨parent, vacant⟩ := placeable
      have enough := room.resolve_left vacant
      unfold Put.beside at enough
      refine {
        exclusive := ended.exclusive
        unlocked := ended.unlocked
        numbered := ended.numbered
        locked := ended.locked
        handles := ended.handles
        alone := ended.alone
        placed := ended.placed
        stock := kept.stock.publish ofBase inside parent vacant small (by omega)
        fits := ?_
        settled := ?_
        parted := ?_
      }
      · intro other phase read
        obtain ⟨rfl, rfl⟩ | ⟨differ, before⟩ := phase_cases read
        · trivial
        · apply (kept.fits before).spared
          intro put' mutex' inside'
          obtain ⟨ofBase', inside''⟩ :=
            kept.placed before (Phase.upload_of_handle (Phase.handle_of_inside inside'))
          have bases : put'.base ≠ put.base := by
            intro same
            have mine := kept.handles found rfl
            have theirs := kept.handles before (Phase.handle_of_inside inside')
            rw [same] at theirs
            obtain rfl := Option.some.inj (mine.symm.trans theirs)
            exact differ (kept.alone before found inside' rfl)
          have outside : ∀ path, inHistory put'.base path = true → path ≠ put.dest := by
            intro path within same
            subst same
            exact bases (Roots.base_eq_of_history ofBase' ofBase (inHistory_iff.mp within).1
              (inHistory_iff.mp inside).1)
          constructor
          · intro path size within read
            rw [OrderedMap.get?_insert, if_neg (outside path within)] at read
            exact read
          · rw [OrderedMap.get?_insert, if_neg (outside put'.dest inside'')]
            exact .inl rfl
      · intro other listed
        by_cases same : other = id
        · subst same
          refine ⟨kept.numbered found, ?_⟩
          intro phase read
          obtain ⟨_, rfl⟩ | ⟨differ, _⟩ := phase_cases read
          · rfl
          · exact absurd rfl differ
        · apply ended.settled
          simpa [Histories.setPhase, same] using listed
      · intro other published
        rcases List.mem_cons.mp published with same | before
        · exact same ▸ unrefused
        · exact kept.parted before

end Upload

-- Other changes of the disk

theorem Kept.setDisk (kept : Kept roots limits lower world)
    {disk : OrderedMap OsPath Stored} (stock : Stock roots limits disk)
    (spares : ∀ {id phase put mutex}, world.requests.get? id = some phase
      → phase.inside = some (put, mutex) → Spares world.disk disk put)
    : Kept roots limits lower { world with disk } where
  exclusive := kept.exclusive
  unlocked := kept.unlocked
  numbered := kept.numbered
  locked := kept.locked
  handles := kept.handles
  alone := kept.alone
  placed := kept.placed
  stock := stock
  fits found := (kept.fits found).spared (fun _ _ inside => spares found inside)
  settled := kept.settled
  parted := kept.parted

theorem Kept.makeFolder (kept : Kept roots limits lower world) {path : OsPath}
    (parent : world.disk.get? path.dropLast = some .folder
      ∨ ∀ base, roots.IsBase base → ¬ historyRoot base <+: path.dropLast)
    : Kept roots limits lower (world.makeFolder path) := by
  unfold Histories.makeFolder
  split
  case isFalse => exact kept
  case isTrue =>
    apply kept.setDisk (kept.stock.makeFolder parent)
    intro id phase put mutex found inside
    constructor
    · intro place size within read
      rw [OrderedMap.get?_insert] at read
      split at read
      · cases read
      · exact read
    · rw [OrderedMap.get?_insert]
      split
      · exact .inr rfl
      · exact .inl rfl

theorem Kept.removeEntry (kept : Kept roots limits lower world) {id : ℕ} {top path : OsPath}
    (found : world.requests.get? id = some (.deleting top)) (below : top <+: path)
    (bare : (world.children path).isEmpty = true)
    : Kept roots limits lower { world with disk := world.disk.erase path } := by
  apply kept.setDisk
  · apply kept.stock.erase
    intro name
    by_contra present
    have listed : path ++ [name] ∈ world.children path :=
      mem_children.mpr ⟨name, rfl, Option.isSome_iff_ne_none.mpr present⟩
    rw [List.isEmpty_iff.mp bare] at listed
    cases listed
  · intro other phase put mutex foundOther inside
    have differ : id ≠ other := by
      intro same
      rw [← same, found] at foundOther
      obtain rfl := Option.some.inj foundOther
      cases inside
    have apart : put.dest ≠ path := by
      intro same
      obtain ⟨keys, held, member⟩ := kept.locked found rfl
      obtain ⟨others, heldOther, memberOther⟩ := kept.locked foundOther
        (Phase.lockedPath_of_upload (Phase.upload_of_handle (Phase.handle_of_inside inside)))
      apply kept.exclusive.guards_apart conflicts_symm differ held heldOther _ member _
        memberOther
      rw [same]
      exact conflicts_iff.mpr (.inl ((List.cons_prefix_cons.mpr ⟨rfl, below⟩).map lower))
    constructor
    · intro place size within read
      rw [OrderedMap.get?_erase] at read
      split at read
      · cases read
      · exact read
    · rw [OrderedMap.get?_erase, if_neg apart]
      exact .inl rfl

-- Runs

/-- One step keeps all of it. One case per event; what an event finds in another phase than its
own it leaves alone. -/
theorem Kept.happened (kept : Kept roots limits lower world) (event : HistoryEvent)
    : Kept roots limits lower (world.happened roots limits lower event) := by
  cases event with
  | lockOther paths =>
      exact kept.tryLock (fun _ locked => by cases locked) rfl trivial
        (fun _ upload => by cases upload)
  | beginDelete path =>
      refine kept.tryLock ?_ rfl trivial (fun _ upload => by cases upload)
      intro other locked
      obtain rfl := Option.some.inj locked
      exact List.mem_singleton_self _
  | beginPut caller dest declared =>
      unfold Histories.happened
      dsimp only
      split
      case h_1 => exact kept
      case h_2 base owned =>
        split
        case isFalse => exact kept
        case isTrue inside =>
          refine kept.tryLock ?_ rfl trivial ?_
          · intro other locked
            obtain rfl := Option.some.inj locked
            exact List.mem_singleton_self _
          · intro put upload
            obtain rfl := Option.some.inj upload
            exact ⟨⟨caller, owned⟩, inside⟩
  | makeHistory caller =>
      unfold Histories.happened
      dsimp only
      split
      case h_1 => exact kept
      case h_2 base owned =>
        apply kept.makeFolder
        right
        intro other ofOther above
        have parent : (historyRoot base).dropLast = base := List.dropLast_concat
        rw [parent] at above
        exact Roots.historyRoot_not_above ofOther ⟨caller, owned⟩ above
  | makeFolder path =>
      unfold Histories.happened
      dsimp only
      split
      case isFalse => exact kept
      case isTrue parent => exact kept.makeFolder (.inl parent)
  | removeEntry id path =>
      unfold Histories.happened
      dsimp only
      split
      case h_2 => exact kept
      case h_1 top found =>
        split
        case isFalse => exact kept
        case isTrue removable =>
          obtain ⟨below, bare⟩ := Bool.and_eq_true_iff.mp removable
          exact kept.removeEntry found (List.isPrefixOf_iff_prefix.mp below) bare
  | clone id =>
      unfold Histories.happened
      dsimp only
      split
      case h_1 put found => exact kept.cloneMutex found
      case h_2 => exact kept
  | enter id =>
      unfold Histories.happened
      dsimp only
      split
      case h_2 => exact kept
      case h_1 put mutex found =>
        split
        case isTrue => exact kept
        case isFalse free => exact kept.enter found (Bool.eq_false_of_not_eq_true free)
  | look id folderSize =>
      unfold Histories.happened
      dsimp only
      split
      case h_2 => exact kept
      case h_1 put mutex found =>
        apply kept.setPhase found
        refine kept.mayStay found rfl rfl ?_ (.inl rfl)
        unfold Fits Replaces
        dsimp only
        split <;> simp_all
  | measure id =>
      unfold Histories.happened
      dsimp only
      split
      case h_2 => exact kept
      case h_1 put mutex replaced found =>
        apply kept.setPhase found
        exact kept.mayStay found rfl rfl
          (.measure kept.stock (kept.placed found rfl).1 (kept.fits found)) (.inl rfl)
  | visit id =>
      unfold Histories.happened
      dsimp only
      split
      case h_2 => exact kept
      case h_1 put mutex replaced path pending stored found =>
        have ofBase := (kept.placed found rfl).1
        have fits := kept.fits found
        split
        case h_1 gone =>
          apply kept.setPhase found
          exact kept.mayStay found rfl rfl (.visitNone kept.stock ofBase fits gone) (.inl rfl)
        case h_2 folder =>
          apply kept.setPhase found
          exact kept.mayStay found rfl rfl (.visitFolder kept.stock ofBase fits folder) (.inl rfl)
        case h_3 size file =>
          apply kept.setPhase found
          exact kept.mayStay found rfl rfl (.visitFile kept.stock ofBase fits file) (.inl rfl)
  | stage id =>
      unfold Histories.happened
      dsimp only
      split
      case h_2 => exact kept
      case h_1 put mutex replaced stored found =>
        obtain ⟨ofBase, inside⟩ := kept.placed found rfl
        exact kept.held found rfl rfl rfl
          (fun _ => .stage kept.stock ofBase inside (kept.fits found))
  | chunk id size =>
      unfold Histories.happened
      dsimp only
      split
      case h_2 => exact kept
      case h_1 put mutex caps written found =>
        exact kept.held found rfl rfl rfl (fun passed => .chunk (kept.fits found) passed)
  | fail id =>
      unfold Histories.happened
      dsimp only
      split
      case h_1 put mutex found =>
        exact kept.setPhase found (mayAbandon id _)
      case h_2 phase _ found =>
        split
        case h_1 put mutex inside => exact kept.stop found inside
        case h_2 => exact kept
      case h_3 => exact kept
  | commit id unchanged =>
      unfold Histories.happened
      dsimp only
      split
      case h_2 => exact kept
      case h_1 put mutex caps written found => exact kept.publish found unchanged
  | leave id =>
      unfold Histories.happened
      dsimp only
      split
      case h_2 => exact kept
      case h_1 put mutex found => exact kept.dropMutex found
  | unlock id =>
      unfold Histories.happened
      dsimp only
      split
      case h_5 => exact kept
      all_goals exact kept.unlock id

/-- The server after the events. -/
def after (roots : Roots) (limits : HistoryLimits) (lower : String → String)
    (world : Histories) (events : List HistoryEvent)
    : Histories :=
  events.foldl (fun world event => world.happened roots limits lower event) world

theorem Kept.after (kept : Kept roots limits lower world) (events : List HistoryEvent)
    : Kept roots limits lower (world.after roots limits lower events) := by
  induction events generalizing world with
  | nil => exact kept
  | cons event rest ih => exact ih (kept.happened event)

theorem after_append (events later : List HistoryEvent)
    : world.after roots limits lower (events ++ later)
      = (world.after roots limits lower events).after roots limits lower later :=
  List.foldl_append ..

-- What one upload does to the disk

theorem publish_cases (id : ℕ) (put : Put) (mutex size : ℕ) (unchanged : Bool)
    : ((world.publish id put mutex size unchanged).disk = world.disk
        ∧ (world.publish id put mutex size unchanged).committed = world.committed)
      ∨ (world.publish id put mutex size unchanged).committed = id :: world.committed := by
  unfold publish
  dsimp only
  split
  · exact .inl ⟨rfl, rfl⟩
  · split
    · exact .inr rfl
    · exact .inl ⟨rfl, rfl⟩

theorem committed_subset_happened (event : HistoryEvent)
    : world.committed ⊆ (world.happened roots limits lower event).committed := by
  cases event with
  | commit id unchanged =>
      unfold Histories.happened
      dsimp only
      split
      · obtain ⟨_, same⟩ | grown := publish_cases ..
        · exact same ▸ List.Subset.refl _
        · exact grown ▸ List.subset_cons_self ..
      · exact List.Subset.refl _
  | _ =>
      simp only [Histories.happened, Histories.tryLock, Histories.makeFolder, cloneMutex,
        dropMutex, held, Histories.setPhase]
      repeat' split
      all_goals exact List.Subset.refl _

theorem committed_subset_after (events : List HistoryEvent)
    : world.committed ⊆ (world.after roots limits lower events).committed := by
  induction events generalizing world with
  | nil => exact List.Subset.refl _
  | cons event rest ih => exact List.Subset.trans (committed_subset_happened event) ih

theorem disk_happened_upload {event : HistoryEvent} {id : ℕ}
    (step : event.uploadStep = some id)
    : (world.happened roots limits lower event).disk = world.disk
      ∨ id ∈ (world.happened roots limits lower event).committed := by
  cases event with
  | lockOther | beginDelete | beginPut | makeHistory | makeFolder | removeEntry => cases step
  | commit other unchanged =>
      obtain rfl := Option.some.inj step
      unfold Histories.happened
      dsimp only
      split
      · obtain ⟨same, _⟩ | grown := publish_cases ..
        · exact .inl same
        · exact .inr (grown ▸ List.mem_cons_self)
      · exact .inl rfl
  | _ =>
      left
      simp only [Histories.happened, cloneMutex, dropMutex, held, Histories.setPhase]
      repeat' split
      all_goals rfl

-- The quota

/-- From any stored histories within the limits, after any steps of any requests: every
account's history and every file in it are within the limits, at most one upload per account is
past its guard, and no step of an upload that is refused changes what is stored. -/
theorem history_quota (roots : Roots) (limits : HistoryLimits) (lower : String → String)
    {disk : OrderedMap OsPath Stored} (stock : Stock roots limits disk)
    (events : List HistoryEvent)
    : (∀ base, roots.IsBase base
        → usage ((start disk).after roots limits lower events).disk base
            ≤ limits.maxTotalBytes
          ∧ ∀ path size, inHistory base path = true
            → ((start disk).after roots limits lower events).disk.get? path
              = some (.file size)
            → size ≤ limits.maxFileBytes)
      ∧ (∀ id other phase phase' put put' mutex mutex',
        ((start disk).after roots limits lower events).requests.get? id = some phase
        → ((start disk).after roots limits lower events).requests.get? other = some phase'
        → phase.inside = some (put, mutex) → phase'.inside = some (put', mutex')
        → put.base = put'.base → id = other)
      ∧ ∀ earlier event later id, events = earlier ++ event :: later
        → event.uploadStep = some id
        → id ∈ ((start disk).after roots limits lower events).refused.map Prod.fst
        → ((start disk).after roots limits lower (earlier ++ [event])).disk
          = ((start disk).after roots limits lower earlier).disk := by
  have started : Kept roots limits lower (start disk) := .start stock
  have kept := started.after events
  refine ⟨?_, ?_, ?_⟩
  · intro base ofBase
    exact ⟨kept.stock.total ofBase, fun path size inside => kept.stock.files ofBase inside⟩
  · intro id other phase phase' put put' mutex mutex' found found' inside inside' same
    have mine := kept.handles found (Phase.handle_of_inside inside)
    have theirs := kept.handles found' (Phase.handle_of_inside inside')
    rw [same, theirs] at mine
    obtain rfl := Option.some.inj mine
    exact kept.alone found found' inside inside'
  · intro earlier event later id run step refused
    rw [after_append]
    generalize reached : (start disk).after roots limits lower earlier = before
    have final : (start disk).after roots limits lower events
        = (before.happened roots limits lower event).after roots limits lower later := by
      rw [run, after_append, reached]
      rfl
    rw [final] at refused kept
    have cases : (before.happened roots limits lower event).disk = before.disk
        ∨ id ∈ (before.happened roots limits lower event).committed :=
      disk_happened_upload step
    refine cases.resolve_right (fun published => ?_)
    exact kept.parted (committed_subset_after later published) refused

def twoUploads : List HistoryEvent := [
  .makeHistory ⟨"ann", false⟩,
  .beginPut ⟨"ann", false⟩ ["users", "ann", "history", "a"] (some 5),
  .clone 0, .enter 0, .look 0 0, .measure 0, .stage 0, .chunk 0 5, .commit 0 false, .leave 0,
  .unlock 0,
  .beginPut ⟨"ann", false⟩ ["users", "ann", "history", "b"] none,
  .clone 1, .enter 1, .look 1 0, .measure 1, .visit 1, .stage 1, .chunk 1 6]

def twoRoots : Roots where
  library := ["library"]
  users := ["users"]
  plain := by simp [PlainName]
  usersOutside := by simp
  libraryOutside := by simp

theorem history_quota_two
    : usage ((start .empty).after twoRoots ⟨10, 8⟩ Text.asciiLower twoUploads).disk
          ["users", "ann"] = 5
      ∧ usage ((start .empty).after twoRoots ⟨10, 8⟩ Text.asciiLower twoUploads).disk
          ["users", "ann"] ≤ 8
      ∧ ((start .empty).after twoRoots ⟨10, 8⟩ Text.asciiLower twoUploads).refused.map Prod.fst
        = [1]
      ∧ ((start .empty).after twoRoots ⟨10, 8⟩ Text.asciiLower twoUploads).disk
        = ((start .empty).after twoRoots ⟨10, 8⟩ Text.asciiLower twoUploads.dropLast).disk := by
  have stock : Stock twoRoots ⟨10, 8⟩ .empty := {
    nested := nofun
    total := fun _ => Nat.zero_le _
    files := nofun
  }
  have facts := history_quota twoRoots ⟨10, 8⟩ Text.asciiLower stock twoUploads
  have refused : ((start .empty).after twoRoots ⟨10, 8⟩ Text.asciiLower twoUploads).refused.map
      Prod.fst = [1] := by decide +kernel
  refine ⟨by decide +kernel, ?_, refused, ?_⟩
  · exact (facts.1 _ ⟨⟨"ann", false⟩, by decide +kernel⟩).1
  · exact facts.2.2 twoUploads.dropLast (.chunk 1 6) [] 1 rfl rfl (by rw [refused]; simp)

end Histories

end MokuroBunko.Dav
