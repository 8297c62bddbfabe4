import MokuroBunko.Server.Runs

/-! Who holds what after any run: every held volume has one owner and every claim somebody
who settles it; lanes and sessions are in bijection.
-/

namespace MokuroBunko.Server

open MokuroBunko.Lib MokuroBunko.Data MokuroBunko.Sched

namespace Scheduler

variable {s : Scheduler}

-- A small run

def openWorld : Env where
  now := 0
  mono := 0
  libraryVersion := "1"
  unicode := {
    nfkc := id
    casefold := fun char => [char]
    isAlnum := Char.isAlphanum
    decimal := fun char => if char.isDigit then some (char.toNat - 48) else none
  }
  takes := fun _ _ => true
  stampOf := fun _ => some (1, 0)
  archiveMeta := fun _ => .size 1
  archiveExists := fun _ _ => true
  stillOwed := fun _ _ => true
  pageCount := fun _ => none
  hasArchive := true
  catalogRefuses := fun _ _ => false
  refuses := fun _ _ => false
  unmeasured := fun _ _ => none
  startSignature := fun _ _ => ""
  engineDevice := fun _ _ => "cpu"
  machineReads := fun _ _ => true
  card := fun _ => (none, none, none)
  rateFor := fun _ _ => none
  startupFor := fun _ _ => 0

def baseRow : Generation where
  id := "g"
  name := "base"
  engine := "hayai-nova"
  primary := true
  enabled := true
  detector := none
  patchBudget := 1
  precision := "auto"
  retired := none

/-- Settings with that row only. -/
def baseSettings : Settings where
  rows := [baseRow]
  pollInterval := 60
  localProcessing := true
  concurrency := 1
  autobench := false

def oneVolume : OrderedMap String OwedVolume :=
  OrderedMap.empty.insert "A/1.cbz" {
    mtime := 0
    rows := ["g"]
  }

/-- This server's own processor came up and the library was walked: it reads the volume. -/
def reading : Scheduler :=
  ((new baseSettings []).handle openWorld (.localUp ["hayai-nova"] "1")).handle openWorld
    (.walked 0 oneVolume)

theorem reading_reachable : Reachable reading := by
  have up : Reachable ((new baseSettings []).handle openWorld (.localUp ["hayai-nova"] "1")) :=
    (Reachable.start baseSettings []).handle openWorld trivial
  exact up.handle openWorld trivial

-- Who holds a volume

/-- A session holds a volume under a claim. -/
def HoldsJob (s : Scheduler) (sid : Sid) (claim : ClaimId) (job : Job) : Prop :=
  ∃ session entry, s.sessions.get? sid = some session ∧ session.jobs.get? claim = some entry
    ∧ entry.job = job

theorem holds_ledger {sid : Sid} {claim : ClaimId} {job : Job}
    : s.ledger.Holds sid claim job ↔ s.HoldsJob sid claim job := by
  constructor
  · intro ⟨holder, open_, held⟩
    obtain ⟨session, found, same⟩ := Option.map_eq_some_iff.mp open_
    subst same
    obtain ⟨entry, inJobs, ofJob⟩ := Option.map_eq_some_iff.mp held
    exact ⟨session, entry, found, inJobs, ofJob⟩
  · intro ⟨session, entry, found, inJobs, ofJob⟩
    refine ⟨session.holder, ?_, ?_⟩
    · exact Option.map_eq_some_iff.mpr ⟨session, found, rfl⟩
    · exact Option.map_eq_some_iff.mpr ⟨entry, inJobs, ofJob⟩

theorem HoldsJob.claimed {sid : Sid} {claim : ClaimId} {job : Job} (coherent : s.Coherent)
    (holds : s.HoldsJob sid claim job)
    : ∃ claimed, s.claims.get? job = some claimed ∧ claimed.sid = some sid
      ∧ claimed.claim = some claim ∧ claimed.settling = false := by
  obtain ⟨holder, open_, held⟩ := holds_ledger.mpr holds
  have leased := (coherent.sound.leased.held sid holder claim job open_ held).1
  obtain ⟨claimed, found, lease⟩ := Option.map_eq_some_iff.mp leased
  exact ⟨claimed, found, congrArg Lease.session lease, congrArg Lease.ticket lease,
    congrArg Lease.settling lease⟩

/-- After every run a held volume is held by one session under one claim, the one the claims
table names, and every claimed volume is held by the session of its claim or settled by a
helper thread.
-/
theorem held_jobs_have_one_owner (reachable : Reachable s)
    : (∀ sid claim job, s.HoldsJob sid claim job
        → (∃ claimed, s.claims.get? job = some claimed ∧ claimed.sid = some sid
            ∧ claimed.claim = some claim)
          ∧ ∀ sid' claim', s.HoldsJob sid' claim' job → sid' = sid ∧ claim' = claim)
      ∧ ∀ job claimed, s.claims.get? job = some claimed
        → (∃ sid claim, claimed.sid = some sid ∧ claimed.claim = some claim
            ∧ s.HoldsJob sid claim job)
          ∨ (claimed.settling = true ∧ ∃ task ∈ s.tasks, task.job = job) := by
  have coherent := reachable.coherent
  constructor
  · intro sid claim job holds
    obtain ⟨claimed, found, ofSession, ofClaim, -⟩ := holds.claimed coherent
    refine ⟨⟨claimed, found, ofSession, ofClaim⟩, ?_⟩
    intro sid' claim' holds'
    obtain ⟨claimed', found', ofSession', ofClaim', -⟩ := holds'.claimed coherent
    have same : claimed' = claimed := Option.some.inj (found'.symm.trans found)
    subst same
    exact ⟨Option.some.inj (ofSession'.symm.trans ofSession),
      Option.some.inj (ofClaim'.symm.trans ofClaim)⟩
  · intro job claimed found
    have lease : s.ledger.leases job = some claimed.lease :=
      Option.map_eq_some_iff.mpr ⟨claimed, found, rfl⟩
    cases settling : claimed.settling with
    | false =>
        have owner := coherent.sound.leased.owner job claimed.lease lease settling
        obtain ⟨sid, claim, ofSession, ofClaim, holds⟩ := owner.resolve_left nofun
        exact .inl ⟨sid, claim, ofSession, ofClaim, holds_ledger.mp holds⟩
    | true =>
        have settled := coherent.sound.leased.settled job claimed.lease lease settling
        obtain ⟨task, atWork, ofJob⟩ := List.mem_map.mp settled
        exact .inr ⟨rfl, task, atWork, ofJob⟩

/-- The volume being read has no second owner. -/
theorem read_volume_has_one_owner
    : (∃ claimed, reading.claims.get? ⟨"A/1.cbz", "g", false⟩ = some claimed
        ∧ claimed.sid = some 0 ∧ claimed.claim = some 1)
      ∧ ∀ sid claim, reading.HoldsJob sid claim ⟨"A/1.cbz", "g", false⟩ → sid = 0 ∧ claim = 1 := by
  have entry : (reading.sessions.get? 0).bind (fun session => session.jobs.get? 1)
      = some ⟨⟨"A/1.cbz", "g", false⟩, baseRow, true, some 1, "1.mokuro"⟩ := by
    decide +kernel
  obtain ⟨session, found, held⟩ := Option.bind_eq_some_iff.mp entry
  exact (held_jobs_have_one_owner reading_reachable).1 0 1 _ ⟨session, _, found, held, rfl⟩

-- Lanes and sessions

theorem Coherent.laneIds (coherent : s.Coherent)
    : (s.lanes.map Lane.id).Nodup := by
  have idsNodup : ((s.lanes.map Lane.slot).map Slot.id).Nodup :=
    coherent.sound.slotted.idsNodup
  rwa [map_slot_ids] at idsNodup

/-- After every run lane ids are distinct, every open session is the session of exactly one
lane and of its machine, no lane names a session that is not open, and rebuilding the lanes
keeps those with a session and gives every machine that may work the lanes it asks for.
-/
theorem lanes_and_sessions_match (reachable : Reachable s)
    : (s.lanes.map Lane.id).Nodup
      ∧ (∀ sid session, s.sessions.get? sid = some session
        → (∃ lane ∈ s.lanes, lane.session = some sid ∧ lane.pid = session.pid)
          ∧ ∀ lane ∈ s.lanes, ∀ other ∈ s.lanes, lane.session = some sid
            → other.session = some sid → lane = other)
      ∧ (∀ lane ∈ s.lanes, ∀ sid, lane.session = some sid → (s.sessions.get? sid).isSome)
      ∧ (∀ lane ∈ s.lanes, lane.session.isSome → ∃ kept ∈ s.rebuildLanes.lanes,
          kept.id = lane.id ∧ kept.pid = lane.pid ∧ kept.session = lane.session)
      ∧ ∀ pid machine count, s.machines.get? pid = some machine
        → s.settings.lanesAsked machine = some count
        → count ≤ s.rebuildLanes.lanes.countP (fun lane => lane.pid = pid) := by
  have coherent := reachable.coherent
  have slotted := coherent.sound.slotted
  -- a lane's session runs in its place
  have place : ∀ lane ∈ s.lanes, ∀ sid session, lane.session = some sid
      → s.sessions.get? sid = some session → session.lane = lane.id := by
    intro lane known sid session runs found
    obtain ⟨holder, open_, ofLane, -⟩ :=
      slotted.sessionOf lane.slot (List.mem_map.mpr ⟨lane, known, rfl⟩) sid runs
    have same : (s.sessions.get? sid).map Session.holder = some holder := open_
    rw [found] at same
    obtain rfl := Option.some.inj same
    exact ofLane
  refine ⟨coherent.laneIds, ?_, ?_, ?_, ?_⟩
  · intro sid session found
    have open_ : s.ledger.sessions sid = some session.holder :=
      Option.map_eq_some_iff.mpr ⟨session, found, rfl⟩
    constructor
    · obtain ⟨lane, known, ofLane⟩ := List.mem_map.mp (slotted.slotOf sid session.holder open_)
      exact ⟨lane, known, congrArg Slot.session ofLane, congrArg Slot.worker ofLane⟩
    · intro lane known other known' runs runs'
      apply List.inj_on_of_nodup_map coherent.laneIds known known'
      exact (place lane known sid session runs found).symm.trans
        (place other known' sid session runs' found)
  · intro lane known sid runs
    obtain ⟨holder, open_, -⟩ :=
      slotted.sessionOf lane.slot (List.mem_map.mpr ⟨lane, known, rfl⟩) sid runs
    obtain ⟨session, found, -⟩ := Option.map_eq_some_iff.mp open_
    exact Option.isSome_iff_exists.mpr ⟨session, found⟩
  · intro lane known runs
    have kept := (layout_rebuildLanes slotted).kept lane.slot
      (List.mem_map.mpr ⟨lane, known, rfl⟩) runs
    obtain ⟨other, known', same⟩ := List.mem_map.mp kept
    exact ⟨other, known', congrArg Slot.id same, congrArg Slot.worker same,
      congrArg Slot.session same⟩
  · intro pid machine count found asked
    exact rebuildLanes_enough slotted found asked

/-- The session that reads the volume runs on one lane. -/
theorem read_volume_runs_on_one_lane
    : (reading.lanes.map Lane.id).Nodup
      ∧ (∃ lane ∈ reading.lanes, lane.session = some 0 ∧ lane.pid = .own)
      ∧ 1 ≤ reading.rebuildLanes.lanes.countP (fun lane => lane.pid = .own) := by
  have ofSession : (reading.sessions.get? 0).map Session.pid = some .own := by decide +kernel
  have asked : (reading.machines.get? .own).bind reading.settings.lanesAsked = some 1 := by
    decide +kernel
  obtain ⟨session, found, ofPid⟩ := Option.map_eq_some_iff.mp ofSession
  obtain ⟨machine, known, count⟩ := Option.bind_eq_some_iff.mp asked
  obtain ⟨nodup, sessions, -, -, enough⟩ := lanes_and_sessions_match reading_reachable
  obtain ⟨lane, inLanes, runs, same⟩ := (sessions 0 session found).1
  exact ⟨nodup, ⟨lane, inLanes, runs, same.trans ofPid⟩, enough .own machine 1 known count⟩

end Scheduler

end MokuroBunko.Server
