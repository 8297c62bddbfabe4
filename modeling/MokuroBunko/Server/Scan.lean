import MokuroBunko.Sched.Eligibility
import MokuroBunko.Server.State

/-! Lanes and scans: how many lanes each machine contributes, the queue of jobs that may
run, and when a scan of the queue begins and ends.
-/

namespace MokuroBunko.Server

open MokuroBunko.Lib MokuroBunko.Data MokuroBunko.Sched

-- Lanes

/-- The lanes a machine's settings ask for, if it may work at all. -/
def Settings.lanesAsked (settings : Settings) (machine : Machine) : Option ℕ :=
  if !machine.connected || machine.installing || machine.pause.isSome then none
  else if machine.isLocal then
    if settings.localProcessing then some (max settings.concurrency 1) else none
  else some (max machine.maxSessions 1)

/-- Busy lanes stay even beyond the count. -/
def keepLane (count : ℕ) (kept : List Lane) (lane : Lane) : List Lane :=
  if kept.length < count ∨ lane.session.isSome then kept ++ [lane] else kept

/-- Busy lanes first, older ones before newer ones. -/
def laneBefore (a b : Lane) : Prop :=
  toLex (a.session.isNone, a.id) ≤ toLex (b.session.isNone, b.id)

instance : DecidableRel laneBefore := fun a b => by
  unfold laneBefore
  infer_instance

/-- New lanes of a machine, the first under the id `next`. -/
def newLanes (pid : Pid) (next count : ℕ) : List Lane :=
  (List.range count).map (fun place => { id := next + place, pid := pid })

/-- The lanes one machine contributes: those it keeps and new ones up to its count. -/
def machineLanes (old : List Lane) (lanes : List Lane × ℕ) (wanted : Pid × ℕ)
    : List Lane × ℕ :=
  let mine := (old.filter (fun lane => lane.pid = wanted.1)).insertionSort laneBefore
  let kept := mine.foldl (keepLane wanted.2) []
  let added := newLanes wanted.1 lanes.2 (wanted.2 - kept.length)
  (lanes.1 ++ (kept ++ added).insertionSort (fun a b => a.id ≤ b.id), lanes.2 + added.length)

/-- A lane of a machine no longer wanted runs its session out. -/
def keepBusyLane (lanes : List Lane) (lane : Lane) : List Lane :=
  if lane.session.isSome ∧ ∀ other ∈ lanes, other.id ≠ lane.id then lanes ++ [lane] else lanes

namespace Scheduler

variable (s : Scheduler) (env : Env)

/-- `wanted_lanes`. -/
def wantedLanes : List (Pid × ℕ) :=
  s.machines.entries.filterMap (fun entry =>
    (s.settings.lanesAsked entry.2).map (fun count => (entry.1, count)))

/-- `rebuild_lanes`. -/
def rebuildLanes : Scheduler :=
  let rebuilt := s.wantedLanes.foldl (machineLanes s.lanes) ([], s.nextLaneId)
  { s with lanes := s.lanes.foldl keepBusyLane rebuilt.1, nextLaneId := rebuilt.2 }

-- The queue

/-- `prune_failures`. -/
def pruneFailures : Scheduler :=
  { s with failures := s.failures.filter (fun entry =>
      entry.2.asObject?.any (fun record =>
        keepRecord record (s.settings.rows.map Generation.name) env.archiveExists)) }

/-- `rank`: each row's place among the enabled rows. -/
def rank : OrderedMap String ℕ :=
  (enabledGenerations s.settings.rows).zipIdx.foldl
    (fun (ranks : OrderedMap String ℕ) row => ranks.insert row.1.id row.2) .empty

/-- The jobs one volume is owed. -/
def owedJobs (rel : String) (volume : OwedVolume) : List Job :=
  let upgrades :=
    match primaryGeneration s.settings.rows with
    | some primary =>
        if volume.upgrade ∧ primary.id ∉ volume.rows then [⟨rel, primary.id, true⟩] else []
    | none => []
  volume.rows.map (fun gid => ⟨rel, gid, false⟩) ++ upgrades

/-- The record of a job's last failure. -/
def failureOf (job : Job) (row : Generation) : Option Object :=
  recordOf s.failures (job.failureKeyOf row)

/-- What a job's failure record allows, if its row is live. -/
def standing (volume : OwedVolume) (job : Job) : Option Eligibility :=
  (s.row job.gid).map (fun row =>
    eligibilityIn (s.failureOf job row) (some volume.mtime) env.now s.settings.pollInterval
      ⟨env.libraryVersion, s.machines.keys.map (s.releaseOf env)⟩)

/-- The owed jobs and what their records allow, volume by volume. -/
def standings : List (Job × Eligibility) :=
  s.owed.entries.flatMap (fun entry =>
    (s.owedJobs entry.1 entry.2).filterMap (fun job =>
      (s.standing env entry.2 job).map (fun standing => (job, standing))))

/-- The records a replaced archive made void. -/
def staleRecords : List String :=
  (s.standings env).filterMap (fun job =>
    if job.2 = .replaced then (s.row job.1.gid).map job.1.failureKeyOf else none)

/-- `candidates`, with stale records reset: the jobs that may run, in processing order. -/
def candidates (exclude : Job → Bool) : List Job × Scheduler :=
  let open_ := (s.standings env).filter (fun job =>
    job.2 ≠ .backedOff && job.2 ≠ .parked && !exclude job.1)
  let failures := (s.staleRecords env).foldl Object.remove s.failures
  let ranks := s.rank.insert Job.UPGRADE_ORDER_KEY s.rank.entries.length
  (orderJobs env.unicode (open_.map Prod.fst) ranks Job.key s.lastServed,
    { s with failures := failures })

/-- `forget_candidate`. -/
def forgetCandidate (job : Job) : Scheduler :=
  match s.owed.get? job.rel with
  | none => s
  | some volume =>
      let volume :=
        if job.upgrade then { volume with upgrade := false }
        else { volume with rows := volume.rows.filter (· ≠ job.gid) }
      if volume.rows = [] ∧ !volume.upgrade ∧ volume.skipped = [] then
        { s with owed := s.owed.erase job.rel }
      else { s with owed := s.owed.insert job.rel volume }

/-- `known_pages`. -/
def knownPages (rel : String) : Option ℤ :=
  match (s.owed.get? rel).bind OwedVolume.pages with
  | some pages => some pages
  | none => env.pageCount rel

-- Scans

/-- `processing_hold().is_some()`: nothing can run OCR. -/
def processingHold : Bool :=
  !(s.settings.localProcessing && (s.machines.get? .own).any Machine.connected)
    && !s.machines.values.any (fun machine => !machine.isLocal && machine.connected)

/-- `every_machine_held`: some machine may work, and each such machine is held. -/
def everyMachineHeld : Bool :=
  let working := s.machines.entries.filter (fun entry =>
    entry.2.connected && (!entry.2.isLocal || s.settings.localProcessing))
  !working.isEmpty && working.all (fun entry =>
    s.held entry.2.name || entry.2.pause.isSome
      || (!entry.2.isLocal && s.breakerOpen env entry.1))

/-- The per-scan state is reset once per poll interval. -/
def resetScan : Scheduler :=
  if s.scanResetAt.all (fun last => s.settings.pollInterval ≤ env.now - last) then { s with
    scanResetAt := some env.now
    stopped := ∅
    strikes := .empty
    autobench := { s.autobench with asked := ∅ }
  }
  else s

/-- `start_scan`. -/
def startScan : Scheduler :=
  let pruned := s.pruneFailures env
  let opened := { pruned with attempted := ∅, returnedBy := .empty }
  let reset := (opened.resetScan env).bump
  let offered := (reset.candidates env (fun _ => false)).2
  { offered with scanActive := true }.wakeLanes

/-- `maybe_start_scan`. -/
def maybeStartScan : Scheduler :=
  if s.scanActive || s.stopping || s.processingHold || s.everyMachineHeld env then s
  else s.startScan env

/-- `maybe_end_scan`: nothing is in flight and every lane found nothing. -/
def maybeEndScan : Scheduler :=
  if s.scanActive && s.claims.isEmpty && s.autobench.inflight = ∅
      && !s.holds.values.any (0 < ·)
      && !s.lanes.any (fun lane =>
        lane.waitingForFaster || lane.session.isSome || lane.idleAt ≠ some s.queueGeneration) then
    { s with scanActive := false, attempted := ∅, returnedBy := .empty }.bump
  else s

end Scheduler

end MokuroBunko.Server
