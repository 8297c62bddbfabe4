import MokuroBunko.Server.Scan

/-! Claims and sessions: what settles a claim, how a session takes a volume, and what the
end of a session does with the volumes it still holds.
-/

namespace MokuroBunko.Server

open MokuroBunko.Lib MokuroBunko.Data MokuroBunko.Sched

/-- `precision_refused`. -/
def precisionRefused (error : Option String) : Bool :=
  error.any (fun error => Text.contains error PRECISION_REFUSAL)

/-- A change of the lane with this id. -/
def changeLane (id : ℕ) (change : Lane → Lane) (lanes : List Lane) : List Lane :=
  lanes.map (fun lane => if lane.id = id then change lane else lane)

namespace Scheduler

variable (s : Scheduler) (env : Env)

-- Settling a claim

/-- `record_failure`. -/
def recordFailure (job : Job) (row : Generation) (error : Option String) (release : String)
    : Scheduler :=
  let failure : NewFailure := {
    series := job.series
    volume := job.volume
    generation := row.name
    engine := row.engine
    detector := some row.effectiveDetector
    error := error
    logFile := none
  }
  { s with failures :=
      recordStamped s.failures (job.failureKeyOf row) failure env.now env.libraryVersion release }

/-- What the outcome of a claim records: a success forgets the job's failure, a failure is
recorded unless the claim was cancelled, its processor left or its row was removed.
-/
def recordOutcome (claim : Claimed) (job : Job) (unblamed : Bool) (failure : Option String)
    : Scheduler :=
  match failure with
  | none =>
      let known := s.forgetCandidate job
      { known with failures := Object.remove known.failures (job.failureKeyOf claim.row) }
  | some error =>
      if unblamed then s
      else if s.settings.rows.any (fun row => row.id = claim.row.id) then
        s.recordFailure env job claim.row (some error) (s.releaseOf env claim.pid)
      else s

/-- `finish`: the claim's outcome, a failure carries its error. -/
def finish (job : Job) (failure : Option String) : Scheduler :=
  match s.claims.get? job with
  | none => s
  | some claim =>
      let returned := failure.isSome && !s.machines.contains claim.pid
      let cancelled := decide (job ∈ s.cancelled)
      let unblamed := returned || cancelled
      let settled := { s with
        claims := s.claims.erase job
        cancelled := s.cancelled.erase job
        downloadReturns := if unblamed then s.downloadReturns else s.downloadReturns.erase job
      }
      let recorded := settled.recordOutcome env claim job unblamed failure
      { recorded with
        attempted := if returned then recorded.attempted.erase job else recorded.attempted
      }.bump

/-- `release`: give the claim back, recording nothing. -/
def release (job : Job) (retryThisScan : Bool) : Scheduler :=
  match s.claims.get? job with
  | none => s
  | some _ =>
      { s with
        claims := s.claims.erase job
        cancelled := s.cancelled.erase job
        attempted := if retryThisScan then s.attempted.erase job else s.attempted
      }.bump

/-- `strike`: two sessions in a row with nothing finished stop the row for this scan. -/
def strike (row : Generation) (machine : String) : Scheduler :=
  let key := (row.id, machine)
  let count := (s.strikes.get? key).getD 0 + 1
  let struck := { s with strikes := s.strikes.insert key count }
  if SESSION_CRASH_LIMIT ≤ count then
    { struck with stopped := insert key struck.stopped }.bump
  else struck

/-- `note_start_failure`. -/
def noteStartFailure (pid : Pid) (row : Generation) (machine error : String) : Scheduler :=
  let key := (row.id, machine)
  let backoff := StartBackoff.noteFailure (s.startBackoff.get? key) (env.startSignature pid row)
    error row.name s.settings.pollInterval env.now
  { s with startBackoff := s.startBackoff.insert key backoff }

-- The end of a session

/-- A session that never became ready, and that nobody ended, failed to start. -/
def noteEndedStart (session : Session) (unblamed : Bool) : Scheduler :=
  match session.fatalError with
  | some error =>
      if session.readyAt.isNone && !unblamed then
        s.noteStartFailure env session.pid session.row session.machine error
      else s
  | none => s

/-- One volume an ended session still held: the oldest one may be blamed. -/
def settleHeld (session : Session) (oldest : Option ClaimId) (error : String) (claim : ClaimId)
    : Scheduler :=
  match session.jobs.get? claim with
  | none => s
  | some entry =>
      if some claim = oldest then s.finish env entry.job (some error)
      else s.release entry.job true

/-- `end_session`: settle whatever was still in flight. -/
def endSession (sid : Sid) (killed : Bool) : Scheduler :=
  match s.sessions.get? sid with
  | none => s
  | some session =>
      let left := !s.machines.contains session.pid
      let paused := s.machinePaused session.pid
      let cancelled := session.jobs.values.any (fun entry => decide (entry.job ∈ s.cancelled))
      let closed := { s with
        sessions := s.sessions.erase sid
        lanes := changeLane session.lane (fun lane => { lane with session := none, idleAt := none })
          s.lanes
      }
      let noted := closed.noteEndedStart env session
        (killed || left || paused || cancelled || s.stopping)
      let rebuilt := noted.rebuildLanes.bump
      if session.order = [] then
        if session.fatalError.isSome && session.completed == 0 && !left && !paused && !killed then
          rebuilt.strike session.row session.machine
        else rebuilt
      else
        let error := session.fatalError.getD
          ("the " ++ session.row.name ++ " runner ended before it finished this volume")
        let blames := !s.stopping && !left && !paused
        let environment := (!session.isLocal && session.readyAt.isNone)
          || precisionRefused session.fatalError
        let oldest := session.order.head?.filter (fun claim =>
          blames && !environment && (session.jobs.get? claim).any SessionJob.delivered)
        let settled := session.order.foldl
          (fun s claim => s.settleHeld env session oldest error claim) rebuilt
        if !blames || cancelled || killed then settled
        else if session.completed = 0 then settled.strike session.row session.machine
        else { settled with strikes := settled.strikes.erase (session.row.id, session.machine) }

/-- A change of an open session. -/
def changeSession (sid : Sid) (change : Session → Session) : Scheduler :=
  { s with sessions := s.sessions.modify sid change }

/-- `kill_session`: cancel every claim of a session; it ends now. -/
def killSession (sid : Sid) (fatalError : Option String) : Scheduler :=
  (s.changeSession sid (fun session =>
    { session with fatalError := fatalError.or session.fatalError })).endSession env sid true

/-- `kill_session_blaming`: killed, and judged like a crash. -/
def killSessionBlaming (sid : Sid) (error : String) : Scheduler :=
  (s.changeSession sid (fun session =>
    { session with fatalError := some error })).endSession env sid false

/-- `close_session`: finish what was accepted, then `exit`. -/
def closeSession (sid : Sid) : Scheduler :=
  match s.sessions.get? sid with
  | none => s
  | some session =>
      if session.closing then s
      else
        let closing := s.changeSession sid (fun session =>
          { session with closing := true, closingSince := env.mono })
        if closing.sends env session.pid (.closeSession sid) then closing
        else closing.endSession env sid false

-- Volumes of a session

/-- `pop_job`. -/
def popJob (sid : Sid) (claim : ClaimId) : Option (SessionJob × Scheduler) := do
  let session ← s.sessions.get? sid
  let entry ← session.jobs.get? claim
  return (entry, s.changeSession sid (fun session => { session with
    jobs := session.jobs.erase claim
    order := session.order.filter (· ≠ claim)
  }))

/-- `submit`: send one claim. False when the runner refused it. -/
def submit (sid : Sid) (job : Job) : Bool × Scheduler :=
  match s.sessions.get? sid with
  | none => (false, s)
  | some session =>
      let row := (s.row job.gid).getD session.row
      let claim := s.claimSeq + 1
      let numbered := { s with claimSeq := claim }
      if numbered.sends env session.pid (.volume sid claim) then
        let stamp := env.stampOf job
        let entry : SessionJob := {
          job := job
          row := row
          delivered := session.isLocal
          archiveSize := stamp.map Prod.fst
          sidecarName := job.volume ++ row.sidecarSuffix
        }
        let owned := { numbered with
          claims := numbered.claims.modify job (fun claimed => { claimed with
            sid := some sid
            claim := some claim
            stamp := if session.isLocal then stamp else claimed.stamp
          })
        }
        (true, owned.changeSession sid (fun session => { session with
          order := session.order ++ [claim]
          jobs := session.jobs.insert claim entry
        }))
      else (false, numbered.release job true)

/-- `fail_session_start`: the session could not even be asked to open. -/
def failSessionStart (pid : Pid) (row : Generation) (job : Job) (error : String) : Scheduler :=
  match s.machines.get? pid with
  | none => s.release job true
  | some machine =>
      let noted := s.noteStartFailure env pid row machine.name error
      let precision := precisionRefused (some error)
      if !machine.isLocal || precision then
        let released := noted.release job true
        if precision then released else released.strike row machine.name
      else noted.finish env job (some error)

/-- Why a session takes nothing more. -/
def refusedVolume (session : Session) : Session :=
  { session with draining := some "the runner stopped accepting volumes" }

/-- `open_session`: open a session on a lane for the job it just claimed. -/
def openSession (laneId : ℕ) (job : Job) : Scheduler :=
  match s.claims.get? job with
  | none => s
  | some claimed =>
      match s.machines.get? claimed.pid with
      | none => s
      | some machine =>
          let sid := s.nextSid
          let drawn := { s with nextSid := sid + 1 }
          if drawn.sends env claimed.pid (.openSession sid) then
            let session : Session := {
              pid := claimed.pid
              machine := machine.name
              isLocal := machine.isLocal
              lane := laneId
              row := claimed.row
              lastEvent := env.mono
            }
            let opened := { drawn with
              sessions := drawn.sessions.insert sid session
              lanes := changeLane laneId (fun lane => { lane with session := some sid }) drawn.lanes
            }
            let (taken, submitted) := opened.submit env sid job
            if taken then submitted else submitted.changeSession sid refusedVolume
          else
            drawn.failSessionStart env claimed.pid claimed.row job (machine.name ++ " disconnected")

end Scheduler

end MokuroBunko.Server
