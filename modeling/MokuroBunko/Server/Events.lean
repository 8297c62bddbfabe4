import MokuroBunko.Server.Claim

/-! What comes in: the events of processors, the results of helper threads, changes of the
library and the timer.
-/

namespace MokuroBunko.Server

open MokuroBunko.Lib MokuroBunko.Data MokuroBunko.Sched

/-- What a session says, without its measurements. -/
inductive Report where
  | ready
  /-- `fatal` and `spawn_failed`. -/
  | fatal (error : String)
  | exit (returncode : Option ℤ)
  | fetch (claim : ClaimId) (state : String)
  | volumeStarted (claim : ClaimId)
  /-- `page` and `stats`. -/
  | progress
  | volumeReturned (claim : ClaimId) (klass error : String)
  | volumeDone (claim : ClaimId)
  | volumeFailed (claim : ClaimId) (error : String)

/-- `Event`: a frame from a processor. -/
inductive Event where
  | ping
  | catalog (engines : List String)
  | availability (availability : Availability)
  | released (claims : List ClaimId)
  | updateStatus
  | bench (bid : ℕ) (event : BenchEvent)
  | session (sid : Sid) (report : Report)

/-- `Outcome`: what became of a collected result. -/
inductive Outcome where
  | installed
  | failed (error : String)
  | discarded
  | busy

/-- What left the library. -/
inductive Removed where
  | everything
  | archive (rel : String)
  | folder (rel : String)

/-- Whether a removal takes the archive with it. -/
def Removed.takes : Removed → String → Bool
  | .everything, _ => true
  | .archive rel, other => other = rel
  | .folder rel, other => (rel.toList ++ ['/']).isPrefixOf other.toList

/-- `_session_exit_error`. -/
def sessionExitError (session : Session) (returncode : Option ℤ) : Option String :=
  let code := returncode.filter (· ≠ 0)
  if session.order = [] ∧ code = none then none
  else
    let status := (code.map (fun code => " with status " ++ toString code)).getD ""
    let detail :=
      match session.fatalError.filter (· ≠ "") with
      | some error => ": " ++ error
      | none => " before its volumes were finished"
    some ("the " ++ session.row.name ++ " runner exited" ++ status ++ detail)

namespace Scheduler

variable (s : Scheduler) (env : Env)

/-- A change of the claim of a job. -/
def changeClaim (job : Job) (change : Claimed → Claimed) : Scheduler :=
  { s with claims := s.claims.modify job change }

-- Results and returned claims

/-- A helper thread takes a claim over. -/
def handOver (job : Job) (task : Task) : Scheduler :=
  { s.changeClaim job (fun claim => { claim with settling := true }) with
    tasks := s.tasks ++ [task] }

/-- `collect`: hand a result to a helper thread, unless the claim is another's by now. -/
def collect (sid : Sid) (claim : ClaimId) (entry : SessionJob) : Scheduler :=
  if (s.claims.get? entry.job).any (fun claimed =>
      decide (claimed.sid = some sid ∧ claimed.claim = some claim)) then
    s.handOver entry.job (.collect entry.job)
  else s

/-- `collected`: a helper thread installed a result, or refused it. -/
def collected (job : Job) (outcome : Outcome) : Scheduler :=
  let ended := { s with tasks := s.tasks.erase (.collect job) }
  match outcome with
  | .installed => ended.finish env job none
  | .failed error => ended.finish env job (some error)
  | .discarded | .busy => ended.release job true

/-- `count_return`. -/
def countReturn (job : Job) (context : ReturnContext) : Scheduler :=
  let (breaker, noted) := ((s.breakers.get? context.pid).getD {}).noteReturn context.klass
    context.error env.now
  let counted := returnCountsForJob noted.jobCounted context.klass
  let returns := JobReturns.note (s.downloadReturns.get? job) context.stamp context.klass
    context.error context.machine counted env.now
  let broken := { s with
    breakers := s.breakers.insert context.pid breaker
    downloadReturns := s.downloadReturns.erase job
  }
  let broken := if noted.opened.isSome then broken.bump else broken
  if counted ∧ DOWNLOAD_RETURN_LIMIT ≤ returns.count then
    broken.finish env job (some (returns.failureSummary context.klass context.error))
  else
    { broken with
      downloadReturns := broken.downloadReturns.insert job returns
      returnedBy :=
        if context.isLocal then broken.returnedBy
        else broken.returnedBy.insert job
          (insert context.pid ((broken.returnedBy.get? job).getD ∅))
    }.release job true

/-- `own_copy_read`. -/
def ownCopyRead (job : Job) (context : ReturnContext) (error : Option String) : Scheduler :=
  let ended := { s with tasks := s.tasks.erase (.readOwnCopy job context) }
  let taken := ended.changeClaim job (fun claim => { claim with settling := false })
  match error with
  | some error =>
      taken.finish env job
        (some ("the library cannot read its own copy of this archive: " ++ error))
  | none => taken.countReturn env job context

/-- `_judge_returned`, for a processor that is registered. -/
def judgeReturned (pid : Pid) (machine : Machine) (entry : SessionJob) (klass error : String)
    : Scheduler :=
  let klass := if klass = "" then "local" else truncateChars klass 40
  let context : ReturnContext := {
    pid := pid
    machine := machine.name
    isLocal := machine.isLocal
    klass := klass
    error := truncateChars error 300
    stamp := env.stampOf entry.job
  }
  let judged :=
    if klass = "stalled" ∨ klass = "differs" then
      s.handOver entry.job (.readOwnCopy entry.job context)
    else s.countReturn env entry.job context
  if s.stopping then s.release entry.job false
  else
    match env.archiveMeta entry.job with
    | .gone => s.release entry.job false
    | .unreadable => judged
    | .size bytes =>
        if entry.archiveSize.any (· ≠ bytes) then s.release entry.job true else judged

/-- `_download_delivered`: the processor has the verified archive. -/
def downloadDelivered (pid : Pid) (job : Job) : Scheduler :=
  let (breaker, reopened) := ((s.breakers.get? pid).getD {}).noteDelivered
  let delivered := { s.changeClaim job (fun claim => { claim with stamp := env.stampOf job }) with
    downloadReturns := s.downloadReturns.erase job
    breakers := s.breakers.insert pid breaker
  }
  if reopened then delivered.bump else delivered

-- Events of a processor

/-- The runner of a session has the archive of a claim. -/
def deliver (sid : Sid) (claim : ClaimId) : Scheduler :=
  s.changeSession sid (fun session => { session with
    jobs := session.jobs.modify claim (fun entry => { entry with delivered := true })
  })

/-- `on_ready`. -/
def onReady (sid : Sid) (session : Session) : Scheduler :=
  let ready := s.changeSession sid (fun session => { session with readyAt := some env.now })
  { ready with startBackoff := ready.startBackoff.erase (session.row.id, session.machine) }

/-- `volume_done`. -/
def volumeDone (sid : Sid) (claim : ClaimId) (entry : SessionJob) : Scheduler :=
  (s.changeSession sid (fun session => { session with completed := session.completed + 1 })).collect
    sid claim entry

/-- `volume_failed`. -/
def volumeFailed (entry : SessionJob) (error : String) : Scheduler :=
  if s.stopping then s.release entry.job false
  else
    s.finish env entry.job
      (some (if error = "" then entry.row.name ++ " could not read this volume" else error))

/-- A report of an open session of a registered processor. -/
def onReport (pid : Pid) (machine : Machine) (sid : Sid) (session : Session) (report : Report)
    : Scheduler :=
  match report with
  | .ready => s.onReady env sid session
  | .fatal error =>
      s.changeSession sid (fun session => { session with fatalError := some error })
  | .exit returncode =>
      (s.changeSession sid (fun session =>
        { session with fatalError := sessionExitError session returncode })).endSession env sid false
  | .fetch claim state =>
      match session.jobs.get? claim with
      | none => s
      | some entry =>
          if state = "ready" then (s.deliver sid claim).downloadDelivered env pid entry.job else s
  | .volumeStarted claim => s.deliver sid claim
  | .progress => s
  | .volumeReturned claim klass error =>
      match s.popJob sid claim with
      | none => s
      | some (entry, popped) => popped.judgeReturned env pid machine entry klass error
  | .volumeDone claim =>
      match s.popJob sid claim with
      | none => s
      | some (entry, popped) => popped.volumeDone sid claim entry
  | .volumeFailed claim error =>
      match s.popJob sid claim with
      | none => s
      | some (entry, popped) => popped.volumeFailed env entry error

/-- `on_event`. -/
def onEvent (pid : Pid) (event : Event) : Scheduler :=
  let s := s.seen env pid
  match s.machines.get? pid with
  | none => s
  | some machine =>
      match event with
      | .ping | .updateStatus => s
      | .catalog engines => s.catalogChanged env pid engines
      | .availability availability => s.setAvailability env pid availability
      | .released claims => s.released pid claims
      | .bench bid event => s.benchEvent env pid bid event
      | .session sid report =>
          match s.sessions.get? sid with
          | none => s
          | some session =>
              if session.pid ≠ pid then s
              else
                (s.changeSession sid (fun session =>
                  { session with lastEvent := env.mono })).onReport env pid machine sid session report

/-- `result_stored`: a result under another name than its sidecar's ends the session. -/
def resultStored (pid : Pid) (sid : Sid) (claim : ClaimId) (name : String) : Scheduler :=
  let wanted := ((s.sessions.get? sid).filter (fun session => session.pid = pid)).bind
    (fun session => session.jobs.get? claim)
  match wanted with
  | none => s
  | some entry =>
      if entry.sidecarName = name then s
      else s.killSessionBlaming env sid ("a sidecar arrived as " ++ name)

-- The library

/-- The claimed jobs whose archive is gone or another file by now. -/
def staleJobs (gone : String → Bool) : List Job :=
  (s.claims.entries.filter (fun entry =>
    gone entry.1.rel && !entry.2.settling && decide (entry.2.stamp ≠ env.stampOf entry.1))).map
    Prod.fst

/-- A session is cancelled when all its claims are stale. -/
def cancelStaleSession (stale : List Job) (sid : Sid) : Scheduler :=
  match s.sessions.get? sid with
  | none => s
  | some session =>
      let held := session.jobs.values.map SessionJob.job
      if !held.isEmpty && held.all (· ∈ stale) then s.cancelSession env sid else s

/-- `cancel_stale_jobs`. -/
def cancelStaleJobs (gone : String → Bool) : Scheduler :=
  let stale := s.staleJobs env gone
  if stale = [] then s
  else s.sessions.keys.foldl (fun s sid => s.cancelStaleSession env stale sid) s

/-- `archive_arrived`: what the volume is owed now. -/
def archiveArrived (rel : String) (owed : Option OwedVolume) : Scheduler :=
  let cancelled := s.cancelStaleJobs env (· = rel)
  let volumes :=
    match owed with
    | some volume => cancelled.owed.insert rel volume
    | none => cancelled.owed.erase rel
  let arrived := { cancelled with owed := volumes }.bump
  if arrived.processingHold then arrived else (arrived.maybeStartScan env).wakeLanes

/-- `archive_removed`. -/
def archiveRemoved (removed : Removed) : Scheduler :=
  let cancelled := s.cancelStaleJobs env removed.takes
  { cancelled with owed := cancelled.owed.retain (fun rel _ => !removed.takes rel) }.bump

/-- `walked`: a walk under older settings is thrown away. -/
def walked (epoch : ℕ) (index : OrderedMap String OwedVolume) : Scheduler :=
  if epoch ≠ s.walkEpoch then s else { s with owed := index }.bump.maybeStartScan env

-- The timer

/-- The closing sessions that never said `exit`. -/
def overdueSessions : List Sid :=
  (s.sessions.entries.filter (fun entry =>
    entry.2.closing && CLOSE_GRACE_SECONDS < env.mono - entry.2.closingSince)).map Prod.fst

/-- The sessions that sent no event for too long. -/
def wedgedSessions : List Sid :=
  (s.sessions.entries.filter (fun entry =>
    !entry.2.closing && SESSION_WEDGE_SECONDS < env.mono - entry.2.lastEvent)).map Prod.fst

/-- A wedged session ends, a silent processor leaves. -/
def endWedged (sid : Sid) : Scheduler :=
  match s.sessions.get? sid with
  | none => s
  | some session =>
      let silent := (s.machines.get? session.pid).all (fun machine =>
        SILENCE_SECONDS < env.mono - machine.lastFrame)
      if !session.isLocal && silent then s.dropProcessor env session.pid
      else s.killSessionBlaming env sid
        ("the " ++ session.row.name ++ " runner stopped responding (no event for 600s)")

/-- `check_sessions`. -/
def checkSessions : Scheduler :=
  let closed := (s.overdueSessions env).foldl (fun s sid => s.killSession env sid none) s
  (s.wedgedSessions env).foldl (fun s sid => s.endWedged env sid) closed

/-- `tick`. -/
def tick : Scheduler :=
  if s.stopping then s
  else
    let checked := s.checkSessions env
    let polled :=
      if checked.lastPollTick.all (fun last =>
          checked.settings.pollInterval ≤ env.mono - last) then
        { checked with lastPollTick := some env.mono }.benchTick env
      else checked
    { polled with lanes := polled.lanes.map (fun lane =>
        if lane.waitingForFaster then { lane with idleAt := none } else lane) }

end Scheduler

end MokuroBunko.Server
