import MokuroBunko.Server.Registry

/-! A lane asks for work: which rows its machine may run, which volumes are left to faster
lanes and to warm sessions, and the volume it is given.
-/

namespace MokuroBunko.Server

open MokuroBunko.Lib MokuroBunko.Data MokuroBunko.Sched

/-- `EftOutcome`: the volume booked on the asking lane, and those to pass over. -/
structure EftOutcome where
  mine : Option Job := none
  skip : List Job := []

/-- What a claim found out before it takes a volume. -/
structure Survey where
  proposed : List Job
  offered : List String
  unmeasured : List String
  backedOff : List String
  leftToWarm : List String
  eft : EftOutcome

/-- What a claim answers: a volume, and whether an earlier row has work. -/
structure Answer where
  job : Option Job
  preempt : Bool
  state : Scheduler

namespace Scheduler

variable (s : Scheduler) (env : Env)

-- What a machine may run

/-- `refusal(pid, row).is_some()`. -/
def refuses (pid : Pid) (row : Generation) : Bool :=
  (s.machines.get? pid).any (fun machine => machine.installing || env.refuses pid row)

/-- `may_retry_on`. -/
def mayRetryOn (pid : Pid) (job : Job) : Bool :=
  match (s.row job.gid).bind (s.failureOf job) with
  | none => true
  | some record =>
      replacedSinceFailure ((s.owed.get? job.rel).map OwedVolume.mtime) record
        || machineMayRetry (some record) (s.releaseOf env pid) env.now s.settings.pollInterval
          env.libraryVersion

/-- `machine_takes`. -/
def machineTakes (pid : Pid) (job : Job) : Bool :=
  s.mayRetryOn env pid job && s.machines.contains pid && env.machineReads pid job

/-- How a row's last failed start on a machine stands, if it has one. -/
def backoffOf (pid : Pid) (machine gid : String) : Option BackoffState := do
  let backoff ← s.startBackoff.get? (gid, machine)
  let row ← s.row gid
  return backoffState backoff (env.startSignature pid row) env.now

/-- `_backed_off_rows`, with the entries a changed row made void dropped. -/
def backedOffRows (pid : Pid) (rows : List String) : List String × Scheduler :=
  match s.machines.get? pid with
  | none => ([], s)
  | some machine =>
      (rows.filter (fun gid => s.backoffOf env pid machine.name gid = some .waiting), { s with
        startBackoff := s.startBackoff.retain (fun key _ =>
          !(decide (key.2 = machine.name ∧ key.1 ∈ rows)
            && decide (s.backoffOf env pid machine.name key.1 = some .void)))
      })

/-- `want_autobench`. -/
def wantAutobench (pid : Pid) (row : Generation) : Scheduler :=
  match s.machines.get? pid with
  | none => s
  | some machine =>
      let key := (profileKey machine.name, row.id)
      if key ∈ s.autobench.asked ∨ key ∈ s.autobench.inflight then s
      else { s with autobench := { s.autobench with
        asked := insert key s.autobench.asked
        inflight := insert key s.autobench.inflight
        wanted := s.autobench.wanted ++ [key]
      } }

/-- Whether a job is held, or was taken in this scan. -/
def unavailable (job : Job) : Bool := s.claims.contains job || decide (job ∈ s.attempted)

-- Volumes left to faster lanes

/-- `lane_cards`: the claimed volumes of a lane. -/
def laneCards (lane : ℕ) : List InflightCard :=
  (s.claims.entries.filter (fun entry => entry.2.lane = lane)).map (fun entry =>
    let (eta, total, read) := env.card entry.1
    {
      generationId := entry.1.gid
      etaSeconds := eta
      totalPages := (total.filter (0 < ·)).or (s.knownPages env entry.1.rel)
      donePages := read
    })

/-- The row a lane's open session serves; a closing session serves none. -/
def warmRow (lane : Lane) : Option String :=
  ((lane.session.bind s.sessions.get?).filter (fun session => !session.closing)).map
    (fun session => session.row.id)

/-- Whether a lane of a machine may be given a row at all. -/
def laneRuns (pid : Pid) (machine gid : String) : Bool :=
  (s.row gid).any (fun row =>
    decide ((gid, machine) ∉ s.stopped)
      && !(s.startBackoff.get? (gid, machine)).any (fun backoff => env.now < backoff.until_)
      && !s.refuses env pid row
      && (s.autobenchKind env pid row).isNone)

/-- What one lane offers the walk: nothing on a held machine or behind an open breaker. -/
def eftLane (walked : List String) (lane : Lane) : Option (List (EftLane ℕ)) :=
  match s.machines.get? lane.pid with
  | none => some []
  | some machine =>
      if s.held machine.name || (!machine.isLocal && s.breakerOpen env lane.pid) then some []
      else do
        let freeIn ← laneFreeIn (fun gid => env.rateFor gid machine.name) (s.laneCards env lane.id)
        return [{
          key := lane.id
          machine := machine.name
          freeIn := freeIn
          warm := s.warmRow lane
          rows := (walked.filter (s.laneRuns env lane.pid machine.name)).toFinset
        }]

/-- The lanes' offers, nothing when one lane's cannot be priced. -/
def eftOffers (walked : List String) : List Lane → Option (List (EftLane ℕ))
  | [] => some []
  | lane :: rest => do
      let offer ← s.eftLane env walked lane
      let others ← eftOffers walked rest
      return offer ++ others

/-- `_eft_lanes`: every lane that may be waited for, or none (plain first-come). -/
def eftLanes (asking : ℕ) (walked : List String) : Option (List (EftLane ℕ)) :=
  if s.lanes.length < 2 || !s.lanes.any (fun lane => lane.id = asking) then none
  else s.eftOffers env walked s.lanes

/-- Whether the lane with this id could take the job: another release may not read it. -/
def laneTakes (job : Job) (id : ℕ) : Bool :=
  (s.lanes.find? (fun lane => lane.id = id)).all (fun lane => s.machineTakes env lane.pid job)

/-- `_eft_left`: the walk's decision for the asking lane, with deadlines applied. -/
def eftLeft (asking : ℕ) (proposed : List Job) : EftOutcome × Scheduler :=
  match s.eftLanes env asking (proposed.map Job.gid).eraseDups with
  | none => ({}, s)
  | some lanes =>
      let walk : EftWalk Job ℕ := {
        jobs := (proposed.take EFT_LOOKAHEAD).map (fun job =>
          (job, job.gid, s.knownPages env job.rel))
        lanes := lanes
        rateFor := env.rateFor
        startupFor := env.startupFor
        canTake := s.laneTakes env
      }
      match walk.earliestFinishClaimWhere asking with
      | none => ({}, s)
      | some decision =>
          if decision.left.isEmpty then ({ mine := decision.mine }, s)
          else
            let outcome := s.eftDeadlines.apply proposed decision.left env.now
            let applied := { s with eftDeadlines := outcome.deadlines }
            ({
              mine := decision.mine
              skip := outcome.skip
            }, if outcome.fresh then applied.wakeLanes else applied)

-- Volumes left to warm sessions

/-- The open sessions on other machines that may keep a row's last volume. -/
def warmSessions (pid : Pid) : List (Sid × Session) :=
  s.sessions.entries.filter (fun entry =>
    !(entry.2.closing || entry.2.pid = pid)
      && (s.machines.get? entry.2.pid).any (fun machine =>
        !(s.held machine.name || s.breakerOpen env entry.2.pid)))

/-- The machines with a warm session of a row. -/
def warmOn (pid : Pid) (gid : String) : List Pid :=
  (((s.warmSessions env pid).filter (fun entry => entry.2.row.id = gid)).map
    (fun entry => entry.2.pid)).eraseDups

/-- The claimed volumes of a row on a machine. -/
def aheadOn (pid : Pid) (gid : String) : List InflightCard :=
  (s.claims.entries.filter (fun entry => entry.2.pid = pid && entry.1.gid = gid)).map (fun entry =>
    let (eta, total, read) := env.card entry.1
    {
      generationId := gid
      etaSeconds := eta
      totalPages := total
      donePages := read
    })

/-- The machines a row's last volume may be left to. -/
def warmMachines (pid : Pid) (gid : String) (job : Job) : List WarmMachine :=
  ((s.warmOn env pid gid).filter (fun other => s.machineTakes env other job)).filterMap
    (fun other => (s.machines.get? other).map (fun machine => {
      machine := machine.name
      rate := env.rateFor gid machine.name
      ahead := s.aheadOn env other gid
    }))

/-- `_rows_left_to_warm`. -/
def rowsLeftToWarm (pid : Pid) (proposed : List Job) : List String :=
  match s.machines.get? pid with
  | none => []
  | some machine =>
      let warm := fun gid => (s.warmSessions env pid).any (fun entry => entry.2.row.id = gid)
      let singles := singleVolumeRows (proposed.map (fun job => (job, job.gid))) warm s.unavailable
      (singles.filter (fun single =>
        (warmSessionWins (env.pageCount single.2.rel) (env.rateFor single.1 machine.name)
          (env.startupFor single.1 machine.name)
          (s.warmMachines env pid single.1 single.2)).isSome)).map Prod.fst

-- The claim

/-- Phase A: the machine takes nothing at all. -/
def refusesAll (pid : Pid) (machine : String) : Bool :=
  s.stopping || s.held machine || s.breakerOpen env pid || s.machinePaused pid

/-- Phase B: the queue as this lane may see it. -/
def survey (lane : Lane) (gid : Option String) : Survey × Scheduler :=
  let (proposed, s) := s.candidates env s.unavailable
  let rows := (proposed.map Job.gid).eraseDups
  let offered := rows.filter (fun gid => (s.row gid).any (fun row => !s.refuses env lane.pid row))
  let unmeasured := offered.filter (fun gid =>
    (s.row gid).any (fun row => (s.autobenchKind env lane.pid row).isSome))
  let (backedOff, s) := s.backedOffRows env lane.pid rows
  let leftToWarm := if gid.isNone then s.rowsLeftToWarm env lane.pid proposed else []
  let (eft, s) := s.eftLeft env lane.id proposed
  ({
    proposed := proposed
    offered := offered
    unmeasured := unmeasured
    backedOff := backedOff
    leftToWarm := leftToWarm
    eft := eft
  }, s)

/-- A job's place among the rows, upgrades last. -/
def rankOf (job : Job) : ℕ :=
  if job.upgrade then s.rank.entries.length
  else (s.rank.get? job.gid).getD s.rank.entries.length

/-- Whether a row before the session's own has work for this machine. -/
def preempts (machine gid : String) (survey : Survey) : Bool :=
  survey.proposed.any (fun job =>
    s.rankOf job < (s.rank.get? gid).getD s.rank.entries.length
      && decide ((job.gid, machine) ∉ s.stopped)
      && decide (job.gid ∉ survey.backedOff)
      && decide (job.gid ∉ survey.unmeasured)
      && decide (job.gid ∈ survey.offered))

/-- The devices other sessions of the machine keep busy. -/
def busyDevices (lane : Lane) : List String :=
  (s.sessions.values.filter (fun session =>
    session.pid = lane.pid && session.lane ≠ lane.id && !session.closing)).map
    (fun session => env.engineDevice lane.pid session.row)

/-- The order a lane looks through the queue in: rows of free devices first for a new
session, and the volume the walk booked on it before all.
-/
def claimOrder (lane : Lane) (gid : Option String) (survey : Survey) : List Job :=
  let busy := s.busyDevices env lane
  let free := fun (job : Job) =>
    (s.row job.gid).all (fun row => decide (env.engineDevice lane.pid row ∉ busy))
  let ordered :=
    if gid.isNone && !busy.isEmpty then
      survey.proposed.filter free ++ survey.proposed.filter (fun job => !free job)
    else survey.proposed
  match survey.eft.mine with
  | none => ordered
  | some mine =>
      if gid.any (fun gid => mine.gid ≠ gid) then []
      else if mine ∈ ordered then mine :: ordered.erase mine
      else ordered

/-- Whether the loop goes on to the next job without a look at the library. -/
def passesOver (lane : Lane) (machine : String) (gid : Option String) (survey : Survey)
    (job : Job) : Bool :=
  gid.any (fun gid => job.gid ≠ gid)
    || decide ((job.gid, machine) ∈ s.stopped)
    || decide (job.gid ∈ survey.backedOff)
    || decide (job.gid ∈ survey.leftToWarm)
    || decide (job ∈ survey.eft.skip)
    || s.unavailable job
    || (s.returnedBy.get? job).any (fun pids => decide (lane.pid ∈ pids))

/-- Phase C: the first job of the queue the lane may take. -/
def pick (lane : Lane) (machine : String) (gid : Option String) (survey : Survey)
    : List Job → Scheduler → Option (Job × Generation) × Scheduler
  | [], s => (none, s)
  | job :: rest, s =>
      match s.row job.gid with
      | none => pick lane machine gid survey rest s
      | some row =>
          if s.passesOver lane machine gid survey job || decide (job.gid ∉ survey.offered) then
            pick lane machine gid survey rest s
          else if !env.stillOwed job row then
            pick lane machine gid survey rest (s.forgetCandidate job)
          else if !s.machineTakes env lane.pid job then pick lane machine gid survey rest s
          else if job.gid ∈ survey.unmeasured then
            pick lane machine gid survey rest (s.wantAutobench lane.pid row)
          else (some (job, row), s)

/-- `take`. -/
def take (lane : Lane) (machine : String) (job : Job) (row : Generation) : Scheduler :=
  { s with
    attempted := insert job s.attempted
    eftDeadlines := s.eftDeadlines.erase job
    lanes := changeLane lane.id (fun lane => { lane with waitingForFaster := false }) s.lanes
    lastServed := s.lastServed.insert job.key.generationId job.key.series
    claims := s.claims.insert job {
      lane := lane.id
      pid := lane.pid
      machine := machine
      stamp := env.stampOf job
      row := row
    }
  }.bump

/-- `claim`: a session of a row asks for that row only, an idle lane for any. -/
def claim (laneId : ℕ) (gid : Option String) : Answer :=
  match s.lanes.find? (fun lane => lane.id = laneId) with
  | none => ⟨none, false, s⟩
  | some lane =>
      match s.machines.get? lane.pid with
      | none => ⟨none, false, s⟩
      | some machine =>
          if s.refusesAll env lane.pid machine.name then ⟨none, false, s⟩
          else
            let (survey, surveyed) := s.survey env lane gid
            let preempt := gid.any (fun gid => surveyed.preempts machine.name gid survey)
            match pick env lane machine.name gid survey
                (surveyed.claimOrder env lane gid survey) surveyed with
            | (some (job, row), picked) =>
                ⟨some job, preempt, picked.take env lane machine.name job row⟩
            | (none, picked) =>
                let waiting := survey.proposed.any (fun job => decide (job ∈ survey.eft.skip))
                ⟨none, preempt, { picked with
                  lanes := changeLane laneId
                    (fun lane => { lane with waitingForFaster := waiting }) picked.lanes
                }⟩

-- Topping a session up

/-- `_session_drain_reason`. -/
def drainReason (session : Session) : Option String :=
  if s.stopping then some "the worker is stopping"
  else if s.held session.machine then some "the queue is held"
  else if s.machinePaused session.pid then some "its owner paused it"
  else if (session.row.id, session.machine) ∈ s.stopped then
    some "the generation was stopped for this scan"
  else if !session.isLocal && s.breakerOpen env session.pid then
    some "its archive downloads keep failing"
  else if (s.row session.row.id).isNone then some "the generation was removed or disabled"
  else if !s.machines.contains session.pid then some "the runner exited"
  else none

/-- An open session finds out that it takes nothing more. -/
def noteDrain (sid : Sid) : Scheduler :=
  s.changeSession sid (fun session =>
    if session.closing || session.draining.isSome then session
    else { session with draining := s.drainReason env session })

/-- Whether a session takes another volume now. -/
def wantsVolume (session : Session) : Bool :=
  session.draining.isNone && session.order.length < SESSION_LOOKAHEAD
    && (session.order.isEmpty || session.nextClaimAt ≤ env.mono)

def EARLIER_WORK : String := "an earlier generation has work"

/-- One turn of the loop of `top_up`: whether the session goes on. -/
def topUpTurn (sid : Sid) : Bool × Scheduler :=
  match s.sessions.get? sid with
  | none => (false, s)
  | some session =>
      if !wantsVolume env session then (false, s)
      else
        let answer := s.claim env session.lane (some session.row.id)
        match answer.job with
        | none =>
            (false, answer.state.changeSession sid (fun session =>
              if answer.preempt then { session with draining := some EARLIER_WORK }
              else { session with nextClaimAt := env.mono + max s.settings.pollInterval 1 }))
        | some job =>
            let claimed := answer.state.changeSession sid (fun session =>
              { session with nextClaimAt := 0 })
            let (taken, submitted) := claimed.submit env sid job
            if !taken then (false, submitted.changeSession sid refusedVolume)
            else if answer.preempt then
              (false, submitted.changeSession sid (fun session =>
                { session with draining := some EARLIER_WORK }))
            else (true, submitted)

/-- The loop of `top_up`, at most this many turns. -/
def topUpTurns (sid : Sid) : ℕ → Scheduler → Scheduler
  | 0, s => s
  | turns + 1, s =>
      match s.topUpTurn env sid with
      | (true, more) => topUpTurns sid turns more
      | (false, enough) => enough

/-- A session left with nothing is closed. -/
def closeWhenEmpty (sid : Sid) : Scheduler :=
  if (s.sessions.get? sid).any (fun session => session.order.isEmpty) then s.closeSession env sid
  else s

/-- `top_up`: keep two claims in flight, drain, close. -/
def topUp (sid : Sid) : Scheduler :=
  match s.sessions.get? sid with
  | none => s
  | some session =>
      if session.closing then s
      else (topUpTurns env sid SESSION_LOOKAHEAD (s.noteDrain env sid)).closeWhenEmpty env sid

end Scheduler

end MokuroBunko.Server
