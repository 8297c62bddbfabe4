import MokuroBunko.Server.Bench

/-! The machines: registrations, links, pauses, and the single path by which one leaves.
-/

namespace MokuroBunko.Server

open MokuroBunko.Lib MokuroBunko.Data MokuroBunko.Sched

def STALE_REGISTRATION_SECONDS : ℚ := 300
def MAX_ENTRIES_PER_ACCOUNT : ℕ := 4
def MAX_SESSIONS_PER_PROCESSOR : ℕ := 16

/-- `RegisterInput`, its body read: what the scheduler keeps of a registration. -/
structure RegisterInput where
  username : String
  name : String
  engines : List String
  version : String
  maxSessions : ℕ
  pause : Option Availability := none
  /-- `profiles.claim`: the profile of that name is this account's. -/
  profileClaimed : Bool := true

/-- `SocketRefusal`. -/
structure SocketRefusal where
  status : ℕ
  error : String
deriving DecidableEq

/-- A pause that differs from another at most in its install's progress. -/
def Availability.same (a b : Availability) : Bool :=
  a.paused = b.paused && a.reason = b.reason
    && a.until_.filter (· ≠ "") = b.until_.filter (· ≠ "")

/-- `_cancel_reason`: why a running row must stop under new settings. -/
def cancelReason (running : Generation) (rows : List Generation) : Option String :=
  match rows.find? (fun row => row.id = running.id) with
  | none => some "the generation was removed from settings"
  | some row =>
      if !row.runnable then some "the generation was disabled"
      else if row.outputAffecting ≠ running.outputAffecting then
        some "its engine, detector or patch budget changed"
      else none

namespace Scheduler

variable (s : Scheduler) (env : Env)

/-- A change of the machine registered under an id. -/
def changeMachine (pid : Pid) (change : Machine → Machine) : Scheduler :=
  { s with machines := s.machines.modify pid change }

-- Leaving

/-- The claimed jobs of a registration that no helper thread works on. -/
def unsettledOf (pid : Pid) : List Job :=
  (s.claims.entries.filter (fun entry => entry.2.pid = pid && !entry.2.settling)).map Prod.fst

/-- What leaves with a registration: its claims not being settled, its sessions and lanes. -/
def vacate (pid : Pid) : Scheduler :=
  { s with
    machines := s.machines.erase pid
    claims := s.claims.retain (fun _ claim => !(decide (claim.pid = pid) && !claim.settling))
    attempted := s.attempted \ (s.unsettledOf pid).toFinset
    cancelled := s.cancelled \ (s.unsettledOf pid).toFinset
    sessions := s.sessions.retain (fun _ session => session.pid ≠ pid)
    breakers := s.breakers.erase pid
    lanes := s.lanes.filter (fun lane => lane.pid ≠ pid)
  }

/-- `drop_processor`. -/
def dropProcessor (pid : Pid) : Scheduler :=
  match s.machines.get? pid with
  | none => s
  | some machine =>
      (((s.vacate pid).benchMachineLeft env machine.name).rebuildLanes).bump

/-- Registrations that leave one after another. -/
def dropProcessors (pids : List Pid) : Scheduler :=
  pids.foldl (fun s pid => s.dropProcessor env pid) s

/-- `drop_account`. -/
def dropAccount (username : String) : Scheduler :=
  s.dropProcessors env ((s.machines.entries.filter (fun entry =>
    entry.2.username = some username)).map Prod.fst)

-- Registrations

/-- The registrations of the account that a new one replaces, and those gone stale. -/
def replaced (input : RegisterInput) : List Pid :=
  (s.machines.entries.filter (fun entry =>
    !entry.2.isLocal && entry.2.username = some input.username
      && (entry.2.name = input.name
        || (!entry.2.connected
          && STALE_REGISTRATION_SECONDS < env.now - entry.2.lastSeen)))).map Prod.fst

/-- The oldest registrations beyond an account's limit, those without a link first. -/
def excess (input : RegisterInput) : List Pid :=
  let keep := s.machines.entries.filter (fun entry =>
    !entry.2.isLocal && entry.2.username = some input.username
      && entry.1 ∉ s.replaced env input)
  let oldest := keep.insertionSort (fun a b =>
    toLex (a.2.connected, a.2.connectedSince) ≤ toLex (b.2.connected, b.2.connectedSince))
  (oldest.take (keep.length + 1 - MAX_ENTRIES_PER_ACCOUNT)).map Prod.fst

/-- `register`, after its body was read. A name of another account is refused. -/
def register (input : RegisterInput) : Option Pid × Scheduler :=
  let heldByAnother := s.machines.values.any (fun machine =>
    !machine.isLocal && machine.name = input.name && machine.username ≠ some input.username)
  if heldByAnother || !input.profileClaimed then (none, s)
  else
    let cleared := s.dropProcessors env (s.replaced env input ++ s.excess env input)
    let pid := Pid.remote cleared.nextPid
    let machine : Machine := {
      name := input.name
      username := some input.username
      isLocal := false
      engines := input.engines
      version := input.version
      maxSessions := min (if input.maxSessions = 0 then 1 else input.maxSessions)
        MAX_SESSIONS_PER_PROCESSOR
      connectedSince := env.now
      lastSeen := env.now
      lastFrame := env.mono
      connected := false
      pause := input.pause.filter Availability.paused
    }
    (some pid, { cleared with
      nextPid := cleared.nextPid + 1
      machines := cleared.machines.insert pid machine
    })

/-- The lanes, the queue and the scan after a machine may take work. -/
def joined : Scheduler := (s.rebuildLanes.bump).maybeStartScan env

/-- `socket_open`. -/
def socketOpen (pid : Pid) (username : String) : Option SocketRefusal × Scheduler :=
  match s.machines.get? pid with
  | none => (some ⟨404, "No such processor"⟩, s)
  | some machine =>
      if machine.isLocal || machine.username ≠ some username then
        (some ⟨403, "Not your processor"⟩, s)
      else if machine.connected then
        (some ⟨409, "Socket already open; register again"⟩, s.dropProcessor env pid)
      else
        (none, (s.changeMachine pid (fun machine => { machine with
          connected := true
          lastSeen := env.now
          lastFrame := env.mono
        })).joined env)

/-- `local_up`: this server's own processor is up. -/
def localUp (engines : List String) (version : String) : Scheduler :=
  let machine : Machine := {
    name := LOCAL
    username := none
    isLocal := true
    engines := engines
    version := version
    maxSessions := max s.settings.concurrency 1
    connectedSince := env.now
    lastSeen := env.now
    lastFrame := env.mono
    connected := true
    pause := none
  }
  { s with machines := s.machines.insertFront .own machine }.joined env

/-- `seen`. -/
def seen (pid : Pid) : Scheduler :=
  s.changeMachine pid (fun machine => { machine with
    lastSeen := env.now
    lastFrame := env.mono
  })

/-- `catalog_changed`. -/
def catalogChanged (pid : Pid) (engines : List String) : Scheduler :=
  if s.machines.contains pid then
    (s.changeMachine pid (fun machine => { machine with engines := engines })).joined env
  else s

-- Pauses

/-- `set_availability`. -/
def setAvailability (pid : Pid) (availability : Availability) : Scheduler :=
  match s.machines.get? pid with
  | none => s
  | some machine =>
      if machine.pause.any (fun before => availability.paused && before.same availability) then
        if machine.pause.any (fun before => before.install = availability.install) then s
        else
          (s.changeMachine pid (fun machine => { machine with
            pause := machine.pause.map (fun before =>
              { before with install := availability.install })
          })).bump
      else
        let pause :=
          if availability.paused then
            some { availability with until_ := availability.until_.filter (· ≠ "") }
          else none
        let changed := s.changeMachine pid (fun machine => { machine with pause := pause })
        let rebuilt := (changed.rebuildLanes.wakeLanes).bump
        if availability.paused then rebuilt else rebuilt.maybeStartScan env

/-- The session of a registration that holds a claim. -/
def holderOf (pid : Pid) (claim : ClaimId) : Option Sid :=
  (s.sessions.entries.find? (fun entry =>
    entry.2.pid = pid && entry.2.jobs.contains claim)).map Prod.fst

/-- One claim of a `released` event goes back. -/
def releaseClaim (pid : Pid) (claim : ClaimId) : Scheduler :=
  match s.holderOf pid claim with
  | none => s
  | some sid =>
      match s.popJob sid claim with
      | none => s
      | some (entry, popped) => popped.release entry.job true

/-- `released`: the claims a pausing processor gives back. -/
def released (pid : Pid) (claims : List ClaimId) : Scheduler :=
  let back := claims.foldl (fun s claim => s.releaseClaim pid claim) s
  if claims.any (fun claim => (s.holderOf pid claim).isSome) then back.bump else back

-- Settings and the end

/-- `stop`: everything in flight goes back. -/
def stop : Scheduler :=
  let stopping := { s with stopping := true }
  let killed := stopping.sessions.keys.foldl (fun s sid => s.killSession env sid none) stopping
  killed.dropProcessors env killed.machines.keys

/-- A session is cancelled: its volumes are nobody's failure. -/
def cancelSession (sid : Sid) : Scheduler :=
  let jobs := ((s.sessions.get? sid).map (fun session =>
    (session.jobs.values.map SessionJob.job).toFinset)).getD ∅
  { s with cancelled := s.cancelled ∪ jobs }.killSession env sid none

/-- `apply_settings`. -/
def applySettings (settings : Settings) : Scheduler :=
  let applied := { s with
    settings := settings
    autobench := { s.autobench with
      asked := ∅
      failed := ∅
    }
  }.bump
  let toKill := (applied.sessions.entries.filter (fun entry =>
    (cancelReason entry.2.row settings.rows).isSome)).map Prod.fst
  let killed := toKill.foldl (fun s sid => s.cancelSession env sid) applied
  let pruned := { killed with walkEpoch := killed.walkEpoch + 1 }.pruneFailures env
  if s.settings.localProcessing ≠ settings.localProcessing then pruned.rebuildLanes else pruned

/-- `set_update_drain`. -/
def setUpdateDrain (on : Bool) : Scheduler :=
  if s.updateDrain = on then s
  else
    let set := { s with updateDrain := on }.bump
    if on then set else set.wakeLanes.maybeStartScan env

/-- The failure records `retry_failed` drops: of one volume, any case, or all. -/
def retriedRecords (rel : Option String) : List String :=
  match rel with
  | none => s.failures.map Prod.fst
  | some rel =>
      let wanted := rel.toList.flatMap env.unicode.casefold
      (s.failures.map Prod.fst).filter (fun key =>
        let folded := key.toList.flatMap env.unicode.casefold
        folded = wanted || (wanted ++ ['@']).isPrefixOf folded)

/-- `retry_failed`. -/
def retryFailed (rel : Option String) : Scheduler :=
  let keys := s.retriedRecords env rel
  let cleared := { s with failures := keys.foldl Object.remove s.failures }
  if keys.isEmpty || s.stopping then cleared else cleared.startScan env

end Scheduler

end MokuroBunko.Server
