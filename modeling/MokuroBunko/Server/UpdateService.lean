import MokuroBunko.Lib.Text
import Mathlib.Logic.Function.Basic

/-! Updates of the server (`UpdateService` of `admin/update.rs`, `Retry` and `Blocked` of `auto.rs`):
one task installs what a check found, calls of the admin panel install by hand, and both share one
flag. Each step is one look at what they share, or one answer from outside.
-/

namespace MokuroBunko.Server.Update

open MokuroBunko.Lib

-- What is known of a release

/-- `InstallKind`. -/
inductive InstallKind where
  | selfManaged
  | docker
  | managed (manager : String)
  | mobile

/-- `UpdateStatus`, as far as an installation reads it. -/
structure UpdateStatus where
  current : String
  latest : Option String
  available : Bool
  install : InstallKind
  canApply : Bool
  dockerImage : Option String
  checkedAt : Option String
  error : Option String

/-- `manual_update`. -/
def manualUpdate (install : InstallKind) (image : Option String) : Option String :=
  match install with
  | .selfManaged => none
  | .docker => some ("Runs in Docker: update by pulling the new image (e.g. Unraid's Check for Updates"
      ++ ", or a container auto-updater)" ++ (image.map (". Image: " ++ ·)).getD "")
  | .managed manager =>
      some s!"Installed by {manager}: update it with {manager} (it replaces this program)"
  | .mobile => some "Updates come through the app store"

/-- `cannot_apply_reason`. -/
def cannotApplyReason (status : UpdateStatus) : String :=
  match status.install, status.dockerImage with
  | .docker, some image => s!"This server runs in Docker: pull {image} and recreate the container"
  | .docker, none => "This server runs in Docker: pull the new image and recreate the container"
  | .managed manager, _ => s!"This installation is managed by {manager}; update it there"
  | .mobile, _ => "Update the app through its store"
  | .selfManaged, _ => "There is no download of this release for this platform"

/-- `InstallFailure`. -/
structure InstallFailure where
  message : String
  needsOwner : Bool
  action : Option String

/-- `Blocked`. -/
structure Blocked where
  version : String
  reason : String

/-- `Blocked::blocks`. -/
def Blocked.blocks (blocked : Blocked) (version : String) : Bool :=
  Text.trimStartMatches 'v' blocked.version == Text.trimStartMatches 'v' version

-- Trying again

/-- `Retry`, with times in nanoseconds. -/
structure Retry where
  failures : ℕ := 0
  notBefore : Option ℕ := none
  version : Option String := none
  lastError : Option String := none

namespace Retry

/-- `RETRY_MAX`. -/
def longest : ℕ := 12 * 3600 * 10 ^ 9

/-- `Retry::wait_after`. -/
def waitAfter (number first : ℕ) : ℕ :=
  min (first * 2 ^ min (number - 1) 16) (max longest first)

/-- `Retry::may_try`. -/
def mayTry (retry : Retry) (version : String) (now : ℕ) : Bool :=
  match retry.version, retry.notBefore with
  | some failed, some time => failed != version || decide (time ≤ now)
  | _, _ => true

/-- `Retry::failed`. -/
def failed (first : ℕ) (retry : Retry) (version error : String) (now : ℕ) : Retry :=
  let failures := ((if retry.version = some version then retry.failures else 0) + 1) % 2 ^ 32
  { failures := failures
    notBefore := some (now + waitAfter failures first)
    version := some version
    lastError := some error }

/-- `Retry::succeeded`. -/
def succeeded (_ : Retry) : Retry := {}

end Retry

-- Who is where

/-- Where the automatic task stands: between checks, in `try_auto` or in `auto_install`. -/
inductive AutoPhase where
  | sleeping
  | ended
  /-- Its check is out. -/
  | checking
  /-- About to look at `update.auto`. -/
  | looking (status : UpdateStatus)
  | heeding (status : UpdateStatus)
  | readBlocked (latest : String)
  | readRetry (latest : String)
  /-- About to take the flag. -/
  | taking (latest : String)
  /-- About to hold new claims. -/
  | holding (latest : String)
  /-- At the top of the waiting loop. -/
  | round (latest : String)
  /-- `busy` is out. -/
  | asking (latest : String)
  | pausing (latest : String)
  | calledOff (latest : String)
  | installing (latest : String)
  | succeeded (version : String)
  /-- Waiting for an upload that began meanwhile. -/
  | lingering (version : String) (polls : ℕ)
  | restarting (version : String)
  | failing (latest : String) (failure : InstallFailure)
  | noting (latest : String) (failure : InstallFailure)
  /-- About to give the flag back. -/
  | releasing

/-- Where a call of `apply` stands. -/
inductive CallPhase where
  | absent
  | looking
  /-- Its check is out; the second one, if it is. -/
  | checking (again : Bool)
  | deciding (status : UpdateStatus)
  | installing (current : String) (wholeRelease : Bool)
  /-- Installed, about to clear the blocked version. -/
  | clearing (current version : String)
  /-- About to give the flag back. -/
  | refusing (status : ℕ) (message : String)
  | answered (answer : Except (ℕ × String) (String × String))
  /-- Its caller went away. -/
  | dropped

/-- Who may install. -/
inductive Owner where
  | auto
  | manual (call : ℕ)
deriving DecidableEq

/-- What a run shows. -/
inductive Event where
  | began (owner : Owner) (version : Option String)
  | installed (owner : Owner) (version : String)
  | restarted (version : String)

structure State where
  now : ℕ := 0
  /-- `update.auto` and `update.check`. -/
  auto : Bool := false
  check : Bool := false
  blocked : Option Blocked := none
  retry : Retry := {}
  cached : Option (ℕ × UpdateStatus) := none
  applying : Bool := false
  /-- New claims are held. -/
  draining : Bool := false
  stopped : Bool := false
  task : AutoPhase := .sleeping
  calls : ℕ → CallPhase := fun _ => .absent
  log : List Event := []

/-- What does not change: whether the automatic update may install, the first wait after a failure,
and what is shown before any check.
-/
structure Env where
  wired : Bool
  retryFirst : ℕ
  uncheckedStatus : UpdateStatus

/-- `CHECK_EVERY`. -/
def checkEvery : ℕ := 12 * 3600 * 10 ^ 9

namespace State

def setCall (s : State) (call : ℕ) (phase : CallPhase) : State :=
  { s with calls := Function.update s.calls call phase }

@[simp] theorem setCall_self (s : State) (call : ℕ) (phase : CallPhase)
    : (s.setCall call phase).calls call = phase := Function.update_self _ _ _

theorem setCall_other (s : State) {call other : ℕ} (differ : other ≠ call) (phase : CallPhase)
    : (s.setCall call phase).calls other = s.calls other := Function.update_of_ne differ _ _

-- The automatic task

/-- The loop of `start`: a kick looks at the last status, the timer checks anew. -/
def wake (env : Env) (s : State) (kicked : Bool) : State :=
  match s.task with
  | .sleeping =>
      if kicked then
        { s with task := .looking ((s.cached.map Prod.snd).getD env.uncheckedStatus) }
      else if s.check || s.auto then { s with task := .checking }
      else s
  | _ => s

def quit (s : State) : State :=
  match s.task with
  | .sleeping => if s.stopped then { s with task := .ended } else s
  | _ => s

/-- The answer to the task's check. -/
def checked (s : State) (status : UpdateStatus) : State :=
  match s.task with
  | .checking => { s with cached := some (s.now, status), task := .looking status }
  | _ => s

/-- `try_auto` and `auto_install`, from one look at what is shared to the next. -/
def goOn (env : Env) (s : State) : State :=
  match s.task with
  | .looking status =>
      if !s.auto || (manualUpdate status.install none).isSome then { s with task := .sleeping }
      else { s with task := .heeding status }
  | .heeding status =>
      match status.error with
      | some error =>
          { s with
            retry := s.retry.failed env.retryFirst "check" error s.now
            task := .sleeping
          }
      | none =>
          match status.latest.filter (fun _ => status.available) with
          | none => { s with task := .sleeping }
          | some latest =>
              if status.canApply && env.wired then { s with task := .readBlocked latest }
              else { s with task := .sleeping }
  | .readBlocked latest =>
      if s.blocked.any (·.blocks latest) then { s with task := .sleeping }
      else { s with task := .readRetry latest }
  | .readRetry latest =>
      if s.retry.mayTry latest s.now then { s with task := .taking latest }
      else { s with task := .sleeping }
  | .taking latest =>
      if s.applying then { s with task := .sleeping }
      else { s with applying := true, task := .holding latest }
  | .holding latest => { s with draining := true, task := .round latest }
  | .round latest =>
      if s.stopped || !s.auto then { s with task := .calledOff latest }
      else { s with task := .asking latest }
  | .pausing latest => { s with task := .round latest }
  | .calledOff _ => { s with draining := false, task := .releasing }
  | .succeeded version => { s with retry := s.retry.succeeded, task := .lingering version 0 }
  | .restarting version => { s with log := s.log ++ [.restarted version], task := .sleeping }
  | .failing latest failure => { s with draining := false, task := .noting latest failure }
  | .noting latest failure =>
      { s with
        retry := s.retry.failed env.retryFirst latest failure.message s.now
        task := .releasing
      }
  | .releasing => { s with applying := false, task := .sleeping }
  | _ => s

/-- What `busy` answers the task. -/
def busy (s : State) (what : Option String) : State :=
  match s.task with
  | .asking latest =>
      match what with
      | none =>
          { s with task := .installing latest, log := s.log ++ [.began .auto (some latest)] }
      | some _ => { s with task := .pausing latest }
  | .lingering version polls =>
      if what = none ∨ 12 ≤ polls + 1 then { s with task := .restarting version }
      else { s with task := .lingering version (polls + 1) }
  | _ => s

/-- What the installer answers the task. -/
def installed (s : State) (result : Except InstallFailure String) : State :=
  match s.task with
  | .installing latest =>
      match result with
      | .ok version =>
          { s with task := .succeeded version, log := s.log ++ [.installed .auto version] }
      | .error failure => { s with task := .failing latest failure }
  | _ => s

-- Calls by hand

/-- `apply` begins. -/
def apply (s : State) (call : ℕ) : State :=
  match s.calls call with
  | .absent =>
      if s.applying then
        s.setCall call (.answered (.error (409, "An update is already being applied")))
      else { s.setCall call .looking with applying := true }
  | _ => s

/-- `apply_inner` and the end of `apply`, from one look at what is shared to the next. -/
def callGoOn (env : Env) (s : State) (call : ℕ) : State :=
  match s.calls call with
  | .looking =>
      let fresh := s.cached.any (fun entry => decide (s.now - entry.1 < checkEvery))
      if !fresh && s.check then s.setCall call (.checking false)
      else
        let status := (s.cached.map Prod.snd).getD env.uncheckedStatus
        if status.checkedAt = none then s.setCall call (.checking true)
        else s.setCall call (.deciding status)
  | .deciding status =>
      if !status.available then s.setCall call (.refusing 409 "No newer release is available")
      else if !status.canApply then s.setCall call (.refusing 409 (cannotApplyReason status))
      else { s.setCall call (.installing status.current (env.wired && status.latest.isSome)) with
        log := s.log ++ [.began (.manual call) status.latest]
      }
  | .clearing current version =>
      { s.setCall call (.answered (.ok (current, version))) with blocked := none }
  | .refusing status message =>
      { s.setCall call (.answered (.error (status, message))) with applying := false }
  | _ => s

/-- The answer to the call's check. -/
def callChecked (s : State) (call : ℕ) (status : UpdateStatus) : State :=
  match s.calls call with
  | .checking again =>
      let next :=
        if !again && status.checkedAt = none then .checking true else .deciding status
      { s.setCall call next with cached := some (s.now, status) }
  | _ => s

/-- What the installer, or the source, answers the call. -/
def callInstalled (s : State) (call : ℕ) (result : Except String String) : State :=
  match s.calls call with
  | .installing current wholeRelease =>
      match result with
      | .ok version =>
          let next := if wholeRelease then .clearing current version
            else .answered (.ok (current, version))
          { s.setCall call next with log := s.log ++ [.installed (.manual call) version] }
      | .error message => s.setCall call (.refusing 500 s!"The update failed: {message}")
  | _ => s

/-- The caller goes away while the call waits for an answer. -/
def callDropped (s : State) (call : ℕ) : State :=
  match s.calls call with
  | .checking _ => s.setCall call .dropped
  | .installing _ _ => s.setCall call .dropped
  | _ => s

end State

/-- What happens next. -/
inductive Step where
  | pass (elapsed : ℕ)
  | settings (auto check : Option Bool)
  /-- The blocked file changes. -/
  | recordBlocked (blocked : Option Blocked)
  | stop
  /-- The page's own check. -/
  | refreshed (status : UpdateStatus)
  | wake (kicked : Bool)
  | quit
  | checked (status : UpdateStatus)
  | goOn
  | busy (what : Option String)
  | installed (result : Except InstallFailure String)
  | apply (call : ℕ)
  | callGoOn (call : ℕ)
  | callChecked (call : ℕ) (status : UpdateStatus)
  | callInstalled (call : ℕ) (result : Except String String)
  | callDropped (call : ℕ)

def State.step (env : Env) (s : State) : Step → State
  | .pass elapsed => { s with now := s.now + elapsed }
  | .settings auto check => { s with auto := auto.getD s.auto, check := check.getD s.check }
  | .recordBlocked blocked => { s with blocked := blocked }
  | .stop => { s with stopped := true }
  | .refreshed status => { s with cached := some (s.now, status) }
  | .wake kicked => s.wake env kicked
  | .quit => s.quit
  | .checked status => s.checked status
  | .goOn => s.goOn env
  | .busy what => s.busy what
  | .installed result => s.installed result
  | .apply call => s.apply call
  | .callGoOn call => s.callGoOn env call
  | .callChecked call status => s.callChecked call status
  | .callInstalled call result => s.callInstalled call result
  | .callDropped call => s.callDropped call

/-- The states of a run from the start. -/
def Env.states (env : Env) (steps : ℕ → Step) : ℕ → State
  | 0 => {}
  | n + 1 => (env.states steps n).step env (steps n)

end MokuroBunko.Server.Update
