import MokuroBunko.Server.Events

/-! The message loop: one message at a time, then every lane that can work is filled. A run
is any sequence of messages; the answer of a helper thread comes only from one at work.
-/

namespace MokuroBunko.Server

open MokuroBunko.Lib MokuroBunko.Data MokuroBunko.Sched

/-- `Msg`. The queries that change the state are spelled out. -/
inductive Msg where
  | tick
  | walked (epoch : ℕ) (index : OrderedMap String OwedVolume)
  | directUpgraded
  | event (pid : Pid) (event : Event)
  | seen (pid : Pid)
  | register (input : RegisterInput)
  | socketOpen (pid : Pid) (username : String)
  | localUp (engines : List String) (version : String)
  | drop (pid : Pid)
  | dropAccount (username : String)
  | failedLogin
  | resultStored (pid : Pid) (sid : Sid) (claim : ClaimId) (name : String)
  | collected (job : Job) (outcome : Outcome)
  | ownCopyRead (job : Job) (context : ReturnContext) (error : Option String)
  | archiveArrived (rel : String) (owed : Option OwedVolume)
  | archiveRemoved (removed : Removed)
  | benchSample (machine : String) (bid : ℕ) (built : Bool)
  | apply (settings : Settings)
  | benchEnqueue (request : BenchRequest)
  | benchCancel (key processor : String)
  | retryFailed (rel : Option String)
  | setUpdateDrain (on : Bool)
  | holdQueue (machine : String)
  | releaseQueue (machine : String)
  /-- A query that reads only. -/
  | read
  | stop

namespace Scheduler

variable (s : Scheduler) (env : Env)

/-- Whether a message can come now: a helper thread answers once. -/
def Admits (s : Scheduler) : Msg → Prop
  | .collected job _ => Task.collect job ∈ s.tasks
  | .ownCopyRead job context _ => Task.readOwnCopy job context ∈ s.tasks
  | _ => True

instance (msg : Msg) : Decidable (s.Admits msg) := by
  cases msg <;> (unfold Admits; infer_instance)

/-- `dispatch`. -/
def dispatch : Msg → Scheduler
  | .tick => s.tick env
  | .walked epoch index => s.walked env epoch index
  | .directUpgraded => s.bump
  | .event pid event => s.onEvent env pid event
  | .seen pid => s.seen env pid
  | .register input => (s.register env input).2
  | .socketOpen pid username => (s.socketOpen env pid username).2
  | .localUp engines version => s.localUp env engines version
  | .drop pid => s.dropProcessor env pid
  | .dropAccount username => s.dropAccount env username
  | .failedLogin | .read => s
  | .resultStored pid sid claim name => s.resultStored env pid sid claim name
  | .collected job outcome => s.collected env job outcome
  | .ownCopyRead job context error => s.ownCopyRead env job context error
  | .archiveArrived rel owed => s.archiveArrived env rel owed
  | .archiveRemoved removed => s.archiveRemoved env removed
  | .benchSample machine bid built => s.benchSampleBuilt env machine bid built
  | .apply settings => s.applySettings env settings
  | .benchEnqueue request => (s.benchEnqueue env request).toOption.getD s
  | .benchCancel key processor => s.benchCancel env key processor
  | .retryFailed rel => s.retryFailed env rel
  | .setUpdateDrain on => s.setUpdateDrain env on
  | .holdQueue machine => s.holdQueue machine
  | .releaseQueue machine => s.releaseQueue env machine
  | .stop => s.stop env

/-- An idle lane asks for work and opens a session for what it is given. -/
def openLane (lane : Lane) : Scheduler :=
  let answer := s.claim env lane.id none
  match answer.job with
  | some job => answer.state.openSession env lane.id job
  | none => { answer.state with
      lanes := changeLane lane.id
        (fun lane => { lane with idleAt := some answer.state.queueGeneration }) answer.state.lanes
    }

/-- The session open on a lane is topped up. -/
def topUpLane (id : ℕ) : Scheduler :=
  match (s.lanes.find? (fun lane => lane.id = id)).bind Lane.session with
  | some sid => s.topUp env sid
  | none => s

/-- What `pump` does for one lane. -/
def visitLane (id : ℕ) : Scheduler :=
  match s.lanes.find? (fun lane => lane.id = id) with
  | none => s
  | some lane =>
      if lane.session.isSome then s.topUpLane env id
      else if !s.scanActive || lane.idleAt = some s.queueGeneration then s
      else (s.openLane env lane).topUpLane env id

/-- `pump`: fill every lane that can work. -/
def pump : Scheduler :=
  if s.stopping then s
  else
    let drained := s.drainAutobenchRequests env
    let visited := (drained.lanes.map Lane.id).foldl (fun s id => s.visitLane env id) drained
    (visited.drainAutobenchRequests env).maybeEndScan

/-- `handle`: process one message, then fill the lanes. -/
def handle (msg : Msg) : Scheduler := (s.dispatch env msg).pump env

-- Runs

/-- One step of the scheduler. The clocks and the world outside may move between any two
steps, so a handled message is several.
-/
inductive Step (s : Scheduler) : Scheduler → Prop where
  | dispatched (env : Env) (msg : Msg) (admitted : s.Admits msg) : Step s (s.dispatch env msg)
  | benchmarksAsked (env : Env) : Step s (s.drainAutobenchRequests env)
  | laneOpened (env : Env) (lane : Lane) (known : lane ∈ s.lanes) (idle : lane.session = none)
    : Step s (s.openLane env lane)
  | drainNoted (env : Env) (sid : Sid) : Step s (s.noteDrain env sid)
  | toppedUp (env : Env) (sid : Sid) : Step s (s.topUpTurn env sid).2
  | emptyClosed (env : Env) (sid : Sid) : Step s (s.closeWhenEmpty env sid)
  | scanEnded : Step s s.maybeEndScan

/-- The states a run can reach from the empty state. -/
inductive Reachable : Scheduler → Prop where
  | start (settings : Settings) (failures : Object) : Reachable (new settings failures)
  | step {s s' : Scheduler} (before : Reachable s) (taken : Step s s') : Reachable s'

theorem Reachable.invariant {invariant : Scheduler → Prop}
    (starts : ∀ settings failures, invariant (new settings failures))
    (steps : ∀ s s', invariant s → Step s s' → invariant s') {s : Scheduler}
    (reachable : Reachable s)
    : invariant s := by
  induction reachable with
  | start settings failures => exact starts settings failures
  | step _ taken ih => exact steps _ _ ih taken

theorem Reachable.topUpTurns {sid : Sid} (turns : ℕ)
    : ∀ {s : Scheduler}, Reachable s → Reachable (topUpTurns env sid turns s) := by
  induction turns with
  | zero => exact fun reachable => reachable
  | succ turns ih =>
      intro s reachable
      have turned := reachable.step (.toppedUp env sid)
      rw [Scheduler.topUpTurns]
      match answered : s.topUpTurn env sid with
      | (true, more) => exact ih (by rwa [answered] at turned)
      | (false, enough) => rwa [answered] at turned

theorem Reachable.topUp {s : Scheduler} (reachable : Reachable s) (sid : Sid)
    : Reachable (s.topUp env sid) := by
  unfold Scheduler.topUp
  cases s.sessions.get? sid with
  | none => exact reachable
  | some session =>
      by_cases closing : session.closing = true
      · simpa [closing] using reachable
      · have noted : Reachable (s.noteDrain env sid) := reachable.step (.drainNoted env sid)
        have turned : Reachable
            (Scheduler.topUpTurns env sid SESSION_LOOKAHEAD (s.noteDrain env sid)) :=
          Reachable.topUpTurns env SESSION_LOOKAHEAD noted
        simpa [closing] using turned.step (.emptyClosed env sid)

theorem Reachable.topUpLane {s : Scheduler} (reachable : Reachable s) (id : ℕ)
    : Reachable (s.topUpLane env id) := by
  unfold Scheduler.topUpLane
  cases (s.lanes.find? (fun lane => lane.id = id)).bind Lane.session with
  | none => exact reachable
  | some sid => exact reachable.topUp env sid

theorem Reachable.visitLane {s : Scheduler} (reachable : Reachable s) (id : ℕ)
    : Reachable (s.visitLane env id) := by
  unfold Scheduler.visitLane
  cases found : s.lanes.find? (fun lane => lane.id = id) with
  | none => exact reachable
  | some lane =>
      have known : lane ∈ s.lanes := List.mem_of_find?_eq_some found
      cases idle : lane.session with
      | some sid => simpa [idle] using reachable.topUpLane env id
      | none =>
          by_cases rests : (!s.scanActive || decide (lane.idleAt = some s.queueGeneration)) = true
          · simpa [idle, rests] using reachable
          · have opened := reachable.step (.laneOpened env lane known idle)
            simpa [idle, rests] using opened.topUpLane env id

theorem Reachable.pump {s : Scheduler} (reachable : Reachable s)
    : Reachable (s.pump env) := by
  have visits : ∀ (ids : List ℕ) {s : Scheduler}, Reachable s
      → Reachable (ids.foldl (fun s id => s.visitLane env id) s) := by
    intro ids
    induction ids with
    | nil => exact fun reachable => reachable
    | cons id rest ih => exact fun reachable => ih (reachable.visitLane env id)
  unfold Scheduler.pump
  by_cases stopping : s.stopping = true
  · simpa [stopping] using reachable
  · have drained := reachable.step (.benchmarksAsked env)
    have visited := visits ((s.drainAutobenchRequests env).lanes.map Lane.id) drained
    have asked := visited.step (.benchmarksAsked env)
    simpa [stopping] using asked.step .scanEnded

theorem Reachable.handle {s : Scheduler} (reachable : Reachable s) {msg : Msg}
    (admitted : s.Admits msg)
    : Reachable (s.handle env msg) :=
  (reachable.step (.dispatched env msg admitted)).pump env

end Scheduler

end MokuroBunko.Server
