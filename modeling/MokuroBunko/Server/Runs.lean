import MokuroBunko.Server.Coherence

/-! The books are coherent in every state a run can reach: every message, and every step of
filling the lanes, keeps them so.
-/

namespace MokuroBunko.Server

open MokuroBunko.Lib MokuroBunko.Data MokuroBunko.Sched

namespace Scheduler

variable {s : Scheduler} (env : Env)

-- Events of a processor

theorem Coherent.deliver (coherent : s.Coherent) (sid : Sid) (claim : ClaimId)
    : (s.deliver sid claim).Coherent := by
  apply coherent.changeSession sid
  intro session
  simp only [Session.holder, Holder.mk.injEq, true_and]
  funext asked
  simp only [OrderedMap.get?_modify]
  split
  · rw [Option.map_map]
    rfl
  · rfl

theorem Coherent.downloadDelivered (coherent : s.Coherent) (pid : Pid) (job : Job)
    : (s.downloadDelivered env pid job).Coherent := by
  have stamped : (s.changeClaim job (fun claim =>
      { claim with stamp := env.stampOf job })).Coherent :=
    coherent.of_books (books_changeClaim s job (fun _ => rfl))
  unfold Scheduler.downloadDelivered
  dsimp only
  split
  · exact stamped.of_books rfl
  · exact stamped.of_books rfl

theorem Coherent.onReady (coherent : s.Coherent) (sid : Sid) (session : Session)
    : (s.onReady env sid session).Coherent := by
  have ready : (s.changeSession sid (fun session =>
      { session with readyAt := some env.now })).Coherent :=
    coherent.changeSession sid (fun _ => rfl)
  exact ready.of_books rfl

theorem popped_owned (coherent : s.Coherent) {sid : Sid} {claim : ClaimId} {entry : SessionJob}
    {popped : Scheduler} (pops : s.popJob sid claim = some (entry, popped))
    : (popped.claims.get? entry.job).any (fun claimed =>
        decide (claimed.sid = some sid ∧ claimed.claim = some claim)) = true := by
  obtain ⟨⟨holder, open_, held⟩, books⟩ := popJob_spec s pops
  have leased := (coherent.sound.leased.held sid holder claim entry.job open_ held).1
  have ledger : popped.ledger = s.ledger.pop sid claim := congrArg Prod.fst books
  have there : popped.ledger.leases entry.job
      = some ⟨holder.worker, some sid, some claim, false⟩ := ledger ▸ leased
  obtain ⟨claimed, found, lease⟩ := Option.map_eq_some_iff.mp there
  have ofSession : claimed.sid = some sid := congrArg Lease.session lease
  have ofClaim : claimed.claim = some claim := congrArg Lease.ticket lease
  simp [found, ofSession, ofClaim]

theorem Coherent.volumeDone (coherent : s.Coherent) {sid : Sid} {claim : ClaimId}
    {entry : SessionJob} {popped : Scheduler} (pops : s.popJob sid claim = some (entry, popped))
    : (popped.volumeDone sid claim entry).Coherent := by
  have owned := popped_owned coherent pops
  have counted : (popped.changeSession sid (fun session =>
      { session with completed := session.completed + 1 })).Coherent (some entry.job) :=
    (coherent.popJob pops).changeSession sid (fun _ => rfl)
  unfold Scheduler.volumeDone Scheduler.collect
  split
  case isTrue => exact counted.handOver (.collect entry.job) rfl
  case isFalse unowned => exact absurd owned unowned

theorem Coherent.volumeFailed {entry : SessionJob} (coherent : s.Coherent (some entry.job))
    (error : String)
    : (s.volumeFailed env entry error).Coherent := by
  unfold Scheduler.volumeFailed
  split
  · exact coherent.release false
  · exact coherent.finish env _

theorem Coherent.onReport (coherent : s.Coherent) (pid : Pid) (machine : Machine) (sid : Sid)
    (session : Session) (report : Report)
    : (s.onReport env pid machine sid session report).Coherent := by
  unfold Scheduler.onReport
  cases report with
  | ready => exact coherent.onReady env sid session
  | fatal error => exact coherent.changeSession sid (fun _ => rfl)
  | exit returncode =>
      apply Coherent.endSession
      exact coherent.changeSession sid (fun _ => rfl)
  | fetch claim state =>
      dsimp only
      split
      · exact coherent
      · split
        · exact (coherent.deliver sid claim).downloadDelivered env pid _
        · exact coherent
  | volumeStarted claim => exact coherent.deliver sid claim
  | progress => exact coherent
  | volumeReturned claim klass error =>
      dsimp only
      split
      · exact coherent
      case _ pops => exact (coherent.popJob pops).judgeReturned env pid machine klass error
  | volumeDone claim =>
      dsimp only
      split
      · exact coherent
      case _ pops => exact coherent.volumeDone pops
  | volumeFailed claim error =>
      dsimp only
      split
      · exact coherent
      case _ pops => exact (coherent.popJob pops).volumeFailed env error

theorem Coherent.onEvent (coherent : s.Coherent) (pid : Pid) (event : Event)
    : (s.onEvent env pid event).Coherent := by
  have seen := coherent.seen env pid
  unfold Scheduler.onEvent
  dsimp only
  split
  · exact seen
  · cases event with
    | ping => exact seen
    | updateStatus => exact seen
    | catalog engines => exact seen.catalogChanged env pid engines
    | availability availability => exact seen.setAvailability env pid availability
    | released claims => exact seen.released pid claims
    | bench bid event => exact seen.benchEvent env pid bid event
    | session sid report =>
        dsimp only
        split
        · exact seen
        · split
          · exact seen
          · apply Coherent.onReport
            exact seen.changeSession sid (fun _ => rfl)

theorem Coherent.resultStored (coherent : s.Coherent) (pid : Pid) (sid : Sid) (claim : ClaimId)
    (name : String)
    : (s.resultStored env pid sid claim name).Coherent := by
  unfold Scheduler.resultStored
  dsimp only
  split
  · exact coherent
  · split
    · exact coherent
    · exact coherent.killSessionBlaming env sid _

-- The library and the timer

theorem Coherent.cancelStaleSession (coherent : s.Coherent) (stale : List Job) (sid : Sid)
    : (s.cancelStaleSession env stale sid).Coherent := by
  unfold Scheduler.cancelStaleSession
  split
  · exact coherent
  · dsimp only
    split
    · exact coherent.cancelSession env sid
    · exact coherent

theorem Coherent.cancelStaleJobs (coherent : s.Coherent) (gone : String → Bool)
    : (s.cancelStaleJobs env gone).Coherent := by
  unfold Scheduler.cancelStaleJobs
  dsimp only
  split
  · exact coherent
  · exact Coherent.foldl (fun _ sid coherent => coherent.cancelStaleSession env _ sid) _ coherent

theorem Coherent.archiveArrived (coherent : s.Coherent) (rel : String)
    (owed : Option OwedVolume)
    : (s.archiveArrived env rel owed).Coherent := by
  unfold Scheduler.archiveArrived
  dsimp only
  generalize arrived_def : Scheduler.bump _ = arrived
  have arrivedCoherent : arrived.Coherent := by
    rw [← arrived_def]
    exact (coherent.cancelStaleJobs env (· = rel)).of_books rfl
  split
  · exact arrivedCoherent
  · apply arrivedCoherent.of_books
    rw [books_wakeLanes, books_maybeStartScan]

theorem Coherent.archiveRemoved (coherent : s.Coherent) (removed : Removed)
    : (s.archiveRemoved env removed).Coherent :=
  (coherent.cancelStaleJobs env removed.takes).of_books rfl

theorem Coherent.walked (coherent : s.Coherent) (epoch : ℕ)
    (index : OrderedMap String OwedVolume)
    : (s.walked env epoch index).Coherent := by
  unfold Scheduler.walked
  split
  · exact coherent
  · exact coherent.of_books (books_maybeStartScan ..)

theorem Coherent.endWedged (coherent : s.Coherent) (sid : Sid)
    : (s.endWedged env sid).Coherent := by
  unfold Scheduler.endWedged
  split
  · exact coherent
  · dsimp only
    split
    · exact coherent.dropProcessor env _
    · exact coherent.killSessionBlaming env sid _

theorem Coherent.checkSessions (coherent : s.Coherent)
    : (s.checkSessions env).Coherent := by
  apply Coherent.foldl (fun _ sid coherent => coherent.endWedged env sid)
  exact Coherent.foldl (fun _ sid coherent => coherent.killSession env sid none) _ coherent

theorem Coherent.tick (coherent : s.Coherent)
    : (s.tick env).Coherent := by
  have checked := coherent.checkSessions env
  unfold Scheduler.tick
  split
  · exact coherent
  · dsimp only
    refine Coherent.of_books ?_ (books_lanes _ ?_)
    · split
      · apply Coherent.benchTick
        exact checked.of_books rfl
      · exact checked
    · intro lane
      split <;> rfl

-- Runs

theorem Coherent.dispatch (coherent : s.Coherent) {msg : Msg} (admitted : s.Admits msg)
    : (s.dispatch env msg).Coherent := by
  cases msg with
  | tick => exact coherent.tick env
  | walked epoch index => exact coherent.walked env epoch index
  | directUpgraded => exact coherent.of_books rfl
  | event pid event => exact coherent.onEvent env pid event
  | seen pid => exact coherent.seen env pid
  | register input => exact coherent.register env input
  | socketOpen pid username => exact coherent.socketOpen env pid username
  | localUp engines version => exact coherent.localUp env engines version
  | drop pid => exact coherent.dropProcessor env pid
  | dropAccount username => exact coherent.dropProcessors env _
  | failedLogin => exact coherent
  | read => exact coherent
  | resultStored pid sid claim name => exact coherent.resultStored env pid sid claim name
  | collected job outcome => exact coherent.collected env admitted outcome
  | ownCopyRead job context error => exact coherent.ownCopyRead env admitted error
  | archiveArrived rel owed => exact coherent.archiveArrived env rel owed
  | archiveRemoved removed => exact coherent.archiveRemoved env removed
  | benchSample machine bid built => exact coherent.benchSampleBuilt env machine bid built
  | apply settings => exact coherent.applySettings env settings
  | benchEnqueue request =>
      show Coherent ((s.benchEnqueue env request).toOption.getD s)
      cases queued : s.benchEnqueue env request with
      | error _ => exact coherent
      | ok after => exact coherent.benchEnqueue env queued
  | benchCancel key processor => exact coherent.benchCancel env key processor
  | retryFailed rel => exact coherent.retryFailed env rel
  | setUpdateDrain on => exact coherent.setUpdateDrain env on
  | holdQueue machine => exact coherent.of_books rfl
  | releaseQueue machine => exact coherent.of_books (books_releaseQueue ..)
  | stop => exact coherent.stop env

theorem Coherent.step (coherent : s.Coherent) {s' : Scheduler} (taken : Step s s')
    : s'.Coherent := by
  cases taken with
  | dispatched env msg admitted => exact coherent.dispatch env admitted
  | benchmarksAsked env => exact coherent.drainAutobenchRequests env
  | laneOpened env lane known idle => exact coherent.openLane env known idle
  | drainNoted env sid => exact coherent.noteDrain env sid
  | toppedUp env sid => exact coherent.topUpTurn env sid
  | emptyClosed env sid => exact coherent.closeWhenEmpty env sid
  | scanEnded => exact coherent.of_books (books_maybeEndScan s)

theorem Reachable.coherent (reachable : Reachable s)
    : s.Coherent :=
  reachable.invariant (fun settings failures => coherent_new settings failures)
    (fun _ _ coherent taken => Coherent.step coherent taken)

end Scheduler

end MokuroBunko.Server
