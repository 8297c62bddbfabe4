import MokuroBunko.Server.Handle
import MokuroBunko.Server.Lanes

/-! Every step of the scheduler keeps its books coherent.
-/

namespace MokuroBunko.Server

open MokuroBunko.Lib MokuroBunko.Data MokuroBunko.Sched

namespace Scheduler

variable {s : Scheduler} (env : Env) {hand : Option Job}

-- The end of a session

theorem books_settleHeld (s : Scheduler) (session : Session) (oldest : Option ClaimId)
    (error : String) (claim : ClaimId)
    : (s.settleHeld env session oldest error claim).books
      = (s.ledger.free (fun job => session.holder.held claim = some job), s.nextPid) := by
  unfold settleHeld
  cases found : session.jobs.get? claim with
  | none => simp [Session.holder, found, books, Ledger.free]
  | some entry =>
      have given : s.ledger.giveBack entry.job
          = s.ledger.free (fun job => session.holder.held claim = some job) := by
        simp only [Ledger.giveBack, Ledger.free]
        congr 1
        funext job
        simp [Session.holder, found, Function.update_apply, eq_comm]
      dsimp only
      rw [← given]
      split
      · exact books_finish s env entry.job (some error)
      · exact books_release s entry.job true

theorem books_settleHeld_foldl (session : Session) (oldest : Option ClaimId) (error : String)
    (claims : List ClaimId)
    : ∀ s : Scheduler,
      (claims.foldl (fun s claim => s.settleHeld env session oldest error claim) s).books
        = (s.ledger.free (fun job =>
            claims.any (fun claim => session.holder.held claim = some job)), s.nextPid) := by
  induction claims with
  | nil => intro s; simp [books, Ledger.free]
  | cons claim rest ih =>
      intro s
      have step := books_settleHeld env s session oldest error claim
      have ledger : (s.settleHeld env session oldest error claim).ledger = _ :=
        congrArg Prod.fst step
      have drawn : (s.settleHeld env session oldest error claim).nextPid = _ :=
        congrArg Prod.snd step
      rw [List.foldl_cons, ih, ledger, drawn]
      simp only [Ledger.free]
      congr 2
      funext job
      by_cases first : session.holder.held claim = some job <;> simp [first]

theorem books_leave {sid : Sid} {session : Session} (found : s.sessions.get? sid = some session)
    : { s with
        sessions := s.sessions.erase sid
        lanes := changeLane session.lane (fun lane => { lane with session := none, idleAt := none })
          s.lanes
      }.books = (s.ledger.leave sid, s.nextPid) := by
  have holder : s.ledger.sessions sid = some session.holder := by simp [ledger, found]
  simp only [books, ledger, Ledger.leave, found, Option.map_some]
  congr 2
  · simp only [changeLane, Ledger.assign, List.map_map]
    apply List.map_congr_left
    intro lane _
    by_cases same : lane.id = session.lane <;> simp [Lane.slot, Session.holder, same]
  · funext asked
    simp only [OrderedMap.get?_erase, Function.update_apply]
    split <;> rfl

theorem books_endSession (coherent : s.Coherent) {sid : Sid} {session : Session}
    (found : s.sessions.get? sid = some session) (killed : Bool)
    : ∃ slots next, (s.ledger.close sid).Layout slots next
      ∧ (s.endSession env sid killed).books
        = ((s.ledger.close sid).relay slots next, s.nextPid) := by
  unfold endSession
  rw [found]
  dsimp only
  generalize (killed || !s.machines.contains session.pid || s.machinePaused session.pid
    || session.jobs.values.any (fun entry => decide (entry.job ∈ s.cancelled))
    || s.stopping) = unblamed
  have left := books_leave found
  generalize { s with
      sessions := s.sessions.erase sid
      lanes := changeLane session.lane (fun lane => { lane with session := none, idleAt := none })
        s.lanes
    } = closed at left ⊢
  have noted := (books_noteEndedStart closed env session unblamed).trans left
  generalize closed.noteEndedStart env session unblamed = noting at noted ⊢
  have ledger : noting.ledger = s.ledger.leave sid := congrArg Prod.fst noted
  have drawn : noting.nextPid = s.nextPid := congrArg Prod.snd noted
  have closes : s.ledger.close sid = (s.ledger.leave sid).free session.holder.holds := by
    simp [Ledger.close, Scheduler.ledger, found]
  have layout := layout_rebuildLanes (ledger ▸ coherent.sound.slotted.leave sid)
  rw [ledger] at layout
  refine ⟨noting.rebuildLanes.ledger.slots, noting.rebuildLanes.nextLaneId, ?_, ?_⟩
  · rw [closes]
    exact ⟨layout.idsNodup, layout.idFresh, layout.linked, layout.old, layout.kept⟩
  have rebuilt : noting.rebuildLanes.bump.ledger = (s.ledger.leave sid).relay
      noting.rebuildLanes.ledger.slots noting.rebuildLanes.nextLaneId := by
    rw [← ledger]
    rfl
  have settled : ∀ oldest error,
      (session.order.foldl (fun s claim => s.settleHeld env session oldest error claim)
        noting.rebuildLanes.bump).books
      = ((s.ledger.close sid).relay noting.rebuildLanes.ledger.slots
          noting.rebuildLanes.nextLaneId, s.nextPid) := by
    intro oldest error
    rw [books_settleHeld_foldl, rebuilt, closes]
    exact congrArg (Prod.mk _) drawn
  by_cases empty : session.order = []
  · have settled := settled none ""
    rw [empty, List.foldl_nil] at settled
    rw [if_pos empty]
    split
    · exact (books_strike ..).trans settled
    · exact settled
  · rw [if_neg empty]
    split
    · exact settled _ _
    · split
      · exact (books_strike ..).trans (settled _ _)
      · exact settled _ _

theorem Coherent.endSession (coherent : s.Coherent) (sid : Sid) (killed : Bool)
    : (s.endSession env sid killed).Coherent := by
  cases found : s.sessions.get? sid with
  | none => simpa [Scheduler.endSession, found] using coherent
  | some session =>
      obtain ⟨slots, next, layout, books⟩ := books_endSession env coherent found killed
      apply coherent.of_sound books
      · simp [Ledger.relay, Ledger.close, Ledger.leave, Ledger.free, ledger, found]
      · exact (coherent.sound.close sid).relay layout

theorem Coherent.foldl {α : Type} {f : Scheduler → α → Scheduler}
    (keeps : ∀ s x, s.Coherent → (f s x).Coherent) (steps : List α)
    : ∀ {s : Scheduler}, s.Coherent → (steps.foldl f s).Coherent := by
  induction steps with
  | nil => exact fun coherent => coherent
  | cons x rest ih => exact fun coherent => ih (keeps _ x coherent)

theorem Coherent.changeSession (coherent : s.Coherent hand) (sid : Sid)
    {change : Session → Session} (same : ∀ session, (change session).holder = session.holder)
    : (s.changeSession sid change).Coherent hand :=
  coherent.of_books (books_changeSession s sid same)

theorem Coherent.killSession (coherent : s.Coherent) (sid : Sid) (fatalError : Option String)
    : (s.killSession env sid fatalError).Coherent := by
  apply Coherent.endSession
  exact coherent.changeSession sid (fun _ => rfl)

theorem Coherent.killSessionBlaming (coherent : s.Coherent) (sid : Sid) (error : String)
    : (s.killSessionBlaming env sid error).Coherent := by
  apply Coherent.endSession
  exact coherent.changeSession sid (fun _ => rfl)

theorem Coherent.closeSession (coherent : s.Coherent) (sid : Sid)
    : (s.closeSession env sid).Coherent := by
  unfold Scheduler.closeSession
  cases s.sessions.get? sid with
  | none => exact coherent
  | some session =>
      have closing : (s.changeSession sid (fun session =>
          { session with closing := true, closingSince := env.mono })).Coherent :=
        coherent.changeSession sid (fun _ => rfl)
      dsimp only
      split
      · exact coherent
      · split
        · exact closing
        · exact closing.endSession env sid false

theorem Coherent.cancelSession (coherent : s.Coherent) (sid : Sid)
    : (s.cancelSession env sid).Coherent := by
  apply Coherent.killSession
  exact coherent.of_books rfl

-- Benchmarks

theorem Coherent.preemptForBench (coherent : s.Coherent) (machine : String)
    : (s.preemptForBench env machine).Coherent := by
  unfold Scheduler.preemptForBench
  exact Coherent.foldl (fun _ sid coherent => coherent.killSession env sid none) _
    (coherent.of_books rfl)

theorem Coherent.benchAdvance (coherent : s.Coherent) (machine : String)
    : (s.benchAdvance env machine).Coherent := by
  unfold Scheduler.benchAdvance
  split
  · split
    · exact coherent.of_books (books_releaseQueue ..)
    · exact coherent
  · split
    · exact coherent
    · dsimp only
      split
      · exact coherent.of_books rfl
      · exact (coherent.preemptForBench env machine).of_books rfl

theorem Coherent.benchFinish (coherent : s.Coherent) (machine : String) (place : ℕ)
    (ended : BenchEnd)
    : (s.benchFinish env machine place ended).Coherent := by
  unfold Scheduler.benchFinish
  cases (s.bench.lines.get? machine).bind (fun runs => runs[place]?) with
  | none => exact coherent
  | some run =>
      dsimp only
      generalize settled_def : (if run.autobench then _ else _ : Scheduler) = settled
      have settledCoherent : settled.Coherent := by
        rw [← settled_def]
        split
        · exact coherent.of_books (books_autobenchSettled ..)
        · exact coherent.of_books rfl
      split
      · exact settledCoherent.benchAdvance env machine
      · exact settledCoherent

theorem Coherent.benchSampleBuilt (coherent : s.Coherent) (machine : String) (bid : ℕ)
    (built : Bool)
    : (s.benchSampleBuilt env machine bid built).Coherent := by
  have packed := coherent.of_books (books_changeHead s machine
    (fun head => { head with building := false }))
  unfold Scheduler.benchSampleBuilt
  split
  · dsimp only
    split
    · exact packed.benchFinish env machine 0 .failed
    · split
      · exact packed.benchFinish env machine 0 .failed
      · split
        · exact packed.of_books rfl
        · apply Coherent.benchFinish
          exact packed.of_books rfl
  · exact coherent

theorem Coherent.benchEnqueue (coherent : s.Coherent) {request : BenchRequest}
    {queued : Scheduler} (accepted : s.benchEnqueue env request = .ok queued)
    : queued.Coherent := by
  unfold Scheduler.benchEnqueue at accepted
  cases checked : s.benchAccepted env (benchMachine request.processor) request with
  | error refusal => simp [checked, bind, Except.bind] at accepted
  | ok row =>
      simp only [checked, bind, Except.bind, pure, Except.pure, Except.ok.injEq] at accepted
      subst accepted
      apply Coherent.benchAdvance
      exact coherent.of_books rfl

theorem Coherent.benchCancel (coherent : s.Coherent) (key processor : String)
    : (s.benchCancel env key processor).Coherent := by
  unfold Scheduler.benchCancel
  dsimp only
  split
  · exact coherent
  · exact coherent.benchFinish env _ _ .cancelled

theorem Coherent.benchEvent (coherent : s.Coherent) (pid : Pid) (bid : ℕ) (event : BenchEvent)
    : (s.benchEvent env pid bid event).Coherent := by
  unfold Scheduler.benchEvent
  split
  · exact coherent
  · split
    · exact coherent
    · cases event with
      | report => exact coherent
      | completed => exact coherent.benchFinish env _ _ .completed
      | exit => exact coherent.benchFinish env _ _ .failed

theorem Coherent.benchTick (coherent : s.Coherent)
    : (s.benchTick env).Coherent :=
  Coherent.foldl (fun _ machine coherent => coherent.benchFinish env machine 0 .failed) _ coherent

theorem Coherent.drainAutobenchRequest (coherent : s.Coherent) (wanted : String × String)
    : (s.drainAutobenchRequest env wanted).Coherent := by
  unfold Scheduler.drainAutobenchRequest
  dsimp only
  split
  · split
    · exact coherent.of_books (books_autobenchSettled ..)
    · split
      case _ queued => exact coherent.benchEnqueue env queued
      · exact coherent.of_books (books_autobenchSettled ..)
  · exact coherent.of_books rfl

theorem Coherent.drainAutobenchRequests (coherent : s.Coherent)
    : (s.drainAutobenchRequests env).Coherent := by
  unfold Scheduler.drainAutobenchRequests
  exact Coherent.foldl (fun _ wanted coherent => coherent.drainAutobenchRequest env wanted) _
    (coherent.of_books rfl)

-- Machines

theorem Coherent.dropProcessor (coherent : s.Coherent) (pid : Pid)
    : (s.dropProcessor env pid).Coherent := by
  unfold Scheduler.dropProcessor
  cases s.machines.get? pid with
  | none => exact coherent
  | some machine =>
      have left := (coherent.vacate pid).of_books (books_benchMachineLeft _ env machine.name)
      exact left.rebuildLanes.of_books rfl

theorem Coherent.dropProcessors (coherent : s.Coherent) (pids : List Pid)
    : (s.dropProcessors env pids).Coherent :=
  Coherent.foldl (fun _ pid coherent => coherent.dropProcessor env pid) pids coherent

theorem Coherent.registered (coherent : s.Coherent) {machines : OrderedMap Pid Machine}
    {pid : Pid} {machine : Machine} {drawn : ℕ}
    (read : ∀ asked, machines.get? asked
      = if asked = pid then some machine else s.machines.get? asked)
    (safe : machine.connected = true ∨ s.ledger.linked pid = none) (grows : s.nextPid ≤ drawn)
    (fresh : ∀ serial, pid = .remote serial → serial < drawn)
    : Coherent { s with
        machines := machines
        nextPid := drawn
      } := by
  unfold Coherent
  rw [books_registered s read drawn]
  refine ⟨coherent.sound.link safe, ?_⟩
  intro serial registered
  by_cases same : Pid.remote serial = pid
  · exact fresh serial same.symm
  · apply Nat.lt_of_lt_of_le (coherent.drawn serial _) grows
    simpa [books, Ledger.link, Function.update_of_ne same] using registered

theorem Coherent.register (coherent : s.Coherent) (input : RegisterInput)
    : (s.register env input).2.Coherent := by
  unfold Scheduler.register
  dsimp only
  split
  · exact coherent
  · have cleared := coherent.dropProcessors env (s.replaced env input ++ s.excess env input)
    generalize s.dropProcessors env (s.replaced env input ++ s.excess env input) = after
      at cleared ⊢
    -- a serial not drawn yet names no machine
    have unregistered : after.ledger.linked (.remote after.nextPid) = none := by
      by_contra registered
      exact absurd (cleared.drawn after.nextPid (Option.isSome_iff_ne_none.mpr registered))
        (Nat.lt_irrefl _)
    apply cleared.registered (fun asked => OrderedMap.get?_insert ..) (.inr unregistered)
      (Nat.le_succ _)
    intro serial same
    exact Pid.remote.inj same ▸ Nat.lt_succ_self _

theorem Coherent.joined (coherent : s.Coherent)
    : (s.joined env).Coherent := by
  apply Coherent.of_books _ (books_maybeStartScan ..)
  exact coherent.rebuildLanes.of_books rfl

theorem Coherent.socketOpen (coherent : s.Coherent) (pid : Pid) (username : String)
    : (s.socketOpen env pid username).2.Coherent := by
  unfold Scheduler.socketOpen
  cases found : s.machines.get? pid with
  | none => exact coherent
  | some machine =>
      dsimp only
      split
      · exact coherent
      · split
        · exact coherent.dropProcessor env pid
        · apply Coherent.joined
          exact coherent.changeMachine_of_up (by simp [OrderedMap.contains, found])
            (fun _ => rfl)

theorem Coherent.localUp (coherent : s.Coherent) (engines : List String) (version : String)
    : (s.localUp env engines version).Coherent := by
  apply Coherent.joined
  exact coherent.registered (fun asked => OrderedMap.get?_insertFront ..) (.inl rfl) le_rfl nofun

theorem Coherent.seen (coherent : s.Coherent) (pid : Pid)
    : (s.seen env pid).Coherent :=
  coherent.of_books (books_changeMachine s pid (fun _ => rfl))

theorem Coherent.catalogChanged (coherent : s.Coherent) (pid : Pid) (engines : List String)
    : (s.catalogChanged env pid engines).Coherent := by
  unfold Scheduler.catalogChanged
  split
  · apply Coherent.joined
    exact coherent.of_books (books_changeMachine s pid (fun _ => rfl))
  · exact coherent

theorem Coherent.setAvailability (coherent : s.Coherent) (pid : Pid)
    (availability : Availability)
    : (s.setAvailability env pid availability).Coherent := by
  unfold Scheduler.setAvailability
  split
  · exact coherent
  · split
    · split
      · exact coherent
      · exact coherent.of_books (books_changeMachine s pid (fun _ => rfl))
    · dsimp only
      generalize (if availability.paused then _ else none : Option Availability) = pause
      have changed : (s.changeMachine pid (fun machine =>
          { machine with pause := pause })).Coherent :=
        coherent.of_books (books_changeMachine s pid (fun _ => rfl))
      have rebuilt := changed.rebuildLanes.of_books (books_wakeLanes _)
      split
      · exact rebuilt
      · exact rebuilt.of_books (books_maybeStartScan ..)

theorem Coherent.releaseClaim (coherent : s.Coherent) (pid : Pid) (claim : ClaimId)
    : (s.releaseClaim pid claim).Coherent := by
  unfold Scheduler.releaseClaim
  split
  · exact coherent
  · split
    · exact coherent
    case _ pops => exact (coherent.popJob pops).release true

theorem Coherent.released (coherent : s.Coherent) (pid : Pid) (claims : List ClaimId)
    : (s.released pid claims).Coherent := by
  have back := Coherent.foldl (fun _ claim coherent => coherent.releaseClaim pid claim) claims
    coherent
  unfold Scheduler.released
  dsimp only
  split
  · exact back.of_books rfl
  · exact back

-- Settings and the end

theorem Coherent.stop (coherent : s.Coherent)
    : (s.stop env).Coherent := by
  unfold Scheduler.stop
  apply Coherent.dropProcessors
  apply Coherent.foldl (fun _ sid coherent => coherent.killSession env sid none)
  exact coherent.of_books rfl

theorem Coherent.applySettings (coherent : s.Coherent) (settings : Settings)
    : (s.applySettings env settings).Coherent := by
  unfold Scheduler.applySettings
  dsimp only
  generalize killed_def : List.foldl _ _ _ = killed
  have killedCoherent : killed.Coherent := by
    rw [← killed_def]
    apply Coherent.foldl (fun _ sid coherent => coherent.cancelSession env sid)
    exact coherent.of_books rfl
  have pruned : Coherent (Scheduler.pruneFailures
      { killed with walkEpoch := killed.walkEpoch + 1 } env) := killedCoherent.of_books rfl
  split
  · exact pruned.rebuildLanes
  · exact pruned

theorem Coherent.setUpdateDrain (coherent : s.Coherent) (on : Bool)
    : (s.setUpdateDrain env on).Coherent := by
  unfold Scheduler.setUpdateDrain
  split
  · exact coherent
  · dsimp only
    split
    · exact coherent.of_books rfl
    · apply coherent.of_books
      rw [books_maybeStartScan, books_wakeLanes]
      rfl

theorem Coherent.retryFailed (coherent : s.Coherent) (rel : Option String)
    : (s.retryFailed env rel).Coherent := by
  unfold Scheduler.retryFailed
  dsimp only
  split
  · exact coherent.of_books rfl
  · exact coherent.of_books (books_startScan ..)

-- Claims

theorem pick_spec (lane : Lane) (machine : String) (gid : Option String) (survey : Survey)
    (jobs : List Job)
    : ∀ s : Scheduler, (pick env lane machine gid survey jobs s).2.books = s.books
      ∧ ∀ job row, (pick env lane machine gid survey jobs s).1 = some (job, row)
        → s.ledger.leases job = none := by
  induction jobs with
  | nil => exact fun s => ⟨rfl, nofun⟩
  | cons job rest ih =>
      intro s
      rw [pick]
      split
      · exact ih s
      · split
        · exact ih s
        case _ row _ looked =>
          split
          · obtain ⟨books, free⟩ := ih (s.forgetCandidate job)
            rw [books_forgetCandidate] at books
            have ledger : (s.forgetCandidate job).ledger = s.ledger :=
              congrArg Prod.fst (books_forgetCandidate s job)
            exact ⟨books, ledger ▸ free⟩
          · split
            · exact ih s
            · split
              · obtain ⟨books, free⟩ := ih (s.wantAutobench lane.pid row)
                rw [books_wantAutobench] at books
                have ledger : (s.wantAutobench lane.pid row).ledger = s.ledger :=
                  congrArg Prod.fst (books_wantAutobench s lane.pid row)
                exact ⟨books, ledger ▸ free⟩
              · refine ⟨rfl, ?_⟩
                intro picked row' same
                obtain ⟨rfl, rfl⟩ := Prod.mk.inj (Option.some.inj same)
                have unclaimed : s.claims.contains job = false := by
                  by_contra held
                  simp [passesOver, unavailable, held] at looked
                simpa [ledger, OrderedMap.contains] using unclaimed

theorem claim_spec (s : Scheduler) (laneId : ℕ) (gid : Option String)
    : (s.claim env laneId gid).job = none ∧ (s.claim env laneId gid).state.books = s.books
      ∨ ∃ lane ∈ s.lanes, ∃ job, lane.id = laneId ∧ (s.claim env laneId gid).job = some job
        ∧ s.ledger.leases job = none
        ∧ (s.claim env laneId gid).state.books = (s.ledger.take job lane.pid, s.nextPid) := by
  unfold claim
  cases found : s.lanes.find? (fun lane => lane.id = laneId) with
  | none => exact .inl ⟨rfl, rfl⟩
  | some lane =>
      have known : lane ∈ s.lanes := List.mem_of_find?_eq_some found
      have sameId : lane.id = laneId := by simpa using List.find?_some found
      dsimp only
      cases s.machines.get? lane.pid with
      | none => exact .inl ⟨rfl, rfl⟩
      | some machine =>
          dsimp only
          split
          · exact .inl ⟨rfl, rfl⟩
          · have surveyed := books_survey s env lane gid
            generalize s.survey env lane gid = looked at surveyed ⊢
            obtain ⟨survey, after⟩ := looked
            obtain ⟨picked, free⟩ := pick_spec env lane machine.name gid survey
              (after.claimOrder env lane gid survey) after
            have books := picked.trans surveyed
            split
            case _ job row picks answered =>
              right
              have ledger : after.ledger = s.ledger := congrArg Prod.fst surveyed
              refine ⟨lane, known, job, sameId, rfl, ?_, ?_⟩
              · exact ledger ▸ free job row (by rw [answered])
              · rw [answered] at books
                have ledger' : picks.ledger = s.ledger := congrArg Prod.fst books
                have drawn : picks.nextPid = s.nextPid := congrArg Prod.snd books
                rw [books_take, ledger', drawn]
            case _ picks answered =>
              left
              rw [answered] at books
              refine ⟨rfl, Eq.trans ?_ books⟩
              exact books_changeLane picks laneId _ (fun _ => rfl)

theorem Coherent.submit {job : Job} (coherent : s.Coherent (some job)) {sid : Sid}
    {session : Session} (found : s.sessions.get? sid = some session) {lease : Lease Pid}
    (leased : s.ledger.leases job = some lease) (ofMachine : lease.worker = session.pid)
    : (s.submit env sid job).2.Coherent := by
  have open_ : s.ledger.sessions sid = some session.holder := by simp [ledger, found]
  obtain ⟨-, books⟩ | ⟨-, books⟩ := submit_spec s env found job
  · exact coherent.of_sound books rfl (coherent.sound.submit open_ leased ofMachine)
  · exact coherent.of_sound books rfl coherent.sound.number.giveBack

theorem Coherent.failSessionStart {job : Job} (coherent : s.Coherent (some job)) (pid : Pid)
    (row : Generation) (error : String)
    : (s.failSessionStart env pid row job error).Coherent := by
  unfold Scheduler.failSessionStart
  cases s.machines.get? pid with
  | none => exact coherent.release true
  | some machine =>
      have noted := coherent.of_books (books_noteStartFailure s env pid row machine.name error)
      dsimp only
      split
      · split
        · exact noted.release true
        · exact (noted.release true).of_books (books_strike ..)
      · exact noted.finish env (some error)

theorem Coherent.openSession {job : Job} (coherent : s.Coherent (some job)) {laneId : ℕ}
    {lease : Lease Pid} (leased : s.ledger.leases job = some lease)
    (idle : ⟨laneId, lease.worker, none⟩ ∈ s.ledger.slots)
    : (s.openSession env laneId job).Coherent := by
  obtain ⟨claimed, claims, rfl⟩ := Option.map_eq_some_iff.mp leased
  have linked := coherent.sound.slotted.linked _ idle
  obtain ⟨machine, registered, -⟩ := Option.map_eq_some_iff.mp linked
  have registered : s.machines.get? claimed.pid = some machine := registered
  unfold Scheduler.openSession
  simp only [claims, registered]
  split
  · -- the session is in the books before its first volume is sent
    generalize opened_def : Scheduler.mk .. = opened
    have opens : opened.books = (s.ledger.begin laneId claimed.pid, s.nextPid) := by
      rw [← opened_def]
      refine congrArg₂ (fun slots sessions => ({ s.ledger with
        slots := slots
        sessions := sessions
        nextSession := s.nextSid + 1
      }, s.nextPid)) ?_ ?_
      · simp only [changeLane, Ledger.assign, ledger, List.map_map]
        apply List.map_congr_left
        intro lane _
        by_cases same : lane.id = laneId <;> simp [Lane.slot, same]
      · funext asked
        simp only [OrderedMap.get?_insert, Function.update_apply, ledger]
        split <;> rfl
    have sessionIn : ∃ session, opened.sessions.get? s.nextSid = some session
        ∧ session.pid = claimed.pid := by
      rw [← opened_def]
      exact ⟨_, (OrderedMap.get?_insert ..).trans (if_pos rfl), rfl⟩
    obtain ⟨session, found, ofMachine⟩ := sessionIn
    have openedCoherent : opened.Coherent (some job) :=
      coherent.of_sound opens rfl (coherent.sound.begin idle)
    have leasedIn : opened.ledger.leases job = some claimed.lease := by
      rw [show opened.ledger = _ from congrArg Prod.fst opens]
      exact leased
    have submitted := openedCoherent.submit env found leasedIn ofMachine.symm
    split
    · exact submitted
    · exact submitted.changeSession _ (fun _ => rfl)
  · apply Coherent.failSessionStart
    exact coherent.of_sound rfl rfl coherent.sound.draw

theorem Coherent.openLane (coherent : s.Coherent) {lane : Lane} (known : lane ∈ s.lanes)
    (idle : lane.session = none)
    : (s.openLane env lane).Coherent := by
  unfold Scheduler.openLane
  dsimp only
  obtain ⟨answered, books⟩ | ⟨other, known', job, sameId, answered, free, books⟩ :=
    claim_spec env s lane.id none
  · rw [answered]
    apply (coherent.of_books books).of_books
    exact books_changeLane _ lane.id _ (fun _ => rfl)
  · rw [answered]
    -- the lane found by its id is this one
    have sameSlot := coherent.sound.slotted.eq_of_id
      (List.mem_map_of_mem known') (List.mem_map_of_mem known) (show other.slot.id = lane.slot.id from sameId)
    have ofMachine : other.pid = lane.pid := congrArg Slot.worker sameSlot
    have taken : (s.claim env lane.id none).state.Coherent (some job) :=
      coherent.of_sound books rfl (coherent.sound.take free other.pid)
    have ledger : (s.claim env lane.id none).state.ledger = s.ledger.take job other.pid :=
      congrArg Prod.fst books
    have leased : (s.claim env lane.id none).state.ledger.leases job
        = some { worker := other.pid } := by
      rw [ledger]
      exact Function.update_self ..
    apply taken.openSession env leased
    · rw [ledger, ofMachine]
      have slot : lane.slot = ⟨lane.id, lane.pid, none⟩ := by simp [Lane.slot, idle]
      exact slot ▸ List.mem_map_of_mem known

theorem Coherent.noteDrain (coherent : s.Coherent) (sid : Sid)
    : (s.noteDrain env sid).Coherent := by
  apply coherent.changeSession sid
  intro session
  split <;> rfl

theorem Coherent.topUpTurn (coherent : s.Coherent) (sid : Sid)
    : (s.topUpTurn env sid).2.Coherent := by
  unfold Scheduler.topUpTurn
  cases found : s.sessions.get? sid with
  | none => exact coherent
  | some session =>
      dsimp only
      split
      · exact coherent
      · obtain ⟨answered, books⟩ | ⟨lane, known, job, sameId, answered, free, books⟩ :=
          claim_spec env s session.lane (some session.row.id)
        · rw [answered]
          apply (coherent.of_books books).changeSession sid
          intro other
          split <;> rfl
        · rw [answered]
          dsimp only
          generalize claimed_def : Scheduler.changeSession _ sid _ = claimed
          have claimedBooks : claimed.books = (s.ledger.take job lane.pid, s.nextPid) := by
            rw [← claimed_def, ← books]
            exact books_changeSession _ sid (fun _ => rfl)
          have ledger : claimed.ledger = s.ledger.take job lane.pid :=
            congrArg Prod.fst claimedBooks
          -- the lane found by its id is the session's own, so of its machine
          have open_ : s.ledger.sessions sid = some session.holder := by
            simp [Scheduler.ledger, found]
          have slot := coherent.sound.slotted.slotOf sid session.holder open_
          have sameSlot := coherent.sound.slotted.eq_of_id (List.mem_map_of_mem known) slot
            (show lane.slot.id = session.lane from sameId)
          have ofMachine : lane.pid = session.pid := congrArg Slot.worker sameSlot
          have taken : claimed.Coherent (some job) :=
            coherent.of_sound claimedBooks rfl (coherent.sound.take free lane.pid)
          have openClaimed : claimed.ledger.sessions sid = some session.holder := ledger ▸ open_
          obtain ⟨known', found', holder⟩ := Option.map_eq_some_iff.mp openClaimed
          have leased : claimed.ledger.leases job = some { worker := lane.pid } := by
            rw [ledger]
            exact Function.update_self ..
          have submitted := taken.submit env found' leased
            (ofMachine.trans (congrArg Holder.worker holder).symm)
          split
          · exact submitted.changeSession sid (fun _ => rfl)
          · split
            · exact submitted.changeSession sid (fun _ => rfl)
            · exact submitted

theorem Coherent.closeWhenEmpty (coherent : s.Coherent) (sid : Sid)
    : (s.closeWhenEmpty env sid).Coherent := by
  unfold Scheduler.closeWhenEmpty
  split
  · exact coherent.closeSession env sid
  · exact coherent

-- Results and returned claims

theorem books_countReturn (s : Scheduler) (job : Job) (context : ReturnContext)
    : (s.countReturn env job context).books = (s.ledger.giveBack job, s.nextPid) := by
  unfold countReturn
  generalize ((s.breakers.get? context.pid).getD {}).noteReturn context.klass context.error
    env.now = answer
  obtain ⟨breaker, noted⟩ := answer
  dsimp only
  split
  · rw [books_finish]
    split <;> rfl
  · rw [books_release]
    split <;> rfl

theorem Coherent.countReturn {job : Job} (coherent : s.Coherent (some job))
    (context : ReturnContext)
    : (s.countReturn env job context).Coherent :=
  coherent.of_sound (books_countReturn env s job context) rfl coherent.sound.giveBack

theorem Coherent.judgeReturned {entry : SessionJob} (coherent : s.Coherent (some entry.job))
    (pid : Pid) (machine : Machine) (klass error : String)
    : (s.judgeReturned env pid machine entry klass error).Coherent := by
  unfold Scheduler.judgeReturned
  dsimp only
  generalize (if klass = "" then "local" else truncateChars klass 40) = klass'
  generalize ReturnContext.mk .. = context
  have judged : Coherent (if klass' = "stalled" ∨ klass' = "differs" then
      s.handOver entry.job (.readOwnCopy entry.job context)
      else s.countReturn env entry.job context) := by
    split
    · exact coherent.handOver (.readOwnCopy entry.job context) rfl
    · exact coherent.countReturn env context
  split
  · exact coherent.release false
  · split
    · exact coherent.release false
    · exact judged
    · split
      · exact coherent.release true
      · exact judged

theorem map_erase_of_nodup {α β : Type} [DecidableEq α] [DecidableEq β] {f : α → β} {x : α}
    {xs : List α} (distinct : (xs.map f).Nodup) (member : x ∈ xs)
    : (xs.erase x).map f = (xs.map f).filter (· ≠ f x) := by
  induction xs with
  | nil => cases member
  | cons y rest ih =>
      obtain ⟨absent, restDistinct⟩ := List.nodup_cons.mp distinct
      by_cases same : y = x
      · subst same
        have kept : (rest.map f).filter (· ≠ f y) = rest.map f := by
          apply List.filter_eq_self.mpr
          intro z inRest
          exact decide_eq_true fun eq => absent (eq ▸ inRest)
        rw [List.erase_cons_head, List.map_cons, List.filter_cons_of_neg (by simp), kept]
      · have later : x ∈ rest := (List.mem_cons.mp member).resolve_left (fun eq => same eq.symm)
        have other : f y ≠ f x := fun eq => absent (eq ▸ List.mem_map_of_mem later)
        rw [List.erase_cons_tail (by simpa using same), List.map_cons, List.map_cons,
          List.filter_cons_of_pos (by simpa using other), ih restDistinct later]

theorem ledger_conclude (coherent : s.Coherent) {task : Task} (working : task ∈ s.tasks)
    : { s with tasks := s.tasks.erase task }.ledger.giveBack task.job
      = s.ledger.conclude task.job := by
  have tasks : (s.tasks.erase task).map Task.job
      = (s.tasks.map Task.job).filter (· ≠ task.job) :=
    map_erase_of_nodup coherent.sound.leased.tasksNodup working
  exact congrArg (fun tasks => { s.ledger.giveBack task.job with tasks := tasks }) tasks

theorem Coherent.conclude (coherent : s.Coherent) {task : Task} (working : task ∈ s.tasks)
    {s' : Scheduler} {ended : Scheduler} (given : s'.books = (ended.ledger.giveBack task.job, s.nextPid))
    (same : ended.ledger.giveBack task.job
      = { s with tasks := s.tasks.erase task }.ledger.giveBack task.job)
    : s'.Coherent := by
  have books : s'.books = (s.ledger.conclude task.job, s.nextPid) := by
    rw [given, same, ledger_conclude coherent working]
  exact coherent.of_sound books rfl (coherent.sound.conclude (List.mem_map_of_mem working))

theorem Coherent.collected (coherent : s.Coherent) {job : Job} (working : .collect job ∈ s.tasks)
    (outcome : Outcome)
    : (s.collected env job outcome).Coherent := by
  cases outcome with
  | installed => exact coherent.conclude working (books_finish ..) rfl
  | failed error => exact coherent.conclude working (books_finish ..) rfl
  | discarded => exact coherent.conclude working (books_release ..) rfl
  | busy => exact coherent.conclude working (books_release ..) rfl

theorem giveBack_changeClaim (s : Scheduler) (job : Job) (change : Claimed → Claimed)
    : (s.changeClaim job change).ledger.giveBack job = s.ledger.giveBack job := by
  have leases : Function.update (s.changeClaim job change).ledger.leases job none
      = Function.update s.ledger.leases job none := by
    funext asked
    simp only [Function.update_apply, ledger, changeClaim, OrderedMap.get?_modify]
    split <;> rfl
  exact congrArg (fun leases => { s.ledger with leases := leases }) leases

theorem Coherent.ownCopyRead (coherent : s.Coherent) {job : Job} {context : ReturnContext}
    (working : .readOwnCopy job context ∈ s.tasks) (error : Option String)
    : (s.ownCopyRead env job context error).Coherent := by
  cases error with
  | none => exact coherent.conclude working (books_countReturn ..) (giveBack_changeClaim ..)
  | some error => exact coherent.conclude working (books_finish ..) (giveBack_changeClaim ..)

end Scheduler

end MokuroBunko.Server
