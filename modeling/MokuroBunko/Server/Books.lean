import MokuroBunko.Lib.Ledger
import MokuroBunko.Server.Events

/-! The scheduler's books: its machines, lanes, sessions and claims as a ledger of leased
jobs. What touches no book leaves the ledger as it is, and each operation on the books is an
operation of the ledger.
-/

namespace MokuroBunko.Server

open MokuroBunko.Lib MokuroBunko.Data MokuroBunko.Sched

/-- A lane as a slot of its machine. -/
def Lane.slot (lane : Lane) : Slot Pid := ⟨lane.id, lane.pid, lane.session⟩

/-- A session as a holder of jobs. -/
def Session.holder (session : Session) : Holder Pid Job where
  worker := session.pid
  slot := session.lane
  order := session.order
  held := fun claim => (session.jobs.get? claim).map SessionJob.job

/-- A claim as a lease. -/
def Claimed.lease (claim : Claimed) : Lease Pid := ⟨claim.pid, claim.sid, claim.claim, claim.settling⟩

namespace Scheduler

/-- The ledger the state keeps. -/
def ledger (s : Scheduler) : Ledger Pid Job where
  linked := fun pid => (s.machines.get? pid).map Machine.connected
  slots := s.lanes.map Lane.slot
  nextSlot := s.nextLaneId
  sessions := fun sid => (s.sessions.get? sid).map Session.holder
  nextSession := s.nextSid
  leases := fun job => (s.claims.get? job).map Claimed.lease
  lastTicket := s.claimSeq
  tasks := s.tasks.map Task.job

/-- The ledger and the draws of registrations. -/
def books (s : Scheduler) : Ledger Pid Job × ℕ := (s.ledger, s.nextPid)

variable (s : Scheduler) (env : Env)

-- What touches no book

@[simp] theorem books_bump : s.bump.books = s.books := rfl

theorem books_lanes {change : Lane → Lane} (same : ∀ lane, (change lane).slot = lane.slot)
    : { s with lanes := s.lanes.map change }.books = s.books := by
  have slots : (s.lanes.map change).map Lane.slot = s.lanes.map Lane.slot := by
    rw [List.map_map]
    exact List.map_congr_left fun lane _ => same lane
  exact congrArg (fun slots => ({ s.ledger with slots := slots }, s.nextPid)) slots

theorem books_changeLane (id : ℕ) (change : Lane → Lane)
    (same : ∀ lane, (change lane).slot = lane.slot)
    : { s with lanes := changeLane id change s.lanes }.books = s.books := by
  apply books_lanes
  intro lane
  split
  · exact same lane
  · rfl

@[simp] theorem books_wakeLanes : s.wakeLanes.books = s.books := books_lanes s (fun _ => rfl)

@[simp] theorem books_candidates (exclude : Job → Bool)
    : (s.candidates env exclude).2.books = s.books := rfl

@[simp] theorem books_resetScan : (s.resetScan env).books = s.books := by
  unfold resetScan
  split <;> rfl

@[simp] theorem books_startScan : (s.startScan env).books = s.books := by
  have opened := books_resetScan { s.pruneFailures env with
    attempted := ∅
    returnedBy := .empty
  } env
  unfold startScan
  rw [books_wakeLanes]
  exact opened

@[simp] theorem books_maybeStartScan : (s.maybeStartScan env).books = s.books := by
  unfold maybeStartScan
  split
  · rfl
  · exact books_startScan s env

@[simp] theorem books_maybeEndScan : s.maybeEndScan.books = s.books := by
  unfold maybeEndScan
  split <;> rfl

@[simp] theorem books_forgetCandidate (job : Job) : (s.forgetCandidate job).books = s.books := by
  unfold forgetCandidate
  cases s.owed.get? job.rel with
  | none => rfl
  | some volume =>
      dsimp only
      split_ifs <;> rfl

@[simp] theorem books_recordOutcome (claim : Claimed) (job : Job) (unblamed : Bool)
    (failure : Option String)
    : (s.recordOutcome env claim job unblamed failure).books = s.books := by
  unfold recordOutcome
  split
  · exact books_forgetCandidate s job
  · split
    · rfl
    · split <;> rfl

@[simp] theorem books_strike (row : Generation) (machine : String)
    : (s.strike row machine).books = s.books := by
  unfold strike
  dsimp only
  split <;> rfl

@[simp] theorem books_noteStartFailure (pid : Pid) (row : Generation) (machine error : String)
    : (s.noteStartFailure env pid row machine error).books = s.books := rfl

@[simp] theorem books_noteEndedStart (session : Session) (unblamed : Bool)
    : (s.noteEndedStart env session unblamed).books = s.books := by
  unfold noteEndedStart
  split
  · split <;> rfl
  · rfl

@[simp] theorem books_holdQueue (machine : String) : (s.holdQueue machine).books = s.books := rfl

@[simp] theorem books_releaseQueue (machine : String)
    : (s.releaseQueue env machine).books = s.books := by
  unfold releaseQueue
  rw [books_maybeStartScan, books_wakeLanes]
  rfl

@[simp] theorem books_changeHead (machine : String) (change : BenchRun → BenchRun)
    : (s.changeHead machine change).books = s.books := rfl

@[simp] theorem books_autobenchSettled (machine gid : String) (completed : Bool)
    : (s.autobenchSettled machine gid completed).books = s.books := by
  unfold autobenchSettled
  rw [books_wakeLanes]
  rfl

@[simp] theorem books_benchMachineLeft (machine : String)
    : (s.benchMachineLeft env machine).books = s.books := by
  unfold benchMachineLeft
  split
  · rfl
  · dsimp only
    split
    · rw [books_releaseQueue]
      rfl
    · rfl

@[simp] theorem books_wantAutobench (pid : Pid) (row : Generation)
    : (s.wantAutobench pid row).books = s.books := by
  unfold wantAutobench
  split
  · rfl
  · dsimp only
    split <;> rfl

@[simp] theorem books_backedOffRows (pid : Pid) (rows : List String)
    : (s.backedOffRows env pid rows).2.books = s.books := by
  unfold backedOffRows
  split <;> rfl

@[simp] theorem books_eftLeft (asking : ℕ) (proposed : List Job)
    : (s.eftLeft env asking proposed).2.books = s.books := by
  unfold eftLeft
  split
  · rfl
  · dsimp only
    split
    · rfl
    · split
      · rfl
      · dsimp only
        split
        · rw [books_wakeLanes]
          rfl
        · rfl

@[simp] theorem books_survey (lane : Lane) (gid : Option String)
    : (s.survey env lane gid).2.books = s.books := by
  simp [survey]

theorem books_changeSession (sid : Sid) {change : Session → Session}
    (same : ∀ session, (change session).holder = session.holder)
    : (s.changeSession sid change).books = s.books := by
  have sessions : (s.changeSession sid change).ledger.sessions = s.ledger.sessions := by
    funext asked
    simp only [ledger, changeSession, OrderedMap.get?_modify]
    split
    · rw [Option.map_map]
      congr 1
      funext session
      exact same session
    · rfl
  exact congrArg (fun sessions => ({ s.ledger with sessions := sessions }, s.nextPid)) sessions

theorem books_changeMachine (pid : Pid) {change : Machine → Machine}
    (same : ∀ machine, (change machine).connected = machine.connected)
    : (s.changeMachine pid change).books = s.books := by
  have linked : (s.changeMachine pid change).ledger.linked = s.ledger.linked := by
    funext asked
    simp only [ledger, changeMachine, OrderedMap.get?_modify]
    split
    · rw [Option.map_map]
      congr 1
      funext machine
      exact same machine
    · rfl
  exact congrArg (fun linked => ({ s.ledger with linked := linked }, s.nextPid)) linked

theorem books_changeClaim (job : Job) {change : Claimed → Claimed}
    (same : ∀ claim, (change claim).lease = claim.lease)
    : (s.changeClaim job change).books = s.books := by
  have leases : (s.changeClaim job change).ledger.leases = s.ledger.leases := by
    funext asked
    simp only [ledger, changeClaim, OrderedMap.get?_modify]
    split
    · rw [Option.map_map]
      congr 1
      funext claim
      exact same claim
    · rfl
  exact congrArg (fun leases => ({ s.ledger with leases := leases }, s.nextPid)) leases

-- Operations on the books

theorem ledger_eraseClaim (job : Job)
    : { s with claims := s.claims.erase job }.ledger = s.ledger.giveBack job := by
  have leases : { s with claims := s.claims.erase job }.ledger.leases
      = Function.update s.ledger.leases job none := by
    funext asked
    simp only [ledger, OrderedMap.get?_erase, Function.update_apply]
    split <;> rfl
  exact congrArg (fun leases => { s.ledger with leases := leases }) leases

theorem giveBack_of_unclaimed {job : Job} (unclaimed : s.claims.get? job = none)
    : s.ledger.giveBack job = s.ledger := by
  have same : Function.update s.ledger.leases job none = s.ledger.leases := by
    rw [Function.update_eq_self_iff]
    simp [ledger, unclaimed]
  exact congrArg (fun leases => { s.ledger with leases := leases }) same

theorem books_release (job : Job) (retryThisScan : Bool)
    : (s.release job retryThisScan).books = (s.ledger.giveBack job, s.nextPid) := by
  unfold release
  cases claimed : s.claims.get? job with
  | none => rw [giveBack_of_unclaimed s claimed, books]
  | some claim => exact congrArg (·, s.nextPid) (ledger_eraseClaim s job)

theorem books_finish (job : Job) (failure : Option String)
    : (s.finish env job failure).books = (s.ledger.giveBack job, s.nextPid) := by
  unfold finish
  cases claimed : s.claims.get? job with
  | none => rw [giveBack_of_unclaimed s claimed, books]
  | some claim =>
      dsimp only
      rw [books_bump]
      have recorded := books_recordOutcome { s with
        claims := s.claims.erase job
        cancelled := s.cancelled.erase job
        downloadReturns :=
          if (failure.isSome && !s.machines.contains claim.pid) || decide (job ∈ s.cancelled) then
            s.downloadReturns
          else s.downloadReturns.erase job
      } env claim job
        ((failure.isSome && !s.machines.contains claim.pid) || decide (job ∈ s.cancelled)) failure
      exact recorded.trans (congrArg (·, s.nextPid) (ledger_eraseClaim s job))

theorem popJob_spec {sid : Sid} {claim : ClaimId} {entry : SessionJob} {popped : Scheduler}
    (pops : s.popJob sid claim = some (entry, popped))
    : s.ledger.Holds sid claim entry.job
      ∧ popped.books = (s.ledger.pop sid claim, s.nextPid) := by
  simp only [popJob, Option.bind_eq_bind, Option.bind_eq_some_iff, Option.pure_def,
    Option.some.injEq, Prod.mk.injEq] at pops
  obtain ⟨session, found, entry', held, rfl, rfl⟩ := pops
  constructor
  · exact ⟨session.holder, by simp [ledger, found], by simp [Session.holder, held]⟩
  · have sessions : (s.changeSession sid (fun session => { session with
        jobs := session.jobs.erase claim
        order := session.order.filter (· ≠ claim)
      })).ledger.sessions = (s.ledger.pop sid claim).sessions := by
      funext asked
      simp only [ledger, Ledger.pop, changeSession, OrderedMap.get?_modify,
        Function.update_apply]
      split
      case isTrue same =>
        subst same
        rw [Option.map_map, Option.map_map]
        congr 1
        funext other
        simp only [Function.comp_apply, Session.holder, Holder.mk.injEq, true_and]
        funext ticket
        simp only [OrderedMap.get?_erase, Function.update_apply]
        split <;> rfl
      case isFalse => rfl
    exact congrArg (fun sessions => ({ s.ledger with sessions := sessions }, s.nextPid)) sessions

theorem books_take (lane : Lane) (machine : String) (job : Job) (row : Generation)
    : (s.take env lane machine job row).books = (s.ledger.take job lane.pid, s.nextPid) := by
  have leases : (s.take env lane machine job row).ledger.leases
      = (s.ledger.take job lane.pid).leases := by
    funext asked
    simp only [ledger, Scheduler.take, bump, Ledger.take, OrderedMap.get?_insert,
      Function.update_apply]
    split <;> rfl
  have slots : (s.take env lane machine job row).ledger.slots = s.ledger.slots :=
    congrArg (fun books => books.1.slots) (books_changeLane s lane.id
      (fun lane => { lane with waitingForFaster := false }) (fun _ => rfl))
  exact congrArg₂ (fun leases slots => ({ s.ledger with
    leases := leases
    slots := slots
  }, s.nextPid)) leases slots

theorem submit_spec {sid : Sid} {session : Session} (found : s.sessions.get? sid = some session)
    (job : Job)
    : (s.submit env sid job).1 = true
        ∧ (s.submit env sid job).2.books = (s.ledger.submit sid job, s.nextPid)
      ∨ (s.submit env sid job).1 = false
        ∧ (s.submit env sid job).2.books = (s.ledger.number.giveBack job, s.nextPid) := by
  unfold submit
  rw [found]
  dsimp only
  split
  case isTrue =>
    refine .inl ⟨rfl, ?_⟩
    refine congrArg₂ (fun leases sessions => ({ s.ledger with
      lastTicket := s.claimSeq + 1
      leases := leases
      sessions := sessions
    }, s.nextPid)) ?_ ?_
    · funext asked
      simp only [ledger, OrderedMap.get?_modify, Function.update_apply, changeSession]
      split
      case isTrue same =>
        subst same
        rw [Option.map_map, Option.map_map]
        rfl
      case isFalse => rfl
    · funext asked
      simp only [ledger, OrderedMap.get?_modify, Function.update_apply, changeSession]
      split
      case isTrue same =>
        subst same
        rw [Option.map_map, Option.map_map]
        congr 1
        funext other
        simp only [Function.comp_apply, Session.holder, Holder.mk.injEq, true_and]
        funext ticket
        simp only [OrderedMap.get?_insert, Function.update_apply]
        split <;> rfl
      case isFalse => rfl
  case isFalse =>
    exact .inr ⟨rfl, books_release { s with claimSeq := s.claimSeq + 1 } job true⟩

theorem books_vacate (pid : Pid)
    : (s.vacate pid).books = (s.ledger.drop pid, s.nextPid) := by
  have linked : (s.vacate pid).ledger.linked = (s.ledger.drop pid).linked := by
    funext asked
    simp only [ledger, vacate, Ledger.drop, OrderedMap.get?_erase, Function.update_apply]
    split <;> rfl
  have slots : (s.vacate pid).ledger.slots = (s.ledger.drop pid).slots := by
    simp only [ledger, vacate, Ledger.drop, List.filter_map]
    rfl
  have sessions : (s.vacate pid).ledger.sessions = (s.ledger.drop pid).sessions := by
    funext asked
    simp only [ledger, vacate, Ledger.drop, OrderedMap.get?_retain, Option.filter_map]
    rfl
  have leases : (s.vacate pid).ledger.leases = (s.ledger.drop pid).leases := by
    funext asked
    simp only [ledger, vacate, Ledger.drop, OrderedMap.get?_retain, Option.filter_map]
    congr 2
    funext claim
    by_cases same : claim.pid = pid <;> simp [Claimed.lease, same]
  have parts : (s.vacate pid).books = ({ s.ledger with
      linked := (s.vacate pid).ledger.linked
      slots := (s.vacate pid).ledger.slots
      sessions := (s.vacate pid).ledger.sessions
      leases := (s.vacate pid).ledger.leases
    }, s.nextPid) := rfl
  rw [parts, linked, slots, sessions, leases]
  rfl

theorem books_changeMachine_of_up {pid : Pid} {change : Machine → Machine}
    (known : s.machines.contains pid) (up : ∀ machine, (change machine).connected = true)
    : (s.changeMachine pid change).books = (s.ledger.link pid true, s.nextPid) := by
  have linked : (s.changeMachine pid change).ledger.linked
      = (s.ledger.link pid true).linked := by
    funext asked
    simp only [ledger, changeMachine, Ledger.link, OrderedMap.get?_modify,
      Function.update_apply]
    split
    case isTrue same =>
      obtain ⟨machine, found⟩ := Option.isSome_iff_exists.mp known
      simp [same, found, up]
    case isFalse => rfl
  exact congrArg (fun linked => ({ s.ledger with linked := linked }, s.nextPid)) linked

theorem books_registered {machines : OrderedMap Pid Machine} {pid : Pid} {machine : Machine}
    (read : ∀ asked, machines.get? asked
      = if asked = pid then some machine else s.machines.get? asked) (drawn : ℕ)
    : { s with
        machines := machines
        nextPid := drawn
      }.books = (s.ledger.link pid machine.connected, drawn) := by
  have linked : (fun asked => (machines.get? asked).map Machine.connected)
      = (s.ledger.link pid machine.connected).linked := by
    funext asked
    simp only [read, Ledger.link, Function.update_apply]
    split <;> rfl
  exact congrArg (fun linked => ({ s.ledger with linked := linked }, drawn)) linked

theorem books_handOver (task : Task)
    : (s.handOver task.job task).books = (s.ledger.settle task.job, s.nextPid) := by
  refine congrArg₂ (fun leases tasks => ({ s.ledger with
    leases := leases
    tasks := tasks
  }, s.nextPid)) ?_ ?_
  · funext asked
    simp only [ledger, handOver, changeClaim, OrderedMap.get?_modify, Function.update_apply]
    split
    case isTrue same =>
      subst same
      rw [Option.map_map, Option.map_map]
      rfl
    case isFalse => rfl
  · simp [handOver, ledger]

-- Coherent books

/-- The ledger is sound, but for the job in hand, and registrations are drawn in order. -/
structure CoherentBooks (books : Ledger Pid Job × ℕ) (hand : Option Job) : Prop where
  sound : books.1.Sound hand
  drawn : ∀ serial, (books.1.linked (.remote serial)).isSome → serial < books.2

/-- The invariant of the scheduler: its books are coherent. -/
def Coherent (s : Scheduler) (hand : Option Job := none) : Prop := CoherentBooks s.books hand

variable {s}

theorem Coherent.of_books {s' : Scheduler} {hand : Option Job} (coherent : s.Coherent hand)
    (same : s'.books = s.books)
    : s'.Coherent hand := by
  unfold Coherent
  rwa [same]

theorem Coherent.of_sound {s' : Scheduler} {hand hand' : Option Job} {ledger : Ledger Pid Job}
    (coherent : s.Coherent hand) (books : s'.books = (ledger, s.nextPid))
    (linked : ledger.linked = s.ledger.linked) (sound : ledger.Sound hand')
    : s'.Coherent hand' := by
  unfold Coherent
  rw [books]
  refine ⟨sound, ?_⟩
  intro serial registered
  exact coherent.drawn serial (linked ▸ registered)

theorem coherent_new (settings : Settings) (failures : Object)
    : (new settings failures).Coherent where
  sound := {
    slotted := ⟨List.nodup_nil, nofun, nofun, nofun, nofun, nofun⟩
    leased := ⟨nofun, nofun, nofun, nofun, List.nodup_nil, nofun⟩
  }
  drawn := nofun

theorem Coherent.release {job : Job} (coherent : s.Coherent (some job)) (retryThisScan : Bool)
    : (s.release job retryThisScan).Coherent :=
  coherent.of_sound (books_release s job retryThisScan) rfl coherent.sound.giveBack

theorem Coherent.finish {job : Job} (coherent : s.Coherent (some job)) (failure : Option String)
    : (s.finish env job failure).Coherent :=
  coherent.of_sound (books_finish s env job failure) rfl coherent.sound.giveBack

theorem Coherent.popJob (coherent : s.Coherent) {sid : Sid} {claim : ClaimId}
    {entry : SessionJob} {popped : Scheduler} (pops : s.popJob sid claim = some (entry, popped))
    : popped.Coherent (some entry.job) := by
  obtain ⟨holds, books⟩ := popJob_spec s pops
  exact coherent.of_sound books rfl (coherent.sound.pop holds)

theorem Coherent.handOver {job : Job} (coherent : s.Coherent (some job)) (task : Task)
    (same : task.job = job)
    : (s.handOver job task).Coherent := by
  subst same
  exact coherent.of_sound (books_handOver s task) rfl coherent.sound.settle

theorem Coherent.vacate (coherent : s.Coherent) (pid : Pid)
    : (s.vacate pid).Coherent := by
  unfold Coherent
  rw [books_vacate]
  refine ⟨coherent.sound.drop pid, ?_⟩
  intro serial registered
  apply coherent.drawn serial
  by_cases gone : Pid.remote serial = pid
  · simp [Ledger.drop, gone] at registered
  · simpa [books, Ledger.drop, Function.update_of_ne gone] using registered

theorem Coherent.changeMachine_of_up (coherent : s.Coherent) {pid : Pid}
    {change : Machine → Machine} (known : s.machines.contains pid)
    (up : ∀ machine, (change machine).connected = true)
    : (s.changeMachine pid change).Coherent := by
  unfold Coherent
  rw [books_changeMachine_of_up s known up]
  refine ⟨coherent.sound.link (.inl rfl), ?_⟩
  intro serial registered
  apply coherent.drawn serial
  by_cases same : Pid.remote serial = pid
  · simpa [books, ledger, same, OrderedMap.contains] using known
  · simpa [books, Ledger.link, Function.update_of_ne same] using registered

end Scheduler

end MokuroBunko.Server
