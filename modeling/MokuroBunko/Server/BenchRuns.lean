import MokuroBunko.Lib.Lines
import MokuroBunko.Server.Bench

/-! Runs of the benchmark calls: each of them is an operation on the lines of a station, so a
machine is held exactly while a benchmark waits for it and every benchmark is settled once.
-/

namespace MokuroBunko.Server

open MokuroBunko.Lib MokuroBunko.Data MokuroBunko.Sched

/-- A run's place in its line. -/
def BenchRun.ticket (run : BenchRun) : Ticket String where
  name := run.key
  id := run.bid
  started := run.building || run.sent

namespace Scheduler

section Operations

variable (s : Scheduler) (env : Env)

/-- A machine's line, empty where `lines` has none. -/
def benchLine (machine : String) : List BenchRun := (s.bench.lines.get? machine).getD []

/-- How often a machine is held. -/
def holdCount (machine : String) : ℕ := (s.holds.get? machine).getD 0

/-- The benchmarks' lines, beside what was settled before. -/
def benchLines (settled : List (ℕ × BenchEnd)) : Lines String String BenchEnd where
  line := fun machine => (s.benchLine machine).map BenchRun.ticket
  order := s.bench.order
  holding := s.bench.holding
  holds := s.holdCount
  next := s.nextBid
  settled := settled

/-- The parts of the state the lines depend on. -/
def benchParts : BenchState × OrderedMap String ℕ × ℕ := (s.bench, s.holds, s.nextBid)

-- What leaves the lines alone

@[simp] theorem benchParts_bump : s.bump.benchParts = s.benchParts := rfl

@[simp] theorem benchParts_wakeLanes : s.wakeLanes.benchParts = s.benchParts := rfl

@[simp] theorem benchParts_maybeStartScan
    : (s.maybeStartScan env).benchParts = s.benchParts := by
  unfold maybeStartScan
  split
  · rfl
  · unfold startScan resetScan
    dsimp only
    split <;> rfl

@[simp] theorem benchParts_recordOutcome (claim : Claimed) (job : Job) (unblamed : Bool)
    (failure : Option String)
    : (s.recordOutcome env claim job unblamed failure).benchParts = s.benchParts := by
  unfold recordOutcome forgetCandidate
  cases failure with
  | none =>
      dsimp only
      split
      · rfl
      · split_ifs <;> rfl
  | some error =>
      dsimp only
      split_ifs <;> rfl

@[simp] theorem benchParts_finish (job : Job) (failure : Option String)
    : (s.finish env job failure).benchParts = s.benchParts := by
  unfold finish
  split
  · rfl
  · exact benchParts_recordOutcome ..

@[simp] theorem benchParts_release (job : Job) (retryThisScan : Bool)
    : (s.release job retryThisScan).benchParts = s.benchParts := by
  unfold release
  split <;> rfl

@[simp] theorem benchParts_strike (row : Generation) (machine : String)
    : (s.strike row machine).benchParts = s.benchParts := by
  unfold strike
  dsimp only
  split <;> rfl

@[simp] theorem benchParts_noteEndedStart (session : Session) (unblamed : Bool)
    : (s.noteEndedStart env session unblamed).benchParts = s.benchParts := by
  unfold noteEndedStart
  split
  · split <;> rfl
  · rfl

@[simp] theorem benchParts_settleHeld (session : Session) (oldest : Option ClaimId)
    (error : String) (claim : ClaimId)
    : (s.settleHeld env session oldest error claim).benchParts = s.benchParts := by
  unfold settleHeld
  split
  · rfl
  · split
    · exact benchParts_finish ..
    · exact benchParts_release ..

@[simp] theorem benchParts_settleHeld_foldl (session : Session) (oldest : Option ClaimId)
    (error : String) (claims : List ClaimId)
    : (claims.foldl (fun s claim => s.settleHeld env session oldest error claim) s).benchParts
      = s.benchParts := by
  induction claims generalizing s with
  | nil => rfl
  | cons claim rest ih => exact (ih _).trans (benchParts_settleHeld ..)

@[simp] theorem benchParts_rebuildLanes : s.rebuildLanes.benchParts = s.benchParts := rfl

@[simp] theorem benchParts_endSession (sid : Sid) (killed : Bool)
    : (s.endSession env sid killed).benchParts = s.benchParts := by
  unfold endSession
  split
  · rfl
  case h_2 session found =>
      have ended (unblamed : Bool)
          : (({ s with
              sessions := s.sessions.erase sid
              lanes := changeLane session.lane
                (fun lane => { lane with session := none, idleAt := none }) s.lanes
            }.noteEndedStart env session unblamed).rebuildLanes.bump).benchParts
            = s.benchParts := by
        rw [benchParts_bump, benchParts_rebuildLanes, benchParts_noteEndedStart]
        rfl
      dsimp only
      split_ifs
      · exact (benchParts_strike ..).trans (ended _)
      · exact ended _
      · exact (benchParts_settleHeld_foldl ..).trans (ended _)
      · exact (benchParts_strike ..).trans ((benchParts_settleHeld_foldl ..).trans (ended _))
      · exact (benchParts_settleHeld_foldl ..).trans (ended _)

@[simp] theorem benchParts_killSession (sid : Sid) (fatalError : Option String)
    : (s.killSession env sid fatalError).benchParts = s.benchParts := by
  unfold killSession
  rw [benchParts_endSession]
  rfl

@[simp] theorem benchParts_killSession_foldl (sids : List Sid)
    : (sids.foldl (fun s sid => s.killSession env sid none) s).benchParts = s.benchParts := by
  induction sids generalizing s with
  | nil => rfl
  | cons sid rest ih => exact (ih _).trans (benchParts_killSession ..)

@[simp] theorem benchParts_autobenchSettled (machine gid : String) (completed : Bool)
    : (s.autobenchSettled machine gid completed).benchParts = s.benchParts := rfl

theorem benchLines_of_parts {s other : Scheduler} (same : s.benchParts = other.benchParts)
    (settled : List (ℕ × BenchEnd))
    : s.benchLines settled = other.benchLines settled := by
  simp only [benchParts, Prod.mk.injEq] at same
  obtain ⟨bench, holds, next⟩ := same
  unfold benchLines benchLine holdCount
  rw [bench, holds, next]

-- The calls as operations on the lines

variable (settled : List (ℕ × BenchEnd))

theorem benchLines_preemptForBench (machine : String)
    : { s.preemptForBench env machine with bench := { (s.preemptForBench env machine).bench with
          holding := insert machine (s.preemptForBench env machine).bench.holding
        } }.benchLines settled
      = (s.benchLines settled).hold machine := by
  have parts : (s.preemptForBench env machine).benchParts
      = (s.holdQueue machine).benchParts := by
    unfold preemptForBench
    rw [benchParts_killSession_foldl]
    rfl
  simp only [benchParts, Prod.mk.injEq] at parts
  obtain ⟨bench, holds, next⟩ := parts
  rw [bench]
  unfold benchLines Lines.hold
  rw [Lines.mk.injEq]
  refine ⟨rfl, rfl, rfl, ?_, next, rfl⟩
  funext asked
  simp only [holdCount, holds, holdQueue, bump, OrderedMap.get?_insert, Function.update_apply]
  split
  · rfl
  · rfl

theorem benchLines_releaseQueue (machine : String) (held : machine ∈ s.bench.holding)
    : ({ s with bench := { s.bench with holding := s.bench.holding.erase machine }
      }.releaseQueue env machine).benchLines settled
      = (s.benchLines settled).giveBack machine := by
  have heldLine : machine ∈ (s.benchLines settled).holding := held
  unfold releaseQueue
  rw [benchLines_of_parts (benchParts_maybeStartScan ..),
    benchLines_of_parts (benchParts_wakeLanes _)]
  simp only [Lines.giveBack, heldLine, if_true]
  unfold benchLines
  rw [Lines.mk.injEq]
  refine ⟨rfl, rfl, rfl, ?_, rfl, rfl⟩
  funext asked
  simp only [holdCount, bump, Function.update_apply]
  cases found : s.holds.get? machine with
  | none =>
      by_cases same : asked = machine
      · simp [same, found]
      · simp [same]
  | some count =>
      dsimp only
      by_cases same : asked = machine
      · subst same
        split
        · simp
          omega
        · simp
      · split <;> simp [same]

theorem tickets_modify (machine : String) {change : List BenchRun → List BenchRun}
    (empty : change [] = [])
    : (fun asked =>
          (((s.bench.lines.modify machine change).get? asked).getD []).map BenchRun.ticket)
      = Function.update (fun asked => (s.benchLine asked).map BenchRun.ticket) machine
          ((change (s.benchLine machine)).map BenchRun.ticket) := by
  funext asked
  simp only [benchLine, OrderedMap.get?_modify, Function.update_apply]
  split
  case isTrue same =>
      rw [same]
      cases s.bench.lines.get? machine with
      | none => simp [empty]
      | some line => rfl
  case isFalse => rfl

theorem benchHead_eq (machine : String) : s.benchHead machine = (s.benchLine machine).head? := by
  unfold benchHead benchLine
  cases s.bench.lines.get? machine <;> rfl

theorem benchLines_changeHead (machine : String) {change : BenchRun → BenchRun} {started : Bool}
    (starts
      : ∀ run ∈ s.benchHead machine,
          (change run).ticket = { run.ticket with started := started })
    : (s.changeHead machine change).benchLines settled
      = (s.benchLines settled).mark machine started := by
  rw [benchHead_eq] at starts
  unfold benchLines Lines.mark Lines.setLine
  rw [Lines.mk.injEq]
  refine ⟨?_, rfl, rfl, rfl, rfl, rfl⟩
  refine (tickets_modify s machine List.modifyHead_nil).trans ?_
  congr 1
  dsimp only
  cases line : s.benchLine machine with
  | nil => rfl
  | cons head rest =>
      rw [line] at starts
      simp [starts head rfl]

theorem benchLines_benchAdvance (machine : String)
    : (s.benchAdvance env machine).benchLines settled
      = (s.benchLines settled).advance machine := by
  have head : ((s.benchLines settled).line machine).head?
      = (s.benchHead machine).map BenchRun.ticket := by
    rw [benchHead_eq]
    exact List.head?_map
  unfold benchAdvance Lines.advance
  rw [head]
  cases found : s.benchHead machine with
  | none =>
      dsimp only [Option.map_none]
      split
      case isTrue held => exact benchLines_releaseQueue s env settled machine held
      case isFalse free => exact (if_neg free).symm
  | some run =>
      dsimp only [Option.map_some]
      have busy : run.ticket.started = (run.sent || run.building) := Bool.or_comm ..
      rw [busy]
      split
      · rfl
      · refine (benchLines_changeHead _ settled machine fun _ _ => rfl).trans ?_
        congr 1
        by_cases held : machine ∈ s.bench.holding
        · rw [if_pos held]
          exact (if_pos held).symm
        · rw [if_neg held]
          exact (benchLines_preemptForBench s env settled machine).trans (if_neg held).symm

/-- What settling the run at `place` of a machine's line adds to the log. -/
def endedAt (machine : String) (place : ℕ) (ended : BenchEnd) : List (ℕ × BenchEnd) :=
  ((s.benchLine machine)[place]?.map (fun run => (run.bid, ended))).toList

theorem benchLines_benchFinish (machine : String) (place : ℕ) (ended : BenchEnd)
    : (s.benchFinish env machine place ended).benchLines
          (settled ++ s.endedAt machine place ended)
      = (s.benchLines settled).finish machine place ended := by
  have read : (s.bench.lines.get? machine).bind (fun runs => runs[place]?)
      = (s.benchLine machine)[place]? := by
    unfold benchLine
    cases s.bench.lines.get? machine <;> rfl
  have ticket : ((s.benchLines settled).line machine)[place]?
      = ((s.benchLine machine)[place]?).map BenchRun.ticket := List.getElem?_map
  unfold benchFinish endedAt Lines.finish Lines.remove
  rw [read, ticket]
  cases found : (s.benchLine machine)[place]? with
  | none => simp
  | some run =>
      dsimp only [Option.map_some, Option.toList_some]
      generalize removed_def : ({ s with bench := _ } : Scheduler) = removed
      have gone : removed.benchLines (settled ++ [(run.bid, ended)])
          = { (s.benchLines settled).setLine machine
                (((s.benchLines settled).line machine).eraseIdx place) with
              order := s.bench.order.erase (run.key, machine)
              settled := settled ++ [(run.bid, ended)]
            } := by
        subst removed_def
        unfold benchLines Lines.setLine
        rw [Lines.mk.injEq]
        refine ⟨?_, rfl, rfl, rfl, rfl, rfl⟩
        refine (tickets_modify s machine List.eraseIdx_nil).trans ?_
        rw [List.eraseIdx_map]
      have closed : (if run.autobench then
            removed.autobenchSettled machine run.row.id (decide (ended = .completed))
          else removed).benchLines (settled ++ [(run.bid, ended)])
          = removed.benchLines (settled ++ [(run.bid, ended)]) := by
        split
        · exact benchLines_of_parts (benchParts_autobenchSettled ..) _
        · rfl
      split
      · rw [benchLines_benchAdvance, closed, gone]
        rfl
      · rw [closed, gone]
        rfl

theorem benchAccepted_unqueued {machine : String} {request : BenchRequest} {row : Generation}
    (accepted : s.benchAccepted env machine request = .ok row)
    : ∀ run ∈ s.benchLine machine, run.key ≠ request.key := by
  intro run member same
  have queued : (s.benchLine machine).any (fun run => run.key = request.key) :=
    List.any_eq_true.mpr ⟨run, member, by simpa using same⟩
  unfold benchAccepted at accepted
  split at accepted
  · cases accepted
  · unfold benchLine at queued
    rw [queued] at accepted
    simp only [bind, Except.bind, pure, Except.pure, throw, throwThe, MonadExceptOf.throw, if_true]
      at accepted
    -- every branch left is a refusal
    split_ifs at accepted
    all_goals repeat' split at accepted
    all_goals cases accepted

theorem benchLines_benchEnqueue {request : BenchRequest} {queued : Scheduler}
    (accepted : s.benchEnqueue env request = .ok queued)
    : request.key
        ∉ ((s.benchLines settled).line (benchMachine request.processor)).map Ticket.name
      ∧ queued.benchLines settled
        = ((s.benchLines settled).push (benchMachine request.processor) request.key).advance
            (benchMachine request.processor) := by
  unfold benchEnqueue at accepted
  cases checked : s.benchAccepted env (benchMachine request.processor) request with
  | error refusal => simp [checked, bind, Except.bind] at accepted
  | ok row =>
      simp only [checked, bind, Except.bind, pure, Except.pure, Except.ok.injEq] at accepted
      subst accepted
      constructor
      · intro named
        simp only [benchLines, List.map_map, List.mem_map] at named
        obtain ⟨run, member, same⟩ := named
        exact s.benchAccepted_unqueued env checked run member same
      · rw [benchLines_benchAdvance]
        congr 1
        unfold benchLines Lines.push Lines.setLine
        rw [Lines.mk.injEq]
        refine ⟨?_, rfl, rfl, rfl, rfl, rfl⟩
        funext asked
        simp only [benchLine, OrderedMap.get?_insert, Function.update_apply]
        split
        · simp [BenchRun.ticket]
        · rfl

/-- What the end of a machine's line adds to the log. -/
def endedLeaving (machine : String) : List (ℕ × BenchEnd) :=
  (s.benchLine machine).map (fun run => (run.bid, .failed))

theorem benchLines_benchMachineLeft {machine : String} {line : List BenchRun}
    (found : s.bench.lines.get? machine = some line)
    : (s.benchMachineLeft env machine).benchLines (settled ++ s.endedLeaving machine)
      = (s.benchLines settled).leave machine .failed := by
  unfold benchMachineLeft Lines.leave
  rw [found]
  dsimp only
  generalize autobench_def : ({ s.autobench with inflight := _, asked := _ } : AutobenchState)
    = autobench
  let removed : Scheduler := { s with
    bench := { s.bench with
      lines := s.bench.lines.erase machine
      order := s.bench.order.filter (fun entry => entry.2 ≠ machine)
    }
    autobench := autobench
  }
  have gone : removed.benchLines (settled ++ s.endedLeaving machine)
      = { (s.benchLines settled).setLine machine [] with
          order := s.bench.order.filter (fun entry => entry.2 ≠ machine)
          settled := settled ++ ((s.benchLines settled).line machine).map
            (fun (ticket : Ticket String) => (ticket.id, .failed))
        } := by
    unfold benchLines Lines.setLine
    rw [Lines.mk.injEq]
    refine ⟨?_, rfl, rfl, rfl, rfl, ?_⟩
    · funext asked
      simp only [removed, benchLine, OrderedMap.get?_erase, Function.update_apply]
      split <;> rfl
    · rw [List.map_map]
      rfl
  refine Eq.trans ?_ (congrArg (fun lines => lines.giveBack machine) gone)
  split
  case isTrue held => exact benchLines_releaseQueue removed env _ machine held
  case isFalse free =>
      rw [Finset.erase_eq_of_notMem free]
      exact (if_neg free).symm

end Operations

end Scheduler

-- Runs

/-- A call about benchmarks. -/
inductive BenchCall where
  | enqueue (request : BenchRequest)
  | cancel (key processor : String)
  | sampleBuilt (machine : String) (bid : ℕ) (built : Bool)
  | event (pid : Pid) (bid : ℕ) (event : BenchEvent)
  | tick
  | machineLeft (machine : String)

namespace Scheduler

section Calls

variable (s : Scheduler) (env : Env)

def benchCall : BenchCall → Scheduler
  | .enqueue request => (s.benchEnqueue env request).toOption.getD s
  | .cancel key processor => s.benchCancel env key processor
  | .sampleBuilt machine bid built => s.benchSampleBuilt env machine bid built
  | .event pid bid event => s.benchEvent env pid bid event
  | .tick => s.benchTick env
  | .machineLeft machine => s.benchMachineLeft env machine

/-- Whether the head of a machine's line can be handed to its machine. -/
def benchHanded (machine : String) (bid : ℕ) : Bool :=
  (s.machineByName machine).any (fun entry => s.sends env entry.1 (.bench bid))

/-- The lines `bench_tick` gives up on. -/
def benchOverdue : List String :=
  (s.bench.lines.entries.filter (fun entry =>
    (entry.2.head?.bind BenchRun.startedMono).any (fun started =>
      BENCH_BUDGET_SECONDS + BENCH_SLACK_SECONDS < env.mono - started))).map Prod.fst

/-- What settling the heads of some lines in turn adds to the log. -/
def endedInTurn (ended : BenchEnd) : Scheduler → List String → List (ℕ × BenchEnd)
  | _, [] => []
  | s, machine :: rest =>
      s.endedAt machine 0 ended ++ endedInTurn ended (s.benchFinish env machine 0 ended) rest

/-- The runs a call settles, and how. -/
def benchSettles : BenchCall → List (ℕ × BenchEnd)
  | .enqueue _ => []
  | .cancel key processor =>
      match (s.benchLine (benchMachine processor)).findIdx? (fun run => run.key = key) with
      | none => []
      | some place => s.endedAt (benchMachine processor) place .cancelled
  | .sampleBuilt machine bid built =>
      if (s.benchHead machine).any (fun run => run.bid = bid && run.building)
          && !(built && s.benchHanded env machine bid) then
        [(bid, .failed)]
      else []
  | .event pid bid event =>
      match s.machines.get? pid with
      | none => []
      | some machine =>
          match (s.benchLine machine.name).findIdx? (fun run => run.bid = bid && run.sent),
              event with
          | none, _ | _, .report => []
          | some place, .completed => s.endedAt machine.name place .completed
          | some place, .exit => s.endedAt machine.name place .failed
  | .tick => endedInTurn env .failed s (s.benchOverdue env)
  | .machineLeft machine => s.endedLeaving machine

end Calls

end Scheduler

/-- A scheduler and how its benchmarks ended so far. -/
structure BenchRecord where
  scheduler : Scheduler
  settled : List (ℕ × BenchEnd) := []

/-- A call, and the scheduler as everything else left it meanwhile: benchmarks' lines and holds
are its own.
-/
structure BenchTurn where
  elsewhere : Scheduler
  env : Env
  call : BenchCall

/-- The scheduler a call finds. -/
def BenchTurn.found (turn : BenchTurn) (s : Scheduler) : Scheduler :=
  { turn.elsewhere with
    bench := s.bench
    holds := s.holds
    nextBid := s.nextBid
  }

def BenchRecord.step (record : BenchRecord) (turn : BenchTurn) : BenchRecord :=
  let found := turn.found record.scheduler
  { scheduler := found.benchCall turn.env turn.call
    settled := record.settled ++ found.benchSettles turn.env turn.call
  }

/-- What the benchmarks of a scheduler keep, started as `first`. -/
structure BenchRecord.Kept (first : Scheduler) (record : BenchRecord) : Prop where
  held
    : ∀ machine,
        machine ∈ record.scheduler.bench.holding ↔ record.scheduler.benchLine machine ≠ []
  /-- The line's own hold is there while the machine is held, and given back once. -/
  released
    : ∀ machine,
        record.scheduler.holdCount machine
        = first.holdCount machine
          + if machine ∈ record.scheduler.bench.holding then 1 else 0
  listed
    : ∀ key machine,
        (key, machine) ∈ record.scheduler.bench.order
        ↔ ∃ run ∈ record.scheduler.benchLine machine, run.key = key
  listedOnce : record.scheduler.bench.order.Nodup
  keys : ∀ machine, ((record.scheduler.benchLine machine).map BenchRun.key).Nodup
  onlyHead
    : ∀ machine, ∀ run ∈ (record.scheduler.benchLine machine).tail,
        run.building = false ∧ run.sent = false
  settledOnce : (record.settled.map Prod.fst).Nodup
  /-- Every run queued since waits in a line or is settled, never both. -/
  accounted
    : ∀ bid,
        first.nextBid ≤ bid
        → bid < record.scheduler.nextBid
        → (bid ∈ record.settled.map Prod.fst
          ↔ ¬ ∃ machine, ∃ run ∈ record.scheduler.benchLine machine, run.bid = bid)

namespace Scheduler

section Steps

variable {s : Scheduler} {settled : List (ℕ × BenchEnd)} {others : String → ℕ} {first : ℕ}

theorem benchHead_changeHead (s : Scheduler) (machine : String) (change : BenchRun → BenchRun)
    : (s.changeHead machine change).benchHead machine = (s.benchHead machine).map change := by
  simp only [benchHead, changeHead, OrderedMap.get?_modify, if_true]
  cases s.bench.lines.get? machine with
  | none => rfl
  | some line => cases line <;> rfl

theorem line_ne_nil_of_head {machine : String} {run : BenchRun}
    (head : s.benchHead machine = some run)
    : (s.benchLines settled).line machine ≠ [] := by
  rw [benchHead_eq] at head
  intro empty
  have noRun : s.benchLine machine = [] := List.map_eq_nil_iff.mp empty
  simp [noRun] at head

theorem fair_failHead (env : Env) {machine : String} {run : BenchRun}
    (loose : (s.benchLines settled).Loose others first machine)
    (head : s.benchHead machine = some run) {bid : ℕ} (isBid : run.bid = bid)
    : ((s.benchFinish env machine 0 .failed).benchLines
        (settled ++ [(bid, .failed)])).Fair others first := by
  subst isBid
  have ended : s.endedAt machine 0 .failed = [(run.bid, .failed)] := by
    simp [endedAt, ← List.head?_eq_getElem?, ← benchHead_eq, head]
  rw [← ended, benchLines_benchFinish]
  exact loose.finish (line_ne_nil_of_head head) .failed

/-- A line whose head's sample is packed. -/
def packed (s : Scheduler) (machine : String) : Scheduler :=
  s.changeHead machine (fun head => { head with building := false })

/-- A line whose head was offered to its machine. -/
def offered (s : Scheduler) (env : Env) (machine : String) (sent : Bool) : Scheduler :=
  s.changeHead machine (fun head => { head with sent := sent, startedMono := some env.mono })

theorem benchSampleBuilt_head (env : Env) {machine : String} {run : BenchRun}
    (found : s.benchHead machine = some run) (building : run.building = true) (built : Bool)
    : s.benchSampleBuilt env machine run.bid built
      = if !built then (s.packed machine).benchFinish env machine 0 .failed
        else
          match (s.packed machine).machineByName machine with
          | none => (s.packed machine).benchFinish env machine 0 .failed
          | some (pid, _) =>
              let sent := (s.packed machine).sends env pid (.bench run.bid)
              let offered := (s.packed machine).offered env machine sent
              if sent then offered else offered.benchFinish env machine 0 .failed := by
  have isHead : (run.bid = run.bid && run.building) = true := by simpa using building
  unfold benchSampleBuilt
  rw [found, Option.any_some, if_pos isHead]
  rfl

theorem benchSampleBuilt_cases (env : Env) {machine : String} {run : BenchRun}
    (found : s.benchHead machine = some run) (building : run.building = true) (built : Bool)
    : ((built && s.benchHanded env machine run.bid) = true
        ∧ s.benchSampleBuilt env machine run.bid built
          = (s.packed machine).offered env machine true)
      ∨ ((built && s.benchHanded env machine run.bid) = false
        ∧ (s.benchSampleBuilt env machine run.bid built
            = (s.packed machine).benchFinish env machine 0 .failed
          ∨ s.benchSampleBuilt env machine run.bid built
            = ((s.packed machine).offered env machine false).benchFinish env machine 0
                .failed)) := by
  have handed : s.benchHanded env machine run.bid
      = ((s.packed machine).machineByName machine).any
          (fun entry => (s.packed machine).sends env entry.1 (.bench run.bid)) := rfl
  rw [handed, benchSampleBuilt_head env found building built]
  cases built with
  | false => exact Or.inr ⟨rfl, Or.inl rfl⟩
  | true =>
      cases (s.packed machine).machineByName machine with
      | none => exact Or.inr ⟨rfl, Or.inl rfl⟩
      | some entry =>
          cases sent : (s.packed machine).sends env entry.1 (.bench run.bid) with
          | true => exact Or.inl ⟨by simpa using sent, by simp [sent]⟩
          | false => exact Or.inr ⟨by simpa using sent, Or.inr (by simp [sent])⟩

theorem fair_benchSampleBuilt (env : Env) (fair : (s.benchLines settled).Fair others first)
    (machine : String) (bid : ℕ) (built : Bool)
    : ((s.benchCall env (.sampleBuilt machine bid built)).benchLines
        (settled ++ s.benchSettles env (.sampleBuilt machine bid built))).Fair others first := by
  unfold benchCall benchSettles
  dsimp only
  cases found : s.benchHead machine with
  | none => simpa [benchSampleBuilt, found] using fair
  | some run =>
      by_cases packing : run.bid = bid ∧ run.building = true
      case neg =>
          have other : (run.bid = bid && run.building) = false := by simpa using packing
          simpa [benchSampleBuilt, found, other] using fair
      obtain ⟨rfl, building⟩ := packing
      have isHead : (run.bid = run.bid && run.building) = true := by simpa using building
      have held : machine ∈ (s.benchLines settled).holding :=
        (fair.serves machine).held.mpr (line_ne_nil_of_head found)
      -- the sample is packed: the head is no longer started until it is sent
      have packedHead : (s.packed machine).benchHead machine
          = some { run with building := false } := by
        rw [packed, benchHead_changeHead, found]
        rfl
      have packedLoose : ((s.packed machine).benchLines settled).Loose others first machine := by
        have marked : (s.packed machine).benchLines settled
            = (s.benchLines settled).mark machine run.sent := by
          apply benchLines_changeHead
          intro head isHead
          obtain rfl : run = head := by simpa [found] using isHead
          rfl
        rw [marked]
        exact (fair.loose machine).mark held run.sent
      have offeredLines (sent : Bool)
          : ((s.packed machine).offered env machine sent).benchLines settled
            = ((s.packed machine).benchLines settled).mark machine sent := by
        apply benchLines_changeHead
        intro head isHead
        obtain rfl : { run with building := false } = head := by simpa [packedHead] using isHead
        rfl
      rw [Option.any_some, isHead, Bool.true_and]
      rcases benchSampleBuilt_cases env found building built with ⟨handed, after⟩ | ⟨handed, after⟩
      · rw [handed, after, Bool.not_true, if_neg Bool.false_ne_true, List.append_nil, offeredLines]
        exact packedLoose.mark_started held (line_ne_nil_of_head packedHead)
      · rw [handed, Bool.not_false, if_pos rfl]
        rcases after with after | after
        · rw [after]
          exact fair_failHead env packedLoose packedHead rfl
        · rw [after]
          have offeredLoose : (((s.packed machine).offered env machine false).benchLines
              settled).Loose others first machine := by
            rw [offeredLines]
            exact packedLoose.mark held false
          have offeredHead : ((s.packed machine).offered env machine false).benchHead machine
              = some { run with
                  building := false
                  sent := false
                  startedMono := some env.mono
                } := by
            rw [offered, benchHead_changeHead, packedHead]
            rfl
          exact fair_failHead env offeredLoose offeredHead rfl

theorem fair_benchFinish (env : Env) (fair : (s.benchLines settled).Fair others first)
    (machine : String) (place : ℕ) (ended : BenchEnd)
    : ((s.benchFinish env machine place ended).benchLines
        (settled ++ s.endedAt machine place ended)).Fair others first := by
  rw [benchLines_benchFinish]
  exact fair.finish machine place ended

theorem fair_inTurn (env : Env) (ended : BenchEnd) (machines : List String)
    (fair : (s.benchLines settled).Fair others first)
    : ((machines.foldl (fun s machine => s.benchFinish env machine 0 ended) s).benchLines
        (settled ++ endedInTurn env ended s machines)).Fair others first := by
  induction machines generalizing s settled with
  | nil => simpa [endedInTurn] using fair
  | cons machine rest ih =>
      rw [endedInTurn, ← List.append_assoc]
      exact ih (fair_benchFinish env fair machine 0 ended)

theorem fair_benchCall (env : Env) (fair : (s.benchLines settled).Fair others first)
    (call : BenchCall)
    : ((s.benchCall env call).benchLines (settled ++ s.benchSettles env call)).Fair
        others first := by
  have unchanged : (s.benchLines (settled ++ [])).Fair others first := by simpa using fair
  have find (machine : String) (is : BenchRun → Bool)
      : (s.bench.lines.get? machine).bind (List.findIdx? is)
        = (s.benchLine machine).findIdx? is := by
    unfold benchLine
    cases s.bench.lines.get? machine <;> rfl
  cases call with
  | enqueue request =>
      unfold benchCall benchSettles
      dsimp only
      cases accepted : s.benchEnqueue env request with
      | error refusal => exact unchanged
      | ok queued =>
          obtain ⟨unnamed, lines⟩ := s.benchLines_benchEnqueue env settled accepted
          rw [List.append_nil]
          exact lines ▸ (fair.push unnamed).advance
  | cancel key processor =>
      unfold benchCall benchSettles benchCancel
      dsimp only
      rw [find]
      cases (s.benchLine (benchMachine processor)).findIdx? (fun run => run.key = key) with
      | none => exact unchanged
      | some place => exact fair_benchFinish env fair _ place .cancelled
  | sampleBuilt machine bid built => exact fair_benchSampleBuilt env fair machine bid built
  | event pid bid event =>
      unfold benchCall benchSettles benchEvent
      dsimp only
      cases s.machines.get? pid with
      | none => exact unchanged
      | some machine =>
          dsimp only
          rw [find]
          cases (s.benchLine machine.name).findIdx? (fun run => run.bid = bid && run.sent) with
          | none => exact unchanged
          | some place =>
              cases event with
              | report => exact unchanged
              | completed => exact fair_benchFinish env fair _ place .completed
              | exit => exact fair_benchFinish env fair _ place .failed
  | tick => exact fair_inTurn env .failed (s.benchOverdue env) fair
  | machineLeft machine =>
      unfold benchCall benchSettles
      dsimp only
      cases found : s.bench.lines.get? machine with
      | none => simpa [benchMachineLeft, endedLeaving, benchLine, found] using fair
      | some line =>
          rw [s.benchLines_benchMachineLeft env settled found]
          exact fair.leave machine .failed

theorem kept_of_fair {start : Scheduler} {record : BenchRecord}
    (fair : (record.scheduler.benchLines record.settled).Fair start.holdCount start.nextBid)
    : record.Kept start := by
  have waiting (machine : String)
      : (record.scheduler.benchLines record.settled).line machine ≠ []
        ↔ record.scheduler.benchLine machine ≠ [] := by
    simp [benchLines]
  have names (machine : String)
      : ((record.scheduler.benchLines record.settled).line machine).map Ticket.name
        = (record.scheduler.benchLine machine).map BenchRun.key := by
    simp [benchLines, BenchRun.ticket]
  have ids (machine : String)
      : ((record.scheduler.benchLines record.settled).line machine).map Ticket.id
        = (record.scheduler.benchLine machine).map BenchRun.bid := by
    simp [benchLines, BenchRun.ticket]
  have keys (machine : String)
      : ((record.scheduler.benchLine machine).map BenchRun.key).Nodup :=
    names machine ▸ fair.names machine
  have counted (key machine : String)
      : record.scheduler.bench.order.count (key, machine)
        = ((record.scheduler.benchLine machine).map BenchRun.key).count key :=
    names machine ▸ fair.ordered machine key
  constructor
  · intro machine
    exact (fair.serves machine).held.trans (waiting machine)
  · exact fair.counted
  · intro key machine
    rw [← List.count_pos_iff, counted, List.count_pos_iff, List.mem_map]
  · rw [List.nodup_iff_count_le_one]
    intro entry
    rw [counted]
    exact List.nodup_iff_count_le_one.mp (keys _) _
  · exact keys
  · intro machine run member
    have behind := fair.behind machine run.ticket
    simp only [benchLines, ← List.map_tail] at behind
    simpa [BenchRun.ticket] using behind (List.mem_map_of_mem member)
  · exact (List.nodup_append'.mp (fair.once "")).1
  · intro bid late drawn
    have either := fair.accounted bid late drawn
    have apart (machine : String) := (List.nodup_append'.mp (fair.once machine)).2.2
    simp only [ids, List.mem_map] at either
    constructor
    · rintro settled ⟨machine, run, member, same⟩
      refine apart machine settled ?_
      rw [ids]
      exact List.mem_map.mpr ⟨run, member, same⟩
    · intro gone
      rcases either with settled | ⟨machine, run, member, same⟩
      · exact List.mem_map.mpr settled
      · exact absurd ⟨machine, run, member, same⟩ gone

end Steps

theorem fair_step (start : Scheduler) (record : BenchRecord) (turn : BenchTurn)
    (fair : (record.scheduler.benchLines record.settled).Fair start.holdCount start.nextBid)
    : ((record.step turn).scheduler.benchLines (record.step turn).settled).Fair
        start.holdCount start.nextBid := by
  have found : ((turn.found record.scheduler).benchLines record.settled).Fair
      start.holdCount start.nextBid := fair
  exact fair_benchCall turn.env found turn.call

/-- From a scheduler without benchmarks, whatever calls about benchmarks are made in whatever
order, a machine is held exactly while its line has a run, and every run is settled once.
-/
theorem bench_lines_kept (start : Scheduler) (turns : List BenchTurn)
    : (turns.foldl BenchRecord.step { scheduler := { start with bench := {} } }).Kept start := by
  apply kept_of_fair
  have starts : ({ start with bench := {} }.benchLines []).Fair start.holdCount start.nextBid :=
    Lines.Fair.of_empty start.holdCount start.nextBid
  exact List.foldlRecOn turns BenchRecord.step starts
    (fun record fair turn _ => fair_step start record turn fair)

end Scheduler

end MokuroBunko.Server
