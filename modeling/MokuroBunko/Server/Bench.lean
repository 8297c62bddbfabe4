import MokuroBunko.Server.Sessions

/-! Benchmarks: a line per machine that holds and pre-empts the machine's OCR while it
runs, and the benchmarks that claims ask for.
-/

namespace MokuroBunko.Server

open MokuroBunko.Lib MokuroBunko.Data MokuroBunko.Sched

def BENCH_BUDGET_SECONDS : ℚ := 900
def BENCH_SLACK_SECONDS : ℚ := 1800
def MIN_SAMPLE_PAGES : ℤ := 4
def MAX_SAMPLE_PAGES : ℤ := 512

/-- `BenchRequest`, its spec parsed. -/
structure BenchRequest where
  key : String
  spec : Option (Except String Generation) := none
  pages : Option Json := none
  processor : String
  autobench : Bool := false
  precisionOnly : Bool := false

/-- Why a benchmark is refused. -/
inductive BenchRefusal where
  | notConnected
  | paused
  | noGeneration
  | badSpec (error : String)
  | noLocalOcr
  | cannotRun
  | badPages
  | emptyLibrary
  | alreadyQueued
deriving DecidableEq

/-- The status a refusal is answered with. -/
def BenchRefusal.status : BenchRefusal → ℕ
  | .paused | .alreadyQueued => 409
  | _ => 400

/-- How a benchmark ended. -/
inductive BenchEnd where
  | completed
  | failed
  | cancelled
deriving DecidableEq

/-- What a processor says of a benchmark, without its measurements. -/
inductive BenchEvent where
  /-- `bench_ready`, `bench_progress`, `bench_trial`, `fatal`. -/
  | report
  | completed
  | exit

/-- `is_draft`. -/
def Bench.isDraft (key : String) : Bool :=
  match List.isPrefixOf? "draft-".toList key.toList with
  | some rest =>
      1 ≤ rest.length && rest.length ≤ 24
        && rest.all (fun c => ('a' ≤ c && c ≤ 'z') || ('0' ≤ c && c ≤ '9') || c = '-')
  | none => false

/-- Whether a request's page count is one a sample may have. -/
def samplePagesAccepted : Option Json → Bool
  | none | some .null => true
  | some (.num (.int pages)) => MIN_SAMPLE_PAGES ≤ pages && pages ≤ MAX_SAMPLE_PAGES
  | some _ => false

namespace Scheduler

variable (s : Scheduler) (env : Env)

-- Holds

/-- `hold_queue`. -/
def holdQueue (machine : String) : Scheduler :=
  { s with holds := s.holds.insert machine ((s.holds.get? machine).getD 0 + 1) }.bump

/-- `release_queue`. -/
def releaseQueue (machine : String) : Scheduler :=
  let holds :=
    match s.holds.get? machine with
    | none => s.holds
    | some count =>
        if count ≤ 1 then s.holds.erase machine else s.holds.insert machine (count - 1)
  ({ s with holds := holds }.bump.wakeLanes).maybeStartScan env

/-- The claimed jobs of a machine that no helper thread works on. -/
def unsettledOn (machine : String) : List Job :=
  (s.claims.entries.filter (fun entry =>
    entry.2.machine = machine && !entry.2.settling)).map Prod.fst

/-- `preempt_for_bench`: hold, and cancel everything running there now. -/
def preemptForBench (machine : String) : Scheduler :=
  let held := s.holdQueue machine
  let jobs := (held.unsettledOn machine).toFinset
  let marked := { held with
    cancelled := held.cancelled ∪ jobs
    attempted := held.attempted \ jobs
  }
  let sids := (marked.sessions.entries.filter (fun entry => entry.2.machine = machine)).map
    Prod.fst
  sids.foldl (fun s sid => s.killSession env sid none) marked

-- The line

/-- The run at the head of a machine's line. -/
def benchHead (machine : String) : Option BenchRun :=
  (s.bench.lines.get? machine).bind List.head?

/-- A change of the head of a machine's line. -/
def changeHead (machine : String) (change : BenchRun → BenchRun) : Scheduler :=
  { s with bench := { s.bench with
      lines := s.bench.lines.modify machine (fun line => line.modifyHead change)
  } }

/-- `bench_advance`: the line's head starts, an empty line gives the machine back. -/
def benchAdvance (machine : String) : Scheduler :=
  match s.benchHead machine with
  | none =>
      if machine ∈ s.bench.holding then
        { s with bench := { s.bench with holding := s.bench.holding.erase machine }
        }.releaseQueue env machine
      else s
  | some run =>
      if run.sent || run.building then s
      else
        let holding :=
          if machine ∈ s.bench.holding then s
          else
            let preempted := s.preemptForBench env machine
            { preempted with bench := { preempted.bench with
                holding := insert machine preempted.bench.holding
            } }
        holding.changeHead machine (fun head => { head with building := true })

/-- `_autobench_settled`. -/
def autobenchSettled (machine gid : String) (completed : Bool) : Scheduler :=
  let key := (profileKey machine, gid)
  let left := machine ≠ LOCAL && (s.machineByName machine).isNone
  let settled := { s.autobench with inflight := s.autobench.inflight.erase key }
  let autobench :=
    if completed then settled
    else if left then { settled with asked := settled.asked.erase key }
    else { settled with failed := insert key settled.failed }
  { s with autobench := autobench }.bump.wakeLanes

/-- `bench_finish`: settle the run at `place` of a machine's line, then the next one. -/
def benchFinish (machine : String) (place : ℕ) (ended : BenchEnd) : Scheduler :=
  match (s.bench.lines.get? machine).bind (fun runs => runs[place]?) with
  | none => s
  | some run =>
      let removed := { s with bench := { s.bench with
        lines := s.bench.lines.modify machine (fun line => line.eraseIdx place)
        order := s.bench.order.erase (run.key, machine)
      } }
      let settled :=
        if run.autobench then
          removed.autobenchSettled machine run.row.id (decide (ended = .completed))
        else removed
      if place = 0 then settled.benchAdvance env machine else settled

/-- `bench_sample_built`: hand the benchmark to its machine. -/
def benchSampleBuilt (machine : String) (bid : ℕ) (built : Bool) : Scheduler :=
  if (s.benchHead machine).any (fun run => run.bid = bid && run.building) then
    let packed := s.changeHead machine (fun head => { head with building := false })
    if !built then packed.benchFinish env machine 0 .failed
    else
      match packed.machineByName machine with
      | none => packed.benchFinish env machine 0 .failed
      | some (pid, _) =>
          let sent := packed.sends env pid (.bench bid)
          let given := packed.changeHead machine (fun head =>
            { head with sent := sent, startedMono := some env.mono })
          if sent then given else given.benchFinish env machine 0 .failed
  else s

/-- The row a benchmark measures. -/
def benchRow (request : BenchRequest) : Except BenchRefusal Generation :=
  let saved := s.settings.rows.find? (fun row => row.id = request.key)
  if saved.isNone && !Bench.isDraft request.key then throw .noGeneration
  else
    match request.spec with
    | some (.ok row) => return { row with
        id := request.key
        name := (saved.map Generation.name).getD request.key
        primary := saved.any Generation.primary
        enabled := true
      }
    | some (.error error) => throw (.badSpec error)
    | none =>
        match saved with
        | some row => return row
        | none => throw .noGeneration

/-- The registration a benchmark runs on, `local` even where this server has none. -/
def benchTarget (machine : String) : Option Pid :=
  if machine = LOCAL then some .own
  else
    (s.machines.entries.find? (fun entry =>
      !entry.2.isLocal && entry.2.name = machine && entry.2.connected)).map Prod.fst

/-- Why a row cannot be measured on a registration. -/
def benchPlacement (machine : String) (pid : Pid) (row : Generation)
    : Except BenchRefusal Unit :=
  if machine = LOCAL then
    if !s.settings.localProcessing || !s.machines.contains .own then throw .noLocalOcr
    else if env.catalogRefuses .own row then throw .cannotRun
    else return
  else if (s.machines.get? pid).any (fun machine =>
      machine.installing || env.catalogRefuses pid row) then
    throw .cannotRun
  else return

/-- What `bench_enqueue` checks before it queues a run: the row it measures. -/
def benchAccepted (machine : String) (request : BenchRequest)
    : Except BenchRefusal Generation := do
  match s.benchTarget machine with
  | none => throw .notConnected
  | some pid =>
      if s.machinePaused pid then throw .paused
      let row ← s.benchRow request
      s.benchPlacement env machine pid row
      if !samplePagesAccepted request.pages then throw .badPages
      if !env.hasArchive then throw .emptyLibrary
      if ((s.bench.lines.get? machine).getD []).any (fun run => run.key = request.key) then
        throw .alreadyQueued
      return row

/-- The machine a request names. -/
def benchMachine (processor : String) : String := if processor = "" then LOCAL else processor

/-- `bench_enqueue`. -/
def benchEnqueue (request : BenchRequest) : Except BenchRefusal Scheduler := do
  let machine := benchMachine request.processor
  let row ← s.benchAccepted env machine request
  let run : BenchRun := {
    key := request.key
    bid := s.nextBid
    row := row
    autobench := request.autobench
    precisionOnly := request.precisionOnly
  }
  let queued := { s with
    nextBid := s.nextBid + 1
    bench := { s.bench with
      lines := s.bench.lines.insert machine ((s.bench.lines.get? machine).getD [] ++ [run])
      order := s.bench.order ++ [(request.key, machine)]
    }
  }
  return queued.benchAdvance env machine

/-- `bench_cancel`, if the run is queued. -/
def benchCancel (key processor : String) : Scheduler :=
  let machine := benchMachine processor
  match (s.bench.lines.get? machine).bind (List.findIdx? (fun run => run.key = key)) with
  | none => s
  | some place => s.benchFinish env machine place .cancelled

/-- `bench_event`. -/
def benchEvent (pid : Pid) (bid : ℕ) (event : BenchEvent) : Scheduler :=
  match s.machines.get? pid with
  | none => s
  | some machine =>
      match (s.bench.lines.get? machine.name).bind
          (List.findIdx? (fun run => run.bid = bid && run.sent)) with
      | none => s
      | some place =>
          match event with
          | .report => s
          | .completed => s.benchFinish env machine.name place .completed
          | .exit => s.benchFinish env machine.name place .failed

/-- `bench_tick`: give up on a silent benchmark. -/
def benchTick : Scheduler :=
  let overdue := (s.bench.lines.entries.filter (fun entry =>
    (entry.2.head?.bind BenchRun.startedMono).any (fun started =>
      BENCH_BUDGET_SECONDS + BENCH_SLACK_SECONDS < env.mono - started))).map Prod.fst
  overdue.foldl (fun s machine => s.benchFinish env machine 0 .failed) s

/-- `bench_machine_left`: a machine's line ends with it. -/
def benchMachineLeft (machine : String) : Scheduler :=
  match s.bench.lines.get? machine with
  | none => s
  | some line =>
      let keys := ((line.filter BenchRun.autobench).map (fun run =>
        (profileKey machine, run.row.id))).toFinset
      let ended := { s with
        bench := { s.bench with
          lines := s.bench.lines.erase machine
          order := s.bench.order.filter (fun entry => entry.2 ≠ machine)
          holding := s.bench.holding.erase machine
        }
        autobench := { s.autobench with
          inflight := s.autobench.inflight \ keys
          asked := s.autobench.asked \ keys
        }
      }
      if machine ∈ s.bench.holding then ended.releaseQueue env machine else ended

-- Benchmarks that claims ask for

/-- `autobench_kind`. -/
def autobenchKind (pid : Pid) (row : Generation) : Option AutobenchKind :=
  match s.machines.get? pid with
  | none => none
  | some machine =>
      if !s.settings.autobench || (machine.isLocal && !s.settings.localProcessing) then none
      else if (profileKey machine.name, row.id) ∈ s.autobench.failed then none
      else env.unmeasured pid row

/-- One request of `drain_autobench_requests`. -/
def drainAutobenchRequest (wanted : String × String) : Scheduler :=
  let machine := if wanted.1 = LOCAL_PROFILE then LOCAL else wanted.1
  match s.machineByName machine, s.row wanted.2 with
  | some (pid, _), some row =>
      match s.autobenchKind env pid row with
      | none => s.autobenchSettled machine wanted.2 true
      | some kind =>
          let request : BenchRequest := {
            key := wanted.2
            spec := if kind = .precision then some (.ok row) else none
            processor := machine
            autobench := true
            precisionOnly := decide (kind = .precision)
          }
          match s.benchEnqueue env request with
          | .ok queued => queued
          | .error _ => s.autobenchSettled machine wanted.2 false
  | _, _ => { s with autobench := { s.autobench with
      inflight := s.autobench.inflight.erase wanted
    } }

/-- `drain_autobench_requests`. -/
def drainAutobenchRequests : Scheduler :=
  s.autobench.wanted.foldl (fun s wanted => s.drainAutobenchRequest env wanted)
    { s with autobench := { s.autobench with wanted := [] } }

end Scheduler

end MokuroBunko.Server
