import MokuroBunko.Data.Generation
import MokuroBunko.Sched.Breaker
import MokuroBunko.Sched.JobOrder
import MokuroBunko.Sched.EarliestFinish
import MokuroBunko.Server.PublicNames

/-! The units of queue work, and the state of the scheduler: machines, lanes, sessions, claims and what
a scan remembers. Ids drawn at random are modelled by the order they are drawn in: two draws never
give one id. Log lines, the queue page's cards and the files of uploaded results are left out.
-/

namespace MokuroBunko.Server

open MokuroBunko.Lib MokuroBunko.Data MokuroBunko.Sched

/-- A registration: this server's own processor, or a remote one by its draw. -/
inductive Pid where
  | own
  | remote (serial : ℕ)
deriving DecidableEq

/-- A session's id. -/
abbrev Sid := ℕ

/-- The number of a claim id `v{n}`. -/
abbrev ClaimId := ℕ

/-- `Stamp`: the size and the modification time of an archive. -/
abbrev Stamp := ℕ × ℤ

/-- `Job`: a volume by its path in the library and the row it is owed. -/
structure Job where
  rel : String
  gid : String
  upgrade : Bool := false
deriving DecidableEq

namespace Job

/-- `series_of`: the folder of the volume, `.` at the root. -/
def series (job : Job) : String :=
  match Text.splitFirst '/' job.rel.toList.reverse with
  | some (_, folder) => String.ofList folder.reverse
  | none => "."

/-- `file_name`. -/
def fileName (job : Job) : String :=
  match Text.splitFirst '/' job.rel.toList.reverse with
  | some (name, _) => String.ofList name.reverse
  | none => job.rel

/-- `stem_of`: the file name without its suffix; a leading dot begins none. -/
def volume (job : Job) : String :=
  match Text.splitFirst '.' job.fileName.toList.reverse with
  | some (_, stem) => if stem = [] then job.fileName else String.ofList stem.reverse
  | none => job.fileName

example : (⟨"Series A/Vol 1.cbz", "g-1", false⟩ : Job).series = "Series A" := by decide
example : (⟨"A/x.y.cbz", "g-1", false⟩ : Job).volume = "x.y" := by decide

/-- The row id upgrade jobs are ordered under: after every real row. -/
def UPGRADE_ORDER_KEY : String := String.ofList [Char.ofNat 0x10FFFF] ++ "upgrade"

/-- `job_key`. -/
def key (job : Job) : JobKey where
  series := job.series
  volume := job.volume
  generationId := if job.upgrade then UPGRADE_ORDER_KEY else job.gid

/-- `failure_key_of`. -/
def failureKeyOf (job : Job) (row : Generation) : String :=
  if job.upgrade then job.rel ++ "@upgrade" else failureKey job.rel row.primary row.name

end Job

def SESSION_LOOKAHEAD : ℕ := 2
def SESSION_WEDGE_SECONDS : ℚ := 600
def SESSION_CRASH_LIMIT : ℕ := 2
def SILENCE_SECONDS : ℚ := 30
def CLOSE_GRACE_SECONDS : ℚ := 30
def PRECISION_REFUSAL : String := "precision not available here"
def LOCAL_PROFILE : String := " local"

/-- `Availability`: a processor's own pause. -/
structure Availability where
  paused : Bool
  until_ : Option String := none
  reason : Option String := none
  install : Option Json := none
deriving DecidableEq

/-- `Machine`: one registration, filed under its id. -/
structure Machine where
  name : String
  username : Option String
  isLocal : Bool
  engines : List String
  version : String
  maxSessions : ℕ
  connectedSince : ℚ
  lastSeen : ℚ
  lastFrame : ℚ
  /-- Whether the link is up (`ops.is_some()`). -/
  connected : Bool
  pause : Option Availability

/-- `installing`: a processor still downloading its models. -/
def Machine.installing (machine : Machine) : Bool := !machine.isLocal && machine.engines.isEmpty

/-- `Lane`: one slot that may run a session. -/
structure Lane where
  id : ℕ
  pid : Pid
  session : Option Sid := none
  waitingForFaster : Bool := false
  idleAt : Option ℕ := none
deriving DecidableEq

/-- `SessionJob`: one volume a session holds, filed under its claim's id. -/
structure SessionJob where
  job : Job
  row : Generation
  delivered : Bool
  archiveSize : Option ℕ
  sidecarName : String
deriving DecidableEq

/-- `Session`: one machine running one row. -/
structure Session where
  pid : Pid
  machine : String
  isLocal : Bool
  lane : ℕ
  row : Generation
  readyAt : Option ℚ := none
  lastEvent : ℚ
  completed : ℕ := 0
  order : List ClaimId := []
  jobs : OrderedMap ClaimId SessionJob := .empty
  closing : Bool := false
  closingSince : ℚ := 0
  draining : Option String := none
  fatalError : Option String := none
  nextClaimAt : ℚ := 0

/-- `Claimed`: a job some lane holds. -/
structure Claimed where
  lane : ℕ
  pid : Pid
  machine : String
  sid : Option Sid := none
  claim : Option ClaimId := none
  stamp : Option Stamp
  settling : Bool := false
  row : Generation
deriving DecidableEq

/-- `ReturnContext`: what judging a returned claim needs later. -/
structure ReturnContext where
  pid : Pid
  machine : String
  isLocal : Bool
  klass : String
  error : String
  stamp : Option Stamp
deriving DecidableEq

/-- A helper thread at work on a settling claim. -/
inductive Task where
  /-- It installs the result (`collect::run`). -/
  | collect (job : Job)
  /-- It reads the library's own copy of a returned archive (`read_own_copy`). -/
  | readOwnCopy (job : Job) (context : ReturnContext)
deriving DecidableEq

/-- The claimed job a helper thread works on. -/
def Task.job : Task → Job
  | .collect job => job
  | .readOwnCopy job _ => job

/-- `OwedVolume`: one volume's debt. -/
structure OwedVolume where
  mtime : ℚ
  rows : List String
  skipped : List String := []
  upgrade : Bool := false
  pages : Option ℤ := none

/-- `BenchRun`: one queued or running benchmark. -/
structure BenchRun where
  key : String
  bid : ℕ
  row : Generation
  autobench : Bool
  precisionOnly : Bool
  startedMono : Option ℚ := none
  building : Bool := false
  sent : Bool := false

/-- `BenchState`: a line of benchmarks per machine. -/
structure BenchState where
  lines : OrderedMap String (List BenchRun) := .empty
  order : List (String × String) := []
  /-- Machines whose line holds their OCR. -/
  holding : Finset String := ∅

/-- `AutobenchState`: pairs of a machine's profile and a row. -/
structure AutobenchState where
  asked : Finset (String × String) := ∅
  failed : Finset (String × String) := ∅
  inflight : Finset (String × String) := ∅
  wanted : List (String × String) := []

/-- `Settings`. -/
structure Settings where
  rows : List Generation
  pollInterval : ℚ
  localProcessing : Bool
  concurrency : ℕ
  autobench : Bool

/-- `Scheduler`. -/
structure Scheduler where
  settings : Settings
  failures : Object
  owed : OrderedMap String OwedVolume := .empty
  walkEpoch : ℕ := 0
  machines : OrderedMap Pid Machine := .empty
  lanes : List Lane := []
  nextLaneId : ℕ := 0
  sessions : OrderedMap Sid Session := .empty
  claims : OrderedMap Job Claimed := .empty
  attempted : Finset Job := ∅
  cancelled : Finset Job := ∅
  lastServed : OrderedMap String String := .empty
  holds : OrderedMap String ℕ := .empty
  stopped : Finset (String × String) := ∅
  strikes : OrderedMap (String × String) ℕ := .empty
  startBackoff : OrderedMap (String × String) StartBackoff := .empty
  breakers : OrderedMap Pid DownloadBreaker := .empty
  downloadReturns : OrderedMap Job JobReturns := .empty
  returnedBy : OrderedMap Job (Finset Pid) := .empty
  eftDeadlines : EftDeadlines Job := .empty
  queueGeneration : ℕ := 0
  scanActive : Bool := false
  claimSeq : ℕ := 0
  autobench : AutobenchState := {}
  bench : BenchState := {}
  stopping : Bool := false
  updateDrain : Bool := false
  lastPollTick : Option ℚ := none
  scanResetAt : Option ℚ := none
  /-- The helper threads at work. -/
  tasks : List Task := []
  /-- How many ids were drawn for sessions, registrations and benchmarks. -/
  nextSid : Sid := 0
  nextPid : ℕ := 0
  nextBid : ℕ := 0

/-- `Op`, without the contents the scheduler does not depend on. -/
inductive Op where
  | openSession (sid : Sid)
  | volume (sid : Sid) (claim : ClaimId)
  | cancel (sid : Sid) (claim : ClaimId)
  | closeSession (sid : Sid)
  | bench (bid : ℕ)
  | cancelBench (bid : ℕ)

/-- What `std::fs::metadata` says of an archive. -/
inductive ArchiveMeta where
  | gone
  | unreadable
  | size (bytes : ℕ)

/-- `autobench_kind`: which benchmark a row needs before it runs on a machine. -/
inductive AutobenchKind where
  | full
  | precision
deriving DecidableEq

/-- What the scheduler reads outside its own state while it handles one event: the clocks,
the links, the library's files, the machines' profiles and the learned speeds.
-/
structure Env where
  now : ℚ
  mono : ℚ
  libraryVersion : String
  unicode : UnicodeTables
  /-- Whether a link that is up takes the message. -/
  takes : Pid → Op → Bool
  stampOf : Job → Option Stamp
  archiveMeta : Job → ArchiveMeta
  archiveExists : String → String → Bool
  stillOwed : Job → Generation → Bool
  pageCount : String → Option ℤ
  /-- `has_archive`. -/
  hasArchive : Bool
  /-- `catalog_can_run(..).is_some()` under the row's own pools, and under the machine's. -/
  catalogRefuses : Pid → Generation → Bool
  refuses : Pid → Generation → Bool
  /-- What the machine's profile lacks for the row. -/
  unmeasured : Pid → Generation → Option AutobenchKind
  startSignature : Pid → Generation → String
  engineDevice : Pid → Generation → String
  /-- `machine_reads`: whether the machine's release reads every page of the volume. -/
  machineReads : Pid → Job → Bool
  /-- The card of a running job: its ETA, its pages and those done. -/
  card : Job → Option ℚ × Option ℤ × Option ℤ
  rateFor : String → String → Option RateEstimate
  startupFor : String → String → ℚ

namespace Scheduler

variable (s : Scheduler) (env : Env)

/-- `Scheduler::new`. -/
def new (settings : Settings) (failures : Object) : Scheduler where
  settings := settings
  failures := failures

/-- `row`: the live, enabled row with this id. -/
def row (id : String) : Option Generation :=
  (enabledGenerations s.settings.rows).find? (fun row => row.id = id)

/-- `bump`: the cached pending list is stale. -/
def bump : Scheduler := { s with queueGeneration := s.queueGeneration + 1 }

/-- Every lane looks for work again. -/
def wakeLanes : Scheduler :=
  { s with lanes := s.lanes.map (fun lane => { lane with idleAt := none }) }

/-- `Machine::send`. -/
def sends (pid : Pid) (op : Op) : Bool :=
  (s.machines.get? pid).any (fun machine => machine.connected && env.takes pid op)

/-- `machine_by_name`. -/
def machineByName (name : String) : Option (Pid × Machine) :=
  s.machines.entries.find? (fun entry => entry.2.name = name)

/-- `machine_paused`. -/
def machinePaused (pid : Pid) : Bool :=
  (s.machines.get? pid).any (fun machine => machine.pause.isSome)

/-- `held`: an update waits for a quiet moment, or the machine is held. -/
def held (machine : String) : Bool := s.updateDrain || 0 < (s.holds.get? machine).getD 0

/-- `breaker_open`. -/
def breakerOpen (pid : Pid) : Bool :=
  (s.breakers.get? pid).any (fun breaker => breaker.isOpen env.now)

/-- `release_of`: the release a machine registered with, the library's for this server. -/
def releaseOf (pid : Pid) : String :=
  match s.machines.get? pid with
  | some machine =>
      if machine.isLocal && machine.version = "" then env.libraryVersion else machine.version
  | none => ""

end Scheduler

/-- `profile_key`. -/
def profileKey (machine : String) : String := if machine = LOCAL then LOCAL_PROFILE else machine

end MokuroBunko.Server
