import MokuroBunko.Sched.Failures
import MokuroBunko.Server.PublicNames
import Mathlib.Data.List.Sort

/-! What the queue page is sent, per display level and per viewer. Nested objects are
rebuilt field by field from the raw status.
-/

namespace MokuroBunko.Server

open MokuroBunko.Lib MokuroBunko.Data MokuroBunko.Sched

-- Texts and keys

def LEVELS : List String := ["minimal", "normal", "detailed"]
def DEFAULT_LEVEL : String := "normal"

def REASON_DOWNLOAD : String := "download failed — will retry"
def REASON_ARCHIVE : String := "archive incomplete"
def REASON_INTERRUPTED : String := "interrupted — will retry"
def REASON_ENGINE : String := "engine error"
def REASON_RETRY : String := "failed — will retry"
def REASON_NO_PAGES : String := "no decodable pages — waits for a new archive or release"
def REASON_DAMAGED : String := "damaged archive — waits for a new archive or release"

def ARCHIVE_WORDS : List String := [
  "zip", "truncated", "missing page", "pages short", "incomplete", "corrupt", "no images",
  "invalid image", "cannot identify image", "archive"
]

def INTERRUPTED_WORDS : List String := [
  "disconnect", "connection", "timed out", "timeout", "went away", "lost", "closed before",
  "stopping"
]

def ENGINE_WORDS : List String := [
  "out of memory", "oom", "cuda", "hip", "rocm", "exited", "exit code", "traceback", "engine",
  "runner", "killed", "signal", "error", "exception"
]

def MINIMAL_PENDING_LIMIT : ℕ := 10
def QUEUE_REPORT_LIMIT : ℕ := 100

def MINIMAL_JOB_KEYS : List String := ["series", "volume", "generation", "percent", "eta_at"]

def NORMAL_JOB_EXTRA : List String := [
  "status", "done_pages", "total_pages", "eta_seconds", "startup_seconds", "host_busy"
]

def DETAILED_JOB_EXTRA : List String := [
  "engine", "detector", "latency_seconds", "startup_rough", "pipeline"
]

def NEXT_KEYS : List String := ["series", "volume", "generation"]

def MINIMAL_PENDING_KEYS : List String := ["series", "volume", "generation", "eta_at", "rough"]

def PENDING_KEYS : List String := [
  "series", "volume", "generation", "eta_at", "rough", "attempts", "reason"
]

def DETAILED_PENDING_EXTRA : List String := [
  "engine", "detector", "pages", "rate_source", "latency_seconds"
]

def FAILED_KEYS : List String := ["series", "volume", "generation", "attempts", "reason"]

def ADMIN_FAILED_KEYS : List String := ["error", "log_file", "last_attempt_at"]

def SKIPPED_KEYS : List String := [
  "series", "volume", "missing_pages", "page_count", "generations"
]

def STAGE_KEYS : List String := [
  "key", "name", "device", "workers", "fused", "busy_pct", "blocked_pct", "starved_pct"
]

def QUEUE_KEYS : List String := ["name", "capacity", "mean_depth", "max_depth"]

/-- The text operations that rest on tables: lower case, and a JSON value written out. -/
structure TextTables where
  toLowercase : String → String
  jsonText : Json → String

/-- `normalize_level`. -/
def normalizeLevel (value : String) : String := (LEVELS.find? (· = value)).getD DEFAULT_LEVEL

/-- `failure_reason`: what a visitor is told of an error. -/
def failureReason (texts : TextTables) (error : Json) : String :=
  let text :=
    match error with
    | .null => ""
    | .str text => texts.toLowercase text
    | other => texts.toLowercase (texts.jsonText other)
  match FailureKind.of text with
  | .noReadablePages => REASON_NO_PAGES
  | .damagedArchive => REASON_DAMAGED
  | .machine | .other =>
      if Text.startsWith text "download failed" then REASON_DOWNLOAD
      else if ARCHIVE_WORDS.any (Text.contains text) then REASON_ARCHIVE
      else if INTERRUPTED_WORDS.any (Text.contains text) then REASON_INTERRUPTED
      else if ENGINE_WORDS.any (Text.contains text) then REASON_ENGINE
      else REASON_RETRY

-- Fields

/-- A whole number as a JSON value. -/
def jsonInt (value : ℤ) : Json := .num (.int value)

/-- A field, null when it is missing. -/
def field (object : Object) (key : String) : Json := (Object.get? object key).getD .null

/-- `pick`: the named fields, in the order of their names. -/
def pick (source : Object) (keys : List String) : Object :=
  keys.map (fun key => (key, field source key))

/-- `objects`: the objects of an array, none for anything else. -/
def objects (value : Option Json) : List Object :=
  match value with
  | some (.arr items) => items.filterMap Json.asObject?
  | _ => []

/-- `Value::as_i64`. -/
def asI64 (value : Option Json) : Option ℤ :=
  match value with
  | some (.num (.int number)) => if i64Min ≤ number ∧ number ≤ i64Max then some number else none
  | _ => none

/-- A text field that is not empty. -/
def namedText (object : Object) (key : String) : Option String :=
  ((Object.get? object key).bind Json.asStr?).filter (· ≠ "")

-- Machines

/-- `job_state`: running, loading or waiting. -/
def jobState (job : Object) : String :=
  if (Object.get? job "status").bind Json.asStr? ≠ some "starting" then "running"
  else
    match Object.get? job "session_ready" with
    | some (.bool false) => "loading"
    | some (.bool true) =>
        if Object.get? job "delivered" = some (.bool false) then "waiting" else "running"
    | _ =>
        if (asFloat (Object.get? job "startup_seconds")).any (0 < ·) then "loading"
        else "waiting"

/-- `state_rank`. -/
def stateRank (state : String) : ℕ :=
  if state = "running" then 0 else if state = "loading" then 1
  else if state = "waiting" then 2 else 3

/-- `Grouped`: one machine of `group_by_machine`, which files it under its name. -/
structure Grouped where
  active : List Object := []
  next : List Object := []
  label : Option String := none
  slots : ℤ := 1
  held : Json := .null
  heldError : Json := .null
  heldUntil : Json := .null
  configuring : Json := .null
  standby : Bool := false
  cannotStart : List Json := []
  state : String := "idle"

/-- `machine_of`: the machine a card names, this server when it names none. -/
def machineOf (job : Object) : String := (namedText job "machine").getD LOCAL

/-- What a connected machine's row says. -/
def groupedOfRow (row : Object) : Grouped where
  slots := ((asI64 (Object.get? row "slots")).filter (0 < ·)).getD 1
  held := field row "held"
  heldError := field row "held_error"
  heldUntil := field row "held_until"
  configuring := field row "configuring"
  standby := truthy (Object.get? row "standby")
  cannotStart := ((Object.get? row "cannot_start").bind Json.asArray?).getD []

/-- The connected machines, each once, in the rows' order. -/
def addConnected (machines : List (String × Grouped)) (row : Object) : List (String × Grouped) :=
  match namedText row "machine" with
  | none => machines
  | some machine =>
      match Entries.get? machine machines with
      | some _ => machines
      | none => Entries.insert machine (groupedOfRow row) machines

/-- A card's machine among the others; the first card that carries a label gives it. -/
def addJobMachine (machines : List (String × Grouped)) (job : Object) : List (String × Grouped) :=
  let machine := machineOf job
  let grouped := (Entries.get? machine machines).getD {}
  let label := if grouped.label.isNone then namedText job "processor" else grouped.label
  Entries.insert machine { grouped with label := label } machines

/-- The lane a card belongs to: its machine and its slot, else its own place. -/
def laneKey (index : ℕ) (job : Object) : String × String :=
  let slot :=
    match Object.get? job "slot" with
    | some (.num (.int slot)) => toString slot
    | _ => "job-" ++ toString index
  (machineOf job, slot)

/-- The cards by lane, lanes and cards in the order they come. -/
def addToLane (lanes : List ((String × String) × List Object)) (card : Object × ℕ)
    : List ((String × String) × List Object) :=
  let key := laneKey card.2 card.1
  Entries.insert key ((Entries.get? key lanes).getD [] ++ [card.1]) lanes

/-- Cards with pages out come first, then the ones started earlier. -/
def cardBefore (a b : Object) : Prop :=
  let pagesOut := fun job : Object =>
    if 0 < (asI64 (Object.get? job "done_pages")).getD 0 then 0 else 1
  let started := fun job : Object => (asFloat (Object.get? job "started_at")).getD 0
  pagesOut a < pagesOut b ∨ (pagesOut a = pagesOut b ∧ started a ≤ started b)

instance : DecidableRel cardBefore := fun a b => by
  unfold cardBefore
  infer_instance

/-- A lane's first card is active on its machine, the others come next. -/
def placeLane (machines : List (String × Grouped)) (lane : (String × String) × List Object)
    : List (String × Grouped) :=
  match Entries.get? lane.1.1 machines with
  | none => machines
  | some grouped =>
      let cards := lane.2.insertionSort cardBefore
      let grouped := { grouped with
        active := grouped.active ++ cards.take 1
        next := grouped.next ++ cards.drop 1
      }
      Entries.insert lane.1.1 grouped machines

/-- The least-ranked state of the active cards. -/
def bestState : List String → Option String
  | [] => none
  | state :: rest =>
      match bestState rest with
      | none => some state
      | some best => if stateRank best < stateRank state then some best else some state

/-- A machine's slots and state once its cards are placed. -/
def finishGrouped (grouped : Grouped) : Grouped :=
  let state :=
    match bestState (grouped.active.map jobState) with
    | some state => state
    | none =>
        if grouped.configuring.asObject?.isSome then "configuring"
        else if truthy (some grouped.held) then "held"
        else if grouped.standby then "standby"
        else "idle"
  { grouped with slots := max grouped.slots grouped.active.length, state := state }

/-- `group_by_machine`. -/
def groupByMachine (jobs connected : List Object) : List (String × Grouped) :=
  let machines := jobs.foldl addJobMachine (connected.foldl addConnected [])
  let lanes := jobs.zipIdx.foldl addToLane []
  (lanes.foldl placeLane machines).map (fun machine => (machine.1, finishGrouped machine.2))

-- Parts of the payload

/-- `pipeline`. -/
def pipeline (value : Option Json) : Json :=
  match value with
  | some (.obj fields) =>
      let stages := (objects (Object.get? fields "stages")).map (fun stage =>
        let queue :=
          match Object.get? stage "queue" with
          | some (.obj queue) => Json.obj (pick queue QUEUE_KEYS)
          | _ => Json.null
        Json.obj (Object.insert (pick stage STAGE_KEYS) "queue" queue))
      if stages = [] then .null
      else .obj [
        ("verdict", field fields "verdict"),
        ("bottleneck", field fields "bottleneck"),
        ("stages", .arr stages)
      ]
  | _ => .null

/-- A field that is shown as zero when it is not truthy. -/
def zeroUnlessTruthy (out : Object) (key : String) : Object :=
  match Object.get? out key with
  | some value => if truthy (some value) then out else Object.insert out key (jsonInt 0)
  | none => out

/-- `job`: a card with the keys of the level. -/
def shapeJob (card : Object) (keys : List String) : Object :=
  let out := Object.insert (pick card keys) "state" (.str (jobState card))
  let out := ["percent", "done_pages"].foldl zeroUnlessTruthy out
  if (Object.get? out "pipeline").isSome then
    Object.insert out "pipeline" (pipeline (Object.get? card "pipeline"))
  else out

/-- `hold`. -/
def hold (value : Option Json) (namer : Namer) : Json × Namer :=
  match value with
  | some (.obj fields) =>
      let out : Object := [("reason", field fields "reason"), ("since", field fields "since")]
      match Object.get? fields "last" with
      | some (.obj last) =>
          let (name, namer) := namer.name (field last "name")
          (.obj (out ++ [("last", .obj [
            ("name", .str name),
            ("disconnected_at", field last "disconnected_at")
          ])]), namer)
      | _ => (.obj out, namer)
  | _ => (.null, namer)

/-- Whether a benchmark's key is a draft's. -/
def isDraft (key : Option Json) : Bool :=
  (key.bind Json.asStr?).any (fun key => Text.startsWith key "draft-")

/-- The row of the benchmark a machine stands in line for: a draft's is an administrator's. -/
def lineGeneration (key : Option Json) (generation : Json) (admin : Bool) : Json :=
  let secret := (key.bind Json.asStr?).isNone || isDraft key || some generation = key
  if !admin && secret then .null else generation

/-- `configuring`: the benchmark a machine stands in line for. -/
def configuring (grouped : Grouped) (admin : Bool) : Option Json :=
  if grouped.state ≠ "configuring" then none
  else
    match grouped.configuring with
    | .obj line =>
        some (.obj [
          ("generation", lineGeneration (Object.get? line "key") (field line "generation") admin),
          ("auto", .bool (truthy (Object.get? line "auto")))
        ])
    | _ => none

/-- The machine a pause names; this server's own stays as it is. -/
def pausedProcessor (processor : Json) (namer : Namer) : Json × Namer :=
  match processor.asStr? with
  | none => (processor, namer)
  | some name =>
      if name = "" ∨ name = LOCAL then (processor, namer)
      else
        let (name, namer) := namer.name processor
        (.str name, namer)

/-- What a pause says of its row. -/
def pausedLine (key generation : Json) (admin : Bool) : Object :=
  if admin then [("key", key), ("generation", generation)]
  else if key.asStr?.isSome && !isDraft (some key) && generation ≠ key then
    [("generation", generation)]
  else []

/-- `paused`. -/
def paused (value : Option Json) (namer : Namer) (admin : Bool) : Json × Namer :=
  match value with
  | some (.obj fields) =>
      let (processor, namer) := pausedProcessor (field fields "processor") namer
      (.obj ([("queued", field fields "queued"), ("processor", processor)]
        ++ pausedLine (field fields "key") (field fields "generation") admin), namer)
  | _ => (.null, namer)

/-- `returned`. -/
def returned (value : Option Json) (namer : Namer) (admin : Bool) : Json × Namer :=
  match value with
  | some (.obj fields) =>
      let (machine, namer) := namer.name (field fields "machine")
      let out : Object := [
        ("machine", .str machine),
        ("reason", .str REASON_DOWNLOAD),
        ("at", field fields "at")
      ]
      (.obj (out ++ if admin then pick fields ["class", "error", "count"] else []), namer)
  | _ => (.null, namer)

/-- The pages per minute of each row on each machine. -/
def speedRates (texts : TextTables) (speed : List Object) : List ((String × String) × ℚ) :=
  speed.foldl (fun rates entry =>
    let generation := ((Object.get? entry "generation_id").map texts.jsonText).getD ""
    (objects (Object.get? entry "machines")).foldl (fun rates machine =>
      match (asFloat (Object.get? machine "pages_per_minute")).filter (0 < ·) with
      | some rate =>
          let name := ((Object.get? machine "machine").bind Json.asStr?).getD ""
          Entries.insert (generation, name) rate rates
      | none => rates) rates) []

/-- One active card of a machine at the normal and the detailed level. -/
def shapeActive (texts : TextTables) (rates : List ((String × String) × ℚ)) (detailed : Bool)
    (keys : List String) (machine : String) (card : Object) : Json :=
  let out := shapeJob card keys
  if detailed then
    let generation := ((Object.get? card "generation_id").map texts.jsonText).getD ""
    let rate := Entries.get? (generation, machine) rates
    .obj (Object.insert out "throughput_pages_per_minute"
      (rate.elim .null (fun rate => .num (.float rate))))
  else .obj out

/-- One row a machine could not start. -/
def shapeCannotStart (admin : Bool) (row : Object) : Json :=
  .obj ([("generation", field row "generation"), ("until", field row "until")]
    ++ if admin then [("error", field row "error")] else [])

/-- What every level says of a machine: its name, state, slots and cards. -/
def machineEntry (name : String) (grouped : Grouped) (jobs : List Json) (admin : Bool) : Object :=
  [
    ("name", .str name),
    ("state", .str grouped.state),
    ("slots", jsonInt grouped.slots),
    ("jobs", .arr jobs),
    ("next", .arr (grouped.next.map (fun job => .obj (pick job NEXT_KEYS))))
  ] ++ ((configuring grouped admin).map (fun line => ("configuring", line))).toList

/-- A machine at the minimal level. -/
def shapeMachineMinimal (admin : Bool) (machine : String × Grouped) (namer : Namer)
    : Json × Namer :=
  let (name, namer) := namer.name (.str machine.1)
  let jobs := machine.2.active.map (fun job => Json.obj (shapeJob job MINIMAL_JOB_KEYS))
  (.obj (machineEntry name machine.2 jobs admin), namer)

/-- A machine at the normal and the detailed level. -/
def shapeMachine (texts : TextTables) (rates : List ((String × String) × ℚ))
    (detailed admin : Bool) (keys : List String) (machine : String × Grouped) (namer : Namer)
    : Json × Namer :=
  let grouped := machine.2
  let jobs := grouped.active.map (shapeActive texts rates detailed keys machine.1)
  let (name, namer) := namer.name (.str machine.1)
  let held : Object :=
    if truthy (some grouped.held) then
      [("held", .obj ([("reason", .str "downloads failing"), ("until", grouped.heldUntil)]
        ++ if admin then [("error", grouped.heldError)] else []))]
    else []
  let cannot := (grouped.cannotStart.filterMap Json.asObject?).map (shapeCannotStart admin)
  let cannotStart : Object := if cannot = [] then [] else [("cannot_start", .arr cannot)]
  let label : Object := if admin then [("label", optStrValue grouped.label)] else []
  (.obj (machineEntry name grouped jobs admin ++ held ++ cannotStart ++ label), namer)

/-- One failed volume. -/
def shapeFailed (texts : TextTables) (admin : Bool) (item : Object) : Json :=
  let out := pick item FAILED_KEYS
  let out :=
    if truthy (Object.get? out "attempts") then out
    else Object.insert out "attempts" (jsonInt 1)
  let out := Object.insert out "reason" (.str (failureReason texts (field item "error")))
  .obj (out ++ if admin then pick item ADMIN_FAILED_KEYS else [])

/-- One waiting volume at the normal and the detailed level. -/
def shapePending (admin : Bool) (keys : List String) (item : Object) (namer : Namer)
    : Json × Namer :=
  let attempts :=
    ((Object.get? item "attempts").filter (fun value => truthy (some value))).getD (jsonInt 0)
  let (back, namer) := returned (Object.get? item "returned") namer admin
  (.obj (Object.insert (Object.insert (pick item keys) "attempts" attempts) "returned" back),
    namer)

/-- One row's speed. -/
def shapeSpeed (entry : Object) : Option Json := do
  let combined ← (asFloat (Object.get? entry "combined_pages_per_minute")).filter (0 < ·)
  let working := (objects (Object.get? entry "machines")).countP
    (fun machine => truthy (Object.get? machine "working"))
  return .obj [
    ("generation", field entry "generation"),
    ("pages_per_minute", .num (.float combined)),
    ("machines", jsonInt working)
  ]

/-- A row held for administrators to see. -/
def shapeHeldRow (row : Object) : Option Json :=
  match Object.get? row "generation", Object.get? row "reason" with
  | some (.str generation), some (.str reason) =>
      some (.obj [("generation", .str generation), ("reason", .str reason)])
  | _, _ => none

-- The payload

/-- The cards of the raw status. -/
def statusJobs (raw : Object) : List Object :=
  match Object.get? raw "current_jobs" with
  | some (.arr items) => objects (some (.arr items))
  | _ => objects (some (.arr (Object.get? raw "current").toList))

/-- What every level says: the level, the queue's end, holds and pauses. -/
def shapeCommon (raw : Object) (level : String) (admin : Bool) (namer : Namer)
    : Object × Namer :=
  let (held, namer) := hold (Object.get? raw "processing_hold") namer
  let (pause, namer) := paused (Object.get? raw "paused_for_benchmark") namer admin
  let common : Object := [
    ("level", .str level),
    ("queue_done_at", field raw "queue_done_at"),
    ("pending_count", jsonInt (objects (Object.get? raw "pending_ocr")).length),
    ("processing_hold", held),
    ("paused_for_benchmark", pause)
  ]
  let rows := (objects (Object.get? raw "held_rows")).filterMap shapeHeldRow
  (common ++ if admin then [("held_rows", .arr rows)] else [], namer)

/-- The rest of the payload at the minimal level. -/
def shapeMinimal (raw : Object) (admin : Bool) (namer : Namer) : Object × Namer :=
  let grouped := groupByMachine (statusJobs raw) (objects (Object.get? raw "connected_machines"))
  let (machines, namer) := namer |> Namer.mapNamed (shapeMachineMinimal admin) grouped
  let pending := (objects (Object.get? raw "pending_ocr")).take MINIMAL_PENDING_LIMIT
  ([
    ("machines", .arr machines),
    ("pending", .arr (pending.map (fun item => .obj (pick item MINIMAL_PENDING_KEYS))))
  ], namer)

/-- The rest of the payload at the normal and the detailed level. -/
def shapeFull (texts : TextTables) (raw : Object) (detailed admin : Bool) (namer : Namer)
    : Object × Namer :=
  let grouped := groupByMachine (statusJobs raw) (objects (Object.get? raw "connected_machines"))
  let speed := objects (Object.get? raw "speed")
  let rates := if detailed then speedRates texts speed else []
  let jobKeys := MINIMAL_JOB_KEYS ++ NORMAL_JOB_EXTRA
    ++ if detailed then DETAILED_JOB_EXTRA else []
  let pendingKeys := PENDING_KEYS ++ if detailed then DETAILED_PENDING_EXTRA else []
  let (machines, namer) :=
    namer |> Namer.mapNamed (shapeMachine texts rates detailed admin jobKeys) grouped
  let failed := (objects (Object.get? raw "failed")).map (shapeFailed texts admin)
  let pending := (objects (Object.get? raw "pending_ocr")).take QUEUE_REPORT_LIMIT
  let (pending, namer) := namer |> Namer.mapNamed (shapePending admin pendingKeys) pending
  let thumbnails :=
    ((Object.get? raw "pending_thumbnails").filter (fun value => truthy (some value))).getD
      (jsonInt 0)
  let skipped := (objects (Object.get? raw "skipped_missing_pages")).map
    (fun item => Json.obj (pick item SKIPPED_KEYS))
  let generations := (objects (Object.get? raw "generations")).map
    (fun row => Json.obj [("id", field row "id"), ("name", field row "name")])
  let payload : Object := [
    ("machines", .arr machines),
    ("pending", .arr pending),
    ("pending_thumbnails", thumbnails),
    ("failed_count", jsonInt failed.length),
    ("failed", .arr failed),
    ("skipped_missing_pages", .arr skipped),
    ("generations", .arr generations)
  ]
  (payload ++ (if detailed then [("speed", .arr (speed.filterMap shapeSpeed))] else [])
    ++ (if admin then [("backend", field raw "backend")] else []), namer)

/-- `shape_status`: the payload, and the namer with the aliases it gave. -/
def shapeStatus (texts : TextTables) (raw : Object) (level : String) (admin : Bool)
    (names : PublicNames) : Json × Namer :=
  let level := normalizeLevel level
  let namer : Namer := if admin then .admin else .visitor names
  let (common, namer) := shapeCommon raw level admin namer
  let (rest, namer) :=
    if level = "minimal" then shapeMinimal raw admin namer
    else shapeFull texts raw (level == "detailed") admin namer
  (.obj (common ++ rest), namer)

end MokuroBunko.Server
