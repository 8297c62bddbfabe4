import MokuroBunko.Data.Format
import MokuroBunko.Data.Generation
import MokuroBunko.Lib.SortedMap

/-! Precision modes as the library and the benchmark see them. A format is a precision,
optionally with the backend that runs it; a machine's formats are what it reported.
-/

namespace MokuroBunko.Sched

open MokuroBunko.Lib MokuroBunko.Data

-- Formats and modes

def FP32 : String := "fp32"
def FP16 : String := "fp16"
def BF16 : String := "bf16"

/-- The formats a recognizer computes in. -/
def PRECISIONS : List String := [BF16, FP16, FP32]

def MODE_ACCURACY : String := "auto-accuracy"
def MODE_BALANCED : String := "auto-balanced"
def MODE_SPEED : String := "auto-speed"
def DEFAULT_MODE : String := MODE_ACCURACY

/-- Every mode, in the admin panel's order. -/
def MODES : List String := [
  MODE_ACCURACY, MODE_BALANCED, MODE_SPEED, FP32, BF16, FP16
]

/-- The modes a per-machine benchmark decides. -/
def BENCHED_MODES : List String := [
  MODE_BALANCED, MODE_SPEED
]

def PRECISION_TIE : ℚ := 1 / 20

def BACKEND_SEP : Char := '@'

/-- `base_format`: `fp32@ncnn` → `fp32`. -/
def baseFormat (fmt : String) : String :=
  ((Text.splitOnce fmt BACKEND_SEP).map Prod.fst).getD fmt

/-- `format_backend`: `fp32@ncnn` → `ncnn`, nothing for a plain format. -/
def formatBackend (fmt : String) : Option String := (Text.splitOnce fmt BACKEND_SEP).map Prod.snd

/-- `is_format`: a precision, plain or backend-qualified. -/
def isFormat (fmt : String) : Bool :=
  baseFormat fmt ∈ PRECISIONS && (formatBackend fmt).all (· ≠ "")

/-- `with_variants`: the bases, each followed by the device's variants of it. -/
def withVariants (bases : List String) (supported : SortedSet String) : List String :=
  bases.flatMap (fun base =>
    base :: supported.elements.filter
      (fun fmt => (formatBackend fmt).isSome && baseFormat fmt == base))

/-- `is_forced`. -/
def isForced (mode : String) : Bool := mode ∈ PRECISIONS

/-- `is_benched`. -/
def isBenched (mode : String) : Bool := mode ∈ BENCHED_MODES

/-- `needs_bench`: whether a row's usable formats call for this machine's benchmark. -/
def needsBench (mode : String) (usable : List String) : Bool :=
  (isBenched mode && 1 < usable.length) || usable.any (fun fmt => (formatBackend fmt).isSome)

/-- `is_precision_engine`. -/
def isPrecisionEngine (engine : String) : Bool :=
  engine == "hayai-nova" || engine == "paddle-manga"

/-- `normalize_mode`: blank or `auto` is the default, nothing for an unknown mode. -/
def normalizeMode (value : Option String) : Option String :=
  let text := (value.map (fun v => Text.asciiLower (Text.trim v))).getD ""
  if text = "" ∨ text = "auto" then some DEFAULT_MODE
  else MODES.find? (· = text)

/-- `candidates`: the formats a mode may run an engine at, preferred first. -/
def candidates (engine mode : String) : List String :=
  if !isPrecisionEngine engine then []
  else if mode = FP32 then [FP32]
  else if mode = BF16 then [BF16]
  else if mode = FP16 then [FP16]
  else if engine = "hayai-nova" ∧ (mode = MODE_ACCURACY ∨ mode = MODE_BALANCED) then [BF16, FP32]
  else if engine = "hayai-nova" ∧ mode = MODE_SPEED then [BF16, FP16, FP32]
  else if engine = "paddle-manga" ∧ mode = MODE_ACCURACY then [FP32]
  else if engine = "paddle-manga" ∧ mode = MODE_BALANCED then [BF16, FP32]
  else if engine = "paddle-manga" ∧ mode = MODE_SPEED then [BF16, FP16, FP32]
  else []

/-- The candidates a device runs, only the first unless a benchmark decides. -/
def runnableBases (engine mode : String) (supported : SortedSet String) : List String :=
  let bases := (candidates engine mode).filter (fun c => c = FP32 ∨ c ∈ supported)
  if isBenched mode then bases else bases.take 1

/-- `ModeResolution`: what one mode comes to on one device. -/
structure ModeResolution where
  precision : Option String
  eligible : Bool
  why : String
  /-- The candidates this device supports, in order. -/
  usable : List String
deriving DecidableEq

/-- The reason a pick is given, `benchmark` when it has none. -/
def pickReason (pickWhy : String) : String := if pickWhy = "" then "benchmark" else pickWhy

/-- `resolve_mode`. -/
def resolveMode (engine mode : String) (supported : Option (SortedSet String))
    (pick : Option String) (pickWhy : String) : ModeResolution :=
  let mode := (normalizeMode (some mode)).getD DEFAULT_MODE
  if !isPrecisionEngine engine then ⟨none, true, "fixed by the engine", []⟩
  else if isForced mode then
    -- A device nobody reported counts as fp32-only.
    if supported.elim (mode == FP32) (fun formats => decide (mode ∈ formats)) then
      let usable := supported.elim [mode] (withVariants [mode])
      match pick.filter (fun p => 1 < usable.length ∧ p ∈ usable) with
      | some p => ⟨some p, true, pickReason pickWhy, usable⟩
      | none => ⟨some mode, true, mode, usable⟩
    else if supported.isNone then ⟨none, false, "card not reported", []⟩
    else ⟨none, false, mode ++ " not supported", []⟩
  else
    match supported with
    | none => ⟨none, true, "decided at start (card not reported)", []⟩
    | some supported =>
        let usable := withVariants (runnableBases engine mode supported) supported
        let first := usable.head?.getD FP32
        if !needsBench mode usable then ⟨some first, true, mode, usable⟩
        else
          match pick.filter (fun p => p ∈ usable) with
          | some p => ⟨some p, true, pickReason pickWhy, usable⟩
          | none => ⟨some first, true, "not benchmarked yet: first supported candidate", usable⟩

-- Benchmarks

/-- The rates of the usable formats that were measured; a later trial replaces one. -/
def measuredRates (trials : List (String × ℚ)) (usable : List String) : List (String × ℚ) :=
  trials.foldl
    (fun rates trial =>
      if trial.1 ∉ usable ∨ trial.2 ≤ 0 then rates else Entries.insert trial.1 trial.2 rates)
    []

/-- `pick_precision`: the fastest usable candidate, a tie going to the earlier one, and why. -/
def pickPrecision (trials : List (String × ℚ)) (usable : List String)
    : Option (String × String) := do
  let rates := measuredRates trials usable
  let rateOf := fun fmt => Entries.get? fmt rates
  let fastest ← (rates.map Prod.snd).max?
  let chosen ← usable.find? (fun fmt => (rateOf fmt).any (fastest * (1 - PRECISION_TIE) ≤ ·))
  let mine := (rateOf chosen).getD 0
  let others := usable.filter (fun fmt => fmt ≠ chosen ∧ (rateOf fmt).isSome)
  let own := "benchmark: " ++ chosen ++ " " ++ fmtFixed mine 2 ++ " p/s"
  if others = [] then some (chosen, own)
  else
    let detail := others.map (fun fmt => fmt ++ " " ++ fmtFixed ((rateOf fmt).getD 0) 2 ++ " p/s")
    let verb := if others.all (fun fmt => (rateOf fmt).all (· < mine)) then "beat" else "tied with"
    some (chosen, own ++ " " ++ verb ++ " " ++ ", ".intercalate detail)

/-- One stored trial: its format and pages per second. -/
def benchTrial (trial : Json) : Option (String × ℚ) := do
  let fields ← trial.asObject?
  let fmt ← (← Object.get? fields "precision").asStr?
  let rate ← asFloat (Object.get? fields "pages_per_second")
  if isFormat fmt then some (fmt, rate) else none

/-- `bench_trials`: the trials of a stored benchmark, in the order run. -/
def benchTrials (bench : Option Object) : List (String × ℚ) :=
  match bench.bind (fun b => Object.get? b "precision_trials") with
  | some (.arr trials) => trials.filterMap benchTrial
  | _ => []

/-- A text field of a benchmark. -/
def benchText (bench : Object) (field : String) : Option String :=
  (Object.get? bench field).bind Json.asStr?

/-- `bench_pick`: a machine's benchmarked pick for a mode and why. -/
def benchPick (bench : Option Object) (mode : String) : Option String × String :=
  match bench with
  | none => (none, "")
  | some b =>
      if benchText b "precision_mode" ≠ some mode then (none, "")
      else
        let trials := benchTrials bench
        match benchText b "precision" with
        | none => (none, "")
        | some ran =>
            if trials = [] ∨ ran ∉ trials.map Prod.fst then (none, "")
            else
              let picked := pickPrecision trials (trials.map Prod.fst)
              let why :=
                match (benchText b "precision_why").filter (· ≠ "") with
                | some why => why
                | none => (picked.map Prod.snd).getD "benchmark"
              (some ran, why)

/-- `bench_precision`: the precision a stored benchmark's recognizer ran at. -/
def benchPrecision (bench : Object) : Option String :=
  match (benchText bench "precision").filter isFormat with
  | some ran => some ran
  | none =>
      match Object.get? bench "precision_trials" with
      | some (.arr trials) => do
          let chosen ← (trials.filterMap Json.asObject?).find?
            (fun trial => truthy (Object.get? trial "chosen"))
          (benchText chosen "precision").filter isFormat
      | _ => none

/-- The answers an unreported device could give, one kind of device after the other. -/
def unreportedAnswers (engine mode : String) : List (Option String) :=
  ([[FP32], [FP32, FP16], [FP32, FP16, BF16]].filterMap (fun formats =>
    let resolved := resolveMode engine mode (some (.ofList formats)) none ""
    if resolved.eligible then some resolved.precision else none)).dedup

/-- `stale_bench_reason`: why a stored benchmark no longer describes this machine for the
row's mode, nothing when it does or when it cannot be judged.
-/
def staleBenchReason (engine : Option String) (bench : Object) (mode : String)
    (supported : Option (SortedSet String)) : Option String := do
  let engine ← engine.filter isPrecisionEngine
  match benchPrecision bench with
  | none => some "it records no precision (measured before the precision modes)"
  | some ran =>
      let measuredFor := ((benchText bench "precision_mode").filter (· ≠ "")).map
        (fun m => normalizeMode (some m))
      match measuredFor.join.filter (· ≠ mode) with
      | some m => some ("it was measured for " ++ m ++ "; the row asks " ++ mode ++ " now")
      | none =>
          let ranElsewhere := fun now : String =>
            "it ran at " ++ ran ++ "; this machine runs " ++ now ++ " now"
          match supported with
          | none =>
              match unreportedAnswers engine mode with
              | [answer] =>
                  if isBenched mode then none
                  else (answer.filter (· ≠ ran)).map ranElsewhere
              | _ => none
          | some supported =>
              let resolved := resolveMode engine mode (some supported) none ""
              if !resolved.eligible then none
              else if needsBench mode resolved.usable then
                let tried : SortedSet String := .ofList ((benchTrials (some bench)).map Prod.fst)
                let usable : SortedSet String := .ofList resolved.usable
                if measuredFor ≠ some (some ((normalizeMode (some mode)).getD DEFAULT_MODE))
                    ∨ tried ≠ usable then
                  let triedText :=
                    if tried.elements = [] then "none" else ", ".intercalate tried.elements
                  some ("its precision trials were " ++ triedText
                    ++ "; this machine's candidates for " ++ mode ++ " are "
                    ++ ", ".intercalate resolved.usable)
                else none
              else (resolved.precision.filter (· ≠ ran)).map ranElsewhere

/-- `precision_pick_needed`: a row with candidates to choose between on a machine and no
current pick.
-/
def precisionPickNeeded (row : Generation) (bench : Option Object)
    (supported : Option (SortedSet String)) : Bool :=
  if !row.precisionApplies then false
  else
    match supported with
    | none => false
    | some supported =>
        let usable := (resolveMode row.engine row.precision (some supported) none "").usable
        if !needsBench row.precision usable then false
        else (benchPick bench row.precision).1.isNone

end MokuroBunko.Sched
