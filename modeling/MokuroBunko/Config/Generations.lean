import MokuroBunko.Data.Generation
import MokuroBunko.Data.Json
import MokuroBunko.Lib.SortedMap

/-! The configured list of OCR generations (`generations.rs`): how `ocr.generations` is read, with the
rows of removed engines kept and a primary row put in their place, and how the rows are saved.
-/

namespace MokuroBunko.Config

open MokuroBunko.Data MokuroBunko.Lib

/-- What `serde_json` does with texts: the text of a value, and the value of a text. -/
structure Serde where
  display : Json → String
  fromStr : String → Except String Json

-- Engines

def DETECTORS : List String := ["ppocr-manga"]

def DEFAULT_ENGINE : String := "hayai-nova"

def REMOVED_ENGINES : List (String × String) := [
  (
    "mokuro",
    "mokuro (manga-ocr + comic-text-detector) was removed in 0.7: GPL-licensed detector and weaker reading than hayai-nova/paddle-manga"
  ),
  (
    "mokuro-fp16",
    "mokuro was removed in 0.7: GPL-licensed detector and weaker reading than hayai-nova/paddle-manga"
  )
]

def REMOVED_DETECTORS : List (String × String) := [
  ("ctd", "comic-text-detector is GPL-3.0 and was removed in 0.7"),
  ("animetext", "AnimeText (GPL-3.0) was removed in 0.7"),
  ("rtdetr", "rtdetr was removed in 0.7 (poor detection quality)")
]

def PATCH_BUDGETS : List ℕ := [256, 384, 512]

def DEFAULT_PATCH_BUDGET : ℕ := 512

def PRECISIONS : List String := ["bf16", "fp16", "fp32"]

def PRECISION_MODES : List String :=
  ["auto-accuracy", "auto-balanced", "auto-speed", "fp32", "bf16", "fp16"]

def DEFAULT_PRECISION_MODE : String := "auto-accuracy"

def engine (id : String) : Option EngineSpec := ENGINES.find? (fun spec => spec.id = id)

def removedEngine (id : String) : Option String := Entries.get? id REMOVED_ENGINES

def removedDetector (id : String) : Option String := Entries.get? id REMOVED_DETECTORS

/-- Why the recognizer may not be put on a GPU. -/
def cpuOnlyReason (spec : EngineSpec) : String :=
  if spec.id = "ppocr-manga" then "PP-OCRv6's CTC recognizer runs on the CPU" else ""

/-- The stages of the engine's road. -/
def stageKeys (spec : EngineSpec) : List String :=
  if spec.detector.isSome then ["detect", "layout"] else ["detect", "engine", "post"]

/-- The stages that hold a model. -/
def deviceStageKeys (spec : EngineSpec) : List String :=
  if spec.detector.isSome then ["detect"] else ["detect", "engine"]

/-- `auto` (the old spelling) means the default mode. -/
def normalizePrecisionMode (value : Option String) : Except String String :=
  let mode := Text.trim (value.getD "")
  if mode = "" ∨ mode = "auto" then .ok DEFAULT_PRECISION_MODE
  else if mode ∈ PRECISION_MODES then .ok mode
  else
    .error ("precision is '" ++ mode ++ "'; it must be one of " ++ ", ".intercalate PRECISION_MODES)

-- Rows

structure Pools where
  stageWorkers : List (String × ℕ)
  queueCapacity : List (String × ℕ)
  stageDevice : List (String × String)
  deriving DecidableEq

def Pools.default : Pools := ⟨[], [], []⟩

def numberJson (value : ℕ) : Json := .num (.int value)

def Pools.toValue (pools : Pools) : Json :=
  .obj [
    ("stage_workers", .obj (pools.stageWorkers.map (fun (key, width) => (key, numberJson width)))),
    ("queue_capacity", .obj (pools.queueCapacity.map (fun (key, width) => (key, numberJson width)))),
    ("stage_device", .obj (pools.stageDevice.map (fun (key, device) => (key, .str device))))
  ]

/-- A row with what the queue does not read of it. -/
structure GenerationRow extends Generation where
  pools : Pools
  precisionPick : Option String
  precisionWhy : String
  /-- The row as it was read, kept of a retired one. -/
  raw : Option Object

def RETIRED_FROM_PRIMARY : String := "retired_from_primary"

def valueBool (value : Option Json) (default : Bool) : Bool :=
  match value with
  | none | some .null => default
  | some value => truthy (some value)

/-- The text of a value without the white space around it. -/
def valueStr (serde : Serde) (value : Option Json) : String :=
  match value with
  | none | some .null => ""
  | some (.str text) => Text.trim text
  | some other => Text.trim (Text.trimMatches '"' (serde.display other))

/-- A raw row that says `primary: true` and is not `enabled: false`. -/
def isEnabledPrimary (row : Object) : Bool :=
  valueBool (row.get? "primary") false && valueBool (row.get? "enabled") true

namespace GenerationRow

/-- Retired from `primary`. -/
def wasPrimary (row : GenerationRow) : Bool :=
  row.retired.isSome
    && row.raw.any (fun raw =>
      valueBool (raw.get? RETIRED_FROM_PRIMARY) false || isEnabledPrimary raw)

/-- The suffix of the files that the row's sidecars are on disk under. -/
def filesSuffix (row : GenerationRow) : String :=
  if row.wasPrimary then ".mokuro" else row.sidecarSuffix

/-- The fields of a row that is not retired. -/
def activeFields (row : GenerationRow) : Object :=
  [
    ("id", .str row.id),
    ("name", .str row.name),
    ("primary", .bool row.primary),
    ("enabled", .bool row.enabled),
    ("engine", .str row.engine)
  ]
    ++ row.detector.toList.map (fun detector => ("detector", .str detector))
    ++ [("patch_budget", numberJson row.patchBudget)]
    ++ (if row.precision ≠ DEFAULT_PRECISION_MODE then [("precision", .str row.precision)] else [])
    ++ [("pools", row.pools.toValue)]
    ++ (row.precisionPick.toList.map (fun pick =>
      [("precision_pick", .str pick), ("precision_why", .str row.precisionWhy)])).flatten

/-- The row as stored in `config.yaml`: a retired one as it was read, but not primary and not enabled. -/
def fields (row : GenerationRow) : Object :=
  match row.retired, row.raw with
  | some _, some raw =>
      (((raw.insert "id" (.str row.id)).insert "name" (.str row.name)).insert "primary"
        (.bool false)).insert "enabled" (.bool false)
  | _, _ => row.activeFields

def toValue (row : GenerationRow) : Json := .obj row.fields

end GenerationRow

def defaultGeneration (id : String) : GenerationRow where
  id := id
  name := DEFAULT_ENGINE
  engine := DEFAULT_ENGINE
  primary := true
  enabled := true
  detector := some DEFAULT_DETECTOR
  patchBudget := DEFAULT_PATCH_BUDGET
  precision := DEFAULT_PRECISION_MODE
  retired := none
  pools := .default
  precisionPick := none
  precisionWhy := ""
  raw := none

-- Names and ids

def MAX_GENERATION_NAME : ℕ := 32

def RESERVED_NAMES : List String := ["original", "gcv", "updated-ocr"]

def RESERVED_PREFIXES : List String := ["tr-"]

def isLower (char : Char) : Bool := 97 ≤ char.toNat && char.toNat ≤ 122

def isAlphanumeric (char : Char) : Bool :=
  isLower char || (65 ≤ char.toNat && char.toNat ≤ 90) || Text.isDigit char

def isNameChar (char : Char) : Bool := isLower char || Text.isDigit char || char = '-'

/-- Why the name cannot be a generation's, if it cannot. -/
def nameRejection (name : String) : Option String :=
  if name = "" then
    some "a name is required (it is this row's label and its file-name postfix)"
  else if ¬ name.toList.head?.any (fun char => isLower char || Text.isDigit char)
      ∨ MAX_GENERATION_NAME < name.length ∨ ¬ name.toList.all isNameChar then
    some ("name '" ++ name
      ++ "' cannot be a file-name postfix: use lowercase letters, digits and hyphens only, "
      ++ toString MAX_GENERATION_NAME
      ++ " characters at most, starting with a letter or a digit (a name outside this is invisible to every reader)")
  else if name ∈ RESERVED_NAMES then
    some ("name '" ++ name ++ "' is reserved by the reader for its own layer of that name")
  else
    (RESERVED_PREFIXES.find? (Text.startsWith name)).map (fun opening =>
      "name '" ++ name ++ "' is reserved: the reader files any layer starting with '" ++ opening
        ++ "' as a translation, whatever produced it")

/-- The text's characters up to the length, without trailing hyphens. -/
def trimName (stem : List Char) : List Char :=
  ((stem.take MAX_GENERATION_NAME).reverse.dropWhile (· = '-')).reverse

/-- Try the candidate, and then the stem with one number after another. A counter that leaves `i32`
ends the search.
-/
def seedFrom (stem : List Char) (taken : List String) : ℕ → ℕ → String → Option String
  | 0, _, _ => none
  | fuel + 1, counter, candidate =>
      if candidate ∈ taken ∨ (nameRejection candidate).isSome then
        let tail := '-' :: (toString (counter + 1)).toList
        let room := MAX_GENERATION_NAME - tail.length
        seedFrom stem taken fuel (counter + 1) (String.ofList (trimName (stem.take room) ++ tail))
      else some candidate

/-- The name that a new row gets: the engine, or the engine and the detector. -/
def seedGenerationName (engineId : String) (detector : Option String) (taken : List String)
    : Option String :=
  let ownDetector := (engine engineId).any (fun spec => spec.detector.isSome)
  let stem :=
    match detector with
    | some detector =>
        if ¬ ownDetector ∧ detector ≠ "" then engineId ++ "-" ++ detector else engineId
    | none => engineId
  let stem := trimName stem.toList
  seedFrom stem taken (2 ^ 31 - 1) 1 (String.ofList stem)

def isValidId (id : String) : Bool :=
  id.toList.head?.any isAlphanumeric && id.length ≤ 32
    && id.toList.all (fun char => isAlphanumeric char || char = '_' || char = '-')

def withoutPlus : List Char → List Char
  | '+' :: rest => rest
  | chars => chars

/-- `str::parse` of an unsigned number below the limit. -/
def parseUnsigned (limit : ℕ) (text : List Char) : Option ℕ :=
  let digits := withoutPlus text
  if areDigits digits ∧ digitsValue digits < limit then some (digitsValue digits) else none

/-- The number of an id `g-<n>`. -/
def numberOf (id : String) : Option ℕ :=
  (Text.stripPrefix id "g-").bind (fun text => parseUnsigned (2 ^ 64) text.toList)

/-- Try one number after another. The addition wraps at 64 bits; whether it did is noted. Nothing is
found if every number is taken.
-/
def mintFrom (used : List String) : ℕ → ℕ → Bool → Option (String × Bool)
  | 0, _, _ => none
  | fuel + 1, highest, overflowed =>
      let number := (highest + 1) % 2 ^ 64
      let overflowed := overflowed || highest + 1 = 2 ^ 64
      let candidate := "g-" ++ toString number
      if candidate ∈ used then mintFrom used fuel number overflowed else some (candidate, overflowed)

/-- The next free `g-<n>` id, and whether the addition overflowed. -/
def mintGenerationId (used : List String) : Option (String × Bool) :=
  mintFrom used (2 ^ 64) ((used.filterMap numberOf).foldl max 0) false

end MokuroBunko.Config
