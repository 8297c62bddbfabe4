import MokuroBunko.Config.Generations

/-! Reading `ocr.generations` (`generations.rs`).
-/

namespace MokuroBunko.Config

open MokuroBunko.Data MokuroBunko.Lib

structure GenerationError where
  message : String
  /-- The row at fault, if it is one. -/
  row : Option ℕ
  field : Option String
  deriving DecidableEq

/-- Why there are no rows: the value is refused, or a search for a free name or id does not end. -/
inductive ParseFailure where
  | refused (error : GenerationError)
  | stuck
  deriving DecidableEq

abbrev Parsed (α : Type) := Except ParseFailure α

def rowErr {α : Type} (index : ℕ) (field message : String) : Parsed α :=
  .error (.refused
    ⟨"ocr.generations[" ++ toString index ++ "]: " ++ message, some index, some field⟩)

def listErr {α : Type} (field : Option String) (message : String) : Parsed α :=
  .error (.refused ⟨message, none, field⟩)

def jsonType : Json → String
  | .null => "null"
  | .bool _ => "bool"
  | .num _ => "number"
  | .str _ => "str"
  | .arr _ => "list"
  | .obj _ => "dict"

/-- The entries of the list. A text is read as JSON, which may be a text again. -/
def coerceFrom (serde : Serde) : ℕ → Json → Parsed (List Json)
  | _, .null => .ok []
  | fuel, .str text =>
      let text := Text.trim text
      if text = "" then .ok []
      else
        match serde.fromStr text with
        | .error failure =>
            listErr none
              ("ocr.generations must be a list of generations, or the JSON text of one; could not read it as JSON ("
                ++ failure ++ ")")
        | .ok decoded =>
            match fuel with
            | 0 => .error .stuck
            | fuel + 1 => coerceFrom serde fuel decoded
  | _, .obj fields => .ok [.obj fields]
  | _, .arr items => .ok items
  | _, other =>
      listErr none ("ocr.generations must be a list of generations, got " ++ jsonType other)

/-- Each text inside a text is shorter, so its length bounds how often one is read. -/
def coerceRows (serde : Serde) (value : Json) : Parsed (List Json) :=
  coerceFrom serde ((value.asStr?.map String.length).getD 0) value

def rowMaps : ℕ → List Json → Parsed (List Object)
  | _, [] => .ok []
  | index, .obj row :: rest => do .ok (row :: (← rowMaps (index + 1) rest))
  | index, other :: _ =>
      .error (.refused
        ⟨
          "ocr.generations[" ++ toString index
            ++ "]: each generation must be a mapping of fields, got " ++ jsonType other,
          some index,
          none
        ⟩)

-- Ids

/-- The ids that the rows give themselves, after those taken. -/
def explicitIds (serde : Serde) : ℕ → List String → List Object → Parsed (List String)
  | _, taken, [] => .ok taken
  | index, taken, row :: rows =>
      let value := valueStr serde (row.get? "id")
      if value = "" then explicitIds serde (index + 1) taken rows
      else if ¬ isValidId value then
        rowErr index "id"
          ("id '" ++ value
            ++ "' is not usable — ids are letters, digits, '-' and '_' only (they name this row's working directories); leave it out and the server mints one")
      else if value ∈ taken then
        rowErr index "id"
          ("id '" ++ value
            ++ "' is already used by an earlier generation; ids identify a row for its whole life and must be unique")
      else explicitIds serde (index + 1) (taken ++ [value]) rows

/-- Each row's id: its own, or one that is minted. -/
def mintIds (serde : Serde) : List String → List Object → Parsed (List String)
  | _, [] => .ok []
  | taken, row :: rows =>
      let value := valueStr serde (row.get? "id")
      if value = "" then
        match mintGenerationId taken with
        | none => .error .stuck
        | some (minted, _) => do .ok (minted :: (← mintIds serde (taken ++ [minted]) rows))
      else do .ok (value :: (← mintIds serde taken rows))

def assignIds (serde : Serde) (rows : List Object) : Parsed (List String) := do
  mintIds serde (← explicitIds serde 0 [] rows) rows

-- Fields of a row

def nameTakenMessage (name : String) (previous : ℕ) : String :=
  "name '" ++ name ++ "' is already generation " ++ toString previous
    ++ "'s; every generation writes a file named after it, so names must be unique"

/-- The row's detector, and a warning if it named a removed one. -/
def parseDetector (serde : Serde) (index : ℕ) (row : Object) (spec : EngineSpec)
    : Parsed (Option String × List String) :=
  if spec.detector.isSome then .ok (none, [])
  else
    let given := valueStr serde (row.get? "detector")
    let wanted := if given = "" then DEFAULT_DETECTOR else given
    let (wanted, warnings) :=
      match removedDetector wanted with
      | some why =>
          (
            DEFAULT_DETECTOR,
            [
              "ocr.generations[" ++ toString index ++ "]: " ++ why ++ "; this row now reads with the "
                ++ DEFAULT_DETECTOR ++ " detector"
            ]
          )
      | none => (wanted, [])
    if wanted ∈ DETECTORS then .ok (some wanted, warnings)
    else
      rowErr index "detector"
        ("Unknown OCR detector '" ++ wanted ++ "' (known: " ++ ", ".intercalate DETECTORS ++ ")")

/-- The name that the row gives itself, or the one that it is given. -/
def chooseName (serde : Serde) (row : Object) (engineId : String) (detector : Option String)
    (names : List (String × ℕ))
    : Parsed String :=
  let given := valueStr serde (row.get? "name")
  if given = "" then
    match seedGenerationName engineId detector (names.map Prod.fst) with
    | none => .error .stuck
    | some name => .ok name
  else .ok given

def parseName (serde : Serde) (index : ℕ) (row : Object) (engineId : String)
    (detector : Option String) (names : List (String × ℕ))
    : Parsed String := do
  let name ← chooseName serde row engineId detector names
  match nameRejection name, Entries.get? name names with
  | some rejection, _ => rowErr index "name" rejection
  | none, some previous => rowErr index "name" (nameTakenMessage name previous)
  | none, none => .ok name

def parsePatchBudget (serde : Serde) (index : ℕ) (row : Object) : Parsed ℕ :=
  match row.get? "patch_budget" with
  | none | some .null => .ok DEFAULT_PATCH_BUDGET
  | some value =>
      let text := valueStr serde (some value)
      match parseUnsigned (2 ^ 32) text.toList with
      | none => rowErr index "patch_budget" ("Invalid OCR patch budget '" ++ text ++ "'")
      | some budget =>
          if budget ∈ PATCH_BUDGETS then .ok budget
          else
            rowErr index "patch_budget"
              ("Unknown OCR patch budget '" ++ text ++ "' (known: "
                ++ ", ".intercalate (PATCH_BUDGETS.map toString) ++ ")")

/-- The row's precision, or the one of its pools in an old row; the default for an engine without. -/
def parsePrecision (serde : Serde) (index : ℕ) (row : Object) (spec : EngineSpec) : Parsed String :=
  let legacy := (((row.get? "pools").bind Json.asObject?).bind (Object.get? · "precision")).map
    (fun value => valueStr serde (some value))
  let given := valueStr serde (row.get? "precision")
  let value := if given = "" then legacy.filter (· ≠ "") else some given
  match normalizePrecisionMode value with
  | .error message => rowErr index "precision" message
  | .ok mode => .ok (if spec.precision then mode else DEFAULT_PRECISION_MODE)

def parsePick (serde : Serde) (row : Object) : Option String × String :=
  let pick := valueStr serde (row.get? "precision_pick")
  if pick ∈ PRECISIONS then (some pick, valueStr serde (row.get? "precision_why")) else (none, "")

-- Pools

def MAX_STAGE_WORKERS : ℕ := 64

def MAX_QUEUE_CAPACITY : ℕ := 256

def POOL_KEYS : List String := ["stage_workers", "queue_capacity", "stage_device", "precision"]

/-- A whole number of a pool. -/
def parseWidth (serde : Serde) (index : ℕ) (poolKey key : String) (number : Json) : Parsed ℤ :=
  match number with
  | .num (.int value) => .ok (min i64Max value)
  | .num (.float value) => .ok (truncToI64 value)
  | .str text =>
      match parseI64 (Text.trim text).toList with
      | some width => .ok width
      | none =>
          rowErr index "pools"
            ("pools." ++ poolKey ++ "." ++ key ++ " must be a whole number, got '" ++ text ++ "'")
  | other =>
      rowErr index "pools"
        ("pools." ++ poolKey ++ "." ++ key ++ " must be a whole number, got " ++ serde.display other)

/-- The numbers of one pool by stage; a stage that the row no longer has is left out with a warning. -/
def parseWidths (serde : Serde) (index : ℕ) (poolKey : String) (limit floor : ℕ)
    (stages : List String)
    : Object → List (String × ℕ) → Parsed (List (String × ℕ) × List String)
  | [], widths => .ok (widths, [])
  | (stage, number) :: rest, widths =>
      let key := Text.trim stage
      if key ∉ stages then do
        let (widths, warnings) ← parseWidths serde index poolKey limit floor stages rest widths
        .ok (
          widths,
          ("ocr.generations[" ++ toString index ++ "]: pools." ++ poolKey ++ "." ++ key
            ++ " names a stage this row no longer has (" ++ ", ".intercalate stages ++ "); ignored")
            :: warnings
        )
      else do
        let width ← parseWidth serde index poolKey key number
        if width < floor ∨ (limit : ℤ) < width then
          rowErr index "pools"
            ("pools." ++ poolKey ++ "." ++ key ++ " is " ++ toString width ++ "; it must be between "
              ++ toString floor ++ " and " ++ toString limit)
        else
          parseWidths serde index poolKey limit floor stages rest
            (SortedMap.insert key width.toNat widths)

/-- One of the two pools of numbers. -/
def parsePool (serde : Serde) (index : ℕ) (poolKey : String) (limit floor : ℕ)
    (stages : List String) (raw : Object)
    : Parsed (List (String × ℕ) × List String) :=
  match raw.get? poolKey with
  | none | some .null => .ok ([], [])
  | some (.obj values) => parseWidths serde index poolKey limit floor stages values []
  | some _ =>
      rowErr index "pools" ("pools." ++ poolKey ++ " must map a stage name to a number")

/-- `auto`, `cpu` or `gpu:<n>`. -/
def parseDevice (value : String) : Except String String :=
  let device := Text.trim value
  if device = "auto" ∨ device = "cpu" then .ok device
  else if device = "gpu" ∨ device = "cuda" then .ok "gpu:0"
  else
    let number := (Text.stripPrefix device "gpu:").or (Text.stripPrefix device "cuda:")
    match number.bind (fun number => parseUnsigned (2 ^ 32) number.toList) with
    | some number => .ok ("gpu:" ++ toString number)
    | none => .error ("'" ++ device ++ "' is not a device (use auto, cpu or gpu:<n>)")

def parseDevices (serde : Serde) (index : ℕ) (spec : EngineSpec)
    : Object → List (String × String) → Parsed (List (String × String) × List String)
  | [], devices => .ok (devices, [])
  | (stage, value) :: rest, devices =>
      let key := Text.trim stage
      if key ∉ deviceStageKeys spec then do
        let (devices, warnings) ← parseDevices serde index spec rest devices
        .ok (
          devices,
          ("ocr.generations[" ++ toString index ++ "]: pools.stage_device." ++ key
            ++ " names a stage without a model in 0.7 (" ++ ", ".intercalate (deviceStageKeys spec)
            ++ "); ignored")
            :: warnings
        )
      else if value = .null then parseDevices serde index spec rest devices
      else
        match parseDevice (valueStr serde (some value)) with
        | .error message =>
            rowErr index "pools" ("pools.stage_device." ++ key ++ ": " ++ message)
        | .ok device =>
            -- The PP-OCR detector is CPU-only.
            let cpuLocked := key = "detect" ∨ cpuOnlyReason spec ≠ ""
            if cpuLocked ∧ device ≠ "auto" ∧ device ≠ "cpu" then
              rowErr index "pools"
                ("pools.stage_device." ++ key ++ " is '" ++ device
                  ++ "', but that stage runs on the CPU; leave it on cpu")
            else parseDevices serde index spec rest (SortedMap.insert key device devices)

def parseStageDevice (serde : Serde) (index : ℕ) (spec : EngineSpec) (raw : Object)
    : Parsed (List (String × String) × List String) :=
  match raw.get? "stage_device" with
  | none | some .null => .ok ([], [])
  | some (.obj devices) => parseDevices serde index spec devices []
  | some _ =>
      rowErr index "pools" "pools.stage_device must map a stage name to a device (cpu or gpu:<n>)"

def parsePools (serde : Serde) (index : ℕ) (raw : Option Json) (spec : EngineSpec)
    : Parsed (Pools × List String) :=
  match raw with
  | none | some .null => .ok (.default, [])
  | some (.obj raw) =>
      match (raw.map Prod.fst).find? (· ∉ POOL_KEYS) with
      | some unknown =>
          rowErr index "pools"
            ("pools has no '" ++ unknown ++ "' setting (the settings are "
              ++ ", ".intercalate POOL_KEYS ++ ")")
      | none => do
          let (stageWorkers, warnings) ←
            parsePool serde index "stage_workers" MAX_STAGE_WORKERS 0 (stageKeys spec) raw
          let (queueCapacity, moreWarnings) ←
            parsePool serde index "queue_capacity" MAX_QUEUE_CAPACITY 1 (stageKeys spec) raw
          let (stageDevice, lastWarnings) ← parseStageDevice serde index spec raw
          .ok (⟨stageWorkers, queueCapacity, stageDevice⟩, warnings ++ moreWarnings ++ lastWarnings)
  | some _ =>
      rowErr index "pools"
        "pools must be a mapping with 'stage_workers', 'queue_capacity', 'stage_device', 'precision'"

-- Rows

/-- A row of a removed engine. -/
def retiredRow (id name engineId why : String) (raw : Object) : GenerationRow where
  id := id
  name := name
  engine := engineId
  primary := false
  enabled := false
  detector := none
  patchBudget := DEFAULT_PATCH_BUDGET
  precision := DEFAULT_PRECISION_MODE
  retired := some why
  pools := .default
  precisionPick := none
  precisionWhy := ""
  raw := some raw

/-- A row of a removed engine: kept, never run. Its name stays taken. -/
def parseRetired (serde : Serde) (index : ℕ) (row : Object) (rowId engineId why : String)
    (names : List (String × ℕ))
    : Parsed (GenerationRow × List String) :=
  let given := valueStr serde (row.get? "name")
  let name := if given = "" then engineId else given
  match Entries.get? name names with
  | some previous => rowErr index "name" (nameTakenMessage name previous)
  | none =>
      let wasPrimary := valueBool (row.get? "primary") false
        || valueBool (row.get? RETIRED_FROM_PRIMARY) false
      -- Saved with `primary: false`: remember whose the bare files are.
      let raw := if isEnabledPrimary row then row.insert RETIRED_FROM_PRIMARY (.bool true) else row
      .ok (
        retiredRow rowId name engineId why raw,
        [
          "ocr.generations[" ++ toString index ++ "] '" ++ name ++ "': " ++ why
            ++ ". The row is kept but no longer runs"
            ++ (if wasPrimary then
              "; its existing <Volume>.mokuro files stay and are still served" else "")
            ++ "."
        ]
      )

def parseActive (serde : Serde) (index : ℕ) (row : Object) (rowId : String) (spec : EngineSpec)
    (names : List (String × ℕ))
    : Parsed (GenerationRow × List String) := do
  let (detector, warnings) ← parseDetector serde index row spec
  let name ← parseName serde index row spec.id detector names
  if (row.get? "char_map").isSome then
    rowErr index "char_map"
      "char_map was removed with the character-map system (no per-character placement mode produced output worth using; readers lay characters on a uniform grid) -- delete the key"
  else
    let patchBudget ← parsePatchBudget serde index row
    let precision ← parsePrecision serde index row spec
    let (precisionPick, precisionWhy) := parsePick serde row
    let (pools, moreWarnings) ← parsePools serde index (row.get? "pools") spec
    .ok (
      {
        id := rowId
        name
        engine := spec.id
        primary := valueBool (row.get? "primary") false
        enabled := valueBool (row.get? "enabled") true
        detector
        patchBudget
        precision
        retired := none
        pools
        precisionPick
        precisionWhy
        raw := none
      },
      warnings ++ moreWarnings
    )

def knownEngines : String := ", ".intercalate (ENGINES.map EngineSpec.id)

/-- One row, and what there is to warn about. -/
def parseRow (serde : Serde) (index : ℕ) (row : Object) (rowId : String) (names : List (String × ℕ))
    : Parsed (GenerationRow × List String) :=
  let engineId := valueStr serde (row.get? "engine")
  if engineId = "" then
    rowErr index "engine" ("engine is required (one of " ++ knownEngines ++ ")")
  else
    match removedEngine engineId with
    | some why => parseRetired serde index row rowId engineId why names
    | none =>
        match engine engineId with
        | none =>
            rowErr index "engine" ("Unknown OCR engine '" ++ engineId ++ "' (known: " ++ knownEngines ++ ")")
        | some spec => parseActive serde index row rowId spec names

/-- The rows from the one at the index on, with the ids that they got. -/
def parseRows (serde : Serde)
    : ℕ → List (String × ℕ) → List (Object × String) → Parsed (List GenerationRow × List String)
  | _, _, [] => .ok ([], [])
  | index, names, (row, rowId) :: rest => do
      let (spec, warnings) ← parseRow serde index row rowId names
      let (specs, moreWarnings) ← parseRows serde (index + 1) (names ++ [(spec.name, index)]) rest
      .ok (spec :: specs, warnings ++ moreWarnings)

-- The primary row

/-- When a removed engine was the primary, another row takes its place: the first that runs the default
engine, or a new one.
-/
def ensureRunnablePrimary (rows : List GenerationRow) : Parsed (List GenerationRow × List String) :=
  if rows.any (fun row => row.runnable && row.primary) then .ok (rows, [])
  else if ¬ rows.any (fun row => row.retired.isSome && row.raw.any isEnabledPrimary) then .ok (rows, [])
  else
    match mintGenerationId (rows.map (fun row => row.id)),
        seedGenerationName DEFAULT_ENGINE none (rows.map (fun row => row.name)) with
    | some (id, _), some name =>
        let isHeir := fun row : GenerationRow => row.runnable && row.engine = DEFAULT_ENGINE
        match rows.find? isHeir with
        | some heir =>
            .ok (
              rows.takeWhile (fun row => !isHeir row)
                ++ { heir with primary := true } :: (rows.dropWhile (fun row => !isHeir row)).tail,
              [
                "ocr.generations: the primary row was retired; '" ++ heir.name
                  ++ "' is now the primary generation (new volumes get <Volume>.mokuro from it)"
              ]
            )
        | none =>
            .ok (
              { defaultGeneration id with name } :: rows,
              [
                "ocr.generations: the primary row was retired; added '" ++ name ++ "' ("
                  ++ DEFAULT_ENGINE ++ " + " ++ DEFAULT_DETECTOR
                  ++ " detector) as the primary generation"
              ]
            )
    | _, _ => .error .stuck

def validatePrimary (rows : List GenerationRow) : Parsed Unit :=
  let enabled := rows.filter (fun row => row.runnable)
  if enabled.isEmpty then .ok ()
  else
    match enabled.filter (fun row => row.primary) with
    | [] =>
        listErr (some "primary")
          "ocr.generations: no enabled generation is the primary one — exactly one must be, because it writes the bare <Volume>.mokuro every reader counts characters and inherits volume ids from"
    | [_] => .ok ()
    | first :: second :: others =>
        let names := (first :: second :: others).map (fun row => "'" ++ row.name ++ "'")
        .error (.refused
          ⟨
            "ocr.generations: " ++ ", ".intercalate names
              ++ " are all marked primary — exactly one enabled generation may write the bare <Volume>.mokuro",
            rows.findIdx? (fun row => row.id = second.id),
            some "primary"
          ⟩)

/-- The rows, and notes about those that were migrated. -/
structure ParsedGenerations where
  rows : List GenerationRow
  warnings : List String

/-- Whether a save would change the list on disk. Every migration has its warning. -/
def ParsedGenerations.migrated (parsed : ParsedGenerations) : Bool := !parsed.warnings.isEmpty

def parseGenerationList (serde : Serde) (value : Json) : Parsed ParsedGenerations := do
  let raw ← coerceRows serde value
  if raw.isEmpty then .ok ⟨[defaultGeneration "g-1"], []⟩
  else
    let maps ← rowMaps 0 raw
    let ids ← assignIds serde maps
    let (rows, warnings) ← parseRows serde 0 [] (maps.zip ids)
    let (rows, moreWarnings) ← ensureRunnablePrimary rows
    validatePrimary rows
    .ok ⟨rows, warnings ++ moreWarnings⟩

/-- The rows as they are saved. -/
def savedRows (rows : List GenerationRow) : Json := .arr (rows.map GenerationRow.toValue)

end MokuroBunko.Config
