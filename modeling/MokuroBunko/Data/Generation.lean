import Mathlib.Data.String.Basic

/-! The rows of the OCR configuration and the engines they name.
-/

namespace MokuroBunko.Data

/-- `EngineSpec`: what the rules read of an engine. -/
structure EngineSpec where
  id : String
  /-- The detector the engine brings itself. -/
  detector : Option String
  patchBudget : Bool
  precision : Bool
deriving DecidableEq

def ENGINES : List EngineSpec := [
  ⟨"hayai-nova", none, true, true⟩,
  ⟨"paddle-manga", none, false, true⟩,
  ⟨"ppocr-manga", some "ppocr-manga", false, false⟩
]

def DEFAULT_DETECTOR : String := "ppocr-manga"

/-- `Generation`: one row of the configuration. -/
structure Generation where
  id : String
  name : String
  engine : String
  primary : Bool
  enabled : Bool
  detector : Option String
  patchBudget : ℕ
  precision : String
  /-- Why the row no longer runs. -/
  retired : Option String
deriving DecidableEq

namespace Generation

/-- `engine_spec`. -/
def engineSpec (row : Generation) : Option EngineSpec := ENGINES.find? (fun e => e.id = row.engine)

/-- `runnable`: enabled and not retired. -/
def runnable (row : Generation) : Bool := row.enabled && row.retired.isNone

/-- `effective_detector`: the engine's own, else the row's, else the default. -/
def effectiveDetector (row : Generation) : String :=
  match row.engineSpec.bind EngineSpec.detector with
  | some own => own
  | none => row.detector.getD DEFAULT_DETECTOR

/-- `patch_budget_applies`. -/
def patchBudgetApplies (row : Generation) : Bool := row.engineSpec.any EngineSpec.patchBudget

/-- `precision_applies`. -/
def precisionApplies (row : Generation) : Bool := row.engineSpec.any EngineSpec.precision

/-- `output_affecting`: what must not change under a running job. -/
def outputAffecting (row : Generation) : String × String × Option ℕ :=
  (row.engine, row.effectiveDetector,
    if row.patchBudgetApplies then some row.patchBudget else none)

/-- `sidecar_suffix`. -/
def sidecarSuffix (row : Generation) : String :=
  if row.primary then ".mokuro" else "." ++ row.name ++ ".mokuro"

end Generation

/-- `enabled_generations`. -/
def enabledGenerations (rows : List Generation) : List Generation :=
  rows.filter Generation.runnable

/-- `primary_generation`. -/
def primaryGeneration (rows : List Generation) : Option Generation :=
  (enabledGenerations rows).find? Generation.primary

end MokuroBunko.Data
