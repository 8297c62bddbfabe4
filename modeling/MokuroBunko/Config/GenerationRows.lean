import MokuroBunko.Config.ParseGenerations
import Mathlib.Tactic.FinCases

/-! A row that is read can be saved and read again: what trimming and the reading of numbers do to its
texts, then the fields of a row, one after another.
-/

namespace MokuroBunko.Config

open MokuroBunko.Data MokuroBunko.Lib

-- White space

/-- A text without white space at its ends is left as it is. -/
def Trimmed (text : String) : Prop := Text.trim text = text

instance (text : String) : Decidable (Trimmed text) := inferInstanceAs (Decidable (_ = _))

theorem trimmed_trim (text : String) : Trimmed (Text.trim text) := by
  have trimmedList (chars : List Char)
      : ((chars.dropWhile Text.isWhitespace).rdropWhile Text.isWhitespace).dropWhile Text.isWhitespace
        = (chars.dropWhile Text.isWhitespace).rdropWhile Text.isWhitespace := by
    set front := chars.dropWhile Text.isWhitespace with isFront
    have isPrefix : front.rdropWhile Text.isWhitespace <+: front := List.rdropWhile_prefix _ _
    cases isCons : front.rdropWhile Text.isWhitespace with
    | nil => rfl
    | cons head tail =>
      rw [isCons] at isPrefix
      obtain ⟨rest, whole⟩ := isPrefix
      have notSpace : ¬ Text.isWhitespace head := by
        intro space
        have same : front.dropWhile Text.isWhitespace = front := by
          rw [isFront, List.dropWhile_idempotent]
        rw [← whole, List.cons_append, List.dropWhile_cons_of_pos space] at same
        have lengths := congrArg List.length same
        have shorter := (List.dropWhile_suffix Text.isWhitespace (l := tail ++ rest)).length_le
        rw [List.length_cons] at lengths
        omega
      exact List.dropWhile_cons_of_neg notSpace
  have whole := trimmedList text.toList
  unfold Trimmed Text.trim
  simp only [String.toList_ofList]
  change String.ofList (List.rdropWhile _ (List.dropWhile _ (List.rdropWhile _ _))) = _
  rw [whole]
  change String.ofList (List.rdropWhile _ (List.rdropWhile _ _)) = _
  rw [List.rdropWhile_idempotent]
  rfl

theorem trimmed_of_plain {text : String} (plain : ∀ char ∈ text.toList, Text.isWhitespace char = false)
    : Trimmed text :=
  Text.trim_eq_self plain

-- Characters

theorem isNameChar_range {char : Char} (isName : isNameChar char)
    : 33 ≤ char.toNat ∧ char.toNat ≤ 126 := by
  simp only [isNameChar, isLower, Text.isDigit, Bool.or_eq_true, Bool.and_eq_true, decide_eq_true_eq]
    at isName
  obtain (lower | digit) | rfl := isName
  · omega
  · omega
  · decide

theorem isIdChar_range {char : Char}
    (isId : isAlphanumeric char || char = '_' || char = '-')
    : 33 ≤ char.toNat ∧ char.toNat ≤ 126 := by
  simp only [isAlphanumeric, isLower, Text.isDigit, Bool.or_eq_true, Bool.and_eq_true,
    decide_eq_true_eq] at isId
  obtain (((lower | upper) | digit) | rfl) | rfl := isId
  · omega
  · omega
  · omega
  · decide
  · decide

theorem nameRejection_eq_none {name : String} (accepted : nameRejection name = none)
    : name ≠ "" ∧ ∀ char ∈ name.toList, isNameChar char := by
  unfold nameRejection at accepted
  split at accepted
  · cases accepted
  rename_i filled
  split at accepted
  · cases accepted
  rename_i plain
  push Not at plain
  exact ⟨filled, List.all_eq_true.mp plain.2.2⟩

theorem trimmed_name {name : String} (accepted : nameRejection name = none) : Trimmed name := by
  refine trimmed_of_plain ?_
  intro char isIn
  obtain ⟨low, high⟩ := isNameChar_range ((nameRejection_eq_none accepted).2 char isIn)
  exact Text.isWhitespace_of_range low high

theorem validId_facts {id : String} (valid : isValidId id) : id ≠ "" ∧ Trimmed id := by
  simp only [isValidId, Bool.and_eq_true, decide_eq_true_eq] at valid
  obtain ⟨⟨first, _⟩, plain⟩ := valid
  constructor
  · rintro rfl
    simp at first
  · refine trimmed_of_plain ?_
    intro char isIn
    obtain ⟨low, high⟩ := isIdChar_range (List.all_eq_true.mp plain char isIn)
    exact Text.isWhitespace_of_range low high

-- Numbers

theorem toList_toString (value : ℕ) : (toString value).toList = Nat.toDigits 10 value := by
  rw [Nat.toString_eq_repr, Nat.repr_eq_ofList_toDigits, String.toList_ofList]

theorem digitsValue_toDigits (value : ℕ) : digitsValue (Nat.toDigits 10 value) = value := by
  have same : digitsValue (Nat.toDigits 10 value) = Nat.ofDigitChars 10 (Nat.toDigits 10 value) 0 := by
    rw [Nat.ofDigitChars_eq_foldl]
    unfold digitsValue
    congr 1
    funext total digit
    rw [Nat.mul_comm]
    rfl
  rw [same, Nat.ofDigitChars_ten_toDigits]

theorem parseUnsigned_toDigits {limit value : ℕ} (small : value < limit)
    : parseUnsigned limit (Nat.toDigits 10 value) = some value := by
  have areAll : areDigits (Nat.toDigits 10 value) := by
    simp only [areDigits, Bool.and_eq_true, Bool.not_eq_true', List.isEmpty_eq_false_iff]
    exact ⟨Nat.toDigits_ne_nil, List.all_eq_true.mpr fun char isIn => Text.isDigit_of_toDigits isIn⟩
  have notSigned : withoutPlus (Nat.toDigits 10 value) = Nat.toDigits 10 value := by
    unfold withoutPlus
    split
    · rename_i rest isPlus
      have isDigit : Text.isDigit '+' := Text.isDigit_of_toDigits (by rw [isPlus]; simp)
      exact absurd isDigit (by decide)
    · rfl
  unfold parseUnsigned
  rw [notSigned]
  simp only [areAll, digitsValue_toDigits, small, and_self, if_true]

theorem bind_eq_ok {α β : Type} {first : Parsed α} {next : α → Parsed β} {result : β}
    : first >>= next = .ok result ↔ ∃ value, first = .ok value ∧ next value = .ok result := by
  cases first with
  | error failure =>
      constructor
      · intro isOk
        cases isOk
      · rintro ⟨value, isOk, _⟩
        cases isOk
  | ok value =>
      constructor
      · intro isOk
        exact ⟨value, rfl, isOk⟩
      · rintro ⟨_, isValue, isOk⟩
        cases isValue
        exact isOk

theorem rowErr_ne_ok {α : Type} {index : ℕ} {field message : String} {value : α}
    : rowErr index field message ≠ .ok value := by
  intro isOk
  cases isOk

-- What a row that is read has

structure GoodWidths (stages : List String) (floor limit : ℕ) (widths : List (String × ℕ)) : Prop where
  sorted : SortedMap.Sorted widths
  each : ∀ entry ∈ widths, entry.1 ∈ stages ∧ floor ≤ entry.2 ∧ entry.2 ≤ limit

structure GoodDevices (spec : EngineSpec) (devices : List (String × String)) : Prop where
  sorted : SortedMap.Sorted devices
  each
    : ∀ entry ∈ devices, entry.1 ∈ deviceStageKeys spec ∧ parseDevice entry.2 = .ok entry.2
        ∧ ¬ ((entry.1 = "detect" ∨ cpuOnlyReason spec ≠ "") ∧ entry.2 ≠ "auto" ∧ entry.2 ≠ "cpu")

structure GoodPools (spec : EngineSpec) (pools : Pools) : Prop where
  workers : GoodWidths (stageKeys spec) 0 MAX_STAGE_WORKERS pools.stageWorkers
  capacity : GoodWidths (stageKeys spec) 1 MAX_QUEUE_CAPACITY pools.queueCapacity
  devices : GoodDevices spec pools.stageDevice

/-- A row of an engine that there is. -/
structure ActiveRow (spec : EngineSpec) (row : GenerationRow) : Prop where
  retired : row.retired = none
  raw : row.raw = none
  engine : engine row.engine = some spec
  detector
    : if spec.detector.isSome then row.detector = none
      else ∃ detector ∈ DETECTORS, row.detector = some detector
  id : isValidId row.id
  name : nameRejection row.name = none
  patchBudget : row.patchBudget ∈ PATCH_BUDGETS
  precision : row.precision ∈ PRECISION_MODES
  noPrecision : spec.precision = false → row.precision = DEFAULT_PRECISION_MODE
  pick
    : row.precisionPick = none ∧ row.precisionWhy = ""
      ∨ (∃ pick ∈ PRECISIONS, row.precisionPick = some pick) ∧ Trimmed row.precisionWhy
  pools : GoodPools spec row.pools

/-- A row of a removed engine. If it was read as the primary, it is marked. -/
structure RetiredRow (serde : Serde) (row : GenerationRow) (why : String) (raw : Object) : Prop where
  same : row = retiredRow row.id row.name row.engine why raw
  engine : removedEngine row.engine = some why
  rawEngine : valueStr serde (raw.get? "engine") = row.engine
  marked : isEnabledPrimary raw → valueBool (raw.get? RETIRED_FROM_PRIMARY) false
  id : isValidId row.id
  named : row.name ≠ ""
  name : Trimmed row.name

def GoodRow (serde : Serde) (row : GenerationRow) : Prop :=
  (∃ spec, ActiveRow spec row) ∨ ∃ why raw, RetiredRow serde row why raw

-- Pools

section Pools

variable {serde : Serde} {index : ℕ} {spec : EngineSpec}

theorem stageKeys_trimmed {key : String} (isKey : key ∈ stageKeys spec) : Trimmed key := by
  have all : ∀ key ∈ ["detect", "layout", "engine", "post"], Trimmed key := by decide
  refine all key ?_
  unfold stageKeys at isKey
  split at isKey
  · simp only [List.mem_cons, List.not_mem_nil, or_false] at isKey ⊢
    obtain isDetect | isLayout := isKey
    · exact .inl isDetect
    · exact .inr (.inl isLayout)
  · simp only [List.mem_cons, List.not_mem_nil, or_false] at isKey ⊢
    obtain isDetect | isEngine | isPost := isKey
    · exact .inl isDetect
    · exact .inr (.inr (.inl isEngine))
    · exact .inr (.inr (.inr isPost))

theorem deviceStageKeys_subset : deviceStageKeys spec ⊆ stageKeys spec := by
  unfold deviceStageKeys stageKeys
  split
  · decide
  · decide

theorem parseWidths_good {poolKey : String} {limit floor : ℕ} {stages : List String}
    {values : Object} {widths result : List (String × ℕ)} {warnings : List String}
    (good : GoodWidths stages floor limit widths)
    (parsed : parseWidths serde index poolKey limit floor stages values widths = .ok (result, warnings))
    : GoodWidths stages floor limit result := by
  induction values generalizing widths warnings with
  | nil =>
      cases parsed
      exact good
  | cons value values ih =>
      obtain ⟨stage, number⟩ := value
      simp only [parseWidths] at parsed
      split at parsed
      · obtain ⟨⟨rest, more⟩, restParsed, same⟩ := bind_eq_ok.mp parsed
        cases same
        exact ih good restParsed
      rename_i isStage
      obtain ⟨width, _, rest⟩ := bind_eq_ok.mp parsed
      split at rest
      · exact absurd rest rowErr_ne_ok
      rename_i inRange
      refine ih ⟨good.sorted.insert _ _, ?_⟩ rest
      intro entry isEntry
      obtain isNew | isOld := SortedMap.mem_insert isEntry
      · rw [isNew]
        refine ⟨not_not.mp isStage, ?_, ?_⟩ <;> dsimp only <;> omega
      · exact good.each entry isOld

theorem goodWidths_nil (stages : List String) (floor limit : ℕ) : GoodWidths stages floor limit [] :=
  ⟨.nil, nofun⟩

theorem parsePool_good {poolKey : String} {limit floor : ℕ} {stages : List String} {raw : Object}
    {result : List (String × ℕ)} {warnings : List String}
    (parsed : parsePool serde index poolKey limit floor stages raw = .ok (result, warnings))
    : GoodWidths stages floor limit result := by
  unfold parsePool at parsed
  split at parsed
  · cases parsed
    exact goodWidths_nil stages floor limit
  · cases parsed
    exact goodWidths_nil stages floor limit
  · exact parseWidths_good (goodWidths_nil stages floor limit) parsed
  · exact absurd parsed rowErr_ne_ok

theorem parseDevice_again {value device : String} (parsed : parseDevice value = .ok device)
    : parseDevice device = .ok device ∧ Trimmed device := by
  unfold parseDevice at parsed
  dsimp only at parsed
  split at parsed
  · rename_i isAuto
    cases parsed
    refine ⟨?_, trimmed_trim value⟩
    unfold parseDevice
    dsimp only
    rw [trimmed_trim value, if_pos isAuto]
  split at parsed
  · cases parsed
    exact ⟨by decide, by decide⟩
  split at parsed
  · rename_i number isNumber
    cases parsed
    obtain ⟨digits, _, isParsed⟩ := Option.bind_eq_some_iff.mp isNumber
    have small : number < 2 ^ 32 := by
      unfold parseUnsigned at isParsed
      dsimp only at isParsed
      split at isParsed
      · rename_i facts
        cases isParsed
        exact facts.2
      · cases isParsed
    have chars : ("gpu:" ++ toString number).toList = ['g', 'p', 'u', ':'] ++ Nat.toDigits 10 number := by
      rw [String.toList_append, toList_toString]
      rfl
    have trimmed : Trimmed ("gpu:" ++ toString number) := by
      refine trimmed_of_plain ?_
      intro char isIn
      rw [chars] at isIn
      obtain isFront | isDigit := List.mem_append.mp isIn
      · fin_cases isFront <;> decide
      · have digit := Text.isDigit_of_toDigits isDigit
        simp only [Text.isDigit, Bool.and_eq_true, decide_eq_true_eq] at digit
        exact Text.isWhitespace_of_range (by omega) (by omega)
    refine ⟨?_, trimmed⟩
    have different (other : String) (short : ':' ∉ other.toList) : "gpu:" ++ toString number ≠ other := by
      rintro rfl
      rw [chars] at short
      exact short (by simp)
    have stripped : Text.stripPrefix ("gpu:" ++ toString number) "gpu:"
        = some (String.ofList (Nat.toDigits 10 number)) := by
      unfold Text.stripPrefix
      rw [chars]
      simp [List.isPrefixOf?]
    unfold parseDevice
    dsimp only
    rw [trimmed, if_neg (not_or.mpr ⟨different _ (by decide), different _ (by decide)⟩),
      if_neg (not_or.mpr ⟨different _ (by decide), different _ (by decide)⟩), stripped]
    simp only [Option.some_or, Option.bind_some, String.toList_ofList, parseUnsigned_toDigits small]
  · cases parsed

theorem parseDevices_good {values : Object} {devices result : List (String × String)}
    {warnings : List String} (good : GoodDevices spec devices)
    (parsed : parseDevices serde index spec values devices = .ok (result, warnings))
    : GoodDevices spec result := by
  induction values generalizing devices warnings with
  | nil =>
      cases parsed
      exact good
  | cons value values ih =>
      obtain ⟨stage, value⟩ := value
      rw [parseDevices] at parsed
      dsimp only at parsed
      split at parsed
      · obtain ⟨⟨rest, more⟩, restParsed, same⟩ := bind_eq_ok.mp parsed
        cases same
        exact ih good restParsed
      rename_i isStage
      split at parsed
      · exact ih good parsed
      split at parsed
      · exact absurd parsed rowErr_ne_ok
      rename_i device isDevice
      split at parsed
      · exact absurd parsed rowErr_ne_ok
      rename_i allowed
      refine ih ⟨good.sorted.insert _ _, ?_⟩ parsed
      intro entry isEntry
      obtain isNew | isOld := SortedMap.mem_insert isEntry
      · rw [isNew]
        exact ⟨not_not.mp isStage, (parseDevice_again isDevice).1, allowed⟩
      · exact good.each entry isOld

theorem parsePools_good {raw : Option Json} {pools : Pools} {warnings : List String}
    (parsed : parsePools serde index raw spec = .ok (pools, warnings))
    : GoodPools spec pools := by
  have noDevices : GoodDevices spec [] := ⟨.nil, nofun⟩
  have none : GoodPools spec .default :=
    ⟨goodWidths_nil _ _ _, goodWidths_nil _ _ _, noDevices⟩
  unfold parsePools at parsed
  split at parsed
  · cases parsed
    exact none
  · cases parsed
    exact none
  · split at parsed
    · exact absurd parsed rowErr_ne_ok
    obtain ⟨⟨workers, first⟩, workersParsed, parsed⟩ := bind_eq_ok.mp parsed
    obtain ⟨⟨capacity, second⟩, capacityParsed, parsed⟩ := bind_eq_ok.mp parsed
    obtain ⟨⟨devices, third⟩, devicesParsed, parsed⟩ := bind_eq_ok.mp parsed
    cases parsed
    refine ⟨parsePool_good workersParsed, parsePool_good capacityParsed, ?_⟩
    unfold parseStageDevice at devicesParsed
    split at devicesParsed
    · cases devicesParsed
      exact noDevices
    · cases devicesParsed
      exact noDevices
    · exact parseDevices_good noDevices devicesParsed
    · exact absurd devicesParsed rowErr_ne_ok
  · exact absurd parsed rowErr_ne_ok

theorem parseWidths_saved (serde : Serde) (index : ℕ) (poolKey : String) {limit floor : ℕ}
    {stages : List String} (trimmed : ∀ stage ∈ stages, Trimmed stage) (small : limit < 2 ^ 32)
    {entries : List (String × ℕ)} (widths : List (String × ℕ))
    (good : ∀ entry ∈ entries, entry.1 ∈ stages ∧ floor ≤ entry.2 ∧ entry.2 ≤ limit)
    : parseWidths serde index poolKey limit floor stages
        (entries.map (fun (key, width) => (key, numberJson width))) widths
      = .ok (entries.foldl (fun map entry => SortedMap.insert entry.1 entry.2 map) widths, []) := by
  induction entries generalizing widths with
  | nil => rfl
  | cons entry entries ih =>
      obtain ⟨key, width⟩ := entry
      obtain ⟨isStage, low, high⟩ := good (key, width) List.mem_cons_self
      have isKey : Text.trim key = key := trimmed key isStage
      have asWidth : min i64Max (width : ℤ) = width := by
        unfold i64Max
        dsimp only at high
        omega
      have inRange : ¬ ((width : ℤ) < floor ∨ (limit : ℤ) < width) := by
        dsimp only at low high
        omega
      simp only [List.map_cons, parseWidths, isKey, isStage, not_true_eq_false, if_false, numberJson,
        parseWidth, asWidth, List.foldl_cons]
      refine bind_eq_ok.mpr ⟨width, rfl, ?_⟩
      rw [if_neg inRange, Int.toNat_natCast]
      exact ih _ fun entry isEntry => good entry (List.mem_cons_of_mem _ isEntry)

theorem parseDevices_saved (serde : Serde) (index : ℕ) {entries : List (String × String)}
    (devices : List (String × String))
    (good : ∀ entry ∈ entries, entry.1 ∈ deviceStageKeys spec ∧ parseDevice entry.2 = .ok entry.2
      ∧ ¬ ((entry.1 = "detect" ∨ cpuOnlyReason spec ≠ "") ∧ entry.2 ≠ "auto" ∧ entry.2 ≠ "cpu"))
    : parseDevices serde index spec (entries.map (fun (key, device) => (key, .str device))) devices
      = .ok (entries.foldl (fun map entry => SortedMap.insert entry.1 entry.2 map) devices, []) := by
  induction entries generalizing devices with
  | nil => rfl
  | cons entry entries ih =>
      obtain ⟨key, device⟩ := entry
      obtain ⟨isStage, isDevice, allowed⟩ := good (key, device) List.mem_cons_self
      have isKey : Text.trim key = key := stageKeys_trimmed (deviceStageKeys_subset isStage)
      have isText : Text.trim device = device := (parseDevice_again isDevice).2
      dsimp only at isStage isDevice allowed
      simp only [List.map_cons, parseDevices, isKey, isStage, not_true_eq_false, if_false, reduceCtorEq,
        valueStr, isText, isDevice, allowed, List.foldl_cons]
      exact ih _ fun entry isEntry => good entry (List.mem_cons_of_mem _ isEntry)

theorem parsePools_saved {pools : Pools} (good : GoodPools spec pools)
    : parsePools serde index (some pools.toValue) spec = .ok (pools, []) := by
  have trimmed : ∀ stage ∈ stageKeys spec, Trimmed stage := fun _ => stageKeys_trimmed
  have workers := parseWidths_saved serde index "stage_workers" trimmed (by decide) [] good.workers.each
  have capacity := parseWidths_saved serde index "queue_capacity" trimmed (by decide) [] good.capacity.each
  have devices := parseDevices_saved serde index [] good.devices.each
  rw [SortedMap.foldl_insert_nil good.workers.sorted] at workers
  rw [SortedMap.foldl_insert_nil good.capacity.sorted] at capacity
  rw [SortedMap.foldl_insert_nil good.devices.sorted] at devices
  unfold parsePools Pools.toValue
  have known : ∀ values : Json × Json × Json,
      (([("stage_workers", values.1), ("queue_capacity", values.2.1), ("stage_device", values.2.2)]
        : Object).map Prod.fst).find? (· ∉ POOL_KEYS) = none := by
    intro values
    simp only [List.map_cons, List.map_nil]
    decide
  dsimp only
  rw [known (_, _, _)]
  refine bind_eq_ok.mpr ⟨(pools.stageWorkers, []), workers, ?_⟩
  refine bind_eq_ok.mpr ⟨(pools.queueCapacity, []), capacity, ?_⟩
  exact bind_eq_ok.mpr ⟨(pools.stageDevice, []), devices, rfl⟩

end Pools

-- The other fields

section Fields

variable {serde : Serde} {index : ℕ} {spec : EngineSpec} {row : GenerationRow}

theorem activeFields_get?
    : row.activeFields.get? "id" = some (.str row.id)
      ∧ row.activeFields.get? "name" = some (.str row.name)
      ∧ row.activeFields.get? "primary" = some (.bool row.primary)
      ∧ row.activeFields.get? "enabled" = some (.bool row.enabled)
      ∧ row.activeFields.get? "engine" = some (.str row.engine)
      ∧ row.activeFields.get? "detector" = row.detector.map .str
      ∧ row.activeFields.get? "char_map" = none
      ∧ row.activeFields.get? "patch_budget" = some (numberJson row.patchBudget)
      ∧ row.activeFields.get? "precision"
        = (if row.precision ≠ DEFAULT_PRECISION_MODE then some (.str row.precision) else none)
      ∧ row.activeFields.get? "pools" = some row.pools.toValue
      ∧ row.activeFields.get? "precision_pick" = row.precisionPick.map .str
      ∧ row.activeFields.get? "precision_why"
        = row.precisionPick.map (fun _ => .str row.precisionWhy) := by
  unfold GenerationRow.activeFields
  cases row.detector <;> cases row.precisionPick <;>
    by_cases isDefault : row.precision = DEFAULT_PRECISION_MODE <;>
    simp [isDefault]

theorem parseDetector_good {fields : Object} {detector : Option String} {warnings : List String}
    (parsed : parseDetector serde index fields spec = .ok (detector, warnings))
    : if spec.detector.isSome then detector = none
      else ∃ known ∈ DETECTORS, detector = some known := by
  unfold parseDetector at parsed
  split at parsed
  · rename_i own
    rw [if_pos own]
    cases parsed
    rfl
  · rename_i noOwn
    rw [if_neg noOwn]
    dsimp only at parsed
    generalize (if valueStr serde (fields.get? "detector") = "" then DEFAULT_DETECTOR
      else valueStr serde (fields.get? "detector")) = wanted at parsed
    split at parsed
    · dsimp only at parsed
      split at parsed
      · rename_i isKnown
        cases parsed
        exact ⟨_, isKnown, rfl⟩
      · exact absurd parsed rowErr_ne_ok
    · dsimp only at parsed
      split at parsed
      · rename_i isKnown
        cases parsed
        exact ⟨_, isKnown, rfl⟩
      · exact absurd parsed rowErr_ne_ok

theorem parseDetector_saved
    (good : if spec.detector.isSome then row.detector = none
      else ∃ detector ∈ DETECTORS, row.detector = some detector)
    : parseDetector serde index row.activeFields spec = .ok (row.detector, []) := by
  obtain ⟨-, -, -, -, -, saved, -⟩ := @activeFields_get? row
  unfold parseDetector
  split at good
  · rename_i own
    rw [if_pos own, good]
  · rename_i noOwn
    obtain ⟨detector, isKnown, same⟩ := good
    have isDetector : detector = "ppocr-manga" := List.mem_singleton.mp isKnown
    rw [if_neg noOwn, saved, same, isDetector]
    have trimmed : valueStr serde ((some "ppocr-manga").map .str) = "ppocr-manga" := by
      change Text.trim "ppocr-manga" = "ppocr-manga"
      decide
    dsimp only
    rw [trimmed]
    rfl

theorem parseName_good {fields : Object} {engineId name : String} {detector : Option String}
    {names : List (String × ℕ)}
    (parsed : parseName serde index fields engineId detector names = .ok name)
    : nameRejection name = none ∧ Entries.get? name names = none := by
  unfold parseName at parsed
  obtain ⟨given, _, parsed⟩ := bind_eq_ok.mp parsed
  split at parsed
  · exact absurd parsed rowErr_ne_ok
  · exact absurd parsed rowErr_ne_ok
  · rename_i accepted free
    cases parsed
    exact ⟨accepted, free⟩

theorem parseName_saved {engineId : String} {detector : Option String} {names : List (String × ℕ)}
    (accepted : nameRejection row.name = none) (free : Entries.get? row.name names = none)
    : parseName serde index row.activeFields engineId detector names = .ok row.name := by
  obtain ⟨-, saved, -⟩ := @activeFields_get? row
  have trimmed : Text.trim row.name = row.name := trimmed_name accepted
  refine bind_eq_ok.mpr ⟨row.name, ?_, ?_⟩
  · simp only [chooseName, saved, valueStr, trimmed, (nameRejection_eq_none accepted).1, if_false]
  rw [accepted, free]

theorem parsePatchBudget_good {fields : Object} {budget : ℕ}
    (parsed : parsePatchBudget serde index fields = .ok budget)
    : budget ∈ PATCH_BUDGETS := by
  unfold parsePatchBudget at parsed
  split at parsed
  · cases parsed
    decide
  · cases parsed
    decide
  · dsimp only at parsed
    split at parsed
    · exact absurd parsed rowErr_ne_ok
    split at parsed
    · rename_i isKnown
      cases parsed
      exact isKnown
    · exact absurd parsed rowErr_ne_ok

theorem parsePatchBudget_saved (shown : ∀ value : ℕ, serde.display (numberJson value) = toString value)
    (good : row.patchBudget ∈ PATCH_BUDGETS)
    : parsePatchBudget serde index row.activeFields = .ok row.patchBudget := by
  obtain ⟨-, -, -, -, -, -, -, saved, -⟩ := @activeFields_get? row
  have text : valueStr serde (some (numberJson row.patchBudget)) = toString row.patchBudget := by
    have trimmed : ∀ budget ∈ PATCH_BUDGETS,
        Text.trim (Text.trimMatches '"' (toString budget)) = toString budget := by
      decide
    rw [← trimmed row.patchBudget good, ← shown]
    rfl
  have small : row.patchBudget < 2 ^ 32 := by
    have all : ∀ budget ∈ PATCH_BUDGETS, budget < 2 ^ 32 := by decide
    exact all row.patchBudget good
  unfold parsePatchBudget
  rw [saved]
  simp only [numberJson] at text ⊢
  rw [text, toList_toString, parseUnsigned_toDigits small]
  dsimp only
  rw [if_pos good]

theorem normalizePrecisionMode_good {value : Option String} {mode : String}
    (normalized : normalizePrecisionMode value = .ok mode)
    : mode ∈ PRECISION_MODES := by
  unfold normalizePrecisionMode at normalized
  dsimp only at normalized
  split at normalized
  · cases normalized
    decide
  split at normalized
  · rename_i isKnown
    cases normalized
    exact isKnown
  · cases normalized

theorem parsePrecision_good {fields : Object} {precision : String}
    (parsed : parsePrecision serde index fields spec = .ok precision)
    : precision ∈ PRECISION_MODES
      ∧ (spec.precision = false → precision = DEFAULT_PRECISION_MODE) := by
  unfold parsePrecision at parsed
  dsimp only at parsed
  split at parsed
  · exact absurd parsed rowErr_ne_ok
  · rename_i mode normalized
    cases parsed
    constructor
    · split
      · exact normalizePrecisionMode_good normalized
      · decide
    · intro without
      rw [without]
      rfl

theorem parsePrecision_saved (good : row.precision ∈ PRECISION_MODES)
    (noPrecision : spec.precision = false → row.precision = DEFAULT_PRECISION_MODE)
    : parsePrecision serde index row.activeFields spec = .ok row.precision := by
  obtain ⟨-, -, -, -, -, -, -, -, saved, pools, -⟩ := @activeFields_get? row
  have legacy : ((some row.pools.toValue).bind Json.asObject?).bind (Object.get? · "precision") = none := by
    simp [Pools.toValue]
  unfold parsePrecision
  rw [saved, pools, legacy]
  by_cases isDefault : row.precision = DEFAULT_PRECISION_MODE
  · simp only [isDefault, ne_eq, not_true_eq_false, if_false, valueStr, if_true, Option.map_none,
      Option.filter_none]
    have normalized : normalizePrecisionMode none = .ok DEFAULT_PRECISION_MODE := by decide
    rw [normalized]
    dsimp only
    rw [ite_self]
  · have hasPrecision : spec.precision = true := by
      by_contra without
      exact isDefault (noPrecision (eq_false_of_ne_true without))
    have known : ∀ mode ∈ PRECISION_MODES,
        Text.trim mode = mode ∧ mode ≠ "" ∧ normalizePrecisionMode (some mode) = .ok mode := by
      decide
    obtain ⟨trimmed, filled, normalized⟩ := known row.precision good
    simp only [ne_eq, isDefault, not_false_eq_true, if_true, valueStr, trimmed, filled, if_false,
      normalized, hasPrecision]

theorem valueStr_trimmed (value : Option Json) : Trimmed (valueStr serde value) := by
  unfold valueStr
  split
  · decide
  · decide
  · exact trimmed_trim _
  · exact trimmed_trim _

theorem parsePick_good (fields : Object)
    : (parsePick serde fields).1 = none ∧ (parsePick serde fields).2 = ""
      ∨ (∃ pick ∈ PRECISIONS, (parsePick serde fields).1 = some pick)
        ∧ Trimmed (parsePick serde fields).2 := by
  unfold parsePick
  dsimp only
  split
  · rename_i isKnown
    exact .inr ⟨⟨_, isKnown, rfl⟩, valueStr_trimmed _⟩
  · exact .inl ⟨rfl, rfl⟩

theorem parsePick_saved
    (good : row.precisionPick = none ∧ row.precisionWhy = ""
      ∨ (∃ pick ∈ PRECISIONS, row.precisionPick = some pick) ∧ Trimmed row.precisionWhy)
    : parsePick serde row.activeFields = (row.precisionPick, row.precisionWhy) := by
  obtain ⟨-, -, -, -, -, -, -, -, -, -, saved, why⟩ := @activeFields_get? row
  unfold parsePick
  rw [saved, why]
  obtain ⟨none, empty⟩ | ⟨⟨pick, isKnown, some⟩, trimmed⟩ := good
  · rw [none, empty]
    rfl
  · have known : ∀ pick ∈ PRECISIONS, Text.trim pick = pick := by decide
    have trimmedWhy : Text.trim row.precisionWhy = row.precisionWhy := trimmed
    simp only [some, Option.map_some, valueStr, known pick isKnown, isKnown, if_true, trimmedWhy]

end Fields

-- Rows

section Rows

variable {serde : Serde} {index : ℕ} {row : GenerationRow}

/-- What one reading gives and what another gives of what is saved of it. A retired row keeps what was
read, where it then is not primary.
-/
structure SameRow (row again : GenerationRow) : Prop where
  fields : { again with raw := none } = { row with raw := none }
  wasPrimary : again.wasPrimary = row.wasPrimary
  filesSuffix : again.filesSuffix = row.filesSuffix

theorem engine_eq_some {id : String} {spec : EngineSpec} (isEngine : engine id = some spec)
    : spec.id = id ∧ spec ∈ ENGINES := by
  unfold engine at isEngine
  have found := List.find?_some isEngine
  exact ⟨of_decide_eq_true found, List.mem_of_find?_eq_some isEngine⟩

theorem parseRow_good {fields : Object} {rowId : String} {names : List (String × ℕ)}
    {warnings : List String} (valid : isValidId rowId)
    (parsed : parseRow serde index fields rowId names = .ok (row, warnings))
    : GoodRow serde row ∧ row.id = rowId ∧ Entries.get? row.name names = none := by
  unfold parseRow at parsed
  dsimp only at parsed
  split at parsed
  · exact absurd parsed rowErr_ne_ok
  rename_i named
  split at parsed
  · rename_i why removed
    unfold parseRetired at parsed
    dsimp only at parsed
    split at parsed
    · exact absurd parsed rowErr_ne_ok
    rename_i free
    cases parsed
    refine ⟨.inr ⟨why, _, rfl, removed, ?_, ?_, valid, ?_, ?_⟩, rfl, free⟩
    · dsimp only [retiredRow]
      split
      · rw [Object.get?_insert, if_neg (by decide)]
      · rfl
    · split
      · intro _
        rw [Object.get?_insert, if_pos rfl]
        rfl
      · rename_i notPrimary
        intro isPrimary
        exact absurd isPrimary notPrimary
    · dsimp only [retiredRow]
      split
      · exact named
      · assumption
    · dsimp only [retiredRow]
      split <;> exact valueStr_trimmed _
  split at parsed
  · exact absurd parsed rowErr_ne_ok
  rename_i spec isEngine
  unfold parseActive at parsed
  obtain ⟨⟨detector, warned⟩, detectorParsed, parsed⟩ := bind_eq_ok.mp parsed
  obtain ⟨name, nameParsed, parsed⟩ := bind_eq_ok.mp parsed
  split at parsed
  · exact absurd parsed rowErr_ne_ok
  obtain ⟨budget, budgetParsed, parsed⟩ := bind_eq_ok.mp parsed
  obtain ⟨precision, precisionParsed, parsed⟩ := bind_eq_ok.mp parsed
  obtain ⟨⟨pools, more⟩, poolsParsed, parsed⟩ := bind_eq_ok.mp parsed
  cases parsed
  have sameId := (engine_eq_some isEngine).1
  obtain ⟨accepted, free⟩ := parseName_good nameParsed
  obtain ⟨known, without⟩ := parsePrecision_good precisionParsed
  refine ⟨.inl ⟨spec, ?_⟩, rfl, free⟩
  constructor
  case retired => rfl
  case raw => rfl
  case engine =>
    rw [sameId]
    exact isEngine
  case detector => exact parseDetector_good detectorParsed
  case id => exact valid
  case name => exact accepted
  case patchBudget => exact parsePatchBudget_good budgetParsed
  case precision => exact known
  case noPrecision => exact without
  case pick => exact parsePick_good fields
  case pools => exact parsePools_good poolsParsed

theorem insert_of_get? {fields : Object} {key : String} {value : Json}
    (found : fields.get? key = some value)
    : fields.insert key value = fields := by
  unfold Object.get? at found
  unfold Object.insert
  induction fields with
  | nil => cases found
  | cons field fields ih =>
      rw [Entries.get?_cons] at found
      rw [Entries.insert]
      split at found
      · rename_i same
        rw [if_pos same, ← Option.some.inj found]
      · rename_i different
        rw [if_neg different, ih found]

theorem parseActive_saved {spec : EngineSpec} {names : List (String × ℕ)}
    (shown : ∀ value : ℕ, serde.display (numberJson value) = toString value)
    (good : ActiveRow spec row) (free : Entries.get? row.name names = none)
    : parseRow serde index row.fields row.id names = .ok (row, []) := by
  have isActive : row.fields = row.activeFields := by
    unfold GenerationRow.fields
    rw [good.retired]
  obtain ⟨-, -, primary, enabled, engineField, -, charMap, -, -, pools, -⟩ := @activeFields_get? row
  have isEngine := good.engine
  have known : ∀ spec ∈ ENGINES, Text.trim spec.id = spec.id ∧ spec.id ≠ "" ∧ removedEngine spec.id = none := by
    decide
  obtain ⟨sameId, isKnown⟩ := engine_eq_some isEngine
  obtain ⟨trimmed, filled, notRemoved⟩ := known spec isKnown
  rw [sameId] at trimmed filled notRemoved
  rw [isActive]
  unfold parseRow
  simp only [engineField, valueStr, trimmed, filled, if_false, notRemoved, isEngine]
  unfold parseActive
  refine bind_eq_ok.mpr ⟨_, parseDetector_saved good.detector, ?_⟩
  refine bind_eq_ok.mpr ⟨_, parseName_saved good.name free, ?_⟩
  rw [charMap, if_neg (by decide)]
  refine bind_eq_ok.mpr ⟨_, parsePatchBudget_saved shown good.patchBudget, ?_⟩
  refine bind_eq_ok.mpr ⟨_, parsePrecision_saved good.precision good.noPrecision, ?_⟩
  rw [parsePick_saved good.pick, pools]
  refine bind_eq_ok.mpr ⟨_, parsePools_saved good.pools, ?_⟩
  rw [primary, enabled, sameId]
  obtain ⟨retired, raw⟩ := And.intro good.retired good.raw
  obtain ⟨⟨id, name, engineId, isPrimary, isEnabled, detector, budget, precision, why⟩, rowPools, pick,
    pickWhy, rowRaw⟩ := row
  cases retired
  cases raw
  rfl

theorem retiredFields_get? {why : String} {raw : Object} (retired : row.retired = some why)
    (isRaw : row.raw = some raw) (asked : String)
    : row.fields.get? asked
      = if asked = "enabled" then some (.bool false)
        else if asked = "primary" then some (.bool false)
        else if asked = "name" then some (.str row.name)
        else if asked = "id" then some (.str row.id)
        else raw.get? asked := by
  unfold GenerationRow.fields
  rw [retired, isRaw]
  simp only [Object.get?_insert]

theorem retiredFields_notPrimary {why : String} {raw : Object} (retired : row.retired = some why)
    (isRaw : row.raw = some raw)
    : isEnabledPrimary row.fields = false := by
  unfold isEnabledPrimary
  rw [retiredFields_get? retired isRaw]
  rfl

theorem parseRetired_saved {names : List (String × ℕ)} {why : String} {raw : Object}
    (good : RetiredRow serde row why raw) (free : Entries.get? row.name names = none)
    : ∃ warnings, parseRow serde index row.fields row.id names
      = .ok (retiredRow row.id row.name row.engine why row.fields, warnings) := by
  have retired : row.retired = some why := by
    rw [good.same]
    rfl
  have isRaw : row.raw = some raw := by
    rw [good.same]
    rfl
  have saved := retiredFields_get? retired isRaw
  have engineField : valueStr serde (row.fields.get? "engine") = row.engine := by
    rw [saved]
    exact good.rawEngine
  have nameField : valueStr serde (row.fields.get? "name") = row.name := by
    rw [saved]
    exact good.name
  have notPrimary := retiredFields_notPrimary retired isRaw
  have filled : row.engine ≠ "" := by
    intro empty
    have removed := good.engine
    rw [empty] at removed
    cases removed
  unfold parseRow
  simp only [engineField, filled, if_false, good.engine, parseRetired, nameField, good.named, free,
    notPrimary, Bool.false_eq_true]
  exact ⟨_, rfl⟩

theorem parseRow_saved (index : ℕ) {names : List (String × ℕ)}
    (shown : ∀ value : ℕ, serde.display (numberJson value) = toString value)
    (good : GoodRow serde row) (free : Entries.get? row.name names = none)
    : ∃ again warnings, parseRow serde index row.fields row.id names = .ok (again, warnings)
      ∧ SameRow row again ∧ again.fields = row.fields ∧ again.raw.any isEnabledPrimary = false := by
  obtain ⟨spec, good⟩ | ⟨why, raw, good⟩ := good
  · refine ⟨row, [], parseActive_saved shown good free, ⟨rfl, rfl, rfl⟩, rfl, ?_⟩
    rw [good.raw]
    rfl
  obtain ⟨warnings, parsed⟩ := parseRetired_saved good free
  have retired : row.retired = some why := by
    rw [good.same]
    rfl
  have isRaw : row.raw = some raw := by
    rw [good.same]
    rfl
  have saved := retiredFields_get? retired isRaw
  have notPrimary := retiredFields_notPrimary retired isRaw
  have sameFields : { retiredRow row.id row.name row.engine why row.fields with raw := none }
      = { row with raw := none } :=
    congrArg (fun row : GenerationRow => { row with raw := none }) good.same.symm
  have wasPrimary : (retiredRow row.id row.name row.engine why row.fields).wasPrimary = row.wasPrimary := by
    simp only [GenerationRow.wasPrimary, retiredRow, retired, isRaw, Option.isSome_some, Option.any_some,
      Bool.true_and, notPrimary, Bool.or_false, saved RETIRED_FROM_PRIMARY]
    rw [if_neg (by decide), if_neg (by decide), if_neg (by decide), if_neg (by decide)]
    by_cases isPrimary : isEnabledPrimary raw
    · rw [good.marked isPrimary, Bool.true_or]
    · rw [eq_false_of_ne_true isPrimary, Bool.or_false]
  refine ⟨_, warnings, parsed, ⟨sameFields, wasPrimary, ?_⟩, ?_, ?_⟩
  · unfold GenerationRow.filesSuffix
    rw [wasPrimary]
    have sameSuffix := congrArg (fun row : GenerationRow => row.sidecarSuffix) good.same
    split
    · rfl
    · exact sameSuffix.symm
  · change (((row.fields.insert "id" (.str row.id)).insert "name" (.str row.name)).insert "primary"
      (.bool false)).insert "enabled" (.bool false) = row.fields
    rw [insert_of_get? (saved "id"), insert_of_get? (saved "name"), insert_of_get? (saved "primary"),
      insert_of_get? (saved "enabled")]
  · exact notPrimary

end Rows

end MokuroBunko.Config
