import MokuroBunko.Sched.Failures
import Mathlib.Data.Int.ConditionallyCompleteOrder
import Mathlib.Tactic.NormNum

/-! Which failed volumes the queue offers again, and which records it keeps; and what the passing of
time and the count of attempts do to a failure's retries: the wait only grows with the attempts, a
retry once allowed stays allowed, and a parked record waits for another release.
-/

namespace MokuroBunko.Sched

open MokuroBunko.Lib MokuroBunko.Data

/-- `Eligibility`. -/
inductive Eligibility where
  | fresh
  /-- The archive was replaced since the failure. -/
  | replaced
  | retry
  | backedOff
  | parked
deriving DecidableEq

/-- `Fleet`: the releases a failed volume could be retried by. -/
structure Fleet where
  libraryVersion : String
  machineVersions : List String

/-- `eligibility_in`: a record is retried when some connected machine may retry it. -/
def eligibilityIn (record : Option Object) (archiveMtime : Option ℚ) (now pollInterval : ℚ)
    (fleet : Fleet) : Eligibility :=
  match record with
  | none => .fresh
  | some record =>
      if replacedSinceFailure archiveMtime record then .replaced
      else
        let versions :=
          if fleet.machineVersions = [] then [fleet.libraryVersion] else fleet.machineVersions
        if versions.any (fun version =>
            machineMayRetry (some record) version now pollInterval fleet.libraryVersion) then
          .retry
        else if (errorKind record).parks then .parked
        else .backedOff

/-- `keep_record`: the record's row is configured and its archive is still there. -/
def keepRecord (record : Object) (rowNames : List String)
    (archiveExists : String → String → Bool) : Bool :=
  let configured :=
    match Object.get? record "generation" with
    | some (.str name) => name = "" || name ∈ rowNames
    | _ => true
  configured &&
    match Object.get? record "series", Object.get? record "volume" with
    | some (.str series), some (.str volume) => volume = "" || archiveExists series volume
    | _, _ => true

-- The wait

theorem retryDelaySeconds_le (pollInterval : ℚ) (attempts : ℤ)
    : retryDelaySeconds pollInterval attempts ≤ MAX_RETRY_DELAY_SECONDS :=
  min_le_right _ _

theorem retryDelaySeconds_mono {pollInterval : ℚ} (nonneg : 0 ≤ pollInterval)
    : Monotone (retryDelaySeconds pollInterval) := by
  intro fewer more le
  unfold retryDelaySeconds
  dsimp only
  have exponents : (max 0 (min 16 (fewer - 1))).toNat ≤ (max 0 (min 16 (more - 1))).toNat := by
    omega
  gcongr
  norm_num

theorem retryDelayFor_mono (kind : FailureKind) {pollInterval : ℚ}
    (nonneg : 0 ≤ pollInterval)
    : Monotone (retryDelayFor kind pollInterval) := by
  intro fewer more le
  have capped := retryDelaySeconds_le pollInterval fewer
  have base := retryDelaySeconds_mono nonneg le
  unfold MAX_RETRY_DELAY_SECONDS at capped
  unfold retryDelayFor
  dsimp only
  by_cases machine : kind = .machine
  · simpa [machine] using base
  · simp only [machine, false_or]
    rcases le_or_gt more 6 with early | late
    · rw [if_pos early, if_pos (le.trans early)]
      exact base
    · rw [if_neg (not_le.mpr late)]
      split_ifs <;> first | omega | linarith

-- Retries over time

theorem PyFloat.le_mono {float : PyFloat} {now later : ℚ} (passed : now ≤ later)
    (reached : float.le now = true)
    : float.le later = true := by
  cases float with
  | finite value =>
      have before : value ≤ now := by simpa [PyFloat.le] using reached
      simpa [PyFloat.le] using before.trans passed
  | infinite negative => exact reached
  | nan => exact reached

theorem machineMayRetry_mono {record : Option Object} {machineVersion libraryVersion : String}
    {now later pollInterval : ℚ} (passed : now ≤ later)
    (allowed : machineMayRetry record machineVersion now pollInterval libraryVersion = true)
    : machineMayRetry record machineVersion later pollInterval libraryVersion = true := by
  cases record with
  | none => rfl
  | some record =>
      unfold machineMayRetry at allowed ⊢
      dsimp only at allowed ⊢
      split at allowed
      case isTrue machine =>
        rw [if_pos machine]
        exact PyFloat.le_mono passed allowed
      case isFalse other =>
        rw [if_neg other]
        simp only [Bool.or_eq_true, Bool.and_eq_true] at allowed ⊢
        rcases allowed with released | ⟨returning, timed⟩
        · exact .inl released
        · exact .inr ⟨returning, PyFloat.le_mono passed timed⟩

/-- The record was written under this library release, and the machine's has tried it. -/
def Unchanged (record : Object) (libraryVersion machineVersion : String) : Prop :=
  (Object.get? record LIBRARY_VERSION).bind Json.asStr? = some libraryVersion
    ∧ machineVersion ∈ triedBy record

theorem machineMayRetry_unchanged {record : Object} {libraryVersion machineVersion : String}
    (parking : (errorKind record).parks = true)
    (unchanged : Unchanged record libraryVersion machineVersion) (now pollInterval : ℚ)
    : machineMayRetry (some record) machineVersion now pollInterval libraryVersion = false := by
  simp [machineMayRetry, FailureKind.ne_machine_of_parks parking, parking, unchanged.1,
    unchanged.2]

/-- The releases a record is judged by: those connected, or the library's alone. -/
def Fleet.judging (fleet : Fleet) : List String :=
  if fleet.machineVersions = [] then [fleet.libraryVersion] else fleet.machineVersions

theorem eligibilityIn_some (record : Object) (archiveMtime : Option ℚ) (now pollInterval : ℚ)
    (fleet : Fleet)
    : eligibilityIn (some record) archiveMtime now pollInterval fleet
      = if replacedSinceFailure archiveMtime record then .replaced
        else if fleet.judging.any (fun version =>
          machineMayRetry (some record) version now pollInterval fleet.libraryVersion)
        then .retry
        else if (errorKind record).parks then .parked
        else .backedOff :=
  rfl

/-- The eligibilities under which the volume is offered again. -/
def Eligibility.Allows (eligibility : Eligibility) : Prop :=
  eligibility = .fresh ∨ eligibility = .replaced ∨ eligibility = .retry

theorem eligibilityIn_mono {record : Option Object} {archiveMtime : Option ℚ}
    {now later pollInterval : ℚ} {fleet : Fleet} (passed : now ≤ later)
    (allowed : (eligibilityIn record archiveMtime now pollInterval fleet).Allows)
    : eligibilityIn record archiveMtime later pollInterval fleet
      = eligibilityIn record archiveMtime now pollInterval fleet := by
  cases record with
  | none => rfl
  | some record =>
      rw [eligibilityIn_some] at allowed ⊢
      rw [eligibilityIn_some]
      by_cases replaced : replacedSinceFailure archiveMtime record = true
      · rw [if_pos replaced, if_pos replaced]
      · rw [if_neg replaced] at allowed
        rw [if_neg replaced, if_neg replaced]
        split at allowed
        case isTrue someMay =>
          obtain ⟨version, listed, may⟩ := List.any_eq_true.mp someMay
          rw [if_pos someMay, if_pos]
          exact List.any_eq_true.mpr ⟨version, listed, machineMayRetry_mono passed may⟩
        case isFalse =>
          split at allowed <;> rcases allowed with offered | offered | offered <;> cases offered

theorem eligibilityIn_unchanged {record : Object} {archiveMtime : Option ℚ} {fleet : Fleet}
    (parking : (errorKind record).parks = true)
    (kept : replacedSinceFailure archiveMtime record = false)
    (unchanged : ∀ version ∈ fleet.judging, Unchanged record fleet.libraryVersion version)
    (now pollInterval : ℚ)
    : eligibilityIn (some record) archiveMtime now pollInterval fleet = .parked := by
  rw [eligibilityIn_some, if_neg (by simp [kept]), if_neg, if_pos parking]
  intro someMay
  obtain ⟨version, listed, may⟩ := List.any_eq_true.mp someMay
  rw [machineMayRetry_unchanged parking (unchanged version listed)] at may
  cases may

/-- The wait never shrinks with the attempts; a retry allowed once is allowed at every later
time, by the machine and for the fleet; and a parked record of unchanged releases is refused
at every time. -/
theorem retries_monotone
    : (∀ kind (pollInterval : ℚ), 0 ≤ pollInterval →
          Monotone (retryDelayFor kind pollInterval))
      ∧ (∀ record machineVersion libraryVersion (now later pollInterval : ℚ), now ≤ later →
          machineMayRetry record machineVersion now pollInterval libraryVersion = true →
          machineMayRetry record machineVersion later pollInterval libraryVersion = true)
      ∧ (∀ record archiveMtime fleet (now later pollInterval : ℚ), now ≤ later →
          (eligibilityIn record archiveMtime now pollInterval fleet).Allows →
          eligibilityIn record archiveMtime later pollInterval fleet
            = eligibilityIn record archiveMtime now pollInterval fleet)
      ∧ (∀ record libraryVersion machineVersion (now pollInterval : ℚ),
          (errorKind record).parks = true →
          Unchanged record libraryVersion machineVersion →
          machineMayRetry (some record) machineVersion now pollInterval libraryVersion = false)
      ∧ (∀ record archiveMtime fleet (now pollInterval : ℚ),
          (errorKind record).parks = true →
          replacedSinceFailure archiveMtime record = false →
          (∀ version ∈ fleet.judging, Unchanged record fleet.libraryVersion version) →
          eligibilityIn (some record) archiveMtime now pollInterval fleet = .parked) := by
  refine ⟨?_, ?_, ?_, ?_, ?_⟩
  · exact fun kind pollInterval nonneg => retryDelayFor_mono kind nonneg
  · exact fun record machine library now later poll passed => machineMayRetry_mono passed
  · exact fun record mtime fleet now later poll passed => eligibilityIn_mono passed
  · exact fun record library machine now poll parking unchanged =>
      machineMayRetry_unchanged parking unchanged now poll
  · exact fun record mtime fleet now poll parking kept unchanged =>
      eligibilityIn_unchanged parking kept unchanged now poll

end MokuroBunko.Sched
