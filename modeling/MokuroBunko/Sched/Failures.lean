import MokuroBunko.Data.Json
import Mathlib.Data.Finset.Order
import Mathlib.Tactic.Positivity

/-! Failure records and the retries they allow. A recording replaces the record under its
key and then stamps it with the library's release and the failing machine's.
-/

namespace MokuroBunko.Sched

open MokuroBunko.Lib MokuroBunko.Data

-- Records

/-- The longest a failed volume waits before its next try. -/
def MAX_RETRY_DELAY_SECONDS : ℚ := 3600

/-- Record field: the library's release when the record was last written. -/
def LIBRARY_VERSION : String := "library_version"

/-- Record field: the releases of the machines that failed it. -/
def TRIED_BY : String := "tried_by"

/-- `failure_key`: the primary row keeps the bare path, every other is suffixed by name. -/
def failureKey (rel : String) (primary : Bool) (rowName : String) : String :=
  if primary then rel else rel ++ "@" ++ rowName

/-- `retry_delay_seconds`: `min(poll × 4^min(max(0, n−1), 16), 3600)`. -/
def retryDelaySeconds (pollInterval : ℚ) (attempts : ℤ) : ℚ :=
  let exponent := max 0 (min 16 (attempts - 1))
  min (pollInterval * 4 ^ exponent.toNat) MAX_RETRY_DELAY_SECONDS

/-- `last_attempt_at`. -/
def lastAttemptAt (record : Object) : PyFloat :=
  match Object.get? record "last_attempt_at" with
  | none => .finite 0
  | some value => (pyFloat (some value)).getD (.finite 0)

/-- `attempts`: the recorded count, or `default`. -/
def attempts (record : Object) (default : ℤ) : ℤ :=
  match Object.get? record "attempts" with
  | none => default
  | some value => (pyInt (some value)).getD default

/-- `replaced_since_failure`: the archive is more than a second newer than the attempt. -/
def replacedSinceFailure (archiveMtime : Option ℚ) (record : Object) : Bool :=
  ((lastAttemptAt record).add 1).lt (archiveMtime.getD 0)

-- Kinds of failures

/-- What a record's error means. -/
inductive FailureKind where
  /-- The archive holds no page the OCR could decode. -/
  | noReadablePages
  /-- The archive could not be opened as a zip. -/
  | damagedArchive
  /-- A machine's trouble. -/
  | machine
  /-- Anything else. -/
  | other
deriving DecidableEq

namespace FailureKind

/-- `FailureKind::of`: the kind of an error, from the messages the OCR reports. -/
def of (error : String) : FailureKind :=
  let e := Text.trim error
  if Text.startsWith e "no page images found" || e == "every page failed" then
    .noReadablePages
  else if Text.startsWith e "archive " || Text.contains e "not a zip file" then
    .damagedArchive
  else
    let lower := Text.asciiLower e
    if ["out of memory", "timed out", "timeout", "connection", "disconnect", "download"].any
        (Text.contains lower) then
      .machine
    else
      .other

/-- `FailureKind::parks`: a failure of the volume itself, not retried by time. -/
def parks (kind : FailureKind) : Bool :=
  match kind with
  | .noReadablePages | .damagedArchive => true
  | .machine | .other => false

theorem ne_machine_of_parks {kind : FailureKind} (parking : kind.parks = true)
    : kind ≠ .machine := by
  rintro rfl
  simp [parks] at parking

end FailureKind

/-- `retry_delay_for`: past six attempts an unrecognized error backs off further. -/
def retryDelayFor (kind : FailureKind) (pollInterval : ℚ) (attempts : ℤ) : ℚ :=
  let base := retryDelaySeconds pollInterval attempts
  if kind = .machine ∨ attempts ≤ 6 then base
  else if attempts = 7 then 6 * 3600
  else if attempts = 8 then 24 * 3600
  else 7 * 86400

/-- `error_kind`. -/
def errorKind (record : Object) : FailureKind :=
  .of (((Object.get? record "error").bind Json.asStr?).getD "")

-- Retries by release

/-- `tried_by`: the releases a record names. -/
def triedBy (record : Object) : List String :=
  (((Object.get? record TRIED_BY).bind Json.asArray?).map
    (fun items => items.filterMap Json.asStr?)).getD []

/-- `stamp_versions`: write the library's release and add the machine's, once. -/
def stampVersions (record : Object) (libraryVersion machineVersion : String) : Object :=
  let stamped := Object.insert record LIBRARY_VERSION (.str libraryVersion)
  let tried := triedBy stamped
  let tried := if machineVersion ∈ tried then tried else tried ++ [machineVersion]
  Object.insert stamped TRIED_BY (.arr (tried.map .str))

/-- `machine_may_retry`: whether a machine of the given release may try a volume again. -/
def machineMayRetry (record : Option Object) (machineVersion : String) (now pollInterval : ℚ)
    (libraryVersion : String) : Bool :=
  match record with
  | none => true
  | some record =>
      let kind := errorKind record
      let delay := retryDelayFor kind pollInterval (attempts record 1)
      let timed := ((lastAttemptAt record).add delay).le now
      if kind = .machine then timed
      else
        let libraryChanged :=
          (Object.get? record LIBRARY_VERSION).bind Json.asStr? ≠ some libraryVersion
        let untried := machineVersion ∉ triedBy record
        libraryChanged || untried || (!kind.parks && timed)

theorem triedBy_stampVersions (record : Object) (library machine : String)
    : triedBy (stampVersions record library machine)
      = if machine ∈ triedBy record then triedBy record
        else triedBy record ++ [machine] := by
  have texts : ∀ releases : List String,
      (releases.map Json.str).filterMap Json.asStr? = releases := by
    intro releases
    rw [List.filterMap_map]
    exact List.filterMap_some
  have unstamped : triedBy (Object.insert record LIBRARY_VERSION (.str library))
      = triedBy record := by
    simp [triedBy, TRIED_BY, LIBRARY_VERSION]
  simp only [stampVersions, unstamped]
  rw [triedBy]
  simp only [Object.get?_insert, if_true, Option.bind_some, Json.asArray?_arr, Option.map_some,
    Option.getD_some, texts]

theorem library_stampVersions (record : Object) (library machine : String)
    : Object.get? (stampVersions record library machine) LIBRARY_VERSION
      = some (.str library) := by
  simp [stampVersions, LIBRARY_VERSION, TRIED_BY]

theorem errorKind_stampVersions (record : Object) (library machine : String)
    : errorKind (stampVersions record library machine) = errorKind record := by
  simp [errorKind, stampVersions, LIBRARY_VERSION, TRIED_BY]

theorem machineMayRetry_of_parks {record : Object} {library : String}
    (parking : (errorKind record).parks = true)
    (unchanged : Object.get? record LIBRARY_VERSION = some (.str library))
    (machine : String) (now pollInterval : ℚ)
    : machineMayRetry (some record) machine now pollInterval library
      = decide (machine ∉ triedBy record) := by
  simp [machineMayRetry, FailureKind.ne_machine_of_parks parking, parking, unchanged]

-- Recording

/-- `FailureRecord`: what a record says. -/
structure FailureRecord where
  series : String
  volume : String
  generation : String
  engine : String
  detector : Option String
  error : String
  attempts : ℤ
  lastAttemptAt : ℚ
  logFile : Option String

/-- `FailureRecord::to_object`. -/
def FailureRecord.toObject (record : FailureRecord) : Object := [
  ("series", .str record.series),
  ("volume", .str record.volume),
  ("generation", .str record.generation),
  ("engine", .str record.engine),
  ("detector", optStrValue record.detector),
  ("error", .str record.error),
  ("attempts", .num (.int record.attempts)),
  ("last_attempt_at", .num (.float record.lastAttemptAt)),
  ("log_file", optStrValue record.logFile)
]

/-- `NewFailure`: the parts of a new failure the caller knows. -/
structure NewFailure where
  series : String
  volume : String
  generation : String
  engine : String
  detector : Option String
  error : Option String
  logFile : Option String

/-- The error a record of this failure carries. -/
def NewFailure.errorText (failure : NewFailure) : String := failure.error.getD "unknown error"

/-- `record_failure`: replace the record under `key`, one attempt more than before. -/
def recordFailure (failures : Object) (key : String) (failure : NewFailure) (now : ℚ)
    : Object × FailureRecord :=
  let previous :=
    (((Object.get? failures key).bind Json.asObject?).map (fun p => attempts p 0)).getD 0
  let record : FailureRecord := {
    series := failure.series
    volume := failure.volume
    generation := failure.generation
    engine := failure.engine
    detector := failure.detector
    error := failure.errorText
    attempts := previous + 1
    lastAttemptAt := now
    logFile := failure.logFile
  }
  (Object.insert failures key (.obj record.toObject), record)

/-- The record filed under `key`. -/
def recordOf (failures : Object) (key : String) : Option Object :=
  (Object.get? failures key).bind Json.asObject?

/-- The two steps of a recording: write the record, then stamp the one stored. -/
def recordStamped (failures : Object) (key : String) (failure : NewFailure) (now : ℚ)
    (libraryVersion machineRelease : String) : Object :=
  let written := (recordFailure failures key failure now).1
  match recordOf written key with
  | some stored =>
      Object.insert written key (.obj (stampVersions stored libraryVersion machineRelease))
  | none => written

theorem recordOf_recordStamped (failures : Object) (key : String) (failure : NewFailure)
    (now : ℚ) (library machine : String)
    : recordOf (recordStamped failures key failure now library machine) key
      = some (stampVersions (recordFailure failures key failure now).2.toObject
          library machine) := by
  simp [recordOf, recordStamped, recordFailure]

theorem triedBy_toObject (record : FailureRecord) : triedBy record.toObject = [] := by
  simp [triedBy, FailureRecord.toObject, TRIED_BY]

theorem errorKind_toObject (record : FailureRecord)
    : errorKind record.toObject = .of record.error := by
  simp [errorKind, FailureRecord.toObject]

theorem machineMayRetry_recordStamped {failure : NewFailure}
    (parking : (FailureKind.of failure.errorText).parks = true)
    (failures : Object) (key : String) (now : ℚ) (library recorded : String)
    (asking : String) (later pollInterval : ℚ)
    : machineMayRetry (recordOf (recordStamped failures key failure now library recorded) key)
        asking later pollInterval library
      = decide (asking ≠ recorded) := by
  rw [recordOf_recordStamped, machineMayRetry_of_parks]
  · simp [triedBy_stampVersions, triedBy_toObject]
  · rw [errorKind_stampVersions, errorKind_toObject]
    exact parking
  · exact library_stampVersions _ library recorded

-- Runs of recordings

/-- One failure as a machine of some release brings it. -/
structure Recording where
  failure : NewFailure
  now : ℚ
  release : String

/-- A recording of a failure of the volume itself. -/
def Recording.Parks (recording : Recording) : Prop :=
  (FailureKind.of recording.failure.errorText).parks = true

/-- The table after recordings of one volume, all under one library release. -/
def recordAll (failures : Object) (key library : String) (recordings : List Recording)
    : Object :=
  recordings.foldl
    (fun failures recording =>
      recordStamped failures key recording.failure recording.now library recording.release)
    failures

theorem machineMayRetry_recordAll (failures : Object) (key library : String)
    (earlier : List Recording) {last : Recording} (parking : last.Parks)
    (asking : String) (later pollInterval : ℚ)
    : machineMayRetry (recordOf (recordAll failures key library (earlier ++ [last])) key)
        asking later pollInterval library
      = decide (asking ≠ last.release) := by
  rw [recordAll, List.foldl_append]
  exact machineMayRetry_recordStamped parking _ key last.now library last.release asking later
    pollInterval

/-- After parking failures every failing release is refused from then on exactly when all
of them are one release. Witness: the last recording refuses its own release only.
-/
theorem failed_releases_refused_iff_one_release (failures : Object) (key library : String)
    (recordings : List Recording) (parking : ∀ recording ∈ recordings, recording.Parks)
    : (∀ recording ∈ recordings, ∀ later pollInterval : ℚ,
          (∀ other ∈ recordings, other.now ≤ later) →
          machineMayRetry (recordOf (recordAll failures key library recordings) key)
            recording.release later pollInterval library = false)
      ↔ ∀ recording ∈ recordings, ∀ other ∈ recordings,
          recording.release = other.release := by
  rcases List.eq_nil_or_concat recordings with rfl | ⟨earlier, last, rfl⟩
  · simp
  rw [List.concat_eq_append] at *
  have lastMember : last ∈ earlier ++ [last] := by simp
  have mayRetry := machineMayRetry_recordAll failures key library earlier
    (parking last lastMember)
  constructor
  · intro refused
    have likeLast : ∀ recording ∈ earlier ++ [last], recording.release = last.release := by
      intro recording member
      obtain ⟨later, latest⟩ :=
        Finset.exists_le ((earlier ++ [last]).map Recording.now).toFinset
      have no := refused recording member later 1 (by
        intro other otherMember
        exact latest _ (List.mem_toFinset.mpr (List.mem_map_of_mem otherMember)))
      simpa [mayRetry] using no
    intro recording member other otherMember
    rw [likeLast recording member, likeLast other otherMember]
  · intro alike recording member later pollInterval _
    simp [mayRetry, alike recording member last lastMember]

def alternation : List Recording :=
  let failure : NewFailure := {
    series := "S"
    volume := "V"
    generation := "g"
    engine := "e"
    detector := none
    error := some "every page failed"
    logFile := none
  }
  [⟨failure, 1000, "0.7.6"⟩, ⟨failure, 2000, "0.7.8"⟩]

theorem alternation_parks : ∀ recording ∈ alternation, recording.Parks := by
  unfold Recording.Parks
  decide

/-- The alternation gives the volume back to the release that failed it first. -/
theorem alternation_retried
    : ¬ ∀ recording ∈ alternation, ∀ later pollInterval : ℚ,
        (∀ other ∈ alternation, other.now ≤ later) →
        machineMayRetry (recordOf (recordAll [] "S/V.cbz" "0.7.7" alternation) "S/V.cbz")
          recording.release later pollInterval "0.7.7" = false := by
  intro refused
  have first := refused _ (List.mem_cons_self) 3000 30 (by
    intro other member
    simp only [alternation, List.mem_cons, List.not_mem_nil, or_false] at member
    rcases member with rfl | rfl <;> norm_num)
  revert first
  decide +kernel

/-- A machine that fails the volume twice, alone, is refused from then on. -/
theorem one_release_refused
    : (∀ recording ∈ alternation.take 1, recording.Parks)
      ∧ ∀ recording ∈ alternation.take 1, ∀ later pollInterval : ℚ,
          (∀ other ∈ alternation.take 1, other.now ≤ later) →
          machineMayRetry
            (recordOf (recordAll [] "S/V.cbz" "0.7.7" (alternation.take 1)) "S/V.cbz")
            recording.release later pollInterval "0.7.7" = false := by
  have parking : ∀ recording ∈ alternation.take 1, recording.Parks :=
    fun recording member => alternation_parks recording (List.mem_of_mem_take member)
  refine ⟨parking, ?_⟩
  refine (failed_releases_refused_iff_one_release [] "S/V.cbz" "0.7.7" _ parking).mpr ?_
  decide

end MokuroBunko.Sched
