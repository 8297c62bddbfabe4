import MokuroBunko.Lib.Text
import Mathlib.Data.Int.Order.Basic

/-! The pause of one instance, as it is held in memory and kept in `.pause.json`. A time is the
nanoseconds since the start of 1970 in UTC.
-/

namespace MokuroBunko.Control

open MokuroBunko.Lib

/-- The whole second that the time lies in. -/
def truncSubsecs (time : ℤ) : ℤ := time - time % 1000000000

/-- The time texts of `chrono`: RFC 3339 with any offset, and back in UTC with whole seconds. -/
structure Chrono where
  parseFromRfc3339 : String → Option ℤ
  toRfc3339 : ℤ → String

def Chrono.parseTime (chrono : Chrono) (text : String) : Option ℤ :=
  chrono.parseFromRfc3339 (Text.trim text)

/-- The years 0 to 9999, for which RFC 3339 has four digits. -/
def InFourDigits (time : ℤ) : Prop :=
  -62167219200000000000 ≤ time ∧ time < 253402300800000000000

instance (time : ℤ) : Decidable (InFourDigits time) := inferInstanceAs (Decidable (_ ∧ _))

/-- A whole second that a text of four year digits can name. -/
structure Writable (time : ℤ) : Prop where
  whole : truncSubsecs time = time
  year : InFourDigits time

/-- A writable time is read back from its text. -/
def Chrono.Faithful (chrono : Chrono) : Prop :=
  ∀ time, Writable time → chrono.parseTime (chrono.toRfc3339 time) = some time

inductive PauseMode where
  | afterVolume
  | now
  deriving DecidableEq

def PauseMode.asStr : PauseMode → String
  | .afterVolume => "after_volume"
  | .now => "now"

def PauseMode.ofStr : String → Option PauseMode
  | "after_volume" => some .afterVolume
  | "now" => some .now
  | _ => none

/-- A pause; `deadline` is its `until`. -/
structure PauseState where
  mode : PauseMode
  deadline : Option ℤ
  reason : String
  since : ℤ
  deriving DecidableEq

def PauseState.expired (state : PauseState) (now : ℤ) : Bool :=
  state.deadline.any (· ≤ now)

/-- The members of `.pause.json`. -/
structure PauseFile where
  mode : String
  deadline : Option String
  reason : String
  since : String

inductive PauseError where
  | badUntil (text : String)
  | untilPassed
  | badReason

/-- A pause call whose arguments are in order, with the whole second it began in. -/
structure PauseRequest where
  mode : PauseMode
  deadline : Option ℤ
  reason : String
  now : ℤ

section Texts

variable (chrono : Chrono)

def PauseState.toFile (state : PauseState) : PauseFile where
  mode := state.mode.asStr
  deadline := state.deadline.map chrono.toRfc3339
  reason := state.reason
  since := chrono.toRfc3339 state.since

/-- The `opt_time` of a member that is there. -/
def PauseFile.readDeadline (file : PauseFile) : Option (Option ℤ) :=
  match file.deadline with
  | none => some none
  | some text => (chrono.parseTime text).map some

def PauseFile.toState (file : PauseFile) : Option PauseState := do
  let mode ← PauseMode.ofStr file.mode
  let deadline ← file.readDeadline chrono
  let since ← chrono.parseTime file.since
  some ⟨mode, deadline, file.reason, since⟩

/-- `PauseCtl::open`: the pause to start with, and the file as it leaves it. A file that is no
`PauseFile` at all reads as if there were none.
-/
def openPause (file : Option PauseFile) (now : ℤ) : Option PauseState × Option PauseFile :=
  match file.bind (PauseFile.toState chrono) with
  | some state => if state.expired now then (none, none) else (some state, file)
  | none => (none, file)

def readUntil (now : ℤ) (text : Option String) : Except PauseError (Option ℤ) :=
  match (text.map Text.trim).filter (fun text => text ≠ "") with
  | none => .ok none
  | some text =>
      match chrono.parseTime text with
      | none => .error (.badUntil text)
      | some time =>
          if truncSubsecs time ≤ now then .error .untilPassed else .ok (some (truncSubsecs time))

def readReason (reason : Option String) : Except PauseError String :=
  let reason := reason.getD "user"
  if reason = "user" ∨ reason = "schedule" then .ok reason else .error .badReason

/-- The part of `pause` before the lock. -/
def checkPause (clock : ℤ) (mode : PauseMode) (text reason : Option String)
    : Except PauseError PauseRequest := do
  let deadline ← readUntil chrono (truncSubsecs clock) text
  let reason ← readReason reason
  return ⟨mode, deadline, reason, truncSubsecs clock⟩

end Texts

/-- The mode of a new pause: `now` stays `now`. -/
def mergeMode (current : Option PauseState) (mode : PauseMode) : PauseMode :=
  if current.map PauseState.mode = some .now then .now else mode

/-- The pause that a call makes of the one in force. -/
def PauseRequest.state (request : PauseRequest) (current : Option PauseState) : PauseState where
  mode := mergeMode current request.mode
  deadline := request.deadline
  reason := request.reason
  since := (current.map PauseState.since).getD request.now

-- What the file keeps

/-- The times of a pause can all be written. -/
structure PauseState.Writable (state : PauseState) : Prop where
  deadline : ∀ time ∈ state.deadline, Control.Writable time
  since : Control.Writable state.since

@[simp] theorem PauseMode.ofStr_asStr (mode : PauseMode) : ofStr mode.asStr = some mode := by
  cases mode <;> rfl

theorem writable_of_year {time : ℤ} (year : InFourDigits (truncSubsecs time))
    : Writable (truncSubsecs time) := by
  refine ⟨?_, year⟩
  unfold truncSubsecs
  omega

theorem writable_truncSubsecs {time : ℤ} (year : InFourDigits time)
    : Writable (truncSubsecs time) := by
  apply writable_of_year
  unfold InFourDigits truncSubsecs at *
  omega

theorem PauseState.toState_toFile {chrono : Chrono} (faithful : chrono.Faithful) {state : PauseState}
    (writable : state.Writable)
    : (state.toFile chrono).toState chrono = some state := by
  obtain ⟨mode, deadline, reason, since⟩ := state
  have sinceRead := faithful since writable.since
  have deadlineRead
      : PauseFile.readDeadline chrono (PauseState.toFile chrono ⟨mode, deadline, reason, since⟩)
        = some deadline := by
    cases deadline with
    | none => rfl
    | some time =>
        have timeRead := faithful time (writable.deadline time rfl)
        simp [PauseFile.readDeadline, PauseState.toFile, timeRead]
  rw [PauseFile.toState, deadlineRead]
  simp [PauseState.toFile, sinceRead]

theorem openPause_fst (chrono : Chrono) (file : Option PauseFile) (now : ℤ)
    : (openPause chrono file now).1
      = (file.bind (PauseFile.toState chrono)).filter (fun state => !state.expired now) := by
  unfold openPause
  cases read : file.bind (PauseFile.toState chrono) with
  | none => rfl
  | some state => cases gone : state.expired now <;> simp [Option.filter, gone]

theorem openPause_agrees (chrono : Chrono) (file : Option PauseFile) (now : ℤ)
    : (openPause chrono file now).2.bind (PauseFile.toState chrono)
      = (openPause chrono file now).1 := by
  unfold openPause
  cases read : file.bind (PauseFile.toState chrono) with
  | none => exact read
  | some state =>
      cases gone : state.expired now
      · simp only [gone, Bool.false_eq_true, if_false]
        exact read
      · simp [gone]

theorem readUntil_eq_ok {chrono : Chrono} {now : ℤ} {text : Option String} {time : ℤ}
    (isRead : readUntil chrono now text = .ok (some time))
    : ∃ given ∈ text, ∃ named, chrono.parseTime (Text.trim given) = some named
      ∧ truncSubsecs named = time ∧ now < time := by
  unfold readUntil at isRead
  split at isRead
  · cases isRead
  rename_i given isGiven
  split at isRead
  · cases isRead
  rename_i named isNamed
  split at isRead
  · cases isRead
  rename_i later
  cases isRead
  obtain ⟨isMapped, _⟩ := Option.filter_eq_some_iff.mp isGiven
  obtain ⟨written, isWritten, rfl⟩ := Option.map_eq_some_iff.mp isMapped
  exact ⟨written, isWritten, named, isNamed, rfl, not_le.mp later⟩

theorem checkPause_eq_ok {chrono : Chrono} {clock : ℤ} {mode : PauseMode}
    {text reason : Option String} {request : PauseRequest}
    (isChecked : checkPause chrono clock mode text reason = .ok request)
    : readUntil chrono (truncSubsecs clock) text = .ok request.deadline
      ∧ request.mode = mode ∧ request.now = truncSubsecs clock := by
  unfold checkPause at isChecked
  cases isRead : readUntil chrono (truncSubsecs clock) text with
  | error fault =>
      rw [isRead] at isChecked
      cases isChecked
  | ok deadline =>
      cases isReason : readReason reason with
      | error fault =>
          rw [isRead, isReason] at isChecked
          cases isChecked
      | ok given =>
          rw [isRead, isReason] at isChecked
          cases isChecked
          exact ⟨rfl, rfl, rfl⟩

end MokuroBunko.Control
