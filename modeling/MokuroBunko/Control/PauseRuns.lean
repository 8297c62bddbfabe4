import MokuroBunko.Control.Pause
import MokuroBunko.Lib.Runs
import Mathlib.Data.List.Chain

/-! Pause and resume calls beside the timer that lifts a pause at its end. A call writes the file and
then the channel under one lock; the timer reads the channel, compares the end with the clock and the
channel again, and only then takes the lock.
-/

namespace MokuroBunko.Control

open MokuroBunko.Lib

inductive Timer where
  /-- At the top of its loop, or asleep until it gets there. -/
  | waiting
  | watching (deadline : ℤ)
  /-- The end that it watches has come. -/
  | due (deadline : ℤ)
  /-- It has found the same end in the channel once more and calls `resume`. -/
  | lifting (deadline : ℤ)
  /-- Its `resume` holds the lock. -/
  | resuming

/-- The end that the timer has seen to have come. -/
def Timer.past : Timer → Option ℤ
  | .due deadline => some deadline
  | .lifting deadline => some deadline
  | _ => none

/-- The end that the timer has found in the channel once more. -/
def Timer.compared : Timer → Option ℤ
  | .lifting deadline => some deadline
  | _ => none

/-- A pause that the timer's `resume` lifted, and when. -/
structure Lift where
  state : PauseState
  now : ℤ

structure PauseRun where
  clock : ℤ
  /-- What the channel holds. -/
  current : Option PauseState
  file : Option PauseFile
  /-- The calls of `pause` that wait for the lock. -/
  requests : List PauseRequest
  /-- What the holder of the lock has written to the file and not yet sent. -/
  writing : Option (Option PauseState)
  timer : Timer
  lifts : List Lift
  /-- All that the channel has held. -/
  shown : List (Option PauseState)

inductive PauseStep where
  | tick (nanoseconds : ℕ)
  | pause (mode : PauseMode) (text reason : Option String)
  | lockPause (index : ℕ)
  | lockResume
  | send
  | timerReads
  | timerChecks
  | timerCompares
  | timerLifts
  /-- The process ends, whatever it is doing, and the storage is opened again. -/
  | reopen

namespace PauseRun

variable (chrono : Chrono)

/-- The instance has just been opened. -/
def opened (file : Option PauseFile) (now : ℤ) : PauseRun where
  clock := now
  current := (openPause chrono file now).1
  file := (openPause chrono file now).2
  requests := []
  writing := none
  timer := .waiting
  lifts := []
  shown := [(openPause chrono file now).1]

/-- The deadline in the channel. -/
def deadline (run : PauseRun) : Option ℤ := run.current.bind PauseState.deadline

/-- `resume`, with the lock, of a channel that holds a pause. -/
def remove (run : PauseRun) : PauseRun := { run with file := none, writing := some none }

def step (run : PauseRun) : PauseStep → PauseRun
  | .tick nanoseconds => { run with clock := run.clock + nanoseconds }
  | .pause mode text reason =>
      match checkPause chrono run.clock mode text reason with
      | .error _ => run
      | .ok request => { run with requests := run.requests ++ [request] }
  | .lockPause index =>
      match run.writing, run.requests[index]? with
      | none, some request =>
          let state := request.state run.current
          {
            run with
            requests := run.requests.eraseIdx index
            file := some (state.toFile chrono)
            writing := some (some state)
          }
      | _, _ => run
  | .lockResume =>
      match run.writing, run.current with
      | none, some _ => run.remove
      | _, _ => run
  | .send =>
      match run.writing with
      | none => run
      | some state =>
          {
            run with
            current := state
            writing := none
            timer := if run.timer matches .resuming then .waiting else run.timer
            shown := run.shown ++ [state]
          }
  | .timerReads =>
      match run.timer with
      | .waiting => { run with timer := (run.deadline.map Timer.watching).getD .waiting }
      | _ => run
  | .timerChecks =>
      match run.timer with
      | .watching deadline =>
          { run with timer := if deadline ≤ run.clock then .due deadline else .waiting }
      | _ => run
  | .timerCompares =>
      match run.timer with
      | .due deadline =>
          { run with timer := if run.deadline = some deadline then .lifting deadline else .waiting }
      | _ => run
  | .timerLifts =>
      match run.timer, run.writing with
      | .lifting _, none =>
          match run.current with
          | none => { run with timer := .waiting }
          | some state =>
              { run.remove with timer := .resuming, lifts := run.lifts ++ [⟨state, run.clock⟩] }
      | _, _ => run
  | .reopen =>
      let (state, file) := openPause chrono run.file run.clock
      {
        run with
        current := state
        file
        requests := []
        writing := none
        timer := .waiting
        shown := run.shown ++ [state]
      }

/-- `now` does not weaken from one content of the channel to the next. -/
def Sticks (before after : Option PauseState) : Prop :=
  ∀ first ∈ before, ∀ second ∈ after, first.mode = .now → second.mode = .now

/-- What is promised of an instance in a state it can reach. -/
structure Kept (run : PauseRun) : Prop where
  lifts : ∀ lift ∈ run.lifts, lift.state.expired lift.now
  agrees : run.writing = none → run.file.bind (PauseFile.toState chrono) = run.current
  sticks : run.shown.IsChain Sticks
  reopened
    : run.writing = none → ∀ now,
        (openPause chrono run.file now).1 = run.current.filter (fun state => !state.expired now)

/-- Times that are written have four-digit years, and no call changes the pause between the timer's
last comparison and its `resume`.
-/
def Meets (run : PauseRun) : PauseStep → Prop
  | .pause _ text _ =>
      InFourDigits run.clock
        ∧ ∀ time ∈ (text.map Text.trim).bind chrono.parseTime, InFourDigits (truncSubsecs time)
  | .timerLifts =>
      ∀ deadline ∈ run.timer.compared, ∀ state ∈ run.current, state.deadline = some deadline
  | _ => True

instance (run : PauseRun) : ∀ taken, Decidable (run.Meets chrono taken)
  | .pause _ text _ =>
      inferInstanceAs (Decidable (_ ∧ ∀ time ∈ (text.map Text.trim).bind chrono.parseTime, _))
  | .timerLifts => inferInstanceAs (Decidable (∀ deadline ∈ run.timer.compared, ∀ state ∈ _, _))
  | .tick _ | .lockPause _ | .lockResume | .send | .timerReads | .timerChecks | .timerCompares
  | .reopen =>
      isTrue trivial

-- The invariant

/-- The state that the file is for: the one being sent, or the one in the channel. -/
def latest (run : PauseRun) : Option PauseState := run.writing.getD run.current

structure Invariant (run : PauseRun) : Prop where
  requests
    : ∀ request ∈ run.requests,
        Writable request.now ∧ ∀ time ∈ request.deadline, Writable time
  current : ∀ state ∈ run.current, state.Writable
  latest : ∀ state ∈ run.latest, state.Writable
  file : run.file.bind (PauseFile.toState chrono) = run.latest
  merged : Sticks run.current run.latest
  last : run.shown.getLast? = some run.current
  sticks : run.shown.IsChain Sticks
  past : ∀ deadline ∈ run.timer.past, deadline ≤ run.clock
  lifts : ∀ lift ∈ run.lifts, lift.state.expired lift.now

section Steps

variable {chrono} {run : PauseRun}

theorem Sticks.refl (state : Option PauseState) : Sticks state state := by
  intro first isFirst second isSecond isNow
  rw [← Option.mem_unique isFirst isSecond]
  exact isNow

theorem sticks_none (state : Option PauseState) : Sticks state none := by
  intro first _ second isSecond
  cases isSecond

theorem sticks_state (request : PauseRequest) (current : Option PauseState)
    : Sticks current (some (request.state current)) := by
  intro first isFirst second isSecond isNow
  cases isSecond
  have held : current.map PauseState.mode = some .now := by
    rw [Option.mem_def.mp isFirst, Option.map_some, isNow]
  exact if_pos held

theorem openPause_cases (file : Option PauseFile) (now : ℤ)
    : (openPause chrono file now).1 = none
      ∨ (openPause chrono file now).1 = file.bind (PauseFile.toState chrono) := by
  rw [openPause_fst]
  cases file.bind (PauseFile.toState chrono) with
  | none => exact .inl rfl
  | some state =>
      rw [Option.filter_some]
      split
      · exact .inr rfl
      · exact .inl rfl

theorem opened_invariant {file : Option PauseFile}
    (writable : ∀ state ∈ file.bind (PauseFile.toState chrono), state.Writable) (now : ℤ)
    : Invariant chrono (opened chrono file now) := by
  have held : ∀ state ∈ (openPause chrono file now).1, state.Writable := by
    intro state isState
    obtain isNone | isFile := @openPause_cases chrono file now
    · rw [isNone] at isState
      cases isState
    · exact writable state (isFile ▸ isState)
  constructor
  case requests =>
    intro request isRequest
    cases isRequest
  case current => exact held
  case latest => exact held
  case file => exact openPause_agrees chrono file now
  case merged => exact Sticks.refl _
  case last => rfl
  case sticks => exact .singleton _
  case past =>
    intro deadline isPast
    cases isPast
  case lifts =>
    intro lift isLift
    cases isLift

theorem Invariant.shown (holds : run.Invariant chrono) {state : Option PauseState}
    (sticks : Sticks run.current state)
    : (run.shown ++ [state]).IsChain Sticks := by
  refine List.IsChain.append holds.sticks (.singleton _) ?_
  intro before isBefore after isAfter
  rw [holds.last] at isBefore
  cases isBefore
  cases isAfter
  exact sticks

attribute [local simp] step

theorem step_tick (holds : run.Invariant chrono) (nanoseconds : ℕ)
    : (run.step chrono (.tick nanoseconds)).Invariant chrono := by
  refine { holds with past := ?_ }
  intro deadline isPast
  have earlier := holds.past deadline isPast
  simp only [step]
  omega

theorem step_pause (holds : run.Invariant chrono) {mode : PauseMode} {text reason : Option String}
    (meets : run.Meets chrono (.pause mode text reason))
    : (run.step chrono (.pause mode text reason)).Invariant chrono := by
  obtain ⟨yearNow, yearText⟩ := meets
  simp only [step]
  split
  · exact holds
  rename_i request isChecked
  obtain ⟨isRead, _, isNow⟩ := checkPause_eq_ok isChecked
  refine { holds with requests := ?_ }
  intro other isOther
  obtain isOld | isNew := List.mem_append.mp isOther
  · exact holds.requests other isOld
  rw [List.mem_singleton.mp isNew, isNow]
  refine ⟨writable_truncSubsecs yearNow, ?_⟩
  intro time isTime
  rw [Option.mem_def.mp isTime] at isRead
  obtain ⟨given, isGiven, named, isNamed, rfl, _⟩ := readUntil_eq_ok isRead
  apply writable_of_year
  apply yearText named
  rw [Option.mem_def.mp isGiven]
  exact isNamed

theorem step_lockPause (faithful : chrono.Faithful) (holds : run.Invariant chrono) (index : ℕ)
    : (run.step chrono (.lockPause index)).Invariant chrono := by
  simp only [step]
  split
  case h_2 => exact holds
  rename_i request free isRequest
  have writable : (request.state run.current).Writable := by
    obtain ⟨began, ends⟩ := holds.requests request (List.mem_of_getElem? isRequest)
    refine ⟨ends, ?_⟩
    simp only [PauseRequest.state]
    cases isCurrent : run.current with
    | none => exact began
    | some state => exact (holds.current state isCurrent).since
  refine { holds with requests := ?_, latest := ?_, file := ?_, merged := ?_ }
  · intro other isOther
    exact holds.requests other ((List.eraseIdx_sublist _ _).subset isOther)
  · intro state isState
    cases isState
    exact writable
  · exact PauseState.toState_toFile faithful writable
  · exact sticks_state request run.current

theorem remove_invariant (holds : run.Invariant chrono) : run.remove.Invariant chrono := by
  refine { holds with latest := ?_, file := rfl, merged := sticks_none _ }
  intro state isState
  cases isState

theorem step_lockResume (holds : run.Invariant chrono)
    : (run.step chrono .lockResume).Invariant chrono := by
  simp only [step]
  split
  · exact remove_invariant holds
  · exact holds

theorem step_send (holds : run.Invariant chrono) : (run.step chrono .send).Invariant chrono := by
  simp only [step]
  split
  · exact holds
  rename_i state isWriting
  have isLatest : run.latest = state := by rw [PauseRun.latest, isWriting, Option.getD_some]
  refine {
    requests := holds.requests
    current := ?_
    latest := ?_
    file := ?_
    merged := Sticks.refl _
    last := List.getLast?_concat
    sticks := ?_
    past := ?_
    lifts := holds.lifts
  }
  · exact isLatest ▸ holds.latest
  · exact isLatest ▸ holds.latest
  · exact isLatest ▸ holds.file
  · exact holds.shown (isLatest ▸ holds.merged)
  · intro deadline isPast
    apply holds.past deadline
    cases isTimer : run.timer with
    | _ => simp [isTimer, Timer.past] at isPast ⊢ <;> assumption

theorem step_timer (holds : run.Invariant chrono) {timer : Timer}
    (past : ∀ deadline ∈ timer.past, deadline ≤ run.clock)
    : Invariant chrono { run with timer } :=
  { holds with past }

theorem step_timerReads (holds : run.Invariant chrono)
    : (run.step chrono .timerReads).Invariant chrono := by
  simp only [step]
  split
  · apply step_timer holds
    cases run.deadline <;> simp [Timer.past]
  · exact holds

theorem step_timerChecks (holds : run.Invariant chrono)
    : (run.step chrono .timerChecks).Invariant chrono := by
  simp only [step]
  split
  · apply step_timer holds
    split
    · simpa [Timer.past]
    · simp [Timer.past]
  · exact holds

theorem step_timerCompares (holds : run.Invariant chrono)
    : (run.step chrono .timerCompares).Invariant chrono := by
  simp only [step]
  split
  · rename_i deadline isDue
    have past := holds.past deadline (by rw [isDue]; rfl)
    apply step_timer holds
    split
    · simpa [Timer.past]
    · simp [Timer.past]
  · exact holds

theorem step_timerLifts (holds : run.Invariant chrono) (meets : run.Meets chrono .timerLifts)
    : (run.step chrono .timerLifts).Invariant chrono := by
  simp only [step]
  split
  case h_2 => exact holds
  rename_i deadline isLifting free
  split
  · apply step_timer holds
    simp [Timer.past]
  rename_i state isCurrent
  have removed := remove_invariant holds
  refine { removed with past := by simp [Timer.past], lifts := ?_ }
  intro lift isLift
  obtain isOld | isNew := List.mem_append.mp isLift
  · exact holds.lifts lift isOld
  have isDeadline := meets deadline (by rw [isLifting]; rfl) state isCurrent
  have past := holds.past deadline (by rw [isLifting]; rfl)
  rw [List.mem_singleton.mp isNew, PauseState.expired, isDeadline]
  simpa using past

theorem step_reopen (holds : run.Invariant chrono)
    : (run.step chrono .reopen).Invariant chrono := by
  have sticks : Sticks run.current (openPause chrono run.file run.clock).1 := by
    obtain isNone | isFile := @openPause_cases chrono run.file run.clock
    · exact isNone ▸ sticks_none run.current
    · rw [isFile, holds.file]
      exact holds.merged
  have fresh := @opened_invariant chrono run.file
    (holds.file ▸ holds.latest) run.clock
  refine { fresh with last := List.getLast?_concat, sticks := ?_, lifts := holds.lifts }
  exact holds.shown sticks

theorem step_invariant (faithful : chrono.Faithful) (run : PauseRun) (taken : PauseStep)
    (holds : run.Invariant chrono) (meets : run.Meets chrono taken)
    : (run.step chrono taken).Invariant chrono := by
  cases taken with
  | tick nanoseconds => exact step_tick holds nanoseconds
  | pause mode text reason => exact step_pause holds meets
  | lockPause index => exact step_lockPause faithful holds index
  | lockResume => exact step_lockResume holds
  | send => exact step_send holds
  | timerReads => exact step_timerReads holds
  | timerChecks => exact step_timerChecks holds
  | timerCompares => exact step_timerCompares holds
  | timerLifts => exact step_timerLifts holds meets
  | reopen => exact step_reopen holds

theorem Invariant.kept (holds : run.Invariant chrono) : run.Kept chrono := by
  have agrees (free : run.writing = none)
      : run.file.bind (PauseFile.toState chrono) = run.current := by
    rw [holds.file, PauseRun.latest, free, Option.getD_none]
  refine ⟨holds.lifts, agrees, holds.sticks, ?_⟩
  intro free now
  rw [openPause_fst, agrees free]

end Steps

-- Runs

/-- In a run in which no call changes the pause between the timer's last comparison and its `resume`,
and whose times have four-digit years, the timer lifts only what has expired, the file and the memory
agree, `now` stays, and opening again gives the same.
-/
theorem pause_kept {chrono : Chrono} (faithful : chrono.Faithful) {file : Option PauseFile} {now : ℤ}
    (writable : ∀ state ∈ file.bind (PauseFile.toState chrono), state.Writable)
    {taken : List PauseStep}
    (orderly : Runs.Orderly (step chrono) (Meets chrono) (opened chrono file now) taken)
    : (taken.foldl (step chrono) (opened chrono file now)).Kept chrono :=
  (orderly.invariant (step_invariant faithful) (opened_invariant writable now)).kept

def clockTexts : List (ℤ × String) :=
  [
    (0, "1970-01-01T00:00:00Z"),
    (10000000000, "1970-01-01T00:00:10Z"),
    (20000000000, "1970-01-01T00:00:20Z")
  ]

def clockChrono : Chrono where
  toRfc3339 time :=
    match clockTexts.find? (fun entry => entry.1 = time) with
    | some entry => entry.2
    | none => String.ofList (Nat.toDigits 10 (time + 62167219200000000000).toNat)
  parseFromRfc3339 text :=
    match clockTexts.find? (fun entry => entry.2 = text) with
    | some entry => some entry.1
    | none => some (Nat.ofDigitChars 10 text.toList 0 - 62167219200000000000)

theorem clockChrono_digits {time : ℤ} (early : -62167219200000000000 ≤ time)
    (other : clockTexts.find? (fun entry => entry.1 = time) = none)
    : clockChrono.parseTime (clockChrono.toRfc3339 time) = some time := by
  set number := (time + 62167219200000000000).toNat with isNumber
  have isText : clockChrono.toRfc3339 time = String.ofList (Nat.toDigits 10 number) := by
    simp only [clockChrono, other, isNumber]
  have digits : ∀ char ∈ (String.ofList (Nat.toDigits 10 number)).toList, Text.isDigit char := by
    rw [String.toList_ofList]
    intro char isChar
    exact Text.isDigit_of_toDigits isChar
  have noDigits : ∀ entry ∈ clockTexts, ¬ entry.2.toList.all Text.isDigit := by decide
  have notListed
      : clockTexts.find? (fun entry => entry.2 = String.ofList (Nat.toDigits 10 number)) = none := by
    rw [List.find?_eq_none]
    intro entry isIn same
    apply noDigits entry isIn
    rw [of_decide_eq_true same]
    exact List.all_eq_true.mpr digits
  have plain : Text.trim (String.ofList (Nat.toDigits 10 number))
      = String.ofList (Nat.toDigits 10 number) :=
    Text.trim_eq_self (fun char isChar => Text.isWhitespace_of_isDigit (digits char isChar))
  rw [Chrono.parseTime, isText, plain]
  simp only [clockChrono, notListed, String.toList_ofList, Nat.ofDigitChars_ten_toDigits,
    Option.some.injEq]
  omega

theorem clockChrono_faithful : clockChrono.Faithful := by
  intro time writable
  cases isEntry : clockTexts.find? (fun entry => entry.1 = time) with
  | none => exact clockChrono_digits writable.year.1 isEntry
  | some entry =>
      have isTime : entry.1 = time := by simpa using List.find?_some isEntry
      have listed
          : ∀ entry ∈ clockTexts,
              clockChrono.parseTime (clockChrono.toRfc3339 entry.1) = some entry.1 := by
        decide
      rw [← isTime]
      exact listed entry (List.mem_of_find?_eq_some isEntry)

/-- A pause of ten seconds up to the timer's call of `resume`, and what follows. -/
def tenSeconds (rest : List PauseStep) : List PauseStep :=
  [
    .pause .now (some "1970-01-01T00:00:10Z") none,
    .lockPause 0,
    .send,
    .timerReads,
    .tick 10000000000,
    .timerChecks,
    .timerCompares
  ]
    ++ rest

/-- The pause ends when its time has come. -/
theorem pause_kept_ended
    : ((tenSeconds [.timerLifts, .send, .reopen]).foldl (step clockChrono)
        (opened clockChrono none 0)).Kept clockChrono := by
  refine pause_kept clockChrono_faithful ?_ (by decide)
  intro state isState
  cases isState

/-- The pause is made longer just before the timer takes the lock. -/
def extended : List PauseStep :=
  tenSeconds [.pause .now (some "1970-01-01T00:00:20Z") none, .lockPause 0, .send, .timerLifts]

/-- The longer pause is lifted all the same. -/
theorem not_pause_kept_extended
    : ¬ (extended.foldl (step clockChrono) (opened clockChrono none 0)).Kept clockChrono := by
  intro kept
  have early
      : ∃ lift ∈ (extended.foldl (step clockChrono) (opened clockChrono none 0)).lifts,
          ¬ lift.state.expired lift.now := by
    decide
  obtain ⟨lift, isLift, notExpired⟩ := early
  exact notExpired (kept.lifts lift isLift)

end PauseRun

end MokuroBunko.Control
