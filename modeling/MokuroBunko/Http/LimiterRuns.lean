import MokuroBunko.Http.AuthLimiter
import Mathlib.Data.List.Induction
import Mathlib.Data.List.TakeWhile
import Mathlib.Logic.Function.Basic

/-! Runs of the limiter: any number of callers ask, and report the result of what was allowed.
-/

namespace MokuroBunko.Http

open MokuroBunko.Lib

/-- A call. A caller that was allowed reports one of the checks that are not resolved yet. -/
inductive LimiterCall where
  | allow (key : String)
  | success (key : String) (index : ℕ)
  | failure (key : String) (index : ℕ)

def LimiterCall.key : LimiterCall → String
  | .allow key => key
  | .success key _ => key
  | .failure key _ => key

/-- What a call came to. A key is blocked by the first of the answers that refuse it. -/
inductive EventKind where
  | admitted
  | full
  | blocked
  | refused
  | failed
  | succeeded
  deriving DecidableEq

structure LimiterEvent where
  key : String
  kind : EventKind
  time : ℕ
  deriving DecidableEq

/-- Whether the event is an answer of `allow`. -/
def EventKind.IsAnswer (kind : EventKind) : Prop := kind ≠ .failed ∧ kind ≠ .succeeded

def answerKind (wasBlocked : Bool) : Except ℕ Bool → EventKind
  | .ok true => .admitted
  | .ok false => .full
  | .error _ => if wasBlocked then .refused else .blocked

/-- The table, when each key's unresolved checks were admitted, and what has happened. -/
structure LimiterRun where
  table : LimiterTable
  now : ℕ
  unresolved : String → List ℕ
  events : List LimiterEvent

namespace LimiterRun

def start : LimiterRun where
  table := []
  now := 0
  unresolved := fun _ => []
  events := []

section Steps

variable (limiter : AuthLimiter)

def allow (run : LimiterRun) (key : String) (now : ℕ) : LimiterRun :=
  let (answer, table) := limiter.check run.table key now
  let kind := answerKind ((entryOf run.table key).isBlocked now) answer
  {
    table
    now
    unresolved :=
      if kind = .admitted then
        Function.update run.unresolved key (run.unresolved key ++ [now])
      else run.unresolved
    events := run.events ++ [⟨key, kind, now⟩]
  }

def report (run : LimiterRun) (key : String) (index : ℕ) (failed : Bool) (now : ℕ) : LimiterRun :=
  if index < (run.unresolved key).length then
    {
      table := if failed then recordFailure run.table key now else recordSuccess run.table key now
      now
      unresolved := Function.update run.unresolved key ((run.unresolved key).eraseIdx index)
      events := run.events ++ [⟨key, if failed then .failed else .succeeded, now⟩]
    }
  else run

def step (run : LimiterRun) (call : LimiterCall) (now : ℕ) : LimiterRun :=
  match call with
  | .allow key => run.allow limiter key now
  | .success key index => run.report key index false now
  | .failure key index => run.report key index true now

def steps (run : LimiterRun) (calls : List (LimiterCall × ℕ)) : LimiterRun :=
  calls.foldl (fun run (call, now) => run.step limiter call now) run

/-- Time does not go back, no check of the key is left unresolved past its pending time, and the
table has room.
-/
def Orderly (run : LimiterRun) : List (LimiterCall × ℕ) → Prop
  | [] => True
  | (call, now) :: calls =>
      run.now ≤ now ∧ (∀ admitted ∈ run.unresolved call.key, now ≤ admitted + pendingTtl)
        ∧ run.table.length < maxKeys ∧ Orderly (run.step limiter call now) calls

instance decidableOrderly (run : LimiterRun) : ∀ calls, Decidable (run.Orderly limiter calls)
  | [] => isTrue trivial
  | (call, now) :: calls =>
      have := decidableOrderly (run.step limiter call now) calls
      inferInstanceAs (Decidable (_ ∧ _ ∧ _ ∧ _))

end Steps

-- What holds of a key

/-- Neither a success nor a new block of the key. -/
def Quiet (key : String) (events : List LimiterEvent) : Prop :=
  ∀ event ∈ events, event.key = key → event.kind ≠ .succeeded ∧ event.kind ≠ .blocked

/-- When checks of the key failed. -/
def failedOf (key : String) (events : List LimiterEvent) : List ℕ :=
  (events.filter (fun event => event.key = key ∧ event.kind = .failed)).map LimiterEvent.time

/-- What the limiter does to a key, by its unresolved checks and what has happened. -/
structure Throttled (limiter : AuthLimiter) (key : String) (unresolved : List ℕ)
    (events : List LimiterEvent)
    : Prop where
  inFlight : unresolved.length ≤ maxPending
  counted
    : ∀ before segment after, events = before ++ segment ++ after
        → Quiet key segment
        → (∀ first ∈ segment, ∀ last ∈ segment, last.time ≤ first.time + limiter.window)
        → (failedOf key segment).length ≤ limiter.maxFailures + maxPending - 1
  refused
    : ∀ before (blocked : LimiterEvent) after, events = before ++ blocked :: after
        → blocked.key = key → blocked.kind = .blocked
        → (∀ event ∈ after, event.key = key → event.kind ≠ .succeeded)
        → ∀ event ∈ after, event.key = key → event.kind.IsAnswer
          → event.time < blocked.time + limiter.block → event.kind = .refused
  unblocked
    : (∀ event ∈ events, event.key = key → event.kind ≠ .failed)
        → ∀ event ∈ events, event.key = key → event.kind ≠ .blocked ∧ event.kind ≠ .refused

-- What a step does to a key

/-- What the event of a step does to a key's entry and unresolved checks. -/
inductive KeyChange (limiter : AuthLimiter) (key : String)
    : LimiterEvent → Entry → List ℕ → Entry → List ℕ → Prop where
  | other {event entry unresolved} (different : event.key ≠ key)
    : KeyChange limiter key event entry unresolved entry unresolved
  | refused {time entry unresolved} (blocked : entry.isBlocked time = true)
    : KeyChange limiter key ⟨key, .refused, time⟩ entry unresolved entry unresolved
  | blocked {time entry unresolved} (unblocked : entry.isBlocked time = false)
    (many : limiter.maxFailures ≤ (dropStale time limiter.window entry.failures).length)
    : KeyChange limiter key ⟨key, .blocked, time⟩ entry unresolved
      ⟨[], some (time + limiter.block), entry.pending⟩ unresolved
  | full {time entry unresolved} (unblocked : entry.isBlocked time = false)
    : KeyChange limiter key ⟨key, .full, time⟩ entry unresolved
      ⟨dropStale time limiter.window entry.failures, none, entry.pending⟩ unresolved
  | admitted {time entry unresolved} (unblocked : entry.isBlocked time = false)
    (few : (dropStale time limiter.window entry.failures).length < limiter.maxFailures)
    (free : entry.pending.length < maxPending)
    : KeyChange limiter key ⟨key, .admitted, time⟩ entry unresolved
      ⟨dropStale time limiter.window entry.failures, none, entry.pending ++ [time]⟩
      (unresolved ++ [time])
  | failed {time entry unresolved index} (isOpen : index < unresolved.length)
    : KeyChange limiter key ⟨key, .failed, time⟩ entry unresolved
      { entry with pending := entry.pending.tail, failures := entry.failures ++ [time] }
      (unresolved.eraseIdx index)
  | succeeded {time entry unresolved index} (isOpen : index < unresolved.length)
    : KeyChange limiter key ⟨key, .succeeded, time⟩ entry unresolved ⟨[], none, entry.pending.tail⟩
      (unresolved.eraseIdx index)

/-- The runs before and after the event are such a change of the key. -/
def Changes (limiter : AuthLimiter) (key : String) (event : LimiterEvent) (run after : LimiterRun) : Prop :=
  KeyChange limiter key event (entryOf run.table key) (run.unresolved key) (entryOf after.table key)
    (after.unresolved key)

section Change

variable {limiter : AuthLimiter} {run : LimiterRun}

theorem dropStale_pending {now : ℕ} {unresolved pending : List ℕ}
    (covers : List.Forall₂ (· ≤ ·) unresolved pending)
    (timely : ∀ admitted ∈ unresolved, now ≤ admitted + pendingTtl)
    : dropStale now pendingTtl pending = pending := by
  cases covers with
  | nil => rfl
  | cons first _ =>
      have young := timely _ List.mem_cons_self
      unfold dropStale
      rw [List.dropWhile_cons_of_neg]
      rw [decide_eq_true_eq]
      omega

theorem allow_change {key asked : String} {now : ℕ} (room : run.table.length < maxKeys)
    (timely : ∀ admitted ∈ run.unresolved asked, now ≤ admitted + pendingTtl)
    (covers : List.Forall₂ (· ≤ ·) (run.unresolved key) (entryOf run.table key).pending)
    : ∃ event, (run.allow limiter asked now).events = run.events ++ [event] ∧ event.time = now
      ∧ Changes limiter key event run (run.allow limiter asked now) := by
  unfold allow
  rw [check_table limiter room]
  refine ⟨_, rfl, rfl, ?_⟩
  by_cases same : asked = key
  · subst same
    have pending := dropStale_pending covers timely
    have checked := (entryOf run.table asked).checked limiter now
    simp only [Changes, entryOf_insert, if_true]
    generalize (entryOf run.table asked).check limiter now = result at checked ⊢
    cases checked with
    | refuses retry blocked =>
        simp only [answerKind, blocked, if_true, reduceCtorEq, if_false]
        exact .refused blocked
    | blocks retry unblocked many =>
        simp only [answerKind, unblocked, Bool.false_eq_true, reduceCtorEq, if_false, pending]
        exact .blocked unblocked many
    | full unblocked =>
        simp only [answerKind, reduceCtorEq, ↓reduceIte, pending]
        exact .full unblocked
    | admits unblocked few free =>
        rw [pending] at free
        simp only [answerKind, pending, ↓reduceIte, Function.update_self]
        exact .admitted unblocked few free
  · have other : key ≠ asked := fun equal => same equal.symm
    have sameOpen (kind : EventKind) (grown : List ℕ)
        : (if kind = .admitted then Function.update run.unresolved asked grown else run.unresolved) key
          = run.unresolved key := by
      split
      · exact Function.update_of_ne other ..
      · rfl
    simp only [Changes, entryOf_insert, if_neg other, sameOpen]
    exact .other same

theorem report_change {key asked : String} {index now : ℕ} {failed : Bool}
    (isOpen : index < (run.unresolved asked).length)
    (covers : List.Forall₂ (· ≤ ·) (run.unresolved key) (entryOf run.table key).pending)
    : ∃ event, (run.report asked index failed now).events = run.events ++ [event]
      ∧ event.time = now
      ∧ Changes limiter key event run (run.report asked index failed now) := by
  unfold report
  rw [if_pos isOpen]
  refine ⟨_, rfl, rfl, ?_⟩
  by_cases same : asked = key
  · subst same
    simp only [Changes, Function.update_self]
    cases failed with
    | true =>
        have pending : (entryOf run.table asked).pending ≠ [] := by
          intro none
          rw [List.length_eq_zero_iff.mp (covers.length_eq.trans (by rw [none]; rfl))] at isOpen
          exact absurd isOpen (Nat.not_lt_zero index)
        simp only [if_true, recordFailure, entryOf_failure now pending]
        exact .failed isOpen
    | false =>
        simp only [Bool.false_eq_true, if_false, recordSuccess, entryOf_success]
        exact .succeeded isOpen
  · have other : key ≠ asked := fun equal => same equal.symm
    have sameEntry
        : entryOf (if failed then recordFailure run.table asked now
            else recordSuccess run.table asked now) key
          = entryOf run.table key := by
      split <;> exact entryOf_resolve_ne _ now other
    simp only [Changes, sameEntry, Function.update_of_ne other]
    exact .other same

theorem step_change {call : LimiterCall} {now : ℕ} (key : String) (room : run.table.length < maxKeys)
    (timely : ∀ admitted ∈ run.unresolved call.key, now ≤ admitted + pendingTtl)
    (covers : List.Forall₂ (· ≤ ·) (run.unresolved key) (entryOf run.table key).pending)
    : run.step limiter call now = run
      ∨ (run.step limiter call now).now = now
        ∧ ∃ event, (run.step limiter call now).events = run.events ++ [event] ∧ event.time = now
          ∧ Changes limiter key event run (run.step limiter call now) := by
  have reported (asked : String) (index : ℕ) (failed : Bool)
      : run.report asked index failed now = run
        ∨ (run.report asked index failed now).now = now
          ∧ ∃ event, (run.report asked index failed now).events = run.events ++ [event]
            ∧ event.time = now
            ∧ Changes limiter key event run (run.report asked index failed now) := by
    by_cases isOpen : index < (run.unresolved asked).length
    · refine .inr ⟨?_, report_change isOpen covers⟩
      rw [report, if_pos isOpen]
    · exact .inl (by rw [report, if_neg isOpen])
  cases call with
  | allow asked => exact .inr ⟨rfl, allow_change room timely covers⟩
  | success asked index => exact reported asked index false
  | failure asked index => exact reported asked index true

end Change

-- The invariant

/-- When checks of the key failed since it last succeeded or was blocked. -/
def failedSince (key : String) (events : List LimiterEvent) : List ℕ :=
  events.foldl
    (fun times event =>
      if event.key ≠ key then times
      else if event.kind = .failed then times ++ [event.time]
      else if event.kind = .succeeded ∨ event.kind = .blocked then []
      else times)
    []

structure Invariant (limiter : AuthLimiter) (key : String) (entry : Entry) (unresolved : List ℕ)
    (now : ℕ) (events : List LimiterEvent)
    : Prop where
  /-- The pending checks stand for the unresolved ones, none older than its own. -/
  covers : List.Forall₂ (· ≤ ·) unresolved entry.pending
  ordered : entry.pending.Pairwise (· ≤ ·)
  past : ∀ time ∈ entry.pending, time ≤ now
  few : entry.pending.length ≤ maxPending
  /-- What is missing in the entry was dropped for its age. -/
  log
    : ∃ dropped, failedSince key events = dropped ++ entry.failures
        ∧ ∀ time ∈ dropped, time + limiter.window < now
  bound
    : ∀ before segment, events = before ++ segment
        → Quiet key segment
        → (∀ event ∈ segment, now ≤ event.time + limiter.window)
        → (failedOf key segment).length + entry.pending.length ≤ limiter.maxFailures + maxPending - 1
  blocked
    : ∀ before (blocked : LimiterEvent) after, events = before ++ blocked :: after
        → blocked.key = key → blocked.kind = .blocked
        → (∀ event ∈ after, event.key = key → event.kind ≠ .succeeded)
        → (∃ time, entry.blockedUntil = some time ∧ blocked.time + limiter.block ≤ time)
          ∨ blocked.time + limiter.block ≤ now
  fresh : (∀ event ∈ events, event.key = key → event.kind ≠ .failed) → entry.blockedUntil = none
  throttled : Throttled limiter key unresolved events

section Lists

theorem append_concat_cases {α : Type} {all before after : List α} {last : α}
    (same : all ++ [last] = before ++ after)
    : after = [] ∨ ∃ start, after = start ++ [last] ∧ all = before ++ start := by
  obtain isNil | ⟨start, final, isConcat⟩ := List.eq_nil_or_concat after
  · exact .inl isNil
  · rw [isConcat, List.concat_eq_append, ← List.append_assoc] at same
    obtain ⟨front, sameLast⟩ := List.append_inj' same rfl
    exact .inr ⟨start, by rw [isConcat, List.concat_eq_append, List.singleton_inj.mp sameLast], front⟩

theorem covers_tail {elements covering : List ℕ} (covers : List.Forall₂ (· ≤ ·) elements covering)
    (ordered : covering.Pairwise (· ≤ ·)) {index : ℕ} (inRange : index < elements.length)
    : List.Forall₂ (· ≤ ·) (elements.eraseIdx index) covering.tail := by
  induction covers generalizing index with
  | nil => exact absurd inRange (Nat.not_lt_zero index)
  | cons first rest ih =>
      rename_i element cover elements covering
      cases index with
      | zero => exact rest
      | succ index =>
          have laterInRange : index < elements.length := Nat.lt_of_succ_lt_succ inRange
          have later := ih (List.pairwise_cons.mp ordered).2 laterInRange
          cases covering with
          | nil =>
              cases rest
              exact absurd laterInRange (Nat.not_lt_zero index)
          | cons next covering =>
              have below := (List.pairwise_cons.mp ordered).1 next List.mem_cons_self
              exact .cons (Nat.le_trans first below) later

end Lists

section Log

variable {key : String} {before segment events : List LimiterEvent} {event : LimiterEvent}

theorem failedOf_concat
    : failedOf key (segment ++ [event])
      = failedOf key segment
        ++ if event.key = key ∧ event.kind = .failed then [event.time] else [] := by
  unfold failedOf
  rw [List.filter_append, List.map_append]
  by_cases isFailure : event.key = key ∧ event.kind = .failed
  · simp [isFailure]
  · simp [isFailure]

theorem failedSince_concat
    : failedSince key (events ++ [event])
      = if event.key ≠ key then failedSince key events
        else if event.kind = .failed then failedSince key events ++ [event.time]
        else if event.kind = .succeeded ∨ event.kind = .blocked then []
        else failedSince key events := by
  rw [failedSince, List.foldl_append]
  rfl

theorem failedSince_append (quiet : Quiet key segment)
    : failedSince key (before ++ segment) = failedSince key before ++ failedOf key segment := by
  induction segment using List.reverseRecOn with
  | nil => simp only [List.append_nil, failedOf, List.filter_nil, List.map_nil]
  | append_singleton segment event ih =>
      have quietStart : Quiet key segment := by
        intro other isIn
        exact quiet other (List.mem_append_left _ isIn)
      rw [← List.append_assoc, failedSince_concat, failedOf_concat, ih quietStart]
      by_cases same : event.key = key
      · obtain ⟨notSucceeded, notBlocked⟩ := quiet event (List.mem_append_right _ List.mem_cons_self) same
        by_cases isFailure : event.kind = .failed
        · simp only [same, isFailure, ne_eq, not_true_eq_false, if_false, if_true, and_self,
            List.append_assoc]
        · simp only [same, isFailure, notSucceeded, notBlocked, ne_eq, not_true_eq_false, if_false,
            or_self, and_false, List.append_nil]
      · simp only [same, ne_eq, not_false_eq_true, if_true, false_and, if_false, List.append_nil]

theorem mem_failedSince {time : ℕ} (isIn : time ∈ failedSince key events)
    : ∃ event ∈ events, event.key = key ∧ event.kind = .failed := by
  induction events using List.reverseRecOn with
  | nil => exact absurd isIn List.not_mem_nil
  | append_singleton events event ih =>
      have older (isOld : time ∈ failedSince key events)
          : ∃ other ∈ events ++ [event], other.key = key ∧ other.kind = .failed := by
        obtain ⟨other, isOther, facts⟩ := ih isOld
        exact ⟨other, List.mem_append_left _ isOther, facts⟩
      rw [failedSince_concat] at isIn
      split at isIn
      · exact older isIn
      rename_i same
      split at isIn
      · rename_i isFailure
        exact ⟨event, List.mem_append_right _ List.mem_cons_self, not_not.mp same, isFailure⟩
      split at isIn
      · exact absurd isIn List.not_mem_nil
      · exact older isIn

end Log

section Step

variable {limiter : AuthLimiter} {key : String} {entry entry' : Entry}
  {unresolved unresolved' : List ℕ} {now : ℕ} {events : List LimiterEvent} {event : LimiterEvent}

theorem dropStale_append (age : ℕ) (times : List ℕ)
    : ∃ dropped, times = dropped ++ dropStale now age times
      ∧ ∀ time ∈ dropped, time + age < now := by
  refine ⟨times.takeWhile (fun time => age < now - time), List.takeWhile_append_dropWhile.symm, ?_⟩
  intro time isDropped
  have stale := List.mem_takeWhile_imp isDropped
  rw [decide_eq_true_eq] at stale
  omega

theorem Invariant.change_pending (holds : Invariant limiter key entry unresolved now events)
    (later : now ≤ event.time)
    (change : KeyChange limiter key event entry unresolved entry' unresolved')
    : List.Forall₂ (· ≤ ·) unresolved' entry'.pending
      ∧ entry'.pending.Pairwise (· ≤ ·)
      ∧ (∀ time ∈ entry'.pending, time ≤ event.time)
      ∧ entry'.pending.length ≤ maxPending := by
  have past : ∀ time ∈ entry.pending, time ≤ event.time := by
    intro time isPending
    exact Nat.le_trans (holds.past time isPending) later
  have tail (index : ℕ) (isOpen : index < unresolved.length)
      : List.Forall₂ (· ≤ ·) (unresolved.eraseIdx index) entry.pending.tail
        ∧ entry.pending.tail.Pairwise (· ≤ ·)
        ∧ (∀ time ∈ entry.pending.tail, time ≤ event.time)
        ∧ entry.pending.tail.length ≤ maxPending := by
    refine ⟨covers_tail holds.covers holds.ordered isOpen, holds.ordered.tail, ?_, ?_⟩
    · intro time isPending
      exact past time (List.mem_of_mem_tail isPending)
    · rw [List.length_tail]
      exact Nat.le_trans (Nat.sub_le _ _) holds.few
  cases change with
  | other => exact ⟨holds.covers, holds.ordered, past, holds.few⟩
  | refused => exact ⟨holds.covers, holds.ordered, past, holds.few⟩
  | blocked => exact ⟨holds.covers, holds.ordered, past, holds.few⟩
  | full => exact ⟨holds.covers, holds.ordered, past, holds.few⟩
  | admitted unblocked few free =>
      refine ⟨List.rel_append holds.covers (.cons (Nat.le_refl _) .nil), ?_, ?_, ?_⟩
      · refine List.pairwise_append.mpr ⟨holds.ordered, List.pairwise_singleton _ _, ?_⟩
        intro time isPending last isLast
        rw [List.mem_singleton.mp isLast]
        exact past time isPending
      · intro time isIn
        obtain isPending | isNew := List.mem_append.mp isIn
        · exact past time isPending
        · exact Nat.le_of_eq (List.mem_singleton.mp isNew)
      · rw [List.length_append, List.length_singleton]
        exact free
  | failed isOpen => exact tail _ isOpen
  | succeeded isOpen => exact tail _ isOpen

theorem Invariant.log_pruned (holds : Invariant limiter key entry unresolved now events) {time : ℕ}
    (later : now ≤ time)
    : ∃ dropped, failedSince key events = dropped ++ dropStale time limiter.window entry.failures
      ∧ ∀ failure ∈ dropped, failure + limiter.window < time := by
  obtain ⟨dropped, split, old⟩ := holds.log
  obtain ⟨stale, parts, isStale⟩
      : ∃ stale, entry.failures = stale ++ dropStale time limiter.window entry.failures
        ∧ ∀ failure ∈ stale, failure + limiter.window < time :=
    dropStale_append limiter.window entry.failures
  refine ⟨dropped ++ stale, by rw [split, List.append_assoc, ← parts], ?_⟩
  intro failure isIn
  obtain isDropped | isIn := List.mem_append.mp isIn
  · exact Nat.lt_of_lt_of_le (old failure isDropped) later
  · exact isStale failure isIn

theorem failedOf_le {time : ℕ} {before segment : List LimiterEvent} {failures : List ℕ}
    (log : ∃ dropped, failedSince key events = dropped ++ failures
      ∧ ∀ failure ∈ dropped, failure + limiter.window < time)
    (parts : events = before ++ segment) (quiet : Quiet key segment)
    (recent : ∀ other ∈ segment, time ≤ other.time + limiter.window)
    : (failedOf key segment).length ≤ failures.length := by
  obtain ⟨dropped, split, old⟩ := log
  rw [parts, failedSince_append quiet] at split
  obtain ⟨middle, isDropped, isRecent⟩ | ⟨middle, _, isKept⟩ := List.append_eq_append_iff.mp split
  · have isNil : middle = [] := by
      by_contra some
      obtain ⟨failure, isIn⟩ := List.exists_mem_of_ne_nil middle some
      have tooOld := old failure (by rw [isDropped]; exact List.mem_append_right _ isIn)
      have isFailure : failure ∈ failedOf key segment := by
        rw [isRecent]
        exact List.mem_append_left _ isIn
      obtain ⟨other, isOther, rfl⟩ := List.mem_map.mp isFailure
      have young := recent other (List.mem_filter.mp isOther).1
      omega
    rw [isRecent, isNil, List.nil_append]
  · rw [isKept, List.length_append]
    exact Nat.le_add_left _ _

theorem Invariant.change_log (holds : Invariant limiter key entry unresolved now events)
    (later : now ≤ event.time)
    (change : KeyChange limiter key event entry unresolved entry' unresolved')
    : ∃ dropped, failedSince key (events ++ [event]) = dropped ++ entry'.failures
      ∧ ∀ time ∈ dropped, time + limiter.window < event.time := by
  obtain ⟨dropped, split, old⟩ := holds.log
  have older : ∀ time ∈ dropped, time + limiter.window < event.time := by
    intro time isDropped
    exact Nat.lt_of_lt_of_le (old time isDropped) later
  have pruned := holds.log_pruned later
  rw [failedSince_concat]
  cases change with
  | other different => exact ⟨dropped, by rw [if_pos different, split], older⟩
  | refused blocked => exact ⟨dropped, by simpa using split, older⟩
  | blocked unblocked many => exact ⟨[], by simp, by simp⟩
  | full unblocked => simpa using pruned
  | admitted unblocked few free => simpa using pruned
  | failed isOpen => exact ⟨dropped, by simp [split], older⟩
  | succeeded isOpen => exact ⟨[], by simp, by simp⟩

theorem Invariant.change_bound (positive : 0 < limiter.maxFailures)
    (holds : Invariant limiter key entry unresolved now events) (later : now ≤ event.time)
    (change : KeyChange limiter key event entry unresolved entry' unresolved')
    : ∀ before segment, events ++ [event] = before ++ segment
      → Quiet key segment
      → (∀ other ∈ segment, event.time ≤ other.time + limiter.window)
      → (failedOf key segment).length + entry'.pending.length
        ≤ limiter.maxFailures + maxPending - 1 := by
  intro before segment parts quiet recent
  have few := (holds.change_pending later change).2.2.2
  obtain isNil | ⟨start, isStart, events⟩ := append_concat_cases parts
  · rw [isNil]
    simp only [failedOf, List.filter_nil, List.map_nil, List.length_nil]
    omega
  have quietStart : Quiet key start := by
    intro other isIn
    exact quiet other (by rw [isStart]; exact List.mem_append_left _ isIn)
  have recentStart : ∀ other ∈ start, event.time ≤ other.time + limiter.window := by
    intro other isIn
    exact recent other (by rw [isStart]; exact List.mem_append_left _ isIn)
  have before := holds.bound before start events quietStart (by
    intro other isIn
    exact Nat.le_trans later (recentStart other isIn))
  have isLast : event ∈ segment := by
    rw [isStart]
    exact List.mem_append_right _ List.mem_cons_self
  rw [isStart, failedOf_concat]
  cases change with
  | other different => simpa [different] using before
  | refused blocked => simpa using before
  | blocked unblocked many => exact absurd rfl (quiet _ isLast rfl).2
  | full unblocked => simpa using before
  | admitted unblocked fewFailures free =>
      have counted := failedOf_le (holds.log_pruned later) events quietStart recentStart
      dsimp only at counted
      simp only [reduceCtorEq, and_false, if_false, List.append_nil, List.length_append,
        List.length_singleton]
      omega
  | failed isOpen =>
      have some : 0 < entry.pending.length := by
        rw [← holds.covers.length_eq]
        exact Nat.zero_lt_of_lt isOpen
      simp only [and_self, if_true, List.length_append, List.length_singleton, List.length_tail]
      omega
  | succeeded isOpen => exact absurd rfl (quiet _ isLast rfl).1

/-- While a block lasts, no answer but a refusal comes. -/
theorem Invariant.change_blocked (holds : Invariant limiter key entry unresolved now events)
    (later : now ≤ event.time)
    (change : KeyChange limiter key event entry unresolved entry' unresolved')
    : ∀ before (blocked : LimiterEvent) after, events ++ [event] = before ++ blocked :: after
      → blocked.key = key → blocked.kind = .blocked
      → (∀ other ∈ after, other.key = key → other.kind ≠ .succeeded)
      → ((∃ time, entry'.blockedUntil = some time ∧ blocked.time + limiter.block ≤ time)
          ∨ blocked.time + limiter.block ≤ event.time)
        ∧ ∀ other ∈ after, other.key = key → other.kind.IsAnswer
          → other.time < blocked.time + limiter.block → other.kind = .refused := by
  intro before blocked after parts sameKey isBlocked noSuccess
  have regrouped : events ++ [event] = (before ++ [blocked]) ++ after := by
    rw [parts, List.append_assoc, List.singleton_append]
  obtain isNil | ⟨start, isStart, older⟩ := append_concat_cases regrouped
  · -- The block is new.
    rw [isNil, List.append_nil] at regrouped
    have sameEvent : event = blocked := (List.append_singleton_inj.mp regrouped).2
    subst sameEvent
    rw [isNil]
    refine ⟨?_, fun _ isIn => absurd isIn List.not_mem_nil⟩
    cases change with
    | blocked unblocked many => exact .inl ⟨_, rfl, Nat.le_refl _⟩
    | _ => contradiction
  have old : events = before ++ blocked :: start := by
    rw [older, List.append_assoc, List.singleton_append]
  have noSuccessStart : ∀ other ∈ start, other.key = key → other.kind ≠ .succeeded := by
    intro other isIn
    exact noSuccess other (by rw [isStart]; exact List.mem_append_left _ isIn)
  have isLast : event ∈ after := by
    rw [isStart]
    exact List.mem_append_right _ List.mem_cons_self
  have lasting : (∃ time, entry.blockedUntil = some time ∧ blocked.time + limiter.block ≤ time)
      ∨ blocked.time + limiter.block ≤ event.time := by
    obtain lasts | past := holds.blocked before blocked start old sameKey isBlocked noSuccessStart
    · exact .inl lasts
    · exact .inr (Nat.le_trans past later)
  have passed (unblocked : entry.isBlocked event.time = false)
      : blocked.time + limiter.block ≤ event.time := by
    obtain ⟨time, isUntil, bound⟩ | past := lasting
    · simp only [Entry.isBlocked, isUntil, Option.any_some, decide_eq_false_iff_not] at unblocked
      omega
    · exact past
  constructor
  · cases change with
    | other different => exact lasting
    | refused isStill => exact lasting
    | blocked unblocked many => exact .inr (passed unblocked)
    | full unblocked => exact .inr (passed unblocked)
    | admitted unblocked few free => exact .inr (passed unblocked)
    | failed isOpen => exact lasting
    | succeeded isOpen => exact absurd rfl (noSuccess _ isLast rfl)
  · intro other isOther otherKey isAnswer inTime
    rw [isStart] at isOther
    obtain isOld | isNew := List.mem_append.mp isOther
    · exact holds.throttled.refused before blocked start old sameKey isBlocked noSuccessStart other
        isOld otherKey isAnswer inTime
    rw [List.mem_singleton.mp isNew] at otherKey isAnswer inTime ⊢
    cases change with
    | other different => exact absurd otherKey different
    | refused isStill => rfl
    | blocked unblocked many => exact absurd (passed unblocked) (Nat.not_le.mpr inTime)
    | full unblocked => exact absurd (passed unblocked) (Nat.not_le.mpr inTime)
    | admitted unblocked few free => exact absurd (passed unblocked) (Nat.not_le.mpr inTime)
    | failed isOpen => exact absurd rfl isAnswer.1
    | succeeded isOpen => exact absurd rfl isAnswer.2

theorem Invariant.change_fresh (positive : 0 < limiter.maxFailures)
    (holds : Invariant limiter key entry unresolved now events)
    (change : KeyChange limiter key event entry unresolved entry' unresolved')
    (noFailure : ∀ other ∈ events ++ [event], other.key = key → other.kind ≠ .failed)
    : entry'.blockedUntil = none
      ∧ ∀ other ∈ events ++ [event], other.key = key → other.kind ≠ .blocked ∧ other.kind ≠ .refused := by
  have noneBefore : ∀ other ∈ events, other.key = key → other.kind ≠ .failed := by
    intro other isOther
    exact noFailure other (List.mem_append_left _ isOther)
  have free := holds.fresh noneBefore
  have noFailures : entry.failures = [] := by
    by_contra some
    obtain ⟨failure, isFailure⟩ := List.exists_mem_of_ne_nil _ some
    obtain ⟨dropped, split, _⟩ := holds.log
    have isLogged : failure ∈ failedSince key events := by
      rw [split]
      exact List.mem_append_right _ isFailure
    obtain ⟨other, isOther, sameKey, failed⟩ := mem_failedSince isLogged
    exact noneBefore other isOther sameKey failed
  have unblocked : entry.isBlocked event.time = false := by
    simp only [Entry.isBlocked, free, Option.any_none]
  have before := holds.throttled.unblocked noneBefore
  have extended (harmless : event.key = key → event.kind ≠ .blocked ∧ event.kind ≠ .refused)
      : ∀ other ∈ events ++ [event], other.key = key
        → other.kind ≠ .blocked ∧ other.kind ≠ .refused := by
    intro other isOther
    obtain isOld | isNew := List.mem_append.mp isOther
    · exact before other isOld
    · rw [List.mem_singleton.mp isNew]
      exact harmless
  cases change with
  | other different => exact ⟨free, extended fun same => absurd same different⟩
  | refused isBlocked =>
      rw [unblocked] at isBlocked
      cases isBlocked
  | blocked unblocked many =>
      rw [noFailures] at many
      exact absurd many (Nat.not_le.mpr positive)
  | full unblocked => exact ⟨rfl, extended fun _ => ⟨nofun, nofun⟩⟩
  | admitted unblocked few room => exact ⟨rfl, extended fun _ => ⟨nofun, nofun⟩⟩
  | failed isOpen => exact ⟨free, extended fun _ => ⟨nofun, nofun⟩⟩
  | succeeded isOpen => exact ⟨rfl, extended fun _ => ⟨nofun, nofun⟩⟩

theorem Invariant.change (positive : 0 < limiter.maxFailures)
    (holds : Invariant limiter key entry unresolved now events) (later : now ≤ event.time)
    (change : KeyChange limiter key event entry unresolved entry' unresolved')
    : Invariant limiter key entry' unresolved' event.time (events ++ [event]) := by
  obtain ⟨covers, ordered, past, few⟩ := holds.change_pending later change
  have bound := holds.change_bound positive later change
  refine ⟨covers, ordered, past, few, holds.change_log later change, bound, ?_, ?_, ?_⟩
  · intro before blocked after parts sameKey isBlocked noSuccess
    exact (holds.change_blocked later change before blocked after parts sameKey isBlocked noSuccess).1
  · intro noFailure
    exact (holds.change_fresh positive change noFailure).1
  constructor
  case inFlight => exact covers.length_eq ▸ few
  case counted =>
    intro before segment after parts quiet spanned
    obtain isNil | ⟨start, _, older⟩ := append_concat_cases parts
    · rw [isNil, List.append_nil] at parts
      obtain empty | ⟨inner, isInner, _⟩ := append_concat_cases parts
      · rw [empty]
        exact Nat.zero_le _
      · have isLast : event ∈ segment := by
          rw [isInner]
          exact List.mem_append_right _ List.mem_cons_self
        have counted := bound before segment parts quiet fun other isIn => spanned other isIn event isLast
        omega
    · exact holds.throttled.counted before segment start older quiet spanned
  case refused =>
    intro before blocked after parts sameKey isBlocked noSuccess
    exact (holds.change_blocked later change before blocked after parts sameKey isBlocked noSuccess).2
  case unblocked =>
    intro noFailure
    exact (holds.change_fresh positive change noFailure).2

theorem Invariant.start
    : Invariant limiter key (entryOf start.table key) (start.unresolved key) start.now start.events := by
  have noSplit {before after : List LimiterEvent} {blocked : LimiterEvent}
      (parts : [] = before ++ blocked :: after)
      : False := by
    cases before <;> cases parts
  refine ⟨.nil, .nil, nofun, Nat.zero_le _, ⟨[], rfl, nofun⟩, ?_, ?_, fun _ => rfl, ?_⟩
  · intro before segment parts _ _
    rw [(List.append_eq_nil_iff.mp parts.symm).2]
    exact Nat.zero_le _
  · intro before blocked after parts
    exact (noSplit parts).elim
  · refine ⟨Nat.zero_le _, ?_, ?_, nofun⟩
    · intro before segment after parts _ _
      obtain ⟨front, _⟩ := List.append_eq_nil_iff.mp parts.symm
      rw [(List.append_eq_nil_iff.mp front).2]
      exact Nat.zero_le _
    · intro before blocked after parts
      exact (noSplit parts).elim

theorem Invariant.steps (positive : 0 < limiter.maxFailures) {calls : List (LimiterCall × ℕ)}
    {run : LimiterRun} (orderly : run.Orderly limiter calls)
    (holds : Invariant limiter key (entryOf run.table key) (run.unresolved key) run.now run.events)
    : let after := run.steps limiter calls
      Invariant limiter key (entryOf after.table key) (after.unresolved key) after.now after.events := by
  induction calls generalizing run with
  | nil => exact holds
  | cons first calls ih =>
      obtain ⟨call, now⟩ := first
      obtain ⟨later, timely, room, rest⟩ := orderly
      refine ih rest ?_
      dsimp only
      obtain same | ⟨sameNow, event, events, rfl, change⟩ :=
        @step_change limiter _ _ _ key room timely holds.covers
      · rw [same]
        exact holds
      · rw [sameNow, events]
        exact holds.change positive later change

end Step

-- Runs

/-- In an orderly run of calls each key is throttled; a block lasts until a check of its key that
was still open succeeds.
-/
theorem steps_throttled {limiter : AuthLimiter} (positive : 0 < limiter.maxFailures)
    {calls : List (LimiterCall × ℕ)} (orderly : start.Orderly limiter calls) (key : String)
    : Throttled limiter key ((start.steps limiter calls).unresolved key)
      (start.steps limiter calls).events :=
  (Invariant.steps positive orderly .start).throttled

/-- Nine checks fail, two more are admitted, the first of them fails, the key is blocked, and then
the second one succeeds.
-/
def liftedBlock : List (LimiterCall × ℕ) :=
  (List.replicate 9 [(.allow "ip:eve", second), (.failure "ip:eve" 0, second)]).flatten
    ++ [
      (.allow "ip:eve", 2 * second),
      (.allow "ip:eve", 2 * second),
      (.failure "ip:eve" 0, 3 * second),
      (.allow "ip:eve", 3 * second),
      (.success "ip:eve" 0, 4 * second),
      (.allow "ip:eve", 5 * second)
    ]

theorem steps_throttled_liftedBlock
    : Throttled .default "ip:eve" ((start.steps .default liftedBlock).unresolved "ip:eve")
      (start.steps .default liftedBlock).events :=
  steps_throttled (by decide) (by decide +kernel) "ip:eve"

/-- The success lifts the block: two seconds after it began the key is admitted. -/
theorem not_refused_liftedBlock
    : start.Orderly .default liftedBlock
      ∧ ¬ ∀ before (blocked : LimiterEvent) after,
        (start.steps .default liftedBlock).events = before ++ blocked :: after
          → blocked.kind = .blocked
          → ∀ event ∈ after, event.key = blocked.key → event.kind.IsAnswer
            → event.time < blocked.time + AuthLimiter.default.block → event.kind = .refused := by
  refine ⟨by decide +kernel, ?_⟩
  intro refused
  have parts : (start.steps .default liftedBlock).events
      = (start.steps .default liftedBlock).events.take 21
        ++ ⟨"ip:eve", .blocked, 3 * second⟩
          :: [⟨"ip:eve", .succeeded, 4 * second⟩, ⟨"ip:eve", .admitted, 5 * second⟩] := by
    decide +kernel
  have isRefused := refused _ _ _ parts rfl ⟨"ip:eve", .admitted, 5 * second⟩
    (List.mem_cons_of_mem _ List.mem_cons_self) rfl ⟨nofun, nofun⟩ (by decide)
  cases isRefused

end LimiterRun

end MokuroBunko.Http
