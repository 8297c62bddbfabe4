import MokuroBunko.Lib.Runs
import MokuroBunko.Server.UpdateService
import Mathlib.Algebra.Order.Ring.Nat
import Mathlib.Data.List.Sort
import Mathlib.Data.Set.Lattice

/-! Trying a release again (`Retry` of `auto.rs`), over whole runs of calls.
-/

namespace MokuroBunko.Server.Update

open MokuroBunko.Lib

namespace Retry

-- Calls of it

/-- A call of `Retry`. -/
inductive Call where
  | failed (version error : String) (now : ℕ)
  | succeeded
  | mayTry (version : String) (now : ℕ)
  deriving DecidableEq

/-- When the call is made, where it says so. -/
def Call.time : Call → Option ℕ
  | .failed _ _ now => some now
  | .succeeded => none
  | .mayTry _ now => some now

/-- What a call leaves. -/
def step (first : ℕ) (retry : Retry) : Call → Retry
  | .failed version error now => retry.failed first version error now
  | .succeeded => retry.succeeded
  | .mayTry _ _ => retry

/-- What a run of calls leaves of a fresh record. -/
def after (first : ℕ) (run : List Call) : Retry := run.foldl (step first) {}

/-- The wait `failed` answers with, after the calls before it. -/
def waitOf (first : ℕ) (before : List Call) (version error : String) (now : ℕ) : ℕ :=
  waitAfter ((after first before).failed first version error now).failures first

/-- The times of a run do not go back. -/
def Timely (run : List Call) : Prop := (run.filterMap Call.time).Pairwise (· ≤ ·)

/-- A release that failed is not tried before its wait is over, unless one succeeded meanwhile. -/
def NeverEarly (first : ℕ) (run : List Call) : Prop :=
  ∀ before between rest : List Call, ∀ (version error : String) (failedAt now : ℕ),
    run = before ++ .failed version error failedAt :: (between ++ .mayTry version now :: rest) →
    Call.succeeded ∉ between →
    now < failedAt + waitOf first before version error failedAt →
    (after first (before ++ .failed version error failedAt :: between)).mayTry version now = false

/-- The waits of one version's failures in a row do not shrink. -/
def WaitsGrow (first : ℕ) (run : List Call) : Prop :=
  ∀ before between rest : List Call, ∀ (version error again : String) (failedAt now : ℕ),
    run = before ++ .failed version error failedAt
      :: (between ++ .failed version again now :: rest) →
    (∀ call ∈ between, ∃ asked time, call = .mayTry asked time) →
    waitOf first before version error failedAt
      ≤ waitOf first (before ++ .failed version error failedAt :: between) version again now

/-- No wait is longer than the longest, or than the first where that is longer still. -/
def WaitsBounded (first : ℕ) (run : List Call) : Prop :=
  ∀ before rest : List Call, ∀ (version error : String) (now : ℕ),
    run = before ++ .failed version error now :: rest →
    waitOf first before version error now ≤ max longest first

/-- A failure that takes the record from another version comes when that one's wait is over, and
the count of failures in a row stays within 32 bits. -/
def Spaced (retry : Retry) : Call → Prop
  | .failed version _ now =>
      (retry.version ≠ some version → ∀ time ∈ retry.notBefore, time ≤ now)
      ∧ (retry.version = some version → retry.failures + 1 < 2 ^ 32)
  | .succeeded => True
  | .mayTry _ _ => True

theorem waitAfter_mono (first : ℕ) {fewer more : ℕ} (le : fewer ≤ more)
    : waitAfter fewer first ≤ waitAfter more first := by
  have power : 2 ^ min (fewer - 1) 16 ≤ 2 ^ min (more - 1) 16 :=
    Nat.pow_le_pow_right (by omega) (by omega)
  exact min_le_min_right _ (Nat.mul_le_mul_left first power)

theorem waitAfter_le (number first : ℕ) : waitAfter number first ≤ max longest first :=
  min_le_right ..

/-- The record holds a version back until a time, and its next failure waits as long at least. -/
structure HoldsBack (first : ℕ) (version : String) (wait time : ℕ) (retry : Retry) : Prop where
  version : retry.version = some version
  wait : wait ≤ waitAfter retry.failures first
  time : ∃ recorded, retry.notBefore = some recorded ∧ time ≤ recorded

theorem HoldsBack.mayTry {first wait time now : ℕ} {version : String} {retry : Retry}
    (held : HoldsBack first version wait time retry) (early : now < time)
    : retry.mayTry version now = false := by
  obtain ⟨recorded, known, le⟩ := held.time
  simp [Retry.mayTry, held.version, known, early.trans_le le]

theorem failed_holdsBack (first : ℕ) (retry : Retry) (version error : String) (now : ℕ)
    : HoldsBack first version (waitAfter (retry.failed first version error now).failures first)
        (now + waitAfter (retry.failed first version error now).failures first)
        (retry.failed first version error now) :=
  ⟨rfl, le_rfl, _, rfl, le_rfl⟩

theorem failures_failed {retry : Retry} {version error : String} {first now : ℕ}
    (same : retry.version = some version) (room : retry.failures + 1 < 2 ^ 32)
    : (retry.failed first version error now).failures = retry.failures + 1 := by
  simp only [failed, same, if_true]
  exact Nat.mod_eq_of_lt room

theorem HoldsBack.failed {first wait now failedAt : ℕ} {version other error : String} {retry : Retry}
    (held : HoldsBack first version wait (failedAt + wait) retry) (later : failedAt ≤ now)
    (spaced : Spaced retry (.failed other error now))
    : HoldsBack first version wait (failedAt + wait) (retry.failed first other error now)
      ∨ failedAt + wait ≤ now := by
  by_cases same : other = version
  · subst same
    left
    have counted : (retry.failed first other error now).failures = retry.failures + 1 :=
      failures_failed held.version (spaced.2 held.version)
    have longer : wait ≤ waitAfter (retry.failed first other error now).failures first := by
      rw [counted]
      exact held.wait.trans (waitAfter_mono first (by omega))
    exact ⟨rfl, longer, _, rfl, Nat.add_le_add later longer⟩
  · right
    obtain ⟨recorded, known, le⟩ := held.time
    have others : retry.version ≠ some other := by
      rw [held.version]
      exact fun eq => same (Option.some.inj eq).symm
    exact le.trans (spaced.1 others recorded known)

theorem HoldsBack.run {first wait failedAt : ℕ} {version : String} {run : List Call} {retry : Retry}
    (held : HoldsBack first version wait (failedAt + wait) retry)
    (spaced : Runs.Orderly (step first) Spaced retry run) (none : Call.succeeded ∉ run)
    (later : ∀ now ∈ run.filterMap Call.time, failedAt ≤ now)
    : HoldsBack first version wait (failedAt + wait) (run.foldl (step first) retry)
      ∨ ∃ now ∈ run.filterMap Call.time, failedAt + wait ≤ now := by
  induction run generalizing retry with
  | nil => exact .inl held
  | cons call rest ih =>
      have noneLater : Call.succeeded ∉ rest := fun isIn => none (.tail _ isIn)
      cases call with
      | succeeded => exact absurd (List.mem_cons_self ..) none
      | mayTry asked now =>
          have later' : ∀ now ∈ rest.filterMap Call.time, failedAt ≤ now :=
            fun now isIn => later now (.tail _ isIn)
          rcases ih held spaced.2 noneLater later' with kept | ⟨time, isIn, le⟩
          · exact .inl kept
          · exact .inr ⟨time, .tail _ isIn, le⟩
      | failed other error now =>
          have later' : ∀ now ∈ rest.filterMap Call.time, failedAt ≤ now :=
            fun now isIn => later now (.tail _ isIn)
          rcases held.failed (later now (.head _)) spaced.1 with kept | passed
          · rcases ih kept spaced.2 noneLater later' with kept | ⟨time, isIn, le⟩
            · exact .inl kept
            · exact .inr ⟨time, .tail _ isIn, le⟩
          · exact .inr ⟨now, .head _, passed⟩

theorem after_append (first : ℕ) (before run : List Call)
    : after first (before ++ run) = run.foldl (step first) (after first before) := by
  simp [after]

theorem Timely.later {before rest : List Call} {call : Call} {failedAt now : ℕ}
    (timely : Timely (before ++ call :: rest)) (time : call.time = some failedAt)
    (isIn : now ∈ rest.filterMap Call.time)
    : failedAt ≤ now := by
  rw [Timely, List.filterMap_append, List.filterMap_cons_some time] at timely
  exact List.rel_of_pairwise_cons (List.pairwise_append.mp timely).2.1 isIn

theorem neverEarly_of_spaced {first : ℕ} {run : List Call} (timely : Timely run)
    (spaced : Runs.Orderly (step first) Spaced {} run)
    : NeverEarly first run := by
  rintro before between rest version error failedAt now rfl none early
  have following : Runs.Orderly (step first) Spaced
      ((after first before).failed first version error failedAt) between :=
    (Runs.orderly_append.mp (Runs.orderly_append.mp spaced).2.2).1
  have later : ∀ time ∈ between.filterMap Call.time, failedAt ≤ time := by
    intro time isIn
    refine timely.later rfl ?_
    rw [List.filterMap_append]
    exact List.mem_append_left _ isIn
  have state : after first (before ++ .failed version error failedAt :: between)
      = between.foldl (step first) ((after first before).failed first version error failedAt) := by
    rw [after_append]
    rfl
  rw [state]
  rcases (failed_holdsBack first (after first before) version error failedAt).run
      following none later with held | ⟨time, isIn, le⟩
  · exact held.mayTry early
  · -- The wait was over at a call before this one.
    have before' : time ≤ now := by
      have split : before ++ .failed version error failedAt :: (between ++ .mayTry version now :: rest)
          = (before ++ .failed version error failedAt :: between) ++ .mayTry version now :: rest := by
        simp
      rw [split, Timely, List.filterMap_append, List.pairwise_append] at timely
      refine timely.2.2 time ?_ now (List.mem_cons_self ..)
      rw [List.filterMap_append]
      exact List.mem_append_right _ (List.mem_cons_of_mem _ isIn)
    have waits : failedAt + waitOf first before version error failedAt ≤ time := le
    omega

theorem asked_run {first : ℕ} {run : List Call}
    (asks : ∀ call ∈ run, ∃ asked time, call = .mayTry asked time) (retry : Retry)
    : run.foldl (step first) retry = retry := by
  induction run generalizing retry with
  | nil => rfl
  | cons call rest ih =>
      obtain ⟨asked, time, rfl⟩ := asks call (.head _)
      exact ih (fun call isIn => asks call (.tail _ isIn)) retry

theorem waitsGrow_of_spaced {first : ℕ} {run : List Call}
    (spaced : Runs.Orderly (step first) Spaced {} run)
    : WaitsGrow first run := by
  rintro before between rest version error again failedAt now rfl asks
  have state : after first (before ++ .failed version error failedAt :: between)
      = (after first before).failed first version error failedAt := by
    rw [after_append]
    exact asked_run asks _
  have reached := (Runs.orderly_append.mp (Runs.orderly_append.mp spaced).2.2).2.1
  rw [asked_run asks] at reached
  have counted : (((after first before).failed first version error failedAt).failed first version
      again now).failures = ((after first before).failed first version error failedAt).failures + 1 :=
    failures_failed rfl (reached.2 rfl)
  rw [waitOf, waitOf, state, counted]
  exact waitAfter_mono first (Nat.le_succ _)

/-- Spaced calls hold every release that failed back, and their waits grow up to the longest. -/
theorem retries_of_spaced (first : ℕ) (run : List Call) (timely : Timely run)
    (spaced : Runs.Orderly (step first) Spaced {} run)
    : NeverEarly first run ∧ WaitsGrow first run ∧ WaitsBounded first run :=
  ⟨neverEarly_of_spaced timely spaced, waitsGrow_of_spaced spaced, fun _ _ _ _ _ _ => waitAfter_le ..⟩

/-- Two releases fail in turn: the second's failure lets the first be tried at once. -/
theorem retries_flip
    : Timely [.failed "1.1.0" "broken" 0, .failed "1.2.0" "broken" 1, .mayTry "1.1.0" 2]
      ∧ ¬NeverEarly 600000000000
          [.failed "1.1.0" "broken" 0, .failed "1.2.0" "broken" 1, .mayTry "1.1.0" 2] := by
  refine ⟨by simp [Timely, Call.time], fun never => ?_⟩
  have early := never [] [.failed "1.2.0" "broken" 1] [] "1.1.0" "broken" 0 2 rfl (by simp) (by decide)
  exact absurd early (by decide)

theorem retries_of_spaced_here
    : NeverEarly 600000000000 [.failed "1.1.0" "broken" 0, .mayTry "1.1.0" 2]
      ∧ WaitsGrow 600000000000 [.failed "1.1.0" "broken" 0, .mayTry "1.1.0" 2]
      ∧ WaitsBounded 600000000000 [.failed "1.1.0" "broken" 0, .mayTry "1.1.0" 2] :=
  retries_of_spaced 600000000000 [.failed "1.1.0" "broken" 0, .mayTry "1.1.0" 2]
    (by simp [Timely, Call.time]) (by simp [Runs.Orderly, Spaced])

end Retry

end MokuroBunko.Server.Update
