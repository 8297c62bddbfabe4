import MokuroBunko.Control.Pause
import MokuroBunko.Lib.Runs

/-! The pause in force in the processor's hub. The owner's pause arrives through a watcher; an update
drains the hub with a pause of its own and ends it with the owner's. Each of the three decides first
and applies later.
-/

namespace MokuroBunko.Processor

open MokuroBunko.Control MokuroBunko.Lib

/-- The task of `watch_pause`. -/
inductive Watcher where
  | idle
  | read (state : Option PauseState)
  /-- Past the check of `draining`. -/
  | checked (state : Option PauseState)

/-- A `drain_for_update` that has set the flag, or has found no `now` in force too. -/
inductive DrainCall where
  | flagged
  | applying
  deriving DecidableEq

/-- An `end_drain` that has cleared the flag, or has read the owner's pause too. -/
inductive EndCall where
  | flagged
  | applying (owner : Option PauseState)

structure HubRun where
  /-- The channel of the owner's pause, and how often it has changed. -/
  owner : Option PauseState
  version : ℕ
  /-- The version that the watcher has read. -/
  seen : ℕ
  watcher : Watcher
  draining : Bool
  paused : Option PauseMode
  drains : List DrainCall
  ends : List EndCall

inductive HubStep where
  | pause (request : PauseRequest)
  | resume
  | watcherReads
  | watcherChecks
  | watcherApplies
  | drainForUpdate
  | drainReads (index : ℕ)
  | drainApplies (index : ℕ)
  | endDrain
  | endReads (index : ℕ)
  | endApplies (index : ℕ)

def Watcher.held : Watcher → Option (Option PauseState)
  | .checked state => some state
  | _ => none

/-- What the watcher has read and not yet applied. -/
def Watcher.pending : Watcher → Option (Option PauseState)
  | .idle => none
  | .read state => some state
  | .checked state => some state

def EndCall.owner : EndCall → Option (Option PauseState)
  | .flagged => none
  | .applying owner => some owner

namespace HubRun

/-- `Hub::new`: the pause that the owner has is in force before the watcher starts. -/
def start (owner : Option PauseState) : HubRun where
  owner := owner
  version := 0
  seen := 0
  watcher := .idle
  draining := false
  paused := owner.map PauseState.mode
  drains := []
  ends := []

def applyPause (run : HubRun) (state : Option PauseState) : HubRun :=
  { run with paused := state.map PauseState.mode }

/-- Whether an op that brings work is taken. -/
def takesWork (run : HubRun) (installing : Bool) : Bool := run.paused.isNone && !installing

def step (run : HubRun) : HubStep → HubRun
  | .pause request =>
      { run with owner := some (request.state run.owner), version := run.version + 1 }
  | .resume =>
      match run.owner with
      | none => run
      | some _ => { run with owner := none, version := run.version + 1 }
  | .watcherReads =>
      match run.watcher with
      | .idle =>
          if run.seen < run.version then
            { run with seen := run.version, watcher := .read run.owner }
          else run
      | _ => run
  | .watcherChecks =>
      match run.watcher with
      | .read state =>
          if run.draining ∧ state.map PauseState.mode ≠ some .now then { run with watcher := .idle }
          else { run with watcher := .checked state }
      | _ => run
  | .watcherApplies =>
      match run.watcher with
      | .checked state => { run.applyPause state with watcher := .idle }
      | _ => run
  | .drainForUpdate =>
      if run.draining then run
      else { run with draining := true, drains := run.drains ++ [.flagged] }
  | .drainReads index =>
      match run.drains[index]? with
      | some .flagged =>
          if run.paused = some .now then { run with drains := run.drains.eraseIdx index }
          else { run with drains := run.drains.set index .applying }
      | _ => run
  | .drainApplies index =>
      match run.drains[index]? with
      | some .applying =>
          { run with drains := run.drains.eraseIdx index, paused := some .afterVolume }
      | _ => run
  | .endDrain =>
      if run.draining then { run with draining := false, ends := run.ends ++ [.flagged] } else run
  | .endReads index =>
      match run.ends[index]? with
      | some .flagged => { run with ends := run.ends.set index (.applying run.owner) }
      | _ => run
  | .endApplies index =>
      match run.ends[index]? with
      | some (.applying owner) =>
          { run.applyPause owner with ends := run.ends.eraseIdx index }
      | _ => run

/-- No call is under way, and the watcher has read the owner's last change and is done with it. -/
structure AtRest (run : HubRun) : Prop where
  drains : run.drains = []
  ends : run.ends = []
  watcher : run.watcher = .idle
  seen : run.seen = run.version

structure Kept (run : HubRun) : Prop where
  drained : run.draining → run.drains = [] → ∀ installing, run.takesWork installing = false
  owned : run.AtRest → run.draining = false → run.paused = run.owner.map PauseState.mode

/-- The watcher has yet to apply the owner's pause as it is now. -/
def Behind (run : HubRun) : Prop :=
  run.seen < run.version ∨ run.watcher.pending = some run.owner

instance (run : HubRun) : Decidable run.Behind := inferInstanceAs (Decidable (_ ∨ _))

/-- A decision that has become wrong before it is applied will be put right: a lifted pause is applied
in a drain only before the drain's own, and what is not the owner's pause is applied outside a drain
only before the owner's.
-/
def Meets (run : HubRun) : HubStep → Prop
  | .watcherApplies => run.draining → run.watcher.held = some none → run.drains ≠ []
  | .drainApplies _ => run.draining ∨ run.ends ≠ [] ∨ run.Behind
  | .endApplies index =>
      ∀ owner ∈ run.ends[index]?.bind EndCall.owner,
        (run.draining → owner = none → run.drains ≠ [])
          ∧ (run.draining ∨ owner = run.owner ∨ 1 < run.ends.length ∨ run.Behind)
  | _ => True

instance (run : HubRun) : ∀ taken, Decidable (run.Meets taken)
  | .watcherApplies => inferInstanceAs (Decidable (_ → _ → _))
  | .drainApplies _ => inferInstanceAs (Decidable (_ ∨ _))
  | .endApplies index =>
      inferInstanceAs (Decidable (∀ owner ∈ run.ends[index]?.bind EndCall.owner, _))
  | .pause _ | .resume | .watcherReads | .watcherChecks | .drainForUpdate | .drainReads _ | .endDrain
  | .endReads _ =>
      isTrue trivial

-- The invariant

structure Invariant (run : HubRun) : Prop where
  seen : run.seen ≤ run.version
  pending : ∀ state ∈ run.watcher.pending, run.seen = run.version → state = run.owner
  drained : run.draining → run.drains = [] → run.paused ≠ none
  owned
    : run.draining = false → run.ends = []
      → run.Behind ∨ run.paused = run.owner.map PauseState.mode

section Steps

variable {run : HubRun}

theorem start_invariant (owner : Option PauseState) : (start owner).Invariant where
  seen := Nat.le_refl 0
  pending := by
    intro state isPending
    cases isPending
  drained := by
    intro draining
    cases draining
  owned := fun _ _ => .inr rfl

theorem changed_invariant (holds : run.Invariant) (owner : Option PauseState)
    : ({ run with owner, version := run.version + 1 } : HubRun).Invariant := by
  have seen := holds.seen
  refine { holds with seen := by dsimp only; omega, pending := ?_, owned := ?_ }
  · intro state _ same
    dsimp only at same
    omega
  · intro _ _
    refine .inl (.inl ?_)
    dsimp only
    omega

theorem step_resume (holds : run.Invariant) : (run.step .resume).Invariant := by
  simp only [step]
  split
  · exact holds
  · exact changed_invariant holds none

theorem step_watcherReads (holds : run.Invariant) : (run.step .watcherReads).Invariant := by
  simp only [step]
  split
  case h_2 => exact holds
  split
  case isFalse => exact holds
  refine { holds with seen := Nat.le_refl run.version, pending := ?_, owned := ?_ }
  · intro state isPending _
    exact (Option.some.inj isPending).symm
  · intro _ _
    exact .inl (.inr rfl)

theorem step_watcherChecks (holds : run.Invariant) : (run.step .watcherChecks).Invariant := by
  simp only [step]
  split
  case h_2 => exact holds
  rename_i state isRead
  split
  · rename_i skips
    refine { holds with pending := ?_, owned := ?_ }
    · intro other isPending
      cases isPending
    · intro ended
      exact absurd skips.1 (Bool.eq_false_iff.mp ended)
  · refine { holds with pending := ?_, owned := ?_ }
    · intro other isPending
      apply holds.pending
      rw [isRead]
      exact isPending
    · intro ended quiet
      obtain behind | same := holds.owned ended quiet
      · refine .inl ?_
        rwa [Behind, isRead] at behind
      · exact .inr same

theorem step_watcherApplies (holds : run.Invariant) (meets : run.Meets .watcherApplies)
    : (run.step .watcherApplies).Invariant := by
  simp only [step]
  split
  case h_2 => exact holds
  rename_i state isChecked
  refine { holds with pending := ?_, drained := ?_, owned := ?_ }
  · intro other isPending
    cases isPending
  · intro draining quiet lifted
    refine meets draining ?_ quiet
    rw [isChecked, Watcher.held, Option.map_eq_none_iff.mp lifted]
  · -- What the watcher applies is the owner's, or there is more for it to read.
    intro _ _
    by_cases behind : run.seen < run.version
    · exact .inl (.inl behind)
    · have seen := holds.seen
      have same := holds.pending state (by rw [isChecked]; rfl) (by omega)
      exact .inr (congrArg (Option.map PauseState.mode) same)

theorem step_drainForUpdate (holds : run.Invariant) : (run.step .drainForUpdate).Invariant := by
  simp only [step]
  split
  · exact holds
  refine { holds with drained := ?_, owned := ?_ }
  · intro _ quiet
    simp at quiet
  · intro ended
    cases ended

theorem step_drainReads (holds : run.Invariant) (index : ℕ)
    : (run.step (.drainReads index)).Invariant := by
  simp only [step]
  split
  case h_2 => exact holds
  rename_i isFlagged
  split
  · rename_i isNow
    refine { holds with drained := ?_ }
    intro _ _ lifted
    rw [isNow] at lifted
    cases lifted
  · refine { holds with drained := ?_ }
    intro _ quiet
    rw [(List.set_eq_nil_iff _ _).mp quiet] at isFlagged
    cases isFlagged

theorem step_drainApplies (holds : run.Invariant) {index : ℕ} (meets : run.Meets (.drainApplies index))
    : (run.step (.drainApplies index)).Invariant := by
  simp only [step]
  split
  case h_2 => exact holds
  refine { holds with drained := ?_, owned := ?_ }
  · intro _ _ lifted
    cases lifted
  · intro ended quiet
    obtain draining | open_ | behind := meets
    · exact absurd draining (Bool.eq_false_iff.mp ended)
    · exact absurd quiet open_
    · exact .inl behind

theorem step_endDrain (holds : run.Invariant) : (run.step .endDrain).Invariant := by
  simp only [step]
  split
  case isFalse => exact holds
  refine { holds with drained := ?_, owned := ?_ }
  · intro draining
    cases draining
  · intro _ quiet
    simp at quiet

theorem step_endReads (holds : run.Invariant) (index : ℕ)
    : (run.step (.endReads index)).Invariant := by
  simp only [step]
  split
  case h_2 => exact holds
  rename_i isFlagged
  refine { holds with owned := ?_ }
  intro _ quiet
  rw [(List.set_eq_nil_iff _ _).mp quiet] at isFlagged
  cases isFlagged

theorem step_endApplies (holds : run.Invariant) {index : ℕ} (meets : run.Meets (.endApplies index))
    : (run.step (.endApplies index)).Invariant := by
  simp only [step]
  split
  case h_2 => exact holds
  rename_i owner isApplying
  obtain ⟨inDrain, outside⟩ := meets owner (by rw [isApplying]; rfl)
  refine { holds with drained := ?_, owned := ?_ }
  · intro draining quiet lifted
    exact inDrain draining (Option.map_eq_none_iff.mp lifted) quiet
  · intro ended quiet
    obtain draining | same | others | behind := outside
    · exact absurd draining (Bool.eq_false_iff.mp ended)
    · exact .inr (congrArg (Option.map PauseState.mode) same)
    · have one := congrArg List.length quiet
      have inRange := (List.getElem?_eq_some_iff.mp isApplying).1
      rw [List.length_eraseIdx_of_lt inRange, List.length_nil] at one
      omega
    · exact .inl behind

theorem step_invariant (run : HubRun) (taken : HubStep) (holds : run.Invariant)
    (meets : run.Meets taken)
    : (run.step taken).Invariant := by
  cases taken with
  | pause request => exact changed_invariant holds _
  | resume => exact step_resume holds
  | watcherReads => exact step_watcherReads holds
  | watcherChecks => exact step_watcherChecks holds
  | watcherApplies => exact step_watcherApplies holds meets
  | drainForUpdate => exact step_drainForUpdate holds
  | drainReads index => exact step_drainReads holds index
  | drainApplies index => exact step_drainApplies holds meets
  | endDrain => exact step_endDrain holds
  | endReads index => exact step_endReads holds index
  | endApplies index => exact step_endApplies holds meets

theorem Invariant.kept (holds : run.Invariant) : run.Kept := by
  constructor
  case drained =>
    intro draining quiet installing
    have paused := holds.drained draining quiet
    obtain ⟨mode, isPaused⟩ := Option.ne_none_iff_exists'.mp paused
    rw [takesWork, isPaused]
    rfl
  case owned =>
    intro rest ended
    obtain (behind | pending) | same := holds.owned ended rest.ends
    · have seen := rest.seen
      omega
    · rw [rest.watcher] at pending
      cases pending
    · exact same

end Steps

-- Runs

/-- In a run in which no decision is applied that has become wrong meanwhile and that nothing puts
right, a drained hub takes no work, and a hub at rest has the owner's pause.
-/
theorem hub_kept {owner : Option PauseState} {taken : List HubStep}
    (orderly : Runs.Orderly step Meets (start owner) taken)
    : (taken.foldl step (start owner)).Kept :=
  (orderly.invariant step_invariant (start_invariant owner)).kept

def request : PauseRequest := ⟨.afterVolume, none, "user", 0⟩

/-- A pause that is lifted during a drain, and the end of the drain. -/
theorem hub_kept_resumed
    : (List.foldl step (start none)
        [
          .pause request,
          .watcherReads,
          .watcherChecks,
          .watcherApplies,
          .drainForUpdate,
          .drainReads 0,
          .drainApplies 0,
          .resume,
          .watcherReads,
          .watcherChecks,
          .endDrain,
          .endReads 0,
          .endApplies 0
        ]).Kept :=
  hub_kept (by decide)

/-- The watcher is about to lift the pause when the drain begins; the hub takes work in the drain. -/
theorem not_hub_kept_lifted
    : ¬ (List.foldl step (start (some (request.state none)))
        [
          .resume,
          .watcherReads,
          .watcherChecks,
          .drainForUpdate,
          .drainReads 0,
          .drainApplies 0,
          .watcherApplies
        ]).Kept := by
  intro kept
  exact absurd (kept.drained rfl rfl false) (by decide)

end HubRun

end MokuroBunko.Processor
