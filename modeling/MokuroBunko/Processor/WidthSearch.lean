import Mathlib.Algebra.Order.Floor.Semiring
import Mathlib.Data.List.Forall2
import Mathlib.Data.Rat.Floor
import Mathlib.Tactic.Linarith
import Mathlib.Tactic.Positivity

/-! The search for the widths of a processor's pools (`bench.rs` of the processor and of the
scheduler): trials that widen what is in the way while it pays, then narrow what is not used while
the rate holds. The pipeline and the clock are parameters; floats are exact rationals.
-/

namespace MokuroBunko.Processor.WidthSearch

-- One measurement

/-- `BenchWindow`, without the instants of its first and last emission. -/
structure BenchWindow where
  pagesPerSecond : ℚ
  windowSeconds : ℚ
  pagesMeasured : ℕ
  passes : ℕ
  shortWindow : Bool
  nonneg : 0 ≤ pagesPerSecond

structure WindowRules where
  minWindowSeconds : ℚ
  shortWindowSeconds : ℚ
  maxRepeat : ℕ
  windowIsTheFeed : ℚ

def BENCH_GAIN : ℚ := 3 / 100

def BENCH_HOLD : ℚ := 1 / 100

def benchFill (pages : ℕ) : ℕ := min 8 (pages / 4)

def benchWindow (emissions : List ℚ) (fill passes : ℕ) (shortSeconds : ℚ) : BenchWindow :=
  let measured := emissions.drop fill
  let window :=
    match measured.head?, measured.getLast? with
    | some first, some last => last - first
    | _, _ => 0
  {
    pagesPerSecond :=
      if 0 < window ∧ 1 < measured.length then ((measured.length - 1 : ℕ) : ℚ) / window else 0
    windowSeconds := max window 0
    pagesMeasured := measured.length
    passes
    shortWindow := window < shortSeconds
    nonneg := by
      split
      case isTrue positive => exact div_nonneg (Nat.cast_nonneg _) positive.1.le
      case isFalse => exact le_rfl
  }

/-- `sized_repeat`. -/
def sizedRepeat (pages : ℕ) (feed : List ℚ) (seconds : ℚ) (was : ℕ) (rules : WindowRules) : ℕ :=
  let wallRate := if 0 < seconds ∧ feed ≠ [] then (feed.length : ℚ) / seconds else 0
  let window := benchWindow feed (benchFill pages) 1 rules.shortWindowSeconds
  let rate :=
    if rules.windowIsTheFeed * seconds ≤ window.windowSeconds ∧ wallRate < window.pagesPerSecond
    then window.pagesPerSecond
    else wallRate
  if rate ≤ 0 then min rules.maxRepeat (max (was + 1) (was * 2))
  else
    let wanted := benchFill pages + ⌊rules.minWindowSeconds * (12 / 10) * rate⌋₊ + 1
    let needed := (wanted + (max pages 1 - 1)) / max pages 1
    max (was + 1) (min rules.maxRepeat needed)

/-- What the pipeline does in one trial. -/
structure Feeds where
  /-- The wall seconds and the emissions of a feed, by its number and how often it repeats the
  sample; `none` where it ends the benchmark. -/
  feed : ℕ → ℕ → Option (ℚ × List ℚ)
  /-- Whether the deadline has passed after the feed. -/
  late : ℕ → Bool
  /-- The stage that `widen_target` finds in the reading. -/
  target : Option String

/-- The loop of `measure`, with the feeds still allowed and those made: each with its repeats. -/
def measureFrom (rules : WindowRules) (pages : ℕ) (feeds : Feeds)
    : ℕ → List (ℕ × List ℚ) → ℕ → Option (List (ℕ × List ℚ))
  | 0, made, _ => some made
  | left + 1, made, repeats => do
      let (elapsed, mine) ← feeds.feed made.length repeats
      let window := benchWindow mine (benchFill pages) repeats rules.shortWindowSeconds
      let grown := sizedRepeat pages mine elapsed repeats rules
      let after := made ++ [(repeats, mine)]
      if rules.minWindowSeconds ≤ window.windowSeconds || feeds.late made.length
        || grown ≤ repeats
      then some after
      else measureFrom rules pages feeds left after grown

/-- `measure`: the window of the last feed, or of all when that one is too short. -/
def measure (rules : WindowRules) (pages maxPasses : ℕ) (feeds : Feeds) : Option BenchWindow := do
  let made ← measureFrom rules pages feeds (max maxPasses 1) [] 1
  let (repeats, last) := made.getLast?.getD (1, [])
  let window := benchWindow last (benchFill pages) repeats rules.shortWindowSeconds
  if window.windowSeconds < rules.minWindowSeconds ∧ 1 < made.length then
    some (benchWindow (made.flatMap Prod.snd) (benchFill pages) (made.map Prod.fst).sum
      rules.shortWindowSeconds)
  else some window

-- The search

/-- `Trial`: what the search reads of it. -/
structure Trial where
  n : ℕ
  stageWorkers : List ℕ
  window : BenchWindow
  target : Option String
  accepted : Bool

/-- What a search is run with. -/
structure Bench where
  keys : List String
  ceilings : List ℕ
  maxTrials : ℕ
  rules : WindowRules
  pages : ℕ
  maxPasses : ℕ
  /-- What the pipeline does in a trial, by its number and widths. -/
  feeds : ℕ → List ℕ → Feeds
  /-- Whether the deadline has passed, at each look at the clock. -/
  late : ℕ → Bool

structure State where
  trials : List Trial
  widths : List ℕ
  best : Trial
  seen : List (List ℕ)
  looks : ℕ

def Trial.rate (trial : Trial) : ℚ := trial.window.pagesPerSecond

/-- `decidable`: neither window is too short. -/
def decides (candidate against : Trial) : Bool :=
  !candidate.window.shortWindow && !against.window.shortWindow

def State.look (state : State) : State := { state with looks := state.looks + 1 }

/-- The trial of the candidate is kept with its verdict (`emit_trial`), and is not accepted. -/
def State.refuse (state : State) (candidate : List ℕ) (trial : Trial) : State :=
  { state.look with
    trials := state.trials ++ [{ trial with accepted := false }]
    seen := candidate :: state.seen }

/-- It is accepted. -/
def State.accept (state : State) (candidate : List ℕ) (trial : Trial) : State where
  trials := state.trials ++ [{ trial with accepted := true }]
  widths := candidate
  best := trial
  seen := candidate :: state.seen
  looks := state.looks + 1

namespace Bench

variable (bench : Bench)

/-- `trial`: `none` where it ends the benchmark. -/
def trial (trials : List Trial) (widths : List ℕ) : Option Trial :=
  let n := trials.length + 1
  let feeds := bench.feeds n widths
  (measure bench.rules bench.pages bench.maxPasses feeds).map fun window =>
    ⟨n, widths, window, feeds.target, true⟩

def outOfTime (state : State) : Bool :=
  bench.late state.looks || bench.maxTrials ≤ state.trials.length

theorem fewer_left {state : State} (inTime : ¬ bench.outOfTime state = true)
    {candidate : List ℕ} {trial : Trial}
    : bench.maxTrials - (state.accept candidate trial).trials.length
      < bench.maxTrials - state.trials.length := by
  simp only [outOfTime, Bool.or_eq_true, decide_eq_true_eq, not_or, Nat.not_le] at inTime
  simp only [State.accept, List.length_append, List.length_cons, List.length_nil]
  omega

/-- The first phase. -/
def widen (state : State) : Option State :=
  if _inTime : bench.outOfTime state = true then some state.look
  else
    match state.best.target.bind fun target => bench.keys.idxOf? target with
    | none => some state.look
    | some index =>
        let width := state.widths.getD index 0
        if bench.ceilings.getD index 0 ≤ width then some state.look
        else
          let candidate := state.widths.set index (width + 1)
          if candidate ∈ state.seen then some state.look
          else do
            let trial ← bench.trial state.trials candidate
            if !decides trial state.best then some (state.refuse candidate trial)
            else if state.best.rate * (1 + BENCH_GAIN) ≤ trial.rate then
              widen (state.accept candidate trial)
            else some (state.refuse candidate trial)
termination_by bench.maxTrials - state.trials.length
decreasing_by exact bench.fewer_left _inTime

/-- The second phase at one place, against the peak. -/
def narrow (peak : Trial) (index : ℕ) (state : State) : Option State :=
  let width := state.widths.getD index 0
  if width ≤ 1 then some state
  else if _inTime : bench.outOfTime state = true then some state.look
  else
    let candidate := state.widths.set index (width - 1)
    if candidate ∈ state.seen then some state.look
    else do
      let trial ← bench.trial state.trials candidate
      if !decides trial peak then some (state.refuse candidate trial)
      else if trial.rate < peak.rate * (1 - BENCH_HOLD) then some (state.refuse candidate trial)
      else narrow peak index (state.accept candidate trial)
termination_by bench.maxTrials - state.trials.length
decreasing_by exact bench.fewer_left _inTime

/-- The places in the order of their widths, the widest first. -/
def narrowOrder (widths : List ℕ) : List ℕ :=
  (List.range widths.length).mergeSort fun first second =>
    widths.getD second 0 ≤ widths.getD first 0

/-- The trial the search starts from, and the trials after it. -/
def baseline (trials : List Trial) (derived : List ℕ) (start : Option Trial)
    : Option (Trial × List Trial) :=
  match start with
  | some trial => some (trial, trials)
  | none => (bench.trial trials derived).map fun trial => (trial, trials ++ [trial])

/-- What a search finds, with its state between the two phases. -/
structure Found where
  baseline : Trial
  widened : State
  last : State

/-- `search`. -/
def search (trials : List Trial) (derived : List ℕ) (start : Option Trial) : Option Found := do
  let (baseline, trials) ← bench.baseline trials derived start
  let widened ← bench.widen ⟨trials, derived, baseline, [derived], 0⟩
  let last ← (narrowOrder widened.widths).foldlM
    (fun state index => bench.narrow widened.best index state) widened
  some ⟨baseline, widened, last⟩

-- What a step keeps

/-- Every width is between one and its ceiling. -/
def InRange (widths : List ℕ) : Prop :=
  List.Forall₂ (fun width ceiling => 1 ≤ width ∧ width ≤ ceiling) widths bench.ceilings

/-- The search has made the trials in `new` after those in `old`; nothing was decided on a window
that is too short.
-/
structure Sound (derived : List ℕ) (baseline : Trial) (old new : List Trial) (state : State)
    : Prop where
  trials : state.trials = old ++ new
  count : state.trials.length ≤ bench.maxTrials
  distinct : (derived :: new.map Trial.stageWorkers).Nodup
  seen : ∀ widths ∈ derived :: new.map Trial.stageWorkers,
    widths ∈ state.seen ∧ bench.InRange widths
  inRange : bench.InRange state.widths
  isTrial : state.best ∈ state.trials
  widths : state.best.stageWorkers = state.widths
  accepted : ∀ trial ∈ new, trial.accepted = true → decides trial baseline = true
  decided : state.best = baseline ∨ decides state.best baseline = true

variable {bench} {derived candidate : List ℕ} {baseline : Trial} {old new : List Trial}
  {state : State} {measured : Trial}

theorem InRange.set {widths : List ℕ} (inRange : bench.InRange widths) {index width : ℕ}
    (positive : 1 ≤ width) (under : width ≤ bench.ceilings.getD index 0)
    : bench.InRange (widths.set index width) := by
  unfold InRange at *
  generalize bench.ceilings = ceilings at *
  induction inRange generalizing index with
  | nil => exact .nil
  | cons own rest ih =>
      cases index with
      | zero => exact .cons ⟨positive, under⟩ rest
      | succ index => exact .cons own (ih under)

theorem InRange.getD_le {widths : List ℕ} (inRange : bench.InRange widths) (index : ℕ)
    : widths.getD index 0 ≤ bench.ceilings.getD index 0 := by
  unfold InRange at *
  generalize bench.ceilings = ceilings at *
  induction inRange generalizing index with
  | nil => simp
  | cons own rest ih =>
      cases index with
      | zero => exact own.2
      | succ index => exact ih index

theorem trial_eq (made : bench.trial state.trials candidate = some measured)
    : measured.stageWorkers = candidate ∧ measured.accepted = true := by
  obtain ⟨_, _, rfl⟩ := Option.map_eq_some_iff.mp made
  exact ⟨rfl, rfl⟩

theorem Sound.look (sound : bench.Sound derived baseline old new state)
    : bench.Sound derived baseline old new state.look :=
  ⟨sound.trials, sound.count, sound.distinct, sound.seen, sound.inRange, sound.isTrial,
    sound.widths, sound.accepted, sound.decided⟩

section Emit

variable (sound : bench.Sound derived baseline old new state)
  (inTime : ¬ bench.outOfTime state = true) (unseen : candidate ∉ state.seen)
  (inRange : bench.InRange candidate)
  (made : bench.trial state.trials candidate = some measured)

include sound inTime unseen inRange made

theorem Sound.refuse
    : bench.Sound derived baseline old (new ++ [{ measured with accepted := false }])
      (state.refuse candidate measured) := by
  obtain ⟨own, _⟩ := trial_eq made
  simp only [outOfTime, Bool.or_eq_true, decide_eq_true_eq, not_or, Nat.not_le] at inTime
  constructor
  · simp [State.refuse, sound.trials]
  · simp only [State.refuse, List.length_append, List.length_singleton]
    omega
  · rw [List.map_append, ← List.cons_append, List.nodup_append]
    refine ⟨sound.distinct, by simp, ?_⟩
    rintro widths isOld _ (isNew : _ ∈ [_]) rfl
    rw [List.mem_singleton.mp isNew, own] at isOld
    exact unseen (sound.seen _ isOld).1
  · rw [List.map_append, ← List.cons_append]
    intro widths isIn
    obtain isOld | isNew := List.mem_append.mp isIn
    · exact ⟨List.mem_cons_of_mem _ (sound.seen _ isOld).1, (sound.seen _ isOld).2⟩
    · rw [List.mem_singleton.mp isNew, own]
      exact ⟨List.mem_cons_self, inRange⟩
  · exact sound.inRange
  · exact List.mem_append_left _ sound.isTrial
  · exact sound.widths
  · intro trial isIn
    obtain isOld | isNew := List.mem_append.mp isIn
    · exact sound.accepted trial isOld
    · rw [List.mem_singleton.mp isNew]
      exact nofun
  · exact sound.decided

theorem Sound.accept (decided : decides measured baseline = true)
    : bench.Sound derived baseline old (new ++ [measured])
      (state.accept candidate measured) := by
  obtain ⟨own, kept⟩ := trial_eq made
  have same : { measured with accepted := true } = measured := by rw [← kept]
  have refused := sound.refuse inTime unseen inRange made
  constructor
  · simp [State.accept, sound.trials, same]
  · simpa only [State.refuse, State.accept, List.length_append, List.length_singleton]
      using refused.count
  · simpa only [List.map_append, List.map_singleton] using refused.distinct
  · have seen := refused.seen
    rw [List.map_append, List.map_singleton] at seen ⊢
    exact seen
  · exact inRange
  · simp [State.accept, same]
  · exact own
  · intro trial isIn
    obtain isOld | isNew := List.mem_append.mp isIn
    · exact sound.accepted trial isOld
    · rw [List.mem_singleton.mp isNew]
      exact fun _ => decided
  · exact .inr decided

end Emit

theorem decides_trans {candidate against baseline : Trial}
    (one : decides candidate against = true)
    (two : against = baseline ∨ decides against baseline = true)
    : decides candidate baseline = true := by
  obtain rfl | two := two
  · exact one
  · simp only [decides, Bool.and_eq_true, Bool.not_eq_eq_eq_not, Bool.not_true] at *
    exact ⟨one.1, two.2⟩

-- The first phase

theorem widen_cases {out : State} (found : bench.widen state = some out)
    (inRange : bench.InRange state.widths)
    : out = state.look ∨ ∃ candidate measured, ¬ bench.outOfTime state = true
      ∧ candidate ∉ state.seen ∧ bench.InRange candidate
      ∧ bench.trial state.trials candidate = some measured
      ∧ (out = state.refuse candidate measured
        ∨ decides measured state.best = true
          ∧ state.best.rate * (1 + BENCH_GAIN) ≤ measured.rate
          ∧ bench.widen (state.accept candidate measured) = some out) := by
  rw [widen] at found
  split at found
  case isTrue => exact .inl (Option.some.inj found).symm
  case isFalse inTime =>
    split at found
    case h_1 => exact .inl (Option.some.inj found).symm
    case h_2 index _ =>
      dsimp only at found
      split at found
      case isTrue => exact .inl (Option.some.inj found).symm
      case isFalse under =>
        split at found
        case isTrue => exact .inl (Option.some.inj found).symm
        case isFalse unseen =>
          obtain ⟨measured, made, rest⟩ := Option.bind_eq_some_iff.mp found
          refine .inr ⟨_, measured, inTime, unseen,
            inRange.set (Nat.succ_pos _) (Nat.lt_of_not_le under), made, ?_⟩
          split at rest
          case isTrue => exact .inl (Option.some.inj rest).symm
          case isFalse decided =>
            split at rest
            case isFalse => exact .inl (Option.some.inj rest).symm
            case isTrue pays => exact .inr ⟨by simpa using decided, pays, rest⟩

/-- No trial accepted so far is faster than the best one. -/
def Climbed (baseline : Trial) (new : List Trial) (best : Trial) : Prop :=
  baseline.rate ≤ best.rate ∧ ∀ trial ∈ new, trial.accepted = true → trial.rate ≤ best.rate

theorem widen_sound {out : State} (found : bench.widen state = some out)
    (sound : bench.Sound derived baseline old new state)
    (climbed : Climbed baseline new state.best)
    : ∃ more, bench.Sound derived baseline old (new ++ more) out
      ∧ Climbed baseline (new ++ more) out.best := by
  induction left : bench.maxTrials - state.trials.length using Nat.strong_induction_on
    generalizing state new with
  | _ size ih =>
    obtain rfl | ⟨candidate, measured, inTime, unseen, inRange, made, rest⟩ :=
      widen_cases found sound.inRange
    · rw [← List.append_nil new] at climbed
      exact ⟨[], by simpa using sound.look, climbed⟩
    · obtain rfl | ⟨decided, pays, further⟩ := rest
      · refine ⟨_, sound.refuse inTime unseen inRange made, climbed.1, fun trial isIn => ?_⟩
        obtain isOld | isNew := List.mem_append.mp isIn
        · exact climbed.2 trial isOld
        · rw [List.mem_singleton.mp isNew]
          exact nofun
      · have faster : state.best.rate ≤ measured.rate := by
          have nonneg : 0 ≤ state.best.rate := state.best.window.nonneg
          rw [BENCH_GAIN] at pays
          linarith
        have next := sound.accept inTime unseen inRange made
          (decides_trans decided sound.decided)
        have higher : Climbed baseline (new ++ [measured]) measured := by
          refine ⟨climbed.1.trans faster, fun trial isIn => ?_⟩
          obtain isOld | isNew := List.mem_append.mp isIn
          · exact fun kept => (climbed.2 trial isOld kept).trans faster
          · rw [List.mem_singleton.mp isNew]
            exact fun _ => le_rfl
        obtain ⟨more, later, highest⟩ :=
          ih _ (left ▸ bench.fewer_left inTime) further next higher rfl
        rw [List.append_assoc] at later highest
        exact ⟨_, later, highest⟩

-- The second phase

theorem narrow_cases {peak : Trial} {index : ℕ} {out : State}
    (found : bench.narrow peak index state = some out) (inRange : bench.InRange state.widths)
    : out = state ∨ out = state.look ∨ ∃ candidate measured, ¬ bench.outOfTime state = true
      ∧ candidate ∉ state.seen ∧ bench.InRange candidate
      ∧ bench.trial state.trials candidate = some measured
      ∧ (out = state.refuse candidate measured
        ∨ decides measured peak = true
          ∧ peak.rate * (1 - BENCH_HOLD) ≤ measured.rate
          ∧ bench.narrow peak index (state.accept candidate measured) = some out) := by
  rw [narrow] at found
  dsimp only at found
  split at found
  case isTrue => exact .inl (Option.some.inj found).symm
  case isFalse wide =>
    split at found
    case isTrue => exact .inr (.inl (Option.some.inj found).symm)
    case isFalse inTime =>
      split at found
      case isTrue => exact .inr (.inl (Option.some.inj found).symm)
      case isFalse unseen =>
        obtain ⟨measured, made, rest⟩ := Option.bind_eq_some_iff.mp found
        have under := inRange.getD_le index
        refine .inr (.inr ⟨_, measured, inTime, unseen, inRange.set (by omega) (by omega), made,
          ?_⟩)
        split at rest
        case isTrue => exact .inl (Option.some.inj rest).symm
        case isFalse decided =>
          split at rest
          case isTrue => exact .inl (Option.some.inj rest).symm
          case isFalse holds => exact .inr ⟨by simpa using decided, not_lt.mp holds, rest⟩

theorem narrow_sound {peak : Trial} {index : ℕ} {out : State}
    (found : bench.narrow peak index state = some out)
    (sound : bench.Sound derived baseline old new state)
    (decided : peak = baseline ∨ decides peak baseline = true)
    (holds : peak.rate * (1 - BENCH_HOLD) ≤ state.best.rate)
    : ∃ more, bench.Sound derived baseline old (new ++ more) out
      ∧ peak.rate * (1 - BENCH_HOLD) ≤ out.best.rate := by
  induction left : bench.maxTrials - state.trials.length using Nat.strong_induction_on
    generalizing state new with
  | _ size ih =>
    obtain rfl | rfl | ⟨candidate, measured, inTime, unseen, inRange, made, rest⟩ :=
      narrow_cases found sound.inRange
    · exact ⟨[], by simpa using sound, holds⟩
    · exact ⟨[], by simpa using sound.look, holds⟩
    · obtain rfl | ⟨comparable, held, further⟩ := rest
      · exact ⟨_, sound.refuse inTime unseen inRange made, holds⟩
      · have next := sound.accept inTime unseen inRange made (decides_trans comparable decided)
        obtain ⟨more, later, kept⟩ := ih _ (left ▸ bench.fewer_left inTime) further next held rfl
        rw [List.append_assoc] at later
        exact ⟨_, later, kept⟩

theorem narrowAll_sound {peak : Trial} {places : List ℕ} {out : State}
    (found : places.foldlM (fun state index => bench.narrow peak index state) state = some out)
    (sound : bench.Sound derived baseline old new state)
    (decided : peak = baseline ∨ decides peak baseline = true)
    (holds : peak.rate * (1 - BENCH_HOLD) ≤ state.best.rate)
    : ∃ more, bench.Sound derived baseline old (new ++ more) out
      ∧ peak.rate * (1 - BENCH_HOLD) ≤ out.best.rate := by
  induction places generalizing state new with
  | nil =>
      cases found
      exact ⟨[], by simpa using sound, holds⟩
  | cons index places ih =>
      rw [List.foldlM_cons] at found
      obtain ⟨middle, one, rest⟩ := Option.bind_eq_some_iff.mp found
      obtain ⟨more, next, held⟩ := narrow_sound one sound decided holds
      obtain ⟨later, last, kept⟩ := ih rest next held
      rw [List.append_assoc] at last
      exact ⟨_, last, kept⟩

-- The search

variable (bench) in
/-- How the benchmark starts a search: at a trial made of the derived widths (the precision's), or
with room for the first one.
-/
def Startable (trials : List Trial) (derived : List ℕ) : Option Trial → Prop
  | some start =>
      start ∈ trials ∧ start.stageWorkers = derived ∧ trials.length ≤ bench.maxTrials
  | none => trials.length < bench.maxTrials

theorem baseline_sound {trials old : List Trial} {start : Option Trial}
    (inRange : bench.InRange derived) (startable : bench.Startable trials derived start)
    (found : bench.baseline trials derived start = some (baseline, old))
    : baseline.stageWorkers = derived
      ∧ bench.Sound derived baseline old [] ⟨old, derived, baseline, [derived], 0⟩ := by
  have sound (own : baseline.stageWorkers = derived) (isTrial : baseline ∈ old)
      (count : old.length ≤ bench.maxTrials)
      : bench.Sound derived baseline old [] ⟨old, derived, baseline, [derived], 0⟩ := by
    constructor
    · simp
    · exact count
    · simp
    · simpa using inRange
    · exact inRange
    · exact isTrial
    · exact own
    · exact nofun
    · exact .inl rfl
  cases start with
  | some start =>
      cases found
      obtain ⟨isTrial, own, count⟩ := startable
      exact ⟨own, sound own isTrial count⟩
  | none =>
      obtain ⟨trial, made, same⟩ := Option.map_eq_some_iff.mp found
      cases same
      obtain ⟨_, _, rfl⟩ := Option.map_eq_some_iff.mp made
      refine ⟨rfl, sound rfl (by simp) ?_⟩
      rw [List.length_append]
      exact startable

theorem widen_isSome (alive : ∀ trials widths, (bench.trial trials widths).isSome)
    (state : State) : (bench.widen state).isSome := by
  induction left : bench.maxTrials - state.trials.length using Nat.strong_induction_on
    generalizing state with
  | _ size ih =>
    rw [widen]
    split
    case isTrue => rfl
    case isFalse inTime =>
      split
      case h_1 => rfl
      case h_2 index _ =>
        dsimp only
        split_ifs
        · rfl
        · rfl
        · obtain ⟨trial, made⟩ := Option.isSome_iff_exists.mp (alive state.trials
            (state.widths.set index (state.widths.getD index 0 + 1)))
          rw [made, Option.bind_eq_bind, Option.bind_some]
          split_ifs
          · rfl
          · exact ih _ (left ▸ bench.fewer_left inTime) _ rfl
          · rfl

theorem narrow_isSome (alive : ∀ trials widths, (bench.trial trials widths).isSome) (peak : Trial)
    (index : ℕ) (state : State) : (bench.narrow peak index state).isSome := by
  induction left : bench.maxTrials - state.trials.length using Nat.strong_induction_on
    generalizing state with
  | _ size ih =>
    rw [narrow]
    dsimp only
    split_ifs with _ inTime
    · rfl
    · rfl
    · rfl
    · obtain ⟨trial, made⟩ := Option.isSome_iff_exists.mp (alive state.trials
        (state.widths.set index (state.widths.getD index 0 - 1)))
      rw [made, Option.bind_eq_bind, Option.bind_some]
      split_ifs
      · rfl
      · rfl
      · exact ih _ (left ▸ bench.fewer_left inTime) _ rfl

theorem search_isSome (alive : ∀ trials widths, (bench.trial trials widths).isSome)
    (trials : List Trial) (derived : List ℕ) (start : Option Trial)
    : (bench.search trials derived start).isSome := by
  have first : (bench.baseline trials derived start).isSome := by
    cases start with
    | some => rfl
    | none => simpa [baseline] using alive trials derived
  have all (peak : Trial) (places : List ℕ) (state : State)
      : (places.foldlM (fun state index => bench.narrow peak index state) state).isSome := by
    induction places generalizing state with
    | nil => rfl
    | cons index places ih =>
        obtain ⟨next, one⟩ := Option.isSome_iff_exists.mp (narrow_isSome alive peak index state)
        rw [List.foldlM_cons, one]
        exact ih next
  obtain ⟨⟨baseline, old⟩, found⟩ := Option.isSome_iff_exists.mp first
  obtain ⟨widened, wide⟩ := Option.isSome_iff_exists.mp
    (widen_isSome alive ⟨old, derived, baseline, [derived], 0⟩)
  obtain ⟨last, narrowed⟩ := Option.isSome_iff_exists.mp
    (all widened.best (narrowOrder widened.widths) widened)
  simp [search, found, wide, narrowed]

/-- The search ends; it measures no widths twice, none out of range and no more than allowed; what
it reports is the widths of its best trial, at most a hundredth slower than every trial accepted
while widening; and windows that are too short decide nothing.
-/
theorem search_sound (bench : Bench) {trials : List Trial} {derived : List ℕ}
    {start : Option Trial} (inRange : bench.InRange derived)
    (startable : bench.Startable trials derived start)
    : ((∀ trials widths, (bench.trial trials widths).isSome) →
        (bench.search trials derived start).isSome)
      ∧ ∀ found, bench.search trials derived start = some found →
        ∃ old wide narrow, bench.baseline trials derived start = some (found.baseline, old)
          ∧ found.widened.trials = old ++ wide
          ∧ found.last.trials = old ++ (wide ++ narrow)
          ∧ found.baseline.stageWorkers = derived
          ∧ (derived :: (wide ++ narrow).map Trial.stageWorkers).Nodup
          ∧ (∀ trial ∈ wide ++ narrow, bench.InRange trial.stageWorkers)
          ∧ bench.InRange found.last.widths
          ∧ found.last.trials.length ≤ bench.maxTrials
          ∧ found.last.best ∈ found.last.trials
          ∧ found.last.best.stageWorkers = found.last.widths
          ∧ (∀ trial ∈ wide, trial.accepted = true →
            99 / 100 * trial.rate ≤ found.last.best.rate)
          ∧ 99 / 100 * found.baseline.rate ≤ found.last.best.rate
          ∧ (∀ trial ∈ wide ++ narrow, trial.accepted = true →
            trial.window.shortWindow = false ∧ found.baseline.window.shortWindow = false)
          ∧ (found.last.best = found.baseline ∨ found.last.best.window.shortWindow = false
            ∧ found.baseline.window.shortWindow = false) := by
  refine ⟨fun alive => search_isSome alive trials derived start, fun found searched => ?_⟩
  obtain ⟨⟨baseline, old⟩, started, rest⟩ := Option.bind_eq_some_iff.mp searched
  obtain ⟨widened, wide, rest⟩ := Option.bind_eq_some_iff.mp rest
  obtain ⟨last, narrowed, same⟩ := Option.bind_eq_some_iff.mp rest
  cases same
  obtain ⟨own, first⟩ := baseline_sound inRange startable started
  obtain ⟨new, second, climbed⟩ := widen_sound wide first ⟨le_rfl, nofun⟩
  rw [List.nil_append] at second climbed
  have start_holds : widened.best.rate * (1 - BENCH_HOLD) ≤ widened.best.rate := by
    have nonneg : 0 ≤ widened.best.rate := widened.best.window.nonneg
    rw [BENCH_HOLD]
    linarith
  obtain ⟨more, final, holds⟩ := narrowAll_sound narrowed second second.decided start_holds
  rw [BENCH_HOLD] at holds
  have short {trial : Trial} (decided : decides trial baseline = true)
      : trial.window.shortWindow = false ∧ baseline.window.shortWindow = false := by
    simpa [decides] using decided
  refine ⟨old, new, more, started, second.trials, final.trials, own, final.distinct, ?_,
    final.inRange, final.count, final.isTrial, final.widths, ?_, ?_, ?_, ?_⟩
  · intro trial isIn
    exact (final.seen _ (List.mem_cons_of_mem _ (List.mem_map_of_mem isIn))).2
  · intro trial isIn accepted
    have higher := climbed.2 trial isIn accepted
    linarith
  · have higher := climbed.1
    linarith
  · exact fun trial isIn accepted => short (final.accepted trial isIn accepted)
  · exact final.decided.imp_right short

/-- One pool that may be widened once, and a pipeline that gives nothing. -/
theorem search_sound_idle
    : let idle : Bench := ⟨["engine"], [2], 2, ⟨20, 10, 64, 1 / 4⟩, 8, 8,
        fun _ _ => ⟨fun _ _ => some (1, []), fun _ => true, some "engine"⟩, fun _ => false⟩
      (idle.search [] [1] none).isSome := by
  intro idle
  have startable : idle.Startable [] [1] none := Nat.zero_lt_two
  refine (search_sound idle (.cons ⟨le_rfl, by decide⟩ .nil) startable).1 ?_
  intro trials widths
  simp [idle, Bench.trial, measure, measureFrom]

end Bench

end MokuroBunko.Processor.WidthSearch
