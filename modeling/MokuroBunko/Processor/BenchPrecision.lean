import MokuroBunko.Sched.Precision

/-! The precision trials of a benchmark, as the processor runs and reports them.
-/

namespace MokuroBunko.Processor

open MokuroBunko.Lib MokuroBunko.Data MokuroBunko.Sched

/-- What happens when a candidate's turn comes. -/
structure Turn where
  /-- The budget is used up. -/
  outOfTime : Bool := false
  cancelled : Bool := false
  loads : Bool := true
  /-- The pages per second of its trial, none where the trial ends the benchmark. -/
  rate : Option ℚ

structure BenchMachine where
  /-- The formats of the device that the recognizer runs on. -/
  formats : SortedSet String
  attempt : String → Turn
  /-- Whether the runner of the settled format loads. -/
  settles : Bool := true
  /-- Whether the rest of the benchmark comes to its end. -/
  finishes : Bool := true

/-- `finish` of `resolve`: what ran, backend included. -/
def ranFormat (fmt : String) : Option String :=
  if baseFormat fmt ∈ PRECISIONS then
    some (match formatBackend fmt with
      | some backend => baseFormat fmt ++ "@" ++ backend
      | none => baseFormat fmt)
  else none

/-- `resolve` of the engines without a pick: the format a session starts in, none where the device
refuses.
-/
def engineResolve (engine requested : String) (supported : SortedSet String) : Option String :=
  let mode := (normalizeMode (some requested)).getD MODE_ACCURACY
  if isForced mode then
    if mode ∈ supported then ranFormat mode else none
  else
    let bases := (candidates engine mode).filter (fun c => c = FP32 ∨ c ∈ supported)
    let bases := if mode = MODE_ACCURACY then bases.take 1 else bases
    (withVariants bases supported).head?.bind ranFormat

/-- `precision_candidates`. -/
def precisionCandidates (engine mode : String) (formats : SortedSet String) : List String :=
  if !isPrecisionEngine engine then []
  else
    let usable := (resolveMode engine mode (some formats) none "").usable
    if needsBench mode usable then usable else []

/-- `measured` and `unrunnable`. -/
structure Tried where
  measured : List (String × ℚ) := []
  unrunnable : List String := []

namespace BenchMachine

variable (machine : BenchMachine)

/-- The loop of `precision_phase`: none where the benchmark ends without a result. -/
def tryCandidates : Tried → List String → Option Tried
  | tried, [] => some tried
  | tried, candidate :: rest =>
      let attempt := machine.attempt candidate
      if tried.measured ≠ [] && attempt.outOfTime then some tried
      else if attempt.cancelled then none
      else if !attempt.loads then
        tryCandidates { tried with unrunnable := tried.unrunnable ++ [candidate] } rest
      else
        match attempt.rate with
        | none => none
        | some rate =>
            tryCandidates { tried with measured := tried.measured ++ [(candidate, rate)] } rest

/-- What the benchmark knows of the precision when it is done. -/
structure Outcome where
  precision : Option String
  candidates : List String := []
  tried : Tried := {}
  why : String := ""

/-- `precision_phase`. -/
def precisionPhase (usable : List String) : Option Outcome := do
  let tried ← machine.tryCandidates {} usable
  let (chosen, why) := (pickPrecision tried.measured usable).getD (usable.headD "", "")
  if machine.settles then
    some { precision := chosen, candidates := usable, tried := tried, why := why }
  else none

end BenchMachine

/-- `r4`. -/
def r4 (value : ℚ) : Json := .num (.float (roundTiesEven (value * 10 ^ 4) / 10 ^ 4))

def trialObject (fmt : String) (rate : Json) (chosen : Bool) : Json :=
  .obj [("precision", .str fmt), ("pages_per_second", rate), ("chosen", .bool chosen)]

/-- The trials of one candidate: none where the time ran out before it. -/
def candidateTrials (outcome : BenchMachine.Outcome) (candidate : String) : List Json :=
  if candidate ∈ outcome.tried.unrunnable then
    [trialObject candidate (.num (.float 0)) false]
  else
    (outcome.tried.measured.filter (fun trial => trial.1 = candidate)).map (fun trial =>
      trialObject trial.1 (r4 trial.2) (some trial.1 = outcome.precision))

/-- What `bench_done` says of the precision. -/
def benchDone (mode : String) (outcome : BenchMachine.Outcome) : Object :=
  (match outcome.precision with
    | some precision => [("precision", .str precision), ("precision_mode", .str mode)]
    | none => [])
  ++ (if outcome.tried.measured = [] then []
    else [
      ("precision_trials", .arr (outcome.candidates.flatMap (candidateTrials outcome))),
      ("precision_why", .str outcome.why)
    ])

/-- `run_inner`: what `bench_done` says of the precision, if the benchmark gets that far. -/
def runBenchmark (engine precision : String) (machine : BenchMachine) : Option Object := do
  let mode := (normalizeMode (some precision)).getD DEFAULT_MODE
  let ready ← engineResolve engine precision machine.formats
  let usable := precisionCandidates engine mode machine.formats
  let outcome ←
    if usable = [] then some { precision := some ready : BenchMachine.Outcome }
    else machine.precisionPhase usable
  if machine.finishes then some (benchDone mode outcome) else none

-- Which candidates are tried

/-- The candidates whose turn came. -/
def Tried.names (tried : Tried) : List String := tried.unrunnable ++ tried.measured.map Prod.fst

namespace BenchMachine

variable {machine : BenchMachine}

/-- No candidate's turn comes out of time once an earlier one loaded. -/
def inTime (machine : BenchMachine) : Bool → List String → Bool
  | _, [] => true
  | loaded, candidate :: rest =>
      !(loaded && (machine.attempt candidate).outOfTime)
        && inTime machine (loaded || (machine.attempt candidate).loads) rest

theorem tryCandidates_cons {tried after : Tried} {candidate : String} {rest : List String}
    (done : machine.tryCandidates tried (candidate :: rest) = some after)
    : (tried.measured ≠ [] ∧ (machine.attempt candidate).outOfTime = true ∧ after = tried)
      ∨ (¬(tried.measured ≠ [] ∧ (machine.attempt candidate).outOfTime = true)
        ∧ (machine.attempt candidate).loads = false
        ∧ machine.tryCandidates
            { tried with unrunnable := tried.unrunnable ++ [candidate] } rest = some after)
      ∨ (¬(tried.measured ≠ [] ∧ (machine.attempt candidate).outOfTime = true)
        ∧ (machine.attempt candidate).loads = true
        ∧ ∃ rate, machine.tryCandidates
            { tried with measured := tried.measured ++ [(candidate, rate)] } rest = some after) := by
  simp only [tryCandidates] at done
  split_ifs at done with timeUp cancelled stuck
  · simp only [Bool.and_eq_true, decide_eq_true_eq] at timeUp
    exact .inl ⟨timeUp.1, timeUp.2, (Option.some.inj done).symm⟩
  · refine .inr (.inl ⟨by simpa using timeUp, by simpa using stuck, done⟩)
  · cases rate : (machine.attempt candidate).rate with
    | none => simp [rate] at done
    | some measured =>
        simp only [rate] at done
        exact .inr (.inr ⟨by simpa using timeUp, by simpa using stuck, measured, done⟩)

theorem tryCandidates_measured {tried after : Tried} {usable : List String}
    (done : machine.tryCandidates tried usable = some after)
    : after.measured = []
      ↔ tried.measured = [] ∧ ∀ candidate ∈ usable, (machine.attempt candidate).loads = false := by
  induction usable generalizing tried with
  | nil =>
      obtain rfl : tried = after := Option.some.inj done
      simp
  | cons candidate rest ih =>
      rcases tryCandidates_cons done with
        ⟨some_measured, -, rfl⟩ | ⟨-, stuck, further⟩ | ⟨-, loaded, rate, further⟩
      · simp [some_measured]
      · simp [ih further, stuck]
      · simp [ih further, loaded]

theorem tryCandidates_mono {tried after : Tried} {usable : List String} {fmt : String}
    (done : machine.tryCandidates tried usable = some after) (before : fmt ∈ tried.names)
    : fmt ∈ after.names := by
  induction usable generalizing tried with
  | nil =>
      obtain rfl : tried = after := Option.some.inj done
      exact before
  | cons candidate rest ih =>
      rcases tryCandidates_cons done with
        ⟨-, -, rfl⟩ | ⟨-, -, further⟩ | ⟨-, -, rate, further⟩
      · exact before
      · refine ih further ?_
        simp only [Tried.names, List.mem_append] at before ⊢
        grind
      · refine ih further ?_
        simp only [Tried.names, List.map_append, List.mem_append] at before ⊢
        grind

theorem tryCandidates_complete {tried after : Tried} {usable : List String}
    (done : machine.tryCandidates tried usable = some after) (distinct : usable.Nodup)
    (fresh : ∀ candidate ∈ usable, candidate ∉ tried.names)
    : (∀ candidate ∈ usable, candidate ∈ after.names)
      ↔ machine.inTime (decide (tried.measured ≠ [])) usable = true := by
  induction usable generalizing tried with
  | nil => simp [inTime]
  | cons candidate rest ih =>
      obtain ⟨alone, distinct⟩ := List.nodup_cons.mp distinct
      have own : candidate ∉ tried.names := fresh candidate List.mem_cons_self
      rcases tryCandidates_cons done with
        ⟨some_measured, timeUp, rfl⟩ | ⟨inTime, stuck, further⟩ | ⟨inTime, loaded, rate, further⟩
      · constructor
        · intro all
          exact absurd (all candidate List.mem_cons_self) own
        · simp [BenchMachine.inTime, some_measured, timeUp]
      · have turn : candidate ∈ after.names :=
          tryCandidates_mono further (by simp [Tried.names])
        have stillFresh : ∀ other ∈ rest,
            other ∉ Tried.names { tried with unrunnable := tried.unrunnable ++ [candidate] } := by
          intro other member tried_before
          have ne : other ≠ candidate := fun same => alone (same ▸ member)
          have new := fresh other (List.mem_cons_of_mem _ member)
          simp only [Tried.names, List.mem_append, List.mem_singleton] at tried_before new
          grind
        have whole := ih further distinct stillFresh
        simp only [List.forall_mem_cons, turn, true_and, whole, BenchMachine.inTime, stuck,
          Bool.or_false, Bool.and_eq_true]
        simp only [not_and, Bool.not_eq_true] at inTime
        constructor
        · refine fun later => ⟨?_, later⟩
          by_cases some_measured : tried.measured = []
          · simp [some_measured]
          · simp [inTime some_measured]
        · exact And.right
      · have turn : candidate ∈ after.names :=
          tryCandidates_mono further (by simp [Tried.names])
        have stillFresh : ∀ other ∈ rest,
            other ∉ Tried.names { tried with measured := tried.measured ++ [(candidate, rate)] } := by
          intro other member tried_before
          have ne : other ≠ candidate := fun same => alone (same ▸ member)
          have new := fresh other (List.mem_cons_of_mem _ member)
          simp only [Tried.names, List.map_append, List.map_cons, List.map_nil, List.mem_append,
            List.mem_singleton] at tried_before new
          grind
        have whole := ih further distinct stillFresh
        have now : decide (tried.measured ++ [(candidate, rate)] ≠ []) = true := by simp
        rw [now] at whole
        simp only [List.forall_mem_cons, turn, true_and, whole, BenchMachine.inTime, loaded,
          Bool.or_true, Bool.and_eq_true]
        simp only [not_and, Bool.not_eq_true] at inTime
        constructor
        · refine fun later => ⟨?_, later⟩
          by_cases some_measured : tried.measured = []
          · simp [some_measured]
          · simp [inTime some_measured]
        · exact And.right

end BenchMachine

end MokuroBunko.Processor
