import MokuroBunko.Processor.BenchPrecision
import MokuroBunko.Sched.BenchConvergence

/-! What the library keeps of a finished benchmark's precision; and that a benchmark that a processor
finishes and the library stores settles its row, if every candidate had its turn.
-/

namespace MokuroBunko.Server

open MokuroBunko.Lib MokuroBunko.Data MokuroBunko.Sched

/-- The precision fields `complete_done` takes from a `bench_done`. -/
def completeDone (row : Generation) (event : Object) : Object :=
  let best := ((Object.get? event "best").bind Json.asObject?).getD []
  let ran := ((Object.get? event "precision").or (Object.get? best "precision")).bind Json.asStr?
  match ran.filter isFormat with
  | none => []
  | some ran =>
      if row.precisionApplies then
        [("precision", .str ran)]
        ++ (match (benchText event "precision_mode").filter (· ≠ "") with
          | some mode => [("precision_mode", .str mode)]
          | none => [])
        ++ (match Object.get? event "precision_trials" with
          | some (.arr (trial :: rest)) => [
              ("precision_trials",
                .arr ((trial :: rest).filter (fun tried => tried.asObject?.isSome))),
              ("precision_why", .str ((benchText event "precision_why").getD ""))
            ]
          | _ => [])
      else []

/-- The precision fields of a run's data before its `bench_done`. -/
def queuedData : Object := [
  ("precision", .null), ("precision_mode", .null), ("precision_trials", .null),
  ("precision_why", .null)
]

/-- `Map::extend`. -/
def extendData (data fields : Object) : Object :=
  fields.foldl (fun data field => Object.insert data field.1 field.2) data

/-- A field of a run's data, if it says something. -/
def saidField (data : Object) (field : String) : Option Json :=
  (Object.get? data field).filter (fun value => truthy (some value))

/-- The precision fields `persist_profile` stores. -/
def persistProfile (data : Object) : Object :=
  let kept (field : String) : Object :=
    ((saidField data field).map (fun value => (field, value))).toList
  kept "precision" ++ kept "precision_mode" ++ kept "precision_trials"
    ++ (if (saidField data "precision_trials").isSome then
        [("precision_why", .str ((benchText data "precision_why").getD ""))]
      else [])

/-- What a machine's profile holds of a row's precision after a `bench_done`. -/
def storedBench (row : Generation) (event : Object) : Object :=
  persistProfile (extendData queuedData (completeDone row event))

open MokuroBunko.Lib MokuroBunko.Data MokuroBunko.Processor MokuroBunko.Sched

-- What the library stores

/-- The trials a benchmark reports, none where nothing was measured. -/
def reportedTrials (outcome : BenchMachine.Outcome) : List Json :=
  if outcome.tried.measured = [] then []
  else outcome.candidates.flatMap (candidateTrials outcome)

theorem named_of_mem {mode : String} (known : mode ∈ MODES) : mode ≠ "" := by
  rintro rfl
  exact absurd known (by decide)

/-- The fields stored of a benchmark that ran at a format. -/
def storedFields (ran mode why : String) (trials : List Json) : Object :=
  [("precision", .str ran), ("precision_mode", .str mode)]
  ++ (if trials = [] then [] else [("precision_trials", .arr trials), ("precision_why", .str why)])

theorem candidateTrials_isObject {outcome : BenchMachine.Outcome} {candidate : String} {trial : Json}
    (member : trial ∈ candidateTrials outcome candidate)
    : trial.asObject?.isSome := by
  unfold candidateTrials at member
  split at member
  · rw [List.mem_singleton.mp member]
    rfl
  · obtain ⟨measured, -, rfl⟩ := List.mem_map.mp member
    rfl

theorem reportedTrials_isObject {outcome : BenchMachine.Outcome} {trial : Json}
    (member : trial ∈ reportedTrials outcome)
    : trial.asObject?.isSome := by
  unfold reportedTrials at member
  split at member
  · cases member
  · obtain ⟨candidate, -, inTrials⟩ := List.mem_flatMap.mp member
    exact candidateTrials_isObject inTrials

theorem completeDone_of_format {row : Generation} {mode ran : String}
    {outcome : BenchMachine.Outcome} (applies : row.precisionApplies = true) (named : mode ≠ "")
    (precision : outcome.precision = some ran) (format : isFormat ran = true)
    : completeDone row (benchDone mode outcome)
      = storedFields ran mode outcome.why (reportedTrials outcome) := by
  have keepsRan : (some ran).filter isFormat = some ran := by
    rw [Option.filter_some, if_pos format]
  have keepsMode : (some mode).filter (fun x => !decide (x = "")) = some mode := by
    rw [Option.filter_some, if_pos (by simpa using named)]
  by_cases measured : outcome.tried.measured = []
  · simp [completeDone, benchDone, benchText, precision, measured, keepsRan, keepsMode, applies,
      storedFields, reportedTrials]
  · have all : (reportedTrials outcome).filter (fun tried => tried.asObject?.isSome)
        = reportedTrials outcome :=
      List.filter_eq_self.mpr fun _ => reportedTrials_isObject
    have reported : outcome.candidates.flatMap (candidateTrials outcome)
        = reportedTrials outcome :=
      (if_neg measured).symm
    simp only [completeDone, benchDone, benchText, precision, measured, if_false, reported]
    cases trials : reportedTrials outcome with
    | nil => simp [keepsRan, keepsMode, applies, storedFields]
    | cons trial rest =>
        rw [trials] at all
        simp [keepsRan, keepsMode, applies, storedFields, all]

theorem saidField_str {data : Object} {field text : String} (filled : text ≠ "")
    (stored : Object.get? data field = some (.str text))
    : saidField data field = some (.str text) := by
  unfold saidField
  rw [stored, Option.filter_some, if_pos]
  simpa [truthy] using filled

theorem persistProfile_storedFields {ran mode why : String} {trials : List Json}
    (filled : ran ≠ "") (named : mode ≠ "")
    : persistProfile (extendData queuedData (storedFields ran mode why trials))
      = storedFields ran mode why trials := by
  have keepsRan : saidField (extendData queuedData (storedFields ran mode why trials)) "precision"
      = some (.str ran) := by
    refine saidField_str filled ?_
    cases trials <;> rfl
  have keepsMode
      : saidField (extendData queuedData (storedFields ran mode why trials)) "precision_mode"
        = some (.str mode) := by
    refine saidField_str named ?_
    cases trials <;> rfl
  unfold persistProfile
  dsimp only
  rw [keepsRan, keepsMode]
  cases trials <;> rfl

theorem storedBench_of_format {row : Generation} {mode ran : String}
    {outcome : BenchMachine.Outcome} (applies : row.precisionApplies = true) (named : mode ≠ "")
    (precision : outcome.precision = some ran) (format : isFormat ran = true)
    : storedBench row (benchDone mode outcome)
      = storedFields ran mode outcome.why (reportedTrials outcome) := by
  have filled : ran ≠ "" := by
    rintro rfl
    exact absurd format (by decide)
  unfold storedBench
  rw [completeDone_of_format applies named precision format]
  exact persistProfile_storedFields filled named

theorem storedBench_of_no_format {row : Generation} {mode ran : String}
    {outcome : BenchMachine.Outcome} (precision : outcome.precision = some ran)
    (noFormat : isFormat ran = false)
    : storedBench row (benchDone mode outcome) = [] := by
  have dropped : (some ran).filter isFormat = none := by
    rw [Option.filter_some, if_neg (by simp [noFormat])]
  have none_kept : completeDone row (benchDone mode outcome) = [] := by
    simp [completeDone, benchDone, precision, dropped]
  unfold storedBench
  rw [none_kept]
  rfl

-- What the stored trials tell

theorem candidateTrials_isTrial {outcome : BenchMachine.Outcome} {candidate : String} {trial : Json}
    (member : trial ∈ candidateTrials outcome candidate)
    : IsTrial trial candidate := by
  unfold candidateTrials at member
  split at member
  · rw [List.mem_singleton.mp member]
    exact ⟨_, _, rfl, rfl, rfl⟩
  · obtain ⟨measured, kept, rfl⟩ := List.mem_map.mp member
    obtain ⟨-, own⟩ := List.mem_filter.mp kept
    obtain rfl : measured.1 = candidate := by simpa using own
    exact ⟨_, _, rfl, rfl, rfl⟩

theorem candidateTrials_ne_nil_iff {outcome : BenchMachine.Outcome} {candidate : String}
    : candidateTrials outcome candidate ≠ [] ↔ candidate ∈ outcome.tried.names := by
  unfold candidateTrials Tried.names
  split_ifs with unrunnable
  · simp [unrunnable]
  · simp [unrunnable]

theorem mem_benchTrials_storedFields {outcome : BenchMachine.Outcome} {ran mode fmt : String}
    : fmt ∈ (benchTrials (some (storedFields ran mode outcome.why
          (reportedTrials outcome)))).map Prod.fst
      ↔ outcome.tried.measured ≠ [] ∧ fmt ∈ outcome.candidates ∧ fmt ∈ outcome.tried.names
        ∧ isFormat fmt = true := by
  have read : (benchTrials (some (storedFields ran mode outcome.why
        (reportedTrials outcome)))).map Prod.fst
      = (reportedTrials outcome).filterMap (fun trial => (benchTrial trial).map Prod.fst) := by
    cases trials : reportedTrials outcome with
    | nil => rfl
    | cons trial rest =>
        rw [← List.map_filterMap]
        rfl
  rw [read, List.mem_filterMap]
  constructor
  · rintro ⟨trial, member, found⟩
    unfold reportedTrials at member
    split_ifs at member with measured
    · cases member
    · obtain ⟨candidate, usable, own⟩ := List.mem_flatMap.mp member
      rw [benchTrial_of_isTrial (candidateTrials_isTrial own)] at found
      split_ifs at found with format
      cases found
      exact ⟨measured, usable, candidateTrials_ne_nil_iff.mp (List.ne_nil_of_mem own), format⟩
  · rintro ⟨measured, usable, turn, format⟩
    obtain ⟨trial, own⟩ := List.exists_mem_of_ne_nil _ (candidateTrials_ne_nil_iff.mpr turn)
    refine ⟨trial, ?_, ?_⟩
    · unfold reportedTrials
      rw [if_neg measured]
      exact List.mem_flatMap.mpr ⟨fmt, usable, own⟩
    · rw [benchTrial_of_isTrial (candidateTrials_isTrial own), if_pos format]

theorem benchPrecision_storedFields {ran mode why : String} {trials : List Json}
    (format : isFormat ran = true)
    : benchPrecision (storedFields ran mode why trials) = some ran := by
  have read : benchText (storedFields ran mode why trials) "precision" = some ran := by
    cases trials <;> rfl
  have kept : (benchText (storedFields ran mode why trials) "precision").filter isFormat
      = some ran := by
    rw [read, Option.filter_some, if_pos format]
  simp only [benchPrecision, kept]

theorem measuredFor_storedFields {ran mode why : String} {trials : List Json}
    (known : mode ∈ MODES)
    : ((benchText (storedFields ran mode why trials) "precision_mode").filter (· ≠ "")).map
          (fun m => normalizeMode (some m))
      = some (some mode) := by
  have read : benchText (storedFields ran mode why trials) "precision_mode" = some mode := by
    cases trials <;> rfl
  rw [read, Option.filter_some, if_pos (by simpa using named_of_mem known), Option.map_some,
    normalizeMode_of_mem known]

theorem staleBenchReason_of_storedFields {engine mode ran why : String} {trials : List Json}
    {supported : SortedSet String} (capable : isPrecisionEngine engine = true)
    (known : mode ∈ MODES) (format : isFormat ran = true)
    (eligible : (resolveMode engine mode (some supported) none "").eligible = true)
    (needed : needsBench mode (resolveMode engine mode (some supported) none "").usable = true)
    : staleBenchReason (some engine) (storedFields ran mode why trials) mode (some supported) = none
      ↔ ∀ fmt, fmt ∈ (benchTrials (some (storedFields ran mode why trials))).map Prod.fst
          ↔ fmt ∈ (resolveMode engine mode (some supported) none "").usable := by
  have sameSets : SortedSet.ofList
        ((benchTrials (some (storedFields ran mode why trials))).map Prod.fst)
        = SortedSet.ofList (resolveMode engine mode (some supported) none "").usable
      ↔ ∀ fmt, fmt ∈ (benchTrials (some (storedFields ran mode why trials))).map Prod.fst
          ↔ fmt ∈ (resolveMode engine mode (some supported) none "").usable := by
    constructor
    · intro same fmt
      rw [← SortedSet.mem_ofList, same, SortedSet.mem_ofList]
    · intro same
      refine SortedSet.ext_mem fun fmt => ?_
      rw [SortedSet.mem_ofList, SortedSet.mem_ofList]
      exact same fmt
  rw [← sameSets]
  simp only [staleBenchReason, Option.filter_some, capable, if_true, Option.bind_eq_bind,
    Option.bind_some, benchPrecision_storedFields format, measuredFor_storedFields known, ne_eq,
    normalizeMode_of_mem known, Option.join_some, not_true_eq_false, decide_false,
    Bool.false_eq_true, if_false, eligible, Bool.not_true, needed, Option.getD_some, false_or]
  split_ifs with differ <;> simp [differ]

-- What a mode comes to

theorem precisionApplies_iff {row : Generation}
    : row.precisionApplies = true ↔ isPrecisionEngine row.engine = true := by
  simp only [Generation.precisionApplies, Generation.engineSpec, ENGINES, isPrecisionEngine,
    List.find?_cons, List.find?_nil]
  by_cases nova : "hayai-nova" = row.engine
  · simp [← nova]
  · by_cases manga : "paddle-manga" = row.engine
    · simp [← manga]
    · by_cases ppocr : "ppocr-manga" = row.engine
      · simp [← ppocr]
      · simp [nova, manga, ppocr, Ne.symm nova, Ne.symm manga]

theorem nodup_withVariants {bases : List String} {supported : SortedSet String}
    (distinct : bases.Nodup) (precisions : ∀ base ∈ bases, base ∈ PRECISIONS)
    : (withVariants bases supported).Nodup := by
  unfold withVariants
  refine List.nodup_flatMap.mpr ⟨?_, ?_⟩
  · intro base member
    refine List.nodup_cons.mpr ⟨?_, (supported.increasing.imp ne_of_lt).filter _⟩
    simp [(formatBackend_of_precision (precisions base member)).1]
  · have own : ∀ base ∈ bases, ∀ fmt ∈ base :: supported.elements.filter
        (fun fmt => (formatBackend fmt).isSome && baseFormat fmt == base),
        baseFormat fmt = base := by
      intro base member fmt variant
      rcases List.mem_cons.mp variant with rfl | variant
      · exact (formatBackend_of_precision (precisions _ member)).2
      · have both := (List.mem_filter.mp variant).2
        simp only [Bool.and_eq_true, beq_iff_eq] at both
        exact both.2
    refine distinct.imp_of_mem ?_
    intro left right inLeft inRight ne fmt ofLeft ofRight
    exact ne ((own left inLeft fmt ofLeft).symm.trans (own right inRight fmt ofRight))

theorem nodup_runnableBases {engine mode : String} {supported : SortedSet String}
    : (runnableBases engine mode supported).Nodup := by
  have distinct : (candidates engine mode).Nodup := by
    unfold candidates
    split_ifs <;> decide
  unfold runnableBases
  dsimp only
  split_ifs
  · exact distinct.filter _
  · exact (distinct.filter _).sublist (List.take_sublist _ _)

theorem ranFormat_of_precision {base : String} (precision : base ∈ PRECISIONS)
    : ranFormat base = some base := by
  obtain ⟨plain, own⟩ := formatBackend_of_precision precision
  unfold ranFormat
  rw [own, plain, if_pos precision]

theorem startBases_eq {engine mode : String} {supported : SortedSet String} (known : mode ∈ MODES)
    (unforced : ¬isForced mode = true)
    : (if mode = MODE_ACCURACY
        then ((candidates engine mode).filter (fun c => c = FP32 ∨ c ∈ supported)).take 1
        else (candidates engine mode).filter (fun c => c = FP32 ∨ c ∈ supported))
      = runnableBases engine mode supported := by
  have benched : isBenched mode = true ↔ mode ≠ MODE_ACCURACY := by
    revert mode
    decide
  unfold runnableBases
  dsimp only
  by_cases accuracy : mode = MODE_ACCURACY
  · rw [if_pos accuracy, if_neg (fun bench => benched.mp bench accuracy)]
  · rw [if_neg accuracy, if_pos (benched.mpr accuracy)]

theorem engineResolve_mem_usable {engine mode ready : String} {supported : SortedSet String}
    (capable : isPrecisionEngine engine = true) (known : mode ∈ MODES)
    (started : engineResolve engine mode supported = some ready)
    : ready ∈ (resolveMode engine mode (some supported) none "").usable := by
  unfold engineResolve at started
  simp only [normalizeMode_of_mem known, Option.getD_some] at started
  by_cases forced : isForced mode = true
  · rw [if_pos forced] at started
    split_ifs at started with reported
    have precision : mode ∈ PRECISIONS := by simpa [isForced] using forced
    obtain rfl : mode = ready := by
      simpa only [ranFormat_of_precision precision, Option.some.injEq] using started
    simp [resolveMode, normalizeMode_of_mem known, capable, forced, reported, mem_withVariants]
  · rw [if_neg forced, startBases_eq known forced, head_withVariants] at started
    obtain ⟨base, first, ran⟩ := Option.bind_eq_some_iff.mp started
    have member : base ∈ runnableBases engine mode supported := List.mem_of_head? first
    obtain rfl : base = ready := by
      simpa only [ranFormat_of_precision (precision_of_mem_bases member), Option.some.injEq]
        using ran
    have variant := (@mem_withVariants base _ supported).mpr (.inl member)
    simp only [resolveMode, normalizeMode_of_mem known, capable, forced, Option.getD_some,
      Bool.not_true, Bool.false_eq_true, if_false, Option.filter_none]
    split_ifs <;> exact variant

-- Settling

/-- Every candidate has its turn, one loads, and all of them are formats. -/
structure AllTried (machine : BenchMachine) (usable : List String) : Prop where
  inTime : machine.inTime false usable = true
  loads : ∃ candidate ∈ usable, (machine.attempt candidate).loads = true
  formats : ∀ candidate ∈ usable, isFormat candidate = true

theorem pickPrecision_mem {trials : List (String × ℚ)} {usable : List String}
    {chosen : String × String} (picked : pickPrecision trials usable = some chosen)
    : chosen.1 ∈ usable := by
  unfold pickPrecision at picked
  obtain ⟨fastest, -, picked⟩ := Option.bind_eq_some_iff.mp picked
  obtain ⟨fmt, found, picked⟩ := Option.bind_eq_some_iff.mp picked
  have member : fmt ∈ usable := List.mem_of_find?_eq_some found
  dsimp only at picked
  split_ifs at picked <;> cases picked <;> exact member

theorem precisionPhase_ensures {machine : BenchMachine} {usable : List String}
    {outcome : BenchMachine.Outcome} (some_usable : usable ≠ [])
    (ended : machine.precisionPhase usable = some outcome)
    : (∃ ran ∈ usable, outcome.precision = some ran) ∧ outcome.candidates = usable
      ∧ machine.tryCandidates {} usable = some outcome.tried := by
  unfold BenchMachine.precisionPhase at ended
  obtain ⟨tried, done, ended⟩ := Option.bind_eq_some_iff.mp ended
  have picked : ((pickPrecision tried.measured usable).getD (usable.headD "", "")).1 ∈ usable := by
    cases pick : pickPrecision tried.measured usable with
    | none => cases usable <;> simp_all
    | some chosen => exact pickPrecision_mem pick
  dsimp only at ended
  split_ifs at ended
  cases ended
  exact ⟨⟨_, picked, rfl⟩, rfl, done⟩

theorem runBenchmark_cases {engine mode : String} {machine : BenchMachine} {event : Object}
    (known : mode ∈ MODES) (finished : runBenchmark engine mode machine = some event)
    : (precisionCandidates engine mode machine.formats = []
        ∧ ∃ ready, engineResolve engine mode machine.formats = some ready
          ∧ event = benchDone mode { precision := some ready })
      ∨ (precisionCandidates engine mode machine.formats ≠ []
        ∧ ∃ outcome,
          machine.precisionPhase (precisionCandidates engine mode machine.formats) = some outcome
          ∧ event = benchDone mode outcome) := by
  unfold runBenchmark at finished
  simp only [normalizeMode_of_mem known, Option.getD_some] at finished
  obtain ⟨ready, started, finished⟩ := Option.bind_eq_some_iff.mp finished
  by_cases settled : precisionCandidates engine mode machine.formats = []
  · simp only [settled, if_true, Option.bind_eq_bind, Option.bind_some] at finished
    split_ifs at finished
    exact .inl ⟨settled, ready, started, (Option.some.inj finished).symm⟩
  · simp only [settled, if_false] at finished
    obtain ⟨outcome, phase, finished⟩ := Option.bind_eq_some_iff.mp finished
    split_ifs at finished
    exact .inr ⟨settled, outcome, phase, (Option.some.inj finished).symm⟩

theorem fresh_of_no_candidates {row : Generation} {ready : String} {supported : SortedSet String}
    (applies : row.precisionApplies = true) (known : row.precision ∈ MODES)
    (settled : precisionCandidates row.engine row.precision supported = [])
    (started : engineResolve row.engine row.precision supported = some ready)
    : staleBenchReason (some row.engine)
        (storedBench row (benchDone row.precision { precision := some ready })) row.precision
        (some supported) = none := by
  have capable := precisionApplies_iff.mp applies
  have named := named_of_mem known
  have picked := engineResolve_mem_usable capable known started
  obtain ⟨eligible, usable, precision⟩ := resolveMode_of_usable capable known picked
  have enough : needsBench row.precision
      (resolveMode row.engine row.precision (some supported) none "").usable = false := by
    by_contra needed
    simp only [Bool.not_eq_false] at needed
    simp only [precisionCandidates, capable, needed, Bool.not_true, Bool.false_eq_true, if_false,
      if_true] at settled
    rw [settled] at picked
    cases picked
  rw [usable] at picked enough
  have first := head_of_not_needsBench picked enough
  have base : ready ∈ PRECISIONS := precision_of_mem_bases (List.mem_of_head? first)
  have format : isFormat ready = true := by
    simp [isFormat, formatBackend_of_precision base, base]
  rw [storedBench_of_format applies named rfl format]
  simp only [staleBenchReason, Option.filter_some, capable, if_true, Option.bind_eq_bind,
    Option.bind_some, benchPrecision_storedFields format, measuredFor_storedFields known, ne_eq,
    Option.join_some, not_true_eq_false, decide_false, Bool.false_eq_true, if_false, eligible,
    Bool.not_true, usable, enough, precision, first, Option.map_none]

/-- A benchmark that ends stays fresh for the same mode and formats exactly when there was nothing
to choose between or every candidate was tried, one with success.
-/
theorem finished_bench_fresh_iff {row : Generation} {machine : BenchMachine} {event : Object}
    (applies : row.precisionApplies = true) (known : row.precision ∈ MODES)
    (finished : runBenchmark row.engine row.precision machine = some event)
    : staleBenchReason (some row.engine) (storedBench row event) row.precision
          (some machine.formats) = none
      ↔ precisionCandidates row.engine row.precision machine.formats = []
        ∨ AllTried machine (precisionCandidates row.engine row.precision machine.formats) := by
  have capable := precisionApplies_iff.mp applies
  have named := named_of_mem known
  rcases runBenchmark_cases known finished with
    ⟨settled, ready, started, rfl⟩ | ⟨unsettled, outcome, phase, rfl⟩
  · simp only [settled, true_or, iff_true]
    exact fresh_of_no_candidates applies known settled started
  · have needed : needsBench row.precision
        (resolveMode row.engine row.precision (some machine.formats) none "").usable = true := by
      by_contra enough
      exact unsettled (by simp [precisionCandidates, capable, enough])
    have all : precisionCandidates row.engine row.precision machine.formats
        = (resolveMode row.engine row.precision (some machine.formats) none "").usable := by
      simp [precisionCandidates, capable, needed]
    obtain ⟨⟨ran, picked, precision⟩, reported, done⟩ := precisionPhase_ensures unsettled phase
    rw [all] at unsettled picked reported done ⊢
    obtain ⟨eligible, variants, -⟩ := resolveMode_of_usable capable known picked
    simp only [unsettled, false_or]
    have complete := BenchMachine.tryCandidates_complete done
      (variants ▸ nodup_withVariants nodup_runnableBases fun _ => precision_of_mem_bases)
      (by simp [Tried.names])
    have measured := BenchMachine.tryCandidates_measured done
    by_cases format : isFormat ran = true
    · rw [storedBench_of_format applies named precision format,
        staleBenchReason_of_storedFields capable known format eligible needed]
      simp only [mem_benchTrials_storedFields, reported]
      constructor
      · intro same
        obtain ⟨loaded, -, -, -⟩ := (same ran).mpr picked
        refine ⟨?_, ?_, fun fmt member => ((same fmt).mpr member).2.2.2⟩
        · refine complete.mp fun fmt member => ((same fmt).mpr member).2.2.1
        · by_contra stuck
          refine loaded (measured.mpr ⟨rfl, fun candidate member => ?_⟩)
          simpa using fun loads => stuck ⟨candidate, member, loads⟩
      · rintro ⟨inTime, ⟨loaded, member, loads⟩, formats⟩ fmt
        refine ⟨fun trial => trial.2.1, fun usable => ⟨?_, usable, ?_, formats fmt usable⟩⟩
        · intro nothing
          exact absurd loads (by simp [(measured.mp nothing).2 loaded member])
        · exact complete.mpr inTime fmt usable
    · rw [storedBench_of_no_format precision (by simpa using format)]
      constructor
      · intro fresh
        simp [staleBenchReason, capable, benchPrecision, benchText, Object.get?] at fresh
      · rintro ⟨-, -, formats⟩
        exact absurd (formats ran picked) format

-- A machine out of time

def balancedRow : Generation where
  id := "g"
  name := "main"
  engine := "hayai-nova"
  primary := true
  enabled := true
  detector := none
  patchBudget := 512
  precision := MODE_BALANCED
  retired := none

/-- A machine of both formats whose time may be up when the second one's turn comes. -/
def pairMachine (outOfTime : Bool) : BenchMachine where
  formats := .ofList [BF16, FP32]
  attempt fmt :=
    if fmt = FP32 then { outOfTime := outOfTime, rate := some 1 } else { rate := some 2 }

/-- What the two-format machine reports. -/
def pairEvent (outOfTime : Bool) : Object :=
  (runBenchmark balancedRow.engine balancedRow.precision (pairMachine outOfTime)).getD []

theorem pairMachine_finished (outOfTime : Bool)
    : runBenchmark balancedRow.engine balancedRow.precision (pairMachine outOfTime)
      = some (pairEvent outOfTime) := by
  cases outOfTime <;> decide +kernel

/-- In time, both formats are tried and the benchmark stays fresh. -/
theorem pair_in_time_fresh
    : staleBenchReason (some balancedRow.engine) (storedBench balancedRow (pairEvent false))
        balancedRow.precision (some (pairMachine false).formats) = none :=
  (finished_bench_fresh_iff (by decide) (by decide) (pairMachine_finished false)).mpr (.inr {
    inTime := by decide +kernel
    loads := ⟨BF16, by decide +kernel, by decide +kernel⟩
    formats := by decide +kernel
  })

/-- Out of time after the first format, the machine's benchmark is stale at once. -/
theorem finished_bench_stale
    : ¬ ∀ (row : Generation) (machine : BenchMachine) (event : Object),
        row.precisionApplies = true → row.precision ∈ MODES →
        runBenchmark row.engine row.precision machine = some event →
        staleBenchReason (some row.engine) (storedBench row event) row.precision
          (some machine.formats) = none := by
  intro fresh
  have stale := fresh balancedRow (pairMachine true) (pairEvent true) (by decide) (by decide)
    (pairMachine_finished true)
  exact absurd stale (by decide +kernel)

end MokuroBunko.Server
