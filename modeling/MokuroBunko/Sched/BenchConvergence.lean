import MokuroBunko.Sched.Precision

/-! Whether a benchmark just recorded settles a machine's row: it is not stale, it gives the
pick, and no further one is called for.
-/

namespace MokuroBunko.Sched

open MokuroBunko.Lib MokuroBunko.Data

-- Formats

theorem formatBackend_eq_some_iff {fmt backend : String}
    : formatBackend fmt = some backend ↔ fmt = baseFormat fmt ++ "@" ++ backend := by
  unfold formatBackend baseFormat Text.splitOnce
  cases split : Text.splitFirst BACKEND_SEP fmt.toList with
  | none =>
      have absent : BACKEND_SEP ∉ fmt.toList := by
        rw [← Text.splitFirst_isSome_iff, split]
        simp
      constructor
      · simp
      · intro joined
        have present : BACKEND_SEP ∈ fmt.toList := by
          rw [joined]
          simp [BACKEND_SEP]
        exact absurd present absent
  | some parts =>
      obtain ⟨before, after⟩ := parts
      obtain ⟨chars, -⟩ := Text.splitFirst_eq_some_iff.mp split
      have joined : fmt = String.ofList before ++ "@" ++ String.ofList after := by
        apply String.toList_injective
        simp [chars, BACKEND_SEP]
      constructor
      · intro same
        have backendEq : String.ofList after = backend := by simpa using same
        rw [← backendEq]
        exact joined
      · intro same
        have both := joined.symm.trans same
        simp only [Option.map_some, Option.getD_some, String.append_assoc] at both ⊢
        exact congrArg some (by simpa using both)

theorem formatBackend_of_precision {base : String} (precision : base ∈ PRECISIONS)
    : formatBackend base = none ∧ baseFormat base = base := by
  revert base
  decide

theorem formatBackend_bare {base : String} (precision : base ∈ PRECISIONS)
    : formatBackend (base ++ "@") = some "" ∧ baseFormat (base ++ "@") = base := by
  revert base
  decide

theorem normalizeMode_of_mem {mode : String} (known : mode ∈ MODES)
    : normalizeMode (some mode) = some mode := by
  revert mode
  decide

theorem mem_withVariants {fmt : String} {bases : List String} {supported : SortedSet String}
    : fmt ∈ withVariants bases supported
      ↔ fmt ∈ bases
        ∨ (fmt ∈ supported ∧ (formatBackend fmt).isSome ∧ baseFormat fmt ∈ bases) := by
  simp only [withVariants, List.mem_flatMap, List.mem_cons, List.mem_filter, Bool.and_eq_true,
    beq_iff_eq, SortedSet.mem_def]
  constructor
  · rintro ⟨base, member, rfl | ⟨reported, backend, rfl⟩⟩
    · exact .inl member
    · exact .inr ⟨reported, backend, member⟩
  · rintro (member | ⟨reported, backend, member⟩)
    · exact ⟨fmt, member, .inl rfl⟩
    · exact ⟨baseFormat fmt, member, .inr ⟨reported, backend, rfl⟩⟩

theorem head_withVariants (bases : List String) (supported : SortedSet String)
    : (withVariants bases supported).head? = bases.head? := by
  cases bases <;> rfl

theorem precision_of_mem_bases {engine mode base : String} {supported : SortedSet String}
    (member : base ∈ runnableBases engine mode supported)
    : base ∈ PRECISIONS := by
  have candidate : base ∈ candidates engine mode := by
    unfold runnableBases at member
    dsimp only at member
    split_ifs at member
    · exact (List.mem_filter.mp member).1
    · exact (List.mem_filter.mp (List.mem_of_mem_take member)).1
  unfold candidates at candidate
  split_ifs at candidate <;>
    simp only [List.mem_cons, List.not_mem_nil, or_false] at candidate
  all_goals
    rcases candidate with rfl | rfl | rfl <;> decide

theorem baseFormat_of_mem_usable {engine mode fmt : String} {supported : SortedSet String}
    (member : fmt ∈ withVariants (runnableBases engine mode supported) supported)
    : baseFormat fmt ∈ runnableBases engine mode supported := by
  rcases mem_withVariants.mp member with base | ⟨-, -, base⟩
  · rwa [(formatBackend_of_precision (precision_of_mem_bases base)).2]
  · exact base

theorem isFormat_of_mem_usable {engine mode fmt : String} {supported : SortedSet String}
    (member : fmt ∈ withVariants (runnableBases engine mode supported) supported)
    (named : formatBackend fmt ≠ some "")
    : isFormat fmt = true := by
  have base := precision_of_mem_bases (baseFormat_of_mem_usable member)
  cases backend : formatBackend fmt with
  | none => simp [isFormat, base, backend]
  | some text =>
      have filled : text ≠ "" := by
        rintro rfl
        exact named backend
      simp [isFormat, base, backend, filled]

-- Resolution

theorem runnableBases_of_forced {engine mode : String} {supported : SortedSet String}
    (capable : isPrecisionEngine engine = true) (forced : isForced mode = true)
    (reported : mode ∈ supported)
    : runnableBases engine mode supported = [mode] := by
  have single : candidates engine mode = [mode] := by
    have which : mode = BF16 ∨ mode = FP16 ∨ mode = FP32 := by
      simpa [isForced, PRECISIONS] using forced
    rcases which with rfl | rfl | rfl <;> simp [candidates, capable, BF16, FP16, FP32]
  simp [runnableBases, single, reported]

theorem resolveMode_of_usable {engine mode ran : String} {supported : SortedSet String}
    (capable : isPrecisionEngine engine = true) (known : mode ∈ MODES)
    (picked : ran ∈ (resolveMode engine mode (some supported) none "").usable)
    : (resolveMode engine mode (some supported) none "").eligible = true
      ∧ (resolveMode engine mode (some supported) none "").usable
        = withVariants (runnableBases engine mode supported) supported
      ∧ (resolveMode engine mode (some supported) none "").precision
        = (runnableBases engine mode supported).head? := by
  unfold resolveMode at picked ⊢
  simp only [normalizeMode_of_mem known, Option.getD_some, capable, Bool.not_true,
    Bool.false_eq_true, if_false, Option.elim_some, Option.filter_none] at picked ⊢
  by_cases forced : isForced mode = true
  · simp only [forced, if_true] at picked ⊢
    by_cases reported : mode ∈ supported
    · simp [reported, runnableBases_of_forced capable forced reported]
    · simp [reported] at picked
  · simp only [forced, Bool.false_eq_true, if_false] at picked ⊢
    rw [← head_withVariants (runnableBases engine mode supported) supported]
    have some_usable : withVariants (runnableBases engine mode supported) supported ≠ [] := by
      intro empty
      simp only [empty] at picked
      split_ifs at picked <;> simp at picked
    obtain ⟨first, rest, usable⟩ := List.exists_cons_of_ne_nil some_usable
    rw [usable]
    split_ifs <;> simp

theorem head_of_not_needsBench {engine mode ran : String} {supported : SortedSet String}
    (picked : ran ∈ withVariants (runnableBases engine mode supported) supported)
    (settled : needsBench mode (withVariants (runnableBases engine mode supported) supported)
      = false)
    : (runnableBases engine mode supported).head? = some ran := by
  simp only [needsBench, Bool.or_eq_false_iff, Bool.and_eq_false_iff, decide_eq_false_iff_not,
    List.any_eq_false, Option.not_isSome_iff_eq_none] at settled
  obtain ⟨few, plain⟩ := settled
  rw [← head_withVariants _ supported]
  rcases few with unbenched | few
  · have base : ran ∈ runnableBases engine mode supported := by
      rcases mem_withVariants.mp picked with base | ⟨-, backend, -⟩
      · exact base
      · simp [plain ran picked] at backend
    have single : (runnableBases engine mode supported).length ≤ 1 := by
      simp [runnableBases, unbenched]
    rw [head_withVariants]
    match bases : runnableBases engine mode supported, single with
    | [], _ => simp [bases] at base
    | [only], _ =>
        have same : ran = only := by simpa [bases] using base
        simp [same]
  · match usable : withVariants (runnableBases engine mode supported) supported, few with
    | [], _ => simp [usable] at picked
    | [only], _ =>
        have same : ran = only := by simpa [usable] using picked
        simp [same]
    | _ :: _ :: _, few => simp at few

-- Recorded benchmarks

/-- A stored trial of a format, with a rate. -/
def IsTrial (trial : Json) (fmt : String) : Prop :=
  ∃ fields rate, trial = .obj fields ∧ Object.get? fields "precision" = some (.str fmt)
    ∧ Object.get? fields "pages_per_second" = some (.num rate)

/-- A benchmark recorded for a mode: its trials are exactly the usable formats and the one
it ran at is among them.
-/
structure RecordedFor (bench : Object) (mode ran : String) (usable : List String) : Prop where
  taken : benchText bench "precision_mode" = some mode
  kept : benchText bench "precision" = some ran
  picked : ran ∈ usable
  trials : ∃ trials, Object.get? bench "precision_trials" = some (.arr trials)
    ∧ (∀ trial ∈ trials, ∃ fmt ∈ usable, IsTrial trial fmt)
    ∧ ∀ fmt ∈ usable, ∃ trial ∈ trials, IsTrial trial fmt

/-- The row's benchmark is settled: not stale, its format is the pick, and no further
benchmark is called for.
-/
structure Settled (row : Generation) (bench : Object) (supported : SortedSet String)
    (ran : String) : Prop where
  fresh : staleBenchReason (some row.engine) bench row.precision (some supported) = none
  pick : (benchPick (some bench) row.precision).1 = some ran
  enough : precisionPickNeeded row (some bench) (some supported) = false

theorem benchTrial_of_isTrial {trial : Json} {fmt : String} (stored : IsTrial trial fmt)
    : (benchTrial trial).map Prod.fst = if isFormat fmt then some fmt else none := by
  obtain ⟨fields, rate, rfl, precision, pagesPerSecond⟩ := stored
  simp only [benchTrial, Json.asObject?_obj, Option.bind_eq_bind, Option.bind_some, precision,
    Json.asStr?_str, pagesPerSecond, asFloat]
  split_ifs <;> rfl

theorem mem_benchTrials {bench : Object} {mode ran : String} {usable : List String}
    (recorded : RecordedFor bench mode ran usable) {fmt : String}
    : fmt ∈ (benchTrials (some bench)).map Prod.fst ↔ fmt ∈ usable ∧ isFormat fmt = true := by
  obtain ⟨trials, stored, each, all⟩ := recorded.trials
  have read : (benchTrials (some bench)).map Prod.fst
      = trials.filterMap (fun trial => (benchTrial trial).map Prod.fst) := by
    simp [benchTrials, stored, List.map_filterMap]
  rw [read, List.mem_filterMap]
  constructor
  · rintro ⟨trial, member, found⟩
    obtain ⟨own, usableOwn, isTrial⟩ := each trial member
    rw [benchTrial_of_isTrial isTrial] at found
    split_ifs at found with format
    cases found
    exact ⟨usableOwn, format⟩
  · rintro ⟨member, format⟩
    obtain ⟨trial, inTrials, isTrial⟩ := all fmt member
    exact ⟨trial, inTrials, by rw [benchTrial_of_isTrial isTrial, if_pos format]⟩

theorem benchPrecision_of_recorded {bench : Object} {mode ran : String} {usable : List String}
    (recorded : RecordedFor bench mode ran usable) (format : isFormat ran = true)
    : benchPrecision bench = some ran := by
  have kept : (benchText bench "precision").filter isFormat = some ran := by
    rw [recorded.kept, Option.filter_some, if_pos format]
  simp only [benchPrecision, kept]

theorem benchPick_of_recorded {bench : Object} {mode ran : String} {usable : List String}
    (recorded : RecordedFor bench mode ran usable) (format : isFormat ran = true)
    : (benchPick (some bench) mode).1 = some ran := by
  have tried : ran ∈ (benchTrials (some bench)).map Prod.fst :=
    (mem_benchTrials recorded).mpr ⟨recorded.picked, format⟩
  have present : benchTrials (some bench) ≠ [] := by
    intro empty
    simp [empty] at tried
  have counts : ¬ (benchTrials (some bench) = []
      ∨ ran ∉ (benchTrials (some bench)).map Prod.fst) := by
    rintro (empty | absent)
    · exact present empty
    · exact absent tried
  simp only [benchPick, recorded.taken, recorded.kept, ne_eq, not_true_eq_false, if_false,
    counts]

theorem measuredFor_of_recorded {bench : Object} {mode ran : String} {usable : List String}
    (recorded : RecordedFor bench mode ran usable) (known : mode ∈ MODES)
    : ((benchText bench "precision_mode").filter (· ≠ "")).map (fun m => normalizeMode (some m))
      = some (some mode) := by
  have named : mode ≠ "" := by
    rintro rfl
    exact absurd known (by decide)
  rw [recorded.taken, Option.filter_some, if_pos (by simpa using named), Option.map_some,
    normalizeMode_of_mem known]

theorem staleBenchReason_of_needsBench {engine mode ran : String} {bench : Object}
    {supported : SortedSet String} (capable : isPrecisionEngine engine = true)
    (known : mode ∈ MODES)
    (recorded : RecordedFor bench mode ran
      (resolveMode engine mode (some supported) none "").usable)
    (needed : needsBench mode (resolveMode engine mode (some supported) none "").usable = true)
    : staleBenchReason (some engine) bench mode (some supported) = none
      ↔ ∀ fmt ∈ (resolveMode engine mode (some supported) none "").usable,
          isFormat fmt = true := by
  obtain ⟨eligible, -, -⟩ := resolveMode_of_usable capable known recorded.picked
  have sameSets : SortedSet.ofList ((benchTrials (some bench)).map Prod.fst)
        = SortedSet.ofList (resolveMode engine mode (some supported) none "").usable
      ↔ ∀ fmt ∈ (resolveMode engine mode (some supported) none "").usable,
          isFormat fmt = true := by
    constructor
    · intro same fmt member
      have tried : fmt ∈ SortedSet.ofList ((benchTrials (some bench)).map Prod.fst) := by
        rw [same]
        simpa using member
      exact ((mem_benchTrials recorded).mp (by simpa only [SortedSet.mem_ofList] using tried)).2
    · intro formats
      refine SortedSet.ext_mem fun fmt => ?_
      rw [SortedSet.mem_ofList, SortedSet.mem_ofList, mem_benchTrials recorded]
      exact ⟨And.left, fun member => ⟨member, formats fmt member⟩⟩
  rw [← sameSets]
  cases ranAt : benchPrecision bench with
  | none =>
      -- The format that ran is none itself, so its trial does not count either.
      have unreadable : isFormat ran ≠ true := by
        intro format
        simp [benchPrecision_of_recorded recorded format] at ranAt
      have differ : ¬ ∀ fmt ∈ (resolveMode engine mode (some supported) none "").usable,
          isFormat fmt = true := fun formats => unreadable (formats ran recorded.picked)
      rw [sameSets]
      simp only [staleBenchReason, Option.filter_some, capable, if_true, Option.bind_eq_bind,
        Option.bind_some, ranAt, reduceCtorEq, false_iff]
      exact differ
  | some found =>
      simp only [staleBenchReason, Option.filter_some, capable, if_true, Option.bind_eq_bind,
        Option.bind_some, ranAt, measuredFor_of_recorded recorded known, ne_eq,
        normalizeMode_of_mem known, Option.join_some, not_true_eq_false, decide_false,
        Bool.false_eq_true, if_false, eligible, Bool.not_true, needed, Option.getD_some, false_or]
      split_ifs with differ <;> simp [differ]

/-- A base format the mode runs at whose bare variant the device reports: `fp32` and
`fp32@` with nothing behind the separator.
-/
def ReportsBareVariant (engine mode : String) (supported : SortedSet String) : Prop :=
  ∃ base ∈ runnableBases engine mode supported, base ++ "@" ∈ supported

theorem usable_isFormat_iff {engine mode : String} {supported : SortedSet String}
    : (∀ fmt ∈ withVariants (runnableBases engine mode supported) supported,
          isFormat fmt = true)
      ↔ ¬ ReportsBareVariant engine mode supported := by
  constructor
  · rintro formats ⟨base, member, reported⟩
    obtain ⟨backend, own⟩ := formatBackend_bare (precision_of_mem_bases member)
    have usable : base ++ "@" ∈ withVariants (runnableBases engine mode supported) supported :=
      mem_withVariants.mpr (.inr ⟨reported, by simp [backend], by rwa [own]⟩)
    simpa [isFormat, backend] using formats _ usable
  · intro unreported fmt usable
    refine isFormat_of_mem_usable usable ?_
    intro bare
    refine unreported ⟨baseFormat fmt, baseFormat_of_mem_usable usable, ?_⟩
    have whole : fmt = baseFormat fmt ++ "@" := by
      simpa using formatBackend_eq_some_iff.mp bare
    rcases mem_withVariants.mp usable with base | ⟨reported, -, -⟩
    · simp [(formatBackend_of_precision (precision_of_mem_bases base)).1] at bare
    · rwa [← whole]

/-- A benchmark recorded for what a row's mode resolves to settles the row exactly when the
device reports no bare variant of a base the mode runs at. Witness: the trials read back
are the usable formats that are formats, and only bare variants are usable without being
one.
-/
theorem recorded_bench_settles_iff {row : Generation} {bench : Object} {ran : String}
    {supported : SortedSet String} (capable : isPrecisionEngine row.engine = true)
    (known : row.precision ∈ MODES)
    (recorded : RecordedFor bench row.precision ran
      (resolveMode row.engine row.precision (some supported) none "").usable)
    : Settled row bench supported ran
      ↔ ¬ ReportsBareVariant row.engine row.precision supported := by
  obtain ⟨eligible, usable, precision⟩ :=
    resolveMode_of_usable capable known recorded.picked
  rw [← usable_isFormat_iff, ← usable]
  constructor
  · intro settled
    by_cases needed : needsBench row.precision
        (resolveMode row.engine row.precision (some supported) none "").usable = true
    · exact (staleBenchReason_of_needsBench capable known recorded needed).mp settled.fresh
    · intro fmt member
      rw [usable] at needed member
      refine isFormat_of_mem_usable member ?_
      intro bare
      refine needed ?_
      simp only [needsBench, Bool.or_eq_true, List.any_eq_true]
      exact .inr ⟨fmt, member, by simp [bare]⟩
  · intro formats
    have ranFormat : isFormat ran = true := formats ran recorded.picked
    have pick := benchPick_of_recorded recorded ranFormat
    refine ⟨?_, pick, ?_⟩
    · by_cases needed : needsBench row.precision
          (resolveMode row.engine row.precision (some supported) none "").usable = true
      · exact (staleBenchReason_of_needsBench capable known recorded needed).mpr formats
      · have first : (resolveMode row.engine row.precision (some supported) none "").precision
            = some ran := by
          rw [precision]
          exact head_of_not_needsBench (usable ▸ recorded.picked)
            (by simpa [← usable] using needed)
        simp only [staleBenchReason, Option.filter_some, capable, if_true, Option.bind_eq_bind,
          Option.bind_some, benchPrecision_of_recorded recorded ranFormat,
          measuredFor_of_recorded recorded known, ne_eq, Option.join_some, not_true_eq_false,
          decide_false, Bool.false_eq_true, if_false, eligible, Bool.not_true, needed, first,
          Option.map_none]
    · unfold precisionPickNeeded
      simp only [pick, Option.isNone_some]
      split_ifs <;> rfl

-- A device with a bare variant

def forcedRow : Generation where
  id := "g"
  name := "main"
  engine := "hayai-nova"
  primary := true
  enabled := true
  detector := none
  patchBudget := 512
  precision := FP32
  retired := none

/-- A trial object as a machine reports it. -/
def trialObject (fmt : String) (rate : ℚ) : Json :=
  .obj [("precision", .str fmt), ("pages_per_second", .num (.float rate))]

/-- A benchmark for the forced row that measured these formats and kept the first. -/
def forcedBench (formats : List String) : Object := [
  ("precision", .str FP32),
  ("precision_mode", .str FP32),
  ("precision_trials", .arr (formats.map (trialObject · 2)))
]

theorem forcedBench_recorded {formats : List String} {supported : SortedSet String}
    (picked : FP32 ∈ formats)
    (usable : (resolveMode "hayai-nova" FP32 (some supported) none "").usable = formats)
    : RecordedFor (forcedBench formats) FP32 FP32
        (resolveMode "hayai-nova" FP32 (some supported) none "").usable where
  taken := rfl
  kept := rfl
  picked := usable ▸ picked
  trials := by
    rw [usable]
    refine ⟨formats.map (trialObject · 2), rfl, ?_, ?_⟩
    · intro trial member
      obtain ⟨fmt, inFormats, rfl⟩ := List.mem_map.mp member
      exact ⟨fmt, inFormats, _, _, rfl, rfl, rfl⟩
    · intro fmt member
      exact ⟨trialObject fmt 2, List.mem_map.mpr ⟨fmt, member, rfl⟩, _, _, rfl, rfl, rfl⟩

/-- A device that reports `fp32` and `fp32@` makes the benchmark of both stale at once. -/
theorem bare_variant_not_settled
    : ¬ ∀ (bench : Object) (ran : String) (supported : SortedSet String),
        RecordedFor bench forcedRow.precision ran
          (resolveMode forcedRow.engine forcedRow.precision (some supported) none "").usable →
        Settled forcedRow bench supported ran := by
  intro settles
  have settled := settles (forcedBench [FP32, "fp32@"]) FP32 (.ofList [FP32, "fp32@"])
    (forcedBench_recorded (by decide) (by decide))
  exact absurd settled.fresh (by decide)

/-- A device that reports `fp32` and `fp32@ncnn` is settled by the benchmark of both. -/
theorem named_variant_settled
    : Settled forcedRow (forcedBench [FP32, "fp32@ncnn"]) (.ofList [FP32, "fp32@ncnn"]) FP32 :=
  (recorded_bench_settles_iff (by decide) (by decide)
    (forcedBench_recorded (by decide) (by decide))).mpr (by
      rintro ⟨base, member, reported⟩
      have single : runnableBases forcedRow.engine forcedRow.precision
          (.ofList [FP32, "fp32@ncnn"]) = [FP32] := by decide
      rw [single, List.mem_singleton] at member
      subst member
      exact absurd reported (by decide))

end MokuroBunko.Sched
