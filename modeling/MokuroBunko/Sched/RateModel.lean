import MokuroBunko.Sched.Rate

/-! The rate model: what a process measured, and the estimates it gives for a row and for a
machine. Every history of recordings keeps every estimate usable.
-/

namespace MokuroBunko.Sched

open MokuroBunko.Lib MokuroBunko.Data

-- One key's volumes

/-- `trim_front`: the last `keep` entries. -/
def trimFront {α : Type} (entries : List α) (keep : ℕ) : List α :=
  entries.drop (entries.length - keep)

/-- `SessionRate`: one key's completed volumes this process. -/
structure SessionRate where
  pagesPerSecond : ℚ := 0
  steady : ℤ := 0
  volumes : ℤ := 0
  pages : ℚ := 0
  openingRate : ℚ := 0
  samples : List (ℚ × ℚ) := []
  lastAt : ℚ := 0
  recent : List (ℚ × ℚ) := []

namespace SessionRate

/-- `SessionRate::add`: fold one volume in; an opening one stays out of the average. -/
def add (entry : SessionRate) (pages seconds alpha : ℚ) (steady : Bool) (now : ℚ)
    : Checked SessionRate := do
  let rate ← checkedDiv pages seconds
  let seen := { entry with
    lastAt := now
    volumes := entry.volumes + 1
    pages := entry.pages + pages
    recent := trimFront (entry.recent ++ [(pages, seconds)]) RECENT_VOLUMES
  }
  if !steady then
    return { seen with
      openingRate :=
        if seen.openingRate ≤ 0 then rate
        else alpha * rate + (1 - alpha) * seen.openingRate
    }
  else
    return { seen with
      pagesPerSecond :=
        if seen.steady = 0 then rate
        else alpha * rate + (1 - alpha) * seen.pagesPerSecond
      steady := seen.steady + 1
      samples := trimFront (seen.samples ++ [(pages, seconds)]) LATENCY_SAMPLES
    }

/-- The moving averages after a volume lie between the volume's rate and those before. -/
structure Averaged (before after : SessionRate) (rate : ℚ) : Prop where
  steady : Between after.pagesPerSecond rate before.pagesPerSecond
  opening : Between after.openingRate rate before.openingRate

theorem add_yields {alpha : ℚ} (nonneg : 0 ≤ alpha) (le_one : alpha ≤ 1)
    {pages seconds : ℚ} (admitted : 0 < seconds) (entry : SessionRate) (steady : Bool)
    (now : ℚ)
    : Checked.Yields (entry.add pages seconds alpha steady now)
        (fun after => after.pages = entry.pages + pages
          ∧ Averaged entry after (pages / seconds)) := by
  have kept : ∀ value : ℚ, Between value (pages / seconds) value :=
    fun value => ⟨min_le_right _ _, le_max_right _ _⟩
  have replaced : ∀ value : ℚ, Between (pages / seconds) (pages / seconds) value :=
    fun value => ⟨min_le_left _ _, le_max_left _ _⟩
  have mixed : ∀ value : ℚ,
      Between (alpha * (pages / seconds) + (1 - alpha) * value) (pages / seconds) value :=
    fun value => blend_between _ value nonneg le_one
  refine Checked.Yields.bind (.div admitted.ne') ?_
  rintro rate rfl
  cases steady with
  | false =>
      refine .pure ⟨rfl, kept _, ?_⟩
      by_cases fresh : entry.openingRate ≤ 0
      · simpa [fresh] using replaced entry.openingRate
      · simpa [fresh] using mixed entry.openingRate
  | true =>
      refine .pure ⟨rfl, ?_, kept _⟩
      by_cases fresh : entry.steady = 0
      · simpa [fresh] using replaced entry.pagesPerSecond
      · simpa [fresh] using mixed entry.pagesPerSecond

end SessionRate

-- The model and its recordings

/-- `RateModel`: the measurements of this process, per rate key. -/
structure RateModel where
  alpha : ℚ
  session : OrderedMap String SessionRate
  /-- The keys of `session` in the order they came. -/
  order : List String
  startup : OrderedMap String ℚ

/-- The two file-backed priors as one query reads them. -/
structure Priors where
  congestion : Object
  bench : Object

namespace RateModel

/-- `RateModel::new`. -/
def new (alpha : ℚ) : RateModel := ⟨alpha, .empty, [], .empty⟩

/-- `record_volume`: a pair that cannot make a rate is ignored. -/
def recordVolume (model : RateModel) (key : String) (pages seconds : ℚ)
    (firstOfSession : Bool) (now : ℚ) : Checked RateModel :=
  if pages ≤ 0 ∨ seconds ≤ 0 then .ok model
  else do
    let entry := (model.session.get? key).getD {}
    let entry ← entry.add pages seconds model.alpha (!firstOfSession) now
    return { model with
      session := model.session.insert key entry
      order := if model.session.contains key then model.order else model.order ++ [key]
    }

/-- `record_volume_values`: from raw event values. -/
def recordVolumeValues (model : RateModel) (key : String) (pages seconds : Option Json)
    (firstOfSession : Bool) (now : ℚ) : Checked RateModel :=
  match asFloat pages, asFloat seconds with
  | some pages, some seconds => model.recordVolume key pages seconds firstOfSession now
  | _, _ => .ok model

/-- `record_startup`: a negative duration is ignored. -/
def recordStartup (model : RateModel) (key : String) (seconds : ℚ) : RateModel :=
  if seconds < 0 then model else { model with startup := model.startup.insert key seconds }

/-- `forget`: drop a row's measurements on every machine. -/
def forget (model : RateModel) (generationId : String) : RateModel :=
  let kept := fun key : String =>
    !(key == generationId || Text.startsWith key (generationId ++ "@"))
  { model with
    session := model.session.retain (fun key _ => kept key)
    order := model.order.filter kept
    startup := model.startup.retain (fun key _ => kept key)
  }

-- Sources of an estimate

/-- A mean of two rates, taken in seconds per page. -/
def blendRates (weight rate other : ℚ) : Checked ℚ := do
  let perPage ← checkedDiv 1 rate
  let otherPerPage ← checkedDiv 1 other
  checkedDiv 1 (weight * perPage + (1 - weight) * otherPerPage)

theorem blendRates_yields {weight rate other : ℚ} (nonneg : 0 ≤ weight) (le_one : weight ≤ 1)
    (ratePos : 0 < rate) (otherPos : 0 < other)
    : Checked.Yields (blendRates weight rate other)
        (fun blended => Between blended rate other) := by
  have mixed := blend_between (1 / rate) (1 / other) nonneg le_one
  have mixedPos := mixed.lt (one_div_pos.mpr ratePos) (one_div_pos.mpr otherPos)
  refine Checked.Yields.bind (.div ratePos.ne') ?_
  rintro _ rfl
  refine Checked.Yields.bind (.div otherPos.ne') ?_
  rintro _ rfl
  refine (Checked.Yields.div mixedPos.ne').mono ?_
  rintro _ rfl
  exact mixed.one_div ratePos otherPos

/-- `session_rate`: the fit, else the steady average, else the opening volumes' rate. -/
def sessionRate (model : RateModel) (entry : Option SessionRate)
    : Checked (Option RateEstimate) :=
  match entry with
  | none => .ok none
  | some entry =>
      if entry.volumes = 0 then .ok none
      else do
        match ← fitVolumeCost entry.samples model.alpha with
        | some fit => fit.estimate (SOURCE_SESSION ++ FIT_SUFFIX) entry.volumes
        | none =>
            if 0 < entry.steady ∧ 0 < entry.pagesPerSecond then
              return some ⟨entry.pagesPerSecond, SOURCE_SESSION, entry.volumes, 0⟩
            else if 0 < entry.openingRate then
              return some ⟨entry.openingRate, SOURCE_SESSION_OPENING, entry.volumes, 0⟩
            else return none

/-- `over_prior`: the session's estimate blended over a prior, by the pages it finished. -/
def overPrior (model : RateModel) (key : String) (prior : Option RateEstimate)
    : Checked (Option RateEstimate) := do
  let entry := model.session.get? key
  let sessionPages := (entry.map SessionRate.pages).getD 0
  match ← model.sessionRate entry with
  | none => return prior
  | some session =>
      match prior with
      | none => return some session
      | some prior =>
          let weight ← checkedDiv sessionPages (sessionPages + SESSION_PRIOR_PAGES)
          let blended ← blendRates weight session.pagesPerSecond prior.pagesPerSecond
          let latency := weight * session.latencySeconds + (1 - weight) * prior.latencySeconds
          let source :=
            if 1 / 2 ≤ weight then session.source else session.source ++ "+" ++ prior.source
          return some ⟨blended, source, session.volumesObserved, latency⟩

/-- `with_inflight`: the volume in flight blended in once it has emitted enough pages. -/
def withInflight (base : Option RateEstimate) (observedPages : ℤ) (observedSeconds : ℚ)
    : Checked (Option RateEstimate) := do
  match ← emissionRate observedPages observedSeconds with
  | none => return base
  | some live =>
      if observedPages < MIN_INFLIGHT_PAGES then return base
      else
        match base with
        | none => return some ⟨live, SOURCE_VOLUME, 0, 0⟩
        | some base =>
            let n : ℚ := observedPages
            let weight ← checkedDiv n (n + BLEND_PRIOR_PAGES)
            let blended ← blendRates weight live base.pagesPerSecond
            return some ⟨blended, base.source ++ "+" ++ SOURCE_VOLUME, base.volumesObserved,
              base.latencySeconds⟩

/-- A field read as a float, nothing when it is zero. -/
def truthyNum (value : Option Json) : Option ℚ := (asFloat value).filter (· ≠ 0)

/-- The pages and seconds of one recorded run, when it has both. -/
def historyPair (steadyOnly : Bool) (run : Json) : Option (ℚ × ℚ) := do
  let run ← run.asObject?
  if steadyOnly && truthy (Object.get? run "volume_first") then none
  else
    let pages ← (truthyNum (Object.get? run "volume_pages")).or
      (asFloat (Object.get? run "pages"))
    let seconds ← (truthyNum (Object.get? run "volume_seconds")).or
      (asFloat (Object.get? run "elapsed"))
    if 0 < pages ∧ 0 < seconds then some (pages, seconds) else none

/-- `history_pairs`: the pairs of a row's recorded runs. -/
def historyPairs (priors : Priors) (generationId : String) (steadyOnly : Bool)
    : List (ℚ × ℚ) :=
  match Object.get? priors.congestion generationId with
  | some (.arr runs) => runs.filterMap (historyPair steadyOnly)
  | _ => []

/-- `history_rate`: the recorded runs' fit, else their pooled rate. -/
def historyRate (model : RateModel) (priors : Priors) (generationId : String)
    : Checked (Option RateEstimate) :=
  let steady := historyPairs priors generationId true
  let pairs := if steady = [] then historyPairs priors generationId false else steady
  if pairs = [] then .ok none
  else do
    match ← fitVolumeCost pairs model.alpha with
    | some fit => fit.estimate (SOURCE_HISTORY ++ FIT_SUFFIX) pairs.length
    | none =>
        let pages := (pairs.map Prod.fst).sum
        let seconds := (pairs.map Prod.snd).sum
        if seconds ≤ 0 then return none
        else
          let rate ← checkedDiv pages seconds
          return some ⟨rate, SOURCE_HISTORY, pairs.length, 0⟩

/-- The benchmark rate of one block of a row's saved benchmark. -/
def benchBlockRate (block : Option Json) : Option RateEstimate :=
  match block with
  | some (.obj fields) =>
      ((asFloat (Object.get? fields "pages_per_second")).filter (0 < ·)).map RateEstimate.bench
  | _ => none

/-- `bench_rate`: the saved benchmark of a row, `best` before `baseline`. -/
def benchRate (priors : Priors) (generationId : String) : Option RateEstimate := do
  let row ← (← Object.get? priors.bench generationId).asObject?
  (benchBlockRate (Object.get? row "best")).or (benchBlockRate (Object.get? row "baseline"))

/-- The history's estimate, else the benchmark's. -/
def historyOrBench (model : RateModel) (priors : Priors) (generationId : String)
    : Checked (Option RateEstimate) := do
  match ← model.historyRate priors generationId with
  | some history => return some history
  | none => return benchRate priors generationId

/-- `base_rate`. -/
def baseRate (model : RateModel) (priors : Priors) (generationId : String)
    : Checked (Option RateEstimate) := do
  model.overPrior generationId (← model.historyOrBench priors generationId)

/-- `other_machines`: the row's evidence on another machine, most pages first. -/
def otherMachines (model : RateModel) (generationId exclude : String)
    : Checked (Option RateEstimate) :=
  let candidates := model.order.filterMap (fun key => do
    let entry ← model.session.get? key
    if Text.startsWith key (generationId ++ "@") ∧ key ≠ exclude ∧ 0 < entry.volumes then
      some (entry.pages, key)
    else none)
  let sorted := candidates.insertionSort
    (fun a b => b.1 < a.1 ∨ (a.1 = b.1 ∧ b.2 ≤ a.2))
  Checked.findFirst (fun candidate => model.overPrior candidate.2 none) sorted

/-- `machine_base`: the row on one machine. No key, or the row's own, is this server. -/
def machineBase (model : RateModel) (priors : Priors) (generationId : String)
    (machineKey : Option String) (machinePrior : Option RateEstimate)
    : Checked (Option RateEstimate) :=
  match machineKey.filter (· ≠ generationId) with
  | none => do
      let prior ← model.historyOrBench priors generationId
      model.overPrior generationId (prior.or machinePrior)
  | some key => do
      match ← model.overPrior key machinePrior with
      | some own => return some own
      | none =>
          match ← model.overPrior generationId (← model.historyRate priors generationId) with
          | some here => return some here
          | none =>
              match ← model.otherMachines generationId key with
              | some other => return some other
              | none => return benchRate priors generationId

-- Estimates

/-- `rate`: the row's estimate with the volume in flight blended in. -/
def rate (model : RateModel) (priors : Priors) (generationId : String) (observedPages : ℤ)
    (observedSeconds : ℚ) : Checked (Option RateEstimate) := do
  withInflight (← model.baseRate priors generationId) observedPages observedSeconds

/-- `rate_on`: the row's estimate on one machine. -/
def rateOn (model : RateModel) (priors : Priors) (generationId : String)
    (machineKey : Option String) (machinePrior : Option RateEstimate) (observedPages : ℤ)
    (observedSeconds : ℚ) : Checked (Option RateEstimate) := do
  withInflight (← model.machineBase priors generationId machineKey machinePrior)
    observedPages observedSeconds

/-- `latency`: the row's fixed cost per volume, nothing when there is no estimate. -/
def latency (model : RateModel) (priors : Priors) (generationId : String) : Checked ℚ := do
  return ((← model.baseRate priors generationId).map RateEstimate.latencySeconds).getD 0

/-- `startup`: what opening a session for the row costs. -/
def startupEstimate (model : RateModel) (priors : Priors) (generationId : String)
    : StartupEstimate :=
  match model.startup.get? generationId with
  | some measured => .new measured STARTUP_SESSION
  | none =>
      let saved := do
        let row ← (← Object.get? priors.bench generationId).asObject?
        (asFloat (Object.get? row "startup_seconds")).filter (0 < ·)
      match saved with
      | some saved => .new saved STARTUP_BENCH
      | none => .defaultEstimate

/-- `startup_on`: what opening a session costs on one machine. -/
def startupOn (model : RateModel) (priors : Priors) (generationId : String)
    (machineKey : Option String) (machinePrior : Option ℚ) : StartupEstimate :=
  let prior := machinePrior.filter (0 < ·)
  match machineKey.filter (· ≠ generationId) with
  | none =>
      let found := model.startupEstimate priors generationId
      match prior with
      | some prior =>
          if found.source = STARTUP_DEFAULT then .new prior STARTUP_BENCH else found
      | none => found
  | some key =>
      match model.startup.get? key with
      | some measured => .new measured STARTUP_SESSION
      | none =>
          match prior with
          | some prior => .new prior STARTUP_BENCH
          | none => model.startupEstimate priors generationId

end RateModel

/-- `MachineBench`: a machine's own saved benchmark of a row. -/
structure MachineBench where
  pagesPerSecond : Option ℚ
  startupSeconds : Option ℚ

/-- `LanePricing`: the rate model with each machine's benchmark as its prior. -/
structure LanePricing where
  rates : RateModel
  priors : Priors
  bench : String → String → Option MachineBench

namespace LanePricing

/-- `machine_bench`: asked for a named machine only. -/
def machineBench (pricing : LanePricing) (generationId : String) (machine : Option String)
    : Option MachineBench :=
  machine.bind (pricing.bench generationId)

/-- `rate_for`. -/
def rateFor (pricing : LanePricing) (generationId : String) (machine : Option String)
    (observedPages : ℤ) (observedSeconds : ℚ) : Checked (Option RateEstimate) :=
  let prior := (((pricing.machineBench generationId machine).bind
    MachineBench.pagesPerSecond).filter (0 < ·)).map RateEstimate.bench
  pricing.rates.rateOn pricing.priors generationId (machine.map (rateKey generationId)) prior
    observedPages observedSeconds

/-- `startup_for`. -/
def startupFor (pricing : LanePricing) (generationId : String) (machine : Option String)
    : StartupEstimate :=
  pricing.rates.startupOn pricing.priors generationId (machine.map (rateKey generationId))
    ((pricing.machineBench generationId machine).bind MachineBench.startupSeconds)

end LanePricing

end MokuroBunko.Sched
