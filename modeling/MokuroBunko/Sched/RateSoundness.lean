import MokuroBunko.Sched.RateModel

/-! Every history of recordings leaves a model whose estimates are usable: the measured
pages never turn negative, so no blend's weight leaves the unit interval.
-/

namespace MokuroBunko.Sched

open MokuroBunko.Lib MokuroBunko.Data

namespace RateModel

/-- What recordings preserve: the average is a proper one and no key has negative pages. -/
structure Sound (model : RateModel) : Prop where
  share : 0 ≤ model.alpha ∧ model.alpha ≤ 1
  pages : ∀ key entry, model.session.get? key = some entry → 0 ≤ entry.pages

/-- Every estimate found is usable. -/
def AllUsable (estimate : Option RateEstimate) : Prop := ∀ found ∈ estimate, found.Usable

theorem AllUsable.or {first second : Option RateEstimate} (left : AllUsable first)
    (right : AllUsable second)
    : AllUsable (first.or second) := by
  cases first with
  | none => simpa using right
  | some estimate => simpa using left

-- Recording

/-- The key's volumes before a recording: none yet when it is new. -/
def entryOf (model : RateModel) (key : String) : SessionRate :=
  (model.session.get? key).getD {}

theorem recordVolume_yields {model : RateModel} (sound : model.Sound) (key : String)
    (pages seconds : ℚ) (first : Bool) (now : ℚ)
    : Checked.Yields (model.recordVolume key pages seconds first now)
        (fun after => after.Sound ∧ (0 < pages → 0 < seconds →
          SessionRate.Averaged (model.entryOf key) (after.entryOf key) (pages / seconds))) := by
  by_cases ignored : pages ≤ 0 ∨ seconds ≤ 0
  · simp only [recordVolume, ignored, if_true]
    refine .pure ⟨sound, fun pagesPos secondsPos => ?_⟩
    rcases ignored with none | none <;> linarith
  simp only [recordVolume, ignored, if_false]
  push Not at ignored
  have before : 0 ≤ (model.entryOf key).pages := by
    cases known : model.session.get? key with
    | none => simp [entryOf, known]
    | some entry => simpa [entryOf, known] using sound.pages key entry known
  refine Checked.Yields.bind
    (SessionRate.add_yields sound.share.1 sound.share.2 ignored.2 _ _ now) ?_
  rintro entry ⟨total, averaged⟩
  refine .pure ⟨⟨sound.share, ?_⟩, fun _ _ => by simpa [entryOf] using averaged⟩
  intro other found present
  rw [OrderedMap.get?_insert] at present
  split_ifs at present with same
  · cases present
    rw [total]
    exact add_nonneg before ignored.1.le
  · exact sound.pages other found present

theorem Sound.forget {model : RateModel} (sound : model.Sound) (generationId : String)
    : (model.forget generationId).Sound := by
  refine ⟨sound.share, ?_⟩
  intro key entry present
  have kept : model.session.get? key = some entry := by
    simp only [RateModel.forget, OrderedMap.get?_retain, Option.filter_eq_some_iff] at present
    exact present.1
  exact sound.pages key entry kept

theorem Sound.recordStartup {model : RateModel} (sound : model.Sound) (key : String)
    (seconds : ℚ)
    : (model.recordStartup key seconds).Sound := by
  unfold RateModel.recordStartup
  split_ifs
  · exact sound
  · exact ⟨sound.share, sound.pages⟩

/-- What may happen to a rate model. -/
inductive Op where
  | recordVolume (key : String) (pages seconds : ℚ) (firstOfSession : Bool) (now : ℚ)
  | recordVolumeValues (key : String) (pages seconds : Option Json) (firstOfSession : Bool)
      (now : ℚ)
  | recordStartup (key : String) (seconds : ℚ)
  | forget (generationId : String)

/-- The model after one operation. -/
def apply (model : RateModel) : Op → Checked RateModel
  | .recordVolume key pages seconds first now => model.recordVolume key pages seconds first now
  | .recordVolumeValues key pages seconds first now =>
      model.recordVolumeValues key pages seconds first now
  | .recordStartup key seconds => .ok (model.recordStartup key seconds)
  | .forget generationId => .ok (model.forget generationId)

/-- The model after a sequence of operations. -/
def run (model : RateModel) : List Op → Checked RateModel
  | [] => .ok model
  | op :: rest => do run (← model.apply op) rest

theorem apply_yields {model : RateModel} (sound : model.Sound) (op : Op)
    : Checked.Yields (model.apply op) Sound := by
  cases op with
  | recordVolume key pages seconds first now =>
      exact (recordVolume_yields sound key pages seconds first now).mono fun _ => And.left
  | recordVolumeValues key pages seconds first now =>
      simp only [apply, recordVolumeValues]
      split
      · exact (recordVolume_yields sound key _ _ first now).mono fun _ => And.left
      · exact .pure sound
  | recordStartup key seconds => exact .pure (sound.recordStartup key seconds)
  | forget generationId => exact .pure (sound.forget generationId)

theorem run_yields {model : RateModel} (sound : model.Sound) (ops : List Op)
    : Checked.Yields (model.run ops) Sound := by
  induction ops generalizing model with
  | nil => exact .pure sound
  | cons op rest ih => exact (apply_yields sound op).bind fun _ => ih

-- Estimates of a sound model

theorem sessionRate_yields {model : RateModel} (sound : model.Sound)
    (entry : Option SessionRate)
    : Checked.Yields (model.sessionRate entry) AllUsable := by
  cases entry with
  | none => exact .pure (by simp [AllUsable])
  | some entry =>
      by_cases unseen : entry.volumes = 0
      · simp only [sessionRate, unseen, if_true]
        exact .pure (by simp [AllUsable])
      simp only [sessionRate, unseen, if_false]
      refine (fitVolumeCost_yields sound.share.2 entry.samples).bind ?_
      intro fit usable
      cases fit with
      | some line => exact (usable line rfl).estimate_yields _ _
      | none =>
          dsimp only
          split_ifs with steady opening
          · refine .pure ?_
            simpa [AllUsable] using RateEstimate.usable_of_pos steady.2 _ _
          · refine .pure ?_
            simpa [AllUsable] using RateEstimate.usable_of_pos opening _ _
          · exact .pure (by simp [AllUsable])

/-- A blend over a prior: both the rate and the latency lie between the two blended. -/
structure Blended (blend left right : RateEstimate) : Prop where
  rate : Between blend.pagesPerSecond left.pagesPerSecond right.pagesPerSecond
  latency : Between blend.latencySeconds left.latencySeconds right.latencySeconds

theorem Blended.usable {blend left right : RateEstimate} (blended : Blended blend left right)
    (leftUsable : left.Usable) (rightUsable : right.Usable)
    : blend.Usable :=
  ⟨blended.rate.lt leftUsable.rate rightUsable.rate,
    blended.latency.mem_Icc leftUsable.latency rightUsable.latency⟩

theorem share_mem_Icc {count allowance : ℚ} (nonneg : 0 ≤ count) (positive : 0 < allowance)
    : 0 ≤ count / (count + allowance) ∧ count / (count + allowance) ≤ 1 := by
  have total : 0 < count + allowance := by linarith
  exact ⟨div_nonneg nonneg total.le, (div_le_one total).mpr (by linarith)⟩

theorem Sound.sessionPages_nonneg {model : RateModel} (sound : model.Sound) (key : String)
    : 0 ≤ ((model.session.get? key).map SessionRate.pages).getD 0 := by
  cases known : model.session.get? key with
  | none => simp
  | some entry => simpa using sound.pages key entry known

theorem overPrior_blends {model : RateModel} (sound : model.Sound) {key : String}
    {session prior : RateEstimate}
    (measured : model.sessionRate (model.session.get? key) = .ok (some session))
    (priorUsable : prior.Usable)
    : Checked.Yields (model.overPrior key (some prior))
        (fun estimate => ∃ blend, estimate = some blend ∧ Blended blend session prior) := by
  have sessionUsable : session.Usable :=
    (measured ▸ sessionRate_yields sound (model.session.get? key)).of_ok session rfl
  have pages := sound.sessionPages_nonneg key
  have allowance : (0 : ℚ) < SESSION_PRIOR_PAGES := by norm_num [SESSION_PRIOR_PAGES]
  obtain ⟨nonneg, le_one⟩ := share_mem_Icc pages allowance
  refine Checked.Yields.bind ⟨some session, measured, rfl⟩ ?_
  rintro _ rfl
  refine Checked.Yields.bind (.div (by linarith)) ?_
  rintro weight rfl
  refine (blendRates_yields nonneg le_one sessionUsable.rate priorUsable.rate).bind ?_
  intro blended between
  exact .pure ⟨_, rfl, between, blend_between _ _ nonneg le_one⟩

theorem overPrior_yields {model : RateModel} (sound : model.Sound) (key : String)
    {prior : Option RateEstimate} (priorUsable : AllUsable prior)
    : Checked.Yields (model.overPrior key prior) AllUsable := by
  obtain ⟨found, measured, sessionUsable⟩ :=
    sessionRate_yields sound (model.session.get? key)
  cases found with
  | none => exact Checked.Yields.bind ⟨none, measured, rfl⟩ (by rintro _ rfl; exact .pure priorUsable)
  | some session =>
      cases prior with
      | none =>
          exact Checked.Yields.bind ⟨some session, measured, rfl⟩
            (by rintro _ rfl; exact .pure sessionUsable)
      | some prior =>
          have usable := priorUsable prior rfl
          refine (overPrior_blends sound measured usable).mono ?_
          rintro _ ⟨blend, rfl, blended⟩
          simpa [AllUsable] using blended.usable (sessionUsable session rfl) usable

theorem withInflight_blends {base : RateEstimate} (baseUsable : base.Usable)
    {observedPages : ℤ} {observedSeconds live : ℚ} (enough : MIN_INFLIGHT_PAGES ≤ observedPages)
    (emitted : emissionRate observedPages observedSeconds = .ok (some live))
    : Checked.Yields (withInflight (some base) observedPages observedSeconds)
        (fun estimate => ∃ blend, estimate = some blend
          ∧ Between blend.pagesPerSecond live base.pagesPerSecond
          ∧ blend.latencySeconds = base.latencySeconds) := by
  have livePos : 0 < live :=
    (emitted ▸ emissionRate_yields observedPages observedSeconds).of_ok live rfl
  have pages : (0 : ℚ) ≤ observedPages := by
    unfold MIN_INFLIGHT_PAGES at enough
    exact_mod_cast (by omega : (0 : ℤ) ≤ observedPages)
  have allowance : (0 : ℚ) < BLEND_PRIOR_PAGES := by norm_num [BLEND_PRIOR_PAGES]
  obtain ⟨nonneg, le_one⟩ := share_mem_Icc pages allowance
  refine Checked.Yields.bind ⟨some live, emitted, rfl⟩ ?_
  rintro _ rfl
  simp only [not_lt.mpr enough, if_false]
  refine Checked.Yields.bind (.div (by linarith)) ?_
  rintro weight rfl
  refine (blendRates_yields nonneg le_one livePos baseUsable.rate).bind ?_
  intro blended between
  exact .pure ⟨_, rfl, between, rfl⟩

theorem withInflight_yields {base : Option RateEstimate} (baseUsable : AllUsable base)
    (observedPages : ℤ) (observedSeconds : ℚ)
    : Checked.Yields (withInflight base observedPages observedSeconds) AllUsable := by
  obtain ⟨found, emitted, positive⟩ := emissionRate_yields observedPages observedSeconds
  cases found with
  | none => exact Checked.Yields.bind ⟨none, emitted, rfl⟩ (by rintro _ rfl; exact .pure baseUsable)
  | some live =>
      by_cases few : observedPages < MIN_INFLIGHT_PAGES
      · refine Checked.Yields.bind ⟨some live, emitted, rfl⟩ ?_
        rintro _ rfl
        simp only [few, if_true]
        exact .pure baseUsable
      · cases base with
        | none =>
            refine Checked.Yields.bind ⟨some live, emitted, rfl⟩ ?_
            rintro _ rfl
            simp only [few, if_false]
            refine .pure ?_
            simpa [AllUsable] using RateEstimate.usable_of_pos (positive live rfl) _ _
        | some base =>
            have usable := baseUsable base rfl
            refine (withInflight_blends usable (not_lt.mp few) emitted).mono ?_
            rintro _ ⟨blend, rfl, between, latency⟩
            have blendUsable : blend.Usable :=
              ⟨between.lt (positive live rfl) usable.rate, latency ▸ usable.latency⟩
            simpa [AllUsable] using blendUsable

theorem historyPair_pos {steadyOnly : Bool} {run : Json} {pair : ℚ × ℚ}
    (counted : historyPair steadyOnly run = some pair)
    : 0 < pair.1 ∧ 0 < pair.2 := by
  simp only [historyPair, Option.bind_eq_bind, Option.bind_eq_some_iff] at counted
  obtain ⟨fields, -, counted⟩ := counted
  split_ifs at counted
  simp only [Option.bind_eq_some_iff, Option.ite_none_right_eq_some, Option.some.injEq]
    at counted
  obtain ⟨pages, -, seconds, -, positive, rfl⟩ := counted
  exact positive

theorem historyPairs_pos (priors : Priors) (generationId : String) (steadyOnly : Bool)
    : ∀ pair ∈ historyPairs priors generationId steadyOnly, 0 < pair.1 ∧ 0 < pair.2 := by
  intro pair member
  unfold historyPairs at member
  split at member
  · obtain ⟨run, -, counted⟩ := List.mem_filterMap.mp member
    exact historyPair_pos counted
  · simp at member

theorem historyRate_yields {model : RateModel} (sound : model.Sound) (priors : Priors)
    (generationId : String)
    : Checked.Yields (model.historyRate priors generationId) AllUsable := by
  unfold historyRate
  extract_lets steady pairs
  have positive : ∀ pair ∈ pairs, 0 < pair.1 ∧ 0 < pair.2 := by
    intro pair member
    by_cases empty : steady = []
    · exact historyPairs_pos priors generationId false pair (by simpa [pairs, empty] using member)
    · exact historyPairs_pos priors generationId true pair (by simpa [pairs, empty] using member)
  by_cases absent : pairs = []
  · simp only [absent, if_true]
    exact .pure (by simp [AllUsable])
  simp only [absent, if_false]
  refine (fitVolumeCost_yields sound.share.2 pairs).bind ?_
  intro fit usable
  cases fit with
  | some line => exact (usable line rfl).estimate_yields _ _
  | none =>
      dsimp only
      split_ifs with instant
      · exact .pure (by simp [AllUsable])
      refine Checked.Yields.bind (.div (not_le.mp instant).ne') ?_
      rintro rate rfl
      refine .pure ?_
      have pages : 0 < (pairs.map Prod.fst).sum := by
        apply List.sum_pos
        · intro pages member
          obtain ⟨pair, inPairs, rfl⟩ := List.mem_map.mp member
          exact (positive pair inPairs).1
        · simpa using absent
      simpa [AllUsable] using
        RateEstimate.usable_of_pos (div_pos pages (not_le.mp instant)) _ _

theorem benchBlockRate_usable (block : Option Json) : AllUsable (benchBlockRate block) := by
  intro estimate found
  unfold benchBlockRate at found
  split at found
  · simp only [Option.mem_def, Option.map_eq_some_iff, Option.filter_eq_some_iff] at found
    obtain ⟨rate, ⟨-, positive⟩, rfl⟩ := found
    exact RateEstimate.usable_of_pos (by simpa using positive) _ _
  · simp at found

theorem benchRate_usable (priors : Priors) (generationId : String)
    : AllUsable (benchRate priors generationId) := by
  intro estimate found
  simp only [benchRate, Option.bind_eq_bind, Option.mem_def, Option.bind_eq_some_iff] at found
  obtain ⟨-, -, row, -, found⟩ := found
  exact (benchBlockRate_usable _).or (benchBlockRate_usable _) estimate found

theorem historyOrBench_yields {model : RateModel} (sound : model.Sound) (priors : Priors)
    (generationId : String)
    : Checked.Yields (model.historyOrBench priors generationId) AllUsable := by
  refine (historyRate_yields sound priors generationId).bind ?_
  intro history usable
  cases history with
  | some estimate => exact .pure usable
  | none => exact .pure (benchRate_usable priors generationId)

theorem baseRate_yields {model : RateModel} (sound : model.Sound) (priors : Priors)
    (generationId : String)
    : Checked.Yields (model.baseRate priors generationId) AllUsable :=
  (historyOrBench_yields sound priors generationId).bind
    fun _ usable => overPrior_yields sound generationId usable

theorem otherMachines_yields {model : RateModel} (sound : model.Sound)
    (generationId exclude : String)
    : Checked.Yields (model.otherMachines generationId exclude) AllUsable :=
  Checked.Yields.findFirst
    fun candidate _ => overPrior_yields sound candidate.2 (by simp [AllUsable])

theorem machineBase_yields {model : RateModel} (sound : model.Sound) (priors : Priors)
    (generationId : String) (machineKey : Option String) {machinePrior : Option RateEstimate}
    (priorUsable : AllUsable machinePrior)
    : Checked.Yields (model.machineBase priors generationId machineKey machinePrior)
        AllUsable := by
  unfold machineBase
  cases machineKey.filter (· ≠ generationId) with
  | none =>
      refine (historyOrBench_yields sound priors generationId).bind ?_
      exact fun prior usable => overPrior_yields sound generationId (usable.or priorUsable)
  | some key =>
      refine (overPrior_yields sound key priorUsable).bind ?_
      intro own ownUsable
      cases own with
      | some estimate => exact .pure ownUsable
      | none =>
          refine (historyRate_yields sound priors generationId).bind ?_
          intro history historyUsable
          refine (overPrior_yields sound generationId historyUsable).bind ?_
          intro here hereUsable
          cases here with
          | some estimate => exact .pure hereUsable
          | none =>
              refine (otherMachines_yields sound generationId key).bind ?_
              intro other otherUsable
              cases other with
              | some estimate => exact .pure otherUsable
              | none => exact .pure (benchRate_usable priors generationId)

theorem rateOn_yields {model : RateModel} (sound : model.Sound) (priors : Priors)
    (generationId : String) (machineKey : Option String) {machinePrior : Option RateEstimate}
    (priorUsable : AllUsable machinePrior) (observedPages : ℤ) (observedSeconds : ℚ)
    : Checked.Yields
        (model.rateOn priors generationId machineKey machinePrior observedPages observedSeconds)
        AllUsable :=
  (machineBase_yields sound priors generationId machineKey priorUsable).bind
    fun _ usable => withInflight_yields usable observedPages observedSeconds

end RateModel

theorem LanePricing.rateFor_yields (pricing : LanePricing) (sound : pricing.rates.Sound)
    (generationId : String) (machine : Option String) (observedPages : ℤ)
    (observedSeconds : ℚ)
    : Checked.Yields (pricing.rateFor generationId machine observedPages observedSeconds)
        RateModel.AllUsable := by
  refine RateModel.rateOn_yields sound _ _ _ ?_ _ _
  intro prior found
  simp only [Option.mem_def, Option.map_eq_some_iff, Option.filter_eq_some_iff] at found
  obtain ⟨rate, ⟨-, positive⟩, rfl⟩ := found
  exact RateEstimate.usable_of_pos (by simpa using positive) _ _

/-- Everything a model answers, whatever priors it reads at the time: the estimates are
usable, the blends lie between what they blend, and no division is by zero.
-/
structure RateModel.EstimatesUsable (model : RateModel) : Prop where
  rate : ∀ priors generationId observedPages observedSeconds,
    Checked.Yields (model.rate priors generationId observedPages observedSeconds) AllUsable
  rateOn : ∀ priors generationId machineKey machinePrior observedPages observedSeconds,
    AllUsable machinePrior →
    Checked.Yields
      (model.rateOn priors generationId machineKey machinePrior observedPages observedSeconds)
      AllUsable
  rateFor : ∀ priors bench generationId machine observedPages observedSeconds,
    Checked.Yields
      (LanePricing.rateFor ⟨model, priors, bench⟩ generationId machine observedPages
        observedSeconds)
      AllUsable
  history : ∀ priors generationId,
    Checked.Yields (model.historyRate priors generationId) AllUsable
  bench : ∀ priors generationId, AllUsable (benchRate priors generationId)
  latency : ∀ priors generationId, Checked.Yields (model.latency priors generationId)
    (fun seconds => 0 ≤ seconds ∧ seconds ≤ MAX_LATENCY_SECONDS)
  priorBlend : ∀ key session prior,
    model.sessionRate (model.session.get? key) = .ok (some session) → prior.Usable →
    Checked.Yields (model.overPrior key (some prior))
      (fun estimate => ∃ blend, estimate = some blend ∧ Blended blend session prior)
  inflightBlend : ∀ base observedPages observedSeconds live, base.Usable →
    MIN_INFLIGHT_PAGES ≤ observedPages →
    emissionRate observedPages observedSeconds = .ok (some live) →
    Checked.Yields (withInflight (some base) observedPages observedSeconds)
      (fun estimate => ∃ blend, estimate = some blend
        ∧ Between blend.pagesPerSecond live base.pagesPerSecond
        ∧ blend.latencySeconds = base.latencySeconds)
  averages : ∀ key pages seconds first now, 0 < pages → 0 < seconds →
    Checked.Yields (model.recordVolume key pages seconds first now)
      (fun after =>
        SessionRate.Averaged (model.entryOf key) (after.entryOf key) (pages / seconds))

/-- After every sequence of recordings the model's answers are usable. Witness: the
operations keep it sound, by induction, and a sound model's sources and blends are.
-/
theorem RateModel.estimates_usable_after_recordings {alpha : ℚ} (nonneg : 0 ≤ alpha)
    (le_one : alpha ≤ 1) (ops : List Op)
    : Checked.Yields ((RateModel.new alpha).run ops) EstimatesUsable := by
  have fresh : (RateModel.new alpha).Sound :=
    ⟨⟨nonneg, le_one⟩, by simp [RateModel.new]⟩
  refine (run_yields fresh ops).mono ?_
  intro model sound
  exact {
    rate := fun priors generationId observedPages observedSeconds =>
      (baseRate_yields sound priors generationId).bind
        fun _ usable => withInflight_yields usable observedPages observedSeconds
    rateOn := fun priors generationId machineKey _ observedPages observedSeconds usable =>
      rateOn_yields sound priors generationId machineKey usable observedPages observedSeconds
    rateFor := fun priors bench generationId machine observedPages observedSeconds =>
      LanePricing.rateFor_yields ⟨model, priors, bench⟩ sound generationId machine
        observedPages observedSeconds
    history := historyRate_yields sound
    bench := benchRate_usable
    latency := by
      intro priors generationId
      refine (baseRate_yields sound priors generationId).bind ?_
      intro estimate usable
      cases estimate with
      | none => exact .pure (by simp [MAX_LATENCY_SECONDS])
      | some found => exact .pure (usable found rfl).latency
    priorBlend := fun _ _ _ measured usable => overPrior_blends sound measured usable
    inflightBlend := fun _ _ _ _ usable enough emitted =>
      withInflight_blends usable enough emitted
    averages := fun key pages seconds first now pagesPos secondsPos =>
      (recordVolume_yields sound key pages seconds first now).mono
        fun _ recorded => recorded.2 pagesPos secondsPos
  }

/-- A row read twice, forgotten in between, on the model the server runs. -/
theorem RateModel.estimates_usable_of_sessions
    : Checked.Yields
        ((RateModel.new SESSION_ALPHA).run [
          .recordVolume "g" 10 5 true 1000,
          .forget "g",
          .recordStartup "g@box" 3,
          .recordVolume "g@box" 20 5 false 2000
        ])
        EstimatesUsable :=
  RateModel.estimates_usable_after_recordings (by norm_num [SESSION_ALPHA])
    (by norm_num [SESSION_ALPHA]) _

end MokuroBunko.Sched
