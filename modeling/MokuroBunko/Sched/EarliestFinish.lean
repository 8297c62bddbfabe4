import MokuroBunko.Data.Format
import MokuroBunko.Sched.Rate
import Mathlib.Data.List.MinMax

/-! Which lane takes a volume. The head of the queue is walked and each volume booked on the lane that
would finish it first; the asking lane takes the first one booked on itself. How the walk's lanes
are priced, how long a volume left to a faster lane waits for it, and when a row's last volume is
left to a warm session.
-/

namespace MokuroBunko.Sched

open MokuroBunko.Data

-- Medians

/-- `median_int`: the median of whole numbers, rounded. -/
def medianInt (values : List ℤ) : Option ℤ :=
  let sorted := values.insertionSort (· ≤ ·)
  let n := sorted.length
  if n = 0 then none
  else if n % 2 = 1 then sorted[n / 2]?
  else do
    let a ← sorted[n / 2 - 1]?
    let b ← sorted[n / 2]?
    return roundInt (((a : ℚ) + b) / 2)

theorem medianInt_nonneg {values : List ℤ} (positive : ∀ value ∈ values, 0 < value)
    {median : ℤ} (found : medianInt values = some median)
    : 0 ≤ median := by
  have sortedPos : ∀ (place : ℕ) (value : ℤ),
      (values.insertionSort (· ≤ ·))[place]? = some value → 0 < value := by
    intro place value here
    exact positive value
      ((List.perm_insertionSort _ values).mem_iff.mp (List.mem_of_getElem? here))
  unfold medianInt at found
  extract_lets sorted n at found
  split_ifs at found with empty odd
  · exact (sortedPos _ _ found).le
  · simp only [Option.bind_eq_bind, Option.bind_eq_some_iff, Option.pure_def,
      Option.some.injEq] at found
    obtain ⟨a, aHere, b, bHere, rfl⟩ := found
    have aPos : (0 : ℚ) < a := by exact_mod_cast sortedPos _ _ aHere
    have bPos : (0 : ℚ) < b := by exact_mod_cast sortedPos _ _ bHere
    exact roundInt_nonneg (by linarith)

-- The walk

/-- Jobs walked per claim. -/
def EFT_LOOKAHEAD : ℕ := 256

/-- `EftLane`: one slot that could take a volume. -/
structure EftLane (κ : Type) where
  key : κ
  machine : String
  /-- When its current work ends, in seconds from now. -/
  freeIn : ℚ
  /-- The row its open session serves. -/
  warm : Option String
  /-- The rows it may be given at all. -/
  rows : Finset String

/-- `EftLeft`: a volume the asking lane leaves to a lane that finishes it sooner. -/
structure EftLeft (ι κ : Type) where
  job : ι
  toLane : κ
  there : ℚ
  here : ℚ
  starts : ℚ
  busyFirst : Bool

/-- `EftDecision`: the asking lane's volume, and those before it booked elsewhere. -/
structure EftDecision (ι κ : Type) where
  mine : Option ι
  left : List (EftLeft ι κ)

/-- `EftParams`: the walk's tunables. -/
structure EftParams where
  margin : ℚ := 1 / 10
  marginCap : ℚ := 5
  slack : ℚ := 2
  limit : ℕ := EFT_LOOKAHEAD

/-- What every asking lane walks over. -/
structure EftWalk (ι κ : Type) where
  /-- A job, its row and its page count when known, in the scheduler's order. -/
  jobs : List (ι × String × Option ℤ)
  lanes : List (EftLane κ)
  rateFor : String → String → Option RateEstimate
  startupFor : String → String → ℚ
  params : EftParams := {}
  canTake : ι → κ → Bool

/-- The best other lane for a volume. -/
structure EftBest (κ : Type) where
  lane : EftLane κ
  finish : ℚ
  starts : ℚ
  busy : Bool

/-- What the lanes offer for a volume: the best other lane and the asking lane's finish. -/
structure EftOffer (κ : Type) where
  best : Option (EftBest κ) := none
  mineAt : Option ℚ := none

/-- The offers with one more lane's: the asking lane's own finish, or a better best. -/
def EftOffer.add {κ : Type} [DecidableEq κ] (offer : EftOffer κ) (asking : κ)
    (lane : EftLane κ) (start finish : ℚ) (busy : Bool) : EftOffer κ :=
  if lane.key = asking then { offer with mineAt := some finish }
  else if offer.best.all (fun best => finish < best.finish) then
    { offer with best := some ⟨lane, finish, start, busy⟩ }
  else offer

/-- When each lane is free, and the row it is warm on then. -/
abbrev EftState (κ : Type) := κ → ℚ × Option String

namespace EftWalk

variable {ι κ : Type} [DecidableEq κ]

/-- The median of the known page counts. -/
def median (walk : EftWalk ι κ) : Option ℤ :=
  medianInt ((walk.jobs.filterMap (fun job => job.2.2)).filter (0 < ·))

/-- A job's page count, the median when it is not known. -/
def pagesOf (walk : EftWalk ι κ) (pages : Option ℤ) : Option ℤ :=
  match pages with
  | some pages => if 0 < pages then some pages else walk.median
  | none => walk.median

/-- Whether the lane may be given the job at all. -/
def runs (walk : EftWalk ι κ) (job : ι) (generationId : String) (lane : EftLane κ) : Bool :=
  generationId ∈ lane.rows && walk.canTake job lane.key

/-- When a lane would start a volume and finish it, if its rate is known. -/
def laneFinish (walk : EftWalk ι κ) (state : EftState κ) (generationId : String) (pages : ℤ)
    (lane : EftLane κ) : Option (ℚ × ℚ) := do
  let rate ← walk.rateFor generationId lane.machine
  let (freeIn, warm) := state lane.key
  let start :=
    if warm = some generationId then freeIn
    else freeIn + walk.startupFor generationId lane.machine
  some (start, start + rate.volumeSeconds pages)

/-- The offers of the lanes for one volume, nothing when a lane cannot be priced. -/
def priceLanes (walk : EftWalk ι κ) (asking : κ) (job : ι) (generationId : String)
    (pages : ℤ) (state : EftState κ) : List (EftLane κ) → EftOffer κ → Option (EftOffer κ)
  | [], offer => some offer
  | lane :: rest, offer =>
      if !walk.runs job generationId lane then
        walk.priceLanes asking job generationId pages state rest offer
      else do
        let (start, finish) ← walk.laneFinish state generationId pages lane
        walk.priceLanes asking job generationId pages state rest
          (offer.add asking lane start finish (0 < (state lane.key).1))

/-- Whether the asking lane keeps a volume it would finish at `mine`. -/
def keeps (walk : EftWalk ι κ) (mine : ℚ) (best : Option (EftBest κ)) : Bool :=
  best.all (fun best =>
    mine ≤ best.finish + min (best.finish * walk.params.margin) walk.params.marginCap
      + walk.params.slack)

/-- The walk over the jobs: each is kept, booked on the best other lane or passed by. -/
def walkJobs (walk : EftWalk ι κ) (asking : κ)
    : List (ι × String × Option ℤ) → EftState κ → List (EftLeft ι κ)
      → Option (EftDecision ι κ)
  | [], _, left => some ⟨none, left⟩
  | (job, generationId, pages) :: rest, state, left => do
      let pages ← walk.pagesOf pages
      let offer ← walk.priceLanes asking job generationId pages state walk.lanes {}
      if offer.mineAt.any (fun mine => walk.keeps mine offer.best) then
        some ⟨some job, left⟩
      else
        match offer.best with
        | none => walk.walkJobs asking rest state left
        | some best =>
            let left :=
              match offer.mineAt with
              | some here =>
                  left ++ [⟨job, best.lane.key, best.finish, here, best.starts, best.busy⟩]
              | none => left
            walk.walkJobs asking rest
              (Function.update state best.lane.key (best.finish, some generationId)) left

/-- The lanes' free times and rows before the walk. -/
def initialState (walk : EftWalk ι κ) : EftState κ := fun key =>
  ((walk.lanes.reverse.find? (fun lane => lane.key = key)).map
    (fun lane => (lane.freeIn, lane.warm))).getD (0, none)

/-- `earliest_finish_claim_where`: nothing when the walk cannot be priced. -/
def earliestFinishClaimWhere (walk : EftWalk ι κ) (asking : κ)
    : Option (EftDecision ι κ) :=
  if walk.lanes.any (fun lane => lane.key = asking) then
    walk.walkJobs asking (walk.jobs.take walk.params.limit) walk.initialState []
  else none

-- What the lanes offer

variable {walk : EftWalk ι κ} {asking : κ} {job : ι} {generationId : String} {pages : ℤ}
  {state : EftState κ}

theorem priceLanes_of_none_runs {lanes : List (EftLane κ)}
    (idle : ∀ lane ∈ lanes, walk.runs job generationId lane = false) (offer : EftOffer κ)
    : walk.priceLanes asking job generationId pages state lanes offer = some offer := by
  induction lanes with
  | nil => rfl
  | cons lane rest ih =>
      have restIdle := ih (fun other member => idle other (List.mem_cons_of_mem _ member))
      simpa [priceLanes, idle lane (by simp)] using restIdle

theorem priceLanes_cons_cases {lane : EftLane κ} {rest : List (EftLane κ)}
    {offer result : EftOffer κ}
    (priced : walk.priceLanes asking job generationId pages state (lane :: rest) offer
      = some result)
    : (walk.runs job generationId lane = false
        ∧ walk.priceLanes asking job generationId pages state rest offer = some result)
      ∨ (walk.runs job generationId lane = true ∧ ∃ start finish,
          walk.laneFinish state generationId pages lane = some (start, finish)
          ∧ walk.priceLanes asking job generationId pages state rest
              (offer.add asking lane start finish (0 < (state lane.key).1)) = some result) := by
  cases mayRun : walk.runs job generationId lane with
  | false => exact .inl ⟨rfl, by simpa [priceLanes, mayRun] using priced⟩
  | true =>
      simp only [priceLanes, mayRun, Bool.not_true, Bool.false_eq_true, if_false,
        Option.bind_eq_bind, Option.bind_eq_some_iff] at priced
      obtain ⟨⟨start, finish⟩, times, priced⟩ := priced
      exact .inr ⟨rfl, start, finish, times, priced⟩

theorem finish_of_priceLanes {lanes : List (EftLane κ)} {offer result : EftOffer κ}
    (priced : walk.priceLanes asking job generationId pages state lanes offer = some result)
    {lane : EftLane κ} (member : lane ∈ lanes) (mayRun : walk.runs job generationId lane = true)
    : ∃ start finish, walk.laneFinish state generationId pages lane = some (start, finish) := by
  induction lanes generalizing offer with
  | nil => simp at member
  | cons head rest ih =>
      rcases priceLanes_cons_cases priced with ⟨idle, later⟩ | ⟨-, start, finish, times, later⟩
      · rcases List.mem_cons.mp member with rfl | inRest
        · simp [idle] at mayRun
        · exact ih later inRest
      · rcases List.mem_cons.mp member with rfl | inRest
        · exact ⟨start, finish, times⟩
        · exact ih later inRest

theorem best_of_priceLanes {lanes : List (EftLane κ)} {offer result : EftOffer κ}
    (priced : walk.priceLanes asking job generationId pages state lanes offer = some result)
    {best : EftBest κ} (found : result.best = some best)
    : offer.best = some best
      ∨ ∃ lane ∈ lanes, walk.runs job generationId lane = true
        ∧ ∃ start, walk.laneFinish state generationId pages lane = some (start, best.finish) := by
  induction lanes generalizing offer with
  | nil =>
      cases priced
      exact .inl found
  | cons head rest ih =>
      rcases priceLanes_cons_cases priced with
        ⟨-, later⟩ | ⟨mayRun, start, finish, times, later⟩
      · exact (ih later).imp_right
          fun ⟨lane, member, holds⟩ => ⟨lane, List.mem_cons_of_mem _ member, holds⟩
      · rcases ih later with before | ⟨lane, member, holds⟩
        · unfold EftOffer.add at before
          split_ifs at before
          · exact .inl before
          · cases before
            exact .inr ⟨head, by simp, mayRun, start, times⟩
          · exact .inl before
        · exact .inr ⟨lane, List.mem_cons_of_mem _ member, holds⟩

theorem mineAt_of_absent {lanes : List (EftLane κ)} {offer result : EftOffer κ}
    (priced : walk.priceLanes asking job generationId pages state lanes offer = some result)
    (absent : asking ∉ lanes.map EftLane.key)
    : result.mineAt = offer.mineAt := by
  induction lanes generalizing offer with
  | nil =>
      cases priced
      rfl
  | cons head rest ih =>
      simp only [List.map_cons, List.mem_cons, not_or] at absent
      have other : head.key ≠ asking := fun same => absent.1 same.symm
      rcases priceLanes_cons_cases priced with ⟨-, later⟩ | ⟨-, start, finish, -, later⟩
      · exact ih later absent.2
      · rw [ih later absent.2, EftOffer.add, if_neg other]
        split_ifs <;> rfl

theorem mineAt_of_priceLanes {lanes : List (EftLane κ)} {offer result : EftOffer κ}
    (priced : walk.priceLanes asking job generationId pages state lanes offer = some result)
    (distinct : (lanes.map EftLane.key).Nodup) {lane : EftLane κ} (member : lane ∈ lanes)
    (own : lane.key = asking) (mayRun : walk.runs job generationId lane = true)
    : ∃ start finish, walk.laneFinish state generationId pages lane = some (start, finish)
        ∧ result.mineAt = some finish := by
  induction lanes generalizing offer with
  | nil => simp at member
  | cons head rest ih =>
      obtain ⟨absent, restDistinct⟩ := List.nodup_cons.mp distinct
      rcases priceLanes_cons_cases priced with ⟨idle, later⟩ | ⟨-, start, finish, times, later⟩
      · rcases List.mem_cons.mp member with rfl | inRest
        · simp [idle] at mayRun
        · exact ih later restDistinct inRest
      · rcases List.mem_cons.mp member with rfl | inRest
        · refine ⟨start, finish, times, ?_⟩
          rw [mineAt_of_absent later (own ▸ absent), EftOffer.add, if_pos own]
        · exact ih later restDistinct inRest

-- Some lane claims

/-- Whether some lane may be given the job. -/
def SomeLaneRuns (walk : EftWalk ι κ) (job : ι × String × Option ℤ) : Prop :=
  ∃ lane ∈ walk.lanes, walk.runs job.1 job.2.1 lane = true

theorem walkJobs_cons_cases {job : ι × String × Option ℤ}
    {rest : List (ι × String × Option ℤ)} {left : List (EftLeft ι κ)}
    {decision : EftDecision ι κ}
    (walked : walk.walkJobs asking (job :: rest) state left = some decision)
    : ∃ pages offer, walk.pagesOf job.2.2 = some pages
        ∧ walk.priceLanes asking job.1 job.2.1 pages state walk.lanes {} = some offer
        ∧ (offer.mineAt.any (fun mine => walk.keeps mine offer.best) = true
            → decision.mine = some job.1)
        ∧ (offer = {} → walk.walkJobs asking rest state left = some decision) := by
  obtain ⟨job, generationId, pages⟩ := job
  simp only [walkJobs, Option.bind_eq_bind, Option.bind_eq_some_iff] at walked
  obtain ⟨pages, known, offer, priced, walked⟩ := walked
  refine ⟨pages, offer, known, priced, ?_, ?_⟩
  · intro kept
    rw [if_pos kept] at walked
    cases walked
    rfl
  · rintro rfl
    simpa using walked

theorem walkJobs_of_idle {before rest : List (ι × String × Option ℤ)}
    (idle : ∀ job ∈ before, ¬ walk.SomeLaneRuns job) {left : List (EftLeft ι κ)}
    {decision : EftDecision ι κ}
    (walked : walk.walkJobs asking (before ++ rest) state left = some decision)
    : walk.walkJobs asking rest state left = some decision := by
  induction before with
  | nil => exact walked
  | cons job others ih =>
      obtain ⟨pages, offer, -, priced, -, onward⟩ := walkJobs_cons_cases walked
      have noneRuns : ∀ lane ∈ walk.lanes, walk.runs job.1 job.2.1 lane = false := by
        intro lane member
        by_contra mayRun
        exact idle job (by simp) ⟨lane, member, by simpa using mayRun⟩
      rw [priceLanes_of_none_runs noneRuns] at priced
      cases priced
      exact ih (fun other member => idle other (List.mem_cons_of_mem _ member)) (onward rfl)

/-- What a walk is given: lanes told apart by their keys, usable rates, and no negative
free time, startup or tolerance.
-/
structure Admissible (walk : EftWalk ι κ) : Prop where
  keys : (walk.lanes.map EftLane.key).Nodup
  rates : ∀ generationId machine rate,
    walk.rateFor generationId machine = some rate →
      0 < rate.pagesPerSecond ∧ 0 ≤ rate.latencySeconds
  startups : ∀ generationId machine, 0 ≤ walk.startupFor generationId machine
  free : ∀ lane ∈ walk.lanes, 0 ≤ lane.freeIn
  margin : 0 ≤ walk.params.margin
  marginCap : 0 ≤ walk.params.marginCap
  slack : 0 ≤ walk.params.slack

omit [DecidableEq κ] in
theorem pagesOf_nonneg {known : Option ℤ} (found : walk.pagesOf known = some pages)
    : 0 ≤ pages := by
  have medianNonneg : walk.median = some pages → 0 ≤ pages := by
    intro isMedian
    refine medianInt_nonneg ?_ isMedian
    intro value member
    simpa using (List.mem_filter.mp member).2
  cases known with
  | none => exact medianNonneg found
  | some count =>
      simp only [pagesOf] at found
      split_ifs at found with positive
      · cases found
        exact positive.le
      · exact medianNonneg found

theorem Admissible.finish_nonneg (admissible : walk.Admissible) (pagesNonneg : 0 ≤ pages)
    {lane : EftLane κ} {start finish : ℚ}
    (times : walk.laneFinish walk.initialState generationId pages lane = some (start, finish))
    : 0 ≤ finish := by
  have freeNonneg : 0 ≤ (walk.initialState lane.key).1 := by
    unfold initialState
    cases found : walk.lanes.reverse.find? (fun other => other.key = lane.key) with
    | none => simp
    | some other =>
        exact admissible.free other (List.mem_reverse.mp (List.mem_of_find?_eq_some found))
  simp only [laneFinish, Option.bind_eq_bind, Option.bind_eq_some_iff, Option.some.injEq,
    Prod.mk.injEq] at times
  obtain ⟨rate, rated, rfl, rfl⟩ := times
  obtain ⟨positive, latency⟩ := admissible.rates _ _ _ rated
  have volume : 0 ≤ rate.volumeSeconds pages :=
    add_nonneg latency (div_nonneg (by exact_mod_cast pagesNonneg) positive.le)
  have startup := admissible.startups generationId lane.machine
  split_ifs <;> linarith

omit [DecidableEq κ] in
theorem Admissible.keeps_of_le (admissible : walk.Admissible) {mine : ℚ}
    {best : Option (EftBest κ)}
    (least : ∀ other ∈ best, 0 ≤ other.finish ∧ mine ≤ other.finish)
    : walk.keeps mine best = true := by
  cases best with
  | none => rfl
  | some other =>
      obtain ⟨nonneg, le⟩ := least other rfl
      have margin : 0 ≤ min (other.finish * walk.params.margin) walk.params.marginCap :=
        le_min (mul_nonneg nonneg admissible.margin) admissible.marginCap
      have slack := admissible.slack
      simp only [keeps, Option.all_some, decide_eq_true_eq]
      linarith

private theorem exists_first {α : Type} {holds : α → Prop} {elements : List α}
    (some_holds : ∃ element ∈ elements, holds element)
    : ∃ before element after, elements = before ++ element :: after
        ∧ (∀ other ∈ before, ¬ holds other) ∧ holds element := by
  induction elements with
  | nil => simp at some_holds
  | cons head rest ih =>
      by_cases here : holds head
      · exact ⟨[], head, rest, rfl, by simp, here⟩
      · have later : ∃ element ∈ rest, holds element := by
          obtain ⟨element, member, found⟩ := some_holds
          rcases List.mem_cons.mp member with rfl | inRest
          · exact absurd found here
          · exact ⟨element, inRest, found⟩
        obtain ⟨before, element, after, rfl, none, found⟩ := ih later
        refine ⟨head :: before, element, after, rfl, ?_, found⟩
        intro other member
        rcases List.mem_cons.mp member with rfl | inBefore
        · exact here
        · exact none other inBefore

omit [DecidableEq κ] in
variable (pages state) in
theorem exists_least_finish {lanes : List (EftLane κ)}
    (runnable : ∃ lane ∈ lanes, walk.runs job generationId lane = true)
    : ∃ lane ∈ lanes, walk.runs job generationId lane = true
        ∧ ∀ other ∈ lanes, walk.runs job generationId other = true →
          ((walk.laneFinish state generationId pages lane).map Prod.snd).getD 0
            ≤ ((walk.laneFinish state generationId pages other).map Prod.snd).getD 0 := by
  let finish := fun lane =>
    ((walk.laneFinish state generationId pages lane).map Prod.snd).getD 0
  let candidates := lanes.filter (walk.runs job generationId)
  cases least : candidates.argmin finish with
  | none =>
      obtain ⟨lane, member, mayRun⟩ := runnable
      have candidate : lane ∈ candidates := List.mem_filter.mpr ⟨member, mayRun⟩
      rw [List.argmin_eq_none.mp least] at candidate
      simp at candidate
  | some lane =>
      obtain ⟨member, mayRun⟩ := List.mem_filter.mp (List.argmin_mem least)
      refine ⟨lane, member, mayRun, ?_⟩
      intro other otherMember otherRuns
      exact List.le_of_mem_argmin (List.mem_filter.mpr ⟨otherMember, otherRuns⟩) least

/-- When every lane's walk is priced and some job within the limit may be run at all, some
lane is given a job when it asks. Witness: for the first such job nothing is booked yet, so
all lanes see the same finishes and the least of them keeps the job.
-/
theorem some_lane_is_given_a_job (walk : EftWalk ι κ) (admissible : walk.Admissible)
    (priced : ∀ lane ∈ walk.lanes, (walk.earliestFinishClaimWhere lane.key).isSome)
    (runnable : ∃ job ∈ walk.jobs.take walk.params.limit, walk.SomeLaneRuns job)
    : ∃ lane ∈ walk.lanes, ∃ decision, walk.earliestFinishClaimWhere lane.key = some decision
        ∧ decision.mine.isSome := by
  obtain ⟨before, job, after, jobs, idle, runs⟩ := exists_first runnable
  -- What an asking lane's walk does at the first runnable job.
  have reached : ∀ asker ∈ walk.lanes, ∃ decision,
      walk.earliestFinishClaimWhere asker.key = some decision
      ∧ walk.walkJobs asker.key (job :: after) walk.initialState [] = some decision := by
    intro asker member
    obtain ⟨decision, claimed⟩ := Option.isSome_iff_exists.mp (priced asker member)
    have walked := claimed
    have present : walk.lanes.any (fun lane => lane.key = asker.key) = true :=
      List.any_eq_true.mpr ⟨asker, member, by simp⟩
    rw [earliestFinishClaimWhere, if_pos present, jobs] at walked
    exact ⟨decision, claimed, walkJobs_of_idle idle walked⟩
  obtain ⟨someLane, someMember, -⟩ := id runs
  obtain ⟨_, -, someWalked⟩ := reached someLane someMember
  obtain ⟨pages, -, known, -⟩ := walkJobs_cons_cases someWalked
  obtain ⟨lane, member, mayRun, least⟩ :=
    exists_least_finish pages walk.initialState runs
  obtain ⟨decision, claimed, walked⟩ := reached lane member
  refine ⟨lane, member, decision, claimed, ?_⟩
  obtain ⟨samePages, offer, sameKnown, offered, kept, -⟩ := walkJobs_cons_cases walked
  obtain rfl : samePages = pages := Option.some.inj (sameKnown.symm.trans known)
  obtain ⟨start, finish, times, mine⟩ :=
    mineAt_of_priceLanes offered admissible.keys member rfl mayRun
  have keeps : walk.keeps finish offer.best = true := by
    refine admissible.keeps_of_le ?_
    intro best found
    rcases best_of_priceLanes offered found with none | ⟨other, otherMember, otherRuns, times'⟩
    · cases none
    · obtain ⟨otherStart, otherTimes⟩ := times'
      refine ⟨admissible.finish_nonneg (pagesOf_nonneg known) otherTimes, ?_⟩
      simpa [times, otherTimes] using least other otherMember otherRuns
  rw [kept (by simp [mine, keeps])]
  rfl

end EftWalk

def twoLaneWalk : EftWalk ℕ ℕ where
  jobs := [(0, "h", some 10), (1, "g", some 100), (2, "g", none)]
  lanes := [⟨1, "local", 30, some "g", {"g"}⟩, ⟨2, "box", 0, none, {"g"}⟩]
  rateFor := fun _ machine => some (.bench (if machine = "local" then 4 else 1))
  startupFor := fun _ _ => 20
  canTake := fun _ _ => true

theorem twoLaneWalk_admissible : twoLaneWalk.Admissible where
  keys := by decide
  rates := by
    intro _ machine rate found
    cases found
    by_cases here : machine = "local" <;> simp [RateEstimate.bench, here]
  startups := by norm_num [twoLaneWalk]
  free := by simp [twoLaneWalk]
  margin := by norm_num [twoLaneWalk]
  marginCap := by norm_num [twoLaneWalk]
  slack := by norm_num [twoLaneWalk]

/-- One of the two lanes is given a volume. -/
theorem twoLaneWalk_given
    : ∃ lane ∈ twoLaneWalk.lanes, ∃ decision,
        twoLaneWalk.earliestFinishClaimWhere lane.key = some decision ∧ decision.mine.isSome :=
  EftWalk.some_lane_is_given_a_job twoLaneWalk twoLaneWalk_admissible
    (by decide +kernel)
    ⟨(1, "g", some 100), by decide, ⟨1, "local", 30, some "g", {"g"}⟩,
      by simp [twoLaneWalk], by decide +kernel⟩

end MokuroBunko.Sched

namespace MokuroBunko.Sched

open MokuroBunko.Lib

/-- Grace after the predicted start before anyone may take a left volume. -/
def EFT_CLAIM_GRACE_SECONDS : ℚ := 15

/-- `InflightCard`: one claimed volume of a lane, for pricing when the lane is free. -/
structure InflightCard where
  generationId : String
  etaSeconds : Option ℚ
  totalPages : Option ℤ
  donePages : Option ℤ

/-- `lane_free_in`: nothing when a volume can be priced neither way. -/
def laneFreeIn (rateFor : String → Option RateEstimate) : List InflightCard → Option ℚ
  | [] => some 0
  | card :: rest => do
      let eta ←
        match card.etaSeconds with
        | some eta => some eta
        | none => do
            let rate ← rateFor card.generationId
            let total ← card.totalPages.filter (· ≠ 0)
            some (rate.volumeSeconds (max 0 (total - card.donePages.getD 0)))
      let others ← laneFreeIn rateFor rest
      some (max 0 eta + others)

/-- `eft_deadline`: a busy lane's follows the prediction, an idle one's is never put off. -/
def eftDeadline (now starts : ℚ) (busyFirst : Bool) (known : Option ℚ) : ℚ :=
  let predicted := now + max 0 starts + EFT_CLAIM_GRACE_SECONDS
  match known with
  | none => predicted
  | some deadline => if busyFirst then max deadline predicted else min deadline predicted

/-- `EftDeadlines`. -/
abbrev EftDeadlines (ι : Type) := OrderedMap ι ℚ

/-- `EftLeftOutcome`: the volumes to pass over now, and whether one was left the first time. -/
structure EftLeftOutcome (ι : Type) where
  deadlines : EftDeadlines ι
  skip : List ι
  fresh : Bool

/-- `EftDeadlines::apply`. -/
def EftDeadlines.apply {ι κ : Type} [DecidableEq ι] (deadlines : EftDeadlines ι)
    (proposed : List ι) (left : List (EftLeft ι κ)) (now : ℚ) : EftLeftOutcome ι :=
  left.foldl (fun outcome item =>
    let known := outcome.deadlines.get? item.job
    let deadline := eftDeadline now item.starts item.busyFirst known
    {
      deadlines := outcome.deadlines.insert item.job deadline
      skip := if now < deadline then outcome.skip ++ [item.job] else outcome.skip
      fresh := outcome.fresh || known.isNone
    }) ⟨deadlines.retain (fun job _ => job ∈ proposed), [], false⟩

/-- `single_volume_rows`: the warm rows with exactly one job to take, in queue order. -/
def singleVolumeRows {ι : Type} (jobs : List (ι × String)) (warmRows : String → Bool)
    (unavailable : ι → Bool) : List (String × ι) :=
  let waiting := jobs.filter (fun job => warmRows job.2 && !unavailable job.1)
  ((waiting.map Prod.snd).eraseDups).filterMap (fun row =>
    match waiting.filter (fun job => job.2 = row) with
    | [job] => some (row, job.1)
    | _ => none)

/-- `WarmMachine`: a machine with a warm session of the row. -/
structure WarmMachine where
  machine : String
  rate : Option RateEstimate
  ahead : List InflightCard

/-- `warm_session_wins`: the first warm machine that reads the volume sooner than a session
opened here, on real evidence only.
-/
def warmSessionWins (pages : Option ℤ) (mineRate : Option RateEstimate) (mineStartup : ℚ)
    (warm : List WarmMachine) : Option String := do
  let pages ← pages.filter (· ≠ 0)
  let mineRate ← mineRate
  let mine := mineStartup + mineRate.volumeSeconds pages
  (warm.find? (fun candidate =>
    match candidate.rate with
    | none => false
    | some rate =>
        let ahead := (candidate.ahead.map (fun card =>
          max 0 (card.etaSeconds.getD
            (rate.volumeSeconds (max 0 (card.totalPages.getD 0 - card.donePages.getD 0)))))).sum
        ahead + rate.volumeSeconds pages < mine)).map WarmMachine.machine

end MokuroBunko.Sched
