import MokuroBunko.Sched.EarliestFinish

/-! What the walk decides, said without its loop: every job before the asking lane's is booked on
the lane that finishes it first, and the asking lane gets the first job it would finish about as
soon as the best other lane.
-/

namespace MokuroBunko.Sched

namespace EftWalk

variable {ι κ : Type} [DecidableEq κ]

-- Bookings

/-- When the lane would start and finish the job. -/
def timesOf (walk : EftWalk ι κ) (state : EftState κ) (job : ι × String × Option ℤ)
    (lane : EftLane κ) : Option (ℚ × ℚ) := do
  let pages ← walk.pagesOf job.2.2
  walk.laneFinish state job.2.1 pages lane

/-- When the lane would finish the job. -/
def finishAt (walk : EftWalk ι κ) (state : EftState κ) (job : ι × String × Option ℤ)
    (lane : EftLane κ) : ℚ :=
  ((walk.timesOf state job lane).map Prod.snd).getD 0

/-- The lanes that may be given the job. -/
def permitted (walk : EftWalk ι κ) (job : ι × String × Option ℤ) : List (EftLane κ) :=
  walk.lanes.filter (walk.runs job.1 job.2.1)

/-- The free times with the job booked on the lane that finishes it first, of several the one
listed first; a job that no lane may be given is not booked.
-/
def booked (walk : EftWalk ι κ) (state : EftState κ) (job : ι × String × Option ℤ)
    : EftState κ :=
  match (walk.permitted job).argmin (walk.finishAt state job) with
  | none => state
  | some lane => Function.update state lane.key (walk.finishAt state job lane, some job.2.1)

/-- Every job with the free times that the bookings of the jobs before it leave. -/
def stations (walk : EftWalk ι κ)
    : EftState κ → List (ι × String × Option ℤ) → List (EftState κ × ι × String × Option ℤ)
  | _, [] => []
  | state, job :: rest => (state, job) :: walk.stations (walk.booked state job) rest

/-- The lanes besides the asking one that may be given the job. -/
def others (walk : EftWalk ι κ) (asking : κ) (job : ι × String × Option ℤ)
    : List (EftLane κ) :=
  (walk.permitted job).filter (fun lane => lane.key ≠ asking)

/-- When the asking lane would finish the job, if it may be given it. -/
def ownFinish (walk : EftWalk ι κ) (asking : κ) (state : EftState κ)
    (job : ι × String × Option ℤ) : Option ℚ :=
  ((walk.permitted job).find? (fun lane => lane.key = asking)).map (walk.finishAt state job)

/-- What a finish may be above the best other lane's. -/
def allowance (walk : EftWalk ι κ) (finish : ℚ) : ℚ :=
  min (finish * walk.params.margin) walk.params.marginCap + walk.params.slack

/-- The asking lane may be given the job and would finish it no later than the best other lane,
give or take the allowance.
-/
def accepts (walk : EftWalk ι κ) (asking : κ)
    (station : EftState κ × ι × String × Option ℤ) : Bool :=
  (walk.ownFinish asking station.1 station.2).any (fun mine =>
    (((walk.others asking station.2).argmin (walk.finishAt station.1 station.2)).map
      (walk.finishAt station.1 station.2)).all (fun best => mine ≤ best + walk.allowance best))

/-- The entry says that the asking lane leaves the station's job to a lane that finishes it
first, and how much sooner.
-/
structure LeavesTo (walk : EftWalk ι κ) (asking : κ)
    (station : EftState κ × ι × String × Option ℤ) (item : EftLeft ι κ) : Prop where
  job : item.job = station.2.1
  here : walk.ownFinish asking station.1 station.2 = some item.here
  lane
    : ∃ lane ∈ walk.permitted station.2, lane.key = item.toLane ∧ lane.key ≠ asking
        ∧ walk.timesOf station.1 station.2 lane = some (item.starts, item.there)
        ∧ (∀ other ∈ walk.permitted station.2,
            item.there ≤ walk.finishAt station.1 station.2 other)
        ∧ item.busyFirst = decide (0 < (station.1 lane.key).1)
  above : item.there + walk.allowance item.there < item.here

-- Offers

theorem argmin_filter_of_mem {α : Type} {weight : α → ℚ} (keep : α → Bool) {elements : List α}
    {least : α} (found : elements.argmin weight = some least) (kept : keep least = true)
    : (elements.filter keep).argmin weight = some least := by
  induction elements using List.reverseRecOn generalizing least with
  | nil => cases found
  | append_singleton front last ih =>
      rw [List.argmin_concat] at found
      rw [List.filter_append]
      cases before : front.argmin weight with
      | none =>
          obtain rfl := List.argmin_eq_none.mp before
          rw [before] at found
          obtain rfl := Option.some.inj found
          simp [kept]
      | some old =>
          rw [before] at found
          dsimp only at found
          split_ifs at found with lower
          · obtain rfl := Option.some.inj found
            rw [List.filter_cons_of_pos kept, List.filter_nil, List.argmin_concat]
            cases among : (front.filter keep).argmin weight with
            | none => rfl
            | some other =>
                have later : weight old ≤ weight other :=
                  List.le_of_mem_argmin (List.mem_of_mem_filter (List.argmin_mem among)) before
                exact if_pos (lower.trans_le later)
          · obtain rfl := Option.some.inj found
            have among := ih before kept
            by_cases lastKept : keep last = true
            · rw [List.filter_cons_of_pos lastKept, List.filter_nil, List.argmin_concat, among]
              exact if_neg lower
            · rw [List.filter_cons_of_neg lastKept, List.filter_nil, List.append_nil, among]

variable {walk : EftWalk ι κ} {asking : κ} {job : ι × String × Option ℤ} {pages : ℤ}
  {state : EftState κ}

/-- The lane as the best one. -/
def asBest (walk : EftWalk ι κ) (state : EftState κ) (job : ι × String × Option ℤ)
    (lane : EftLane κ) : EftBest κ where
  lane
  finish := walk.finishAt state job lane
  starts := ((walk.timesOf state job lane).map Prod.fst).getD 0
  busy := 0 < (state lane.key).1

omit [DecidableEq κ] in
theorem timesOf_eq (known : walk.pagesOf job.2.2 = some pages) (lane : EftLane κ)
    : walk.timesOf state job lane = walk.laneFinish state job.2.1 pages lane := by
  simp [timesOf, known]

theorem best_eq_argmin (known : walk.pagesOf job.2.2 = some pages) {lanes : List (EftLane κ)}
    (seen : List (EftLane κ)) {offer result : EftOffer κ}
    (before : offer.best
      = (((seen.filter (walk.runs job.1 job.2.1)).filter (fun lane => lane.key ≠ asking)).argmin
          (walk.finishAt state job)).map (walk.asBest state job))
    (priced : walk.priceLanes asking job.1 job.2.1 pages state lanes offer = some result)
    : result.best
      = ((((seen ++ lanes).filter (walk.runs job.1 job.2.1)).filter
          (fun lane => lane.key ≠ asking)).argmin
          (walk.finishAt state job)).map (walk.asBest state job) := by
  induction lanes generalizing seen offer with
  | nil =>
      obtain rfl := Option.some.inj priced
      rw [List.append_nil, before]
  | cons lane rest ih =>
      rw [← List.singleton_append, ← List.append_assoc]
      rcases priceLanes_cons_cases priced with ⟨idle, later⟩ | ⟨mayRun, start, finish, times, later⟩
      · refine ih _ ?_ later
        rw [List.filter_append, List.filter_cons_of_neg (by simp [idle]), List.filter_nil,
          List.append_nil, before]
      · refine ih _ ?_ later
        rw [List.filter_append, List.filter_cons_of_pos mayRun, List.filter_nil, List.filter_append]
        by_cases own : lane.key = asking
        · rw [EftOffer.add, if_pos own, List.filter_cons_of_neg (by simpa using own),
            List.filter_nil, List.append_nil, before]
        · have same : walk.asBest state job lane = ⟨lane, finish, start, 0 < (state lane.key).1⟩ := by
            simp [asBest, finishAt, timesOf_eq known, times]
          rw [List.filter_cons_of_pos (by simpa using own), List.filter_nil, List.argmin_concat,
            EftOffer.add, if_neg own, before]
          cases found : ((seen.filter (walk.runs job.1 job.2.1)).filter
              (fun lane => lane.key ≠ asking)).argmin (walk.finishAt state job) with
          | none => simp [same]
          | some old =>
              have lower : walk.finishAt state job lane = finish := congrArg EftBest.finish same
              simp only [Option.map_some, Option.all_some, decide_eq_true_eq]
              by_cases sooner : finish < walk.finishAt state job old
              · rw [if_pos (by simpa [asBest] using sooner), if_pos (by rwa [lower]),
                  Option.map_some, same]
              · rw [if_neg (by simpa [asBest] using sooner), if_neg (by rwa [lower]), before, found]

theorem mineAt_of_idle {lanes : List (EftLane κ)} {offer result : EftOffer κ}
    (priced : walk.priceLanes asking job.1 job.2.1 pages state lanes offer = some result)
    (idle : ∀ lane ∈ lanes, lane.key = asking → walk.runs job.1 job.2.1 lane = false)
    : result.mineAt = offer.mineAt := by
  induction lanes generalizing offer with
  | nil =>
      obtain rfl := Option.some.inj priced
      rfl
  | cons lane rest ih =>
      have restIdle := fun other member => idle other (List.mem_cons_of_mem _ member)
      rcases priceLanes_cons_cases priced with ⟨-, later⟩ | ⟨mayRun, start, finish, -, later⟩
      · exact ih later restIdle
      · have other : lane.key ≠ asking := by
          intro own
          rw [idle lane List.mem_cons_self own] at mayRun
          cases mayRun
        rw [ih later restIdle, EftOffer.add, if_neg other]
        split_ifs <;> rfl

theorem offer_of_priceLanes (keys : (walk.lanes.map EftLane.key).Nodup)
    (known : walk.pagesOf job.2.2 = some pages) {offer : EftOffer κ}
    (priced : walk.priceLanes asking job.1 job.2.1 pages state walk.lanes {} = some offer)
    : offer.best = ((walk.others asking job).argmin (walk.finishAt state job)).map
          (walk.asBest state job)
      ∧ offer.mineAt = walk.ownFinish asking state job := by
  refine ⟨best_eq_argmin known [] rfl priced, ?_⟩
  unfold ownFinish
  cases found : (walk.permitted job).find? (fun lane => lane.key = asking) with
  | none =>
      refine (mineAt_of_idle priced ?_).trans rfl
      intro lane member own
      by_contra mayRun
      have listed : lane ∈ walk.permitted job :=
        List.mem_filter.mpr ⟨member, by simpa using mayRun⟩
      exact absurd own (by simpa using List.find?_eq_none.mp found lane listed)
  | some lane =>
      obtain ⟨member, mayRun⟩ := List.mem_filter.mp (List.mem_of_find?_eq_some found)
      have own : lane.key = asking := by simpa using List.find?_some found
      obtain ⟨start, finish, times, mine⟩ := mineAt_of_priceLanes priced keys member own mayRun
      rw [mine, Option.map_some, finishAt, timesOf_eq known, times]
      rfl

-- The walk

omit [DecidableEq κ] in
theorem mem_permitted {lane : EftLane κ}
    : lane ∈ walk.permitted job ↔ lane ∈ walk.lanes ∧ walk.runs job.1 job.2.1 lane = true := by
  simp [permitted]

theorem mem_others {lane : EftLane κ}
    : lane ∈ walk.others asking job ↔ lane ∈ walk.permitted job ∧ lane.key ≠ asking := by
  simp [others]

/-- The free times are not before now. -/
def FreeNow (state : EftState κ) : Prop := ∀ key, 0 ≤ (state key).1

omit [DecidableEq κ] in
theorem Admissible.finishAt_nonneg (admissible : walk.Admissible) (free : FreeNow state)
    (job : ι × String × Option ℤ) (lane : EftLane κ)
    : 0 ≤ walk.finishAt state job lane := by
  unfold finishAt
  cases found : walk.timesOf state job lane with
  | none => exact le_rfl
  | some times =>
      obtain ⟨pages, known, times⟩ := Option.bind_eq_some_iff.mp found
      simp only [laneFinish, Option.bind_eq_bind, Option.bind_eq_some_iff] at times
      obtain ⟨rate, rated, times⟩ := times
      obtain rfl := Option.some.inj times
      obtain ⟨positive, latency⟩ := admissible.rates _ _ _ rated
      have volume : 0 ≤ rate.volumeSeconds pages :=
        add_nonneg latency
          (div_nonneg (by exact_mod_cast pagesOf_nonneg known) positive.le)
      have startup := admissible.startups job.2.1 lane.machine
      have now := free lane.key
      simp only [Option.map_some, Option.getD_some]
      split_ifs <;> linarith

theorem Admissible.freeNow_initialState (admissible : walk.Admissible)
    : FreeNow walk.initialState := by
  intro key
  unfold initialState
  cases found : walk.lanes.reverse.find? (fun lane => lane.key = key) with
  | none => simp
  | some lane =>
      exact admissible.free lane (List.mem_reverse.mp (List.mem_of_find?_eq_some found))

theorem Admissible.freeNow_booked (admissible : walk.Admissible) (free : FreeNow state)
    (job : ι × String × Option ℤ)
    : FreeNow (walk.booked state job) := by
  intro key
  unfold booked
  cases (walk.permitted job).argmin (walk.finishAt state job) with
  | none => exact free key
  | some lane =>
      by_cases same : key = lane.key
      · subst same
        simpa using admissible.finishAt_nonneg free job lane
      · simpa [Function.update_of_ne same] using free key

omit [DecidableEq κ] in
theorem Admissible.allowance_nonneg (admissible : walk.Admissible) {finish : ℚ}
    (nonneg : 0 ≤ finish)
    : 0 ≤ walk.allowance finish :=
  add_nonneg (le_min (mul_nonneg nonneg admissible.margin) admissible.marginCap)
    admissible.slack

theorem keeps_eq_accepts {offer : EftOffer κ}
    (best : offer.best = ((walk.others asking job).argmin (walk.finishAt state job)).map
      (walk.asBest state job))
    (mine : offer.mineAt = walk.ownFinish asking state job)
    : offer.mineAt.any (fun mine => walk.keeps mine offer.best) = walk.accepts asking (state, job) := by
  rw [accepts, mine, best]
  cases walk.ownFinish asking state job with
  | none => rfl
  | some own =>
      cases (walk.others asking job).argmin (walk.finishAt state job) with
      | none => rfl
      | some lane =>
          simp only [Option.any_some, keeps, Option.map_some, Option.all_some]
          exact decide_eq_decide.mpr (by rw [asBest, allowance, add_assoc])

theorem booked_of_not_accepts (admissible : walk.Admissible) (free : FreeNow state)
    (refuses : walk.accepts asking (state, job) = false)
    : walk.booked state job
      = match (walk.others asking job).argmin (walk.finishAt state job) with
        | none => state
        | some lane =>
            Function.update state lane.key (walk.finishAt state job lane, some job.2.1) := by
  -- The lane that finishes first of all is not the asking one, which would accept.
  have other : ∀ lane, (walk.permitted job).argmin (walk.finishAt state job) = some lane
      → lane.key ≠ asking := by
    intro lane least own
    obtain ⟨asker, found⟩ : ∃ asker,
        (walk.permitted job).find? (fun lane => lane.key = asking) = some asker := by
      rw [← Option.isSome_iff_exists, List.find?_isSome]
      exact ⟨lane, List.argmin_mem least, by simpa using own⟩
    have same : asker = lane := by
      have ownToo : asker.key = asking := by simpa using List.find?_some found
      exact List.inj_on_of_nodup_map admissible.keys
        (mem_permitted.mp (List.mem_of_find?_eq_some found)).1
        (mem_permitted.mp (List.argmin_mem least)).1 (ownToo.trans own.symm)
    subst same
    have accepted : walk.accepts asking (state, job) = true := by
      rw [accepts, ownFinish, found]
      cases best : (walk.others asking job).argmin (walk.finishAt state job) with
      | none => rfl
      | some second =>
          have permitted := (mem_others.mp (List.argmin_mem best)).1
          have le := List.le_of_mem_argmin permitted least
          have above := admissible.allowance_nonneg (admissible.finishAt_nonneg free job second)
          simp only [Option.map_some, Option.any_some, Option.all_some, decide_eq_true_eq]
          linarith
    rw [accepted] at refuses
    cases refuses
  unfold booked
  cases least : (walk.permitted job).argmin (walk.finishAt state job) with
  | none =>
      have empty := List.argmin_eq_none.mp least
      rw [others, empty]
      rfl
  | some lane =>
      have among := argmin_filter_of_mem (fun lane => decide (lane.key ≠ asking)) least
        (by simpa using other lane least)
      rw [others, among]

/-- What the walk does at a job: the asking lane accepts it and the walk ends, or it is booked
and, where the asking lane might have run it, listed as left.
-/
theorem walkJobs_step (admissible : walk.Admissible) (free : FreeNow state)
    {rest : List (ι × String × Option ℤ)} {left : List (EftLeft ι κ)}
    {decision : EftDecision ι κ}
    (walked : walk.walkJobs asking (job :: rest) state left = some decision)
    : (walk.accepts asking (state, job) = true ∧ decision = ⟨some job.1, left⟩)
      ∨ (walk.accepts asking (state, job) = false ∧ ∃ more,
          walk.walkJobs asking rest (walk.booked state job) (left ++ more) = some decision
          ∧ ((walk.ownFinish asking state job = none ∧ more = [])
            ∨ ∃ item, more = [item] ∧ walk.LeavesTo asking (state, job) item)) := by
  obtain ⟨name, row, known⟩ := job
  simp only [walkJobs, Option.bind_eq_bind, Option.bind_eq_some_iff] at walked
  obtain ⟨pages, counted, offer, priced, walked⟩ := walked
  obtain ⟨best, mine⟩ := @offer_of_priceLanes _ _ _ walk asking (name, row, known) _ _
    admissible.keys counted _ priced
  rw [keeps_eq_accepts best mine] at walked
  cases accepted : walk.accepts asking (state, name, row, known) with
  | true =>
      rw [accepted, if_pos rfl] at walked
      exact .inl ⟨rfl, (Option.some.inj walked).symm⟩
  | false =>
      rw [accepted, if_neg Bool.false_ne_true, best] at walked
      refine .inr ⟨rfl, ?_⟩
      rw [booked_of_not_accepts admissible free accepted]
      cases least : (walk.others asking (name, row, known)).argmin
          (walk.finishAt state (name, row, known)) with
      | none =>
          -- Nobody else may be given it, so the asking lane may not either.
          rw [least] at walked
          refine ⟨[], by simpa using walked, .inl ⟨?_, rfl⟩⟩
          by_contra runs
          obtain ⟨own, found⟩ := Option.ne_none_iff_exists'.mp runs
          rw [accepts, found, least] at accepted
          cases accepted
      | some lane =>
          rw [least, mine] at walked
          simp only [Option.map_some] at walked
          cases own : walk.ownFinish asking state (name, row, known) with
          | none =>
              rw [own] at walked
              exact ⟨[], by simpa [asBest] using walked, .inl ⟨rfl, rfl⟩⟩
          | some here =>
              rw [own] at walked
              obtain ⟨permitted, other⟩ := mem_others.mp (List.argmin_mem least)
              obtain ⟨member, mayRun⟩ := mem_permitted.mp permitted
              obtain ⟨start, finish, times⟩ := finish_of_priceLanes priced member mayRun
              have times' : walk.timesOf state (name, row, known) lane = some (start, finish) :=
                (timesOf_eq counted lane).trans times
              refine ⟨_, walked, .inr ⟨_, rfl, ?_⟩⟩
              rw [accepts, own, least] at accepted
              simp only [Option.map_some, Option.any_some, Option.all_some,
                decide_eq_false_iff_not, not_le] at accepted
              refine {
                job := rfl
                here := own
                lane := ⟨lane, permitted, rfl, other, ?_, ?_, rfl⟩
                above := accepted
              }
              · simp [asBest, finishAt, times']
              · intro second secondPermitted
                by_cases asker : second.key = asking
                · -- The asking lane itself finishes later, above the allowance.
                  have itself : here = walk.finishAt state (name, row, known) second := by
                    obtain ⟨found, isFound, rfl⟩ := Option.map_eq_some_iff.mp own
                    have ownKey : found.key = asking := by simpa using List.find?_some isFound
                    rw [List.inj_on_of_nodup_map admissible.keys
                      (mem_permitted.mp (List.mem_of_find?_eq_some isFound)).1
                      (mem_permitted.mp secondPermitted).1 (ownKey.trans asker.symm)]
                  have nonneg := admissible.allowance_nonneg
                    (admissible.finishAt_nonneg free (name, row, known) lane)
                  rw [← itself]
                  simp only [asBest]
                  linarith
                · exact List.le_of_mem_argmin (mem_others.mpr ⟨secondPermitted, asker⟩) least

theorem walkJobs_decision (admissible : walk.Admissible) {jobs : List (ι × String × Option ℤ)}
    (free : FreeNow state) {left : List (EftLeft ι κ)} {decision : EftDecision ι κ}
    (walked : walk.walkJobs asking jobs state left = some decision)
    : decision.mine = ((walk.stations state jobs).find? (walk.accepts asking)).map (·.2.1)
      ∧ ∃ more, decision.left = left ++ more
        ∧ List.Forall₂ (walk.LeavesTo asking)
          (((walk.stations state jobs).takeWhile (fun station => !walk.accepts asking station)).filter
            (fun station => (walk.ownFinish asking station.1 station.2).isSome)) more := by
  induction jobs generalizing state left with
  | nil =>
      obtain rfl := Option.some.inj walked
      exact ⟨rfl, [], (List.append_nil left).symm, .nil⟩
  | cons job rest ih =>
      rcases walkJobs_step admissible free walked with ⟨accepted, rfl⟩ | ⟨refuses, more, later, listed⟩
      · refine ⟨by simp [stations, accepted], [], (List.append_nil left).symm, ?_⟩
        simp [stations, accepted]
      · obtain ⟨mine, others, split, entries⟩ := ih (admissible.freeNow_booked free job) later
        refine ⟨by simpa [stations, refuses] using mine, more ++ others, ?_, ?_⟩
        · rw [split, List.append_assoc]
        · rw [stations, List.takeWhile_cons_of_pos (by simp [refuses])]
          rcases listed with ⟨idle, rfl⟩ | ⟨item, rfl, leaves⟩
          · rw [List.filter_cons_of_neg (by simp [idle])]
            exact entries
          · rw [List.filter_cons_of_pos (by simp [leaves.here])]
            exact .cons leaves entries

/-- A priced walk gives the asking lane the first job it accepts, every earlier one being booked
on the lane that finishes it first, and lists the earlier ones that it might have run itself, in
order, each with a lane that finishes it first and by more than the allowance.
-/
theorem earliestFinish_decision (admissible : walk.Admissible) {decision : EftDecision ι κ}
    (claimed : walk.earliestFinishClaimWhere asking = some decision)
    : decision.mine
        = ((walk.stations walk.initialState (walk.jobs.take walk.params.limit)).find?
            (walk.accepts asking)).map (·.2.1)
      ∧ List.Forall₂ (walk.LeavesTo asking)
          (((walk.stations walk.initialState (walk.jobs.take walk.params.limit)).takeWhile
            (fun station => !walk.accepts asking station)).filter
              (fun station => (walk.ownFinish asking station.1 station.2).isSome))
          decision.left := by
  unfold earliestFinishClaimWhere at claimed
  split_ifs at claimed
  obtain ⟨mine, more, split, entries⟩ :=
    walkJobs_decision admissible admissible.freeNow_initialState claimed
  rw [List.nil_append] at split
  exact ⟨mine, split ▸ entries⟩

end EftWalk

/-- The slow lane's walk gives it the first volume that it accepts. -/
theorem twoLaneWalk_decision
    : ∃ decision, twoLaneWalk.earliestFinishClaimWhere 2 = some decision
        ∧ decision.mine
          = ((twoLaneWalk.stations twoLaneWalk.initialState
              (twoLaneWalk.jobs.take twoLaneWalk.params.limit)).find?
                (twoLaneWalk.accepts 2)).map (·.2.1) :=
  have priced : (twoLaneWalk.earliestFinishClaimWhere 2).isSome = true := by decide +kernel
  ⟨_, (Option.some_get priced).symm,
    (EftWalk.earliestFinish_decision twoLaneWalk_admissible (Option.some_get priced).symm).1⟩

end MokuroBunko.Sched
