import MokuroBunko.Sched.PlanCut
import MokuroBunko.Sched.RunningLanes

/-! When a plan ends. No step makes a lane free sooner, every finish is within its lane's free
time, and what cannot be timed leaves everything behind it without a time.
-/

namespace MokuroBunko.Sched

open MokuroBunko.Lib MokuroBunko.Data

-- The last lane

theorem map_of_mapM {lanes : List Lane} {finished : List ℚ}
    (all : lanes.mapM Lane.freeIn = some finished)
    : lanes.map Lane.freeIn = finished.map some := by
  induction lanes generalizing finished with
  | nil =>
      cases all
      rfl
  | cons lane rest ih =>
      simp only [List.mapM_cons, Option.bind_eq_bind, Option.bind_eq_some_iff, Option.pure_def,
        Option.some.injEq] at all
      obtain ⟨free, known, others, later, rfl⟩ := all
      rw [List.map_cons, List.map_cons, known, ih later]

theorem PlanInputs.lastFree_some {lanes : List Lane} {last : ℚ}
    (found : PlanInputs.lastFree lanes = some last)
    : (∀ lane ∈ lanes, lane.used = true → ∃ free ∈ lane.freeIn, free ≤ last)
      ∧ ∃ lane ∈ lanes, lane.used = true ∧ lane.freeIn = some last := by
  simp only [lastFree, Option.bind_eq_bind, Option.bind_eq_some_iff] at found
  obtain ⟨finished, all, found⟩ := found
  have frees := map_of_mapM all
  have largest : finished.max? = some last := by
    cases finished with
    | nil => cases found
    | cons first others => exact found
  obtain ⟨member, bound⟩ := List.max?_eq_some_iff.mp largest
  constructor
  · intro lane here used
    have known : lane.freeIn ∈ finished.map some :=
      frees ▸ List.mem_map_of_mem (List.mem_filter.mpr ⟨here, used⟩)
    obtain ⟨free, inside, known⟩ := List.mem_map.mp known
    exact ⟨free, known.symm, bound free inside⟩
  · have known : some last ∈ (lanes.filter Lane.used).map Lane.freeIn :=
      frees ▸ List.mem_map_of_mem member
    obtain ⟨lane, inside, known⟩ := List.mem_map.mp known
    obtain ⟨here, used⟩ := List.mem_filter.mp inside
    exact ⟨lane, here, used, known⟩

-- One item

/-- Every finish planned so far is within its lane's free time, the last of a lane just then. -/
structure PlanState.Sound (cards : List (Object × Option ℚ)) (state : PlanState) : Prop where
  running : ∀ card ∈ cards, ∃ lane ∈ state.lanes, lane.used = true ∧ NoSooner card.2 lane.freeIn
  pending : ∀ planned ∈ state.planned, ∀ booking ∈ planned.booking,
    ∃ lane ∈ state.lanes, lane.used = true ∧ NoSooner (some booking.finish) lane.freeIn
  last : ∀ lane ∈ state.lanes, lane.used = true → ∀ free ∈ lane.freeIn,
    (∃ card ∈ cards, card.2 = some free)
      ∨ ∃ planned ∈ state.planned, ∃ booking ∈ planned.booking, booking.finish = free
  eta : ∀ planned ∈ state.planned, ∀ seconds, Reports planned.entry seconds →
    ∃ booking ∈ planned.booking, seconds ≤ roundInt booking.finish

theorem PlanState.Sound.unbooked {cards : List (Object × Option ℚ)} {state : PlanState}
    {entry : Object} {held : Bool} {blockedBy : Option String} (sound : state.Sound cards)
    (noEta : NoEta entry)
    : ({
        lanes := state.lanes
        planned := state.planned ++ [⟨entry, none, held⟩]
        blockedBy := blockedBy
      } : PlanState).Sound cards := by
  constructor
  case running => exact sound.running
  case pending =>
    intro planned member booking booked
    rcases List.mem_append.mp member with before | now
    · exact sound.pending planned before booking booked
    · obtain rfl := List.mem_singleton.mp now
      cases booked
  case last =>
    intro lane member used free known
    rcases sound.last lane member used free known with card | ⟨planned, member, booked⟩
    · exact .inl card
    · exact .inr ⟨planned, List.mem_append_left _ member, booked⟩
  case eta =>
    intro planned member seconds reports
    rcases List.mem_append.mp member with before | now
    · exact sound.eta planned before seconds reports
    · obtain rfl := List.mem_singleton.mp now
      exact absurd reports (noEta.not_reports seconds)

namespace PlanInputs

variable {inputs : PlanInputs} {median : Option ℤ} {state next : PlanState} {item : Object}
variable {cards : List (Object × Option ℚ)}

theorem pagesOr_nonneg (nonneg : ∀ pages ∈ median, 0 ≤ pages) {pages : ℤ}
    (counted : (pagesOr median item).1 = some pages)
    : 0 ≤ pages := by
  unfold pagesOr at counted
  split at counted
  case h_1 own found =>
    obtain rfl := Option.some.inj counted
    have positive := (Option.filter_eq_some_iff.mp found).2
    exact (of_decide_eq_true positive).le
  case h_2 => exact nonneg pages counted

theorem laneTimes_le {pricing : Pricing} (usable : pricing.Usable) (lane : Lane) (free : ℚ)
    (generationId : String) {estimate : RateEstimate} (rated : estimate.Usable) {pages : ℤ}
    (nonneg : 0 ≤ pages)
    : free ≤ (laneTimes pricing lane free generationId estimate pages).2 := by
  have volume := rated.volumeSeconds_nonneg (Int.cast_nonneg nonneg)
  have startup := usable.startup generationId lane.machine
  unfold laneTimes
  dsimp only
  split_ifs <;> linarith

theorem Step.lanesLater (usable : inputs.pricing.Usable) (nonneg : ∀ pages ∈ median, 0 ≤ pages)
    (step : inputs.Step median state item next)
    : LanesLater state.lanes next.lanes := by
  cases step with
  | waits entry => exact .refl _
  | held entry => exact .refl _
  | stuck entry => exact .refl _
  | booked entry place lane free estimate pages times clear opened there known rated counted timed
      seconds =>
      have later := laneTimes_le usable lane free (rowText inputs.texts item)
        (usable.rate _ _ _ _ estimate rated) (pagesOr_nonneg nonneg counted)
      rw [← timed] at later
      intro other before here
      by_cases same : other = place
      · subst same
        obtain rfl := Option.some.inj (there.symm.trans here)
        refine ⟨_, List.getElem?_set_self (lt_of_mem_openLanes opened), ?_⟩
        rintro _ ⟨⟩
        exact ⟨free, known, later⟩
      · exact ⟨before, (List.getElem?_set_ne (Ne.symm same)).trans here, .refl _⟩

theorem Step.used (step : inputs.Step median state item next) {place : ℕ} {lane : Lane}
    (there : state.lanes[place]? = some lane) (used : lane.used = true)
    : ∃ later, next.lanes[place]? = some later ∧ later.used = true := by
  cases step with
  | waits entry => exact ⟨lane, there, used⟩
  | held entry => exact ⟨lane, there, used⟩
  | stuck entry => exact ⟨lane, there, used⟩
  | booked entry chosen _ _ _ _ _ _ opened =>
      by_cases same : place = chosen
      · subst same
        exact ⟨_, List.getElem?_set_self (lt_of_mem_openLanes opened), rfl⟩
      · exact ⟨lane, (List.getElem?_set_ne (Ne.symm same)).trans there, used⟩

theorem Step.within (usable : inputs.pricing.Usable) (nonneg : ∀ pages ∈ median, 0 ≤ pages)
    (step : inputs.Step median state item next) {finish : Option ℚ}
    (before : ∃ lane ∈ state.lanes, lane.used = true ∧ NoSooner finish lane.freeIn)
    : ∃ lane ∈ next.lanes, lane.used = true ∧ NoSooner finish lane.freeIn := by
  obtain ⟨lane, member, used, within⟩ := before
  obtain ⟨place, there⟩ := List.getElem?_of_mem member
  obtain ⟨later, here, after⟩ := step.lanesLater usable nonneg place lane there
  obtain ⟨same, again, used⟩ := step.used there used
  obtain rfl := Option.some.inj (here.symm.trans again)
  exact ⟨later, List.mem_of_getElem? here, used, within.trans after⟩

theorem Step.sound (usable : inputs.pricing.Usable) (nonneg : ∀ pages ∈ median, 0 ≤ pages)
    (step : inputs.Step median state item next) (sound : state.Sound cards)
    : next.Sound cards := by
  have running := fun card member => step.within usable nonneg (sound.running card member)
  have pending := fun planned member booking booked =>
    step.within usable nonneg (sound.pending planned member booking booked)
  cases step with
  | waits entry noEta => exact sound.unbooked noEta
  | held entry noEta => exact sound.unbooked noEta
  | stuck entry noEta => exact sound.unbooked noEta
  | booked entry place lane free estimate pages times clear opened there known rated counted timed
      seconds =>
      have own := @List.getElem?_set_self _ state.lanes place { lane with
        generationId := some (rowText inputs.texts item), freeIn := some times.2, used := true }
        (lt_of_mem_openLanes opened)
      constructor
      case running => exact running
      case pending =>
        intro planned member booking booked
        rcases List.mem_append.mp member with before | now
        · exact pending planned before booking booked
        · obtain rfl := List.mem_singleton.mp now
          cases booked
          exact ⟨_, List.mem_of_getElem? own, rfl, .refl _⟩
      case last =>
        intro other member used free known
        obtain ⟨index, here⟩ := List.getElem?_of_mem member
        by_cases same : index = place
        · subst same
          obtain rfl := Option.some.inj (own.symm.trans here)
          cases known
          exact .inr ⟨_, List.mem_append_right _ (List.mem_singleton_self _), _, rfl, rfl⟩
        · have here := (List.getElem?_set_ne (Ne.symm same)).symm.trans here
          rcases sound.last other (List.mem_of_getElem? here) used free known with
            card | ⟨planned, member, booked⟩
          · exact .inl card
          · exact .inr ⟨planned, List.mem_append_left _ member, booked⟩
      case eta =>
        intro planned member count reports
        rcases List.mem_append.mp member with before | now
        · exact sound.eta planned before count reports
        · obtain rfl := List.mem_singleton.mp now
          exact ⟨_, rfl, (reports.eq seconds).le⟩

-- Items that cannot be timed

theorem Step.blocks (step : inputs.Step median state item next) {planned : Planned}
    (added : next.planned = state.planned ++ [planned]) (unheld : planned.held = false)
    (unbooked : planned.booking = none)
    : next.blockedBy.isSome := by
  cases step with
  | waits entry noEta behind => exact behind
  | held entry =>
      obtain rfl := List.singleton_inj.mp (List.append_cancel_left added)
      cases unheld
  | stuck entry => rfl
  | booked entry =>
      obtain rfl := List.singleton_inj.mp (List.append_cancel_left added)
      cases unbooked

theorem Step.behind (step : inputs.Step median state item next) (blocked : state.blockedBy.isSome)
    : next.blockedBy.isSome
      ∧ ∃ planned, next.planned = state.planned ++ [planned] ∧ NoEta planned.entry := by
  cases step with
  | waits entry noEta => exact ⟨blocked, _, rfl, noEta⟩
  | held entry noEta clear => exact absurd blocked (by simp [clear])
  | stuck entry noEta reason clear => exact absurd blocked (by simp [clear])
  | booked entry place lane free estimate pages times clear => exact absurd blocked (by simp [clear])

theorem foldl_behind {items : List Object} (blocked : state.blockedBy.isSome)
    : (items.foldl (inputs.planItem median) state).blockedBy.isSome
      ∧ ∃ added, (items.foldl (inputs.planItem median) state).planned = state.planned ++ added
        ∧ ∀ planned ∈ added, NoEta planned.entry := by
  induction items generalizing state with
  | nil => exact ⟨blocked, [], by simp⟩
  | cons item rest ih =>
      obtain ⟨still, first, one, noEta⟩ := (planItem_step inputs median state item).behind blocked
      obtain ⟨final, others, many, none⟩ := ih still
      exact ⟨final, first :: others, by rw [List.foldl_cons, many, one]; simp,
        List.forall_mem_cons.mpr ⟨noEta, none⟩⟩

theorem foldl_blocks (items : List Object) (state : PlanState)
    : ∃ added, (items.foldl (inputs.planItem median) state).planned = state.planned ++ added
        ∧ ∀ early stuck late, added = early ++ stuck :: late → stuck.held = false →
          stuck.booking = none → (∀ later ∈ late, NoEta later.entry)
            ∧ (items.foldl (inputs.planItem median) state).blockedBy.isSome := by
  induction items generalizing state with
  | nil => exact ⟨[], by simp⟩
  | cons item rest ih =>
      have step := planItem_step inputs median state item
      obtain ⟨first, one⟩ := step.planned
      obtain ⟨others, many, blocks⟩ := ih (inputs.planItem median state item)
      refine ⟨first :: others, by rw [List.foldl_cons, many, one]; simp, ?_⟩
      intro early stuck late parts unheld unbooked
      cases early with
      | nil =>
          obtain ⟨rfl, rfl⟩ := List.cons.inj parts
          obtain ⟨still, added, all, none⟩ :=
            @foldl_behind inputs median _ rest (step.blocks one unheld unbooked)
          obtain rfl := List.append_cancel_left (many.symm.trans all)
          exact ⟨none, still⟩
      | cons head early =>
          exact blocks early stuck late (List.cons.inj parts).2 unheld unbooked

-- The whole plan

theorem medianPages_nonneg (pending : List Object) : ∀ pages ∈ medianPages pending, 0 ≤ pages :=
  fun _ found => medianInt_nonneg (fun _ member => of_decide_eq_true (List.mem_filter.mp member).2)
    found

theorem foldl_sound (usable : inputs.pricing.Usable) (nonneg : ∀ pages ∈ median, 0 ≤ pages)
    (items : List Object) (sound : state.Sound cards)
    : (items.foldl (inputs.planItem median) state).Sound cards := by
  induction items generalizing state with
  | nil => exact sound
  | cons item rest ih =>
      exact ih ((planItem_step inputs median state item).sound usable nonneg sound)

variable {running : List Object}

theorem start_sound (usable : inputs.pricing.Usable)
    (counted : ∀ card ∈ running, NoNegativeTotal card)
    : ({ lanes := (inputs.lanesFromRunning running).lanes } : PlanState).Sound
        ((inputs.lanesFromRunning running).cards running) := by
  have placed := (lanesFromRunning_sound usable counted).1
  refine ⟨?_, nofun, ?_, nofun⟩
  · intro card member
    obtain ⟨index, member⟩ := (mem_cards usable counted).mp member
    obtain ⟨place, -, lane, there, used, within⟩ := placed.within _ member
    exact ⟨lane, List.mem_of_getElem? there, used, within⟩
  · intro lane member used free known
    obtain ⟨⟨index, card⟩, member, last⟩ := placed.last lane member used free known
    exact .inl ⟨card, (mem_cards usable counted).mpr ⟨index, member⟩, last⟩

theorem cards_eta (usable : inputs.pricing.Usable)
    (counted : ∀ card ∈ running, NoNegativeTotal card) {card : Object × Option ℚ}
    (member : card ∈ (inputs.lanesFromRunning running).cards running) {seconds : ℤ}
    (reports : Reports card.1 seconds)
    : ∃ finish ∈ card.2, seconds ≤ roundInt finish := by
  obtain ⟨index, member⟩ := (mem_cards usable counted).mp member
  exact (lanesFromRunning_sound usable counted).1.eta _ member seconds reports

theorem doneIn_some {pending : List Object} {last : ℚ}
    (found : (inputs.planQueue running pending).doneIn = some last)
    : reach inputs.through 0 pending ≥ pending.length
      ∧ (inputs.finalState running pending).blockedBy = none
      ∧ lastFree (inputs.finalState running pending).lanes = some last := by
  simp only [planQueue] at found
  split_ifs at found with reached
  simp only [Bool.or_eq_true, not_or, Bool.not_eq_true, Option.isSome_eq_false_iff,
    Option.isNone_iff_eq_none] at reached
  refine ⟨?_, reached.2, found⟩
  cases cut : inputs.through with
  | none => exact le_rfl
  | some through =>
      have whole := reached.1
      rw [cut, Option.any_some, decide_eq_false_iff_not] at whole
      simp only [reach, Option.elim_some]
      omega

end PlanInputs

/-- The plan ends then: with the last of its running cards and of the items it booked, and no
entry reports a later time.
-/
structure QueuePlan.EndsAt (plan : QueuePlan) (last : ℚ) : Prop where
  running : ∀ card ∈ plan.running, ∃ finish ∈ card.2, finish ≤ last
  pending : ∀ planned ∈ plan.pending, planned.held = false →
    ∃ booking ∈ planned.booking, booking.finish ≤ last
  attained : (∃ card ∈ plan.running, card.2 = some last)
    ∨ ∃ planned ∈ plan.pending, ∃ booking ∈ planned.booking, booking.finish = last
  runningEta : ∀ card ∈ plan.running, ∀ seconds, Reports card.1 seconds → seconds ≤ roundInt last
  pendingEta : ∀ planned ∈ plan.pending, ∀ seconds, Reports planned.entry seconds →
    seconds ≤ roundInt last

namespace PlanInputs

variable {inputs : PlanInputs} {running pending : List Object}

theorem finalState_eq_foldl (inputs : PlanInputs) (running pending : List Object)
    : inputs.finalState running pending
      = (pending.take (reach inputs.through 0 pending)).foldl
        (inputs.planItem (medianPages pending)) { lanes := (inputs.lanesFromRunning running).lanes } :=
  planItems_eq_foldl inputs _ 0 pending _

theorem planQueue_blocks {early late : List Planned} {stuck : Planned}
    (parts : (inputs.planQueue running pending).pending = early ++ stuck :: late)
    (unheld : stuck.held = false) (unbooked : stuck.booking = none)
    : (∀ later ∈ late, NoEta later.entry) ∧ (inputs.planQueue running pending).doneIn = none := by
  obtain ⟨added, all, blocks⟩ := @foldl_blocks inputs (medianPages pending)
    (pending.take (reach inputs.through 0 pending))
    { lanes := (inputs.lanesFromRunning running).lanes }
  rw [← finalState_eq_foldl, List.nil_append] at all
  obtain ⟨silent, blocked⟩ := blocks early stuck late (all.symm.trans parts) unheld unbooked
  rw [← finalState_eq_foldl] at blocked
  refine ⟨silent, ?_⟩
  cases found : (inputs.planQueue running pending).doneIn with
  | none => rfl
  | some last => exact absurd blocked (by simp [(doneIn_some found).2.1])

theorem planQueue_endsAt (usable : inputs.pricing.Usable)
    (counted : ∀ card ∈ running, NoNegativeTotal card) {last : ℚ}
    (found : (inputs.planQueue running pending).doneIn = some last)
    : (inputs.planQueue running pending).EndsAt last := by
  obtain ⟨-, clear, lanes⟩ := doneIn_some found
  obtain ⟨bound, lane, member, used, free⟩ := lastFree_some lanes
  have sound : (inputs.finalState running pending).Sound
      ((inputs.lanesFromRunning running).cards running) := by
    rw [finalState_eq_foldl]
    exact foldl_sound usable (medianPages_nonneg pending) _ (start_sound usable counted)
  have ends {finish : Option ℚ} (within : ∃ lane ∈ (inputs.finalState running pending).lanes,
      lane.used = true ∧ NoSooner finish lane.freeIn)
      : ∃ time ∈ finish, time ≤ last := by
    obtain ⟨lane, member, used, later⟩ := within
    obtain ⟨free, known, le⟩ := bound lane member used
    obtain ⟨time, here, early⟩ := later free known
    exact ⟨time, here, early.trans le⟩
  constructor
  case running => exact fun card member => ends (sound.running card member)
  case pending =>
    intro planned member unheld
    cases booked : planned.booking with
    | none =>
        obtain ⟨early, late, parts⟩ := List.append_of_mem member
        exact absurd (found.symm.trans (planQueue_blocks parts unheld booked).2) nofun
    | some booking =>
        obtain ⟨_, ⟨⟩, le⟩ := ends (sound.pending planned member booking booked)
        exact ⟨booking, rfl, le⟩
  case attained => exact sound.last lane member used last free
  case runningEta =>
    intro card member seconds reports
    obtain ⟨finish, known, le⟩ := cards_eta usable counted member reports
    obtain ⟨time, same, early⟩ := ends (sound.running card member)
    obtain rfl := Option.some.inj (known.symm.trans same)
    exact le.trans (roundInt_mono early)
  case pendingEta =>
    intro planned member seconds reports
    obtain ⟨booking, booked, le⟩ := sound.eta planned member seconds reports
    obtain ⟨_, ⟨⟩, early⟩ := ends (sound.pending planned member booking booked)
    exact le.trans (roundInt_mono early)

/-- No slot of running cards and no item of the queue makes a lane free sooner; a plan with an
end has planned the whole queue and ends with the last of what it timed; and behind an item that
cannot be timed nothing is.
-/
theorem planQueue_finish (inputs : PlanInputs) (usable : inputs.pricing.Usable)
    (running pending : List Object) (counted : ∀ card ∈ running, NoNegativeTotal card)
    : (∀ early jobs late, slotGroups running = early ++ jobs :: late →
        LanesLater (early.foldl (inputs.placeSlot running) { lanes := inputs.idleLanes }).lanes
          ((early ++ [jobs]).foldl (inputs.placeSlot running) { lanes := inputs.idleLanes }).lanes)
      ∧ (∀ early item late, pending = early ++ item :: late →
        LanesLater
          (early.foldl (inputs.planItem (medianPages pending))
            { lanes := (inputs.lanesFromRunning running).lanes }).lanes
          ((early ++ [item]).foldl (inputs.planItem (medianPages pending))
            { lanes := (inputs.lanesFromRunning running).lanes }).lanes)
      ∧ (∀ last ∈ (inputs.planQueue running pending).doneIn,
        (inputs.planQueue running pending).pending.length = pending.length
          ∧ (inputs.planQueue running pending).EndsAt last)
      ∧ ∀ early stuck late, (inputs.planQueue running pending).pending = early ++ stuck :: late →
        stuck.held = false → stuck.booking = none →
          (∀ later ∈ late, NoEta later.entry)
            ∧ (inputs.planQueue running pending).doneIn = none := by
  refine ⟨?_, ?_, ?_, ?_⟩
  · intro early jobs late parts
    exact placeSlot_lanesLater usable counted parts
  · intro early item late parts
    rw [List.foldl_append]
    exact (planItem_step inputs _ _ item).lanesLater usable (medianPages_nonneg pending)
  · intro last found
    refine ⟨?_, planQueue_endsAt usable counted found⟩
    obtain ⟨added, all, length⟩ := foldl_planned inputs (medianPages pending)
      (pending.take (reach inputs.through 0 pending))
      { lanes := (inputs.lanesFromRunning running).lanes }
    rw [← finalState_eq_foldl, List.nil_append] at all
    rw [show (inputs.planQueue running pending).pending = added from all, length,
      List.take_of_length_le (doneIn_some found).1]
  · intro early stuck late parts unheld unbooked
    exact planQueue_blocks parts unheld unbooked

def fivePages : PlanInputs := { oneMachine none with
  pricing := {
    rateFor := fun _ _ _ _ => some ⟨5, "bench", 0, 0⟩
    startupFor := fun _ _ => ⟨0, "bench", false⟩
  }
}

theorem fivePages_usable : fivePages.pricing.Usable where
  rate := by
    rintro generationId machine pages seconds _ ⟨⟩
    exact RateEstimate.usable_of_pos (by norm_num) "bench" 0
  startup := fun _ _ => le_rfl

/-- A volume of three pages for a row. -/
def threePages (row : String) : Object :=
  (Object.insert [] "generation_id" (.str row)).insert "pages" (intValue 3)

theorem threePages_endsAt : (fivePages.planQueue [] [threePages "a"]).EndsAt (3 / 5) :=
  ((planQueue_finish fivePages fivePages_usable [] [threePages "a"] nofun).2.2.1 (3 / 5)
    (by decide +kernel)).2

/-- A card of a row on the first slot, with so many pages. -/
def cardOf (row : String) (total : ℤ) : Object :=
  ((Object.insert [] "generation_id" (.str row)).insert "slot" (intValue 0)).insert "total_pages"
    (intValue total)

/-- Three fifths of a second are reported as a whole one, and a card of fewer pages than none
ends before the card in front of it.
-/
theorem rounded_up_past_end
    : (fivePages.planQueue [] [threePages "a"]).doneIn = some (3 / 5)
      ∧ (fivePages.planQueue [] [threePages "a"]).pending.map
        (fun planned => planned.entry.get? "eta_seconds") = [some (intValue 1)]
      ∧ (fivePages.planQueue [cardOf "a" 10, cardOf "a" (-20)] []).running.map Prod.snd
        = [some 2, some (-2)]
      ∧ (fivePages.planQueue [cardOf "a" 10, cardOf "a" (-20)] []).doneIn = some (-2) :=
  ⟨by decide +kernel, by decide +kernel, by decide +kernel, by decide +kernel⟩

end PlanInputs

end MokuroBunko.Sched
