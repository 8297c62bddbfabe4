import MokuroBunko.Sched.QueuePlan

/-! What one item makes of the plan, and what the walk over the queue makes of it: a cut walk
plans a part of the whole one, and held items leave no trace.
-/

namespace MokuroBunko.Sched

open MokuroBunko.Lib MokuroBunko.Data

-- Lanes

theorem PlanInputs.lt_of_mem_openLanes {inputs : PlanInputs} {lanes : List Lane}
    {generationId : String} {place : ℕ} (member : place ∈ inputs.openLanes lanes generationId)
    : place < lanes.length :=
  List.mem_range.mp (List.mem_of_mem_filter member)

theorem mem_of_earliestLane {pricing : Pricing} {lanes : List Lane} {generationId : String}
    {pages : ℤ} {places : List ℕ} {best : Option (ℕ × ℚ)} {place : ℕ}
    (found : earliestLane pricing lanes generationId pages places best = some place)
    : place ∈ places ∨ best.map Prod.fst = some place := by
  induction places generalizing best with
  | nil => exact .inr found
  | cons next rest ih =>
      simp only [earliestLane, Option.bind_eq_bind, Option.bind_eq_some_iff] at found
      obtain ⟨lane, -, free, -, estimate, -, found⟩ := found
      rcases ih found with later | before
      · exact .inl (List.mem_cons_of_mem _ later)
      · split_ifs at before
        · obtain rfl := Option.some.inj before
          exact .inl List.mem_cons_self
        · exact .inr before

theorem firstFree_mem (lanes : List Lane) (first : ℕ) (others : List ℕ)
    : firstFree lanes first others ∈ first :: others := by
  unfold firstFree
  dsimp only
  induction others generalizing first with
  | nil => exact List.mem_singleton_self first
  | cons place rest ih =>
      rw [List.foldl_cons]
      by_cases earlier : sooner (lanes[place]?.bind Lane.freeIn) (lanes[first]?.bind Lane.freeIn)
      · rw [if_pos earlier]
        exact List.mem_cons_of_mem _ (ih place)
      · rw [if_neg earlier]
        rcases List.mem_cons.mp (ih first) with same | later
        · exact List.mem_cons.mpr (.inl same)
        · exact List.mem_cons_of_mem _ (List.mem_cons_of_mem _ later)

theorem chosen_mem {pricing : Pricing} {lanes : List Lane} {generationId : String}
    {pages : Option ℤ} {first : ℕ} {others : List ℕ}
    : (earliestFinishLane pricing lanes (first :: others) generationId pages).getD
        (firstFree lanes first others) ∈ first :: others := by
  cases found : earliestFinishLane pricing lanes (first :: others) generationId pages with
  | none => exact firstFree_mem lanes first others
  | some place =>
      obtain ⟨pages, -, found⟩ := Option.bind_eq_some_iff.mp found
      exact (mem_of_earliestLane found).resolve_right nofun

-- One item

/-- The entry gives no ETA. -/
structure NoEta (entry : Object) : Prop where
  seconds : entry.get? "eta_seconds" = some .null
  instant : entry.get? "eta_at" = some .null

theorem noEta_noPrediction (entry : Object) (reason : String)
    : NoEta (noPrediction entry reason) := by
  unfold noPrediction
  dsimp only
  constructor <;> split_ifs <;> simp

namespace PlanInputs

variable {inputs : PlanInputs} {median : Option ℤ} {state : PlanState} {item : Object}

/-- What an item may make of the plan. -/
inductive Step (inputs : PlanInputs) (median : Option ℤ) (state : PlanState) (item : Object)
    : PlanState → Prop where
  | waits (entry : Object) (noEta : NoEta entry) (behind : state.blockedBy.isSome)
    : Step inputs median state item
        { state with planned := state.planned ++ [⟨entry, none, false⟩] }
  | held (entry : Object) (noEta : NoEta entry) (clear : state.blockedBy = none)
      (closed : inputs.openLanes state.lanes (rowText inputs.texts item) = [])
    : Step inputs median state item
        { state with planned := state.planned ++ [⟨entry, none, true⟩] }
  | stuck (entry : Object) (noEta : NoEta entry) (reason : String) (clear : state.blockedBy = none)
      (takes : inputs.openLanes state.lanes (rowText inputs.texts item) ≠ [])
    : Step inputs median state item {
        lanes := state.lanes
        planned := state.planned ++ [⟨entry, none, false⟩]
        blockedBy := some reason
      }
  | booked (entry : Object) (place : ℕ) (lane : Lane) (free : ℚ) (estimate : RateEstimate)
      (pages : ℤ) (times : ℚ × ℚ) (clear : state.blockedBy = none)
      (opened : place ∈ inputs.openLanes state.lanes (rowText inputs.texts item))
      (there : state.lanes[place]? = some lane) (known : lane.freeIn = some free)
      (rated : inputs.pricing.rateFor (rowText inputs.texts item) lane.machine 0 0 = some estimate)
      (counted : (pagesOr median item).1 = some pages)
      (timed : times
        = laneTimes inputs.pricing lane free (rowText inputs.texts item) estimate pages)
      (seconds : entry.get? "eta_seconds" = some (intValue (roundInt times.2)))
    : Step inputs median state item {
        lanes := state.lanes.set place { lane with
          generationId := some (rowText inputs.texts item)
          freeIn := some times.2
          used := true
        }
        planned := state.planned ++ [⟨entry, some ⟨place, times.1, times.2⟩, false⟩]
        blockedBy := none
      }

theorem planItem_step (inputs : PlanInputs) (median : Option ℤ) (state : PlanState) (item : Object)
    : inputs.Step median state item (inputs.planItem median state item) := by
  obtain ⟨lanes, planned, blockedBy⟩ := state
  cases blockedBy with
  | some reason => exact .waits _ (noEta_noPrediction _ _) rfl
  | none =>
      unfold planItem
      extract_lets generationId name
      dsimp only
      cases opened : inputs.openLanes lanes generationId with
      | nil =>
          refine .held _ ?_ rfl opened
          obtain ⟨seconds, instant⟩ := noEta_noPrediction
            ((item.insert "pages" ((pagesOr median item).1.elim .null intValue)).insert "rough"
              (.bool (pagesOr median item).2)) (inputs.holdReason generationId name)
          exact ⟨by simpa using seconds, by simpa using instant⟩
      | cons first others =>
          have takes : inputs.openLanes lanes generationId ≠ [] := opened ▸ List.cons_ne_nil _ _
          have chosen := @chosen_mem inputs.pricing lanes generationId (pagesOr median item).1
            first others
          dsimp only
          generalize (earliestFinishLane inputs.pricing lanes (first :: others) generationId
            (pagesOr median item).1).getD (firstFree lanes first others) = place at chosen ⊢
          rw [← opened] at chosen
          obtain ⟨lane, there⟩ : ∃ lane, lanes[place]? = some lane :=
            ⟨_, List.getElem?_eq_getElem (lt_of_mem_openLanes chosen)⟩
          have read : lanes.getD place { machine := none } = lane := by
            rw [List.getD_eq_getElem?_getD, there, Option.getD_some]
          rw [read]
          cases rated : inputs.pricing.rateFor generationId lane.machine 0 0 with
          | none => exact .stuck _ (noEta_noPrediction _ _) _ rfl takes
          | some estimate =>
              cases counted : (pagesOr median item).1 with
              | none => exact .stuck _ (noEta_noPrediction _ _) _ rfl takes
              | some pages =>
                  cases known : lane.freeIn with
                  | none => exact .stuck _ (noEta_noPrediction _ _) _ rfl takes
                  | some free =>
                      refine .booked _ place lane free estimate pages _ rfl chosen there known
                        rated counted rfl ?_
                      simp [timed]

theorem Step.planned {next : PlanState} (step : inputs.Step median state item next)
    : ∃ planned, next.planned = state.planned ++ [planned] := by
  cases step with
  | waits entry => exact ⟨_, rfl⟩
  | held entry => exact ⟨_, rfl⟩
  | stuck entry => exact ⟨_, rfl⟩
  | booked entry => exact ⟨_, rfl⟩

theorem planItem_eq_append (state : PlanState) (item : Object)
    : inputs.planItem median state item
      = { inputs.planItem median { state with planned := [] } item with
          planned := state.planned
            ++ (inputs.planItem median { state with planned := [] } item).planned } := by
  unfold planItem block
  dsimp only
  split
  · rfl
  · split
    · rfl
    · split
      · rfl
      · split
        · rfl
        · split <;> rfl

end PlanInputs

end MokuroBunko.Sched
