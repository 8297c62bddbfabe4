import MokuroBunko.Sched.PlanSteps

/-! A cut plan is the first part of the whole one, and held items leave no trace in either. -/

namespace MokuroBunko.Sched

open MokuroBunko.Lib MokuroBunko.Data

namespace PlanInputs

variable {inputs : PlanInputs} {median : Option ℤ} {state : PlanState} {item : Object}

-- The walk over the queue

/-- How many items a cut lets through, of those from an index on. -/
def reach (through : Option ℤ) (index : ℕ) (items : List Object) : ℕ :=
  through.elim items.length (fun through => (through + 1 - index).toNat)

theorem planItems_eq_foldl (inputs : PlanInputs) (median : Option ℤ) (index : ℕ)
    (items : List Object) (state : PlanState)
    : inputs.planItems median index items state
      = (items.take (reach inputs.through index items)).foldl (inputs.planItem median) state := by
  induction items generalizing index state with
  | nil => simp [planItems]
  | cons item rest ih =>
      rw [planItems]
      cases cut : inputs.through with
      | none =>
          have whole := ih (index + 1) (inputs.planItem median state item)
          simp only [cut, reach, Option.elim_none, List.take_length] at whole ⊢
          simpa using whole
      | some through =>
          have later := ih (index + 1) (inputs.planItem median state item)
          simp only [cut, reach, Option.elim_some, Option.any_some, decide_eq_true_eq] at later ⊢
          by_cases beyond : through < index
          · rw [if_pos beyond, show (through + 1 - index).toNat = 0 by omega]
            rfl
          · rw [if_neg beyond, later, show (through + 1 - index).toNat
              = (through + 1 - (index + 1 : ℕ)).toNat + 1 by omega]
            rfl

theorem foldl_planned (inputs : PlanInputs) (median : Option ℤ) (items : List Object)
    (state : PlanState)
    : ∃ added, (items.foldl (inputs.planItem median) state).planned = state.planned ++ added
        ∧ added.length = items.length := by
  induction items generalizing state with
  | nil => exact ⟨[], by simp⟩
  | cons item rest ih =>
      obtain ⟨first, one⟩ := (planItem_step inputs median state item).planned
      obtain ⟨others, many, length⟩ := ih (inputs.planItem median state item)
      exact ⟨first :: others, by rw [List.foldl_cons, many, one]; simp, by simp [length]⟩

theorem foldl_take_planned (inputs : PlanInputs) (median : Option ℤ) (items : List Object)
    (count : ℕ) (lanes : List Lane)
    : ((items.take count).foldl (inputs.planItem median) { lanes := lanes }).planned
      = (items.foldl (inputs.planItem median) { lanes := lanes }).planned.take count := by
  obtain ⟨early, first, length⟩ :=
    foldl_planned inputs median (items.take count) { lanes := lanes }
  obtain ⟨late, second, -⟩ := foldl_planned inputs median (items.drop count)
    ((items.take count).foldl (inputs.planItem median) { lanes := lanes })
  rw [← List.foldl_append, List.take_append_drop, first] at second
  rw [first, second, List.nil_append, List.take_append]
  rw [List.length_take] at length
  rcases le_total count items.length with within | beyond
  · rw [List.take_of_length_le (by omega), show count - early.length = 0 by omega]
    simp
  · have none : late = [] := by
      obtain ⟨whole, all, total⟩ := foldl_planned inputs median items { lanes := lanes }
      have same := congrArg List.length (all.symm.trans second)
      simp only [List.nil_append, List.length_append] at same
      exact List.eq_nil_of_length_eq_zero (by omega)
    rw [none, List.take_of_length_le (by omega)]
    simp

/-- A plan up to an item has the running cards and the first entries of the whole plan. -/
theorem planQueue_cut (inputs : PlanInputs) (through : ℤ) (running pending : List Object)
    : ({ inputs with through := some through }.planQueue running pending).running
        = ({ inputs with through := none }.planQueue running pending).running
      ∧ ({ inputs with through := some through }.planQueue running pending).pending
        = ({ inputs with through := none }.planQueue running pending).pending.take
            (through + 1).toNat := by
  refine ⟨rfl, ?_⟩
  have short := planItems_eq_foldl { inputs with through := some through } (medianPages pending) 0
    pending { lanes := (inputs.lanesFromRunning running).lanes }
  have long := planItems_eq_foldl { inputs with through := none } (medianPages pending) 0
    pending { lanes := (inputs.lanesFromRunning running).lanes }
  have part := foldl_take_planned inputs (medianPages pending) pending (through + 1).toNat
    (inputs.lanesFromRunning running).lanes
  simp only [reach, Option.elim_some, Nat.cast_zero, sub_zero] at short
  simp only [reach, Option.elim_none, List.take_length] at long
  exact (congrArg PlanState.planned short).trans
    (part.trans (congrArg (fun state => state.planned.take (through + 1).toNat) long.symm))

-- Held items

/-- The items a walk planned, with their entries, less the held ones. -/
def unheld (items : List Object) (planned : List Planned) : List (Object × Planned) :=
  (items.zip planned).filter (fun pair => !pair.2.held)

theorem Step.held_frame {next : PlanState} {planned : Planned}
    (step : inputs.Step median state item next) (added : next.planned = state.planned ++ [planned])
    (held : planned.held = true)
    : next.lanes = state.lanes ∧ next.blockedBy = state.blockedBy := by
  cases step with
  | waits entry => exact ⟨rfl, rfl⟩
  | held entry => exact ⟨rfl, rfl⟩
  | stuck entry =>
      obtain rfl := List.singleton_inj.mp (List.append_cancel_left added)
      cases held
  | booked entry =>
      obtain rfl := List.singleton_inj.mp (List.append_cancel_left added)
      cases held

theorem planItem_of_pages (inputs : PlanInputs) {item : Object}
    (counted : ∃ pages, asInt (item.get? "pages") = some pages ∧ 0 < pages)
    (first second : Option ℤ) (state : PlanState)
    : inputs.planItem first state item = inputs.planItem second state item := by
  obtain ⟨pages, found, positive⟩ := counted
  have own (median : Option ℤ) : pagesOr median item = (some pages, false) := by
    rw [pagesOr, found, Option.filter_some, if_pos (decide_eq_true positive)]
  unfold planItem
  rw [own first, own second]

theorem foldl_unheld (inputs : PlanInputs) (median other : Option ℤ) (items : List Object)
    (counted : ∀ item ∈ items, ∃ pages, asInt (item.get? "pages") = some pages ∧ 0 < pages)
    (state : PlanState)
    : ∃ added, (items.foldl (inputs.planItem median) state).planned = state.planned ++ added
        ∧ added.length = items.length
        ∧ ∀ before, ((unheld items added).map Prod.fst).foldl (inputs.planItem other)
            { state with planned := before }
          = { items.foldl (inputs.planItem median) state with
              planned := before ++ (unheld items added).map Prod.snd } := by
  induction items generalizing state with
  | nil => exact ⟨[], by simp [unheld]⟩
  | cons item rest ih =>
      have step := planItem_step inputs median state item
      obtain ⟨first, one⟩ := step.planned
      obtain ⟨others, many, length, alike⟩ := ih
        (fun later member => counted later (List.mem_cons_of_mem _ member))
        (inputs.planItem median state item)
      refine ⟨first :: others, by rw [List.foldl_cons, many, one]; simp, by simp [length], ?_⟩
      intro before
      rw [List.foldl_cons]
      cases held : first.held with
      | true =>
          obtain ⟨lanes, blockedBy⟩ := step.held_frame one held
          have skipped : unheld (item :: rest) (first :: others) = unheld rest others := by
            simp [unheld, held]
          have same : { inputs.planItem median state item with planned := before }
              = { state with planned := before } := by
            dsimp only
            rw [lanes, blockedBy]
          rw [skipped, ← same]
          exact alike before
      | false =>
          have kept : unheld (item :: rest) (first :: others)
              = (item, first) :: unheld rest others := by
            simp [unheld, held]
          have own : inputs.planItem other { state with planned := before } item
              = { inputs.planItem median state item with planned := before ++ [first] } := by
            have here := @planItem_eq_append inputs median state item
            have there := @planItem_eq_append inputs median { state with planned := before } item
            rw [here] at one
            rw [planItem_of_pages inputs (counted item List.mem_cons_self) other median, there,
              List.append_cancel_left one, here]
          rw [kept, List.map_cons, List.foldl_cons, own, alike (before ++ [first])]
          simp

theorem unheld_entries {items : List Object} {planned : List Planned}
    (length : planned.length ≤ items.length)
    : (unheld items planned).map Prod.snd = planned.filter (fun entry => !entry.held) := by
  rw [unheld, show (fun pair : Object × Planned => !pair.2.held)
    = (fun entry : Planned => !entry.held) ∘ Prod.snd from rfl, ← List.filter_map,
    List.map_snd_zip length]

/-- What a plan leaves of the queue when the items it holds are taken out. -/
def withoutHeld (inputs : PlanInputs) (running pending : List Object) : List Object :=
  let planned := (inputs.planQueue running pending).pending
  (unheld pending planned).map Prod.fst ++ pending.drop planned.length

/-- The inputs with the cut moved up by as many items as the plan holds. -/
def cutWithoutHeld (inputs : PlanInputs) (running pending : List Object) : PlanInputs :=
  let held := ((inputs.planQueue running pending).pending.filter Planned.held).length
  { inputs with through := inputs.through.map (fun through => through - (held : ℤ)) }

theorem unheld_take {items : List Object} {planned : List Planned} {count : ℕ}
    (length : planned.length = (items.take count).length)
    : unheld items planned = unheld (items.take count) planned := by
  have parts : items.zip planned
      = (items.take count).zip planned ++ (items.drop count).zip ([] : List Planned) := by
    rw [← List.zip_append length.symm, List.take_append_drop, List.append_nil]
  rw [unheld, parts, List.zip_nil_right, List.append_nil, unheld]

theorem take_reach_unheld {items kept : List Object} {planned held : ℕ} {through : Option ℤ}
    (walked : planned = (items.take (reach through 0 items)).length)
    (split : kept.length + held = planned)
    : (kept ++ items.drop planned).take (reach (through.map (fun through => through - (held : ℤ))) 0
        (kept ++ items.drop planned)) = kept := by
  rw [List.length_take] at walked
  cases through with
  | none =>
      simp only [reach, Option.elim_none, min_self] at walked
      simp [reach, walked]
  | some through =>
      simp only [reach, Option.elim_some, Option.map_some, Nat.cast_zero, sub_zero] at walked ⊢
      rcases le_total (through + 1).toNat items.length with within | beyond
      · rw [show (through - held + 1).toNat = kept.length by omega, List.take_left']
        rfl
      · rw [List.drop_of_length_le (by omega), List.append_nil, List.take_of_length_le (by omega)]

theorem finalState_withoutHeld (inputs : PlanInputs) (running pending : List Object)
    (counted : ∀ item ∈ pending, ∃ pages, asInt (item.get? "pages") = some pages ∧ 0 < pages)
    : (inputs.cutWithoutHeld running pending).finalState running
        (inputs.withoutHeld running pending)
      = { inputs.finalState running pending with
          planned := (inputs.finalState running pending).planned.filter
            (fun entry => !entry.held) } := by
  have walk := planItems_eq_foldl inputs (medianPages pending) 0 pending
    { lanes := (inputs.lanesFromRunning running).lanes }
  obtain ⟨added, entries, length, alike⟩ := foldl_unheld inputs (medianPages pending)
    (medianPages (inputs.withoutHeld running pending))
    (pending.take (reach inputs.through 0 pending))
    (fun item member => counted item (List.mem_of_mem_take member))
    { lanes := (inputs.lanesFromRunning running).lanes }
  have planned : (inputs.planQueue running pending).pending = added := by
    show (inputs.finalState running pending).planned = added
    rw [finalState, walk, entries, List.nil_append]
  have short : added.length ≤ pending.length := by
    rw [length]
    exact List.length_take_le' _ _
  have parts : added.length = (added.filter (fun entry => !entry.held)).length
      + (added.filter Planned.held).length := by
    simpa using List.length_eq_length_filter_add (l := added) (fun entry => !entry.held)
  have whole : inputs.withoutHeld running pending
      = (unheld (pending.take (reach inputs.through 0 pending)) added).map Prod.fst
        ++ pending.drop added.length := by
    rw [withoutHeld, planned, unheld_take length]
  have kept := congrArg List.length (unheld_entries length.le)
  have split : ((unheld (pending.take (reach inputs.through 0 pending)) added).map
      Prod.fst).length + (added.filter Planned.held).length = added.length := by
    rw [List.length_map] at kept ⊢
    rw [kept, ← parts]
  have reached := take_reach_unheld length split
  have shortWalk := planItems_eq_foldl (inputs.cutWithoutHeld running pending)
    (medianPages (inputs.withoutHeld running pending)) 0 (inputs.withoutHeld running pending)
    { lanes := (inputs.lanesFromRunning running).lanes }
  rw [show (inputs.cutWithoutHeld running pending).through = inputs.through.map (fun through =>
    through - ((added.filter Planned.held).length : ℤ)) by rw [cutWithoutHeld, planned],
    whole, reached, ← whole] at shortWalk
  have alike := alike []
  rw [List.nil_append, unheld_entries length.le] at alike
  rw [show (inputs.finalState running pending).planned = added from planned]
  refine shortWalk.trans (alike.trans ?_)
  rw [finalState, walk]

theorem withoutHeld_length (inputs : PlanInputs) (running pending : List Object)
    : (inputs.withoutHeld running pending).length
        + ((inputs.planQueue running pending).pending.filter Planned.held).length
      = pending.length := by
  have walk := planItems_eq_foldl inputs (medianPages pending) 0 pending
    { lanes := (inputs.lanesFromRunning running).lanes }
  obtain ⟨added, entries, length⟩ := foldl_planned inputs (medianPages pending)
    (pending.take (reach inputs.through 0 pending))
    { lanes := (inputs.lanesFromRunning running).lanes }
  have planned : (inputs.planQueue running pending).pending = added := by
    show (inputs.finalState running pending).planned = added
    rw [finalState, walk, entries, List.nil_append]
  rw [withoutHeld, planned]
  have short : added.length ≤ pending.length := by
    rw [length]
    exact List.length_take_le' _ _
  have kept := congrArg List.length (unheld_entries short)
  have parts : added.length = (added.filter (fun entry => !entry.held)).length
      + (added.filter Planned.held).length := by
    simpa using List.length_eq_length_filter_add (l := added) (fun entry => !entry.held)
  rw [List.length_map] at kept
  rw [List.length_append, List.length_map, List.length_drop, kept]
  omega

/-- Without the held items, and with the cut as far behind the last of the others, the plan has
the same entries for them, the same running cards and the same end.
-/
theorem planQueue_withoutHeld (inputs : PlanInputs) (running pending : List Object)
    (counted : ∀ item ∈ pending, ∃ pages, asInt (item.get? "pages") = some pages ∧ 0 < pages)
    : let plan := inputs.planQueue running pending
      let short := (inputs.cutWithoutHeld running pending).planQueue running
        (inputs.withoutHeld running pending)
      short.running = plan.running
        ∧ short.pending = plan.pending.filter (fun entry => !entry.held)
        ∧ short.doneIn = plan.doneIn ∧ short.doneAt = plan.doneAt := by
  intro plan short
  have final := inputs.finalState_withoutHeld running pending counted
  have truncated : (inputs.cutWithoutHeld running pending).through.any
        (fun through => through + 1 < ((inputs.withoutHeld running pending).length : ℤ))
      = inputs.through.any (fun through => through + 1 < (pending.length : ℤ)) := by
    have length := inputs.withoutHeld_length running pending
    cases cut : inputs.through with
    | none => simp [cutWithoutHeld, cut]
    | some through =>
        simp only [cutWithoutHeld, cut, Option.map_some, Option.any_some, decide_eq_decide]
        omega
  have doneIn : short.doneIn = plan.doneIn := by
    show (if _ then _ else _) = (if _ then _ else _)
    rw [truncated, final]
  refine ⟨rfl, congrArg PlanState.planned final, doneIn, ?_⟩
  show short.doneIn.map _ = plan.doneIn.map _
  rw [doneIn]
  rfl

/-- One machine that reads a page a second, and may not run the row `h`. -/
def oneMachine (through : Option ℤ) : PlanInputs where
  laneCount := 1
  laneMachines := some ["m"]
  pricing := {
    rateFor := fun _ _ _ _ => some ⟨1, "bench", 0, 0⟩
    startupFor := fun _ _ => ⟨0, "bench", false⟩
  }
  now := 0
  through := through
  refusalFor := some (fun generationId _ => if generationId = "h" then some "no" else none)
  holdFor := none
  texts := ⟨fun _ => "", fun _ => ""⟩

/-- A volume of four pages for a row. -/
def fourPages (row : String) : Object :=
  (Object.insert [] "generation_id" (.str row)).insert "pages" (intValue 4)

/-- A held item in front of another does not hold it up. -/
theorem heldInFront_kept
    : let plan := (oneMachine none).planQueue [] [fourPages "h", fourPages "a"]
      let short := ((oneMachine none).cutWithoutHeld [] [fourPages "h", fourPages "a"]).planQueue []
        ((oneMachine none).withoutHeld [] [fourPages "h", fourPages "a"])
      short.running = plan.running
        ∧ short.pending = plan.pending.filter (fun entry => !entry.held)
        ∧ short.doneIn = plan.doneIn ∧ short.doneAt = plan.doneAt :=
  planQueue_withoutHeld (oneMachine none) [] [fourPages "h", fourPages "a"] (by decide +kernel)

/-- With the cut left where it was, what comes behind a held item moves in front of the cut. -/
theorem heldInFront_moves_cut
    : (∀ item ∈ [fourPages "h", fourPages "a"],
        ∃ pages, asInt (item.get? "pages") = some pages ∧ 0 < pages)
      ∧ ((oneMachine (some 0)).planQueue [] [fourPages "h", fourPages "a"]).doneIn = none
      ∧ ((oneMachine (some 0)).planQueue []
          ((oneMachine (some 0)).withoutHeld [] [fourPages "h", fourPages "a"])).doneIn = some 4 :=
  ⟨by decide +kernel, by decide +kernel, by decide +kernel⟩

end PlanInputs

end MokuroBunko.Sched
