import MokuroBunko.Sched.EarliestFinish
import Mathlib.Data.Prod.Lex

/-! The queue plan (`plan.rs`): a simulation of the lanes that turns rates, the running cards and
the queue into a finishing time for every item and for the whole queue.
-/

namespace MokuroBunko.Sched

open MokuroBunko.Lib MokuroBunko.Data

-- Inputs

/-- Texts the plan writes and no step of it reads. -/
structure PlanTexts where
  /-- `py_repr`. -/
  pyRepr : Json → String
  /-- `iso_utc`. -/
  isoUtc : ℚ → String

/-- `py_str`. -/
def PlanTexts.pyStr (texts : PlanTexts) (value : Option Json) : String :=
  match value with
  | none | some .null => "None"
  | some (.str text) => text
  | some other => texts.pyRepr other

/-- `round_to`. -/
def roundTo (value : ℚ) (digits : ℕ) : ℚ := roundTiesEven (value * 10 ^ digits) / 10 ^ digits

/-- `opt_float_value`. -/
def optFloatValue (value : Option ℚ) : Json :=
  value.elim .null (fun number => .num (.float number))

def intValue (value : ℤ) : Json := .num (.int value)

/-- `Pricing`: how fast a row reads, and starts, on a machine. -/
structure Pricing where
  rateFor : String → Option String → ℤ → ℚ → Option RateEstimate
  startupFor : String → Option String → StartupEstimate

/-- `Lane`: one session slot, what it serves and when it frees, if that is known. -/
structure Lane where
  generationId : Option String := none
  freeIn : Option ℚ := some 0
  used : Bool := false
  machine : Option String

/-- `PlanInputs`. -/
structure PlanInputs where
  laneCount : ℕ
  laneMachines : Option (List String)
  pricing : Pricing
  now : ℚ
  /-- Stop once the item at this index is priced. -/
  through : Option ℤ
  refusalFor : Option (String → String → Option String)
  holdFor : Option (String → Option String)
  texts : PlanTexts

-- Running cards

/-- The row of a card or item, as a text. -/
def rowText (texts : PlanTexts) (entry : Object) : String :=
  if truthy (entry.get? "generation_id") then texts.pyStr (entry.get? "generation_id") else ""

/-- `price_running`: the card with its ETA fields, and when its lane frees. -/
def priceRunning (texts : PlanTexts) (pricing : Pricing) (now : ℚ) (entry : Object)
    (machine : Option String) (offset : ℚ) (chargeStartup : Bool) : Object × Option ℚ :=
  let generationId := rowText texts entry
  let done := (asInt (entry.get? "done_pages")).getD 0
  let total := asInt (entry.get? "total_pages")
  let firstPageAt := (asFloat (entry.get? "first_page_at")).filter (· ≠ 0)
  let observedSeconds := firstPageAt.elim 0 (fun first => max 0 (now - first))
  let estimate := pricing.rateFor generationId machine done observedSeconds
  let entry := ((entry.insert "rate_pages_per_second"
      (optFloatValue (estimate.map (fun found => roundTo found.pagesPerSecond 4)))).insert
    "latency_seconds" (optFloatValue (estimate.map (fun found => roundTo found.latencySeconds 2)))).insert
    "rate_source" (optStrValue (estimate.map RateEstimate.source))
  let status := (entry.get? "status").bind Json.asStr?
  if status = some "error" ∨ status = some "done" then (entry.insert "eta_at" .null, some offset)
  else if done ≤ 0 then
    let startup := pricing.startupFor generationId machine
    let startedAt := (((asFloat (entry.get? "session_started_at")).filter (· ≠ 0)).or
      (asFloat (entry.get? "started_at"))).filter (· ≠ 0)
    let spent := startedAt.elim 0 (fun started => max 0 (now - started))
    let charge := chargeStartup && entry.get? "session_ready" ≠ some (.bool true)
    let left := if charge then max 0 (startup.seconds - spent) else 0
    let entry := ((entry.insert "status" (.str "starting")).insert "startup_seconds"
        (if 1 ≤ left then intValue (roundInt left) else .null)).insert
      "startup_rough" (.bool startup.rough)
    match estimate, total with
    | some estimate, some total =>
        let finish := offset + left + estimate.volumeSeconds total
        ((entry.insert "eta_seconds" (intValue (roundInt finish))).insert "eta_at"
          (.str (texts.isoUtc (now + finish))), some finish)
    | _, _ => ((entry.insert "eta_seconds" .null).insert "eta_at" .null, none)
  else if total.any (· ≤ done) then
    ((((entry.insert "status" (.str "finalizing")).insert "percent" (intValue 100)).insert
      "eta_seconds" (intValue 0)).insert "eta_at" (.str (texts.isoUtc (now + offset))), some offset)
  else
    let entry := entry.insert "status" (.str "running")
    match total, estimate with
    | some total, some estimate =>
        let finish := offset + estimate.secondsFor (total - done : ℤ)
        ((entry.insert "eta_seconds" (intValue (roundInt finish))).insert "eta_at"
          (.str (texts.isoUtc (now + finish))), some finish)
    | _, _ => ((entry.insert "eta_seconds" .null).insert "eta_at" .null, none)

/-- `no_prediction`: no ETA, and why. -/
def noPrediction (entry : Object) (reason : String) : Object :=
  let entry := ((entry.insert "eta_seconds" .null).insert "eta_at" .null).insert "rate_source" .null
  let entry :=
    if (entry.get? "latency_seconds").isSome then entry else entry.insert "latency_seconds" .null
  entry.insert "reason" (.str reason)

/-- `SlotKey`: a running card's lane group. -/
inductive SlotKey where
  | int (slot : ℤ)
  | job (name : String)
deriving DecidableEq

/-- A number padded with zeros to nine characters, its sign among them. -/
def paddedSlot (slot : ℤ) : String :=
  if 0 ≤ slot then paddedDigits 9 slot.toNat else "-" ++ paddedDigits 8 slot.natAbs

def SlotKey.sortKey : SlotKey → ℕ ×ₗ String
  | .int slot => toLex (0, paddedSlot slot)
  | .job name => toLex (1, name)

def slotKey (index : ℕ) (entry : Object) : SlotKey :=
  match Object.get? entry "slot" with
  | some (.num (.int slot)) => .int (min i64Max slot)
  | some (.bool flag) => .int (if flag then 1 else 0)
  | _ => .job ("job-" ++ toString index)

/-- The cards of each slot, by their indices, in the order of the slots. -/
def slotGroups (running : List Object) : List (List ℕ) :=
  let keyed := running.zipIdx.map (fun card => (slotKey card.2 card.1, card.2))
  let order := ((keyed.map Prod.fst).eraseDups).insertionSort
    (fun first second => first.sortKey ≤ second.sortKey)
  order.map (fun key => (keyed.filter (fun card => card.1 = key)).map Prod.snd)

/-- `card_row`: the row of a card that names one, a name no row has for what is no text. -/
def cardRow (entry : Object) : Option String :=
  let value := entry.get? "generation_id"
  if truthy value then some ((value.bind Json.asStr?).getD "\x00non-string") else none

/-- `free_lane`: a lane not taken, of the wanted machine when there is one. -/
def freeLane (lanes : List Lane) (taken : List ℕ) (machine : Option String) : Option ℕ :=
  let free := (List.range lanes.length).filter (fun place => place ∉ taken)
  (machine.bind (fun wanted => free.find? (fun place =>
    (lanes[place]?.bind Lane.machine) = some wanted))).or free.head?

/-- What the cards of a slot make of their lane: when it frees, if that is known, and its row. -/
structure Chain where
  cursor : ℚ := 0
  known : Bool := true
  generationId : Option String := none
  /-- The cards with their ETA fields and when each finishes, by index. -/
  priced : List (ℕ × Object × Option ℚ) := []

/-- One card of a slot, behind those before it. -/
def Chain.add (texts : PlanTexts) (pricing : Pricing) (now : ℚ) (machine : Option String)
    (chain : Chain) (card : ℕ × Object) : Chain :=
  let chain := { chain with generationId := (cardRow card.2).or chain.generationId }
  if !chain.known then
    { chain with priced := chain.priced ++
        [(card.1, noPrediction card.2 "waiting behind a volume that cannot be timed", none)] }
  else
    let (entry, finish) := priceRunning texts pricing now card.2 machine chain.cursor
      chain.priced.isEmpty
    { chain with
      cursor := finish.getD chain.cursor
      known := finish.isSome
      priced := chain.priced ++ [(card.1, entry, finish)] }

/-- The lanes while the running cards are placed on them. -/
structure Placing where
  lanes : List Lane
  taken : List ℕ := []
  priced : List (ℕ × Object × Option ℚ) := []

namespace PlanInputs

variable (inputs : PlanInputs)

/-- The machines of the lanes, unless the plan names none. -/
def machines : Option (List String) := inputs.laneMachines.filter (fun names => !names.isEmpty)

/-- The lanes before anything runs. -/
def idleLanes : List Lane :=
  match inputs.machines with
  | some names => names.map (fun name => { machine := some name })
  | none => List.replicate (max 1 inputs.laneCount) { machine := none }

/-- The cards of one slot on a lane of their own. -/
def placeSlot (running : List Object) (placing : Placing) (jobs : List ℕ) : Placing :=
  let cards := jobs.filterMap (fun index => running[index]?.map (fun card => (index, card)))
  let wanted := cards.findSome? (fun card => (card.2.get? "machine").bind Json.asStr?)
  let named := inputs.machines.isSome
  let (lanes, place) :=
    match freeLane placing.lanes placing.taken wanted with
    | some place => (placing.lanes, place)
    | none =>
        (placing.lanes ++ [({ machine := if named then wanted else none } : Lane)],
          placing.lanes.length)
  let machine :=
    if named then (wanted.filter (· ≠ "")).or (lanes[place]?.bind Lane.machine) else none
  let chain := cards.foldl (Chain.add inputs.texts inputs.pricing inputs.now machine) {}
  {
    lanes := lanes.modify place (fun lane => { lane with
      generationId := chain.generationId
      used := true
      freeIn := if chain.known then some chain.cursor else none
    })
    taken := place :: placing.taken
    priced := placing.priced ++ chain.priced
  }

/-- `lanes_from_running`: the running cards as occupied lanes, each card priced. -/
def lanesFromRunning (running : List Object) : Placing :=
  (slotGroups running).foldl (inputs.placeSlot running) { lanes := inputs.idleLanes }

end PlanInputs

/-- The cards in their own order, each as it was priced. -/
def Placing.cards (placing : Placing) (running : List Object) : List (Object × Option ℚ) :=
  running.zipIdx.map (fun card => ((placing.priced.find? (fun entry => entry.1 = card.2)).map
    Prod.snd).getD (card.1, none))

-- Pending items

/-- `median_pages`. -/
def medianPages (pending : List Object) : Option ℤ :=
  medianInt ((pending.filterMap (fun item => asInt (item.get? "pages"))).filter (0 < ·))

/-- The lane, start and finish of an item that was planned. -/
structure Booking where
  lane : ℕ
  start : ℚ
  finish : ℚ
deriving DecidableEq

/-- An item of the plan. The booking stays with the planner. -/
structure Planned where
  entry : Object
  booking : Option Booking
  held : Bool
deriving DecidableEq

/-- The planner's lanes, what it has planned and what blocks the rest. -/
structure PlanState where
  lanes : List Lane
  planned : List Planned := []
  blockedBy : Option String := none

/-- When a lane would start an item and finish it. -/
def laneTimes (pricing : Pricing) (lane : Lane) (free : ℚ) (generationId : String)
    (estimate : RateEstimate) (pages : ℤ) : ℚ × ℚ :=
  let start :=
    if lane.generationId = some generationId then free
    else free + (pricing.startupFor generationId lane.machine).seconds
  (start, start + estimate.volumeSeconds pages)

/-- The loop of `earliest_finish_lane`, with the best lane so far. -/
def earliestLane (pricing : Pricing) (lanes : List Lane) (generationId : String) (pages : ℤ)
    : List ℕ → Option (ℕ × ℚ) → Option ℕ
  | [], best => best.map Prod.fst
  | place :: rest, best => do
      let lane ← lanes[place]?
      let free ← lane.freeIn
      let estimate ← pricing.rateFor generationId lane.machine 0 0
      let finish := (laneTimes pricing lane free generationId estimate pages).2
      earliestLane pricing lanes generationId pages rest
        (if best.all (fun best => finish < best.2) then some (place, finish) else best)

/-- `earliest_finish_lane`: the open lane that finishes the item first, if that can be said. -/
def earliestFinishLane (pricing : Pricing) (lanes : List Lane) (openLanes : List ℕ)
    (generationId : String) (pages : Option ℤ) : Option ℕ := do
  let pages ← pages
  earliestLane pricing lanes generationId pages openLanes none

/-- Before another free time; one that is not known is after all others. -/
def sooner : Option ℚ → Option ℚ → Bool
  | some first, some second => first < second
  | some _, none => true
  | none, _ => false

/-- The open lane that frees first. -/
def firstFree (lanes : List Lane) (first : ℕ) (others : List ℕ) : ℕ :=
  let free := fun place => lanes[place]?.bind Lane.freeIn
  others.foldl (fun best place => if sooner (free place) (free best) then place else best) first

namespace PlanInputs

variable (inputs : PlanInputs)

/-- The lanes that may take the row. -/
def openLanes (lanes : List Lane) (generationId : String) : List ℕ :=
  (List.range lanes.length).filter (fun place =>
    match inputs.refusalFor, lanes[place]?.bind Lane.machine with
    | some refusal, some machine => (refusal generationId machine).isNone
    | _, _ => true)

/-- The name the plan calls an item's row by. -/
def rowName (entry : Object) : String :=
  if truthy (entry.get? "generation") then inputs.texts.pyStr (entry.get? "generation")
  else if rowText inputs.texts entry ≠ "" then rowText inputs.texts entry
  else "that generation"

/-- Why a row that no lane may take is held. -/
def holdReason (generationId name : String) : String :=
  ((inputs.holdFor.bind (· generationId)).filter (· ≠ "")).getD
    ("no connected machine can run " ++ name)

/-- An item's page count, the median of the queue when it has none. -/
def pagesOr (median : Option ℤ) (item : Object) : Option ℤ × Bool :=
  match (asInt (item.get? "pages")).filter (0 < ·) with
  | some pages => (some pages, false)
  | none => (median, true)

/-- The item that no step can time, and everything behind it. -/
def block (state : PlanState) (entry : Object) (reason : String) : PlanState := { state with
  planned := state.planned ++ [⟨noPrediction entry reason, none, false⟩]
  blockedBy := some reason
}

/-- The fields of an item that was planned to finish then. -/
def timed (entry : Object) (estimate : RateEstimate) (finish : ℚ) : Object :=
  ((((entry.insert "eta_seconds" (intValue (roundInt finish))).insert "eta_at"
      (.str (inputs.texts.isoUtc (inputs.now + finish)))).insert
    "rate_source" (.str estimate.source)).insert
    "latency_seconds" (.num (.float (roundTo estimate.latencySeconds 2)))).insert "reason" .null

/-- One item of the queue. -/
def planItem (median : Option ℤ) (state : PlanState) (item : Object) : PlanState :=
  let generationId := rowText inputs.texts item
  let name := inputs.rowName item
  let (pages, rough) := pagesOr median item
  let entry := (item.insert "pages" (pages.elim .null intValue)).insert "rough" (.bool rough)
  match state.blockedBy with
  | some blocked => { state with
      planned := state.planned ++ [⟨noPrediction entry
        ("waiting behind a volume that cannot be timed: " ++ blocked), none, false⟩]
    }
  | none =>
      match inputs.openLanes state.lanes generationId with
      | [] => { state with
          planned := state.planned ++ [⟨(noPrediction entry
            (inputs.holdReason generationId name)).insert "held" (.bool true), none, true⟩]
        }
      | first :: others =>
          let place := (earliestFinishLane inputs.pricing state.lanes (first :: others)
            generationId pages).getD (firstFree state.lanes first others)
          let lane := state.lanes.getD place { machine := none }
          match inputs.pricing.rateFor generationId lane.machine 0 0 with
          | none => block state entry
              ("nothing has measured how fast " ++ name ++ " reads a page yet")
          | some estimate =>
              match pages with
              | none => block state entry "no volume in the queue has a known page count"
              | some pages =>
                  match lane.freeIn with
                  | none => block state entry
                      "a volume already running has not said how long it is yet"
                  | some free =>
                      let (start, finish) :=
                        laneTimes inputs.pricing lane free generationId estimate pages
                      { state with
                        lanes := state.lanes.set place { lane with
                          generationId := some generationId
                          freeIn := some finish
                          used := true
                        }
                        planned := state.planned ++
                          [⟨inputs.timed entry estimate finish, some ⟨place, start, finish⟩, false⟩]
                      }

/-- The loop over the queue, from an index on. -/
def planItems (median : Option ℤ) : ℕ → List Object → PlanState → PlanState
  | _, [], state => state
  | index, item :: rest, state =>
      if inputs.through.any (· < (index : ℤ)) then state
      else planItems median (index + 1) rest (inputs.planItem median state item)

end PlanInputs

/-- `QueuePlan`, with when each card and each item finishes. -/
structure QueuePlan where
  running : List (Object × Option ℚ)
  pending : List Planned
  doneIn : Option ℚ
  doneAt : Option String

namespace PlanInputs

variable (inputs : PlanInputs)

/-- The planner's lanes once the queue is walked. -/
def finalState (running pending : List Object) : PlanState :=
  inputs.planItems (medianPages pending) 0 pending
    { lanes := (inputs.lanesFromRunning running).lanes }

/-- When the last of the used lanes frees, if all are known and there is one. -/
def lastFree (lanes : List Lane) : Option ℚ := do
  let finished ← (lanes.filter Lane.used).mapM Lane.freeIn
  match finished with
  | [] => none
  | first :: others => some (others.foldl max first)

/-- `plan_queue`. -/
def planQueue (running pending : List Object) : QueuePlan :=
  let state := inputs.finalState running pending
  let truncated := inputs.through.any (fun through => through + 1 < (pending.length : ℤ))
  let doneIn :=
    if truncated || state.blockedBy.isSome then none else lastFree state.lanes
  {
    running := (inputs.lanesFromRunning running).cards running
    pending := state.planned
    doneIn
    doneAt := doneIn.map (fun doneIn => inputs.texts.isoUtc (inputs.now + doneIn))
  }

end PlanInputs

end MokuroBunko.Sched
