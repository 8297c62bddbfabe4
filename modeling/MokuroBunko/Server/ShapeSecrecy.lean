import MokuroBunko.Server.ShapeRelations

/-! Two raw statuses that differ in an administrator's fields only, and in how machines are
named, shape into one payload for visitors.
-/

namespace MokuroBunko.Server

open MokuroBunko.Lib MokuroBunko.Data MokuroBunko.Sched

variable {texts : TextTables} {relabel : Renaming}

-- Cards

theorem CardRelated.shown {left right : Object} (related : CardRelated relabel left right)
    (key : String) (visible : key ∉ ["machine", "processor"])
    : Object.get? left key = Object.get? right key := by
  have agreed := related key
  simp only [List.mem_cons, List.not_mem_nil, or_false, not_or] at visible
  simpa [visible] using agreed

theorem CardRelated.machineOf {left right : Object} (related : CardRelated relabel left right)
    : machineOf right = relabel.rename (machineOf left) := by
  have named : Renamed relabel (Object.get? left "machine") (Object.get? right "machine") :=
    related "machine"
  unfold Server.machineOf
  rw [namedText_renamed named]
  cases namedText left "machine" with
  | none => exact relabel.rename_local.symm
  | some name => rfl

theorem CardRelated.jobState {left right : Object} (related : CardRelated relabel left right)
    : jobState left = jobState right := by
  unfold Server.jobState
  rw [related.shown "status" (by decide), related.shown "session_ready" (by decide),
    related.shown "delivered" (by decide), related.shown "startup_seconds" (by decide)]

theorem CardRelated.shapeJob {left right : Object} (related : CardRelated relabel left right)
    {keys : List String} (visible : ∀ key ∈ keys, key ∉ ["machine", "processor"])
    : shapeJob left keys = shapeJob right keys := by
  unfold Server.shapeJob
  rw [pick_eq (fun key member => related.shown key (visible key member)), related.jobState,
    related.shown "pipeline" (by decide)]

theorem CardRelated.cardBefore {left right left' right' : Object}
    (related : CardRelated relabel left right) (related' : CardRelated relabel left' right')
    : cardBefore left left' ↔ cardBefore right right' := by
  simp only [Server.cardBefore, related.shown "done_pages" (by decide),
    related.shown "started_at" (by decide), related'.shown "done_pages" (by decide),
    related'.shown "started_at" (by decide)]

-- Machines

/-- Two machines grouped alike: their labels and held errors do not matter. -/
structure GroupedRelated (relabel : Renaming) (left right : Grouped) : Prop where
  active : List.Forall₂ (CardRelated relabel) left.active right.active
  next : List.Forall₂ (CardRelated relabel) left.next right.next
  slots : left.slots = right.slots
  held : left.held = right.held
  heldUntil : left.heldUntil = right.heldUntil
  configuring : Nested (BenchLineRelated relabel) (some left.configuring)
    (some right.configuring)
  standby : left.standby = right.standby
  cannotStart : List.Forall₂ CannotStartRelated
    (left.cannotStart.filterMap Json.asObject?) (right.cannotStart.filterMap Json.asObject?)
  state : left.state = right.state

/-- Machines filed under renamed names, grouped alike. -/
abbrev MachinesRelated (relabel : Renaming)
    : List (String × Grouped) → List (String × Grouped) → Prop :=
  Entries.Renamed relabel.rename (GroupedRelated relabel)

/-- A lane's machine renamed, its slot kept. -/
def Renaming.lane (relabel : Renaming) (lane : String × String) : String × String :=
  (relabel.rename lane.1, lane.2)

theorem Renaming.lane_injective (relabel : Renaming) : Function.Injective relabel.lane := by
  rintro ⟨machine, slot⟩ ⟨other, slot'⟩ same
  obtain ⟨machines, slots⟩ := Prod.mk.inj same
  exact Prod.ext (relabel.injective machines) slots

theorem groupedRelated_default : GroupedRelated relabel {} {} where
  active := .nil
  next := .nil
  slots := rfl
  held := rfl
  heldUntil := rfl
  configuring := .inr ⟨rfl, rfl⟩
  standby := rfl
  cannotStart := .nil
  state := rfl

theorem Nested.getD {object : ObjectRelation} {left right : Option Json}
    (related : Nested object left right)
    : Nested object (some (left.getD .null)) (some (right.getD .null)) := by
  rcases related with ⟨a, b, rfl, rfl, pair⟩ | ⟨rfl, absent⟩
  · exact .inl ⟨a, b, rfl, rfl, pair⟩
  · refine .inr ⟨rfl, ?_⟩
    cases left with
    | none => rfl
    | some value => exact absent

theorem Listed.items {object : ObjectRelation} {left right : Option Json}
    (related : Listed object left right)
    : List.Forall₂ object
        (((left.bind Json.asArray?).getD []).filterMap Json.asObject?)
        (((right.bind Json.asArray?).getD []).filterMap Json.asObject?) := by
  have read : ∀ value : Option Json,
      ((value.bind Json.asArray?).getD []).filterMap Json.asObject? = Server.objects value := by
    intro value
    rcases value with _ | value
    · rfl
    · cases value <;> rfl
  rw [read, read]
  exact related.objects

theorem groupedOfRow_related {left right : Object} (related : ConnectedRelated relabel left right)
    : GroupedRelated relabel (groupedOfRow left) (groupedOfRow right) := by
  have shown : ∀ key, key ∉ ["machine", "held_error", "label", "processor", "backend",
      "cannot_start", "configuring"] → Object.get? left key = Object.get? right key := by
    intro key visible
    have agreed := related key
    simp only [List.mem_cons, List.not_mem_nil, or_false, not_or] at visible
    simpa [visible] using agreed
  have line : Nested (BenchLineRelated relabel) (Object.get? left "configuring")
      (Object.get? right "configuring") := related "configuring"
  have cannot : Listed CannotStartRelated (Object.get? left "cannot_start")
      (Object.get? right "cannot_start") := related "cannot_start"
  refine ⟨.nil, .nil, ?_, ?_, ?_, line.getD, ?_, cannot.items, rfl⟩
  · simp only [groupedOfRow, shown "slots" (by decide)]
  · simp only [groupedOfRow, field, shown "held" (by decide)]
  · simp only [groupedOfRow, field, shown "held_until" (by decide)]
  · simp only [groupedOfRow, shown "standby" (by decide)]

theorem addConnected_related {machines others : List (String × Grouped)} {left right : Object}
    (related : MachinesRelated relabel machines others)
    (row : ConnectedRelated relabel left right)
    : MachinesRelated relabel (addConnected machines left) (addConnected others right) := by
  have named : Renamed relabel (Object.get? left "machine") (Object.get? right "machine") :=
    row "machine"
  unfold addConnected
  rw [namedText_renamed named]
  cases namedText left "machine" with
  | none => exact related
  | some machine =>
      have known := related.get? relabel.injective machine
      simp only [Option.map_some]
      revert known
      generalize Entries.get? machine machines = found
      generalize Entries.get? (relabel.rename machine) others = foundToo
      intro known
      cases known with
      | none => exact related.insert relabel.injective machine (groupedOfRow_related row)
      | some _ => exact related

theorem addJobMachine_related {machines others : List (String × Grouped)} {left right : Object}
    (related : MachinesRelated relabel machines others) (card : CardRelated relabel left right)
    : MachinesRelated relabel (addJobMachine machines left) (addJobMachine others right) := by
  have known := related.get? relabel.injective (machineOf left)
  have grouped : GroupedRelated relabel ((Entries.get? (machineOf left) machines).getD {})
      ((Entries.get? (relabel.rename (machineOf left)) others).getD {}) := by
    revert known
    generalize Entries.get? (machineOf left) machines = found
    generalize Entries.get? (relabel.rename (machineOf left)) others = foundToo
    intro known
    cases known with
    | none => exact groupedRelated_default
    | some pair => exact pair
  unfold addJobMachine
  rw [card.machineOf]
  exact related.insert relabel.injective (machineOf left)
    ⟨grouped.active, grouped.next, grouped.slots, grouped.held, grouped.heldUntil,
      grouped.configuring, grouped.standby, grouped.cannotStart, grouped.state⟩

theorem laneKey_renamed {left right : Object} (card : CardRelated relabel left right) (index : ℕ)
    : laneKey index right = relabel.lane (laneKey index left) := by
  unfold laneKey
  rw [card.machineOf, card.shown "slot" (by decide)]
  rfl

/-- Lanes of related cards under renamed machines. -/
abbrev LanesRelated (relabel : Renaming)
    : List ((String × String) × List Object) → List ((String × String) × List Object) → Prop :=
  Entries.Renamed relabel.lane (List.Forall₂ (CardRelated relabel))

theorem addToLane_related {lanes others : List ((String × String) × List Object)}
    {left right : Object × ℕ} (related : LanesRelated relabel lanes others)
    (card : CardRelated relabel left.1 right.1 ∧ left.2 = right.2)
    : LanesRelated relabel (addToLane lanes left) (addToLane others right) := by
  obtain ⟨card, place⟩ := card
  have known := related.get? relabel.lane_injective (laneKey left.2 left.1)
  unfold addToLane
  rw [← place, laneKey_renamed card]
  refine related.insert relabel.lane_injective _ (List.rel_append ?_ (.cons card .nil))
  revert known
  generalize Entries.get? (laneKey left.2 left.1) lanes = found
  generalize Entries.get? (relabel.lane (laneKey left.2 left.1)) others = foundToo
  intro known
  cases known with
  | none => exact .nil
  | some cards => exact cards

theorem placeLane_related {machines others : List (String × Grouped)}
    {left right : (String × String) × List Object}
    (related : MachinesRelated relabel machines others)
    (lane : right.1 = relabel.lane left.1 ∧ List.Forall₂ (CardRelated relabel) left.2 right.2)
    : MachinesRelated relabel (placeLane machines left) (placeLane others right) := by
  obtain ⟨key, cards⟩ := lane
  have machine : right.1.1 = relabel.rename left.1.1 := by rw [key]; rfl
  have sorted : List.Forall₂ (CardRelated relabel) (left.2.insertionSort cardBefore)
      (right.2.insertionSort cardBefore) :=
    insertionSort_related (fun _ _ _ _ pair pair' => pair.cardBefore pair') cards
  have known := related.get? relabel.injective left.1.1
  unfold placeLane
  rw [machine]
  revert known
  generalize Entries.get? left.1.1 machines = found
  generalize Entries.get? (relabel.rename left.1.1) others = foundToo
  intro known
  cases known with
  | none => exact related
  | some grouped =>
      exact related.insert relabel.injective left.1.1
        ⟨List.rel_append grouped.active (List.forall₂_take 1 sorted),
          List.rel_append grouped.next (List.forall₂_drop 1 sorted),
          grouped.slots, grouped.held, grouped.heldUntil, grouped.configuring,
          grouped.standby, grouped.cannotStart, grouped.state⟩

theorem Nested.isSome_eq {object : ObjectRelation} {left right : Json}
    (related : Nested object (some left) (some right))
    : left.asObject?.isSome = right.asObject?.isSome := by
  rcases related with ⟨a, b, same, same', _⟩ | ⟨same, _⟩
  · cases same
    cases same'
    rfl
  · cases same
    rfl

theorem finishGrouped_related {left right : Grouped} (related : GroupedRelated relabel left right)
    : GroupedRelated relabel (finishGrouped left) (finishGrouped right) := by
  have states : left.active.map jobState = right.active.map jobState :=
    map_eq_of_forall₂ (fun _ _ pair => pair.jobState) related.active
  refine ⟨related.active, related.next, ?_, related.held, related.heldUntil,
    related.configuring, related.standby, related.cannotStart, ?_⟩
  · simp only [finishGrouped, related.slots, related.active.length_eq]
  · simp only [finishGrouped, states, related.configuring.isSome_eq, related.held,
      related.standby]

theorem groupByMachine_related {jobs others connected connected' : List Object}
    (cards : List.Forall₂ (CardRelated relabel) jobs others)
    (rows : List.Forall₂ (ConnectedRelated relabel) connected connected')
    : MachinesRelated relabel (groupByMachine jobs connected)
        (groupByMachine others connected') := by
  have machines : MachinesRelated relabel
      (jobs.foldl addJobMachine (connected.foldl addConnected []))
      (others.foldl addJobMachine (connected'.foldl addConnected [])) :=
    foldl_related (fun _ _ _ _ => addJobMachine_related)
      (foldl_related (fun _ _ _ _ => addConnected_related) .nil rows) cards
  have lanes : LanesRelated relabel (jobs.zipIdx.foldl addToLane [])
      (others.zipIdx.foldl addToLane []) :=
    foldl_related (fun _ _ _ _ => addToLane_related) .nil (zipIdx_related cards 0)
  have placed := foldl_related (fun _ _ _ _ => placeLane_related) machines lanes
  exact List.forall₂_map_left_iff.mpr (List.forall₂_map_right_iff.mpr
    (placed.imp (fun _ _ pair => ⟨pair.1, finishGrouped_related pair.2⟩)))

-- Holds, pauses and returned volumes

theorem NamerRelated.nameField {namer other : Namer} (related : NamerRelated relabel namer other)
    {left right : Object} {key : String}
    (renamed : Renamed relabel (Object.get? left key) (Object.get? right key))
    : StepRelated relabel (namer.name (field left key)) (other.name (field right key)) := by
  refine related.name ?_
  simp only [field, asStr?_getD]
  exact renamed.asStr?

theorem hold_related {left right : Option Json} (related : Nested (HoldRelated relabel) left right)
    {namer other : Namer} (names : NamerRelated relabel namer other)
    : StepRelated relabel (hold left namer) (hold right other) := by
  rcases related with ⟨a, b, rfl, rfl, fields⟩ | ⟨rfl, absent⟩
  · have shown : ∀ key, key ≠ "last" → Object.get? a key = Object.get? b key := by
      intro key visible
      simpa [visible] using fields key
    have last : Nested _ (Object.get? a "last") (Object.get? b "last") := fields "last"
    simp only [hold, field, shown "reason" (by decide), shown "since" (by decide)]
    rcases last with ⟨last, last', found, found', pair⟩ | ⟨same, absent⟩
    · have time : Object.get? last "disconnected_at" = Object.get? last' "disconnected_at" :=
        pair "disconnected_at"
      obtain ⟨same, next⟩ := names.nameField (pair "name")
      simp only [field] at same next
      simp only [found, found', time, same]
      exact ⟨rfl, next⟩
    · rw [← same]
      cases value : Object.get? a "last" with
      | none => exact ⟨rfl, names⟩
      | some value' =>
          cases value' <;> first
            | exact ⟨rfl, names⟩
            | simp [value] at absent
  · cases left with
    | none => exact ⟨rfl, names⟩
    | some value =>
        cases value <;> first
          | exact ⟨rfl, names⟩
          | simp at absent

theorem configuring_related {left right : Grouped} (related : GroupedRelated relabel left right)
    : configuring left false = configuring right false := by
  unfold configuring
  rw [related.state]
  rcases related.configuring with ⟨a, b, found, found', fields, row⟩ | ⟨same, _⟩
  · have auto : Object.get? a "auto" = Object.get? b "auto" := fields "auto"
    have told : lineGeneration (Object.get? a "key") (field a "generation") false
        = lineGeneration (Object.get? b "key") (field b "generation") false := by
      rcases row with ⟨key, generation⟩ | ⟨draft, draft'⟩
      · rw [key, field, field, generation]
      · simp [lineGeneration, draft, draft']
    simp only [Option.some.inj found, Option.some.inj found', told, auto]
  · rw [Option.some.inj same]

theorem pausedProcessor_related {left right : Object} {key : String}
    (renamed : Renamed relabel (Object.get? left key) (Object.get? right key))
    {namer other : Namer} (names : NamerRelated relabel namer other)
    : StepRelated relabel (pausedProcessor (field left key) namer)
        (pausedProcessor (field right key) other) := by
  rcases renamed.field with ⟨name, found, found'⟩ | ⟨absent, same⟩
  · rw [found, found']
    by_cases own : name = "" ∨ name = LOCAL
    · rw [relabel.rename_own own]
      simp only [pausedProcessor, Json.asStr?_str, own, if_true]
      exact ⟨rfl, names⟩
    · have ownNot : ¬ (relabel.rename name = "" ∨ relabel.rename name = LOCAL) :=
        fun h => own (relabel.own_of_rename h)
      have text : (Json.str (relabel.rename name)).asStr?
          = (Json.str name).asStr?.map relabel.rename := rfl
      obtain ⟨given, next⟩ := names.name text
      simp only [pausedProcessor, Json.asStr?_str, own, ownNot, if_false, given]
      exact ⟨rfl, next⟩
  · rw [same]
    simp only [pausedProcessor, absent]
    exact ⟨rfl, names⟩

theorem pausedLine_related {left right : Object} (line : BenchLineRelated relabel left right)
    : pausedLine (field left "key") (field left "generation") false
      = pausedLine (field right "key") (field right "generation") false := by
  have shown : ∀ object, isDraft (Object.get? object "key") = true
      → isDraft (some (field object "key")) = true := by
    intro object draft
    unfold isDraft field at *
    rwa [Option.bind_some, asStr?_getD]
  rcases line.2 with ⟨key, generation⟩ | ⟨draft, draft'⟩
  · simp only [field, key, generation]
  · simp [pausedLine, shown _ draft, shown _ draft']

theorem paused_related {left right : Option Json}
    (related : Nested (BenchLineRelated relabel) left right) {namer other : Namer}
    (names : NamerRelated relabel namer other)
    : StepRelated relabel (paused left namer false) (paused right other false) := by
  rcases related with ⟨a, b, rfl, rfl, line⟩ | ⟨rfl, absent⟩
  · have queued : Object.get? a "queued" = Object.get? b "queued" := line.1 "queued"
    obtain ⟨machine, next⟩ := pausedProcessor_related (line.1 "processor") names
    refine ⟨?_, next⟩
    simp only [paused, machine, pausedLine_related line, field_eq queued]
  · cases left with
    | none => exact ⟨rfl, names⟩
    | some value =>
        cases value <;> first
          | exact ⟨rfl, names⟩
          | simp at absent

theorem returned_related {left right : Option Json}
    (related : Nested (ReturnedRelated relabel) left right) {namer other : Namer}
    (names : NamerRelated relabel namer other)
    : StepRelated relabel (returned left namer false) (returned right other false) := by
  rcases related with ⟨a, b, rfl, rfl, fields⟩ | ⟨rfl, absent⟩
  · have time : Object.get? a "at" = Object.get? b "at" := fields "at"
    have renamed : Renamed relabel (Object.get? a "machine") (Object.get? b "machine") :=
      fields "machine"
    obtain ⟨machine, next⟩ := names.nameField renamed
    refine ⟨?_, next⟩
    simp only [returned, machine, field_eq time]
    rfl
  · cases left with
    | none => exact ⟨rfl, names⟩
    | some value =>
        cases value <;> first
          | exact ⟨rfl, names⟩
          | simp at absent

-- Volumes and speeds

theorem PendingRelated.shown {left right : Object} (related : PendingRelated relabel left right)
    (key : String) (visible : key ≠ "returned")
    : Object.get? left key = Object.get? right key := by
  simpa [visible] using related key

theorem shapePending_related {left right : Object} (related : PendingRelated relabel left right)
    {keys : List String} (visible : ∀ key ∈ keys, key ≠ "returned") {namer other : Namer}
    (names : NamerRelated relabel namer other)
    : StepRelated relabel (shapePending false keys left namer)
        (shapePending false keys right other) := by
  have back : Nested (ReturnedRelated relabel) (Object.get? left "returned")
      (Object.get? right "returned") := related "returned"
  obtain ⟨same, next⟩ := returned_related back names
  refine ⟨?_, next⟩
  simp only [shapePending, same, pick_eq (fun key member => related.shown key (visible key member)),
    related.shown "attempts" (by decide)]

theorem shapeFailed_related {left right : Object} (related : FailedRelated texts left right)
    : shapeFailed texts false left = shapeFailed texts false right := by
  have reason : failureReason texts (field left "error") = failureReason texts (field right "error") :=
    related "error"
  have shown : ∀ key ∈ FAILED_KEYS, Object.get? left key = Object.get? right key := by
    intro key member
    have visible : key ∉ ["error", "log_file", "last_attempt_at"] := by
      revert key
      decide
    have agreed := related key
    simp only [List.mem_cons, List.not_mem_nil, or_false, not_or] at visible
    simpa [visible] using agreed
  simp only [shapeFailed, pick_eq shown, reason]
  rfl

theorem SpeedRelated.shown {left right : Object} (related : SpeedRelated relabel left right)
    (key : String) (visible : key ≠ "machines")
    : Object.get? left key = Object.get? right key := by
  simpa [visible] using related key

theorem shapeSpeed_related {left right : Object} (related : SpeedRelated relabel left right)
    : shapeSpeed left = shapeSpeed right := by
  have machines : Listed _ (Object.get? left "machines") (Object.get? right "machines") :=
    related "machines"
  have working : (objects (Object.get? left "machines")).countP
        (fun machine => truthy (Object.get? machine "working"))
      = (objects (Object.get? right "machines")).countP
        (fun machine => truthy (Object.get? machine "working")) := by
    refine countP_eq_of_forall₂ ?_ machines.objects
    intro a b pair
    have same : Object.get? a "working" = Object.get? b "working" := pair "working"
    rw [same]
  unfold shapeSpeed
  rw [related.shown "combined_pages_per_minute" (by decide),
    field_eq (related.shown "generation" (by decide)), working]

/-- A row on a machine, the machine renamed. -/
def Renaming.rate (relabel : Renaming) (rate : String × String) : String × String :=
  (rate.1, relabel.rename rate.2)

theorem Renaming.rate_injective (relabel : Renaming) : Function.Injective relabel.rate := by
  rintro ⟨generation, machine⟩ ⟨generation', other⟩ same
  obtain ⟨generations, machines⟩ := Prod.mk.inj same
  exact Prod.ext generations (relabel.injective machines)

theorem speedRates_related {speed others : List Object}
    (related : List.Forall₂ (SpeedRelated relabel) speed others)
    : Entries.Renamed relabel.rate Eq (speedRates texts speed) (speedRates texts others) := by
  refine foldl_related ?_ .nil related
  intro rates rates' entry entry' same entries
  have machines : Listed _ (Object.get? entry "machines") (Object.get? entry' "machines") :=
    entries "machines"
  rw [entries.shown "generation_id" (by decide)]
  refine foldl_related ?_ same machines.objects
  intro rates rates' machine machine' same fields
  have pages : Object.get? machine "pages_per_minute" = Object.get? machine' "pages_per_minute" :=
    fields "pages_per_minute"
  have name : Renamed relabel (Object.get? machine "machine") (Object.get? machine' "machine") :=
    fields "machine"
  have named : ((Object.get? machine' "machine").bind Json.asStr?).getD ""
      = relabel.rename (((Object.get? machine "machine").bind Json.asStr?).getD "") := by
    rw [name.asStr?]
    cases (Object.get? machine "machine").bind Json.asStr? with
    | none => exact relabel.rename_empty.symm
    | some _ => rfl
  rw [pages]
  cases (asFloat (Object.get? machine' "pages_per_minute")).filter (0 < ·) with
  | none => exact same
  | some rate =>
      simp only [named]
      exact same.insert relabel.rate_injective (_, _) rfl

-- The payload

theorem shapeCannotStart_related {left right : Object} (related : CannotStartRelated left right)
    : shapeCannotStart false left = shapeCannotStart false right := by
  have generation : Object.get? left "generation" = Object.get? right "generation" :=
    related "generation"
  have time : Object.get? left "until" = Object.get? right "until" := related "until"
  simp only [shapeCannotStart, field_eq generation, field_eq time]
  rfl

theorem machineEntry_related {left right : Grouped} (related : GroupedRelated relabel left right)
    (name : String) (jobs : List Json)
    : machineEntry name left jobs false = machineEntry name right jobs false := by
  have next : left.next.map (fun job => Json.obj (pick job NEXT_KEYS))
      = right.next.map (fun job => Json.obj (pick job NEXT_KEYS)) := by
    refine map_eq_of_forall₂ ?_ related.next
    intro a b pair
    rw [pick_eq (fun key member => pair.shown key (by revert key; decide))]
  simp only [machineEntry, related.state, related.slots, next, configuring_related related]

theorem shapeMachineMinimal_related {left right : String × Grouped}
    (renamed : right.1 = relabel.rename left.1) (related : GroupedRelated relabel left.2 right.2)
    {namer other : Namer} (names : NamerRelated relabel namer other)
    : StepRelated relabel (shapeMachineMinimal false left namer)
        (shapeMachineMinimal false right other) := by
  have text : (Json.str right.1).asStr? = (Json.str left.1).asStr?.map relabel.rename := by
    simp [renamed]
  obtain ⟨given, next⟩ := names.name text
  have jobs : left.2.active.map (fun job => Json.obj (shapeJob job MINIMAL_JOB_KEYS))
      = right.2.active.map (fun job => Json.obj (shapeJob job MINIMAL_JOB_KEYS)) := by
    refine map_eq_of_forall₂ ?_ related.active
    intro a b pair
    rw [pair.shapeJob (by decide)]
  refine ⟨?_, next⟩
  simp only [shapeMachineMinimal, given, jobs, machineEntry_related related]

theorem shapeActive_related {rates others : List ((String × String) × ℚ)}
    (speeds : Entries.Renamed relabel.rate Eq rates others) (detailed : Bool)
    {keys : List String} (visible : ∀ key ∈ keys, key ∉ ["machine", "processor"])
    (machine : String) {left right : Object} (related : CardRelated relabel left right)
    : shapeActive texts rates detailed keys machine left
      = shapeActive texts others detailed keys (relabel.rename machine) right := by
  have rate : ∀ generation, Entries.get? (generation, machine) rates
      = Entries.get? (generation, relabel.rename machine) others := by
    intro generation
    have found : Option.Rel Eq (Entries.get? (generation, machine) rates)
        (Entries.get? (generation, relabel.rename machine) others) :=
      speeds.get? relabel.rate_injective (generation, machine)
    revert found
    generalize Entries.get? (generation, machine) rates = rate
    generalize Entries.get? (generation, relabel.rename machine) others = rate'
    intro found
    cases found with
    | none => rfl
    | some same => rw [same]
  simp only [shapeActive, related.shapeJob visible, related.shown "generation_id" (by decide), rate]

theorem shapeMachine_related {rates others : List ((String × String) × ℚ)}
    (speeds : Entries.Renamed relabel.rate Eq rates others) (detailed : Bool)
    {keys : List String} (visible : ∀ key ∈ keys, key ∉ ["machine", "processor"])
    {left right : String × Grouped} (renamed : right.1 = relabel.rename left.1)
    (related : GroupedRelated relabel left.2 right.2)
    {namer other : Namer} (names : NamerRelated relabel namer other)
    : StepRelated relabel (shapeMachine texts rates detailed false keys left namer)
        (shapeMachine texts others detailed false keys right other) := by
  have text : (Json.str right.1).asStr? = (Json.str left.1).asStr?.map relabel.rename := by
    simp [renamed]
  obtain ⟨given, next⟩ := names.name text
  have jobs : left.2.active.map (shapeActive texts rates detailed keys left.1)
      = right.2.active.map (shapeActive texts others detailed keys right.1) := by
    rw [renamed]
    exact map_eq_of_forall₂ (fun _ _ pair => shapeActive_related speeds detailed visible _ pair)
      related.active
  have cannot : (left.2.cannotStart.filterMap Json.asObject?).map (shapeCannotStart false)
      = (right.2.cannotStart.filterMap Json.asObject?).map (shapeCannotStart false) :=
    map_eq_of_forall₂ (fun _ _ pair => shapeCannotStart_related pair) related.cannotStart
  refine ⟨?_, next⟩
  simp only [shapeMachine, given, jobs, cannot, machineEntry_related related, related.held,
    related.heldUntil]
  rfl

theorem StatusRelated.jobs {left right : Object} (related : StatusRelated texts relabel left right)
    : List.Forall₂ (CardRelated relabel) (statusJobs left) (statusJobs right) := by
  have jobs : Listed (CardRelated relabel) (Object.get? left "current_jobs")
      (Object.get? right "current_jobs") := related "current_jobs"
  have current : Nested (CardRelated relabel) (Object.get? left "current")
      (Object.get? right "current") := related "current"
  have single : List.Forall₂ (CardRelated relabel)
      (objects (some (.arr (Object.get? left "current").toList)))
      (objects (some (.arr (Object.get? right "current").toList))) := by
    rcases current with ⟨a, b, found, found', pair⟩ | ⟨same, absent⟩
    · rw [found, found']
      exact .cons pair .nil
    · rw [← same]
      cases value : Object.get? left "current" with
      | none => exact .nil
      | some value' =>
          have plain : value'.asObject? = none := by simpa [value] using absent
          simp [objects, plain]
  have listed := jobs.objects
  unfold statusJobs
  rcases jobs with ⟨xs, ys, found, found', _⟩ | ⟨same, absent⟩
  · rw [found, found'] at listed ⊢
    exact listed
  · rw [← same]
    cases value : Object.get? left "current_jobs" with
    | none => exact single
    | some value' =>
        cases value' <;> first
          | exact single
          | simp [value] at absent

theorem StatusRelated.shown {left right : Object}
    (related : StatusRelated texts relabel left right) (key : String)
    (visible : key ∈ ["queue_done_at", "pending_thumbnails", "skipped_missing_pages",
      "generations"])
    : Object.get? left key = Object.get? right key := by
  simp only [List.mem_cons, List.not_mem_nil, or_false] at visible
  rcases visible with rfl | rfl | rfl | rfl
  · exact related "queue_done_at"
  · exact related "pending_thumbnails"
  · exact related "skipped_missing_pages"
  · exact related "generations"

section Payload

variable {left right : Object} {namer other : Namer}

theorem StatusRelated.grouped (related : StatusRelated texts relabel left right)
    : MachinesRelated relabel
        (groupByMachine (statusJobs left) (objects (Object.get? left "connected_machines")))
        (groupByMachine (statusJobs right) (objects (Object.get? right "connected_machines"))) := by
  have rows : Listed (ConnectedRelated relabel) (Object.get? left "connected_machines")
      (Object.get? right "connected_machines") := related "connected_machines"
  exact groupByMachine_related related.jobs rows.objects

theorem StatusRelated.pending (related : StatusRelated texts relabel left right)
    : List.Forall₂ (PendingRelated relabel) (objects (Object.get? left "pending_ocr"))
        (objects (Object.get? right "pending_ocr")) := by
  have rows : Listed (PendingRelated relabel) (Object.get? left "pending_ocr")
      (Object.get? right "pending_ocr") := related "pending_ocr"
  exact rows.objects

theorem shapeCommon_related (related : StatusRelated texts relabel left right) (level : String)
    (names : NamerRelated relabel namer other)
    : StepRelated relabel (shapeCommon left level false namer)
        (shapeCommon right level false other) := by
  obtain ⟨held, next⟩ := hold_related (related "processing_hold") names
  obtain ⟨pause, last⟩ := paused_related (related "paused_for_benchmark") next
  refine ⟨?_, last⟩
  simp only [shapeCommon, held, pause, field_eq (related.shown "queue_done_at" (by decide)),
    related.pending.length_eq]
  rfl

theorem shapeMinimal_related (related : StatusRelated texts relabel left right)
    (names : NamerRelated relabel namer other)
    : StepRelated relabel (shapeMinimal left false namer) (shapeMinimal right false other) := by
  obtain ⟨machines, next⟩ := mapNamed_related
    (fun _ _ _ _ pair names => shapeMachineMinimal_related pair.1 pair.2 names)
    related.grouped names
  have pending : ((objects (Object.get? left "pending_ocr")).take MINIMAL_PENDING_LIMIT).map
        (fun item => Json.obj (pick item MINIMAL_PENDING_KEYS))
      = ((objects (Object.get? right "pending_ocr")).take MINIMAL_PENDING_LIMIT).map
        (fun item => Json.obj (pick item MINIMAL_PENDING_KEYS)) := by
    refine map_eq_of_forall₂ ?_ (List.forall₂_take _ related.pending)
    intro a b pair
    rw [pick_eq (fun key member => pair.shown key (by revert key; decide))]
  refine ⟨?_, next⟩
  simp only [shapeMinimal, machines, pending]

theorem shapeFull_related (related : StatusRelated texts relabel left right) (detailed : Bool)
    (names : NamerRelated relabel namer other)
    : StepRelated relabel (shapeFull texts left detailed false namer)
        (shapeFull texts right detailed false other) := by
  have speeds : Listed (SpeedRelated relabel) (Object.get? left "speed")
      (Object.get? right "speed") := related "speed"
  have failures : Listed (FailedRelated texts) (Object.get? left "failed")
      (Object.get? right "failed") := related "failed"
  have rates : Entries.Renamed relabel.rate Eq
      (if detailed then speedRates texts (objects (Object.get? left "speed")) else [])
      (if detailed then speedRates texts (objects (Object.get? right "speed")) else []) := by
    cases detailed with
    | false => exact .nil
    | true => exact speedRates_related speeds.objects
  have jobKeys : ∀ key ∈ MINIMAL_JOB_KEYS ++ NORMAL_JOB_EXTRA
      ++ (if detailed then DETAILED_JOB_EXTRA else []), key ∉ ["machine", "processor"] := by
    cases detailed <;> decide
  have pendingKeys : ∀ key ∈ PENDING_KEYS ++ (if detailed then DETAILED_PENDING_EXTRA else []),
      key ≠ "returned" := by
    cases detailed <;> decide
  obtain ⟨machines, next⟩ := mapNamed_related
    (fun _ _ _ _ pair names => shapeMachine_related rates detailed jobKeys pair.1 pair.2 names)
    related.grouped names
  have waiting : List.Forall₂ (PendingRelated relabel)
      ((objects (Object.get? left "pending_ocr")).take QUEUE_REPORT_LIMIT)
      ((objects (Object.get? right "pending_ocr")).take QUEUE_REPORT_LIMIT) :=
    List.forall₂_take _ related.pending
  have shown : ∀ (a b : Object) namer other, PendingRelated relabel a b →
      NamerRelated relabel namer other →
      StepRelated relabel (shapePending false _ a namer) (shapePending false _ b other) :=
    fun _ _ _ _ pair names => shapePending_related pair pendingKeys names
  obtain ⟨pending, last⟩ := mapNamed_related shown waiting next
  have failed : (objects (Object.get? left "failed")).map (shapeFailed texts false)
      = (objects (Object.get? right "failed")).map (shapeFailed texts false) :=
    map_eq_of_forall₂ (fun _ _ pair => shapeFailed_related pair) failures.objects
  have speed : (objects (Object.get? left "speed")).filterMap shapeSpeed
      = (objects (Object.get? right "speed")).filterMap shapeSpeed :=
    filterMap_eq_of_forall₂ (fun _ _ pair => shapeSpeed_related pair) speeds.objects
  refine ⟨?_, last⟩
  simp only [shapeFull, machines, pending, failed, speed,
    related.shown "pending_thumbnails" (by decide),
    related.shown "skipped_missing_pages" (by decide), related.shown "generations" (by decide)]
  rfl

end Payload

/-- Visitors see one payload of two statuses that differ only in what is an administrator's
and in the machines' names, at every level.
-/
theorem visitors_see_one_payload {left right : Object}
    (related : StatusRelated texts relabel left right) {names others : PublicNames}
    (aliases : NamesRelated relabel names others) (level : String)
    : (shapeStatus texts left level false names).1
      = (shapeStatus texts right level false others).1 := by
  have start : NamerRelated relabel (.visitor names) (.visitor others) :=
    ⟨names, others, rfl, rfl, aliases⟩
  obtain ⟨common, next⟩ := shapeCommon_related related (normalizeLevel level) start
  have minimal := (shapeMinimal_related related next).1
  have full := (shapeFull_related related (normalizeLevel level == "detailed") next).1
  simp only [shapeStatus, Bool.false_eq_true, if_false, common]
  by_cases least : normalizeLevel level = "minimal"
  · simp only [least, if_true]
    rw [least] at minimal
    rw [minimal]
  · simp only [least, if_false, full]

-- One report under two names

theorem Agree.cons {fields : String → FieldRelation} {left right : Object} {key : String}
    {value other : Json} (head : fields key (some value) (some other))
    (rest : Agree fields left right)
    : Agree fields ((key, value) :: left) ((key, other) :: right) := by
  intro asked
  by_cases same : key = asked
  · subst same
    simpa using head
  · simpa [same] using rest asked

theorem Listed.missing {object : ObjectRelation} : Listed object none none := .inr ⟨rfl, rfl⟩

theorem Nested.missing {object : ObjectRelation} : Nested object none none := .inr ⟨rfl, rfl⟩

theorem Agree.nil {fields : String → FieldRelation} (missing : ∀ key, fields key none none)
    : Agree fields [] [] :=
  missing

/-- A connected machine that is held. -/
def machineRow (machine error label : String) : Object := [
  ("machine", .str machine),
  ("held", .bool true),
  ("held_error", .str error),
  ("label", .str label)
]

/-- A volume that failed. -/
def failedRow (error logFile : String) : Object := [
  ("series", .str "Series"),
  ("volume", .str "Series/1"),
  ("error", .str error),
  ("log_file", .str logFile)
]

/-- An administrator's report on one machine that failed one volume. -/
def reportOf (machine error label logFile : String) : Object := [
  ("connected_machines", .arr [.obj (machineRow machine error label)]),
  ("failed", .arr [.obj (failedRow error logFile)]),
  ("backend", .str label)
]

/-- Text operations on ASCII. -/
def asciiTexts : TextTables where
  toLowercase := Text.asciiLower
  jsonText := fun value => value.asStr?.getD "null"

def exchange : Renaming where
  rename := Equiv.swap "tower" "laptop"
  injective := (Equiv.swap "tower" "laptop").injective
  rename_empty := by decide
  rename_local := by decide

theorem machineRow_related (error error' label label' : String)
    : ConnectedRelated exchange (machineRow "tower" error label)
        (machineRow "laptop" error' label') := by
  refine Agree.cons ?_ (Agree.cons ?_ (Agree.cons ?_ (Agree.cons ?_ (Agree.nil ?_))))
  · rfl
  · rfl
  · trivial
  · trivial
  · intro key
    split_ifs <;> first | exact Listed.missing | exact Nested.missing | exact trivial | rfl

theorem failedRow_related {error error' : String} (logFile logFile' : String)
    (reason : failureReason asciiTexts (.str error) = failureReason asciiTexts (.str error'))
    : FailedRelated asciiTexts (failedRow error logFile) (failedRow error' logFile') := by
  refine Agree.cons ?_ (Agree.cons ?_ (Agree.cons ?_ (Agree.cons ?_ (Agree.nil ?_))))
  · rfl
  · rfl
  · exact reason
  · trivial
  · intro key
    split_ifs <;> first | rfl | trivial

theorem reportOf_related {error error' : String} (label label' logFile logFile' : String)
    (reason : failureReason asciiTexts (.str error) = failureReason asciiTexts (.str error'))
    : StatusRelated asciiTexts exchange (reportOf "tower" error label logFile)
        (reportOf "laptop" error' label' logFile') := by
  refine Agree.cons ?_ (Agree.cons ?_ (Agree.cons ?_ (Agree.nil ?_)))
  · exact .inl ⟨_, _, rfl, rfl,
      .cons (.inl ⟨_, _, rfl, rfl, machineRow_related error error' label label'⟩) .nil⟩
  · exact .inl ⟨_, _, rfl, rfl,
      .cons (.inl ⟨_, _, rfl, rfl, failedRow_related logFile logFile' reason⟩) .nil⟩
  · trivial
  · intro key
    split_ifs <;> first | exact Listed.missing | exact Nested.missing | exact trivial | rfl

/-- The machine's name, its label, the error and the log file do not reach a visitor. -/
theorem reports_seen_alike
    : (shapeStatus asciiTexts (reportOf "tower" "CUDA out of memory" "RTX" "a.log") "detailed"
        false {}).1
      = (shapeStatus asciiTexts (reportOf "laptop" "HIP error: killed" "Radeon" "b.log")
        "detailed" false {}).1 :=
  visitors_see_one_payload (reportOf_related _ _ _ _ (by decide +kernel))
    ⟨fun _ => rfl, fun _ => by simp, rfl⟩ "detailed"

end MokuroBunko.Server
