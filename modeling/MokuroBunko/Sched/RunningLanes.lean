import MokuroBunko.Sched.PlanSteps

/-! What the running cards make of the lanes: a lane frees when its last card ends, and not
before any other of them.
-/

namespace MokuroBunko.Sched

open MokuroBunko.Lib MokuroBunko.Data

-- Times

/-- Not before another free time, where one that is not known is after all others. -/
def NoSooner (before after : Option ℚ) : Prop := ∀ late ∈ after, ∃ early ∈ before, early ≤ late

theorem NoSooner.refl (free : Option ℚ) : NoSooner free free :=
  fun late known => ⟨late, known, le_rfl⟩

theorem NoSooner.trans {first second third : Option ℚ} (left : NoSooner first second)
    (right : NoSooner second third)
    : NoSooner first third := by
  intro late known
  obtain ⟨middle, between, le⟩ := right late known
  obtain ⟨early, here, ge⟩ := left middle between
  exact ⟨early, here, ge.trans le⟩

/-- Every lane is still there and frees no sooner than before. -/
def LanesLater (before after : List Lane) : Prop :=
  ∀ (place : ℕ) (lane : Lane), before[place]? = some lane →
    ∃ later, after[place]? = some later ∧ NoSooner lane.freeIn later.freeIn

theorem LanesLater.refl (lanes : List Lane) : LanesLater lanes lanes :=
  fun _ lane there => ⟨lane, there, .refl _⟩

theorem LanesLater.trans {first second third : List Lane} (left : LanesLater first second)
    (right : LanesLater second third)
    : LanesLater first third := by
  intro place lane there
  obtain ⟨middle, between, early⟩ := left place lane there
  obtain ⟨later, here, late⟩ := right place middle between
  exact ⟨later, here, early.trans late⟩

/-- Estimates are usable and no startup takes less than no time. -/
structure Pricing.Usable (pricing : Pricing) : Prop where
  rate : ∀ generationId machine pages seconds,
    ∀ estimate ∈ pricing.rateFor generationId machine pages seconds, estimate.Usable
  startup : ∀ generationId machine, 0 ≤ (pricing.startupFor generationId machine).seconds

/-- The entry reports an ETA. -/
structure Reports (entry : Object) (seconds : ℤ) : Prop where
  seconds : entry.get? "eta_seconds" = some (intValue seconds)
  instant : entry.get? "eta_at" ≠ some .null

theorem NoEta.not_reports {entry : Object} (noEta : NoEta entry) (seconds : ℤ)
    : ¬Reports entry seconds :=
  fun reports => reports.instant noEta.instant

theorem Reports.eq {entry : Object} {seconds written : ℤ} (reports : Reports entry seconds)
    (found : entry.get? "eta_seconds" = some (intValue written))
    : seconds = written := by
  have same := Option.some.inj (found.symm.trans reports.seconds)
  simp only [intValue, Json.num.injEq, Number.int.injEq] at same
  exact same.symm

-- One card

/-- A priced card ends no sooner than its lane was free for it, and reports no more than that. -/
structure PricedFrom (offset : ℚ) (card : Object × Option ℚ) : Prop where
  later : ∀ finish ∈ card.2, offset ≤ finish
  eta : ∀ seconds, Reports card.1 seconds → ∃ finish ∈ card.2, seconds ≤ roundInt finish

/-- The pages of a card are not less than none. -/
def NoNegativeTotal (entry : Object) : Prop :=
  ∀ total ∈ asInt (entry.get? "total_pages"), 0 ≤ total

theorem pricedFrom_none {offset : ℚ} {entry : Object} (noEta : NoEta entry)
    : PricedFrom offset (entry, none) :=
  ⟨nofun, fun seconds reports => absurd reports (noEta.not_reports seconds)⟩

theorem pricedFrom_some {offset finish : ℚ} {entry : Object} (later : offset ≤ finish)
    (written : entry.get? "eta_seconds" = some (intValue (roundInt finish)))
    : PricedFrom offset (entry, some finish) := by
  constructor
  · rintro _ ⟨⟩
    exact later
  · intro seconds reports
    exact ⟨finish, rfl, (reports.eq written).le⟩

theorem priceRunning_priced (texts : PlanTexts) {pricing : Pricing} (usable : pricing.Usable)
    (now : ℚ) {entry : Object} (counted : NoNegativeTotal entry) (machine : Option String)
    {offset : ℚ} (nonneg : 0 ≤ offset) (chargeStartup : Bool)
    : PricedFrom offset (priceRunning texts pricing now entry machine offset chargeStartup) := by
  unfold priceRunning
  extract_lets generationId done total firstPageAt observedSeconds estimate priced status startup
    startedAt spent charge left starting running
  have usable : ∀ found ∈ estimate, found.Usable := usable.rate _ _ _ _
  have counted : ∀ count ∈ total, 0 ≤ count := counted
  have left_nonneg : 0 ≤ left := by
    show 0 ≤ if charge then _ else _
    split_ifs
    · exact le_max_left _ _
    · exact le_rfl
  split_ifs with ended started finished
  · constructor
    · rintro _ ⟨⟩
      exact le_rfl
    · intro seconds reports
      exact absurd (by simp) reports.instant
  · cases rated : estimate with
    | none => exact pricedFrom_none ⟨by simp, by simp⟩
    | some estimate =>
        cases pages : total with
        | none => exact pricedFrom_none ⟨by simp, by simp⟩
        | some total =>
            have volume := (usable estimate rated).volumeSeconds_nonneg
              (Int.cast_nonneg (counted total pages))
            exact pricedFrom_some (by linarith) (by simp)
  · constructor
    · rintro _ ⟨⟩
      exact le_rfl
    · intro seconds reports
      have none : seconds = 0 := reports.eq (by simp)
      exact ⟨offset, rfl, none ▸ roundInt_nonneg nonneg⟩
  · cases pages : total with
    | none => exact pricedFrom_none ⟨by simp, by simp⟩
    | some total =>
        cases rated : estimate with
        | none => exact pricedFrom_none ⟨by simp, by simp⟩
        | some estimate =>
            have more : (0 : ℚ) ≤ (total - done : ℤ) := by
              rw [pages, Option.any_some, decide_eq_true_eq] at finished
              exact_mod_cast (by omega : 0 ≤ total - done)
            have rest : 0 ≤ estimate.secondsFor (total - done : ℤ) :=
              div_nonneg more (usable estimate rated).rate.le
            exact pricedFrom_some (by linarith) (by simp)

-- The cards of a slot

/-- A lane that was known to free ends with the last of its cards. -/
structure Chain.Sound (chain : Chain) : Prop where
  cursor : 0 ≤ chain.cursor
  within : chain.known = true → ∀ card ∈ chain.priced, ∃ finish ∈ card.2.2, finish ≤ chain.cursor
  last : chain.known = true → chain.priced ≠ [] →
    ∃ card ∈ chain.priced, card.2.2 = some chain.cursor
  eta : ∀ card ∈ chain.priced, ∀ seconds, Reports card.2.1 seconds →
    ∃ finish ∈ card.2.2, seconds ≤ roundInt finish

theorem Chain.sound_empty : ({} : Chain).Sound :=
  ⟨le_rfl, nofun, fun _ some => absurd rfl some, nofun⟩

section

variable {texts : PlanTexts} {pricing : Pricing} {now : ℚ} {machine : Option String}

theorem Chain.Sound.add (usable : pricing.Usable) {chain : Chain} (sound : chain.Sound)
    {card : ℕ × Object} (counted : NoNegativeTotal card.2)
    : (chain.add texts pricing now machine card).Sound := by
  unfold Chain.add
  dsimp only
  cases known : chain.known with
  | false =>
      refine ⟨sound.cursor, nofun, nofun, ?_⟩
      intro other member seconds reports
      rcases List.mem_append.mp member with before | same
      · exact sound.eta other before seconds reports
      · obtain rfl := List.mem_singleton.mp same
        exact absurd reports ((noEta_noPrediction _ _).not_reports seconds)
  | true =>
      have priced := priceRunning_priced texts usable now counted machine sound.cursor
        chain.priced.isEmpty
      simp only [Bool.not_true, Bool.false_eq_true, if_false]
      generalize priceRunning texts pricing now card.2 machine chain.cursor
        chain.priced.isEmpty = result at priced ⊢
      obtain ⟨entry, finish⟩ := result
      have eta : ∀ other ∈ chain.priced ++ [(card.1, entry, finish)], ∀ seconds,
          Reports other.2.1 seconds → ∃ finish ∈ other.2.2, seconds ≤ roundInt finish := by
        intro other member
        rcases List.mem_append.mp member with before | same
        · exact sound.eta other before
        · obtain rfl := List.mem_singleton.mp same
          exact priced.eta
      cases finish with
      | none => exact ⟨sound.cursor, nofun, nofun, eta⟩
      | some finish =>
          have later : chain.cursor ≤ finish := priced.later finish rfl
          refine ⟨sound.cursor.trans later, fun _ other member => ?_, fun _ _ =>
            ⟨_, List.mem_append_right _ (List.mem_singleton_self _), rfl⟩, eta⟩
          rcases List.mem_append.mp member with before | same
          · obtain ⟨early, here, le⟩ := sound.within known other before
            exact ⟨early, here, le.trans later⟩
          · obtain rfl := List.mem_singleton.mp same
            exact ⟨finish, rfl, le_rfl⟩

theorem Chain.add_indices (chain : Chain) (card : ℕ × Object)
    : (chain.add texts pricing now machine card).priced.map Prod.fst
      = chain.priced.map Prod.fst ++ [card.1] := by
  unfold Chain.add
  dsimp only
  split_ifs <;> simp

theorem Chain.Sound.foldl (usable : pricing.Usable) {chain : Chain} (sound : chain.Sound)
    (cards : List (ℕ × Object)) (counted : ∀ card ∈ cards, NoNegativeTotal card.2)
    : (cards.foldl (Chain.add texts pricing now machine) chain).Sound := by
  induction cards generalizing chain with
  | nil => exact sound
  | cons card rest ih =>
      exact ih (sound.add usable (counted card List.mem_cons_self))
        (fun later member => counted later (List.mem_cons_of_mem _ member))

theorem Chain.foldl_indices (chain : Chain) (cards : List (ℕ × Object))
    : (cards.foldl (Chain.add texts pricing now machine) chain).priced.map Prod.fst
      = chain.priced.map Prod.fst ++ cards.map Prod.fst := by
  induction cards generalizing chain with
  | nil => simp
  | cons card rest ih => rw [List.foldl_cons, ih, Chain.add_indices]; simp

end

-- The slots

theorem nodup_eraseDups {α : Type} [DecidableEq α] (values : List α)
    : values.eraseDups.Nodup := by
  induction length : values.length using Nat.strong_induction_on generalizing values with
  | h count ih =>
      subst length
      cases values with
      | nil => exact List.nodup_nil
      | cons first rest =>
          rw [List.eraseDups_cons]
          refine List.nodup_cons.mpr ⟨by simp [List.mem_eraseDups], ih _ ?_ _ rfl⟩
          exact Nat.lt_succ_of_le (List.length_filter_le _ _)

theorem mem_slotGroups {running : List Object} {jobs : List ℕ}
    : jobs ∈ slotGroups running ↔ ∃ key, jobs = ((running.zipIdx.map (fun card =>
          (slotKey card.2 card.1, card.2))).filter (fun card => card.1 = key)).map Prod.snd
        ∧ ∃ index entry, running[index]? = some entry ∧ slotKey index entry = key := by
  simp only [slotGroups, List.mem_map, (List.perm_insertionSort _ _).mem_iff, List.mem_eraseDups,
    Prod.exists, List.mem_zipIdx_iff_getElem?]
  constructor
  · rintro ⟨key, ⟨_, _, ⟨entry, index, there, ⟨⟩⟩, rfl⟩, rfl⟩
    exact ⟨_, rfl, _, entry, there, rfl⟩
  · rintro ⟨key, rfl, index, entry, there, rfl⟩
    exact ⟨_, ⟨_, _, ⟨entry, index, there, rfl⟩, rfl⟩, rfl⟩

theorem mem_slot {running : List Object} {key : SlotKey} {index : ℕ}
    : index ∈ ((running.zipIdx.map (fun card =>
          (slotKey card.2 card.1, card.2))).filter (fun card => card.1 = key)).map Prod.snd
        ↔ ∃ entry, running[index]? = some entry ∧ slotKey index entry = key := by
  simp only [List.mem_map, List.mem_filter, decide_eq_true_eq, Prod.exists,
    List.mem_zipIdx_iff_getElem?]
  constructor
  · rintro ⟨_, _, ⟨⟨entry, _, there, ⟨⟩⟩, same⟩, rfl⟩
    exact ⟨entry, there, same⟩
  · rintro ⟨entry, there, same⟩
    exact ⟨_, _, ⟨⟨entry, index, there, rfl⟩, same⟩, rfl⟩

theorem slotGroups_ne_nil {running : List Object} {jobs : List ℕ}
    (member : jobs ∈ slotGroups running)
    : jobs ≠ [] := by
  obtain ⟨key, rfl, index, entry, there, same⟩ := mem_slotGroups.mp member
  exact List.ne_nil_of_mem (mem_slot.mpr ⟨entry, there, same⟩)

theorem lt_of_mem_slotGroups {running : List Object} {jobs : List ℕ}
    (member : jobs ∈ slotGroups running) {index : ℕ} (here : index ∈ jobs)
    : index < running.length := by
  obtain ⟨key, rfl, -⟩ := mem_slotGroups.mp member
  obtain ⟨entry, there, -⟩ := mem_slot.mp here
  exact (List.getElem?_eq_some_iff.mp there).1

theorem mem_flatten_slotGroups {running : List Object} {index : ℕ}
    (there : index < running.length)
    : index ∈ (slotGroups running).flatten := by
  have found := List.getElem?_eq_getElem there
  exact List.mem_flatten.mpr ⟨_, mem_slotGroups.mpr ⟨_, rfl, index, _, found, rfl⟩,
    mem_slot.mpr ⟨_, found, rfl⟩⟩

theorem slotGroups_nodup (running : List Object) : (slotGroups running).flatten.Nodup := by
  refine List.nodup_flatten.mpr ⟨?_, ?_⟩
  · intro jobs member
    obtain ⟨key, rfl, -⟩ := mem_slotGroups.mp member
    have indices : ((running.zipIdx.map (fun card =>
        (slotKey card.2 card.1, card.2))).map Prod.snd).Nodup := by
      rw [List.map_map, show Prod.snd ∘ (fun card : Object × ℕ => (slotKey card.2 card.1, card.2))
        = Prod.snd from rfl, List.zipIdx_map_snd]
      exact List.nodup_range'
    exact indices.sublist (List.filter_sublist.map _)
  · rw [slotGroups, List.pairwise_map]
    have distinct := (List.perm_insertionSort (fun first second : SlotKey =>
      first.sortKey ≤ second.sortKey) _).nodup_iff.mpr
      (nodup_eraseDups ((running.zipIdx.map (fun card =>
        (slotKey card.2 card.1, card.2))).map Prod.fst))
    refine List.Pairwise.imp (fun differ index first second => ?_) distinct
    obtain ⟨entry, there, rfl⟩ := mem_slot.mp first
    obtain ⟨other, here, rfl⟩ := mem_slot.mp second
    cases there.symm.trans here
    exact differ rfl

-- The lanes of the slots

theorem freeLane_some {lanes : List Lane} {taken : List ℕ} {machine : Option String} {place : ℕ}
    (found : freeLane lanes taken machine = some place)
    : place < lanes.length ∧ place ∉ taken := by
  have free : place ∈ (List.range lanes.length).filter (fun place => place ∉ taken) := by
    rcases Option.or_eq_some_iff.mp found with wanted | ⟨-, first⟩
    · obtain ⟨name, -, found⟩ := Option.bind_eq_some_iff.mp wanted
      exact List.mem_of_find?_eq_some found
    · exact List.mem_of_head? first
  simpa using free

/-- The lanes with one for the next slot among them. -/
structure Placing.Slot (placing : Placing) (lanes : List Lane) (place : ℕ) : Prop where
  kept : ∀ (other : ℕ) (lane : Lane), placing.lanes[other]? = some lane → lanes[other]? = some lane
  fresh : place ∉ placing.taken
  there : place < lanes.length
  idle : ∀ (other : ℕ) (lane : Lane), lanes[other]? = some lane → other ∉ placing.taken →
    lane.freeIn = some 0 ∧ lane.used = false

/-- Every card placed so far ends by the time its lane frees, the last of a lane just then. -/
structure Placing.Sound (placing : Placing) : Prop where
  taken : ∀ place ∈ placing.taken, place < placing.lanes.length
  idle : ∀ (place : ℕ) (lane : Lane), placing.lanes[place]? = some lane →
    place ∉ placing.taken → lane.freeIn = some 0 ∧ lane.used = false
  within : ∀ card ∈ placing.priced, ∃ place ∈ placing.taken, ∃ lane : Lane,
    placing.lanes[place]? = some lane ∧ lane.used = true ∧ NoSooner card.2.2 lane.freeIn
  last : ∀ lane ∈ placing.lanes, lane.used = true → ∀ free ∈ lane.freeIn,
    ∃ card ∈ placing.priced, card.2.2 = some free
  eta : ∀ card ∈ placing.priced, ∀ seconds, Reports card.2.1 seconds →
    ∃ finish ∈ card.2.2, seconds ≤ roundInt finish

/-- A lane with the cards of a slot on it. -/
def Lane.after (chain : Chain) (lane : Lane) : Lane := { lane with
  generationId := chain.generationId
  used := true
  freeIn := if chain.known then some chain.cursor else none
}

/-- The slot's cards placed on its lane. -/
def Placing.settle (placing : Placing) (lanes : List Lane) (place : ℕ) (chain : Chain) : Placing where
  lanes := lanes.modify place (Lane.after chain)
  taken := place :: placing.taken
  priced := placing.priced ++ chain.priced

section

variable {placing : Placing} {lanes : List Lane} {place : ℕ} {chain : Chain}

theorem Placing.Slot.settled (slot : placing.Slot lanes place) (chain : Chain)
    : ∃ lane, lanes[place]? = some lane
        ∧ (placing.settle lanes place chain).lanes[place]? = some (lane.after chain) := by
  have there := List.getElem?_eq_getElem slot.there
  refine ⟨_, there, ?_⟩
  show (lanes.modify place (Lane.after chain))[place]? = _
  rw [List.getElem?_modify_eq, there]
  rfl

theorem Placing.settle_other {other : ℕ} (differ : other ≠ place)
    : (placing.settle lanes place chain).lanes[other]? = lanes[other]? :=
  List.getElem?_modify_ne _ _ differ.symm

theorem Chain.Sound.noSooner (priced : chain.Sound) (lane : Lane)
    {card : ℕ × Object × Option ℚ} (member : card ∈ chain.priced)
    : NoSooner card.2.2 (lane.after chain).freeIn := by
  unfold Lane.after
  split_ifs with known
  · rintro _ ⟨⟩
    exact priced.within known card member
  · exact nofun

theorem Placing.Slot.lanesLater (slot : placing.Slot lanes place) (priced : chain.Sound)
    : LanesLater placing.lanes (placing.settle lanes place chain).lanes := by
  intro other lane there
  have kept := slot.kept other lane there
  by_cases same : other = place
  · subst same
    obtain ⟨found, here, settled⟩ := slot.settled chain
    obtain rfl := Option.some.inj (here.symm.trans kept)
    refine ⟨_, settled, ?_⟩
    rw [(slot.idle other found kept slot.fresh).1]
    unfold Lane.after
    split_ifs
    · rintro _ ⟨⟩
      exact ⟨0, rfl, priced.cursor⟩
    · exact nofun
  · exact ⟨lane, (Placing.settle_other same).trans kept, .refl _⟩

theorem Placing.Sound.settle (sound : placing.Sound) (slot : placing.Slot lanes place)
    (priced : chain.Sound) (carded : chain.priced ≠ [])
    : (placing.settle lanes place chain).Sound := by
  obtain ⟨lane, there, settled⟩ := slot.settled chain
  have old {other : ℕ} {lane : Lane} (taken : other ∈ placing.taken)
      (here : placing.lanes[other]? = some lane)
      : (placing.settle lanes place chain).lanes[other]? = some lane :=
    (Placing.settle_other (ne_of_mem_of_not_mem taken slot.fresh)).trans (slot.kept other lane here)
  constructor
  case taken =>
    intro other member
    show other < (lanes.modify place _).length
    rw [List.length_modify]
    rcases List.mem_cons.mp member with rfl | before
    · exact slot.there
    · have here := List.getElem?_eq_getElem (sound.taken other before)
      exact (List.getElem?_eq_some_iff.mp (slot.kept other _ here)).1
  case idle =>
    intro other lane here fresh
    obtain ⟨differ, fresh⟩ := not_or.mp (List.mem_cons.not.mp fresh)
    exact slot.idle other lane ((Placing.settle_other differ).symm.trans here) fresh
  case within =>
    intro card member
    rcases List.mem_append.mp member with before | now
    · obtain ⟨other, taken, lane, here, used, later⟩ := sound.within card before
      exact ⟨other, List.mem_cons_of_mem _ taken, lane, old taken here, used, later⟩
    · exact ⟨place, List.mem_cons_self, _, settled, rfl, priced.noSooner lane now⟩
  case last =>
    intro other member used free known
    obtain ⟨index, here⟩ := List.getElem?_of_mem member
    by_cases same : index = place
    · subst same
      obtain rfl := Option.some.inj (settled.symm.trans here)
      unfold Lane.after at known
      split_ifs at known with sure
      case neg => cases known
      obtain ⟨card, member, last⟩ := priced.last sure carded
      exact ⟨card, List.mem_append_right _ member, last.trans known⟩
    · have here := (Placing.settle_other same).symm.trans here
      by_cases taken : index ∈ placing.taken
      · have before := List.getElem?_eq_getElem (sound.taken index taken)
        obtain rfl := Option.some.inj ((slot.kept index _ before).symm.trans here)
        obtain ⟨card, member, last⟩ := sound.last _ (List.mem_of_getElem? before) used free known
        exact ⟨card, List.mem_append_left _ member, last⟩
      · exact absurd used (by rw [(slot.idle index other here taken).2]; exact Bool.false_ne_true)
  case eta =>
    intro card member
    rcases List.mem_append.mp member with before | now
    · exact sound.eta card before
    · exact priced.eta card now

end

/-- The cards of a slot, with their indices. -/
def slotCards (running : List Object) (jobs : List ℕ) : List (ℕ × Object) :=
  jobs.filterMap (fun index => running[index]?.map (fun card => (index, card)))

theorem slotCards_indices {running : List Object} {jobs : List ℕ}
    (here : ∀ index ∈ jobs, index < running.length)
    : (slotCards running jobs).map Prod.fst = jobs := by
  induction jobs with
  | nil => rfl
  | cons index rest ih =>
      have there := List.getElem?_eq_getElem (here index List.mem_cons_self)
      rw [slotCards, List.filterMap_cons_some (by rw [there]; rfl), List.map_cons]
      exact congrArg _ (ih (fun later member => here later (List.mem_cons_of_mem _ member)))

theorem slotCards_mem {running : List Object} {jobs : List ℕ} {card : ℕ × Object}
    (member : card ∈ slotCards running jobs)
    : card.2 ∈ running := by
  obtain ⟨index, -, found⟩ := List.mem_filterMap.mp member
  obtain ⟨entry, there, rfl⟩ := Option.map_eq_some_iff.mp found
  exact List.mem_of_getElem? there

namespace PlanInputs

variable {inputs : PlanInputs} {running : List Object} {placing : Placing}

theorem placeSlot_eq_settle (sound : placing.Sound) (jobs : List ℕ)
    : ∃ lanes place machine, placing.Slot lanes place
        ∧ inputs.placeSlot running placing jobs
          = placing.settle lanes place ((slotCards running jobs).foldl
            (Chain.add inputs.texts inputs.pricing inputs.now machine) {}) := by
  unfold placeSlot
  extract_lets cards wanted named
  cases found : freeLane placing.lanes placing.taken wanted with
  | some place =>
      obtain ⟨there, fresh⟩ := freeLane_some found
      exact ⟨placing.lanes, place, _, ⟨fun _ _ here => here, fresh, there, sound.idle⟩, rfl⟩
  | none =>
      refine ⟨_, placing.lanes.length, _, ⟨?_, ?_, ?_, ?_⟩, rfl⟩
      · intro other lane here
        rw [List.getElem?_append_left (List.getElem?_eq_some_iff.mp here).1, here]
      · exact fun taken => (sound.taken _ taken).false
      · simp
      · intro other lane here fresh
        rcases lt_trichotomy other placing.lanes.length with before | same | beyond
        · rw [List.getElem?_append_left before] at here
          exact sound.idle other lane here fresh
        · subst same
          rw [List.getElem?_concat_length] at here
          obtain rfl := Option.some.inj here
          exact ⟨rfl, rfl⟩
        · rw [List.getElem?_eq_none (by simp; omega)] at here
          cases here

theorem placeSlot_sound (usable : inputs.pricing.Usable)
    (counted : ∀ card ∈ running, NoNegativeTotal card) (sound : placing.Sound) {jobs : List ℕ}
    (carded : jobs ≠ []) (here : ∀ index ∈ jobs, index < running.length)
    : (inputs.placeSlot running placing jobs).Sound
      ∧ LanesLater placing.lanes (inputs.placeSlot running placing jobs).lanes
      ∧ (inputs.placeSlot running placing jobs).priced.map Prod.fst
        = placing.priced.map Prod.fst ++ jobs := by
  obtain ⟨lanes, place, machine, slot, placed⟩ :=
    @placeSlot_eq_settle inputs running placing sound jobs
  have priced := @Chain.Sound.foldl inputs.texts inputs.pricing inputs.now machine usable {}
    Chain.sound_empty (slotCards running jobs)
    (fun card member => counted card.2 (slotCards_mem member))
  have indices := @Chain.foldl_indices inputs.texts inputs.pricing inputs.now machine {}
    (slotCards running jobs)
  rw [slotCards_indices here, List.map_nil, List.nil_append] at indices
  rw [placed]
  refine ⟨sound.settle slot priced ?_, slot.lanesLater priced, ?_⟩
  · rintro none
    rw [none] at indices
    exact carded indices.symm
  · rw [Placing.settle, List.map_append, indices]

theorem foldl_placeSlot_sound (usable : inputs.pricing.Usable)
    (counted : ∀ card ∈ running, NoNegativeTotal card) (sound : placing.Sound)
    {groups : List (List ℕ)} (carded : ∀ jobs ∈ groups, jobs ≠ [])
    (here : ∀ jobs ∈ groups, ∀ index ∈ jobs, index < running.length)
    : (groups.foldl (inputs.placeSlot running) placing).Sound
      ∧ (groups.foldl (inputs.placeSlot running) placing).priced.map Prod.fst
        = placing.priced.map Prod.fst ++ groups.flatten := by
  induction groups generalizing placing with
  | nil => exact ⟨sound, by simp⟩
  | cons jobs rest ih =>
      obtain ⟨next, -, indices⟩ := placeSlot_sound usable counted sound
        (carded jobs List.mem_cons_self) (here jobs List.mem_cons_self)
      obtain ⟨final, all⟩ := ih next (fun later member => carded later (.tail _ member))
        (fun later member => here later (.tail _ member))
      exact ⟨final, by rw [List.foldl_cons, all, indices]; simp⟩

theorem idle_sound (inputs : PlanInputs) : ({ lanes := inputs.idleLanes } : Placing).Sound := by
  have idle : ∀ lane ∈ inputs.idleLanes, lane.freeIn = some 0 ∧ lane.used = false := by
    intro lane member
    unfold idleLanes at member
    cases named : inputs.machines with
    | some names =>
        rw [named] at member
        obtain ⟨name, -, rfl⟩ := List.mem_map.mp member
        exact ⟨rfl, rfl⟩
    | none =>
        rw [named] at member
        obtain ⟨-, rfl⟩ := List.mem_replicate.mp member
        exact ⟨rfl, rfl⟩
  refine ⟨nofun, fun _ lane here _ => idle lane (List.mem_of_getElem? here), nofun, ?_, nofun⟩
  intro lane member used
  exact absurd used (by rw [(idle lane member).2]; exact Bool.false_ne_true)

theorem lanesFromRunning_sound (usable : inputs.pricing.Usable)
    (counted : ∀ card ∈ running, NoNegativeTotal card)
    : (inputs.lanesFromRunning running).Sound
      ∧ (inputs.lanesFromRunning running).priced.map Prod.fst = (slotGroups running).flatten :=
  foldl_placeSlot_sound usable counted inputs.idle_sound (fun _ => slotGroups_ne_nil)
    (fun _ member _ => lt_of_mem_slotGroups member)

theorem placeSlot_lanesLater (usable : inputs.pricing.Usable)
    (counted : ∀ card ∈ running, NoNegativeTotal card) {early : List (List ℕ)} {jobs : List ℕ}
    {late : List (List ℕ)} (split : slotGroups running = early ++ jobs :: late)
    : LanesLater (early.foldl (inputs.placeSlot running) { lanes := inputs.idleLanes }).lanes
        ((early ++ [jobs]).foldl (inputs.placeSlot running) { lanes := inputs.idleLanes }).lanes := by
  have within {group : List ℕ} (member : group ∈ early ∨ group = jobs)
      : group ∈ slotGroups running := by
    rw [split]
    simp only [List.mem_append, List.mem_cons]
    tauto
  have before := (foldl_placeSlot_sound usable counted inputs.idle_sound
    (fun group member => slotGroups_ne_nil (within (.inl member)))
    (fun group member _ => lt_of_mem_slotGroups (within (.inl member)))).1
  rw [List.foldl_append]
  exact (placeSlot_sound usable counted before (slotGroups_ne_nil (within (.inr rfl)))
    (fun _ => lt_of_mem_slotGroups (within (.inr rfl)))).2.1

theorem mem_cards (usable : inputs.pricing.Usable)
    (counted : ∀ card ∈ running, NoNegativeTotal card) {card : Object × Option ℚ}
    : card ∈ (inputs.lanesFromRunning running).cards running
        ↔ ∃ index, (index, card) ∈ (inputs.lanesFromRunning running).priced := by
  obtain ⟨-, indices⟩ := lanesFromRunning_sound usable counted
  have distinct : ((inputs.lanesFromRunning running).priced.map Prod.fst).Nodup :=
    indices ▸ slotGroups_nodup running
  -- Every card was placed, so the default of the lookup is never taken.
  have found {index : ℕ} (here : index < running.length)
      : ∃ placed ∈ (inputs.lanesFromRunning running).priced, placed.1 = index
        ∧ (inputs.lanesFromRunning running).priced.find? (fun entry => entry.1 = index)
          = some placed := by
    obtain ⟨placed, member, same⟩ := List.mem_map.mp (indices ▸ mem_flatten_slotGroups here)
    obtain ⟨first, lookup⟩ : ∃ first, (inputs.lanesFromRunning running).priced.find?
        (fun entry => entry.1 = index) = some first :=
      Option.isSome_iff_exists.mp (List.find?_isSome.mpr ⟨placed, member, decide_eq_true same⟩)
    exact ⟨first, List.mem_of_find?_eq_some lookup, by simpa using List.find?_some lookup, lookup⟩
  simp only [Placing.cards, List.mem_map, Prod.exists, List.mem_zipIdx_iff_getElem?]
  constructor
  · rintro ⟨entry, index, there, rfl⟩
    obtain ⟨placed, member, same, lookup⟩ := found (List.getElem?_eq_some_iff.mp there).1
    subst same
    exact ⟨placed.1, by simpa [lookup] using member⟩
  · rintro ⟨index, member⟩
    obtain ⟨jobs, group, inside⟩ := List.mem_flatten.mp (indices ▸ List.mem_map_of_mem member)
    have here := lt_of_mem_slotGroups group inside
    obtain ⟨placed, other, same, lookup⟩ := found here
    have one := List.inj_on_of_nodup_map distinct other member same
    exact ⟨running[index], index, List.getElem?_eq_getElem here, by simp [lookup, one]⟩

end PlanInputs

end MokuroBunko.Sched
