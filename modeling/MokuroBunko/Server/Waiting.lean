import MokuroBunko.Server.Ownership

/-! Whom a lane stands aside for: the lanes offered to the earliest-finish walk and the warm
sessions a row's last volume is left to are of machines that are connected, not held and
not failing their downloads. A lane whose session closes is offered too, as a cold one.
-/

namespace MokuroBunko.Server

open MokuroBunko.Lib MokuroBunko.Data MokuroBunko.Sched

namespace Scheduler

variable {s : Scheduler} {env : Env}

/-- What the first phase of a claim and an open session's state say of a lane: nothing keeps
it from taking a volume.
-/
def mayClaim (s : Scheduler) (env : Env) (lane : Lane) : Bool :=
  (s.machines.get? lane.pid).any (fun machine => machine.connected && !s.held machine.name)
    && !s.machinePaused lane.pid && !s.breakerOpen env lane.pid
    && (lane.session.bind s.sessions.get?).all (fun session =>
      session.draining.isNone && !session.closing)

/-- The rows a lane that asks for work may be offered. -/
def walkedRows (s : Scheduler) (env : Env) : List String :=
  ((s.candidates env s.unavailable).1.map Job.gid).eraseDups

theorem connected_of_lane (reachable : Reachable s) {lane : Lane} (known : lane ∈ s.lanes)
    : ∃ machine, s.machines.get? lane.pid = some machine ∧ machine.connected = true := by
  have linked := reachable.coherent.sound.slotted.linked lane.slot
    (List.mem_map.mpr ⟨lane, known, rfl⟩)
  exact Option.map_eq_some_iff.mp linked

theorem connected_of_session (reachable : Reachable s) {sid : Sid} {session : Session}
    (found : s.sessions.get? sid = some session)
    : ∃ machine, s.machines.get? session.pid = some machine ∧ machine.connected = true := by
  obtain ⟨lane, known, -, ofMachine⟩ :=
    ((lanes_and_sessions_match reachable).2.1 sid session found).1
  exact ofMachine ▸ connected_of_lane reachable known

-- What one lane offers

theorem eftLane_offers {walked : List String} {lane : Lane} {offers : List (EftLane ℕ)}
    (offered : s.eftLane env walked lane = some offers) {offer : EftLane ℕ}
    (member : offer ∈ offers)
    : ∃ machine, s.machines.get? lane.pid = some machine ∧ offer.key = lane.id
      ∧ offer.machine = machine.name ∧ s.held machine.name = false
      ∧ (machine.isLocal = true ∨ s.breakerOpen env lane.pid = false)
      ∧ offer.warm = s.warmRow lane := by
  unfold eftLane at offered
  cases registered : s.machines.get? lane.pid with
  | none =>
      rw [registered] at offered
      have nothing := Option.some.inj offered
      rw [← nothing] at member
      exact absurd member List.not_mem_nil
  | some machine =>
      rw [registered] at offered
      dsimp only at offered
      by_cases refused : (s.held machine.name
          || (!machine.isLocal && s.breakerOpen env lane.pid)) = true
      · rw [if_pos refused] at offered
        have nothing := Option.some.inj offered
        rw [← nothing] at member
        exact absurd member List.not_mem_nil
      · rw [if_neg refused] at offered
        obtain ⟨freeIn, -, one⟩ := Option.bind_eq_some_iff.mp offered
        have single := Option.some.inj one
        rw [← single] at member
        have same := List.mem_singleton.mp member
        subst same
        simp only [Bool.or_eq_true, Bool.and_eq_true, Bool.not_eq_true', not_or, not_and] at refused
        refine ⟨machine, rfl, rfl, rfl, Bool.eq_false_iff.mpr refused.1, ?_, rfl⟩
        cases isLocal : machine.isLocal with
        | true => exact .inl rfl
        | false => exact .inr (Bool.eq_false_iff.mpr (refused.2 isLocal))

theorem mem_eftOffers {walked : List String} {lanes : List Lane}
    : ∀ {offers : List (EftLane ℕ)}, s.eftOffers env walked lanes = some offers
      → ∀ offer ∈ offers, ∃ lane ∈ lanes, ∃ own, s.eftLane env walked lane = some own
        ∧ offer ∈ own := by
  induction lanes with
  | nil =>
      intro offers offered offer member
      have nothing := Option.some.inj offered
      rw [← nothing] at member
      exact absurd member List.not_mem_nil
  | cons lane rest ih =>
      intro offers offered offer member
      obtain ⟨own, ofLane, others⟩ := Option.bind_eq_some_iff.mp offered
      obtain ⟨later, ofRest, both⟩ := Option.bind_eq_some_iff.mp others
      have all := Option.some.inj both
      rw [← all] at member
      cases List.mem_append.mp member with
      | inl first => exact ⟨lane, List.mem_cons_self, own, ofLane, first⟩
      | inr second =>
          obtain ⟨other, known, own', ofOther, inOwn⟩ := ih ofRest offer second
          exact ⟨other, List.mem_cons_of_mem _ known, own', ofOther, inOwn⟩

theorem warmRow_eq_some {lane : Lane} {gid : String} (warm : s.warmRow lane = some gid)
    : ∃ sid session, lane.session = some sid ∧ s.sessions.get? sid = some session
      ∧ session.closing = false ∧ session.row.id = gid := by
  obtain ⟨session, live, row⟩ := Option.map_eq_some_iff.mp warm
  obtain ⟨found, notClosing⟩ := Option.filter_eq_some_iff.mp live
  obtain ⟨sid, runs, known⟩ := Option.bind_eq_some_iff.mp found
  exact ⟨sid, session, runs, known, by simpa using notClosing, row⟩

-- Warm sessions

theorem mem_warmSessions {pid : Pid} {sid : Sid} {session : Session}
    (warm : (sid, session) ∈ s.warmSessions env pid)
    : s.sessions.get? sid = some session ∧ session.closing = false ∧ session.pid ≠ pid
      ∧ ∃ machine, s.machines.get? session.pid = some machine ∧ s.held machine.name = false
        ∧ s.breakerOpen env session.pid = false := by
  obtain ⟨known, counted⟩ := List.mem_filter.mp warm
  simp only [Bool.and_eq_true, Bool.not_eq_true', Bool.or_eq_false_iff, decide_eq_false_iff_not,
    Option.any_eq_true_iff_get] at counted
  obtain ⟨⟨notClosing, other⟩, registered, notHeld, working⟩ := counted
  refine ⟨OrderedMap.mem_entries_iff.mp known, notClosing, other, ?_⟩
  exact ⟨_, (Option.some_get registered).symm, notHeld, working⟩

theorem mem_warmMachines {pid : Pid} {gid : String} {job : Job} {machine : WarmMachine}
    (left : machine ∈ s.warmMachines env pid gid job)
    : ∃ sid session registered, (sid, session) ∈ s.warmSessions env pid ∧ session.row.id = gid
      ∧ s.machines.get? session.pid = some registered ∧ machine.machine = registered.name := by
  obtain ⟨other, reads, ofMachine⟩ := List.mem_filterMap.mp left
  obtain ⟨registered, found, same⟩ := Option.map_eq_some_iff.mp ofMachine
  have warm := (List.mem_filter.mp reads).1
  obtain ⟨⟨sid, session⟩, ofRow, ofPid⟩ := List.mem_map.mp (List.mem_eraseDups.mp warm)
  obtain ⟨open_, row⟩ := List.mem_filter.mp ofRow
  have ofPid : session.pid = other := ofPid
  refine ⟨sid, session, registered, open_, of_decide_eq_true row, ofPid ▸ found, ?_⟩
  rw [← same]

-- Standing aside

/-- After every run, each lane offered to the walk is one of the lanes; its machine is
connected and not held, its downloads do not fail unless it is this server's own, and it is
warm for a row only through an open session that is not closing. Each warm session counted
for a row's last volume is not closing, and its machine is another one, connected, not held,
with downloads that do not fail; the volume is left to machines of such sessions only.
-/
theorem lanes_wait_for_working_machines (reachable : Reachable s) (env : Env)
    : (∀ asking walked offers, s.eftLanes env asking walked = some offers
        → ∀ offer ∈ offers, ∃ lane ∈ s.lanes, ∃ machine, offer.key = lane.id
          ∧ s.machines.get? lane.pid = some machine ∧ offer.machine = machine.name
          ∧ machine.connected = true ∧ s.held machine.name = false
          ∧ (machine.isLocal = true ∨ s.breakerOpen env lane.pid = false)
          ∧ ∀ gid, offer.warm = some gid → ∃ sid session, lane.session = some sid
            ∧ s.sessions.get? sid = some session ∧ session.closing = false
            ∧ session.row.id = gid)
      ∧ (∀ pid sid session, (sid, session) ∈ s.warmSessions env pid
        → s.sessions.get? sid = some session ∧ session.closing = false ∧ session.pid ≠ pid
          ∧ ∃ machine, s.machines.get? session.pid = some machine ∧ machine.connected = true
            ∧ s.held machine.name = false ∧ s.breakerOpen env session.pid = false)
      ∧ ∀ pid gid job, ∀ left ∈ s.warmMachines env pid gid job, ∃ sid session machine,
          (sid, session) ∈ s.warmSessions env pid ∧ session.row.id = gid
          ∧ s.machines.get? session.pid = some machine ∧ left.machine = machine.name := by
  refine ⟨?_, ?_, fun _ _ _ _ member => mem_warmMachines member⟩
  · intro asking walked offers offered offer member
    have collected : s.eftOffers env walked s.lanes = some offers := by
      unfold eftLanes at offered
      split at offered
      · exact absurd offered nofun
      · exact offered
    obtain ⟨lane, known, own, ofLane, inOwn⟩ := mem_eftOffers collected offer member
    obtain ⟨machine, found, key, name, notHeld, breaker, warm⟩ := eftLane_offers ofLane inOwn
    obtain ⟨registered, found', connected⟩ := connected_of_lane reachable known
    have same : registered = machine := Option.some.inj (found'.symm.trans found)
    subst same
    refine ⟨lane, known, registered, key, found, name, connected, notHeld, breaker, ?_⟩
    intro gid warmRow
    exact warmRow_eq_some (warm.symm.trans warmRow)
  · intro pid sid session warm
    obtain ⟨open_, notClosing, other, registered, found, notHeld, breaker⟩ := mem_warmSessions warm
    obtain ⟨linked, found', connected⟩ := connected_of_session reachable open_
    have same : linked = registered := Option.some.inj (found'.symm.trans found)
    subst same
    exact ⟨open_, notClosing, other, linked, found, connected, notHeld, breaker⟩

-- A closing session

def helper : RegisterInput where
  username := "ann"
  name := "helper"
  engines := ["hayai-nova"]
  version := "1"
  maxSessions := 1

/-- The only volume was read, so its session closes, and a helper joins. -/
def helperJoined : Scheduler :=
  ((reading.handle openWorld (.event .own (.session 0 (.volumeDone 1)))).handle openWorld
    (.register helper)).handle openWorld (.socketOpen (.remote 0) "ann")

theorem helperJoined_reachable : Reachable helperJoined := by
  unfold helperJoined
  apply Reachable.handle
  · apply Reachable.handle
    · exact reading_reachable.handle openWorld trivial
    · trivial
  · trivial

/-- Another volume arrives. -/
def closingState : Scheduler :=
  helperJoined.dispatch openWorld (.archiveArrived "A/2.cbz" (some {
    mtime := 0
    rows := ["g"]
  }))

theorem closingState_reachable : Reachable closingState :=
  helperJoined_reachable.step (.dispatched openWorld (.archiveArrived "A/2.cbz" _) trivial)

/-- The world while the result is being installed: its card is at the end. -/
def installingWorld : Env := { openWorld with card := fun _ => (some 0, none, none) }

theorem closingState_offers
    : ∃ offers, closingState.eftLanes installingWorld 1 (closingState.walkedRows installingWorld)
        = some offers
      ∧ ∃ offer ∈ offers, offer.key = 0 := by
  have offered : ((closingState.eftLanes installingWorld 1
      (closingState.walkedRows installingWorld)).getD []).map EftLane.key = [0, 1] := by
    decide +kernel
  cases lanes : closingState.eftLanes installingWorld 1 (closingState.walkedRows installingWorld) with
  | none =>
      rw [lanes] at offered
      exact absurd offered nofun
  | some offers =>
      rw [lanes] at offered
      have first : 0 ∈ offers.map EftLane.key := by
        rw [show offers.map EftLane.key = [0, 1] from offered]
        exact List.mem_cons_self
      exact ⟨offers, rfl, List.mem_map.mp first⟩

/-- The lane of the closing session is offered while the helper's lane asks for work. -/
theorem closing_lane_is_offered
    : ¬ ∀ s : Scheduler, Reachable s → ∀ env, ∀ asking ∈ s.lanes, asking.session = none
      → ∀ offers, s.eftLanes env asking.id (s.walkedRows env) = some offers
      → ∀ offer ∈ offers, offer.key ≠ asking.id
      → ∃ lane ∈ s.lanes, lane.id = offer.key ∧ s.mayClaim env lane = true := by
  intro claimed
  have asks : (⟨1, .remote 0, none, false, none⟩ : Lane) ∈ closingState.lanes := by
    decide +kernel
  have refused : closingState.lanes.all (fun lane =>
      decide (lane.id ≠ 0) || !closingState.mayClaim installingWorld lane) = true := by
    decide +kernel
  obtain ⟨offers, offered, offer, member, key⟩ := closingState_offers
  have another : offer.key ≠ 1 := by
    rw [key]
    exact Nat.zero_ne_one
  obtain ⟨lane, known, sameId, may⟩ := claimed closingState closingState_reachable
    installingWorld _ asks rfl offers offered offer member another
  have closed := List.all_eq_true.mp refused lane known
  simp [sameId.trans key, may] at closed

/-- The lane offered there is of a connected machine that is not held. -/
theorem closing_lane_is_connected
    : ∃ lane ∈ closingState.lanes, lane.id = 0
      ∧ ∃ machine, closingState.machines.get? lane.pid = some machine
        ∧ machine.connected = true ∧ closingState.held machine.name = false := by
  obtain ⟨offers, offered, offer, member, key⟩ := closingState_offers
  obtain ⟨lane, known, machine, sameId, found, -, connected, notHeld, -⟩ :=
    (lanes_wait_for_working_machines closingState_reachable installingWorld).1 1 _ offers offered
      offer member
  exact ⟨lane, known, sameId.symm.trans key, machine, found, connected, notHeld⟩

end Scheduler

end MokuroBunko.Server
