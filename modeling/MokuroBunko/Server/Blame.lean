import MokuroBunko.Server.Waiting

/-! Leaving blames nobody: a machine that disconnects, pauses or is stopped leaves the
failures, the strikes and the back-offs as they are, and its volumes may be claimed again.
-/

namespace MokuroBunko.Server

open MokuroBunko.Lib MokuroBunko.Data MokuroBunko.Sched

namespace Scheduler

variable {s s' s'' : Scheduler} (env : Env)

/-- Nothing is recorded against a volume or a machine, and each volume is claimed as before
or free.
-/
structure Unblamed (s s' : Scheduler) : Prop where
  failures : s'.failures = s.failures
  strikes : s'.strikes = s.strikes
  startBackoff : s'.startBackoff = s.startBackoff
  stopping : s'.stopping = s.stopping
  jobs : ∀ job, (s'.claims.get? job = s.claims.get? job ∧ (job ∈ s'.attempted ↔ job ∈ s.attempted))
    ∨ s'.unavailable job = false

theorem unavailable_eq_false {job : Job}
    : s.unavailable job = false ↔ s.claims.get? job = none ∧ job ∉ s.attempted := by
  simp [unavailable, OrderedMap.contains]

theorem Unblamed.refl (s : Scheduler) : Unblamed s s :=
  ⟨rfl, rfl, rfl, rfl, fun _ => .inl ⟨rfl, .rfl⟩⟩

theorem Unblamed.trans (first : Unblamed s s') (second : Unblamed s' s'')
    : Unblamed s s'' := by
  refine ⟨second.failures.trans first.failures, second.strikes.trans first.strikes,
    second.startBackoff.trans first.startBackoff, second.stopping.trans first.stopping, ?_⟩
  intro job
  obtain ⟨claims, attempted⟩ | free := second.jobs job
  · obtain ⟨claims', attempted'⟩ | free' := first.jobs job
    · exact .inl ⟨claims.trans claims', attempted.trans attempted'⟩
    · right
      rw [unavailable_eq_false] at free' ⊢
      exact ⟨claims.trans free'.1, fun marked => free'.2 (attempted.mp marked)⟩
  · exact .inr free

theorem Unblamed.free (left : Unblamed s s') {job : Job} (free : s.unavailable job = false)
    : s'.unavailable job = false := by
  obtain ⟨claims, attempted⟩ | free' := left.jobs job
  · rw [unavailable_eq_false] at free ⊢
    exact ⟨claims.trans free.1, fun marked => free.2 (attempted.mp marked)⟩
  · exact free'

theorem Unblamed.free_of_claimed (left : Unblamed s s') {job : Job} {claimed : Claimed}
    (before : s.claims.get? job = some claimed) (gone : s'.claims.get? job ≠ some claimed)
    : s'.unavailable job = false :=
  (left.jobs job).resolve_left (fun same => gone (same.1.trans before))

theorem Unblamed.foldl {α : Type} {f : Scheduler → α → Scheduler} (allowed : Scheduler → Prop)
    (keeps : ∀ s x, allowed s → Unblamed s (f s x) ∧ allowed (f s x)) (steps : List α)
    : ∀ {s : Scheduler}, allowed s → Unblamed s (steps.foldl f s) ∧ allowed (steps.foldl f s) := by
  induction steps with
  | nil => exact fun holds => ⟨.refl _, holds⟩
  | cons x rest ih =>
      intro s holds
      obtain ⟨first, still⟩ := keeps s x holds
      obtain ⟨later, final⟩ := ih still
      exact ⟨first.trans later, final⟩

-- The end of a session

theorem Unblamed.release (s : Scheduler) (job : Job)
    : Unblamed s (s.release job true) := by
  unfold Scheduler.release
  cases s.claims.get? job with
  | none => exact .refl s
  | some claimed =>
      refine ⟨rfl, rfl, rfl, rfl, ?_⟩
      intro other
      by_cases same : other = job
      · right
        rw [unavailable_eq_false]
        simp [bump, same]
      · left
        simp [bump, same]

theorem Unblamed.settleHeld (s : Scheduler) (session : Session) (error : String)
    (claim : ClaimId)
    : Unblamed s (s.settleHeld env session none error claim) := by
  unfold Scheduler.settleHeld
  cases session.jobs.get? claim with
  | none => exact .refl s
  | some entry => exact .release s entry.job

/-- The session ends on a machine that is gone or paused, or is killed while the server
stops.
-/
def EndsUnblamed (s : Scheduler) (sid : Sid) (killed : Bool) : Prop :=
  ∀ session, s.sessions.get? sid = some session
    → s.machines.get? session.pid = none ∨ s.machinePaused session.pid = true
      ∨ (s.stopping = true ∧ killed = true)

theorem Unblamed.endSession {sid : Sid} {killed : Bool} (ends : s.EndsUnblamed sid killed)
    : Unblamed s (s.endSession env sid killed) := by
  unfold Scheduler.endSession
  cases found : s.sessions.get? sid with
  | none => exact .refl s
  | some session =>
      dsimp only
      have unblamed : (!s.machines.contains session.pid) = true
          ∨ s.machinePaused session.pid = true ∨ (s.stopping = true ∧ killed = true) := by
        simpa [OrderedMap.contains] using ends session found
      -- what the branches read of why the session ended
      have start : (killed || !s.machines.contains session.pid || s.machinePaused session.pid
          || session.jobs.values.any (fun entry => decide (entry.job ∈ s.cancelled))
          || s.stopping) = true := by
        simp only [Bool.or_eq_true]
        tauto
      have blames : (!s.stopping && !(!s.machines.contains session.pid)
          && !s.machinePaused session.pid) = false := by
        simp only [Bool.and_eq_false_iff, Bool.not_eq_false']
        tauto
      have empty : (session.fatalError.isSome && session.completed == 0
          && !(!s.machines.contains session.pid) && !s.machinePaused session.pid && !killed)
          = false := by
        simp only [Bool.and_eq_false_iff, Bool.not_eq_false']
        tauto
      rw [start, blames, empty]
      have noted : ∀ closed : Scheduler, closed.noteEndedStart env session true = closed := by
        intro closed
        unfold noteEndedStart
        cases session.fatalError <;> simp
      rw [noted]
      have rebuilt : Unblamed s (({ s with
          sessions := s.sessions.erase sid
          lanes := changeLane session.lane
            (fun lane => { lane with session := none, idleAt := none }) s.lanes
        }).rebuildLanes).bump :=
        ⟨rfl, rfl, rfl, rfl, fun _ => .inl ⟨rfl, .rfl⟩⟩
      simp only [Bool.false_and, Bool.not_false, Bool.true_or, Bool.false_eq_true, if_false, if_true]
      split
      · exact rebuilt
      · refine rebuilt.trans (Unblamed.foldl (fun _ => True) ?_ session.order trivial).1
        intro s claim _
        have nobody : session.order.head?.filter (fun _ => false) = none := by
          cases session.order.head? <;> rfl
        rw [nobody]
        exact ⟨.settleHeld env s session _ claim, trivial⟩

-- A drop

/-- Records and strikes are at most forgotten, and a free volume stays free. -/
structure Forgiven (s s' : Scheduler) : Prop where
  failures : s'.failures.Sublist s.failures
  strikes : ∀ key count, s'.strikes.get? key = some count → s.strikes.get? key = some count
  startBackoff : s'.startBackoff = s.startBackoff
  free : ∀ job, s.unavailable job = false → s'.unavailable job = false

theorem Unblamed.forgiven (left : Unblamed s s')
    : Forgiven s s' where
  failures := left.failures ▸ List.Sublist.refl _
  strikes := fun _ _ found => left.strikes ▸ found
  startBackoff := left.startBackoff
  free := fun _ free => left.free free

theorem Forgiven.trans (first : Forgiven s s') (second : Forgiven s' s'')
    : Forgiven s s'' where
  failures := second.failures.trans first.failures
  strikes := fun key count found => first.strikes key count (second.strikes key count found)
  startBackoff := second.startBackoff.trans first.startBackoff
  free := fun job free => second.free job (first.free job free)

theorem foldl_remove_sublist (keys : List String)
    : ∀ records : Object, (keys.foldl Object.remove records).Sublist records := by
  induction keys with
  | nil => exact fun records => .refl records
  | cons key rest ih => exact fun records => (ih _).trans List.filter_sublist

theorem Forgiven.resetScan (s : Scheduler)
    : Forgiven s (s.resetScan env) := by
  unfold Scheduler.resetScan
  split
  · exact ⟨.refl _, fun _ _ found => absurd found nofun, rfl, fun _ free => free⟩
  · exact (Unblamed.refl s).forgiven

theorem Forgiven.startScan (s : Scheduler)
    : Forgiven s (s.startScan env) := by
  have opened : Forgiven s { s.pruneFailures env with
      attempted := ∅
      returnedBy := .empty
    } := by
    refine ⟨List.filter_sublist, fun _ _ found => found, rfl, ?_⟩
    intro job free
    rw [unavailable_eq_false] at free ⊢
    exact ⟨free.1, Finset.notMem_empty job⟩
  have reset := opened.trans (Forgiven.resetScan env _)
  unfold Scheduler.startScan
  exact reset.trans ⟨foldl_remove_sublist _ _, fun _ _ found => found, rfl, fun _ free => free⟩

theorem Forgiven.maybeStartScan (s : Scheduler)
    : Forgiven s (s.maybeStartScan env) := by
  unfold Scheduler.maybeStartScan
  split
  · exact (Unblamed.refl s).forgiven
  · exact .startScan env s

theorem releaseQueue_eq (s : Scheduler) (machine : String)
    : ∃ opened, Unblamed s opened ∧ opened.scanActive = s.scanActive
      ∧ s.releaseQueue env machine = opened.maybeStartScan env := by
  refine ⟨_, ?_, ?_, rfl⟩
  · exact ⟨rfl, rfl, rfl, rfl, fun _ => .inl ⟨rfl, .rfl⟩⟩
  · rfl

theorem Forgiven.releaseQueue (s : Scheduler) (machine : String)
    : Forgiven s (s.releaseQueue env machine) := by
  obtain ⟨opened, same, -, eq⟩ := releaseQueue_eq env s machine
  rw [eq]
  exact same.forgiven.trans (.maybeStartScan env opened)

theorem Unblamed.releaseQueue {machine : String} (quiet : s.scanActive = true ∨ s.stopping = true)
    : Unblamed s (s.releaseQueue env machine) := by
  obtain ⟨opened, same, active, eq⟩ := releaseQueue_eq env s machine
  rw [eq]
  unfold Scheduler.maybeStartScan
  rw [if_pos]
  · exact same
  · rw [active, same.stopping]
    cases quiet with
    | inl active => simp [active]
    | inr stopping => simp [stopping]

/-- A machine whose leaving begins no scan: none can begin, or its line holds nothing. -/
def LeavesQuietly (s : Scheduler) (machine : String) : Prop :=
  s.scanActive = true ∨ s.stopping = true ∨ machine ∉ s.bench.holding

theorem benchMachineLeft_eq (s : Scheduler) (machine : String)
    : ∃ ended, Unblamed s ended ∧ ended.scanActive = s.scanActive
      ∧ (s.benchMachineLeft env machine = ended
        ∨ machine ∈ s.bench.holding
          ∧ s.benchMachineLeft env machine = ended.releaseQueue env machine) := by
  unfold Scheduler.benchMachineLeft
  cases s.bench.lines.get? machine with
  | none => exact ⟨s, .refl s, rfl, .inl rfl⟩
  | some line =>
      dsimp only
      split
      case isTrue holding =>
          refine ⟨_, ?_, ?_, .inr ⟨holding, rfl⟩⟩
          · exact ⟨rfl, rfl, rfl, rfl, fun _ => .inl ⟨rfl, .rfl⟩⟩
          · rfl
      case isFalse =>
          refine ⟨_, ?_, ?_, .inl rfl⟩
          · exact ⟨rfl, rfl, rfl, rfl, fun _ => .inl ⟨rfl, .rfl⟩⟩
          · rfl

theorem Unblamed.benchMachineLeft {machine : String} (quiet : s.LeavesQuietly machine)
    : Unblamed s (s.benchMachineLeft env machine) := by
  obtain ⟨ended, same, active, eq | ⟨holding, eq⟩⟩ := benchMachineLeft_eq env s machine
  · exact eq ▸ same
  · rw [eq]
    apply same.trans
    apply Unblamed.releaseQueue
    rw [active, same.stopping]
    obtain scanning | stopping | free := quiet
    · exact .inl scanning
    · exact .inr stopping
    · exact absurd holding free

theorem Forgiven.benchMachineLeft (s : Scheduler) (machine : String)
    : Forgiven s (s.benchMachineLeft env machine) := by
  obtain ⟨ended, same, -, eq | ⟨-, eq⟩⟩ := benchMachineLeft_eq env s machine
  · exact eq ▸ same.forgiven
  · rw [eq]
    exact same.forgiven.trans (.releaseQueue env ended machine)

theorem mem_unsettledOf {pid : Pid} {job : Job}
    : job ∈ s.unsettledOf pid
      ↔ ∃ claimed, s.claims.get? job = some claimed ∧ claimed.pid = pid
        ∧ claimed.settling = false := by
  simp only [unsettledOf, List.mem_map, List.mem_filter, Prod.exists, exists_and_right,
    exists_eq_right, OrderedMap.mem_entries_iff, Bool.and_eq_true, decide_eq_true_eq,
    Bool.not_eq_true']

theorem Unblamed.vacate (s : Scheduler) (pid : Pid)
    : Unblamed s (s.vacate pid) := by
  refine ⟨rfl, rfl, rfl, rfl, ?_⟩
  intro job
  by_cases leaves : job ∈ s.unsettledOf pid
  · right
    rw [unavailable_eq_false]
    obtain ⟨claimed, found, ofPid, unsettled⟩ := mem_unsettledOf.mp leaves
    simp [Scheduler.vacate, found, ofPid, unsettled, leaves]
  · left
    constructor
    · cases found : s.claims.get? job with
      | none => simp [Scheduler.vacate, found]
      | some claimed =>
          have stays : ¬ (claimed.pid = pid ∧ claimed.settling = false) := fun both =>
            leaves (mem_unsettledOf.mpr ⟨claimed, found, both.1, both.2⟩)
          have kept : ¬ claimed.pid = pid ∨ claimed.settling = true := by
            rwa [not_and_or, Bool.not_eq_false] at stays
          simpa [Scheduler.vacate, found] using kept
    · simp [Scheduler.vacate, leaves]

theorem Unblamed.dropProcessor {pid : Pid}
    (quiet : ∀ machine, s.machines.get? pid = some machine → s.LeavesQuietly machine.name)
    : Unblamed s (s.dropProcessor env pid) := by
  unfold Scheduler.dropProcessor
  cases found : s.machines.get? pid with
  | none => exact .refl s
  | some machine =>
      have line := Unblamed.benchMachineLeft (s := s.vacate pid) env (quiet machine found)
      have vacated := (Unblamed.vacate s pid).trans line
      exact vacated.trans ⟨rfl, rfl, rfl, rfl, fun _ => .inl ⟨rfl, .rfl⟩⟩

theorem Forgiven.dropProcessor (s : Scheduler) (pid : Pid)
    : Forgiven s (s.dropProcessor env pid) := by
  unfold Scheduler.dropProcessor
  cases s.machines.get? pid with
  | none => exact (Unblamed.refl s).forgiven
  | some machine =>
      have line := Forgiven.benchMachineLeft env (s.vacate pid) machine.name
      have vacated := (Unblamed.vacate s pid).forgiven.trans line
      exact vacated.trans (Unblamed.forgiven ⟨rfl, rfl, rfl, rfl, fun _ => .inl ⟨rfl, .rfl⟩⟩)

theorem registered_of_claimed (coherent : s.Coherent) {job : Job} {claimed : Claimed}
    (found : s.claims.get? job = some claimed) (unsettled : claimed.settling = false)
    : ∃ sid session machine, claimed.sid = some sid ∧ s.sessions.get? sid = some session
      ∧ session.pid = claimed.pid ∧ s.machines.get? claimed.pid = some machine := by
  have lease : s.ledger.leases job = some claimed.lease :=
    Option.map_eq_some_iff.mpr ⟨claimed, found, rfl⟩
  have owner := coherent.sound.leased.owner job claimed.lease lease unsettled
  obtain ⟨sid, claim, ofSession, -, holder, open_, held⟩ := owner.resolve_left nofun
  have leased := (coherent.sound.leased.held sid holder claim job open_ held).1
  have ofMachine : holder.worker = claimed.pid :=
    (congrArg Lease.worker (Option.some.inj (leased.symm.trans lease)))
  have slot := coherent.sound.slotted.slotOf sid holder open_
  obtain ⟨machine, registered, -⟩ :=
    Option.map_eq_some_iff.mp (coherent.sound.slotted.linked _ slot)
  obtain ⟨session, known, same⟩ := Option.map_eq_some_iff.mp open_
  refine ⟨sid, session, machine, ofSession, known, ?_, ofMachine ▸ registered⟩
  rw [← ofMachine, ← same]
  rfl

theorem free_of_dropProcessor (coherent : s.Coherent) {pid : Pid} {job : Job}
    {claimed : Claimed} (found : s.claims.get? job = some claimed) (ofPid : claimed.pid = pid)
    (unsettled : claimed.settling = false)
    : (s.dropProcessor env pid).unavailable job = false := by
  obtain ⟨-, -, machine, -, -, -, registered⟩ := registered_of_claimed coherent found unsettled
  rw [ofPid] at registered
  have vacated : (s.vacate pid).unavailable job = false := by
    rw [unavailable_eq_false]
    have leaves : job ∈ s.unsettledOf pid := mem_unsettledOf.mpr ⟨claimed, found, ofPid, unsettled⟩
    simp [Scheduler.vacate, found, ofPid, unsettled, leaves]
  unfold Scheduler.dropProcessor
  rw [registered]
  exact (Forgiven.benchMachineLeft env (s.vacate pid) machine.name).free job vacated

-- Claims given back

theorem Unblamed.popJob {sid : Sid} {claim : ClaimId} {entry : SessionJob} {popped : Scheduler}
    (pops : s.popJob sid claim = some (entry, popped))
    : Unblamed s popped := by
  simp only [Scheduler.popJob, Option.bind_eq_bind, Option.bind_eq_some_iff, Option.pure_def,
    Option.some.injEq, Prod.mk.injEq] at pops
  obtain ⟨session, -, entry', -, -, rfl⟩ := pops
  exact ⟨rfl, rfl, rfl, rfl, fun _ => .inl ⟨rfl, .rfl⟩⟩

theorem free_of_release {job : Job} (claimed : (s.claims.get? job).isSome)
    : (s.release job true).unavailable job = false := by
  obtain ⟨claim, found⟩ := Option.isSome_iff_exists.mp claimed
  rw [unavailable_eq_false]
  simp [Scheduler.release, found, bump]

theorem Unblamed.releaseClaim (s : Scheduler) (pid : Pid) (claim : ClaimId)
    : Unblamed s (s.releaseClaim pid claim) := by
  unfold Scheduler.releaseClaim
  cases s.holderOf pid claim with
  | none => exact .refl s
  | some sid =>
      cases pops : s.popJob sid claim with
      | none => simpa [pops] using Unblamed.refl s
      | some result =>
          obtain ⟨entry, popped⟩ := result
          simpa [pops] using (Unblamed.popJob pops).trans (.release popped entry.job)

theorem Unblamed.releaseClaims (s : Scheduler) (pid : Pid) (claims : List ClaimId)
    : Unblamed s (claims.foldl (fun s claim => s.releaseClaim pid claim) s) :=
  (Unblamed.foldl (fun _ => True)
    (fun s claim _ => ⟨Unblamed.releaseClaim s pid claim, trivial⟩) claims trivial).1

theorem free_of_releaseClaim (coherent : s.Coherent) {pid : Pid} {sid : Sid} {claim : ClaimId}
    {job : Job} (holder : s.holderOf pid claim = some sid) (holds : s.HoldsJob sid claim job)
    : (s.releaseClaim pid claim).unavailable job = false := by
  obtain ⟨claimed, known, -⟩ := holds.claimed coherent
  obtain ⟨session, entry, found, held, rfl⟩ := holds
  simp only [Scheduler.releaseClaim, holder, Scheduler.popJob, found, held, Option.bind_eq_bind,
    Option.bind_some, Option.pure_def]
  exact free_of_release (Option.isSome_iff_exists.mpr ⟨claimed, known⟩)

theorem sessions_releaseClaim (s : Scheduler) (pid : Pid) (claim : ClaimId)
    : (s.releaseClaim pid claim).sessions = s.sessions
      ∨ ∃ sid, (s.releaseClaim pid claim).sessions = s.sessions.modify sid (fun session =>
        { session with
          jobs := session.jobs.erase claim
          order := session.order.filter (· ≠ claim)
        }) := by
  have kept : ∀ (t : Scheduler) job, (t.release job true).sessions = t.sessions := by
    intro t job
    unfold Scheduler.release
    split <;> rfl
  unfold Scheduler.releaseClaim
  split
  · exact .inl rfl
  · split
    · exact .inl rfl
    case _ sid _ _ entry popped pops =>
        simp only [Scheduler.popJob, Option.bind_eq_bind, Option.bind_eq_some_iff,
          Option.pure_def, Option.some.injEq, Prod.mk.injEq] at pops
        obtain ⟨session, -, entry', -, -, rfl⟩ := pops
        exact .inr ⟨sid, kept _ _⟩

theorem holderOf_releaseClaim (s : Scheduler) (pid : Pid) {claim other : ClaimId}
    (differs : other ≠ claim)
    : (s.releaseClaim pid claim).holderOf pid other = s.holderOf pid other
      ∧ ∀ sid job, s.HoldsJob sid other job → (s.releaseClaim pid claim).HoldsJob sid other job := by
  obtain same | ⟨changed, same⟩ := sessions_releaseClaim s pid claim
  · constructor
    · simp only [holderOf, same]
    · intro sid job holds
      obtain ⟨session, entry, found, held, ofJob⟩ := holds
      exact ⟨session, entry, same ▸ found, held, ofJob⟩
  · constructor
    · simp only [holderOf, same, OrderedMap.modify, List.find?_map, Option.map_map]
      have reads : ∀ entry : Sid × Session,
          ((fun entry : Sid × Session => entry.2.pid = pid && entry.2.jobs.contains other)
            ∘ fun entry => if entry.1 = changed then (entry.1, { entry.2 with
              jobs := entry.2.jobs.erase claim
              order := entry.2.order.filter (· ≠ claim)
            }) else entry) entry
          = (entry.2.pid = pid && entry.2.jobs.contains other) := by
        intro entry
        by_cases here : entry.1 = changed <;> simp [here, OrderedMap.contains, differs]
      rw [funext reads]
      congr 1
      funext entry
      by_cases here : entry.1 = changed <;> simp [here]
    · intro sid job holds
      obtain ⟨session, entry, found, held, ofJob⟩ := holds
      by_cases here : sid = changed
      · refine ⟨{ session with
          jobs := session.jobs.erase claim
          order := session.order.filter (· ≠ claim)
        }, entry, ?_, ?_, ofJob⟩
        · rw [same, OrderedMap.get?_modify, if_pos here, found]
          rfl
        · simp [differs, held]
      · refine ⟨session, entry, ?_, held, ofJob⟩
        rw [same, OrderedMap.get?_modify, if_neg here, found]

theorem free_of_releaseClaims {pid : Pid} {sid : Sid} {claim : ClaimId} {job : Job}
    (claims : List ClaimId)
    : ∀ {s : Scheduler}, s.Coherent → claim ∈ claims → s.holderOf pid claim = some sid
      → s.HoldsJob sid claim job
      → (claims.foldl (fun s claim => s.releaseClaim pid claim) s).unavailable job = false := by
  induction claims with
  | nil => exact fun _ named => absurd named List.not_mem_nil
  | cons first rest ih =>
      intro s coherent named holder holds
      rw [List.foldl_cons]
      by_cases same : claim = first
      · subst same
        exact (Unblamed.releaseClaims _ pid rest).free (free_of_releaseClaim coherent holder holds)
      · obtain ⟨stays, still⟩ := holderOf_releaseClaim s pid same
        have later := (List.mem_cons.mp named).resolve_left same
        exact ih (coherent.releaseClaim pid first) later (stays.trans holder) (still sid job holds)

theorem Unblamed.released (s : Scheduler) (pid : Pid) (claims : List ClaimId)
    : Unblamed s (s.released pid claims) := by
  have back := Unblamed.releaseClaims s pid claims
  unfold Scheduler.released
  dsimp only
  split
  · exact back.trans ⟨rfl, rfl, rfl, rfl, fun _ => .inl ⟨rfl, .rfl⟩⟩
  · exact back

theorem free_of_released (coherent : s.Coherent) {pid : Pid} {sid : Sid} {claim : ClaimId}
    {job : Job} {claims : List ClaimId} (named : claim ∈ claims)
    (holder : s.holderOf pid claim = some sid) (holds : s.HoldsJob sid claim job)
    : (s.released pid claims).unavailable job = false := by
  have freed := free_of_releaseClaims claims coherent named holder holds
  unfold Scheduler.released
  dsimp only
  split <;> exact freed

-- The end of a session, and of everything

theorem sessions_endSession (coherent : s.Coherent) (sid : Sid) (killed : Bool)
    : (s.endSession env sid killed).sessions.get? sid = none := by
  cases found : s.sessions.get? sid with
  | none => simp [Scheduler.endSession, found]
  | some session =>
      obtain ⟨slots, next, -, books⟩ := books_endSession env coherent found killed
      have closed : (s.endSession env sid killed).ledger.sessions sid = none := by
        rw [show (s.endSession env sid killed).ledger = _ from congrArg Prod.fst books]
        simp [Ledger.relay, Ledger.close, Ledger.leave, Ledger.free, ledger, found]
      exact Option.map_eq_none_iff.mp closed

theorem free_of_endSession (coherent : s.Coherent) {sid : Sid} {killed : Bool}
    (ends : s.EndsUnblamed sid killed) {job : Job} {claimed : Claimed}
    (found : s.claims.get? job = some claimed) (ofSession : claimed.sid = some sid)
    (unsettled : claimed.settling = false)
    : (s.endSession env sid killed).unavailable job = false := by
  apply (Unblamed.endSession env ends).free_of_claimed found
  intro still
  obtain ⟨sid', session, -, ofSession', open_, -⟩ :=
    registered_of_claimed (coherent.endSession env sid killed) still unsettled
  obtain rfl := Option.some.inj (ofSession.symm.trans ofSession')
  rw [sessions_endSession env coherent] at open_
  exact absurd open_ nofun

theorem linked_dropProcessor (s : Scheduler) (pid asked : Pid)
    : (s.dropProcessor env pid).ledger.linked asked
      = if asked = pid then none else s.ledger.linked asked := by
  unfold Scheduler.dropProcessor
  cases found : s.machines.get? pid with
  | none =>
      dsimp only
      split
      case isTrue same => simp [ledger, same, found]
      case isFalse => rfl
  | some machine =>
      have books := (books_benchMachineLeft (s.vacate pid) env machine.name).trans
        (books_vacate s pid)
      have left : ((s.vacate pid).benchMachineLeft env machine.name).ledger.linked asked
          = (s.ledger.drop pid).linked asked :=
        congrArg (fun books => books.1.linked asked) books
      exact left.trans (Function.update_apply ..)

theorem linked_dropProcessors (pids : List Pid) (asked : Pid)
    : ∀ s : Scheduler, asked ∈ pids ∨ s.ledger.linked asked = none
      → (s.dropProcessors env pids).ledger.linked asked = none := by
  induction pids with
  | nil => exact fun s unlinked => unlinked.resolve_left List.not_mem_nil
  | cons pid rest ih =>
      intro s unlinked
      apply ih (s.dropProcessor env pid)
      rw [linked_dropProcessor]
      by_cases same : asked = pid
      · exact .inr (if_pos same)
      · rw [if_neg same]
        exact unlinked.imp_left (fun named => (List.mem_cons.mp named).resolve_left same)

theorem Unblamed.stop (s : Scheduler)
    : Unblamed { s with stopping := true } (s.stop env) := by
  have kills : ∀ (s : Scheduler) (sid : Sid), s.stopping = true
      → Unblamed s (s.killSession env sid none)
        ∧ (s.killSession env sid none).stopping = true := by
    intro s sid stopping
    have marked : Unblamed s (s.changeSession sid (fun session =>
        { session with fatalError := (none : Option String).or session.fatalError })) :=
      ⟨rfl, rfl, rfl, rfl, fun _ => .inl ⟨rfl, .rfl⟩⟩
    have killed : Unblamed s (s.killSession env sid none) :=
      marked.trans (Unblamed.endSession env (fun _ _ => .inr (.inr ⟨stopping, rfl⟩)))
    exact ⟨killed, killed.stopping.trans stopping⟩
  have drops : ∀ (s : Scheduler) (pid : Pid), s.stopping = true
      → Unblamed s (s.dropProcessor env pid) ∧ (s.dropProcessor env pid).stopping = true := by
    intro s pid stopping
    have dropped : Unblamed s (s.dropProcessor env pid) :=
      Unblamed.dropProcessor env (fun _ _ => .inr (.inl stopping))
    exact ⟨dropped, dropped.stopping.trans stopping⟩
  have stopping : { s with stopping := true }.stopping = true := rfl
  obtain ⟨killed, still⟩ :=
    Unblamed.foldl (fun s : Scheduler => s.stopping = true) kills s.sessions.keys stopping
  exact killed.trans (Unblamed.foldl (fun s : Scheduler => s.stopping = true) drops _ still).1

theorem free_of_stop (coherent : s.Coherent) {job : Job} {claimed : Claimed}
    (found : s.claims.get? job = some claimed) (unsettled : claimed.settling = false)
    : (s.stop env).unavailable job = false := by
  apply (Unblamed.stop env s).free_of_claimed found
  intro still
  obtain ⟨-, -, machine, -, -, -, registered⟩ :=
    registered_of_claimed (coherent.stop env) still unsettled
  have unlinked : (s.stop env).ledger.linked claimed.pid = none := by
    unfold Scheduler.stop
    dsimp only
    generalize s.sessions.keys.foldl _ _ = killed
    apply linked_dropProcessors
    rw [OrderedMap.mem_keys_iff]
    cases known : killed.machines.get? claimed.pid with
    | none => exact .inr (by simp [ledger, known])
    | some machine => exact .inl ⟨machine, rfl⟩
  simp [ledger, registered] at unlinked

-- Leaving

/-- What is recorded against volumes and machines. -/
def records (s : Scheduler)
    : Object × OrderedMap (String × String) ℕ × OrderedMap (String × String) StartBackoff :=
  (s.failures, s.strikes, s.startBackoff)

theorem Unblamed.records (left : Unblamed s s')
    : s'.records = s.records := by
  simp only [Scheduler.records, left.failures, left.strikes, left.startBackoff]

/-- After every run, a drop, the claims a machine gives back, the end of a session on a
machine that is gone or paused and the server's end record nothing, and free the volumes
concerned that no helper thread works on. Only a drop that ends the line of benchmarks that
held its machine, and so may begin a scan, can forget records and strikes.
-/
theorem leaving_blames_nobody (reachable : Reachable s) (env : Env)
    : (∀ pid, (s.dropProcessor env pid).failures.Sublist s.failures
        ∧ (∀ key count, (s.dropProcessor env pid).strikes.get? key = some count
          → s.strikes.get? key = some count)
        ∧ (s.dropProcessor env pid).startBackoff = s.startBackoff
        ∧ ((∀ machine, s.machines.get? pid = some machine → s.LeavesQuietly machine.name)
          → (s.dropProcessor env pid).records = s.records)
        ∧ ∀ job claimed, s.claims.get? job = some claimed → claimed.pid = pid
          → claimed.settling = false → (s.dropProcessor env pid).unavailable job = false)
      ∧ (∀ pid claims, (s.released pid claims).records = s.records
        ∧ ∀ claim ∈ claims, ∀ sid job, s.holderOf pid claim = some sid
          → s.HoldsJob sid claim job → (s.released pid claims).unavailable job = false)
      ∧ (∀ sid session killed, s.sessions.get? sid = some session
        → s.machines.get? session.pid = none ∨ s.machinePaused session.pid = true
        → (s.endSession env sid killed).records = s.records
          ∧ ∀ job claimed, s.claims.get? job = some claimed → claimed.sid = some sid
            → claimed.settling = false → (s.endSession env sid killed).unavailable job = false)
      ∧ (s.stop env).records = s.records
      ∧ ∀ job claimed, s.claims.get? job = some claimed → claimed.settling = false
        → (s.stop env).unavailable job = false := by
  have coherent := reachable.coherent
  refine ⟨?_, ?_, ?_, ?_, ?_⟩
  · intro pid
    have forgiven := Forgiven.dropProcessor env s pid
    refine ⟨forgiven.failures, forgiven.strikes, forgiven.startBackoff, ?_, ?_⟩
    · exact fun quiet => (Unblamed.dropProcessor env quiet).records
    · exact fun job claimed found ofPid unsettled =>
        free_of_dropProcessor env coherent found ofPid unsettled
  · intro pid claims
    refine ⟨(Unblamed.released s pid claims).records, ?_⟩
    intro claim named sid job holder holds
    exact free_of_released coherent named holder holds
  · intro sid session killed found gone
    have ends : s.EndsUnblamed sid killed := by
      intro other open_
      obtain rfl := Option.some.inj (found.symm.trans open_)
      exact gone.imp_right .inl
    refine ⟨(Unblamed.endSession env ends).records, ?_⟩
    exact fun job claimed found ofSession unsettled =>
      free_of_endSession env coherent ends found ofSession unsettled
  · exact (Unblamed.stop env s).records
  · exact fun job claimed found unsettled => free_of_stop env coherent found unsettled

/-- The volume being read is free once the server stops. -/
theorem read_volume_free_after_stop
    : (reading.stop openWorld).records = reading.records
      ∧ (reading.stop openWorld).unavailable ⟨"A/1.cbz", "g", false⟩ = false := by
  have held : (reading.claims.get? ⟨"A/1.cbz", "g", false⟩).map Claimed.settling = some false := by
    decide +kernel
  obtain ⟨claimed, found, unsettled⟩ := Option.map_eq_some_iff.mp held
  obtain ⟨-, -, -, records, frees⟩ := leaving_blames_nobody reading_reachable openWorld
  exact ⟨records, frees _ claimed found unsettled⟩

/-- The record of a volume that failed once. -/
def failedOnce : Object :=
  [("A/1.cbz@g", .obj [
    ("series", .str "A"),
    ("volume", .str "1"),
    ("generation", .str "base")
  ])]

def benchmarking : Scheduler :=
  (((((new baseSettings failedOnce).handle openWorld (.localUp ["hayai-nova"] "1")).handle
    openWorld (.register helper)).handle openWorld (.socketOpen (.remote 0) "ann")).handle
    openWorld (.benchEnqueue {
      key := "g"
      processor := "helper"
    }))

theorem benchmarking_reachable : Reachable benchmarking := by
  unfold benchmarking
  apply Reachable.handle
  · apply Reachable.handle
    · apply Reachable.handle
      · exact (Reachable.start _ _).handle openWorld trivial
      · trivial
    · trivial
  · trivial

/-- When the helper leaves after the archive did, a scan begins and forgets the record. -/
theorem drop_may_forget_a_record
    : ¬ ∀ s : Scheduler, Reachable s → ∀ env pid,
        (s.dropProcessor env pid).records = s.records := by
  intro claimed
  have same := claimed benchmarking benchmarking_reachable
    { openWorld with archiveExists := fun _ _ => false } (.remote 0)
  have forgotten : (benchmarking.dropProcessor
      { openWorld with archiveExists := fun _ _ => false } (.remote 0)).failures.length = 0
      ∧ benchmarking.failures.length = 1 := by
    decide +kernel
  have lengths := congrArg (fun records => records.1.length) same
  exact absurd (forgotten.1.symm.trans (lengths.trans forgotten.2)) Nat.zero_ne_one

end Scheduler

end MokuroBunko.Server
