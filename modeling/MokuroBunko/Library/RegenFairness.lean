import MokuroBunko.Lib.Runs
import MokuroBunko.Library.RegenProgress

/-! A run that goes on, in which the clock goes on and every task and the metadata thread get their
turns, begins a pass for everything that was called for.
-/

namespace MokuroBunko.Library.Regen

open MokuroBunko.Lib

variable {env : Env} {s next : State} {target : Target} {taken : Step} {generation : ℕ}

/-- What a step calls for. -/
def Env.asks (env : Env) : Step → Option Target
  | .scheduleRegeneration _ => some .full
  | .scheduleSeriesRegeneration seriesTitle _ => some (.series (env.titleKey seriesTitle))
  | _ => none

/-- The task whose turn it is. -/
def Step.turn : Step → Option ℕ
  | .poll generation => some generation
  | .wake generation => some generation
  | .fire generation => some generation
  | .enqueue generation => some generation
  | .notify generation => some generation
  | _ => none

/-- The turn a task waits for. -/
def Phase.awaits (generation : ℕ) : Phase → Step
  | .spawned => .poll generation
  | .sleeping _ => .wake generation
  | .woken => .fire generation
  | .firing _ => .enqueue generation
  | .queued => .notify generation

-- Tasks between their turns

theorem State.step_idle {task : Task} (there : s.tasks generation = some task)
    (turn : taken.turn = some generation) (other : taken ≠ task.phase.awaits generation)
    : s.step env taken = s := by
  obtain ⟨target, called, wait, phase⟩ := task
  cases taken with
  | poll own =>
      obtain rfl := Option.some.inj turn
      cases phase with
      | spawned => exact absurd rfl other
      | _ => simp [State.step, State.poll, there]
  | wake own =>
      obtain rfl := Option.some.inj turn
      cases phase with
      | sleeping since => exact absurd rfl other
      | _ => simp [State.step, State.wake, there]
  | fire own =>
      obtain rfl := Option.some.inj turn
      cases phase with
      | woken => exact absurd rfl other
      | _ => simp [State.step, State.fire, there]
  | enqueue own =>
      obtain rfl := Option.some.inj turn
      cases phase with
      | firing title => exact absurd rfl other
      | _ => simp [State.step, State.enqueue, there]
  | notify own =>
      obtain rfl := Option.some.inj turn
      cases phase with
      | queued => exact absurd rfl other
      | _ => simp [State.step, State.notify, there]
  | _ => cases turn

/-- The slot's own task, which no call for another target replaces. -/
def State.Spares (env : Env) (s : State) (taken : Step) (generation : ℕ) (task : Task) : Prop :=
  ∃ slot, s.timers.slot task.target = some slot ∧ slot.task = some generation
    ∧ env.asks taken ≠ some task.target

theorem State.step_tasks (ok : TimersOk s) {task : Task} (there : s.tasks generation = some task)
    (spared : task.Armed → s.Spares env taken generation task)
    (going : (s.step env taken).timers.stopped = false) (other : taken.turn ≠ some generation)
    : (s.step env taken).tasks generation = some task := by
  have called (asked : Target) (title : String) (delay : Option ℕ)
      (asks : env.asks taken = some asked)
      : (s.schedule env asked title delay).tasks generation = some task := by
    by_cases armed : task.Armed
    · obtain ⟨slot, found, held, differ⟩ := spared armed
      have differ : task.target ≠ asked := fun same => differ (same ▸ asks)
      obtain ⟨fresh, kept⟩ := ok.abort_other differ found held
      unfold State.schedule
      split_ifs
      · exact there
      · exact (Function.update_of_ne fresh _ _).trans (kept.trans there)
    · exact (schedule_tasks ok asked title delay armed).mpr there
  have set {own : ℕ} (differ : some own ≠ some generation) (moved : Option Task)
      : (s.setTask own moved).tasks generation = some task :=
    (s.setTask_other (fun same => differ (congrArg some same.symm)) moved).trans there
  cases taken with
  | pass elapsed => exact there
  | scheduleRegeneration delay => exact called .full "" delay rfl
  | scheduleSeriesRegeneration title delay => exact called _ title delay rfl
  | poll own =>
      rw [State.step, State.poll]
      split
      · exact set other _
      · exact there
  | wake own =>
      rw [State.step, State.wake]
      split
      · split_ifs
        · exact set other _
        · exact there
      · exact there
  | fire own =>
      rw [State.step, State.fire]
      split
      · split_ifs
        · exact set other _
        · exact set other _
      · exact there
  | enqueue own =>
      rw [State.step, State.enqueue]
      split
      · split_ifs
        · exact set other _
        · exact set other _
      · exact there
  | notify own =>
      rw [State.step, State.notify]
      split
      · exact set other _
      · exact there
  | work => exact (congrFun (s.work_frame env).2.1 generation).trans there
  | timeout => exact (congrFun (TimersOk.timeout_frame s).2.1 generation).trans there
  | stopTimers => exact absurd going.symm Bool.false_ne_true
  | stopWorker => exact (congrFun (TimersOk.stopWorker_frame s).2.1 generation).trans there

theorem State.step_kept (ok : TimersOk s) {task : Task} (there : s.tasks generation = some task)
    (spared : task.Armed → s.Spares env taken generation task)
    (going : (s.step env taken).timers.stopped = false)
    (other : taken ≠ task.phase.awaits generation)
    : (s.step env taken).tasks generation = some task := by
  by_cases turn : taken.turn = some generation
  · rw [State.step_idle there turn other]
    exact there
  · exact State.step_tasks ok there spared going turn

theorem State.step_slot (ok : TimersOk s) {slot : Slot} (found : s.timers.slot target = some slot)
    (held : slot.task = some generation) (calls : env.asks taken ≠ some target)
    (going : (s.step env taken).timers.stopped = false) (other : taken ≠ .fire generation)
    : (s.step env taken).timers.slot target = some slot := by
  have called (asked : Target) (title : String) (delay : Option ℕ)
      (asks : env.asks taken = some asked)
      : (s.schedule env asked title delay).timers.slot target = some slot := by
    have differ : target ≠ asked := fun same => calls (same ▸ asks)
    unfold State.schedule
    split_ifs
    · exact found
    · exact (Timers.slot_arm_other differ).trans found
  have same {timers : Timers} (unchanged : timers = s.timers) : timers.slot target = some slot :=
    unchanged ▸ found
  cases taken with
  | pass elapsed => exact found
  | scheduleRegeneration delay => exact called .full "" delay rfl
  | scheduleSeriesRegeneration title delay => exact called _ title delay rfl
  | poll own =>
      rw [State.step, State.poll]
      split <;> exact found
  | wake own =>
      rw [State.step, State.wake]
      split
      · split_ifs <;> exact found
      · exact found
  | fire own =>
      rw [State.step, State.fire]
      split
      case h_2 => exact found
      case h_1 fired called wait there =>
        split_ifs with stale
        · exact found
        · refine (Timers.slot_disarm_other ?_).trans found
          rintro rfl
          have current := not_not.mp (not_or.mp stale).2
          rw [found, Option.map_some, (ok.handle target slot generation found held).1] at current
          exact other (congrArg Step.fire (Option.some.inj current).symm)
  | enqueue own =>
      rw [State.step, State.enqueue]
      split
      · split_ifs <;> exact found
      · exact found
  | notify own =>
      rw [State.step, State.notify]
      split <;> exact found
  | work => exact same (s.work_frame env).1
  | timeout => exact same (TimersOk.timeout_frame s).1
  | stopTimers => exact absurd going.symm Bool.false_ne_true
  | stopWorker => exact same (TimersOk.stopWorker_frame s).1

-- What is in the queue

/-- The step begins a pass that covers the target. -/
def Begins (env : Env) (s next : State) (target : Target) : Prop :=
  ∃ added work, next.log = s.log ++ added ∧ .started work ∈ added ∧ env.Covers work target

/-- The gap to the last batch is over. -/
def State.PastGap (env : Env) (s : State) : Prop :=
  ∀ last, s.queue.lastBatch = some last → last + env.batchGap ≤ s.now

/-- The thread looks at the queue when its turn comes. -/
def State.Ready (s : State) : Prop :=
  s.worker = some .starting ∨ (∃ work, s.worker = some (.working work)) ∨ s.worker = some .awake

theorem State.nextWork_takes (titles : TitlesOk env s) (going : ¬s.queue.stopped = true)
    (holds : s.queue.Holds target)
    : Begins env s (s.nextWork env) target
      ∨ (s.nextWork env).queue = s.queue ∧ ¬s.PastGap env := by
  unfold State.nextWork
  rw [if_neg going]
  split_ifs with full empty
  · exact .inl ⟨_, .full, rfl, List.mem_singleton_self _, trivial⟩
  · cases target with
    | full => exact absurd holds full
    | series key =>
        obtain ⟨title, found⟩ := holds
        have member := OrderedMap.mem_entries_iff.mpr found
        rw [List.isEmpty_iff.mp empty] at member
        cases member
  · split
    case h_1 soon =>
      obtain ⟨found, early⟩ := Option.filter_eq_some_iff.mp soon
      obtain ⟨last, isLast, rfl⟩ := Option.map_eq_some_iff.mp found
      refine .inr ⟨rfl, fun past => ?_⟩
      exact absurd (past last isLast) (by simpa using early)
    case h_2 =>
      cases target with
      | full => exact absurd holds full
      | series key =>
          exact .inl ⟨_, _, rfl, List.mem_singleton_self _, Carries.covers_values titles holds⟩

theorem State.work_takes (titles : TitlesOk env s) (going : ¬s.queue.stopped = true)
    (holds : s.queue.Holds target) (ready : s.Ready)
    : Begins env s (s.work env) target
      ∨ ((s.work env).queue.Holds target ∧ (s.work env).queue.lastBatch = s.queue.lastBatch)
        ∧ ¬s.PastGap env := by
  have from' {start : State} (shown : List Event) (log : start.log = s.log ++ shown)
      (titles : TitlesOk env start) (going : ¬start.queue.stopped = true)
      (now : start.now = s.now) (last : start.queue.lastBatch = s.queue.lastBatch)
      (holds : start.queue.Holds target)
      : Begins env s (start.nextWork env) target
        ∨ ((start.nextWork env).queue.Holds target
            ∧ (start.nextWork env).queue.lastBatch = s.queue.lastBatch) ∧ ¬s.PastGap env := by
    rcases State.nextWork_takes titles going holds with begins | ⟨same, early⟩
    · obtain ⟨added, work, more, begun, covers⟩ := begins
      exact .inl ⟨shown ++ added, work, by rw [more, log, List.append_assoc],
        List.mem_append_right _ begun, covers⟩
    · rw [same]
      exact .inr ⟨⟨holds, last⟩, fun past => early (by rw [PastGap, now, last]; exact past)⟩
  have held : ({ s.queue with running := false } : WorkQueue).Holds target := by
    cases target <;> exact holds
  unfold State.work
  rcases ready with starting | ⟨work, working⟩ | awake
  · rw [starting]
    exact from' [] (List.append_nil _).symm ⟨titles.scheduled, titles.firing, titles.waiting⟩
      going rfl rfl held
  · rw [working]
    exact from' [.finished] rfl ⟨titles.scheduled, titles.firing, titles.waiting⟩
      going rfl rfl held
  · rw [awake]
    exact from' [] (List.append_nil _).symm titles going rfl rfl holds

theorem State.step_queue (holds : s.queue.Holds target) (going : ¬s.queue.stopped = true)
    (open' : (s.step env taken).timers.stopped = false) (other : taken ≠ .work)
    : (s.step env taken).queue.Holds target
      ∧ (s.step env taken).queue.lastBatch = s.queue.lastBatch := by
  cases taken with
  | pass elapsed => exact ⟨holds, rfl⟩
  | scheduleRegeneration delay =>
      rw [State.step, State.scheduleRegeneration, State.schedule]
      split_ifs <;> exact ⟨holds, rfl⟩
  | scheduleSeriesRegeneration title delay =>
      rw [State.step, State.scheduleSeriesRegeneration, State.schedule]
      split_ifs <;> exact ⟨holds, rfl⟩
  | poll own =>
      rw [State.step, State.poll]
      split <;> exact ⟨holds, rfl⟩
  | wake own =>
      rw [State.step, State.wake]
      split
      · split_ifs <;> exact ⟨holds, rfl⟩
      · exact ⟨holds, rfl⟩
  | fire own =>
      rw [State.step, State.fire]
      split
      · split_ifs <;> exact ⟨holds, rfl⟩
      · exact ⟨holds, rfl⟩
  | enqueue own =>
      rw [State.step, State.enqueue]
      split
      case h_2 => exact ⟨holds, rfl⟩
      case h_1 added _ _ title _ =>
        rw [if_neg going]
        exact ⟨Owed.add holds title added, by cases added <;> rfl⟩
  | notify own =>
      rw [State.step, State.notify]
      split <;> exact ⟨holds, rfl⟩
  | work => exact absurd rfl other
  | timeout =>
      rw [State.step, (TimersOk.timeout_frame s).2.2.2]
      exact ⟨holds, rfl⟩
  | stopTimers => exact ⟨holds, rfl⟩
  | stopWorker =>
      have running : ¬s.timers.stopped = true := by simp [State.going_of_step open']
      rw [State.step, State.stopWorker, if_neg running]
      exact ⟨holds, rfl⟩

theorem State.now_le_step : s.now ≤ (s.step env taken).now := by
  cases taken with
  | pass elapsed => exact Nat.le_add_right _ _
  | scheduleRegeneration delay =>
      rw [State.step, State.scheduleRegeneration, State.schedule]
      split_ifs <;> exact le_rfl
  | scheduleSeriesRegeneration title delay =>
      rw [State.step, State.scheduleSeriesRegeneration, State.schedule]
      split_ifs <;> exact le_rfl
  | poll own =>
      rw [State.step, State.poll]
      split <;> exact le_rfl
  | wake own =>
      rw [State.step, State.wake]
      split
      · split_ifs <;> exact le_rfl
      · exact le_rfl
  | fire own =>
      rw [State.step, State.fire]
      split
      · split_ifs <;> exact le_rfl
      · exact le_rfl
  | enqueue own =>
      rw [State.step, State.enqueue]
      split
      · split_ifs <;> exact le_rfl
      · exact le_rfl
  | notify own =>
      rw [State.step, State.notify]
      split <;> exact le_rfl
  | work => exact (s.work_frame env).2.2.ge
  | timeout =>
      rw [State.step, State.timeout]
      split
      · split_ifs <;> exact le_rfl
      · exact le_rfl
  | stopTimers => exact le_rfl
  | stopWorker =>
      rw [State.step, State.stopWorker]
      split_ifs <;> exact le_rfl

-- Runs that go on

/-- The states of a run that goes on. -/
def Env.states (env : Env) (steps : ℕ → Step) : ℕ → State
  | 0 => {}
  | n + 1 => (env.states steps n).step env (steps n)

/-- A turn of a task or of the metadata thread. -/
def Step.IsTurn : Step → Prop
  | .poll _ => True
  | .wake _ => True
  | .fire _ => True
  | .enqueue _ => True
  | .notify _ => True
  | .work => True
  | .timeout => True
  | _ => False

/-- The clock goes on, and so do the tasks and the metadata thread. -/
structure Env.Fair (env : Env) (steps : ℕ → Step) : Prop where
  turns : ∀ turn : Step, turn.IsTurn → Recurs fun n => steps n = turn
  time : ∀ bound, ∃ n, bound ≤ (env.states steps n).now

variable {steps : ℕ → Step}

theorem Env.states_ok (env : Env) (steps : ℕ → Step) (n : ℕ) : RunOk env (env.states steps n) := by
  induction n with
  | zero => exact .init env
  | succ n ih => exact ih.step (steps n)

theorem Env.now_mono (env : Env) (steps : ℕ → Step)
    : Monotone fun n => (env.states steps n).now :=
  monotone_nat_of_le_succ fun _ => State.now_le_step

namespace Env.Fair

theorem turns_after (fair : env.Fair steps) (turn : Step) (isTurn : turn.IsTurn) (bound : ℕ)
    : Recurs fun n => steps n = turn ∧ bound ≤ (env.states steps n).now := by
  intro n
  obtain ⟨late, isLate⟩ := fair.time bound
  obtain ⟨m, after, isIt⟩ := fair.turns turn isTurn (max n late)
  exact ⟨m, (le_max_left n late).trans after, isIt,
    isLate.trans (env.now_mono steps ((le_max_right n late).trans after))⟩

end Env.Fair

/-- The run begins a pass that covers the target at this step. -/
def Env.BeginsAt (env : Env) (steps : ℕ → Step) (target : Target) (n : ℕ) : Prop :=
  Begins env (env.states steps n) (env.states steps (n + 1)) target

section Stages

variable (going : ∀ n, (env.states steps n).timers.stopped = false)
include going

theorem takes (n : ℕ) : ¬(env.states steps n).queue.stopped = true := fun stopped =>
  absurd (((env.states_ok steps n).queue.ordered stopped).symm.trans (going n)) nofun

/-- The thread has work it need not wait for. -/
def Waits (env : Env) (steps : ℕ → Step) (target : Target) (n : ℕ) : Prop :=
  (env.states steps n).queue.Holds target ∧ (env.states steps n).PastGap env

theorem waits_step {n : ℕ} (waits : Waits env steps target n) (other : steps n ≠ .work)
    : Waits env steps target (n + 1)
      ∧ ((env.states steps (n + 1)).worker = (env.states steps n).worker
        ∨ (env.states steps (n + 1)).Ready) := by
  obtain ⟨holds, last⟩ := State.step_queue waits.1 (takes going n) (going (n + 1)) other
  refine ⟨⟨holds, fun batch isLast => ?_⟩, ?_⟩
  · exact (waits.2 batch (last.symm.trans isLast)).trans State.now_le_step
  · rcases State.step_worker env (env.states steps n) other with same | ⟨-, starting | awake⟩
    · exact .inl same
    · exact .inr (.inl starting)
    · exact .inr (.inr (.inr awake))

variable (fair : env.Fair steps)
include fair

theorem ready_leadsTo
    : LeadsTo (fun n => Waits env steps target n ∧ (env.states steps n).Ready)
        (env.BeginsAt steps target) := by
  have turn (n : ℕ) (now : Waits env steps target n ∧ (env.states steps n).Ready)
      (isTurn : steps n = .work)
      : env.BeginsAt steps target n := by
    obtain ⟨⟨holds, past⟩, ready⟩ := now
    have taken : env.states steps (n + 1) = (env.states steps n).work env := by
      rw [Env.states, isTurn, State.step]
    rw [Env.BeginsAt, taken]
    rcases State.work_takes (env.states_ok steps n).titles (takes going n) holds ready
      with begins | ⟨-, early⟩
    · exact begins
    · exact absurd past early
  refine LeadsTo.ensures (fun n now => ?_) (fair.turns .work trivial) turn
  by_cases isTurn : steps n = .work
  · exact .inl (turn n now isTurn)
  · obtain ⟨still, same | ready⟩ := waits_step going now.1 isTurn
    · exact .inr ⟨still, by rw [State.Ready, same]; exact now.2⟩
    · exact .inr ⟨still, ready⟩

theorem waiting_leadsTo (next : ℕ)
    : LeadsTo (fun n => Waits env steps target n
          ∧ (env.states steps n).worker = some (.waiting (some next)))
        (env.BeginsAt steps target) := by
  refine LeadsTo.stage (ready_leadsTo going fair) ?_ (fair.turns_after .timeout trivial next) ?_
  · rintro n ⟨waits, worker⟩
    by_cases isWork : steps n = .work
    · have idle : env.states steps (n + 1) = env.states steps n := by
        rw [Env.states, isWork, State.step, State.work, worker]
      exact .inr (by rw [Waits, idle]; exact ⟨waits, worker⟩)
    · obtain ⟨still, same | ready⟩ := waits_step going waits isWork
      · exact .inr ⟨still, same.trans worker⟩
      · exact .inl (.inr ⟨still, ready⟩)
  · rintro n ⟨waits, worker⟩ ⟨isTurn, late⟩
    have woken : (env.states steps (n + 1)).worker = some .awake := by
      rw [Env.states, isTurn, State.step, State.timeout, worker]
      exact congrArg State.worker (if_pos late)
    exact .inr ⟨(waits_step going waits (by simp [isTurn])).1, .inr (.inr woken)⟩

theorem idle_leadsTo {task : Task} (queued : task.phase = .queued)
    : LeadsTo (fun n => Waits env steps target n
          ∧ ((env.states steps n).worker = none ∨ (env.states steps n).worker = some (.waiting none))
          ∧ (env.states steps n).tasks generation = some task)
        (env.BeginsAt steps target) := by
  have past : ¬task.Armed := by
    rw [Task.Armed, queued]
    exact id
  have told (n : ℕ) (worker : (env.states steps n).worker = none
        ∨ (env.states steps n).worker = some (.waiting none))
      (there : (env.states steps n).tasks generation = some task)
      (isTurn : steps n = .notify generation)
      : (env.states steps (n + 1)).Ready := by
    obtain ⟨target, called, wait, phase⟩ := task
    obtain rfl : phase = .queued := queued
    rw [Env.states, isTurn, State.step, State.notify, there]
    rcases worker with none | waiting
    · exact .inl (by rw [none])
    · exact .inr (.inr (by rw [waiting]))
  refine LeadsTo.stage (ready_leadsTo going fair) ?_ (fair.turns (.notify generation) trivial) ?_
  · rintro n ⟨waits, worker, there⟩
    by_cases isWork : steps n = .work
    · have idle : env.states steps (n + 1) = env.states steps n := by
        rw [Env.states, isWork, State.step, State.work]
        rcases worker with none | waiting
        · rw [none]
        · rw [waiting]
      exact .inr (by rw [Waits, idle]; exact ⟨waits, worker, there⟩)
    · obtain ⟨still, same | ready⟩ := waits_step going waits isWork
      · by_cases isTurn : steps n = .notify generation
        · exact .inl (.inr ⟨still, told n worker there isTurn⟩)
        · refine .inr ⟨still, by rw [same]; exact worker, ?_⟩
          exact State.step_kept (env.states_ok steps n).timers there (fun armed => absurd armed past)
            (going (n + 1)) (by rw [queued]; exact isTurn)
      · exact .inl (.inr ⟨still, ready⟩)
  · rintro n ⟨waits, worker, there⟩ isTurn
    exact .inr ⟨(waits_step going waits (by simp [isTurn])).1, told n worker there isTurn⟩

theorem waits_leadsTo : LeadsTo (Waits env steps target) (env.BeginsAt steps target) := by
  intro n waits
  cases worker : (env.states steps n).worker with
  | none =>
      obtain ⟨generation, task, there, queued⟩ :=
        (env.states_ok steps n).queue.told (going n) target waits.1 (.inl worker)
      exact idle_leadsTo going fair queued n ⟨waits, .inl worker, there⟩
  | some now =>
      cases now with
      | starting => exact ready_leadsTo going fair n ⟨waits, .inl worker⟩
      | working work => exact ready_leadsTo going fair n ⟨waits, .inr (.inl ⟨work, worker⟩)⟩
      | awake => exact ready_leadsTo going fair n ⟨waits, .inr (.inr worker)⟩
      | waiting next =>
          cases next with
          | some next => exact waiting_leadsTo going fair next n ⟨waits, worker⟩
          | none =>
              obtain ⟨generation, task, there, queued⟩ :=
                (env.states_ok steps n).queue.told (going n) target waits.1 (.inr worker)
              exact idle_leadsTo going fair queued n ⟨waits, .inr worker, there⟩
      | exited => exact absurd ((env.states_ok steps n).queue.exited worker) (takes going n)

omit fair in
theorem holds_step {n : ℕ} (holds : (env.states steps n).queue.Holds target)
    : env.BeginsAt steps target n
      ∨ (env.states steps (n + 1)).queue.Holds target
        ∧ (env.states steps (n + 1)).queue.lastBatch = (env.states steps n).queue.lastBatch := by
  by_cases isWork : steps n = .work
  · have taken : env.states steps (n + 1) = (env.states steps n).work env := by
      rw [Env.states, isWork, State.step]
    rw [Env.BeginsAt, taken]
    by_cases ready : (env.states steps n).Ready
    · rcases State.work_takes (env.states_ok steps n).titles (takes going n) holds ready
        with begins | ⟨still, -⟩
      · exact .inl begins
      · exact .inr still
    · obtain ⟨notStarting, notWorking, notAwake⟩ :=
        not_or.mp ready |>.imp_right fun rest => not_or.mp rest
      have idle : (env.states steps n).work env = env.states steps n := by
        unfold State.work
        split
        · exact absurd (by assumption) notStarting
        · exact absurd ⟨_, by assumption⟩ notWorking
        · exact absurd (by assumption) notAwake
        · rfl
      rw [idle]
      exact .inr ⟨holds, rfl⟩
  · exact .inr (State.step_queue holds (takes going n) (going (n + 1)) isWork)

theorem holds_leadsTo
    : LeadsTo (fun n => (env.states steps n).queue.Holds target) (env.BeginsAt steps target) := by
  intro n holds
  -- Until the pass begins the last batch stays what it is, so the gap to it is over some time.
  have past : Recurs fun m => ∀ batch, (env.states steps n).queue.lastBatch = some batch →
      batch + env.batchGap ≤ (env.states steps m).now := by
    intro from'
    cases last : (env.states steps n).queue.lastBatch with
    | none => exact ⟨from', le_rfl, nofun⟩
    | some batch =>
        obtain ⟨late, isLate⟩ := fair.time (batch + env.batchGap)
        refine ⟨max from' late, le_max_left _ _, ?_⟩
        rintro _ ⟨⟩
        exact isLate.trans (env.now_mono steps (le_max_right from' late))
  refine LeadsTo.stage (p := fun m => (env.states steps m).queue.Holds target
      ∧ (env.states steps m).queue.lastBatch = (env.states steps n).queue.lastBatch)
    (waits_leadsTo going fair) ?_ past ?_ n ⟨holds, rfl⟩
  · rintro m ⟨holds, last⟩
    rcases holds_step going holds with begins | ⟨still, same⟩
    · exact .inl (.inl begins)
    · exact .inr ⟨still, same.trans last⟩
  · rintro m ⟨holds, last⟩ over'
    refine (holds_step going holds).imp_right fun ⟨still, same⟩ => ⟨still, fun batch isLast => ?_⟩
    exact (over' batch ((same.trans last).symm.trans isLast)).trans State.now_le_step

theorem firing_leadsTo (generation called wait : ℕ) (title : String)
    : LeadsTo (fun n => (env.states steps n).tasks generation
          = some ⟨target, called, wait, .firing title⟩)
        (env.BeginsAt steps target) := by
  have enters (n : ℕ) (there : (env.states steps n).tasks generation
        = some ⟨target, called, wait, .firing title⟩) (isTurn : steps n = .enqueue generation)
      : (env.states steps (n + 1)).queue.Holds target := by
    rw [Env.states, isTurn, State.step, State.enqueue, there]
    simp only [if_neg (takes going n)]
    exact State.Owed.holds_add _ title target
  refine LeadsTo.stage (holds_leadsTo going fair) (fun n there => ?_)
    (fair.turns (.enqueue generation) trivial) (fun n there isTurn => .inr (enters n there isTurn))
  by_cases isTurn : steps n = .enqueue generation
  · exact .inl (.inr (enters n there isTurn))
  · exact .inr (State.step_kept (env.states_ok steps n).timers there
      (fun armed => absurd armed id) (going (n + 1)) isTurn)

/-- From the start on, the target's timer is not called for anew; here its task stands. -/
structure TimerAt (env : Env) (steps : ℕ → Step) (target : Target) (start generation : ℕ)
    (task : Task) (n : ℕ) : Prop where
  after : start ≤ n
  slot : ∃ slot, (env.states steps n).timers.slot target = some slot ∧ slot.task = some generation
  there : (env.states steps n).tasks generation = some task

variable {start : ℕ} (calls : ∀ n, start ≤ n → env.asks (steps n) ≠ some target)
include calls

omit fair in
theorem TimerAt.kept {task : Task} {n : ℕ} (timer : TimerAt env steps target start generation task n)
    (isTarget : task.target = target) (other : steps n ≠ task.phase.awaits generation)
    : TimerAt env steps target start generation task (n + 1) := by
  obtain ⟨after, ⟨slot, found, held⟩, there⟩ := timer
  refine ⟨Nat.le_succ_of_le after, ⟨slot, ?_, held⟩, ?_⟩
  · by_cases turn : (steps n).turn = some generation
    · rw [Env.states, State.step_idle there turn other]
      exact found
    · refine State.step_slot (env.states_ok steps n).timers found held (calls n after)
        (going (n + 1)) ?_
      intro isFire
      rw [isFire] at turn
      exact turn rfl
  · refine State.step_kept (env.states_ok steps n).timers there (fun _ => ?_) (going (n + 1)) other
    exact ⟨slot, isTarget ▸ found, held, isTarget ▸ calls n after⟩

omit fair in
theorem TimerAt.moved {task next : Task} {n : ℕ}
    (timer : TimerAt env steps target start generation task n) (other : steps n ≠ .fire generation)
    (there : (env.states steps (n + 1)).tasks generation = some next)
    : TimerAt env steps target start generation next (n + 1) := by
  obtain ⟨slot, found, held⟩ := timer.slot
  exact ⟨Nat.le_succ_of_le timer.after, ⟨slot, State.step_slot (env.states_ok steps n).timers found
    held (calls n timer.after) (going (n + 1)) other, held⟩, there⟩

theorem woken_leadsTo (generation called wait : ℕ)
    : LeadsTo (TimerAt env steps target start generation ⟨target, called, wait, .woken⟩)
        (env.BeginsAt steps target) := by
  have fires (n : ℕ)
      (timer : TimerAt env steps target start generation ⟨target, called, wait, .woken⟩ n)
      (isTurn : steps n = .fire generation)
      : ∃ title, (env.states steps (n + 1)).tasks generation
          = some ⟨target, called, wait, .firing title⟩ := by
    obtain ⟨slot, found, held⟩ := timer.slot
    have isOwn := ((env.states_ok steps n).timers.handle target slot generation found held).1
    have fresh : ¬((env.states steps n).timers.stopped = true
        ∨ ((env.states steps n).timers.slot target).map Slot.generation ≠ some generation) := by
      simp [going n, found, isOwn]
    refine ⟨(env.states steps n).timers.title target, ?_⟩
    rw [Env.states, isTurn, State.step, State.fire, timer.there]
    simp only [if_neg fresh]
    exact Function.update_self _ _ _
  have next : LeadsTo (fun n => ∃ title, (env.states steps n).tasks generation
      = some ⟨target, called, wait, .firing title⟩) (env.BeginsAt steps target) := by
    rintro n ⟨title, there⟩
    exact firing_leadsTo going fair generation called wait title n there
  refine LeadsTo.stage next (fun n timer => ?_) (fair.turns (.fire generation) trivial)
    (fun n timer isTurn => .inr (fires n timer isTurn))
  by_cases isTurn : steps n = .fire generation
  · exact .inl (.inr (fires n timer isTurn))
  · exact .inr (timer.kept going calls rfl isTurn)

theorem sleeping_leadsTo (generation called wait since : ℕ)
    : LeadsTo (TimerAt env steps target start generation ⟨target, called, wait, .sleeping since⟩)
        (env.BeginsAt steps target) := by
  have wakes (n : ℕ) (timer : TimerAt env steps target start generation
        ⟨target, called, wait, .sleeping since⟩ n) (isTurn : steps n = .wake generation)
      (late : since + wait ≤ (env.states steps n).now)
      : TimerAt env steps target start generation ⟨target, called, wait, .woken⟩ (n + 1) := by
    refine timer.moved going calls (by simp [isTurn]) ?_
    rw [Env.states, isTurn, State.step, State.wake, timer.there]
    simp only [if_pos late]
    exact State.setTask_self _ _ _
  refine LeadsTo.stage (woken_leadsTo going fair calls generation called wait) (fun n timer => ?_)
    (fair.turns_after (.wake generation) trivial (since + wait))
    (fun n timer isTurn => .inr (wakes n timer isTurn.1 isTurn.2))
  by_cases isTurn : steps n = .wake generation
  · by_cases late : since + wait ≤ (env.states steps n).now
    · exact .inl (.inr (wakes n timer isTurn late))
    · have early : env.states steps (n + 1) = env.states steps n := by
        rw [Env.states, isTurn, State.step, State.wake, timer.there]
        exact if_neg late
      refine .inr ⟨Nat.le_succ_of_le timer.after, ?_, ?_⟩
      · rw [early]
        exact timer.slot
      · rw [early]
        exact timer.there
  · exact .inr (timer.kept going calls rfl isTurn)

theorem spawned_leadsTo (generation called wait : ℕ)
    : LeadsTo (TimerAt env steps target start generation ⟨target, called, wait, .spawned⟩)
        (env.BeginsAt steps target) := by
  have polled (n : ℕ)
      (timer : TimerAt env steps target start generation ⟨target, called, wait, .spawned⟩ n)
      (isTurn : steps n = .poll generation)
      : ∃ since, TimerAt env steps target start generation
          ⟨target, called, wait, .sleeping since⟩ (n + 1) := by
    refine ⟨(env.states steps n).now, timer.moved going calls (by simp [isTurn]) ?_⟩
    rw [Env.states, isTurn, State.step, State.poll, timer.there]
    exact State.setTask_self _ _ _
  have next : LeadsTo (fun n => ∃ since, TimerAt env steps target start generation
      ⟨target, called, wait, .sleeping since⟩ n) (env.BeginsAt steps target) := by
    rintro n ⟨since, timer⟩
    exact sleeping_leadsTo going fair calls generation called wait since n timer
  refine LeadsTo.stage next (fun n timer => ?_) (fair.turns (.poll generation) trivial)
    (fun n timer isTurn => .inr (polled n timer isTurn))
  by_cases isTurn : steps n = .poll generation
  · exact .inl (.inr (polled n timer isTurn))
  · exact .inr (timer.kept going calls rfl isTurn)

theorem owed_leadsTo {n : ℕ} (after : start ≤ n) (owed : (env.states steps n).Owed target)
    : ∃ m, n ≤ m ∧ env.BeginsAt steps target m := by
  cases owed with
  | queued holds => exact holds_leadsTo going fair n holds
  | firing there => exact firing_leadsTo going fair _ _ _ _ n there
  | @armed slot generation found held =>
      obtain ⟨-, ⟨own, called, wait, phase⟩, there, rfl, armed⟩ :=
        (env.states_ok steps n).timers.handle target slot generation found held
      have timer : TimerAt env steps own start generation ⟨own, called, wait, phase⟩ n :=
        ⟨after, ⟨slot, found, held⟩, there⟩
      cases phase with
      | spawned => exact spawned_leadsTo going fair calls _ _ _ n timer
      | sleeping since => exact sleeping_leadsTo going fair calls _ _ _ _ n timer
      | woken => exact woken_leadsTo going fair calls _ _ _ n timer
      | firing title => exact armed.elim
      | queued => exact armed.elim

end Stages

end MokuroBunko.Library.Regen
