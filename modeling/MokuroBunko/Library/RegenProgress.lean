import MokuroBunko.Library.RegenRuns

/-! Every change is followed by a pass that covers it: until that pass starts its timer is armed, or
fired and on its way to the queue, or its work is in the queue. One pass runs at a time.
-/

namespace MokuroBunko.Library.Regen

open MokuroBunko.Lib

variable {env : Env} {s next : State} {target : Target}

-- Work that is owed

/-- A pass for the target is still to come. -/
inductive State.Owed (s : State) (target : Target) : Prop
  | armed {slot : Slot} {generation : ℕ} (found : s.timers.slot target = some slot)
      (held : slot.task = some generation)
  | firing {generation called wait : ℕ} {title : String}
      (there : s.tasks generation = some ⟨target, called, wait, .firing title⟩)
  | queued (holds : s.queue.Holds target)

namespace State.Owed

theorem of_eq (owed : s.Owed target)
    (slots : ∀ slot generation, s.timers.slot target = some slot → slot.task = some generation →
      next.timers.slot target = some slot)
    (queue : s.queue.Holds target → next.queue.Holds target)
    (tasks : ∀ generation called wait title,
      s.tasks generation = some ⟨target, called, wait, .firing title⟩ →
      next.tasks generation = some ⟨target, called, wait, .firing title⟩)
    : next.Owed target := by
  cases owed with
  | armed found held => exact .armed (slots _ _ found held) held
  | firing there => exact .firing (tasks _ _ _ _ there)
  | queued holds => exact .queued (queue holds)

theorem setTask (owed : s.Owed target) {generation : ℕ} {old : Task}
    (there : s.tasks generation = some old) (waits : ∀ title, old.phase ≠ .firing title)
    (task : Option Task)
    : (s.setTask generation task).Owed target := by
  refine owed.of_eq (fun _ _ found _ => found) id fun other called wait title alive => ?_
  refine (s.setTask_other ?_ task).trans alive
  rintro rfl
  obtain rfl := Option.some.inj (alive.symm.trans there)
  exact waits title rfl

theorem poll (owed : s.Owed target) (generation : ℕ) : (s.poll generation).Owed target := by
  unfold State.poll
  split
  case h_1 there => exact owed.setTask there nofun _
  case h_2 => exact owed

theorem wake (owed : s.Owed target) (generation : ℕ) : (s.wake generation).Owed target := by
  unfold State.wake
  split
  case h_1 there =>
    split_ifs
    · exact owed.setTask there nofun _
    · exact owed
  case h_2 => exact owed

theorem fire (owed : s.Owed target) (generation : ℕ) : (s.fire generation).Owed target := by
  unfold State.fire
  split
  case h_2 => exact owed
  case h_1 own called wait there =>
    split_ifs
    · exact owed.setTask there nofun none
    · by_cases same : target = own
      · subst same
        exact .firing (Function.update_self _ _ _)
      · refine (owed.setTask there nofun (some ⟨own, called, wait, .firing _⟩)).of_eq ?_ id
          fun _ _ _ _ alive => alive
        exact fun _ _ found _ => (Timers.slot_disarm_other same).trans found

theorem add {queue : WorkQueue} (holds : queue.Holds target) (title : String) (added : Target)
    : (State.WorkQueue.add queue title added).Holds target := by
  cases added with
  | full =>
      cases target with
      | full => rfl
      | series key => exact holds
  | series own =>
      cases target with
      | full => exact holds
      | series key =>
          obtain ⟨found, there⟩ := holds
          simp only [State.WorkQueue.add, WorkQueue.Holds, OrderedMap.get?_insert]
          split_ifs
          · exact ⟨title, rfl⟩
          · exact ⟨found, there⟩

theorem holds_add (queue : WorkQueue) (title : String) (added : Target)
    : (State.WorkQueue.add queue title added).Holds added := by
  cases added with
  | full => rfl
  | series key => exact ⟨title, by simp [State.WorkQueue.add]⟩

theorem enqueue (owed : s.Owed target) (going : ¬s.queue.stopped = true) (generation : ℕ)
    : (s.enqueue generation).Owed target := by
  unfold State.enqueue
  split
  case h_2 => exact owed
  case h_1 own called wait title there =>
    rw [if_neg going]
    by_cases same : target = own
    · subst same
      exact .queued (holds_add s.queue title target)
    · refine owed.of_eq (fun _ _ found _ => found) (fun holds => add holds title own) ?_
      intro other called' wait' title' alive
      refine (s.setTask_other ?_ _).trans alive
      rintro rfl
      cases alive.symm.trans there
      exact same rfl

theorem notify (owed : s.Owed target) (generation : ℕ) : (s.notify generation).Owed target := by
  unfold State.notify
  split
  case h_1 there =>
    exact (owed.setTask there nofun none).of_eq (fun _ _ found _ => found) id
      fun _ _ _ _ alive => alive
  case h_2 => exact owed

theorem timeout (owed : s.Owed target) : s.timeout.Owed target := by
  obtain ⟨timers, tasks, -, queue⟩ := TimersOk.timeout_frame s
  refine owed.of_eq ?_ ?_ ?_
  · rw [timers]
    exact fun _ _ found _ => found
  · rw [queue]
    exact id
  · rw [tasks]
    exact fun _ _ _ _ alive => alive

theorem of_schedule (going : s.timers.stopped = false) (target : Target) (title : String)
    (delay : Option ℕ)
    : (s.schedule env target title delay).Owed target := by
  unfold State.schedule
  rw [if_neg (by simp [going])]
  exact .armed Timers.slot_arm rfl

theorem schedule (timers : TimersOk s) (owed : s.Owed target) (going : s.timers.stopped = false)
    (asked : Target) (title : String) (delay : Option ℕ)
    : (s.schedule env asked title delay).Owed target := by
  by_cases same : target = asked
  · subst same
    exact of_schedule going target title delay
  · refine owed.of_eq ?_ ?_ ?_
    · intro slot generation found _
      unfold State.schedule
      rw [if_neg (by simp [going])]
      exact (Timers.slot_arm_other same).trans found
    · unfold State.schedule
      split_ifs <;> exact id
    · intro generation called wait found alive
      exact (schedule_tasks timers asked title delay id).mpr alive

end State.Owed

-- What a step carries on

/-- What was owed before the step is owed after it, or a pass that covers it began; and what the step
calls for is owed.
-/
structure Carries (env : Env) (s next : State) (added : List Event) : Prop where
  log : next.log = s.log ++ added
  owed : ∀ target, s.Owed target →
    next.Owed target ∨ ∃ work, .started work ∈ added ∧ env.Covers work target
  called : ∀ target time generation, .called target time generation ∈ added → next.Owed target

namespace Carries

theorem quiet (log : next.log = s.log) (owed : ∀ target, s.Owed target → next.Owed target)
    : Carries env s next [] :=
  ⟨log.trans (List.append_nil _).symm, fun target before => .inl (owed target before), nofun⟩

theorem schedule (timers : TimersOk s) (going : s.timers.stopped = false) (target : Target)
    (title : String) (delay : Option ℕ)
    : Carries env s (s.schedule env target title delay)
      [.called target s.now (s.timers.generation + 1)] := by
  refine ⟨?_, fun other owed => .inl (owed.schedule timers going target title delay), ?_⟩
  · unfold State.schedule
    rw [if_neg (by simp [going])]
  · intro other time generation called
    obtain ⟨rfl, -, -⟩ := Event.called.inj (List.mem_singleton.mp called)
    exact .of_schedule going other title delay

theorem covers_values (titles : TitlesOk env s) {key : String}
    (holds : s.queue.Holds (.series key))
    : env.Covers (.series (s.queue.series.values.insertionSort (· ≤ ·))) (.series key) := by
  obtain ⟨title, found⟩ := holds
  refine List.mem_map.mpr ⟨title, ?_, titles.waiting key title found⟩
  exact (List.perm_insertionSort _ _).mem_iff.mpr (OrderedMap.mem_values_iff.mpr ⟨key, found⟩)

theorem nextWork (titles : TitlesOk env s) (going : ¬s.queue.stopped = true)
    : ∃ added, Carries env s (s.nextWork env) added := by
  unfold State.nextWork
  rw [if_neg going]
  split_ifs with full empty
  · refine ⟨_, rfl, ?_, nofun⟩
    exact fun target _ => .inr ⟨.full, List.mem_singleton_self _, trivial⟩
  · exact ⟨[], quiet rfl fun target owed => owed.of_eq (fun _ _ found _ => found) id
      fun _ _ _ _ alive => alive⟩
  · split
    · exact ⟨[], quiet rfl fun target owed => owed.of_eq (fun _ _ found _ => found) id
        fun _ _ _ _ alive => alive⟩
    · refine ⟨_, rfl, ?_, nofun⟩
      intro target owed
      cases owed with
      | armed found held => exact .inl (.armed found held)
      | firing there => exact .inl (.firing there)
      | queued holds =>
          cases target with
          | full => exact absurd holds full
          | series key =>
              exact .inr ⟨_, List.mem_singleton_self _, covers_values titles holds⟩

theorem work (titles : TitlesOk env s) (going : ¬s.queue.stopped = true)
    : ∃ added, Carries env s (s.work env) added := by
  have begun {start : State} (shown : List Event) (log : start.log = s.log ++ shown)
      (plain : ∀ target time generation, .called target time generation ∉ shown)
      (owed : ∀ target, s.Owed target → start.Owed target) (titles : TitlesOk env start)
      (going : ¬start.queue.stopped = true)
      : ∃ added, Carries env s (start.nextWork env) added := by
    obtain ⟨added, carries⟩ := nextWork titles going
    refine ⟨shown ++ added, by rw [carries.log, log, List.append_assoc], ?_, ?_⟩
    · intro target before
      rcases carries.owed target (owed target before) with still | ⟨work, begun, covers⟩
      · exact .inl still
      · exact .inr ⟨work, List.mem_append_right _ begun, covers⟩
    · intro target time generation called
      rcases List.mem_append.mp called with called | called
      · exact absurd called (plain target time generation)
      · exact carries.called target time generation called
  have same (queue : WorkQueue) (holds : ∀ target, s.queue.Holds target → queue.Holds target)
      (log : List Event) (target : Target) (owed : s.Owed target)
      : ({ s with queue := queue, log := log } : State).Owed target :=
    owed.of_eq (fun _ _ found _ => found) (holds target) fun _ _ _ _ alive => alive
  unfold State.work
  split
  · exact begun [] (List.append_nil _).symm nofun (same _ (fun target => by cases target <;> exact id) _)
      ⟨titles.scheduled, titles.firing, titles.waiting⟩ going
  · exact begun [.finished] rfl nofun (same _ (fun target => by cases target <;> exact id) _)
      ⟨titles.scheduled, titles.firing, titles.waiting⟩ going
  · exact nextWork titles going
  · exact ⟨[], quiet rfl fun _ => id⟩

end Carries

theorem State.step_stopped {taken : Step} (other : taken ≠ .stopTimers)
    : (s.step env taken).timers.stopped = s.timers.stopped := by
  have called (target : Target) (title : String) (delay : Option ℕ)
      : (s.schedule env target title delay).timers.stopped = s.timers.stopped := by
    unfold State.schedule
    split_ifs
    · rfl
    · exact Timers.arm_stopped
  cases taken with
  | pass elapsed => rfl
  | scheduleRegeneration delay => exact called .full "" delay
  | scheduleSeriesRegeneration title delay => exact called _ title delay
  | poll generation =>
      rw [State.step, State.poll]
      split <;> rfl
  | wake generation =>
      rw [State.step, State.wake]
      split
      · split_ifs <;> rfl
      · rfl
  | fire generation =>
      rw [State.step, State.fire]
      split
      · split_ifs
        · rfl
        · exact Timers.disarm_stopped
      · rfl
  | enqueue generation =>
      rw [State.step, State.enqueue]
      split
      · split_ifs <;> rfl
      · rfl
  | notify generation =>
      rw [State.step, State.notify]
      split <;> rfl
  | work => exact congrArg Timers.stopped (s.work_frame env).1
  | timeout => exact congrArg Timers.stopped (TimersOk.timeout_frame s).1
  | stopTimers => exact absurd rfl other
  | stopWorker => exact congrArg Timers.stopped (TimersOk.stopWorker_frame s).1

theorem State.going_of_step {taken : Step} (going : (s.step env taken).timers.stopped = false)
    : s.timers.stopped = false := by
  by_cases isStop : taken = .stopTimers
  · subst isStop
    exact absurd going.symm Bool.false_ne_true
  · exact (State.step_stopped isStop).symm.trans going

theorem Carries.step (timers : TimersOk s) (titles : TitlesOk env s) (queue : QueueOk s)
    (taken : Step) (going : (s.step env taken).timers.stopped = false)
    : ∃ added, Carries env s (s.step env taken) added := by
  have running : s.timers.stopped = false := State.going_of_step going
  have takes : ¬s.queue.stopped = true := fun stopped => by
    rw [queue.ordered stopped] at running
    cases running
  have still {next : State} (log : next.log = s.log)
      (owed : ∀ target, s.Owed target → next.Owed target)
      : ∃ added, Carries env s next added := ⟨[], quiet log owed⟩
  cases taken with
  | pass elapsed =>
      exact still rfl fun _ owed => owed.of_eq (fun _ _ found _ => found) id fun _ _ _ _ alive => alive
  | scheduleRegeneration delay => exact ⟨_, schedule timers running .full "" delay⟩
  | scheduleSeriesRegeneration title delay => exact ⟨_, schedule timers running _ title delay⟩
  | poll generation =>
      refine still ?_ fun _ owed => owed.poll generation
      rw [State.step, State.poll]
      split <;> rfl
  | wake generation =>
      refine still ?_ fun _ owed => owed.wake generation
      rw [State.step, State.wake]
      split
      · split_ifs <;> rfl
      · rfl
  | fire generation =>
      rw [State.step]
      have owed := fun target (owed : s.Owed target) => owed.fire generation
      revert owed
      unfold State.fire
      split
      · split_ifs
        · exact still rfl
        · exact fun owed => ⟨[.fired _ _], rfl, fun target before => .inl (owed target before),
            by simp⟩
      · exact still rfl
  | enqueue generation =>
      refine still ?_ fun _ owed => owed.enqueue takes generation
      rw [State.step, State.enqueue]
      split
      · split_ifs <;> rfl
      · rfl
  | notify generation =>
      refine still ?_ fun _ owed => owed.notify generation
      rw [State.step, State.notify]
      split <;> rfl
  | work => exact work titles takes
  | timeout => exact still (TimersOk.timeout_frame s).2.2.1 fun _ owed => owed.timeout
  | stopTimers => exact absurd going.symm Bool.false_ne_true
  | stopWorker =>
      rw [State.step, State.stopWorker, if_neg (by simp [running])]
      exact still rfl fun _ => id

-- One pass at a time

/-- Every pass that began has finished. -/
def AllFinished (log : List Event) : Prop :=
  ∀ early late work, log = early ++ .started work :: late → .finished ∈ late

/-- A pass begins when those before it have finished. -/
structure PassesOk (s : State) : Prop where
  idle : (∀ work, s.worker ≠ some (.working work)) → AllFinished s.log
  apart : ∀ early late work, s.log = early ++ .started work :: late → AllFinished early

namespace PassesOk

theorem nextWork (finished : AllFinished s.log)
    (apart : ∀ early late work, s.log = early ++ .started work :: late → AllFinished early)
    : PassesOk (s.nextWork env) := by
  have begun {worker : Option Worker} {log : List Event} {work : Work}
      (isWorking : worker = some (.working work)) (added : log = s.log ++ [.started work])
      (next : State) (same : next.worker = worker ∧ next.log = log)
      : PassesOk next := by
    refine ⟨fun idle => absurd (same.1.trans isWorking) (idle work), ?_⟩
    rw [same.2, added]
    intro early late other parts
    rcases LogOk.append_eq_cases parts with ⟨rfl, -⟩ | ⟨rest, -, before⟩
    · exact finished
    · exact apart early rest other before
  unfold State.nextWork
  split_ifs
  · exact ⟨fun _ => finished, apart⟩
  · exact begun rfl rfl _ ⟨rfl, rfl⟩
  · exact ⟨fun _ => finished, apart⟩
  · split
    · exact ⟨fun _ => finished, apart⟩
    · exact begun rfl rfl _ ⟨rfl, rfl⟩

theorem work (ok : PassesOk s) : PassesOk (s.work env) := by
  unfold State.work
  split
  case h_1 starting => exact nextWork (ok.idle (by simp [starting])) ok.apart
  case h_2 =>
    refine nextWork ?_ ?_
    · intro early late work parts
      rcases LogOk.append_eq_cases parts with ⟨-, ⟨⟩⟩ | ⟨rest, rfl, -⟩
      exact List.mem_append_right _ (List.mem_singleton_self _)
    · intro early late work parts
      rcases LogOk.append_eq_cases parts with ⟨-, ⟨⟩⟩ | ⟨rest, -, before⟩
      exact ok.apart early rest work before
  case h_3 awake => exact nextWork (ok.idle (by simp [awake])) ok.apart
  case h_4 => exact ok

theorem shown (ok : PassesOk s) {event : Event} (plain : ∀ work, event ≠ .started work)
    (log : next.log = s.log ++ [event])
    (worker : ∀ work, s.worker = some (.working work) → next.worker = some (.working work))
    : PassesOk next := by
  refine ⟨?_, ?_⟩
  · rw [log]
    intro idle early late work parts
    rcases LogOk.append_eq_cases parts with ⟨-, isStart⟩ | ⟨rest, rfl, before⟩
    · exact absurd isStart.symm (plain work)
    · refine List.mem_append_left _ (ok.idle (fun work working => ?_) early rest work before)
      exact idle work (worker work working)
  · rw [log]
    intro early late work parts
    rcases LogOk.append_eq_cases parts with ⟨-, isStart⟩ | ⟨rest, -, before⟩
    · exact absurd isStart.symm (plain work)
    · exact ok.apart early rest work before

end PassesOk

theorem State.step_log {taken : Step} (other : taken ≠ .work)
    : (s.step env taken).log = s.log
      ∨ ∃ event, (∀ work, event ≠ .started work) ∧ (s.step env taken).log = s.log ++ [event] := by
  have called (target : Target) (title : String) (delay : Option ℕ)
      : (s.schedule env target title delay).log = s.log ∨ ∃ event, (∀ work, event ≠ .started work)
        ∧ (s.schedule env target title delay).log = s.log ++ [event] := by
    unfold State.schedule
    split_ifs
    · exact .inl rfl
    · exact .inr ⟨.called target _ _, by simp, rfl⟩
  cases taken with
  | pass elapsed => exact .inl rfl
  | scheduleRegeneration delay => exact called .full "" delay
  | scheduleSeriesRegeneration title delay => exact called _ title delay
  | poll generation =>
      rw [State.step, State.poll]
      split <;> exact .inl rfl
  | wake generation =>
      rw [State.step, State.wake]
      split
      · split_ifs <;> exact .inl rfl
      · exact .inl rfl
  | fire generation =>
      rw [State.step, State.fire]
      split
      · split_ifs
        · exact .inl rfl
        · exact .inr ⟨.fired _ _, by simp, rfl⟩
      · exact .inl rfl
  | enqueue generation =>
      rw [State.step, State.enqueue]
      split
      · split_ifs <;> exact .inl rfl
      · exact .inl rfl
  | notify generation =>
      rw [State.step, State.notify]
      split <;> exact .inl rfl
  | work => exact absurd rfl other
  | timeout => exact .inl (TimersOk.timeout_frame s).2.2.1
  | stopTimers => exact .inl rfl
  | stopWorker => exact .inl (TimersOk.stopWorker_frame s).2.2

theorem State.work_log (env : Env) (s : State)
    : ∃ shown, (s.work env).log = s.log ++ shown
      ∧ ∀ target generation, Event.fired target generation ∉ shown := by
  have next (start : State) : ∃ shown, (start.nextWork env).log = start.log ++ shown
      ∧ ∀ target generation, Event.fired target generation ∉ shown := by
    unfold State.nextWork
    split_ifs
    · exact ⟨[], (List.append_nil _).symm, nofun⟩
    · exact ⟨[.started .full], rfl, nofun⟩
    · exact ⟨[], (List.append_nil _).symm, nofun⟩
    · split
      · exact ⟨[], (List.append_nil _).symm, nofun⟩
      · exact ⟨[.started (.series _)], rfl, nofun⟩
  unfold State.work
  split
  · exact next _
  · obtain ⟨shown, log, plain⟩ := next { s with
      queue := { s.queue with running := false }
      log := s.log ++ [Event.finished]
    }
    refine ⟨.finished :: shown, by rw [log]; exact List.append_assoc _ _ _, ?_⟩
    exact fun target generation member =>
      plain target generation ((List.mem_cons.mp member).resolve_left nofun)
  · exact next s
  · exact ⟨[], (List.append_nil _).symm, nofun⟩

theorem State.step_worker (env : Env) (s : State) {taken : Step} (other : taken ≠ .work)
    : (s.step env taken).worker = s.worker
      ∨ (s.worker = none ∨ ∃ next, s.worker = some (.waiting next))
        ∧ ((s.step env taken).worker = some .starting ∨ (s.step env taken).worker = some .awake) := by
  cases taken with
  | pass elapsed => exact .inl rfl
  | scheduleRegeneration delay =>
      rw [State.step, State.scheduleRegeneration, State.schedule]
      split_ifs <;> exact .inl rfl
  | scheduleSeriesRegeneration title delay =>
      rw [State.step, State.scheduleSeriesRegeneration, State.schedule]
      split_ifs <;> exact .inl rfl
  | poll generation =>
      rw [State.step, State.poll]
      split <;> exact .inl rfl
  | wake generation =>
      rw [State.step, State.wake]
      split
      · split_ifs <;> exact .inl rfl
      · exact .inl rfl
  | fire generation =>
      rw [State.step, State.fire]
      split
      · split_ifs <;> exact .inl rfl
      · exact .inl rfl
  | enqueue generation =>
      rw [State.step, State.enqueue]
      split
      · split_ifs <;> exact .inl rfl
      · exact .inl rfl
  | notify generation =>
      rw [State.step, State.notify]
      split
      · rcases worker : s.worker with _ | now
        · exact .inr ⟨.inl rfl, .inl rfl⟩
        · cases now with
          | waiting next => exact .inr ⟨.inr ⟨next, rfl⟩, .inr rfl⟩
          | _ => exact .inl rfl
      · exact .inl rfl
  | work => exact absurd rfl other
  | timeout =>
      rw [State.step, State.timeout]
      split
      case h_1 next waiting =>
        split_ifs
        · exact .inr ⟨.inr ⟨some next, waiting⟩, .inr rfl⟩
        · exact .inl rfl
      case h_2 => exact .inl rfl
  | stopTimers => exact .inl rfl
  | stopWorker =>
      rw [State.step, State.stopWorker]
      split_ifs
      · rcases worker : s.worker with _ | now
        · exact .inl rfl
        · cases now with
          | waiting next => exact .inr ⟨.inr ⟨next, rfl⟩, .inr rfl⟩
          | _ => exact .inl rfl
      · exact .inl rfl

theorem PassesOk.step (ok : PassesOk s) (taken : Step) : PassesOk (s.step env taken) := by
  by_cases isWork : taken = .work
  · subst isWork
    exact ok.work
  have worker (work : Work) (working : s.worker = some (.working work))
      : (s.step env taken).worker = some (.working work) := by
    rcases State.step_worker env s isWork with same | ⟨none | ⟨next, waiting⟩, -⟩
    · exact same.trans working
    · cases none.symm.trans working
    · cases waiting.symm.trans working
  rcases State.step_log isWork with same | ⟨event, plain, log⟩
  · refine ⟨?_, by rw [same]; exact ok.apart⟩
    rw [same]
    exact fun idle => ok.idle fun work working => idle work (worker work working)
  · exact ok.shown plain log worker

-- Runs

/-- What holds in every state of a run. -/
structure RunOk (env : Env) (s : State) : Prop where
  timers : TimersOk s
  titles : TitlesOk env s
  queue : QueueOk s
  log : LogOk env s
  passes : PassesOk s

namespace RunOk

theorem init (env : Env) : RunOk env {} where
  timers := by
    refine ⟨fun _ _ => rfl, ?_, ?_, nofun, nofun⟩
    · rintro (_ | key) slot found
      · cases found
        exact le_rfl
      · cases found
    · rintro (_ | key) slot generation found held
      · cases found
        cases held
      · cases found
  titles := ⟨nofun, nofun, nofun⟩
  queue := by
    refine ⟨nofun, nofun, ?_⟩
    rintro - (_ | key) holds
    · cases holds
    · obtain ⟨title, found⟩ := holds
      cases found
  log := by
    refine ⟨fun _ target => .inl ⟨rfl, ?_⟩, ?_⟩
    · intro slot found
      cases target <;> cases found
      exact ⟨rfl, rfl⟩
    · intro early late target generation parts
      simp at parts
  passes := by
    constructor
    · intro _ early late work parts
      simp at parts
    · intro early late work parts
      simp at parts

theorem step (ok : RunOk env s) (taken : Step) : RunOk env (s.step env taken) where
  timers := ok.timers.step env taken
  titles := ok.titles.step ok.timers taken
  queue := ok.queue.step ok.timers taken
  log := ok.log.step ok.timers taken
  passes := ok.passes.step taken

theorem carries (ok : RunOk env s) (taken : Step) (going : (s.step env taken).timers.stopped = false)
    : ∃ added, Carries env s (s.step env taken) added :=
  Carries.step ok.timers ok.titles ok.queue taken going

end RunOk

end MokuroBunko.Library.Regen
