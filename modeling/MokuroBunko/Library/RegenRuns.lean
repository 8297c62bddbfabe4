import MokuroBunko.Library.RegenInvariants

/-! Every change is followed by a pass that covers it: until that pass starts its timer is armed, or
fired and on its way to the queue, or its work is in the queue.
-/

namespace MokuroBunko.Library.Regen

open MokuroBunko.Lib

variable {env : Env} {s : State}

-- Calls that have not fired

/-- The calls of a target since its timer fired, with their times and generations. -/
def nextCalls (target : Target) (calls : List (ℕ × ℕ)) : Event → List (ℕ × ℕ)
  | .called asked time generation =>
      if asked = target then calls ++ [(time, generation)] else calls
  | .fired done _ => if done = target then [] else calls
  | .started _ => calls
  | .finished => calls

def unfired (target : Target) (log : List Event) : List (ℕ × ℕ) :=
  log.foldl (nextCalls target) []

theorem unfired_append (target : Target) (log : List Event) (event : Event)
    : unfired target (log ++ [event]) = nextCalls target (unfired target log) event := by
  rw [unfired, List.foldl_append]
  rfl

/-- The timer of a target whose first call that has not fired, and whose last, were these. -/
structure ArmedFor (env : Env) (s : State) (target : Target) (first : ℕ) (last : ℕ × ℕ) : Prop where
  slot : ∃ slot, s.timers.slot target = some slot ∧ slot.generation = last.2
    ∧ slot.task = some last.2 ∧ slot.debouncer.deadline = some (first + env.policy.maxDebounce)
  task : ∃ task, s.tasks last.2 = some task ∧ task.target = target ∧ task.called = last.1
    ∧ last.1 + task.wait ≤ max (first + env.policy.maxDebounce) last.1

/-- No timer of the target is armed, and the next call begins a cap window. -/
def Unarmed (s : State) (target : Target) : Prop :=
  ∀ slot, s.timers.slot target = some slot → slot.task = none ∧ slot.debouncer = {}

/-- The timers are those of the calls that have not fired, and a timer fires for the last of them. -/
structure LogOk (env : Env) (s : State) : Prop where
  timed : s.timers.stopped = false → ∀ target,
    (unfired target s.log = [] ∧ Unarmed s target)
      ∨ ∃ first last, (unfired target s.log).head?.map Prod.fst = some first
        ∧ (unfired target s.log).getLast? = some last ∧ ArmedFor env s target first last
  fired : ∀ early late target generation, s.log = early ++ .fired target generation :: late →
    ∃ time, (unfired target early).getLast? = some (time, generation)

namespace LogOk

theorem of_eq {next : State} (ok : LogOk env s) (stopped : next.timers.stopped = s.timers.stopped)
    (slots : ∀ target, next.timers.slot target = s.timers.slot target) (log : next.log = s.log)
    (tasks : ∀ target slot generation task, s.timers.slot target = some slot →
      slot.task = some generation → s.tasks generation = some task →
      ∃ moved, next.tasks generation = some moved ∧ moved.target = task.target
        ∧ moved.called = task.called ∧ moved.wait = task.wait)
    : LogOk env next := by
  refine ⟨?_, by rw [log]; exact ok.fired⟩
  rw [stopped, log]
  intro going target
  rcases ok.timed going target with ⟨none, unarmed⟩ | ⟨first, last, isFirst, isLast, armed⟩
  · exact .inl ⟨none, fun slot found => unarmed slot ((slots target).symm.trans found)⟩
  · obtain ⟨slot, found, isOwn, held, deadline⟩ := armed.slot
    obtain ⟨task, there, isTarget, called, wait⟩ := armed.task
    obtain ⟨moved, now, sameTarget, sameCalled, sameWait⟩ :=
      tasks target slot last.2 task found held there
    exact .inr ⟨first, last, isFirst, isLast,
      ⟨slot, (slots target).trans found, isOwn, held, deadline⟩,
      ⟨moved, now, sameTarget.trans isTarget, sameCalled.trans called, sameWait ▸ wait⟩⟩

theorem setTask (timers : TimersOk s) (ok : LogOk env s) {generation : ℕ} {old : Task}
    (there : s.tasks generation = some old) (task : Option Task)
    (kept : (∃ slot, s.timers.slot old.target = some slot ∧ slot.task = some generation) →
      ∃ moved ∈ task, moved.target = old.target ∧ moved.called = old.called
        ∧ moved.wait = old.wait)
    : LogOk env (s.setTask generation task) := by
  refine ok.of_eq rfl (fun _ => rfl) rfl fun target slot other found own held alive => ?_
  by_cases same : other = generation
  · subst same
    obtain rfl := Option.some.inj (alive.symm.trans there)
    obtain ⟨-, task', alive', isTarget, -⟩ := timers.handle target slot other own held
    obtain rfl := Option.some.inj (alive'.symm.trans there)
    obtain ⟨moved, rfl, goesOn⟩ := kept ⟨slot, isTarget ▸ own, held⟩
    exact ⟨moved, s.setTask_self other _, goesOn⟩
  · exact ⟨found, (s.setTask_other same task).trans alive, rfl, rfl, rfl⟩

theorem append_eq_cases {early late log : List Event} {event last : Event}
    (parts : log ++ [last] = early ++ event :: late)
    : (early = log ∧ event = last) ∨ ∃ rest, late = rest ++ [last] ∧ log = early ++ event :: rest := by
  rcases List.eq_nil_or_concat late with rfl | ⟨rest, other, rfl⟩
  · obtain ⟨rfl, same⟩ := List.append_inj' parts rfl
    exact .inl ⟨rfl, (List.singleton_inj.mp same).symm⟩
  · rw [List.concat_eq_append, ← List.cons_append, ← List.append_assoc] at parts
    obtain ⟨rfl, same⟩ := List.append_inj' parts rfl
    exact .inr ⟨rest, by rw [List.concat_eq_append, List.singleton_inj.mp same], rfl⟩

theorem fired_append (ok : LogOk env s) {last : Event}
    (new : ∀ target generation, last = .fired target generation →
      ∃ time, (unfired target s.log).getLast? = some (time, generation))
    : ∀ early late target generation, s.log ++ [last] = early ++ .fired target generation :: late →
      ∃ time, (unfired target early).getLast? = some (time, generation) := by
  intro early late target generation parts
  rcases append_eq_cases parts with ⟨rfl, rfl⟩ | ⟨rest, -, before⟩
  · exact new target generation rfl
  · exact ok.fired early rest target generation before

theorem schedule (timers : TimersOk s) (ok : LogOk env s) (target : Target) (title : String)
    (delay : Option ℕ)
    : LogOk env (s.schedule env target title delay) := by
  unfold State.schedule
  split_ifs with stopped
  · exact ok
  have going : s.timers.stopped = false := by simpa using stopped
  dsimp only [Debouncer.schedule]
  refine ⟨?_, ok.fired_append nofun⟩
  intro _ other
  rw [unfired_append, nextCalls]
  by_cases same : target = other
  · subst same
    rw [if_pos rfl]
    refine .inr ?_
    rcases ok.timed going target with ⟨none, unarmed⟩ | ⟨first, last, isFirst, isLast, armed⟩
    · have fresh : ((s.timers.slot target).getD {}).debouncer = {} := by
        cases found : s.timers.slot target with
        | none => rfl
        | some slot => exact (unarmed slot found).2
      refine ⟨s.now, _, by rw [none]; rfl, List.getLast?_concat, ⟨_, Timers.slot_arm, rfl, rfl, ?_⟩,
        ⟨_, Function.update_self _ _ _, rfl, rfl, ?_⟩⟩
      · rw [fresh]
        rfl
      · rw [fresh]
        simp only [Option.getD_none]
        omega
    · obtain ⟨slot, found, -, -, deadline⟩ := armed.slot
      refine ⟨first, _, ?_, List.getLast?_concat, ⟨_, Timers.slot_arm, rfl, rfl, ?_⟩,
        ⟨_, Function.update_self _ _ _, rfl, rfl, ?_⟩⟩
      · cases calls : unfired target s.log with
        | nil => simp [calls] at isFirst
        | cons call rest => simpa [calls] using isFirst
      · rw [found, Option.getD_some, deadline]
        rfl
      · rw [found, Option.getD_some, deadline]
        simp only [Option.getD_some]
        omega
  · rw [if_neg same]
    have slots (slot : Slot)
        : ({ s.timers with generation := s.timers.generation + 1 }.arm target slot title).slot other
          = s.timers.slot other := Timers.slot_arm_other (Ne.symm same)
    rcases ok.timed going other with ⟨none, unarmed⟩ | ⟨first, last, isFirst, isLast, armed⟩
    · exact .inl ⟨none, fun slot found => unarmed slot ((slots _).symm.trans found)⟩
    · obtain ⟨slot, found, isOwn, held, deadline⟩ := armed.slot
      obtain ⟨task, there, rest⟩ := armed.task
      obtain ⟨differ, kept⟩ := timers.abort_other (Ne.symm same) found held
      exact .inr ⟨first, last, isFirst, isLast,
        ⟨slot, (slots _).trans found, isOwn, held, deadline⟩,
        ⟨task, (Function.update_of_ne differ _ _).trans (kept.trans there), rest⟩⟩

theorem fire (timers : TimersOk s) (ok : LogOk env s) (generation : ℕ)
    : LogOk env (s.fire generation) := by
  unfold State.fire
  split
  case h_2 => exact ok
  case h_1 target called wait there =>
    split_ifs with stale
    · refine ok.setTask timers there none ?_
      rintro ⟨slot, found, held⟩
      rcases stale with stopped | replaced
      · rw [timers.idle stopped target slot found] at held
        cases held
      · refine absurd ?_ replaced
        rw [found, Option.map_some, (timers.handle target slot generation found held).1]
    · obtain ⟨going, current⟩ := not_or.mp stale
      rw [not_not] at current
      have going : s.timers.stopped = false := by simpa using going
      obtain ⟨slot, found, isOwn⟩ := Option.map_eq_some_iff.mp current
      have held := timers.current going generation _ slot there trivial found isOwn
      refine ⟨?_, ok.fired_append ?_⟩
      · intro _ other
        rw [unfired_append, nextCalls]
        by_cases same : target = other
        · subst same
          rw [if_pos rfl]
          exact .inl ⟨rfl, fun left found => ⟨(Timers.slot_disarm found).1,
            (Timers.slot_disarm found).2.1⟩⟩
        · rw [if_neg same]
          have slots := @Timers.slot_disarm_other s.timers target other (Ne.symm same)
          rcases ok.timed going other with ⟨none, unarmed⟩ | ⟨first, last, isFirst, isLast, armed⟩
          · exact .inl ⟨none, fun slot found => unarmed slot (slots.symm.trans found)⟩
          · obtain ⟨slot', found', isOwn', held', deadline⟩ := armed.slot
            obtain ⟨task, there', isTarget, rest⟩ := armed.task
            refine .inr ⟨first, last, isFirst, isLast,
              ⟨slot', slots.trans found', isOwn', held', deadline⟩,
              ⟨task, (Function.update_of_ne ?_ _ _).trans there', isTarget, rest⟩⟩
            intro isIt
            rw [isIt] at there'
            obtain rfl := Option.some.inj (there'.symm.trans there)
            exact same isTarget
      · rintro _ _ ⟨⟩
        rcases ok.timed going target with ⟨-, unarmed⟩ | ⟨first, last, -, isLast, armed⟩
        · rw [(unarmed slot found).1] at held
          cases held
        · obtain ⟨slot', found', isOwn', -⟩ := armed.slot
          obtain rfl := Option.some.inj (found.symm.trans found')
          exact ⟨last.1, by rw [isLast, ← isOwn, isOwn']⟩

theorem setTask_past (timers : TimersOk s) (ok : LogOk env s) {generation : ℕ} {old : Task}
    (there : s.tasks generation = some old) (past : ¬old.Armed) (task : Option Task)
    : LogOk env (s.setTask generation task) := by
  refine ok.setTask timers there task ?_
  rintro ⟨slot, found, held⟩
  obtain ⟨-, task', alive, -, armed⟩ := timers.handle old.target slot generation found held
  obtain rfl := Option.some.inj (alive.symm.trans there)
  exact absurd armed past

theorem poll (timers : TimersOk s) (ok : LogOk env s) (generation : ℕ)
    : LogOk env (s.poll generation) := by
  unfold State.poll
  split
  case h_1 there => exact ok.setTask timers there _ fun _ => ⟨_, rfl, rfl, rfl, rfl⟩
  case h_2 => exact ok

theorem wake (timers : TimersOk s) (ok : LogOk env s) (generation : ℕ)
    : LogOk env (s.wake generation) := by
  unfold State.wake
  split
  case h_1 there =>
    split_ifs
    · exact ok.setTask timers there _ fun _ => ⟨_, rfl, rfl, rfl, rfl⟩
    · exact ok
  case h_2 => exact ok

theorem enqueue (timers : TimersOk s) (ok : LogOk env s) (generation : ℕ)
    : LogOk env (s.enqueue generation) := by
  unfold State.enqueue
  split
  case h_1 there =>
    split_ifs
    · exact ok.setTask_past timers there id none
    · exact (ok.setTask_past timers there id _).of_eq rfl (fun _ => rfl) rfl
        fun _ _ _ task _ _ alive => ⟨task, alive, rfl, rfl, rfl⟩
  case h_2 => exact ok

theorem notify (timers : TimersOk s) (ok : LogOk env s) (generation : ℕ)
    : LogOk env (s.notify generation) := by
  unfold State.notify
  split
  case h_1 there =>
    exact (ok.setTask_past timers there id none).of_eq rfl (fun _ => rfl) rfl
      fun _ _ _ task _ _ alive => ⟨task, alive, rfl, rfl, rfl⟩
  case h_2 => exact ok

theorem pass_shown (ok : LogOk env s) {next : State} {event : Event}
    (timers : next.timers = s.timers) (tasks : next.tasks = s.tasks)
    (log : next.log = s.log ++ [event])
    (isPass : event = .finished ∨ ∃ work, event = .started work)
    : LogOk env next := by
  have same (target : Target) : unfired target next.log = unfired target s.log := by
    rw [log, unfired_append]
    rcases isPass with rfl | ⟨work, rfl⟩ <;> rfl
  have before : LogOk env { next with log := s.log } :=
    ok.of_eq (by rw [timers]) (by simp [timers]) rfl
      fun _ _ _ task _ _ alive => ⟨task, by rw [tasks]; exact alive, rfl, rfl, rfl⟩
  refine ⟨?_, ?_⟩
  · intro going target
    rw [same]
    rcases before.timed going target with unarmed | ⟨first, last, isFirst, isLast, armed⟩
    · exact .inl unarmed
    · exact .inr ⟨first, last, isFirst, isLast, armed.slot, armed.task⟩
  · rw [log]
    refine ok.fired_append ?_
    rcases isPass with rfl | ⟨work, rfl⟩ <;> exact nofun

theorem nextWork (ok : LogOk env s) : LogOk env (s.nextWork env) := by
  have still {next : State} (timers : next.timers = s.timers) (tasks : next.tasks = s.tasks)
      (log : next.log = s.log)
      : LogOk env next :=
    ok.of_eq (by rw [timers]) (by simp [timers]) log
      fun _ _ _ task _ _ alive => ⟨task, by rw [tasks]; exact alive, rfl, rfl, rfl⟩
  unfold State.nextWork
  split_ifs
  · exact still rfl rfl rfl
  · exact ok.pass_shown rfl rfl rfl (.inr ⟨_, rfl⟩)
  · exact still rfl rfl rfl
  · split
    · exact still rfl rfl rfl
    · exact ok.pass_shown rfl rfl rfl (.inr ⟨_, rfl⟩)

theorem step (timers : TimersOk s) (ok : LogOk env s) (taken : Step)
    : LogOk env (s.step env taken) := by
  cases taken with
  | pass elapsed =>
      exact ok.of_eq rfl (fun _ => rfl) rfl fun _ _ _ task _ _ alive => ⟨task, alive, rfl, rfl, rfl⟩
  | scheduleRegeneration delay => exact ok.schedule timers .full "" delay
  | scheduleSeriesRegeneration title delay => exact ok.schedule timers _ title delay
  | poll generation => exact ok.poll timers generation
  | wake generation => exact ok.wake timers generation
  | fire generation => exact ok.fire timers generation
  | enqueue generation => exact ok.enqueue timers generation
  | notify generation => exact ok.notify timers generation
  | work =>
      rw [State.step, State.work]
      split
      · exact nextWork (ok.of_eq rfl (fun _ => rfl) rfl
          fun _ _ _ task _ _ alive => ⟨task, alive, rfl, rfl, rfl⟩)
      · exact nextWork (ok.pass_shown rfl rfl rfl (.inl rfl))
      · exact ok.nextWork
      · exact ok
  | timeout =>
      obtain ⟨same, tasks, log, -⟩ := TimersOk.timeout_frame s
      exact ok.of_eq (by rw [State.step, same]) (by simp [State.step, same]) log
        fun _ _ _ task _ _ alive => ⟨task, by rw [State.step, tasks]; exact alive, rfl, rfl, rfl⟩
  | stopTimers => exact ⟨fun going => absurd going.symm Bool.false_ne_true, ok.fired⟩
  | stopWorker =>
      obtain ⟨same, tasks, log⟩ := TimersOk.stopWorker_frame s
      exact ok.of_eq (by rw [State.step, same]) (by simp [State.step, same]) log
        fun _ _ _ task _ _ alive => ⟨task, by rw [State.step, tasks]; exact alive, rfl, rfl, rfl⟩

end LogOk

end MokuroBunko.Library.Regen
