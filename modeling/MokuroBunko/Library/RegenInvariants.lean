import MokuroBunko.Library.RegenTimers

/-! What every step keeps: a slot's task is alive and its own, a title stays with its key on the whole
way to the queue, and a waiting thread is told of work.
-/

namespace MokuroBunko.Library.Regen

open MokuroBunko.Lib

-- Slots

namespace Timers

variable {timers : Timers} {target other : Target} {slot : Slot} {title : String}

@[simp] theorem arm_stopped : (timers.arm target slot title).stopped = timers.stopped := by
  cases target <;> rfl

@[simp] theorem arm_generation : (timers.arm target slot title).generation = timers.generation := by
  cases target <;> rfl

@[simp] theorem disarm_stopped : (timers.disarm target).stopped = timers.stopped := by
  cases target <;> rfl

@[simp] theorem disarm_generation : (timers.disarm target).generation = timers.generation := by
  cases target <;> rfl

@[simp] theorem slot_arm : (timers.arm target slot title).slot target = some slot := by
  cases target with
  | full => rfl
  | series key => simp [arm, Timers.slot]

theorem slot_arm_other (differ : other ≠ target)
    : (timers.arm target slot title).slot other = timers.slot other := by
  cases target with
  | full =>
      cases other with
      | full => exact absurd rfl differ
      | series key => rfl
  | series key =>
      cases other with
      | full => rfl
      | series found =>
          have keys : found ≠ key := fun same => differ (congrArg Target.series same)
          simp [arm, Timers.slot, keys]

theorem slot_disarm_other (differ : other ≠ target)
    : (timers.disarm target).slot other = timers.slot other := by
  cases target with
  | full =>
      cases other with
      | full => exact absurd rfl differ
      | series key => rfl
  | series key =>
      cases other with
      | full => rfl
      | series found =>
          have keys : found ≠ key := fun same => differ (congrArg Target.series same)
          simp [disarm, Timers.slot, keys]

theorem slot_disarm {left : Slot} (found : (timers.disarm target).slot target = some left)
    : left.task = none ∧ left.debouncer = {}
      ∧ (timers.slot target).map Slot.generation = some left.generation := by
  cases target with
  | full =>
      obtain rfl := Option.some.inj found
      exact ⟨rfl, rfl, rfl⟩
  | series key => simp [disarm, Timers.slot] at found

end Timers

@[simp] theorem State.setTask_self (s : State) (generation : ℕ) (task : Option Task)
    : (s.setTask generation task).tasks generation = task := Function.update_self _ _ _

theorem State.setTask_other (s : State) {generation other : ℕ} (differ : other ≠ generation)
    (task : Option Task)
    : (s.setTask generation task).tasks other = s.tasks other := Function.update_of_ne differ _ _

-- The worker's step

theorem State.nextWork_frame (env : Env) (s : State)
    : (s.nextWork env).timers = s.timers ∧ (s.nextWork env).tasks = s.tasks
      ∧ (s.nextWork env).now = s.now := by
  unfold State.nextWork
  split_ifs
  · exact ⟨rfl, rfl, rfl⟩
  · exact ⟨rfl, rfl, rfl⟩
  · exact ⟨rfl, rfl, rfl⟩
  · split <;> exact ⟨rfl, rfl, rfl⟩

theorem State.work_frame (env : Env) (s : State)
    : (s.work env).timers = s.timers ∧ (s.work env).tasks = s.tasks
      ∧ (s.work env).now = s.now := by
  unfold State.work
  split
  · exact nextWork_frame env _
  · exact nextWork_frame env _
  · exact nextWork_frame env _
  · exact ⟨rfl, rfl, rfl⟩

theorem Task.eq_of_aborted {task left : Task} (kept : task.aborted = some left) : task = left := by
  unfold Task.aborted at kept
  split at kept
  · cases kept
  · cases kept
  · exact Option.some.inj kept

theorem abort_tasks {tasks : ℕ → Option Task} {held : Option ℕ} {generation : ℕ} {task : Task}
    (left : held.elim tasks (fun old => Function.update tasks old ((tasks old).bind Task.aborted))
      generation = some task)
    : tasks generation = some task := by
  cases held with
  | none => exact left
  | some old =>
      rw [Option.elim_some] at left
      by_cases same : generation = old
      · subst same
        rw [Function.update_self] at left
        obtain ⟨before, was, aborted⟩ := Option.bind_eq_some_iff.mp left
        rw [was, Task.eq_of_aborted aborted]
      · exact (Function.update_of_ne same _ _).symm.trans left

theorem stopTimers_tasks {s : State} {generation : ℕ} {task : Task}
    (left : s.stopTimers.tasks generation = some task)
    : s.tasks generation = some task := by
  have all {slots : List Slot} {tasks : ℕ → Option Task}
      (left : slots.foldl (fun tasks slot => slot.task.elim tasks (fun old =>
        Function.update tasks old ((tasks old).bind Task.aborted))) tasks generation = some task)
      : tasks generation = some task := by
    induction slots generalizing tasks with
    | nil => exact left
    | cons slot rest ih => exact abort_tasks (ih left)
  exact abort_tasks (all left)

/-- The task is still a timer. -/
def Task.Armed (task : Task) : Prop :=
  match task.phase with
  | .spawned | .sleeping _ | .woken => True
  | _ => False

-- Timers and their tasks

/-- Each slot's task is alive and its own. -/
structure TimersOk (s : State) : Prop where
  fresh : ∀ generation, s.timers.generation < generation → s.tasks generation = none
  slots : ∀ target slot, s.timers.slot target = some slot → slot.generation ≤ s.timers.generation
  handle : ∀ target slot generation, s.timers.slot target = some slot →
    slot.task = some generation → slot.generation = generation
      ∧ ∃ task, s.tasks generation = some task ∧ task.target = target ∧ task.Armed
  idle : s.timers.stopped = true → ∀ target slot, s.timers.slot target = some slot →
    slot.task = none
  current : s.timers.stopped = false → ∀ generation task slot, s.tasks generation = some task →
    task.Armed → s.timers.slot task.target = some slot → slot.generation = generation →
    slot.task = some generation

namespace TimersOk

variable {s : State}

theorem le_of_task (ok : TimersOk s) {generation : ℕ} {task : Task}
    (there : s.tasks generation = some task)
    : generation ≤ s.timers.generation := by
  by_contra beyond
  rw [ok.fresh generation (by omega)] at there
  cases there

theorem setTask (ok : TimersOk s) {generation : ℕ} {old : Task}
    (there : s.tasks generation = some old) (task : Option Task)
    (kept : old.Armed → (∃ slot, s.timers.slot old.target = some slot ∧ slot.task = some generation) →
      ∃ next ∈ task, next.target = old.target ∧ next.Armed)
    (origin : ∀ next ∈ task, next.Armed → next.target = old.target ∧ old.Armed)
    : TimersOk (s.setTask generation task) := by
  refine ⟨?_, ok.slots, ?_, ok.idle, ?_⟩
  · intro other beyond
    have differ : other ≠ generation := (Nat.lt_of_le_of_lt (ok.le_of_task there) beyond).ne'
    exact (s.setTask_other differ task).trans (ok.fresh other beyond)
  · intro target slot other found own
    obtain ⟨same, held, alive, isTarget, armed⟩ := ok.handle target slot other found own
    refine ⟨same, ?_⟩
    by_cases isIt : other = generation
    · subst isIt
      obtain rfl := Option.some.inj (alive.symm.trans there)
      obtain ⟨next, rfl, goesOn⟩ := kept armed ⟨slot, isTarget ▸ found, own⟩
      exact ⟨next, s.setTask_self other _, goesOn.1.trans isTarget, goesOn.2⟩
    · exact ⟨held, (s.setTask_other isIt task).trans alive, isTarget, armed⟩
  · intro going other next slot alive armed found isOwn
    by_cases isIt : other = generation
    · subst isIt
      rw [State.setTask_self] at alive
      obtain ⟨same, before⟩ := origin next alive armed
      exact ok.current going other old slot there before (same ▸ found) isOwn
    · exact ok.current going other next slot
        ((Function.update_of_ne isIt _ _).symm.trans alive) armed found isOwn

theorem abort_other (ok : TimersOk s) {target other : Target} (differ : other ≠ target)
    {found : Slot} {own : ℕ} (there : s.timers.slot other = some found)
    (held : found.task = some own)
    : own ≠ s.timers.generation + 1
      ∧ ((s.timers.slot target).getD {}).task.elim s.tasks
          (fun old => Function.update s.tasks old ((s.tasks old).bind Task.aborted)) own
        = s.tasks own := by
  obtain ⟨-, task, alive, isTarget, -⟩ := ok.handle other found own there held
  refine ⟨(Nat.lt_succ_of_le (ok.le_of_task alive)).ne, ?_⟩
  cases before : s.timers.slot target with
  | none => rfl
  | some slot =>
      rw [Option.getD_some]
      cases old : slot.task with
      | none => rfl
      | some old =>
          refine Function.update_of_ne ?_ _ _
          rintro rfl
          obtain ⟨-, task', alive', isTarget', -⟩ := ok.handle target slot own before (by assumption)
          obtain rfl := Option.some.inj (alive.symm.trans alive')
          exact differ (isTarget.symm.trans isTarget')

theorem schedule (env : Env) (ok : TimersOk s) (target : Target) (title : String)
    (delay : Option ℕ)
    : TimersOk (s.schedule env target title delay) := by
  unfold State.schedule
  split_ifs with stopped
  · exact ok
  extract_lets slot generation tasks
  constructor
  case fresh =>
    intro other beyond
    simp only [Timers.arm_generation] at beyond
    have differ : other ≠ generation := (show generation < other from beyond).ne'
    refine (Function.update_of_ne differ _ _).trans ?_
    have gone : s.tasks other = none := ok.fresh other (by omega)
    cases left : tasks other with
    | none => exact left
    | some task => exact absurd (gone.symm.trans (abort_tasks left)) nofun
  case slots =>
    intro target' found there
    rw [Timers.arm_generation]
    by_cases same : target' = target
    · subst same
      rw [Timers.slot_arm] at there
      obtain rfl := Option.some.inj there
      exact le_rfl
    · rw [Timers.slot_arm_other same] at there
      exact Nat.le_succ_of_le (ok.slots target' found there)
  case handle =>
    intro target' found own there held
    by_cases same : target' = target
    · subst same
      rw [Timers.slot_arm] at there
      obtain rfl := Option.some.inj there
      obtain rfl := Option.some.inj held
      exact ⟨rfl, _, Function.update_self _ _ _, rfl, trivial⟩
    · rw [Timers.slot_arm_other same] at there
      obtain ⟨differ, kept⟩ := ok.abort_other same there held
      obtain ⟨isOwn, task, alive, rest⟩ := ok.handle target' found own there held
      exact ⟨isOwn, task, (Function.update_of_ne differ _ _).trans (kept.trans alive), rest⟩
  case idle =>
    intro now
    rw [Timers.arm_stopped] at now
    exact absurd now stopped
  case current =>
    intro going own task found alive armed there isOwn
    by_cases same : task.target = target
    · rw [same, Timers.slot_arm] at there
      obtain rfl := Option.some.inj there
      exact congrArg some isOwn
    · rw [Timers.slot_arm_other same] at there
      have differ : own ≠ generation :=
        isOwn ▸ (Nat.lt_succ_of_le (ok.slots task.target found there)).ne
      refine ok.current (by simpa using stopped) own task found ?_ armed there isOwn
      exact abort_tasks ((Function.update_of_ne differ _ _).symm.trans alive)

theorem fire (ok : TimersOk s) (generation : ℕ) : TimersOk (s.fire generation) := by
  unfold State.fire
  split
  case h_2 => exact ok
  case h_1 target called wait there =>
    split_ifs with stale
    · refine ok.setTask there _ (fun _ own => ?_) nofun
      obtain ⟨slot, found, held⟩ := own
      rcases stale with stopped | replaced
      · rw [ok.idle stopped target slot found] at held
        cases held
      · refine absurd ?_ replaced
        rw [found, Option.map_some, (ok.handle target slot generation found held).1]
    · obtain ⟨going, current⟩ := not_or.mp stale
      rw [not_not] at current
      constructor
      case fresh =>
        intro other beyond
        rw [Timers.disarm_generation] at beyond
        have differ : other ≠ generation := (Nat.lt_of_le_of_lt (ok.le_of_task there) beyond).ne'
        exact (Function.update_of_ne differ _ _).trans (ok.fresh other beyond)
      case slots =>
        intro other slot found
        rw [Timers.disarm_generation]
        by_cases same : other = target
        · subst same
          obtain ⟨slot', before, isOld⟩ := Option.map_eq_some_iff.mp (Timers.slot_disarm found).2.2
          exact isOld ▸ ok.slots other slot' before
        · exact ok.slots other slot ((Timers.slot_disarm_other same).symm.trans found)
      case handle =>
        intro other slot own found held
        by_cases same : other = target
        · subst same
          rw [(Timers.slot_disarm found).1] at held
          cases held
        · have before := (Timers.slot_disarm_other same).symm.trans found
          obtain ⟨isOwn, task, alive, isTarget, armed⟩ := ok.handle other slot own before held
          refine ⟨isOwn, task, (Function.update_of_ne ?_ _ _).trans alive, isTarget, armed⟩
          rintro rfl
          obtain rfl := Option.some.inj (alive.symm.trans there)
          exact same isTarget.symm
      case idle =>
        intro now
        rw [Timers.disarm_stopped] at now
        exact absurd now going
      case current =>
        intro still own task slot alive armed found isOwn
        by_cases isIt : own = generation
        · subst isIt
          change Function.update s.tasks own _ own = some task at alive
          rw [Function.update_self] at alive
          obtain rfl := Option.some.inj alive
          exact armed.elim
        · have alive := (Function.update_of_ne isIt _ _).symm.trans alive
          by_cases same : task.target = target
          · rw [same] at found
            have isOld := (Timers.slot_disarm found).2.2
            rw [current] at isOld
            exact absurd (isOwn.symm.trans (Option.some.inj isOld).symm) isIt
          · exact ok.current (by simpa using going) own task slot alive armed
              ((Timers.slot_disarm_other same).symm.trans found) isOwn

theorem poll (ok : TimersOk s) (generation : ℕ) : TimersOk (s.poll generation) := by
  unfold State.poll
  split
  case h_1 there =>
    refine ok.setTask there _ (fun _ _ => ⟨_, rfl, rfl, trivial⟩) ?_
    rintro _ ⟨⟩ -
    exact ⟨rfl, trivial⟩
  case h_2 => exact ok

theorem wake (ok : TimersOk s) (generation : ℕ) : TimersOk (s.wake generation) := by
  unfold State.wake
  split
  case h_1 there =>
    split_ifs
    · refine ok.setTask there _ (fun _ _ => ⟨_, rfl, rfl, trivial⟩) ?_
      rintro _ ⟨⟩ -
      exact ⟨rfl, trivial⟩
    · exact ok
  case h_2 => exact ok

theorem of_eq {next : State} (ok : TimersOk s) (timers : next.timers = s.timers)
    (tasks : next.tasks = s.tasks)
    : TimersOk next :=
  ⟨by rw [timers, tasks]; exact ok.fresh, by rw [timers]; exact ok.slots,
    by rw [timers, tasks]; exact ok.handle, by rw [timers]; exact ok.idle,
    by rw [timers, tasks]; exact ok.current⟩

theorem enqueue (ok : TimersOk s) (generation : ℕ) : TimersOk (s.enqueue generation) := by
  unfold State.enqueue
  split
  case h_1 there =>
    split_ifs
    · exact ok.setTask there none (fun armed => armed.elim) nofun
    · refine (ok.setTask there _ (fun armed => armed.elim) ?_).of_eq rfl rfl
      rintro _ ⟨⟩ armed
      exact armed.elim
  case h_2 => exact ok

theorem notify (ok : TimersOk s) (generation : ℕ) : TimersOk (s.notify generation) := by
  unfold State.notify
  split
  case h_1 there => exact (ok.setTask there none (fun armed => armed.elim) nofun).of_eq rfl rfl
  case h_2 => exact ok

theorem stopTimers (ok : TimersOk s) : TimersOk s.stopTimers := by
  have tasks (target : Target) (slot : Slot) (found : s.stopTimers.timers.slot target = some slot)
      : slot.task = none ∧ slot.generation ≤ s.timers.generation := by
    cases target with
    | full =>
        obtain rfl := Option.some.inj found
        exact ⟨rfl, ok.slots .full s.timers.full rfl⟩
    | series key => cases found
  refine ⟨fun generation beyond => ?_, fun target slot found => (tasks target slot found).2, ?_,
    fun _ target slot found => (tasks target slot found).1,
    fun going => absurd going.symm Bool.false_ne_true⟩
  · cases left : s.stopTimers.tasks generation with
    | none => rfl
    | some task => exact absurd ((ok.fresh generation beyond).symm.trans (stopTimers_tasks left)) nofun
  intro target slot generation found held
  rw [(tasks target slot found).1] at held
  cases held

theorem timeout_frame (s : State)
    : s.timeout.timers = s.timers ∧ s.timeout.tasks = s.tasks ∧ s.timeout.log = s.log
      ∧ s.timeout.queue = s.queue := by
  unfold State.timeout
  split
  · split_ifs <;> exact ⟨rfl, rfl, rfl, rfl⟩
  · exact ⟨rfl, rfl, rfl, rfl⟩

theorem stopWorker_frame (s : State)
    : s.stopWorker.timers = s.timers ∧ s.stopWorker.tasks = s.tasks ∧ s.stopWorker.log = s.log := by
  unfold State.stopWorker
  split_ifs <;> exact ⟨rfl, rfl, rfl⟩

theorem step (env : Env) (ok : TimersOk s) (taken : Step) : TimersOk (s.step env taken) := by
  cases taken with
  | pass elapsed => exact ok.of_eq rfl rfl
  | scheduleRegeneration delay => exact ok.schedule env .full "" delay
  | scheduleSeriesRegeneration title delay => exact ok.schedule env _ title delay
  | poll generation => exact ok.poll generation
  | wake generation => exact ok.wake generation
  | fire generation => exact ok.fire generation
  | enqueue generation => exact ok.enqueue generation
  | notify generation => exact ok.notify generation
  | work => exact ok.of_eq (s.work_frame env).1 (s.work_frame env).2.1
  | timeout => exact ok.of_eq (timeout_frame s).1 (timeout_frame s).2.1
  | stopTimers => exact ok.stopTimers
  | stopWorker => exact ok.of_eq (stopWorker_frame s).1 (stopWorker_frame s).2.1

end TimersOk

-- Tasks past the timers

variable {env : Env} {s : State}

theorem schedule_tasks (ok : TimersOk s) (target : Target) (title : String) (delay : Option ℕ)
    {generation : ℕ} {task : Task} (past : ¬task.Armed)
    : (s.schedule env target title delay).tasks generation = some task
      ↔ s.tasks generation = some task := by
  unfold State.schedule
  split_ifs
  · exact .rfl
  extract_lets slot new tasks
  have kept : tasks generation = some task ↔ s.tasks generation = some task := by
    show slot.task.elim s.tasks _ generation = some task ↔ _
    cases slot.task with
    | none => exact .rfl
    | some old =>
        rw [Option.elim_some]
        by_cases same : generation = old
        · subst same
          rw [Function.update_self]
          constructor
          · intro left
            obtain ⟨before, was, aborted⟩ := Option.bind_eq_some_iff.mp left
            rw [was, Task.eq_of_aborted aborted]
          · intro was
            obtain ⟨target, called, wait, phase⟩ := task
            cases phase with
            | spawned => exact absurd trivial past
            | sleeping since => exact absurd trivial past
            | woken => exact absurd trivial past
            | firing title => simp [was, Task.aborted]
            | queued => simp [was, Task.aborted]
        · rw [Function.update_of_ne same]
  by_cases same : generation = new
  · subst same
    have none : s.tasks (s.timers.generation + 1) = none := ok.fresh _ (Nat.lt_succ_self _)
    constructor
    · intro now
      change Function.update tasks new _ new = some task at now
      rw [Function.update_self] at now
      obtain rfl := Option.some.inj now
      exact absurd trivial past
    · intro before
      exact absurd (none.symm.trans before) nofun
  · refine Iff.trans (iff_of_eq (congrArg (· = some task) ?_)) kept
    exact Function.update_of_ne same _ _

/-- Titles are kept under their own keys, on the whole way to the queue. -/
structure TitlesOk (env : Env) (s : State) : Prop where
  scheduled : ∀ key slot title, s.timers.series.get? key = some (slot, title) →
    env.titleKey title = key
  firing : ∀ generation key called wait title,
    s.tasks generation = some ⟨.series key, called, wait, .firing title⟩ → env.titleKey title = key
  waiting : ∀ key title, s.queue.series.get? key = some title → env.titleKey title = key

namespace TitlesOk

theorem schedule (timers : TimersOk s) (ok : TitlesOk env s) {target : Target} {title : String}
    (keyed : ∀ key, target = .series key → env.titleKey title = key) (delay : Option ℕ)
    : TitlesOk env (s.schedule env target title delay) := by
  have firing : ∀ generation key called wait title',
      (s.schedule env target title delay).tasks generation
          = some ⟨.series key, called, wait, .firing title'⟩ → env.titleKey title' = key :=
    fun generation key called wait title' there =>
      ok.firing generation key called wait title'
        ((schedule_tasks timers target title delay id).mp there)
  refine ⟨?_, firing, ?_⟩
  · unfold State.schedule
    split_ifs
    · exact ok.scheduled
    · intro key slot found there
      cases target with
      | full => exact ok.scheduled key slot found there
      | series own =>
          simp only [Timers.arm, OrderedMap.get?_insert] at there
          split_ifs at there with same
          · cases there
            exact (keyed own rfl).trans same.symm
          · exact ok.scheduled key slot found there
  · unfold State.schedule
    split_ifs <;> exact ok.waiting

theorem setTask (ok : TitlesOk env s) {generation : ℕ} {task : Option Task}
    (own : ∀ key called wait title, task = some ⟨.series key, called, wait, .firing title⟩ →
      env.titleKey title = key)
    : TitlesOk env (s.setTask generation task) := by
  refine ⟨ok.scheduled, ?_, ok.waiting⟩
  intro other key called wait title there
  by_cases same : other = generation
  · subst same
    exact own key called wait title ((s.setTask_self other task).symm.trans there)
  · exact ok.firing other key called wait title ((s.setTask_other same task).symm.trans there)

theorem fire (ok : TitlesOk env s) (generation : ℕ) : TitlesOk env (s.fire generation) := by
  unfold State.fire
  split
  case h_2 => exact ok
  case h_1 target called wait there =>
    split_ifs with stale
    · exact ok.setTask nofun
    · have current := not_not.mp (not_or.mp stale).2
      have own : ∀ key, target = .series key → env.titleKey (s.timers.title target) = key := by
        rintro key rfl
        simp only [Timers.slot, Option.map_map] at current
        obtain ⟨⟨slot, title⟩, found, -⟩ := Option.map_eq_some_iff.mp current
        simp only [Timers.title, found, Option.map_some, Option.getD_some]
        exact ok.scheduled key slot title found
      have moved : TitlesOk env (s.setTask generation
          (some ⟨target, called, wait, .firing (s.timers.title target)⟩)) := by
        refine ok.setTask ?_
        rintro key _ _ _ ⟨⟩
        exact own key rfl
      refine ⟨?_, moved.firing, ok.waiting⟩
      intro key slot title found
      cases target with
      | full => exact ok.scheduled key slot title found
      | series gone =>
          simp only [Timers.disarm, OrderedMap.get?_erase] at found
          split_ifs at found
          exact ok.scheduled key slot title found

theorem poll (ok : TitlesOk env s) (generation : ℕ) : TitlesOk env (s.poll generation) := by
  unfold State.poll
  split
  · exact ok.setTask nofun
  · exact ok

theorem wake (ok : TitlesOk env s) (generation : ℕ) : TitlesOk env (s.wake generation) := by
  unfold State.wake
  split
  · split_ifs
    · exact ok.setTask nofun
    · exact ok
  · exact ok

theorem enqueue (ok : TitlesOk env s) (generation : ℕ) : TitlesOk env (s.enqueue generation) := by
  unfold State.enqueue
  split
  case h_2 => exact ok
  case h_1 target called wait title there =>
    split_ifs
    · exact ok.setTask nofun
    · have moved : TitlesOk env (s.setTask generation (some ⟨target, called, wait, .queued⟩)) :=
        ok.setTask nofun
      refine ⟨ok.scheduled, moved.firing, ?_⟩
      intro key found added
      cases target with
      | full => exact ok.waiting key found added
      | series own =>
          simp only [State.WorkQueue.add, OrderedMap.get?_insert] at added
          split_ifs at added with same
          · cases added
            exact (ok.firing generation own called wait title there).trans same.symm
          · exact ok.waiting key found added

theorem notify (ok : TitlesOk env s) (generation : ℕ) : TitlesOk env (s.notify generation) := by
  unfold State.notify
  split
  · have moved : TitlesOk env (s.setTask generation none) := ok.setTask nofun
    exact ⟨ok.scheduled, moved.firing, ok.waiting⟩
  · exact ok

theorem nextWork (ok : TitlesOk env s) : TitlesOk env (s.nextWork env) := by
  unfold State.nextWork
  split_ifs
  · exact ⟨ok.scheduled, ok.firing, ok.waiting⟩
  · exact ⟨ok.scheduled, ok.firing, nofun⟩
  · exact ⟨ok.scheduled, ok.firing, ok.waiting⟩
  · split
    · exact ⟨ok.scheduled, ok.firing, ok.waiting⟩
    · exact ⟨ok.scheduled, ok.firing, nofun⟩

theorem work (ok : TitlesOk env s) : TitlesOk env (s.work env) := by
  unfold State.work
  split
  · exact nextWork ⟨ok.scheduled, ok.firing, ok.waiting⟩
  · exact nextWork ⟨ok.scheduled, ok.firing, ok.waiting⟩
  · exact ok.nextWork
  · exact ok

theorem step (timers : TimersOk s) (ok : TitlesOk env s) (taken : Step)
    : TitlesOk env (s.step env taken) := by
  cases taken with
  | pass elapsed => exact ⟨ok.scheduled, ok.firing, ok.waiting⟩
  | scheduleRegeneration delay =>
      exact ok.schedule timers (by rintro key ⟨⟩) delay
  | scheduleSeriesRegeneration title delay =>
      refine ok.schedule timers ?_ delay
      rintro _ ⟨⟩
      rfl
  | poll generation => exact ok.poll generation
  | wake generation => exact ok.wake generation
  | fire generation => exact ok.fire generation
  | enqueue generation => exact ok.enqueue generation
  | notify generation => exact ok.notify generation
  | work => exact ok.work
  | timeout =>
      obtain ⟨timers, tasks, -, queue⟩ := TimersOk.timeout_frame s
      exact ⟨by rw [State.step, timers]; exact ok.scheduled,
        by rw [State.step, tasks]; exact ok.firing, by rw [State.step, queue]; exact ok.waiting⟩
  | stopTimers =>
      exact ⟨by rintro _ _ _ ⟨⟩, fun generation key called wait title there =>
        ok.firing generation key called wait title (stopTimers_tasks there), ok.waiting⟩
  | stopWorker =>
      obtain ⟨timers, tasks, -⟩ := TimersOk.stopWorker_frame s
      refine ⟨by rw [State.step, timers]; exact ok.scheduled,
        by rw [State.step, tasks]; exact ok.firing, ?_⟩
      rw [State.step, State.stopWorker]
      split_ifs
      · exact by simp
      · exact ok.waiting

end TitlesOk

-- The queue and the thread

/-- The queue has what was asked for. -/
def WorkQueue.Holds (queue : WorkQueue) : Target → Prop
  | .full => queue.full = true
  | .series key => ∃ title, queue.series.get? key = some title

/-- The thread ends with the queue only, and while it waits for work that is there, someone is about
to tell it.
-/
structure QueueOk (s : State) : Prop where
  ordered : s.queue.stopped = true → s.timers.stopped = true
  exited : s.worker = some .exited → s.queue.stopped = true
  told : s.timers.stopped = false → ∀ target, s.queue.Holds target →
    (s.worker = none ∨ s.worker = some (.waiting none)) →
      ∃ generation task, s.tasks generation = some task ∧ task.phase = .queued

namespace QueueOk

theorem of_eq {next : State} (ok : QueueOk s) (stopped : next.timers.stopped = s.timers.stopped)
    (queue : next.queue = s.queue) (worker : next.worker = s.worker)
    (tasks : ∀ generation task, s.tasks generation = some task → task.phase = .queued →
      next.tasks generation = some task)
    : QueueOk next := by
  refine ⟨by rw [queue, stopped]; exact ok.ordered, by rw [queue, worker]; exact ok.exited, ?_⟩
  rw [stopped, queue, worker]
  intro going target holds idle
  obtain ⟨generation, task, there, queued⟩ := ok.told going target holds idle
  exact ⟨generation, task, tasks generation task there queued, queued⟩

theorem setTask (ok : QueueOk s) {generation : ℕ} {old : Task}
    (there : s.tasks generation = some old) (before : old.phase ≠ .queued) (task : Option Task)
    : QueueOk (s.setTask generation task) := by
  refine ok.of_eq rfl rfl rfl fun other found alive queued => ?_
  refine (s.setTask_other ?_ task).trans alive
  rintro rfl
  obtain rfl := Option.some.inj (alive.symm.trans there)
  exact before queued

theorem schedule (timers : TimersOk s) (ok : QueueOk s) (target : Target) (title : String)
    (delay : Option ℕ)
    : QueueOk (s.schedule env target title delay) := by
  have queued (generation : ℕ) (task : Task) (there : s.tasks generation = some task)
      (queued : task.phase = .queued)
      : (s.schedule env target title delay).tasks generation = some task := by
    refine (schedule_tasks timers target title delay ?_).mpr there
    rw [Task.Armed, queued]
    exact id
  refine ok.of_eq ?_ ?_ ?_ queued
  all_goals
    unfold State.schedule
    split_ifs
    · rfl
    · first | rfl | exact Timers.arm_stopped

theorem fire (ok : QueueOk s) (generation : ℕ) : QueueOk (s.fire generation) := by
  unfold State.fire
  split
  case h_2 => exact ok
  case h_1 target called wait there =>
    split_ifs
    · exact ok.setTask there nofun none
    · have moved := ok.setTask there nofun
        (some ⟨target, called, wait, .firing (s.timers.title target)⟩)
      exact moved.of_eq Timers.disarm_stopped rfl rfl fun _ _ alive _ => alive

theorem poll (ok : QueueOk s) (generation : ℕ) : QueueOk (s.poll generation) := by
  unfold State.poll
  split
  case h_1 there => exact ok.setTask there nofun _
  case h_2 => exact ok

theorem wake (ok : QueueOk s) (generation : ℕ) : QueueOk (s.wake generation) := by
  unfold State.wake
  split
  case h_1 there =>
    split_ifs
    · exact ok.setTask there nofun _
    · exact ok
  case h_2 => exact ok

theorem enqueue (ok : QueueOk s) (generation : ℕ) : QueueOk (s.enqueue generation) := by
  unfold State.enqueue
  split
  case h_2 => exact ok
  case h_1 target called wait title there =>
    split_ifs with stopped
    · exact ok.setTask there nofun _
    · refine ⟨?_, ?_, fun _ _ _ _ =>
        ⟨generation, _, s.setTask_self generation (some ⟨target, called, wait, .queued⟩), rfl⟩⟩
      · cases target <;> exact fun now => absurd now stopped
      · intro exited
        exact absurd (ok.exited exited) stopped

theorem notify (ok : QueueOk s) (generation : ℕ) : QueueOk (s.notify generation) := by
  unfold State.notify
  split
  case h_2 => exact ok
  case h_1 =>
    refine ⟨ok.ordered, ?_, ?_⟩
    · intro exited
      cases worker : s.worker with
      | none => simp [worker] at exited
      | some now =>
          cases now with
          | exited => exact ok.exited worker
          | _ => simp [worker] at exited
    · intro _ _ _ idle
      cases worker : s.worker with
      | none => simp [worker] at idle
      | some now => cases now <;> simp [worker] at idle

theorem nextWork (ordered : s.queue.stopped = true → s.timers.stopped = true)
    : QueueOk (s.nextWork env) := by
  unfold State.nextWork
  split_ifs with stopped full series
  · exact ⟨ordered, fun _ => stopped, fun _ _ _ idle => by simp at idle⟩
  · exact ⟨ordered, nofun, fun _ _ _ idle => by simp at idle⟩
  · refine ⟨ordered, nofun, ?_⟩
    intro _ target holds
    cases target with
    | full => exact absurd holds full
    | series key =>
        obtain ⟨title, found⟩ := holds
        have member := OrderedMap.mem_entries_iff.mpr found
        rw [List.isEmpty_iff.mp series] at member
        cases member
  · split
    · exact ⟨ordered, nofun, fun _ _ _ idle => by simp at idle⟩
    · exact ⟨ordered, nofun, fun _ _ _ idle => by simp at idle⟩

theorem step (timers : TimersOk s) (ok : QueueOk s) (taken : Step) : QueueOk (s.step env taken) := by
  cases taken with
  | pass elapsed => exact ok.of_eq rfl rfl rfl fun _ _ alive _ => alive
  | scheduleRegeneration delay => exact ok.schedule timers .full "" delay
  | scheduleSeriesRegeneration title delay => exact ok.schedule timers _ title delay
  | poll generation => exact ok.poll generation
  | wake generation => exact ok.wake generation
  | fire generation => exact ok.fire generation
  | enqueue generation => exact ok.enqueue generation
  | notify generation => exact ok.notify generation
  | work =>
      rw [State.step, State.work]
      split
      · exact nextWork ok.ordered
      · exact nextWork ok.ordered
      · exact nextWork ok.ordered
      · exact ok
  | timeout =>
      rw [State.step, State.timeout]
      split
      · split_ifs
        · exact ⟨ok.ordered, nofun, fun _ _ _ idle => by simp at idle⟩
        · exact ok
      · exact ok
  | stopTimers =>
      exact ⟨fun _ => rfl, ok.exited, fun going => absurd going.symm Bool.false_ne_true⟩
  | stopWorker =>
      rw [State.step, State.stopWorker]
      split_ifs with stopped
      · exact ⟨fun _ => stopped, fun _ => rfl,
          fun going => absurd (stopped.symm.trans going) Bool.false_ne_true.symm⟩
      · exact ok

end QueueOk

end MokuroBunko.Library.Regen
