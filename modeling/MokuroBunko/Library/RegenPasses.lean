import MokuroBunko.Library.RegenFairness
import Mathlib.Data.Nat.Pairing

/-! No library change misses its metadata pass. -/

namespace MokuroBunko.Library.Regen

open MokuroBunko.Lib

variable {env : Env} {s : State} {target : Target} {taken : Step} {generation : ℕ} {steps : ℕ → Step}

-- Calls and timers that fire

theorem going_of_steps (env : Env) (steps : ℕ → Step) (goesOn : ∀ n, steps n ≠ .stopTimers) (n : ℕ)
    : (env.states steps n).timers.stopped = false := by
  induction n with
  | zero => rfl
  | succ n ih => exact (State.step_stopped (goesOn n)).trans ih

theorem owed_of_asks (going : (s.step env taken).timers.stopped = false)
    (asks : env.asks taken = some target)
    : (s.step env taken).Owed target := by
  have running := State.going_of_step going
  cases taken with
  | scheduleRegeneration delay =>
      obtain rfl := Option.some.inj asks
      exact .of_schedule running .full "" delay
  | scheduleSeriesRegeneration title delay =>
      obtain rfl := Option.some.inj asks
      exact .of_schedule running (.series _) title delay
  | _ => cases asks

theorem owed_of_fired (fired : (s.step env taken).log = s.log ++ [.fired target generation])
    : ∃ called wait title, (s.step env taken).tasks generation
        = some ⟨target, called, wait, .firing title⟩ := by
  have unchanged {next : State} (log : next.log = s.log ++ [.fired target generation])
      (same : next.log = s.log)
      : False := by
    rw [same] at log
    simp at log
  have called (asked : Target) (title : String) (delay : Option ℕ)
      (log : (s.schedule env asked title delay).log = s.log ++ [.fired target generation])
      : False := by
    unfold State.schedule at log
    split_ifs at log
    · exact unchanged log rfl
    · simp at log
  cases taken with
  | pass elapsed => exact (unchanged fired rfl).elim
  | scheduleRegeneration delay => exact (called .full "" delay fired).elim
  | scheduleSeriesRegeneration title delay => exact (called _ title delay fired).elim
  | poll own =>
      refine (unchanged fired ?_).elim
      rw [State.step, State.poll]
      split <;> rfl
  | wake own =>
      refine (unchanged fired ?_).elim
      rw [State.step, State.wake]
      split
      · split_ifs <;> rfl
      · rfl
  | fire own =>
      revert fired
      rw [State.step]
      unfold State.fire
      split
      · split_ifs
        · exact fun fired => (unchanged fired rfl).elim
        · intro fired
          obtain ⟨rfl, rfl⟩ := Event.fired.inj (List.singleton_inj.mp (List.append_cancel_left fired))
          exact ⟨_, _, _, Function.update_self _ _ _⟩
      · exact fun fired => (unchanged fired rfl).elim
  | enqueue own =>
      refine (unchanged fired ?_).elim
      rw [State.step, State.enqueue]
      split
      · split_ifs <;> rfl
      · rfl
  | notify own =>
      refine (unchanged fired ?_).elim
      rw [State.step, State.notify]
      split <;> rfl
  | work =>
      obtain ⟨shown, log, plain⟩ := State.work_log env s
      have member : Event.fired target generation ∈ shown := by
        rw [List.append_cancel_left (log.symm.trans fired)]
        exact List.mem_singleton_self _
      exact absurd member (plain target generation)
  | timeout => exact (unchanged fired (TimersOk.timeout_frame s).2.2.1).elim
  | stopTimers => exact (unchanged fired rfl).elim
  | stopWorker => exact (unchanged fired (TimersOk.stopWorker_frame s).2.2).elim

/-- The target's timer fires at this step. -/
def Env.FiresAt (env : Env) (steps : ℕ → Step) (target : Target) (n : ℕ) : Prop :=
  ∃ generation, (env.states steps (n + 1)).log
    = (env.states steps n).log ++ [.fired target generation]

theorem begun_or_owed (going : ∀ n, (env.states steps n).timers.stopped = false) {n : ℕ}
    (asks : env.asks (steps n) = some target) {m : ℕ} (later : n < m)
    : (∃ k, n < k ∧ k < m ∧ env.BeginsAt steps target k) ∨ (env.states steps m).Owed target := by
  induction m, later using Nat.le_induction with
  | base => exact .inr (owed_of_asks (going (n + 1)) asks)
  | succ m later ih =>
      rcases ih with ⟨k, after, before, begins⟩ | owed
      · exact .inl ⟨k, after, Nat.lt_succ_of_lt before, begins⟩
      · obtain ⟨added, carries⟩ := (env.states_ok steps m).carries (steps m) (going (m + 1))
        rcases carries.owed target owed with still | ⟨work, begun, covers⟩
        · exact .inr still
        · exact .inl ⟨m, later, Nat.lt_succ_self m, added, work, carries.log, begun, covers⟩

/-- No change misses its metadata pass, while the runtime is not stopped: what was called for is owed
until a pass that covers it begins; that pass begins if the run goes on, unless calls for the same
target replace its timer for ever; the timer of calls that have not fired is due within the maximum
debounce of the first of them, or at once when that is over; only the timer of the last of them fires;
and a pass begins when those before it have finished.
-/
theorem passes_follow_calls (env : Env) (steps : ℕ → Step) (goesOn : ∀ n, steps n ≠ .stopTimers)
    : (∀ n target, env.asks (steps n) = some target → ∀ m, n < m →
        (∃ k, n < k ∧ k < m ∧ env.BeginsAt steps target k) ∨ (env.states steps m).Owed target)
      ∧ (env.Fair steps → ∀ n target, env.asks (steps n) = some target →
          (∃ k, n < k
            ∧ (env.FiresAt steps target k ∨ ∀ m, k ≤ m → env.asks (steps m) ≠ some target)) →
          ∃ m, n < m ∧ env.BeginsAt steps target m)
      ∧ (∀ n target first rest, unfired target (env.states steps n).log = first :: rest →
          ∃ slot last task, (env.states steps n).timers.slot target = some slot
            ∧ (first :: rest).getLast? = some last ∧ slot.task = some last.2
            ∧ (env.states steps n).tasks last.2 = some task ∧ task.target = target
            ∧ task.called = last.1
            ∧ task.called + task.wait ≤ max (first.1 + env.policy.maxDebounce) task.called)
      ∧ (∀ n early late target generation,
          (env.states steps n).log = early ++ .fired target generation :: late →
          ∃ time, (unfired target early).getLast? = some (time, generation))
      ∧ ∀ n early late work, (env.states steps n).log = early ++ .started work :: late →
          AllFinished early := by
  have going := going_of_steps env steps goesOn
  refine ⟨fun n target asks m later => begun_or_owed going asks later, ?_, ?_, ?_, ?_⟩
  · rintro fair n target asks ⟨k, after, fires | quiet⟩
    · obtain ⟨generation, fired⟩ := fires
      obtain ⟨called, wait, title, there⟩ := owed_of_fired fired
      obtain ⟨m, later, begins⟩ := firing_leadsTo going fair generation called wait title (k + 1) there
      exact ⟨m, by omega, begins⟩
    · rcases begun_or_owed going asks after with ⟨m, later, -, begins⟩ | owed
      · exact ⟨m, later, begins⟩
      · obtain ⟨m, later, begins⟩ := owed_leadsTo going fair quiet le_rfl owed
        exact ⟨m, after.trans_le later, begins⟩
  · intro n target first rest calls
    rcases (env.states_ok steps n).log.timed (going n) target with
      ⟨none, -⟩ | ⟨start, last, isFirst, isLast, armed⟩
    · rw [calls] at none
      cases none
    · rw [calls] at isFirst isLast
      obtain rfl := Option.some.inj isFirst
      obtain ⟨slot, found, -, held, -⟩ := armed.slot
      obtain ⟨task, there, isTarget, called, wait⟩ := armed.task
      exact ⟨slot, last, task, found, isLast, held, there, isTarget, called, called ▸ wait⟩
  · exact fun n => (env.states_ok steps n).log.fired
  · exact fun n => (env.states_ok steps n).passes.apart

-- Turns by rotation

/-- Every turn, and the clock's. -/
def turnOf (number : ℕ) : Step :=
  match number % 8 with
  | 0 => .poll (number / 8)
  | 1 => .wake (number / 8)
  | 2 => .fire (number / 8)
  | 3 => .enqueue (number / 8)
  | 4 => .notify (number / 8)
  | 5 => .work
  | 6 => .timeout
  | _ => .pass 1

theorem fair_of_turns (recurs : ∀ number, Recurs fun n => steps n = turnOf number)
    : env.Fair steps := by
  constructor
  · intro turn isTurn
    cases turn with
    | poll generation => simpa [turnOf] using recurs (8 * generation)
    | wake generation =>
        have := recurs (8 * generation + 1)
        rwa [turnOf, Nat.mul_add_mod, Nat.mul_add_div (by decide)] at this
    | fire generation =>
        have := recurs (8 * generation + 2)
        rwa [turnOf, Nat.mul_add_mod, Nat.mul_add_div (by decide)] at this
    | enqueue generation =>
        have := recurs (8 * generation + 3)
        rwa [turnOf, Nat.mul_add_mod, Nat.mul_add_div (by decide)] at this
    | notify generation =>
        have := recurs (8 * generation + 4)
        rwa [turnOf, Nat.mul_add_mod, Nat.mul_add_div (by decide)] at this
    | work => exact recurs 5
    | timeout => exact recurs 6
    | _ => exact isTurn.elim
  · intro bound
    induction bound with
    | zero => exact ⟨0, le_rfl⟩
    | succ bound ih =>
        obtain ⟨n, isLate⟩ := ih
        obtain ⟨m, after, isPass⟩ := recurs 7 n
        refine ⟨m + 1, ?_⟩
        rw [Env.states, isPass]
        exact Nat.succ_le_succ (isLate.trans (env.now_mono steps after))

/-- A call, and then every turn by rotation. -/
def callOnce (n : ℕ) : Step := if n = 0 then .scheduleRegeneration none else turnOf n.unpair.1

/-- A call before every turn. -/
def callAlways (n : ℕ) : Step :=
  if n % 2 = 0 then .scheduleRegeneration none else turnOf (n / 2).unpair.1

theorem turnOf_ne_stop (number : ℕ) : turnOf number ≠ .stopTimers := by
  unfold turnOf
  split <;> exact nofun

theorem asks_turnOf (env : Env) (number : ℕ) : env.asks (turnOf number) = none := by
  unfold turnOf
  split <;> rfl

theorem callOnce_fair (env : Env) : env.Fair callOnce := by
  refine fair_of_turns fun number n => ⟨Nat.pair number (n + 1), ?_, ?_⟩
  · exact (Nat.le_succ n).trans (Nat.right_le_pair number (n + 1))
  · have later : Nat.pair number (n + 1) ≠ 0 :=
      ((Nat.succ_pos n).trans_le (Nat.right_le_pair number (n + 1))).ne'
    show callOnce (Nat.pair number (n + 1)) = turnOf number
    rw [callOnce, if_neg later, Nat.unpair_pair]

theorem callAlways_fair (env : Env) : env.Fair callAlways := by
  refine fair_of_turns fun number n => ⟨2 * Nat.pair number n + 1, ?_, ?_⟩
  · have := Nat.right_le_pair number n
    omega
  · have odd : ¬(2 * Nat.pair number n + 1) % 2 = 0 := by omega
    have half : (2 * Nat.pair number n + 1) / 2 = Nat.pair number n := by omega
    show callAlways (2 * Nat.pair number n + 1) = turnOf number
    rw [callAlways, if_neg odd, half, Nat.unpair_pair]

/-- A call with a debounce of ten seconds is followed by its pass. -/
theorem pass_follows_callOnce
    : ∃ m, 0 < m ∧ Env.BeginsAt ⟨⟨10, 60⟩, id⟩ callOnce .full m := by
  refine (passes_follow_calls ⟨⟨10, 60⟩, id⟩ callOnce ?_).2.1 (callOnce_fair _) 0 .full rfl
    ⟨1, Nat.one_pos, .inr ?_⟩
  · intro n
    unfold callOnce
    split_ifs
    · exact nofun
    · exact turnOf_ne_stop _
  · intro m later
    rw [callOnce, if_neg (by omega), asks_turnOf]
    exact nofun

-- Calls that outrun their timer

/-- The thread was never started, and the only task is the full timer's, that early. -/
structure Starved (s : State) (early : Phase → Prop) : Prop where
  worker : s.worker = none
  tasks : ∀ generation task, s.tasks generation = some task →
    s.timers.full.task = some generation ∧ early task.phase

/-- Spawned, or asleep. -/
def Phase.Early (phase : Phase) : Prop := phase = .spawned ∨ ∃ since, phase = .sleeping since

theorem Starved.call (starved : Starved s Phase.Early) (going : s.timers.stopped = false)
    : Starved (s.scheduleRegeneration env none) (· = .spawned) := by
  rw [State.scheduleRegeneration, State.schedule, if_neg (by simp [going])]
  refine ⟨starved.worker, ?_⟩
  intro generation task there
  by_cases new : generation = s.timers.generation + 1
  · subst new
    dsimp only at there
    rw [Function.update_self] at there
    obtain rfl := Option.some.inj there
    exact ⟨rfl, rfl⟩
  · have left := (Function.update_of_ne new _ _).symm.trans there
    obtain ⟨own, early⟩ := starved.tasks generation task (abort_tasks left)
    change s.timers.full.task.elim s.tasks _ generation = some task at left
    rw [own, Option.elim_some, Function.update_self] at left
    obtain ⟨before, -, aborted⟩ := Option.bind_eq_some_iff.mp left
    obtain rfl := Task.eq_of_aborted aborted
    unfold Task.aborted at aborted
    rcases early with spawned | ⟨since, sleeping⟩
    · simp [spawned] at aborted
    · simp [sleeping] at aborted

theorem Starved.turn (starved : Starved s (· = .spawned)) (number : ℕ)
    : Starved (s.step env (turnOf number)) Phase.Early := by
  have same : Starved s Phase.Early := ⟨starved.worker, fun generation task there =>
    (starved.tasks generation task there).imp_right .inl⟩
  have none {generation : ℕ} {target : Target} {called wait : ℕ} {phase : Phase}
      (there : s.tasks generation = some ⟨target, called, wait, phase⟩) (other : phase ≠ .spawned)
      : False := other (starved.tasks generation _ there).2
  unfold turnOf
  split
  · rw [State.step, State.poll]
    split
    · refine ⟨starved.worker, fun generation task there => ?_⟩
      by_cases isIt : generation = number / 8
      · subst isIt
        obtain rfl := Option.some.inj ((s.setTask_self _ _).symm.trans there)
        exact ⟨(starved.tasks _ _ (by assumption)).1, .inr ⟨_, rfl⟩⟩
      · exact same.tasks generation task ((s.setTask_other isIt _).symm.trans there)
    · exact same
  · rw [State.step, State.wake]
    split
    case h_1 there => exact (none there (by rintro ⟨⟩)).elim
    case h_2 => exact same
  · rw [State.step, State.fire]
    split
    case h_1 there => exact (none there (by rintro ⟨⟩)).elim
    case h_2 => exact same
  · rw [State.step, State.enqueue]
    split
    case h_1 there => exact (none there (by rintro ⟨⟩)).elim
    case h_2 => exact same
  · rw [State.step, State.notify]
    split
    case h_1 there => exact (none there (by rintro ⟨⟩)).elim
    case h_2 => exact same
  · rw [State.step, State.work, starved.worker]
    exact same
  · rw [State.step, State.timeout, starved.worker]
    exact same
  · exact ⟨same.worker, same.tasks⟩

theorem not_begins (never : s.worker = none) : ¬Begins env s (s.step env taken) target := by
  rintro ⟨added, work, log, begun, -⟩
  by_cases isWork : taken = .work
  · subst isWork
    rw [State.step, State.work, never] at log
    rw [List.self_eq_append_right.mp log] at begun
    cases begun
  · rcases State.step_log isWork with same | ⟨event, plain, more⟩
    · rw [List.self_eq_append_right.mp (same.symm.trans log)] at begun
      cases begun
    · rw [← List.append_cancel_left (more.symm.trans log)] at begun
      exact plain work (List.mem_singleton.mp begun).symm

/-- Calls that come before every turn replace the timer for ever, though it was due long ago: in this
fair run no pass begins. And the timer of a call that comes after the maximum debounce of the first is
due later than that.
-/
theorem calls_outrun_timer
    : (Env.Fair ⟨⟨10, 60⟩, id⟩ callAlways
        ∧ (∀ n, Env.asks ⟨⟨10, 60⟩, id⟩ (callAlways (2 * n)) = some .full)
        ∧ ∀ n, ¬Env.BeginsAt ⟨⟨10, 60⟩, id⟩ callAlways .full n)
      ∧ let late := Env.states ⟨⟨10, 60⟩, id⟩
          (fun n => [.scheduleRegeneration none, .pass 70, .scheduleRegeneration none].getD n .work) 3
        unfired .full late.log = [(0, 1), (70, 2)] ∧ late.timers.full.task = some 2
          ∧ late.tasks 2 = some ⟨.full, 70, 0, .spawned⟩ ∧ ¬70 + 0 ≤ 0 + 60 := by
  refine ⟨⟨callAlways_fair _, ?_, ?_⟩, rfl, rfl, rfl, by decide⟩
  · intro n
    rw [callAlways, if_pos (by omega)]
    rfl
  · have going := going_of_steps ⟨⟨10, 60⟩, id⟩ callAlways fun n => by
      unfold callAlways
      split_ifs
      · rintro ⟨⟩
      · exact turnOf_ne_stop _
    have called (n : ℕ) (starved : Starved (Env.states ⟨⟨10, 60⟩, id⟩ callAlways (2 * n)) Phase.Early)
        : Starved (Env.states ⟨⟨10, 60⟩, id⟩ callAlways (2 * n + 1)) (· = .spawned) := by
      rw [Env.states, callAlways, if_pos (by omega)]
      exact starved.call (going (2 * n))
    have starved (n : ℕ) : Starved (Env.states ⟨⟨10, 60⟩, id⟩ callAlways (2 * n)) Phase.Early := by
      induction n with
      | zero => exact ⟨rfl, by rintro _ _ ⟨⟩⟩
      | succ n ih =>
          rw [Nat.mul_succ, Env.states, callAlways, if_neg (by omega)]
          exact (called n ih).turn _
    intro n
    refine not_begins ?_
    obtain ⟨half, rfl | rfl⟩ : ∃ half, n = 2 * half ∨ n = 2 * half + 1 := ⟨n / 2, by omega⟩
    · exact (starved half).worker
    · exact (called half (starved half)).worker

end MokuroBunko.Library.Regen
