import MokuroBunko.Lib.Runs
import MokuroBunko.Server.UpdateRuns

/-! The server updates itself at a quiet moment only, and comes back from every attempt. -/

namespace MokuroBunko.Server.Update

open MokuroBunko.Lib

variable {env : Env} {s next : State} {taken : Step} {steps : ℕ → Step}

-- What a step shows

/-- What a step adds to the log. -/
inductive Shows (s : State) (taken : Step) : List Event → Prop
  | nothing : Shows s taken []
  | beganAuto {latest} (task : s.task = .asking latest) (answer : taken = .busy none)
    : Shows s taken [.began .auto (some latest)]
  | beganCall {call status} (deciding : s.calls call = .deciding status)
    : Shows s taken [.began (.manual call) status.latest]
  | installed (owner version) : Shows s taken [.installed owner version]
  | restarted {version} (task : s.task = .restarting version) : Shows s taken [.restarted version]

theorem State.step_log (env : Env) (s : State) (taken : Step)
    : ∃ added, (s.step env taken).log = s.log ++ added ∧ Shows s taken added := by
  have same : ∃ added, s.log = s.log ++ added ∧ Shows s taken added :=
    ⟨[], (List.append_nil _).symm, .nothing⟩
  cases taken with
  | pass elapsed => exact same
  | settings auto check => exact same
  | recordBlocked blocked => exact same
  | stop => exact same
  | refreshed status => exact same
  | wake kicked =>
      rw [State.step, State.wake]
      split
      · split_ifs <;> exact same
      · exact same
  | quit =>
      rw [State.step, State.quit]
      split
      · split_ifs <;> exact same
      · exact same
  | checked status =>
      rw [State.step, State.checked]
      split <;> exact same
  | goOn =>
      rw [State.step, State.goOn]
      split
      case h_11 version task => exact ⟨_, rfl, .restarted task⟩
      case h_2 status task =>
        split
        · exact same
        · split
          · exact same
          · split_ifs <;> exact same
      all_goals first | exact same | (split_ifs <;> exact same)
  | busy what =>
      rw [State.step, State.busy]
      split
      case h_1 latest task =>
        cases what with
        | none => exact ⟨_, rfl, .beganAuto task rfl⟩
        | some text => exact same
      case h_2 => split_ifs <;> exact same
      case h_3 => exact same
  | installed result =>
      rw [State.step, State.installed]
      split
      · cases result with
        | ok version => exact ⟨_, rfl, .installed .auto version⟩
        | error failure => exact same
      · exact same
  | apply call =>
      rw [State.step, State.apply]
      split
      · split_ifs <;> exact same
      · exact same
  | callGoOn call =>
      rw [State.step, State.callGoOn]
      split
      case h_1 =>
        dsimp only
        split_ifs <;> exact same
      case h_2 status deciding =>
        split_ifs
        · exact same
        · exact same
        · exact ⟨_, rfl, .beganCall deciding⟩
      all_goals exact same
  | callChecked call status =>
      rw [State.step, State.callChecked]
      split <;> exact same
  | callInstalled call result =>
      rw [State.step, State.callInstalled]
      split
      · cases result with
        | ok version => exact ⟨_, rfl, .installed (.manual call) version⟩
        | error message => exact same
      · exact same
  | callDropped call =>
      rw [State.step, State.callDropped]
      split <;> exact same

/-- The automatic task takes this step. -/
def Step.IsTask : Step → Prop
  | .wake _ => True
  | .quit => True
  | .checked _ => True
  | .goOn => True
  | .busy _ => True
  | .installed _ => True
  | _ => False

theorem State.step_other (env : Env) (s : State) {taken : Step} (other : ¬taken.IsTask)
    : (s.step env taken).task = s.task ∧ (s.step env taken).draining = s.draining := by
  cases taken with
  | apply call =>
      rw [State.step, State.apply]
      split
      · split_ifs <;> exact ⟨rfl, rfl⟩
      · exact ⟨rfl, rfl⟩
  | callGoOn call =>
      rw [State.step, State.callGoOn]
      split
      case h_1 =>
        dsimp only
        split_ifs <;> exact ⟨rfl, rfl⟩
      case h_2 => split_ifs <;> exact ⟨rfl, rfl⟩
      all_goals exact ⟨rfl, rfl⟩
  | callChecked call status =>
      rw [State.step, State.callChecked]
      split <;> exact ⟨rfl, rfl⟩
  | callInstalled call result =>
      rw [State.step, State.callInstalled]
      split
      · cases result <;> exact ⟨rfl, rfl⟩
      · exact ⟨rfl, rfl⟩
  | callDropped call =>
      rw [State.step, State.callDropped]
      split <;> exact ⟨rfl, rfl⟩
  | wake kicked => exact absurd trivial other
  | quit => exact absurd trivial other
  | checked status => exact absurd trivial other
  | goOn => exact absurd trivial other
  | busy what => exact absurd trivial other
  | installed result => exact absurd trivial other
  | _ => exact ⟨rfl, rfl⟩

theorem Shows.holds {owner : Owner} {version : Option String}
    (shows' : Shows s taken [.began owner version])
    : s.Holds owner := by
  cases shows' with
  | beganAuto task => rw [State.Holds, task]; trivial
  | beganCall deciding => rw [State.Holds, deciding]; trivial

-- New claims

/-- New claims are held in this phase. -/
def AutoPhase.Drains : AutoPhase → Prop
  | .round _ => True
  | .asking _ => True
  | .pausing _ => True
  | .calledOff _ => True
  | .installing _ => True
  | .succeeded _ => True
  | .lingering _ _ => True
  | .restarting _ => True
  | .failing _ _ => True
  | _ => False

/-- New claims are held during an attempt, and for good once the restart was asked for. -/
structure Drained (s : State) : Prop where
  held : s.task.Drains → s.draining = true
  only : s.draining = true → s.task.Drains ∨ ∃ version, .restarted version ∈ s.log

namespace Drained

theorem of_iff (ok : Drained s) (draining : next.draining = s.draining)
    (task : next.task.Drains ↔ s.task.Drains) (log : ∃ added, next.log = s.log ++ added)
    : Drained next := by
  obtain ⟨added, log⟩ := log
  refine ⟨fun drains => draining.trans (ok.held (task.mp drains)), fun drained => ?_⟩
  rcases ok.only (draining.symm.trans drained) with drains | ⟨version, restarted⟩
  · exact .inl (task.mpr drains)
  · exact .inr ⟨version, log ▸ List.mem_append_left added restarted⟩

theorem goOn (ok : Drained s) : Drained (s.goOn env) := by
  have grows {next : State} (log : next.log = s.log) : ∃ added, next.log = s.log ++ added :=
    ⟨[], log.trans (List.append_nil _).symm⟩
  have before {next : State} (none : ¬s.task.Drains) (draining : next.draining = s.draining)
      (left : ¬next.task.Drains) (log : next.log = s.log)
      : Drained next := ok.of_iff draining (iff_of_false left none) (grows log)
  have within {next : State} (drains : s.task.Drains) (draining : next.draining = s.draining)
      (still : next.task.Drains) (log : next.log = s.log)
      : Drained next := ok.of_iff draining (iff_of_true still drains) (grows log)
  unfold State.goOn
  split
  case h_1 status task =>
    split_ifs
    · exact before (by rw [task]; exact id) rfl id rfl
    · exact before (by rw [task]; exact id) rfl id rfl
  case h_2 status task =>
    split
    · exact before (by rw [task]; exact id) rfl id rfl
    · split
      · exact before (by rw [task]; exact id) rfl id rfl
      · split_ifs
        · exact before (by rw [task]; exact id) rfl id rfl
        · exact before (by rw [task]; exact id) rfl id rfl
  case h_3 latest task =>
    split_ifs
    · exact before (by rw [task]; exact id) rfl id rfl
    · exact before (by rw [task]; exact id) rfl id rfl
  case h_4 latest task =>
    split_ifs
    · exact before (by rw [task]; exact id) rfl id rfl
    · exact before (by rw [task]; exact id) rfl id rfl
  case h_5 latest task =>
    split_ifs
    · exact before (by rw [task]; exact id) rfl id rfl
    · exact before (by rw [task]; exact id) rfl id rfl
  case h_6 latest task => exact ⟨fun _ => rfl, fun _ => .inl trivial⟩
  case h_7 latest task =>
    split_ifs
    · exact within (by rw [task]; trivial) rfl trivial rfl
    · exact within (by rw [task]; trivial) rfl trivial rfl
  case h_8 latest task => exact within (by rw [task]; trivial) rfl trivial rfl
  case h_9 latest task => exact ⟨False.elim, nofun⟩
  case h_10 version task => exact within (by rw [task]; trivial) rfl trivial rfl
  case h_11 version task =>
    exact ⟨False.elim, fun _ => .inr ⟨version, List.mem_append_right _ (List.mem_singleton_self _)⟩⟩
  case h_12 latest failure task => exact ⟨False.elim, nofun⟩
  case h_13 latest failure task => exact before (by rw [task]; exact id) rfl id rfl
  case h_14 task => exact before (by rw [task]; exact id) rfl id rfl
  case h_15 => exact ok

theorem step (ok : Drained s) (taken : Step) : Drained (s.step env taken) := by
  obtain ⟨added, log, -⟩ := State.step_log env s taken
  have moved (draining : (s.step env taken).draining = s.draining)
      (task : (s.step env taken).task.Drains ↔ s.task.Drains)
      : Drained (s.step env taken) := ok.of_iff draining task ⟨added, log⟩
  by_cases isTask : taken.IsTask
  case neg =>
    obtain ⟨task, draining⟩ := State.step_other env s isTask
    exact moved draining (by rw [task])
  revert moved
  cases taken with
  | wake kicked =>
      rw [State.step, State.wake]
      split
      case h_1 task =>
        split_ifs
        · exact fun moved => moved rfl (by rw [task]; rfl)
        · exact fun moved => moved rfl (by rw [task]; rfl)
        · exact fun _ => ok
      case h_2 => exact fun _ => ok
  | quit =>
      rw [State.step, State.quit]
      split
      case h_1 task =>
        split_ifs
        · exact fun moved => moved rfl (by rw [task]; rfl)
        · exact fun _ => ok
      case h_2 => exact fun _ => ok
  | checked status =>
      rw [State.step, State.checked]
      split
      case h_1 task => exact fun moved => moved rfl (by rw [task]; rfl)
      case h_2 => exact fun _ => ok
  | goOn => exact fun _ => ok.goOn
  | busy what =>
      rw [State.step, State.busy]
      split
      case h_1 latest task =>
        cases what with
        | none => exact fun moved => moved rfl (by rw [task]; rfl)
        | some text => exact fun moved => moved rfl (by rw [task]; rfl)
      case h_2 version polls task =>
        split_ifs
        · exact fun moved => moved rfl (by rw [task]; rfl)
        · exact fun moved => moved rfl (by rw [task]; rfl)
      case h_3 => exact fun _ => ok
  | installed result =>
      rw [State.step, State.installed]
      split
      case h_1 latest task =>
        cases result with
        | ok version => exact fun moved => moved rfl (by rw [task]; rfl)
        | error failure => exact fun moved => moved rfl (by rw [task]; rfl)
      case h_2 => exact fun _ => ok
  | _ => exact isTask.elim

end Drained

-- What an attempt was begun for

/-- No phase of an attempt before its installation. -/
def AutoPhase.Plain : AutoPhase → Prop
  | .readRetry _ => False
  | .taking _ => False
  | .holding _ => False
  | .round _ => False
  | .asking _ => False
  | .pausing _ => False
  | _ => True

/-- How the task comes to a phase from another. -/
inductive Advances (s : State) : AutoPhase → Prop
  | unblocked {latest} (unblocked : s.blocked.any (·.blocks latest) = false)
    : Advances s (.readRetry latest)
  | due {latest} (task : s.task = .readRetry latest) (due : s.retry.mayTry latest s.now = true)
    : Advances s (.taking latest)
  | took {latest} (task : s.task = .taking latest) : Advances s (.holding latest)
  | held {latest} (task : s.task = .holding latest ∨ s.task = .pausing latest)
    : Advances s (.round latest)
  | asked {latest} (task : s.task = .round latest) (auto : s.auto = true) (going : s.stopped = false)
    : Advances s (.asking latest)
  | paused {latest} (task : s.task = .asking latest) : Advances s (.pausing latest)
  | plain {phase : AutoPhase} (plain : phase.Plain) : Advances s phase

theorem State.step_task (env : Env) (s : State) (taken : Step)
    : (s.step env taken).task = s.task ∨ Advances s (s.step env taken).task := by
  cases taken with
  | wake kicked =>
      rw [State.step, State.wake]
      split
      · split_ifs
        · exact .inr (.plain trivial)
        · exact .inr (.plain trivial)
        · exact .inl rfl
      · exact .inl rfl
  | quit =>
      rw [State.step, State.quit]
      split
      · split_ifs
        · exact .inr (.plain trivial)
        · exact .inl rfl
      · exact .inl rfl
  | checked status =>
      rw [State.step, State.checked]
      split
      · exact .inr (.plain trivial)
      · exact .inl rfl
  | goOn =>
      rw [State.step, State.goOn]
      split
      case h_1 => split_ifs <;> exact .inr (.plain trivial)
      case h_2 =>
        split
        · exact .inr (.plain trivial)
        · split
          · exact .inr (.plain trivial)
          · split_ifs <;> exact .inr (.plain trivial)
      case h_3 latest task =>
        split_ifs with blocked
        · exact .inr (.plain trivial)
        · exact .inr (.unblocked (by simpa using blocked))
      case h_4 latest task =>
        split_ifs with due
        · exact .inr (.due task due)
        · exact .inr (.plain trivial)
      case h_5 latest task =>
        split_ifs
        · exact .inr (.plain trivial)
        · exact .inr (.took task)
      case h_6 latest task => exact .inr (.held (.inl task))
      case h_7 latest task =>
        split_ifs with off
        · exact .inr (.plain trivial)
        · obtain ⟨going, auto⟩ : s.stopped = false ∧ s.auto = true := by simpa using off
          exact .inr (.asked task auto going)
      case h_8 latest task => exact .inr (.held (.inr task))
      case h_15 => exact .inl rfl
      all_goals exact .inr (.plain trivial)
  | busy what =>
      rw [State.step, State.busy]
      split
      case h_1 latest task =>
        cases what with
        | none => exact .inr (.plain trivial)
        | some text => exact .inr (.paused task)
      case h_2 => split_ifs <;> exact .inr (.plain trivial)
      case h_3 => exact .inl rfl
  | installed result =>
      rw [State.step, State.installed]
      split
      · cases result <;> exact .inr (.plain trivial)
      · exact .inl rfl
  | _ => exact .inl (State.step_other env s id).1

/-- Some time before, the version was not blocked, and then its retry was due. -/
def Picked (env : Env) (steps : ℕ → Step) (latest : String) (n : ℕ) : Prop :=
  ∃ i j, i < j ∧ j < n ∧ (env.states steps i).blocked.any (·.blocks latest) = false
    ∧ (env.states steps j).retry.mayTry latest (env.states steps j).now = true

/-- Since some time before, `busy` is out, for a version that was picked: the setting was on. -/
def Asked (env : Env) (steps : ℕ → Step) (latest : String) (n : ℕ) : Prop :=
  ∃ k < n, Picked env steps latest k ∧ (env.states steps k).auto = true
    ∧ (env.states steps k).stopped = false ∧ (env.states steps k).task = .round latest
    ∧ ∀ m, k < m → m ≤ n → (env.states steps m).task = .asking latest

/-- How the task came where it stands. -/
def Story (env : Env) (steps : ℕ → Step) (n : ℕ) : AutoPhase → Prop
  | .readRetry latest =>
      ∃ i < n, (env.states steps i).blocked.any (·.blocks latest) = false
  | .taking latest => Picked env steps latest n
  | .holding latest => Picked env steps latest n
  | .round latest => Picked env steps latest n
  | .pausing latest => Picked env steps latest n
  | .asking latest => Asked env steps latest n
  | _ => True

theorem Picked.later {latest : String} {n m : ℕ} (picked : Picked env steps latest n) (le : n ≤ m)
    : Picked env steps latest m := by
  obtain ⟨i, j, first, second, facts⟩ := picked
  exact ⟨i, j, first, second.trans_le le, facts⟩

theorem Story.stays {n : ℕ} (story : Story env steps n (env.states steps n).task)
    (same : (env.states steps (n + 1)).task = (env.states steps n).task)
    : Story env steps (n + 1) (env.states steps (n + 1)).task := by
  rw [same]
  cases task : (env.states steps n).task with
  | readRetry latest =>
      rw [task] at story
      obtain ⟨i, before, unblocked⟩ := story
      exact ⟨i, Nat.lt_succ_of_lt before, unblocked⟩
  | taking latest =>
      rw [task] at story
      exact Picked.later story (Nat.le_succ n)
  | holding latest =>
      rw [task] at story
      exact Picked.later story (Nat.le_succ n)
  | round latest =>
      rw [task] at story
      exact Picked.later story (Nat.le_succ n)
  | pausing latest =>
      rw [task] at story
      exact Picked.later story (Nat.le_succ n)
  | asking latest =>
      rw [task] at story
      obtain ⟨k, before, picked, auto, stopped, round, out⟩ := story
      refine ⟨k, Nat.lt_succ_of_lt before, picked, auto, stopped, round, fun m after upTo => ?_⟩
      rcases Nat.lt_or_eq_of_le upTo with earlier | rfl
      · exact out m after (Nat.le_of_lt_succ earlier)
      · exact same.trans task
  | _ => trivial

theorem Asked.picked {latest : String} {n : ℕ} (asked : Asked env steps latest n)
    : Picked env steps latest n := by
  obtain ⟨k, before, picked, -⟩ := asked
  exact picked.later before.le

theorem Story.step {n : ℕ} (story : Story env steps n (env.states steps n).task)
    : Story env steps (n + 1) (env.states steps (n + 1)).task := by
  rcases State.step_task env (env.states steps n) (steps n) with same | advances
  · exact story.stays same
  change Advances (env.states steps n) (env.states steps (n + 1)).task at advances
  generalize phase : (env.states steps (n + 1)).task = next at advances
  cases advances with
  | unblocked unblocked => exact ⟨n, Nat.lt_succ_self n, unblocked⟩
  | due task due =>
      rw [task] at story
      obtain ⟨i, before, unblocked⟩ := story
      exact ⟨i, n, before, Nat.lt_succ_self n, unblocked, due⟩
  | took task =>
      rw [task] at story
      exact Picked.later story (Nat.le_succ n)
  | held task =>
      rcases task with task | task
      · rw [task] at story
        exact Picked.later story (Nat.le_succ n)
      · rw [task] at story
        exact Picked.later story (Nat.le_succ n)
  | asked task auto going =>
      rw [task] at story
      refine ⟨n, Nat.lt_succ_self n, story, auto, going, task, fun m after upTo => ?_⟩
      obtain rfl : m = n + 1 := by omega
      exact phase
  | paused task =>
      rw [task] at story
      exact Picked.later story.picked (Nat.le_succ n)
  | plain plain =>
      cases next with
      | readRetry => exact plain.elim
      | taking => exact plain.elim
      | holding => exact plain.elim
      | round => exact plain.elim
      | asking => exact plain.elim
      | pausing => exact plain.elim
      | _ => trivial

-- Runs

theorem Env.states_keeps (env : Env) (steps : ℕ → Step) (n : ℕ)
    : ∃ custody, Keeps (env.states steps n) custody := by
  induction n with
  | zero =>
      refine ⟨.free, ⟨fun _ => rfl, fun _ => rfl⟩, ?_, ?_⟩
      · rintro (_ | call) <;> exact ⟨False.elim, nofun⟩
      · rintro (⟨owner, version, member⟩ | ⟨version, member⟩ | succeeded)
        · cases member
        · cases member
        · exact succeeded.elim
  | succ n ih =>
      obtain ⟨custody, keeps⟩ := ih
      obtain ⟨moved, -, still⟩ := keeps.step (steps n)
      exact ⟨moved, still⟩

theorem Env.states_drained (env : Env) (steps : ℕ → Step) (n : ℕ)
    : Drained (env.states steps n) := by
  induction n with
  | zero => exact ⟨False.elim, nofun⟩
  | succ n ih => exact ih.step (steps n)

theorem Env.states_story (env : Env) (steps : ℕ → Step) (n : ℕ)
    : Story env steps n (env.states steps n).task := by
  induction n with
  | zero => trivial
  | succ n ih => exact ih.step

theorem Env.log_mono (env : Env) (steps : ℕ → Step) {n m : ℕ} (le : n ≤ m)
    : (env.states steps n).log <+: (env.states steps m).log := by
  induction m, le using Nat.le_induction with
  | base => exact List.prefix_rfl
  | succ m le ih =>
      obtain ⟨added, log, -⟩ := State.step_log env (env.states steps m) (steps m)
      exact ih.trans ⟨added, log.symm⟩

-- The end of an attempt

/-- An attempt of the automatic task is under way. -/
def AutoPhase.Attempts (phase : AutoPhase) : Prop := phase.Holds ∨ phase.Succeeded

/-- An attempt ends as its restart is asked for, or as the flag is given back. -/
theorem State.step_ends (attempts : s.task.Attempts) (ended : ¬(s.step env taken).task.Attempts)
    : (∃ version, s.task = .restarting version
        ∧ (s.step env taken).log = s.log ++ [.restarted version])
      ∨ s.task = .releasing ∧ (s.step env taken).applying = false
        ∧ (s.step env taken).draining = s.draining := by
  by_cases isTask : taken.IsTask
  case neg =>
    rw [(State.step_other env s isTask).1] at ended
    exact absurd attempts ended
  have none {phase : AutoPhase} (task : s.task = phase) (holds : ¬phase.Holds)
      (succeeded : ¬phase.Succeeded)
      : False := by
    rw [task] at attempts
    exact attempts.elim holds succeeded
  revert ended
  cases taken with
  | wake kicked =>
      rw [State.step, State.wake]
      split
      case h_1 task => exact (none task id id).elim
      case h_2 => exact fun ended => absurd attempts ended
  | quit =>
      rw [State.step, State.quit]
      split
      case h_1 task => exact (none task id id).elim
      case h_2 => exact fun ended => absurd attempts ended
  | checked status =>
      rw [State.step, State.checked]
      split
      case h_1 task => exact (none task id id).elim
      case h_2 => exact fun ended => absurd attempts ended
  | goOn =>
      rw [State.step, State.goOn]
      split
      case h_1 status task => exact (none task id id).elim
      case h_2 status task => exact (none task id id).elim
      case h_3 latest task => exact (none task id id).elim
      case h_4 latest task => exact (none task id id).elim
      case h_5 latest task => exact (none task id id).elim
      case h_6 => exact fun ended => absurd (.inl trivial) ended
      case h_7 => split_ifs <;> exact fun ended => absurd (.inl trivial) ended
      case h_8 => exact fun ended => absurd (.inl trivial) ended
      case h_9 => exact fun ended => absurd (.inl trivial) ended
      case h_10 => exact fun ended => absurd (.inr trivial) ended
      case h_11 version task => exact fun _ => .inl ⟨version, task, rfl⟩
      case h_12 => exact fun ended => absurd (.inl trivial) ended
      case h_13 => exact fun ended => absurd (.inl trivial) ended
      case h_14 task => exact fun _ => .inr ⟨task, rfl, rfl⟩
      case h_15 => exact fun ended => absurd attempts ended
  | busy what =>
      rw [State.step, State.busy]
      split
      case h_1 => cases what <;> exact fun ended => absurd (.inl trivial) ended
      case h_2 => split_ifs <;> exact fun ended => absurd (.inr trivial) ended
      case h_3 => exact fun ended => absurd attempts ended
  | installed result =>
      rw [State.step, State.installed]
      split
      case h_1 =>
        cases result with
        | ok version => exact fun ended => absurd (.inr trivial) ended
        | error failure => exact fun ended => absurd (.inl trivial) ended
      case h_2 => exact fun ended => absurd attempts ended
  | _ => exact isTask.elim

theorem releasing_undrained {n : ℕ} (task : (env.states steps n).task = .releasing)
    : (env.states steps n).draining = false := by
  obtain ⟨custody, keeps⟩ := env.states_keeps steps n
  cases draining : (env.states steps n).draining with
  | false => rfl
  | true =>
      rcases (env.states_drained steps n).only draining with drains | ⟨version, restarted⟩
      · rw [task] at drains
        exact drains.elim
      · have isKept := keeps.done (.inr (.inl ⟨version, restarted⟩))
        have isHeld := (keeps.holds .auto).mp (by rw [State.Holds, task]; trivial)
        cases isKept.symm.trans isHeld

/-- The phases in which the task awaits no answer. -/
def AutoPhase.GoesOn : AutoPhase → Prop
  | .sleeping => False
  | .ended => False
  | .checking => False
  | .asking _ => False
  | .lingering _ _ => False
  | .installing _ => False
  | _ => True

theorem State.step_goesOn (goesOn : s.task.GoesOn) (other : taken ≠ .goOn)
    : (s.step env taken).task = s.task := by
  cases taken with
  | wake kicked =>
      rw [State.step, State.wake]
      split
      case h_1 task => exact (task ▸ goesOn : AutoPhase.GoesOn .sleeping).elim
      case h_2 => rfl
  | quit =>
      rw [State.step, State.quit]
      split
      case h_1 task => exact (task ▸ goesOn : AutoPhase.GoesOn .sleeping).elim
      case h_2 => rfl
  | checked status =>
      rw [State.step, State.checked]
      split
      case h_1 task => exact (task ▸ goesOn : AutoPhase.GoesOn .checking).elim
      case h_2 => rfl
  | goOn => exact absurd rfl other
  | busy what =>
      rw [State.step, State.busy]
      split
      case h_1 latest task => exact (task ▸ goesOn : AutoPhase.GoesOn (.asking latest)).elim
      case h_2 version polls task =>
        exact (task ▸ goesOn : AutoPhase.GoesOn (.lingering version polls)).elim
      case h_3 => rfl
  | installed result =>
      rw [State.step, State.installed]
      split
      case h_1 latest task => exact (task ▸ goesOn : AutoPhase.GoesOn (.installing latest)).elim
      case h_2 => rfl
  | _ => exact (State.step_other env s id).1

theorem State.step_lingering {version : String} {polls : ℕ} (task : s.task = .lingering version polls)
    (other : ∀ what, taken ≠ .busy what)
    : (s.step env taken).task = s.task := by
  cases taken with
  | wake kicked => rw [State.step, State.wake, task]; exact task
  | quit => rw [State.step, State.quit, task]; exact task
  | checked status => rw [State.step, State.checked, task]; exact task
  | goOn => rw [State.step, State.goOn, task]; exact task
  | busy what => exact absurd rfl (other what)
  | installed result => rw [State.step, State.installed, task]; exact task
  | _ => exact (State.step_other env s id).1

/-- Called off, or failed. -/
def AutoPhase.Ending : AutoPhase → Prop
  | .calledOff _ => True
  | .failing _ _ => True
  | .noting _ _ => True
  | .releasing => True
  | _ => False

section Turns

variable (turns : Recurs fun n => steps n = .goOn)
include turns

theorem phase_leadsTo {phase : AutoPhase} {q r : ℕ → Prop} (goesOn : phase.GoesOn)
    (next : LeadsTo q r) (moves : ∀ n, (env.states steps n).task = phase → steps n = .goOn →
      r n ∨ q (n + 1))
    : LeadsTo (fun n => (env.states steps n).task = phase) r := by
  refine LeadsTo.stage next (fun n task => ?_) turns moves
  by_cases isTurn : steps n = .goOn
  · exact .inl (moves n task isTurn)
  · exact .inr ((State.step_goesOn (task ▸ goesOn) isTurn).trans task)

/-- The attempt ends without a restart at this step. -/
def Env.EndsAt (env : Env) (steps : ℕ → Step) (n : ℕ) : Prop :=
  (env.states steps n).task = .releasing ∧ steps n = .goOn

theorem releasing_leadsTo
    : LeadsTo (fun n => (env.states steps n).task = .releasing) (env.EndsAt steps) := by
  refine LeadsTo.ensures (fun n task => ?_) turns (fun n task isTurn => ⟨task, isTurn⟩)
  by_cases isTurn : steps n = .goOn
  · exact .inl ⟨task, isTurn⟩
  · exact .inr ((State.step_goesOn (by rw [task]; trivial) isTurn).trans task)

theorem ending_leadsTo
    : LeadsTo (fun n => (env.states steps n).task.Ending) (env.EndsAt steps) := by
  have moved {n : ℕ} (isTurn : steps n = .goOn)
      : (env.states steps (n + 1)).task = ((env.states steps n).goOn env).task := by
    rw [Env.states, isTurn, State.step]
  have noting (latest : String) (failure : InstallFailure)
      : LeadsTo (fun n => (env.states steps n).task = .noting latest failure) (env.EndsAt steps) := by
    refine phase_leadsTo turns trivial (releasing_leadsTo turns) fun n task isTurn => .inr ?_
    rw [moved isTurn, State.goOn, task]
  intro n ending
  cases task : (env.states steps n).task with
  | calledOff latest =>
      refine phase_leadsTo turns (by trivial) (releasing_leadsTo turns) (fun n task isTurn => .inr ?_)
        n task
      rw [moved isTurn, State.goOn, task]
  | failing latest failure =>
      refine phase_leadsTo turns (by trivial) (noting latest failure) (fun n task isTurn => .inr ?_) n task
      rw [moved isTurn, State.goOn, task]
  | noting latest failure => exact noting latest failure n task
  | releasing => exact releasing_leadsTo turns n task
  | _ =>
      rw [task] at ending
      exact ending.elim

/-- The restart is asked for at this step. -/
def Env.RestartsAt (env : Env) (steps : ℕ → Step) (n : ℕ) : Prop :=
  ∃ version, (env.states steps (n + 1)).log = (env.states steps n).log ++ [.restarted version]

theorem restarting_leadsTo (version : String)
    : LeadsTo (fun n => (env.states steps n).task = .restarting version) (env.RestartsAt steps) := by
  have restarts (n : ℕ) (task : (env.states steps n).task = .restarting version)
      (isTurn : steps n = .goOn)
      : env.RestartsAt steps n := by
    refine ⟨version, ?_⟩
    rw [Env.states, isTurn, State.step, State.goOn, task]
  refine LeadsTo.ensures (fun n task => ?_) turns restarts
  by_cases isTurn : steps n = .goOn
  · exact .inl (restarts n task isTurn)
  · exact .inr ((State.step_goesOn (by rw [task]; trivial) isTurn).trans task)

variable (answers : Recurs fun n => ∃ what, steps n = .busy what)
include answers

theorem lingering_leadsTo (version : String) (left polls : ℕ) (enough : 12 ≤ polls + 1 + left)
    : LeadsTo (fun n => (env.states steps n).task = .lingering version polls)
        (env.RestartsAt steps) := by
  induction left generalizing polls with
  | zero =>
      refine LeadsTo.stage (restarting_leadsTo turns version) (fun n task => ?_) answers ?_
      · by_cases isTurn : ∃ what, steps n = .busy what
        · obtain ⟨what, isTurn⟩ := isTurn
          refine .inl (.inr ?_)
          rw [Env.states, isTurn, State.step, State.busy, task]
          exact congrArg State.task (if_pos (.inr enough))
        · exact .inr ((State.step_lingering task (not_exists.mp isTurn)).trans task)
      · rintro n task ⟨what, isTurn⟩
        refine .inr ?_
        rw [Env.states, isTurn, State.step, State.busy, task]
        exact congrArg State.task (if_pos (.inr enough))
  | succ left ih =>
      have next : LeadsTo (fun n => (env.states steps n).task = .restarting version
          ∨ (env.states steps n).task = .lingering version (polls + 1)) (env.RestartsAt steps) := by
        rintro n (task | task)
        · exact restarting_leadsTo turns version n task
        · exact ih (polls + 1) (by omega) n task
      have answered (n : ℕ) (task : (env.states steps n).task = .lingering version polls)
          (isTurn : ∃ what, steps n = .busy what)
          : (env.states steps (n + 1)).task = .restarting version
            ∨ (env.states steps (n + 1)).task = .lingering version (polls + 1) := by
        obtain ⟨what, isTurn⟩ := isTurn
        rw [Env.states, isTurn, State.step, State.busy, task]
        dsimp only
        split_ifs
        · exact .inl rfl
        · exact .inr rfl
      refine LeadsTo.stage next (fun n task => ?_) answers
        (fun n task isTurn => .inr (answered n task isTurn))
      by_cases isTurn : ∃ what, steps n = .busy what
      · exact .inl (.inr (answered n task isTurn))
      · exact .inr ((State.step_lingering task (not_exists.mp isTurn)).trans task)

theorem succeeded_leadsTo
    : LeadsTo (fun n => (env.states steps n).task.Succeeded) (env.RestartsAt steps) := by
  intro n succeeded
  cases task : (env.states steps n).task with
  | succeeded version =>
      refine phase_leadsTo turns (by trivial)
        (lingering_leadsTo turns answers version 11 0 (by decide)) (fun n task isTurn => .inr ?_)
        n task
      rw [Env.states, isTurn, State.step, State.goOn, task]
  | lingering version polls =>
      exact lingering_leadsTo turns answers version 12 polls (by omega) n task
  | restarting version => exact restarting_leadsTo turns version n task
  | _ =>
      rw [task] at succeeded
      exact succeeded.elim

end Turns

-- Updates

/-- The owner's installation is running. -/
def State.Installs (s : State) : Owner → Prop
  | .auto => ∃ latest, s.task = .installing latest
  | .manual call => ∃ current wholeRelease, s.calls call = .installing current wholeRelease

theorem State.Installs.holds {owner : Owner} (installs : s.Installs owner) : s.Holds owner := by
  cases owner with
  | auto =>
      obtain ⟨latest, task⟩ := installs
      rw [State.Holds, task]
      trivial
  | manual call =>
      obtain ⟨current, wholeRelease, phase⟩ := installs
      rw [State.Holds, phase]
      trivial

/-- The owner begins to install at this step. -/
def Env.BeginsAt (env : Env) (steps : ℕ → Step) (owner : Owner) (version : Option String) (n : ℕ)
    : Prop :=
  (env.states steps (n + 1)).log = (env.states steps n).log ++ [.began owner version]

theorem Env.BeginsAt.shows {owner : Owner} {version : Option String} {n : ℕ}
    (begins : env.BeginsAt steps owner version n)
    : Shows (env.states steps n) (steps n) [.began owner version] := by
  obtain ⟨added, log, shown⟩ := State.step_log env (env.states steps n) (steps n)
  rwa [List.append_cancel_left (log.symm.trans begins)] at shown

end MokuroBunko.Server.Update
