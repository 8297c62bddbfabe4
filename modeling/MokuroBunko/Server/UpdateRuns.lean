import MokuroBunko.Server.UpdateService

/-! Who holds the flag of the updates: at most one installation runs, and none begins after one that
succeeded.
-/

namespace MokuroBunko.Server.Update

variable {env : Env} {s next : State} {owner : Owner}

-- Custody

/-- What the flag is for: it is free, or someone's, or kept for good after an installation. -/
inductive Custody where
  | free
  | held (owner : Owner)
  | kept

/-- The flag is taken while it is free, and given back or kept by who holds it. -/
inductive Custody.Moves : Custody → Custody → Prop
  | stay (custody : Custody) : Moves custody custody
  | take (owner : Owner) : Moves .free (.held owner)
  | release (owner : Owner) : Moves (.held owner) .free
  | keep (owner : Owner) : Moves (.held owner) .kept

/-- The flag is this task's. -/
def AutoPhase.Holds : AutoPhase → Prop
  | .holding _ => True
  | .round _ => True
  | .asking _ => True
  | .pausing _ => True
  | .calledOff _ => True
  | .installing _ => True
  | .failing _ _ => True
  | .noting _ _ => True
  | .releasing => True
  | _ => False

/-- The task installed and is about to restart. -/
def AutoPhase.Succeeded : AutoPhase → Prop
  | .succeeded _ => True
  | .lingering _ _ => True
  | .restarting _ => True
  | _ => False

/-- The flag is this call's. -/
def CallPhase.Holds : CallPhase → Prop
  | .looking => True
  | .checking _ => True
  | .deciding _ => True
  | .installing _ _ => True
  | .refusing _ _ => True
  | _ => False

def State.Holds (s : State) : Owner → Prop
  | .auto => s.task.Holds
  | .manual call => (s.calls call).Holds

/-- An installation succeeded. -/
def State.Done (s : State) : Prop :=
  (∃ owner version, .installed owner version ∈ s.log) ∨ (∃ version, .restarted version ∈ s.log)
    ∨ s.task.Succeeded

/-- The state is one of the custody. -/
structure Keeps (s : State) (custody : Custody) : Prop where
  flag : s.applying = false ↔ custody = .free
  holds : ∀ owner, s.Holds owner ↔ custody = .held owner
  done : s.Done → custody = .kept

/-- A step that concerns one owner leaves the others where they are. -/
def Others (s next : State) (owner : Owner) : Prop :=
  ∀ other, other ≠ owner → (next.Holds other ↔ s.Holds other)

theorem others_auto (calls : next.calls = s.calls) : Others s next .auto := by
  intro other differ
  cases other with
  | auto => exact absurd rfl differ
  | manual call => rw [State.Holds, State.Holds, calls]

theorem others_setCall (call : ℕ) (phase : CallPhase)
    : Others s (s.setCall call phase) (.manual call) := by
  intro other differ
  cases other with
  | auto => exact .rfl
  | manual found =>
      have differ : found ≠ call := fun same => differ (congrArg Owner.manual same)
      rw [State.Holds, State.Holds, s.setCall_other differ]

theorem holds_setCall (call : ℕ) (phase : CallPhase)
    : (s.setCall call phase).Holds (.manual call) ↔ phase.Holds := by
  rw [State.Holds, State.setCall_self]

namespace Keeps

variable {custody : Custody}

theorem stay (keeps : Keeps s custody) (flag : next.applying = s.applying)
    (others : Others s next owner) (holds : next.Holds owner ↔ s.Holds owner)
    (done : next.Done → s.Done)
    : ∃ moved, custody.Moves moved ∧ Keeps next moved := by
  refine ⟨custody, .stay custody, by rw [flag]; exact keeps.flag, ?_, keeps.done ∘ done⟩
  intro other
  by_cases same : other = owner
  · subst same
    exact holds.trans (keeps.holds other)
  · exact (others other same).trans (keeps.holds other)

theorem take (owner : Owner) (keeps : Keeps s custody) (free : s.applying = false) (flag : next.applying = true)
    (others : Others s next owner) (holds : next.Holds owner) (done : next.Done → s.Done)
    : ∃ moved, custody.Moves moved ∧ Keeps next moved := by
  obtain rfl := keeps.flag.mp free
  refine ⟨.held owner, .take owner, ⟨fun now => ?_, nofun⟩, ?_, fun now => ?_⟩
  · rw [flag] at now
    cases now
  · intro other
    by_cases same : other = owner
    · subst same
      exact ⟨fun _ => rfl, fun _ => holds⟩
    · refine (others other same).trans ((keeps.holds other).trans ⟨nofun, fun isHeld => ?_⟩)
      exact absurd (Custody.held.inj isHeld).symm same
  · cases keeps.done (done now)

theorem leave (keeps : Keeps s custody) (held : s.Holds owner) (others : Others s next owner)
    (left : ¬next.Holds owner) (after : Custody) (notHeld : ∀ other, after ≠ .held other)
    : ∀ other, next.Holds other ↔ after = .held other := by
  obtain rfl := (keeps.holds owner).mp held
  refine fun other => ⟨fun holds => ?_, fun isHeld => absurd isHeld (notHeld other)⟩
  by_cases same : other = owner
  · subst same
    exact absurd holds left
  · have isHeld := (keeps.holds other).mp ((others other same).mp holds)
    exact absurd (Custody.held.inj isHeld).symm same

theorem release (owner : Owner) (keeps : Keeps s custody) (held : s.Holds owner) (flag : next.applying = false)
    (others : Others s next owner) (left : ¬next.Holds owner) (done : next.Done → s.Done)
    : ∃ moved, custody.Moves moved ∧ Keeps next moved := by
  have isHeld := (keeps.holds owner).mp held
  refine ⟨.free, isHeld ▸ .release owner, ⟨fun _ => rfl, fun _ => flag⟩,
    keeps.leave held others left .free nofun, fun now => ?_⟩
  cases isHeld.symm.trans (keeps.done (done now))

theorem keep (owner : Owner) (keeps : Keeps s custody) (held : s.Holds owner) (flag : next.applying = s.applying)
    (others : Others s next owner) (left : ¬next.Holds owner)
    : ∃ moved, custody.Moves moved ∧ Keeps next moved := by
  have isHeld := (keeps.holds owner).mp held
  refine ⟨.kept, isHeld ▸ .keep owner, ⟨fun now => ?_, nofun⟩,
    keeps.leave held others left .kept nofun, fun _ => rfl⟩
  cases isHeld.symm.trans (keeps.flag.mp (flag.symm.trans now))

theorem idle (keeps : Keeps s custody) (flag : next.applying = s.applying)
    (task : next.task = s.task) (calls : next.calls = s.calls) (log : next.log = s.log)
    : ∃ moved, custody.Moves moved ∧ Keeps next moved := by
  refine keeps.stay flag (others_auto calls) ?_ ?_
  · rw [State.Holds, State.Holds, task]
  · rw [State.Done, State.Done, task, log]
    exact id

theorem stayAuto (keeps : Keeps s custody) (flag : next.applying = s.applying)
    (calls : next.calls = s.calls) (holds : next.task.Holds ↔ s.task.Holds)
    (succeeded : next.task.Succeeded → s.task.Succeeded)
    (installed : ∀ owner version, .installed owner version ∈ next.log →
      .installed owner version ∈ s.log)
    (restarted : ∀ version, .restarted version ∈ next.log →
      .restarted version ∈ s.log ∨ s.task.Succeeded)
    : ∃ moved, custody.Moves moved ∧ Keeps next moved := by
  refine keeps.stay flag (others_auto calls) holds ?_
  rintro (⟨owner, version, member⟩ | ⟨version, member⟩ | now)
  · exact .inl ⟨owner, version, installed owner version member⟩
  · rcases restarted version member with before | before
    · exact .inr (.inl ⟨version, before⟩)
    · exact .inr (.inr before)
  · exact .inr (.inr (succeeded now))

theorem stayCall (keeps : Keeps s custody) {call : ℕ} {phase : CallPhase}
    (holds : phase.Holds ↔ (s.calls call).Holds) (flag : next.applying = s.applying)
    (task : next.task = s.task) (calls : next.calls = (s.setCall call phase).calls)
    (installed : ∀ owner version, .installed owner version ∈ next.log →
      .installed owner version ∈ s.log)
    (restarted : ∀ version, .restarted version ∈ next.log → .restarted version ∈ s.log)
    : ∃ moved, custody.Moves moved ∧ Keeps next moved := by
  have others : Others s next (.manual call) := fun other differ => by
    refine Iff.trans ?_ (others_setCall call phase other differ)
    cases other with
    | auto => rw [State.Holds, State.Holds, task]; rfl
    | manual found => rw [State.Holds, State.Holds, calls]
  refine keeps.stay flag others ?_ ?_
  · rw [State.Holds, State.Holds, calls, State.setCall_self]
    exact holds
  · rw [State.Done, State.Done, task]
    exact Or.imp (fun ⟨owner, version, member⟩ => ⟨owner, version, installed owner version member⟩)
      (Or.imp_left fun ⟨version, member⟩ => ⟨version, restarted version member⟩)

-- Steps

theorem goOn (keeps : Keeps s custody)
    : ∃ moved, custody.Moves moved ∧ Keeps (s.goOn env) moved := by
  have same : ∃ moved, custody.Moves moved ∧ Keeps s moved := ⟨custody, .stay custody, keeps⟩
  -- The phases before the flag is taken and those after it was given back.
  have before {next : State} (none : ¬s.task.Holds) (flag : next.applying = s.applying)
      (calls : next.calls = s.calls) (log : next.log = s.log) (left : ¬next.task.Holds)
      (succeeded : next.task.Succeeded → s.task.Succeeded)
      : ∃ moved, custody.Moves moved ∧ Keeps next moved :=
    keeps.stayAuto flag calls (iff_of_false left none) succeeded (by rw [log]; exact fun _ _ => id)
      (by rw [log]; exact fun _ => .inl)
  -- The phases in between.
  have within {next : State} (held : s.task.Holds) (flag : next.applying = s.applying)
      (calls : next.calls = s.calls) (log : next.log = s.log) (holds : next.task.Holds)
      (succeeded : ¬next.task.Succeeded)
      : ∃ moved, custody.Moves moved ∧ Keeps next moved :=
    keeps.stayAuto flag calls (iff_of_true holds held) (fun now => absurd now succeeded)
      (by rw [log]; exact fun _ _ => id) (by rw [log]; exact fun _ => .inl)
  unfold State.goOn
  split
  case h_1 status task =>
    split_ifs
    · exact before (by rw [task]; exact id) rfl rfl rfl id False.elim
    · exact before (by rw [task]; exact id) rfl rfl rfl id False.elim
  case h_2 status task =>
    split
    · exact before (by rw [task]; exact id) rfl rfl rfl id False.elim
    · split
      · exact before (by rw [task]; exact id) rfl rfl rfl id False.elim
      · split_ifs
        · exact before (by rw [task]; exact id) rfl rfl rfl id False.elim
        · exact before (by rw [task]; exact id) rfl rfl rfl id False.elim
  case h_3 latest task =>
    split_ifs
    · exact before (by rw [task]; exact id) rfl rfl rfl id False.elim
    · exact before (by rw [task]; exact id) rfl rfl rfl id False.elim
  case h_4 latest task =>
    split_ifs
    · exact before (by rw [task]; exact id) rfl rfl rfl id False.elim
    · exact before (by rw [task]; exact id) rfl rfl rfl id False.elim
  case h_5 latest task =>
    split_ifs with taken
    · exact before (by rw [task]; exact id) rfl rfl rfl id False.elim
    · refine keeps.take .auto (by simpa using taken) rfl (others_auto rfl) trivial ?_
      rintro (installed | restarted | now)
      · exact .inl installed
      · exact .inr (.inl restarted)
      · exact now.elim
  case h_6 latest task => exact within (by rw [task]; trivial) rfl rfl rfl trivial id
  case h_7 latest task =>
    split_ifs
    · exact within (by rw [task]; trivial) rfl rfl rfl trivial id
    · exact within (by rw [task]; trivial) rfl rfl rfl trivial id
  case h_8 latest task => exact within (by rw [task]; trivial) rfl rfl rfl trivial id
  case h_9 latest task => exact within (by rw [task]; trivial) rfl rfl rfl trivial id
  case h_10 version task =>
    exact before (by rw [task]; exact id) rfl rfl rfl id fun _ => by rw [task]; trivial
  case h_11 version task =>
    refine keeps.stayAuto rfl rfl (iff_of_false id (by rw [task]; exact id)) False.elim ?_ ?_
    · intro owner version member
      simpa using member
    · exact fun _ _ => .inr (by rw [task]; trivial)
  case h_12 latest failure task => exact within (by rw [task]; trivial) rfl rfl rfl trivial id
  case h_13 latest failure task => exact within (by rw [task]; trivial) rfl rfl rfl trivial id
  case h_14 task =>
    refine keeps.release .auto (by rw [State.Holds, task]; trivial) rfl (others_auto rfl)
      id ?_
    rintro (installed | restarted | now)
    · exact .inl installed
    · exact .inr (.inl restarted)
    · exact now.elim
  case h_15 => exact same

theorem looks (keeps : Keeps s custody) (none : ¬s.task.Holds) (flag : next.applying = s.applying)
    (calls : next.calls = s.calls) (log : next.log = s.log) (left : ¬next.task.Holds)
    (succeeded : ¬next.task.Succeeded)
    : ∃ moved, custody.Moves moved ∧ Keeps next moved :=
  keeps.stayAuto flag calls (iff_of_false left none) (fun now => absurd now succeeded)
    (by rw [log]; exact fun _ _ => id) (by rw [log]; exact fun _ => .inl)

theorem wake (keeps : Keeps s custody) (kicked : Bool)
    : ∃ moved, custody.Moves moved ∧ Keeps (s.wake env kicked) moved := by
  unfold State.wake
  split
  case h_1 task =>
    split_ifs
    · exact keeps.looks (by rw [task]; exact id) rfl rfl rfl id id
    · exact keeps.looks (by rw [task]; exact id) rfl rfl rfl id id
    · exact ⟨custody, .stay custody, keeps⟩
  case h_2 => exact ⟨custody, .stay custody, keeps⟩

theorem quit (keeps : Keeps s custody) : ∃ moved, custody.Moves moved ∧ Keeps s.quit moved := by
  unfold State.quit
  split
  case h_1 task =>
    split_ifs
    · exact keeps.looks (by rw [task]; exact id) rfl rfl rfl id id
    · exact ⟨custody, .stay custody, keeps⟩
  case h_2 => exact ⟨custody, .stay custody, keeps⟩

theorem checked (keeps : Keeps s custody) (status : UpdateStatus)
    : ∃ moved, custody.Moves moved ∧ Keeps (s.checked status) moved := by
  unfold State.checked
  split
  case h_1 task => exact keeps.looks (by rw [task]; exact id) rfl rfl rfl id id
  case h_2 => exact ⟨custody, .stay custody, keeps⟩

theorem busy (keeps : Keeps s custody) (what : Option String)
    : ∃ moved, custody.Moves moved ∧ Keeps (s.busy what) moved := by
  unfold State.busy
  split
  case h_1 latest task =>
    have held : s.task.Holds := by rw [task]; trivial
    cases what with
    | none =>
        refine keeps.stayAuto rfl rfl (iff_of_true trivial held) False.elim ?_ ?_
        · intro owner version member
          simpa using member
        · intro version member
          exact .inl (by simpa using member)
    | some text =>
        exact keeps.stayAuto rfl rfl (iff_of_true trivial held) False.elim (fun _ _ => id)
          fun _ => .inl
  case h_2 version polls task =>
    have none : ¬s.task.Holds := by rw [task]; exact id
    have succeeded : s.task.Succeeded := by rw [task]; trivial
    split_ifs
    · exact keeps.stayAuto rfl rfl (iff_of_false id none) (fun _ => succeeded) (fun _ _ => id)
        fun _ => .inl
    · exact keeps.stayAuto rfl rfl (iff_of_false id none) (fun _ => succeeded) (fun _ _ => id)
        fun _ => .inl
  case h_3 => exact ⟨custody, .stay custody, keeps⟩

theorem installed (keeps : Keeps s custody) (result : Except InstallFailure String)
    : ∃ moved, custody.Moves moved ∧ Keeps (s.installed result) moved := by
  unfold State.installed
  split
  case h_1 latest task =>
    have held : s.task.Holds := by rw [task]; trivial
    cases result with
    | ok version => exact keeps.keep .auto held rfl (others_auto rfl) id
    | error failure =>
        exact keeps.stayAuto rfl rfl (iff_of_true trivial held) False.elim (fun _ _ => id)
          fun _ => .inl
  case h_2 => exact ⟨custody, .stay custody, keeps⟩

theorem apply (keeps : Keeps s custody) (call : ℕ)
    : ∃ moved, custody.Moves moved ∧ Keeps (s.apply call) moved := by
  unfold State.apply
  split
  case h_1 absent =>
    split_ifs with taken
    · exact keeps.stayCall (iff_of_false id (by rw [absent]; exact id)) rfl rfl rfl (fun _ _ => id)
        fun _ => id
    · exact keeps.take (.manual call) (by simpa using taken) rfl
        (others_setCall (s := s) call .looking) ((holds_setCall call .looking).mpr trivial) id
  case h_2 => exact ⟨custody, .stay custody, keeps⟩

theorem callGoOn (keeps : Keeps s custody) (call : ℕ)
    : ∃ moved, custody.Moves moved ∧ Keeps (s.callGoOn env call) moved := by
  have within {phase : CallPhase} (held : (s.calls call).Holds) (holds : phase.Holds)
      : ∃ moved, custody.Moves moved ∧ Keeps (s.setCall call phase) moved :=
    keeps.stayCall (iff_of_true holds held) rfl rfl rfl (fun _ _ => id) fun _ => id
  unfold State.callGoOn
  split
  case h_1 looking =>
    dsimp only
    split_ifs
    · exact within (by rw [looking]; trivial) trivial
    · exact within (by rw [looking]; trivial) trivial
    · exact within (by rw [looking]; trivial) trivial
  case h_2 status deciding =>
    split_ifs
    · exact within (by rw [deciding]; trivial) trivial
    · exact within (by rw [deciding]; trivial) trivial
    · refine keeps.stayCall (iff_of_true (by trivial) (by rw [deciding]; trivial)) rfl rfl rfl ?_ ?_
      · intro owner version member
        simpa using member
      · intro version member
        simpa using member
  case h_3 current version clearing =>
    exact keeps.stayCall (iff_of_false id (by rw [clearing]; exact id)) rfl rfl rfl (fun _ _ => id)
      fun _ => id
  case h_4 status message refusing =>
    refine keeps.release (.manual call) (by rw [State.Holds, refusing]; trivial) rfl
      (others_setCall (s := s) call _) ?_ id
    exact fun holds => (holds_setCall call _).mp holds
  case h_5 => exact ⟨custody, .stay custody, keeps⟩

theorem callChecked (keeps : Keeps s custody) (call : ℕ) (status : UpdateStatus)
    : ∃ moved, custody.Moves moved ∧ Keeps (s.callChecked call status) moved := by
  unfold State.callChecked
  split
  case h_1 again checking =>
    refine keeps.stayCall (iff_of_true ?_ (by rw [checking]; trivial)) rfl rfl rfl (fun _ _ => id)
      fun _ => id
    split_ifs <;> trivial
  case h_2 => exact ⟨custody, .stay custody, keeps⟩

theorem callInstalled (keeps : Keeps s custody) (call : ℕ) (result : Except String String)
    : ∃ moved, custody.Moves moved ∧ Keeps (s.callInstalled call result) moved := by
  unfold State.callInstalled
  split
  case h_1 current wholeRelease installing =>
    have held : (s.calls call).Holds := by rw [installing]; trivial
    cases result with
    | ok version =>
        refine keeps.keep (.manual call) held rfl (others_setCall (s := s) call _) ?_
        intro holds
        have left := (holds_setCall call _).mp holds
        revert left
        split_ifs <;> exact id
    | error message =>
        exact keeps.stayCall (iff_of_true (by trivial) held) rfl rfl rfl (fun _ _ => id) fun _ => id
  case h_2 => exact ⟨custody, .stay custody, keeps⟩

theorem callDropped (keeps : Keeps s custody) (call : ℕ)
    : ∃ moved, custody.Moves moved ∧ Keeps (s.callDropped call) moved := by
  unfold State.callDropped
  split
  case h_1 again checking =>
    exact keeps.keep (.manual call) (by rw [State.Holds, checking]; trivial) rfl
      (others_setCall call _) fun holds => (holds_setCall call _).mp holds
  case h_2 current wholeRelease installing =>
    exact keeps.keep (.manual call) (by rw [State.Holds, installing]; trivial) rfl
      (others_setCall call _) fun holds => (holds_setCall call _).mp holds
  case h_3 => exact ⟨custody, .stay custody, keeps⟩

theorem step (keeps : Keeps s custody) (taken : Step)
    : ∃ moved, custody.Moves moved ∧ Keeps (s.step env taken) moved := by
  cases taken with
  | pass elapsed => exact keeps.idle rfl rfl rfl rfl
  | settings auto check => exact keeps.idle rfl rfl rfl rfl
  | recordBlocked blocked => exact keeps.idle rfl rfl rfl rfl
  | stop => exact keeps.idle rfl rfl rfl rfl
  | refreshed status => exact keeps.idle rfl rfl rfl rfl
  | wake kicked => exact keeps.wake kicked
  | quit => exact keeps.quit
  | checked status => exact keeps.checked status
  | goOn => exact keeps.goOn
  | busy what => exact keeps.busy what
  | installed result => exact keeps.installed result
  | apply call => exact keeps.apply call
  | callGoOn call => exact keeps.callGoOn call
  | callChecked call status => exact keeps.callChecked call status
  | callInstalled call result => exact keeps.callInstalled call result
  | callDropped call => exact keeps.callDropped call

end Keeps

end MokuroBunko.Server.Update
