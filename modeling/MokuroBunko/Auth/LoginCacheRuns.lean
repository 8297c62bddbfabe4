import MokuroBunko.Auth.LoginCache
import Mathlib

/-! Logins beside account operations. A password check reads the version, then the database, and then
inserts into the cache; a cached login reads the version and then looks into the cache; an operation
commits and then moves the version.
-/

namespace MokuroBunko.Auth

open MokuroBunko.Db MokuroBunko.Lib

/-- A check of a name and a password that succeeded: what the database gave, and how many operations
had committed by then.
-/
structure LoginCheck where
  username : String
  password : String
  user : AuthUser
  readAt : ℕ

/-- A `check_password` that has read the version, or the database too. -/
structure StartedCheck where
  username : String
  password : String
  version : ℕ

structure ReadCheck where
  check : LoginCheck
  version : ℕ

/-- A `cached_login` that has read the version. The operations that had returned by then are noted,
by how many had committed with them.
-/
structure StartedLogin where
  username : String
  password : String
  version : ℕ
  returned : List ℕ

/-- A `cached_login` that gave a user. -/
structure LoginAnswer where
  username : String
  password : String
  user : AuthUser
  returned : List ℕ

structure LoginRun (Digest : Type) where
  tables : Tables
  version : ℕ
  entries : List (Digest × CachedLogin)
  /-- The tables before each operation that has committed. -/
  past : List Tables
  committed : List ℕ
  returned : List ℕ
  started : List StartedCheck
  read : List ReadCheck
  checks : List LoginCheck
  logins : List StartedLogin
  answers : List LoginAnswer

inductive LoginStep where
  | beginCheck (username password : String)
  | readDatabase (index : ℕ)
  | insert (index : ℕ) (now : ℚ)
  | beginLogin (username password : String)
  | lookUp (index : ℕ) (now : ℚ)
  | commit (op : AccountOp)
  | finish (index : ℕ)

namespace LoginRun

variable {Digest : Type} [DecidableEq Digest] (bcrypt : Bcrypt) (sha256 : ByteArray → Digest)
  (salt : ByteArray)

def step (run : LoginRun Digest) : LoginStep → LoginRun Digest
  | .beginCheck username password =>
      { run with started := run.started ++ [⟨username, password, run.version⟩] }
  | .readDatabase index =>
      match run.started[index]? with
      | none => run
      | some call =>
          let started := run.started.eraseIdx index
          match run.tables.authenticateUser bcrypt call.username call.password with
          | none => { run with started }
          | some user =>
              let check : LoginCheck := ⟨call.username, call.password, toAuth user, run.past.length⟩
              {
                run with
                started
                read := run.read ++ [⟨check, call.version⟩]
                checks := run.checks ++ [check]
              }
  | .insert index now =>
      match run.read[index]? with
      | none => run
      | some call =>
          let key := loginKey sha256 salt call.check.username call.check.password
          {
            run with
            read := run.read.eraseIdx index
            entries := insertLogin run.entries key ⟨call.check.user, call.version, now⟩ now
          }
  | .beginLogin username password =>
      {
        run with
        logins := run.logins ++ [⟨username, password, run.version, run.returned⟩]
      }
  | .lookUp index now =>
      match run.logins[index]? with
      | none => run
      | some call =>
          let key := loginKey sha256 salt call.username call.password
          let (found, entries) := Auth.lookUp run.entries key call.version now
          {
            run with
            entries
            logins := run.logins.eraseIdx index
            answers := run.answers
              ++ found.toList.map
                (fun user => ⟨call.username, call.password, user, call.returned⟩)
          }
  | .commit op =>
      {
        run with
        tables := op.run bcrypt run.tables
        past := run.past ++ [run.tables]
        committed := run.committed ++ [run.past.length + 1]
      }
  | .finish index =>
      match run.committed[index]? with
      | none => run
      | some commit =>
          {
            run with
            version := run.version + 1
            committed := run.committed.eraseIdx index
            returned := run.returned ++ [commit]
          }

def steps (run : LoginRun Digest) (steps : List LoginStep) : LoginRun Digest :=
  steps.foldl (step bcrypt sha256 salt) run

/-- The server has just started. -/
def start (tables : Tables) : LoginRun Digest where
  tables := tables
  version := 0
  entries := []
  past := []
  committed := []
  returned := []
  started := []
  read := []
  checks := []
  logins := []
  answers := []

/-- The check read the tables as they were after so many operations. -/
def Checked (run : LoginRun Digest) (check : LoginCheck) : Prop :=
  ∃ tables user, (run.past ++ [run.tables])[check.readAt]? = some tables
    ∧ tables.authenticateUser bcrypt check.username check.password = some user
    ∧ toAuth user = check.user

/-- Each answer was checked: with the same name and password, and after every operation that had
returned when the login began.
-/
def Sound (run : LoginRun Digest) : Prop :=
  ∀ answer ∈ run.answers, ∃ check ∈ run.checks,
    check.username = answer.username ∧ check.password = answer.password
      ∧ check.user = answer.user ∧ run.Checked bcrypt check
      ∧ ∀ commit ∈ answer.returned, commit ≤ check.readAt

-- The invariant

section Invariants

variable {bcrypt sha256 salt} {run : LoginRun Digest}

/-- What was read before the version moved: whatever returned since has moved it. -/
structure Current (run : LoginRun Digest) (readAt version : ℕ) : Prop where
  past : version ≤ run.version
  moved : ∀ commit ∈ run.returned, readAt < commit → version < run.version
  logins : ∀ login ∈ run.logins, version = login.version → ∀ commit ∈ login.returned, commit ≤ readAt

variable (bcrypt sha256 salt) in
structure Invariant (run : LoginRun Digest) : Prop where
  names : NulFreeNames run.tables
  counted : ∀ commit ∈ run.committed ++ run.returned, commit ≤ run.past.length
  started : ∀ call ∈ run.started, call.version ≤ run.version
  checks : ∀ check ∈ run.checks, run.Checked bcrypt check ∧ NulFree check.username
  read : ∀ call ∈ run.read, call.check ∈ run.checks ∧ run.Current call.check.readAt call.version
  entries
    : ∀ entry ∈ run.entries, ∃ check ∈ run.checks,
        entry.1 = loginKey sha256 salt check.username check.password
          ∧ entry.2.user = check.user ∧ run.Current check.readAt entry.2.version
  logins
    : ∀ login ∈ run.logins,
        NulFree login.username ∧ ∀ commit ∈ login.returned, commit ≤ run.past.length
  sound : run.Sound bcrypt

omit [DecidableEq Digest] in
theorem start_invariant {tables : Tables} (names : NulFreeNames tables)
    : Invariant bcrypt sha256 salt (start tables : LoginRun Digest) := by
  constructor
  case names => exact names
  all_goals
    intro value isIn
    exact absurd isIn List.not_mem_nil

omit [DecidableEq Digest] in
theorem Current.kept {readAt version : ℕ} {after : LoginRun Digest}
    (current : run.Current readAt version) (sameVersion : after.version = run.version)
    (sameReturned : after.returned = run.returned) (logins : after.logins ⊆ run.logins)
    : after.Current readAt version := by
  refine ⟨?_, ?_, ?_⟩
  · rw [sameVersion]
    exact current.past
  · rw [sameVersion, sameReturned]
    exact current.moved
  · intro login isLogin
    exact current.logins login (logins isLogin)

omit [DecidableEq Digest] in
theorem Invariant.current_now (holds : run.Invariant bcrypt sha256 salt) {version : ℕ}
    (past : version ≤ run.version)
    : run.Current run.past.length version := by
  refine ⟨past, ?_, ?_⟩
  · intro commit returned later
    have counted := holds.counted commit (List.mem_append_right _ returned)
    omega
  · intro login isLogin _
    exact (holds.logins login isLogin).2

theorem step_beginCheck (holds : run.Invariant bcrypt sha256 salt) (username password : String)
    : (run.step bcrypt sha256 salt (.beginCheck username password)).Invariant bcrypt sha256 salt := by
  refine { holds with started := ?_, read := ?_, entries := ?_ }
  · intro call isCall
    obtain isOld | isNew := List.mem_append.mp isCall
    · exact holds.started call isOld
    · rw [List.mem_singleton.mp isNew]
      exact Nat.le_refl run.version
  · intro call isCall
    obtain ⟨isCheck, current⟩ := holds.read call isCall
    exact ⟨isCheck, current.kept rfl rfl (List.Subset.refl _)⟩
  · intro entry isEntry
    obtain ⟨check, isCheck, key, user, current⟩ := holds.entries entry isEntry
    exact ⟨check, isCheck, key, user, current.kept rfl rfl (List.Subset.refl _)⟩

theorem step_readDatabase (holds : run.Invariant bcrypt sha256 salt) (index : ℕ)
    : (run.step bcrypt sha256 salt (.readDatabase index)).Invariant bcrypt sha256 salt := by
  simp only [step]
  split
  · exact holds
  rename_i call isCall
  have started : ∀ other ∈ run.started.eraseIdx index, other.version ≤ run.version := by
    intro other isOther
    exact holds.started other ((List.eraseIdx_sublist _ _).subset isOther)
  split
  · refine { holds with started := started, read := ?_, entries := ?_ }
    · intro other isOther
      obtain ⟨isCheck, current⟩ := holds.read other isOther
      exact ⟨isCheck, current.kept rfl rfl (List.Subset.refl _)⟩
    · intro entry isEntry
      obtain ⟨check, isCheck, key, user, current⟩ := holds.entries entry isEntry
      exact ⟨check, isCheck, key, user, current.kept rfl rfl (List.Subset.refl _)⟩
  rename_i user isUser
  have past := holds.started call (List.mem_of_getElem? isCall)
  refine { holds with started := started, checks := ?_, read := ?_, entries := ?_, sound := ?_ }
  · intro check isCheck
    obtain isOld | isNew := List.mem_append.mp isCheck
    · exact holds.checks check isOld
    · rw [List.mem_singleton.mp isNew]
      refine ⟨⟨run.tables, user, ?_, isUser, rfl⟩, authenticateUser_nulFree holds.names isUser⟩
      simp only [List.getElem?_concat_length]
  · intro other isOther
    obtain isOld | isNew := List.mem_append.mp isOther
    · obtain ⟨isCheck, current⟩ := holds.read other isOld
      exact ⟨List.mem_append_left _ isCheck, current.kept rfl rfl (List.Subset.refl _)⟩
    · rw [List.mem_singleton.mp isNew]
      exact ⟨List.mem_append_right _ List.mem_cons_self,
        (holds.current_now past).kept rfl rfl (List.Subset.refl _)⟩
  · intro entry isEntry
    obtain ⟨check, isCheck, key, user, current⟩ := holds.entries entry isEntry
    exact ⟨check, List.mem_append_left _ isCheck, key, user,
      current.kept rfl rfl (List.Subset.refl _)⟩
  · intro answer isAnswer
    obtain ⟨check, isCheck, facts⟩ := holds.sound answer isAnswer
    exact ⟨check, List.mem_append_left _ isCheck, facts⟩

theorem step_insert (holds : run.Invariant bcrypt sha256 salt) (index : ℕ) (now : ℚ)
    : (run.step bcrypt sha256 salt (.insert index now)).Invariant bcrypt sha256 salt := by
  simp only [step]
  split
  · exact holds
  rename_i call isCall
  refine { holds with read := ?_, entries := ?_ }
  · intro other isOther
    obtain ⟨isCheck, current⟩ := holds.read other ((List.eraseIdx_sublist _ _).subset isOther)
    exact ⟨isCheck, current.kept rfl rfl (List.Subset.refl _)⟩
  · intro entry isEntry
    obtain isNew | isOld := mem_insertLogin isEntry
    · subst isNew
      obtain ⟨isCheck, current⟩ := holds.read call (List.mem_of_getElem? isCall)
      exact ⟨call.check, isCheck, rfl, rfl, current.kept rfl rfl (List.Subset.refl _)⟩
    · obtain ⟨check, isCheck, key, user, current⟩ := holds.entries entry isOld
      exact ⟨check, isCheck, key, user, current.kept rfl rfl (List.Subset.refl _)⟩

theorem step_beginLogin (holds : run.Invariant bcrypt sha256 salt) {username : String}
    (nulFree : NulFree username) (password : String)
    : (run.step bcrypt sha256 salt (.beginLogin username password)).Invariant bcrypt sha256 salt := by
  have kept : ∀ {readAt version}, run.Current readAt version
      → (run.step bcrypt sha256 salt (.beginLogin username password)).Current readAt version := by
    intro readAt version current
    refine ⟨current.past, current.moved, ?_⟩
    intro login isLogin same
    obtain isOld | isNew := List.mem_append.mp isLogin
    · exact current.logins login isOld same
    · rw [List.mem_singleton.mp isNew] at same ⊢
      intro commit returned
      by_contra later
      have moved := current.moved commit returned (Nat.lt_of_not_le later)
      exact absurd same (Nat.ne_of_lt moved)
  refine { holds with read := ?_, entries := ?_, logins := ?_ }
  · intro call isCall
    obtain ⟨isCheck, current⟩ := holds.read call isCall
    exact ⟨isCheck, kept current⟩
  · intro entry isEntry
    obtain ⟨check, isCheck, key, user, current⟩ := holds.entries entry isEntry
    exact ⟨check, isCheck, key, user, kept current⟩
  · intro login isLogin
    obtain isOld | isNew := List.mem_append.mp isLogin
    · exact holds.logins login isOld
    · rw [List.mem_singleton.mp isNew]
      refine ⟨nulFree, ?_⟩
      intro commit returned
      exact holds.counted commit (List.mem_append_right _ returned)

theorem step_lookUp (injective : Function.Injective sha256) (holds : run.Invariant bcrypt sha256 salt)
    (index : ℕ) (now : ℚ)
    : (run.step bcrypt sha256 salt (.lookUp index now)).Invariant bcrypt sha256 salt := by
  simp only [step]
  split
  · exact holds
  rename_i call isCall
  obtain ⟨nulFree, _⟩ := holds.logins call (List.mem_of_getElem? isCall)
  have fewer : run.logins.eraseIdx index ⊆ run.logins := (List.eraseIdx_sublist _ _).subset
  refine { holds with read := ?_, entries := ?_, logins := ?_, sound := ?_ }
  · intro other isOther
    obtain ⟨isCheck, current⟩ := holds.read other isOther
    exact ⟨isCheck, current.kept rfl rfl fewer⟩
  · intro entry isEntry
    obtain ⟨check, isCheck, key, user, current⟩ :=
      holds.entries entry (lookUp_subset _ _ _ _ isEntry)
    exact ⟨check, isCheck, key, user, current.kept rfl rfl fewer⟩
  · intro login isLogin
    exact holds.logins login (fewer isLogin)
  · intro answer isAnswer
    obtain isOld | isNew := List.mem_append.mp isAnswer
    · exact holds.sound answer isOld
    obtain ⟨user, isFound, rfl⟩ := List.mem_map.mp isNew
    obtain ⟨login, isEntry, sameUser, sameVersion⟩ := lookUp_eq_some (Option.mem_toList.mp isFound)
    obtain ⟨check, isCheck, key, checked, current⟩ := holds.entries _ isEntry
    obtain ⟨isChecked, checkedNulFree⟩ := holds.checks check isCheck
    obtain ⟨username, password⟩ := loginKey_inj injective checkedNulFree nulFree key.symm
    refine ⟨check, isCheck, username, password, checked.symm.trans sameUser, isChecked, ?_⟩
    exact current.logins call (List.mem_of_getElem? isCall) sameVersion

theorem step_commit (holds : run.Invariant bcrypt sha256 salt) (op : AccountOp)
    : (run.step bcrypt sha256 salt (.commit op)).Invariant bcrypt sha256 salt := by
  have longer : (run.past ++ [run.tables]).length = run.past.length + 1 := by
    rw [List.length_append, List.length_singleton]
  have checkedStill {check : LoginCheck} (checked : run.Checked bcrypt check)
      : (run.step bcrypt sha256 salt (.commit op)).Checked bcrypt check := by
    obtain ⟨tables, user, isPast, facts⟩ := checked
    refine ⟨tables, user, ?_, facts⟩
    exact List.getElem?_append_left (List.getElem?_eq_some_iff.mp isPast).1 ▸ isPast
  constructor
  case names => exact op.run_names bcrypt holds.names
  case counted =>
    intro commit isCommit
    simp only [step, List.mem_append, List.mem_singleton] at isCommit ⊢
    rw [longer]
    obtain (isOld | isNew) | isReturned := isCommit
    · exact Nat.le_succ_of_le (holds.counted commit (List.mem_append_left _ isOld))
    · exact Nat.le_of_eq isNew
    · exact Nat.le_succ_of_le (holds.counted commit (List.mem_append_right _ isReturned))
  case started => exact holds.started
  case checks =>
    intro check isCheck
    obtain ⟨checked, nulFree⟩ := holds.checks check isCheck
    exact ⟨checkedStill checked, nulFree⟩
  case read =>
    intro call isCall
    obtain ⟨isCheck, current⟩ := holds.read call isCall
    exact ⟨isCheck, current.kept rfl rfl (List.Subset.refl _)⟩
  case entries =>
    intro entry isEntry
    obtain ⟨check, isCheck, key, user, current⟩ := holds.entries entry isEntry
    exact ⟨check, isCheck, key, user, current.kept rfl rfl (List.Subset.refl _)⟩
  case logins =>
    intro login isLogin
    obtain ⟨nulFree, counted⟩ := holds.logins login isLogin
    refine ⟨nulFree, ?_⟩
    intro commit returned
    simp only [step]
    rw [longer]
    exact Nat.le_succ_of_le (counted commit returned)
  case sound =>
    intro answer isAnswer
    obtain ⟨check, isCheck, username, password, user, checked, returned⟩ :=
      holds.sound answer isAnswer
    exact ⟨check, isCheck, username, password, user, checkedStill checked, returned⟩

theorem step_finish (holds : run.Invariant bcrypt sha256 salt) (index : ℕ)
    : (run.step bcrypt sha256 salt (.finish index)).Invariant bcrypt sha256 salt := by
  simp only [step]
  split
  · exact holds
  rename_i commit isCommit
  have kept {readAt version : ℕ} (current : run.Current readAt version) {after : LoginRun Digest}
      (moved : after.version = run.version + 1) (sameLogins : after.logins = run.logins)
      : after.Current readAt version := by
    have past := current.past
    refine ⟨by omega, by intros; omega, ?_⟩
    rw [sameLogins]
    exact current.logins
  refine { holds with counted := ?_, started := ?_, read := ?_, entries := ?_ }
  · intro other isOther
    simp only [List.mem_append, List.mem_singleton] at isOther
    obtain isCommitted | isReturned | isNew := isOther
    · have isIn := (List.eraseIdx_sublist _ _).subset isCommitted
      exact holds.counted other (List.mem_append_left _ isIn)
    · exact holds.counted other (List.mem_append_right _ isReturned)
    · rw [isNew]
      exact holds.counted commit (List.mem_append_left _ (List.mem_of_getElem? isCommit))
  · intro call isCall
    exact Nat.le_succ_of_le (holds.started call isCall)
  · intro call isCall
    obtain ⟨isCheck, current⟩ := holds.read call isCall
    exact ⟨isCheck, kept current rfl rfl⟩
  · intro entry isEntry
    obtain ⟨check, isCheck, key, user, current⟩ := holds.entries entry isEntry
    exact ⟨check, isCheck, key, user, kept current rfl rfl⟩

theorem step_invariant (injective : Function.Injective sha256) (holds : run.Invariant bcrypt sha256 salt)
    {taken : LoginStep} (nulFree : ∀ username password, taken = .beginLogin username password → NulFree username)
    : (run.step bcrypt sha256 salt taken).Invariant bcrypt sha256 salt := by
  cases taken with
  | beginCheck username password => exact step_beginCheck holds username password
  | readDatabase index => exact step_readDatabase holds index
  | insert index now => exact step_insert holds index now
  | beginLogin username password =>
      exact step_beginLogin holds (nulFree username password rfl) password
  | lookUp index now => exact step_lookUp injective holds index now
  | commit op => exact step_commit holds op
  | finish index => exact step_finish holds index

end Invariants

-- Runs

/-- In a run whose logins all ask for names without a NUL, each answer was checked with the same name
and password, after every operation that had returned when the login began.
-/
theorem logins_sound {bcrypt : Bcrypt} {sha256 : ByteArray → Digest}
    (injective : Function.Injective sha256) {salt : ByteArray} {tables : Tables}
    (names : NulFreeNames tables) {taken : List LoginStep}
    (nulFree : ∀ username password, .beginLogin username password ∈ taken → NulFree username)
    : ((start tables).steps bcrypt sha256 salt taken).Sound bcrypt := by
  suffices holds : Invariant bcrypt sha256 salt ((start tables).steps bcrypt sha256 salt taken) by
    exact holds.sound
  unfold steps
  induction taken using List.reverseRecOn with
  | nil => exact start_invariant names
  | append_singleton taken last ih =>
      rw [List.foldl_append]
      refine step_invariant injective (ih ?_) ?_
      · intro username password isTaken
        exact nulFree username password (List.mem_append_left _ isTaken)
      · intro username password isLast
        exact nulFree username password (by rw [isLast]; simp)

/-- An account is registered, its password is checked, and then it signs in from the cache. -/
def registered (password : String) (login : String × String) : List LoginStep :=
  [
    .commit (.createUser "salt" "alice" password .registered .active "" "2026-10-01 00:00:00"),
    .finish 0,
    .beginCheck "alice" password,
    .readDatabase 0,
    .insert 0 0,
    .beginLogin login.1 login.2,
    .lookUp 0 1
  ]

/-- With the password as it is, the account signs in. -/
theorem logins_sound_alice
    : let taken := registered "pass\x00word" ("alice", "pass\x00word")
      ((start .empty).steps plainHashes (fun bytes => bytes) ⟨#[7]⟩ taken).Sound plainHashes := by
  intro taken
  refine logins_sound (fun _ _ same => same) (fun _ isRow => absurd isRow List.not_mem_nil) ?_
  intro username password isTaken
  simp only [taken, registered, List.mem_cons, List.not_mem_nil, reduceCtorEq, false_or, or_false,
    LoginStep.beginLogin.injEq] at isTaken
  rw [isTaken.1]
  unfold NulFree
  decide

/-- A password's NUL moves a part of the password into the name: a name that no account has signs in
with a password that nobody has.
-/
theorem not_logins_sound
    : let taken := registered "pass\x00word" ("alice\x00pass", "word")
      ¬ ((start .empty).steps plainHashes (fun bytes => bytes) ⟨#[7]⟩ taken).Sound plainHashes := by
  intro taken sound
  have checks
      : ((start .empty).steps plainHashes (fun bytes => bytes) ⟨#[7]⟩ taken).checks.map
          LoginCheck.username = ["alice"] := by
    decide +kernel
  have answers
      : ((start .empty).steps plainHashes (fun bytes => bytes) ⟨#[7]⟩ taken).answers.map
          LoginAnswer.username = ["alice\x00pass"] := by
    decide +kernel
  obtain ⟨answer, isAnswer, asked⟩ := List.mem_map.mp (answers ▸ List.mem_singleton_self _)
  obtain ⟨check, isCheck, same, _⟩ := sound answer isAnswer
  have isName := List.mem_map_of_mem (f := LoginCheck.username) isCheck
  rw [checks, List.mem_singleton, same, asked] at isName
  exact absurd isName (by decide)

end LoginRun

end MokuroBunko.Auth
