import MokuroBunko.Db.Users
import Mathlib.Algebra.Order.Ring.Rat

/-! Bearer tokens (`tokens.rs`), of which only the hash is stored, and token requests beside changes
of the accounts. A request checks the password against the row it reads, and creates the token in a
step of its own; a change of the password and a deletion remove the tokens that there are when they
commit.
-/

namespace MokuroBunko.Db

open MokuroBunko.Lib

/-- What a token is for; sets only its lifetime. -/
inductive TokenKind where
  | web
  | reader
  | processor
  deriving DecidableEq

def TokenKind.asStr : TokenKind → String
  | .web => "web"
  | .reader => "reader"
  | .processor => "processor"

def TokenKind.lifetimeSeconds : TokenKind → ℚ
  | .web => 7 * 86400
  | .reader => 90 * 86400
  | .processor => 30 * 86400

/-- Store a token that was drawn for the user, by its hash. -/
def Tables.createAuthToken (tables : Tables) (tokenHash username : String) (kind : TokenKind)
    (label : String) (lifetimeSeconds : Option ℚ) (now : ℚ)
    : Except DbError Unit × Tables :=
  let expiresAt := now + lifetimeSeconds.getD kind.lifetimeSeconds
  let row : TokenRow :=
    {
      tokenHash
      username
      kind := kind.asStr
      label := String.ofList (label.toList.take 200)
      createdAt := now
      expiresAt
      lastUsedAt := now
    }
  tables.write (fun tables =>
    match tables.tokens.insert row with
    | none => .error .sqlite
    | some tokens => .ok ((), { tables with tokens }))

/-- The active user a live token belongs to, as the read finds it. -/
def Tables.resolveAuthToken (tables : Tables) (sha256 : String → String) (token : String) (now : ℚ)
    : Option User :=
  if token.isEmpty then none
  else
    match tables.tokens.find? (sha256 token) with
    | none => none
    | some row =>
        match tables.users.find? row.username with
        | none => none
        | some raw => if row.expiresAt ≤ now ∨ raw.status ≠ "active" then none else raw.intoLogin

/-- The write of a token's last use, which follows the read when the last one is a minute old. -/
def Tables.touchAuthToken (tables : Tables) (tokenHash : String) (now : ℚ)
    : Except DbError Unit × Tables :=
  tables.write (fun tables =>
    let (tokens, _) := tables.tokens.update (fun row => row.tokenHash = tokenHash)
      (fun row => { row with lastUsedAt := now })
    .ok ((), { tables with tokens }))

/-- Sign the one token out. -/
def Tables.revokeAuthToken (tables : Tables) (tokenHash : String) : Except DbError Bool × Tables :=
  tables.write (fun tables =>
    let (tokens, removed) := tables.tokens.delete (fun row => row.tokenHash = tokenHash)
    .ok (decide (0 < removed), { tables with tokens }))

/-- Drop the tokens past their expiry. -/
def Tables.pruneExpiredAuthTokens (tables : Tables) (now : ℚ) : Except DbError ℕ × Tables :=
  tables.write (fun tables =>
    let (tokens, removed) := tables.tokens.delete (fun row => row.expiresAt ≤ now)
    .ok (removed, { tables with tokens }))

/-- A token that was granted, by its hash: to whom, and how many times the account's password had
been changed or the account deleted when the password was checked.
-/
structure TokenGrant where
  tokenHash : String
  username : String
  checkedAt : ℕ
  deriving DecidableEq

/-- A request whose password was right. -/
structure CheckedRequest where
  username : String
  checkedAt : ℕ
  deriving DecidableEq

structure TokenRun where
  tables : Tables
  /-- How many changes of the password and deletions of each account have succeeded. -/
  changes : String → ℕ
  checked : List CheckedRequest
  grants : List TokenGrant

inductive TokenStep where
  /-- `authenticate_user` of a request, at the time it reads the row. -/
  | check (username password : String)
  | prune (now : ℚ)
  /-- `create_auth_token` of a checked request, with the token that was drawn. -/
  | grant (index : ℕ) (token : String) (kind : TokenKind) (label : String) (now : ℚ)
  | touch (token : String) (now : ℚ)
  | revoke (token : String)
  | changePassword (salt username password : String)
  | deleteUser (username : String) (keepAdmin : KeepAdmin)
  | restoreUser (salt username password : String) (role : Option Role)

namespace TokenRun

variable (bcrypt : Bcrypt) (sha256 : String → String)

/-- One more change of the account, if it succeeded. -/
def changed (run : TokenRun) (username : String) (answer : Except DbError Bool) : String → ℕ :=
  if answer = .ok true then Function.update run.changes username (run.changes username + 1)
  else run.changes

def step (run : TokenRun) : TokenStep → TokenRun
  | .check username password =>
      match run.tables.authenticateUser bcrypt username password with
      | none => run
      | some user =>
          {
            run with
            checked := run.checked ++ [⟨user.username, run.changes user.username⟩]
          }
  | .prune now => { run with tables := (run.tables.pruneExpiredAuthTokens now).2 }
  | .grant index token kind label now =>
      match run.checked[index]? with
      | none => run
      | some request =>
          match run.tables.createAuthToken (sha256 token) request.username kind label none now with
          | (.ok (), tables) =>
              {
                run with
                tables
                checked := run.checked.eraseIdx index
                grants := run.grants ++ [⟨sha256 token, request.username, request.checkedAt⟩]
              }
          | (.error _, tables) => { run with tables, checked := run.checked.eraseIdx index }
  | .touch token now => { run with tables := (run.tables.touchAuthToken (sha256 token) now).2 }
  | .revoke token => { run with tables := (run.tables.revokeAuthToken (sha256 token)).2 }
  | .changePassword salt username password =>
      let (answer, tables) := run.tables.updateUserPassword bcrypt salt username password
      { run with tables, changes := run.changed username answer }
  | .deleteUser username keepAdmin =>
      let (answer, tables) := run.tables.deleteUserWith username keepAdmin
      { run with tables, changes := run.changed username answer }
  | .restoreUser salt username password role =>
      { run with tables := (run.tables.restoreUser bcrypt salt username password role).2 }

def steps (run : TokenRun) (steps : List TokenStep) : TokenRun :=
  steps.foldl (step bcrypt sha256) run

/-- A token that is drawn is none that was granted before. -/
def Fresh (run : TokenRun) : TokenStep → Prop
  | .grant _ token _ _ _ => ∀ grant ∈ run.grants, grant.tokenHash ≠ sha256 token
  | _ => True

/-- A request that creates its token was checked after the last change of the account. -/
def Timely (run : TokenRun) : TokenStep → Prop
  | .grant index _ _ _ _ =>
      ∀ request, run.checked[index]? = some request
        → request.checkedAt = run.changes request.username
  | _ => True

/-- A property of every step of a run, in the state before it. -/
def Always (Holds : TokenRun → TokenStep → Prop) (run : TokenRun) : List TokenStep → Prop
  | [] => True
  | first :: rest => Holds run first ∧ Always Holds (step bcrypt sha256 run first) rest

/-- No token that was granted before an account's last change gives a user. -/
def SignedOut (run : TokenRun) : Prop :=
  ∀ grant ∈ run.grants, grant.checkedAt < run.changes grant.username
    → ∀ token, sha256 token = grant.tokenHash
      → ∀ now, run.tables.resolveAuthToken sha256 token now = none

/-- The stored rows of granted tokens are those of grants since the last change. -/
def Invariant (run : TokenRun) : Prop :=
  ∀ grant ∈ run.grants, ∀ row ∈ run.tables.tokens.rows, row.tokenHash = grant.tokenHash
    → row.username = grant.username ∧ grant.checkedAt = run.changes grant.username

variable {bcrypt sha256}

theorem Invariant.signedOut {run : TokenRun} (inv : run.Invariant) : run.SignedOut sha256 := by
  intro grant isGrant before token hashed now
  unfold Tables.resolveAuthToken
  split
  · rfl
  split
  · rfl
  · rename_i row found
    obtain ⟨isRow, same⟩ := Table.find?_eq_some_iff.mp found
    have since := (inv grant isGrant row isRow (same.trans hashed)).2
    exact absurd since before.ne

-- One step

section Step

variable {run : TokenRun}

theorem Invariant.shrink {after : TokenRun} (inv : run.Invariant)
    (rows : ∀ row ∈ after.tables.tokens.rows, ∃ before ∈ run.tables.tokens.rows,
      before.tokenHash = row.tokenHash ∧ before.username = row.username)
    (changes : after.changes = run.changes) (grants : after.grants = run.grants)
    : after.Invariant := by
  intro grant isGrant row isRow same
  rw [grants] at isGrant
  obtain ⟨before, isBefore, hash, name⟩ := rows row isRow
  rw [changes, ← name]
  exact inv grant isGrant before isBefore (hash.trans same)

theorem Invariant.change {username : String} {result : Except DbError Bool × Tables}
    (inv : run.Invariant) (signsOut : SignsOut run.tables username result)
    : Invariant
        { run with tables := result.2, changes := run.changed username result.1 } := by
  intro grant isGrant row isRow same
  obtain ⟨name, since⟩ := inv grant isGrant row (signsOut.rows isRow) same
  refine ⟨name, ?_⟩
  simp only [changed]
  split
  · rename_i succeeded
    have other := signsOut.gone succeeded row isRow
    rw [name] at other
    rw [Function.update_of_ne other]
    exact since
  · exact since

theorem Invariant.grant {index : ℕ} {token label : String} {kind : TokenKind} {now : ℚ}
    (inv : run.Invariant) (fresh : Fresh sha256 run (.grant index token kind label now))
    (timely : Timely run (.grant index token kind label now))
    : (step bcrypt sha256 run (.grant index token kind label now)).Invariant := by
  simp only [step]
  split
  · exact inv
  rename_i request isRequest
  have since := timely request isRequest
  simp only [Tables.createAuthToken, Tables.write]
  cases inserted : run.tables.tokens.insert
      {
        tokenHash := sha256 token
        username := request.username
        kind := kind.asStr
        label := String.ofList (label.toList.take 200)
        createdAt := now
        expiresAt := now + Option.getD none kind.lifetimeSeconds
        lastUsedAt := now
      } with
  | none => exact inv
  | some tokens =>
      obtain ⟨isNew, rows⟩ := Table.insert_eq_some inserted
      intro grant isGrant row isRow same
      simp only [rows] at isRow
      obtain isRow | isRow := List.mem_append.mp isRow <;>
        obtain isGrant | isGrant := List.mem_append.mp isGrant
      · exact inv grant isGrant row isRow same
      · rw [List.mem_singleton.mp isGrant] at same
        exact absurd (List.mem_map.mpr ⟨row, isRow, same⟩) isNew
      · rw [List.mem_singleton.mp isRow] at same
        exact absurd same.symm (fresh grant isGrant)
      · rw [List.mem_singleton.mp isRow, List.mem_singleton.mp isGrant]
        exact ⟨rfl, since⟩

theorem Invariant.step (inv : run.Invariant) (next : TokenStep) (fresh : Fresh sha256 run next)
    (timely : Timely run next)
    : (step bcrypt sha256 run next).Invariant := by
  cases next with
  | check username password =>
      simp only [TokenRun.step]
      split <;> exact inv
  | prune now =>
      refine inv.shrink ?_ rfl rfl
      intro row isRow
      exact ⟨row, List.filter_sublist.subset isRow, rfl, rfl⟩
  | grant => exact inv.grant fresh timely
  | touch token now =>
      refine inv.shrink ?_ rfl rfl
      intro row isRow
      obtain ⟨before, isBefore, same⟩ := List.mem_map.mp isRow
      refine ⟨before, isBefore, ?_⟩
      split at same <;>
        subst same <;>
        exact ⟨rfl, rfl⟩
  | revoke token =>
      refine inv.shrink ?_ rfl rfl
      intro row isRow
      exact ⟨row, List.filter_sublist.subset isRow, rfl, rfl⟩
  | changePassword salt username password =>
      exact inv.change (updateUserPassword_signsOut bcrypt salt password)
  | deleteUser username keepAdmin => exact inv.change (deleteUserWith_signsOut keepAdmin)
  | restoreUser salt username password role =>
      refine inv.shrink ?_ rfl rfl
      intro row isRow
      simp only [TokenRun.step, restoreUser_tokens] at isRow
      exact ⟨row, isRow, rfl, rfl⟩

end Step

/-- The run that begins with the tables; each token there is was granted since the last change. -/
def initial (tables : Tables) : TokenRun where
  tables
  changes _ := 0
  checked := []
  grants := tables.tokens.rows.map (fun row => ⟨row.tokenHash, row.username, 0⟩)

theorem initial_invariant (tables : Tables) : (initial tables).Invariant := by
  intro grant isGrant row isRow same
  obtain ⟨other, isOther, rfl⟩ := List.mem_map.mp isGrant
  rw [Table.eq_of_key isRow isOther same]
  exact ⟨rfl, rfl⟩

/-- In every run whose tokens are each granted on a check since the account's last change, no token
that was granted before an account's last change of the password or deletion gives a user, whatever
happens to the account later. A drawn token is taken to be new.
-/
theorem signedOut_of_timely {tables : Tables} {taken : List TokenStep}
    (fresh : Always bcrypt sha256 (Fresh sha256) (initial tables) taken)
    (timely : Always bcrypt sha256 Timely (initial tables) taken)
    : SignedOut sha256 (steps bcrypt sha256 (initial tables) taken) := by
  have inv := initial_invariant tables
  apply Invariant.signedOut
  unfold steps
  revert inv fresh timely
  generalize initial tables = run
  intro fresh timely inv
  induction taken generalizing run with
  | nil => exact inv
  | cons first rest ih =>
      exact ih _ fresh.2 timely.2 (inv.step first fresh.1 timely.1)

def oneAccount : Tables :=
  {
    Tables.empty with
    users :=
      {
        rows :=
          [⟨1, "alice", "old-password", "uploader", "active", "", "2026-10-01 00:00:00"⟩]
        unique := List.nodup_singleton _
      }
    lastUser := 1
  }

theorem signedOut_of_timely_alice
    : SignedOut id
        (steps plainHashes id (initial oneAccount)
          [
            .check "alice" "old-password",
            .grant 0 "first" .web "" 0,
            .changePassword "" "alice" "new-password"
          ]) := by
  refine signedOut_of_timely ⟨trivial, ?_, trivial, trivial⟩ ⟨trivial, ?_, trivial, trivial⟩
  · exact fun grant isGrant => absurd isGrant List.not_mem_nil
  · intro request isRequest
    have isAlice : request = ⟨"alice", 0⟩ := by
      refine Option.some.inj (isRequest.symm.trans ?_)
      decide +kernel
    rw [isAlice]
    rfl

/-- The token is created after the change, on a check before it, and gives the user. -/
theorem not_signedOut_late
    : ¬ SignedOut id
        (steps plainHashes id (initial oneAccount)
          [
            .check "alice" "old-password",
            .changePassword "" "alice" "new-password",
            .grant 0 "late" .web "" 0
          ]) := by
  intro signedOut
  have none := signedOut ⟨"late", "alice", 0⟩ (by decide +kernel) (by decide +kernel) "late" rfl 1
  revert none
  decide +kernel

end TokenRun

end MokuroBunko.Db
