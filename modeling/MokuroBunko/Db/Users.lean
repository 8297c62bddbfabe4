import MokuroBunko.Db.Tables

/-! Accounts: their rows, and the operations that change them (`users.rs`).
-/

namespace MokuroBunko.Db

open MokuroBunko.Lib

-- Names and passwords

def usernameRequired : String := "Username is required"

def usernameFormat : String :=
  "Username must be 3-32 characters and contain only letters, numbers, underscores, and hyphens"

/-- The error message, unless the name is acceptable. -/
def validateUsername (username : String) : Option String :=
  if username.isEmpty then some usernameRequired
  else
    let okLen := 3 ≤ username.utf8ByteSize ∧ username.utf8ByteSize ≤ 32
    let okChars := username.toList.all
      (fun char => char.isAlphanum || char = '_' || char = '-')
    if okLen ∧ okChars then none else some usernameFormat

def validatePassword (password : String) : Option String :=
  if password.isEmpty then some "Password is required"
  else if password.length < 8 then some "Password must be at least 8 characters"
  else if 128 < password.length then some "Password must be at most 128 characters"
  else none

/-- The password hashes of a third-party library. A hash is made with a salt. -/
structure Bcrypt where
  hash : (salt password : String) → Except DbError String
  verify : (password hash : String) → Bool

/-- Hashes that are the passwords themselves. -/
def plainHashes : Bcrypt := ⟨fun _ password => .ok password, fun password hash => password = hash⟩

def validation (message : Option String) : Except DbError Unit :=
  match message with
  | some message => .error (.invalid message)
  | none => .ok ()

/-- Validate a new account's name and password and hash the password. -/
def newAccountHash (bcrypt : Bcrypt) (salt username password : String) : Except DbError String := do
  if (Text.strip username).isEmpty then .error (.invalid "Username is required")
  validation (validateUsername username)
  validation (validatePassword password)
  bcrypt.hash salt password

-- Reading

structure User where
  id : ℕ
  username : String
  role : Role
  status : UserStatus
  notes : String
  createdAt : String
  deriving DecidableEq

/-- The account of a row, unless the row has a role or a status that is not known. -/
def UserRow.intoUser (row : UserRow) : Except DbError User :=
  match Role.fromStr row.role with
  | none =>
      .error (.corruptRow "users"
        ("user '" ++ row.username ++ "' has unknown role '" ++ row.role ++ "'"))
  | some role =>
      match UserStatus.fromStr row.status with
      | none =>
          .error (.corruptRow "users"
            ("user '" ++ row.username ++ "' has unknown status '" ++ row.status ++ "'"))
      | some status => .ok ⟨row.id, row.username, role, status, row.notes, row.createdAt⟩

/-- A row of which this build knows too little cannot sign in. -/
def UserRow.intoLogin (row : UserRow) : Option User := row.intoUser.toOption

def Tables.getUser (tables : Tables) (username : String) : Except DbError (Option User) :=
  match tables.users.find? username with
  | none => .ok none
  | some row => row.intoUser.map some

/-- The account, if it is active and the password matches. -/
def Tables.authenticateUser (tables : Tables) (bcrypt : Bcrypt) (username password : String)
    : Option User :=
  match tables.users.find? username with
  | none => none
  | some row =>
      if row.status = "active" ∧ bcrypt.verify password row.passwordHash then row.intoLogin
      else none

-- The last administrator

def lastAdminMessage : String :=
  "This is the last active admin account: make another account an admin first, so the server keeps someone who can administer it"

def UserRow.isActiveAdmin (row : UserRow) : Bool := row.role = "admin" ∧ row.status = "active"

/-- Whether without the account there is no active administrator left. -/
def isLastActiveAdmin (tables : Tables) (username : String) : Bool :=
  let targetIsAdmin := ((tables.users.find? username).map UserRow.isActiveAdmin).getD false
  if ¬ targetIsAdmin then false
  else
    let others := tables.users.rows.countP
      (fun row => row.isActiveAdmin && row.username ≠ username)
    others = 0

inductive KeepAdmin where
  | keep
  | allow
  deriving DecidableEq

def guardLastAdmin (tables : Tables) (username : String) (keepAdmin : KeepAdmin) : Except DbError Unit :=
  if keepAdmin = .keep ∧ isLastActiveAdmin tables username then .error (.conflict lastAdminMessage)
  else .ok ()

-- Changes

/-- Insert an account; gives its id. -/
def insertUser (username passwordHash : String) (role : Role) (status : UserStatus)
    (notes now : String) (tables : Tables)
    : Except DbError (ℕ × Tables) :=
  let id := tables.lastUser + 1
  let row : UserRow := ⟨id, username, passwordHash, role.asStr, status.asStr, notes, now⟩
  match tables.users.insert row with
  | some users => .ok (id, { tables with users, lastUser := id })
  | none =>
      if (tables.users.find? username).map UserRow.status = some "deleted" then
        .error (.invalid ("Username '" ++ username
          ++ "' belongs to a deleted account; bring it back with: mokuro-bunko admin restore-user "
          ++ username))
      else .error (.conflict ("Username '" ++ username ++ "' already exists"))

def Tables.createUser (tables : Tables) (bcrypt : Bcrypt) (salt username password : String)
    (role : Role) (status : UserStatus) (notes now : String)
    : Except DbError ℕ × Tables :=
  match newAccountHash bcrypt salt username password with
  | .error error => (.error error, tables)
  | .ok passwordHash => tables.write (insertUser username passwordHash role status notes now)

/-- Set an account's role. Gives whether there is such an account. -/
def Tables.updateUserRoleWith (tables : Tables) (username : String) (role : Role) (keepAdmin : KeepAdmin)
    : Except DbError Bool × Tables :=
  tables.write (fun tables => do
    if role ≠ .admin then guardLastAdmin tables username keepAdmin
    let (users, changed) := tables.users.update (fun row => row.username = username)
      (fun row => { row with role := role.asStr })
    .ok (decide (0 < changed), { tables with users }))

def Tables.updateUserNotes (tables : Tables) (username notes : String)
    : Except DbError Bool × Tables :=
  tables.write (fun tables =>
    let (users, changed) := tables.users.update (fun row => row.username = username)
      (fun row => { row with notes })
    .ok (decide (0 < changed), { tables with users }))

/-- Set a new password and sign out every token of the account. -/
def Tables.updateUserPassword (tables : Tables) (bcrypt : Bcrypt) (salt username password : String)
    : Except DbError Bool × Tables :=
  match validation (validatePassword password) with
  | .error error => (.error error, tables)
  | .ok () =>
      match bcrypt.hash salt password with
      | .error error => (.error error, tables)
      | .ok passwordHash =>
          tables.write (fun tables =>
            let (users, changed) := tables.users.update (fun row => row.username = username)
              (fun row => { row with passwordHash })
            let tokens :=
              if 0 < changed then (tables.tokens.delete (fun row => row.username = username)).1
              else tables.tokens
            .ok (decide (0 < changed), { tables with users, tokens }))

/-- `pending` to `active`. -/
def Tables.approveUser (tables : Tables) (username : String) : Except DbError Bool × Tables :=
  tables.write (fun tables =>
    let (users, changed) := tables.users.update
      (fun row => row.username = username && row.status = "pending")
      (fun row => { row with status := "active" })
    .ok (decide (0 < changed), { tables with users }))

/-- Any status to `disabled`. -/
def Tables.disableUserWith (tables : Tables) (username : String) (keepAdmin : KeepAdmin)
    : Except DbError Bool × Tables :=
  tables.write (fun tables => do
    guardLastAdmin tables username keepAdmin
    let (users, changed) := tables.users.update (fun row => row.username = username)
      (fun row => { row with status := "disabled" })
    .ok (decide (0 < changed), { tables with users }))

/-- Soft delete. The account's tokens are always deleted. -/
def Tables.deleteUserWith (tables : Tables) (username : String) (keepAdmin : KeepAdmin)
    : Except DbError Bool × Tables :=
  tables.write (fun tables => do
    guardLastAdmin tables username keepAdmin
    let (users, changed) := tables.users.update
      (fun row => row.username = username && row.status ≠ "deleted")
      (fun row => { row with status := "deleted" })
    let (tokens, _) := tables.tokens.delete (fun row => row.username = username)
    .ok (decide (0 < changed), { tables with users, tokens }))

/-- Bring a soft-deleted account back with a new password, and the role if one is given. -/
def Tables.restoreUser (tables : Tables) (bcrypt : Bcrypt) (salt username password : String)
    (role : Option Role)
    : Except DbError Bool × Tables :=
  match validation (validatePassword password) with
  | .error error => (.error error, tables)
  | .ok () =>
      match bcrypt.hash salt password with
      | .error error => (.error error, tables)
      | .ok passwordHash =>
          tables.write (fun tables =>
            let (users, changed) := tables.users.update
              (fun row => row.username = username && row.status = "deleted")
              (fun row =>
                {
                  row with
                  status := "active"
                  passwordHash
                  role := (role.map Role.asStr).getD row.role
                })
            .ok (decide (0 < changed), { tables with users }))

-- What the changes do to the tokens

section Tokens

variable {tables : Tables} {username : String}

/-- The tokens after a change of an account: some of those before it, none of them the account's if
it succeeded.
-/
structure SignsOut (tables : Tables) (username : String) (result : Except DbError Bool × Tables)
    : Prop where
  rows : result.2.tokens.rows ⊆ tables.tokens.rows
  gone : result.1 = .ok true → ∀ row ∈ result.2.tokens.rows, row.username ≠ username

theorem signsOut_error (error : DbError) : SignsOut tables username (.error error, tables) :=
  ⟨List.Subset.refl _, fun isOk => by cases isOk⟩

theorem signsOut_delete {after : Tables} (answer : Except DbError Bool)
    (tokens : after.tokens = (tables.tokens.delete (fun row => row.username = username)).1)
    : SignsOut tables username (answer, after) := by
  refine ⟨?_, fun _ row isRow => ?_⟩
  · rw [tokens]
    exact List.filter_sublist.subset
  · rw [tokens] at isRow
    simpa using (List.mem_filter.mp isRow).2

theorem updateUserPassword_signsOut (bcrypt : Bcrypt) (salt password : String)
    : SignsOut tables username (tables.updateUserPassword bcrypt salt username password) := by
  unfold Tables.updateUserPassword
  split
  · exact signsOut_error _
  split
  · exact signsOut_error _
  · simp only [Tables.write]
    split
    · exact signsOut_delete _ rfl
    · rename_i absent
      exact ⟨List.Subset.refl _, fun isOk => by simp [absent] at isOk⟩

theorem deleteUserWith_signsOut (keepAdmin : KeepAdmin)
    : SignsOut tables username (tables.deleteUserWith username keepAdmin) := by
  unfold Tables.deleteUserWith Tables.write
  dsimp only
  cases guardLastAdmin tables username keepAdmin with
  | error failure => exact signsOut_error _
  | ok _ => exact signsOut_delete _ rfl

theorem restoreUser_tokens (bcrypt : Bcrypt) (salt password : String) (role : Option Role)
    : (tables.restoreUser bcrypt salt username password role).2.tokens = tables.tokens := by
  unfold Tables.restoreUser
  split
  · rfl
  split <;> rfl

end Tokens

end MokuroBunko.Db
