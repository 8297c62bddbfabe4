import MokuroBunko.Db.InviteRuns
import MokuroBunko.Lib.OrderedMap

/-! The cache of verified logins (`backend.rs`), and the account operations that empty it: each moves
`users_version` when it ends, whether it succeeded or not.
-/

namespace MokuroBunko.Auth

open MokuroBunko.Db MokuroBunko.Lib

-- Account operations

/-- The operations that move `users_version`. -/
inductive AccountOp where
  | createUser (salt username password : String) (role : Role) (status : UserStatus)
    (notes now : String)
  | createUserWithInvite (salt username password code : String) (status : UserStatus)
    (notes now : String) (clock : String → Bool) (prune : AuditRow → Bool)
  | updateUserRole (username : String) (role : Role) (keepAdmin : KeepAdmin)
  | updateUserPassword (salt username password : String)
  | approveUser (username : String)
  | disableUser (username : String) (keepAdmin : KeepAdmin)
  | deleteUser (username : String) (keepAdmin : KeepAdmin)
  | restoreUser (salt username password : String) (role : Option Role)

/-- The tables after the operation has committed, or failed. -/
def AccountOp.run (bcrypt : Bcrypt) (tables : Tables) : AccountOp → Tables
  | .createUser salt username password role status notes now =>
      (tables.createUser bcrypt salt username password role status notes now).2
  | .createUserWithInvite salt username password code status notes now clock prune =>
      (tables.createUserWithInvite bcrypt salt username password code status notes now clock prune).2
  | .updateUserRole username role keepAdmin =>
      (tables.updateUserRoleWith username role keepAdmin).2
  | .updateUserPassword salt username password =>
      (tables.updateUserPassword bcrypt salt username password).2
  | .approveUser username => (tables.approveUser username).2
  | .disableUser username keepAdmin => (tables.disableUserWith username keepAdmin).2
  | .deleteUser username keepAdmin => (tables.deleteUserWith username keepAdmin).2
  | .restoreUser salt username password role =>
      (tables.restoreUser bcrypt salt username password role).2

-- The cache

structure AuthUser where
  id : ℕ
  username : String
  role : Role
  deriving DecidableEq

def toAuth (user : User) : AuthUser := ⟨user.id, user.username, user.role⟩

/-- How long a login is valid, in seconds. -/
def loginTtl : ℚ := 300

def loginCacheMax : ℕ := 1024

/-- A login that was verified while `users_version` stood at the version. -/
structure CachedLogin where
  user : AuthUser
  version : ℕ
  at_ : ℚ
  deriving DecidableEq

variable {Digest : Type}

/-- The salted SHA-256 of the name, a NUL and the password. -/
def loginKey (sha256 : ByteArray → Digest) (salt : ByteArray) (username password : String)
    : Digest :=
  sha256 (salt ++ username.toByteArray ++ ⟨#[0]⟩ ++ password.toByteArray)

/-- Whether the login is still valid at the version and time. -/
def CachedLogin.valid (login : CachedLogin) (version : ℕ) (now : ℚ) : Bool :=
  login.version = version ∧ now - login.at_ < loginTtl

section Entries

variable [DecidableEq Digest]

/-- What `cached_login` finds under the key with the version that it has read, and what it leaves. -/
def lookUp (entries : List (Digest × CachedLogin)) (key : Digest) (version : ℕ) (now : ℚ)
    : Option AuthUser × List (Digest × CachedLogin) :=
  match Entries.get? key entries with
  | some login =>
      if login.valid version now then (some login.user, entries)
      else (none, Entries.erase key entries)
  | none => (none, entries)

/-- Insert a login that was verified, after making room if there is none. -/
def insertLogin (entries : List (Digest × CachedLogin)) (key : Digest) (login : CachedLogin)
    (now : ℚ)
    : List (Digest × CachedLogin) :=
  let entries :=
    if loginCacheMax ≤ entries.length then
      let retained := entries.filter (fun entry => entry.2.valid login.version now)
      if loginCacheMax ≤ retained.length then [] else retained
    else entries
  Entries.insert key login entries

theorem lookUp_eq_some {entries : List (Digest × CachedLogin)} {key : Digest} {version : ℕ} {now : ℚ}
    {user : AuthUser} (found : (lookUp entries key version now).1 = some user)
    : ∃ login, (key, login) ∈ entries ∧ login.user = user ∧ login.version = version := by
  unfold lookUp at found
  split at found
  · rename_i login isEntry
    split at found
    · rename_i valid
      simp only [CachedLogin.valid, decide_eq_true_eq] at valid
      exact ⟨login, Entries.mem_of_get? isEntry, Option.some.inj found, valid.1⟩
    · cases found
  · cases found

theorem lookUp_subset (entries : List (Digest × CachedLogin)) (key : Digest) (version : ℕ) (now : ℚ)
    : (lookUp entries key version now).2 ⊆ entries := by
  unfold lookUp
  split
  · split
    · exact List.Subset.refl _
    · exact List.filter_sublist.subset
  · exact List.Subset.refl _

theorem mem_insertLogin {entries : List (Digest × CachedLogin)} {key : Digest} {login : CachedLogin}
    {now : ℚ} {entry : Digest × CachedLogin} (isEntry : entry ∈ insertLogin entries key login now)
    : entry = (key, login) ∨ entry ∈ entries := by
  have mem_insert {others : List (Digest × CachedLogin)}
      (isIn : entry ∈ Entries.insert key login others)
      : entry = (key, login) ∨ entry ∈ others := by
    induction others with
    | nil => exact .inl (List.mem_singleton.mp isIn)
    | cons other others ih =>
        rw [Entries.insert] at isIn
        split at isIn
        · rename_i same
          obtain isFirst | isLater := List.mem_cons.mp isIn
          · exact .inl (by rw [isFirst, same])
          · exact .inr (List.mem_cons_of_mem _ isLater)
        · obtain isFirst | isLater := List.mem_cons.mp isIn
          · exact .inr (isFirst ▸ List.mem_cons_self)
          · exact (ih isLater).imp id (List.mem_cons_of_mem _)
  obtain isNew | isOld := mem_insert isEntry
  · exact .inl isNew
  · refine .inr ?_
    dsimp only at isOld
    split at isOld
    · split at isOld
      · exact absurd isOld List.not_mem_nil
      · exact List.filter_sublist.subset isOld
    · exact isOld

end Entries

-- Keys

theorem loginKey_eq (sha256 : ByteArray → Digest) (salt : ByteArray) (username password : String)
    : loginKey sha256 salt username password
      = sha256 (salt ++ (username ++ String.singleton '\x00' ++ password).toByteArray) := by
  have nul : (String.singleton '\x00').toByteArray = ⟨#[0]⟩ := rfl
  rw [loginKey, String.toByteArray_append, String.toByteArray_append, nul,
    ByteArray.append_assoc, ByteArray.append_assoc, ByteArray.append_assoc]

/-- The text has no NUL character. -/
def NulFree (text : String) : Prop := '\x00' ∉ text.toList

theorem loginKey_inj {sha256 : ByteArray → Digest} (injective : Function.Injective sha256)
    {salt : ByteArray} {username username' password password' : String}
    (nulFree : NulFree username) (nulFree' : NulFree username')
    (same : loginKey sha256 salt username password = loginKey sha256 salt username' password')
    : username = username' ∧ password = password' := by
  rw [loginKey_eq, loginKey_eq] at same
  have bytes := (ByteArray.append_right_inj salt).mp (injective same)
  have texts := congrArg String.toList (String.toByteArray_inj.mp bytes)
  simp only [String.toList_append, String.toList_singleton, List.append_assoc,
    List.singleton_append] at texts
  have first : Text.splitFirst '\x00' (username.toList ++ '\x00' :: password.toList)
      = some (username.toList, password.toList) :=
    Text.splitFirst_eq_some_iff.mpr ⟨rfl, nulFree⟩
  have second : Text.splitFirst '\x00' (username.toList ++ '\x00' :: password.toList)
      = some (username'.toList, password'.toList) :=
    Text.splitFirst_eq_some_iff.mpr ⟨texts, nulFree'⟩
  have parts := Option.some.inj (first.symm.trans second)
  exact ⟨String.toList_inj.mp (congrArg Prod.fst parts), String.toList_inj.mp (congrArg Prod.snd parts)⟩

-- Names of accounts

/-- No account has a NUL in its name. -/
def NulFreeNames (tables : Tables) : Prop := ∀ row ∈ tables.users.rows, NulFree row.username

theorem nulFree_of_valid {username : String} (valid : validateUsername username = none)
    : NulFree username := by
  intro isIn
  unfold validateUsername at valid
  split at valid
  · cases valid
  · dsimp only at valid
    split at valid
    · rename_i ok
      have accepted := List.all_eq_true.mp ok.2 _ isIn
      exact absurd accepted (by decide)
    · cases valid

theorem newAccountHash_ok {bcrypt : Bcrypt} {salt username password hash : String}
    (hashed : newAccountHash bcrypt salt username password = .ok hash)
    : validateUsername username = none := by
  unfold newAccountHash at hashed
  cases invalid : validateUsername username with
  | none => rfl
  | some message =>
      rw [invalid] at hashed
      split at hashed <;> cases hashed

section Names

variable {tables after : Tables}

theorem NulFreeNames.update (names : NulFreeNames tables) {which : UserRow → Bool}
    {set : UserRow → UserRow}
    (users : after.users.rows = tables.users.rows.map (fun row => if which row then set row else row))
    (keeps : ∀ row, (set row).username = row.username)
    : NulFreeNames after := by
  intro row isRow
  rw [users] at isRow
  obtain ⟨before, isBefore, rfl⟩ := List.mem_map.mp isRow
  split
  · rw [keeps]
    exact names before isBefore
  · exact names before isBefore

theorem NulFreeNames.insert (names : NulFreeNames tables) {row : UserRow}
    (users : after.users.rows = tables.users.rows ++ [row]) (nulFree : NulFree row.username)
    : NulFreeNames after := by
  intro other isOther
  rw [users] at isOther
  obtain isOther | isNew := List.mem_append.mp isOther
  · exact names other isOther
  · rw [List.mem_singleton.mp isNew]
    exact nulFree

theorem updateUserRole_names (names : NulFreeNames tables) (username : String) (role : Role)
    (keepAdmin : KeepAdmin)
    : NulFreeNames (tables.updateUserRoleWith username role keepAdmin).2 := by
  refine Tables.write_keeps names ?_
  intro value after done
  by_cases isAdmin : role ≠ .admin
  · rw [if_pos isAdmin] at done
    cases passed : guardLastAdmin tables username keepAdmin with
    | error failure =>
        rw [passed] at done
        cases done
    | ok _ =>
        rw [passed] at done
        cases done
        exact names.update rfl (fun _ => rfl)
  · rw [if_neg isAdmin] at done
    cases done
    exact names.update rfl (fun _ => rfl)

theorem updateUserPassword_names (names : NulFreeNames tables) (bcrypt : Bcrypt)
    (salt username password : String)
    : NulFreeNames (tables.updateUserPassword bcrypt salt username password).2 := by
  unfold Tables.updateUserPassword
  split
  · exact names
  split
  · exact names
  · exact names.update rfl (fun _ => rfl)

theorem approveUser_names (names : NulFreeNames tables) (username : String)
    : NulFreeNames (tables.approveUser username).2 := by
  unfold Tables.approveUser
  exact names.update rfl (fun _ => rfl)

theorem disableUser_names (names : NulFreeNames tables) (username : String) (keepAdmin : KeepAdmin)
    : NulFreeNames (tables.disableUserWith username keepAdmin).2 := by
  refine Tables.write_keeps names ?_
  intro value after done
  cases passed : guardLastAdmin tables username keepAdmin with
  | error failure =>
      rw [passed] at done
      cases done
  | ok _ =>
      rw [passed] at done
      cases done
      exact names.update rfl (fun _ => rfl)

theorem deleteUser_names (names : NulFreeNames tables) (username : String) (keepAdmin : KeepAdmin)
    : NulFreeNames (tables.deleteUserWith username keepAdmin).2 := by
  refine Tables.write_keeps names ?_
  intro value after done
  cases passed : guardLastAdmin tables username keepAdmin with
  | error failure =>
      rw [passed] at done
      cases done
  | ok _ =>
      rw [passed] at done
      cases done
      exact names.update rfl (fun _ => rfl)

theorem restoreUser_names (names : NulFreeNames tables) (bcrypt : Bcrypt)
    (salt username password : String) (role : Option Role)
    : NulFreeNames (tables.restoreUser bcrypt salt username password role).2 := by
  unfold Tables.restoreUser
  split
  · exact names
  split
  · exact names
  · exact names.update rfl (fun _ => rfl)

theorem AccountOp.run_names (bcrypt : Bcrypt) (names : NulFreeNames tables) (op : AccountOp)
    : NulFreeNames (op.run bcrypt tables) := by
  cases op <;> simp only [AccountOp.run]
  case createUser salt username password role status notes now =>
    unfold Tables.createUser
    split
    · exact names
    · rename_i hash hashed
      refine Tables.write_keeps names ?_
      intro id after inserted
      have nulFree : NulFree username := nulFree_of_valid (newAccountHash_ok hashed)
      exact names.insert (insertUser_ok inserted).1 nulFree
  case createUserWithInvite salt username password code status notes now clock prune =>
    unfold Tables.createUserWithInvite
    split
    · exact names
    · rename_i hash hashed
      refine Tables.write_keeps names ?_
      intro granted after registered
      obtain ⟨_, _, _, _, _, users, _, _⟩ := InviteRun.registerWithInvite_ok registered
      have nulFree : NulFree username := nulFree_of_valid (newAccountHash_ok hashed)
      exact names.insert users nulFree
  case updateUserRole username role keepAdmin => exact updateUserRole_names names username role keepAdmin
  case updateUserPassword salt username password => exact updateUserPassword_names names bcrypt salt username password
  case approveUser username => exact approveUser_names names username
  case disableUser username keepAdmin => exact disableUser_names names username keepAdmin
  case deleteUser username keepAdmin => exact deleteUser_names names username keepAdmin
  case restoreUser salt username password role => exact restoreUser_names names bcrypt salt username password role

theorem authenticateUser_nulFree {bcrypt : Bcrypt} {username password : String} {user : User}
    (names : NulFreeNames tables)
    (isUser : tables.authenticateUser bcrypt username password = some user)
    : NulFree username := by
  unfold Tables.authenticateUser at isUser
  split at isUser
  · cases isUser
  · rename_i row isRow
    obtain ⟨isIn, key⟩ := Table.find?_eq_some_iff.mp isRow
    rw [← key]
    exact names row isIn

end Names

end MokuroBunko.Auth
