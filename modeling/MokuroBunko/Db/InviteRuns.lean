import Mathlib.Data.List.Perm.Basic
import MokuroBunko.Db.Invites

/-! Runs of the operations on invites. A use of an invite is noted when its transaction commits;
`use_invite` reads the invite in a step of its own before that.
-/

namespace MokuroBunko.Db

open MokuroBunko.Lib

/-- An invite, as it was, that was used up, and the account that was made with it. -/
structure InviteUse where
  invite : InviteRow
  account : Option UserRow

/-- What `use_invite` has read, and for whom it is. -/
structure PendingUse where
  invite : Invite
  code : String
  username : String

structure InviteRun where
  tables : Tables
  pending : List PendingUse
  uses : List InviteUse

inductive InviteCall where
  | create (role : Role) (expires : String) (invitedBy : Option String) (code : String)
    (expiresText : Except DbError String) (now : String) (prune : AuditRow → Bool)
  | delete (code : String)
  /-- `use_invite` up to its transaction. -/
  | validate (code username : String) (clock : String → Bool)
  /-- The transaction of a `use_invite` that has validated. -/
  | use (index : ℕ) (now : String) (prune : AuditRow → Bool)
  | register (salt username password code : String) (status : UserStatus) (notes now : String)
    (clock : String → Bool) (prune : AuditRow → Bool)

namespace InviteRun

/-- The uses to be noted of an update: of the rows that it marks. -/
def useOf (run : InviteRun) (code : String) (account : Option UserRow) : List InviteUse :=
  (run.tables.invites.rows.filter (fun row => row.code = code && row.usedBy.isNone)).map
    (fun invite => ⟨invite, account⟩)

def step (bcrypt : Bcrypt) (run : InviteRun) : InviteCall → InviteRun
  | .create role expires invitedBy code expiresText now prune =>
      {
        run with
        tables := (run.tables.createInvite role expires invitedBy code expiresText now prune).2
      }
  | .delete code => { run with tables := (run.tables.deleteInvite code).2 }
  | .validate code username clock =>
      match run.tables.validateInvite code clock with
      | none => run
      | some invite => { run with pending := run.pending ++ [⟨invite, code, username⟩] }
  | .use index now prune =>
      match run.pending[index]? with
      | none => run
      | some call =>
          let pending := run.pending.eraseIdx index
          match run.tables.useInvite call.invite call.code call.username now prune with
          | (.ok true, tables) =>
              { tables, pending, uses := run.uses ++ run.useOf call.code none }
          | (_, tables) => { run with tables, pending }
  | .register salt username password code status notes now clock prune =>
      match run.tables.createUserWithInvite bcrypt salt username password code status notes now clock
        prune with
      | (.ok _, tables) =>
          {
            run with
            tables
            uses := run.uses ++ run.useOf code (tables.users.find? username)
          }
      | (.error _, tables) => { run with tables }

def steps (bcrypt : Bcrypt) (run : InviteRun) (calls : List InviteCall) : InviteRun :=
  calls.foldl (step bcrypt) run

/-- The tables before any call: invites with ids of their own, each with a role that it may carry. -/
structure Stored (tables : Tables) : Prop where
  ids : (tables.invites.rows.map InviteRow.id).Nodup
  given : ∀ row ∈ tables.invites.rows, row.id ≤ tables.lastInvite
  roles : ∀ row ∈ tables.invites.rows, ∃ role ∈ invitableRoles, row.role = role.asStr

/-- The account of a use has the invite's role, which is not one of an administrator or processor. -/
def Granted (use : InviteUse) : Prop :=
  ∀ account, use.account = some account
    → account.role = use.invite.role ∧ ∃ role ∈ invitableRoles, use.invite.role = role.asStr

/-- No invite is used twice: one that was used is gone from the table or marked in it. -/
structure Invariant (run : InviteRun) : Prop extends Stored run.tables where
  once : (run.uses.map (fun use => use.invite.id)).Nodup
  past : ∀ use ∈ run.uses, use.invite.id ≤ run.tables.lastInvite
  spent : ∀ use ∈ run.uses, ∀ row ∈ run.tables.invites.rows, row.id = use.invite.id
    → row.usedBy.isSome
  granted : ∀ use ∈ run.uses, Granted use

-- One call

section Step

variable {run : InviteRun} {code username now : String}

theorem consumeInvite_rows {tables : Tables} {row : InviteRow}
    (isRow : row ∈ (tables.consumeInvite code username now).1.invites.rows)
    : ∃ before ∈ tables.invites.rows, row.id = before.id ∧ row.role = before.role
      ∧ (before.usedBy.isSome → row.usedBy.isSome)
      ∧ (before.code = code → row.usedBy.isSome) := by
  obtain ⟨before, isBefore, same⟩ := List.mem_map.mp isRow
  refine ⟨before, isBefore, ?_⟩
  split at same
  · subst same
    exact ⟨rfl, rfl, fun _ => rfl, fun _ => rfl⟩
  · rename_i untouched
    subst same
    refine ⟨rfl, rfl, id, ?_⟩
    intro isCode
    simpa only [isCode, decide_true, Bool.true_and, Option.isNone_iff_eq_none, ← ne_eq,
      ← Option.isSome_iff_ne_none] using untouched

theorem consumeInvite_ids (tables : Tables)
    : (tables.consumeInvite code username now).1.invites.rows.map InviteRow.id
      = tables.invites.rows.map InviteRow.id := by
  simp only [Tables.consumeInvite, Table.update, List.map_map]
  apply List.map_congr_left
  intro row _
  simp only [Function.comp_apply]
  split <;> rfl

theorem Stored.consumeInvite {tables : Tables} (stored : Stored tables) (code username now : String)
    : Stored (tables.consumeInvite code username now).1 where
  ids := by
    rw [consumeInvite_ids]
    exact stored.ids
  given row isRow := by
    obtain ⟨before, isBefore, id, _⟩ := consumeInvite_rows isRow
    rw [id]
    exact stored.given before isBefore
  roles row isRow := by
    obtain ⟨before, isBefore, _, role, _⟩ := consumeInvite_rows isRow
    rw [role]
    exact stored.roles before isBefore

theorem exists_of_consumed {tables : Tables}
    (changed : (tables.consumeInvite code username now).2 ≠ 0)
    : ∃ row ∈ tables.invites.rows, row.code = code ∧ row.usedBy = none := by
  simp only [Tables.consumeInvite, Table.update, ne_eq, List.countP_eq_zero] at changed
  push Not at changed
  obtain ⟨row, isRow, facts⟩ := changed
  simp only [Bool.and_eq_true, decide_eq_true_eq, Option.isNone_iff_eq_none] at facts
  exact ⟨row, isRow, facts.1, facts.2⟩

theorem Invariant.consume {row : InviteRow} {account : Option UserRow} {after : InviteRun}
    (inv : run.Invariant) (isRow : row ∈ run.tables.invites.rows) (isCode : row.code = code)
    (unused : row.usedBy = none)
    (invites : after.tables.invites
      = (run.tables.consumeInvite code username now).1.invites)
    (lastInvite : after.tables.lastInvite = run.tables.lastInvite)
    (uses : after.uses = run.uses ++ [⟨row, account⟩]) (granted : Granted ⟨row, account⟩)
    : after.Invariant := by
  have stored := inv.toStored.consumeInvite code username now
  refine ⟨⟨?_, ?_, ?_⟩, ?_, ?_, ?_, ?_⟩
  · rw [invites]
    exact stored.ids
  · rw [invites, lastInvite]
    exact stored.given
  · rw [invites]
    exact stored.roles
  · rw [uses, List.map_append, List.nodup_append]
    refine ⟨inv.once, by simp, ?_⟩
    intro first isFirst second isSecond same
    obtain ⟨use, isUse, rfl⟩ := List.mem_map.mp isFirst
    rw [List.map_singleton, List.mem_singleton] at isSecond
    have spent := inv.spent use isUse row isRow (isSecond ▸ same).symm
    rw [unused] at spent
    cases spent
  · rw [uses, lastInvite]
    intro use isUse
    obtain isUse | isUse := List.mem_append.mp isUse
    · exact inv.past use isUse
    · rw [List.mem_singleton.mp isUse]
      exact inv.given row isRow
  · rw [uses, invites]
    intro use isUse row' isRow' same
    obtain ⟨before, isBefore, id, _, marked, codeMarked⟩ := consumeInvite_rows isRow'
    obtain isUse | isUse := List.mem_append.mp isUse
    · exact marked (inv.spent use isUse before isBefore (id ▸ same))
    · rw [List.mem_singleton.mp isUse] at same
      have isSame : before = row :=
        List.inj_on_of_nodup_map inv.ids isBefore isRow (id ▸ same)
      exact codeMarked (isSame ▸ isCode)
  · rw [uses]
    intro use isUse
    obtain isUse | isUse := List.mem_append.mp isUse
    · exact inv.granted use isUse
    · rw [List.mem_singleton.mp isUse]
      exact granted

theorem Invariant.shrink {after : InviteRun} (inv : run.Invariant)
    (rows : after.tables.invites.rows.Sublist run.tables.invites.rows)
    (lastInvite : after.tables.lastInvite = run.tables.lastInvite) (uses : after.uses = run.uses)
    : after.Invariant := by
  refine ⟨⟨?_, ?_, ?_⟩, ?_, ?_, ?_, ?_⟩
  · exact inv.ids.sublist (rows.map _)
  · rw [lastInvite]
    exact fun row isRow => inv.given row (rows.subset isRow)
  · exact fun row isRow => inv.roles row (rows.subset isRow)
  · rw [uses]
    exact inv.once
  · rw [uses, lastInvite]
    exact inv.past
  · rw [uses]
    exact fun use isUse row isRow => inv.spent use isUse row (rows.subset isRow)
  · rw [uses]
    exact inv.granted

theorem useOf_eq {row : InviteRow} (account : Option UserRow)
    (isRow : row ∈ run.tables.invites.rows) (isCode : row.code = code) (unused : row.usedBy = none)
    : run.useOf code account = [⟨row, account⟩] := by
  have rows : run.tables.invites.rows.Nodup := .of_map _ run.tables.invites.unique
  have single : (run.tables.invites.rows.filter
      (fun row => row.code = code && row.usedBy.isNone)).Perm [row] := by
    refine (List.perm_ext_iff_of_nodup (rows.filter _) (List.nodup_singleton row)).mpr ?_
    intro other
    simp only [List.mem_filter, Bool.and_eq_true, decide_eq_true_eq, List.mem_singleton]
    constructor
    · intro facts
      obtain ⟨isOther, sameCode, _⟩ := facts
      exact Table.eq_of_key isOther isRow (sameCode.trans isCode.symm)
    · intro same
      subst same
      exact ⟨isRow, isCode, by rw [unused]; rfl⟩
  rw [useOf, List.perm_singleton.mp single, List.map_singleton]

theorem Invariant.create {role : Role} {expires : String} {invitedBy : Option String}
    {expiresText : Except DbError String} {prune : AuditRow → Bool} (inv : run.Invariant)
    : Invariant
        {
          run with
          tables := (run.tables.createInvite role expires invitedBy code expiresText now prune).2
        } := by
  unfold Tables.createInvite
  split
  · exact inv
  rename_i invitable
  split
  · exact inv
  rename_i expiresAt
  unfold Tables.write
  dsimp only
  cases inserted : run.tables.invites.insert
      ⟨run.tables.lastInvite + 1, code, role.asStr, invitedBy, now, expiresAt, none, none⟩ with
  | none => exact inv
  | some invites =>
      obtain ⟨_, rows⟩ := Table.insert_eq_some inserted
      simp only [not_not] at invitable
      refine ⟨⟨?_, ?_, ?_⟩, inv.once, ?_, ?_, inv.granted⟩
      · simp only [logAuditIn_invites, rows, List.map_append, List.nodup_append]
        refine ⟨inv.ids, by simp, ?_⟩
        intro first isFirst second isSecond same
        obtain ⟨row, isRow, rfl⟩ := List.mem_map.mp isFirst
        rw [List.map_singleton, List.mem_singleton] at isSecond
        have given := inv.given row isRow
        rw [same, isSecond] at given
        exact absurd given (Nat.not_succ_le_self _)
      · simp only [logAuditIn_invites, logAuditIn_lastInvite, rows, List.forall_mem_append,
          List.forall_mem_singleton]
        exact ⟨fun row isRow => Nat.le_succ_of_le (inv.given row isRow), Nat.le_refl _⟩
      · simp only [logAuditIn_invites, rows, List.forall_mem_append, List.forall_mem_singleton]
        exact ⟨inv.roles, role, invitable, rfl⟩
      · intro use isUse
        exact Nat.le_succ_of_le (inv.past use isUse)
      · intro use isUse
        simp only [logAuditIn_invites, rows, List.forall_mem_append, List.forall_mem_singleton]
        refine ⟨inv.spent use isUse, ?_⟩
        intro same
        have past := inv.past use isUse
        rw [← same] at past
        exact absurd past (Nat.not_succ_le_self _)

theorem useInvite_cases (tables : Tables) (invite : Invite) (code username now : String)
    (prune : AuditRow → Bool)
    : ((tables.consumeInvite code username now).2 ≠ 0
        ∧ tables.useInvite invite code username now prune
          = (.ok true, (tables.consumeInvite code username now).1.logAuditIn
            (inviteUsed invite username code) now prune))
      ∨ tables.useInvite invite code username now prune
        = (.ok false, (tables.consumeInvite code username now).1) := by
  by_cases changed : 0 < (tables.consumeInvite code username now).2
  · refine .inl ⟨changed.ne', ?_⟩
    simp [Tables.useInvite, Tables.write, changed]
  · refine .inr ?_
    simp [Tables.useInvite, Tables.write, changed]

theorem Invariant.use {index : ℕ} {prune : AuditRow → Bool} (bcrypt : Bcrypt)
    (inv : run.Invariant)
    : (step bcrypt run (.use index now prune)).Invariant := by
  simp only [step]
  split
  · exact inv
  rename_i call _
  obtain ⟨changed, isUsed⟩ | isUnused :=
    useInvite_cases run.tables call.invite call.code call.username now prune
  · obtain ⟨row, isRow, isCode, unused⟩ := exists_of_consumed changed
    rw [isUsed, useOf_eq none isRow isCode unused]
    exact inv.consume isRow isCode unused rfl rfl rfl (fun account isSome => by cases isSome)
  · rw [isUnused]
    have stored := inv.toStored.consumeInvite call.code call.username now
    refine ⟨stored, inv.once, inv.past, ?_, inv.granted⟩
    intro use isUse row isRow same
    obtain ⟨before, isBefore, id, _, marked, _⟩ := consumeInvite_rows isRow
    exact marked (inv.spent use isUse before isBefore (id ▸ same))

theorem registerWithInvite_ok {tables after : Tables} {passwordHash notes : String}
    {status : UserStatus} {clock : String → Bool} {prune : AuditRow → Bool} {granted : ℕ × Role}
    (done : registerWithInvite username passwordHash code status notes now clock prune tables
      = .ok (granted, after))
    : ∃ row ∈ tables.invites.rows, row.code = code ∧ row.usedBy = none
      ∧ Role.fromStr row.role = some granted.2
      ∧ after.users.rows = tables.users.rows
        ++ [⟨granted.1, username, passwordHash, granted.2.asStr, status.asStr, notes, now⟩]
      ∧ after.invites = (tables.consumeInvite code username now).1.invites
      ∧ after.lastInvite = tables.lastInvite := by
  unfold registerWithInvite at done
  split at done
  · cases done
  rename_i invite valid
  cases inserted : insertUser username passwordHash invite.role status notes now tables with
  | error failure =>
      rw [inserted] at done
      cases done
  | ok result =>
      obtain ⟨id, middle⟩ := result
      rw [inserted] at done
      obtain ⟨users, invites, lastInvite⟩ := insertUser_ok inserted
      have same : (middle.consumeInvite code username now).2
          = (tables.consumeInvite code username now).2 := by
        simp only [Tables.consumeInvite, invites]
      simp only [bind, Except.bind] at done
      split at done
      · cases done
      · rename_i one
        rw [not_not, same] at one
        cases done
        have consumed : (tables.consumeInvite code username now).2 ≠ 0 := one ▸ Nat.one_ne_zero
        obtain ⟨row, isRow, isCode, unused⟩ := exists_of_consumed consumed
        obtain ⟨found, isFound, foundCode, _, role⟩ := validateInvite_eq_some valid
        obtain rfl := Table.eq_of_key isFound isRow (foundCode.trans isCode.symm)
        refine ⟨found, isRow, isCode, unused, role, users, ?_, lastInvite⟩
        simp only [logAuditIn_invites, Tables.consumeInvite, invites]

theorem Invariant.register {salt password notes : String} {status : UserStatus}
    {clock : String → Bool} {prune : AuditRow → Bool} (bcrypt : Bcrypt) (inv : run.Invariant)
    : (step bcrypt run
        (.register salt username password code status notes now clock prune)).Invariant := by
  simp only [step]
  unfold Tables.createUserWithInvite
  cases newAccountHash bcrypt salt username password with
  | error failure => exact inv
  | ok passwordHash =>
      simp only [Tables.write]
      cases done : registerWithInvite username passwordHash code status notes now clock prune
          run.tables with
      | error failure => exact inv
      | ok result =>
          obtain ⟨granted, after⟩ := result
          obtain ⟨row, isRow, isCode, unused, isRole, users, invites, lastInvite⟩ :=
            registerWithInvite_ok done
          let account : UserRow :=
            ⟨granted.1, username, passwordHash, granted.2.asStr, status.asStr, notes, now⟩
          have isAccount : after.users.find? username = some account := by
            refine Table.find?_eq_some_iff.mpr ⟨?_, rfl⟩
            rw [users]
            exact List.mem_append_right _ List.mem_cons_self
          obtain ⟨role, invitable, same⟩ := inv.roles row isRow
          rw [same, Role.fromStr_asStr] at isRole
          dsimp only
          rw [isAccount, useOf_eq (some account) isRow isCode unused]
          refine inv.consume isRow isCode unused invites lastInvite rfl ?_
          intro _ isSome
          cases isSome
          refine ⟨?_, role, invitable, same⟩
          rw [same, Option.some.inj isRole]

theorem uses_register {salt password notes : String} {status : UserStatus}
    {clock : String → Bool} {prune : AuditRow → Bool} {granted : ℕ × Role} (bcrypt : Bcrypt)
    (done : (run.tables.createUserWithInvite bcrypt salt username password code status notes now
      clock prune).1 = .ok granted)
    : ∃ invite account, account.id = granted.1 ∧ account.username = username ∧ invite.code = code
      ∧ (step bcrypt run (.register salt username password code status notes now clock prune)).uses
        = run.uses ++ [⟨invite, some account⟩] := by
  simp only [step]
  unfold Tables.createUserWithInvite at done ⊢
  cases hashed : newAccountHash bcrypt salt username password with
  | error failure =>
      rw [hashed] at done
      cases done
  | ok passwordHash =>
      rw [hashed] at done
      simp only [Tables.write] at done ⊢
      cases registered : registerWithInvite username passwordHash code status notes now clock prune
          run.tables with
      | error failure =>
          rw [registered] at done
          cases done
      | ok result =>
          rw [registered] at done
          cases done
          obtain ⟨row, isRow, isCode, unused, _, users, _⟩ := registerWithInvite_ok registered
          let account : UserRow :=
            ⟨result.1.1, username, passwordHash, result.1.2.asStr, status.asStr, notes, now⟩
          have isAccount : result.2.users.find? username = some account := by
            refine Table.find?_eq_some_iff.mpr ⟨?_, rfl⟩
            rw [users]
            exact List.mem_append_right _ List.mem_cons_self
          refine ⟨row, account, rfl, rfl, isCode, ?_⟩
          dsimp only
          rw [isAccount, useOf_eq (some account) isRow isCode unused]

theorem Invariant.step (bcrypt : Bcrypt) (inv : run.Invariant) (call : InviteCall)
    : (step bcrypt run call).Invariant := by
  cases call with
  | create => exact inv.create
  | delete code => exact inv.shrink List.filter_sublist rfl rfl
  | validate code username clock =>
      simp only [InviteRun.step]
      split
      · exact inv
      · exact inv.shrink (List.Sublist.refl _) rfl rfl
  | use => exact inv.use bcrypt
  | register => exact inv.register bcrypt

theorem Invariant.steps (bcrypt : Bcrypt) (inv : run.Invariant) (calls : List InviteCall)
    : (steps bcrypt run calls).Invariant := by
  unfold InviteRun.steps
  induction calls generalizing run with
  | nil => exact inv
  | cons call calls ih => exact ih (inv.step bcrypt call)

end Step

/-- The run that begins with the tables. -/
def initial (tables : Tables) : InviteRun := ⟨tables, [], []⟩

theorem Stored.invariant {tables : Tables} (stored : Stored tables) : (initial tables).Invariant := by
  refine ⟨stored, List.nodup_nil, ?_, ?_, ?_⟩
  all_goals exact fun _ isUse => absurd isUse List.not_mem_nil

theorem createUserWithInvite_refused {bcrypt : Bcrypt} {tables : Tables}
    {salt username password code notes now : String} {status : UserStatus} {clock : String → Bool}
    {prune : AuditRow → Bool} {error : DbError}
    (refused : (tables.createUserWithInvite bcrypt salt username password code status notes now clock
      prune).1 = .error error)
    : (tables.createUserWithInvite bcrypt salt username password code status notes now clock
      prune).2 = tables := by
  unfold Tables.createUserWithInvite at refused ⊢
  split
  · rfl
  · rename_i isOk
    rw [isOk] at refused
    exact Tables.write_error refused

/-- In every run each invite is used up at most once, and every registration that succeeds uses one
up: so at most one account is made with it. That account has the invite's role, which is never one
of an administrator or a processor; and a registration that is refused changes nothing.
-/
theorem invite_used_once (bcrypt : Bcrypt) {tables : Tables} (stored : Stored tables)
    (calls : List InviteCall)
    : let run := steps bcrypt (initial tables) calls
      (run.uses.map (fun use => use.invite.id)).Nodup
        ∧ (∀ use ∈ run.uses, ∀ account, use.account = some account
          → account.role = use.invite.role
            ∧ account.role ≠ Role.admin.asStr ∧ account.role ≠ Role.processor.asStr)
        ∧ (∀ salt username password code status notes now clock prune granted,
          (run.tables.createUserWithInvite bcrypt salt username password code status notes now clock
              prune).1 = .ok granted
            → ∃ invite account, account.id = granted.1 ∧ account.username = username
              ∧ invite.code = code
              ∧ (run.step bcrypt
                  (.register salt username password code status notes now clock prune)).uses
                = run.uses ++ [⟨invite, some account⟩])
        ∧ ∀ salt username password code status notes now clock prune error,
          (run.tables.createUserWithInvite bcrypt salt username password code status notes now clock
              prune).1 = .error error
            → (run.tables.createUserWithInvite bcrypt salt username password code status notes now
              clock prune).2 = run.tables := by
  intro run
  have inv : run.Invariant := stored.invariant.steps bcrypt calls
  refine ⟨inv.once, ?_, ?_, ?_⟩
  · intro use isUse account isAccount
    obtain ⟨same, role, invitable, isRole⟩ := inv.granted use isUse account isAccount
    refine ⟨same, ?_⟩
    rw [same, isRole]
    revert invitable
    cases role <;> decide
  · intros
    rename_i done
    exact uses_register bcrypt done
  · intros
    rename_i refused
    exact createUserWithInvite_refused refused

def oneInvite : Tables :=
  {
    Tables.empty with
    invites :=
      {
        rows := [⟨1, "c0de", "uploader", none, "2026-10-01 00:00:00", "2026-10-08", none, none⟩]
        unique := List.nodup_singleton _
      }
    lastInvite := 1
  }

theorem invite_used_once_one
    : let calls : List InviteCall :=
        [
          .register "" "alice" "password123" "c0de" .active "" "now" (fun _ => true)
            (fun _ => false),
          .validate "c0de" "bob" (fun _ => true)
        ]
      ((steps plainHashes (initial oneInvite) calls).uses.map (fun use => use.invite.id)).Nodup := by
  intro calls
  have stored : Stored oneInvite := by
    refine ⟨by decide, by decide, ?_⟩
    intro row isRow
    obtain rfl := List.mem_singleton.mp isRow
    exact ⟨.uploader, by decide, rfl⟩
  exact (invite_used_once plainHashes stored calls).1

end InviteRun

end MokuroBunko.Db
