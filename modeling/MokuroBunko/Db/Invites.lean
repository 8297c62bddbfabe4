import MokuroBunko.Db.Users

/-! Invites: who may make an account with one, and how one is used up (`invites.rs`).
-/

namespace MokuroBunko.Db

open MokuroBunko.Lib

/-- The roles an invite may carry. -/
def invitableRoles : List Role := [.editor, .inviter, .registered, .uploader]

def invalidInviteMessage : String := "Invalid or expired invite code"

structure Invite where
  id : ℕ
  code : String
  role : Role
  createdAt : String
  expiresAt : String
  usedBy : Option String
  invitedBy : Option String
  deriving DecidableEq

inductive InviteStatus where
  | valid
  | expired
  | used
  deriving DecidableEq

/-- Used, else expired, else valid. The clock tells of an expiry's text whether it parses and has
not passed.
-/
def Invite.status (invite : Invite) (clock : String → Bool) : InviteStatus :=
  if invite.usedBy.any (fun username => ¬ username.isEmpty) then .used
  else if clock invite.expiresAt then .valid
  else .expired

def InviteRow.intoInvite (row : InviteRow) : Except DbError Invite :=
  match Role.fromStr row.role with
  | none =>
      .error (.corruptRow "invites"
        ("invite '" ++ row.code ++ "' has unknown role '" ++ row.role ++ "'"))
  | some role =>
      .ok ⟨row.id, row.code, role, row.createdAt, row.expiresAt, row.usedBy, row.invitedBy⟩

-- The audit log

structure NewAuditEvent where
  action : String
  actorUsername : Option String
  targetType : Option String
  targetPath : Option String
  targetUsername : Option String
  details : Option AuditDetails

/-- Append the event and remove the rows that are to be pruned, if any are at this time. -/
def Tables.logAuditIn (tables : Tables) (event : NewAuditEvent) (now : String)
    (prune : AuditRow → Bool)
    : Tables :=
  let id := tables.lastAudit + 1
  let row : AuditRow :=
    {
      id
      actorUsername := event.actorUsername
      action := event.action
      targetType := event.targetType
      targetPath := event.targetPath
      targetUsername := event.targetUsername
      details := event.details
      createdAt := now
    }
  { tables with audit := (tables.audit ++ [row]).filter (fun row => ¬ prune row), lastAudit := id }

/-- What the log says of an invite that was used up. -/
def inviteUsed (invite : Invite) (username code : String) : NewAuditEvent where
  action := "invite_used"
  actorUsername := some username
  targetType := some "invite"
  targetPath := some code
  targetUsername := some username
  details := some [("invited_by", invite.invitedBy), ("role", some invite.role.asStr)]

-- Operations

/-- Create an invite with a code that was drawn and an expiry that was computed. -/
def Tables.createInvite (tables : Tables) (role : Role) (expires : String)
    (invitedBy : Option String) (code : String) (expiresText : Except DbError String) (now : String)
    (prune : AuditRow → Bool)
    : Except DbError String × Tables :=
  if role ∉ invitableRoles then
    (
      .error (.invalid ("Role cannot be granted by invite: " ++ role.asStr
        ++ ". Must be one of: ['editor', 'inviter', 'registered', 'uploader']")),
      tables
    )
  else
    match expiresText with
    | .error error => (.error error, tables)
    | .ok expiresAt =>
        tables.write (fun tables =>
          let id := tables.lastInvite + 1
          let row : InviteRow :=
            ⟨id, code, role.asStr, invitedBy, now, expiresAt, none, none⟩
          match tables.invites.insert row with
          | none => .error .sqlite
          | some invites =>
              let event : NewAuditEvent :=
                {
                  action := "invite_created"
                  actorUsername := invitedBy
                  targetType := some "invite"
                  targetPath := some code
                  targetUsername := none
                  details := some [("role", some role.asStr), ("expires", some expires)]
                }
              let tables := { tables with invites, lastInvite := id }
              .ok (code, tables.logAuditIn event now prune))

/-- The invite if it exists and its status is valid. -/
def Tables.validateInvite (tables : Tables) (code : String) (clock : String → Bool)
    : Option Invite :=
  match (tables.invites.find? code).map InviteRow.intoInvite with
  | some (.ok invite) => if invite.status clock = .valid then some invite else none
  | _ => none

/-- `UPDATE invites SET used_by … WHERE code = ? AND used_by IS NULL`. -/
def Tables.consumeInvite (tables : Tables) (code username now : String) : Tables × ℕ :=
  let (invites, changed) := tables.invites.update
    (fun row => row.code = code && row.usedBy.isNone)
    (fun row => { row with usedBy := some username, usedAt := some now })
  ({ tables with invites }, changed)

/-- The second half of `use_invite`, with the invite that the first half has found valid. -/
def Tables.useInvite (tables : Tables) (invite : Invite) (code username now : String)
    (prune : AuditRow → Bool)
    : Except DbError Bool × Tables :=
  tables.write (fun tables =>
    let (after, changed) := tables.consumeInvite code username now
    if 0 < changed then
      .ok (true, after.logAuditIn (inviteUsed invite username code) now prune)
    else .ok (false, after))

/-- The transaction that makes an account with an invite. -/
def registerWithInvite (username passwordHash code : String) (status : UserStatus)
    (notes now : String) (clock : String → Bool) (prune : AuditRow → Bool) (tables : Tables)
    : Except DbError ((ℕ × Role) × Tables) :=
  match tables.validateInvite code clock with
  | none => .error (.invalid invalidInviteMessage)
  | some invite => do
      let (id, tables) ← insertUser username passwordHash invite.role status notes now tables
      let (tables, consumed) := tables.consumeInvite code username now
      if consumed ≠ 1 then .error (.invalid invalidInviteMessage)
      else .ok ((id, invite.role), tables.logAuditIn (inviteUsed invite username code) now prune)

/-- Register with an invite: the account and the invite's use are one transaction. -/
def Tables.createUserWithInvite (tables : Tables) (bcrypt : Bcrypt)
    (salt username password code : String) (status : UserStatus) (notes now : String)
    (clock : String → Bool) (prune : AuditRow → Bool)
    : Except DbError (ℕ × Role) × Tables :=
  match newAccountHash bcrypt salt username password with
  | .error error => (.error error, tables)
  | .ok passwordHash =>
      tables.write (registerWithInvite username passwordHash code status notes now clock prune)

def Tables.deleteInvite (tables : Tables) (code : String) : Except DbError Bool × Tables :=
  tables.write (fun tables =>
    let (invites, removed) := tables.invites.delete (fun row => row.code = code)
    .ok (decide (0 < removed), { tables with invites }))

-- What the operations do

section Facts

variable {tables : Tables} {code username now : String}

@[simp] theorem logAuditIn_users (event : NewAuditEvent) (prune : AuditRow → Bool)
    : (tables.logAuditIn event now prune).users = tables.users :=
  rfl

@[simp] theorem logAuditIn_invites (event : NewAuditEvent) (prune : AuditRow → Bool)
    : (tables.logAuditIn event now prune).invites = tables.invites :=
  rfl

@[simp] theorem logAuditIn_lastInvite (event : NewAuditEvent) (prune : AuditRow → Bool)
    : (tables.logAuditIn event now prune).lastInvite = tables.lastInvite :=
  rfl

theorem insertUser_ok {passwordHash notes : String} {role : Role} {status : UserStatus} {id : ℕ}
    {after : Tables}
    (inserted : insertUser username passwordHash role status notes now tables = .ok (id, after))
    : after.users.rows = tables.users.rows
        ++ [⟨id, username, passwordHash, role.asStr, status.asStr, notes, now⟩]
      ∧ after.invites = tables.invites ∧ after.lastInvite = tables.lastInvite := by
  unfold insertUser at inserted
  dsimp only at inserted
  split at inserted
  · rename_i users isInserted
    cases inserted
    exact ⟨(Table.insert_eq_some isInserted).2, rfl, rfl⟩
  · split at inserted <;> cases inserted

theorem validateInvite_eq_some {clock : String → Bool} {invite : Invite}
    (valid : tables.validateInvite code clock = some invite)
    : ∃ row ∈ tables.invites.rows, row.code = code ∧ row.id = invite.id
      ∧ Role.fromStr row.role = some invite.role := by
  unfold Tables.validateInvite at valid
  split at valid
  · rename_i found isFound
    split at valid
    · cases valid
      obtain ⟨row, isRow, same⟩ := Option.map_eq_some_iff.mp isFound
      obtain ⟨isIn, key⟩ := Table.find?_eq_some_iff.mp isRow
      refine ⟨row, isIn, key, ?_⟩
      unfold InviteRow.intoInvite at same
      split at same
      · cases same
      · rename_i role isRole
        cases same
        exact ⟨rfl, isRole⟩
    · cases valid
  · cases valid

end Facts

end MokuroBunko.Db
