import Mathlib.Data.Rat.Defs
import MokuroBunko.Lib.Table
import MokuroBunko.Lib.Text

/-! The tables of the server's database that hold accounts, and what a write transaction does to
them.
-/

namespace MokuroBunko.Db

open MokuroBunko.Lib

-- Roles and statuses

inductive Role where
  | anonymous
  | registered
  | uploader
  | editor
  | inviter
  | admin
  | processor
  deriving DecidableEq

def Role.asStr : Role → String
  | .anonymous => "anonymous"
  | .registered => "registered"
  | .uploader => "uploader"
  | .editor => "editor"
  | .inviter => "inviter"
  | .admin => "admin"
  | .processor => "processor"

/-- The role of a text. `writer` is an old name of `uploader`. -/
def Role.fromStr (text : String) : Option Role :=
  [
    ("anonymous", .anonymous), ("registered", .registered), ("uploader", .uploader),
    ("writer", .uploader), ("editor", .editor), ("inviter", .inviter), ("admin", .admin),
    ("processor", Role.processor)
  ].lookup text

theorem Role.fromStr_asStr (role : Role) : Role.fromStr role.asStr = some role := by
  cases role <;> rfl

inductive UserStatus where
  | active
  | pending
  | disabled
  | deleted
  deriving DecidableEq

def UserStatus.asStr : UserStatus → String
  | .active => "active"
  | .pending => "pending"
  | .disabled => "disabled"
  | .deleted => "deleted"

def UserStatus.fromStr (text : String) : Option UserStatus :=
  [.active, .pending, .disabled, UserStatus.deleted].find? (fun status => status.asStr = text)

-- Rows

/-- A row of `users`. The role and the status are texts, which this build may not know. -/
structure UserRow where
  id : ℕ
  username : String
  passwordHash : String
  role : String
  status : String
  notes : String
  createdAt : String
  deriving DecidableEq

/-- A row of `auth_tokens`. Times are in seconds. -/
structure TokenRow where
  tokenHash : String
  username : String
  kind : String
  label : String
  createdAt : ℚ
  expiresAt : ℚ
  lastUsedAt : ℚ
  deriving DecidableEq

/-- A row of `invites`. -/
structure InviteRow where
  id : ℕ
  code : String
  role : String
  invitedBy : Option String
  createdAt : String
  expiresAt : String
  usedBy : Option String
  usedAt : Option String
  deriving DecidableEq

/-- The details of an event, in order, before they are written as JSON. -/
abbrev AuditDetails := List (String × Option String)

/-- A row of `audit_logs`. -/
structure AuditRow where
  id : ℕ
  actorUsername : Option String
  action : String
  targetType : Option String
  targetPath : Option String
  targetUsername : Option String
  details : Option AuditDetails
  createdAt : String
  deriving DecidableEq

/-- The tables, with the last id that each of them gave out. -/
structure Tables where
  users : Table UserRow.username
  lastUser : ℕ
  tokens : Table TokenRow.tokenHash
  invites : Table InviteRow.code
  lastInvite : ℕ
  audit : List AuditRow
  lastAudit : ℕ

def Tables.empty : Tables where
  users := .empty
  lastUser := 0
  tokens := .empty
  invites := .empty
  lastInvite := 0
  audit := []
  lastAudit := 0

-- Transactions

inductive DbError where
  | invalid (message : String)
  | conflict (message : String)
  | corruptRow (table detail : String)
  | hash
  | sqlite
  deriving DecidableEq

/-- Run the body in one write transaction: an error rolls everything back. -/
def Tables.write {α : Type} (tables : Tables) (body : Tables → Except DbError (α × Tables))
    : Except DbError α × Tables :=
  match body tables with
  | .ok (value, after) => (.ok value, after)
  | .error error => (.error error, tables)

theorem Tables.write_error {α : Type} {tables : Tables}
    {body : Tables → Except DbError (α × Tables)} {error : DbError}
    (failed : (tables.write body).1 = .error error)
    : (tables.write body).2 = tables := by
  unfold Tables.write at failed ⊢
  split at failed
  · contradiction
  · rfl

theorem Tables.write_keeps {α : Type} {tables : Tables}
    {body : Tables → Except DbError (α × Tables)} {Holds : Tables → Prop} (holds : Holds tables)
    (keeps : ∀ value after, body tables = .ok (value, after) → Holds after)
    : Holds (tables.write body).2 := by
  unfold Tables.write
  split
  · rename_i value after isOk
    exact keeps value after isOk
  · exact holds

end MokuroBunko.Db
