import MokuroBunko.Db.Users

/-! The account operations of the web administration, and that they leave an active administrator.
-/

namespace MokuroBunko.Db

open MokuroBunko.Lib

/-- What the web administration asks of the accounts. -/
inductive AdminRequest where
  | createUser (salt username password : String) (role : Role) (notes now : String)
  | deleteUser (username : String)
  | changeRole (username : String) (role : Role)
  | approveUser (username : String)
  | disableUser (username : String)
  | updateNotes (username notes : String)

/-- Whether the database refuses, and the tables after it. -/
def outcome {α : Type} (result : Except DbError α × Tables) : Except DbError Unit × Tables :=
  (result.1.map (fun _ => ()), result.2)

def AdminRequest.run (bcrypt : Bcrypt) (tables : Tables)
    : AdminRequest → Except DbError Unit × Tables
  | .createUser salt username password role notes now =>
      outcome (tables.createUser bcrypt salt username password role .active notes now)
  | .deleteUser username => outcome (tables.deleteUserWith username .keep)
  | .changeRole username role => outcome (tables.updateUserRoleWith username role .keep)
  | .approveUser username => outcome (tables.approveUser username)
  | .disableUser username => outcome (tables.disableUserWith username .keep)
  | .updateNotes username notes => outcome (tables.updateUserNotes username notes)

/-- The tables after the requests, one after another. -/
def runRequests (bcrypt : Bcrypt) (tables : Tables) (requests : List AdminRequest) : Tables :=
  requests.foldl (fun tables request => (request.run bcrypt tables).2) tables

/-- Somebody can administer the server. -/
def Tables.HasAdmin (tables : Tables) : Prop := ∃ row ∈ tables.users.rows, row.isActiveAdmin

section Step

variable {tables : Tables} {username : String}

theorem exists_other_admin (hasAdmin : tables.HasAdmin)
    (passed : guardLastAdmin tables username .keep = .ok ())
    : ∃ row ∈ tables.users.rows, row.isActiveAdmin ∧ row.username ≠ username := by
  have notLast : isLastActiveAdmin tables username = false := by
    unfold guardLastAdmin at passed
    split at passed
    · cases passed
    · rename_i other
      simpa using other
  obtain ⟨admin, isRow, isAdmin⟩ := hasAdmin
  by_cases same : admin.username = username
  · have found : tables.users.find? username = some admin :=
      Table.find?_eq_some_iff.mpr ⟨isRow, same⟩
    simp only [isLastActiveAdmin, found, Option.map_some, Option.getD_some, isAdmin, not_true_eq_false,
      if_false, decide_eq_false_iff_not, List.countP_eq_zero] at notLast
    push Not at notLast
    obtain ⟨other, isOther, facts⟩ := notLast
    rw [Bool.and_eq_true, decide_eq_true_eq] at facts
    exact ⟨other, isOther, facts.1, facts.2⟩
  · exact ⟨admin, isRow, isAdmin, same⟩

theorem hasAdmin_update {which : UserRow → Bool} {set : UserRow → UserRow} {after : Tables}
    (users : after.users.rows = tables.users.rows.map (fun row => if which row then set row else row))
    (kept : ∃ row ∈ tables.users.rows, row.isActiveAdmin ∧ (which row → (set row).isActiveAdmin))
    : after.HasAdmin := by
  obtain ⟨admin, isRow, isAdmin, untouched⟩ := kept
  refine ⟨if which admin then set admin else admin, ?_, ?_⟩
  · rw [users]
    exact List.mem_map.mpr ⟨admin, isRow, rfl⟩
  · split
    · rename_i touched
      exact untouched touched
    · exact isAdmin

theorem createUser_hasAdmin {bcrypt : Bcrypt} {salt password notes now : String} {role : Role}
    {status : UserStatus} (hasAdmin : tables.HasAdmin)
    : (tables.createUser bcrypt salt username password role status notes now).2.HasAdmin := by
  unfold Tables.createUser
  split
  · exact hasAdmin
  · refine Tables.write_keeps hasAdmin ?_
    intro id after inserted
    unfold insertUser at inserted
    dsimp only at inserted
    split at inserted
    · rename_i users isInserted
      cases inserted
      obtain ⟨admin, isRow, isAdmin⟩ := hasAdmin
      refine ⟨admin, ?_, isAdmin⟩
      rw [(Table.insert_eq_some isInserted).2]
      exact List.mem_append_left _ isRow
    · split at inserted <;> cases inserted

theorem deleteUser_hasAdmin (hasAdmin : tables.HasAdmin)
    : (tables.deleteUserWith username .keep).2.HasAdmin := by
  refine Tables.write_keeps hasAdmin ?_
  intro value after done
  cases passed : guardLastAdmin tables username .keep with
  | error failure =>
      rw [passed] at done
      cases done
  | ok _ =>
      rw [passed] at done
      cases done
      obtain ⟨admin, isRow, isAdmin, other⟩ := exists_other_admin hasAdmin passed
      refine hasAdmin_update rfl ⟨admin, isRow, isAdmin, ?_⟩
      intro touched
      simp only [other, decide_false, Bool.false_and, Bool.false_eq_true] at touched

theorem disableUser_hasAdmin (hasAdmin : tables.HasAdmin)
    : (tables.disableUserWith username .keep).2.HasAdmin := by
  refine Tables.write_keeps hasAdmin ?_
  intro value after done
  cases passed : guardLastAdmin tables username .keep with
  | error failure =>
      rw [passed] at done
      cases done
  | ok _ =>
      rw [passed] at done
      cases done
      obtain ⟨admin, isRow, isAdmin, other⟩ := exists_other_admin hasAdmin passed
      refine hasAdmin_update rfl ⟨admin, isRow, isAdmin, ?_⟩
      intro touched
      exact absurd (of_decide_eq_true touched) other

theorem changeRole_hasAdmin {role : Role} (hasAdmin : tables.HasAdmin)
    : (tables.updateUserRoleWith username role .keep).2.HasAdmin := by
  refine Tables.write_keeps hasAdmin ?_
  intro value after done
  by_cases isAdminRole : role = .admin
  · subst isAdminRole
    cases done
    obtain ⟨admin, isRow, isAdmin⟩ := hasAdmin
    refine hasAdmin_update rfl ⟨admin, isRow, isAdmin, ?_⟩
    intro _
    simp only [UserRow.isActiveAdmin, decide_eq_true_eq] at isAdmin ⊢
    exact ⟨rfl, isAdmin.2⟩
  · cases passed : guardLastAdmin tables username .keep with
    | error failure =>
        rw [if_pos isAdminRole, passed] at done
        cases done
    | ok _ =>
        rw [if_pos isAdminRole, passed] at done
        cases done
        obtain ⟨admin, isRow, isAdmin, other⟩ := exists_other_admin hasAdmin passed
        refine hasAdmin_update rfl ⟨admin, isRow, isAdmin, ?_⟩
        intro touched
        exact absurd (of_decide_eq_true touched) other

theorem approveUser_hasAdmin (hasAdmin : tables.HasAdmin)
    : (tables.approveUser username).2.HasAdmin := by
  obtain ⟨admin, isRow, isAdmin⟩ := hasAdmin
  refine hasAdmin_update rfl ⟨admin, isRow, isAdmin, ?_⟩
  intro _
  simp only [UserRow.isActiveAdmin, decide_eq_true_eq] at isAdmin ⊢
  exact ⟨isAdmin.1, trivial⟩

theorem updateNotes_hasAdmin {notes : String} (hasAdmin : tables.HasAdmin)
    : (tables.updateUserNotes username notes).2.HasAdmin := by
  obtain ⟨admin, isRow, isAdmin⟩ := hasAdmin
  exact hasAdmin_update rfl ⟨admin, isRow, isAdmin, fun _ => isAdmin⟩

end Step

theorem run_hasAdmin {bcrypt : Bcrypt} {tables : Tables} (hasAdmin : tables.HasAdmin)
    (request : AdminRequest)
    : (request.run bcrypt tables).2.HasAdmin := by
  cases request <;> simp only [AdminRequest.run, outcome]
  case createUser => exact createUser_hasAdmin hasAdmin
  case deleteUser => exact deleteUser_hasAdmin hasAdmin
  case changeRole => exact changeRole_hasAdmin hasAdmin
  case approveUser => exact approveUser_hasAdmin hasAdmin
  case disableUser => exact disableUser_hasAdmin hasAdmin
  case updateNotes => exact updateNotes_hasAdmin hasAdmin

theorem createUser_error {bcrypt : Bcrypt} {salt username password notes now : String} {role : Role}
    {status : UserStatus} {tables : Tables} {error : DbError}
    (failed : (tables.createUser bcrypt salt username password role status notes now).1
      = .error error)
    : (tables.createUser bcrypt salt username password role status notes now).2 = tables := by
  unfold Tables.createUser at failed ⊢
  split
  · rfl
  · rename_i isOk
    rw [isOk] at failed
    exact Tables.write_error failed

theorem run_refused {bcrypt : Bcrypt} {tables : Tables} {request : AdminRequest} {error : DbError}
    (refused : (request.run bcrypt tables).1 = .error error)
    : (request.run bcrypt tables).2 = tables := by
  have isError {α : Type} {result : Except DbError α × Tables}
      (failed : (outcome result).1 = .error error)
      : result.1 = .error error := by
    cases answer : result.1 with
    | error failure =>
        simp only [outcome, answer] at failed
        cases failed
        rfl
    | ok value =>
        simp only [outcome, answer] at failed
        cases failed
  cases request <;> simp only [AdminRequest.run] at refused ⊢ <;>
    have failed := isError refused <;>
    simp only [outcome]
  case createUser => exact createUser_error failed
  case deleteUser =>
    unfold Tables.deleteUserWith at failed ⊢
    exact Tables.write_error failed
  case changeRole =>
    unfold Tables.updateUserRoleWith at failed ⊢
    exact Tables.write_error failed
  case approveUser =>
    unfold Tables.approveUser at failed ⊢
    exact Tables.write_error failed
  case disableUser =>
    unfold Tables.disableUserWith at failed ⊢
    exact Tables.write_error failed
  case updateNotes =>
    unfold Tables.updateUserNotes at failed ⊢
    exact Tables.write_error failed

/-- From tables with an active administrator, there is one after any requests; and what is then
refused for the last one's sake changes nothing.
-/
theorem requests_keep_admin (bcrypt : Bcrypt) {tables : Tables} (hasAdmin : tables.HasAdmin)
    (requests : List AdminRequest)
    : (runRequests bcrypt tables requests).HasAdmin
      ∧ ∀ request : AdminRequest,
        (request.run bcrypt (runRequests bcrypt tables requests)).1
            = .error (.conflict lastAdminMessage)
          → (request.run bcrypt (runRequests bcrypt tables requests)).2
            = runRequests bcrypt tables requests := by
  refine ⟨?_, fun request => run_refused⟩
  unfold runRequests
  induction requests generalizing tables with
  | nil => exact hasAdmin
  | cons request requests ih => exact ih (run_hasAdmin hasAdmin request)

def oneAdmin : Tables :=
  {
    Tables.empty with
    users :=
      {
        rows :=
          [
            ⟨1, "root", "h1", "admin", "active", "", "2026-10-01 00:00:00"⟩,
            ⟨2, "old", "h2", "admin", "disabled", "", "2026-10-02 00:00:00"⟩
          ]
        unique := by decide
      }
    lastUser := 2
  }

theorem requests_keep_admin_root
    : let requests : List AdminRequest := [.approveUser "old", .deleteUser "old"]
      (runRequests plainHashes oneAdmin requests).HasAdmin
        ∧ ∀ request : AdminRequest,
          (request.run plainHashes (runRequests plainHashes oneAdmin requests)).1
              = .error (.conflict lastAdminMessage)
            → (request.run plainHashes (runRequests plainHashes oneAdmin requests)).2
              = runRequests plainHashes oneAdmin requests := by
  intro requests
  have hasAdmin : oneAdmin.HasAdmin := ⟨_, List.mem_cons_self, by decide⟩
  exact requests_keep_admin plainHashes hasAdmin requests

end MokuroBunko.Db
