import MokuroBunko.Dav.Resource
import MokuroBunko.Dav.LockTable

/-! Uploads into the reading history (`put_inner` and `history_caps` of `put.rs`, the account
writer guard of `write_locks.rs`, `history_bytes` of `resource.rs`) beside deletions and other
requests. An upload holds its path lock, then waits for its account's guard; between the measure
of the account's tree and the rename that publishes the file any other request may go on.
-/

namespace MokuroBunko.Dav

open MokuroBunko.Lib

/-- The folder of an account's reading history. -/
def historyRoot (base : OsPath) : OsPath := base ++ [historyDir]

/-- Whether the path lies in the account's reading history. -/
def inHistory (base path : OsPath) : Bool :=
  (historyRoot base).isPrefixOf path && path != historyRoot base

/-- What stands at a place of a history tree. -/
inductive Stored where
  | folder
  | file (size : ℕ)
deriving DecidableEq

def Stored.size : Stored → ℕ
  | .folder => 0
  | .file size => size

structure HistoryLimits where
  maxFileBytes : ℕ
  maxTotalBytes : ℕ

/-- The answer to an upload that is refused. -/
structure Rejection where
  status : ℕ
  reason : String
  detail : String
  retry : Bool
deriving DecidableEq

/-- The limits one upload is held to. -/
structure HistoryCaps where
  maxFile : ℕ
  room : ℕ
  maxTotal : ℕ
deriving DecidableEq

def HistoryCaps.check (caps : HistoryCaps) (size : ℕ) : Option Rejection :=
  if caps.maxFile < size then
    some {
      status := 413
      reason := "too-large"
      detail := s!"A reading-history file is limited to {caps.maxFile} bytes."
      retry := false
    }
  else if caps.room < size then
    some {
      status := 507
      reason := "quota-exceeded"
      detail := s!"This account's reading history is limited to {caps.maxTotal} bytes."
      retry := false
    }
  else none

/-- The caps of an upload once the tree was measured. -/
def historyCaps (limits : HistoryLimits) (stored replaced : ℕ) : HistoryCaps where
  maxFile := limits.maxFileBytes
  room := limits.maxTotalBytes - (stored - replaced)
  maxTotal := limits.maxTotalBytes

/-- An upload: the account's base, the resolved destination and the declared size. -/
structure Put where
  base : OsPath
  dest : OsPath
  declared : Option ℕ

/-- How far a request has come. `mutex` is the account mutex an upload has a handle of. -/
inductive Phase where
  /-- Any other request, with the path locks it holds. -/
  | other
  /-- `remove_file` or `remove_dir_all` under the path lock. -/
  | deleting (path : OsPath)
  /-- Path lock taken. -/
  | locked (put : Put)
  /-- Waiting for the account's mutex. -/
  | waiting (put : Put) (mutex : ℕ)
  /-- Past the guard. -/
  | entered (put : Put) (mutex : ℕ)
  /-- The size of the file to be replaced is known. -/
  | looked (put : Put) (mutex replaced : ℕ)
  /-- `history_bytes`: the places still to be visited and the bytes counted. -/
  | walking (put : Put) (mutex replaced : ℕ) (pending : List OsPath) (stored : ℕ)
  /-- Staging the body. -/
  | writing (put : Put) (mutex : ℕ) (caps : HistoryCaps) (written : ℕ)
  /-- Ended, both guards still to be dropped. -/
  | leaving (put : Put) (mutex : ℕ)
  /-- The path lock still to be dropped. -/
  | unlocking

/-- The upload a request makes. -/
def Phase.upload : Phase → Option Put
  | .locked put | .waiting put _ | .entered put _ | .looked put _ _ | .walking put _ _ _ _
  | .writing put _ _ _ | .leaving put _ => some put
  | .other | .deleting _ | .unlocking => none

/-- The upload of a request and the account mutex it has a handle of. -/
def Phase.handle : Phase → Option (Put × ℕ)
  | .waiting put mutex | .entered put mutex | .looked put mutex _
  | .walking put mutex _ _ _ | .writing put mutex _ _ | .leaving put mutex =>
      some (put, mutex)
  | .other | .deleting _ | .locked _ | .unlocking => none

/-- The upload of a request that is past its account's guard, and the mutex it holds. -/
def Phase.inside : Phase → Option (Put × ℕ)
  | .entered put mutex | .looked put mutex _ | .walking put mutex _ _ _
  | .writing put mutex _ _ | .leaving put mutex => some (put, mutex)
  | .other | .deleting _ | .locked _ | .waiting _ _ | .unlocking => none

structure Histories where
  /-- The history trees of all accounts. Staging files are not in it. -/
  disk : OrderedMap OsPath Stored
  locks : KeyTable Key
  /-- `AccountWriteLocks`: the mutex of each account held or waited for. -/
  accounts : OrderedMap OsPath ℕ
  nextMutex : ℕ
  requests : OrderedMap ℕ Phase
  nextRequest : ℕ
  committed : List ℕ
  refused : List (ℕ × Rejection)

/-- What happens next: a request comes in, or the named request goes on. -/
inductive HistoryEvent where
  | lockOther (paths : List OsPath)
  | beginDelete (path : OsPath)
  | beginPut (caller : Caller) (dest : OsPath) (declared : Option ℕ)
  | makeHistory (caller : Caller)
  | makeFolder (path : OsPath)
  | removeEntry (id : ℕ) (path : OsPath)
  | clone (id : ℕ)
  | enter (id : ℕ)
  | look (id folderSize : ℕ)
  | measure (id : ℕ)
  | visit (id : ℕ)
  | stage (id : ℕ)
  | chunk (id size : ℕ)
  | fail (id : ℕ)
  | commit (id : ℕ) (unchanged : Bool)
  | leave (id : ℕ)
  | unlock (id : ℕ)

/-- The upload that takes the step. -/
def HistoryEvent.uploadStep : HistoryEvent → Option ℕ
  | .clone id | .enter id | .look id _ | .measure id | .visit id | .stage id | .chunk id _
  | .fail id | .commit id _ | .leave id | .unlock id => some id
  | .lockOther _ | .beginDelete _ | .beginPut _ _ _ | .makeHistory _ | .makeFolder _
  | .removeEntry _ _ => none

namespace Histories

variable (roots : Roots) (limits : HistoryLimits) (lower : String → String)
  (world : Histories)

def setPhase (id : ℕ) (phase : Phase) : Histories :=
  { world with requests := world.requests.insert id phase }

/-- What `read_dir` lists. -/
def children (path : OsPath) : List OsPath :=
  world.disk.keys.filter (fun other =>
    path.isPrefixOf other && other.length == path.length + 1)

/-- A request asks for its path locks and goes on if it gets them. -/
def tryLock (paths : List OsPath) (phase : Phase) : Histories :=
  let id := world.nextRequest
  let locks := tried lower world.locks id paths
  let counted := { world with locks, nextRequest := id + 1 }
  if (locks.guards.get? id).isSome then counted.setPhase id phase else counted

/-- Whether some other request has a handle of the mutex. -/
def shared (id mutex : ℕ) : Bool :=
  world.requests.entries.any (fun entry =>
    entry.1 != id && (entry.2.handle.map Prod.snd == some mutex))

/-- Whether some request holds the mutex. -/
def taken (mutex : ℕ) : Bool :=
  world.requests.entries.any (fun entry => entry.2.inside.map Prod.snd == some mutex)

/-- `AccountWriteLocks::lock`, up to the wait: the account's mutex, made when there is none. -/
def cloneMutex (id : ℕ) (put : Put) : Histories :=
  match world.accounts.get? put.base with
  | some mutex => world.setPhase id (.waiting put mutex)
  | none => {
      world.setPhase id (.waiting put world.nextMutex) with
      accounts := world.accounts.insert put.base world.nextMutex
      nextMutex := world.nextMutex + 1
    }

/-- `Drop for AccountWriteGuard`: the map forgets a mutex nobody else has a handle of. -/
def dropMutex (id : ℕ) (put : Put) : Histories :=
  let accounts := match world.accounts.get? put.base with
    | none => world.accounts
    | some mutex =>
        if world.shared id mutex then world.accounts else world.accounts.erase put.base
  { world.setPhase id .unlocking with accounts }

/-- An upload goes on under its caps, or is refused. -/
def held (id : ℕ) (put : Put) (mutex : ℕ) (caps : HistoryCaps) (size : ℕ)
    (next : Phase) : Histories :=
  match caps.check size with
  | none => world.setPhase id next
  | some rejection => {
      world.setPhase id (.leaving put mutex) with
      refused := (id, rejection) :: world.refused
    }

/-- The rename of the staged file over the destination; it fails where a folder stands or the
folder is gone. -/
def publish (id : ℕ) (put : Put) (mutex size : ℕ) (unchanged : Bool) : Histories :=
  let ended := world.setPhase id (.leaving put mutex)
  if unchanged then ended
  else if world.disk.get? put.dest.dropLast = some .folder
      ∧ world.disk.get? put.dest ≠ some .folder then
    {
      ended with
      disk := world.disk.insert put.dest (.file size)
      committed := id :: world.committed
    }
  else ended

def makeFolder (path : OsPath) : Histories :=
  if world.disk.get? path = none then
    { world with disk := world.disk.insert path .folder }
  else world

/-- One step of a request. -/
def happened : HistoryEvent → Histories
  | .lockOther paths => world.tryLock lower paths .other
  | .beginDelete path => world.tryLock lower [path] (.deleting path)
  | .beginPut caller dest declared =>
      match roots.userBase caller with
      | none => world
      | some base =>
          if inHistory base dest then
            world.tryLock lower [dest] (.locked { base, dest, declared })
          else world
  | .makeHistory caller =>
      match roots.userBase caller with
      | none => world
      | some base => world.makeFolder (historyRoot base)
  | .makeFolder path =>
      -- `MKCOL`, and the `create_dir_all` of a staging file's folder
      if world.disk.get? path.dropLast = some .folder then world.makeFolder path else world
  | .removeEntry id path =>
      match world.requests.get? id with
      | some (.deleting top) =>
          if top.isPrefixOf path && (world.children path).isEmpty then
            { world with disk := world.disk.erase path }
          else world
      | _ => world
  | .clone id =>
      match world.requests.get? id with
      | some (.locked put) => world.cloneMutex id put
      | _ => world
  | .enter id =>
      match world.requests.get? id with
      | some (.waiting put mutex) =>
          if world.taken mutex then world else world.setPhase id (.entered put mutex)
      | _ => world
  | .look id folderSize =>
      match world.requests.get? id with
      | some (.entered put mutex) =>
          let replaced := match world.disk.get? put.dest with
            | none => 0
            | some .folder => folderSize
            | some (.file size) => size
          world.setPhase id (.looked put mutex replaced)
      | _ => world
  | .measure id =>
      match world.requests.get? id with
      | some (.looked put mutex replaced) =>
          world.setPhase id
            (.walking put mutex replaced (world.children (historyRoot put.base)) 0)
      | _ => world
  | .visit id =>
      match world.requests.get? id with
      | some (.walking put mutex replaced (path :: pending) stored) =>
          match world.disk.get? path with
          | none => world.setPhase id (.walking put mutex replaced pending stored)
          | some .folder =>
              world.setPhase id
                (.walking put mutex replaced (world.children path ++ pending) stored)
          | some (.file size) =>
              world.setPhase id (.walking put mutex replaced pending (stored + size))
      | _ => world
  | .stage id =>
      match world.requests.get? id with
      | some (.walking put mutex replaced [] stored) =>
          let caps := historyCaps limits stored replaced
          world.held id put mutex caps (put.declared.getD 0) (.writing put mutex caps 0)
      | _ => world
  | .chunk id size =>
      match world.requests.get? id with
      | some (.writing put mutex caps written) =>
          world.held id put mutex caps (written + size)
            (.writing put mutex caps (written + size))
      | _ => world
  | .fail id =>
      match world.requests.get? id with
      | some (.waiting _ _) => world.setPhase id .unlocking
      | some phase =>
          match phase.inside with
          | some (put, mutex) => world.setPhase id (.leaving put mutex)
          | none => world
      | none => world
  | .commit id unchanged =>
      match world.requests.get? id with
      | some (.writing put mutex _ written) => world.publish id put mutex written unchanged
      | _ => world
  | .leave id =>
      match world.requests.get? id with
      | some (.leaving put _) => world.dropMutex id put
      | _ => world
  | .unlock id =>
      match world.requests.get? id with
      | some .other | some (.deleting _) | some (.locked _) | some .unlocking =>
          { world with
            locks := dropped world.locks id
            requests := world.requests.erase id }
      | _ => world

end Histories

end MokuroBunko.Dav
