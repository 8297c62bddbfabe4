import Mathlib.Data.Set.Lattice
import MokuroBunko.Control.Pause
import MokuroBunko.Lib.Runs
import MokuroBunko.Lib.Table

/-! The claims that the activity view holds, learned from the ops and events of the processor's hub,
beside the claims of the hub's sessions.
-/

namespace MokuroBunko.Processor.Claims

open MokuroBunko.Control (PauseMode)
open MokuroBunko.Lib

-- Ops and events

structure VolumeOp where
  sid : String
  claim : String

inductive Op where
  | openSession (sid : String)
  | volume (op : VolumeOp)
  | cancel (sid claim bid : Option String)
  | closeSession (sid : String)
  | bench (bid : String)
  | heartbeat

/-- The events that end claims. Others change none in the view. -/
inductive Event where
  | volumeDone (id : String)
  | volumeFailed (id : String)
  | volumeReturned (id : String)
  | released (claims : List String)
  | exit (sid : String)

def validId (id : String) : Bool :=
  id ≠ "" ∧ id.utf8ByteSize ≤ 64
    ∧ id.toList.all (fun char => char.isAlphanum || char = '_' || char = '-')

/-- The ids of an op that has to be dropped if one of them is not an id. -/
def Op.ids : Op → List String
  | .openSession sid => [sid]
  | .volume op => [op.sid, op.claim]
  | .cancel sid claim bid => sid.toList ++ claim.toList ++ bid.toList
  | .closeSession sid => [sid]
  | .bench bid => [bid]
  | .heartbeat => []

/-- The claims of the view, each with its session. -/
abbrev Activity := List (String × String)

def Activity.op (activity : Activity) : Op → Activity
  | .volume op => activity ++ [(op.claim, op.sid)]
  | _ => activity

def Activity.event (activity : Activity) : Event → Activity
  | .volumeDone id | .volumeFailed id | .volumeReturned id => activity.filter (·.1 ≠ id)
  | .released claims => activity.filter (·.1 ∉ claims)
  | .exit sid => activity.filter (·.2 ≠ sid)

-- Sessions

def maxOutstandingVolumes : ℕ := 2

structure Session where
  sid : String
  quiet : Bool
  stopping : Bool
  /-- Whether the intake has the runner's queue, and the feeder's. -/
  runner : Bool
  volumes : Bool
  outstanding : List String
  seen : List String
  started : List String
  released : List String
  /-- Volumes past the runner, and whether a terminal event is to come for them. -/
  finishing : List (String × Bool)
  outstanding_seen : ∀ claim ∈ outstanding, claim ∈ seen
  released_seen : ∀ claim ∈ released, claim ∈ seen

namespace Session

variable (session : Session)

def opened (sid : String) : Session where
  sid := sid
  quiet := false
  stopping := false
  runner := true
  volumes := true
  outstanding := []
  seen := []
  started := []
  released := []
  finishing := []
  outstanding_seen := by simp
  released_seen := by simp

def closeIntake : Session := { session with runner := false, volumes := false }

def close : Session := { session with stopping := true }.closeIntake

def abandon : Session := { session with quiet := true, stopping := true }.closeIntake

def settle (claim : String) : Session :=
  { session with
    outstanding := session.outstanding.filter (· ≠ claim)
    started := session.started.filter (· ≠ claim)
    released := session.released.filter (· ≠ claim)
    outstanding_seen := fun other isIn =>
      session.outstanding_seen other (List.mem_filter.mp isIn).1
    released_seen := fun other isIn => session.released_seen other (List.mem_filter.mp isIn).1 }

def remember (claim : String) : Session :=
  { session with
    seen := claim :: session.seen
    outstanding_seen := fun other isIn =>
      List.mem_cons_of_mem _ (session.outstanding_seen other isIn)
    released_seen := fun other isIn => List.mem_cons_of_mem _ (session.released_seen other isIn) }

def takeUp (claim : String) : Session :=
  { session.remember claim with
    outstanding := claim :: session.outstanding
    outstanding_seen := by
      rw [List.forall_mem_cons]
      exact ⟨List.mem_cons_self, (session.remember claim).outstanding_seen⟩ }

/-- The claims that a pause gives back: all, or those that no worker has started. -/
def toRelease (all : Bool) : List String :=
  session.outstanding.filter fun claim =>
    (all || claim ∉ session.started) && claim ∉ session.released

def release (all : Bool) : Session :=
  { session with
    released := session.released ++ session.toRelease all
    released_seen := by
      rw [List.forall_mem_append]
      refine ⟨session.released_seen, ?_⟩
      exact fun claim isIn => session.outstanding_seen claim (List.mem_filter.mp isIn).1 }

/-- The worker takes the claim, unless it was given back. -/
def start (claim : String) : Session :=
  if claim ∈ session.released then session else { session with started := claim :: session.started }

def finish (claim : String) (speaks : Bool) : Session :=
  { session.settle claim with finishing := (claim, speaks) :: session.finishing }

def finished (claim : String) (speaks : Bool) : Session :=
  { session with finishing := session.finishing.erase (claim, speaks) }

end Session

-- The hub

structure Hub where
  sessions : Table Session.sid
  leaving : Bool
  paused : Option PauseMode
  /-- Whether the library is another machine's. -/
  remote : Bool
  activity : Activity

namespace Hub

variable (hub : Hub)

def start (remote : Bool) : Hub := ⟨.empty, false, none, remote, []⟩

/-- `Hub::say`. -/
def tell (event : Event) : Hub :=
  if hub.leaving then hub else { hub with activity := hub.activity.event event }

def talking (session : Session) : Bool := ¬ hub.leaving ∧ ¬ session.quiet

/-- `Session::say`, but for `exit`. -/
def say (session : Session) (event : Event) : Hub :=
  if hub.talking session then { hub with activity := hub.activity.event event } else hub

/-- The sessions with one of them changed. -/
def change (sid : String) (set : Session → Session)
    (keeps : ∀ session, (set session).sid = session.sid := by intro _; rfl)
    : Hub :=
  { hub with sessions := (hub.sessions.update (·.sid = sid) set keeps).1 }

def onSession (sid : String) (act : Session → Hub) : Hub :=
  match hub.sessions.find? sid with
  | none => hub
  | some session => act session

def settle (sid claim : String) : Hub := hub.change sid (·.settle claim)

def openSession (sid : String) : Hub :=
  if hub.leaving then hub
  else
    match hub.sessions.insert (.opened sid) with
    | none => hub
    | some sessions => { hub with sessions := sessions }

/-- `Session::offer`. -/
def offer (session : Session) (claim : String) : Hub :=
  if ¬ session.volumes ∨ session.stopping then hub
  else if claim ∈ session.seen then hub
  else if maxOutstandingVolumes ≤ session.outstanding.length then
    (hub.change session.sid (·.remember claim)).say session (.volumeReturned claim)
  else hub.change session.sid (·.takeUp claim)

/-- What is said instead of an op while paused or installing. -/
def refusal (installing : Bool) (op : Op) : Option Event :=
  if hub.paused.isSome ∨ installing then
    match op with
    | .volume op => some (.released [op.claim])
    | .openSession sid => some (.exit sid)
    | .bench bid => some (.exit bid)
    | _ => none
  else none

/-- The op once the view has heard of it. -/
def dispatch (op : Op) : Hub :=
  match op with
  | .openSession sid => hub.openSession sid
  | .volume op => hub.onSession op.sid fun session => hub.offer session op.claim
  | .cancel (some sid) _ none => hub.change sid Session.abandon
  | .closeSession sid => hub.change sid Session.close
  | _ => hub

/-- `Hub::handle`. -/
def handle (installing : Bool) (op : Op) : Hub :=
  if ¬ op.ids.all validId then hub
  else
    match hub.refusal installing op with
    | some event => hub.tell event
    | none => { hub with activity := hub.activity.op op }.dispatch op

/-- Every session changed. -/
def changeAll (set : Session → Session)
    (keeps : ∀ session, (set session).sid = session.sid := by intro _; rfl)
    : Hub :=
  { hub with sessions := (hub.sessions.update (fun _ => true) set keeps).1 }

/-- The claims given back are said, and with `now` every session is abandoned. -/
def releaseAll (all : Bool) : Hub :=
  let released := hub.sessions.rows.flatMap (·.toRelease all)
  let said := (hub.changeAll (·.release all)).tell (.released released)
  if all then said.changeAll Session.abandon else said

def applyPause (mode : Option PauseMode) : Hub :=
  let next := { hub with paused := mode }
  match mode with
  | none => next
  | some mode =>
      if hub.paused = some .now ∨ hub.paused = some .afterVolume ∧ mode ≠ .now then next
      else next.releaseAll (mode = .now)

/-- `Session::give_back`. -/
def giveBack (session : Session) (claim : String) : Hub :=
  let settled := hub.settle session.sid claim
  if claim ∈ session.released then settled
  else if session.stopping then settled
  else settled.say session (.volumeReturned claim)

/-- `Session::hand_over`; the runner may not take the job. -/
def handOver (session : Session) (claim : String) (taken : Bool) : Hub :=
  if claim ∉ session.released ∧ session.runner ∧ ¬ session.stopping ∧ taken then hub
  else hub.settle session.sid claim

/-- How a download ended. Without a workspace what was delivered is given back. -/
inductive Fetched where
  | delivered (workspace taken : Bool)
  | cancelled
  | lostLibrary
  | fault

def lostLibrary : Hub := if hub.remote then { hub with leaving := true } else hub

def fetched (session : Session) (claim : String) : Fetched → Hub
  | .delivered true taken => hub.handOver session claim taken
  | .delivered false _ => hub.giveBack session claim
  | .cancelled => hub.settle session.sid claim
  | .lostLibrary => (hub.settle session.sid claim).lostLibrary
  | .fault => hub.giveBack session claim

/-- Whether a terminal event is to come: a worker started the volume, and the session talks. -/
def speaks (session : Session) (claim : String) : Bool :=
  claim ∈ session.started ∧ hub.talking session

/-- The terminal event goes, unless the session was silenced meanwhile. -/
def finished (session : Session) (claim : String) (done : Bool) : Hub :=
  if (claim, true) ∈ session.finishing then
    (hub.change session.sid (·.finished claim true)).say session
      (if done then .volumeDone claim else .volumeFailed claim)
  else hub.change session.sid (·.finished claim false)

def leave : Hub := { hub.changeAll Session.abandon with leaving := true, activity := [] }

end Hub

-- Runs

/-- What the hub and its sessions' tasks do next. -/
inductive Move where
  | op (installing : Bool) (op : Op)
  | pause (mode : Option PauseMode)
  | feed (sid claim : String)
  | fetched (sid claim : String) (outcome : Hub.Fetched)
  | start (sid claim : String)
  | finish (sid claim : String)
  | finished (sid claim : String) (done : Bool)
  /-- The models did not load, or the pipeline failed. -/
  | stop (sid : String)
  /-- A benchmark could not read from the library. -/
  | loseLibrary
  | endSession (sid : String)
  | exit (sid : String)
  | leave

def step (hub : Hub) : Move → Hub
  | .op installing op => hub.handle installing op
  | .pause mode => hub.applyPause mode
  | .feed sid claim =>
      hub.onSession sid fun session =>
        if session.stopping ∨ claim ∈ session.released then hub.settle sid claim else hub
  | .fetched sid claim outcome =>
      hub.onSession sid fun session => hub.fetched session claim outcome
  | .start sid claim => hub.change sid (·.start claim) (by
      intro session
      rw [Session.start]
      split <;> rfl)
  | .finish sid claim =>
      hub.onSession sid fun session => hub.change sid (·.finish claim (hub.speaks session claim))
  | .finished sid claim done => hub.onSession sid fun session => hub.finished session claim done
  | .stop sid => hub.change sid Session.close
  | .loseLibrary => hub.lostLibrary
  | .endSession sid => { hub with sessions := (hub.sessions.delete (·.sid = sid)).1 }
  | .exit sid => hub.tell (.exit sid)
  | .leave => hub.leave

/-- The view forgets what is over: with no session it holds no claim, and each claim that it holds
some session counts as outstanding or is finishing.
-/
structure Forgets (hub : Hub) : Prop where
  none_open : hub.sessions.rows = [] → hub.activity = []
  held : ∀ entry ∈ hub.activity, ∃ session ∈ hub.sessions.rows,
    entry.1 ∈ session.outstanding ∨ ∃ speaks, (entry.1, speaks) ∈ session.finishing

/-- The session takes the claim up, or says that it gives it back. -/
def Accepts (hub : Hub) (session : Session) (claim : String) : Prop :=
  session.volumes ∧ ¬ session.stopping ∧ claim ∉ session.seen
    ∧ (maxOutstandingVolumes ≤ session.outstanding.length → hub.talking session)

/-- The end of the download settles no claim without a word. -/
def EndsSpoken (hub : Hub) (session : Session) : Hub.Fetched → Prop
  | .delivered true taken => session.runner ∧ ¬ session.stopping ∧ taken
  | .delivered false _ => ¬ session.stopping ∧ hub.talking session
  | .fault => ¬ session.stopping ∧ hub.talking session
  | .cancelled => False
  | .lostLibrary => False

/-- A volume comes for a session that takes it, and a claim that no pause gave back is settled with
a word to the library, before its session ends.
-/
def Careful (hub : Hub) : Move → Prop
  | .op installing (.volume op) =>
      hub.refusal installing (.volume op) = none
        → ∃ session, hub.sessions.find? op.sid = some session ∧ Accepts hub session op.claim
  | .pause mode => mode.isSome → ¬ hub.leaving
  | .feed sid claim =>
      ∀ session, hub.sessions.find? sid = some session
        → session.stopping → claim ∈ session.released
  | .fetched sid claim outcome =>
      ∀ session, hub.sessions.find? sid = some session
        → claim ∈ session.released ∨ EndsSpoken hub session outcome
  | .finish sid claim =>
      ∀ session, hub.sessions.find? sid = some session
        → claim ∈ session.released ∨ hub.speaks session claim
  | .finished sid claim _ =>
      ∀ session, hub.sessions.find? sid = some session
        → (claim, true) ∈ session.finishing → hub.talking session
  | .endSession sid =>
      ∀ session, hub.sessions.find? sid = some session
        → (∀ claim ∈ session.outstanding, claim ∈ session.released)
          ∧ ∀ entry ∈ session.finishing, entry.2 = false
  | _ => True

-- Claims accounted for

/-- The session has yet to say what becomes of the claim. -/
def Session.Owes (session : Session) (claim : String) : Prop :=
  claim ∈ session.outstanding ∧ claim ∉ session.released ∨ (claim, true) ∈ session.finishing

/-- Some session owes a word about each claim of the view. -/
def Accounted (hub : Hub) : Prop :=
  ∀ entry ∈ hub.activity, ∃ session ∈ hub.sessions.rows, session.Owes entry.1

theorem Accounted.forgets {hub : Hub} (accounted : Accounted hub) : Forgets hub := by
  constructor
  · intro empty
    rw [List.eq_nil_iff_forall_not_mem]
    intro entry isIn
    obtain ⟨session, isRow, _⟩ := accounted entry isIn
    rw [empty] at isRow
    exact absurd isRow List.not_mem_nil
  · intro entry isIn
    obtain ⟨session, isRow, owes⟩ := accounted entry isIn
    refine ⟨session, isRow, ?_⟩
    rcases owes with ⟨outstanding, _⟩ | finishing
    · exact .inl outstanding
    · exact .inr ⟨true, finishing⟩

variable {hub : Hub} {sid claim : String}

theorem Accounted.fewer {next : Hub} (accounted : Accounted hub)
    (same : next.sessions = hub.sessions) (fewer : ∀ entry ∈ next.activity, entry ∈ hub.activity)
    : Accounted next := by
  intro entry isIn
  rw [same]
  exact accounted entry (fewer entry isIn)

theorem Accounted.update {next : Hub} (accounted : Accounted hub) {which : Session → Bool}
    {set : Session → Session}
    (same : next.sessions.rows
      = hub.sessions.rows.map (fun session => if which session then set session else session))
    (fewer : ∀ entry ∈ next.activity, entry ∈ hub.activity)
    (owes : ∀ session ∈ hub.sessions.rows, which session → ∀ entry ∈ next.activity,
      session.Owes entry.1 → (set session).Owes entry.1)
    : Accounted next := by
  intro entry isIn
  obtain ⟨session, isRow, owed⟩ := accounted entry (fewer entry isIn)
  rw [same]
  refine ⟨if which session then set session else session, List.mem_map_of_mem isRow, ?_⟩
  split
  · rename_i chosen
    exact owes session isRow chosen entry isIn owed
  · exact owed

theorem mem_event {activity : Activity} {event : Event} {entry : String × String}
    (isIn : entry ∈ activity.event event)
    : entry ∈ activity := by
  cases event <;> exact (List.mem_filter.mp isIn).1

theorem Accounted.tell (accounted : Accounted hub) (event : Event)
    : Accounted (hub.tell event) := by
  rw [Hub.tell]
  split
  · exact accounted
  · exact accounted.fewer rfl fun _ => mem_event

theorem Accounted.say (accounted : Accounted hub) (session : Session) (event : Event)
    : Accounted (hub.say session event) := by
  rw [Hub.say]
  split
  · exact accounted.fewer rfl fun _ => mem_event
  · exact accounted

theorem Accounted.of_said {next : Hub} {session : Session} {event : Event}
    (same : next.leaving = hub.leaving) (talks : hub.talking session)
    (said : Accounted { next with activity := next.activity.event event })
    : Accounted (next.say session event) := by
  rw [Hub.talking, ← same] at talks
  rw [Hub.say, Hub.talking, if_pos talks]
  exact said

theorem find_row {session : Session} (isRow : session ∈ hub.sessions.rows)
    (same : session.sid = sid)
    : hub.sessions.find? sid = some session :=
  Table.find?_eq_some_iff.mpr ⟨isRow, same⟩

theorem find_same {session other : Session} (found : hub.sessions.find? sid = some session)
    (isRow : other ∈ hub.sessions.rows) (same : other.sid = sid)
    : other = session := by
  rw [find_row isRow same] at found
  exact Option.some.inj found

theorem find_sid {session : Session} (found : hub.sessions.find? sid = some session)
    : session.sid = sid :=
  (Table.find?_eq_some_iff.mp found).2

theorem Session.Owes.settle {session : Session} {other : String} (owes : session.Owes other)
    (apart : other ≠ claim ∨ claim ∈ session.released)
    : (session.settle claim).Owes other := by
  rcases owes with ⟨outstanding, kept⟩ | finishing
  · have different : other ≠ claim := by
      rcases apart with apart | released
      · exact apart
      · rintro rfl
        exact kept released
    exact .inl ⟨List.mem_filter.mpr ⟨outstanding, decide_eq_true different⟩,
      fun isIn => kept (List.mem_filter.mp isIn).1⟩
  · exact .inr finishing

theorem Accounted.settle {session : Session} (accounted : Accounted hub)
    (found : hub.sessions.find? sid = some session) (released : claim ∈ session.released)
    : Accounted (hub.settle sid claim) := by
  refine accounted.update rfl (fun _ => id) ?_
  intro other isRow chosen entry _ owes
  obtain rfl := find_same found isRow (of_decide_eq_true chosen)
  exact owes.settle (.inr released)

theorem Accounted.settle_said {session : Session} {event : Event} (accounted : Accounted hub)
    (talks : hub.talking session)
    (ends : ∀ entry ∈ hub.activity.event event, entry.1 ≠ claim)
    : Accounted ((hub.settle sid claim).say session event) := by
  refine @Accounted.of_said hub _ _ _ rfl talks ?_
  refine accounted.update rfl (fun _ => mem_event) ?_
  intro other isRow chosen entry isIn owes
  exact owes.settle (.inl (ends entry isIn))

theorem returned_ends (activity : Activity) (claim : String)
    : ∀ entry ∈ activity.event (.volumeReturned claim), entry.1 ≠ claim :=
  fun _ isIn => of_decide_eq_true (List.mem_filter.mp isIn).2

-- Moves

theorem Accounted.openSession (accounted : Accounted hub) (sid : String)
    : Accounted (hub.openSession sid) := by
  rw [Hub.openSession]
  split
  · exact accounted
  split
  · exact accounted
  · rename_i sessions inserted
    intro entry isIn
    obtain ⟨session, isRow, owes⟩ := accounted entry isIn
    refine ⟨session, ?_, owes⟩
    rw [(Table.insert_eq_some inserted).2]
    exact List.mem_append_left _ isRow

theorem Accounted.offer {session : Session} (accounted : Accounted hub)
    (found : hub.sessions.find? sid = some session) (accepts : Accepts hub session claim)
    : Accounted ({ hub with activity := hub.activity.op (.volume ⟨sid, claim⟩) }.offer session
        claim) := by
  obtain ⟨volumes, stopping, fresh, full⟩ := accepts
  have isRow := (Table.find?_eq_some_iff.mp found).1
  have taken : ¬ (¬ session.volumes ∨ session.stopping) := by simp [volumes, stopping]
  rw [Hub.offer, if_neg taken, if_neg fresh]
  split
  · rename_i many
    refine @Accounted.of_said hub _ _ _ rfl (full many) ?_
    refine accounted.update rfl ?_ fun other _ _ entry _ owes => owes
    intro entry isIn
    obtain ⟨held, other⟩ := List.mem_filter.mp isIn
    obtain before | new := List.mem_append.mp held
    · exact before
    · rw [List.mem_singleton.mp new] at other
      exact absurd rfl (of_decide_eq_true other)
  · intro entry isIn
    obtain before | new := List.mem_append.mp isIn
    · have kept : Accounted (hub.change session.sid (·.takeUp claim)) := by
        refine accounted.update rfl (fun _ => id) ?_
        rintro other _ _ entry _ (⟨outstanding, kept⟩ | finishing)
        · exact .inl ⟨List.mem_cons_of_mem _ outstanding, kept⟩
        · exact .inr finishing
      exact kept entry before
    · rw [List.mem_singleton.mp new]
      refine ⟨session.takeUp claim, ?_, .inl ⟨List.mem_cons_self, ?_⟩⟩
      · exact List.mem_map.mpr ⟨session, isRow, if_pos (decide_eq_true rfl)⟩
      · exact fun released => fresh (session.released_seen claim released)

theorem Accounted.giveBack {session : Session} (accounted : Accounted hub)
    (found : hub.sessions.find? sid = some session)
    (careful : claim ∈ session.released ∨ ¬ session.stopping ∧ hub.talking session)
    : Accounted (hub.giveBack session claim) := by
  rw [Hub.giveBack, find_sid found]
  by_cases released : claim ∈ session.released
  · rw [if_pos released]
    exact accounted.settle found released
  · obtain ⟨stopping, talks⟩ := careful.resolve_left released
    rw [if_neg released, if_neg stopping]
    exact accounted.settle_said talks (returned_ends _ _)

theorem Accounted.fetched {session : Session} {outcome : Hub.Fetched} (accounted : Accounted hub)
    (found : hub.sessions.find? sid = some session)
    (careful : claim ∈ session.released ∨ EndsSpoken hub session outcome)
    : Accounted (hub.fetched session claim outcome) := by
  have sameSid := find_sid found
  cases outcome with
  | delivered workspace taken =>
      cases workspace with
      | true =>
          simp only [Hub.fetched, Hub.handOver, sameSid]
          split
          · exact accounted
          · rename_i refused
            apply accounted.settle found
            by_contra kept
            obtain ⟨runner, stopping, took⟩ := careful.resolve_left kept
            exact refused ⟨kept, runner, stopping, took⟩
      | false => exact accounted.giveBack found careful
  | cancelled =>
      rw [Hub.fetched, sameSid]
      exact accounted.settle found (careful.resolve_right id)
  | lostLibrary =>
      have settled := accounted.settle found (careful.resolve_right id)
      rw [Hub.fetched, sameSid, Hub.lostLibrary]
      split
      · exact settled.fewer rfl fun _ => id
      · exact settled
  | fault => exact accounted.giveBack found careful

theorem Accounted.finish {session : Session} (accounted : Accounted hub)
    (found : hub.sessions.find? sid = some session)
    (careful : claim ∈ session.released ∨ hub.speaks session claim)
    : Accounted (hub.change sid (·.finish claim (hub.speaks session claim))) := by
  refine accounted.update rfl (fun _ => id) ?_
  intro other isRow chosen entry _ owes
  obtain rfl := find_same found isRow (of_decide_eq_true chosen)
  by_cases same : entry.1 = claim ∧ claim ∉ other.released
  · rw [same.1, careful.resolve_left same.2]
    exact .inr List.mem_cons_self
  · have apart : entry.1 ≠ claim ∨ claim ∈ other.released := by
      by_contra both
      rw [not_or, not_not] at both
      exact same both
    rcases owes.settle apart with stays | finishing
    · exact .inl stays
    · exact .inr (List.mem_cons_of_mem _ finishing)

theorem Accounted.finished {session : Session} (accounted : Accounted hub)
    (found : hub.sessions.find? sid = some session)
    (careful : (claim, true) ∈ session.finishing → hub.talking session) (done : Bool)
    : Accounted (hub.finished session claim done) := by
  have kept {other : Session} {entry : String × String} {speaks : Bool}
      (owes : other.Owes entry.1) (apart : (entry.1, true) ≠ (claim, speaks))
      : (other.finished claim speaks).Owes entry.1 := by
    rcases owes with stays | finishing
    · exact .inl stays
    · exact .inr ((List.mem_erase_of_ne apart).mpr finishing)
  rw [Hub.finished, find_sid found]
  split
  · rename_i toSay
    refine @Accounted.of_said hub _ _ _ rfl (careful toSay) ?_
    have ends : ∀ entry ∈ hub.activity.event
        (if done then .volumeDone claim else .volumeFailed claim), entry.1 ≠ claim := by
      intro entry isIn
      cases done <;> exact of_decide_eq_true (List.mem_filter.mp isIn).2
    refine accounted.update rfl (fun _ => mem_event) ?_
    intro other isRow chosen entry isIn owes
    exact kept owes fun same => ends entry isIn (congrArg Prod.fst same)
  · refine accounted.update rfl (fun _ => id) ?_
    intro other isRow chosen entry isIn owes
    exact kept owes fun same => absurd (congrArg Prod.snd same) (by simp)

theorem Accounted.endSession (accounted : Accounted hub) (careful : Careful hub (.endSession sid))
    : Accounted (step hub (.endSession sid)) := by
  intro entry isIn
  obtain ⟨session, isRow, owes⟩ := accounted entry isIn
  refine ⟨session, List.mem_filter.mpr ⟨isRow, ?_⟩, owes⟩
  rw [decide_eq_true_eq, decide_eq_true_eq]
  intro same
  obtain ⟨released, silent⟩ := careful session (find_row isRow same)
  rcases owes with ⟨outstanding, kept⟩ | finishing
  · exact kept (released entry.1 outstanding)
  · exact absurd (silent _ finishing) (by simp)

theorem Accounted.releaseAll (accounted : Accounted hub) (stays : ¬ hub.leaving) (all : Bool)
    : Accounted (hub.releaseAll all) := by
  have said : Accounted ((hub.changeAll (·.release all)).tell
      (.released (hub.sessions.rows.flatMap (·.toRelease all)))) := by
    rw [Hub.tell]
    split
    · rename_i leaving
      exact absurd leaving stays
    refine accounted.update rfl (fun _ isIn => (List.mem_filter.mp isIn).1) ?_
    intro session isRow _ entry isIn owes
    have kept := of_decide_eq_true (List.mem_filter.mp isIn).2
    rcases owes with ⟨outstanding, notReleased⟩ | finishing
    · refine .inl ⟨outstanding, ?_⟩
      intro released
      obtain before | now := List.mem_append.mp released
      · exact notReleased before
      · exact kept (List.mem_flatMap.mpr ⟨session, isRow, now⟩)
    · exact .inr finishing
  cases all with
  | false => exact said
  | true =>
      have quiet : Accounted (((hub.changeAll (·.release true)).tell
          (.released (hub.sessions.rows.flatMap (·.toRelease true)))).changeAll Session.abandon) :=
        said.update rfl (fun _ => id) fun _ _ _ _ _ owes => owes
      exact quiet

theorem Accounted.applyPause {mode : Option PauseMode} (accounted : Accounted hub)
    (careful : mode.isSome → ¬ hub.leaving)
    : Accounted (hub.applyPause mode) := by
  have next : Accounted { hub with paused := mode } := accounted.fewer rfl fun _ => id
  cases mode with
  | none => exact next
  | some mode =>
      have applied : hub.applyPause (some mode)
          = if hub.paused = some .now ∨ hub.paused = some .afterVolume ∧ mode ≠ PauseMode.now then
              { hub with paused := some mode }
            else { hub with paused := some mode }.releaseAll (mode = PauseMode.now) :=
        rfl
      rw [applied]
      split
      · exact next
      · exact next.releaseAll (careful rfl) _

theorem Accounted.quieten {set : Session → Session}
    {keeps : ∀ session, (set session).sid = session.sid} (accounted : Accounted hub)
    (same : ∀ session : Session, (set session).outstanding = session.outstanding
      ∧ (set session).released = session.released
      ∧ (set session).finishing = session.finishing)
    : Accounted (hub.change sid set keeps) := by
  refine accounted.update rfl (fun _ => id) ?_
  intro session _ _ entry _ owes
  obtain ⟨outstanding, released, finishing⟩ := same session
  rw [Session.Owes, outstanding, released, finishing]
  exact owes

theorem Accounted.handle {installing : Bool} {op : Op} (accounted : Accounted hub)
    (careful : Careful hub (.op installing op))
    : Accounted (hub.handle installing op) := by
  rw [Hub.handle]
  split
  · exact accounted
  split
  · exact accounted.tell _
  rename_i accepted
  cases op with
  | openSession sid =>
      exact Accounted.openSession (accounted.fewer rfl fun _ => id) sid
  | volume op =>
      obtain ⟨session, found, accepts⟩ := careful accepted
      have offered := accounted.offer found accepts
      have dispatched : { hub with activity := hub.activity.op (.volume op) }.dispatch (.volume op)
          = { hub with activity := hub.activity.op (.volume op) }.offer session op.claim := by
        have found : { hub with activity := hub.activity.op (.volume op) }.sessions.find? op.sid
            = some session := found
        rw [Hub.dispatch, Hub.onSession, found]
      rw [dispatched]
      exact offered
  | cancel sid claim bid =>
      cases sid with
      | none => exact accounted
      | some sid =>
          cases bid with
          | none => exact accounted.quieten fun _ => ⟨rfl, rfl, rfl⟩
          | some bid => exact accounted
  | closeSession sid => exact accounted.quieten fun _ => ⟨rfl, rfl, rfl⟩
  | bench bid => exact accounted
  | heartbeat => exact accounted

theorem Accounted.onSession {act : Session → Hub} (accounted : Accounted hub)
    (acts : ∀ session, hub.sessions.find? sid = some session → Accounted (act session))
    : Accounted (hub.onSession sid act) := by
  rw [Hub.onSession]
  split
  · exact accounted
  · rename_i session found
    exact acts session found

theorem Accounted.step {move : Move} (accounted : Accounted hub) (careful : Careful hub move)
    : Accounted (step hub move) := by
  cases move with
  | op installing op => exact accounted.handle careful
  | pause mode => exact accounted.applyPause careful
  | feed sid claim =>
      apply accounted.onSession
      intro session found
      split
      · rename_i ends
        apply accounted.settle found
        rcases ends with stopping | released
        · exact careful session found stopping
        · exact released
      · exact accounted
  | fetched sid claim outcome =>
      exact accounted.onSession fun session found => accounted.fetched found (careful session found)
  | start sid claim =>
      apply accounted.quieten
      intro session
      rw [Session.start]
      split <;> exact ⟨rfl, rfl, rfl⟩
  | finish sid claim =>
      exact accounted.onSession fun session found => accounted.finish found (careful session found)
  | finished sid claim done =>
      exact accounted.onSession fun session found =>
        accounted.finished found (careful session found) done
  | stop sid => exact accounted.quieten fun _ => ⟨rfl, rfl, rfl⟩
  | loseLibrary =>
      rw [Claims.step, Hub.lostLibrary]
      split
      · exact accounted.fewer rfl fun _ => id
      · exact accounted
  | endSession sid => exact accounted.endSession careful
  | exit sid => exact accounted.tell _
  | leave =>
      intro entry isIn
      exact absurd isIn List.not_mem_nil

-- Every run

/-- In a run whose moves are careful the view forgets what is over, at every moment of it. -/
theorem forgets_of_careful (remote : Bool) (run later : List Move)
    (careful : Runs.Orderly step Careful (Hub.start remote) (run ++ later))
    : Forgets (run.foldl step (Hub.start remote)) := by
  have started : Accounted (Hub.start remote) := fun entry isIn => absurd isIn List.not_mem_nil
  have accounted := (Runs.orderly_append.mp careful).1.invariant
    (fun _ _ accounted careful => accounted.step careful) started
  exact accounted.forgets

def pausedVolume : List Move :=
  [.op false (.openSession "s"), .op false (.volume ⟨"s", "v1"⟩), .pause (some .now)]

theorem forgets_of_careful_paused
    : Forgets ((pausedVolume.take 2).foldl step (Hub.start false))
      ∧ Forgets (pausedVolume.foldl step (Hub.start false)) := by
  have careful : Runs.Orderly step Careful (Hub.start false) pausedVolume := by
    refine ⟨trivial, fun _ => ⟨_, rfl, rfl, by decide, by decide, ?_⟩, fun _ => by decide, trivial⟩
    exact fun many => absurd many (by decide)
  exact ⟨forgets_of_careful false (pausedVolume.take 2) (pausedVolume.drop 2) careful,
    forgets_of_careful false pausedVolume [] careful⟩

/-- A volume for a session that is not open stays in the view. -/
theorem not_forgets_unknown
    : ¬ ∀ run : List Move, Forgets (run.foldl step (Hub.start false)) := by
  intro forgets
  have empty := (forgets [.op false (.volume ⟨"s", "v1"⟩)]).none_open
  exact absurd (empty rfl) (by decide)

end MokuroBunko.Processor.Claims
