import Mathlib.Data.List.Nodup
import Mathlib.Logic.Function.Basic
import Mathlib.Tactic.Common

/-! A ledger of leased items. Workers have slots, a session runs on a slot of its worker and
holds items by ticket, and a task may settle an item after its session gave it up. The
invariant says who holds what; every operation keeps it.
-/

namespace MokuroBunko.Lib

/-- A slot of a worker, and the session that runs on it. -/
structure Slot (ω : Type*) where
  id : ℕ
  worker : ω
  session : Option ℕ

/-- A session: its worker, its slot, and the items it holds by ticket. -/
structure Holder (ω ι : Type*) where
  worker : ω
  slot : ℕ
  order : List ℕ
  held : ℕ → Option ι

/-- Whether a session holds an item. -/
def Holder.holds {ω ι : Type*} [DecidableEq ι] (holder : Holder ω ι) (item : ι) : Bool :=
  holder.order.any (fun ticket => holder.held ticket = some item)

/-- A lease of an item: to a worker, then to a session under a ticket. -/
structure Lease (ω : Type*) where
  worker : ω
  session : Option ℕ := none
  ticket : Option ℕ := none
  /-- A task settles the item; its session holds it no longer. -/
  settling : Bool := false

/-- The books: which workers are linked, the slots, the sessions, the leases, the tasks. -/
structure Ledger (ω ι : Type*) where
  linked : ω → Option Bool
  slots : List (Slot ω)
  nextSlot : ℕ
  sessions : ℕ → Option (Holder ω ι)
  nextSession : ℕ
  leases : ι → Option (Lease ω)
  lastTicket : ℕ
  tasks : List ι

namespace Ledger

open Function (update)

variable {ω ι : Type*}

-- Operations

/-- The session of the slots with this id. -/
def assign (id : ℕ) (session : Option ℕ) (slots : List (Slot ω)) : List (Slot ω) :=
  slots.map (fun slot => if slot.id = id then { slot with session := session } else slot)

section
variable (ledger : Ledger ω ι)

/-- A session opens on a slot of a worker. -/
def begin (slot : ℕ) (worker : ω) : Ledger ω ι :=
  { ledger with
    slots := assign slot (some ledger.nextSession) ledger.slots
    sessions := update ledger.sessions ledger.nextSession (some ⟨worker, slot, [], fun _ => none⟩)
    nextSession := ledger.nextSession + 1
  }

def draw : Ledger ω ι := { ledger with nextSession := ledger.nextSession + 1 }

def number : Ledger ω ι := { ledger with lastTicket := ledger.lastTicket + 1 }

/-- The slots are laid out anew. -/
def relay (slots : List (Slot ω)) (nextSlot : ℕ) : Ledger ω ι :=
  { ledger with
    slots := slots
    nextSlot := nextSlot
  }

/-- A session gives up the item of a ticket; it stays leased. -/
def pop (sid ticket : ℕ) : Ledger ω ι :=
  { ledger with
    sessions := update ledger.sessions sid ((ledger.sessions sid).map (fun holder => { holder with
      order := holder.order.filter (· ≠ ticket)
      held := update holder.held ticket none
    }))
  }

/-- A worker registers, or its link changes. -/
def link [DecidableEq ω] (worker : ω) (up : Bool) : Ledger ω ι :=
  { ledger with linked := update ledger.linked worker (some up) }

/-- A session leaves its slot. -/
def leave (sid : ℕ) : Ledger ω ι :=
  match ledger.sessions sid with
  | none => ledger
  | some holder => { ledger with
      slots := assign holder.slot none ledger.slots
      sessions := update ledger.sessions sid none
    }

/-- Some items are free again. -/
def free (freed : ι → Bool) : Ledger ω ι :=
  { ledger with leases := fun item => if freed item then none else ledger.leases item }

variable [DecidableEq ι]

/-- A session ends, the items it holds are free again. -/
def close (sid : ℕ) : Ledger ω ι :=
  match ledger.sessions sid with
  | none => ledger
  | some holder => (ledger.leave sid).free holder.holds

/-- A free item is leased to a worker. -/
def take (item : ι) (worker : ω) : Ledger ω ι :=
  { ledger with leases := update ledger.leases item (some { worker := worker }) }

/-- A leased item is handed to a session under a new ticket. -/
def submit (sid : ℕ) (item : ι) : Ledger ω ι :=
  { ledger with
    lastTicket := ledger.lastTicket + 1
    sessions := update ledger.sessions sid ((ledger.sessions sid).map (fun holder => { holder with
      order := holder.order ++ [ledger.lastTicket + 1]
      held := update holder.held (ledger.lastTicket + 1) (some item)
    }))
    leases := update ledger.leases item ((ledger.leases item).map (fun lease => { lease with
      session := some sid
      ticket := some (ledger.lastTicket + 1)
    }))
  }

/-- A leased item is free again. -/
def giveBack (item : ι) : Ledger ω ι :=
  { ledger with leases := update ledger.leases item none }

/-- A task takes an item over. -/
def settle (item : ι) : Ledger ω ι :=
  { ledger with
    leases := update ledger.leases item
      ((ledger.leases item).map (fun lease => { lease with settling := true }))
    tasks := ledger.tasks ++ [item]
  }

/-- The task of an item is through with it. -/
def conclude (item : ι) : Ledger ω ι :=
  { ledger with
    leases := update ledger.leases item none
    tasks := ledger.tasks.filter (· ≠ item)
  }

/-- A worker leaves with its slots, its sessions and every lease no task settles. -/
def drop [DecidableEq ω] (worker : ω) : Ledger ω ι :=
  { ledger with
    linked := update ledger.linked worker none
    slots := ledger.slots.filter (fun slot => slot.worker ≠ worker)
    sessions := fun sid => (ledger.sessions sid).filter (fun holder => holder.worker ≠ worker)
    leases := fun item => (ledger.leases item).filter (fun lease =>
      decide (lease.worker ≠ worker) || lease.settling)
  }

end

-- The invariant

/-- Slots and sessions are in bijection, and slots belong to linked workers. -/
structure Slotted (ledger : Ledger ω ι) : Prop where
  idsNodup : (ledger.slots.map Slot.id).Nodup
  idFresh : ∀ slot ∈ ledger.slots, slot.id < ledger.nextSlot
  linked : ∀ slot ∈ ledger.slots, ledger.linked slot.worker = some true
  sessionOf : ∀ slot ∈ ledger.slots, ∀ sid, slot.session = some sid
    → ∃ holder, ledger.sessions sid = some holder ∧ holder.slot = slot.id
      ∧ holder.worker = slot.worker
  slotOf : ∀ sid holder, ledger.sessions sid = some holder
    → ⟨holder.slot, holder.worker, some sid⟩ ∈ ledger.slots
  sidFresh : ∀ sid holder, ledger.sessions sid = some holder → sid < ledger.nextSession

/-- A new layout of the slots: it keeps every slot that runs a session and adds idle ones. -/
structure Layout (ledger : Ledger ω ι) (slots : List (Slot ω)) (nextSlot : ℕ) : Prop where
  idsNodup : (slots.map Slot.id).Nodup
  idFresh : ∀ slot ∈ slots, slot.id < nextSlot
  linked : ∀ slot ∈ slots, ledger.linked slot.worker = some true
  old : ∀ slot ∈ slots, slot.session.isSome → slot ∈ ledger.slots
  kept : ∀ slot ∈ ledger.slots, slot.session.isSome → slot ∈ slots

/-- Whether a session holds an item under a ticket. -/
def Holds (ledger : Ledger ω ι) (sid ticket : ℕ) (item : ι) : Prop :=
  ∃ holder, ledger.sessions sid = some holder ∧ holder.held ticket = some item

/-- Every held item is leased to its session, and every lease is held by its session or
being settled by a task; the item in `hand`, if any, is between two owners.
-/
structure Leased (ledger : Ledger ω ι) (hand : Option ι) : Prop where
  held : ∀ sid holder ticket item, ledger.sessions sid = some holder
    → holder.held ticket = some item
    → ledger.leases item = some ⟨holder.worker, some sid, some ticket, false⟩
      ∧ ticket ∈ holder.order ∧ ticket ≤ ledger.lastTicket ∧ hand ≠ some item
  owner : ∀ item lease, ledger.leases item = some lease → lease.settling = false
    → hand = some item ∨ ∃ sid ticket, lease.session = some sid ∧ lease.ticket = some ticket
      ∧ ledger.Holds sid ticket item
  settled : ∀ item lease, ledger.leases item = some lease → lease.settling = true
    → item ∈ ledger.tasks
  task : ∀ item ∈ ledger.tasks, ∃ lease, ledger.leases item = some lease ∧ lease.settling = true
  tasksNodup : ledger.tasks.Nodup
  inHand : ∀ item, hand = some item
    → ∃ lease, ledger.leases item = some lease ∧ lease.settling = false

-- Slots

theorem mem_assign {id : ℕ} {session : Option ℕ} {slots : List (Slot ω)} {slot : Slot ω}
    : slot ∈ assign id session slots
      ↔ ∃ old ∈ slots, slot = if old.id = id then { old with session := session } else old := by
  simp only [assign, List.mem_map, eq_comm]

theorem map_id_assign {id : ℕ} {session : Option ℕ} (slots : List (Slot ω))
    : (assign id session slots).map Slot.id = slots.map Slot.id := by
  rw [assign, List.map_map]
  apply List.map_congr_left
  intro slot _
  by_cases same : slot.id = id <;> simp [same]

theorem sessions_begin (ledger : Ledger ω ι) (slot sid : ℕ) (worker : ω)
    : (ledger.begin slot worker).sessions sid
      = if sid = ledger.nextSession then some ⟨worker, slot, [], fun _ => none⟩
        else ledger.sessions sid :=
  Function.update_apply ..

section
variable {ledger : Ledger ω ι}

theorem Slotted.eq_of_id (slotted : ledger.Slotted) {a b : Slot ω} (inA : a ∈ ledger.slots)
    (inB : b ∈ ledger.slots) (same : a.id = b.id)
    : a = b :=
  List.inj_on_of_nodup_map slotted.idsNodup inA inB same

theorem Slotted.of_places (slotted : ledger.Slotted) {other : Ledger ω ι}
    (linked : other.linked = ledger.linked) (slots : other.slots = ledger.slots)
    (nextSlot : other.nextSlot = ledger.nextSlot)
    (nextSession : other.nextSession = ledger.nextSession)
    (places : ∀ sid, (other.sessions sid).map (fun holder => (holder.worker, holder.slot))
      = (ledger.sessions sid).map (fun holder => (holder.worker, holder.slot)))
    : other.Slotted := by
  -- a session of one ledger runs in the same place in the other
  have back : ∀ sid holder, other.sessions sid = some holder
      → ∃ old, ledger.sessions sid = some old ∧ old.slot = holder.slot
        ∧ old.worker = holder.worker := by
    intro sid holder open_
    have place := places sid
    rw [open_, Option.map_some, eq_comm, Option.map_eq_some_iff] at place
    obtain ⟨old, here, same⟩ := place
    exact ⟨old, here, congrArg Prod.snd same, congrArg Prod.fst same⟩
  constructor
  · rw [slots]
    exact slotted.idsNodup
  · rw [slots, nextSlot]
    exact slotted.idFresh
  · rw [slots, linked]
    exact slotted.linked
  · intro slot member sid runs
    rw [slots] at member
    obtain ⟨old, open_, atSlot, ofWorker⟩ := slotted.sessionOf slot member sid runs
    have place := places sid
    rw [open_, Option.map_some, Option.map_eq_some_iff] at place
    obtain ⟨holder, here, same⟩ := place
    exact ⟨holder, here, (congrArg Prod.snd same).trans atSlot,
      (congrArg Prod.fst same).trans ofWorker⟩
  · intro sid holder open_
    obtain ⟨old, here, atSlot, ofWorker⟩ := back sid holder open_
    rw [slots, ← atSlot, ← ofWorker]
    exact slotted.slotOf sid old here
  · intro sid holder open_
    obtain ⟨old, here, -, -⟩ := back sid holder open_
    rw [nextSession]
    exact slotted.sidFresh sid old here

theorem Slotted.begin (slotted : ledger.Slotted) {id : ℕ} {worker : ω}
    (free : ⟨id, worker, none⟩ ∈ ledger.slots)
    : (ledger.begin id worker).Slotted := by
  constructor
  · exact (map_id_assign ledger.slots).symm ▸ slotted.idsNodup
  · intro slot member
    obtain ⟨old, here, rfl⟩ := mem_assign.mp member
    split <;> exact slotted.idFresh old here
  · intro slot member
    obtain ⟨old, here, rfl⟩ := mem_assign.mp member
    split <;> exact slotted.linked old here
  · intro slot member sid runs
    obtain ⟨old, here, rfl⟩ := mem_assign.mp member
    by_cases same : old.id = id
    · rw [if_pos same] at runs ⊢
      obtain rfl : ledger.nextSession = sid := Option.some.inj runs
      obtain rfl := slotted.eq_of_id here free same
      exact ⟨_, (sessions_begin ..).trans (if_pos rfl), rfl, rfl⟩
    · rw [if_neg same] at runs ⊢
      obtain ⟨holder, open_, place⟩ := slotted.sessionOf old here sid runs
      have older : sid ≠ ledger.nextSession := Nat.ne_of_lt (slotted.sidFresh sid holder open_)
      exact ⟨holder, ((sessions_begin ..).trans (if_neg older)).trans open_, place⟩
  · intro sid holder open_
    apply mem_assign.mpr
    rw [sessions_begin] at open_
    split at open_
    case isTrue new =>
      obtain rfl := Option.some.inj open_
      exact ⟨_, free, by simp [new]⟩
    case isFalse older =>
      have old := slotted.slotOf sid holder open_
      have elsewhere : holder.slot ≠ id := by
        intro same
        simpa using slotted.eq_of_id old free same
      exact ⟨_, old, by simp [elsewhere]⟩
  · intro sid holder open_
    rw [sessions_begin] at open_
    split at open_
    case isTrue new => exact new ▸ Nat.lt_succ_self _
    case isFalse older => exact Nat.lt_succ_of_lt (slotted.sidFresh sid holder open_)

theorem Slotted.draw (slotted : ledger.Slotted)
    : ledger.draw.Slotted :=
  { slotted with
    sidFresh := fun sid holder open_ => Nat.lt_succ_of_lt (slotted.sidFresh sid holder open_)
  }

theorem Slotted.relay (slotted : ledger.Slotted) {slots : List (Slot ω)} {nextSlot : ℕ}
    (layout : ledger.Layout slots nextSlot)
    : (ledger.relay slots nextSlot).Slotted where
  idsNodup := layout.idsNodup
  idFresh := layout.idFresh
  linked := layout.linked
  sessionOf := by
    intro slot member sid runs
    exact slotted.sessionOf slot (layout.old slot member (by simp [runs])) sid runs
  slotOf := by
    intro sid holder open_
    exact layout.kept _ (slotted.slotOf sid holder open_) rfl
  sidFresh := slotted.sidFresh

theorem Slotted.leave (slotted : ledger.Slotted) (ended : ℕ)
    : (ledger.leave ended).Slotted := by
  unfold Ledger.leave
  cases found : ledger.sessions ended with
  | none => exact slotted
  | some gone =>
      constructor
      · exact (map_id_assign ledger.slots).symm ▸ slotted.idsNodup
      · intro slot member
        obtain ⟨old, here, rfl⟩ := mem_assign.mp member
        split <;> exact slotted.idFresh old here
      · intro slot member
        obtain ⟨old, here, rfl⟩ := mem_assign.mp member
        have place := slotted.linked old here
        by_cases same : old.id = gone.slot <;> simpa [same] using place
      · intro slot member sid runs
        obtain ⟨old, here, rfl⟩ := mem_assign.mp member
        by_cases same : old.id = gone.slot
        · simp [same] at runs
        · rw [if_neg same] at runs ⊢
          obtain ⟨holder, open_, atSlot, ofWorker⟩ := slotted.sessionOf old here sid runs
          have other : sid ≠ ended := by
            intro eq
            obtain rfl := Option.some.inj (found.symm.trans (eq ▸ open_))
            exact same atSlot.symm
          exact ⟨holder, (Function.update_of_ne other ..).trans open_, atSlot, ofWorker⟩
      · intro sid holder open_
        apply mem_assign.mpr
        have other : sid ≠ ended := by
          rintro rfl
          simp at open_
        have here := (Function.update_of_ne other ..).symm.trans open_
        have old := slotted.slotOf sid holder here
        have elsewhere : holder.slot ≠ gone.slot := by
          intro same
          have eq := slotted.eq_of_id old (slotted.slotOf ended gone found) same
          exact other (by simpa using congrArg Slot.session eq)
        exact ⟨_, old, by simp [elsewhere]⟩
      · intro sid holder open_
        have other : sid ≠ ended := by
          rintro rfl
          simp at open_
        exact slotted.sidFresh sid holder ((Function.update_of_ne other ..).symm.trans open_)

theorem Slotted.close [DecidableEq ι] (slotted : ledger.Slotted) (ended : ℕ)
    : (ledger.close ended).Slotted := by
  unfold Ledger.close
  cases ledger.sessions ended with
  | none => exact slotted
  | some gone => exact (slotted.leave ended).of_places rfl rfl rfl rfl (fun _ => rfl)

variable [DecidableEq ω]

theorem Slotted.drop (slotted : ledger.Slotted) (worker : ω)
    : (ledger.drop worker).Slotted := by
  constructor
  · exact slotted.idsNodup.sublist (List.filter_sublist.map _)
  · intro slot member
    exact slotted.idFresh slot (List.mem_filter.mp member).1
  · intro slot member
    obtain ⟨here, other⟩ := List.mem_filter.mp member
    have ne : slot.worker ≠ worker := of_decide_eq_true other
    exact (Function.update_of_ne ne ..).trans (slotted.linked slot here)
  · intro slot member sid runs
    obtain ⟨here, other⟩ := List.mem_filter.mp member
    obtain ⟨holder, open_, atSlot, ofWorker⟩ := slotted.sessionOf slot here sid runs
    refine ⟨holder, ?_, atSlot, ofWorker⟩
    exact Option.filter_eq_some_iff.mpr ⟨open_, ofWorker ▸ other⟩
  · intro sid holder open_
    obtain ⟨here, other⟩ := Option.filter_eq_some_iff.mp open_
    exact List.mem_filter.mpr ⟨slotted.slotOf sid holder here, other⟩
  · intro sid holder open_
    exact slotted.sidFresh sid holder (Option.filter_eq_some_iff.mp open_).1

theorem Slotted.link (slotted : ledger.Slotted) {worker : ω} {up : Bool}
    (safe : up = true ∨ ledger.linked worker = none)
    : (ledger.link worker up).Slotted := by
  refine { slotted with linked := ?_ }
  intro slot member
  have old := slotted.linked slot member
  by_cases same : slot.worker = worker
  · rw [same] at old
    obtain rfl : up = true := by simpa [old] using safe
    exact same ▸ Function.update_self ..
  · exact (Function.update_of_ne same ..).trans old

end

-- Leases

section
variable {ledger : Ledger ω ι} {hand : Option ι}

theorem Leased.unique (leased : ledger.Leased hand) {sid ticket sid' ticket' : ℕ} {item : ι}
    (one : ledger.Holds sid ticket item) (other : ledger.Holds sid' ticket' item)
    : sid = sid' ∧ ticket = ticket' := by
  obtain ⟨holder, open_, held⟩ := one
  obtain ⟨holder', open_', held'⟩ := other
  have same := (leased.held sid holder ticket item open_ held).1.symm.trans
    (leased.held sid' holder' ticket' item open_' held').1
  simp only [Option.some.injEq, Lease.mk.injEq] at same
  exact ⟨same.2.1, same.2.2.1⟩

theorem Leased.not_held_of_settling (leased : ledger.Leased hand) {item : ι} {lease : Lease ω}
    (here : ledger.leases item = some lease) (settling : lease.settling = true) {sid ticket : ℕ}
    : ¬ ledger.Holds sid ticket item := by
  intro ⟨holder, open_, held⟩
  have same := here.symm.trans (leased.held sid holder ticket item open_ held).1
  simp [Option.some.inj same] at settling

theorem Leased.not_task_of_inHand (leased : ledger.Leased hand) {item : ι}
    (inHand : hand = some item)
    : item ∉ ledger.tasks := by
  intro task
  obtain ⟨lease, here, idle⟩ := leased.inHand item inHand
  obtain ⟨lease', here', settling⟩ := leased.task item task
  obtain rfl := Option.some.inj (here.symm.trans here')
  simp [idle] at settling

theorem Leased.relay (leased : ledger.Leased hand) (slots : List (Slot ω)) (nextSlot : ℕ)
    : (ledger.relay slots nextSlot).Leased hand :=
  ⟨leased.held, leased.owner, leased.settled, leased.task, leased.tasksNodup, leased.inHand⟩

theorem Leased.number (leased : ledger.Leased hand)
    : ledger.number.Leased hand := by
  refine { leased with held := ?_ }
  intro sid holder ticket item open_ held
  obtain ⟨here, ordered, numbered, notHere⟩ := leased.held sid holder ticket item open_ held
  exact ⟨here, ordered, Nat.le_succ_of_le numbered, notHere⟩

theorem Leased.link [DecidableEq ω] (leased : ledger.Leased hand) (worker : ω) (up : Bool)
    : (ledger.link worker up).Leased hand :=
  ⟨leased.held, leased.owner, leased.settled, leased.task, leased.tasksNodup, leased.inHand⟩

theorem Leased.begin (leased : ledger.Leased hand) (slotted : ledger.Slotted) (id : ℕ)
    (worker : ω)
    : (ledger.begin id worker).Leased hand := by
  refine ⟨?_, ?_, leased.settled, leased.task, leased.tasksNodup, leased.inHand⟩
  · intro sid holder ticket item open_ held
    rw [sessions_begin] at open_
    split at open_
    case isTrue new =>
      obtain rfl := Option.some.inj open_
      cases held
    case isFalse older => exact leased.held sid holder ticket item open_ held
  · intro item lease here idle
    apply (leased.owner item lease here idle).imp_right
    intro ⟨sid, ticket, ofSession, ofTicket, holder, open_, held⟩
    have older : sid ≠ ledger.nextSession := Nat.ne_of_lt (slotted.sidFresh sid holder open_)
    exact ⟨sid, ticket, ofSession, ofTicket, holder,
      ((sessions_begin ..).trans (if_neg older)).trans open_, held⟩

theorem Leased.pop (leased : ledger.Leased none) {sid ticket : ℕ} {item : ι}
    (holds : ledger.Holds sid ticket item)
    : (ledger.pop sid ticket).Leased (some item) := by
  obtain ⟨holder, open_, heldHere⟩ := holds
  have sessions : ∀ asked, (ledger.pop sid ticket).sessions asked
      = if asked = sid then some { holder with
          order := holder.order.filter (· ≠ ticket)
          held := update holder.held ticket none
        } else ledger.sessions asked := by
    intro asked
    exact (Function.update_apply ..).trans (by rw [open_, Option.map_some])
  have lease := (leased.held sid holder ticket item open_ heldHere).1
  constructor
  · intro asked found ticket' other there held
    rw [sessions] at there
    split at there
    case isTrue same =>
      obtain rfl := Option.some.inj there
      subst same
      by_cases popped : ticket' = ticket
      · simp [popped] at held
      · have before : holder.held ticket' = some other := by
          simpa [Function.update_of_ne popped] using held
        obtain ⟨here, ordered, numbered, -⟩ := leased.held asked holder ticket' other open_ before
        refine ⟨here, List.mem_filter.mpr ⟨ordered, decide_eq_true popped⟩, numbered, ?_⟩
        intro inHand
        obtain rfl := Option.some.inj inHand
        exact popped
          (leased.unique ⟨holder, open_, before⟩ ⟨holder, open_, heldHere⟩).2
    case isFalse different =>
      obtain ⟨here, ordered, numbered, -⟩ := leased.held asked found ticket' other there held
      refine ⟨here, ordered, numbered, ?_⟩
      intro inHand
      obtain rfl := Option.some.inj inHand
      exact different (leased.unique ⟨found, there, held⟩ ⟨holder, open_, heldHere⟩).1
  · intro other otherLease here idle
    obtain ⟨sid', ticket', ofSession, ofTicket, found, there, held⟩ :=
      (leased.owner other otherLease here idle).resolve_left nofun
    by_cases popped : other = item
    · exact .inl (congrArg some popped.symm)
    right
    by_cases same : sid' = sid
    · subst same
      obtain rfl := Option.some.inj (open_.symm.trans there)
      have kept : ticket' ≠ ticket := by
        intro eq
        exact popped (Option.some.inj (held.symm.trans (eq ▸ heldHere)))
      exact ⟨sid', ticket', ofSession, ofTicket, _, (sessions sid').trans (if_pos rfl),
        (Function.update_of_ne kept ..).trans held⟩
    · exact ⟨sid', ticket', ofSession, ofTicket, found,
        ((sessions sid').trans (if_neg same)).trans there, held⟩
  · exact leased.settled
  · exact leased.task
  · exact leased.tasksNodup
  · intro other inHand
    obtain rfl := Option.some.inj inHand
    exact ⟨_, lease, rfl⟩

variable [DecidableEq ι]

theorem Leased.take (leased : ledger.Leased none) {item : ι} (free : ledger.leases item = none)
    (worker : ω)
    : (ledger.take item worker).Leased (some item) := by
  have leases : ∀ asked, (ledger.take item worker).leases asked
      = if asked = item then some { worker := worker } else ledger.leases asked :=
    fun asked => Function.update_apply ..
  constructor
  · intro sid holder ticket other open_ held
    obtain ⟨here, ordered, numbered, -⟩ := leased.held sid holder ticket other open_ held
    have older : other ≠ item := by
      rintro rfl
      simp [free] at here
    exact ⟨((leases other).trans (if_neg older)).trans here, ordered, numbered,
      fun inHand => older (Option.some.inj inHand).symm⟩
  · intro other lease here idle
    rw [leases] at here
    split at here
    case isTrue same => exact .inl (congrArg some same.symm)
    case isFalse older => exact .inr ((leased.owner other lease here idle).resolve_left nofun)
  · intro other lease here settling
    rw [leases] at here
    split at here
    case isTrue =>
      obtain rfl := Option.some.inj here
      cases settling
    case isFalse => exact leased.settled other lease here settling
  · intro other task
    obtain ⟨lease, here, settling⟩ := leased.task other task
    have older : other ≠ item := by
      rintro rfl
      simp [free] at here
    exact ⟨lease, ((leases other).trans (if_neg older)).trans here, settling⟩
  · exact leased.tasksNodup
  · intro other inHand
    obtain rfl := Option.some.inj inHand
    exact ⟨_, (leases item).trans (if_pos rfl), rfl⟩

/-- The item in hand may be handed to a session of the worker it is leased to. -/
theorem Leased.submit {item : ι} (leased : ledger.Leased (some item)) {sid : ℕ}
    {holder : Holder ω ι} {lease : Lease ω} (open_ : ledger.sessions sid = some holder)
    (here : ledger.leases item = some lease) (ofWorker : lease.worker = holder.worker)
    : (ledger.submit sid item).Leased none := by
  have sessions : ∀ asked, (ledger.submit sid item).sessions asked
      = if asked = sid then some { holder with
          order := holder.order ++ [ledger.lastTicket + 1]
          held := update holder.held (ledger.lastTicket + 1) (some item)
        } else ledger.sessions asked := by
    intro asked
    exact (Function.update_apply ..).trans (by rw [open_, Option.map_some])
  have idle : lease.settling = false := by
    obtain ⟨known, same, idle⟩ := leased.inHand item rfl
    rwa [← Option.some.inj (same.symm.trans here)]
  have leases : ∀ asked, (ledger.submit sid item).leases asked
      = if asked = item then
          some ⟨holder.worker, some sid, some (ledger.lastTicket + 1), false⟩
        else ledger.leases asked := by
    intro asked
    exact (Function.update_apply ..).trans (by rw [here, Option.map_some, ofWorker, idle])
  constructor
  · intro asked found ticket other there held
    rw [sessions] at there
    split at there
    case isTrue same =>
      obtain rfl := Option.some.inj there
      subst same
      by_cases new : ticket = ledger.lastTicket + 1
      · obtain rfl : item = other := by simpa [new] using held
        subst new
        exact ⟨(leases item).trans (if_pos rfl), by simp, Nat.le_refl _, nofun⟩
      · have before : holder.held ticket = some other := by
          simpa [Function.update_of_ne new] using held
        obtain ⟨known, ordered, numbered, notHere⟩ :=
          leased.held asked holder ticket other open_ before
        have older : other ≠ item := fun eq => notHere (congrArg some eq.symm)
        exact ⟨((leases other).trans (if_neg older)).trans known,
          List.mem_append_left _ ordered, Nat.le_succ_of_le numbered, nofun⟩
    case isFalse different =>
      obtain ⟨known, ordered, numbered, notHere⟩ :=
        leased.held asked found ticket other there held
      have older : other ≠ item := fun eq => notHere (congrArg some eq.symm)
      exact ⟨((leases other).trans (if_neg older)).trans known, ordered,
        Nat.le_succ_of_le numbered, nofun⟩
  · intro other otherLease known notSettling
    rw [leases] at known
    split at known
    case isTrue same =>
      obtain rfl := Option.some.inj known
      refine .inr ⟨sid, ledger.lastTicket + 1, rfl, rfl, _, (sessions sid).trans (if_pos rfl), ?_⟩
      exact (Function.update_self ..).trans (congrArg some same.symm)
    case isFalse older =>
      obtain inHand | ⟨sid', ticket, ofSession, ofTicket, found, there, held⟩ :=
        leased.owner other otherLease known notSettling
      · exact absurd (Option.some.inj inHand).symm older
      refine .inr ⟨sid', ticket, ofSession, ofTicket, ?_⟩
      by_cases same : sid' = sid
      · subst same
        obtain rfl := Option.some.inj (open_.symm.trans there)
        have kept : ticket ≠ ledger.lastTicket + 1 := by
          have numbered := (leased.held sid' holder ticket other open_ held).2.2.1
          omega
        exact ⟨_, (sessions sid').trans (if_pos rfl), (Function.update_of_ne kept ..).trans held⟩
      · exact ⟨found, ((sessions sid').trans (if_neg same)).trans there, held⟩
  · intro other otherLease known settling
    rw [leases] at known
    split at known
    case isTrue =>
      obtain rfl := Option.some.inj known
      cases settling
    case isFalse => exact leased.settled other otherLease known settling
  · intro other task
    obtain ⟨known, there, settling⟩ := leased.task other task
    have older : other ≠ item := by
      rintro rfl
      exact leased.not_task_of_inHand rfl task
    exact ⟨known, ((leases other).trans (if_neg older)).trans there, settling⟩
  · exact leased.tasksNodup
  · exact nofun

theorem Leased.giveBack {item : ι} (leased : ledger.Leased (some item))
    : (ledger.giveBack item).Leased none := by
  have leases : ∀ asked, (ledger.giveBack item).leases asked
      = if asked = item then none else ledger.leases asked :=
    fun asked => Function.update_apply ..
  constructor
  · intro sid holder ticket other open_ held
    obtain ⟨here, ordered, numbered, notHere⟩ := leased.held sid holder ticket other open_ held
    have older : other ≠ item := fun eq => notHere (congrArg some eq.symm)
    exact ⟨((leases other).trans (if_neg older)).trans here, ordered, numbered, nofun⟩
  · intro other lease here idle
    rw [leases] at here
    split at here
    case isTrue => cases here
    case isFalse older =>
      exact .inr ((leased.owner other lease here idle).resolve_left
        fun inHand => older (Option.some.inj inHand).symm)
  · intro other lease here settling
    rw [leases] at here
    split at here
    case isTrue => cases here
    case isFalse => exact leased.settled other lease here settling
  · intro other task
    obtain ⟨lease, here, settling⟩ := leased.task other task
    have older : other ≠ item := by
      rintro rfl
      exact leased.not_task_of_inHand rfl task
    exact ⟨lease, ((leases other).trans (if_neg older)).trans here, settling⟩
  · exact leased.tasksNodup
  · exact nofun

theorem Leased.settle {item : ι} (leased : ledger.Leased (some item))
    : (ledger.settle item).Leased none := by
  obtain ⟨lease, leasedHere, -⟩ := leased.inHand item rfl
  have leases : ∀ asked, (ledger.settle item).leases asked
      = if asked = item then some { lease with settling := true } else ledger.leases asked := by
    intro asked
    exact (Function.update_apply ..).trans (by rw [leasedHere, Option.map_some])
  constructor
  · intro sid holder ticket other open_ held
    obtain ⟨here, ordered, numbered, notHere⟩ := leased.held sid holder ticket other open_ held
    have older : other ≠ item := fun eq => notHere (congrArg some eq.symm)
    exact ⟨((leases other).trans (if_neg older)).trans here, ordered, numbered, nofun⟩
  · intro other otherLease here idle
    rw [leases] at here
    split at here
    case isTrue =>
      obtain rfl := Option.some.inj here
      cases idle
    case isFalse older =>
      exact .inr ((leased.owner other otherLease here idle).resolve_left
        fun inHand => older (Option.some.inj inHand).symm)
  · intro other otherLease here settling
    rw [leases] at here
    split at here
    case isTrue same => exact List.mem_append_right _ (List.mem_singleton.mpr same)
    case isFalse => exact List.mem_append_left _ (leased.settled other otherLease here settling)
  · intro other task
    by_cases same : other = item
    · exact ⟨_, (leases other).trans (if_pos same), rfl⟩
    · obtain ⟨known, there, settling⟩ :=
        leased.task other ((List.mem_append.mp task).resolve_right (by simpa using same))
      exact ⟨known, ((leases other).trans (if_neg same)).trans there, settling⟩
  · apply List.nodup_append.mpr
    refine ⟨leased.tasksNodup, List.nodup_singleton item, ?_⟩
    intro other task item' single same
    obtain rfl := List.mem_singleton.mp single
    exact leased.not_task_of_inHand rfl (same ▸ task)
  · exact nofun

theorem Leased.conclude (leased : ledger.Leased none) {item : ι} (settled : item ∈ ledger.tasks)
    : (ledger.conclude item).Leased none := by
  obtain ⟨lease, leasedHere, settling⟩ := leased.task item settled
  have leases : ∀ asked, (ledger.conclude item).leases asked
      = if asked = item then none else ledger.leases asked :=
    fun asked => Function.update_apply ..
  constructor
  · intro sid holder ticket other open_ held
    obtain ⟨here, ordered, numbered, -⟩ := leased.held sid holder ticket other open_ held
    have older : other ≠ item := by
      rintro rfl
      exact leased.not_held_of_settling leasedHere settling ⟨holder, open_, held⟩
    exact ⟨((leases other).trans (if_neg older)).trans here, ordered, numbered, nofun⟩
  · intro other otherLease here idle
    rw [leases] at here
    split at here
    case isTrue => cases here
    case isFalse => exact .inr ((leased.owner other otherLease here idle).resolve_left nofun)
  · intro other otherLease here settling
    rw [leases] at here
    split at here
    case isTrue => cases here
    case isFalse older =>
      exact List.mem_filter.mpr
        ⟨leased.settled other otherLease here settling, decide_eq_true older⟩
  · intro other task
    obtain ⟨member, older⟩ := List.mem_filter.mp task
    obtain ⟨known, there, settling⟩ := leased.task other member
    exact ⟨known, ((leases other).trans (if_neg (of_decide_eq_true older))).trans there, settling⟩
  · exact leased.tasksNodup.filter _
  · exact nofun

theorem Leased.close (leased : ledger.Leased none) (ended : ℕ)
    : (ledger.close ended).Leased none := by
  unfold Ledger.close Ledger.leave Ledger.free
  cases found : ledger.sessions ended with
  | none => exact leased
  | some gone =>
      -- what the session holds is leased to it, so nothing else is freed
      have freed : ∀ item, gone.holds item = true → ∃ ticket, ledger.Holds ended ticket item := by
        intro item holds
        obtain ⟨ticket, -, held⟩ := List.any_eq_true.mp holds
        exact ⟨ticket, gone, found, of_decide_eq_true held⟩
      have kept : ∀ {item sid ticket}, ledger.Holds sid ticket item → sid ≠ ended
          → gone.holds item = false := by
        intro item sid ticket holds other
        apply Bool.eq_false_iff.mpr
        intro inGone
        obtain ⟨ticket', here⟩ := freed item inGone
        exact other (leased.unique holds here).1
      constructor
      · intro sid holder ticket item open_ held
        have other : sid ≠ ended := by
          rintro rfl
          simp at open_
        have there : ledger.sessions sid = some holder :=
          (Function.update_of_ne other ..).symm.trans open_
        obtain ⟨here, ordered, numbered, -⟩ := leased.held sid holder ticket item there held
        exact ⟨by simpa [kept ⟨holder, there, held⟩ other] using here, ordered, numbered, nofun⟩
      · intro item lease here idle
        have notHeld : gone.holds item = false := by
          apply Bool.eq_false_iff.mpr
          intro holds
          simp [holds] at here
        obtain ⟨sid, ticket, ofSession, ofTicket, holder, there, held⟩ :=
          (leased.owner item lease (by simpa [notHeld] using here) idle).resolve_left nofun
        have other : sid ≠ ended := by
          intro same
          subst same
          obtain rfl := Option.some.inj (found.symm.trans there)
          have ordered := (leased.held sid gone ticket item there held).2.1
          have holds : gone.holds item = true :=
            List.any_eq_true.mpr ⟨ticket, ordered, decide_eq_true held⟩
          simp [notHeld] at holds
        exact .inr ⟨sid, ticket, ofSession, ofTicket, holder,
          (Function.update_of_ne other ..).trans there, held⟩
      · intro item lease here settling
        by_cases holds : gone.holds item = true
        · simp [holds] at here
        · exact leased.settled item lease (by simpa [holds] using here) settling
      · intro item task
        obtain ⟨lease, here, settling⟩ := leased.task item task
        have notHeld : gone.holds item = false := by
          apply Bool.eq_false_iff.mpr
          intro holds
          obtain ⟨ticket, held⟩ := freed item holds
          exact leased.not_held_of_settling here settling held
        exact ⟨lease, by simpa [notHeld] using here, settling⟩
      · exact leased.tasksNodup
      · exact nofun

omit [DecidableEq ι] in
theorem Leased.drop [DecidableEq ω] (leased : ledger.Leased none) (worker : ω)
    : (ledger.drop worker).Leased none := by
  constructor
  · intro sid holder ticket item open_ held
    obtain ⟨there, other⟩ := Option.filter_eq_some_iff.mp open_
    obtain ⟨here, ordered, numbered, -⟩ := leased.held sid holder ticket item there held
    refine ⟨Option.filter_eq_some_iff.mpr ⟨here, ?_⟩, ordered, numbered, nofun⟩
    simpa using other
  · intro item lease here idle
    obtain ⟨there, stays⟩ := Option.filter_eq_some_iff.mp here
    obtain ⟨sid, ticket, ofSession, ofTicket, holder, open_, held⟩ :=
      (leased.owner item lease there idle).resolve_left nofun
    obtain rfl := Option.some.inj
      (there.symm.trans (leased.held sid holder ticket item open_ held).1)
    refine .inr ⟨sid, ticket, ofSession, ofTicket, holder, ?_, held⟩
    exact Option.filter_eq_some_iff.mpr ⟨open_, by simpa using stays⟩
  · intro item lease here settling
    exact leased.settled item lease (Option.filter_eq_some_iff.mp here).1 settling
  · intro item task
    obtain ⟨lease, here, settling⟩ := leased.task item task
    exact ⟨lease, Option.filter_eq_some_iff.mpr ⟨here, by simp [settling]⟩, settling⟩
  · exact leased.tasksNodup
  · exact nofun

end

-- The whole invariant

/-- Slots and sessions are in bijection, and every lease has its owner. -/
structure Sound (ledger : Ledger ω ι) (hand : Option ι) : Prop where
  slotted : ledger.Slotted
  leased : ledger.Leased hand

namespace Sound

variable {ledger : Ledger ω ι} {hand : Option ι}

theorem relay (sound : ledger.Sound hand) {slots : List (Slot ω)} {nextSlot : ℕ}
    (layout : ledger.Layout slots nextSlot)
    : (ledger.relay slots nextSlot).Sound hand :=
  ⟨sound.slotted.relay layout, sound.leased.relay slots nextSlot⟩

theorem begin (sound : ledger.Sound hand) {id : ℕ} {worker : ω}
    (free : ⟨id, worker, none⟩ ∈ ledger.slots)
    : (ledger.begin id worker).Sound hand :=
  ⟨sound.slotted.begin free, sound.leased.begin sound.slotted id worker⟩

theorem draw (sound : ledger.Sound hand)
    : ledger.draw.Sound hand :=
  ⟨sound.slotted.draw, { sound.leased with }⟩

theorem number (sound : ledger.Sound hand)
    : ledger.number.Sound hand :=
  ⟨sound.slotted.of_places rfl rfl rfl rfl (fun _ => rfl), sound.leased.number⟩

theorem pop (sound : ledger.Sound none) {sid ticket : ℕ} {item : ι}
    (holds : ledger.Holds sid ticket item)
    : (ledger.pop sid ticket).Sound (some item) := by
  refine ⟨sound.slotted.of_places rfl rfl rfl rfl ?_, sound.leased.pop holds⟩
  intro asked
  simp only [Ledger.pop, Function.update_apply]
  split
  case isTrue same =>
    rw [same, Option.map_map]
    rfl
  case isFalse => rfl

variable [DecidableEq ι]

theorem take (sound : ledger.Sound none) {item : ι} (free : ledger.leases item = none)
    (worker : ω)
    : (ledger.take item worker).Sound (some item) :=
  ⟨sound.slotted.of_places rfl rfl rfl rfl (fun _ => rfl), sound.leased.take free worker⟩

theorem submit {item : ι} (sound : ledger.Sound (some item)) {sid : ℕ} {holder : Holder ω ι}
    {lease : Lease ω} (open_ : ledger.sessions sid = some holder)
    (here : ledger.leases item = some lease) (ofWorker : lease.worker = holder.worker)
    : (ledger.submit sid item).Sound none := by
  refine ⟨sound.slotted.of_places rfl rfl rfl rfl ?_, sound.leased.submit open_ here ofWorker⟩
  intro asked
  simp only [Ledger.submit, Function.update_apply]
  split
  case isTrue same =>
    rw [same, Option.map_map]
    rfl
  case isFalse => rfl

theorem giveBack {item : ι} (sound : ledger.Sound (some item))
    : (ledger.giveBack item).Sound none :=
  ⟨sound.slotted.of_places rfl rfl rfl rfl (fun _ => rfl), sound.leased.giveBack⟩

theorem settle {item : ι} (sound : ledger.Sound (some item))
    : (ledger.settle item).Sound none :=
  ⟨sound.slotted.of_places rfl rfl rfl rfl (fun _ => rfl), sound.leased.settle⟩

theorem conclude (sound : ledger.Sound none) {item : ι} (settled : item ∈ ledger.tasks)
    : (ledger.conclude item).Sound none :=
  ⟨sound.slotted.of_places rfl rfl rfl rfl (fun _ => rfl), sound.leased.conclude settled⟩

theorem close (sound : ledger.Sound none) (sid : ℕ)
    : (ledger.close sid).Sound none :=
  ⟨sound.slotted.close sid, sound.leased.close sid⟩

variable [DecidableEq ω]

omit [DecidableEq ι] in
theorem drop (sound : ledger.Sound none) (worker : ω)
    : (ledger.drop worker).Sound none :=
  ⟨sound.slotted.drop worker, sound.leased.drop worker⟩

omit [DecidableEq ι] in
theorem link (sound : ledger.Sound hand) {worker : ω} {up : Bool}
    (safe : up = true ∨ ledger.linked worker = none)
    : (ledger.link worker up).Sound hand :=
  ⟨sound.slotted.link safe, sound.leased.link worker up⟩

end Sound

end Ledger

end MokuroBunko.Lib
