import Mathlib.Algebra.Order.Ring.Nat
import Mathlib.Data.List.Induction
import Mathlib.Logic.Function.Basic

/-! The cached index of the library (`index.rs`, `LibraryIndexCache`). A step is what a call does
between two waits: a look at the cached snapshot, an attempt on the scanning lock, the start and
the end of a scan.
-/

namespace MokuroBunko.Library

/-- `SLOW_SCAN`, in nanoseconds. -/
def slowScan : ℕ := 100000000

/-- `RESCAN_FACTOR`. -/
def rescanFactor : ℕ := 4

/-- A snapshot, by when it was made: the number of invalidations before its scan began and
before it ended, when it ended and how long the scan took. -/
structure Snapshot where
  began : ℕ
  ended : ℕ
  taken : ℕ
  duration : ℕ
deriving DecidableEq

/-- Where a call of `get_snapshot` stands. -/
inductive Phase where
  | idle
  | missed
  | reading
  | waiting
  | locked
  | ready
  | recorded (changes : ℕ)
  | scanning (changes started began : ℕ)
deriving DecidableEq

/-- The call holds the scanning lock. -/
def Phase.holds : Phase → Bool
  | .locked | .ready | .recorded _ | .scanning .. => true
  | _ => false

/-- `CacheState`, with the scanning lock, the calls under way and the clock. -/
structure IndexCache where
  snapshot : Option Snapshot
  snapshotTime : ℕ
  stale : Bool
  changes : ℕ
  last : Option Snapshot
  scanDuration : ℕ
  scans : ℕ
  scanning : Option ℕ
  phases : ℕ → Phase
  now : ℕ

/-- How a call came by its snapshot. -/
inductive Via where
  | fresh
  | recent
  | last
  | scanned (stale : Bool)
deriving DecidableEq

structure IndexAnswer where
  call : ℕ
  snapshot : Snapshot
  via : Via
deriving DecidableEq

inductive IndexEvent where
  | invalidate
  | tick (passed : ℕ)
  | call (id : ℕ)
  | tryLock (id : ℕ)
  | readLast (id : ℕ)
  | acquire (id : ℕ)
  | recheck (id : ℕ)
  | record (id : ℕ)
  | begin (id : ℕ)
  | finish (id : ℕ)
deriving DecidableEq

/-- The call a step belongs to. -/
def IndexEvent.caller : IndexEvent → Option ℕ
  | .invalidate | .tick _ => none
  | .call id | .tryLock id | .readLast id | .acquire id | .recheck id | .record id | .begin id
  | .finish id => some id

namespace IndexCache

/-- `new`. -/
def new : IndexCache where
  snapshot := none
  snapshotTime := 0
  stale := false
  changes := 0
  last := none
  scanDuration := 0
  scans := 0
  scanning := none
  phases := fun _ => .idle
  now := 0

def invalidate (state : IndexCache) : IndexCache where
  snapshot := if state.scanDuration < slowScan then none else state.snapshot
  snapshotTime := state.snapshotTime
  stale := true
  changes := state.changes + 1
  last := state.last
  scanDuration := state.scanDuration
  scans := state.scans
  scanning := state.scanning
  phases := state.phases
  now := state.now

variable (ttl : ℕ)

/-- The cached snapshot when it may be served as it is. -/
def servable (state : IndexCache) : Option (Snapshot × Via) := do
  let snapshot ← state.snapshot
  let age := state.now - state.snapshotTime
  if !state.stale ∧ age < ttl then some (snapshot, .fresh)
  else if state.stale ∧ age < rescanFactor * state.scanDuration then some (snapshot, .recent)
  else none

def setPhase (state : IndexCache) (id : ℕ) (phase : Phase) : IndexCache :=
  { state with phases := Function.update state.phases id phase }

/-- The call returns; `scanning` is who holds the lock then. -/
def answer (state : IndexCache) (id : ℕ) (scanning : Option ℕ) (found : Snapshot × Via)
    : IndexCache × Option IndexAnswer :=
  ({ state.setPhase id .idle with scanning }, some ⟨id, found.1, found.2⟩)

/-- The end of a scan of the call. -/
def finish (state : IndexCache) (id changes started began : ℕ)
    : IndexCache × Option IndexAnswer :=
  let duration := state.now - started
  let snapshot : Snapshot := ⟨began, state.changes, state.now, duration⟩
  let stale : Bool := state.changes ≠ changes
  ({
      state with
      scanDuration := duration
      snapshotTime := state.now
      stale
      snapshot := if !stale ∨ slowScan ≤ duration then some snapshot else none
      last := some snapshot
      scans := state.scans + 1
      scanning := none
      phases := Function.update state.phases id .idle
    }, some ⟨id, snapshot, .scanned stale⟩)

/-- One step of a call, by where it stands, or a step of the world around. -/
def step (state : IndexCache) : IndexEvent → Option (IndexCache × Option IndexAnswer)
  | .invalidate => some (state.invalidate, none)
  | .tick passed => some ({ state with now := state.now + passed }, none)
  | .call id =>
      match state.phases id with
      | .idle =>
          match state.servable ttl with
          | some found => some (state.answer id state.scanning found)
          | none => some (state.setPhase id .missed, none)
      | _ => none
  | .tryLock id =>
      match state.phases id with
      | .missed =>
          if state.scanning = none then
            some ({ state.setPhase id .locked with scanning := some id }, none)
          else some (state.setPhase id .reading, none)
      | _ => none
  | .readLast id =>
      match state.phases id with
      | .reading =>
          match state.last with
          | some last => some (state.answer id state.scanning (last, .last))
          | none => some (state.setPhase id .waiting, none)
      | _ => none
  | .acquire id =>
      match state.phases id with
      | .waiting =>
          if state.scanning = none then
            some ({ state.setPhase id .locked with scanning := some id }, none)
          else none
      | _ => none
  | .recheck id =>
      match state.phases id with
      | .locked =>
          match state.servable ttl with
          | some found => some (state.answer id none found)
          | none => some (state.setPhase id .ready, none)
      | _ => none
  | .record id =>
      match state.phases id with
      | .ready => some (state.setPhase id (.recorded state.changes), none)
      | _ => none
  | .begin id =>
      match state.phases id with
      | .recorded changes =>
          some (state.setPhase id (.scanning changes state.now state.changes), none)
      | _ => none
  | .finish id =>
      match state.phases id with
      | .scanning changes started began => some (state.finish id changes started began)
      | _ => none

/-- The state after some steps. -/
def run (state : IndexCache) (events : List IndexEvent) : Option IndexCache :=
  events.foldlM (fun state event => (step ttl state event).map Prod.fst) state

-- What every step keeps

/-- The lock is held by the call that is past it, what is cached is as the times say and current
unless it is marked stale, and a scan began after its number of changes was recorded. -/
structure Sound (state : IndexCache) : Prop where
  lock : ∀ id, (state.phases id).holds ↔ state.scanning = some id
  cached : ∀ snapshot ∈ state.snapshot, snapshot.taken = state.snapshotTime
    ∧ snapshot.duration = state.scanDuration
    ∧ (state.stale = false → snapshot.began = state.changes)
  recorded : ∀ id changes, state.phases id = .recorded changes → changes ≤ state.changes
  scanned : ∀ id changes started began, state.phases id = .scanning changes started began
    → changes ≤ began ∧ began ≤ state.changes

theorem new_sound : Sound new := by
  refine ⟨?_, ?_, ?_, ?_⟩
  · intro id
    simp [new, Phase.holds]
  · intro snapshot absent
    cases absent
  · intro id changes found
    cases found
  · intro id changes started began found
    cases found

theorem Sound.invalidate {state : IndexCache} (sound : Sound state) : Sound state.invalidate := by
  refine ⟨sound.lock, ?_, ?_, ?_⟩
  · intro snapshot cached
    simp only [IndexCache.invalidate] at cached ⊢
    split at cached
    · cases cached
    · obtain ⟨taken, duration, _⟩ := sound.cached snapshot cached
      exact ⟨taken, duration, fun fresh => by cases fresh⟩
  · intro id changes found
    exact (sound.recorded id changes found).trans (Nat.le_succ _)
  · intro id changes started began found
    obtain ⟨after, before⟩ := sound.scanned id changes started began found
    exact ⟨after, before.trans (Nat.le_succ _)⟩

theorem Sound.setPhase {state : IndexCache} (sound : Sound state) {id : ℕ} {phase : Phase}
    {scanning : Option ℕ}
    (lock : ∀ other, (if other = id then phase.holds else (state.phases other).holds)
      ↔ scanning = some other)
    (recorded : ∀ changes, phase = .recorded changes → changes ≤ state.changes)
    (scanned : ∀ changes started began, phase = .scanning changes started began
      → changes ≤ began ∧ began ≤ state.changes)
    : Sound { state.setPhase id phase with scanning } := by
  refine ⟨?_, sound.cached, ?_, ?_⟩
  · intro other
    have held := lock other
    simp only [IndexCache.setPhase, Function.update_apply]
    split
    · rename_i same
      rw [if_pos same] at held
      exact held
    · rename_i different
      rw [if_neg different] at held
      exact held
  · intro other changes found
    simp only [IndexCache.setPhase, Function.update_apply] at found
    split at found
    · exact recorded changes found
    · exact sound.recorded other changes found
  · intro other changes started began found
    simp only [IndexCache.setPhase, Function.update_apply] at found
    split at found
    · exact scanned changes started began found
    · exact sound.scanned other changes started began found

theorem Sound.lock_same {state : IndexCache} (sound : Sound state) {id : ℕ} {phase : Phase}
    (same : phase.holds = (state.phases id).holds) (other : ℕ)
    : (if other = id then phase.holds else (state.phases other).holds)
      ↔ state.scanning = some other := by
  split
  · rename_i at_id
    rw [same, at_id]
    exact sound.lock id
  · exact sound.lock other

theorem Sound.lock_taken {state : IndexCache} (sound : Sound state) {id : ℕ} {phase : Phase}
    (free : state.scanning = none) (holds : phase.holds) (other : ℕ)
    : (if other = id then phase.holds else (state.phases other).holds)
      ↔ some id = some other := by
  split
  · rename_i same
    rw [same]
    exact iff_of_true holds rfl
  · rename_i different
    have held := sound.lock other
    rw [free] at held
    refine iff_of_false ?_ ?_
    · exact fun holding => Option.noConfusion rfl (heq_of_eq (held.mp holding))
    · exact fun same => different (Option.some.inj same).symm

theorem Sound.lock_free {state : IndexCache} (sound : Sound state) {id : ℕ} {phase : Phase}
    (held : (state.phases id).holds) (gone : phase.holds = false) (other : ℕ)
    : (if other = id then phase.holds else (state.phases other).holds)
      ↔ (none : Option ℕ) = some other := by
  have mine := (sound.lock id).mp held
  split
  · rw [gone]
    exact iff_of_false Bool.false_ne_true (fun absent => by cases absent)
  · rename_i different
    have others := sound.lock other
    rw [mine] at others
    exact iff_of_false (fun holding => different (Option.some.inj (others.mp holding)).symm)
      (fun absent => by cases absent)

theorem Sound.finish {state : IndexCache} (sound : Sound state) {id changes started began : ℕ}
    (found : state.phases id = .scanning changes started began)
    : Sound (state.finish id changes started began).1 := by
  obtain ⟨after, before⟩ := sound.scanned id changes started began found
  have held : (state.phases id).holds := by rw [found]; rfl
  have released := sound.setPhase (@Sound.lock_free _ sound id .idle held rfl)
    (fun _ absent => by cases absent) (fun _ _ _ absent => by cases absent)
  refine ⟨released.lock, ?_, released.recorded, released.scanned⟩
  intro snapshot cached
  simp only [IndexCache.finish] at cached ⊢
  split at cached
  · obtain rfl := Option.some.inj cached
    refine ⟨rfl, rfl, ?_⟩
    intro fresh
    have unchanged : state.changes = changes := by simpa using fresh
    exact Nat.le_antisymm before (unchanged.le.trans after)
  · cases cached

theorem Sound.move {state : IndexCache} (sound : Sound state) {id : ℕ} {phase : Phase}
    (same : phase.holds = (state.phases id).holds)
    (recorded : ∀ changes, phase = .recorded changes → changes ≤ state.changes)
    (scanned : ∀ changes started began, phase = .scanning changes started began
      → changes ≤ began ∧ began ≤ state.changes)
    : Sound (state.setPhase id phase) :=
  sound.setPhase (sound.lock_same same) recorded scanned

/-- Every step keeps it. -/
theorem step_sound {state next : IndexCache} {event : IndexEvent} {answer : Option IndexAnswer}
    (taken : step ttl state event = some (next, answer)) (sound : Sound state)
    : Sound next := by
  cases event with
  | invalidate =>
      obtain rfl := congrArg Prod.fst (Option.some.inj taken)
      exact sound.invalidate
  | tick passed =>
      obtain rfl := congrArg Prod.fst (Option.some.inj taken)
      exact ⟨sound.lock, sound.cached, sound.recorded, sound.scanned⟩
  | call id =>
      simp only [step] at taken
      split at taken
      · rename_i found
        split at taken
        · obtain rfl := congrArg Prod.fst (Option.some.inj taken)
          exact sound.move (by rw [found]) (by simp) (by simp)
        · obtain rfl := congrArg Prod.fst (Option.some.inj taken)
          exact sound.move (by rw [found]; rfl) (by simp) (by simp)
      · cases taken
  | tryLock id =>
      simp only [step] at taken
      split at taken
      · rename_i found
        split at taken
        · rename_i free
          obtain rfl := congrArg Prod.fst (Option.some.inj taken)
          exact sound.setPhase (sound.lock_taken free rfl) (by simp) (by simp)
        · obtain rfl := congrArg Prod.fst (Option.some.inj taken)
          exact sound.move (by rw [found]; rfl) (by simp) (by simp)
      · cases taken
  | readLast id =>
      simp only [step] at taken
      split at taken
      · rename_i found
        split at taken
        · obtain rfl := congrArg Prod.fst (Option.some.inj taken)
          exact sound.move (by rw [found]; rfl) (by simp) (by simp)
        · obtain rfl := congrArg Prod.fst (Option.some.inj taken)
          exact sound.move (by rw [found]; rfl) (by simp) (by simp)
      · cases taken
  | acquire id =>
      simp only [step] at taken
      split at taken
      · rename_i found
        split at taken
        · rename_i free
          obtain rfl := congrArg Prod.fst (Option.some.inj taken)
          exact sound.setPhase (sound.lock_taken free rfl) (by simp) (by simp)
        · cases taken
      · cases taken
  | recheck id =>
      simp only [step] at taken
      split at taken
      · rename_i found
        have held : (state.phases id).holds := by rw [found]; rfl
        split at taken
        · obtain rfl := congrArg Prod.fst (Option.some.inj taken)
          exact sound.setPhase (sound.lock_free held rfl) (by simp) (by simp)
        · obtain rfl := congrArg Prod.fst (Option.some.inj taken)
          exact sound.move (by rw [found]; rfl) (by simp) (by simp)
      · cases taken
  | record id =>
      simp only [step] at taken
      split at taken
      · rename_i found
        obtain rfl := congrArg Prod.fst (Option.some.inj taken)
        exact sound.move (by rw [found]; rfl) (by simp) (by simp)
      · cases taken
  | begin id =>
      simp only [step] at taken
      split at taken
      · rename_i changes found
        obtain rfl := congrArg Prod.fst (Option.some.inj taken)
        refine sound.move (by rw [found]; rfl) (by simp) ?_
        intro changes' started began same
        cases same
        exact ⟨sound.recorded id changes found, Nat.le_refl _⟩
      · cases taken
  | finish id =>
      simp only [step] at taken
      split at taken
      · rename_i changes started began found
        obtain rfl := congrArg Prod.fst (Option.some.inj taken)
        exact sound.finish found
      · cases taken

theorem run_sound {state last : IndexCache} {events : List IndexEvent}
    (reached : run ttl state events = some last) (sound : Sound state)
    : Sound last := by
  induction events generalizing state with
  | nil =>
      obtain rfl := Option.some.inj reached
      exact sound
  | cons event events ih =>
      obtain ⟨next, taken, later⟩ := Option.bind_eq_some_iff.mp reached
      obtain ⟨⟨_, answer⟩, stepped, rfl⟩ := Option.map_eq_some_iff.mp taken
      exact ih later (step_sound ttl stepped sound)

-- What a call gets

variable {ttl}

theorem Sound.servable {state : IndexCache} (sound : Sound state) {snapshot : Snapshot} {via : Via}
    (served : state.servable ttl = some (snapshot, via))
    : (via = .fresh ∧ snapshot.began = state.changes)
      ∨ (via = .recent ∧ state.now - snapshot.taken < rescanFactor * snapshot.duration) := by
  obtain ⟨cached, found, served⟩ := Option.bind_eq_some_iff.mp served
  obtain ⟨taken, duration, current⟩ := sound.cached cached found
  dsimp only at served
  split at served
  · rename_i fresh
    obtain ⟨rfl, rfl⟩ := Prod.mk.inj (Option.some.inj served)
    exact Or.inl ⟨rfl, current (by simpa using fresh.1)⟩
  · split at served
    · rename_i recent
      obtain ⟨rfl, rfl⟩ := Prod.mk.inj (Option.some.inj served)
      rw [← taken, ← duration] at recent
      exact Or.inr ⟨rfl, recent.2⟩
    · cases served

theorem Sound.answer {state next : IndexCache} (sound : Sound state) {event : IndexEvent}
    {answer : IndexAnswer} (taken : step ttl state event = some (next, some answer))
    : (answer.via = .fresh ∧ answer.snapshot.began = state.changes)
      ∨ (answer.via = .recent
        ∧ state.now - answer.snapshot.taken < rescanFactor * answer.snapshot.duration)
      ∨ (answer.via = .last ∧ state.phases answer.call = .reading)
      ∨ ∃ stale, answer.via = .scanned stale ∧ answer.snapshot.ended = state.changes
        ∧ (stale = false → answer.snapshot.began = state.changes) := by
  cases event with
  | call id =>
      simp only [step] at taken
      split at taken
      · split at taken
        · rename_i found served
          obtain rfl := Option.some.inj (congrArg Prod.snd (Option.some.inj taken))
          obtain fresh | recent := sound.servable served
          · exact Or.inl fresh
          · exact Or.inr (Or.inl recent)
        · cases taken
      · cases taken
  | recheck id =>
      simp only [step] at taken
      split at taken
      · split at taken
        · rename_i found served
          obtain rfl := Option.some.inj (congrArg Prod.snd (Option.some.inj taken))
          obtain fresh | recent := sound.servable served
          · exact Or.inl fresh
          · exact Or.inr (Or.inl recent)
        · cases taken
      · cases taken
  | readLast id =>
      simp only [step] at taken
      split at taken
      · rename_i found
        split at taken
        · obtain rfl := Option.some.inj (congrArg Prod.snd (Option.some.inj taken))
          exact Or.inr (Or.inr (Or.inl ⟨rfl, found⟩))
        · cases taken
      · cases taken
  | finish id =>
      simp only [step] at taken
      split at taken
      · rename_i changes started began found
        obtain rfl := Option.some.inj (congrArg Prod.snd (Option.some.inj taken))
        obtain ⟨after, before⟩ := sound.scanned id changes started began found
        refine Or.inr (Or.inr (Or.inr ⟨_, rfl, rfl, ?_⟩))
        intro fresh
        have unchanged : state.changes = changes := by simpa using fresh
        exact Nat.le_antisymm before (unchanged.le.trans after)
      · cases taken
  | _ =>
      simp only [step] at taken
      repeat (split at taken)
      all_goals cases taken

theorem reading_step {state next : IndexCache} {event : IndexEvent} {answer : Option IndexAnswer}
    {id : ℕ} (taken : step ttl state event = some (next, answer))
    (reading : next.phases id = .reading)
    : (event = .tryLock id ∧ state.phases id = .missed ∧ state.scanning ≠ none
        ∧ next.scanning = state.scanning)
      ∨ (event.caller ≠ some id ∧ state.phases id = .reading) := by
  have moved : ∀ {caller : ℕ} {phase : Phase}, phase ≠ .reading
      → Function.update state.phases caller phase id = .reading
      → caller ≠ id ∧ state.phases id = .reading := by
    intro caller phase other updated
    rw [Function.update_apply] at updated
    split at updated
    · exact absurd updated other
    · rename_i different
      exact ⟨Ne.symm different, updated⟩
  cases event with
  | invalidate =>
      obtain rfl := congrArg Prod.fst (Option.some.inj taken)
      exact Or.inr ⟨Option.noConfusion rfl ∘ heq_of_eq, reading⟩
  | tick passed =>
      obtain rfl := congrArg Prod.fst (Option.some.inj taken)
      exact Or.inr ⟨Option.noConfusion rfl ∘ heq_of_eq, reading⟩
  | tryLock caller =>
      simp only [step] at taken
      split at taken
      · rename_i missed
        split at taken
        · obtain rfl := congrArg Prod.fst (Option.some.inj taken)
          obtain ⟨different, before⟩ := moved (by simp) reading
          exact Or.inr ⟨different ∘ Option.some.inj, before⟩
        · rename_i held
          obtain rfl := congrArg Prod.fst (Option.some.inj taken)
          by_cases same : caller = id
          · subst same
            exact Or.inl ⟨rfl, missed, held, rfl⟩
          · right
            simp only [setPhase, Function.update_of_ne (Ne.symm same)] at reading
            exact ⟨same ∘ Option.some.inj, reading⟩
      · cases taken
  | call caller | readLast caller | acquire caller | recheck caller | record caller | begin caller
  | finish caller =>
      simp only [step] at taken
      repeat (split at taken)
      all_goals first
        | (obtain rfl := congrArg Prod.fst (Option.some.inj taken)
           obtain ⟨different, before⟩ := moved (by simp) reading
           exact Or.inr ⟨different ∘ Option.some.inj, before⟩)
        | cases taken

theorem reading_since {state : IndexCache} {events : List IndexEvent} {id : ℕ}
    (reached : run ttl new events = some state) (reading : state.phases id = .reading)
    : ∃ before after held other, events = before ++ .tryLock id :: after
      ∧ run ttl new before = some held ∧ held.scanning = some other ∧ other ≠ id
      ∧ (∀ event ∈ after, event.caller ≠ some id)
      ∧ (after = [] → state.scanning = some other) := by
  induction events using List.reverseRecOn generalizing state with
  | nil =>
      obtain rfl := Option.some.inj reached
      cases reading
  | append_singleton events event ih =>
      rw [run, List.foldlM_append] at reached
      obtain ⟨held, before, last⟩ := Option.bind_eq_some_iff.mp reached
      obtain ⟨_, taken, ended⟩ := Option.bind_eq_some_iff.mp last
      obtain rfl := Option.some.inj ended
      obtain ⟨⟨_, answer⟩, stepped, rfl⟩ := Option.map_eq_some_iff.mp taken
      obtain ⟨rfl, missed, locked, same⟩ | ⟨others, reading⟩ := reading_step stepped reading
      · obtain ⟨other, found⟩ := Option.ne_none_iff_exists'.mp locked
        refine ⟨events, [], held, other, rfl, before, found, ?_, by simp, ?_⟩
        · intro mine
          have holding := ((run_sound ttl before new_sound).lock id).mpr (mine ▸ found)
          rw [missed] at holding
          cases holding
        · intro _
          rw [same, found]
      · obtain ⟨front, after, since, other, split, run, scanning, different, quiet, _⟩ :=
          ih before reading
        refine ⟨front, after ++ [event], since, other, ?_, run, scanning, different, ?_, ?_⟩
        · rw [split, List.append_assoc, List.cons_append]
        · intro later member
          obtain old | new := List.mem_append.mp member
          · exact quiet later old
          · rw [List.mem_singleton.mp new]
            exact others
        · intro empty
          simp at empty

/-- At most one call is past the scanning lock. A snapshot returned as current was scanned after
the last invalidation. One that was not is recent for the time its scan took, or was read by a
call that found another past the lock, or is what the call's own scan ends with. -/
theorem index_snapshots {state : IndexCache} {events : List IndexEvent}
    (reached : run ttl new events = some state)
    : (∀ first second, (state.phases first).holds → (state.phases second).holds
        → first = second)
      ∧ ∀ event next answer, step ttl state event = some (next, some answer)
        → (answer.via = .fresh ∨ answer.via = .scanned false
          → answer.snapshot.began = state.changes)
        ∧ (answer.snapshot.began < state.changes
          → state.now - answer.snapshot.taken < rescanFactor * answer.snapshot.duration
            ∨ (∃ before after held other, events = before ++ .tryLock answer.call :: after
              ∧ run ttl new before = some held ∧ held.scanning = some other
              ∧ other ≠ answer.call ∧ (∀ later ∈ after, later.caller ≠ some answer.call)
              ∧ (after = [] → state.scanning = some other))
            ∨ (answer.via = .scanned true ∧ answer.snapshot.ended = state.changes)) := by
  have sound := run_sound ttl reached new_sound
  refine ⟨?_, ?_⟩
  · intro first second holding holding'
    have held := (sound.lock first).mp holding
    have held' := (sound.lock second).mp holding'
    exact Option.some.inj (held.symm.trans held')
  · intro event next answer taken
    obtain ⟨via, current⟩ | ⟨via, recent⟩ | ⟨via, reading⟩ | ⟨stale, via, ended, current⟩ :=
      sound.answer taken
    · exact ⟨fun _ => current, fun behind => absurd current behind.ne⟩
    · refine ⟨?_, fun _ => Or.inl recent⟩
      simp [via]
    · refine ⟨?_, fun _ => Or.inr (Or.inl (reading_since reached reading))⟩
      simp [via]
    · cases stale with
      | false => exact ⟨fun _ => current rfl, fun behind => absurd (current rfl) behind.ne⟩
      | true => exact ⟨by simp [via], fun _ => Or.inr (Or.inr ⟨via, ended⟩)⟩

def overlappingCalls : List IndexEvent :=
  [.call 0, .tryLock 0, .recheck 0, .record 0, .begin 0, .tick 5, .finish 0, .tick 100,
    .invalidate, .call 1, .tryLock 1, .recheck 1, .record 1, .begin 1, .call 2, .tryLock 2]

theorem index_snapshots_overlap
    : ∃ state next answer, run 1000 new overlappingCalls = some state
      ∧ step 1000 state (.readLast 2) = some (next, some answer)
      ∧ answer.snapshot.began < state.changes
      ∧ (state.now - answer.snapshot.taken < rescanFactor * answer.snapshot.duration
        ∨ (∃ before after held other, overlappingCalls = before ++ .tryLock answer.call :: after
          ∧ run 1000 new before = some held ∧ held.scanning = some other
          ∧ other ≠ answer.call ∧ (∀ later ∈ after, later.caller ≠ some answer.call)
          ∧ (after = [] → state.scanning = some other))
        ∨ (answer.via = .scanned true ∧ answer.snapshot.ended = state.changes)) := by
  have ended : (run 1000 new overlappingCalls).any (fun state =>
      (step 1000 state (.readLast 2)).any (fun result =>
        result.2.any (fun answer => answer.snapshot.began < state.changes))) := by
    decide
  obtain ⟨state, reached, ended⟩ := (Option.any_eq_true _ _).mp ended
  obtain ⟨⟨next, outcome⟩, taken, ended⟩ := (Option.any_eq_true _ _).mp ended
  obtain ⟨answer, rfl, ended⟩ := (Option.any_eq_true _ _).mp ended
  have behind := of_decide_eq_true ended
  have behaves := (index_snapshots reached).2 _ next answer taken
  exact ⟨state, next, answer, reached, taken, behind, behaves.2 behind⟩

end IndexCache

end MokuroBunko.Library
