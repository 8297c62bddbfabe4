import MokuroBunko.Lib.OrderedMap
import Mathlib.Data.List.Sort
import Mathlib.Data.String.Basic
import Mathlib.Logic.Function.Basic

/-! The library runtime's metadata passes (`runtime.rs`, `Debouncer` of `service.rs`): changes arm
debounced timers, timers that fire enter a queue, and one thread takes its passes from there. Each
step is what runs under one lock, or one event of the clock.
-/

namespace MokuroBunko.Library.Regen

open MokuroBunko.Lib

-- Timers

/-- `DebouncePolicy`, as far as the timers read it, with times as whole numbers. -/
structure DebouncePolicy where
  debounce : ℕ
  maxDebounce : ℕ

/-- `Debouncer`. -/
structure Debouncer where
  deadline : Option ℕ := none
deriving DecidableEq

/-- `Debouncer::schedule`, with the delay to arm the timer with. -/
def Debouncer.schedule (debouncer : Debouncer) (policy : DebouncePolicy) (now : ℕ)
    (delay : Option ℕ) : Debouncer × ℕ :=
  let deadline := debouncer.deadline.getD (now + policy.maxDebounce)
  (⟨some deadline⟩, min (delay.getD policy.debounce) (deadline - now))

/-- What a pass was asked for: the whole library, or the series of a key. -/
inductive Target where
  | full
  | series (key : String)
deriving DecidableEq

/-- `Slot`, its task named by the generation it was spawned with. -/
structure Slot where
  debouncer : Debouncer := {}
  generation : ℕ := 0
  task : Option ℕ := none
deriving DecidableEq

/-- `Timers`. -/
structure Timers where
  stopped : Bool := false
  generation : ℕ := 0
  full : Slot := {}
  /-- Per series key: the slot and the latest raw title scheduled for it. -/
  series : OrderedMap String (Slot × String) := .empty

namespace Timers

def slot (timers : Timers) : Target → Option Slot
  | .full => some timers.full
  | .series key => (timers.series.get? key).map Prod.fst

def title (timers : Timers) : Target → String
  | .full => ""
  | .series key => ((timers.series.get? key).map Prod.snd).getD ""

def arm (timers : Timers) (target : Target) (slot : Slot) (title : String) : Timers :=
  match target with
  | .full => { timers with full := slot }
  | .series key => { timers with series := timers.series.insert key (slot, title) }

/-- What a timer that fires leaves: a fresh cap window, or no series. -/
def disarm (timers : Timers) : Target → Timers
  | .full => { timers with full := { timers.full with debouncer := {}, task := none } }
  | .series key => { timers with series := timers.series.erase key }

end Timers

/-- Where a spawned timer stands. -/
inductive Phase where
  | spawned
  /-- Asleep since then. -/
  | sleeping (since : ℕ)
  /-- Past its sleep, on its way to the timers. -/
  | woken
  /-- Fired, on its way to the queue. -/
  | firing (title : String)
  /-- In the queue; the worker is not told yet. -/
  | queued
deriving DecidableEq

/-- A spawned timer: what for, when it was asked for and how long it sleeps. -/
structure Task where
  target : Target
  called : ℕ
  wait : ℕ
  phase : Phase
deriving DecidableEq

/-- An aborted task ends where it waits, and runs on when it is past its sleep. -/
def Task.aborted (task : Task) : Option Task :=
  match task.phase with
  | .spawned | .sleeping _ => none
  | _ => some task

-- Work

/-- `Work`. -/
inductive Work where
  | full
  | series (titles : List String)
deriving DecidableEq

/-- `WorkQueue`. -/
structure WorkQueue where
  stopped : Bool := false
  running : Bool := false
  full : Bool := false
  /-- Series to recompile, by key: the latest raw title for each. -/
  series : OrderedMap String String := .empty
  lastBatch : Option ℕ := none

/-- Where the metadata thread stands. -/
inductive Worker where
  | starting
  | working (work : Work)
  /-- Woken while it waited for work. -/
  | awake
  /-- Waiting for work, until then at most if a time is given. -/
  | waiting (next : Option ℕ)
  | exited
deriving DecidableEq

/-- What a run shows: calls with their time and generation, timers that fire, passes. -/
inductive Event where
  | called (target : Target) (time generation : ℕ)
  | fired (target : Target) (generation : ℕ)
  | started (work : Work)
  | finished
deriving DecidableEq

/-- The runtime, and what it has shown so far. -/
structure State where
  now : ℕ := 0
  timers : Timers := {}
  tasks : ℕ → Option Task := fun _ => none
  queue : WorkQueue := {}
  worker : Option Worker := none
  log : List Event := []

/-- What the steps of a run read: the policy, and `normalize_volume_title_key`. -/
structure Env where
  policy : DebouncePolicy
  titleKey : String → String

/-- `batch_gap`. -/
def Env.batchGap (env : Env) : ℕ := env.policy.debounce / 5

/-- A pass covers what was asked for: a full pass all of it, a batch the series of its titles. -/
def Env.Covers (env : Env) : Work → Target → Prop
  | .full, _ => True
  | .series _, .full => False
  | .series titles, .series key => key ∈ titles.map env.titleKey

namespace State

/-- A task moves on, or ends. -/
def setTask (s : State) (generation : ℕ) (task : Option Task) : State :=
  { s with tasks := Function.update s.tasks generation task }

/-- `schedule_regeneration` and `schedule_series_regeneration`: the timer of what was asked for is
armed anew and the one before it aborted.
-/
def schedule (env : Env) (s : State) (target : Target) (title : String) (delay : Option ℕ) : State :=
  if s.timers.stopped then s
  else
    let slot := (s.timers.slot target).getD {}
    let (debouncer, wait) := slot.debouncer.schedule env.policy s.now delay
    let generation := s.timers.generation + 1
    let tasks := slot.task.elim s.tasks
      (fun old => Function.update s.tasks old ((s.tasks old).bind Task.aborted))
    { s with
      timers := { s.timers with generation := generation }.arm target
        ⟨debouncer, generation, some generation⟩ title
      tasks := Function.update tasks generation (some ⟨target, s.now, wait, .spawned⟩)
      log := s.log ++ [.called target s.now generation]
    }

/-- `schedule_regeneration`. -/
def scheduleRegeneration (env : Env) (s : State) (delay : Option ℕ) : State :=
  s.schedule env .full "" delay

/-- `schedule_series_regeneration`. -/
def scheduleSeriesRegeneration (env : Env) (s : State) (seriesTitle : String) (delay : Option ℕ)
    : State :=
  s.schedule env (.series (env.titleKey seriesTitle)) seriesTitle delay

/-- The task runs for the first time and begins its sleep. -/
def poll (s : State) (generation : ℕ) : State :=
  match s.tasks generation with
  | some ⟨target, called, wait, .spawned⟩ =>
      s.setTask generation (some ⟨target, called, wait, .sleeping s.now⟩)
  | _ => s

def wake (s : State) (generation : ℕ) : State :=
  match s.tasks generation with
  | some ⟨target, called, wait, .sleeping since⟩ =>
      if since + wait ≤ s.now then s.setTask generation (some ⟨target, called, wait, .woken⟩) else s
  | _ => s

/-- `fire_full` and `fire_series`, as far as the lock of the timers goes: a timer that was replaced
ends here.
-/
def fire (s : State) (generation : ℕ) : State :=
  match s.tasks generation with
  | some ⟨target, called, wait, .woken⟩ =>
      if s.timers.stopped ∨ (s.timers.slot target).map Slot.generation ≠ some generation then
        s.setTask generation none
      else { s with
        timers := s.timers.disarm target
        tasks := Function.update s.tasks generation
          (some ⟨target, called, wait, .firing (s.timers.title target)⟩)
        log := s.log ++ [.fired target generation]
      }
  | _ => s

def WorkQueue.add (queue : WorkQueue) (title : String) : Target → WorkQueue
  | .full => { queue with full := true }
  | .series key => { queue with series := queue.series.insert key title }

/-- `enqueue`, as far as the lock of the queue goes. -/
def enqueue (s : State) (generation : ℕ) : State :=
  match s.tasks generation with
  | some ⟨target, called, wait, .firing title⟩ =>
      if s.queue.stopped then s.setTask generation none
      else { s.setTask generation (some ⟨target, called, wait, .queued⟩) with
        queue := WorkQueue.add s.queue title target
      }
  | _ => s

/-- `ensure_worker`, and the wake-up. -/
def notify (s : State) (generation : ℕ) : State :=
  match s.tasks generation with
  | some ⟨_, _, _, .queued⟩ => { s.setTask generation none with
      worker := match s.worker with
        | none => some .starting
        | some (.waiting _) => some .awake
        | other => other
    }
  | _ => s

/-- The loop of `next_work`. -/
def nextWork (env : Env) (s : State) : State :=
  if s.queue.stopped then { s with worker := some .exited }
  else if s.queue.full then { s with
    queue := { s.queue with full := false, series := .empty, running := true }
    worker := some (.working .full)
    log := s.log ++ [.started .full]
  }
  else if s.queue.series.isEmpty then { s with worker := some (.waiting none) }
  else
    match (s.queue.lastBatch.map (· + env.batchGap)).filter (s.now < ·) with
    | some next => { s with worker := some (.waiting (some next)) }
    | none =>
        let titles := s.queue.series.values.insertionSort (· ≤ ·)
        { s with
          queue := { s.queue with lastBatch := some s.now, series := .empty, running := true }
          worker := some (.working (.series titles))
          log := s.log ++ [.started (.series titles)]
        }

/-- The metadata thread goes on: it begins, ends its pass, or looks at the queue again. -/
def work (env : Env) (s : State) : State :=
  match s.worker with
  | some .starting => { s with queue := { s.queue with running := false } }.nextWork env
  | some (.working _) =>
      { s with
        queue := { s.queue with running := false }
        log := s.log ++ [Event.finished]
      }.nextWork env
  | some .awake => s.nextWork env
  | _ => s

/-- The worker has waited for as long as it would. -/
def timeout (s : State) : State :=
  match s.worker with
  | some (.waiting (some next)) => if next ≤ s.now then { s with worker := some .awake } else s
  | _ => s

/-- `stop`, as far as the lock of the timers goes. -/
def stopTimers (s : State) : State :=
  let abort := fun (tasks : ℕ → Option Task) (slot : Slot) => slot.task.elim tasks
    (fun old => Function.update tasks old ((tasks old).bind Task.aborted))
  { s with
    timers := { s.timers with
      stopped := true
      full := { s.timers.full with task := none }
      series := .empty
    }
    tasks := (s.timers.series.values.map Prod.fst).foldl abort (abort s.tasks s.timers.full)
  }

/-- The worker's `stop`. -/
def stopWorker (s : State) : State :=
  if s.timers.stopped then { s with
    queue := { s.queue with stopped := true, full := false, series := .empty }
    worker := match s.worker with
      | some (.waiting _) => some .awake
      | other => other
  }
  else s

end State

/-- What happens next. -/
inductive Step where
  | pass (elapsed : ℕ)
  | scheduleRegeneration (delay : Option ℕ)
  | scheduleSeriesRegeneration (seriesTitle : String) (delay : Option ℕ)
  | poll (generation : ℕ)
  | wake (generation : ℕ)
  | fire (generation : ℕ)
  | enqueue (generation : ℕ)
  | notify (generation : ℕ)
  | work
  | timeout
  | stopTimers
  | stopWorker

def State.step (env : Env) (s : State) : Step → State
  | .pass elapsed => { s with now := s.now + elapsed }
  | .scheduleRegeneration delay => s.scheduleRegeneration env delay
  | .scheduleSeriesRegeneration seriesTitle delay => s.scheduleSeriesRegeneration env seriesTitle delay
  | .poll generation => s.poll generation
  | .wake generation => s.wake generation
  | .fire generation => s.fire generation
  | .enqueue generation => s.enqueue generation
  | .notify generation => s.notify generation
  | .work => s.work env
  | .timeout => s.timeout
  | .stopTimers => s.stopTimers
  | .stopWorker => s.stopWorker

end MokuroBunko.Library.Regen
