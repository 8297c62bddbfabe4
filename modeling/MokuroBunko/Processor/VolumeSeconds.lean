import Mathlib.Algebra.BigOperators.Group.List.Basic
import Mathlib.Algebra.Order.Ring.Nat
import Mathlib.Data.Finset.Union
import Mathlib.Order.Interval.Finset.Nat

/-! The seconds of a session's volumes (`work` and `report` of `session.rs`): workers take volumes off
one queue and time them, and the reporter cuts the stretches of the clock that overlap, in the order
the volumes were handed over. Moments are nanoseconds.
-/

namespace MokuroBunko.Processor.VolumeSeconds

-- The reporter

/-- `Terminal`, as far as the seconds read it. -/
structure Terminal where
  seq : ℕ
  released : Bool
  fedAt : ℕ
  finishedAt : ℕ
  deriving DecidableEq

/-- A volume finished by the reporter, with the stretch of the clock that is its own; one that was
released has none.
-/
structure Finished where
  terminal : Terminal
  span : Option (ℕ × ℕ)
  deriving DecidableEq

/-- What the reporter keeps, and what it has told, first to last. -/
structure Reporter where
  pending : List Terminal := []
  nextSeq : ℕ := 0
  previousEnd : Option ℕ := none
  told : List Finished := []
  deriving DecidableEq

namespace Reporter

/-- The body of the loop over the terminals in order. -/
def tell (reporter : Reporter) (terminal : Terminal) : Reporter :=
  if terminal.released then
    { reporter with
      nextSeq := reporter.nextSeq + 1
      told := reporter.told ++ [{ terminal, span := none }] }
  else
    let finish := reporter.previousEnd.elim terminal.finishedAt (max · terminal.finishedAt)
    let start := reporter.previousEnd.elim terminal.fedAt (max · terminal.fedAt)
    { reporter with
      nextSeq := reporter.nextSeq + 1
      previousEnd := some finish
      told := reporter.told ++ [{ terminal, span := some (start, finish) }] }

/-- The loop, for as many terminals as there may be: each turn takes one out of `pending`. -/
def drain : ℕ → Reporter → Reporter
  | 0, reporter => reporter
  | fuel + 1, reporter =>
      match reporter.pending.find? (·.seq == reporter.nextSeq) with
      | none => reporter
      | some terminal =>
          drain fuel (tell
            { reporter with pending := reporter.pending.eraseP (·.seq == reporter.nextSeq) } terminal)

/-- `Msg::Terminal`. -/
def receive (reporter : Reporter) (terminal : Terminal) : Reporter :=
  let pending := terminal :: reporter.pending.eraseP (·.seq == terminal.seq)
  drain pending.length { reporter with pending }

/-- The volumes told of that were not released, in hand-over order. -/
def processed (reporter : Reporter) : List Terminal :=
  (reporter.told.map Finished.terminal).filter (!·.released)

/-- The stretches that the volumes were given. -/
def spans (reporter : Reporter) : List (ℕ × ℕ) := reporter.told.filterMap Finished.span

end Reporter

-- The session

/-- Where a worker is in its loop. -/
inductive Worker where
  | waiting
  | received (seq : ℕ)
  | fed (seq fedAt : ℕ)
  | running (seq fedAt : ℕ)
  | finished (terminal : Terminal)
  deriving DecidableEq

/-- A session: the clock, the volumes handed over and those of them nobody took yet, the workers, and
the terminals on their way to the reporter; `sent` are all that were ever sent.
-/
structure Session where
  now : ℕ := 0
  handed : ℕ := 0
  queue : List ℕ := []
  workers : List Worker
  reports : List Terminal := []
  reporter : Reporter := {}
  sent : List Terminal := []
  deriving DecidableEq

/-- A session with as many workers. -/
def Session.start (workers : ℕ) : Session := { workers := List.replicate workers .waiting }

/-- What may happen next: time passes, a volume is handed over, a worker takes one off the queue,
reads the clock, gives the volume back unprocessed (released, cancelled or after a fatal error),
starts it, ends it, sends its terminal, or the reporter receives one.
-/
inductive Step where
  | pass (elapsed : ℕ)
  | hand
  | take (worker : ℕ)
  | feed (worker : ℕ)
  | giveBack (worker : ℕ) (released : Bool)
  | run (worker : ℕ)
  | finish (worker : ℕ)
  | send (worker : ℕ)
  | report
  deriving DecidableEq

namespace Session

/-- The session with the worker elsewhere in its loop. -/
def put (s : Session) (worker : ℕ) (phase : Worker) : Session :=
  { s with workers := s.workers.set worker phase }

/-- A step that cannot be taken changes nothing. -/
def step (s : Session) : Step → Session
  | .pass elapsed => { s with now := s.now + elapsed }
  | .hand => { s with handed := s.handed + 1, queue := s.queue ++ [s.handed] }
  | .take worker =>
      match s.workers[worker]?, s.queue with
      | some .waiting, seq :: rest => { s.put worker (.received seq) with queue := rest }
      | _, _ => s
  | .feed worker =>
      match s.workers[worker]? with
      | some (.received seq) => s.put worker (.fed seq s.now)
      | _ => s
  | .giveBack worker released =>
      match s.workers[worker]? with
      | some (.fed seq fedAt) =>
          s.put worker (.finished { seq, released, fedAt, finishedAt := fedAt })
      | _ => s
  | .run worker =>
      match s.workers[worker]? with
      | some (.fed seq fedAt) => s.put worker (.running seq fedAt)
      | _ => s
  | .finish worker =>
      match s.workers[worker]? with
      | some (.running seq fedAt) =>
          s.put worker (.finished { seq, released := false, fedAt, finishedAt := s.now })
      | _ => s
  | .send worker =>
      match s.workers[worker]? with
      | some (.finished terminal) =>
          { s.put worker .waiting with
            reports := s.reports ++ [terminal]
            sent := s.sent ++ [terminal] }
      | _ => s
  | .report =>
      match s.reports with
      | terminal :: rest => { s with reports := rest, reporter := s.reporter.receive terminal }
      | [] => s

/-- Every volume handed over was processed or given back, and the reporter knows. -/
structure Settled (s : Session) : Prop where
  queue : s.queue = []
  workers : ∀ worker ∈ s.workers, worker = .waiting
  reports : s.reports = []

end Session

-- Stretches of the clock

/-- The moments at which at least one of the volumes was being processed. -/
def busy (volumes : List Terminal) : Finset ℕ :=
  volumes.toFinset.biUnion fun terminal => Finset.Ico terminal.fedAt terminal.finishedAt

/-- The stretches do not run backwards, share no moment, and are as long together as the time at
which at least one volume was being processed.
-/
structure Partition (spans : List (ℕ × ℕ)) (volumes : List Terminal) : Prop where
  forward : ∀ span ∈ spans, span.1 ≤ span.2
  disjoint : spans.Pairwise fun first second =>
    Disjoint (Finset.Ico first.1 first.2) (Finset.Ico second.1 second.2)
  total : (spans.map fun span => span.2 - span.1).sum = (busy volumes).card

theorem mem_busy {volumes : List Terminal} {moment : ℕ}
    : moment ∈ busy volumes
      ↔ ∃ terminal ∈ volumes, terminal.fedAt ≤ moment ∧ moment < terminal.finishedAt := by
  simp [busy]

/-- What the reporter has told is a partition, all of it before the end it keeps, which is where some
volume finished.
-/
structure Cut (previousEnd : Option ℕ) (spans : List (ℕ × ℕ)) (volumes : List Terminal) : Prop where
  partition : Partition spans volumes
  ended : ∀ span ∈ spans, ∃ last ∈ previousEnd, span.2 ≤ last
  finished : ∀ terminal ∈ volumes, ∃ last ∈ previousEnd, terminal.finishedAt ≤ last
  reached : ∀ last ∈ previousEnd, ∃ terminal ∈ volumes, terminal.finishedAt = last

theorem Cut.empty : Cut none [] [] where
  partition := ⟨nofun, .nil, by simp [busy]⟩
  ended := nofun
  finished := nofun
  reached := nofun

theorem busy_append {previousEnd : Option ℕ} {spans : List (ℕ × ℕ)} {volumes : List Terminal}
    {terminal : Terminal} (cut : Cut previousEnd spans volumes)
    (inOrder : ∀ earlier ∈ volumes, earlier.fedAt ≤ terminal.fedAt)
    : busy (volumes ++ [terminal]) = busy volumes ∪
        Finset.Ico (previousEnd.elim terminal.fedAt (max · terminal.fedAt))
          (previousEnd.elim terminal.finishedAt (max · terminal.finishedAt)) := by
  ext moment
  simp only [Finset.mem_union, mem_busy, List.mem_append, List.mem_singleton, Finset.mem_Ico]
  cases previousEnd with
  | none =>
      have none : volumes = [] := by
        rcases volumes with _ | ⟨first, rest⟩
        · rfl
        · obtain ⟨last, isIn, -⟩ := cut.finished first (.head _)
          cases isIn
      simp [none]
  | some last =>
      obtain ⟨ender, isIn, ends⟩ := cut.reached last rfl
      have order := inOrder ender isIn
      simp only [Option.elim_some]
      constructor
      · rintro ⟨other, known | rfl, low, high⟩
        · exact .inl ⟨other, known, low, high⟩
        · by_cases before : moment < last
          · exact .inl ⟨ender, isIn, order.trans low, by omega⟩
          · exact .inr (by omega)
      · rintro (⟨other, known, low, high⟩ | ⟨low, high⟩)
        · exact ⟨other, .inl known, low, high⟩
        · exact ⟨terminal, .inr rfl, by omega, by omega⟩

theorem Cut.append {previousEnd : Option ℕ} {spans : List (ℕ × ℕ)} {volumes : List Terminal}
    {terminal : Terminal} (cut : Cut previousEnd spans volumes)
    (inOrder : ∀ earlier ∈ volumes, earlier.fedAt ≤ terminal.fedAt)
    (ends : terminal.fedAt ≤ terminal.finishedAt)
    : Cut (some (previousEnd.elim terminal.finishedAt (max · terminal.finishedAt)))
        (spans ++ [(previousEnd.elim terminal.fedAt (max · terminal.fedAt),
          previousEnd.elim terminal.finishedAt (max · terminal.finishedAt))])
        (volumes ++ [terminal]) := by
  have forward : previousEnd.elim terminal.fedAt (max · terminal.fedAt)
      ≤ previousEnd.elim terminal.finishedAt (max · terminal.finishedAt) := by
    cases previousEnd with
    | none => exact ends
    | some last => exact max_le_max_left last ends
  have apart : Disjoint (busy volumes)
      (Finset.Ico (previousEnd.elim terminal.fedAt (max · terminal.fedAt))
        (previousEnd.elim terminal.finishedAt (max · terminal.finishedAt))) := by
    rw [Finset.disjoint_left]
    intro moment inBusy inSpan
    obtain ⟨other, known, -, high⟩ := mem_busy.mp inBusy
    obtain ⟨last, isLast, le⟩ := cut.finished other known
    rw [Option.mem_def] at isLast
    rw [isLast, Finset.mem_Ico] at inSpan
    simp only [Option.elim_some] at inSpan
    omega
  refine ⟨⟨?_, ?_, ?_⟩, ?_, ?_, ?_⟩
  · intro span isIn
    rcases List.mem_append.mp isIn with old | new
    · exact cut.partition.forward span old
    · obtain rfl := List.mem_singleton.mp new
      exact forward
  · refine List.pairwise_append.mpr ⟨cut.partition.disjoint, List.pairwise_singleton .., ?_⟩
    intro span isIn new isNew
    obtain rfl := List.mem_singleton.mp isNew
    obtain ⟨last, isLast, le⟩ := cut.ended span isIn
    rw [Option.mem_def] at isLast
    rw [Finset.disjoint_left]
    intro moment inOld inNew
    rw [isLast] at inNew
    simp only [Finset.mem_Ico, Option.elim_some] at inOld inNew
    omega
  · rw [busy_append cut inOrder, Finset.card_union_of_disjoint apart, Nat.card_Ico,
      ← cut.partition.total]
    simp
  · intro span isIn
    refine ⟨_, rfl, ?_⟩
    rcases List.mem_append.mp isIn with old | new
    · obtain ⟨last, isLast, le⟩ := cut.ended span old
      rw [Option.mem_def] at isLast
      rw [isLast]
      exact le.trans (le_max_left ..)
    · obtain rfl := List.mem_singleton.mp new
      exact le_rfl
  · intro other isIn
    refine ⟨_, rfl, ?_⟩
    rcases List.mem_append.mp isIn with old | new
    · obtain ⟨last, isLast, le⟩ := cut.finished other old
      rw [Option.mem_def] at isLast
      rw [isLast]
      exact le.trans (le_max_left ..)
    · obtain rfl := List.mem_singleton.mp new
      cases previousEnd with
      | none => exact le_rfl
      | some last => exact le_max_right ..
  · rintro last ⟨⟩
    cases previousEnd with
    | none => exact ⟨terminal, by simp, rfl⟩
    | some last =>
        rcases le_total last terminal.finishedAt with le | le
        · exact ⟨terminal, by simp, (max_eq_right le).symm⟩
        · obtain ⟨ender, isIn, ends⟩ := cut.reached last rfl
          exact ⟨ender, List.mem_append_left _ isIn, by rw [ends]; exact (max_eq_left le).symm⟩

-- What the reporter keeps

namespace Reporter

/-- The volumes were told of in hand-over order, and cut as they are where they were taken in that
order.
-/
structure Ok (reporter : Reporter) : Prop where
  order : reporter.told.map (·.terminal.seq) = List.range reporter.nextSeq
  ends : ∀ terminal ∈ reporter.pending, terminal.fedAt ≤ terminal.finishedAt
  cut : reporter.processed.Pairwise (fun first second => first.fedAt ≤ second.fedAt) →
    Cut reporter.previousEnd reporter.spans reporter.processed

theorem Ok.tell {reporter : Reporter} {terminal : Terminal} (ok : reporter.Ok)
    (next : terminal.seq = reporter.nextSeq) (ends : terminal.fedAt ≤ terminal.finishedAt)
    : (reporter.tell terminal).Ok := by
  rcases released : terminal.released with _ | _
  · have processed : (reporter.tell terminal).processed = reporter.processed ++ [terminal] := by
      simp [Reporter.tell, released, Reporter.processed]
    refine ⟨?_, ?_, fun inOrder => ?_⟩
    · simp [Reporter.tell, released, ok.order, next, List.range_succ]
    · simpa [Reporter.tell, released] using ok.ends
    · rw [processed] at inOrder ⊢
      obtain ⟨before, -, last⟩ := List.pairwise_append.mp inOrder
      have cut := (ok.cut before).append (fun earlier isIn => last earlier isIn terminal (.head _)) ends
      simpa [Reporter.tell, released, spans] using cut
  · have processed : (reporter.tell terminal).processed = reporter.processed := by
      simp [Reporter.tell, released, Reporter.processed]
    refine ⟨?_, ?_, fun inOrder => ?_⟩
    · simp [Reporter.tell, released, ok.order, next, List.range_succ]
    · simpa [Reporter.tell, released] using ok.ends
    · rw [processed] at inOrder ⊢
      simpa [Reporter.tell, released, spans] using ok.cut inOrder

theorem drain_none {fuel : ℕ} {reporter : Reporter}
    (missing : reporter.pending.find? (·.seq == reporter.nextSeq) = none)
    : reporter.drain (fuel + 1) = reporter := by
  simp only [drain, missing]

theorem drain_some {fuel : ℕ} {reporter : Reporter} {terminal : Terminal}
    (found : reporter.pending.find? (·.seq == reporter.nextSeq) = some terminal)
    : reporter.drain (fuel + 1) = drain fuel
        (tell { reporter with pending := reporter.pending.eraseP (·.seq == reporter.nextSeq) }
          terminal) := by
  simp only [drain, found]

theorem Ok.drain {reporter : Reporter} (ok : reporter.Ok) (fuel : ℕ) : (reporter.drain fuel).Ok := by
  induction fuel generalizing reporter with
  | zero => exact ok
  | succ fuel ih =>
      rcases found : reporter.pending.find? (·.seq == reporter.nextSeq) with _ | terminal
      · rw [drain_none found]
        exact ok
      · rw [drain_some found]
        have next : terminal.seq = reporter.nextSeq := by simpa using List.find?_some found
        apply ih
        exact Ok.tell ⟨ok.order, fun other isIn => ok.ends other (List.mem_of_mem_eraseP isIn), ok.cut⟩
          next (ok.ends terminal (List.mem_of_find?_eq_some found))

theorem drain_ready {fuel : ℕ} {reporter : Reporter} (enough : reporter.pending.length ≤ fuel)
    : (reporter.drain fuel).pending.find? (·.seq == (reporter.drain fuel).nextSeq) = none := by
  induction fuel generalizing reporter with
  | zero =>
      have empty : reporter.pending = [] := List.length_eq_zero_iff.mp (Nat.le_zero.mp enough)
      simp [drain, empty]
  | succ fuel ih =>
      rcases found : reporter.pending.find? (·.seq == reporter.nextSeq) with _ | terminal
      · rw [drain_none found]
        exact found
      · rw [drain_some found]
        apply ih
        have isIn := List.mem_of_find?_eq_some found
        have shorter := List.length_eraseP_of_mem isIn (List.find?_some found)
        have pending (other : Reporter) : (other.tell terminal).pending = other.pending := by
          rw [tell]
          split <;> rfl
        rw [pending]
        simp only at shorter ⊢
        omega

/-- What the reporter was sent and keeps or has told of. -/
def known (reporter : Reporter) : List Terminal :=
  reporter.pending ++ reporter.told.map Finished.terminal

theorem perm_of_find? {chosen : Terminal → Bool} {terminals : List Terminal} {terminal : Terminal}
    (found : terminals.find? chosen = some terminal)
    : terminals.Perm (terminal :: terminals.eraseP chosen) := by
  induction terminals with
  | nil => cases found
  | cons head rest ih =>
      rcases meets : chosen head with _ | _
      · rw [List.find?_cons_of_neg (by simp [meets])] at found
        rw [List.eraseP_cons_of_neg (by simp [meets])]
        exact ((ih found).cons head).trans (.swap ..)
      · rw [List.find?_cons_of_pos meets] at found
        rw [List.eraseP_cons_of_pos meets, Option.some.inj found]

theorem known_drain (fuel : ℕ) (reporter : Reporter)
    : (reporter.drain fuel).known.Perm reporter.known := by
  induction fuel generalizing reporter with
  | zero => exact .rfl
  | succ fuel ih =>
      rcases found : reporter.pending.find? (·.seq == reporter.nextSeq) with _ | terminal
      · rw [drain_none found]
      · rw [drain_some found]
        have told (other : Reporter) : (other.tell terminal).known = other.known ++ [terminal] := by
          rw [known, known, tell]
          split <;> simp
        refine (ih _).trans ?_
        rw [told, known, known]
        refine (List.perm_append_singleton ..).trans ?_
        exact ((perm_of_find? found).append_right _).symm

theorem known_receive {reporter : Reporter} {terminal : Terminal}
    (fresh : ∀ other ∈ reporter.pending, other.seq ≠ terminal.seq)
    : (reporter.receive terminal).known.Perm (terminal :: reporter.known) := by
  rw [receive, List.eraseP_of_forall_not (by simpa using fresh)]
  exact known_drain ..

theorem Ok.receive {reporter : Reporter} {terminal : Terminal} (ok : reporter.Ok)
    (ends : terminal.fedAt ≤ terminal.finishedAt)
    : (reporter.receive terminal).Ok := by
  have all : ∀ other ∈ terminal :: reporter.pending.eraseP (·.seq == terminal.seq),
      other.fedAt ≤ other.finishedAt := by
    intro other isIn
    rcases List.mem_cons.mp isIn with rfl | old
    · exact ends
    · exact ok.ends other (List.mem_of_mem_eraseP old)
  have filed : Reporter.Ok { reporter with
      pending := terminal :: reporter.pending.eraseP (·.seq == terminal.seq) } :=
    ⟨ok.order, all, ok.cut⟩
  exact filed.drain _

theorem receive_ready (reporter : Reporter) (terminal : Terminal)
    : (reporter.receive terminal).pending.find?
        (·.seq == (reporter.receive terminal).nextSeq) = none :=
  drain_ready le_rfl

end Reporter

-- What a session keeps

/-- The volume a worker has in hand. -/
def Worker.seqs : Worker → List ℕ
  | .waiting => []
  | .received seq => [seq]
  | .fed seq _ => [seq]
  | .running seq _ => [seq]
  | .finished terminal => [terminal.seq]

/-- A volume is taken before now, and before it is finished. -/
def Worker.Timed (now : ℕ) : Worker → Prop
  | .waiting => True
  | .received _ => True
  | .fed _ fedAt => fedAt ≤ now
  | .running _ fedAt => fedAt ≤ now
  | .finished terminal => terminal.fedAt ≤ terminal.finishedAt

theorem Worker.Timed.later {now later : ℕ} {worker : Worker} (timed : worker.Timed now)
    (le : now ≤ later)
    : worker.Timed later := by
  cases worker with
  | waiting => trivial
  | received seq => trivial
  | fed seq fedAt => exact timed.trans le
  | running seq fedAt => exact timed.trans le
  | finished terminal => exact timed

namespace Session

/-- The numbers of the volumes, each where it is. -/
def seqs (s : Session) : List ℕ :=
  s.queue ++ s.workers.flatMap Worker.seqs ++ s.reports.map Terminal.seq
    ++ s.reporter.known.map Terminal.seq

/-- Each volume is in one place, and each terminal sent is on its way or known. -/
structure Ok (s : Session) : Prop where
  reporter : s.reporter.Ok
  ready : s.reporter.pending.find? (·.seq == s.reporter.nextSeq) = none
  timed : ∀ worker ∈ s.workers, worker.Timed s.now
  ends : ∀ terminal ∈ s.reports, terminal.fedAt ≤ terminal.finishedAt
  seqs : s.seqs.Perm (List.range s.handed)
  sent : s.sent.Perm (s.reports ++ s.reporter.known)

theorem start_ok (workers : ℕ) : (start workers).Ok where
  reporter := ⟨rfl, nofun, fun _ => .empty⟩
  ready := rfl
  timed worker isIn := by
    rw [List.eq_of_mem_replicate isIn]
    trivial
  ends := nofun
  seqs := by simp [Session.seqs, start, Reporter.known, Worker.seqs]
  sent := .rfl

theorem seqs_set {workers : List Worker} {worker : ℕ} {old : Worker} (phase : Worker)
    (isAt : workers[worker]? = some old)
    : (old.seqs ++ (workers.set worker phase).flatMap Worker.seqs).Perm
        (phase.seqs ++ workers.flatMap Worker.seqs) := by
  induction workers generalizing worker with
  | nil => cases isAt
  | cons head rest ih =>
      cases worker with
      | zero =>
          obtain rfl := Option.some.inj isAt
          simp only [List.set_cons_zero, List.flatMap_cons]
          rw [← List.append_assoc, ← List.append_assoc]
          exact List.perm_append_comm.append_right _
      | succ worker =>
          simp only [List.set_cons_succ, List.flatMap_cons]
          have moved := (ih isAt).append_left head.seqs
          refine (List.perm_append_comm_assoc ..).trans (moved.trans ?_)
          exact List.perm_append_comm_assoc ..

theorem Ok.put {s : Session} {worker : ℕ} {old phase : Worker} (ok : s.Ok)
    (isAt : s.workers[worker]? = some old) (same : phase.seqs = old.seqs) (timed : phase.Timed s.now)
    : (s.put worker phase).Ok where
  reporter := ok.reporter
  ready := ok.ready
  timed other isIn := by
    rcases List.mem_or_eq_of_mem_set isIn with known | rfl
    · exact ok.timed other known
    · exact timed
  ends := ok.ends
  seqs := by
    have moved := seqs_set phase isAt
    rw [same, List.perm_append_left_iff] at moved
    exact (((moved.append_left _).append_right _).append_right _).trans ok.seqs
  sent := ok.sent

theorem Ok.take {s : Session} {worker seq : ℕ} {rest : List ℕ} (ok : s.Ok)
    (isAt : s.workers[worker]? = some .waiting) (queue : s.queue = seq :: rest)
    : Ok { s.put worker (.received seq) with queue := rest } where
  reporter := ok.reporter
  ready := ok.ready
  timed other isIn := by
    rcases List.mem_or_eq_of_mem_set isIn with known | rfl
    · exact ok.timed other known
    · trivial
  ends := ok.ends
  seqs := by
    have moved : ((s.workers.set worker (.received seq)).flatMap Worker.seqs).Perm
        (seq :: s.workers.flatMap Worker.seqs) := seqs_set (.received seq) isAt
    refine List.Perm.trans ?_ ok.seqs
    refine List.Perm.append_right _ (List.Perm.append_right _ ?_)
    rw [queue]
    exact (moved.append_left rest).trans List.perm_middle
  sent := ok.sent

theorem Ok.send {s : Session} {worker : ℕ} {terminal : Terminal} (ok : s.Ok)
    (isAt : s.workers[worker]? = some (.finished terminal))
    : Ok { s.put worker .waiting with
        reports := s.reports ++ [terminal]
        sent := s.sent ++ [terminal] } where
  reporter := ok.reporter
  ready := ok.ready
  timed other isIn := by
    rcases List.mem_or_eq_of_mem_set isIn with known | rfl
    · exact ok.timed other known
    · trivial
  ends other isIn := by
    rcases List.mem_append.mp isIn with known | new
    · exact ok.ends other known
    · obtain rfl := List.mem_singleton.mp new
      exact ok.timed _ (List.mem_of_getElem? isAt)
  seqs := by
    have moved : (terminal.seq :: (s.workers.set worker .waiting).flatMap Worker.seqs).Perm
        (s.workers.flatMap Worker.seqs) := seqs_set .waiting isAt
    refine List.Perm.trans ?_ ok.seqs
    refine List.Perm.append_right _ ?_
    rw [List.map_append, List.append_assoc, List.append_assoc]
    refine List.Perm.append_left _ ?_
    refine List.Perm.trans ?_ (moved.append_right _)
    rw [← List.append_assoc]
    exact List.perm_append_singleton ..
  sent := by
    refine (ok.sent.append_right [terminal]).trans ?_
    rw [List.append_assoc, List.append_assoc]
    exact List.perm_append_comm.append_left s.reports

theorem Ok.report {s : Session} {terminal : Terminal} {rest : List Terminal} (ok : s.Ok)
    (reports : s.reports = terminal :: rest)
    : Ok { s with reports := rest, reporter := s.reporter.receive terminal } := by
  have unique : s.seqs.Nodup := ok.seqs.nodup_iff.mpr List.nodup_range
  have fresh : ∀ other ∈ s.reporter.pending, other.seq ≠ terminal.seq := by
    intro other isIn same
    rw [Session.seqs, List.nodup_append, reports] at unique
    exact unique.2.2 terminal.seq (List.mem_append_right _ (List.mem_cons_self ..)) other.seq
      (List.mem_map_of_mem (List.mem_append_left _ isIn)) same.symm
  have known := s.reporter.known_receive fresh
  exact {
    reporter := ok.reporter.receive (ok.ends terminal (by simp [reports]))
    ready := s.reporter.receive_ready terminal
    timed := ok.timed
    ends := fun other isIn => ok.ends other (by simp [reports, isIn])
    seqs := by
      refine List.Perm.trans ?_ ok.seqs
      rw [Session.seqs, Session.seqs, reports]
      refine ((known.map _).append_left _).trans ?_
      simp only [List.map_cons, List.append_assoc, List.cons_append]
      refine (List.Perm.append_left _ (List.Perm.append_left _ ?_))
      exact List.perm_middle
    sent := by
      refine ok.sent.trans ?_
      rw [reports]
      exact (List.perm_middle.symm).trans ((known.symm).append_left rest) }

theorem Ok.step {s : Session} (ok : s.Ok) (taken : Step) : (s.step taken).Ok := by
  cases taken with
  | pass elapsed =>
      exact { ok with timed := fun worker isIn => (ok.timed worker isIn).later (Nat.le_add_right ..) }
  | hand =>
      refine { ok with seqs := ?_ }
      have placed : (Session.seqs { s with queue := s.queue ++ [s.handed] }).Perm
          (s.seqs ++ [s.handed]) := by
        simp only [Session.seqs, List.append_assoc]
        exact (List.perm_append_comm.trans (by simp)).append_left s.queue
      change (Session.seqs { s with queue := s.queue ++ [s.handed] }).Perm (List.range (s.handed + 1))
      rw [List.range_succ]
      exact placed.trans (ok.seqs.append_right [s.handed])
  | take worker =>
      simp only [Session.step]
      split
      · next isAt queue => exact ok.take isAt queue
      · exact ok
  | feed worker =>
      simp only [Session.step]
      split
      · next isAt => exact ok.put isAt rfl le_rfl
      · exact ok
  | giveBack worker released =>
      simp only [Session.step]
      split
      · next isAt => exact ok.put isAt rfl le_rfl
      · exact ok
  | run worker =>
      simp only [Session.step]
      split
      · next seq fedAt isAt =>
          have fed : Worker.Timed s.now (.fed seq fedAt) := ok.timed _ (List.mem_of_getElem? isAt)
          exact ok.put isAt rfl fed
      · exact ok
  | finish worker =>
      simp only [Session.step]
      split
      · next seq fedAt isAt =>
          have fed : Worker.Timed s.now (.running seq fedAt) := ok.timed _ (List.mem_of_getElem? isAt)
          exact ok.put isAt rfl fed
      · exact ok
  | send worker =>
      simp only [Session.step]
      split
      · next isAt => exact ok.send isAt
      · exact ok
  | report =>
      simp only [Session.step]
      split
      · next reports => exact ok.report reports
      · exact ok

theorem run_ok (workers : ℕ) (run : List Step) : (run.foldl Session.step (start workers)).Ok := by
  exact List.foldlRecOn run Session.step (start_ok workers) (fun s ok taken _ => ok.step taken)

theorem Ok.settled_seqs {s : Session} (ok : s.Ok) (settled : s.Settled)
    : (s.reporter.pending.map Terminal.seq ++ List.range s.reporter.nextSeq).Perm
        (List.range s.handed) := by
  have idle : s.workers.flatMap Worker.seqs = [] := by
    rw [List.flatMap_eq_nil_iff]
    intro worker isIn
    rw [settled.workers worker isIn]
    rfl
  have told : s.reporter.told.map (Terminal.seq ∘ Finished.terminal)
      = List.range s.reporter.nextSeq := ok.reporter.order
  have seqs := ok.seqs
  rw [Session.seqs, settled.queue, idle, settled.reports, Reporter.known, List.map_append,
    List.map_map, told] at seqs
  exact seqs

theorem Ok.pending_eq_nil {s : Session} (ok : s.Ok) (settled : s.Settled) : s.reporter.pending = [] := by
  have seqs := ok.settled_seqs settled
  have unique : (s.reporter.pending.map Terminal.seq ++ List.range s.reporter.nextSeq).Nodup :=
    seqs.nodup_iff.mpr List.nodup_range
  have mem (seq : ℕ) : (seq ∈ s.reporter.pending.map Terminal.seq ∨ seq < s.reporter.nextSeq)
      ↔ seq < s.handed := by
    have both := seqs.mem_iff (a := seq)
    simpa using both
  by_contra waits
  obtain ⟨terminal, isIn⟩ := List.exists_mem_of_ne_nil _ waits
  have isPending : terminal.seq ∈ s.reporter.pending.map Terminal.seq := List.mem_map_of_mem isIn
  have handed : terminal.seq < s.handed := (mem _).mp (.inl isPending)
  have later : s.reporter.nextSeq ≤ terminal.seq := by
    by_contra earlier
    exact (List.nodup_append.mp unique).2.2 terminal.seq isPending terminal.seq
      (List.mem_range.mpr (by omega)) rfl
  -- The volume the reporter waits for was handed over, so it is known: among the pending ones.
  rcases (mem s.reporter.nextSeq).mpr (by omega) with isThere | less
  · obtain ⟨next, known, same⟩ := List.mem_map.mp isThere
    exact absurd (List.find?_eq_none.mp ok.ready next known) (by simp [same])
  · omega

/-- After any run, the seconds of the volumes told of partition the time at which at least one of them
was being processed, if the volumes were taken in hand-over order; and a session that is settled has
told of every volume that its workers sent.
-/
theorem seconds_partition (workers : ℕ) (run : List Step)
    (inOrder : (run.foldl step (start workers)).reporter.processed.Pairwise
      fun first second => first.fedAt ≤ second.fedAt)
    : ((run.foldl step (start workers)).reporter.told.map (·.terminal.seq)
        = List.range (run.foldl step (start workers)).reporter.nextSeq)
      ∧ Partition (run.foldl step (start workers)).reporter.spans
          (run.foldl step (start workers)).reporter.processed
      ∧ ((run.foldl step (start workers)).Settled →
          (run.foldl step (start workers)).reporter.nextSeq = (run.foldl step (start workers)).handed
          ∧ (run.foldl step (start workers)).reporter.processed.Perm
              ((run.foldl step (start workers)).sent.filter (!·.released))) := by
  have ok := run_ok workers run
  refine ⟨ok.reporter.order, (ok.reporter.cut inOrder).partition, fun settled => ⟨?_, ?_⟩⟩
  · have seqs := ok.settled_seqs settled
    rw [ok.pending_eq_nil settled] at seqs
    simpa using seqs.length_eq
  · have sent := ok.sent
    rw [settled.reports, Reporter.known, ok.pending_eq_nil settled] at sent
    exact (sent.filter _).symm

/-- Two workers overlap, and the second volume ends first. -/
theorem seconds_partition_overlap
    : (([.hand, .hand, .take 0, .feed 0, .run 0, .pass 2, .take 1, .feed 1, .run 1, .pass 3, .finish 1,
          .send 1, .report, .pass 1, .finish 0, .send 0, .report] : List Step).foldl step
          (start 2)).reporter.told.map (·.terminal.seq) = List.range 2
      ∧ Partition [(0, 6), (6, 6)]
          [{ seq := 0, released := false, fedAt := 0, finishedAt := 6 },
            { seq := 1, released := false, fedAt := 2, finishedAt := 5 }] := by
  have both := seconds_partition 2 [.hand, .hand, .take 0, .feed 0, .run 0, .pass 2, .take 1, .feed 1,
    .run 1, .pass 3, .finish 1, .send 1, .report, .pass 1, .finish 0, .send 0, .report] (by decide)
  exact ⟨both.1, both.2.1⟩

end Session

end MokuroBunko.Processor.VolumeSeconds
