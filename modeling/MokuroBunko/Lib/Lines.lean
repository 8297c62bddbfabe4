import Mathlib.Data.Finset.Erase
import Mathlib.Data.Finset.Insert
import Mathlib.Data.List.Perm.Basic
import Mathlib.Logic.Function.Basic

/-! Stations that serve a line of tickets each. A station is held while its line has a ticket and
only the head of a line is started; an order lists the tickets of all lines, and a log the settled
ones.
-/

namespace MokuroBunko.Lib

/-- A place in a line. -/
structure Ticket (Name : Type) where
  name : Name
  id : ℕ
  started : Bool := false

structure Lines (Station Name End : Type) where
  line : Station → List (Ticket Name)
  order : List (Name × Station)
  holding : Finset Station
  /-- How often a station is held, by its line or by others. -/
  holds : Station → ℕ
  next : ℕ
  settled : List (ℕ × End)

namespace Lines

variable {Station Name End : Type} [DecidableEq Station] (lines : Lines Station Name End)

-- Operations

def setLine (station : Station) (line : List (Ticket Name)) : Lines Station Name End :=
  { lines with line := Function.update lines.line station line }

def hold (station : Station) : Lines Station Name End :=
  { lines with
    holding := insert station lines.holding
    holds := Function.update lines.holds station (lines.holds station + 1)
  }

def giveBack (station : Station) : Lines Station Name End :=
  if station ∈ lines.holding then
    { lines with
      holding := lines.holding.erase station
      holds := Function.update lines.holds station (lines.holds station - 1)
    }
  else lines

/-- Say of the head of a line whether it is started. -/
def mark (station : Station) (started : Bool) : Lines Station Name End :=
  lines.setLine station
    ((lines.line station).modifyHead (fun ticket => { ticket with started := started }))

/-- The line's head starts, an empty line gives its station back. -/
def advance (station : Station) : Lines Station Name End :=
  match (lines.line station).head? with
  | none => lines.giveBack station
  | some ticket =>
      if ticket.started then lines
      else (if station ∈ lines.holding then lines else lines.hold station).mark station true

def push (station : Station) (name : Name) : Lines Station Name End :=
  { lines.setLine station (lines.line station ++ [{ name := name, id := lines.next }]) with
    order := lines.order ++ [(name, station)]
    next := lines.next + 1
  }

/-- Settle a whole line and give its station back. -/
def leave (station : Station) (how : End) : Lines Station Name End :=
  { lines.setLine station [] with
    order := lines.order.filter (fun entry => entry.2 ≠ station)
    settled := lines.settled ++ (lines.line station).map (fun (ticket : Ticket Name) => (ticket.id, how))
  }.giveBack station

-- Stations served

/-- The settled tickets, then those of a line. -/
def ids (station : Station) : List ℕ :=
  lines.settled.map Prod.fst ++ (lines.line station).map Ticket.id

/-- The station is held exactly while its line has a ticket, and serves the first. -/
structure Serves (station : Station) : Prop where
  held : station ∈ lines.holding ↔ lines.line station ≠ []
  first : ∀ ticket ∈ (lines.line station).head?, ticket.started = true

variable {lines} {station : Station}

-- What a step does to the lines

@[simp] theorem setLine_line (line : List (Ticket Name)) (other : Station)
    : (lines.setLine station line).line other
      = if other = station then line else lines.line other := by
  simp [setLine, Function.update_apply]

theorem mark_names (started : Bool) (other : Station)
    : ((lines.mark station started).line other).map Ticket.name
      = (lines.line other).map Ticket.name := by
  by_cases same : other = station
  · subst same
    cases line : lines.line other <;> simp [mark, line]
  · simp [mark, same]

theorem mark_ids (started : Bool) (other : Station)
    : ((lines.mark station started).line other).map Ticket.id
      = (lines.line other).map Ticket.id := by
  by_cases same : other = station
  · subst same
    cases line : lines.line other <;> simp [mark, line]
  · simp [mark, same]

theorem mark_tail (started : Bool) (other : Station)
    : ((lines.mark station started).line other).tail = (lines.line other).tail := by
  by_cases same : other = station
  · subst same
    cases line : lines.line other <;> simp [mark, line]
  · simp [mark, same]

theorem Serves.mark_other {other : Station} (serves : lines.Serves other)
    (different : other ≠ station) (started : Bool)
    : (lines.mark station started).Serves other where
  held := by
    simp only [mark, setLine_line, different, if_false]
    exact serves.held
  first := by
    simp only [mark, setLine_line, different, if_false]
    exact serves.first

theorem Serves.of_mark (held : station ∈ lines.holding) (waiting : lines.line station ≠ [])
    : (lines.mark station true).Serves station := by
  cases line : lines.line station with
  | nil => exact absurd line waiting
  | cons head rest =>
      constructor
      · simpa [Lines.mark, Lines.setLine, line] using held
      · simp [Lines.mark, line]

@[simp] theorem giveBack_line : (lines.giveBack station).line = lines.line := by
  unfold giveBack
  split <;> rfl

theorem mem_giveBack_holding (other : Station)
    : other ∈ (lines.giveBack station).holding ↔ other ≠ station ∧ other ∈ lines.holding := by
  unfold giveBack
  split
  · simp
  · constructor
    · intro held
      exact ⟨by rintro rfl; contradiction, held⟩
    · exact And.right

theorem Serves.giveBack_other {other : Station} (serves : lines.Serves other)
    (different : other ≠ station)
    : (lines.giveBack station).Serves other where
  held := by simpa [mem_giveBack_holding, different] using serves.held
  first := by simpa using serves.first

theorem Serves.of_giveBack (empty : lines.line station = [])
    : (lines.giveBack station).Serves station where
  held := by simp [mem_giveBack_holding, empty]
  first := by simp [empty]

theorem ticket_perm {tickets : List (Ticket Name)} {place : ℕ} {ticket : Ticket Name}
    (found : tickets[place]? = some ticket)
    : (ticket :: tickets.eraseIdx place).Perm tickets := by
  obtain ⟨inside, read⟩ := List.getElem?_eq_some_iff.mp found
  rw [← read]
  exact List.getElem_cons_eraseIdx_perm inside

theorem tail_eraseIdx_subset (line : List (Ticket Name)) (place : ℕ)
    : (line.eraseIdx place).tail ⊆ line.tail := by
  rcases line with - | ⟨head, rest⟩
  · simp
  · cases place with
    | zero => exact List.tail_subset rest
    | succ place => exact List.eraseIdx_subset

-- Invariants

section Invariants

variable [DecidableEq Name]

section Definitions

variable (lines)

/-- Take the ticket at `place` out of its line and settle it. -/
def remove (station : Station) (place : ℕ) (how : End) : Lines Station Name End :=
  match (lines.line station)[place]? with
  | none => lines
  | some ticket =>
      { lines.setLine station ((lines.line station).eraseIdx place) with
        order := lines.order.erase (ticket.name, station)
        settled := lines.settled ++ [(ticket.id, how)]
      }

/-- Settle the ticket at `place`, then the next one starts. -/
def finish (station : Station) (place : ℕ) (how : End) : Lines Station Name End :=
  match (lines.line station)[place]? with
  | none => lines
  | some _ =>
      if place = 0 then (lines.remove station place how).advance station
      else lines.remove station place how

/-- What holds whether or not every line has advanced. `others` counts the holds that no line
took, `first` is the first id drawn.
-/
structure Sound (others : Station → ℕ) (first : ℕ) : Prop where
  counted
    : ∀ station, lines.holds station = others station + if station ∈ lines.holding then 1 else 0
  ordered
    : ∀ station name,
        lines.order.count (name, station) = ((lines.line station).map Ticket.name).count name
  names : ∀ station, ((lines.line station).map Ticket.name).Nodup
  behind : ∀ station, ∀ ticket ∈ (lines.line station).tail, ticket.started = false
  once : ∀ station, (lines.ids station).Nodup
  apart
    : ∀ station other,
        station ≠ other
        → ((lines.line station).map Ticket.id).Disjoint ((lines.line other).map Ticket.id)
  drawn : ∀ station, ∀ id ∈ lines.ids station, id < lines.next
  accounted
    : ∀ id,
        first ≤ id
        → id < lines.next
        → id ∈ lines.settled.map Prod.fst ∨ ∃ station, id ∈ (lines.line station).map Ticket.id

/-- Every line but one has advanced. -/
structure Loose (others : Station → ℕ) (first : ℕ) (station : Station) : Prop extends lines.Sound others first where
  elsewhere : ∀ other, other ≠ station → lines.Serves other
  idle : station ∉ lines.holding → ∀ ticket ∈ lines.line station, ticket.started = false

/-- Every line has advanced. -/
structure Fair (others : Station → ℕ) (first : ℕ) : Prop extends lines.Sound others first where
  serves : ∀ station, lines.Serves station

end Definitions

variable {others : Station → ℕ} {first : ℕ}

theorem Fair.of_empty (holds : Station → ℕ) (next : ℕ)
    : ({ line := fun _ => [], order := [], holding := ∅, holds, next, settled := [] }
          : Lines Station Name End).Fair holds next where
  counted _ := by simp
  ordered _ _ := by simp
  names _ := by simp
  behind _ := by simp
  once _ := by simp [ids]
  apart _ _ _ := by simp
  drawn _ := by simp [ids]
  accounted id late drawn := absurd drawn (Nat.not_lt.mpr late)
  serves _ := ⟨by simp, by simp⟩

theorem Fair.loose (fair : lines.Fair others first) (station : Station)
    : lines.Loose others first station := by
  refine { fair.toSound with elsewhere := fun other _ => fair.serves other, idle := ?_ }
  intro free ticket member
  have empty := mt (fair.serves station).held.mpr free
  simp_all

theorem Sound.mark (sound : lines.Sound others first) (station : Station) (started : Bool)
    : (lines.mark station started).Sound others first where
  counted := sound.counted
  ordered other name := by
    rw [mark_names]
    exact sound.ordered other name
  names other := by
    rw [mark_names]
    exact sound.names other
  behind other := by
    rw [mark_tail]
    exact sound.behind other
  once other := by
    rw [ids, mark_ids]
    exact sound.once other
  apart one two different := by
    rw [mark_ids, mark_ids]
    exact sound.apart one two different
  drawn other := by
    rw [ids, mark_ids]
    exact sound.drawn other
  accounted := by
    simp only [mark_ids]
    exact sound.accounted

theorem Loose.mark (loose : lines.Loose others first station) (held : station ∈ lines.holding)
    (started : Bool)
    : (lines.mark station started).Loose others first station := by
  refine { loose.toSound.mark station started with elsewhere := ?_, idle := ?_ }
  · intro other different
    exact (loose.elsewhere other different).mark_other different started
  · intro free
    exact absurd held free

theorem Loose.mark_started (loose : lines.Loose others first station) (held : station ∈ lines.holding)
    (waiting : lines.line station ≠ [])
    : (lines.mark station true).Fair others first := by
  refine { loose.toSound.mark station true with serves := ?_ }
  intro other
  rcases eq_or_ne other station with same | different
  · subst same
    exact Serves.of_mark held waiting
  · exact (loose.elsewhere other different).mark_other different true

theorem Sound.hold (sound : lines.Sound others first) (free : station ∉ lines.holding)
    : (lines.hold station).Sound others first := by
  refine { sound with counted := ?_ }
  intro other
  have before := sound.counted other
  by_cases same : other = station
  · subst same
    simp_all [Lines.hold]
  · simp_all [Lines.hold]

theorem Loose.hold (loose : lines.Loose others first station) (free : station ∉ lines.holding)
    : (lines.hold station).Loose others first station := by
  refine { loose.toSound.hold free with elsewhere := ?_, idle := ?_ }
  · intro other different
    have before := loose.elsewhere other different
    exact ⟨by simpa [Lines.hold, different] using before.held, before.first⟩
  · intro stillFree
    simp [Lines.hold] at stillFree

theorem Sound.giveBack (sound : lines.Sound others first) (station : Station)
    : (lines.giveBack station).Sound others first := by
  unfold Lines.giveBack
  split
  case isFalse => exact sound
  case isTrue held =>
      refine { sound with counted := ?_ }
      intro other
      have before := sound.counted other
      by_cases same : other = station
      · subst same
        simp_all
      · simp_all

theorem Loose.advance (loose : lines.Loose others first station)
    : (lines.advance station).Fair others first := by
  unfold Lines.advance
  split
  case h_1 none_waits =>
      have empty : lines.line station = [] := List.head?_eq_none_iff.mp none_waits
      refine { loose.toSound.giveBack station with serves := ?_ }
      intro other
      rcases eq_or_ne other station with same | different
      · subst same
        exact Serves.of_giveBack empty
      · exact (loose.elsewhere other different).giveBack_other different
  case h_2 ticket head =>
      have waiting : lines.line station ≠ [] := by
        intro empty
        simp [empty] at head
      by_cases held : station ∈ lines.holding
      · rw [if_pos held]
        split
        case isTrue started =>
            refine { loose.toSound with serves := ?_ }
            intro other
            rcases eq_or_ne other station with same | different
            · subst same
              exact ⟨by simp [held, waiting], by simp [head, started]⟩
            · exact loose.elsewhere other different
        case isFalse => exact loose.mark_started held waiting
      · have stopped := loose.idle held ticket (List.mem_of_head? head)
        rw [if_neg (by simp [stopped]), if_neg held]
        exact (loose.hold held).mark_started (by simp [Lines.hold]) waiting

-- Tickets come and go

theorem Fair.push (fair : lines.Fair others first) {name : Name}
    (unnamed : name ∉ (lines.line station).map Ticket.name)
    : (lines.push station name).Loose others first station where
  counted := fair.counted
  ordered other asked := by
    have before := fair.ordered other asked
    by_cases same : other = station
    · subst same
      simp [Lines.push, List.count_append, before, List.count_singleton]
    · simp [Lines.push, List.count_append, before, same, Ne.symm same]
  names other := by
    by_cases same : other = station
    · subst same
      have before := fair.names other
      simpa [Lines.push, List.nodup_append, before] using unnamed
    · simpa [Lines.push, same] using fair.names other
  behind other ticket := by
    by_cases same : other = station
    · subst same
      have before := fair.behind other ticket
      cases line : lines.line other with
      | nil => simp [Lines.push, line]
      | cons head rest =>
          rw [line] at before
          simp only [Lines.push, setLine_line, if_true, line, List.cons_append, List.tail_cons,
            List.mem_append, List.mem_singleton]
          rintro (member | rfl)
          · exact before member
          · rfl
    · simpa [Lines.push, same] using fair.behind other ticket
  once other := by
    have before := fair.once other
    have drawn := fair.drawn other
    by_cases same : other = station
    · subst same
      have unused : lines.next ∉ lines.ids other := fun used => lt_irrefl _ (drawn _ used)
      have appended : (lines.push other name).ids other = lines.ids other ++ [lines.next] := by
        simp [Lines.push, Lines.ids, setLine]
      rw [appended]
      exact List.nodup_append'.mpr ⟨before, by simp, by simpa using unused⟩
    · simpa [Lines.push, Lines.ids, setLine, same] using before
  apart one two different := by
    have before := fair.apart one two different
    have unused (other : Station) : lines.next ∉ (lines.line other).map Ticket.id := by
      intro used
      exact lt_irrefl _ (fair.drawn other _ (List.mem_append_right _ used))
    by_cases isFirst : one = station
    · subst isFirst
      simpa [Lines.push, different.symm, List.disjoint_append_left, before] using unused two
    · by_cases isSecond : two = station
      · subst isSecond
        simpa [Lines.push, different, List.disjoint_append_right, before] using unused one
      · simpa [Lines.push, isFirst, isSecond] using before
  drawn other id member := by
    by_cases same : other = station
    · subst same
      have appended : (lines.push other name).ids other = lines.ids other ++ [lines.next] := by
        simp [Lines.push, Lines.ids, setLine]
      rw [appended] at member
      rcases List.mem_append.mp member with old | new
      · exact Nat.lt_succ_of_lt (fair.drawn other id old)
      · rw [List.mem_singleton.mp new]
        exact Nat.lt_succ_self _
    · exact Nat.lt_succ_of_lt
        (fair.drawn other id (by simpa [Lines.push, Lines.ids, setLine, same] using member))
  accounted id late drawn := by
    rcases Nat.lt_succ_iff_lt_or_eq.mp drawn with old | new
    · rcases fair.accounted id late old with settled | ⟨other, waiting⟩
      · exact Or.inl settled
      · refine Or.inr ⟨other, ?_⟩
        by_cases same : other = station
        · subst same
          simpa [Lines.push] using Or.inl (by simpa using waiting)
        · simpa [Lines.push, same] using waiting
    · exact Or.inr ⟨station, by simp [Lines.push, new]⟩
  elsewhere other different := by
    have before := fair.serves other
    exact ⟨by simpa [Lines.push, setLine, different] using before.held, by
      simpa [Lines.push, different] using before.first⟩
  idle free ticket member := by
    have empty : lines.line station = [] := by
      by_contra waiting
      exact free ((fair.serves station).held.mpr waiting)
    have only : ticket = { name := name, id := lines.next } := by
      simpa [Lines.push, empty] using member
    rw [only]

/-- Some tickets of a line are settled, in any order, and the others stay. -/
theorem Sound.settle (sound : lines.Sound others first) {gone kept : List (Ticket Name)}
    {order : List (Name × Station)} (how : End)
    (divided : (gone ++ kept).Perm (lines.line station))
    (behind : ∀ ticket ∈ kept.tail, ticket.started = false)
    (ordered
      : ∀ other name,
          order.count (name, other)
          = if other = station then (kept.map Ticket.name).count name
            else lines.order.count (name, other))
    : { lines.setLine station kept with
        order := order
        settled := lines.settled ++ gone.map (fun (ticket : Ticket Name) => (ticket.id, how))
      }.Sound others first := by
  have named := divided.map Ticket.name
  have numbered := divided.map Ticket.id
  rw [List.map_append] at named numbered
  have settledIds : (gone.map (fun ticket => (ticket.id, how))).map Prod.fst
      = gone.map Ticket.id := by
    rw [List.map_map]
    rfl
  have ofLine {id : ℕ} (member : id ∈ gone.map Ticket.id)
      : id ∈ (lines.line station).map Ticket.id :=
    numbered.subset (List.mem_append_left _ member)
  constructor
  · exact sound.counted
  · intro other name
    simp only [setLine_line, ordered, sound.ordered other name]
    split <;> rfl
  · intro other
    by_cases same : other = station
    · subst same
      have distinct := named.nodup_iff.mpr (sound.names other)
      simpa using (List.nodup_append'.mp distinct).2.1
    · simpa [same] using sound.names other
  · intro other
    by_cases same : other = station
    · simpa [same] using behind
    · simpa [same] using sound.behind other
  · intro other
    simp only [Lines.ids, setLine_line, List.map_append, settledIds, List.append_assoc]
    have before := sound.once other
    by_cases same : other = station
    · subst same
      simpa using (numbered.append_left _).nodup_iff.mpr before
    · rw [if_neg same]
      obtain ⟨settledOnce, -, unsettled⟩ := List.nodup_append'.mp (sound.once station)
      obtain ⟨-, lineOnce, lineUnsettled⟩ := List.nodup_append'.mp before
      have goneOnce := (List.nodup_append'.mp
        (numbered.nodup_iff.mpr (List.nodup_append'.mp (sound.once station)).2.1)).1
      have goneApart := List.disjoint_of_subset_left (fun _ => ofLine)
        (sound.apart station other (Ne.symm same))
      refine List.nodup_append'.mpr ⟨settledOnce,
        List.nodup_append'.mpr ⟨goneOnce, lineOnce, goneApart⟩, ?_⟩
      exact List.disjoint_append_right.mpr
        ⟨List.disjoint_of_subset_right (fun _ => ofLine) unsettled, lineUnsettled⟩
  · intro one two different
    have fewer (other : Station)
        : ((lines.setLine station kept).line other).map Ticket.id
          ⊆ (lines.line other).map Ticket.id := by
      by_cases same : other = station
      · subst same
        rw [setLine_line, if_pos rfl]
        exact List.Subset.trans (List.subset_append_right _ _) numbered.subset
      · simp [same]
    exact List.disjoint_of_subset_left (fewer one)
      (List.disjoint_of_subset_right (fewer two) (sound.apart one two different))
  · intro other id member
    simp only [Lines.ids, setLine_line, List.map_append, settledIds, List.mem_append] at member
    rcases member with (settled | left) | waiting
    · exact sound.drawn other id (List.mem_append_left _ settled)
    · exact sound.drawn station id (List.mem_append_right _ (ofLine left))
    · split at waiting
      · exact sound.drawn station id
          (List.mem_append_right _ (numbered.subset (List.mem_append_right _ waiting)))
      · exact sound.drawn other id (List.mem_append_right _ waiting)
  · intro id late drawn
    simp only [List.map_append, settledIds, List.mem_append]
    rcases sound.accounted id late drawn with settled | ⟨other, waiting⟩
    · exact Or.inl (Or.inl settled)
    · by_cases same : other = station
      · subst same
        rcases List.mem_append.mp (numbered.mem_iff.mpr waiting) with left | stays
        · exact Or.inl (Or.inr left)
        · exact Or.inr ⟨other, by simpa using stays⟩
      · exact Or.inr ⟨other, by simpa [same] using waiting⟩

theorem Sound.remove (sound : lines.Sound others first) (station : Station) (place : ℕ) (how : End)
    : (lines.remove station place how).Sound others first := by
  unfold Lines.remove
  split
  case h_1 => exact sound
  case h_2 ticket found =>
      have line := ticket_perm found
      have divided : ([ticket] ++ (lines.line station).eraseIdx place).Perm
          (lines.line station) := line
      refine sound.settle how divided ?_ ?_
      · intro asked member
        exact sound.behind station asked (tail_eraseIdx_subset _ _ member)
      · intro other name
        have total := (line.map Ticket.name).count_eq name
        simp only [List.count_erase, sound.ordered other name, List.map_cons, List.count_cons]
          at total ⊢
        by_cases same : other = station
        · subst same
          by_cases isName : ticket.name = name
          · simp_all
            omega
          · simp_all
        · simp [same, Ne.symm same]

theorem Sound.leave (sound : lines.Sound others first) (station : Station) (how : End)
    : (lines.leave station how).Sound others first := by
  apply Sound.giveBack
  refine sound.settle how (by simp) (by simp) ?_
  intro other name
  by_cases same : other = station
  · simp [same, List.count_eq_zero]
  · rw [List.count_filter (by simpa using same), if_neg same]

theorem Fair.leave (fair : lines.Fair others first) (station : Station) (how : End)
    : (lines.leave station how).Fair others first := by
  refine { fair.toSound.leave station how with serves := ?_ }
  intro other
  rcases eq_or_ne other station with same | different
  · subst same
    exact Serves.of_giveBack (by simp)
  · apply Serves.giveBack_other _ different
    have before := fair.serves other
    exact ⟨by simpa [setLine, different] using before.held, by
      simpa [different] using before.first⟩

theorem remove_line_other {other : Station} (different : other ≠ station) (place : ℕ) (how : End)
    : (lines.remove station place how).line other = lines.line other := by
  unfold remove
  split
  · rfl
  · simp [different]

@[simp] theorem remove_holding (place : ℕ) (how : End)
    : (lines.remove station place how).holding = lines.holding := by
  unfold remove
  split <;> rfl

theorem remove_line_subset (place : ℕ) (how : End)
    : (lines.remove station place how).line station ⊆ lines.line station := by
  unfold remove
  split
  · exact List.Subset.refl _
  · simpa using List.eraseIdx_subset

theorem Serves.remove_other {other : Station} (serves : lines.Serves other)
    (different : other ≠ station) (place : ℕ) (how : End)
    : (lines.remove station place how).Serves other where
  held := by
    rw [remove_line_other different, remove_holding]
    exact serves.held
  first := by
    rw [remove_line_other different]
    exact serves.first

theorem Loose.remove (loose : lines.Loose others first station) (place : ℕ) (how : End)
    : (lines.remove station place how).Loose others first station := by
  refine { loose.toSound.remove station place how with elsewhere := ?_, idle := ?_ }
  · intro other different
    exact (loose.elsewhere other different).remove_other different place how
  · intro free ticket member
    rw [remove_holding] at free
    exact loose.idle free ticket (remove_line_subset place how member)

theorem Serves.remove_later (serves : lines.Serves station) {place : ℕ} (later : place ≠ 0)
    (how : End)
    : (lines.remove station place how).Serves station := by
  obtain ⟨place, rfl⟩ := Nat.exists_eq_succ_of_ne_zero later
  unfold Lines.remove
  split
  case h_1 => exact serves
  case h_2 ticket found =>
      cases line : lines.line station with
      | nil => simp [line] at found
      | cons head rest =>
          have held := serves.held
          have first := serves.first
          rw [line] at held first
          exact ⟨by simpa [setLine] using held, by simpa using first⟩

theorem Fair.finish (fair : lines.Fair others first) (station : Station) (place : ℕ) (how : End)
    : (lines.finish station place how).Fair others first := by
  unfold Lines.finish
  split
  case h_1 => exact fair
  case h_2 =>
      split
      · exact ((fair.loose station).remove place how).advance
      case isFalse later =>
          refine { fair.toSound.remove station place how with serves := ?_ }
          intro other
          rcases eq_or_ne other station with same | different
          · subst same
            exact (fair.serves other).remove_later later how
          · exact (fair.serves other).remove_other different place how

theorem Loose.finish (loose : lines.Loose others first station) (waiting : lines.line station ≠ [])
    (how : End)
    : (lines.finish station 0 how).Fair others first := by
  unfold Lines.finish
  split
  case h_1 none_waits => simp_all
  case h_2 => exact (loose.remove 0 how).advance

end Invariants

end Lines

end MokuroBunko.Lib
