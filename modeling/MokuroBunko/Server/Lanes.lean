import MokuroBunko.Server.Books

/-! Rebuilding the lanes: a busy lane is never lost, lane ids stay distinct, and a machine
that may work has the lanes its settings ask for.
-/

namespace MokuroBunko.Server

open MokuroBunko.Lib MokuroBunko.Data MokuroBunko.Sched

-- The lanes of one machine

theorem keepLane_foldl (count : ℕ) (lanes : List Lane)
    : ∀ kept, ∃ more, lanes.foldl (keepLane count) kept = kept ++ more ∧ more.Sublist lanes
      ∧ ∀ lane ∈ lanes, lane.session.isSome → lane ∈ more := by
  induction lanes with
  | nil => exact fun kept => ⟨[], by simp, List.Sublist.refl _, nofun⟩
  | cons lane rest ih =>
      intro kept
      rw [List.foldl_cons]
      by_cases stays : kept.length < count ∨ lane.session.isSome
      · obtain ⟨more, folded, sublist, busy⟩ := ih (kept ++ [lane])
        refine ⟨lane :: more, ?_, sublist.cons_cons lane, ?_⟩
        · rw [keepLane, if_pos stays, folded, List.append_assoc, List.singleton_append]
        · intro other member runs
          cases List.mem_cons.mp member with
          | inl same => exact same ▸ List.mem_cons_self
          | inr later => exact List.mem_cons_of_mem _ (busy other later runs)
      · obtain ⟨more, folded, sublist, busy⟩ := ih kept
        refine ⟨more, ?_, sublist.cons lane, ?_⟩
        · rw [keepLane, if_neg stays, folded]
        · intro other member runs
          cases List.mem_cons.mp member with
          | inl same => exact absurd (.inr (same ▸ runs)) stays
          | inr later => exact busy other later runs

theorem mem_newLanes {pid : Pid} {next count : ℕ} {lane : Lane}
    (member : lane ∈ newLanes pid next count)
    : lane.pid = pid ∧ lane.session = none ∧ next ≤ lane.id ∧ lane.id < next + count := by
  obtain ⟨place, inRange, rfl⟩ := List.mem_map.mp member
  exact ⟨rfl, rfl, Nat.le_add_right .., Nat.add_lt_add_left (List.mem_range.mp inRange) _⟩

theorem newLanes_ids_nodup (pid : Pid) (next count : ℕ)
    : ((newLanes pid next count).map Lane.id).Nodup := by
  rw [newLanes, List.map_map]
  exact List.nodup_range.map (fun a b same => Nat.add_left_cancel same)

/-- What one machine adds to the lanes: its busy lanes, others it had, and new ones. -/
structure MachineGroup (old : List Lane) (pid : Pid) (count next next' : ℕ) (group : List Lane)
    : Prop where
  grows : next ≤ next'
  enough : count ≤ group.length
  source : ∀ lane ∈ group, lane.pid = pid
    ∧ (lane ∈ old ∨ lane.session = none ∧ next ≤ lane.id ∧ lane.id < next')
  busy : ∀ lane ∈ old, lane.pid = pid → lane.session.isSome → lane ∈ group
  idsNodup : (old.map Lane.id).Nodup → (∀ lane ∈ old, lane.id < next) → (group.map Lane.id).Nodup

theorem machineLanes_spec (old : List Lane) (lanes : List Lane × ℕ) (wanted : Pid × ℕ)
    : ∃ group, (machineLanes old lanes wanted).1 = lanes.1 ++ group
      ∧ MachineGroup old wanted.1 wanted.2 lanes.2 (machineLanes old lanes wanted).2 group := by
  obtain ⟨kept, folded, sublist, busy⟩ := keepLane_foldl wanted.2
    ((old.filter (fun lane => lane.pid = wanted.1)).insertionSort laneBefore) []
  rw [List.nil_append] at folded
  have ofOld : ∀ lane ∈ kept, lane ∈ old ∧ lane.pid = wanted.1 := by
    intro lane member
    have mine := (List.perm_insertionSort laneBefore _).mem_iff.mp (sublist.subset member)
    simpa using List.mem_filter.mp mine
  refine ⟨_, rfl, ?_⟩
  simp only [machineLanes, folded]
  set added := newLanes wanted.1 lanes.2 (wanted.2 - kept.length) with added_def
  have length : added.length = wanted.2 - kept.length := by simp [added_def, newLanes]
  have sorted := List.perm_insertionSort (fun a b : Lane => a.id ≤ b.id) (kept ++ added)
  have split : ∀ lane, lane ∈ (kept ++ added).insertionSort (fun a b => a.id ≤ b.id)
      ↔ lane ∈ kept ∨ lane ∈ added :=
    fun lane => sorted.mem_iff.trans List.mem_append
  constructor
  · exact Nat.le_add_right ..
  · rw [sorted.length_eq, List.length_append]
    omega
  · intro lane member
    cases (split lane).mp member with
    | inl inKept => exact ⟨(ofOld lane inKept).2, .inl (ofOld lane inKept).1⟩
    | inr new =>
        obtain ⟨ofPid, idle, above, below⟩ := mem_newLanes new
        exact ⟨ofPid, .inr ⟨idle, above, length.symm ▸ below⟩⟩
  · intro lane member ofPid runs
    apply (split lane).mpr
    refine .inl (busy lane ?_ runs)
    apply (List.perm_insertionSort laneBefore _).mem_iff.mpr
    exact List.mem_filter.mpr ⟨member, decide_eq_true ofPid⟩
  · intro idsNodup fresh
    apply ((sorted.map Lane.id).nodup_iff).mpr
    rw [List.map_append]
    refine List.nodup_append.mpr ⟨?_, newLanes_ids_nodup .., ?_⟩
    · have mine := idsNodup.sublist
        (List.filter_sublist (p := fun lane : Lane => decide (lane.pid = wanted.1)).map Lane.id)
      exact ((((List.perm_insertionSort laneBefore _).map Lane.id).nodup_iff).mpr mine).sublist
        (sublist.map Lane.id)
    · intro id inKept id' inAdded same
      obtain ⟨lane, member, rfl⟩ := List.mem_map.mp inKept
      obtain ⟨new, member', rfl⟩ := List.mem_map.mp inAdded
      have below := fresh lane (ofOld lane member).1
      have above := (mem_newLanes member').2.2.1
      omega

-- The lanes of all machines

/-- How the lanes stand after some machines were laid out. -/
structure LaidOut (old : List Lane) (first : ℕ) (wanted : List (Pid × ℕ))
    (lanes : List Lane × ℕ) : Prop where
  idsNodup : (lanes.1.map Lane.id).Nodup
  grows : first ≤ lanes.2
  source : ∀ lane ∈ lanes.1, lane.pid ∈ wanted.map Prod.fst
    ∧ (lane ∈ old ∨ lane.session = none ∧ first ≤ lane.id ∧ lane.id < lanes.2)
  busy : ∀ lane ∈ old, lane.pid ∈ wanted.map Prod.fst → lane.session.isSome → lane ∈ lanes.1
  enough : ∀ one ∈ wanted, one.2 ≤ lanes.1.countP (fun lane => lane.pid = one.1)

/-- Laying out one more machine. -/
theorem LaidOut.machineLanes {old : List Lane} {first : ℕ} {wanted : List (Pid × ℕ)}
    {lanes : List Lane × ℕ} (laid : LaidOut old first wanted lanes)
    (idsNodup : (old.map Lane.id).Nodup) (fresh : ∀ lane ∈ old, lane.id < first)
    (one : Pid × ℕ) (other : one.1 ∉ wanted.map Prod.fst)
    : LaidOut old first (wanted ++ [one]) (machineLanes old lanes one) := by
  obtain ⟨group, appended, ofGroup⟩ := machineLanes_spec old lanes one
  have below : ∀ lane ∈ old, lane.id < lanes.2 := fun lane member =>
    Nat.lt_of_lt_of_le (fresh lane member) laid.grows
  constructor
  · rw [appended, List.map_append]
    refine List.nodup_append.mpr ⟨laid.idsNodup, ofGroup.idsNodup idsNodup below, ?_⟩
    intro id inLanes id' inGroup same
    obtain ⟨lane, member, rfl⟩ := List.mem_map.mp inLanes
    obtain ⟨lane', member', rfl⟩ := List.mem_map.mp inGroup
    obtain ⟨ofWanted, source⟩ := laid.source lane member
    obtain ⟨ofOne, source'⟩ := ofGroup.source lane' member'
    -- two old lanes with one id are one lane, and no lane is of two machines
    cases source with
    | inl inOld =>
        cases source' with
        | inl inOld' =>
            obtain rfl := List.inj_on_of_nodup_map idsNodup inOld inOld' same
            exact other (ofOne ▸ ofWanted)
        | inr new =>
            have := below lane inOld
            omega
    | inr new =>
        cases source' with
        | inl inOld' =>
            have := fresh lane' inOld'
            omega
        | inr new' => omega
  · exact Nat.le_trans laid.grows ofGroup.grows
  · intro lane member
    rw [appended] at member
    rw [List.map_append, List.mem_append]
    cases List.mem_append.mp member with
    | inl before =>
        obtain ⟨ofWanted, source⟩ := laid.source lane before
        refine ⟨.inl ofWanted, source.imp_right ?_⟩
        exact fun ⟨idle, above, less⟩ => ⟨idle, above, Nat.lt_of_lt_of_le less ofGroup.grows⟩
    | inr inGroup =>
        obtain ⟨ofOne, source⟩ := ofGroup.source lane inGroup
        refine ⟨.inr (by simp [ofOne]), source.imp_right ?_⟩
        exact fun ⟨idle, above, less⟩ => ⟨idle, Nat.le_trans laid.grows above, less⟩
  · intro lane member ofMachine runs
    rw [appended, List.mem_append]
    rw [List.map_append, List.mem_append] at ofMachine
    cases ofMachine with
    | inl ofWanted => exact .inl (laid.busy lane member ofWanted runs)
    | inr ofOne => exact .inr (ofGroup.busy lane member (by simpa using ofOne) runs)
  · intro asked member
    rw [appended, List.countP_append]
    cases List.mem_append.mp member with
    | inl before => exact Nat.le_add_right_of_le (laid.enough asked before)
    | inr last =>
        obtain rfl := List.mem_singleton.mp last
        have all : group.countP (fun lane => lane.pid = asked.1) = group.length := by
          apply List.countP_eq_length.mpr
          intro lane inGroup
          exact decide_eq_true (ofGroup.source lane inGroup).1
        rw [all]
        exact Nat.le_add_left_of_le ofGroup.enough

theorem laidOut_foldl {old : List Lane} {first : ℕ} (idsNodup : (old.map Lane.id).Nodup)
    (fresh : ∀ lane ∈ old, lane.id < first) (rest : List (Pid × ℕ))
    : ∀ {wanted : List (Pid × ℕ)} {lanes : List Lane × ℕ}, LaidOut old first wanted lanes
      → ((wanted ++ rest).map Prod.fst).Nodup
      → LaidOut old first (wanted ++ rest) (rest.foldl (machineLanes old) lanes) := by
  induction rest with
  | nil =>
      intro wanted lanes laid _
      simpa using laid
  | cons one rest ih =>
      intro wanted lanes laid distinct
      have other : one.1 ∉ wanted.map Prod.fst := by
        intro member
        rw [List.map_append, List.map_cons] at distinct
        exact (List.nodup_append.mp distinct).2.2 one.1 member one.1 List.mem_cons_self rfl
      have step := laid.machineLanes idsNodup fresh one other
      have all := ih step (by simpa using distinct)
      rwa [List.append_assoc, List.singleton_append] at all

theorem keepBusyLane_foldl (old : List Lane)
    : ∀ lanes : List Lane, ∃ more, old.foldl keepBusyLane lanes = lanes ++ more
      ∧ (∀ lane ∈ more, lane ∈ old ∧ lane.session.isSome)
      ∧ ((lanes.map Lane.id).Nodup → ((lanes ++ more).map Lane.id).Nodup)
      ∧ ∀ lane ∈ old, lane.session.isSome → ∃ other ∈ lanes ++ more, other.id = lane.id := by
  induction old with
  | nil => exact fun lanes => ⟨[], by simp, nofun, by simp, nofun⟩
  | cons lane rest ih =>
      intro lanes
      rw [List.foldl_cons]
      by_cases added : lane.session.isSome ∧ ∀ other ∈ lanes, other.id ≠ lane.id
      · obtain ⟨more, folded, busy, nodup, kept⟩ := ih (lanes ++ [lane])
        rw [keepBusyLane, if_pos added]
        rw [List.append_assoc, List.singleton_append] at folded nodup kept
        refine ⟨lane :: more, folded, ?_, ?_, ?_⟩
        · intro other member
          cases List.mem_cons.mp member with
          | inl same =>
              subst same
              exact ⟨List.mem_cons_self, added.1⟩
          | inr later => exact ⟨List.mem_cons_of_mem _ (busy other later).1, (busy other later).2⟩
        · intro distinct
          apply nodup
          rw [List.map_append]
          refine List.nodup_append.mpr ⟨distinct, List.nodup_singleton _, ?_⟩
          intro id inLanes id' single same
          obtain ⟨other, member, rfl⟩ := List.mem_map.mp inLanes
          exact added.2 other member (same.trans (List.mem_singleton.mp single))
        · intro other member runs
          cases List.mem_cons.mp member with
          | inl same => exact ⟨lane, by simp, congrArg Lane.id same.symm⟩
          | inr later => exact kept other later runs
      · obtain ⟨more, folded, busy, nodup, kept⟩ := ih lanes
        rw [keepBusyLane, if_neg added]
        refine ⟨more, folded, ?_, nodup, ?_⟩
        · exact fun other member =>
            ⟨List.mem_cons_of_mem _ (busy other member).1, (busy other member).2⟩
        · intro other member runs
          cases List.mem_cons.mp member with
          | inl same =>
              have known : ∃ other ∈ lanes, other.id = lane.id := by
                by_contra missing
                exact added ⟨same ▸ runs, fun other inLanes eq => missing ⟨other, inLanes, eq⟩⟩
              obtain ⟨twin, inLanes, eq⟩ := known
              exact ⟨twin, List.mem_append_left _ inLanes, eq.trans (congrArg Lane.id same.symm)⟩
          | inr later => exact kept other later runs

-- `rebuild_lanes`

namespace Scheduler

variable {s : Scheduler}

theorem map_slot_ids (lanes : List Lane)
    : (lanes.map Lane.slot).map Slot.id = lanes.map Lane.id := by
  rw [List.map_map]
  rfl

theorem mem_wantedLanes {pid : Pid} {count : ℕ}
    : (pid, count) ∈ s.wantedLanes
      ↔ ∃ machine, s.machines.get? pid = some machine
        ∧ s.settings.lanesAsked machine = some count := by
  simp only [wantedLanes, List.mem_filterMap, Option.map_eq_some_iff, Prod.exists,
    Prod.mk.injEq]
  constructor
  · rintro ⟨_, machine, member, _, asked, rfl, rfl⟩
    exact ⟨machine, OrderedMap.mem_entries_iff.mp member, asked⟩
  · rintro ⟨machine, found, asked⟩
    exact ⟨pid, machine, OrderedMap.mem_entries_iff.mpr found, count, asked, rfl, rfl⟩

theorem connected_of_lanesAsked {settings : Settings} {machine : Machine} {count : ℕ}
    (asked : settings.lanesAsked machine = some count)
    : machine.connected = true := by
  by_contra down
  simp [Settings.lanesAsked, down] at asked

theorem wantedLanes_nodup (s : Scheduler)
    : (s.wantedLanes.map Prod.fst).Nodup := by
  have sublist : ∀ entries : List (Pid × Machine),
      ((entries.filterMap (fun entry =>
        (s.settings.lanesAsked entry.2).map (fun count => (entry.1, count)))).map Prod.fst).Sublist
        (entries.map Prod.fst) := by
    intro entries
    induction entries with
    | nil => exact .slnil
    | cons entry rest ih =>
        cases asked : s.settings.lanesAsked entry.2 with
        | none => simpa [asked] using ih.cons entry.1
        | some count => simpa [asked] using ih.cons_cons entry.1
  exact s.machines.keysNodup.sublist (sublist s.machines.entries)

theorem rebuildLanes_laidOut (slotted : s.ledger.Slotted)
    : ∃ laid more, LaidOut s.lanes s.nextLaneId s.wantedLanes (laid, s.rebuildLanes.nextLaneId)
      ∧ s.rebuildLanes.lanes = laid ++ more
      ∧ (∀ lane ∈ more, lane ∈ s.lanes ∧ lane.session.isSome)
      ∧ ((laid ++ more).map Lane.id).Nodup
      ∧ ∀ lane ∈ s.lanes, lane.session.isSome → ∃ other ∈ laid ++ more, other.id = lane.id := by
  have idsNodup : (s.lanes.map Lane.id).Nodup := map_slot_ids s.lanes ▸ slotted.idsNodup
  have fresh : ∀ lane ∈ s.lanes, lane.id < s.nextLaneId := fun lane member =>
    slotted.idFresh lane.slot (List.mem_map_of_mem member)
  have empty : LaidOut s.lanes s.nextLaneId [] ([], s.nextLaneId) :=
    ⟨List.nodup_nil, le_rfl, nofun, nofun, nofun⟩
  have laid := laidOut_foldl idsNodup fresh s.wantedLanes empty (wantedLanes_nodup s)
  obtain ⟨more, folded, busy, nodup, kept⟩ := keepBusyLane_foldl s.lanes
    (s.wantedLanes.foldl (machineLanes s.lanes) ([], s.nextLaneId)).1
  exact ⟨_, more, laid, folded, busy, nodup laid.idsNodup, kept⟩

theorem layout_rebuildLanes (slotted : s.ledger.Slotted)
    : s.ledger.Layout s.rebuildLanes.ledger.slots s.rebuildLanes.nextLaneId := by
  obtain ⟨laid, more, ofLaid, lanes, ofMore, idsNodup, kept⟩ := rebuildLanes_laidOut slotted
  have oldNodup : (s.lanes.map Lane.id).Nodup := map_slot_ids s.lanes ▸ slotted.idsNodup
  have fresh : ∀ lane ∈ s.lanes, lane.id < s.nextLaneId := fun lane member =>
    slotted.idFresh lane.slot (List.mem_map_of_mem member)
  have slots : s.rebuildLanes.ledger.slots = (laid ++ more).map Lane.slot :=
    congrArg (List.map Lane.slot) lanes
  have source : ∀ lane ∈ laid ++ more, lane ∈ s.lanes
      ∨ lane.session = none ∧ s.nextLaneId ≤ lane.id := by
    intro lane member
    cases List.mem_append.mp member with
    | inl inLaid => exact (ofLaid.source lane inLaid).2.imp_right fun new => ⟨new.1, new.2.1⟩
    | inr inMore => exact .inl (ofMore lane inMore).1
  rw [slots]
  constructor
  · rwa [map_slot_ids]
  · intro slot member
    obtain ⟨lane, inLanes, rfl⟩ := List.mem_map.mp member
    cases List.mem_append.mp inLanes with
    | inl inLaid =>
        cases (ofLaid.source lane inLaid).2 with
        | inl old => exact Nat.lt_of_lt_of_le (fresh lane old) ofLaid.grows
        | inr new => exact new.2.2
    | inr inMore => exact Nat.lt_of_lt_of_le (fresh lane (ofMore lane inMore).1) ofLaid.grows
  · intro slot member
    obtain ⟨lane, inLanes, rfl⟩ := List.mem_map.mp member
    cases List.mem_append.mp inLanes with
    | inl inLaid =>
        obtain ⟨⟨pid, count⟩, wanted, same⟩ := List.mem_map.mp (ofLaid.source lane inLaid).1
        obtain ⟨machine, found, asked⟩ := mem_wantedLanes.mp wanted
        obtain rfl : pid = lane.pid := same
        simp [ledger, Lane.slot, found, connected_of_lanesAsked asked]
    | inr inMore => exact slotted.linked lane.slot (List.mem_map_of_mem (ofMore lane inMore).1)
  · intro slot member runs
    obtain ⟨lane, inLanes, rfl⟩ := List.mem_map.mp member
    cases source lane inLanes with
    | inl old => exact List.mem_map_of_mem old
    | inr new => simp [Lane.slot, new.1] at runs
  · intro slot member runs
    obtain ⟨lane, old, rfl⟩ := List.mem_map.mp member
    obtain ⟨twin, inLanes, same⟩ := kept lane old runs
    -- the lane that carries the id is the old one: a new lane has a larger id
    cases source twin inLanes with
    | inl twinOld =>
        obtain rfl := List.inj_on_of_nodup_map oldNodup twinOld old same
        exact List.mem_map_of_mem inLanes
    | inr new =>
        have := fresh lane old
        omega

theorem Coherent.rebuildLanes {hand : Option Job} (coherent : s.Coherent hand)
    : s.rebuildLanes.Coherent hand :=
  coherent.of_sound rfl rfl (coherent.sound.relay (layout_rebuildLanes coherent.sound.slotted))

theorem rebuildLanes_enough (slotted : s.ledger.Slotted) {pid : Pid} {machine : Machine}
    {count : ℕ} (found : s.machines.get? pid = some machine)
    (asked : s.settings.lanesAsked machine = some count)
    : count ≤ s.rebuildLanes.lanes.countP (fun lane => lane.pid = pid) := by
  obtain ⟨laid, more, ofLaid, lanes, -⟩ := rebuildLanes_laidOut slotted
  have enough := ofLaid.enough (pid, count) (mem_wantedLanes.mpr ⟨machine, found, asked⟩)
  rw [lanes, List.countP_append]
  exact Nat.le_add_right_of_le enough

end Scheduler

end MokuroBunko.Server
