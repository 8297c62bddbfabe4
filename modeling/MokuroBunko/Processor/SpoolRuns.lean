import MokuroBunko.Processor.Spool

/-! What holds of the spool and of the fetches in every run: the accounts, and the files that the
fetches find.
-/

namespace MokuroBunko.Processor

open MokuroBunko.Lib

theorem sum_set_add {numbers : List ℕ} {index old : ℕ} (isOld : numbers[index]? = some old) (new : ℕ)
    : (numbers.set index new).sum + old = numbers.sum + new := by
  induction numbers generalizing index with
  | nil => cases isOld
  | cons first rest ih =>
      cases index with
      | zero =>
          cases isOld
          simp only [List.set_cons_zero, List.sum_cons]
          omega
      | succ index =>
          have later := ih (List.getElem?_cons_succ ▸ isOld)
          simp only [List.set_cons_succ, List.sum_cons]
          omega

namespace World

variable {world : World}

/-- The files that a fetch has, also those that it has given back. -/
def filesOf (world : World) (fetch : ℕ) : Files := fun id =>
  ((world.placements[id]?).filter (·.owner = some fetch)).map fun placement =>
    ⟨placement.kind, placement.size, placement.bytes⟩

theorem heldBy_eq_some {owner : Option ℕ} {id : ℕ} {placement : Placement}
    (isHeld : world.heldBy owner id = some placement)
    : world.placements[id]? = some placement ∧ placement.owner = owner
      ∧ placement.released = false := by
  obtain ⟨isPlacement, held⟩ := Option.filter_eq_some_iff.mp isHeld
  simp only [Bool.and_eq_true, decide_eq_true_eq, Bool.not_eq_true'] at held
  exact ⟨isPlacement, held⟩

theorem reserved_set {id : ℕ} {placement : Placement}
    (isPlacement : world.placements[id]? = some placement) (changed : Placement)
    (same : reservation changed = reservation placement)
    : ((world.placements.set id changed).map reservation).sum = world.reserved := by
  have isOld : (world.placements.map reservation)[id]? = some (reservation placement) := by
    rw [List.getElem?_map, isPlacement]
    rfl
  have sums := sum_set_add isOld (reservation changed)
  rw [List.map_set, reserved]
  omega

theorem filesOf_set {id : ℕ} {placement : Placement}
    (isPlacement : world.placements[id]? = some placement) (changed : Placement)
    (sameOwner : changed.owner = placement.owner) (fetch : ℕ)
    : filesOf { world with placements := world.placements.set id changed } fetch
      = if placement.owner = some fetch then
          Function.update (world.filesOf fetch) id (some ⟨changed.kind, changed.size, changed.bytes⟩)
        else world.filesOf fetch := by
  obtain ⟨inRange, isElement⟩ := List.getElem?_eq_some_iff.mp isPlacement
  funext other
  by_cases same : other = id
  · subst same
    split
    · rename_i isOwner
      simp [filesOf, inRange, sameOwner, isOwner]
    · rename_i notOwner
      simp [filesOf, inRange, isElement, Option.filter, sameOwner, notOwner]
  · have unchanged : filesOf { world with placements := world.placements.set id changed } fetch other
        = world.filesOf fetch other := by
      simp only [filesOf]
      rw [List.getElem?_set_ne (Ne.symm same)]
    rw [unchanged]
    split
    · rw [Function.update_of_ne same]
    · rfl

theorem release_filesOf (id fetch : ℕ) : (world.release id).filesOf fetch = world.filesOf fetch := by
  unfold release
  split
  · rfl
  rename_i placement isPlacement
  split
  · rfl
  have set := filesOf_set isPlacement { placement with released := true } rfl fetch
  refine Eq.trans set ?_
  split
  · rename_i isOwner
    funext other
    by_cases same : other = id
    · subst same
      simp [filesOf, isPlacement, isOwner]
    · rw [Function.update_of_ne same]
  · rfl

theorem rewrite_filesOf {owner : Option ℕ} {id : ℕ} {placement : Placement}
    (isHeld : world.heldBy owner id = some placement) (change : List UInt8 → List UInt8) (fetch : ℕ)
    : (world.rewrite owner id change).filesOf fetch
      = if owner = some fetch then (world.filesOf fetch).edit id change else world.filesOf fetch := by
  obtain ⟨isPlacement, rfl, _⟩ := heldBy_eq_some isHeld
  have set := filesOf_set isPlacement { placement with bytes := change placement.bytes } rfl fetch
  rw [rewrite, isHeld]
  refine Eq.trans set ?_
  split
  · rename_i isOwner
    congr 1
    simp [filesOf, isPlacement, isOwner]
  · rfl

theorem rewrite_filesOf_other {owner : Option ℕ} {fetch : ℕ} (other : owner ≠ some fetch) (id : ℕ)
    (change : List UInt8 → List UInt8)
    : (world.rewrite owner id change).filesOf fetch = world.filesOf fetch := by
  cases isHeld : world.heldBy owner id with
  | none => rw [rewrite, isHeld]
  | some placement => rw [rewrite_filesOf isHeld, if_neg other]

theorem added_filesOf (owner : Option ℕ) (kind : PlacementKind) (size fetch : ℕ)
    : (world.added owner kind size).filesOf fetch
      = if owner = some fetch then
          Function.update (world.filesOf fetch) world.placements.length (some ⟨kind, size, []⟩)
        else world.filesOf fetch := by
  have unused : world.filesOf fetch world.placements.length = none := by
    simp [filesOf]
  funext id
  by_cases same : id = world.placements.length
  · subst same
    split
    · rename_i isOwner
      simp [filesOf, added, isOwner]
    · rename_i notOwner
      simp [filesOf, added, notOwner]
  · have unchanged : (world.added owner kind size).filesOf fetch id = world.filesOf fetch id := by
      simp only [filesOf, added]
      obtain before | after := Nat.lt_or_gt_of_ne same
      · rw [List.getElem?_append_left before]
      · rw [List.getElem?_eq_none (by simp; omega), List.getElem?_eq_none (by omega)]
    rw [unchanged]
    split
    · rw [Function.update_of_ne same]
    · rfl

-- The accounts

theorem place_cases (world : World) (owner : Option ℕ) (size : ℕ) (memory : Bool) (probes : Probes)
    : (∃ error, world.place owner size memory probes = (.error error, world))
      ∨ ∃ kind inMemory, world.place owner size memory probes
          = (.ok ⟨world.placements.length, kind, size⟩,
              { world.added owner kind size with inMemory }) := by
  unfold place placeOnDisk
  split
  · exact .inr ⟨.memory, _, rfl⟩
  split
  · exact .inl ⟨_, rfl⟩
  split
  · exact .inl ⟨_, rfl⟩
  split
  · exact .inr ⟨.disk, world.inMemory, rfl⟩
  · exact .inl ⟨_, rfl⟩

structure Accounts (world : World) : Prop where
  reserved : world.inMemory = world.reserved
  budget : world.inMemory ≤ world.budget

theorem start_accounts (budget : ℕ) (memoryEnabled : Bool) : (start budget memoryEnabled).Accounts :=
  ⟨rfl, Nat.zero_le budget⟩

theorem Accounts.withFetches (accounts : world.Accounts) (fetches : List FetchTask)
    : Accounts { world with fetches } :=
  ⟨accounts.reserved, accounts.budget⟩

theorem reserved_added (owner : Option ℕ) (kind : PlacementKind) (size : ℕ)
    : (world.added owner kind size).reserved
      = world.reserved + if kind = .memory then size else 0 := by
  simp [reserved, added, reservation]

theorem Accounts.release (accounts : world.Accounts) (id : ℕ) : (world.release id).Accounts := by
  unfold World.release
  split
  · exact accounts
  rename_i placement isPlacement
  split
  · exact accounts
  rename_i held
  have isOld : (world.placements.map reservation)[id]? = some (reservation placement) := by
    rw [List.getElem?_map, isPlacement]
    rfl
  have sums := sum_set_add isOld (reservation { placement with released := true })
  have given : reservation { placement with released := true } = 0 := by
    simp [reservation]
  have mine : reservation placement = if placement.kind = .memory then placement.size else 0 := by
    simp [reservation, Bool.not_eq_true _ ▸ held]
  have sameReserved := accounts.reserved
  have inBudget := accounts.budget
  rw [given, mine] at sums
  constructor
  · unfold World.reserved at sameReserved ⊢
    rw [List.map_set, given]
    dsimp only
    split at sums <;> rename_i kind <;> simp only [kind, if_true, if_false] <;> omega
  · dsimp only
    split <;> omega

theorem Accounts.rewrite (accounts : world.Accounts) (owner : Option ℕ) (id : ℕ)
    (change : List UInt8 → List UInt8)
    : (world.rewrite owner id change).Accounts := by
  unfold World.rewrite
  split
  · exact accounts
  rename_i placement isHeld
  have same := reserved_set (heldBy_eq_some isHeld).1
    { placement with bytes := change placement.bytes } rfl
  exact ⟨accounts.reserved.trans same.symm, accounts.budget⟩

theorem Accounts.place (accounts : world.Accounts) (owner : Option ℕ) {size : ℕ} {memory : Bool}
    (small : memory → world.inMemory + size < 2 ^ 64) (probes : Probes)
    : (world.place owner size memory probes).2.Accounts := by
  have sameReserved := accounts.reserved
  have inBudget := accounts.budget
  unfold World.place
  split
  · rename_i fits
    simp only [fitsMemory, Bool.and_eq_true, decide_eq_true_eq] at fits
    obtain ⟨⟨⟨⟨asked, _⟩, _⟩, inside, _⟩, _⟩ := fits
    have isSum : wrapAdd world.inMemory size = world.inMemory + size := Nat.mod_eq_of_lt (small asked)
    have added := @reserved_added world owner .memory size
    rw [isSum] at inside ⊢
    refine ⟨?_, inside⟩
    change world.inMemory + size = (world.added owner .memory size).reserved
    rw [added, sameReserved, if_pos rfl]
  · have added := @reserved_added world owner .disk size
    rw [if_neg nofun, Nat.add_zero] at added
    unfold placeOnDisk
    split
    · exact accounts
    split
    · exact accounts
    split
    · exact ⟨sameReserved.trans added.symm, inBudget⟩
    · exact accounts

-- The placements

/-- A placement of one of so many fetches, with no more bytes than it reserves. -/
structure Within (bounded : Prop) (count : ℕ) (placement : Placement) : Prop where
  written : bounded → placement.kind = .memory → placement.bytes.length ≤ placement.size
  owner : ∀ owner ∈ placement.owner, owner < count

def AllWithin (bounded : Prop) (count : ℕ) (world : World) : Prop :=
  ∀ placement ∈ world.placements, Within bounded count placement

section Placements

variable {bounded : Prop} {count : ℕ}

theorem AllWithin.set (within : AllWithin bounded count world) (changed : Placement)
    (isWithin : Within bounded count changed) (id : ℕ)
    : ∀ placement ∈ world.placements.set id changed, Within bounded count placement := by
  intro placement isIn
  obtain isOld | isNew := List.mem_or_eq_of_mem_set isIn
  · exact within placement isOld
  · exact isNew ▸ isWithin

theorem AllWithin.release (within : AllWithin bounded count world) (id : ℕ)
    : AllWithin bounded count (world.release id) := by
  unfold World.release
  split
  · exact within
  rename_i placement isPlacement
  split
  · exact within
  have before := within placement (List.mem_of_getElem? isPlacement)
  exact within.set { placement with released := true } ⟨before.written, before.owner⟩ id

theorem AllWithin.rewrite (within : AllWithin bounded count world) {owner : Option ℕ} {id : ℕ}
    {change : List UInt8 → List UInt8}
    (fits
      : bounded → ∀ placement ∈ world.heldBy owner id, placement.kind = .memory
          → (change placement.bytes).length ≤ placement.size)
    : AllWithin bounded count (world.rewrite owner id change) := by
  unfold World.rewrite
  split
  · exact within
  rename_i placement isHeld
  have before := within placement (List.mem_of_getElem? (heldBy_eq_some isHeld).1)
  exact within.set { placement with bytes := change placement.bytes }
    ⟨fun asked => fits asked placement isHeld, before.owner⟩ id

theorem AllWithin.added (within : AllWithin bounded count world) {owner : Option ℕ}
    (isOwner : ∀ fetch ∈ owner, fetch < count) (kind : PlacementKind) (size : ℕ)
    : AllWithin bounded count (world.added owner kind size) := by
  intro placement isIn
  obtain isOld | isNew := List.mem_append.mp isIn
  · exact within placement isOld
  · rw [List.mem_singleton.mp isNew]
    exact ⟨fun _ _ => Nat.zero_le _, isOwner⟩

theorem AllWithin.place (within : AllWithin bounded count world) {owner : Option ℕ}
    (isOwner : ∀ fetch ∈ owner, fetch < count) (size : ℕ) (memory : Bool) (probes : Probes)
    : AllWithin bounded count (world.place owner size memory probes).2 := by
  obtain ⟨error, same⟩ | ⟨kind, inMemory, same⟩ := place_cases world owner size memory probes
  · rw [same]
    exact within
  · rw [same]
    exact within.added isOwner kind size

end Placements

theorem place_gives {bounded : Prop} {allowed : Answer → Copy → Body → Prop} (owner size : ℕ)
    (memory : Bool) (probes : Probes)
    : (contract bounded allowed).gives (.place size memory) (world.filesOf owner)
        (world.place (some owner) size memory probes).1
        ((world.place (some owner) size memory probes).2.filesOf owner) := by
  have unused : world.filesOf owner world.placements.length = none := by
    simp [filesOf]
  obtain ⟨error, same⟩ | ⟨kind, inMemory, same⟩ :=
    place_cases world (some owner) size memory probes
  · rw [same]
    rfl
  · rw [same]
    refine ⟨rfl, unused, ?_⟩
    exact (added_filesOf (some owner) kind size owner).trans (if_pos rfl)

theorem place_filesOf_other {owner : Option ℕ} {fetch : ℕ} (other : owner ≠ some fetch) (size : ℕ)
    (memory : Bool) (probes : Probes)
    : (world.place owner size memory probes).2.filesOf fetch = world.filesOf fetch := by
  obtain ⟨error, same⟩ | ⟨kind, inMemory, same⟩ := place_cases world owner size memory probes
  · rw [same]
  · rw [same]
    exact (added_filesOf owner kind size fetch).trans (if_neg other)

-- Steps

/-- A body is one of those allowed for the answer and the copy, and no size placed wraps if the spool is
to be accounted for.
-/
def CallMeets (bounded : Prop) (allowed : Answer → Copy → Body → Prop) (world : World)
    : FetchCall → Input → Prop
  | .body answer copy, .body body => allowed answer copy body
  | .place size memory, _ => bounded → memory → world.inMemory + size < 2 ^ 64
  | _, _ => True

/-- What is asked of a step, of those that are not fetches too if the spool is to be accounted for. -/
def Meets (bounded : Prop) (allowed : Answer → Copy → Body → Prop) (world : World)
    : SpoolStep → Prop
  | .advance index input =>
      match world.fetches[index]? with
      | some (.call asked _) => CallMeets bounded allowed world asked input
      | _ => True
  | .place size memory _ => bounded → memory → world.inMemory + size < 2 ^ 64
  | .write id data _ =>
      bounded → ∀ placement ∈ world.heldBy none id, placement.kind = .memory
        → placement.bytes.length + data.length ≤ placement.size
  | _ => True

section Decisions

variable (bounded : Prop) [Decidable bounded] (allowed : Answer → Copy → Body → Prop)
  [∀ answer copy body, Decidable (allowed answer copy body)]

instance (world : World) : ∀ asked input, Decidable (CallMeets bounded allowed world asked input)
  | .body answer copy, .body body => inferInstanceAs (Decidable (allowed answer copy body))
  | .place size memory, _ => inferInstanceAs (Decidable (_ → _ → world.inMemory + size < 2 ^ 64))
  | .isCancelled, _ | .request _ _, _ | .write _ _, _ | .reset _, _ | .drop _, _ | .verify _, _
  | .wait, _ | .body _ _, .cancelled _ | .body _ _, .sent _ | .body _ _, .placed _
  | .body _ _, .written | .body _ _, .notWritten _ _ | .body _ _, .reset _ | .body _ _, .dropped
  | .body _ _, .verified _ | .body _ _, .waited _ =>
      isTrue trivial

instance (world : World) : ∀ taken, Decidable (Meets bounded allowed world taken)
  | .advance index input =>
      match isTask : world.fetches[index]? with
      | some (.call asked _) =>
          decidable_of_iff (CallMeets bounded allowed world asked input) (by simp [Meets, isTask])
      | some (.done _) => isTrue (by simp [Meets, isTask])
      | none => isTrue (by simp [Meets, isTask])
  | .place size memory _ => inferInstanceAs (Decidable (_ → _ → world.inMemory + size < 2 ^ 64))
  | .write id data _ =>
      inferInstanceAs (Decidable (_ → ∀ placement ∈ world.heldBy none id, _ → _))
  | .begin _ _ | .abandon _ | .reset _ _ | .release _ => isTrue trivial

end Decisions

section Steps

variable {bounded : Prop} {allowed : Answer → Copy → Body → Prop} {count : ℕ}

/-- What a fetch's call leaves. -/
structure Performed (bounded : Prop) (allowed : Answer → Copy → Body → Prop) (world : World)
    (owner : ℕ) (asked : FetchCall) (reply : asked.Reply) (after : World)
    : Prop where
  gives : (contract bounded allowed).gives asked (world.filesOf owner) reply (after.filesOf owner)
  others : ∀ fetch, owner ≠ fetch → after.filesOf fetch = world.filesOf fetch
  accounts : bounded → world.Accounts → after.Accounts
  within
    : ∀ count, owner < count → AllWithin bounded count world → AllWithin bounded count after

theorem Performed.of_same {owner : ℕ} {asked : FetchCall} {reply : asked.Reply}
    (gives
      : (contract bounded allowed).gives asked (world.filesOf owner) reply (world.filesOf owner))
    : Performed bounded allowed world owner asked reply world :=
  ⟨gives, fun _ _ => rfl, fun _ accounts => accounts, fun _ _ within => within⟩

theorem Files.edit_same (files : Files) (id : ℕ) : files.edit id (· ++ []) = files := by
  funext other
  unfold Files.edit
  by_cases same : other = id
  · subst same
    rw [Function.update_self]
    cases files other <;> simp
  · rw [Function.update_of_ne same]

theorem Performed.of_rewrite {owner id : ℕ} {asked : FetchCall} {reply : asked.Reply}
    {placement : Placement} (isHeld : world.heldBy (some owner) id = some placement)
    {change : List UInt8 → List UInt8}
    (gives
      : (contract bounded allowed).gives asked (world.filesOf owner) reply
          ((world.filesOf owner).edit id change))
    (fits
      : bounded → placement.kind = .memory → (change placement.bytes).length ≤ placement.size)
    : Performed bounded allowed world owner asked reply (world.rewrite (some owner) id change) where
  gives := by
    rw [rewrite_filesOf isHeld, if_pos rfl]
    exact gives
  others := by
    intro fetch other
    exact rewrite_filesOf_other (fun same => other (Option.some.inj same)) id change
  accounts := fun _ accounts => accounts.rewrite _ _ _
  within := by
    intro count _ within
    refine within.rewrite ?_
    intro asked found isFound
    rw [isHeld] at isFound
    cases isFound
    exact fits asked

theorem filesOf_held {owner id : ℕ} {placement : Placement}
    (isHeld : world.heldBy (some owner) id = some placement)
    : world.filesOf owner id = some ⟨placement.kind, placement.size, placement.bytes⟩ := by
  obtain ⟨isPlacement, isOwner, _⟩ := heldBy_eq_some isHeld
  simp [filesOf, isPlacement, isOwner]

theorem perform_performed {owner : ℕ} {asked : FetchCall} {input : Input} {reply : asked.Reply}
    {after : World} (isReply : world.perform owner asked input = some (reply, after))
    (requires : (contract bounded allowed).requires asked (world.filesOf owner))
    (meets : CallMeets bounded allowed world asked input)
    : Performed bounded allowed world owner asked reply after := by
  cases asked with
  | isCancelled =>
      cases input with
      | cancelled isCancelled =>
          cases isReply
          exact .of_same rfl
      | _ => cases isReply
  | request received etag =>
      cases input with
      | sent sent =>
          cases isReply
          exact .of_same rfl
      | _ => cases isReply
  | body answer copy =>
      cases input with
      | body body =>
          cases isReply
          exact .of_same ⟨meets, rfl⟩
      | _ => cases isReply
  | place size memory =>
      cases input with
      | placed probes =>
          have placed : world.place (some owner) size memory probes = (reply, after) :=
            Option.some.inj isReply
          obtain rfl : reply = (world.place (some owner) size memory probes).1 := by rw [placed]
          obtain rfl : after = (world.place (some owner) size memory probes).2 := by rw [placed]
          refine ⟨place_gives owner size memory probes, ?_, ?_, ?_⟩
          · intro fetch other
            exact place_filesOf_other (fun same => other (Option.some.inj same)) size memory probes
          · intro asked accounts
            exact accounts.place _ (meets asked) probes
          · intro count inRange within
            exact within.place (by simpa using inRange) size memory probes
      | _ => cases isReply
  | write id data =>
      have fits {placement : Placement} (isHeld : world.heldBy (some owner) id = some placement)
          : Roomy bounded placement.kind placement.size placement.bytes.length data.length :=
        requires _ (filesOf_held isHeld)
      cases input with
      | written =>
          simp only [perform] at isReply
          split at isReply
          · cases isReply
            exact .of_same ⟨[], List.nil_prefix, (Files.edit_same _ id).symm⟩
          · rename_i placement isHeld
            cases isReply
            refine .of_rewrite isHeld rfl ?_
            intro asked memory
            rw [List.length_append]
            exact fits isHeld asked memory
      | notWritten error count =>
          cases isReply
          cases isHeld : world.heldBy (some owner) id with
          | none =>
              have same : world.rewrite (some owner) id (· ++ data.take count) = world := by
                rw [rewrite, isHeld]
              rw [same]
              exact .of_same ⟨[], List.nil_prefix, (Files.edit_same _ id).symm⟩
          | some placement =>
              refine .of_rewrite isHeld ⟨data.take count, List.take_prefix _ _, rfl⟩ ?_
              intro asked memory
              have whole := fits isHeld asked memory
              rw [List.length_append, List.length_take]
              omega
      | _ => cases isReply
  | reset id =>
      cases input with
      | reset worked =>
          simp only [perform] at isReply
          split at isReply
          · rename_i placement isHeld
            cases isReply
            exact .of_rewrite isHeld rfl (fun _ _ => Nat.zero_le _)
          · cases isReply
            exact .of_same rfl
      | _ => cases isReply
  | drop id =>
      cases input with
      | dropped =>
          cases isReply
          exact ⟨release_filesOf id owner, fun fetch _ => release_filesOf id fetch,
            fun _ accounts => accounts.release id, fun _ _ within => within.release id⟩
      | _ => cases isReply
  | verify id =>
      cases input with
      | verified verified =>
          cases isReply
          exact .of_same rfl
      | _ => cases isReply
  | wait =>
      cases input with
      | waited waited =>
          cases isReply
          exact .of_same rfl
      | _ => cases isReply

structure Invariant (bounded : Prop) (allowed : Answer → Copy → Body → Prop)
    (crc32 : List UInt8 → UInt32) (done : Copy → Prop) (world : World)
    : Prop where
  fetches
    : ∀ index (task : FetchTask), world.fetches[index]? = some task
        → task.Ensures (contract bounded allowed) (Fetched crc32 done) (world.filesOf index)
  accounts : bounded → world.Accounts
  within : AllWithin bounded world.fetches.length world

variable {crc32 : List UInt8 → UInt32} {done : Copy → Prop}

theorem start_invariant (budget : ℕ) (memoryEnabled : Bool)
    : (start budget memoryEnabled).Invariant bounded allowed crc32 done where
  fetches := nofun
  accounts := fun _ => start_accounts budget memoryEnabled
  within := nofun

theorem Invariant.of_files (holds : world.Invariant bounded allowed crc32 done) {after : World}
    (fetches : after.fetches = world.fetches)
    (files : ∀ fetch, after.filesOf fetch = world.filesOf fetch)
    (accounts : bounded → world.Accounts → after.Accounts)
    (within : ∀ count, AllWithin bounded count world → AllWithin bounded count after)
    : after.Invariant bounded allowed crc32 done where
  fetches := by
    intro index program isProgram
    rw [files index]
    exact holds.fetches index program (fetches ▸ isProgram)
  accounts := fun asked => accounts asked (holds.accounts asked)
  within := by
    rw [fetches]
    exact within _ holds.within

theorem step_begin (reading : ∀ size, ∃ good, Reading bounded allowed size good done)
    (holds : world.Invariant bounded allowed crc32 done) (maxRestarts : ℕ) (size : Option ℕ)
    (patience : ℕ)
    : (world.step crc32 maxRestarts (.begin size patience)).Invariant bounded allowed crc32 done where
  fetches := by
    intro index program isProgram
    simp only [step] at isProgram
    obtain before | same | later := Nat.lt_trichotomy index world.fetches.length
    · rw [List.getElem?_append_left before] at isProgram
      exact holds.fetches index program isProgram
    · subst same
      rw [List.getElem?_concat_length] at isProgram
      cases isProgram
      have none_ : world.filesOf world.fetches.length = fun _ => none := by
        funext id
        simp only [filesOf, Option.map_eq_none_iff, Option.filter_eq_none_iff]
        intro placement isPlacement isOwner
        have inRange := (holds.within placement (List.mem_of_getElem? isPlacement)).owner _
          (of_decide_eq_true isOwner)
        omega
      obtain ⟨good, reading⟩ := reading size
      have ensured := fetch_ensures reading crc32 maxRestarts patience
      rw [← none_] at ensured
      exact ensured
    · rw [List.getElem?_eq_none (by simp; omega)] at isProgram
      cases isProgram
  accounts := fun asked => (holds.accounts asked).withFetches _
  within := by
    intro placement isPlacement
    have before := holds.within placement isPlacement
    refine ⟨before.written, ?_⟩
    intro owner isOwner
    have inRange := before.owner owner isOwner
    simp only [step, List.length_append, List.length_singleton]
    omega

theorem step_advance (holds : world.Invariant bounded allowed crc32 done) {index : ℕ} {input : Input}
    (meets : world.Meets bounded allowed (.advance index input))
    : (world.advance index input).Invariant bounded allowed crc32 done := by
  unfold advance
  split
  case h_2 => exact holds
  rename_i asked next isProgram
  split
  case h_2 => exact holds
  rename_i reply after isReply
  have ensured := holds.fetches index _ isProgram
  simp only [Meets, isProgram] at meets
  have performed := perform_performed isReply ensured.1 meets
  have inRange := (List.getElem?_eq_some_iff.mp isProgram).1
  refine ⟨?_, fun asked => (performed.accounts asked (holds.accounts asked)).withFetches _, ?_⟩
  · intro other program isOther
    by_cases same : index = other
    · subst same
      rw [List.getElem?_set_self inRange] at isOther
      cases isOther
      exact ensured.2 reply _ performed.gives
    · rw [List.getElem?_set_ne same] at isOther
      have unchanged := performed.others other same
      have stays := holds.fetches other program isOther
      rw [← unchanged] at stays
      exact stays
  · dsimp only
    rw [List.length_set]
    exact performed.within _ inRange holds.within

theorem release_invariant (holds : world.Invariant bounded allowed crc32 done) (id : ℕ)
    : (world.release id).Invariant bounded allowed crc32 done := by
  refine holds.of_files ?_ (release_filesOf id) (fun _ accounts => accounts.release id)
    (fun _ within => within.release id)
  unfold release
  split
  · rfl
  split
  · rfl
  · rfl

theorem rewrite_invariant (holds : world.Invariant bounded allowed crc32 done) {id : ℕ}
    {change : List UInt8 → List UInt8}
    (fits
      : bounded → ∀ placement ∈ world.heldBy none id, placement.kind = .memory
          → (change placement.bytes).length ≤ placement.size)
    : (world.rewrite none id change).Invariant bounded allowed crc32 done := by
  have nobody (fetch : ℕ) : none ≠ some fetch := nofun
  refine holds.of_files ?_ (fun fetch => rewrite_filesOf_other (nobody fetch) id change)
    (fun _ accounts => accounts.rewrite none id change) (fun _ within => within.rewrite fits)
  unfold rewrite
  split
  · rfl
  · rfl

theorem releaseOwned_invariant (holds : world.Invariant bounded allowed crc32 done) (owner : ℕ)
    : (world.releaseOwned owner).Invariant bounded allowed crc32 done := by
  unfold releaseOwned
  refine List.foldlRecOn _ _ holds ?_
  intro world holds id _
  split
  · exact release_invariant holds id
  · exact holds

theorem stopped_invariant (holds : world.Invariant bounded allowed crc32 done) (index : ℕ)
    : (world.stopped index).Invariant bounded allowed crc32 done where
  fetches := by
    intro other task isTask
    simp only [stopped, List.getElem?_set] at isTask
    split at isTask
    · split at isTask
      · cases isTask
        exact nofun
      · cases isTask
    · exact holds.fetches other task isTask
  accounts := fun asked => (holds.accounts asked).withFetches _
  within := by
    simp only [stopped, List.length_set]
    exact holds.within

theorem step_invariant (reading : ∀ size, ∃ good, Reading bounded allowed size good done)
    (maxRestarts : ℕ) (world : World) (taken : SpoolStep)
    (holds : world.Invariant bounded allowed crc32 done) (meets : world.Meets bounded allowed taken)
    : (world.step crc32 maxRestarts taken).Invariant bounded allowed crc32 done := by
  have nobody (fetch : ℕ) : none ≠ some fetch := nofun
  cases taken with
  | begin size patience => exact step_begin reading holds maxRestarts size patience
  | advance index input => exact step_advance holds meets
  | abandon index => exact stopped_invariant (releaseOwned_invariant holds index) index
  | place size memory probes =>
      simp only [step]
      refine holds.of_files ?_ (fun fetch => place_filesOf_other (nobody fetch) size memory probes)
        (fun asked accounts => accounts.place none (meets asked) probes)
        (fun _ within => within.place (by simp) size memory probes)
      obtain ⟨error, same⟩ | ⟨kind, inMemory, same⟩ := place_cases world none size memory probes
      · rw [same]
      · rw [same]
        rfl
  | write id data failed =>
      cases failed with
      | none =>
          simp only [step]
          refine rewrite_invariant holds ?_
          intro asked placement isHeld memory
          rw [List.length_append]
          exact meets asked placement isHeld memory
      | some count =>
          simp only [step]
          refine rewrite_invariant holds ?_
          intro asked placement isHeld memory
          have whole := meets asked placement isHeld memory
          rw [List.length_append, List.length_take]
          omega
  | reset id worked =>
      simp only [step]
      split
      · exact rewrite_invariant holds (fun _ _ _ _ => Nat.zero_le _)
      · exact holds
  | release id =>
      simp only [step]
      split
      · exact holds
      split
      · exact release_invariant holds id
      · exact holds

end Steps

-- The budget

/-- A body that is read into memory is no longer than what is reserved for it. -/
def Fits (_ : Answer) (copy : Copy) (body : Body) : Prop :=
  ∀ placement ∈ copy.placement, placement.kind = .memory
    → copy.received + body.bytes.length ≤ placement.size

instance (answer : Answer) (copy : Copy) (body : Body) : Decidable (Fits answer copy body) :=
  inferInstanceAs (Decidable (∀ placement ∈ copy.placement, _))

theorem reading_fits (size : Option ℕ)
    : Reading True Fits size (fun _ => True) (fun _ => True) where
  empty := fun _ _ => trivial
  reads := fun _ _ _ _ _ => trivial
  fits := fun _ _ _ _ fits => fits
  completes := fun _ _ _ _ _ _ => trivial

theorem Invariant.kept {allowed : Answer → Copy → Body → Prop} {crc32 : List UInt8 → UInt32}
    {done : Copy → Prop} (holds : world.Invariant True allowed crc32 done)
    : world.Kept := by
  obtain ⟨sameReserved, inBudget⟩ := holds.accounts trivial
  refine ⟨sameReserved, inBudget, ?_, ?_⟩
  · intro placement isIn
    exact (holds.within placement isIn).written trivial
  · intro given
    rw [sameReserved, reserved]
    refine List.sum_eq_zero ?_
    intro size isSize
    obtain ⟨placement, isIn, rfl⟩ := List.mem_map.mp isSize
    simp [reservation, given placement isIn]

/-- In a run in which no body read into memory is longer than what is reserved for it, and neither is
what others write, and no sum of sizes reaches 2^64, the spool stays in its budget.
-/
theorem spool_kept {crc32 : List UInt8 → UInt32} {maxRestarts budget : ℕ} {memoryEnabled : Bool}
    {taken : List SpoolStep}
    (orderly
      : Runs.Orderly (step crc32 maxRestarts) (Meets True Fits) (start budget memoryEnabled) taken)
    : (taken.foldl (step crc32 maxRestarts) (start budget memoryEnabled)).Kept := by
  have reading (size : Option ℕ) : ∃ good, Reading True Fits size good (fun _ => True) :=
    ⟨_, reading_fits size⟩
  exact (orderly.invariant (step_invariant reading maxRestarts)
    (start_invariant budget memoryEnabled)).kept

/-- An answer without a length to a fetch of four bytes, and the body that comes with it. -/
def fourBytes (data : List UInt8) : List SpoolStep :=
  [
    .begin (some 4) 2,
    .advance 0 (.cancelled false),
    .advance 0 (.sent (.answered ⟨200, false, some "\"v1\"", none, none⟩)),
    .advance 0 (.placed ⟨none, true, none, false⟩),
    .advance 0 (.body ⟨[data], .clean⟩),
    .advance 0 .written
  ]

theorem spool_kept_fourBytes
    : ((fourBytes [1, 2, 3, 4]).foldl (step (fun _ => 0) 3) (start (2 ^ 30) true)).Kept :=
  spool_kept (by decide +kernel)

/-- Six bytes arrive where four are reserved. -/
theorem not_spool_kept_sixBytes
    : ¬ ((fourBytes [1, 2, 3, 4, 5, 6]).foldl (step (fun _ => 0) 3) (start (2 ^ 30) true)).Kept := by
  intro kept
  have beyond
      : ∃ placement ∈ ((fourBytes [1, 2, 3, 4, 5, 6]).foldl (step (fun _ => 0) 3)
          (start (2 ^ 30) true)).placements,
        placement.kind = .memory ∧ placement.size < placement.bytes.length := by
    decide +kernel
  obtain ⟨placement, isIn, memory, exceeds⟩ := beyond
  exact Nat.not_le_of_lt exceeds (kept.written placement isIn memory)

end World

end MokuroBunko.Processor
