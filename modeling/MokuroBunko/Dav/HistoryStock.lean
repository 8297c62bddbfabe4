import MokuroBunko.Dav.HistoryQuota

/-! What an upload into the reading history finds out about the disk, and why it stays right:
its room is measured once, and what other requests do meanwhile can only leave more of it.
-/

namespace MokuroBunko.Dav

open MokuroBunko.Lib

-- The trees of different accounts

/-- Some account's base. -/
def Roots.IsBase (roots : Roots) (base : OsPath) : Prop :=
  ∃ caller, roots.userBase caller = some base

theorem Roots.historyRoot_not_above {roots : Roots} {base other : OsPath}
    (ofBase : roots.IsBase base) (ofOther : roots.IsBase other)
    : ¬ historyRoot base <+: other := by
  intro above
  obtain ⟨caller, found⟩ := ofBase
  obtain ⟨caller', found'⟩ := ofOther
  unfold historyRoot at above
  have front := (List.prefix_append base [historyDir]).trans above
  have length := above.length_le
  rw [List.length_append, List.length_singleton] at length
  obtain ⟨_, rfl⟩ | ⟨_, _, rfl⟩ := userBase_cases found
  · obtain ⟨_, rfl⟩ | ⟨_, _, rfl⟩ := userBase_cases found'
    · omega
    · obtain whole | inUsers := List.prefix_concat_iff.mp above
      · have same := (List.append_inj' whole rfl).1
        exact roots.usersOutside (same ▸ List.prefix_rfl)
      · exact roots.usersOutside ((List.prefix_append ..).trans inUsers)
  · obtain ⟨_, rfl⟩ | ⟨_, _, rfl⟩ := userBase_cases found'
    · exact roots.libraryOutside ((List.prefix_append ..).trans front)
    · rw [List.length_append, List.length_append, List.length_singleton,
        List.length_singleton] at length
      omega

theorem Roots.base_eq_of_history {roots : Roots} {base other path : OsPath}
    (ofBase : roots.IsBase base) (ofOther : roots.IsBase other)
    (inBase : historyRoot base <+: path) (inOther : historyRoot other <+: path)
    : base = other := by
  obtain within | within := List.prefix_or_prefix_of_prefix inBase inOther
  · obtain whole | above := List.prefix_concat_iff.mp (show _ <+: other ++ [historyDir] from within)
    · exact (List.append_inj' whole rfl).1
    · exact absurd above (historyRoot_not_above ofBase ofOther)
  · obtain whole | above := List.prefix_concat_iff.mp (show _ <+: base ++ [historyDir] from within)
    · exact ((List.append_inj' whole rfl).1).symm
    · exact absurd above (historyRoot_not_above ofOther ofBase)

theorem inHistory_iff {base path : OsPath}
    : inHistory base path = true ↔ historyRoot base <+: path ∧ path ≠ historyRoot base := by
  simp [inHistory]

-- Bytes stored

/-- The bytes of the files at the kept places. -/
def bytes (disk : OrderedMap OsPath Stored) (keep : OsPath → Bool) : ℕ :=
  disk.weigh (fun path node => if keep path then node.size else 0)

/-- The bytes an account has stored. -/
def usage (disk : OrderedMap OsPath Stored) (base : OsPath) : ℕ := bytes disk (inHistory base)

section Bytes

variable {disk after : OrderedMap OsPath Stored} {keep other : OsPath → Bool}

theorem bytes_le
    (covered : ∀ path size, disk.get? path = some (.file size) → keep path = true
      → other path = true ∧ after.get? path = some (.file size))
    : bytes disk keep ≤ bytes after other := by
  apply OrderedMap.weigh_le
  intro path node found
  cases kept : keep path with
  | false => exact .inl (by simp)
  | true =>
      cases node with
      | folder => exact .inl (by simp [Stored.size])
      | file size =>
          obtain ⟨keptToo, present⟩ := covered path size found kept
          exact .inr ⟨.file size, present, by simp [keptToo]⟩

theorem bytes_erase (path : OsPath)
    : bytes (disk.erase path) keep = bytes disk (fun place => keep place && place != path) := by
  unfold bytes
  rw [OrderedMap.weigh_erase_eq]
  congr 1
  funext place node
  by_cases same : place = path <;> simp [same]

theorem bytes_split {path : OsPath} {node : Stored} (found : disk.get? path = some node)
    : bytes disk keep
      = (if keep path then node.size else 0)
        + bytes disk (fun place => keep place && place != path) := by
  rw [← bytes_erase]
  exact OrderedMap.weigh_erase _ found

theorem bytes_insert (path : OsPath) (node : Stored)
    : bytes (disk.insert path node) keep
      = (if keep path then node.size else 0)
        + bytes disk (fun place => keep place && place != path) := by
  rw [← bytes_erase]
  exact OrderedMap.weigh_insert ..

end Bytes

-- Stores within their limits

/-- Every account's history is a tree and within the limits. -/
structure Stock (roots : Roots) (limits : HistoryLimits) (disk : OrderedMap OsPath Stored)
    : Prop where
  nested : ∀ {base}, roots.IsBase base → ∀ path name, historyRoot base <+: path
    → (disk.get? (path ++ [name])).isSome → disk.get? path = some .folder
  total : ∀ {base}, roots.IsBase base → usage disk base ≤ limits.maxTotalBytes
  files : ∀ {base}, roots.IsBase base → ∀ {path size}, inHistory base path = true
    → disk.get? path = some (.file size) → size ≤ limits.maxFileBytes

namespace Stock

variable {roots : Roots} {limits : HistoryLimits} {disk : OrderedMap OsPath Stored}
  {base path : OsPath}

theorem folder_above (stock : Stock roots limits disk) (ofBase : roots.IsBase base)
    (within : historyRoot base <+: path) {more : List String} (below : more ≠ [])
    (present : disk.get? (path ++ more) ≠ none)
    : disk.get? path = some .folder := by
  by_contra missing
  exact present (none_below (stock.nested ofBase) within missing below)

theorem fewer (stock : Stock roots limits disk) {after : OrderedMap OsPath Stored}
    (nested : ∀ {base}, roots.IsBase base → ∀ path name, historyRoot base <+: path
      → (after.get? (path ++ [name])).isSome → after.get? path = some .folder)
    (old : ∀ place size, after.get? place = some (.file size)
      → disk.get? place = some (.file size))
    : Stock roots limits after where
  nested := nested
  total ofBase :=
    (bytes_le (fun place size found kept => ⟨kept, old place size found⟩)).trans
      (stock.total ofBase)
  files ofBase _ _ inside found := stock.files ofBase inside (old _ _ found)

theorem makeFolder (stock : Stock roots limits disk)
    (parent : disk.get? path.dropLast = some .folder
      ∨ ∀ base, roots.IsBase base → ¬ historyRoot base <+: path.dropLast)
    : Stock roots limits (disk.insert path .folder) := by
  apply stock.fewer
  · intro base ofBase place name within present
    rw [OrderedMap.get?_insert] at present ⊢
    split_ifs with same
    · rfl
    · split_ifs at present with made
      · obtain rfl : place = path.dropLast := by rw [← made, List.dropLast_concat]
        exact parent.resolve_right (fun outside => outside base ofBase within)
      · exact stock.nested ofBase place name within present
  · intro place size found
    rw [OrderedMap.get?_insert] at found
    split_ifs at found
    · cases found
    · exact found

theorem erase (stock : Stock roots limits disk)
    (bare : ∀ name, disk.get? (path ++ [name]) = none)
    : Stock roots limits (disk.erase path) := by
  apply stock.fewer
  · intro base ofBase place name within present
    rw [OrderedMap.get?_erase] at present ⊢
    split_ifs at present with gone
    · cases present
    · split_ifs with same
      · rw [same, bare name] at present
        cases present
      · exact stock.nested ofBase place name within present
  · intro place size found
    rw [OrderedMap.get?_erase] at found
    split_ifs at found
    exact found

theorem publish (stock : Stock roots limits disk) {put : Put} {size : ℕ}
    (ofBase : roots.IsBase put.base) (inside : inHistory put.base put.dest = true)
    (parent : disk.get? put.dest.dropLast = some .folder)
    (vacant : disk.get? put.dest ≠ some .folder)
    (small : size ≤ limits.maxFileBytes)
    (fits : bytes disk (fun place => inHistory put.base place && place != put.dest) + size
      ≤ limits.maxTotalBytes)
    : Stock roots limits (disk.insert put.dest (.file size)) where
  nested := by
    intro base other place name within present
    rw [OrderedMap.get?_insert] at present ⊢
    split_ifs with same
    · rw [same] at within present
      rw [if_neg (by simp)] at present
      exact absurd (stock.nested other put.dest name within present) vacant
    · split_ifs at present with made
      · obtain rfl : place = put.dest.dropLast := by rw [← made, List.dropLast_concat]
        exact parent
      · exact stock.nested other place name within present
  total := by
    intro base other
    rw [usage, bytes_insert]
    by_cases same : base = put.base
    · subst same
      rw [if_pos inside, Stored.size]
      omega
    · have outside : inHistory base put.dest = false := by
        apply Bool.eq_false_of_not_eq_true
        intro within
        exact same (Roots.base_eq_of_history other ofBase (inHistory_iff.mp within).1
          (inHistory_iff.mp inside).1)
      rw [if_neg (by simp [outside]), Nat.zero_add]
      refine (bytes_le ?_).trans (stock.total other)
      intro place size found kept
      exact ⟨(Bool.and_eq_true_iff.mp kept).1, found⟩
  files := by
    intro base other place stored within found
    rw [OrderedMap.get?_insert] at found
    split_ifs at found with same
    · obtain rfl := Stored.file.inj (Option.some.inj found)
      exact small
    · exact stock.files other within found

end Stock

-- What an upload knows of the disk

/-- The path a request holds the lock of. -/
def Phase.lockedPath : Phase → Option OsPath
  | .deleting path => some path
  | .locked put | .waiting put _ | .entered put _ | .looked put _ _ | .walking put _ _ _ _
  | .writing put _ _ _ | .leaving put _ => some put.dest
  | .other | .unlocking => none

/-- Whether the request can neither publish nor be refused any more. -/
def Phase.isOver : Phase → Bool
  | .leaving _ _ | .unlocking => true
  | .other | .deleting _ | .locked _ | .waiting _ _ | .entered _ _ | .looked _ _ _
  | .walking _ _ _ _ _ | .writing _ _ _ _ => false

theorem Phase.handle_of_inside {phase : Phase} {held : Put × ℕ}
    (inside : phase.inside = some held)
    : phase.handle = some held := by
  cases phase <;> first | exact inside | cases inside

theorem Phase.upload_of_handle {phase : Phase} {held : Put × ℕ}
    (handle : phase.handle = some held)
    : phase.upload = some held.1 := by
  cases phase <;> first | cases handle; rfl | cases handle

theorem Phase.lockedPath_of_upload {phase : Phase} {put : Put}
    (upload : phase.upload = some put)
    : phase.lockedPath = some put.dest := by
  cases phase <;> first | cases upload; rfl | cases upload

/-- The size read at the destination is still what a rename would replace there. -/
def Replaces (disk : OrderedMap OsPath Stored) (dest : OsPath) (replaced : ℕ) : Prop :=
  match disk.get? dest with
  | none => replaced = 0
  | some .folder => True
  | some (.file size) => replaced = size

/-- The places of the history that the walk counted already or never will. -/
def visited (base : OsPath) (pending : List OsPath) (path : OsPath) : Bool :=
  inHistory base path && !pending.any (fun place => place.isPrefixOf path)

/-- The places of the history beside the destination. -/
def Put.beside (put : Put) (path : OsPath) : Bool :=
  inHistory put.base path && path != put.dest

/-- What an upload found out is right, or errs on the safe side. -/
def Fits (limits : HistoryLimits) (disk : OrderedMap OsPath Stored) : Phase → Prop
  | .looked put _ replaced => Replaces disk put.dest replaced
  | .walking put _ replaced pending stored =>
      Replaces disk put.dest replaced
        ∧ (∀ path ∈ pending, historyRoot put.base <+: path)
        ∧ bytes disk (visited put.base pending) ≤ stored
  | .writing put _ caps written =>
      written ≤ limits.maxFileBytes ∧ written ≤ caps.room ∧ caps.maxFile = limits.maxFileBytes
        ∧ (disk.get? put.dest = some .folder
          ∨ bytes disk put.beside + caps.room ≤ limits.maxTotalBytes)
  | .other | .deleting _ | .locked _ | .waiting _ _ | .entered _ _ | .leaving _ _
  | .unlocking => True

/-- A change of the disk that adds no file to the upload's history and leaves its destination
alone, unless it makes a folder there. -/
structure Spares (disk after : OrderedMap OsPath Stored) (put : Put) : Prop where
  files : ∀ path size, inHistory put.base path = true → after.get? path = some (.file size)
    → disk.get? path = some (.file size)
  dest : after.get? put.dest = disk.get? put.dest ∨ after.get? put.dest = some .folder

section Measured

variable {limits : HistoryLimits} {disk after : OrderedMap OsPath Stored} {put : Put}

theorem Replaces.spared {replaced : ℕ} (right : Replaces disk put.dest replaced)
    (spares : Spares disk after put)
    : Replaces after put.dest replaced := by
  unfold Replaces at right ⊢
  obtain same | made := spares.dest
  · rw [same]
    exact right
  · rw [made]
    trivial

theorem Spares.bytes_le (spares : Spares disk after put) {keep : OsPath → Bool}
    (within : ∀ path, keep path = true → inHistory put.base path = true)
    : bytes after keep ≤ bytes disk keep :=
  Dav.bytes_le (fun path size found kept => ⟨kept, spares.files path size (within path kept) found⟩)

theorem Fits.spared {phase : Phase} (fits : Fits limits disk phase)
    (spares : ∀ put mutex, phase.inside = some (put, mutex) → Spares disk after put)
    : Fits limits after phase := by
  cases phase with
  | other | deleting | locked | waiting | entered | leaving | unlocking => trivial
  | looked put mutex replaced => exact Replaces.spared fits (spares put mutex rfl)
  | walking put mutex replaced pending stored =>
      obtain ⟨right, within, counted⟩ := fits
      have spared := spares put mutex rfl
      refine ⟨right.spared spared, within, (spared.bytes_le ?_).trans counted⟩
      intro path kept
      exact (Bool.and_eq_true_iff.mp kept).1
  | writing put mutex caps written =>
      obtain ⟨small, fitting, cap, room⟩ := fits
      have spared := spares put mutex rfl
      refine ⟨small, fitting, cap, ?_⟩
      have fewer : bytes after put.beside ≤ bytes disk put.beside := by
        apply spared.bytes_le
        intro path kept
        exact (Bool.and_eq_true_iff.mp kept).1
      obtain same | made := spared.dest
      · rw [same]
        exact room.imp_right (fun enough => by omega)
      · exact .inl made

end Measured

theorem HistoryCaps.check_eq_none {caps : HistoryCaps} {size : ℕ}
    (passed : caps.check size = none)
    : size ≤ caps.maxFile ∧ size ≤ caps.room := by
  unfold HistoryCaps.check at passed
  split at passed
  case isTrue => cases passed
  case isFalse small =>
    split at passed
    case isTrue => cases passed
    case isFalse fitting => exact ⟨by omega, by omega⟩

namespace Histories

theorem mem_children {world : Histories} {path place : OsPath}
    : place ∈ world.children path
      ↔ ∃ name, place = path ++ [name] ∧ (world.disk.get? place).isSome := by
  unfold children
  rw [List.mem_filter, OrderedMap.mem_keys_iff, ← Option.isSome_iff_exists, Bool.and_eq_true,
    List.isPrefixOf_iff_prefix, beq_iff_eq]
  constructor
  · intro listed
    obtain ⟨present, ⟨rest, rfl⟩, length⟩ := listed
    rw [List.length_append, Nat.add_left_cancel_iff, List.length_eq_one_iff] at length
    obtain ⟨name, rfl⟩ := length
    exact ⟨name, rfl, present⟩
  · intro named
    obtain ⟨name, rfl, present⟩ := named
    exact ⟨present, List.prefix_append .., by simp⟩

end Histories

section Walk

variable {roots : Roots} {limits : HistoryLimits} {world : Histories} {put : Put}
  {mutex replaced stored : ℕ} {path : OsPath} {pending : List OsPath}

theorem Stock.listed_above (stock : Stock roots limits world.disk)
    (ofBase : roots.IsBase put.base) (within : historyRoot put.base <+: path)
    {place : OsPath} {size : ℕ} (above : path <+: place) (apart : place ≠ path)
    (found : world.disk.get? place = some (.file size))
    : ∃ listed ∈ world.children path, listed <+: place := by
  obtain ⟨more, rfl⟩ := above
  cases more with
  | nil => exact absurd (List.append_nil path) apart
  | cons name rest =>
      refine ⟨path ++ [name], Histories.mem_children.mpr ⟨name, rfl, ?_⟩, ?_⟩
      · cases rest with
        | nil =>
            rw [found]
            rfl
        | cons next others =>
            have present : world.disk.get? (path ++ [name] ++ next :: others) ≠ none := by
              rw [List.append_assoc, List.singleton_append, found]
              exact Option.some_ne_none _
            have folder := stock.folder_above ofBase (within.trans (List.prefix_append ..))
              (List.cons_ne_nil next others) present
            rw [folder]
            rfl
      · exact ⟨rest, by simp⟩

theorem Fits.measure (stock : Stock roots limits world.disk) (ofBase : roots.IsBase put.base)
    (fits : Fits limits world.disk (.looked put mutex replaced))
    : Fits limits world.disk
        (.walking put mutex replaced (world.children (historyRoot put.base)) 0) := by
  refine ⟨fits, ?_, ?_⟩
  · intro path listed
    obtain ⟨name, rfl, _⟩ := Histories.mem_children.mp listed
    exact List.prefix_append ..
  · have nothing : bytes world.disk (fun _ => false) = 0 := by
      unfold bytes OrderedMap.weigh
      simp
    rw [← nothing]
    apply bytes_le
    intro path size found kept
    exfalso
    obtain ⟨inside, unlisted⟩ := Bool.and_eq_true_iff.mp kept
    obtain ⟨within, apart⟩ := inHistory_iff.mp inside
    obtain ⟨listed, member, above⟩ :=
      stock.listed_above ofBase List.prefix_rfl within apart found
    rw [Bool.not_eq_true'] at unlisted
    exact List.any_eq_false.mp unlisted listed member (List.isPrefixOf_iff_prefix.mpr above)

theorem Fits.visitNone (stock : Stock roots limits world.disk) (ofBase : roots.IsBase put.base)
    (fits : Fits limits world.disk (.walking put mutex replaced (path :: pending) stored))
    (gone : world.disk.get? path = none)
    : Fits limits world.disk (.walking put mutex replaced pending stored) := by
  obtain ⟨right, within, counted⟩ := fits
  have inside := within path List.mem_cons_self
  refine ⟨right, fun place later => within place (List.mem_cons_of_mem _ later), ?_⟩
  refine (bytes_le ?_).trans counted
  intro place size found kept
  have apart : ¬ path <+: place := by
    intro above
    obtain ⟨more, rfl⟩ := above
    cases more with
    | nil =>
        rw [List.append_nil, gone] at found
        cases found
    | cons name rest =>
        have folder := stock.folder_above ofBase inside (List.cons_ne_nil name rest)
          (by simp [found])
        rw [gone] at folder
        cases folder
  simp only [visited, List.any_cons, Bool.and_eq_true, Bool.not_eq_true', Bool.or_eq_false_iff]
    at kept ⊢
  refine ⟨⟨kept.1, ?_, kept.2⟩, found⟩
  exact Bool.eq_false_of_not_eq_true (fun above => apart (List.isPrefixOf_iff_prefix.mp above))

theorem Fits.visitFolder (stock : Stock roots limits world.disk)
    (ofBase : roots.IsBase put.base)
    (fits : Fits limits world.disk (.walking put mutex replaced (path :: pending) stored))
    (folder : world.disk.get? path = some .folder)
    : Fits limits world.disk
        (.walking put mutex replaced (world.children path ++ pending) stored) := by
  obtain ⟨right, within, counted⟩ := fits
  have inside := within path List.mem_cons_self
  refine ⟨right, ?_, ?_⟩
  · intro place member
    rcases List.mem_append.mp member with listed | later
    · obtain ⟨name, rfl, _⟩ := Histories.mem_children.mp listed
      exact inside.trans (List.prefix_append ..)
    · exact within place (List.mem_cons_of_mem _ later)
  · refine (bytes_le ?_).trans counted
    intro place size found kept
    simp only [visited, List.any_cons, List.any_append, Bool.and_eq_true, Bool.not_eq_true',
      Bool.or_eq_false_iff] at kept ⊢
    refine ⟨⟨kept.1, ?_, kept.2.2⟩, found⟩
    apply Bool.eq_false_of_not_eq_true
    intro above
    have apart : place ≠ path := by
      intro same
      rw [same, folder] at found
      cases found
    obtain ⟨listed, member, below⟩ := stock.listed_above ofBase inside
      (List.isPrefixOf_iff_prefix.mp above) apart found
    have unlisted := List.any_eq_false.mp kept.2.1 listed member
    exact unlisted (List.isPrefixOf_iff_prefix.mpr below)

theorem Fits.visitFile (stock : Stock roots limits world.disk) (ofBase : roots.IsBase put.base)
    {size : ℕ}
    (fits : Fits limits world.disk (.walking put mutex replaced (path :: pending) stored))
    (file : world.disk.get? path = some (.file size))
    : Fits limits world.disk (.walking put mutex replaced pending (stored + size)) := by
  obtain ⟨right, within, counted⟩ := fits
  have inside := within path List.mem_cons_self
  refine ⟨right, fun place later => within place (List.mem_cons_of_mem _ later), ?_⟩
  rw [bytes_split file]
  have others : bytes world.disk (fun place => visited put.base pending place && place != path)
      ≤ bytes world.disk (visited put.base (path :: pending)) := by
    apply bytes_le
    intro place other found kept
    simp only [visited, List.any_cons, Bool.and_eq_true, Bool.not_eq_true', bne_iff_ne,
      Bool.or_eq_false_iff] at kept ⊢
    refine ⟨⟨kept.1.1, ?_, kept.1.2⟩, found⟩
    apply Bool.eq_false_of_not_eq_true
    intro above
    obtain ⟨more, rfl⟩ := List.isPrefixOf_iff_prefix.mp above
    have below : more ≠ [] := fun empty => kept.2 (by rw [empty, List.append_nil])
    have folder := stock.folder_above ofBase inside below (by simp [found])
    rw [file] at folder
    cases folder
  have own : (if visited put.base pending path then (Stored.file size).size else 0) ≤ size := by
    split
    · exact Nat.le_refl _
    · exact Nat.zero_le _
  omega

theorem Fits.stage (stock : Stock roots limits world.disk) (ofBase : roots.IsBase put.base)
    (inside : inHistory put.base put.dest = true)
    (fits : Fits limits world.disk (.walking put mutex replaced [] stored))
    : Fits limits world.disk (.writing put mutex (historyCaps limits stored replaced) 0) := by
  obtain ⟨right, _, counted⟩ := fits
  refine ⟨Nat.zero_le _, Nat.zero_le _, rfl, ?_⟩
  have all : usage world.disk put.base ≤ stored := by
    have same : visited put.base [] = inHistory put.base := by
      funext path
      simp [visited]
    rw [usage, ← same]
    exact counted
  have within := stock.total ofBase
  unfold Replaces at right
  unfold historyCaps
  dsimp only
  have fewer : bytes world.disk put.beside ≤ usage world.disk put.base := by
    apply bytes_le
    intro path size found kept
    exact ⟨(Bool.and_eq_true_iff.mp kept).1, found⟩
  cases found : world.disk.get? put.dest with
  | none =>
      rw [found] at right
      dsimp only at right
      exact .inr (by omega)
  | some node =>
      cases node with
      | folder => exact .inl rfl
      | file size =>
          rw [found] at right
          dsimp only at right
          have beside : usage world.disk put.base = size + bytes world.disk put.beside := by
            rw [usage, bytes_split found, if_pos inside, Stored.size]
            rfl
          exact .inr (by omega)

theorem Fits.chunk {caps : HistoryCaps} {written size : ℕ}
    (fits : Fits limits world.disk (.writing put mutex caps written))
    (passed : caps.check (written + size) = none)
    : Fits limits world.disk (.writing put mutex caps (written + size)) := by
  obtain ⟨_, _, cap, room⟩ := fits
  obtain ⟨small, fitting⟩ := HistoryCaps.check_eq_none passed
  exact ⟨cap ▸ small, fitting, cap, room⟩

end Walk

end MokuroBunko.Dav
