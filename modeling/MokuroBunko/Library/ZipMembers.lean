import Mathlib.Data.List.Pairwise
import Mathlib.Order.CompletePartialOrder
import Mathlib.Order.Interval.Set.Disjoint
import MokuroBunko.Library.ZipReading

/-! Opening and reading the members of a zip archive (`archive/zipdir.rs`): members that are opened
do not overlap, and a member that is read to its end has its size.
-/

namespace MokuroBunko.Library

open MokuroBunko.Lib

namespace ZipDir

-- Members

def sizeFileHeader : ℕ := 30

def fileHeader : List UInt8 := [0x50, 0x4B, 3, 4]

/-- The bytes that reads return in turn, none at the end, or the text of an error. -/
abbrev Reads := ℕ → Except String (List UInt8)

structure MemberReader where
  dataStart : ℕ
  inner : Reads
  expectedCrc : ℕ
  expectedSize : ℕ

/-- What is not under `src/`: the quoted form of a text, and the reads of a member's bytes as they are
or inflated.
-/
structure ZipLibrary where
  debug : String → String
  stored : List UInt8 → Reads
  inflated : List UInt8 → Reads

/-- `local_name`. -/
def decodeLocalName (raw : List UInt8) (flags : ℕ) : Except ZipError String :=
  if isUtfFilename flags then
    match fromUtf8 raw with
    | some name => .ok name
    | none => .error (.badZip "invalid UTF-8 local file name")
  else .ok (decodeCp437 raw)

/-- `open_member`. The end of a member's data is computed in 64 bits. -/
def openMember (library : ZipLibrary) (file : List UInt8) (entry : ZipEntry)
    : Except ZipError MemberReader :=
  if 2 ^ 63 ≤ entry.headerOffset then .error (.io "Invalid argument (os error 22)")
  else
    let header := readAt file entry.headerOffset sizeFileHeader
    if header.length ≠ sizeFileHeader then .error (.badZip "Truncated file header")
    else if header.take 4 ≠ fileHeader then
      .error (.badZip "Bad magic number for file header")
    else
      let localFlags := u16At header 6
      let rawName := readAt file (entry.headerOffset + sizeFileHeader) (u16At header 26)
      if entry.flagBits.testBit 5 then
        .error (.unsupported "compressed patched data (flag bit 5)")
      else if entry.flagBits.testBit 6 then
        .error (.unsupported "strong encryption (flag bit 6)")
      else do
        let localName ← decodeLocalName rawName localFlags
        if localName ≠ entry.origFilename then
          .error (.badZip (s!"File name in directory {library.debug entry.origFilename} " ++
            s!"and header {library.debug localName} differ."))
        else
          let dataStart :=
            entry.headerOffset + sizeFileHeader + rawName.length + u16At header 28
          if entry.endOffset < (dataStart + entry.compressSize) % 2 ^ 64
              ∧ entry.endOffset ≠ entry.headerOffset then
            .error (.badZip
              s!"Overlapped entries: {library.debug entry.origFilename} (possible zip bomb)")
          else if entry.flagBits.testBit 0 then .error (.unsupported "encrypted member")
          else
            let raw := readAt file dataStart entry.compressSize
            let reader (inner : Reads) : MemberReader :=
              ⟨dataStart, inner, entry.crc, entry.fileSize⟩
            if entry.compressType = 0 then .ok (reader (library.stored raw))
            else if entry.compressType = 8 then .ok (reader (library.inflated raw))
            else .error (.unsupported s!"compression method {entry.compressType}")

/-- `MemberReader::read` until it returns no more bytes, from a turn on after the bytes given. They
are never more than the size, so their count does not wrap.
-/
def readFrom (crc32 : List UInt8 → ℕ) (member : MemberReader) (turn : ℕ) (read : List UInt8)
    : Except String (List UInt8) :=
  match member.inner turn with
  | .error message => .error message
  | .ok bytes =>
      if member.expectedSize < read.length + bytes.length then
        .error "member is larger than declared"
      else if bytes = [] then
        if read.length ≠ member.expectedSize then
          .error "Compressed file ended before the end-of-stream marker was reached"
        else if crc32 read ≠ member.expectedCrc then .error "Bad CRC-32"
        else .ok read
      else readFrom crc32 member (turn + 1) (read ++ bytes)
termination_by member.expectedSize - read.length
decreasing_by
  rename_i within more
  have grown := List.length_pos_iff.mpr more
  rw [List.length_append]
  omega

/-- The whole member. -/
def readMember (crc32 : List UInt8 → ℕ) (member : MemberReader) : Except String (List UInt8) :=
  readFrom crc32 member 0 []

theorem readFrom_length {crc32 : List UInt8 → ℕ} {member : MemberReader} {turn : ℕ}
    {read bytes : List UInt8} (whole : readFrom crc32 member turn read = .ok bytes)
    : bytes.length = member.expectedSize := by
  fun_induction readFrom crc32 member turn read with
  | case1 turn read message failed => cases whole
  | case2 turn read some got larger => cases whole
  | case3 turn read got => cases whole
  | case4 turn read got => cases whole
  | case5 turn read size crc got fits =>
      cases whole
      exact not_not.mp size
  | case6 turn read some got fits more ih => exact ih whole

-- Ends

/-- Where the entry at the place begins. -/
def offsetAt (entries : List ZipEntry) (place : ℕ) : ℕ :=
  (entries[place]?).elim 0 ZipEntry.headerOffset

/-- The ends given to entries in an order. -/
def endsFrom (order : List ℕ) (state : List ZipEntry × ℕ) : List ZipEntry × ℕ :=
  order.foldl (fun (state : List ZipEntry × ℕ) index =>
    (state.1.modify index (fun entry => { entry with endOffset := state.2 }),
      (state.1[index]?).elim state.2 ZipEntry.headerOffset)) state

theorem offsetAt_eq {entries : List ZipEntry} {place : ℕ} {entry : ZipEntry}
    (found : entries[place]? = some entry)
    : offsetAt entries place = entry.headerOffset := by
  rw [offsetAt, found]
  rfl

/-- What an entry has after the ends were given to those of an order. -/
structure EndGiven (order : List ℕ) (entries : List ZipEntry) (last place : ℕ)
    (entry after : ZipEntry) : Prop where
  offset : after.headerOffset = entry.headerOffset
  other : place ∉ order → after.endOffset = entry.endOffset
  le_last
    : place ∈ order → (∀ index ∈ order, offsetAt entries index ≤ last) → after.endOffset ≤ last
  le_later
    : place ∈ order → ∀ index ∈ order, entry.headerOffset < offsetAt entries index
      → after.endOffset ≤ offsetAt entries index

/-- By induction on the order: what follows in it begins no later than what was given its end. -/
theorem endsFrom_spec {order : List ℕ} (nodup : order.Nodup) {entries : List ZipEntry} {last : ℕ}
    {place : ℕ} {entry : ZipEntry} (found : entries[place]? = some entry)
    (inside : ∀ index ∈ order, index < entries.length)
    (descending : order.Pairwise (fun a b => offsetAt entries b ≤ offsetAt entries a))
    : ∃ after, (endsFrom order (entries, last)).1[place]? = some after
      ∧ EndGiven order entries last place entry after := by
  induction order generalizing entries last entry with
  | nil =>
      refine ⟨entry, found, rfl, fun _ => rfl, ?_, ?_⟩
      · intro isIn
        cases isIn
      · intro isIn
        cases isIn
  | cons index rest ih =>
      obtain ⟨apart, nodup⟩ := List.nodup_cons.mp nodup
      obtain ⟨first, descending⟩ := List.pairwise_cons.mp descending
      have start : index < entries.length := inside index List.mem_cons_self
      have later : (entries[index]?).elim last ZipEntry.headerOffset = offsetAt entries index := by
        rw [offsetAt, List.getElem?_eq_getElem start]
        rfl
      have kept (other : ℕ)
          : offsetAt (entries.modify index (fun entry => { entry with endOffset := last })) other
            = offsetAt entries other := by
        simp only [offsetAt, List.getElem?_modify]
        cases entries[other]? with
        | none => rfl
        | some entry => by_cases same : index = other <;> simp [same]
      have next : (entries.modify index (fun entry => { entry with endOffset := last }))[place]?
          = some (if index = place then { entry with endOffset := last } else entry) := by
        rw [List.getElem?_modify, found]
        split <;> rfl
      obtain ⟨after, isAfter, given⟩ := @ih nodup _ (offsetAt entries index) _ next
        (fun other isOther => by
          rw [List.length_modify]
          exact inside other (List.mem_cons_of_mem _ isOther))
        (by simpa only [kept] using descending)
      refine ⟨after, ?_, ?_⟩
      · rw [← isAfter, endsFrom, List.foldl_cons]
        simp only [later]
        rfl
      · refine ⟨?_, ?_, ?_, ?_⟩
        · rw [given.offset]
          split <;> rfl
        · intro notIn
          rw [List.mem_cons, not_or] at notIn
          rw [given.other notIn.2, if_neg (Ne.symm notIn.1)]
        · intro isIn below
          rcases List.mem_cons.mp isIn with rfl | isLater
          · rw [given.other apart, if_pos rfl]
          · have le := given.le_last isLater (fun other isOther => by
              rw [kept]
              exact first other isOther)
            exact le.trans (below index List.mem_cons_self)
        · intro isIn other isOther less
          rcases List.mem_cons.mp isIn with rfl | isLater
          · -- what comes after the entry in the order begins no later
            have own := offsetAt_eq found
            rcases List.mem_cons.mp isOther with rfl | behind
            · omega
            · have le := first other behind
              omega
          · rcases List.mem_cons.mp isOther with rfl | behind
            · exact given.le_last isLater (fun other isOther => by
                rw [kept]
                exact first other isOther)
            · rw [← kept] at less ⊢
              apply given.le_later isLater other behind
              split <;> exact less

theorem offsetOrder_perm (entries : List ZipEntry)
    : (offsetOrder entries).Perm (List.range entries.length) :=
  List.perm_insertionSort _ _

theorem offsetOrder_descending (entries : List ZipEntry)
    : (offsetOrder entries).Pairwise (fun a b => offsetAt entries b ≤ offsetAt entries a) := by
  have total : Std.Total (fun a b => offsetAt entries b ≤ offsetAt entries a) :=
    ⟨fun a b => le_total _ _⟩
  have transitive : IsTrans ℕ (fun a b => offsetAt entries b ≤ offsetAt entries a) :=
    ⟨fun _ _ _ first second => second.trans first⟩
  exact List.pairwise_insertionSort (fun a b => offsetAt entries b ≤ offsetAt entries a) _

theorem assignEnds_le {entries : List ZipEntry} {startDir : ℕ} {a b : ZipEntry}
    (isA : a ∈ assignEnds entries startDir) (isB : b ∈ assignEnds entries startDir)
    (less : a.headerOffset < b.headerOffset)
    : a.endOffset ≤ b.headerOffset := by
  have same := assignEnds_spec entries startDir
  have listed {entry : ZipEntry} (isEntry : entry ∈ assignEnds entries startDir)
      : ∃ (place : ℕ) (before : ZipEntry), place ∈ offsetOrder entries
        ∧ (assignEnds entries startDir)[place]? = some entry
        ∧ entries[place]? = some before ∧ before.headerOffset = entry.headerOffset := by
    obtain ⟨place, isPlace⟩ := List.mem_iff_getElem?.mp isEntry
    have both := congrArg (fun list => list[place]?) same
    simp only [List.getElem?_map, isPlace, Option.map_some] at both
    cases found : entries[place]? with
    | none =>
        rw [found] at both
        cases both
    | some before =>
        rw [found] at both
        have offset := congrArg ZipEntry.headerOffset (Option.some.inj both)
        refine ⟨place, before, ?_, isPlace, found, offset.symm⟩
        rw [(offsetOrder_perm entries).mem_iff, List.mem_range]
        exact (List.getElem?_eq_some_iff.mp found).1
  obtain ⟨place, before, ordered, isPlace, found, offset⟩ := listed isA
  obtain ⟨place', before', ordered', -, found', offset'⟩ := listed isB
  obtain ⟨after, isAfter, given⟩ := @endsFrom_spec _
    ((offsetOrder_perm entries).nodup_iff.mpr List.nodup_range) entries startDir _ _ found
    (fun index isIndex => List.mem_range.mp ((offsetOrder_perm entries).mem_iff.mp isIndex))
    (offsetOrder_descending entries)
  have one : after = a := by
    rw [← Option.some.injEq, ← isAfter, ← isPlace]
    rfl
  have le := given.le_later ordered place' ordered'
  rw [offsetAt_eq found', offset', offset, one] at le
  exact le less

-- Opened members

/-- The places of the member's compressed bytes, as they are counted without a limit. -/
def dataRange (entry : ZipEntry) (member : MemberReader) : Set ℕ :=
  Set.Ico member.dataStart (member.dataStart + entry.compressSize)

/-- The end of the member is compared with that of its entry, and fits 64 bits. An entry that ends
where it begins, because one of the same offset was listed before it, is left unchecked.
-/
def Checked (entry : ZipEntry) (member : MemberReader) : Prop :=
  entry.endOffset ≠ entry.headerOffset ∧ member.dataStart + entry.compressSize < 2 ^ 64

/-- Two members of different offsets have no byte in common if both can be opened and the first is
one of those counted.
-/
def MembersApart (crc32 : List UInt8 → ℕ) (library : ZipLibrary) (file : List UInt8)
    (counted : ZipEntry → MemberReader → Prop) : Prop :=
  ∀ entries, readCentralDirectory crc32 file = .ok entries
    → ∀ a ∈ entries, ∀ b ∈ entries, a.headerOffset < b.headerOffset
    → ∀ first second, openMember library file a = .ok first
    → openMember library file b = .ok second → counted a first
    → Disjoint (dataRange a first) (dataRange b second)

/-- A member that is read to its end has the size its entry declares. -/
def WholeReads (crc32 : List UInt8 → ℕ) (library : ZipLibrary) (file : List UInt8) : Prop :=
  ∀ entry member, openMember library file entry = .ok member
    → ∀ bytes, readMember crc32 member = .ok bytes → bytes.length = entry.fileSize

theorem openMember_eq_ok {library : ZipLibrary} {file : List UInt8} {entry : ZipEntry}
    {member : MemberReader} (opened : openMember library file entry = .ok member)
    : entry.headerOffset ≤ member.dataStart ∧ member.expectedSize = entry.fileSize
      ∧ ¬ (entry.endOffset < (member.dataStart + entry.compressSize) % 2 ^ 64
        ∧ entry.endOffset ≠ entry.headerOffset) := by
  unfold openMember at opened
  split at opened
  · cases opened
  dsimp only at opened
  split at opened
  · cases opened
  split at opened
  · cases opened
  split at opened
  · cases opened
  split at opened
  · cases opened
  cases isName : decodeLocalName (readAt file (entry.headerOffset + sizeFileHeader)
      (u16At (readAt file entry.headerOffset sizeFileHeader) 26))
        (u16At (readAt file entry.headerOffset sizeFileHeader) 6) with
  | error error =>
      rw [isName] at opened
      cases opened
  | ok localName =>
      rw [isName] at opened
      dsimp only [bind, Except.bind] at opened
      split at opened
      · cases opened
      split at opened
      · cases opened
      rename_i apart
      split at opened
      · cases opened
      split at opened
      · cases opened
        exact ⟨by dsimp only; omega, rfl, apart⟩
      split at opened
      · cases opened
        exact ⟨by dsimp only; omega, rfl, apart⟩
      · cases opened

theorem readCentralDirectory_eq_ok {crc32 : List UInt8 → ℕ} {file : List UInt8}
    {entries : List ZipEntry} (accepted : readCentralDirectory crc32 file = .ok entries)
    : ∃ listed startDir, entries = assignEnds listed startDir := by
  unfold readCentralDirectory at accepted
  split at accepted
  · cases accepted
  · cases accepted
  · cases accepted
  rename_i record _
  dsimp only at accepted
  generalize (if record.isZip64 then _ else _ : ℤ) = concat at accepted
  generalize (record.offsetCd + concat : ℤ) = startDir at accepted
  split at accepted
  · cases accepted
  cases read : readEntries crc32 concat record.sizeCd record.sizeCd 0
      (readAt file startDir.toNat record.sizeCd) with
  | error error =>
      rw [read] at accepted
      cases accepted
  | ok listed =>
      rw [read] at accepted
      exact ⟨listed, _, (Except.ok.inj accepted).symm⟩

/-- Opened members are apart, and members read whole have their size. -/
theorem opened_members_sound (crc32 : List UInt8 → ℕ) (library : ZipLibrary) (file : List UInt8)
    : MembersApart crc32 library file Checked ∧ WholeReads crc32 library file := by
  constructor
  · intro entries accepted a isA b isB less first second openedA openedB checked
    obtain ⟨listed, startDir, rfl⟩ := readCentralDirectory_eq_ok accepted
    have ends := assignEnds_le isA isB less
    obtain ⟨-, -, within⟩ := openMember_eq_ok openedA
    obtain ⟨start, -⟩ := openMember_eq_ok openedB
    obtain ⟨bounded, fits⟩ := checked
    rw [Nat.mod_eq_of_lt fits] at within
    rw [dataRange, dataRange, Set.Ico_disjoint_Ico]
    have ended : first.dataStart + a.compressSize ≤ a.endOffset := by
      by_contra more
      exact within ⟨Nat.lt_of_not_le more, bounded⟩
    exact (min_le_left _ _).trans ((ended.trans ends).trans (start.trans (le_max_right _ _)))
  · intro entry member opened bytes whole
    rw [← (openMember_eq_ok opened).2.1]
    exact readFrom_length whole

-- A second entry of one offset

/-- The header of a member of one letter, with nothing extra. -/
def localHeader (letter : UInt8) : List UInt8 :=
  fileHeader ++ List.replicate 22 0 ++ [1, 0, 0, 0, letter]

/-- A directory entry of one letter. -/
def listingOf (letter size offset : UInt8) : List UInt8 :=
  centralDir ++ [20, 0, 20, 0] ++ List.replicate 12 0 ++ [size, 0, 0, 0, size, 0, 0, 0, 1, 0]
    ++ List.replicate 12 0 ++ [offset, 0, 0, 0, letter]

def overlapping : List UInt8 :=
  localHeader 97 ++ localHeader 98 ++ [0]
    ++ listingOf 97 0 0 ++ listingOf 97 40 0 ++ listingOf 98 1 31
    ++ endArchive ++ [0, 0, 0, 0, 3, 0, 3, 0, 141, 0, 0, 0, 63, 0, 0, 0, 0, 0]

def plainLibrary : ZipLibrary where
  debug text := text
  stored raw turn := .ok (if turn = 0 then raw else [])
  inflated raw turn := .ok (if turn = 0 then raw else [])

def entryOf (name : String) (size offset endOffset : ℕ) : ZipEntry :=
  ⟨name, name, 0, 0, 0, size, size, offset, endOffset⟩

/-- The second entry of `a` is opened, and has the byte of `b`. -/
theorem not_members_apart_overlapping
    : ¬ MembersApart (fun _ => 0) plainLibrary overlapping (fun _ _ => True) := by
  intro apart
  have accepted : readCentralDirectory (fun _ => 0) overlapping
      = .ok [entryOf "a" 0 0 31, entryOf "a" 40 0 0, entryOf "b" 1 31 63] := by
    decide +kernel
  have starts : (openMember plainLibrary overlapping (entryOf "a" 40 0 0)).map
        MemberReader.dataStart = .ok 31
      ∧ (openMember plainLibrary overlapping (entryOf "b" 1 31 63)).map
        MemberReader.dataStart = .ok 62 := by
    decide +kernel
  cases first : openMember plainLibrary overlapping (entryOf "a" 40 0 0) with
  | error error =>
      rw [first] at starts
      cases starts.1
  | ok member =>
      cases second : openMember plainLibrary overlapping (entryOf "b" 1 31 63) with
      | error error =>
          rw [second] at starts
          cases starts.2
      | ok other =>
          rw [first, second] at starts
          have start : member.dataStart = 31 := Except.ok.inj starts.1
          have start' : other.dataStart = 62 := Except.ok.inj starts.2
          have disjoint := apart _ accepted _ (by simp) _ (by simp) (by decide) _ _ first second
            trivial
          rw [dataRange, dataRange, start, start', Set.Ico_disjoint_Ico] at disjoint
          revert disjoint
          decide

end ZipDir

end MokuroBunko.Library
