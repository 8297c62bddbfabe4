import MokuroBunko.Library.ZipArchive

/-! The directory reader against the archives of the format: what it finds in one without a zip64
end record, and why it finds nothing in one that has it.
-/

namespace MokuroBunko.Library

open MokuroBunko.Lib ZipDir LittleEndian

-- Extra fields

theorem u16At_bytes {number : ℕ} (small : number < 2 ^ 16) (rest : List UInt8)
    : u16At (LittleEndian.bytes 2 number ++ rest) 0 = number :=
  @value_bytes 2 number small

theorem u64At_bytes {number : ℕ} (small : number < 2 ^ 64) (rest : List UInt8)
    : u64At (LittleEndian.bytes 8 number ++ rest) 0 = number :=
  @value_bytes 8 number small

theorem decodeExtra_fields {nameCrc rounds : ℕ} {fields : List ExtraField} {entry : ZipEntry}
    (enough : (fields.flatMap ExtraField.bytes).length ≤ rounds)
    : decodeExtra nameCrc rounds entry (fields.flatMap ExtraField.bytes)
      = fields.foldlM (fun entry field => decodeField entry field.tag field.data nameCrc)
        entry := by
  induction fields generalizing entry rounds with
  | nil => cases rounds <;> rfl
  | cons field fields ih =>
      rw [List.flatMap_cons] at enough ⊢
      generalize later : fields.flatMap ExtraField.bytes = rest at enough ih ⊢
      have length : field.bytes.length = field.data.length + 4 := by
        simp [ExtraField.bytes]
        omega
      rw [List.length_append] at enough
      cases rounds with
      | zero => omega
      | succ rounds =>
          have tag : u16At (field.bytes ++ rest) 0 = field.tag := by
            rw [ExtraField.bytes, List.append_assoc, List.append_assoc]
            exact u16At_bytes field.tag_lt _
          have size : u16At (field.bytes ++ rest) 2 = field.data.length := by
            rw [ExtraField.bytes, List.append_assoc, List.append_assoc]
            exact u16At_bytes field.length_lt (field.data ++ rest)
          have data : ((field.bytes ++ rest).drop 4).take field.data.length = field.data := by
            rw [ExtraField.bytes, List.append_assoc, List.append_assoc]
            exact List.take_left
          have others : (field.bytes ++ rest).drop (field.data.length + 4) = rest := by
            rw [← length, List.drop_left]
          rw [decodeExtra, if_neg (by rw [List.length_append]; omega), tag, size,
            if_neg (by rw [List.length_append]; omega), data, others, List.foldlM_cons]
          cases decodeField entry field.tag field.data nameCrc with
          | error error => rfl
          | ok next => exact ih (by omega)

theorem decodeField_other {entry : ZipEntry} {field : ExtraField} {nameCrc : ℕ}
    (other : field.tag ≠ 0x0001) (sound : field.Sound nameCrc)
    : decodeField entry field.tag field.data nameCrc
      = .ok { entry with filename := field.rename nameCrc entry.filename } := by
  unfold decodeField ExtraField.rename
  rw [if_neg other]
  by_cases path : field.tag = 0x7075
  · obtain ⟨long, named⟩ := sound path
    rw [if_pos path, decodeUnicodePath, if_neg (by omega)]
    by_cases own : (field.data.headD 0).toNat = 1 ∧ u32At field.data 1 = nameCrc
    · have isPath : field.IsPath nameCrc := ⟨path, own⟩
      obtain ⟨name, text⟩ := Option.isSome_iff_exists.mp (named isPath)
      rw [if_pos own, if_pos isPath, text]
      dsimp only
      split <;> rfl
    · have noPath : ¬ field.IsPath nameCrc := fun isPath => own isPath.2
      rw [if_neg own, if_neg noPath]
  · have noPath : ¬ field.IsPath nameCrc := fun isPath => path isPath.1
    rw [if_neg path, if_neg noPath]

theorem foldlM_others {fields : List ExtraField} {nameCrc : ℕ} {entry : ZipEntry}
    (others : ∀ field ∈ fields, field.tag ≠ 0x0001 ∧ field.Sound nameCrc)
    : fields.foldlM (fun entry field => decodeField entry field.tag field.data nameCrc) entry
      = .ok { entry with
          filename := fields.foldl (ExtraField.rename nameCrc) entry.filename } := by
  induction fields generalizing entry with
  | nil => rfl
  | cons field fields ih =>
      obtain ⟨other, sound⟩ := others field List.mem_cons_self
      rw [List.foldlM_cons, decodeField_other other sound]
      exact ih (fun later member => others later (List.mem_cons_of_mem _ member))

theorem narrow_ne {wide : Bool} {number : ℕ} (small : wide = false → number < 0xFFFFFFFF)
    : narrow wide number = 0xFFFFFFFF ↔ wide = true := by
  cases wide with
  | false =>
      have narrowed := small rfl
      exact iff_of_false (Nat.ne_of_lt narrowed) Bool.false_ne_true
  | true => exact iff_of_true rfl rfl

theorem takeWide_spec {saturated wide : Bool} {number : ℕ} (field : String)
    {data more : List UInt8} (small : number < 2 ^ 64) (same : saturated = wide)
    (begins : data = (if wide then LittleEndian.bytes 8 number else []) ++ more)
    : takeWide saturated field (narrow wide number) data = .ok (number, more) := by
  subst same begins
  cases saturated with
  | false => rfl
  | true =>
      have long : ¬ (LittleEndian.bytes 8 number ++ more).length < 8 := by simp
      have rest : (LittleEndian.bytes 8 number ++ more).drop 8 = more :=
        List.drop_left' (by simp)
      rw [takeWide, if_pos rfl, if_pos rfl, if_neg long, u64At_bytes small, rest]

namespace ArchiveEntry

variable {crc32 : List UInt8 → ℕ} (entry : ArchiveEntry crc32)

/-- The entry as its 46 bytes and its name give it. -/
def unfinished : ZipEntry where
  filename := sanitizeFilename entry.name
  origFilename := entry.name
  flagBits := entry.flagBits
  compressType := entry.compressType
  crc := entry.crc
  compressSize := narrow entry.wideCompressed entry.compressSize
  fileSize := narrow entry.wideFile entry.fileSize
  headerOffset := narrow entry.wideOffset entry.headerOffset
  endOffset := 0

theorem decodeZip64_spec {field : ExtraField} (found : entry.zip64 = some field)
    (filename : String)
    : decodeZip64 { entry.unfinished with filename } field.data = .ok {
        entry.unfinished with
        filename
        fileSize := entry.fileSize
        compressSize := entry.compressSize
        headerOffset := entry.headerOffset
      } := by
  obtain ⟨more, same⟩ := (entry.zip64_numbers field (by simp [found])).2
  rw [wideNumbers, List.append_assoc, List.append_assoc] at same
  have file := narrow_ne entry.fileSize_lt.2
  have compressed := narrow_ne entry.compressSize_lt.2
  have offset := narrow_ne entry.headerOffset_lt.2
  have noSixteen : narrow entry.wideFile entry.fileSize ≠ 0xFFFFFFFFFFFFFFFF := by
    intro saturated
    cases wide : entry.wideFile with
    | true => rw [wide] at saturated; cases saturated
    | false =>
        have narrowed := entry.fileSize_lt.2 wide
        rw [wide] at saturated
        exact absurd (saturated ▸ narrowed : 0xFFFFFFFFFFFFFFFF < 0xFFFFFFFF) (by decide)
  unfold decodeZip64
  dsimp only [unfinished]
  rw [takeWide_spec "File size" entry.fileSize_lt.1 (by simp [noSixteen, file]) same.symm]
  dsimp only [bind, Except.bind]
  rw [takeWide_spec "Compress size" entry.compressSize_lt.1 (by simp [compressed]) rfl]
  dsimp only
  rw [takeWide_spec "Header offset" entry.headerOffset_lt.1 (by simp [offset]) rfl]

theorem decodeExtra_spec
    : decodeExtra (crc32 entry.rawName) entry.extra.length entry.unfinished entry.extra
      = .ok { entry.listing 0 with headerOffset := entry.headerOffset } := by
  have front := fun field member => entry.others field (List.mem_append_left _ member)
  have back := fun field member => entry.others field (List.mem_append_right _ member)
  rw [extra, decodeExtra_fields (Nat.le_refl _), extraFields, List.foldlM_append,
    List.foldlM_append, foldlM_others front]
  dsimp only [bind, Except.bind]
  cases found : entry.zip64 with
  | none =>
      have unneeded := mt entry.wide_zip64
      simp only [found, Option.isSome_none, Bool.false_eq_true, not_false_eq_true, Bool.or_eq_true,
        not_or, true_implies] at unneeded
      obtain ⟨⟨file, compressed⟩, offset⟩ := unneeded
      rw [Option.toList_none, List.foldlM_nil]
      dsimp only [pure, Except.pure]
      rw [foldlM_others back]
      simp [unfinished, listing, narrow, file, compressed, offset, List.foldl_append]
  | some field =>
      have tag := (entry.zip64_numbers field (by simp [found])).1
      rw [Option.toList_some, List.foldlM_cons, decodeField, if_pos tag,
        entry.decodeZip64_spec found]
      dsimp only [List.foldlM, bind, Except.bind, pure, Except.pure]
      rw [foldlM_others back]
      simp [unfinished, listing, List.foldl_append]

-- Entries

theorem length_header : entry.header.length = 46 := by
  simp [header]

theorem header_numbers
    : numberAt 1 entry.header 6 = entry.extractVersion
      ∧ u16At entry.header 8 = entry.flagBits ∧ u16At entry.header 10 = entry.compressType
      ∧ u32At entry.header 16 = entry.crc
      ∧ u32At entry.header 20 = narrow entry.wideCompressed entry.compressSize
      ∧ u32At entry.header 24 = narrow entry.wideFile entry.fileSize
      ∧ u16At entry.header 28 = entry.rawName.length
      ∧ u16At entry.header 30 = entry.extra.length
      ∧ u16At entry.header 32 = entry.comment.length
      ∧ u32At entry.header 42 = narrow entry.wideOffset entry.headerOffset := by
  have narrowed : ∀ {wide : Bool} {number : ℕ}, (wide = false → number < 0xFFFFFFFF)
      → narrow wide number < 256 ^ 4 := by
    intro wide number small
    cases wide with
    | false => exact (small rfl).trans (by decide)
    | true => exact (by decide : 0xFFFFFFFF < 256 ^ 4)
  have version : entry.extractVersion < 256 ^ 1 := Nat.lt_of_le_of_lt entry.version_le (by decide)
  unfold u16At u32At numberAt
  rw [← List.append_nil entry.header]
  unfold header
  exact ⟨value_record 2 rfl (by simp) version,
    value_record 4 rfl (by simp) entry.flagBits_lt,
    value_record 5 rfl (by simp) entry.compressType_lt,
    value_record 7 rfl (by simp) entry.crc_lt,
    value_record 8 rfl (by simp) (narrowed entry.compressSize_lt.2),
    value_record 9 rfl (by simp) (narrowed entry.fileSize_lt.2),
    value_record 10 rfl (by simp) entry.rawName_lt,
    value_record 11 rfl (by simp) entry.extra_lt,
    value_record 12 rfl (by simp) entry.comment_lt,
    value_record 16 rfl (by simp) (narrowed entry.headerOffset_lt.2)⟩

end ArchiveEntry

theorem toNat_getD (data : List UInt8) (place : ℕ)
    : (data.getD place 0).toNat = numberAt 1 data place := by
  rw [List.getD_eq_getElem?_getD, ← List.head?_drop, numberAt]
  cases data.drop place <;> rfl

namespace ArchiveEntry

variable {crc32 : List UInt8 → ℕ} (entry : ArchiveEntry crc32)

theorem readEntry_spec (lead : ℕ) (rest : List UInt8)
    (inside : lead + entry.headerOffset < 2 ^ 64)
    : readEntry crc32 lead (entry.bytes ++ rest)
      = .ok (entry.listing lead, rest, entry.bytes.length) := by
  obtain ⟨version, flags, method, crc, compressed, file, name, extra, comment, offset⟩ :=
    entry.header_numbers
  have length := entry.length_header
  have head : (entry.bytes ++ rest).take sizeCentralDir = entry.header := by
    simp only [bytes, List.append_assoc]
    exact List.take_left' length
  have tail : (entry.bytes ++ rest).drop sizeCentralDir
      = entry.rawName ++ (entry.extra ++ (entry.comment ++ rest)) := by
    simp only [bytes, List.append_assoc]
    exact List.drop_left' length
  have magic : entry.header.take 4 = centralDir := rfl
  have supported : ¬ maxExtractVersion < entry.extractVersion :=
    Nat.not_lt.mpr entry.version_le
  have offsetNat : ((entry.headerOffset : ℤ) + lead) % 2 ^ 64 = (lead + entry.headerOffset : ℕ) := by
    omega
  have whole : entry.bytes.length = sizeCentralDir + entry.rawName.length + entry.extra.length
      + entry.comment.length := by
    simp only [bytes, List.length_append, length, sizeCentralDir]
  unfold readEntry
  dsimp only
  rw [head, tail, if_neg (by simp [length, sizeCentralDir]), if_neg (by simp [magic]), toNat_getD,
    version, flags, method, crc, compressed, file, name, extra, comment, offset]
  simp only [List.take_left, List.drop_left]
  rw [entry.decoded]
  dsimp only [bind, Except.bind]
  rw [if_neg supported]
  have decoded := entry.decodeExtra_spec
  unfold unfinished at decoded
  rw [decoded]
  dsimp only
  rw [if_neg (by omega), offsetNat, whole]
  rfl

end ArchiveEntry

theorem readEntries_spec {crc32 : List UInt8 → ℕ} {entries : List (ArchiveEntry crc32)}
    {lead sizeCd rounds total : ℕ}
    (inside : ∀ entry ∈ entries, lead + entry.headerOffset < 2 ^ 64)
    (size : total + (entries.flatMap ArchiveEntry.bytes).length = sizeCd)
    (enough : (entries.flatMap ArchiveEntry.bytes).length ≤ rounds)
    : readEntries crc32 lead sizeCd rounds total (entries.flatMap ArchiveEntry.bytes)
      = .ok (entries.map (fun entry => entry.listing lead)) := by
  induction entries generalizing rounds total with
  | nil =>
      rw [List.flatMap_nil, List.length_nil] at size
      cases rounds with
      | zero => rfl
      | succ rounds => rw [readEntries, if_neg (by omega)]; rfl
  | cons entry entries ih =>
      rw [List.flatMap_cons, List.length_append] at size enough
      have long : 46 ≤ entry.bytes.length := by
        rw [ArchiveEntry.bytes, List.append_assoc, List.append_assoc, List.length_append,
          entry.length_header]
        omega
      cases rounds with
      | zero => omega
      | succ rounds =>
          rw [readEntries, if_pos (by omega), List.flatMap_cons,
            entry.readEntry_spec lead _ (inside entry List.mem_cons_self)]
          dsimp only [bind, Except.bind]
          rw [ih (fun later member => inside later (List.mem_cons_of_mem _ member)) (by omega)
            (by omega)]
          rfl

theorem assignEnds_spec (entries : List ZipEntry) (startDir : ℕ)
    : (assignEnds entries startDir).map (fun entry => { entry with endOffset := 0 })
      = entries.map (fun entry => { entry with endOffset := 0 }) := by
  unfold assignEnds
  generalize offsetOrder entries = order
  generalize started : (entries, startDir) = state
  have kept : state.1.map (fun entry => { entry with endOffset := 0 })
      = entries.map (fun entry => { entry with endOffset := 0 }) := by rw [← started]
  clear started
  induction order generalizing state with
  | nil => exact kept
  | cons index order ih =>
      apply ih
      rw [← kept]
      apply List.ext_getElem?
      intro place
      simp only [List.getElem?_map, List.getElem?_modify]
      cases state.1[place]? with
      | none => rfl
      | some entry =>
          simp only [Option.map_some]
          split <;> rfl

-- The end record

namespace Archive

variable {crc32 : List UInt8 → ℕ} (archive : Archive crc32)

/-- What the end record says. -/
def endFound : EndRecord where
  sizeCd := narrow archive.zip64.isSome archive.directory.length
  offsetCd := narrow archive.zip64.isSome archive.body.length
  location := archive.front.length
  isZip64 := false

theorem length_endRecord : archive.endRecord.length = 22 := by
  simp [endRecord]

theorem length_file
    : archive.file.length = archive.front.length + 22 + archive.comment.length := by
  rw [file, List.length_append, List.length_append, length_endRecord]

theorem endRecord_numbers (rest : List UInt8)
    : u32At (archive.endRecord ++ rest) 12
        = narrow archive.zip64.isSome archive.directory.length
      ∧ u32At (archive.endRecord ++ rest) 16
        = narrow archive.zip64.isSome archive.body.length := by
  have small : ∀ {number : ℕ}, (archive.zip64 = none → number < 0xFFFFFFFF)
      → narrow archive.zip64.isSome number < 256 ^ 4 := by
    intro number small
    cases found : archive.zip64 with
    | none => exact (small found).trans (by decide)
    | some more => exact (by decide : 0xFFFFFFFF < 256 ^ 4)
  exact ⟨value_record 5 rfl (by simp) (small (fun plain => (archive.narrowEnd plain).1)),
    value_record 6 rfl (by simp) (small (fun plain => (archive.narrowEnd plain).2))⟩

theorem endRecord_starts : endArchive <+: archive.endRecord :=
  ⟨archive.endRecord.drop 4, rfl⟩

/-- The end record is found where it is. -/
theorem endRecData_spec (clear : archive.CommentClear)
    : endRecData archive.file
      = (endRecData64 archive.file archive.front.length archive.endFound).map some := by
  have length := archive.length_file
  have recordLength := archive.length_endRecord
  have tail : archive.file.drop archive.front.length = archive.endRecord ++ archive.comment := by
    rw [file, List.append_assoc, List.drop_left]
  have starts : endArchive <+: archive.endRecord := archive.endRecord_starts
  unfold endRecData
  extract_lets filesize data searchStart searched
  have filesize_eq : filesize = archive.front.length + 22 + archive.comment.length := length
  rw [if_neg (by simp only [sizeEndCentDir]; omega)]
  by_cases empty : archive.comment = []
  · have place : filesize - sizeEndCentDir = archive.front.length := by
      rw [filesize_eq, empty, List.length_nil]
      simp only [sizeEndCentDir]
      omega
    have whole : data = archive.endRecord := by
      rw [empty, List.append_nil] at tail
      calc data
        _ = readAt archive.file archive.front.length sizeEndCentDir := by rw [← place]
        _ = archive.endRecord.take sizeEndCentDir := by rw [readAt, tail]
        _ = archive.endRecord := List.take_of_length_le (Nat.le_of_eq recordLength)
    have zeros : (archive.endRecord.drop 20).take 2 = [0, 0] := by
      rw [← List.append_nil archive.endRecord, endRecord, slice_record 7 rfl (by simp), empty]
      rfl
    obtain ⟨size, offset⟩ := archive.endRecord_numbers []
    rw [List.append_nil] at size offset
    rw [whole, if_pos ⟨recordLength, rfl, zeros⟩, size, offset, place, endFound]
  · have unmarked := clear.resolve_left empty
    have some_comment : 0 < archive.comment.length := List.length_pos_iff.mpr empty
    have comment_lt := archive.comment_lt
    -- the last 22 bytes begin within what `unmarked` speaks about
    have noEnd : ¬ data.take 4 = endArchive := by
      have place : filesize - sizeEndCentDir
          = archive.front.length + archive.comment.length := by
        simp only [sizeEndCentDir]
        omega
      intro found
      apply unmarked archive.comment.length some_comment
      rw [← tail, List.drop_drop, ← place, ← found]
      exact (List.take_prefix _ _).trans (List.take_prefix _ _)
    have before : searchStart ≤ archive.front.length := by
      apply Nat.sub_le_of_le_add
      simp only [zipMaxComment, sizeEndCentDir]
      omega
    have rest : searched = archive.file.drop searchStart := by
      apply List.take_of_length_le
      rw [List.length_drop]
      exact Nat.le_of_lt_succ (by omega)
    have here : searched.drop (archive.front.length - searchStart)
        = archive.endRecord ++ archive.comment := by
      rw [rest, List.drop_drop, Nat.add_sub_cancel' before, tail]
    have found : LittleEndian.lastPlace endArchive searched
        = some (archive.front.length - searchStart) := by
      apply lastPlace_eq
      · rw [here]
        exact starts.trans (List.prefix_append _ _)
      · rw [rest, List.length_drop]
        simp only [endArchive, List.length_cons, List.length_nil]
        omega
      · intro other after
        have split : other = (archive.front.length - searchStart)
            + (other - (archive.front.length - searchStart)) := by omega
        rw [split, ← List.drop_drop, here]
        exact unmarked _ (by omega)
    obtain ⟨size, offset⟩ := archive.endRecord_numbers archive.comment
    rw [if_neg (fun marked => noEnd marked.2.1), found]
    dsimp only
    rw [here, if_neg, size, offset, Nat.add_sub_cancel' before, endFound]
    rw [List.length_append, recordLength]
    exact Nat.not_lt.mpr (Nat.le_add_right _ _)

-- Archives without a zip64 end record

theorem readAt_front {place len : ℕ} (inside : place + len ≤ archive.front.length)
    : readAt archive.file place len = (archive.front.drop place).take len := by
  rw [readAt, file, List.append_assoc, List.drop_append_of_le_length (by omega),
    List.take_append_of_le_length]
  rw [List.length_drop]
  omega

theorem drop_front_zip64 {more : List UInt8} (wide : archive.zip64 = some more)
    : archive.front.drop (archive.front.length - 20) = archive.zip64Locator := by
  have length : archive.zip64Locator.length = 20 := by simp [zip64Locator]
  rw [front, wide]
  dsimp only [Option.elim_some, zip64End]
  rw [← List.append_assoc]
  apply List.drop_left'
  simp only [List.length_append, length]
  omega

theorem NoLocator.plain {archive : Archive crc32} (noLocator : archive.NoLocator)
    : archive.zip64 = none := by
  cases wide : archive.zip64 with
  | none => rfl
  | some more =>
      exfalso
      obtain short | other := noLocator
      · simp [front, wide, zip64End, zip64Locator] at short
        omega
      · rw [archive.drop_front_zip64 wide] at other
        exact other ⟨archive.zip64Locator.drop 4, rfl⟩

theorem endRecData64_plain (noLocator : archive.NoLocator)
    : endRecData64 archive.file archive.front.length archive.endFound = .ok archive.endFound := by
  unfold endRecData64
  by_cases short : archive.front.length < 20
  · rw [if_pos (by simpa only [sizeEndCentDir64Locator] using short)]
  · have unmarked := noLocator.resolve_left short
    rw [if_neg (by simpa only [sizeEndCentDir64Locator] using short)]
    extract_lets place data
    have place_eq : place + 20 = archive.front.length := by
      simp only [place, sizeEndCentDir64Locator]
      omega
    have data_eq : data = archive.front.drop (archive.front.length - 20) := by
      calc data
        _ = (archive.front.drop place).take 20 := archive.readAt_front (Nat.le_of_eq place_eq)
        _ = archive.front.drop place := by
            apply List.take_of_length_le
            rw [List.length_drop]
            omega
        _ = archive.front.drop (archive.front.length - 20) := by
            rw [← place_eq, Nat.add_sub_cancel]
    rw [if_neg, if_pos]
    · intro found
      apply unmarked
      rw [← data_eq, ← found]
      exact List.take_prefix _ _
    · rw [data_eq, List.length_drop]
      simp only [sizeEndCentDir64Locator]
      omega

theorem readsExactly_of_noLocator (clear : archive.CommentClear)
    (noLocator : archive.NoLocator)
    : archive.ReadsExactly := by
  have plain := noLocator.plain
  have length : archive.front.length
      = archive.lead.length + archive.body.length + archive.directory.length := by
    simp [front, plain]
    omega
  have bound := archive.length_lt
  have inside : ∀ entry ∈ archive.entries,
      archive.lead.length + entry.headerOffset < 2 ^ 64 := by
    intro entry member
    have := archive.inBody entry member
    omega
  have stream : readAt archive.file (archive.lead.length + archive.body.length)
      archive.directory.length = archive.directory := by
    have same : archive.file = (archive.lead ++ archive.body)
        ++ (archive.directory ++ (archive.endRecord ++ archive.comment)) := by
      simp [file, front, plain]
    rw [readAt, same, List.drop_left' (List.length_append), List.take_left]
  have entries : readEntries crc32 archive.lead.length archive.directory.length
        archive.directory.length 0 archive.directory
      = .ok (archive.entries.map (fun entry => entry.listing archive.lead.length)) :=
    readEntries_spec inside (Nat.zero_add _) (Nat.le_refl _)
  refine ⟨assignEnds (archive.entries.map (fun entry => entry.listing archive.lead.length))
    (archive.lead.length + archive.body.length), ?_, ?_⟩
  · have concat : (archive.front.length : ℤ) - archive.directory.length - archive.body.length
        = archive.lead.length := by omega
    have startDir : (archive.body.length : ℤ) + archive.lead.length
        = (archive.lead.length + archive.body.length : ℕ) := by omega
    rw [readCentralDirectory, archive.endRecData_spec clear,
      archive.endRecData64_plain noLocator, endFound, plain]
    dsimp only [Except.map, narrow, Option.isSome_none]
    rw [if_neg Bool.false_ne_true, if_neg Bool.false_ne_true, if_neg Bool.false_ne_true, concat,
      startDir, if_neg (by omega), Int.toNat_natCast, stream]
    rw [entries]
    rfl
  · rw [assignEnds_spec, List.map_map]
    rfl

-- Archives with a zip64 end record

theorem locator_numbers
    : u32At archive.zip64Locator 4 = 0
      ∧ u64At archive.zip64Locator 8 = archive.body.length + archive.directory.length
      ∧ u32At archive.zip64Locator 16 = 1 := by
  have bound := archive.length_lt
  have small : archive.body.length + archive.directory.length < 256 ^ 8 := by
    simp only [directory]
    omega
  unfold u32At u64At numberAt
  rw [← List.append_nil archive.zip64Locator]
  unfold zip64Locator
  exact ⟨value_record 1 rfl (by simp) (by decide), value_record 2 rfl (by simp) small,
    value_record 3 rfl (by simp) (by decide)⟩

theorem record64_numbers {more : List UInt8} (wide : archive.zip64 = some more)
    : u64At (archive.zip64Record more) 4 = 44 + more.length
      ∧ u64At (archive.zip64Record more) 40 = archive.directory.length
      ∧ u64At (archive.zip64Record more) 48 = archive.body.length := by
  have bound := archive.length_lt
  rw [wide, Option.elim_some] at bound
  have directory : archive.directory.length < 256 ^ 8 := by
    simp only [directory]
    omega
  unfold u64At numberAt
  rw [← List.append_nil (archive.zip64Record more)]
  unfold zip64Record
  exact ⟨value_record 1 rfl (by simp) (by omega), value_record 8 rfl (by simp) directory,
    value_record 9 rfl (by simp) (by omega)⟩

/-- What the zip64 end record says. -/
def endFound64 : EndRecord where
  sizeCd := archive.directory.length
  offsetCd := archive.body.length
  location := archive.lead.length + archive.body.length + archive.directory.length
  isZip64 := true

/-- The zip64 end record is found, or the reader fails. -/
theorem endRecData64_wide {more : List UInt8} (wide : archive.zip64 = some more)
    (clear : archive.Undisguised more)
    : endRecData64 archive.file archive.front.length archive.endFound = .ok archive.endFound64
      ∨ ∃ message, endRecData64 archive.file archive.front.length archive.endFound
        = .error (.badZip message) := by
  have locatorLength : archive.zip64Locator.length = 20 := by simp [zip64Locator]
  have recordLength : (archive.zip64Record more).length = 56 := by simp [zip64Record]
  have recordStarts : endArchive64 <+: archive.zip64Record more :=
    ⟨(archive.zip64Record more).drop 4, rfl⟩
  obtain ⟨diskno, reloff, disks⟩ := archive.locator_numbers
  obtain ⟨size, dirsize, diroffset⟩ := archive.record64_numbers wide
  generalize named : archive.body.length + archive.directory.length = names at reloff
  have length : archive.front.length = archive.lead.length + names + 56 + more.length + 20 := by
    rw [front, wide, Option.elim_some, zip64End]
    simp only [List.length_append, locatorLength, recordLength]
    omega
  have locator : readAt archive.file (archive.front.length - 20) 20 = archive.zip64Locator := by
    rw [archive.readAt_front (by omega), archive.drop_front_zip64 wide]
    exact List.take_of_length_le (Nat.le_of_eq locatorLength)
  have record : readAt archive.file (archive.lead.length + names) 56
      = archive.zip64Record more := by
    have same : archive.front = (archive.lead ++ archive.body ++ archive.directory)
        ++ (archive.zip64Record more ++ (more ++ archive.zip64Locator)) := by
      simp [front, wide, zip64End]
    rw [archive.readAt_front (by omega), same, List.drop_left' (by simp; omega),
      List.take_left' recordLength]
  have first : ¬ archive.front.length < sizeEndCentDir64Locator := by
    simp only [sizeEndCentDir64Locator]
    omega
  have before : archive.front.length - 20 - 56 = archive.lead.length + names + more.length := by
    omega
  unfold endRecData64
  rw [if_neg first]
  extract_lets place data diskno' reloff' disks' offset data64 moved extrasz chosen sz dirsize'
    diroffset'
  have locator : data = archive.zip64Locator := locator
  have diskno : diskno' = 0 := by rw [← diskno, ← locator]
  have reloff : reloff' = names := by rw [← reloff, ← locator]
  have disks : disks' = 1 := by rw [← disks, ← locator]
  have offset_eq : offset = archive.lead.length + names + more.length := before
  have wide64 : ∀ {at64 : ℕ}, at64 + 56 ≤ archive.front.length
      → (readAt archive.file at64 sizeEndCentDir64).length = 56 := by
    intro at64 inside
    rw [archive.readAt_front (by simpa only [sizeEndCentDir64] using inside),
      List.length_take_of_le]
    · rfl
    · rw [List.length_drop]
      simp only [sizeEndCentDir64]
      omega
  have data64Length : data64.length = 56 := wide64 (by omega)
  have chosenLength : chosen.length = 56 := by
    simp only [chosen]
    split
    · exact wide64 (by omega)
    · exact data64Length
  -- the record is found unless it stands behind both data in front and data of its own
  have read : (chosen = archive.zip64Record more ∧ extrasz = more.length)
      ∨ ¬ endArchive64 <+: chosen := by
    by_cases ahead : archive.lead = []
    · have same : data64 = archive.zip64Record more := by
        rw [ahead, List.length_nil, Nat.zero_add] at record
        rw [← record, ← reloff]
        rfl
      have unmoved : ¬ moved := by
        intro moving
        apply moving.1
        rw [same]
        exact List.isPrefixOf_iff_prefix.mpr recordStarts
      refine Or.inl ⟨(if_neg unmoved).trans same, (if_neg unmoved).trans ?_⟩
      rw [offset_eq, ahead, reloff, List.length_nil]
      omega
    · have moving : moved := by
        refine ⟨?_, ?_⟩
        · intro found
          apply clear.named ahead
          rw [named, ← reloff]
          exact (List.isPrefixOf_iff_prefix.mp found).trans (List.take_prefix _ _)
        · have := List.length_pos_iff.mpr ahead
          omega
      have chosen_eq : chosen = readAt archive.file offset sizeEndCentDir64 := if_pos moving
      by_cases alone : more = []
      · refine Or.inl ⟨?_, ?_⟩
        · rw [chosen_eq, offset_eq, ← record, alone]
          rfl
        · rw [alone]
          exact if_pos moving
      · refine Or.inr ?_
        intro found
        apply clear.moved ahead alone
        rw [chosen_eq] at found
        have same : archive.front.length - 76 = offset := by omega
        rw [same]
        exact found.trans (List.take_prefix _ _)
  rw [if_neg (by simp [locator, locatorLength, sizeEndCentDir64Locator]),
    if_neg (by rw [locator]; exact not_not_intro rfl), if_neg (by omega),
    if_neg (by simp only [place, sizeEndCentDir64, sizeEndCentDir64Locator]; omega),
    if_neg (by omega), if_neg (by simp [data64Length, sizeEndCentDir64]),
    if_neg (by simp [chosenLength, sizeEndCentDir64])]
  obtain ⟨same, extra⟩ | other := read
  · left
    have dirsize : dirsize' = archive.directory.length := by rw [← dirsize, ← same]
    have diroffset : diroffset' = archive.body.length := by rw [← diroffset, ← same]
    have size : sz = 44 + more.length := by rw [← size, ← same]
    have bound := archive.length_lt
    rw [wide, Option.elim_some] at bound
    have sound : (diroffset' + dirsize' < 2 ^ 64 ∧ diroffset' + dirsize' = reloff')
        ∧ sz + 12 < 2 ^ 64 ∧ sz + 12 = sizeEndCentDir64 + extrasz := by
      rw [dirsize, diroffset, size, reloff, extra]
      simp only [sizeEndCentDir64]
      have : archive.directory.length = (archive.entries.flatMap ArchiveEntry.bytes).length := rfl
      omega
    have start : offset - extrasz
        = archive.lead.length + archive.body.length + archive.directory.length := by omega
    rw [if_neg (by rw [same]; exact not_not_intro (List.isPrefixOf_iff_prefix.mpr recordStarts)),
      if_neg (fun broken => broken.elim (fun far => far sound.1) (fun far => far sound.2)),
      dirsize, diroffset, start, endFound64]
  · right
    rw [if_pos (mt List.isPrefixOf_iff_prefix.mp other)]
    exact ⟨_, rfl⟩

theorem readEntry_unmarked (crc32 : List UInt8 → ℕ) (concat : ℤ) {stream : List UInt8}
    (unmarked : ¬ centralDir <+: stream)
    : ∃ message, readEntry crc32 concat stream = .error (.badZip message) := by
  unfold readEntry
  extract_lets centdir
  by_cases short : centdir.length ≠ sizeCentralDir
  · rw [if_pos short]
    exact ⟨_, rfl⟩
  · rw [if_neg short, if_pos]
    · exact ⟨_, rfl⟩
    · intro found
      apply unmarked
      rw [← found]
      exact (List.take_prefix _ _).trans (List.take_prefix _ _)

theorem unread_of_zip64 {more : List UInt8} (wide : archive.zip64 = some more)
    (clear : archive.CommentClear) (undisguised : archive.Undisguised more)
    (listed : archive.entries ≠ [])
    : ∃ message, readCentralDirectory crc32 archive.file = .error (.badZip message) := by
  rw [readCentralDirectory, archive.endRecData_spec clear]
  obtain found | ⟨message, failed⟩ := archive.endRecData64_wide wide undisguised
  · rw [found, endFound64]
    dsimp only [Except.map]
    rw [if_pos rfl]
    have concat : ((archive.lead.length + archive.body.length + archive.directory.length : ℕ) : ℤ)
        - archive.directory.length - archive.body.length
        - (sizeEndCentDir64 + sizeEndCentDir64Locator : ℕ) = archive.lead.length - 76 := by
      simp only [sizeEndCentDir64, sizeEndCentDir64Locator]
      omega
    rw [concat]
    by_cases early : (archive.body.length : ℤ) + (archive.lead.length - 76) < 0
    · rw [if_pos early]
      exact ⟨_, rfl⟩
    · rw [if_neg early]
      have start : ((archive.body.length : ℤ) + (archive.lead.length - 76)).toNat
          = archive.lead.length + archive.body.length - 76 := by omega
      obtain ⟨entry, entries, same⟩ := List.exists_cons_of_ne_nil listed
      have long : 46 ≤ archive.directory.length := by
        have := entry.length_header
        rw [directory, same, List.flatMap_cons, ArchiveEntry.bytes]
        simp only [List.length_append]
        omega
      have unmarked := undisguised.early (by omega)
      obtain ⟨rounds, size⟩ := Nat.exists_eq_succ_of_ne_zero (by omega : archive.directory.length ≠ 0)
      have noEntry : ¬ centralDir <+: readAt archive.file
          (archive.lead.length + archive.body.length - 76) archive.directory.length :=
        fun found => unmarked (found.trans (List.take_prefix _ _))
      obtain ⟨message, failed⟩ := readEntry_unmarked crc32 (archive.lead.length - 76) noEntry
      rw [size] at failed
      rw [start, size, readEntries, if_pos (Nat.succ_pos rounds), failed]
      exact ⟨message, rfl⟩
  · rw [failed]
    exact ⟨message, rfl⟩

/-- The directory is read exactly as it is when no zip64 locator stands before the end record.
It is not read when the archive has a zip64 end record, unless a signature stands by chance
where the reader looks. -/
theorem central_directory_read
    : (archive.CommentClear → archive.NoLocator → archive.ReadsExactly)
      ∧ ∀ more, archive.zip64 = some more → archive.CommentClear → archive.Undisguised more
        → archive.entries ≠ []
        → ∃ message, readCentralDirectory crc32 archive.file = .error (.badZip message) :=
  ⟨archive.readsExactly_of_noLocator, fun _ => archive.unread_of_zip64⟩

end Archive

def emptyEntry : ArchiveEntry (fun _ => 0xE8B7BE43) where
  versionMade := 20
  extractVersion := 20
  extractSystem := 0
  flagBits := 0
  compressType := 0
  modified := 0
  crc := 0
  compressSize := 0
  fileSize := 0
  headerOffset := 0
  diskStart := 0
  internalAttributes := 0
  externalAttributes := 0
  rawName := [0x61]
  name := "a"
  before := []
  zip64 := none
  after := []
  comment := []
  wideFile := false
  wideCompressed := false
  wideOffset := false
  version_le := by decide
  flagBits_lt := by decide
  compressType_lt := by decide
  crc_lt := by decide
  fileSize_lt := by decide
  compressSize_lt := by decide
  headerOffset_lt := by decide
  wide_zip64 := by decide
  zip64_numbers := by decide
  decoded := by decide +kernel
  others := by simp
  rawName_lt := by decide
  extra_lt := by decide
  comment_lt := by decide

/-- An archive of this entry, with or without a zip64 end record. -/
def emptyArchive (zip64 : Bool) : Archive (fun _ => 0xE8B7BE43) where
  lead := []
  body := []
  entries := [emptyEntry]
  zip64 := if zip64 then some [] else none
  comment := []
  comment_lt := by decide
  inBody := by simp [emptyEntry]
  narrowEnd := fun _ => by decide
  length_lt := by cases zip64 <;> decide

theorem central_directory_read_empty
    : (emptyArchive false).ReadsExactly
      ∧ ∃ message, readCentralDirectory (fun _ => 0xE8B7BE43) (emptyArchive true).file
        = .error (.badZip message) :=
  ⟨(emptyArchive false).central_directory_read.1 (Or.inl rfl) (Or.inr (by decide)),
    (emptyArchive true).central_directory_read.2 [] rfl (Or.inl rfl)
      ⟨fun ahead => absurd rfl ahead, fun ahead => absurd rfl ahead, fun far => by cases far⟩
      (List.cons_ne_nil _ _)⟩

/-- The archive with a zip64 end record is well-formed, and the reader finds nothing in it. -/
theorem zip64_archive_unread : ¬ (emptyArchive true).ReadsExactly := by
  intro ⟨found, read, _⟩
  have failed : readCentralDirectory (fun _ => 0xE8B7BE43) (emptyArchive true).file
      = .error (.badZip "Bad offset for central directory") := by decide +kernel
  rw [failed] at read
  cases read

end MokuroBunko.Library
