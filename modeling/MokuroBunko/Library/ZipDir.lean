import MokuroBunko.Lib.LittleEndian
import Mathlib.Algebra.Order.Ring.Int
import Mathlib.Data.List.Sort

/-! The central directory of a zip archive (`archive/zipdir.rs`): finding its end record and
reading its entries, from the bytes of the file.
-/

namespace MokuroBunko.Library

open MokuroBunko.Lib

/-- `ZipError`. -/
inductive ZipError where
  | badZip (message : String)
  | unsupported (message : String)
  | io (message : String)
deriving DecidableEq

structure ZipEntry where
  filename : String
  origFilename : String
  flagBits : ℕ
  compressType : ℕ
  crc : ℕ
  compressSize : ℕ
  fileSize : ℕ
  headerOffset : ℕ
  endOffset : ℕ
deriving DecidableEq

namespace ZipDir

def sizeEndCentDir : ℕ := 22
def sizeEndCentDir64 : ℕ := 56
def sizeEndCentDir64Locator : ℕ := 20
def sizeCentralDir : ℕ := 46
def zipMaxComment : ℕ := 2 ^ 16 - 1
def maxExtractVersion : ℕ := 63

def endArchive : List UInt8 := [0x50, 0x4B, 5, 6]
def endArchive64 : List UInt8 := [0x50, 0x4B, 6, 6]
def endArchive64Locator : List UInt8 := [0x50, 0x4B, 6, 7]
def centralDir : List UInt8 := [0x50, 0x4B, 1, 2]

/-- The number of `width` bytes at the place. -/
def numberAt (width : ℕ) (data : List UInt8) (place : ℕ) : ℕ :=
  LittleEndian.value ((data.drop place).take width)

def u16At : List UInt8 → ℕ → ℕ := numberAt 2
def u32At : List UInt8 → ℕ → ℕ := numberAt 4
def u64At : List UInt8 → ℕ → ℕ := numberAt 8

/-- `seek` and `read_up_to`: what is there of the asked bytes. -/
def readAt (file : List UInt8) (place len : ℕ) : List UInt8 := (file.drop place).take len

-- The end record

structure EndRecord where
  sizeCd : ℕ
  offsetCd : ℕ
  location : ℕ
  isZip64 : Bool
deriving DecidableEq

/-- The record the locator at `offset` leads to, `record` when there is no locator. -/
def endRecData64 (file : List UInt8) (offset : ℕ) (record : EndRecord)
    : Except ZipError EndRecord :=
  if offset < sizeEndCentDir64Locator then .ok record
  else
    let offset := offset - sizeEndCentDir64Locator
    let data := readAt file offset sizeEndCentDir64Locator
    if data.length ≠ sizeEndCentDir64Locator then .error (.io "Unknown I/O error")
    else if data.take 4 ≠ endArchive64Locator then .ok record
    else
      let diskno := u32At data 4
      let reloff := u64At data 8
      let disks := u32At data 16
      if diskno ≠ 0 ∨ 1 < disks then
        .error (.badZip "zipfiles that span multiple disks are not supported")
      else if offset < sizeEndCentDir64 then
        .error (.badZip "Corrupt zip64 end of central directory locator")
      else
        let offset := offset - sizeEndCentDir64
        if offset < reloff then
          .error (.badZip "Corrupt zip64 end of central directory locator")
        else
          let data := readAt file reloff sizeEndCentDir64
          if data.length ≠ sizeEndCentDir64 then .error (.io "Unknown I/O error")
          else
            -- with data in front of the archive the record stands later than the locator says
            let moved := ¬ endArchive64.isPrefixOf data ∧ reloff ≠ offset
            let extrasz := if moved then 0 else offset - reloff
            let data := if moved then readAt file offset sizeEndCentDir64 else data
            if data.length ≠ sizeEndCentDir64 then .error (.io "Unknown I/O error")
            else if ¬ endArchive64.isPrefixOf data then
              .error (.badZip "Zip64 end of central directory record not found")
            else
              let sz := u64At data 4
              let dirsize := u64At data 40
              let diroffset := u64At data 48
              if ¬ (diroffset + dirsize < 2 ^ 64 ∧ diroffset + dirsize = reloff)
                  ∨ ¬ (sz + 12 < 2 ^ 64 ∧ sz + 12 = sizeEndCentDir64 + extrasz) then
                .error (.badZip "Corrupt zip64 end of central directory record")
              else
                .ok {
                  sizeCd := dirsize
                  offsetCd := diroffset
                  location := offset - extrasz
                  isZip64 := true
                }

/-- The end record: at the very end of the file, or before the archive's comment. -/
def endRecData (file : List UInt8) : Except ZipError (Option EndRecord) :=
  let filesize := file.length
  if filesize < sizeEndCentDir then .ok none
  else
    let data := readAt file (filesize - sizeEndCentDir) sizeEndCentDir
    if data.length = sizeEndCentDir ∧ data.take 4 = endArchive
        ∧ (data.drop 20).take 2 = [0, 0] then
      (endRecData64 file (filesize - sizeEndCentDir) {
        sizeCd := u32At data 12
        offsetCd := u32At data 16
        location := filesize - sizeEndCentDir
        isZip64 := false
      }).map some
    else
      let maxCommentStart := filesize - (zipMaxComment + sizeEndCentDir)
      let data := readAt file maxCommentStart (zipMaxComment + sizeEndCentDir)
      match LittleEndian.lastPlace endArchive data with
      | none => .ok none
      | some start =>
          let rec_ := data.drop start
          if rec_.length < sizeEndCentDir then .ok none
          else
            (endRecData64 file (maxCommentStart + start) {
              sizeCd := u32At rec_ 12
              offsetCd := u32At rec_ 16
              location := maxCommentStart + start
              isZip64 := false
            }).map some

-- Names

/-- `CP437_HIGH`. -/
def cp437High : List Char :=
  ("ÇüéâäàåçêëèïîìÄÅÉæÆôöòûùÿÖÜ¢£¥₧ƒáíóúñÑªº¿⌐¬½¼¡«»░▒▓│┤╡╢╖╕╣║╗╝╜╛┐"
    ++ "└┴┬├─┼╞╟╚╔╩╦╠═╬╧╨╤╥╙╘╒╓╫╪┘┌█▄▌▐▀αßΓπΣσµτΦΘΩδ∞φε∩≡±≥≤⌠⌡÷≈°∙·√ⁿ²■\u00a0").toList

def decodeCp437 (raw : List UInt8) : String :=
  String.ofList (raw.map (fun byte =>
    if byte < 0x80 then Char.ofNat byte.toNat else cp437High.getD (byte.toNat - 0x80) ' '))

/-- `String::from_utf8`. -/
def fromUtf8 (raw : List UInt8) : Option String := String.fromUTF8? ⟨raw.toArray⟩

/-- `MASK_UTF_FILENAME`. -/
def isUtfFilename (flags : ℕ) : Bool := flags.testBit 11

def decodeName (raw : List UInt8) (flags : ℕ) : Except ZipError String :=
  if isUtfFilename flags then
    match fromUtf8 raw with
    | some name => .ok name
    | none => .error (.badZip "invalid UTF-8 file name")
  else .ok (decodeCp437 raw)

/-- The name up to the first NUL. -/
def sanitizeFilename (name : String) : String :=
  String.ofList (name.toList.takeWhile (· ≠ '\x00'))

-- Entries

/-- The next number of a zip64 field, if the entry's own only says that it is there. -/
def takeWide (saturated : Bool) (field : String) (own : ℕ) (data : List UInt8)
    : Except ZipError (ℕ × List UInt8) :=
  if saturated then
    if data.length < 8 then .error (.badZip s!"Corrupt zip64 extra field. {field} not found.")
    else .ok (u64At data 0, data.drop 8)
  else .ok (own, data)

/-- The zip64 field has the numbers that did not fit, in this order. -/
def decodeZip64 (entry : ZipEntry) (data : List UInt8) : Except ZipError ZipEntry := do
  let (fileSize, data) ← takeWide
    (entry.fileSize = 0xFFFFFFFFFFFFFFFF ∨ entry.fileSize = 0xFFFFFFFF) "File size"
    entry.fileSize data
  let (compressSize, data) ← takeWide (entry.compressSize = 0xFFFFFFFF) "Compress size"
    entry.compressSize data
  let (headerOffset, _) ← takeWide (entry.headerOffset = 0xFFFFFFFF) "Header offset"
    entry.headerOffset data
  .ok { entry with fileSize, compressSize, headerOffset }

/-- The Info-ZIP Unicode Path field. -/
def decodeUnicodePath (entry : ZipEntry) (data : List UInt8) (filenameCrc : ℕ)
    : Except ZipError ZipEntry :=
  if data.length < 5 then
    .error (.badZip "Corrupt unicode path extra field (0x7075)")
  else if (data.headD 0).toNat = 1 ∧ u32At data 1 = filenameCrc then
    match fromUtf8 (data.drop 5) with
    | none =>
        .error (.badZip "Corrupt unicode path extra field (0x7075): invalid utf-8 bytes")
    | some name =>
        .ok (if name = "" then entry else { entry with filename := sanitizeFilename name })
  else .ok entry

/-- `{tp:04x}`. -/
def hex4 (number : ℕ) : String := String.ofList ((Nat.toDigits 16 number).leftpad 4 '0')

/-- One extra field. -/
def decodeField (entry : ZipEntry) (tp : ℕ) (data : List UInt8) (filenameCrc : ℕ)
    : Except ZipError ZipEntry :=
  if tp = 0x0001 then decodeZip64 entry data
  else if tp = 0x7075 then decodeUnicodePath entry data filenameCrc
  else .ok entry

/-- `decode_extra`. Every round takes four bytes at least. -/
def decodeExtra (filenameCrc : ℕ) : ℕ → ZipEntry → List UInt8 → Except ZipError ZipEntry
  | 0, entry, _ => .ok entry
  | rounds + 1, entry, extra =>
      if extra.length < 4 then .ok entry
      else
        let tp := u16At extra 0
        let ln := u16At extra 2
        if extra.length < ln + 4 then
          .error (.badZip s!"Corrupt extra field {hex4 tp} (size={ln})")
        else do
          let entry ← decodeField entry tp ((extra.drop 4).take ln) filenameCrc
          decodeExtra filenameCrc rounds entry (extra.drop (ln + 4))

/-- The entry a stream begins with, what follows it, and the bytes it should have taken. -/
def readEntry (crc32 : List UInt8 → ℕ) (concat : ℤ) (stream : List UInt8)
    : Except ZipError (ZipEntry × List UInt8 × ℕ) :=
  let centdir := stream.take sizeCentralDir
  let stream := stream.drop sizeCentralDir
  if centdir.length ≠ sizeCentralDir then .error (.badZip "Truncated central directory")
  else if centdir.take 4 ≠ centralDir then
    .error (.badZip "Bad magic number for central directory")
  else do
    let extractVersion := (centdir.getD 6 0).toNat
    let flagBits := u16At centdir 8
    let nameLen := u16At centdir 28
    let extraLen := u16At centdir 30
    let commentLen := u16At centdir 32
    let rawName := stream.take nameLen
    let stream := stream.drop nameLen
    let origFilename ← decodeName rawName flagBits
    let extra := stream.take extraLen
    let stream := (stream.drop extraLen).drop commentLen
    if maxExtractVersion < extractVersion then
      .error (.unsupported
        s!"zip file version {extractVersion / 10}.{extractVersion % 10}")
    else do
      let entry ← decodeExtra (crc32 rawName) extra.length {
          filename := sanitizeFilename origFilename
          origFilename
          flagBits
          compressType := u16At centdir 10
          crc := u32At centdir 16
          compressSize := u32At centdir 20
          fileSize := u32At centdir 24
          headerOffset := u32At centdir 42
          endOffset := 0
        } extra
      let offset := entry.headerOffset + concat
      if offset < 0 then .error (.badZip "Bad offset for local header")
      else
        .ok ({ entry with headerOffset := (offset % 2 ^ 64).toNat }, stream,
          sizeCentralDir + nameLen + extraLen + commentLen)

/-- The entries of the directory. Every round takes a byte at least. -/
def readEntries (crc32 : List UInt8 → ℕ) (concat : ℤ) (sizeCd : ℕ)
    : ℕ → ℕ → List UInt8 → Except ZipError (List ZipEntry)
  | 0, _, _ => .ok []
  | rounds + 1, total, stream =>
      if total < sizeCd then do
        let (entry, stream, size) ← readEntry crc32 concat stream
        let entries ← readEntries crc32 concat sizeCd rounds (total + size) stream
        .ok (entry :: entries)
      else .ok []

/-- The entries by descending offset, entries of one offset as they come. -/
def offsetOrder (entries : List ZipEntry) : List ℕ :=
  (List.range entries.length).insertionSort (fun a b =>
    ((entries[b]?).elim 0 ZipEntry.headerOffset)
      ≤ ((entries[a]?).elim 0 ZipEntry.headerOffset))

/-- `_end_offset`: an entry ends where the next one by offset begins. -/
def assignEnds (entries : List ZipEntry) (startDir : ℕ) : List ZipEntry :=
  ((offsetOrder entries).foldl (fun (state : List ZipEntry × ℕ) index =>
    (state.1.modify index (fun entry => { entry with endOffset := state.2 }),
      (state.1[index]?).elim state.2 ZipEntry.headerOffset)) (entries, startDir)).1

/-- `read_central_directory`. -/
def readCentralDirectory (crc32 : List UInt8 → ℕ) (file : List UInt8)
    : Except ZipError (List ZipEntry) :=
  match endRecData file with
  | .ok none | .error (.io _) => .error (.badZip "File is not a zip file")
  | .error error => .error error
  | .ok (some record) =>
      let concat : ℤ := record.location - record.sizeCd - record.offsetCd
      let concat :=
        if record.isZip64 then concat - (sizeEndCentDir64 + sizeEndCentDir64Locator : ℕ)
        else concat
      let startDir := record.offsetCd + concat
      if startDir < 0 then .error (.badZip "Bad offset for central directory")
      else do
        let stream := readAt file startDir.toNat record.sizeCd
        let entries ← readEntries crc32 concat record.sizeCd record.sizeCd 0 stream
        .ok (assignEnds entries startDir.toNat)

end ZipDir

end MokuroBunko.Library
