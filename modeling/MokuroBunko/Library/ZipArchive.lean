import MokuroBunko.Library.ZipDir

/-! Well-formed zip archives on one disk, as the format describes them: what an archive lists and
the bytes it is made of. This is the other side of the reader and shares nothing with it but the
signatures and the decoding of names.
-/

namespace MokuroBunko.Library

open MokuroBunko.Lib ZipDir LittleEndian

-- Extra fields

structure ExtraField where
  tag : ℕ
  data : List UInt8
  tag_lt : tag < 2 ^ 16
  length_lt : data.length < 2 ^ 16

namespace ExtraField

def bytes (field : ExtraField) : List UInt8 :=
  LittleEndian.bytes 2 field.tag ++ LittleEndian.bytes 2 field.data.length ++ field.data

/-- A Unicode Path field made for the name with this checksum. -/
def IsPath (field : ExtraField) (nameCrc : ℕ) : Prop :=
  field.tag = 0x7075 ∧ (field.data.headD 0).toNat = 1 ∧ u32At field.data 1 = nameCrc

instance (field : ExtraField) (nameCrc : ℕ) : Decidable (field.IsPath nameCrc) :=
  inferInstanceAs (Decidable (_ ∧ _ ∧ _))

/-- A Unicode Path field is complete, and its name is a text if it is for this name. -/
def Sound (field : ExtraField) (nameCrc : ℕ) : Prop :=
  field.tag = 0x7075 → 5 ≤ field.data.length
    ∧ (field.IsPath nameCrc → (fromUtf8 (field.data.drop 5)).isSome)

instance (field : ExtraField) (nameCrc : ℕ) : Decidable (field.Sound nameCrc) :=
  inferInstanceAs (Decidable (_ → _))

/-- The name of an entry after the field. -/
def rename (nameCrc : ℕ) (name : String) (field : ExtraField) : String :=
  if field.IsPath nameCrc then
    match fromUtf8 (field.data.drop 5) with
    | some path => if path = "" then name else sanitizeFilename path
    | none => name
  else name

end ExtraField

-- Entries

/-- A number of a 32-bit field, or the sign that it is in the zip64 field. -/
def narrow (wide : Bool) (number : ℕ) : ℕ := if wide then 0xFFFFFFFF else number

/-- The numbers of an entry that did not fit, in the order of the format. -/
def wideNumbers (wideFile wideCompressed wideOffset : Bool)
    (fileSize compressSize headerOffset : ℕ)
    : List UInt8 :=
  (if wideFile then bytes 8 fileSize else [])
    ++ (if wideCompressed then bytes 8 compressSize else [])
    ++ (if wideOffset then bytes 8 headerOffset else [])

/-- An entry of the directory. Its zip64 field begins with the numbers that did not fit. -/
structure ArchiveEntry (crc32 : List UInt8 → ℕ) where
  versionMade : ℕ
  extractVersion : ℕ
  extractSystem : ℕ
  flagBits : ℕ
  compressType : ℕ
  modified : ℕ
  crc : ℕ
  compressSize : ℕ
  fileSize : ℕ
  headerOffset : ℕ
  diskStart : ℕ
  internalAttributes : ℕ
  externalAttributes : ℕ
  rawName : List UInt8
  name : String
  before : List ExtraField
  zip64 : Option ExtraField
  after : List ExtraField
  comment : List UInt8
  wideFile : Bool
  wideCompressed : Bool
  wideOffset : Bool
  version_le : extractVersion ≤ 63
  flagBits_lt : flagBits < 2 ^ 16
  compressType_lt : compressType < 2 ^ 16
  crc_lt : crc < 2 ^ 32
  fileSize_lt : fileSize < 2 ^ 64 ∧ (wideFile = false → fileSize < 0xFFFFFFFF)
  compressSize_lt : compressSize < 2 ^ 64 ∧ (wideCompressed = false → compressSize < 0xFFFFFFFF)
  headerOffset_lt : headerOffset < 2 ^ 64 ∧ (wideOffset = false → headerOffset < 0xFFFFFFFF)
  wide_zip64 : wideFile || wideCompressed || wideOffset → zip64.isSome
  zip64_numbers : ∀ field ∈ zip64, field.tag = 0x0001
    ∧ wideNumbers wideFile wideCompressed wideOffset fileSize compressSize headerOffset
      <+: field.data
  decoded : decodeName rawName flagBits = .ok name
  others : ∀ field ∈ before ++ after, field.tag ≠ 0x0001 ∧ field.Sound (crc32 rawName)
  rawName_lt : rawName.length < 2 ^ 16
  extra_lt : ((before ++ zip64.toList ++ after).flatMap ExtraField.bytes).length < 2 ^ 16
  comment_lt : comment.length < 2 ^ 16

namespace ArchiveEntry

variable {crc32 : List UInt8 → ℕ} (entry : ArchiveEntry crc32)

def extraFields : List ExtraField := entry.before ++ entry.zip64.toList ++ entry.after

def extra : List UInt8 := entry.extraFields.flatMap ExtraField.bytes

/-- The 46 bytes an entry begins with. -/
def header : List UInt8 := record [
  (4, 0x02014B50), (2, entry.versionMade), (1, entry.extractVersion),
  (1, entry.extractSystem), (2, entry.flagBits), (2, entry.compressType), (4, entry.modified),
  (4, entry.crc), (4, narrow entry.wideCompressed entry.compressSize),
  (4, narrow entry.wideFile entry.fileSize), (2, entry.rawName.length),
  (2, entry.extra.length), (2, entry.comment.length), (2, entry.diskStart),
  (2, entry.internalAttributes), (4, entry.externalAttributes),
  (4, narrow entry.wideOffset entry.headerOffset)]

def bytes : List UInt8 := entry.header ++ entry.rawName ++ entry.extra ++ entry.comment

/-- What a reader should find, in an archive that begins `lead` bytes into the file. -/
def listing (lead : ℕ) : ZipEntry where
  filename := (entry.before ++ entry.after).foldl (ExtraField.rename (crc32 entry.rawName))
    (sanitizeFilename entry.name)
  origFilename := entry.name
  flagBits := entry.flagBits
  compressType := entry.compressType
  crc := entry.crc
  compressSize := entry.compressSize
  fileSize := entry.fileSize
  headerOffset := lead + entry.headerOffset
  endOffset := 0

end ArchiveEntry

-- Archives

/-- An archive: `lead` is data in front that its offsets do not count, `body` everything before
the directory that they count, `zip64` the extensible data of its zip64 end record if it has
one. -/
structure Archive (crc32 : List UInt8 → ℕ) where
  lead : List UInt8
  body : List UInt8
  entries : List (ArchiveEntry crc32)
  zip64 : Option (List UInt8)
  comment : List UInt8
  comment_lt : comment.length < 2 ^ 16
  inBody : ∀ entry ∈ entries, entry.headerOffset ≤ body.length
  narrowEnd : zip64 = none
    → (entries.flatMap ArchiveEntry.bytes).length < 0xFFFFFFFF ∧ body.length < 0xFFFFFFFF
  length_lt : lead.length + body.length + (entries.flatMap ArchiveEntry.bytes).length
    + zip64.elim 0 (fun more => more.length + 76) + 22 + comment.length < 2 ^ 64

namespace Archive

variable {crc32 : List UInt8 → ℕ} (archive : Archive crc32)

def directory : List UInt8 := archive.entries.flatMap ArchiveEntry.bytes

/-- The 56 bytes a zip64 end record begins with. -/
def zip64Record (more : List UInt8) : List UInt8 := record [
  (4, 0x06064B50), (8, 44 + more.length), (2, 45), (2, 45), (4, 0), (4, 0),
  (8, archive.entries.length), (8, archive.entries.length), (8, archive.directory.length),
  (8, archive.body.length)]

def zip64Locator : List UInt8 := record [
  (4, 0x07064B50), (4, 0), (8, archive.body.length + archive.directory.length), (4, 1)]

/-- The zip64 end record and its locator. -/
def zip64End (more : List UInt8) : List UInt8 :=
  archive.zip64Record more ++ more ++ archive.zip64Locator

/-- The 22 bytes of the end record. -/
def endRecord : List UInt8 := record [
  (4, 0x06054B50), (2, 0), (2, 0), (2, min archive.entries.length 0xFFFF),
  (2, min archive.entries.length 0xFFFF),
  (4, narrow archive.zip64.isSome archive.directory.length),
  (4, narrow archive.zip64.isSome archive.body.length), (2, archive.comment.length)]

/-- Everything before the end record. -/
def front : List UInt8 :=
  archive.lead ++ archive.body ++ archive.directory ++ archive.zip64.elim [] archive.zip64End

def file : List UInt8 := archive.front ++ archive.endRecord ++ archive.comment

/-- The signature of an end record does not stand later than at the end record, if a reader has
to look for it. -/
def CommentClear : Prop :=
  archive.comment = [] ∨ ∀ place, 0 < place
    → ¬ endArchive <+: (archive.endRecord ++ archive.comment).drop place

/-- No signature of a zip64 locator stands where a locator would. -/
def NoLocator : Prop :=
  archive.front.length < 20
    ∨ ¬ endArchive64Locator <+: archive.front.drop (archive.front.length - 20)

/-- Where the reader looks for a signature in an archive with a zip64 end record, none stands by
chance: at the place the locator names when there is data in front, right before the locator
when that is not the record, and 76 bytes before the directory. -/
structure Undisguised (more : List UInt8) : Prop where
  named : archive.lead ≠ []
    → ¬ endArchive64 <+: archive.file.drop (archive.body.length + archive.directory.length)
  moved : archive.lead ≠ [] → more ≠ []
    → ¬ endArchive64 <+: archive.file.drop (archive.front.length - 76)
  early : 76 ≤ archive.lead.length + archive.body.length
    → ¬ centralDir <+: archive.file.drop (archive.lead.length + archive.body.length - 76)

/-- The reader succeeds and finds the entries, in order, as they are. -/
def ReadsExactly : Prop :=
  ∃ found, readCentralDirectory crc32 archive.file = .ok found
    ∧ found.map (fun entry => { entry with endOffset := 0 })
      = archive.entries.map (fun entry => entry.listing archive.lead.length)

end Archive

end MokuroBunko.Library
