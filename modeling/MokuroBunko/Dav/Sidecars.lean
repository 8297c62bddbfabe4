import MokuroBunko.Library.SidecarNames

/-! The files that go when an archive is deleted (`bunko-dav/src/sidecars.rs`), and when they are
another volume's.
-/

namespace MokuroBunko.Dav

open MokuroBunko.Lib
open MokuroBunko.Library

def VOLUME_EXTENSIONS : List FileName := VOLUME_ARCHIVE_EXTENSIONS

variable (std : LowerTables)

/-- The stem the loop of `volume_stems` takes from a name. A slice that ends inside a character
takes none. -/
def volumeStem (name : FileName) : Option FileName := do
  let lower := std.toLowercase name
  let extension ← VOLUME_EXTENSIONS.find? (fun extension =>
    extension.isSuffixOf lower && utf8Length lower == utf8Length name)
  takeBytes (utf8Length name - utf8Length extension) name

def volumeStems (names : List FileName) : List FileName := names.filterMap (volumeStem std)

def siblings (listing : Option (List FileName)) (cbz : FileName) : List FileName :=
  siblingsBy (volumeStems std) listing cbz

variable {std}

theorem volumeStem_bytes (keeps : KeepsEndings std.piece ARCHIVE_CHARS)
    {stem extension name : FileName} (named : Named stem extension name)
    (known : extension ∈ VOLUME_EXTENSIONS)
    : utf8Length (std.toLowercase name) = utf8Length name
      ↔ utf8Length (std.toLowercase stem) = utf8Length stem := by
  obtain ⟨tail, rfl, lowered⟩ := named
  obtain ⟨_, _, ascii⟩ := archive_extension known
  have narrow : ∀ char ∈ tail, char.toNat < 128 := by
    intro char member
    apply asciiLowerChar_lt.mp
    exact ascii _ (lowered ▸ List.mem_map_of_mem member)
  rw [LowerTables.utf8Length_toLowercase_append keeps stem narrow, utf8Length_append,
    Nat.add_right_cancel_iff]

theorem volumeStem_named (keeps : KeepsEndings std.piece ARCHIVE_CHARS) {stem name : FileName}
    (found : volumeStem std name = some stem)
    : ∃ extension ∈ VOLUME_EXTENSIONS, Named stem extension name
      ∧ utf8Length (std.toLowercase name) = utf8Length name := by
  obtain ⟨extension, chosen, sliced⟩ := Option.bind_eq_some_iff.mp found
  have known := List.mem_of_find?_eq_some chosen
  have holds := List.find?_some chosen
  rw [Bool.and_eq_true, List.isSuffixOf_iff_suffix, beq_iff_eq] at holds
  obtain ⟨stem', named⟩ := (endsWith_iff_named keeps known name).mp holds.1
  rw [named.takeBytes_eq known] at sliced
  obtain rfl := Option.some.inj sliced
  exact ⟨extension, known, named, holds.2⟩

theorem mem_volumeStems (keeps : KeepsEndings std.piece ARCHIVE_CHARS) {names : List FileName}
    {stem : FileName}
    : stem ∈ volumeStems std names
      ↔ HasArchive names VOLUME_EXTENSIONS stem
        ∧ utf8Length (std.toLowercase stem) = utf8Length stem := by
  unfold volumeStems
  rw [List.mem_filterMap]
  constructor
  · intro ⟨name, member, found⟩
    obtain ⟨extension, known, named, bytes⟩ := volumeStem_named keeps found
    exact ⟨⟨name, member, extension, known, named⟩,
      (volumeStem_bytes keeps named known).mp bytes⟩
  · intro ⟨⟨name, member, extension, known, named⟩, bytes⟩
    have same : (utf8Length (std.toLowercase name) == utf8Length name) = true :=
      beq_iff_eq.mpr ((volumeStem_bytes keeps named known).mpr bytes)
    refine ⟨name, member,
      Option.bind_eq_some_iff.mpr ⟨extension, ?_, named.takeBytes_eq known⟩⟩
    simp only [same, Bool.and_true]
    exact find_extension keeps named known

/-- The primary sidecar of the other volume looks like a layer of this one, and the stem of the
other is not among the stems: in lower case it has more or fewer bytes. -/
def Overlooked (std : LowerTables) (names : List FileName) (stem other : FileName) : Prop :=
  (∃ layer, isLayerId layer = true ∧ other = stem ++ '.' :: layer)
    ∧ (other ++ ".mokuro".toList ∈ names ∨ other ++ ".mokuro.gz".toList ∈ names)
    ∧ utf8Length (std.toLowercase other) ≠ utf8Length other

theorem sibling_side_iff (keeps : KeepsEndings std.piece ARCHIVE_CHARS) {names : List FileName}
    {a b : FileName} (listed : b ∈ names) (volume : IsArchive a) (archive : IsArchive b)
    (different : pyStem a ≠ pyStem b)
    : (∃ ending ∈ VOLUME_SIDE_SUFFIXES, pyStem b ++ ending ∈ siblings std (some names) a)
      ↔ Overlooked std names (pyStem a) (pyStem b) := by
  have has := (hasArchive_sorted.mpr (archive.hasArchive listed) :
    HasArchive (names.insertionSort (· ≤ ·)) VOLUME_EXTENSIONS (pyStem b))
  have filled := volume.named.1
  constructor
  · intro ⟨ending, known, member⟩
    unfold siblings at member
    obtain ⟨ending', known', same⟩ | ⟨there, layer, split, absent⟩ := mem_siblingsBy.mp member
    · exact absurd (side_suffix_inj known known' same).1.symm different
    · obtain ⟨_, valid, spelled⟩ := splitLayerSidecar_eq_some_iff.mp split
      have stem : pyStem b = pyStem a ++ '.' :: layer
          ∧ (pyStem b ++ ".mokuro".toList ∈ names ∨ pyStem b ++ ".mokuro.gz".toList ∈ names) := by
        obtain same | same := spelled
        · obtain ⟨stem, rfl⟩ := side_suffix_inj known List.mem_cons_self same
          exact ⟨stem, Or.inl there⟩
        · obtain ⟨stem, rfl⟩ := side_suffix_inj known
            (List.mem_cons_of_mem _ List.mem_cons_self) same
          exact ⟨stem, Or.inr there⟩
      refine ⟨⟨layer, valid, stem.1⟩, stem.2, ?_⟩
      intro bytes
      rw [← stem.1] at absent
      exact absent ((mem_volumeStems keeps).mpr ⟨has, bytes⟩)
  · intro ⟨⟨layer, valid, stem⟩, there, bytes⟩
    have absent : pyStem a ++ '.' :: layer ∉ volumeStems std (names.insertionSort (· ≤ ·)) := by
      rw [← stem]
      exact fun member => bytes ((mem_volumeStems keeps).mp member).2
    obtain plain | zipped := there
    · refine ⟨".mokuro".toList, List.mem_cons_self, mem_siblingsBy.mpr (Or.inr ⟨plain, layer, ?_,
        absent⟩)⟩
      exact splitLayerSidecar_eq_some_iff.mpr ⟨filled, valid, Or.inl (by rw [stem])⟩
    · refine ⟨".mokuro.gz".toList, List.mem_cons_of_mem _ List.mem_cons_self,
        mem_siblingsBy.mpr (Or.inr ⟨zipped, layer, ?_, absent⟩)⟩
      exact splitLayerSidecar_eq_some_iff.mpr ⟨filled, valid, Or.inr (by rw [stem])⟩

/-- The name ends with an archive's extension, in any case. -/
def ArchiveName (name : FileName) : Prop :=
  ∃ extension ∈ VOLUME_ARCHIVE_EXTENSIONS, extension <:+ name.map Text.asciiLowerChar

theorem Named.archiveName {stem extension name : FileName} (named : Named stem extension name)
    (known : extension ∈ VOLUME_ARCHIVE_EXTENSIONS)
    : ArchiveName name := by
  obtain ⟨tail, rfl, lowered⟩ := named
  refine ⟨extension, known, ?_⟩
  rw [List.map_append, lowered]
  exact List.suffix_append _ _

theorem sibling_not_archive {listing : Option (List FileName)} {a file : FileName}
    (member : file ∈ siblings std listing a)
    : ¬ ArchiveName file := by
  obtain ⟨front, ending, known, rfl⟩ : ∃ front, ∃ ending ∈ VOLUME_SIDE_SUFFIXES,
      file = front ++ ending := by
    cases listing with
    | none =>
        obtain ⟨ending, known, same⟩ := List.mem_map.mp member
        exact ⟨_, ending, known, same.symm⟩
    | some names =>
        rcases mem_siblingsBy.mp member with ⟨ending, known, same⟩ | ⟨_, layer, split, _⟩
        · exact ⟨_, ending, known, same⟩
        · obtain ⟨_, _, same | same⟩ := splitLayerSidecar_eq_some_iff.mp split
          · exact ⟨_, _, List.mem_cons_self, same⟩
          · exact ⟨_, _, List.mem_cons_of_mem _ List.mem_cons_self, same⟩
  have apart : ∀ ending ∈ VOLUME_SIDE_SUFFIXES, ∀ extension ∈ VOLUME_ARCHIVE_EXTENSIONS,
      extension.length ≤ (ending.map Text.asciiLowerChar).length
        ∧ ¬ extension <:+ ending.map Text.asciiLowerChar := by
    decide
  rintro ⟨extension, extends_, suffix⟩
  obtain ⟨short, other⟩ := apart ending known extension extends_
  rw [List.map_append] at suffix
  exact other (List.suffix_of_suffix_length_le suffix (List.suffix_append _ _) short)

theorem sibling_ne_archive {names : List FileName} {a b file : FileName} (archive : IsArchive b)
    (member : file ∈ siblings std (some names) a)
    : file ≠ b := by
  rintro rfl
  obtain ⟨_, extension, known, named⟩ := archive.named
  exact sibling_not_archive member (Named.archiveName named known)

/-- Deleting an archive keeps every file of another volume, exactly if neither of the two is
overlooked from the other. -/
theorem deleting_keeps_others_iff (keeps : KeepsEndings std.piece ARCHIVE_CHARS)
    {names : List FileName} {a b : FileName} (listed : a ∈ names) (listed' : b ∈ names)
    (archive : IsArchive a) (archive' : IsArchive b) (different : pyStem a ≠ pyStem b)
    : (∀ file ∈ siblings std (some names) a, file ≠ b
        ∧ (∀ ending ∈ VOLUME_SIDE_SUFFIXES, file ≠ pyStem b ++ ending)
        ∧ file ∉ siblings std (some names) b)
      ↔ ¬ Overlooked std names (pyStem a) (pyStem b)
        ∧ ¬ Overlooked std names (pyStem b) (pyStem a) := by
  have taken := sibling_side_iff keeps listed' archive archive' different
  have taken' := sibling_side_iff keeps listed archive' archive different.symm
  constructor
  · intro kept
    constructor
    · intro overlooked
      obtain ⟨ending, known, member⟩ := taken.mpr overlooked
      exact (kept _ member).2.1 ending known rfl
    · intro overlooked
      obtain ⟨ending, known, member⟩ := taken'.mpr overlooked
      have own : pyStem a ++ ending ∈ siblings std (some names) a :=
        mem_siblingsBy.mpr (Or.inl ⟨ending, known, rfl⟩)
      exact (kept _ own).2.2 member
  · intro ⟨seen, seen'⟩ file member
    refine ⟨sibling_ne_archive archive' member, ?_, ?_⟩
    · intro ending known same
      exact seen (taken.mp ⟨ending, known, same ▸ member⟩)
    · intro both
      obtain ⟨ending, known, same⟩ | ⟨_, layer, split, _⟩ := mem_siblingsBy.mp member
      · exact seen' (taken'.mp ⟨ending, known, same ▸ both⟩)
      · obtain ⟨ending, known, same⟩ | ⟨_, layer', split', _⟩ := mem_siblingsBy.mp both
        · exact seen (taken.mp ⟨ending, known, same ▸ member⟩)
        · rw [split] at split'
          exact different (Prod.mk.inj (Option.some.inj split')).1

theorem deleting_keeps_others_iff_digits
    : IsArchive "V.cbz".toList ∧ IsArchive "V.2.cbz".toList
      ∧ ((∀ file ∈ siblings letterTables (some ["V.cbz".toList, "V.2.cbz".toList])
            "V.cbz".toList, file ≠ "V.2.cbz".toList
          ∧ (∀ ending ∈ VOLUME_SIDE_SUFFIXES, file ≠ pyStem "V.2.cbz".toList ++ ending)
          ∧ file ∉ siblings letterTables (some ["V.cbz".toList, "V.2.cbz".toList])
            "V.2.cbz".toList)
        ↔ ¬ Overlooked letterTables ["V.cbz".toList, "V.2.cbz".toList] (pyStem "V.cbz".toList)
            (pyStem "V.2.cbz".toList)
          ∧ ¬ Overlooked letterTables ["V.cbz".toList, "V.2.cbz".toList]
            (pyStem "V.2.cbz".toList) (pyStem "V.cbz".toList)) :=
  ⟨by decide, by decide, deleting_keeps_others_iff (letterTables_keep (forall_char (by decide)))
    (by decide) (by decide) (by decide) (by decide) (by decide)⟩

def dottedNames : List FileName := ["İ.2.cbz".toList, "İ.2.mokuro".toList, "İ.cbz".toList]

/-- `İ.2.mokuro` is the primary sidecar of `İ.2.cbz` and goes with `İ.cbz`. -/
theorem sidecar_of_other_volume_deleted
    : IsArchive "İ.cbz".toList ∧ IsArchive "İ.2.cbz".toList
      ∧ pyStem "İ.cbz".toList ≠ pyStem "İ.2.cbz".toList
      ∧ "İ.2.mokuro".toList ∈ siblings letterTables (some dottedNames) "İ.cbz".toList
      ∧ ¬ ∀ file ∈ siblings letterTables (some dottedNames) "İ.cbz".toList,
        file ≠ "İ.2.cbz".toList
          ∧ (∀ ending ∈ VOLUME_SIDE_SUFFIXES, file ≠ pyStem "İ.2.cbz".toList ++ ending)
          ∧ file ∉ siblings letterTables (some dottedNames) "İ.2.cbz".toList := by
  decide

end MokuroBunko.Dav
