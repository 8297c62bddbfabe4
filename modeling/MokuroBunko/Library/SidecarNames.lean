import Mathlib.Data.List.Sort
import MokuroBunko.Lib.CaseMap

/-! The names of a volume's files (`bunko-library/src/sidecar.rs`, `bunko-core/src/generations.rs`;
`bunko-dav/src/sidecars.rs` and `paths.rs` have the same code): archives, stems and layer sidecars.
-/

namespace MokuroBunko.Library

open MokuroBunko.Lib

abbrev FileName := List Char

def VOLUME_ARCHIVE_EXTENSIONS : List FileName :=
  [".cbz".toList, ".cbr".toList, ".zip".toList, ".rar".toList]

def VOLUME_SIDE_SUFFIXES : List FileName :=
  [".mokuro".toList, ".mokuro.gz".toList, ".webp".toList, ".nocover".toList]

/-- `str::strip_suffix`. -/
def stripSuffix (name ending : FileName) : Option FileName := ending.isSuffixOf? name

/-- What stands before and after the last dot. -/
def splitLastDot (name : FileName) : Option (FileName × FileName) :=
  (Text.splitFirst '.' name.reverse).map (fun parts => (parts.2.reverse, parts.1.reverse))

/-- `PurePath.suffix`: empty for a leading and for a trailing dot. -/
def pySuffix (name : FileName) : FileName :=
  match splitLastDot name with
  | some (before, after) => if before ≠ [] ∧ after ≠ [] then '.' :: after else []
  | none => []

/-- `PurePath.stem`. -/
def pyStem (name : FileName) : FileName := name.take (name.length - (pySuffix name).length)

def isNameChar (char : Char) : Bool :=
  (97 ≤ char.toNat && char.toNat ≤ 122) || Text.isDigit char || char == '-'

/-- The reader's layer-id grammar: `[a-z0-9-]{1,32}`. -/
def isLayerId (layer : FileName) : Bool :=
  ! layer.isEmpty && utf8Length layer ≤ 32 && layer.all isNameChar

/-- Splits on the last dot. -/
def splitLayerSidecar (fileName : FileName) : Option (FileName × FileName) := do
  let name := (stripSuffix fileName ".gz".toList).getD fileName
  let middle ← stripSuffix name ".mokuro".toList
  let (owner, layer) ← splitLastDot middle
  if owner = [] then none
  else if isLayerId layer then some (owner, layer) else none

/-- The last four bytes, whatever the case of their letters, are `.cbz`. -/
def isCbzName (name : FileName) : Bool := ".cbz".toList.isSuffixOf (name.map Text.asciiLowerChar)

/-- The characters of the archive extensions. -/
def ARCHIVE_CHARS : List Char := ".cbzripa".toList

/-- A name ends with the extension in some case, after a stem. -/
def Named (stem extension name : FileName) : Prop :=
  ∃ tail, name = stem ++ tail ∧ tail.map Text.asciiLowerChar = extension

/-- There is an archive of the stem. -/
def HasArchive (names : List FileName) (extensions : List FileName) (stem : FileName) : Prop :=
  ∃ name ∈ names, ∃ extension ∈ extensions, Named stem extension name

/-- What is deleted and moved with an archive, by a notion of the stems of the archives among
some names: the files beside it, and the layers that are not the primary sidecar of another. -/
def siblingsBy (volumeStems : List FileName → List FileName) (listing : Option (List FileName))
    (cbz : FileName) : List FileName :=
  let stem := pyStem cbz
  let out := VOLUME_SIDE_SUFFIXES.map (stem ++ ·)
  match listing with
  | none => out
  | some entries =>
      let names := entries.insertionSort (· ≤ ·)
      let others := (volumeStems names).filter (· ≠ stem)
      out ++ names.filter (fun entry =>
        match splitLayerSidecar entry with
        | some (owner, layer) => owner = stem && ! others.contains (stem ++ '.' :: layer)
        | none => false)

-- Suffixes

theorem stripSuffix_eq_some_iff {name ending front : FileName}
    : stripSuffix name ending = some front ↔ name = front ++ ending := by
  unfold stripSuffix
  rw [List.isSuffixOf?_eq_some_iff_append_eq]
  exact eq_comm

theorem splitLastDot_eq_some_iff {name before after : FileName}
    : splitLastDot name = some (before, after) ↔ name = before ++ '.' :: after ∧ '.' ∉ after := by
  unfold splitLastDot
  rw [Option.map_eq_some_iff]
  constructor
  · intro ⟨⟨behind, front⟩, split, same⟩
    obtain ⟨reversed, absent⟩ := Text.splitFirst_eq_some_iff.mp split
    obtain ⟨rfl, rfl⟩ := Prod.mk.inj same
    refine ⟨?_, fun member => absent (List.mem_reverse.mp member)⟩
    rw [← List.reverse_reverse name, reversed, List.reverse_append, List.reverse_cons,
      List.append_assoc]
    rfl
  · intro ⟨split, absent⟩
    refine ⟨(after.reverse, before.reverse), Text.splitFirst_eq_some_iff.mpr ⟨?_, ?_⟩, ?_⟩
    · rw [split, List.reverse_append, List.reverse_cons, List.append_assoc]
      rfl
    · exact fun member => absent (List.mem_reverse.mp member)
    · rw [List.reverse_reverse, List.reverse_reverse]

theorem asciiLowerChar_dot {char : Char} : Text.asciiLowerChar char = '.' ↔ char = '.' := by
  constructor
  · unfold Text.asciiLowerChar
    split
    · rename_i upper
      intro same
      have code : (Char.ofNat (char.toNat + 32)).toNat = char.toNat + 32 := by
        unfold Char.ofNat
        rw [dif_pos (Or.inl (by omega))]
        rfl
      rw [same] at code
      have dot : ('.' : Char).toNat = 46 := rfl
      omega
    · exact id
  · intro same
    rw [same]
    rfl

theorem Named.tail_dot {extension tail : FileName} (lowered : tail.map Text.asciiLowerChar = extension)
    (known : extension ∈ VOLUME_ARCHIVE_EXTENSIONS)
    : ∃ after, tail = '.' :: after ∧ '.' ∉ after ∧ after ≠ [] := by
  obtain ⟨rest, rfl, plain, filled⟩ : ∃ rest, extension = '.' :: rest ∧ '.' ∉ rest ∧ rest ≠ [] := by
    unfold VOLUME_ARCHIVE_EXTENSIONS at known
    simp only [List.mem_cons, List.not_mem_nil, or_false] at known
    obtain rfl | rfl | rfl | rfl := known
    all_goals exact ⟨_, rfl, by decide, by decide⟩
  obtain ⟨dot, after, rfl, same, lowered⟩ := List.map_eq_cons_iff.mp lowered
  rw [asciiLowerChar_dot.mp same]
  refine ⟨after, rfl, ?_, ?_⟩
  · intro member
    apply plain
    rw [← lowered]
    have here := List.mem_map_of_mem (f := Text.asciiLowerChar) member
    rw [asciiLowerChar_dot.mpr rfl] at here
    exact here
  · intro empty
    rw [empty] at lowered
    exact filled lowered.symm

theorem Named.pySuffix_eq {stem extension tail : FileName} (filled : stem ≠ [])
    (lowered : tail.map Text.asciiLowerChar = extension)
    (known : extension ∈ VOLUME_ARCHIVE_EXTENSIONS)
    : pySuffix (stem ++ tail) = tail := by
  obtain ⟨after, rfl, plain, filled'⟩ := Named.tail_dot lowered known
  unfold pySuffix
  rw [splitLastDot_eq_some_iff.mpr ⟨rfl, plain⟩]
  exact if_pos ⟨filled, filled'⟩

theorem Named.pyStem_eq {stem extension name : FileName} (filled : stem ≠ [])
    (named : Named stem extension name) (known : extension ∈ VOLUME_ARCHIVE_EXTENSIONS)
    : pyStem name = stem := by
  obtain ⟨tail, rfl, lowered⟩ := named
  unfold pyStem
  rw [Named.pySuffix_eq filled lowered known, List.length_append, Nat.add_sub_cancel_right,
    List.take_left]

theorem pyStem_append_pySuffix (name : FileName) : pyStem name ++ pySuffix name = name := by
  unfold pyStem pySuffix
  cases split : splitLastDot name with
  | none => simp
  | some parts =>
      obtain ⟨before, after⟩ := parts
      obtain ⟨rfl, _⟩ := splitLastDot_eq_some_iff.mp split
      dsimp only
      split
      · rw [List.length_append, Nat.add_sub_cancel_right, List.take_left]
      · rw [List.length_nil, Nat.sub_zero, List.append_nil, List.take_length]

theorem pyStem_ne_nil {name : FileName} (suffixed : pySuffix name ≠ []) : pyStem name ≠ [] := by
  intro empty
  have joined := pyStem_append_pySuffix name
  rw [empty, List.nil_append] at joined
  unfold pySuffix at suffixed joined
  cases split : splitLastDot name with
  | none =>
      rw [split] at suffixed
      exact suffixed rfl
  | some parts =>
      obtain ⟨before, after⟩ := parts
      rw [split] at suffixed joined
      dsimp only at suffixed joined
      obtain ⟨parted, _⟩ := splitLastDot_eq_some_iff.mp split
      split at joined
      · rename_i both
        rw [parted] at joined
        have short := congrArg List.length joined
        rw [List.length_append] at short
        exact both.1 (List.eq_nil_of_length_eq_zero (by omega))
      · rename_i neither
        rw [if_neg neither] at suffixed
        exact suffixed rfl

-- Layer sidecars

theorem isLayerId_plain {layer : FileName} (valid : isLayerId layer) : '.' ∉ layer := by
  intro member
  unfold isLayerId at valid
  rw [Bool.and_eq_true] at valid
  have here := List.all_eq_true.mp valid.2 '.' member
  exact absurd here (by decide)

theorem splitLayerSidecar_eq_some_iff {name owner layer : FileName}
    : splitLayerSidecar name = some (owner, layer)
      ↔ owner ≠ [] ∧ isLayerId layer = true
        ∧ (name = owner ++ '.' :: layer ++ ".mokuro".toList
          ∨ name = owner ++ '.' :: layer ++ ".mokuro.gz".toList) := by
  have plain : ∀ middle : FileName, (stripSuffix (middle ++ ".mokuro".toList) ".gz".toList) = none := by
    intro middle
    apply Option.eq_none_iff_forall_ne_some.mpr
    intro front stripped
    have last := congrArg List.getLast? (stripSuffix_eq_some_iff.mp stripped)
    rw [List.getLast?_append, List.getLast?_append] at last
    have letters : some 'o' = some 'z' := last
    exact absurd letters (by decide)
  have zipped : ∀ middle : FileName, middle ++ ".mokuro.gz".toList
      = middle ++ ".mokuro".toList ++ ".gz".toList := by
    intro middle
    rw [List.append_assoc]
    rfl
  unfold splitLayerSidecar
  simp only [Option.bind_eq_bind, Option.bind_eq_some_iff]
  constructor
  · intro ⟨middle, stripped, ⟨before, after⟩, split, kept⟩
    obtain ⟨parted, absent⟩ := splitLastDot_eq_some_iff.mp split
    dsimp only at kept
    split at kept
    · cases kept
    · rename_i filled
      split at kept
      · rename_i valid
        obtain ⟨rfl, rfl⟩ := Prod.mk.inj (Option.some.inj kept)
        refine ⟨filled, valid, ?_⟩
        rw [← parted]
        have ends := stripSuffix_eq_some_iff.mp stripped
        cases gz : stripSuffix name ".gz".toList with
        | none =>
            rw [gz] at ends
            exact Or.inl ends
        | some front =>
            rw [gz] at ends
            have ends' : front = middle ++ ".mokuro".toList := ends
            rw [stripSuffix_eq_some_iff.mp gz, ends', zipped]
            exact Or.inr rfl
      · cases kept
  · intro ⟨filled, valid, spelled⟩
    refine ⟨owner ++ '.' :: layer, ?_, (owner, layer),
      splitLastDot_eq_some_iff.mpr ⟨rfl, isLayerId_plain valid⟩, ?_⟩
    · obtain rfl | rfl := spelled
      · rw [plain]
        exact stripSuffix_eq_some_iff.mpr rfl
      · rw [zipped, stripSuffix_eq_some_iff.mpr rfl]
        exact stripSuffix_eq_some_iff.mpr rfl
    · dsimp only
      rw [if_neg filled, if_pos valid]

-- Archives

theorem archive_extension {extension : FileName} (known : extension ∈ VOLUME_ARCHIVE_EXTENSIONS)
    : extension.length = 4 ∧ (∀ char ∈ extension, char ∈ ARCHIVE_CHARS)
      ∧ ∀ char ∈ extension, char.toNat < 128 := by
  unfold VOLUME_ARCHIVE_EXTENSIONS at known
  simp only [List.mem_cons, List.not_mem_nil, or_false] at known
  obtain rfl | rfl | rfl | rfl := known
  all_goals exact ⟨rfl, forall_char (by decide), forall_char (by decide)⟩

theorem endsWith_iff_named {piece : List Char → Char → List Char → List Char}
    (keeps : KeepsEndings piece ARCHIVE_CHARS) {extension : FileName}
    (known : extension ∈ VOLUME_ARCHIVE_EXTENSIONS) (name : FileName)
    : extension <:+ spell piece [] name [] ↔ ∃ stem, Named stem extension name := by
  obtain ⟨_, chars, ascii⟩ := archive_extension known
  exact keeps.endsWith_iff chars ascii [] name []

theorem Named.stem_unique {stem stem' extension extension' name : FileName}
    (named : Named stem extension name) (named' : Named stem' extension' name)
    (known : extension ∈ VOLUME_ARCHIVE_EXTENSIONS)
    (known' : extension' ∈ VOLUME_ARCHIVE_EXTENSIONS)
    : stem = stem' ∧ extension = extension' := by
  obtain ⟨tail, rfl, rfl⟩ := named
  obtain ⟨tail', same, rfl⟩ := named'
  have size := (archive_extension known).1
  have size' := (archive_extension known').1
  rw [List.length_map] at size size'
  obtain ⟨rfl, rfl⟩ := List.append_inj' same (size.trans size'.symm)
  exact ⟨rfl, rfl⟩

theorem Named.take_eq {stem extension name : FileName} (named : Named stem extension name)
    : name.take (name.length - extension.length) = stem := by
  obtain ⟨tail, rfl, lowered⟩ := named
  rw [← lowered, List.length_map, List.length_append, Nat.add_sub_cancel_right, List.take_left]

theorem Named.takeBytes_eq {stem extension name : FileName} (named : Named stem extension name)
    (known : extension ∈ VOLUME_ARCHIVE_EXTENSIONS)
    : takeBytes (utf8Length name - utf8Length extension) name = some stem := by
  obtain ⟨tail, rfl, lowered⟩ := named
  obtain ⟨_, _, ascii⟩ := archive_extension known
  have narrow : ∀ char ∈ tail, char.toNat < 128 := by
    intro char member
    apply asciiLowerChar_lt.mp
    exact ascii _ (lowered ▸ List.mem_map_of_mem member)
  have bytes : utf8Length tail = utf8Length extension := by
    rw [utf8Length_ascii narrow, utf8Length_ascii ascii, ← lowered, List.length_map]
  rw [utf8Length_append, bytes, Nat.add_sub_cancel_right, takeBytes_append]

theorem find_extension {piece : List Char → Char → List Char → List Char}
    (keeps : KeepsEndings piece ARCHIVE_CHARS) {stem extension name : FileName}
    (named : Named stem extension name) (known : extension ∈ VOLUME_ARCHIVE_EXTENSIONS)
    : VOLUME_ARCHIVE_EXTENSIONS.find? (·.isSuffixOf (spell piece [] name [])) = some extension := by
  cases chosen : VOLUME_ARCHIVE_EXTENSIONS.find? (·.isSuffixOf (spell piece [] name [])) with
  | none =>
      have ends := (endsWith_iff_named keeps known name).mpr ⟨stem, named⟩
      exact absurd (List.isSuffixOf_iff_suffix.mpr ends) (List.find?_eq_none.mp chosen _ known)
  | some other =>
      have known' := List.mem_of_find?_eq_some chosen
      have holds := List.find?_some chosen
      have ends := List.isSuffixOf_iff_suffix.mp holds
      obtain ⟨stem', named'⟩ := (endsWith_iff_named keeps known' name).mp ends
      rw [(named'.stem_unique named known' known).2]

/-- An archive: its suffix is one of the extensions, in any case. -/
def IsArchive (name : FileName) : Prop :=
  (pySuffix name).map Text.asciiLowerChar ∈ VOLUME_ARCHIVE_EXTENSIONS

instance (name : FileName) : Decidable (IsArchive name) := inferInstanceAs (Decidable (_ ∈ _))

theorem IsArchive.named {name : FileName} (archive : IsArchive name)
    : pyStem name ≠ [] ∧ ∃ extension ∈ VOLUME_ARCHIVE_EXTENSIONS,
      Named (pyStem name) extension name := by
  refine ⟨pyStem_ne_nil ?_, _, archive, pySuffix name, (pyStem_append_pySuffix name).symm, rfl⟩
  intro empty
  unfold IsArchive at archive
  rw [empty] at archive
  exact absurd archive (by decide)

theorem IsArchive.hasArchive {name : FileName} {names : List FileName} (archive : IsArchive name)
    (member : name ∈ names)
    : HasArchive names VOLUME_ARCHIVE_EXTENSIONS (pyStem name) := by
  obtain ⟨_, extension, known, named⟩ := archive.named
  exact ⟨name, member, extension, known, named⟩

theorem hasArchive_sorted {names extensions : List FileName} {stem : FileName}
    : HasArchive (names.insertionSort (· ≤ ·)) extensions stem
      ↔ HasArchive names extensions stem := by
  unfold HasArchive
  simp only [List.mem_insertionSort]

-- Siblings

theorem side_suffix_inj {front front' ending ending' : FileName}
    (known : ending ∈ VOLUME_SIDE_SUFFIXES) (known' : ending' ∈ VOLUME_SIDE_SUFFIXES)
    (same : front ++ ending = front' ++ ending')
    : front = front' ∧ ending = ending' := by
  have filled : ∀ ending ∈ VOLUME_SIDE_SUFFIXES, ending.getLast?.isSome := by decide
  have apart : ∀ ending ∈ VOLUME_SIDE_SUFFIXES, ∀ ending' ∈ VOLUME_SIDE_SUFFIXES,
      ending.getLast? = ending'.getLast? → ending = ending' := by decide
  have last := congrArg List.getLast? same
  rw [List.getLast?_append, List.getLast?_append, Option.or_of_isSome (filled _ known),
    Option.or_of_isSome (filled _ known')] at last
  obtain rfl := apart ending known ending' known' last
  exact ⟨List.append_cancel_right same, rfl⟩

theorem mem_siblingsBy {volumeStems : List FileName → List FileName} {names : List FileName}
    {cbz file : FileName}
    : file ∈ siblingsBy volumeStems (some names) cbz
      ↔ (∃ ending ∈ VOLUME_SIDE_SUFFIXES, file = pyStem cbz ++ ending)
        ∨ (file ∈ names ∧ ∃ layer, splitLayerSidecar file = some (pyStem cbz, layer)
          ∧ pyStem cbz ++ '.' :: layer ∉ volumeStems (names.insertionSort (· ≤ ·))) := by
  have longer : ∀ layer : FileName, pyStem cbz ++ '.' :: layer ≠ pyStem cbz := by
    intro layer same
    have lengths := congrArg List.length same
    rw [List.length_append, List.length_cons] at lengths
    omega
  unfold siblingsBy
  simp only [List.mem_append, List.mem_map, List.mem_filter, List.mem_insertionSort]
  apply or_congr
  · constructor
    · intro ⟨ending, known, same⟩
      exact ⟨ending, known, same.symm⟩
    · intro ⟨ending, known, same⟩
      exact ⟨ending, known, same.symm⟩
  · apply and_congr_right
    intro _
    cases split : splitLayerSidecar file with
    | none => simp
    | some parts =>
        obtain ⟨owner, layer⟩ := parts
        dsimp only
        rw [Bool.and_eq_true, decide_eq_true_eq, Bool.not_eq_true', ← Bool.not_eq_true,
          List.contains_iff_mem, List.mem_filter, not_and]
        constructor
        · intro ⟨same, absent⟩
          refine ⟨layer, by rw [same], ?_⟩
          intro listed
          exact absent listed (decide_eq_true (longer layer))
        · intro ⟨layer', found, absent⟩
          obtain ⟨rfl, rfl⟩ := Prod.mk.inj (Option.some.inj found)
          exact ⟨rfl, fun listed => absurd listed absent⟩

end MokuroBunko.Library
