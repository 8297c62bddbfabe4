import Mathlib.Algebra.BigOperators.Group.List.Basic
import MokuroBunko.Data.Format
import MokuroBunko.Lib.SortedMap

/-! Checking a staged archive (`upload.rs`): the inflation bound is decided from the directory before
a byte is inflated, then every member is read to its end. The archive is what the zip library makes
of the file.
-/

namespace MokuroBunko.Dav

open MokuroBunko.Data MokuroBunko.Lib

-- Archives

/-- The size of the buffer that members are read into. -/
def READ_BUFFER : ℕ := 64 * 1024

/-- A member as the directory lists it. -/
structure ListedMember where
  name : String
  isDir : Bool
  method : UInt16
  size : UInt64

inductive OpenError where
  /-- The member is encrypted. -/
  | unsupportedArchive
  | other

/-- What the reads of an opened member return in turn: a count of bytes, 0 at the end, or an error. -/
abbrev MemberReads := ℕ → Option (Fin (READ_BUFFER + 1))

/-- A staged file that was opened. -/
structure StagedArchive where
  head : List UInt8
  size : UInt64
  /-- Each entry of the directory, or why it or the whole directory cannot be read. -/
  directory : Except String (List (Except String ListedMember))
  byIndex : ℕ → Except OpenError MemberReads

structure Verified where
  head : List UInt8
  refused : Option String
  structural : Option String
  damaged : List String
  members : ℕ

namespace Verified

def new : Verified := ⟨[], none, none, [], 0⟩

def ok (result : Verified) : Bool :=
  result.refused.isNone && result.structural.isNone && result.damaged.isEmpty

end Verified

/-- A result beside the bytes inflated for it, in all and for each member that was opened. -/
structure Inflation where
  result : Verified
  inflated : ℕ
  produced : List (ℕ × ℕ)

-- The allowance

def RATIO : ℕ := 20

def FLOOR : ℕ := 256 * 1024 * 1024

def CEILING : ℕ := 16 * 1024 * 1024 * 1024

/-- The inflation an archive of the size may reach. -/
def inflateAllowance (archiveSize : UInt64) : ℕ :=
  min CEILING (max FLOOR (archiveSize.toNat * RATIO))

/-- The nearest number with a significand of 53 bits. -/
def asF64 (number : ℕ) : ℚ :=
  let unit : ℚ := 2 ^ (Nat.log2 number - 52)
  roundTiesEven (number / unit) * unit

def gib (bytes : ℕ) : String := fmtFixed (asF64 bytes / 1024 ^ 3) 1

def mib (bytes : ℕ) : String := fmtFixed (asF64 bytes / 1024 ^ 2) 1

-- Verification

/-- The entries in order, with their indexes. The first that cannot be read ends it. -/
def listMembers : ℕ → List (Except String ListedMember)
    → Except String (List (ℕ × ListedMember))
  | _, [] => .ok []
  | index, entry :: rest => do
      let member ← entry
      let members ← listMembers (index + 1) rest
      return (index, member) :: members

def methodText (method : UInt16) : String :=
  if method = 12 then "bzip2"
  else if method = 14 then "LZMA"
  else s!"method {method}"

/-- The methods that a reader cannot open, each once and in order. -/
def oddMethods (reachable : List (ℕ × ListedMember)) : List String :=
  (SortedSet.ofList ((reachable.filter (fun member =>
    member.2.method ≠ 0 ∧ member.2.method ≠ 8)).map (fun member =>
      methodText member.2.method))).elements

/-- `declared`: the sum of 64-bit sizes, which wraps. -/
def declaredSize (reachable : List (ℕ × ListedMember)) : UInt64 :=
  (reachable.map (fun member => member.2.size)).foldl (· + ·) 0

inductive MemberEnd where
  | whole
  | damaged
  | refused

/-- The reads of one member, from the given turn on. `before` is what was inflated before it, so no
count wraps: it is at most the allowance when a read is added to it.
-/
def readMember (reads : MemberReads) (allowed declared before : ℕ) (turn produced : ℕ)
    : MemberEnd × ℕ :=
  match reads turn with
  | none => (.damaged, produced)
  | some n =>
      if n.val = 0 then (.whole, produced)
      else if allowed < before + (produced + n) then (.refused, produced + n)
      else if declared < produced + n then (.damaged, produced + n)
      else readMember reads allowed declared before (turn + 1) (produced + n)
termination_by declared - produced
decreasing_by omega

/-- The members read one after another. -/
def readMembers (archive : StagedArchive) (allowed : ℕ)
    : List (ℕ × ListedMember) → Inflation → Inflation
  | [], state => state
  | (index, member) :: rest, state =>
      let result := { state.result with members := state.result.members + 1 }
      let damaged := { result with damaged := result.damaged ++ [member.name] }
      match archive.byIndex index with
      | .error .unsupportedArchive => readMembers archive allowed rest { state with result }
      | .error .other => readMembers archive allowed rest { state with result := damaged }
      | .ok reads =>
          let (ending, produced) :=
            readMember reads allowed member.size.toNat state.inflated 0 0
          let inflated := state.inflated + produced
          let produced := state.produced ++ [(index, produced)]
          match ending with
          | .whole => readMembers archive allowed rest { result, inflated, produced }
          | .damaged =>
              readMembers archive allowed rest { result := damaged, inflated, produced }
          | .refused =>
              let refused := s!"its pages inflate past {gib allowed} GiB for a " ++
                s!"{mib archive.size.toNat} MiB archive, more than any volume inflates to"
              { result := { result with refused := some refused }, inflated, produced }

def verifyWithAllowance (file : Option StagedArchive) (allowance : UInt64 → ℕ) : Inflation :=
  match file with
  | none =>
      ⟨{ Verified.new with structural := some "OSError: cannot open the staged upload" }, 0, []⟩
  | some archive =>
      let result := { Verified.new with head := archive.head }
      match archive.directory >>= listMembers 0 with
      | .error e => ⟨{ result with structural := some s!"BadZipFile: {e}" }, 0, []⟩
      | .ok members =>
          let reachable := members.filter (fun member => !member.2.isDir)
          let odd := oddMethods reachable
          if odd ≠ [] then
            let named := String.intercalate ", " odd
            let refused := s!"its pages are compressed with {named}, " ++
              "which a reader cannot open; re-pack it as an ordinary (deflate) zip"
            ⟨{ result with refused := some refused }, 0, []⟩
          else
            let declared := (declaredSize reachable).toNat
            let allowed := allowance archive.size
            if allowed < declared then
              let refused := s!"its pages declare {gib declared} GiB for a " ++
                s!"{mib archive.size.toNat} MiB archive, more than any volume inflates to"
              ⟨{ result with refused := some refused }, 0, []⟩
            else readMembers archive allowed reachable ⟨result, 0, []⟩

def verifyStaged (file : Option StagedArchive) : Inflation :=
  verifyWithAllowance file inflateAllowance

-- The bound

/-- The files that the archive lists, where its directory can be read. -/
def reachable (file : Option StagedArchive) : List (ℕ × ListedMember) :=
  match file.map (fun archive => archive.directory >>= listMembers 0) with
  | some (.ok members) => members.filter (fun member => !member.2.isDir)
  | _ => []

/-- The sum of the sizes that its files are declared to have. -/
def declaredTotal (file : Option StagedArchive) : ℕ :=
  ((reachable file).map (fun member => member.2.size.toNat)).sum

def allowance (file : Option StagedArchive) : ℕ :=
  (file.map (fun archive => inflateAllowance archive.size)).getD 0

/-- What is promised of the inflation that checking the file takes. -/
structure InflationBounded (file : Option StagedArchive) : Prop where
  refused
    : allowance file < declaredTotal file
      → (verifyStaged file).result.refused.isSome ∧ (verifyStaged file).inflated = 0
  bounded
    : declaredTotal file ≤ allowance file
      → (verifyStaged file).inflated ≤ allowance file + READ_BUFFER
  kept
    : (verifyStaged file).result.ok
      → ∀ archive ∈ file, ∀ member ∈ reachable file,
        archive.byIndex member.1 = .error .unsupportedArchive
          ∨ ∃ bytes ≤ member.2.size.toNat, (member.1, bytes) ∈ (verifyStaged file).produced

theorem declaredSize_toNat (members : List (ℕ × ListedMember))
    : (declaredSize members).toNat
      = (members.map (fun member => member.2.size.toNat)).sum % 2 ^ 64 := by
  have fold (members : List (ℕ × ListedMember)) (size : UInt64)
      : ((members.map (fun member => member.2.size)).foldl (· + ·) size).toNat
        = (size.toNat + (members.map (fun member => member.2.size.toNat)).sum) % 2 ^ 64 := by
    induction members generalizing size with
    | nil =>
        have small := size.toNat_lt
        simp only [List.map_nil, List.foldl_nil, List.sum_nil]
        omega
    | cons member rest ih =>
        simp only [List.map_cons, List.foldl_cons, List.sum_cons]
        rw [ih, UInt64.toNat_add]
        omega
  rw [declaredSize, fold]
  simp

theorem readMember_spec (reads : MemberReads) {allowed declared before produced : ℕ} (turn : ℕ)
    (within : before + produced ≤ allowed) (few : produced ≤ declared)
    : before + (readMember reads allowed declared before turn produced).2 ≤ allowed + READ_BUFFER
      ∧ match (readMember reads allowed declared before turn produced).1 with
        | .whole =>
            (readMember reads allowed declared before turn produced).2 ≤ declared
              ∧ before + (readMember reads allowed declared before turn produced).2 ≤ allowed
        | .damaged => before + (readMember reads allowed declared before turn produced).2 ≤ allowed
        | .refused =>
            allowed < before + (readMember reads allowed declared before turn produced).2 := by
  fun_induction readMember reads allowed declared before turn produced with
  | case1 turn produced isRead => exact ⟨by omega, within⟩
  | case2 turn produced n isRead isEnd => exact ⟨by omega, few, within⟩
  | case3 turn produced n isRead more past =>
      have small := n.isLt
      exact ⟨by omega, past⟩
  | case4 turn produced n isRead more inside past => exact ⟨by omega, by omega⟩
  | case5 turn produced n isRead more inside fits ih => exact ih (by omega) (by omega)

/-- The member was encrypted, or gave no more than its size. -/
def Kept (archive : StagedArchive) (produced : List (ℕ × ℕ)) (member : ℕ × ListedMember) : Prop :=
  archive.byIndex member.1 = .error .unsupportedArchive
    ∨ ∃ bytes ≤ member.2.size.toNat, (member.1, bytes) ∈ produced

/-- What reading members comes to. -/
structure ReadThrough (archive : StagedArchive) (allowed : ℕ) (members : List (ℕ × ListedMember))
    (state final : Inflation) : Prop where
  bounded : final.inflated ≤ allowed + READ_BUFFER
  past : final.result.refused.isSome → allowed < final.inflated
  damaged : state.result.damaged ⊆ final.result.damaged
  produced : state.produced ⊆ final.produced
  kept : final.result.ok → ∀ member ∈ members, Kept archive final.produced member

namespace ReadThrough

variable {archive : StagedArchive} {allowed : ℕ} {member : ℕ × ListedMember}
  {rest : List (ℕ × ListedMember)} {state next final : Inflation}

theorem cons (read : ReadThrough archive allowed rest next final)
    (damaged : state.result.damaged ⊆ next.result.damaged)
    (produced : state.produced ⊆ next.produced)
    (kept : next.result.damaged = [] → Kept archive next.produced member)
    : ReadThrough archive allowed (member :: rest) state final where
  bounded := read.bounded
  past := read.past
  damaged := List.Subset.trans damaged read.damaged
  produced := List.Subset.trans produced read.produced
  kept := by
    intro isOk other isOther
    rcases List.mem_cons.mp isOther with rfl | later
    · have undamaged : final.result.damaged = [] := by
        simp only [Verified.ok, Bool.and_eq_true, List.isEmpty_iff] at isOk
        exact isOk.2
      have before : next.result.damaged = [] := by
        rw [← List.subset_nil, ← undamaged]
        exact read.damaged
      rcases kept before with encrypted | ⟨bytes, few, isProduced⟩
      · exact .inl encrypted
      · exact .inr ⟨bytes, few, read.produced isProduced⟩
    · exact read.kept isOk other later

end ReadThrough

theorem readMembers_spec (archive : StagedArchive) {allowed : ℕ}
    (members : List (ℕ × ListedMember)) (state : Inflation) (within : state.inflated ≤ allowed)
    (accepted : state.result.refused = none)
    : ReadThrough archive allowed members state (readMembers archive allowed members state) := by
  induction members generalizing state with
  | nil =>
      refine ⟨by simp only [readMembers]; omega, ?_, List.Subset.refl _, List.Subset.refl _, ?_⟩
      · intro isRefused
        rw [readMembers, accepted] at isRefused
        cases isRefused
      · intro _ member isMember
        cases isMember
  | cons member rest ih =>
      obtain ⟨index, member⟩ := member
      have notDamaged {damaged : List String} (none : damaged ++ [member.name] = []) : False :=
        List.append_ne_nil_of_right_ne_nil _ (List.cons_ne_nil _ _) none
      simp only [readMembers]
      split
      case h_1 encrypted =>
        apply ReadThrough.cons (ih _ ?_ ?_)
        · exact List.Subset.refl _
        · exact List.Subset.refl _
        · exact fun _ => .inl encrypted
        · exact within
        · exact accepted
      case h_2 unreadable =>
        apply ReadThrough.cons (ih _ ?_ ?_)
        · exact List.subset_append_left _ _
        · exact List.Subset.refl _
        · exact fun none => (notDamaged none).elim
        · exact within
        · exact accepted
      case h_3 reads opened =>
        obtain ⟨bounded, ended⟩ := @readMember_spec reads allowed member.size.toNat state.inflated 0 0
          (by omega) (Nat.zero_le _)
        generalize readMember reads allowed member.size.toNat state.inflated 0 0 = read
          at bounded ended ⊢
        obtain ⟨ending, produced⟩ := read
        cases ending with
        | whole =>
            apply ReadThrough.cons (ih _ ?_ ?_)
            · exact List.Subset.refl _
            · exact List.subset_append_left _ _
            · intro _
              exact .inr ⟨produced, ended.1, List.mem_append_right _ (List.mem_singleton_self _)⟩
            · exact ended.2
            · exact accepted
        | damaged =>
            apply ReadThrough.cons (ih _ ?_ ?_)
            · exact List.subset_append_left _ _
            · exact List.subset_append_left _ _
            · exact fun none => (notDamaged none).elim
            · exact ended
            · exact accepted
        | refused =>
            refine ⟨bounded, fun _ => ended, List.Subset.refl _, List.subset_append_left _ _, ?_⟩
            intro isOk
            simp [Verified.ok] at isOk

/-- The sizes are counted as numbers: they are within the allowance, or still past it when their sum
has wrapped at 64 bits, or the archive is refused for its methods.
-/
def CountedRight (file : Option StagedArchive) : Prop :=
  declaredTotal file ≤ allowance file
    ∨ allowance file < declaredTotal file % 2 ^ 64
    ∨ oddMethods (reachable file) ≠ []

theorem inflationBounded_unread {file : Option StagedArchive}
    (refused
      : allowance file < declaredTotal file → (verifyStaged file).result.refused.isSome)
    (unread : (verifyStaged file).inflated = 0) (notOk : (verifyStaged file).result.ok = false)
    : InflationBounded file where
  refused past := ⟨refused past, unread⟩
  bounded _ := unread ▸ Nat.zero_le _
  kept isOk := by
    rw [notOk] at isOk
    cases isOk

/-- Checking an archive keeps what is promised of its inflation exactly if its sizes are counted
right.
-/
theorem inflation_bounded_iff (file : Option StagedArchive)
    : InflationBounded file ↔ CountedRight file := by
  cases file with
  | none =>
      refine iff_of_true (inflationBounded_unread ?_ rfl rfl) (.inl le_rfl)
      exact fun past => absurd past (Nat.lt_irrefl 0)
  | some archive =>
      cases isListed : archive.directory >>= listMembers 0 with
      | error e =>
          have unlisted : reachable (some archive) = [] := by
            simp only [reachable, Option.map_some, isListed]
          have total : declaredTotal (some archive) = 0 := by rw [declaredTotal, unlisted]; rfl
          refine iff_of_true (inflationBounded_unread ?_ ?_ ?_) (.inl (total ▸ Nat.zero_le _))
          · intro past
            omega
          · simp only [verifyStaged, verifyWithAllowance, isListed]
          · simp [verifyStaged, verifyWithAllowance, isListed, Verified.ok]
      | ok members =>
          have listed : reachable (some archive)
              = members.filter (fun member => !member.2.isDir) := by
            simp only [reachable, Option.map_some, isListed]
          have run : verifyStaged (some archive) = verifyStaged (some archive) := rfl
          conv_rhs at run => simp only [verifyStaged, verifyWithAllowance, isListed, ← listed]
          by_cases isOdd : oddMethods (reachable (some archive)) ≠ []
          · rw [if_pos isOdd] at run
            refine iff_of_true (inflationBounded_unread ?_ ?_ ?_) (.inr (.inr isOdd))
            all_goals rw [run]
            · exact fun _ => rfl
            · rfl
          · rw [if_neg isOdd] at run
            have wrapped := declaredSize_toNat (reachable (some archive))
            by_cases past : inflateAllowance archive.size
                < (declaredSize (reachable (some archive))).toNat
            · rw [if_pos past] at run
              refine iff_of_true (inflationBounded_unread ?_ ?_ ?_) (.inr (.inl (wrapped ▸ past)))
              all_goals rw [run]
              · exact fun _ => rfl
              · rfl
            · rw [if_neg past] at run
              have read := readMembers_spec archive (reachable (some archive))
                ⟨{ Verified.new with head := archive.head }, 0, []⟩
                (Nat.zero_le (inflateAllowance archive.size)) rfl
              rw [← run] at read
              constructor
              · intro holds
                rcases Nat.lt_or_ge (allowance (some archive)) (declaredTotal (some archive))
                  with more | within
                · obtain ⟨refused, unread⟩ := holds.refused more
                  have inflated := read.past refused
                  omega
                · exact .inl within
              · rintro (within | more | odd)
                · refine ⟨fun more => ?_, fun _ => read.bounded, ?_⟩
                  · exact absurd more (Nat.not_lt.mpr within)
                  · intro isOk other isFile
                    obtain rfl := Option.mem_some.mp isFile
                    exact read.kept isOk
                · exact absurd (wrapped ▸ more) past
                · exact absurd odd isOdd

def halves : StagedArchive where
  head := [0x50, 0x4b, 0x03, 0x04]
  size := 300
  directory := .ok [
    .ok ⟨"001.jpg", false, 0, 0x8000000000000000⟩,
    .ok ⟨"002.jpg", false, 0, 0x8000000000000000⟩
  ]
  byIndex _ := .ok (fun _ => some 0)

/-- Their sizes wrap to a sum of 0, and the archive is accepted. -/
theorem not_inflation_bounded_halves : ¬ InflationBounded (some halves) := by
  intro bounded
  have past : allowance (some halves) < declaredTotal (some halves) := by decide
  have isListed : halves.directory >>= listMembers 0 = .ok [
      (0, ⟨"001.jpg", false, 0, 0x8000000000000000⟩),
      (1, ⟨"002.jpg", false, 0, 0x8000000000000000⟩)
    ] := rfl
  have accepted : (verifyStaged (some halves)).result.refused = none := by
    rw [verifyStaged, verifyWithAllowance]
    simp only [isListed]
    simp [halves, oddMethods, declaredSize, readMembers, readMember, SortedSet.ofList,
      Verified.new]
  have isRefused := (bounded.refused past).1
  rw [accepted] at isRefused
  cases isRefused

end MokuroBunko.Dav
