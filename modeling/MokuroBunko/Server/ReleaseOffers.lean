import MokuroBunko.Server.UpdateService
import Mathlib.Data.List.TakeWhile
import Mathlib.Data.Set.Lattice

/-! What a check of a release offers (`check` and `newer` of `lib.rs`) against what is installed
(`stage`, with `is_newer` of `auto.rs`).
-/

namespace MokuroBunko.Server.Update

open MokuroBunko.Lib

-- Versions

/-- What is used of the `semver` package: `Version::parse`, whether a version has a pre-release
part, `cmp_precedence`, and how the build metadata compare. -/
structure Semver where
  Version : Type
  parse : String → Option Version
  stable : Version → Bool
  cmpPrecedence : Version → Version → Ordering
  cmpBuild : Version → Version → Ordering

/-- `Version::cmp`: versions of one precedence are ordered by their build metadata. -/
def Semver.cmp (semver : Semver) (left right : semver.Version) : Ordering :=
  (semver.cmpPrecedence left right).then (semver.cmpBuild left right)

/-- What is documented of it: a version begins with a digit and has no whitespace, and the orders
are reflexive. -/
structure Semver.Documented (semver : Semver) : Prop where
  digit : ∀ text version, semver.parse text = some version →
    ∃ first rest, text.toList = first :: rest ∧ Text.isDigit first
  plain : ∀ text version, semver.parse text = some version →
    ∀ char ∈ text.toList, Text.isWhitespace char = false
  precedence : ∀ version, semver.cmpPrecedence version version = .eq
  build : ∀ version, semver.cmpBuild version version = .eq

-- Releases

/-- `Artifact`. -/
structure Artifact where
  url : String
  sha256 : String
  size : ℕ
  binary : String

/-- `Manifest`, as far as a check and an installation read it. -/
structure Manifest where
  version : String
  artifacts : List (String × List (String × Artifact))
  docker : List (String × String)

/-- `UpdateError`. -/
inductive UpdateError where
  | http (reason : String)
  | notPublished (url : String)
  | manifest (reason : String)
  | badSignature
  | noArtifact (flavor target version : String)
  | checksum (got want : String)
  | managed (manager : String)
  | io (reason : String)
  | unpack (reason : String)
  | noSpace (reason : String)
  deriving DecidableEq

/-- The text of an error. -/
def UpdateError.text : UpdateError → String
  | .http reason => s!"could not reach the release server: {reason}"
  | .notPublished url => s!"no release has been published yet ({url} does not exist)"
  | .manifest reason => s!"the release manifest is not valid: {reason}"
  | .badSignature => "the release manifest signature does not verify"
  | .noArtifact flavor target version => s!"no {flavor} build for {target} in release {version}"
  | .checksum got want => s!"the download's sha256 is {got}, the signed manifest says {want}"
  | .managed manager => s!"this installation is managed by {manager}; update it there"
  | .io reason => reason
  | .unpack reason => s!"could not unpack the update: {reason}"
  | .noSpace reason => reason

/-- `Manifest::semver`. -/
def Manifest.semver (semver : Semver) (manifest : Manifest) : Option semver.Version :=
  semver.parse (Text.trimStartMatches 'v' manifest.version)

/-- `Manifest::artifact`. -/
def Manifest.artifact (manifest : Manifest) (target flavor : String) : Except UpdateError Artifact :=
  match (manifest.artifacts.lookup target).bind (·.lookup flavor) with
  | some artifact => .ok artifact
  | none => .error (.noArtifact flavor target manifest.version)

/-- `Updater`, with the target its binary was built for. -/
structure Updater where
  channel : String
  flavor : String
  target : String

/-- `Updater::newer`. -/
def Updater.newer (semver : Semver) (updater : Updater) (current : String) (latest : semver.Version)
    : Bool :=
  match semver.parse current with
  | none => false
  | some current =>
      (semver.stable latest || updater.channel == "prerelease") && (semver.cmp latest current).isGT

/-- `is_newer`. -/
def isNewer (semver : Semver) (candidate current : String) : Bool :=
  let parse (text : String) := semver.parse (Text.trimStartMatches 'v' (Text.trim text))
  match parse candidate, parse current with
  | some candidate, some current => (semver.cmpPrecedence candidate current).isGT
  | _, _ => false

/-- `InstallKind::can_apply`. -/
def InstallKind.canApply : InstallKind → Bool
  | .selfManaged => true
  | _ => false

/-- `check`, by the binary of version `current`: `fetched` is what `fetch_manifest` gave. -/
def Updater.check (semver : Semver) (updater : Updater) (current : String) (install : InstallKind)
    (now : String) (fetched : Except UpdateError Manifest)
    : UpdateStatus :=
  let status : UpdateStatus :=
    { current, latest := none, available := false, install, canApply := false, dockerImage := none
      checkedAt := some now, error := none }
  match fetched with
  | .ok manifest =>
      let available := (manifest.semver semver).elim false (updater.newer semver current)
      { status with
        available
        latest := some manifest.version
        dockerImage := manifest.docker.lookup updater.flavor
        canApply := available && install.canApply
          && (manifest.artifact updater.target updater.flavor).isOk }
  | .error (.notPublished _) => status
  | .error error => { status with error := some error.text }

/-- Why a release is refused that is not newer than the running one. -/
def notNewer (version current : String) : UpdateError :=
  .manifest s!"{version} is not newer than {current}: never a downgrade"

/-- `Staged`. -/
structure Staged where
  version : String
  binary : String

/-- `stage`, by the binary of version `current`: `room` is what `check_space` says of a size, and
`unpack` what downloading and unpacking an archive gave. -/
def Updater.stage (semver : Semver) (updater : Updater) (current : String) (install : InstallKind)
    (room : ℕ → Option String) (unpack : Artifact → Except UpdateError String) (manifest : Manifest)
    : Except UpdateError Staged :=
  match install with
  | .docker => .error (.managed "Docker (pull the new image)")
  | .managed manager => .error (.managed manager)
  | .mobile => .error (.managed "the app store")
  | .selfManaged =>
      if isNewer semver manifest.version current = false then
        .error (notNewer manifest.version current)
      else do
        let artifact ← manifest.artifact updater.target updater.flavor
        match room (min (artifact.size * 4) (2 ^ 64 - 1)) with
        | some reason => .error (.noSpace reason)
        | none =>
            let binary ← unpack artifact
            .ok { version := manifest.version, binary }

-- Offers

/-- A check of the release says there is an update. -/
def Updater.Offers (semver : Semver) (updater : Updater) (current : String) (manifest : Manifest)
    : Prop :=
  ∀ install now, (updater.check semver current install now (.ok manifest)).available = true

/-- Whatever the disk and the download say, the release is refused as not newer. -/
def Updater.RefusesAsOld (semver : Semver) (updater : Updater) (current : String)
    (install : InstallKind) (manifest : Manifest)
    : Prop :=
  ∀ room unpack, updater.stage semver current install room unpack manifest
    = .error (notNewer manifest.version current)

/-- What is offered is not refused as not newer, and no longer offered once it runs. -/
def Installable (semver : Semver) (updater : Updater) (current : String) (manifest : Manifest)
    : Prop :=
  (updater.Offers semver current manifest →
    ∀ install, ¬updater.RefusesAsOld semver current install manifest)
  ∧ ∀ (restarted : Updater) (running : String),
      Text.trimStartMatches 'v' running = Text.trimStartMatches 'v' manifest.version →
      ¬restarted.Offers semver running manifest

/-- The release is on the channel and of the running version's precedence, with a greater build. -/
def OnlyBuildNewer (semver : Semver) (updater : Updater) (current : String) (manifest : Manifest)
    : Prop :=
  ∃ latest running, manifest.semver semver = some latest ∧ semver.parse current = some running
    ∧ (semver.stable latest = true ∨ updater.channel = "prerelease")
    ∧ semver.cmpPrecedence latest running = .eq ∧ semver.cmpBuild latest running = .gt

section

variable {semver : Semver} {updater : Updater} {current : String} {manifest : Manifest}

theorem offers_iff
    : updater.Offers semver current manifest
      ↔ ∃ latest running, manifest.semver semver = some latest ∧ semver.parse current = some running
        ∧ (semver.stable latest = true ∨ updater.channel = "prerelease")
        ∧ semver.cmp latest running = .gt := by
  have available (install : InstallKind) (now : String)
      : (updater.check semver current install now (.ok manifest)).available
        = (manifest.semver semver).elim false (updater.newer semver current) := rfl
  simp only [Updater.Offers, available]
  constructor
  · intro offers
    have newer := offers .selfManaged ""
    rcases known : manifest.semver semver with _ | latest
    · rw [known] at newer
      cases newer
    rw [known] at newer
    rcases parsed : semver.parse current with _ | running
    · simp [Updater.newer, parsed] at newer
    · simp [Updater.newer, parsed, Ordering.isGT_iff_eq_gt] at newer
      exact ⟨latest, running, rfl, rfl, newer.1, newer.2⟩
  · rintro ⟨latest, running, known, parsed, channel, greater⟩ _ _
    simp [known, Updater.newer, parsed, greater, channel]

theorem trimmed_parses (documented : semver.Documented) {text : String} {version : semver.Version}
    (parsed : semver.parse (Text.trimStartMatches 'v' text) = some version)
    : Text.trim text = text := by
  apply Text.trim_eq_self
  intro char isIn
  rw [← List.takeWhile_append_dropWhile (p := (· == 'v')) (l := text.toList),
    List.mem_append] at isIn
  rcases isIn with leading | core
  · have isV : char = 'v' := by simpa using List.mem_takeWhile_imp leading
    subst isV
    decide
  · exact documented.plain _ _ parsed char (by simpa [Text.trimStartMatches] using core)

theorem trimStart_parses (documented : semver.Documented) {text : String} {version : semver.Version}
    (parsed : semver.parse text = some version)
    : Text.trimStartMatches 'v' text = text := by
  obtain ⟨first, rest, chars, digit⟩ := documented.digit text version parsed
  have other : (first == 'v') = false := by
    rw [beq_eq_false_iff_ne]
    rintro rfl
    exact absurd digit (by decide)
  rw [Text.trimStartMatches, chars, List.dropWhile_cons_of_neg (by simp [other]), ← chars,
    String.ofList_toList]

theorem isNewer_iff (documented : semver.Documented) {latest running : semver.Version}
    (known : manifest.semver semver = some latest) (parsed : semver.parse current = some running)
    : isNewer semver manifest.version current = true
      ↔ semver.cmpPrecedence latest running = .gt := by
  have same := trimStart_parses documented parsed
  have trimmed : Text.trim current = current :=
    trimmed_parses documented (by rw [same]; exact parsed)
  rw [Manifest.semver] at known
  simp only [isNewer, trimmed, same, parsed, trimmed_parses documented known, known]
  exact Ordering.isGT_iff_eq_gt

theorem refusesAsOld_iff {install : InstallKind}
    : updater.RefusesAsOld semver current install manifest
      ↔ install = .selfManaged ∧ isNewer semver manifest.version current = false := by
  constructor
  · intro refuses
    cases install with
    | docker => cases refuses (fun _ => none) (fun _ => .error .badSignature)
    | managed manager => cases refuses (fun _ => none) (fun _ => .error .badSignature)
    | mobile => cases refuses (fun _ => none) (fun _ => .error .badSignature)
    | selfManaged =>
        refine ⟨rfl, ?_⟩
        by_contra newer
        have refused := refuses (fun _ => none) (fun _ => .error .badSignature)
        simp only [Updater.stage, newer, if_false] at refused
        rcases found : manifest.artifact updater.target updater.flavor with error | artifact
        · rw [found] at refused
          have noArtifact : ∃ flavor target version, error = .noArtifact flavor target version := by
            rw [Manifest.artifact] at found
            split at found
            · cases found
            · exact ⟨_, _, _, (Except.error.inj found).symm⟩
          obtain ⟨flavor, target, version, rfl⟩ := noArtifact
          cases Except.error.inj refused
        · rw [found] at refused
          cases Except.error.inj refused
  · rintro ⟨rfl, old⟩ room unpack
    simp [Updater.stage, old]

/-- What a check offers can be installed, and is not offered again, unless the build alone is newer. -/
theorem installable_iff (documented : semver.Documented) (updater : Updater) (current : String)
    (manifest : Manifest)
    : Installable semver updater current manifest
      ↔ ¬OnlyBuildNewer semver updater current manifest := by
  constructor
  · rintro ⟨installs, -⟩ ⟨latest, running, known, parsed, channel, same, build⟩
    have offers : updater.Offers semver current manifest :=
      offers_iff.mpr ⟨latest, running, known, parsed, channel, by simp [Semver.cmp, same, build]⟩
    apply installs offers .selfManaged
    rw [refusesAsOld_iff]
    refine ⟨rfl, ?_⟩
    rw [← Bool.not_eq_true, isNewer_iff documented known parsed, same]
    exact nofun
  · intro notOnly
    refine ⟨fun offers install refuses => ?_, fun restarted running same offers => ?_⟩
    · obtain ⟨latest, running, known, parsed, channel, greater⟩ := offers_iff.mp offers
      obtain ⟨-, old⟩ := refusesAsOld_iff.mp refuses
      rw [← Bool.not_eq_true, isNewer_iff documented known parsed] at old
      rcases order : semver.cmpPrecedence latest running with _ | _ | _
      · simp [Semver.cmp, order] at greater
      · exact notOnly ⟨latest, running, known, parsed, channel, order,
          by simpa [Semver.cmp, order] using greater⟩
      · exact old order
    · -- The running version is the release's: the comparison is of a version with itself.
      obtain ⟨latest, version, known, parsed, -, greater⟩ := offers_iff.mp offers
      rw [Manifest.semver, ← same, trimStart_parses documented parsed, parsed] at known
      obtain rfl := Option.some.inj known
      simp [Semver.cmp, documented.precedence, documented.build] at greater

end

-- A release that differs in its build metadata

def sampleVersions : List (String × (ℕ × ℕ)) :=
  [("0.7.0", (7, 0)), ("0.7.0+2", (7, 2)), ("0.8.0", (8, 0))]

/-- `semver`, on the three versions. -/
def sample : Semver where
  Version := ℕ × ℕ
  parse text := sampleVersions.lookup text
  stable _ := true
  cmpPrecedence left right := compare left.1 right.1
  cmpBuild left right := compare left.2 right.2

theorem sample_mem {text : String} {version : ℕ × ℕ} (parsed : sample.parse text = some version)
    : (text, version) ∈ sampleVersions := by
  obtain ⟨before, after, split, -⟩ :=
    List.lookup_eq_some_iff.mp (parsed : sampleVersions.lookup text = some version)
  rw [split]
  exact List.mem_append_right _ (List.mem_cons_self ..)

theorem sample_documented : sample.Documented where
  digit text version parsed := by
    have all : sampleVersions.all (fun entry => entry.1.toList.head?.any Text.isDigit) = true := by
      decide +kernel
    have first := List.all_eq_true.mp all _ (sample_mem parsed)
    rcases chars : text.toList with _ | ⟨char, rest⟩
    · simp [chars] at first
    · exact ⟨char, rest, rfl, by simpa [chars] using first⟩
  plain text version parsed := by
    have all : sampleVersions.all
        (fun entry => entry.1.toList.all (fun char => !Text.isWhitespace char)) = true := by
      decide +kernel
    intro char isIn
    simpa using List.all_eq_true.mp (List.all_eq_true.mp all _ (sample_mem parsed)) char isIn
  precedence _ := Std.ReflOrd.compare_self
  build _ := Std.ReflOrd.compare_self

/-- The same release built again, for a program of one flavor on the stable channel. -/
def rebuilt : Manifest :=
  { version := "0.7.0+2"
    artifacts := [("x86_64-unknown-linux-gnu",
      [("full", { url := "https://mirror/bunko.tar.gz", sha256 := "", size := 1, binary := "bunko" })])]
    docker := [] }

/-- A release that is newer by its build metadata alone is offered, and refused as not newer. -/
theorem rebuilt_refused
    : sample.Documented
      ∧ ¬Installable sample
          { channel := "stable", flavor := "full", target := "x86_64-unknown-linux-gnu" }
          "0.7.0" rebuilt := by
  refine ⟨sample_documented, fun installs => ?_⟩
  have offers : Updater.Offers sample
      { channel := "stable", flavor := "full", target := "x86_64-unknown-linux-gnu" }
      "0.7.0" rebuilt :=
    offers_iff.mpr ⟨(7, 2), (7, 0), by rfl, by rfl, .inl rfl, by rfl⟩
  exact installs.1 offers .selfManaged (refusesAsOld_iff.mpr ⟨rfl, by decide +kernel⟩)

/-- The next minor release is installable. -/
theorem installable_next
    : Installable sample
        { channel := "stable", flavor := "full", target := "x86_64-unknown-linux-gnu" }
        "0.7.0" { rebuilt with version := "0.8.0" }
      ↔ ¬OnlyBuildNewer sample
          { channel := "stable", flavor := "full", target := "x86_64-unknown-linux-gnu" }
          "0.7.0" { rebuilt with version := "0.8.0" } :=
  installable_iff sample_documented _ "0.7.0" { rebuilt with version := "0.8.0" }

end MokuroBunko.Server.Update
