import MokuroBunko.Processor.Fetch
import Mathlib.Data.List.Infix

/-! What a fetch brings about when its calls keep to a contract: its files hold what their copies have
been given, whatever else a reading of the bodies preserves.
-/

namespace MokuroBunko.Processor

open MokuroBunko.Lib

/-- The file behind a placement. -/
structure File where
  kind : PlacementKind
  size : ℕ
  bytes : List UInt8

/-- The files of one fetch, also those that it has given back. -/
abbrev Files := ℕ → Option File

def Files.edit (files : Files) (id : ℕ) (change : List UInt8 → List UInt8) : Files :=
  Function.update files id ((files id).map fun file => { file with bytes := change file.bytes })

def Body.bytes (body : Body) : List UInt8 := body.chunks.flatten

/-- A file in memory has room for so many bytes more, if that is asked for. -/
def Roomy (bounded : Prop) (kind : PlacementKind) (size used more : ℕ) : Prop :=
  bounded → kind = .memory → used + more ≤ size

def contract (bounded : Prop) (allowed : Answer → Copy → Body → Prop)
    : Contract FetchCall FetchCall.Reply Files where
  requires
    | .write id data, files =>
        ∀ file ∈ files id, Roomy bounded file.kind file.size file.bytes.length data.length
    | _, _ => True
  gives
    | .body answer copy, files, body, after => allowed answer copy body ∧ after = files
    | .place _ _, files, .error _, after => after = files
    | .place size _, files, .ok handle, after =>
        handle.size = size ∧ files handle.id = none
          ∧ after = Function.update files handle.id (some ⟨handle.kind, size, []⟩)
    | .write id data, files, .ok _, after => after = files.edit id (· ++ data)
    | .write id data, files, .error _, after =>
        ∃ part, part <+: data ∧ after = files.edit id (· ++ part)
    | .reset id, files, true, after => after = files.edit id (fun _ => [])
    | _, files, _, after => after = files

/-- The copy with more bytes. -/
def Copy.advance (copy : Copy) (data : List UInt8) : Copy :=
  { copy with received := copy.received + data.length, crc := copy.crc ++ data }

/-- How a copy is when an answer's body is about to be read, and the total that is then expected. -/
inductive Taken (size : Option ℕ) (answer : Answer) : Option ℕ → Copy → Prop where
  | part {copy : Copy} {last : ℕ} {total : Option ℕ} (status : answer.status = 206)
      (range : contentRange answer.contentRange = some (copy.received, last, total))
      (resumes : copy.received ≠ 0) (sameTotal : differs total copy.total = false)
      (sameEtag : differs (strongEtag answer.etag) copy.etag = false)
      : Taken size answer (total.or copy.total) copy
  | whole {copy : Copy} (status : answer.status ≠ 206) (fresh : copy.crc = [])
      (etag : copy.etag = strongEtag answer.etag)
      : Taken size answer (answer.length.or size) copy

/-- What a reading of bodies preserves (`good`), and what it ends with (`done`). -/
structure Reading (bounded : Prop) (allowed : Answer → Copy → Body → Prop) (size : Option ℕ)
    (good done : Copy → Prop)
    : Prop where
  empty : ∀ copy : Copy, copy.crc = [] → good copy
  reads
    : ∀ {answer expected copy body part}, Taken size answer expected copy → good copy
        → copy.received = copy.crc.length → allowed answer copy body → part <+: body.bytes
        → good (copy.advance part)
  fits
    : bounded → ∀ {answer copy body}, allowed answer copy body
        → ∀ placement ∈ copy.placement, placement.kind = .memory
        → copy.received + body.bytes.length ≤ placement.size
  completes
    : ∀ {answer expected copy body after}, Taken size answer expected copy → good copy
        → copy.received = copy.crc.length → allowed answer copy body → body.ending = .clean
        → complete expected (copy.advance body.bytes) = (.ok (), after) → done after

/-- The files that were there stay as they are. -/
def Files.Extends (kept files : Files) : Prop := ∀ id file, kept id = some file → files id = some file

/-- The copy's file holds the copy's bytes, and is none of the files that were there. -/
structure Sound (kept : Files) (copy : Copy) (files : Files) : Prop where
  file : ∀ placement ∈ copy.placement, files placement.id = some ⟨placement.kind, placement.size, copy.crc⟩
  received : copy.received = copy.crc.length
  empty : copy.placement = none → copy.crc = []
  before : kept.Extends files
  apart : ∀ placement ∈ copy.placement, kept placement.id = none

section Rules

variable {bounded : Prop} {allowed : Answer → Copy → Body → Prop} {size : Option ℕ}
  {good done : Copy → Prop} {kept files : Files} {copy : Copy}

theorem Files.Extends.update (extends_ : kept.Extends files) {id : ℕ} (fresh : kept id = none)
    (file : Option File)
    : kept.Extends (Function.update files id file) := by
  intro other found isFound
  rw [Function.update_of_ne]
  · exact extends_ other found isFound
  · rintro rfl
    rw [fresh] at isFound
    cases isFound

theorem Sound.edited (sound : Sound kept copy files) {placement : Handle}
    (isPlacement : copy.placement = some placement) (change : List UInt8 → List UInt8)
    : files.edit placement.id change
      = Function.update files placement.id (some ⟨placement.kind, placement.size, change copy.crc⟩) := by
  unfold Files.edit
  rw [sound.file placement isPlacement]
  rfl

theorem Sound.changed (sound : Sound kept copy files) {placement : Handle}
    (isPlacement : copy.placement = some placement) (bytes : List UInt8) (total : Option ℕ)
    (etag : Option String)
    : Sound kept ⟨some placement, bytes.length, total, etag, bytes⟩
        (Function.update files placement.id (some ⟨placement.kind, placement.size, bytes⟩)) where
  file := by
    intro other isOther
    cases isOther
    exact Function.update_self _ _ _
  received := rfl
  empty := nofun
  before := sound.before.update (sound.apart placement isPlacement) _
  apart := by
    intro other isOther
    cases isOther
    exact sound.apart placement isPlacement

theorem Sound.placed (sound : Sound kept copy files) {placement : Handle} {reserved : ℕ}
    (sameSize : placement.size = reserved) (fresh : files placement.id = none) (total : Option ℕ)
    (etag : Option String)
    : Sound kept ⟨some placement, 0, total, etag, []⟩
        (Function.update files placement.id (some ⟨placement.kind, reserved, []⟩)) where
  file := by
    intro other isOther
    cases isOther
    rw [Function.update_self, sameSize]
  received := rfl
  empty := nofun
  before := by
    intro id file isKept
    have isFile := sound.before id file isKept
    rw [Function.update_of_ne]
    · exact isFile
    · rintro rfl
      rw [fresh] at isFile
      cases isFile
  apart := by
    intro other isOther
    cases isOther
    cases isKept : kept placement.id with
    | none => rfl
    | some file =>
        rw [sound.before placement.id file isKept] at fresh
        cases fresh

/-- What a flush leaves. -/
def Flushed (kept : Files) (copy : Copy) (data : List UInt8) (result : Except Attempt Unit × Copy)
    (files : Files)
    : Prop :=
  kept.Extends files
    ∧ match result.1 with
      | .ok _ => result.2 = copy.advance data ∧ Sound kept result.2 files
      | .error .replaced => result.2.crc = [] ∧ Sound kept result.2 files
      | .error (.fail _) => True
      | .error _ => False

theorem flush_ensures (sound : Sound kept copy files) (download : Download) {data : List UInt8}
    (room
      : ∀ placement ∈ copy.placement,
          Roomy bounded placement.kind placement.size copy.crc.length data.length)
    : (flush download copy data).Ensures (contract bounded allowed) (Flushed kept copy data) files := by
  unfold flush
  split
  · rename_i isNil
    refine ⟨sound.before, ?_, sound⟩
    rw [isNil]
    simp [Copy.advance]
  split
  · exact ⟨sound.before, trivial⟩
  rename_i placement isPlacement
  refine Prog.Ensures.call ?_ ?_
  · intro file isFile
    rw [sound.file placement isPlacement] at isFile
    cases isFile
    exact room placement isPlacement
  intro reply after given
  have stays {part : List UInt8} (isAfter : after = files.edit placement.id (· ++ part))
      : kept.Extends after := by
    rw [isAfter]
    exact sound.before.update (sound.apart placement isPlacement) _
  cases reply with
  | ok _ =>
      have isAfter : after = files.edit placement.id (· ++ data) := given
      have grown := sound.changed isPlacement (copy.crc ++ data) copy.total copy.etag
      rw [← sound.edited isPlacement (· ++ data), ← isAfter, List.length_append, ← sound.received,
        ← isPlacement] at grown
      exact ⟨stays isAfter, rfl, grown⟩
  | error error =>
      obtain ⟨part, _, isAfter⟩ := given
      have left := stays isAfter
      cases error with
      | io =>
          refine Prog.Ensures.call trivial ?_
          intro _ last same
          cases same
          exact ⟨left, trivial⟩
      | full =>
          refine Prog.Ensures.call trivial ?_
          intro _ last same
          cases same
          split
          · refine Prog.Ensures.call trivial ?_
            intro moved last placed
            cases moved with
            | error _ =>
                cases (show last = after from placed)
                exact ⟨left, trivial⟩
            | ok moved =>
                obtain ⟨sameSize, fresh, rfl⟩ := placed
                have gone : Sound kept { copy with placement := none, received := 0, crc := [] } after :=
                  ⟨nofun, rfl, fun _ => rfl, left, nofun⟩
                have moved := gone.placed sameSize fresh copy.total copy.etag
                exact ⟨moved.before, rfl, moved⟩
          · exact ⟨left, trivial⟩

/-- What the end of a body leaves. -/
def BodyRead (kept : Files) (copy : Copy) (data : List UInt8) (ending : Ending)
    (result : Except Attempt Unit × Copy) (files : Files)
    : Prop :=
  kept.Extends files
    ∧ match result.1 with
      | .ok _ => ending = .clean ∧ result.2 = copy.advance data ∧ Sound kept result.2 files
      | .error .replaced => result.2.crc = [] ∧ Sound kept result.2 files
      | .error (.transport _) =>
          ∃ part, part <+: data ∧ result.2 = copy.advance part ∧ Sound kept result.2 files
      | .error (.fail _) => True
      | .error .restart => False

theorem Copy.advance_append (copy : Copy) (first second : List UInt8)
    : (copy.advance first).advance second = copy.advance (first ++ second) := by
  simp [Copy.advance, Nat.add_assoc]

/-- There is room in the copy's file for the data. -/
def HasRoom (bounded : Prop) (copy : Copy) (more : ℕ) : Prop :=
  ∀ placement ∈ copy.placement, Roomy bounded placement.kind placement.size copy.crc.length more

theorem HasRoom.mono {more fewer : ℕ} (room : HasRoom bounded copy more) (less : fewer ≤ more)
    : HasRoom bounded copy fewer := by
  intro placement isPlacement asked memory
  have fits := room placement isPlacement asked memory
  omega

theorem HasRoom.advance {data : List UInt8} {more : ℕ}
    (room : HasRoom bounded copy (data.length + more))
    : HasRoom bounded (copy.advance data) more := by
  intro placement isPlacement asked memory
  have fits := room placement isPlacement asked memory
  simp only [Copy.advance, List.length_append]
  omega

theorem endBody_ensures (sound : Sound kept copy files) (download : Download) (ending : Ending)
    {buffer : List UInt8} (room : HasRoom bounded copy buffer.length)
    : (endBody download copy ending buffer).Ensures (contract bounded allowed)
        (BodyRead kept copy buffer ending) files := by
  have flushed : (flush download copy buffer).Ensures (contract bounded allowed)
      (Flushed kept copy buffer) files := flush_ensures sound download room
  cases ending with
  | cancelled => exact ⟨sound.before, trivial⟩
  | clean =>
      refine flushed.mono ?_
      rintro ⟨result, after⟩ files ⟨before, facts⟩
      refine ⟨before, ?_⟩
      match result with
      | .ok _ => exact ⟨rfl, facts⟩
      | .error .replaced => exact facts
      | .error (.fail _) => trivial
      | .error .restart => exact facts
      | .error (.transport _) => exact facts.elim
  | timedOut =>
      refine flushed.bind ?_
      rintro ⟨result, after⟩ files ⟨before, facts⟩
      match result with
      | .ok _ => exact ⟨before, buffer, List.prefix_refl _, facts⟩
      | .error .replaced => exact ⟨before, facts⟩
      | .error (.fail _) => exact ⟨before, trivial⟩
      | .error .restart => exact facts.elim
      | .error (.transport _) => exact facts.elim
  | failed =>
      refine flushed.bind ?_
      rintro ⟨result, after⟩ files ⟨before, facts⟩
      match result with
      | .ok _ =>
          refine Prog.Ensures.call trivial ?_
          intro cancelled last same
          cases same
          split
          · exact ⟨before, trivial⟩
          · exact ⟨before, buffer, List.prefix_refl _, facts⟩
      | .error .replaced => exact ⟨before, facts⟩
      | .error (.fail _) => exact ⟨before, trivial⟩
      | .error .restart => exact facts.elim
      | .error (.transport _) => exact facts.elim

theorem readBody_ensures (download : Download) (ending : Ending) (chunks : List (List UInt8))
    : ∀ {copy : Copy} {buffer : List UInt8} {files : Files}, Sound kept copy files
      → HasRoom bounded copy (buffer ++ chunks.flatten).length
      → (readBody download ending chunks copy buffer).Ensures (contract bounded allowed)
          (BodyRead kept copy (buffer ++ chunks.flatten) ending) files := by
  induction chunks with
  | nil =>
      intro copy buffer files sound room
      rw [List.flatten_nil, List.append_nil] at room ⊢
      exact endBody_ensures sound download ending room
  | cons chunk rest ih =>
      intro copy buffer files sound room
      have whole : buffer ++ (chunk :: rest).flatten = (buffer ++ chunk) ++ rest.flatten := by
        rw [List.flatten_cons, List.append_assoc]
      rw [whole] at room ⊢
      rw [readBody]
      split
      · rw [List.length_append] at room
        have flushed : (flush download copy (buffer ++ chunk)).Ensures (contract bounded allowed)
            (Flushed kept copy (buffer ++ chunk)) files :=
          flush_ensures sound download (room.mono (Nat.le_add_right _ _))
        refine flushed.bind ?_
        rintro ⟨result, after⟩ files ⟨before, facts⟩
        match result with
        | .ok _ =>
            obtain ⟨rfl, soundAfter⟩ := facts
            refine (ih soundAfter room.advance).mono ?_
            rintro ⟨result, last⟩ files ⟨before, facts⟩
            refine ⟨before, ?_⟩
            match result with
            | .ok _ => exact ⟨facts.1, by rw [facts.2.1, Copy.advance_append, List.nil_append], facts.2.2⟩
            | .error .replaced => exact facts
            | .error (.fail _) => trivial
            | .error .restart => exact facts
            | .error (.transport _) =>
                obtain ⟨part, isPart, isLast, soundLast⟩ := facts
                refine ⟨buffer ++ chunk ++ part, ?_, ?_, soundLast⟩
                · exact List.prefix_append_right_inj _ |>.mpr isPart
                · rw [isLast, Copy.advance_append]
        | .error .replaced => exact ⟨before, facts⟩
        | .error (.fail _) => exact ⟨before, trivial⟩
        | .error .restart => exact facts.elim
        | .error (.transport _) => exact facts.elim
      · exact ih sound room

/-- What an attempt leaves: a complete copy, one that can go on, or an end of the fetch. -/
def Attempted (kept : Files) (good done : Copy → Prop) (result : Except Attempt Unit × Copy)
    (files : Files)
    : Prop :=
  kept.Extends files
    ∧ match result.1 with
      | .ok _ => Sound kept result.2 files ∧ done result.2
      | .error (.fail _) => True
      | .error _ => Sound kept result.2 files ∧ good result.2

theorem Sound.relabelled (sound : Sound kept copy files) (total : Option ℕ) (etag : Option String)
    : Sound kept { copy with total, etag } files :=
  ⟨sound.file, sound.received, sound.empty, sound.before, sound.apart⟩

theorem Taken.placed {answer : Answer} {expected : Option ℕ} (taken : Taken size answer expected copy)
    (placement : Option Handle)
    : Taken size answer expected { copy with placement } := by
  cases taken with
  | part status range resumes sameTotal sameEtag =>
      exact @Taken.part size answer { copy with placement } _ _ status range resumes sameTotal sameEtag
  | whole status fresh etag => exact .whole status fresh etag

theorem complete_cases (expected : Option ℕ) (copy : Copy)
    : complete expected copy = (.ok (), { copy with total := some copy.received })
      ∨ complete expected copy = (.error .restart, copy)
      ∨ complete expected copy = (.error (.transport false), copy) := by
  unfold complete
  cases expected with
  | none => exact .inl rfl
  | some expected =>
      dsimp only
      split
      · exact .inl rfl
      split
      · exact .inr (.inl rfl)
      · exact .inr (.inr rfl)

section Attempts

variable (reading : Reading bounded allowed size good done)

include reading

theorem readAnswer_ensures (sound : Sound kept copy files) (isGood : good copy) {answer : Answer}
    {expected : Option ℕ} (taken : Taken size answer expected copy) (download : Download)
    : (do
        let body ← ask (.body answer copy)
        match ← readBody download body.ending body.chunks copy [] with
        | (.error error, copy) => pure (.error error, copy)
        | (.ok _, copy) => pure (complete expected copy)
        : FetchProg (Except Attempt Unit × Copy)).Ensures (contract bounded allowed)
          (Attempted kept good done) files := by
  refine Prog.Ensures.call trivial ?_
  rintro body last ⟨isAllowed, same⟩
  cases same
  have room : HasRoom bounded copy ([] ++ body.chunks.flatten).length := by
    intro placement isPlacement asked memory
    have fits := reading.fits asked isAllowed placement isPlacement memory
    rw [sound.received] at fits
    exact fits
  have goodPart {part : List UInt8} (isPart : part <+: body.bytes) : good (copy.advance part) :=
    reading.reads taken isGood sound.received isAllowed isPart
  refine (readBody_ensures download body.ending body.chunks sound room).bind ?_
  rintro ⟨result, after⟩ files ⟨before, facts⟩
  match result with
  | .ok _ =>
      obtain ⟨isClean, isAfter, soundAfter⟩ := facts
      have isAfter : after = copy.advance body.bytes := isAfter
      subst isAfter
      have goodAll := goodPart (List.prefix_refl _)
      refine ⟨before, ?_⟩
      obtain isOk | isRestart | isShort := complete_cases expected (copy.advance body.bytes)
      · rw [isOk]
        exact ⟨soundAfter.relabelled _ _,
          reading.completes taken isGood sound.received isAllowed isClean isOk⟩
      · rw [isRestart]
        exact ⟨soundAfter, goodAll⟩
      · rw [isShort]
        exact ⟨soundAfter, goodAll⟩
  | .error .replaced => exact ⟨before, facts.2, reading.empty _ facts.1⟩
  | .error (.fail _) => exact ⟨before, trivial⟩
  | .error .restart => exact facts.elim
  | .error (.transport _) =>
      obtain ⟨part, isPart, isAfter, soundAfter⟩ := facts
      have isAfter : after = copy.advance part := isAfter
      exact ⟨before, soundAfter, isAfter ▸ goodPart isPart⟩

theorem takeBody_ensures (sound : Sound kept copy files) (isGood : good copy) {answer : Answer}
    {expected : Option ℕ} (taken : Taken size answer expected copy) (download : Download)
    : (takeBody size download answer expected copy).Ensures (contract bounded allowed)
        (Attempted kept good done) files := by
  unfold takeBody
  cases isPlacement : copy.placement with
  | some placement => exact readAnswer_ensures reading sound isGood taken download
  | none =>
      have fresh := sound.empty isPlacement
      dsimp only
      refine Prog.Ensures.call trivial ?_
      intro reply after placed
      cases reply with
      | error _ =>
          cases (show after = files from placed)
          exact ⟨sound.before, trivial⟩
      | ok placement =>
          obtain ⟨sameSize, unused, rfl⟩ := placed
          have placedSound := sound.placed sameSize unused copy.total copy.etag
          have isCopy : ({ copy with placement := some placement } : Copy)
              = ⟨some placement, 0, copy.total, copy.etag, []⟩ := by
            rw [← fresh]
            simp [sound.received, fresh]
          have isGood : good { copy with placement := some placement } :=
            reading.empty _ fresh
          exact readAnswer_ensures reading (isCopy ▸ placedSound) isGood
            (taken.placed (some placement)) download

theorem takeAnswer_ensures (sound : Sound kept copy files) (isGood : good copy) {answer : Answer}
    {expected : Option ℕ} (taken : Taken size answer expected copy) (download : Download)
    : (takeAnswer size download answer expected copy).Ensures (contract bounded allowed)
        (Attempted kept good done) files := by
  unfold takeAnswer
  split
  · exact ⟨sound.before, trivial⟩
  · exact takeBody_ensures reading sound isGood taken download

theorem takeWhole_ensures (sound : Sound kept copy files) (fresh : copy.crc = []) {answer : Answer}
    (status : answer.status ≠ 206) (download : Download)
    : (takeWhole size download answer copy).Ensures (contract bounded allowed)
        (Attempted kept good done) files := by
  have taken (placement : Option Handle)
      : Taken size answer (answer.length.or size)
          ⟨placement, copy.received, answer.length.or size, strongEtag answer.etag, copy.crc⟩ :=
    .whole status fresh rfl
  have isGood (placement : Option Handle) := reading.empty
    ⟨placement, copy.received, answer.length.or size, strongEtag answer.etag, copy.crc⟩ fresh
  have same := takeAnswer_ensures reading (sound.relabelled (answer.length.or size)
    (strongEtag answer.etag)) (isGood _) (taken _) download
  unfold takeWhole
  cases isPlacement : copy.placement with
  | none => exact same
  | some placement =>
      dsimp only
      split
      · refine Prog.Ensures.call trivial ?_
        intro _ last unchanged
        cases unchanged
        have gone : Sound kept ⟨none, copy.received, answer.length.or size, strongEtag answer.etag,
            copy.crc⟩ files :=
          ⟨nofun, sound.received, fun _ => fresh, sound.before, nofun⟩
        exact takeAnswer_ensures reading gone (isGood none) (taken none) download
      · exact same

omit reading in
theorem resetCopy_ensures (sound : Sound kept copy files)
    : (resetCopy copy).Ensures (contract bounded allowed)
        (fun result after =>
          kept.Extends after
            ∧ ∀ emptied, result = .ok emptied → Sound kept emptied after ∧ emptied.crc = [])
        files := by
  unfold resetCopy
  cases isPlacement : copy.placement with
  | none =>
      refine ⟨sound.before, ?_⟩
      intro emptied same
      cases same
      exact ⟨⟨by simp, rfl, fun _ => rfl, sound.before, by simp⟩, rfl⟩
  | some placement =>
      refine Prog.Ensures.call trivial ?_
      intro worked after given
      cases worked with
      | true =>
          have isAfter : after = files.edit placement.id (fun _ => []) := given
          have emptied := sound.changed isPlacement [] copy.total copy.etag
          rw [← sound.edited isPlacement (fun _ => []), ← isAfter] at emptied
          refine ⟨emptied.before, ?_⟩
          intro result same
          cases same
          exact ⟨isPlacement ▸ emptied, rfl⟩
      | false =>
          cases (show after = files from given)
          refine Prog.Ensures.call trivial ?_
          intro _ last same
          cases same
          exact ⟨sound.before, nofun⟩

omit reading in
theorem partialTotal_eq_ok {answer : Answer} {expected : Option ℕ} (status : answer.status = 206)
    (isTotal : partialTotal copy answer = .ok expected)
    : Taken size answer expected copy := by
  unfold partialTotal at isTotal
  split at isTotal
  · cases isTotal
  rename_i start last total range
  split at isTotal
  · cases isTotal
  rename_i resumes
  split at isTotal
  · cases isTotal
  rename_i same
  cases isTotal
  simp only [not_or, Bool.not_eq_true, ne_eq, Decidable.not_not] at same
  obtain ⟨rfl, sameTotal, sameEtag⟩ := same
  exact .part status range resumes sameTotal sameEtag

/-- What an attempt leaves, with the counters beside it. -/
def AttemptLeaves (kept : Files) (good done : Copy → Prop)
    (result : Except Attempt Unit × Copy × Download) (files : Files)
    : Prop :=
  Attempted kept good done (result.1, result.2.1) files

theorem attempt_ensures (sound : Sound kept copy files) (isGood : good copy) (maxRestarts : ℕ)
    (download : Download)
    : (attempt maxRestarts size copy download).Ensures (contract bounded allowed)
        (AttemptLeaves kept good done) files := by
  unfold attempt
  refine Prog.Ensures.call trivial ?_
  intro sent last same
  cases same
  have unchanged (error : Attempt) (counted : Download)
      : (pure (.error error, copy, counted)
          : FetchProg (Except Attempt Unit × Copy × Download)).Ensures (contract bounded allowed)
            (AttemptLeaves kept good done) files := by
    refine ⟨sound.before, ?_⟩
    cases error with
    | fail _ => trivial
    | transport _ | restart | replaced => exact ⟨sound, isGood⟩
  cases sent with
  | cancelled => exact unchanged _ _
  | timedOut => exact unchanged _ _
  | failed =>
      refine Prog.Ensures.call trivial ?_
      intro cancelled last same
      cases same
      split
      · exact unchanged _ _
      · exact unchanged _ _
  | answered answer =>
      dsimp only
      split
      · exact unchanged _ _
      split
      · rename_i status
        split
        · exact unchanged _ _
        · rename_i expected isTotal
          refine (takeAnswer_ensures reading sound isGood (partialTotal_eq_ok status isTotal) _).bind ?_
          intro result after left
          exact left
      rename_i status
      split
      · rename_i nothing
        have fresh : copy.crc = [] := List.length_eq_zero_iff.mp (sound.received ▸ nothing)
        refine (takeWhole_ensures reading sound fresh status _).bind ?_
        intro result after left
        exact left
      split
      · exact unchanged _ _
      refine (resetCopy_ensures sound).bind ?_
      rintro result after ⟨before, emptied⟩
      cases result with
      | error _ => exact ⟨before, trivial⟩
      | ok copy =>
          obtain ⟨soundEmpty, fresh⟩ := emptied copy rfl
          refine (takeWhole_ensures reading soundEmpty fresh status _).bind ?_
          intro result after left
          exact left

/-- What the download of a copy leaves. -/
def Downloaded (kept : Files) (done : Copy → Prop)
    (result : Option (Except FetchError Copy) × Download) (files : Files)
    : Prop :=
  kept.Extends files ∧ ∀ copy, result.1 = some (.ok copy) → Sound kept copy files ∧ done copy

omit reading in
theorem dropCopy_ensures {α : Type} {post : α → Files → Prop} (copy : Copy) {rest : FetchProg α}
    (continues : rest.Ensures (contract bounded allowed) post files)
    : (dropCopy copy >>= fun _ => rest).Ensures (contract bounded allowed) post files := by
  unfold dropCopy
  cases copy.placement with
  | none => exact continues
  | some placement =>
      refine Prog.Ensures.call trivial ?_
      intro _ last same
      cases same
      exact continues

omit reading in
theorem dropped_ensures (before : kept.Extends files) (copy : Copy) (error : FetchError)
    (download : Download)
    : (do
        dropCopy copy
        pure (some (.error error), download)
        : FetchProg (Option (Except FetchError Copy) × Download)).Ensures (contract bounded allowed)
          (Downloaded kept done) files :=
  dropCopy_ensures copy ⟨before, nofun⟩

theorem downloadCopy_ensures (maxRestarts fuel : ℕ)
    : ∀ {copy : Copy} {files : Files}, Sound kept copy files → good copy
      → ∀ (serverErrors : ℕ) (download : Download),
        (downloadCopy maxRestarts size fuel copy serverErrors download).Ensures
          (contract bounded allowed) (Downloaded kept done) files := by
  induction fuel with
  | zero =>
      intro copy files sound _ _ _
      exact ⟨sound.before, nofun⟩
  | succ fuel ih =>
      intro copy files sound isGood serverErrors download
      rw [downloadCopy]
      refine Prog.Ensures.call trivial ?_
      intro cancelled last same
      cases same
      split
      · exact dropped_ensures sound.before copy _ _
      refine (attempt_ensures reading sound isGood maxRestarts download).bind ?_
      rintro ⟨result, copy, download⟩ files ⟨before, facts⟩
      match result with
      | .ok _ =>
          refine ⟨before, ?_⟩
          intro other same
          cases same
          exact facts
      | .error .replaced => exact ih facts.1 facts.2 _ _
      | .error (.fail error) => exact dropped_ensures before copy error download
      | .error .restart =>
          dsimp only
          split
          · exact dropped_ensures before copy _ _
          refine (resetCopy_ensures facts.1).bind ?_
          rintro result files ⟨before, emptied⟩
          cases result with
          | error _ => exact ⟨before, nofun⟩
          | ok copy =>
              obtain ⟨soundEmpty, fresh⟩ := emptied copy rfl
              exact ih (soundEmpty.relabelled none none) (reading.empty _ fresh) _ _
      | .error (.transport serverError) =>
          dsimp only
          generalize (if serverError then serverErrors + 1 else 0) = errors
          split
          · exact dropped_ensures before copy _ _
          refine Prog.Ensures.call trivial ?_
          intro waited last same
          cases same
          cases waited with
          | stalled => exact dropped_ensures before copy _ _
          | cancelled => exact dropped_ensures before copy _ _
          | elapsed => exact ih facts.1 facts.2 _ _

/-- What a fetch leaves: an archive that it hands over is a copy that is done, in its file. -/
def Fetched (crc32 : List UInt8 → UInt32) (done : Copy → Prop)
    (result : Option (Except FetchError FetchedArchive)) (files : Files)
    : Prop :=
  ∀ archive, result = some (.ok archive) → ∃ copy, done copy
    ∧ files archive.placement.id
      = some ⟨archive.placement.kind, archive.placement.size, copy.crc⟩
    ∧ archive.size = copy.crc.length ∧ archive.crc32 = crc32 copy.crc

variable (crc32 : List UInt8 → UInt32)

omit reading in
theorem held_fetched (sound : Sound kept copy files) (isDone : done copy) (download : Download)
    (verified : Verified) (verdict : Option String)
    : Fetched crc32 done (some (held crc32 copy download verified verdict)) files := by
  intro archive same
  unfold held at same
  split at same
  · cases same
  · rename_i placement isPlacement
    cases same
    exact ⟨copy, isDone, sound.file placement isPlacement, sound.received, rfl⟩

omit reading in
theorem verifyCopy_ensures (copy : Copy)
    : (verifyCopy copy).Ensures (contract bounded allowed) (fun _ after => after = files) files := by
  unfold verifyCopy
  cases copy.placement with
  | none => rfl
  | some placement =>
      refine Prog.Ensures.call trivial ?_
      intro verified last same
      cases verified with
      | none => exact same
      | some _ => exact same

omit reading in
theorem failed_ensures (copy : Copy) (error : FetchError)
    : (do
        dropCopy copy
        pure (some (.error error))
        : FetchProg (Option (Except FetchError FetchedArchive))).Ensures (contract bounded allowed)
          (Fetched crc32 done) files :=
  dropCopy_ensures copy nofun

theorem diagnose_ensures (maxRestarts patience fuel : ℕ)
    : ∀ {copy : Copy} {files : Files}, Sound (fun _ => none) copy files → done copy
      → ∀ (verified : Verified) (download : Download),
        (diagnose crc32 maxRestarts size patience fuel copy verified download).Ensures
          (contract bounded allowed) (Fetched crc32 done) files := by
  induction fuel with
  | zero =>
      intro copy files _ _ _ _
      exact nofun
  | succ fuel ih =>
      intro copy files sound isDone verified download
      rw [diagnose]
      split
      · exact held_fetched crc32 sound isDone _ _ _
      have fresh : Sound files .empty files :=
        ⟨nofun, rfl, fun _ => rfl, fun _ _ same => same, nofun⟩
      refine (downloadCopy_ensures reading maxRestarts patience fresh (reading.empty _ rfl) 0
        download).bind ?_
      rintro ⟨result, download⟩ after ⟨before, facts⟩
      have soundStill : Sound (fun _ => none) copy after :=
        ⟨fun placement isPlacement => before _ _ (sound.file placement isPlacement), sound.received,
          sound.empty, nofun, fun _ _ => rfl⟩
      match result with
      | none => exact nofun
      | some (.error error) => exact failed_ensures crc32 copy error
      | some (.ok second) =>
          obtain ⟨soundSecond, isDoneSecond⟩ := facts second rfl
          have soundSecond : Sound (fun _ => none) second after :=
            ⟨soundSecond.file, soundSecond.received, soundSecond.empty, nofun, fun _ _ => rfl⟩
          dsimp only
          split
          · refine dropCopy_ensures copy ?_
            split
            · exact failed_ensures crc32 second _
            refine (verifyCopy_ensures second).bind ?_
            rintro result last rfl
            cases result with
            | error error => exact failed_ensures crc32 second error
            | ok verified => exact ih soundSecond isDoneSecond verified _
          · refine (verifyCopy_ensures second).bind ?_
            rintro result last rfl
            cases result with
            | error error => exact dropCopy_ensures second (failed_ensures crc32 copy error)
            | ok again =>
                dsimp only
                split
                · exact dropCopy_ensures copy (held_fetched crc32 soundSecond isDoneSecond _ _ _)
                split
                · exact dropCopy_ensures second (held_fetched crc32 soundStill isDone _ _ _)
                · exact dropCopy_ensures second (failed_ensures crc32 copy _)

theorem fetch_ensures (maxRestarts patience : ℕ)
    : (fetch crc32 maxRestarts size patience).Ensures (contract bounded allowed)
        (Fetched crc32 done) (fun _ => none) := by
  have fresh : Sound (fun _ => none) .empty (fun _ => none) :=
    ⟨nofun, rfl, fun _ => rfl, nofun, nofun⟩
  unfold fetch
  refine (downloadCopy_ensures reading maxRestarts patience fresh (reading.empty _ rfl) 0
    _).bind ?_
  rintro ⟨result, download⟩ after ⟨_, facts⟩
  match result with
  | none => exact nofun
  | some (.error error) => exact nofun
  | some (.ok copy) =>
      obtain ⟨sound, isDone⟩ := facts copy rfl
      refine (verifyCopy_ensures copy).bind ?_
      rintro result last rfl
      cases result with
      | error error => exact failed_ensures crc32 copy error
      | ok verified => exact diagnose_ensures reading crc32 maxRestarts patience _ sound isDone verified _

end Attempts

end Rules

end MokuroBunko.Processor
