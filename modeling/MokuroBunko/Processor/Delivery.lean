import MokuroBunko.Processor.SpoolRuns

/-! What the fetches hand over, from a server whose answers carry the version that their ETag names.
-/

namespace MokuroBunko.Processor

open MokuroBunko.Lib

/-- The offset that an answer states. -/
def Answer.offset (answer : Answer) : Option ℕ :=
  if answer.status = 206 then (Processor.contentRange answer.contentRange).map Prod.fst else some 0

/-- The total that an answer states. -/
def Answer.stated (answer : Answer) : Option ℕ :=
  if answer.status = 206 then (Processor.contentRange answer.contentRange).bind (·.2.2) else answer.length

/-- The body has bytes of the version that the strong ETag names, at the offset that is stated. -/
def Carries (content : String → List UInt8) (answer : Answer) (_ : Copy) (body : Body) : Prop :=
  ∃ etag ∈ strongEtag answer.etag, ∃ start ∈ answer.offset,
    body.bytes <+: (content etag).drop start

/-- Besides, what is stated is the version's length, and the body of a whole answer, or of one that
states no total, ends as it should only with the version's last byte.
-/
def Honest (content : String → List UInt8) (answer : Answer) (_ : Copy) (body : Body) : Prop :=
  ∃ etag ∈ strongEtag answer.etag, ∃ start ∈ answer.offset,
    body.bytes <+: (content etag).drop start
      ∧ (∀ total ∈ answer.stated, total = (content etag).length)
      ∧ (body.ending = .clean → (answer.status = 206 → answer.stated = none)
        → start + body.bytes.length = (content etag).length)

instance (content : String → List UInt8) (answer : Answer) (copy : Copy) (body : Body)
    : Decidable (Carries content answer copy body) :=
  inferInstanceAs (Decidable (∃ etag ∈ strongEtag answer.etag, ∃ start ∈ answer.offset, _))

instance (content : String → List UInt8) (answer : Answer) (copy : Copy) (body : Body)
    : Decidable (Honest content answer copy body) :=
  inferInstanceAs (Decidable (∃ etag ∈ strongEtag answer.etag, ∃ start ∈ answer.offset, _))

/-- A copy that has bytes has the first bytes of the version that its ETag names. -/
def OneVersion (content : String → List UInt8) (copy : Copy) : Prop :=
  copy.crc ≠ [] → ∃ etag ∈ copy.etag, copy.crc <+: content etag

/-- The copy is a whole version. -/
def WholeVersion (content : String → List UInt8) (copy : Copy) : Prop :=
  ∃ etag ∈ copy.etag, copy.crc = content etag

theorem differs_eq_false {α : Type} [DecidableEq α] {first second : α}
    (same : differs (some first) (some second) = false)
    : first = second := by
  simpa [differs] using same

theorem append_prefix {bytes first more : List UInt8} (isFirst : first <+: bytes)
    (isMore : more <+: bytes.drop first.length)
    : first ++ more <+: bytes := by
  obtain ⟨rest, rfl⟩ := isFirst
  rw [List.drop_left] at isMore
  exact (List.prefix_append_right_inj first).mpr isMore

theorem complete_eq_ok {expected : Option ℕ} {copy after : Copy}
    (isComplete : complete expected copy = (.ok (), after))
    : after = { copy with total := some copy.received } ∧ ∀ total ∈ expected, copy.received = total := by
  unfold complete at isComplete
  cases expected with
  | none =>
      cases isComplete
      exact ⟨rfl, nofun⟩
  | some expected =>
      by_cases same : copy.received = expected
      · simp only [same, if_true, Prod.mk.injEq, true_and] at isComplete
        subst isComplete
        simp [same]
      · by_cases exceeds : expected < copy.received
        · simp [same, exceeds] at isComplete
        · simp [same, exceeds] at isComplete

section Versions

variable {content : String → List UInt8} {size : Option ℕ} {answer : Answer} {expected : Option ℕ}
  {copy : Copy} {body : Body}

theorem honest_part (taken : Taken size answer expected copy) (oneVersion : OneVersion content copy)
    (received : copy.received = copy.crc.length) (honest : Honest content answer copy body)
    : ∃ etag ∈ copy.etag, copy.crc ++ body.bytes <+: content etag
      ∧ (∀ total ∈ answer.stated, total = (content etag).length)
      ∧ (body.ending = .clean → (answer.status = 206 → answer.stated = none)
        → copy.crc.length + body.bytes.length = (content etag).length) := by
  obtain ⟨etag, isEtag, start, isStart, carried, stated, whole⟩ := honest
  cases taken with
  | @part _ last total status range resumes sameTotal sameEtag =>
      have started : copy.crc ≠ [] := by
        intro nothing
        rw [received, nothing] at resumes
        exact resumes rfl
      obtain ⟨version, isVersion, isPrefix⟩ := oneVersion started
      rw [Option.mem_def.mp isEtag, Option.mem_def.mp isVersion] at sameEtag
      obtain rfl := differs_eq_false sameEtag
      have isOffset : copy.received = start := by
        simpa [Answer.offset, status, range] using isStart
      rw [← isOffset, received] at carried whole
      exact ⟨etag, isVersion, append_prefix isPrefix carried, stated, whole⟩
  | whole status fresh sameEtag =>
      have isOffset : 0 = start := by
        simpa [Answer.offset, status] using isStart
      subst isOffset
      rw [fresh]
      exact ⟨etag, sameEtag ▸ isEtag, carried, stated, whole⟩

theorem reading_honest (content : String → List UInt8) (size : Option ℕ)
    : Reading False (Honest content) size (OneVersion content) (WholeVersion content) where
  empty := fun _ fresh filled => absurd fresh filled
  reads := by
    intro answer expected copy body part taken oneVersion received honest isPart _
    obtain ⟨etag, isEtag, isPrefix, _⟩ := honest_part taken oneVersion received honest
    refine ⟨etag, isEtag, ?_⟩
    exact ((List.prefix_append_right_inj copy.crc).mpr isPart).trans isPrefix
  fits := False.elim
  completes := by
    intro answer expected copy body after taken oneVersion received honest clean isComplete
    obtain ⟨etag, isEtag, isPrefix, stated, whole⟩ := honest_part taken oneVersion received honest
    obtain ⟨rfl, promised⟩ := complete_eq_ok isComplete
    -- The body has ended with the version, or the version's length was promised.
    have isLength : copy.crc.length + body.bytes.length = (content etag).length := by
      cases taken with
      | whole status _ _ => exact whole clean (fun partly => absurd partly status)
      | @part _ last total status range _ _ _ =>
          have isStated : answer.stated = total := by
            simp [Answer.stated, status, range]
          cases total with
          | none => exact whole clean (fun _ => isStated)
          | some total =>
              have isTotal := stated total isStated
              have isPromised : copy.received + body.bytes.length = total := promised total rfl
              omega
    refine ⟨etag, isEtag, isPrefix.eq_of_length ?_⟩
    rw [List.length_append]
    exact isLength

end Versions

namespace World

/-- What a fetch has come to, if it has. -/
def outcome (world : World) (index : ℕ) : Option (Option (Except FetchError FetchedArchive)) :=
  (world.fetches[index]?).bind Prog.result?

/-- Each archive handed over is a whole version, and its size and checksum are those of its bytes. -/
def Delivered (content : String → List UInt8) (crc32 : List UInt8 → UInt32) (world : World) : Prop :=
  ∀ index archive, world.outcome index = some (some (.ok archive))
    → ∃ etag, ∃ placement ∈ world.placements[archive.placement.id]?,
        placement.bytes = content etag ∧ archive.size = (content etag).length
          ∧ archive.crc32 = crc32 (content etag)

theorem Invariant.delivered {world : World} {bounded : Prop}
    {allowed : Answer → Copy → Body → Prop} {content : String → List UInt8}
    {crc32 : List UInt8 → UInt32}
    (holds : world.Invariant bounded allowed crc32 (WholeVersion content))
    : world.Delivered content crc32 := by
  intro index archive isResult
  obtain ⟨task, isTask, isDone⟩ := Option.bind_eq_some_iff.mp isResult
  have ensured := holds.fetches index task isTask
  cases task with
  | call asked next => cases isDone
  | done result =>
      cases isDone
      obtain ⟨copy, ⟨etag, _, isVersion⟩, isFile, isSize, isCrc⟩ := ensured archive rfl
      obtain ⟨placement, isPlacement, isBytes⟩ := Option.map_eq_some_iff.mp isFile
      refine ⟨etag, placement, (Option.filter_eq_some_iff.mp isPlacement).1, ?_, ?_, ?_⟩
      · rw [← isVersion]
        exact congrArg File.bytes isBytes
      · rw [isSize, isVersion]
      · rw [isCrc, isVersion]

/-- In a run in which all answers are honest, each archive handed over is one whole version. -/
theorem fetches_delivered {content : String → List UInt8} {crc32 : List UInt8 → UInt32}
    {maxRestarts budget : ℕ} {memoryEnabled : Bool} {taken : List SpoolStep}
    (orderly
      : Runs.Orderly (step crc32 maxRestarts) (Meets False (Honest content))
          (start budget memoryEnabled) taken)
    : (taken.foldl (step crc32 maxRestarts) (start budget memoryEnabled)).Delivered content crc32 :=
  have reading (size : Option ℕ)
      : ∃ good, Reading False (Honest content) size good (WholeVersion content) :=
    ⟨_, reading_honest content size⟩
  (orderly.invariant (step_invariant reading maxRestarts) (start_invariant budget memoryEnabled)).delivered

/-- Two versions of a file. -/
def versions (etag : String) : List UInt8 :=
  if etag = "\"v1\"" then [1, 2, 3] else [4, 5, 6, 7]

/-- The download of a copy whose size nobody states, up to the first body, and what follows. -/
def firstBody (body : Body) (rest : List SpoolStep) : List SpoolStep :=
  [
    .begin none 3,
    .advance 0 (.cancelled false),
    .advance 0 (.sent (.answered ⟨200, false, some "\"v1\"", none, none⟩)),
    .advance 0 (.placed ⟨none, true, some (2 ^ 30), true⟩),
    .advance 0 (.body body),
    .advance 0 .written
  ]
    ++ rest

/-- The connection breaks, the version changes, and the next answer brings the new one. -/
def changedVersion : List SpoolStep :=
  firstBody ⟨[[1, 2]], .failed⟩
    [
      .advance 0 (.cancelled false),
      .advance 0 (.waited .elapsed),
      .advance 0 (.cancelled false),
      .advance 0 (.sent (.answered ⟨200, false, some "\"v2\"", some "4", none⟩)),
      .advance 0 (.reset true),
      .advance 0 .dropped,
      .advance 0 (.placed ⟨none, true, some (2 ^ 30), true⟩),
      .advance 0 (.body ⟨[[4, 5, 6], [7]], .clean⟩),
      .advance 0 .written,
      .advance 0 (.verified (some ⟨1, [], none⟩))
    ]

theorem fetches_delivered_changed
    : (changedVersion.foldl (step (fun _ => 0) 3) (start (2 ^ 30) true)).Delivered versions
        (fun _ => 0) :=
  fetches_delivered (by decide +kernel)

def cutEarly : List SpoolStep :=
  firstBody ⟨[[1, 2]], .clean⟩ [.advance 0 (.verified (some ⟨1, [], none⟩))]

/-- Two bytes of three are handed over. -/
theorem not_fetches_delivered_cut
    : Runs.Orderly (step (fun _ => 0) 3) (Meets False (Carries versions)) (start (2 ^ 30) true)
        cutEarly
      ∧ ¬ (cutEarly.foldl (step (fun _ => 0) 3) (start (2 ^ 30) true)).Delivered versions
          (fun _ => 0) := by
  refine ⟨by decide +kernel, ?_⟩
  intro delivered
  have isResult
      : ∃ archive, (cutEarly.foldl (step (fun _ => 0) 3) (start (2 ^ 30) true)).outcome 0
            = some (some (.ok archive))
          ∧ archive.size = 2 :=
    ⟨_, rfl, rfl⟩
  obtain ⟨archive, isResult, isSize⟩ := isResult
  obtain ⟨etag, placement, _, _, sameSize, _⟩ := delivered 0 archive isResult
  rw [isSize, versions] at sameSize
  split at sameSize <;> cases sameSize

end World

end MokuroBunko.Processor
