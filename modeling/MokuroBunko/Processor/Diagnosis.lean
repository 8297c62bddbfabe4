import MokuroBunko.Processor.Fetch

/-! What a fetch may say of an archive, over every run of it: what was downloaded and checked before it
blames the library, hands an archive over, or gives it up because two copies differ.
-/

namespace MokuroBunko.Processor

open MokuroBunko.Lib MokuroBunko.Lib.Prog

/-- The calls of a run, with their answers. -/
abbrev Trace := List (Sigma FetchCall.Reply)

abbrev free : Contract FetchCall FetchCall.Reply Unit := anything FetchCall FetchCall.Reply

-- One request

/-- Another error than that two copies differ. -/
def FetchError.Plain (error : FetchError) : Prop :=
  ∀ fault, error = .fault fault → fault.kind ≠ "differs"

/-- A failure is none of copies that differ. -/
def Attempt.Plain (attempt : Attempt) : Prop := ∀ error, attempt = .fail error → error.Plain

/-- A result that does not say that copies differ. -/
def Underway (result : Except Attempt Unit × Copy) : Prop :=
  ∀ attempt, result.1 = .error attempt → attempt.Plain

/-- Besides, a copy that is complete has its length as its total. -/
structure Trying (result : Except Attempt Unit × Copy) : Prop where
  plain : Underway result
  complete : result.1 = .ok () → result.2.total = some result.2.received

theorem localFault_plain : localFault.Plain := by
  rintro fault ⟨⟩
  decide

theorem Download.fault_plain (download : Download) {kind : String} (copy : Copy)
    (other : kind ≠ "differs")
    : (download.fault kind copy).Plain := by
  rintro fault ⟨⟩
  exact other

theorem Answer.fault_plain (answer : Answer) (download : Download) {kind : String}
    (other : kind ≠ "differs")
    : (answer.fault download kind).Plain := by
  rintro fault ⟨⟩
  exact other

theorem SpoolError.fault_plain (error : SpoolError) (download : Download) (copy : Copy)
    : (error.fault download copy).Plain := by
  cases error <;> exact download.fault_plain copy (by decide)

theorem underway_ok (copy : Copy) : Underway (.ok (), copy) := nofun

theorem underway_fail {error : FetchError} (plain : error.Plain) (copy : Copy)
    : Underway (.error (.fail error), copy) := by
  rintro _ ⟨⟩ _ ⟨⟩
  exact plain

theorem underway_transport (serverError : Bool) (copy : Copy)
    : Underway (.error (.transport serverError), copy) := by
  rintro _ ⟨⟩ _ ⟨⟩

theorem underway_restart (copy : Copy) : Underway (.error .restart, copy) := by
  rintro _ ⟨⟩ _ ⟨⟩

theorem underway_replaced (copy : Copy) : Underway (.error .replaced, copy) := by
  rintro _ ⟨⟩ _ ⟨⟩

theorem cancelled_plain : FetchError.cancelled.Plain := by
  rintro _ ⟨⟩

theorem Underway.trying {attempt : Attempt} {copy : Copy} (underway : Underway (.error attempt, copy))
    : Trying (.error attempt, copy) :=
  ⟨underway, nofun⟩

theorem flush_plain (download : Download) (copy : Copy) (data : List UInt8)
    : (flush download copy data).Ensures free (fun result _ => Underway result) () := by
  unfold flush
  split
  · exact underway_ok copy
  split
  · exact underway_fail localFault_plain copy
  refine Prog.Ensures.call trivial fun reply _ _ => ?_
  cases reply with
  | ok _ => exact underway_ok _
  | error error =>
      cases error with
      | io =>
          refine Prog.Ensures.call trivial fun _ _ _ => ?_
          exact underway_fail (download.fault_plain _ (by decide)) _
      | full =>
          refine Prog.Ensures.call trivial fun _ _ _ => ?_
          dsimp only
          split
          · refine Prog.Ensures.call trivial fun moved _ _ => ?_
            cases moved with
            | ok moved => exact underway_replaced _
            | error error => exact underway_fail (error.fault_plain download _) _
          · exact underway_fail (download.fault_plain _ (by decide)) _

theorem endBody_plain (download : Download) (copy : Copy) (ending : Ending) (buffer : List UInt8)
    : (endBody download copy ending buffer).Ensures free (fun result _ => Underway result) () := by
  cases ending with
  | cancelled => exact underway_fail cancelled_plain copy
  | clean => exact flush_plain download copy buffer
  | timedOut =>
      refine (flush_plain download copy buffer).bind ?_
      rintro ⟨result, after⟩ _ underway
      cases result with
      | ok _ => exact underway_transport false _
      | error error => exact underway
  | failed =>
      refine (flush_plain download copy buffer).bind ?_
      rintro ⟨result, after⟩ _ underway
      cases result with
      | ok _ =>
          refine Prog.Ensures.call trivial fun cancelled _ _ => ?_
          split
          · exact underway_fail cancelled_plain _
          · exact underway_transport false _
      | error error => exact underway

theorem readBody_plain (download : Download) (ending : Ending) (chunks : List (List UInt8))
    (copy : Copy) (buffer : List UInt8)
    : (readBody download ending chunks copy buffer).Ensures free
        (fun result _ => Underway result) () := by
  induction chunks generalizing copy buffer with
  | nil => exact endBody_plain download copy ending buffer
  | cons chunk rest ih =>
      rw [readBody]
      split
      · refine (flush_plain download copy (buffer ++ chunk)).bind ?_
        rintro ⟨result, after⟩ _ underway
        cases result with
        | ok _ => exact ih after []
        | error error => exact underway
      · exact ih copy (buffer ++ chunk)

theorem complete_trying (expected : Option ℕ) (copy : Copy) : Trying (complete expected copy) := by
  unfold complete
  split
  · exact ⟨underway_ok _, fun _ => rfl⟩
  split
  · exact ⟨underway_ok _, fun _ => rfl⟩
  split
  · exact (underway_restart copy).trying
  · exact (underway_transport false copy).trying

theorem takeBody_trying (size : Option ℕ) (download : Download) (answer : Answer)
    (expected : Option ℕ) (copy : Copy)
    : (takeBody size download answer expected copy).Ensures free (fun result _ => Trying result) () := by
  have reads {copy : Copy} {placement : Handle} (placed : copy.placement = some placement)
      : (takeBody size download answer expected copy).Ensures free
          (fun result _ => Trying result) () := by
    unfold takeBody
    rw [placed]
    refine Prog.Ensures.call trivial fun body _ _ => ?_
    refine (readBody_plain ..).bind ?_
    rintro ⟨result, after⟩ _ underway
    cases result with
    | ok _ => exact complete_trying expected after
    | error error => exact underway.trying
  rcases placed : copy.placement with _ | placement
  · unfold takeBody
    rw [placed]
    refine Prog.Ensures.call trivial fun reply _ _ => ?_
    cases reply with
    | ok placement => exact @reads { copy with placement := some placement } placement rfl
    | error error => exact (underway_fail (error.fault_plain download copy) copy).trying
  · exact reads placed

theorem takeAnswer_trying (size : Option ℕ) (download : Download) (answer : Answer)
    (expected : Option ℕ) (copy : Copy)
    : (takeAnswer size download answer expected copy).Ensures free
        (fun result _ => Trying result) () := by
  unfold takeAnswer
  split
  · have mismatch : FetchError.Plain
        (.fault ⟨"mismatch", some answer.status, 0, expected, download.requests⟩) := by
      rintro fault ⟨⟩
      exact (by decide : "mismatch" ≠ "differs")
    exact (underway_fail mismatch copy).trying
  · exact takeBody_trying ..

theorem takeWhole_trying (size : Option ℕ) (download : Download) (answer : Answer) (copy : Copy)
    : (takeWhole size download answer copy).Ensures free (fun result _ => Trying result) () := by
  unfold takeWhole
  rcases copy.placement with _ | placement
  · exact takeAnswer_trying ..
  · dsimp only
    split
    · refine Prog.Ensures.call trivial fun _ _ _ => ?_
      exact takeAnswer_trying ..
    · exact takeAnswer_trying ..

theorem resetCopy_plain (copy : Copy)
    : (resetCopy copy).Ensures free
        (fun result _ => ∀ error, result = .error error → error.Plain) () := by
  unfold resetCopy
  split
  · exact nofun
  · refine Prog.Ensures.call trivial fun worked _ _ => ?_
    split
    · exact nofun
    · refine Prog.Ensures.call trivial fun _ _ _ => ?_
      rintro _ ⟨⟩
      exact localFault_plain

/-- As many restarts as there were, and no more than there may be. -/
structure Within (least most : ℕ) (download : Download) : Prop where
  least : least ≤ download.restarts
  most : download.restarts ≤ most

theorem restart_eq_ok {download counted : Download} {maxRestarts : ℕ} {noRange : Bool} {copy : Copy}
    (restarted : download.restart maxRestarts noRange copy = .ok counted)
    : counted.restarts = download.restarts + 1 ∧ counted.restarts ≤ maxRestarts := by
  unfold Download.restart at restarted
  by_cases past : maxRestarts < download.restarts + 1
  · simp only [past, if_true] at restarted
    generalize (download.noRangeRestarts + if noRange then 1 else 0) = same at restarted
    split at restarted <;> cases restarted
  · simp only [past, if_false] at restarted
    obtain rfl := Except.ok.inj restarted
    exact ⟨rfl, not_lt.mp past⟩

theorem Within.restart {least maxRestarts : ℕ} {download counted : Download} {noRange : Bool}
    {copy : Copy} (few : Within least maxRestarts download)
    (restarted : download.restart maxRestarts noRange copy = .ok counted)
    : Within least maxRestarts counted := by
  obtain ⟨more, most⟩ := restart_eq_ok restarted
  exact ⟨by have := few.least; omega, most⟩

theorem restart_eq_error {download : Download} {error : FetchError} {maxRestarts : ℕ}
    {noRange : Bool} {copy : Copy}
    (refused : download.restart maxRestarts noRange copy = .error error)
    : error.Plain := by
  unfold Download.restart at refused
  by_cases past : maxRestarts < download.restarts + 1
  · simp only [past, if_true] at refused
    generalize (download.noRangeRestarts + if noRange then 1 else 0) = same at refused
    split at refused
    · obtain rfl := Except.error.inj refused
      exact Download.fault_plain _ copy (by decide)
    · obtain rfl := Except.error.inj refused
      exact Download.fault_plain _ copy (by decide)
  · simp only [past, if_false] at refused
    cases refused

theorem refused_plain {answer : Answer} {download : Download} {attempt : Attempt}
    (refused : answer.refused download = some attempt)
    : attempt.Plain := by
  unfold Answer.refused at refused
  split_ifs at refused
  · obtain rfl := Option.some.inj refused
    rintro _ ⟨⟩
    exact answer.fault_plain download (by decide)
  · obtain rfl := Option.some.inj refused
    rintro _ ⟨⟩ _ ⟨⟩
  · obtain rfl := Option.some.inj refused
    rintro _ ⟨⟩
    exact answer.fault_plain download (by decide)
  · obtain rfl := Option.some.inj refused
    rintro _ ⟨⟩
  · obtain rfl := Option.some.inj refused
    rintro _ ⟨⟩
  · obtain rfl := Option.some.inj refused
    rintro _ ⟨⟩
    exact answer.fault_plain download (by decide)

theorem partialTotal_plain {copy : Copy} {answer : Answer} {attempt : Attempt}
    (refused : partialTotal copy answer = .error attempt)
    : attempt.Plain := by
  unfold partialTotal at refused
  split at refused
  · obtain rfl := Except.error.inj refused
    rintro _ ⟨⟩
  · split_ifs at refused
    · obtain rfl := Except.error.inj refused
      rintro _ ⟨⟩
    · obtain rfl := Except.error.inj refused
      rintro _ ⟨⟩

/-- What an attempt ends with, its restarts within those there may be. -/
structure AttemptEnds (least maxRestarts : ℕ) (result : Except Attempt Unit × Copy × Download)
    : Prop where
  trying : Trying (result.1, result.2.1)
  restarts : Within least maxRestarts result.2.2

theorem attempt_ends {least maxRestarts : ℕ} (size : Option ℕ) (copy : Copy) {download : Download}
    (few : Within least maxRestarts download)
    : (attempt maxRestarts size copy download).Ensures free
        (fun result _ => AttemptEnds least maxRestarts result) () := by
  have ended {attempt : Attempt} (plain : attempt.Plain) (copy : Copy) {counted : Download}
      (few : Within least maxRestarts counted)
      : AttemptEnds least maxRestarts (.error attempt, copy, counted) := by
    refine ⟨⟨?_, nofun⟩, few⟩
    rintro _ ⟨⟩
    exact plain
  have cancelled : (Attempt.fail .cancelled).Plain := by
    rintro _ ⟨⟩
    exact cancelled_plain
  have transport : (Attempt.transport false).Plain := by
    rintro _ ⟨⟩
  replace few : Within least maxRestarts { download with requests := download.requests + 1 } :=
    ⟨few.least, few.most⟩
  unfold attempt
  refine Prog.Ensures.call trivial fun sent _ _ => ?_
  cases sent with
  | cancelled => exact ended cancelled copy few
  | timedOut => exact ended transport copy few
  | failed =>
      refine Prog.Ensures.call trivial fun stop _ _ => ?_
      split
      · exact ended cancelled copy few
      · exact ended transport copy few
  | answered answer =>
      dsimp only
      split
      · rename_i refused
        exact ended (refused_plain refused) copy few
      split
      · split
        · rename_i refused
          exact ended (partialTotal_plain refused) copy few
        · refine (takeAnswer_trying ..).bind ?_
          intro result _ tried
          exact ⟨tried, few⟩
      split
      · refine (takeWhole_trying ..).bind ?_
        intro result _ tried
        exact ⟨tried, few⟩
      split
      · rename_i refused
        refine ended ?_ copy few
        rintro _ ⟨⟩
        exact restart_eq_error refused
      · rename_i counted restarted
        refine (resetCopy_plain copy).bind ?_
        intro result _ plain
        cases result with
        | error error =>
            refine ended ?_ _ (few.restart restarted)
            rintro _ ⟨⟩
            exact plain error rfl
        | ok copy =>
            refine (takeWhole_trying ..).bind ?_
            intro result _ tried
            exact ⟨tried, few.restart restarted⟩

-- One copy

/-- What the download of a copy ends with. -/
structure CopyEnds (least maxRestarts : ℕ) (result : Option (Except FetchError Copy) × Download)
    : Prop where
  complete : ∀ copy, result.1 = some (.ok copy) → copy.total = some copy.received
  plain : ∀ error, result.1 = some (.error error) → error.Plain
  restarts : Within least maxRestarts result.2

theorem copyEnds_error {least maxRestarts : ℕ} {error : FetchError} {download : Download}
    (plain : error.Plain) (few : Within least maxRestarts download)
    : CopyEnds least maxRestarts (some (.error error), download) := by
  refine ⟨nofun, ?_, few⟩
  rintro _ ⟨⟩
  exact plain

theorem dropCopy_free {α : Type} {post : α → Unit → Prop} (copy : Copy) {rest : FetchProg α}
    (continues : rest.Ensures free post ())
    : (dropCopy copy >>= fun _ => rest).Ensures free post () := by
  unfold dropCopy
  cases copy.placement with
  | none => exact continues
  | some placement => exact Prog.Ensures.call trivial fun _ _ _ => continues

theorem downloadCopy_ends {least maxRestarts : ℕ} (size : Option ℕ) (fuel : ℕ) (copy : Copy)
    (serverErrors : ℕ) {download : Download} (few : Within least maxRestarts download)
    : (downloadCopy maxRestarts size fuel copy serverErrors download).Ensures free
        (fun result _ => CopyEnds least maxRestarts result) () := by
  induction fuel generalizing copy serverErrors download with
  | zero => exact ⟨nofun, nofun, few⟩
  | succ fuel ih =>
      rw [downloadCopy]
      refine Prog.Ensures.call trivial fun stop _ _ => ?_
      split
      · exact dropCopy_free copy (copyEnds_error cancelled_plain few)
      refine (attempt_ends size copy few).bind ?_
      rintro ⟨result, copy, download⟩ _ ⟨⟨plain, complete⟩, few⟩
      match result with
      | .ok _ =>
          refine ⟨?_, nofun, few⟩
          rintro _ ⟨⟩
          exact complete rfl
      | .error .replaced => exact ih copy serverErrors few
      | .error .restart =>
          dsimp only
          split
          · rename_i refused
            exact dropCopy_free copy (copyEnds_error (restart_eq_error refused) few)
          · rename_i counted restarted
            refine (resetCopy_plain copy).bind ?_
            intro result _ plain
            cases result with
            | error error => exact copyEnds_error (plain error rfl) (few.restart restarted)
            | ok copy => exact ih _ serverErrors (few.restart restarted)
      | .error (.fail error) =>
          exact dropCopy_free copy (copyEnds_error (plain _ rfl error rfl) few)
      | .error (.transport serverError) =>
          dsimp only
          generalize (if serverError = true then serverErrors + 1 else 0) = errors
          split
          · have stalled : FetchError.Plain
                (.fault ⟨"stalled", some 500, copy.received, copy.total, download.requests⟩) := by
              rintro _ ⟨⟩
              exact (by decide : "stalled" ≠ "differs")
            refine dropCopy_free copy ?_
            exact copyEnds_error stalled few
          · refine Prog.Ensures.call trivial fun waited _ _ => ?_
            cases waited with
            | stalled =>
                exact dropCopy_free copy (copyEnds_error (download.fault_plain copy (by decide)) few)
            | cancelled => exact dropCopy_free copy (copyEnds_error cancelled_plain few)
            | elapsed => exact ih copy _ few

-- The diagnosis

/-- Calls that only give placements back. -/
def Drops (trace : Trace) : Prop := ∀ call ∈ trace, ∃ id, call.1 = .drop id

section

variable (maxRestarts : ℕ) (size : Option ℕ) (patience : ℕ)

/-- The calls are those of one download, which ended so, all restarts within those there may be. -/
def Downloads (trace : Trace) (result : Option (Except FetchError Copy)) : Prop :=
  ∃ before after,
    (downloadCopy maxRestarts size patience .empty 0 before).Run trace (result, after)
      ∧ before.restarts ≤ maxRestarts ∧ after.restarts ≤ maxRestarts

/-- The run ends with the download of a complete copy, and then its check. -/
structure Checked (trace : Trace) (copy : Copy) (verified : Verified) : Prop where
  complete : copy.total = some copy.received
  run : ∃ before download drops placement,
    trace = before ++ download ++ drops ++ [⟨.verify placement.id, some verified⟩]
      ∧ Downloads maxRestarts size patience download (some (.ok copy)) ∧ Drops drops
      ∧ copy.placement = some placement

/-- Two complete copies of one version, downloaded and checked one after the other, both fail. -/
structure BothFail (trace : Trace) (first second : Copy) : Prop where
  runs : ∃ firstRun secondRun drops one other,
    trace = firstRun ++ secondRun ++ drops ∧ Drops drops
      ∧ Checked maxRestarts size patience firstRun first one ∧ one.ok = false
      ∧ Checked maxRestarts size patience secondRun second other ∧ other.ok = false
  etag : first.etag = second.etag
  total : first.total = second.total

/-- What a run of a fetch allows its result to say. -/
structure Diagnosed (crc32 : List UInt8 → UInt32) (trace : Trace)
    (result : Option (Except FetchError FetchedArchive))
    : Prop where
  damaged : ∀ archive, result = some (.ok archive) → archive.verdict ≠ none →
    ∃ first second, BothFail maxRestarts size patience trace first second
      ∧ first.received = second.received ∧ crc32 first.crc = crc32 second.crc
      ∧ first.placement = some archive.placement ∧ archive.size = first.received
      ∧ archive.crc32 = crc32 first.crc
  checked : ∀ archive, result = some (.ok archive) → archive.verdict = none →
    ∃ copy verified run drops, trace = run ++ drops ∧ Drops drops
      ∧ Checked maxRestarts size patience run copy verified ∧ verified.ok = true
      ∧ copy.placement = some archive.placement ∧ archive.size = copy.received
      ∧ archive.crc32 = crc32 copy.crc
  differs : ∀ fault, result = some (.error (.fault fault)) → fault.kind = "differs" →
    ∃ first second, BothFail maxRestarts size patience trace first second
      ∧ ¬(first.received = second.received ∧ crc32 first.crc = crc32 second.crc)
  restarts : ∀ archive, result = some (.ok archive) → archive.restarts ≤ maxRestarts

/-- Some download of the run did not end within the requests there may be. -/
def Exhausted (trace : Trace) : Prop :=
  ∃ before download after, trace = before ++ download ++ after
    ∧ Downloads maxRestarts size patience download none

end

theorem Drops.nil : Drops [] := List.forall_mem_nil _

theorem dropCopy_run {copy : Copy} {trace : Trace} {result : Unit}
    (run : (dropCopy copy).Run trace result)
    : Drops trace := by
  unfold dropCopy at run
  rcases isAt : copy.placement with _ | placement
  · rw [isAt] at run
    obtain ⟨rfl, -⟩ := run_pure_iff.mp run
    exact .nil
  · rw [isAt] at run
    cases run with
    | call _ _ reply after _ rest =>
        cases rest
        intro call isIn
        rw [List.mem_singleton.mp isIn]
        exact ⟨placement.id, rfl⟩

theorem verifyCopy_run {copy : Copy} {trace : Trace} {result : Except FetchError Verified}
    (run : (verifyCopy copy).Run trace result)
    : (∀ error, result = .error error → error.Plain)
      ∧ ∀ verified, result = .ok verified → ∃ placement, copy.placement = some placement
        ∧ trace = [⟨.verify placement.id, some verified⟩] := by
  unfold verifyCopy at run
  rcases isAt : copy.placement with _ | placement
  · rw [isAt] at run
    obtain ⟨-, rfl⟩ := run_pure_iff.mp run
    refine ⟨?_, nofun⟩
    rintro _ ⟨⟩
    exact localFault_plain
  · rw [isAt] at run
    obtain ⟨reply, after, rfl, rest⟩ := run_ask_iff.mp run
    cases reply with
    | none =>
        obtain ⟨rfl, rfl⟩ := run_pure_iff.mp rest
        refine ⟨?_, nofun⟩
        rintro _ ⟨⟩
        exact cancelled_plain
    | some verified =>
        obtain ⟨rfl, rfl⟩ := run_pure_iff.mp rest
        refine ⟨nofun, ?_⟩
        rintro _ ⟨⟩
        exact ⟨placement, rfl, rfl⟩

theorem Drops.append {first second : Trace} (isFirst : Drops first) (isSecond : Drops second)
    : Drops (first ++ second) := by
  intro call isIn
  rcases List.mem_append.mp isIn with known | new
  · exact isFirst call known
  · exact isSecond call new

section

variable {maxRestarts : ℕ} {size : Option ℕ} {patience : ℕ} {crc32 : List UInt8 → UInt32}

theorem diagnosed_error {error : FetchError} (plain : error.Plain) (trace : Trace)
    : Diagnosed maxRestarts size patience crc32 trace (some (.error error)) where
  damaged := nofun
  checked := nofun
  differs := by
    rintro fault ⟨⟩ same
    exact absurd same (plain fault rfl)
  restarts := nofun

theorem diagnosed_none (trace : Trace) : Diagnosed maxRestarts size patience crc32 trace none :=
  ⟨nofun, nofun, nofun, nofun⟩

theorem Checked.later {trace : Trace} {copy : Copy} {verified : Verified}
    (checked : Checked maxRestarts size patience trace copy verified) (earlier : Trace)
    : Checked maxRestarts size patience (earlier ++ trace) copy verified := by
  obtain ⟨complete, before, download, drops, placement, rfl, facts⟩ := checked
  exact ⟨complete, earlier ++ before, download, drops, placement, by simp, facts⟩

theorem diagnosed_held {run drops : Trace} {copy : Copy} {verified : Verified} {download : Download}
    (checked : Checked maxRestarts size patience run copy verified) (isOk : verified.ok = true)
    (only : Drops drops) (few : download.restarts ≤ maxRestarts)
    : Diagnosed maxRestarts size patience crc32 (run ++ drops)
        (some (held crc32 copy download verified none)) := by
  obtain ⟨-, -, -, placement, -, -, -, isAt⟩ := checked.run
  simp only [held, isAt]
  refine ⟨?_, ?_, nofun, ?_⟩
  · rintro _ ⟨⟩ marked
    exact absurd rfl marked
  · rintro _ ⟨⟩ -
    exact ⟨copy, verified, run, drops, rfl, only, checked, isOk, isAt, rfl, rfl⟩
  · rintro _ ⟨⟩
    exact few

theorem checked_of_runs {before after : Download} {download drops check : Trace} {copy : Copy}
    {verified : Verified} (few : Within 0 maxRestarts before)
    (isDownload : (downloadCopy maxRestarts size patience .empty 0 before).Run download
      (some (.ok copy), after))
    (only : Drops drops) (isCheck : (verifyCopy copy).Run check (.ok verified))
    : Checked maxRestarts size patience (download ++ drops ++ check) copy verified := by
  have ends := (downloadCopy_ends size patience .empty 0 few).run isDownload
  obtain ⟨placement, isAt, rfl⟩ := (verifyCopy_run isCheck).2 verified rfl
  exact ⟨ends.complete copy rfl, [], download, drops, placement, by simp,
    ⟨_, _, isDownload, few.most, ends.restarts.most⟩, only, isAt⟩

/-- What a turn of the loop leaves: a result that is diagnosed, once downloads end. -/
def Settles (maxRestarts : ℕ) (size : Option ℕ) (patience : ℕ) (crc32 : List UInt8 → UInt32)
    (enough : Prop) (trace : Trace) (result : Option (Except FetchError FetchedArchive))
    : Prop :=
  Diagnosed maxRestarts size patience crc32 trace result
    ∧ (enough → result = none → Exhausted maxRestarts size patience trace)

theorem settles_error {enough : Prop} {error : FetchError} (plain : error.Plain) (trace : Trace)
    : Settles maxRestarts size patience crc32 enough trace (some (.error error)) :=
  ⟨diagnosed_error plain trace, nofun⟩

theorem bothFail_of_checked {earlier later drops : Trace} {first second : Copy} {one other : Verified}
    (isFirst : Checked maxRestarts size patience earlier first one) (fails : ¬one.ok = true)
    (isSecond : Checked maxRestarts size patience later second other) (failsToo : ¬other.ok = true)
    (only : Drops drops) (same : ¬(second.etag ≠ first.etag ∨ second.total ≠ first.total))
    : BothFail maxRestarts size patience (earlier ++ (later ++ drops)) first second := by
  rw [not_or, not_not, not_not] at same
  exact {
    runs := ⟨earlier, later, drops, one, other, by simp, only, isFirst, by simpa using fails, isSecond,
      by simpa using failsToo⟩
    etag := same.1.symm
    total := same.2.symm
  }

theorem diagnosed_damaged {trace : Trace} {first second : Copy} {verified : Verified}
    {download : Download} {placement : Handle} (isAt : first.placement = some placement)
    (both : BothFail maxRestarts size patience trace first second)
    (same : second.received = first.received ∧ crc32 second.crc = crc32 first.crc)
    (few : download.restarts ≤ maxRestarts)
    : Diagnosed maxRestarts size patience crc32 trace
        (some (held crc32 first download verified (some "damaged at the library"))) := by
  simp only [held, isAt]
  refine ⟨?_, ?_, nofun, ?_⟩
  · rintro _ ⟨⟩ -
    exact ⟨first, second, both, same.1.symm, same.2.symm, isAt, rfl, rfl⟩
  · rintro _ ⟨⟩ unmarked
    cases unmarked
  · rintro _ ⟨⟩
    exact few

/-- The loop over copies that fail, by induction on how many there may be: `earlier` are the calls up
to the check of the copy in hand.
-/
theorem diagnose_settles (fuel : ℕ) {copy : Copy} {verified : Verified} {download : Download}
    {earlier trace : Trace} {result : Option (Except FetchError FetchedArchive)}
    (few : Within 0 maxRestarts download)
    (checked : Checked maxRestarts size patience earlier copy verified)
    (run : (diagnose crc32 maxRestarts size patience fuel copy verified download).Run trace result)
    : Settles maxRestarts size patience crc32 (maxRestarts - download.restarts < fuel)
        (earlier ++ trace) result := by
  induction fuel generalizing copy verified download earlier trace with
  | zero =>
      obtain ⟨rfl, rfl⟩ := run_pure_iff.mp run
      exact ⟨diagnosed_none _, fun enough => absurd enough (Nat.not_lt_zero _)⟩
  | succ fuel ih =>
      rw [diagnose] at run
      split at run
      · rename_i isOk
        obtain ⟨rfl, rfl⟩ := run_pure_iff.mp run
        exact ⟨diagnosed_held checked isOk .nil few.most, nofun⟩
      rename_i fails
      obtain ⟨second, rest, ⟨outcome, counted⟩, rfl, isDownload, run⟩ := run_bind_iff.mp run
      have ends := (downloadCopy_ends size patience .empty 0
        (⟨le_rfl, few.most⟩ : Within download.restarts maxRestarts download)).run isDownload
      match outcome with
      | none =>
          obtain ⟨rfl, rfl⟩ := run_pure_iff.mp run
          exact ⟨diagnosed_none _, fun _ _ => ⟨earlier, second, [], by simp, _, _, isDownload, few.most,
            ends.restarts.most⟩⟩
      | some (.error error) =>
          obtain ⟨_, _, _, rfl, -, run⟩ := run_bind_iff.mp run
          obtain ⟨-, rfl⟩ := run_pure_iff.mp run
          exact settles_error (ends.plain error rfl) _
      | some (.ok next) =>
          have few' : Within 0 maxRestarts counted := ⟨Nat.zero_le _, ends.restarts.most⟩
          dsimp only at run
          split at run
          · -- The file changed between the copies: the second is the one to check next.
            obtain ⟨drops, rest, _, rfl, isDrop, run⟩ := run_bind_iff.mp run
            have only := dropCopy_run isDrop
            split at run
            · rename_i refused
              obtain ⟨_, _, _, rfl, -, run⟩ := run_bind_iff.mp run
              obtain ⟨-, rfl⟩ := run_pure_iff.mp run
              exact settles_error (restart_eq_error refused) _
            · rename_i restarted redone
              obtain ⟨check, rest, checkedNext, rfl, isCheck, run⟩ := run_bind_iff.mp run
              match checkedNext with
              | .error error =>
                  obtain ⟨_, _, _, rfl, -, run⟩ := run_bind_iff.mp run
                  obtain ⟨-, rfl⟩ := run_pure_iff.mp run
                  exact settles_error ((verifyCopy_run isCheck).1 error rfl) _
              | .ok again =>
                  have following := ih (few'.restart redone)
                    ((checked_of_runs few isDownload only isCheck).later earlier) run
                  have joined : earlier ++ (second ++ (drops ++ (check ++ rest)))
                      = earlier ++ (second ++ drops ++ check) ++ rest := by simp
                  rw [joined]
                  refine ⟨following.1, fun enough => following.2 ?_⟩
                  obtain ⟨one, most⟩ := restart_eq_ok redone
                  have least := ends.restarts.least
                  simp only at least
                  omega
          · rename_i unchanged
            obtain ⟨check, rest, checkedNext, rfl, isCheck, run⟩ := run_bind_iff.mp run
            match checkedNext with
            | .error error =>
                obtain ⟨_, _, _, rfl, -, run⟩ := run_bind_iff.mp run
                obtain ⟨_, _, _, rfl, -, run⟩ := run_bind_iff.mp run
                obtain ⟨-, rfl⟩ := run_pure_iff.mp run
                exact settles_error ((verifyCopy_run isCheck).1 error rfl) _
            | .ok again =>
                have checkedSecond := checked_of_runs few isDownload .nil isCheck
                rw [List.append_nil] at checkedSecond
                dsimp only at run
                split at run
                · rename_i isOk
                  obtain ⟨drops, rest, _, rfl, isDrop, run⟩ := run_bind_iff.mp run
                  obtain ⟨rfl, rfl⟩ := run_pure_iff.mp run
                  have joined : earlier ++ (second ++ (check ++ (drops ++ [])))
                      = earlier ++ (second ++ check) ++ drops := by simp
                  rw [joined]
                  exact ⟨diagnosed_held (checkedSecond.later earlier) isOk (dropCopy_run isDrop)
                    few'.most, nofun⟩
                rename_i failsToo
                split at run
                · rename_i same
                  obtain ⟨drops, rest, _, rfl, isDrop, run⟩ := run_bind_iff.mp run
                  obtain ⟨rfl, rfl⟩ := run_pure_iff.mp run
                  obtain ⟨-, -, -, placement, -, -, -, isAt⟩ := checked.run
                  have both := bothFail_of_checked checked fails checkedSecond failsToo
                    (dropCopy_run isDrop) unchanged
                  rw [List.append_nil, ← List.append_assoc second]
                  exact ⟨diagnosed_damaged isAt both same few'.most, nofun⟩
                · rename_i other
                  obtain ⟨drops, rest, _, rfl, isDrop, run⟩ := run_bind_iff.mp run
                  obtain ⟨last, rest, _, rfl, isLast, run⟩ := run_bind_iff.mp run
                  obtain ⟨rfl, rfl⟩ := run_pure_iff.mp run
                  have both := bothFail_of_checked checked fails checkedSecond failsToo
                    ((dropCopy_run isDrop).append (dropCopy_run isLast)) unchanged
                  rw [List.append_nil, ← List.append_assoc second]
                  refine ⟨⟨nofun, nofun, fun _ _ _ => ⟨copy, next, both, ?_⟩, nofun⟩, nofun⟩
                  exact fun same => other ⟨same.1.symm, same.2.symm⟩

end

/-- A fetch blames the library only on two complete copies of one version and the same bytes that both
fail; hands over unmarked only bytes that passed their check just before; gives up on copies that
differ only where two failing ones do; restarts no more often than it may; and, given more turns than
restarts, has a result once its downloads end.
-/
theorem fetch_diagnosed (crc32 : List UInt8 → UInt32) (maxRestarts : ℕ) (size : Option ℕ)
    (patience : ℕ) (trace : Trace) (result : Option (Except FetchError FetchedArchive))
    (run : (fetch crc32 maxRestarts size patience).Run trace result)
    : Diagnosed maxRestarts size patience crc32 trace result
      ∧ (maxRestarts < patience → result = none → Exhausted maxRestarts size patience trace) := by
  rw [fetch] at run
  obtain ⟨first, rest, ⟨outcome, download⟩, rfl, isDownload, run⟩ := run_bind_iff.mp run
  have start : Within 0 maxRestarts ⟨0, 0, 0, 0⟩ := ⟨le_rfl, Nat.zero_le _⟩
  have ends := (downloadCopy_ends size patience .empty 0 start).run isDownload
  match outcome with
  | none =>
      obtain ⟨rfl, rfl⟩ := run_pure_iff.mp run
      exact ⟨diagnosed_none _, fun _ _ => ⟨[], first, [], by simp, _, _, isDownload, start.most,
        ends.restarts.most⟩⟩
  | some (.error error) =>
      obtain ⟨rfl, rfl⟩ := run_pure_iff.mp run
      exact settles_error (ends.plain error rfl) _
  | some (.ok copy) =>
      obtain ⟨check, rest, checked, rfl, isCheck, run⟩ := run_bind_iff.mp run
      match checked with
      | .error error =>
          obtain ⟨_, _, _, rfl, -, run⟩ := run_bind_iff.mp run
          obtain ⟨-, rfl⟩ := run_pure_iff.mp run
          exact settles_error ((verifyCopy_run isCheck).1 error rfl) _
      | .ok verified =>
          have isChecked := checked_of_runs start isDownload .nil isCheck
          rw [List.append_nil] at isChecked
          have settled := diagnose_settles patience ends.restarts isChecked run
          rw [← List.append_assoc]
          exact ⟨settled.1, fun enough => settled.2 (by omega)⟩

def damagedAnswer : Answer :=
  { status := 200, accelRedirect := false, etag := none, contentLength := none, contentRange := none }

/-- The calls of one download of it, into a placement, and of its check. -/
def damagedTrace (placement : Handle) : Trace :=
  [⟨.isCancelled, false⟩, ⟨.request 0 none, .answered damagedAnswer⟩,
    ⟨.place 0 false, .ok placement⟩,
    ⟨.body damagedAnswer { Copy.empty with placement := some placement },
      ({ chunks := [[7]], ending := .clean } : Body)⟩,
    ⟨.write placement.id [7], .ok ()⟩,
    ⟨.verify placement.id, some ({ members := 1, damaged := ["001.jpg"], structural := none } : Verified)⟩]

/-- The archive that is handed over, marked. -/
def damagedArchive : FetchedArchive where
  placement := ⟨0, .disk, 0⟩
  size := 1
  crc32 := 0x4c667a2e
  requests := 2
  restarts := 0
  repairs := 0
  members := 1
  damaged := ["001.jpg"]
  structural := none
  verdict := some "damaged at the library"

theorem damagedTrace_run
    : (fetch (fun _ => 0x4c667a2e) 0 none 1).Run
        (damagedTrace ⟨0, .disk, 0⟩ ++ damagedTrace ⟨1, .disk, 0⟩ ++ [⟨.drop 1, ()⟩])
        (some (.ok damagedArchive)) := by
  repeat' first | exact Run.done _ | refine Run.call _ _ _ _ _ ?_

theorem fetch_diagnosed_damaged
    : Diagnosed 0 none 1 (fun _ => 0x4c667a2e)
        (damagedTrace ⟨0, .disk, 0⟩ ++ damagedTrace ⟨1, .disk, 0⟩ ++ [⟨.drop 1, ()⟩])
        (some (.ok damagedArchive)) :=
  (fetch_diagnosed (fun _ => 0x4c667a2e) 0 none 1 _ _ damagedTrace_run).1

end MokuroBunko.Processor
