import MokuroBunko.Sched.EarliestFinish

/-! How long a volume left to another lane is withheld, over the asks of a scan: to an idle lane
its deadline only moves closer, and a volume no ask proposes is forgotten.
-/

namespace MokuroBunko.Sched

open MokuroBunko.Lib

/-- One call of `EftDeadlines::apply`. The walk leaves only volumes that were proposed. -/
structure EftAsk (ι κ : Type) where
  proposed : List ι
  left : List (EftLeft ι κ)
  now : ℚ
  within : ∀ item ∈ left, item.job ∈ proposed

namespace EftAsk

variable {ι κ : Type} [DecidableEq ι]

/-- What the call makes of the deadlines. -/
def outcome (ask : EftAsk ι κ) (deadlines : EftDeadlines ι) : EftLeftOutcome ι :=
  deadlines.apply ask.proposed ask.left ask.now

/-- The deadlines after the calls. -/
def after (deadlines : EftDeadlines ι) (asks : List (EftAsk ι κ)) : EftDeadlines ι :=
  asks.foldl (fun deadlines ask => (ask.outcome deadlines).deadlines) deadlines

/-- The job is proposed, and left to lanes that are idle. -/
structure LeavesIdle (ask : EftAsk ι κ) (job : ι) : Prop where
  left : ∃ item ∈ ask.left, item.job = job
  idle : ∀ item ∈ ask.left, item.job = job → item.busyFirst = false

/-- When a lane that was told of the left volume now would be given up waiting for. -/
def prediction (ask : EftAsk ι κ) (item : EftLeft ι κ) : ℚ :=
  ask.now + max 0 item.starts + EFT_CLAIM_GRACE_SECONDS

/-- One left volume's turn in a call. -/
def turn (ask : EftAsk ι κ) (outcome : EftLeftOutcome ι) (item : EftLeft ι κ) : EftLeftOutcome ι :=
  let known := outcome.deadlines.get? item.job
  let deadline := eftDeadline ask.now item.starts item.busyFirst known
  {
    deadlines := outcome.deadlines.insert item.job deadline
    skip := if ask.now < deadline then outcome.skip ++ [item.job] else outcome.skip
    fresh := outcome.fresh || known.isNone
  }

variable {ask : EftAsk ι κ} {deadlines : EftDeadlines ι} {job : ι}

theorem outcome_eq (ask : EftAsk ι κ) (deadlines : EftDeadlines ι)
    : ask.outcome deadlines
      = ask.left.foldl ask.turn ⟨deadlines.retain (fun job _ => job ∈ ask.proposed), [], false⟩ :=
  rfl

theorem get?_foldl_turn (items : List (EftLeft ι κ)) (outcome : EftLeftOutcome ι)
    : (items.foldl ask.turn outcome).deadlines.get? job
      = (items.filter (fun item => item.job = job)).foldl
          (fun known item => some (eftDeadline ask.now item.starts item.busyFirst known))
          (outcome.deadlines.get? job) := by
  induction items generalizing outcome with
  | nil => rfl
  | cons item rest ih =>
      rw [List.foldl_cons, ih]
      by_cases own : item.job = job
      · rw [List.filter_cons_of_pos (by simpa using own), List.foldl_cons]
        simp [turn, own]
      · have other : ¬ job = item.job := fun same => own same.symm
        rw [List.filter_cons_of_neg (by simpa using own)]
        simp [turn, other]

theorem get?_outcome (ask : EftAsk ι κ) (deadlines : EftDeadlines ι) (job : ι)
    : (ask.outcome deadlines).deadlines.get? job
      = (ask.left.filter (fun item => item.job = job)).foldl
          (fun known item => some (eftDeadline ask.now item.starts item.busyFirst known))
          (if job ∈ ask.proposed then deadlines.get? job else none) := by
  rw [outcome_eq, get?_foldl_turn, OrderedMap.get?_retain]
  by_cases listed : job ∈ ask.proposed
  · rw [if_pos listed]
    cases deadlines.get? job with
    | none => rfl
    | some known => rw [Option.filter_some, if_pos (by simpa using listed)]
  · rw [if_neg listed]
    cases deadlines.get? job with
    | none => rfl
    | some known => rw [Option.filter_some, if_neg (by simpa using listed)]

theorem get?_outcome_of_not_proposed (gone : job ∉ ask.proposed)
    : (ask.outcome deadlines).deadlines.get? job = none := by
  have unleft : ask.left.filter (fun item => item.job = job) = [] := by
    rw [List.filter_eq_nil_iff]
    intro item member own
    exact gone (of_decide_eq_true own ▸ ask.within item member)
  rw [get?_outcome, unleft, if_neg gone]
  rfl

theorem get?_outcome_congr {other : EftDeadlines ι} (same : deadlines.get? job = other.get? job)
    : (ask.outcome deadlines).deadlines.get? job = (ask.outcome other).deadlines.get? job := by
  rw [get?_outcome, get?_outcome, same]

theorem get?_after_congr {first second : EftDeadlines ι}
    (same : first.get? job = second.get? job) (asks : List (EftAsk ι κ))
    : (after first asks).get? job = (after second asks).get? job := by
  induction asks generalizing first second with
  | nil => exact same
  | cons ask rest ih => exact ih (get?_outcome_congr same)

theorem eftDeadline_idle {now starts : ℚ} {known : Option ℚ}
    : (∀ deadline ∈ known, eftDeadline now starts false known ≤ deadline)
      ∧ eftDeadline now starts false known ≤ now + max 0 starts + EFT_CLAIM_GRACE_SECONDS := by
  cases known with
  | none => exact ⟨nofun, le_rfl⟩
  | some deadline =>
      refine ⟨?_, min_le_right _ _⟩
      intro _ same
      obtain rfl := Option.some.inj same
      exact min_le_left _ _

omit [DecidableEq ι] in
variable (ask) in
theorem foldl_idle {items : List (EftLeft ι κ)} (idle : ∀ item ∈ items, item.busyFirst = false)
    (known : Option ℚ) (some_known : items ≠ [] ∨ known.isSome)
    : ∃ deadline,
        items.foldl (fun known item =>
          some (eftDeadline ask.now item.starts item.busyFirst known)) known = some deadline
        ∧ (∀ before ∈ known, deadline ≤ before)
        ∧ ∀ item ∈ items, deadline ≤ ask.prediction item := by
  induction items generalizing known with
  | nil =>
      obtain ⟨deadline, rfl⟩ := Option.isSome_iff_exists.mp (some_known.resolve_left (by simp))
      exact ⟨deadline, rfl, fun _ same => (Option.some.inj same).le, nofun⟩
  | cons item rest ih =>
      have own := idle item List.mem_cons_self
      obtain ⟨closer, predicted⟩ :=
        @eftDeadline_idle ask.now item.starts known
      obtain ⟨deadline, found, before, others⟩ :=
        ih (fun other member => idle other (List.mem_cons_of_mem _ member))
          (some (eftDeadline ask.now item.starts item.busyFirst known)) (.inr rfl)
      rw [own] at found before
      refine ⟨deadline, by rw [List.foldl_cons, own]; exact found, ?_, ?_⟩
      · intro old same
        exact (before _ rfl).trans (closer old same)
      · intro other member
        rcases List.mem_cons.mp member with rfl | later
        · exact (before _ rfl).trans predicted
        · exact others other later

theorem LeavesIdle.outcome (leaves : ask.LeavesIdle job) (deadlines : EftDeadlines ι)
    : ∃ deadline, (ask.outcome deadlines).deadlines.get? job = some deadline
        ∧ (∀ before ∈ deadlines.get? job, deadline ≤ before)
        ∧ ∀ item ∈ ask.left, item.job = job → deadline ≤ ask.prediction item := by
  obtain ⟨some_item, member, own⟩ := leaves.left
  have listed : job ∈ ask.proposed := own ▸ ask.within some_item member
  have among : some_item ∈ ask.left.filter (fun item => item.job = job) :=
    List.mem_filter.mpr ⟨member, by simpa using own⟩
  have idle : ∀ item ∈ ask.left.filter (fun item => item.job = job), item.busyFirst = false := by
    intro item there
    exact leaves.idle item (List.mem_of_mem_filter there)
      (by simpa using (List.mem_filter.mp there).2)
  obtain ⟨deadline, found, before, predicted⟩ :=
    foldl_idle ask idle (deadlines.get? job) (.inl (List.ne_nil_of_mem among))
  refine ⟨deadline, by rw [get?_outcome, if_pos listed, found], before, ?_⟩
  intro item there same
  exact predicted item (List.mem_filter.mpr ⟨there, by simpa using same⟩)

theorem mem_skip_foldl {items : List (EftLeft ι κ)} {outcome : EftLeftOutcome ι}
    (skipped : job ∈ (items.foldl ask.turn outcome).skip)
    : job ∈ outcome.skip ∨ ∃ before item after, items = before ++ item :: after ∧ item.job = job
        ∧ ask.now < eftDeadline ask.now item.starts item.busyFirst
            ((before.foldl ask.turn outcome).deadlines.get? job) := by
  induction items generalizing outcome with
  | nil => exact .inl skipped
  | cons item rest ih =>
      rcases ih skipped with here | ⟨before, found, after, rfl, own, early⟩
      · by_cases early : ask.now < eftDeadline ask.now item.starts item.busyFirst
            (outcome.deadlines.get? item.job)
        · simp only [turn, if_pos early, List.mem_append, List.mem_singleton] at here
          rcases here with old | rfl
          · exact .inl old
          · exact .inr ⟨[], item, rest, rfl, rfl, early⟩
        · simp only [turn, if_neg early] at here
          exact .inl here
      · exact .inr ⟨item :: before, found, after, rfl, own, early⟩

theorem LeavesIdle.now_lt_of_mem_skip (leaves : ask.LeavesIdle job)
    (skipped : job ∈ (ask.outcome deadlines).skip) {known : ℚ}
    (found : deadlines.get? job = some known)
    : ask.now < known := by
  rw [outcome_eq] at skipped
  rcases mem_skip_foldl skipped with none | ⟨before, item, after, split, own, early⟩
  · cases none
  · have member : item ∈ ask.left := by simp [split]
    have listed : job ∈ ask.proposed := own ▸ ask.within item member
    rw [leaves.idle item member own, get?_foldl_turn, OrderedMap.get?_retain, found,
      Option.filter_some, if_pos (by simpa using listed)] at early
    have idle : ∀ other ∈ before.filter (fun other => other.job = job),
        other.busyFirst = false := by
      intro other there
      refine leaves.idle other ?_ (by simpa using (List.mem_filter.mp there).2)
      rw [split]
      exact List.mem_append_left _ (List.mem_of_mem_filter there)
    obtain ⟨deadline, reached, closer, -⟩ := foldl_idle ask idle (some known) (.inr rfl)
    rw [reached] at early
    exact early.trans_le (((@eftDeadline_idle ask.now item.starts (some deadline)).1 _ rfl).trans
      (closer known rfl))

theorem get?_after_of_idle {asks : List (EftAsk ι κ)} (idle : ∀ ask ∈ asks, ask.LeavesIdle job)
    {known : ℚ} (found : deadlines.get? job = some known)
    : ∃ deadline, (after deadlines asks).get? job = some deadline ∧ deadline ≤ known := by
  induction asks generalizing deadlines known with
  | nil => exact ⟨known, found, le_rfl⟩
  | cons ask rest ih =>
      obtain ⟨next, reached, closer, -⟩ := (idle ask List.mem_cons_self).outcome deadlines
      obtain ⟨deadline, last, nearer⟩ :=
        ih (fun other member => idle other (List.mem_cons_of_mem _ member)) reached
      exact ⟨deadline, last, nearer.trans (closer known found)⟩

/-- Over calls that all leave a job to idle lanes its deadline only moves closer, and the job is
passed over only before its first prediction; a job a call does not propose is forgotten, and
the next calls treat it as one never seen.
-/
theorem deadline_only_nearer (deadlines : EftDeadlines ι) (asks : List (EftAsk ι κ)) (job : ι)
    : ((∀ ask ∈ asks, ask.LeavesIdle job)
        → (∀ before ask rest, asks = before ++ ask :: rest
            → ∀ known, (after deadlines before).get? job = some known
              → ∃ deadline, (after deadlines (before ++ [ask])).get? job = some deadline
                ∧ deadline ≤ known)
          ∧ ∀ first before ask rest, asks.head? = some first → asks = before ++ ask :: rest
            → job ∈ (ask.outcome (after deadlines before)).skip
              → ∀ item ∈ first.left, item.job = job → ask.now < first.prediction item)
      ∧ ∀ before ask rest, asks = before ++ ask :: rest → job ∉ ask.proposed
        → (after deadlines (before ++ [ask])).get? job = none
          ∧ ∀ later, (after deadlines (before ++ ask :: later)).get? job
              = (after .empty later).get? job := by
  have forgotten : ∀ (before : List (EftAsk ι κ)) ask, job ∉ ask.proposed
      → (after deadlines (before ++ [ask])).get? job = none := by
    intro before ask gone
    rw [after, List.foldl_append]
    exact get?_outcome_of_not_proposed gone
  refine ⟨fun idle => ⟨?_, ?_⟩, ?_⟩
  · intro before ask rest split known found
    obtain ⟨deadline, reached, closer, -⟩ :=
      (idle ask (by simp [split])).outcome (after deadlines before)
    refine ⟨deadline, ?_, closer known found⟩
    rw [after, List.foldl_append]
    exact reached
  · intro first before ask rest head split skipped item member own
    have firstIdle : first.LeavesIdle job := idle first (List.mem_of_mem_head? head)
    cases before with
    | nil =>
        -- The first call itself: its prediction lies after its own time.
        obtain rfl : first = ask := by
          rw [split] at head
          exact (Option.some.inj head).symm
        have waits : 0 ≤ max 0 item.starts := le_max_left _ _
        simp only [prediction, EFT_CLAIM_GRACE_SECONDS]
        linarith
    | cons head' between =>
        obtain rfl : first = head' := by
          rw [split] at head
          exact (Option.some.inj head).symm
        obtain ⟨opened, reached, -, predicted⟩ := firstIdle.outcome deadlines
        have betweenIdle : ∀ other ∈ between, other.LeavesIdle job := by
          intro other there
          exact idle other (by simp [split, there])
        obtain ⟨known, found, nearer⟩ := get?_after_of_idle betweenIdle reached
        have early := (idle ask (by simp [split])).now_lt_of_mem_skip skipped found
        exact early.trans_le (nearer.trans (predicted item member own))
  · intro before ask rest _ gone
    refine ⟨forgotten before ask gone, ?_⟩
    intro later
    have split : after deadlines (before ++ ask :: later)
        = after (after deadlines (before ++ [ask])) later := by simp [after]
    rw [split]
    exact get?_after_congr (forgotten before ask gone) later

end EftAsk

def twoAsks : List (EftAsk ℕ ℕ) := [
  {
    proposed := [7]
    left := [⟨7, 2, 30, 60, 20, false⟩]
    now := 0
    within := by simp
  },
  {
    proposed := [7]
    left := [⟨7, 2, 35, 60, 25, false⟩]
    now := 10
    within := by simp
  }
]

theorem twoAsks_leaveIdle : ∀ ask ∈ twoAsks, ask.LeavesIdle 7 := by
  intro ask member
  simp only [twoAsks, List.mem_cons, List.not_mem_nil, or_false] at member
  obtain rfl | rfl := member
  all_goals exact ⟨⟨_, List.mem_cons_self, rfl⟩, by simp⟩

/-- The second prediction does not put the first deadline off. -/
theorem twoAsks_nearer
    : ∃ deadline, (EftAsk.after .empty twoAsks).get? 7 = some deadline ∧ deadline ≤ 35 :=
  ((EftAsk.deadline_only_nearer .empty twoAsks 7).1 twoAsks_leaveIdle).1
    (twoAsks.take 1) twoAsks[1] [] rfl 35 (by decide +kernel)

end MokuroBunko.Sched
