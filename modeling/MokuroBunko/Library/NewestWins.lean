import MokuroBunko.Library.SeriesStore
import Mathlib.Tactic.Linarith

/-! Stamps compare as texts as the instants they are made of compare in time, where the years
have the same number of digits.
-/

namespace MokuroBunko.Library

open MokuroBunko.Lib MokuroBunko.Data

-- Rounding

/-- The nearest whole number, of two the even one. -/
def nearest (x : ℚ) : ℤ :=
  if x - ⌊x⌋ < 1 / 2 ∨ (x - ⌊x⌋ = 1 / 2 ∧ ⌊x⌋ % 2 = 0) then ⌊x⌋ else ⌊x⌋ + 1

theorem nearest_intCast (n : ℤ) : nearest n = n := by
  simp [nearest]

theorem nearest_add_even (x : ℚ) (k : ℤ) : nearest (x + (2 * k : ℤ)) = nearest x + 2 * k := by
  unfold nearest
  rw [Int.floor_add_intCast, Int.add_mul_emod_self_left]
  push_cast
  rw [add_sub_add_right_eq_sub]
  split <;> omega

theorem roundAway_of_near {x : ℚ} {n : ℤ} (near : |x - n| < 1 / 2) : roundAway x = n := by
  obtain ⟨above, below⟩ := abs_lt.mp near
  unfold roundAway
  split
  · apply Int.floor_eq_iff.mpr
    constructor <;> linarith
  · apply Int.ceil_eq_iff.mpr
    constructor <;> linarith

theorem roundHalfEven_eq_nearest (x : ℚ) : roundHalfEven x = nearest x := by
  have lower := Int.floor_le x
  have upper := Int.lt_floor_add_one x
  unfold roundHalfEven nearest
  dsimp only
  generalize ⌊x⌋ = n at lower upper
  obtain less | half | more := lt_trichotomy (x - n) (1 / 2)
  · have near : |x - n| < 1 / 2 := abs_lt.mpr ⟨by linarith, less⟩
    rw [roundAway_of_near near, if_neg near.ne, if_pos (.inl less)]
  · -- a tie: the half of the number is a quarter away from a whole one
    have tie : |x - roundAway x| = 1 / 2 := by
      unfold roundAway
      split
      · have up : ⌊x + 1 / 2⌋ = n + 1 := by
          rw [show x + 1 / 2 = ((n + 1 : ℤ) : ℚ) by push_cast; linarith, Int.floor_intCast]
        rw [up]
        push_cast
        rw [show x - (n + 1) = -(1 / 2) by linarith]
        norm_num
      · have down : ⌈x - 1 / 2⌉ = n := by
          rw [show x - 1 / 2 = (n : ℚ) by linarith, Int.ceil_intCast]
        rw [down, half]
        norm_num
    rw [if_pos tie]
    obtain ⟨g, even | odd⟩ : ∃ g, n = 2 * g ∨ n = 2 * g + 1 := ⟨n / 2, by omega⟩
    · have quarter : x / 2 - g = 1 / 4 := by
        rw [even] at half
        push_cast at half
        linarith
      rw [roundAway_of_near (n := g) (by rw [quarter]; norm_num), if_pos (.inr ⟨half, by omega⟩),
        even]
    · have quarter : x / 2 - (g + 1 : ℤ) = -(1 / 4) := by
        rw [odd] at half
        push_cast at half ⊢
        linarith
      rw [roundAway_of_near (n := g + 1) (by rw [quarter]; norm_num), if_neg, odd]
      · ring
      · rintro (less | ⟨_, even⟩)
        · exact less.ne half
        · omega
  · have near : |x - (n + 1 : ℤ)| < 1 / 2 := by
      push_cast
      exact abs_lt.mpr ⟨by linarith, by linarith⟩
    rw [roundAway_of_near near, if_neg near.ne, if_neg]
    rintro (less | ⟨half, _⟩)
    · linarith
    · linarith

theorem trunc_near (x : ℚ) : |x - trunc x| < 1 := by
  unfold trunc
  split
  · have lower := Int.floor_le x
    have upper := Int.lt_floor_add_one x
    exact abs_lt.mpr ⟨by linarith, by linarith⟩
  · have lower := Int.le_ceil x
    have upper := Int.ceil_lt_add_one x
    exact abs_lt.mpr ⟨by linarith, by linarith⟩

theorem nearest_bounds {x : ℚ} {n : ℤ} (near : |x| < n) : -n ≤ nearest x ∧ nearest x ≤ n := by
  obtain ⟨above, below⟩ := abs_lt.mp near
  have lower : -n ≤ ⌊x⌋ := Int.le_floor.mpr (by push_cast; linarith)
  have upper : ⌊x⌋ < n := Int.floor_lt.mpr below
  unfold nearest
  split <;> omega

theorem floatToTimeval_spec {seconds : ℚ} {whole micros : ℤ}
    (read : floatToTimeval seconds = some (whole, micros))
    : whole * 1000000 + micros = nearest (seconds * 1000000) ∧ 0 ≤ micros ∧ micros < 1000000 := by
  have bounds := nearest_bounds (x := (seconds - trunc seconds) * 1000000) (n := 1000000) (by
    rw [abs_mul]
    have near := trunc_near seconds
    norm_num
    linarith)
  have shift := nearest_add_even ((seconds - trunc seconds) * 1000000) (trunc seconds * 500000)
  rw [show (seconds - trunc seconds) * 1000000 + ((2 * (trunc seconds * 500000) : ℤ) : ℚ)
    = seconds * 1000000 by push_cast; ring] at shift
  unfold floatToTimeval at read
  dsimp only at read
  rw [roundHalfEven_eq_nearest] at read
  generalize nearest ((seconds - trunc seconds) * 1000000) = part at bounds shift read
  split_ifs at read <;> obtain ⟨rfl, rfl⟩ := Prod.mk.inj (Option.some.inj read) <;>
    dsimp only <;> omega

-- Stamps

/-- The millisecond of an instant that is rounded to microseconds. -/
def millis (seconds : ℚ) : ℤ := nearest (seconds * 1000000) / 1000

/-- The civil time of a millisecond, and of the microsecond in it. -/
def civilOf (whole micros : ℤ) : Civil where
  year := (ordToYmd (whole / 86400 + epochOrdinal)).1
  month := (ordToYmd (whole / 86400 + epochOrdinal)).2.1
  day := (ordToYmd (whole / 86400 + epochOrdinal)).2.2
  hour := whole % 86400 / 3600
  minute := whole % 86400 % 3600 / 60
  second := whole % 86400 % 60
  micros := micros

theorem utcFields_spec {seconds : ℚ} {civil : Civil} (read : utcFields seconds = some civil)
    : ∃ whole micros, civil = civilOf whole micros
      ∧ whole * 1000000 + micros = nearest (seconds * 1000000)
      ∧ (0 ≤ micros ∧ micros < 1000000) ∧ 1 ≤ civil.year ∧ civil.year ≤ 9999 := by
  obtain ⟨⟨whole, micros⟩, timeval, fields⟩ := Option.bind_eq_some_iff.mp read
  obtain ⟨total, bounds⟩ := floatToTimeval_spec timeval
  dsimp only at fields
  split at fields
  case isTrue => cases fields
  case isFalse =>
    split at fields
    case isTrue => cases fields
    case isFalse years =>
      obtain rfl := Option.some.inj fields
      exact ⟨whole, micros, rfl, total, bounds, (not_not.mp years).1, (not_not.mp years).2⟩

/-- The numbers of a stamp in their order, and their widths when the year has `width` digits. -/
def Civil.values (civil : Civil) : List ℕ :=
  [civil.year.toNat, civil.month.toNat, civil.day.toNat, civil.hour.toNat, civil.minute.toNat,
    civil.second.toNat, (civil.micros / 1000).toNat]

def stampCells (width : ℕ) : List (ℕ × Char) :=
  [(width, '-'), (2, '-'), (2, 'T'), (2, ':'), (2, ':'), (2, '.'), (3, 'Z')]

def Civil.yearWidth (civil : Civil) : ℕ := (Nat.toDigits 10 civil.year.toNat).length

theorem civilOf_fits {whole micros : ℤ} (small : 0 ≤ micros ∧ micros < 1000000)
    : List.Forall₂ (fun format value => value < 10 ^ format.1)
        (stampCells (civilOf whole micros).yearWidth) (civilOf whole micros).values := by
  obtain ⟨date, _⟩ := ordToYmd_spec (whole / 86400 + epochOrdinal)
  obtain ⟨monthGe, monthLe, dayGe, dayLe⟩ := date
  have month : ∀ leap, ∀ month < 13, monthLength leap month ≤ 31 := by decide
  rw [daysInMonth_eq monthGe] at dayLe
  have days := month (isLeap (ordToYmd (whole / 86400 + epochOrdinal)).1)
    (ordToYmd (whole / 86400 + epochOrdinal)).2.1.toNat (by omega)
  unfold stampCells Civil.values civilOf
  refine .cons ?_ (.cons ?_ (.cons ?_ (.cons ?_ (.cons ?_ (.cons ?_ (.cons ?_ .nil)))))) <;>
    dsimp only
  · exact (Nat.length_toDigits_le_iff (by decide) Nat.length_toDigits_pos).mp (Nat.le_refl _)
  all_goals omega

theorem stamp_eq_cells {whole micros : ℤ} (small : 0 ≤ micros ∧ micros < 1000000)
    : (civilOf whole micros).stamp = String.ofList
        (Decimal.cells (stampCells (civilOf whole micros).yearWidth)
          (civilOf whole micros).values) := by
  have fits := @civilOf_fits whole micros small
  unfold Civil.stamp Civil.values stampCells at *
  generalize civilOf whole micros = civil at fits ⊢
  simp only [List.forall₂_cons, List.forall₂_nil_right_iff] at fits
  obtain ⟨_, month, day, hour, minute, second, millisecond, _⟩ := fits
  have year : Nat.toDigits 10 civil.year.toNat = Decimal.fixed civil.yearWidth civil.year.toNat := by
    unfold Civil.yearWidth
    rw [← Decimal.padded_eq_fixed (Nat.le_refl _), Decimal.padded, List.leftpad, Nat.sub_self,
      List.replicate_zero, List.nil_append]
  have short : ∀ {width value : ℕ}, 0 < width → value < 10 ^ width
      → Decimal.padded width value = Decimal.fixed width value :=
    fun positive small => Decimal.padded_eq_fixed
      ((Nat.length_toDigits_le_iff (by decide) positive).mpr small)
  rw [year, short (by decide) month, short (by decide) day, short (by decide) hour,
    short (by decide) minute, short (by decide) second, short (by decide) millisecond]
  simp [Decimal.cells]

theorem clock_lt {secs secs' micros micros' : ℤ}
    (later : secs < secs' ∨ (secs = secs' ∧ micros / 1000 < micros' / 1000))
    : secs / 3600 < secs' / 3600 ∨ (secs / 3600 = secs' / 3600
      ∧ (secs % 3600 / 60 < secs' % 3600 / 60 ∨ (secs % 3600 / 60 = secs' % 3600 / 60
        ∧ (secs % 60 < secs' % 60 ∨ (secs % 60 = secs' % 60
          ∧ (micros / 1000 < micros' / 1000)))))) := by
  omega

theorem toNat_first_lt {first second : ℤ} {later later' : Prop} (positive : 0 ≤ first)
    (weaker : later → later') (less : first < second ∨ (first = second ∧ later))
    : first.toNat < second.toNat ∨ (first.toNat = second.toNat ∧ later') := by
  obtain less | ⟨same, rest⟩ := less
  · exact .inl (by omega)
  · exact .inr ⟨by rw [same], weaker rest⟩

theorem values_lt {whole micros whole' micros' : ℤ} (small : 0 ≤ micros ∧ micros < 1000000)
    (small' : 0 ≤ micros' ∧ micros' < 1000000) (year : 1 ≤ (civilOf whole micros).year)
    (earlier : (whole * 1000000 + micros) / 1000 < (whole' * 1000000 + micros') / 1000)
    : (civilOf whole micros).values < (civilOf whole' micros').values := by
  obtain ⟨date, _⟩ := ordToYmd_spec (whole / 86400 + epochOrdinal)
  have monthGe := date.month_ge
  have dayGe := date.day_ge
  simp only [Civil.values, civilOf, List.cons_lt_cons_iff] at year ⊢
  obtain before | ⟨same, inDay⟩ : whole / 86400 < whole' / 86400
      ∨ (whole / 86400 = whole' / 86400 ∧ (whole % 86400 < whole' % 86400
        ∨ (whole % 86400 = whole' % 86400 ∧ micros / 1000 < micros' / 1000))) := by omega
  · have dates := ordToYmd_lt
      (show whole / 86400 + epochOrdinal < whole' / 86400 + epochOrdinal by omega)
    obtain years | ⟨sameYear, months | ⟨sameMonth, days⟩⟩ := dates
    · exact .inl (by omega)
    · exact .inr ⟨by rw [sameYear], .inl (by omega)⟩
    · exact .inr ⟨by rw [sameYear], .inr ⟨by rw [sameMonth], .inl (by omega)⟩⟩
  · rw [same]
    refine .inr ⟨rfl, .inr ⟨rfl, .inr ⟨rfl, ?_⟩⟩⟩
    apply toNat_first_lt (by omega) _ (clock_lt inDay)
    apply toNat_first_lt (by omega)
    apply toNat_first_lt (by omega)
    intro millisecond
    exact .inl (by omega)

theorem stamp_lt {whole micros whole' micros' : ℤ} (small : 0 ≤ micros ∧ micros < 1000000)
    (small' : 0 ≤ micros' ∧ micros' < 1000000) (year : 1 ≤ (civilOf whole micros).year)
    (width : (civilOf whole micros).yearWidth = (civilOf whole' micros').yearWidth)
    (earlier : (whole * 1000000 + micros) / 1000 < (whole' * 1000000 + micros') / 1000)
    : (civilOf whole micros).stamp < (civilOf whole' micros').stamp := by
  rw [stamp_eq_cells small, stamp_eq_cells small', String.lt_iff, String.toList_ofList,
    String.toList_ofList, width]
  exact Decimal.cells_lt rfl (civilOf_fits small') (values_lt small small' year earlier)

theorem stamp_eq {whole micros whole' micros' : ℤ} (small : 0 ≤ micros ∧ micros < 1000000)
    (small' : 0 ≤ micros' ∧ micros' < 1000000)
    (same : (whole * 1000000 + micros) / 1000 = (whole' * 1000000 + micros') / 1000)
    : (civilOf whole micros).stamp = (civilOf whole' micros').stamp := by
  have seconds : whole = whole' := by omega
  have milliseconds : micros / 1000 = micros' / 1000 := by omega
  subst seconds
  unfold Civil.stamp civilOf
  dsimp only
  rw [milliseconds]

-- Updates

/-- The instant of an update: what the client states, or `now` when that is too far ahead. -/
def clampedInstant (now : ℚ) (micros : ℤ) : ℚ :=
  if now + futureToleranceSeconds < microsToSeconds micros then now else microsToSeconds micros

/-- The number of digits of the year of an instant. -/
def yearDigits (seconds : ℚ) : Option ℕ := (utcFields seconds).map Civil.yearWidth

theorem normalizeUpdatedAt_spec {value : Option Json} {now : ℚ} {stamp : String}
    (accepted : normalizeUpdatedAt value now = some stamp)
    : ∃ micros, statedMicros value = some micros
      ∧ isoStamp (clampedInstant now micros) = some stamp :=
  Option.bind_eq_some_iff.mp accepted

theorem parseSeriesUpdate_spec {payload : Json} {now : ℚ} {update : SeriesUpdate}
    (accepted : parseSeriesUpdate payload now = some update)
    : ∃ decoded, payload = .obj decoded
      ∧ normalizeUpdatedAt (Object.get? decoded "updated_at") now
        = some update.facts.updatedAt := by
  obtain ⟨decoded, object, rest⟩ := Option.bind_eq_some_iff.mp accepted
  refine ⟨decoded, ?_, ?_⟩
  · cases payload <;> cases object
    rfl
  · split at rest
    case isTrue => cases rest
    case isFalse =>
      obtain ⟨stamp, normalized, built⟩ := Option.bind_eq_some_iff.mp rest
      rw [normalized, ← Option.some.inj built]
      rfl

theorem isoStamp_compare {seconds seconds' : ℚ} {stamp stamp' : String}
    (made : isoStamp seconds = some stamp) (made' : isoStamp seconds' = some stamp')
    (width : yearDigits seconds = yearDigits seconds')
    : (stamp < stamp' ↔ millis seconds < millis seconds')
      ∧ (stamp = stamp' ↔ millis seconds = millis seconds') := by
  obtain ⟨civil, fields, rfl⟩ := Option.map_eq_some_iff.mp made
  obtain ⟨civil', fields', rfl⟩ := Option.map_eq_some_iff.mp made'
  unfold yearDigits at width
  rw [fields, fields'] at width
  have width := Option.some.inj width
  obtain ⟨whole, micros, rfl, total, small, year, _⟩ := utcFields_spec fields
  obtain ⟨whole', micros', rfl, total', small', year', _⟩ := utcFields_spec fields'
  unfold millis
  rw [← total, ← total']
  have less := stamp_lt small small' year width
  have same := @stamp_eq whole micros whole' micros' small small'
  have more := stamp_lt small' small year' width.symm
  obtain earlier | equal | later := lt_trichotomy ((whole * 1000000 + micros) / 1000)
    ((whole' * 1000000 + micros') / 1000)
  · have order := less earlier
    exact ⟨iff_of_true order earlier, iff_of_false order.ne earlier.ne⟩
  · have order := same equal
    exact ⟨iff_of_false order.not_lt equal.not_lt, iff_of_true order equal⟩
  · have order := more later
    exact ⟨iff_of_false order.asymm later.asymm, iff_of_false order.ne' later.ne'⟩

theorem mergeFacts_newer {stored incoming : SeriesFacts}
    (newer : stored.updatedAt < incoming.updatedAt)
    : mergeFacts (some stored) incoming = incoming := by
  simp [mergeFacts, newer, newer.le]

theorem mergeFacts_older {stored incoming : SeriesFacts}
    (older : incoming.updatedAt < stored.updatedAt)
    : mergeFacts (some stored) incoming = stored := by
  simp [mergeFacts, older.not_gt, older.not_ge]

/-- The stamps of two accepted updates compare as their instants in milliseconds, and of two
copies of the facts the merge keeps the newer, when the years have the same number of digits. -/
theorem newest_facts_win {payload payload' : Json} {now now' : ℚ} {update update' : SeriesUpdate}
    (accepted : parseSeriesUpdate payload now = some update)
    (accepted' : parseSeriesUpdate payload' now' = some update')
    : ∃ fields fields' micros micros', payload = .obj fields ∧ payload' = .obj fields'
      ∧ statedMicros (Object.get? fields "updated_at") = some micros
      ∧ statedMicros (Object.get? fields' "updated_at") = some micros'
      ∧ (yearDigits (clampedInstant now micros) = yearDigits (clampedInstant now' micros')
        → (update.facts.updatedAt < update'.facts.updatedAt
            ↔ millis (clampedInstant now micros) < millis (clampedInstant now' micros'))
          ∧ (update.facts.updatedAt = update'.facts.updatedAt
            ↔ millis (clampedInstant now micros) = millis (clampedInstant now' micros'))
          ∧ (millis (clampedInstant now micros) < millis (clampedInstant now' micros')
            → mergeFacts (some update.facts) update'.facts = update'.facts
              ∧ mergeFacts (some update'.facts) update.facts = update'.facts)) := by
  obtain ⟨fields, object, normalized⟩ := parseSeriesUpdate_spec accepted
  obtain ⟨fields', object', normalized'⟩ := parseSeriesUpdate_spec accepted'
  obtain ⟨micros, stated, stamp⟩ := normalizeUpdatedAt_spec normalized
  obtain ⟨micros', stated', stamp'⟩ := normalizeUpdatedAt_spec normalized'
  refine ⟨fields, fields', micros, micros', object, object', stated, stated', ?_⟩
  intro width
  obtain ⟨less, same⟩ := isoStamp_compare stamp stamp' width
  refine ⟨less, same, ?_⟩
  intro earlier
  have order := less.mpr earlier
  exact ⟨mergeFacts_newer order, mergeFacts_older order⟩

/-- A body that sets the tag at the stated time. -/
def edit (stamp : String) : Json :=
  .obj [("version", .num (.int 2)), ("tag", .str "HD"), ("updated_at", .str stamp)]

theorem newest_facts_win_edits
    : ∃ update update',
        parseSeriesUpdate (edit "2026-06-01T02:00:00+05:00") 1800000000 = some update
        ∧ parseSeriesUpdate (edit "2026-W23-1 00") 1800000000 = some update'
        ∧ update.facts.updatedAt < update'.facts.updatedAt
        ∧ mergeFacts (some update'.facts) update.facts = update'.facts := by
  obtain ⟨update, accepted⟩ : ∃ update,
      parseSeriesUpdate (edit "2026-06-01T02:00:00+05:00") 1800000000 = some update :=
    Option.isSome_iff_exists.mp (by decide +kernel)
  obtain ⟨update', accepted'⟩ : ∃ update',
      parseSeriesUpdate (edit "2026-W23-1 00") 1800000000 = some update' :=
    Option.isSome_iff_exists.mp (by decide +kernel)
  obtain ⟨fields, fields', micros, micros', object, object', stated, stated', facts⟩ :=
    newest_facts_win accepted accepted'
  obtain rfl := Json.obj.inj object
  obtain rfl := Json.obj.inj object'
  have first : micros = 1780261200000000 :=
    Option.some.inj (stated.symm.trans (by decide +kernel))
  have second : micros' = 1780272000000000 :=
    Option.some.inj (stated'.symm.trans (by decide +kernel))
  subst first second
  obtain ⟨less, _, merges⟩ := facts (by decide +kernel)
  exact ⟨update, update', accepted, accepted', less.mpr (by decide +kernel),
    (merges (by decide +kernel)).2⟩

/-- The stamp of the year 999 is greater than that of 2026, and the edit of 999 replaces the one
of 2026. A clock a little before the millisecond gives the stamp of that millisecond. -/
theorem year_999_replaces_2026
    : (∃ update update',
        parseSeriesUpdate (edit "0999-06-01T00:00:00Z") 1800000000 = some update
        ∧ parseSeriesUpdate (edit "2026-06-01T00:00:00Z") 1800000000 = some update'
        ∧ millis (clampedInstant 1800000000 (-30628713600000000))
          < millis (clampedInstant 1800000000 1780272000000000)
        ∧ update'.facts.updatedAt < update.facts.updatedAt
        ∧ mergeFacts (some update'.facts) update.facts = update.facts)
      ∧ (∃ update update',
        parseSeriesUpdate (edit "2026-06-01T00:00:00Z") (1000000000 + 8388 / 8388608)
          = some update
        ∧ parseSeriesUpdate (edit "2001-09-09T01:46:40.001Z") 1800000000 = some update'
        ∧ ⌊(1000000000 + 8388 / 8388608 : ℚ) * 1000⌋ < ⌊microsToSeconds 1000000000001000 * 1000⌋
        ∧ update.facts.updatedAt = update'.facts.updatedAt) := by
  constructor
  · refine ⟨(parseSeriesUpdate (edit "0999-06-01T00:00:00Z") 1800000000).get ?_,
      (parseSeriesUpdate (edit "2026-06-01T00:00:00Z") 1800000000).get ?_,
      (Option.some_get _).symm, (Option.some_get _).symm, ?_, ?_, ?_⟩ <;> decide +kernel
  · refine ⟨(parseSeriesUpdate (edit "2026-06-01T00:00:00Z")
        (1000000000 + 8388 / 8388608)).get ?_,
      (parseSeriesUpdate (edit "2001-09-09T01:46:40.001Z") 1800000000).get ?_,
      (Option.some_get _).symm, (Option.some_get _).symm, ?_, ?_⟩ <;> decide +kernel

end MokuroBunko.Library
