import MokuroBunko.Library.IsoDate

/-! Days since 1970-01-01 and their dates, by the scheduler's own arithmetic (`py.rs`): years
begin in March, so that the leap day is the last of a year, and run in eras of 400.
-/

namespace MokuroBunko.Sched

open Library (IsDate ymdToOrd)

/-- `days_in_month`. -/
def daysInMonth (year month : ℤ) : ℤ :=
  if month = 1 ∨ month = 3 ∨ month = 5 ∨ month = 7 ∨ month = 8 ∨ month = 10 ∨ month = 12 then 31
  else if month = 4 ∨ month = 6 ∨ month = 9 ∨ month = 11 then 30
  else if (year % 4 = 0 ∧ year % 100 ≠ 0) ∨ year % 400 = 0 then 29
  else 28

/-- `civil_from_days`: the date of a day since 1970-01-01. -/
def civilFromDays (days : ℤ) : ℤ × ℤ × ℤ :=
  let z := days + 719468
  let era := z / 146097
  let dayOfEra := z % 146097
  let yearOfEra := (dayOfEra - dayOfEra / 1460 + dayOfEra / 36524 - dayOfEra / 146096) / 365
  let year := yearOfEra + era * 400
  let dayOfYear := dayOfEra - (365 * yearOfEra + yearOfEra / 4 - yearOfEra / 100)
  let monthFromMarch := (5 * dayOfYear + 2) / 153
  let day := dayOfYear - (153 * monthFromMarch + 2) / 5 + 1
  let month := if monthFromMarch < 10 then monthFromMarch + 3 else monthFromMarch - 9
  (if month ≤ 2 then year + 1 else year, month, day)

/-- `days_from_civil`: the day of a date. -/
def daysFromCivil (year month day : ℤ) : ℤ :=
  let year := if month ≤ 2 then year - 1 else year
  let era := year / 400
  let yearOfEra := year % 400
  let monthFromMarch := if 2 < month then month - 3 else month + 9
  let dayOfYear := (153 * monthFromMarch + 2) / 5 + day - 1
  let dayOfEra := yearOfEra * 365 + yearOfEra / 4 - yearOfEra / 100 + dayOfYear
  era * 146097 + dayOfEra - 719468

theorem daysInMonth_eq {year month : ℤ} (first : 1 ≤ month) (last : month ≤ 12)
    : daysInMonth year month = Library.daysInMonth year month := by
  unfold daysInMonth Library.daysInMonth Library.isLeap Library.daysInMonths
  by_cases february : month = 2
  · subst february
    rw [if_neg (by decide), if_neg (by decide)]
    simp only [decide_eq_true_eq, true_and]
    by_cases leap : year % 4 = 0 ∧ (year % 100 ≠ 0 ∨ year % 400 = 0)
    · rw [if_pos leap, if_pos (by omega)]
    · rw [if_neg leap, if_neg (by omega)]
      rfl
  · interval_cases month <;> first | rfl | exact absurd rfl february

-- The day of a date

/-- The year that a month belongs to when years begin in March, and the month's place in it. -/
def marchYear (year month : ℤ) : ℤ := if month ≤ 2 then year - 1 else year

def fromMarch (month : ℤ) : ℤ := if 2 < month then month - 3 else month + 9

/-- The days of a March year before a month. -/
def marchDays (fromMarch : ℤ) : ℤ := (153 * fromMarch + 2) / 5

theorem daysFromCivil_march (year month day : ℤ)
    : daysFromCivil year month day
      = Library.daysBeforeYear (marchYear year month + 1) + marchDays (fromMarch month)
        + day - 719469 := by
  unfold daysFromCivil Library.daysBeforeYear marchYear fromMarch marchDays
  dsimp only
  generalize (if month ≤ 2 then year - 1 else year) = march
  generalize (153 * (if 2 < month then month - 3 else month + 9) + 2) / 5 = before
  omega

theorem monthStart_march
    : ∀ leap, ∀ month < 13, 1 ≤ month
      → Library.monthStart leap month
        = marchDays (fromMarch (month : ℕ))
          + (if 2 < month then 59 + (if leap then 1 else 0) else - 306) := by
  decide

theorem daysFromCivil_eq {year month day : ℤ} (first : 1 ≤ month) (last : month ≤ 12)
    : daysFromCivil year month day = ymdToOrd year month day - Library.epochOrdinal := by
  obtain ⟨month, rfl⟩ := Int.eq_ofNat_of_zero_le (show 0 ≤ month by omega)
  have start := monthStart_march (Library.isLeap year) month (by omega) (by omega)
  have next := Library.daysBeforeYear_succ year
  rw [daysFromCivil_march, Library.ymdToOrd_eq, Int.toNat_natCast, start]
  unfold marchYear Library.epochOrdinal
  rcases Nat.lt_or_ge 2 month with late | early
  · rw [if_pos late, if_neg (show ¬ (month : ℤ) ≤ 2 by omega), next]
    omega
  · rw [if_neg (show ¬ 2 < month by omega), if_pos (show (month : ℤ) ≤ 2 by omega),
      sub_add_cancel]
    omega

-- Years of an era

/-- The days of an era without those that leap years add, which `civil_from_days` divides. -/
def evenDays (dayOfEra : ℤ) : ℤ :=
  dayOfEra - dayOfEra / 1460 + dayOfEra / 36524 - dayOfEra / 146096

/-- The first day of a year of the era, and its last. -/
def firstDay (yearOfEra : ℤ) : ℤ := yearOfEra * 365 + yearOfEra / 4 - yearOfEra / 100

def lastDay (yearOfEra : ℤ) : ℤ :=
  firstDay yearOfEra + 364
    + if (yearOfEra + 1) % 4 = 0 ∧ ((yearOfEra + 1) % 100 ≠ 0 ∨ (yearOfEra + 1) % 400 = 0) then 1
      else 0

theorem evenDays_mono {earlier : ℤ} (first : 0 ≤ earlier) (count : ℕ)
    (last : earlier + count < 146097)
    : evenDays earlier ≤ evenDays (earlier + count) := by
  induction count with
  | zero => simp
  | succ count ih =>
      have before := ih (by omega)
      refine before.trans ?_
      unfold evenDays
      push_cast at last ⊢
      omega

theorem evenDays_ends
    : ∀ year < 400, evenDays (firstDay (year : ℕ)) / 365 = (year : ℕ)
      ∧ evenDays (lastDay (year : ℕ)) / 365 = (year : ℕ)
      ∧ 0 ≤ firstDay (year : ℕ) ∧ lastDay (year : ℕ) < 146097 := by
  decide +kernel

theorem evenDays_year {year day : ℤ} (begun : 0 ≤ year) (ended : year < 400)
    (after : firstDay year ≤ day) (before : day ≤ lastDay year)
    : evenDays day / 365 = year := by
  obtain ⟨year, rfl⟩ := Int.eq_ofNat_of_zero_le begun
  obtain ⟨opens, closes, least, greatest⟩ := evenDays_ends year (by omega)
  obtain ⟨since, isSince⟩ := Int.eq_ofNat_of_zero_le (sub_nonneg.mpr after)
  obtain ⟨until_, isUntil⟩ := Int.eq_ofNat_of_zero_le (sub_nonneg.mpr before)
  have low := evenDays_mono least since (by omega)
  have high := evenDays_mono (least.trans after) until_ (by omega)
  rw [show firstDay (year : ℕ) + since = day by omega] at low
  rw [show day + until_ = lastDay (year : ℕ) by omega] at high
  omega

-- The two arithmetics together

theorem fromMarch_of_day
    : ∀ month < 12, ∀ day < 31, marchDays (month : ℕ) + (day : ℕ) < marchDays (month + 1 : ℕ)
      → (5 * (marchDays (month : ℕ) + (day : ℕ)) + 2) / 153 = (month : ℕ) := by
  decide

theorem monthLength_march
    : ∀ leap, ∀ month < 13, 1 ≤ month
      → marchDays (fromMarch (month : ℕ)) + Library.monthLength leap month
        ≤ (if month = 2 then 365 + (if leap then 1 else 0)
          else marchDays (fromMarch (month : ℕ) + 1)) := by
  decide

theorem marchDays_bounds
    : ∀ month < 13, 1 ≤ month → 0 ≤ marchDays (fromMarch (month : ℕ))
      ∧ (if month = 2 then fromMarch (month : ℕ) = 11 ∧ marchDays (fromMarch (month : ℕ)) = 337
        else 0 ≤ fromMarch (month : ℕ) ∧ fromMarch (month : ℕ) < 11
          ∧ marchDays (fromMarch (month : ℕ) + 1) ≤ 337
          ∧ marchDays (fromMarch (month : ℕ) + 1) ≤ marchDays (fromMarch (month : ℕ)) + 31) := by
  decide

theorem dayOfYear_spec {year month day : ℤ} (date : IsDate year month day)
    : 0 ≤ marchDays (fromMarch month) + day - 1
      ∧ (5 * (marchDays (fromMarch month) + day - 1) + 2) / 153 = fromMarch month
      ∧ marchDays (fromMarch month) + day - 1
        ≤ 364 + if Library.isLeap (marchYear year month + 1) then 1 else 0 := by
  obtain ⟨first, last, dayFirst, dayLast⟩ := date
  rw [Library.daysInMonth_eq first] at dayLast
  obtain ⟨month, rfl⟩ := Int.eq_ofNat_of_zero_le (show 0 ≤ month by omega)
  rw [Int.toNat_natCast] at dayLast
  have ends := monthLength_march (Library.isLeap year) month (by omega) (by omega)
  obtain ⟨begins, place⟩ := marchDays_bounds month (by omega) (by omega)
  by_cases february : month = 2
  · rw [if_pos february] at ends place
    obtain ⟨isLast, isBegin⟩ := place
    have next : marchYear year month + 1 = year := by
      unfold marchYear
      rw [if_pos (by omega), sub_add_cancel]
    rw [next]
    by_cases leap : Library.isLeap year = true
    · rw [if_pos leap] at ends ⊢
      omega
    · rw [if_neg leap] at ends ⊢
      omega
  · rw [if_neg february] at ends place
    obtain ⟨nonneg, small, atMost, short⟩ := place
    have least : (0 : ℤ) ≤ if Library.isLeap (marchYear year month + 1) then 1 else 0 := by
      split <;> omega
    refine ⟨by omega, ?_, by omega⟩
    obtain ⟨place, isPlace⟩ := Int.eq_ofNat_of_zero_le nonneg
    obtain ⟨since, isSince⟩ := Int.eq_ofNat_of_zero_le (show 0 ≤ day - 1 by omega)
    rw [isPlace] at ends short small ⊢
    have found := fromMarch_of_day place (by omega) since (by omega) (by push_cast; omega)
    rw [show marchDays (place : ℤ) + day - 1 = marchDays (place : ℤ) + (since : ℤ) by omega]
    exact found

theorem civilFromDays_daysFromCivil {year month day : ℤ} (date : IsDate year month day)
    : civilFromDays (daysFromCivil year month day) = (year, month, day) := by
  obtain ⟨begun, isMonth, ended⟩ := dayOfYear_spec date
  obtain ⟨first, last, _, _⟩ := date
  have parts : daysFromCivil year month day + 719468
      = marchYear year month / 400 * 146097
        + (firstDay (marchYear year month % 400)
          + (marchDays (fromMarch month) + day - 1)) := by
    unfold daysFromCivil marchYear fromMarch marchDays firstDay
    dsimp only
    omega
  have within : marchDays (fromMarch month) + day - 1 + firstDay (marchYear year month % 400)
      ≤ lastDay (marchYear year month % 400) := by
    unfold Library.isLeap at ended
    simp only [decide_eq_true_eq] at ended
    unfold lastDay
    split at ended
    · rw [if_pos (by omega)]
      omega
    · omega
  have year400 : 0 ≤ marchYear year month % 400 ∧ marchYear year month % 400 < 400 := by omega
  obtain ⟨yearGe, yearLt⟩ := year400
  have inYear := evenDays_year yearGe yearLt (le_add_of_nonneg_right begun)
    ((add_comm _ _).trans_le within)
  have inEra : 0 ≤ firstDay (marchYear year month % 400)
        + (marchDays (fromMarch month) + day - 1)
      ∧ firstDay (marchYear year month % 400) + (marchDays (fromMarch month) + day - 1)
        < 146097 := by
    obtain ⟨place, isPlace⟩ := Int.eq_ofNat_of_zero_le yearGe
    rw [isPlace] at within ⊢
    obtain ⟨_, _, least, greatest⟩ := evenDays_ends place (by omega)
    omega
  unfold civilFromDays
  dsimp only
  rw [parts]
  generalize dayOfEra : firstDay (marchYear year month % 400)
    + (marchDays (fromMarch month) + day - 1) = doe at *
  rw [show (marchYear year month / 400 * 146097 + doe) / 146097 = marchYear year month / 400 by
    omega, show (marchYear year month / 400 * 146097 + doe) % 146097 = doe by omega]
  unfold evenDays at inYear
  rw [inYear]
  have dayOfYear : doe - (365 * (marchYear year month % 400) + marchYear year month % 400 / 4
      - marchYear year month % 400 / 100) = marchDays (fromMarch month) + day - 1 := by
    unfold firstDay at dayOfEra
    omega
  rw [dayOfYear, isMonth]
  unfold marchDays fromMarch marchYear
  rcases lt_or_ge 2 month with late | early
  · rw [if_pos late, if_neg (show ¬ month ≤ 2 by omega), if_pos (show month - 3 < 10 by omega)]
    simp only [Prod.mk.injEq]
    refine ⟨?_, by omega, by omega⟩
    rw [if_neg (by omega)]
    omega
  · rw [if_neg (show ¬ 2 < month by omega), if_pos early,
      if_neg (show ¬ month + 9 < 10 by omega)]
    simp only [Prod.mk.injEq]
    refine ⟨?_, by omega, by omega⟩
    rw [if_pos (by omega)]
    omega

theorem daysFromCivil_civilFromDays (days : ℤ)
    : IsDate (civilFromDays days).1 (civilFromDays days).2.1 (civilFromDays days).2.2
      ∧ daysFromCivil (civilFromDays days).1 (civilFromDays days).2.1 (civilFromDays days).2.2
        = days := by
  obtain ⟨date, isDay⟩ := Library.ordToYmd_spec (days + Library.epochOrdinal)
  have same := @daysFromCivil_eq (Library.ordToYmd (days + Library.epochOrdinal)).1
    (Library.ordToYmd (days + Library.epochOrdinal)).2.1
    (Library.ordToYmd (days + Library.epochOrdinal)).2.2 date.month_ge date.month_le
  rw [isDay, add_sub_cancel_right] at same
  have back := civilFromDays_daysFromCivil date
  rw [same] at back
  rw [back]
  exact ⟨date, same⟩

end MokuroBunko.Sched
