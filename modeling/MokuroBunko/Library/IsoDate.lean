import MokuroBunko.Lib.Decimal
import Mathlib.Data.Int.DivMod
import Mathlib.Data.Int.Order.Basic
import Mathlib.Data.List.Forall2
import Mathlib.Data.Rat.Floor

/-! Days of the proleptic Gregorian calendar and their dates (0001-01-01 is day 1), date texts as
`datetime.fromisoformat` reads them, and the stamp made of an instant (`isodate.rs`). Floats are
exact rationals.
-/

namespace MokuroBunko.Library

/-- `DAYS_BEFORE_MONTH`: in a year that is no leap year; the first entry is not used. -/
def daysBeforeMonth : List ℤ := [0, 0, 31, 59, 90, 120, 151, 181, 212, 243, 273, 304, 334]

/-- `DAYS_IN_MONTH`. -/
def daysInMonths : List ℤ := [0, 31, 28, 31, 30, 31, 30, 31, 31, 30, 31, 30, 31]

/-- `_ymd2ord(1970, 1, 1)`. -/
def epochOrdinal : ℤ := 719163

def isLeap (year : ℤ) : Bool := year % 4 = 0 ∧ (year % 100 ≠ 0 ∨ year % 400 = 0)

def daysInMonth (year month : ℤ) : ℤ :=
  if month = 2 ∧ isLeap year then 29 else daysInMonths.getD month.toNat 0

def daysBeforeYear (year : ℤ) : ℤ :=
  let y := year - 1
  y * 365 + y / 4 - y / 100 + y / 400

/-- The day of a date. -/
def ymdToOrd (year month day : ℤ) : ℤ :=
  daysBeforeYear year + daysBeforeMonth.getD month.toNat 0
    + (if 2 < month ∧ isLeap year then 1 else 0) + day

/-- The month and the day of a day of the year, counted from 0: an estimate that is one month
too far at most. -/
def monthAndDay (leap : Bool) (n : ℤ) : ℤ × ℤ :=
  let month := (n + 50) >>> (5 : ℕ)
  let preceding := daysBeforeMonth.getD month.toNat 0 + (if 2 < month ∧ leap then 1 else 0)
  if n < preceding then
    let month := month - 1
    let preceding := preceding
      - (daysInMonths.getD month.toNat 0 + (if month = 2 ∧ leap then 1 else 0))
    (month, n - preceding + 1)
  else (month, n - preceding + 1)

/-- The date of a day. -/
def ordToYmd (ordinal : ℤ) : ℤ × ℤ × ℤ :=
  let n := ordinal - 1
  let n400 := n / 146097
  let n := n % 146097
  let n100 := n / 36524
  let n := n % 36524
  let n4 := n / 1461
  let n := n % 1461
  let n1 := n / 365
  let n := n % 365
  let year := n400 * 400 + 1 + (n100 * 100 + n4 * 4 + n1)
  if n1 = 4 ∨ n100 = 4 then (year - 1, 12, 31)
  else (year, monthAndDay (n1 = 3 ∧ (n4 ≠ 24 ∨ n100 = 3)) n)

/-- Monday is 0. -/
def weekday (year month day : ℤ) : ℤ := (ymdToOrd year month day + 6) % 7

def isoWeek1Monday (year : ℤ) : ℤ :=
  let firstDay := ymdToOrd year 1 1
  let firstWeekday := (firstDay + 6) % 7
  let week1Monday := firstDay - firstWeekday
  if 3 < firstWeekday then week1Monday + 7 else week1Monday

/-- The date of a day of an ISO week. -/
def isoToYmd (isoYear isoWeek isoDay : ℤ) : Option (ℤ × ℤ × ℤ) :=
  if ¬ (1 ≤ isoYear ∧ isoYear ≤ 9999) then none
  else
    let firstWeekday := weekday isoYear 1 1
    let longYear := firstWeekday = 3 ∨ (firstWeekday = 2 ∧ isLeap isoYear)
    if (isoWeek ≤ 0 ∨ 53 ≤ isoWeek) ∧ ¬ (isoWeek = 53 ∧ longYear) then none
    else if isoDay ≤ 0 ∨ 8 ≤ isoDay then none
    else some (ordToYmd (isoWeek1Monday isoYear + (isoWeek - 1) * 7 + isoDay - 1))

-- Dates and days

/-- The days before a month and its length, in either kind of year. -/
def monthStart (leap : Bool) (month : ℕ) : ℤ :=
  daysBeforeMonth.getD month 0 + (if 2 < month ∧ leap then 1 else 0)

def monthLength (leap : Bool) (month : ℕ) : ℤ :=
  if month = 2 ∧ leap then 29 else daysInMonths.getD month 0

/-- A date of the calendar. -/
structure IsDate (year month day : ℤ) : Prop where
  month_ge : 1 ≤ month
  month_le : month ≤ 12
  day_ge : 1 ≤ day
  day_le : day ≤ daysInMonth year month

theorem daysInMonth_eq {year month : ℤ} (positive : 1 ≤ month)
    : daysInMonth year month = monthLength (isLeap year) month.toNat := by
  unfold daysInMonth monthLength
  congr 2
  exact propext (by omega)

theorem ymdToOrd_eq (year month day : ℤ)
    : ymdToOrd year month day
      = daysBeforeYear year + monthStart (isLeap year) month.toNat + day := by
  have later : 2 < month ↔ 2 < month.toNat := by omega
  unfold ymdToOrd monthStart
  simp only [later]
  omega

theorem monthStart_add_length_le
    : ∀ leap, ∀ month < 13, ∀ later < 13, 1 ≤ month → month < later
      → monthStart leap month + monthLength leap month ≤ monthStart leap later := by
  decide +kernel

theorem months_within
    : ∀ leap : Bool, ∀ month < 13, 1 ≤ month → 0 ≤ monthStart leap month
      ∧ monthStart leap month + monthLength leap month ≤ 365 + (if leap then 1 else 0) := by
  decide +kernel

theorem monthAndDay_spec
    : ∀ leap : Bool, ∀ n : ℕ, n < 366 → n < 365 + (if leap then 1 else 0)
      → 1 ≤ (monthAndDay leap n).1 ∧ (monthAndDay leap n).1 ≤ 12
        ∧ 1 ≤ (monthAndDay leap n).2
        ∧ (monthAndDay leap n).2 ≤ monthLength leap (monthAndDay leap n).1.toNat
        ∧ monthStart leap (monthAndDay leap n).1.toNat + (monthAndDay leap n).2 = n + 1 := by
  decide +kernel

theorem daysBeforeYear_succ (year : ℤ)
    : daysBeforeYear (year + 1)
      = daysBeforeYear year + 365 + (if isLeap year then 1 else 0) := by
  unfold daysBeforeYear isLeap
  dsimp only
  simp only [decide_eq_true_eq]
  split <;> omega

theorem daysBeforeYear_le {year later : ℤ} (notAfter : year ≤ later)
    : daysBeforeYear year ≤ daysBeforeYear later := by
  unfold daysBeforeYear
  dsimp only
  omega

theorem ymdToOrd_lt {year month day year' month' day' : ℤ} (date : IsDate year month day)
    (date' : IsDate year' month' day')
    (before : year < year' ∨ (year = year' ∧ (month < month' ∨ (month = month' ∧ day < day'))))
    : ymdToOrd year month day < ymdToOrd year' month' day' := by
  obtain ⟨monthGe, monthLe, dayGe, dayLe⟩ := date
  obtain ⟨monthGe', monthLe', dayGe', dayLe'⟩ := date'
  rw [daysInMonth_eq monthGe] at dayLe
  rw [ymdToOrd_eq, ymdToOrd_eq]
  obtain earlier | ⟨rfl, earlier | ⟨rfl, earlier⟩⟩ := before
  · have next := daysBeforeYear_le (show year + 1 ≤ year' by omega)
    rw [daysBeforeYear_succ] at next
    have within := months_within (isLeap year) month.toNat (by omega) (by omega)
    have within' := months_within (isLeap year') month'.toNat (by omega) (by omega)
    omega
  · have follows := monthStart_add_length_le (isLeap year) month.toNat (by omega)
      month'.toNat (by omega) (by omega) (by omega)
    omega
  · omega

theorem daysBeforeYear_cycle (n400 : ℤ) {n100 n4 n1 : ℤ} (century : 0 ≤ n100 ∧ n100 ≤ 3)
    (olympiad : 0 ≤ n4 ∧ n4 ≤ 24) (year : 0 ≤ n1 ∧ n1 ≤ 3)
    : daysBeforeYear (n400 * 400 + 1 + (n100 * 100 + n4 * 4 + n1))
      = n400 * 146097 + n100 * 36524 + n4 * 1461 + n1 * 365 := by
  unfold daysBeforeYear
  dsimp only
  omega

theorem isLeap_cycle (n400 : ℤ) {n100 n4 n1 : ℤ} (century : 0 ≤ n100 ∧ n100 ≤ 3)
    (olympiad : 0 ≤ n4 ∧ n4 ≤ 24) (year : 0 ≤ n1 ∧ n1 ≤ 3)
    : isLeap (n400 * 400 + 1 + (n100 * 100 + n4 * 4 + n1))
      = decide (n1 = 3 ∧ (n4 ≠ 24 ∨ n100 = 3)) := by
  unfold isLeap
  apply decide_eq_decide.mpr
  omega

theorem isDate_lastDay (year : ℤ) : IsDate year 12 31 where
  month_ge := by decide
  month_le := by decide
  day_ge := by decide
  day_le := by
    rw [daysInMonth, if_neg (by omega)]
    decide

theorem ymdToOrd_lastDay {year : ℤ} (leap : isLeap year = true)
    : ymdToOrd year 12 31 = daysBeforeYear year + 366 := by
  rw [ymdToOrd_eq, leap]
  have start : monthStart true (12 : ℤ).toNat = 335 := by decide
  omega

theorem ordToYmd_spec (ordinal : ℤ)
    : IsDate (ordToYmd ordinal).1 (ordToYmd ordinal).2.1 (ordToYmd ordinal).2.2
      ∧ ymdToOrd (ordToYmd ordinal).1 (ordToYmd ordinal).2.1 (ordToYmd ordinal).2.2
        = ordinal := by
  unfold ordToYmd
  dsimp only
  generalize cycle : (ordinal - 1) / 146097 = n400
  generalize inCycle : (ordinal - 1) % 146097 = inCycle400
  generalize century : inCycle400 / 36524 = n100
  generalize inCentury : inCycle400 % 36524 = inCycle100
  generalize olympiad : inCycle100 / 1461 = n4
  generalize inOlympiad : inCycle100 % 1461 = inCycle4
  generalize year : inCycle4 / 365 = n1
  generalize inYear : inCycle4 % 365 = n
  split
  case isTrue last =>
    dsimp only
    -- the day the divisions leave over at the end of a leap year
    obtain ⟨n100', n4', same, inCenturies, inOlympiads, leapYear, whole⟩ : ∃ n100' n4',
        n400 * 400 + 1 + (n100 * 100 + n4 * 4 + n1) - 1
          = n400 * 400 + 1 + (n100' * 100 + n4' * 4 + 3)
        ∧ (0 ≤ n100' ∧ n100' ≤ 3) ∧ (0 ≤ n4' ∧ n4' ≤ 24) ∧ (n4' ≠ 24 ∨ n100' = 3)
        ∧ n400 * 146097 + n100' * 36524 + n4' * 1461 + 3 * 365 + 366 = ordinal := by
      by_cases fourth : n100 = 4
      · exact ⟨3, 24, by omega, by omega, by omega, by omega, by omega⟩
      · exact ⟨n100, n4, by omega, by omega, by omega, by omega, by omega⟩
    have inYears : 0 ≤ (3 : ℤ) ∧ (3 : ℤ) ≤ 3 := by decide
    have leap := isLeap_cycle n400 inCenturies inOlympiads inYears
    have before := daysBeforeYear_cycle n400 inCenturies inOlympiads inYears
    refine ⟨isDate_lastDay _, ?_⟩
    rw [same, ymdToOrd_lastDay (by rw [leap]; exact decide_eq_true ⟨rfl, leapYear⟩), before]
    exact whole
  case isFalse inner =>
    rw [not_or] at inner
    dsimp only
    have inCenturies : 0 ≤ n100 ∧ n100 ≤ 3 := by omega
    have inOlympiads : 0 ≤ n4 ∧ n4 ≤ 24 := by omega
    have inYears : 0 ≤ n1 ∧ n1 ≤ 3 := by omega
    have leap := isLeap_cycle n400 inCenturies inOlympiads inYears
    have before := daysBeforeYear_cycle n400 inCenturies inOlympiads inYears
    rw [← leap]
    obtain ⟨day, rfl⟩ := Int.eq_ofNat_of_zero_le (show 0 ≤ n by omega)
    obtain ⟨monthGe, monthLe, dayGe, dayLe, whole⟩ :=
      monthAndDay_spec (isLeap (n400 * 400 + 1 + (n100 * 100 + n4 * 4 + n1))) day (by omega)
        (by omega)
    refine ⟨⟨monthGe, monthLe, dayGe, ?_⟩, ?_⟩
    · rw [daysInMonth_eq monthGe]
      exact dayLe
    · rw [ymdToOrd_eq, before]
      omega

theorem ordToYmd_lt {first second : ℤ} (earlier : first < second)
    : (ordToYmd first).1 < (ordToYmd second).1
      ∨ ((ordToYmd first).1 = (ordToYmd second).1
        ∧ ((ordToYmd first).2.1 < (ordToYmd second).2.1
          ∨ ((ordToYmd first).2.1 = (ordToYmd second).2.1
            ∧ (ordToYmd first).2.2 < (ordToYmd second).2.2))) := by
  obtain ⟨date, isFirst⟩ := ordToYmd_spec first
  obtain ⟨date', isSecond⟩ := ordToYmd_spec second
  by_contra notBefore
  have notAfter : ymdToOrd (ordToYmd second).1 (ordToYmd second).2.1 (ordToYmd second).2.2
      ≤ ymdToOrd (ordToYmd first).1 (ordToYmd first).2.1 (ordToYmd first).2.2 := by
    by_cases after : (ordToYmd second).1 < (ordToYmd first).1
        ∨ ((ordToYmd second).1 = (ordToYmd first).1
          ∧ ((ordToYmd second).2.1 < (ordToYmd first).2.1
            ∨ ((ordToYmd second).2.1 = (ordToYmd first).2.1
              ∧ (ordToYmd second).2.2 < (ordToYmd first).2.2)))
    · exact Int.le_of_lt (ymdToOrd_lt date' date after)
    · have years : (ordToYmd second).1 = (ordToYmd first).1 := by omega
      have months : (ordToYmd second).2.1 = (ordToYmd first).2.1 := by omega
      have days : (ordToYmd second).2.2 = (ordToYmd first).2.2 := by omega
      rw [years, months, days]
  omega

open MokuroBunko.Lib

-- Reading

/-- The UTF-8 bytes of a text; past its end there are zeros. -/
abbrev Bytes := List UInt8

def utf8 (text : String) : Bytes := text.toList.flatMap String.utf8EncodeChar

namespace Bytes

variable (s : Bytes)

/-- `Bytes::at`. -/
def byteAt (index : ℕ) : UInt8 := s.getD index 0

def isDigit (byte : UInt8) : Bool := 48 ≤ byte && byte ≤ 57

/-- `parse_digits`: the number continued by the digits, and the place after them. -/
def parseDigits (pos : ℕ) (var : ℤ) : ℕ → Option (ℕ × ℤ)
  | 0 => some (pos, var)
  | count + 1 =>
      let byte := s.byteAt pos
      if isDigit byte then parseDigits (pos + 1) (var * 10 + (byte.toNat - 48)) count else none

/-- Where the date ends. -/
def findSeparator (len : ℕ) : Option ℕ :=
  if len = 7 then some 7
  else if s.byteAt 4 = 0x2D then
    if s.byteAt 5 = 0x57 then
      if len < 8 then none
      else if 8 < len ∧ s.byteAt 8 = 0x2D then
        if len = 9 then none
        else if 10 < len ∧ isDigit (s.byteAt 10) then some 8 else some 10
      else some 8
    else some 10
  else if s.byteAt 4 = 0x57 then
    let idx := 7 + (((s.take len).drop 7).takeWhile isDigit).length
    if idx < 9 then some idx else some (if idx % 2 = 0 then 7 else 8)
  else some 8

/-- A date as `YYYY-MM-DD`, `YYYYMMDD` or a day of an ISO week. -/
def parseDate (len : ℕ) : Option (ℤ × ℤ × ℤ) := do
  let (pos, year) ← s.parseDigits 0 0 4
  let usesSeparator := s.byteAt pos = 0x2D
  let pos := if usesSeparator then pos + 1 else pos
  if s.byteAt pos = 0x57 then
    let (pos, week) ← s.parseDigits (pos + 1) 0 2
    if pos < len then
      if usesSeparator ∧ s.byteAt pos ≠ 0x2D then none
      else
        let (_, day) ← s.parseDigits (if usesSeparator then pos + 1 else pos) 0 1
        isoToYmd year week day
    else isoToYmd year week 1
  else
    let (pos, month) ← s.parseDigits pos 0 2
    if usesSeparator ∧ s.byteAt pos ≠ 0x2D then none
    else
      let (_, day) ← s.parseDigits (if usesSeparator then pos + 1 else pos) 0 2
      some (year, month, day)

/-- `CORRECTION`. -/
def correction : List ℤ := [100000, 10000, 1000, 100, 10]

/-- The fraction of `parse_hh_mm_ss_ff`: up to six digits count, any more are skipped. -/
def parseFraction (pos stop : ℕ) : Option (ℤ × Bool) := do
  let toParse := min (stop - pos) 6
  let (pos, value) ← s.parseDigits pos 0 toParse
  let value := if 0 < toParse ∧ toParse < 6 then value * correction.getD (toParse - 1) 1 else value
  some (value, ((s.drop pos).dropWhile isDigit).headD 0 ≠ 0)

/-- The loop of `parse_hh_mm_ss_ff` over the fields still to come: their values, the
microseconds, and whether something is left after them. -/
def parseFields (stop : ℕ) (separated : Option Bool) (pos : ℕ)
    : ℕ → Option (List ℤ × ℤ × Bool)
  | 0 => (s.parseFraction pos stop).map (fun (micros, rest) => ([], micros, rest))
  | fields + 1 => do
      let (pos, value) ← s.parseDigits pos 0 2
      let c := s.byteAt pos
      let pos := pos + 1
      let hasSeparator := separated.getD (c = 0x3A)
      if stop ≤ pos then some ([value], 0, c ≠ 0)
      else if hasSeparator ∧ c = 0x3A then
        let (values, found) ← parseFields stop (some hasSeparator) pos fields
        some (value :: values, found)
      else if c = 0x2E ∨ c = 0x2C then
        let (micros, rest) ← s.parseFraction pos stop
        some ([value], micros, rest)
      else if ¬ hasSeparator then
        let (values, found) ← parseFields stop (some hasSeparator) (pos - 1) fields
        some (value :: values, found)
      else none

/-- A time of day, or an offset. -/
structure TimeFields where
  hour : ℤ
  minute : ℤ
  second : ℤ
  micros : ℤ
deriving DecidableEq

/-- `parse_hh_mm_ss_ff`: the values, and whether something is left after them. -/
def parseHhMmSsFf (start stop : ℕ) : Option (TimeFields × Bool) := do
  let (values, micros, rest) ← s.parseFields stop none start 3
  some ({
    hour := values.getD 0 0
    minute := values.getD 1 0
    second := values.getD 2 0
    micros := micros
  }, rest)

def startsZone (byte : UInt8) : Bool := byte = 0x5A ∨ byte = 0x2B ∨ byte = 0x2D

/-- Where the zone begins, the first byte counted in any case, or the end. -/
def zoneStart (start stop : ℕ) : ℕ :=
  let width := max 1 (stop - start)
  start + (((List.range width).find? (fun ahead => startsZone (s.byteAt (start + ahead)))).getD
    width)

/-- A time of day and, when it is aware, the offset in microseconds. -/
def parseTime (start len : ℕ) : Option (TimeFields × Option ℤ) := do
  let stop := start + len
  let zone := s.zoneStart start stop
  let (time, rest) ← s.parseHhMmSsFf start zone
  if zone = stop then
    if rest then none else some (time, none)
  else if s.byteAt zone = 0x5A then
    if s.byteAt (zone + 1) ≠ 0 then none else some (time, some 0)
  else
    let sign : ℤ := if s.byteAt zone = 0x2D then -1 else 1
    let (offset, rest) ← s.parseHhMmSsFf (zone + 1) stop
    if rest then none
    else
      let seconds := sign * (offset.hour * 3600 + offset.minute * 60 + offset.second)
      some (time, some (seconds * 1000000 + offset.micros * sign))

/-- The bytes of the separator character, read off its first one. -/
def separatorWidth (lead : UInt8) : ℕ :=
  if lead &&& 0x80 = 0 then 1
  else if lead &&& 0xF0 = 0xE0 then 3
  else if lead &&& 0xF0 = 0xF0 then 4
  else 2

end Bytes

/-- `fromisoformat_utc_micros`: the microseconds since the epoch. -/
def fromIsoFormatUtcMicros (text : String) : Option ℤ :=
  if text.toList.length < 7 then none
  else do
    let bytes := utf8 text
    let separator ← bytes.findSeparator bytes.length
    let (year, month, day) ← bytes.parseDate separator
    let (time, zone) ←
      if separator < bytes.length then
        let start := separator + Bytes.separatorWidth (bytes.byteAt separator)
        bytes.parseTime start (bytes.length - start)
      else some (⟨0, 0, 0, 0⟩, none)
    if ¬ (1 ≤ year ∧ year ≤ 9999) ∨ ¬ (1 ≤ month ∧ month ≤ 12) then none
    else if day < 1 ∨ daysInMonth year month < day then none
    else if ¬ (0 ≤ time.hour ∧ time.hour ≤ 23) ∨ ¬ (0 ≤ time.minute ∧ time.minute ≤ 59)
        ∨ ¬ (0 ≤ time.second ∧ time.second ≤ 59) then none
    else if ¬ (0 ≤ time.micros ∧ time.micros ≤ 999999) then none
    else if 86400 * 1000000 ≤ |zone.getD 0| then none
    else
      let days := ymdToOrd year month day - epochOrdinal
      some ((days * 86400 + time.hour * 3600 + time.minute * 60 + time.second) * 1000000
        + time.micros - zone.getD 0)

-- Writing

/-- `micros_to_seconds`. -/
def microsToSeconds (micros : ℤ) : ℚ := micros / 1000000

/-- `f64::round`: a half goes away from zero. -/
def roundAway (x : ℚ) : ℤ := if 0 ≤ x then ⌊x + 1 / 2⌋ else ⌈x - 1 / 2⌉

def roundHalfEven (x : ℚ) : ℤ :=
  let rounded := roundAway x
  if |x - rounded| = 1 / 2 then 2 * roundAway (x / 2) else rounded

/-- `f64::trunc`. -/
def trunc (x : ℚ) : ℤ := if 0 ≤ x then ⌊x⌋ else ⌈x⌉

/-- `float_to_timeval`: whole seconds and microseconds. -/
def floatToTimeval (seconds : ℚ) : Option (ℤ × ℤ) :=
  let intpart := trunc seconds
  let floatpart := roundHalfEven ((seconds - intpart) * 1000000)
  let (intpart, floatpart) :=
    if 1000000 ≤ floatpart then (intpart + 1, floatpart - 1000000)
    else if floatpart < 0 then (intpart - 1, floatpart + 1000000)
    else (intpart, floatpart)
  if 1000000000000000 < |intpart| then none else some (intpart, floatpart)

/-- A civil time in UTC. -/
structure Civil where
  year : ℤ
  month : ℤ
  day : ℤ
  hour : ℤ
  minute : ℤ
  second : ℤ
  micros : ℤ
deriving DecidableEq

def utcFields (seconds : ℚ) : Option Civil := do
  let (whole, micros) ← floatToTimeval seconds
  let days := whole / 86400
  let secs := whole % 86400
  let ordinal := days + epochOrdinal
  if ordinal < 1 then none
  else
    let (year, month, day) := ordToYmd ordinal
    if ¬ (1 ≤ year ∧ year ≤ 9999) then none
    else some {
      year, month, day
      hour := secs / 3600
      minute := secs % 3600 / 60
      second := secs % 60
      micros
    }

/-- The text of a stamp. The year is not padded. -/
def Civil.stamp (civil : Civil) : String :=
  String.ofList (Nat.toDigits 10 civil.year.toNat
    ++ '-' :: Decimal.padded 2 civil.month.toNat
    ++ '-' :: Decimal.padded 2 civil.day.toNat
    ++ 'T' :: Decimal.padded 2 civil.hour.toNat
    ++ ':' :: Decimal.padded 2 civil.minute.toNat
    ++ ':' :: Decimal.padded 2 civil.second.toNat
    ++ '.' :: Decimal.padded 3 (civil.micros / 1000).toNat
    ++ ['Z'])

/-- `iso_stamp`. -/
def isoStamp (seconds : ℚ) : Option String := (utcFields seconds).map Civil.stamp

end MokuroBunko.Library
