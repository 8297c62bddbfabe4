import MokuroBunko.Lib.Utf8
import MokuroBunko.Library.NewestWins
import MokuroBunko.Sched.Dates

/-! Timestamps of the scheduler's files (`py.rs`): the text of an instant, and which texts are read as
which instants. Reading one never stops the program, takes no date and no time of day that there is
not, and gives back the whole second of a written instant. Floats are exact rationals.
-/

namespace MokuroBunko.Sched

open MokuroBunko.Lib
open Library (Bytes utf8 IsDate)

-- Writing

/-- `timestamp_to_seconds_micros`. -/
def timestampToSecondsMicros (epoch : ℚ) : ℤ × ℤ :=
  let intpart := Library.trunc epoch
  let floatpart := Library.roundHalfEven ((epoch - intpart) * 1000000)
  if 1000000 ≤ floatpart then (intpart + 1, floatpart - 1000000)
  else if floatpart < 0 then (intpart - 1, floatpart + 1000000)
  else (intpart, floatpart)

/-- A number as `{:0width$}` writes it. -/
def zeroPadded (width : ℕ) (value : ℤ) : List Char :=
  if value < 0 then '-' :: Decimal.padded (width - 1) value.natAbs
  else Decimal.padded width value.natAbs

def isoUtc (epoch : ℚ) : String :=
  let seconds := (timestampToSecondsMicros epoch).1
  let days := seconds / 86400
  let secsOfDay := seconds % 86400
  let date := civilFromDays days
  String.ofList (zeroPadded 4 date.1 ++ '-' :: zeroPadded 2 date.2.1 ++ '-' :: zeroPadded 2 date.2.2
    ++ 'T' :: zeroPadded 2 (secsOfDay / 3600) ++ ':' :: zeroPadded 2 (secsOfDay % 3600 / 60)
    ++ ':' :: zeroPadded 2 (secsOfDay % 60) ++ ['Z'])

-- Reading

def plus : UInt8 := 43
def dash : UInt8 := 45
def dot : UInt8 := 46
def zero : UInt8 := 48
def colon : UInt8 := 58

def digitsValue (bytes : Bytes) : ℤ :=
  bytes.foldl (fun value byte => value * 10 + (byte.toNat - 48)) 0

/-- The closure `digits` of `parse_iso_timestamp`. -/
def digits (s : Bytes) : Option ℤ :=
  if s = [] ∨ ¬ s.all Bytes.isDigit then none
  else if digitsValue s < 2 ^ 63 then some (digitsValue s) else none

/-- `str::split_once`. -/
def splitOnce (text : Bytes) (separator : UInt8) : Option (Bytes × Bytes) :=
  (text.findIdx? (· = separator)).map (fun place => (text.take place, text.drop (place + 1)))

/-- A field of a time of day that may be left out. -/
def optionalField (parts : List Bytes) (place : ℕ) : Sliced ℤ :=
  if place < parts.length then do
    let part ← Sliced.pick parts place
    Sliced.ofOption (digits part)
  else pure 0

/-- Hours, minutes and seconds, of a time of day or of an offset. -/
def parseFields (text : Bytes) : Sliced (ℤ × ℤ × ℤ) := do
  let parts := text.splitOn colon
  Sliced.require (parts ≠ [] ∧ parts.length ≤ 3 ∧ ∀ part ∈ parts, part.length = 2)
  let first ← Sliced.pick parts 0
  let h ← Sliced.ofOption (digits first)
  let mi ← optionalField parts 1
  let s ← optionalField parts 2
  Sliced.require (h ≤ 23 ∧ mi ≤ 59 ∧ s ≤ 59)
  pure (h, mi, s)

def inSeconds (fields : ℤ × ℤ × ℤ) : ℤ := fields.1 * 3600 + fields.2.1 * 60 + fields.2.2

/-- The microseconds of a fraction, after the fields `hms`. -/
def parseFraction (hms : Bytes) (frac : Option Bytes) : Sliced ℤ :=
  match frac with
  | none => pure 0
  | some f => do
      Sliced.require ((hms.splitOn colon).length = 3 ∧ f ≠ [] ∧ f.all Bytes.isDigit)
      Sliced.ofOption (digits ((f ++ List.replicate 6 zero).take 6))

/-- The seconds of an offset. -/
def parseOffset (offset : Option Bytes) : Sliced ℤ :=
  match offset with
  | none => pure 0
  | some off => do
      let sign := if off.head? = some dash then -1 else 1
      let text ← Utf8.slice off 1 off.length
      let fields ← parseFields text
      pure (sign * inSeconds fields)

/-- The time of day less the offset: seconds and microseconds. -/
def parseClock (clock : Bytes) (offset : Option Bytes) : Sliced (ℤ × ℤ) := do
  let (hms, frac) :=
    match splitOnce clock dot with
    | some (a, f) => (a, some f)
    | none => (clock, none)
  let fields ← parseFields hms
  let micros ← parseFraction hms frac
  let east ← parseOffset offset
  pure (inSeconds fields - east, micros)

/-- What follows the separator: the offset begins at the first sign. -/
def parseTime (time : Bytes) : Sliced (ℤ × ℤ) :=
  match time.findIdx? (fun byte => byte = plus ∨ byte = dash) with
  | some i => do
      let clock ← Utf8.slice time 0 i
      let offset ← Utf8.slice time i time.length
      parseClock clock (some offset)
  | none => parseClock time none

def parseDate (b : Bytes) : Sliced ℤ := do
  Sliced.require (10 ≤ b.length)
  let fifth ← Sliced.pick b 4
  Sliced.require (fifth = dash)
  let eighth ← Sliced.pick b 7
  Sliced.require (eighth = dash)
  let yearDigits ← Sliced.slice b 0 4
  let year ← Sliced.ofOption (digits yearDigits)
  let monthDigits ← Sliced.slice b 5 7
  let month ← Sliced.ofOption (digits monthDigits)
  let dayDigits ← Sliced.slice b 8 10
  let day ← Sliced.ofOption (digits dayDigits)
  Sliced.require (1 ≤ year ∧ (1 ≤ month ∧ month ≤ 12) ∧ 1 ≤ day ∧ day ≤ daysInMonth year month)
  pure (daysFromCivil year month day)

/-- What follows the date, after one byte that may be any. -/
def parseRest (rest : Bytes) : Sliced (ℤ × ℤ) :=
  if rest = [] then pure (0, 0)
  else do
    let afterSeparator ← Sliced.slice rest 1 rest.length
    let time ← Sliced.ofOption (Utf8.fromBytes afterSeparator)
    parseTime time

/-- `text.replace('Z', "+00:00")`. -/
def replaceZulu (text : String) : String :=
  String.ofList (text.toList.flatMap (fun char => if char = 'Z' then "+00:00".toList else [char]))

def parseIsoTimestamp (text : String) : Sliced ℚ := do
  let b := utf8 (replaceZulu text)
  let days ← parseDate b
  let rest ← Sliced.slice b 10 b.length
  let clock ← parseRest rest
  pure ((((days * 86400 + clock.1) * 1000000 + clock.2 : ℤ) : ℚ) / 1000000)

-- The grammar

/-- Digits, so many, and their value. -/
structure Number (width : ℕ) (bytes : Bytes) (value : ℤ) : Prop where
  length : bytes.length = width
  areDigits : bytes.all Bytes.isDigit = true
  isValue : digitsValue bytes = value

/-- Hours, then minutes if they are there, then seconds if they are. -/
inductive Fields : Bytes → ℤ × ℤ × ℤ → Prop
  | hours {first : Bytes} {hour : ℤ} (h : Number 2 first hour) : Fields first (hour, 0, 0)
  | minutes {first second : Bytes} {hour minute : ℤ} (h : Number 2 first hour)
    (mi : Number 2 second minute)
    : Fields (first ++ colon :: second) (hour, minute, 0)
  | seconds {first second third : Bytes} {hour minute sec : ℤ} (h : Number 2 first hour)
    (mi : Number 2 second minute) (s : Number 2 third sec)
    : Fields (first ++ colon :: (second ++ colon :: third)) (hour, minute, sec)

/-- A time of the day: none is later than 23:59:59. -/
def IsTime (fields : ℤ × ℤ × ℤ) : Prop :=
  (0 ≤ fields.1 ∧ fields.1 ≤ 23) ∧ (0 ≤ fields.2.1 ∧ fields.2.1 ≤ 59)
    ∧ (0 ≤ fields.2.2 ∧ fields.2.2 ≤ 59)

/-- What may follow seconds: digits after a dot, of which six count. -/
inductive Fraction (hms : Bytes) : Bytes → ℤ → Prop
  | whole : Fraction hms [] 0
  | part {f : Bytes} (follows : hms.length = 8) (filled : f ≠ [])
    (areDigits : f.all Bytes.isDigit = true)
    : Fraction hms (dot :: f) (digitsValue ((f ++ List.replicate 6 zero).take 6))

/-- How far the clock is ahead. -/
inductive Offset : Bytes → ℤ → Prop
  | utc : Offset [] 0
  | ahead {text : Bytes} {fields : ℤ × ℤ × ℤ} (reads : Fields text fields)
    (isTime : IsTime fields)
    : Offset (plus :: text) (inSeconds fields)
  | behind {text : Bytes} {fields : ℤ × ℤ × ℤ} (reads : Fields text fields)
    (isTime : IsTime fields)
    : Offset (dash :: text) (- inSeconds fields)

/-- A time of day in the seconds of UTC, with the microseconds. -/
inductive Time : Bytes → ℤ × ℤ → Prop
  | clock {hms frac zone : Bytes} {fields : ℤ × ℤ × ℤ} {micros east : ℤ}
    (reads : Fields hms fields) (isTime : IsTime fields) (fraction : Fraction hms frac micros)
    (offset : Offset zone east)
    : Time (hms ++ frac ++ zone) (inSeconds fields - east, micros)

/-- A date and the bytes after it. -/
inductive Date : Bytes → ℤ × ℤ × ℤ → Bytes → Prop
  | date {first second third rest : Bytes} {year month day : ℤ} (y : Number 4 first year)
    (m : Number 2 second month) (d : Number 2 third day) (notZero : 1 ≤ year)
    (isDate : IsDate year month day)
    : Date (first ++ dash :: (second ++ dash :: (third ++ rest))) (year, month, day) rest

/-- What follows a date: nothing, or a time after one byte of any kind. -/
inductive Rest : Bytes → ℤ × ℤ → Prop
  | nothing : Rest [] (0, 0)
  | time {separator : UInt8} {time : Bytes} {clock : ℤ × ℤ} (isTime : Time time clock)
    : Rest (separator :: time) clock

inductive Timestamp : Bytes → ℚ → Prop
  | timestamp {text rest : Bytes} {date : ℤ × ℤ × ℤ} {clock : ℤ × ℤ}
    (isDate : Date text date rest) (isRest : Rest rest clock)
    : Timestamp text
        ((((daysFromCivil date.1 date.2.1 date.2.2 * 86400 + clock.1) * 1000000 + clock.2 : ℤ) : ℚ)
          / 1000000)

-- Numbers

theorem digitsValue_concat (bytes : Bytes) (byte : UInt8)
    : digitsValue (bytes ++ [byte]) = digitsValue bytes * 10 + (byte.toNat - 48) := by
  unfold digitsValue
  rw [List.foldl_concat]

theorem isDigit_iff {byte : UInt8}
    : Bytes.isDigit byte = true ↔ 48 ≤ byte.toNat ∧ byte.toNat ≤ 57 := by
  unfold Bytes.isDigit
  rw [Bool.and_eq_true, decide_eq_true_iff, decide_eq_true_iff, UInt8.le_iff_toNat_le,
    UInt8.le_iff_toNat_le]
  rfl

theorem digitsValue_bounds (bytes : Bytes) (areDigits : bytes.all Bytes.isDigit = true)
    : 0 ≤ digitsValue bytes ∧ digitsValue bytes < 10 ^ bytes.length := by
  induction bytes using List.reverseRecOn with
  | nil => decide
  | append_singleton bytes byte ih =>
      rw [List.all_append, Bool.and_eq_true] at areDigits
      obtain ⟨low, high⟩ := ih areDigits.1
      have last := isDigit_iff.mp (by simpa using areDigits.2 : Bytes.isDigit byte = true)
      rw [digitsValue_concat, List.length_append, List.length_singleton, pow_succ]
      omega

theorem Number.nonneg {width : ℕ} {bytes : Bytes} {value : ℤ} (number : Number width bytes value)
    : 0 ≤ value := by
  obtain ⟨-, areDigits, rfl⟩ := number
  exact (digitsValue_bounds bytes areDigits).1

theorem digits_eq_some_iff {bytes : Bytes} {value : ℤ} (filled : bytes ≠ [])
    (short : bytes.length ≤ 18)
    : digits bytes = some value ↔ Number bytes.length bytes value := by
  unfold digits
  constructor
  · intro read
    by_cases areDigits : bytes.all Bytes.isDigit = true
    · rw [if_neg (by simp [filled, areDigits])] at read
      split at read
      · exact ⟨rfl, areDigits, Option.some.inj read⟩
      · cases read
    · rw [if_pos (.inr areDigits)] at read
      cases read
  · rintro ⟨-, areDigits, rfl⟩
    have bound := (digitsValue_bounds bytes areDigits).2
    have small : (10 : ℤ) ^ bytes.length ≤ 10 ^ 18 := pow_le_pow_right₀ (by omega) short
    rw [if_neg (by simp [filled, areDigits]), if_pos (by omega)]

theorem digits_eq_some_of_length {width : ℕ} {bytes : Bytes} {value : ℤ}
    (length : bytes.length = width) (positive : 0 < width) (short : width ≤ 18)
    : digits bytes = some value ↔ Number width bytes value := by
  subst length
  exact digits_eq_some_iff (List.length_pos_iff.mp positive) short

-- Fields of a time of day

theorem not_mem_of_all_isDigit {bytes : Bytes} {byte : UInt8} (other : Bytes.isDigit byte = false)
    (areDigits : bytes.all Bytes.isDigit = true)
    : byte ∉ bytes := by
  intro isIn
  have digit := List.all_eq_true.mp areDigits byte isIn
  rw [other] at digit
  cases digit

theorem Number.colon_not_mem {width : ℕ} {bytes : Bytes} {value : ℤ}
    (number : Number width bytes value)
    : colon ∉ bytes :=
  not_mem_of_all_isDigit (by decide) number.areDigits

theorem optionalField_means {parts : List Bytes} {place : ℕ}
    : Sliced.Means (optionalField parts place)
        (fun value => (parts[place]?.elim (some 0) digits) = some value) := by
  unfold optionalField
  by_cases within : place < parts.length
  · rw [if_pos within, List.getElem?_eq_getElem within]
    exact ((Sliced.Means.pick within).bind
      (fun part _ => Sliced.Means.ofOption (digits part))).congr (fun value => by simp)
  · rw [if_neg within, List.getElem?_eq_none (not_lt.mp within)]
    refine (Sliced.Means.pure 0).congr (fun value => ?_)
    simp [eq_comm]

theorem fields_iff {text : Bytes} {h mi s : ℤ}
    : ((text.splitOn colon).length ≤ 3 ∧ (∀ part ∈ text.splitOn colon, part.length = 2)
        ∧ (text.splitOn colon)[0]?.elim none digits = some h
        ∧ (text.splitOn colon)[1]?.elim (some 0) digits = some mi
        ∧ (text.splitOn colon)[2]?.elim (some 0) digits = some s)
      ↔ Fields text (h, mi, s) := by
  have twoDigits {part : Bytes} {value : ℤ} (length : part.length = 2)
      : digits part = some value ↔ Number 2 part value :=
    digits_eq_some_of_length length (by decide) (by decide)
  constructor
  · rintro ⟨few, lengths, readsHour, readsMinute, readsSecond⟩
    have whole := @List.intercalate_splitOn _ text _ _ colon
    rcases parts : text.splitOn colon with _ | ⟨first, _ | ⟨second, _ | ⟨third, _ | ⟨_, _⟩⟩⟩⟩
    · exact absurd parts (List.splitOn_ne_nil colon text)
    · rw [parts] at lengths readsHour readsMinute readsSecond whole
      obtain rfl : first = text := by simpa using whole
      cases readsMinute
      cases readsSecond
      exact .hours ((twoDigits (lengths _ (by simp))).mp readsHour)
    · rw [parts] at lengths readsHour readsMinute readsSecond whole
      obtain rfl : first ++ colon :: second = text := by simpa using whole
      cases readsSecond
      exact .minutes ((twoDigits (lengths _ (by simp))).mp readsHour)
        ((twoDigits (lengths _ (by simp))).mp readsMinute)
    · rw [parts] at lengths readsHour readsMinute readsSecond whole
      obtain rfl : first ++ colon :: (second ++ colon :: third) = text := by
        simpa [List.intercalate] using whole
      exact .seconds ((twoDigits (lengths _ (by simp))).mp readsHour)
        ((twoDigits (lengths _ (by simp))).mp readsMinute)
        ((twoDigits (lengths _ (by simp))).mp readsSecond)
    · rw [parts] at few
      simp only [List.length_cons] at few
      omega
  · intro reads
    cases reads with
    | hours first =>
        rw [List.splitOn_eq_singleton first.colon_not_mem]
        simp [first.length, (twoDigits first.length).mpr first]
    | minutes first second =>
        rw [List.splitOn_append_cons_self_of_not_mem first.colon_not_mem,
          List.splitOn_eq_singleton second.colon_not_mem]
        simp [first.length, second.length, (twoDigits first.length).mpr first,
          (twoDigits second.length).mpr second]
    | seconds first second third =>
        rw [List.splitOn_append_cons_self_of_not_mem first.colon_not_mem,
          List.splitOn_append_cons_self_of_not_mem second.colon_not_mem,
          List.splitOn_eq_singleton third.colon_not_mem]
        simp [first.length, second.length, third.length, (twoDigits first.length).mpr first,
          (twoDigits second.length).mpr second, (twoDigits third.length).mpr third]

theorem Fields.nonneg {text : Bytes} {fields : ℤ × ℤ × ℤ} (reads : Fields text fields)
    : 0 ≤ fields.1 ∧ 0 ≤ fields.2.1 ∧ 0 ≤ fields.2.2 := by
  cases reads with
  | hours first => exact ⟨first.nonneg, le_rfl, le_rfl⟩
  | minutes first second => exact ⟨first.nonneg, second.nonneg, le_rfl⟩
  | seconds first second third => exact ⟨first.nonneg, second.nonneg, third.nonneg⟩

theorem parseFields_means (text : Bytes)
    : Sliced.Means (parseFields text) (fun fields => Fields text fields ∧ IsTime fields) := by
  unfold parseFields
  have some_part := List.length_pos_iff.mpr (List.splitOn_ne_nil colon text)
  refine ((Sliced.Means.require _).bind (fun _ _ => (Sliced.Means.pick some_part).bind
    (fun _ _ => (Sliced.Means.ofOption _).bind (fun _ _ => optionalField_means.bind
      (fun _ _ => optionalField_means.bind (fun _ _ => (Sliced.Means.require _).bind
        (fun _ _ => Sliced.Means.pure _))))))).congr (fun fields => ?_)
  obtain ⟨h, mi, s⟩ := fields
  constructor
  · rintro ⟨-, ⟨-, few, lengths⟩, first, rfl, hour, readsHour, minute, readsMinute, second,
      readsSecond, -, notLater, same⟩
    obtain ⟨rfl, rfl, rfl⟩ : h = hour ∧ mi = minute ∧ s = second := by simpa using same
    have reads : Fields text (h, mi, s) := by
      refine fields_iff.mp ⟨few, lengths, ?_, readsMinute, readsSecond⟩
      rw [List.getElem?_eq_getElem some_part]
      exact readsHour
    have nonneg := reads.nonneg
    exact ⟨reads, ⟨nonneg.1, notLater.1⟩, ⟨nonneg.2.1, notLater.2.1⟩, nonneg.2.2, notLater.2.2⟩
  · rintro ⟨reads, isTime⟩
    obtain ⟨few, lengths, readsHour, readsMinute, readsSecond⟩ := fields_iff.mpr reads
    rw [List.getElem?_eq_getElem some_part] at readsHour
    exact ⟨(), ⟨List.splitOn_ne_nil colon text, few, lengths⟩, _, rfl, h, readsHour, mi,
      readsMinute, s, readsSecond, (), ⟨isTime.1.2, isTime.2.1.2, isTime.2.2.2⟩, rfl⟩

-- Fractions and offsets

theorem findIdx?_eq_some_iff_append {list : List UInt8} {kind : UInt8 → Bool} {place : ℕ}
    : list.findIdx? kind = some place
      ↔ ∃ before byte after, list = before ++ byte :: after ∧ kind byte = true
        ∧ (∀ earlier ∈ before, kind earlier = false) ∧ before.length = place := by
  constructor
  · intro found
    obtain ⟨within, isKind, others⟩ := List.findIdx?_eq_some_iff_getElem.mp found
    refine ⟨list.take place, list[place], list.drop (place + 1), ?_, isKind, ?_,
      List.length_take_of_le (Nat.le_of_lt within)⟩
    · rw [List.getElem_cons_drop, List.take_append_drop]
    · intro earlier isIn
      obtain ⟨index, isBefore, rfl⟩ := List.mem_take_iff_getElem.mp isIn
      simpa using others index (by omega)
  · rintro ⟨before, byte, after, rfl, isKind, others, rfl⟩
    refine List.findIdx?_eq_some_iff_getElem.mpr ⟨by simp, by simpa using isKind, ?_⟩
    intro index isBefore
    rw [List.getElem_append_left isBefore, others _ (List.getElem_mem isBefore)]
    decide

theorem first_split {kind : UInt8 → Bool} {before before' after after' : List UInt8}
    {byte byte' : UInt8} (same : before ++ byte :: after = before' ++ byte' :: after')
    (isKind : kind byte = true) (isKind' : kind byte' = true)
    (none : ∀ earlier ∈ before, kind earlier = false)
    (none' : ∀ earlier ∈ before', kind earlier = false)
    : before = before' ∧ byte :: after = byte' :: after' := by
  have found := findIdx?_eq_some_iff_append.mpr ⟨before, byte, after, rfl, isKind, none, rfl⟩
  rw [same, findIdx?_eq_some_iff_append.mpr
    ⟨before', byte', after', rfl, isKind', none', rfl⟩] at found
  exact List.append_inj same (Option.some.inj found).symm

theorem Fields.length_eq_iff {hms : Bytes} {fields : ℤ × ℤ × ℤ} (reads : Fields hms fields)
    : (hms.splitOn colon).length = 3 ↔ hms.length = 8 := by
  cases reads with
  | hours first =>
      rw [List.splitOn_eq_singleton first.colon_not_mem]
      simp [first.length]
  | minutes first second =>
      rw [List.splitOn_append_cons_self_of_not_mem first.colon_not_mem,
        List.splitOn_eq_singleton second.colon_not_mem]
      simp [first.length, second.length]
  | seconds first second third =>
      rw [List.splitOn_append_cons_self_of_not_mem first.colon_not_mem,
        List.splitOn_append_cons_self_of_not_mem second.colon_not_mem,
        List.splitOn_eq_singleton third.colon_not_mem]
      simp [first.length, second.length, third.length]

theorem parseFraction_means {hms : Bytes} {fields : ℤ × ℤ × ℤ} (reads : Fields hms fields)
    (frac : Option Bytes)
    : Sliced.Means (parseFraction hms frac)
        (Fraction hms (frac.elim [] (fun f => dot :: f))) := by
  cases frac with
  | none =>
      refine (Sliced.Means.pure 0).congr (fun micros => ?_)
      constructor
      · rintro rfl
        exact .whole
      · rintro ⟨⟩
        rfl
  | some f =>
      refine ((Sliced.Means.require _).bind
        (fun _ _ => Sliced.Means.ofOption _)).congr (fun micros => ?_)
      have sixDigits (areDigits : f.all Bytes.isDigit = true) (value : ℤ)
          : digits ((f ++ List.replicate 6 zero).take 6) = some value
            ↔ digitsValue ((f ++ List.replicate 6 zero).take 6) = value := by
        rw [@digits_eq_some_of_length 6 _ _ (by simp) (by decide) (by decide)]
        constructor
        · exact Number.isValue
        · intro isValue
          refine ⟨by simp, ?_, isValue⟩
          rw [List.all_eq_true] at areDigits ⊢
          intro byte isIn
          rcases List.mem_append.mp (List.mem_of_mem_take isIn) with ofFraction | isZero
          · exact areDigits byte ofFraction
          · rw [List.eq_of_mem_replicate isZero]
            decide
      constructor
      · rintro ⟨-, ⟨three, filled, areDigits⟩, isValue⟩
        obtain rfl := (sixDigits areDigits micros).mp isValue
        exact .part (reads.length_eq_iff.mp three) filled areDigits
      · rintro ⟨⟩
        case part follows filled areDigits =>
          exact ⟨(), ⟨reads.length_eq_iff.mpr follows, filled, areDigits⟩,
            (sixDigits areDigits _).mpr rfl⟩

theorem parseOffset_none : Sliced.Means (parseOffset none) (Offset []) := by
  refine (Sliced.Means.pure 0).congr (fun east => ?_)
  constructor
  · rintro rfl
    exact .utc
  · rintro ⟨⟩
    rfl

theorem parseOffset_some {chars : List Char} {before text : Bytes} {sign : UInt8}
    (spelled : chars.flatMap String.utf8EncodeChar = before ++ sign :: text)
    (isSign : sign = plus ∨ sign = dash)
    : Sliced.Means (parseOffset (some (sign :: text))) (Offset (sign :: text)) := by
  have small : sign < 128 := by
    rcases isSign with rfl | rfl <;> decide
  have sliced := Utf8.slice_means (Utf8.isCharBoundary_one spelled small)
    (Utf8.isCharBoundary_length (sign :: text)) (by simp) le_rfl
  refine (sliced.bind (fun part _ => (parseFields_means part).bind
    (fun _ _ => Sliced.Means.pure _))).congr (fun east => ?_)
  rw [List.take_length, List.drop_succ_cons, List.drop_zero]
  have forPlus : (if (plus :: text).head? = some dash then (-1 : ℤ) else 1) = 1 :=
    if_neg (by simp [plus, dash])
  have forDash : (if (dash :: text).head? = some dash then (-1 : ℤ) else 1) = -1 := if_pos rfl
  constructor
  · rintro ⟨_, rfl, fields, ⟨reads, isTime⟩, rfl⟩
    rcases isSign with rfl | rfl
    · rw [forPlus, one_mul]
      exact .ahead reads isTime
    · rw [forDash, neg_one_mul]
      exact .behind reads isTime
  · intro offset
    cases offset with
    | ahead reads isTime =>
        exact ⟨text, rfl, _, ⟨reads, isTime⟩, by rw [forPlus, one_mul]⟩
    | behind reads isTime =>
        exact ⟨text, rfl, _, ⟨reads, isTime⟩, by rw [forDash, neg_one_mul]⟩

-- Times

theorem Fields.all {text : Bytes} {fields : ℤ × ℤ × ℤ} (reads : Fields text fields)
    : ∀ byte ∈ text, Bytes.isDigit byte = true ∨ byte = colon := by
  have ofNumber {width : ℕ} {part : Bytes} {value : ℤ} (number : Number width part value)
      {byte : UInt8} (isIn : byte ∈ part)
      : Bytes.isDigit byte = true ∨ byte = colon :=
    .inl (List.all_eq_true.mp number.areDigits byte isIn)
  intro byte isIn
  cases reads with
  | hours first => exact ofNumber first isIn
  | minutes first second =>
      rcases List.mem_append.mp isIn with inFirst | later
      · exact ofNumber first inFirst
      · rcases List.mem_cons.mp later with rfl | inSecond
        · exact .inr rfl
        · exact ofNumber second inSecond
  | seconds first second third =>
      rcases List.mem_append.mp isIn with inFirst | later
      · exact ofNumber first inFirst
      · rcases List.mem_cons.mp later with rfl | later
        · exact .inr rfl
        · rcases List.mem_append.mp later with inSecond | later
          · exact ofNumber second inSecond
          · rcases List.mem_cons.mp later with rfl | inThird
            · exact .inr rfl
            · exact ofNumber third inThird

theorem Fraction.all {hms frac : Bytes} {micros : ℤ} (fraction : Fraction hms frac micros)
    : ∀ byte ∈ frac, Bytes.isDigit byte = true ∨ byte = dot := by
  cases fraction with
  | whole => simp
  | part _ _ areDigits =>
      intro byte isIn
      rcases List.mem_cons.mp isIn with rfl | inFraction
      · exact .inr rfl
      · exact .inl (List.all_eq_true.mp areDigits byte inFraction)

theorem Fields.noDot {hms : Bytes} {fields : ℤ × ℤ × ℤ} (reads : Fields hms fields)
    : ∀ byte ∈ hms, decide (byte = dot) = false := by
  intro byte isIn
  rcases reads.all byte isIn with digit | rfl
  · rw [decide_eq_false_iff_not]
    rintro rfl
    exact absurd digit (by decide)
  · decide

theorem splitOnce_fields {hms : Bytes} {fields : ℤ × ℤ × ℤ} (reads : Fields hms fields)
    : splitOnce hms dot = none := by
  unfold splitOnce
  rw [List.findIdx?_eq_none_iff.mpr reads.noDot]
  rfl

theorem splitOnce_fraction {hms : Bytes} {fields : ℤ × ℤ × ℤ} (reads : Fields hms fields)
    (frac : Bytes)
    : splitOnce (hms ++ dot :: frac) dot = some (hms, frac) := by
  unfold splitOnce
  rw [findIdx?_eq_some_iff_append.mpr ⟨hms, dot, frac, rfl, by simp, reads.noDot, rfl⟩]
  simp

theorem append_of_splitOnce (clock : Bytes)
    : (splitOnce clock dot = none ∨ ∃ before after, splitOnce clock dot = some (before, after)
        ∧ clock = before ++ dot :: after) := by
  unfold splitOnce
  cases found : clock.findIdx? (fun byte => decide (byte = dot)) with
  | none => exact .inl rfl
  | some place =>
      obtain ⟨before, byte, after, rfl, isDot, -, rfl⟩ := findIdx?_eq_some_iff_append.mp found
      obtain rfl := of_decide_eq_true isDot
      exact .inr ⟨before, after, by simp, rfl⟩

/-- The bytes before an offset are a time of day with its fraction. -/
def Before (clock : Bytes) (isOffset : ℤ → Prop) (result : ℤ × ℤ) : Prop :=
  ∃ hms frac fields east, clock = hms ++ frac ∧ Fields hms fields ∧ IsTime fields
    ∧ Fraction hms frac result.2 ∧ isOffset east ∧ result.1 = inSeconds fields - east

theorem parseClock_means {clock : Bytes} {offset : Option Bytes} {isOffset : ℤ → Prop}
    (ofOffset : Sliced.Means (parseOffset offset) isOffset)
    : Sliced.Means (parseClock clock offset) (Before clock isOffset) := by
  -- once the dot is found, the parts are read one after another
  have ofParts (hms : Bytes) (frac : Option Bytes)
      : Sliced.Means
          (do
            let fields ← parseFields hms
            let micros ← parseFraction hms frac
            let east ← parseOffset offset
            pure (inSeconds fields - east, micros))
          (fun result => ∃ fields east, Fields hms fields ∧ IsTime fields
            ∧ Fraction hms (frac.elim [] (fun f => dot :: f)) result.2 ∧ isOffset east
            ∧ result.1 = inSeconds fields - east) := by
    refine ((parseFields_means hms).bind (fun fields reads =>
      (parseFraction_means reads.1 frac).bind (fun _ _ => ofOffset.bind
        (fun _ _ => Sliced.Means.pure _)))).congr (fun result => ?_)
    constructor
    · rintro ⟨fields, ⟨reads, isTime⟩, micros, fraction, east, isEast, rfl⟩
      exact ⟨fields, east, reads, isTime, fraction, isEast, rfl⟩
    · rintro ⟨fields, east, reads, isTime, fraction, isEast, same⟩
      exact ⟨fields, ⟨reads, isTime⟩, result.2, fraction, east, isEast, Prod.ext same rfl⟩
  unfold parseClock
  rcases append_of_splitOnce clock with whole | ⟨before, after, split, rfl⟩
  · rw [whole]
    refine (ofParts clock none).congr (fun (seconds, micros) => ?_)
    constructor
    · rintro ⟨fields, east, reads, isTime, fraction, isEast, same⟩
      exact ⟨clock, [], fields, east, (List.append_nil _).symm, reads, isTime, fraction, isEast,
        same⟩
    · rintro ⟨hms, frac, fields, east, rfl, reads, isTime, fraction, isEast, same⟩
      cases fraction with
      | whole =>
          rw [List.append_nil]
          exact ⟨fields, east, reads, isTime, .whole, isEast, same⟩
      | part =>
          rw [splitOnce_fraction reads] at whole
          cases whole
  · rw [split]
    refine (ofParts before (some after)).congr (fun (seconds, micros) => ?_)
    constructor
    · rintro ⟨fields, east, reads, isTime, fraction, isEast, same⟩
      exact ⟨before, dot :: after, fields, east, rfl, reads, isTime, fraction, isEast, same⟩
    · rintro ⟨hms, frac, fields, east, parts, reads, isTime, fraction, isEast, same⟩
      rw [parts] at split
      cases fraction with
      | whole =>
          rw [List.append_nil, splitOnce_fields reads] at split
          cases split
      | part follows filled areDigits =>
          rw [splitOnce_fraction reads] at split
          cases split
          exact ⟨fields, east, reads, isTime, .part follows filled areDigits, isEast, same⟩

theorem noSign {hms frac : Bytes} {fields : ℤ × ℤ × ℤ} {micros : ℤ} (reads : Fields hms fields)
    (fraction : Fraction hms frac micros)
    : ∀ byte ∈ hms ++ frac, decide (byte = plus ∨ byte = dash) = false := by
  intro byte isIn
  rw [decide_eq_false_iff_not]
  have kind : Bytes.isDigit byte = true ∨ byte = colon ∨ byte = dot := by
    rcases List.mem_append.mp isIn with inFields | inFraction
    · rcases reads.all byte inFields with digit | isColon
      · exact .inl digit
      · exact .inr (.inl isColon)
    · rcases fraction.all byte inFraction with digit | isDot
      · exact .inl digit
      · exact .inr (.inr isDot)
  rintro (rfl | rfl)
  · exact absurd kind (by decide)
  · exact absurd kind (by decide)

theorem parseTime_means {time : Bytes} {chars : List Char}
    (spelled : time = chars.flatMap String.utf8EncodeChar)
    : Sliced.Means (parseTime time) (Time time) := by
  unfold parseTime
  cases found : time.findIdx? (fun byte => decide (byte = plus ∨ byte = dash)) with
  | none =>
      refine (parseClock_means parseOffset_none).congr (fun result => ?_)
      have noSigns := List.findIdx?_eq_none_iff.mp found
      constructor
      · rintro ⟨hms, frac, fields, east, rfl, reads, isTime, fraction, offset, same⟩
        obtain ⟨seconds, micros⟩ := result
        obtain rfl : seconds = inSeconds fields - east := same
        rw [← List.append_nil (hms ++ frac)]
        exact .clock reads isTime fraction offset
      · rintro (@⟨hms, frac, zone, fields, micros, east, reads, isTime, fraction, offset⟩)
        cases offset with
        | utc =>
            exact ⟨hms, frac, fields, 0, List.append_nil _, reads, isTime, fraction, .utc, rfl⟩
        | ahead => exact absurd (noSigns plus (by simp)) (by decide)
        | behind => exact absurd (noSigns dash (by simp)) (by decide)
  | some place =>
      obtain ⟨clock, sign, text, rfl, kind, noSigns, rfl⟩ := findIdx?_eq_some_iff_append.mp found
      have isSign : sign = plus ∨ sign = dash := of_decide_eq_true kind
      have small : sign < 128 := by
        rcases isSign with rfl | rfl <;> decide
      have boundary := @Utf8.isCharBoundary_small clock text sign small
      have first := Utf8.slice_means (Utf8.isCharBoundary_zero (clock ++ sign :: text)) boundary
        (Nat.zero_le _) (by simp)
      have second := Utf8.slice_means boundary
        (Utf8.isCharBoundary_length (clock ++ sign :: text)) (by simp) le_rfl
      rw [List.take_left, List.drop_zero] at first
      rw [List.take_length, List.drop_left] at second
      refine (first.bind (fun part isPart => second.bind (fun offset isOffset =>
        (show Sliced.Means (parseClock part (some offset)) (Before clock (Offset (sign :: text)))
          from ?_)))).congr (fun (seconds, micros) => ?_)
      · rw [isPart, isOffset]
        exact parseClock_means (parseOffset_some spelled.symm isSign)
      constructor
      · rintro ⟨_, rfl, _, rfl, hms, frac, fields, east, rfl, reads, isTime, fraction, offset, same⟩
        obtain rfl : seconds = inSeconds fields - east := same
        exact .clock reads isTime fraction offset
      · intro isTime
        refine ⟨clock, rfl, sign :: text, rfl, ?_⟩
        generalize whole : clock ++ sign :: text = time at isTime
        obtain @⟨hms, frac, zone, fields, _, east, reads, isTime, fraction, offset⟩ := isTime
        have none := noSign reads fraction
        have sameZone {sign' : UInt8} {text' : Bytes} (isSign' : sign' = plus ∨ sign' = dash)
            (parts : clock ++ sign :: text = hms ++ frac ++ sign' :: text')
            : clock = hms ++ frac ∧ sign :: text = sign' :: text' :=
          first_split parts kind (decide_eq_true isSign') noSigns none
        cases offset with
        | utc =>
            rw [List.append_nil] at whole
            have absurdly := none sign (whole ▸ by simp)
            rw [kind] at absurdly
            cases absurdly
        | ahead readsOffset isOffset =>
            obtain ⟨rfl, same⟩ := sameZone (.inl rfl) whole
            rw [same]
            exact ⟨hms, frac, fields, _, rfl, reads, isTime, fraction, .ahead readsOffset isOffset,
              rfl⟩
        | behind readsOffset isOffset =>
            obtain ⟨rfl, same⟩ := sameZone (.inr rfl) whole
            rw [same]
            exact ⟨hms, frac, fields, _, rfl, reads, isTime, fraction,
              .behind readsOffset isOffset, rfl⟩

-- Dates and timestamps

/-- The day that the bytes begin with. -/
def DateOf (b : Bytes) (days : ℤ) : Prop :=
  ∃ date rest, Date b date rest ∧ days = daysFromCivil date.1 date.2.1 date.2.2

theorem cut_date {b : Bytes} (long : 10 ≤ b.length) (fifth : b[4] = dash) (eighth : b[7] = dash)
    : b = (b.take 4).drop 0 ++ dash :: ((b.take 7).drop 5
      ++ dash :: ((b.take 10).drop 8 ++ b.drop 10)) := by
  rcases b with _ | ⟨b0, _ | ⟨b1, _ | ⟨b2, _ | ⟨b3, _ | ⟨b4, _ | ⟨b5, _ | ⟨b6, _ | ⟨b7, _ |
    ⟨b8, _ | ⟨b9, rest⟩⟩⟩⟩⟩⟩⟩⟩⟩⟩
  case cons.cons.cons.cons.cons.cons.cons.cons.cons.cons =>
    obtain rfl : b4 = dash := fifth
    obtain rfl : b7 = dash := eighth
    rfl
  all_goals simp at long

theorem Date.cut {b rest : Bytes} {year month day : ℤ} (isDate : Date b (year, month, day) rest)
    : ∃ long : 10 ≤ b.length, b[4] = dash ∧ b[7] = dash ∧ Number 4 ((b.take 4).drop 0) year
      ∧ Number 2 ((b.take 7).drop 5) month ∧ Number 2 ((b.take 10).drop 8) day ∧ 1 ≤ year
      ∧ IsDate year month day ∧ b.drop 10 = rest := by
  rcases isDate with @⟨first, second, third, _, _, _, _, y, m, d, notZero, isDate⟩
  rcases first with _ | ⟨_, _ | ⟨_, _ | ⟨_, _ | ⟨_, _ | ⟨_, _⟩⟩⟩⟩⟩
  case cons.cons.cons.cons.nil =>
    rcases second with _ | ⟨_, _ | ⟨_, _ | ⟨_, _⟩⟩⟩
    case cons.cons.nil =>
      rcases third with _ | ⟨_, _ | ⟨_, _ | ⟨_, _⟩⟩⟩
      case cons.cons.nil => exact ⟨by simp, rfl, rfl, y, m, d, notZero, isDate, rfl⟩
      all_goals exact absurd d.length (by simp)
    all_goals exact absurd m.length (by simp)
  all_goals exact absurd y.length (by simp)

theorem parseDate_means (b : Bytes) : Sliced.Means (parseDate b) (DateOf b) := by
  unfold parseDate
  by_cases long : 10 ≤ b.length
  · have numbers {start finish : ℕ} (width : ℕ) (within : finish ≤ 10)
        (size : start + width = finish) (positive : 0 < width) (value : ℤ)
        : digits ((b.take finish).drop start) = some value
          ↔ Number width ((b.take finish).drop start) value := by
      refine digits_eq_some_of_length ?_ positive (by omega)
      rw [List.length_drop, List.length_take]
      omega
    have year := @numbers 0 4 4 (by omega) rfl (by omega)
    have month := @numbers 5 7 2 (by omega) rfl (by omega)
    have day := @numbers 8 10 2 (by omega) rfl (by omega)
    refine Sliced.Means.congr ((Sliced.Means.require (10 ≤ b.length)).bind (fun _ _ =>
      (Sliced.Means.pick (show 4 < b.length by omega)).bind (fun fifth _ =>
      (Sliced.Means.require (fifth = dash)).bind (fun _ _ =>
      (Sliced.Means.pick (show 7 < b.length by omega)).bind (fun eighth _ =>
      (Sliced.Means.require (eighth = dash)).bind (fun _ _ =>
      (Sliced.Means.slice (Nat.zero_le 4) (show 4 ≤ b.length by omega)).bind (fun _ _ =>
      (Sliced.Means.ofOption _).bind (fun year _ =>
      (Sliced.Means.slice (show 5 ≤ 7 by omega) (show 7 ≤ b.length by omega)).bind (fun _ _ =>
      (Sliced.Means.ofOption _).bind (fun month _ =>
      (Sliced.Means.slice (show 8 ≤ 10 by omega) long).bind (fun _ _ =>
      (Sliced.Means.ofOption _).bind (fun day _ =>
      (Sliced.Means.require (1 ≤ year ∧ (1 ≤ month ∧ month ≤ 12) ∧ 1 ≤ day
        ∧ day ≤ daysInMonth year month)).bind (fun _ _ =>
      Sliced.Means.pure _))))))))))))) (fun days => ?_)
    constructor
    · rintro ⟨-, -, _, rfl, -, fifth, _, rfl, -, eighth, _, rfl, y, readsYear, _, rfl, m,
        readsMonth, _, rfl, d, readsDay, -, ⟨notZero, ⟨first, last⟩, dayFirst, dayLast⟩, rfl⟩
      rw [daysInMonth_eq first last] at dayLast
      refine ⟨(y, m, d), b.drop 10, ?_, rfl⟩
      have made := @Date.date _ _ _ (b.drop 10) _ _ _ ((year y).mp readsYear)
        ((month m).mp readsMonth) ((day d).mp readsDay) notZero ⟨first, last, dayFirst, dayLast⟩
      rw [← cut_date long fifth eighth] at made
      exact made
    · rintro ⟨⟨y, m, d⟩, rest, isDate, rfl⟩
      obtain ⟨_, fifth, eighth, isYear, isMonth, isDay, notZero, ⟨first, last, dayFirst, dayLast⟩,
        -⟩ := isDate.cut
      rw [← daysInMonth_eq first last] at dayLast
      exact ⟨(), long, _, rfl, (), fifth, _, rfl, (), eighth, _, rfl, y, (year y).mpr isYear, _,
        rfl, m, (month m).mpr isMonth, _, rfl, d, (day d).mpr isDay, (),
        ⟨notZero, ⟨first, last⟩, dayFirst, dayLast⟩, rfl⟩
  · refine (Sliced.Means.require_of_not long _).congr (fun days => ⟨False.elim, ?_⟩)
    rintro ⟨⟨y, m, d⟩, rest, isDate, -⟩
    obtain ⟨enough, -⟩ := isDate.cut
    exact absurd enough long

theorem spells_ascii {bytes : Bytes} (ascii : ∀ byte ∈ bytes, byte < 128)
    : ∃ chars : List Char, bytes = chars.flatMap String.utf8EncodeChar := by
  induction bytes with
  | nil => exact ⟨[], rfl⟩
  | cons byte rest ih =>
      obtain ⟨chars, rfl⟩ := ih (fun other isIn => ascii other (List.mem_cons_of_mem byte isIn))
      have small : byte.toNat < 128 := UInt8.lt_iff_toNat_lt.mp (ascii byte (by simp))
      have valid : byte.toNat.isValidChar := .inl (by omega)
      have code : (Char.ofNat byte.toNat).val.toNat = byte.toNat := by
        rw [Char.ofNat, dif_pos valid]
        rfl
      refine ⟨Char.ofNat byte.toNat :: chars, ?_⟩
      rw [List.flatMap_cons, String.utf8EncodeChar, code, if_pos (by omega), UInt8.ofNat_toNat]
      rfl

theorem small_of_kind {byte : UInt8}
    (kind : Bytes.isDigit byte = true ∨ byte = colon ∨ byte = dot ∨ byte = plus ∨ byte = dash)
    : byte < 128 := by
  rcases kind with digit | rfl | rfl | rfl | rfl
  · have := isDigit_iff.mp digit
    rw [UInt8.lt_iff_toNat_lt]
    change byte.toNat < 128
    omega
  all_goals decide

theorem Fields.ascii {text : Bytes} {fields : ℤ × ℤ × ℤ} (reads : Fields text fields)
    : ∀ byte ∈ text, byte < 128 := by
  intro byte isIn
  rcases reads.all byte isIn with digit | isColon
  · exact small_of_kind (.inl digit)
  · exact small_of_kind (.inr (.inl isColon))

theorem Time.ascii {time : Bytes} {clock : ℤ × ℤ} (isTime : Time time clock)
    : ∀ byte ∈ time, byte < 128 := by
  rcases isTime with ⟨reads, -, fraction, offset⟩
  intro byte isIn
  rcases List.mem_append.mp isIn with before | inZone
  · rcases List.mem_append.mp before with inFields | inFraction
    · exact reads.ascii byte inFields
    · rcases fraction.all byte inFraction with digit | isDot
      · exact small_of_kind (.inl digit)
      · exact small_of_kind (.inr (.inr (.inl isDot)))
  · cases offset with
    | utc => cases inZone
    | ahead reads _ =>
        rcases List.mem_cons.mp inZone with rfl | later
        · decide
        · exact reads.ascii byte later
    | behind reads _ =>
        rcases List.mem_cons.mp inZone with rfl | later
        · decide
        · exact reads.ascii byte later

theorem parseRest_means (rest : Bytes) : Sliced.Means (parseRest rest) (Rest rest) := by
  unfold parseRest
  cases rest with
  | nil =>
      rw [if_pos rfl]
      refine (Sliced.Means.pure _).congr (fun clock => ?_)
      constructor
      · rintro rfl
        exact .nothing
      · rintro ⟨⟩
        rfl
  | cons separator time =>
      rw [if_neg (List.cons_ne_nil _ _)]
      have sliced := @Sliced.Means.slice _ (separator :: time) 1 (separator :: time).length
        (by simp) le_rfl
      rw [List.take_length, List.drop_succ_cons, List.drop_zero] at sliced
      have spelled {text : Bytes} (found : Utf8.fromBytes time = some text)
          : Sliced.Means (parseTime text) (Time text) := by
        obtain ⟨-, chars, spelled⟩ := Utf8.fromBytes_eq_some_iff.mp found
        exact parseTime_means spelled
      refine (sliced.bind (fun bytes isBytes => (Sliced.Means.ofOption (Utf8.fromBytes bytes)).bind
        (fun text found => (show Sliced.Means (parseTime text) (Time text) from ?_)))).congr
        (fun clock => ?_)
      · rw [isBytes] at found
        exact spelled found
      constructor
      · rintro ⟨_, rfl, text, found, isTime⟩
        obtain ⟨rfl, -⟩ := Utf8.fromBytes_eq_some_iff.mp found
        exact .time isTime
      · rintro ⟨⟩
        case time isTime =>
          exact ⟨time, rfl, time, Utf8.fromBytes_eq_some_iff.mpr
            ⟨rfl, spells_ascii isTime.ascii⟩, isTime⟩

theorem parseIsoTimestamp_means (text : String)
    : Sliced.Means (parseIsoTimestamp text) (Timestamp (utf8 (replaceZulu text))) := by
  unfold parseIsoTimestamp
  generalize utf8 (replaceZulu text) = b
  have rested {days : ℤ} (isDate : DateOf b days)
      : Sliced.Means (Sliced.slice b 10 b.length) (fun rest => rest = (b.take b.length).drop 10) := by
    obtain ⟨⟨y, m, d⟩, rest, date, -⟩ := isDate
    obtain ⟨long, -⟩ := date.cut
    exact .slice long le_rfl
  refine ((parseDate_means b).bind (fun days isDate => (rested isDate).bind
    (fun rest _ => (parseRest_means rest).bind (fun _ _ => Sliced.Means.pure _)))).congr
      (fun instant => ?_)
  rw [List.take_length]
  constructor
  · rintro ⟨_, ⟨⟨y, m, d⟩, rest, isDate, rfl⟩, _, rfl, clock, isRest, rfl⟩
    obtain ⟨-, -, -, -, -, -, -, -, rfl⟩ := isDate.cut
    exact .timestamp isDate isRest
  · intro isTimestamp
    cases isTimestamp with
    | @timestamp rest date clock isDate isRest =>
        obtain ⟨-, -, -, -, -, -, -, -, rfl⟩ := isDate.cut
        exact ⟨_, ⟨date, _, isDate, rfl⟩, _, rfl, clock, isRest, rfl⟩

-- The second of an instant

/-- The second that the microsecond nearest to the instant is in. -/
def wholeSecond (epoch : ℚ) : ℤ := Library.nearest (epoch * 1000000) / 1000000

theorem timestampToSecondsMicros_fst (epoch : ℚ)
    : (timestampToSecondsMicros epoch).1 = wholeSecond epoch := by
  have near := Library.trunc_near epoch
  have bounds := @Library.nearest_bounds ((epoch - Library.trunc epoch) * 1000000) 1000000 (by
    rw [abs_mul]
    norm_num
    linarith)
  have shift := Library.nearest_add_even ((epoch - Library.trunc epoch) * 1000000)
    (Library.trunc epoch * 500000)
  rw [show (epoch - Library.trunc epoch) * 1000000
      + ((2 * (Library.trunc epoch * 500000) : ℤ) : ℚ) = epoch * 1000000 by push_cast; ring]
    at shift
  unfold timestampToSecondsMicros wholeSecond
  dsimp only
  rw [Library.roundHalfEven_eq_nearest, shift]
  generalize Library.nearest ((epoch - Library.trunc epoch) * 1000000) = part at bounds
  split_ifs <;> dsimp only <;> omega

theorem wholeSecond_micros (micros : ℤ) : wholeSecond (micros / 1000000) = micros / 1000000 := by
  unfold wholeSecond
  rw [div_mul_cancel₀ _ (by norm_num), Library.nearest_intCast]

-- The bytes of a written timestamp

theorem zeroPadded_eq_fixed {width : ℕ} {value : ℤ} (positive : 0 < width) (nonneg : 0 ≤ value)
    (short : value < 10 ^ width)
    : zeroPadded width value = Decimal.fixed width value.toNat := by
  obtain ⟨value, rfl⟩ := Int.eq_ofNat_of_zero_le nonneg
  unfold zeroPadded
  rw [if_neg (by omega), Int.natAbs_natCast, Int.toNat_natCast]
  exact Decimal.padded_eq_fixed
    ((Nat.length_toDigits_le_iff (by decide) positive).mpr (by exact_mod_cast short))

theorem digitChar_bytes
    : ∀ digit < 10, String.utf8EncodeChar digit.digitChar = [UInt8.ofNat (48 + digit)]
      ∧ Bytes.isDigit (UInt8.ofNat (48 + digit)) = true
      ∧ (UInt8.ofNat (48 + digit)).toNat = 48 + digit ∧ digit.digitChar ≠ 'Z' := by
  decide

theorem number_fixed (width value : ℕ) (short : value < 10 ^ width)
    : Number width ((Decimal.fixed width value).flatMap String.utf8EncodeChar) value := by
  induction width generalizing value with
  | zero =>
      obtain rfl : value = 0 := by simpa using short
      exact ⟨rfl, rfl, rfl⟩
  | succ width ih =>
      have fewer := ih (value / 10) (by rw [pow_succ] at short; omega)
      obtain ⟨encoded, isDigit, isValue, -⟩ := digitChar_bytes (value % 10) (by omega)
      rw [Decimal.fixed, List.flatMap_append, List.flatMap_singleton, encoded]
      refine ⟨?_, ?_, ?_⟩
      · rw [List.length_append, fewer.length, List.length_singleton]
      · rw [List.all_append, fewer.areDigits, List.all_cons, isDigit]
        rfl
      · rw [digitsValue_concat, fewer.isValue, isValue]
        push_cast
        omega

theorem replace_fixed (width value : ℕ)
    : (Decimal.fixed width value).flatMap
        (fun char => if char = 'Z' then ['+', '0', '0', ':', '0', '0'] else [char])
      = Decimal.fixed width value := by
  induction width generalizing value with
  | zero => rfl
  | succ width ih =>
      obtain ⟨-, -, -, other⟩ := digitChar_bytes (value % 10) (by omega)
      rw [Decimal.fixed, List.flatMap_append, ih, List.flatMap_singleton, if_neg other]

/-- The bytes of a number. -/
def numberBytes (width : ℕ) (value : ℤ) : Bytes :=
  (Decimal.fixed width value.toNat).flatMap String.utf8EncodeChar

theorem numberBytes_number {width : ℕ} {value : ℤ} (nonneg : 0 ≤ value)
    (short : value < 10 ^ width)
    : Number width (numberBytes width value) value := by
  obtain ⟨value, rfl⟩ := Int.eq_ofNat_of_zero_le nonneg
  exact number_fixed width value (by exact_mod_cast short)

/-- The instants whose date has four digits in its year. -/
def InCalendar (second : ℤ) : Prop :=
  1 ≤ (civilFromDays (second / 86400)).1 ∧ (civilFromDays (second / 86400)).1 ≤ 9999

theorem daysInMonth_le (year : ℤ) {month : ℤ} (first : 1 ≤ month) (last : month ≤ 12)
    : Library.daysInMonth year month ≤ 31 := by
  rw [← daysInMonth_eq first last]
  unfold daysInMonth
  split_ifs <;> omega

theorem utf8_isoUtc {epoch : ℚ} (inCalendar : InCalendar (wholeSecond epoch))
    : utf8 (replaceZulu (isoUtc epoch))
      = numberBytes 4 (civilFromDays (wholeSecond epoch / 86400)).1
        ++ dash :: (numberBytes 2 (civilFromDays (wholeSecond epoch / 86400)).2.1
        ++ dash :: (numberBytes 2 (civilFromDays (wholeSecond epoch / 86400)).2.2
        ++ 84 :: (numberBytes 2 (wholeSecond epoch % 86400 / 3600)
        ++ colon :: (numberBytes 2 (wholeSecond epoch % 86400 % 3600 / 60)
        ++ colon :: numberBytes 2 (wholeSecond epoch % 86400 % 60)) ++ []
        ++ plus :: (numberBytes 2 0 ++ colon :: numberBytes 2 0)))) := by
  obtain ⟨notZero, fourDigits⟩ := inCalendar
  obtain ⟨⟨monthGe, monthLe, dayGe, dayLe⟩, -⟩ :=
    daysFromCivil_civilFromDays (wholeSecond epoch / 86400)
  have clock : 0 ≤ wholeSecond epoch % 86400 ∧ wholeSecond epoch % 86400 < 86400 := by omega
  have dayFew := daysInMonth_le (civilFromDays (wholeSecond epoch / 86400)).1 monthGe monthLe
  unfold isoUtc replaceZulu utf8 numberBytes
  dsimp only
  rw [timestampToSecondsMicros_fst, String.toList_ofList, String.toList_ofList]
  generalize wholeSecond epoch % 86400 = second at clock
  generalize civilFromDays (wholeSecond epoch / 86400) = date at *
  rw [zeroPadded_eq_fixed (by decide) (by omega) (by omega),
    zeroPadded_eq_fixed (by decide) (by omega) (by omega),
    zeroPadded_eq_fixed (by decide) (by omega) (by omega),
    zeroPadded_eq_fixed (by decide) (by omega) (by omega),
    zeroPadded_eq_fixed (by decide) (by omega) (by omega),
    zeroPadded_eq_fixed (by decide) (by omega) (by omega)]
  have kept {char : Char} (other : char ≠ 'Z')
      : (if char = 'Z' then ['+', '0', '0', ':', '0', '0'] else [char]) = [char] := if_neg other
  rw [String.toList_ofList]
  simp only [List.flatMap_append, List.flatMap_cons, replace_fixed, List.flatMap_nil,
    kept (show '-' ≠ 'Z' by decide), kept (show 'T' ≠ 'Z' by decide),
    kept (show ':' ≠ 'Z' by decide), List.append_assoc, List.cons_append, List.nil_append]
  rfl

theorem timestamp_isoUtc {epoch : ℚ} (inCalendar : InCalendar (wholeSecond epoch))
    : Timestamp (utf8 (replaceZulu (isoUtc epoch))) (wholeSecond epoch) := by
  obtain ⟨isDate, sameDay⟩ := daysFromCivil_civilFromDays (wholeSecond epoch / 86400)
  have dayFew := daysInMonth_le (civilFromDays (wholeSecond epoch / 86400)).1 isDate.month_ge
    isDate.month_le
  have two {value : ℤ} (nonneg : 0 ≤ value) (short : value ≤ 99)
      : Number 2 (numberBytes 2 value) value :=
    numberBytes_number nonneg (by omega)
  rw [utf8_isoUtc inCalendar]
  obtain ⟨notZero, fourDigits⟩ := inCalendar
  have date := @Date.date _ _ _
    (84 :: (numberBytes 2 (wholeSecond epoch % 86400 / 3600)
      ++ colon :: (numberBytes 2 (wholeSecond epoch % 86400 % 3600 / 60)
      ++ colon :: numberBytes 2 (wholeSecond epoch % 86400 % 60)) ++ []
      ++ plus :: (numberBytes 2 0 ++ colon :: numberBytes 2 0))) _ _ _
    (@numberBytes_number 4 _ (by omega) (by omega))
    (two (by linarith [isDate.month_ge]) (by linarith [isDate.month_le]))
    (two (by linarith [isDate.day_ge]) (by linarith [isDate.day_le])) notZero isDate
  have clock := Fields.seconds
    (two (show 0 ≤ wholeSecond epoch % 86400 / 3600 by omega) (by omega))
    (two (show 0 ≤ wholeSecond epoch % 86400 % 3600 / 60 by omega) (by omega))
    (two (show 0 ≤ wholeSecond epoch % 86400 % 60 by omega) (by omega))
  have utc := Fields.minutes (two (le_refl 0) (by omega)) (two (le_refl 0) (by omega))
  have isTime : IsTime (wholeSecond epoch % 86400 / 3600, wholeSecond epoch % 86400 % 3600 / 60,
      wholeSecond epoch % 86400 % 60) := by
    unfold IsTime
    dsimp only
    omega
  have ofClock := Time.clock clock isTime .whole (.ahead utc (by unfold IsTime; decide))
  have made := Timestamp.timestamp date (.time ofClock)
  rw [sameDay] at made
  convert made using 1
  unfold inSeconds
  have sum : wholeSecond epoch = wholeSecond epoch / 86400 * 86400
      + (wholeSecond epoch % 86400 / 3600 * 3600
        + wholeSecond epoch % 86400 % 3600 / 60 * 60 + wholeSecond epoch % 86400 % 60
        - (0 * 3600 + 0 * 60 + 0)) := by omega
  rw [add_zero, ← sum, Int.cast_mul, Int.cast_ofNat, mul_div_cancel_right₀ _ (by norm_num)]

-- The round trip

/-- Days and dates are each other's, over the whole calendar. A timestamp is read back as the
whole second of its instant, so that it is the instant exactly when that has no fraction. Every
text is read without a stop, and as the grammar says, whose dates and times there are. -/
theorem timestamps_round_trip
    : (∀ year month day, IsDate year month day
        → civilFromDays (daysFromCivil year month day) = (year, month, day))
      ∧ (∀ days, IsDate (civilFromDays days).1 (civilFromDays days).2.1 (civilFromDays days).2.2
        ∧ daysFromCivil (civilFromDays days).1 (civilFromDays days).2.1 (civilFromDays days).2.2
          = days)
      ∧ (∀ epoch, InCalendar (wholeSecond epoch)
        → (parseIsoTimestamp (isoUtc epoch)).run = .ok (some (wholeSecond epoch)))
      ∧ (∀ micros : ℤ, wholeSecond (micros / 1000000) = micros / 1000000)
      ∧ (∀ text, (∃ result, (parseIsoTimestamp text).run = .ok result)
        ∧ ∀ instant, (parseIsoTimestamp text).run = .ok (some instant)
          ↔ Timestamp (utf8 (replaceZulu text)) instant) := by
  refine ⟨fun _ _ _ date => civilFromDays_daysFromCivil date, daysFromCivil_civilFromDays, ?_,
    wholeSecond_micros, ?_⟩
  · intro epoch inCalendar
    exact ((parseIsoTimestamp_means _).returns _).mpr (timestamp_isoUtc inCalendar)
  · intro text
    exact ⟨(parseIsoTimestamp_means text).runs, (parseIsoTimestamp_means text).returns⟩

/-- Half a second after 1970 began is not read back. -/
theorem half_second_lost
    : InCalendar (wholeSecond (1 / 2))
      ∧ (parseIsoTimestamp (isoUtc (1 / 2))).run ≠ .ok (some (1 / 2)) := by
  have whole : wholeSecond (1 / 2) = 0 := by
    have exact := wholeSecond_micros 500000
    norm_num at exact
    exact exact
  have inCalendar : InCalendar (wholeSecond (1 / 2)) := by
    rw [whole]
    unfold InCalendar
    decide
  refine ⟨inCalendar, ?_⟩
  rw [((parseIsoTimestamp_means _).returns _).mpr (timestamp_isoUtc inCalendar), whole]
  intro same
  have zero := Option.some.inj (Except.ok.inj same)
  norm_num at zero

end MokuroBunko.Sched
