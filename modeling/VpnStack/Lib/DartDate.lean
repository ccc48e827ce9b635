import VpnStack.Lib.Text

/-!
# Dart's dates

`DateTime.toIso8601String` and `DateTime.tryParse`. A date is an instant, in microseconds since the beginning of 1970, and whether
it is one of UTC or of the machine's time zone. What is written of a date is read back as the same date.
-/

namespace Dart

/-! ## The calendar -/

def isLeapYear (year : Int) : Bool := year % 4 = 0 ∧ (year % 100 ≠ 0 ∨ year % 400 = 0)

/-- `_dayFromYear`: the first day of a year, counted from 1970-01-01. -/
def dayFromYear (year : Int) : Int := 365 * (year - 1970) + (year - 1969) / 4 - (year - 1901) / 100 + (year - 1601) / 400

/-- `_DAYS_UNTIL_MONTH` -/
def daysUntilMonth (leap : Bool) (month : Nat) : Int :=
  ([0, 31, if leap then 60 else 59, if leap then 91 else 90, if leap then 121 else 120, if leap then 152 else 151,
    if leap then 182 else 181, if leap then 213 else 212, if leap then 244 else 243, if leap then 274 else 273,
    if leap then 305 else 304, if leap then 335 else 334] : List Int).getD (month - 1) 0

/-- The day of a date. A month that is none of the twelve is one of an earlier or a later year. -/
def dayFromDate (year month day : Int) : Int :=
  let year := year + (month - 1) / 12
  dayFromYear year + daysUntilMonth (isLeapYear year) (((month - 1) % 12).toNat + 1) + (day - 1)

/-- `year`, from the day. -/
def yearOf (day : Int) : Int :=
  let year := 1970 + day * 400 / 146097
  if day < dayFromYear year then year - 1 else if dayFromYear (year + 1) ≤ day then year + 1 else year

/-- `month`, from the day of the year: the last one that has begun. -/
def monthOf (leap : Bool) (day : Int) : Nat := ((List.range' 2 11).filter fun month => daysUntilMonth leap month ≤ day).length + 1

/-- The mean length of a year gives the year, or one of the two beside it. -/
theorem dayFromYear_near (day : Int) :
    dayFromYear (1970 + day * 400 / 146097 - 1) ≤ day ∧ day < dayFromYear (1970 + day * 400 / 146097 + 1 + 1) := by
  have hquotient : 146097 * (day * 400 / 146097) ≤ day * 400 ∧ day * 400 < 146097 * (day * 400 / 146097) + 146097 := by omega
  generalize day * 400 / 146097 = q at hquotient ⊢
  simp only [dayFromYear]
  omega

/-- A day is one of the year that `yearOf` gives. -/
theorem yearOf_bounds (day : Int) : dayFromYear (yearOf day) ≤ day ∧ day < dayFromYear (yearOf day + 1) := by
  obtain ⟨hbefore, hbehind⟩ := dayFromYear_near day
  unfold yearOf
  dsimp only
  split
  · rename_i hlt
    rw [Int.sub_add_cancel]
    exact ⟨hbefore, hlt⟩
  · rename_i hge
    split
    · rename_i hle
      exact ⟨hle, hbehind⟩
    · rename_i hgt
      exact ⟨Int.not_lt.mp hge, Int.not_le.mp hgt⟩

/-- The next year begins as many days later as the year has. -/
theorem dayFromYear_succ (year : Int) : dayFromYear (year + 1) = dayFromYear year + if isLeapYear year then 366 else 365 := by
  simp only [dayFromYear, isLeapYear, decide_eq_true_eq]
  split <;> omega

/-- The month of a day has begun, and is not over. -/
theorem monthOf_bounds (leap : Bool) {day : Int} (hnonneg : 0 ≤ day) (hlt : day < if leap then 366 else 365) :
    1 ≤ monthOf leap day ∧ monthOf leap day ≤ 12 ∧ daysUntilMonth leap (monthOf leap day) ≤ day ∧
      day < daysUntilMonth leap (monthOf leap day) + 31 := by
  have hall : ∀ (leap : Bool) (day : Fin 366), (day : Int) < (if leap then 366 else 365) → 1 ≤ monthOf leap day ∧
      monthOf leap day ≤ 12 ∧ daysUntilMonth leap (monthOf leap day) ≤ day ∧
      (day : Int) < daysUntilMonth leap (monthOf leap day) + 31 := by decide +kernel
  obtain ⟨n, rfl⟩ := Int.eq_ofNat_of_zero_le hnonneg
  have hn : n < 366 := by
    have hmax : (if leap then (366 : Int) else 365) ≤ 366 := by split <;> decide
    omega
  exact hall leap ⟨n, hn⟩ hlt

/-- `month` of the day. -/
def monthOfDay (day : Int) : Nat := monthOf (isLeapYear (yearOf day)) (day - dayFromYear (yearOf day))

/-- `day` of the day: which one of its month it is. -/
def dayOfMonth (day : Int) : Int :=
  day - dayFromYear (yearOf day) - daysUntilMonth (isLeapYear (yearOf day)) (monthOfDay day) + 1

/-- The year of a day is the one it is in. -/
theorem dayOfYear_bounds (day : Int) :
    0 ≤ day - dayFromYear (yearOf day) ∧ day - dayFromYear (yearOf day) < if isLeapYear (yearOf day) then 366 else 365 := by
  obtain ⟨hle, hlt⟩ := yearOf_bounds day
  rw [dayFromYear_succ] at hlt
  omega

/-- The month of a day is one of twelve. -/
theorem monthOfDay_bounds (day : Int) : 1 ≤ monthOfDay day ∧ monthOfDay day ≤ 12 := by
  obtain ⟨hnonneg, hlt⟩ := dayOfYear_bounds day
  have hmonth := monthOf_bounds _ hnonneg hlt
  exact ⟨hmonth.1, hmonth.2.1⟩

/-- The day of a month is one of at most thirty-one. -/
theorem dayOfMonth_bounds (day : Int) : 1 ≤ dayOfMonth day ∧ dayOfMonth day ≤ 31 := by
  obtain ⟨hnonneg, hlt⟩ := dayOfYear_bounds day
  obtain ⟨-, -, hbegun, hleft⟩ := monthOf_bounds _ hnonneg hlt
  unfold dayOfMonth monthOfDay
  omega

/-- A day is the day of its date. -/
theorem dayFromDate_date (day : Int) : dayFromDate (yearOf day) (monthOfDay day) (dayOfMonth day) = day := by
  obtain ⟨hfirst, hlast⟩ := monthOfDay_bounds day
  have hyear : ((monthOfDay day : Int) - 1) / 12 = 0 := by omega
  have hmonth : (((monthOfDay day : Int) - 1) % 12).toNat + 1 = monthOfDay day := by omega
  simp only [dayFromDate, hyear, hmonth, Int.add_zero, dayOfMonth]
  omega

/-! ## Writing -/

def microsecondsPerDay : Int := 86400000000

/-- A `DateTime` is at most a hundred million days away from 1970. -/
def maxMicroseconds : Int := 100000000 * microsecondsPerDay

def InRange (microseconds : Int) : Prop := -maxMicroseconds ≤ microseconds ∧ microseconds ≤ maxMicroseconds

instance (microseconds : Int) : Decidable (InRange microseconds) := inferInstanceAs (Decidable (_ ∧ _))

/-- The time zone of the machine: what its clocks show at an instant, and the instant that is taken for what they show. What is
taken for an instant that was taken before is that one again, though clocks show some times twice. -/
structure TimeZone where
  toLocal : Int → Int
  ofLocal : Int → Int
  near : ∀ t, toLocal t - t < microsecondsPerDay ∧ t - toLocal t < microsecondsPerDay
  ofLocal_toLocal_ofLocal : ∀ t, ofLocal (toLocal (ofLocal t)) = ofLocal t

/-- `_twoDigits`, `_threeDigits` and what `_fourDigits` and `_sixDigits` write behind a sign. -/
def padded (width n : Nat) : Text := (Nat.toDigits 10 n).leftpad width '0'

/-- The year: four digits, or a sign and six. -/
def yearText (year : Int) : Text :=
  if -9999 ≤ year ∧ year ≤ 9999 then
    if year < 0 then '-' :: padded 4 year.natAbs else padded 4 year.natAbs
  else (if year < 0 then '-' else '+') :: padded 6 year.natAbs

/-- The time of a day, from its microseconds. -/
def timeText (time : Nat) : Text :=
  padded 2 (time / 3600000000) ++ ':' :: padded 2 (time / 60000000 % 60) ++ ':' :: padded 2 (time / 1000000 % 60) ++
    '.' :: padded 3 (time / 1000 % 1000) ++ if time % 1000 = 0 then [] else padded 3 (time % 1000)

/-- What clocks show. -/
def readingText (reading : Int) : Text :=
  let day := reading / microsecondsPerDay
  yearText (yearOf day) ++ '-' :: padded 2 (monthOfDay day) ++ '-' :: padded 2 (dayOfMonth day).toNat ++
    'T' :: timeText (reading % microsecondsPerDay).toNat

/-- `toIso8601String` -/
def toIso8601String (zone : TimeZone) (microseconds : Int) (isUtc : Bool) : Text :=
  if isUtc then readingText microseconds ++ ['Z'] else readingText (zone.toLocal microseconds)

/-! ## Reading -/

/-- `\d` so many times. -/
def readDigits (n : Nat) (s : Text) : Option (Nat × Text) :=
  if n ≤ s.length ∧ (s.take n).all Char.isDigit then some (Nat.ofDigitChars 10 (s.take n) 0, s.drop n) else none

/-- A character that may be left out. -/
def skipChar (c : Char) (s : Text) : Text := if s.head? = some c then s.tail else s

/-- `[+-]?\d{n}` -/
def readYear (n : Nat) (s : Text) : Option (Int × Text) :=
  match s with
  | '+' :: s => (readDigits n s).map fun r => (r.1, r.2)
  | '-' :: s => (readDigits n s).map fun r => (-r.1, r.2)
  | s => (readDigits n s).map fun r => (r.1, r.2)

/-- `:?(\d\d)` -/
def readPart (s : Text) : Option (Nat × Text) := readDigits 2 (skipChar ':' s)

/-- `parseMilliAndMicroseconds`, of the first six digits. -/
def parseMilliAndMicroseconds (digits : Text) : Nat := Nat.ofDigitChars 10 ((digits ++ List.replicate 6 '0').take 6) 0

/-- `(?:[.,](\d+))?` -/
def readFraction (s : Text) : Nat × Text :=
  let digits := s.tail.takeWhile Char.isDigit
  if (s.head? = some '.' ∨ s.head? = some ',') ∧ digits ≠ [] then
    (parseMilliAndMicroseconds digits, s.tail.dropWhile Char.isDigit)
  else (0, s)

/-- The time part, in microseconds: the hour, and behind it the minute, the second and a fraction, as far as they are there. -/
def readTime (s : Text) : Option (Nat × Text) :=
  (readDigits 2 s).map fun (hour, s) =>
    match readPart s with
    | none => (hour * 3600000000, s)
    | some (minute, s) =>
      match readPart s with
      | none => ((hour * 60 + minute) * 60000000, s)
      | some (second, s) => (((hour * 60 + minute) * 60 + second) * 1000000 + (readFraction s).1, (readFraction s).2)

/-- `(\d\d)(?::?(\d\d))?$`, in minutes. -/
def readOffset (s : Text) : Option Nat := do
  let (hours, s) ← readDigits 2 s
  if s = [] then return 60 * hours
  else
    let (minutes, s) ← readPart s
    if s = [] then return 60 * hours + minutes else none

/-- The zone and the end: none without a zone, else the minutes it is ahead of UTC. -/
def readZone (s : Text) : Option (Option Int) :=
  if s = [] then some none
  else
    match skipChar ' ' s with
    | ['Z'] => some (some 0)
    | ['z'] => some (some 0)
    | '+' :: s => (readOffset s).map fun n => some n
    | '-' :: s => (readOffset s).map fun n => some (-n)
    | _ => none

/-- The expression that a date matches, with so many digits for the year: what clocks show, and the zone. -/
def readDateTime (n : Nat) (s : Text) : Option (Int × Option Int) := do
  let (year, s) ← readYear n s
  let (month, s) ← readDigits 2 (skipChar '-' s)
  let (day, s) ← readDigits 2 (skipChar '-' s)
  let date := dayFromDate year month day * microsecondsPerDay
  if s = [] then return (date, none)
  else if s.head? = some ' ' ∨ s.head? = some 'T' then
    let (time, s) ← readTime s.tail
    let zone ← readZone s
    return (date + time, zone)
  else none

/-- The date of what was read: in UTC where a zone was given. -/
def ofReading (zone : TimeZone) : Int × Option Int → Int × Bool
  | (reading, some minutes) => (reading - minutes * 60000000, true)
  | (reading, none) => (zone.ofLocal reading, false)

/-- `DateTime.tryParse`. The year takes as many digits as it can, from six to four. -/
def dateTimeTryParse (zone : TimeZone) (s : Text) : Option (Int × Bool) :=
  (([6, 5, 4].findSome? fun n => readDateTime n s).map (ofReading zone)).filter fun d => InRange d.1

/-! ## What was written is read back -/

/-- A padded number is as long as its width. -/
theorem length_padded {width n : Nat} (hwidth : 0 < width) (h : n < 10 ^ width) : (padded width n).length = width := by
  have hlength : (Nat.toDigits 10 n).length ≤ width := (Nat.length_toDigits_le_iff (by decide) hwidth).mpr h
  rw [padded, List.length_leftpad]
  omega

/-- A padded number is made of digits. -/
theorem digits_padded {width n : Nat} : (padded width n).all Char.isDigit = true := by
  rw [padded, List.leftpad, List.all_append, Bool.and_eq_true]
  refine ⟨List.all_eq_true.mpr fun c hc => ?_, List.all_eq_true.mpr fun c hc => ?_⟩
  · rw [List.eq_of_mem_replicate hc]
    decide
  · exact Nat.isDigit_of_mem_toDigits (by decide) (by decide) hc

theorem ofDigitChars_padded {width n : Nat} : Nat.ofDigitChars 10 (padded width n) 0 = n := by
  rw [padded, List.leftpad, Nat.ofDigitChars_append, Nat.ofDigitChars_replicate_zero, Nat.mul_zero, Nat.ofDigitChars_ten_toDigits]

/-- So many digits are read back, whatever stands behind them. -/
theorem readDigits_padded {width n : Nat} (hwidth : 0 < width) (h : n < 10 ^ width) (s : Text) :
    readDigits width (padded width n ++ s) = some (n, s) := by
  have hlength := length_padded hwidth h
  have htake : (padded width n ++ s).take width = padded width n := by
    rw [List.take_append_of_le_length (Nat.le_of_eq hlength.symm), List.take_of_length_le (Nat.le_of_eq hlength)]
  have hdrop : (padded width n ++ s).drop width = s := List.drop_left' hlength
  have hlong : width ≤ (padded width n ++ s).length := by
    rw [List.length_append, hlength]
    omega
  rw [readDigits, htake, hdrop, ofDigitChars_padded]
  exact if_pos ⟨hlong, digits_padded⟩

theorem skipChar_self (c : Char) (s : Text) : skipChar c (c :: s) = s := by simp [skipChar]

/-- No more digits are read than there are. -/
theorem readDigits_short {n : Nat} {digits s : Text} {c : Char} (hc : c.isDigit = false) (h : digits.length < n) :
    readDigits n (digits ++ c :: s) = none := by
  rw [readDigits, if_neg]
  rintro ⟨-, hall⟩
  have hmem : c ∈ (digits ++ c :: s).take n := by
    obtain ⟨k, rfl⟩ : ∃ k, n = digits.length + (k + 1) := ⟨n - digits.length - 1, by omega⟩
    rw [List.take_length_add_append, List.take_succ_cons]
    exact List.mem_append_right _ List.mem_cons_self
  rw [List.all_eq_true.mp hall c hmem] at hc
  cases hc

/-- A year without a sign is its digits. -/
theorem readYear_digit {n : Nat} {c : Char} {s : Text} (h : c.isDigit = true) :
    readYear n (c :: s) = (readDigits n (c :: s)).map fun r => ((r.1 : Int), r.2) := by
  unfold readYear
  split
  · rename_i heq
    rw [(List.cons.inj heq).1] at h
    exact absurd h (by decide)
  · rename_i heq
    rw [(List.cons.inj heq).1] at h
    exact absurd h (by decide)
  · rfl

/-- Digits in front of a year without a sign. -/
theorem readYear_padded {n width k : Nat} {s : Text} (hwidth : 0 < width) (h : k < 10 ^ width) :
    readYear n (padded width k ++ s) = (readDigits n (padded width k ++ s)).map fun r => ((r.1 : Int), r.2) := by
  have hlength := length_padded hwidth h
  have hdigits : (padded width k).all Char.isDigit = true := digits_padded
  cases hpadded : padded width k with
  | nil =>
    rw [hpadded] at hlength
    simp at hlength
    omega
  | cons c t =>
    rw [hpadded, List.all_cons, Bool.and_eq_true] at hdigits
    exact readYear_digit hdigits.1

/-- A year of four digits has no more of them, and is read with four. -/
theorem readYear_four {year : Int} (h : -9999 ≤ year ∧ year ≤ 9999) (s : Text) :
    readYear 6 (yearText year ++ '-' :: s) = none ∧ readYear 5 (yearText year ++ '-' :: s) = none ∧
      readYear 4 (yearText year ++ '-' :: s) = some (year, '-' :: s) := by
  have hk : year.natAbs < 10 ^ 4 := by
    have hbound : (10 : Nat) ^ 4 = 10000 := by decide
    omega
  have hlength := length_padded (by decide) hk
  have hsix : readDigits 6 (padded 4 year.natAbs ++ '-' :: s) = none := readDigits_short (by decide) (by omega)
  have hfive : readDigits 5 (padded 4 year.natAbs ++ '-' :: s) = none := readDigits_short (by decide) (by omega)
  have hfour := readDigits_padded (by decide) hk ('-' :: s)
  rw [yearText, if_pos h]
  by_cases hneg : year < 0
  · rw [if_pos hneg, List.cons_append]
    simp only [readYear, hsix, hfive, hfour, Option.map_none, Option.map_some, true_and]
    congr 2
    omega
  · rw [if_neg hneg, readYear_padded (by decide) hk, readYear_padded (by decide) hk, readYear_padded (by decide) hk, hsix, hfive,
      hfour]
    refine ⟨rfl, rfl, ?_⟩
    rw [Option.map_some]
    congr 2
    omega

/-- A year that needs six digits is read back with its sign. -/
theorem readYear_six {year : Int} (h : ¬ (-9999 ≤ year ∧ year ≤ 9999)) (hlt : year.natAbs < 10 ^ 6) (s : Text) :
    readYear 6 (yearText year ++ '-' :: s) = some (year, '-' :: s) := by
  have hsix := readDigits_padded (by decide) hlt ('-' :: s)
  rw [yearText, if_neg h, List.cons_append]
  by_cases hneg : year < 0
  · rw [if_pos hneg]
    simp only [readYear, hsix, Option.map_some]
    congr 2
    omega
  · rw [if_neg hneg]
    simp only [readYear, hsix, Option.map_some]
    congr 2
    omega

/-- Three digits of a fraction are its milliseconds. -/
theorem parseMilliAndMicroseconds_three {n : Nat} (h : n < 10 ^ 3) : parseMilliAndMicroseconds (padded 3 n) = n * 1000 := by
  have hlength := length_padded (by decide) h
  have htake : (padded 3 n ++ List.replicate 6 '0').take 6 = padded 3 n ++ List.replicate 3 '0' := by
    rw [List.take_append, hlength, List.take_of_length_le (by omega)]
    rfl
  rw [parseMilliAndMicroseconds, htake, Nat.ofDigitChars_append, ofDigitChars_padded, Nat.ofDigitChars_replicate_zero]
  omega

/-- Six digits of a fraction are its milliseconds and microseconds. -/
theorem parseMilliAndMicroseconds_six {m n : Nat} (hm : m < 10 ^ 3) (hn : n < 10 ^ 3) :
    parseMilliAndMicroseconds (padded 3 m ++ padded 3 n) = m * 1000 + n := by
  have hlength : (padded 3 m ++ padded 3 n).length = 6 := by
    rw [List.length_append, length_padded (by decide) hm, length_padded (by decide) hn]
  have htake : ((padded 3 m ++ padded 3 n) ++ List.replicate 6 '0').take 6 = padded 3 m ++ padded 3 n := by
    rw [List.take_append_of_le_length (by omega), List.take_of_length_le (by omega)]
  have hlast : Nat.ofDigitChars 10 (padded 3 n) m = 10 ^ (padded 3 n).length * m + n := by
    rw [Nat.ofDigitChars_eq_ofDigitChars_zero, ofDigitChars_padded]
  rw [parseMilliAndMicroseconds, htake, Nat.ofDigitChars_append, ofDigitChars_padded, hlast, length_padded (by decide) hn]
  omega

/-- The fraction goes as far as its digits do. -/
theorem readFraction_dot {digits s : Text} (hdigits : digits.all Char.isDigit = true) (hne : digits ≠ [])
    (hs : ∀ c ∈ s.head?, c.isDigit = false) :
    readFraction ('.' :: (digits ++ s)) = (parseMilliAndMicroseconds digits, s) := by
  have hall : ∀ c ∈ digits, c.isDigit = true := List.all_eq_true.mp hdigits
  have hstop : s.takeWhile Char.isDigit = [] ∧ s.dropWhile Char.isDigit = s := by
    cases s with
    | nil => exact ⟨rfl, rfl⟩
    | cons c s => simp [hs c rfl]
  have htake : (digits ++ s).takeWhile Char.isDigit = digits := by
    rw [List.takeWhile_append_of_pos hall, hstop.1, List.append_nil]
  have hdrop : (digits ++ s).dropWhile Char.isDigit = s := by
    rw [List.dropWhile_append_of_pos hall, hstop.2]
  simp only [readFraction, List.tail_cons, List.head?_cons, htake, hdrop, true_or, true_and]
  exact if_pos hne

/-- The time of a day is read back. -/
theorem readTime_timeText {time : Nat} (h : time < 86400000000) {s : Text} (hs : ∀ c ∈ s.head?, c.isDigit = false) :
    readTime (timeText time ++ s) = some (time, s) := by
  have hhour : time / 3600000000 < 10 ^ 2 := by omega
  have hminute : time / 60000000 % 60 < 10 ^ 2 := by omega
  have hsecond : time / 1000000 % 60 < 10 ^ 2 := by omega
  have hmilli : time / 1000 % 1000 < 10 ^ 3 := by omega
  have hmicro : time % 1000 < 10 ^ 3 := by omega
  have hne : padded 3 (time / 1000 % 1000) ≠ [] := by
    intro hnil
    have hlength := length_padded (by decide) hmilli
    rw [hnil] at hlength
    cases hlength
  have hpart : ∀ {n : Nat} (s : Text), n < 10 ^ 2 → readPart (':' :: (padded 2 n ++ s)) = some (n, s) := by
    intro n s hn
    rw [readPart, skipChar_self]
    exact readDigits_padded (by decide) hn s
  unfold readTime timeText
  simp only [List.append_assoc, List.cons_append]
  rw [readDigits_padded (by decide) hhour, Option.map_some]
  simp only [hpart _ hminute, hpart _ hsecond]
  split
  · rename_i hzero
    rw [List.nil_append, readFraction_dot digits_padded hne hs, parseMilliAndMicroseconds_three hmilli]
    congr 2
    omega
  · rw [← List.append_assoc, readFraction_dot _ (by simp [hne]) hs, parseMilliAndMicroseconds_six hmilli hmicro]
    · congr 2
      omega
    · rw [List.all_append, digits_padded, digits_padded]
      rfl

/-- What clocks show is read back, with the zone that stands behind it. -/
theorem readDateTime_reading (reading : Int) (hyear : (yearOf (reading / microsecondsPerDay)).natAbs < 10 ^ 6) (s : Text)
    (hs : ∀ c ∈ s.head?, c.isDigit = false) {offset : Option Int} (hzone : readZone s = some offset) :
    ([6, 5, 4].findSome? fun n => readDateTime n (readingText reading ++ s)) = some (reading, offset) := by
  obtain ⟨hfirst, hlast⟩ := monthOfDay_bounds (reading / microsecondsPerDay)
  obtain ⟨hday, hend⟩ := dayOfMonth_bounds (reading / microsecondsPerDay)
  have htime : (reading % microsecondsPerDay).toNat < 86400000000 := by
    simp only [microsecondsPerDay]
    omega
  have hmonth : monthOfDay (reading / microsecondsPerDay) < 10 ^ 2 := by omega
  have hdate : (dayOfMonth (reading / microsecondsPerDay)).toNat < 10 ^ 2 := by omega
  have hcast : ((dayOfMonth (reading / microsecondsPerDay)).toNat : Int) = dayOfMonth (reading / microsecondsPerDay) := by omega
  have hsum : reading / microsecondsPerDay * microsecondsPerDay + ((reading % microsecondsPerDay).toNat : Int) = reading := by
    simp only [microsecondsPerDay]
    omega
  generalize hrest : padded 2 (monthOfDay (reading / microsecondsPerDay)) ++ '-' ::
    (padded 2 (dayOfMonth (reading / microsecondsPerDay)).toNat ++
      'T' :: (timeText (reading % microsecondsPerDay).toNat ++ s)) = rest
  have htext : readingText reading ++ s = yearText (yearOf (reading / microsecondsPerDay)) ++ '-' :: rest := by
    simp only [readingText, List.append_assoc, List.cons_append, hrest]
  have hread : ∀ n, readYear n (yearText (yearOf (reading / microsecondsPerDay)) ++ '-' :: rest) =
      some (yearOf (reading / microsecondsPerDay), '-' :: rest) →
      readDateTime n (readingText reading ++ s) = some (reading, offset) := by
    intro n hn
    rw [htext]
    simp only [readDateTime, hn, Option.bind_eq_bind, Option.bind_some, skipChar_self]
    rw [← hrest, readDigits_padded (by decide) hmonth]
    simp only [Option.bind_some, skipChar_self]
    rw [readDigits_padded (by decide) hdate]
    simp only [Option.bind_some, hcast, dayFromDate_date, List.head?_cons, List.tail_cons,
      readTime_timeText htime hs, hzone, hsum]
    simp
  have hnone : ∀ n, readYear n (yearText (yearOf (reading / microsecondsPerDay)) ++ '-' :: rest) = none →
      readDateTime n (readingText reading ++ s) = none := by
    intro n hn
    rw [htext]
    simp only [readDateTime, hn, Option.bind_eq_bind, Option.bind_none]
  by_cases hshort : -9999 ≤ yearOf (reading / microsecondsPerDay) ∧ yearOf (reading / microsecondsPerDay) ≤ 9999
  · obtain ⟨hsix, hfive, hfour⟩ := readYear_four hshort rest
    simp only [List.findSome?_cons, hnone 6 hsix, hnone 5 hfive, hread 4 hfour]
  · simp only [List.findSome?_cons, hread 6 (readYear_six hshort hyear rest)]

/-- Clocks that are less than a day from an instant in range show a year of at most six digits. -/
theorem year_lt {reading : Int} (hlow : -maxMicroseconds - microsecondsPerDay ≤ reading)
    (hhigh : reading ≤ maxMicroseconds + microsecondsPerDay) : (yearOf (reading / microsecondsPerDay)).natAbs < 10 ^ 6 := by
  obtain ⟨hle, hlt⟩ := yearOf_bounds (reading / microsecondsPerDay)
  simp only [dayFromYear, maxMicroseconds, microsecondsPerDay] at *
  omega

/-- A date in UTC, or one whose clocks' time is taken for it, is read back. -/
theorem dateTimeTryParse_toIso8601String (zone : TimeZone) {microseconds : Int} {isUtc : Bool} (hrange : InRange microseconds)
    (hlocal : isUtc = false → zone.ofLocal (zone.toLocal microseconds) = microseconds) :
    dateTimeTryParse zone (toIso8601String zone microseconds isUtc) = some (microseconds, isUtc) := by
  obtain ⟨hlow, hhigh⟩ := hrange
  obtain ⟨hahead, hbehind⟩ := zone.near microseconds
  cases isUtc with
  | true =>
    have hread := readDateTime_reading microseconds
      (year_lt (by simp only [microsecondsPerDay]; omega) (by simp only [microsecondsPerDay]; omega)) ['Z'] (by decide) rfl
    have hnone : microseconds - 0 * 60000000 = microseconds := by omega
    rw [dateTimeTryParse, toIso8601String, if_pos rfl, hread, Option.map_some, ofReading, hnone]
    exact Option.filter_some_pos (decide_eq_true ⟨hlow, hhigh⟩)
  | false =>
    have hread := readDateTime_reading (zone.toLocal microseconds) (year_lt (by omega) (by omega)) [] (by simp) rfl
    rw [List.append_nil] at hread
    rw [dateTimeTryParse, toIso8601String, if_neg Bool.false_ne_true, hread, Option.map_some, ofReading, hlocal rfl]
    exact Option.filter_some_pos (decide_eq_true ⟨hlow, hhigh⟩)

/-- A date that was read is written as a text that is read as the same date. -/
theorem dateTimeTryParse_again (zone : TimeZone) {s : Text} {microseconds : Int} {isUtc : Bool}
    (h : dateTimeTryParse zone s = some (microseconds, isUtc)) :
    dateTimeTryParse zone (toIso8601String zone microseconds isUtc) = some (microseconds, isUtc) := by
  obtain ⟨hread, hrange⟩ := Option.filter_eq_some_iff.mp h
  obtain ⟨⟨reading, offset⟩, -, hof⟩ := Option.map_eq_some_iff.mp hread
  refine dateTimeTryParse_toIso8601String zone (of_decide_eq_true hrange) ?_
  rintro rfl
  cases offset with
  | some minutes => cases hof
  | none =>
    have hinstant : zone.ofLocal reading = microseconds := congrArg Prod.fst hof
    rw [← hinstant, zone.ofLocal_toLocal_ofLocal]

end Dart
