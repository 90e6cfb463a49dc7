import FinDashboard.Text.Digits
import Mathlib.Algebra.Order.Ring.Int
import Mathlib.Data.Nat.Find

/-!
# Dates and times as texts

The ISO texts of dates and of times with an offset from UTC, and reading them back. A time is given
by its local fields and its offset.
-/

namespace FinDashboard.Text

open List Option Nat

def isLeap (year : ℕ) : Bool := year % 4 = 0 ∧ (year % 100 ≠ 0 ∨ year % 400 = 0)

def daysInMonth (year month : ℕ) : ℕ :=
  if month = 2 then if isLeap year then 29 else 28
  else if month = 4 ∨ month = 6 ∨ month = 9 ∨ month = 11 then 30
  else 31

structure Date where
  year : ℕ
  month : ℕ
  day : ℕ
  yearBound : 1 ≤ year ∧ year ≤ 9999
  monthBound : 1 ≤ month ∧ month ≤ 12
  dayBound : 1 ≤ day ∧ day ≤ daysInMonth year month
deriving DecidableEq

structure Clock where
  hour : ℕ
  minute : ℕ
  second : ℕ
  microsecond : ℕ
  hourBound : hour < 24
  minuteBound : minute < 60
  secondBound : second < 60
  microsecondBound : microsecond < 10 ^ 6
deriving DecidableEq

/-- An offset from UTC; only one that is not zero can be negative. -/
structure UtcOffset where
  negative : Bool
  size : Clock
  signed : negative = true →
    size.hour ≠ 0 ∨ size.minute ≠ 0 ∨ size.second ≠ 0 ∨ size.microsecond ≠ 0
deriving DecidableEq

/-- A time with an offset. -/
structure DateTime where
  date : Date
  clock : Clock
  offset : UtcOffset
deriving DecidableEq

variable (date : Date)

namespace Date

def isoformat (date : Date) : List Char :=
  padded 4 date.year ++ '-' :: padded 2 date.month ++ '-' :: padded 2 date.day

def ofFields (year month day : ℕ) : Option Date :=
  if bounds : (1 ≤ year ∧ year ≤ 9999) ∧ (1 ≤ month ∧ month ≤ 12) ∧
      (1 ≤ day ∧ day ≤ daysInMonth year month) then
    some
      { year := year, month := month, day := day
        yearBound := bounds.1, monthBound := bounds.2.1, dayBound := bounds.2.2 }
  else none

def readFront (text : List Char) : Option (Date × List Char) := do
  let (year, text) ← readPadded 4 text
  let text ← expect '-' text
  let (month, text) ← readPadded 2 text
  let text ← expect '-' text
  let (day, text) ← readPadded 2 text
  let date ← ofFields year month day
  some (date, text)

def fromisoformat (text : List Char) : Option Date := do
  let (date, text) ← readFront text
  if text = [] then some date else none

def ordinalKey (date : Date) : ℕ := (date.year * 13 + date.month) * 32 + date.day

theorem ofFields_self : ofFields date.year date.month date.day = some date :=
  dif_pos ⟨date.yearBound, date.monthBound, date.dayBound⟩

theorem day_lt : date.day < 10 ^ 2 := by
  have bound := date.dayBound.2
  unfold daysInMonth at bound
  split at bound
  · split at bound <;> omega
  · split at bound <;> omega

theorem readFront_append (rest : List Char) : readFront (date.isoformat ++ rest) = some (date, rest) := by
  have year : date.year < 10 ^ 4 := by
    have bound := date.yearBound.2
    omega
  have month : date.month < 10 ^ 2 := by
    have bound := date.monthBound.2
    omega
  unfold readFront isoformat
  simp only [append_assoc, cons_append, readPadded_padded (by decide : 0 < 4) year,
    readPadded_padded (by decide : 0 < 2) month, readPadded_padded (by decide : 0 < 2) date.day_lt,
    expect_cons, ofFields_self, bind_eq_bind, bind_some]

theorem fromisoformat_isoformat : fromisoformat date.isoformat = some date := by
  have read := date.readFront_append []
  rw [append_nil] at read
  simp only [fromisoformat, read, bind_eq_bind, bind_some, if_true]

end Date

namespace Clock

def zero : Clock where
  hour := 0
  minute := 0
  second := 0
  microsecond := 0
  hourBound := by decide
  minuteBound := by decide
  secondBound := by decide
  microsecondBound := by decide

def ofFields (hour minute second microsecond : ℕ) : Option Clock :=
  if bounds : hour < 24 ∧ minute < 60 ∧ second < 60 ∧ microsecond < 10 ^ 6 then
    some
      { hour := hour, minute := minute, second := second, microsecond := microsecond
        hourBound := bounds.1, minuteBound := bounds.2.1, secondBound := bounds.2.2.1
        microsecondBound := bounds.2.2.2 }
  else none

theorem ofFields_self (clock : Clock) :
    ofFields clock.hour clock.minute clock.second clock.microsecond = some clock :=
  dif_pos ⟨clock.hourBound, clock.minuteBound, clock.secondBound, clock.microsecondBound⟩

def microsecondText (microsecond : ℕ) : List Char :=
  if microsecond = 0 then [] else '.' :: padded 6 microsecond

def readMicrosecond (text : List Char) : Option (ℕ × List Char) :=
  match text with
  | '.' :: rest => readPadded 6 rest
  | _ => some (0, text)

theorem readMicrosecond_append {microsecond : ℕ} (bound : microsecond < 10 ^ 6)
    {rest : List Char} (ends : ∀ more, rest ≠ '.' :: more) :
    readMicrosecond (microsecondText microsecond ++ rest) = some (microsecond, rest) := by
  unfold microsecondText
  split
  · rename_i zero
    subst zero
    rw [nil_append]
    unfold readMicrosecond
    split
    · exact absurd rfl (ends _)
    · rfl
  · exact readPadded_padded (by decide) bound rest

/-- The time of the day in a timestamp. -/
def isoformat (clock : Clock) : List Char :=
  padded 2 clock.hour ++ ':' :: padded 2 clock.minute ++ ':' :: padded 2 clock.second ++
    microsecondText clock.microsecond

def readFront (text : List Char) : Option (Clock × List Char) := do
  let (hour, text) ← readPadded 2 text
  let text ← expect ':' text
  let (minute, text) ← readPadded 2 text
  let text ← expect ':' text
  let (second, text) ← readPadded 2 text
  let (microsecond, text) ← readMicrosecond text
  let clock ← ofFields hour minute second microsecond
  some (clock, text)

section

variable (clock : Clock)

theorem hour_lt : clock.hour < 10 ^ 2 := by
  have bound := clock.hourBound
  omega

theorem minute_lt : clock.minute < 10 ^ 2 := by
  have bound := clock.minuteBound
  omega

theorem second_lt : clock.second < 10 ^ 2 := by
  have bound := clock.secondBound
  omega

end

theorem readFront_append (clock : Clock) {rest : List Char} (ends : ∀ more, rest ≠ '.' :: more) :
    readFront (clock.isoformat ++ rest) = some (clock, rest) := by
  unfold readFront isoformat
  simp only [append_assoc, cons_append, readPadded_padded (by decide : 0 < 2) clock.hour_lt,
    readPadded_padded (by decide : 0 < 2) clock.minute_lt,
    readPadded_padded (by decide : 0 < 2) clock.second_lt, expect_cons,
    readMicrosecond_append clock.microsecondBound ends, ofFields_self, bind_eq_bind,
    bind_some]

end Clock

namespace UtcOffset

/-- Seconds are written where the offset has any, or has microseconds. -/
def secondsText (size : Clock) : List Char :=
  if size.second = 0 ∧ size.microsecond = 0 then []
  else ':' :: padded 2 size.second ++ Clock.microsecondText size.microsecond

def isoformat (offset : UtcOffset) : List Char :=
  (if offset.negative then '-' else '+') :: padded 2 offset.size.hour ++
    ':' :: padded 2 offset.size.minute ++ secondsText offset.size

def readSeconds (text : List Char) : Option (ℕ × ℕ) := do
  if text = [] then return (0, 0)
  let text ← expect ':' text
  let (second, text) ← readPadded 2 text
  let (microsecond, text) ← Clock.readMicrosecond text
  if text = [] then return (second, microsecond) else none

def read : List Char → Option UtcOffset
  | [] => none
  | sign :: text => do
    if sign ≠ '-' ∧ sign ≠ '+' then none
    let (hour, text) ← readPadded 2 text
    let text ← expect ':' text
    let (minute, text) ← readPadded 2 text
    let (second, microsecond) ← readSeconds text
    let size ← Clock.ofFields hour minute second microsecond
    if signed : sign = '-' ∧
        (size.hour ≠ 0 ∨ size.minute ≠ 0 ∨ size.second ≠ 0 ∨ size.microsecond ≠ 0) then
      some { negative := true, size := size, signed := fun _ => signed.2 }
    else some { negative := false, size := size, signed := nofun }

theorem readSeconds_secondsText (size : Clock) :
    readSeconds (secondsText size) = some (size.second, size.microsecond) := by
  unfold secondsText
  split
  · rename_i whole
    rw [whole.1, whole.2]
    rfl
  · have ends : ∀ more, ([] : List Char) ≠ '.' :: more := nofun
    have read := Clock.readMicrosecond_append size.microsecondBound ends
    rw [append_nil] at read
    simp only [readSeconds, cons_append, reduceCtorEq, if_false, expect_cons,
      readPadded_padded (by decide : 0 < 2) size.second_lt, read, bind_eq_bind,
      bind_some, if_true]
    rfl

theorem read_isoformat (offset : UtcOffset) : read offset.isoformat = some offset := by
  unfold isoformat read
  simp only [cons_append, append_assoc, readPadded_padded (by decide : 0 < 2) offset.size.hour_lt,
    readPadded_padded (by decide : 0 < 2) offset.size.minute_lt, expect_cons,
    bind_eq_bind, bind_some, readSeconds_secondsText, Clock.ofFields_self]
  obtain ⟨negative, size, signed⟩ := offset
  cases negative with
  | true => simp [signed rfl]
  | false => simp

/-- The sign is the first character of an offset. -/
theorem isoformat_ne_point (offset : UtcOffset) (more : List Char) : offset.isoformat ≠ '.' :: more := by
  unfold isoformat
  split <;> simp

end UtcOffset

namespace DateTime

def isoformat (time : DateTime) : List Char :=
  time.date.isoformat ++ 'T' :: (time.clock.isoformat ++ time.offset.isoformat)

/-- A time with an offset; one without is not read. -/
def fromisoformat (text : List Char) : Option DateTime := do
  let (date, text) ← Date.readFront text
  let text ← expect 'T' text
  let (clock, text) ← Clock.readFront text
  let offset ← UtcOffset.read text
  some { date := date, clock := clock, offset := offset }

theorem fromisoformat_isoformat (time : DateTime) : fromisoformat time.isoformat = some time := by
  have ends := time.offset.isoformat_ne_point
  simp only [fromisoformat, isoformat, Date.readFront_append, expect_cons,
    Clock.readFront_append _ ends, UtcOffset.read_isoformat, bind_eq_bind,
    bind_some]

end DateTime

/-!
## Days and instants

The number of a day, counted from the first day of year one, and the microseconds of a time since
the midnight UTC that begins day zero.
-/

def daysBeforeMonth (year month : ℕ) : ℕ :=
  ((range (month - 1)).map fun earlier => daysInMonth year (earlier + 1)).sum

def daysBeforeYear (year : ℕ) : ℕ :=
  (year - 1) * 365 + (year - 1) / 4 - (year - 1) / 100 + (year - 1) / 400

def Date.toordinal (date : Date) : ℤ :=
  daysBeforeYear date.year + daysBeforeMonth date.year date.month + date.day

example : daysBeforeYear 1970 + daysBeforeMonth 1970 1 + 1 = 719163 := by decide

def Clock.micros (clock : Clock) : ℤ :=
  ((clock.hour * 60 + clock.minute) * 60 + clock.second) * 10 ^ 6 + clock.microsecond

def UtcOffset.micros (offset : UtcOffset) : ℤ :=
  if offset.negative then -offset.size.micros else offset.size.micros

/-- Times with offsets are compared by their instants. -/
def DateTime.instant (time : DateTime) : ℤ :=
  time.date.toordinal * (86400 * 10 ^ 6) + time.clock.micros - time.offset.micros

/-!
## Dates by their ordinals

The ordinal of a date grows with the date, and the date is found again from it.
-/

theorem daysBeforeYear_succ {year : ℕ} (positive : 1 ≤ year) :
    daysBeforeYear (year + 1) = daysBeforeYear year + (if isLeap year then 366 else 365) := by
  obtain ⟨earlier, rfl⟩ := Nat.exists_eq_add_of_le' positive
  have fourth := @Nat.succ_div earlier 4
  have hundredth := @Nat.succ_div earlier 100
  have fourHundredth := @Nat.succ_div earlier 400
  have fewer : earlier / 100 ≤ earlier / 4 := div_le_div_left (by decide) (by decide)
  simp only [dvd_iff_mod_eq_zero] at fourth hundredth fourHundredth
  have length : (if isLeap (earlier + 1) then 366 else 365) =
      365 + (if (earlier + 1) % 4 = 0 then 1 else 0) - (if (earlier + 1) % 100 = 0 then 1 else 0) +
        (if (earlier + 1) % 400 = 0 then 1 else 0) := by
    unfold isLeap
    by_cases leap : (earlier + 1) % 4 = 0
    · by_cases century : (earlier + 1) % 100 = 0
      · by_cases fourCenturies : (earlier + 1) % 400 = 0 <;> simp [leap, century, fourCenturies]
      · have ordinary : (earlier + 1) % 400 ≠ 0 := by omega
        simp [leap, century, ordinary]
    · have century : (earlier + 1) % 100 ≠ 0 := by omega
      have fourCenturies : (earlier + 1) % 400 ≠ 0 := by omega
      simp [leap, century, fourCenturies]
  have rarer : (if (earlier + 1) % 100 = 0 then 1 else 0) ≤ (if (earlier + 1) % 4 = 0 then 1 else 0) := by
    split_ifs <;> omega
  rw [length]
  unfold daysBeforeYear
  rw [Nat.add_sub_cancel, Nat.add_sub_cancel, fourth, hundredth, fourHundredth]
  generalize earlier / 4 = fours, earlier / 100 = hundreds, earlier / 400 = fourHundreds at fewer ⊢
  generalize (if (earlier + 1) % 4 = 0 then 1 else 0) = leap,
    (if (earlier + 1) % 100 = 0 then 1 else 0) = century at rarer ⊢
  omega

theorem daysBeforeYear_mono : Monotone daysBeforeYear := by
  refine monotone_nat_of_le_succ fun year => ?_
  cases year with
  | zero => rfl
  | succ earlier =>
    rw [daysBeforeYear_succ (le_add_left 1 earlier)]
    exact le_add_right _ _

theorem daysBeforeMonth_succ (year : ℕ) {month : ℕ} (positive : 1 ≤ month) :
    daysBeforeMonth year (month + 1) = daysBeforeMonth year month + daysInMonth year month := by
  obtain ⟨earlier, rfl⟩ := Nat.exists_eq_add_of_le' positive
  simp [daysBeforeMonth, range_succ]

theorem daysBeforeMonth_mono (year : ℕ) : Monotone (daysBeforeMonth year) := by
  refine monotone_nat_of_le_succ fun month => ?_
  cases month with
  | zero => rfl
  | succ earlier =>
    have step := daysBeforeMonth_succ year (le_add_left 1 earlier)
    omega

theorem daysBeforeMonth_thirteen (year : ℕ) :
    daysBeforeMonth year 13 = if isLeap year then 366 else 365 := by
  cases leap : isLeap year <;> simp [daysBeforeMonth, daysInMonth, range, range.loop, leap]

namespace Date

def dayOfYear (date : Date) : ℕ := daysBeforeMonth date.year date.month + date.day

theorem toordinal_eq : date.toordinal = ((daysBeforeYear date.year + date.dayOfYear : ℕ) : ℤ) := by
  unfold toordinal dayOfYear
  omega

theorem dayOfYear_le : date.dayOfYear ≤ daysBeforeMonth date.year (date.month + 1) := by
  have step := daysBeforeMonth_succ date.year date.monthBound.1
  have day := date.dayBound.2
  unfold dayOfYear
  omega

theorem toordinal_le_of_year_lt {date other : Date} (earlier : date.year < other.year) :
    date.toordinal ≤ other.toordinal := by
  have month : daysBeforeMonth date.year (date.month + 1) ≤ daysBeforeMonth date.year 13 :=
    daysBeforeMonth_mono date.year (succ_le_succ date.monthBound.2)
  have length := daysBeforeMonth_thirteen date.year
  have next := daysBeforeYear_succ date.yearBound.1
  have later : daysBeforeYear (date.year + 1) ≤ daysBeforeYear other.year := daysBeforeYear_mono earlier
  have day := date.dayOfYear_le
  rw [toordinal_eq, toordinal_eq]
  omega

theorem day_le : date.day ≤ 31 := by
  have bound := date.dayBound.2
  unfold daysInMonth at bound
  split_ifs at bound <;> omega

theorem toordinal_le_of_month_lt {date other : Date} (sameYear : date.year = other.year)
    (earlier : date.month < other.month) : date.toordinal ≤ other.toordinal := by
  have later : daysBeforeMonth date.year (date.month + 1) ≤ daysBeforeMonth date.year other.month :=
    daysBeforeMonth_mono date.year earlier
  have day := date.dayOfYear_le
  have otherDay : other.dayOfYear = daysBeforeMonth date.year other.month + other.day := by
    rw [sameYear]
    rfl
  rw [toordinal_eq, toordinal_eq, ← sameYear]
  omega

theorem toordinal_le_of_key {date other : Date} (ordered : date.ordinalKey ≤ other.ordinalKey) :
    date.toordinal ≤ other.toordinal := by
  have months := date.monthBound.2
  have otherMonths := other.monthBound.2
  have days := date.day_le
  have otherDays := other.day_le
  unfold ordinalKey at ordered
  rcases lt_trichotomy date.year other.year with earlier | sameYear | later
  · exact toordinal_le_of_year_lt earlier
  · rcases lt_trichotomy date.month other.month with earlier | sameMonth | later
    · exact toordinal_le_of_month_lt sameYear earlier
    · rw [toordinal_eq, toordinal_eq, dayOfYear, dayOfYear, sameYear, sameMonth]
      omega
    · omega
  · omega

def fromordinal (ordinal : ℤ) : Option Date :=
  let day := ordinal.toNat
  let year := findGreatest (fun year => daysBeforeYear year < day) 9999
  let ofYear := day - daysBeforeYear year
  let month := findGreatest (fun month => daysBeforeMonth year month < ofYear) 12
  ofFields year month (ofYear - daysBeforeMonth year month)

theorem findGreatest_year :
    findGreatest (fun year => daysBeforeYear year < daysBeforeYear date.year + date.dayOfYear) 9999 =
      date.year := by
  have month : daysBeforeMonth date.year (date.month + 1) ≤ daysBeforeMonth date.year 13 :=
    daysBeforeMonth_mono date.year (succ_le_succ date.monthBound.2)
  have length := daysBeforeMonth_thirteen date.year
  have next := daysBeforeYear_succ date.yearBound.1
  have day := date.dayOfYear_le
  have first : 1 ≤ date.dayOfYear := date.dayBound.1.trans (le_add_left _ _)
  refine findGreatest_eq_iff.mpr ⟨date.yearBound.2, fun _ => ?_, fun year later _ => ?_⟩
  · omega
  · have after : daysBeforeYear (date.year + 1) ≤ daysBeforeYear year := daysBeforeYear_mono later
    omega

theorem findGreatest_month :
    findGreatest (fun month => daysBeforeMonth date.year month < date.dayOfYear) 12 = date.month := by
  have day := date.dayOfYear_le
  have first := date.dayBound.1
  refine findGreatest_eq_iff.mpr ⟨date.monthBound.2, fun _ => ?_, fun month later _ => ?_⟩
  · unfold dayOfYear
    omega
  · have after : daysBeforeMonth date.year (date.month + 1) ≤ daysBeforeMonth date.year month :=
      daysBeforeMonth_mono date.year later
    omega

theorem fromordinal_toordinal : fromordinal date.toordinal = some date := by
  have ofYear : daysBeforeYear date.year + date.dayOfYear - daysBeforeYear date.year = date.dayOfYear :=
    Nat.add_sub_cancel_left _ _
  have ofMonth : date.dayOfYear - daysBeforeMonth date.year date.month = date.day :=
    Nat.add_sub_cancel_left _ _
  simp only [fromordinal, toordinal_eq, Int.toNat_natCast, findGreatest_year, ofYear, findGreatest_month, ofMonth,
    ofFields_self]

theorem toordinal_injective : Function.Injective toordinal := by
  intro date other same
  have read := fromordinal_toordinal date
  rw [same, fromordinal_toordinal] at read
  exact (some.inj read).symm

theorem isoformat_injective : Function.Injective isoformat := by
  intro date other same
  have read := fromisoformat_isoformat date
  rw [same, fromisoformat_isoformat] at read
  exact (some.inj read).symm

end Date

end FinDashboard.Text
