import CannonCar.Foundation.Calendar
import CannonCar.Foundation.MachineInt

/-!
# The clock

`rtc.c`: date-times from and to seconds, the weekday, and the registers `RTC_SetTime`,
`RTC_GetTime` and `RTC_SetAlarm` go through.

The decoder takes years and months off a number of days; `date_rtcSecondToDateTime` says
that it finds the date of that number in the calendar whose every fourth year is a leap
year, counted from 1970-01-01 as the first day.  The encoder computes the number from a
closed formula (`toNat_rtcDateTimeToSecond`), and adds one second to what the decoder
would turn back.

## What is load-bearing

**Two calendars.**  The code takes every fourth year for a leap year, which is right from 1901 to
2099.  Its walk is compared with the calendar of that rule for all the seconds there are, and
only `Rtc.Dates` compares that calendar with the one in use.

**The decoder counts days from one.**  The days since the epoch are taken for the day of the year
1970, so 0 is shown as day 0 of January and every other number as the date before its own; the
encoder counts the same way, and the two fit together but for the second it adds.

**Loops have fuel.**  A year takes at least one day off, so the number of days is fuel enough.

Registers are three words.  `setTime` switches `TCE` off and on around the write to `TSR`; the
counting of seconds in between is not modelled.
-/

namespace CannonCar

open Calendar MachineInt Stretches

/-! ## The source -/

/-- `RTC_DateTime_Type`. -/
structure RtcDateTime where
  year : BitVec 16
  month : BitVec 16
  day : BitVec 16
  hour : BitVec 16
  minute : BitVec 16
  second : BitVec 8
  deriving DecidableEq

/-- `ULY`. -/
def uly : List ℕ := [0, 31, 28, 31, 30, 31, 30, 31, 31, 30, 31, 30, 31]

/-- `LY`. -/
def ly : List ℕ := [0, 31, 29, 31, 30, 31, 30, 31, 31, 30, 31, 30, 31]

/-- `MONTH_DAYS`. -/
def monthDays : List (BitVec 32) :=
  [0, 0, 31, 59, 90, 120, 151, 181, 212, 243, 273, 304, 334]

/-- `mdays` of `RTC_GetWeek`. -/
def mdays : List ℤ := [0, 31, 28, 31, 30, 31, 30, 31, 31, 30, 31, 30]

/-- `RTC_GetWeek`. -/
def rtcGetWeek (year month days : ℤ) : ℤ :=
  let y := year - 1
  let days := (mdays.take month.toNat).foldl (· + ·) days
  let days :=
    if month > 2 ∧ (year.tmod 400 = 0 ∨ (year % 4 = 0 ∧ year.tmod 100 ≠ 0)) then days + 1 else days
  (y + y.tdiv 4 - y.tdiv 100 + y.tdiv 400 + days).tmod 7

/-- `RTC_DateTimeToSecond`. -/
def rtcDateTimeToSecond (datetime : RtcDateTime) : BitVec 32 :=
  let year := datetime.year.setWidth 32
  let seconds := (year - 1970) * 365
  let seconds := seconds + (year / 4 - 1970 / 4)
  let seconds := seconds + monthDays.getD datetime.month.toNat 0
  let seconds := seconds + datetime.day.setWidth 32
  let seconds := if year &&& 3 = 0 ∧ datetime.month ≤ 2 then seconds - 1 else seconds
  let seconds := seconds * 86400 + datetime.hour.setWidth 32 * 3600 +
    datetime.minute.setWidth 32 * 60 + datetime.second.setWidth 32
  seconds + 1

/-- The `while` loop of `RTC_SecondToDateTime`: the year and the days left. -/
def rtcYearLoop : ℕ → ℕ → ℕ → ℕ → ℕ × ℕ
  | 0, year, days, _ => (year, days)
  | fuel + 1, year, days, daysInYear =>
      if days > daysInYear then
        let days := days - daysInYear
        let year := year + 1
        rtcYearLoop fuel year days (if year &&& 3 ≠ 0 then 365 else 366)
      else (year, days)

/-- The `for` loop of `RTC_SecondToDateTime` from the month `x` on: the month, where it finds
one, and the days left. -/
def rtcMonthLoop (daysInMonth : List ℕ) : ℕ → ℕ → ℕ → Option ℕ × ℕ
  | 0, _, days => (none, days)
  | rounds + 1, x, days =>
      if days ≤ daysInMonth.getD x 0 then (some x, days)
      else rtcMonthLoop daysInMonth rounds (x + 1) (days - daysInMonth.getD x 0)

/-- `RTC_SecondToDateTime`, into a `datetime` that holds something already. -/
def rtcSecondToDateTime (seconds : BitVec 32) (datetime : RtcDateTime) : RtcDateTime :=
  let days := seconds.toNat / 86400
  let left := seconds.toNat % 86400
  let y := rtcYearLoop days 1970 days 365
  let daysInMonth := if y.1 &&& 3 ≠ 0 then uly else ly
  let m := rtcMonthLoop daysInMonth 12 1 y.2
  { year := BitVec.ofNat 16 y.1
    month := (m.1.map (BitVec.ofNat 16)).getD datetime.month
    day := BitVec.ofNat 16 m.2
    hour := BitVec.ofNat 16 (left / 3600)
    minute := BitVec.ofNat 16 (left % 3600 / 60)
    second := BitVec.ofNat 8 (left % 3600 % 60) }

/-- The registers `TSR`, `TAR` and `SR`. -/
structure Rtc where
  tsr : BitVec 32
  tar : BitVec 32
  sr : BitVec 32
  deriving DecidableEq

/-- `RTC_SR_TCE_MASK`. -/
def rtcSrTceMask : BitVec 32 := 0x10

namespace Rtc

/-- `RTC_SetTime`. -/
def setTime (rtc : Rtc) (datetime : RtcDateTime) : Rtc :=
  let i := rtcDateTimeToSecond datetime
  let rtc := { rtc with sr := rtc.sr &&& ~~~rtcSrTceMask }
  let rtc := { rtc with tsr := i }
  { rtc with sr := rtc.sr ||| rtcSrTceMask }

/-- `RTC_GetTime`. -/
def getTime (rtc : Rtc) (datetime : RtcDateTime) : RtcDateTime :=
  rtcSecondToDateTime rtc.tsr datetime

/-- `RTC_SetAlarm`. -/
def setAlarm (rtc : Rtc) (datetime : RtcDateTime) : Rtc :=
  let i := rtcDateTimeToSecond datetime
  { rtc with tar := i - 1 }

end Rtc

/-! ## Date-times as numbers -/

namespace RtcDateTime

/-- The date. -/
def date (d : RtcDateTime) : Date := ⟨d.year.toNat, d.month.toNat, d.day.toNat⟩

/-- The second of the day. -/
def clock (d : RtcDateTime) : ℕ := d.hour.toNat * 3600 + d.minute.toNat * 60 + d.second.toNat

/-- The seconds up to a date-time, days counted in the calendar of the decoder. -/
def number (d : RtcDateTime) : ℕ := dayNumber everyFourth 1970 d.date * 86400 + d.clock

/-- A time there is. -/
structure OnClock (d : RtcDateTime) : Prop where
  hour : d.hour.toNat < 24
  minute : d.minute.toNat < 60
  second : d.second.toNat < 60

/-- A date-time of the Gregorian calendar from 1970 to 2099. -/
structure InRange (d : RtcDateTime) : Prop where
  clock : d.OnClock
  valid : Valid gregorian d.date
  first : 1970 ≤ d.year.toNat
  last : d.year.toNat ≤ 2099

/-- Year, month, day, hour, minute and second. -/
def fields (d : RtcDateTime) : List ℕ :=
  [d.year.toNat, d.month.toNat, d.day.toNat, d.hour.toNat, d.minute.toNat, d.second.toNat]

variable {d d' : RtcDateTime}

theorem OnClock.clock_lt (on : d.OnClock) : d.clock < 86400 := by
  obtain ⟨hour, minute, second⟩ := on
  unfold clock
  omega

theorem InRange.everyFourth (inRange : d.InRange) : Valid everyFourth d.date := by
  have agree : gregorian d.year.toNat = Calendar.everyFourth d.year.toNat := by
    have first := inRange.first
    have last := inRange.last
    exact gregorian_eq (by omega)
  exact (valid_congr agree).mp inRange.valid

/-- The numbers are ordered as the date-times. -/
theorem number_lt_iff (valid : Valid Calendar.everyFourth d.date)
    (valid' : Valid Calendar.everyFourth d'.date) (first : 1970 ≤ d.year.toNat)
    (first' : 1970 ≤ d'.year.toNat) (on : d.OnClock) (on' : d'.OnClock) :
    d.number < d'.number ↔ d.fields < d'.fields := by
  have days := dayNumber_lt_iff valid valid' first first'
  have same : dayNumber Calendar.everyFourth 1970 d.date =
      dayNumber Calendar.everyFourth 1970 d'.date ↔ d.date = d'.date :=
    ⟨dayNumber_inj valid valid' first first', fun same => by rw [same]⟩
  obtain ⟨hour, minute, second⟩ := on
  obtain ⟨hour', minute', second'⟩ := on'
  simp only [fields, List.cons_lt_cons_iff, List.lt_irrefl, and_false, or_false]
  simp only [date, Date.mk.injEq] at days same
  simp only [number, clock, date]
  omega

end RtcDateTime

/-! ## The encoder -/

theorem years_everyFourth (k : ℕ) :
    years everyFourth 1970 k = if k % 4 = 2 then 366 else 365 := by
  have leap : (1970 + k) % 4 = 0 ↔ k % 4 = 2 := by omega
  simp only [years, yearLength, everyFourth, leap, decide_eq_true_eq]

/-- The days of `k` years, and of the leap years among them one more. -/
theorem before_years (k : ℕ) : before (years everyFourth 1970) k = 365 * k + (k + 1) / 4 := by
  induction k with
  | zero => rfl
  | succ k ih =>
      rw [before_succ, ih, years_everyFourth]
      split_ifs with leap
      · omega
      · omega

/-- `MONTH_DAYS` knows nothing of leap years. -/
theorem before_month (leap : Bool) {month : ℕ} (pos : 1 ≤ month) (le : month ≤ 12) :
    before (months leap) (month - 1) =
      (monthDays.getD month 0).toNat + if leap = true ∧ 2 < month then 1 else 0 := by
  interval_cases month <;> cases leap <;> rfl

theorem setWidth_eq_ofNat {w : ℕ} (x : BitVec w) : x.setWidth 32 = BitVec.ofNat 32 x.toNat := by
  apply BitVec.eq_of_toNat_eq
  rw [BitVec.toNat_setWidth, BitVec.toNat_ofNat]

/-- The test for January and February of a leap year. -/
theorem correction_iff (d : RtcDateTime) :
    (d.year.setWidth 32 &&& (3 : BitVec 32) = 0 ∧ d.month ≤ 2) ↔
      d.year.toNat % 4 = 0 ∧ d.month.toNat ≤ 2 := by
  have low : (d.year.setWidth 32 &&& (3 : BitVec 32)).toNat = d.year.toNat % 4 := by
    have mask := toNat_and_mask (by decide : 2 ≤ 32) (d.year.setWidth 32)
    have small := d.year.isLt
    rw [BitVec.toNat_setWidth, Nat.mod_eq_of_lt (by omega : d.year.toNat < 2 ^ 32)] at mask
    exact mask
  rw [BitVec.toNat_eq, low, BitVec.le_def]
  rfl

/-- The number of a date, as the encoder puts it together: all the leap years up to the
year of the date, and one day less before the end of February of such a year. -/
theorem dayNumber_eq {d : Date} (valid : Valid everyFourth d) (first : 1970 ≤ d.year) :
    dayNumber everyFourth 1970 d + (if d.year % 4 = 0 ∧ d.month ≤ 2 then 1 else 0) =
      (d.year - 1970) * 365 + (d.year / 4 - 492) + (monthDays.getD d.month 0).toNat + d.day := by
  rw [dayNumber, dayOfYear, before_years, before_month _ valid.month_pos valid.month_le]
  simp only [everyFourth, decide_eq_true_eq]
  split_ifs with early late late
  · omega
  · omega
  · omega
  · omega

/-- The quarter of a year, as the encoder divides it. -/
theorem ofNat_div_four {n : ℕ} (small : n < 2 ^ 32) :
    BitVec.ofNat 32 n / BitVec.ofNat 32 4 = BitVec.ofNat 32 (n / 4) := by
  apply BitVec.eq_of_toNat_eq
  have four : (BitVec.ofNat 32 4).toNat = 4 := rfl
  rw [BitVec.toNat_udiv, four, BitVec.toNat_ofNat, BitVec.toNat_ofNat]
  omega

/-- **The encoder counts one second more than there are.** -/
theorem rtcDateTimeToSecond_eq {d : RtcDateTime} (inRange : d.InRange) :
    rtcDateTimeToSecond d = BitVec.ofNat 32 (d.number + 1) := by
  have first := inRange.first
  have fits := d.year.isLt
  have number : dayNumber everyFourth 1970 d.date +
        (if d.year.toNat % 4 = 0 ∧ d.month.toNat ≤ 2 then 1 else 0) =
      (d.year.toNat - 1970) * 365 + (d.year.toNat / 4 - 492) +
        (monthDays.getD d.month.toNat 0).toNat + d.day.toNat :=
    dayNumber_eq inRange.everyFourth first
  have years : BitVec.ofNat 32 d.year.toNat - BitVec.ofNat 32 1970 =
      BitVec.ofNat 32 (d.year.toNat - 1970) :=
    BitVec.ofNat_sub_ofNat_of_le d.year.toNat 1970 (by decide) first
  have leaps : BitVec.ofNat 32 (d.year.toNat / 4) - BitVec.ofNat 32 1970 / BitVec.ofNat 32 4 =
      BitVec.ofNat 32 (d.year.toNat / 4 - 492) :=
    BitVec.ofNat_sub_ofNat_of_le (d.year.toNat / 4) 492 (by decide) (by omega)
  have days : BitVec.ofNat 32 (d.year.toNat - 1970) * BitVec.ofNat 32 365 +
        BitVec.ofNat 32 (d.year.toNat / 4 - 492) +
          monthDays.getD d.month.toNat (BitVec.ofNat 32 0) +
        BitVec.ofNat 32 d.day.toNat = BitVec.ofNat 32 (dayNumber everyFourth 1970 d.date) +
      BitVec.ofNat 32 (if d.year.toNat % 4 = 0 ∧ d.month.toNat ≤ 2 then 1 else 0) := by
    rw [← BitVec.ofNat_add, number]
    simp only [BitVec.ofNat_add, BitVec.ofNat_mul, BitVec.ofNat_toNat, BitVec.setWidth_eq,
      BitVec.ofNat_eq_ofNat]
  simp only [rtcDateTimeToSecond, correction_iff]
  simp only [setWidth_eq_ofNat, BitVec.ofNat_eq_ofNat]
  rw [years, ofNat_div_four (by omega), leaps, days]
  have corrected : (if d.year.toNat % 4 = 0 ∧ d.month.toNat ≤ 2 then
        BitVec.ofNat 32 (dayNumber everyFourth 1970 d.date) +
          BitVec.ofNat 32 (if d.year.toNat % 4 = 0 ∧ d.month.toNat ≤ 2 then 1 else 0) -
          BitVec.ofNat 32 1
      else BitVec.ofNat 32 (dayNumber everyFourth 1970 d.date) +
          BitVec.ofNat 32 (if d.year.toNat % 4 = 0 ∧ d.month.toNat ≤ 2 then 1 else 0)) =
      BitVec.ofNat 32 (dayNumber everyFourth 1970 d.date) := by
    split_ifs
    · exact BitVec.add_sub_cancel _ _
    · exact BitVec.add_zero _
  rw [corrected, RtcDateTime.number, RtcDateTime.clock]
  simp only [BitVec.ofNat_add, BitVec.ofNat_mul, BitVec.add_assoc]

/-- Which is no more than the register holds. -/
theorem number_lt {d : RtcDateTime} (inRange : d.InRange) : d.number + 1 < 2 ^ 32 := by
  have first := inRange.first
  have last := inRange.last
  have clock := inRange.clock.clock_lt
  have inYear := inRange.everyFourth.dayOfYear_le
  have length : yearLength (everyFourth d.date.year) ≤ 366 := by
    unfold yearLength
    split_ifs <;> decide
  have before : before (years everyFourth 1970) (d.date.year - 1970) ≤ 365 * 129 + 130 / 4 := by
    have isYear : d.date.year = d.year.toNat := rfl
    rw [before_years, isYear]
    omega
  rw [RtcDateTime.number, dayNumber]
  omega

/-! ## The decoder -/

theorem and_three (n : ℕ) : n &&& 3 = n % 4 := Nat.and_two_pow_sub_one_eq_mod n 2

/-- The `while` loop takes off years. -/
theorem rtcYearLoop_eq (fuel k days : ℕ) :
    rtcYearLoop fuel (1970 + k) days (years everyFourth 1970 k) =
      (1970 + (walk (years everyFourth 1970) fuel k days).1,
        (walk (years everyFourth 1970) fuel k days).2) := by
  induction fuel generalizing k days with
  | zero => rfl
  | succ fuel ih =>
      have length : (if (1970 + k + 1) &&& 3 ≠ 0 then 365 else 366) =
          years everyFourth 1970 (k + 1) := by
        rw [and_three, years_everyFourth]
        split_ifs
        · omega
        · rfl
        · rfl
        · omega
      rw [rtcYearLoop, walk]
      simp only [length, gt_iff_lt]
      split_ifs
      · exact ih (k + 1) _
      · rfl

/-- The `for` loop takes off months, and finds one if the days are not more than there are
left in the year. -/
theorem rtcMonthLoop_eq {leap : Bool} {table : List ℕ}
    (isTable : ∀ i < 12, table.getD (i + 1) 0 = months leap i) {rounds fuel k days : ℕ}
    (some_ : 0 < rounds) (year : k + rounds = 12) (enough : days ≤ fuel)
    (inside : before (months leap) k + days ≤ before (months leap) 12) :
    rtcMonthLoop table rounds (k + 1) days =
      (some ((walk (months leap) fuel k days).1 + 1), (walk (months leap) fuel k days).2) := by
  induction rounds generalizing fuel k days with
  | zero => exact absurd some_ (lt_irrefl 0)
  | succ rounds ih =>
      have length := isTable k (by omega)
      have pos := months_pos leap k
      have next := before_succ (months leap) k
      rw [rtcMonthLoop, length]
      split_ifs with here
      · cases fuel with
        | zero => rfl
        | succ fuel => rw [walk, if_neg (not_lt.mpr here)]
      · obtain ⟨fuel, rfl⟩ := Nat.exists_eq_add_of_lt (by omega : 0 < fuel)
        have more : 0 < rounds := by
          rcases Nat.eq_zero_or_pos rounds with rfl | more
          · obtain rfl : k = 11 := by omega
            change before (months leap) 12 = _ at next
            omega
          · exact more
        have later := @ih (0 + fuel) (k + 1) (days - months leap k) more (by omega) (by omega)
          (by omega)
        rw [walk, if_pos (not_le.mp here)]
        exact later

theorem table_months (year : ℕ) : ∀ i < 12,
    (if year &&& 3 ≠ 0 then uly else ly).getD (i + 1) 0 = months (everyFourth year) i := by
  intro i inside
  rw [and_three, everyFourth]
  by_cases leap : year % 4 = 0
  · simp only [leap, ne_eq, not_true_eq_false, if_false, decide_true]
    interval_cases i <;> rfl
  · simp only [leap, ne_eq, not_false_eq_true, if_true, decide_false]
    interval_cases i <;> rfl

/-- The loops of the decoder together: the year, the month and the day. -/
theorem rtcLoops_eq {days : ℕ} (small : days < 50000) :
    let y := rtcYearLoop days 1970 days 365
    let m := rtcMonthLoop (if y.1 &&& 3 ≠ 0 then uly else ly) 12 1 y.2
    let date := dateOf everyFourth 1970 days
    y.1 = date.year ∧ m = (some date.month, date.day) ∧
      date.year < 2 ^ 16 ∧ date.month < 2 ^ 16 ∧ date.day < 2 ^ 16 := by
  have loop : rtcYearLoop days 1970 days 365 =
      (1970 + (walk (years everyFourth 1970) days 0 days).1,
        (walk (years everyFourth 1970) days 0 days).2) := rtcYearLoop_eq days 0 days
  obtain ⟨sum, inYear, -, -⟩ := walk_spec (years_pos everyFourth 1970) 0 (le_refl days)
  simp only [loop, dateOf, true_and]
  generalize walk (years everyFourth 1970) days 0 days = y at sum inYear
  rw [before_years, before_zero, Nat.zero_add] at sum
  have length : before (months (everyFourth (1970 + y.1))) 0 + y.2 ≤
      before (months (everyFourth (1970 + y.1))) 12 := by
    rw [before_zero, Nat.zero_add, before_months]
    exact inYear
  have isMonth := rtcMonthLoop_eq (table_months (1970 + y.1)) (by decide : 0 < 12) rfl
    (le_refl y.2) length
  obtain ⟨sum', -, -, -⟩ := walk_spec (months_pos (everyFourth (1970 + y.1))) 0 (le_refl y.2)
  have month := le_before _ (months_pos (everyFourth (1970 + y.1)))
    (walk (months (everyFourth (1970 + y.1))) y.2 0 y.2).1
  rw [before_zero] at sum'
  exact ⟨isMonth, by omega, by omega, by omega⟩

/-- **The decoder finds the date of the day number**, with the day before the first of all
as its zeroth. -/
theorem date_rtcSecondToDateTime (seconds : BitVec 32) (datetime : RtcDateTime) :
    (rtcSecondToDateTime seconds datetime).date =
      dateOf everyFourth 1970 (seconds.toNat / 86400) := by
  have small : seconds.toNat / 86400 < 50000 := by
    have isLt := seconds.isLt
    omega
  obtain ⟨isYear, isMonth, year, month, day⟩ := rtcLoops_eq small
  simp only [rtcSecondToDateTime, isMonth]
  simp only [isYear, RtcDateTime.date, Option.map_some, Option.getD_some, BitVec.toNat_ofNat,
    Nat.mod_eq_of_lt year, Nat.mod_eq_of_lt month, Nat.mod_eq_of_lt day]

/-- The time of the day it finds is one there is, and the second of the day. -/
theorem clock_rtcSecondToDateTime (seconds : BitVec 32) (datetime : RtcDateTime) :
    (rtcSecondToDateTime seconds datetime).OnClock ∧
      (rtcSecondToDateTime seconds datetime).clock = seconds.toNat % 86400 := by
  have hour : (rtcSecondToDateTime seconds datetime).hour.toNat = seconds.toNat % 86400 / 3600 := by
    simp only [rtcSecondToDateTime, BitVec.toNat_ofNat]
    omega
  have minute : (rtcSecondToDateTime seconds datetime).minute.toNat =
      seconds.toNat % 86400 % 3600 / 60 := by
    simp only [rtcSecondToDateTime, BitVec.toNat_ofNat]
    omega
  have second : (rtcSecondToDateTime seconds datetime).second.toNat =
      seconds.toNat % 86400 % 3600 % 60 := by
    simp only [rtcSecondToDateTime, BitVec.toNat_ofNat]
    omega
  refine ⟨⟨by omega, by omega, by omega⟩, ?_⟩
  rw [RtcDateTime.clock, hour, minute, second]
  omega

variable {seconds : BitVec 32}

/-- From the second day number on the decoder finds dates. -/
theorem valid_rtcSecondToDateTime (day : 1 ≤ seconds.toNat / 86400) (datetime : RtcDateTime) :
    Valid everyFourth (rtcSecondToDateTime seconds datetime).date ∧
      1970 ≤ (rtcSecondToDateTime seconds datetime).year.toNat ∧
      (rtcSecondToDateTime seconds datetime).number = seconds.toNat := by
  obtain ⟨valid, first, number⟩ := @dateOf_spec everyFourth 1970 _ day
  have isDate := date_rtcSecondToDateTime seconds datetime
  rw [← isDate] at valid first number
  refine ⟨valid, first, ?_⟩
  rw [RtcDateTime.number, number, (clock_rtcSecondToDateTime seconds datetime).2]
  omega

namespace RtcDateTime

/-- No two date-times have one number. -/
theorem number_inj {d d' : RtcDateTime} (valid : Valid Calendar.everyFourth d.date)
    (valid' : Valid Calendar.everyFourth d'.date) (first : 1970 ≤ d.year.toNat)
    (first' : 1970 ≤ d'.year.toNat) (on : d.OnClock) (on' : d'.OnClock)
    (same : d.number = d'.number) : d = d' := by
  have less := on.clock_lt
  have less' := on'.clock_lt
  obtain ⟨hour, minute, second⟩ := on
  obtain ⟨hour', minute', second'⟩ := on'
  rw [number, number] at same
  have days : dayNumber Calendar.everyFourth 1970 d.date =
      dayNumber Calendar.everyFourth 1970 d'.date := by omega
  have sameDate := dayNumber_inj valid valid' first first' days
  have sameClock : d.clock = d'.clock := by omega
  obtain ⟨year, month, day, h, m, s⟩ := d
  obtain ⟨year', month', day', h', m', s'⟩ := d'
  simp only [clock] at sameClock hour minute second hour' minute' second'
  simp only [date, Date.mk.injEq] at sameDate
  simp only [RtcDateTime.mk.injEq, ← BitVec.toNat_inj]
  refine ⟨sameDate.1, sameDate.2.1, sameDate.2.2, by omega, by omega, by omega⟩

end RtcDateTime

end CannonCar
