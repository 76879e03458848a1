import CannonCar.Rtc

/-!
# What the clock shows

Three readings of the registers.  The time set is shown one second later
(`rtc_set_get`), since `RTC_SetTime` writes the encoder's number and does not take off
what `RTC_SetAlarm` takes off; the alarm is at the time asked for (`rtc_alarm`).  And of
all the numbers `TSR` can hold, those of three days are shown as dates that are not dates
or are not followed by the date after them (`calendrical_iff`): the decoder counts days
from one, and knows no century that is not a leap year.

## What is load-bearing

* `OnClock` and `InRange` are what the functions may be given: a date of the calendar, a time of
  day, and years that 32 bits of seconds reach.
* Reading the clock at once means that `TSR` holds what was written; it is the only assumption
  on the hardware here.
* `calendrical_iff` is about a number of seconds and the fields decoded from it and from one day
  later: valid, and followed by the next date of the calendar in use.  The days that fail are
  the zeroth and those at the end of February 2100.
-/

namespace CannonCar

open Calendar Stretches

/-! ## Setting the clock and the alarm -/

theorem toNat_rtcDateTimeToSecond {d : RtcDateTime} (inRange : d.InRange) :
    (rtcDateTimeToSecond d).toNat = d.number + 1 := by
  rw [rtcDateTimeToSecond_eq inRange, BitVec.toNat_ofNat, Nat.mod_eq_of_lt (number_lt inRange)]

theorem toNat_tar {d : RtcDateTime} (inRange : d.InRange) (rtc : Rtc) :
    (rtc.setAlarm d).tar.toNat = d.number := by
  have value := toNat_rtcDateTimeToSecond inRange
  have le : (1 : BitVec 32) ≤ rtcDateTimeToSecond d := by
    rw [BitVec.le_def, value]
    exact Nat.le_add_left 1 _
  have one : (1 : BitVec 32).toNat = 1 := rfl
  rw [Rtc.setAlarm, BitVec.toNat_sub_of_le le, value, one, Nat.add_sub_cancel]

/-- A date is past the zeroth day. -/
theorem one_le_day {d : RtcDateTime} (valid : Valid everyFourth d.date) (more : ℕ) :
    1 ≤ (d.number + more) / 86400 := by
  have pos := valid.dayOfYear_pos
  have some_ : 1 ≤ dayNumber everyFourth 1970 d.date := le_trans pos (Nat.le_add_left _ _)
  rw [RtcDateTime.number]
  omega

/-- **The clock set is a second fast.**  Read at once, it never shows the time it was set
to. -/
theorem rtc_set_get {d : RtcDateTime} (inRange : d.InRange) (rtc : Rtc) (datetime : RtcDateTime) :
    (rtc.setTime d).getTime datetime ≠ d ∧
      ((rtc.setTime d).getTime datetime).number = d.number + 1 := by
  have day : 1 ≤ (rtcDateTimeToSecond d).toNat / 86400 := by
    rw [toNat_rtcDateTimeToSecond inRange]
    exact one_le_day inRange.everyFourth 1
  have number : ((rtc.setTime d).getTime datetime).number = d.number + 1 := by
    rw [← toNat_rtcDateTimeToSecond inRange]
    exact (valid_rtcSecondToDateTime day datetime).2.2
  refine ⟨fun same => ?_, number⟩
  rw [same] at number
  exact absurd number (Nat.ne_of_lt (Nat.lt_succ_self _))

/-- The first second of 2016. -/
theorem rtc_set_get_newYear :
    let d : RtcDateTime := ⟨2016, 1, 1, 0, 0, 0⟩
    ((⟨0, 0, 0⟩ : Rtc).setTime d).getTime d ≠ d ∧
      (((⟨0, 0, 0⟩ : Rtc).setTime d).getTime d).number = d.number + 1 :=
  rtc_set_get ⟨⟨by decide, by decide, by decide⟩, by decide, by decide, by decide⟩ _ _

theorem not_rtc_set_get : ¬ ∀ d : RtcDateTime, d.InRange →
    ∀ (rtc : Rtc) (datetime : RtcDateTime), (rtc.setTime d).getTime datetime = d := by
  intro all
  have same := all ⟨2016, 1, 1, 0, 0, 0⟩
    ⟨⟨by decide, by decide, by decide⟩, by decide, by decide, by decide⟩ ⟨0, 0, 0⟩
    ⟨2016, 1, 1, 0, 0, 0⟩
  exact absurd (congrArg RtcDateTime.second same) (by decide +kernel)

/-- **The alarm is at the time asked for**, and alarms are ordered as their times. -/
theorem rtc_alarm {d : RtcDateTime} (inRange : d.InRange) (rtc : Rtc) :
    ((rtc.setAlarm d).tar.toNat = d.number ∧ d.number + 1 < 2 ^ 32) ∧
      (∀ datetime, rtcSecondToDateTime (rtc.setAlarm d).tar datetime = d) ∧
      ∀ d' : RtcDateTime, d'.InRange → ∀ rtc' : Rtc,
        ((rtc.setAlarm d).tar < (rtc'.setAlarm d').tar ↔ d.fields < d'.fields) := by
  have tar := toNat_tar inRange rtc
  refine ⟨⟨tar, number_lt inRange⟩, fun datetime => ?_, fun d' inRange' rtc' => ?_⟩
  · have day : 1 ≤ (rtc.setAlarm d).tar.toNat / 86400 := by
      have day := one_le_day inRange.everyFourth 0
      rwa [Nat.add_zero, ← tar] at day
    obtain ⟨valid, first, number⟩ := valid_rtcSecondToDateTime day datetime
    rw [tar] at number
    exact RtcDateTime.number_inj valid inRange.everyFourth first inRange.first
      (clock_rtcSecondToDateTime _ datetime).1 inRange.clock number
  · rw [BitVec.lt_def, tar, toNat_tar inRange' rtc']
    exact RtcDateTime.number_lt_iff inRange.everyFourth inRange'.everyFourth inRange.first
      inRange'.first inRange.clock inRange'.clock

/-- The last second of a leap day. -/
theorem rtc_alarm_leapDay :
    let d : RtcDateTime := ⟨2016, 2, 29, 23, 59, 59⟩
    let rtc : Rtc := ⟨0, 0, 0⟩
    ((rtc.setAlarm d).tar.toNat = d.number ∧ d.number + 1 < 2 ^ 32) ∧
      (∀ datetime, rtcSecondToDateTime (rtc.setAlarm d).tar datetime = d) ∧
      ∀ d' : RtcDateTime, d'.InRange → ∀ rtc' : Rtc,
        ((rtc.setAlarm d).tar < (rtc'.setAlarm d').tar ↔ d.fields < d'.fields) :=
  rtc_alarm ⟨⟨by decide, by decide, by decide⟩, by decide, by decide, by decide⟩ _

/-! ## The weekday -/

/-- The `for` loop of `RTC_GetWeek` adds up the months before. -/
theorem foldl_mdays {month : ℕ} (pos : 1 ≤ month) (le : month ≤ 12) (days : ℤ) :
    (mdays.take month).foldl (· + ·) days = days + (before (months false) (month - 1) : ℕ) := by
  have sum : (mdays.take month).sum = (before (months false) (month - 1) : ℕ) := by
    interval_cases month <;> rfl
  have adds : ∀ xs : List ℤ, xs.foldl (· + ·) days = days + xs.sum := by
    intro xs
    induction xs generalizing days with
    | nil => exact (Int.add_zero days).symm
    | cons x xs ih => rw [List.foldl_cons, ih, List.sum_cons, Int.add_assoc]
  rw [adds, sum]

/-- The test for a leap year, behind February. -/
theorem leapTest_iff (year month : ℕ) :
    ((month : ℤ) > 2 ∧ ((year : ℤ).tmod 400 = 0 ∨
      ((year : ℤ) % 4 = 0 ∧ (year : ℤ).tmod 100 ≠ 0))) ↔ (gregorian year = true ∧ 2 < month) := by
  have tmod : ∀ n : ℕ, ((year : ℤ).tmod n = 0) ↔ year % n = 0 := by
    intro n
    rw [← Int.ofNat_tmod, Int.natCast_eq_zero]
  have century := tmod 400
  have hundred := tmod 100
  simp only [gregorian, Bool.or_eq_true, Bool.and_eq_true, decide_eq_true_eq]
  push_cast at century hundred
  rw [century, ne_eq, hundred]
  omega

/-- The day of the year, as `RTC_GetWeek` counts it. -/
theorem dayOfYear_eq {month : ℕ} (pos : 1 ≤ month) (le : month ≤ 12) (leap : Bool) (day : ℕ) :
    dayOfYear leap month day =
      before (months false) (month - 1) + (if leap = true ∧ 2 < month then 1 else 0) + day := by
  rw [dayOfYear, before_month _ pos le, before_month false pos le]
  simp only [Bool.false_eq_true, false_and, if_false, Nat.add_zero]

/-- The weekday of a date, from the number of its year and its day in it. -/
theorem rtcGetWeek_eq {d : Date} (valid : Valid gregorian d) (pos : 1 ≤ d.year) :
    rtcGetWeek d.year d.month d.day =
      (((d.year - 1) + (d.year - 1) / 4 - (d.year - 1) / 100 + (d.year - 1) / 400 +
        dayOfYear (gregorian d.year) d.month d.day) % 7 : ℕ) := by
  have monthPos := valid.month_pos
  have monthLe := valid.month_le
  have year : (d.year : ℤ) - 1 = (d.year - 1 : ℕ) := by omega
  have place := dayOfYear_eq monthPos monthLe (gregorian d.year) d.day
  have quotient : ∀ n : ℕ, ((d.year - 1 : ℕ) : ℤ).tdiv n = ((d.year - 1) / n : ℕ) := fun n =>
    (Int.ofNat_tdiv _ n).symm
  have fewer : (d.year - 1) / 100 ≤ (d.year - 1) / 4 := Nat.div_le_div_left (by decide) (by decide)
  have sum : (((d.year - 1 : ℕ) : ℤ) + ((d.year - 1 : ℕ) : ℤ).tdiv 4 -
        ((d.year - 1 : ℕ) : ℤ).tdiv 100 + ((d.year - 1 : ℕ) : ℤ).tdiv 400 +
        if gregorian d.year = true ∧ 2 < d.month then
          (d.day : ℤ) + (before (months false) (d.month - 1) : ℕ) + 1
        else (d.day : ℤ) + (before (months false) (d.month - 1) : ℕ)) =
      (((d.year - 1) + (d.year - 1) / 4 - (d.year - 1) / 100 + (d.year - 1) / 400 +
        dayOfYear (gregorian d.year) d.month d.day : ℕ) : ℤ) := by
    have fourths := quotient 4
    have centuries := quotient 100
    have cycles := quotient 400
    simp only [Nat.cast_ofNat] at fourths centuries cycles
    rw [fourths, centuries, cycles, place]
    split_ifs
    · omega
    · omega
  simp only [rtcGetWeek, leapTest_iff]
  rw [Int.toNat_natCast, foldl_mdays monthPos monthLe, year, sum]
  exact (Int.ofNat_tmod _ 7).symm

/-- **The weekday advances by one.** -/
theorem rtcGetWeek_next {d : Date} (valid : Valid gregorian d) (pos : 1 ≤ d.year) :
    rtcGetWeek (next gregorian d).year (next gregorian d).month (next gregorian d).day =
      (rtcGetWeek d.year d.month d.day + 1) % 7 := by
  have length : yearLength (gregorian d.year) =
      365 + if d.year % 400 = 0 ∨ (d.year % 4 = 0 ∧ d.year % 100 ≠ 0) then 1 else 0 := by
    simp only [yearLength, gregorian, Bool.or_eq_true, Bool.and_eq_true, decide_eq_true_eq]
    split_ifs <;> rfl
  rw [rtcGetWeek_eq valid pos, rtcGetWeek_eq (valid_next valid) (le_year_next pos)]
  rcases place_next valid with ⟨year, place⟩ | ⟨year, place, whole⟩
  · rw [place, year]
    omega
  · obtain ⟨y, isYear⟩ := Nat.exists_eq_add_of_le' pos
    rw [place, year, whole, length, isYear, Nat.add_sub_cancel, Nat.add_sub_cancel, Nat.succ_div,
      Nat.succ_div, Nat.succ_div]
    have fewer : y / 100 ≤ y / 4 := Nat.div_le_div_left (by decide) (by decide)
    generalize y / 4 = fourths at fewer ⊢
    generalize y / 100 = centuries at fewer ⊢
    generalize y / 400 = cycles
    split_ifs <;> omega

/-! ## All the numbers of the register -/

/-- What the clock shows for a number is a date and a time, and a day later it shows the day
after, on the next day of the week. -/
def Calendrical (seconds : BitVec 32) : Prop :=
  ∀ datetime datetime' : RtcDateTime,
    let d := rtcSecondToDateTime seconds datetime
    let d' := rtcSecondToDateTime (seconds + 86400) datetime'
    d.OnClock ∧ Valid gregorian d.date ∧
      (seconds.toNat + 86400 < 2 ^ 32 →
        d'.date = next gregorian d.date ∧ d'.clock = d.clock ∧
          rtcGetWeek d'.date.year d'.date.month d'.date.day =
            (rtcGetWeek d.date.year d.date.month d.date.day + 1) % 7)

section Centuries

variable {n : ℕ}

/-- The only year of the register about which the rules differ. -/
theorem rules_agree (some_ : 1 ≤ n) (small : n < 50000)
    (other : (dateOf everyFourth 1970 n).year ≠ 2100) :
    everyFourth (dateOf everyFourth 1970 n).year = gregorian (dateOf everyFourth 1970 n).year := by
  obtain ⟨-, first, number⟩ := @dateOf_spec everyFourth 1970 n some_
  rw [dayNumber, before_years] at number
  exact (gregorian_eq (by omega)).symm

/-- The day numbers of February 2100. -/
theorem dateOf_february {day : ℕ} (some_ : 1 ≤ n) (pos : 1 ≤ day) (le : day ≤ 29) :
    dateOf everyFourth 1970 n = ⟨2100, 2, day⟩ ↔ n = 47513 + day := by
  have leap : monthLength (everyFourth 2100) 2 = 29 := rfl
  have valid : Valid everyFourth ⟨2100, 2, day⟩ := by
    refine ⟨by simp only; decide, by simp only; decide, pos, ?_⟩
    simp only [leap]
    exact le
  have january : before (months (everyFourth 2100)) (2 - 1) = 31 := rfl
  have number : dayNumber everyFourth 1970 ⟨2100, 2, day⟩ = 47513 + day := by
    simp only [dayNumber, dayOfYear, january, before_years]
    omega
  rw [dateOf_eq_iff some_ valid (by simp only; decide), number]

/-- The dates of the decoder that are none: the zeroth day and the leap day of 2100. -/
theorem valid_dateOf_iff (small : n < 50000) :
    Valid gregorian (dateOf everyFourth 1970 n) ↔ n ≠ 0 ∧ n ≠ 47542 := by
  rcases Nat.eq_zero_or_pos n with rfl | some_
  · have zeroth : dateOf everyFourth 1970 0 = ⟨1970, 1, 0⟩ := rfl
    rw [zeroth]
    decide
  · have leapDay : dateOf everyFourth 1970 n = ⟨2100, 2, 29⟩ ↔ n = 47542 :=
      dateOf_february some_ (by decide) le_rfl
    have valid := (@dateOf_spec everyFourth 1970 n some_).1
    rw [and_iff_right (Nat.ne_of_gt some_), ne_eq, ← leapDay]
    by_cases year : (dateOf everyFourth 1970 n).year = 2100
    · have leaps : everyFourth (dateOf everyFourth 1970 n).year = true := by rw [year]; rfl
      have common : gregorian (dateOf everyFourth 1970 n).year = false := by rw [year]; rfl
      rw [valid_iff_of_common valid leaps common, Date.ext_iff]
      exact not_congr (and_iff_right year).symm
    · refine iff_of_true ((valid_congr (rules_agree some_ small year)).mp valid) fun same => year ?_
      rw [same]

/-- The day the decoder does not go on from as the calendar does. -/
theorem next_dateOf_iff (small : n < 50000) (some_ : 1 ≤ n) :
    next everyFourth (dateOf everyFourth 1970 n) = next gregorian (dateOf everyFourth 1970 n) ↔
      n ≠ 47541 := by
  have lastDay : dateOf everyFourth 1970 n = ⟨2100, 2, 28⟩ ↔ n = 47541 :=
    dateOf_february some_ (by decide) (by decide)
  have valid := (@dateOf_spec everyFourth 1970 n some_).1
  rw [ne_eq, ← lastDay]
  by_cases year : (dateOf everyFourth 1970 n).year = 2100
  · have leaps : everyFourth (dateOf everyFourth 1970 n).year = true := by rw [year]; rfl
    have common : gregorian (dateOf everyFourth 1970 n).year = false := by rw [year]; rfl
    rw [next_eq_iff_of_common valid leaps common, Date.ext_iff]
    exact not_congr (and_iff_right year).symm
  · refine iff_of_true (next_congr (rules_agree some_ small year)) fun same => year ?_
    rw [same]

end Centuries

theorem day_add {seconds : BitVec 32} (room : seconds.toNat + 86400 < 2 ^ 32) :
    (seconds + 86400).toNat = seconds.toNat + 86400 := by
  have day : (86400 : BitVec 32).toNat = 86400 := rfl
  rw [BitVec.toNat_add, day, Nat.mod_eq_of_lt room]

/-- **The clock shows the calendar** from its first day on, but for the end of February
2100. -/
theorem calendrical_iff (seconds : BitVec 32) :
    Calendrical seconds ↔
      seconds.toNat / 86400 ≠ 0 ∧ seconds.toNat / 86400 ≠ 47541 ∧
        seconds.toNat / 86400 ≠ 47542 := by
  have isLt := seconds.isLt
  have small : seconds.toNat / 86400 < 50000 := by omega
  constructor
  · intro calendrical
    obtain ⟨-, valid, later⟩ := calendrical ⟨0, 0, 0, 0, 0, 0⟩ ⟨0, 0, 0, 0, 0, 0⟩
    simp only [date_rtcSecondToDateTime] at valid later
    obtain ⟨some_, leapDay⟩ := (valid_dateOf_iff small).mp valid
    refine ⟨some_, fun lastDay => ?_, leapDay⟩
    have room : seconds.toNat + 86400 < 2 ^ 32 := by omega
    have follows := (later room).1
    rw [day_add room, Nat.add_div_right _ (by decide), dateOf_succ (Nat.pos_of_ne_zero some_)]
      at follows
    exact (next_dateOf_iff small (Nat.pos_of_ne_zero some_)).mp follows lastDay
  · rintro ⟨some_, lastDay, leapDay⟩ datetime datetime' d d'
    have isDate : d.date = dateOf everyFourth 1970 (seconds.toNat / 86400) :=
      date_rtcSecondToDateTime seconds datetime
    have pos := Nat.pos_of_ne_zero some_
    have valid : Valid gregorian d.date := by
      rw [isDate]
      exact (valid_dateOf_iff small).mpr ⟨some_, leapDay⟩
    have first : 1 ≤ d.date.year := by
      rw [isDate]
      exact le_trans (by decide) (@dateOf_spec everyFourth 1970 _ pos).2.1
    refine ⟨(clock_rtcSecondToDateTime seconds datetime).1, valid, fun room => ?_⟩
    have follows : d'.date = next gregorian d.date := by
      rw [isDate, ← (next_dateOf_iff small pos).mpr lastDay, ← dateOf_succ pos]
      have day := date_rtcSecondToDateTime (seconds + 86400) datetime'
      rwa [day_add room, Nat.add_div_right _ (by decide)] at day
    have sameClock : d'.clock = d.clock := by
      have clock := (clock_rtcSecondToDateTime (seconds + 86400) datetime').2
      rw [day_add room, Nat.add_mod_right] at clock
      exact clock.trans (clock_rtcSecondToDateTime seconds datetime).2.symm
    refine ⟨follows, sameClock, ?_⟩
    rw [follows]
    exact rtcGetWeek_next valid first

/-- The first second of all is shown as one of the zeroth of January. -/
theorem not_calendrical : ¬ ∀ seconds, Calendrical seconds := by
  intro all
  obtain ⟨-, valid, -⟩ := all 0 ⟨0, 0, 0, 0, 0, 0⟩ ⟨0, 0, 0, 0, 0, 0⟩
  exact absurd valid (by decide)

end CannonCar
