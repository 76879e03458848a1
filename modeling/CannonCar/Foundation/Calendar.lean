import CannonCar.Foundation.Stretches
import Mathlib.Tactic.IntervalCases

/-!
# Calendars

Dates of a calendar with the usual twelve months, for any rule that says which years are
leap years.  The dates of a rule are numbered day by day from the start of a first year
on; the numbers go up by one from a date to the `next` one (`dayNumber_next`) and are
ordered as the dates are (`dayNumber_lt_iff`).  `dateOf` goes back from the numbers to
the dates, by subtraction of years and then of months.

`gregorian` is the rule of the calendar in use and `everyFourth` that of the one before
it.
-/

namespace CannonCar.Calendar

open Stretches

/-- A day of a month of a year. -/
@[ext] structure Date where
  year : ℕ
  month : ℕ
  day : ℕ
  deriving DecidableEq

/-- The days of a month. -/
def monthLength (leap : Bool) : ℕ → ℕ
  | 2 => if leap then 29 else 28
  | 4 | 6 | 9 | 11 => 30
  | _ => 31

/-- The days of a year. -/
def yearLength (leap : Bool) : ℕ := if leap then 366 else 365

theorem monthLength_pos (leap : Bool) (month : ℕ) : 0 < monthLength leap month := by
  unfold monthLength
  split <;> [split_ifs; skip; skip; skip; skip; skip] <;> decide

theorem yearLength_pos (leap : Bool) : 0 < yearLength leap := by cases leap <;> decide

/-- The months are stretches of the year. -/
def months (leap : Bool) (i : ℕ) : ℕ := monthLength leap (i + 1)

theorem months_pos (leap : Bool) (i : ℕ) : 0 < months leap i := monthLength_pos leap (i + 1)

theorem before_months (leap : Bool) : before (months leap) 12 = yearLength leap := by
  cases leap <;> rfl

/-- The place of a day in its year. -/
def dayOfYear (leap : Bool) (month day : ℕ) : ℕ := before (months leap) (month - 1) + day

section Rule

variable (leap : ℕ → Bool)

/-- A date there is. -/
structure Valid (d : Date) : Prop where
  month_pos : 1 ≤ d.month
  month_le : d.month ≤ 12
  day_pos : 1 ≤ d.day
  day_le : d.day ≤ monthLength (leap d.year) d.month

instance (d : Date) : Decidable (Valid leap d) :=
  decidable_of_iff (1 ≤ d.month ∧ d.month ≤ 12 ∧ 1 ≤ d.day ∧
      d.day ≤ monthLength (leap d.year) d.month)
    ⟨fun h => ⟨h.1, h.2.1, h.2.2.1, h.2.2.2⟩,
      fun h => ⟨h.month_pos, h.month_le, h.day_pos, h.day_le⟩⟩

/-- The day after. -/
def next (d : Date) : Date :=
  if d.day < monthLength (leap d.year) d.month then { d with day := d.day + 1 }
  else if d.month < 12 then ⟨d.year, d.month + 1, 1⟩
  else ⟨d.year + 1, 1, 1⟩

/-- The years from the first one on are stretches too. -/
def years (first i : ℕ) : ℕ := yearLength (leap (first + i))

theorem years_pos (first i : ℕ) : 0 < years leap first i := yearLength_pos _

/-- The number of a date, that of the first day of the first year being one. -/
def dayNumber (first : ℕ) (d : Date) : ℕ :=
  before (years leap first) (d.year - first) + dayOfYear (leap d.year) d.month d.day

/-- The date with a number: take off the years, then the months. -/
def dateOf (first n : ℕ) : Date :=
  let y := walk (years leap first) n 0 n
  let m := walk (months (leap (first + y.1))) y.2 0 y.2
  ⟨first + y.1, m.1 + 1, m.2⟩

variable {leap} {first n : ℕ} {d d' : Date}

/-! ## Places in the year -/

theorem Valid.day_le' (valid : Valid leap d) : d.day ≤ months (leap d.year) (d.month - 1) := by
  rw [months, Nat.sub_add_cancel valid.month_pos]
  exact valid.day_le

theorem Valid.dayOfYear_pos (valid : Valid leap d) :
    1 ≤ dayOfYear (leap d.year) d.month d.day :=
  le_trans valid.day_pos (Nat.le_add_left _ _)

theorem Valid.dayOfYear_le (valid : Valid leap d) :
    dayOfYear (leap d.year) d.month d.day ≤ yearLength (leap d.year) := by
  have pos := valid.month_pos
  have le := valid.month_le
  calc dayOfYear (leap d.year) d.month d.day
      ≤ before (months (leap d.year)) (d.month - 1) + months (leap d.year) (d.month - 1) :=
        Nat.add_le_add_left valid.day_le' _
    _ = before (months (leap d.year)) (d.month - 1 + 1) := (before_succ _ _).symm
    _ ≤ before (months (leap d.year)) 12 := before_mono _ (by omega)
    _ = yearLength (leap d.year) := before_months _

theorem Valid.dayOfYear_le' (valid : Valid leap d) (begun : first ≤ d.year) :
    dayOfYear (leap d.year) d.month d.day ≤ years leap first (d.year - first) := by
  rw [years, Nat.add_sub_cancel' begun]
  exact valid.dayOfYear_le

/-! ## Numbers -/

/-- **The numbers are ordered as the dates.** -/
theorem dayNumber_lt_iff (valid : Valid leap d) (valid' : Valid leap d') (begun : first ≤ d.year)
    (begun' : first ≤ d'.year) :
    dayNumber leap first d < dayNumber leap first d' ↔
      d.year < d'.year ∨ d.year = d'.year ∧
        (d.month < d'.month ∨ d.month = d'.month ∧ d.day < d'.day) := by
  have pos := valid.month_pos
  have pos' := valid'.month_pos
  rw [dayNumber, dayNumber, position_lt_iff valid.dayOfYear_pos (valid.dayOfYear_le' begun)
    valid'.dayOfYear_pos (valid'.dayOfYear_le' begun')]
  have years_lt : d.year - first < d'.year - first ↔ d.year < d'.year := by omega
  have years_eq : d.year - first = d'.year - first ↔ d.year = d'.year := by omega
  rw [years_lt, years_eq]
  apply or_congr_right
  apply and_congr_right
  intro same
  have inside := valid.day_le'
  rw [same] at inside
  rw [same, dayOfYear, dayOfYear, position_lt_iff valid.day_pos inside valid'.day_pos
    valid'.day_le']
  have months_lt : d.month - 1 < d'.month - 1 ↔ d.month < d'.month := by omega
  have months_eq : d.month - 1 = d'.month - 1 ↔ d.month = d'.month := by omega
  rw [months_lt, months_eq]

/-- No two dates have one number. -/
theorem dayNumber_inj (valid : Valid leap d) (valid' : Valid leap d') (begun : first ≤ d.year)
    (begun' : first ≤ d'.year) (same : dayNumber leap first d = dayNumber leap first d') :
    d = d' := by
  have less := dayNumber_lt_iff valid valid' begun begun'
  have more := dayNumber_lt_iff valid' valid begun' begun
  rw [same] at less more
  obtain ⟨y, m, day⟩ := d
  obtain ⟨y', m', day'⟩ := d'
  simp only [lt_irrefl, false_iff, not_or, not_and, not_lt] at less more
  obtain rfl : y = y' := le_antisymm more.1 less.1
  have months := less.2 rfl
  have months' := more.2 rfl
  obtain rfl : m = m' := le_antisymm months'.1 months.1
  obtain rfl : day = day' := le_antisymm (months'.2 rfl) (months.2 rfl)
  rfl

/-! ## The day after -/

theorem valid_next (valid : Valid leap d) : Valid leap (next leap d) := by
  have pos := valid.month_pos
  unfold next
  split_ifs with inMonth inYear
  · exact ⟨valid.month_pos, valid.month_le, Nat.le_add_left 1 _, inMonth⟩
  · exact ⟨by simp only; omega, inYear, le_rfl, monthLength_pos _ _⟩
  · exact ⟨le_rfl, by simp only; decide, le_rfl, monthLength_pos _ _⟩

theorem le_year_next (begun : first ≤ d.year) : first ≤ (next leap d).year := by
  unfold next
  split_ifs
  · exact begun
  · exact begun
  · exact le_trans begun (Nat.le_succ _)

/-- The day after is the next one in its year, or the first of the next year. -/
theorem place_next (valid : Valid leap d) :
    ((next leap d).year = d.year ∧
      dayOfYear (leap (next leap d).year) (next leap d).month (next leap d).day =
        dayOfYear (leap d.year) d.month d.day + 1) ∨
    ((next leap d).year = d.year + 1 ∧
      dayOfYear (leap (next leap d).year) (next leap d).month (next leap d).day = 1 ∧
      dayOfYear (leap d.year) d.month d.day = yearLength (leap d.year)) := by
  have pos := valid.month_pos
  have upper := valid.month_le
  have inside := valid.day_le'
  unfold next
  split_ifs with inMonth inYear
  · exact Or.inl ⟨rfl, rfl⟩
  · -- the last day of a month
    have last : d.day = months (leap d.year) (d.month - 1) :=
      le_antisymm inside (by rw [months, Nat.sub_add_cancel pos]; exact not_lt.mp inMonth)
    have whole := before_succ (months (leap d.year)) (d.month - 1)
    rw [Nat.sub_add_cancel pos] at whole
    refine Or.inl ⟨rfl, ?_⟩
    simp only [dayOfYear, Nat.add_sub_cancel]
    rw [whole, last]
  · -- the last day of a year
    have december : d.month - 1 = 11 := by omega
    have last : d.day = months (leap d.year) 11 := by
      rw [december] at inside
      refine le_antisymm inside ?_
      rw [months, ← december, Nat.sub_add_cancel pos]
      exact not_lt.mp inMonth
    refine Or.inr ⟨rfl, rfl, ?_⟩
    rw [dayOfYear, december, last, ← before_succ, before_months]

/-- **The day after has the number after.** -/
theorem dayNumber_next (valid : Valid leap d) (begun : first ≤ d.year) :
    dayNumber leap first (next leap d) = dayNumber leap first d + 1 := by
  rcases place_next valid with ⟨year, place⟩ | ⟨year, place, whole⟩
  · rw [dayNumber, place, year, dayNumber, Nat.add_assoc]
  · have step : d.year + 1 - first = d.year - first + 1 := by omega
    have length : years leap first (d.year - first) = yearLength (leap d.year) := by
      rw [years, Nat.add_sub_cancel' begun]
    rw [dayNumber, place, year, step, before_succ, length, dayNumber, whole]

/-! ## From numbers to dates -/

/-- **The walk finds the date.** -/
theorem dateOf_spec (some_ : 0 < n) :
    Valid leap (dateOf leap first n) ∧ first ≤ (dateOf leap first n).year ∧
      dayNumber leap first (dateOf leap first n) = n := by
  obtain ⟨sum, inYear, -, rest⟩ := walk_spec (years_pos leap first) 0 (le_refl n)
  generalize isYear : walk (years leap first) n 0 n = y at sum inYear rest
  have upto : y.2 ≤ before (months (leap (first + y.1))) 12 := by
    rw [before_months]
    exact inYear
  have early := walk_lt (months_pos (leap (first + y.1))) (le_refl y.2) (rest some_) upto
  obtain ⟨sum', inMonth, -, rest'⟩ :=
    walk_spec (months_pos (leap (first + y.1))) 0 (le_refl y.2)
  generalize isMonth : walk (months (leap (first + y.1))) y.2 0 y.2 = m at early sum' inMonth rest'
  have isDate : dateOf leap first n = ⟨first + y.1, m.1 + 1, m.2⟩ := by
    simp only [dateOf, isYear, isMonth]
  rw [isDate]
  refine ⟨⟨Nat.le_add_left _ _, early, rest' (rest some_), inMonth⟩, Nat.le_add_right _ _, ?_⟩
  simp only [dayNumber, dayOfYear, Nat.add_sub_cancel, Nat.add_sub_cancel_left]
  rw [sum', before_zero, Nat.zero_add, sum, before_zero, Nat.zero_add]

theorem dateOf_dayNumber (valid : Valid leap d) (begun : first ≤ d.year) :
    dateOf leap first (dayNumber leap first d) = d := by
  have some_ : 0 < dayNumber leap first d := Nat.add_pos_right _ valid.dayOfYear_pos
  obtain ⟨valid', begun', same⟩ := @dateOf_spec leap first _ some_
  exact dayNumber_inj valid' valid begun' begun same

theorem dateOf_eq_iff (some_ : 0 < n) (valid : Valid leap d) (begun : first ≤ d.year) :
    dateOf leap first n = d ↔ n = dayNumber leap first d := by
  constructor
  · rintro rfl
    exact (dateOf_spec some_).2.2.symm
  · rintro rfl
    exact dateOf_dayNumber valid begun

theorem dateOf_succ (some_ : 0 < n) :
    dateOf leap first (n + 1) = next leap (dateOf leap first n) := by
  obtain ⟨valid, begun, same⟩ := @dateOf_spec leap first _ some_
  have number := dayNumber_next valid begun
  rw [same] at number
  rw [← number]
  exact dateOf_dayNumber (valid_next valid) (le_year_next begun)

end Rule

/-! ## The two rules -/

/-- The rule of the Gregorian calendar. -/
def gregorian (year : ℕ) : Bool := year % 400 = 0 || (year % 4 = 0 && year % 100 ≠ 0)

/-- The rule of the Julian calendar. -/
def everyFourth (year : ℕ) : Bool := year % 4 = 0

/-- The rules agree about the centuries that are leap years, and between the centuries. -/
theorem gregorian_eq {year : ℕ} (century : year % 100 = 0 → year % 400 = 0) :
    gregorian year = everyFourth year := by
  unfold gregorian everyFourth
  by_cases whole : year % 400 = 0
  · have fourth : year % 4 = 0 := by omega
    simp only [whole, fourth, decide_true, Bool.true_or]
  · have between : ¬ year % 100 = 0 := fun zero => whole (century zero)
    simp only [whole, between, decide_false, Bool.false_or, ne_eq, not_false_eq_true, decide_true,
      Bool.and_true]

section Agree

variable {leap leap' : ℕ → Bool} {d : Date}

/-- In a year about which two rules agree they have the same dates. -/
theorem valid_congr (agree : leap d.year = leap' d.year) : Valid leap d ↔ Valid leap' d := by
  constructor
  · intro valid
    exact ⟨valid.month_pos, valid.month_le, valid.day_pos, agree ▸ valid.day_le⟩
  · intro valid
    exact ⟨valid.month_pos, valid.month_le, valid.day_pos, agree ▸ valid.day_le⟩

theorem next_congr (agree : leap d.year = leap' d.year) : next leap d = next leap' d := by
  rw [next, next, agree]

/-- Leap years differ in February. -/
theorem monthLength_of_ne {month : ℕ} (ne : month ≠ 2) (l l' : Bool) :
    monthLength l month = monthLength l' month := by
  unfold monthLength
  split
  · exact absurd rfl ne
  all_goals rfl

/-- A common year has a date less than a leap year. -/
theorem valid_iff_of_common (valid : Valid leap d) (leaps : leap d.year = true)
    (common : leap' d.year = false) : Valid leap' d ↔ ¬ (d.month = 2 ∧ d.day = 29) := by
  have inside := valid.day_le
  constructor
  · rintro valid' ⟨february, last⟩
    have inside' := valid'.day_le
    rw [common, february, last] at inside'
    exact absurd inside' (by decide)
  · intro other
    refine ⟨valid.month_pos, valid.month_le, valid.day_pos, ?_⟩
    by_cases february : d.month = 2
    · have short : d.day ≤ 28 := by
        rw [leaps, february] at inside
        exact Nat.le_of_lt_succ (lt_of_le_of_ne inside fun last => other ⟨february, last⟩)
      rw [common, february]
      exact short
    · rwa [monthLength_of_ne february _ (leap d.year)]

/-- And the day after another of its days. -/
theorem next_eq_iff_of_common (valid : Valid leap d) (leaps : leap d.year = true)
    (common : leap' d.year = false) :
    next leap d = next leap' d ↔ ¬ (d.month = 2 ∧ d.day = 28) := by
  have inside := valid.day_le
  unfold next
  constructor
  · rintro same ⟨february, last⟩
    rw [leaps, common, february, last] at same
    exact absurd (congrArg Date.month same) (by decide : (2 : ℕ) ≠ 3)
  · intro other
    by_cases february : d.month = 2
    · rw [leaps, february] at inside
      have apart : d.day ≠ 28 := fun last => other ⟨february, last⟩
      have test : d.day < monthLength true 2 ↔ d.day < monthLength false 2 := by
        change d.day ≤ 29 at inside
        change d.day < 29 ↔ d.day < 28
        omega
      simp only [leaps, common, february, test]
    · rw [monthLength_of_ne february (leap d.year) (leap' d.year)]

end Agree

end CannonCar.Calendar
