import Mathlib

/-!
# The proleptic Gregorian calendar

Dates, the day after a date, and the number of days since 1970-01-01. The number of a date is that
of its year, which counts the leap years before it, plus its place in the year. It is 0 on
1970-01-01 and one more on each next day (`dayNumber_next`), and it grows strictly with the date
(`dayNumber_lt`), so a day has one date.
-/

namespace Calendar

/-- Every fourth year, of the hundreds only every fourth. -/
def isLeap (year : Int) : Bool := year % 4 = 0 && (year % 100 ≠ 0 || year % 400 = 0)

/-- The day that a leap year adds. -/
def leapDay (year : Int) : Int := if isLeap year then 1 else 0

/-- The days of a month. -/
def monthLength (year month : Int) : Int :=
  if month = 2 then 28 + leapDay year
  else if month = 4 ∨ month = 6 ∨ month = 9 ∨ month = 11 then 30
  else 31

/-- A year, a month and a day, of any numbers. -/
structure Date where
  year : Int
  month : Int
  day : Int
  deriving DecidableEq

namespace Date

/-- A date that exists. -/
structure Valid (d : Date) : Prop where
  one_le_month : 1 ≤ d.month
  month_le : d.month ≤ 12
  one_le_day : 1 ≤ d.day
  day_le : d.day ≤ monthLength d.year d.month

/-- The day after. -/
def next (d : Date) : Date :=
  if d.day < monthLength d.year d.month then { d with day := d.day + 1 }
  else if d.month < 12 then ⟨d.year, d.month + 1, 1⟩
  else ⟨d.year + 1, 1, 1⟩

/-- Days of a year before the month. -/
def daysBeforeMonth (year month : Int) : Int :=
  if month ≤ 2 then 31 * (month - 1)
  else 59 + leapDay year + (153 * (month - 3) + 2) / 5

/-- Days from 1970-01-01 to the start of the year; 477 leap years are before 1970. -/
def daysBeforeYear (year : Int) : Int :=
  365 * (year - 1970) + (year - 1) / 4 - (year - 1) / 100 + (year - 1) / 400 - 477

/-- Days from 1970-01-01. -/
def dayNumber (d : Date) : Int :=
  daysBeforeYear d.year + daysBeforeMonth d.year d.month + (d.day - 1)

/-- The order of dates. -/
def Before (a b : Date) : Prop :=
  a.year < b.year ∨ a.year = b.year ∧ (a.month < b.month ∨ a.month = b.month ∧ a.day < b.day)

end Date

open Date

variable {year month : Int} {a b d : Date}

/-! ## Years and months -/

theorem leapDay_eq (year : Int) :
    leapDay year = year / 4 - (year - 1) / 4 - (year / 100 - (year - 1) / 100) +
    (year / 400 - (year - 1) / 400) := by
  unfold leapDay isLeap
  split
  · rename_i h
    simp only [Bool.and_eq_true, Bool.or_eq_true, decide_eq_true_eq, ne_eq, decide_not,
      Bool.not_eq_true', decide_eq_false_iff_not] at h
    omega
  · rename_i h
    simp only [Bool.and_eq_true, Bool.or_eq_true, decide_eq_true_eq, ne_eq, decide_not,
      Bool.not_eq_true', decide_eq_false_iff_not] at h
    omega

theorem leapDay_nonneg (year : Int) : 0 ≤ leapDay year ∧ leapDay year ≤ 1 := by
  unfold leapDay
  split
  · decide
  · decide

/-- A year has 365 days and its leap day. -/
theorem daysBeforeYear_succ (year : Int) :
    daysBeforeYear (year + 1) = daysBeforeYear year + 365 + leapDay year := by
  rw [daysBeforeYear, daysBeforeYear, leapDay_eq, add_sub_cancel_right]
  omega

theorem daysBeforeYear_mono {x y : Int} (h : x ≤ y) : daysBeforeYear x ≤ daysBeforeYear y := by
  unfold daysBeforeYear
  omega

/-- The months fill the year. -/
theorem daysBeforeMonth_succ (year : Int) (h1 : 1 ≤ month) (h12 : month ≤ 12) :
    daysBeforeMonth year (month + 1) = daysBeforeMonth year month + monthLength year month := by
  have hmonth : month = 1 ∨ month = 2 ∨ month = 3 ∨ month = 4 ∨ month = 5 ∨ month = 6 ∨
      month = 7 ∨ month = 8 ∨ month = 9 ∨ month = 10 ∨ month = 11 ∨ month = 12 := by omega
  obtain rfl | rfl | rfl | rfl | rfl | rfl | rfl | rfl | rfl | rfl | rfl | rfl := hmonth <;>
    simp [daysBeforeMonth, monthLength] <;> omega

theorem daysBeforeMonth_year (year : Int) :
    daysBeforeMonth year 1 = 0 ∧ daysBeforeMonth year 13 = 365 + leapDay year := by
  simp only [daysBeforeMonth]
  omega

theorem daysBeforeMonth_mono (year : Int) {x y : Int} (h : x ≤ y) :
    daysBeforeMonth year x ≤ daysBeforeMonth year y := by
  have hleap := leapDay_nonneg year
  unfold daysBeforeMonth
  split
  · split
    · omega
    · omega
  · split
    · omega
    · omega

/-! ## The number of a date -/

/-- The place in the year. -/
theorem Date.Valid.place (h : d.Valid) : 0 ≤ daysBeforeMonth d.year d.month + (d.day - 1) ∧
    daysBeforeMonth d.year d.month + (d.day - 1) < daysBeforeMonth d.year (d.month + 1) := by
  have hsucc := daysBeforeMonth_succ d.year h.one_le_month h.month_le
  have hfirst := daysBeforeMonth_mono d.year h.one_le_month
  have hzero := (daysBeforeMonth_year d.year).1
  have hday := h.one_le_day
  have hlast := h.day_le
  omega

theorem dayNumber_lt (ha : a.Valid) (hb : b.Valid) (h : a.Before b) :
    a.dayNumber < b.dayNumber := by
  have hplace := ha.place
  have hplace' := hb.place
  unfold dayNumber
  obtain hyear | ⟨hyear, hmonth | ⟨hmonth, hday⟩⟩ := h
  · -- the year of the first ends before that of the second begins
    have hend := daysBeforeYear_mono (Int.add_one_le_of_lt hyear)
    have hlast := daysBeforeMonth_mono a.year (Int.add_le_add_right ha.month_le 1)
    have hyearEnd : daysBeforeMonth a.year (12 + 1) = 365 + leapDay a.year :=
      (daysBeforeMonth_year a.year).2
    have hsucc := daysBeforeYear_succ a.year
    omega
  · have hlast := daysBeforeMonth_mono a.year (Int.add_one_le_of_lt hmonth)
    have hday := hb.one_le_day
    rw [← hyear] at hplace' ⊢
    omega
  · rw [← hyear, ← hmonth]
    omega

theorem before_or_eq (a b : Date) : a.Before b ∨ a = b ∨ b.Before a := by
  obtain ⟨y, m, d⟩ := a
  obtain ⟨y', m', d'⟩ := b
  simp only [Before, Date.mk.injEq]
  omega

/-- A day has one date. -/
theorem eq_of_dayNumber_eq (ha : a.Valid) (hb : b.Valid) (h : a.dayNumber = b.dayNumber) :
    a = b := by
  obtain hlt | heq | hlt := before_or_eq a b
  · exact absurd h (dayNumber_lt ha hb hlt).ne
  · exact heq
  · exact absurd h (dayNumber_lt hb ha hlt).ne'

example : (Date.mk 1970 1 1).dayNumber = 0 := by decide

theorem monthLength_pos (year month : Int) : 1 ≤ monthLength year month := by
  have hleap := leapDay_nonneg year
  unfold monthLength
  split
  · omega
  · split
    · omega
    · omega

/-- The day after a date is one, and has the next number. -/
theorem dayNumber_next (h : d.Valid) : d.next.Valid ∧ d.next.dayNumber = d.dayNumber + 1 := by
  unfold next
  split
  · rename_i hlt
    refine ⟨⟨h.one_le_month, h.month_le, Int.le_add_one h.one_le_day, hlt⟩, ?_⟩
    simp only [dayNumber]
    omega
  · rename_i hlast
    have hday : d.day = monthLength d.year d.month := le_antisymm h.day_le (not_lt.mp hlast)
    have hsucc := daysBeforeMonth_succ d.year h.one_le_month h.month_le
    split
    · rename_i hmonth
      refine ⟨⟨Int.le_add_one h.one_le_month, hmonth, le_refl _, monthLength_pos _ _⟩, ?_⟩
      simp only [dayNumber]
      omega
    · rename_i hmonth
      have hm : d.month = 12 := le_antisymm h.month_le (not_lt.mp hmonth)
      have hle : (1 : Int) ≤ 12 := by decide
      refine ⟨⟨le_refl _, hle, le_refl _, monthLength_pos _ _⟩, ?_⟩
      have hyear := daysBeforeYear_succ d.year
      have hend := daysBeforeMonth_year d.year
      have hstart := (daysBeforeMonth_year (d.year + 1)).1
      rw [hm] at hsucc hday
      simp only [dayNumber, hm]
      have h13 : daysBeforeMonth d.year (12 + 1) = 365 + leapDay d.year := hend.2
      omega

end Calendar
