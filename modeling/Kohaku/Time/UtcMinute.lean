import Kohaku.Basic
import Kohaku.Calendar.Gregorian

/-!
# The minute of a clock value

`format_utc_minute` computes year, month, day, hour and minute with a days-to-civil formula over
eras of 400 years that begin in March. The numbers are the date and time of day whose minute
contains the clock value, and the computation stays within an `i64` (`utc_minute_correct`).
-/

namespace Kohaku

open Calendar

/-! ## The steps of the computation -/

/-- The year of an era, which begins in March, from the day of the era. -/
def yearOfEra (doe : Int) : Int := (doe - doe.tdiv 1460 + doe.tdiv 36524 - doe.tdiv 146096).tdiv 365

/-- Days of an era before its year. -/
def yearStart (yoe : Int) : Int := 365 * yoe + yoe.tdiv 4 - yoe.tdiv 100

/-- The month, counted from March, of the day of a year. -/
def monthOfYear (doy : Int) : Int := (5 * doy + 2).tdiv 153

/-- Days of a year before its month. -/
def monthStart (mp : Int) : Int := (153 * mp + 2).tdiv 5

/-- The date of a day of a year of an era. -/
def marchDate (era yoe doy : Int) : Date :=
  let mp := monthOfYear doy
  let month := if mp < 10 then mp + 3 else mp - 9
  ⟨yoe + era * 400 + if month ≤ 2 then 1 else 0, month, doy - monthStart mp + 1⟩

/-- The date of a number of days from 1970-01-01. -/
def civil (days : Int) : Date :=
  let z := days + 719468
  let doe := z % 146097
  let yoe := yearOfEra doe
  marchDate (z / 146097) yoe (doe - yearStart yoe)

theorem utcMinute_eq (unix : Time) :
    utcMinute unix = ⟨(civil (unix / 86400)).year, (civil (unix / 86400)).month,
    (civil (unix / 86400)).day, (unix % 86400).tdiv 3600, ((unix % 86400).tmod 3600).tdiv 60⟩ := rfl

/-- The divisions of the seconds of a day do not round toward zero. -/
theorem timeOfDay_eq (unix : Int) : (unix % 86400).tdiv 3600 = unix % 86400 / 3600 ∧
    (unix % 86400).tmod 3600 = unix % 86400 % 3600 ∧
    (unix % 86400 % 3600).tdiv 60 = unix % 86400 % 3600 / 60 := by
  have hseconds := Int.emod_nonneg unix (by decide : (86400 : Int) ≠ 0)
  exact ⟨Int.tdiv_eq_ediv_of_nonneg hseconds, Int.tmod_eq_emod_of_nonneg hseconds,
    Int.tdiv_eq_ediv_of_nonneg (Int.emod_nonneg _ (by decide))⟩

/-! ## The year of an era -/

/-- The days of an era without its leap days, but for a few at the end of a year. -/
def evenDays (doe : Nat) : Nat := doe - doe / 1460 + doe / 36524 - doe / 146096

theorem evenDays_mono : Monotone evenDays := by
  apply monotone_nat_of_le_succ
  intro doe
  unfold evenDays
  omega

theorem yearOfEra_natCast (doe : Nat) : yearOfEra doe = (evenDays doe / 365 : Nat) := by
  have heven : (doe : Int) - (doe : Int).tdiv 1460 + (doe : Int).tdiv 36524 -
      (doe : Int).tdiv 146096 = (evenDays doe : Nat) := by
    have h1 : (doe : Int).tdiv 1460 = (doe / 1460 : Nat) := rfl
    have h2 : (doe : Int).tdiv 36524 = (doe / 36524 : Nat) := rfl
    have h3 : (doe : Int).tdiv 146096 = (doe / 146096 : Nat) := rfl
    rw [h1, h2, h3, evenDays]
    omega
  rw [yearOfEra, heven]
  rfl

/-- Days of an era before its year, the 400th included. -/
def eraDays (k : Nat) : Nat := 365 * k + k / 4 - k / 100 + k / 400

theorem eraDays_natCast (k : Nat) : (eraDays k : Int) = 365 * k + k / 4 - k / 100 + k / 400 := by
  unfold eraDays
  omega

theorem exists_year {doe n : Nat} (h : doe < eraDays n) :
    ∃ k < n, eraDays k ≤ doe ∧ doe < eraDays (k + 1) := by
  induction n with
  | zero => exact absurd h (Nat.not_lt_zero _)
  | succ n ih =>
    by_cases hn : doe < eraDays n
    · obtain ⟨k, hk, hdays⟩ := ih hn
      exact ⟨k, Nat.lt_succ_of_lt hk, hdays⟩
    · exact ⟨n, Nat.lt_succ_self n, Nat.le_of_not_lt hn, h⟩

/-- The quotient grows with the day, so its values at the first and the last day of a year
decide. -/
theorem evenDays_div {doe k : Nat} (hk : k < 400) (h : eraDays k ≤ doe)
    (h' : doe < eraDays (k + 1)) : evenDays doe / 365 = k := by
  have hends : ∀ k < 400, evenDays (eraDays k) / 365 = k ∧
      evenDays (eraDays (k + 1) - 1) / 365 = k := by
    decide +kernel
  have hfirst := Nat.div_le_div_right (c := 365) (evenDays_mono h)
  have hlast := Nat.div_le_div_right (c := 365) (evenDays_mono (Nat.le_sub_one_of_lt h'))
  rw [(hends k hk).1] at hfirst
  rw [(hends k hk).2] at hlast
  exact le_antisymm hlast hfirst

/-- The day is in the year: not before its start, and behind it by less than the year's days. The
leap day is the last one, in February of the next civil year. -/
theorem yearOfEra_spec {doe : Int} (h0 : 0 ≤ doe) (h : doe < 146097) :
    0 ≤ yearOfEra doe ∧ yearOfEra doe ≤ 399 ∧ 0 ≤ doe - yearStart (yearOfEra doe) ∧
      doe - yearStart (yearOfEra doe) ≤ 364 + leapDay (yearOfEra doe + 1) := by
  obtain ⟨n, rfl⟩ := Int.eq_ofNat_of_zero_le h0
  have hera : eraDays 400 = 146097 := by decide
  obtain ⟨k, hk, hfirst, hlast⟩ := exists_year (show n < eraDays 400 by omega)
  have hyear : yearOfEra n = k := by rw [yearOfEra_natCast, evenDays_div hk hfirst hlast]
  have h4 : (k : Int).tdiv 4 = (k / 4 : Nat) := rfl
  have h100 : (k : Int).tdiv 100 = (k / 100 : Nat) := rfl
  have hstart := Int.ofNat_le.mpr hfirst
  have hend := Int.ofNat_lt.mpr hlast
  rw [eraDays_natCast] at hstart hend
  rw [Int.natCast_add, Int.natCast_one] at hend
  rw [hyear, yearStart, h4, h100, leapDay_eq, add_sub_cancel_right]
  omega

/-! ## The month of a year -/

theorem monthOfYear_eq {doy : Int} (h : 0 ≤ doy) : monthOfYear doy = (5 * doy + 2) / 153 :=
  Int.tdiv_eq_ediv_of_nonneg (by omega)

theorem monthStart_eq (mp : Int) (h : 0 ≤ mp) : monthStart mp = (153 * mp + 2) / 5 :=
  Int.tdiv_eq_ediv_of_nonneg (by omega)

theorem leapDay_era (yoe era : Int) : leapDay (yoe + era * 400 + 1) = leapDay (yoe + 1) := by
  rw [leapDay_eq, leapDay_eq, add_sub_cancel_right, add_sub_cancel_right]
  omega

/-- The first of March of a year of an era. -/
theorem daysBeforeYear_era {yoe : Int} (h0 : 0 ≤ yoe) (h : yoe ≤ 399) (era : Int) :
    Date.daysBeforeYear (yoe + era * 400 + 1) = 306 + 146097 * era + yearStart yoe - 719468 := by
  have h4 : yoe.tdiv 4 = yoe / 4 := Int.tdiv_eq_ediv_of_nonneg h0
  have h100 : yoe.tdiv 100 = yoe / 100 := Int.tdiv_eq_ediv_of_nonneg h0
  rw [Date.daysBeforeYear, yearStart, h4, h100, add_sub_cancel_right]
  omega

/-- The day of the month, from its place in the year. -/
theorem monthOfYear_spec {doy : Int} (h0 : 0 ≤ doy) (h : doy ≤ 365) :
    0 ≤ monthOfYear doy ∧ monthOfYear doy ≤ 11 ∧ monthStart (monthOfYear doy) ≤ doy ∧
      doy < monthStart (monthOfYear doy + 1) := by
  have hmp := monthOfYear_eq h0
  have hmp0 : 0 ≤ monthOfYear doy := by omega
  rw [monthStart_eq _ hmp0, monthStart_eq _ (by omega)]
  omega

/-- A date from March to December. -/
theorem date_early (year : Int) {doy mp : Int} (h0 : 0 ≤ mp) (h10 : mp < 10)
    (hstart : monthStart mp ≤ doy)
    (hend : doy < monthStart (mp + 1)) : (Date.mk year (mp + 3) (doy - monthStart mp + 1)).Valid ∧
      (Date.mk year (mp + 3) (doy - monthStart mp + 1)).dayNumber = Date.daysBeforeYear (year + 1) -
        306 + doy := by
  have hstart0 := monthStart_eq mp h0
  have hend0 := monthStart_eq (mp + 1) (by omega)
  constructor
  · have hmonth : mp = 0 ∨ mp = 1 ∨ mp = 2 ∨ mp = 3 ∨ mp = 4 ∨ mp = 5 ∨ mp = 6 ∨ mp = 7 ∨ mp = 8 ∨
        mp = 9 := by
      omega
    have hlength : doy - monthStart mp + 1 ≤ monthLength year (mp + 3) := by
      obtain rfl | rfl | rfl | rfl | rfl | rfl | rfl | rfl | rfl | rfl := hmonth <;>
        simp [monthLength] <;> omega
    exact ⟨by dsimp only; omega, by dsimp only; omega, by dsimp only; omega, hlength⟩
  · have hyear := daysBeforeYear_succ year
    simp only [Date.dayNumber, Date.daysBeforeMonth]
    rw [if_neg (by omega), add_sub_cancel_right]
    omega

/-- A date in January or February, of the next civil year. -/
theorem date_late {year doy mp : Int} (h10 : 10 ≤ mp) (h11 : mp ≤ 11) (hstart : monthStart mp ≤ doy)
    (hend : doy < monthStart (mp + 1)) (hlast : doy ≤ 364 + leapDay year) :
    (Date.mk year (mp - 9) (doy - monthStart mp + 1)).Valid ∧
      (Date.mk year (mp - 9) (doy - monthStart mp + 1)).dayNumber = Date.daysBeforeYear year -
        306 + doy := by
  have hstart0 := monthStart_eq mp (by omega)
  have hend0 := monthStart_eq (mp + 1) (by omega)
  constructor
  · have hlength : doy - monthStart mp + 1 ≤ monthLength year (mp - 9) := by
      obtain rfl | rfl : mp = 10 ∨ mp = 11 := by omega
      · simp [monthLength]
        omega
      · simp [monthLength]
        omega
    exact ⟨by dsimp only; omega, by dsimp only; omega, by dsimp only; omega, hlength⟩
  · simp only [Date.dayNumber, Date.daysBeforeMonth]
    rw [if_pos (by omega)]
    omega

theorem marchDate_spec (era : Int) {yoe doy : Int} (hyoe0 : 0 ≤ yoe) (hyoe : yoe ≤ 399)
    (hdoy0 : 0 ≤ doy) (hdoy : doy ≤ 364 + leapDay (yoe + 1)) : (marchDate era yoe doy).Valid ∧
      (marchDate era yoe doy).dayNumber = 146097 * era + yearStart yoe + doy - 719468 := by
  have hmarch := daysBeforeYear_era hyoe0 hyoe era
  have hleap := leapDay_nonneg (yoe + 1)
  obtain ⟨hmp0, hmp, hstart, hend⟩ := monthOfYear_spec hdoy0 (by omega)
  unfold marchDate
  dsimp only
  split
  · rename_i h10
    rw [if_neg (by omega), add_zero]
    obtain ⟨hvalid, hnumber⟩ := date_early (yoe + era * 400) hmp0 h10 hstart hend
    exact ⟨hvalid, by omega⟩
  · rename_i h10
    rw [if_pos (by omega)]
    rw [← leapDay_era _ era] at hdoy
    obtain ⟨hvalid, hnumber⟩ := date_late (not_lt.mp h10) hmp hstart hend hdoy
    exact ⟨hvalid, by omega⟩

/-- The formula gives the date of the day. -/
theorem civil_spec (days : Int) : (civil days).Valid ∧ (civil days).dayNumber = days := by
  have hera := Int.mul_ediv_add_emod (days + 719468) 146097
  have hdoe0 := Int.emod_nonneg (days + 719468) (by decide : (146097 : Int) ≠ 0)
  have hdoe := Int.emod_lt_of_pos (days + 719468) (by decide : (0 : Int) < 146097)
  obtain ⟨hyoe0, hyoe, hdoy0, hdoy⟩ := yearOfEra_spec hdoe0 hdoe
  obtain ⟨hvalid, hnumber⟩ := marchDate_spec ((days + 719468) / 146097) hyoe0 hyoe hdoy0 hdoy
  refine ⟨hvalid, hnumber.trans ?_⟩
  omega

/-- The date advances with the days. -/
theorem civil_succ (days : Int) : civil (days + 1) = (civil days).next := by
  obtain ⟨hvalid, hnumber⟩ := civil_spec days
  obtain ⟨hvalid', hnumber'⟩ := civil_spec (days + 1)
  obtain ⟨hnext, hsucc⟩ := dayNumber_next hvalid
  refine eq_of_dayNumber_eq hvalid' hnext ?_
  rw [hnumber', hsucc, hnumber]

/-! ## The same with `i64` arithmetic -/

/-- The result of an `i64` operation; `none` is an overflow. -/
def i64 (n : Int) : Option Int := if -2 ^ 63 ≤ n ∧ n < 2 ^ 63 then some n else none

theorem i64_eq {n : Int} (h : -2 ^ 63 ≤ n) (h' : n < 2 ^ 63) : i64 n = some n := if_pos ⟨h, h'⟩

namespace Checked

/-- `yoe`, the year of a day in its era of 400 years. -/
def yearOfEra (doe : Int) : Option Int := do
  let fours ← i64 (doe.tdiv 1460)
  let hundreds ← i64 (doe.tdiv 36524)
  let last ← i64 (doe.tdiv 146096)
  let days ← i64 (doe - fours)
  let days ← i64 (days + hundreds)
  let days ← i64 (days - last)
  i64 (days.tdiv 365)

/-- The day of the era on which a year begins. -/
def yearStart (yoe : Int) : Option Int := do
  let days ← i64 (365 * yoe)
  let fours ← i64 (yoe.tdiv 4)
  let hundreds ← i64 (yoe.tdiv 100)
  let days ← i64 (days + fours)
  i64 (days - hundreds)

/-- `mp`, the month of a day, counted from March. -/
def monthOfYear (doy : Int) : Option Int := do
  let days ← i64 (5 * doy)
  let days ← i64 (days + 2)
  i64 (days.tdiv 153)

/-- The day of the year on which a month begins. -/
def monthStart (mp : Int) : Option Int := do
  let days ← i64 (153 * mp)
  let days ← i64 (days + 2)
  i64 (days.tdiv 5)

/-- The date of a day of a year that begins in March. -/
def marchDate (era yoe doy : Int) : Option Date := do
  let mp ← monthOfYear doy
  let start ← monthStart mp
  let day ← i64 (doy - start)
  let day ← i64 (day + 1)
  let month ← if mp < 10 then i64 (mp + 3) else i64 (mp - 9)
  let years ← i64 (era * 400)
  let year ← i64 (yoe + years)
  let year ← i64 (year + if month ≤ 2 then 1 else 0)
  return ⟨year, month, day⟩

/-- The date of a day, as `format_utc_minute` computes it, with every operation checked. -/
def civil (days : Int) : Option Date := do
  let z ← i64 (days + 719468)
  let era ← i64 (z / 146097)
  let doe ← i64 (z % 146097)
  let yoe ← yearOfEra doe
  let start ← yearStart yoe
  let doy ← i64 (doe - start)
  marchDate era yoe doy

/-- The numbers of `format_utc_minute`, `none` when an operation overflows. -/
def utcMinute (unix : Time) : Option UtcMinute := do
  let days ← i64 (unix / 86400)
  let seconds ← i64 (unix % 86400)
  let date ← civil days
  let hour ← i64 (seconds.tdiv 3600)
  let minute ← i64 (seconds.tmod 3600)
  let minute ← i64 (minute.tdiv 60)
  return ⟨date.year, date.month, date.day, hour, minute⟩

theorem yearOfEra_eq {doe : Int} (h0 : 0 ≤ doe) (h : doe < 146097) :
    yearOfEra doe = some (Kohaku.yearOfEra doe) := by
  have h1 : doe.tdiv 1460 = doe / 1460 := Int.tdiv_eq_ediv_of_nonneg h0
  have h2 : doe.tdiv 36524 = doe / 36524 := Int.tdiv_eq_ediv_of_nonneg h0
  have h3 : doe.tdiv 146096 = doe / 146096 := Int.tdiv_eq_ediv_of_nonneg h0
  have h4 : (doe - doe / 1460 + doe / 36524 - doe / 146096).tdiv 365 =
      (doe - doe / 1460 + doe / 36524 - doe / 146096) / 365 := Int.tdiv_eq_ediv_of_nonneg (by omega)
  rw [yearOfEra, Kohaku.yearOfEra, h1, h2, h3, h4]
  simp (disch := omega) only [i64_eq, Option.bind_eq_bind, Option.bind_some, h4]

theorem yearStart_eq {yoe : Int} (h0 : 0 ≤ yoe) (h : yoe ≤ 399) :
    yearStart yoe = some (Kohaku.yearStart yoe) := by
  have h4 : yoe.tdiv 4 = yoe / 4 := Int.tdiv_eq_ediv_of_nonneg h0
  have h100 : yoe.tdiv 100 = yoe / 100 := Int.tdiv_eq_ediv_of_nonneg h0
  rw [yearStart, Kohaku.yearStart, h4, h100]
  simp (disch := omega) only [i64_eq, Option.bind_eq_bind, Option.bind_some]

theorem monthOfYear_eq {doy : Int} (h0 : 0 ≤ doy) (h : doy ≤ 365) :
    monthOfYear doy = some (Kohaku.monthOfYear doy) := by
  have h153 : (5 * doy + 2).tdiv 153 = (5 * doy + 2) / 153 := Int.tdiv_eq_ediv_of_nonneg (by omega)
  rw [monthOfYear, Kohaku.monthOfYear, h153]
  simp (disch := omega) only [i64_eq, Option.bind_eq_bind, Option.bind_some, h153]

theorem monthStart_eq {mp : Int} (h0 : 0 ≤ mp) (h : mp ≤ 11) :
    monthStart mp = some (Kohaku.monthStart mp) := by
  have h5 : (153 * mp + 2).tdiv 5 = (153 * mp + 2) / 5 := Int.tdiv_eq_ediv_of_nonneg (by omega)
  rw [monthStart, Kohaku.monthStart, h5]
  simp (disch := omega) only [i64_eq, Option.bind_eq_bind, Option.bind_some, h5]

theorem marchDate_eq {era yoe doy : Int} (hera0 : -2 ^ 50 ≤ era) (hera : era < 2 ^ 50)
    (hyoe0 : 0 ≤ yoe) (hyoe : yoe ≤ 399) (hdoy0 : 0 ≤ doy) (hdoy : doy ≤ 365) :
    marchDate era yoe doy = some (Kohaku.marchDate era yoe doy) := by
  obtain ⟨hmp0, hmp, hstart, hend⟩ := monthOfYear_spec hdoy0 hdoy
  have hfirst := Kohaku.monthStart_eq _ hmp0
  rw [marchDate, monthOfYear_eq hdoy0 hdoy, Option.bind_eq_bind, Option.bind_some,
    monthStart_eq hmp0 hmp, Kohaku.marchDate]
  dsimp only
  generalize Kohaku.monthOfYear doy = mp at *
  generalize Kohaku.monthStart mp = start at *
  by_cases h10 : mp < 10
  · have hlate : ¬mp + 3 ≤ 2 := by omega
    simp (disch := omega) only [if_pos h10, if_neg hlate, i64_eq, Option.bind_some]
    rfl
  · have hlate : mp - 9 ≤ 2 := by omega
    simp (disch := omega) only [if_neg h10, if_pos hlate, i64_eq, Option.bind_some]
    rfl

/-- No step overflows on the days of an `i64` of seconds. -/
theorem civil_eq {days : Int} (h0 : -2 ^ 62 ≤ days) (h : days < 2 ^ 62) :
    civil days = some (Kohaku.civil days) := by
  have hdoe0 := Int.emod_nonneg (days + 719468) (by decide : (146097 : Int) ≠ 0)
  have hdoe := Int.emod_lt_of_pos (days + 719468) (by decide : (0 : Int) < 146097)
  obtain ⟨hyoe0, hyoe, hdoy0, hdoy⟩ := yearOfEra_spec hdoe0 hdoe
  have hleap := leapDay_nonneg (Kohaku.yearOfEra ((days + 719468) % 146097) + 1)
  have hz : i64 (days + 719468) = some (days + 719468) := i64_eq (by omega) (by omega)
  have hera : i64 ((days + 719468) / 146097) = some ((days + 719468) / 146097) :=
    i64_eq (by omega) (by omega)
  have hmod : i64 ((days + 719468) % 146097) = some ((days + 719468) % 146097) :=
    i64_eq (by omega) (by omega)
  have hplace : i64 ((days + 719468) % 146097 - Kohaku.yearStart
      (Kohaku.yearOfEra ((days + 719468) % 146097))) = some _ := i64_eq (by omega) (by omega)
  rw [civil, hz, Option.bind_eq_bind, Option.bind_some, hera, Option.bind_some, hmod,
    Option.bind_some, yearOfEra_eq hdoe0 hdoe, Option.bind_some, yearStart_eq hyoe0 hyoe,
    Option.bind_some, hplace, Option.bind_some]
  exact marchDate_eq (by omega) (by omega) hyoe0 hyoe hdoy0 (by omega)

theorem utcMinute_eq {unix : Int} (h0 : -2 ^ 63 ≤ unix) (h : unix < 2 ^ 63) :
    utcMinute unix = some (Kohaku.utcMinute unix) := by
  obtain ⟨hhour, hrest, hminute⟩ := timeOfDay_eq unix
  rw [utcMinute, Kohaku.utcMinute_eq, hhour, hrest, hminute]
  simp (disch := omega) only [i64_eq, civil_eq, Option.bind_eq_bind, Option.bind_some, hhour,
    hrest, hminute]
  rfl

end Checked

/-! ## The minute -/

namespace UtcMinute

/-- The day of a minute. -/
def date (t : UtcMinute) : Date := ⟨t.year, t.month, t.day⟩

/-- A valid date and a time of day. -/
structure Valid (t : UtcMinute) : Prop where
  date : t.date.Valid
  hour_nonneg : 0 ≤ t.hour
  hour_le : t.hour ≤ 23
  minute_nonneg : 0 ≤ t.minute
  minute_le : t.minute ≤ 59

/-- Minutes from 1970-01-01 00:00. -/
def number (t : UtcMinute) : Int := 1440 * t.date.dayNumber + 60 * t.hour + t.minute

/-- The minute contains the clock value. -/
def Contains (t : UtcMinute) (unix : Int) : Prop :=
  60 * t.number ≤ unix ∧ unix < 60 * (t.number + 1)

/-- The order of year, month, day, hour and minute. -/
def Before (a b : UtcMinute) : Prop :=
  a.date.Before b.date ∨ a.date = b.date ∧ (a.hour < b.hour ∨ a.hour = b.hour ∧ a.minute < b.minute)

variable {a b t : UtcMinute} {unix unix' : Int}

theorem Contains.number_eq (h : t.Contains unix) : t.number = unix / 60 := by
  obtain ⟨hle, hlt⟩ := h
  omega

theorem number_lt (ha : a.Valid) (hb : b.Valid) (h : a.Before b) : a.number < b.number := by
  have h1 := ha.hour_le
  have h2 := ha.minute_le
  have h3 := hb.hour_nonneg
  have h4 := hb.minute_nonneg
  unfold number
  obtain hdate | ⟨hdate, htime⟩ := h
  · have hday := dayNumber_lt ha.date hb.date hdate
    omega
  · rw [hdate]
    omega

theorem before_or_eq (a b : UtcMinute) : a.Before b ∨ a = b ∨ b.Before a := by
  obtain hdate | hdate | hdate := Calendar.before_or_eq a.date b.date
  · exact .inl (.inl hdate)
  · obtain ⟨y, m, d, h, n⟩ := a
    obtain ⟨y', m', d', h', n'⟩ := b
    simp only [UtcMinute.date, Date.mk.injEq] at hdate
    obtain ⟨rfl, rfl, rfl⟩ := hdate
    simp only [Before, UtcMinute.date, UtcMinute.mk.injEq, true_and]
    omega
  · exact .inr (.inr (.inl hdate))

/-- A minute has one date and time of day. -/
theorem eq_of_number_eq (ha : a.Valid) (hb : b.Valid) (h : a.number = b.number) : a = b := by
  obtain hlt | heq | hlt := before_or_eq a b
  · exact absurd h (number_lt ha hb hlt).ne
  · exact heq
  · exact absurd h (number_lt hb ha hlt).ne'

end UtcMinute

theorem valid_utcMinute (unix : Int) : (utcMinute unix).Valid := by
  obtain ⟨hhour, hrest, hminute⟩ := timeOfDay_eq unix
  rw [utcMinute_eq, hhour, hrest, hminute]
  refine ⟨(civil_spec (unix / 86400)).1, ?_, ?_, ?_, ?_⟩ <;> dsimp only <;> omega

theorem contains_utcMinute (unix : Int) : (utcMinute unix).Contains unix := by
  obtain ⟨hhour, hrest, hminute⟩ := timeOfDay_eq unix
  have hday : (utcMinute unix).date.dayNumber = unix / 86400 := (civil_spec (unix / 86400)).2
  have hnumber : (utcMinute unix).number =
      1440 * (unix / 86400) + 60 * (unix % 86400 / 3600) + unix % 86400 % 3600 / 60 := by
    rw [UtcMinute.number, hday, utcMinute_eq, hhour, hrest, hminute]
  rw [UtcMinute.Contains, hnumber]
  omega

/-- For every `i64` the computation overflows nowhere and gives the one valid date and time of day
whose minute contains the clock value; a later minute has a later date and time. -/
theorem utc_minute_correct (unix : Int) (h : -2 ^ 63 ≤ unix ∧ unix < 2 ^ 63) :
    Checked.utcMinute unix = some (utcMinute unix) ∧ (utcMinute unix).Valid ∧
      (utcMinute unix).Contains unix ∧
      (∀ t : UtcMinute, t.Valid → t.Contains unix → t = utcMinute unix) ∧
      ∀ later : Int, -2 ^ 63 ≤ later ∧ later < 2 ^ 63 → unix / 60 < later / 60 →
        (utcMinute unix).Before (utcMinute later) := by
  refine ⟨Checked.utcMinute_eq h.1 h.2, valid_utcMinute unix, contains_utcMinute unix, ?_, ?_⟩
  · intro t hvalid hcontains
    refine UtcMinute.eq_of_number_eq hvalid (valid_utcMinute unix) ?_
    rw [hcontains.number_eq, (contains_utcMinute unix).number_eq]
  · intro later _ hlt
    rw [← (contains_utcMinute unix).number_eq, ← (contains_utcMinute later).number_eq] at hlt
    obtain hbefore | heq | hafter := UtcMinute.before_or_eq (utcMinute unix) (utcMinute later)
    · exact hbefore
    · exact absurd hlt (by rw [heq]; exact lt_irrefl _)
    · exact absurd hlt (UtcMinute.number_lt (valid_utcMinute later)
        (valid_utcMinute unix) hafter).not_gt

theorem utc_minute_correct_leap : (⟨2000, 2, 29, 0, 0⟩ : UtcMinute).Contains 951782459 ∧
    utcMinute 951782459 = ⟨2000, 2, 29, 0, 0⟩ := by
  have hcontains : (⟨2000, 2, 29, 0, 0⟩ : UtcMinute).Contains 951782459 := by
    have hnumber : (⟨2000, 2, 29, 0, 0⟩ : UtcMinute).number = 15863040 := by decide
    rw [UtcMinute.Contains, hnumber]
    decide
  have hvalid : (⟨2000, 2, 29, 0, 0⟩ : UtcMinute).Valid :=
    ⟨⟨by decide, by decide, by decide, by decide⟩, by decide, by decide, by decide, by decide⟩
  exact ⟨hcontains, ((utc_minute_correct 951782459 (by decide)).2.2.2.1 _ hvalid hcontains).symm⟩

end Kohaku
