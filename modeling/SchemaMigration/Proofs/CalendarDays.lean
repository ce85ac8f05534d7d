import Mathlib.Data.Nat.Digits.Defs
import SchemaMigration.Calendar
/-! # Days of the calendar

The number of a day is taken apart into a period of 400 years, a year of the period and a day of the
year, which runs from March.  So a day has a month of the year and a place in the month
(`dateOf_month`, `dateOf_day`), its year belongs to its period (`dateOf_year`), and the years of the
calendar are few enough for their seconds to be counted by 64 bits (`seconds_of_year`).  A number
below a hundred is written with two digits (`length_padded_two`). -/
namespace SchemaMigration

namespace Calendar

/-- The period of 400 years that a day lies in. -/
def periodOf (number : Int) : Int := (number + 719468).fdiv 146097

/-- The day of its period. -/
def dayOfPeriod (number : Int) : Nat := (number + 719468 - periodOf number * 146097).toNat

/-- The year of the period that a day of the period lies in. -/
def yearOfPeriod (day : Nat) : Nat :=
  (day - day / 1460 + day / 36524 - day / 146096) / 365

/-- The day of its year, counted from March. -/
def dayOfYear (day : Nat) : Nat :=
  day - (365 * yearOfPeriod day + yearOfPeriod day / 4 - yearOfPeriod day / 100)

/-- The month of a day, counted from March. -/
def monthFromMarch (number : Int) : Nat := (5 * dayOfYear (dayOfPeriod number) + 2) / 153

theorem dateOf_eq (number : Int) :
    dateOf number =
      let month := if monthFromMarch number < 10 then monthFromMarch number + 3
        else monthFromMarch number - 9
      let year : Int := yearOfPeriod (dayOfPeriod number) + periodOf number * 400
      ⟨if month ≤ 2 then year + 1 else year, month,
        dayOfYear (dayOfPeriod number) - (153 * monthFromMarch number + 2) / 5 + 1⟩ := rfl

theorem dayOfPeriod_lt (number : Int) : dayOfPeriod number < 146097 := by
  rw [dayOfPeriod, periodOf, Int.fdiv_eq_ediv_of_nonneg _ (by decide)]
  omega

theorem yearOfPeriod_le {day : Nat} (h : day < 146097) : yearOfPeriod day ≤ 400 := by
  rw [yearOfPeriod]
  omega

/-- No month is counted beyond the next March; the exact length of the year is not needed. -/
theorem monthFromMarch_le (number : Int) : monthFromMarch number ≤ 15 := by
  have h := dayOfPeriod_lt number
  rw [monthFromMarch, dayOfYear, yearOfPeriod]
  omega

theorem dateOf_month (number : Int) : 1 ≤ (dateOf number).month ∧ (dateOf number).month ≤ 12 := by
  have h := monthFromMarch_le number
  rw [dateOf_eq]
  dsimp only
  split <;> omega

theorem dateOf_day (number : Int) : 1 ≤ (dateOf number).day ∧ (dateOf number).day ≤ 31 := by
  rw [dateOf_eq]
  dsimp only
  rw [monthFromMarch]
  omega

theorem dateOf_year (number : Int) :
    400 * periodOf number ≤ (dateOf number).year ∧
      (dateOf number).year ≤ 400 * periodOf number + 401 := by
  have h := yearOfPeriod_le (dayOfPeriod_lt number)
  rw [dateOf_eq]
  dsimp only
  split <;> split <;> omega

/-- The seconds of a point in time whose year is in the calendar are counted by 64 bits. -/
theorem seconds_of_year {seconds : Int} (hleast : minYear ≤ (dateOf (seconds.fdiv 86400)).year)
    (hgreatest : (dateOf (seconds.fdiv 86400)).year ≤ maxYear) :
    -2 ^ 63 ≤ seconds ∧ seconds < 2 ^ 63 := by
  have ⟨hfrom, hto⟩ := dateOf_year (seconds.fdiv 86400)
  rw [minYear] at hleast
  rw [maxYear] at hgreatest
  rw [periodOf, Int.fdiv_eq_ediv_of_nonneg _ (by decide), Int.fdiv_eq_ediv_of_nonneg _ (by decide)]
    at hfrom hto
  rw [Int.fdiv_eq_ediv_of_nonneg _ (by decide)] at hleast hgreatest
  omega

/-! ### Written numbers -/

theorem toList_padded (width n : Nat) :
    (padded width n).toList =
      List.replicate (width - (Nat.toDigits 10 n).length) '0' ++ Nat.toDigits 10 n := by
  rw [padded, String.toList_ofList]

theorem isDigit_of_mem_padded {width n : Nat} {c : Char} (h : c ∈ (padded width n).toList) :
    c.isDigit = true := by
  rw [toList_padded, List.mem_append] at h
  rcases h with h | h
  · rw [List.eq_of_mem_replicate h]
    decide
  · exact Nat.isDigit_of_mem_toDigits (by decide) (by decide) h

theorem length_padded (width n : Nat) :
    (padded width n).toList.length = max width (Nat.toDigits 10 n).length := by
  rw [toList_padded, List.length_append, List.length_replicate]
  omega

/-- A number below a hundred has two digits. -/
theorem length_padded_two {n : Nat} (h : n < 100) : (padded 2 n).toList.length = 2 := by
  rw [length_padded, max_eq_left ((Nat.length_toDigits_le_iff (by decide) (by decide)).mpr h)]

end Calendar

/-- Hours and minutes are those of a day. -/
theorem Instant.clock_lt (t : Instant) : t.clock.1 < 24 ∧ t.clock.2.1 < 60 := by
  rw [clock, secondOfDay, Int.fdiv_eq_ediv_of_nonneg _ (by decide)]
  dsimp only
  omega

end SchemaMigration
