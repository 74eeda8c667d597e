import Mathlib

/-! # The Gregorian calendar

    Days and months, both counted by integers: days from 1 January 1970, and
    months from January of the year 0, so that a month is `12 * year + month`
    with months of a year from 0 to 11. The calendar is extended to all years.

    * **First days**: `firstDay` goes up by the length of each month, 28 to 31 days.
    * **Months of days**: `monthOf` is the only month whose days contain a day.
    * **Months later**: the same day of the month, or the last one there is.
-/

namespace Gregorian

/-! ## Section 1: First days -/

/-- One more day in a leap year. -/
def leapDay (year : Int) : Int :=
  if year % 4 = 0 ∧ (year % 100 ≠ 0 ∨ year % 400 = 0) then 1 else 0

/-- The day that a year starts on. -/
def yearStart (year : Int) : Int :=
  365 * (year - 1970) + (year - 1969) / 4 - (year - 1901) / 100 + (year - 1601) / 400

/-- The days of a year before a month. -/
def daysBefore (leap month : Int) : Int :=
  if month ≤ 1 then 31 * month
  else 59 + leap + (153 * (month - 2) + 2) / 5 -- five months from March on have 153 days

/-- The day that a month starts on. -/
def firstDay (month : Int) : Int :=
  yearStart (month / 12) + daysBefore (leapDay (month / 12)) (month % 12)

def daysInMonth (month : Int) : Int := firstDay (month + 1) - firstDay month

theorem leapDay_bounds (year : Int) : 0 ≤ leapDay year ∧ leapDay year ≤ 1 := by
  unfold leapDay
  split <;> omega

theorem yearStart_succ (year : Int) : yearStart (year + 1) = yearStart year + 365 + leapDay year := by
  unfold yearStart leapDay
  split <;> omega

theorem daysInMonth_bounds (month : Int) : 28 ≤ daysInMonth month ∧ daysInMonth month ≤ 31 := by
  have hleap := leapDay_bounds (month / 12)
  by_cases hlast : month % 12 = 11
  · -- December: the next month is in the next year
    have hyear : (month + 1) / 12 = month / 12 + 1 := by omega
    have hmonth : (month + 1) % 12 = 0 := by omega
    rw [daysInMonth, firstDay, firstDay, hyear, hmonth, hlast, yearStart_succ]
    simp only [daysBefore]
    norm_num
    omega
  · have hyear : (month + 1) / 12 = month / 12 := by omega
    have hmonth : (month + 1) % 12 = month % 12 + 1 := by omega
    have hlow : 0 ≤ month % 12 := by omega
    have hhigh : month % 12 ≤ 10 := by omega
    rw [daysInMonth, firstDay, firstDay, hyear, hmonth]
    generalize month % 12 = m at hlow hhigh
    unfold daysBefore
    split <;> split <;> omega

theorem firstDay_succ (month : Int) : firstDay (month + 1) = firstDay month + daysInMonth month := by
  unfold daysInMonth
  omega

theorem firstDay_add (month : Int) (n : Nat) : firstDay month + 28 * n ≤ firstDay (month + n) := by
  induction n with
  | zero => simp
  | succ n ih =>
    have hlen := (daysInMonth_bounds (month + n)).1
    have hnext := firstDay_succ (month + n)
    have hcast : month + ((n + 1 : Nat) : Int) = month + n + 1 := by omega
    rw [hcast, hnext]
    omega

theorem firstDay_mono {m m' : Int} (h : m ≤ m') : firstDay m + 28 * (m' - m) ≤ firstDay m' := by
  have hadd := firstDay_add m (m' - m).toNat
  have hcast : ((m' - m).toNat : Int) = m' - m := Int.toNat_of_nonneg (by omega)
  rw [hcast] at hadd
  have hend : m + (m' - m) = m' := by omega
  rw [hend] at hadd
  exact hadd

/-! ## Section 2: Months of days -/

/-- The year of a day: the estimate is at most one off. -/
def yearOf (day : Int) : Int :=
  let estimate := day * 400 / 146097 + 1970
  if day < yearStart estimate then estimate - 1
  else if day < yearStart (estimate + 1) then estimate
  else estimate + 1

theorem yearOf_spec (day : Int) :
    yearStart (yearOf day) ≤ day ∧ day < yearStart (yearOf day + 1) := by
  have hlow : yearStart (day * 400 / 146097 + 1970 - 1) ≤ day := by
    unfold yearStart
    omega
  have hhigh : day < yearStart (day * 400 / 146097 + 1970 + 1 + 1) := by
    unfold yearStart
    omega
  unfold yearOf
  dsimp only
  by_cases hbefore : day < yearStart (day * 400 / 146097 + 1970)
  · rw [if_pos hbefore, Int.sub_add_cancel]
    exact ⟨hlow, hbefore⟩
  · rw [if_neg hbefore]
    by_cases hin : day < yearStart (day * 400 / 146097 + 1970 + 1)
    · rw [if_pos hin]
      exact ⟨not_lt.1 hbefore, hin⟩
    · rw [if_neg hin]
      exact ⟨not_lt.1 hin, hhigh⟩

/-- The month of a day that is in `start` or one of the next `n` months. -/
def monthFrom (day start : Int) : Nat → Int
  | 0 => start
  | n + 1 => if day < firstDay (start + 1) then start else monthFrom day (start + 1) n

/-- The month of a day. -/
def monthOf (day : Int) : Int := monthFrom day (12 * yearOf day) 11

theorem monthFrom_spec {day start : Int} {n : Nat} (hstart : firstDay start ≤ day)
    (hend : day < firstDay (start + n + 1)) :
    firstDay (monthFrom day start n) ≤ day ∧ day < firstDay (monthFrom day start n + 1) := by
  induction n generalizing start with
  | zero =>
    rw [Int.natCast_zero, Int.add_zero] at hend
    exact ⟨hstart, hend⟩
  | succ n ih =>
    rw [monthFrom]
    by_cases hin : day < firstDay (start + 1)
    · rw [if_pos hin]
      exact ⟨hstart, hin⟩
    · rw [if_neg hin]
      have hshift : start + ((n + 1 : Nat) : Int) + 1 = start + 1 + n + 1 := by omega
      rw [hshift] at hend
      exact ih (not_lt.1 hin) hend

theorem firstDay_year (year : Int) : firstDay (12 * year) = yearStart year := by
  have hyear : 12 * year / 12 = year := by omega
  have hmonth : 12 * year % 12 = 0 := by omega
  rw [firstDay, hyear, hmonth]
  simp [daysBefore]

theorem monthOf_spec (day : Int) :
    firstDay (monthOf day) ≤ day ∧ day < firstDay (monthOf day + 1) := by
  obtain ⟨hstart, hend⟩ := yearOf_spec day
  rw [← firstDay_year] at hstart hend
  have hnext : 12 * (yearOf day + 1) = 12 * yearOf day + ((11 : Nat) : Int) + 1 := by omega
  rw [hnext] at hend
  exact monthFrom_spec hstart hend

theorem monthOf_le {day month : Int} (h : day < firstDay (month + 1)) : monthOf day ≤ month := by
  have hspec := (monthOf_spec day).1
  by_contra hlt
  have hmono := firstDay_mono (show month + 1 ≤ monthOf day by omega)
  omega

theorem le_monthOf {day month : Int} (h : firstDay month ≤ day) : month ≤ monthOf day := by
  have hspec := (monthOf_spec day).2
  by_contra hlt
  have hmono := firstDay_mono (show monthOf day + 1 ≤ month by omega)
  omega

theorem monthOf_firstDay (month : Int) : monthOf (firstDay month) = month := by
  have hlen := (daysInMonth_bounds month).1
  have hnext := firstDay_succ month
  exact le_antisymm (monthOf_le (by omega)) (le_monthOf (le_refl _))

/-- From 1 to the length of the month. -/
def dayOfMonth (day : Int) : Int := day - firstDay (monthOf day) + 1

theorem dayOfMonth_bounds (day : Int) :
    1 ≤ dayOfMonth day ∧ dayOfMonth day ≤ daysInMonth (monthOf day) := by
  obtain ⟨hstart, hend⟩ := monthOf_spec day
  rw [firstDay_succ] at hend
  unfold dayOfMonth
  omega

theorem eq_firstDay_add (day : Int) : day = firstDay (monthOf day) + dayOfMonth day - 1 := by
  unfold dayOfMonth
  omega

/-! ## Section 3: Months later -/

/-- The same day of the month so many months later, or the last day of that month. -/
def monthsLater (n day : Int) : Int :=
  firstDay (monthOf day + n) + min (dayOfMonth day) (daysInMonth (monthOf day + n)) - 1

theorem monthsLater_bounds (n day : Int) :
    firstDay (monthOf day + n) ≤ monthsLater n day ∧
      monthsLater n day < firstDay (monthOf day + n + 1) := by
  have hday := (dayOfMonth_bounds day).1
  have hlen := (daysInMonth_bounds (monthOf day + n)).1
  have hnext := firstDay_succ (monthOf day + n)
  unfold monthsLater
  omega

/-- A day of an earlier month comes before the month of a day. -/
theorem monthsLater_lt {n day now : Int} (h : monthOf day + n < monthOf now) :
    monthsLater n day < now := by
  have hbounds := (monthsLater_bounds n day).2
  have hmono := firstDay_mono (show monthOf day + n + 1 ≤ monthOf now by omega)
  have hnow := (monthOf_spec now).1
  omega

theorem lt_monthsLater {n day now : Int} (h : monthOf now < monthOf day + n) :
    now < monthsLater n day := by
  have hbounds := (monthsLater_bounds n day).1
  have hmono := firstDay_mono (show monthOf now + 1 ≤ monthOf day + n by omega)
  have hnow := (monthOf_spec now).2
  omega

/-- In the month of a day, the days of the month decide. -/
theorem monthsLater_le {n day now : Int} (h : monthOf day + n = monthOf now)
    (hday : dayOfMonth day ≤ dayOfMonth now) :
    monthsLater n day = now - (dayOfMonth now - dayOfMonth day) := by
  have hnow := (dayOfMonth_bounds now).2
  have heq := eq_firstDay_add now
  unfold monthsLater
  rw [h]
  omega

end Gregorian
