import Lares.Framework.Lines
import Lares.Framework.Numbers
import Mathlib

/-! # Recurring due dates

    Closing a recurring deadline mints the next one: `nextDue` of the due date,
    a period of whole months later.

    * **Dates** are texts; `nextDue` reads its own results back.
    * **Days** are clamped to the month, and what a short month takes away does
      not come back: the next date starts from the clamped one.
    * **The clock's end**: a JavaScript `Date` ends in September 275760.
-/

namespace Lares.Deadlines

open Lines Numbers

abbrev Text := List Char

/-! ## Section 1: Texts -/

/-- `String(n).padStart(2, "0")` -/
def pad (n : JsNumber) : Text := (written n).leftpad 2 '0'

def isoDate (year month day : JsNumber) : Text :=
  written year ++ '-' :: (pad month ++ '-' :: pad day)

/-! ## Section 2: The next due date -/

inductive DeadlineRecurrence
  | none
  | yearly
  | bimonthly
  | monthly
  deriving DecidableEq

/-- Months of a period. -/
def DeadlineRecurrence.months : DeadlineRecurrence → Option Nat
  | .none => Option.none
  | .yearly => some 12
  | .bimonthly => some 2
  | .monthly => some 1

/-- The length of a month, from 1 to 12, in the Gregorian calendar. -/
def monthLength (year month : Nat) : Nat :=
  if month = 2 then
    if year % 4 = 0 ∧ (year % 100 ≠ 0 ∨ year % 400 = 0) then 29 else 28
  else if month = 4 ∨ month = 6 ∨ month = 9 ∨ month = 11 then 30
  else 31

/-- `Date.UTC` takes the years from 0 to 99 for 1900 to 1999, and has no date past September
    275760. -/
def daysInMonth (year month : Nat) : JsNumber :=
  let year := if year ≤ 99 then 1900 + year else year
  if year * 12 + month ≤ 275760 * 12 + 8 then some (monthLength year month) else none

/-- The next due date, or `null` without a recurrence. -/
def nextDue (dueDate : Text) (recurrence : DeadlineRecurrence) : Option Text :=
  recurrence.months.map fun months =>
    let parts := (dueDate.splitOn '-').map number
    let y := parts[0]?.getD (some 1970)
    let mo := parts[1]?.getD (some 1)
    let d := parts[2]?.getD (some 1)
    -- the month is counted from 1, and a period has a month at least
    let total := y.bind fun y => mo.map fun mo => y * 12 + mo + (months - 1)
    let year := total.map (· / 12)
    let month := total.map (· % 12 + 1)
    isoDate year month (minNum d (year.bind fun year => month.bind (daysInMonth year)))

/-- `nextDue`, applied again and again. -/
def nextDueTimes (recurrence : DeadlineRecurrence) : Nat → Text → Option Text
  | 0, dueDate => some dueDate
  | k + 1, dueDate =>
    (nextDueTimes recurrence k dueDate).bind fun dueDate => nextDue dueDate recurrence

/-! ## Section 3: Due dates -/

/-- A calendar date of a four-digit year. -/
structure DueDate where
  year : Nat
  month : Nat
  day : Nat
  year_pos : 1 ≤ year
  year_le : year ≤ 9999
  month_pos : 1 ≤ month
  month_le : month ≤ 12
  day_pos : 1 ≤ day
  day_le : day ≤ monthLength year month

namespace DueDate

/-- `YYYY-MM-DD` -/
def text (D : DueDate) : Text :=
  (written (some D.year)).leftpad 4 '0' ++ '-' :: (pad (some D.month) ++ '-' :: pad (some D.day))

/-- Months before the date's own. -/
def index (D : DueDate) : Nat := D.year * 12 + (D.month - 1)

end DueDate

/-- The length of the month with `index` months before it. -/
def lengthAt (index : Nat) : Nat := monthLength (index / 12) (index % 12 + 1)

/-- The smallest of the day and the lengths of the first `k` months that are reached. -/
def keptDay (day index months k : Nat) : Nat :=
  ((List.range k).map fun j => lengthAt (index + (j + 1) * months)).foldl min day

/-- A date, by its months and its day. -/
abbrev Point := Nat × Nat

/-- The `k`-th date. -/
def DueDate.after (D : DueDate) (months k : Nat) : Point :=
  (D.index + k * months, keptDay D.day D.index months k)

def Point.text (p : Point) : Text := isoDate (some (p.1 / 12)) (some (p.1 % 12 + 1)) (some p.2)

/-- An earlier month, or an earlier day of the same one. -/
def Point.Earlier (p q : Point) : Prop := p.1 < q.1 ∨ p.1 = q.1 ∧ p.2 < q.2

/-- August 275760, the last month whose end is a `Date`. -/
def LAST_INDEX : Nat := 275760 * 12 + 7

/-! ## Section 4: Reading back -/

theorem dash_not_mem_leftpad (width n : Nat) : '-' ∉ (written (some n)).leftpad width '0' :=
  not_mem_leftpad (by decide) width n

/-- The three numbers of a date are read back, whatever the width of the year. -/
theorem parts_text (width year month day : Nat) :
    (((written (some year)).leftpad width '0' ++ '-' ::
        (pad (some month) ++ '-' :: pad (some day))).splitOn '-').map number =
      [some year, some month, some day] := by
  rw [splitOn_append_break, splitOn_append_break, pad, pad,
    List.splitOn_eq_singleton (dash_not_mem_leftpad _ _),
    List.splitOn_eq_singleton (dash_not_mem_leftpad _ _),
    List.splitOn_eq_singleton (dash_not_mem_leftpad _ _)]
  simp only [List.map_cons, List.map_nil, number_leftpad, List.cons_append,
    List.nil_append]

/-- Before the last `Date`, a month has its own length, also in the years that `Date.UTC` takes for
    others. -/
theorem daysInMonth_eq {index : Nat} (hfirst : 12 ≤ index) (hlast : index ≤ LAST_INDEX) :
    daysInMonth (index / 12) (index % 12 + 1) = some (lengthAt index) := by
  have hrange : LAST_INDEX = 3309127 := rfl
  unfold daysInMonth lengthAt
  dsimp only
  by_cases hshort : index / 12 ≤ 99
  · rw [if_pos hshort, if_pos (by omega)]
    congr 1
    unfold monthLength
    -- a year from 1 to 99 has the same leap years as 1901 to 1999
    have hleap : (1900 + index / 12) % 4 = 0 ∧
        ((1900 + index / 12) % 100 ≠ 0 ∨ (1900 + index / 12) % 400 = 0) ↔
          index / 12 % 4 = 0 ∧ (index / 12 % 100 ≠ 0 ∨ index / 12 % 400 = 0) := by
      omega
    simp only [hleap]
  · rw [if_neg hshort, if_pos (by omega)]

theorem months_pos {recurrence : DeadlineRecurrence} {months : Nat}
    (h : recurrence.months = some months) : 1 ≤ months := by
  cases recurrence <;> simp [DeadlineRecurrence.months] at h <;> omega

/-- One period later, from a date whose month is within the calendar. -/
theorem nextDue_text (width index day : Nat) {recurrence : DeadlineRecurrence} {months : Nat}
    (hmonths : recurrence.months = some months) (hfirst : 12 ≤ index)
    (hlast : index + months ≤ LAST_INDEX) :
    nextDue ((written (some (index / 12))).leftpad width '0' ++ '-' ::
        (pad (some (index % 12 + 1)) ++ '-' :: pad (some day))) recurrence =
      some (Point.text (index + months, min day (lengthAt (index + months)))) := by
  have hpos := months_pos hmonths
  have htotal : index / 12 * 12 + (index % 12 + 1) + (months - 1) = index + months := by omega
  unfold nextDue
  rw [hmonths, Option.map_some, parts_text]
  simp only [List.getElem?_cons_zero, List.getElem?_cons_succ, Option.getD_some, Option.bind_some,
    Option.map_some, htotal]
  rw [daysInMonth_eq (by omega) hlast]
  rfl

theorem keptDay_succ (day index months k : Nat) :
    keptDay day index months (k + 1) =
      min (keptDay day index months k) (lengthAt (index + (k + 1) * months)) := by
  unfold keptDay
  rw [List.range_succ, List.map_append, List.foldl_append]
  rfl

/-- One application after `k`. -/
theorem nextDueTimes_succ (D : DueDate) {recurrence : DeadlineRecurrence} {months : Nat}
    (hmonths : recurrence.months = some months) (k : Nat)
    (hlast : D.index + (k + 1) * months ≤ LAST_INDEX) :
    nextDueTimes recurrence (k + 1) D.text = some (Point.text (D.after months (k + 1))) := by
  have hfirst : 12 ≤ D.index := by
    have hyear := D.year_pos
    unfold DueDate.index
    omega
  induction k with
  | zero =>
    have hmonth := D.month_pos
    have hmonth' := D.month_le
    have hyear : D.index / 12 = D.year := by
      unfold DueDate.index
      omega
    have hmod : D.index % 12 + 1 = D.month := by
      unfold DueDate.index
      omega
    rw [zero_add, one_mul] at hlast
    have hnext := nextDue_text 4 D.index D.day hmonths hfirst hlast
    rw [hyear, hmod] at hnext
    rw [nextDueTimes, nextDueTimes, Option.bind_some, DueDate.text, hnext, DueDate.after,
      keptDay_succ, zero_add, one_mul]
    rfl
  | succ k ih =>
    have hsum : (k + 1 + 1) * months = (k + 1) * months + months := by ring
    rw [hsum] at hlast
    have hnext := nextDue_text 0 (D.index + (k + 1) * months)
      (keptDay D.day D.index months (k + 1)) hmonths (by omega) (by omega)
    rw [← written_leftpad] at hnext
    rw [nextDueTimes, ih (by omega), Option.bind_some, DueDate.after, DueDate.after,
      keptDay_succ D.day D.index months (k + 1), hsum, ← add_assoc]
    exact hnext

/-- **Due dates**: applied `k + 1` times, `nextDue` gives the date as many periods on, with the
    smallest of the day and of the lengths of the months that were reached; and each date is later
    than the one before it. -/
theorem nextDueTimes_text (D : DueDate) {recurrence : DeadlineRecurrence} {months : Nat}
    (hmonths : recurrence.months = some months) (k : Nat)
    (hlast : D.index + (k + 1) * months ≤ LAST_INDEX) :
    nextDueTimes recurrence (k + 1) D.text = some (Point.text (D.after months (k + 1))) ∧
      Point.Earlier (D.after months k) (D.after months (k + 1)) := by
  refine ⟨nextDueTimes_succ D hmonths k hlast, .inl ?_⟩
  have hpos := months_pos hmonths
  show D.index + k * months < D.index + (k + 1) * months
  have hsum : (k + 1) * months = k * months + months := by ring
  omega

/-- The last day of January 2026. -/
def january : DueDate := ⟨2026, 1, 31, by decide, by decide, by decide, by decide, by decide, by decide⟩

theorem nextDueTimes_text_january :
    nextDueTimes .monthly 2 january.text = some "2026-03-28".toList ∧
      Point.Earlier (january.after 1 1) (january.after 1 2) := by
  have hmonths : DeadlineRecurrence.monthly.months = some 1 := rfl
  have h := nextDueTimes_text january hmonths 1 (by decide)
  exact ⟨h.1, h.2⟩

/-- March has 31 days, and the due date of the 31st stays on the 28th; after August 275760 there is
    no day at all. -/
theorem nextDueTimes_drifts :
    nextDueTimes .monthly 2 january.text = some "2026-03-28".toList ∧
      min january.day (lengthAt (january.index + 2)) = 31 ∧
      nextDue "275760-08-31".toList .monthly = some "275760-09-NaN".toList := by
  refine ⟨?_, ?_, ?_⟩
  · decide +kernel
  · decide +kernel
  · decide +kernel

end Lares.Deadlines
