import Mathlib

/-! # Numbers in texts

    JavaScript reads a number from a text and writes it into one. Only naturals
    and `NaN` are needed, and only texts of digits are read.
-/

namespace Numbers

/-- A natural, or `NaN` -/
abbrev JsNumber := Option Nat

/-- `Number(token)`, of digits -/
def number (token : List Char) : JsNumber :=
  if token.all Char.isDigit then some (Nat.ofDigitChars 10 token 0) else none

/-- `String(n)` -/
def written : JsNumber → List Char
  | some n => Nat.toDigits 10 n
  | none => ['N', 'a', 'N']

/-- `Math.min` -/
def minNum (a b : JsNumber) : JsNumber := a.bind fun a => b.map fun b => min a b

theorem written_leftpad (n : JsNumber) : written n = (written n).leftpad 0 '0' := by
  simp [List.leftpad]

theorem number_digits (n : Nat) : number (Nat.toDigits 10 n) = some n := by
  have hdigits : (Nat.toDigits 10 n).all Char.isDigit = true := by
    rw [List.all_eq_true]
    intro c hc
    exact Nat.isDigit_of_mem_toDigits (by decide) (by decide) hc
  rw [number, if_pos hdigits, Nat.ofDigitChars_ten_toDigits]

/-- Zeros in front change nothing. -/
theorem number_leftpad (width n : Nat) :
    number ((written (some n)).leftpad width '0') = some n := by
  have hdigits := number_digits n
  unfold number at hdigits ⊢
  rw [written, List.leftpad, List.all_append, Nat.ofDigitChars_append,
    Nat.ofDigitChars_replicate_zero, Nat.mul_zero]
  have hzeros : (List.replicate (width - (Nat.toDigits 10 n).length) '0').all Char.isDigit := by
    rw [List.all_eq_true]
    intro c hc
    rw [List.eq_of_mem_replicate hc]
    rfl
  rw [hzeros, Bool.true_and]
  exact hdigits

theorem not_mem_leftpad {c : Char} (hc : c.isDigit = false) (width n : Nat) :
    c ∉ (written (some n)).leftpad width '0' := by
  intro hmem
  rcases List.mem_append.1 hmem with hzero | hdigit
  · rw [List.eq_of_mem_replicate hzero] at hc
    simp at hc
  · have hread := Nat.isDigit_of_mem_toDigits (by decide) (by decide) hdigit
    rw [hc] at hread
    simp at hread

end Numbers
