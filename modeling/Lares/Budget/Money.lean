import Mathlib.Data.List.DropRight
import Mathlib.Data.Nat.Basic
import Mathlib.Tactic.Ring

/-! # Budget amounts

    Amounts cross the wire as decimal text with at most 18 integral and 18
    fractional digits, and are counted in units of `10^-18` dollars. The SQL
    domain `budget_money` holds the same range, so a value of `BudgetMoney`
    is one that a column of that domain accepts.

    The fact that later files need is `totalUnits_lt` (an accepted amount fits
    the domain).
-/

namespace Lares.Budget

/-! ## Section 1: Text -/

/-- `10n**18n`: units in one dollar. -/
def SCALE : Nat := 10 ^ 18

/-- The regular-expression class `[0-9]`. -/
def isDigit (c : Char) : Bool := '0' ≤ c && c ≤ '9'

/-- `value.split('.')`: the text before the first point and, if there is a
    point, the text after it. -/
def splitPoint (cs : List Char) : List Char × Option (List Char) :=
  (cs.takeWhile (· != '.'), (cs.dropWhile (· != '.')).tail?)

/-- `0|[1-9][0-9]{0,17}` -/
def wholeOk (w : List Char) : Bool :=
  w == ['0'] || (w.all isDigit && w.head? != some '0' && 1 ≤ w.length && w.length ≤ 18)

/-- `[0-9]{1,18}` -/
def fractionOk (f : List Char) : Bool :=
  f.all isDigit && 1 ≤ f.length && f.length ≤ 18

/-- `fraction.replace(/0+$/,'')` -/
def trimZeros (f : List Char) : List Char := f.rdropWhile (· = '0')

/-- Join a whole part and a trimmed fraction. -/
def joinPoint (whole trimmed : List Char) : List Char :=
  whole ++ if trimmed = [] then [] else '.' :: trimmed

/-- At most 18 integral and 18 fractional digits, no exponent, sign or
    non-finite value. `none` models the thrown `Invalid budget amount`. -/
def canonicalBudgetMoney (value : String) : Option String :=
  match splitPoint value.toList with
  | (whole, none) => if wholeOk whole then some (String.ofList whole) else none
  | (whole, some fraction) =>
      if wholeOk whole && fractionOk fraction then
        some (String.ofList (joinPoint whole (trimZeros fraction)))
      else none

/-- `BigInt(digits)` for a text of digits. -/
def digitsValue (ds : List Char) : Nat := ds.foldl (fun n c => 10 * n + (c.toNat - 48)) 0

/-- `BigInt(a)*SCALE+BigInt(b.padEnd(18,'0'))` on the digits of an amount. -/
def unitsOf (whole fraction : List Char) : Nat :=
  digitsValue whole * SCALE
    + digitsValue (fraction ++ List.replicate (18 - fraction.length) '0')

def totalUnits (value : String) : Nat :=
  let (whole, fraction) := splitPoint value.toList
  unitsOf whole (fraction.getD [])

/-! ## Section 2: Accepted amounts stay accepted -/

theorem splitPoint_joinPoint {w t : List Char} (hw : ∀ c ∈ w, c ≠ '.') :
    splitPoint (joinPoint w t) = (w, if t = [] then none else some t) := by
  have hw' : ∀ c ∈ w, (c != '.') = true := fun c hc => by simpa using hw c hc
  unfold splitPoint joinPoint
  rw [List.takeWhile_append_of_pos hw', List.dropWhile_append_of_pos hw']
  by_cases ht : t = [] <;> simp [ht]

theorem isDigit_ne_point {c : Char} (h : isDigit c) : c ≠ '.' := by
  rintro rfl
  exact absurd h (by decide)

theorem wholeOk_digits {w : List Char} (h : wholeOk w) : ∀ c ∈ w, isDigit c := by
  simp only [wholeOk, Bool.or_eq_true, beq_iff_eq, Bool.and_eq_true, List.all_eq_true] at h
  rcases h with rfl | h
  · intro c hc
    rw [List.mem_singleton.mp hc]
    rfl
  · exact h.1.1.1

theorem wholeOk_length {w : List Char} (h : wholeOk w) : w.length ≤ 18 := by
  simp only [wholeOk, Bool.or_eq_true, beq_iff_eq, Bool.and_eq_true, decide_eq_true_eq] at h
  rcases h with rfl | h
  · decide
  · exact h.2

theorem fractionOk_spec {f : List Char} (h : fractionOk f) :
    (∀ c ∈ f, isDigit c) ∧ f.length ≤ 18 := by
  simp only [fractionOk, Bool.and_eq_true, List.all_eq_true, decide_eq_true_eq] at h
  exact ⟨h.1.1, h.2⟩

theorem trimZeros_sublist (f : List Char) : (trimZeros f).Sublist f :=
  (List.rdropWhile_prefix _ f).sublist

theorem trimZeros_idem (f : List Char) : trimZeros (trimZeros f) = trimZeros f :=
  List.rdropWhile_idempotent _ f

theorem fractionOk_trimZeros {f : List Char} (h : fractionOk f) (hne : trimZeros f ≠ []) :
    fractionOk (trimZeros f) := by
  obtain ⟨hd, hl⟩ := fractionOk_spec h
  have hlen := (trimZeros_sublist f).length_le
  have hpos : 1 ≤ (trimZeros f).length := List.length_pos_iff.2 hne
  simp only [fractionOk, Bool.and_eq_true, List.all_eq_true, decide_eq_true_eq]
  exact ⟨⟨fun c hc => hd c ((trimZeros_sublist f).subset hc), hpos⟩, by omega⟩

/-- The shape of an accepted amount: a valid whole part and a fraction that is
    empty or valid, with no trailing zero. -/
theorem canonicalBudgetMoney_shape {v m : String} (h : canonicalBudgetMoney v = some m) :
    ∃ w t, wholeOk w ∧ (t = [] ∨ fractionOk t) ∧ trimZeros t = t ∧
      m = String.ofList (joinPoint w t) := by
  unfold canonicalBudgetMoney at h
  split at h
  · next w _ =>
    split at h
    · next hw =>
      cases h
      exact ⟨w, [], hw, .inl rfl, rfl, by simp [joinPoint]⟩
    · cases h
  · next w f _ =>
    split at h
    · next hok =>
      rw [Bool.and_eq_true] at hok
      cases h
      refine ⟨w, trimZeros f, hok.1, ?_, trimZeros_idem f, rfl⟩
      by_cases hne : trimZeros f = []
      · exact .inl hne
      · exact .inr (fractionOk_trimZeros hok.2 hne)
    · cases h

theorem splitPoint_of_shape {w t : List Char} (hw : wholeOk w) :
    splitPoint (joinPoint w t) = (w, if t = [] then none else some t) :=
  splitPoint_joinPoint fun c hc => isDigit_ne_point (wholeOk_digits hw c hc)

/-! ## Section 3: Accepted amounts fit the SQL domain -/

theorem isDigit_toNat {c : Char} (h : isDigit c) : c.toNat - 48 ≤ 9 := by
  simp only [isDigit, Bool.and_eq_true, decide_eq_true_eq] at h
  have h9 : c.toNat ≤ '9'.toNat := h.2
  have : '9'.toNat = 57 := rfl
  omega

theorem digitsValue_lt {ds : List Char} (h : ∀ c ∈ ds, isDigit c) :
    digitsValue ds < 10 ^ ds.length := by
  induction ds using List.reverseRecOn with
  | nil => simp [digitsValue]
  | append_singleton ds c ih =>
    have hds := ih fun x hx => h x (by simp [hx])
    have hc := isDigit_toNat (h c (by simp))
    have hstep : digitsValue (ds ++ [c]) = 10 * digitsValue ds + (c.toNat - 48) := by
      simp [digitsValue]
    rw [hstep, List.length_append, List.length_singleton, pow_succ]
    omega

theorem unitsOf_lt {w t : List Char} (hw : wholeOk w) (ht : t = [] ∨ fractionOk t) :
    unitsOf w t < SCALE * SCALE := by
  have htd : (∀ c ∈ t, isDigit c) ∧ t.length ≤ 18 := by
    rcases ht with rfl | h
    · simp
    · exact fractionOk_spec h
  have hwhole : digitsValue w < SCALE :=
    (digitsValue_lt (wholeOk_digits hw)).trans_le
      (Nat.pow_le_pow_right (by decide) (wholeOk_length hw))
  have hfrac : digitsValue (t ++ List.replicate (18 - t.length) '0') < SCALE := by
    have hd : ∀ c ∈ t ++ List.replicate (18 - t.length) '0', isDigit c := by
      intro c hc
      rcases List.mem_append.1 hc with hc | hc
      · exact htd.1 c hc
      · rw [List.eq_of_mem_replicate hc]
        decide
    have hlen : (t ++ List.replicate (18 - t.length) '0').length = 18 := by
      rw [List.length_append, List.length_replicate]
      omega
    have := digitsValue_lt hd
    rwa [hlen] at this
  unfold unitsOf
  calc digitsValue w * SCALE + digitsValue (t ++ List.replicate (18 - t.length) '0')
      < digitsValue w * SCALE + SCALE := by omega
    _ = (digitsValue w + 1) * SCALE := by ring
    _ ≤ SCALE * SCALE := Nat.mul_le_mul_right _ hwhole

/-- An accepted amount fits the domain `budget_money`. -/
theorem totalUnits_lt {v m : String} (h : canonicalBudgetMoney v = some m) :
    totalUnits m < SCALE * SCALE := by
  obtain ⟨w, t, hw, ht, -, rfl⟩ := canonicalBudgetMoney_shape h
  unfold totalUnits
  rw [String.toList_ofList, splitPoint_of_shape hw]
  by_cases hnil : t = []
  · subst hnil
    exact unitsOf_lt hw (.inl rfl)
  · simpa [hnil] using unitsOf_lt hw ht

/-! ## Section 4: Column values -/

/-- A value of the SQL domain `budget_money`, in units of `10^-18`. -/
structure BudgetMoney where
  units : Nat
  bound : units < SCALE * SCALE
  deriving DecidableEq

namespace BudgetMoney

@[ext] theorem ext {a b : BudgetMoney} (h : a.units = b.units) : a = b := by
  cases a; cases b; cases h; rfl

def zero : BudgetMoney := ⟨0, by decide⟩

/-- The larger of two amounts: `reduce((x,y)=>x>y?x:y)` on two column values. -/
def max (a b : BudgetMoney) : BudgetMoney := if a.units > b.units then a else b

@[simp] theorem units_zero : zero.units = 0 := rfl

@[simp] theorem units_max (a b : BudgetMoney) :
    (a.max b).units = Nat.max a.units b.units := by
  unfold max
  split <;> simp only [Nat.max_def] <;> split <;> omega

/-- The column value of an amount given as text. `none` is the refusal of
    `canonicalBudgetMoney`; an accepted amount never breaks the domain. -/
def ofText (value : String) : Option BudgetMoney :=
  match h : canonicalBudgetMoney value with
  | none => none
  | some m => some ⟨totalUnits m, totalUnits_lt h⟩

example : (ofText "12.50").map units = some (12 * SCALE + 5 * 10 ^ 17) := by decide
example : ofText "1e3" = none := by decide
example : canonicalBudgetMoney "0012" = none := by decide

end BudgetMoney

end Lares.Budget
