import Lares.Gateway.WireAgreement

/-! # Numbers as text

    `Number::toString` for doubles, which is what `JSON.stringify` writes for
    them.

    * **Digits**: as few as are read back as the double. Of the numbers with
      that many digits the one next to the double is taken.
    * **Layout**: plain, with a point, or with an exponent.
    * **Reading back**: `JSON.parse` reads the double that was written.
-/

namespace Lares.Gateway

open JsonTree

/-! ## Section 1: The digits -/

/-- A number of units at this place that is read as the double, the closest one first. -/
def digitsAt (x : ℚ) (place : ℤ) : Option ℕ :=
  let units := x / 10 ^ place
  [(roundHalfEven units).toNat, ⌊units⌋.toNat, ⌈units⌉.toNat].find? fun s =>
    binary64 (s * 10 ^ place) = .finite x

/-- Where the last of `k` digits stands. -/
def lastPlace (x : ℚ) (k : ℕ) : ℤ := Int.log 10 x + 1 - k

/-- No positive double has more digits than this. -/
def digitsBound (x : ℚ) : ℕ := (Int.log 10 x + 1).toNat + Nat.log 2 x.den

/-- `s` and the place of its last digit: `s` has as few digits as possible. -/
def shortest (x : ℚ) : Option (ℕ × ℤ) :=
  (List.range (digitsBound x)).findSome? fun i =>
    (digitsAt x (lastPlace x (i + 1))).map fun s =>
      -- one digit more: the same number one place higher
      if s = 10 ^ (i + 1) then (10 ^ i, lastPlace x (i + 1) + 1) else (s, lastPlace x (i + 1))

/-! ## Section 2: The layout -/

def zeros (n : ℤ) : List Char := List.replicate n.toNat '0'

/-- The digits of a number of units at this place; the point stands after `n` of them. -/
def layout (digits : List Char) (place : ℤ) : List Char :=
  let n := place + digits.length
  if -5 ≤ n ∧ n ≤ 21 then
    if 0 ≤ place then digits ++ zeros place
    else if 0 < n then digits.take n.toNat ++ '.' :: digits.drop n.toNat
    else '0' :: '.' :: (zeros (-n) ++ digits)
  else
    let mantissa := if digits.length = 1 then digits else digits.take 1 ++ '.' :: digits.drop 1
    let sign := if n - 1 < 0 then '-' else '+'
    mantissa ++ 'e' :: sign :: Nat.toDigits 10 (n - 1).natAbs

/-- `Number::toString` for a positive double -/
def positiveText (x : ℚ) : List Char :=
  match shortest x with
  | some (s, place) => layout (Nat.toDigits 10 s) place
  | none => []

/-- `Number::toString` -/
def numberText (x : ℚ) : List Char :=
  if x = 0 then ['0'] else if x < 0 then '-' :: positiveText (-x) else positiveText x

/-! ## Section 3: The sign -/

def Number.neg : Number → Number
  | .finite x => .finite (-x)
  | .infinite negative => .infinite !negative

theorem roundHalfEven_neg (x : ℚ) : roundHalfEven (-x) = -roundHalfEven x := by
  have hbelow : (⌊x⌋ : ℚ) ≤ x := Int.floor_le x
  have habove : x < ⌊x⌋ + 1 := Int.lt_floor_add_one x
  by_cases hint : x = ⌊x⌋
  · rw [hint, ← Int.cast_neg, roundHalfEven_intCast, roundHalfEven_intCast]
  have hlt : (⌊x⌋ : ℚ) < x := lt_of_le_of_ne hbelow (Ne.symm hint)
  have hfloor : ⌊-x⌋ = -(⌊x⌋ + 1) := by
    rw [Int.floor_eq_iff]
    push_cast
    constructor <;> linarith
  unfold roundHalfEven
  dsimp only
  rw [hfloor]
  push_cast
  by_cases hless : x - ⌊x⌋ < 1 / 2
  · rw [if_pos hless, if_neg (by linarith), if_pos (by linarith)]
    omega
  by_cases hmore : 1 / 2 < x - ⌊x⌋
  · rw [if_neg hless, if_pos hmore, if_pos (by linarith)]
  -- in the middle the even one of two neighbours is taken on either side
  rw [if_neg hless, if_neg hmore, if_neg (by linarith), if_neg (by linarith)]
  split_ifs <;> omega

theorem binary64_neg (y : ℚ) : binary64 (-y) = (binary64 y).neg := by
  unfold binary64
  dsimp only
  rw [abs_neg, neg_div, roundHalfEven_neg, Int.cast_neg, neg_mul, abs_neg]
  split_ifs with hlarge
  · have hne : y ≠ 0 := by
      intro he
      rw [he, zero_div, ← Int.cast_zero, roundHalfEven_intCast] at hlarge
      have : (0 : ℚ) < 2 ^ 1024 := by positivity
      simp only [Int.cast_zero, zero_mul, abs_zero] at hlarge
      exact absurd hlarge (not_le.2 this)
    by_cases hneg : y < 0
    · have : ¬ -y < 0 := by linarith
      simp [Number.neg, hneg, this]
    · have : -y < 0 := by
        have := lt_of_le_of_ne (not_lt.1 hneg) hne.symm
        linarith
      simp [Number.neg, hneg, this]
  · rfl

theorem parseNumber_neg {token : List Char} (h : token.head? ≠ some '-') :
    parseNumber ('-' :: token) = (parseNumber token).map Number.neg := by
  unfold parseNumber
  simp only [List.head?_cons, List.tail_cons, if_true, if_neg h]
  split_ifs
  all_goals first | rfl | exact congrArg some (binary64_neg _)

/-! ## Section 4: The digits found are those of the double -/

theorem binary64_zero : binary64 0 = .finite 0 := binary64_ofInt (n := 0) (by decide)

theorem digitsAt_spec {x : ℚ} {place : ℤ} {s : ℕ} (h : digitsAt x place = some s) :
    binary64 (s * 10 ^ place) = .finite x := by
  have := List.find?_some h
  simpa using this

theorem shortest_spec {x : ℚ} (hx : 0 < x) {s : ℕ} {place : ℤ}
    (h : shortest x = some (s, place)) :
    0 < s ∧ binary64 (s * 10 ^ place) = .finite x := by
  obtain ⟨i, -, hi⟩ := List.exists_of_findSome?_eq_some h
  obtain ⟨s', hs', he⟩ := Option.map_eq_some_iff.1 hi
  have hread := digitsAt_spec hs'
  split_ifs at he with hten
  · obtain ⟨rfl, rfl⟩ := Prod.mk.inj he
    refine ⟨by positivity, ?_⟩
    rw [← hread, hten, zpow_add₀ (by norm_num)]
    push_cast
    ring_nf
  · obtain ⟨rfl, rfl⟩ := Prod.mk.inj he
    refine ⟨?_, hread⟩
    rw [Nat.pos_iff_ne_zero]
    intro hzero
    rw [hzero, Nat.cast_zero, zero_mul, binary64_zero] at hread
    exact hx.ne (Number.finite.inj hread)

/-- The denominator of a double is a power of two. -/
theorem den_eq {x : ℚ} (h : binary64 x = .finite x) : ∃ j, x.den = 2 ^ j := by
  unfold binary64 at h
  dsimp only at h
  split_ifs at h with hlarge
  generalize roundHalfEven _ = m at h
  generalize max (Int.log 2 |x| - 52) (-1074) = e at h
  have hx : (m : ℚ) * 2 ^ e = x := Number.finite.inj h
  obtain ⟨k, hk⟩ := Int.eq_nat_or_neg e
  have hdvd : x.den ∣ 2 ^ k := by
    cases hk with
    | inl hk =>
      have hint : x = ((m * 2 ^ k : ℤ) : ℚ) := by
        rw [← hx, hk, zpow_natCast]
        push_cast
        rfl
      rw [hint, Rat.den_intCast]
      exact one_dvd _
    | inr hk =>
      have hdiv : x = (m : ℚ) / ((2 ^ k : ℤ) : ℚ) := by
        rw [← hx, hk, zpow_neg, zpow_natCast, div_eq_mul_inv]
        push_cast
        rfl
      have hden := Rat.den_dvd m (2 ^ k)
      rw [Rat.divInt_eq_div, ← hdiv] at hden
      exact_mod_cast hden
  exact ((Nat.dvd_prime_pow Nat.prime_two).1 hdvd).imp fun j hj => hj.2

/-- The digits of the whole expansion are read as the double, so the search ends. -/
theorem shortest_isSome {x : ℚ} (hx : 0 < x) (hdouble : binary64 x = .finite x) :
    (shortest x).isSome := by
  obtain ⟨j, hj⟩ := den_eq hdouble
  have hlog : Nat.log 2 x.den = j := by rw [hj, Nat.log_pow (by decide)]
  have hnum : (x.num : ℚ) = x * 2 ^ j := by
    have := Rat.mul_den_eq_num x
    rw [hj] at this
    rw [← this]
    push_cast
    rfl
  -- the number is at least one unit of its last place
  have hnum_pos : (1 : ℚ) ≤ x * 2 ^ j := by
    rw [← hnum]
    exact_mod_cast Rat.num_pos.2 hx
  have hplace : -(j : ℤ) ≤ Int.log 10 x := by
    rw [← Int.zpow_le_iff_le_log (by decide) hx, zpow_neg, zpow_natCast]
    have hpow : (2 : ℚ) ^ j ≤ 10 ^ j := pow_le_pow_left₀ (by norm_num) (by norm_num) j
    have hmul : x * 2 ^ j ≤ x * 10 ^ j := mul_le_mul_of_nonneg_left hpow hx.le
    rw [inv_le_iff_one_le_mul₀ (by positivity)]
    exact hnum_pos.trans hmul
  obtain ⟨i, hi⟩ : ∃ i : ℕ, Int.log 10 x + 1 + j = i + 1 :=
    ⟨(Int.log 10 x + j).toNat, by omega⟩
  have hunits : x / 10 ^ lastPlace x (i + 1) = ((x.num * 5 ^ j : ℤ) : ℚ) := by
    have : lastPlace x (i + 1) = -(j : ℤ) := by
      unfold lastPlace
      push_cast
      omega
    rw [this, zpow_neg, zpow_natCast, div_inv_eq_mul]
    push_cast
    rw [hnum, show (10 : ℚ) = 2 * 5 by norm_num, mul_pow]
    ring
  rw [Option.isSome_iff_ne_none, Ne, shortest, List.findSome?_eq_none_iff]
  intro hnone
  have := hnone i (List.mem_range.2 (by unfold digitsBound; rw [hlog]; omega))
  rw [Option.map_eq_none_iff, digitsAt] at this
  rw [hunits, roundHalfEven_intCast, List.find?_eq_none] at this
  apply this _ List.mem_cons_self
  rw [decide_eq_true_eq]
  have hpos : 0 ≤ x.num * 5 ^ j := mul_nonneg (Rat.num_nonneg.2 hx.le) (by positivity)
  have hcast : (((x.num * 5 ^ j).toNat : ℕ) : ℚ) = ((x.num * 5 ^ j : ℤ) : ℚ) := by
    rw [← Int.cast_natCast, Int.toNat_of_nonneg hpos]
  rw [hcast, ← hunits, div_mul_cancel₀ _ (by positivity), hdouble]

/-! ## Section 5: The layout is read as the number it shows -/

theorem span_digits {digits : List Char} (rest : List Char)
    (hdigits : ∀ c ∈ digits, c.isDigit = true) (hrest : ∀ c ∈ rest.head?, c.isDigit = false) :
    (digits ++ rest).takeWhile Char.isDigit = digits ∧
      (digits ++ rest).dropWhile Char.isDigit = rest := by
  rw [List.takeWhile_append_of_pos hdigits, List.dropWhile_append_of_pos hdigits]
  cases rest with
  | nil => simp
  | cons c rest =>
    have := hrest c rfl
    simp [this]

section Token

variable {whole fraction exponent : List Char} (hne : whole ≠ [])
  (hwhole : ∀ c ∈ whole, c.isDigit = true) (hzero : whole.head? = some '0' → whole = ['0'])
  (hfraction : ∀ c ∈ fraction, c.isDigit = true)

include hne hwhole in
theorem head_whole (rest : List Char) : (whole ++ rest).head? ≠ some '-' := by
  obtain ⟨c, cs, rfl⟩ := List.exists_cons_of_ne_nil hne
  have hc := hwhole c List.mem_cons_self
  intro he
  rw [List.cons_append, List.head?_cons] at he
  rw [Option.some.inj he] at hc
  cases hc

include hne hwhole hzero hfraction

/-- Digits with a point among them. -/
theorem parseNumber_point (hsome : fraction ≠ []) :
    parseNumber (whole ++ '.' :: fraction) =
      some (binary64 (Nat.ofDigitChars 10 (whole ++ fraction) 0 / 10 ^ fraction.length)) := by
  obtain ⟨htake, hdrop⟩ := span_digits ('.' :: fraction) hwhole (by simp)
  have hall : fraction.takeWhile Char.isDigit = fraction := List.takeWhile_eq_self_iff.2 hfraction
  have hnone : fraction.dropWhile Char.isDigit = [] := List.dropWhile_eq_nil_iff.2 hfraction
  unfold parseNumber
  simp only [if_neg (head_whole hne hwhole _), htake, hdrop, List.head?_cons, List.tail_cons,
    if_true, hall, hnone]
  simpa [hne, hsome] using hzero

/-- A fraction is written with its point, if there is one. -/
theorem parseNumber_exponent (hexponent : ∀ c ∈ exponent, c.isDigit = true)
    (hsome : exponent ≠ []) (below : Bool) :
    parseNumber (whole ++ ((if fraction = [] then [] else '.' :: fraction) ++
        'e' :: (if below then '-' else '+') :: exponent)) =
      some (binary64 (Nat.ofDigitChars 10 (whole ++ fraction) 0 / 10 ^ fraction.length *
        10 ^ (if below then -(Nat.ofDigitChars 10 exponent 0 : ℤ)
          else (Nat.ofDigitChars 10 exponent 0 : ℤ)))) := by
  have hall : exponent.all Char.isDigit = true := List.all_eq_true.2 hexponent
  by_cases hnil : fraction = []
  · obtain ⟨htake, hdrop⟩ := span_digits
      ('e' :: (if below then '-' else '+') :: exponent) hwhole (by simp)
    unfold parseNumber
    rw [if_pos hnil, List.nil_append]
    simp only [if_neg (head_whole hne hwhole _), htake, hdrop, List.head?_cons, List.tail_cons]
    cases below <;> simpa [hne, hsome, hnil, hall, div_eq_mul_inv] using hzero
  · obtain ⟨htake, hdrop⟩ := span_digits
      ('.' :: (fraction ++ 'e' :: (if below then '-' else '+') :: exponent)) hwhole
      (by simp)
    obtain ⟨htake', hdrop'⟩ := span_digits
      ('e' :: (if below then '-' else '+') :: exponent) hfraction (by simp)
    unfold parseNumber
    rw [if_neg hnil, List.cons_append]
    simp only [if_neg (head_whole hne hwhole _), htake, hdrop, List.head?_cons, List.tail_cons,
      if_true, htake', hdrop']
    cases below <;> simpa [hne, hsome, hnil, hall, div_eq_mul_inv] using hzero

end Token

theorem zeros_digits (n : ℤ) : ∀ c ∈ zeros n, c.isDigit = true := by
  intro c hc
  rw [List.eq_of_mem_replicate hc]
  rfl

/-- **A layout is read** as what it shows. -/
theorem parseNumber_layout {s : ℕ} (hs : 0 < s) (place : ℤ) :
    parseNumber (layout (Nat.toDigits 10 s) place) = some (binary64 (s * 10 ^ place)) := by
  have hdigits : ∀ c ∈ Nat.toDigits 10 s, c.isDigit = true :=
    fun c hc => Nat.isDigit_of_mem_toDigits (by decide) (by decide) hc
  have hhead : (Nat.toDigits 10 s).head? ≠ some '0' := Budget.head_toDigits_ne hs
  have hvalue : Nat.ofDigitChars 10 (Nat.toDigits 10 s) 0 = s := Nat.ofDigitChars_ten_toDigits
  have hpos : 0 < (Nat.toDigits 10 s).length := List.length_pos_iff.2 Nat.toDigits_ne_nil
  generalize Nat.toDigits 10 s = digits at hdigits hhead hvalue hpos
  have hne : digits ≠ [] := List.length_pos_iff.1 hpos
  -- a front part of the digits is not empty and starts like them
  have hfront : ∀ k, 0 < k → digits.take k ≠ [] ∧ (∀ c ∈ digits.take k, c.isDigit = true) ∧
      ((digits.take k).head? = some '0' → digits.take k = ['0']) := by
    intro k hk
    refine ⟨?_, fun c hc => hdigits c (List.mem_of_mem_take hc), ?_⟩
    · intro hnil
      exact (List.take_eq_nil_iff.1 hnil).elim (by omega) hne
    · rw [List.head?_take, if_neg (by omega)]
      exact fun h => absurd h hhead
  have hback : ∀ k, ∀ c ∈ digits.drop k, c.isDigit = true :=
    fun k c hc => hdigits c (List.mem_of_mem_drop hc)
  unfold layout
  dsimp only
  by_cases hplain : -5 ≤ place + digits.length ∧ place + digits.length ≤ 21
  · rw [if_pos hplain]
    by_cases hwhole : 0 ≤ place
    · -- zeros up to the point
      have hread := parseNumber_digits false (show digits ++ zeros place ≠ [] by simp [hne])
        (List.forall_mem_append.2 ⟨hdigits, zeros_digits place⟩) (by
          rw [List.head?_append_of_ne_nil _ hne]
          exact fun h => absurd h hhead)
      obtain ⟨k, rfl⟩ := Int.eq_ofNat_of_zero_le hwhole
      rw [Nat.ofDigitChars_append, hvalue, zeros, Nat.ofDigitChars_replicate_zero] at hread
      rw [if_pos hwhole]
      refine hread.trans ?_
      simp [mul_comm]
    by_cases hmiddle : 0 < place + digits.length
    · -- the point is among the digits
      obtain ⟨h₁, h₂, h₃⟩ := hfront (place + digits.length).toNat (by omega)
      have hread := parseNumber_point h₁ h₂ h₃ (hback (place + digits.length).toNat) (by
        rw [Ne, List.drop_eq_nil_iff]
        omega)
      have hlength : (digits.length - (place + digits.length).toNat : ℕ) = -place := by omega
      rw [List.take_append_drop, hvalue, List.length_drop, ← zpow_natCast, hlength, zpow_neg,
        div_inv_eq_mul] at hread
      rw [if_neg hwhole, if_pos hmiddle]
      exact hread
    · -- the point is before the digits
      have hread := parseNumber_point (show ['0'] ≠ [] by simp) (by simp) (by simp)
        (List.forall_mem_append.2 ⟨zeros_digits (-(place + digits.length)), hdigits⟩)
        (by simp [hne])
      have hlength : ((zeros (-(place + digits.length)) ++ digits).length : ℤ) = -place := by
        rw [List.length_append, zeros, List.length_replicate]
        omega
      have hunits : Nat.ofDigitChars 10 (['0'] ++ (zeros (-(place + digits.length)) ++ digits)) 0 =
          s := by
        rw [Nat.ofDigitChars_append, Nat.ofDigitChars_append, zeros,
          Nat.ofDigitChars_replicate_zero]
        exact hvalue
      rw [← zpow_natCast, hlength, zpow_neg, div_inv_eq_mul, hunits] at hread
      rw [if_neg hwhole, if_neg hmiddle]
      exact hread
  · -- one digit before the point, and an exponent
    obtain ⟨h₁, h₂, h₃⟩ := hfront 1 Nat.one_pos
    have hexponent : ∀ c ∈ Nat.toDigits 10 (place + digits.length - 1).natAbs, c.isDigit = true :=
      fun c hc => Nat.isDigit_of_mem_toDigits (by decide) (by decide) hc
    have hread := parseNumber_exponent h₁ h₂ h₃ (hback 1) hexponent Nat.toDigits_ne_nil
      (decide (place + digits.length - 1 < 0))
    have hmantissa : (if digits.length = 1 then digits else digits.take 1 ++ '.' :: digits.drop 1) =
        digits.take 1 ++ if digits.drop 1 = [] then [] else '.' :: digits.drop 1 := by
      by_cases hone : digits.length = 1
      · rw [if_pos hone, if_pos (List.drop_eq_nil_iff.2 hone.le), List.append_nil,
          List.take_of_length_le hone.le]
      · rw [if_neg hone, if_neg (by rw [List.drop_eq_nil_iff]; omega)]
    have hpower : (if decide (place + digits.length - 1 < 0) = true
        then -(((place + digits.length - 1).natAbs : ℕ) : ℤ)
        else ((place + digits.length - 1).natAbs : ℕ)) = place + digits.length - 1 := by
      split_ifs with h
      · rw [decide_eq_true_eq] at h
        omega
      · rw [decide_eq_true_eq] at h
        omega
    have hscale : (s : ℚ) / 10 ^ (digits.length - 1) * 10 ^ (place + digits.length - 1) =
        s * 10 ^ place := by
      have hsplit : place + digits.length - 1 = place + ((digits.length - 1 : ℕ) : ℤ) := by omega
      rw [hsplit, zpow_add₀ (by norm_num), zpow_natCast]
      field_simp
    rw [List.take_append_drop, hvalue, List.length_drop, Nat.ofDigitChars_ten_toDigits, hpower,
      hscale] at hread
    rw [if_neg hplain, hmantissa, List.append_assoc]
    simpa using hread

/-! ## Section 6: A double is read as it was written -/

theorem isNumberChar_of_isDigit {c : Char} (h : c.isDigit = true) : isNumberChar c = true := by
  unfold isNumberChar
  rw [h]
  rfl

theorem isNumberChar_layout {digits : List Char} (hdigits : ∀ c ∈ digits, c.isDigit = true)
    (place : ℤ) : ∀ c ∈ layout digits place, isNumberChar c = true := by
  have hnumber : ∀ {l : List Char}, (∀ c ∈ l, c.isDigit = true) → ∀ c ∈ l, isNumberChar c = true :=
    fun hl c hc => isNumberChar_of_isDigit (hl c hc)
  have hall := hnumber hdigits
  have hzeros := fun n => hnumber (zeros_digits n)
  have htake : ∀ k, ∀ c ∈ digits.take k, isNumberChar c = true :=
    fun k c hc => hall c (List.mem_of_mem_take hc)
  have hdrop : ∀ k, ∀ c ∈ digits.drop k, isNumberChar c = true :=
    fun k c hc => hall c (List.mem_of_mem_drop hc)
  have hpoint : isNumberChar '.' = true := by decide
  have hmantissa : ∀ c ∈ digits.take 1 ++ '.' :: digits.drop 1, isNumberChar c = true :=
    List.forall_mem_append.2 ⟨htake 1, List.forall_mem_cons.2 ⟨hpoint, hdrop 1⟩⟩
  have htail : ∀ sign, isNumberChar sign = true → ∀ n, ∀ c ∈ 'e' :: sign :: Nat.toDigits 10 n,
      isNumberChar c = true := by
    intro sign hsign n
    have hn := hnumber (l := Nat.toDigits 10 n) fun c hc =>
      Nat.isDigit_of_mem_toDigits (by decide) (by decide) hc
    exact List.forall_mem_cons.2 ⟨by decide, List.forall_mem_cons.2 ⟨hsign, hn⟩⟩
  unfold layout
  dsimp only
  split_ifs
  · exact List.forall_mem_append.2 ⟨hall, hzeros _⟩
  · exact List.forall_mem_append.2 ⟨htake _, List.forall_mem_cons.2 ⟨hpoint, hdrop _⟩⟩
  · exact List.forall_mem_cons.2 ⟨by decide, List.forall_mem_cons.2 ⟨hpoint,
      List.forall_mem_append.2 ⟨hzeros _, hall⟩⟩⟩
  · exact List.forall_mem_append.2 ⟨hall, htail '-' (by decide) _⟩
  · exact List.forall_mem_append.2 ⟨hall, htail '+' (by decide) _⟩
  · exact List.forall_mem_append.2 ⟨hmantissa, htail '-' (by decide) _⟩
  · exact List.forall_mem_append.2 ⟨hmantissa, htail '+' (by decide) _⟩

theorem head_layout {digits : List Char} (hne : digits ≠ [])
    (hdigits : ∀ c ∈ digits, c.isDigit = true) (place : ℤ) :
    ∃ c cs, layout digits place = c :: cs ∧ c.isDigit = true := by
  obtain ⟨c, cs, rfl⟩ := List.exists_cons_of_ne_nil hne
  have hc := hdigits c List.mem_cons_self
  unfold layout
  dsimp only
  split_ifs with _ _ hmiddle
  · exact ⟨c, _, rfl, hc⟩
  · obtain ⟨k, hk⟩ : ∃ k, (place + (c :: cs).length).toNat = k + 1 :=
      ⟨(place + (c :: cs).length).toNat - 1, by omega⟩
    rw [hk]
    exact ⟨c, _, rfl, hc⟩
  · exact ⟨'0', _, rfl, rfl⟩
  all_goals exact ⟨c, _, rfl, hc⟩

/-- A positive double, written and read. -/
theorem positiveText_spec {x : ℚ} (hx : 0 < x) (hdouble : binary64 x = .finite x) :
    (∃ c cs, positiveText x = c :: cs ∧ c.isDigit = true) ∧
      (∀ c ∈ positiveText x, isNumberChar c = true) ∧
      parseNumber (positiveText x) = some (.finite x) := by
  obtain ⟨⟨s, place⟩, hfound⟩ := Option.isSome_iff_exists.1 (shortest_isSome hx hdouble)
  obtain ⟨hpos, hread⟩ := shortest_spec hx hfound
  have htext : positiveText x = layout (Nat.toDigits 10 s) place := by
    unfold positiveText
    rw [hfound]
  have hdigits : ∀ c ∈ Nat.toDigits 10 s, c.isDigit = true :=
    fun c hc => Nat.isDigit_of_mem_toDigits (by decide) (by decide) hc
  rw [htext]
  refine ⟨head_layout Nat.toDigits_ne_nil hdigits place, isNumberChar_layout hdigits place, ?_⟩
  rw [parseNumber_layout hpos, hread]

/-- Whatever is written looks like a number. -/
theorem isNumberChar_numberText (x : ℚ) : ∀ c ∈ numberText x, isNumberChar c = true := by
  have hpositive : ∀ x, ∀ c ∈ positiveText x, isNumberChar c = true := by
    intro x
    unfold positiveText
    cases shortest x with
    | none => exact List.forall_mem_nil _
    | some found =>
      exact isNumberChar_layout
        (fun c hc => Nat.isDigit_of_mem_toDigits (by decide) (by decide) hc) _
  unfold numberText
  split_ifs
  · exact List.forall_mem_singleton.2 (by decide)
  · exact List.forall_mem_cons.2 ⟨by decide, hpositive _⟩
  · exact hpositive x

/-- **Every double** is read as it was written. -/
theorem readable_numberText {x : ℚ} (hdouble : binary64 x = .finite x) :
    Readable parseNumber numberText .finite x := by
  unfold Readable numberText
  by_cases hzero : x = 0
  · refine ⟨'0', [], if_pos hzero, .inr rfl, List.forall_mem_nil _, ?_⟩
    have hread := parseNumber_digits false (show ['0'] ≠ [] by simp) (by simp) (by simp)
    have hvalue : Nat.ofDigitChars 10 ['0'] 0 = 0 := rfl
    rw [if_pos hzero, hzero]
    simpa [hvalue, binary64_zero] using hread
  by_cases hneg : x < 0
  · have hdouble' : binary64 (-x) = .finite (-x) := by rw [binary64_neg, hdouble, Number.neg]
    obtain ⟨⟨c, cs, hcons, hc⟩, hchars, hread⟩ := positiveText_spec (neg_pos.2 hneg) hdouble'
    refine ⟨'-', positiveText (-x), by rw [if_neg hzero, if_pos hneg], .inl rfl, hchars, ?_⟩
    have hhead : (positiveText (-x)).head? ≠ some '-' := by
      rw [hcons, List.head?_cons]
      intro he
      rw [Option.some.inj he] at hc
      cases hc
    rw [if_neg hzero, if_pos hneg, parseNumber_neg hhead, hread, Option.map_some, Number.neg,
      neg_neg]
  · have hpos : 0 < x := lt_of_le_of_ne (not_lt.1 hneg) (Ne.symm hzero)
    obtain ⟨⟨c, cs, hcons, hc⟩, hchars, hread⟩ := positiveText_spec hpos hdouble
    rw [if_neg hzero, if_neg hneg]
    refine ⟨c, cs, hcons, .inr hc, ?_, hread⟩
    intro d hd
    exact hchars d (by rw [hcons]; exact List.mem_cons_of_mem _ hd)

end Lares.Gateway
