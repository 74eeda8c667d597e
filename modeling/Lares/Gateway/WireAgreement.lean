import Lares.Budget.Pricing
import Lares.Gateway.CanonicalWire

/-! # What both sides of the wire agree on

    * **Texts**: replacing what is not printable after `JSON.stringify` gives
      the ASCII escapes of Python.
    * **Trees**: either side writes the tree of the document, its fields
      arranged; JavaScript by `propertyOrder` in the end, Python by code points.
      So the bytes agree if and only if the names do.
    * **Reading**: what was written is read, so the encodings are injective and
      the parser accepts what is canonical.
-/

namespace Lares.Gateway

open JsonTree

/-! ## Section 1: Safe integers are read as written -/

theorem roundHalfEven_intCast (n : ℤ) : roundHalfEven n = n := by
  have hfloor : ⌊(n : ℚ)⌋ = n := Int.floor_intCast n
  unfold roundHalfEven
  dsimp only
  rw [hfloor, sub_self, if_pos (by norm_num)]

/-- A safe integer is a double. -/
theorem binary64_ofInt {n : ℤ} (h : n.natAbs ≤ MAX_SAFE_INTEGER) :
    binary64 n = Number.ofInt n := by
  have hmax : MAX_SAFE_INTEGER < 2 ^ 53 := by decide
  have habs : |(n : ℚ)| = (n.natAbs : ℚ) := by
    rw [Nat.cast_natAbs, Int.cast_abs]
  have hlog : Int.log 2 |(n : ℚ)| ≤ 52 := by
    rw [habs, Int.log_natCast]
    have : Nat.log 2 n.natAbs < 53 := Nat.log_lt_of_lt_pow' (by decide) (by omega)
    omega
  -- the exponent is not positive, so the quotient is an integer
  obtain ⟨k, hk⟩ : ∃ k : ℕ, max (Int.log 2 |(n : ℚ)| - 52) (-1074) = -(k : ℤ) :=
    ⟨(-max (Int.log 2 |(n : ℚ)| - 52) (-1074)).toNat, by omega⟩
  have hpow : (0 : ℚ) < 2 ^ k := by positivity
  have hquotient : (n : ℚ) / 2 ^ (-(k : ℤ)) = ((n * 2 ^ k : ℤ) : ℚ) := by
    rw [zpow_neg, zpow_natCast, div_inv_eq_mul]
    push_cast
    rfl
  have hrounded : (roundHalfEven ((n : ℚ) / 2 ^ (-(k : ℤ))) : ℚ) * 2 ^ (-(k : ℤ)) = n := by
    rw [hquotient, roundHalfEven_intCast, zpow_neg, zpow_natCast]
    push_cast
    field_simp
  have hsmall : ¬ (2 : ℚ) ^ 1024 ≤ |(n : ℚ)| := by
    rw [habs, not_le]
    have hlt : (n.natAbs : ℚ) < 2 ^ 53 := by
      exact_mod_cast Nat.lt_of_le_of_lt h hmax
    exact hlt.trans_le (pow_le_pow_right₀ (by norm_num) (by decide))
  unfold binary64
  dsimp only
  rw [hk, hrounded, if_neg hsmall]
  rfl

theorem safeInteger_ofInt {n : ℤ} (h : n.natAbs ≤ MAX_SAFE_INTEGER) :
    (Number.ofInt n).safeInteger = some n := by
  have hden : (n : ℚ).den = 1 := Rat.den_intCast n
  have hnum : (n : ℚ).num = n := Rat.num_intCast n
  unfold Number.ofInt Number.safeInteger
  dsimp only
  rw [hnum, if_pos ⟨hden, h⟩]

theorem ofInt_of_safeInteger {x : Number} {n : ℤ} (h : x.safeInteger = some n) :
    x = Number.ofInt n ∧ n.natAbs ≤ MAX_SAFE_INTEGER := by
  cases x with
  | infinite negative => cases h
  | finite x =>
    unfold Number.safeInteger at h
    dsimp only at h
    split_ifs at h with hx
    cases h
    refine ⟨?_, hx.2⟩
    unfold Number.ofInt
    rw [Rat.coe_int_num_of_den_eq_one hx.1]

theorem decimal_neg {n : ℤ} (h : n < 0) : decimal n = '-' :: Nat.toDigits 10 n.natAbs := if_pos h

theorem decimal_nonneg {n : ℤ} (h : ¬ n < 0) : decimal n = Nat.toDigits 10 n.natAbs := if_neg h

/-- Digits alone are a number, unless the first of several is a zero. -/
theorem parseNumber_digits {digits : List Char} (negative : Bool) (hne : digits ≠ [])
    (hdigits : ∀ c ∈ digits, c.isDigit = true)
    (hzero : digits.head? = some '0' → digits = ['0']) :
    parseNumber (if negative then '-' :: digits else digits) =
      some (binary64 (if negative then -(Nat.ofDigitChars 10 digits 0 : ℚ)
        else Nat.ofDigitChars 10 digits 0)) := by
  have htake : digits.takeWhile Char.isDigit = digits := List.takeWhile_eq_self_iff.2 hdigits
  have hdrop : digits.dropWhile Char.isDigit = [] := List.dropWhile_eq_nil_iff.2 hdigits
  have hhead : digits.head? ≠ some '-' := by
    intro he
    have := hdigits '-' (List.mem_of_mem_head? he)
    cases this
  unfold parseNumber
  cases negative with
  | true => simpa [htake, hdrop, hne] using hzero
  | false => simpa [htake, hdrop, hne, hhead] using hzero

theorem parseNumber_decimal {n : ℤ} (h : n.natAbs ≤ MAX_SAFE_INTEGER) :
    parseNumber (decimal n) = some (Number.ofInt n) := by
  have hdigits : ∀ c ∈ Nat.toDigits 10 n.natAbs, c.isDigit = true :=
    fun c hc => Nat.isDigit_of_mem_toDigits (by decide) (by decide) hc
  have hzero : (Nat.toDigits 10 n.natAbs).head? = some '0' → Nat.toDigits 10 n.natAbs = ['0'] := by
    intro hhead
    by_cases hpos : 0 < n.natAbs
    · exact absurd hhead (Budget.head_toDigits_ne hpos)
    · rw [Nat.eq_zero_of_not_pos hpos]
      rfl
  have habs : ∀ m : ℤ, (n.natAbs : ℤ) = m → (n.natAbs : ℚ) = m := by
    intro m hm
    rw [← hm]
    rfl
  rw [← binary64_ofInt h]
  by_cases hneg : n < 0
  · have hread := parseNumber_digits true Nat.toDigits_ne_nil hdigits hzero
    rw [Nat.ofDigitChars_ten_toDigits, habs (-n) (by omega), Int.cast_neg, neg_neg] at hread
    rw [decimal_neg hneg]
    exact hread
  · have hread := parseNumber_digits false Nat.toDigits_ne_nil hdigits hzero
    rw [Nat.ofDigitChars_ten_toDigits, habs n (by omega)] at hread
    rw [decimal_nonneg hneg]
    exact hread

theorem readable_decimal {n : ℤ} (h : n.natAbs ≤ MAX_SAFE_INTEGER) :
    Readable parseNumber decimal Number.ofInt n := by
  have hdigit : ∀ c ∈ Nat.toDigits 10 n.natAbs, c.isDigit = true :=
    fun c hc => Nat.isDigit_of_mem_toDigits (by decide) (by decide) hc
  have hnumber : ∀ c ∈ Nat.toDigits 10 n.natAbs, isNumberChar c = true := by
    intro c hc
    unfold isNumberChar
    rw [hdigit c hc]
    rfl
  by_cases hneg : n < 0
  · exact ⟨'-', Nat.toDigits 10 n.natAbs, decimal_neg hneg, .inl rfl, hnumber,
      parseNumber_decimal h⟩
  · obtain ⟨c, cs, hcons⟩ :=
      List.exists_cons_of_ne_nil (Nat.toDigits_ne_nil (n := n.natAbs) (b := 10))
    refine ⟨c, cs, (decimal_nonneg hneg).trans hcons, .inr ?_, ?_, parseNumber_decimal h⟩
    · exact hdigit c (by rw [hcons]; exact List.mem_cons_self)
    · intro d hd
      exact hnumber d (by rw [hcons]; exact List.mem_cons_of_mem _ hd)

/-! ## Section 2: Texts -/

abbrev Printable (c : Char) : Prop := 32 ≤ c.toNat ∧ c.toNat ≤ 126

theorem replaced_unit {c : Char} (h : Printable c) : replaced (unit c) = [c] := by
  have hval : (unit c).val = c.toNat := Nat.mod_eq_of_lt (by have := h.2; omega)
  unfold replaced
  rw [hval, if_pos h, Char.ofNat_toNat]

theorem flatMap_replaced {l : List Char} (h : ∀ c ∈ l, Printable c) :
    (l.map unit).flatMap replaced = l := by
  induction l with
  | nil => rfl
  | cons c l ih =>
    rw [List.map_cons, List.flatMap_cons, replaced_unit (h c List.mem_cons_self),
      ih fun d hd => h d (List.mem_cons_of_mem _ hd)]
    rfl

theorem printable_hexDigit : ∀ n : Fin 16, 32 ≤ (JsonTexts.hexDigit n).toNat ∧
    (JsonTexts.hexDigit n).toNat ≤ 126 := by decide

theorem printable_hex4 {n : Nat} (h : n < 65536) : ∀ c ∈ hex4 n, Printable c := by
  unfold hex4
  simp only [List.forall_mem_cons]
  exact ⟨printable_hexDigit ⟨n / 4096, by omega⟩,
    printable_hexDigit ⟨n / 256 % 16, Nat.mod_lt _ (by decide)⟩,
    printable_hexDigit ⟨n / 16 % 16, Nat.mod_lt _ (by decide)⟩,
    printable_hexDigit ⟨n % 16, Nat.mod_lt _ (by decide)⟩, List.forall_mem_nil _⟩

theorem printable_unicode (u : CodeUnit) : ∀ c ∈ '\\' :: 'u' :: hex4 u.val, Printable c :=
  List.forall_mem_cons.2 ⟨by decide, List.forall_mem_cons.2 ⟨by decide, printable_hex4 u.isLt⟩⟩

theorem ofNat_val (u : CodeUnit) : Fin.ofNat 65536 u.val = u :=
  Fin.ext (Nat.mod_eq_of_lt u.isLt)

/-- What is escaped by neither side is replaced in the end. -/
theorem asciiEscape_eq_replaced {u : CodeUnit} (h : 14 ≤ u.val) (hquote : u.val ≠ 34)
    (hback : u.val ≠ 92) : asciiEscape u = replaced u := by
  unfold asciiEscape replaced
  rw [if_neg hquote, if_neg hback, if_neg (by omega), if_neg (by omega), if_neg (by omega),
    if_neg (by omega), if_neg (by omega)]

theorem quoteUnit_replaced (u : CodeUnit) : (quoteUnit u).flatMap replaced = asciiEscape u := by
  have hself := ofNat_val u
  unfold quoteUnit
  by_cases hb : u.val = 8
  · rw [if_pos hb, ← hself, hb]
    decide
  by_cases ht : u.val = 9
  · rw [if_neg hb, if_pos ht, ← hself, ht]
    decide
  by_cases hn : u.val = 10
  · rw [if_neg hb, if_neg ht, if_pos hn, ← hself, hn]
    decide
  by_cases hf : u.val = 12
  · rw [if_neg hb, if_neg ht, if_neg hn, if_pos hf, ← hself, hf]
    decide
  by_cases hr : u.val = 13
  · rw [if_neg hb, if_neg ht, if_neg hn, if_neg hf, if_pos hr, ← hself, hr]
    decide
  rw [if_neg hb, if_neg ht, if_neg hn, if_neg hf, if_neg hr]
  by_cases hquote : u.val = 34
  · rw [if_pos (.inl hquote), ← hself, hquote]
    decide
  by_cases hback : u.val = 92
  · rw [if_pos (.inr hback), ← hself, hback]
    decide
  rw [if_neg (by omega)]
  by_cases hescape : u.val < 32 ∨ isHigh u = true ∨ isLow u = true
  · rw [if_pos hescape]
    unfold unicodeEscape
    rw [flatMap_replaced (printable_unicode u)]
    have hplain : ¬ (32 ≤ u.val ∧ u.val ≤ 126) := by
      simp only [isHigh, isLow, Bool.and_eq_true, decide_eq_true_eq] at hescape
      omega
    unfold asciiEscape
    rw [if_neg hquote, if_neg hback, if_neg hb, if_neg hf, if_neg hn, if_neg hr, if_neg ht,
      if_neg hplain]
  · rw [if_neg hescape, asciiEscape_eq_replaced (by omega) hquote hback]
    exact List.append_nil _

theorem quoteUnits_replaced (text : JsText) :
    (quoteUnits text).flatMap replaced = text.flatMap asciiEscape := by
  induction text using quoteUnits.induct with
  | case1 => rfl
  | case2 u =>
    rw [quoteUnits, quoteUnit_replaced]
    exact (List.append_nil _).symm
  | case3 u u' rest hpair ih =>
    -- a pair stays for `JSON.stringify`, and is replaced half by half
    have hu : 55296 ≤ u.val ∧ 56320 ≤ u'.val := by
      simp only [isHigh, isLow, Bool.and_eq_true, decide_eq_true_eq] at hpair
      omega
    rw [quoteUnits, if_pos hpair, List.flatMap_cons, List.flatMap_cons, ih, List.flatMap_cons,
      List.flatMap_cons, asciiEscape_eq_replaced (by omega) (by omega) (by omega),
      asciiEscape_eq_replaced (by omega) (by omega) (by omega)]
  | case4 u u' rest hpair ih =>
    rw [quoteUnits, if_neg hpair, List.flatMap_append, quoteUnit_replaced, ih]
    rfl

theorem quoteJSONString_replaced (text : JsText) :
    (quoteJSONString text).flatMap replaced = asciiQuote text := by
  unfold quoteJSONString asciiQuote
  rw [List.flatMap_append, List.flatMap_cons, quoteUnits_replaced, replaced_unit (by decide)]
  show '"' :: text.flatMap asciiEscape ++ (replaced (unit '"') ++ []) = _
  rw [replaced_unit (by decide)]
  rfl

/-! In Python -/

theorem val_ofNat_unit (u : CodeUnit) : (Fin.ofNat 1114112 u.val).val = u.val :=
  Nat.mod_eq_of_lt (by have := u.isLt; omega)

theorem escapeCodePoint_unit (u : CodeUnit) :
    escapeCodePoint (Fin.ofNat 1114112 u.val) = asciiEscape u := by
  have hlt : u.val < 65536 := u.isLt
  unfold escapeCodePoint asciiEscape
  rw [val_ofNat_unit]
  split_ifs <;> first | rfl | omega

theorem escapeCodePoint_pair {u u' : CodeUnit} (hu : isHigh u = true) (hu' : isLow u' = true) :
    escapeCodePoint (Fin.ofNat 1114112 (65536 + (u.val - 55296) * 1024 + (u'.val - 56320))) =
      asciiEscape u ++ asciiEscape u' := by
  simp only [isHigh, isLow, Bool.and_eq_true, decide_eq_true_eq] at hu hu'
  have hval : (Fin.ofNat 1114112 (65536 + (u.val - 55296) * 1024 + (u'.val - 56320))).val =
      65536 + (u.val - 55296) * 1024 + (u'.val - 56320) := Nat.mod_eq_of_lt (by omega)
  have hhigh : 55296 + (65536 + (u.val - 55296) * 1024 + (u'.val - 56320) - 65536) / 1024 % 1024 =
      u.val := by omega
  have hlow : 56320 + (65536 + (u.val - 55296) * 1024 + (u'.val - 56320) - 65536) % 1024 =
      u'.val := by omega
  have hescape : ∀ v : CodeUnit, 127 ≤ v.val → asciiEscape v = '\\' :: 'u' :: hex4 v.val := by
    intro v hv
    rw [asciiEscape_eq_replaced (by omega) (by omega) (by omega)]
    exact if_neg (by omega)
  unfold escapeCodePoint
  rw [hval, hhigh, hlow, hescape u (by omega), hescape u' (by omega), if_neg (by omega),
    if_neg (by omega), if_neg (by omega), if_neg (by omega), if_neg (by omega), if_neg (by omega),
    if_neg (by omega), if_neg (by omega), if_neg (by omega)]

theorem codePoints_escaped (text : JsText) :
    (codePoints text).flatMap escapeCodePoint = text.flatMap asciiEscape := by
  induction text using codePoints.induct with
  | case1 => rfl
  | case2 u =>
    rw [codePoints, List.flatMap_cons, escapeCodePoint_unit]
    rfl
  | case3 u u' rest hpair ih =>
    rw [codePoints, if_pos hpair, List.flatMap_cons, ih, escapeCodePoint_pair hpair.1 hpair.2,
      List.flatMap_cons, List.flatMap_cons, List.append_assoc]
  | case4 u u' rest hpair ih =>
    rw [codePoints, if_neg hpair, List.flatMap_cons, ih, escapeCodePoint_unit]
    rfl

theorem encodeBasestringAscii_codePoints (text : JsText) :
    encodeBasestringAscii (codePoints text) = asciiQuote text := by
  unfold encodeBasestringAscii asciiQuote
  rw [codePoints_escaped]

/-- The code units of a code point. -/
def codeUnits (c : CodePoint) : JsText :=
  if c.val < 65536 then [Fin.ofNat 65536 c.val]
  else
    [Fin.ofNat 65536 (55296 + (c.val - 65536) / 1024),
      Fin.ofNat 65536 (56320 + (c.val - 65536) % 1024)]

theorem codeUnits_unit (u : CodeUnit) : codeUnits (Fin.ofNat 1114112 u.val) = [u] := by
  unfold codeUnits
  rw [val_ofNat_unit, if_pos u.isLt, ofNat_val]

theorem codeUnits_codePoints (text : JsText) : (codePoints text).flatMap codeUnits = text := by
  induction text using codePoints.induct with
  | case1 => rfl
  | case2 u =>
    rw [codePoints, List.flatMap_cons, codeUnits_unit]
    rfl
  | case3 u u' rest hpair ih =>
    have hbounds := hpair
    simp only [isHigh, isLow, Bool.and_eq_true, decide_eq_true_eq] at hbounds
    have hval : (Fin.ofNat 1114112 (65536 + (u.val - 55296) * 1024 + (u'.val - 56320))).val =
        65536 + (u.val - 55296) * 1024 + (u'.val - 56320) := Nat.mod_eq_of_lt (by omega)
    have hhigh : 55296 + (65536 + (u.val - 55296) * 1024 + (u'.val - 56320) - 65536) / 1024 =
        u.val := by omega
    have hlow : 56320 + (65536 + (u.val - 55296) * 1024 + (u'.val - 56320) - 65536) % 1024 =
        u'.val := by omega
    rw [codePoints, if_pos hpair, List.flatMap_cons, ih]
    unfold codeUnits
    rw [hval, if_neg (by omega), hhigh, hlow, ofNat_val, ofNat_val]
    rfl
  | case4 u u' rest hpair ih =>
    rw [codePoints, if_neg hpair, List.flatMap_cons, ih, codeUnits_unit]
    rfl

theorem codePoints_injective : Function.Injective codePoints := by
  intro s t h
  rw [← codeUnits_codePoints s, h, codeUnits_codePoints t]

/-! ## Section 3: What either side writes -/

/-- A document as text, its fields arranged. -/
def writeAscii (v : JsonTree ℤ JsText) : List Char := v.write id decimal asciiQuote

theorem printable_decimal (n : ℤ) : ∀ c ∈ decimal n, Printable c := by
  have hdigits : ∀ c ∈ Nat.toDigits 10 n.natAbs, Printable c := by
    intro c hc
    have := Nat.isDigit_of_mem_toDigits (by decide) (by decide) hc
    rw [Char.isDigit_iff_toNat] at this
    have hzero : '0'.toNat = 48 := rfl
    have hnine : '9'.toNat = 57 := rfl
    exact ⟨by omega, by omega⟩
  by_cases hneg : n < 0
  · rw [decimal_neg hneg]
    exact List.forall_mem_cons.2 ⟨by decide, hdigits⟩
  · rw [decimal_nonneg hneg]
    exact hdigits

theorem printable_syntaxChars : ∀ c ∈ syntaxChars, Printable c := by
  simp [syntaxChars, Printable]

theorem printable_asciiQuote (text : JsText) : ∀ c ∈ asciiQuote text, Printable c := by
  have hescape : ∀ u : CodeUnit, ∀ c ∈ asciiEscape u, Printable c := by
    intro u
    unfold asciiEscape
    split_ifs with h₁ h₂ h₃ h₄ h₅ h₆ h₇ hplain
    iterate 7 simp [Printable]
    · intro c hc
      rw [List.mem_singleton.1 hc]
      have := toNat_ofNat_ascii ⟨u.val, by omega⟩
      unfold Printable
      rw [this]
      exact hplain
    · exact printable_unicode u
  have htext : ∀ c ∈ text.flatMap asciiEscape, Printable c := by
    intro c hc
    obtain ⟨u, -, hcu⟩ := List.mem_flatMap.1 hc
    exact hescape u c hcu
  have hquote : Printable '"' := by decide
  unfold asciiQuote
  exact List.forall_mem_append.2 ⟨List.forall_mem_cons.2 ⟨hquote, htext⟩,
    List.forall_mem_cons.2 ⟨hquote, List.forall_mem_nil _⟩⟩

/-- Nothing outside of ASCII is written. -/
theorem printable_writeAscii (v : JsonTree ℤ JsText) : ∀ c ∈ writeAscii v, Printable c :=
  mem_write printable_syntaxChars printable_decimal printable_asciiQuote v

theorem stringify_replaced (v : JsonTree ℤ JsText) :
    (stringify v).flatMap replaced = writeAscii (v.arrange ownProperties) := by
  have hlit : ∀ c ∈ syntaxChars, replaced (unit c) = [id c] :=
    fun c hc => replaced_unit (printable_syntaxChars c hc)
  have hnum : ∀ n : ℤ, ((decimal n).map unit).flatMap replaced = decimal (id n) :=
    fun n => flatMap_replaced (printable_decimal n)
  have hstr : ∀ text, (quoteJSONString text).flatMap replaced = asciiQuote (id text) :=
    quoteJSONString_replaced
  have h := flatMap_write hlit hnum hstr (v.arrange ownProperties)
  rw [map_id] at h
  exact h

/-- Python writes the texts of JavaScript. -/
theorem write_codePoints (v : JsonTree ℤ JsText) :
    (v.map id codePoints).write id decimal encodeBasestringAscii = writeAscii v := by
  have hlit : ∀ c ∈ syntaxChars, [id c] = [id c] := fun _ _ => rfl
  have hnum : ∀ n : ℤ, (decimal n).flatMap (fun c => [c]) = decimal (id n) :=
    fun n => List.flatMap_singleton' _
  have hstr : ∀ text, (asciiQuote text).flatMap (fun c => [c]) =
      encodeBasestringAscii (codePoints text) := by
    intro text
    rw [encodeBasestringAscii_codePoints]
    exact List.flatMap_singleton' _
  have h := flatMap_write hlit hnum hstr v
  rw [List.flatMap_singleton'] at h
  exact h.symm

/-- The order of the fields after `sort`, `Object.fromEntries` and `JSON.stringify`. -/
def jsArrangement : Arrangement JsText := sortedKeys.andThen ownProperties

theorem arrayIndex_eq {key : JsText} {n : Nat} (h : arrayIndex key = some n) :
    key = (Nat.toDigits 10 n).map unit := by
  unfold arrayIndex at h
  split_ifs at h with hkey
  cases h
  exact hkey.1

theorem propertyOrder_injective : Function.Injective propertyOrder := by
  intro k k' h
  unfold propertyOrder at h
  cases hk : arrayIndex k with
  | none =>
    rw [hk] at h
    cases hk' : arrayIndex k' with
    | none =>
      rw [hk'] at h
      exact Sum.inr.inj (toLex.injective h)
    | some n' =>
      rw [hk'] at h
      cases toLex.injective h
  | some n =>
    rw [hk] at h
    cases hk' : arrayIndex k' with
    | none =>
      rw [hk'] at h
      cases toLex.injective h
    | some n' =>
      rw [hk'] at h
      have hn : n = n' := Sum.inl.inj (toLex.injective h)
      rw [arrayIndex_eq hk, arrayIndex_eq hk', hn]

theorem propertyOrder_name {k : JsText} (h : (arrayIndex k).isSome = false) :
    propertyOrder k = toLex (.inr k) := by
  unfold propertyOrder
  cases hk : arrayIndex k with
  | none => rfl
  | some n =>
    rw [hk] at h
    cases h

theorem propertyOrder_le_of_index {k k' : JsText} (hk : (arrayIndex k).isSome)
    (hk' : (arrayIndex k').isSome) (h : indexOf k ≤ indexOf k') :
    propertyOrder k ≤ propertyOrder k' := by
  obtain ⟨n, hn⟩ := Option.isSome_iff_exists.1 hk
  obtain ⟨n', hn'⟩ := Option.isSome_iff_exists.1 hk'
  unfold indexOf at h
  unfold propertyOrder
  rw [hn, hn'] at h ⊢
  exact Sum.Lex.inl_le_inl_iff.2 h

theorem propertyOrder_le_of_name {k k' : JsText} (hk : (arrayIndex k).isSome = false)
    (hk' : (arrayIndex k').isSome = false) (h : k ≤ k') : propertyOrder k ≤ propertyOrder k' := by
  rw [propertyOrder_name hk, propertyOrder_name hk']
  exact Sum.Lex.inr_le_inr_iff.2 h

theorem propertyOrder_le_of_index_name {k k' : JsText} (hk : (arrayIndex k).isSome)
    (hk' : (arrayIndex k').isSome = false) : propertyOrder k ≤ propertyOrder k' := by
  obtain ⟨n, hn⟩ := Option.isSome_iff_exists.1 hk
  rw [propertyOrder_name hk']
  unfold propertyOrder
  rw [hn]
  exact Sum.Lex.inl_le_inr n k'

/-- Names alone: indices in ascending order, then the rest as it stands. -/
theorem ownProperties_names (l : List JsText) : ownProperties.names l =
    (l.filter fun k => (arrayIndex k).isSome).insertionSort
        (fun k k' => indexOf k ≤ indexOf k') ++
      l.filter fun k => !(arrayIndex k).isSome := by
  have hid : ∀ l : List JsText, (l.map fun k => (k, ())).map Prod.fst = l := by
    intro l
    rw [List.map_map]
    exact List.map_id l
  unfold Arrangement.names ownProperties
  dsimp only
  rw [List.map_append, List.map_insertionSort _ (fun k k' => indexOf k ≤ indexOf k') Prod.fst _
    fun _ _ _ _ => Iff.rfl, List.filter_map, List.filter_map, hid, hid]
  rfl

/-- **Sorted names** as JavaScript lists them are sorted by `propertyOrder`. -/
theorem jsArrangement_names (ns : List JsText) :
    jsArrangement.names ns = (Arrangement.byName propertyOrder).names ns := by
  apply Arrangement.names_unique propertyOrder_injective (jsArrangement.names_perm ns)
  have hsorted : (sortedKeys.names ns).Pairwise fun k k' => k ≤ k' := by
    unfold sortedKeys
    rw [Arrangement.names_andThen]
    exact Arrangement.names_byName_pairwise id _
  have hnames := ownProperties_names (sortedKeys.names ns)
  rw [← Arrangement.names_andThen] at hnames
  have htotal : Std.Total fun k k' : JsText => indexOf k ≤ indexOf k' := ⟨fun _ _ => le_total _ _⟩
  have htrans : IsTrans JsText fun k k' => indexOf k ≤ indexOf k' := ⟨fun _ _ _ h h' => h.trans h'⟩
  have hindex : ∀ k ∈ ((sortedKeys.names ns).filter fun k => (arrayIndex k).isSome).insertionSort
      fun k k' => indexOf k ≤ indexOf k', (arrayIndex k).isSome := by
    intro k hk
    exact (List.mem_filter.1 ((List.mem_insertionSort _).1 hk)).2
  have hname : ∀ k ∈ (sortedKeys.names ns).filter fun k => !(arrayIndex k).isSome,
      (arrayIndex k).isSome = false := by
    intro k hk
    simpa using (List.mem_filter.1 hk).2
  unfold jsArrangement
  rw [hnames, List.pairwise_append]
  refine ⟨?_, ?_, ?_⟩
  · apply (List.pairwise_insertionSort _ _).imp_of_mem
    intro k k' hk hk' hle
    exact propertyOrder_le_of_index (hindex k hk) (hindex k' hk') hle
  · apply (hsorted.filter _).imp_of_mem
    intro k k' hk hk' hle
    exact propertyOrder_le_of_name (hname k hk) (hname k' hk') hle
  · intro k hk k' hk'
    exact propertyOrder_le_of_index_name (hindex k hk) (hname k' hk')

/-! ## Section 4: The documents -/

section Ordered

variable {onNames : List JsText → Prop}

/-- The documents are ordered. -/
theorem ordered_ofInt {v : JsonTree ℤ JsText}
    (h : v.Everywhere (fun n => n.natAbs ≤ MAX_SAFE_INTEGER) onNames) :
    ordered (v.map Number.ofInt id) = some (v.arrange sortedKeys) := by
  induction v with
  | null => rfl
  | bool b => rfl
  | string text => rfl
  | number n =>
    show (Number.ofInt n).safeInteger.map JsonTree.number = _
    rw [safeInteger_ofInt h]
    rfl
  | array items ih =>
    rw [everywhere_array] at h
    have hitems : ∀ items : List (JsonTree ℤ JsText),
        (∀ w ∈ items, ordered (w.map Number.ofInt id) = some (w.arrange sortedKeys)) →
        orderedItems (items.map (JsonTree.map Number.ofInt id)) =
          some (items.map (arrange sortedKeys)) := by
      intro items
      induction items with
      | nil => exact fun _ => rfl
      | cons w items ih =>
        intro hw
        rw [List.map_cons, orderedItems, hw w List.mem_cons_self, Option.bind_some,
          ih fun w hmem => hw w (List.mem_cons_of_mem _ hmem)]
        rfl
    rw [map_array, ordered, hitems items fun w hw => ih w hw (h w hw), arrange_array]
    rfl
  | object fields ih =>
    rw [everywhere_object] at h
    have hfields : ∀ fields : List (JsText × JsonTree ℤ JsText),
        (∀ p ∈ fields, ordered (p.2.map Number.ofInt id) = some (p.2.arrange sortedKeys)) →
        orderedFields (fields.map fun p => (id p.1, p.2.map Number.ofInt id)) =
          some (fields.map fun p => (p.1, p.2.arrange sortedKeys)) := by
      intro fields
      induction fields with
      | nil => exact fun _ => rfl
      | cons p fields ih =>
        intro hp
        rw [List.map_cons, orderedFields, hp p List.mem_cons_self, Option.bind_some,
          ih fun p hmem => hp p (List.mem_cons_of_mem _ hmem)]
        rfl
    rw [map_object, ordered, hfields fields fun p hp => ih p hp (h.2 p hp), arrange_object,
      Option.map_some, sortedKeys.natural]

/-- Nothing else is. -/
theorem exists_ofInt {v : JsValue} {t : JsonTree ℤ JsText} (h : ordered v = some t) :
    ∃ w : JsonTree ℤ JsText, v = w.map Number.ofInt id ∧
      w.Everywhere (fun n => n.natAbs ≤ MAX_SAFE_INTEGER) fun _ => True := by
  induction v using JsonTree.induct generalizing t with
  | null => exact ⟨.null, rfl, trivial⟩
  | bool b => exact ⟨.bool b, rfl, trivial⟩
  | string text => exact ⟨.string text, rfl, trivial⟩
  | number x =>
    obtain ⟨n, hn, -⟩ := Option.map_eq_some_iff.1 h
    have hx := ofInt_of_safeInteger hn
    exact ⟨.number n, congrArg JsonTree.number hx.1, hx.2⟩
  | array items ih =>
    -- By induction on the items, which `orderedItems` goes over.
    have hitems : ∀ items : List JsValue, ∀ ts, (∀ v ∈ items, ∀ {t}, ordered v = some t →
          ∃ w : JsonTree ℤ JsText, v = w.map Number.ofInt id ∧
            w.Everywhere (fun n => n.natAbs ≤ MAX_SAFE_INTEGER) fun _ => True) →
        orderedItems items = some ts →
        ∃ ws : List (JsonTree ℤ JsText), items = ws.map (JsonTree.map Number.ofInt id) ∧
          ∀ w ∈ ws, w.Everywhere (fun n => n.natAbs ≤ MAX_SAFE_INTEGER) fun _ => True := by
      intro items
      induction items with
      | nil => exact fun _ _ _ => ⟨[], rfl, List.forall_mem_nil _⟩
      | cons v items ih =>
        intro ts hv h
        rw [orderedItems] at h
        obtain ⟨t, ht, h⟩ := Option.bind_eq_some_iff.1 h
        obtain ⟨ts, hts, -⟩ := Option.map_eq_some_iff.1 h
        obtain ⟨w, hw, hsafe⟩ := hv v List.mem_cons_self ht
        obtain ⟨ws, hws, hall⟩ := ih ts (fun v hmem => hv v (List.mem_cons_of_mem _ hmem)) hts
        refine ⟨w :: ws, ?_, List.forall_mem_cons.2 ⟨hsafe, hall⟩⟩
        rw [List.map_cons, ← hw, ← hws]
    rw [ordered] at h
    obtain ⟨ts, hts, -⟩ := Option.map_eq_some_iff.1 h
    obtain ⟨ws, hws, hall⟩ := hitems items ts (fun v hv => ih v hv) hts
    refine ⟨.array ws, ?_, everywhere_array.2 hall⟩
    rw [map_array, hws]
  | object fields ih =>
    have hfields : ∀ fields : List (JsText × JsValue), ∀ ts,
        (∀ p ∈ fields, ∀ {t}, ordered p.2 = some t →
          ∃ w : JsonTree ℤ JsText, p.2 = w.map Number.ofInt id ∧
            w.Everywhere (fun n => n.natAbs ≤ MAX_SAFE_INTEGER) fun _ => True) →
        orderedFields fields = some ts →
        ∃ ws : List (JsText × JsonTree ℤ JsText),
          fields = ws.map (fun p => (id p.1, p.2.map Number.ofInt id)) ∧
          ∀ p ∈ ws, p.2.Everywhere (fun n => n.natAbs ≤ MAX_SAFE_INTEGER) fun _ => True := by
      intro fields
      induction fields with
      | nil => exact fun _ _ _ => ⟨[], rfl, List.forall_mem_nil _⟩
      | cons p fields ih =>
        intro ts hp h
        rw [orderedFields] at h
        obtain ⟨t, ht, h⟩ := Option.bind_eq_some_iff.1 h
        obtain ⟨ts, hts, -⟩ := Option.map_eq_some_iff.1 h
        obtain ⟨w, hw, hsafe⟩ := hp p List.mem_cons_self ht
        obtain ⟨ws, hws, hall⟩ := ih ts (fun p hmem => hp p (List.mem_cons_of_mem _ hmem)) hts
        refine ⟨(p.1, w) :: ws, ?_, List.forall_mem_cons.2 ⟨hsafe, hall⟩⟩
        rw [List.map_cons, ← hw, ← hws]
        rfl
    rw [ordered] at h
    obtain ⟨ts, hts, -⟩ := Option.map_eq_some_iff.1 h
    obtain ⟨ws, hws, hall⟩ := hfields fields ts (fun p hp => ih p hp) hts
    refine ⟨.object ws, ?_, everywhere_object.2 ⟨trivial, hall⟩⟩
    rw [map_object, hws]

end Ordered

namespace Document

variable (d e : Document)

theorem keyed : d.tree.Keyed := d.valid.mono (fun _ _ => trivial) fun _ h => h

/-- What TypeScript writes. -/
theorem gatewayCanonical_js : gatewayCanonical d.js =
    some ((writeAscii (d.tree.arrange (.byName propertyOrder))).map byte) := by
  have harranged : (d.tree.arrange sortedKeys).arrange ownProperties =
      d.tree.arrange (.byName propertyOrder) := by
    rw [arrange_arrange, arrange_eq_iff d.keyed]
    exact d.keyed.mono (fun _ _ => trivial) fun ns _ => jsArrangement_names ns
  unfold gatewayCanonical js
  rw [ordered_ofInt d.valid, Option.map_some, stringify_replaced, harranged]

/-- What Python writes. -/
theorem canonical_py :
    canonical d.py = (writeAscii (d.tree.arrange (.byName codePoints))).map byte := by
  unfold canonical py
  rw [arrange_map, write_codePoints]
  rfl

end Document

theorem toByteArray_byte {l : List Char} (h : ∀ c ∈ l, Printable c) :
    (l.map byte).toByteArray = l.utf8Encode := by
  have hchar : ∀ c ∈ l, String.utf8EncodeChar c = [byte c] := by
    intro c hc
    have hlow : c.val ≤ 0x7f := by
      have := (h c hc).2
      rw [UInt32.le_iff_toNat_le]
      show c.toNat ≤ 127
      omega
    rw [String.utf8EncodeChar_eq_singleton (Char.utf8Size_eq_one_iff.2 hlow)]
    rfl
  unfold List.utf8Encode
  rw [List.flatMap_congr hchar, ← List.map_eq_flatMap]

/-- ASCII is decoded to itself. -/
theorem decodeUtf8_byte {l : List Char} (h : ∀ c ∈ l, Printable c) :
    decodeUtf8 (l.map byte) = some l := by
  have hmark : l.head? ≠ some '\uFEFF' := by
    intro he
    have := (h _ (List.mem_of_mem_head? he)).2
    revert this
    decide
  unfold decodeUtf8
  rw [toByteArray_byte h, List.utf8Decode?_utf8Encode, Option.map_some]
  show some (if l.head? = some '\uFEFF' then l.tail else l) = some l
  rw [if_neg hmark]

theorem byte_injective {l l' : List Char} (h : ∀ c ∈ l, Printable c) (h' : ∀ c ∈ l', Printable c)
    (he : l.map byte = l'.map byte) : l = l' := by
  have := decodeUtf8_byte h
  rw [he, decodeUtf8_byte h'] at this
  exact (Option.some.inj this).symm

/-- The text of safe integers and distinct names is read as itself. -/
theorem parse_writeAscii {v : JsonTree ℤ JsText}
    (h : v.Everywhere (fun n => n.natAbs ≤ MAX_SAFE_INTEGER) List.Nodup) :
    JsonTree.parse parseNumber (writeAscii v) = some (v.map Number.ofInt id) :=
  parse_write (h.mono (fun _ hn => readable_decimal hn) fun _ hns => hns)

/-- The numerator of a finite number. -/
def Number.numerator : Number → ℤ
  | .finite x => x.num
  | .infinite _ => 0

theorem map_ofInt_injective : Function.Injective (JsonTree.map (σ := JsText) Number.ofInt id) :=
  map_injective Number.numerator fun n => Rat.num_intCast n

theorem writeAscii_injective {v w : JsonTree ℤ JsText}
    (hv : v.Everywhere (fun n => n.natAbs ≤ MAX_SAFE_INTEGER) List.Nodup)
    (hw : w.Everywhere (fun n => n.natAbs ≤ MAX_SAFE_INTEGER) List.Nodup)
    (h : writeAscii v = writeAscii w) : v = w := by
  have := parse_writeAscii hv
  rw [h, parse_writeAscii hw] at this
  exact map_ofInt_injective (Option.some.inj this).symm

namespace Document

variable (d e : Document)

/-- The document with its fields arranged. -/
def arranged (r : Arrangement JsText) : Document where
  tree := d.tree.arrange r
  valid := everywhere_arrange (fun ns hns => (r.names_perm ns).nodup_iff.2 hns) d.valid

theorem same_arranged (r : Arrangement JsText) : (d.arranged r).Same d :=
  (same_arrange r d.keyed).symm

variable {d e}

/-- Arranged somehow and written: the same bytes are the same trees. -/
theorem arrange_eq_of_bytes {r s : Arrangement JsText}
    (h : (writeAscii (d.tree.arrange r)).map byte = (writeAscii (e.tree.arrange s)).map byte) :
    d.tree.arrange r = e.tree.arrange s := by
  have htext := byte_injective (printable_writeAscii _) (printable_writeAscii _) h
  exact writeAscii_injective (d.arranged r).valid (e.arranged s).valid htext

/-- **The same bytes** in both languages if and only if the names agree. -/
theorem bytes_eq_iff : gatewayCanonical d.js = some (canonical d.py) ↔ d.KeysAgree := by
  have hnames : ∀ ns : List JsText, (Arrangement.byName propertyOrder).names ns =
      (Arrangement.byName codePoints).names ns ↔ Gateway.KeysAgree ns :=
    fun ns => Arrangement.names_eq_iff propertyOrder_injective codePoints_injective ns
  have hagree : d.tree.arrange (.byName propertyOrder) = d.tree.arrange (.byName codePoints) ↔
      d.KeysAgree := by
    rw [arrange_eq_iff d.keyed]
    constructor
    · intro h
      exact h.mono (fun _ _ => trivial) fun ns => (hnames ns).1
    · intro h
      exact h.mono (fun _ _ => trivial) fun ns => (hnames ns).2
  rw [gatewayCanonical_js, canonical_py, ← hagree, Option.some.injEq]
  constructor
  · exact arrange_eq_of_bytes
  · intro h
    rw [h]

/-- **Injective**, in TypeScript. -/
theorem gatewayCanonical_eq_iff : gatewayCanonical d.js = gatewayCanonical e.js ↔ d.Same e := by
  rw [gatewayCanonical_js, gatewayCanonical_js, Option.some.injEq]
  constructor
  · intro h
    exact same_of_arrange_eq d.keyed e.keyed (arrange_eq_of_bytes h)
  · intro h
    rw [Same.arrange_eq propertyOrder_injective h d.keyed e.keyed]

/-- **Injective**, in Python. -/
theorem canonical_eq_iff : canonical d.py = canonical e.py ↔ d.Same e := by
  rw [canonical_py, canonical_py]
  constructor
  · intro h
    exact same_of_arrange_eq d.keyed e.keyed (arrange_eq_of_bytes h)
  · intro h
    rw [Same.arrange_eq codePoints_injective h d.keyed e.keyed]

end Document

/-! ## Section 5: What is accepted -/

/-- What is accepted is a document, and canonical. -/
theorem document_of_parse {raw : List UInt8} {value : JsValue}
    (h : parseGatewayDocument raw = some value) : ∃ d : Document, value = d.js ∧
      gatewayCanonical d.js = some raw ∧ raw.length ≤ GATEWAY_RPC_BYTES := by
  unfold parseGatewayDocument at h
  split_ifs at h with hsize
  obtain ⟨v, hv, h⟩ := Option.bind_eq_some_iff.1 h
  split_ifs at h with hcanonical
  cases h
  obtain ⟨text, -, hparse⟩ := Option.bind_eq_some_iff.1 hv
  obtain ⟨t, ht, -⟩ := Option.map_eq_some_iff.1 hcanonical
  obtain ⟨w, hw, hsafe⟩ := exists_ofInt ht
  -- the reader lets no name stand twice
  have hkeyed := keyed_parse hparse
  rw [hw] at hkeyed
  have hnames := everywhere_map.1 hkeyed
  have hvalid : w.Everywhere (fun n => n.natAbs ≤ MAX_SAFE_INTEGER) List.Nodup := by
    apply (hsafe.and hnames).mono
    · exact fun _ hn => hn.1
    · intro ns hns
      rw [← List.map_id ns]
      exact hns.2
  refine ⟨⟨w, hvalid⟩, hw, ?_, by omega⟩
  rw [hw] at hcanonical
  exact hcanonical

theorem writeAscii_ne_nil (v : JsonTree ℤ JsText) : writeAscii v ≠ [] := by
  have hdecimal : ∀ n : ℤ, decimal n ≠ [] := by
    intro n
    by_cases hneg : n < 0
    · rw [decimal_neg hneg]
      exact List.cons_ne_nil _ _
    · rw [decimal_nonneg hneg]
      exact Nat.toDigits_ne_nil
  cases v with
  | null => exact List.cons_ne_nil _ _
  | bool b => cases b <;> exact List.cons_ne_nil _ _
  | number n => exact hdecimal n
  | string text => exact List.cons_ne_nil _ _
  | array items => cases items <;> exact List.cons_ne_nil _ _
  | object fields => cases fields <;> exact List.cons_ne_nil _ _

/-- What is canonical and not too long is accepted, as the document it is of. -/
theorem parse_of_canonical {d : Document} {raw : List UInt8}
    (h : gatewayCanonical d.js = some raw) (hsize : raw.length ≤ GATEWAY_RPC_BYTES) :
    ∃ e : Document, parseGatewayDocument raw = some e.js ∧ e.Same d := by
  let e := d.arranged (.byName propertyOrder)
  have hsame : e.Same d := d.same_arranged _
  have hraw := d.gatewayCanonical_js
  rw [h, Option.some.injEq] at hraw
  have hne : raw.length ≠ 0 := by
    rw [hraw, List.length_map]
    intro hz
    exact writeAscii_ne_nil _ (List.length_eq_zero_iff.1 hz)
  have hread : (decodeUtf8 raw).bind (JsonTree.parse parseNumber) = some e.js := by
    rw [hraw, decodeUtf8_byte (printable_writeAscii _), Option.bind_some]
    exact parse_writeAscii e.valid
  have hback : gatewayCanonical e.js = some raw := by
    rw [Document.gatewayCanonical_eq_iff.2 hsame]
    exact h
  refine ⟨e, ?_, hsame⟩
  unfold parseGatewayDocument
  rw [if_neg (by omega), hread, Option.bind_some, if_pos hback]

/-- **The canonical encoding**: every document has one in either language. They are the same bytes
    if and only if JavaScript lists the names of each object in the order of their code points.
    Either encoding is injective, and the parser accepts a body if and only if it is the encoding
    of a document and not too long, and returns that document. -/
theorem wire_agreement (d : Document) :
    (∃ raw, gatewayCanonical d.js = some raw ∧ (raw = canonical d.py ↔ d.KeysAgree)) ∧
    (∀ e : Document, (gatewayCanonical d.js = gatewayCanonical e.js ↔ d.Same e) ∧
      (canonical d.py = canonical e.py ↔ d.Same e)) ∧
    (∀ raw, gatewayCanonical d.js = some raw → raw.length ≤ GATEWAY_RPC_BYTES →
      ∃ e : Document, parseGatewayDocument raw = some e.js ∧ e.Same d) ∧
    (∀ raw value, parseGatewayDocument raw = some value → ∃ e : Document, value = e.js ∧
      gatewayCanonical e.js = some raw ∧ raw.length ≤ GATEWAY_RPC_BYTES) := by
  refine ⟨?_, ?_, ?_, ?_⟩
  · refine ⟨_, d.gatewayCanonical_js, ?_⟩
    have h := Document.bytes_eq_iff (d := d)
    rw [d.gatewayCanonical_js, Option.some.injEq] at h
    exact h
  · intro e
    exact ⟨Document.gatewayCanonical_eq_iff, Document.canonical_eq_iff⟩
  · intro raw h hsize
    exact parse_of_canonical h hsize
  · intro raw value h
    exact document_of_parse h

/-- `{"9":null,"10":null}` -/
def nineAndTen : Document where
  tree := .object [(['9'].map unit, .null), (['1', '0'].map unit, .null)]
  valid := everywhere_object.2 ⟨by decide, List.forall_mem_cons.2 ⟨trivial,
    List.forall_mem_cons.2 ⟨trivial, List.forall_mem_nil _⟩⟩⟩

/-- JavaScript lists 9 first, Python sorts 10 first. -/
theorem nineAndTen_differ :
    gatewayCanonical nineAndTen.js = some ("\x7b\"9\":null,\"10\":null\x7d".toList.map byte) ∧
    canonical nineAndTen.py = "\x7b\"10\":null,\"9\":null\x7d".toList.map byte ∧
    gatewayCanonical nineAndTen.js ≠ some (canonical nineAndTen.py) := by
  decide +kernel

end Lares.Gateway
