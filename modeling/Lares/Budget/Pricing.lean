import Lares.Budget.Money
import Mathlib

/-! # Reviewed prices

    What a call may cost at most, and what it did cost, in text amounts.

    * **Amounts**: a count of units is written as text and read back unchanged.
    * **Profiles**: a format, its limits and its four rates. Each format weighs
      the token categories in its own way.
    * **Rounding** is done once, after everything has been added up.
-/

namespace Lares.Budget

/-! ## Section 1: Units as text -/

/-- `padStart(18,'0')` -/
def padStart (digits : List Char) : List Char :=
  List.replicate (18 - digits.length) '0' ++ digits

/-- Units as an amount: the whole dollars and the trimmed fraction. -/
def decimal (units : Nat) : String :=
  String.ofList (joinPoint (Nat.toDigits 10 (units / SCALE))
    (trimZeros (padStart (Nat.toDigits 10 (units % SCALE)))))

theorem digitsValue_toDigits (n : Nat) : digitsValue (Nat.toDigits 10 n) = n := by
  have hread := Nat.ofDigitChars_ten_toDigits (n := n)
  rw [Nat.ofDigitChars] at hread
  exact hread

theorem digitsValue_append (a b : List Char) :
    digitsValue (a ++ b) = digitsValue a * 10 ^ b.length + digitsValue b := by
  induction b using List.reverseRecOn with
  | nil => simp [digitsValue]
  | append_singleton b c ih =>
    have hlast : ∀ l : List Char,
        digitsValue (l ++ [c]) = 10 * digitsValue l + (c.toNat - 48) := by
      intro l
      simp [digitsValue]
    rw [← List.append_assoc, hlast, hlast, ih, List.length_append, List.length_singleton, pow_succ]
    ring

theorem digitsValue_zeros (k : Nat) : digitsValue (List.replicate k '0') = 0 := by
  induction k with
  | zero => rfl
  | succ k ih =>
    rw [List.replicate_succ', digitsValue_append, ih]
    rfl

theorem isDigit_of_mem_toDigits {n : Nat} {c : Char} (h : c ∈ Nat.toDigits 10 n) : isDigit c := by
  have hdigit : c.isDigit := Nat.isDigit_of_mem_toDigits (by decide) (by decide) h
  simp only [Char.isDigit, Bool.and_eq_true, decide_eq_true_eq] at hdigit
  simp only [isDigit, Bool.and_eq_true, decide_eq_true_eq]
  exact hdigit

/-- A positive number does not begin with a zero. -/
theorem head_toDigits_ne {n : Nat} (h : 0 < n) : (Nat.toDigits 10 n).head? ≠ some '0' := by
  induction n using Nat.strongRecOn with
  | _ n ih =>
    by_cases hn : n < 10
    · rw [Nat.toDigits_of_lt_base hn]
      interval_cases n <;> decide
    · rw [Nat.toDigits_of_base_le (by decide) (by omega), List.head?_append_of_ne_nil]
      · exact ih (n / 10) (by omega) (by omega)
      · exact Nat.toDigits_ne_nil

theorem wholeOk_toDigits {n : Nat} (h : n < SCALE) : wholeOk (Nat.toDigits 10 n) := by
  rcases Nat.eq_zero_or_pos n with rfl | hpos
  · decide
  have hlength : (Nat.toDigits 10 n).length ≤ 18 :=
    (Nat.length_toDigits_le_iff (by decide) (by decide)).2 h
  have hone : 1 ≤ (Nat.toDigits 10 n).length := Nat.length_toDigits_pos
  simp only [wholeOk, Bool.or_eq_true, Bool.and_eq_true, List.all_eq_true, bne_iff_ne,
    decide_eq_true_eq]
  exact .inr ⟨⟨⟨fun c hc => isDigit_of_mem_toDigits hc, head_toDigits_ne hpos⟩, hone⟩, hlength⟩

theorem length_padStart {n : Nat} (h : n < SCALE) :
    (padStart (Nat.toDigits 10 n)).length = 18 := by
  have hlength : (Nat.toDigits 10 n).length ≤ 18 :=
    (Nat.length_toDigits_le_iff (by decide) (by decide)).2 h
  rw [padStart, List.length_append, List.length_replicate]
  omega

theorem digitsValue_padStart (n : Nat) : digitsValue (padStart (Nat.toDigits 10 n)) = n := by
  rw [padStart, digitsValue_append, digitsValue_zeros, digitsValue_toDigits]
  omega

/-- What is trimmed are zeros. -/
theorem trimZeros_append (f : List Char) :
    trimZeros f ++ List.replicate (f.length - (trimZeros f).length) '0' = f := by
  induction f using List.reverseRecOn with
  | nil => rfl
  | append_singleton f c ih =>
    by_cases hc : c = '0'
    · subst hc
      have htrim : trimZeros (f ++ ['0']) = trimZeros f := by
        rw [trimZeros, List.rdropWhile_concat_pos]
        · rfl
        · decide
      have hle := (trimZeros_sublist f).length_le
      rw [htrim, List.length_append, List.length_singleton,
        show f.length + 1 - (trimZeros f).length = f.length - (trimZeros f).length + 1 by omega,
        List.replicate_succ', ← List.append_assoc, ih]
    · have htrim : trimZeros (f ++ [c]) = f ++ [c] := by
        rw [trimZeros, List.rdropWhile_concat_neg]
        simpa using hc
      rw [htrim]
      simp

theorem fractionOk_padStart {n : Nat} (h : n < SCALE) :
    fractionOk (padStart (Nat.toDigits 10 n)) := by
  simp only [fractionOk, Bool.and_eq_true, List.all_eq_true, decide_eq_true_eq, length_padStart h]
  refine ⟨⟨?_, by decide⟩, by decide⟩
  intro c hc
  rcases List.mem_append.1 hc with hzero | hdigit
  · rw [List.eq_of_mem_replicate hzero]
    decide
  · exact isDigit_of_mem_toDigits hdigit

section Decimal

variable {units : Nat} (h : units < SCALE * SCALE)
include h

theorem whole_lt : units / SCALE < SCALE := Nat.div_lt_of_lt_mul h

omit h in
theorem fraction_lt : units % SCALE < SCALE := Nat.mod_lt _ (by decide)

/-- The text is an amount, and the canonical one. -/
theorem canonicalBudgetMoney_decimal : canonicalBudgetMoney (decimal units) = some (decimal units) := by
  have hwhole := wholeOk_toDigits (whole_lt h)
  unfold canonicalBudgetMoney
  rw [decimal, String.toList_ofList, splitPoint_of_shape hwhole]
  by_cases hnil : trimZeros (padStart (Nat.toDigits 10 (units % SCALE))) = []
  · simp [hnil, hwhole, joinPoint]
  · have hfraction := fractionOk_trimZeros (fractionOk_padStart fraction_lt) hnil
    simp [hnil, hwhole, hfraction, trimZeros_idem]

theorem totalUnits_decimal : totalUnits (decimal units) = units := by
  have hwhole := wholeOk_toDigits (whole_lt h)
  have hlt : units % SCALE < 10 ^ 18 := fraction_lt
  have hlength := length_padStart hlt
  -- padding the trimmed fraction again gives it back
  have hfraction : digitsValue (trimZeros (padStart (Nat.toDigits 10 (units % SCALE))) ++
      List.replicate (18 - (trimZeros (padStart (Nat.toDigits 10 (units % SCALE)))).length) '0') =
        units % SCALE := by
    have hback := trimZeros_append (padStart (Nat.toDigits 10 (units % SCALE)))
    rw [hlength] at hback
    rw [hback, digitsValue_padStart]
  have hunits : unitsOf (Nat.toDigits 10 (units / SCALE))
      (trimZeros (padStart (Nat.toDigits 10 (units % SCALE)))) = units := by
    rw [unitsOf, digitsValue_toDigits, hfraction, Nat.mul_comm]
    exact Nat.div_add_mod units SCALE
  rw [totalUnits, decimal, String.toList_ofList, splitPoint_of_shape hwhole]
  by_cases hnil : trimZeros (padStart (Nat.toDigits 10 (units % SCALE))) = []
  · rw [hnil] at hunits
    simpa [hnil] using hunits
  · simpa [hnil] using hunits

end Decimal

/-! ## Section 2: Profiles and usage -/

def MILLION : Nat := 1000000
/-- `Number.MAX_SAFE_INTEGER` -/
def MAX_SAFE_INTEGER : Nat := 9007199254740991

inductive PricingFormat where
  | openai
  | anthropic
  | embedding
deriving DecidableEq

/-- The total of all chargeable input categories, and the output. -/
structure PricingLimits where
  inputTokens : Nat
  outputTokens : Nat
deriving DecidableEq

structure PricingRates where
  input : String
  output : String
  cacheRead : String
  cacheWrite : String
deriving DecidableEq

structure GatewayPricing where
  version : Nat
  capabilityHash : String
  format : PricingFormat
  limits : PricingLimits
  usdPerMillionTokens : PricingRates
deriving DecidableEq

structure GatewayUsage where
  inputTokens : Nat
  outputTokens : Nat
  cacheReadTokens : Nat
  cacheWriteTokens : Nat
deriving DecidableEq

inductive PricingError where
  | invalidProfile
  | invalidUsage
  | openAiCacheUsage
  | embeddingUsage
  | invalidAmount
  | maximumNotPositive
deriving DecidableEq

/-- `Invalid budget amount` -/
def accepted : Option String → Except PricingError String
  | some m => .ok m
  | none => .error .invalidAmount

def moneyUnits (value : String) : Except PricingError Nat :=
  (accepted (canonicalBudgetMoney value)).map totalUnits

/-- `rate` -/
def reviewedRate (v : String) : Bool :=
  decide (canonicalBudgetMoney v = some v) && decide (totalUnits v ≤ 1000000 * SCALE)

def PricingFormat.permits (format : PricingFormat) (r : PricingRates) : Bool :=
  match format with
  | .openai => decide (r.cacheWrite = "0")
  | .anthropic => true
  | .embedding => decide (r.output = "0") && decide (r.cacheRead = "0") && decide (r.cacheWrite = "0")

def limitOk (n : Nat) : Bool := decide (1 ≤ n) && decide (n ≤ 1000000000)

/-- `/^[a-f0-9]{64}$/` -/
def isCapabilityHash (v : String) : Bool :=
  decide (v.toList.length = 64) && v.toList.all fun c => isDigit c || ('a' ≤ c && c ≤ 'f')

def gatewayPricingSchema (p : GatewayPricing) : Bool :=
  decide (p.version = 1) && isCapabilityHash p.capabilityHash && limitOk p.limits.inputTokens &&
    limitOk p.limits.outputTokens && reviewedRate p.usdPerMillionTokens.input &&
    reviewedRate p.usdPerMillionTokens.output && reviewedRate p.usdPerMillionTokens.cacheRead &&
    reviewedRate p.usdPerMillionTokens.cacheWrite && p.format.permits p.usdPerMillionTokens

def gatewayUsageSchema (u : GatewayUsage) : Bool :=
  decide (u.inputTokens ≤ MAX_SAFE_INTEGER) && decide (u.outputTokens ≤ MAX_SAFE_INTEGER) &&
    decide (u.cacheReadTokens ≤ MAX_SAFE_INTEGER) && decide (u.cacheWriteTokens ≤ MAX_SAFE_INTEGER)

/-- To the ledger's unit. -/
def roundUp (numerator : Nat) : Nat := (numerator + MILLION - 1) / MILLION

/-- Aggregate first, then round up. -/
def amount (numerator : Nat) : Except PricingError String :=
  accepted (canonicalBudgetMoney (decimal (roundUp numerator)))

/-- The rates that an input token may be charged at. -/
def inputRates (p : GatewayPricing) : List String :=
  match p.format with
  | .embedding => [p.usdPerMillionTokens.input]
  | .anthropic => [p.usdPerMillionTokens.input, p.usdPerMillionTokens.cacheRead,
      p.usdPerMillionTokens.cacheWrite]
  | .openai => [p.usdPerMillionTokens.input, p.usdPerMillionTokens.cacheRead]

/-- `reduce((a,b)=>a>b?a:b)` -/
def highestOf (rates : List Nat) : Nat := rates.foldl Nat.max 0

/-- "A positive maximum liability is required" -/
def positive (maximum : String) : Except PricingError String :=
  if maximum = "0" then .error .maximumNotPositive else .ok maximum

def gatewayMaximumLiability (p : GatewayPricing) : Except PricingError String :=
  if gatewayPricingSchema p then do
    let rates ← (inputRates p).mapM moneyUnits
    let output ← moneyUnits p.usdPerMillionTokens.output
    let maximum ← amount (p.limits.inputTokens * highestOf rates + p.limits.outputTokens * output)
    positive maximum
  else .error .invalidProfile

/-- The refusals of a format. -/
def usageMismatch (format : PricingFormat) (u : GatewayUsage) : Option PricingError :=
  match format with
  | .openai =>
      if u.inputTokens < u.cacheReadTokens ∨ u.cacheWriteTokens ≠ 0 then some .openAiCacheUsage
      else none
  | .anthropic => none
  | .embedding =>
      if u.outputTokens ≠ 0 ∨ u.cacheReadTokens ≠ 0 ∨ u.cacheWriteTokens ≠ 0 then
        some .embeddingUsage
      else none

/-- Input tokens that are not cached. -/
def ordinaryTokens (format : PricingFormat) (u : GatewayUsage) : Nat :=
  match format with
  | .openai => u.inputTokens - u.cacheReadTokens
  | .anthropic => u.inputTokens
  | .embedding => u.inputTokens

def gatewayActualAmount (p : GatewayPricing) (u : GatewayUsage) : Except PricingError String :=
  if gatewayPricingSchema p then
    if gatewayUsageSchema u then
      match usageMismatch p.format u with
      | some e => .error e
      | none => do
          let input ← moneyUnits p.usdPerMillionTokens.input
          let output ← moneyUnits p.usdPerMillionTokens.output
          let cacheRead ← moneyUnits p.usdPerMillionTokens.cacheRead
          let cacheWrite ← moneyUnits p.usdPerMillionTokens.cacheWrite
          amount (ordinaryTokens p.format u * input + u.outputTokens * output +
            u.cacheReadTokens * cacheRead + u.cacheWriteTokens * cacheWrite)
    else .error .invalidUsage
  else .error .invalidProfile

/-! ## Section 3: What is charged -/

/-- Dollars for a million tokens. -/
def rateDollars (v : String) : ℚ := totalUnits v / SCALE

/-- The exact charge in dollars. -/
def charge (p : GatewayPricing) (u : GatewayUsage) : ℚ :=
  (ordinaryTokens p.format u * rateDollars p.usdPerMillionTokens.input +
    u.outputTokens * rateDollars p.usdPerMillionTokens.output +
    u.cacheReadTokens * rateDollars p.usdPerMillionTokens.cacheRead +
    u.cacheWriteTokens * rateDollars p.usdPerMillionTokens.cacheWrite) / MILLION

/-- The usage stays within the reviewed limits. -/
structure WithinLimits (p : GatewayPricing) (u : GatewayUsage) : Prop where
  output : u.outputTokens ≤ p.limits.outputTokens
  input : ordinaryTokens p.format u + u.cacheReadTokens + u.cacheWriteTokens ≤ p.limits.inputTokens

/-- Each count is at least as high; cached tokens of OpenAI stay as they are. -/
structure AtLeast (format : PricingFormat) (u u' : GatewayUsage) : Prop where
  input : u.inputTokens ≤ u'.inputTokens
  output : u.outputTokens ≤ u'.outputTokens
  cacheRead : u.cacheReadTokens ≤ u'.cacheReadTokens
  cacheWrite : u.cacheWriteTokens ≤ u'.cacheWriteTokens
  cached : format = .openai → u'.cacheReadTokens = u.cacheReadTokens

/-- What is rounded: units for a million tokens, times tokens. -/
def numerator (p : GatewayPricing) (u : GatewayUsage) : Nat :=
  ordinaryTokens p.format u * totalUnits p.usdPerMillionTokens.input +
    u.outputTokens * totalUnits p.usdPerMillionTokens.output +
    u.cacheReadTokens * totalUnits p.usdPerMillionTokens.cacheRead +
    u.cacheWriteTokens * totalUnits p.usdPerMillionTokens.cacheWrite

theorem roundUp_mono {m n : Nat} (h : m ≤ n) : roundUp m ≤ roundUp n := by
  apply Nat.div_le_div_right
  omega

theorem roundUp_eq_ceil (n : Nat) : roundUp n = ⌈(n : ℚ) / MILLION⌉₊ := by
  have hpos : (0 : ℚ) < MILLION := by norm_num [MILLION]
  apply le_antisymm
  · -- rounding up adds less than a million
    have hceil : (n : ℚ) ≤ ⌈(n : ℚ) / MILLION⌉₊ * MILLION :=
      (div_le_iff₀ hpos).1 (Nat.le_ceil _)
    have hnat : n ≤ ⌈(n : ℚ) / MILLION⌉₊ * MILLION := by exact_mod_cast hceil
    apply Nat.le_of_lt_succ
    apply Nat.div_lt_of_lt_mul
    rw [Nat.mul_comm, Nat.succ_mul]
    have : MILLION = 1000000 := rfl
    omega
  · apply Nat.ceil_le.2
    apply (div_le_iff₀ hpos).2
    have hnat : n ≤ roundUp n * MILLION := by
      have hlt := Nat.lt_div_mul_add (a := n + MILLION - 1) (b := MILLION) (by decide)
      have : MILLION = 1000000 := rfl
      unfold roundUp
      omega
    exact_mod_cast hnat

theorem charge_mul_scale (p : GatewayPricing) (u : GatewayUsage) :
    charge p u * SCALE = (numerator p u : ℚ) / MILLION := by
  have hscale : (SCALE : ℚ) ≠ 0 := by norm_num [SCALE]
  unfold charge numerator rateDollars
  push_cast
  field_simp

theorem moneyUnits_reviewed {v : String} (h : reviewedRate v) :
    moneyUnits v = .ok (totalUnits v) ∧ totalUnits v ≤ 1000000 * SCALE := by
  simp only [reviewedRate, Bool.and_eq_true, decide_eq_true_eq] at h
  unfold moneyUnits
  rw [h.1]
  exact ⟨rfl, h.2⟩

theorem ok_bind {α β : Type} (a : α) (f : α → Except PricingError β) :
    (Except.ok a >>= f) = f a := rfl

theorem amount_of_lt {n : Nat} (h : roundUp n < SCALE * SCALE) :
    amount n = .ok (decimal (roundUp n)) := by
  rw [amount, canonicalBudgetMoney_decimal h, accepted]

/-- What `gatewayPricingSchema` says. -/
structure Reviewed (p : GatewayPricing) : Prop where
  inputLimit : p.limits.inputTokens ≤ 1000000000
  outputLimit : p.limits.outputTokens ≤ 1000000000
  input : reviewedRate p.usdPerMillionTokens.input
  output : reviewedRate p.usdPerMillionTokens.output
  cacheRead : reviewedRate p.usdPerMillionTokens.cacheRead
  cacheWrite : reviewedRate p.usdPerMillionTokens.cacheWrite

theorem reviewed_of_schema {p : GatewayPricing} (h : gatewayPricingSchema p) : Reviewed p := by
  simp only [gatewayPricingSchema, limitOk, Bool.and_eq_true, decide_eq_true_eq] at h
  obtain ⟨⟨⟨⟨⟨⟨⟨-, hinput⟩, houtput⟩, h₁⟩, h₂⟩, h₃⟩, h₄⟩, -⟩ := h
  exact ⟨hinput.2, houtput.2, h₁, h₂, h₃, h₄⟩

/-- One product of tokens and rate. -/
theorem product_le {tokens bound rate : Nat} (ht : tokens ≤ bound) (hr : rate ≤ 1000000 * SCALE) :
    tokens * rate ≤ bound * (1000000 * SCALE) := Nat.mul_le_mul ht hr

theorem ordinaryTokens_le (format : PricingFormat) (u : GatewayUsage) :
    ordinaryTokens format u ≤ u.inputTokens := by
  cases format with
  | openai => exact Nat.sub_le _ _
  | anthropic => exact le_rfl
  | embedding => exact le_rfl

/-- Whatever safe counts are observed, the charge fits the ledger. -/
theorem roundUp_numerator_lt {p : GatewayPricing} {u : GatewayUsage} (hp : Reviewed p)
    (hu : gatewayUsageSchema u) : roundUp (numerator p u) < SCALE * SCALE := by
  simp only [gatewayUsageSchema, Bool.and_eq_true, decide_eq_true_eq] at hu
  obtain ⟨⟨⟨hin, hout⟩, hread⟩, hwrite⟩ := hu
  have h₁ := product_le ((ordinaryTokens_le p.format u).trans hin) (moneyUnits_reviewed hp.input).2
  have h₂ := product_le hout (moneyUnits_reviewed hp.output).2
  have h₃ := product_le hread (moneyUnits_reviewed hp.cacheRead).2
  have h₄ := product_le hwrite (moneyUnits_reviewed hp.cacheWrite).2
  apply Nat.div_lt_of_lt_mul
  unfold numerator
  simp only [MAX_SAFE_INTEGER, SCALE, MILLION] at *
  omega

theorem roundUp_maximum_lt {p : GatewayPricing} (hp : Reviewed p) {highest output : Nat}
    (hh : highest ≤ 1000000 * SCALE) (ho : output ≤ 1000000 * SCALE) :
    roundUp (p.limits.inputTokens * highest + p.limits.outputTokens * output) < SCALE * SCALE := by
  have h₁ := product_le hp.inputLimit hh
  have h₂ := product_le hp.outputLimit ho
  apply Nat.div_lt_of_lt_mul
  simp only [SCALE, MILLION] at *
  omega

/-- **The amount**: every usage that the format accepts is charged. -/
theorem gatewayActualAmount_eq {p : GatewayPricing} {u : GatewayUsage}
    (hp : gatewayPricingSchema p) (hu : gatewayUsageSchema u)
    (hmatch : usageMismatch p.format u = none) :
    gatewayActualAmount p u = .ok (decimal (roundUp (numerator p u))) := by
  have hr := reviewed_of_schema hp
  unfold gatewayActualAmount
  rw [if_pos hp, if_pos hu, hmatch]
  dsimp only
  rw [(moneyUnits_reviewed hr.input).1, ok_bind, (moneyUnits_reviewed hr.output).1, ok_bind,
    (moneyUnits_reviewed hr.cacheRead).1, ok_bind, (moneyUnits_reviewed hr.cacheWrite).1, ok_bind,
    ← numerator]
  exact amount_of_lt (roundUp_numerator_lt hr hu)

theorem gatewayActualAmount_error {p : GatewayPricing} {u : GatewayUsage} {e : PricingError}
    (hp : gatewayPricingSchema p) (hu : gatewayUsageSchema u)
    (hmatch : usageMismatch p.format u = some e) : gatewayActualAmount p u = .error e := by
  unfold gatewayActualAmount
  rw [if_pos hp, if_pos hu, hmatch]

/-- Only what the format accepts is charged. -/
theorem gatewayActualAmount_ok {p : GatewayPricing} {u : GatewayUsage} {m : String}
    (hp : gatewayPricingSchema p) (hu : gatewayUsageSchema u)
    (h : gatewayActualAmount p u = .ok m) :
    usageMismatch p.format u = none ∧ m = decimal (roundUp (numerator p u)) := by
  cases hmatch : usageMismatch p.format u with
  | none =>
    rw [gatewayActualAmount_eq hp hu hmatch] at h
    exact ⟨rfl, (Except.ok.inj h).symm⟩
  | some e =>
    rw [gatewayActualAmount_error hp hu hmatch] at h
    cases h

/-! ## Section 4: The reservation -/

theorem le_foldl_max (rates : List Nat) (start : Nat) :
    start ≤ rates.foldl Nat.max start ∧ ∀ r ∈ rates, r ≤ rates.foldl Nat.max start := by
  induction rates generalizing start with
  | nil => simp
  | cons r rates ih =>
    obtain ⟨hstart, hrates⟩ := ih (Nat.max start r)
    refine ⟨(Nat.le_max_left _ _).trans hstart, ?_⟩
    intro r' hr'
    rcases List.mem_cons.1 hr' with rfl | hr'
    · exact (Nat.le_max_right _ _).trans hstart
    · exact hrates r' hr'

theorem le_highestOf {rates : List Nat} {r : Nat} (h : r ∈ rates) : r ≤ highestOf rates :=
  (le_foldl_max rates 0).2 r h

theorem foldl_max_le {rates : List Nat} {start bound : Nat} (hs : start ≤ bound)
    (h : ∀ r ∈ rates, r ≤ bound) : rates.foldl Nat.max start ≤ bound := by
  induction rates generalizing start with
  | nil => exact hs
  | cons r rates ih =>
    apply ih
    · exact Nat.max_le.2 ⟨hs, h r List.mem_cons_self⟩
    · exact fun r' hr' => h r' (List.mem_cons_of_mem _ hr')

theorem highestOf_le {rates : List Nat} {bound : Nat} (h : ∀ r ∈ rates, r ≤ bound) :
    highestOf rates ≤ bound := foldl_max_le (Nat.zero_le _) h

/-- The units of the rates for input. -/
def inputRateUnits (p : GatewayPricing) : List Nat := (inputRates p).map totalUnits

theorem mapM_moneyUnits {rates : List String} (h : ∀ v ∈ rates, reviewedRate v) :
    rates.mapM moneyUnits = .ok (rates.map totalUnits) := by
  induction rates with
  | nil => rfl
  | cons v rates ih =>
    rw [List.mapM_cons, (moneyUnits_reviewed (h v List.mem_cons_self)).1,
      ih fun w hw => h w (List.mem_cons_of_mem _ hw)]
    rfl

theorem reviewed_inputRates {p : GatewayPricing} (hp : Reviewed p) :
    ∀ v ∈ inputRates p, reviewedRate v := by
  intro v hv
  unfold inputRates at hv
  cases hformat : p.format <;> rw [hformat] at hv <;> simp only [List.mem_cons, List.not_mem_nil,
    or_false] at hv
  · rcases hv with rfl | rfl
    · exact hp.input
    · exact hp.cacheRead
  · rcases hv with rfl | rfl | rfl
    · exact hp.input
    · exact hp.cacheRead
    · exact hp.cacheWrite
  · rw [hv]
    exact hp.input

/-- What is reserved, before it is rounded. -/
def maximumNumerator (p : GatewayPricing) : Nat :=
  p.limits.inputTokens * highestOf (inputRateUnits p) +
    p.limits.outputTokens * totalUnits p.usdPerMillionTokens.output

theorem roundUp_maximumNumerator_lt {p : GatewayPricing} (hp : Reviewed p) :
    roundUp (maximumNumerator p) < SCALE * SCALE := by
  have hhighest : highestOf (inputRateUnits p) ≤ 1000000 * SCALE := by
    apply highestOf_le
    intro r hr
    obtain ⟨v, hv, rfl⟩ := List.mem_map.1 hr
    exact (moneyUnits_reviewed (reviewed_inputRates hp v hv)).2
  exact roundUp_maximum_lt hp hhighest (moneyUnits_reviewed hp.output).2

theorem gatewayMaximumLiability_eq {p : GatewayPricing} (hp : gatewayPricingSchema p) :
    gatewayMaximumLiability p = positive (decimal (roundUp (maximumNumerator p))) := by
  have hr := reviewed_of_schema hp
  unfold gatewayMaximumLiability
  rw [if_pos hp, mapM_moneyUnits (reviewed_inputRates hr), ok_bind,
    (moneyUnits_reviewed hr.output).1, ok_bind, ← inputRateUnits, ← maximumNumerator,
    amount_of_lt (roundUp_maximumNumerator_lt hr), ok_bind]

theorem totalUnits_maximum {p : GatewayPricing} {M : String} (hp : gatewayPricingSchema p)
    (h : gatewayMaximumLiability p = .ok M) : totalUnits M = roundUp (maximumNumerator p) := by
  rw [gatewayMaximumLiability_eq hp, positive] at h
  split at h
  · cases h
  · rw [← Except.ok.inj h]
    exact totalUnits_decimal (roundUp_maximumNumerator_lt (reviewed_of_schema hp))

/-- A profile is refused only where nothing could be charged. -/
theorem maximum_eq_zero {p : GatewayPricing} {e : PricingError} (hp : gatewayPricingSchema p)
    (h : gatewayMaximumLiability p = .error e) : roundUp (maximumNumerator p) = 0 := by
  rw [gatewayMaximumLiability_eq hp, positive] at h
  split at h
  · next hzero =>
    have hunits := totalUnits_decimal (roundUp_maximumNumerator_lt (reviewed_of_schema hp))
    rw [hzero] at hunits
    rw [← hunits]
    decide
  · cases h

/-- Each category is reserved at the highest rate it may be charged at. -/
theorem numerator_le_maximum {p : GatewayPricing} {u : GatewayUsage}
    (hmatch : usageMismatch p.format u = none) (hin : WithinLimits p u) :
    numerator p u ≤ maximumNumerator p := by
  have hrate : ∀ v ∈ inputRates p, totalUnits v ≤ highestOf (inputRateUnits p) :=
    fun v hv => le_highestOf (List.mem_map_of_mem hv)
  have hinput : ordinaryTokens p.format u * totalUnits p.usdPerMillionTokens.input ≤
      ordinaryTokens p.format u * highestOf (inputRateUnits p) := by
    apply Nat.mul_le_mul_left
    apply hrate
    unfold inputRates
    cases p.format <;> simp
  -- a category that the format does not charge has no tokens
  have hread : u.cacheReadTokens * totalUnits p.usdPerMillionTokens.cacheRead ≤
      u.cacheReadTokens * highestOf (inputRateUnits p) := by
    cases hformat : p.format with
    | embedding =>
      rw [hformat] at hmatch
      have hzero : u.cacheReadTokens = 0 := by
        by_contra hne
        simp [usageMismatch, hne] at hmatch
      simp [hzero]
    | openai => exact Nat.mul_le_mul_left _ (hrate _ (by simp [inputRates, hformat]))
    | anthropic => exact Nat.mul_le_mul_left _ (hrate _ (by simp [inputRates, hformat]))
  have hwrite : u.cacheWriteTokens * totalUnits p.usdPerMillionTokens.cacheWrite ≤
      u.cacheWriteTokens * highestOf (inputRateUnits p) := by
    cases hformat : p.format with
    | anthropic => exact Nat.mul_le_mul_left _ (hrate _ (by simp [inputRates, hformat]))
    | openai =>
      rw [hformat] at hmatch
      have hzero : u.cacheWriteTokens = 0 := by
        by_contra hne
        simp [usageMismatch, hne] at hmatch
      simp [hzero]
    | embedding =>
      rw [hformat] at hmatch
      have hzero : u.cacheWriteTokens = 0 := by
        by_contra hne
        simp [usageMismatch, hne] at hmatch
      simp [hzero]
  calc numerator p u
      ≤ (ordinaryTokens p.format u + u.cacheReadTokens + u.cacheWriteTokens) *
          highestOf (inputRateUnits p) +
        u.outputTokens * totalUnits p.usdPerMillionTokens.output := by
        unfold numerator
        rw [Nat.add_mul, Nat.add_mul]
        omega
    _ ≤ maximumNumerator p := by
        apply Nat.add_le_add
        · exact Nat.mul_le_mul_right _ hin.input
        · exact Nat.mul_le_mul_right _ hin.output

/-- More tokens never cost less. -/
theorem numerator_mono {p : GatewayPricing} {u u' : GatewayUsage} (h : AtLeast p.format u u') :
    numerator p u ≤ numerator p u' := by
  have hordinary : ordinaryTokens p.format u ≤ ordinaryTokens p.format u' := by
    cases hformat : p.format with
    | openai =>
      have hcached := h.cached hformat
      simp only [ordinaryTokens, hcached]
      exact Nat.sub_le_sub_right h.input _
    | anthropic => exact h.input
    | embedding => exact h.input
  have h₁ := Nat.mul_le_mul_right (totalUnits p.usdPerMillionTokens.input) hordinary
  have h₂ := Nat.mul_le_mul_right (totalUnits p.usdPerMillionTokens.output) h.output
  have h₃ := Nat.mul_le_mul_right (totalUnits p.usdPerMillionTokens.cacheRead) h.cacheRead
  have h₄ := Nat.mul_le_mul_right (totalUnits p.usdPerMillionTokens.cacheWrite) h.cacheWrite
  unfold numerator
  omega

/-! ## Section 5: Bounds -/

theorem usageMismatch_isSome (format : PricingFormat) (u : GatewayUsage) :
    (usageMismatch format u).isSome ↔
      format = .openai ∧ (u.inputTokens < u.cacheReadTokens ∨ u.cacheWriteTokens ≠ 0) ∨
      format = .embedding ∧
        (u.outputTokens ≠ 0 ∨ u.cacheReadTokens ≠ 0 ∨ u.cacheWriteTokens ≠ 0) := by
  cases format with
  | openai =>
    simp only [usageMismatch]
    split <;> simp_all
  | anthropic => simp [usageMismatch]
  | embedding =>
    simp only [usageMismatch]
    split <;> simp_all

/-- What is charged is the exact charge, rounded up once. -/
theorem totalUnits_actual {p : GatewayPricing} {u : GatewayUsage} {m : String}
    (hp : gatewayPricingSchema p) (hu : gatewayUsageSchema u)
    (h : gatewayActualAmount p u = .ok m) :
    canonicalBudgetMoney m = some m ∧ totalUnits m = roundUp (numerator p u) := by
  have hlt := roundUp_numerator_lt (reviewed_of_schema hp) hu
  obtain ⟨-, rfl⟩ := gatewayActualAmount_ok hp hu h
  exact ⟨canonicalBudgetMoney_decimal hlt, totalUnits_decimal hlt⟩

/-- **Pricing**: refusals, the exact amount, the reservation and monotony. -/
theorem pricing_bounds (p : GatewayPricing) (hp : gatewayPricingSchema p) (u : GatewayUsage)
    (hu : gatewayUsageSchema u) :
    ((∃ e, gatewayActualAmount p u = .error e) ↔
      p.format = .openai ∧ (u.inputTokens < u.cacheReadTokens ∨ u.cacheWriteTokens ≠ 0) ∨
      p.format = .embedding ∧
        (u.outputTokens ≠ 0 ∨ u.cacheReadTokens ≠ 0 ∨ u.cacheWriteTokens ≠ 0)) ∧
    ∀ m, gatewayActualAmount p u = .ok m →
      (canonicalBudgetMoney m = some m ∧ totalUnits m < SCALE * SCALE) ∧
      totalUnits m = ⌈charge p u * SCALE⌉₊ ∧
      (WithinLimits p u →
        (∀ M, gatewayMaximumLiability p = .ok M → totalUnits m ≤ totalUnits M) ∧
        ∀ e, gatewayMaximumLiability p = .error e → totalUnits m = 0) ∧
      ∀ u', gatewayUsageSchema u' → AtLeast p.format u u' →
        ∀ m', gatewayActualAmount p u' = .ok m' → totalUnits m ≤ totalUnits m' := by
  refine ⟨?_, ?_⟩
  · rw [← usageMismatch_isSome]
    cases hmatch : usageMismatch p.format u with
    | none =>
      rw [gatewayActualAmount_eq hp hu hmatch]
      simp
    | some e =>
      rw [gatewayActualAmount_error hp hu hmatch]
      simp
  · intro m hm
    obtain ⟨hmatch, -⟩ := gatewayActualAmount_ok hp hu hm
    obtain ⟨hcanonical, hunits⟩ := totalUnits_actual hp hu hm
    refine ⟨⟨hcanonical, totalUnits_lt hcanonical⟩, ?_, ?_, ?_⟩
    · rw [charge_mul_scale, ← roundUp_eq_ceil]
      exact hunits
    · intro hin
      -- Rounding up keeps the order, so it is enough to compare before it.
      have hle := roundUp_mono (numerator_le_maximum hmatch hin)
      refine ⟨?_, ?_⟩
      · intro M hM
        rw [hunits, totalUnits_maximum hp hM]
        exact hle
      · intro e he
        rw [maximum_eq_zero hp he] at hle
        rw [hunits]
        exact Nat.le_zero.1 hle
    · intro u' hu' hat m' hm'
      rw [hunits, (totalUnits_actual hp hu' hm').2]
      exact roundUp_mono (numerator_mono hat)

def demoRates : PricingRates := ⟨"2.5", "10", "0.25", "0"⟩

def demoPricing : GatewayPricing :=
  ⟨1, "aaaaaaaaaaaaaaaaaaaaaaaaaaaaaaaaaaaaaaaaaaaaaaaaaaaaaaaaaaaaaaaa", .openai, ⟨1000, 100⟩,
    demoRates⟩

/-- 7 tokens in, 3 of them cached, and 2 out. -/
theorem pricing_bounds_openai : ∃ m, gatewayActualAmount demoPricing ⟨7, 2, 3, 0⟩ = .ok m ∧
    totalUnits m = ⌈charge demoPricing ⟨7, 2, 3, 0⟩ * SCALE⌉₊ ∧
    ∀ M, gatewayMaximumLiability demoPricing = .ok M → totalUnits m ≤ totalUnits M := by
  have hp : gatewayPricingSchema demoPricing := by decide +kernel
  have hu : gatewayUsageSchema ⟨7, 2, 3, 0⟩ := by decide
  have hm := gatewayActualAmount_eq hp hu (by decide)
  obtain ⟨-, hbounds⟩ := pricing_bounds demoPricing hp ⟨7, 2, 3, 0⟩ hu
  obtain ⟨-, hcharge, hlimits, -⟩ := hbounds _ hm
  exact ⟨_, hm, hcharge, (hlimits ⟨by decide, by decide⟩).1⟩

end Lares.Budget
