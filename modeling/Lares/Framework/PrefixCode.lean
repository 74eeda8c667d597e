import Mathlib.Data.List.Basic

/-! # Prefix codes

    Ways to write values as bytes so that what follows a value never changes
    how it is read back.

    * A `PrefixCode` carries the law `read_write` and the bound on its bytes,
      so a code that loses a value cannot be built.
    * Codes for numbers, characters, lists, options, pairs and sums, and `map`
      for a type whose values are recovered from another.
    * Codes are injective, and write no byte below 16.
-/

/-- A way to write values that can be read back in front of anything. -/
structure PrefixCode (α : Type*) where
  write : α → List UInt8
  /-- The value, and what comes after it. -/
  read : List UInt8 → Option (α × List UInt8)
  /-- What is written is read back, and the rest is left. -/
  read_write : ∀ a rest, read (write a ++ rest) = some (a, rest)
  /-- The bytes below 16 stay free, for marks. -/
  plain : ∀ a, ∀ b ∈ write a, 16 ≤ b.toNat

namespace PrefixCode

variable {α β : Type*}

theorem write_injective (code : PrefixCode α) : Function.Injective code.write := by
  intro a b h
  have ha := code.read_write a []
  rw [h, code.read_write] at ha
  exact (Prod.mk.inj (Option.some.inj ha)).1.symm

/-- Two values in front of two rests are told apart. -/
theorem write_append (code : PrefixCode α) {a b : α} {xs ys : List UInt8}
    (h : code.write a ++ xs = code.write b ++ ys) : a = b ∧ xs = ys := by
  have ha := code.read_write a xs
  rw [h, code.read_write] at ha
  obtain ⟨hab, hxy⟩ := Prod.mk.inj (Option.some.inj ha)
  exact ⟨hab.symm, hxy.symm⟩

/-- Read a whole list of bytes. -/
def readAll (code : PrefixCode α) (bytes : List UInt8) : Option α :=
  match code.read bytes with
  | some (a, []) => some a
  | _ => none

@[simp] theorem readAll_write (code : PrefixCode α) (a : α) : code.readAll (code.write a) = some a := by
  have h := code.read_write a []
  rw [List.append_nil] at h
  unfold readAll
  rw [h]

/-! ## Section 1: Numbers -/

/-- The digits of a number in base 64, the last one marked; the first argument bounds their
    number. -/
def digits : Nat → Nat → List UInt8
  | 0, n => [UInt8.ofNat (128 + n % 64)]
  | fuel + 1, n =>
      if n < 64 then [UInt8.ofNat (128 + n % 64)]
      else UInt8.ofNat (64 + n % 64) :: digits fuel (n / 64)

def readNat : List UInt8 → Option (Nat × List UInt8)
  | [] => none
  | b :: bytes =>
      if 128 ≤ b.toNat then some (b.toNat - 128, bytes)
      else (readNat bytes).map fun (m, rest) => (64 * m + (b.toNat - 64), rest)

theorem toNat_byte {n : Nat} (h : n < 256) : (UInt8.ofNat n).toNat = n := by
  rw [UInt8.toNat_ofNat']
  exact Nat.mod_eq_of_lt h

theorem readNat_digits {fuel n : Nat} (h : n ≤ fuel) (rest : List UInt8) :
    readNat (digits fuel n ++ rest) = some (n, rest) := by
  have hmod : n % 64 < 64 := Nat.mod_lt _ (by omega)
  induction fuel generalizing n with
  | zero =>
    obtain rfl : n = 0 := by omega
    rfl
  | succ fuel ih =>
    unfold digits
    split
    · next hsmall =>
      have hbyte : (UInt8.ofNat (128 + n % 64)).toNat = 128 + n % 64 := toNat_byte (by omega)
      simp only [List.cons_append, List.nil_append, readNat, hbyte]
      rw [if_pos (by omega)]
      have : 128 + n % 64 - 128 = n := by omega
      rw [this]
    · next hlarge =>
      have hbyte : (UInt8.ofNat (64 + n % 64)).toNat = 64 + n % 64 := toNat_byte (by omega)
      have hrest := ih (n := n / 64) (by omega) (Nat.mod_lt _ (by omega))
      simp only [List.cons_append, readNat, hbyte, hrest, Option.map_some]
      rw [if_neg (by omega)]
      have : 64 * (n / 64) + (64 + n % 64 - 64) = n := by omega
      rw [this]

theorem plain_digits {fuel n : Nat} : ∀ b ∈ digits fuel n, 16 ≤ b.toNat := by
  have hmod : ∀ m, m % 64 < 64 := fun m => Nat.mod_lt _ (by omega)
  have hlast : ∀ m, ∀ b ∈ [UInt8.ofNat (128 + m % 64)], 16 ≤ b.toNat := by
    intro m b hb
    have := hmod m
    rw [List.mem_singleton.1 hb, toNat_byte (by omega)]
    omega
  induction fuel generalizing n with
  | zero => exact hlast n
  | succ fuel ih =>
    unfold digits
    split
    · exact hlast n
    · intro b hb
      rcases List.mem_cons.1 hb with rfl | hrest
      · have := hmod n
        rw [toNat_byte (by omega)]
        omega
      · exact ih b hrest

def nat : PrefixCode Nat where
  write n := digits n n
  read := readNat
  read_write _ rest := readNat_digits (Nat.le_refl _) rest
  plain _ := plain_digits

/-! ## Section 2: Products, sums and what is recovered from them -/

/-- A type whose values are recovered from those of another. -/
def map (code : PrefixCode α) (forth : β → α) (back : α → β) (h : ∀ b, back (forth b) = b) :
    PrefixCode β where
  write b := code.write (forth b)
  read bytes := (code.read bytes).map fun (a, rest) => (back a, rest)
  read_write b rest := by
    rw [code.read_write]
    show some (back (forth b), rest) = _
    rw [h]
  plain b := code.plain (forth b)

def unit : PrefixCode Unit where
  write _ := []
  read bytes := some ((), bytes)
  read_write _ _ := rfl
  plain _ _ h := by cases h

def prod (code : PrefixCode α) (code' : PrefixCode β) : PrefixCode (α × β) where
  write p := code.write p.1 ++ code'.write p.2
  read bytes := (code.read bytes).bind fun (a, rest) =>
    (code'.read rest).map fun (b, rest) => ((a, b), rest)
  read_write p rest := by
    rw [List.append_assoc, code.read_write]
    dsimp only [Option.bind_some]
    rw [code'.read_write]
    rfl
  plain p b hb := by
    rcases List.mem_append.1 hb with hb | hb
    · exact code.plain _ b hb
    · exact code'.plain _ b hb

def sum (code : PrefixCode α) (code' : PrefixCode β) : PrefixCode (α ⊕ β) where
  write
    | .inl a => 17 :: code.write a
    | .inr b => 18 :: code'.write b
  read
    | [] => none
    | b :: bytes =>
        if b = 17 then (code.read bytes).map fun (a, rest) => (.inl a, rest)
        else (code'.read bytes).map fun (b, rest) => (.inr b, rest)
  read_write v rest := by
    cases v with
    | inl a =>
      dsimp only [List.cons_append]
      rw [if_pos rfl, code.read_write]
      rfl
    | inr b =>
      dsimp only [List.cons_append]
      rw [if_neg (by decide), code'.read_write]
      rfl
  plain v b hb := by
    cases v with
    | inl a =>
      rcases List.mem_cons.1 hb with rfl | hb
      · decide
      · exact code.plain a b hb
    | inr a =>
      rcases List.mem_cons.1 hb with rfl | hb
      · decide
      · exact code'.plain a b hb

def option (code : PrefixCode α) : PrefixCode (Option α) :=
  (sum unit code).map
    (fun v => match v with
      | none => .inl ()
      | some a => .inr a)
    (fun v => match v with
      | .inl _ => none
      | .inr a => some a)
    fun v => by cases v <;> rfl

/-! ## Section 3: Lists and texts -/

def readList (code : PrefixCode α) : Nat → List UInt8 → Option (List α × List UInt8)
  | 0, bytes => some ([], bytes)
  | n + 1, bytes => (code.read bytes).bind fun (a, rest) =>
      (readList code n rest).map fun (as, rest) => (a :: as, rest)

theorem readList_write (code : PrefixCode α) (as : List α) (rest : List UInt8) :
    readList code as.length (as.flatMap code.write ++ rest) = some (as, rest) := by
  induction as with
  | nil => rfl
  | cons a as ih =>
    rw [List.flatMap_cons, List.append_assoc, List.length_cons]
    unfold readList
    rw [code.read_write]
    dsimp only [Option.bind_some]
    rw [ih]
    rfl

/-- The length, then the values. -/
def list (code : PrefixCode α) : PrefixCode (List α) where
  write as := nat.write as.length ++ as.flatMap code.write
  read bytes := (nat.read bytes).bind fun (n, rest) => readList code n rest
  read_write as rest := by
    rw [List.append_assoc, nat.read_write]
    exact readList_write code as rest
  plain as b hb := by
    rcases List.mem_append.1 hb with hb | hb
    · exact nat.plain _ b hb
    · obtain ⟨a, -, hb⟩ := List.mem_flatMap.1 hb
      exact code.plain a b hb

/-- A character is one byte where it can be. -/
def char : PrefixCode Char where
  write c := if 16 < c.toNat ∧ c.toNat < 256 then [UInt8.ofNat c.toNat]
    else 16 :: nat.write c.toNat
  read
    | [] => none
    | b :: bytes =>
        if b = 16 then (nat.read bytes).map fun (n, rest) => (Char.ofNat n, rest)
        else some (Char.ofNat b.toNat, bytes)
  read_write c rest := by
    by_cases h : 16 < c.toNat ∧ c.toNat < 256
    · have hbyte : (UInt8.ofNat c.toNat).toNat = c.toNat := toNat_byte h.2
      have hne : UInt8.ofNat c.toNat ≠ 16 := by
        intro heq
        rw [heq] at hbyte
        have : (16 : UInt8).toNat = 16 := rfl
        omega
      rw [if_pos h]
      dsimp only [List.cons_append, List.nil_append]
      rw [if_neg hne, hbyte, Char.ofNat_toNat]
    · rw [if_neg h]
      dsimp only [List.cons_append]
      rw [if_pos rfl, nat.read_write, Option.map_some, Char.ofNat_toNat]
  plain c b hb := by
    split at hb
    · next h =>
      rw [List.mem_singleton.1 hb, toNat_byte h.2]
      omega
    · rcases List.mem_cons.1 hb with rfl | hb
      · decide
      · exact nat.plain _ b hb

end PrefixCode
