import Lares.Framework.JsonSyntax

/-! # Spaces in JSON texts

    A tree is written without space, so a space stands in a text. What follows
    such a space is no tree: its quotes are on the wrong side.
-/

namespace JsonTree

variable {ν : Type}

/-- Where a reader of quotes is. -/
inductive Quotes where
  | outside | inside | escaped
deriving DecidableEq

namespace Quotes

/-- A space belongs inside, a backslash stands inside only, and no space is escaped. -/
def step : Quotes → Char → Option Quotes
  | outside, c => if c = '"' then some inside else if c = '\\' ∨ c = ' ' then none else some outside
  | inside, c =>
      if c = '"' then some outside else if c = '\\' then some escaped else some inside
  | escaped, c => if c = ' ' then none else some inside

def read (s : Quotes) (text : List Char) : Option Quotes := text.foldlM step s

theorem read_append (s : Quotes) (a b : List Char) :
    read s (a ++ b) = (read s a).bind fun s => read s b := by
  unfold read
  rw [List.foldlM_append]
  rfl

theorem read_cons (s : Quotes) (c : Char) (rest : List Char) :
    read s (c :: rest) = (step s c).bind fun s => read s rest := rfl

/-- What stays on its side of the quotes. -/
def Stays (s : Quotes) (text : List Char) : Prop := read s text = some s

theorem Stays.append {s : Quotes} {a b : List Char} (ha : Stays s a) (hb : Stays s b) :
    Stays s (a ++ b) := by
  unfold Stays
  rw [read_append, ha, Option.bind_some, hb]

theorem stays_of_forall {s : Quotes} {text : List Char} (h : ∀ c ∈ text, step s c = some s) :
    Stays s text := by
  induction text with
  | nil => rfl
  | cons c text ih =>
    unfold Stays
    rw [read_cons, h c List.mem_cons_self, Option.bind_some]
    exact ih fun d hd => h d (List.mem_cons_of_mem _ hd)

/-- Two readers on different sides never meet. -/
theorem read_opposite (text : List Char) {s t : Quotes} (h : read outside text = some s) :
    read inside text = some t → s ≠ t := by
  suffices hboth : ∀ a b, (a = outside ∧ b = inside ∨ a = inside ∧ b = outside) →
      ∀ s t, read a text = some s → read b text = some t → s ≠ t from
    fun h' => hboth outside inside (.inl ⟨rfl, rfl⟩) s t h h'
  clear h s t
  induction text with
  | nil =>
    intro a b hab s t ha hb
    cases ha
    cases hb
    obtain ⟨rfl, rfl⟩ | ⟨rfl, rfl⟩ := hab <;> decide
  | cons c text ih =>
    intro a b hab s t ha hb
    rw [read_cons] at ha hb
    -- only a quote moves a reader that is outside, and it moves both
    by_cases hquote : c = '"'
    · subst hquote
      obtain ⟨rfl, rfl⟩ | ⟨rfl, rfl⟩ := hab
      · exact ih inside outside (.inr ⟨rfl, rfl⟩) s t ha hb
      · exact ih outside inside (.inl ⟨rfl, rfl⟩) s t ha hb
    by_cases hbad : c = '\\' ∨ c = ' '
    · obtain ⟨rfl, rfl⟩ | ⟨rfl, rfl⟩ := hab
      · simp [step, hquote, hbad] at ha
      · simp [step, hquote, hbad] at hb
    · have hback : c ≠ '\\' := fun h => hbad (.inl h)
      obtain ⟨rfl, rfl⟩ | ⟨rfl, rfl⟩ := hab
      · simp only [step, if_neg hquote, if_neg hbad, if_neg hback] at ha hb
        exact ih outside inside (.inl ⟨rfl, rfl⟩) s t ha hb
      · simp only [step, if_neg hquote, if_neg hbad, if_neg hback] at ha hb
        exact ih inside outside (.inr ⟨rfl, rfl⟩) s t ha hb

theorem inside_of_space {s : Quotes} (h : (step s ' ').isSome) : s = inside := by
  cases s with
  | outside => cases h
  | inside => rfl
  | escaped => cases h

theorem stays_asciiEscape (u : CodeUnit) : Stays inside (asciiEscape u) := by
  have hhex : ∀ n : Fin 16, step inside (JsonTexts.hexDigit n) = some inside := by decide
  unfold asciiEscape
  split_ifs with h₁ h₂ h₃ h₄ h₅ h₆ h₇ hplain
  iterate 7 rfl
  · -- a printable character that is neither a quote nor a backslash
    have hval := toNat_ofNat_ascii ⟨u.val, by omega⟩
    have hquote : Char.ofNat u.val ≠ '"' := by
      intro he
      rw [he] at hval
      exact h₁ hval.symm
    have hback : Char.ofNat u.val ≠ '\\' := by
      intro he
      rw [he] at hval
      exact h₂ hval.symm
    apply stays_of_forall
    intro c hc
    rw [List.mem_singleton.1 hc, step, if_neg hquote, if_neg hback]
  · have hlt := u.isLt
    have hmark : Stays inside ['\\', 'u'] := rfl
    apply hmark.append
    apply stays_of_forall
    simp only [List.forall_mem_cons]
    exact ⟨hhex ⟨u.val / 4096, by omega⟩, hhex ⟨u.val / 256 % 16, Nat.mod_lt _ (by decide)⟩,
      hhex ⟨u.val / 16 % 16, Nat.mod_lt _ (by decide)⟩,
      hhex ⟨u.val % 16, Nat.mod_lt _ (by decide)⟩, List.forall_mem_nil _⟩

theorem stays_asciiQuote (text : JsText) : Stays outside (asciiQuote text) := by
  have htext : Stays inside (text.flatMap asciiEscape) := by
    induction text with
    | nil => rfl
    | cons u text ih => exact (stays_asciiEscape u).append ih
  unfold Stays asciiQuote
  rw [List.cons_append, read_cons]
  show (some inside).bind _ = _
  rw [Option.bind_some, read_append, htext]
  rfl

variable {num : ν → List Char}

/-- A tree is written from outside to outside. -/
theorem stays_write (hnum : ∀ x, ∀ c ∈ num x, isNumberChar c = true)
    (v : JsonTree ν JsText) : Stays outside (write id num asciiQuote v) := by
  have hnumber : ∀ c, isNumberChar c = true → step outside c = some outside := by
    intro c hc
    have hquote : c ≠ '"' := by
      intro he
      rw [he] at hc
      exact absurd hc (by decide)
    have hback : ¬ (c = '\\' ∨ c = ' ') := by
      rintro (he | he) <;> rw [he] at hc <;> exact absurd hc (by decide)
    rw [step, if_neg hquote, if_neg hback]
  have hmarks : ∀ c ∈ syntaxChars, step outside c = some outside := by
    simp [syntaxChars, step]
  apply write_closed
  · rfl
  · exact Stays.append
  · exact fun c hc => stays_of_forall (List.forall_mem_singleton.2 (hmarks c hc))
  · exact fun x => stays_of_forall fun c hc => hnumber c (hnum x c hc)
  · exact stays_asciiQuote

end Quotes

section Separator

variable {num : ν → List Char} (hnum : ∀ x, ∀ c ∈ num x, isNumberChar c = true)
include hnum

open Quotes in
/-- No tree follows a space in a tree. -/
theorem write_ne_space (v w : JsonTree ν JsText) (before : List Char) :
    write id num asciiQuote v ≠ before ++ ' ' :: write id num asciiQuote w := by
  intro he
  have hv := stays_write hnum v
  have hw := stays_write hnum w
  unfold Stays at hv hw
  rw [he, read_append] at hv
  cases hbefore : read outside before with
  | none =>
    rw [hbefore] at hv
    cases hv
  | some s =>
    rw [hbefore, Option.bind_some, read_cons] at hv
    have hspace : s = inside := by
      apply inside_of_space
      cases hstep : s.step ' ' with
      | none =>
        rw [hstep] at hv
        cases hv
      | some t => rfl
    rw [hspace] at hv
    exact read_opposite _ hw hv rfl

/-- **A tree after the last space that can be one**: what stands before is known. -/
theorem separator {v w : JsonTree ν JsText} {a b : List Char}
    (h : a ++ ' ' :: write id num asciiQuote v = b ++ ' ' :: write id num asciiQuote w) :
    a = b ∧ write id num asciiQuote v = write id num asciiQuote w := by
  obtain ⟨m, rfl, hm⟩ | ⟨m, rfl, hm⟩ := List.append_eq_append_iff.1 h
  · cases m with
    | nil => exact ⟨(List.append_nil a).symm, List.cons.inj hm |>.2⟩
    | cons c m => exact absurd (List.cons.inj hm).2 (write_ne_space hnum v w m)
  · cases m with
    | nil => exact ⟨List.append_nil b, (List.cons.inj hm |>.2).symm⟩
    | cons c m => exact absurd (List.cons.inj hm).2 (write_ne_space hnum w v m)

end Separator

end JsonTree
