import Mathlib

/-! # Lists of texts in JSON

    `JSON.stringify` on an array of strings, and `JSON.parse` where anything
    but an array of strings is refused.

    * **Writing**: what has to be escaped is escaped, the rest stands as it is.
    * **Reading**: a machine that takes one character at a time. An escaped
      surrogate is no character and is refused; writing never needs one.
    * **Round trip**: what was written is read.
-/

namespace JsonTexts

/-! ## Writing -/

def hexDigit (n : Nat) : Char := if n < 10 then Char.ofNat (48 + n) else Char.ofNat (87 + n)

def escape (c : Char) : List Char :=
  if c = '"' then ['\\', '"']
  else if c = '\\' then ['\\', '\\']
  else if c = '\x08' then ['\\', 'b']
  else if c = '\x0c' then ['\\', 'f']
  else if c = '\n' then ['\\', 'n']
  else if c = '\r' then ['\\', 'r']
  else if c = '\t' then ['\\', 't']
  else if c.toNat < 32 then ['\\', 'u', '0', '0', hexDigit (c.toNat / 16), hexDigit (c.toNat % 16)]
  else [c]

def quote (text : List Char) : List Char := '"' :: text.flatMap escape ++ ['"']

/-- `JSON.stringify` -/
def stringify (texts : List (List Char)) : List Char :=
  '[' :: [','].intercalate (texts.map quote) ++ [']']

/-! ## Reading -/

def isSpace (c : Char) : Bool := c = ' ' || c = '\t' || c = '\n' || c = '\r'

def hexValue (c : Char) : Option Nat :=
  if '0' ≤ c ∧ c ≤ '9' then some (c.toNat - 48)
  else if 'a' ≤ c ∧ c ≤ 'f' then some (c.toNat - 87)
  else if 'A' ≤ c ∧ c ≤ 'F' then some (c.toNat - 55)
  else none

/-- Where the machine stands, and what it has read of the text it is in. -/
inductive Mode where
  | start
  | first
  | item
  | inside (text : List Char)
  | escaped (text : List Char)
  | unicode (text : List Char) (digits : List Nat)
  | after
  | finished
deriving DecidableEq

/-- The texts that are complete, and the mode. -/
abbrev State := List (List Char) × Mode

def step (s : State) (c : Char) : Option State :=
  match s with
  | (texts, .start) =>
      if isSpace c then some s else if c = '[' then some (texts, .first) else none
  | (texts, .first) =>
      if isSpace c then some s
      else if c = ']' then some (texts, .finished)
      else if c = '"' then some (texts, .inside [])
      else none
  | (texts, .item) =>
      if isSpace c then some s else if c = '"' then some (texts, .inside []) else none
  | (texts, .inside text) =>
      if c = '"' then some (texts ++ [text], .after)
      else if c = '\\' then some (texts, .escaped text)
      else if c.toNat < 32 then none
      else some (texts, .inside (text ++ [c]))
  | (texts, .escaped text) =>
      if c = '"' ∨ c = '\\' ∨ c = '/' then some (texts, .inside (text ++ [c]))
      else if c = 'b' then some (texts, .inside (text ++ ['\x08']))
      else if c = 'f' then some (texts, .inside (text ++ ['\x0c']))
      else if c = 'n' then some (texts, .inside (text ++ ['\n']))
      else if c = 'r' then some (texts, .inside (text ++ ['\r']))
      else if c = 't' then some (texts, .inside (text ++ ['\t']))
      else if c = 'u' then some (texts, .unicode text [])
      else none
  | (texts, .unicode text digits) =>
      match hexValue c, digits with
      | none, _ => none
      | some d₄, [d₁, d₂, d₃] =>
          let code := ((d₁ * 16 + d₂) * 16 + d₃) * 16 + d₄
          if code.isValidChar then some (texts, .inside (text ++ [Char.ofNat code])) else none
      | some d, digits => some (texts, .unicode text (digits ++ [d]))
  | (texts, .after) =>
      if isSpace c then some s
      else if c = ',' then some (texts, .item)
      else if c = ']' then some (texts, .finished)
      else none
  | (_, .finished) => if isSpace c then some s else none

def readFrom (s : State) (input : List Char) : Option State := input.foldlM step s

/-- `JSON.parse` -/
def parse (input : List Char) : Option (List (List Char)) :=
  (readFrom ([], .start) input).bind fun s =>
    if s.2 = .finished then some s.1 else none

/-! ## Round trip -/

theorem readFrom_append (s : State) (a b : List Char) :
    readFrom s (a ++ b) = (readFrom s a).bind fun t => readFrom t b := by
  unfold readFrom
  rw [List.foldlM_append]
  rfl

theorem readFrom_cons (s : State) (c : Char) (rest : List Char) :
    readFrom s (c :: rest) = (step s c).bind fun t => readFrom t rest := rfl

@[simp] theorem readFrom_nil (s : State) : readFrom s [] = some s := rfl

theorem hexValue_hexDigit : ∀ n : Fin 16, hexValue (hexDigit n) = some n.val := by decide

theorem readFrom_escape (texts : List (List Char)) (text : List Char) (c : Char) :
    readFrom (texts, .inside text) (escape c) = some (texts, .inside (text ++ [c])) := by
  unfold escape
  by_cases hquote : c = '"'
  · subst hquote; rfl
  by_cases hback : c = '\\'
  · subst hback; rfl
  by_cases hb : c = '\x08'
  · subst hb; rfl
  by_cases hf : c = '\x0c'
  · subst hf; rfl
  by_cases hn : c = '\n'
  · subst hn; rfl
  by_cases hr : c = '\r'
  · subst hr; rfl
  by_cases ht : c = '\t'
  · subst ht; rfl
  simp only [hquote, hback, hb, hf, hn, hr, ht, if_false]
  by_cases hcontrol : c.toNat < 32
  · rw [if_pos hcontrol]
    have hhigh := hexValue_hexDigit ⟨c.toNat / 16, by omega⟩
    have hlow := hexValue_hexDigit ⟨c.toNat % 16, Nat.mod_lt _ (by decide)⟩
    have hzero : hexValue '0' = some 0 := by decide
    have hcode : c.toNat / 16 * 16 + c.toNat % 16 = c.toNat := by omega
    have hvalid : c.toNat.isValidChar := c.valid
    simp only [readFrom_cons, readFrom_nil, step, hhigh, hlow, hzero]
    simp [hcode, hvalid]
  · rw [if_neg hcontrol, readFrom_cons]
    simp only [step, hquote, hback, hcontrol, if_false, Option.bind_some, readFrom_nil]

theorem readFrom_text (texts : List (List Char)) (text rest : List Char) :
    readFrom (texts, .inside text) (rest.flatMap escape) =
      some (texts, .inside (text ++ rest)) := by
  induction rest generalizing text with
  | nil => simp
  | cons c rest ih =>
    rw [List.flatMap_cons, readFrom_append, readFrom_escape, Option.bind_some, ih]
    simp

theorem readFrom_inside (texts : List (List Char)) (text : List Char) :
    readFrom (texts, .inside []) (text.flatMap escape ++ ['"']) = some (texts ++ [text], .after) := by
  rw [readFrom_append, readFrom_text, Option.bind_some, readFrom_cons, List.nil_append]
  rfl

theorem readFrom_items (texts rest : List (List Char)) :
    readFrom (texts, .after) (rest.flatMap fun text => ',' :: quote text) =
      some (texts ++ rest, .after) := by
  induction rest generalizing texts with
  | nil => simp
  | cons text rest ih =>
    rw [List.flatMap_cons, readFrom_append]
    have hitem : readFrom (texts, .after) (',' :: quote text) = some (texts ++ [text], .after) :=
      readFrom_inside texts text
    rw [hitem, Option.bind_some, ih]
    simp

theorem intercalate_cons (text : List Char) (rest : List (List Char)) :
    [','].intercalate (text :: rest) = text ++ rest.flatMap (',' :: ·) := by
  induction rest generalizing text with
  | nil => simp
  | cons next rest ih => rw [List.intercalate_cons_cons, ih]; simp

/-- **What was written is read.** -/
theorem parse_stringify (texts : List (List Char)) : parse (stringify texts) = some texts := by
  have hread : readFrom ([], .start) (stringify texts) = some (texts, .finished) := by
    cases texts with
    | nil => rfl
    | cons text rest =>
      have hitems : (rest.map quote).flatMap (',' :: ·) =
          rest.flatMap fun text => ',' :: quote text := List.flatMap_map ..
      have hfirst : readFrom ([], .start) ('[' :: quote text) = some ([text], .after) :=
        readFrom_inside [] text
      rw [stringify, List.map_cons, intercalate_cons, hitems, List.cons_append, List.append_assoc,
        ← List.cons_append, readFrom_append, hfirst, Option.bind_some, readFrom_append,
        readFrom_items, Option.bind_some]
      rfl
  rw [parse, hread]
  rfl

theorem hexDigit_ge : ∀ n : Fin 16, 32 ≤ (hexDigit n).toNat := by decide

theorem escape_ge {c d : Char} (h : d ∈ escape c) : 32 ≤ d.toNat := by
  have hall : ∀ e ∈ escape c, 32 ≤ e.toNat := by
    unfold escape
    split_ifs with hquote hback hb hf hn hr ht hcontrol
    iterate 7 simp
    · have hhigh := hexDigit_ge ⟨c.toNat / 16, by omega⟩
      have hlow := hexDigit_ge ⟨c.toNat % 16, Nat.mod_lt _ (by decide)⟩
      have hback : 32 ≤ '\\'.toNat := by decide
      have hu : 32 ≤ 'u'.toNat := by decide
      have hzero : 32 ≤ '0'.toNat := by decide
      simp only [List.forall_mem_cons]
      exact ⟨hback, hu, hzero, hzero, hhigh, hlow, by simp⟩
    · simpa using hcontrol
  exact hall d h

/-- **No control character** is left in what was written. -/
theorem stringify_ge {texts : List (List Char)} {c : Char} (h : c ∈ stringify texts) :
    32 ≤ c.toNat := by
  have hquote : ∀ text : List Char, ∀ d ∈ quote text, 32 ≤ d.toNat := by
    intro text d hd
    rcases List.mem_append.1 hd with hd | hd
    · rcases List.mem_cons.1 hd with rfl | hd
      · decide
      · obtain ⟨e, -, he⟩ := List.mem_flatMap.1 hd
        exact escape_ge he
    · rw [List.mem_singleton.1 hd]
      decide
  rcases List.mem_append.1 h with h | h
  · rcases List.mem_cons.1 h with rfl | h
    · decide
    · cases texts with
      | nil => cases h
      | cons text rest =>
        rw [List.map_cons, intercalate_cons] at h
        rcases List.mem_append.1 h with h | h
        · exact hquote text c h
        · obtain ⟨next, hnext, h⟩ := List.mem_flatMap.1 h
          obtain ⟨text', -, rfl⟩ := List.mem_map.1 hnext
          rcases List.mem_cons.1 h with rfl | h
          · decide
          · exact hquote text' c h
  · rw [List.mem_singleton.1 h]
    decide

end JsonTexts
