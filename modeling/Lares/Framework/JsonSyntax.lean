import Lares.Framework.JsonTree

/-! # JSON texts

    Trees as JSON text, and `JSON.parse`. A text in JavaScript is a list of
    UTF-16 code units, so it may hold half of a surrogate pair.

    * **Writing** without space, over any alphabet, with given ways to write
      numbers and texts. `asciiEscape` leaves nothing outside of ASCII.
    * **Reading**: a machine that takes one character at a time. The arrays and
      objects that are still open are on a stack.
    * **Round trip**: what was written is read, whatever stands on the stack.
      A number ends only where the next character does not belong to it.
-/

/-- A UTF-16 code unit. -/
abbrev CodeUnit := Fin 65536

/-- A text in JavaScript. -/
abbrev JsText := List CodeUnit

namespace JsonTree

variable {ν ν' σ σ' γ γ' : Type}

/-! ## Section 1: Writing -/

section Write

variable (lit : Char → γ) (num : ν → List γ) (str : σ → List γ)

mutual

/-- The text of a tree. -/
def write : JsonTree ν σ → List γ
  | .null => ['n', 'u', 'l', 'l'].map lit
  | .bool true => ['t', 'r', 'u', 'e'].map lit
  | .bool false => ['f', 'a', 'l', 's', 'e'].map lit
  | .number x => num x
  | .string text => str text
  | .array [] => [lit '[', lit ']']
  | .array (v :: items) => lit '[' :: write v ++ writeItems items ++ [lit ']']
  | .object [] => [lit '{', lit '}']
  | .object ((k, v) :: fields) =>
      lit '{' :: str k ++ lit ':' :: write v ++ writeFields fields ++ [lit '}']

/-- The items after the first. -/
def writeItems : List (JsonTree ν σ) → List γ
  | [] => []
  | v :: items => lit ',' :: write v ++ writeItems items

/-- The fields after the first. -/
def writeFields : List (σ × JsonTree ν σ) → List γ
  | [] => []
  | (k, v) :: fields => lit ',' :: str k ++ lit ':' :: write v ++ writeFields fields

end

end Write

/-- What the syntax itself consists of. -/
def syntaxChars : List Char :=
  ['n', 'u', 'l', 'l', 't', 'r', 'u', 'e', 'f', 'a', 'l', 's', 'e', '[', ']', '{', '}', ':', ',']

section Rewrite

variable {lit : Char → γ} {num : ν → List γ} {str : σ → List γ} {lit' : Char → γ'}
  {num' : ν' → List γ'} {str' : σ' → List γ'} {e : γ → List γ'} {g : ν → ν'} {h : σ → σ'}
  (hlit : ∀ c ∈ syntaxChars, e (lit c) = [lit' c])
  (hnum : ∀ x, (num x).flatMap e = num' (g x)) (hstr : ∀ text, (str text).flatMap e = str' (h text))

include hlit hnum hstr

/-- Text by text another text: whatever leaves the syntax alone rewrites the numbers and the
    texts. -/
theorem flatMap_write (v : JsonTree ν σ) :
    (write lit num str v).flatMap e = write lit' num' str' (map g h v) := by
  -- The writer puts out letters of the syntax, numbers and texts; the letters go one by one.
  have hchar : ∀ c ∈ syntaxChars, ∀ rest : List γ,
      (lit c :: rest).flatMap e = lit' c :: rest.flatMap e := by
    intro c hc rest
    rw [List.flatMap_cons, hlit c hc]
    rfl
  induction v with
  | null =>
    show (lit 'n' :: lit 'u' :: lit 'l' :: lit 'l' :: []).flatMap e = _
    rw [hchar 'n' (by decide), hchar 'u' (by decide), hchar 'l' (by decide),
      hchar 'l' (by decide)]
    rfl
  | bool b =>
    cases b with
    | true =>
      show (lit 't' :: lit 'r' :: lit 'u' :: lit 'e' :: []).flatMap e = _
      rw [hchar 't' (by decide), hchar 'r' (by decide), hchar 'u' (by decide),
        hchar 'e' (by decide)]
      rfl
    | false =>
      show (lit 'f' :: lit 'a' :: lit 'l' :: lit 's' :: lit 'e' :: []).flatMap e = _
      rw [hchar 'f' (by decide), hchar 'a' (by decide), hchar 'l' (by decide),
        hchar 's' (by decide), hchar 'e' (by decide)]
      rfl
  | number x => exact hnum x
  | string text => exact hstr text
  | array items ih =>
    cases items with
    | nil =>
      show (lit '[' :: lit ']' :: []).flatMap e = _
      rw [hchar '[' (by decide), hchar ']' (by decide)]
      rfl
    | cons v items =>
      -- The items after the first one, each behind its comma.
      have hitems : ∀ items : List (JsonTree ν σ),
          (∀ w ∈ items, (write lit num str w).flatMap e = write lit' num' str' (map g h w)) →
          (writeItems lit num str items).flatMap e =
            writeItems lit' num' str' (mapItems g h items) := by
        intro items
        induction items with
        | nil => exact fun _ => rfl
        | cons w items ih =>
          intro hw
          rw [writeItems, List.cons_append, hchar ',' (by decide), List.flatMap_append,
            hw w List.mem_cons_self, ih fun w hmem => hw w (List.mem_cons_of_mem _ hmem)]
          rfl
      rw [write, List.append_assoc, List.cons_append, hchar '[' (by decide), List.flatMap_append,
        List.flatMap_append, ih v List.mem_cons_self,
        hitems items fun w hmem => ih w (List.mem_cons_of_mem _ hmem), hchar ']' (by decide),
        map, mapItems, write, List.append_assoc]
      rfl
  | object fields ih =>
    cases fields with
    | nil =>
      show (lit '{' :: lit '}' :: []).flatMap e = _
      rw [hchar '{' (by decide), hchar '}' (by decide)]
      rfl
    | cons p fields =>
      have hfields : ∀ fields : List (σ × JsonTree ν σ),
          (∀ p ∈ fields,
            (write lit num str p.2).flatMap e = write lit' num' str' (map g h p.2)) →
          (writeFields lit num str fields).flatMap e =
            writeFields lit' num' str' (mapFields g h fields) := by
        intro fields
        induction fields with
        | nil => exact fun _ => rfl
        | cons p fields ih =>
          intro hp
          rw [writeFields, List.append_assoc, List.cons_append, List.cons_append,
            hchar ',' (by decide), List.flatMap_append, hstr, hchar ':' (by decide),
            List.flatMap_append, hp p List.mem_cons_self,
            ih fun p hmem => hp p (List.mem_cons_of_mem _ hmem), mapFields, writeFields,
            List.append_assoc]
          rfl
      rw [write, List.append_assoc, List.append_assoc, List.cons_append, List.cons_append,
        hchar '{' (by decide), List.flatMap_append, hstr, hchar ':' (by decide),
        List.flatMap_append, List.flatMap_append, ih p List.mem_cons_self,
        hfields fields fun p hmem => ih p (List.mem_cons_of_mem _ hmem), hchar '}' (by decide),
        map, mapFields, write, List.append_assoc, List.append_assoc]
      rfl

end Rewrite

/-- A property of texts that holds of what is written if it holds of the parts. -/
theorem write_closed {P : List γ → Prop} {lit : Char → γ} {num : ν → List γ} {str : σ → List γ}
    (hnil : P []) (happend : ∀ {l l'}, P l → P l' → P (l ++ l'))
    (hlit : ∀ c ∈ syntaxChars, P [lit c]) (hnum : ∀ x, P (num x)) (hstr : ∀ text, P (str text))
    (v : JsonTree ν σ) : P (write lit num str v) := by
  have hcons : ∀ {c : Char} {rest : List γ}, c ∈ syntaxChars → P rest → P (lit c :: rest) :=
    fun hc hrest => happend (hlit _ hc) hrest
  have hmap : ∀ l : List Char, (∀ c ∈ l, c ∈ syntaxChars) → P (l.map lit) := by
    intro l hl
    induction l with
    | nil => exact hnil
    | cons c l ih =>
      exact hcons (hl c List.mem_cons_self) (ih fun d hd => hl d (List.mem_cons_of_mem _ hd))
  induction v with
  | null => exact hmap ['n', 'u', 'l', 'l'] (by simp [syntaxChars])
  | bool b =>
    cases b with
    | true => exact hmap ['t', 'r', 'u', 'e'] (by simp [syntaxChars])
    | false => exact hmap ['f', 'a', 'l', 's', 'e'] (by simp [syntaxChars])
  | number x => exact hnum x
  | string text => exact hstr text
  | array items ih =>
    cases items with
    | nil => exact hcons (by decide) (hcons (by decide) hnil)
    | cons v items =>
      -- The items after the first, by induction on the list: their writer is a loop of its own.
      have hitems : ∀ items : List (JsonTree ν σ),
          (∀ w ∈ items, P (write lit num str w)) → P (writeItems lit num str items) := by
        intro items
        induction items with
        | nil => exact fun _ => hnil
        | cons w items ih =>
          intro hw
          exact happend (hcons (by decide) (hw w List.mem_cons_self))
            (ih fun w hmem => hw w (List.mem_cons_of_mem _ hmem))
      exact happend (happend (hcons (by decide) (ih v List.mem_cons_self))
        (hitems items fun w hmem => ih w (List.mem_cons_of_mem _ hmem)))
        (hcons (by decide) hnil)
  | object fields ih =>
    cases fields with
    | nil => exact hcons (by decide) (hcons (by decide) hnil)
    | cons p fields =>
      have hfields : ∀ fields : List (σ × JsonTree ν σ),
          (∀ p ∈ fields, P (write lit num str p.2)) → P (writeFields lit num str fields) := by
        intro fields
        induction fields with
        | nil => exact fun _ => hnil
        | cons p fields ih =>
          intro hp
          exact happend (happend (hcons (by decide) (hstr p.1))
            (hcons (by decide) (hp p List.mem_cons_self)))
            (ih fun p hmem => hp p (List.mem_cons_of_mem _ hmem))
      exact happend (happend (happend (hcons (by decide) (hstr p.1))
        (hcons (by decide) (ih p List.mem_cons_self)))
        (hfields fields fun p hmem => ih p (List.mem_cons_of_mem _ hmem)))
        (hcons (by decide) hnil)

/-- A property of all that is written. -/
theorem mem_write {P : γ → Prop} {lit : Char → γ} {num : ν → List γ} {str : σ → List γ}
    (hlit : ∀ c ∈ syntaxChars, P (lit c)) (hnum : ∀ x, ∀ c ∈ num x, P c)
    (hstr : ∀ text, ∀ c ∈ str text, P c) (v : JsonTree ν σ) :
    ∀ c ∈ write lit num str v, P c :=
  write_closed (P := fun l => ∀ c ∈ l, P c) (List.forall_mem_nil _)
    (fun hl hl' => List.forall_mem_append.2 ⟨hl, hl'⟩)
    (fun c hc => List.forall_mem_singleton.2 (hlit c hc)) hnum hstr v

/-- The four digits of a code unit. -/
def hex4 (n : Nat) : List Char :=
  [JsonTexts.hexDigit (n / 4096), JsonTexts.hexDigit (n / 256 % 16),
    JsonTexts.hexDigit (n / 16 % 16), JsonTexts.hexDigit (n % 16)]

/-- A code unit in ASCII. -/
def asciiEscape (u : CodeUnit) : List Char :=
  if u.val = 34 then ['\\', '"']
  else if u.val = 92 then ['\\', '\\']
  else if u.val = 8 then ['\\', 'b']
  else if u.val = 12 then ['\\', 'f']
  else if u.val = 10 then ['\\', 'n']
  else if u.val = 13 then ['\\', 'r']
  else if u.val = 9 then ['\\', 't']
  else if 32 ≤ u.val ∧ u.val ≤ 126 then [Char.ofNat u.val]
  else '\\' :: 'u' :: hex4 u.val

def asciiQuote (text : JsText) : List Char := '"' :: text.flatMap asciiEscape ++ ['"']

/-! ## Section 2: Reading -/

instance neZero_codeUnits : NeZero 65536 := ⟨by decide⟩

/-- The code units of a character. -/
def utf16 (c : Char) : JsText :=
  if c.toNat < 65536 then [Fin.ofNat 65536 c.toNat]
  else
    [Fin.ofNat 65536 (55296 + (c.toNat - 65536) / 1024),
      Fin.ofNat 65536 (56320 + (c.toNat - 65536) % 1024)]

/-- `CreateDataProperty`: a name that is there already keeps its place. -/
def setField (fields : List (JsText × JsonTree ν JsText)) (name : JsText)
    (v : JsonTree ν JsText) : List (JsText × JsonTree ν JsText) :=
  if name ∈ fields.map Prod.fst then fields.map fun p => if p.1 = name then (name, v) else p
  else fields ++ [(name, v)]

/-- What is open around the place that is read. -/
inductive Frame (ν : Type) where
  | array (items : List (JsonTree ν JsText))
  /-- An object where a name comes next. -/
  | names (fields : List (JsText × JsonTree ν JsText))
  /-- An object where the value of a name comes next. -/
  | field (fields : List (JsText × JsonTree ν JsText)) (name : JsText)

/-- What is being read. -/
inductive Mode (ν : Type) where
  | value
  | firstItem
  | firstName
  | name
  | inside (text : JsText)
  | escaped (text : JsText)
  | unicode (text : JsText) (digits : List Nat)
  | colon (name : JsText)
  | literal (rest : List Char) (v : JsonTree ν JsText)
  | number (token : List Char)
  | after (v : JsonTree ν JsText)

abbrev State (ν : Type) := List (Frame ν) × Mode ν

/-- The characters a number can have. -/
def isNumberChar (c : Char) : Bool :=
  c.isDigit || c = '-' || c = '+' || c = '.' || c = 'e' || c = 'E'

/-- The first character of a value. -/
def start (stack : List (Frame ν)) (c : Char) : Option (State ν) :=
  if c = '"' then some (stack, .inside [])
  else if c = '[' then some (.array [] :: stack, .firstItem)
  else if c = '{' then some (.names [] :: stack, .firstName)
  else if c = 'n' then some (stack, .literal ['u', 'l', 'l'] .null)
  else if c = 't' then some (stack, .literal ['r', 'u', 'e'] (.bool true))
  else if c = 'f' then some (stack, .literal ['a', 'l', 's', 'e'] (.bool false))
  else if c = '-' ∨ c.isDigit then some (stack, .number [c])
  else none

/-- A character after a value. -/
def stepAfter (stack : List (Frame ν)) (v : JsonTree ν JsText) (c : Char) : Option (State ν) :=
  if JsonTexts.isSpace c then some (stack, .after v)
  else
    match stack with
    | [] => none
    | .array items :: stack =>
        if c = ',' then some (.array (items ++ [v]) :: stack, .value)
        else if c = ']' then some (stack, .after (.array (items ++ [v])))
        else none
    | .names _ :: _ => none
    | .field fields name :: stack =>
        if c = ',' then some (.names (setField fields name v) :: stack, .name)
        else if c = '}' then some (stack, .after (.object (setField fields name v)))
        else none

/-- The end of a text, which is a name where one is expected. -/
def closeText (stack : List (Frame ν)) (text : JsText) : State ν :=
  match stack with
  | [] => (stack, .after (.string text))
  | .array _ :: _ => (stack, .after (.string text))
  | .names _ :: _ => (stack, .colon text)
  | .field _ _ :: _ => (stack, .after (.string text))

/-- A character after a backslash. -/
def stepEscaped (stack : List (Frame ν)) (text : JsText) (c : Char) : Option (State ν) :=
  if c = '"' ∨ c = '\\' ∨ c = '/' then some (stack, .inside (text ++ utf16 c))
  else if c = 'b' then some (stack, .inside (text ++ [8]))
  else if c = 'f' then some (stack, .inside (text ++ [12]))
  else if c = 'n' then some (stack, .inside (text ++ [10]))
  else if c = 'r' then some (stack, .inside (text ++ [13]))
  else if c = 't' then some (stack, .inside (text ++ [9]))
  else if c = 'u' then some (stack, .unicode text [])
  else none

section Read

variable (number : List Char → Option ν)

def step (s : State ν) (c : Char) : Option (State ν) :=
  match s with
  | (stack, .value) => if JsonTexts.isSpace c then some s else start stack c
  | (stack, .firstItem) =>
      if JsonTexts.isSpace c then some s
      else if c = ']' then some (stack.tail, .after (.array []))
      else start stack c
  | (stack, .firstName) =>
      if JsonTexts.isSpace c then some s
      else if c = '}' then some (stack.tail, .after (.object []))
      else if c = '"' then some (stack, .inside [])
      else none
  | (stack, .name) =>
      if JsonTexts.isSpace c then some s
      else if c = '"' then some (stack, .inside [])
      else none
  | (stack, .inside text) =>
      if c = '"' then some (closeText stack text)
      else if c = '\\' then some (stack, .escaped text)
      else if c.toNat < 32 then none
      else some (stack, .inside (text ++ utf16 c))
  | (stack, .escaped text) => stepEscaped stack text c
  | (stack, .unicode text digits) =>
      (JsonTexts.hexValue c).map fun d =>
        if digits.length = 3 then
          (stack, .inside (text ++ [Fin.ofNat 65536 (Nat.ofDigits 16 (digits ++ [d]).reverse)]))
        else (stack, .unicode text (digits ++ [d]))
  | (stack, .colon name) =>
      if JsonTexts.isSpace c then some s
      else if c = ':' then
        match stack with
        | [] => none
        | .array _ :: _ => none
        | .names fields :: stack => some (.field fields name :: stack, .value)
        | .field _ _ :: _ => none
      else none
  | (stack, .literal rest v) =>
      if rest = [c] then some (stack, .after v)
      else if rest.head? = some c then some (stack, .literal rest.tail v)
      else none
  | (stack, .number token) =>
      if isNumberChar c then some (stack, .number (token ++ [c]))
      else (number token).bind fun x => stepAfter stack (.number x) c
  | (stack, .after v) => stepAfter stack v c

def readFrom (s : State ν) (input : List Char) : Option (State ν) := input.foldlM (step number) s

/-- The value of a whole text. -/
def finish (s : State ν) : Option (JsonTree ν JsText) :=
  match s with
  | (_ :: _, _) => none
  | ([], .value) => none
  | ([], .firstItem) => none
  | ([], .firstName) => none
  | ([], .name) => none
  | ([], .inside _) => none
  | ([], .escaped _) => none
  | ([], .unicode _ _) => none
  | ([], .colon _) => none
  | ([], .literal _ _) => none
  | ([], .number token) => (number token).map .number
  | ([], .after v) => some v

/-- `JSON.parse` -/
def parse (input : List Char) : Option (JsonTree ν JsText) :=
  (readFrom number ([], .value) input).bind (finish number)

end Read

/-! ## Section 3: Round trip -/

section RoundTrip

variable {number : List Char → Option ν} (stack : List (Frame ν))

theorem readFrom_append (s : State ν) (a b : List Char) :
    readFrom number s (a ++ b) = (readFrom number s a).bind fun t => readFrom number t b := by
  unfold readFrom
  rw [List.foldlM_append]
  rfl

theorem readFrom_cons (s : State ν) (c : Char) (rest : List Char) :
    readFrom number s (c :: rest) = (step number s c).bind fun t => readFrom number t rest := rfl

@[simp] theorem readFrom_nil (s : State ν) : readFrom number s [] = some s := rfl

theorem toNat_ofNat_ascii : ∀ n : Fin 127, (Char.ofNat n.val).toNat = n.val := by decide

theorem readFrom_hex4 (text : JsText) (u : CodeUnit) :
    readFrom number (stack, .unicode text []) (hex4 u.val) =
      some (stack, .inside (text ++ [u])) := by
  have hu := u.isLt
  have h₁ := JsonTexts.hexValue_hexDigit ⟨u.val / 4096, by omega⟩
  have h₂ := JsonTexts.hexValue_hexDigit ⟨u.val / 256 % 16, Nat.mod_lt _ (by decide)⟩
  have h₃ := JsonTexts.hexValue_hexDigit ⟨u.val / 16 % 16, Nat.mod_lt _ (by decide)⟩
  have h₄ := JsonTexts.hexValue_hexDigit ⟨u.val % 16, Nat.mod_lt _ (by decide)⟩
  have hvalue : Fin.ofNat 65536 (Nat.ofDigits 16
      [u.val % 16, u.val / 16 % 16, u.val / 256 % 16, u.val / 4096]) = u := by
    apply Fin.ext
    simp only [Nat.ofDigits_cons, Nat.ofDigits_nil, Fin.val_ofNat]
    omega
  unfold hex4
  simp only [readFrom_cons, readFrom_nil, step, h₁, h₂, h₃, h₄, Option.map_some, Option.bind_some]
  exact congrArg (fun v => some (stack, Mode.inside (text ++ [v]))) hvalue

/-- **One code unit**, escaped or not, is read as itself. -/
theorem readFrom_asciiEscape (text : JsText) (u : CodeUnit) :
    readFrom number (stack, .inside text) (asciiEscape u) =
      some (stack, .inside (text ++ [u])) := by
  have hself : ∀ n : Nat, u.val = n → u = Fin.ofNat 65536 n := by
    intro n hn
    apply Fin.ext
    rw [Fin.val_ofNat, ← hn, Nat.mod_eq_of_lt u.isLt]
  unfold asciiEscape
  by_cases hquote : u.val = 34
  · rw [if_pos hquote, hself 34 hquote]
    rfl
  by_cases hback : u.val = 92
  · rw [if_neg hquote, if_pos hback, hself 92 hback]
    rfl
  by_cases hb : u.val = 8
  · rw [if_neg hquote, if_neg hback, if_pos hb, hself 8 hb]
    rfl
  by_cases hf : u.val = 12
  · rw [if_neg hquote, if_neg hback, if_neg hb, if_pos hf, hself 12 hf]
    rfl
  by_cases hn : u.val = 10
  · rw [if_neg hquote, if_neg hback, if_neg hb, if_neg hf, if_pos hn, hself 10 hn]
    rfl
  by_cases hr : u.val = 13
  · rw [if_neg hquote, if_neg hback, if_neg hb, if_neg hf, if_neg hn, if_pos hr, hself 13 hr]
    rfl
  by_cases ht : u.val = 9
  · rw [if_neg hquote, if_neg hback, if_neg hb, if_neg hf, if_neg hn, if_neg hr, if_pos ht,
      hself 9 ht]
    rfl
  rw [if_neg hquote, if_neg hback, if_neg hb, if_neg hf, if_neg hn, if_neg hr, if_neg ht]
  by_cases hplain : 32 ≤ u.val ∧ u.val ≤ 126
  · rw [if_pos hplain]
    have hnat : (Char.ofNat u.val).toNat = u.val := toNat_ofNat_ascii ⟨u.val, by omega⟩
    have hne : ∀ c : Char, u.val ≠ c.toNat → Char.ofNat u.val ≠ c := by
      intro c hc he
      rw [he] at hnat
      exact hc hnat.symm
    have hunits : utf16 (Char.ofNat u.val) = [u] := by
      have hlt := u.isLt
      unfold utf16
      rw [hnat, if_pos hlt, ← hself _ rfl]
    have hlow : ¬ (Char.ofNat u.val).toNat < 32 := by
      rw [hnat]
      omega
    rw [readFrom_cons, step, if_neg (hne '"' hquote), if_neg (hne '\\' hback), if_neg hlow, hunits]
    rfl
  · rw [if_neg hplain, readFrom_cons]
    exact readFrom_hex4 stack text u

theorem readFrom_asciiText (text rest : JsText) :
    readFrom number (stack, .inside text) (rest.flatMap asciiEscape) =
      some (stack, .inside (text ++ rest)) := by
  induction rest generalizing text with
  | nil =>
    rw [List.append_nil]
    rfl
  | cons u rest ih =>
    rw [List.flatMap_cons, readFrom_append, readFrom_asciiEscape, Option.bind_some, ih,
      List.append_assoc]
    rfl

theorem readFrom_inside (text : JsText) :
    readFrom number (stack, .inside []) (text.flatMap asciiEscape ++ ['"']) =
      some (closeText stack text) := by
  rw [readFrom_append, readFrom_asciiText, Option.bind_some, List.nil_append]
  rfl

/-- A value has been read, up to the character after it. -/
def Done (number : List Char → Option ν) (m : Mode ν) (v : JsonTree ν JsText) : Prop :=
  m = .after v ∨ ∃ token x, m = .number token ∧ number token = some x ∧ v = .number x

theorem Done.step {m : Mode ν} {v : JsonTree ν JsText} (h : Done number m v) {c : Char}
    (hc : isNumberChar c = false) : JsonTree.step number (stack, m) c = stepAfter stack v c := by
  cases h with
  | inl hafter =>
    rw [hafter]
    rfl
  | inr hnumber =>
    obtain ⟨token, x, hm, htoken, hv⟩ := hnumber
    rw [hm, hv, JsonTree.step, if_neg (by rw [hc]; decide), htoken]
    rfl

theorem Done.finish {m : Mode ν} {v : JsonTree ν JsText} (h : Done number m v) :
    JsonTree.finish number ([], m) = some v := by
  cases h with
  | inl hafter =>
    rw [hafter]
    rfl
  | inr hnumber =>
    obtain ⟨token, x, hm, htoken, hv⟩ := hnumber
    rw [hm, hv, JsonTree.finish, htoken]
    rfl

section Tree

variable {number : List Char → Option ν} {num : ν' → List Char} {g : ν' → ν}

/-- Where a value may come next. -/
def takesValue : List (Frame ν) → Bool
  | [] => true
  | .array _ :: _ => true
  | .names _ :: _ => false
  | .field _ _ :: _ => true

theorem closeText_value {stack : List (Frame ν)} (h : takesValue stack = true) (text : JsText) :
    closeText stack text = (stack, .after (.string text)) := by
  cases stack with
  | nil => rfl
  | cons frame stack =>
    cases frame with
    | array items => rfl
    | names fields => cases h
    | field fields name => rfl

/-- A number whose text is one token, which is read as the number. -/
def Readable (number : List Char → Option ν) (num : ν' → List Char) (g : ν' → ν) (x : ν') : Prop :=
  ∃ c cs, num x = c :: cs ∧ (c = '-' ∨ c.isDigit = true) ∧ (∀ d ∈ cs, isNumberChar d = true) ∧
    number (num x) = some (g x)

/-- The text of a value is read as the value, wherever one is expected. -/
def Reads (number : List Char → Option ν) (num : ν' → List Char) (g : ν' → ν)
    (v : JsonTree ν' JsText) : Prop :=
  ∃ c cs m, write id num asciiQuote v = c :: cs ∧ JsonTexts.isSpace c = false ∧ c ≠ ']' ∧
    Done number m (map g id v) ∧
    ∀ stack, takesValue stack = true →
      (start stack c).bind (fun s => readFrom number s cs) = some (stack, m)

theorem Reads.value {v : JsonTree ν' JsText} (h : Reads number num g v) :
    ∃ m, Done number m (map g id v) ∧
      ∀ stack, takesValue stack = true →
        readFrom number (stack, .value) (write id num asciiQuote v) = some (stack, m) ∧
        readFrom number (stack, .firstItem) (write id num asciiQuote v) = some (stack, m) := by
  obtain ⟨c, cs, m, hw, hspace, hclose, hdone, hread⟩ := h
  refine ⟨m, hdone, ?_⟩
  intro stack hstack
  constructor
  · rw [hw, readFrom_cons, step, if_neg (by rw [hspace]; decide)]
    exact hread stack hstack
  · rw [hw, readFrom_cons, step, if_neg (by rw [hspace]; decide), if_neg hclose]
    exact hread stack hstack

theorem readFrom_digits {token cs : List Char} (hcs : ∀ d ∈ cs, isNumberChar d = true)
    (stack : List (Frame ν)) : readFrom number (stack, .number token) cs =
      some (stack, .number (token ++ cs)) := by
  induction cs generalizing token with
  | nil =>
    rw [List.append_nil]
    rfl
  | cons d cs ih =>
    rw [readFrom_cons, step, if_pos (hcs d List.mem_cons_self), Option.bind_some,
      ih fun d hd => hcs d (List.mem_cons_of_mem _ hd), List.append_assoc]
    rfl

/-- A token starts with nothing else that a value starts with. -/
theorem start_number {c : Char} (hc : c = '-' ∨ c.isDigit = true) (stack : List (Frame ν)) :
    start stack c = some (stack, .number [c]) := by
  have hne : ∀ d : Char, d ≠ '-' → d.isDigit = false → c ≠ d := by
    intro d hd hdigit he
    cases hc with
    | inl h => exact hd (he.symm.trans h)
    | inr h =>
      rw [he, hdigit] at h
      cases h
  unfold start
  rw [if_neg (hne '"' (by decide) (by decide)), if_neg (hne '[' (by decide) (by decide)),
    if_neg (hne '{' (by decide) (by decide)), if_neg (hne 'n' (by decide) (by decide)),
    if_neg (hne 't' (by decide) (by decide)), if_neg (hne 'f' (by decide) (by decide)),
    if_pos hc]

theorem reads_number {x : ν'} (h : Readable number num g x) : Reads number num g (.number x) := by
  obtain ⟨c, cs, hnum, hc, hcs, hread⟩ := h
  refine ⟨c, cs, .number (num x), hnum, ?_, ?_, .inr ⟨num x, g x, rfl, hread, rfl⟩, ?_⟩
  · cases hc with
    | inl hminus =>
      rw [hminus]
      rfl
    | inr hdigit =>
      -- spaces are no digits
      cases hspace : JsonTexts.isSpace c with
      | false => rfl
      | true =>
        simp only [JsonTexts.isSpace, Bool.or_eq_true, decide_eq_true_eq] at hspace
        rcases hspace with ((he | he) | he) | he <;> rw [he] at hdigit <;> cases hdigit
  · intro he
    rw [he] at hc
    cases hc with
    | inl h => cases h
    | inr h => cases h
  · intro stack _
    rw [start_number hc, Option.bind_some, readFrom_digits hcs, hnum]
    rfl

theorem readFrom_items {items : List (JsonTree ν' JsText)}
    (h : ∀ w ∈ items, Reads number num g w) (stack : List (Frame ν))
    (before : List (JsonTree ν JsText)) {m : Mode ν} {v : JsonTree ν JsText}
    (hdone : Done number m v) :
    readFrom number (.array before :: stack, m) (writeItems id num asciiQuote items ++ [']']) =
      some (stack, .after (.array (before ++ v :: items.map (map g id)))) := by
  induction items generalizing before m v with
  | nil =>
    show readFrom number _ (']' :: []) = _
    rw [readFrom_cons, hdone.step _ rfl]
    rfl
  | cons w items ih =>
    obtain ⟨m', hdone', hvalue⟩ := (h w List.mem_cons_self).value
    have hcomma : stepAfter (.array before :: stack) v ',' =
        some (.array (before ++ [v]) :: stack, .value) := rfl
    rw [writeItems, List.append_assoc, List.cons_append, readFrom_cons]
    show (step number _ ',').bind _ = _
    rw [hdone.step _ rfl, hcomma, Option.bind_some, readFrom_append, (hvalue _ rfl).1,
      Option.bind_some, ih (fun w hmem => h w (List.mem_cons_of_mem _ hmem)) _ hdone', List.append_assoc]
    rfl

/-- A new name and its value come last. -/
theorem setField_new {fields : List (JsText × JsonTree ν JsText)} {name : JsText}
    (h : name ∉ fields.map Prod.fst) (v : JsonTree ν JsText) :
    setField fields name v = fields ++ [(name, v)] := by
  unfold setField
  rw [if_neg h]

/-- A name with its colon. -/
theorem readFrom_name (stack : List (Frame ν)) (fields : List (JsText × JsonTree ν JsText))
    (name : JsText) {m : Mode ν}
    (hm : step number (.names fields :: stack, m) '"' = some (.names fields :: stack, .inside []))
    (rest : List Char) :
    readFrom number (.names fields :: stack, m) (asciiQuote name ++ ':' :: rest) =
      readFrom number (.field fields name :: stack, .value) rest := by
  unfold asciiQuote
  rw [List.cons_append, List.cons_append, readFrom_cons, hm, Option.bind_some, readFrom_append,
    readFrom_inside, Option.bind_some, readFrom_cons]
  rfl

theorem readFrom_fields {fields : List (JsText × JsonTree ν' JsText)}
    (h : ∀ p ∈ fields, Reads number num g p.2) (stack : List (Frame ν))
    (before : List (JsText × JsonTree ν JsText)) (name : JsText) {m : Mode ν}
    {v : JsonTree ν JsText} (hdone : Done number m v)
    (hnodup : (before.map Prod.fst ++ name :: fields.map Prod.fst).Nodup) :
    readFrom number (.field before name :: stack, m)
        (writeFields id num asciiQuote fields ++ ['}']) =
      some (stack, .after
        (.object (before ++ (name, v) :: fields.map fun p => (id p.1, map g id p.2)))) := by
  induction fields generalizing before name m v with
  | nil =>
    have hnew : name ∉ before.map Prod.fst := by
      intro hmem
      exact (List.nodup_append.1 hnodup).2.2 name hmem name List.mem_cons_self rfl
    have hclose : stepAfter (.field before name :: stack) v '}' =
        some (stack, .after (.object (setField before name v))) := rfl
    show readFrom number _ ('}' :: []) = _
    rw [readFrom_cons, hdone.step _ rfl, hclose, setField_new hnew]
    rfl
  | cons p fields ih =>
    obtain ⟨m', hdone', hvalue⟩ := (h p List.mem_cons_self).value
    have hnew : name ∉ before.map Prod.fst := by
      intro hmem
      exact (List.nodup_append.1 hnodup).2.2 name hmem name List.mem_cons_self rfl
    have hcomma : stepAfter (.field before name :: stack) v ',' =
        some (.names (before ++ [(name, v)]) :: stack, .name) := by
      rw [← setField_new hnew]
      rfl
    have hnodup' : ((before ++ [(name, v)]).map Prod.fst ++ p.1 :: fields.map Prod.fst).Nodup := by
      rw [List.map_append, List.append_assoc]
      exact hnodup
    rw [writeFields, List.append_assoc, List.append_assoc, List.cons_append, List.cons_append,
      readFrom_cons]
    show (step number _ ',').bind _ = _
    rw [hdone.step _ rfl, hcomma, Option.bind_some]
    show readFrom number _ (asciiQuote p.1 ++ ':' :: _) = _
    rw [readFrom_name _ _ _ rfl, readFrom_append, (hvalue _ rfl).1, Option.bind_some,
      ih (fun p hmem => h p (List.mem_cons_of_mem _ hmem)) _ _ hdone' hnodup', List.append_assoc]
    rfl

/-- **Every value** with readable numbers and distinct names is read as itself. -/
theorem reads {v : JsonTree ν' JsText}
    (h : v.Everywhere (Readable number num g) List.Nodup) : Reads number num g v := by
  induction v with
  | null => exact ⟨'n', _, .after .null, rfl, rfl, by decide, .inl rfl, fun _ _ => rfl⟩
  | bool b =>
    cases b with
    | true => exact ⟨'t', _, .after (.bool true), rfl, rfl, by decide, .inl rfl, fun _ _ => rfl⟩
    | false => exact ⟨'f', _, .after (.bool false), rfl, rfl, by decide, .inl rfl, fun _ _ => rfl⟩
  | number x => exact reads_number h
  | string text =>
    refine ⟨'"', _, .after (.string text), rfl, rfl, by decide, .inl rfl, ?_⟩
    intro stack hstack
    exact (readFrom_inside stack text).trans (congrArg some (closeText_value hstack text))
  | array items ih =>
    rw [everywhere_array] at h
    cases items with
    | nil => exact ⟨'[', _, .after (.array []), rfl, rfl, by decide, .inl rfl, fun _ _ => rfl⟩
    | cons v items =>
      have hv := ih v List.mem_cons_self (h v List.mem_cons_self)
      have hitems : ∀ w ∈ items, Reads number num g w := fun w hmem =>
        ih w (List.mem_cons_of_mem _ hmem) (h w (List.mem_cons_of_mem _ hmem))
      -- The first item is read where an array may also end.
      obtain ⟨m, hdone, hvalue⟩ := hv.value
      refine ⟨'[', _, .after (.array (map g id v :: items.map (map g id))), rfl, rfl, by decide,
        .inl ?_, ?_⟩
      · rw [map_array]
        rfl
      · intro stack _
        show readFrom number (.array [] :: stack, .firstItem)
          ((write id num asciiQuote v ++ writeItems id num asciiQuote items) ++ [']']) = _
        rw [List.append_assoc, readFrom_append, (hvalue _ rfl).2, Option.bind_some,
          readFrom_items hitems stack [] hdone]
        rfl
  | object fields ih =>
    rw [everywhere_object] at h
    cases fields with
    | nil => exact ⟨'{', _, .after (.object []), rfl, rfl, by decide, .inl rfl, fun _ _ => rfl⟩
    | cons p fields =>
      have hv := ih p List.mem_cons_self (h.2 p List.mem_cons_self)
      have hfields : ∀ q ∈ fields, Reads number num g q.2 := fun q hmem =>
        ih q (List.mem_cons_of_mem _ hmem) (h.2 q (List.mem_cons_of_mem _ hmem))
      -- The first name is new, and `h.1` says that the others are.
      obtain ⟨m, hdone, hvalue⟩ := hv.value
      refine ⟨'{', _, .after (.object ((p.1, map g id p.2) ::
        fields.map fun p => (id p.1, map g id p.2))), rfl, rfl, by decide, .inl ?_, ?_⟩
      · rw [map_object]
        rfl
      · intro stack _
        show readFrom number (.names [] :: stack, .firstName)
          (((asciiQuote p.1 ++ ':' :: write id num asciiQuote p.2) ++
            writeFields id num asciiQuote fields) ++ ['}']) = _
        rw [List.append_assoc, List.append_assoc, List.cons_append,
          readFrom_name stack [] p.1 rfl, readFrom_append, (hvalue _ rfl).1, Option.bind_some,
          readFrom_fields hfields stack [] p.1 hdone h.1]
        rfl

/-- **What was written is read.** -/
theorem parse_write {v : JsonTree ν' JsText}
    (h : v.Everywhere (Readable number num g) List.Nodup) :
    parse number (write id num asciiQuote v) = some (map g id v) := by
  obtain ⟨m, hdone, hvalue⟩ := (reads h).value
  rw [parse, (hvalue [] rfl).1, Option.bind_some, hdone.finish]

end Tree

end RoundTrip

/-! ## Section 4: What is read has distinct names -/

section ReadKeyed

/-- Fields with distinct names and keyed values. -/
def FieldsKeyed (fields : List (JsText × JsonTree ν JsText)) : Prop :=
  (fields.map Prod.fst).Nodup ∧ ∀ p ∈ fields, p.2.Keyed

def Frame.Keyed : Frame ν → Prop
  | .array items => ∀ v ∈ items, v.Keyed
  | .names fields => FieldsKeyed fields
  | .field fields _ => FieldsKeyed fields

def Mode.Keyed : Mode ν → Prop
  | .value => True
  | .firstItem => True
  | .firstName => True
  | .name => True
  | .inside _ => True
  | .escaped _ => True
  | .unicode _ _ => True
  | .colon _ => True
  | .literal _ v => v.Keyed
  | .number _ => True
  | .after v => v.Keyed

/-- All that has been read so far is keyed. -/
def StateKeyed (s : State ν) : Prop := (∀ frame ∈ s.1, frame.Keyed) ∧ s.2.Keyed

theorem fieldsKeyed_setField {fields : List (JsText × JsonTree ν JsText)} {name : JsText}
    {v : JsonTree ν JsText} (h : FieldsKeyed fields) (hv : v.Keyed) :
    FieldsKeyed (setField fields name v) := by
  unfold setField
  by_cases hname : name ∈ fields.map Prod.fst
  · rw [if_pos hname]
    constructor
    · -- the name keeps its place
      have hnames : (fields.map fun p => if p.1 = name then (name, v) else p).map Prod.fst =
          fields.map Prod.fst := by
        rw [List.map_map]
        apply List.map_congr_left
        intro p _
        by_cases hp : p.1 = name
        · simp [hp]
        · simp [hp]
      rw [hnames]
      exact h.1
    · intro p hp
      obtain ⟨q, hq, he⟩ := List.mem_map.1 hp
      by_cases hn : q.1 = name
      · rw [if_pos hn] at he
        rw [← he]
        exact hv
      · rw [if_neg hn] at he
        rw [← he]
        exact h.2 q hq
  · rw [if_neg hname]
    constructor
    · rw [List.map_append]
      exact List.nodup_append.2 ⟨h.1, List.nodup_singleton name, by
        intro k hk k' hk' he
        rw [List.map_singleton, List.mem_singleton] at hk'
        rw [he, hk'] at hk
        exact hname hk⟩
    · intro p hp
      cases List.mem_append.1 hp with
      | inl hold => exact h.2 p hold
      | inr hnew =>
        rw [List.mem_singleton.1 hnew]
        exact hv

theorem keyed_array {items : List (JsonTree ν σ)} (h : ∀ v ∈ items, v.Keyed) :
    (JsonTree.array items).Keyed := everywhere_array.2 h

theorem keyed_object {fields : List (JsText × JsonTree ν JsText)} (h : FieldsKeyed fields) :
    (JsonTree.object fields).Keyed := everywhere_object.2 h

theorem forall_mem_append_singleton {items : List (JsonTree ν JsText)} {v : JsonTree ν JsText}
    (h : ∀ w ∈ items, w.Keyed) (hv : v.Keyed) : ∀ w ∈ items ++ [v], w.Keyed := by
  intro w hw
  cases List.mem_append.1 hw with
  | inl hold => exact h w hold
  | inr hnew =>
    rw [List.mem_singleton.1 hnew]
    exact hv

theorem keyed_start {stack : List (Frame ν)} {c : Char} {s : State ν}
    (hstack : ∀ frame ∈ stack, frame.Keyed) (h : start stack c = some s) : StateKeyed s := by
  have hnone : FieldsKeyed ([] : List (JsText × JsonTree ν JsText)) :=
    ⟨List.nodup_nil, fun p hp => by cases hp⟩
  unfold start at h
  split_ifs at h <;> cases h
  · exact ⟨hstack, trivial⟩
  · exact ⟨List.forall_mem_cons.2 ⟨List.forall_mem_nil _, hstack⟩, trivial⟩
  · exact ⟨List.forall_mem_cons.2 ⟨hnone, hstack⟩, trivial⟩
  · exact ⟨hstack, trivial⟩
  · exact ⟨hstack, trivial⟩
  · exact ⟨hstack, trivial⟩
  · exact ⟨hstack, trivial⟩

theorem keyed_stepAfter {stack : List (Frame ν)} {v : JsonTree ν JsText} {c : Char} {s : State ν}
    (hstack : ∀ frame ∈ stack, frame.Keyed) (hv : v.Keyed) (h : stepAfter stack v c = some s) :
    StateKeyed s := by
  unfold stepAfter at h
  by_cases hspace : JsonTexts.isSpace c = true
  · rw [if_pos hspace] at h
    cases h
    exact ⟨hstack, hv⟩
  rw [if_neg hspace] at h
  cases stack with
  | nil => cases h
  | cons frame stack =>
    have htop := hstack frame List.mem_cons_self
    have hrest : ∀ frame ∈ stack, frame.Keyed := fun f hf =>
      hstack f (List.mem_cons_of_mem _ hf)
    cases frame with
    | names fields => cases h
    | array items =>
      have hitems := forall_mem_append_singleton htop hv
      dsimp only at h
      split_ifs at h <;> cases h
      · exact ⟨List.forall_mem_cons.2 ⟨hitems, hrest⟩, trivial⟩
      · exact ⟨hrest, keyed_array hitems⟩
    | field fields name =>
      have hfields : FieldsKeyed (setField fields name v) := fieldsKeyed_setField htop hv
      dsimp only at h
      split_ifs at h <;> cases h
      · exact ⟨List.forall_mem_cons.2 ⟨hfields, hrest⟩, trivial⟩
      · exact ⟨hrest, keyed_object hfields⟩

theorem keyed_closeText {stack : List (Frame ν)} (hstack : ∀ frame ∈ stack, frame.Keyed)
    (text : JsText) : StateKeyed (closeText stack text) := by
  cases stack with
  | nil => exact ⟨hstack, trivial⟩
  | cons frame stack => cases frame <;> exact ⟨hstack, trivial⟩

variable {number : List Char → Option ν}

/-- **One character** keeps what has been read keyed. -/
theorem keyed_step {s s' : State ν} {c : Char} (hs : StateKeyed s)
    (h : step number s c = some s') : StateKeyed s' := by
  obtain ⟨stack, m⟩ := s
  have htail : ∀ frame ∈ stack.tail, frame.Keyed := fun f hf => hs.1 f (List.mem_of_mem_tail hf)
  cases m with
  | value =>
    unfold step at h
    dsimp only at h
    split_ifs at h
    · cases h
      exact hs
    · exact keyed_start hs.1 h
  | firstItem =>
    unfold step at h
    dsimp only at h
    split_ifs at h
    · cases h
      exact hs
    · cases h
      exact ⟨htail, keyed_array fun v hv => by cases hv⟩
    · exact keyed_start hs.1 h
  | firstName =>
    unfold step at h
    dsimp only at h
    split_ifs at h <;> cases h
    · exact hs
    · -- The empty object: no name, so none twice.
      exact ⟨htail, keyed_object ⟨List.nodup_nil, fun p hp => by cases hp⟩⟩
    · exact ⟨hs.1, trivial⟩
  | name =>
    unfold step at h
    dsimp only at h
    split_ifs at h <;> cases h
    · exact hs
    · exact ⟨hs.1, trivial⟩
  | inside text =>
    unfold step at h
    dsimp only at h
    split_ifs at h <;> cases h
    · exact keyed_closeText hs.1 text
    · exact ⟨hs.1, trivial⟩
    · exact ⟨hs.1, trivial⟩
  | escaped text =>
    have h : stepEscaped stack text c = some s' := h
    unfold stepEscaped at h
    split_ifs at h <;> cases h <;> exact ⟨hs.1, trivial⟩
  | unicode text digits =>
    obtain ⟨d, -, hd⟩ := Option.map_eq_some_iff.1 h
    rw [← hd]
    split_ifs
    · exact ⟨hs.1, trivial⟩
    · exact ⟨hs.1, trivial⟩
  | colon name =>
    unfold step at h
    dsimp only at h
    split_ifs at h
    · cases h
      exact hs
    · cases stack with
      | nil => cases h
      | cons frame stack =>
        cases frame with
        | array items => cases h
        | names fields =>
          cases h
          -- The names are looked at when the object closes, by `keyed_stepAfter`.
          have htop : FieldsKeyed fields := hs.1 (.names fields) List.mem_cons_self
          exact ⟨List.forall_mem_cons.2 ⟨htop, htail⟩, trivial⟩
        | field fields name => cases h
  | literal rest v =>
    unfold step at h
    dsimp only at h
    split_ifs at h <;> cases h
    · exact ⟨hs.1, hs.2⟩
    · exact ⟨hs.1, hs.2⟩
  | number token =>
    unfold step at h
    dsimp only at h
    split_ifs at h
    · cases h
      exact ⟨hs.1, trivial⟩
    · obtain ⟨x, -, hx⟩ := Option.bind_eq_some_iff.1 h
      have hv : (JsonTree.number x : JsonTree ν JsText).Keyed := trivial
      exact keyed_stepAfter hs.1 hv hx
  | after v => exact keyed_stepAfter hs.1 hs.2 h

/-- **No object** that was read has two fields of one name. -/
theorem keyed_parse {input : List Char} {v : JsonTree ν JsText}
    (h : parse number input = some v) : v.Keyed := by
  -- By induction on the text: a step at a time.
  have hread : ∀ (input : List Char) (s s' : State ν), StateKeyed s →
      readFrom number s input = some s' → StateKeyed s' := by
    intro input
    induction input with
    | nil =>
      intro s s' hs h
      cases h
      exact hs
    | cons c input ih =>
      intro s s' hs h
      rw [readFrom_cons] at h
      obtain ⟨t, ht, hrest⟩ := Option.bind_eq_some_iff.1 h
      exact ih t s' (keyed_step hs ht) hrest
  obtain ⟨s, hs, hfinish⟩ := Option.bind_eq_some_iff.1 h
  have hstart : StateKeyed (([], .value) : State ν) :=
    ⟨List.forall_mem_nil _, trivial⟩
  have hkeyed := hread input ([], .value) s hstart hs
  -- A text ends after its value, or in the digits of a number.
  obtain ⟨stack, m⟩ := s
  cases stack with
  | cons frame stack => cases hfinish
  | nil =>
    cases m with
    | after w =>
      cases hfinish
      exact hkeyed.2
    | number token =>
      obtain ⟨x, -, hx⟩ := Option.map_eq_some_iff.1 hfinish
      rw [← hx]
      trivial
    | value => cases hfinish
    | firstItem => cases hfinish
    | firstName => cases hfinish
    | name => cases hfinish
    | inside text => cases hfinish
    | escaped text => cases hfinish
    | unicode text digits => cases hfinish
    | colon name => cases hfinish
    | literal rest w => cases hfinish

end ReadKeyed

end JsonTree
