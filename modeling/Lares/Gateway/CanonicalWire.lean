import Lares.Framework.JsonSyntax

/-! # The canonical encoding of the gateway wire

    `gatewayCanonical` and `parseGatewayDocument` of the TypeScript side, and
    `canonical` of the Python side.

    * **JavaScript**: values as `JSON.parse` returns them. The names of an
      object that are array indices come first, in ascending order, whatever
      order they were added in.
    * **Python**: the same documents with texts of code points.
-/

namespace Lares.Gateway

open JsonTree

/-! ## Section 1: Numbers -/

/-- A number that `JSON.parse` returns. -/
inductive Number where
  | finite (x : ℚ)
  | infinite (negative : Bool)
deriving DecidableEq

/-- Rounding to an integer, ties to even. -/
def roundHalfEven (x : ℚ) : ℤ :=
  let below := ⌊x⌋
  if x - below < 1 / 2 then below
  else if 1 / 2 < x - below then below + 1
  else if below % 2 = 0 then below
  else below + 1

/-- The double next to a number. -/
def binary64 (x : ℚ) : Number :=
  let exponent : ℤ := max (Int.log 2 |x| - 52) (-1074)
  let rounded : ℚ := roundHalfEven (x / 2 ^ exponent) * 2 ^ exponent
  if 2 ^ 1024 ≤ |rounded| then .infinite (x < 0) else .finite rounded

/-- The number of a JSON token: a sign, digits without a leading zero, a fraction, an exponent. -/
def parseNumber (token : List Char) : Option Number :=
  let negative := token.head? = some '-'
  let unsigned := if negative then token.tail else token
  let whole := unsigned.takeWhile Char.isDigit
  let rest := unsigned.dropWhile Char.isDigit
  let hasFraction := rest.head? = some '.'
  let fraction := if hasFraction then rest.tail.takeWhile Char.isDigit else []
  let rest := if hasFraction then rest.tail.dropWhile Char.isDigit else rest
  let hasExponent := rest.head? = some 'e' ∨ rest.head? = some 'E'
  let signed := if hasExponent then rest.tail else []
  let below := signed.head? = some '-'
  let exponent := if below ∨ signed.head? = some '+' then signed.tail else signed
  if whole ≠ [] ∧ (whole.head? = some '0' → whole = ['0']) ∧ (hasFraction → fraction ≠ []) ∧
      (hasExponent → exponent ≠ []) ∧ exponent.all Char.isDigit ∧ (hasExponent ∨ rest = []) then
    let mantissa : ℚ := Nat.ofDigitChars 10 (whole ++ fraction) 0 / 10 ^ fraction.length
    let power : ℚ := 10 ^ Nat.ofDigitChars 10 exponent 0
    let scaled := if below then mantissa / power else mantissa * power
    some (binary64 (if negative then -scaled else scaled))
  else none

def Number.ofInt (n : ℤ) : Number := .finite n

/-- `Number.MAX_SAFE_INTEGER` -/
def MAX_SAFE_INTEGER : Nat := 2 ^ 53 - 1

/-- `Number.isSafeInteger(v)`, and which one it is. -/
def Number.safeInteger : Number → Option ℤ
  | .finite x => if x.den = 1 ∧ x.num.natAbs ≤ MAX_SAFE_INTEGER then some x.num else none
  | .infinite _ => none

/-- A safe integer as text, in either language. -/
def decimal (n : ℤ) : List Char :=
  if n < 0 then '-' :: Nat.toDigits 10 n.natAbs else Nat.toDigits 10 n.natAbs

/-! ## Section 2: TypeScript -/

abbrev JsValue := JsonTree Number JsText

/-- An ASCII character as a code unit. -/
def unit (c : Char) : CodeUnit := Fin.ofNat 65536 c.toNat

def digitsValue (key : JsText) : Nat := key.foldl (fun n u => 10 * n + (u.val - 48)) 0

/-- The array index that a name is, if it is one. -/
def arrayIndex (key : JsText) : Option Nat :=
  if key = (Nat.toDigits 10 (digitsValue key)).map unit ∧ digitsValue key < 2 ^ 32 - 1 then
    some (digitsValue key)
  else none

def indexOf (key : JsText) : Nat := (arrayIndex key).getD 0

/-- The order of own properties: array indices in ascending order, then the other names as they
    were added. -/
def ownProperties : Arrangement JsText where
  apply fields :=
    (fields.filter fun p => (arrayIndex p.1).isSome).insertionSort
        (fun p q => indexOf p.1 ≤ indexOf q.1) ++
      fields.filter fun p => !(arrayIndex p.1).isSome
  perm fields := by
    apply ((List.perm_insertionSort _ _).append_right _).trans
    exact List.filter_append_perm (fun p => (arrayIndex p.1).isSome) fields
  natural g fields := by
    rw [List.map_append, List.filter_map, List.filter_map]
    congr 1
    symm
    apply List.map_insertionSort
    intro p _ q _
    rfl

/-- `Object.keys(v).sort()` -/
def sortedKeys : Arrangement JsText := ownProperties.andThen (.byName id)

mutual

/-- `ordered`: a safe number is from here on the integer it is. -/
def ordered : JsValue → Option (JsonTree ℤ JsText)
  | .null => some .null
  | .bool b => some (.bool b)
  | .number x => x.safeInteger.map .number
  | .string text => some (.string text)
  | .array items => (orderedItems items).map .array
  | .object fields => (orderedFields fields).map fun fields => .object (sortedKeys.apply fields)

def orderedItems : List JsValue → Option (List (JsonTree ℤ JsText))
  | [] => some []
  | v :: items => (ordered v).bind fun v => (orderedItems items).map (v :: ·)

def orderedFields : List (JsText × JsValue) → Option (List (JsText × JsonTree ℤ JsText))
  | [] => some []
  | (k, v) :: fields =>
      (ordered v).bind fun v => (orderedFields fields).map ((k, v) :: ·)

end

def isHigh (u : CodeUnit) : Bool := 55296 ≤ u.val && u.val < 56320
def isLow (u : CodeUnit) : Bool := 56320 ≤ u.val && u.val < 57344

def unicodeEscape (u : CodeUnit) : List CodeUnit := ('\\' :: 'u' :: hex4 u.val).map unit

/-- One code unit in `QuoteJSONString`, where a surrogate stands alone. -/
def quoteUnit (u : CodeUnit) : List CodeUnit :=
  if u.val = 8 then ['\\', 'b'].map unit
  else if u.val = 9 then ['\\', 't'].map unit
  else if u.val = 10 then ['\\', 'n'].map unit
  else if u.val = 12 then ['\\', 'f'].map unit
  else if u.val = 13 then ['\\', 'r'].map unit
  else if u.val = 34 ∨ u.val = 92 then [unit '\\', u]
  else if u.val < 32 ∨ isHigh u ∨ isLow u then unicodeEscape u
  else [u]

/-- The code points in `QuoteJSONString`; a pair of surrogates stays as it is. -/
def quoteUnits : JsText → List CodeUnit
  | [] => []
  | [u] => quoteUnit u
  | u :: u' :: rest =>
      if isHigh u ∧ isLow u' then u :: u' :: quoteUnits rest
      else quoteUnit u ++ quoteUnits (u' :: rest)

/-- `QuoteJSONString` -/
def quoteJSONString (text : JsText) : List CodeUnit := unit '"' :: quoteUnits text ++ [unit '"']

/-- `JSON.stringify` -/
def stringify (v : JsonTree ℤ JsText) : List CodeUnit :=
  (v.arrange ownProperties).write unit (fun n => (decimal n).map unit) quoteJSONString

/-- `.replace(/[^\x20-\x7e]/g, ...)` on one code unit. -/
def replaced (u : CodeUnit) : List Char :=
  if 32 ≤ u.val ∧ u.val ≤ 126 then [Char.ofNat u.val] else '\\' :: 'u' :: hex4 u.val

/-- A byte of a text in ASCII. -/
def byte (c : Char) : UInt8 := UInt8.ofNat c.toNat

/-- `gatewayCanonical` -/
def gatewayCanonical (value : JsValue) : Option (List UInt8) :=
  (ordered value).map fun v => ((stringify v).flatMap replaced).map byte

/-- `GATEWAY_RPC_BYTES` -/
def GATEWAY_RPC_BYTES : Nat := 8192

/-- `new TextDecoder('utf-8',{fatal:true}).decode(raw)`, which drops a byte order mark. -/
def decodeUtf8 (raw : List UInt8) : Option (List Char) :=
  raw.toByteArray.utf8Decode?.map fun text =>
    if text.toList.head? = some '\uFEFF' then text.toList.tail else text.toList

/-- `parseGatewayDocument` -/
def parseGatewayDocument (raw : List UInt8) : Option JsValue :=
  if raw.length = 0 ∨ raw.length > GATEWAY_RPC_BYTES then none
  else
    ((decodeUtf8 raw).bind (JsonTree.parse parseNumber)).bind fun value =>
      if gatewayCanonical value = some raw then some value else none

/-! ## Section 3: Python -/

abbrev CodePoint := Fin 1114112

/-- A text in Python; it too may hold half of a surrogate pair. -/
abbrev PyText := List CodePoint

abbrev PyValue := JsonTree ℤ PyText

/-- `ESCAPE_DCT` and the replacement of `py_encode_basestring_ascii`. -/
def escapeCodePoint (c : CodePoint) : List Char :=
  if c.val = 92 then ['\\', '\\']
  else if c.val = 34 then ['\\', '"']
  else if c.val = 8 then ['\\', 'b']
  else if c.val = 12 then ['\\', 'f']
  else if c.val = 10 then ['\\', 'n']
  else if c.val = 13 then ['\\', 'r']
  else if c.val = 9 then ['\\', 't']
  else if 32 ≤ c.val ∧ c.val ≤ 126 then [Char.ofNat c.val]
  else if c.val < 65536 then '\\' :: 'u' :: hex4 c.val
  else
    '\\' :: 'u' :: hex4 (55296 + (c.val - 65536) / 1024 % 1024) ++
      '\\' :: 'u' :: hex4 (56320 + (c.val - 65536) % 1024)

def encodeBasestringAscii (text : PyText) : List Char :=
  '"' :: text.flatMap escapeCodePoint ++ ['"']

/-- `canonical`: `json.dumps` with sorted keys and compact separators, encoded. -/
def canonical (value : PyValue) : List UInt8 :=
  ((value.arrange (.byName id)).write id decimal encodeBasestringAscii).map byte

/-! ## Section 4: Documents -/

/-- What both sides can say: integers are safe, and no object has two fields of one name. -/
structure Document where
  tree : JsonTree ℤ JsText
  valid : tree.Everywhere (fun n => n.natAbs ≤ MAX_SAFE_INTEGER) List.Nodup

/-- The code points of a text; a pair of surrogates is one code point. -/
def codePoints : JsText → PyText
  | [] => []
  | [u] => [Fin.ofNat 1114112 u.val]
  | u :: u' :: rest =>
      if isHigh u ∧ isLow u' then
        Fin.ofNat 1114112 (65536 + (u.val - 55296) * 1024 + (u'.val - 56320)) :: codePoints rest
      else Fin.ofNat 1114112 u.val :: codePoints (u' :: rest)

namespace Document

/-- The document in TypeScript. -/
def js (d : Document) : JsValue := d.tree.map Number.ofInt id

/-- The document in Python. -/
def py (d : Document) : PyValue := d.tree.map id codePoints

/-- The same up to the order of fields. -/
def Same (d e : Document) : Prop := d.tree.Same e.tree

end Document

/-- Where JavaScript lists a name: array indices first. -/
def propertyOrder (key : JsText) : ℕ ⊕ₗ JsText :=
  match arrayIndex key with
  | some n => toLex (.inl n)
  | none => toLex (.inr key)

/-- JavaScript lists these names in the order of their code points. -/
def KeysAgree (names : List JsText) : Prop :=
  ∀ k ∈ names, ∀ k' ∈ names, propertyOrder k ≤ propertyOrder k' ↔ codePoints k ≤ codePoints k'

/-- So does it in every object of the document. -/
def Document.KeysAgree (d : Document) : Prop :=
  d.tree.Everywhere (fun _ => True) Gateway.KeysAgree

end Lares.Gateway
