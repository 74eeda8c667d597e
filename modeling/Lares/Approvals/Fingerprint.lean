import Lares.Gateway.NumberText
import Mathlib

/-! # The payload fingerprint

    `payloadFingerprint`: what a card of approval was shown for, as a digest of
    the name of the tool and a canonical text of its input.

    * **Values** are values in memory: an array or an object is at an address,
      and one address may stand in several places of a value. There is no cycle,
      so a value is a tree.
    * **`canonical`** writes the fields of an object by name, and has one set of
      the addresses it has seen, which it never leaves.
    * **The digest** is taken of the bytes of the text, in UTF-8.
-/

namespace Lares.Approvals

open Gateway JsonTree

/-! ## Section 1: Values -/

/-- A value in memory. -/
inductive Value where
  | undefined
  | null
  | bool (b : Bool)
  | number (x : ℚ)
  | string (text : JsText)
  | array (address : ℕ) (items : List Value)
  | object (address : ℕ) (fields : List (JsText × Value))

namespace Value

mutual

/-- The value as JSON; `undefined` is `null` there. -/
def json : Value → JsonTree ℚ JsText
  | undefined => .null
  | null => .null
  | bool b => .bool b
  | number x => .number x
  | string text => .string text
  | array _ items => .array (jsonItems items)
  | object _ fields => .object (jsonFields fields)

def jsonItems : List Value → List (JsonTree ℚ JsText)
  | [] => []
  | v :: items => json v :: jsonItems items

def jsonFields : List (JsText × Value) → List (JsText × JsonTree ℚ JsText)
  | [] => []
  | (k, v) :: fields => (k, json v) :: jsonFields fields

end

mutual

/-- The addresses in a value, as often as they occur. -/
def addresses : Value → List ℕ
  | array address items => address :: addressesOfItems items
  | object address fields => address :: addressesOfFields fields
  | _ => []

def addressesOfItems : List Value → List ℕ
  | [] => []
  | v :: items => addresses v ++ addressesOfItems items

def addressesOfFields : List (JsText × Value) → List ℕ
  | [] => []
  | (_, v) :: fields => addresses v ++ addressesOfFields fields

end

/-- Nothing is referenced from two places. -/
def Unshared (v : Value) : Prop := v.addresses.Nodup

end Value

/-- What JSON can say: its numbers are doubles, and no object has two fields of one name. -/
abbrev IsJson (t : JsonTree ℚ JsText) : Prop :=
  t.Everywhere (fun x => binary64 x = .finite x) List.Nodup

/-- The input of a call. -/
structure Input where
  value : Value
  valid : IsJson value.json

/-- The same up to the order of fields. -/
def Input.SameJson (v w : Input) : Prop := v.value.json.Same w.value.json

/-! ## Section 2: The canonical text -/

/-- What is done with the addresses seen so far, of which there may be more afterwards. -/
abbrev Visit (α : Type) := List ℕ → α × List ℕ

/-- One after another, each with what the ones before it have seen. -/
def visitAll {α : Type} : List (Visit α) → Visit (List α)
  | [], seen => ([], seen)
  | f :: fs, seen =>
      let first := f seen
      let rest := visitAll fs first.2
      (first.1 :: rest.1, rest.2)

def ascii (text : List Char) : JsText := text.map unit

/-- `[cycle]` -/
def cycle : List Char := ['[', 'c', 'y', 'c', 'l', 'e', ']']

/-- A key and its value in `parts`. -/
def part (p : JsText × Visit JsText) : Visit JsText := fun seen =>
  (quoteJSONString p.1 ++ unit ':' :: (p.2 seen).1, (p.2 seen).2)

mutual

/-- `canonical` -/
def canonical : Value → Visit JsText
  | .undefined => fun seen => (ascii ['n', 'u', 'l', 'l'], seen)
  | .null => fun seen => (ascii ['n', 'u', 'l', 'l'], seen)
  | .bool true => fun seen => (ascii ['t', 'r', 'u', 'e'], seen)
  | .bool false => fun seen => (ascii ['f', 'a', 'l', 's', 'e'], seen)
  | .number x => fun seen => (ascii (numberText x), seen)
  | .string text => fun seen => (quoteJSONString text, seen)
  | .array address items => fun seen =>
      if address ∈ seen then (ascii ('"' :: cycle ++ ['"']), seen)
      else
        let texts := visitAll (canonicalItems items) (address :: seen)
        (unit '[' :: [unit ','].intercalate texts.1 ++ [unit ']'], texts.2)
  | .object address fields => fun seen =>
      if address ∈ seen then (ascii ('"' :: cycle ++ ['"']), seen)
      else
        let keys := sortedKeys.apply (canonicalFields fields)
        let parts := visitAll (keys.map part) (address :: seen)
        (unit '{' :: [unit ','].intercalate parts.1 ++ [unit '}'], parts.2)

def canonicalItems : List Value → List (Visit JsText)
  | [] => []
  | v :: items => canonical v :: canonicalItems items

def canonicalFields : List (JsText × Value) → List (JsText × Visit JsText)
  | [] => []
  | (k, v) :: fields => (k, canonical v) :: canonicalFields fields

end

/-! ## Section 3: The digest -/

def isSurrogate (c : CodePoint) : Bool := 55296 ≤ c.val && c.val < 57344

/-- Half of a pair becomes U+FFFD. -/
def replaceSurrogate (c : CodePoint) : CodePoint := if isSurrogate c then ⟨65533, by decide⟩ else c

/-- `isWellFormed`: no half of a pair stands alone. -/
def isWellFormed (text : JsText) : Bool := (codePoints text).all fun c => !isSurrogate c

/-- A text in UTF-8. -/
def utf8 (text : JsText) : ByteArray :=
  (String.ofList ((codePoints text).map fun c => Char.ofNat (replaceSurrogate c).val)).toByteArray

variable {δ : Type}

/-- `payloadFingerprint` -/
def payloadFingerprint (sha256 : ByteArray → δ) (toolName : JsText) (input : Input) : δ :=
  sha256 (utf8 (toolName ++ unit ' ' :: (canonical input.value []).1))

end Lares.Approvals
