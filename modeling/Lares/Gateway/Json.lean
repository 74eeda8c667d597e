import Mathlib

/-! # JSON values as the gateway sees them

    The Python values that `parse_json` returns, with the few operations the
    evidence parsers use on them. A finite float is the rational number it is
    equal to, so comparing it with an integer means what `==` means there.
-/

namespace Lares.Gateway

/-- A value that `json.loads` can return. -/
inductive Json where
  | null
  | bool (b : Bool)
  | int (n : Int)
  | float (x : Rat)
  | str (s : String)
  | arr (items : List Json)
  | obj (fields : List (String × Json))

namespace Json

/-- `key in document` -/
def hasKey (fields : List (String × Json)) (key : String) : Bool :=
  fields.any (·.1 == key)

/-- `document.get(key, default)` -/
def getD (fields : List (String × Json)) (key : String) (default : Json) : Json :=
  ((fields.find? (·.1 == key)).map (·.2)).getD default

/-- `document.get(key)`: `None` when the key is missing, as for a null value. -/
def get (fields : List (String × Json)) (key : String) : Json := getD fields key .null

/-- `value is None` -/
def isNull : Json → Bool
  | .null => true
  | _ => false

/-- `value == text` -/
def isText (value : Json) (text : String) : Bool :=
  match value with
  | .str s => s == text
  | _ => false

/-- `isinstance(value, str) and value in permitted` -/
def isOneOf (value : Json) (permitted : List String) : Bool :=
  match value with
  | .str s => permitted.contains s
  | _ => false

/-- `value == 0`, which `False` and `0.0` are as well. -/
def isZero : Json → Bool
  | .int n => n == 0
  | .bool b => !b
  | .float x => x == 0
  | _ => false

/-- `bool(value)` -/
def truthy : Json → Bool
  | .null => false
  | .bool b => b
  | .int n => n != 0
  | .float x => x != 0
  | .str s => s != ""
  | .arr items => !items.isEmpty
  | .obj fields => !fields.isEmpty

/-- `isinstance(value, dict)` -/
def asDict : Json → Option (List (String × Json))
  | .obj fields => some fields
  | _ => none

/-- `isinstance(value, list)` -/
def asList : Json → Option (List Json)
  | .arr items => some items
  | _ => none

/-- `isinstance(value, str) and value` -/
def asNonempty : Json → Option String
  | .str s => if s = "" then none else some s
  | _ => none

end Json

end Lares.Gateway
