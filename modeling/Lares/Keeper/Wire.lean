import Lares.Framework.Lines
import Mathlib

/-! # What the sockets of the keeper have in common

    Lines of text, the clock, and the forms of the fields that are checked
    before anything else.
-/

namespace Lares.Keeper

abbrev Text := List Char
abbrev Bytes := List UInt8
/-- `Date.now()` -/
abbrev Time := Nat

/-- `/^[…]{min,max}$/` -/
def within (ok : Char → Bool) (min max : Nat) (s : Text) : Bool :=
  s.all ok && decide (min ≤ s.length) && decide (s.length ≤ max)

def isHex (c : Char) : Bool := c.isDigit || ('a' ≤ c && c ≤ 'f')

def isUrlSafe (c : Char) : Bool := c.isAlphanum || c = '_' || c = '-'

def isTurnIdChar (c : Char) : Bool := c.isAlphanum || c ∈ ['.', '_', ':', '-']

/-- `/^[a-z][a-z0-9-]{1,30}$/` -/
def isAgent : Text → Bool
  | [] => false
  | first :: rest => first.isLower && within (fun c => c.isLower || c.isDigit || c = '-') 1 30 rest

def isIncarnation : Text → Bool := within (fun c => isHex c || c = '-') 36 36

def isSession : Text → Bool := within isUrlSafe 1 64

/-- A digest or a key, in hexadecimal. -/
def isDigest : Text → Bool := within isHex 64 64

def isSafeInteger (n : Int) : Bool := decide (n.natAbs ≤ 9007199254740991)

end Lares.Keeper
