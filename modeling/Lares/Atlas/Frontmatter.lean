import Lares.Framework.Words

/-! # Atlas frontmatter

    The block between two fences of dashes is read line by line into a record and edited
    line by line, never written out from the record.

    * **Reading**: the fences, the value of a key, the record. The last line of a key
      counts.
    * **Editing**: the first line of a key is replaced unless its value is the new one as
      it stands; a key without a line is put in behind `type:` or first.
-/

namespace Lares.Atlas

open Lines

abbrev Text := List Char

def fence : Text := ['-', '-', '-']

def linesOf (raw : Text) : List Text := raw.splitOn '\n'

def joinLines (lines : List Text) : Text := ['\n'].intercalate lines

/-! ## Section 1: Reading -/

/-- The index of the closing fence. -/
def frontmatterEnd (raw : Text) : Except String Nat :=
  let lines := linesOf raw
  if lines.head?.map trim ≠ some fence then
    .error "atlas: note has no frontmatter block (first line must be `---`)"
  else
    match (lines.drop 1).idxOf? fence with
    | none => .error "atlas: note has an unterminated frontmatter block (no closing `---`)"
    | some i => .ok (i + 1)

def isQuote (c : Char) : Bool := c = '"' || c = '\''

/-- `replace(/^["']|["']$/g, "")`. -/
def unquote (t : Text) : Text :=
  let t := if t.head?.any isQuote then t.drop 1 else t
  if t.getLast?.any isQuote then t.dropLast else t

inductive Scalar where
  | text (value : Text)
  | items (values : List Text)
deriving DecidableEq, Repr

def parseScalar (text : Text) : Scalar :=
  let t := trim text
  if t = [] then .text []
  else if t.head? = some '[' ∧ t.getLast? = some ']' then
    let inner := trim (t.dropLast.drop 1)
    if inner = [] then .items []
    else .items (((inner.splitOn ',').map fun s => unquote (trim s)).filter fun s => s ≠ [])
  else .text (unquote t)

/-- The properties of the record of their own, in the order of their first assignment. -/
abbrev Record := List (Text × Scalar)

def Record.get (record : Record) (key : Text) : Option Scalar :=
  List.lookup key record

/-- The one name that an assignment does not make a property of. -/
def protoName : Text := "__proto__".toList

/-- `frontmatter[key] = value` -/
def Record.assign (record : Record) (key : Text) (value : Scalar) : Record :=
  if key = protoName then record
  else if record.any fun entry => entry.1 = key then
    record.map fun entry => if entry.1 = key then (key, value) else entry
  else record ++ [(key, value)]

/-- `indexOf(":")` with `colon <= 0` for none: what stands before the colon, trimmed, and what
    stands behind it. -/
def splitColon (line : Text) : Option (Text × Text) :=
  match line.idxOf? ':' with
  | none => none
  | some colon =>
      if colon = 0 then none else some (trim (line.take colon), line.drop (colon + 1))

def readLine (record : Record) (line : Text) : Record :=
  if trim line = [] ∨ (trimStart line).head? = some '#' ∨ line.head? = some ' ' then record
  else
    match splitColon line with
    | none => record
    | some (key, text) => record.assign key (parseScalar text)

structure ParsedNote where
  frontmatter : Record
  body : Text
  raw : Text
deriving DecidableEq, Repr

/-- The lines `1` to `last - 1`. -/
def blockOf (last : Nat) (lines : List Text) : List Text := (lines.take last).drop 1

def parseNote (raw : Text) : Except String ParsedNote := do
  let last ← frontmatterEnd raw
  let lines := linesOf raw
  let frontmatter := (blockOf last lines).foldl readLine []
  return { frontmatter, body := joinLines (lines.drop (last + 1)), raw }

/-! ## Section 2: Editing -/

abbrev Updates := List (Text × Text)

/-- Where the keys without a line go. -/
def insertAt (last : Nat) (lines : List Text) : Nat :=
  match (blockOf last lines).findIdx? fun line => "type:".toList.isPrefixOf line with
  | some i => i + 2
  | none => 1

def renderLine (key value : Text) : Text := key ++ ':' :: ' ' :: value

/-- One line of the block against the keys that have had no line yet. -/
def rewriteLine (pending : Updates) (line : Text) : Text × Updates :=
  match splitColon line with
  | none => (line, pending)
  | some (key, text) =>
      if line.head? = some ' ' then (line, pending)
      else
        match List.lookup key pending with
        | none => (line, pending)
        | some value =>
            (if trim text ≠ value then renderLine key value else line,
              pending.filter fun update => update.1 ≠ key)

def rewriteBlock (pending : Updates) : List Text → List Text × Updates
  | [] => ([], pending)
  | line :: block =>
      let (line, pending) := rewriteLine pending line
      let (block, pending) := rewriteBlock pending block
      (line :: block, pending)

/-- The updates come in the order of `Object.entries`. -/
def setFrontmatterKeys (raw : Text) (updates : Updates) : Except String Text := do
  let last ← frontmatterEnd raw
  let lines := linesOf raw
  let at_ := insertAt last lines
  let (block, pending) := rewriteBlock updates (blockOf last lines)
  let lines := lines.take 1 ++ block ++ lines.drop last
  let inserts := pending.map fun update => renderLine update.1 update.2
  return joinLines (lines.take at_ ++ inserts ++ lines.drop at_)

end Lares.Atlas
