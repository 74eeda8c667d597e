import Lares.Framework.Lines
import Mathlib

/-! # Origin stamps

    A vault file says where its content came from, in one line of its
    frontmatter block.

    * **The writer** scans the lines of the block and sets the last line with the
      key, or a new one after `type:` or at the top.
    * **The reader** cuts the block out of the text and takes the first place
      where the key begins a line.
    * **Exactness**: reading back, writing twice and leaving the other lines
      alone, together, on exactly the files that are described.
-/

namespace Lares.VaultFormat

open Lines

abbrev Text := List Char

/-! ## Section 1: Origins -/

inductive Origin where
  | owner
  | agent
  | synced
  | thirdParty
  | system
deriving DecidableEq

def Origin.text : Origin → Text
  | .owner => ['o', 'w', 'n', 'e', 'r']
  | .agent => ['a', 'g', 'e', 'n', 't']
  | .synced => ['s', 'y', 'n', 'c', 'e', 'd']
  | .thirdParty => ['t', 'h', 'i', 'r', 'd', '_', 'p', 'a', 'r', 't', 'y']
  | .system => ['s', 'y', 's', 't', 'e', 'm']

def ORIGIN_CLASSES : List Origin := [.owner, .agent, .synced, .thirdParty, .system]

/-- `isOrigin`, with the class that it finds. -/
def isOrigin (value : Text) : Option Origin := ORIGIN_CLASSES.find? fun o => decide (o.text = value)

/-- `lares_origin:` -/
def keyColon : Text := ['l', 'a', 'r', 'e', 's', '_', 'o', 'r', 'i', 'g', 'i', 'n', ':']

/-- `type:` -/
def typeColon : Text := ['t', 'y', 'p', 'e', ':']

/-- `---` -/
def dashes : Text := ['-', '-', '-']

def originFrontmatterLine (origin : Origin) : Text := keyColon ++ ' ' :: origin.text

/-! ## Section 2: The writer -/

def joinLines (lines : List Text) : Text := ['\n'].intercalate lines

def closes (line : Text) : Bool := dashes.isPrefixOf line

/-- The first line, the block and the lines from the closing one on. -/
def block? (opens : Text → Bool) : List Text → Option (Text × List Text × List Text)
  | [] => none
  | first :: rest =>
      if opens first && rest.any closes then
        some (first, rest.takeWhile (!closes ·), rest.dropWhile (!closes ·))
      else none

/-- The last line that begins with `start`, between the lines before and after it. -/
def splitLast (start : Text) : List Text → Option (List Text × Text × List Text)
  | [] => none
  | line :: lines =>
      match splitLast start lines with
      | some (before, found, after) => some (line :: before, found, after)
      | none => if start.isPrefixOf line then some ([], line, lines) else none

/-- The lines of a block before and after the line that is set. -/
def place (block : List Text) : List Text × List Text :=
  match splitLast keyColon block with
  | some (before, _, after) => (before, after)
  | none =>
      match splitLast typeColon block with
      | some (before, found, after) => (before ++ [found], after)
      | none => ([], block)

/-- The lines with `line` set; without a block, under a new one. -/
def stamped (opens : Text → Bool) (fresh : List Text) (line : Text) (lines : List Text) :
    List Text :=
  match block? opens lines with
  | none => fresh ++ lines
  | some (first, block, rest) =>
      first :: (place block).1 ++ line :: (place block).2 ++ rest

/-- The first line break is `\r\n`. -/
def crlf (raw : Text) : Bool :=
  decide ('\n' ∈ raw) && decide ((raw.takeWhile (· ≠ '\n')).getLast? = some '\r')

def upsertOriginFrontmatter (raw : Text) (origin : Origin) : Text :=
  let newLine := originFrontmatterLine origin
  let result := joinLines
    (stamped (· = dashes) [dashes, newLine, dashes, []] newLine ((unix raw).splitOn '\n'))
  if crlf raw then dos result else result

/-! ## Section 3: The reader -/

/-- What follows the first `lares_origin:` at the start of a line, where the text begins a line
    or not. -/
def afterKey : Bool → Text → Option Text
  | _, [] => none
  | atStart, c :: text =>
      if atStart && keyColon.isPrefixOf (c :: text) then some ((c :: text).drop keyColon.length)
      else afterKey (isTerminator c) text

/-- `\s*(.+)$`, and `trim`. Where only white space follows the group has no more to take. -/
def originValue (rest : Text) : Text :=
  trim ((trimStart rest).takeWhile fun c => !isTerminator c)

/-- The match in a block. -/
def readKey (block : Text) : Option Origin :=
  (afterKey true block).bind fun rest => isOrigin (originValue rest)

def readOriginFrontmatter (raw : Text) : Option Origin :=
  if (dashes ++ ['\n']).isPrefixOf (unix raw) then
    (before? ('\n' :: dashes) ((unix raw).drop 4)).bind readKey
  else none

end Lares.VaultFormat
