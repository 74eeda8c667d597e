import Lares.Framework.Words

/-! # The note stores

    A directory of markdown, searched and read by agents on behalf of a reader.

    * **Scope**: the three scopes, read off the frontmatter, and who may see a note.
    * **The store**: which notes the walk finds and what reading a path gives.
    * **Search**: notes with all tokens, else the first twenty of the notes with a most
      distinctive token. The reader's filter comes last.
    * **Reading and backlinks**.
-/

namespace Lares.Notes

open Lines

abbrev Text := List Char

/-! ## Section 1: Scope -/

inductive StoreName where
  | brain
  | atlas
deriving DecidableEq, Repr

inductive NoteScope where
  | org
  | participants
  | private_
deriving DecidableEq, Repr

structure ScopeInfo where
  scope : NoteScope
  participants : List Text
  owner : Option Text
deriving DecidableEq, Repr

def storeDefaultScope : StoreName → NoteScope
  | .brain => .private_
  | .atlas => .org

/-- `key:\s*(.+)$` at the start of a line, trimmed. When only white space follows, `\s*` gives back
    one character for the dot, if there is one that the dot takes. -/
def matchKey (key : Text) (line : Text) : Option Text :=
  if (key ++ [':']).isPrefixOf line then
    let after := line.drop (key.length + 1)
    let value := trimStart after
    if value ≠ [] then some (trim (value.takeWhile fun c => !isTerminator c))
    else if after.any fun c => !isTerminator c then some []
    else none
  else none

/-- The first line of the head that the expression matches at. -/
def findKey (key : Text) (atStart : Bool) : Text → Option Text
  | [] => none
  | c :: rest =>
      match if atStart then matchKey key (c :: rest) else none with
      | some value => some value
      | none => findKey key (isTerminator c) rest

/-- `replace(/^\[|\]$/g, "")` -/
def stripBrackets (s : Text) : Text :=
  let s := if s.head? = some '[' then s.drop 1 else s
  if s.getLast? = some ']' then s.dropLast else s

def noteScope (raw : Text) (store : StoreName) : ScopeInfo :=
  let fallback : ScopeInfo := ⟨storeDefaultScope store, [], none⟩
  let text := unix raw
  if !("---\n".toList.isPrefixOf text) then fallback
  else
    match before? "\n---".toList (text.drop 4) with
    | none => fallback
    | some head =>
        let get (key : String) := findKey key.toList true head
        let participants := (((stripBrackets ((get "participants").getD [])).splitOn ',').map
          trim).filter fun s => s ≠ []
        let owner := get "owner"
        match get "scope" with
        | some declared =>
            if declared = "org".toList then ⟨.org, participants, owner⟩
            else if declared = "participants".toList then ⟨.participants, participants, owner⟩
            else if declared = "private".toList then ⟨.private_, participants, owner⟩
            else { fallback with participants, owner }
        | none => { fallback with participants, owner }

structure Reader where
  userId : Text
  store : StoreName
deriving DecidableEq, Repr

def visibleTo (raw : Text) (reader : Reader) : Bool :=
  let info := noteScope raw reader.store
  match info.scope with
  | .org => true
  | .participants => info.participants.any fun id => id = reader.userId
  | .private_ =>
      match info.owner with
      | some owner => decide (owner = reader.userId)
      | none => decide (reader.store = .brain)

/-! ## Section 2: The store -/

inductive NoteError where
  | storeUnhealthy
  | noteNotFound (path : Text)
  | pathEscapesStore (path : Text)
  | fileSystem (code : Text)
deriving DecidableEq, Repr

/-- What reading a path of the store gives. -/
inductive Reading where
  | text (raw : Text)
  /-- `ENOENT` or `EISDIR` -/
  | missing
  | refused (code : Text)
deriving DecidableEq, Repr

structure Store where
  /-- The paths that the walk finds, in its order. -/
  notes : List Text
  distinct : notes.Nodup
  read : Text → Reading
  /-- `resolvesWithin` for a path below the root. -/
  within : Text → Bool

structure NoteReadOptions where
  allowEmpty : Bool
deriving DecidableEq, Repr

def listNotes (store : Store) (options : NoteReadOptions) : Except NoteError (List Text) :=
  if store.notes = [] ∧ options.allowEmpty = false then .error .storeUnhealthy else .ok store.notes

/-- The content that a search looks at; none for a file that cannot be read. -/
def Store.cachedContent (store : Store) (path : Text) : Option Text :=
  match store.read path with
  | .text raw => some raw
  | _ => none

/-- A control character, a backslash, an absolute path or a segment with a leading dot. -/
def refusedPath (notePath : Text) : Bool :=
  decide (notePath = []) || notePath.any (fun c => c = '\\' || c.toNat < 0x20 || c.toNat = 0x7f) ||
    decide (notePath.head? = some '/') ||
    (notePath.splitOn '/').any fun segment => segment.head? = some '.'

def resolveInStore (notePath : Text) (store : Store) : Except NoteError Unit :=
  if refusedPath notePath then .error (.pathEscapesStore notePath)
  else if !store.within notePath then .error (.pathEscapesStore notePath)
  else .ok ()

/-! ## Section 3: Search -/

/-- What Unicode says of characters and texts. -/
structure Unicode where
  toLowerCase : Text → Text
  /-- `\p{L}` and `\p{N}` -/
  isWord : Char → Bool
  /-- Simple case folding. -/
  fold : Char → Char

variable (u : Unicode)

/-- An empty piece between two separators is shorter than a token. -/
def tokensOf (query : Text) : List Text :=
  ((u.toLowerCase query).splitOnP fun c => !u.isWord c).filter fun t => 2 ≤ Lines.jsLength t

structure Scored where
  relPath : Text
  present : List Text
  n : Nat
  raw : Text
deriving DecidableEq, Repr

def score (store : Store) (tokens : List Text) (relPath : Text) : Scored :=
  let cached := store.cachedContent relPath
  let haystack := match cached with
    | some raw => u.toLowerCase relPath ++ '\n' :: u.toLowerCase raw
    | none => u.toLowerCase relPath
  let present := tokens.filter fun t => decide (t <:+: haystack)
  ⟨relPath, present, present.length, cached.getD []⟩

/-- Over path and content, as often as the query has the token. -/
def docFreq (scored : List Scored) (t : Text) : Nat :=
  (scored.map fun s => s.present.count t).sum

def minDf (tokens : List Text) (scored : List Scored) : Nat :=
  ((tokens.map (docFreq scored)).min?).getD 0

/-- The note has a token of the lowest document frequency. -/
def anchored (tokens : List Text) (scored : List Scored) (s : Scored) : Bool :=
  s.present.any fun t => tokens.any fun a => a = t ∧ docFreq scored a = minDf tokens scored

/-- The notes with all tokens, otherwise the anchored fallback. -/
def selectHits (tokens : List Text) (scored : List Scored) : List Scored :=
  let all := scored.filter fun s => s.n = tokens.length
  if all ≠ [] then all
  else if minDf tokens scored = 0 then []
  else ((scored.filter (anchored tokens scored)).insertionSort fun a b => b.n ≤ a.n).take 20

structure SearchResult where
  hits : List Text
  files : Nat
deriving DecidableEq, Repr

/-- `rawByPath.get(p) ?? ""`; the last entry of a map counts. -/
def rawByPath (scored : List Scored) (path : Text) : Text :=
  (List.lookup path (scored.map fun s => (s.relPath, s.raw)).reverse).getD []

def searchNotes (query : Text) (store : Store) (reader : Option Reader)
    (options : NoteReadOptions) : Except NoteError SearchResult := do
  let files ← listNotes store options
  let tokens := tokensOf u query
  if tokens = [] then return ⟨[], files.length⟩
  let scored := files.map (score u store tokens)
  let hits := (selectHits tokens scored).map Scored.relPath
  let visible := match reader with
    | none => hits
    | some reader => hits.filter fun path => visibleTo (rawByPath scored path) reader
  return ⟨visible, files.length⟩

/-! ## Section 4: Reading and backlinks -/

structure NoteContent where
  path : Text
  content : Text
  lines : Nat
deriving DecidableEq, Repr

def countLines (content : Text) : Nat :=
  let parts := content.splitOn '\n'
  if parts.getLast? = some [] then parts.length - 1 else parts.length

def readNote (notePath : Text) (store : Store) (reader : Option Reader) :
    Except NoteError NoteContent := do
  resolveInStore notePath store
  let _ ← listNotes store ⟨false⟩
  match store.read notePath with
  | .missing => throw (.noteNotFound notePath)
  | .refused code => throw (.fileSystem code)
  | .text content =>
      if reader.any fun reader => !visibleTo content reader then throw (.noteNotFound notePath)
      else return ⟨notePath, content, countLines content⟩

/-- `basename(notePath, ".md")` -/
def stemOf (notePath : Text) : Text :=
  let base := ((notePath.rdropWhile fun c => c = '/').splitOn '/').getLastD []
  if ".md".toList.isSuffixOf base ∧ base ≠ ".md".toList then base.take (base.length - 3) else base

/-- `\[\[stem(?=[|#\]])[^\]]*\]\]` at the start of the text, letters folded. -/
def linkAt (stem : Text) (s : Text) : Bool :=
  let target := (s.drop 2).take stem.length
  let rest := (s.drop 2).drop stem.length
  decide (s.take 2 = ['[', '[']) && decide (target.map u.fold = stem.map u.fold) &&
    rest.head?.any (fun c => c = '|' || c = '#' || c = ']') &&
    decide ((rest.dropWhile fun c => c ≠ ']').take 2 = [']', ']'])

structure BacklinkResult where
  path : Text
  backlinks : List Text
  files : Nat
deriving DecidableEq, Repr

def findBacklinks (notePath : Text) (store : Store) (reader : Option Reader)
    (options : NoteReadOptions) : Except NoteError BacklinkResult := do
  resolveInStore notePath store
  let files ← listNotes store options
  let stem := stemOf notePath
  let backlinks := files.filter fun relPath =>
    decide (relPath ≠ notePath) &&
      match store.cachedContent relPath with
      | none => false
      | some raw =>
          raw.tails.any (linkAt u stem) && reader.all fun reader => visibleTo raw reader
  return ⟨notePath, backlinks, files.length⟩

end Lares.Notes
