import Lares.Framework.Lines
import Mathlib

/-! # From a vault file to a Notion page

    * **Escaping**: a `<` after an even run of backslashes, or every special
      character of a text that must stay literal.
    * **Inline**: code spans are copied, wikilinks become mentions, the rest is
      escaped.
    * **Blocks**: fences are copied, quote groups become one block each, and a code
      span that is open at the end of a line is joined with the next one.

    The output is in pieces, each marked with where its characters come from.
-/

namespace Lares.Notion.Translate

open Lines

abbrev Text := List Char

/-! ## Section 1: Escaping -/

def specials : Text := ['\\', '*', '~', '`', '$', '[', ']', '<', '>', '{', '}', '|', '^']

/-- After a run of backslashes that is odd or not. -/
def escapeAnglesFrom : Bool → Text → Text
  | _, [] => []
  | odd, c :: text =>
      if c = '\\' then c :: escapeAnglesFrom (!odd) text
      else if c = '<' ∧ odd = false then '\\' :: '<' :: escapeAnglesFrom false text
      else c :: escapeAnglesFrom false text

def escapeAngles (text : Text) : Text := escapeAnglesFrom false text

def escapeLiteral (text : Text) : Text :=
  text.flatMap fun c => if c ∈ specials then ['\\', c] else [c]

def attrSafe (url : Text) : Text :=
  url.flatMap fun c =>
    if c = '"' then ['%', '2', '2']
    else if c = '<' then ['%', '3', 'C']
    else if c = '>' then ['%', '3', 'E']
    else [c]

inductive RefusedTag where
  | page
  | database
  | transcript
deriving DecidableEq

def RefusedTag.text : RefusedTag → Text
  | .page => ['p', 'a', 'g', 'e']
  | .database => ['d', 'a', 't', 'a', 'b', 'a', 's', 'e']
  | .transcript => ['t', 'r', 'a', 'n', 's', 'c', 'r', 'i', 'p', 't']

/-- `/<(page|database|transcript)/gi`, after its `<`. -/
def refusedTag? (rest : Text) : Option RefusedTag :=
  [RefusedTag.page, .database, .transcript].find? fun tag =>
    tag.text.isPrefixOf (rest.map Char.toLower)

/-- On line `line`, after a run of backslashes that is odd or not. -/
def assertPushSafeFrom (line : Nat) : Bool → Text → Except (RefusedTag × Nat) Unit
  | _, [] => .ok ()
  | odd, c :: text =>
      if c = '\\' then assertPushSafeFrom line (!odd) text
      else
        match if c = '<' ∧ odd = false then refusedTag? text else none with
        | some tag => .error (tag, line)
        | none => assertPushSafeFrom (if c = '\n' then line + 1 else line) false text

def assertPushSafe (markdown : Text) : Except (RefusedTag × Nat) Unit :=
  assertPushSafeFrom 1 false markdown

/-! ## Section 2: Pieces -/

/-- Where the characters of an output come from. -/
inductive Origin where
  /-- A line of a fenced code block, copied. -/
  | fence
  /-- An inline code span, copied. -/
  | code
  /-- Text of the vault, a page title or a url, escaped. -/
  | text
  /-- The renderer itself. -/
  | markup
deriving DecidableEq

structure Piece where
  origin : Origin
  chars : Text

def markdownOf (pieces : List Piece) : Text := pieces.flatMap Piece.chars

/-! ## Section 3: Inline -/

structure Wikilink where
  target : Text
  aliasText : Option Text
  /-- The whole match. -/
  raw : Text

def isTargetChar (c : Char) : Bool := decide (c ∉ ['[', ']', '|'])

def isAliasChar (c : Char) : Bool := decide (c ∉ ['[', ']'])

def closing : Text := [']', ']']

/-- `WIKILINK` at the start of a text. -/
def wikilinkAt (text : Text) : Option Wikilink :=
  if ['[', '['].isPrefixOf text then
    let target := (text.drop 2).takeWhile isTargetChar
    let rest := (text.drop 2).dropWhile isTargetChar
    if target = [] then none
    else if closing.isPrefixOf rest then
      some ⟨target, none, '[' :: '[' :: target ++ closing⟩
    else if rest.head? = some '|' then
      let label := rest.tail.takeWhile isAliasChar
      if closing.isPrefixOf (rest.tail.dropWhile isAliasChar) then
        some ⟨target, some label, '[' :: '[' :: target ++ '|' :: label ++ closing⟩
      else none
    else none
  else none

structure ResolvedWikiLink where
  url : Text
  title : Text

abbrev Resolver := Text → Option ResolvedWikiLink

/-- `<mention-page url="` -/
def mentionStart : Text :=
  ['<', 'm', 'e', 'n', 't', 'i', 'o', 'n', '-', 'p', 'a', 'g', 'e', ' ', 'u', 'r', 'l', '=', '"']

/-- `</mention-page>` -/
def mentionEnd : Text :=
  ['<', '/', 'm', 'e', 'n', 't', 'i', 'o', 'n', '-', 'p', 'a', 'g', 'e', '>']

def renderLink (resolve : Resolver) (link : Wikilink) : List Piece :=
  match resolve link.target with
  | none => [⟨.text, escapeLiteral link.raw⟩]
  | some page =>
      let label := if isBlank (link.aliasText.getD []) then page.title else link.aliasText.getD []
      [⟨.markup, mentionStart⟩, ⟨.text, attrSafe page.url⟩, ⟨.markup, ['"', '>']⟩,
        ⟨.text, escapeLiteral label⟩, ⟨.markup, mentionEnd⟩]

/-- `before` is the text since the last link, reversed; `skip` characters belong to that link. -/
def renderPlainFrom (resolve : Resolver) : Nat → Text → Text → List Piece
  | _, before, [] => [⟨.text, escapeAngles before.reverse⟩]
  | skip + 1, before, _ :: text => renderPlainFrom resolve skip before text
  | 0, before, c :: text =>
      match wikilinkAt (c :: text) with
      | some link =>
          ⟨.text, escapeAngles before.reverse⟩ :: renderLink resolve link ++
            renderPlainFrom resolve (link.raw.length - 1) [] text
      | none => renderPlainFrom resolve 0 (c :: before) text

def renderPlainText (resolve : Resolver) (text : Text) : List Piece :=
  renderPlainFrom resolve 0 [] text

/-- ``(.*?)`` up to `ticks`. -/
def contentTo (ticks : Text) : Text → Option Text
  | [] => none
  | c :: text =>
      if ticks.isPrefixOf (c :: text) then some []
      else if isTerminator c then none
      else (contentTo ticks text).map (c :: ·)

/-- `CODE_SPAN` at the start of a text, with `n` backticks at most. -/
def codeSpanUpTo : Nat → Text → Option Text
  | 0, _ => none
  | n + 1, text =>
      let ticks := List.replicate (n + 1) '`'
      match contentTo ticks (text.drop (n + 1)) with
      | some content => some (ticks ++ content ++ ticks)
      | none => codeSpanUpTo n text

def codeSpanAt (text : Text) : Option Text :=
  codeSpanUpTo (text.takeWhile (· = '`')).length text

def renderInlineFrom (resolve : Resolver) : Nat → Text → Text → List Piece
  | _, before, [] => renderPlainText resolve before.reverse
  | skip + 1, before, _ :: line => renderInlineFrom resolve skip before line
  | 0, before, c :: line =>
      match codeSpanAt (c :: line) with
      | some span =>
          renderPlainText resolve before.reverse ++
            ⟨.code, span⟩ :: renderInlineFrom resolve (span.length - 1) [] line
      | none => renderInlineFrom resolve 0 (c :: before) line

def renderInline (resolve : Resolver) (line : Text) : List Piece :=
  renderInlineFrom resolve 0 [] line

def hasUnclosedFrom : Nat → Text → Bool
  | _, [] => false
  | skip + 1, _ :: line => hasUnclosedFrom skip line
  | 0, c :: line =>
      match codeSpanAt (c :: line) with
      | some span => hasUnclosedFrom (span.length - 1) line
      | none => decide (c = '`') || hasUnclosedFrom 0 line

def hasUnclosedCodeSpan (line : Text) : Bool := hasUnclosedFrom 0 line

/-! ## Section 4: Fences and quotes -/

structure FenceState where
  char : Char
  length : Nat

/-- A line without up to three characters `p` at its start. -/
def dropUpTo3 (p : Char → Bool) (line : Text) : Text :=
  line.drop (min 3 (line.takeWhile p).length)

/-- The run of a fence, and what follows. -/
def fenceRun (line : Text) : Option (FenceState × Text) :=
  let text := dropUpTo3 (· = ' ') line
  let tick := if text.head? = some '~' then '~' else '`'
  let run := text.takeWhile (· = tick)
  if 3 ≤ run.length then some (⟨tick, run.length⟩, text.drop run.length) else none

def opensFence (line : Text) : Option FenceState := (fenceRun line).map Prod.fst

def closesFence (line : Text) (fence : FenceState) : Bool :=
  match fenceRun line with
  | some (run, rest) =>
      isBlank rest && decide (run.char = fence.char) && decide (fence.length ≤ run.length)
  | none => false

def isQuoteLine (line : Text) : Bool :=
  ((line.take 4).dropWhile isSpace).head? = some '>'

/-- `replace(/^\s{0,3}> ?/, "")` of a quote line. -/
def stripQuoteMarker (line : Text) : Text :=
  let rest := (line.dropWhile isSpace).drop 1
  if rest.head? = some ' ' then rest.tail else rest

structure CalloutStyle where
  icon : Text
  color : Text

def blue : Text := ['b', 'l', 'u', 'e']

def gray : Text := ['g', 'r', 'a', 'y']

def undefined : Text := ['u', 'n', 'd', 'e', 'f', 'i', 'n', 'e', 'd']

/-- `CALLOUT_STYLE`, and the member that every object has. -/
def calloutStyle : List (Text × CalloutStyle) :=
  [(['s', 'u', 'm', 'm', 'a', 'r', 'y'], ⟨['💡'], blue⟩),
    (['q', 'u', 'o', 't', 'e'], ⟨['💬'], gray⟩),
    (['w', 'a', 'r', 'n', 'i', 'n', 'g'], ⟨['⚠', '\uFE0F'], ['y', 'e', 'l', 'l', 'o', 'w']⟩),
    (['i', 'm', 'p', 'o', 'r', 't', 'a', 'n', 't'], ⟨['❗'], ['r', 'e', 'd']⟩),
    (['t', 'o', 'd', 'o'], ⟨['☑', '\uFE0F'], ['g', 'r', 'e', 'e', 'n']⟩),
    (['c', 'o', 'n', 's', 't', 'r', 'u', 'c', 't', 'o', 'r'], ⟨undefined, undefined⟩)]

def defaultCallout : CalloutStyle := ⟨['📝'], gray⟩

def styleOf (type : Text) : CalloutStyle :=
  match calloutStyle.find? fun entry => decide (entry.1 = type.map Char.toLower) with
  | some entry => entry.2
  | none => defaultCallout

def isTypeChar (c : Char) : Bool := c.isAlphanum || decide (c = '_') || decide (c = '-')

/-- `CALLOUT_MARKER`: the type and the title. -/
def calloutMarker (first : Text) : Option (Text × Text) :=
  if ['[', '!'].isPrefixOf first then
    let type := (first.drop 2).takeWhile isTypeChar
    let rest := (first.drop 2).dropWhile isTypeChar
    if (type.head?.any Char.isAlpha) && decide (rest.head? = some ']') then
      let rest := if rest.tail.head? = some '+' ∨ rest.tail.head? = some '-' then rest.tail.tail
        else rest.tail
      let title := trimStart rest
      if title.any isTerminator then none else some (type, title)
    else none
  else none

/-- `<br>` -/
def lineBreak : Text := ['<', 'b', 'r', '>']

def joinBreaks (resolve : Resolver) (lines : List Text) : List Piece :=
  [⟨.markup, lineBreak⟩].intercalate (lines.map (renderInline resolve))

/-- `<callout icon="${style.icon}" color="${style.color}">` -/
def calloutStart (style : CalloutStyle) : Text :=
  ['<', 'c', 'a', 'l', 'l', 'o', 'u', 't', ' ', 'i', 'c', 'o', 'n', '=', '"'] ++ style.icon ++
    ['"', ' ', 'c', 'o', 'l', 'o', 'r', '=', '"'] ++ style.color ++ ['"', '>']

/-- `</callout>` -/
def calloutEnd : Text := ['<', '/', 'c', 'a', 'l', 'l', 'o', 'u', 't', '>']

/-- The lines of one block. -/
def renderQuoteGroup (resolve : Resolver) (group : List Text) : List (List Piece) :=
  let bodyOf lines := (lines.map fun line => trimEnd (stripQuoteMarker line)).filter
    fun line => !isBlank line
  match calloutMarker (trim (stripQuoteMarker (group.headD []))) with
  | some (type, title) =>
      let parts := (if title = [] then [] else [title]) ++ bodyOf group.tail
      let joined := joinBreaks resolve parts
      let start := [⟨.markup, calloutStart (styleOf type)⟩]
      if markdownOf joined = [] then [start, [⟨.markup, calloutEnd⟩]]
      else [start, ⟨.markup, ['\t']⟩ :: joined, [⟨.markup, calloutEnd⟩]]
  | none =>
      let bodyLines := bodyOf group
      if bodyLines = [] then [] else [⟨.markup, ['>', ' ']⟩ :: joinBreaks resolve bodyLines]

/-! ## Section 5: The page -/

def isFenceLine (line : Text) : Bool := decide (trim line = ['-', '-', '-'])

/-- The lines under the frontmatter, when it is closed. -/
def bodyLines (source : Text) : List Text :=
  let lines := (unix source).splitOn '\n'
  let rest := lines.tail.dropWhile fun line => !isFenceLine line
  if lines.head?.any isFenceLine && !rest.isEmpty then rest.tail else lines

/-- `/^(#{5,6}) /` -/
def isDeepHeading (line : Text) : Bool :=
  let level := (line.takeWhile (· = '#')).length
  (decide (level = 5) || decide (level = 6)) && decide ((line.drop level).head? = some ' ')

/-- The line with as many of the next ones as close its code span, and how many they are. -/
def joinOpen (joined : Text) (count : Nat) (rest : List Text) : Option (Text × Nat) :=
  if hasUnclosedCodeSpan joined then
    match rest with
    | [] => none
    | next :: rest =>
        if isBlank next || isQuoteLine next || (opensFence next).isSome then none
        else joinOpen (joined ++ lineBreak ++ next) (count + 1) rest
  else some (joined, count)

/-- The lines of the output; `skip` lines belong to the block before. -/
def renderLines (resolve : Resolver) : Nat → Option FenceState → List Text → List (List Piece)
  | _, _, [] => []
  | skip + 1, fence, _ :: lines => renderLines resolve skip fence lines
  | 0, some fence, line :: lines =>
      [⟨.fence, line⟩] ::
        renderLines resolve 0 (if closesFence line fence then none else some fence) lines
  | 0, none, line :: lines =>
      match opensFence line with
      | some opened => [⟨.fence, line⟩] :: renderLines resolve 0 (some opened) lines
      | none =>
          if isQuoteLine line then
            let more := lines.takeWhile isQuoteLine
            renderQuoteGroup resolve (line :: more) ++ renderLines resolve more.length none lines
          else if isDeepHeading line then
            renderInline resolve line :: renderLines resolve 0 none lines
          else
            match joinOpen line 0 lines with
            | some (joined, count) =>
                renderInline resolve joined :: renderLines resolve count none lines
            | none => renderInline resolve line :: renderLines resolve 0 none lines

def isBlankLine (line : List Piece) : Bool := isBlank (markdownOf line)

/-- The pieces of `renderWikiPage`'s markdown. -/
def renderPieces (resolve : Resolver) (source : Text) : List Piece :=
  let out := renderLines resolve 0 none (bodyLines source)
  [⟨.markup, ['\n']⟩].intercalate ((out.dropWhile isBlankLine).rdropWhile isBlankLine)

def renderWikiPage (resolve : Resolver) (source : Text) : Text :=
  markdownOf (renderPieces resolve source)

end Lares.Notion.Translate
