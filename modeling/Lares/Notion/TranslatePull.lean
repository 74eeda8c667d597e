import Lares.Notion.Translate
import Mathlib

/-! # From a Notion page to a vault file

    The reverse of the renderer, which shares its code spans, fences and quotes.

    * **Unescaping**: by the parity of a run in prose, by pairs in a literal.
    * **Inline**: tags become links or their label, escaped links are unescaped.
    * **Blocks**: lines are classified, and a blank line is put between blocks.
-/

namespace Lares.Notion.TranslatePull

open Lines Translate

/-! ## Section 1: Unescaping -/

/-- After a run of backslashes that is not written yet. -/
def unescapeAngleFrom : Nat → Text → Text
  | run, [] => List.replicate run '\\'
  | run, c :: text =>
      if c = '\\' then unescapeAngleFrom (run + 1) text
      else if c = '<' ∧ run % 2 = 1 then
        List.replicate (run - 1) '\\' ++ c :: unescapeAngleFrom 0 text
      else List.replicate run '\\' ++ c :: unescapeAngleFrom 0 text

def unescapeAngleOnly (text : Text) : Text := unescapeAngleFrom 0 text

def unescapeLiteralPairs : Text → Text
  | [] => []
  | [c] => [c]
  | c :: d :: text =>
      if c = '\\' then d :: unescapeLiteralPairs text else c :: unescapeLiteralPairs (d :: text)

/-! ## Section 2: Tags and escaped links -/

/-- Where a tag is read: `<name attribute="quoted" />`. -/
inductive TagState where
  | start
  | name
  | space
  | key
  | equals
  | quoted
  | unquoted
  | slash
  | closed
deriving DecidableEq

/-- `[\w-]` -/
def isNameChar (c : Char) : Bool := c.isAlphanum || decide (c = '_') || decide (c = '-')

def tagEnd (c : Char) : Option TagState :=
  if isSpace c then some .space
  else if c = '/' then some .slash
  else if c = '>' then some .closed
  else none

def tagStep : TagState → Char → Option TagState
  | .start, c => if c.isAlpha then some .name else none
  | .name, c => if isNameChar c then some .name else tagEnd c
  | .space, c => if isNameChar c then some .key else tagEnd c
  | .key, c =>
      if isNameChar c then some .key else if c = '=' then some .equals else none
  | .equals, c => if c = '"' then some .quoted else none
  | .quoted, c => if c = '"' then some .unquoted else some .quoted
  | .unquoted, c => tagEnd c
  | .slash, c => if c = '>' then some .closed else none
  | .closed, _ => none

/-- The text to the end of a tag, and whether it closes itself. -/
def tagFrom : TagState → Text → Option (Text × Bool)
  | _, [] => none
  | state, c :: text =>
      match tagStep state c with
      | none => none
      | some next =>
          if next = .closed then some ([c], decide (state = .slash))
          else (tagFrom next text).map fun out => (c :: out.1, out.2)

structure Tag where
  name : Text
  /-- What follows the name, to the end of the tag. -/
  attrs : Text
  selfClosing : Bool
  /-- The whole match. -/
  raw : Text

def tagAt (text : Text) : Option Tag :=
  if text.head? = some '<' then
    (tagFrom .start text.tail).map fun out =>
      ⟨out.1.takeWhile isNameChar, out.1.dropWhile isNameChar, out.2, '<' :: out.1⟩
  else none

/-- `\[\[` -/
def literalStart : Text := ['\\', '[', '\\', '[']

/-- `\]\]` -/
def literalEnd : Text := ['\\', ']', '\\', ']']

/-- `[\s\S]*?\\\]\\\]` -/
def throughEnd : Text → Option Text
  | [] => none
  | c :: text =>
      if literalEnd.isPrefixOf (c :: text) then some literalEnd
      else (throughEnd text).map (c :: ·)

def literalAt (text : Text) : Option Text :=
  if literalStart.isPrefixOf text then (throughEnd (text.drop 4)).map (literalStart ++ ·) else none

inductive Span where
  | literal (raw : Text)
  | tag (tag : Tag)

/-- `SPAN` at the start of a text. -/
def spanAt (text : Text) : Option Span :=
  match literalAt text with
  | some raw => some (.literal raw)
  | none => (tagAt text).map .tag

/-- `\bkey="([^"]*)"`, after a word character or not. -/
def valueFrom (key : Text) : Bool → Text → Option Text
  | _, [] => none
  | word, c :: text =>
      let value := (c :: text).drop (key.length + 2)
      if word = false ∧ (key ++ ['=', '"']).isPrefixOf (c :: text) ∧ '"' ∈ value then
        some (value.takeWhile (· ≠ '"'))
      else valueFrom key (c.isAlphanum || decide (c = '_')) text

def valueOf (key attrs : Text) : Option Text := valueFrom key false attrs

/-! ## Section 3: Inline -/

abbrev PageResolver := Text → Option Text

/-- `mention-page` -/
def mentionPage : Text := ['m', 'e', 'n', 't', 'i', 'o', 'n', '-', 'p', 'a', 'g', 'e']

/-- What a tag and its label leave. -/
def tagText (resolvePage : PageResolver) (tag : Tag) (label : Text) : Text :=
  if tag.name.map Char.toLower = mentionPage then
    match (valueOf ['u', 'r', 'l'] tag.attrs <|> valueOf ['i', 'd'] tag.attrs).bind resolvePage with
    | some target => '[' :: '[' :: target ++ [']', ']']
    | none => label
  else label

def closeTag (name : Text) : Text := '<' :: '/' :: name ++ ['>']

/-- `backslashRunBefore`, one character on. -/
def nextRun (run : Nat) (c : Char) : Nat := if c = '\\' then run + 1 else 0

/-- `before` is the text since the cursor, reversed, and `run` the backslashes before.
    Of the next characters `keep` belong to an inert tag, then `skip` to a span. -/
def parsePlainFrom (resolvePage : PageResolver) : Nat → Nat → Nat → Text → Text → Text
  | _, _, _, before, [] => unescapeAngleOnly before.reverse
  | keep + 1, skip, run, before, c :: text =>
      parsePlainFrom resolvePage keep skip (nextRun run c) (c :: before) text
  | 0, skip + 1, run, before, c :: text =>
      parsePlainFrom resolvePage 0 skip (nextRun run c) before text
  | 0, 0, run, before, c :: text =>
      match spanAt (c :: text) with
      | none => parsePlainFrom resolvePage 0 0 (nextRun run c) (c :: before) text
      | some (.literal raw) =>
          unescapeAngleOnly before.reverse ++ unescapeLiteralPairs raw ++
            parsePlainFrom resolvePage 0 (raw.length - 1) (nextRun run c) [] text
      | some (.tag tag) =>
          if run % 2 = 1 then
            parsePlainFrom resolvePage (tag.raw.length - 1) 0 (nextRun run c) (c :: before) text
          else if tag.selfClosing then
            unescapeAngleOnly before.reverse ++
              parsePlainFrom resolvePage 0 (tag.raw.length - 1) (nextRun run c) [] text
          else
            match before? (closeTag tag.name) ((c :: text).drop tag.raw.length) with
            | none =>
                parsePlainFrom resolvePage (tag.raw.length - 1) 0 (nextRun run c) (c :: before) text
            | some label =>
                unescapeAngleOnly before.reverse ++
                  tagText resolvePage tag (unescapeLiteralPairs label) ++
                  parsePlainFrom resolvePage 0
                    (tag.raw.length + label.length + (closeTag tag.name).length - 1)
                    (nextRun run c) [] text

def parsePlainText (resolvePage : PageResolver) (text : Text) : Text :=
  parsePlainFrom resolvePage 0 0 0 [] text

def inlineFrom (resolvePage : PageResolver) : Nat → Text → Text → Text
  | _, before, [] => parsePlainText resolvePage before.reverse
  | skip + 1, before, _ :: line => inlineFrom resolvePage skip before line
  | 0, before, c :: line =>
      match codeSpanAt (c :: line) with
      | some span =>
          parsePlainText resolvePage before.reverse ++ span ++
            inlineFrom resolvePage (span.length - 1) [] line
      | none => inlineFrom resolvePage 0 (c :: before) line

def renderInlineFromNotion (resolvePage : PageResolver) (line : Text) : Text :=
  inlineFrom resolvePage 0 [] line

/-! ## Section 4: Quotes and callouts -/

/-- `split(sep)`, with the part so far, reversed. -/
def splitFrom (sep : Text) : Nat → Text → Text → List Text
  | _, part, [] => [part.reverse]
  | skip + 1, part, _ :: text => splitFrom sep skip part text
  | 0, part, c :: text =>
      if sep.isPrefixOf (c :: text) then part.reverse :: splitFrom sep (sep.length - 1) [] text
      else splitFrom sep 0 (c :: part) text

def quoteLines (resolvePage : PageResolver) (body : Text) : List Text :=
  (splitFrom lineBreak 0 [] body).map fun part =>
    '>' :: ' ' :: renderInlineFromNotion resolvePage part

/-- `<callout icon="` -/
def iconStart : Text :=
  ['<', 'c', 'a', 'l', 'l', 'o', 'u', 't', ' ', 'i', 'c', 'o', 'n', '=', '"']

/-- `" color="` -/
def colorStart : Text := ['"', ' ', 'c', 'o', 'l', 'o', 'r', '=', '"']

/-- `CALLOUT_OPEN`: the icon and the color. -/
def calloutOpen (line : Text) : Option (Text × Text) :=
  if iconStart.isPrefixOf line then
    let rest := line.drop iconStart.length
    let icon := rest.takeWhile (· ≠ '"')
    let rest := rest.dropWhile (· ≠ '"')
    if colorStart.isPrefixOf rest then
      let rest := rest.drop colorStart.length
      let color := rest.takeWhile (· ≠ '"')
      if rest.dropWhile (· ≠ '"') = ['"', '>'] then some (icon, color) else none
    else none
  else none

/-- `CALLOUT_STYLE_REVERSE` -/
def calloutStyleReverse : List (Text × Text) :=
  [(['💡', '|'] ++ blue, ['s', 'u', 'm', 'm', 'a', 'r', 'y']),
    (['💬', '|'] ++ gray, ['q', 'u', 'o', 't', 'e']),
    (['⚠', '\uFE0F', '|', 'y', 'e', 'l', 'l', 'o', 'w'], ['w', 'a', 'r', 'n', 'i', 'n', 'g']),
    (['❗', '|', 'r', 'e', 'd'], ['i', 'm', 'p', 'o', 'r', 't', 'a', 'n', 't']),
    (['☑', '\uFE0F', '|', 'g', 'r', 'e', 'e', 'n'], ['t', 'o', 'd', 'o'])]

def calloutType (icon color : Text) : Text :=
  match calloutStyleReverse.find? fun entry => decide (entry.1 = icon ++ '|' :: color) with
  | some entry => entry.2
  | none => ['n', 'o', 't', 'e']

def closesCallout (line : Text) : Bool := decide (trim line = calloutEnd)

/-- The lines of the callout, and how many lines follow its first one. -/
def parseCalloutBlock (resolvePage : PageResolver) (icon color : Text) (lines : List Text) :
    List Text × Nat :=
  let body := lines.takeWhile fun line => !closesCallout line
  ((['>', ' ', '[', '!'] ++ calloutType icon color ++ [']']) ::
    body.flatMap fun line =>
      quoteLines resolvePage (if line.head? = some '\t' then line.tail else line),
    body.length + 1)

/-! ## Section 5: Block shape -/

inductive BlockKind where
  | heading
  | para
  | list
  | table
  | quote
  | fence
  | codeIndent
  | empty
  | inside
deriving DecidableEq

structure OutLine where
  text : Text
  kind : BlockKind
  opensBlock : Bool
  breaksRun : Bool

def isBlankOrTab (c : Char) : Bool := decide (c = ' ') || decide (c = '\t')

/-- A list marker at the start of a text, and what follows it. -/
def markerAt (text : Text) : Option (Char × Text) :=
  match text.head? with
  | none => none
  | some c =>
      if c = '-' ∨ c = '*' ∨ c = '+' then some (c, text.tail)
      else
        let digits := text.takeWhile Char.isDigit
        let rest := text.dropWhile Char.isDigit
        if 1 ≤ digits.length ∧ digits.length ≤ 9 ∧ (rest.head? = some '.' ∨ rest.head? = some ')')
        then some ('1', rest.tail) else none

def endsMarker (rest : Text) : Bool := rest.head?.all isBlankOrTab

/-- `LIST_MARKER` -/
def isListMarker (text : Text) : Bool :=
  (markerAt (text.dropWhile isBlankOrTab)).any fun marker => endsMarker marker.2

/-- `TABLE_DELIMITER` -/
def isTableDelimiter (text : Text) : Bool :=
  decide (text.head? = some '|') && !text.tail.isEmpty &&
    text.tail.all fun c => isSpace c || decide (c = ':') || decide (c = '|') || decide (c = '-')

/-- `SETEXT_UNDERLINE` -/
def isSetextUnderline (text : Text) : Bool :=
  let rest := dropUpTo3 (· = ' ') text
  let line := if rest.head? = some '=' then '=' else '-'
  let run := rest.takeWhile (· = line)
  decide ((if line = '=' then 1 else 2) ≤ run.length) && isBlank (rest.dropWhile (· = line))

/-- `INDENTED_CODE` -/
def isIndentedCode (text : Text) : Bool :=
  [' ', ' ', ' ', ' '].isPrefixOf text || decide (text.head? = some '\t')

/-- The bullet, or `1` for any number. -/
def listFamily (text : Text) : Option Char :=
  match markerAt text with
  | some marker => if endsMarker marker.2 then some marker.1 else none
  | none => none

def classifyLine (text : Text) : BlockKind :=
  let level := (text.takeWhile (· = '#')).length
  if isListMarker text then .list
  else if text.head?.any isBlankOrTab then .inside
  else if 1 ≤ level ∧ level ≤ 6 ∧ (text.drop level).head?.all (· = ' ') then .heading
  else if text.head? = some '|' then .table
  else .para

def needsSeparator (prev next : OutLine) : Bool :=
  if !next.opensBlock then false
  else if prev.kind = .empty ∨ next.kind = .empty then false
  else if next.breaksRun then true
  else if prev.kind = next.kind ∧ (next.kind = .list ∨ next.kind = .table) then false
  else true

/-- `out` is reversed here, and in what follows. -/
def startsNewTableRun (out : List OutLine) (text : Text) : Bool :=
  isTableDelimiter text &&
    (out.takeWhile fun line => decide (line.kind = .table)).any fun line => isTableDelimiter line.text

def topLevelListFamily (out : List OutLine) : Option Char :=
  (out.takeWhile fun line => decide (line.kind = .list)).findSome? fun line => listFamily line.text

def continuedKind (out : List OutLine) : BlockKind :=
  match out.head? with
  | none => .para
  | some prev => if prev.kind = .empty then .para else prev.kind

/-! ## Section 6: The parser -/

/-- `<empty-block/>` -/
def emptyBlock : Text :=
  ['<', 'e', 'm', 'p', 't', 'y', '-', 'b', 'l', 'o', 'c', 'k', '/', '>']

/-- The group with its first line opening a block, in front of `out`. -/
def pushGroup (texts : List Text) (kind : BlockKind) (out : List OutLine) : List OutLine :=
  match texts with
  | [] => out
  | first :: more =>
      (more.map fun text => ⟨text, kind, false, false⟩).reverse ++ ⟨first, kind, true, false⟩ :: out

/-- A line that is no fence, blank line, callout, empty block or quote. -/
def pushLine (text : Text) (precededByBlank : Bool) (out : List OutLine) : List OutLine :=
  let setext := out.head?.any fun prev => decide (prev.kind = .para) && prev.opensBlock
  if !precededByBlank && setext && isSetextUnderline text then
    ⟨text, .heading, false, false⟩ ::
      ((out.head?.map fun prev => { prev with kind := .heading }).toList ++ out.tail)
  else
    let classified := classifyLine text
    let afterList := out.head?.any fun prev => decide (prev.kind = .list)
    if classified = .inside then
      if precededByBlank && isIndentedCode text && !afterList then
        ⟨text, .codeIndent, true, false⟩ :: out
      else ⟨text, continuedKind out, false, false⟩ :: out
    else if classified = .table ∧ startsNewTableRun out text then
      ⟨text, classified, true, false⟩ ::
        ((out.head?.map fun header => { header with breaksRun := true }).toList ++ out.tail)
    else
      let breaksRun := decide (classified = .list) && afterList && (listFamily text).isSome &&
        (topLevelListFamily out).isSome && decide (topLevelListFamily out ≠ listFamily text)
      ⟨text, classified, true, breaksRun⟩ :: out

/-- `skip` lines belong to the callout before. -/
def parseLines (resolvePage : PageResolver) :
    Nat → Option FenceState → Bool → List OutLine → List Text → List OutLine
  | _, _, _, out, [] => out
  | skip + 1, fence, blankBefore, out, _ :: lines =>
      parseLines resolvePage skip fence blankBefore out lines
  | 0, some fence, _, out, line :: lines =>
      parseLines resolvePage 0 (if closesFence line fence then none else some fence) false
        (⟨line, .fence, false, false⟩ :: out) lines
  | 0, none, blankBefore, out, line :: lines =>
      match opensFence line with
      | some opened =>
          parseLines resolvePage 0 (some opened) false (⟨line, .fence, true, false⟩ :: out) lines
      | none =>
          if isBlank line then parseLines resolvePage 0 none true out lines
          else
            match calloutOpen (trim line) with
            | some style =>
                let block := parseCalloutBlock resolvePage style.1 style.2 lines
                parseLines resolvePage block.2 none false (pushGroup block.1 .quote out) lines
            | none =>
                if trim line = emptyBlock then
                  parseLines resolvePage 0 none false (⟨[], .empty, false, false⟩ :: out) lines
                else if isQuoteLine line then
                  parseLines resolvePage 0 none false
                    (pushGroup (quoteLines resolvePage (stripQuoteMarker line)) .quote out) lines
                else
                  parseLines resolvePage 0 none false
                    (pushLine (renderInlineFromNotion resolvePage line) blankBefore out) lines

/-- The lines with a blank one at each boundary. -/
def separated : List OutLine → List Text
  | [] => []
  | [line] => [line.text]
  | prev :: next :: lines =>
      if needsSeparator prev next then prev.text :: [] :: separated (next :: lines)
      else prev.text :: separated (next :: lines)

/-- The lines of `parseNotionPage`'s body before they are joined. -/
def parseOut (resolvePage : PageResolver) (notionMarkdown : Text) : List OutLine :=
  let out := parseLines resolvePage 0 none true [] ((unix notionMarkdown).splitOn '\n')
  (out.reverse.dropWhile fun line => isBlank line.text).rdropWhile fun line => isBlank line.text

def parseNotionPage (resolvePage : PageResolver) (notionMarkdown : Text) : Text :=
  ['\n'].intercalate (separated (parseOut resolvePage notionMarkdown))

end Lares.Notion.TranslatePull
