import Lares.Notion.CodeScan
import Mathlib

/-! # What a rendered page can open

    A `<` after an even run of backslashes opens a tag. In what the renderer
    writes, every such `<` is its own or is in copied code.

    * **Scanning**: a text is safe from a state, the parity of the run before it;
      what comes after starts in the state that the text leaves.
    * **Inline and blocks**: each piece that can follow a backslash is safe from
      both states, and each text is followed by one of these.
    * **Copies**: what is marked as code is a fenced line of the source, or a
      span of it, as `CodeScan` finds them.
    * **Refused tags** open in copied code only.
-/

namespace Lares.Notion.Translate

open Lines

/-! ## Section 1: Scanning -/

def markedChars (pieces : List Piece) : List (Char × Origin) :=
  pieces.flatMap fun piece => piece.chars.map fun c => (c, piece.origin)

/-- What the tags of the renderer begin with. -/
def ownTags : List Text :=
  [mentionStart, mentionEnd, ['<', 'c', 'a', 'l', 'l', 'o', 'u', 't', ' '], calloutEnd, lineBreak]

/-- A live `<` of this origin may stand before `rest`. -/
def MayOpen (origin : Origin) (rest : Text) : Prop :=
  origin = .fence ∨ origin = .code ∨ origin = .markup ∧ ∃ tag ∈ ownTags, tag <+: '<' :: rest

/-- The parity of a run of backslashes after one more character. -/
def stepParity (odd : Bool) (c : Char) : Bool := if c = '\\' then !odd else false

def parityAfter (odd : Bool) (text : Text) : Bool := text.foldl stepParity odd

def SafeFrom : Bool → List (Char × Origin) → Prop
  | _, [] => True
  | odd, (c, origin) :: rest =>
      (c = '<' → odd = false → MayOpen origin (rest.map Prod.fst)) ∧
        SafeFrom (stepParity odd c) rest

theorem MayOpen.append {origin : Origin} {rest : Text} (h : MayOpen origin rest) (more : Text) :
    MayOpen origin (rest ++ more) := by
  rcases h with h | h | ⟨h, tag, htag, hstarts⟩
  · exact .inl h
  · exact .inr (.inl h)
  · exact .inr (.inr ⟨h, tag, htag, hstarts.trans (List.prefix_append ('<' :: rest) more)⟩)

theorem parityAfter_append (odd : Bool) (a b : Text) :
    parityAfter odd (a ++ b) = parityAfter (parityAfter odd a) b := List.foldl_append

/-- Only the last run of backslashes counts. -/
theorem parityAfter_concat {c : Char} (h : c ≠ '\\') (odd : Bool) (a : Text) :
    parityAfter odd (a ++ [c]) = false := by
  rw [parityAfter_append]
  exact if_neg h

theorem SafeFrom.append {odd : Bool} {a b : List (Char × Origin)} (ha : SafeFrom odd a)
    (hb : SafeFrom (parityAfter odd (a.map Prod.fst)) b) : SafeFrom odd (a ++ b) := by
  induction a generalizing odd with
  | nil => exact hb
  | cons x a ih =>
    obtain ⟨c, origin⟩ := x
    obtain ⟨hopen, hrest⟩ := ha
    refine ⟨fun hc hodd => ?_, ih hrest hb⟩
    change MayOpen origin ((a ++ b).map Prod.fst)
    rw [List.map_append]
    exact (hopen hc hodd).append _

/-- Where a `<` stands after an even run, it may. -/
theorem SafeFrom.mayOpen {odd : Bool} {pre post : List (Char × Origin)} {origin : Origin}
    (h : SafeFrom odd (pre ++ ('<', origin) :: post))
    (heven : parityAfter odd (pre.map Prod.fst) = false) :
    MayOpen origin (post.map Prod.fst) := by
  induction pre generalizing odd with
  | nil => exact h.1 rfl heven
  | cons x pre ih => exact ih h.2 heven

theorem safeFrom_of_not_mem {chars : List (Char × Origin)} (h : '<' ∉ chars.map Prod.fst)
    (odd : Bool) : SafeFrom odd chars := by
  induction chars generalizing odd with
  | nil => trivial
  | cons x chars ih =>
    obtain ⟨c, origin⟩ := x
    rw [List.map_cons, List.mem_cons, not_or] at h
    exact ⟨fun hc => absurd hc.symm h.1, ih h.2 _⟩

theorem safeFrom_copied {origin : Origin} (h : origin = .fence ∨ origin = .code) (text : Text)
    (odd : Bool) : SafeFrom odd (text.map fun c => (c, origin)) := by
  induction text generalizing odd with
  | nil => trivial
  | cons c text ih =>
    refine ⟨fun _ _ => ?_, ih _⟩
    rcases h with h | h
    · exact .inl h
    · exact .inr (.inl h)

/-! ## Section 2: Pieces -/

/-- The pieces are safe where they begin after a run of this parity. -/
def Safe (odd : Bool) (pieces : List Piece) : Prop := SafeFrom odd (markedChars pieces)

/-- The pieces are safe wherever they begin, and the run after them is empty. -/
def Solid (pieces : List Piece) : Prop :=
  ∀ odd, Safe odd pieces ∧ parityAfter odd (markdownOf pieces) = false

theorem markedChars_append (a b : List Piece) :
    markedChars (a ++ b) = markedChars a ++ markedChars b := List.flatMap_append

theorem map_fst_markedChars (pieces : List Piece) :
    (markedChars pieces).map Prod.fst = markdownOf pieces := by
  rw [markedChars, List.map_flatMap, markdownOf]
  congr 1
  funext piece
  rw [List.map_map]
  exact List.map_id _

theorem markdownOf_append (a b : List Piece) :
    markdownOf (a ++ b) = markdownOf a ++ markdownOf b := List.flatMap_append

theorem Safe.append {odd : Bool} {a b : List Piece} (ha : Safe odd a)
    (hb : Safe (parityAfter odd (markdownOf a)) b) : Safe odd (a ++ b) := by
  unfold Safe
  rw [markedChars_append]
  refine SafeFrom.append ha ?_
  rw [map_fst_markedChars]
  exact hb

/-- Text, then something solid, then text again. -/
theorem Safe.append_solid {odd : Bool} {a b c : List Piece} (ha : Safe odd a) (hb : Solid b)
    (hc : Safe false c) : Safe odd (a ++ b ++ c) := by
  rw [List.append_assoc]
  refine ha.append ?_
  refine ((hb _).1).append ?_
  rw [(hb _).2]
  exact hc

theorem Solid.append {a b : List Piece} (ha : Solid a) (hb : Solid b) : Solid (a ++ b) := by
  intro odd
  obtain ⟨hsafe, hparity⟩ := ha odd
  refine ⟨hsafe.append ((hb _).1), ?_⟩
  rw [markdownOf_append, parityAfter_append]
  exact (hb _).2

theorem markedChars_singleton (origin : Origin) (chars : Text) :
    markedChars [⟨origin, chars⟩] = chars.map fun c => (c, origin) := List.flatMap_singleton ..

theorem safe_singleton {odd : Bool} {origin : Origin} {chars : Text}
    (h : SafeFrom odd (chars.map fun c => (c, origin))) : Safe odd [⟨origin, chars⟩] := by
  unfold Safe
  rw [markedChars_singleton]
  exact h

/-- Without a `<` and a last backslash. -/
theorem solid_of_not_mem {origin : Origin} (chars : Text) (c : Char) (h : '<' ∉ chars ++ [c])
    (hc : c ≠ '\\') : Solid [⟨origin, chars ++ [c]⟩] := by
  intro odd
  constructor
  · apply safe_singleton
    apply safeFrom_of_not_mem
    rw [List.map_map]
    exact fun hmem => h (by simpa using hmem)
  · rw [markdownOf, List.flatMap_singleton]
    exact parityAfter_concat hc odd chars

/-- A tag of the renderer, with no other `<` in it. -/
theorem solid_tag (tag more : Text) (c : Char) (htag : tag ∈ ownTags)
    (hstarts : tag <+: '<' :: (more ++ [c])) (hmore : '<' ∉ more ++ [c]) (hc : c ≠ '\\') :
    Solid [⟨.markup, '<' :: (more ++ [c])⟩] := by
  intro odd
  constructor
  · apply safe_singleton
    refine ⟨fun _ _ => ?_, ?_⟩
    · refine .inr (.inr ⟨rfl, tag, htag, ?_⟩)
      rw [List.map_map]
      change tag <+: '<' :: (more ++ [c]).map id
      rw [List.map_id]
      exact hstarts
    · apply safeFrom_of_not_mem
      rw [List.map_map]
      exact fun hmem => hmore (by simpa using hmem)
  · rw [markdownOf, List.flatMap_singleton]
    exact parityAfter_concat hc odd ('<' :: more)

/-! ## Section 3: Inline -/

theorem safe_escapeAnglesFrom (odd : Bool) (text : Text) :
    SafeFrom odd ((escapeAnglesFrom odd text).map fun c => (c, Origin.text)) := by
  induction text generalizing odd with
  | nil => trivial
  | cons c text ih =>
    rw [escapeAnglesFrom]
    split
    · next hc =>
      subst hc
      exact ⟨fun h => absurd h (by decide), ih (!odd)⟩
    · next hc =>
      split
      · next hopen =>
        obtain ⟨rfl, rfl⟩ := hopen
        -- the backslash makes the run odd
        exact ⟨fun h => absurd h (by decide), fun _ h => absurd h (by decide), ih false⟩
      · next hopen =>
        refine ⟨fun hlt hodd => absurd ⟨hlt, hodd⟩ hopen, ?_⟩
        rw [stepParity, if_neg hc]
        exact ih false

theorem safe_escapeAngles (text : Text) : Safe false [⟨.text, escapeAngles text⟩] :=
  safe_singleton (safe_escapeAnglesFrom false text)

/-- Each character of a literal leaves an empty run. -/
theorem safe_escapeLiteral (text : Text) :
    Safe false [⟨.text, escapeLiteral text⟩] ∧ parityAfter false (escapeLiteral text) = false := by
  suffices h : SafeFrom false ((escapeLiteral text).map fun c => (c, Origin.text)) ∧
      parityAfter false (escapeLiteral text) = false from ⟨safe_singleton h.1, h.2⟩
  induction text with
  | nil => exact ⟨trivial, rfl⟩
  | cons c text ih =>
    have hcons : escapeLiteral (c :: text) =
        (if c ∈ specials then ['\\', c] else [c]) ++ escapeLiteral text := rfl
    rw [hcons]
    split
    · next hspecial =>
      have hstep : stepParity true c = false := by
        unfold stepParity
        split
        · rfl
        · rfl
      refine ⟨⟨fun h => absurd h (by decide), fun _ h => absurd h (by decide), ?_⟩, ?_⟩
      · change SafeFrom (stepParity true c) _
        rw [hstep]
        exact ih.1
      · change parityAfter (stepParity true c) _ = false
        rw [hstep]
        exact ih.2
    · next hspecial =>
      have hc : c ≠ '\\' ∧ c ≠ '<' := by
        constructor
        · rintro rfl
          exact hspecial (by decide)
        · rintro rfl
          exact hspecial (by decide)
      have hstep : stepParity false c = false := if_neg hc.1
      refine ⟨⟨fun h => absurd h hc.2, ?_⟩, ?_⟩
      · rw [hstep]
        exact ih.1
      · change parityAfter (stepParity false c) _ = false
        rw [hstep]
        exact ih.2

/-- A literal that begins with a bracket may follow a backslash. -/
theorem solid_literal (text : Text) : Solid [⟨.text, escapeLiteral ('[' :: text)⟩] := by
  intro odd
  have hcons : escapeLiteral ('[' :: text) = ['\\', '['] ++ escapeLiteral text := rfl
  obtain ⟨hsafe, hparity⟩ := safe_escapeLiteral text
  have htext : SafeFrom false ((escapeLiteral text).map fun c => (c, Origin.text)) := by
    unfold Safe at hsafe
    rwa [markedChars_singleton] at hsafe
  constructor
  · apply safe_singleton
    rw [hcons]
    exact ⟨fun h => absurd h (by decide), fun h => absurd h (by decide), htext⟩
  · rw [markdownOf, List.flatMap_singleton, hcons]
    exact hparity

theorem lt_not_mem_attrSafe (url : Text) : '<' ∉ attrSafe url := by
  rw [attrSafe, List.mem_flatMap]
  rintro ⟨c, -, hmem⟩
  split at hmem
  · exact absurd hmem (by decide)
  · split at hmem
    · exact absurd hmem (by decide)
    · next hlt =>
      split at hmem
      · exact absurd hmem (by decide)
      · exact hlt (List.mem_singleton.1 hmem).symm

theorem solid_mentionStart : Solid [⟨.markup, mentionStart⟩] :=
  solid_tag mentionStart mentionStart.tail.dropLast '"'
    (by decide) (by decide) (by decide) (by decide)

theorem solid_mentionEnd : Solid [⟨.markup, mentionEnd⟩] :=
  solid_tag mentionEnd mentionEnd.tail.dropLast '>'
    (by decide) (by decide) (by decide) (by decide)

theorem solid_lineBreak : Solid [⟨.markup, lineBreak⟩] :=
  solid_tag lineBreak lineBreak.tail.dropLast '>'
    (by decide) (by decide) (by decide) (by decide)

theorem wikilinkAt_raw {text : Text} {link : Wikilink} (h : wikilinkAt text = some link) :
    ∃ more, link.raw = '[' :: more := by
  unfold wikilinkAt at h
  dsimp only at h
  split at h
  · split at h
    · cases h
    · split at h
      · cases h
        exact ⟨_, rfl⟩
      · split at h
        · split at h
          · cases h
            exact ⟨_, rfl⟩
          · cases h
        · cases h
  · cases h

theorem solid_renderLink (resolve : Resolver) {link : Wikilink} {more : Text}
    (h : link.raw = '[' :: more) : Solid (renderLink resolve link) := by
  unfold renderLink
  cases resolve link.target with
  | none =>
    dsimp only
    rw [h]
    exact solid_literal more
  | some page =>
    dsimp only
    generalize (if isBlank (link.aliasText.getD []) then page.title
      else link.aliasText.getD []) = label
    intro odd
    have hend := solid_mentionEnd
    have hurl : Safe false [⟨.text, attrSafe page.url⟩] := by
      apply safe_singleton
      apply safeFrom_of_not_mem
      rw [List.map_map]
      exact fun hmem => lt_not_mem_attrSafe page.url (by simpa using hmem)
    have hquote : Solid [⟨.markup, ['"', '>']⟩] :=
      solid_of_not_mem ['"'] '>' (by decide) (by decide)
    have hsafe : Safe odd ([⟨.markup, mentionStart⟩] ++ ([⟨.text, attrSafe page.url⟩] ++
        [⟨.markup, ['"', '>']⟩] ++ ([⟨.text, escapeLiteral label⟩] ++
          [⟨.markup, mentionEnd⟩]))) := by
      refine ((solid_mentionStart odd).1).append ?_
      rw [(solid_mentionStart odd).2]
      refine hurl.append_solid hquote ?_
      exact (safe_escapeLiteral label).1.append (hend _).1
    refine ⟨hsafe, ?_⟩
    have hsplit : markdownOf [⟨.markup, mentionStart⟩, ⟨.text, attrSafe page.url⟩,
        ⟨.markup, ['"', '>']⟩, ⟨.text, escapeLiteral label⟩, ⟨.markup, mentionEnd⟩] =
        markdownOf [⟨.markup, mentionStart⟩, ⟨.text, attrSafe page.url⟩,
          ⟨.markup, ['"', '>']⟩, ⟨.text, escapeLiteral label⟩] ++
        markdownOf [⟨.markup, mentionEnd⟩] := markdownOf_append [_, _, _, _] [_]
    rw [hsplit, parityAfter_append]
    exact (hend _).2

theorem safe_renderPlainFrom (resolve : Resolver) (skip : Nat) (before text : Text) :
    Safe false (renderPlainFrom resolve skip before text) := by
  induction text generalizing skip before with
  | nil =>
    cases skip
    · exact safe_escapeAngles _
    · exact safe_escapeAngles _
  | cons c text ih =>
    cases skip with
    | succ skip => exact ih skip before
    | zero =>
      rw [renderPlainFrom]
      cases hlink : wikilinkAt (c :: text) with
      | none => exact ih 0 (c :: before)
      | some link =>
        obtain ⟨more, hraw⟩ := wikilinkAt_raw hlink
        exact (safe_escapeAngles before.reverse).append_solid (solid_renderLink resolve hraw)
          (ih (link.raw.length - 1) [])

theorem codeSpanUpTo_ticks {n : Nat} {text span : Text} (h : codeSpanUpTo n text = some span) :
    ∃ more, span = more ++ ['`'] := by
  induction n with
  | zero => cases h
  | succ n ih =>
    rw [codeSpanUpTo] at h
    split at h
    · next content hcontent =>
      cases h
      exact ⟨_, by rw [List.replicate_succ' (n := n), ← List.append_assoc]⟩
    · exact ih h

theorem solid_code {span : Text} (h : ∃ more, span = more ++ ['`']) : Solid [⟨.code, span⟩] := by
  obtain ⟨more, rfl⟩ := h
  intro odd
  refine ⟨safe_singleton (safeFrom_copied (.inr rfl) _ _), ?_⟩
  rw [markdownOf, List.flatMap_singleton]
  exact parityAfter_concat (by decide) odd more

theorem safe_renderInlineFrom (resolve : Resolver) (skip : Nat) (before line : Text) :
    Safe false (renderInlineFrom resolve skip before line) := by
  induction line generalizing skip before with
  | nil =>
    cases skip
    · exact safe_renderPlainFrom resolve 0 [] _
    · exact safe_renderPlainFrom resolve 0 [] _
  | cons c line ih =>
    cases skip with
    | succ skip => exact ih skip before
    | zero =>
      rw [renderInlineFrom]
      cases hspan : codeSpanAt (c :: line) with
      | none => exact ih 0 (c :: before)
      | some span =>
        have h := (safe_renderPlainFrom resolve 0 [] before.reverse).append_solid
          (solid_code (codeSpanUpTo_ticks hspan)) (ih (span.length - 1) [])
        rw [List.append_assoc] at h
        exact h

theorem safe_renderInline (resolve : Resolver) (line : Text) :
    Safe false (renderInline resolve line) := safe_renderInlineFrom resolve 0 [] line

/-! ## Section 4: Blocks -/

/-- Safe blocks with something solid between them. -/
theorem safe_intercalate {sep : List Piece} (hsep : Solid sep) {blocks : List (List Piece)}
    (h : ∀ block ∈ blocks, Safe false block) : Safe false (sep.intercalate blocks) := by
  induction blocks with
  | nil => trivial
  | cons block blocks ih =>
    have hblock := h block List.mem_cons_self
    have hrest := ih fun b hb => h b (List.mem_cons_of_mem block hb)
    by_cases hnil : blocks = []
    · rw [hnil, List.intercalate_singleton]
      exact hblock
    · rw [List.intercalate_cons_of_ne_nil hnil]
      exact hblock.append_solid hsep hrest

theorem safe_joinBreaks (resolve : Resolver) (lines : List Text) :
    Safe false (joinBreaks resolve lines) := by
  apply safe_intercalate solid_lineBreak
  intro block hblock
  obtain ⟨line, -, rfl⟩ := List.mem_map.1 hblock
  exact safe_renderInline resolve line

theorem safe_cons_joinBreaks {start : Piece} (h : Solid [start]) (resolve : Resolver)
    (lines : List Text) : Safe false (start :: joinBreaks resolve lines) := by
  have hsafe := (h false).1.append (b := joinBreaks resolve lines)
  rw [(h false).2] at hsafe
  exact hsafe (safe_joinBreaks resolve lines)

theorem solid_calloutStart (type : Text) : Solid [⟨.markup, calloutStart (styleOf type)⟩] := by
  have hstyles : ∀ entry ∈ calloutStyle, '<' ∉ entry.2.icon ∧ '<' ∉ entry.2.color := by
    decide +kernel
  have hstyle : '<' ∉ (styleOf type).icon ∧ '<' ∉ (styleOf type).color := by
    unfold styleOf
    split
    · next entry hentry => exact hstyles entry (List.mem_of_find?_eq_some hentry)
    · decide
  have hstart : calloutStart (styleOf type) =
      '<' :: ((['c', 'a', 'l', 'l', 'o', 'u', 't', ' ', 'i', 'c', 'o', 'n', '=', '"'] ++
        (styleOf type).icon ++ ['"', ' ', 'c', 'o', 'l', 'o', 'r', '=', '"'] ++
        (styleOf type).color ++ ['"']) ++ ['>']) := by
    simp [calloutStart]
  rw [hstart]
  refine solid_tag ['<', 'c', 'a', 'l', 'l', 'o', 'u', 't', ' '] _ '>' (by decide) ?_ ?_
    (by decide)
  · exact ⟨_, rfl⟩
  · simp [hstyle.1, hstyle.2]

theorem safe_renderQuoteGroup (resolve : Resolver) (group : List Text) :
    ∀ line ∈ renderQuoteGroup resolve group, Safe false line := by
  have hend : Solid [⟨.markup, calloutEnd⟩] :=
    solid_tag calloutEnd calloutEnd.tail.dropLast '>'
      (by decide) (by decide) (by decide) (by decide)
  have htab : Solid [⟨.markup, ['\t']⟩] :=
    solid_of_not_mem [] '\t' (by decide) (by decide)
  have hquote : Solid [⟨.markup, ['>', ' ']⟩] :=
    solid_of_not_mem ['>'] ' ' (by decide) (by decide)
  intro line hline
  unfold renderQuoteGroup at hline
  dsimp only at hline
  split at hline
  · next type title _ =>
    have hstart := solid_calloutStart type
    generalize (if title = [] then ([] : List Text) else [title]) = first at hline
    split at hline
    · simp only [List.mem_cons, List.not_mem_nil, or_false] at hline
      rcases hline with rfl | rfl
      · exact (hstart false).1
      · exact (hend false).1
    · simp only [List.mem_cons, List.not_mem_nil, or_false] at hline
      rcases hline with rfl | rfl | rfl
      · exact (hstart false).1
      · exact safe_cons_joinBreaks htab resolve _
      · exact (hend false).1
  · split at hline
    · cases hline
    · rw [List.mem_singleton.1 hline]
      exact safe_cons_joinBreaks hquote resolve _

theorem safe_renderLines (resolve : Resolver) (skip : Nat) (fence : Option FenceState)
    (lines : List Text) : ∀ line ∈ renderLines resolve skip fence lines, Safe false line := by
  induction lines generalizing skip fence with
  | nil =>
    intro line hline
    simp [renderLines] at hline
  | cons first lines ih =>
    have hcons : ∀ {block : List Piece} {blocks : List (List Piece)}, Safe false block →
        (∀ line ∈ blocks, Safe false line) → ∀ line ∈ block :: blocks, Safe false line := by
      intro block blocks hblock hblocks line hline
      rcases List.mem_cons.1 hline with rfl | hline
      · exact hblock
      · exact hblocks line hline
    have hfence : Safe false [⟨.fence, first⟩] :=
      safe_singleton (safeFrom_copied (.inl rfl) _ _)
    cases skip with
    | succ skip => exact ih skip fence
    | zero =>
      cases fence with
      | some fence =>
        rw [renderLines]
        exact hcons hfence (ih 0 _)
      | none =>
        rw [renderLines]
        split
        · exact hcons hfence (ih 0 _)
        · split
          · intro line hline
            rcases List.mem_append.1 hline with hline | hline
            · exact safe_renderQuoteGroup resolve _ line hline
            · exact ih _ none line hline
          · split
            · exact hcons (safe_renderInline resolve first) (ih 0 none)
            · split
              · exact hcons (safe_renderInline resolve _) (ih _ none)
              · exact hcons (safe_renderInline resolve first) (ih 0 none)

theorem safe_renderPieces (resolve : Resolver) (source : Text) :
    Safe false (renderPieces resolve source) := by
  apply safe_intercalate (solid_of_not_mem [] '\n' (by decide) (by decide))
  intro line hline
  apply safe_renderLines resolve 0 none (bodyLines source) line
  exact (List.dropWhile_suffix _).subset ((List.rdropWhile_prefix _ _).subset hline)

/-! ## Section 5: What is copied -/

/-- What the renderer writes by itself, piece by piece. -/
def OwnMarkup (chars : Text) : Prop :=
  chars ∈ [mentionStart, ['"', '>'], mentionEnd, lineBreak, calloutEnd, ['\t'], ['>', ' '], ['\n']] ∨
    ∃ type, chars = calloutStart (styleOf type)

/-- A line of a quote, outside of any fence. -/
def QuotedIn (lines : List Text) (line : Text) : Prop :=
  isQuoteLine line = true ∧ ∃ before after, lines = before ++ line :: after ∧ FenceOpen before none

/-- The texts that may have code spans. -/
inductive InlineText (lines : List Text) : Text → Prop
  /-- Lines outside of any fence: one, or as many as each leave a backtick over with those before. -/
  | joined {before ls after : List Text} (hlines : lines = before ++ (ls ++ after))
      (hfence : FenceOpen before none) (hplain : ∀ line ∈ ls, ∀ fence, ¬Opens line fence)
      (hopen : ∀ n, 0 < n → n < ls.length → LeftOpen (lineBreak.intercalate (ls.take n))) :
      InlineText lines (lineBreak.intercalate ls)
  | quote {line : Text} (hquoted : QuotedIn lines line) :
      InlineText lines (trimEnd (stripQuoteMarker line))
  | title {line type title : Text} (hquoted : QuotedIn lines line)
      (hmarker : calloutMarker (trim (stripQuoteMarker line)) = some (type, title)) :
      InlineText lines title

/-- A span that a scan of the text comes to. -/
def SpanOf (text span : Text) : Prop :=
  ∃ before rest, Scanned text before (span ++ rest) ∧ SpanAt span rest

/-- A piece is what it is marked as: a line from the one that opens a fence to the one that closes
    it, a code span, or the renderer's own. -/
structure CopiedFrom (lines : List Text) (piece : Piece) : Prop where
  fence : piece.origin = .fence → ∃ before after, lines = before ++ piece.chars :: after ∧
    ((∃ fence, FenceOpen before (some fence)) ∨
      FenceOpen before none ∧ ∃ fence, Opens piece.chars fence)
  code : piece.origin = .code → ∃ text, InlineText lines text ∧ SpanOf text piece.chars
  markup : piece.origin = .markup → OwnMarkup piece.chars

theorem CopiedFrom.of_markup {lines : List Text} {chars : Text} (h : OwnMarkup chars) :
    CopiedFrom lines ⟨.markup, chars⟩ :=
  ⟨fun h => Origin.noConfusion h, fun h => Origin.noConfusion h, fun _ => h⟩

/-- Neither links nor escaped text count as copied. -/
theorem origin_renderPlainFrom (resolve : Resolver) (skip : Nat) (before text : Text) :
    ∀ piece ∈ renderPlainFrom resolve skip before text,
      piece.origin ≠ .fence ∧ piece.origin ≠ .code ∧ (piece.origin = .markup → OwnMarkup piece.chars) := by
  induction text generalizing skip before with
  | nil =>
    intro piece hpiece
    cases skip
    all_goals
      rw [renderPlainFrom, List.mem_singleton] at hpiece
      rw [hpiece]
      simp
  | cons c text ih =>
    cases skip with
    | succ skip => exact ih skip before
    | zero =>
      intro piece hpiece
      rw [renderPlainFrom] at hpiece
      split at hpiece
      · next link _ =>
        rcases List.mem_append.1 hpiece with hpiece | hpiece
        · have hlink : ∀ piece ∈ renderLink resolve link, piece.origin ≠ .fence ∧
              piece.origin ≠ .code ∧ (piece.origin = .markup → OwnMarkup piece.chars) := by
            unfold renderLink
            cases resolve link.target with
            | none => simp
            | some page => simp [OwnMarkup]
          rcases List.mem_cons.1 hpiece with rfl | hpiece
          · simp
          · exact hlink piece hpiece
        · exact ih _ [] piece hpiece
      · exact ih 0 _ piece hpiece

/-- The code of an inline text is the spans that a scan of it comes to. -/
theorem copied_renderInlineFrom (resolve : Resolver) {lines : List Text} {text : Text}
    (htext : InlineText lines text) {skip : Nat} {passed before line : Text}
    (h : Scanned text passed (line.drop skip)) :
    ∀ piece ∈ renderInlineFrom resolve skip before line, CopiedFrom lines piece := by
  have hplain : ∀ segment, ∀ piece ∈ renderPlainText resolve segment, CopiedFrom lines piece := by
    intro segment piece hpiece
    obtain ⟨hfence, hcode, hmarkup⟩ := origin_renderPlainFrom resolve 0 [] segment piece hpiece
    exact ⟨fun h => absurd h hfence, fun h => absurd h hcode, hmarkup⟩
  induction line generalizing skip passed before with
  | nil =>
    intro piece hpiece
    exact hplain before.reverse piece (by cases skip <;> exact hpiece)
  | cons c line ih =>
    cases skip with
    | succ skip => exact ih h
    | zero =>
      rw [List.drop_zero] at h
      intro piece hpiece
      rw [renderInlineFrom] at hpiece
      cases hspan : codeSpanAt (c :: line) with
      | some span =>
        obtain ⟨hnext, rest, heq, hat⟩ := h.next_span hspan
        rw [hspan] at hpiece
        rcases List.mem_append.1 hpiece with hpiece | hpiece
        · exact hplain before.reverse piece hpiece
        · rcases List.mem_cons.1 hpiece with rfl | hpiece
          · rw [heq] at h
            exact ⟨fun h => Origin.noConfusion h, fun _ => ⟨text, htext, passed, rest, h, hat⟩,
              fun h => Origin.noConfusion h⟩
          · exact ih hnext piece hpiece
      | none =>
        rw [hspan] at hpiece
        have hnext : Scanned text (passed ++ [c]) (line.drop 0) :=
          h.char (codeSpanAt_eq_none_iff.1 hspan)
        exact ih hnext piece hpiece

theorem copied_renderInline (resolve : Resolver) {lines : List Text} {text : Text}
    (htext : InlineText lines text) :
    ∀ piece ∈ renderInline resolve text, CopiedFrom lines piece := by
  have hstart : Scanned text [] (text.drop 0) := .start
  exact copied_renderInlineFrom resolve htext hstart

theorem copied_joinBreaks (resolve : Resolver) {lines parts : List Text}
    (h : ∀ part ∈ parts, InlineText lines part) :
    ∀ piece ∈ joinBreaks resolve parts, CopiedFrom lines piece := by
  intro piece hpiece
  rcases mem_of_mem_intercalate hpiece with hpiece | ⟨block, hblock, hpiece⟩
  · rw [List.mem_singleton.1 hpiece]
    exact .of_markup (.inl (by simp))
  · obtain ⟨part, hpart, rfl⟩ := List.mem_map.1 hblock
    exact copied_renderInline resolve (h part hpart) piece hpiece

theorem copied_renderQuoteGroup (resolve : Resolver) {lines group : List Text}
    (h : ∀ line ∈ group, QuotedIn lines line) :
    ∀ block ∈ renderQuoteGroup resolve group, ∀ piece ∈ block, CopiedFrom lines piece := by
  -- What is rendered is the text behind the quote markers, joined by markup of its own.
  have hbody : ∀ ls : List Text, (∀ line ∈ ls, line ∈ group) →
      ∀ part ∈ (ls.map fun line => trimEnd (stripQuoteMarker line)).filter
        fun line => !isBlank line, InlineText lines part := by
    intro ls hls part hpart
    obtain ⟨line, hline, rfl⟩ := List.mem_map.1 (List.mem_filter.1 hpart).1
    exact .quote (h line (hls line hline))
  have hmarkup : ∀ chars : Text, OwnMarkup chars →
      ∀ piece ∈ [(⟨.markup, chars⟩ : Piece)], CopiedFrom lines piece := by
    intro chars hown piece hpiece
    rw [List.mem_singleton.1 hpiece]
    exact .of_markup hown
  have hjoin : ∀ (chars : Text) (parts : List Text), OwnMarkup chars →
      (∀ part ∈ parts, InlineText lines part) →
      ∀ piece ∈ ⟨.markup, chars⟩ :: joinBreaks resolve parts, CopiedFrom lines piece := by
    intro chars parts hown hparts piece hpiece
    rcases List.mem_cons.1 hpiece with rfl | hpiece
    · exact .of_markup hown
    · exact copied_joinBreaks resolve hparts piece hpiece
  intro block hblock
  unfold renderQuoteGroup at hblock
  dsimp only at hblock
  split at hblock
  · next type title hmarker =>
    -- A callout: its title comes from the first line, its text from the others.
    have hgroup : group ≠ [] := by
      rintro rfl
      cases hmarker
    have hhead : group.headD [] ∈ group := by
      rw [List.headD_eq_head?_getD, List.head?_eq_some_head hgroup]
      exact List.head_mem hgroup
    have htitle : InlineText lines title := .title (h _ hhead) hmarker
    have hparts : ∀ part ∈ (if title = [] then [] else [title]) ++
        (group.tail.map fun line => trimEnd (stripQuoteMarker line)).filter
          fun line => !isBlank line, InlineText lines part := by
      intro part hpart
      rcases List.mem_append.1 hpart with hpart | hpart
      · split at hpart
        · cases hpart
        · rw [List.mem_singleton.1 hpart]
          exact htitle
      · exact hbody group.tail (fun line => List.mem_of_mem_tail) part hpart
    generalize (if title = [] then ([] : List Text) else [title]) = first at hblock hparts
    have hstart : OwnMarkup (calloutStart (styleOf type)) := .inr ⟨type, rfl⟩
    have hend : OwnMarkup calloutEnd := .inl (by simp)
    split at hblock
    · simp only [List.mem_cons, List.not_mem_nil, or_false] at hblock
      rcases hblock with rfl | rfl
      · exact hmarkup _ hstart
      · exact hmarkup _ hend
    · simp only [List.mem_cons, List.not_mem_nil, or_false] at hblock
      rcases hblock with rfl | rfl | rfl
      · exact hmarkup _ hstart
      · exact hjoin _ _ (.inl (by simp)) hparts
      · exact hmarkup _ hend
  · split at hblock
    · cases hblock
    · rw [List.mem_singleton.1 hblock]
      exact hjoin _ _ (.inl (by simp)) (hbody group fun line => id)

/-- What is joined is the next lines, each of them for a backtick left over before it. -/
theorem joinOpen_intercalate {ls rest : List Text} {count : Nat} {out : Text × Nat}
    (hls : ls ≠ []) (h : joinOpen (lineBreak.intercalate ls) count rest = some out) :
    ∃ more, more <+: rest ∧ out = (lineBreak.intercalate (ls ++ more), count + more.length) ∧
      (∀ line ∈ more, opensFence line = none) ∧
      ∀ n ≥ ls.length, n < (ls ++ more).length →
        hasUnclosedCodeSpan (lineBreak.intercalate ((ls ++ more).take n)) = true := by
  induction rest generalizing ls count with
  | nil =>
    unfold joinOpen at h
    split at h
    · cases h
    · cases h
      exact ⟨[], List.nil_prefix, by simp, by simp, fun n hn hlt => by simp at hlt; omega⟩
  | cons next rest ih =>
    unfold joinOpen at h
    split at h
    · next hopen =>
      dsimp only at h
      split at h
      · cases h
      · next hstop =>
        have hplain : opensFence next = none := by
          simp only [Bool.or_eq_true, not_or] at hstop
          simpa using hstop.2
        -- The span is open: one more line is joined, and no fence begins with it.
        have hnext : lineBreak.intercalate ls ++ lineBreak ++ next =
            lineBreak.intercalate (ls ++ [next]) := by
          rw [intercalate_append lineBreak hls (List.cons_ne_nil next []),
            List.intercalate_singleton]
        rw [hnext] at h
        obtain ⟨more, hmore, rfl, hplains, hopens⟩ := ih (by simp) h
        have hlist : ls ++ [next] ++ more = ls ++ next :: more := by simp
        rw [hlist] at hopens
        refine ⟨next :: more, List.cons_prefix_cons.2 ⟨rfl, hmore⟩, ?_, ?_, ?_⟩
        · rw [hlist, List.length_cons, Nat.add_right_comm, Nat.add_assoc]
        · intro line hline
          rcases List.mem_cons.1 hline with rfl | hline
          · exact hplain
          · exact hplains line hline
        · intro n hn hlt
          rcases Nat.eq_or_lt_of_le hn with rfl | hlater
          · rw [List.take_left]
            exact hopen
          · exact hopens n (by simpa using hlater) hlt
    · cases h
      exact ⟨[], List.nil_prefix, by simp, by simp, fun n hn hlt => by simp at hlt; omega⟩

theorem FenceOpen.append {before more : List Text} (h : FenceOpen before none)
    (hmore : ∀ line ∈ more, ∀ fence, ¬Opens line fence) : FenceOpen (before ++ more) none := by
  induction more generalizing before with
  | nil =>
    rw [List.append_nil]
    exact h
  | cons line more ih =>
    have hnext := ih (h.outside (hmore line List.mem_cons_self)) fun l hl =>
      hmore l (List.mem_cons_of_mem line hl)
    rwa [List.append_assoc, List.singleton_append] at hnext

/-- A line outside of any fence is a text of its own. -/
theorem InlineText.line {lines before after : List Text} {line : Text}
    (hlines : lines = before ++ line :: after) (hfence : FenceOpen before none)
    (hplain : ∀ fence, ¬Opens line fence) : InlineText lines line := by
  have htext : lineBreak.intercalate [line] = line := List.intercalate_singleton
  rw [← htext]
  refine .joined hlines hfence ?_ ?_
  · intro l hl
    rw [List.mem_singleton.1 hl]
    exact hplain
  · intro n hn hlt
    rw [List.length_singleton] at hlt
    omega

theorem copied_renderLines (resolve : Resolver) {all before lines : List Text} (skip : Nat)
    (fence : Option FenceState) (hall : all = before ++ lines) (hfence : FenceOpen before fence)
    (hskip : 0 < skip → fence = none ∧ ∀ line ∈ lines.take skip, ∀ fence, ¬Opens line fence) :
    ∀ block ∈ renderLines resolve skip fence lines, ∀ piece ∈ block, CopiedFrom all piece := by
  induction lines generalizing skip fence before with
  | nil =>
    intro block hblock
    simp [renderLines] at hblock
  | cons line lines ih =>
    have hcons : ∀ {block : List Piece} {blocks : List (List Piece)},
        (∀ piece ∈ block, CopiedFrom all piece) →
        (∀ b ∈ blocks, ∀ piece ∈ b, CopiedFrom all piece) →
        ∀ b ∈ block :: blocks, ∀ piece ∈ b, CopiedFrom all piece := by
      intro block blocks hblock hblocks b hb
      rcases List.mem_cons.1 hb with rfl | hb
      · exact hblock
      · exact hblocks b hb
    have hnext : all = before ++ [line] ++ lines := by
      rw [hall, List.append_assoc, List.singleton_append]
    cases skip with
    | succ skip =>
      obtain ⟨rfl, hplain⟩ := hskip (Nat.succ_pos skip)
      refine ih skip none hnext (hfence.outside (hplain line (by simp))) ?_
      intro _
      exact ⟨rfl, fun l hl => hplain l (by rw [List.take_succ_cons]; exact List.mem_cons_of_mem _ hl)⟩
    | zero =>
      have hzero : ∀ {fence : Option FenceState} {l : List Text}, 0 < 0 →
          fence = none ∧ ∀ line ∈ l.take 0, ∀ fence, ¬Opens line fence := fun h => by cases h
      cases fence with
      | some fence =>
        rw [renderLines]
        refine hcons ?_ (ih 0 _ hnext hfence.next hzero)
        intro piece hpiece
        rw [List.mem_singleton.1 hpiece]
        exact ⟨fun _ => ⟨before, lines, hall, .inl ⟨fence, hfence⟩⟩,
          fun h => Origin.noConfusion h, fun h => Origin.noConfusion h⟩
      | none =>
        rw [renderLines]
        split
        · next opened hopened =>
          have hopens := opensFence_eq_some_iff.1 hopened
          refine hcons ?_ (ih 0 _ hnext (hfence.opened hopens) hzero)
          intro piece hpiece
          rw [List.mem_singleton.1 hpiece]
          exact ⟨fun _ => ⟨before, lines, hall, .inr ⟨hfence, opened, hopens⟩⟩,
            fun h => Origin.noConfusion h, fun h => Origin.noConfusion h⟩
        · next hopened =>
          have hplain := opensFence_eq_none_iff.1 hopened
          have hafter : FenceOpen (before ++ [line]) none := hfence.outside hplain
          have hinline := copied_renderInline resolve (.line hall hfence hplain)
          split
          · next hquote =>
            -- the lines of a quote open no fence either
            have hmore : ∀ l ∈ lines.takeWhile isQuoteLine, isQuoteLine l = true :=
              fun l hl => List.mem_takeWhile_imp hl
            have hcut : lines = lines.takeWhile isQuoteLine ++ lines.dropWhile isQuoteLine :=
              List.takeWhile_append_dropWhile.symm
            generalize lines.takeWhile isQuoteLine = more at hmore hcut
            intro block hblock
            rcases List.mem_append.1 hblock with hblock | hblock
            · apply copied_renderQuoteGroup resolve _ block hblock
              intro quote hin
              obtain ⟨front, back, hgroup⟩ := List.append_of_mem hin
              have hquotes : ∀ l ∈ line :: more, isQuoteLine l = true := by
                intro l hl
                rcases List.mem_cons.1 hl with rfl | hl
                · exact hquote
                · exact hmore l hl
              have hfront : FenceOpen (before ++ front) none := hfence.append fun l hl =>
                isQuoteLine_not_opens (hquotes l (by rw [hgroup]; exact List.mem_append_left _ hl))
              refine ⟨hquotes quote hin, before ++ front, back ++ lines.dropWhile isQuoteLine, ?_,
                hfront⟩
              have hgroup' : line :: lines = front ++ quote :: (back ++ lines.dropWhile isQuoteLine) := by
                conv_lhs => rw [hcut]
                rw [← List.cons_append, hgroup, List.append_assoc, List.cons_append]
              rw [hall, hgroup', List.append_assoc]
            · refine ih more.length none hnext hafter ?_ block hblock
              intro _
              refine ⟨rfl, fun l hl => isQuoteLine_not_opens (hmore l ?_)⟩
              rw [hcut, List.take_left] at hl
              exact hl
          · split
            · exact hcons hinline (ih 0 none hnext hafter hzero)
            · split
              · next joined count hjoin =>
                -- the joined lines stand next to one another
                have hsingle : lineBreak.intercalate [line] = line := List.intercalate_singleton
                rw [← hsingle] at hjoin
                obtain ⟨more, ⟨back, hback⟩, hout, hplains, hopens⟩ :=
                  joinOpen_intercalate (by simp) hjoin
                obtain ⟨rfl, rfl⟩ := Prod.mk.inj hout
                have hmore : ∀ l ∈ more, ∀ fence, ¬Opens l fence :=
                  fun l hl => opensFence_eq_none_iff.1 (hplains l hl)
                rw [Nat.zero_add]
                refine hcons ?_ (ih more.length none hnext hafter ?_)
                · apply copied_renderInline resolve
                  have hlines : all = before ++ ((line :: more) ++ back) := by
                    rw [hall, ← hback]
                    rfl
                  refine .joined hlines hfence ?_ ?_
                  · intro l hl
                    rcases List.mem_cons.1 hl with rfl | hl
                    · exact hplain
                    · exact hmore l hl
                  · intro n hn hlt
                    exact leftOpen_of_hasUnclosedCodeSpan (hopens n hn hlt)
                · intro _
                  refine ⟨rfl, fun l hl => hmore l ?_⟩
                  rw [← hback, List.take_left] at hl
                  exact hl
              · exact hcons hinline (ih 0 none hnext hafter hzero)

theorem copied_renderPieces (resolve : Resolver) (source : Text) :
    ∀ piece ∈ renderPieces resolve source, CopiedFrom (bodyLines source) piece := by
  intro piece hpiece
  rcases mem_of_mem_intercalate hpiece with hpiece | ⟨block, hblock, hpiece⟩
  · rw [List.mem_singleton.1 hpiece]
    exact .of_markup (.inl (by simp))
  · refine copied_renderLines resolve 0 none (List.nil_append _).symm .start (fun h => by cases h)
      block ?_ piece hpiece
    exact (List.dropWhile_suffix _).subset ((List.rdropWhile_prefix _ _).subset hblock)

/-! ## Section 6: Refused tags -/

/-- How many backslashes end a text. -/
def backslashRun (text : Text) : Nat := (text.rtakeWhile (· = '\\')).length

theorem parityAfter_eq (text : Text) :
    parityAfter false text = decide (backslashRun text % 2 = 1) := by
  induction text using List.reverseRecOn with
  | nil => rfl
  | append_singleton text c ih =>
    by_cases hc : c = '\\'
    · subst hc
      have hrun : backslashRun (text ++ ['\\']) = backslashRun text + 1 := by
        rw [backslashRun, List.rtakeWhile_concat_pos _ _ _ (by decide), List.length_append]
        rfl
      have hparity : parityAfter false (text ++ ['\\']) = !parityAfter false text := by
        rw [parityAfter_append]
        rfl
      rw [hrun, hparity, ih, ← decide_not, decide_eq_decide]
      omega
    · have hrun : backslashRun (text ++ [c]) = 0 := by
        rw [backslashRun, List.rtakeWhile_concat_neg _ _ _ (by simpa using hc)]
        rfl
      rw [parityAfter_concat hc, hrun]
      rfl

/-- No tag of the renderer is refused. -/
theorem refusedTag?_own {tag rest : Text} (htag : tag ∈ ownTags) (h : tag <+: '<' :: rest) :
    refusedTag? rest = none := by
  have hfirst : ∃ c ∈ ['m', '/', 'c', 'b'], ['<', c] <+: tag := by
    unfold ownTags at htag
    simp only [List.mem_cons, List.not_mem_nil, or_false] at htag
    rcases htag with rfl | rfl | rfl | rfl | rfl
    · exact ⟨'m', by simp, _, rfl⟩
    · exact ⟨'/', by simp, _, rfl⟩
    · exact ⟨'c', by simp, _, rfl⟩
    · exact ⟨'/', by simp, _, rfl⟩
    · exact ⟨'b', by simp, _, rfl⟩
  obtain ⟨c, hc, hstarts⟩ := hfirst
  obtain ⟨more, hmore⟩ := hstarts.trans h
  have hrest : rest = c :: more := by
    injection hmore.symm with _ hrest
  have hnone : ∀ c ∈ ['m', '/', 'c', 'b'], ∀ tag : RefusedTag, tag.text.head? ≠ some c.toLower := by
    intro c hc tag
    fin_cases hc
    all_goals cases tag <;> decide
  rw [hrest, refusedTag?, List.find?_eq_none]
  intro tag _ hmatch
  rw [List.map_cons] at hmatch
  cases htext : tag.text with
  | nil => cases tag <;> cases htext
  | cons t text =>
    rw [htext, List.isPrefixOf_cons_cons, Bool.and_eq_true, beq_iff_eq] at hmatch
    apply hnone c hc tag
    rw [htext, ← hmatch.1]
    rfl

theorem assertPushSafeFrom_ok (line : Nat) (odd : Bool) (text : Text)
    (h : ∀ pre post, text = pre ++ '<' :: post → parityAfter odd pre = false →
      refusedTag? post = none) : assertPushSafeFrom line odd text = .ok () := by
  induction text generalizing line odd with
  | nil => rfl
  | cons c text ih =>
    have hrest : ∀ pre post, text = pre ++ '<' :: post →
        parityAfter (stepParity odd c) pre = false → refusedTag? post = none := by
      intro pre post htext hparity
      exact h (c :: pre) post (by rw [htext, List.cons_append]) hparity
    rw [assertPushSafeFrom]
    unfold stepParity at hrest
    split
    · next hc =>
      rw [if_pos hc] at hrest
      exact ih line (!odd) hrest
    · next hc =>
      rw [if_neg hc] at hrest
      have hnone : (if c = '<' ∧ odd = false then refusedTag? text else none) = none := by
        split
        · next hopen => exact h [] text (by rw [hopen.1, List.nil_append]) hopen.2
        · rfl
      rw [hnone]
      exact ih _ false hrest

/-- Where an even run ends, what follows may open. -/
theorem mayOpen_renderPieces (resolve : Resolver) (source : Text) {pre post : List (Char × Origin)}
    {origin : Origin} (h : markedChars (renderPieces resolve source) = pre ++ ('<', origin) :: post)
    (heven : backslashRun (pre.map Prod.fst) % 2 = 0) : MayOpen origin (post.map Prod.fst) := by
  have hsafe := safe_renderPieces resolve source
  unfold Safe at hsafe
  rw [h] at hsafe
  apply hsafe.mayOpen
  rw [parityAfter_eq, decide_eq_false_iff_not]
  omega

theorem origin_of_refusedTag {origin : Origin} {rest : Text} (h : MayOpen origin rest)
    (hrefused : refusedTag? rest ≠ none) : origin = .fence ∨ origin = .code := by
  rcases h with h | h | ⟨_, tag, htag, hstarts⟩
  · exact .inl h
  · exact .inr h
  · exact absurd (refusedTag?_own htag hstarts) hrefused

theorem bodyLines_subset {source line : Text} (h : line ∈ bodyLines source) : line ⊆ source := by
  have hline : line ∈ (unix source).splitOn '\n' := by
    unfold bodyLines at h
    dsimp only at h
    split at h
    · exact (List.tail_suffix _).subset
        ((List.dropWhile_suffix _).subset ((List.tail_suffix _).subset h))
    · exact h
  exact List.Subset.trans (subset_of_mem_splitOn hline) (unix_subset source)

theorem stripQuoteMarker_suffix (line : Text) : stripQuoteMarker line <:+ line := by
  have hrest : (line.dropWhile isSpace).drop 1 <:+ line :=
    (List.drop_suffix _ _).trans (List.dropWhile_suffix _)
  unfold stripQuoteMarker
  dsimp only
  split
  · exact (List.tail_suffix _).trans hrest
  · exact hrest

theorem calloutMarker_suffix {first type title : Text}
    (h : calloutMarker first = some (type, title)) : title <:+ first := by
  unfold calloutMarker at h
  dsimp only at h
  have hrest : ((first.drop 2).dropWhile isTypeChar).tail <:+ first :=
    (List.tail_suffix _).trans ((List.dropWhile_suffix _).trans (List.drop_suffix 2 first))
  generalize (first.drop 2).dropWhile isTypeChar = rest at h hrest
  have hfold : (if rest.tail.head? = some '+' ∨ rest.tail.head? = some '-' then rest.tail.tail
      else rest.tail) <:+ first := by
    split
    · exact (List.tail_suffix _).trans hrest
    · exact hrest
  generalize (if rest.tail.head? = some '+' ∨ rest.tail.head? = some '-' then rest.tail.tail
    else rest.tail) = body at h hfold
  split at h
  · split at h
    · split at h
      · cases h
      · cases h
        exact (List.dropWhile_suffix _).trans hfold
    · cases h
  · cases h

/-- An inline text is made of the source and of line breaks. -/
theorem InlineText.mem {lines : List Text} {text : Text} (h : InlineText lines text) {c : Char}
    (hc : c ∈ text) : c ∈ lineBreak ∨ ∃ line ∈ lines, c ∈ line := by
  cases h with
  | joined hlines hfence hplain hopen =>
    rcases mem_of_mem_intercalate hc with hc | ⟨line, hline, hc⟩
    · exact .inl hc
    · exact .inr ⟨line, by rw [hlines]; simp [hline], hc⟩
  | @quote line hquoted =>
    obtain ⟨-, before, after, hlines, -⟩ := hquoted
    refine .inr ⟨line, by rw [hlines]; simp, ?_⟩
    exact (stripQuoteMarker_suffix line).subset ((List.rdropWhile_prefix _ _).subset hc)
  | @title line type _ hquoted hmarker =>
    obtain ⟨-, before, after, hlines, -⟩ := hquoted
    refine .inr ⟨line, by rw [hlines]; simp, ?_⟩
    exact (stripQuoteMarker_suffix line).subset ((List.dropWhile_suffix _).subset
      ((List.rdropWhile_prefix _ _).subset ((calloutMarker_suffix hmarker).subset hc)))

/-- Without fences and backticks nothing is copied. -/
theorem origin_renderPieces (resolve : Resolver) {source : Text} (htick : '`' ∉ source)
    (hfence : ∀ line ∈ bodyLines source, opensFence line = none) :
    ∀ piece ∈ renderPieces resolve source, piece.origin ≠ .fence ∧ piece.origin ≠ .code := by
  intro piece hpiece
  have hcopied := copied_renderPieces resolve source piece hpiece
  have hnone : ∀ line ∈ bodyLines source, ∀ fence, ¬Opens line fence :=
    fun line hline => opensFence_eq_none_iff.1 (hfence line hline)
  constructor
  · intro h
    obtain ⟨before, after, hlines, ⟨fence, hopen⟩ | ⟨-, fence, hopens⟩⟩ := hcopied.fence h
    · obtain ⟨line, hline, hopens⟩ := hopen.exists_opens
      exact hnone line (by rw [hlines]; exact List.mem_append_left _ hline) fence hopens
    · exact hnone piece.chars (by rw [hlines]; simp) fence hopens
  · intro h
    obtain ⟨text, htext, before, rest, hscanned, hat⟩ := hcopied.code h
    have hmem : '`' ∈ text := by
      rw [← hscanned.append_eq]
      simp [hat.tick_mem]
    rcases htext.mem hmem with hmem | ⟨line, hline, hmem⟩
    · exact absurd hmem (by decide)
    · exact htick (bodyLines_subset hline hmem)

theorem origin_mem {pieces : List Piece} {c : Char} {origin : Origin}
    (h : (c, origin) ∈ markedChars pieces) : ∃ piece ∈ pieces, piece.origin = origin := by
  obtain ⟨piece, hpiece, hc⟩ := List.mem_flatMap.1 h
  obtain ⟨_, _, hpair⟩ := List.mem_map.1 hc
  injection hpair with _ horigin
  exact ⟨piece, hpiece, horigin⟩

theorem assertPushSafe_renderWikiPage (resolve : Resolver) {source : Text} (htick : '`' ∉ source)
    (hfence : ∀ line ∈ bodyLines source, opensFence line = none) :
    assertPushSafe (renderWikiPage resolve source) = .ok () := by
  apply assertPushSafeFrom_ok
  intro pre post hsplit heven
  rw [renderWikiPage, ← map_fst_markedChars] at hsplit
  obtain ⟨pre, rest, hmarked, rfl, hrest⟩ := List.map_eq_append_iff.1 hsplit
  obtain ⟨⟨c, origin⟩, post, rfl, hc, rfl⟩ := List.map_eq_cons_iff.1 hrest
  dsimp only at hc
  subst hc
  have hopen := mayOpen_renderPieces resolve source hmarked (by
    rw [parityAfter_eq, decide_eq_false_iff_not] at heven
    omega)
  obtain ⟨piece, hpiece, horigin⟩ : ∃ piece ∈ renderPieces resolve source, piece.origin = origin :=
    origin_mem (c := '<') (by simp [hmarked])
  have hcopied := origin_renderPieces resolve htick hfence piece hpiece
  rw [horigin] at hcopied
  by_contra hrefused
  rcases origin_of_refusedTag hopen hrefused with h | h
  · exact hcopied.1 h
  · exact hcopied.2 h

theorem renderWikiPage_pushSafe (resolve : Resolver) (source : Text) :
    (markedChars (renderPieces resolve source)).map Prod.fst = renderWikiPage resolve source ∧
    (∀ piece ∈ renderPieces resolve source, CopiedFrom (bodyLines source) piece) ∧
    (∀ pre origin post,
      markedChars (renderPieces resolve source) = pre ++ ('<', origin) :: post →
      backslashRun (pre.map Prod.fst) % 2 = 0 →
        MayOpen origin (post.map Prod.fst) ∧
        (refusedTag? (post.map Prod.fst) ≠ none → origin = .fence ∨ origin = .code)) ∧
    ('`' ∉ source → (∀ line ∈ bodyLines source, opensFence line = none) →
      assertPushSafe (renderWikiPage resolve source) = .ok ()) := by
  refine ⟨map_fst_markedChars _, copied_renderPieces resolve source, ?_, ?_⟩
  · intro pre origin post hsplit heven
    have hopen := mayOpen_renderPieces resolve source hsplit heven
    exact ⟨hopen, origin_of_refusedTag hopen⟩
  · exact fun htick hfence => assertPushSafe_renderWikiPage resolve htick hfence

end Lares.Notion.Translate
