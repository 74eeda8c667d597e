import Lares.Notion.PushSafety
import Lares.Notion.TranslatePull
import Mathlib

/-! # Inline text, pushed and pulled

    What the renderer escapes is read back, except where a backslash stands before a
    link, or a tag that the text itself spells runs over one.

    * **Tokens**: a text is plain characters and links; so is its rendering.
    * **Tags**: what a tag reads of plain characters and of links.
    * **Round trip**: by induction on the tokens, with the text since the last link.
-/

namespace Lares.Notion.TranslatePull

open Lines Translate

/-! ## Section 1: Tokens -/

inductive Token where
  | char (c : Char)
  | link (link : Wikilink)

def Token.raw : Token → Text
  | .char c => [c]
  | .link l => l.raw

def rawOf (tokens : List Token) : Text := tokens.flatMap Token.raw

/-- `skip` characters belong to the link before. -/
def tokensFrom : Nat → Text → List Token
  | _, [] => []
  | skip + 1, _ :: text => tokensFrom skip text
  | 0, c :: text =>
      match wikilinkAt (c :: text) with
      | some link => .link link :: tokensFrom (link.raw.length - 1) text
      | none => .char c :: tokensFrom 0 text

def tokensOf (text : Text) : List Token := tokensFrom 0 text

/-- After a run of backslashes that is odd or not. -/
def renderTokens (resolve : Resolver) : Bool → List Token → Text
  | _, [] => []
  | odd, .char c :: tokens =>
      escapeAnglesFrom odd [c] ++ renderTokens resolve (stepParity odd c) tokens
  | _, .link link :: tokens => markdownOf (renderLink resolve link) ++ renderTokens resolve false tokens

theorem escapeAnglesFrom_append (odd : Bool) (a b : Text) :
    escapeAnglesFrom odd (a ++ b) = escapeAnglesFrom odd a ++ escapeAnglesFrom (parityAfter odd a) b := by
  induction a generalizing odd with
  | nil => rfl
  | cons c a ih =>
    have hparity : parityAfter odd (c :: a) = parityAfter (stepParity odd c) a := rfl
    rw [hparity, List.cons_append, escapeAnglesFrom, escapeAnglesFrom]
    unfold stepParity
    split
    · rw [ih, List.cons_append]
    · split
      · rw [ih, List.cons_append, List.cons_append]
      · rw [ih, List.cons_append]

/-- What a link is made of. -/
structure LinkShape (link : Wikilink) (body : Text) : Prop where
  raw : link.raw = '[' :: '[' :: body ++ closing
  noBracket : ∀ c ∈ body, c ≠ '[' ∧ c ≠ ']'
  target : link.aliasText = none → body = link.target

theorem wikilinkAt_shape {text : Text} {link : Wikilink} (h : wikilinkAt text = some link) :
    link.raw <+: text ∧ ∃ body, LinkShape link body := by
  have htarget : ∀ c ∈ (text.drop 2).takeWhile isTargetChar, c ≠ '[' ∧ c ≠ ']' := by
    intro c hc
    have := List.mem_takeWhile_imp hc
    simp only [isTargetChar, List.mem_cons, decide_eq_true_eq] at this
    tauto
  have hsplit : text.drop 2 =
      (text.drop 2).takeWhile isTargetChar ++ (text.drop 2).dropWhile isTargetChar :=
    List.takeWhile_append_dropWhile.symm
  unfold wikilinkAt at h
  dsimp only at h
  split at h
  · next hopen =>
    obtain ⟨more, rfl⟩ := List.isPrefixOf_iff_prefix.1 hopen
    have hmore : (['[', '['] ++ more).drop 2 = more := rfl
    rw [hmore] at h htarget hsplit
    generalize more.takeWhile isTargetChar = target at *
    generalize more.dropWhile isTargetChar = rest at *
    split at h
    · cases h
    · split at h
      · next hclose =>
        cases h
        obtain ⟨tail, rfl⟩ := List.isPrefixOf_iff_prefix.1 hclose
        refine ⟨⟨tail, ?_⟩, target, ⟨rfl, htarget, fun _ => rfl⟩⟩
        rw [hsplit]
        simp
      · split at h
        · next hpipe =>
          split at h
          · next hclose =>
            cases h
            obtain ⟨tail, htail⟩ := List.isPrefixOf_iff_prefix.1 hclose
            obtain ⟨label, rfl⟩ : ∃ label, rest = '|' :: label := by
              cases rest with
              | nil => cases hpipe
              | cons c rest =>
                rw [List.head?_cons, Option.some_inj] at hpipe
                exact ⟨rest, by rw [hpipe]⟩
            rw [List.tail_cons] at htail ⊢
            have hlabel : label = label.takeWhile isAliasChar ++ (closing ++ tail) := by
              rw [htail]
              exact List.takeWhile_append_dropWhile.symm
            refine ⟨⟨tail, ?_⟩, target ++ '|' :: label.takeWhile isAliasChar, by simp, ?_, ?_⟩
            · rw [hsplit]
              conv_rhs => rw [hlabel]
              simp
            · intro c hc
              rcases List.mem_append.1 hc with hc | hc
              · exact htarget c hc
              · rcases List.mem_cons.1 hc with rfl | hc
                · exact ⟨by decide, by decide⟩
                · have := List.mem_takeWhile_imp hc
                  simp only [isAliasChar, List.mem_cons, decide_eq_true_eq] at this
                  tauto
            · intro halias
              cases halias
          · cases h
        · cases h
  · cases h

theorem length_raw {link : Wikilink} {body : Text} (h : LinkShape link body) :
    link.raw.length - 1 + 1 = link.raw.length := by
  rw [h.raw]
  simp

theorem rawOf_tokensFrom (skip : Nat) (text : Text) :
    rawOf (tokensFrom skip text) = text.drop skip := by
  induction text generalizing skip with
  | nil => cases skip <;> rfl
  | cons c text ih =>
    cases skip with
    | succ skip => exact ih skip
    | zero =>
      rw [tokensFrom]
      cases hlink : wikilinkAt (c :: text) with
      | none =>
        dsimp only
        change [c] ++ rawOf (tokensFrom 0 text) = c :: text
        rw [ih, List.drop_zero, List.singleton_append]
      | some link =>
        obtain ⟨⟨more, hmore⟩, body, hshape⟩ := wikilinkAt_shape hlink
        dsimp only
        change link.raw ++ rawOf (tokensFrom (link.raw.length - 1) text) = c :: text
        have hdrop : (c :: text).drop (link.raw.length - 1 + 1) = text.drop (link.raw.length - 1) :=
          List.drop_succ_cons
        rw [length_raw hshape] at hdrop
        rw [ih, ← hdrop, ← hmore, List.drop_left]

theorem rawOf_tokensOf (text : Text) : rawOf (tokensOf text) = text := rawOf_tokensFrom 0 text

theorem link_tokensFrom {link : Wikilink} {skip : Nat} {text : Text}
    (h : Token.link link ∈ tokensFrom skip text) : ∃ body, LinkShape link body := by
  induction text generalizing skip with
  | nil => cases skip <;> cases h
  | cons c text ih =>
    cases skip with
    | succ skip => exact ih h
    | zero =>
      rw [tokensFrom] at h
      split at h
      · next found hfound =>
        rcases List.mem_cons.1 h with h | h
        · cases h
          exact (wikilinkAt_shape hfound).2
        · exact ih h
      · rcases List.mem_cons.1 h with h | h
        · cases h
        · exact ih h

/-- The rendering, token by token. -/
theorem renderPlainFrom_tokens (resolve : Resolver) (skip : Nat) (before text : Text) :
    markdownOf (renderPlainFrom resolve skip before text) = escapeAngles before.reverse ++
      renderTokens resolve (parityAfter false before.reverse) (tokensFrom skip text) := by
  induction text generalizing skip before with
  | nil =>
    cases skip
    all_goals
      rw [renderPlainFrom, tokensFrom, renderTokens, List.append_nil, markdownOf,
        List.flatMap_singleton]
  | cons c text ih =>
    cases skip with
    | succ skip => exact ih skip before
    | zero =>
      rw [renderPlainFrom, tokensFrom]
      cases hlink : wikilinkAt (c :: text) with
      | none =>
        dsimp only
        rw [ih, List.reverse_cons, escapeAngles, escapeAnglesFrom_append, parityAfter_append,
          List.append_assoc]
        rfl
      | some link =>
        dsimp only
        rw [List.cons_append, markdownOf, List.flatMap_cons, List.flatMap_append]
        change escapeAngles before.reverse ++ (markdownOf (renderLink resolve link) ++
          markdownOf (renderPlainFrom resolve _ [] text)) = _
        rw [ih]
        rfl

theorem renderPlainText_tokens (resolve : Resolver) (text : Text) :
    markdownOf (renderPlainText resolve text) = renderTokens resolve false (tokensOf text) :=
  renderPlainFrom_tokens resolve 0 [] text

/-! ## Section 2: Unescaping -/

/-- No `<` stands after an odd run of backslashes. -/
def Clean : Bool → Text → Prop
  | _, [] => True
  | odd, c :: text => (c = '<' → odd = false) ∧ Clean (stepParity odd c) text

theorem unescapeLiteralPairs_cons {c : Char} (h : c ≠ '\\') (text : Text) :
    unescapeLiteralPairs (c :: text) = c :: unescapeLiteralPairs text := by
  cases text with
  | nil => rfl
  | cons d text => rw [unescapeLiteralPairs, if_neg h]

/-- A literal is read back by pairs. -/
theorem unescapeLiteralPairs_escapeLiteral (text : Text) :
    unescapeLiteralPairs (escapeLiteral text) = text := by
  induction text with
  | nil => rfl
  | cons c text ih =>
    have hcons : escapeLiteral (c :: text) =
        (if c ∈ specials then ['\\', c] else [c]) ++ escapeLiteral text := rfl
    rw [hcons]
    split
    · rw [List.cons_append, List.cons_append, List.nil_append, unescapeLiteralPairs, if_pos rfl, ih]
    · next hspecial =>
      have hc : c ≠ '\\' := by
        rintro rfl
        exact hspecial (by decide)
      rw [List.singleton_append, unescapeLiteralPairs_cons hc, ih]

/-- The parity of a run of `n`. -/
def oddRun (n : Nat) : Bool := decide (n % 2 = 1)

theorem oddRun_succ (n : Nat) : oddRun (n + 1) = !oddRun n := by
  rw [oddRun, oddRun, ← decide_not, decide_eq_decide]
  omega

/-- Escaped prose is read back by parity. -/
theorem unescapeAngleFrom_escape (n : Nat) (text : Text) (h : Clean (oddRun n) text) :
    unescapeAngleFrom n (escapeAnglesFrom (oddRun n) text) = List.replicate n '\\' ++ text := by
  induction text generalizing n with
  | nil => simp [escapeAnglesFrom, unescapeAngleFrom]
  | cons c text ih =>
    obtain ⟨hopen, hrest⟩ := h
    have hzero := ih 0
    rw [escapeAnglesFrom]
    unfold stepParity at hrest
    split
    · next hc =>
      rw [if_pos hc, ← oddRun_succ] at hrest
      rw [unescapeAngleFrom, if_pos hc, ← oddRun_succ, ih (n + 1) hrest, hc, List.replicate_succ',
        List.append_assoc, List.singleton_append]
    · next hc =>
      rw [if_neg hc] at hrest
      split
      · next hlt =>
        obtain ⟨rfl, hodd⟩ := hlt
        -- the new backslash goes, the run before it stays
        have hn : (n + 1) % 2 = 1 := by
          rw [oddRun, decide_eq_false_iff_not] at hodd
          omega
        rw [unescapeAngleFrom, if_pos rfl, unescapeAngleFrom, if_neg hc, if_pos ⟨rfl, hn⟩,
          Nat.add_sub_cancel]
        rw [show escapeAnglesFrom false text = escapeAnglesFrom (oddRun 0) text from rfl,
          hzero hrest]
        rfl
      · next hlt =>
        have hrun : ¬ (c = '<' ∧ n % 2 = 1) := by
          rintro ⟨hc', hn⟩
          rw [hopen hc', oddRun] at *
          exact hlt ⟨hc', rfl⟩
        rw [unescapeAngleFrom, if_neg hc, if_neg hrun,
          show escapeAnglesFrom false text = escapeAnglesFrom (oddRun 0) text from rfl, hzero hrest]
        rfl

theorem Clean.append {odd : Bool} {a b : Text} (ha : Clean odd a)
    (hb : Clean (parityAfter odd a) b) : Clean odd (a ++ b) := by
  induction a generalizing odd with
  | nil => exact hb
  | cons c a ih => exact ⟨ha.1, ih ha.2 hb⟩

/-- What follows escaped prose ends its last run. -/
theorem unescapeAngleFrom_escape_append (n : Nat) (text : Text) (h : Clean (oddRun n) text)
    {c : Char} (hc : c ≠ '\\') (more : Text) :
    unescapeAngleFrom n (escapeAnglesFrom (oddRun n) text ++ c :: more) =
      (if c = '<' ∧ parityAfter (oddRun n) text = true then
        (List.replicate n '\\' ++ text).dropLast
      else List.replicate n '\\' ++ text) ++ c :: unescapeAngleFrom 0 more := by
  induction text generalizing n with
  | nil =>
    have hparity : parityAfter (oddRun n) [] = true ↔ n % 2 = 1 := decide_eq_true_iff
    rw [escapeAnglesFrom, List.nil_append, unescapeAngleFrom, if_neg hc, List.append_nil]
    simp only [hparity, List.dropLast_replicate]
    split
    · rfl
    · rfl
  | cons d text ih =>
    obtain ⟨hopen, hrest⟩ := h
    have hparity : parityAfter (oddRun n) (d :: text) =
        parityAfter (stepParity (oddRun n) d) text := rfl
    rw [hparity, escapeAnglesFrom]
    unfold stepParity at hrest ⊢
    split
    · next hd =>
      rw [if_pos hd, ← oddRun_succ] at hrest
      have hsnoc : List.replicate (n + 1) '\\' ++ text = List.replicate n '\\' ++ d :: text := by
        rw [hd, List.replicate_succ', List.append_assoc, List.singleton_append]
      rw [List.cons_append, unescapeAngleFrom, if_pos hd, ← oddRun_succ, ih (n + 1) hrest, hsnoc]
    · next hd =>
      rw [if_neg hd] at hrest
      -- a character that is no backslash starts a new run
      have hfresh := ih 0 hrest
      rw [List.replicate_zero, List.nil_append] at hfresh
      change unescapeAngleFrom 0 (escapeAnglesFrom false text ++ c :: more) = _ at hfresh
      have hlast : ∀ last : Text, (if c = '<' ∧ parityAfter false text = true then
          (last ++ d :: text).dropLast else last ++ d :: text) =
          last ++ d :: (if c = '<' ∧ parityAfter false text = true then text.dropLast else text) := by
        intro last
        split
        · next hodd =>
          have hne : text ≠ [] := by
            rintro rfl
            cases hodd.2
          rw [List.dropLast_append_of_ne_nil (List.cons_ne_nil d text),
            List.dropLast_cons_of_ne_nil hne]
        · rfl
      rw [hlast, List.append_assoc, List.cons_append]
      change unescapeAngleFrom n _ = List.replicate n '\\' ++ d ::
        ((if c = '<' ∧ parityAfter (oddRun 0) text = true then text.dropLast else text) ++
          c :: unescapeAngleFrom 0 more)
      rw [← hfresh]
      split
      · next hlt =>
        obtain ⟨rfl, hodd⟩ := hlt
        have hn : (n + 1) % 2 = 1 := by
          rw [oddRun, decide_eq_false_iff_not] at hodd
          omega
        rw [List.cons_append, List.cons_append, unescapeAngleFrom, if_pos rfl, unescapeAngleFrom,
          if_neg hd, if_pos ⟨rfl, hn⟩, Nat.add_sub_cancel]
      · next hlt =>
        have hrun : ¬ (d = '<' ∧ n % 2 = 1) := by
          rintro ⟨hd', hn⟩
          rw [hopen hd', oddRun] at *
          exact hlt ⟨hd', rfl⟩
        rw [List.cons_append, unescapeAngleFrom, if_neg hd, if_neg hrun]

theorem parityAfter_concat_backslash {text : Text} (h : parityAfter false text = true) :
    ∃ init, text = init ++ ['\\'] := by
  cases text using List.reverseRecOn with
  | nil => cases h
  | append_singleton init c =>
    by_cases hc : c = '\\'
    · exact ⟨init, by rw [hc]⟩
    · rw [parityAfter_concat hc] at h
      cases h

/-- A `<` that no character of the text stands for is not lost. -/
theorem unescaped_lt_ne {before : Text} (hclean : Clean false before) (more v w : Text) :
    unescapeAngleOnly (escapeAngles before ++ '<' :: more) ++ v ≠ before ++ '[' :: w := by
  have hread := unescapeAngleFrom_escape_append 0 before hclean (c := '<') (by decide) more
  rw [List.replicate_zero, List.nil_append] at hread
  change unescapeAngleFrom 0 (escapeAnglesFrom (oddRun 0) before ++ _) ++ v ≠ _
  rw [hread]
  split
  · next hodd =>
    obtain ⟨init, rfl⟩ := parityAfter_concat_backslash hodd.2
    intro h
    simp at h
  · intro h
    simp at h

/-- A link whose rendering is taken for prose is lost. -/
theorem renderLink_unescaped_ne (resolve : Resolver) {link : Wikilink} {body before : Text}
    (hshape : LinkShape link body) (hclean : Clean false before) (u v w : Text) :
    unescapeAngleOnly (escapeAngles before ++ (markdownOf (renderLink resolve link) ++ u)) ++ v ≠
      before ++ (link.raw ++ w) := by
  have hraw : link.raw ++ w = '[' :: ('[' :: body ++ closing ++ w) := by
    rw [hshape.raw]
    rfl
  unfold renderLink
  cases resolve link.target with
  | none =>
    have hliteral : markdownOf [⟨.text, escapeLiteral link.raw⟩] ++ u =
        '\\' :: '[' :: (escapeLiteral ('[' :: body ++ closing) ++ u) := by
      rw [markdownOf, List.flatMap_singleton, hshape.raw]
      rfl
    have hsnoc : escapeAngles before ++ ['\\'] = escapeAngles (before ++ ['\\']) := by
      rw [escapeAngles, escapeAngles, escapeAnglesFrom_append]
      rfl
    dsimp only
    rw [hliteral, ← List.singleton_append, ← List.append_assoc, hsnoc]
    have hclean' : Clean (oddRun 0) (before ++ ['\\']) := hclean.append ⟨by simp, trivial⟩
    have hread := unescapeAngleFrom_escape_append 0 (before ++ ['\\']) hclean' (c := '[')
      (by decide) (escapeLiteral ('[' :: body ++ closing) ++ u)
    rw [if_neg (by simp), List.replicate_zero, List.nil_append] at hread
    change unescapeAngleFrom 0 (escapeAnglesFrom false (before ++ ['\\']) ++ _) ++ v ≠ _
    rw [show escapeAnglesFrom false (before ++ ['\\']) =
      escapeAnglesFrom (oddRun 0) (before ++ ['\\']) from rfl, hread, hraw]
    intro h
    simp at h
  | some page =>
    dsimp only
    obtain ⟨more, hmore⟩ : ∃ more, markdownOf [⟨.markup, mentionStart⟩,
        ⟨.text, attrSafe page.url⟩, ⟨.markup, ['"', '>']⟩, ⟨.text, escapeLiteral
          (if isBlank (link.aliasText.getD []) then page.title else link.aliasText.getD [])⟩,
        ⟨.markup, mentionEnd⟩] ++ u = '<' :: more := ⟨_, rfl⟩
    rw [hmore, hraw]
    exact unescaped_lt_ne hclean more v _

/-! ## Section 3: Tags over tokens -/

/-- Where a tag that does not end in the text is read to. -/
def feed : TagState → Text → Option TagState
  | state, [] => some state
  | state, c :: text =>
      match tagStep state c with
      | none => none
      | some next => if next = .closed then none else feed next text

/-- The same over an escaped text, in which a special character can only be quoted. -/
def feedLiteral : TagState → Text → Option TagState
  | state, [] => some state
  | state, c :: text =>
      if c ∈ specials then if state = .quoted then feedLiteral state text else none
      else
        match tagStep state c with
        | none => none
        | some next => feedLiteral next text

/-- The same over a link. A resolved one takes two quoted values: its url has to be
    white space, a name and `=`. -/
def linkState (resolve : Resolver) (state : TagState) (link : Wikilink) : Option TagState :=
  if state = .quoted then
    match resolve link.target with
    | none => feedLiteral .quoted link.raw
    | some page =>
        if feed .unquoted (attrSafe page.url) = some .equals ∧
            feedLiteral .quoted page.title = some .quoted then some .quoted
        else none
  else none

/-- Whether the tag runs over a link, and how many tokens it takes. -/
def readTag (resolve : Resolver) : TagState → List Token → Option (Bool × Nat)
  | _, [] => none
  | state, .char c :: tokens =>
      match tagStep state c with
      | none => none
      | some next =>
          if next = .closed then some (false, 1)
          else (readTag resolve next tokens).map fun out => (out.1, out.2 + 1)
  | state, .link link :: tokens =>
      match linkState resolve state link with
      | none => none
      | some next => (readTag resolve next tokens).map fun out => (true, out.2 + 1)

theorem tagStep_special {state : TagState} {c : Char} (hc : c ∈ specials) (hgt : c ≠ '>')
    (hstate : state ≠ .quoted) : tagStep state c = none := by
  simp only [specials, List.mem_cons, List.not_mem_nil, or_false] at hc
  rcases hc with rfl | rfl | rfl | rfl | rfl | rfl | rfl | rfl | rfl | rfl | rfl | rfl | rfl
  all_goals
    cases state with
    | quoted => exact absurd rfl hstate
    | _ => first | rfl | exact absurd rfl hgt

theorem tagEnd_closed {c : Char} (h : tagEnd c = some .closed) : c = '>' := by
  unfold tagEnd at h
  split at h
  · cases h
  · split at h
    · cases h
    · split at h
      · next hc => exact hc
      · cases h

theorem tagStep_closed {state : TagState} {c : Char} (h : tagStep state c = some .closed) :
    c = '>' := by
  cases state with
  | start => simp only [tagStep] at h; split at h <;> cases h
  | name => simp only [tagStep] at h; split at h; cases h; exact tagEnd_closed h
  | space => simp only [tagStep] at h; split at h; cases h; exact tagEnd_closed h
  | key =>
    simp only [tagStep] at h
    split at h
    · cases h
    · split at h <;> cases h
  | equals => simp only [tagStep] at h; split at h <;> cases h
  | quoted => simp only [tagStep] at h; split at h <;> cases h
  | unquoted => exact tagEnd_closed h
  | slash =>
    simp only [tagStep] at h
    split at h
    · next hc => exact hc
    · cases h
  | closed => cases h

theorem tagStep_quoted {c : Char} (h : c ≠ '"') : tagStep .quoted c = some .quoted := if_neg h

theorem feed_append (state : TagState) (a b : Text) :
    feed state (a ++ b) = (feed state a).bind fun next => feed next b := by
  induction a generalizing state with
  | nil => rfl
  | cons c a ih =>
    rw [List.cons_append, feed, feed]
    cases tagStep state c with
    | none => rfl
    | some next =>
      dsimp only
      split
      · rfl
      · exact ih next

/-- A tag that does not end in `a` goes on after it. -/
theorem tagFrom_append {state : TagState} {a : Text} (h : tagFrom state a = none) (b : Text) :
    tagFrom state (a ++ b) = (feed state a).bind fun next =>
      (tagFrom next b).map fun out => (a ++ out.1, out.2) := by
  induction a generalizing state with
  | nil =>
    rw [List.nil_append]
    cases hout : tagFrom state b <;> simp [feed, hout]
  | cons c a ih =>
    rw [tagFrom] at h
    rw [List.cons_append, tagFrom, feed]
    cases hstep : tagStep state c with
    | none => rfl
    | some next =>
      rw [hstep] at h
      dsimp only at h ⊢
      split at h
      · cases h
      · next hopen =>
        rw [if_neg hopen, if_neg hopen, ih (Option.map_eq_none_iff.1 h)]
        cases feed next a with
        | none => rfl
        | some last => cases hout : tagFrom last b <;> simp [hout]

theorem tagFrom_append_none {state : TagState} {a b : Text} (ha : tagFrom state a = none)
    (hb : ∀ next, feed state a = some next → tagFrom next b = none) :
    tagFrom state (a ++ b) = none := by
  rw [tagFrom_append ha]
  cases hfeed : feed state a with
  | none => rfl
  | some next => simp [hb next hfeed]

theorem tagFrom_of_not_mem {text : Text} (h : '>' ∉ text) (state : TagState) :
    tagFrom state text = none := by
  induction text generalizing state with
  | nil => rfl
  | cons c text ih =>
    rw [List.mem_cons, not_or] at h
    rw [tagFrom]
    cases hstep : tagStep state c with
    | none => rfl
    | some next =>
      dsimp only
      split
      · next hclosed =>
        rw [hclosed] at hstep
        exact absurd (tagStep_closed hstep).symm h.1
      · rw [ih h.2, Option.map_none]

/-- A backslash stays where a tag is quoted, as the special character after it does. -/
theorem feed_special (state : TagState) {c : Char} (hc : c ∈ specials) :
    feed state ['\\', c] = (if state = .quoted then some .quoted else none) ∧
      tagFrom state ['\\', c] = none := by
  by_cases hstate : state = .quoted
  · have hquote : c ≠ '"' := by
      rintro rfl
      exact absurd hc (by decide)
    have hback : tagStep .quoted '\\' = some .quoted := rfl
    subst hstate
    simp only [feed, tagFrom, hback, tagStep_quoted hquote]
    exact ⟨rfl, rfl⟩
  · have hback : tagStep state '\\' = none := tagStep_special (by decide) (by decide) hstate
    rw [if_neg hstate]
    simp only [feed, tagFrom, hback]
    exact ⟨trivial, trivial⟩

theorem feed_escapeLiteral (state : TagState) (text : Text) :
    feed state (escapeLiteral text) = feedLiteral state text ∧
      tagFrom state (escapeLiteral text) = none := by
  induction text generalizing state with
  | nil => exact ⟨rfl, rfl⟩
  | cons c text ih =>
    have hcons : escapeLiteral (c :: text) =
        (if c ∈ specials then ['\\', c] else [c]) ++ escapeLiteral text := rfl
    rw [hcons, feedLiteral]
    split
    · next hspecial =>
      obtain ⟨hfeed, hnone⟩ := feed_special state hspecial
      rw [feed_append, hfeed]
      refine ⟨?_, tagFrom_append_none hnone fun next _ => (ih next).2⟩
      split
      · next hstate =>
        rw [hstate]
        exact (ih .quoted).1
      · rfl
    · next hspecial =>
      rw [List.singleton_append, feed, tagFrom]
      cases hstep : tagStep state c with
      | none => exact ⟨rfl, rfl⟩
      | some next =>
        have hopen : next ≠ .closed := by
          rintro rfl
          rw [tagStep_closed hstep] at hspecial
          exact hspecial (by decide)
        dsimp only
        rw [if_neg hopen, if_neg hopen, (ih next).2]
        exact ⟨(ih next).1, rfl⟩

/-- In quotes or not is told by the quotes alone. -/
theorem feed_not_quoted {state next : TagState} {text : Text} (hquote : '"' ∉ text)
    (hstate : state ≠ .quoted) (h : feed state text = some next) : next ≠ .quoted := by
  induction text generalizing state with
  | nil =>
    cases h
    exact hstate
  | cons c text ih =>
    rw [List.mem_cons, not_or] at hquote
    rw [feed] at h
    cases hstep : tagStep state c with
    | none =>
      rw [hstep] at h
      cases h
    | some mid =>
      rw [hstep] at h
      dsimp only at h
      split at h
      · cases h
      · refine ih hquote.2 ?_ h
        rintro rfl
        cases state with
        | quoted => exact hstate rfl
        | equals =>
          simp only [tagStep] at hstep
          split at hstep
          · next hc => exact hquote.1 hc.symm
          · cases hstep
        | closed => cases hstep
        | start =>
          simp only [tagStep] at hstep
          split at hstep <;> cases hstep
        | slash =>
          simp only [tagStep] at hstep
          split at hstep <;> cases hstep
        | key =>
          simp only [tagStep] at hstep
          split at hstep
          · cases hstep
          · split at hstep <;> cases hstep
        | _ =>
          simp only [tagStep, tagEnd] at hstep
          repeat' split at hstep
          all_goals cases hstep

theorem attrSafe_not_mem (url : Text) : '"' ∉ attrSafe url ∧ '>' ∉ attrSafe url := by
  rw [attrSafe, List.mem_flatMap, List.mem_flatMap]
  constructor
  all_goals
    rintro ⟨c, -, hmem⟩
    split at hmem
    · exact absurd hmem (by decide)
    · next hquote =>
      split at hmem
      · exact absurd hmem (by decide)
      · split at hmem
        · exact absurd hmem (by decide)
        · next hgt =>
          have hc := List.mem_singleton.1 hmem
          first | exact hquote hc.symm | exact hgt hc.symm

theorem tagStep_quote {state : TagState} (hstate : state ≠ .quoted) :
    tagStep state '"' = if state = .equals then some .quoted else none := by
  cases state with
  | quoted => exact absurd rfl hstate
  | _ => rfl

/-- Unresolved, or named by its target alone. -/
def Plain (resolve : Resolver) (link : Wikilink) : Prop :=
  resolve link.target = none ∨ link.aliasText = none

theorem renderLink_plain {resolve : Resolver} {link : Wikilink} (h : Plain resolve link) :
    markdownOf (renderLink resolve link) =
      match resolve link.target with
      | none => escapeLiteral link.raw
      | some page => mentionStart ++ (attrSafe page.url ++ ('"' :: '>' ::
          (escapeLiteral page.title ++ mentionEnd))) := by
  unfold renderLink
  cases hresolve : resolve link.target with
  | none => exact List.flatMap_singleton ..
  | some page =>
    have halias : link.aliasText = none := h.resolve_left (by simp [hresolve])
    rw [halias]
    simp [markdownOf, isBlank]

/-- A tag goes over a link as it goes over its rendering, and never ends there. -/
theorem feed_renderLink {resolve : Resolver} {link : Wikilink} {body : Text}
    (hshape : LinkShape link body) (hplain : Plain resolve link) (state : TagState) :
    feed state (markdownOf (renderLink resolve link)) = linkState resolve state link ∧
      tagFrom state (markdownOf (renderLink resolve link)) = none := by
  rw [renderLink_plain hplain]
  unfold linkState
  cases resolve link.target with
  | none =>
    obtain ⟨hfeed, hnone⟩ := feed_escapeLiteral state link.raw
    refine ⟨?_, hnone⟩
    dsimp only
    split
    · next hstate => rw [hfeed, hstate]
    · next hstate =>
      rw [hfeed, hshape.raw, List.cons_append, feedLiteral, if_pos (by decide), if_neg hstate]
  | some page =>
    dsimp only
    by_cases hstate : state = .quoted
    · subst hstate
      rw [if_pos rfl]
      obtain ⟨hquote, hgt⟩ := attrSafe_not_mem page.url
      obtain ⟨hlabel, hlabelNone⟩ := feed_escapeLiteral .quoted page.title
      have hstart : feed .quoted mentionStart = some .unquoted := rfl
      have hend : ∀ next, feed next mentionEnd =
          (if next = .quoted then some .quoted else none) ∧ tagFrom next mentionEnd = none := by
        intro next
        by_cases hnext : next = .quoted
        · subst hnext
          exact ⟨rfl, rfl⟩
        · have hlt : tagStep next '<' = none := tagStep_special (by decide) (by decide) hnext
          rw [if_neg hnext]
          constructor
          · change feed next ('<' :: mentionEnd.tail) = none
            rw [feed, hlt]
          · change tagFrom next ('<' :: mentionEnd.tail) = none
            rw [tagFrom, hlt]
      -- the title and the end of the mention, in the second quoted value
      have htail : feed .quoted (escapeLiteral page.title ++ mentionEnd) =
          (if feedLiteral .quoted page.title = some .quoted then some .quoted else none) ∧
          tagFrom .quoted (escapeLiteral page.title ++ mentionEnd) = none := by
        rw [feed_append, hlabel]
        refine ⟨?_, tagFrom_append_none hlabelNone fun next _ => (hend next).2⟩
        cases feedLiteral .quoted page.title with
        | none => rfl
        | some next =>
          rw [Option.bind_some, (hend next).1]
          simp only [Option.some_inj]
      have hurl : ∀ next, next ≠ .quoted →
          feed next ('"' :: '>' :: (escapeLiteral page.title ++ mentionEnd)) =
            (if next = .equals ∧ feedLiteral .quoted page.title = some .quoted then some .quoted
              else none) ∧
          tagFrom next ('"' :: '>' :: (escapeLiteral page.title ++ mentionEnd)) = none := by
        intro next hnext
        have hgtStep : tagStep .quoted '>' = some .quoted := rfl
        rw [feed, tagFrom, tagStep_quote hnext]
        by_cases hequals : next = .equals
        · simp only [hequals, if_true, true_and, reduceCtorEq, if_false, feed, tagFrom, hgtStep,
            htail.1, htail.2, Option.map_none]
        · simp only [hequals, if_false, false_and]
          exact ⟨trivial, trivial⟩
      rw [feed_append, hstart, Option.bind_some, feed_append]
      constructor
      · cases hnext : feed .unquoted (attrSafe page.url) with
        | none => simp
        | some next =>
          rw [Option.bind_some, (hurl next (feed_not_quoted hquote (by decide) hnext)).1]
          simp only [Option.some_inj]
      · refine tagFrom_append_none rfl fun first hfirst => ?_
        rw [hstart] at hfirst
        cases hfirst
        refine tagFrom_append_none (tagFrom_of_not_mem hgt _) fun next hnext => ?_
        exact (hurl next (feed_not_quoted hquote (by decide) hnext)).2
    · have hlt : tagStep state '<' = none := tagStep_special (by decide) (by decide) hstate
      rw [if_neg hstate]
      constructor
      · change feed state ('<' :: (mentionStart.tail ++ _)) = none
        rw [feed, hlt]
      · change tagFrom state ('<' :: (mentionStart.tail ++ _)) = none
        rw [tagFrom, hlt]

/-- The links of a text, as the round trip needs them. -/
def Links (resolve : Resolver) (tokens : List Token) : Prop :=
  ∀ link, Token.link link ∈ tokens → (∃ body, LinkShape link body) ∧ Plain resolve link

def charTokens (text : Text) : List Token := text.map Token.char

theorem renderTokens_chars (resolve : Resolver) (odd : Bool) (text : Text) (tokens : List Token) :
    renderTokens resolve odd (charTokens text ++ tokens) =
      escapeAnglesFrom odd text ++ renderTokens resolve (parityAfter odd text) tokens := by
  induction text generalizing odd with
  | nil => rfl
  | cons c text ih =>
    change escapeAnglesFrom odd [c] ++
      renderTokens resolve (stepParity odd c) (charTokens text ++ tokens) = _
    rw [ih, ← List.append_assoc]
    congr 1
    exact (escapeAnglesFrom_append odd [c] text).symm

/-- What `readTag` finds is what is read in the rendering. -/
def ReadsTag (resolve : Resolver) (odd : Bool) (state : TagState) (tokens : List Token) :
    Option (Bool × Nat) → Prop
  | none => tagFrom state (renderTokens resolve odd tokens) = none
  | some (true, _) => ∃ text link rest more selfClosing,
      tokens = charTokens text ++ .link link :: rest ∧
      tagFrom state (renderTokens resolve odd tokens) = some (escapeAnglesFrom odd text ++
        (markdownOf (renderLink resolve link) ++ more), selfClosing)
  | some (false, n) => ∃ text rest selfClosing, tokens = charTokens text ++ rest ∧ text.length = n ∧
      parityAfter odd text = false ∧
      tagFrom state (renderTokens resolve odd tokens) = some (escapeAnglesFrom odd text, selfClosing)

theorem readsTag_cons {resolve : Resolver} {odd : Bool} {state next : TagState} {c : Char}
    {tokens : List Token} {out : Option (Bool × Nat)}
    (hfeed : feed state (escapeAnglesFrom odd [c]) = some next)
    (hnone : tagFrom state (escapeAnglesFrom odd [c]) = none)
    (h : ReadsTag resolve (stepParity odd c) next tokens out) :
    ReadsTag resolve odd state (.char c :: tokens) (out.map fun out => (out.1, out.2 + 1)) := by
  have hrender : tagFrom state (renderTokens resolve odd (.char c :: tokens)) =
      (tagFrom next (renderTokens resolve (stepParity odd c) tokens)).map fun out =>
        (escapeAnglesFrom odd [c] ++ out.1, out.2) := by
    rw [renderTokens, tagFrom_append hnone, hfeed, Option.bind_some]
  have hescape : ∀ text, escapeAnglesFrom odd (c :: text) =
      escapeAnglesFrom odd [c] ++ escapeAnglesFrom (stepParity odd c) text :=
    fun text => escapeAnglesFrom_append odd [c] text
  cases out with
  | none =>
    rw [Option.map_none, ReadsTag, hrender, h, Option.map_none]
  | some out =>
    obtain ⟨seen, n⟩ := out
    cases seen with
    | true =>
      obtain ⟨text, link, rest, more, selfClosing, htokens, hread⟩ := h
      refine ⟨c :: text, link, rest, more, selfClosing, by rw [htokens]; rfl, ?_⟩
      rw [hrender, hread, Option.map_some, hescape text, List.append_assoc]
    | false =>
      obtain ⟨text, rest, selfClosing, htokens, hlength, hparity, hread⟩ := h
      refine ⟨c :: text, rest, selfClosing, by rw [htokens]; rfl, by simp [hlength], hparity, ?_⟩
      rw [hrender, hread, Option.map_some, hescape text]

theorem readTag_spec {resolve : Resolver} {tokens : List Token} (hlinks : Links resolve tokens)
    (odd : Bool) (state : TagState) :
    ReadsTag resolve odd state tokens (readTag resolve state tokens) := by
  induction tokens generalizing odd state with
  | nil => rfl
  | cons token tokens ih =>
    have hrest : Links resolve tokens := fun link h => hlinks link (List.mem_cons_of_mem token h)
    cases token with
    | char c =>
      rw [readTag]
      -- A letter stays itself, but for the `<` that is escaped.
      by_cases hescaped : c = '<' ∧ odd = false
      · obtain ⟨rfl, rfl⟩ := hescaped
        have hescape : escapeAnglesFrom false ['<'] = ['\\', '<'] := rfl
        have hspecial : '<' ∈ specials := by decide
        obtain ⟨hfeed, hnone⟩ := feed_special state hspecial
        rw [← hescape] at hfeed hnone
        by_cases hstate : state = .quoted
        · subst hstate
          rw [tagStep_quoted (by decide)]
          dsimp only
          rw [if_neg (by decide)]
          rw [if_pos rfl] at hfeed
          exact readsTag_cons hfeed hnone (ih hrest _ _)
        · rw [tagStep_special (by decide) (by decide) hstate]
          rw [if_neg hstate] at hfeed
          change tagFrom state (escapeAnglesFrom false ['<'] ++ _) = none
          rw [tagFrom_append hnone, hfeed, Option.bind_none]
      · have hescape : escapeAnglesFrom odd [c] = [c] := by
          rw [escapeAnglesFrom, if_neg hescaped]
          split <;> rfl
        cases hstep : tagStep state c with
        | none =>
          change tagFrom state (escapeAnglesFrom odd [c] ++ _) = none
          rw [hescape, List.singleton_append, tagFrom, hstep]
        | some next =>
          dsimp only
          split
          · next hclosed =>
            rw [hclosed] at hstep
            have hgt := tagStep_closed hstep
            subst hgt
            refine ⟨['>'], tokens, decide (state = .slash), rfl, rfl, rfl, ?_⟩
            rw [renderTokens, hescape, List.singleton_append, tagFrom, hstep]
            rfl
          · next hopen =>
            have hfeed : feed state (escapeAnglesFrom odd [c]) = some next := by
              rw [hescape, feed, hstep]
              exact if_neg hopen
            have hnone : tagFrom state (escapeAnglesFrom odd [c]) = none := by
              rw [hescape, tagFrom, hstep]
              dsimp only
              rw [if_neg hopen]
              rfl
            exact readsTag_cons hfeed hnone (ih hrest _ _)
    | link link =>
      -- A link is fed as a whole: it leads to one state, or out of every tag.
      obtain ⟨⟨body, hshape⟩, hplain⟩ := hlinks link List.mem_cons_self
      obtain ⟨hfeed, hnone⟩ := feed_renderLink hshape hplain state
      have hrender : tagFrom state (renderTokens resolve odd (.link link :: tokens)) =
          (linkState resolve state link).bind fun next =>
            (tagFrom next (renderTokens resolve false tokens)).map fun out =>
              (markdownOf (renderLink resolve link) ++ out.1, out.2) := by
        rw [renderTokens, tagFrom_append hnone, hfeed]
      rw [readTag]
      cases hnext : linkState resolve state link with
      | none =>
        rw [hnext] at hrender
        exact hrender
      | some next =>
        rw [hnext, Option.bind_some] at hrender
        have hreads := ih hrest false next
        dsimp only
        cases hout : readTag resolve next tokens with
        | none =>
          rw [hout] at hreads
          change tagFrom state _ = none
          rw [hrender, hreads, Option.map_none]
        | some out =>
          obtain ⟨consumed, selfClosing, hread⟩ : ∃ consumed selfClosing,
              tagFrom next (renderTokens resolve false tokens) = some (consumed, selfClosing) := by
            rw [hout] at hreads
            obtain ⟨seen, n⟩ := out
            cases seen with
            | true =>
              obtain ⟨_, _, _, _, _, _, hread⟩ := hreads
              exact ⟨_, _, hread⟩
            | false =>
              obtain ⟨_, _, _, _, _, _, hread⟩ := hreads
              exact ⟨_, _, hread⟩
          refine ⟨[], link, tokens, consumed, selfClosing, rfl, ?_⟩
          rw [hrender, hread]
          rfl

/-! ## Section 4: Reading back -/

def runAfter (run : Nat) (text : Text) : Nat := text.foldl nextRun run

theorem oddRun_runAfter (run : Nat) (text : Text) :
    oddRun (runAfter run text) = parityAfter (oddRun run) text := by
  induction text generalizing run with
  | nil => rfl
  | cons c text ih =>
    change oddRun (runAfter (nextRun run c) text) = parityAfter (stepParity (oddRun run) c) text
    rw [ih]
    congr 1
    unfold nextRun stepParity
    split
    · exact oddRun_succ run
    · rfl

theorem parse_keep (pull : PageResolver) (run : Nat) (before a b : Text) :
    parsePlainFrom pull a.length 0 run before (a ++ b) =
      parsePlainFrom pull 0 0 (runAfter run a) (a.reverse ++ before) b := by
  induction a generalizing run before with
  | nil => rfl
  | cons c a ih =>
    rw [List.length_cons, List.cons_append, parsePlainFrom, ih, List.reverse_cons,
      List.append_assoc]
    rfl

theorem parse_skip (pull : PageResolver) (run : Nat) (before a b : Text) :
    parsePlainFrom pull 0 a.length run before (a ++ b) =
      parsePlainFrom pull 0 0 (runAfter run a) before b := by
  induction a generalizing run with
  | nil => rfl
  | cons c a ih =>
    rw [List.length_cons, List.cons_append, parsePlainFrom, ih]
    rfl

/-- What is kept is unescaped with what follows it. -/
theorem parse_shape (pull : PageResolver) (keep run : Nat) (before text : Text) :
    ∃ u v, parsePlainFrom pull keep 0 run before text =
      unescapeAngleOnly (before.reverse ++ u) ++ v ∧ text.take keep <+: u := by
  induction text generalizing keep run before with
  | nil => exact ⟨[], [], by rw [parsePlainFrom]; simp, by simp⟩
  | cons c text ih =>
    have hmore : ∀ keep, ∃ u v, parsePlainFrom pull keep 0 (nextRun run c) (c :: before) text =
        unescapeAngleOnly (before.reverse ++ c :: u) ++ v ∧ text.take keep <+: u := by
      intro keep
      obtain ⟨u, v, heq, hstarts⟩ := ih keep (nextRun run c) (c :: before)
      refine ⟨u, v, ?_, hstarts⟩
      rw [heq, List.reverse_cons, List.append_assoc, List.singleton_append]
    cases keep with
    | succ keep =>
      obtain ⟨u, v, heq, hstarts⟩ := hmore keep
      refine ⟨c :: u, v, ?_, List.cons_prefix_cons.2 ⟨rfl, hstarts⟩⟩
      rw [parsePlainFrom]
      exact heq
    | zero =>
      have hkept : ∀ keep, ∃ u v, parsePlainFrom pull keep 0 (nextRun run c) (c :: before) text =
          unescapeAngleOnly (before.reverse ++ u) ++ v ∧ (c :: text).take 0 <+: u := by
        intro keep
        obtain ⟨u, v, heq, -⟩ := hmore keep
        exact ⟨c :: u, v, heq, List.nil_prefix⟩
      have hflushed : ∀ v, ∃ u w, unescapeAngleOnly before.reverse ++ v =
          unescapeAngleOnly (before.reverse ++ u) ++ w ∧ (c :: text).take 0 <+: u :=
        fun v => ⟨[], v, by rw [List.append_nil], List.nil_prefix⟩
      rw [parsePlainFrom]
      split
      · exact hkept 0
      · rw [List.append_assoc]
        exact hflushed _
      · split
        · exact hkept _
        · split
          · exact hflushed _
          · split
            · exact hkept _
            · rw [List.append_assoc]
              exact hflushed _

theorem spanAt_plain {c : Char} (hback : c ≠ '\\') (hlt : c ≠ '<') (text : Text) :
    spanAt (c :: text) = none := by
  have hliteral : literalAt (c :: text) = none := by
    unfold literalAt literalStart
    rw [if_neg]
    rw [List.isPrefixOf_iff_prefix, List.cons_prefix_cons]
    exact fun h => hback h.1.symm
  have htag : tagAt (c :: text) = none := by
    unfold tagAt
    rw [if_neg]
    simpa using hlt
  rw [spanAt, hliteral, htag]
  rfl

theorem spanAt_backslash {text : Text} (h : ¬ ['[', '\\', '['] <+: text) :
    spanAt ('\\' :: text) = none := by
  have hliteral : literalAt ('\\' :: text) = none := by
    unfold literalAt literalStart
    rw [if_neg]
    rw [List.isPrefixOf_iff_prefix, List.cons_prefix_cons]
    exact fun hstarts => h hstarts.2
  have htag : tagAt ('\\' :: text) = none := by
    unfold tagAt
    rw [if_neg (by simp)]
  rw [spanAt, hliteral, htag]
  rfl

theorem spanAt_lt (text : Text) : spanAt ('<' :: text) = (tagFrom .start text).map fun out =>
    .tag ⟨out.1.takeWhile isNameChar, out.1.dropWhile isNameChar, out.2, '<' :: out.1⟩ := by
  have hliteral : literalAt ('<' :: text) = none := by
    unfold literalAt literalStart
    rw [if_neg]
    rw [List.isPrefixOf_iff_prefix, List.cons_prefix_cons]
    exact fun hstarts => absurd hstarts.1 (by decide)
  have htag : tagAt ('<' :: text) = (tagFrom .start text).map fun out =>
      ⟨out.1.takeWhile isNameChar, out.1.dropWhile isNameChar, out.2, '<' :: out.1⟩ := by
    unfold tagAt
    rw [if_pos (by rfl), List.tail_cons]
  rw [spanAt, hliteral, htag]
  cases tagFrom .start text <;> rfl

/-- The first end of a literal is its own: no bracket stands in it. -/
theorem throughEnd_escapeLiteral {body : Text} (h : ∀ c ∈ body, c ≠ '[' ∧ c ≠ ']') (more : Text) :
    throughEnd (escapeLiteral body ++ (literalEnd ++ more)) =
      some (escapeLiteral body ++ literalEnd) := by
  have hhead : ∀ body : Text, (∀ c ∈ body, c ≠ '[' ∧ c ≠ ']') →
      ∀ rest, escapeLiteral body ++ (literalEnd ++ more) ≠ ']' :: rest := by
    intro body hbody rest heq
    cases body with
    | nil => cases heq
    | cons c body =>
      have hcons : escapeLiteral (c :: body) =
          (if c ∈ specials then ['\\', c] else [c]) ++ escapeLiteral body := rfl
      rw [hcons] at heq
      split at heq
      · cases heq
      · cases heq
        exact (hbody ']' List.mem_cons_self).2 rfl
  induction body with
  | nil => rfl
  | cons c body ih =>
    have hbody : ∀ c ∈ body, c ≠ '[' ∧ c ≠ ']' := fun d hd => h d (List.mem_cons_of_mem c hd)
    have hc := (h c List.mem_cons_self).2
    have hcons : escapeLiteral (c :: body) =
        (if c ∈ specials then ['\\', c] else [c]) ++ escapeLiteral body := rfl
    have hfirst : ¬ literalEnd.isPrefixOf (c :: (escapeLiteral body ++ (literalEnd ++ more))) = true := by
      rw [List.isPrefixOf_iff_prefix]
      intro hstarts
      obtain ⟨-, hstarts⟩ := List.cons_prefix_cons.1 hstarts
      obtain ⟨rest, hrest⟩ := hstarts
      exact hhead body hbody _ hrest.symm
    rw [hcons]
    split
    · have hpair : ¬ literalEnd.isPrefixOf
          ('\\' :: c :: (escapeLiteral body ++ (literalEnd ++ more))) = true := by
        rw [List.isPrefixOf_iff_prefix]
        intro hstarts
        obtain ⟨-, hstarts⟩ := List.cons_prefix_cons.1 hstarts
        exact hc (List.cons_prefix_cons.1 hstarts).1.symm
      have hsplit : ['\\', c] ++ escapeLiteral body ++ (literalEnd ++ more) =
          '\\' :: c :: (escapeLiteral body ++ (literalEnd ++ more)) := rfl
      rw [hsplit, throughEnd, if_neg hpair, throughEnd, if_neg hfirst, ih hbody]
      rfl
    · rw [List.singleton_append, List.cons_append, throughEnd, if_neg hfirst, ih hbody]
      rfl

theorem spanAt_literal {link : Wikilink} {body : Text} (h : LinkShape link body) (more : Text) :
    spanAt (escapeLiteral link.raw ++ more) = some (.literal (escapeLiteral link.raw)) := by
  have hraw : escapeLiteral link.raw = literalStart ++ (escapeLiteral body ++ literalEnd) := by
    have happend : ∀ a b, escapeLiteral (a ++ b) = escapeLiteral a ++ escapeLiteral b :=
      fun a b => List.flatMap_append
    rw [h.raw, ← List.singleton_append, ← List.singleton_append, happend, happend, happend]
    rfl
  have hliteral : literalAt (escapeLiteral link.raw ++ more) = some (escapeLiteral link.raw) := by
    rw [hraw, List.append_assoc]
    unfold literalAt
    rw [if_pos (List.isPrefixOf_iff_prefix.2 (List.prefix_append _ _)),
      show (literalStart ++ (escapeLiteral body ++ literalEnd ++ more)).drop 4 =
        escapeLiteral body ++ literalEnd ++ more from rfl, List.append_assoc,
      throughEnd_escapeLiteral h.noBracket]
    rfl
  rw [spanAt, hliteral]

theorem tagFrom_mention {url : Text} (hquote : '"' ∉ url) (more : Text) :
    tagFrom .start (mentionStart.tail ++ (url ++ '"' :: '>' :: more)) =
      some (mentionStart.tail ++ (url ++ ['"', '>']), false) := by
  have hquoted : feed .quoted url = some .quoted ∧ tagFrom .quoted url = none := by
    induction url with
    | nil => exact ⟨rfl, rfl⟩
    | cons c url ih =>
      rw [List.mem_cons, not_or] at hquote
      obtain ⟨hfeed, hnone⟩ := ih hquote.2
      rw [feed, tagFrom, tagStep_quoted (Ne.symm hquote.1)]
      dsimp only
      rw [if_neg (by decide), if_neg (by decide), hnone]
      exact ⟨hfeed, rfl⟩
  have hstart : feed .start mentionStart.tail = some .quoted := rfl
  have hend : tagFrom .quoted ('"' :: '>' :: more) = some (['"', '>'], false) := rfl
  rw [tagFrom_append rfl, hstart, Option.bind_some, tagFrom_append hquoted.2, hquoted.1,
    Option.bind_some, hend]
  rfl

/-- The tag of a mention, with its url. -/
theorem spanAt_mention {url : Text} (hquote : '"' ∉ url) (more : Text) :
    ∃ tag : Tag, spanAt (mentionStart ++ (url ++ '"' :: '>' :: more)) = some (.tag tag) ∧
      tag.name = mentionPage ∧ tag.selfClosing = false ∧
      tag.raw = mentionStart ++ (url ++ ['"', '>']) ∧
      valueOf ['u', 'r', 'l'] tag.attrs = some url := by
  have hspan := spanAt_lt (mentionStart.tail ++ (url ++ '"' :: '>' :: more))
  rw [tagFrom_mention hquote, Option.map_some] at hspan
  refine ⟨_, hspan, rfl, rfl, rfl, ?_⟩
  change valueFrom ['u', 'r', 'l'] false (' ' :: 'u' :: 'r' :: 'l' :: '=' :: '"' ::
    (url ++ ['"', '>'])) = some url
  rw [valueFrom, if_neg (by simp), valueFrom, if_pos (by simp)]
  change some ((url ++ ['"', '>']).takeWhile (· ≠ '"')) = some url
  congr 1
  rw [List.takeWhile_append_of_pos]
  · simp
  · intro c hc
    rw [decide_eq_true_iff]
    rintro rfl
    exact hquote hc

/-- An escaped label holds no closing tag. -/
theorem not_prefix_escapeLiteral {q : Text} (hq : ∀ c ∈ q, c ∉ specials) (text more : Text) :
    ¬ q ++ ['>'] <+: escapeLiteral text ++ '<' :: more := by
  induction text generalizing q with
  | nil =>
    intro h
    cases q with
    | nil => exact absurd (List.cons_prefix_cons.1 h).1 (by decide)
    | cons d q =>
      obtain ⟨hd, -⟩ := List.cons_prefix_cons.1 h
      exact hq d List.mem_cons_self (hd ▸ by decide)
  | cons c text ih =>
    have hcons : escapeLiteral (c :: text) =
        (if c ∈ specials then ['\\', c] else [c]) ++ escapeLiteral text := rfl
    intro h
    rw [hcons] at h
    split at h
    · cases q with
      | nil => exact absurd (List.cons_prefix_cons.1 h).1 (by decide)
      | cons d q =>
        obtain ⟨hd, -⟩ := List.cons_prefix_cons.1 h
        exact hq d List.mem_cons_self (hd ▸ by decide)
    · next hspecial =>
      cases q with
      | nil =>
        obtain ⟨hc, -⟩ := List.cons_prefix_cons.1 h
        exact hspecial (hc ▸ by decide)
      | cons d q =>
        obtain ⟨-, hrest⟩ := List.cons_prefix_cons.1 h
        exact ih (fun e he => hq e (List.mem_cons_of_mem d he)) hrest

theorem before?_label (text more : Text) :
    before? (closeTag mentionPage) (escapeLiteral text ++ (mentionEnd ++ more)) =
      some (escapeLiteral text) := by
  have htail : closeTag mentionPage = '<' :: ('/' :: mentionPage ++ ['>']) := rfl
  have hall : ('/' :: mentionPage).all (fun c => decide (c ∉ specials)) = true := by
    decide +kernel
  have hplain : ∀ c ∈ '/' :: mentionPage, c ∉ specials :=
    fun c hc => of_decide_eq_true (List.all_eq_true.1 hall c hc)
  have hend : ∃ rest, mentionEnd ++ more = '<' :: rest := ⟨_, rfl⟩
  induction text with
  | nil => exact if_pos (List.prefix_append mentionEnd more)
  | cons c text ih =>
    have hcons : escapeLiteral (c :: text) =
        (if c ∈ specials then ['\\', c] else [c]) ++ escapeLiteral text := rfl
    obtain ⟨rest, hrest⟩ := hend
    have hfirst : ¬ closeTag mentionPage <+: c :: (escapeLiteral text ++ (mentionEnd ++ more)) := by
      intro h
      rw [htail, hrest] at h
      exact not_prefix_escapeLiteral hplain text rest (List.cons_prefix_cons.1 h).2
    rw [hcons]
    split
    · have hpair : ¬ closeTag mentionPage <+:
          '\\' :: c :: (escapeLiteral text ++ (mentionEnd ++ more)) := by
        intro h
        exact absurd (List.cons_prefix_cons.1 h).1 (by decide)
      have hsplit : ['\\', c] ++ escapeLiteral text ++ (mentionEnd ++ more) =
          '\\' :: c :: (escapeLiteral text ++ (mentionEnd ++ more)) := rfl
      rw [hsplit, before?, if_neg hpair, before?, if_neg hfirst, ih]
      rfl
    · rw [List.singleton_append, List.cons_append, before?, if_neg hfirst, ih]
      rfl

/-! ## Section 5: The round trip -/

/-- The next token is a link that is pushed as a literal. -/
def isLiteral (resolve : Resolver) : List Token → Bool
  | [] => false
  | .char _ :: _ => false
  | .link link :: _ => (resolve link.target).isNone

/-- After a backslash: a bracket that is read as the start of the literal after it. -/
def literalNext (resolve : Resolver) : List Token → Bool
  | [] => false
  | .char c :: tokens => decide (c = '[') && isLiteral resolve tokens
  | .link _ :: _ => false

/-- No tag runs over a link, and no backslash reaches one: an odd run stands before no
    mention, and `\[` before no literal. Of the tokens, `skip` belong to a tag. -/
def clear (resolve : Resolver) : Nat → Bool → List Token → Bool
  | _, _, [] => true
  | skip + 1, odd, token :: tokens => clear resolve skip (parityAfter odd token.raw) tokens
  | 0, odd, .char c :: tokens =>
      if c = '<' then
        match readTag resolve .start tokens with
        | none => clear resolve 0 false tokens
        | some out => !out.1 && clear resolve out.2 false tokens
      else if c = '\\' then !literalNext resolve tokens && clear resolve 0 (!odd) tokens
      else clear resolve 0 false tokens
  | 0, odd, .link link :: tokens =>
      ((resolve link.target).isNone || !odd) && clear resolve 0 false tokens

theorem clear_skip (resolve : Resolver) (odd : Bool) (text : Text) (tokens : List Token) :
    clear resolve text.length odd (charTokens text ++ tokens) =
      clear resolve 0 (parityAfter odd text) tokens := by
  induction text generalizing odd with
  | nil => rfl
  | cons c text ih =>
    change clear resolve (text.length + 1) odd (.char c :: (charTokens text ++ tokens)) = _
    rw [clear, ih]
    rfl

/-- A literal starts in the rendering where one starts in the text, or a link is one. -/
theorem prefix_renderTokens {resolve : Resolver} {tokens : List Token}
    (hlinks : Links resolve tokens) {odd : Bool}
    (h : ['[', '\\', '['] <+: renderTokens resolve odd tokens) :
    literalNext resolve tokens = true ∨ ['[', '\\', '['] <+: rawOf tokens := by
  have hlink : ∀ {link : Wikilink} {rest : List Token} {c : Char} {more : Text},
      Token.link link ∈ tokens → c :: more <+: markdownOf (renderLink resolve link) ++
        renderTokens resolve false rest → c = '\\' ∧ (resolve link.target).isNone = true ∨ c = '<' := by
    intro link rest c more hmem hstarts
    obtain ⟨⟨body, hshape⟩, hplain⟩ := hlinks link hmem
    rw [renderLink_plain hplain] at hstarts
    cases hresolve : resolve link.target with
    | none =>
      rw [hresolve, hshape.raw] at hstarts
      exact .inl ⟨(List.cons_prefix_cons.1 hstarts).1, rfl⟩
    | some page =>
      rw [hresolve] at hstarts
      exact .inr (List.cons_prefix_cons.1 hstarts).1
  cases tokens with
  | nil => exact absurd (List.prefix_nil.1 h) (by simp)
  | cons token tokens =>
    cases token with
    | link link =>
      rcases hlink List.mem_cons_self h with ⟨hc, -⟩ | hc
      · exact absurd hc (by decide)
      · exact absurd hc (by decide)
    | char c =>
      rw [renderTokens, escapeAnglesFrom] at h
      have hc : c = '[' := by
        split at h
        · next hc =>
          subst hc
          exact absurd (List.cons_prefix_cons.1 h).1 (by decide)
        · split at h
          · exact absurd (List.cons_prefix_cons.1 h).1 (by decide)
          · exact (List.cons_prefix_cons.1 h).1.symm
      subst hc
      rw [if_neg (by decide), if_neg (by simp)] at h
      replace h := (List.cons_prefix_cons.1 h).2
      change ['\\', '['] <+: renderTokens resolve (stepParity odd '[') tokens at h
      cases tokens with
      | nil => exact absurd (List.prefix_nil.1 h) (by simp)
      | cons token tokens =>
        cases token with
        | link link =>
          rcases hlink (List.mem_cons_of_mem _ List.mem_cons_self) h with ⟨-, hnone⟩ | hc
          · refine .inl ?_
            simp [literalNext, isLiteral, hnone]
          · exact absurd hc (by decide)
        | char d =>
          have hparity : stepParity odd '[' = false := if_neg (by decide)
          rw [hparity, renderTokens, escapeAnglesFrom] at h
          split at h
          · next hd =>
            subst hd
            replace h := (List.cons_prefix_cons.1 h).2
            change ['['] <+: renderTokens resolve _ tokens at h
            cases tokens with
            | nil => exact absurd (List.prefix_nil.1 h) (by simp)
            | cons token tokens =>
              cases token with
              | link link =>
                rcases hlink (List.mem_cons_of_mem _ (List.mem_cons_of_mem _
                  List.mem_cons_self)) h with ⟨hc, -⟩ | hc
                · exact absurd hc (by decide)
                · exact absurd hc (by decide)
              | char e =>
                rw [renderTokens, escapeAnglesFrom] at h
                refine .inr ?_
                have he : e = '[' := by
                  split at h
                  · exact (List.cons_prefix_cons.1 h).1.symm
                  · split at h
                    · exact absurd (List.cons_prefix_cons.1 h).1 (by decide)
                    · exact (List.cons_prefix_cons.1 h).1.symm
                rw [he]
                exact List.prefix_append ['[', '\\', '['] (rawOf tokens)
          · next hd =>
            split at h
            · next hlt =>
              -- an escaped `<` stands there
              replace h := (List.cons_prefix_cons.1 h).2
              exact absurd (List.cons_prefix_cons.1 h).1 (by decide)
            · exact absurd (List.cons_prefix_cons.1 h).1.symm hd

theorem unescapeAngleOnly_escapeAngles {text : Text} (h : Clean false text) :
    unescapeAngleOnly (escapeAngles text) = text := unescapeAngleFrom_escape 0 text h

theorem parse_span_literal {pull : PageResolver} {run : Nat} {c : Char} {text raw : Text}
    (h : spanAt (c :: text) = some (.literal raw)) (before : Text) :
    parsePlainFrom pull 0 0 run before (c :: text) =
      unescapeAngleOnly before.reverse ++ unescapeLiteralPairs raw ++
        parsePlainFrom pull 0 (raw.length - 1) (nextRun run c) [] text := by
  rw [parsePlainFrom, h]

/-- A literal gives its link back. -/
theorem parse_literal {link : Wikilink} {body : Text} (h : LinkShape link body)
    (pull : PageResolver) (run : Nat) (before more : Text) :
    parsePlainFrom pull 0 0 run before (escapeLiteral link.raw ++ more) =
      unescapeAngleOnly before.reverse ++ link.raw ++
        parsePlainFrom pull 0 0 (runAfter run (escapeLiteral link.raw)) [] more := by
  obtain ⟨tail, htail⟩ : ∃ tail, escapeLiteral link.raw = '\\' :: tail := by
    rw [h.raw]
    exact ⟨_, rfl⟩
  have hspan := spanAt_literal h more
  have hread : unescapeLiteralPairs (escapeLiteral link.raw) = link.raw :=
    unescapeLiteralPairs_escapeLiteral _
  rw [htail] at hspan hread ⊢
  rw [List.cons_append] at hspan ⊢
  rw [parse_span_literal hspan, hread, List.length_cons, Nat.add_sub_cancel, parse_skip]
  rfl

/-- A mention gives the link of its page. -/
theorem parse_mention {url title target : Text} {pull : PageResolver}
    (hquote : '"' ∉ url) (hpull : pull url = some target) {run : Nat} (hrun : run % 2 ≠ 1)
    (before more : Text) :
    parsePlainFrom pull 0 0 run before
        (mentionStart ++ (url ++ '"' :: '>' :: (escapeLiteral title ++ mentionEnd)) ++ more) =
      unescapeAngleOnly before.reverse ++ ('[' :: '[' :: target ++ closing) ++
        parsePlainFrom pull 0 0 (runAfter run
          (mentionStart ++ (url ++ '"' :: '>' :: (escapeLiteral title ++ mentionEnd)))) [] more := by
  obtain ⟨tag, hspan, hname, hclosing, hraw, hvalue⟩ :=
    spanAt_mention hquote (escapeLiteral title ++ (mentionEnd ++ more))
  have htext : mentionStart ++ (url ++ '"' :: '>' :: (escapeLiteral title ++ mentionEnd)) ++ more =
      tag.raw ++ (escapeLiteral title ++ (mentionEnd ++ more)) := by
    rw [hraw]
    simp
  have hlabel : before? (closeTag tag.name)
      ((tag.raw ++ (escapeLiteral title ++ (mentionEnd ++ more))).drop tag.raw.length) =
        some (escapeLiteral title) := by
    rw [List.drop_left, hname]
    exact before?_label title more
  have hlink : tagText pull tag title = '[' :: '[' :: target ++ closing := by
    have hlower : tag.name.map Char.toLower = mentionPage := by
      rw [hname]
      decide
    unfold tagText
    have hfirst : (some url <|> valueOf ['i', 'd'] tag.attrs).bind pull = pull url := rfl
    rw [if_pos hlower, hvalue, hfirst, hpull]
    rfl
  have hspan' : spanAt (tag.raw ++ (escapeLiteral title ++ (mentionEnd ++ more))) =
      some (.tag tag) := by
    rw [← hspan, hraw]
    simp
  obtain ⟨tail, htail⟩ : ∃ tail, tag.raw = '<' :: tail := by
    rw [hraw]
    exact ⟨_, rfl⟩
  have hlength : tag.raw.length + (escapeLiteral title).length + (closeTag tag.name).length - 1 =
      (tail ++ (escapeLiteral title ++ mentionEnd)).length := by
    rw [htail, hname]
    have : (closeTag mentionPage).length = mentionEnd.length := rfl
    simp only [List.length_cons, List.length_append, this]
    omega
  have hsplit : mentionStart ++ (url ++ '"' :: '>' :: (escapeLiteral title ++ mentionEnd)) =
      '<' :: (tail ++ (escapeLiteral title ++ mentionEnd)) := by
    have hcons : '<' :: (tail ++ (escapeLiteral title ++ mentionEnd)) =
        tag.raw ++ (escapeLiteral title ++ mentionEnd) := by rw [htail, List.cons_append]
    rw [hcons, hraw]
    simp
  rw [htext]
  rw [htail, List.cons_append] at hspan' hlabel ⊢
  rw [parsePlainFrom, hspan']
  dsimp only
  rw [if_neg hrun, hclosing, if_neg (by decide), htail, hlabel]
  dsimp only
  rw [unescapeLiteralPairs_escapeLiteral, hlink, ← htail, hlength, hsplit,
    show tail ++ (escapeLiteral title ++ (mentionEnd ++ more)) =
      tail ++ (escapeLiteral title ++ mentionEnd) ++ more by simp, parse_skip]
  rfl

/-- A tag after an odd run is prose. -/
theorem parse_inert {pull : PageResolver} {run : Nat} (hrun : run % 2 = 1) {text consumed : Text}
    {selfClosing : Bool} (h : tagFrom .start text = some (consumed, selfClosing)) (before : Text) :
    parsePlainFrom pull 0 0 run before ('<' :: text) =
      parsePlainFrom pull consumed.length 0 0 ('<' :: before) text := by
  have hspan := spanAt_lt text
  rw [h, Option.map_some] at hspan
  rw [parsePlainFrom, hspan]
  dsimp only
  rw [if_pos hrun]
  rfl

theorem parse_plain {pull : PageResolver} {run : Nat} {c : Char} {text : Text}
    (h : spanAt (c :: text) = none) (before : Text) :
    parsePlainFrom pull 0 0 run before (c :: text) =
      parsePlainFrom pull 0 0 (nextRun run c) (c :: before) text := by
  rw [parsePlainFrom, h]

/-- The consumed text stands at the start. -/
theorem isPrefix_tagFrom {state : TagState} {text consumed : Text} {selfClosing : Bool}
    (h : tagFrom state text = some (consumed, selfClosing)) : consumed <+: text := by
  induction text generalizing state consumed with
  | nil => cases h
  | cons c text ih =>
    rw [tagFrom] at h
    split at h
    · cases h
    · split at h
      · cases h
        exact List.cons_prefix_cons.2 ⟨rfl, List.nil_prefix⟩
      · obtain ⟨⟨more, _⟩, hmore, heq⟩ := Option.map_eq_some_iff.1 h
        cases heq
        exact List.cons_prefix_cons.2 ⟨rfl, ih hmore⟩

/-- What the round trip asks of the resolvers, and of the text. -/
structure ReadsBack (resolve : Resolver) (pull : PageResolver) (tokens : List Token) : Prop where
  links : Links resolve tokens
  pulled : ∀ link, Token.link link ∈ tokens → ∀ page, resolve link.target = some page →
    pull (attrSafe page.url) = some link.target
  literal : ¬ literalStart <:+: rawOf tokens

theorem ReadsBack.tail {resolve : Resolver} {pull : PageResolver} {token : Token}
    {tokens : List Token} (h : ReadsBack resolve pull (token :: tokens)) :
    ReadsBack resolve pull tokens where
  links := fun link hlink => h.links link (List.mem_cons_of_mem token hlink)
  pulled := fun link hlink => h.pulled link (List.mem_cons_of_mem token hlink)
  literal := fun hinside => h.literal (hinside.trans (List.suffix_append token.raw _).isInfix)

theorem ReadsBack.drop {resolve : Resolver} {pull : PageResolver} (text : Text)
    {tokens : List Token} (h : ReadsBack resolve pull (charTokens text ++ tokens)) :
    ReadsBack resolve pull tokens := by
  induction text with
  | nil => exact h
  | cons c text ih => exact ih h.tail

theorem oddRun_eq_true {n : Nat} : oddRun n = true ↔ n % 2 = 1 := decide_eq_true_iff

theorem rawOf_chars (text : Text) (tokens : List Token) :
    rawOf (charTokens text ++ tokens) = text ++ rawOf tokens := by
  induction text with
  | nil => rfl
  | cons c text ih =>
    change [c] ++ rawOf (charTokens text ++ tokens) = c :: (text ++ rawOf tokens)
    rw [ih]
    rfl

theorem Clean.split {odd : Bool} {a b : Text} (h : Clean odd (a ++ b)) :
    Clean odd a ∧ Clean (parityAfter odd a) b := by
  induction a generalizing odd with
  | nil => exact ⟨trivial, h⟩
  | cons c a ih => exact ⟨⟨h.1, (ih h.2).1⟩, (ih h.2).2⟩

theorem parityAfter_escape (odd : Bool) (text : Text) :
    parityAfter odd (escapeAnglesFrom odd text) = parityAfter odd text := by
  induction text generalizing odd with
  | nil => rfl
  | cons c text ih =>
    have hstep : parityAfter odd (c :: text) = parityAfter (stepParity odd c) text := rfl
    rw [hstep, ← ih, escapeAnglesFrom]
    unfold stepParity
    split
    · next hc => exact congrArg (parityAfter · _) (if_pos hc)
    · next hc =>
      split
      · next hlt =>
        rw [hlt.2]
        rfl
      · exact congrArg (parityAfter · _) (if_neg hc)

theorem escapeAngles_concat (before : Text) (c : Char) :
    (escapeAngles (before ++ [c])).reverse =
      (escapeAnglesFrom (parityAfter false before) [c]).reverse ++ (escapeAngles before).reverse := by
  rw [escapeAngles, escapeAngles, escapeAnglesFrom_append, List.reverse_append]

/-- The induction of the round trip, with the text since the last link in `before`. -/
def RoundTrips (resolve : Resolver) (pull : PageResolver) (tokens : List Token) : Prop :=
  ∀ (before : Text) (run : Nat), Clean false before → oddRun run = parityAfter false before →
    Clean (parityAfter false before) (rawOf tokens) →
    (parsePlainFrom pull 0 0 run (escapeAngles before).reverse
        (renderTokens resolve (parityAfter false before) tokens) = before ++ rawOf tokens ↔
      clear resolve 0 (parityAfter false before) tokens = true)

/-- A character that is copied. -/
theorem roundTrip_plain {resolve : Resolver} {pull : PageResolver} {tokens : List Token}
    (ih : RoundTrips resolve pull tokens) {c : Char} (hlt : c ≠ '<') {before : Text} {run : Nat}
    (hclean : Clean false before) (hrun : oddRun run = parityAfter false before)
    (hrest : Clean (parityAfter false before) (c :: rawOf tokens))
    (hspan : spanAt (c :: renderTokens resolve (stepParity (parityAfter false before) c) tokens) =
      none) :
    parsePlainFrom pull 0 0 run (escapeAngles before).reverse
        (renderTokens resolve (parityAfter false before) (.char c :: tokens)) =
          before ++ (c :: rawOf tokens) ↔
      clear resolve 0 (stepParity (parityAfter false before) c) tokens = true := by
  have hescape : escapeAnglesFrom (parityAfter false before) [c] = [c] := by
    rw [escapeAnglesFrom]
    split
    · rfl
    · rw [if_neg fun h => hlt h.1]
      rfl
  have hparity : parityAfter false (before ++ [c]) = stepParity (parityAfter false before) c :=
    parityAfter_append false before [c]
  have hrun' : oddRun (nextRun run c) = parityAfter false (before ++ [c]) := by
    rw [hparity, ← hrun]
    exact oddRun_runAfter run [c]
  have hnext := ih (before ++ [c]) (nextRun run c)
    (hclean.append ⟨fun h => absurd h hlt, trivial⟩) hrun' (by rw [hparity]; exact hrest.2)
  rw [escapeAngles_concat, hescape, hparity, List.append_assoc] at hnext
  rw [renderTokens, hescape, List.singleton_append, parse_plain hspan]
  exact hnext

/-- A `<` is escaped, so a tag after it is prose, and must not run over a link. -/
theorem roundTrip_lt {resolve : Resolver} {pull : PageResolver} {tokens : List Token}
    (h : ReadsBack resolve pull tokens)
    (ih : ∀ rest : List Token, rest.length ≤ tokens.length → ReadsBack resolve pull rest →
      RoundTrips resolve pull rest)
    {before : Text} {run : Nat} (hclean : Clean false before)
    (hrun : oddRun run = parityAfter false before)
    (hrest : Clean (parityAfter false before) ('<' :: rawOf tokens)) :
    parsePlainFrom pull 0 0 run (escapeAngles before).reverse
        (renderTokens resolve (parityAfter false before) (.char '<' :: tokens)) =
          before ++ ('<' :: rawOf tokens) ↔
      clear resolve 0 (parityAfter false before) (.char '<' :: tokens) = true := by
  have heven : parityAfter false before = false := hrest.1 rfl
  have hescape : escapeAnglesFrom false ['<'] = ['\\', '<'] := rfl
  have hodd : nextRun run '\\' % 2 = 1 := by
    rw [← oddRun_eq_true]
    change oddRun (run + 1) = true
    rw [oddRun_succ, hrun, heven]
    rfl
  have hparity : parityAfter false (before ++ ['<']) = false := by
    rw [parityAfter_append]
    rfl
  have hopen : Clean false (before ++ ['<']) := hclean.append ⟨fun _ => heven, trivial⟩
  have hback : (escapeAngles (before ++ ['<'])).reverse =
      '<' :: '\\' :: (escapeAngles before).reverse := by
    rw [escapeAngles_concat, heven, hescape]
    rfl
  -- The `<` was escaped, so no span begins at its backslash;
  -- but the scanner reads the escaped `<` again, without it.
  have hspan : spanAt ('\\' :: '<' :: renderTokens resolve false tokens) = none :=
    spanAt_backslash fun hstarts => absurd (List.cons_prefix_cons.1 hstarts).1 (by decide)
  have hrender : renderTokens resolve false (.char '<' :: tokens) =
      '\\' :: '<' :: renderTokens resolve false tokens := rfl
  have hraw : before ++ '<' :: rawOf tokens = before ++ ['<'] ++ rawOf tokens := by simp
  have hreads := readTag_spec h.links false .start
  rw [heven, hrender, parse_plain hspan, hraw, clear, if_pos rfl]
  cases hread : readTag resolve .start tokens with
  | none =>
    rw [hread] at hreads
    -- No tag can be read here: the text goes on.
    have hnone : spanAt ('<' :: renderTokens resolve false tokens) = none := by
      rw [spanAt_lt, hreads]
      rfl
    have hnext := ih tokens le_rfl h (before ++ ['<']) 0 hopen (by rw [hparity]; rfl)
      (by rw [hparity]; exact hrest.2)
    rw [hparity, hback] at hnext
    rw [parse_plain hnone]
    exact hnext
  | some out =>
    obtain ⟨seen, n⟩ := out
    rw [hread] at hreads
    cases seen with
    | false =>
      -- A tag without a link in it: it is inert, and comes back as text.
      obtain ⟨text, rest, selfClosing, rfl, rfl, hend, htag⟩ := hreads
      have hcleanRest := hrest.2
      rw [heven, rawOf_chars] at hcleanRest
      obtain ⟨hcleanText, hcleanRest⟩ := Clean.split hcleanRest
      have hparity' : parityAfter false (before ++ ['<'] ++ text) = false := by
        rw [parityAfter_append, hparity, hend]
      have hback' : (escapeAngles (before ++ ['<'] ++ text)).reverse =
          (escapeAnglesFrom false text).reverse ++
            ('<' :: '\\' :: (escapeAngles before).reverse) := by
        rw [← hback, escapeAngles, escapeAngles, escapeAnglesFrom_append, hparity,
          List.reverse_append]
      have hnext := ih rest (by simp) (h.drop text) (before ++ ['<'] ++ text)
        (runAfter 0 (escapeAnglesFrom false text))
        (hopen.append (by rw [hparity]; exact hcleanText))
        (by rw [oddRun_runAfter, hparity', show oddRun 0 = false from rfl, parityAfter_escape, hend])
        (by rw [hparity', ← hend]; exact hcleanRest)
      rw [hparity', hback', List.append_assoc] at hnext
      -- A tag that goes over a link: what comes back has the link unescaped, and differs.
      have hclear : (!false && clear resolve text.length false (charTokens text ++ rest)) =
          clear resolve 0 false rest := by rw [clear_skip, hend, Bool.not_false, Bool.true_and]
      rw [parse_inert hodd htag, renderTokens_chars, parse_keep, hend, rawOf_chars]
      dsimp only
      rw [hclear]
      exact hnext
    | true =>
      obtain ⟨text, link, rest, more, selfClosing, rfl, htag⟩ := hreads
      have hclear : (!true && clear resolve n false (charTokens text ++ .link link :: rest)) = false :=
        rfl
      obtain ⟨⟨body, hshape⟩, -⟩ := h.links link (by simp)
      have hcleanText := hrest.2
      rw [heven, rawOf_chars] at hcleanText
      obtain ⟨hcleanText, -⟩ := Clean.split hcleanText
      obtain ⟨u, v, hshapeParse, hkept⟩ := parse_shape pull _ 0
        ('<' :: '\\' :: (escapeAngles before).reverse)
        (renderTokens resolve false (charTokens text ++ .link link :: rest))
      rw [← List.prefix_iff_eq_take.1 (isPrefix_tagFrom htag)] at hkept
      obtain ⟨u', hu⟩ := hkept
      have hprose : ('<' :: '\\' :: (escapeAngles before).reverse).reverse ++ u =
          escapeAngles (before ++ ['<'] ++ text) ++
            (markdownOf (renderLink resolve link) ++ (more ++ u')) := by
        rw [← hback, List.reverse_reverse, ← hu, escapeAngles, escapeAngles,
          escapeAnglesFrom_append (b := text), hparity]
        simp only [List.append_assoc]
      rw [parse_inert hodd htag, hshapeParse, hprose, rawOf_chars, ← List.append_assoc _ text]
      dsimp only
      rw [hclear]
      simp only [Bool.false_eq_true, iff_false]
      exact renderLink_unescaped_ne resolve hshape
        (hopen.append (by rw [hparity]; exact hcleanText)) _ v (rawOf rest)

theorem throughEnd_isSome {text : Text} (h : literalEnd <:+: text) : (throughEnd text).isSome := by
  induction text with
  | nil =>
    have := List.infix_nil.1 h
    cases this
  | cons c text ih =>
    rw [throughEnd]
    split
    · rfl
    · next hfirst =>
      rcases List.infix_cons_iff.1 h with hstarts | hinside
      · exact absurd (List.isPrefixOf_iff_prefix.2 hstarts) hfirst
      · rw [Option.isSome_map]
        exact ih hinside

/-- A backslash is copied, unless it makes a literal of the bracket after it. -/
theorem roundTrip_backslash {resolve : Resolver} {pull : PageResolver} {tokens : List Token}
    (h : ReadsBack resolve pull (.char '\\' :: tokens)) (ih : RoundTrips resolve pull tokens)
    {before : Text} {run : Nat} (hclean : Clean false before)
    (hrun : oddRun run = parityAfter false before)
    (hrest : Clean (parityAfter false before) ('\\' :: rawOf tokens)) :
    parsePlainFrom pull 0 0 run (escapeAngles before).reverse
        (renderTokens resolve (parityAfter false before) (.char '\\' :: tokens)) =
          before ++ ('\\' :: rawOf tokens) ↔
      clear resolve 0 (parityAfter false before) (.char '\\' :: tokens) = true := by
  have hparity : stepParity (parityAfter false before) '\\' = !parityAfter false before := rfl
  rw [clear, if_neg (by decide), if_pos rfl]
  cases hnext : literalNext resolve tokens with
  | false =>
    -- No literal begins here, so the backslash is a letter like any other.
    have hspan : spanAt ('\\' :: renderTokens resolve
        (stepParity (parityAfter false before) '\\') tokens) = none := by
      apply spanAt_backslash
      intro hstarts
      rcases prefix_renderTokens h.tail.links hstarts with hliteral | hraw
      · rw [hnext] at hliteral
        cases hliteral
      · exact h.literal (List.cons_prefix_cons.2 ⟨rfl, hraw⟩).isInfix
    rw [Bool.not_false, Bool.true_and, ← hparity]
    exact roundTrip_plain ih (by decide) hclean hrun hrest hspan
  | true =>
    -- `\\[` before a link without a page: the two backslashes of the text and the literal.
    obtain ⟨link, rest, rfl, hnone⟩ : ∃ link rest, tokens = .char '[' :: .link link :: rest ∧
        resolve link.target = none := by
      cases tokens with
      | nil => cases hnext
      | cons token tokens =>
        cases token with
        | link => cases hnext
        | char c =>
          rw [literalNext, Bool.and_eq_true, decide_eq_true_iff] at hnext
          obtain ⟨rfl, hliteral⟩ := hnext
          cases tokens with
          | nil => cases hliteral
          | cons token tokens =>
            cases token with
            | char => cases hliteral
            | link link => exact ⟨link, tokens, rfl, Option.isNone_iff_eq_none.1 hliteral⟩
    obtain ⟨⟨body, hshape⟩, hplain⟩ := h.links link (by simp)
    have hlink : markdownOf (renderLink resolve link) = '\\' :: '[' ::
        (escapeLiteral ('[' :: body) ++ literalEnd) := by
      rw [renderLink_plain hplain, hnone, hshape.raw]
      simp [escapeLiteral, closing, specials, literalEnd]
    have hrender : renderTokens resolve (parityAfter false before)
        (.char '\\' :: .char '[' :: .link link :: rest) = literalStart ++
          (escapeLiteral ('[' :: body) ++ literalEnd ++ renderTokens resolve false rest) := by
      rw [renderTokens, renderTokens, renderTokens, hlink]
      rfl
    have hend : literalEnd <:+:
        escapeLiteral ('[' :: body) ++ literalEnd ++ renderTokens resolve false rest :=
      ⟨_, _, rfl⟩
    obtain ⟨found, hfound⟩ := Option.isSome_iff_exists.1 (throughEnd_isSome hend)
    have hspan : spanAt (literalStart ++ (escapeLiteral ('[' :: body) ++ literalEnd ++
        renderTokens resolve false rest)) = some (.literal (literalStart ++ found)) := by
      have hliteral : literalAt (literalStart ++ (escapeLiteral ('[' :: body) ++ literalEnd ++
          renderTokens resolve false rest)) = some (literalStart ++ found) := by
        unfold literalAt
        rw [if_pos (List.isPrefixOf_iff_prefix.2 (List.prefix_append _ _)),
          show ∀ text : Text, (literalStart ++ text).drop 4 = text from fun text => rfl, hfound]
        rfl
      rw [spanAt, hliteral]
    have hread : ∀ more, unescapeLiteralPairs (literalStart ++ found) ++ more =
        '[' :: (unescapeLiteralPairs ('\\' :: '[' :: found) ++ more) := fun more => rfl
    rw [hrender, Bool.not_true, Bool.false_and]
    simp only [Bool.false_eq_true, iff_false]
    -- A literal is found that begins one backslash too early, and loses it.
    intro heq
    have hparse := (parse_span_literal hspan (escapeAngles before).reverse).symm.trans heq
    rw [List.reverse_reverse, unescapeAngleOnly_escapeAngles hclean, List.append_assoc, hread] at hparse
    have := List.append_cancel_left hparse
    simp at this

/-- A link that is pushed as a literal. -/
theorem roundTrip_literal {resolve : Resolver} {pull : PageResolver} {link : Wikilink}
    {tokens : List Token} (h : ReadsBack resolve pull (.link link :: tokens))
    (ih : RoundTrips resolve pull tokens) (hnone : resolve link.target = none)
    {before : Text} {run : Nat} (hclean : Clean false before)
    (hrest : Clean (parityAfter false before) (link.raw ++ rawOf tokens)) :
    parsePlainFrom pull 0 0 run (escapeAngles before).reverse
        (renderTokens resolve (parityAfter false before) (.link link :: tokens)) =
          before ++ (link.raw ++ rawOf tokens) ↔
      clear resolve 0 (parityAfter false before) (.link link :: tokens) = true := by
  obtain ⟨⟨body, hshape⟩, hplain⟩ := h.links link List.mem_cons_self
  have hlink : markdownOf (renderLink resolve link) = escapeLiteral link.raw := by
    rw [renderLink_plain hplain, hnone]
  obtain ⟨init, hlast⟩ : ∃ init, escapeLiteral link.raw = init ++ [']'] := by
    refine ⟨escapeLiteral ('[' :: '[' :: body) ++ ['\\', ']', '\\'], ?_⟩
    rw [hshape.raw, escapeLiteral, List.flatMap_append, escapeLiteral, List.append_assoc]
    rfl
  have hrun : oddRun (runAfter run (escapeLiteral link.raw)) = false := by
    rw [oddRun_runAfter, hlast, parityAfter_concat (by decide)]
  have hparity : parityAfter (parityAfter false before) link.raw = false := by
    rw [hshape.raw, closing, show ('[' :: '[' :: body ++ [']', ']'] : Text) =
      ('[' :: '[' :: body ++ [']']) ++ [']'] by simp, parityAfter_concat (by decide)]
  have hcleanRest := (Clean.split hrest).2
  rw [hparity] at hcleanRest
  have hnext := ih [] (runAfter run (escapeLiteral link.raw)) trivial hrun hcleanRest
  rw [renderTokens, hlink, parse_literal hshape, List.reverse_reverse,
    unescapeAngleOnly_escapeAngles hclean, clear, hnone, List.append_assoc,
    List.append_cancel_left_eq, List.append_cancel_left_eq]
  exact hnext

/-- A link that is pushed as a mention. -/
theorem roundTrip_mention {resolve : Resolver} {pull : PageResolver} {link : Wikilink}
    {tokens : List Token} (h : ReadsBack resolve pull (.link link :: tokens))
    (ih : RoundTrips resolve pull tokens) {page : Translate.ResolvedWikiLink}
    (hpage : resolve link.target = some page) {before : Text} {run : Nat}
    (hclean : Clean false before) (hrun : oddRun run = parityAfter false before)
    (hrest : Clean (parityAfter false before) (link.raw ++ rawOf tokens)) :
    parsePlainFrom pull 0 0 run (escapeAngles before).reverse
        (renderTokens resolve (parityAfter false before) (.link link :: tokens)) =
          before ++ (link.raw ++ rawOf tokens) ↔
      clear resolve 0 (parityAfter false before) (.link link :: tokens) = true := by
  obtain ⟨⟨body, hshape⟩, hplain⟩ := h.links link List.mem_cons_self
  have hlink : markdownOf (renderLink resolve link) = mentionStart ++ (attrSafe page.url ++
      '"' :: '>' :: (escapeLiteral page.title ++ mentionEnd)) := by
    rw [renderLink_plain hplain, hpage]
  have halias : link.aliasText = none := hplain.resolve_left (by simp [hpage])
  have hraw : '[' :: '[' :: link.target ++ closing = link.raw := by
    rw [hshape.raw, hshape.target halias]
  rw [renderTokens, clear, hpage, Option.isNone_some, Bool.false_or]
  cases hodd : parityAfter false before with
  | true =>
    -- the mention is taken for prose
    have htext : markdownOf (renderLink resolve link) ++ renderTokens resolve false tokens =
        '<' :: (mentionStart.tail ++ (attrSafe page.url ++ '"' :: '>' ::
          (escapeLiteral page.title ++ (mentionEnd ++ renderTokens resolve false tokens)))) := by
      rw [hlink]
      simp [mentionStart]
    obtain ⟨u, v, hparse, -⟩ := parse_shape pull
      (mentionStart.tail ++ (attrSafe page.url ++ ['"', '>'])).length 0
      ('<' :: (escapeAngles before).reverse) (mentionStart.tail ++ (attrSafe page.url ++ '"' ::
        '>' :: (escapeLiteral page.title ++ (mentionEnd ++ renderTokens resolve false tokens))))
    rw [hodd] at hrun
    rw [htext, parse_inert (oddRun_eq_true.1 hrun)
      (tagFrom_mention (attrSafe_not_mem page.url).1 _), hparse, List.reverse_cons,
      List.reverse_reverse, List.append_assoc, List.singleton_append]
    simp only [Bool.not_true, Bool.false_and, Bool.false_eq_true, iff_false]
    rw [hshape.raw]
    exact unescaped_lt_ne hclean u v _
  | false =>
    have hrun' : run % 2 ≠ 1 := by
      rw [Ne, ← oddRun_eq_true, hrun, hodd]
      decide
    obtain ⟨init, hlast⟩ : ∃ init, mentionStart ++ (attrSafe page.url ++
        '"' :: '>' :: (escapeLiteral page.title ++ mentionEnd)) = init ++ ['>'] :=
      ⟨mentionStart ++ (attrSafe page.url ++ '"' :: '>' :: (escapeLiteral page.title ++
        mentionEnd.dropLast)), by simp [mentionEnd]⟩
    have hrunNext : oddRun (runAfter run (mentionStart ++ (attrSafe page.url ++
        '"' :: '>' :: (escapeLiteral page.title ++ mentionEnd)))) = false := by
      rw [oddRun_runAfter, hlast, parityAfter_concat (by decide)]
    have hparity : parityAfter (parityAfter false before) link.raw = false := by
      rw [hshape.raw, closing, show ('[' :: '[' :: body ++ [']', ']'] : Text) =
        ('[' :: '[' :: body ++ [']']) ++ [']'] by simp, parityAfter_concat (by decide)]
    have hcleanRest := (Clean.split hrest).2
    rw [hparity] at hcleanRest
    have hnext := ih [] _ trivial hrunNext hcleanRest
    rw [hlink, parse_mention (attrSafe_not_mem page.url).1
      (h.pulled link List.mem_cons_self page hpage) hrun', List.reverse_reverse,
      unescapeAngleOnly_escapeAngles hclean, hraw, Bool.not_false, Bool.true_and,
      List.append_assoc, List.append_cancel_left_eq, List.append_cancel_left_eq]
    exact hnext

theorem parse_tokens {resolve : Resolver} {pull : PageResolver} (n : Nat) (tokens : List Token)
    (hn : tokens.length ≤ n) (h : ReadsBack resolve pull tokens) :
    RoundTrips resolve pull tokens := by
  induction n generalizing tokens with
  | zero =>
    have htokens : tokens = [] := List.length_eq_zero_iff.1 (Nat.le_zero.1 hn)
    subst htokens
    intro before run hclean _ _
    rw [renderTokens, parsePlainFrom, List.reverse_reverse, unescapeAngleOnly_escapeAngles hclean]
    simp [rawOf, clear]
  | succ n ih =>
    cases tokens with
    | nil => exact ih [] (Nat.zero_le n) h
    | cons token tokens =>
      have hlength : tokens.length ≤ n := Nat.le_of_succ_le_succ hn
      have htail := ih tokens hlength h.tail
      intro before run hclean hrun hrest
      cases token with
      | link link =>
        cases hpage : resolve link.target with
        | none => exact roundTrip_literal h htail hpage hclean hrest
        | some page => exact roundTrip_mention h htail hpage hclean hrun hrest
      | char c =>
        by_cases hlt : c = '<'
        · subst hlt
          exact roundTrip_lt h.tail (fun rest hle hreads => ih rest (hle.trans hlength) hreads)
            hclean hrun hrest
        · by_cases hback : c = '\\'
          · subst hback
            exact roundTrip_backslash h htail hclean hrun hrest
          · have hparity : stepParity (parityAfter false before) c = false := if_neg hback
            have hplain := roundTrip_plain htail hlt hclean hrun hrest (spanAt_plain hback hlt _)
            rw [hparity] at hplain
            rw [clear, if_neg hlt, if_neg hback]
            exact hplain

theorem clean_of_backslashRun {text : Text}
    (h : ∀ pre post, text = pre ++ '<' :: post → backslashRun pre % 2 = 0) : Clean false text := by
  have hclean : ∀ (pre rest : Text), text = pre ++ rest → Clean (parityAfter false pre) rest := by
    intro pre rest
    induction rest generalizing pre with
    | nil => exact fun _ => trivial
    | cons c rest ih =>
      intro htext
      constructor
      · rintro rfl
        rw [parityAfter_eq, decide_eq_false_iff_not]
        have := h pre rest htext
        omega
      · have hnext := ih (pre ++ [c]) (by rw [htext]; simp)
        rwa [parityAfter_append] at hnext
  exact hclean [] text rfl

/-- Exactly when nothing in the text reaches over the start of a link. -/
theorem parsePlainText_renderPlainText (resolve : Resolver) (pull : PageResolver) (text : Text)
    (hliteral : ¬ literalStart <:+: text)
    (hclean : ∀ pre post, text = pre ++ '<' :: post → backslashRun pre % 2 = 0)
    (hlinks : ∀ link, Token.link link ∈ tokensOf text → resolve link.target = none ∨
      link.aliasText = none ∧ ∃ page, resolve link.target = some page ∧
        pull (attrSafe page.url) = some link.target) :
    parsePlainText pull (markdownOf (renderPlainText resolve text)) = text ↔
      clear resolve 0 false (tokensOf text) = true := by
  have hreads : ReadsBack resolve pull (tokensOf text) := by
    refine ⟨fun link hlink => ⟨link_tokensFrom hlink, ?_⟩, fun link hlink page hpage => ?_, ?_⟩
    · exact (hlinks link hlink).imp_right And.left
    · rcases hlinks link hlink with hnone | ⟨-, page', hpage', hpull⟩
      · rw [hpage] at hnone
        cases hnone
      · rw [hpage] at hpage'
        cases hpage'
        exact hpull
    · rwa [rawOf_tokensOf]
  have hround := parse_tokens _ (tokensOf text) le_rfl hreads [] 0 trivial rfl (by
    rw [rawOf_tokensOf]
    exact clean_of_backslashRun hclean)
  rw [rawOf_tokensOf] at hround
  rw [renderPlainText_tokens]
  exact hround

/-- `<[[x]][[y]]`, where only `y` is a page. -/
def twoLinks : Text := ['<', '[', '[', 'x', ']', ']', '[', '[', 'y', ']', ']']

def onlyY : Resolver := fun target => if target = ['y'] then some ⟨['u'], ['t']⟩ else none

def backToY : PageResolver := fun url => if url = ['u'] then some ['y'] else none

theorem parsePlainText_twoLinks :
    parsePlainText backToY (markdownOf (renderPlainText onlyY twoLinks)) = twoLinks := by
  refine (parsePlainText_renderPlainText onlyY backToY twoLinks (by decide) ?_ ?_).2 (by decide)
  · intro pre post h
    cases pre with
    | nil => rfl
    | cons c pre =>
      have hmem : '<' ∈ twoLinks.tail := by
        rw [h]
        simp
      exact absurd hmem (by decide)
  · have htokens : tokensOf twoLinks = [.char '<', .link ⟨['x'], none, ['[', '[', 'x', ']', ']']⟩,
        .link ⟨['y'], none, ['[', '[', 'y', ']', ']']⟩] := rfl
    rw [htokens]
    intro link hlink
    simp only [List.mem_cons, Token.link.injEq, reduceCtorEq, List.not_mem_nil, or_false,
      false_or] at hlink
    rcases hlink with rfl | rfl
    · exact .inl rfl
    · exact .inr ⟨rfl, ⟨['u'], ['t']⟩, rfl, rfl⟩

/-- `\[[y]]`, `\[[[x]]` and `<a b="[[x]]">`. -/
theorem parsePlainText_loses :
    parsePlainText backToY (markdownOf (renderPlainText onlyY
      ['\\', '[', '[', 'y', ']', ']'])) ≠ ['\\', '[', '[', 'y', ']', ']'] ∧
    parsePlainText backToY (markdownOf (renderPlainText onlyY
      ['\\', '[', '[', '[', 'x', ']', ']'])) ≠ ['\\', '[', '[', '[', 'x', ']', ']'] ∧
    parsePlainText backToY (markdownOf (renderPlainText onlyY
      ['<', 'a', ' ', 'b', '=', '"', '[', '[', 'x', ']', ']', '"', '>'])) ≠
        ['<', 'a', ' ', 'b', '=', '"', '[', '[', 'x', ']', ']', '"', '>'] ∧
    ¬ literalStart <:+: ['\\', '[', '[', 'y', ']', ']'] ∧
    ¬ literalStart <:+: ['\\', '[', '[', '[', 'x', ']', ']'] := by
  decide +kernel

end Lares.Notion.TranslatePull
