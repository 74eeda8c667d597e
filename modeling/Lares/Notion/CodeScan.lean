import Lares.Notion.Translate
import Mathlib

/-! # Where code stands in a vault file

    What is a fenced line and what is an inline code span, read off the source
    and not off the renderer.

    * **Fences**: a line opens one outside of any fence, and it stays open up to
      the first line that closes it.
    * **Spans**: a text is scanned from the left. A span is closed by the first
      run of backticks that fits, and opened by as many of them as can be closed.
    * The renderer's own readings are these (`fenceRun_eq_some_iff`,
      `codeSpanAt_eq_some_iff`).
-/

namespace Lares.Notion.Translate

open Lines

/-! ## Section 1: Fences -/

/-- A line that opens a fence: three blanks at most, then its character at least three times, and
    no more of it. -/
def Opens (line : Text) (fence : FenceState) : Prop :=
  ∃ n ≤ 3, ∃ rest, line = List.replicate n ' ' ++ (List.replicate fence.length fence.char ++ rest) ∧
    (fence.char = '`' ∨ fence.char = '~') ∧ 3 ≤ fence.length ∧ rest.head? ≠ some fence.char

/-- A line that closes a fence: a run of its character that is not shorter, and nothing else. -/
def Closes (line : Text) (fence : FenceState) : Prop :=
  ∃ n ≤ 3, ∃ m ≥ fence.length, ∃ rest,
    line = List.replicate n ' ' ++ (List.replicate m fence.char ++ rest) ∧ isBlank rest = true

/-- The fence that is open after some lines, if one is. -/
inductive FenceOpen : List Text → Option FenceState → Prop
  | start : FenceOpen [] none
  | outside {lines : List Text} {line : Text} (h : FenceOpen lines none)
      (hline : ∀ fence, ¬Opens line fence) : FenceOpen (lines ++ [line]) none
  | opened {lines : List Text} {line : Text} {fence : FenceState} (h : FenceOpen lines none)
      (hline : Opens line fence) : FenceOpen (lines ++ [line]) (some fence)
  | inside {lines : List Text} {line : Text} {fence : FenceState} (h : FenceOpen lines (some fence))
      (hline : ¬Closes line fence) : FenceOpen (lines ++ [line]) (some fence)
  | closed {lines : List Text} {line : Text} {fence : FenceState} (h : FenceOpen lines (some fence))
      (hline : Closes line fence) : FenceOpen (lines ++ [line]) none

/-- What is taken of a run ends where the run does. -/
theorem takeWhile_replicate_append {c : Char} {rest : Text} (h : rest.head? ≠ some c) (n : Nat) :
    (List.replicate n c ++ rest).takeWhile (· = c) = List.replicate n c := by
  have hstop : rest.takeWhile (· = c) = [] := by
    cases rest with
    | nil => rfl
    | cons d rest =>
      have hd : ¬d = c := fun hd => h (by rw [hd]; rfl)
      simp [hd]
  rw [List.takeWhile_append_of_pos (by simp [List.mem_replicate]), hstop, List.append_nil]

/-- A text is its first run of a character and what follows. -/
theorem exists_run (c : Char) (text : Text) : ∃ rest, rest.head? ≠ some c ∧
    text = List.replicate (text.takeWhile (· = c)).length c ++ rest := by
  have hrun : text.takeWhile (· = c) = List.replicate (text.takeWhile (· = c)).length c := by
    refine List.eq_replicate_iff.2 ⟨rfl, fun d hd => ?_⟩
    simpa using List.mem_takeWhile_imp hd
  refine ⟨text.dropWhile (· = c), ?_, ?_⟩
  · intro hhead
    have hnot := List.head?_dropWhile_not (fun d => decide (d = c)) text
    rw [hhead] at hnot
    simp at hnot
  · rw [← hrun]
    exact List.takeWhile_append_dropWhile.symm

theorem exists_blanks (line : Text) :
    ∃ n ≤ 3, line = List.replicate n ' ' ++ dropUpTo3 (· = ' ') line := by
  obtain ⟨after, -, hline⟩ := exists_run ' ' line
  unfold dropUpTo3
  generalize (line.takeWhile (· = ' ')).length = blanks at hline ⊢
  refine ⟨min 3 blanks, Nat.min_le_left 3 blanks, ?_⟩
  have hsplit : List.replicate blanks ' ' =
      List.replicate (min 3 blanks) ' ' ++ List.replicate (blanks - min 3 blanks) ' ' := by
    rw [List.replicate_append_replicate, Nat.add_sub_cancel' (Nat.min_le_right 3 blanks)]
  rw [hline, hsplit, List.append_assoc, List.drop_left' List.length_replicate]

theorem fenceRun_eq_some_iff {line rest : Text} {fence : FenceState} :
    fenceRun line = some (fence, rest) ↔ ∃ n ≤ 3,
      line = List.replicate n ' ' ++ (List.replicate fence.length fence.char ++ rest) ∧
        (fence.char = '`' ∨ fence.char = '~') ∧ 3 ≤ fence.length ∧ rest.head? ≠ some fence.char := by
  obtain ⟨c, k⟩ := fence
  dsimp only
  constructor
  · intro h
    -- The blanks, the run, and the rest are cut off one after another.
    obtain ⟨n, hn, hline⟩ := exists_blanks line
    unfold fenceRun at h
    dsimp only at h
    generalize dropUpTo3 (· = ' ') line = text at h hline
    have htick : (if text.head? = some '~' then '~' else '`') = '`' ∨
        (if text.head? = some '~' then '~' else '`') = '~' := by
      split
      · exact .inr rfl
      · exact .inl rfl
    generalize (if text.head? = some '~' then '~' else '`') = tick at h htick
    split at h
    · next hlong =>
      obtain ⟨after, hafter, htext⟩ := exists_run tick text
      have hrest : text.drop (text.takeWhile (· = tick)).length = after := by
        conv_lhs => rw [htext]
        exact List.drop_left' (by rw [List.length_replicate, ← htext])
      rw [hrest] at h
      cases h
      exact ⟨n, hn, by rw [← htext]; exact hline, htick, hlong, hafter⟩
    · cases h
  · rintro ⟨n, hn, rfl, hc, hk, hrest⟩
    -- And the other way round: each of the three is found again.
    have hblank : (List.replicate k c ++ rest).head? = some c := by
      rw [List.head?_append, List.head?_replicate, if_neg (by omega)]
      rfl
    have hother : (List.replicate k c ++ rest).head? ≠ some ' ' := by
      rw [hblank]
      rcases hc with rfl | rfl <;> decide
    have htext : dropUpTo3 (· = ' ') (List.replicate n ' ' ++ (List.replicate k c ++ rest)) =
        List.replicate k c ++ rest := by
      rw [dropUpTo3, takeWhile_replicate_append hother, List.length_replicate,
        Nat.min_eq_right hn]
      exact List.drop_left' List.length_replicate
    have htick : (if (List.replicate k c ++ rest).head? = some '~' then '~' else '`') = c := by
      rw [hblank]
      rcases hc with rfl | rfl <;> rfl
    unfold fenceRun
    rw [htext]
    dsimp only
    rw [htick, takeWhile_replicate_append hrest, List.length_replicate, if_pos hk,
      List.drop_left' List.length_replicate]

theorem opensFence_eq_some_iff {line : Text} {fence : FenceState} :
    opensFence line = some fence ↔ Opens line fence := by
  unfold opensFence Opens
  rw [Option.map_eq_some_iff]
  constructor
  · rintro ⟨⟨opened, rest⟩, hrun, rfl⟩
    obtain ⟨n, hn, hline, hrest⟩ := fenceRun_eq_some_iff.1 hrun
    exact ⟨n, hn, rest, hline, hrest⟩
  · rintro ⟨n, hn, rest, hline, hrest⟩
    exact ⟨(fence, rest), fenceRun_eq_some_iff.2 ⟨n, hn, hline, hrest⟩, rfl⟩

theorem opensFence_eq_none_iff {line : Text} : opensFence line = none ↔ ∀ fence, ¬Opens line fence := by
  rw [Option.eq_none_iff_forall_ne_some]
  exact forall_congr' fun fence => not_congr opensFence_eq_some_iff

theorem closesFence_iff {opener line : Text} {fence : FenceState} (h : Opens opener fence) :
    closesFence line fence = true ↔ Closes line fence := by
  obtain ⟨-, -, -, -, hchar, hlength, -⟩ := h
  unfold closesFence Closes
  constructor
  · intro hcloses
    split at hcloses
    · next run rest hrun =>
      simp only [Bool.and_eq_true, decide_eq_true_eq] at hcloses
      obtain ⟨⟨hblank, hsame⟩, hlong⟩ := hcloses
      obtain ⟨n, hn, hline, -⟩ := fenceRun_eq_some_iff.1 hrun
      rw [hsame] at hline
      exact ⟨n, hn, run.length, hlong, rest, hline, hblank⟩
    · cases hcloses
  · rintro ⟨n, hn, m, hm, rest, hline, hblank⟩
    have hrest : rest.head? ≠ some fence.char := by
      intro hhead
      have hspace : isSpace fence.char = true :=
        List.all_eq_true.1 hblank _ (List.mem_of_mem_head? hhead)
      rcases hchar with hc | hc
      · rw [hc] at hspace
        exact absurd hspace (by decide)
      · rw [hc] at hspace
        exact absurd hspace (by decide)
    have hrun : fenceRun line = some (⟨fence.char, m⟩, rest) :=
      fenceRun_eq_some_iff.2 ⟨n, hn, hline, hchar, by dsimp only; omega, hrest⟩
    rw [hrun]
    simp only [hblank, decide_true, Bool.and_self, Bool.true_and, decide_eq_true_eq]
    exact hm

/-- The fence of the renderer after one more line. -/
theorem FenceOpen.next {lines : List Text} {line : Text} {fence : FenceState}
    (h : FenceOpen lines (some fence)) :
    FenceOpen (lines ++ [line]) (if closesFence line fence then none else some fence) := by
  obtain ⟨opener, hopener⟩ : ∃ opener, Opens opener fence := by
    generalize hstate : some fence = state at h
    induction h with
    | start => cases hstate
    | outside => cases hstate
    | opened h hline =>
      cases hstate
      exact ⟨_, hline⟩
    | inside h hline ih => exact ih hstate
    | closed => cases hstate
  split
  · next hcloses => exact .closed h ((closesFence_iff hopener).1 hcloses)
  · next hcloses => exact .inside h fun hline => hcloses ((closesFence_iff hopener).2 hline)

theorem FenceOpen.exists_opens {lines : List Text} {fence : FenceState}
    (h : FenceOpen lines (some fence)) : ∃ line ∈ lines, Opens line fence := by
  generalize hstate : some fence = state at h
  induction h with
  | start => cases hstate
  | outside => cases hstate
  | opened h hline =>
    cases hstate
    exact ⟨_, by simp, hline⟩
  | inside h hline ih =>
    obtain ⟨line, hmem, hopens⟩ := ih hstate
    exact ⟨line, List.mem_append_left _ hmem, hopens⟩
  | closed => cases hstate

/-- A line of a quote opens no fence. -/
theorem isQuoteLine_not_opens {line : Text} (h : isQuoteLine line = true) (fence : FenceState) :
    ¬Opens line fence := by
  rintro ⟨n, hn, rest, rfl, hchar, hlength, -⟩
  have hspace : isSpace fence.char = false := by
    rcases hchar with hc | hc
    · rw [hc]
      decide
    · rw [hc]
      decide
  obtain ⟨k, hk⟩ : ∃ k, fence.length = k + 1 := ⟨fence.length - 1, by omega⟩
  obtain ⟨j, hj⟩ : ∃ j, 4 - n = j + 1 := ⟨3 - n, by omega⟩
  have htake : (List.replicate n ' ' ++ (List.replicate fence.length fence.char ++ rest)).take 4 =
      List.replicate n ' ' ++ fence.char :: (List.replicate k fence.char ++ rest).take j := by
    rw [List.take_append, List.length_replicate, hj, List.take_of_length_le (by simp; omega), hk,
      List.replicate_succ, List.cons_append, List.take_succ_cons]
  have hdrop : ∀ m (more : Text), (List.replicate m ' ' ++ fence.char :: more).dropWhile isSpace =
      fence.char :: more := by
    intro m more
    rw [List.dropWhile_append_of_pos (by simp [List.mem_replicate, isSpace]), List.dropWhile_cons,
      hspace]
    rfl
  unfold isQuoteLine at h
  rw [htake, hdrop, List.head?_cons, decide_eq_true_eq, Option.some.injEq] at h
  rcases hchar with hc | hc <;> rw [hc] at h <;> exact absurd h (by decide)

/-! ## Section 2: Code spans -/

def ticks (n : Nat) : Text := List.replicate n '`'

/-- A span of `n` backticks on either side, on one line, closed at the first place they stand. -/
def SpanWith (n : Nat) (span rest : Text) : Prop :=
  0 < n ∧ ∃ content, span = ticks n ++ content ++ ticks n ∧
    (∀ c ∈ content, isTerminator c = false) ∧
    ∀ a b, content ++ (ticks n ++ rest) = a ++ (ticks n ++ b) → content.length ≤ a.length

/-- The span in front of `rest`: with more backticks there is none at its place. -/
def SpanAt (span rest : Text) : Prop :=
  ∃ n, SpanWith n span rest ∧
    ∀ m > n, ∀ span' rest', span ++ rest = span' ++ rest' → ¬SpanWith m span' rest'

/-- No span begins a text. -/
def NoSpanAt (text : Text) : Prop := ∀ span rest, text = span ++ rest → ¬SpanAt span rest

/-- Scanning a text from the left passes over each span, and over a character where none begins:
    what was passed and what is left. -/
inductive Scanned (text : Text) : Text → Text → Prop
  | start : Scanned text [] text
  | span {before span rest : Text} (h : Scanned text before (span ++ rest))
      (hspan : SpanAt span rest) : Scanned text (before ++ span) rest
  | char {before rest : Text} {c : Char} (h : Scanned text before (c :: rest))
      (hspan : NoSpanAt (c :: rest)) : Scanned text (before ++ [c]) rest

/-- A backtick is left over when a text is scanned. -/
def LeftOpen (text : Text) : Prop :=
  ∃ before rest, Scanned text before ('`' :: rest) ∧ NoSpanAt ('`' :: rest)

theorem Scanned.append_eq {text before rest : Text} (h : Scanned text before rest) :
    before ++ rest = text := by
  induction h with
  | start => rfl
  | span h hspan ih => rw [List.append_assoc, ih]
  | char h hspan ih => rw [List.append_assoc, List.singleton_append, ih]

theorem contentTo_sound {close text content : Text} (h : contentTo close text = some content) :
    (∃ rest, text = content ++ (close ++ rest)) ∧ (∀ c ∈ content, isTerminator c = false) ∧
      ∀ a b, text = a ++ (close ++ b) → content.length ≤ a.length := by
  induction text generalizing content with
  | nil => cases h
  | cons c text ih =>
    rw [contentTo] at h
    split at h
    · next hclose =>
      cases h
      obtain ⟨rest, hrest⟩ := List.isPrefixOf_iff_prefix.1 hclose
      exact ⟨⟨rest, hrest.symm⟩, by simp, fun a b _ => Nat.zero_le _⟩
    · next hclose =>
      split at h
      · cases h
      · next hterminator =>
        obtain ⟨content', hcontent, rfl⟩ := Option.map_eq_some_iff.1 h
        obtain ⟨⟨rest, hrest⟩, hline, hfirst⟩ := ih hcontent
        refine ⟨⟨rest, by rw [hrest]; rfl⟩, ?_, ?_⟩
        · intro d hd
          rcases List.mem_cons.1 hd with rfl | hd
          · simpa using hterminator
          · exact hline d hd
        · intro a b hab
          cases a with
          | nil => exact absurd (List.isPrefixOf_iff_prefix.2 ⟨b, hab.symm⟩) hclose
          | cons d a =>
            have hle := hfirst a b (List.cons.inj hab).2
            simp only [List.length_cons]
            omega

theorem contentTo_complete {close content rest : Text} (hclose : close ≠ [])
    (hline : ∀ c ∈ content, isTerminator c = false)
    (hfirst : ∀ a b, content ++ (close ++ rest) = a ++ (close ++ b) → content.length ≤ a.length) :
    contentTo close (content ++ (close ++ rest)) = some content := by
  induction content with
  | nil =>
    obtain ⟨c, close', rfl⟩ := List.exists_cons_of_ne_nil hclose
    rw [List.nil_append, List.cons_append, contentTo, if_pos]
    exact List.isPrefixOf_iff_prefix.2 ⟨rest, rfl⟩
  | cons c content ih =>
    have hrest := ih (fun d hd => hline d (List.mem_cons_of_mem c hd)) fun a b hab => by
      have hle := hfirst (c :: a) b (by rw [List.cons_append, hab, List.cons_append])
      simpa using hle
    rw [List.cons_append, contentTo, if_neg, if_neg, hrest, Option.map_some]
    · simp [hline c List.mem_cons_self]
    · intro hprefix
      obtain ⟨b, hb⟩ := List.isPrefixOf_iff_prefix.1 hprefix
      have hle := hfirst [] b (by rw [List.cons_append, ← hb, List.nil_append])
      simp at hle

/-- The spans of `n + 1` backticks, in terms of what stands between them. -/
theorem exists_spanWith_iff {n : Nat} {text span : Text}
    (h : text = ticks (n + 1) ++ text.drop (n + 1)) :
    (∃ rest, text = span ++ rest ∧ SpanWith (n + 1) span rest) ↔
      ∃ content, contentTo (ticks (n + 1)) (text.drop (n + 1)) = some content ∧
        ticks (n + 1) ++ content ++ ticks (n + 1) = span := by
  have hticks : ticks (n + 1) ≠ [] := by simp [ticks]
  constructor
  · rintro ⟨rest, hrest, -, content, rfl, hline, hfirst⟩
    refine ⟨content, ?_, rfl⟩
    have hdrop : text.drop (n + 1) = content ++ (ticks (n + 1) ++ rest) := by
      rw [hrest]
      simp only [List.append_assoc]
      exact List.drop_left' (by simp [ticks])
    rw [hdrop]
    exact contentTo_complete hticks hline hfirst
  · rintro ⟨content, hcontent, rfl⟩
    obtain ⟨⟨rest, hrest⟩, hline, hfirst⟩ := contentTo_sound hcontent
    refine ⟨rest, ?_, by omega, content, rfl, hline, ?_⟩
    · rw [hrest] at h
      rw [h]
      simp only [List.append_assoc]
    · rw [← hrest]
      exact hfirst

/-- The most backticks, up to a number, that can be closed. -/
theorem codeSpanUpTo_eq_some_iff {N : Nat} {text span : Text}
    (hN : N ≤ (text.takeWhile (· = '`')).length) : codeSpanUpTo N text = some span ↔
      ∃ n ≤ N, (∃ rest, text = span ++ rest ∧ SpanWith n span rest) ∧
        ∀ m > n, m ≤ N → ∀ span' rest', text = span' ++ rest' → ¬SpanWith m span' rest' := by
  induction N with
  | zero =>
    refine iff_of_false (by simp [codeSpanUpTo]) ?_
    rintro ⟨n, hn, ⟨rest, -, hpos, -⟩, -⟩
    omega
  | succ N ih =>
    obtain ⟨after, -, hrun⟩ := exists_run '`' text
    -- The run is long enough to open with `N + 1` backticks.
    have htext : text = ticks (N + 1) ++ text.drop (N + 1) := by
      have hsplit : List.replicate (text.takeWhile (· = '`')).length '`' = ticks (N + 1) ++
          List.replicate ((text.takeWhile (· = '`')).length - (N + 1)) '`' := by
        rw [ticks, List.replicate_append_replicate, Nat.add_sub_cancel' hN]
      rw [hsplit, List.append_assoc] at hrun
      have hdrop : text.drop (N + 1) =
          List.replicate ((text.takeWhile (· = '`')).length - (N + 1)) '`' ++ after := by
        conv_lhs => rw [hrun]
        exact List.drop_left' (by simp [ticks])
      rw [hdrop]
      exact hrun
    have hwith := fun span => @exists_spanWith_iff N text span htext
    have hstep : codeSpanUpTo (N + 1) text = (contentTo (ticks (N + 1)) (text.drop (N + 1))).elim
        (codeSpanUpTo N text) fun content => some (ticks (N + 1) ++ content ++ ticks (N + 1)) := by
      rw [codeSpanUpTo, ticks]
      cases contentTo (List.replicate (N + 1) '`') (text.drop (N + 1)) <;> rfl
    rw [hstep]
    cases hcontent : contentTo (ticks (N + 1)) (text.drop (N + 1)) with
    | some content =>
      -- They are closed somewhere: this is the span, and no longer run has one.
      have hfound := (hwith _).2 ⟨content, hcontent, rfl⟩
      constructor
      · intro h
        cases h
        exact ⟨N + 1, le_refl _, hfound, fun m hm hle => by omega⟩
      · rintro ⟨n, hn, hspan, hmost⟩
        rcases Nat.lt_or_ge n (N + 1) with hlt | hge
        · obtain ⟨rest, hrest, hspan'⟩ := hfound
          exact absurd hspan' (hmost (N + 1) hlt (le_refl _) _ rest hrest)
        · obtain rfl : n = N + 1 := by omega
          obtain ⟨content', hcontent', rfl⟩ := (hwith span).1 hspan
          rw [hcontent] at hcontent'
          cases hcontent'
          rfl
    | none =>
      -- They are not: the next shorter run decides.
      have hnone : ∀ span' rest', text = span' ++ rest' → ¬SpanWith (N + 1) span' rest' := by
        intro span' rest' hrest hspan
        obtain ⟨content, hcontent', -⟩ := (hwith span').1 ⟨rest', hrest, hspan⟩
        rw [hcontent] at hcontent'
        cases hcontent'
      rw [Option.elim_none, ih (by omega)]
      constructor
      · rintro ⟨n, hn, hspan, hmost⟩
        refine ⟨n, by omega, hspan, ?_⟩
        intro m hm hle
        rcases Nat.lt_or_ge m (N + 1) with hlt | hge
        · exact hmost m hm (by omega)
        · obtain rfl : m = N + 1 := by omega
          exact hnone
      · rintro ⟨n, hn, hspan, hmost⟩
        rcases Nat.lt_or_ge n (N + 1) with hlt | hge
        · exact ⟨n, by omega, hspan, fun m hm hle => hmost m hm (by omega)⟩
        · obtain rfl : n = N + 1 := by omega
          obtain ⟨rest, hrest, hspan⟩ := hspan
          exact absurd hspan (hnone _ rest hrest)

theorem SpanWith.le_run {n : Nat} {span rest : Text} (h : SpanWith n span rest) :
    n ≤ ((span ++ rest).takeWhile (· = '`')).length := by
  obtain ⟨-, content, rfl, -⟩ := h
  rw [List.append_assoc, List.append_assoc, List.takeWhile_append_of_pos (by simp [ticks])]
  simp [ticks]

/-- The renderer's code spans are the spans. -/
theorem codeSpanAt_eq_some_iff {text span : Text} :
    codeSpanAt text = some span ↔ ∃ rest, text = span ++ rest ∧ SpanAt span rest := by
  unfold codeSpanAt
  rw [codeSpanUpTo_eq_some_iff (le_refl _)]
  constructor
  · rintro ⟨n, hn, ⟨rest, rfl, hspan⟩, hmost⟩
    refine ⟨rest, rfl, n, hspan, ?_⟩
    intro m hm span' rest' heq hspan'
    have hle := hspan'.le_run
    rw [← heq] at hle
    exact hmost m hm hle span' rest' heq hspan'
  · rintro ⟨rest, rfl, n, hspan, hmost⟩
    exact ⟨n, hspan.le_run, ⟨rest, rfl, hspan⟩, fun m hm _ => hmost m hm⟩

theorem codeSpanAt_eq_none_iff {text : Text} : codeSpanAt text = none ↔ NoSpanAt text := by
  rw [Option.eq_none_iff_forall_ne_some]
  constructor
  · intro h span rest heq hspan
    exact h span (codeSpanAt_eq_some_iff.2 ⟨rest, heq, hspan⟩)
  · intro h span hsome
    obtain ⟨rest, heq, hspan⟩ := codeSpanAt_eq_some_iff.1 hsome
    exact h span rest heq hspan

theorem SpanAt.tick_mem {span rest : Text} (h : SpanAt span rest) : '`' ∈ span := by
  obtain ⟨n, ⟨hpos, content, rfl, -⟩, -⟩ := h
  have hmem : '`' ∈ ticks n := List.mem_replicate.2 ⟨by omega, rfl⟩
  exact List.mem_append_right _ hmem

/-- One pass of a scan of the renderer: a span and its characters are skipped, or one character. -/
theorem Scanned.next_span {text before line span : Text} {c : Char}
    (h : Scanned text before (c :: line)) (hspan : codeSpanAt (c :: line) = some span) :
    Scanned text (before ++ span) (line.drop (span.length - 1)) ∧
      ∃ rest, c :: line = span ++ rest ∧ SpanAt span rest := by
  obtain ⟨rest, heq, hat⟩ := codeSpanAt_eq_some_iff.1 hspan
  have hpos : 0 < span.length := List.length_pos_of_mem hat.tick_mem
  have hdrop : line.drop (span.length - 1) = rest := by
    have := congrArg (List.drop span.length) heq
    rw [List.drop_left' rfl] at this
    rw [← this]
    obtain ⟨k, hk⟩ : ∃ k, span.length = k + 1 := ⟨span.length - 1, by omega⟩
    rw [hk]
    rfl
  rw [hdrop]
  rw [heq] at h
  exact ⟨h.span hat, rest, heq, hat⟩

/-- What the renderer finds left over is left over. -/
theorem leftOpen_of_hasUnclosedFrom {text : Text} {skip : Nat} {line before : Text}
    (h : Scanned text before (line.drop skip)) (hopen : hasUnclosedFrom skip line = true) :
    LeftOpen text := by
  induction line generalizing skip before with
  | nil => simp [hasUnclosedFrom] at hopen
  | cons c line ih =>
    cases skip with
    | succ skip => exact ih h hopen
    | zero =>
      rw [hasUnclosedFrom] at hopen
      rw [List.drop_zero] at h
      cases hspan : codeSpanAt (c :: line) with
      | some span =>
        rw [hspan] at hopen
        exact ih (h.next_span hspan).1 hopen
      | none =>
        rw [hspan] at hopen
        have hnone := codeSpanAt_eq_none_iff.1 hspan
        simp only [Bool.or_eq_true, decide_eq_true_eq] at hopen
        rcases hopen with rfl | hopen
        · exact ⟨before, line, h, hnone⟩
        · have hnext : Scanned text (before ++ [c]) (line.drop 0) := h.char hnone
          exact ih hnext hopen

theorem leftOpen_of_hasUnclosedCodeSpan {text : Text} (h : hasUnclosedCodeSpan text = true) :
    LeftOpen text := by
  have hstart : Scanned text [] (text.drop 0) := .start
  exact leftOpen_of_hasUnclosedFrom hstart h

end Lares.Notion.Translate
