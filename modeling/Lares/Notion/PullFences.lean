import Lares.Notion.CodeScan
import Lares.Notion.TranslatePull
import Mathlib

/-! # Fenced code on its way back

    What stands between two fences of a Notion page stands in the vault file as
    it is: no line of it is unescaped, classified or set apart from the next.

    * **Kept**: the parser changes no text and no start of a block that it has
      written, whatever comes after.
    * **Block shape**: no blank line is put in front of a line that opens no block.
    * **Main result**: every fenced block with no callout above it.
-/

namespace Lares.Notion.TranslatePull

open Lines Translate

variable (resolvePage : PageResolver)

/-! ## Section 1: What is written is kept -/

/-- The text of a line, and whether it opens a block. -/
def OutLine.shape (line : OutLine) : Text × Bool := (line.text, line.opensBlock)

/-- A line that is written as it stands, inside a fence. -/
def fenced (line : Text) : OutLine := ⟨line, .fence, false, false⟩

theorem shape_pushGroup (texts : List Text) (kind : BlockKind) (out : List OutLine) :
    out.map OutLine.shape <:+ (pushGroup texts kind out).map OutLine.shape := by
  cases texts with
  | nil => exact List.suffix_refl _
  | cons first more =>
    unfold pushGroup
    rw [List.map_append, List.map_cons]
    exact (List.suffix_cons _ _).trans (List.suffix_append _ _)

theorem shape_head (f : OutLine → OutLine) (hf : ∀ line, (f line).shape = line.shape)
    (out : List OutLine) :
    ((out.head?.map f).toList ++ out.tail).map OutLine.shape = out.map OutLine.shape := by
  cases out with
  | nil => rfl
  | cons line out => simp [hf]

theorem shape_pushLine (text : Text) (precededByBlank : Bool) (out : List OutLine) :
    out.map OutLine.shape <:+ (pushLine text precededByBlank out).map OutLine.shape := by
  have hpush : ∀ (line : OutLine) (rest : List OutLine), out.map OutLine.shape =
      rest.map OutLine.shape → out.map OutLine.shape <:+ (line :: rest).map OutLine.shape := by
    intro line rest hrest
    rw [List.map_cons, hrest]
    exact List.suffix_cons _ _
  unfold pushLine
  dsimp only
  split
  · exact hpush _ _
      (shape_head (fun line => { line with kind := .heading }) (fun _ => rfl) out).symm
  · split
    · split
      · exact hpush _ _ rfl
      · exact hpush _ _ rfl
    · split
      · exact hpush _ _
          (shape_head (fun line => { line with breaksRun := true }) (fun _ => rfl) out).symm
      · exact hpush _ _ rfl

/-- **Kept**: whatever lines come, in whatever state. -/
theorem shape_parseLines (skip : Nat) (fence : Option FenceState) (blankBefore : Bool)
    (out : List OutLine) (lines : List Text) : out.map OutLine.shape <:+
      (parseLines resolvePage skip fence blankBefore out lines).map OutLine.shape := by
  induction lines generalizing skip fence blankBefore out with
  | nil => rw [parseLines]
  | cons line lines ih =>
    have hcons : ∀ (new : OutLine) skip fence blankBefore, out.map OutLine.shape <:+
        (parseLines resolvePage skip fence blankBefore (new :: out) lines).map OutLine.shape := by
      intro new skip fence blankBefore
      exact (List.suffix_cons _ _).trans (ih skip fence blankBefore (new :: out))
    cases skip with
    | succ skip =>
      rw [parseLines]
      exact ih skip fence blankBefore out
    | zero =>
      cases fence with
      | some fence =>
        rw [parseLines]
        exact hcons _ _ _ _
      | none =>
        rw [parseLines]
        split
        · exact hcons _ _ _ _
        · split
          · exact ih _ _ _ _
          · split
            · exact (shape_pushGroup _ _ out).trans (ih _ _ _ _)
            · split
              · exact hcons _ _ _ _
              · split
                · exact (shape_pushGroup _ _ out).trans (ih _ _ _ _)
                · exact (shape_pushLine _ _ out).trans (ih _ _ _ _)

/-! ## Section 2: The lines of a fence -/

/-- Up to the line that closes it, a fence is written as it stands. -/
theorem parseLines_fenced {fence : FenceState} {closing : Text} {body : List Text}
    (hbody : ∀ line ∈ body, closesFence line fence = false) (hclosing : closesFence closing fence)
    (blankBefore : Bool) (out : List OutLine) (after : List Text) :
    parseLines resolvePage 0 (some fence) blankBefore out (body ++ closing :: after) =
      parseLines resolvePage 0 none false (((body ++ [closing]).map fenced).reverse ++ out) after := by
  induction body generalizing blankBefore out with
  | nil =>
    rw [List.nil_append, parseLines, if_pos hclosing]
    rfl
  | cons line body ih =>
    have hopen : ¬closesFence line fence = true := by
      rw [hbody line List.mem_cons_self]
      exact Bool.false_ne_true
    rw [List.cons_append, parseLines, if_neg hopen,
      ih (fun other hother => hbody other (List.mem_cons_of_mem line hother))]
    simp [fenced]

/-- With no callout among them, the lines above leave the fence that is open after them. -/
theorem parseLines_above {before : List Text} {fence : Option FenceState}
    (h : FenceOpen before fence) (hplain : ∀ line ∈ before, calloutOpen (trim line) = none)
    (rest : List Text) : ∃ blankBefore out,
      parseLines resolvePage 0 none true [] (before ++ rest) =
        parseLines resolvePage 0 fence blankBefore out rest := by
  induction h generalizing rest with
  | start => exact ⟨true, [], rfl⟩
  | @outside lines line _ hline ih =>
    obtain ⟨blankBefore, out, heq⟩ := ih (fun other hother =>
      hplain other (List.mem_append_left _ hother)) (line :: rest)
    have hcallout := hplain line (List.mem_append_right lines (List.mem_singleton_self line))
    rw [List.append_assoc, List.singleton_append, heq, parseLines, opensFence_eq_none_iff.2 hline,
      hcallout]
    dsimp only
    split
    · exact ⟨_, _, rfl⟩
    · split
      · exact ⟨_, _, rfl⟩
      · split
        · exact ⟨_, _, rfl⟩
        · exact ⟨_, _, rfl⟩
  | @opened lines line fence _ hline ih =>
    obtain ⟨blankBefore, out, heq⟩ := ih (fun other hother =>
      hplain other (List.mem_append_left _ hother)) (line :: rest)
    rw [List.append_assoc, List.singleton_append, heq, parseLines, opensFence_eq_some_iff.2 hline]
    exact ⟨_, _, rfl⟩
  | @inside lines line fence h hline ih =>
    obtain ⟨opener, -, hopener⟩ := h.exists_opens
    obtain ⟨blankBefore, out, heq⟩ := ih (fun other hother =>
      hplain other (List.mem_append_left _ hother)) (line :: rest)
    rw [List.append_assoc, List.singleton_append, heq, parseLines,
      if_neg fun hcloses => hline ((closesFence_iff hopener).1 hcloses)]
    exact ⟨_, _, rfl⟩
  | @closed lines line fence h hline ih =>
    obtain ⟨opener, -, hopener⟩ := h.exists_opens
    obtain ⟨blankBefore, out, heq⟩ := ih (fun other hother =>
      hplain other (List.mem_append_left _ hother)) (line :: rest)
    rw [List.append_assoc, List.singleton_append, heq, parseLines,
      if_pos ((closesFence_iff hopener).2 hline)]
    exact ⟨_, _, rfl⟩

/-! ## Section 3: Block shape -/

theorem separated_suffix (line : OutLine) (lines : List OutLine) :
    separated lines <:+ separated (line :: lines) := by
  cases lines with
  | nil => exact List.nil_suffix
  | cons next lines =>
    rw [separated.eq_3]
    split
    · exact (List.suffix_cons _ _).trans (List.suffix_cons _ _)
    · exact List.suffix_cons _ _

/-- Lines that open no block follow the one before at once. -/
theorem isPrefix_separated {block : List OutLine} (after : List OutLine)
    (hinside : ∀ line ∈ block.tail, line.opensBlock = false) :
    block.map OutLine.text <+: separated (block ++ after) := by
  induction block with
  | nil => exact List.nil_prefix
  | cons line block ih =>
    cases block with
    | nil =>
      cases after with
      | nil => exact List.prefix_refl _
      | cons next after =>
        rw [List.singleton_append, separated.eq_3]
        split <;> exact ⟨_, rfl⟩
    | cons next block =>
      have hnext : needsSeparator line next = false := by
        unfold needsSeparator
        rw [hinside next List.mem_cons_self]
        rfl
      have hrest := ih fun other hother => hinside other (List.mem_of_mem_tail hother)
      rw [List.cons_append, List.cons_append, separated.eq_3, hnext, if_neg Bool.false_ne_true,
        List.map_cons]
      exact List.cons_prefix_cons.2 ⟨rfl, hrest⟩

theorem separated_infix {block : List OutLine} (before after : List OutLine)
    (hinside : ∀ line ∈ block.tail, line.opensBlock = false) :
    block.map OutLine.text <:+: separated (before ++ (block ++ after)) := by
  induction before with
  | nil => exact (isPrefix_separated after hinside).isInfix
  | cons line before ih => exact ih.trans (separated_suffix line _).isInfix

/-! ## Section 4: The file -/

/-- What is dropped in front of a line that stays. -/
theorem exists_dropWhile {p : OutLine → Bool} {first : OutLine} (hfirst : p first = false)
    (before block : List OutLine) : ∃ before',
      (before ++ first :: block).dropWhile p = before' ++ first :: block := by
  rw [List.dropWhile_append]
  split
  · exact ⟨[], by rw [List.dropWhile_cons_of_neg (by simp [hfirst]), List.nil_append]⟩
  · exact ⟨_, rfl⟩

/-- The ends of a file are trimmed up to two lines that stay. -/
theorem exists_trimmed {p : OutLine → Bool} {first last : OutLine} (hfirst : p first = false)
    (hlast : p last = false) (before block after : List OutLine) : ∃ before' after',
      ((before ++ first :: (block ++ last :: after)).dropWhile p).rdropWhile p =
        before' ++ (first :: (block ++ [last]) ++ after') := by
  obtain ⟨before', hbefore⟩ := exists_dropWhile hfirst before (block ++ last :: after)
  have hreverse : (before' ++ first :: (block ++ last :: after)).reverse =
      after.reverse ++ last :: (block.reverse ++ first :: before'.reverse) := by simp
  obtain ⟨after', hafter⟩ :=
    exists_dropWhile hlast after.reverse (block.reverse ++ first :: before'.reverse)
  refine ⟨before', after'.reverse, ?_⟩
  rw [hbefore, List.rdropWhile, hreverse, hafter]
  simp

theorem not_blank {line : Text} {c : Char} (hmem : c ∈ line) (hc : isSpace c = false) :
    isBlank line = false := by
  rw [isBlank, List.all_eq_false]
  exact ⟨c, hmem, by simp [hc]⟩

theorem fence_not_space {line : Text} {fence : FenceState} (h : Opens line fence) :
    isSpace fence.char = false ∧ 0 < fence.length := by
  obtain ⟨_, _, _, _, hchar, hlength, _⟩ := h
  refine ⟨?_, by omega⟩
  rcases hchar with hchar | hchar <;> rw [hchar] <;> decide

theorem opens_not_blank {line : Text} {fence : FenceState} (h : Opens line fence) :
    isBlank line = false := by
  obtain ⟨hspace, hpos⟩ := fence_not_space h
  obtain ⟨n, _, rest, rfl, -⟩ := h
  refine not_blank (c := fence.char) ?_ hspace
  simp only [List.mem_append, List.mem_replicate]
  exact .inr (.inl ⟨by omega, trivial⟩)

theorem closes_not_blank {opener line : Text} {fence : FenceState} (hopener : Opens opener fence)
    (h : Closes line fence) : isBlank line = false := by
  obtain ⟨hspace, hpos⟩ := fence_not_space hopener
  obtain ⟨n, _, m, hm, rest, rfl, -⟩ := h
  refine not_blank (c := fence.char) ?_ hspace
  simp only [List.mem_append, List.mem_replicate]
  exact .inr (.inl ⟨by omega, trivial⟩)

theorem intercalate_infix {lines all : List Text} (h : lines <:+: all) :
    ['\n'].intercalate lines <:+: ['\n'].intercalate all := by
  obtain ⟨before, after, rfl⟩ := h
  have hend : ['\n'].intercalate lines <:+: ['\n'].intercalate (lines ++ after) := by
    by_cases hlines : lines = []
    · rw [hlines]
      exact List.nil_infix
    · by_cases hafter : after = []
      · rw [hafter, List.append_nil]
      · rw [intercalate_append _ hlines hafter, List.append_assoc]
        exact (List.prefix_append _ _).isInfix
  by_cases hbefore : before = []
  · rwa [hbefore, List.nil_append]
  · by_cases hrest : lines ++ after = []
    · rw [(List.append_eq_nil_iff.1 hrest).1]
      exact List.nil_infix
    · rw [List.append_assoc, intercalate_append _ hbefore hrest]
      exact hend.trans (List.suffix_append _ _).isInfix

/-- **Main result**: a fenced block with no callout above it comes back as it stands. -/
theorem parseNotionPage_fence {page : Text} {before body after : List Text} {opening closing : Text}
    {fence : FenceState}
    (hlines : (unix page).splitOn '\n' = before ++ opening :: (body ++ closing :: after))
    (hbefore : FenceOpen before none) (hplain : ∀ line ∈ before, calloutOpen (trim line) = none)
    (hopening : Opens opening fence) (hbody : ∀ line ∈ body, ¬Closes line fence)
    (hclosing : Closes closing fence) :
    ['\n'].intercalate (opening :: (body ++ [closing])) <:+: parseNotionPage resolvePage page := by
  apply intercalate_infix
  -- the block as it is written
  let first : OutLine := ⟨opening, .fence, true, false⟩
  obtain ⟨blankBefore, out, habove⟩ := parseLines_above resolvePage hbefore hplain
    (opening :: (body ++ closing :: after))
  have hinside : ∀ line ∈ body, closesFence line fence = false := by
    intro line hline
    rw [Bool.eq_false_iff]
    exact fun hcloses => hbody line hline ((closesFence_iff hopening).1 hcloses)
  have hparse : parseLines resolvePage 0 none true [] ((unix page).splitOn '\n') =
      parseLines resolvePage 0 none false
        (((body ++ [closing]).map fenced).reverse ++ first :: out) after := by
    rw [hlines, habove, parseLines, opensFence_eq_some_iff.2 hopening]
    exact parseLines_fenced resolvePage hinside ((closesFence_iff hopening).2 hclosing) false _ after
  -- its lines are found again in what the parser leaves, and in front of what follows
  obtain ⟨front, hfront⟩ := shape_parseLines resolvePage 0 none false
    (((body ++ [closing]).map fenced).reverse ++ first :: out) after
  rw [← hparse] at hfront
  have hshape : (parseLines resolvePage 0 none true []
      ((unix page).splitOn '\n')).reverse.map OutLine.shape = out.reverse.map OutLine.shape ++
        first.shape :: ((body.map fenced).map OutLine.shape ++
          (fenced closing).shape :: front.reverse) := by
    rw [List.map_reverse, ← hfront]
    simp
  obtain ⟨above, rest, hall, -, hrest⟩ := List.map_eq_append_iff.1 hshape
  obtain ⟨x, rest, rfl, hx, hrest⟩ := List.map_eq_cons_iff.1 hrest
  obtain ⟨inner, rest, rfl, hinner, hrest⟩ := List.map_eq_append_iff.1 hrest
  obtain ⟨y, below, rfl, hy, -⟩ := List.map_eq_cons_iff.1 hrest
  have hxtext : x.text = opening := congrArg Prod.fst hx
  have hytext : y.text = closing := congrArg Prod.fst hy
  have hinnertext : inner.map OutLine.text = body := by
    have htexts := congrArg (List.map Prod.fst) hinner
    simpa [OutLine.shape, fenced, Function.comp_def] using htexts
  have hblock : (x :: (inner ++ [y])).map OutLine.text = opening :: (body ++ [closing]) := by
    rw [List.map_cons, List.map_append, List.map_singleton, hxtext, hytext, hinnertext]
  have hopens : ∀ line ∈ (x :: (inner ++ [y])).tail, line.opensBlock = false := by
    intro line hline
    rcases List.mem_append.1 hline with hline | hline
    · have hmem := List.mem_map_of_mem (f := OutLine.shape) hline
      rw [hinner] at hmem
      obtain ⟨other, hother, heq⟩ := List.mem_map.1 hmem
      obtain ⟨text, -, rfl⟩ := List.mem_map.1 hother
      exact (congrArg Prod.snd heq).symm
    · rw [List.mem_singleton.1 hline]
      exact congrArg Prod.snd hy
  obtain ⟨before', after', htrimmed⟩ := exists_trimmed
    (p := fun line => isBlank line.text) (by rw [hxtext]; exact opens_not_blank hopening)
    (by rw [hytext]; exact closes_not_blank hopening hclosing) above inner below
  rw [← hblock, parseOut, hall, htrimmed]
  exact separated_infix before' after' hopens

end Lares.Notion.TranslatePull
