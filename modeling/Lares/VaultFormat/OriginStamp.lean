import Lares.VaultFormat.Origin
import Mathlib

/-! # What a stamp changes

    * **Places**: a block is cut at the line that is set, and cut there again
      once it has been set.
    * **Lines with their breaks**: what the writer does to the text, seen on the
      lines of the file.
    * **Reading back**: the first key that the reader meets.
-/

namespace Lares.VaultFormat

open Lines

/-! ## Section 1: Places -/

theorem splitLast_none {start : Text} {lines : List Text} (h : splitLast start lines = none) :
    ∀ l ∈ lines, start.isPrefixOf l = false := by
  induction lines with
  | nil => simp
  | cons line lines ih =>
    rw [splitLast] at h
    cases hrest : splitLast start lines with
    | some found =>
      rw [hrest] at h
      cases h
    | none =>
      rw [hrest] at h
      have hline : start.isPrefixOf line = false := by
        by_contra hpos
        rw [Bool.not_eq_false] at hpos
        simp [hpos] at h
      intro l hl
      rcases List.mem_cons.1 hl with rfl | hl
      · exact hline
      · exact ih hrest l hl

theorem splitLast_of_none {start : Text} {lines : List Text}
    (h : ∀ l ∈ lines, start.isPrefixOf l = false) : splitLast start lines = none := by
  induction lines with
  | nil => rfl
  | cons line lines ih =>
    rw [splitLast, ih (fun l hl => h l (List.mem_cons_of_mem line hl))]
    simp [h line List.mem_cons_self]

theorem splitLast_append {start : Text} (before : List Text) {found : Text} {after : List Text}
    (hfound : start.isPrefixOf found = true) (hafter : ∀ l ∈ after, start.isPrefixOf l = false) :
    splitLast start (before ++ found :: after) = some (before, found, after) := by
  induction before with
  | nil =>
    rw [List.nil_append, splitLast, splitLast_of_none hafter]
    simp [hfound]
  | cons line before ih => rw [List.cons_append, splitLast, ih]

theorem splitLast_some {start : Text} {lines before after : List Text} {found : Text}
    (h : splitLast start lines = some (before, found, after)) :
    lines = before ++ found :: after ∧ start.isPrefixOf found = true ∧
      ∀ l ∈ after, start.isPrefixOf l = false := by
  induction lines generalizing before with
  | nil => cases h
  | cons line lines ih =>
    rw [splitLast] at h
    cases hrest : splitLast start lines with
    | some cut =>
      obtain ⟨before', found', after'⟩ := cut
      rw [hrest] at h
      cases h
      obtain ⟨rfl, hfound, hafter⟩ := ih hrest
      exact ⟨rfl, hfound, hafter⟩
    | none =>
      rw [hrest] at h
      dsimp only at h
      split at h
      · next hline =>
        cases h
        exact ⟨rfl, hline, splitLast_none hrest⟩
      · cases h

theorem splitLast_map {start : Text} {f : Text → Text}
    (hf : ∀ l, start.isPrefixOf (f l) = start.isPrefixOf l) (lines : List Text) :
    splitLast start (lines.map f) =
      (splitLast start lines).map fun cut => (cut.1.map f, f cut.2.1, cut.2.2.map f) := by
  cases h : splitLast start lines with
  | none =>
    apply splitLast_of_none
    intro l hl
    obtain ⟨l', hl', rfl⟩ := List.mem_map.1 hl
    rw [hf]
    exact splitLast_none h l' hl'
  | some cut =>
    obtain ⟨before, found, after⟩ := cut
    obtain ⟨rfl, hfound, hafter⟩ := splitLast_some h
    rw [List.map_append, List.map_cons]
    apply splitLast_append
    · rw [hf]
      exact hfound
    · intro l hl
      obtain ⟨l', hl', rfl⟩ := List.mem_map.1 hl
      rw [hf]
      exact hafter l' hl'

theorem place_map {f : Text → Text} (hkey : ∀ l, keyColon.isPrefixOf (f l) = keyColon.isPrefixOf l)
    (htype : ∀ l, typeColon.isPrefixOf (f l) = typeColon.isPrefixOf l) (block : List Text) :
    place (block.map f) = ((place block).1.map f, (place block).2.map f) := by
  unfold place
  rw [splitLast_map hkey, splitLast_map htype]
  cases splitLast keyColon block with
  | some cut => rfl
  | none =>
    cases splitLast typeColon block with
    | some cut =>
      dsimp only [Option.map_some, Option.map_none]
      rw [List.map_append, List.map_singleton]
    | none => rfl

/-- The block is what comes before and after, with the line that had the key between them. -/
theorem place_spec (block : List Text) :
    (∃ old, keyColon.isPrefixOf old = true ∧ block = (place block).1 ++ old :: (place block).2 ∨
      block = (place block).1 ++ (place block).2) ∧
      ∀ l ∈ (place block).2, keyColon.isPrefixOf l = false := by
  unfold place
  cases hkey : splitLast keyColon block with
  | some cut =>
    obtain ⟨before, found, after⟩ := cut
    obtain ⟨rfl, hfound, hafter⟩ := splitLast_some hkey
    exact ⟨⟨found, .inl ⟨hfound, rfl⟩⟩, hafter⟩
  | none =>
    have hnone := splitLast_none hkey
    cases htype : splitLast typeColon block with
    | some cut =>
      obtain ⟨before, found, after⟩ := cut
      obtain ⟨rfl, -, -⟩ := splitLast_some htype
      refine ⟨⟨[], .inr ?_⟩, ?_⟩
      · dsimp only
        rw [List.append_assoc, List.singleton_append]
      · intro l hl
        exact hnone l (by simp [hl])
    | none => exact ⟨⟨[], .inr rfl⟩, hnone⟩

theorem mem_of_mem_place {block : List Text} {l : Text}
    (h : l ∈ (place block).1 ∨ l ∈ (place block).2) : l ∈ block := by
  obtain ⟨⟨old, hcut⟩, -⟩ := place_spec block
  rcases hcut with ⟨-, hblock⟩ | hblock
  all_goals
    rw [hblock]
    rcases h with h | h
    · simp [h]
    · simp [h]

/-- The line that is set is the one that would be set again. -/
theorem place_set (block : List Text) {line : Text} (hline : keyColon.isPrefixOf line = true) :
    place ((place block).1 ++ line :: (place block).2) = place block := by
  have hafter := (place_spec block).2
  generalize place block = cut at hafter ⊢
  unfold place
  rw [splitLast_append _ hline hafter]

/-! ## Section 2: Blocks -/

theorem closes_false_of_mem_takeWhile {lines : List Text} {l : Text}
    (h : l ∈ lines.takeWhile (!closes ·)) : closes l = false := by
  have hpos := List.mem_takeWhile_imp h
  simpa using hpos

theorem block?_eq_some {opens : Text → Bool} {lines : List Text} {first : Text}
    {block rest : List Text} :
    block? opens lines = some (first, block, rest) ↔
      lines = first :: (block ++ rest) ∧ opens first = true ∧ (∀ l ∈ block, closes l = false) ∧
        ∃ close after, rest = close :: after ∧ closes close = true := by
  cases lines with
  | nil => simp [block?]
  | cons first' lines =>
    rw [block?]
    constructor
    · intro h
      split at h
      · next hopen =>
        rw [Bool.and_eq_true] at hopen
        cases h
        refine ⟨?_, hopen.1, fun l hl => closes_false_of_mem_takeWhile hl, ?_⟩
        · rw [List.takeWhile_append_dropWhile]
        · obtain ⟨close, hmem, hcloses⟩ := List.any_eq_true.1 hopen.2
          obtain ⟨x, xs, hdrop⟩ := List.exists_cons_of_ne_nil (l := lines.dropWhile (!closes ·)) (by
            intro hnil
            have hall := List.dropWhile_eq_nil_iff.1 hnil close hmem
            simp [hcloses] at hall)
          refine ⟨x, xs, hdrop, ?_⟩
          have hhead := List.head?_dropWhile_not (!closes ·) lines
          rw [hdrop] at hhead
          simpa using hhead
      · cases h
    · rintro ⟨hlines, hopen, hblock, close, after, rfl, hclose⟩
      obtain ⟨rfl, rfl⟩ := List.cons.inj hlines
      have hall : ∀ l ∈ block, (!closes l) = true := fun l hl => by simp [hblock l hl]
      have hany : (block ++ close :: after).any closes = true :=
        List.any_eq_true.2 ⟨close, by simp, hclose⟩
      rw [hopen, hany, Bool.true_and, if_pos rfl, List.takeWhile_append_of_pos hall,
        List.dropWhile_append_of_pos hall, List.takeWhile_cons_of_neg (by simp [hclose]),
        List.dropWhile_cons_of_neg (by simp [hclose]), List.append_nil]

theorem block?_eq_none {opens : Text → Bool} {lines : List Text} :
    block? opens lines = none ↔
      ∀ first rest, lines = first :: rest → (opens first && rest.any closes) = false := by
  cases lines with
  | nil => simp [block?]
  | cons first rest =>
    rw [block?]
    constructor
    · intro h first' rest' heq
      obtain ⟨rfl, rfl⟩ := List.cons.inj heq
      by_contra hopen
      rw [if_pos (by simpa using hopen)] at h
      cases h
    · intro h
      rw [h first rest rfl]
      rfl

theorem any_mapInit {f : Text → Text} {q : Text → Bool} (hf : ∀ l, q (f l) = q l)
    (lines : List Text) : (mapInit f lines).any q = lines.any q := by
  rcases List.eq_nil_or_concat lines with rfl | ⟨init, last, rfl⟩
  · rfl
  · rw [List.concat_eq_append, mapInit_concat, List.any_append, List.any_append, List.any_map]
    congr 2
    funext l
    exact hf l

/-! ## Section 3: Lines with their breaks -/

theorem isPrefixOf_chop {start : Text} (h : start.getLast? ≠ some '\r') (l : Text) :
    start.isPrefixOf (chop l) = start.isPrefixOf l := by
  rw [Bool.eq_iff_iff, List.isPrefixOf_iff_prefix, List.isPrefixOf_iff_prefix]
  by_cases hcr : l.getLast? = some '\r'
  · obtain ⟨m, rfl⟩ := List.getLast?_eq_some_iff.1 hcr
    rw [chop_concat]
    constructor
    · exact fun hm => hm.trans (List.prefix_append _ _)
    · intro hm
      rcases List.prefix_concat_iff.1 hm with rfl | hm
      · rw [List.getLast?_concat] at h
        exact absurd rfl h
      · exact hm
  · rw [chop_eq_self hcr]

theorem closes_chop (l : Text) : closes (chop l) = closes l := isPrefixOf_chop (by decide) l

/-- The writer sees the file's block. -/
theorem block?_chop (lines : List Text) :
    block? (fun l => decide (l = dashes)) (mapInit chop lines) =
      (block? (fun l => decide (chop l = dashes)) lines).map fun cut =>
        (chop cut.1, cut.2.1.map chop, mapInit chop cut.2.2) := by
  cases hcut : block? (fun l => decide (chop l = dashes)) lines with
  | none =>
    rw [block?_eq_none] at hcut
    apply block?_eq_none.2
    intro first rest heq
    cases lines with
    | nil => cases heq
    | cons first' lines =>
      by_cases hnil : lines = []
      · subst hnil
        obtain ⟨-, rfl⟩ := List.cons.inj heq
        simp
      · rw [mapInit_cons _ hnil] at heq
        obtain ⟨rfl, rfl⟩ := List.cons.inj heq
        rw [any_mapInit closes_chop]
        exact hcut first' lines rfl
  | some cut =>
    obtain ⟨first, block, rest⟩ := cut
    obtain ⟨rfl, hopen, hblock, close, after, rfl, hclose⟩ := block?_eq_some.1 hcut
    apply block?_eq_some.2
    refine ⟨?_, hopen, ?_, ?_⟩
    · rw [mapInit_cons _ (by simp), mapInit_append _ (by simp)]
    · intro l hl
      obtain ⟨l', hl', rfl⟩ := List.mem_map.1 hl
      rw [closes_chop]
      exact hblock l' hl'
    · cases after with
      | nil => exact ⟨close, [], rfl, hclose⟩
      | cons x xs =>
        refine ⟨chop close, mapInit chop (x :: xs), mapInit_cons _ (by simp), ?_⟩
        rw [closes_chop]
        exact hclose

/-- What `stamped` writes ends in the last line of the file. -/
theorem stamped_chop {fresh : List Text} {line : Text} (lines : List Text) (hne : lines ≠ []) :
    stamped (fun l => decide (l = dashes)) (fresh.map chop) (chop line) (mapInit chop lines) =
      mapInit chop (stamped (fun l => decide (chop l = dashes)) fresh line lines) := by
  unfold stamped
  rw [block?_chop]
  cases hcut : block? (fun l => decide (chop l = dashes)) lines with
  | none =>
    dsimp only [Option.map_none]
    rw [mapInit_append _ hne]
  | some cut =>
    obtain ⟨first, block, rest⟩ := cut
    obtain ⟨-, -, -, close, after, rfl, -⟩ := block?_eq_some.1 hcut
    dsimp only [Option.map_some]
    rw [place_map (isPrefixOf_chop (by decide)) (isPrefixOf_chop (by decide)),
      mapInit_append _ (List.cons_ne_nil close after), List.map_append]
    rfl

theorem isOrigin_text (o : Origin) : isOrigin o.text = some o := by
  cases o <;> decide

theorem newline_not_mem_line (o : Origin) : '\n' ∉ originFrontmatterLine o := by
  cases o <;> decide

theorem chop_line (o : Origin) : chop (originFrontmatterLine o) = originFrontmatterLine o := by
  cases o <;> decide

theorem keyColon_line (o : Origin) : keyColon.isPrefixOf (originFrontmatterLine o) = true := by
  cases o <;> decide

theorem closes_line (o : Origin) : closes (originFrontmatterLine o) = false := by
  cases o <;> decide

/-- The first character of a line break of the file. -/
def breakStart (raw : Text) : Text := if crlf raw then ['\r'] else []

theorem chop_breakStart {l : Text} (h : chop l = l) (raw : Text) :
    chop (l ++ breakStart raw) = l := by
  unfold breakStart
  split
  · exact chop_concat l
  · rw [List.append_nil]
    exact h

/-- The lines of the file, each with the first character of its own break, with the stamp's line
    set: what the writer is to do. -/
def stampedLines (raw : Text) (origin : Origin) : List Text :=
  stamped (fun l => decide (chop l = dashes))
    ([dashes, originFrontmatterLine origin, dashes, []].map (· ++ breakStart raw))
    (originFrontmatterLine origin ++ breakStart raw) (raw.splitOn '\n')

/-- The lines that the writer joins. -/
def writtenLines (raw : Text) (origin : Origin) : List Text :=
  stamped (fun l => decide (l = dashes)) [dashes, originFrontmatterLine origin, dashes, []]
    (originFrontmatterLine origin) ((unix raw).splitOn '\n')

theorem writtenLines_eq (raw : Text) (origin : Origin) :
    writtenLines raw origin = mapInit chop (stampedLines raw origin) := by
  have hline := chop_breakStart (chop_line origin) raw
  rw [writtenLines, stampedLines, splitOn_unix, ← stamped_chop _ (List.splitOn_ne_nil _ _), hline,
    List.map_map]
  congr 1
  simp only [List.map_cons, List.map_nil, Function.comp_apply]
  rw [hline, chop_breakStart (by decide), chop_breakStart (by decide)]

theorem mem_stamped {opens : Text → Bool} {fresh : List Text} {line l : Text} {lines : List Text}
    (h : l ∈ stamped opens fresh line lines) : l ∈ fresh ∨ l = line ∨ l ∈ lines := by
  unfold stamped at h
  cases hcut : block? opens lines with
  | none =>
    rw [hcut] at h
    rcases List.mem_append.1 h with h | h
    · exact .inl h
    · exact .inr (.inr h)
  | some cut =>
    obtain ⟨first, block, rest⟩ := cut
    obtain ⟨rfl, -⟩ := block?_eq_some.1 hcut
    rw [hcut] at h
    simp only [List.cons_append, List.append_assoc, List.mem_cons, List.mem_append] at h
    rcases h with rfl | h | rfl | h | h
    · simp
    · simp [mem_of_mem_place (.inl h)]
    · simp
    · simp [mem_of_mem_place (.inr h)]
    · simp [h]

theorem newline_not_mem_written {raw : Text} {origin : Origin} {l : Text}
    (h : l ∈ writtenLines raw origin) : '\n' ∉ l := by
  rcases mem_stamped h with hfresh | rfl | hold
  · have hline := newline_not_mem_line origin
    simp only [List.mem_cons, List.not_mem_nil, or_false] at hfresh
    rcases hfresh with rfl | rfl | rfl | rfl
    · decide
    · exact hline
    · decide
    · decide
  · exact newline_not_mem_line origin
  · exact not_mem_of_mem_splitOn hold

theorem stamped_ne_nil {opens : Text → Bool} {fresh : List Text} {line : Text} {lines : List Text}
    (h : lines ≠ []) : stamped opens fresh line lines ≠ [] := by
  unfold stamped
  split
  · simp [h]
  · simp

/-- The lines of what the writer returns. -/
theorem splitOn_upsert (raw : Text) (origin : Origin) :
    (upsertOriginFrontmatter raw origin).splitOn '\n' =
      mapInit (fun l => chop l ++ breakStart raw) (stampedLines raw origin) := by
  have hne : stampedLines raw origin ≠ [] := stamped_ne_nil (List.splitOn_ne_nil _ _)
  have hsplit : (joinLines (writtenLines raw origin)).splitOn '\n' = writtenLines raw origin :=
    List.splitOn_intercalate '\n' (fun l hl => newline_not_mem_written hl)
      (stamped_ne_nil (List.splitOn_ne_nil _ _))
  have hwritten : upsertOriginFrontmatter raw origin =
      if crlf raw then dos (joinLines (writtenLines raw origin))
      else joinLines (writtenLines raw origin) := rfl
  obtain ⟨init, last, hlines⟩ : ∃ init last, stampedLines raw origin = init ++ [last] :=
    ⟨_, _, (List.dropLast_append_getLast hne).symm⟩
  rw [hwritten, breakStart]
  split
  · rw [splitOn_dos, hsplit, writtenLines_eq, hlines, mapInit_concat, mapInit_concat,
      mapInit_concat, List.map_map]
    rfl
  · rw [hsplit, writtenLines_eq]
    simp only [List.append_nil]

/-! ## Section 4: The other lines -/

/-- The lines of the file but the one that is set. -/
def keptLines (raw : Text) : List Text :=
  match block? (fun l => decide (chop l = dashes)) (raw.splitOn '\n') with
  | none => raw.splitOn '\n'
  | some (first, block, rest) => first :: (place block).1 ++ (place block).2 ++ rest

/-- The breaks after the kept lines are the first one's. -/
def OneBreak (raw : Text) : Prop :=
  ∀ l ∈ (keptLines raw).dropLast, (l.getLast? = some '\r' ↔ crlf raw = true)

theorem rebreak_eq_self (raw l : Text) :
    chop l ++ breakStart raw = l ↔ (l.getLast? = some '\r' ↔ crlf raw = true) := by
  unfold breakStart
  by_cases hcr : l.getLast? = some '\r'
  · obtain ⟨m, rfl⟩ := List.getLast?_eq_some_iff.1 hcr
    rw [chop_concat]
    cases crlf raw with
    | true => simp
    | false => simp
  · rw [chop_eq_self hcr]
    cases hcrlf : crlf raw with
    | true =>
      constructor
      · intro h
        rw [← h] at hcr
        exact absurd List.getLast?_concat hcr
      · intro h
        exact absurd (h.2 rfl) hcr
    | false => simp [hcr]

theorem mapInit_eq_self {f : Text → Text} {lines : List Text} :
    mapInit f lines = lines ↔ ∀ l ∈ lines.dropLast, f l = l := by
  rcases List.eq_nil_or_concat lines with rfl | ⟨init, last, rfl⟩
  · simp
  · rw [List.concat_eq_append, mapInit_concat, List.dropLast_concat, List.append_left_inj,
      List.map_eq_iff]
    constructor
    · intro h l hl
      obtain ⟨i, hi⟩ := List.getElem?_of_mem hl
      have hget := h i
      rw [hi] at hget
      exact (Option.some.inj hget).symm
    · intro h i
      cases hi : init[i]? with
      | none => rfl
      | some l => rw [Option.map_some, h l (List.mem_of_getElem? hi)]

theorem breakStart_self {l : Text} (h : chop l = l) (raw : Text) :
    chop (l ++ breakStart raw) ++ breakStart raw = l ++ breakStart raw := by
  rw [chop_breakStart h]

/-- The lines that the writer sets have the break already. -/
theorem rebreak_stampedLines (raw : Text) (origin : Origin) :
    (∀ l ∈ (stampedLines raw origin).dropLast, chop l ++ breakStart raw = l) ↔
      ∀ l ∈ (keptLines raw).dropLast, chop l ++ breakStart raw = l := by
  have hline := breakStart_self (chop_line origin) raw
  unfold stampedLines stamped keptLines
  cases hcut : block? (fun l => decide (chop l = dashes)) (raw.splitOn '\n') with
  | none =>
    dsimp only
    rw [List.dropLast_append_of_ne_nil (List.splitOn_ne_nil _ _)]
    constructor
    · exact fun h l hl => h l (List.mem_append_right _ hl)
    · intro h l hl
      rcases List.mem_append.1 hl with hl | hl
      · obtain ⟨l', hl', rfl⟩ := List.mem_map.1 hl
        apply breakStart_self
        simp only [List.mem_cons, List.not_mem_nil, or_false] at hl'
        rcases hl' with rfl | rfl | rfl | rfl
        · decide
        · exact chop_line origin
        · decide
        · decide
      · exact h l hl
  | some cut =>
    obtain ⟨first, block, rest⟩ := cut
    obtain ⟨-, -, -, close, after, rfl, -⟩ := block?_eq_some.1 hcut
    have hne : close :: after ≠ [] := List.cons_ne_nil close after
    dsimp only
    rw [List.dropLast_append_of_ne_nil hne, List.dropLast_append_of_ne_nil hne]
    constructor
    · intro h l hl
      apply h l
      simp only [List.cons_append, List.append_assoc, List.mem_cons, List.mem_append] at hl ⊢
      rcases hl with hl | hl | hl | hl
      · exact .inl hl
      · exact .inr (.inl hl)
      · exact .inr (.inr (.inr (.inl hl)))
      · exact .inr (.inr (.inr (.inr hl)))
    · intro h l hl
      simp only [List.cons_append, List.append_assoc, List.mem_cons, List.mem_append] at h hl
      rcases hl with hl | hl | rfl | hl | hl
      · exact h l (.inl hl)
      · exact h l (.inr (.inl hl))
      · exact hline
      · exact h l (.inr (.inr (.inl hl)))
      · exact h l (.inr (.inr (.inr hl)))

theorem upsert_lines_iff (raw : Text) (origin : Origin) :
    (upsertOriginFrontmatter raw origin).splitOn '\n' = stampedLines raw origin ↔
      OneBreak raw := by
  rw [splitOn_upsert, mapInit_eq_self, rebreak_stampedLines]
  exact forall₂_congr fun l _ => rebreak_eq_self raw l

end Lares.VaultFormat
