import Lares.VaultFormat.OriginStamp
import Mathlib

/-! # Origin stamps, read back

    * **Writing twice** leaves what the second writing leaves, on a file with one
      line break.
    * **Reading back** takes the first key of the block, and the writer sets the
      last: a key ahead of the stamp is read instead.
    * **Exactness**: one line break and no key ahead that reads otherwise.
-/

namespace Lares.VaultFormat

open Lines

/-! ## Section 1: Writing twice -/

/-- A stamp takes the place of the one before it. -/
theorem stamped_stamped {opens : Text → Bool} {line line' : Text} (hopens : opens dashes = true)
    (hkey : keyColon.isPrefixOf line = true) (hcloses : closes line = false)
    (lines : List Text) (fresh' : List Text) (hfresh : fresh' = [dashes, line', dashes, []]) :
    stamped opens fresh' line' (stamped opens [dashes, line, dashes, []] line lines) =
      stamped opens fresh' line' lines := by
  have hplace := fun block => place_set block hkey
  have hempty : place [line] = ([], []) := hplace []
  unfold stamped
  cases hcut : block? opens lines with
  | none =>
    have hblock : block? opens ([dashes, line, dashes, []] ++ lines) =
        some (dashes, [line], dashes :: [] :: lines) := by
      apply block?_eq_some.2
      refine ⟨rfl, hopens, ?_, dashes, [] :: lines, rfl, by decide⟩
      intro l hl
      rw [List.mem_singleton.1 hl]
      exact hcloses
    dsimp only
    rw [hblock]
    dsimp only
    rw [hempty, hfresh]
    rfl
  | some cut =>
    obtain ⟨first, block, rest⟩ := cut
    obtain ⟨rfl, hopen, hbefore, hrest⟩ := block?_eq_some.1 hcut
    have hblock : block? opens (first :: (place block).1 ++ line :: (place block).2 ++ rest) =
        some (first, (place block).1 ++ line :: (place block).2, rest) := by
      apply block?_eq_some.2
      refine ⟨rfl, hopen, ?_, hrest⟩
      intro l hl
      simp only [List.mem_append, List.mem_cons] at hl
      rcases hl with hl | rfl | hl
      · exact hbefore l (mem_of_mem_place (.inl hl))
      · exact hcloses
      · exact hbefore l (mem_of_mem_place (.inr hl))
    dsimp only
    rw [hblock]
    dsimp only
    rw [hplace]

/-- The first line of the file, when a break follows it, decides. -/
theorem crlf_iff {raw first : Text} {more : List Text} (h : raw.splitOn '\n' = first :: more) :
    crlf raw = true ↔ more ≠ [] ∧ first.getLast? = some '\r' := by
  have hraw : raw = ['\n'].intercalate (first :: more) := by
    rw [← h, List.intercalate_splitOn]
  have hfirst : '\n' ∉ first := not_mem_of_mem_splitOn (h ▸ List.mem_cons_self)
  unfold crlf
  cases more with
  | nil =>
    rw [List.intercalate_singleton] at hraw
    subst hraw
    simp [hfirst]
  | cons second more =>
    rw [List.intercalate_cons_cons, List.append_assoc, List.singleton_append] at hraw
    have hall : ∀ c ∈ first, decide (c ≠ '\n') = true := by
      intro c hc
      rw [decide_eq_true_eq]
      rintro rfl
      exact hfirst hc
    have htake : raw.takeWhile (· ≠ '\n') = first := by
      rw [hraw, List.takeWhile_append_of_pos hall, List.takeWhile_cons_of_neg (by decide),
        List.append_nil]
    have hmem : '\n' ∈ raw := by
      rw [hraw]
      simp
    rw [htake]
    simp [hmem]

/-- What is stamped begins with an opening line and goes on. -/
theorem stampedLines_head (raw : Text) (origin : Origin) :
    ∃ first more, stampedLines raw origin = first :: more ∧ more ≠ [] ∧ chop first = dashes := by
  unfold stampedLines stamped
  cases hcut : block? (fun l => decide (chop l = dashes)) (raw.splitOn '\n') with
  | none => exact ⟨_, _, rfl, by simp, chop_breakStart (by decide) raw⟩
  | some cut =>
    obtain ⟨first, block, rest⟩ := cut
    obtain ⟨-, hopen, -⟩ := block?_eq_some.1 hcut
    exact ⟨first, _, rfl, by simp, of_decide_eq_true hopen⟩

theorem crlf_upsert (raw : Text) (origin : Origin) :
    crlf (upsertOriginFrontmatter raw origin) = crlf raw := by
  obtain ⟨first, more, hlines, hmore, hfirst⟩ := stampedLines_head raw origin
  have hsplit := splitOn_upsert raw origin
  rw [hlines, mapInit_cons _ hmore, hfirst] at hsplit
  rw [Bool.eq_iff_iff, crlf_iff hsplit]
  cases hcrlf : crlf raw with
  | true =>
    rw [breakStart, if_pos hcrlf]
    simp [mapInit_ne_nil _ hmore]
  | false =>
    rw [breakStart, if_neg (by simp [hcrlf])]
    constructor
    · exact fun h => absurd h.2 (by decide)
    · exact fun h => absurd h (by decide)

theorem upsert_eq (raw : Text) (origin : Origin) :
    upsertOriginFrontmatter raw origin =
      if crlf raw then dos (joinLines (writtenLines raw origin))
      else joinLines (writtenLines raw origin) := rfl

theorem splitOn_written (raw : Text) (origin : Origin) :
    (joinLines (writtenLines raw origin)).splitOn '\n' = writtenLines raw origin :=
  List.splitOn_intercalate '\n' (fun _ hl => newline_not_mem_written hl)
    (stamped_ne_nil (List.splitOn_ne_nil _ _))

/-- With one line break, the written lines are there again. -/
theorem unix_upsert {raw : Text} (hone : OneBreak raw) (origin : Origin) :
    unix (upsertOriginFrontmatter raw origin) = joinLines (writtenLines raw origin) := by
  cases hcrlf : crlf raw with
  | true => rw [upsert_eq, hcrlf, if_pos rfl, unix_dos]
  | false =>
    have hself : unix (upsertOriginFrontmatter raw origin) = upsertOriginFrontmatter raw origin := by
      apply unix_eq_self
      rw [(upsert_lines_iff raw origin).2 hone]
      intro l hl hcr
      have hbreak := (rebreak_stampedLines raw origin).2
        (fun l hl => (rebreak_eq_self raw l).2 (hone l hl)) l hl
      rw [(rebreak_eq_self raw l).1 hbreak, hcrlf] at hcr
      cases hcr
    rw [hself, upsert_eq, hcrlf]
    rfl

theorem upsert_upsert {raw : Text} (hone : OneBreak raw) (o p : Origin) :
    upsertOriginFrontmatter (upsertOriginFrontmatter raw o) p = upsertOriginFrontmatter raw p := by
  have hlines : writtenLines (upsertOriginFrontmatter raw o) p = writtenLines raw p := by
    unfold writtenLines
    rw [unix_upsert hone, splitOn_written]
    exact stamped_stamped (by decide) (keyColon_line o) (closes_line o) _ _ rfl
  rw [upsert_eq _ p, upsert_eq _ p, crlf_upsert, hlines]

/-! ## Section 2: Reading back -/

/-- The lines of the block that stay ahead of the stamp. -/
def linesAhead (raw : Text) : List Text :=
  match block? (· = dashes) ((unix raw).splitOn '\n') with
  | none => []
  | some (_, block, _) => (place block).1

/-- The lines ahead hold no key, or the first one there reads as `origin`. -/
def AheadReads (raw : Text) (origin : Origin) : Prop :=
  ∀ rest, afterKey true (joinLines (linesAhead raw)) = some rest →
    isOrigin (originValue rest) = some origin

theorem writtenLines_block (raw : Text) (origin : Origin) :
    ∃ behind close after,
      writtenLines raw origin =
        dashes :: (linesAhead raw ++ originFrontmatterLine origin :: behind ++ close :: after) ∧
      (∀ l ∈ linesAhead raw ++ originFrontmatterLine origin :: behind, closes l = false) ∧
      closes close = true := by
  have hline := closes_line origin
  unfold writtenLines stamped linesAhead
  cases hcut : block? (· = dashes) ((unix raw).splitOn '\n') with
  | none =>
    refine ⟨[], dashes, [] :: (unix raw).splitOn '\n', rfl, ?_, by decide⟩
    intro l hl
    rw [List.mem_singleton.1 hl]
    exact hline
  | some cut =>
    obtain ⟨first, block, rest⟩ := cut
    obtain ⟨-, hopen, hbefore, close, after, rfl, hclose⟩ := block?_eq_some.1 hcut
    refine ⟨(place block).2, close, after, ?_, ?_, hclose⟩
    · rw [of_decide_eq_true hopen]
      rfl
    · intro l hl
      simp only [List.mem_append, List.mem_cons] at hl
      rcases hl with hl | rfl | hl
      · exact hbefore l (mem_of_mem_place (.inl hl))
      · exact hline
      · exact hbefore l (mem_of_mem_place (.inr hl))

/-- The reader cuts out the lines between the first one and the first that closes. -/
theorem readOrigin_join {raw : Text} {block : List Text} {close : Text} {after : List Text}
    (hraw : unix raw = joinLines (dashes :: (block ++ close :: after))) (hne : block ≠ [])
    (hlines : ∀ l ∈ block ++ close :: after, '\n' ∉ l) (hblock : ∀ l ∈ block, closes l = false)
    (hclose : closes close = true) :
    readOriginFrontmatter raw = readKey (joinLines block) := by
  obtain ⟨l, ls, rfl⟩ := List.exists_cons_of_ne_nil hne
  have hrest : unix raw = (dashes ++ ['\n']) ++ joinLines ((l :: ls) ++ close :: after) := by
    rw [hraw, joinLines, List.cons_append, List.intercalate_cons_cons]
    rfl
  have hstarts : (dashes ++ ['\n']).isPrefixOf (unix raw) = true := by
    rw [hrest, List.isPrefixOf_iff_prefix]
    exact List.prefix_append _ _
  have hdrop : (unix raw).drop 4 = joinLines (l :: (ls ++ close :: after)) := by
    rw [hrest]
    rfl
  have hbefore : before? ('\n' :: dashes) ((unix raw).drop 4) = some (joinLines (l :: ls)) := by
    have hany : (ls ++ close :: after).any (dashes.isPrefixOf ·) = true :=
      List.any_eq_true.2 ⟨close, by simp, hclose⟩
    have hall : ∀ x ∈ ls, (!dashes.isPrefixOf x) = true := by
      intro x hx
      have hpos : dashes.isPrefixOf x = false := hblock x (List.mem_cons_of_mem l hx)
      rw [hpos]
      rfl
    have hstop : ¬(!dashes.isPrefixOf close) = true := by
      have hpos : dashes.isPrefixOf close = true := hclose
      rw [hpos]
      decide
    rw [hdrop, joinLines, before?_intercalate (by decide) l _ (hlines l (by simp))
      (fun x hx => hlines x (by simp at hx ⊢; tauto)), if_pos hany,
      List.takeWhile_append_of_pos hall, List.takeWhile_cons_of_neg (p := fun x => !dashes.isPrefixOf x) hstop, List.append_nil]
    rfl
  rw [readOriginFrontmatter, if_pos hstarts, hbefore]
  rfl

/-- The first key of two texts with a break between them. -/
theorem afterKey_append (atStart : Bool) (s t : Text) :
    afterKey atStart (s ++ '\n' :: t) =
      match afterKey atStart s with
      | some rest => some (rest ++ '\n' :: t)
      | none => afterKey true t := by
  induction s generalizing atStart with
  | nil =>
    have hpos : keyColon.isPrefixOf ('\n' :: t) = false := rfl
    have hstep : afterKey atStart ('\n' :: t) = afterKey true t := by
      rw [afterKey, hpos, Bool.and_false]
      rfl
    rw [List.nil_append, hstep]
    rfl
  | cons c s ih =>
    have hstarts : keyColon.isPrefixOf (c :: (s ++ '\n' :: t)) = keyColon.isPrefixOf (c :: s) := by
      rw [Bool.eq_iff_iff, List.isPrefixOf_iff_prefix, List.isPrefixOf_iff_prefix]
      have hbreak : '\n' ∉ keyColon := by decide
      exact prefix_append_break hbreak (c :: s) t
    rw [List.cons_append, afterKey, afterKey, hstarts]
    by_cases hkey : (atStart && keyColon.isPrefixOf (c :: s)) = true
    · have hlen : keyColon.length ≤ (c :: s).length := by
        rw [Bool.and_eq_true, List.isPrefixOf_iff_prefix] at hkey
        exact hkey.2.length_le
      rw [if_pos hkey, if_pos hkey]
      dsimp only
      rw [← List.cons_append, List.drop_append_of_le_length hlen]
    · rw [if_neg hkey, if_neg hkey]
      exact ih _

theorem originValue_append {s : Text} (h : isBlank s = false) (t : Text) :
    originValue (s ++ '\n' :: t) = originValue s := by
  have hstop : ¬(!isTerminator '\n') = true := by decide
  have htake : ∀ s : Text, (s ++ '\n' :: t).takeWhile (fun c => !isTerminator c) =
      s.takeWhile fun c => !isTerminator c := by
    intro s
    induction s with
    | nil => exact List.takeWhile_cons_of_neg hstop
    | cons c s ih => rw [List.cons_append, List.takeWhile_cons, List.takeWhile_cons, ih]
  rw [originValue, trimStart_append h, htake]
  rfl

theorem originValue_append_of_blank {s : Text} (h : isBlank s = true) (t : Text) :
    originValue (s ++ t) = originValue t := by
  rw [originValue, trimStart_append_of_blank h]
  rfl

theorem isOrigin_blank {s : Text} (h : isBlank s = true) : isOrigin (originValue s) = none := by
  rw [originValue, trimStart_eq_nil.2 h]
  decide

/-- The value of the stamp, and of a key whose value is the stamp itself. -/
theorem originValue_stamp (origin : Origin) :
    originValue (' ' :: origin.text) = origin.text ∧
      isOrigin (originValue (originFrontmatterLine origin)) = none := by
  cases origin <;> exact ⟨by decide +kernel, by decide +kernel⟩

theorem afterKey_line (origin : Origin) :
    afterKey true (originFrontmatterLine origin) = some (' ' :: origin.text) := by
  cases origin <;> decide +kernel

theorem isBlank_stamp (origin : Origin) :
    isBlank (' ' :: origin.text) = false ∧ isBlank (originFrontmatterLine origin) = false := by
  cases origin <;> exact ⟨by decide +kernel, by decide +kernel⟩

theorem joinLines_append_cons {a : List Text} (ha : a ≠ []) (l : Text) (b : List Text) :
    joinLines (a ++ l :: b) = joinLines a ++ '\n' :: joinLines (l :: b) := by
  rw [joinLines, intercalate_append _ ha (List.cons_ne_nil l b), List.append_assoc]
  rfl

/-- Nothing ahead: the stamp is read. -/
theorem readKey_stamp (origin : Origin) (behind : List Text) :
    readKey (joinLines (originFrontmatterLine origin :: behind)) = some origin := by
  have hvalue := (originValue_stamp origin).1
  cases behind with
  | nil =>
    rw [joinLines, List.intercalate_singleton, readKey, afterKey_line, Option.bind_some, hvalue,
      isOrigin_text]
  | cons l behind =>
    rw [← List.singleton_append, joinLines_append_cons (List.cons_ne_nil _ []), readKey, joinLines,
      List.intercalate_singleton, afterKey_append, afterKey_line]
    dsimp only
    rw [Option.bind_some, originValue_append (isBlank_stamp origin).1, hvalue, isOrigin_text]

/-- A key ahead keeps the value that it has there. -/
theorem isOrigin_ahead (rest : Text) (origin : Origin) (behind : List Text) :
    isOrigin (originValue (rest ++ '\n' :: joinLines (originFrontmatterLine origin :: behind))) =
      isOrigin (originValue rest) := by
  cases hblank : isBlank rest with
  | false => rw [originValue_append hblank]
  | true =>
    have hstamp := (originValue_stamp origin).2
    have hbreak : isBlank (rest ++ ['\n']) = true := by
      unfold isBlank at hblank ⊢
      rw [List.all_append, hblank]
      rfl
    rw [← List.singleton_append, ← List.append_assoc, originValue_append_of_blank hbreak,
      isOrigin_blank hblank]
    cases behind with
    | nil => rw [joinLines, List.intercalate_singleton, hstamp]
    | cons l behind =>
      rw [← List.singleton_append, joinLines_append_cons (List.cons_ne_nil _ []), joinLines,
        List.intercalate_singleton, originValue_append (isBlank_stamp origin).2, hstamp]

theorem readKey_block (ahead : List Text) (origin : Origin) (behind : List Text) :
    readKey (joinLines (ahead ++ originFrontmatterLine origin :: behind)) = some origin ↔
      ∀ rest, afterKey true (joinLines ahead) = some rest →
        isOrigin (originValue rest) = some origin := by
  by_cases hnil : ahead = []
  · subst hnil
    rw [List.nil_append, readKey_stamp]
    constructor
    · intro _ rest hrest
      cases hrest
    · exact fun _ => rfl
  · rw [joinLines_append_cons hnil, readKey, afterKey_append]
    cases hahead : afterKey true (joinLines ahead) with
    | none =>
      dsimp only
      rw [← readKey, readKey_stamp]
      constructor
      · intro _ rest hrest
        cases hrest
      · exact fun _ => rfl
    | some rest =>
      dsimp only
      rw [Option.bind_some, isOrigin_ahead]
      constructor
      · intro h rest' hrest
        cases hrest
        exact h
      · exact fun h => h rest rfl

/-- A key ahead that reads as an origin is read, whatever follows. -/
theorem readKey_ahead {ahead : List Text} {rest : Text} {o : Origin}
    (hkey : afterKey true (joinLines ahead) = some rest)
    (hvalue : isOrigin (originValue rest) = some o) (behind : List Text) :
    readKey (joinLines (ahead ++ behind)) = some o := by
  have hblank : isBlank rest = false := by
    by_contra h
    rw [isOrigin_blank (by simpa using h)] at hvalue
    cases hvalue
  have hne : ahead ≠ [] := by
    rintro rfl
    cases hkey
  cases behind with
  | nil => rw [List.append_nil, readKey, hkey, Option.bind_some, hvalue]
  | cons l behind =>
    rw [joinLines_append_cons hne, readKey, afterKey_append, hkey]
    dsimp only
    rw [Option.bind_some, originValue_append hblank, hvalue]

/-- With one line break, the first key of the block decides what is read back. -/
theorem readOrigin_upsert {raw : Text} (hone : OneBreak raw) (origin : Origin) :
    readOriginFrontmatter (upsertOriginFrontmatter raw origin) = some origin ↔
      AheadReads raw origin := by
  obtain ⟨behind, close, after, hlines, hblock, hclose⟩ := writtenLines_block raw origin
  have hunix := unix_upsert hone origin
  have hbreak := fun l (hl : l ∈ writtenLines raw origin) => newline_not_mem_written hl
  rw [hlines] at hunix hbreak
  rw [readOrigin_join hunix (by simp) (fun l hl => hbreak l (List.mem_cons_of_mem _ hl)) hblock
    hclose]
  exact readKey_block (linesAhead raw) origin behind

/-! ## Section 3: Exactness -/

/-- A stamp reads back, takes the place of an earlier one and leaves every other line as it
    was, its break included, on exactly the files with one line break and no other key ahead. -/
theorem originStamp_exact (raw : Text) (o p : Origin) :
    (readOriginFrontmatter (upsertOriginFrontmatter raw o) = some o ∧
        upsertOriginFrontmatter (upsertOriginFrontmatter raw o) p = upsertOriginFrontmatter raw p ∧
        (upsertOriginFrontmatter raw o).splitOn '\n' = stampedLines raw o) ↔
      OneBreak raw ∧ AheadReads raw o := by
  constructor
  · rintro ⟨hread, -, hlines⟩
    have hone := (upsert_lines_iff raw o).1 hlines
    exact ⟨hone, (readOrigin_upsert hone o).1 hread⟩
  · rintro ⟨hone, hahead⟩
    exact ⟨(readOrigin_upsert hone o).2 hahead, upsert_upsert hone o p,
      (upsert_lines_iff raw o).2 hone⟩

/-- Two keys: the writer sets the last, the reader takes the first. -/
def twoKeys : Text :=
  joinLines [dashes, originFrontmatterLine .owner, originFrontmatterLine .owner, dashes, []]

/-- A file with both line breaks. -/
def twoBreaks : Text := ['a', '\r', '\n', 'b', '\n', 'c']

theorem originStamp_twoKeys :
    readOriginFrontmatter (upsertOriginFrontmatter twoKeys .agent) = some .owner ∧
      (upsertOriginFrontmatter twoBreaks .agent).splitOn '\n' ≠ stampedLines twoBreaks .agent := by
  decide +kernel

end Lares.VaultFormat
