import Lares.VaultFormat.OriginExact
import Mathlib

/-! # An update applied to a vault file

    The proposed body comes from Notion, the frontmatter from the file on disk.

    * **The cut**: the fences are lines that trim to `---`, and the blank lines
      under the block belong to it.
    * **The stamp** is set by a writer that looks for its own fences: a first line
      `---` and a line that begins with `---`.
    * **Exactness**: the written file splits into the disk's block, with its stamp,
      and the proposed body on exactly the blocks that both recognise and end.
-/

namespace Lares.Notion

open Lines VaultFormat

/-! ## Section 1: The code -/

def isFence (line : Text) : Bool := decide (trim line = dashes)

/-- The lines through the closing fence, and the lines after it. -/
def throughFence : List Text → Option (List Text × List Text)
  | [] => none
  | line :: lines =>
      if isFence line then some ([line], lines)
      else (throughFence lines).map fun cut => (line :: cut.1, cut.2)

/-- The block, with the blank lines under it, and the body. -/
def splitFrontmatter (source : Text) : Text × Text :=
  match (unix source).splitOn '\n' with
  | [] => ([], unix source)
  | first :: lines =>
      match if isFence first then throughFence lines else none with
      | none => ([], unix source)
      | some (fenced, rest) =>
          (joinLines (first :: fenced ++ rest.takeWhile isBlank) ++
              (if rest.dropWhile isBlank = [] then [] else ['\n']),
            joinLines (rest.dropWhile isBlank))

def originAfterWrite (existing : Option Origin) (incoming : Origin) : Origin :=
  existing.getD incoming

/-- What `runApplySync` writes for an update. -/
def appliedContent (source proposedBody : Text) : Text :=
  let diskBlock := (splitFrontmatter source).1
  let stamp := originAfterWrite (readOriginFrontmatter source) .synced
  let stampedBlock :=
    if diskBlock = [] then
      dashes ++ '\n' :: originFrontmatterLine stamp ++ '\n' :: dashes ++ ['\n', '\n']
    else upsertOriginFrontmatter diskBlock stamp
  stampedBlock ++ proposedBody ++ ['\n']

/-! ## Section 2: The cut -/

theorem throughFence_some {lines fenced rest : List Text}
    (h : throughFence lines = some (fenced, rest)) :
    ∃ inner close, fenced = inner ++ [close] ∧ lines = inner ++ close :: rest ∧
      (∀ l ∈ inner, isFence l = false) ∧ isFence close = true := by
  induction lines generalizing fenced with
  | nil => cases h
  | cons line lines ih =>
    rw [throughFence] at h
    split at h
    · next hline =>
      cases h
      exact ⟨[], line, rfl, rfl, by simp, hline⟩
    · next hline =>
      cases hrest : throughFence lines with
      | none =>
        rw [hrest] at h
        cases h
      | some cut =>
        obtain ⟨fenced', rest'⟩ := cut
        rw [hrest] at h
        cases h
        obtain ⟨inner, close, rfl, rfl, hinner, hclose⟩ := ih hrest
        refine ⟨line :: inner, close, rfl, rfl, ?_, hclose⟩
        intro l hl
        rcases List.mem_cons.1 hl with rfl | hl
        · simpa using hline
        · exact hinner l hl

theorem throughFence_append {inner : List Text} (hinner : ∀ l ∈ inner, isFence l = false)
    {close : Text} (hclose : isFence close = true) (rest : List Text) :
    throughFence (inner ++ close :: rest) = some (inner ++ [close], rest) := by
  induction inner with
  | nil => rw [List.nil_append, throughFence, if_pos hclose, List.nil_append]
  | cons line inner ih =>
    rw [List.cons_append, throughFence, if_neg (by simp [hinner line List.mem_cons_self]),
      ih fun l hl => hinner l (List.mem_cons_of_mem line hl)]
    rfl

/-- The lines of a source: two fences, what is between them, blank lines, and the rest. -/
structure Cut where
  /-- The opening fence. -/
  first : Text
  /-- The block. -/
  inner : List Text
  /-- The closing fence. -/
  close : Text
  /-- The blank lines after it. -/
  gap : List Text
  body : List Text
  opens : isFence first = true
  inside : ∀ l ∈ inner, isFence l = false
  closed : isFence close = true
  blank : ∀ l ∈ gap, isBlank l = true
  bodyStarts : ∀ l, body.head? = some l → isBlank l = false

namespace Cut

/-- The lines of the block. -/
def block (c : Cut) : List Text := c.first :: (c.inner ++ c.close :: c.gap)

theorem gap_eq (c : Cut) : (c.gap ++ c.body).takeWhile isBlank = c.gap ∧
    (c.gap ++ c.body).dropWhile isBlank = c.body := by
  rw [List.takeWhile_append_of_pos c.blank, List.dropWhile_append_of_pos c.blank]
  have hstarts := c.bodyStarts
  cases hbody : c.body with
  | nil => simp
  | cons l body =>
    rw [hbody] at hstarts
    have hl : ¬isBlank l = true := by simp [hstarts l rfl]
    rw [List.takeWhile_cons_of_neg hl, List.dropWhile_cons_of_neg hl, List.append_nil]
    exact ⟨rfl, rfl⟩

end Cut

/-- What the cut is. -/
theorem splitFrontmatter_cut {source : Text} {c : Cut}
    (h : (unix source).splitOn '\n' = c.block ++ c.body) :
    splitFrontmatter source =
      (joinLines c.block ++ (if c.body = [] then [] else ['\n']), joinLines c.body) := by
  have hthrough := throughFence_append c.inside c.closed (c.gap ++ c.body)
  have hlines : (unix source).splitOn '\n' =
      c.first :: (c.inner ++ c.close :: (c.gap ++ c.body)) := by
    rw [h, Cut.block, List.cons_append, List.append_assoc]
    rfl
  unfold splitFrontmatter
  rw [hlines]
  dsimp only
  rw [if_pos c.opens, hthrough]
  dsimp only
  rw [c.gap_eq.1, c.gap_eq.2, Cut.block, List.cons_append, List.append_assoc]
  rfl

theorem exists_cut (source : Text) :
    splitFrontmatter source = ([], unix source) ∨
      ∃ c : Cut, (unix source).splitOn '\n' = c.block ++ c.body := by
  unfold splitFrontmatter
  cases hlines : (unix source).splitOn '\n' with
  | nil => exact .inl rfl
  | cons first lines =>
    dsimp only
    by_cases hopen : isFence first = true
    · rw [if_pos hopen]
      cases hthrough : throughFence lines with
      | none => exact .inl rfl
      | some cut =>
        obtain ⟨fenced, rest⟩ := cut
        obtain ⟨inner, close, -, rfl, hinner, hclose⟩ := throughFence_some hthrough
        refine .inr ⟨⟨first, inner, close, rest.takeWhile isBlank, rest.dropWhile isBlank, hopen,
          hinner, hclose, fun l hl => List.mem_takeWhile_imp hl, ?_⟩, ?_⟩
        · intro l hl
          have hhead := List.head?_dropWhile_not isBlank rest
          rw [hl] at hhead
          simpa using hhead
        · rw [Cut.block, List.cons_append, List.append_assoc, List.cons_append,
            List.takeWhile_append_dropWhile]
    · rw [if_neg hopen]
      exact .inl rfl

/-- Cutting loses nothing, and a body begins a line. -/
theorem splitFrontmatter_spec (source : Text) :
    (splitFrontmatter source).1 ++ (splitFrontmatter source).2 = unix source ∧
      ((splitFrontmatter source).1 ≠ [] → (splitFrontmatter source).2 ≠ [] →
        (splitFrontmatter source).1.getLast? = some '\n') := by
  rcases exists_cut source with hnone | ⟨c, hlines⟩
  · rw [hnone]
    exact ⟨rfl, fun h => absurd rfl h⟩
  · have hjoin : joinLines (c.block ++ c.body) = unix source := by
      rw [← hlines]
      exact List.intercalate_splitOn _
    rw [splitFrontmatter_cut hlines]
    by_cases hbody : c.body = []
    · rw [if_pos hbody]
      refine ⟨?_, fun _ h => absurd (by rw [hbody]; rfl) h⟩
      rw [← hjoin, hbody, List.append_nil, List.append_nil]
      exact List.append_nil _
    · rw [if_neg hbody]
      refine ⟨?_, fun _ _ => List.getLast?_concat⟩
      have hblock : c.block ≠ [] := List.cons_ne_nil _ _
      rw [← hjoin]
      exact (intercalate_append _ hblock hbody).symm

theorem isFence_ne_nil {l : Text} (h : isFence l = true) : l ≠ [] := by
  rintro rfl
  exact absurd h (by decide)

theorem isBlank_of_closes {l : Text} (h : closes l = true) : isBlank l = false := by
  obtain ⟨t, rfl⟩ := List.isPrefixOf_iff_prefix.1 h
  have hdash : isSpace '-' = false := by decide
  simp [isBlank, dashes, hdash]

/-- The disk block, when it ends its last line. -/
theorem diskBlock_lines {source : Text} {c : Cut}
    (hlines : (unix source).splitOn '\n' = c.block ++ c.body)
    (hend : (splitFrontmatter source).1.getLast? = some '\n') :
    ∃ gap, (∀ l ∈ gap, isBlank l = true) ∧
      (splitFrontmatter source).1.splitOn '\n' =
        c.first :: (c.inner ++ c.close :: (gap ++ [[]])) := by
  have hbreak : ∀ l ∈ c.block, '\n' ∉ l := by
    intro l hl
    apply not_mem_of_mem_splitOn (s := unix source)
    rw [hlines]
    exact List.mem_append_left _ hl
  have hne : c.block ≠ [] := List.cons_ne_nil _ _
  rw [splitFrontmatter_cut hlines] at hend ⊢
  by_cases hbody : c.body = []
  · rw [if_pos hbody, List.append_nil] at hend ⊢
    have hsplit : (joinLines c.block).splitOn '\n' = c.block :=
      List.splitOn_intercalate '\n' hbreak hne
    obtain ⟨ls, -, hls, -⟩ := splitOn_of_getLast? hend
    -- the closing fence is not the empty last line
    rcases List.eq_nil_or_concat c.gap with hgap | ⟨gap, last, hgap⟩
    · rw [hsplit, Cut.block, hgap] at hls
      have hlast := congrArg List.getLast? hls
      rw [← List.cons_append, List.getLast?_concat, List.getLast?_concat] at hlast
      exact absurd (Option.some.inj hlast) (isFence_ne_nil c.closed)
    · rw [List.concat_eq_append] at hgap
      have hcat : c.block = (c.first :: (c.inner ++ c.close :: gap)) ++ [last] := by
        rw [Cut.block, hgap]
        simp
      have hlast := congrArg List.getLast? hls
      rw [hsplit, hcat, List.getLast?_concat, List.getLast?_concat] at hlast
      have hblank := c.blank
      rw [hgap] at hblank
      refine ⟨gap, fun l hl => hblank l (List.mem_append_left _ hl), ?_⟩
      rw [hsplit, hcat, Option.some.inj hlast]
      simp
  · rw [if_neg hbody, joinLines, ← intercalate_concat_nil '\n' hne]
    refine ⟨c.gap, c.blank, ?_⟩
    rw [List.splitOn_intercalate '\n' _ (by simp)]
    · rw [Cut.block]
      simp
    · intro l hl
      rcases List.mem_append.1 hl with hl | hl
      · exact hbreak l hl
      · rw [List.mem_singleton.1 hl]
        simp

/-- The writer's closing line is at or before the closing fence. -/
theorem writer_block {first close first' : Text} {inner gap block rest : List Text}
    (hblank : ∀ l ∈ gap, isBlank l = true)
    (hcut : block? (fun l => decide (chop l = dashes))
      (first :: (inner ++ close :: (gap ++ [[]]))) = some (first', block, rest)) :
    first' = first ∧ ∃ more, inner = block ++ more ∧ rest = more ++ close :: (gap ++ [[]]) := by
  obtain ⟨hlines, -, -, wclose, after, rfl, hcloses⟩ := block?_eq_some.1 hcut
  obtain ⟨rfl, htail⟩ := List.cons.inj hlines
  refine ⟨rfl, ?_⟩
  rcases List.append_eq_append_iff.1 htail with ⟨more, rfl, hmore⟩ | ⟨more, rfl, hmore⟩
  · -- a closing line under the fence would be blank
    cases more with
    | nil => exact ⟨[], by simp, by simpa using hmore.symm⟩
    | cons x more =>
      have hmem : wclose ∈ gap ++ [[]] := by
        rw [List.cons_append, List.cons.injEq] at hmore
        rw [hmore.2]
        simp
      have hpos : isBlank wclose = true := by
        rcases List.mem_append.1 hmem with hmem | hmem
        · exact hblank wclose hmem
        · rw [List.mem_singleton.1 hmem]
          rfl
      rw [isBlank_of_closes hcloses] at hpos
      cases hpos
  · exact ⟨more, rfl, hmore⟩

/-! ## Section 3: What an update is to do -/

def diskBlock (source : Text) : Text := (splitFrontmatter source).1

/-- The origin the file had, or `synced`. -/
def stampOf (source : Text) : Origin := originAfterWrite (readOriginFrontmatter source) .synced

/-- The lines of the disk block with the stamp's line replaced or inserted. -/
def restamped (source : Text) : List Text :=
  stamped (fun l => decide (chop l = dashes)) [] (originFrontmatterLine (stampOf source))
    ((diskBlock source).splitOn '\n')

/-- The written file is the disk block with its stamp, and the proposed body with a break. -/
def Applied (source proposedBody : Text) : Prop :=
  splitFrontmatter (appliedContent source proposedBody) =
      (joinLines (restamped source), proposedBody ++ ['\n']) ∧
    readOriginFrontmatter (appliedContent source proposedBody) = some (stampOf source)

structure Appliable (source proposedBody : Text) : Prop where
  /-- The block ends its last line. -/
  ends : (diskBlock source).getLast? = some '\n'
  /-- The writer finds it. -/
  found : (block? (fun l => decide (chop l = dashes)) ((diskBlock source).splitOn '\n')).isSome
  /-- No line that is kept ends in `\r`. -/
  plain : ∀ l ∈ keptLines (diskBlock source), l.getLast? ≠ some '\r'
  /-- A key ahead of the stamp has an origin. -/
  ahead : ∀ rest, afterKey true (joinLines (linesAhead (diskBlock source))) = some rest →
    (isOrigin (originValue rest)).isSome
  /-- No line of the body ends in `\r`. -/
  body : ∀ l ∈ proposedBody.splitOn '\n', l.getLast? ≠ some '\r'

theorem appliedContent_eq {source : Text} (h : diskBlock source ≠ []) (proposedBody : Text) :
    appliedContent source proposedBody =
      upsertOriginFrontmatter (diskBlock source) (stampOf source) ++ (proposedBody ++ ['\n']) := by
  have hdisk : ¬(splitFrontmatter source).1 = [] := h
  rw [appliedContent, if_neg hdisk, List.append_assoc]
  rfl

theorem splitOn_body (proposedBody : Text) :
    (proposedBody ++ ['\n']).splitOn '\n' = proposedBody.splitOn '\n' ++ [[]] := by
  rw [splitOn_append_break, List.splitOn_nil]

theorem linesAhead_eq {raw first : Text} {block rest : List Text}
    (h : block? (fun l => decide (chop l = dashes)) (raw.splitOn '\n') =
      some (first, block, rest)) :
    linesAhead raw = (place block).1.map chop := by
  unfold linesAhead
  rw [splitOn_unix, block?_chop, h, Option.map_some]
  dsimp only
  rw [place_map (isPrefixOf_chop (by decide)) (isPrefixOf_chop (by decide))]

theorem isFence_line (o : Origin) : isFence (originFrontmatterLine o) = false := by
  cases o <;> decide +kernel

/-- What the cut of the source, the cut of its block by the writer, and their parts are. -/
structure Parts (source : Text) where
  /-- The cut of the source. -/
  cut : Cut
  source_eq : (unix source).splitOn '\n' = cut.block ++ cut.body
  /-- The block as the writer sees it. -/
  block : List Text
  /-- What it does not see of the block. -/
  more : List Text
  /-- The blank lines it leaves. -/
  gap : List Text
  inner_eq : cut.inner = block ++ more
  blank : ∀ l ∈ gap, isBlank l = true
  disk_eq : (diskBlock source).splitOn '\n' =
    cut.first :: (block ++ (more ++ cut.close :: (gap ++ [[]])))
  found : block? (fun l => decide (chop l = dashes)) ((diskBlock source).splitOn '\n') =
    some (cut.first, block, more ++ cut.close :: (gap ++ [[]]))

theorem exists_parts {source : Text} (hblock : diskBlock source ≠ [])
    (hend : (diskBlock source).getLast? = some '\n')
    (hfound : (block? (fun l => decide (chop l = dashes))
      ((diskBlock source).splitOn '\n')).isSome) :
    Nonempty (Parts source) := by
  rcases exists_cut source with hnone | ⟨c, hlines⟩
  · exact absurd (congrArg Prod.fst hnone) hblock
  obtain ⟨gap, hblank, hdisk⟩ := diskBlock_lines hlines hend
  obtain ⟨⟨first, block, rest⟩, hcut⟩ := Option.isSome_iff_exists.1 hfound
  have hcut' := hcut
  rw [diskBlock, hdisk] at hcut'
  obtain ⟨rfl, more, hinner, rfl⟩ := writer_block hblank hcut'
  refine ⟨⟨c, hlines, block, more, gap, hinner, hblank, ?_, hcut⟩⟩
  rw [diskBlock, hdisk, hinner, List.append_assoc]

namespace Parts

variable {source : Text} (q : Parts source)

/-- What comes from the closing fence on, for the writer. -/
def rest : List Text := q.more ++ q.cut.close :: q.gap

theorem restamped_eq : restamped source =
    (q.cut.first :: ((place q.block).1 ++ originFrontmatterLine (stampOf source) ::
      ((place q.block).2 ++ q.rest))) ++ [[]] := by
  rw [restamped, stamped, q.found, rest]
  simp

theorem kept_eq : keptLines (diskBlock source) =
    q.cut.first :: ((place q.block).1 ++ ((place q.block).2 ++ (q.rest ++ [[]]))) := by
  rw [keptLines, q.found, rest]
  simp

include q in
theorem crlf_eq (hplain : ∀ l ∈ keptLines (diskBlock source), l.getLast? ≠ some '\r') :
    crlf (diskBlock source) = false := by
  rw [Bool.eq_false_iff]
  intro h
  have hfirst := ((crlf_iff q.disk_eq).1 h).2
  refine hplain q.cut.first ?_ hfirst
  rw [q.kept_eq]
  exact List.mem_cons_self

include q in
/-- The lines that the writer leaves. -/
theorem upsert_lines (hplain : ∀ l ∈ keptLines (diskBlock source), l.getLast? ≠ some '\r') :
    (upsertOriginFrontmatter (diskBlock source) (stampOf source)).splitOn '\n' =
      restamped source := by
  have hcrlf := q.crlf_eq hplain
  have hone : OneBreak (diskBlock source) := by
    intro l hl
    have hl' := hplain l (List.mem_of_mem_dropLast hl)
    simp [hl', hcrlf]
  have hbreak : breakStart (diskBlock source) = [] := by
    rw [breakStart, hcrlf]
    rfl
  rw [(upsert_lines_iff _ _).2 hone, stampedLines, restamped, stamped, stamped, q.found, hbreak]
  dsimp only
  rw [List.append_nil]

theorem first_eq (hplain : ∀ l ∈ keptLines (diskBlock source), l.getLast? ≠ some '\r') :
    q.cut.first = dashes := by
  obtain ⟨-, hopen, -⟩ := block?_eq_some.1 q.found
  have hfirst : q.cut.first ∈ keptLines (diskBlock source) := by
    rw [q.kept_eq]
    exact List.mem_cons_self
  rw [← chop_eq_self (hplain _ hfirst)]
  exact of_decide_eq_true hopen

/-- The writer's closing line. -/
theorem closing (t : List Text) :
    ∃ close after, q.more ++ q.cut.close :: t = close :: after ∧ closes close = true := by
  obtain ⟨-, -, -, close, after, hrest, hclose⟩ := block?_eq_some.1 q.found
  cases hmore : q.more with
  | nil =>
    rw [hmore, List.nil_append] at hrest
    exact ⟨_, _, by rw [List.nil_append, (List.cons.inj hrest).1], hclose⟩
  | cons x more =>
    rw [hmore, List.cons_append] at hrest
    exact ⟨_, _, by rw [List.cons_append, (List.cons.inj hrest).1], hclose⟩

/-- The cut of what is written. -/
def written (proposedBody : Text)
    (hfirst : ∀ l, (proposedBody.splitOn '\n').head? = some l → isBlank l = false) : Cut where
  first := q.cut.first
  inner := (place q.block).1 ++ originFrontmatterLine (stampOf source) ::
    ((place q.block).2 ++ q.more)
  close := q.cut.close
  gap := q.gap
  body := proposedBody.splitOn '\n' ++ [[]]
  opens := q.cut.opens
  inside := by
    have hinside := q.cut.inside
    rw [q.inner_eq] at hinside
    intro l hl
    simp only [List.mem_append, List.mem_cons] at hl
    rcases hl with hl | rfl | hl | hl
    · exact hinside l (List.mem_append_left _ (mem_of_mem_place (.inl hl)))
    · exact isFence_line _
    · exact hinside l (List.mem_append_left _ (mem_of_mem_place (.inr hl)))
    · exact hinside l (List.mem_append_right _ hl)
  closed := q.cut.closed
  blank := q.blank
  bodyStarts := by
    intro l hl
    rw [List.head?_append_of_ne_nil _ (List.splitOn_ne_nil _ _)] at hl
    exact hfirst l hl

theorem written_block {proposedBody : Text}
    (hfirst : ∀ l, (proposedBody.splitOn '\n').head? = some l → isBlank l = false) :
    restamped source = (q.written proposedBody hfirst).block ++ [[]] := by
  rw [q.restamped_eq, Cut.block, written, rest]
  simp

variable (hplain : ∀ l ∈ keptLines (diskBlock source), l.getLast? ≠ some '\r')
  {proposedBody : Text}
  (hfirst : ∀ l, (proposedBody.splitOn '\n').head? = some l → isBlank l = false)
  (hblock : diskBlock source ≠ [])

include hplain hblock in
theorem content_lines :
    (appliedContent source proposedBody).splitOn '\n' =
      (q.written proposedBody hfirst).block ++ (q.written proposedBody hfirst).body := by
  have hne : (q.written proposedBody hfirst).block ≠ [] := List.cons_ne_nil _ _
  have hlines := q.upsert_lines hplain
  rw [q.written_block hfirst] at hlines
  have hlast : (upsertOriginFrontmatter (diskBlock source) (stampOf source)).getLast? =
      some '\n' := getLast?_of_splitOn hne hlines
  obtain ⟨ls, -, hls, happend⟩ := splitOn_of_getLast? hlast
  rw [hlines] at hls
  rw [appliedContent_eq hblock, happend, splitOn_body, List.append_cancel_right hls]
  rfl

variable (hbody : ∀ l ∈ proposedBody.splitOn '\n', l.getLast? ≠ some '\r')

include hplain hfirst hblock hbody

include q in
theorem unix_content :
    unix (appliedContent source proposedBody) = appliedContent source proposedBody := by
  have hline : (originFrontmatterLine (stampOf source)).getLast? ≠ some '\r' := by
    cases stampOf source <;> decide
  have hkept := hplain
  rw [q.kept_eq, rest] at hkept
  apply unix_eq_self
  rw [q.content_lines hplain hfirst hblock, written, Cut.block]
  dsimp only
  rw [← List.append_assoc, List.dropLast_concat]
  intro l hl
  simp only [List.mem_append, List.mem_cons, List.append_assoc, List.cons_append] at hl hkept
  rcases hl with hl | hl | rfl | hl | hl | hl | hl | hl
  · exact hkept l (.inl hl)
  · exact hkept l (.inr (.inl hl))
  · exact hline
  · exact hkept l (.inr (.inr (.inl hl)))
  · exact hkept l (.inr (.inr (.inr (.inl hl))))
  · exact hkept l (.inr (.inr (.inr (.inr (.inl hl)))))
  · exact hkept l (.inr (.inr (.inr (.inr (.inr (.inl hl))))))
  · exact hbody l hl

include q in
theorem split_content :
    splitFrontmatter (appliedContent source proposedBody) =
      (joinLines (restamped source), proposedBody ++ ['\n']) := by
  have hne : (q.written proposedBody hfirst).block ≠ [] := List.cons_ne_nil _ _
  have hlines := q.content_lines hplain hfirst hblock
  rw [← q.unix_content hplain hfirst hblock hbody] at hlines
  have hjoin : joinLines (q.written proposedBody hfirst).body = proposedBody ++ ['\n'] := by
    rw [written, joinLines]
    dsimp only
    rw [intercalate_concat_nil '\n' (List.splitOn_ne_nil _ _), List.intercalate_splitOn]
  have hbodyne : (q.written proposedBody hfirst).body ≠ [] := by simp [written]
  rw [splitFrontmatter_cut hlines, if_neg hbodyne, hjoin, q.written_block hfirst, joinLines,
    joinLines, intercalate_concat_nil '\n' hne]

/-- What the reader takes is between the first line and the writer's closing one. -/
theorem read_content :
    readOriginFrontmatter (appliedContent source proposedBody) =
      readKey (joinLines ((place q.block).1 ++ originFrontmatterLine (stampOf source) ::
        (place q.block).2)) := by
  obtain ⟨-, -, hinner, -⟩ := block?_eq_some.1 q.found
  have hlines := q.content_lines hplain hfirst hblock
  rw [← q.unix_content hplain hfirst hblock hbody] at hlines
  obtain ⟨close, tail, htail, hclose⟩ :=
    q.closing (q.gap ++ proposedBody.splitOn '\n' ++ [[]])
  have hcontent : (unix (appliedContent source proposedBody)).splitOn '\n' =
      dashes :: ((place q.block).1 ++ originFrontmatterLine (stampOf source) ::
        (place q.block).2 ++ close :: tail) := by
    rw [hlines, ← htail, written, Cut.block]
    dsimp only
    rw [q.first_eq hplain]
    simp
  have hraw : unix (appliedContent source proposedBody) = joinLines _ :=
    (List.intercalate_splitOn '\n').symm
  rw [hcontent] at hraw
  apply readOrigin_join hraw (by simp)
  · intro l hl
    apply not_mem_of_mem_splitOn (s := unix (appliedContent source proposedBody))
    rw [hcontent]
    exact List.mem_cons_of_mem _ hl
  · intro l hl
    simp only [List.mem_append, List.mem_cons] at hl
    rcases hl with hl | rfl | hl
    · exact hinner l (mem_of_mem_place (.inl hl))
    · exact closes_line _
    · exact hinner l (mem_of_mem_place (.inr hl))
  · exact hclose

omit hfirst hblock hbody in
/-- A key ahead of the stamp was there before. -/
theorem readSource {rest : Text} {o : Origin}
    (hkey : afterKey true (joinLines (place q.block).1) = some rest)
    (hvalue : isOrigin (originValue rest) = some o) : readOriginFrontmatter source = some o := by
  obtain ⟨-, -, hinner, -⟩ := block?_eq_some.1 q.found
  obtain ⟨close, tail, htail, hclose⟩ := q.closing (q.cut.gap ++ q.cut.body)
  have hsource : (unix source).splitOn '\n' = dashes :: (q.block ++ close :: tail) := by
    rw [q.source_eq, ← htail, Cut.block, q.inner_eq, q.first_eq hplain]
    simp
  have hraw : unix source = joinLines _ := (List.intercalate_splitOn '\n').symm
  rw [hsource] at hraw
  have hread : readKey (joinLines q.block) = some o := by
    obtain ⟨⟨old, hcut⟩, -⟩ := place_spec q.block
    rcases hcut with ⟨-, hcut⟩ | hcut
    · rw [hcut]
      exact readKey_ahead hkey hvalue _
    · rw [hcut]
      exact readKey_ahead hkey hvalue _
  rw [← hread]
  apply readOrigin_join hraw _ _ hinner hclose
  · intro hnil
    rw [hnil] at hkey
    cases hkey
  · intro l hl
    apply not_mem_of_mem_splitOn (s := unix source)
    rw [hsource]
    exact List.mem_cons_of_mem _ hl

omit hfirst hblock hbody in
theorem linesAhead_disk : linesAhead (diskBlock source) = (place q.block).1 := by
  rw [linesAhead_eq q.found]
  conv_rhs => rw [← List.map_id (place q.block).1]
  apply List.map_congr_left
  intro l hl
  apply chop_eq_self
  apply hplain
  rw [q.kept_eq]
  simp [hl]

end Parts

/-! ## Section 4: Exactness -/

theorem applied_of_appliable {source proposedBody : Text} (hblock : diskBlock source ≠ [])
    (hfirst : ∀ l, (proposedBody.splitOn '\n').head? = some l → isBlank l = false)
    (h : Appliable source proposedBody) : Applied source proposedBody := by
  obtain ⟨q⟩ := exists_parts hblock h.ends h.found
  refine ⟨q.split_content h.plain hfirst hblock h.body, ?_⟩
  rw [q.read_content h.plain hfirst hblock h.body, readKey_block]
  intro rest hkey
  have hsome := h.ahead rest
  rw [q.linesAhead_disk h.plain] at hsome
  obtain ⟨o, ho⟩ := Option.isSome_iff_exists.1 (hsome hkey)
  rw [ho, stampOf, q.readSource h.plain hkey ho]
  rfl

theorem newline_not_mem_restamped {source l : Text} (h : l ∈ restamped source) : '\n' ∉ l := by
  rcases mem_stamped h with h | rfl | h
  · cases h
  · exact newline_not_mem_line _
  · exact not_mem_of_mem_splitOn h

theorem splitOn_restamped (source : Text) :
    (joinLines (restamped source)).splitOn '\n' = restamped source :=
  List.splitOn_intercalate '\n' (fun _ hl => newline_not_mem_restamped hl)
    (stamped_ne_nil (List.splitOn_ne_nil _ _))

/-- The cut of what is written, as lines with their breaks. -/
theorem applied_lines {source proposedBody : Text} (hblock : diskBlock source ≠ [])
    (h : Applied source proposedBody) :
    unix (upsertOriginFrontmatter (diskBlock source) (stampOf source) ++ (proposedBody ++ ['\n'])) =
      joinLines (restamped source) ++ (proposedBody ++ ['\n']) := by
  have happend := (splitFrontmatter_spec (appliedContent source proposedBody)).1
  rw [h.1, appliedContent_eq hblock] at happend
  exact happend.symm

/-- The writer adds one line at most. -/
theorem found_of_applied {source proposedBody : Text} (hblock : diskBlock source ≠ [])
    (h : Applied source proposedBody) :
    (block? (fun l => decide (chop l = dashes)) ((diskBlock source).splitOn '\n')).isSome := by
  by_contra hnone
  rw [Option.isSome_iff_ne_none, not_not] at hnone
  have hcount := congrArg (fun s => (s.splitOn '\n').length) (applied_lines hblock h)
  simp only [splitOn_unix, length_mapInit, length_splitOn, List.count_append] at hcount
  have hdisk : ((joinLines (restamped source)).splitOn '\n').length =
      ((diskBlock source).splitOn '\n').length := by
    rw [splitOn_restamped, restamped, stamped, hnone]
    rfl
  have hstamped : ((upsertOriginFrontmatter (diskBlock source) (stampOf source)).splitOn
      '\n').length = ((diskBlock source).splitOn '\n').length + 4 := by
    rw [splitOn_upsert, length_mapInit, stampedLines, stamped, hnone, List.length_append,
      List.length_map, Nat.add_comm]
    rfl
  rw [length_splitOn] at hdisk hstamped
  omega

theorem ends_of_applied {source proposedBody : Text} (h : Applied source proposedBody)
    (hfound : (block? (fun l => decide (chop l = dashes))
      ((diskBlock source).splitOn '\n')).isSome) :
    (diskBlock source).getLast? = some '\n' := by
  obtain ⟨⟨first, block, rest⟩, hcut⟩ := Option.isSome_iff_exists.1 hfound
  obtain ⟨hlines, -, -, close, after, rfl, -⟩ := block?_eq_some.1 hcut
  have hrestamped : restamped source = (first :: (place block).1 ++
      originFrontmatterLine (stampOf source) :: (place block).2) ++ close :: after := by
    rw [restamped, stamped, hcut]
  have hspec := (splitFrontmatter_spec (appliedContent source proposedBody)).2
  rw [h.1] at hspec
  have hne : joinLines (restamped source) ≠ [] := by
    intro hnil
    have hlen := congrArg List.length (splitOn_restamped source)
    rw [hnil, hrestamped] at hlen
    simp at hlen
  obtain ⟨ls, -, hls, -⟩ := splitOn_of_getLast? (hspec hne (by simp))
  rw [splitOn_restamped, hrestamped] at hls
  -- the last line of the block is the last of the disk block
  have hlast := congrArg List.getLast? hls
  rw [List.getLast?_append_of_ne_nil _ (List.cons_ne_nil _ _), List.getLast?_concat] at hlast
  obtain ⟨init, hinit⟩ := List.getLast?_eq_some_iff.1 hlast
  have hdisk : (diskBlock source).splitOn '\n' = (first :: (block ++ init)) ++ [[]] := by
    rw [hlines, hinit]
    simp
  exact getLast?_of_splitOn (List.cons_ne_nil _ _) hdisk

/-- What the writer and the cut leave of a line. -/
theorem rechop_eq {raw l : Text} (h : chop (chop l ++ breakStart raw) = l) :
    l.getLast? ≠ some '\r' := by
  apply chop_eq_self_iff.1
  have hlen := congrArg List.length h
  have hchop := length_chop_le l
  unfold breakStart at h hlen
  split at h
  · rw [chop_concat] at h
    exact h
  · next hcrlf =>
    rw [if_neg hcrlf, List.append_nil] at hlen
    rw [List.append_nil] at h
    have hchop' := length_chop_le (chop l)
    rw [chop]
    split
    · next hcr =>
      obtain ⟨m, rfl⟩ := List.getLast?_eq_some_iff.1 hcr
      rw [chop_concat] at hlen hchop'
      simp at hlen hchop'
      omega
    · rfl

theorem eq_of_map_eq {f : Text → Text} {ls : List Text} (h : ls.map f = ls) {l : Text}
    (hl : l ∈ ls) : f l = l := by
  have hid : ls.map f = ls.map id := by rw [h, List.map_id]
  exact List.map_inj_left.1 hid l hl

/-- The lines of what is written, where the stamp's line has its break. -/
theorem content_unix_lines {source : Text} (q : Parts source) (proposedBody : Text) :
    ∃ lines : List Text, lines.map (fun l => chop (chop l ++ breakStart (diskBlock source))) =
        (q.cut.first :: ((place q.block).1 ++ originFrontmatterLine (stampOf source) ::
          ((place q.block).2 ++ q.rest))).map
            (fun l => chop (chop l ++ breakStart (diskBlock source))) ∧
      (unix (upsertOriginFrontmatter (diskBlock source) (stampOf source) ++
        (proposedBody ++ ['\n']))).splitOn '\n' =
          lines.map (fun l => chop (chop l ++ breakStart (diskBlock source))) ++
            ((proposedBody.splitOn '\n').map chop ++ [[]]) := by
  have hline := chop_line (stampOf source)
  refine ⟨q.cut.first :: ((place q.block).1 ++
    (originFrontmatterLine (stampOf source) ++ breakStart (diskBlock source)) ::
      ((place q.block).2 ++ q.rest)), ?_, ?_⟩
  · simp only [List.map_cons, List.map_append]
    rw [breakStart_self hline, hline]
  · have hstamped : stampedLines (diskBlock source) (stampOf source) =
        (q.cut.first :: ((place q.block).1 ++
          (originFrontmatterLine (stampOf source) ++ breakStart (diskBlock source)) ::
            ((place q.block).2 ++ q.rest))) ++ [[]] := by
      rw [stampedLines, stamped, q.found, Parts.rest]
      simp
    have hlines := splitOn_upsert (diskBlock source) (stampOf source)
    rw [hstamped, mapInit_concat] at hlines
    have hlast : (upsertOriginFrontmatter (diskBlock source) (stampOf source)).getLast? =
        some '\n' := getLast?_of_splitOn (by simp) hlines
    obtain ⟨ls, -, hls, happend⟩ := splitOn_of_getLast? hlast
    rw [hlines] at hls
    rw [splitOn_unix, happend, ← List.append_cancel_right hls, splitOn_body, ← List.append_assoc,
      mapInit_concat, List.map_append, List.map_map, List.append_assoc]
    rfl

theorem plain_of_applied {source proposedBody : Text} (hblock : diskBlock source ≠ [])
    (h : Applied source proposedBody) (q : Parts source) :
    (∀ l ∈ keptLines (diskBlock source), l.getLast? ≠ some '\r') ∧
      ∀ l ∈ proposedBody.splitOn '\n', l.getLast? ≠ some '\r' := by
  obtain ⟨lines, hmap, hunix⟩ := content_unix_lines q proposedBody
  have hrestamped := q.restamped_eq
  have hlast : (joinLines (restamped source)).getLast? = some '\n' := by
    rw [hrestamped, joinLines, intercalate_concat_nil '\n' (List.cons_ne_nil _ _)]
    exact List.getLast?_concat
  obtain ⟨ls, -, hls, happend⟩ := splitOn_of_getLast? hlast
  rw [splitOn_restamped, hrestamped] at hls
  rw [applied_lines hblock h, happend, splitOn_body, ← List.append_cancel_right hls, hmap] at hunix
  obtain ⟨hkept, hbody⟩ := List.append_inj hunix (by rw [List.length_map])
  have hbody := List.append_cancel_right hbody
  constructor
  · intro l hl
    rw [q.kept_eq] at hl
    simp only [List.mem_cons, List.mem_append, List.not_mem_nil, or_false] at hl
    have hplain := fun l hl => rechop_eq (eq_of_map_eq hkept.symm (l := l) hl)
    simp only [List.mem_cons, List.mem_append] at hplain
    rcases hl with hl | hl | hl | hl | rfl
    · exact hplain l (.inl hl)
    · exact hplain l (.inr (.inl hl))
    · exact hplain l (.inr (.inr (.inr (.inl hl))))
    · exact hplain l (.inr (.inr (.inr (.inr hl))))
    · simp
  · exact fun l hl => chop_eq_self_iff.1 (eq_of_map_eq hbody.symm hl)

theorem appliable_of_applied {source proposedBody : Text} (hblock : diskBlock source ≠ [])
    (hfirst : ∀ l, (proposedBody.splitOn '\n').head? = some l → isBlank l = false)
    (h : Applied source proposedBody) : Appliable source proposedBody := by
  have hfound := found_of_applied hblock h
  have hends := ends_of_applied h hfound
  obtain ⟨q⟩ := exists_parts hblock hends hfound
  obtain ⟨hplain, hbody⟩ := plain_of_applied hblock h q
  refine ⟨hends, hfound, hplain, ?_, hbody⟩
  have hread := h.2
  rw [q.read_content hplain hfirst hblock hbody, readKey_block] at hread
  rw [q.linesAhead_disk hplain]
  intro rest hkey
  rw [hread rest hkey]
  rfl

/-- An applied update keeps the block, takes the body and reads back its origin on exactly the
    blocks and bodies described by `Appliable`. -/
theorem appliedContent_exact (source proposedBody : Text) (hblock : diskBlock source ≠ [])
    (hfirst : ∀ l, (proposedBody.splitOn '\n').head? = some l → isBlank l = false) :
    Applied source proposedBody ↔ Appliable source proposedBody :=
  ⟨appliable_of_applied hblock hfirst, applied_of_appliable hblock hfirst⟩

/-- A file of one key and a line of body. -/
def titled : Text :=
  joinLines [dashes, ['t', 'i', 't', 'l', 'e', ':', ' ', 'x'], dashes, [], ['O', 'l', 'd'], []]

theorem appliedContent_exact_titled :
    Applied titled ['N', 'e', 'w'] ↔ Appliable titled ['N', 'e', 'w'] := by
  apply appliedContent_exact
  · decide +kernel
  · intro l hl
    cases hl
    decide +kernel

/-- The block alone, without a break after its closing fence. -/
def unended : Text := joinLines [dashes, ['t', 'i', 't', 'l', 'e', ':', ' ', 'x'], dashes]

/-- A fence that only the cut recognises. -/
def wideFence : Text :=
  joinLines [dashes ++ [' '], ['t', 'i', 't', 'l', 'e', ':', ' ', 'x'], dashes, []]

theorem appliedContent_glued :
    (diskBlock unended ≠ [] ∧
        (splitFrontmatter (appliedContent unended ['N', 'e', 'w'])).2 ≠ ['N', 'e', 'w', '\n']) ∧
      diskBlock wideFence ≠ [] ∧
        (splitFrontmatter (appliedContent wideFence ['N', 'e', 'w'])).2 ≠ ['N', 'e', 'w', '\n'] := by
  decide +kernel

end Lares.Notion
