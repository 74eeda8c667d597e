import Mathlib

/-! # Bounded reading

    A long text is read a page at a time: `boundText` cuts a page out of it and
    says where the next one starts.

    * **Offsets** count UTF-16 code units, as JavaScript strings do.
    * **Pairs**: a page neither starts nor ends inside a surrogate pair.
    * **Pages**: from offset 0 on, the pages are the text.
-/

namespace Lares.Reading

/-! ## Section 1: Code units -/

abbrev CodeUnits := List UInt16

def isHighSurrogate (code : UInt16) : Bool := 0xd800 ≤ code && code ≤ 0xdbff

def isLowSurrogate (code : UInt16) : Bool := 0xdc00 ≤ code && code ≤ 0xdfff

/-- `charCodeAt`, under a test that `NaN` fails -/
def charIs (test : UInt16 → Bool) (text : CodeUnits) (i : Nat) : Bool := text[i]?.any test

/-- `text.slice(start, stop)` -/
def slice (text : CodeUnits) (start stop : Nat) : CodeUnits := (text.take stop).drop start

/-- Every high surrogate is followed by a low one, and every low one follows a high one. -/
structure Paired (text : CodeUnits) : Prop where
  high : ∀ i, charIs isHighSurrogate text i → charIs isLowSurrogate text (i + 1)
  low : ∀ i, charIs isLowSurrogate text i → ∃ j, i = j + 1 ∧ charIs isHighSurrogate text j

/-- The offset is not between the two halves of a pair. -/
def Whole (text : CodeUnits) (offset : Nat) : Prop :=
  ¬(0 < offset ∧ charIs isHighSurrogate text (offset - 1) ∧ charIs isLowSurrogate text offset)

/-! ## Section 2: One page -/

structure BoundedText where
  text : CodeUnits
  truncated : Bool
  totalChars : Nat
  nextOffset : Option Nat
  note : Option String

/-- Step back if the offset lands inside a pair. -/
def pageStart (text : CodeUnits) (offset : Nat) : Nat :=
  if 0 < offset ∧ charIs isLowSurrogate text offset ∧ charIs isHighSurrogate text (offset - 1) then
    offset - 1
  else offset

/-- Drop half a pair, unless that leaves nothing. -/
def pageEnd (text : CodeUnits) (start limit : Nat) : Nat :=
  let stop := min (start + limit) text.length
  if stop < text.length ∧ charIs isHighSurrogate text (stop - 1) then
    if stop - 1 > start then stop - 1 else min (stop + 1) text.length
  else stop

/-- The page at an offset, once the arguments are checked -/
def pageAt (text : CodeUnits) (limit offset : Nat) : BoundedText :=
  let totalChars := text.length
  if offset ≥ totalChars then
    { text := []
      truncated := false
      totalChars
      nextOffset := none
      note :=
        if offset > totalChars then
          some s!"Offset {offset} is past the end; the text is {totalChars} characters long."
        else none }
  else
    let start := pageStart text offset
    let stop := pageEnd text start limit
    let page := slice text start stop
    if stop ≥ totalChars then
      { text := page, truncated := false, totalChars, nextOffset := none, note := none }
    else
      let remaining := totalChars - stop
      { text := page
        truncated := true
        totalChars
        nextOffset := some stop
        note := some (s!"Showing characters {start}-{stop} of {totalChars}; {remaining} " ++
          s!"characters remain. Call again with offset={stop} to continue.") }

/-- The error is the `RangeError`. -/
def boundText (text : CodeUnits) (limit offset : Int) : Except String BoundedText :=
  if limit ≤ 0 then .error s!"limit must be a positive integer, got {limit}"
  else if offset < 0 then .error s!"offset must be a non-negative integer, got {offset}"
  else .ok (pageAt text limit.toNat offset.toNat)

/-! ## Section 3: All pages -/

/-- Read from `offset` on, and follow `nextOffset`. The `k`-th read has the limit `limits k`; each
    page comes with the offset that it was read at. -/
def readPages (text : CodeUnits) (limits : Nat → Int) :
    Nat → Nat → Nat → Option (List (Nat × BoundedText))
  | 0, _, _ => none
  | fuel + 1, k, offset =>
    match boundText text (limits k) offset with
    | .error _ => none
    | .ok page =>
      match page.nextOffset with
      | none => some [(offset, page)]
      | some next => (readPages text limits fuel (k + 1) next).map ((offset, page) :: ·)

/-- A page is the text between two whole offsets, and the next one starts further on. -/
structure PageOk (text : CodeUnits) (offset : Nat) (page : BoundedText) : Prop where
  starts : Whole text offset
  advances : ∀ next, page.nextOffset = some next → offset < next
  ends : ∃ stop, Whole text stop ∧ page.text = slice text offset stop ∧
    (page.nextOffset = some stop ∨ page.nextOffset = none ∧ text.length ≤ stop)

variable {text : CodeUnits}

theorem high_not_low (code : UInt16) (h : isHighSurrogate code) : isLowSurrogate code = false := by
  simp only [isHighSurrogate, isLowSurrogate, Bool.and_eq_true, decide_eq_true_eq,
    UInt16.le_iff_toNat_le] at h ⊢
  simp only [Bool.and_eq_false_iff, decide_eq_false_iff_not]
  left
  have hle : code.toNat ≤ 0xdbff := h.2
  show ¬0xdc00 ≤ code.toNat
  omega

theorem charIs_lt {test : UInt16 → Bool} {i : Nat} (h : charIs test text i) : i < text.length := by
  by_contra hge
  rw [charIs, List.getElem?_eq_none (by omega)] at h
  simp at h

theorem charIs_high_not_low {i : Nat} (h : charIs isHighSurrogate text i) :
    charIs isLowSurrogate text i = false := by
  have hlt := charIs_lt h
  simp only [charIs, List.getElem?_eq_getElem hlt, Option.any_some] at h ⊢
  exact high_not_low _ h

theorem whole_zero : Whole text 0 := by
  intro h
  omega

/-- From a whole offset the start does not step back. -/
theorem pageStart_of_whole {offset : Nat} (h : Whole text offset) : pageStart text offset = offset := by
  unfold pageStart
  rw [if_neg]
  intro hsplit
  exact h ⟨hsplit.1, hsplit.2.2, hsplit.2.1⟩

/-- The end is whole and further on, whatever the limit. -/
theorem pageEnd_spec (hpaired : Paired text) {start limit : Nat}
    (hlt : start < text.length) (hlimit : 0 < limit) :
    start < pageEnd text start limit ∧ pageEnd text start limit ≤ text.length ∧
      Whole text (pageEnd text start limit) := by
  unfold pageEnd
  dsimp only
  generalize hstop : min (start + limit) text.length = stop
  by_cases hhalf : stop < text.length ∧ charIs isHighSurrogate text (stop - 1)
  · rw [if_pos hhalf]
    by_cases hroom : stop - 1 > start
    · rw [if_pos hroom]
      refine ⟨hroom, by omega, ?_⟩
      -- before a high surrogate there is no pair to cut
      intro hsplit
      rw [charIs_high_not_low hhalf.2] at hsplit
      simp at hsplit
    · rw [if_neg hroom]
      refine ⟨by omega, by omega, ?_⟩
      have hnext : stop - 1 + 1 = stop := by omega
      have hlow := hpaired.high (stop - 1) hhalf.2
      rw [hnext] at hlow
      have hmin : min (stop + 1) text.length = stop + 1 := by omega
      rw [hmin]
      -- the page ends after the low half of the pair
      intro hsplit
      have hhigh := hsplit.2.1
      rw [Nat.add_sub_cancel] at hhigh
      rw [charIs_high_not_low hhigh] at hlow
      simp at hlow
  · rw [if_neg hhalf]
    refine ⟨by omega, by omega, ?_⟩
    intro hsplit
    have hinside := charIs_lt hsplit.2.2
    exact hhalf ⟨hinside, hsplit.2.1⟩

theorem slice_append {a b c : Nat} (hab : a ≤ b) (hbc : b ≤ c) :
    slice text a b ++ slice text b c = slice text a c := by
  unfold slice
  rw [List.drop_take, List.drop_take, List.drop_take]
  have hdrop : text.drop b = (text.drop a).drop (b - a) := by
    rw [List.drop_drop]
    congr 1
    omega
  have hsum : c - a = (b - a) + (c - b) := by omega
  rw [hdrop, hsum, List.take_add]

/-- One page, read at a whole offset. -/
theorem pageAt_spec (hpaired : Paired text) {offset limit : Nat} (hwhole : Whole text offset)
    (hlimit : 0 < limit) :
    PageOk text offset (pageAt text limit offset) ∧
      ∀ next, (pageAt text limit offset).nextOffset = some next → next < text.length := by
  unfold pageAt
  dsimp only
  by_cases hpast : offset ≥ text.length
  · rw [if_pos hpast]
    refine ⟨⟨hwhole, by simp, offset, hwhole, ?_, .inr ⟨rfl, hpast⟩⟩, by simp⟩
    simp [slice]
  · rw [if_neg hpast, pageStart_of_whole hwhole]
    have hlt : offset < text.length := by omega
    obtain ⟨hafter, hinside, hstop⟩ := pageEnd_spec hpaired hlt hlimit
    generalize pageEnd text offset limit = stop at hafter hinside hstop
    by_cases hlast : stop ≥ text.length
    · rw [if_pos hlast]
      exact ⟨⟨hwhole, by simp, stop, hstop, rfl, .inr ⟨rfl, hlast⟩⟩, by simp⟩
    · rw [if_neg hlast]
      refine ⟨⟨hwhole, ?_, stop, hstop, rfl, .inl rfl⟩, ?_⟩
      · intro next hnext
        simp only [Option.some.injEq] at hnext
        omega
      · intro next hnext
        simp only [Option.some.injEq] at hnext
        omega

theorem boundText_ok {limit : Int} (h : 0 < limit) (offset : Nat) :
    boundText text limit offset = .ok (pageAt text limit.toNat offset) := by
  unfold boundText
  rw [if_neg (by omega), if_neg (by omega), Int.toNat_natCast]

/-- The pages from a whole offset on are the rest of the text. -/
theorem readPages_spec (hpaired : Paired text) {limits : Nat → Int} (hlimits : ∀ k, 0 < limits k)
    (fuel : Nat) : ∀ k offset, Whole text offset → text.length - offset < fuel →
      ∃ pages, readPages text limits fuel k offset = some pages ∧
        (∀ read ∈ pages, PageOk text read.1 read.2) ∧
        (pages.map (·.2.text)).flatten = text.drop offset := by
  -- the fuel bounds what is left to read
  induction fuel with
  | zero =>
    intro k offset _ hfuel
    omega
  | succ fuel ih =>
    intro k offset hwhole hfuel
    have hlimit : 0 < (limits k).toNat := by
      have hpos := hlimits k
      omega
    obtain ⟨hpage, hinside⟩ := pageAt_spec hpaired hwhole hlimit
    rw [readPages, boundText_ok (hlimits k)]
    generalize pageAt text (limits k).toNat offset = page at hpage hinside
    dsimp only
    obtain ⟨stop, hstop, htext, hnext | ⟨hnext, hlast⟩⟩ := hpage.ends
    · rw [hnext]
      have hafter := hpage.advances stop hnext
      have hlt := hinside stop hnext
      obtain ⟨pages, hread, hall, hflat⟩ := ih (k + 1) stop hstop (by omega)
      refine ⟨(offset, page) :: pages, by simp [hread], ?_, ?_⟩
      · intro read hmem
        rcases List.mem_cons.1 hmem with rfl | hmem
        · exact hpage
        · exact hall read hmem
      · rw [List.map_cons, List.flatten_cons, hflat, htext]
        have hrest : ∀ a, slice text a text.length = text.drop a := fun a => by simp [slice]
        rw [← hrest, ← hrest]
        exact slice_append (by omega) (by omega)
    · rw [hnext]
      refine ⟨[(offset, page)], rfl, ?_, ?_⟩
      · intro read hmem
        rw [List.mem_singleton.1 hmem]
        exact hpage
      · simp [htext, slice, List.take_of_length_le hlast]

/-- More fuel changes nothing. -/
theorem readPages_mono {limits : Nat → Int} {fuel more : Nat} (h : fuel ≤ more) :
    ∀ {k offset pages}, readPages text limits fuel k offset = some pages →
      readPages text limits more k offset = some pages := by
  induction fuel generalizing more with
  | zero =>
    intro k offset pages hread
    simp [readPages] at hread
  | succ fuel ih =>
    intro k offset pages hread
    obtain ⟨more, rfl⟩ : ∃ m, more = m + 1 := ⟨more - 1, by omega⟩
    rw [readPages] at hread ⊢
    split at hread
    · simp at hread
    · split at hread
      · exact hread
      · next next _ =>
        obtain ⟨rest, hrest, rfl⟩ := Option.map_eq_some_iff.1 hread
        rw [ih (by omega) hrest]
        rfl

/-- **Paged reading**: from offset 0, with any positive limits, the reading ends; every page is the
    text between two whole offsets and advances; and the pages together are the text. -/
theorem readPages_all (hpaired : Paired text) (limits : Nat → Int) (hlimits : ∀ k, 0 < limits k) :
    ∃ pages, (∀ fuel, text.length < fuel → readPages text limits fuel 0 0 = some pages) ∧
      (∀ read ∈ pages, PageOk text read.1 read.2) ∧
      (pages.map (·.2.text)).flatten = text := by
  obtain ⟨pages, hread, hall, hflat⟩ :=
    readPages_spec hpaired hlimits (text.length + 1) 0 0 whole_zero (by omega)
  refine ⟨pages, ?_, hall, by simpa using hflat⟩
  intro fuel hfuel
  exact readPages_mono (by omega) hread

/-- A letter, a pair and a letter. -/
def smile : CodeUnits := [0x61, 0xd83d, 0xde00, 0x62]

theorem paired_smile : Paired smile where
  high := by
    intro i h
    have hlt : i < 4 := charIs_lt h
    interval_cases i <;> revert h <;> decide
  low := by
    intro i h
    have hlt : i < 4 := charIs_lt h
    have hpair : i = 2 := by
      interval_cases i <;> revert h <;> decide
    exact ⟨1, hpair, by decide⟩

/-- With a limit of 1 the pair is still one page. -/
theorem readPages_all_smile :
    (∃ pages, (∀ fuel, 4 < fuel → readPages smile (fun _ => 1) fuel 0 0 = some pages) ∧
      (∀ read ∈ pages, PageOk smile read.1 read.2) ∧ (pages.map (·.2.text)).flatten = smile) ∧
    (readPages smile (fun _ => 1) 5 0 0).map (·.map (·.2.text)) =
      some [[0x61], [0xd83d, 0xde00], [0x62]] := by
  refine ⟨readPages_all paired_smile (fun _ => 1) ?_, by decide +kernel⟩
  intro _
  decide

end Lares.Reading
