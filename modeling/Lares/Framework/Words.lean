import Lares.Framework.Lines
import Mathlib

/-! # The words of a text

    A text is reduced to its words: characters that no word holds become
    blanks, runs of blanks become one, and the blanks around go.

    * `words` of `words` is `words`.
    * A form that is closed under parts and is not disturbed by a blank, such
      as a Unicode normal form, is kept by `words`.
-/

namespace Words

open Lines

variable (kept : Char → Bool)

/-! ## Section 1: Definitions -/

/-- Other characters become blanks. -/
def blankOthers (s : List Char) : List Char := s.map fun c => if kept c || isSpace c then c else ' '

/-- Every run of blanks becomes one; `inside` says that a run has begun. -/
def collapse (inside : Bool) : List Char → List Char
  | [] => []
  | c :: s =>
    if isSpace c then if inside then collapse true s else ' ' :: collapse true s
    else c :: collapse false s

def words (s : List Char) : List Char := trim (collapse false (blankOthers kept s))

/-! ## Section 2: Trimming -/

theorem isPrefix_trimEnd (s : List Char) : trimEnd s <+: s := List.rdropWhile_prefix _ s

theorem isSuffix_trimStart (s : List Char) : trimStart s <:+ s := List.dropWhile_suffix _

theorem isInfix_trim (s : List Char) : trim s <:+: s :=
  (isPrefix_trimEnd _).isInfix.trans (isSuffix_trimStart s).isInfix

theorem mem_trim {s : List Char} {c : Char} (hc : isSpace c = false) : c ∈ trim s ↔ c ∈ s := by
  have hstart : ∀ s : List Char, c ∈ s → c ∈ trimStart s := by
    intro s hs
    rw [← List.takeWhile_append_dropWhile (p := isSpace) (l := s), List.mem_append] at hs
    rcases hs with htaken | hleft
    · rw [List.mem_takeWhile_imp htaken] at hc
      simp at hc
    · exact hleft
  constructor
  · intro h
    exact (isInfix_trim s).subset h
  · intro h
    have hreverse := hstart _ (List.mem_reverse.2 (hstart s h))
    exact List.mem_reverse.2 hreverse

/-- Trimming loses blanks only. -/
theorem filter_trim {p : Char → Bool} (hp : ∀ c, p c = true → isSpace c = false) (s : List Char) :
    (trim s).filter p = s.filter p := by
  have hstart : ∀ s : List Char, (s.dropWhile isSpace).filter p = s.filter p := by
    intro s
    have hnone : (s.takeWhile isSpace).filter p = [] := by
      rw [List.filter_eq_nil_iff]
      intro c hc hpc
      have hspace := List.mem_takeWhile_imp hc
      rw [hp c hpc] at hspace
      simp at hspace
    rw [← List.takeWhile_append_dropWhile (p := isSpace) (l := s), List.filter_append, hnone,
      List.nil_append, List.takeWhile_append_dropWhile]
  rw [trim, trimEnd, List.rdropWhile, List.filter_reverse, hstart, List.filter_reverse,
    List.reverse_reverse, trimStart, hstart]

theorem trim_trim (s : List Char) : trim (trim s) = trim s := by
  have hstart : trimStart (trim s) = trim s := by
    refine List.dropWhile_eq_self_iff.2 fun hpos => ?_
    -- what the end loses leaves the first character
    have hpos' : 0 < (trimStart s).length :=
      Nat.lt_of_lt_of_le hpos (isPrefix_trimEnd (trimStart s)).length_le
    have hhead : (trim s)[0] = (trimStart s)[0] :=
      (isPrefix_trimEnd (trimStart s)).getElem hpos
    rw [hhead]
    exact List.dropWhile_get_zero_not isSpace s hpos'
  rw [trim, hstart]
  exact List.rdropWhile_idempotent _ _

/-! ## Section 3: Single blanks -/

/-- Blanks are plain, and no two of them are together. -/
def Single (s : List Char) : Prop :=
  s.IsChain (fun a b => ¬(isSpace a = true ∧ isSpace b = true)) ∧ ∀ c ∈ s, isSpace c = true → c = ' '

theorem Single.isInfix {s t : List Char} (h : Single s) (hinside : t <:+: s) : Single t := by
  have hchain := List.IsChain.infix h.1 hinside
  exact ⟨hchain, fun c hc => h.2 c (hinside.subset hc)⟩

theorem Single.cons {c : Char} {s : List Char} (h : Single s) (hc : isSpace c = true → c = ' ')
    (hnext : isSpace c = true → ∀ d ∈ s.head?, isSpace d = false) : Single (c :: s) := by
  refine ⟨?_, ?_⟩
  · cases s with
    | nil => exact List.isChain_singleton c
    | cons d s =>
      refine List.isChain_cons_cons.2 ⟨?_, h.1⟩
      rintro ⟨hspace, hspace'⟩
      have := hnext hspace d rfl
      rw [hspace'] at this
      simp at this
  · intro d hd
    rcases List.mem_cons.1 hd with rfl | hd
    · exact hc
    · exact h.2 d hd

/-- A collapsed text has single blanks, and none in front where a run has begun. -/
theorem single_collapse (inside : Bool) (s : List Char) :
    Single (collapse inside s) ∧
      (inside = true → ∀ d ∈ (collapse inside s).head?, isSpace d = false) := by
  induction s generalizing inside with
  | nil => exact ⟨⟨List.isChain_nil, by simp [collapse]⟩, by simp [collapse]⟩
  | cons c s ih =>
    unfold collapse
    by_cases hc : isSpace c = true
    · rw [if_pos hc]
      cases inside with
      | true => exact ih true
      | false =>
        refine ⟨(ih true).1.cons (fun _ => rfl) fun _ => (ih true).2 rfl, ?_⟩
        intro h
        simp at h
    · rw [if_neg hc]
      refine ⟨(ih false).1.cons (fun h => absurd h hc) fun h => absurd h hc, ?_⟩
      intro _ d hd
      rw [← Option.some.inj (Option.mem_def.1 hd)]
      exact Bool.eq_false_iff.2 hc

/-- Single blanks are left as they are. -/
theorem collapse_single {s : List Char} (inside : Bool) (h : Single s)
    (hfirst : inside = true → ∀ d ∈ s.head?, isSpace d = false) : collapse inside s = s := by
  induction s generalizing inside with
  | nil => rfl
  | cons c s ih =>
    have hrest : Single s := h.isInfix (List.suffix_cons c s).isInfix
    unfold collapse
    by_cases hc : isSpace c = true
    · have hinside : inside = false := by
        rw [Bool.eq_false_iff]
        intro hinside
        have := hfirst hinside c rfl
        rw [hc] at this
        simp at this
      rw [if_pos hc, hinside, if_neg (by simp), h.2 c List.mem_cons_self hc, ih true hrest]
      intro _ d hd
      cases s with
      | nil => simp at hd
      | cons e s =>
        rw [← Option.some.inj (Option.mem_def.1 hd)]
        have hpair := (List.isChain_cons_cons.1 h.1).1
        exact Bool.eq_false_iff.2 fun he => hpair ⟨hc, he⟩
    · rw [if_neg hc, ih false hrest (by simp)]

/-! ## Section 4: Words -/

variable {kept}

theorem mem_collapse {c : Char} (hc : isSpace c = false) (inside : Bool) (s : List Char) :
    c ∈ collapse inside s ↔ c ∈ s := by
  have hne : c ≠ ' ' := by
    rintro rfl
    revert hc
    decide
  induction s generalizing inside with
  | nil => simp [collapse]
  | cons d s ih =>
    unfold collapse
    by_cases hd : isSpace d = true
    · have hcd : c ≠ d := by
        rintro rfl
        rw [hd] at hc
        simp at hc
      cases inside <;> simp [hd, hcd, hne, ih]
    · simp [hd, ih]

/-- Words keep what they are made of. -/
theorem mem_words {s : List Char} {c : Char} (hc : isSpace c = false) :
    c ∈ words kept s ↔ c ∈ s ∧ kept c = true := by
  have hne : c ≠ ' ' := by
    rintro rfl
    revert hc
    decide
  rw [words, mem_trim hc, mem_collapse hc, blankOthers, List.mem_map]
  constructor
  · rintro ⟨d, hd, heq⟩
    by_cases hkept : (kept d || isSpace d) = true
    · rw [if_pos hkept] at heq
      subst heq
      rw [hc, Bool.or_false] at hkept
      exact ⟨hd, hkept⟩
    · rw [if_neg hkept] at heq
      exact absurd heq.symm hne
  · rintro ⟨hs, hkept⟩
    exact ⟨c, hs, by simp [hkept]⟩

theorem single_words (s : List Char) : Single (words kept s) :=
  (single_collapse false _).1.isInfix (isInfix_trim _)

theorem words_words (s : List Char) : words kept (words kept s) = words kept s := by
  have hblank : blankOthers kept (words kept s) = words kept s := by
    unfold blankOthers
    refine (List.map_congr_left fun c hc => ?_).trans (List.map_id _)
    by_cases hspace : isSpace c = true
    · simp [hspace]
    · have hkept := ((mem_words (Bool.eq_false_iff.2 hspace)).1 hc).2
      simp [hkept]
  rw [words, hblank, collapse_single false (single_words s) (by simp)]
  exact trim_trim _

section Forms

/-- A form of texts whose parts have it too, and that a blank between does not disturb. -/
structure Form (form : List Char → List Char) : Prop where
  left : ∀ a b, form (a ++ b) = a ++ b → form a = a
  right : ∀ a b, form (a ++ b) = a ++ b → form b = b
  blank : ∀ a b, form (a ++ ' ' :: b) = form a ++ ' ' :: form b

variable {form : List Char → List Char}

theorem Form.isInfix (hform : Form form) {s t : List Char} (h : form s = s) (hinside : t <:+: s) :
    form t = t := by
  obtain ⟨before, after, rfl⟩ := hinside
  exact hform.right _ _ (hform.left _ _ h)

/-- Collapsing keeps the form, after what stands before (`p`) and within a run. -/
theorem Form.collapse (hform : Form form) (hkept : ∀ c, kept c = true → isSpace c = false)
    (s : List Char) :
    (∀ p, form (p ++ s) = p ++ s →
      form (p ++ collapse false (blankOthers kept s)) = p ++ collapse false (blankOthers kept s)) ∧
    (form s = s →
      form (collapse true (blankOthers kept s)) = collapse true (blankOthers kept s)) := by
  induction s with
  | nil =>
    refine ⟨fun p h => ?_, fun h => h⟩
    exact h
  | cons c s ih =>
    by_cases hc : kept c = true
    · have hspace := hkept c hc
      have hinside : ∀ inside, Words.collapse inside (blankOthers kept (c :: s)) =
          c :: Words.collapse false (blankOthers kept s) := by
        intro inside
        simp [blankOthers, Words.collapse, hc, hspace]
      rw [hinside, hinside]
      refine ⟨fun p h => ?_, fun h => ?_⟩
      · have hnext := ih.1 (p ++ [c]) (by simpa using h)
        simpa using hnext
      · exact ih.1 [c] h
    · -- whatever it is, a blank stands in its place
      have hother : ∃ d, isSpace d = true ∧
          blankOthers kept (c :: s) = d :: blankOthers kept s := by
        by_cases hspace : isSpace c = true
        · exact ⟨c, hspace, by simp [blankOthers, hspace]⟩
        · exact ⟨' ', by decide, by simp [blankOthers, hc, hspace]⟩
      obtain ⟨d, hd, hblank⟩ := hother
      rw [hblank]
      refine ⟨fun p h => ?_, fun h => ?_⟩
      · have hrest : form s = s := hform.right [c] s (hform.right p (c :: s) h)
        have hp : form p = p := hform.left p (c :: s) h
        simp only [Words.collapse, hd, if_true, Bool.false_eq_true, if_false]
        rw [hform.blank, hp, ih.2 hrest]
      · simp only [Words.collapse, hd, if_true]
        exact ih.2 (hform.right [c] s h)

theorem Form.words (hform : Form form) (hkept : ∀ c, kept c = true → isSpace c = false)
    {s : List Char} (h : form s = s) : form (words kept s) = words kept s :=
  hform.isInfix ((hform.collapse hkept s).1 [] h) (isInfix_trim _)

end Forms

end Words
