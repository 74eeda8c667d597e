import Mathlib.Algebra.GroupWithZero.Nat
import Mathlib.Data.List.DropRight
import Mathlib.Data.List.Infix
import Mathlib.Tactic.Common

/-! # Lines

    A text is cut into lines at one character and put together again
    (`List.splitOn` and `List.intercalate`).

    * **Lines**: what appending texts does to their lines.
    * **First occurrence** of a break and what follows it.
    * **Line breaks** of two characters.
    * **Lengths and white space** as JavaScript has them.
-/

namespace Lines

variable {α : Type*} [DecidableEq α]

/-! ## Section 1: Joining lines -/

omit [DecidableEq α] in
theorem intercalate_append (sep : List α) {a b : List (List α)} (ha : a ≠ []) (hb : b ≠ []) :
    sep.intercalate (a ++ b) = sep.intercalate a ++ sep ++ sep.intercalate b := by
  induction a with
  | nil => exact absurd rfl ha
  | cons l a ih =>
    by_cases hnil : a = []
    · subst hnil
      rw [List.singleton_append, List.intercalate_cons_of_ne_nil hb, List.intercalate_singleton]
    · rw [List.cons_append, List.intercalate_cons_of_ne_nil (by simp [hnil]), ih hnil,
        List.intercalate_cons_of_ne_nil hnil]
      simp only [List.append_assoc]

omit [DecidableEq α] in
theorem mem_of_mem_intercalate {sep : List α} {ls : List (List α)} {x : α}
    (h : x ∈ sep.intercalate ls) : x ∈ sep ∨ ∃ l ∈ ls, x ∈ l := by
  induction ls with
  | nil => cases h
  | cons l ls ih =>
    by_cases hnil : ls = []
    · rw [hnil, List.intercalate_singleton] at h
      exact .inr ⟨l, List.mem_cons_self, h⟩
    · rw [List.intercalate_cons_of_ne_nil hnil, List.mem_append, List.mem_append] at h
      rcases h with (h | h) | h
      · exact .inr ⟨l, List.mem_cons_self, h⟩
      · exact .inl h
      · exact (ih h).imp_right fun ⟨m, hm, hx⟩ => ⟨m, List.mem_cons_of_mem l hm, hx⟩

omit [DecidableEq α] in
theorem subset_intercalate (sep : List α) {l : List α} {ls : List (List α)} (h : l ∈ ls) :
    l ⊆ sep.intercalate ls := by
  obtain ⟨a, b, rfl⟩ := List.append_of_mem h
  have htail : l ⊆ sep.intercalate (l :: b) := by
    by_cases hnil : b = []
    · rw [hnil, List.intercalate_singleton]
      exact List.Subset.refl l
    · rw [List.intercalate_cons_of_ne_nil hnil, List.append_assoc]
      exact List.subset_append_left l _
  by_cases hnil : a = []
  · rw [hnil]
    exact htail
  · rw [intercalate_append sep hnil (List.cons_ne_nil l b)]
    exact List.Subset.trans htail (List.subset_append_right _ _)

/-- A break ends a line. -/
theorem splitOn_append_break (brk : α) (s t : List α) :
    (s ++ brk :: t).splitOn brk = s.splitOn brk ++ t.splitOn brk :=
  List.splitOn_append_cons_self s t

theorem splitOn_cons_of_ne {brk c : α} (h : c ≠ brk) (s : List α) :
    (c :: s).splitOn brk = (s.splitOn brk).modifyHead (c :: ·) := by
  rw [List.splitOn_cons_eq_if_modifyHead, if_neg]
  simpa using h

theorem splitOn_break (brk : α) (s : List α) : (brk :: s).splitOn brk = [] :: s.splitOn brk := by
  rw [List.splitOn_cons_eq_if_modifyHead, if_pos]
  simp

theorem not_mem_of_mem_splitOn {brk : α} {s line : List α} (h : line ∈ s.splitOn brk) :
    brk ∉ line := by
  induction s generalizing line with
  | nil =>
    rw [List.splitOn_nil, List.mem_singleton] at h
    simp [h]
  | cons c s ih =>
    by_cases hc : c = brk
    · subst hc
      rw [splitOn_break, List.mem_cons] at h
      rcases h with rfl | h
      · simp
      · exact ih h
    · rw [splitOn_cons_of_ne hc] at h
      obtain ⟨first, rest, hsplit⟩ := List.exists_cons_of_ne_nil (List.splitOn_ne_nil brk s)
      rw [hsplit, List.modifyHead_cons, List.mem_cons] at h
      rcases h with rfl | h
      · rw [List.mem_cons, not_or]
        exact ⟨Ne.symm hc, ih (hsplit ▸ List.mem_cons_self)⟩
      · exact ih (hsplit ▸ List.mem_cons_of_mem _ h)

theorem subset_of_mem_splitOn {brk : α} {s line : List α} (h : line ∈ s.splitOn brk) :
    line ⊆ s := by
  have hsubset := subset_intercalate [brk] h
  rwa [List.intercalate_splitOn] at hsubset

omit [DecidableEq α] in
theorem intercalate_concat_nil (brk : α) {ls : List (List α)} (h : ls ≠ []) :
    [brk].intercalate (ls ++ [[]]) = [brk].intercalate ls ++ [brk] := by
  rw [intercalate_append _ h (List.cons_ne_nil _ []), List.intercalate_singleton, List.append_nil]

/-- A text that ends in a break, and what follows it. -/
theorem getLast?_of_splitOn {brk : α} {s : List α} {ls : List (List α)} (hne : ls ≠ [])
    (h : s.splitOn brk = ls ++ [[]]) : s.getLast? = some brk := by
  have hjoin := intercalate_concat_nil brk hne
  rw [← h, List.intercalate_splitOn] at hjoin
  rw [hjoin]
  exact List.getLast?_concat

theorem splitOn_of_getLast? {brk : α} {s : List α} (h : s.getLast? = some brk) :
    ∃ ls, ls ≠ [] ∧ s.splitOn brk = ls ++ [[]] ∧
      ∀ t, (s ++ t).splitOn brk = ls ++ t.splitOn brk := by
  obtain ⟨u, rfl⟩ := List.getLast?_eq_some_iff.1 h
  refine ⟨u.splitOn brk, List.splitOn_ne_nil _ _, ?_, fun t => ?_⟩
  · rw [splitOn_append_break, List.splitOn_nil]
  · rw [List.append_assoc, List.singleton_append, splitOn_append_break]

theorem length_splitOn (brk : α) (s : List α) : (s.splitOn brk).length = s.count brk + 1 := by
  induction s with
  | nil => rfl
  | cons c s ih =>
    by_cases hc : c = brk
    · subst hc
      rw [splitOn_break, List.length_cons, ih, List.count_cons_self]
    · rw [splitOn_cons_of_ne hc, List.length_modifyHead, ih, List.count_cons_of_ne hc]

/-! ## Section 2: The first occurrence -/

/-- What comes before the first occurrence of `pat`. -/
def before? (pat : List α) : List α → Option (List α)
  | [] => none
  | c :: s => if pat <+: c :: s then some [] else (before? pat s).map (c :: ·)

variable {brk : α} {p : List α}

omit [DecidableEq α] in
theorem prefix_append_break (hp : brk ∉ p) (l rest : List α) :
    p <+: l ++ brk :: rest ↔ p <+: l := by
  constructor
  · intro h
    rcases List.prefix_or_prefix_of_prefix h (List.prefix_append l _) with hl | ⟨q, rfl⟩
    · exact hl
    · rw [List.prefix_append_right_inj] at h
      cases q with
      | nil => exact (List.append_nil l).symm ▸ List.prefix_rfl
      | cons c q =>
        obtain ⟨rfl, -⟩ := List.cons_prefix_cons.1 h
        simp at hp
  · exact fun h => h.trans (List.prefix_append _ _)

/-- Over one line. -/
theorem before?_line {l : List α} (hl : brk ∉ l) (rest : List α) :
    before? (brk :: p) (l ++ brk :: rest) =
      if p <+: rest then some l else (before? (brk :: p) rest).map ((l ++ [brk]) ++ ·) := by
  induction l with
  | nil =>
    rw [List.nil_append, before?]
    simp only [List.cons_prefix_cons, true_and, List.nil_append, List.singleton_append]
  | cons c l ih =>
    rw [List.mem_cons, not_or] at hl
    have hc : ¬(brk :: p <+: c :: (l ++ brk :: rest)) := by
      rw [List.cons_prefix_cons]
      exact fun h => hl.1 h.1
    rw [List.cons_append, before?, if_neg hc, ih hl.2]
    split
    · rfl
    · rw [Option.map_map]
      rfl

theorem before?_last {l : List α} (hl : brk ∉ l) : before? (brk :: p) l = none := by
  induction l with
  | nil => rfl
  | cons c l ih =>
    rw [List.mem_cons, not_or] at hl
    rw [before?, if_neg, ih hl.2]
    · rfl
    · rw [List.cons_prefix_cons]
      exact fun h => hl.1 h.1

/-- The first line, from the second on, that `p` starts. -/
theorem before?_intercalate (hp : brk ∉ p) (l : List α) (ls : List (List α))
    (hl : brk ∉ l) (hls : ∀ x ∈ ls, brk ∉ x) :
    before? (brk :: p) ([brk].intercalate (l :: ls)) =
      if ls.any (p.isPrefixOf ·) then
        some ([brk].intercalate (l :: ls.takeWhile fun x => !p.isPrefixOf x))
      else none := by
  induction ls generalizing l with
  | nil =>
    rw [List.intercalate_singleton, before?_last hl]
    rfl
  | cons x ls ih =>
    have hx := hls x List.mem_cons_self
    have hrest := fun y hy => hls y (List.mem_cons_of_mem x hy)
    have hstarts : p <+: [brk].intercalate (x :: ls) ↔ p <+: x := by
      cases ls with
      | nil => rw [List.intercalate_singleton]
      | cons y ls =>
        rw [List.intercalate_cons_cons, List.append_assoc, List.singleton_append]
        exact prefix_append_break hp _ _
    rw [List.intercalate_cons_cons, List.append_assoc, List.singleton_append, before?_line hl,
      ih x hx hrest]
    by_cases hpx : p <+: x
    · have hpx' : p.isPrefixOf x = true := List.isPrefixOf_iff_prefix.2 hpx
      rw [if_pos (hstarts.2 hpx), List.any_cons, hpx', Bool.true_or, if_pos rfl,
        List.takeWhile_cons_of_neg (by simp [hpx']), List.intercalate_singleton]
    · have hpx' : p.isPrefixOf x = false := by
        rw [Bool.eq_false_iff]
        exact fun h => hpx (List.isPrefixOf_iff_prefix.1 h)
      rw [if_neg (fun h => hpx (hstarts.1 h)), List.any_cons, hpx', Bool.false_or,
        List.takeWhile_cons_of_pos (by simp [hpx'])]
      split
      · rw [Option.map_some, List.intercalate_cons_cons]
      · rfl

/-! ## Section 3: All lines but the last -/

section MapInit

variable {β γ : Type*}

/-- `f` of all entries but the last. -/
def mapInit (f : β → β) (ls : List β) : List β := ls.dropLast.map f ++ ls.getLast?.toList

@[simp] theorem mapInit_nil (f : β → β) : mapInit f [] = [] := rfl

@[simp] theorem mapInit_singleton (f : β → β) (l : β) : mapInit f [l] = [l] := rfl

theorem mapInit_cons {f : β → β} (l : β) {ls : List β} (h : ls ≠ []) :
    mapInit f (l :: ls) = f l :: mapInit f ls := by
  rw [mapInit, List.dropLast_cons_of_ne_nil h, List.getLast?_cons_of_ne_nil h, List.map_cons,
    List.cons_append, mapInit]

theorem mapInit_concat (f : β → β) (ls : List β) (l : β) :
    mapInit f (ls ++ [l]) = ls.map f ++ [l] := by
  rw [mapInit, List.dropLast_concat, List.getLast?_concat, Option.toList_some]

theorem length_mapInit (f : β → β) (ls : List β) : (mapInit f ls).length = ls.length := by
  rcases List.eq_nil_or_concat ls with rfl | ⟨init, last, rfl⟩
  · rfl
  · rw [List.concat_eq_append, mapInit_concat]
    simp

theorem mapInit_ne_nil (f : β → β) {ls : List β} (h : ls ≠ []) : mapInit f ls ≠ [] := by
  rw [← List.dropLast_append_getLast h, mapInit_concat]
  exact List.append_ne_nil_of_right_ne_nil _ (List.cons_ne_nil _ [])

theorem mapInit_append {f : β → β} (ls : List β) {ms : List β} (h : ms ≠ []) :
    mapInit f (ls ++ ms) = ls.map f ++ mapInit f ms := by
  obtain ⟨init, last, rfl⟩ : ∃ init last, ms = init ++ [last] :=
    ⟨_, _, (List.dropLast_append_getLast h).symm⟩
  rw [← List.append_assoc, mapInit_concat, mapInit_concat, List.map_append, List.append_assoc]

end MapInit

/-! ## Section 4: Line breaks of two characters -/

/-- `replace(/\r\n/g, '\n')` -/
def unix : List Char → List Char
  | [] => []
  | c :: s => if c = '\r' ∧ s.head? = some '\n' then unix s else c :: unix s

/-- `replace(/\n/g, '\r\n')` -/
def dos (s : List Char) : List Char := s.flatMap fun c => if c = '\n' then ['\r', '\n'] else [c]

/-- A line without the first character of its break. -/
def chop (l : List Char) : List Char := if l.getLast? = some '\r' then l.dropLast else l

theorem chop_concat (l : List Char) : chop (l ++ ['\r']) = l := by
  rw [chop, List.getLast?_concat, if_pos rfl, List.dropLast_concat]

theorem chop_eq_self {l : List Char} (h : l.getLast? ≠ some '\r') : chop l = l := by
  rw [chop, if_neg h]

theorem chop_eq_self_iff {l : List Char} : chop l = l ↔ l.getLast? ≠ some '\r' := by
  constructor
  · intro h hcr
    obtain ⟨m, rfl⟩ := List.getLast?_eq_some_iff.1 hcr
    rw [chop_concat] at h
    have hlen := congrArg List.length h
    simp at hlen
  · exact chop_eq_self

theorem length_chop_le (l : List Char) : (chop l).length ≤ l.length := by
  unfold chop
  split
  · rw [List.length_dropLast]
    omega
  · exact le_refl _

theorem chop_cons {c : Char} {l : List Char} (h : l = [] → c ≠ '\r') :
    chop (c :: l) = c :: chop l := by
  cases l with
  | nil =>
    have hc := h rfl
    simp [chop, hc]
  | cons d l =>
    unfold chop
    rw [List.getLast?_cons_cons]
    split
    · rw [List.dropLast_cons_of_ne_nil (List.cons_ne_nil d l)]
    · rfl

/-- Each line loses the first character of its own break. -/
theorem unix_subset (s : List Char) : unix s ⊆ s := by
  induction s with
  | nil => exact List.Subset.refl []
  | cons c s ih =>
    rw [unix]
    split
    · exact List.subset_cons_of_subset c ih
    · exact List.cons_subset_cons c ih

theorem splitOn_unix (s : List Char) :
    (unix s).splitOn '\n' = mapInit chop (s.splitOn '\n') := by
  induction s with
  | nil => rfl
  | cons c s ih =>
    have hne := List.splitOn_ne_nil '\n' s
    by_cases hbreak : c = '\n'
    · subst hbreak
      rw [unix, if_neg (by simp), splitOn_break, splitOn_break, ih, mapInit_cons _ hne]
      rfl
    rw [splitOn_cons_of_ne hbreak]
    obtain ⟨l, ls, hsplit⟩ := List.exists_cons_of_ne_nil hne
    rw [hsplit] at ih ⊢
    rw [List.modifyHead_cons, unix]
    split
    · next hcr =>
      -- the line is empty but for the break
      obtain ⟨rfl, hhead⟩ := hcr
      obtain ⟨s', rfl⟩ : ∃ s', s = '\n' :: s' := by
        cases s with
        | nil => cases hhead
        | cons d s' => exact ⟨s', by rw [Option.some.inj hhead]⟩
      rw [splitOn_break] at hsplit
      obtain ⟨rfl, rfl⟩ := List.cons.inj hsplit
      have hne' := List.splitOn_ne_nil '\n' s'
      rw [ih, mapInit_cons _ hne', mapInit_cons _ hne']
      rfl
    · next hkeep =>
      rw [splitOn_cons_of_ne hbreak, ih]
      cases ls with
      | nil => rfl
      | cons l' ls =>
        have hl : l = [] → c ≠ '\r' := by
          rintro rfl rfl
          apply hkeep
          refine ⟨rfl, ?_⟩
          cases s with
          | nil => cases hsplit
          | cons d s =>
            by_cases hd : d = '\n'
            · rw [hd]
              rfl
            · rw [splitOn_cons_of_ne hd] at hsplit
              obtain ⟨m, ms, hs⟩ := List.exists_cons_of_ne_nil (List.splitOn_ne_nil '\n' s)
              rw [hs] at hsplit
              cases hsplit
        rw [mapInit_cons _ (List.cons_ne_nil l' ls), mapInit_cons _ (List.cons_ne_nil l' ls),
          List.modifyHead_cons, chop_cons hl]

theorem splitOn_dos (s : List Char) :
    (dos s).splitOn '\n' = mapInit (· ++ ['\r']) (s.splitOn '\n') := by
  induction s with
  | nil => rfl
  | cons c s ih =>
    have hne := List.splitOn_ne_nil '\n' s
    have hcons : dos (c :: s) = (if c = '\n' then ['\r', '\n'] else [c]) ++ dos s := rfl
    by_cases hbreak : c = '\n'
    · subst hbreak
      rw [hcons, if_pos rfl, splitOn_break, mapInit_cons _ hne, ← ih]
      exact splitOn_append_break '\n' ['\r'] (dos s)
    · rw [hcons, if_neg hbreak, List.singleton_append, splitOn_cons_of_ne hbreak,
        splitOn_cons_of_ne hbreak, ih]
      obtain ⟨l, ls, hsplit⟩ := List.exists_cons_of_ne_nil hne
      rw [hsplit, List.modifyHead_cons]
      cases ls with
      | nil => rfl
      | cons l' ls =>
        rw [mapInit_cons _ (List.cons_ne_nil l' ls), mapInit_cons _ (List.cons_ne_nil l' ls),
          List.modifyHead_cons, List.cons_append]

theorem splitOn_injective (brk : α) {s t : List α} (h : s.splitOn brk = t.splitOn brk) :
    s = t := by
  have hjoin := congrArg [brk].intercalate h
  rwa [List.intercalate_splitOn, List.intercalate_splitOn] at hjoin

theorem unix_dos (s : List Char) : unix (dos s) = s := by
  apply splitOn_injective '\n'
  obtain ⟨init, last, hs⟩ : ∃ init last, s.splitOn '\n' = init ++ [last] :=
    ⟨_, _, (List.dropLast_append_getLast (List.splitOn_ne_nil _ s)).symm⟩
  rw [splitOn_unix, splitOn_dos, hs, mapInit_concat, mapInit_concat, List.map_map]
  congr 1
  conv_rhs => rw [← List.map_id init]
  apply List.map_congr_left
  intro l _
  exact chop_concat l

/-- Nothing changes where no line ends in the first character of a break. -/
theorem unix_eq_self {s : List Char}
    (h : ∀ l ∈ (s.splitOn '\n').dropLast, l.getLast? ≠ some '\r') : unix s = s := by
  apply splitOn_injective '\n'
  obtain ⟨init, last, hs⟩ : ∃ init last, s.splitOn '\n' = init ++ [last] :=
    ⟨_, _, (List.dropLast_append_getLast (List.splitOn_ne_nil _ s)).symm⟩
  rw [hs, List.dropLast_concat] at h
  rw [splitOn_unix, hs, mapInit_concat]
  congr 1
  conv_rhs => rw [← List.map_id init]
  apply List.map_congr_left
  intro l hl
  exact chop_eq_self (h l hl)

/-! ## Section 5: Characters -/

theorem lawfulText : LawfulBEq (List Char) := inferInstance

/-- `length` of a text of one character -/
def codeUnitCount (c : Char) : Nat := if c.toNat < 65536 then 1 else 2

/-- `String.prototype.length` -/
def jsLength (s : List Char) : Nat := (s.map codeUnitCount).sum

theorem codeUnitCount_pos (c : Char) : 0 < codeUnitCount c := by
  unfold codeUnitCount
  split <;> omega

/-- `[a-z0-9]` -/
def isLowerAlnum (c : Char) : Bool := 'a' ≤ c && c ≤ 'z' || '0' ≤ c && c ≤ '9'

/-- `\s`, which `trim` takes off -/
def isSpace (c : Char) : Bool :=
  9 ≤ c.toNat && c.toNat ≤ 13 || c.toNat = 32 || c.toNat = 0xa0 || c.toNat = 0x1680 ||
    0x2000 ≤ c.toNat && c.toNat ≤ 0x200a || c.toNat = 0x2028 || c.toNat = 0x2029 ||
    c.toNat = 0x202f || c.toNat = 0x205f || c.toNat = 0x3000 || c.toNat = 0xfeff

/-- What `.` does not match, and what `^` and `$` stand beside. -/
def isTerminator (c : Char) : Bool :=
  c.toNat = 10 || c.toNat = 13 || c.toNat = 0x2028 || c.toNat = 0x2029

def trimStart (s : List Char) : List Char := s.dropWhile isSpace

def trimEnd (s : List Char) : List Char := s.rdropWhile isSpace

def trim (s : List Char) : List Char := trimEnd (trimStart s)

/-- `trim() === ''` -/
def isBlank (s : List Char) : Bool := s.all isSpace

theorem trimStart_append {s : List Char} (h : isBlank s = false) (t : List Char) :
    trimStart (s ++ t) = trimStart s ++ t := by
  induction s with
  | nil => cases h
  | cons c s ih =>
    unfold trimStart
    rw [List.cons_append]
    by_cases hc : isSpace c = true
    · rw [List.dropWhile_cons_of_pos hc, List.dropWhile_cons_of_pos hc]
      apply ih
      rw [isBlank, List.all_cons, hc, Bool.true_and] at h
      exact h
    · rw [List.dropWhile_cons_of_neg hc, List.dropWhile_cons_of_neg hc, List.cons_append]

theorem trimStart_append_of_blank {s : List Char} (h : isBlank s = true) (t : List Char) :
    trimStart (s ++ t) = trimStart t := by
  induction s with
  | nil => rfl
  | cons c s ih =>
    rw [isBlank, List.all_cons, Bool.and_eq_true] at h
    unfold trimStart
    rw [List.cons_append, List.dropWhile_cons_of_pos h.1]
    exact ih h.2

theorem trimStart_eq_nil {s : List Char} : trimStart s = [] ↔ isBlank s = true := by
  rw [trimStart, List.dropWhile_eq_nil_iff, isBlank, List.all_eq_true]

theorem trim_eq_nil {s : List Char} : trim s = [] ↔ isBlank s = true := by
  constructor
  · intro h
    rw [trim, trimEnd, List.rdropWhile_eq_nil_iff] at h
    apply trimStart_eq_nil.1
    by_contra hne
    obtain ⟨c, t, ht⟩ := List.exists_cons_of_ne_nil hne
    have hfirst : isSpace c = true := h c (by rw [ht]; exact List.mem_cons_self)
    have hkept := List.head?_dropWhile_not isSpace s
    rw [show s.dropWhile isSpace = c :: t from ht] at hkept
    simp [hfirst] at hkept
  · intro h
    rw [trim, trimStart_eq_nil.2 h]
    rfl

end Lines
