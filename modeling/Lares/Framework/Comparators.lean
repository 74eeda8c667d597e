import Mathlib

/-! # Comparators

    Functions that compare by a sign, as JavaScript's `sort` takes them.

    * **Consistent** comparators are total preorders; `orElse` breaks the ties
      of one by another, and is consistent again.
    * **Sorting** with a consistent comparator is stable. When only equal
      elements compare as ties, the order that is sorted does not matter.
-/

namespace Comparators

variable {α β : Type*}

/-! ## Section 1: Consistency -/

/-- A total preorder, by signs. -/
structure Consistent (cmp : α → α → Int) : Prop where
  swap : ∀ a b, cmp a b < 0 ↔ 0 < cmp b a
  trans : ∀ a b c, cmp a b ≤ 0 → cmp b c ≤ 0 → cmp a c ≤ 0

/-- The first comparison, or the second one where the first is a tie: `x || y` -/
def orElse (x y : Int) : Int := if x = 0 then y else x

namespace Consistent

variable {cmp cmp' : α → α → Int}

theorem total (h : Consistent cmp) (a b : α) : cmp a b ≤ 0 ∨ cmp b a ≤ 0 := by
  have := h.swap b a
  omega

theorem tie (h : Consistent cmp) {a b : α} : cmp a b = 0 ↔ cmp b a = 0 := by
  have hab := h.swap a b
  have hba := h.swap b a
  omega

/-- Below each other is a tie. -/
theorem tie_of_le (h : Consistent cmp) {a b : α} (hab : cmp a b ≤ 0) (hba : cmp b a ≤ 0) :
    cmp a b = 0 := by
  have := h.swap a b
  omega

theorem comap (h : Consistent cmp) (f : β → α) : Consistent fun a b => cmp (f a) (f b) where
  swap a b := h.swap (f a) (f b)
  trans a b c := h.trans (f a) (f b) (f c)

theorem orElse (h : Consistent cmp) (h' : Consistent cmp') :
    Consistent fun a b => Comparators.orElse (cmp a b) (cmp' a b) where
  swap a b := by
    have htie := h.tie (a := a) (b := b)
    have hswap := h.swap a b
    have hswap' := h'.swap a b
    unfold Comparators.orElse
    split <;> split <;> omega
  trans a b c hab hbc := by
    unfold Comparators.orElse at hab hbc ⊢
    have hle : cmp a b ≤ 0 := by split at hab <;> omega
    have hle' : cmp b c ≤ 0 := by split at hbc <;> omega
    have hac := h.trans a b c hle hle'
    by_cases htie : cmp a c = 0
    · -- then all three are ties, and the second comparison decides
      have hca : cmp c a ≤ 0 := le_of_eq (h.tie.1 htie)
      have hab' : cmp a b = 0 := h.tie_of_le hle (h.trans b c a hle' hca)
      have hbc' : cmp b c = 0 := h.tie_of_le hle' (h.trans c a b hca hle)
      rw [if_pos hab'] at hab
      rw [if_pos hbc'] at hbc
      rw [if_pos htie]
      exact h'.trans a b c hab hbc
    · rw [if_neg htie]
      exact hac

end Consistent

/-! ## Section 2: Sorting -/

variable {cmp : α → α → Int}

/-- `sort`: stable, smaller elements first -/
def sort (cmp : α → α → Int) (l : List α) : List α := l.insertionSort fun a b => cmp a b ≤ 0

theorem sort_perm (l : List α) : (sort cmp l).Perm l := List.perm_insertionSort _ l

theorem mem_sort {l : List α} {a : α} : a ∈ sort cmp l ↔ a ∈ l := (sort_perm l).mem_iff

theorem pairwise_sort (h : Consistent cmp) (l : List α) :
    (sort cmp l).Pairwise fun a b => cmp a b ≤ 0 := by
  have : Std.Total fun a b : α => cmp a b ≤ 0 := ⟨h.total⟩
  have : IsTrans α fun a b => cmp a b ≤ 0 := ⟨h.trans⟩
  exact List.pairwise_insertionSort _ l

/-- Two that do not have to swap stay in their order. -/
theorem sort_pair {a b : α} (hle : cmp a b ≤ 0) : sort cmp [a, b] = [a, b] := by
  simp [sort, List.insertionSort, hle]

/-- Without ties between different elements, every order of a list sorts to one. -/
theorem sort_eq_of_perm (h : Consistent cmp) {l m : List α} (hperm : l.Perm m)
    (hties : ∀ a ∈ l, ∀ b ∈ l, cmp a b = 0 → a = b) : sort cmp l = sort cmp m := by
  have hsorted : (sort cmp l).Perm (sort cmp m) := (sort_perm l).trans (hperm.trans (sort_perm m).symm)
  refine hsorted.eq_of_pairwise ?_ (pairwise_sort h l) (pairwise_sort h m)
  intro a b ha hb hab hba
  exact hties a (mem_sort.1 ha) b (hperm.mem_iff.2 (mem_sort.1 hb)) (h.tie_of_le hab hba)

/-! ## Section 3: Texts, code by code -/

def compareTexts (s t : List Char) : Int := if s < t then -1 else if t < s then 1 else 0

theorem compareTexts_le {s t : List Char} : compareTexts s t ≤ 0 ↔ s ≤ t := by
  unfold compareTexts
  by_cases hst : s < t
  · simp [hst, hst.le]
  · by_cases hts : t < s
    · simp [hst, hts, not_le.2 hts]
    · simp [hst, hts, not_lt.1 hts]

theorem compareTexts_consistent : Consistent compareTexts where
  swap s t := by
    unfold compareTexts
    by_cases hst : s < t
    · have hts : ¬ t < s := not_lt.2 hst.le
      simp [hst, hts]
    · by_cases hts : t < s
      · simp [hst, hts]
      · simp [hst, hts]
  trans s t u hst htu := by
    rw [compareTexts_le] at hst htu ⊢
    exact hst.trans htu

end Comparators
