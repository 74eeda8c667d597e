import Mathlib

/-! # Ranks in an ordered list

    The first `k` of an ordered list are the elements with fewer than `k`
    before them. A list is sorted by a key that no two elements share, so the
    order of the list that was sorted does not matter.
-/

namespace Ranks

variable {α : Type*}

/-! ## Section 1: Lists that are ordered -/

/-- In an ordered list, the first `k` are those with fewer than `k` before them. -/
theorem mem_take_iff {lt : α → α → Prop} [DecidableRel lt] (hasymm : ∀ a b, lt a b → ¬lt b a)
    {l : List α} (h : l.Pairwise lt) (x : α) (k : Nat) :
    x ∈ l.take k ↔ x ∈ l ∧ l.countP (fun y => lt y x) < k := by
  have hirrefl : ∀ a, ¬lt a a := fun a ha => hasymm a a ha ha
  induction l generalizing k with
  | nil => simp
  | cons a l ih =>
    obtain ⟨hhead, htail⟩ := List.pairwise_cons.1 h
    cases k with
    | zero => simp
    | succ k =>
      have hrest : x ∈ l.take k ↔ x ∈ l ∧ l.countP (fun y => lt y x) < k := ih htail k
      rw [List.take_succ_cons, List.mem_cons, List.mem_cons, hrest, List.countP_cons]
      by_cases hxa : x = a
      · -- nothing comes before the head
        subst hxa
        have hzero : l.countP (fun y => lt y x) = 0 := by
          rw [List.countP_eq_zero]
          intro b hb hlt
          exact hasymm x b (hhead b hb) (of_decide_eq_true hlt)
        simp [hirrefl, hzero]
      · by_cases hmem : x ∈ l
        · simp only [hxa, hmem, hhead x hmem, false_or, true_and, decide_true, if_true]
          omega
        · simp [hxa, hmem]

/-! ## Section 2: Sorting by a key -/

variable {κ : Type*} [LinearOrder κ] (key : α → κ)

/-- Sorted by the key, the greatest first. -/
def greatestFirst (l : List α) : List α := l.insertionSort fun a b => key b ≤ key a

theorem greatestFirst_perm (l : List α) : (greatestFirst key l).Perm l :=
  List.perm_insertionSort _ l

theorem mem_greatestFirst {l : List α} {x : α} : x ∈ greatestFirst key l ↔ x ∈ l :=
  (greatestFirst_perm key l).mem_iff

variable {key}

theorem pairwise_greatestFirst {l : List α} (h : (l.map key).Nodup) :
    (greatestFirst key l).Pairwise fun a b => key b < key a := by
  have : Std.Total fun a b : α => key b ≤ key a := ⟨fun a b => le_total _ _⟩
  have : IsTrans α fun a b => key b ≤ key a := ⟨fun a b c hab hbc => hbc.trans hab⟩
  have hsorted : (greatestFirst key l).Pairwise fun a b => key b ≤ key a :=
    List.pairwise_insertionSort _ l
  have hnodup : (greatestFirst key l).Pairwise fun a b => key a ≠ key b :=
    List.pairwise_map.1 (((greatestFirst_perm key l).map key).nodup_iff.2 h)
  exact (hsorted.and hnodup).imp fun ⟨hle, hne⟩ => lt_of_le_of_ne hle (Ne.symm hne)

/-- The first `k` are those with fewer than `k` greater ones. -/
theorem mem_take_greatestFirst {l : List α} (h : (l.map key).Nodup) (x : α) (k : Nat) :
    x ∈ (greatestFirst key l).take k ↔ x ∈ l ∧ l.countP (fun y => key x < key y) < k := by
  rw [mem_take_iff (fun _ _ => lt_asymm) (pairwise_greatestFirst h) x k, mem_greatestFirst,
    (greatestFirst_perm key l).countP_eq]

end Ranks
