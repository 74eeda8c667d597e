import Lares.Framework.Ranks

/-! # Stable sorting

    Elements that the order does not tell apart keep the order of the list. So
    a sorted list is ordered without ties, and its first `k` are the elements
    with fewer than `k` before them.
-/

namespace StableSort

variable {α : Type*} (r q : α → α → Prop)

/-- Before another after sorting by `r`, where `q` is the order of the list. -/
def Before (a b : α) : Prop := r a b ∧ (r b a → q a b)

instance [DecidableRel r] [DecidableRel q] : DecidableRel (Before r q) := fun a b =>
  inferInstanceAs (Decidable (r a b ∧ (r b a → q a b)))

variable {r q}

theorem Before.asymm (hq : ∀ a b, q a b → ¬ q b a) (a b : α) (hab : Before r q a b) :
    ¬ Before r q b a := by
  intro hba
  exact hq a b (hab.2 hba.1) (hba.2 hab.1)

section Sorting

variable [DecidableRel r] [Std.Total r] [IsTrans α r]

theorem pairwise_orderedInsert {a : α} {l : List α} (ha : ∀ b ∈ l, q a b)
    (h : l.Pairwise (Before r q)) : (l.orderedInsert r a).Pairwise (Before r q) := by
  induction l with
  | nil => exact List.pairwise_singleton _ a
  | cons b l ih =>
    obtain ⟨hhead, htail⟩ := List.pairwise_cons.1 h
    by_cases hab : r a b
    · rw [List.orderedInsert_cons_of_le r l hab]
      refine List.pairwise_cons.2 ⟨fun x hx => ⟨?_, fun _ => ha x hx⟩, h⟩
      obtain rfl | hmem := List.mem_cons.1 hx
      · exact hab
      · exact IsTrans.trans a b x hab (hhead x hmem).1
    · rw [List.orderedInsert_of_not_le r l hab]
      have hba : r b a := (Std.Total.total a b).resolve_left hab
      refine List.pairwise_cons.2 ⟨fun x hx => ?_, ih (fun x hx => ha x (.tail b hx)) htail⟩
      obtain rfl | hmem := (List.mem_orderedInsert r).1 hx
      · exact ⟨hba, fun h => absurd h hab⟩
      · exact hhead x hmem

theorem pairwise_insertionSort {l : List α} (h : l.Pairwise q) :
    (l.insertionSort r).Pairwise (Before r q) := by
  induction l with
  | nil => exact .nil
  | cons a l ih =>
    obtain ⟨hhead, htail⟩ := List.pairwise_cons.1 h
    exact pairwise_orderedInsert (fun b hb => hhead b ((List.mem_insertionSort r).1 hb)) (ih htail)

omit [Std.Total r] in
theorem filter_orderedInsert (p : α → Bool) (a : α) {l : List α} (h : l.Pairwise r) :
    (l.orderedInsert r a).filter p =
      if p a = true then (l.filter p).orderedInsert r a else l.filter p := by
  induction l with
  | nil => by_cases ha : p a = true <;> simp [ha]
  | cons b l ih =>
    obtain ⟨hhead, htail⟩ := List.pairwise_cons.1 h
    by_cases hab : r a b
    · rw [List.orderedInsert_cons_of_le r l hab]
      by_cases ha : p a = true
      · -- the new element is before all that stay
        have hfirst : ∀ c ∈ (b :: l).filter p, r a c := by
          intro c hc
          obtain rfl | hmem := List.mem_cons.1 (List.mem_filter.1 hc).1
          · exact hab
          · exact IsTrans.trans a b c hab (hhead c hmem)
        rw [List.filter_cons_of_pos ha, if_pos ha]
        cases hrest : (b :: l).filter p with
        | nil => rfl
        | cons c rest =>
          rw [List.orderedInsert_cons_of_le r rest (hfirst c (by rw [hrest]; simp))]
      · rw [List.filter_cons_of_neg ha, if_neg ha]
    · rw [List.orderedInsert_of_not_le r l hab]
      by_cases hb : p b = true
      · rw [List.filter_cons_of_pos hb, List.filter_cons_of_pos hb, ih htail]
        by_cases ha : p a = true
        · rw [if_pos ha, if_pos ha, List.orderedInsert_of_not_le r _ hab]
        · rw [if_neg ha, if_neg ha]
      · rw [List.filter_cons_of_neg hb, List.filter_cons_of_neg hb, ih htail]

/-- Sorting what is left is leaving it out of what is sorted. -/
theorem insertionSort_filter (p : α → Bool) (l : List α) :
    (l.filter p).insertionSort r = (l.insertionSort r).filter p := by
  induction l with
  | nil => rfl
  | cons a l ih =>
    rw [List.insertionSort_cons, filter_orderedInsert p a (List.pairwise_insertionSort r l), ← ih]
    by_cases ha : p a = true
    · rw [List.filter_cons_of_pos ha, if_pos ha]
      rfl
    · rw [List.filter_cons_of_neg ha, if_neg ha]

end Sorting

/-! ## Section 2: The order of a list without repetitions -/

variable [DecidableEq α]

def Earlier (l : List α) (a b : α) : Prop := l.idxOf a < l.idxOf b

instance (l : List α) : DecidableRel (Earlier l) := fun a b =>
  inferInstanceAs (Decidable (l.idxOf a < l.idxOf b))

theorem Earlier.asymm (l : List α) (a b : α) (h : Earlier l a b) : ¬ Earlier l b a :=
  Nat.lt_asymm h

theorem pairwise_earlier {l : List α} (h : l.Nodup) : l.Pairwise (Earlier l) := by
  rw [List.pairwise_iff_getElem]
  intro i j hi hj hij
  rw [Earlier, h.idxOf_getElem, h.idxOf_getElem]
  exact hij

/-- Two lists in the order of `l` with the same elements are one. -/
theorem eq_of_mem_iff {l m n : List α} (hm : m.Pairwise (Before r (Earlier l)))
    (hn : n.Pairwise (Before r (Earlier l))) (h : ∀ x, x ∈ m ↔ x ∈ n) : m = n := by
  have hasymm := Before.asymm (r := r) (Earlier.asymm l)
  have hnodup {u : List α} (hu : u.Pairwise (Before r (Earlier l))) : u.Nodup :=
    hu.imp fun hab heq => by
      subst heq
      exact hasymm _ _ hab hab
  refine ((List.perm_ext_iff_of_nodup (hnodup hm) (hnodup hn)).2 h).eq_of_pairwise ?_ hm hn
  intro a b _ _ hab hba
  exact absurd hba (hasymm a b hab)

variable [DecidableRel r] [Std.Total r] [IsTrans α r]

/-- The first `k` of a stably sorted part of a list are those with fewer than `k` before them. -/
theorem mem_take_sort {l m : List α} (h : m.Pairwise (Earlier l)) (x : α) (k : Nat) :
    x ∈ (m.insertionSort r).take k ↔
      x ∈ m ∧ m.countP (fun y => Before r (Earlier l) y x) < k := by
  rw [Ranks.mem_take_iff (Before.asymm (Earlier.asymm l)) (pairwise_insertionSort h) x k,
    List.mem_insertionSort, (List.perm_insertionSort r m).countP_eq]

end StableSort
