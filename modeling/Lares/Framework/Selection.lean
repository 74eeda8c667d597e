import Mathlib

/-! # Selection

    Going through a list and keeping each element unless it is related to one
    that was kept before it.

    What is kept is free of related pairs, and what is left out is related to
    something that was kept.
-/

namespace Selection

variable {α : Type*} (r : α → α → Bool)

/-- The elements of a list that are kept, beside those kept before. -/
def pickFrom (kept : List α) : List α → List α
  | [] => []
  | a :: l => if kept.any (r a) then pickFrom kept l else a :: pickFrom (kept ++ [a]) l

def pick (l : List α) : List α := pickFrom r [] l

variable {r}

theorem pickFrom_sublist (kept l : List α) : (pickFrom r kept l).Sublist l := by
  induction l generalizing kept with
  | nil => simp [pickFrom]
  | cons a l ih =>
    rw [pickFrom]
    split
    · exact (ih kept).cons a
    · exact (ih (kept ++ [a])).cons_cons a

theorem pick_sublist (l : List α) : (pick r l).Sublist l := pickFrom_sublist [] l

/-- No element that is kept is related to one kept before the list. -/
theorem pickFrom_fresh (kept l : List α) :
    ∀ a ∈ pickFrom r kept l, ∀ b ∈ kept, r a b = false := by
  induction l generalizing kept with
  | nil => simp [pickFrom]
  | cons a l ih =>
    rw [pickFrom]
    by_cases hrel : kept.any (r a)
    · rw [if_pos hrel]
      exact ih kept
    · rw [if_neg hrel]
      intro x hx b hb
      rcases List.mem_cons.1 hx with rfl | hx
      · simp only [List.any_eq_true, not_exists, not_and, Bool.not_eq_true] at hrel
        exact hrel b hb
      · exact ih (kept ++ [a]) x hx b (List.mem_append_left _ hb)

theorem pickFrom_pairwise (kept l : List α) :
    (pickFrom r kept l).Pairwise fun a b => r b a = false := by
  induction l generalizing kept with
  | nil => simp [pickFrom]
  | cons a l ih =>
    rw [pickFrom]
    by_cases hrel : kept.any (r a)
    · rw [if_pos hrel]
      exact ih kept
    · rw [if_neg hrel]
      refine List.Pairwise.cons ?_ (ih (kept ++ [a]))
      intro b hb
      exact pickFrom_fresh (kept ++ [a]) l b hb a (by simp)

theorem pick_pairwise (l : List α) : (pick r l).Pairwise fun a b => r b a = false :=
  pickFrom_pairwise [] l

/-- Whatever is left out is related to something kept. -/
theorem pickFrom_covers (kept l : List α) :
    ∀ a ∈ l, a ∈ pickFrom r kept l ∨ ∃ b ∈ kept ++ pickFrom r kept l, r a b := by
  induction l generalizing kept with
  | nil => simp
  | cons a l ih =>
    intro x hx
    rw [pickFrom]
    by_cases hrel : kept.any (r a)
    · rw [if_pos hrel]
      rcases List.mem_cons.1 hx with rfl | hx
      · obtain ⟨b, hb, hxb⟩ := List.any_eq_true.1 hrel
        exact .inr ⟨b, List.mem_append_left _ hb, hxb⟩
      · exact ih kept x hx
    · rw [if_neg hrel]
      rcases List.mem_cons.1 hx with rfl | hx
      · exact .inl (List.mem_cons_self ..)
      · rcases ih (kept ++ [a]) x hx with hmem | ⟨b, hb, hxb⟩
        · exact .inl (List.mem_cons_of_mem _ hmem)
        · rw [List.append_assoc, List.singleton_append] at hb
          exact .inr ⟨b, hb, hxb⟩

theorem pick_covers (l : List α) : ∀ a ∈ l, a ∈ pick r l ∨ ∃ b ∈ pick r l, r a b := by
  intro a ha
  have hcovers := pickFrom_covers (r := r) [] l a ha
  rw [List.nil_append] at hcovers
  exact hcovers

theorem pickFrom_map {β : Type*} (f : β → α) (kept l : List β) :
    (pickFrom (fun a b => r (f a) (f b)) kept l).map f = pickFrom r (kept.map f) (l.map f) := by
  induction l generalizing kept with
  | nil => rfl
  | cons a l ih =>
    have hrel : (kept.map f).any (r (f a)) = kept.any fun b => r (f a) (f b) := List.any_map
    rw [pickFrom, List.map_cons, pickFrom, hrel]
    split
    · exact ih kept
    · rw [List.map_cons, ih (kept ++ [a]), List.map_append, List.map_singleton]

/-- What is kept of a list is what is kept of the list with more beside each element. -/
theorem pick_map {β : Type*} (f : β → α) (l : List β) :
    (pick (fun a b => r (f a) (f b)) l).map f = pick r (l.map f) := pickFrom_map f [] l

/-- The first element is always kept. -/
theorem pick_cons (a : α) (l : List α) : pick r (a :: l) = a :: pickFrom r [a] l := by
  simp [pick, pickFrom]

end Selection
