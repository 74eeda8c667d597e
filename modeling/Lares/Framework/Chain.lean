import Mathlib.Data.List.Chain
import Mathlib.Data.List.Induction

/-! # Chains that their last link determines

    * **Linked lists**: every entry names the hash of the one before, and the
      first entry is of a kind that stands nowhere else. The hash of the last
      entry determines the whole list, its length included.
    * **Sealed lists**: every entry determines the one before. The last entry
      determines a list of known length.
-/

namespace Chain

variable {β H : Type*}

/-! ## Linked lists -/

/-- Each entry names the one before; only the first entry opens. -/
structure Linked (prev hash : β → H) (opens : β → Prop) (l : List β) : Prop where
  chain : l.IsChain fun a b => prev b = hash a
  first : ∀ a ∈ l.head?, opens a
  later : ∀ a ∈ l.tail, ¬ opens a

variable {prev hash : β → H} {opens : β → Prop}

/-- Without its last entry. -/
theorem Linked.init {l : List β} {a : β} (h : Linked prev hash opens (l ++ [a])) (hne : l ≠ []) :
    Linked prev hash opens l ∧ (∀ b ∈ l.getLast?, prev a = hash b) ∧ ¬ opens a := by
  obtain ⟨hchain, -, hlink⟩ := List.isChain_append.1 h.chain
  obtain ⟨b, rest, rfl⟩ := List.exists_cons_of_ne_nil hne
  refine ⟨⟨hchain, h.first, ?_⟩, fun c hc => hlink c hc a rfl, ?_⟩
  · intro c hc
    exact h.later c (List.mem_append_left _ hc)
  · exact h.later a (List.mem_append_right _ List.mem_cons_self)

/-- **Uniqueness**: linked lists with the same last hash are the same. -/
theorem Linked.unique {l m : List β} (hinj : ∀ a ∈ l, ∀ b ∈ m, hash a = hash b → a = b)
    (hl : Linked prev hash opens l) (hm : Linked prev hash opens m) (hlne : l ≠ []) (hmne : m ≠ [])
    (hlast : l.getLast?.map hash = m.getLast?.map hash) : l = m := by
  induction l using List.reverseRecOn generalizing m with
  | nil => exact absurd rfl hlne
  | append_singleton xs x ih =>
    rcases List.eq_nil_or_concat m with rfl | ⟨ys, y, rfl⟩
    · exact absurd rfl hmne
    · rw [List.concat_eq_append] at *
      have hxy : x = y := by
        refine hinj x (List.mem_append_right _ List.mem_cons_self) y
          (List.mem_append_right _ List.mem_cons_self) ?_
        rw [List.getLast?_concat, List.getLast?_concat] at hlast
        exact Option.some.inj hlast
      subst hxy
      -- the last entries are the same one, so it opens both lists or none
      by_cases hxs : xs = []
      · by_cases hys : ys = []
        · rw [hxs, hys]
        · rw [hxs] at hl
          exact absurd (hl.first x rfl) (hm.init hys).2.2
      · by_cases hys : ys = []
        · rw [hys] at hm
          exact absurd (hm.first x rfl) (hl.init hxs).2.2
        · obtain ⟨hlinit, hlprev, -⟩ := hl.init hxs
          obtain ⟨hminit, hmprev, -⟩ := hm.init hys
          have hrest : xs = ys := by
            refine ih (fun a ha b hb => hinj a (List.mem_append_left _ ha) b
              (List.mem_append_left _ hb)) hlinit hminit hxs hys ?_
            have ha := hlprev _ (List.getLast?_eq_some_getLast hxs)
            have hb := hmprev _ (List.getLast?_eq_some_getLast hys)
            rw [List.getLast?_eq_some_getLast hxs, List.getLast?_eq_some_getLast hys,
              Option.map_some, Option.map_some, ← ha, ← hb]
          rw [hrest]

/-! ## Sealed lists -/

/-- **Sealed lists** of one length with the same last entry are the same. -/
theorem sealed_unique {R : β → β → Prop} (hunique : ∀ a b c, R a c → R b c → a = b) {l m : List β}
    (hl : l.IsChain R) (hm : m.IsChain R) (hlength : l.length = m.length)
    (hlast : l.getLast? = m.getLast?) : l = m := by
  induction l using List.reverseRecOn generalizing m with
  | nil => exact (List.length_eq_zero_iff.1 hlength.symm).symm
  | append_singleton xs x ih =>
    rcases List.eq_nil_or_concat m with rfl | ⟨ys, y, rfl⟩
    · simp at hlength
    · rw [List.concat_eq_append] at *
      rw [List.getLast?_concat, List.getLast?_concat] at hlast
      cases hlast
      obtain ⟨hxs, -, hxlink⟩ := List.isChain_append.1 hl
      obtain ⟨hys, -, hylink⟩ := List.isChain_append.1 hm
      have hlengths : xs.length = ys.length := by
        rw [List.length_append, List.length_append] at hlength
        exact Nat.add_right_cancel hlength
      have hrest : xs = ys := by
        refine ih hxs hys hlengths ?_
        by_cases hne : xs = []
        · rw [hne] at hlengths ⊢
          rw [List.length_eq_zero_iff.1 hlengths.symm]
        · have hne' : ys ≠ [] := by
            intro hnil
            rw [hnil] at hlengths
            exact hne (List.length_eq_zero_iff.1 hlengths)
          rw [List.getLast?_eq_some_getLast hne, List.getLast?_eq_some_getLast hne']
          exact congrArg some (hunique _ _ x
            (hxlink _ (List.getLast?_eq_some_getLast hne) x rfl)
            (hylink _ (List.getLast?_eq_some_getLast hne') x rfl))
      rw [hrest]

end Chain
