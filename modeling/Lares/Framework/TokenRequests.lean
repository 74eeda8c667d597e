import Lares.Framework.History
import Lares.Framework.Interleaving

/-! # Requests that own tokens

    Requests share a state that keeps a log. A request that has taken a token
    owns it, until it uses it or is over.

    * **Knowledge**: the token that a request owns is taken and unused, and the
      log has the story of the request.
    * **Extension**: a step adds to the log, and uses no token but its owner's.
    * **Outcomes**: what a step has to leave, for each kind of step.
-/

namespace Tokens

universe u v w x

variable {Shared : Type u} {Request : Type v} {Event : Type w} {Token : Type x}

section Defs

variable (tk : Tokens Event Token) (log : Shared → List Event) (own : Request → Option Token)
  (Story : List Event → Request → Prop)

/-- What a request knows of the shared state. -/
def Knows (s : Shared) (req : Request) : Prop :=
  (∀ token, own req = some token → token ∈ tk.taken (log s) ∧ token ∉ tk.used (log s)) ∧
    Story (log s) req

/-- What a step may do that is taken by the owner of `o`. -/
def Extends (s t : Shared) (o : Option Token) : Prop :=
  log s ⊆ log t ∧ ∀ token ∈ tk.used (log t), token ∈ tk.used (log s) ∨ o = some token

/-- What a step of the owner of `o` leaves. -/
structure Leaves (I : Shared → Prop) (s : Shared) (o : Option Token)
    (out : Shared × Option Request) : Prop where
  inv : I out.1
  extend : tk.Extends log s out.1 o
  left : ∀ req, out.2 = some req → tk.Knows log own Story out.1 req ∧
    ∀ token, own req = some token → o = some token ∨ token ∉ tk.taken (log s)

end Defs

variable {tk : Tokens Event Token} {log : Shared → List Event} {own : Request → Option Token}
  {Story : List Event → Request → Prop} {I : Shared → Prop} {s t : Shared} {o : Option Token}

/-- The steps of the others leave a request what it knows. -/
theorem Knows.stable {req : Request} (hmono : ∀ log log' req, log ⊆ log' → Story log req →
    Story log' req) (hext : tk.Extends log s t o) (hothers : ∀ token, own req = some token →
      o ≠ some token) (h : tk.Knows log own Story s req) : tk.Knows log own Story t req := by
  obtain ⟨howned, hstory⟩ := h
  refine ⟨?_, hmono _ _ _ hext.1 hstory⟩
  intro token htoken
  obtain ⟨htaken, hunused⟩ := howned token htoken
  refine ⟨?_, ?_⟩
  · obtain ⟨e, he, htakes⟩ := List.mem_filterMap.1 htaken
    exact List.mem_filterMap.2 ⟨e, hext.1 he, htakes⟩
  · intro hused
    rcases hext.2 token hused with hold | hmine
    · exact hunused hold
    · exact hothers token htoken hmine

theorem knows_of_own_none {req : Request} (hown : own req = none) (hstory : Story (log s) req) :
    tk.Knows log own Story s req := by
  refine ⟨?_, hstory⟩
  intro token htoken
  rw [hown] at htoken
  cases htoken

theorem extends_same (h : log t = log s) : tk.Extends log s t o := by
  refine ⟨?_, ?_⟩
  · rw [h]
    exact List.Subset.refl _
  · intro token hused
    rw [h] at hused
    exact .inl hused

theorem extends_event {e : Event} (h : log t = log s ++ [e])
    (huse : ∀ token, tk.uses e = some token → o = some token) : tk.Extends log s t o := by
  refine ⟨?_, ?_⟩
  · rw [h]
    exact List.subset_append_left _ _
  · intro token hused
    rw [h] at hused
    rcases mem_filterMap_concat.1 hused with hold | hnew
    · exact .inl hold
    · exact .inr (huse token hnew)

/-! ## Outcomes -/

/-- A step after another one that leaves the log alone. -/
theorem Leaves.of_same {u : Shared} {left : Option Request} (h : log t = log s)
    (hleaves : tk.Leaves log own Story I t o (u, left)) :
    tk.Leaves log own Story I s o (u, left) where
  inv := hleaves.inv
  extend := by
    obtain ⟨hsub, hused⟩ := hleaves.extend
    rw [h] at hsub hused
    exact ⟨hsub, hused⟩
  left := by
    intro req hreq
    obtain ⟨hknows, hnew⟩ := hleaves.left req hreq
    rw [h] at hnew
    exact ⟨hknows, hnew⟩

/-- A step after an event that uses nothing. -/
theorem Leaves.after_event {u : Shared} {left : Option Request} {e : Event}
    (h : log t = log s ++ [e]) (huse : tk.uses e = none)
    (hleaves : tk.Leaves log own Story I t o (u, left)) :
    tk.Leaves log own Story I s o (u, left) where
  inv := hleaves.inv
  extend := by
    obtain ⟨hsub, hused⟩ := hleaves.extend
    rw [h] at hsub hused
    refine ⟨List.Subset.trans (List.subset_append_left _ _) hsub, ?_⟩
    intro token hmem
    rcases hused token hmem with hold | hmine
    · rcases mem_filterMap_concat.1 hold with hold | hnow
      · exact .inl hold
      · rw [huse] at hnow
        cases hnow
    · exact .inr hmine
  left := by
    intro req hreq
    obtain ⟨hknows, hnew⟩ := hleaves.left req hreq
    refine ⟨hknows, ?_⟩
    intro token htoken
    rcases hnew token htoken with hmine | hfree
    · exact .inl hmine
    · refine .inr fun hmem => hfree ?_
      rw [h]
      exact mem_filterMap_concat.2 (.inl hmem)

/-- The request is over, and the log is as it was. -/
theorem leaves_over (hI : I t) (h : log t = log s) :
    tk.Leaves log own Story I s o (t, none) where
  inv := hI
  extend := extends_same h
  left := by
    intro req hreq
    cases hreq

/-- The request waits, and owns nothing. -/
theorem leaves_waits {req : Request} (hI : I t) (h : log t = log s) (hown : own req = none)
    (hstory : Story (log t) req) : tk.Leaves log own Story I s o (t, some req) where
  inv := hI
  extend := extends_same h
  left := by
    intro req' hreq'
    cases hreq'
    refine ⟨knows_of_own_none hown hstory, ?_⟩
    intro token htoken
    rw [hown] at htoken
    cases htoken

/-- One more event, after which the request is over. -/
theorem leaves_event {e : Event} (hI : I t) (h : log t = log s ++ [e])
    (huse : ∀ token, tk.uses e = some token → o = some token) :
    tk.Leaves log own Story I s o (t, none) where
  inv := hI
  extend := extends_event h huse
  left := by
    intro req hreq
    cases hreq

/-- One more event that uses nothing, after which the request owns what it has taken just now. -/
theorem leaves_takes {e : Event} {req : Request} {token : Token} (hI : I t)
    (h : log t = log s ++ [e]) (huse : tk.uses e = none) (htakes : tk.takes e = some token)
    (hfree : token ∉ tk.taken (log s)) (hused : ∀ token ∈ tk.used (log s), token ∈ tk.taken (log s))
    (hown : own req = some token) (hstory : Story (log t) req) :
    tk.Leaves log own Story I s o (t, some req) where
  inv := hI
  extend := by
    apply extends_event h
    intro token' huses
    rw [huse] at huses
    cases huses
  left := by
    intro req' hreq'
    cases hreq'
    refine ⟨⟨?_, hstory⟩, ?_⟩
    · intro token' htoken'
      rw [hown] at htoken'
      cases htoken'
      refine ⟨?_, ?_⟩
      · rw [h]
        exact mem_filterMap_concat.2 (.inr htakes)
      · intro hmem
        rw [h] at hmem
        -- what is used has been taken before
        rcases mem_filterMap_concat.1 hmem with hold | hnow
        · exact hfree (hused token hold)
        · rw [huse] at hnow
          cases hnow
    · intro token' htoken'
      rw [hown] at htoken'
      cases htoken'
      exact .inr hfree

/-- A request goes on with what it knows, and the log is as it was. -/
theorem leaves_keeps {req : Request} (hI : I t) (h : log t = log s)
    (hknows : tk.Knows log own Story s req) :
    tk.Leaves log own Story I s (own req) (t, some req) where
  inv := hI
  extend := extends_same h
  left := by
    intro req' hreq'
    cases hreq'
    refine ⟨?_, fun token htoken => .inl htoken⟩
    obtain ⟨howned, hstory⟩ := hknows
    refine ⟨?_, ?_⟩
    · rw [h]
      exact howned
    · rw [h]
      exact hstory

/-- One more event that uses nothing, beside what the request goes on with. -/
theorem leaves_notes {e : Event} {req : Request} (hI : I t) (h : log t = log s ++ [e])
    (huse : tk.uses e = none) (hmono : ∀ log log' req, log ⊆ log' → Story log req →
      Story log' req) (hknows : tk.Knows log own Story s req) :
    tk.Leaves log own Story I s (own req) (t, some req) where
  inv := hI
  extend := extends_event h (by simp [huse])
  left := by
    intro req' hreq'
    cases hreq'
    refine ⟨⟨?_, hmono _ _ _ ?_ hknows.2⟩, fun token htoken => .inl htoken⟩
    · intro token htoken
      obtain ⟨htaken, hunused⟩ := hknows.1 token htoken
      rw [h]
      refine ⟨mem_filterMap_concat.2 (.inl htaken), ?_⟩
      intro hmem
      rcases mem_filterMap_concat.1 hmem with hold | hnow
      · exact hunused hold
      · rw [huse] at hnow
        cases hnow
    · rw [h]
      exact List.subset_append_left _ _

end Tokens
