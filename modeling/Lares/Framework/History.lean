import Mathlib.Data.List.Nodup

/-! # What a log says

    A log is the list of the events so far, oldest first.

    * **Reasons**: what holds of the events before each event.
    * **Tokens**: an event may give a token out, take it back in, and use what
      has been taken. What is live has been given and not been taken.
-/

variable {Event Token : Type*}

/-! ## Reasons -/

/-- Each event has its reason in the events before it. -/
def Reasoned (Reason : List Event → Event → Prop) (log : List Event) : Prop :=
  ∀ pre e post, log = pre ++ e :: post → Reason pre e

theorem reasoned_nil (Reason : List Event → Event → Prop) : Reasoned Reason [] := by
  intro pre e post h
  simp at h

theorem Reasoned.concat {Reason : List Event → Event → Prop} {log : List Event} {e : Event}
    (h : Reasoned Reason log) (he : Reason log e) : Reasoned Reason (log ++ [e]) := by
  intro pre e' post heq
  rcases List.eq_nil_or_concat post with rfl | ⟨rest, last, rfl⟩
  · obtain ⟨rfl, hlast⟩ := List.append_inj' heq rfl
    cases hlast
    exact he
  · rw [List.concat_eq_append, ← List.cons_append, ← List.append_assoc] at heq
    exact h pre e' rest (List.append_inj' heq rfl).1

theorem Reasoned.of_prefix {Reason : List Event → Event → Prop} {pre log : List Event}
    (h : Reasoned Reason log) (hpre : pre <+: log) : Reasoned Reason pre := by
  obtain ⟨rest, rfl⟩ := hpre
  intro pre' e post heq
  apply h pre' e (post ++ rest)
  rw [heq, List.append_assoc, List.cons_append]

/-- An event of the log came after its reason. -/
theorem Reasoned.mem {Reason : List Event → Event → Prop} {log : List Event} {e : Event}
    (h : Reasoned Reason log) (he : e ∈ log) : ∃ pre, pre ++ [e] <+: log ∧ Reason pre e := by
  obtain ⟨pre, post, rfl⟩ := List.append_of_mem he
  refine ⟨pre, ⟨post, ?_⟩, h pre e post rfl⟩
  rw [List.append_assoc, List.singleton_append]

/-! ## Tokens -/

/-- What an event does to tokens. -/
structure Tokens (Event Token : Type*) where
  gives : Event → Option Token
  takes : Event → Option Token
  uses : Event → Option Token

namespace Tokens

variable (tk : Tokens Event Token)

def given (log : List Event) : List Token := log.filterMap tk.gives

def taken (log : List Event) : List Token := log.filterMap tk.takes

def used (log : List Event) : List Token := log.filterMap tk.uses

theorem filterMap_concat {α β : Type*} (f : α → Option β) (l : List α) (a : α) :
    (l ++ [a]).filterMap f = l.filterMap f ++ (f a).toList := by
  rw [List.filterMap_append]
  cases h : f a with
  | none => simp [h]
  | some b => simp [h]

theorem mem_filterMap_concat {α β : Type*} {f : α → Option β} {l : List α} {a : α} {b : β} :
    b ∈ (l ++ [a]).filterMap f ↔ b ∈ l.filterMap f ∨ f a = some b := by
  rw [filterMap_concat, List.mem_append, Option.mem_toList]

theorem nodup_filterMap_concat {α β : Type*} {f : α → Option β} {l : List α} {a : α}
    (h : (l.filterMap f).Nodup) (ha : ∀ b, f a = some b → b ∉ l.filterMap f) :
    ((l ++ [a]).filterMap f).Nodup := by
  rw [filterMap_concat]
  cases hf : f a with
  | none => simpa using h
  | some b =>
    rw [Option.toList_some, ← List.concat_eq_append]
    exact h.concat (ha b hf)

/-- A token is taken once, while it is live, and used once it has been taken. -/
structure Once (log : List Event) (live : Token → Prop) : Prop where
  /-- What is live was given out, and not taken. -/
  live : ∀ t, live t → t ∈ tk.given log ∧ t ∉ tk.taken log
  /-- What was taken had been given out. -/
  taken : ∀ t ∈ tk.taken log, t ∈ tk.given log
  /-- Nothing is taken twice. -/
  takenOnce : (tk.taken log).Nodup
  /-- What was used had been taken. -/
  used : ∀ t ∈ tk.used log, t ∈ tk.taken log
  /-- Nothing is used twice. -/
  once : (tk.used log).Nodup

variable {tk} {log : List Event} {live live' : Token → Prop} {e : Event}

/-- Fewer tokens are live. -/
theorem Once.mono (h : tk.Once log live) (hsub : ∀ t, live' t → live t) : tk.Once log live' where
  live t ht := h.live t (hsub t ht)
  taken := h.taken
  takenOnce := h.takenOnce
  used := h.used
  once := h.once

/-- **One more event**: what it gives is new, what it takes is live or given just now, what it
    uses is taken and unused. -/
theorem Once.concat (h : tk.Once log live)
    (hgive : ∀ t, tk.gives e = some t → t ∉ tk.given log)
    (htake : ∀ t, tk.takes e = some t → live t ∨ tk.gives e = some t)
    (huse : ∀ t, tk.uses e = some t → t ∈ tk.taken log ∧ t ∉ tk.used log)
    (hlive : ∀ t, live' t → (live t ∨ tk.gives e = some t) ∧ tk.takes e ≠ some t) :
    tk.Once (log ++ [e]) live' where
  live := by
    intro t ht
    show t ∈ List.filterMap _ _ ∧ t ∉ List.filterMap _ _
    rw [mem_filterMap_concat, mem_filterMap_concat, not_or]
    obtain ⟨hfrom, hkept⟩ := hlive t ht
    rcases hfrom with hold | hnew
    · obtain ⟨hgiven, htaken⟩ := h.live t hold
      exact ⟨.inl hgiven, htaken, hkept⟩
    · exact ⟨.inr hnew, fun htaken => hgive t hnew (h.taken t htaken), hkept⟩
  taken := by
    intro t ht
    apply mem_filterMap_concat.2
    rcases mem_filterMap_concat.1 ht with hold | hnow
    · exact .inl (h.taken t hold)
    · rcases htake t hnow with hlive | hnew
      · exact .inl (h.live t hlive).1
      · exact .inr hnew
  takenOnce := by
    apply nodup_filterMap_concat h.takenOnce
    intro t hnow
    rcases htake t hnow with hlive | hnew
    · exact (h.live t hlive).2
    · exact fun htaken => hgive t hnew (h.taken t htaken)
  used := by
    intro t ht
    apply mem_filterMap_concat.2
    rcases mem_filterMap_concat.1 ht with hold | hnew
    · exact .inl (h.used t hold)
    · exact .inl (huse t hnew).1
  once := by
    apply nodup_filterMap_concat h.once
    intro t ht
    exact (huse t ht).2

theorem once_nil (hlive : ∀ t, ¬live t) : tk.Once [] live where
  live t ht := absurd ht (hlive t)
  taken t ht := by cases ht
  takenOnce := List.nodup_nil
  used t ht := by cases ht
  once := List.nodup_nil

end Tokens
