import Mathlib.Data.List.Nodup
import Mathlib.Data.List.Count

/-! # Waiting lines of two classes

    Callers wait in a line. A caller of the first class stands before every
    ordinary one, and each class stands in the order of arrival.

    * **Events**: a caller joins, is started or is refused. A log of events
      says who waits.
    * **Fair logs**: nobody is started while somebody ahead of it waits.
    * **Orderly lines**: the line holds who waits, in order. The operations of
      a line keep it orderly, and its log fair.
-/

namespace Line

/-! ## Callers -/

/-- A caller: its number in the order of arrival, and its class. -/
structure Turn where
  arrival : Nat
  first : Bool
  deriving DecidableEq, Repr

/-- Who stands before whom. -/
def Turn.Ahead (a b : Turn) : Prop :=
  (a.first = true ∧ b.first = false) ∨ (a.first = b.first ∧ a.arrival < b.arrival)

theorem Turn.Ahead.irrefl (a : Turn) : ¬ a.Ahead a := by
  rintro (⟨hfirst, hordinary⟩ | ⟨-, hlt⟩)
  · rw [hfirst] at hordinary
    cases hordinary
  · exact Nat.lt_irrefl _ hlt

theorem Turn.Ahead.asymm {a b : Turn} (h : a.Ahead b) : ¬ b.Ahead a := by
  unfold Turn.Ahead at h ⊢
  grind

/-! ## Events -/

/-- What happens to a caller. -/
inductive Event where
  | joined (a : Turn)
  | started (a : Turn)
  | refused (a : Turn)
  deriving DecidableEq, Repr

/-- Who it happens to. -/
def Event.turn : Event → Turn
  | joined a => a
  | started a => a
  | refused a => a

/-- The caller has joined, and has had no answer. -/
def Waiting (log : List Event) (a : Turn) : Prop :=
  .joined a ∈ log ∧ .started a ∉ log ∧ .refused a ∉ log

/-- How many answers the caller has had. -/
def answers (log : List Event) (a : Turn) : Nat :=
  log.count (.started a) + log.count (.refused a)

/-- Nobody has started while somebody ahead of it was waiting. -/
def Fair (log : List Event) : Prop :=
  ∀ pre b post, log = pre ++ .started b :: post → ∀ a, Waiting pre a → ¬ a.Ahead b

/-- Callers join as they arrive: what happened before is about earlier ones. -/
def Arriving (log : List Event) : Prop :=
  ∀ pre a post, log = pre ++ .joined a :: post → ∀ e ∈ pre, e.turn.arrival < a.arrival

/-- A list that ends in an event, cut at an event. -/
theorem snoc_cut {log pre post : List Event} {e e' : Event}
    (h : log ++ [e] = pre ++ e' :: post) :
    (∃ mid, post = mid ++ [e] ∧ log = pre ++ e' :: mid) ∨ (post = [] ∧ log = pre ∧ e = e') := by
  rcases List.eq_nil_or_concat post with rfl | ⟨mid, last, rfl⟩
  · right
    obtain ⟨hlog, he⟩ := List.append_inj' h rfl
    exact ⟨rfl, hlog, (List.cons.inj he).1⟩
  · left
    rw [List.concat_eq_append, ← List.cons_append, ← List.append_assoc] at h
    obtain ⟨hlog, he⟩ := List.append_inj' h rfl
    refine ⟨mid, ?_, hlog⟩
    rw [(List.cons.inj he).1, List.concat_eq_append]

theorem Fair.snoc {log : List Event} {e : Event} (h : Fair log)
    (hstart : ∀ b, e = .started b → ∀ a, Waiting log a → ¬ a.Ahead b) : Fair (log ++ [e]) := by
  intro pre b post heq a hwaits
  rcases snoc_cut heq with ⟨mid, -, hlog⟩ | ⟨-, hlog, he⟩
  · exact h pre b mid hlog a hwaits
  · rw [← hlog] at hwaits
    exact hstart b he a hwaits

theorem Arriving.snoc {log : List Event} {e : Event} (h : Arriving log)
    (hjoin : ∀ a, e = .joined a → ∀ e' ∈ log, e'.turn.arrival < a.arrival) :
    Arriving (log ++ [e]) := by
  intro pre a post heq e' he'
  rcases snoc_cut heq with ⟨mid, -, hlog⟩ | ⟨-, hlog, he⟩
  · exact h pre a mid hlog e' he'
  · rw [← hlog] at he'
    exact hjoin a he e' he'

/-- An event about somebody else changes nothing for a caller. -/
theorem waiting_snoc_other {log : List Event} {e : Event} {a : Turn} (hne : e.turn ≠ a) :
    Waiting (log ++ [e]) a ↔ Waiting log a := by
  have hother : ∀ e' : Event, e'.turn = a → (e' ∈ log ++ [e] ↔ e' ∈ log) := by
    intro e' he'
    rw [List.mem_append, List.mem_singleton]
    constructor
    · rintro (hmem | rfl)
      · exact hmem
      · exact absurd he' hne
    · exact Or.inl
  unfold Waiting
  rw [hother (.joined a) rfl, hother (.started a) rfl, hother (.refused a) rfl]

theorem answers_snoc_other {log : List Event} {e : Event} {a : Turn} (hne : e.turn ≠ a) :
    answers (log ++ [e]) a = answers log a := by
  have hother : ∀ e' : Event, e'.turn = a → (log ++ [e]).count e' = log.count e' := by
    intro e' he'
    rw [List.count_append, List.count_singleton]
    have hne' : (e == e') = false := by
      rw [beq_eq_false_iff_ne]
      rintro rfl
      exact hne he'
    rw [hne']
    rfl
  unfold answers
  rw [hother (.started a) rfl, hother (.refused a) rfl]

/-- Who has had no event does not wait, and has had no answer. -/
theorem answers_fresh {log : List Event} {a : Turn} (hfresh : ∀ e ∈ log, e.turn ≠ a) :
    answers log a = 0 := by
  have hnone : ∀ e : Event, e.turn = a → log.count e = 0 := by
    intro e he
    exact List.count_eq_zero.2 fun hmem => hfresh e hmem he
  unfold answers
  rw [hnone (.started a) rfl, hnone (.refused a) rfl]

/-- A start and a refusal are one answer more. -/
theorem answers_snoc (log : List Event) {e : Event} {a : Turn}
    (he : e = .started a ∨ e = .refused a) : answers (log ++ [e]) a = answers log a + 1 := by
  unfold answers
  rw [List.count_append, List.count_append, List.count_singleton, List.count_singleton]
  rcases he with rfl | rfl
  · show _ + (if (Event.started a == .started a) = true then 1 else 0) + _ = _
    rw [if_pos (beq_self_eq_true _), if_neg (by simp)]
    omega
  · show _ + (if (Event.refused a == .started a) = true then 1 else 0) + _ = _
    rw [if_pos (beq_self_eq_true _), if_neg (by simp)]
    omega

theorem answers_waiting {log : List Event} {a : Turn} (h : Waiting log a) : answers log a = 0 := by
  unfold answers
  rw [List.count_eq_zero.2 h.2.1, List.count_eq_zero.2 h.2.2]

/-! ## Orderly lines -/

/-- The line holds who waits, in order, and its log has been fair. -/
structure Orderly (line : List Turn) (log : List Event) : Prop where
  /-- Whoever is ahead stands ahead. -/
  sorted : line.Pairwise Turn.Ahead
  /-- The line is who waits. -/
  waits : ∀ a, a ∈ line ↔ Waiting log a
  /-- No start was out of turn. -/
  fair : Fair log
  /-- Arrivals are numbered as they come. -/
  arriving : Arriving log
  /-- Nobody is answered twice. -/
  once : ∀ a, answers log a ≤ 1
  /-- Who has left the line was answered. -/
  answered : ∀ a, .joined a ∈ log → a ∉ line → answers log a = 1

theorem orderly_nil : Orderly [] [] where
  sorted := List.Pairwise.nil
  waits := fun a => ⟨nofun, fun h => nomatch h.1⟩
  fair := by
    intro pre b post heq
    exact absurd heq.symm (by simp)
  arriving := by
    intro pre a post heq
    exact absurd heq.symm (by simp)
  once := fun a => Nat.zero_le 1
  answered := nofun

namespace Orderly

variable {line : List Turn} {log : List Event} {a : Turn}

theorem nodup (h : Orderly line log) : line.Nodup :=
  h.sorted.imp fun {x y} hahead heq => by
    rw [heq] at hahead
    exact hahead.irrefl

/-- An answer: the caller leaves the line, and everyone else stays. -/
theorem answer (h : Orderly line log) {e : Event} (he : e = .started a ∨ e = .refused a)
    (hmem : a ∈ line) (hahead : e = .started a → ∀ b ∈ line, ¬ b.Ahead a) :
    Orderly (line.erase a) (log ++ [e]) := by
  have hturn : e.turn = a := by
    rcases he with rfl | rfl
    · rfl
    · rfl
  have hwaits := (h.waits a).1 hmem
  -- Who waits has had no answer, so this is the first.
  have hzero := answers_waiting hwaits
  have hone := answers_snoc log he
  refine ⟨h.sorted.sublist List.erase_sublist, ?_, ?_, ?_, ?_, ?_⟩
  · intro b
    by_cases hb : b = a
    · subst hb
      constructor
      · intro hin
        exact absurd hin (List.Nodup.not_mem_erase h.nodup)
      · intro hin
        have := answers_waiting hin
        omega
    · rw [List.mem_erase_of_ne hb, h.waits b, waiting_snoc_other (by rw [hturn]; exact Ne.symm hb)]
  · -- It starts from the front: nobody is ahead of it.
    refine h.fair.snoc ?_
    intro b hstart c hc
    rcases he with rfl | rfl
    · cases hstart
      exact hahead rfl c ((h.waits c).2 hc)
    · cases hstart
  · -- An answer is no arrival.
    refine h.arriving.snoc ?_
    rintro b rfl
    rcases he with he | he <;> cases he
  · intro b
    by_cases hb : b = a
    · subst hb
      omega
    · rw [answers_snoc_other (by rw [hturn]; exact Ne.symm hb)]
      exact h.once b
  · intro b hjoined hb
    by_cases hba : b = a
    · subst hba
      omega
    · rw [answers_snoc_other (by rw [hturn]; exact Ne.symm hba)]
      refine h.answered b ?_ fun hin => hb ((List.mem_erase_of_ne hba).2 hin)
      rcases List.mem_append.1 hjoined with hold | hnew
      · exact hold
      · rw [List.mem_singleton] at hnew
        rw [← hnew] at hturn
        exact absurd hturn hba

/-- The head of the line is started. -/
theorem start_head (h : Orderly (a :: line) log) : Orderly line (log ++ [.started a]) := by
  have hahead : ∀ b ∈ a :: line, ¬ b.Ahead a := by
    intro b hb
    rcases List.mem_cons.1 hb with rfl | hb
    · exact Turn.Ahead.irrefl b
    · exact (List.rel_of_pairwise_cons h.sorted hb).asymm
  have hrest := h.answer (.inl rfl) List.mem_cons_self fun _ => hahead
  rwa [List.erase_cons_head] at hrest

/-- The head of the line is refused. -/
theorem refuse_head (h : Orderly (a :: line) log) : Orderly line (log ++ [.refused a]) := by
  have hrest := h.answer (.inr rfl) List.mem_cons_self nofun
  rwa [List.erase_cons_head] at hrest

/-- Somebody in the line is refused. -/
theorem refuse (h : Orderly line log) (hmem : a ∈ line) :
    Orderly (line.erase a) (log ++ [.refused a]) :=
  h.answer (.inr rfl) hmem nofun

/-- A new caller is answered without joining; to be started it must find nobody waiting. -/
theorem answer_fresh (h : Orderly line log) {e : Event} (he : e = .started a ∨ e = .refused a)
    (hfresh : ∀ e ∈ log, e.turn.arrival < a.arrival) (hempty : e = .started a → line = []) :
    Orderly line (log ++ [e]) := by
  -- Nothing in the log is about the new turn.
  have hne : ∀ e' ∈ log, e'.turn ≠ a := by
    intro e' he' heq
    have := hfresh e' he'
    rw [heq] at this
    exact Nat.lt_irrefl _ this
  have hturn : e.turn = a := by
    rcases he with rfl | rfl
    · rfl
    · rfl
  have hzero := answers_fresh hne
  have hone := answers_snoc log he
  refine ⟨h.sorted, ?_, ?_, ?_, ?_, ?_⟩
  · intro b
    by_cases hb : b = a
    · subst hb
      constructor
      · intro hin
        exact absurd rfl (hne _ ((h.waits b).1 hin).1)
      · intro hin
        have := answers_waiting hin
        omega
    · rw [h.waits b, waiting_snoc_other (by rw [hturn]; exact Ne.symm hb)]
  · -- It starts at once only where nobody waits.
    refine h.fair.snoc ?_
    intro b hstart c hc
    rcases he with rfl | rfl
    · have hin := (h.waits c).2 hc
      rw [hempty rfl] at hin
      cases hin
    · cases hstart
  · -- An answer is no arrival.
    refine h.arriving.snoc ?_
    rintro b rfl
    rcases he with he | he <;> cases he
  · intro b
    by_cases hb : b = a
    · subst hb
      omega
    · rw [answers_snoc_other (by rw [hturn]; exact Ne.symm hb)]
      exact h.once b
  · intro b hjoined hb
    by_cases hba : b = a
    · subst hba
      omega
    · rw [answers_snoc_other (by rw [hturn]; exact Ne.symm hba)]
      refine h.answered b ?_ hb
      rcases List.mem_append.1 hjoined with hold | hnew
      · exact hold
      · rw [List.mem_singleton] at hnew
        rw [← hnew] at hturn
        exact absurd hturn hba

/-- A new caller joins, wherever the order puts it. -/
theorem join (h : Orderly line log) {line' : List Turn} (hperm : line'.Perm (a :: line))
    (hsorted : line'.Pairwise Turn.Ahead) (hfresh : ∀ e ∈ log, e.turn.arrival < a.arrival) :
    Orderly line' (log ++ [.joined a]) := by
  have hne : ∀ e ∈ log, e.turn ≠ a := by
    intro e he heq
    have := hfresh e he
    rw [heq] at this
    exact Nat.lt_irrefl _ this
  -- It has come, and nothing else is known of it.
  have hwaits : Waiting (log ++ [.joined a]) a := by
    refine ⟨List.mem_append_right _ List.mem_cons_self, ?_, ?_⟩
    · intro hin
      rcases List.mem_append.1 hin with hin | hin
      · exact hne _ hin rfl
      · cases List.mem_singleton.1 hin
    · intro hin
      rcases List.mem_append.1 hin with hin | hin
      · exact hne _ hin rfl
      · cases List.mem_singleton.1 hin
  refine ⟨hsorted, ?_, h.fair.snoc nofun, ?_, ?_, ?_⟩
  · intro b
    rw [hperm.mem_iff, List.mem_cons]
    by_cases hb : b = a
    · subst hb
      exact ⟨fun _ => hwaits, fun _ => .inl rfl⟩
    · rw [waiting_snoc_other (show (Event.joined a).turn ≠ b from Ne.symm hb), ← h.waits b]
      exact ⟨fun hin => hin.resolve_left hb, Or.inr⟩
  · -- Its number is above those before it.
    refine h.arriving.snoc ?_
    intro b heq e he
    cases heq
    exact hfresh e he
  · intro b
    by_cases hb : b = a
    · subst hb
      rw [answers_waiting hwaits]
      exact Nat.zero_le 1
    · rw [answers_snoc_other (show (Event.joined a).turn ≠ b from Ne.symm hb)]
      exact h.once b
  · intro b hjoined hb
    rw [hperm.mem_iff, List.mem_cons, not_or] at hb
    rw [answers_snoc_other (show (Event.joined a).turn ≠ b from Ne.symm hb.1)]
    refine h.answered b ?_ hb.2
    rcases List.mem_append.1 hjoined with hold | hnew
    · exact hold
    · cases List.mem_singleton.1 hnew
      exact absurd rfl hb.1

/-! ## What an orderly line has promised -/

/-- **One answer**: who has joined waits without an answer or has exactly one. -/
theorem one_answer (h : Orderly line log) (hjoined : .joined a ∈ log) :
    answers log a = if a ∈ line then 0 else 1 := by
  split
  · next hmem => exact answers_waiting ((h.waits a).1 hmem)
  · next hmem => exact h.answered a hjoined hmem

/-- Who was started was not refused. -/
theorem not_refused (h : Orderly line log) (hstarted : .started a ∈ log) : .refused a ∉ log := by
  intro hrefused
  have hone := h.once a
  have hs := List.count_pos_iff.2 hstarted
  have hr := List.count_pos_iff.2 hrefused
  unfold answers at hone
  omega

/-- Who stands ahead and had joined by then was started earlier, if at all. -/
theorem started_earlier (h : Orderly line log) {b : Turn} {pre post : List Event}
    (hcut : log = pre ++ .started b :: post) (hjoined : .joined a ∈ pre) (hahead : a.Ahead b)
    (hstarted : .started a ∈ log) : [.started a, .started b].Sublist log := by
  have hanswer : .started a ∈ pre := by
    by_contra hnot
    have hrefused : .refused a ∈ pre := by
      by_contra hnone
      exact h.fair pre b post hcut a ⟨hjoined, hnot, hnone⟩ hahead
    exact h.not_refused hstarted (hcut ▸ List.mem_append_left _ hrefused)
  rw [hcut]
  exact (List.singleton_sublist.2 hanswer).append (List.singleton_sublist.2 List.mem_cons_self)

/-- **Arrival order**: two callers of one class are started as they arrived. -/
theorem arrival_order (h : Orderly line log) {b : Turn} (hsame : a.first = b.first)
    (hlt : a.arrival < b.arrival) (hjoined : .joined a ∈ log) (ha : .started a ∈ log)
    (hb : .started b ∈ log) : [.started a, .started b].Sublist log := by
  obtain ⟨pre, post, hcut⟩ := List.append_of_mem hb
  refine h.started_earlier hcut ?_ (.inr ⟨hsame, hlt⟩) ha
  -- a join after the start of `b` would be the join of a later caller
  rw [hcut] at hjoined
  rcases List.mem_append.1 hjoined with hpre | hpost
  · exact hpre
  · rcases List.mem_cons.1 hpost with heq | hpost
    · cases heq
    · obtain ⟨mid, rest, hrest⟩ := List.append_of_mem hpost
      have := h.arriving (pre ++ .started b :: mid) a rest
        (by rw [hcut, hrest, List.append_assoc, List.cons_append])
        (.started b) (List.mem_append_right _ List.mem_cons_self)
      exact absurd this (Nat.lt_asymm hlt)

/-- **First callers**: one that joins is started before every ordinary caller then waiting. -/
theorem first_first (h : Orderly line log) {b : Turn} {pre post : List Event}
    (hcut : log = pre ++ .joined a :: post) (hfirst : a.first = true) (hordinary : b.first = false)
    (hwaits : Waiting pre b) (ha : .started a ∈ log) (hb : .started b ∈ log) :
    [.started a, .started b].Sublist log := by
  have hpost : .started b ∈ post := by
    rw [hcut] at hb
    rcases List.mem_append.1 hb with hpre | hrest
    · exact absurd hpre hwaits.2.1
    · rcases List.mem_cons.1 hrest with heq | hpost
      · cases heq
      · exact hpost
  obtain ⟨mid, rest, hrest⟩ := List.append_of_mem hpost
  have hcut' : log = (pre ++ .joined a :: mid) ++ .started b :: rest := by
    rw [hcut, hrest, List.append_assoc, List.cons_append]
  exact h.started_earlier hcut' (List.mem_append_right _ List.mem_cons_self)
    (.inl ⟨hfirst, hordinary⟩) ha

end Orderly

end Line
