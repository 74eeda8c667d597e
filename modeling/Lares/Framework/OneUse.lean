import Lares.Framework.System
import Mathlib.Data.List.Nodup
import Mathlib.Logic.Function.Basic

/-! # Things that are used once

    Each key can be claimed once. Whoever holds a claimed key passes it on, uses
    it, or is never heard of again.
-/

namespace OneUse

variable {K H : Type*} [DecidableEq K]

inductive Phase (H : Type*) where
  | unclaimed
  | held (holder : H)
  | used

structure State (K H : Type*) where
  phase : K → Phase H
  claims : List K
  uses : List K

inductive Label (K H : Type*) where
  | claim (key : K) (holder : H)
  | pass (key : K) (holder : H)
  | use (key : K)

namespace State

def set (s : State K H) (key : K) (phase : Phase H) : State K H :=
  { s with phase := Function.update s.phase key phase }

def next (s : State K H) : Label K H → Option (State K H)
  | .claim key holder =>
      match s.phase key with
      | .unclaimed => some { s.set key (.held holder) with claims := s.claims ++ [key] }
      | _ => none
  | .pass key holder =>
      match s.phase key with
      | .held _ => some (s.set key (.held holder))
      | _ => none
  | .use key =>
      match s.phase key with
      | .held _ => some { s.set key .used with uses := s.uses ++ [key] }
      | _ => none

end State

def oneUse : System (State K H) (Label K H) where
  init s := (∀ key, s.phase key = .unclaimed) ∧ s.claims = [] ∧ s.uses = []
  next := State.next

theorem run_claim {s : State K H} {key : K} (holder : H) (h : s.phase key = .unclaimed) :
    oneUse.run s [.claim key holder] =
      some { s.set key (.held holder) with claims := s.claims ++ [key] } := by
  simp only [System.run_cons, System.run_nil, oneUse, State.next, h, Option.bind_some]

theorem run_pass {s : State K H} {key : K} {holder : H} (holder' : H)
    (h : s.phase key = .held holder) :
    oneUse.run s [.pass key holder'] = some (s.set key (.held holder')) := by
  simp only [System.run_cons, System.run_nil, oneUse, State.next, h, Option.bind_some]

theorem run_use {s : State K H} {key : K} {holder : H} (h : s.phase key = .held holder) :
    oneUse.run s [.use key] = some { s.set key .used with uses := s.uses ++ [key] } := by
  simp only [System.run_cons, System.run_nil, oneUse, State.next, h, Option.bind_some]

/-- A key is claimed once and used once, and only after its claim. -/
structure Once (s : State K H) : Prop where
  /-- A key is claimed once. -/
  claims : s.claims.Nodup
  /-- A key is used once. -/
  uses : s.uses.Nodup
  /-- What is not unclaimed was claimed, and nothing else. -/
  claimed : ∀ key, key ∈ s.claims ↔ s.phase key ≠ .unclaimed
  /-- A key that was used is done with. -/
  used : ∀ key ∈ s.uses, s.phase key = .used

theorem set_self (s : State K H) (key : K) (phase : Phase H) : (s.set key phase).phase key = phase :=
  Function.update_self ..

theorem set_other (s : State K H) {key other : K} (phase : Phase H) (h : other ≠ key) :
    (s.set key phase).phase other = s.phase other := Function.update_of_ne h ..

/-- Passing on what is held changes neither who has claimed nor who has used. -/
theorem Once.pass {s : State K H} {key : K} {holder holder' : H} (h : Once s)
    (hheld : s.phase key = .held holder) : Once (s.set key (.held holder')) where
  claims := h.claims
  uses := h.uses
  claimed := by
    intro other
    rw [show (s.set key (.held holder')).claims = s.claims from rfl, h.claimed]
    by_cases hother : other = key
    · subst hother
      rw [set_self, hheld]
      exact ⟨fun _ => nofun, fun _ => nofun⟩
    · rw [set_other s _ hother]
  used := by
    intro other hmem
    have hused := h.used other hmem
    rw [set_other s _ ?_]
    · exact hused
    · rintro rfl
      rw [hheld] at hused
      cases hused

theorem once_step {s t : State K H} {label : Label K H} (h : Once s)
    (hstep : s.next label = some t) : Once t := by
  cases label with
  | claim key holder =>
    simp only [State.next] at hstep
    split at hstep
    · next hphase =>
      cases hstep
      -- Only an unclaimed key is claimed.
      have hnew : key ∉ s.claims := by
        rw [h.claimed, hphase]
        exact fun hne => hne rfl
      refine ⟨?_, h.uses, ?_, ?_⟩
      · rw [← List.concat_eq_append]
        exact h.claims.concat hnew
      · intro other
        rw [List.mem_append, List.mem_singleton, h.claimed]
        by_cases hother : other = key
        · subst hother
          rw [show State.phase _ other = _ from set_self s other _]
          exact ⟨fun _ => nofun, fun _ => .inr rfl⟩
        · rw [show State.phase _ other = _ from set_other s _ hother]
          exact ⟨fun hor => hor.resolve_right hother, .inl⟩
      · intro other hmem
        have hused := h.used other hmem
        refine (set_other s _ ?_).trans hused
        rintro rfl
        rw [hphase] at hused
        cases hused
    · cases hstep
  | pass key holder =>
    simp only [State.next] at hstep
    split at hstep
    · next hphase =>
      cases hstep
      -- Who holds the key is not recorded.
      exact h.pass hphase
    · cases hstep
  | use key =>
    simp only [State.next] at hstep
    split at hstep
    · next hphase =>
      cases hstep
      -- A key that is held was not used.
      have hnew : key ∉ s.uses := by
        intro hmem
        rw [h.used key hmem] at hphase
        cases hphase
      refine ⟨h.claims, ?_, ?_, ?_⟩
      · rw [← List.concat_eq_append]
        exact h.uses.concat hnew
      · intro other
        show other ∈ s.claims ↔ _
        rw [h.claimed]
        by_cases hother : other = key
        · subst hother
          rw [show State.phase _ other = _ from set_self s other _, hphase]
          exact ⟨fun _ => nofun, fun _ => nofun⟩
        · rw [show State.phase _ other = _ from set_other s _ hother]
      · intro other hmem
        rcases List.mem_append.1 hmem with hmem | hmem
        · by_cases hother : other = key
          · subst hother
            exact set_self s other _
          · exact (set_other s _ hother).trans (h.used other hmem)
        · rw [List.mem_singleton.1 hmem]
          exact set_self s key _
    · cases hstep

/-- **Once**: over every run. -/
theorem once_run {s t : State K H} {labels : List (Label K H)}
    (hinit : (oneUse (K := K) (H := H)).init s)
    (hrun : (oneUse (K := K) (H := H)).run s labels = some t) : Once t := by
  refine (oneUse (K := K) (H := H)).run_invariant (fun _ _ _ h hstep => once_step h hstep) ?_ hrun
  obtain ⟨hphase, hclaims, huses⟩ := hinit
  refine ⟨?_, ?_, ?_, ?_⟩
  · rw [hclaims]
    exact List.nodup_nil
  · rw [huses]
    exact List.nodup_nil
  · intro key
    rw [hclaims, hphase]
    exact ⟨nofun, fun hne => absurd rfl hne⟩
  · intro key hmem
    rw [huses] at hmem
    cases hmem

end OneUse
