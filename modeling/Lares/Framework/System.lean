import Mathlib.Data.List.Induction

/-! # Labelled transition systems with executable steps

    A system is a set of initial states and a partial step function. All
    nondeterminism (the caller's arguments, the clock, a lost answer) sits
    in the label, so a run on a concrete label list can be evaluated.

    * **Runs**: `run s ls` follows the labels `ls` from `s`.
    * **Visited states**: every state a run goes through, both ends included.
    * **Proof rules**: an invariant of one step is an invariant of a run;
      a preorder respected by one step relates the ends of a run.
-/

/-- A labelled transition system whose steps can be evaluated. -/
structure System (State : Type*) (Label : Type*) where
  init : State → Prop
  next : State → Label → Option State

namespace System

variable {State Label : Type*} (sys : System State Label)

/-! ## Runs -/

/-- The state after the labels, if every step is enabled. -/
def run (s : State) : List Label → Option State
  | [] => some s
  | l :: ls => (sys.next s l).bind fun t => run t ls

@[simp] theorem run_nil (s : State) : sys.run s [] = some s := rfl

@[simp] theorem run_cons (s : State) (l : Label) (ls : List Label) :
    sys.run s (l :: ls) = (sys.next s l).bind fun t => sys.run t ls := rfl

theorem run_append (s : State) (ls ms : List Label) :
    sys.run s (ls ++ ms) = (sys.run s ls).bind fun t => sys.run t ms := by
  induction ls generalizing s with
  | nil => simp
  | cons l ls ih =>
    cases h : sys.next s l with
    | none => simp [h]
    | some t => simp [h, ih t]

/-- A run is a shorter run followed by one step. -/
theorem run_snoc {s u : State} {ls : List Label} {l : Label} :
    sys.run s (ls ++ [l]) = some u ↔
      ∃ t, sys.run s ls = some t ∧ sys.next t l = some u := by
  rw [run_append]
  cases h : sys.run s ls with
  | none => simp
  | some t => cases hn : sys.next t l <;> simp [hn]

/-- `t` is one of the states the run goes through. -/
def Visits (s : State) (ls : List Label) (t : State) : Prop :=
  ∃ pre, pre <+: ls ∧ sys.run s pre = some t

theorem visits_start (s : State) (ls : List Label) : sys.Visits s ls s :=
  ⟨[], List.nil_prefix, rfl⟩

theorem visits_end {s t : State} {ls : List Label} (h : sys.run s ls = some t) :
    sys.Visits s ls t :=
  ⟨ls, List.prefix_refl ls, h⟩

theorem visits_mono {s t : State} {ls ms : List Label} (hp : ls <+: ms)
    (h : sys.Visits s ls t) : sys.Visits s ms t := by
  obtain ⟨pre, hpre, hrun⟩ := h
  exact ⟨pre, hpre.trans hp, hrun⟩

theorem visits_nil {s t : State} : sys.Visits s [] t ↔ t = s := by
  constructor
  · rintro ⟨pre, hpre, hrun⟩
    rw [List.prefix_nil.1 hpre] at hrun
    exact (Option.some.inj hrun).symm
  · rintro rfl
    exact sys.visits_start t []

theorem visits_cons {s t : State} {l : Label} {ls : List Label} :
    sys.Visits s (l :: ls) t ↔ t = s ∨ ∃ u, sys.next s l = some u ∧ sys.Visits u ls t := by
  constructor
  · rintro ⟨pre, hpre, hrun⟩
    cases pre with
    | nil => exact .inl (Option.some.inj hrun).symm
    | cons m ms =>
      obtain ⟨rfl, hms⟩ := List.cons_prefix_cons.1 hpre
      obtain ⟨u, hu, hrun⟩ := Option.bind_eq_some_iff.1 hrun
      exact .inr ⟨u, hu, ms, hms, hrun⟩
  · rintro (rfl | ⟨u, hu, pre, hpre, hrun⟩)
    · exact sys.visits_start t _
    · exact ⟨l :: pre, List.cons_prefix_cons.2 ⟨rfl, hpre⟩, by simp [hu, hrun]⟩

/-- A state is reachable if some run from an initial state ends there. -/
def Reachable (t : State) : Prop :=
  ∃ s ls, sys.init s ∧ sys.run s ls = some t

/-! ## Proof rules -/

/-- Induction over a run from its start: one case for the empty run, one for
    a run that is extended by a step. -/
theorem run_induction {s : State} {motive : List Label → State → Prop}
    (base : motive [] s)
    (step : ∀ ls t l u, sys.run s ls = some t → motive ls t → sys.next t l = some u →
      motive (ls ++ [l]) u) :
    ∀ {ls t}, sys.run s ls = some t → motive ls t := by
  intro ls
  induction ls using List.reverseRecOn with
  | nil =>
    intro t h
    cases h
    exact base
  | append_singleton ls l ih =>
    intro u h
    obtain ⟨t, ht, hu⟩ := (run_snoc sys).1 h
    exact step ls t l u ht (ih ht) hu

/-- **Invariant rule**: what one step preserves, a run preserves. -/
theorem run_invariant {I : State → Prop}
    (hstep : ∀ s l t, I s → sys.next s l = some t → I t)
    {s t : State} {ls : List Label} (hs : I s) (h : sys.run s ls = some t) : I t :=
  run_induction sys (motive := fun _ u => I u) hs
    (fun _ t l u _ ht hu => hstep t l u ht hu) h

/-- **Reachability rule**: an invariant of the initial states and of one step
    holds in every reachable state. -/
theorem reachable_invariant {I : State → Prop} (hinit : ∀ s, sys.init s → I s)
    (hstep : ∀ s l t, I s → sys.next s l = some t → I t)
    {t : State} (h : sys.Reachable t) : I t := by
  obtain ⟨s, ls, hs, hrun⟩ := h
  exact sys.run_invariant hstep (hinit s hs) hrun

/-- **Preorder rule**: a reflexive and transitive relation that holds across one
    step (from a state with the invariant `I`) holds across a run. -/
theorem run_relation {I : State → Prop} {R : State → State → Prop}
    (hrefl : ∀ s, R s s) (htrans : ∀ s t u, R s t → R t u → R s u)
    (hinv : ∀ s l t, I s → sys.next s l = some t → I t)
    (hstep : ∀ s l t, I s → sys.next s l = some t → R s t)
    {s t : State} {ls : List Label} (hs : I s) (h : sys.run s ls = some t) : R s t := by
  have both : I t ∧ R s t :=
    run_induction sys (motive := fun _ u => I u ∧ R s u) ⟨hs, hrefl s⟩
      (fun _ t l u _ ht hu =>
        ⟨hinv t l u ht.1 hu, htrans s t u ht.2 (hstep t l u ht.1 hu)⟩) h
  exact both.2

/-- **Simulation rule**: if each step is matched by steps of another system, each run is. -/
theorem simulation {State' Label' : Type*} {sys' : System State' Label'}
    {R : State → State' → Prop} (hinit : ∀ s, sys.init s → ∃ a, sys'.init a ∧ R s a)
    (hstep : ∀ s l t a, R s a → sys.next s l = some t → ∃ ms b, sys'.run a ms = some b ∧ R t b)
    {s t : State} {ls : List Label} (hs : sys.init s) (h : sys.run s ls = some t) :
    ∃ a b ms, sys'.init a ∧ sys'.run a ms = some b ∧ R t b := by
  obtain ⟨a, ha, hR⟩ := hinit s hs
  have hrun : ∃ b ms, sys'.run a ms = some b ∧ R t b :=
    run_induction sys (motive := fun _ u => ∃ b ms, sys'.run a ms = some b ∧ R u b)
      ⟨a, [], rfl, hR⟩
      (fun _ t l u _ ht hu => by
        obtain ⟨b, ms, hb, hR⟩ := ht
        obtain ⟨ns, b', hb', hR'⟩ := hstep t l u b hR hu
        exact ⟨b', ms ++ ns, by rw [run_append, hb]; exact hb', hR'⟩) h
  obtain ⟨b, ms, hb, hR'⟩ := hrun
  exact ⟨a, b, ms, ha, hb, hR'⟩

/-- Every step of the run meets the condition, which may look at the state before it. -/
def AllSteps (P : State → Label → Prop) : State → List Label → Prop
  | _, [] => True
  | s, l :: ls => P s l ∧ ∀ t, sys.next s l = some t → AllSteps P t ls

instance decidableAllSteps {P : State → Label → Prop} [∀ s l, Decidable (P s l)] :
    ∀ (s : State) (ls : List Label), Decidable (sys.AllSteps P s ls)
  | _, [] => .isTrue trivial
  | s, l :: ls =>
      match hnext : sys.next s l with
      | none => decidable_of_iff (P s l) ⟨fun h => ⟨h, fun t ht => by rw [hnext] at ht; cases ht⟩,
          And.left⟩
      | some t =>
          have : Decidable (sys.AllSteps P t ls) := decidableAllSteps t ls
          decidable_of_iff (P s l ∧ sys.AllSteps P t ls)
            ⟨fun h => ⟨h.1, fun u hu => by rw [hnext] at hu; cases hu; exact h.2⟩,
              fun h => ⟨h.1, h.2 t hnext⟩⟩

/-- What holds before each step and at the end holds in every visited state. -/
theorem of_visits {P : State → Prop} {s t : State} {ls : List Label}
    (hall : sys.AllSteps (fun s _ => P s) s ls) (hend : ∀ u, sys.run s ls = some u → P u)
    (h : sys.Visits s ls t) : P t := by
  induction ls generalizing s with
  | nil =>
    obtain rfl := (sys.visits_nil).1 h
    exact hend t rfl
  | cons l ls ih =>
    rcases (sys.visits_cons).1 h with rfl | ⟨u, hu, hvisits⟩
    · exact hall.1
    · refine ih (hall.2 u hu) (fun v hv => hend v ?_) hvisits
      rw [run_cons, hu]
      exact hv

/-- **Conditional invariant rule**: what a step that meets the condition preserves, a run whose
    steps all meet it preserves. -/
theorem run_invariant_of_allSteps {I : State → Prop} {P : State → Label → Prop}
    (hstep : ∀ s l t, I s → P s l → sys.next s l = some t → I t) {s t : State} {ls : List Label}
    (hs : I s) (hall : sys.AllSteps P s ls) (h : sys.run s ls = some t) : I t := by
  induction ls generalizing s with
  | nil =>
    cases h
    exact hs
  | cons l ls ih =>
    obtain ⟨u, hu, hrun⟩ := Option.bind_eq_some_iff.1 h
    exact ih (hstep s l u hs hall.1 hu) (hall.2 u hu) hrun

end System
