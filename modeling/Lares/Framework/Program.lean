import Mathlib.Logic.Basic

/-! # Programs with state and failure

    A program reads and writes a state and returns or fails (`EStateM`); a
    failure keeps what was written before it, as an exception does.

    * **Triples**: `Triple P x Q E` says that from a state with `P` the program
      returns in a state with `Q`, or fails in one with `E`.
    * **Kept assertions**: `Keeps I x` says that `I` survives the program,
      however it ends.
    * **Rules**: one for each way to build a program. A handler starts where the
      failure left the state.
-/

namespace Program

variable {ε σ α β : Type}

/-! ## Section 1: Ways to build a program -/

/-- Run the program only under a condition. -/
def onlyIf (c : Prop) [Decidable c] (x : EStateM ε σ Unit) : EStateM ε σ Unit :=
  if c then x else pure ()

/-- Fail under a condition. -/
def failIf (c : Prop) [Decidable c] (e : ε) : EStateM ε σ Unit := onlyIf c (throw e)

/-- Run the program and return how it ended. -/
def attempt (x : EStateM ε σ α) : EStateM ε σ (Except ε α) := fun s =>
  match x s with
  | .ok a t => .ok (.ok a) t
  | .error e t => .ok (.error e) t

/-- Return or fail as an attempt ended. -/
def resume : Except ε α → EStateM ε σ α
  | .ok a => pure a
  | .error e => throw e

/-! ## Section 2: Triples -/

/-- From a state with `P` the program returns with `Q` or fails with `E`. -/
def Triple (P : σ → Prop) (x : EStateM ε σ α) (Q : α → σ → Prop) (E : ε → σ → Prop) : Prop :=
  ∀ s, P s → match x s with
    | .ok a t => Q a t
    | .error e t => E e t

variable {P P' : σ → Prop} {Q Q' : α → σ → Prop} {E E' : ε → σ → Prop} {x : EStateM ε σ α}

theorem Triple.pure {a : α} (h : ∀ s, P s → Q a s) : Triple P (pure a) Q E := fun s hs => h s hs

theorem Triple.throw {e : ε} (h : ∀ s, P s → E e s) : Triple P (throw e) Q E := fun s hs => h s hs

theorem Triple.get {Q : σ → σ → Prop} (h : ∀ s, P s → Q s s) :
    Triple (ε := ε) P get Q E := fun s hs => h s hs

theorem Triple.modify {f : σ → σ} {Q : PUnit → σ → Prop} (h : ∀ s, P s → Q ⟨⟩ (f s)) :
    Triple (ε := ε) P (modify f) Q E := fun s hs => h s hs

theorem Triple.consequence (h : Triple P' x Q' E') (hP : ∀ s, P s → P' s)
    (hQ : ∀ a s, Q' a s → Q a s) (hE : ∀ e s, E' e s → E e s) : Triple P x Q E := by
  intro s hs
  have := h s (hP s hs)
  split at this
  · exact hQ _ _ this
  · exact hE _ _ this

/-- A fact that does not depend on the state may be used about the program. -/
theorem Triple.fact {p : Prop} (h : p → Triple P x Q E) : Triple (fun s => p ∧ P s) x Q E :=
  fun s hs => h hs.1 s hs.2

theorem Triple.bind {f : α → EStateM ε σ β} {M : α → σ → Prop} {Q : β → σ → Prop}
    (hx : Triple P x M E) (hf : ∀ a, Triple (M a) (f a) Q E) : Triple P (x >>= f) Q E := by
  intro s hs
  have h := hx s hs
  show match EStateM.bind x f s with | .ok b t => Q b t | .error e t => E e t
  unfold EStateM.bind
  cases hr : x s with
  | ok a t => rw [hr] at h; exact hf a t h
  | error e t => rw [hr] at h; exact h

theorem Triple.tryCatch {handler : ε → EStateM ε σ α} {M : ε → σ → Prop}
    (hx : Triple P x Q M) (hh : ∀ e, Triple (M e) (handler e) Q E) :
    Triple P (tryCatch x handler) Q E := by
  intro s hs
  have h := hx s hs
  show match EStateM.tryCatch x handler s with | .ok b t => Q b t | .error e t => E e t
  unfold EStateM.tryCatch
  cases hr : x s with
  | ok a t => rw [hr] at h; exact h
  | error e t => rw [hr] at h; exact hh e t h

theorem Triple.onlyIf {c : Prop} [Decidable c] {x : EStateM ε σ Unit} {Q : Unit → σ → Prop}
    (hx : c → Triple P x Q E) (hskip : ¬c → ∀ s, P s → Q () s) : Triple P (onlyIf c x) Q E := by
  unfold Program.onlyIf
  split
  · next h => exact hx h
  · next h => exact Triple.pure (hskip h)

theorem Triple.attempt {F : ε → σ → Prop} (hx : Triple P x Q E) :
    Triple P (attempt x) (fun r s => match r with | .ok a => Q a s | .error e => E e s) F := by
  intro s hs
  have h := hx s hs
  unfold Program.attempt
  cases hr : x s with
  | ok a t => rw [hr] at h; exact h
  | error e t => rw [hr] at h; exact h

/-! ## Section 3: Kept assertions -/

/-- The assertion survives the program, however it ends. -/
def Keeps (I : σ → Prop) (x : EStateM ε σ α) : Prop := Triple I x (fun _ => I) (fun _ => I)

variable {I : σ → Prop}

theorem Keeps.pure {a : α} : Keeps (ε := ε) I (pure a) := Triple.pure fun _ h => h

theorem Keeps.throw {e : ε} : Keeps (ε := ε) (α := α) I (throw e) := Triple.throw fun _ h => h

theorem Keeps.get : Keeps (ε := ε) I get := Triple.get fun _ h => h

theorem Keeps.modify {f : σ → σ} (h : ∀ s, I s → I (f s)) : Keeps (ε := ε) I (modify f) :=
  Triple.modify h

theorem Keeps.bind {f : α → EStateM ε σ β} (hx : Keeps I x) (hf : ∀ a, Keeps I (f a)) :
    Keeps I (x >>= f) := Triple.bind hx hf

theorem Keeps.tryCatch {handler : ε → EStateM ε σ α} (hx : Keeps I x)
    (hh : ∀ e, Keeps I (handler e)) : Keeps I (tryCatch x handler) := Triple.tryCatch hx hh

theorem Keeps.ite {c : Prop} [Decidable c] {y : EStateM ε σ α} (hx : Keeps I x) (hy : Keeps I y) :
    Keeps I (if c then x else y) := by
  split
  · exact hx
  · exact hy

theorem Keeps.onlyIf {c : Prop} [Decidable c] {x : EStateM ε σ Unit} (hx : Keeps I x) :
    Keeps I (onlyIf c x) := Triple.onlyIf (fun _ => hx) fun _ _ h => h

theorem Keeps.failIf {c : Prop} [Decidable c] {e : ε} : Keeps I (failIf c e) :=
  Keeps.onlyIf Keeps.throw

theorem Keeps.attempt (hx : Keeps I x) : Keeps I (attempt x) :=
  (Triple.attempt hx).consequence (fun _ h => h)
    (fun r s h => by cases r <;> exact h) fun _ _ h => h

theorem Keeps.resume {r : Except ε α} : Keeps I (resume r) := by
  cases r with
  | ok a => exact Keeps.pure
  | error e => exact Keeps.throw

theorem Keeps.optionForM {γ : Type} {body : γ → EStateM ε σ PUnit} {item : Option γ}
    (h : ∀ a, Keeps I (body a)) : Keeps I (forM item body) := by
  cases item with
  | none => exact Keeps.pure
  | some a => exact h a

/-- A loop whose body keeps the assertion keeps it. -/
theorem Keeps.forM {γ : Type} {body : γ → EStateM ε σ PUnit} {items : List γ}
    (h : ∀ a ∈ items, Keeps I (body a)) : Keeps I (forM items body) := by
  induction items with
  | nil => exact Keeps.pure
  | cons a items ih =>
    rw [List.forM_cons]
    exact Keeps.bind (h a List.mem_cons_self) fun _ => ih fun b hb => h b (List.mem_cons_of_mem _ hb)

/-! ## Section 4: The state a program leaves -/

/-- The state in which a program ends, however it ends. -/
def final (x : EStateM ε σ α) (s : σ) : σ :=
  match x s with
  | .ok _ t => t
  | .error _ t => t

theorem Triple.final (h : Triple P x (fun _ => I) (fun _ => I)) {s : σ} (hs : P s) :
    I (final x s) := by
  have := h s hs
  unfold Program.final
  cases hx : x s with
  | ok a t => rw [hx] at this; exact this
  | error e t => rw [hx] at this; exact this

end Program
