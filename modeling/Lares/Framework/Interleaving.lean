import Lares.Framework.System
import Mathlib.Logic.Function.Basic

/-! # Requests that interleave over one state

    Any number of requests are in flight over a state they share. A request
    takes its steps when it likes, and may be dropped between two of them.

    * **Steps**: what a request does next, given an answer of the environment.
    * **Conditions**: a predicate on the steps that a run takes.
    * **Rely and guarantee**: each step keeps an invariant of the shared state
      and stays within a relation; what a request knows survives the relation.
    * **Ownership**: a key that a request has taken is no other request's, so
      what it knows of the key survives the steps of all others.
-/

universe u v w x

/-- What requests do to the state they share. -/
structure Requests (Shared : Type u) (Request : Type v) (Answer : Type w) (Event : Type x) where
  begins : Shared → Request → Bool
  /-- No outcome: the request cannot go on with this answer. No request left: it is over. -/
  step : Shared → Request → Answer → Option (Shared × Option Request)
  /-- What happens without a request. -/
  happens : Shared → Event → Option Shared

namespace Requests

variable {Shared : Type u} {Request : Type v} {Answer : Type w} {Event : Type x}

structure State (Shared : Type u) (Request : Type v) where
  shared : Shared
  inFlight : Nat → Option Request

inductive Label (Request : Type v) (Answer : Type w) (Event : Type x) where
  /-- A request comes in. -/
  | call (id : Nat) (req : Request)
  /-- It takes its next step. -/
  | step (id : Nat) (answer : Answer)
  /-- It is given up: a crash, or an answer that is lost. -/
  | drop (id : Nat)
  /-- Something happens beside the requests. -/
  | happen (event : Event)
deriving DecidableEq

variable (rs : Requests Shared Request Answer Event)

def next (s : State Shared Request) : Label Request Answer Event → Option (State Shared Request)
  | .call id req =>
      match s.inFlight id with
      | some _ => none
      | none =>
          if rs.begins s.shared req then
            some { s with inFlight := Function.update s.inFlight id (some req) }
          else none
  | .step id answer =>
      match s.inFlight id with
      | none => none
      | some req =>
          (rs.step s.shared req answer).map fun (shared, left) =>
            ⟨shared, Function.update s.inFlight id left⟩
  | .drop id => some { s with inFlight := Function.update s.inFlight id none }
  | .happen event => (rs.happens s.shared event).map fun shared => { s with shared }

/-- The system that starts in a shared state, with nothing in flight. -/
def system (init : Shared → Prop) : System (State Shared Request) (Label Request Answer Event) where
  init s := init s.shared ∧ ∀ id, s.inFlight id = none
  next := rs.next

/-- The step of a request meets the condition. There is no answer where the request is dropped. -/
def Meets (P : Shared → Request → Option Answer → Prop) (s : State Shared Request) :
    Label Request Answer Event → Prop
  | .step id answer => ∀ req, s.inFlight id = some req → P s.shared req (some answer)
  | .drop id => ∀ req, s.inFlight id = some req → P s.shared req none
  | _ => True

instance {P : Shared → Request → Option Answer → Prop}
    [∀ s req answer, Decidable (P s req answer)] (s : State Shared Request) :
    ∀ label : Label Request Answer Event, Decidable (Meets P s label)
  | .step id answer =>
      inferInstanceAs (Decidable (∀ req ∈ s.inFlight id, P s.shared req (some answer)))
  | .drop id => inferInstanceAs (Decidable (∀ req ∈ s.inFlight id, P s.shared req none))
  | .call _ _ => .isTrue trivial
  | .happen _ => .isTrue trivial

variable {rs} in
/-- **What a label can do** to the shared state. -/
theorem next_shared {s t : State Shared Request} {label : Label Request Answer Event}
    (hnext : rs.next s label = some t) :
    t.shared = s.shared ∨
    (∃ id answer req left, label = .step id answer ∧ s.inFlight id = some req ∧
      rs.step s.shared req answer = some (t.shared, left)) ∨
    ∃ event, label = .happen event ∧ rs.happens s.shared event = some t.shared := by
  cases label with
  | call id req =>
    simp only [Requests.next] at hnext
    split at hnext
    · cases hnext
    · split at hnext
      · cases hnext
        exact .inl rfl
      · cases hnext
  | step id answer =>
    simp only [Requests.next] at hnext
    split at hnext
    · cases hnext
    next req hreq =>
      obtain ⟨⟨shared, left⟩, hstep, rfl⟩ := Option.map_eq_some_iff.1 hnext
      exact .inr (.inl ⟨id, answer, req, left, rfl, hreq, hstep⟩)
  | drop id =>
    cases hnext
    exact .inl rfl
  | happen event =>
    obtain ⟨shared, hhappens, rfl⟩ := Option.map_eq_some_iff.1 hnext
    exact .inr (.inr ⟨event, rfl, hhappens⟩)

/-! ## Rely and guarantee -/

/-- The shared state has `I`, and each request knows its `K`. -/
def Inv (I : Shared → Prop) (K : Shared → Request → Prop) (s : State Shared Request) : Prop :=
  I s.shared ∧ ∀ id req, s.inFlight id = some req → K s.shared req

/-- A step that meets `P` keeps `I` and stays within the preorder `R`, which takes no knowledge
    away. -/
structure Keeps (P : Shared → Request → Option Answer → Prop) (I : Shared → Prop)
    (K : Shared → Request → Prop) (R : Shared → Shared → Prop) : Prop where
  /-- What only grows, may stay. -/
  refl : ∀ s, R s s
  /-- It grows over any number of steps. -/
  trans : ∀ s t u, R s t → R t u → R s u
  /-- What a request knows, it knows later. -/
  stable : ∀ s t req, R s t → K s req → K t req
  /-- A request begins with what it needs to know. -/
  begins : ∀ s req, I s → rs.begins s req = true → K s req
  /-- One step of a request. -/
  step : ∀ s req answer t left, I s → K s req → P s req (some answer) →
    rs.step s req answer = some (t, left) → I t ∧ R s t ∧ ∀ req', left = some req' → K t req'
  /-- One event of the environment. -/
  happens : ∀ s event t, I s → rs.happens s event = some t → I t ∧ R s t

variable {rs} {P : Shared → Request → Option Answer → Prop} {I : Shared → Prop}
  {K : Shared → Request → Prop} {R : Shared → Shared → Prop}

/-- What is left of one request, beside the others. -/
theorem update_knows {inFlight : Nat → Option Request} {t : Shared} {id : Nat}
    {left : Option Request} (hothers : ∀ id req, inFlight id = some req → K t req)
    (hleft : ∀ req, left = some req → K t req) :
    ∀ id' req, Function.update inFlight id left id' = some req → K t req := by
  intro id' req hreq
  by_cases hid : id' = id
  · subst hid
    rw [Function.update_self] at hreq
    exact hleft req hreq
  · rw [Function.update_of_ne hid] at hreq
    exact hothers id' req hreq

theorem Keeps.next (h : rs.Keeps P I K R) {s t : State Shared Request}
    {label : Label Request Answer Event} (hs : Inv I K s) (hP : Meets P s label)
    (hnext : rs.next s label = some t) : Inv I K t ∧ R s.shared t.shared := by
  cases label with
  | call id req =>
    simp only [Requests.next] at hnext
    split at hnext
    · cases hnext
    · split at hnext
      next hbegins =>
        cases hnext
        have hnew := h.begins _ _ hs.1 hbegins
        exact ⟨⟨hs.1, update_knows hs.2 (by simpa using hnew)⟩, h.refl _⟩
      · cases hnext
  | step id answer =>
    simp only [Requests.next] at hnext
    split at hnext
    · cases hnext
    next req hreq =>
      obtain ⟨⟨shared, left⟩, hstep, rfl⟩ := Option.map_eq_some_iff.1 hnext
      obtain ⟨hI, hR, hleft⟩ := h.step _ _ _ _ _ hs.1 (hs.2 id req hreq) (hP req hreq) hstep
      have hothers : ∀ id req, s.inFlight id = some req → K shared req :=
        fun id req hreq => h.stable _ _ _ hR (hs.2 id req hreq)
      exact ⟨⟨hI, update_knows hothers hleft⟩, hR⟩
  | drop id =>
    cases hnext
    exact ⟨⟨hs.1, update_knows hs.2 (by simp)⟩, h.refl _⟩
  | happen event =>
    obtain ⟨shared, hhappens, rfl⟩ := Option.map_eq_some_iff.1 hnext
    obtain ⟨hI, hR⟩ := h.happens _ _ _ hs.1 hhappens
    exact ⟨⟨hI, fun id req hreq => h.stable _ _ _ hR (hs.2 id req hreq)⟩, hR⟩

/-- **Rely-guarantee rule**: over a run whose steps meet the condition. -/
theorem Keeps.run (h : rs.Keeps P I K R) {init : Shared → Prop} {s t : State Shared Request}
    {labels : List (Label Request Answer Event)} (hs : Inv I K s)
    (hP : (rs.system init).AllSteps (Meets P) s labels)
    (hrun : (rs.system init).run s labels = some t) : Inv I K t ∧ R s.shared t.shared := by
  induction labels generalizing s with
  | nil =>
    cases hrun
    exact ⟨hs, h.refl _⟩
  | cons label labels ih =>
    obtain ⟨u, hu, hrun⟩ := Option.bind_eq_some_iff.1 hrun
    obtain ⟨hinv, hsu⟩ := h.next hs hP.1 hu
    obtain ⟨hinv', hut⟩ := ih hinv (hP.2 u hu) hrun
    exact ⟨hinv', h.trans _ _ _ hsu hut⟩

/-- Where nothing is in flight, nobody knows anything. -/
theorem inv_init {init : Shared → Prop} (hinit : ∀ s, init s → I s) {s : State Shared Request}
    (hs : (rs.system init).init s) : Inv I K s := by
  refine ⟨hinit s.shared hs.1, ?_⟩
  intro id req hreq
  rw [hs.2 id] at hreq
  cases hreq

/-- Every run meets no condition. -/
theorem allSteps_true {init : Shared → Prop} (s : State Shared Request)
    (labels : List (Label Request Answer Event)) :
    (rs.system init).AllSteps (Meets fun _ _ _ => True) s labels := by
  induction labels generalizing s with
  | nil => trivial
  | cons label labels ih =>
    refine ⟨?_, fun u _ => ih u⟩
    cases label with
    | call id req => trivial
    | step id answer => exact fun _ _ => trivial
    | drop id => exact fun _ _ => trivial
    | happen event => trivial

/-! ## Ownership -/

section Ownership

universe y

variable {Key : Type y}

/-- Each request knows its `K`, and no two requests own one key. -/
def OwnedInv (I : Shared → Prop) (K : Shared → Request → Prop) (own : Request → Option Key)
    (s : State Shared Request) : Prop :=
  Inv I K s ∧ ∀ i j req req' k, s.inFlight i = some req → s.inFlight j = some req' →
    own req = some k → own req' = some k → i = j

/-- `R s t o` is what a step may do that is taken by an owner of `o`. A key that a step makes its
    own had not been taken before. -/
structure KeepsOwned (rs : Requests Shared Request Answer Event)
    (P : Shared → Request → Option Answer → Prop) (I : Shared → Prop)
    (K : Shared → Request → Prop) (own : Request → Option Key) (Taken : Shared → Key → Prop)
    (R : Shared → Shared → Option Key → Prop) : Prop where
  /-- Only the owner of a key can spoil what is known of it. -/
  stable : ∀ s t o req, R s t o → (∀ k, own req = some k → o ≠ some k) → K s req → K t req
  /-- What is owned is taken. -/
  taken : ∀ s req k, K s req → own req = some k → Taken s k
  /-- A request begins without a key. -/
  begins : ∀ s req, I s → rs.begins s req = true → K s req ∧ own req = none
  /-- A step keeps the invariant, and takes no key that was taken. -/
  step : ∀ s req answer t left, I s → K s req → P s req (some answer) →
    rs.step s req answer = some (t, left) → I t ∧ R s t (own req) ∧
      ∀ req', left = some req' → K t req' ∧ ∀ k, own req' = some k → own req = some k ∨ ¬Taken s k
  /-- So does what happens beside the requests. -/
  happens : ∀ s event t, I s → rs.happens s event = some t → I t ∧ R s t none

variable {own : Request → Option Key} {Taken : Shared → Key → Prop}
  {R : Shared → Shared → Option Key → Prop}

/-- One request is replaced by what owns nothing that another one owns. -/
theorem update_owned {inFlight : Nat → Option Request} {id : Nat} {left : Option Request}
    (hothers : ∀ i j req req' k, inFlight i = some req → inFlight j = some req' →
      own req = some k → own req' = some k → i = j)
    (hleft : ∀ req k, left = some req → own req = some k → ∀ j req', j ≠ id →
      inFlight j = some req' → own req' ≠ some k) :
    ∀ i j req req' k, Function.update inFlight id left i = some req →
      Function.update inFlight id left j = some req' → own req = some k → own req' = some k →
        i = j := by
  intro i j req req' k hi hj hk hk'
  by_cases hid : i = id <;> by_cases hjd : j = id
  · exact hid.trans hjd.symm
  · subst hid
    rw [Function.update_self] at hi
    rw [Function.update_of_ne hjd] at hj
    exact absurd hk' (hleft req k hi hk j req' hjd hj)
  · subst hjd
    rw [Function.update_self] at hj
    rw [Function.update_of_ne hid] at hi
    exact absurd hk (hleft req' k hj hk' i req hid hi)
  · rw [Function.update_of_ne hid] at hi
    rw [Function.update_of_ne hjd] at hj
    exact hothers i j req req' k hi hj hk hk'

theorem KeepsOwned.next (h : rs.KeepsOwned P I K own Taken R) {s t : State Shared Request}
    {label : Label Request Answer Event} (hs : OwnedInv I K own s) (hP : Meets P s label)
    (hnext : rs.next s label = some t) : OwnedInv I K own t := by
  obtain ⟨⟨hI, hK⟩, howned⟩ := hs
  cases label with
  | call id req =>
    simp only [Requests.next] at hnext
    split at hnext
    · cases hnext
    · split at hnext
      next hbegins =>
        cases hnext
        obtain ⟨hnew, hnone⟩ := h.begins _ _ hI hbegins
        refine ⟨⟨hI, update_knows hK (by simpa using hnew)⟩, update_owned howned ?_⟩
        intro req' k hreq' hk
        cases hreq'
        rw [hnone] at hk
        cases hk
      · cases hnext
  | step id answer =>
    simp only [Requests.next] at hnext
    split at hnext
    · cases hnext
    next req hreq =>
      obtain ⟨⟨shared, left⟩, hstep, rfl⟩ := Option.map_eq_some_iff.1 hnext
      obtain ⟨hI', hR, hleft⟩ := h.step _ _ _ _ _ hI (hK id req hreq) (hP req hreq) hstep
      -- the others own other keys, so they still know what they knew
      have hstable : ∀ id' req', Function.update s.inFlight id left id' = some req' →
          K shared req' := by
        intro id' req' hreq'
        by_cases hid : id' = id
        · subst hid
          rw [Function.update_self] at hreq'
          exact (hleft req' hreq').1
        · rw [Function.update_of_ne hid] at hreq'
          refine h.stable _ _ _ _ hR ?_ (hK id' req' hreq')
          intro k hk hown
          exact hid (howned id' id req' req k hreq' hreq hk hown)
      refine ⟨⟨hI', hstable⟩, update_owned howned ?_⟩
      intro req' k hreq' hk j other hj hother hk'
      rcases (hleft req' hreq').2 k hk with hown | hfree
      · exact hj (howned j id other req k hother hreq hk' hown)
      · exact hfree (h.taken _ _ _ (hK j other hother) hk')
  | drop id =>
    cases hnext
    refine ⟨⟨hI, update_knows hK (by simp)⟩, update_owned howned ?_⟩
    intro req' k hreq'
    cases hreq'
  | happen event =>
    obtain ⟨shared, hhappens, rfl⟩ := Option.map_eq_some_iff.1 hnext
    obtain ⟨hI', hR⟩ := h.happens _ _ _ hI hhappens
    refine ⟨⟨hI', ?_⟩, howned⟩
    intro id req hreq
    exact h.stable _ _ _ _ hR (by simp) (hK id req hreq)

/-- **Ownership rule**: over a run whose steps meet the condition. -/
theorem KeepsOwned.run (h : rs.KeepsOwned P I K own Taken R) {init : Shared → Prop}
    {s t : State Shared Request} {labels : List (Label Request Answer Event)}
    (hs : OwnedInv I K own s) (hP : (rs.system init).AllSteps (Meets P) s labels)
    (hrun : (rs.system init).run s labels = some t) : OwnedInv I K own t :=
  (rs.system init).run_invariant_of_allSteps (fun _ _ _ hs hP hnext => h.next hs hP hnext) hs hP
    hrun

theorem ownedInv_init {init : Shared → Prop} (hinit : ∀ s, init s → I s)
    {s : State Shared Request} (hs : (rs.system init).init s) : OwnedInv I K own s := by
  refine ⟨inv_init hinit hs, ?_⟩
  intro i j req req' k hi
  rw [hs.2 i] at hi
  cases hi

end Ownership

end Requests
