import Mathlib.Data.List.Infix

/-! # Splitting a stream that arrives in chunks

    A reader keeps the part of a stream it has not used yet in a buffer. For each
    chunk it drops every `x` that stands before a `y` (carriage returns before
    line feeds), takes all complete events off the front (an event ends at `y y`)
    and hands them to a processor that may refuse.

    The buffer is normalised again with every chunk, so the reader agrees with a
    single pass over the whole stream only where normalising twice is normalising
    once. Only the event that is not complete yet is normalised again:
    `drain_continues` says what is left of a stream for the next chunk, and
    `normalize_normalize_append` when normalising that again changes nothing.
-/

namespace Chunks

variable {α σ : Type*} [DecidableEq α]

/-! ## Dropping `x` before `y` -/

/-- Replace every `x y` by `y`, from left to right. -/
def normalize (x y : α) : List α → List α
  | [] => []
  | [a] => [a]
  | a :: b :: rest =>
      if a = x ∧ b = y then y :: normalize x y rest else a :: normalize x y (b :: rest)

variable {x y : α}

@[simp] theorem normalize_nil : normalize x y [] = [] := rfl

/-- An element that is not an `x` before a `y` stays. -/
theorem normalize_cons {a : α} {zs : List α} (h : a = x → zs.head? ≠ some y) :
    normalize x y (a :: zs) = a :: normalize x y zs := by
  cases zs with
  | nil => rfl
  | cons b rest =>
    rw [normalize, if_neg]
    rintro ⟨ha, hb⟩
    exact h ha (by rw [hb]; rfl)

/-- The head of a normalised list: the head of the list, or a `y` that follows an `x`. -/
theorem head_normalize (b : α) (rest : List α) :
    (normalize x y (b :: rest)).head? = some b ∨
      (b = x ∧ rest.head? = some y ∧ (normalize x y (b :: rest)).head? = some y) := by
  cases rest with
  | nil => exact .inl rfl
  | cons c rest =>
    rw [normalize]
    split
    · next h => exact .inr ⟨h.1, by rw [h.2]; rfl, rfl⟩
    · exact .inl rfl

/-- Without `x x y` in the front, normalising the front first makes no difference. -/
theorem normalize_normalize_append (hxy : x ≠ y) {zs : List α} (h : ¬[x, x, y] <:+: zs)
    (ws : List α) : normalize x y (normalize x y zs ++ ws) = normalize x y (zs ++ ws) := by
  induction zs using normalize.induct x y with
  | case1 => rfl
  | case2 a => rfl
  | case3 a b rest hab ih =>
    obtain ⟨rfl, rfl⟩ := hab
    have hrest : ¬[a, a, b] <:+: rest := fun hin => h (hin.trans ⟨[a, b], [], by simp⟩)
    have hpair : ∀ l : List α, normalize a b (a :: b :: l) = b :: normalize a b l := by
      intro l
      rw [normalize, if_pos ⟨rfl, rfl⟩]
    rw [hpair, List.cons_append, List.cons_append, List.cons_append, hpair,
      normalize_cons (fun he => absurd he.symm hxy), ih hrest]
  | case4 a b rest hab ih =>
    have hrest : ¬[x, x, y] <:+: b :: rest := fun hin => h (hin.trans ⟨[a], [], by simp⟩)
    -- a pair after the first pass would come from an `x x y`
    have hhead : a = x → (normalize x y (b :: rest) ++ ws).head? ≠ some y := by
      intro ha he
      rcases head_normalize (x := x) (y := y) b rest with hb | ⟨hb, hr, -⟩
      · rw [List.head?_append, hb, Option.some_or, Option.some.injEq] at he
        exact hab ⟨ha, he⟩
      · cases rest with
        | nil => cases hr
        | cons c rest =>
          cases hr
          refine h ⟨[], rest, ?_⟩
          simp [ha, hb]
    have hkeep : a = x → ((b :: rest) ++ ws).head? ≠ some y := by
      intro ha he
      exact hab ⟨ha, Option.some.inj he⟩
    have hstart : normalize x y (a :: b :: rest) = a :: normalize x y (b :: rest) := by
      rw [normalize, if_neg hab]
    rw [hstart, List.cons_append, normalize_cons hhead, ih hrest]
    exact (normalize_cons hkeep).symm

theorem length_normalize_le (zs : List α) : (normalize x y zs).length ≤ zs.length := by
  induction zs using normalize.induct x y with
  | case1 => exact le_rfl
  | case2 => exact le_rfl
  | case3 a b rest hab ih =>
    rw [normalize, if_pos hab]
    simp only [List.length_cons]
    omega
  | case4 a b rest hab ih =>
    rw [normalize, if_neg hab]
    simp only [List.length_cons] at ih ⊢
    omega

/-- Normalising splits after a `y`. -/
theorem normalize_append_of_end (hxy : x ≠ y) (zs ws : List α) :
    normalize x y (zs ++ y :: ws) = normalize x y (zs ++ [y]) ++ normalize x y ws := by
  induction zs using normalize.induct x y with
  | case1 => exact normalize_cons fun h => absurd h.symm hxy
  | case2 a =>
    by_cases ha : a = x
    · subst ha
      simp [normalize]
    · have h : ∀ l : List α, normalize x y (a :: l) = a :: normalize x y l := fun l =>
        normalize_cons fun he => absurd he ha
      simp only [List.cons_append, List.nil_append, h]
      rw [normalize_cons fun he => absurd he.symm hxy]
      rfl
  | case3 a b rest hab ih =>
    obtain ⟨rfl, rfl⟩ := hab
    simp only [List.cons_append, normalize, and_self, if_true]
    rw [ih]
  | case4 a b rest hab ih =>
    simp only [List.cons_append] at ih ⊢
    rw [normalize, if_neg hab, ih, normalize, if_neg hab, List.cons_append]

/-- Normalising splits before an `x`. -/
theorem normalize_append_of_start (hxy : x ≠ y) (zs ws : List α) :
    normalize x y (zs ++ x :: ws) = normalize x y zs ++ normalize x y (x :: ws) := by
  induction zs using normalize.induct x y with
  | case1 => rfl
  | case2 a => exact normalize_cons fun _ he => hxy (Option.some.inj he)
  | case3 a b rest hab ih =>
    obtain ⟨rfl, rfl⟩ := hab
    simp only [List.cons_append, normalize, and_self, if_true]
    rw [ih]
  | case4 a b rest hab ih =>
    simp only [List.cons_append] at ih ⊢
    rw [normalize, if_neg hab, ih, normalize, if_neg hab, List.cons_append]

/-- A `y` of a normalised list is a `y` of the list. -/
theorem normalize_eq_append {zs u v : List α} (h : normalize x y zs = u ++ y :: v) :
    ∃ front back, zs = front ++ y :: back ∧ normalize x y (front ++ [y]) = u ++ [y] ∧
      normalize x y back = v := by
  induction zs using normalize.induct x y generalizing u with
  | case1 => simp at h
  | case2 a =>
    cases u with
    | nil =>
      obtain ⟨rfl, rfl⟩ : a = y ∧ v = [] := by simpa [normalize, eq_comm] using h
      exact ⟨[], [], rfl, rfl, rfl⟩
    | cons c u => simp [normalize] at h
  | case3 a b rest hab ih =>
    -- A pair: one `y` for both, and the second half is the `y` of the cut.
    obtain ⟨rfl, rfl⟩ := hab
    rw [normalize, if_pos ⟨rfl, rfl⟩] at h
    cases u with
    | nil =>
      obtain rfl : normalize a b rest = v := by simpa using h
      exact ⟨[a], rest, rfl, by simp [normalize], rfl⟩
    | cons c u =>
      obtain ⟨rfl, hrest⟩ : b = c ∧ normalize a b rest = u ++ b :: v := by simpa using h
      obtain ⟨front, back, rfl, hfront, hback⟩ := ih hrest
      exact ⟨a :: b :: front, back, rfl, by simp [normalize, hfront], hback⟩
  | case4 a b rest hab ih =>
    rw [normalize, if_neg hab] at h
    cases u with
    | nil =>
      obtain ⟨rfl, rfl⟩ : a = y ∧ normalize x y (b :: rest) = v := by simpa using h
      exact ⟨[], b :: rest, rfl, rfl, rfl⟩
    | cons c u =>
      obtain ⟨rfl, hrest⟩ : a = c ∧ normalize x y (b :: rest) = u ++ y :: v := by simpa using h
      obtain ⟨front, back, heq, hfront, hback⟩ := ih hrest
      -- No pair begins at `a`, and none does when the front is cut off.
      refine ⟨a :: front, back, by rw [heq]; rfl, ?_, hback⟩
      have hkeep : a = x → (front ++ [y]).head? ≠ some y := by
        intro ha he
        have hb : (front ++ [y]).head? = some b := by
          cases front with
          | nil => exact congrArg some (List.cons.inj heq).1.symm
          | cons d front => exact congrArg some (List.cons.inj heq).1.symm
        exact hab ⟨ha, Option.some.inj (hb.symm.trans he)⟩
      rw [List.cons_append, normalize_cons hkeep, hfront, List.cons_append]

/-! ## Taking one event off -/

/-- Split at the first `y y`. -/
def splitBlank (y : α) : List α → Option (List α × List α)
  | [] => none
  | [_] => none
  | a :: b :: rest =>
      if a = y ∧ b = y then some ([], rest)
      else (splitBlank y (b :: rest)).map fun (event, tail) => (a :: event, tail)

theorem splitBlank_eq {zs event rest : List α} (h : splitBlank y zs = some (event, rest)) :
    zs = event ++ y :: y :: rest := by
  induction zs using splitBlank.induct y generalizing event with
  | case1 => cases h
  | case2 => cases h
  | case3 a b tail hab =>
    rw [splitBlank, if_pos hab] at h
    cases h
    rw [hab.1, hab.2]
    rfl
  | case4 a b tail hab ih =>
    rw [splitBlank, if_neg hab] at h
    obtain ⟨⟨e, r⟩, hsplit, he⟩ := Option.map_eq_some_iff.1 h
    cases he
    rw [ih hsplit]
    rfl

/-- What follows the first `y y` does not matter for where it is. -/
theorem splitBlank_replace {zs event rest : List α} (h : splitBlank y zs = some (event, rest))
    (ws : List α) : splitBlank y (event ++ y :: y :: ws) = some (event, ws) := by
  induction zs using splitBlank.induct y generalizing event with
  | case1 => cases h
  | case2 => cases h
  | case3 a b tail hab =>
    rw [splitBlank, if_pos hab] at h
    cases h
    simp [splitBlank]
  | case4 a b tail hab ih =>
    rw [splitBlank, if_neg hab] at h
    obtain ⟨⟨e, r⟩, hsplit, he⟩ := Option.map_eq_some_iff.1 h
    cases he
    have hnext := ih hsplit
    have hb : ∃ l, e ++ y :: y :: ws = b :: l := by
      have heq := splitBlank_eq hsplit
      cases e with
      | nil =>
        simp only [List.nil_append, List.cons.injEq] at heq
        exact ⟨y :: ws, by rw [heq.1]; rfl⟩
      | cons c e =>
        simp only [List.cons_append, List.cons.injEq] at heq
        exact ⟨e ++ y :: y :: ws, by rw [heq.1]; rfl⟩
    obtain ⟨l, hl⟩ := hb
    rw [List.cons_append, hl, splitBlank, if_neg hab, ← hl, hnext]
    rfl

/-! ## Taking all complete events off -/

/-- The loop: process the first event, then the rest. `n` bounds the passes. -/
def drainFuel (y : α) (process : σ → List α → Option σ) :
    Nat → σ → List α → Option (σ × List α)
  | 0, s, buffer => some (s, buffer)
  | n + 1, s, buffer =>
      match splitBlank y buffer with
      | none => some (s, buffer)
      | some (event, rest) => (process s event).bind fun s' => drainFuel y process n s' rest

/-- The loop with as many passes as the buffer can need. -/
def drain (y : α) (process : σ → List α → Option σ) (s : σ) (buffer : List α) :
    Option (σ × List α) :=
  drainFuel y process buffer.length s buffer

variable {process : σ → List α → Option σ}

theorem splitBlank_nil : splitBlank y ([] : List α) = none := rfl

theorem splitBlank_length {zs event rest : List α} (h : splitBlank y zs = some (event, rest)) :
    zs.length = event.length + rest.length + 2 := by
  rw [splitBlank_eq h]
  simp only [List.length_append, List.length_cons]
  omega

/-- Passes beyond the length of the buffer are not used. -/
theorem drainFuel_enough {n m : Nat} {s : σ} {buffer : List α} (hn : buffer.length ≤ n)
    (hm : buffer.length ≤ m) :
    drainFuel y process n s buffer = drainFuel y process m s buffer := by
  induction n generalizing m s buffer with
  | zero =>
    obtain rfl : buffer = [] := List.length_eq_zero_iff.1 (Nat.le_zero.1 hn)
    cases m <;> rfl
  | succ n ih =>
    cases hb : splitBlank y buffer with
    | none => cases m <;> simp [drainFuel, hb]
    | some r =>
      obtain ⟨event, rest⟩ := r
      have hlen := splitBlank_length hb
      cases m with
      | zero => omega
      | succ m =>
        simp only [drainFuel, hb]
        exact congrArg _ (funext fun s' => ih (by omega) (by omega))

theorem drain_none {s : σ} {buffer : List α} (h : splitBlank y buffer = none) :
    drain y process s buffer = some (s, buffer) := by
  unfold drain
  cases buffer with
  | nil => rfl
  | cons a l => simp [drainFuel, h]

theorem drain_some {s : σ} {buffer event rest : List α}
    (h : splitBlank y buffer = some (event, rest)) :
    drain y process s buffer = (process s event).bind fun s' => drain y process s' rest := by
  have hlen := splitBlank_length h
  obtain ⟨n, hn⟩ : ∃ n, buffer.length = n + 1 := ⟨event.length + rest.length + 1, by omega⟩
  rw [drain, hn]
  simp only [drainFuel, h]
  exact congrArg _ (funext fun s' => drainFuel_enough (by omega) le_rfl)

theorem splitBlank_append {zs : List α} (h : splitBlank y zs = none) (hxy : x ≠ y) :
    splitBlank y (zs ++ [x, y]) = none := by
  induction zs using splitBlank.induct y with
  | case1 => simp [splitBlank, hxy]
  | case2 a => simp [splitBlank, hxy]
  | case3 a b tail hab => simp [splitBlank, hab] at h
  | case4 a b tail hab ih =>
    rw [splitBlank, if_neg hab, Option.map_eq_none_iff] at h
    simp only [List.cons_append] at ih ⊢
    rw [splitBlank, if_neg hab, ih h, Option.map_none]

/-- The first event of a normalised stream, whatever follows. -/
theorem normalize_event (hxy : x ≠ y) {zs event rest : List α}
    (h : splitBlank y (normalize x y zs) = some (event, rest)) :
    ∃ front back, zs = front ++ back ∧ back.length < zs.length ∧ normalize x y back = rest ∧
      ∀ ws, splitBlank y (normalize x y (zs ++ ws)) = some (event, normalize x y (back ++ ws)) := by
  have heq := splitBlank_eq h
  rw [show event ++ y :: y :: rest = (event ++ [y]) ++ y :: rest by simp] at heq
  obtain ⟨front, back, rfl, hfront, hback⟩ := normalize_eq_append heq
  have hlength : back.length < (front ++ y :: back).length := by
    simp only [List.length_append, List.length_cons]
    omega
  refine ⟨front ++ [y], back, by simp, hlength, hback, ?_⟩
  intro ws
  have hsplit : normalize x y (front ++ y :: back ++ ws) =
      event ++ y :: y :: normalize x y (back ++ ws) := by
    rw [List.append_assoc, List.cons_append, normalize_append_of_end hxy, hfront]
    simp
  rw [hsplit]
  exact splitBlank_replace h _

/-- An event that is refused is refused whatever follows. -/
theorem drain_refused (hxy : x ≠ y) {s : σ} {zs : List α}
    (h : drain y process s (normalize x y zs) = none) (ws : List α) :
    drain y process s (normalize x y (zs ++ ws)) = none := by
  induction hlen : zs.length using Nat.strong_induction_on generalizing s zs with
  | _ n ih =>
    subst hlen
    cases hsplit : splitBlank y (normalize x y zs) with
    | none =>
      rw [drain_none hsplit] at h
      cases h
    | some r =>
      obtain ⟨front, back, -, hback, hrest, hmore⟩ := normalize_event hxy hsplit
      rw [drain_some hsplit, ← hrest] at h
      rw [drain_some (hmore ws)]
      cases hprocess : process s r.1 with
      | none => rfl
      | some s' =>
        rw [hprocess, Option.bind_some] at h
        exact ih back.length hback h rfl

/-- **One more chunk**: what is left of a stream is its part after the last complete event, and
    reading goes on from there with whatever follows. -/
theorem drain_continues (hxy : x ≠ y) {s s' : σ} {zs rest : List α}
    (h : drain y process s (normalize x y zs) = some (s', rest)) :
    ∃ front tail, zs = front ++ tail ∧ normalize x y tail = rest ∧ splitBlank y rest = none ∧
      ∀ ws, drain y process s (normalize x y (zs ++ ws)) =
        drain y process s' (normalize x y (tail ++ ws)) := by
  induction hlen : zs.length using Nat.strong_induction_on generalizing s zs with
  | _ n ih =>
    subst hlen
    cases hsplit : splitBlank y (normalize x y zs) with
    | none =>
      rw [drain_none hsplit] at h
      cases h
      exact ⟨[], zs, rfl, rfl, hsplit, fun ws => rfl⟩
    | some r =>
      obtain ⟨front, back, hzs, hback, hrest, hmore⟩ := normalize_event hxy hsplit
      rw [drain_some hsplit, ← hrest] at h
      obtain ⟨s'', hprocess, h⟩ := Option.bind_eq_some_iff.1 h
      obtain ⟨front', tail, rfl, htail, hblank, hgo⟩ := ih back.length hback h rfl
      refine ⟨front ++ front', tail, by rw [hzs, List.append_assoc], htail, hblank, ?_⟩
      intro ws
      rw [drain_some (hmore ws), hprocess, Option.bind_some]
      exact hgo ws

end Chunks
