import Mathlib.Data.List.Nodup

/-! # Bounded concurrency

    Jobs over a list, of which so many run at a time. They are taken in the
    order of the list and end in any order.

    * **Taking**: what has been taken is a front part of the list.
    * **Settling**: one running job gets on or ends, and no other one changes.
-/

/-- `ρ` is what a job waits for, `σ` what it ends with. -/
inductive Job (ρ σ : Type) where
  | waiting
  | running (r : ρ)
  | done (s : σ)
deriving DecidableEq

abbrev Pool (α ρ σ : Type) := List (α × Job ρ σ)

namespace Pool

variable {α κ ρ σ : Type}

/-! ## Section 1: Operations -/

def isWaiting : Job ρ σ → Bool
  | .waiting => true
  | _ => false

def isRunning : Job ρ σ → Bool
  | .running _ => true
  | _ => false

def result : Job ρ σ → Option σ
  | .done s => some s
  | _ => none

def of (items : List α) : Pool α ρ σ := items.map fun a => (a, .waiting)

/-- The first waiting job is taken. -/
def take (r : ρ) : Pool α ρ σ → Option (α × Pool α ρ σ)
  | [] => none
  | (a, job) :: pool =>
      if isWaiting job then some (a, (a, .running r) :: pool)
      else (take r pool).map fun p => (p.1, (a, job) :: p.2)

/-- One more job runs, if a worker is free. -/
def start (limit : Nat) (r : ρ) (pool : Pool α ρ σ) : Option (α × Pool α ρ σ) :=
  if pool.countP (fun p => isRunning p.2) < max 1 (min limit pool.length) then take r pool else none

def finished (pool : Pool α ρ σ) : Bool := pool.all fun p => (result p.2).isSome

/-- The items that have been taken. -/
def taken (pool : Pool α ρ σ) : List α :=
  (pool.filter fun p => !isWaiting p.2).map Prod.fst

/-- What the job of this key waits for has come. -/
def settle [DecidableEq κ] [DecidableEq ρ] [DecidableEq σ] (key : α → κ) (k : κ) (r : ρ)
    (job : Job ρ σ) (pool : Pool α ρ σ) : Option (α × Pool α ρ σ) :=
  (pool.find? fun p => key p.1 = k ∧ p.2 = .running r).map fun p =>
    (p.1, pool.map fun q => if key q.1 = k then (q.1, job) else q)

/-- The items whose job ended this way. -/
def ended [DecidableEq ρ] [DecidableEq σ] (s : σ) (pool : Pool α ρ σ) : List α :=
  (pool.filter fun p => p.2 = .done s).map Prod.fst

/-! ## Section 2: What they leave -/

/-- What has been taken stands before what is waiting. -/
def InOrder (pool : Pool α ρ σ) : Prop :=
  pool.Pairwise fun p q => isWaiting p.2 = true → isWaiting q.2 = true

variable {pool pool' : Pool α ρ σ} {a : α} {r : ρ}

theorem map_fst_of (items : List α) : (of items : Pool α ρ σ).map Prod.fst = items := by
  unfold of
  rw [List.map_map]
  exact List.map_id items

theorem mem_of {items : List α} {p : α × Job ρ σ} (h : p ∈ (of items : Pool α ρ σ)) :
    p.1 ∈ items ∧ p.2 = .waiting := by
  obtain ⟨a, ha, rfl⟩ := List.mem_map.1 h
  exact ⟨ha, rfl⟩

theorem inOrder_of (items : List α) : InOrder (of items : Pool α ρ σ) := by
  unfold InOrder
  rw [List.pairwise_iff_forall_sublist]
  intro p q hpq _
  have hq : q ∈ (of items : Pool α ρ σ) := hpq.subset (by simp)
  rw [(mem_of hq).2]
  rfl

theorem taken_of (items : List α) : taken (of items : Pool α ρ σ) = [] := by
  unfold taken
  rw [List.map_eq_nil_iff, List.filter_eq_nil_iff]
  intro p hp
  rw [(mem_of hp).2]
  simp [isWaiting]

/-- Taking splits the list at the first waiting job. -/
theorem take_eq (h : take r pool = some (a, pool')) :
    ∃ before after, pool = before ++ (a, .waiting) :: after ∧
      pool' = before ++ (a, .running r) :: after ∧ ∀ p ∈ before, isWaiting p.2 = false := by
  induction pool generalizing pool' with
  | nil => cases h
  | cons p pool ih =>
    obtain ⟨b, job⟩ := p
    rw [take] at h
    by_cases hwaiting : isWaiting job = true
    · rw [if_pos hwaiting] at h
      cases h
      cases job with
      | waiting => exact ⟨[], pool, rfl, rfl, List.forall_mem_nil _⟩
      | running r => cases hwaiting
      | done s => cases hwaiting
    · rw [if_neg hwaiting] at h
      obtain ⟨q, hq, he⟩ := Option.map_eq_some_iff.1 h
      cases he
      obtain ⟨before, after, hpool, hpool', hbefore⟩ := ih hq
      refine ⟨(b, job) :: before, after, by rw [hpool]; rfl, by rw [hpool']; rfl, ?_⟩
      exact List.forall_mem_cons.2 ⟨by simpa using hwaiting, hbefore⟩

theorem start_eq {limit : Nat} (h : start limit r pool = some (a, pool')) :
    take r pool = some (a, pool') := by
  unfold start at h
  split_ifs at h
  exact h

section Take

variable (h : take r pool = some (a, pool'))
include h

theorem take_map_fst : pool'.map Prod.fst = pool.map Prod.fst := by
  obtain ⟨before, after, rfl, rfl, -⟩ := take_eq h
  simp

theorem mem_take {p : α × Job ρ σ} (hp : p ∈ pool') : p ∈ pool ∨ p = (a, .running r) := by
  obtain ⟨before, after, rfl, rfl, -⟩ := take_eq h
  simp only [List.mem_append, List.mem_cons] at hp ⊢
  tauto

theorem take_inOrder (horder : InOrder pool) : InOrder pool' := by
  obtain ⟨before, after, rfl, rfl, hbefore⟩ := take_eq h
  unfold InOrder at horder ⊢
  rw [List.pairwise_append, List.pairwise_cons] at horder ⊢
  refine ⟨horder.1, ⟨?_, horder.2.1.2⟩, ?_⟩
  · intro _ _ hrunning
    cases hrunning
  · intro p hp _ _ hwaiting
    rw [hbefore p hp] at hwaiting
    cases hwaiting

theorem take_taken (horder : InOrder pool) : taken pool' = taken pool ++ [a] := by
  obtain ⟨before, after, rfl, rfl, hbefore⟩ := take_eq h
  -- behind the first waiting job all others are waiting
  have hafter : after.filter (fun p => !isWaiting p.2) = [] := by
    rw [List.filter_eq_nil_iff]
    intro p hp
    unfold InOrder at horder
    rw [List.pairwise_append, List.pairwise_cons] at horder
    rw [horder.2.1.1 p hp rfl]
    decide
  unfold taken
  rw [List.filter_append, List.filter_append, List.filter_cons_of_pos (by rfl),
    List.filter_cons_of_neg (by simp [isWaiting]), hafter]
  simp

end Take

/-- What has been taken is a front part. -/
theorem taken_prefix (horder : InOrder pool) : taken pool <+: pool.map Prod.fst := by
  unfold taken
  induction pool with
  | nil => exact List.nil_prefix
  | cons p pool ih =>
    have ⟨hp, htail⟩ := List.pairwise_cons.1 horder
    by_cases hwaiting : isWaiting p.2 = true
    · have hnone : (p :: pool).filter (fun p => !isWaiting p.2) = [] := by
        rw [List.filter_eq_nil_iff]
        intro q hq
        rcases List.mem_cons.1 hq with rfl | hq
        · simp [hwaiting]
        · simp [hp q hq hwaiting]
      rw [hnone]
      exact List.nil_prefix
    · rw [List.filter_cons_of_pos (by simpa using hwaiting), List.map_cons, List.map_cons,
        List.cons_prefix_cons]
      exact ⟨rfl, ih htail⟩

/-- When all have ended, each has ended some way. -/
theorem done_of_finished (h : finished pool = true) {p : α × Job ρ σ} (hp : p ∈ pool) :
    ∃ s, p.2 = .done s := by
  have hsome := List.all_eq_true.1 h p hp
  obtain ⟨b, job⟩ := p
  cases job with
  | waiting => cases hsome
  | running r => cases hsome
  | done s => exact ⟨s, rfl⟩

variable [DecidableEq κ] [DecidableEq ρ] [DecidableEq σ]

section Settle

variable {key : α → κ} {k : κ} {job : Job ρ σ} (h : settle key k r job pool = some (a, pool'))
include h

theorem settle_mem : (a, .running r) ∈ pool ∧ key a = k := by
  obtain ⟨p, hp, he⟩ := Option.map_eq_some_iff.1 h
  have hfound := List.find?_some hp
  simp only [decide_eq_true_eq] at hfound
  have ha : p.1 = a := (Prod.mk.inj he).1
  rw [← ha, ← hfound.2]
  exact ⟨List.mem_of_find?_eq_some hp, hfound.1⟩

theorem settle_eq : pool' = pool.map fun q => if key q.1 = k then (q.1, job) else q := by
  obtain ⟨p, hp, he⟩ := Option.map_eq_some_iff.1 h
  exact (Prod.mk.inj he).2.symm

theorem settle_map_fst : pool'.map Prod.fst = pool.map Prod.fst := by
  rw [settle_eq h, List.map_map]
  apply List.map_congr_left
  intro q _
  show Prod.fst (if key q.1 = k then (q.1, job) else q) = q.1
  split_ifs <;> rfl

theorem mem_settle {p : α × Job ρ σ} (hp : p ∈ pool') :
    p ∈ pool ∨ key p.1 = k ∧ p.2 = job := by
  rw [settle_eq h] at hp
  obtain ⟨q, hq, rfl⟩ := List.mem_map.1 hp
  split_ifs with hkey
  · exact .inr ⟨hkey, rfl⟩
  · exact .inl hq

end Settle

/-- With distinct keys a job that gets on leaves what has been taken. -/
theorem settle_taken {key : α → κ} {k : κ} {job : Job ρ σ} (hjob : isWaiting job = false)
    (hkeys : (pool.map fun p => key p.1).Nodup)
    (h : settle key k r job pool = some (a, pool')) :
    taken pool' = taken pool ∧ (InOrder pool → InOrder pool') := by
  obtain ⟨hmem, hka⟩ := settle_mem h
  have hwaiting : ∀ q ∈ pool, isWaiting (if key q.1 = k then (q.1, job) else q).2 =
      isWaiting q.2 := by
    intro q hq
    split_ifs with hkey
    · have he := List.inj_on_of_nodup_map hkeys hq hmem
        (hkey.trans hka.symm)
      rw [he, hjob]
      rfl
    · rfl
  rw [settle_eq h]
  constructor
  · have hfilter : (pool.map fun q => if key q.1 = k then (q.1, job) else q).filter
        (fun p => !isWaiting p.2) = (pool.filter fun p => !isWaiting p.2).map
          fun q => if key q.1 = k then (q.1, job) else q := by
      rw [List.filter_map]
      congr 1
      apply List.filter_congr
      intro q hq
      show (!isWaiting (if key q.1 = k then (q.1, job) else q).2) = _
      rw [hwaiting q hq]
    unfold taken
    rw [hfilter, List.map_map]
    apply List.map_congr_left
    intro q _
    show Prod.fst (if key q.1 = k then (q.1, job) else q) = q.1
    split_ifs <;> rfl
  · intro horder
    unfold InOrder
    rw [List.pairwise_map]
    exact List.Pairwise.imp_of_mem
      (fun hp hq himp => by rw [hwaiting _ hp, hwaiting _ hq]; exact himp) horder

theorem mem_ended {s : σ} : a ∈ ended s pool ↔ (a, .done s) ∈ pool := by
  unfold ended
  simp

theorem ended_sublist (s : σ) : (ended s pool).Sublist (pool.map Prod.fst) :=
  List.filter_sublist.map _

end Pool
