import Mathlib.Logic.Function.Basic
import Mathlib.Data.List.Induction
import Mathlib.Data.List.Pairwise

/-! # Tables whose entries expire

    A table holds an entry under some of its keys, with the time it was set.
    An access to one key first drops every old entry of the table. An entry
    that is written again keeps the time it was set first.

    * **Cells**: what one key holds, with accesses to no other key.
    * **Independence**: where the clock does not go back, a cell cannot tell
      that there are other keys.
    * **One window**: while nothing is old, a cell is all that was written to it
      since it was deleted; once all is old, it is empty.
-/

namespace Expiry

universe u v

/-- A value with the time it was set. -/
structure Entry (Value : Type v) where
  value : Value
  setAt : Int
deriving DecidableEq

variable {Key : Type u} {Value : Type v}

/-- What is left of an entry at a time. -/
def live (age now : Int) (cell : Option (Entry Value)) : Option (Entry Value) :=
  cell.filter fun e => decide (now - e.setAt < age)

theorem live_none (age now : Int) : live age now (none : Option (Entry Value)) = none := rfl

theorem live_eq_some {age now : Int} {cell : Option (Entry Value)} {e : Entry Value} :
    live age now cell = some e ↔ cell = some e ∧ now - e.setAt < age := by
  rw [live, Option.filter_eq_some_iff, decide_eq_true_iff]

theorem live_some_young {age now : Int} {e : Entry Value} (h : now - e.setAt < age) :
    live age now (some e) = some e :=
  live_eq_some.2 ⟨rfl, h⟩

theorem live_some_old {age now : Int} {e : Entry Value} (h : ¬ now - e.setAt < age) :
    live age now (some e) = none := by
  rw [live, Option.filter_some, if_neg (by simpa using h)]

/-- What was old stays old. -/
theorem live_live {age now later : Int} (h : now ≤ later) (cell : Option (Entry Value)) :
    live age later (live age now cell) = live age later cell := by
  cases cell with
  | none => rfl
  | some e =>
    by_cases hlive : now - e.setAt < age
    · rw [live_some_young hlive]
    · have hlater : ¬ later - e.setAt < age := by omega
      rw [live_some_old hlive, live_some_old hlater, live_none]

/-! ## Section 1: Accesses -/

/-- One access. -/
inductive Access (Key : Type u) (Value : Type v) where
  | sweep (now : Int)
  /-- The value that is written may depend on the one that is there. -/
  | write (now : Int) (key : Key) (op : Option Value → Value)
  | delete (now : Int) (key : Key)

def Access.time : Access Key Value → Int
  | .sweep now => now
  | .write now _ _ => now
  | .delete now _ => now

/-- The time of an entry is the one it was set at first. -/
def put (now : Int) (op : Option Value → Value) (cell : Option (Entry Value)) : Entry Value :=
  ⟨op (cell.map (·.value)), (cell.map (·.setAt)).getD now⟩

abbrev Table (Key : Type u) (Value : Type v) := Key → Option (Entry Value)

variable [DecidableEq Key] (age : Int)

def sweepTable (now : Int) (table : Table Key Value) : Table Key Value :=
  fun key => live age now (table key)

def access (table : Table Key Value) : Access Key Value → Table Key Value
  | .sweep now => sweepTable age now table
  | .write now key op =>
      Function.update (sweepTable age now table) key (some (put now op (live age now (table key))))
  | .delete _ key => Function.update table key none

/-- An access, to the cell of one key. -/
def accessCell (key : Key) (cell : Option (Entry Value)) :
    Access Key Value → Option (Entry Value)
  | .sweep _ => cell
  | .write now key' op => if key' = key then some (put now op (live age now cell)) else cell
  | .delete _ key' => if key' = key then none else cell

def runTable (table : Table Key Value) (log : List (Access Key Value)) : Table Key Value :=
  log.foldl (access age) table

def runCell (key : Key) (cell : Option (Entry Value)) (log : List (Access Key Value)) :
    Option (Entry Value) :=
  log.foldl (accessCell age key) cell

/-- The clock does not go back, up to `now`. -/
def Timely (log : List (Access Key Value)) (now : Int) : Prop :=
  log.Pairwise (fun a b => a.time ≤ b.time) ∧ ∀ a ∈ log, a.time ≤ now

omit [DecidableEq Key] in
theorem timely_snoc {log : List (Access Key Value)} {a : Access Key Value} {now : Int}
    (h : Timely (log ++ [a]) now) : Timely log a.time ∧ a.time ≤ now := by
  obtain ⟨hlog, -, hlast⟩ := List.pairwise_append.1 h.1
  have hbefore : ∀ b ∈ log, b.time ≤ a.time := fun b hb => hlast b hb a (List.mem_singleton_self a)
  exact ⟨⟨hlog, hbefore⟩, h.2 a (List.mem_append_right _ (List.mem_singleton_self a))⟩

omit [DecidableEq Key] in
theorem Timely.mono {log : List (Access Key Value)} {now later : Int} (h : Timely log now)
    (hle : now ≤ later) : Timely log later :=
  ⟨h.1, fun a ha => Int.le_trans (h.2 a ha) hle⟩

variable {age}

/-! ## Section 2: Independence -/

/-- One access, seen at one key from then on. -/
theorem live_access {table : Table Key Value} {key : Key} {cell : Option (Entry Value)}
    {a : Access Key Value}
    (h : ∀ later, a.time ≤ later → live age later (table key) = live age later cell)
    {now : Int} (hnow : a.time ≤ now) :
    live age now (access age table a key) = live age now (accessCell age key cell a) := by
  cases a with
  | sweep t =>
    have ht : t ≤ now := hnow
    show live age now (live age t (table key)) = live age now cell
    rw [live_live ht, h now hnow]
  | write t key' op =>
    have ht : t ≤ now := hnow
    by_cases hkey : key' = key
    · subst hkey
      rw [access, accessCell, Function.update_self, if_pos rfl, h t (Int.le_refl t)]
    · rw [access, accessCell, Function.update_of_ne (Ne.symm hkey), if_neg hkey]
      show live age now (live age t (table key)) = live age now cell
      rw [live_live ht, h now hnow]
  | delete t key' =>
    by_cases hkey : key' = key
    · subst hkey
      rw [access, accessCell, Function.update_self, if_pos rfl]
    · rw [access, accessCell, Function.update_of_ne (Ne.symm hkey), if_neg hkey, h now hnow]

/-- **Independence**: what a table holds under a key is what the accesses to that key make of its
    cell, whatever the accesses to other keys drop. -/
theorem live_runTable (table : Table Key Value) (key : Key) {log : List (Access Key Value)}
    {now : Int} (h : Timely log now) :
    live age now (runTable age table log key) =
      live age now (runCell age key (table key) log) := by
  induction log using List.reverseRecOn generalizing now with
  | nil => rfl
  | append_singleton log a ih =>
    obtain ⟨hlog, hnow⟩ := timely_snoc h
    have hbefore : ∀ later, a.time ≤ later →
        live age later (runTable age table log key) =
          live age later (runCell age key (table key) log) :=
      fun later hlater => ih (hlog.mono hlater)
    rw [runTable, runCell, List.foldl_append, List.foldl_append]
    exact live_access hbefore hnow

/-! ## Section 3: One window -/

/-- What was written to a key since it was deleted last, with the times. -/
def since (key : Key) (log : List (Access Key Value)) : List (Int × (Option Value → Value)) :=
  log.foldl (fun writes a =>
    match a with
    | .sweep _ => writes
    | .write now key' op => if key' = key then writes ++ [(now, op)] else writes
    | .delete _ key' => if key' = key then [] else writes) []

/-- All writes to one cell, of which nothing expires. -/
def written (writes : List (Int × (Option Value → Value))) : Option Value :=
  writes.foldl (fun value w => some (w.2 value)) none

variable (age) in
/-- The writes to a cell. -/
def writeAll (writes : List (Int × (Option Value → Value))) : Option (Entry Value) :=
  writes.foldl (fun cell w => some (put w.1 w.2 (live age w.1 cell))) none

theorem since_snoc (key : Key) (log : List (Access Key Value)) (a : Access Key Value) :
    since key (log ++ [a]) =
      match a with
      | .sweep _ => since key log
      | .write now key' op => if key' = key then since key log ++ [(now, op)] else since key log
      | .delete _ key' => if key' = key then [] else since key log := by
  rw [since, List.foldl_append]
  rfl

omit [DecidableEq Key] in
theorem writeAll_snoc (writes : List (Int × (Option Value → Value)))
    (w : Int × (Option Value → Value)) :
    writeAll age (writes ++ [w]) = some (put w.1 w.2 (live age w.1 (writeAll age writes))) := by
  rw [writeAll, List.foldl_append]
  rfl

theorem runCell_none (key : Key) (log : List (Access Key Value)) :
    runCell age key none log = writeAll age (since key log) := by
  induction log using List.reverseRecOn with
  | nil => rfl
  | append_singleton log a ih =>
    have hlast : runCell age key none (log ++ [a]) =
        accessCell age key (runCell age key none log) a := by
      rw [runCell, List.foldl_append]
      rfl
    rw [hlast, ih, since_snoc]
    cases a with
    | sweep t => rfl
    | write t key' op =>
      by_cases hkey : key' = key
      · simp only [accessCell, if_pos hkey, writeAll_snoc]
      · simp only [accessCell, if_neg hkey]
    | delete t key' =>
      by_cases hkey : key' = key
      · simp only [accessCell, if_pos hkey, writeAll, List.foldl_nil]
      · simp only [accessCell, if_neg hkey]

/-- A write is of the log, and the writes of a log are in its order. -/
theorem since_timely (key : Key) {log : List (Access Key Value)} {now : Int} (h : Timely log now) :
    (since key log).Pairwise (fun v w => v.1 ≤ w.1) ∧ ∀ w ∈ since key log, w.1 ≤ now := by
  induction log using List.reverseRecOn generalizing now with
  | nil => exact ⟨List.Pairwise.nil, nofun⟩
  | append_singleton log a ih =>
    obtain ⟨hlog, hnow⟩ := timely_snoc h
    obtain ⟨hpair, hbefore⟩ := ih hlog
    have hkeep : (since key log).Pairwise (fun v w => v.1 ≤ w.1) ∧
        ∀ w ∈ since key log, w.1 ≤ now := ⟨hpair, fun w hw => Int.le_trans (hbefore w hw) hnow⟩
    rw [since_snoc]
    cases a with
    | sweep t => exact hkeep
    | write t key' op =>
      by_cases hkey : key' = key
      · simp only [if_pos hkey]
        constructor
        · refine List.pairwise_append.2 ⟨hpair, List.pairwise_singleton _ _, ?_⟩
          intro v hv w hw
          rw [List.mem_singleton.1 hw]
          exact hbefore v hv
        · intro w hw
          rcases List.mem_append.1 hw with hw | hw
          · exact hkeep.2 w hw
          · rw [List.mem_singleton.1 hw]
            exact hnow
      · simpa only [if_neg hkey] using hkeep
    | delete t key' =>
      by_cases hkey : key' = key
      · simp only [if_pos hkey]
        exact ⟨List.Pairwise.nil, nofun⟩
      · simpa only [if_neg hkey] using hkeep

omit [DecidableEq Key] in
/-- The time of a cell is that of one of its writes. -/
theorem setAt_mem {writes : List (Int × (Option Value → Value))} {e : Entry Value}
    (h : writeAll age writes = some e) : ∃ w ∈ writes, w.1 = e.setAt := by
  induction writes using List.reverseRecOn generalizing e with
  | nil => cases h
  | append_singleton writes w ih =>
    rw [writeAll_snoc] at h
    obtain rfl := Option.some.inj h
    cases hcell : live age w.1 (writeAll age writes) with
    | none => exact ⟨w, List.mem_append_right _ (List.mem_singleton_self w), rfl⟩
    | some old =>
      obtain ⟨v, hv, hset⟩ := ih (live_eq_some.1 hcell).1
      exact ⟨v, List.mem_append_left _ hv, hset⟩

omit [DecidableEq Key] in
/-- **Young**: while nothing is old, a cell is all that was written to it. -/
theorem value_of_young {writes : List (Int × (Option Value → Value))}
    (hpair : writes.Pairwise fun v w => v.1 ≤ w.1) {now : Int} (hnow : ∀ w ∈ writes, w.1 ≤ now)
    (hyoung : ∀ w ∈ writes, now - w.1 < age) :
    (live age now (writeAll age writes)).map (·.value) = written writes := by
  induction writes using List.reverseRecOn generalizing now with
  | nil => rfl
  | append_singleton writes w ih =>
    obtain ⟨hwrites, -, hlast⟩ := List.pairwise_append.1 hpair
    have hw : w.1 ≤ now := hnow w (List.mem_append_right _ (List.mem_singleton_self w))
    have hbefore : ∀ v ∈ writes, v.1 ≤ w.1 := fun v hv => hlast v hv w (List.mem_singleton_self w)
    have hstill : ∀ v ∈ writes, w.1 - v.1 < age := by
      intro v hv
      have := hyoung v (List.mem_append_left _ hv)
      omega
    have hvalue := ih hwrites hbefore hstill
    -- The time of the cell is the time of one of the writes, so the cell is young as well.
    have hset : now - (put w.1 w.2 (live age w.1 (writeAll age writes))).setAt < age := by
      obtain ⟨v, hv, hvset⟩ := setAt_mem (writeAll_snoc writes w)
      rw [← hvset]
      exact hyoung v hv
    rw [writeAll_snoc, live_some_young hset, written, List.foldl_append, ← written, ← hvalue]
    rfl

omit [DecidableEq Key] in
/-- **Old**: once everything is old, a cell is empty. -/
theorem none_of_old {writes : List (Int × (Option Value → Value))} {now : Int}
    (hold : ∀ w ∈ writes, age ≤ now - w.1) : live age now (writeAll age writes) = none := by
  cases h : live age now (writeAll age writes) with
  | none => rfl
  | some e =>
    obtain ⟨hcell, hyoung⟩ := live_eq_some.1 h
    obtain ⟨w, hw, hset⟩ := setAt_mem hcell
    have := hold w hw
    omega

end Expiry
