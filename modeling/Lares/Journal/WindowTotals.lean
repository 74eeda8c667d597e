import Lares.Budget.Money
import Lares.Framework.Table
import Lares.Journal.Fold
import Lares.Journal.PlainCodec
import Mathlib

/-! # The totals of the windows

    The money of all attempts by window and state, kept up to date while the
    fold changes.

    * **The fold** of the journal, with the money of its summaries and with
      `windowTotals`.
    * **What is to be added up**: the newest version of each attempt, once for
      each of the two windows it names.
    * `Balanced`: the totals are those of the rows, live or summarised. An atom
      takes its predecessor out of the totals, wherever that one is kept, and
      adds itself. Summarising leaves the totals alone.
-/

namespace Lares.Journal

/-! ## Section 1: The totals -/

/-- What a summary keeps of an attempt. -/
structure AttemptMoney where
  installationWindowId : Id
  memberWindowId : Id
  state : AttemptState
  reservedAmount : Text
  actualAmount : Option Text
  highestObservedLiability : Text
deriving DecidableEq

def AttemptAtom.money (row : AttemptAtom) : AttemptMoney :=
  ⟨row.installationWindowId, row.memberWindowId, row.state, row.reservedAmount, row.actualAmount,
    row.highestObservedLiability⟩

def moneyUnits (value : Text) : Nat :=
  match Budget.splitPoint value with
  | (whole, fraction) => Budget.unitsOf whole (fraction.getD [])

structure WindowTotal where
  count : Int
  reserved : Int
  actual : Int
  high : Int
deriving DecidableEq

def WindowTotal.none : WindowTotal := ⟨0, 0, 0, 0⟩

/-- A window without states is as good as no window. -/
abbrev WindowTotals := Id → AttemptState → Option WindowTotal

/-- `states.get(attempt.state)??{count:0,...}`, and the attempt added or taken away. -/
def WindowTotal.adjust (total : WindowTotal) (attempt : AttemptMoney) (sign : Int) :
    WindowTotal where
  count := total.count + sign
  reserved := total.reserved + sign * moneyUnits attempt.reservedAmount
  actual := total.actual + sign * moneyUnits (attempt.actualAmount.getD ['0'])
  high := total.high + sign * moneyUnits attempt.highestObservedLiability

/-- A total of nothing is deleted. -/
def WindowTotal.kept (total : WindowTotal) : Option WindowTotal :=
  if total.count = 0 then Option.none else some total

/-- The body of the loop of `adjustWindowTotals`. -/
def adjustWindow (totals : WindowTotals) (attempt : AttemptMoney) (sign : Int) (window : Id) :
    WindowTotals := fun w s =>
  if w = window ∧ s = attempt.state then
    (((totals w s).getD WindowTotal.none).adjust attempt sign).kept
  else totals w s

def adjustWindowTotals (totals : WindowTotals) (attempt : AttemptMoney) (sign : Int) :
    WindowTotals :=
  adjustWindow (adjustWindow totals attempt sign attempt.installationWindowId) attempt sign
    attempt.memberWindowId

/-- The fold with the field `money` of its summaries, and the totals. -/
structure MoneyFold where
  fold : Fold
  money : AtomKey → Option AttemptMoney
  windowTotals : WindowTotals

namespace MoneyFold

variable (codec : Codec)

def empty : MoneyFold := ⟨Fold.empty, fun _ => none, fun _ _ => none⟩

/-- `summary?.money??this.projection.get(key)` -/
def before (f : MoneyFold) (key : AtomKey) : Option AttemptMoney :=
  match f.fold.summarised.find? key with
  | some _ => f.money key
  | none =>
      match f.fold.projection.find? key with
      | some (.attempt row) => some row.money
      | _ => none

/-- The totals after one atom. -/
def totalsAfter (f : MoneyFold) (atom : FinancialAtom) : WindowTotals :=
  match atom with
  | .attempt row =>
      match f.before (financialAtomKey atom) with
      | some before =>
          adjustWindowTotals (adjustWindowTotals f.windowTotals before (-1)) row.money 1
      | none => adjustWindowTotals f.windowTotals row.money 1
  | _ => f.windowTotals

/-- The body of the loop of `applyAtoms`. -/
def applyAtom (f : MoneyFold) (atom : FinancialAtom) : MoneyFold where
  fold := f.fold.applyAtom atom
  money := Function.update f.money (financialAtomKey atom) none
  windowTotals := f.totalsAfter atom

/-- The body of the loop of `summariseFinished`. -/
def summariseAttempt (now : Option Int) (f : MoneyFold) (atom : FinancialAtom) : MoneyFold where
  fold := f.fold.summariseAttempt codec now atom
  money :=
    match atom with
    | .attempt row =>
        if Fold.finished codec now row then
          Function.update f.money (financialAtomKey atom) (some row.money)
        else f.money
    | _ => f.money
  windowTotals := f.windowTotals

/-- `summariseFinished` -/
def summariseFinished (now : Option Int) (f : MoneyFold) : MoneyFold :=
  let g := f.fold.projection.rows.foldl (summariseAttempt codec now) f
  { g with fold := { g.fold with finishedWaiting := 0 } }

/-- `applyAtoms` -/
def applyAtoms (f : MoneyFold) (atoms : List FinancialAtom) : MoneyFold :=
  let f := atoms.foldl applyAtom f
  if f.fold.finishedWaiting ≥ FOLD_SUMMARISE_AT then f.summariseFinished codec none else f

end MoneyFold

/-! ## Section 2: What is to be added up -/

/-- Once for each window that is the given one. -/
def roles (money : AttemptMoney) (window : Id) (state : AttemptState) : List AttemptMoney :=
  (if window = money.installationWindowId ∧ state = money.state then [money] else []) ++
    if window = money.memberWindowId ∧ state = money.state then [money] else []

def FinancialAtom.roles (window : Id) (state : AttemptState) : FinancialAtom → List AttemptMoney
  | .attempt row => Journal.roles row.money window state
  | .account _ => []
  | .window _ => []
  | .binding _ => []
  | .grant _ _ => []
  | .tombstone _ _ _ _ => []

def FinancialAtom.money? : FinancialAtom → Option AttemptMoney
  | .attempt row => some row.money
  | .account _ => none
  | .window _ => none
  | .binding _ => none
  | .grant _ _ => none
  | .tombstone _ _ _ _ => none

/-- What a window holds in a state. -/
def held (rows : List FinancialAtom) (window : Id) (state : AttemptState) : List AttemptMoney :=
  rows.flatMap (FinancialAtom.roles window state)

def sumOf (monies : List AttemptMoney) : WindowTotal where
  count := monies.length
  reserved := (monies.map fun m => (moneyUnits m.reservedAmount : Int)).sum
  actual := (monies.map fun m => (moneyUnits (m.actualAmount.getD ['0']) : Int)).sum
  high := (monies.map fun m => (moneyUnits m.highestObservedLiability : Int)).sum

/-- Once for each attempt that has the given window, whatever for. -/
def spanned (rows : List FinancialAtom) (window : Id) (state : AttemptState) : List AttemptMoney :=
  (rows.filterMap FinancialAtom.money?).filter fun m =>
    (window = m.installationWindowId ∨ window = m.memberWindowId) ∧ state = m.state

/-- The newest atom of every key. -/
def newest (atoms : List FinancialAtom) : Table financialAtomKey :=
  atoms.foldl Table.set Table.empty

theorem sumOf_perm {l l' : List AttemptMoney} (h : l.Perm l') : sumOf l = sumOf l' := by
  unfold sumOf
  rw [h.length_eq, (h.map _).sum_eq, (h.map _).sum_eq, (h.map _).sum_eq]

theorem adjust_sumOf (m : AttemptMoney) (l : List AttemptMoney) :
    (sumOf l).adjust m 1 = sumOf (m :: l) := by
  simp only [sumOf, WindowTotal.adjust, List.length_cons, List.map_cons, List.sum_cons,
    WindowTotal.mk.injEq]
  refine ⟨?_, ?_, ?_, ?_⟩ <;> omega

theorem adjust_sumOf_cons (m : AttemptMoney) (l : List AttemptMoney) :
    (sumOf (m :: l)).adjust m (-1) = sumOf l := by
  simp only [sumOf, WindowTotal.adjust, List.length_cons, List.map_cons, List.sum_cons,
    WindowTotal.mk.injEq]
  refine ⟨?_, ?_, ?_, ?_⟩ <;> omega

/-- What is deleted was a total of nothing. -/
theorem getD_kept (l : List AttemptMoney) : ((sumOf l).kept).getD WindowTotal.none = sumOf l := by
  unfold WindowTotal.kept
  by_cases hl : l = []
  · subst hl
    rfl
  · have hcount : (sumOf l).count ≠ 0 := by
      have := List.length_pos_iff.2 hl
      simp only [sumOf]
      omega
    rw [if_neg hcount]
    rfl

/-- The totals are those of the given lists. -/
def Totals (totals : WindowTotals) (lists : Id → AttemptState → List AttemptMoney) : Prop :=
  ∀ w s, totals w s = (sumOf (lists w s)).kept

/-- The part of one window. -/
def roleIn (money : AttemptMoney) (id window : Id) (state : AttemptState) : List AttemptMoney :=
  if window = id ∧ state = money.state then [money] else []

theorem Totals.add {totals : WindowTotals} {lists : Id → AttemptState → List AttemptMoney}
    (h : Totals totals lists) (m : AttemptMoney) (id : Id) :
    Totals (adjustWindow totals m 1 id) fun w s => roleIn m id w s ++ lists w s := by
  intro w s
  show adjustWindow totals m 1 id w s = (sumOf (roleIn m id w s ++ lists w s)).kept
  unfold adjustWindow roleIn
  by_cases hw : w = id ∧ s = m.state
  · rw [if_pos hw, if_pos hw, h w s, getD_kept, adjust_sumOf]
    rfl
  · rw [if_neg hw, if_neg hw]
    exact h w s

theorem Totals.remove {totals : WindowTotals} {lists : Id → AttemptState → List AttemptMoney}
    (m : AttemptMoney) (id : Id) (h : Totals totals fun w s => roleIn m id w s ++ lists w s) :
    Totals (adjustWindow totals m (-1) id) lists := by
  intro w s
  have hold : totals w s = (sumOf (roleIn m id w s ++ lists w s)).kept := h w s
  unfold adjustWindow
  unfold roleIn at hold
  by_cases hw : w = id ∧ s = m.state
  · rw [if_pos hw] at hold ⊢
    rw [hold, getD_kept, List.singleton_append, adjust_sumOf_cons]
  · rw [if_neg hw] at hold ⊢
    exact hold

theorem Totals.perm {totals : WindowTotals} {lists lists' : Id → AttemptState → List AttemptMoney}
    (h : Totals totals lists) (hperm : ∀ w s, (lists w s).Perm (lists' w s)) :
    Totals totals lists' := by
  intro w s
  rw [h w s, sumOf_perm (hperm w s)]

/-- **Adding** an attempt to both of its windows. -/
theorem Totals.addBoth {totals : WindowTotals} {lists : Id → AttemptState → List AttemptMoney}
    (h : Totals totals lists) (m : AttemptMoney) :
    Totals (adjustWindowTotals totals m 1) fun w s => roles m w s ++ lists w s := by
  apply ((h.add m m.installationWindowId).add m m.memberWindowId).perm
  intro w s
  show (roleIn m m.memberWindowId w s ++ (roleIn m m.installationWindowId w s ++ lists w s)).Perm
    (roleIn m m.installationWindowId w s ++ roleIn m m.memberWindowId w s ++ lists w s)
  rw [← List.append_assoc]
  exact List.perm_append_comm.append_right _

/-- **Taking** an attempt out of both of its windows. -/
theorem Totals.removeBoth {totals : WindowTotals}
    {lists : Id → AttemptState → List AttemptMoney} (m : AttemptMoney)
    (h : Totals totals fun w s => roles m w s ++ lists w s) :
    Totals (adjustWindowTotals totals m (-1)) lists := by
  apply Totals.remove
  apply Totals.remove
  apply h.perm
  intro w s
  show (roleIn m m.installationWindowId w s ++ roleIn m m.memberWindowId w s ++ lists w s).Perm
    (roleIn m m.installationWindowId w s ++ (roleIn m m.memberWindowId w s ++ lists w s))
  rw [List.append_assoc]

/-! ## Section 3: What one change does -/

theorem FinancialAtom.roles_of_money {atom : FinancialAtom} {m : AttemptMoney}
    (h : atom.money? = some m) (w : Id) (s : AttemptState) :
    atom.roles w s = Journal.roles m w s := by
  cases atom with
  | attempt row =>
    cases h
    rfl
  | account _ => cases h
  | window _ => cases h
  | binding _ => cases h
  | grant _ _ => cases h
  | tombstone _ _ _ _ => cases h

theorem FinancialAtom.roles_of_none {atom : FinancialAtom} (h : atom.money? = none) (w : Id)
    (s : AttemptState) : atom.roles w s = [] := by
  cases atom with
  | attempt row => cases h
  | account _ => rfl
  | window _ => rfl
  | binding _ => rfl
  | grant _ _ => rfl
  | tombstone _ _ _ _ => rfl

/-- The kind of an atom is in its key, so atoms of one key are attempts together. -/
theorem FinancialAtom.money_isSome (atom : FinancialAtom) :
    atom.money?.isSome = Fold.isAttempt (financialAtomKey atom) := by
  cases atom <;> rfl

theorem held_perm {rows rows' : List FinancialAtom} (h : rows.Perm rows') (w : Id)
    (s : AttemptState) : (held rows w s).Perm (held rows' w s) :=
  h.flatMap_right _

theorem held_cons (atom : FinancialAtom) (rows : List FinancialAtom) (w : Id) (s : AttemptState) :
    held (atom :: rows) w s = atom.roles w s ++ held rows w s := rfl

namespace MoneyFold

variable (codec : Codec)

/-- **The invariant**: the fold holds the rows, live or summarised; a summary has the money of
    its attempt; and the totals are those of the rows. -/
structure Balanced (f : MoneyFold) (rows : Table financialAtomKey) : Prop where
  fold : f.fold.Represents codec rows.find?
  money : ∀ {key summary atom}, f.fold.summarised.find? key = some summary →
    rows.find? key = some atom → Fold.isAttempt key = true → f.money key = atom.money?
  totals : Totals f.windowTotals (held rows.rows)

theorem balanced_empty : Balanced codec empty Table.empty where
  fold := Fold.represents_empty codec
  money := fun h => by cases h
  totals := fun _ _ => rfl

variable {codec} {f : MoneyFold} {rows : Table financialAtomKey}

/-- The version before is found whether its row is live or summarised. -/
theorem Balanced.before_eq (h : Balanced codec f rows) {key : AtomKey}
    (hkey : Fold.isAttempt key = true) : f.before key = (rows.find? key).bind (·.money?) := by
  unfold before
  cases hsummary : f.fold.summarised.find? key with
  | some summary =>
    obtain ⟨atom, hatom, -, -⟩ := h.fold.summary hsummary
    rw [hatom]
    exact h.money hsummary hatom hkey
  | none =>
    cases hlive : f.fold.projection.find? key with
    | some atom =>
      rw [h.fold.live hlive]
      cases atom <;> rfl
    | none =>
      -- neither live nor summarised: the key is new
      have hnew : rows.find? key = none := by
        cases hrow : rows.find? key with
        | none => rfl
        | some atom =>
          cases h.fold.complete hrow with
          | inl hl => rw [hlive] at hl; cases hl
          | inr hs => rw [hsummary] at hs; cases hs
      rw [hnew]
      rfl

/-- An atom that is no attempt stands for none, before and after. -/
theorem held_set_other {atom : FinancialAtom} (hatom : atom.money? = none) (w : Id)
    (s : AttemptState) : (held rows.rows w s).Perm (held (rows.set atom).rows w s) := by
  have hnew : (held (rows.erase (financialAtomKey atom)).rows w s).Perm
      (held (rows.set atom).rows w s) := by
    have := held_perm (rows.rows_set_perm atom) w s
    rw [held_cons, FinancialAtom.roles_of_none hatom] at this
    exact this.symm
  apply List.Perm.trans _ hnew
  cases hold : rows.find? (financialAtomKey atom) with
  | none => rw [Table.erase_of_not_found hold]
  | some old =>
    have hkind : old.money? = none := by
      have h1 := old.money_isSome
      have h2 := atom.money_isSome
      rw [Table.find?_key hold, ← h2, hatom] at h1
      simpa using h1
    have := held_perm (Table.rows_perm_cons_erase hold) w s
    rw [held_cons, FinancialAtom.roles_of_none hkind] at this
    exact this

theorem Balanced.totalsAfter (h : Balanced codec f rows) (atom : FinancialAtom) :
    Totals (f.totalsAfter atom) (held (rows.set atom).rows) := by
  cases hatom : atom.money? with
  | none =>
    have hsame : f.totalsAfter atom = f.windowTotals := by
      cases atom with
      | attempt row => cases hatom
      | account _ => rfl
      | window _ => rfl
      | binding _ => rfl
      | grant _ _ => rfl
      | tombstone _ _ _ _ => rfl
    rw [hsame]
    exact h.totals.perm (held_set_other hatom)
  | some m =>
    have hkey : Fold.isAttempt (financialAtomKey atom) = true := by
      rw [← atom.money_isSome, hatom]
      rfl
    -- with the old version out, the attempt itself is added
    have hadd : ∀ {totals}, Totals totals (held (rows.erase (financialAtomKey atom)).rows) →
        Totals (adjustWindowTotals totals m 1) (held (rows.set atom).rows) := by
      intro totals ht
      apply (ht.addBoth m).perm
      intro w s
      rw [← FinancialAtom.roles_of_money hatom]
      exact (held_perm (rows.rows_set_perm atom) w s).symm
    have hbefore := h.before_eq hkey
    have hstep : f.totalsAfter atom = match f.before (financialAtomKey atom) with
        | some before => adjustWindowTotals (adjustWindowTotals f.windowTotals before (-1)) m 1
        | none => adjustWindowTotals f.windowTotals m 1 := by
      cases atom with
      | attempt row => cases hatom; rfl
      | account _ => cases hatom
      | window _ => cases hatom
      | binding _ => cases hatom
      | grant _ _ => cases hatom
      | tombstone _ _ _ _ => cases hatom
    rw [hstep, hbefore]
    cases hold : rows.find? (financialAtomKey atom) with
    | none =>
      show Totals (adjustWindowTotals f.windowTotals m 1) _
      apply hadd
      rw [Table.erase_of_not_found hold]
      exact h.totals
    | some old =>
      have hsome : old.money?.isSome := by
        rw [old.money_isSome, Table.find?_key hold]
        exact hkey
      obtain ⟨money, hmoney⟩ := Option.isSome_iff_exists.1 hsome
      show Totals (match old.money? with
        | some before => adjustWindowTotals (adjustWindowTotals f.windowTotals before (-1)) m 1
        | none => adjustWindowTotals f.windowTotals m 1) _
      rw [hmoney]
      apply hadd
      apply Totals.removeBoth
      apply h.totals.perm
      intro w s
      rw [← FinancialAtom.roles_of_money hmoney]
      exact held_perm (Table.rows_perm_cons_erase hold) w s

/-- **One atom** keeps the books balanced. -/
theorem Balanced.applyAtom (h : Balanced codec f rows) (atom : FinancialAtom) :
    Balanced codec (f.applyAtom atom) (rows.set atom) where
  fold := by
    have hput : (rows.set atom).find? = Ledger.put rows.find? atom := by
      funext key
      exact Table.find?_set atom key
    rw [hput]
    exact h.fold.applyAtom atom
  money := by
    intro key summary found hsummary hfound hkey
    have hsum := Fold.applyAtom_summarised (f := f.fold) atom key
    rw [Table.find?_set] at hfound
    by_cases hk : key = financialAtomKey atom
    · rw [if_pos hk] at hsum
      have hsummary : (f.fold.applyAtom atom).summarised.find? key = some summary := hsummary
      rw [hsum] at hsummary
      cases hsummary
    · rw [if_neg hk] at hsum hfound
      have hsummary : (f.fold.applyAtom atom).summarised.find? key = some summary := hsummary
      rw [hsum] at hsummary
      show Function.update f.money (financialAtomKey atom) none key = _
      rw [Function.update_of_ne hk]
      exact h.money hsummary hfound hkey
  totals := h.totalsAfter atom

theorem Balanced.applyAll (h : Balanced codec f rows) (atoms : List FinancialAtom) :
    Balanced codec (atoms.foldl MoneyFold.applyAtom f) (atoms.foldl Table.set rows) := by
  induction atoms generalizing f rows with
  | nil => exact h
  | cons atom atoms ih => exact ih (h.applyAtom atom)

/-- **Summarising** moves an attempt with its money, and the totals stay. -/
theorem Balanced.summariseAttempt (h : Balanced codec f rows) (now : Option Int)
    {atom : FinancialAtom}
    (hlive : f.fold.projection.find? (financialAtomKey atom) = some atom) :
    Balanced codec (f.summariseAttempt codec now atom) rows where
  fold := h.fold.summariseAttempt now hlive
  totals := h.totals
  money := by
    intro key summary found hsummary hfound hkey
    have hsummary : (f.fold.summariseAttempt codec now atom).summarised.find? key = some summary :=
      hsummary
    have hsame : f.fold.summarised.find? key = some summary → f.money key = found.money? :=
      fun hs => h.money hs hfound hkey
    unfold Fold.summariseAttempt at hsummary
    unfold MoneyFold.summariseAttempt
    cases atom with
    | account _ => exact hsame hsummary
    | window _ => exact hsame hsummary
    | binding _ => exact hsame hsummary
    | grant _ _ => exact hsame hsummary
    | tombstone _ _ _ _ => exact hsame hsummary
    | attempt row =>
      by_cases hfinished : Fold.finished codec now row = true
      · show (if Fold.finished codec now row then
            Function.update f.money (financialAtomKey (.attempt row)) (some row.money)
          else f.money) key = found.money?
        rw [if_pos hfinished]
        by_cases hk : key = financialAtomKey (.attempt row)
        · rw [hk] at hfound ⊢
          rw [h.fold.live hlive] at hfound
          cases hfound
          rw [Function.update_self]
          rfl
        · rw [Function.update_of_ne hk]
          apply hsame
          dsimp only at hsummary
          rw [if_pos hfinished] at hsummary
          have hother : (f.fold.summariseRow codec (.attempt row)).summarised.find? key =
              f.fold.summarised.find? key := by
            rw [Fold.summariseRow_summarised, if_neg hk]
          split at hsummary
          · next grant hgrant =>
            -- the key of an attempt is not the key of the grant
            have hne : key ≠ financialAtomKey grant := by
              intro he
              rw [he, Table.find?_key hgrant] at hkey
              cases hkey
            rw [Fold.summariseRow_summarised, if_neg hne, hother] at hsummary
            exact hsummary
          · rw [hother] at hsummary
            exact hsummary
      · show (if Fold.finished codec now row then
            Function.update f.money (financialAtomKey (.attempt row)) (some row.money)
          else f.money) key = found.money?
        rw [if_neg hfinished]
        dsimp only at hsummary
        rw [if_neg hfinished] at hsummary
        exact hsame hsummary

theorem summariseAttempt_grant (codec : Codec) (now : Option Int) (f : MoneyFold)
    (atom : FinancialAtom) (h : Fold.isGrant (financialAtomKey atom) = true) :
    f.summariseAttempt codec now atom = f := by
  cases atom <;> first | rfl | cases h

/-- **Summarising all that is finished** keeps the books balanced. -/
theorem Balanced.summariseFinished (h : Balanced codec f rows) (now : Option Int) :
    Balanced codec (f.summariseFinished codec now) rows := by
  have := Fold.summarise_loop MoneyFold.fold (MoneyFold.summariseAttempt codec now)
    (fun f => Balanced codec f rows) (fun _ _ => rfl) (summariseAttempt_grant codec now)
    (fun h => h.summariseAttempt now) f.fold.projection.rows f h f.fold.projection.nodup
    fun atom hmem _ => Table.find?_of_mem hmem
  have hfold := this.fold
  exact ⟨⟨hfold.live, hfold.summary, hfold.apart, hfold.complete, hfold.attempts, hfold.grants⟩,
    this.money, this.totals⟩

theorem Balanced.applyAtoms (h : Balanced codec f rows) (atoms : List FinancialAtom) :
    Balanced codec (f.applyAtoms codec atoms) (atoms.foldl Table.set rows) := by
  unfold MoneyFold.applyAtoms
  dsimp only
  split
  · exact (h.applyAll atoms).summariseFinished none
  · exact h.applyAll atoms

end MoneyFold

/-! ## Section 4: Every run -/

/-- What happens to the fold. -/
inductive FoldChange where
  /-- The atoms of a committed proposal. -/
  | applyAtoms (atoms : List FinancialAtom)
  /-- Finished attempts, with `now` also expired ones. -/
  | summariseFinished (now : Option Int)

def FoldChange.atoms : FoldChange → List FinancialAtom
  | .applyAtoms atoms => atoms
  | .summariseFinished _ => []

namespace MoneyFold

variable (codec : Codec)

def change (f : MoneyFold) : FoldChange → MoneyFold
  | .applyAtoms atoms => f.applyAtoms codec atoms
  | .summariseFinished now => f.summariseFinished codec now

def run (changes : List FoldChange) : MoneyFold := changes.foldl (change codec) empty

theorem balanced_run (changes : List FoldChange) :
    Balanced codec (run codec changes) (newest (changes.flatMap FoldChange.atoms)) := by
  have hrun : ∀ (changes : List FoldChange) (f : MoneyFold) (rows : Table financialAtomKey),
      Balanced codec f rows → Balanced codec (changes.foldl (change codec) f)
        ((changes.flatMap FoldChange.atoms).foldl Table.set rows) := by
    intro changes
    induction changes with
    | nil => exact fun f rows h => h
    | cons c changes ih =>
      intro f rows h
      rw [List.foldl_cons, List.flatMap_cons, List.foldl_append]
      apply ih
      cases c with
      | applyAtoms atoms => exact h.applyAtoms atoms
      | summariseFinished now => exact h.summariseFinished now
  exact hrun changes empty Table.empty (balanced_empty codec)

end MoneyFold

/-- One role a window is what the window spans. -/
theorem roles_eq_of_ne {m : AttemptMoney} {w : Id}
    (h : ¬ (w = m.installationWindowId ∧ w = m.memberWindowId)) (s : AttemptState) :
    roles m w s = [m].filter fun m =>
      (w = m.installationWindowId ∨ w = m.memberWindowId) ∧ s = m.state := by
  rw [List.filter_singleton]
  unfold roles
  by_cases hi : w = m.installationWindowId ∧ s = m.state
  · have hm : ¬ (w = m.memberWindowId ∧ s = m.state) := fun hm => h ⟨hi.1, hm.1⟩
    have hin : (w = m.installationWindowId ∨ w = m.memberWindowId) ∧ s = m.state :=
      ⟨.inl hi.1, hi.2⟩
    rw [if_pos hi, if_neg hm, decide_eq_true hin]
    rfl
  · rw [if_neg hi, List.nil_append]
    by_cases hm : w = m.memberWindowId ∧ s = m.state
    · have hin : (w = m.installationWindowId ∨ w = m.memberWindowId) ∧ s = m.state :=
        ⟨.inr hm.1, hm.2⟩
      rw [if_pos hm, decide_eq_true hin]
      rfl
    · have hneither : ¬ ((w = m.installationWindowId ∨ w = m.memberWindowId) ∧ s = m.state) := by
        intro hw
        cases hw.1 with
        | inl h1 => exact hi ⟨h1, hw.2⟩
        | inr h2 => exact hm ⟨h2, hw.2⟩
      rw [if_neg hm, decide_eq_false hneither]
      rfl

theorem held_eq_spanned {rows : List FinancialAtom} {w : Id}
    (h : ∀ atom ∈ rows, ∀ m, atom.money? = some m →
      ¬ (w = m.installationWindowId ∧ w = m.memberWindowId)) (s : AttemptState) :
    held rows w s = spanned rows w s := by
  induction rows with
  | nil => rfl
  | cons atom rows ih =>
    have hrest := ih fun other hmem => h other (List.mem_cons_of_mem _ hmem)
    rw [held_cons, hrest]
    unfold spanned
    cases hatom : atom.money? with
    | none =>
      rw [FinancialAtom.roles_of_none hatom, List.filterMap_cons_none hatom]
      rfl
    | some m =>
      rw [FinancialAtom.roles_of_money hatom, List.filterMap_cons_some hatom,
        roles_eq_of_ne (h atom List.mem_cons_self m hatom), ← List.filter_append]
      rfl

/-- The summaries are of the rows that are not live. -/
theorem Fold.Represents.summarised_perm {codec : Codec} {f : Fold} {rows : Table financialAtomKey}
    (h : f.Represents codec rows.find?) :
    f.summarised.keys.Perm (rows.keys.filter fun key => (f.projection.find? key).isNone) := by
  apply (List.perm_ext_iff_of_nodup f.summarised.nodup (rows.nodup.filter _)).2
  intro key
  rw [List.mem_filter]
  have hsum : key ∈ f.summarised.rows.map SummarisedAtom.key ↔
      (f.summarised.find? key).isSome := Table.mem_keys
  have hrows : key ∈ rows.rows.map financialAtomKey ↔ (rows.find? key).isSome := Table.mem_keys
  rw [hsum, hrows]
  constructor
  · intro hs
    obtain ⟨summary, hsummary⟩ := Option.isSome_iff_exists.1 hs
    obtain ⟨atom, hatom, -, -⟩ := h.summary hsummary
    rw [hatom, h.apart hsummary]
    exact ⟨rfl, rfl⟩
  · intro hrow
    obtain ⟨atom, hatom⟩ := Option.isSome_iff_exists.1 hrow.1
    cases h.complete hatom with
    | inl hlive =>
      rw [hlive] at hrow
      cases hrow.2
    | inr hs => exact hs

/-- The rows of a kind that are held only as summaries. -/
def onlySummarised (f : Fold) (rows : Table financialAtomKey) (kind : AtomKey → Bool) : Nat :=
  rows.keys.countP fun key => kind key && (f.projection.find? key).isNone

theorem Fold.Represents.countP_summarised {codec : Codec} {f : Fold}
    {rows : Table financialAtomKey} (h : f.Represents codec rows.find?) (kind : AtomKey → Bool) :
    f.summarised.keys.countP kind = onlySummarised f rows kind := by
  rw [h.summarised_perm.countP_eq, List.countP_filter]
  rfl

/-- **The totals of the windows**: after any changes, every window has in every state the count
    and the amounts of the newest versions of its attempts, each once for either of the two
    windows it names. Unless an attempt names one window for both, these are the attempts whose
    installation or member window it is. The two counters are those of the rows that are held
    only as summaries. -/
theorem windowTotals_exact (codec : Codec) (changes : List FoldChange) :
    let f := MoneyFold.run codec changes
    let rows := newest (changes.flatMap FoldChange.atoms)
    (∀ w s, f.windowTotals w s = (sumOf (held rows.rows w s)).kept) ∧
    (∀ w s, (∀ atom ∈ rows.rows, ∀ m, atom.money? = some m →
        ¬ (w = m.installationWindowId ∧ w = m.memberWindowId)) →
      f.windowTotals w s = (sumOf (spanned rows.rows w s)).kept) ∧
    f.fold.summarisedAttempts = onlySummarised f.fold rows Fold.isAttempt ∧
    f.fold.summarisedGrants = onlySummarised f.fold rows Fold.isGrant := by
  have h := MoneyFold.balanced_run codec changes
  refine ⟨h.totals, ?_, ?_, ?_⟩
  · intro w s hne
    rw [h.totals w s, held_eq_spanned hne s]
  · rw [h.fold.attempts, h.fold.countP_summarised]
  · rw [h.fold.grants, h.fold.countP_summarised]

/-- An attempt whose two windows are one. -/
def oneWindow : AttemptAtom where
  id := "00000000-0000-4000-8000-000000000001".toList
  installationAccountId := "00000000-0000-4000-8000-000000000002".toList
  memberAccountId := "00000000-0000-4000-8000-000000000003".toList
  bindingId := "00000000-0000-4000-8000-000000000004".toList
  installationWindowId := "00000000-0000-4000-8000-000000000005".toList
  memberWindowId := "00000000-0000-4000-8000-000000000005".toList
  endpointHash := zero
  credentialGeneration := ['1']
  installationPolicyGeneration := ['1']
  memberPolicyGeneration := ['1']
  endpointGeneration := ['1']
  recoveryEpochHash := zero
  requestHash := zero
  profileHash := zero
  invocationHash := none
  reservedAmount := ['1']
  installationCapSnapshot := ['9']
  memberCapSnapshot := ['9']
  createdAt := "2026-01-01T00:00:00.000Z".toList
  expiresAt := "2026-01-01T00:05:00.000Z".toList
  admittedAt := none
  state := .prepared
  actualAmount := none
  settlementHash := none
  conflictReason := none
  conflictHash := none
  highestObservedLiability := ['1']

/-- It is one attempt of its window, and the totals of the window have two. -/
theorem windowTotals_oneWindow :
    let f := MoneyFold.run PlainCodec.plainCodec.toCodec [.applyAtoms [.attempt oneWindow]]
    let totals :=
      sumOf (spanned (newest [.attempt oneWindow]).rows oneWindow.memberWindowId .prepared)
    f.windowTotals oneWindow.memberWindowId .prepared ≠ totals.kept ∧
    f.windowTotals oneWindow.memberWindowId .prepared = some ⟨2, 2 * 10 ^ 18, 0, 2 * 10 ^ 18⟩ ∧
    totals = ⟨1, 10 ^ 18, 0, 10 ^ 18⟩ := by
  decide +kernel

end Lares.Journal
