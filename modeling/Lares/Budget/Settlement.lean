import Lares.Budget.Runs

/-! # Settlement evidence

    What any sequence of `settle` and `markUnknown` calls leaves in the row of an
    attempt that was admitted before it.

    * **No rejection**: the UPDATE of `settle` passes the trigger and the CHECK
      constraints, whatever the receipt (`settle_error`).
    * **Evidence**: the row is a function of the list of accepted receipts
      (`EvidenceOf`); one call extends the list and keeps the invariant.
    * **Monotonicity**: nothing that was recorded is taken back (`Later`).
-/

namespace Lares.Budget

/-! ## Section 1: The update is never refused -/

theorem isSome_or_some {α : Type} (x : Option α) (y : α) : (x.or (some y)).isSome = true := by
  cases x <;> rfl

/-- The trigger lets the update of `settle` through. -/
theorem budgetImmutable_settledRow {receipt : BudgetTerminalReceipt} {actual : BudgetMoney}
    {a : AttemptRow} (hm : receiptMatches receipt a.toAttempt = true) :
    budgetImmutable a.toAttempt (settledRow receipt actual a.toAttempt) = none := by
  have hkept : immutableColumnsKept a.toAttempt (settledRow receipt actual a.toAttempt) = true := by
    simp [immutableColumnsKept, settledRow]
  have hhigh : a.highestObservedLiability.units ≤
      (settledRow receipt actual a.toAttempt).highestObservedLiability.units := by
    simp [settledRow, BudgetMoney.units_max]
  have hstate : transitionAllowed a.state (settledRow receipt actual a.toAttempt).state = true ∧
      (settledRow receipt actual a.toAttempt).state ≠ .admitted := by
    have hcases := receiptMatches_cases hm
    simp only [settledRow]
    rcases hcases with ⟨h | h, -⟩ | ⟨h | h, amount, hash, -, hhash⟩ <;> rw [h] <;> split <;>
      simp_all [transitionAllowed]
  have hkeep : a.actualAmount.isSome = true →
      (settledRow receipt actual a.toAttempt).actualAmount = a.actualAmount ∧
        (settledRow receipt actual a.toAttempt).settlementHash = a.settlementHash := by
    intro hsome
    have hhash := a.settlementHash_isSome
    rw [hsome] at hhash
    obtain ⟨amount, hamount⟩ := Option.isSome_iff_exists.1 hsome
    obtain ⟨hash, hhash⟩ := Option.isSome_iff_exists.1 hhash
    simp [settledRow, hamount, hhash]
  unfold budgetImmutable
  rw [if_neg (by simp [settledRow]), if_neg]
  simp only [hkept, hstate.1, hstate.2, Bool.not_true, Bool.false_or, Bool.or_eq_true,
    Bool.and_eq_true, bne_iff_ne, ne_eq, decide_eq_true_eq, not_or, not_and, not_not, Nat.not_lt,
    beq_iff_eq, Bool.or_false]
  refine ⟨⟨⟨⟨?_, ?_⟩, ?_⟩, hhigh⟩, ?_⟩
  · exact fun h => absurd rfl h
  · exact fun _ => rfl
  · exact fun _ => not_false
  · intro hsome
    exact ⟨(hkeep hsome).1.symm, (hkeep hsome).2.symm⟩

/-- The row that `settle` writes passes the CHECK constraints. -/
theorem settledRow_checks {receipt : BudgetTerminalReceipt} {actual : BudgetMoney}
    {a : AttemptRow} (hw : receiptWellFormed receipt actual = true)
    (hm : receiptMatches receipt a.toAttempt = true) :
    (settledRow receipt actual a.toAttempt).checks = true := by
  have hhash : validHash receipt.receiptHash = true := by
    simp only [receiptWellFormed, Bool.and_eq_true] at hw
    exact hw.1.1.2
  have hold := a.checked
  simp only [Attempt.checks, Bool.and_eq_true] at hold
  obtain ⟨⟨hhashes, hlife⟩, -⟩ := hold
  have hnew : (settledRow receipt actual a.toAttempt).hashChecks = true := by
    simp only [Attempt.hashChecks, List.all_cons, List.all_nil, Bool.and_eq_true,
      Bool.and_true] at hhashes ⊢
    obtain ⟨hplain, hinv, hset, hconf⟩ := hhashes
    refine ⟨hplain, hinv, ?_, ?_⟩
    · cases hs : a.settlementHash with
      | none => simp [settledRow, hs, hhash]
      | some old =>
        rw [hs] at hset
        simpa [settledRow, hs] using hset
    · simp only [settledRow]
      split
      · simpa using hhash
      · exact hconf
  have hevidence : (settledRow receipt actual a.toAttempt).evidenceChecks = true := by
    have hadm := a.admittedAt_isSome
    have hwas : a.state.wasAdmitted = true := by
      rcases receiptMatches_cases hm with ⟨h | h, -⟩ | ⟨h | h, -⟩ <;> rw [h] <;> rfl
    rw [hwas] at hadm
    have hreason : a.state = .conflict → a.conflictReason.isSome = true := a.conflictReason_isSome
    have hstate : (settledRow receipt actual a.toAttempt).state = .settled ∨
        (settledRow receipt actual a.toAttempt).state = .conflict ∧
          (settledRow receipt actual a.toAttempt).conflictReason.isSome = true := by
      simp only [settledRow]
      split
      · next hc =>
        right
        refine ⟨rfl, ?_⟩
        rcases Bool.or_eq_true_iff.1 hc with hr | hr
        · rw [Option.isSome_or, hr, Bool.or_true]
        · rw [Option.isSome_or, hreason (of_decide_eq_true hr), Bool.true_or]
      · exact .inl rfl
    have hamount : (settledRow receipt actual a.toAttempt).actualAmount.isSome = true :=
      isSome_or_some _ _
    have hset : (settledRow receipt actual a.toAttempt).settlementHash.isSome = true :=
      isSome_or_some _ _
    have hat : (settledRow receipt actual a.toAttempt).admittedAt.isSome = true := hadm
    rw [Attempt.evidenceChecks, ← Option.not_isSome, ← Option.not_isSome, hamount, hset, hat]
    rcases hstate with h | ⟨h, hr⟩
    · rw [h]
      rfl
    · rw [h, hr]
      rfl
  rw [Attempt.checks, hnew, hevidence]
  simpa [Attempt.lifetimeCheck, settledRow] using hlife

/-- Freezing an account that is not retired passes the account guard. -/
theorem freezeInstallation_passes (db : Database) (installationId : Id)
    (reason : ConflictReason) : ∃ db', freezeInstallation db installationId reason = .ok db' := by
  unfold freezeInstallation
  split
  · next account hf =>
    split
    · exact ⟨_, rfl⟩
    · next hr =>
      have hself := hf
      rw [← Table.find?_key hf] at hself
      have hguard : ∃ stored, budgetAccountGuard account
          { account with state := .frozen, reason := reason.toAccountReason } = .ok stored := by
        unfold budgetAccountGuard
        rw [if_neg (by simp [hr])]
        split <;> exact ⟨_, rfl⟩
      obtain ⟨stored, hguard⟩ := hguard
      simp only [Database.updateAccount]
      rw [hself]
      simp only [hguard]
      exact ⟨_, rfl⟩
  · exact ⟨_, rfl⟩

/-- **No rejection**: when `settle` fails it is an error of its own, never the
    trigger or a constraint refusing an update. -/
theorem settle_error {receipt : BudgetTerminalReceipt} {db : Database} {e : StoreError}
    (h : settle receipt db = .error e) : ∃ message, e = .thrown message := by
  unfold settle at h
  split at h
  · cases h
    exact ⟨_, rfl⟩
  next actual _ =>
  split at h
  · cases h
  next hw =>
  split at h
  · cases h
  next a hf =>
  cases hl : locks db a.installationAccountId a.memberAccountId (some a.bindingId) with
  | error e' =>
    rw [hl] at h
    cases h
    unfold locks at hl
    simp only at hl
    split at hl
    · split at hl <;> cases hl
      exact ⟨_, rfl⟩
    · cases hl
      exact ⟨_, rfl⟩
  | ok l =>
    rw [hl] at h
    change settleLocked receipt actual db a.toAttempt = .error e at h
    unfold settleLocked at h
    split at h
    · cases h
    next hmatch =>
    split at h
    · cases h
    have hm : receiptMatches receipt a.toAttempt = true := by simpa using hmatch
    have hself := hf
    rw [← Table.find?_key hf] at hself
    have hupdate : ∃ db₁, db.updateAttempt (settledRow receipt actual a.toAttempt) = .ok db₁ := by
      simp only [Database.updateAttempt]
      rw [show (settledRow receipt actual a.toAttempt).id = a.id from rfl, hself]
      simp only [budgetImmutable_settledRow hm]
      rw [dif_pos (settledRow_checks (by simpa using hw) hm)]
      exact ⟨_, rfl⟩
    obtain ⟨db₁, hu⟩ := hupdate
    obtain ⟨db₂, hfr⟩ := freezeInstallation_passes db₁ a.installationAccountId
      ((receiptReason actual a.toAttempt).getD .receiptConflict)
    simp only [hu] at h
    change (if (settledRow receipt actual a.toAttempt).state = .conflict then _ else _) = _ at h
    split at h
    · rw [hfr] at h
      cases h
    · cases h

/-! ## Section 2: Sequences of settlement calls -/

inductive SettlementCall where
  | settle (receipt : BudgetTerminalReceipt)
  | markUnknown (attemptId : Id)

def SettlementCall.toCall : SettlementCall → BudgetCall
  | .settle receipt => .settle receipt
  | .markUnknown attemptId => .markUnknown attemptId

/-- Settlement calls in any order, from any state the store can reach. -/
def settlementSystem (D : Digests) : System Database SettlementCall where
  init := (budgetSystem D).Reachable
  next db c := some (perform D c.toCall db).1

/-- Hash and amount of the receipt, if the call is a receipt for attempt `id` and
    is not denied. -/
def acceptedReceipt (id : Id) (db : Database) : SettlementCall → Option (Hash × BudgetMoney)
  | .settle receipt =>
      match settle receipt db with
      | .ok (_, verdict) =>
          if receipt.attemptId = id ∧ verdict ≠ .denied then
            (BudgetMoney.ofText receipt.actualAmount).map (receipt.receiptHash, ·)
          else none
      | .error _ => none
  | .markUnknown _ => none

/-- The receipts that are accepted for attempt `id` along a sequence of calls. -/
def acceptedReceipts (D : Digests) (id : Id) :
    Database → List SettlementCall → List (Hash × BudgetMoney)
  | _, [] => []
  | db, c :: cs =>
      (acceptedReceipt id db c).toList ++ acceptedReceipts D id (perform D c.toCall db).1 cs

theorem acceptedReceipts_snoc {D : Digests} {id : Id} {s t : Database}
    {calls : List SettlementCall} (c : SettlementCall)
    (h : (settlementSystem D).run s calls = some t) :
    acceptedReceipts D id s (calls ++ [c]) =
      acceptedReceipts D id s calls ++ (acceptedReceipt id t c).toList := by
  induction calls generalizing s with
  | nil =>
    cases h
    simp [acceptedReceipts]
  | cons d ds ih =>
    simp only [List.cons_append, acceptedReceipts, List.append_assoc]
    rw [ih h]

/-! ## Section 3: The evidence in the row -/

/-- The largest of the accepted amounts. -/
def maxAmount (receipts : List (Hash × BudgetMoney)) : Nat :=
  receipts.foldl (fun m r => max m r.2.units) 0

/-- What the row says once these receipts have been accepted, in this order. -/
def EvidenceOf (a : Attempt) (receipts : List (Hash × BudgetMoney)) : Prop :=
  a.highestObservedLiability.units = maxAmount receipts ∧
    match receipts with
    | [] => (a.state = .admitted ∨ a.state = .unknown) ∧ a.actualAmount = none ∧
        a.settlementHash = none
    | first :: rest => a.actualAmount = some first.2 ∧ a.settlementHash = some first.1 ∧
        a.state = if (∀ r ∈ rest, r = first) ∧ first.2.units ≤ a.reservedAmount.units then
          .settled else .conflict

theorem maxAmount_snoc (receipts : List (Hash × BudgetMoney)) (r : Hash × BudgetMoney) :
    maxAmount (receipts ++ [r]) = max (maxAmount receipts) r.2.units := by
  simp [maxAmount]

theorem le_maxAmount {receipts : List (Hash × BudgetMoney)} {r : Hash × BudgetMoney}
    (h : r ∈ receipts) : r.2.units ≤ maxAmount receipts := by
  induction receipts using List.reverseRecOn with
  | nil => cases h
  | append_singleton rs x ih =>
    rw [maxAmount_snoc]
    rcases List.mem_append.1 h with hr | hr
    · exact (ih hr).trans (le_max_left _ _)
    · rw [List.mem_singleton.1 hr]
      exact le_max_right _ _

theorem sameReceipt_iff {receipt : BudgetTerminalReceipt} {actual : BudgetMoney} {a : Attempt}
    {first : Hash × BudgetMoney} (hamount : a.actualAmount = some first.2)
    (hhash : a.settlementHash = some first.1) :
    sameReceipt receipt actual a = true ↔ (receipt.receiptHash, actual) = first := by
  obtain ⟨hash, amount⟩ := first
  simp only at hamount hhash
  simp only [sameReceipt, hamount, hhash, Option.some.injEq, Option.any_some, Bool.and_eq_true,
    decide_eq_true_eq, Prod.mk.injEq]
  constructor
  · rintro ⟨h, hu⟩
    exact ⟨h.symm, BudgetMoney.ext hu.symm⟩
  · rintro ⟨rfl, rfl⟩
    exact ⟨rfl, rfl⟩

/-- The receipt that the attempt was settled with leaves the evidence as it is. -/
theorem evidence_same {receipt : BudgetTerminalReceipt} {actual : BudgetMoney} {a : Attempt}
    {receipts : List (Hash × BudgetMoney)} (h : EvidenceOf a receipts)
    (hsame : sameReceipt receipt actual a = true) :
    EvidenceOf a (receipts ++ [(receipt.receiptHash, actual)]) := by
  obtain ⟨hhigh, h⟩ := h
  cases receipts with
  | nil =>
    obtain ⟨-, -, hhash⟩ := h
    simp [sameReceipt, hhash] at hsame
  | cons first rest =>
    obtain ⟨hamount, hhash, hstate⟩ := h
    rw [(sameReceipt_iff hamount hhash).1 hsame]
    refine ⟨?_, hamount, hhash, ?_⟩
    · rw [maxAmount_snoc, hhigh, max_eq_left (le_maxAmount (List.mem_cons_self ..))]
    · have hall : (∀ r ∈ rest, r = first) ↔ ∀ r ∈ rest ++ [first], r = first := by
        simp only [List.mem_append, List.mem_singleton, or_imp, forall_and, forall_eq, and_true]
      rw [hstate]
      exact if_congr (and_congr_left' hall) rfl rfl

/-- Any other receipt extends the evidence by itself. -/
theorem evidence_settledRow {receipt : BudgetTerminalReceipt} {actual : BudgetMoney}
    {a : Attempt} {receipts : List (Hash × BudgetMoney)} (h : EvidenceOf a receipts)
    (hdiff : sameReceipt receipt actual a = false) :
    EvidenceOf (settledRow receipt actual a) (receipts ++ [(receipt.receiptHash, actual)]) := by
  obtain ⟨hhigh, h⟩ := h
  have hmax : (settledRow receipt actual a).highestObservedLiability.units =
      maxAmount (receipts ++ [(receipt.receiptHash, actual)]) := by
    rw [maxAmount_snoc, ← hhigh]
    exact BudgetMoney.units_max _ _
  refine ⟨hmax, ?_⟩
  cases receipts with
  | nil =>
    obtain ⟨hopen, hamount, hhash⟩ := h
    have hnc : a.state ≠ .conflict := by rcases hopen with h | h <;> simp [h]
    refine ⟨by simp [settledRow, hamount], by simp [settledRow, hhash], ?_⟩
    by_cases hover : actual.units > a.reservedAmount.units
    · simp [settledRow, receiptReason, hhash, hover, Nat.not_le.2 hover]
    · simp [settledRow, receiptReason, hhash, hover, hnc, Nat.not_lt.1 hover]
  | cons first rest =>
    obtain ⟨hamount, hhash, -⟩ := h
    have hne : (receipt.receiptHash, actual) ≠ first := fun he => by
      rw [(sameReceipt_iff hamount hhash).2 he] at hdiff
      cases hdiff
    refine ⟨by simp [settledRow, hamount], by simp [settledRow, hhash], ?_⟩
    rw [if_neg fun hall => hne (hall.1 _ (List.mem_append.2 (.inr (List.mem_singleton.2 rfl))))]
    simp [settledRow, receiptReason, hhash]

/-! ## Section 4: One call -/

/-- The account is there, and it is frozen or retired. -/
def Halted (db : Database) (accountId : Id) : Prop :=
  ∃ account, db.accounts.find? accountId = some account ∧
    (account.state = .frozen ∨ account.state = .retired)

/-- The state of one attempt between two calls: its row says which receipts were
    accepted, and if it is in conflict its installation is halted. -/
def Settling (db : Database) (id : Id) (receipts : List (Hash × BudgetMoney)) : Prop :=
  ∃ a, db.attempts.find? id = some a ∧ EvidenceOf a.toAttempt receipts ∧
    (a.state = .conflict → Halted db a.installationAccountId)

theorem halted_freezes {db db' : Database} {installationId accountId : Id}
    (h : Freezes db db' installationId) (ha : Halted db accountId) : Halted db' accountId := by
  rcases h with ⟨rfl, -⟩ | ⟨account, frozen, hf, -, hfrozen, rfl⟩
  · exact ha
  · obtain ⟨old, hold, hstate⟩ := ha
    have hid : frozen.id = account.id := by rw [hfrozen]
    have hstored : frozen.state = .frozen := by rw [hfrozen]
    by_cases hk : accountId = frozen.id
    · refine ⟨frozen, ?_, .inl hstored⟩
      rw [hk] at hold ⊢
      exact Table.find?_put_self hold
    · exact ⟨old, (Table.find?_put_ne (t := db.accounts) hk).trans hold, hstate⟩

theorem freezes_halted {db db' : Database} {installationId : Id}
    (h : Freezes db db' installationId)
    (hexists : (db.accounts.find? installationId).isSome = true) : Halted db' installationId := by
  obtain ⟨account, hf⟩ := Option.isSome_iff_exists.1 hexists
  rcases h with ⟨rfl, hret⟩ | ⟨account', frozen, hf', -, hfrozen, rfl⟩
  · exact ⟨account, hf, .inr (hret account hf)⟩
  · have hid : frozen.id = account'.id := by rw [hfrozen]
    have hstored : frozen.state = .frozen := by rw [hfrozen]
    have hkey := hid.trans (Table.find?_key hf')
    refine ⟨frozen, ?_, .inl hstored⟩
    rw [← hkey] at hf ⊢
    exact Table.find?_put_self hf

/-- An update of another attempt, with or without a freeze, changes nothing here. -/
theorem settling_frame {db db₁ : Database} {old new : AttemptRow} {id : Id}
    {receipts : List (Hash × BudgetMoney)} (hu : Updates db db₁ old new) (hid : id ≠ new.id)
    (h : Settling db id receipts) : Settling db₁ id receipts := by
  obtain ⟨a, ha, hev, hhalt⟩ := h
  rw [hu.result]
  exact ⟨a, (Table.find?_put_ne (t := db.attempts) (r := new) hid).trans ha, hev, hhalt⟩

theorem settling_freezes {db db' : Database} {installationId id : Id}
    {receipts : List (Hash × BudgetMoney)} (hf : Freezes db db' installationId)
    (h : Settling db id receipts) : Settling db' id receipts := by
  obtain ⟨a, ha, hev, hhalt⟩ := h
  exact ⟨a, by rw [freezes_attempts hf, ha], hev, fun hc => halted_freezes hf (hhalt hc)⟩

theorem settling_markUnknown {db db' : Database} {attemptId id : Id}
    {receipts : List (Hash × BudgetMoney)} (hok : markUnknown attemptId db = .ok db')
    (h : Settling db id receipts) : Settling db' id receipts := by
  rcases markUnknown_ok hok with rfl | ⟨a, hf, hadm, row, hrow, hu⟩
  · exact h
  have hkey : row.id = a.id := by rw [hrow]
  by_cases hid : id = row.id
  · obtain ⟨a', ha', ⟨hhigh, hev⟩, -⟩ := h
    have hsame : a' = a := by
      rw [hid, hu.found] at ha'
      exact (Option.some.inj ha').symm
    subst hsame
    -- the attempt is still admitted, so no receipt was accepted for it
    cases receipts with
    | nil =>
      obtain ⟨-, hamount, hhash⟩ := hev
      refine ⟨row, ?_, ⟨by rw [hrow]; exact hhigh, ?_⟩, fun hc => ?_⟩
      · rw [hu.result, hid]
        exact Table.find?_put_self hu.found
      · rw [hrow]
        exact ⟨.inr rfl, hamount, hhash⟩
      · rw [hrow] at hc
        cases hc
    | cons first rest =>
      obtain ⟨-, -, hstate⟩ := hev
      rw [hadm] at hstate
      split at hstate <;> cases hstate
  · exact settling_frame hu hid h

theorem settling_settle {receipt : BudgetTerminalReceipt} {db db' : Database} {id : Id}
    {verdict : SettleVerdict} {receipts : List (Hash × BudgetMoney)}
    (hok : settle receipt db = .ok (db', verdict)) (h : Settling db id receipts) :
    Settling db' id (receipts ++ (acceptedReceipt id db (.settle receipt)).toList) := by
  have hacc : acceptedReceipt id db (.settle receipt) =
      if receipt.attemptId = id ∧ verdict ≠ .denied then
        (BudgetMoney.ofText receipt.actualAmount).map (receipt.receiptHash, ·)
      else none := by
    simp only [acceptedReceipt, hok]
  -- A receipt that is denied changes nothing.
  rcases settle_ok hok with ⟨hv, rfl⟩ | ⟨actual, a, hamount, hf, hm, hcase⟩
  · rw [hacc, if_neg fun hh => hh.2 hv]
    simpa using h
  have hverdict : verdict ≠ .denied := by
    rcases hcase with ⟨-, hv, -⟩ | ⟨row, db₁, -, ⟨-, hv, -⟩ | ⟨-, hv, -⟩⟩ <;> rw [hv]
    · unfold currentVerdict
      split <;> simp
    · simp
    · simp
  -- A receipt of this attempt: the same again, or one that settles it.
  by_cases hid : receipt.attemptId = id
  · rw [hacc, if_pos ⟨hid, hverdict⟩, hamount]
    obtain ⟨a', ha', hev, hhalt⟩ := h
    have hsame : a' = a := by
      rw [← hid, hf] at ha'
      exact (Option.some.inj ha').symm
    subst hsame
    rcases hcase with ⟨hsame, -, rfl⟩ | ⟨row, db₁, hs, hcase⟩
    · -- It says what is stored already.
      exact ⟨a', ha', evidence_same hev hsame, hhalt⟩
    · -- It differs: its evidence is stored, and a conflict halts the installation.
      have hnew := evidence_settledRow hev hs.differs
      rw [← hs.row_eq] at hnew
      have hrowid : row.id = id := by
        rw [← hid, ← Table.find?_key hf, hs.row_eq]
        rfl
      have hfind : db₁.attempts.find? id = some row := by
        rw [hs.updates.result, ← hrowid]
        exact Table.find?_put_self hs.updates.found
      rcases hcase with ⟨hst, -, rfl⟩ | ⟨hst, -, hfr⟩
      · refine ⟨row, hfind, hnew, fun hc => ?_⟩
        rw [hst] at hc
        cases hc
      · refine ⟨row, by rw [freezes_attempts hfr, hfind], hnew, fun _ => ?_⟩
        have hi : row.installationAccountId = a'.installationAccountId := by
          rw [hs.row_eq]
          rfl
        rw [hi]
        refine freezes_halted hfr ?_
        rw [hs.updates.result]
        exact hs.installation
  · rw [hacc, if_neg fun hh => hid hh.1]
    rw [Option.toList_none, List.append_nil]
    -- A receipt of another attempt leaves this row alone.
    rcases hcase with ⟨-, -, rfl⟩ | ⟨row, db₁, hs, hcase⟩
    · exact h
    · have hrowid : id ≠ row.id := by
        intro he
        refine hid ?_
        rw [he, ← Table.find?_key hf, hs.row_eq]
        rfl
      have hframe := settling_frame hs.updates hrowid h
      rcases hcase with ⟨-, -, rfl⟩ | ⟨-, -, hfr⟩
      · exact hframe
      · exact settling_freezes hfr hframe

/-- **Step lemma**: one call extends the accepted receipts by its own. -/
theorem settling_step {D : Digests} {db db' : Database} {c : SettlementCall} {id : Id}
    {receipts : List (Hash × BudgetMoney)} (hnext : (settlementSystem D).next db c = some db')
    (h : Settling db id receipts) :
    Settling db' id (receipts ++ (acceptedReceipt id db c).toList) := by
  simp only [settlementSystem, Option.some.injEq] at hnext
  subst hnext
  cases c with
  | settle receipt =>
    cases hok : settle receipt db with
    | error e =>
      simpa [SettlementCall.toCall, perform, conclude, hok, acceptedReceipt] using h
    | ok r =>
      have hstep := settling_settle (show settle receipt db = .ok (r.1, r.2) from hok) h
      simpa [SettlementCall.toCall, perform, conclude, hok] using hstep
  | markUnknown attemptId =>
    cases hok : markUnknown attemptId db with
    | error e =>
      simpa [SettlementCall.toCall, perform, concludeUnit, conclude, hok, acceptedReceipt,
        Except.map] using h
    | ok db₁ =>
      have hstep := settling_markUnknown hok h
      simpa [SettlementCall.toCall, perform, concludeUnit, conclude, hok, acceptedReceipt,
        Except.map] using hstep

/-! ## Section 5: Where a sequence starts -/

/-- An attempt without an actual amount has observed no liability. -/
def Unobserved (db : Database) : Prop :=
  ∀ a ∈ db.attempts, a.actualAmount = none → a.highestObservedLiability.units = 0

theorem unobserved_updates {db db' : Database} {old new : AttemptRow}
    (hu : Updates db db' old new)
    (hkeep : new.actualAmount = none →
      old.actualAmount = none ∧ new.highestObservedLiability = old.highestObservedLiability)
    (h : Unobserved db) : Unobserved db' := by
  intro a ha hnone
  rw [hu.result] at ha
  rcases Table.mem_put.1 ha with ⟨ha, -⟩ | ⟨rfl, -⟩
  · exact h a ha hnone
  · obtain ⟨hold, hsame⟩ := hkeep hnone
    rw [hsame]
    exact h old (Table.find?_mem hu.found) hold

theorem unobserved_settles {db db' : Database} {receipt : BudgetTerminalReceipt}
    {actual : BudgetMoney} {a row : AttemptRow} (hs : Settles db db' receipt actual a row)
    (h : Unobserved db) : Unobserved db' := by
  refine unobserved_updates hs.updates (fun hnone => ?_) h
  have hsome : row.actualAmount.isSome = true := by
    rw [hs.row_eq]
    exact isSome_or_some _ _
  rw [hnone] at hsome
  cases hsome

theorem unobserved_next {D : Digests} {db db' : Database} {step : BudgetStep}
    (h : Unobserved db) (hnext : (budgetSystem D).next db step = some db') :
    Unobserved db' := by
  rcases budgetNext_cases hnext with ⟨answer, he⟩ | hr
  · cases he with
    | nothing => exact h
    | prepares hp =>
      obtain ⟨attempts, hins, rfl⟩ := hp.inserted
      intro a ha hnone
      rcases (Table.mem_insert? hins).1 ha with ha | rfl
      · exact h a ha hnone
      · rw [hp.highest]
        rfl
    | retires hr =>
      obtain ⟨-, row, hrow, hu⟩ := hr
      exact unobserved_updates hu (by rw [hrow]; exact fun hn => ⟨hn, rfl⟩) h
    | admits ha =>
      obtain ⟨row, _, hrow, hu⟩ := ha.updates
      exact unobserved_updates hu (by rw [hrow]; exact fun hn => ⟨hn, rfl⟩) h
    | marksUnknown hm =>
      obtain ⟨-, row, hrow, hu⟩ := hm
      exact unobserved_updates hu (by rw [hrow]; exact fun hn => ⟨hn, rfl⟩) h
    | settles hs => exact unobserved_settles hs h
    | conflicts hs _ hf =>
      have hdb₁ := unobserved_settles hs h
      intro a ha
      exact hdb₁ a (by rwa [Table.mem_def, ← freezes_attempts hf])
    | grants hg =>
      obtain ⟨a, grants, -, -, -, rfl⟩ := hg
      exact h
  · intro b hb hnone
    obtain ⟨i, hi, rfl⟩ := List.mem_iff_getElem.1 (Table.mem_def.1 hb)
    have hlen : i < db.attempts.rows.length := hr.attempts.length_eq ▸ hi
    have hsame := hr.attempts.get hlen hi
    simp only [attemptReconfigured, Bool.and_eq_true, decide_eq_true_eq, List.get_eq_getElem]
      at hsame
    rw [hsame.1.1] at hnone ⊢
    exact h _ (List.getElem_mem hlen) hnone

theorem reachable_unobserved {D : Digests} {db : Database} (h : (budgetSystem D).Reachable db) :
    Unobserved db := by
  refine (budgetSystem D).reachable_invariant ?_ (fun s step t hs ht => unobserved_next hs ht) h
  intro s hs a ha
  rw [hs.1] at ha
  cases ha

/-- An attempt that was admitted has accepted no receipt yet. -/
theorem settling_start {D : Digests} {db : Database} {id : Id} {a : AttemptRow}
    (hreach : (budgetSystem D).Reachable db) (ha : db.attempts.find? id = some a)
    (hopen : a.state = .admitted ∨ a.state = .unknown) : Settling db id [] := by
  have hfinal : a.actualAmount.isSome = false := by
    rw [a.actualAmount_isSome]
    rcases hopen with h | h <;> rw [h] <;> rfl
  have hnone : a.actualAmount = none := by simpa using hfinal
  have hhash : a.settlementHash = none := by
    have := a.settlementHash_isSome
    rw [hfinal] at this
    simpa using this
  refine ⟨a, ha, ⟨reachable_unobserved hreach a (Table.find?_mem ha) hnone, hopen, hnone, hhash⟩,
    fun hc => ?_⟩
  rcases hopen with h | h <;> rw [h] at hc <;> cases hc

/-! ## Section 6: Whole sequences -/

/-- **Run lemma**: after a sequence of calls the row says which receipts were
    accepted along it. -/
theorem settling_run {D : Digests} {s t : Database} {calls : List SettlementCall} {id : Id}
    (hrun : (settlementSystem D).run s calls = some t) (h : Settling s id []) :
    Settling t id (acceptedReceipts D id s calls) := by
  refine (settlementSystem D).run_induction
    (motive := fun calls t => Settling t id (acceptedReceipts D id s calls)) h ?_ hrun
  intro calls t c u ht ih hnext
  rw [acceptedReceipts_snoc c ht]
  exact settling_step hnext ih

/-- A row that a sequence goes through has a later version at its end. -/
theorem later_visits {D : Digests} {s t u : Database} {calls : List SettlementCall} {id : Id}
    {c : AttemptRow} (hrun : (settlementSystem D).run s calls = some t)
    (hu : (settlementSystem D).Visits s calls u) (hc : u.attempts.find? id = some c) :
    ∃ b, t.attempts.find? id = some b ∧ Later c.toAttempt b.toAttempt := by
  obtain ⟨pre, ⟨post, rfl⟩, hpre⟩ := hu
  rw [System.run_append, hpre, Option.bind_some] at hrun
  refine (settlementSystem D).run_induction
    (motive := fun _ t => ∃ b, t.attempts.find? id = some b ∧ Later c.toAttempt b.toAttempt)
    ⟨c, hc, .refl _⟩ ?_ hrun
  rintro _ v call w - ⟨b, hb, hlater⟩ hnext
  simp only [settlementSystem, Option.some.injEq] at hnext
  subst hnext
  obtain ⟨b', hb', hlater'⟩ := later_change (effect_attempts (perform_effect D call.toCall v)) hb
  exact ⟨b', hb', hlater.trans hlater'⟩

/-- **Settlement evidence is monotone and idempotent.** From a reachable state in
    which an attempt is admitted (its outcome may be unknown), after any sequence
    of `settle` and `markUnknown` calls:

    * its row is determined by the accepted receipts: the first fixes the amount
      and the hash, the largest amount is the highest observed liability, and the
      attempt is settled exactly while all receipts are the first one and within
      the reservation, else in conflict;
    * in conflict, the installation account is frozen or retired;
    * every row the sequence went through is an earlier version: its state comes
      before, and its amount and hash, once there, are the same;
    * a further receipt that is denied changes nothing, one with the first hash
      and amount that is accepted changes nothing and returns the current verdict,
      and none fails because the trigger or a constraint refuses an update. -/
theorem settlement_evidence (D : Digests) (s t : Database) (calls : List SettlementCall)
    (id : Id) (a : AttemptRow) (hreach : (settlementSystem D).init s)
    (ha : s.attempts.find? id = some a) (hopen : a.state = .admitted ∨ a.state = .unknown)
    (hrun : (settlementSystem D).run s calls = some t) :
    ∃ b, t.attempts.find? id = some b ∧
      EvidenceOf b.toAttempt (acceptedReceipts D id s calls) ∧
      (b.state = .conflict → Halted t b.installationAccountId) ∧
      (∀ u c, (settlementSystem D).Visits s calls u → u.attempts.find? id = some c →
        Later c.toAttempt b.toAttempt) ∧
      (∀ receipt t' verdict, settle receipt t = .ok (t', verdict) →
        (verdict = .denied → t' = t) ∧
        (receipt.attemptId = id → verdict ≠ .denied →
          (acceptedReceipts D id s calls).head? =
            (BudgetMoney.ofText receipt.actualAmount).map (receipt.receiptHash, ·) →
          t' = t ∧ verdict = currentVerdict b.toAttempt)) ∧
      ∀ receipt e, settle receipt t = .error e → ∃ message, e = .thrown message := by
  -- What every receipt keeps, it keeps over the run.
  obtain ⟨b, hb, hev, hhalt⟩ := settling_run hrun (settling_start hreach ha hopen)
  refine ⟨b, hb, hev, hhalt, ?_, ?_, fun receipt e he => settle_error he⟩
  · intro u c hu hc
    obtain ⟨b', hb', hlater⟩ := later_visits hrun hu hc
    rw [hb] at hb'
    cases hb'
    exact hlater
  · intro receipt t' verdict hok
    rcases settle_ok hok with ⟨hv, rfl⟩ | ⟨actual, a', hamount, hf, hm, hcase⟩
    · exact ⟨fun _ => rfl, fun _ hne => absurd hv hne⟩
    constructor
    · rintro rfl
      rcases hcase with ⟨-, -, rfl⟩ | ⟨row, db₁, -, ⟨-, hv, -⟩ | ⟨-, hv, -⟩⟩
      · rfl
      · cases hv
      · cases hv
    · intro hid hne hfirst
      -- The first receipt again: its evidence is that of the row.
      have hsame : a' = b := by
        rw [hid, hb] at hf
        exact (Option.some.inj hf).symm
      subst hsame
      rw [hamount, Option.map_some] at hfirst
      have hhead : sameReceipt receipt actual a'.toAttempt = true := by
        cases hacc : acceptedReceipts D id s calls with
        | nil =>
          rw [hacc] at hfirst
          cases hfirst
        | cons first rest =>
          rw [hacc] at hfirst hev
          obtain ⟨-, hamt, hhash, -⟩ := hev
          exact (sameReceipt_iff hamt hhash).2 (Option.some.inj hfirst).symm
      rcases hcase with ⟨-, hv, rfl⟩ | ⟨row, db₁, hs, -⟩
      · exact ⟨rfl, hv⟩
      · -- So it does not differ from what is stored.
        rw [hs.differs] at hhead
        cases hhead

/-- A receipt, the same receipt again, a lost outcome, and another receipt above
    the reservation: the attempt keeps the first amount and is in conflict. -/
theorem settlement_evidence_sample :
    ∃ t b, (settlementSystem sampleDigests).run sampleAdmitted
        [.settle (sampleReceipt 'a' "1.5"), .settle (sampleReceipt 'a' "1.50"),
          .markUnknown (sampleId '7'), .settle (sampleReceipt 'b' "3")] = some t ∧
      t.attempts.find? (sampleId '7') = some b ∧ b.state = .conflict ∧
      b.actualAmount.map (·.units) = some (15 * SCALE / 10) ∧
      b.highestObservedLiability.units = 3 * SCALE := by
  generalize hcalls : [SettlementCall.settle (sampleReceipt 'a' "1.5"),
    .settle (sampleReceipt 'a' "1.50"), .markUnknown (sampleId '7'),
    .settle (sampleReceipt 'b' "3")] = calls
  have hacc : acceptedReceipts sampleDigests (sampleId '7') sampleAdmitted calls =
      [(sampleHash ['a'], ⟨15 * SCALE / 10, by decide⟩),
        (sampleHash ['a'], ⟨15 * SCALE / 10, by decide⟩),
        (sampleHash ['b'], ⟨3 * SCALE, by decide⟩)] := by
    rw [← hcalls]
    decide +kernel
  have hfound : ∃ a, sampleAdmitted.attempts.find? (sampleId '7') = some a ∧
      a.state = .admitted := by
    have h : (sampleAdmitted.attempts.find? (sampleId '7')).any (·.state = .admitted) = true := by
      decide +kernel
    obtain ⟨a, ha, hstate⟩ := (Option.any_eq_true _ _).1 h
    exact ⟨a, ha, of_decide_eq_true hstate⟩
  obtain ⟨a, ha, hstate⟩ := hfound
  have hrun : ∃ t, (settlementSystem sampleDigests).run sampleAdmitted calls = some t := by
    rw [← hcalls]
    simp only [System.run_cons, System.run_nil, settlementSystem, Option.bind_some]
    exact ⟨_, rfl⟩
  obtain ⟨t, hrun⟩ := hrun
  obtain ⟨b, hb, ⟨hhigh, hev⟩, -⟩ := settlement_evidence sampleDigests sampleAdmitted t calls
    (sampleId '7') a sampleAdmitted_reachable ha (.inl hstate) hrun
  rw [hacc] at hhigh hev
  obtain ⟨hamount, -, hst⟩ := hev
  refine ⟨t, b, hrun, hb, ?_, by rw [hamount]; rfl, hhigh.trans (by decide)⟩
  rw [hst, if_neg]
  intro hall
  have hother := hall.1 (sampleHash ['b'], ⟨3 * SCALE, by decide⟩) (List.mem_cons_of_mem _ (by simp))
  exact absurd hother (by decide)

end Lares.Budget
