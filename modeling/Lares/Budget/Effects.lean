import Lares.Budget.Admission

/-! # What each store operation can do

    One inversion lemma for each operation: from an operation that went through,
    the change it made to the tables and the conditions it checked. Every
    property of runs is derived from these lemmas, so a change to one operation
    touches one lemma here.
-/

namespace Lares.Budget

/-! ## Section 1: Guarded updates -/

/-- The change of one attempt row through the trigger and the constraints. -/
structure Updates (db db' : Database) (old new : AttemptRow) : Prop where
  found : db.attempts.find? new.id = some old
  allowed : budgetImmutable old.toAttempt new.toAttempt = none
  result : db' = { db with attempts := db.attempts.put new }

theorem updateAttempt_ok {db db' : Database} {new : Attempt}
    (h : db.updateAttempt new = .ok db') :
    (db.attempts.find? new.id = none ∧ db' = db) ∨
      ∃ old row : AttemptRow, row.toAttempt = new ∧ Updates db db' old row := by
  unfold Database.updateAttempt at h
  cases hf : db.attempts.find? new.id with
  | none =>
    simp only [hf, Except.ok.injEq] at h
    exact .inl ⟨rfl, h.symm⟩
  | some old =>
    simp only [hf] at h
    cases hi : budgetImmutable old.toAttempt new with
    | some message => simp [hi] at h
    | none =>
      simp only [hi] at h
      split at h
      · next hc =>
        cases h
        exact .inr ⟨old, ⟨new, hc⟩, rfl, hf, hi, rfl⟩
      · cases h

/-- An update of a row that was just read. -/
theorem updateAttempt_found {db db' : Database} {a : AttemptRow} {new : Attempt}
    (ha : db.attempts.find? a.id = some a) (hid : new.id = a.id)
    (h : db.updateAttempt new = .ok db') :
    ∃ row : AttemptRow, row.toAttempt = new ∧ Updates db db' a row := by
  rcases updateAttempt_ok h with ⟨hnone, -⟩ | ⟨old, row, rfl, hu⟩
  · rw [hid, ha] at hnone
    cases hnone
  · have hf := hu.found
    rw [hid, ha] at hf
    cases hf
    exact ⟨row, rfl, hu⟩

/-- The order in which an attempt goes through its states. -/
def AttemptState.rank : AttemptState → Nat
  | .prepared => 0
  | .admitted => 1
  | .unknown => 2
  | .settled => 3
  | .conflict => 4
  | .retired => 5

theorem transitionAllowed_rank (s s' : AttemptState) (h : transitionAllowed s s' = true)
    (hback : s = .unknown → s' ≠ .admitted) : s.rank ≤ s'.rank := by
  revert h hback
  cases s <;> cases s' <;> decide

/-- What the trigger guarantees about a row that changed. -/
theorem budgetImmutable_none {old new : Attempt} (h : budgetImmutable old new = none) :
    immutableColumnsKept old new = true ∧
      (old.admittedAt.isSome → old.admittedAt = new.admittedAt) ∧
      old.highestObservedLiability.units ≤ new.highestObservedLiability.units ∧
      (old.actualAmount.isSome →
        old.actualAmount = new.actualAmount ∧ old.settlementHash = new.settlementHash) ∧
      transitionAllowed old.state new.state = true ∧ old.state.rank ≤ new.state.rank := by
  unfold budgetImmutable at h
  split at h
  · cases h
  · split at h
    · cases h
    · next hno =>
      simp only [Bool.or_eq_true, Bool.not_eq_true', Bool.and_eq_true, bne_iff_ne,
        decide_eq_true_eq, not_or, not_and, not_not, Bool.not_eq_false, Nat.not_lt] at hno
      simp only [beq_iff_eq] at hno
      obtain ⟨⟨⟨⟨⟨⟨hkept, -⟩, hadm⟩, hback⟩, hhigh⟩, hev⟩, htr⟩ := hno
      exact ⟨hkept, hadm, hhigh, hev, htr, transitionAllowed_rank _ _ htr hback⟩

/-- Two rows with the same immutable columns belong to the same attempt, the
    same accounts and windows, and reserve the same amount. -/
theorem immutableColumnsKept_fields {old new : Attempt}
    (h : immutableColumnsKept old new = true) :
    new.id = old.id ∧ new.ticketHash = old.ticketHash ∧
      new.installationAccountId = old.installationAccountId ∧
      new.memberAccountId = old.memberAccountId ∧ new.bindingId = old.bindingId ∧
      new.installationWindowId = old.installationWindowId ∧
      new.memberWindowId = old.memberWindowId ∧ new.requestHash = old.requestHash ∧
      new.reservedAmount = old.reservedAmount := by
  have h' := of_decide_eq_true h
  rw [h']
  exact ⟨rfl, rfl, rfl, rfl, rfl, rfl, rfl, rfl, rfl⟩

/-- An update of an account keeps its identity and reaches no other account. -/
theorem updateAccount_ok {db db' : Database} {new : Account}
    (h : db.updateAccount new = .ok db') :
    (db.accounts.find? new.id = none ∧ db' = db) ∨
      ∃ old stored, db.accounts.find? new.id = some old ∧
        budgetAccountGuard old new = .ok stored ∧
        db' = { db with accounts := db.accounts.put stored } := by
  unfold Database.updateAccount at h
  cases hf : db.accounts.find? new.id with
  | none =>
    simp only [hf, Except.ok.injEq] at h
    exact .inl ⟨rfl, h.symm⟩
  | some old =>
    simp only [hf] at h
    cases hg : budgetAccountGuard old new with
    | error message => simp [hg] at h
    | ok stored =>
      simp only [hg, Except.ok.injEq] at h
      exact .inr ⟨old, stored, rfl, hg, h.symm⟩

/-- The stored account is the new one up to its policy generation. -/
theorem budgetAccountGuard_ok {old new stored : Account}
    (h : budgetAccountGuard old new = .ok stored) :
    stored = { new with policyGeneration := stored.policyGeneration } := by
  unfold budgetAccountGuard at h
  split at h
  · cases h
  · split at h <;> cases h <;> rfl

/-! ## Section 2: Prepare -/

/-- A new attempt: prepared, with no evidence, under a ticket hash and an
    invocation hash that no other row has. -/
structure Prepares (db db' : Database) (row : AttemptRow) : Prop where
  /-- No other table changes. -/
  inserted : ∃ attempts, db.attempts.insert? row = some attempts ∧ db' = { db with attempts }
  /-- No row had its ticket. -/
  ticketNew : ∀ a ∈ db.attempts, a.ticketHash ≠ row.ticketHash
  /-- No row had its invocation. -/
  invocationNew : ∀ a ∈ db.attempts, a.invocationHash ≠ row.invocationHash
  /-- It is not admitted. -/
  state : row.state = .prepared
  /-- Nothing was spent on it. -/
  actualAmount : row.actualAmount = none
  /-- Nothing is owed for it. -/
  highest : row.highestObservedLiability = BudgetMoney.zero
  /-- Nothing is wrong with it. -/
  conflictReason : row.conflictReason = none

theorem insertAttempt_ok {db db' : Database} {new : Attempt}
    (h : insertAttempt db new = .ok db') :
    ∃ row : AttemptRow, row.toAttempt = new ∧
      (∃ attempts, db.attempts.insert? row = some attempts ∧ db' = { db with attempts }) ∧
      (∀ a ∈ db.attempts, a.ticketHash ≠ new.ticketHash) ∧
      (∀ a ∈ db.attempts, a.invocationHash ≠ new.invocationHash) := by
  unfold insertAttempt at h
  split at h
  · cases h
  split at h
  · cases h
  split at h
  · cases h
  next hinv =>
  split at h
  · cases h
  next htick =>
  split at h
  · next hc =>
    cases hi : db.attempts.insert? ⟨new, hc⟩ with
    | none => simp [hi] at h
    | some attempts =>
      simp only [hi, Except.ok.injEq] at h
      refine ⟨⟨new, hc⟩, rfl, ⟨attempts, hi, h.symm⟩, ?_, ?_⟩
      · simpa [Table.mem_def] using htick
      · simpa [Table.mem_def] using hinv
  · cases h

theorem insertAttempt_intentRow {db db' : Database} {D : Digests} {p : LockedPolicy}
    {fresh : FreshIntent} {reference : AuthorityReference} {requestHash invocationHash : Hash}
    {createdAt expiresAt : Timestamp}
    (h : insertAttempt db
      (intentRow D p fresh reference requestHash invocationHash createdAt expiresAt) = .ok db') :
    ∃ row, Prepares db db' row := by
  obtain ⟨row, hrow, hins, htick, hinv⟩ := insertAttempt_ok h
  refine ⟨row, hins, ?_, ?_, ?_, ?_, ?_, ?_⟩ <;> simp only [hrow]
  · exact htick
  · exact hinv
  all_goals rfl

/-- The steps of a computation that can throw, taken apart one at a time. -/
theorem Except.bind_ok {ε α β : Type} {x : Except ε α} {f : α → Except ε β} {b : β}
    (h : (x >>= f) = .ok b) : ∃ a, x = .ok a ∧ f a = .ok b := by
  cases x with
  | error e => cases h
  | ok a => exact ⟨a, rfl, h⟩

theorem prepareIntent_ok {D : Digests} {env : PrepareEnv} {fresh : FreshIntent}
    {invocation : Option ModelInvocation} {request : BudgetRequestReference} {db db' : Database}
    (h : prepareIntent D env fresh invocation request db = .ok db') :
    ∃ row, Prepares db db' row := by
  unfold prepareIntent at h
  obtain ⟨invocation, -, h⟩ := Except.bind_ok h
  obtain ⟨-, -, h⟩ := Except.bind_ok h
  obtain ⟨reference, -, h⟩ := Except.bind_ok h
  obtain ⟨discovered, -, h⟩ := Except.bind_ok h
  obtain ⟨l, -, h⟩ := Except.bind_ok h
  obtain ⟨p, -, h⟩ := Except.bind_ok h
  exact insertAttempt_intentRow h

theorem prepareModelPurposeIntent_ok {D : Digests} {env : PrepareEnv} {fresh : FreshIntent}
    {source : Option ModelPurposeClaimSource} {request : GatewayModelRequestIdentity}
    {db db' : Database}
    (h : prepareModelPurposeIntent D env fresh source request db = .ok db') :
    ∃ row, Prepares db db' row := by
  unfold prepareModelPurposeIntent at h
  obtain ⟨source, -, h⟩ := Except.bind_ok h
  obtain ⟨-, -, h⟩ := Except.bind_ok h
  obtain ⟨-, -, h⟩ := Except.bind_ok h
  obtain ⟨-, -, h⟩ := Except.bind_ok h
  obtain ⟨discovered, -, h⟩ := Except.bind_ok h
  obtain ⟨l, -, h⟩ := Except.bind_ok h
  obtain ⟨p, -, h⟩ := Except.bind_ok h
  obtain ⟨-, -, h⟩ := Except.bind_ok h
  obtain ⟨db'', hins, h⟩ := Except.bind_ok h
  obtain ⟨-, -, h⟩ := Except.bind_ok h
  cases h
  exact insertAttempt_intentRow hins

theorem prepareOwnerJobIntent_ok {D : Digests} {env : PrepareEnv} {fresh : FreshIntent}
    {input : OwnerJobInput} {countedAt : Timestamp} {db db' : Database}
    (h : prepareOwnerJobIntent D env fresh input countedAt db = .ok db') :
    ∃ row, Prepares db db' row := by
  unfold prepareOwnerJobIntent at h
  obtain ⟨-, -, h⟩ := Except.bind_ok h
  obtain ⟨reference, -, h⟩ := Except.bind_ok h
  obtain ⟨-, -, h⟩ := Except.bind_ok h
  obtain ⟨discovered, -, h⟩ := Except.bind_ok h
  obtain ⟨l, -, h⟩ := Except.bind_ok h
  obtain ⟨p, -, h⟩ := Except.bind_ok h
  obtain ⟨-, -, h⟩ := Except.bind_ok h
  obtain ⟨-, -, h⟩ := Except.bind_ok h
  obtain ⟨db'', hins, h⟩ := Except.bind_ok h
  obtain ⟨-, -, h⟩ := Except.bind_ok h
  cases h
  exact insertAttempt_intentRow hins

/-! ## Section 3: Admission -/

/-- A prepared attempt is retired. -/
def Retires (db db' : Database) (a : AttemptRow) : Prop :=
  a.state = .prepared ∧
    ∃ row : AttemptRow, row.toAttempt = { a.toAttempt with state := .retired } ∧
      Updates db db' a row

/-- The reservation of an attempt fits under the cap of its account of this
    kind, whose active window is the attempt's own. -/
def FitsCap (db : Database) (a : Attempt) (scope : AccountKind) : Prop :=
  ∃ account c n, db.accounts.find? (a.scopeAccount scope) = some account ∧
    account.kind = scope ∧ account.activeWindowId = some (a.scopeWindow scope) ∧
    cap db account = some c ∧ liability db account = some n ∧
    n + a.reservedAmount.units ≤ c.units

/-- A prepared attempt is admitted, with its reservation under both caps. -/
structure Admits (db db' : Database) (a : AttemptRow) : Prop where
  wasPrepared : a.state = .prepared
  fits : ∀ scope, FitsCap db a.toAttempt scope
  updates : ∃ (row : AttemptRow) (at' : Timestamp),
    row.toAttempt = { a.toAttempt with state := .admitted, admittedAt := some at' } ∧
      Updates db db' a row

theorem locks_ok {db : Database} {i m : Id} {b : Option Id} {l : Locked}
    (h : locks db i m b = .ok l) :
    db.accounts.find? i = some l.installation ∧ l.installation.kind = .installation ∧
      db.accounts.find? m = some l.member ∧ l.member.kind = .member := by
  unfold locks at h
  simp only at h
  split at h
  · next hi hm =>
    split at h
    · cases h
    · cases h
      obtain ⟨hi, hik⟩ := Option.filter_eq_some_iff.1 hi
      obtain ⟨hm, hmk⟩ := Option.filter_eq_some_iff.1 hm
      simp only [decide_eq_true_eq] at hik hmk
      exact ⟨hi, hik, hm, hmk.1⟩
  · cases h

theorem admissible_windows {env : AdmitEnv} {db : Database} {l : Locked} {b : Binding}
    {ref : AuthorityReference} {a : Attempt} {observation : BudgetGatewayObservation}
    {recovery : BudgetRecoveryReference}
    (h : admissible env db l b ref a observation recovery = true) :
    l.installation.activeWindowId = some a.installationWindowId ∧
      l.member.activeWindowId = some a.memberWindowId := by
  simp only [admissible, Bool.and_eq_true, decide_eq_true_eq] at h
  grind

theorem retireAttempt_ok {db db' : Database} {a : AttemptRow}
    (ha : db.attempts.find? a.id = some a) (hp : a.state = .prepared)
    (h : retireAttempt db a.toAttempt = .ok db') : Retires db db' a :=
  ⟨hp, updateAttempt_found ha rfl (show db.updateAttempt _ = _ from h)⟩

/-- Under the locks `admit` retires the attempt or admits it. -/
theorem admitLocked_ok {D : Digests} {env : AdmitEnv} {validUntil : Option Timestamp}
    {db db' : Database} {l : Locked} {ref : AuthorityReference} {a : AttemptRow}
    {observation : BudgetGatewayObservation} {recovery : BudgetRecoveryReference}
    {answer : AdmitResult} {b : Option Id}
    (hl : locks db a.installationAccountId a.memberAccountId b = .ok l)
    (ha : db.attempts.find? a.id = some a) (hp : a.state = .prepared)
    (h : admitLocked D env validUntil db l ref a.toAttempt observation recovery
      = .ok (db', answer)) :
    (Retires db db' a ∧ ∀ body, answer ≠ .admitted body) ∨
      (Admits db db' a ∧ ∃ body, answer = .admitted body ∧ body.attemptId = a.id) := by
  have hdeny : ∀ {ans : AdmitResult}, (∀ body, ans ≠ .admitted body) →
      (do return (← retireAttempt db a.toAttempt, ans) : Except StoreError _)
        = .ok (db', answer) → Retires db db' a ∧ ∀ body, answer ≠ .admitted body := by
    intro ans hans h
    obtain ⟨db₁, hr, h⟩ := Except.bind_ok h
    cases h
    exact ⟨retireAttempt_ok ha hp hr, hans⟩
  have hlimit : ∀ (mCap : BudgetMoney) (limited : Bool) (body : PermitBody),
      limitOf D db l mCap limited ≠ .admitted body := by
    intro mCap limited body hlim
    unfold limitOf at hlim
    simp only at hlim
    split at hlim <;> cases hlim
  obtain ⟨hif, hik, hmf, hmk⟩ := locks_ok hl
  unfold admitLocked at h
  simp only at h
  split at h
  · next bnd _ =>
    split at h
    · exact .inl (hdeny (by simp) h)
    · next hadm =>
      have hadm' := admissible_windows (by simpa using hadm)
      split at h
      · next iCap mCap iLiability mLiability hiC hmC hiL hmL =>
        split at h
        · exact .inl (hdeny (hlimit _ _) h)
        · next hover =>
          split at h
          · cases h
          · split at h
            · obtain ⟨db₁, hu, h⟩ := Except.bind_ok h
              cases h
              simp only [Bool.or_eq_true, decide_eq_true_eq, not_or, Nat.not_lt,
                gt_iff_lt] at hover
              obtain ⟨row, hrow, hup⟩ := updateAttempt_found ha (by rfl) hu
              refine .inr ⟨⟨hp, ?_, row, _, hrow, hup⟩, _, rfl, rfl⟩
              intro scope
              cases scope with
              | installation =>
                exact ⟨l.installation, iCap, iLiability, hif, hik, hadm'.1, hiC, hiL, hover.2⟩
              | member =>
                exact ⟨l.member, mCap, mLiability, hmf, hmk, hadm'.2, hmC, hmL, hover.1⟩
            · split at h
              · cases h
              · exact .inl (hdeny (by simp) h)
      · exact .inl (hdeny (by simp) h)
  · exact .inl (hdeny (by simp) h)

/-- What `admit` does once it knows its attempt: nothing, or it retires or
    admits the row it read under the locks. -/
theorem admitDiscovered_ok {D : Digests} {env : AdmitEnv} {discovered : Attempt}
    {ref : AuthorityReference} {observation : BudgetGatewayObservation}
    {recovery : BudgetRecoveryReference} {db db' : Database} {answer : AdmitResult}
    (hsame : ∀ a, db.attempts.find? discovered.id = some a →
      a.installationAccountId = discovered.installationAccountId ∧
        a.memberAccountId = discovered.memberAccountId)
    (h : admitDiscovered D env discovered ref observation recovery db = .ok (db', answer)) :
    (db' = db ∧ ∀ body, answer ≠ .admitted body) ∨
      ∃ a, db.attempts.find? discovered.id = some a ∧
        ((Retires db db' a ∧ ∀ body, answer ≠ .admitted body) ∨
          (Admits db db' a ∧ ∃ body, answer = .admitted body ∧ body.attemptId = a.id)) := by
  unfold admitDiscovered at h
  split at h
  · split at h
    · next a hf =>
      split at h
      · next hp =>
        obtain ⟨db₁, hr, h⟩ := Except.bind_ok h
        cases h
        have ha := hf
        rw [← Table.find?_key hf] at ha
        exact .inr ⟨a, hf, .inl ⟨retireAttempt_ok ha hp hr, by simp⟩⟩
      · cases h
        exact .inl ⟨rfl, by simp⟩
    · cases h
      exact .inl ⟨rfl, by simp⟩
  · obtain ⟨l, hl, h⟩ := Except.bind_ok h
    split at h
    · cases h
    · next a hf =>
      split at h
      · cases h
        exact .inl ⟨rfl, by simp⟩
      · next hp =>
        obtain ⟨hi, hm⟩ := hsame a hf
        rw [← hi, ← hm] at hl
        have ha := hf
        rw [← Table.find?_key hf] at ha
        exact .inr ⟨a, hf, admitLocked_ok hl ha (not_not.1 hp) h⟩

theorem discoverAttempt_some {D : Digests} {db : Database} {ticket : Text} {a : AttemptRow}
    {ref : AuthorityReference} (h : discoverAttempt D db ticket = some (a, ref)) :
    db.attempts.find? a.id = some a ∧ a.state = .prepared ∧ a.ticketHash = D.hash ticket := by
  unfold discoverAttempt at h
  simp only [Option.bind_eq_bind, Option.bind_eq_some_iff] at h
  obtain ⟨found, hf, ref', -, h⟩ := h
  split at h
  · next hc =>
    cases h
    simp only [Bool.and_eq_true, decide_eq_true_eq] at hc
    have hk : a.ticketHash = D.hash ticket := by simpa using List.find?_some hf
    exact ⟨Table.find?_of_mem (Table.mem_def.2 (List.mem_of_find?_eq_some hf)), hc.1, hk⟩
  · cases h

theorem admit_ok {D : Digests} {env : AdmitEnv} {ticket : Text}
    {observation : BudgetGatewayObservation} {recovery : BudgetRecoveryReference}
    {db db' : Database} {answer : AdmitResult}
    (h : admitAttempt D env ticket observation recovery db = .ok (db', answer)) :
    (db' = db ∧ ∀ body, answer ≠ .admitted body) ∨
      ∃ a, (Retires db db' a ∧ ∀ body, answer ≠ .admitted body) ∨
        (Admits db db' a ∧ ∃ body, answer = .admitted body ∧ body.attemptId = a.id) := by
  unfold admitAttempt at h
  split at h
  · cases h
    exact .inl ⟨rfl, by simp⟩
  · split at h
    · cases h
      exact .inl ⟨rfl, by simp⟩
    · next discovered ref hd =>
      have hfound := (discoverAttempt_some hd).1
      have hsame : ∀ a, db.attempts.find? discovered.id = some a →
          a.installationAccountId = discovered.installationAccountId ∧
            a.memberAccountId = discovered.memberAccountId := by
        intro a ha
        rw [hfound] at ha
        cases ha
        exact ⟨rfl, rfl⟩
      rcases admitDiscovered_ok hsame h with hnone | ⟨a, -, hcase⟩
      · exact .inl hnone
      · exact .inr ⟨a, hcase⟩

/-! ## Section 4: Unknown outcomes and grants -/

/-- An admitted attempt becomes unknown. -/
def MarksUnknown (db db' : Database) (a : AttemptRow) : Prop :=
  a.state = .admitted ∧
    ∃ row : AttemptRow, row.toAttempt = { a.toAttempt with state := .unknown } ∧
      Updates db db' a row

theorem markUnknown_ok {attemptId : Id} {db db' : Database}
    (h : markUnknown attemptId db = .ok db') :
    db' = db ∨ ∃ a, db.attempts.find? attemptId = some a ∧ MarksUnknown db db' a := by
  unfold markUnknown at h
  split at h
  · cases h
  · split at h
    · next a hf =>
      split at h
      · next ha =>
        have hself := hf
        rw [← Table.find?_key hf] at hself
        exact .inr ⟨a, hf, ha, updateAttempt_found hself (by rfl) h⟩
      · cases h
        exact .inl rfl
    · cases h
      exact .inl rfl

/-- A grant is stored for an admitted attempt that has none. -/
def Grants (db db' : Database) (attemptId : Id) (grantHash : Hash) : Prop :=
  ∃ a grants, db.attempts.find? attemptId = some a ∧ a.state = .admitted ∧
    db.grants.insert? ⟨attemptId, grantHash⟩ = some grants ∧ db' = { db with grants }

theorem recordGatewayGrant_ok {reference : PermitBody} {grantHash : Hash} {db db' : Database}
    {stored : Bool} (h : recordGatewayGrant reference grantHash db = .ok (db', stored)) :
    (db' = db ∧ stored = false) ∨
      (Grants db db' reference.attemptId grantHash ∧ stored = true) := by
  unfold recordGatewayGrant at h
  split at h
  · cases h
    exact .inl ⟨rfl, rfl⟩
  · split at h
    · cases h
      exact .inl ⟨rfl, rfl⟩
    · next a hf =>
      obtain ⟨l, -, h⟩ := Except.bind_ok h
      split at h
      · cases h
        exact .inl ⟨rfl, rfl⟩
      · next hc =>
        simp only [Bool.or_eq_true, decide_eq_true_eq, not_or, not_not, ne_eq] at hc
        split at h
        · cases h
          exact .inl ⟨rfl, rfl⟩
        · next grants hg =>
          cases h
          have hid := Table.find?_key hf
          rw [show a.id = reference.attemptId from hid] at hg
          exact .inr ⟨⟨a, grants, hf, hc.1.1, hg, rfl⟩, rfl⟩

/-! ## Section 5: Settlement -/

/-- The row of an attempt takes in a receipt that is not the one it was settled
    with. -/
structure Settles (db db' : Database) (receipt : BudgetTerminalReceipt) (actual : BudgetMoney)
    (a row : AttemptRow) : Prop where
  /-- The row of the receipt. -/
  found : db.attempts.find? receipt.attemptId = some a
  /-- It is of the same request. -/
  matches_ : receiptMatches receipt a.toAttempt = true
  /-- It does not say what is stored already. -/
  differs : sameReceipt receipt actual a.toAttempt = false
  /-- The row as the receipt leaves it. -/
  row_eq : row.toAttempt = settledRow receipt actual a.toAttempt
  /-- It has an installation to book on. -/
  installation : (db.accounts.find? a.installationAccountId).isSome
  /-- The row and its sums change, and nothing else. -/
  updates : Updates db db' a row

/-- An attempt that a receipt matches is open (admitted or unknown, with no
    evidence) or final (settled or in conflict, with an amount and a hash). -/
theorem receiptMatches_cases {receipt : BudgetTerminalReceipt} {a : AttemptRow}
    (h : receiptMatches receipt a.toAttempt = true) :
    ((a.state = .admitted ∨ a.state = .unknown) ∧ a.actualAmount = none ∧
        a.settlementHash = none) ∨
      ((a.state = .settled ∨ a.state = .conflict) ∧
        ∃ amount hash, a.actualAmount = some amount ∧ a.settlementHash = some hash) := by
  simp only [receiptMatches, Bool.and_eq_true, decide_eq_true_eq] at h
  have hin := h.1.1.1.1.1
  have hfinal := a.actualAmount_isSome
  have hboth := a.settlementHash_isSome
  cases hamount : a.actualAmount with
  | none =>
    rw [hamount] at hfinal hboth
    refine .inl ⟨?_, rfl, by simpa using hboth⟩
    generalize a.state = st at hfinal hin
    cases st <;> simp [AttemptState.isFinal] at hfinal hin ⊢
  | some amount =>
    rw [hamount] at hfinal hboth
    refine .inr ⟨?_, amount, ?_⟩
    · generalize a.state = st at hfinal hin
      cases st <;> simp [AttemptState.isFinal] at hfinal hin ⊢
    · obtain ⟨hash, hhash⟩ := Option.isSome_iff_exists.1 hboth
      exact ⟨hash, rfl, hhash⟩

/-- A receipt that settles its attempt is the first, and within the reservation. -/
theorem settledRow_settled {receipt : BudgetTerminalReceipt} {actual : BudgetMoney}
    {a : AttemptRow} (hm : receiptMatches receipt a.toAttempt = true)
    (hs : (settledRow receipt actual a.toAttempt).state = .settled) :
    (a.state = .admitted ∨ a.state = .unknown) ∧ a.actualAmount = none ∧
      a.settlementHash = none ∧ actual.units ≤ a.reservedAmount.units ∧
      settledRow receipt actual a.toAttempt = { a.toAttempt with
        state := .settled
        actualAmount := some actual
        settlementHash := some receipt.receiptHash
        highestObservedLiability := a.highestObservedLiability.max actual } := by
  have hreason : receiptReason actual a.toAttempt = none ∧ a.state ≠ .conflict := by
    simp only [settledRow] at hs
    split at hs
    · cases hs
    · next hno => simpa using hno
  obtain ⟨hreason, hnc⟩ := hreason
  rcases receiptMatches_cases hm with ⟨hopen, hamount, hhash⟩ | ⟨-, _, _, -, hhash⟩
  · have hle : actual.units ≤ a.reservedAmount.units := by
      by_contra hgt
      simp [receiptReason, hhash, Nat.not_le.1 hgt] at hreason
    refine ⟨hopen, hamount, hhash, hle, ?_⟩
    simp [settledRow, hreason, hnc, hamount, hhash]
  · simp [receiptReason, hhash] at hreason

/-- The installation account is frozen unless it is retired or not there. -/
def Freezes (db db' : Database) (installationId : Id) : Prop :=
  (db' = db ∧ ∀ account, db.accounts.find? installationId = some account →
      account.state = .retired) ∨
    ∃ account frozen, db.accounts.find? installationId = some account ∧
      account.state ≠ .retired ∧
      frozen = { account with
        state := .frozen, reason := frozen.reason, policyGeneration := frozen.policyGeneration } ∧
      db' = { db with accounts := db.accounts.put frozen }

theorem freezeInstallation_ok {db db' : Database} {installationId : Id} {reason : ConflictReason}
    (h : freezeInstallation db installationId reason = .ok db') :
    Freezes db db' installationId := by
  unfold freezeInstallation at h
  split at h
  · next account hf =>
    split at h
    · next hr =>
      cases h
      refine .inl ⟨rfl, fun account' hf' => ?_⟩
      rw [hf] at hf'
      cases hf'
      exact hr
    · next hr =>
      have hself := hf
      rw [← Table.find?_key hf] at hself
      rcases updateAccount_ok h with ⟨hnone, -⟩ | ⟨old, stored, hold, hguard, hdb⟩
      · simp only at hnone
        rw [hself] at hnone
        cases hnone
      · simp only at hold
        rw [hself] at hold
        cases hold
        have hstored := budgetAccountGuard_ok hguard
        refine .inr ⟨account, stored, hf, hr, ?_, hdb⟩
        rw [hstored]
  · next hf =>
    cases h
    refine .inl ⟨rfl, fun account' hf' => ?_⟩
    rw [hf] at hf'
    cases hf'

/-- The verdict on an attempt that has been settled. -/
def currentVerdict (a : Attempt) : SettleVerdict :=
  if a.state = .conflict then .conflict else .settled

/-- What `settle` does: it denies the receipt, it finds that the attempt was
    settled with it, or the attempt takes the receipt in, and if that makes it a
    conflict the installation account is frozen. -/
theorem settle_ok {receipt : BudgetTerminalReceipt} {db db' : Database} {verdict : SettleVerdict}
    (h : settle receipt db = .ok (db', verdict)) :
    (verdict = .denied ∧ db' = db) ∨
      ∃ actual a, BudgetMoney.ofText receipt.actualAmount = some actual ∧
        db.attempts.find? receipt.attemptId = some a ∧
        receiptMatches receipt a.toAttempt = true ∧
        ((sameReceipt receipt actual a.toAttempt = true ∧ verdict = currentVerdict a.toAttempt ∧
            db' = db) ∨
          ∃ row db₁, Settles db db₁ receipt actual a row ∧
            ((row.state = .settled ∧ verdict = .settled ∧ db' = db₁) ∨
              (row.state = .conflict ∧ verdict = .conflict ∧
                Freezes db₁ db' a.installationAccountId))) := by
  -- The checks of `settle`, in its order; up to the match they only deny.
  unfold settle at h
  split at h
  · cases h
  next actual hamount =>
  split at h
  · cases h
    exact .inl ⟨rfl, rfl⟩
  split at h
  · cases h
    exact .inl ⟨rfl, rfl⟩
  next a hf =>
  obtain ⟨l, hl, h⟩ := Except.bind_ok h
  unfold settleLocked at h
  split at h
  · cases h
    exact .inl ⟨rfl, rfl⟩
  next hmatch =>
  have hmatch' : receiptMatches receipt a.toAttempt = true := by simpa using hmatch
  refine .inr ⟨actual, a, hamount, hf, hmatch', ?_⟩
  split at h
  · next hsame =>
    cases h
    exact .inl ⟨hsame, rfl, rfl⟩
  next hdiff =>
  -- From here the row is written.
  obtain ⟨db₁, hu, h⟩ := Except.bind_ok h
  have hself := hf
  rw [← Table.find?_key hf] at hself
  obtain ⟨row, hrow, hup⟩ := updateAttempt_found hself (by rfl) hu
  have hinstallation : (db.accounts.find? a.installationAccountId).isSome = true := by
    simp [(locks_ok hl).1]
  refine .inr ⟨row, db₁, ⟨hf, hmatch', by simpa using hdiff, hrow, hinstallation, hup⟩, ?_⟩
  split at h
  · next hc =>
    obtain ⟨db₂, hfr, h⟩ := Except.bind_ok h
    cases h
    exact .inr ⟨by rw [hrow]; exact hc, rfl, freezeInstallation_ok hfr⟩
  · next hc =>
    cases h
    refine .inl ⟨?_, rfl, rfl⟩
    rw [hrow]
    simp only [settledRow] at hc ⊢
    split at hc
    · exact absurd rfl hc
    · next hno => simp [hno]

end Lares.Budget
