import Lares.Framework.Table
import Lares.Budget.Money

/-! # The budget tables

    The tables of `011_budget_admission.sql`, `023_budget_invocation_suppression.sql`
    and `024_gateway_budget_grants.sql`, with the columns the admission store reads
    or writes, and the guards PostgreSQL runs on an update:

    * **CHECK constraints** of `budget_attempts`: `Attempt.checks`. A stored row
      (`AttemptRow`) carries the proof that it passes them.
    * **`budget_immutable`**: the trigger on an update of an attempt.
    * **`budget_account_guard`**: the trigger on an update of an account.

    Columns that no modelled function reads (organisation and native
    identities, snapshots of window opening caps) are left out.
-/

namespace Lares.Budget

/-! ## Section 1: Scalars -/

/-- A text, as its characters. -/
abbrev Text := List Char

/-- A `uuid` column, as the text the driver returns. -/
abbrev Id := Text

/-- A `text` column that holds 64 lower-case hexadecimal digits. -/
abbrev Hash := Text

/-- A finite `timestamptz`, in microseconds. -/
abbrev Timestamp := Nat

/-- `[a-f0-9]` -/
def isHex (c : Char) : Bool := ('a' ≤ c && c ≤ 'f') || ('0' ≤ c && c ≤ '9')

/-- `/^[a-f0-9]{64}$/` -/
def validHash (v : Text) : Bool := v.length == 64 && v.all isHex

/-- `/^[a-f0-9]{8}-[a-f0-9]{4}-[a-f0-9]{4}-[a-f0-9]{4}-[a-f0-9]{12}$/` -/
def uuid (v : Text) : Bool :=
  match v.splitOn '-' with
  | [a, b, c, d, e] =>
      a.length == 8 && b.length == 4 && c.length == 4 && d.length == 4 && e.length == 12
        && [a, b, c, d, e].all (·.all isHex)
  | _ => false

/-! ## Section 2: Rows -/

inductive AccountKind where
  | installation | member
  deriving DecidableEq, Repr

inductive AccountState where
  | closed | «open» | frozen | retired
  deriving DecidableEq, Repr

inductive AccountReason where
  | unreconciled | approved | policyChanged | memberRemoved | memberErased
  | receiptConflict | overReservation | recoveryMismatch
  deriving DecidableEq, Repr

/-- A row of `budget_accounts`. -/
structure Account where
  id : Id
  kind : AccountKind
  installationAccountId : Id
  /-- `NULL` for an installation, and after a person was erased. -/
  liveMemberId : Option Text
  /-- What is left of who it belonged to. -/
  canonicalSuppressionHash : Option Hash
  /-- Counts the changes of the policy. -/
  policyGeneration : Nat
  state : AccountState
  reason : AccountReason
  /-- The window that is being spent from. -/
  activeWindowId : Option Id
  /-- The cap, of an installation. -/
  installationCap : Option BudgetMoney
  selectedEndpoint : Option Hash
  /-- Counts the changes of the endpoint. -/
  endpointGeneration : Nat
  /-- The epoch that the gateway must have reconciled. -/
  recoveryEpoch : Option Text
  deriving DecidableEq

/-- A row of `budget_windows`. -/
structure Window where
  id : Id
  accountId : Id
  startsAt : Timestamp
  endsAt : Timestamp
  openingLiability : BudgetMoney
  deriving DecidableEq

inductive BindingState where
  | active | revoked
  deriving DecidableEq, Repr

/-- A row of `budget_gateway_bindings`; `pricingFormat` is
    `pricing_profile.format`. -/
structure Binding where
  id : Id
  installationAccountId : Id
  memberAccountId : Id
  liveMemberId : Option Text
  endpointHash : Hash
  credentialGeneration : Nat
  /-- Of the key that the gateway uses. -/
  keyFingerprint : Option Hash
  /-- `NULL` once the person is erased. -/
  agent : Option Text
  incarnation : Option Id
  purposeAlias : Option Text
  profileHash : Hash
  /-- What one request can cost at most. -/
  maximumLiability : BudgetMoney
  pricingFormat : Option String
  state : BindingState
  deriving DecidableEq

/-- A row of `org_member_policy`: `spend_cap_usd_month` as its numeric text. -/
structure MemberPolicy where
  userId : Text
  spendCapUsdMonth : Option String
  deriving DecidableEq

/-- A row of `agent_provider_keys`. -/
structure ProviderKey where
  agent : Text
  revision : Text
  active : Bool
  deriving DecidableEq

/-- `BudgetAuthorityReference.kind` -/
inductive AuthorityKind where
  | human | resume | ownerJob
  deriving DecidableEq, Repr

/-- The evidence of the authority that created an intent (`authority_reference`).
    An owner job has no session, admission or turn. -/
structure AuthorityReference where
  kind : AuthorityKind
  agent : Text
  incarnation : Id
  memberId : Text
  agentAccessRevision : Nat
  sessionId : Text
  admissionNonce : Text
  turnId : Text
  turnSequence : Nat
  deriving DecidableEq

inductive AttemptState where
  | prepared | admitted | unknown | settled | conflict | retired
  deriving DecidableEq, Repr

inductive ConflictReason where
  | receiptConflict | overReservation
  deriving DecidableEq, Repr

/-- The columns of `budget_attempts`. -/
structure Attempt where
  id : Id
  /-- The ticket itself is not stored. -/
  ticketHash : Hash
  installationAccountId : Id
  memberAccountId : Id
  bindingId : Id
  liveMemberId : Option Text
  installationWindowId : Id
  memberWindowId : Id
  endpointHash : Hash
  credentialGeneration : Nat
  installationPolicyGeneration : Nat
  memberPolicyGeneration : Nat
  endpointGeneration : Nat
  recoveryEpoch : Text
  /-- Of the request as it leaves. -/
  requestHash : Hash
  /-- Of who may make it. -/
  authorityHash : Hash
  authorityReference : Option AuthorityReference
  profileHash : Hash
  /-- One attempt for one step. -/
  invocationHash : Option Hash
  /-- What is set aside for it. -/
  reservedAmount : BudgetMoney
  /-- The cap it was admitted under. -/
  installationCapSnapshot : BudgetMoney
  memberCapSnapshot : BudgetMoney
  createdAt : Timestamp
  expiresAt : Timestamp
  /-- `NULL` until it may leave. -/
  admittedAt : Option Timestamp
  state : AttemptState
  /-- What it has cost, by its receipt. -/
  actualAmount : Option BudgetMoney
  /-- Of that receipt. -/
  settlementHash : Option Hash
  conflictReason : Option ConflictReason
  /-- Of the receipt that contradicts it. -/
  conflictHash : Option Hash
  /-- The most that any receipt has said. -/
  highestObservedLiability : BudgetMoney
  deriving DecidableEq

/-! ## Section 3: CHECK constraints of `budget_attempts` -/

/-- `state IN ('admitted','unknown','settled','conflict')` -/
def AttemptState.wasAdmitted : AttemptState → Bool
  | .admitted | .unknown | .settled | .conflict => true
  | .prepared | .retired => false

/-- `state IN ('settled','conflict')` -/
def AttemptState.isFinal : AttemptState → Bool
  | .settled | .conflict => true
  | _ => false

namespace Attempt

/-- The `~ '^[a-f0-9]{64}$'` checks; a NULL column passes. -/
def hashChecks (a : Attempt) : Bool :=
  [a.ticketHash, a.endpointHash, a.requestHash, a.authorityHash, a.profileHash].all validHash
    && [a.invocationHash, a.settlementHash, a.conflictHash].all (·.all validHash)

/-- `expires_at>created_at AND expires_at<=created_at+interval '30 seconds'` -/
def lifetimeCheck (a : Attempt) : Bool :=
  a.createdAt < a.expiresAt && a.expiresAt ≤ a.createdAt + 30000000

/-- The checks that tie the state to the evidence columns. -/
def evidenceChecks (a : Attempt) : Bool :=
  a.state.wasAdmitted == a.admittedAt.isSome
    && a.actualAmount.isNone == a.settlementHash.isNone
    && a.state.isFinal == a.actualAmount.isSome
    && (a.state != .conflict || a.conflictReason.isSome)

def checks (a : Attempt) : Bool := a.hashChecks && a.lifetimeCheck && a.evidenceChecks

end Attempt

/-- A stored row: its columns pass every CHECK constraint of the table. -/
structure AttemptRow extends Attempt where
  checked : toAttempt.checks = true

namespace AttemptRow

@[ext] theorem ext {a b : AttemptRow} (h : a.toAttempt = b.toAttempt) : a = b := by
  cases a; cases b; cases h; rfl

instance : DecidableEq AttemptRow := fun a b =>
  decidable_of_iff (a.toAttempt = b.toAttempt) ⟨ext, fun h => h ▸ rfl⟩

theorem evidence (a : AttemptRow) : a.evidenceChecks = true := by
  have h := a.checked
  rw [Attempt.checks, Bool.and_eq_true] at h
  exact h.2

theorem admittedAt_isSome (a : AttemptRow) : a.admittedAt.isSome = a.state.wasAdmitted := by
  have h := a.evidence
  simp only [Attempt.evidenceChecks, Bool.and_eq_true, beq_iff_eq] at h
  exact h.1.1.1.symm

theorem settlementHash_isSome (a : AttemptRow) :
    a.settlementHash.isSome = a.actualAmount.isSome := by
  have h := a.evidence
  simp only [Attempt.evidenceChecks, Bool.and_eq_true, beq_iff_eq] at h
  cases ha : a.actualAmount <;> cases hs : a.settlementHash <;> simp_all

theorem actualAmount_isSome (a : AttemptRow) : a.actualAmount.isSome = a.state.isFinal := by
  have h := a.evidence
  simp only [Attempt.evidenceChecks, Bool.and_eq_true, beq_iff_eq] at h
  exact h.1.2.symm

theorem conflictReason_isSome (a : AttemptRow) (hc : a.state = .conflict) :
    a.conflictReason.isSome = true := by
  have h := a.evidence
  simp only [Attempt.evidenceChecks, Bool.and_eq_true, Bool.or_eq_true, bne_iff_ne] at h
  exact h.2.resolve_left fun hne => hne hc

end AttemptRow

/-- A row of `budget_gateway_grants`. -/
structure Grant where
  attemptId : Id
  grantHash : Hash
  deriving DecidableEq

/-! ## Section 4: The database -/

/-- The tables the store reads and writes, with their primary keys. -/
structure Database where
  accounts : Table Account.id
  windows : Table Window.id
  bindings : Table Binding.id
  attempts : Table (fun a : AttemptRow => a.id)
  grants : Table Grant.attemptId
  policies : Table MemberPolicy.userId
  providerKeys : Table ProviderKey.agent
  deriving DecidableEq

/-- What the store can throw. A statement that a trigger or a constraint
    refuses throws as well, and the transaction is rolled back. -/
inductive StoreError where
  | thrown (message : String)
  | triggerRejected (message : String)
  | checkRejected
  deriving DecidableEq, Repr

/-! ## Section 5: Triggers -/

/-- The state transitions `budget_immutable` lets through. -/
def transitionAllowed (old new : AttemptState) : Bool :=
  match old with
  | .prepared => new ∈ [.prepared, .admitted, .retired]
  | .admitted | .unknown => new ∈ [.admitted, .unknown, .settled, .conflict]
  | .settled => new ∈ [.settled, .conflict]
  | .conflict => new = .conflict
  | .retired => new = .retired

/-- The columns outside the trigger's exception list are unchanged. -/
def immutableColumnsKept (old new : Attempt) : Bool :=
  new = { old with
    liveMemberId := new.liveMemberId
    authorityReference := new.authorityReference
    state := new.state
    admittedAt := new.admittedAt
    actualAmount := new.actualAmount
    settlementHash := new.settlementHash
    conflictReason := new.conflictReason
    conflictHash := new.conflictHash
    highestObservedLiability := new.highestObservedLiability }

/-- `budget_immutable` on an update of `budget_attempts`: the exception text,
    or `none` when the update passes. -/
def budgetImmutable (old new : Attempt) : Option String :=
  if old.liveMemberId != new.liveMemberId
      && !(old.liveMemberId.isSome && new.liveMemberId.isNone) then
    some "Budget identity is immutable"
  else if !immutableColumnsKept old new
      || (old.authorityReference != new.authorityReference && new.authorityReference.isSome)
      || (old.admittedAt.isSome && old.admittedAt != new.admittedAt)
      || (old.state == .unknown && new.state == .admitted)
      || new.highestObservedLiability.units < old.highestObservedLiability.units
      || (old.actualAmount.isSome
          && (old.actualAmount != new.actualAmount || old.settlementHash != new.settlementHash))
      || !transitionAllowed old.state new.state then
    some "Budget attempt evidence is immutable"
  else none

/-- `budget_account_guard` on an update: the row that is stored, with the policy
    generation raised when a policy column changed, or the exception text. -/
def budgetAccountGuard (old new : Account) : Except String Account :=
  if old.id != new.id || old.kind != new.kind
      || old.installationAccountId != new.installationAccountId
      || old.canonicalSuppressionHash != new.canonicalSuppressionHash
      || (old.liveMemberId != new.liveMemberId && new.liveMemberId.isSome)
      || (old.state == .retired && new.state != .retired)
      || new.policyGeneration < old.policyGeneration
      || new.endpointGeneration < old.endpointGeneration then
    .error "Budget account identity is immutable"
  else if old.installationCap != new.installationCap
      || old.selectedEndpoint != new.selectedEndpoint
      || old.endpointGeneration != new.endpointGeneration
      || old.recoveryEpoch != new.recoveryEpoch
      || old.state != new.state || old.activeWindowId != new.activeWindowId then
    .ok { new with policyGeneration := old.policyGeneration + 1 }
  else .ok new

/-! ## Section 6: Updates through the guards -/

namespace Database

/-- `UPDATE budget_attempts ... WHERE id=$1`: the row with this key becomes `new`
    if the trigger and the CHECK constraints let it. No such row, no change. -/
def updateAttempt (db : Database) (new : Attempt) : Except StoreError Database :=
  match db.attempts.find? new.id with
  | none => .ok db
  | some old =>
      match budgetImmutable old.toAttempt new with
      | some message => .error (.triggerRejected message)
      | none =>
          if h : new.checks = true then
            .ok { db with attempts := db.attempts.put ⟨new, h⟩ }
          else .error .checkRejected

/-- `UPDATE budget_accounts ... WHERE id=$1` -/
def updateAccount (db : Database) (new : Account) : Except StoreError Database :=
  match db.accounts.find? new.id with
  | none => .ok db
  | some old =>
      match budgetAccountGuard old new with
      | .error message => .error (.triggerRejected message)
      | .ok stored => .ok { db with accounts := db.accounts.put stored }

end Database

end Lares.Budget
