import Lares.Budget.Prepare

/-! # Admission, grants and settlement

    `admit`, `markUnknown`, `settle` and `recordGatewayGrant` of
    `PgBudgetAdmissionStore`, each as the function its transaction computes on
    the database it finds under lock.

    `admit` reads the attempt twice: once unlocked, to find which accounts to
    lock, and again under the locks. The two halves are separate definitions
    (`discoverAttempt`, `admitDiscovered`), because other transactions can
    commit between them.
-/

namespace Lares.Budget

/-! ## Section 1: Inputs and answers -/

/-- `BudgetGatewayObservation` -/
structure BudgetGatewayObservation where
  /-- Of the request it has in hand. -/
  requestHash : Hash
  profileHash : Hash
  endpointHash : Hash
  credentialGeneration : Nat
  /-- Of the key it would use. -/
  keyFingerprint : Hash
  agent : Text
  incarnation : Id
  purposeAlias : Text

/-- `BudgetRecoveryReference` -/
structure BudgetRecoveryReference where
  installationAccountId : Id
  epoch : Text
  endpointGeneration : Nat
  /-- `state === 'reconciled'` -/
  reconciled : Bool

/-- What `admit` reads outside the budget tables. -/
structure AdmitEnv where
  /-- `validateBudgetAuthorityReference`: `none` if it threw, else its deadline. -/
  authority : Option (Option Timestamp)
  freshAt : Timestamp
  readyInstallationAt : Timestamp
  readyMemberAt : Timestamp
  admitAt : Timestamp
  /-- `checkConsoleSourceDeadlines` throws before, or after, the update. -/
  expiredBefore : Bool
  expiredAfter : Bool

/-- What the body of a dispatch permit holds. -/
structure PermitBody where
  attemptId : Id
  bindingId : Id
  requestHash : Hash
  providerKey : Text
  deriving DecidableEq

inductive LimitScope where
  | member (cap : BudgetMoney) | installation
  deriving DecidableEq

/-- `BudgetLimitDenial` -/
structure BudgetLimitDenial where
  scope : LimitScope
  resetsAt : String
  deriving DecidableEq

/-- What the transaction of `admit` resolves to. -/
inductive AdmitResult where
  | denied
  | limited (limit : BudgetLimitDenial)
  | admitted (body : PermitBody)
  deriving DecidableEq

inductive ReceiptKind where
  | terminalUsage | affirmativeNondispatch
  deriving DecidableEq, Repr

/-- `BudgetTerminalReceipt`; a `kind` of `none` is one outside the two known. -/
structure BudgetTerminalReceipt where
  attemptId : Id
  bindingId : Id
  requestHash : Hash
  endpointHash : Hash
  credentialGeneration : Nat
  profileHash : Hash
  /-- Of the evidence behind it. -/
  receiptHash : Hash
  /-- A decimal amount, as text. -/
  actualAmount : String
  kind : Option ReceiptKind
  deriving DecidableEq

inductive SettleVerdict where
  | settled | conflict | denied
  deriving DecidableEq, Repr

/-! ## Section 2: Admission -/

/-- `/^[A-Za-z0-9_-]{43}$/` -/
def ticketOk (ticket : Text) : Bool := textOf isBase64Url 43 43 ticket

/-- The unlocked lookup by ticket hash and the checks on what it finds. -/
def discoverAttempt (D : Digests) (db : Database) (ticket : Text) :
    Option (AttemptRow × AuthorityReference) := do
  let discovered ← db.attempts.rows.find? fun a => a.ticketHash = D.hash ticket
  let ref ← discovered.authorityReference
  if discovered.state = .prepared && D.authorityFingerprint ref = discovered.authorityHash then
    some (discovered, ref)
  else none

/-- `UPDATE budget_attempts SET state='retired' WHERE id=$1` -/
def retireAttempt (db : Database) (a : Attempt) : Except StoreError Database :=
  db.updateAttempt { a with state := .retired }

/-- The long condition of `admit` before the amounts: nothing that the intent was
    prepared against has changed, and the caller asks for exactly this intent. -/
def admissible (env : AdmitEnv) (db : Database) (l : Locked) (b : Binding)
    (ref : AuthorityReference) (a : Attempt) (observation : BudgetGatewayObservation)
    (recovery : BudgetRecoveryReference) : Bool :=
  let i := l.installation
  let m := l.member
  env.freshAt < a.expiresAt && b.state = .active && m.liveMemberId = some ref.memberId
    && b.liveMemberId = m.liveMemberId
    && ready db i env.readyInstallationAt && ready db m env.readyMemberAt
    && i.policyGeneration = a.installationPolicyGeneration
    && m.policyGeneration = a.memberPolicyGeneration
    && i.activeWindowId = some a.installationWindowId
    && m.activeWindowId = some a.memberWindowId
    && i.selectedEndpoint = some a.endpointHash && i.endpointGeneration = a.endpointGeneration
    && i.recoveryEpoch = some a.recoveryEpoch
    && recovery.reconciled && recovery.installationAccountId = i.id
    && some recovery.epoch = i.recoveryEpoch
    && recovery.endpointGeneration = i.endpointGeneration
    && observation.requestHash = a.requestHash && observation.profileHash = a.profileHash
    && observation.endpointHash = a.endpointHash
    && observation.credentialGeneration = a.credentialGeneration
    && some observation.keyFingerprint = b.keyFingerprint
    && some observation.agent = b.agent && some observation.incarnation = b.incarnation
    && some observation.purposeAlias = b.purposeAlias
    && b.profileHash = a.profileHash && b.endpointHash = a.endpointHash
    && b.credentialGeneration = a.credentialGeneration

/-- `EXISTS(SELECT 1 FROM budget_windows WHERE id=$2 AND starts_at<=... AND ends_at>...)` -/
def windowOpen (db : Database) (windowId : Option Id) (now : Timestamp) : Bool :=
  (windowId.bind db.windows.find?).any fun w => w.startsAt ≤ now && now < w.endsAt

def GATEWAY_INSTALLATION_KEY : Text := "installation".toList

/-- The provider key that pays for the call: the agent's own active key, except
    for embeddings, else the installation's. -/
def providerKeyFor (db : Database) (b : Binding) : Text :=
  if b.pricingFormat = some "embedding" then GATEWAY_INSTALLATION_KEY
  else match b.agent.bind db.providerKeys.find? with
    | some k => if k.active && uuid k.revision then k.revision else GATEWAY_INSTALLATION_KEY
    | none => GATEWAY_INSTALLATION_KEY

/-- The limit a refused call is told about: the member's own cap first. -/
def limitOf (D : Digests) (db : Database) (l : Locked) (mCap : BudgetMoney) (overMember : Bool) :
    AdmitResult :=
  let account := if overMember then l.member else l.installation
  match activeWindow db account with
  | none => .denied
  | some w =>
      .limited ⟨if overMember then .member mCap else .installation, D.utcDate w.endsAt⟩

/-- `admit` under the locks, on the row it read again (`a`). -/
def admitLocked (D : Digests) (env : AdmitEnv) (validUntil : Option Timestamp) (db : Database)
    (l : Locked) (ref : AuthorityReference) (a : Attempt)
    (observation : BudgetGatewayObservation) (recovery : BudgetRecoveryReference) :
    Except StoreError (Database × AdmitResult) := do
  let deny (answer : AdmitResult) : Except StoreError (Database × AdmitResult) := do
    return (← retireAttempt db a, answer)
  let some b := l.binding | deny .denied
  if !admissible env db l b ref a observation recovery then deny .denied
  else match cap db l.installation, cap db l.member, liability db l.installation,
      liability db l.member with
  | some iCap, some mCap, some iLiability, some mLiability =>
      let overMember := mLiability + a.reservedAmount.units > mCap.units
      let overInstallation := iLiability + a.reservedAmount.units > iCap.units
      if overMember || overInstallation then deny (limitOf D db l mCap overMember)
      else if env.expiredBefore then .error (.thrown "Conversation authority is not available")
      else if env.admitAt < a.expiresAt && validUntil.all (env.admitAt < ·)
          && windowOpen db l.installation.activeWindowId env.admitAt
          && windowOpen db l.member.activeWindowId env.admitAt then
        let db' ← db.updateAttempt
          { a with state := .admitted, admittedAt := some env.admitAt }
        return (db', .admitted ⟨a.id, b.id, a.requestHash, providerKeyFor db b⟩)
      else if env.expiredAfter then .error (.thrown "Conversation authority is not available")
      else deny .denied
  | _, _, _, _ => deny .denied

/-- The rest of `admit` once the attempt is discovered. `db` is the database when
    the locks are held; it may be later than the one `discovered` was read from. -/
def admitDiscovered (D : Digests) (env : AdmitEnv) (discovered : Attempt)
    (ref : AuthorityReference) (observation : BudgetGatewayObservation)
    (recovery : BudgetRecoveryReference) (db : Database) :
    Except StoreError (Database × AdmitResult) :=
  match env.authority with
  | none =>
      match db.attempts.find? discovered.id with
      | some a =>
          if a.state = .prepared then do return (← retireAttempt db a.toAttempt, .denied)
          else .ok (db, .denied)
      | none => .ok (db, .denied)
  | some validUntil => do
      let l ← locks db discovered.installationAccountId discovered.memberAccountId
        (some discovered.bindingId)
      match db.attempts.find? discovered.id with
      | none => .error (.thrown "Cannot read properties of undefined")
      | some a =>
          if a.state ≠ .prepared then .ok (db, .denied)
          else admitLocked D env validUntil db l ref a.toAttempt observation recovery

/-- `admit` with nothing between its two reads. -/
def admitAttempt (D : Digests) (env : AdmitEnv) (ticket : Text)
    (observation : BudgetGatewayObservation) (recovery : BudgetRecoveryReference)
    (db : Database) : Except StoreError (Database × AdmitResult) :=
  if !ticketOk ticket then .ok (db, .denied)
  else match discoverAttempt D db ticket with
  | none => .ok (db, .denied)
  | some (discovered, ref) =>
      admitDiscovered D env discovered.toAttempt ref observation recovery db

/-! ## Section 3: Unknown outcomes -/

/-- `UPDATE ... SET state='unknown' WHERE id=$1 AND state='admitted'` -/
def markUnknown (attemptId : Id) (db : Database) : Except StoreError Database :=
  if !uuid attemptId then .error (.thrown "Invalid attempt")
  else match db.attempts.find? attemptId with
  | some a =>
      if a.state = .admitted then db.updateAttempt { a.toAttempt with state := .unknown }
      else .ok db
  | none => .ok db

/-! ## Section 4: Settlement -/

/-- The checks of a receipt that need no database. -/
def receiptWellFormed (receipt : BudgetTerminalReceipt) (actual : BudgetMoney) : Bool :=
  uuid receipt.attemptId && uuid receipt.bindingId && validHash receipt.receiptHash
    && receipt.kind.isSome
    && !(receipt.kind = some .affirmativeNondispatch && actual.units != 0)

/-- The checks of a receipt against its attempt. -/
def receiptMatches (receipt : BudgetTerminalReceipt) (a : Attempt) : Bool :=
  a.state ∈ [.admitted, .unknown, .settled, .conflict]
    && receipt.bindingId = a.bindingId && receipt.requestHash = a.requestHash
    && receipt.endpointHash = a.endpointHash
    && receipt.credentialGeneration = a.credentialGeneration
    && receipt.profileHash = a.profileHash

/-- The receipt is the one that settled the attempt: same hash, same amount. -/
def sameReceipt (receipt : BudgetTerminalReceipt) (actual : BudgetMoney) (a : Attempt) : Bool :=
  a.settlementHash = some receipt.receiptHash
    && a.actualAmount.any fun stored => stored.units = actual.units

/-- Why a receipt that is not the same one is a conflict, if it is. -/
def receiptReason (actual : BudgetMoney) (a : Attempt) : Option ConflictReason :=
  if a.settlementHash.isSome then some .receiptConflict
  else if actual.units > a.reservedAmount.units then some .overReservation
  else none

/-- The row after a receipt that is not the same one. -/
def settledRow (receipt : BudgetTerminalReceipt) (actual : BudgetMoney) (a : Attempt) : Attempt :=
  let reason := receiptReason actual a
  { a with
    state := if reason.isSome || a.state = .conflict then .conflict else .settled
    actualAmount := a.actualAmount.or (some actual)
    settlementHash := a.settlementHash.or (some receipt.receiptHash)
    conflictReason := a.conflictReason.or reason
    conflictHash := if reason.isSome then some receipt.receiptHash else a.conflictHash
    highestObservedLiability := a.highestObservedLiability.max actual }

def ConflictReason.toAccountReason : ConflictReason → AccountReason
  | .receiptConflict => .receiptConflict
  | .overReservation => .overReservation

/-- `UPDATE budget_accounts SET state='frozen',reason=$2 WHERE id=$1 AND state<>'retired'` -/
def freezeInstallation (db : Database) (installationId : Id) (reason : ConflictReason) :
    Except StoreError Database :=
  match db.accounts.find? installationId with
  | some account =>
      if account.state = .retired then .ok db
      else db.updateAccount { account with state := .frozen, reason := reason.toAccountReason }
  | none => .ok db

/-- `settle` under the locks, on the row it read again (`a`). -/
def settleLocked (receipt : BudgetTerminalReceipt) (actual : BudgetMoney) (db : Database)
    (a : Attempt) : Except StoreError (Database × SettleVerdict) :=
  if !receiptMatches receipt a then .ok (db, .denied)
  else if sameReceipt receipt actual a then
    .ok (db, if a.state = .conflict then .conflict else .settled)
  else do
    let new := settledRow receipt actual a
    let db₁ ← db.updateAttempt new
    if new.state = .conflict then
      let db₂ ← freezeInstallation db₁ a.installationAccountId
        ((receiptReason actual a).getD .receiptConflict)
      return (db₂, .conflict)
    else return (db₁, .settled)

def settle (receipt : BudgetTerminalReceipt) (db : Database) :
    Except StoreError (Database × SettleVerdict) :=
  match BudgetMoney.ofText receipt.actualAmount with
  | none => .error (.thrown "Invalid budget amount")
  | some actual =>
      if !receiptWellFormed receipt actual then .ok (db, .denied)
      else match db.attempts.find? receipt.attemptId with
      | none => .ok (db, .denied)
      | some found => do
          let _ ← locks db found.installationAccountId found.memberAccountId (some found.bindingId)
          settleLocked receipt actual db found.toAttempt

/-! ## Section 5: Grants -/

/-- `INSERT INTO budget_gateway_grants ... ON CONFLICT(attempt_id) DO NOTHING` -/
def recordGatewayGrant (reference : PermitBody) (grantHash : Hash) (db : Database) :
    Except StoreError (Database × Bool) :=
  if !uuid reference.attemptId || !uuid reference.bindingId || !validHash reference.requestHash
      || !validHash grantHash then .ok (db, false)
  else match db.attempts.find? reference.attemptId with
  | none => .ok (db, false)
  | some found => do
      let _ ← locks db found.installationAccountId found.memberAccountId (some found.bindingId)
      if found.state ≠ .admitted || found.bindingId ≠ reference.bindingId
          || found.requestHash ≠ reference.requestHash then .ok (db, false)
      else match db.grants.insert? ⟨found.id, grantHash⟩ with
      | none => .ok (db, false)
      | some grants => .ok ({ db with grants }, true)

end Lares.Budget
