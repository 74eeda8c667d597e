import Lares.Budget.Accounts

/-! # Preparing an intent

    The three prepare methods of `PgBudgetAdmissionStore`. Each runs in one
    transaction under the account locks, so it is a function of the database it
    finds: the database with one more prepared attempt, or a thrown error, after
    which the transaction is rolled back and the database is as before.

    What a method learns from outside the budget tables is part of its input:
    random ids and tickets, clock readings (one for each place that reads a
    clock), and the answers of the authority checks of other subsystems. After
    COMMIT the ticket is handed out, or withheld if the caller's claim lapsed
    meanwhile; the row stays either way.
-/

namespace Lares.Budget

/-! ## Section 1: Inputs -/

/-- The digests the store computes with keyed and unkeyed SHA-256. -/
structure Digests where
  hash : Text → Hash
  /-- `payloadFingerprint('budget-authority', reference)` -/
  authorityFingerprint : AuthorityReference → Hash
  /-- The HMAC of a `conversation-step` invocation under a suppression hash. -/
  conversationStep : Hash → List Text → Nat → Nat → Hash
  /-- The HMAC of an `owner-job` invocation under a suppression hash. -/
  ownerJob : Hash → List Text → Hash
  /-- `to_char(ends_at AT TIME ZONE 'UTC','YYYY-MM-DD')` -/
  utcDate : Timestamp → String

/-- `BudgetRequestReference` -/
structure BudgetRequestReference where
  bindingId : Id
  requestHash : Hash
  profileHash : Hash

/-- `GatewayModelRequestIdentity` -/
structure GatewayModelRequestIdentity where
  method : String
  path : String
  requestHash : Hash

/-- The values drawn at random for one intent. -/
structure FreshIntent where
  raw : Text
  attemptId : Id

/-! ## Section 2: The new row -/

/-- What the policy check under the locks hands on to the INSERT. -/
structure LockedPolicy where
  installation : Account
  member : Account
  binding : Binding
  iCap : BudgetMoney
  mCap : BudgetMoney
  installationWindowId : Id
  memberWindowId : Id
  recoveryEpoch : Text

/-- The columns of a new row: the INSERT that the three prepare methods share. -/
def intentRow (D : Digests) (p : LockedPolicy) (fresh : FreshIntent)
    (reference : AuthorityReference) (requestHash invocationHash : Hash)
    (createdAt expiresAt : Timestamp) : Attempt where
  id := fresh.attemptId
  ticketHash := D.hash fresh.raw
  installationAccountId := p.installation.id
  memberAccountId := p.member.id
  bindingId := p.binding.id
  liveMemberId := p.member.liveMemberId
  installationWindowId := p.installationWindowId
  memberWindowId := p.memberWindowId
  endpointHash := p.binding.endpointHash
  credentialGeneration := p.binding.credentialGeneration
  installationPolicyGeneration := p.installation.policyGeneration
  memberPolicyGeneration := p.member.policyGeneration
  endpointGeneration := p.installation.endpointGeneration
  recoveryEpoch := p.recoveryEpoch
  requestHash := requestHash
  authorityHash := D.authorityFingerprint reference
  authorityReference := some reference
  profileHash := p.binding.profileHash
  invocationHash := some invocationHash
  reservedAmount := p.binding.maximumLiability
  installationCapSnapshot := p.iCap
  memberCapSnapshot := p.mCap
  createdAt := createdAt
  expiresAt := expiresAt
  admittedAt := none
  state := .prepared
  actualAmount := none
  settlementHash := none
  conflictReason := none
  conflictHash := none
  highestObservedLiability := BudgetMoney.zero

/-- The foreign keys and the `budget_live_identity_guard` trigger on an insert. -/
def insertGuards (db : Database) (new : Attempt) : Bool :=
  (db.bindings.find? new.bindingId).any (fun b =>
      b.installationAccountId = new.installationAccountId
        && b.memberAccountId = new.memberAccountId)
    && (db.windows.find? new.installationWindowId).any (·.accountId = new.installationAccountId)
    && (db.windows.find? new.memberWindowId).any (·.accountId = new.memberAccountId)
    && (db.accounts.find? new.memberAccountId).any (fun m =>
      m.kind = .member && m.liveMemberId = new.liveMemberId)

/-- `INSERT INTO budget_attempts ... ON CONFLICT(invocation_hash) DO NOTHING`
    followed by the check that one row came back. -/
def insertAttempt (db : Database) (new : Attempt) : Except StoreError Database :=
  if new.invocationHash.isNone then .error (.triggerRejected "Budget invocation is required")
  else if !insertGuards db new then .error .checkRejected
  else if db.attempts.rows.any (fun a => a.invocationHash = new.invocationHash) then
    .error (.thrown "Budget authority is unavailable or changed")
  else if db.attempts.rows.any (fun a => a.ticketHash = new.ticketHash) then
    .error .checkRejected
  else if h : new.checks = true then
    match db.attempts.insert? ⟨new, h⟩ with
    | none => .error .checkRejected
    | some attempts => .ok { db with attempts }
  else .error .checkRejected

/-! ## Section 3: The part under lock -/

/-- What the prepare methods read outside these tables. -/
structure PrepareEnv where
  /-- The capture (or the validation) of the caller's authority; it may throw. -/
  reference : Except StoreError AuthorityReference
  /-- `d.hash` and the model name of the agent's current definition. -/
  current : Option (Hash × Text)
  /-- A financial writer is attached. -/
  financialWriter : Bool
  authorityDeadlineMs : Option Nat
  readyInstallationAt : Timestamp
  readyMemberAt : Timestamp
  createdAt : Timestamp
  intentLifetimeMs : Nat
  /-- `Date.now()` at the start, and when the expiry is computed. -/
  startMs : Nat
  nowMs : Nat
  /-- `active()` at the start and as the guard before COMMIT. -/
  activeAtStart : Bool
  activeAtCommit : Bool

/-- `if (c) throw e` -/
def refuseIf (c : Bool) (e : StoreError) : Except StoreError Unit :=
  if c then .error e else .ok ()

/-- `if (!value) throw e` on a value that may be missing. -/
def orThrow {α : Type} (value : Option α) (e : StoreError) : Except StoreError α :=
  match value with
  | some v => .ok v
  | none => .error e

def policyUnavailable : StoreError := .thrown "Budget policy unavailable"
def authorityChanged : StoreError := .thrown "Budget authority is unavailable or changed"

/-- The policy check after the locks. `accepted` is the method's own condition
    on the binding. -/
def lockedPolicy (env : PrepareEnv) (db : Database) (l : Locked) (memberId : Text)
    (accepted : Binding → Bool) : Except StoreError LockedPolicy :=
  match l.binding, cap db l.installation, cap db l.member, l.installation.recoveryEpoch,
      l.installation.activeWindowId, l.member.activeWindowId with
  | some b, some iCap, some mCap, some epoch, some iWindow, some mWindow =>
      if b.state = .active && l.member.liveMemberId = some memberId
          && b.liveMemberId = l.member.liveMemberId && accepted b
          && some b.endpointHash = l.installation.selectedEndpoint && epoch != []
          && ready db l.installation env.readyInstallationAt
          && ready db l.member env.readyMemberAt then
        .ok ⟨l.installation, l.member, b, iCap, mCap, iWindow, mWindow, epoch⟩
      else .error policyUnavailable
  | _, _, _, _, _, _ => .error policyUnavailable

/-- The key of the invocation HMAC. A member account always has its suppression
    hash (a CHECK of `budget_accounts`). -/
def LockedPolicy.suppressionKey (p : LockedPolicy) : Hash :=
  p.member.canonicalSuppressionHash.getD []

/-- A text of `lo` to `hi` characters of one class. -/
def textOf (p : Char → Bool) (lo hi : Nat) (v : Text) : Bool :=
  lo ≤ v.length && v.length ≤ hi && v.all p

/-- `[a-z0-9-]` -/
def isSlug (c : Char) : Bool := ('a' ≤ c && c ≤ 'z') || isDigit c || c = '-'

/-- `[A-Za-z0-9_-]` -/
def isBase64Url (c : Char) : Bool :=
  ('a' ≤ c && c ≤ 'z') || ('A' ≤ c && c ≤ 'Z') || isDigit c || c = '_' || c = '-'

/-- `/^[a-z][a-z0-9-]{1,hi}$/` -/
def slug (hi : Nat) (v : Text) : Bool :=
  textOf isSlug 2 (hi + 1) v && v.head?.any fun c => 'a' ≤ c && c ≤ 'z'

/-! ## Section 4: A conversation step -/

/-- `currentModelInvocation()`: turn, step and purpose of the running call. -/
structure ModelInvocation where
  turnId : Text
  sequence : Nat
  stepIndex : Nat
  purposeAlias : Text

def prepareIntent (D : Digests) (env : PrepareEnv) (fresh : FreshIntent)
    (invocation : Option ModelInvocation) (request : BudgetRequestReference)
    (db : Database) : Except StoreError Database := do
  let invocation ← orThrow invocation (.thrown "A fresh trusted model invocation is required")
  refuseIf (!uuid request.bindingId || !validHash request.requestHash
    || !validHash request.profileHash) (.thrown "Invalid budget request")
  let reference ← env.reference
  let discovered ← orThrow (db.bindings.find? request.bindingId)
    (.thrown "Budget binding unavailable")
  let l ← locks db discovered.installationAccountId discovered.memberAccountId
    (some request.bindingId)
  let p ← lockedPolicy env db l reference.memberId fun b =>
    b.agent = some reference.agent && b.incarnation = some reference.incarnation
      && b.purposeAlias = some invocation.purposeAlias && b.profileHash = request.profileHash
  let invocationHash := D.conversationStep p.suppressionKey
    [p.installation.id, p.member.id, reference.memberId, reference.agent, reference.incarnation,
      reference.sessionId, reference.admissionNonce, invocation.turnId]
    invocation.sequence invocation.stepIndex
  insertAttempt db (intentRow D p fresh reference request.requestHash invocationHash
    env.createdAt (env.createdAt + env.intentLifetimeMs * 1000))

/-! ## Section 5: A claimed model purpose -/

/-- `gatewayModelPath` -/
def gatewayModelPath (format : Option String) : Option String :=
  if format = some "anthropic" then some "/v1/messages"
  else if format = some "openai" then some "/v1/chat/completions"
  else if format = some "embedding" then some "/v1/embeddings"
  else none

/-- `LEAST(t+($22::int*interval '1 millisecond'),$24::timestamptz)` -/
def leastExpiry (env : PrepareEnv) (requestedExpiry : Nat) : Timestamp :=
  min (env.createdAt + max 1 (min env.intentLifetimeMs (requestedExpiry - env.nowMs)) * 1000)
    (requestedExpiry * 1000)

/-- The only active binding of a member for an agent and a model name. -/
def discoverBinding (db : Database) (memberId agent : Text) (incarnation : Id)
    (purposeAlias : Text) : Option Binding :=
  match db.bindings.rows.filter (fun b => b.liveMemberId = some memberId && b.agent = some agent
      && b.incarnation = some incarnation && b.purposeAlias = some purposeAlias
      && b.state = .active) with
  | [b] => some b
  | _ => none

/-- `ModelPurposeClaimSource` -/
structure ModelPurposeClaimSource where
  agent : Text
  incarnation : Id
  reference : AuthorityReference
  definitionHash : Hash
  purposeAlias : Text
  turnId : Text
  sequence : Nat
  stepIndex : Nat
  /-- When the claim itself expires. -/
  expiresAt : Nat

/-- The checks of a claim before any database work. -/
def claimAccepted (env : PrepareEnv) (source : ModelPurposeClaimSource)
    (request : GatewayModelRequestIdentity) : Bool :=
  env.financialWriter && env.activeAtStart
    && request.method = "POST" && validHash request.requestHash
    && (request.path = "/v1/messages" || request.path = "/v1/chat/completions")
    && env.startMs < source.expiresAt
    && source.agent = source.reference.agent && source.incarnation = source.reference.incarnation
    && source.reference.turnId = source.turnId
    && source.reference.turnSequence = source.sequence
    && (source.turnId = [] || textOf (fun c => isBase64Url c || c = '.' || c = ':') 1 128 source.turnId)
    && (source.turnId != [] || source.reference.kind = .resume)

/-- `env.reference` is the outcome of validating the source's reference. -/
def prepareModelPurposeIntent (D : Digests) (env : PrepareEnv) (fresh : FreshIntent)
    (source : Option ModelPurposeClaimSource) (request : GatewayModelRequestIdentity)
    (db : Database) : Except StoreError Database := do
  let source ← orThrow source authorityChanged
  refuseIf (!claimAccepted env source request) authorityChanged
  let _ ← env.reference
  refuseIf (env.current != some (source.definitionHash, source.purposeAlias)
    || !slug 63 source.purposeAlias) policyUnavailable
  let discovered ← orThrow (discoverBinding db source.reference.memberId source.agent
    source.incarnation source.purposeAlias) policyUnavailable
  let l ← locks db discovered.installationAccountId discovered.memberAccountId
    (some discovered.id)
  let p ← lockedPolicy env db l source.reference.memberId fun b =>
    b.agent = some source.agent && b.incarnation = some source.incarnation
      && b.purposeAlias = some source.purposeAlias
      && gatewayModelPath b.pricingFormat = some request.path && b.keyFingerprint.isSome
  let invocationHash := D.conversationStep p.suppressionKey
    [p.installation.id, p.member.id, source.reference.memberId, source.agent, source.incarnation,
      source.reference.sessionId, source.reference.admissionNonce, source.turnId]
    source.sequence source.stepIndex
  let requestedExpiry := min (min (env.nowMs + env.intentLifetimeMs) source.expiresAt)
    (env.authorityDeadlineMs.getD source.expiresAt)
  refuseIf (requestedExpiry ≤ env.nowMs) authorityChanged
  let db' ← insertAttempt db (intentRow D p fresh source.reference request.requestHash
    invocationHash env.createdAt (leastExpiry env requestedExpiry))
  refuseIf (!env.activeAtCommit) authorityChanged
  return db'

/-! ## Section 6: An owner job -/

/-- Owner-job tickets one agent may have outstanding at once. -/
def OWNER_JOB_OUTSTANDING_MAX : Nat := 8

/-- The owner-job attempts of a member account and an agent that are admitted,
    unknown, or prepared and not expired. -/
def ownerJobsOutstanding (db : Database) (memberId : Id) (agent : Text) (incarnation : Id)
    (now : Timestamp) : Nat :=
  db.attempts.rows.countP fun a =>
    a.memberAccountId = memberId
      && (db.bindings.find? a.bindingId).any (fun x =>
        x.agent = some agent && x.incarnation = some incarnation)
      && a.authorityReference.any (·.kind = .ownerJob)
      && (a.state ∈ [.admitted, .unknown] || (a.state = .prepared && now < a.expiresAt))

structure OwnerJobInput where
  agent : Text
  incarnation : Id
  ownerId : Text
  purposeAlias : Text
  jobId : Text
  request : GatewayModelRequestIdentity

/-- The checks of an owner job before any database work. -/
def ownerJobAccepted (env : PrepareEnv) (input : OwnerJobInput) : Bool :=
  env.financialWriter && env.activeAtStart
    && input.request.method = "POST" && validHash input.request.requestHash
    && ["/v1/messages", "/v1/chat/completions", "/v1/embeddings"].contains input.request.path
    && slug 30 input.agent && uuid input.incarnation && slug 63 input.purposeAlias
    && textOf isBase64Url 32 64 input.jobId && input.ownerId != []

def prepareOwnerJobIntent (D : Digests) (env : PrepareEnv) (fresh : FreshIntent)
    (input : OwnerJobInput) (countedAt : Timestamp) (db : Database) :
    Except StoreError Database := do
  refuseIf (!ownerJobAccepted env input) authorityChanged
  let reference ← env.reference
  refuseIf env.current.isNone policyUnavailable
  let discovered ← orThrow (discoverBinding db input.ownerId input.agent input.incarnation
    input.purposeAlias) policyUnavailable
  let l ← locks db discovered.installationAccountId discovered.memberAccountId
    (some discovered.id)
  let p ← lockedPolicy env db l input.ownerId fun b =>
    b.agent = some input.agent && b.incarnation = some input.incarnation
      && b.purposeAlias = some input.purposeAlias
      && gatewayModelPath b.pricingFormat = some input.request.path && b.keyFingerprint.isSome
  -- The member account is locked, so the count and the insert cannot interleave
  -- with another job.
  refuseIf (OWNER_JOB_OUTSTANDING_MAX ≤
      ownerJobsOutstanding db p.member.id input.agent input.incarnation countedAt)
    (.thrown "Owner job limit reached")
  let invocationHash := D.ownerJob p.suppressionKey
    [p.installation.id, p.member.id, input.ownerId, input.agent, input.incarnation, input.jobId]
  let requestedExpiry := min (env.nowMs + env.intentLifetimeMs)
    (env.authorityDeadlineMs.getD (env.nowMs + env.intentLifetimeMs))
  refuseIf (requestedExpiry ≤ env.nowMs) authorityChanged
  let db' ← insertAttempt db (intentRow D p fresh reference input.request.requestHash
    invocationHash env.createdAt (leastExpiry env requestedExpiry))
  refuseIf (!env.activeAtCommit) authorityChanged
  return db'

end Lares.Budget
