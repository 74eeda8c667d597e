import Lares.Approvals.Ledger
import Lares.Framework.System
import Mathlib.Logic.Function.Basic

/-! # Exact cards

    The writers of an approval row with an original authority: the agent's
    `approval-execution` and the keeper's broker, which claims the row and then
    dispatches an outside call or writes a file.

    * A request goes from one statement to the next; each of its statements is
      one step, and between two of them everybody else may take theirs. Row
      locks and transactions only leave out some of these runs.
    * What a request reads beside the row (a session binding, a policy, a
      target, the member and its areas) is an answer of the environment.
    * A request that is never heard of again has crashed, was refused, or has
      lost the answer to its COMMIT.
-/

namespace Lares.Approvals.ExactCard

/-! ## Section 1: Rows -/

/-- A JSON value. -/
abbrev Input := Text

/-- `exactTargetSchema` -/
structure Target where
  /-- A connection, a Track or a note. -/
  kind : Text
  id : Text
  ownerMemberId : Text
  /-- Of what stood there when the card was shown. -/
  fingerprint : Hash
  /-- The origin that the member sees on the card. -/
  approvedOrigin : Option Text
  deriving DecidableEq

inductive Origin where
  | human | job | approvalResume
  deriving DecidableEq

/-- `turnAuthoritySchema`, without a job's own fields. -/
structure TurnAuthority where
  origin : Origin
  agentId : Text
  turnId : Text
  sessionId : Text
  placeId : Text
  audienceRevision : Nat
  policyRevision : Nat
  actingMemberId : Option Text
  spokenByMemberId : Option Text
  resolvedByMemberId : Option Text
  requestId : Option Text
  deriving DecidableEq

/-- `exactReservationSchema` -/
structure Reservation where
  /-- The turn that has asked. -/
  original : TurnAuthority
  incarnation : Text
  /-- Of the nonce of its admission. -/
  admissionHash : Hash
  target : Target
  policyHash : Hash
  /-- A day after it was reserved. -/
  expiresAt : Time
  deriving DecidableEq

/-- `original_authority`: a reservation, or a document of somebody else's. -/
inductive Authority where
  | exact (reservation : Reservation)
  | other (document : Text)
  deriving DecidableEq

abbrev Card := ApprovalRow Authority

/-- `console_session_bindings`, as far as it is compared. -/
structure Binding where
  placeId : Text
  audienceRevision : Nat
  policyRevision : Nat

/-- The fingerprints, by what they are taken of. -/
structure CardCodec where
  /-- `payloadFingerprint(tool,input)` -/
  inputPrint : Text → Input → Hash
  reservationPrint : Reservation → Hash
  targetPrint : Target → Hash
  approvalTargetPrint : Target → Hash
  authorityPrint : TurnAuthority → Hash
  admissionPrint : Text → Hash
  bindingPrint : Binding → Hash
  outsidePayloadHash : Text → Input → Hash

/-- What the environment answers; a step uses what it asks for. -/
structure Answer where
  /-- The authority that the session was given. -/
  original : Option TurnAuthority
  /-- The binding of the agent. -/
  binding : Option Binding
  /-- Whether the row could be locked. -/
  locked : Bool
  /-- The policy in force. -/
  policyHash : Option Hash
  /-- Where the call would go now. -/
  target : Option Target
  /-- The binding, looked at again. -/
  finalBinding : Option Binding
  /-- The card of a request, by its id. -/
  found : Option Text
  /-- A random id. -/
  uuid : Text
  /-- The fingerprint of what stands at the target's path. -/
  content : Hash
  /-- Nothing stands at the path. -/
  absent : Bool
  /-- Whatever else can refuse: members, areas, revisions, custody. -/
  ok : Bool

/-! ## Section 2: Checks -/

variable (codec : CardCodec)

/-- `exact` -/
def exact (now : Time) (row : Card) (tool : Text) (input : Input) : Option Reservation :=
  match row.originalAuthority with
  | some (.exact r) =>
      if r.original.origin = .human ∧ r.original.actingMemberId ≠ none ∧
          r.original.spokenByMemberId = r.original.actingMemberId ∧
          row.actingMemberId = r.original.actingMemberId ∧ row.agent = r.original.agentId ∧
          row.tool = tool ∧ row.payloadHash = codec.inputPrint tool input ∧ now < r.expiresAt then
        some r
      else none
  | _ => none

/-- Who is asking: the agent's own identity, the session and the admitted member. -/
structure Session where
  agent : Text
  incarnation : Text
  sessionId : Text
  memberId : Text
  admissionNonce : Text
  deriving DecidableEq

/-- The binding is the one that the reservation was made in. -/
def sameBinding (r : Reservation) (b : Binding) : Bool :=
  b.placeId == r.original.placeId && b.audienceRevision == r.original.audienceRevision &&
    b.policyRevision == r.original.policyRevision

/-- `current`; `target` is what `readTarget` answers. -/
def current (now : Time) (r : Reservation) (session : Session) (target : Option Target)
    (answer : Answer) : Bool :=
  session.agent == r.original.agentId && session.incarnation == r.incarnation &&
    session.sessionId == r.original.sessionId &&
    some session.memberId == r.original.actingMemberId &&
    codec.admissionPrint session.admissionNonce == r.admissionHash &&
    (match answer.binding with
      | some b => answer.locked && sameBinding r b && answer.policyHash == some r.policyHash &&
          (target.any fun target => target.ownerMemberId == session.memberId &&
            codec.targetPrint target == codec.targetPrint r.target) &&
          answer.finalBinding.any fun final => codec.bindingPrint final == codec.bindingPrint b
      | none => false) &&
    decide (now < r.expiresAt)

/-- `requireBoundExactApproval`, of the row. -/
def requireBound (now : Time) (row : Card) (session : Session) (tool : Text) (input : Input)
    (claimed : Bool) : Option Reservation :=
  match exact codec now row tool input with
  | some r =>
      if row.requestId ≠ none ∧ row.outcome = some .approved ∧
          row.actingMemberId = some session.memberId ∧
          row.resolvedByMemberId = some session.memberId ∧
          row.sessionId = some session.sessionId ∧ row.agent = session.agent ∧
          r.incarnation = session.incarnation ∧ row.usedAt.isSome = claimed then some r
      else none
  | none => none

/-! ## Section 3: Requests -/

/-- `OutsideToolCallRequest` -/
structure OutsideCall where
  callId : Text
  connectionName : Text
  toolName : Text
  input : Input
  deriving DecidableEq

/-- `${call.connectionName}__${call.toolName}` -/
def OutsideCall.tool (call : OutsideCall) : Text :=
  call.connectionName ++ "__".toList ++ call.toolName

/-- `outsideApprovalAdapter(…).readTarget`, of a reserved target. -/
def OutsideCall.target (call : OutsideCall) (memberId : Text) (reserved : Target) : Target where
  kind := "outside-call".toList
  id := reserved.id
  ownerMemberId := memberId
  fingerprint := codec.outsidePayloadHash call.toolName call.input
  approvedOrigin := none

/-- What `outsideResumes` keeps for a capability. -/
structure Resume where
  /-- Who may present it. -/
  session : Session
  callId : Text
  connectionName : Text
  toolName : Text
  /-- Of what was approved. -/
  payloadHash : Hash
  /-- When it is forgotten. -/
  expiresAt : Time

/-- The approval that a write is asked with. -/
structure Approval where
  requestId : Text
  callId : Text
  toolName : Text
  payloadHash : Hash
  input : Input
  target : Target
  authority : TurnAuthority

/-- `ApprovedWrite`; `before` is what has to stand at the target before the claim. -/
structure ApprovedWrite where
  tools : List Text
  targetPath : Text → Input → Target → Option Text
  before : Target → Answer → Bool

/-- A `tracks.write` or a `vault.write`. -/
structure WriteRequest where
  /-- Which of the two. -/
  write : ApprovedWrite
  session : Session
  operation : Text
  input : Input
  /-- What the caller says of the card. -/
  approval : Approval
  /-- When the caller stops waiting. -/
  requestDeadline : Time

/-- An answer to a card; who responds is authenticated apart from who asked. -/
structure Response where
  requestId : Text
  callId : Text
  toolName : Text
  toolInput : Input
  /-- The session of the turn that has asked. -/
  own : Session
  /-- Who responds is the one the card was shown to. -/
  responderIsResolver : Bool
  /-- The request and the option of `exactResolverAdmission`. -/
  answered : Option (Text × Bool)
  initialIsHuman : Bool
  initialMemberId : Text
  initialNonce : Text

/-- A call that needs an exact card. -/
structure ReserveCall where
  session : Session
  callId : Text
  tool : Text
  input : Input
  turnSequence : Int

/-- Where a request stands: what it does next. -/
inductive Request where
  /-- An ask is recorded, without an authority. -/
  | recordAsk (requestId callId agent tool : Text) (payloadHash : Hash)
  /-- It is answered. -/
  | recordAnswer (requestId : Text) (outcome : AskOutcome)
  /-- A card is reserved. -/
  | reserveExactApproval (call : ReserveCall)
  /-- The row is compared with the reservation. -/
  | reserveCheck (call : ReserveCall) (r : Reservation)
  /-- A card is to get its request id. -/
  | attachExactApproval (requestId callId tool : Text) (input : Input)
  /-- Its UPDATE. -/
  | attachUpdate (requestId callId : Text)
  /-- The member answers a card. -/
  | approveExactResponse (response : Response)
  /-- Its UPDATE. -/
  | approveUpdate (response : Response) (r : Reservation)
  /-- A card is settled. -/
  | settleExactInput (requestId : Text) (outcome : AskOutcome)
  /-- The row of an outside call is read. -/
  | outsideApprove (call : OutsideCall) (session : Session) (requestDeadline : Time)
  /-- Session and target are compared, and the card is claimed. -/
  | outsideClaim (call : OutsideCall) (session : Session) (requestDeadline : Time)
      (r : Reservation) (requestId : Text)
  /-- The custody approves the call. -/
  | outsideCustody (call : OutsideCall) (session : Session) (requestDeadline : Time)
      (expiresAt : Time)
  /-- The row is read again. -/
  | outsideRecheck (call : OutsideCall) (session : Session) (requestDeadline : Time)
      (expiresAt : Time)
  /-- They are compared again, and the capability is given out. -/
  | outsideCapability (call : OutsideCall) (session : Session) (requestDeadline : Time)
      (expiresAt : Time) (r : Reservation)
  /-- A capability is presented. -/
  | outsideExecute (capability : Text) (call : OutsideCall) (session : Session)
      (requestDeadline : Time)
  /-- The row is read. -/
  | executeCheck (resume : Resume) (call : OutsideCall) (session : Session) (requestDeadline : Time)
  /-- Session and target are compared. -/
  | executeCurrent (resume : Resume) (call : OutsideCall) (session : Session)
      (requestDeadline : Time) (r : Reservation)
  /-- The row is read once more. -/
  | executeLock (resume : Resume) (call : OutsideCall) (session : Session) (requestDeadline : Time)
      (target : Target)
  /-- The call leaves. -/
  | executeDispatch (resume : Resume) (call : OutsideCall) (session : Session)
      (requestDeadline : Time) (target : Target) (r : Reservation)
  /-- The row of a write is read. -/
  | writeBefore (w : WriteRequest)
  /-- Binding and target are looked at. -/
  | writeBeforeUse (w : WriteRequest) (r : Reservation)
  /-- The row is read for the claim. -/
  | writeClaim (w : WriteRequest)
  /-- The card is claimed. -/
  | writeClaimUse (w : WriteRequest) (r : Reservation)
  /-- The row is read for the write. -/
  | writeRead (w : WriteRequest)
  /-- The rest of its checks. -/
  | writeUse (w : WriteRequest) (r : Reservation)
  /-- The area is asked for the edit grant. -/
  | writeArea (w : WriteRequest) (r : Reservation)
  /-- The file is written. -/
  | commitFile (w : WriteRequest) (r : Reservation)

namespace Request

/-- What a caller can ask for. -/
def starts : Request → Bool
  | recordAsk .. | recordAnswer .. | reserveExactApproval .. | attachExactApproval ..
  | approveExactResponse .. | settleExactInput .. | outsideApprove .. | outsideExecute ..
  | writeBefore .. => true
  | _ => false

end Request

/-! ## Section 4: What is shared -/

/-- An outside dispatch, or a file write where there is a path. -/
structure Dispatch where
  callId : Text
  tool : Text
  /-- The print of its input. -/
  payloadHash : Hash
  /-- Where it goes, and in whose name. -/
  target : Target
  policyHash : Hash
  path : Option Text
  /-- When it leaves. -/
  time : Time
  deriving DecidableEq

inductive Event where
  /-- The member has approved what the card shows. -/
  | approved (callId memberId tool : Text) (payloadHash : Hash) (target : Target)
      (policyHash : Hash)
  /-- The card is over. -/
  | settled (callId : Text) (outcome : AskOutcome)
  /-- The card is used. -/
  | claimed (callId : Text)
  /-- Its call or write has left. -/
  | dispatched (d : Dispatch)
  deriving DecidableEq

structure Shared where
  /-- The clock of the keeper. -/
  now : Time
  /-- The rows of `asks`, by their calls. -/
  asks : Text → Option Card
  /-- `outsideResumes` -/
  capabilities : Text → Option Resume
  /-- What has happened, oldest first. -/
  log : List Event

namespace Shared

def setAsk (s : Shared) (callId : Text) (row : Card) : Shared :=
  { s with asks := Function.update s.asks callId (some row) }

def setCapability (s : Shared) (capability : Text) (resume : Option Resume) : Shared :=
  { s with capabilities := Function.update s.capabilities capability resume }

def record (s : Shared) (event : Event) : Shared := { s with log := s.log ++ [event] }

end Shared

/-- What a step leaves, and where the request stands then; a refusal changes nothing. -/
abbrev After := Shared × Option Request

def refuse (s : Shared) : After := (s, none)

/-- An UPDATE: the trigger may refuse it. -/
def updateCard (s : Shared) (callId : Text) (old new : Card) (next : Shared → After) : After :=
  if guardExactApprovalAuthority old new then next (s.setAsk callId new) else refuse s

/-- `rowForCall` -/
def rowForCall (s : Shared) (callId : Text) (next : Card → After) : After :=
  match s.asks callId with
  | some row => if row.originalAuthority = none then refuse s else next row
  | none => refuse s

/-! ## Section 5: The agent -/

def recordAskStep (s : Shared) (requestId callId agent tool : Text) (payloadHash : Hash) : After :=
  match s.asks callId with
  | some _ => (s, none)
  | none =>
      (s.setAsk callId {
        callId := callId
        requestId := some requestId
        agent := agent
        tool := tool
        payloadHash := payloadHash
        originalAuthority := none
        actingMemberId := none
        resolvedByMemberId := none
        sessionId := none
        turnSequence := none
        askedAt := s.now
        answeredAt := none
        outcome := none
        usedAt := none
        useCount := 0 }, none)

/-- `recordAnswer`: only a row without an authority. -/
def recordAnswerStep (s : Shared) (requestId : Text) (outcome : AskOutcome) (answer : Answer) :
    After :=
  match answer.found with
  | none => refuse s
  | some callId =>
      match s.asks callId with
      | none => refuse s
      | some row =>
          if row.requestId = some requestId ∧ row.outcome = none ∧ row.originalAuthority = none then
            updateCard s callId row { row with outcome := some outcome, answeredAt := some s.now }
              fun s => (s, none)
          else refuse s

/-- The reservation that `reserveExactApproval` makes. -/
def reservation (now : Time) (call : ReserveCall) (original : TurnAuthority) (target : Target)
    (policyHash : Hash) : Reservation where
  original := original
  incarnation := call.session.incarnation
  admissionHash := codec.admissionPrint call.session.admissionNonce
  target := target
  policyHash := policyHash
  expiresAt := now + APPROVAL_TTL

/-- The row of a reservation. -/
def reservedCard (now : Time) (call : ReserveCall) (r : Reservation) : Card where
  callId := call.callId
  requestId := none
  agent := call.session.agent
  tool := call.tool
  payloadHash := codec.inputPrint call.tool call.input
  originalAuthority := some (.exact r)
  actingMemberId := r.original.actingMemberId
  resolvedByMemberId := none
  sessionId := some r.original.sessionId
  turnSequence := some call.turnSequence
  askedAt := now
  answeredAt := none
  outcome := none
  usedAt := none
  useCount := 0

/-- `reserveExactApproval`, up to its INSERT … ON CONFLICT DO NOTHING. -/
def reserveStep (s : Shared) (call : ReserveCall) (answer : Answer) : After :=
  match answer.original, answer.target, answer.policyHash with
  | some original, some target, some policyHash =>
      if original.actingMemberId = none ∨
          some target.ownerMemberId ≠ original.actingMemberId then refuse s
      else
        let r := reservation codec s.now call original target policyHash
        match s.asks call.callId with
        | some _ => (s, some (.reserveCheck call r))
        | none =>
            (s.setAsk call.callId (reservedCard codec s.now call r), some (.reserveCheck call r))
  | _, _, _ => refuse s

/-- The rest of `reserveExactApproval`: it returns or refuses, and writes nothing. -/
def reserveCheckStep (s : Shared) (call : ReserveCall) (r : Reservation) : After :=
  rowForCall s call.callId fun row =>
    match exact codec s.now row call.tool call.input with
    | some existing =>
        if codec.reservationPrint { existing with expiresAt := r.expiresAt } ≠
            codec.reservationPrint r ∨ row.outcome ≠ none then refuse s
        else (s, none)
    | none => refuse s

def attachStep (s : Shared) (requestId callId tool : Text) (input : Input) : After :=
  rowForCall s callId fun row =>
    if row.tool ≠ tool ∨ row.payloadHash ≠ codec.inputPrint tool input then refuse s
    else (s, some (.attachUpdate requestId callId))

def attachUpdateStep (s : Shared) (requestId callId : Text) : After :=
  match s.asks callId with
  | none => refuse s
  | some row =>
      if row.originalAuthority ≠ none ∧
          (row.requestId = none ∨ row.requestId = some requestId) then
        updateCard s callId row { row with requestId := some requestId } fun s => (s, none)
      else refuse s

def approveStep (s : Shared) (response : Response) : After :=
  rowForCall s response.callId fun row =>
    match exact codec s.now row response.toolName response.toolInput with
    | some r =>
        if row.requestId = some response.requestId ∧ response.responderIsResolver ∧
            response.answered = some (response.requestId, true) ∧ response.initialIsHuman ∧
            response.initialMemberId = response.own.memberId ∧
            response.initialNonce = response.own.admissionNonce ∧
            (row.outcome = none ∨ row.outcome = some .approved) then
          (s, some (.approveUpdate response r))
        else refuse s
    | none => refuse s

def approveUpdateStep (s : Shared) (response : Response) (r : Reservation) (answer : Answer) :
    After :=
  if current codec s.now r response.own answer.target answer then
    match s.asks response.callId with
    | none => refuse s
    | some row =>
        if row.requestId = some response.requestId ∧ row.originalAuthority ≠ none ∧
            (row.outcome = none ∨ (row.outcome = some .approved ∧
              row.resolvedByMemberId = some response.own.memberId)) then
          updateCard s response.callId row { row with
            outcome := some .approved
            answeredAt := some (row.answeredAt.getD s.now)
            resolvedByMemberId := some response.own.memberId } fun s =>
              (match answer.target, answer.policyHash with
                | some target, some policyHash => s.record (.approved response.callId
                    response.own.memberId response.toolName
                    (codec.inputPrint response.toolName response.toolInput) target policyHash)
                | _, _ => s, none)
        else refuse s
  else refuse s

def settleStep (s : Shared) (requestId : Text) (outcome : AskOutcome) (answer : Answer) : After :=
  if outcome ≠ .cancelled ∧ outcome ≠ .ignored ∧ outcome ≠ .invalid then (s, none)
  else
    match answer.found with
    | none => (s, none)
    | some callId =>
        match s.asks callId with
        | none => (s, none)
        | some row =>
            if row.requestId = some requestId ∧ row.originalAuthority ≠ none ∧
                (row.outcome = none ∨ row.outcome = some .approved) then
              updateCard s callId row { row with
                outcome := some outcome
                answeredAt := some (row.answeredAt.getD s.now) } fun s =>
                  (s.record (.settled callId outcome), none)
            else (s, none)

/-! ## Section 6: The keeper -/

/-- The claim: `used_at=clock_timestamp(),use_count=use_count+1`, of an approved row not used. -/
def claimUpdate (s : Shared) (callId requestId : Text) (next : Request) : After :=
  match s.asks callId with
  | none => refuse s
  | some row =>
      if row.requestId = some requestId ∧ row.outcome = some .approved ∧ row.usedAt = none then
        updateCard s callId row { row with usedAt := some s.now, useCount := row.useCount + 1 }
          fun s => (s.record (.claimed callId), some next)
      else refuse s

def outsideApproveStep (s : Shared) (call : OutsideCall) (session : Session)
    (requestDeadline : Time) : After :=
  rowForCall s call.callId fun row =>
    match requireBound codec s.now row session call.tool call.input false, row.requestId with
    | some r, some requestId => (s, some (.outsideClaim call session requestDeadline r requestId))
    | _, _ => refuse s

def outsideClaimStep (s : Shared) (call : OutsideCall) (session : Session) (requestDeadline : Time)
    (r : Reservation) (requestId : Text) (answer : Answer) : After :=
  if current codec s.now r session (some (call.target codec session.memberId r.target)) answer ∧
      answer.ok ∧ r.target.kind = "outside-call".toList ∧ r.target.id = call.callId ∧
      r.target.fingerprint = codec.outsidePayloadHash call.toolName call.input then
    claimUpdate s call.callId requestId (.outsideCustody call session requestDeadline r.expiresAt)
  else refuse s

/-- After the claim: `approveExecution`, for a minute at most. -/
def outsideCustodyStep (s : Shared) (call : OutsideCall) (session : Session)
    (requestDeadline approvedExpiresAt : Time) (answer : Answer) : After :=
  let expiresAt := min approvedExpiresAt (s.now + 60 * 1000 * 1000)
  if s.now < requestDeadline ∧ s.now < expiresAt ∧ answer.ok then
    (s, some (.outsideRecheck call session requestDeadline expiresAt))
  else refuse s

def outsideRecheckStep (s : Shared) (call : OutsideCall) (session : Session)
    (requestDeadline expiresAt : Time) : After :=
  rowForCall s call.callId fun row =>
    match requireBound codec s.now row session call.tool call.input true with
    | some r => (s, some (.outsideCapability call session requestDeadline expiresAt r))
    | none => refuse s

def outsideCapabilityStep (s : Shared) (call : OutsideCall) (session : Session)
    (requestDeadline expiresAt : Time) (r : Reservation) (answer : Answer) : After :=
  if current codec s.now r session (some (call.target codec session.memberId r.target)) answer ∧
      s.now < requestDeadline ∧ s.now < expiresAt then
    (s.setCapability answer.uuid (some {
      session := session
      callId := call.callId
      connectionName := call.connectionName
      toolName := call.toolName
      payloadHash := codec.outsidePayloadHash call.toolName call.input
      expiresAt := expiresAt }), none)
  else refuse s

/-- The capability is taken before anything can be awaited. -/
def outsideExecuteStep (s : Shared) (capability : Text) (call : OutsideCall) (session : Session)
    (requestDeadline : Time) : After :=
  match s.capabilities capability with
  | none => refuse s
  | some resume =>
      if s.now < resume.expiresAt ∧ resume.session = session ∧ resume.callId = call.callId ∧
          resume.connectionName = call.connectionName ∧ resume.toolName = call.toolName ∧
          resume.payloadHash = codec.outsidePayloadHash call.toolName call.input then
        (s.setCapability capability none, some (.executeCheck resume call session requestDeadline))
      else refuse (s.setCapability capability none)

def executeCheckStep (s : Shared) (resume : Resume) (call : OutsideCall) (session : Session)
    (requestDeadline : Time) : After :=
  rowForCall s call.callId fun row =>
    match requireBound codec s.now row session call.tool call.input true with
    | some r => (s, some (.executeCurrent resume call session requestDeadline r))
    | none => refuse s

def executeCurrentStep (s : Shared) (resume : Resume) (call : OutsideCall) (session : Session)
    (requestDeadline : Time) (r : Reservation) (answer : Answer) : After :=
  let target := call.target codec session.memberId r.target
  if current codec s.now r session (some target) answer ∧ s.now < requestDeadline ∧
      s.now < resume.expiresAt then
    (s, some (.executeLock resume call session requestDeadline target))
  else refuse s

def executeLockStep (s : Shared) (resume : Resume) (call : OutsideCall) (session : Session)
    (requestDeadline : Time) (target : Target) : After :=
  match s.asks call.callId with
  | none => refuse s
  | some row =>
      match row.originalAuthority with
      | some (.exact r) =>
          if row.agent = session.agent ∧ row.sessionId = some session.sessionId ∧
              row.actingMemberId = some session.memberId ∧
              row.resolvedByMemberId = some session.memberId ∧ row.tool = call.tool ∧
              row.payloadHash = codec.inputPrint call.tool call.input ∧
              row.outcome = some .approved ∧ row.usedAt ≠ none ∧ s.now < r.expiresAt then
            (s, some (.executeDispatch resume call session requestDeadline target r))
          else refuse s
      | _ => refuse s

/-- `dispatchApproved`, right after `assertCurrent`. -/
def executeDispatchStep (s : Shared) (resume : Resume) (call : OutsideCall)
    (requestDeadline : Time) (target : Target) (r : Reservation) (answer : Answer) : After :=
  if answer.policyHash = some r.policyHash ∧ s.now < requestDeadline ∧
      s.now < resume.expiresAt then
    (s.record (.dispatched ⟨call.callId, call.tool, codec.inputPrint call.tool call.input, target,
      r.policyHash, none, s.now⟩), none)
  else refuse s

/-! ## Section 7: Approved writes -/

namespace WriteRequest

/-- What `trackArea` checks before its transaction; the path of the target. -/
def path (w : WriteRequest) : Option Text :=
  if w.approval.toolName ∈ w.write.tools ∧ w.approval.toolName = w.operation ∧
      codec.inputPrint w.operation w.input = w.approval.payloadHash ∧
      codec.inputPrint w.operation w.input = codec.inputPrint w.operation w.approval.input then
    w.write.targetPath w.operation w.input w.approval.target
  else none

/-- The authority that an approval has to be presented with. -/
def expectedAuthority (w : WriteRequest) (original : TurnAuthority) : TurnAuthority :=
  { original with
    origin := .approvalResume
    actingMemberId := some w.session.memberId
    resolvedByMemberId := some w.session.memberId
    requestId := some w.approval.requestId }

/-- What `trackArea` checks of the row that it has read. -/
def row (w : WriteRequest) (now : Time) (card : Card) (claimed : Bool) : Option Reservation :=
  match card.originalAuthority with
  | some (.exact r) =>
      if card.requestId = some w.approval.requestId ∧ card.agent = w.session.agent ∧
          card.tool = w.operation ∧ card.payloadHash = codec.inputPrint w.operation w.input ∧
          card.outcome = some .approved ∧ card.resolvedByMemberId = some w.session.memberId ∧
          card.actingMemberId = some w.session.memberId ∧
          card.sessionId = some w.session.sessionId ∧ r.original.origin = .human ∧
          r.original.agentId = w.session.agent ∧ r.original.sessionId = w.session.sessionId ∧
          r.original.actingMemberId = some w.session.memberId ∧
          r.original.spokenByMemberId = some w.session.memberId ∧
          r.target.ownerMemberId = w.session.memberId ∧
          codec.authorityPrint w.approval.authority =
            codec.authorityPrint (w.expectedAuthority r.original) ∧
          codec.approvalTargetPrint r.target = codec.approvalTargetPrint w.approval.target ∧
          r.incarnation = w.session.incarnation ∧
          r.admissionHash = codec.admissionPrint w.session.admissionNonce ∧ now < r.expiresAt ∧
          card.usedAt.isSome = claimed then some r
      else none
  | _ => none

/-- What `trackArea` checks then: the binding, the policy, the origin, the member's one area. -/
def rest (r : Reservation) (answer : Answer) : Bool :=
  answer.binding.any (sameBinding r) && answer.policyHash == some r.policyHash &&
    (r.target.approvedOrigin == some "agent".toList ||
      r.target.approvedOrigin == some "synced".toList ||
      r.target.approvedOrigin == some "third_party".toList) && answer.ok

end WriteRequest

/-- One transaction of `trackArea`, up to the row. -/
def trackArea (s : Shared) (w : WriteRequest) (claimed : Bool) (next : Reservation → Request) :
    After :=
  match w.path codec, s.asks w.approval.callId with
  | some _, some card =>
      match w.row codec s.now card claimed with
      | some r => (s, some (next r))
      | none => refuse s
  | _, _ => refuse s

/-- The reads before the claim. -/
def writeBeforeUseStep (s : Shared) (w : WriteRequest) (r : Reservation) (answer : Answer) : After :=
  if WriteRequest.rest r answer ∧ s.now < w.requestDeadline ∧
      w.write.before w.approval.target answer then (s, some (.writeClaim w))
  else refuse s

/-- "Durable one-use claim. A failed commit needs a new approval." -/
def writeClaimUseStep (s : Shared) (w : WriteRequest) (r : Reservation) (answer : Answer) : After :=
  if WriteRequest.rest r answer ∧ s.now < w.requestDeadline then
    claimUpdate s w.approval.callId w.approval.requestId (.writeRead w)
  else refuse s

/-- Up to `files.write`; the expiry was looked at when the row was read. -/
def writeUseStep (s : Shared) (w : WriteRequest) (r : Reservation) (answer : Answer) : After :=
  if WriteRequest.rest r answer ∧ s.now < w.requestDeadline then (s, some (.writeArea w r))
  else refuse s

/-- `files.write` asks for the member's edit grant again. -/
def writeAreaStep (s : Shared) (w : WriteRequest) (r : Reservation) (answer : Answer) : After :=
  if answer.ok then (s, some (.commitFile w r)) else refuse s

/-- `commitFile`, once it has the repository lock, which it may wait for: the grant, the origin and
    the content are looked at again, and no clock. -/
def commitFileStep (s : Shared) (w : WriteRequest) (r : Reservation) (answer : Answer) : After :=
  if answer.ok then
    (s.record (.dispatched ⟨w.approval.callId, w.operation,
      codec.inputPrint w.operation w.input, w.approval.target, r.policyHash, w.path codec, s.now⟩),
      none)
  else refuse s

/-- A Track change in the one shared area; the target is what the card showed. -/
def TRACK_WRITE (trackTargetPath : Text → Input → Target → Option Text) : ApprovedWrite where
  tools := ["track_add_item".toList, "track_move_item".toList, "track_create".toList,
    "track_set_steps".toList]
  targetPath := trackTargetPath
  before := fun target answer => answer.content == target.fingerprint && answer.ok

/-- A new note in the member's own private area; there is none at its path. -/
def NOTE_WRITE (vaultNotePath : Input → Option Text) : ApprovedWrite where
  tools := ["agent-kit__vault_write".toList]
  targetPath := fun _ input target =>
    if target.kind = "vault-note".toList ∧ vaultNotePath input = some target.id then some target.id
    else none
  before := fun target answer => answer.absent && answer.content == target.fingerprint

/-! ## Section 8: Runs -/

/-- One step of a request. -/
def Request.step (s : Shared) (answer : Answer) : Request → After
  | recordAsk requestId callId agent tool payloadHash =>
      recordAskStep s requestId callId agent tool payloadHash
  | recordAnswer requestId outcome => recordAnswerStep s requestId outcome answer
  | reserveExactApproval call => reserveStep codec s call answer
  | reserveCheck call r => reserveCheckStep codec s call r
  | attachExactApproval requestId callId tool input => attachStep codec s requestId callId tool input
  | attachUpdate requestId callId => attachUpdateStep s requestId callId
  | approveExactResponse response => approveStep codec s response
  | approveUpdate response r => approveUpdateStep codec s response r answer
  | settleExactInput requestId outcome => settleStep s requestId outcome answer
  | outsideApprove call session requestDeadline =>
      outsideApproveStep codec s call session requestDeadline
  | outsideClaim call session requestDeadline r requestId =>
      outsideClaimStep codec s call session requestDeadline r requestId answer
  | outsideCustody call session requestDeadline approvedExpiresAt =>
      outsideCustodyStep s call session requestDeadline approvedExpiresAt answer
  | outsideRecheck call session requestDeadline expiresAt =>
      outsideRecheckStep codec s call session requestDeadline expiresAt
  | outsideCapability call session requestDeadline expiresAt r =>
      outsideCapabilityStep codec s call session requestDeadline expiresAt r answer
  | outsideExecute capability call session requestDeadline =>
      outsideExecuteStep codec s capability call session requestDeadline
  | executeCheck resume call session requestDeadline =>
      executeCheckStep codec s resume call session requestDeadline
  | executeCurrent resume call session requestDeadline r =>
      executeCurrentStep codec s resume call session requestDeadline r answer
  | executeLock resume call session requestDeadline target =>
      executeLockStep codec s resume call session requestDeadline target
  | executeDispatch resume call _ requestDeadline target r =>
      executeDispatchStep codec s resume call requestDeadline target r answer
  | writeBefore w => trackArea codec s w false (.writeBeforeUse w)
  | writeBeforeUse w r => writeBeforeUseStep s w r answer
  | writeClaim w => trackArea codec s w false (.writeClaimUse w)
  | writeClaimUse w r => writeClaimUseStep s w r answer
  | writeRead w => trackArea codec s w true (.writeUse w)
  | writeUse w r => writeUseStep s w r answer
  | writeArea w r => writeAreaStep s w r answer
  | commitFile w r => commitFileStep codec s w r answer

/-- The table, the keeper's capabilities and the requests under way, of both processes. -/
structure State where
  shared : Shared
  requests : Nat → Option Request

inductive Label where
  /-- A request comes in. -/
  | call (i : Nat) (request : Request)
  /-- It takes its next step. -/
  | step (i : Nat) (answer : Answer)
  /-- A crash, an error or an answer that is lost. -/
  | crash (i : Nat)
  /-- The clock goes on. -/
  | tick (now : Time)
  /-- A capability that has expired, or went with the keeper's process. -/
  | forget (capability : Text)

namespace State

def next (s : State) : Label → Option State
  | .call i request =>
      if (s.requests i).isSome || !request.starts then none
      else some { s with requests := Function.update s.requests i (some request) }
  | .step i answer =>
      match s.requests i with
      | none => none
      | some request =>
          let after := request.step codec s.shared answer
          some { shared := after.1, requests := Function.update s.requests i after.2 }
  | .crash i => some { s with requests := Function.update s.requests i none }
  | .tick now => some { s with shared := { s.shared with now := now } }
  | .forget capability => some { s with shared := s.shared.setCapability capability none }

end State

/-- No exact card, no capability and no request yet; other approvals may be there. -/
def cards : System State Label where
  init s := (∀ callId row, s.shared.asks callId = some row → row.callId = callId ∧
      ∀ r, row.originalAuthority ≠ some (.exact r)) ∧
    (∀ capability, s.shared.capabilities capability = none) ∧ s.shared.log = [] ∧
    ∀ i, s.requests i = none
  next := State.next codec

end Lares.Approvals.ExactCard
