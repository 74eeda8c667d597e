import Lares.Framework.History
import Lares.Framework.Interleaving
import Lares.Framework.Table
import Lares.Keeper.Wire
import Mathlib

/-! # The model-purpose broker

    A runtime may pay for a model call only for a step of a turn that a person
    has asked for.

    * **Console socket**: a challenge over one request of one member.
    * **Runtime socket**: signed messages. A capsule over a live challenge is
      admitted and yields a pending receipt; a receipt opens a turn; a step of
      the turn is reserved and yields a claim; a claim is consumed for one
      physical request.
    * **Memory**: five maps, all lost with the process and pruned by the
      messages themselves. A turn that is closed takes its claims with it.
    * **Requests** interleave at each `await`. Each reading of the clock may
      be later than the one before it.
-/

namespace Lares.Keeper.ModelPurpose

/-! ## Section 1: Messages -/

def CHALLENGE_MS : Time := 10000
def PENDING_MS : Time := 30000
def TURN_MS : Time := 5 * 60000
def CLAIM_MS : Time := 30000
/-- How long the identity of a message is remembered. -/
def REQUEST_MS : Time := 60000
/-- How far the timestamp of a message may be off. -/
def SKEW_MS : Int := 30000
def MAX_LIVE : Nat := 2048
/-- How many steps a turn may have. -/
def MAX_STEPS : Nat := 64

def POST : Text := ['P', 'O', 'S', 'T']
def human : Text := ['h', 'u', 'm', 'a', 'n']
def resume : Text := ['r', 'e', 's', 'u', 'm', 'e']

def runtimeToKeeper : Text :=
  ['r', 'u', 'n', 't', 'i', 'm', 'e', '-', 't', 'o', '-', 'k', 'e', 'e', 'p', 'e', 'r']
def keeperToConsole : Text :=
  ['k', 'e', 'e', 'p', 'e', 'r', '-', 't', 'o', '-', 'c', 'o', 'n', 's', 'o', 'l', 'e']
def consoleToKeeper : Text :=
  ['c', 'o', 'n', 's', 'o', 'l', 'e', '-', 't', 'o', '-', 'k', 'e', 'e', 'p', 'e', 'r']
def runtimeDomain : Text :=
  ['m', 'o', 'd', 'e', 'l', '-', 'p', 'u', 'r', 'p', 'o', 's', 'e', '-', 'r', 'u', 'n', 't', 'i',
    'm', 'e']
def challengeDomain : Text :=
  ['m', 'o', 'd', 'e', 'l', '-', 'p', 'u', 'r', 'p', 'o', 's', 'e', '-', 'c', 'h', 'a', 'l', 'l',
    'e', 'n', 'g', 'e']
def requestDomain : Text :=
  ['m', 'o', 'd', 'e', 'l', '-', 'p', 'u', 'r', 'p', 'o', 's', 'e', '-', 'r', 'e', 'q', 'u', 'e',
    's', 't']
def challengeOperation : Text :=
  ['r', 'e', 'q', 'u', 'e', 's', 't', '.', 'c', 'h', 'a', 'l', 'l', 'e', 'n', 'g', 'e']
def admitOperation : Text :=
  ['r', 'e', 'q', 'u', 'e', 's', 't', '.', 'a', 'd', 'm', 'i', 't']
def stepStarted : Text :=
  ['s', 't', 'e', 'p', '.', 's', 't', 'a', 'r', 't', 'e', 'd']
def messagesPath : Text :=
  ['/', 'v', '1', '/', 'm', 'e', 's', 's', 'a', 'g', 'e', 's']
def completionsPath : Text :=
  ['/', 'v', '1', '/', 'c', 'h', 'a', 't', '/', 'c', 'o', 'm', 'p', 'l', 'e', 't', 'i', 'o', 'n',
    's']

structure ResumeChoice where
  requestId : Text
  optionId : Text
deriving DecidableEq

structure ModelPurposeRequest where
  agent : Text
  incarnation : Text
  session : Text
  member : Text
  admissionNonce : Text
  method : Text
  path : Text
  /-- Of the request's body, as it came. -/
  rawBodyHash : Text
  policyRevision : Int
  definitionHash : Text
  /-- What the model is asked for. -/
  purpose : Text
  requestId : Text
  /-- Which answer it goes on with. -/
  resume : Option ResumeChoice
deriving DecidableEq

/-- `/^[^\s,;\x00-\x1f\x7f]{1,256}$/` -/
def isMember (s : Text) : Bool :=
  s.all (fun c => !(Lines.isSpace c || c = ',' || c = ';' || c.toNat ≤ 31 || c.toNat = 127)) &&
    decide (0 < Lines.jsLength s) && decide (Lines.jsLength s ≤ 256)

/-- `/eve/v1/session` -/
def sessionRoot : Text := ['/', 'e', 'v', 'e', '/', 'v', '1', '/', 's', 'e', 's', 's', 'i', 'o', 'n']

/-- The session is named, or is yet to be made. -/
def isRequestPath (path : Text) : Bool :=
  path = sessionRoot ||
    ((sessionRoot ++ ['/']).isPrefixOf path && isSession (path.drop (sessionRoot.length + 1)))

def isNonce : Text → Bool := within isUrlSafe 43 43

def isRequestId : Text → Bool := within isUrlSafe 32 64

attribute [local instance] Lines.lawfulText

def requestIsValid (x : ModelPurposeRequest) : Bool :=
  isAgent x.agent && isIncarnation x.incarnation && isSession x.session && isMember x.member &&
    isNonce x.admissionNonce && decide (x.method = POST) && isRequestPath x.path &&
    isDigest x.rawBodyHash && isSafeInteger x.policyRevision && decide (0 < x.policyRevision) &&
    isDigest x.definitionHash && isRequestId x.requestId &&
    (decide (x.purpose = human) && x.resume.isNone ||
      decide (x.purpose = resume) && x.resume.any fun r => r.requestId ≠ [] &&
        r.optionId ∈ [['a', 'p', 'p', 'r', 'o', 'v', 'e'], ['c', 'a', 'n', 'c', 'e', 'l']])

/-- What the console has signed. -/
structure Payload where
  version : Int
  request : ModelPurposeRequest
  requestDigest : Text
  challenge : Text
  challengeMac : Text
  expiresAt : Time
deriving DecidableEq

structure ModelPurposeReceipt where
  method : Text
  path : Text
  rawBodyHash : Text
  requestId : Text
  purpose : Text
  resume : Option ResumeChoice
deriving DecidableEq

/-- The input of `turn.open`; the admission is that of the context. -/
structure TurnOpen where
  pendingReceipt : Text
  sessionId : Text
  turnId : Text
  sequence : Int
  admission : Option (Text × Text)
deriving DecidableEq

/-- The data of a `step.started`. -/
structure StepEvent where
  turnId : Text
  sequence : Int
  stepIndex : Int
deriving DecidableEq

/-- What is signed with a step. -/
structure StepInput where
  type : Text
  data : StepEvent
deriving DecidableEq

structure GatewayModelRequestIdentity where
  method : Text
  path : Text
  requestHash : Text
deriving DecidableEq

inductive Operation where
  /-- A request of the console is presented. -/
  | requestAdmit (capsule : Text) (receipt : ModelPurposeReceipt)
  /-- A turn is to be opened. -/
  | turnOpen (args : TurnOpen)
  /-- A step of it asks for its claim. -/
  | stepClaim (turnCapability purposeAlias : Text) (event : StepInput)
  /-- A claim is presented for a request. -/
  | stepConsume (claim : Text) (request : GatewayModelRequestIdentity)
  /-- A turn is over. -/
  | turnClose (turnCapability turnId : Text) (sequence : Int)
  /-- An operation that leaves the maps alone. -/
  | other
deriving DecidableEq

structure RuntimeEnvelope where
  agent : Text
  incarnation : Text
  requestId : Text
  timestamp : Int
  op : Operation
  /-- Of what came of it; empty in a request. -/
  outcomeDigest : Text
  /-- Of what is sent along. -/
  payloadDigest : Text
  /-- With the key of the agent. -/
  mac : Text
deriving DecidableEq

structure ModelPurposeMacFields where
  direction : Text
  domain : Text
  agent : Text
  incarnation : Text
  operation : Text
  requestId : Text
  requestDigest : Text
  outcomeDigest : Text
  payloadDigest : Text
deriving DecidableEq

/-- What `modelPurposeDigest` is taken of. -/
inductive Digested where
  | empty
  | request (request : ModelPurposeRequest)
  | challenge (challenge : Text) (expiresAt : Time) (requestDigest : Text)
  | payload (payload : Payload)
  | envelope (m : RuntimeEnvelope)
  | step (event : StepInput)
  | consume (claim : Text) (request : GatewayModelRequestIdentity)
deriving DecidableEq

/-- What the broker uses of its surroundings. -/
structure Primitives where
  signingKey : Text
  /-- Whether there is a store that prepares the intent to pay. -/
  purposeStore : Bool
  modelPurposeDigest : Digested → Text
  /-- `modelPurposeMac` -/
  mac : Text → ModelPurposeMacFields → Bytes
  /-- `Buffer.from(text, 'base64url')` -/
  base64url : Text → Bytes
  /-- `JSON.parse`, where it gives a payload. -/
  parse : Bytes → Option Payload
  /-- The name of an operation on the wire. -/
  opName : Operation → Text

/-- The resume choice of a budget authority, and whom it binds. -/
structure BudgetAuthorityReference where
  kind : Text
  resume : Option ResumeChoice
  turnId : Text
  turnSequence : Int
  agent : Text
  incarnation : Text
  sessionId : Text
  memberId : Text
  admissionNonce : Text
deriving DecidableEq

/-! ## Section 2: Memory -/

structure Challenge where
  challenge : Text
  request : ModelPurposeRequest
  digest : Text
  expiresAt : Time
deriving DecidableEq

structure Pending where
  receipt : Text
  request : ModelPurposeRequest
  digest : Text
  expiresAt : Time
deriving DecidableEq

/-- The part of a turn that does not change. -/
structure Turn where
  capability : Text
  request : ModelPurposeRequest
  reference : BudgetAuthorityReference
  turnId : Text
  sequence : Int
  definitionHash : Text
  purposeAlias : Text
  expiresAt : Time
deriving DecidableEq

/-- A turn in the map, with the steps it knows. -/
structure LiveTurn where
  turn : Turn
  steps : List StepEvent
deriving DecidableEq

def LiveTurn.capability (row : LiveTurn) : Text := row.turn.capability

structure Claim where
  /-- Presented once. -/
  token : Text
  turn : Turn
  /-- The step it is for. -/
  event : StepEvent
  purposeAlias : Text
  /-- Until when. -/
  expiresAt : Time
deriving DecidableEq

/-- An entry of `requests`. -/
structure Seen where
  requestId : Text
  expiresAt : Time
deriving DecidableEq

/-- What has been done, for the record. -/
inductive Event where
  /-- A message of the runtime is accepted, and remembered up to a time. -/
  | accepted (requestId : Text) (time expiresAt : Time)
  /-- A challenge is given out. -/
  | challenged (challenge : Challenge)
  /-- A challenge is gone for nothing. -/
  | spent (challenge : Text)
  /-- A capsule is accepted. -/
  | admitted (capsule : Text) (payload : Payload) (time : Time)
  /-- A receipt for it is given out. -/
  | received (pending : Pending) (challenge : Text)
  /-- A receipt is taken. -/
  | receiptConsumed (receipt : Text)
  /-- A turn is opened for a receipt. -/
  | opened (turn : Turn) (receipt : Text)
  /-- A step of a turn is taken. -/
  | reserved (turn : Turn) (event : StepEvent)
  /-- A claim for it is given out. -/
  | claimed (claim : Claim) (authorityDeadline : Option Time)
  /-- A claim is taken. -/
  | consumed (claim : Claim) (time : Time)
  /-- A consumed claim is found to be good. -/
  | resolved (claim : Claim) (time : Time)
  /-- The runtime gets the right to one physical request. -/
  | prepared (claim : Claim) (time : Time)
  /-- A turn is closed. -/
  | closed (turnCapability : Text)
deriving DecidableEq

/-- What is for one use. -/
inductive Token where
  /-- For one capsule. -/
  | challenge (challenge : Text)
  /-- For one turn. -/
  | receipt (receipt : Text)
  /-- For as long as the turn is open. -/
  | turn (turnCapability : Text)
  /-- For one claim. -/
  | step (turnCapability : Text) (event : StepEvent)
  /-- For one physical request. -/
  | claim (token : Text)
deriving DecidableEq

def Event.gives : Event → Option Token
  | .challenged c => some (.challenge c.challenge)
  | .received p _ => some (.receipt p.receipt)
  | .opened t _ => some (.turn t.capability)
  | .reserved t event => some (.step t.capability event)
  | .claimed c _ => some (.claim c.token)
  | .accepted _ _ _ => none
  | .spent _ => none
  | .admitted _ _ _ => none
  | .receiptConsumed _ => none
  | .consumed _ _ => none
  | .resolved _ _ => none
  | .prepared _ _ => none
  | .closed _ => none

/-- A step is taken as it is reserved. -/
def Event.takes : Event → Option Token
  | .spent challenge => some (.challenge challenge)
  | .admitted _ payload _ => some (.challenge payload.challenge)
  | .receiptConsumed receipt => some (.receipt receipt)
  | .reserved t event => some (.step t.capability event)
  | .consumed c _ => some (.claim c.token)
  | .closed cap => some (.turn cap)
  | .accepted _ _ _ => none
  | .challenged _ => none
  | .received _ _ => none
  | .opened _ _ => none
  | .claimed _ _ => none
  | .resolved _ _ => none
  | .prepared _ _ => none

/-- A receipt comes from a challenge, a turn from a receipt, a claim from a step, a call from a
    claim. -/
def Event.uses : Event → Option Token
  | .received _ challenge => some (.challenge challenge)
  | .opened _ receipt => some (.receipt receipt)
  | .claimed c _ => some (.step c.turn.capability c.event)
  | .prepared c _ => some (.claim c.token)
  | .accepted _ _ _ => none
  | .challenged _ => none
  | .spent _ => none
  | .admitted _ _ _ => none
  | .receiptConsumed _ => none
  | .reserved _ _ => none
  | .consumed _ _ => none
  | .resolved _ _ => none
  | .closed _ => none

def tokens : Tokens Event Token := ⟨Event.gives, Event.takes, Event.uses⟩

structure Broker where
  now : Time
  /-- The challenges given out. -/
  challenges : Table Challenge.challenge
  /-- The receipts that no turn has consumed. -/
  pending : Table Pending.receipt
  /-- The turns, with the steps they have reserved. -/
  turns : Table LiveTurn.capability
  /-- The claims that were not consumed. -/
  claims : Table Claim.token
  /-- The messages of the runtime that are remembered. -/
  requests : Table Seen.requestId
  /-- The turns whose flag `closed` is set. -/
  closedTurns : List Text
  log : List Event

namespace Broker

/-- `turn.steps.add(event.key)`, which shows where the turn is still in the map. -/
def addStep (turns : Table LiveTurn.capability) (cap : Text) (event : StepEvent) :
    Table LiveTurn.capability :=
  (turns.find? cap).elim turns fun row => turns.put { row with steps := event :: row.steps }

/-- What an event does to the maps. -/
def apply (b : Broker) : Event → Broker
  | .accepted requestId _ expiresAt =>
      { b with requests := b.requests.set ⟨requestId, expiresAt⟩ }
  | .challenged c => { b with challenges := b.challenges.set c }
  | .spent challenge => { b with challenges := b.challenges.erase challenge }
  | .admitted _ payload _ => { b with challenges := b.challenges.erase payload.challenge }
  | .received p _ => { b with pending := b.pending.set p }
  | .receiptConsumed receipt => { b with pending := b.pending.erase receipt }
  | .opened t _ => { b with turns := b.turns.set ⟨t, []⟩ }
  | .reserved t event => { b with turns := addStep b.turns t.capability event }
  | .claimed c _ => { b with claims := b.claims.set c }
  | .consumed c _ => { b with claims := b.claims.erase c.token }
  | .resolved _ _ => b
  | .prepared _ _ => b
  | .closed cap =>
      { b with
        turns := b.turns.erase cap
        claims := b.claims.keep fun c => c.turn.capability ≠ cap
        closedTurns := cap :: b.closedTurns }

/-- The event happens. -/
def record (b : Broker) (e : Event) : Broker := { b.apply e with log := b.log ++ [e] }

/-- Time between two readings of the clock. -/
def pass (b : Broker) (ms : Time) : Broker := { b with now := b.now + ms }

/-- `turnsHas` -/
def turnsHas (b : Broker) (t : Turn) : Bool := (b.turns.find? t.capability).isSome

def liveTurns (b : Broker) : Table LiveTurn.capability :=
  b.turns.keep fun row =>
    decide (b.now < row.turn.expiresAt) && decide (row.capability ∉ b.closedTurns)

/-- The maps without what is over. -/
def pruned (b : Broker) : Broker :=
  { b with
    challenges := b.challenges.keep fun c => decide (b.now < c.expiresAt)
    pending := b.pending.keep fun p => decide (b.now < p.expiresAt)
    turns := b.liveTurns
    claims := b.claims.keep fun c =>
      decide (b.now < c.expiresAt) && (b.liveTurns.find? c.turn.capability).isSome
    requests := b.requests.keep fun r => decide (b.now < r.expiresAt) }

/-- `prune`, which reads the clock first. -/
def prune (b : Broker) (ms : Time) : Broker := (b.pass ms).pruned

/-- `randomBytes` has not given this before. -/
def isNew (b : Broker) (token : Token) : Bool := decide (token ∉ tokens.given b.log)

end Broker

/-- `map.size>=this.maximum` -/
def full {ρ : Type} {key : ρ → Text} (map : Table key) : Bool := decide (MAX_LIVE ≤ map.rows.length)

/-! ## Section 3: The console socket -/

/-- What a request waits for. -/
inductive Request where
  /-- A request of the console comes in. -/
  | console (request : ModelPurposeRequest)
  /-- For the session binding and the definition. -/
  | challenging (request : ModelPurposeRequest)
  /-- A message of the runtime comes in. -/
  | runtime (m : RuntimeEnvelope)
  /-- For the key file of the agent. -/
  | identified (m : RuntimeEnvelope)
  /-- For the binding of a capsule. -/
  | admitting (payload : Payload)
  /-- For the binding of a turn. -/
  | opening (pending : Pending) (args : TurnOpen)
  /-- For the authority of a step. -/
  | claiming (turn : Turn) (event : StepEvent)
  /-- For the intent to pay. -/
  | preparing (claim : Claim)
deriving DecidableEq

/-- The time that passes before the `i`-th reading of the clock. -/
def wait (ms : List Time) (i : Nat) : Time := ms.getD i 0

section Sockets

variable (p : Primitives)

/-- `consoleHandle`, up to its transaction. -/
def consoleHandle (request : ModelPurposeRequest) : Option Request :=
  if requestIsValid request then some (.challenging request) else none

/-- `challenge` -/
def challenge (b : Broker) (request : ModelPurposeRequest) (random : Text) (ms : List Time) :
    Broker :=
  if full (b.prune (wait ms 0)).challenges then b.prune (wait ms 0)
  else
    ((b.prune (wait ms 0)).pass (wait ms 1)).record (.challenged
      ⟨random, request, p.modelPurposeDigest (.request request),
        b.now + wait ms 0 + wait ms 1 + CHALLENGE_MS⟩)

/-! ## Section 4: The runtime socket -/

def EMPTY_DIGEST : Text := p.modelPurposeDigest .empty

/-- `modelPurposeRuntimeRequestFields` -/
def modelPurposeRuntimeRequestFields (m : RuntimeEnvelope) : ModelPurposeMacFields where
  direction := runtimeToKeeper
  domain := runtimeDomain
  agent := m.agent
  incarnation := m.incarnation
  operation := p.opName m.op
  requestId := m.requestId
  requestDigest := p.modelPurposeDigest (.envelope { m with mac := [] })
  outcomeDigest := m.outcomeDigest
  payloadDigest := m.payloadDigest

/-- `modelPurposeChallengeFields` -/
def modelPurposeChallengeFields (request : ModelPurposeRequest) (requestDigest challenge : Text)
    (expiresAt : Time) : ModelPurposeMacFields where
  direction := keeperToConsole
  domain := challengeDomain
  agent := request.agent
  incarnation := request.incarnation
  operation := challengeOperation
  requestId := request.requestId
  requestDigest := requestDigest
  outcomeDigest := EMPTY_DIGEST p
  payloadDigest := p.modelPurposeDigest (.challenge challenge expiresAt requestDigest)

/-- `modelPurposeConsoleRequestFields` -/
def modelPurposeConsoleRequestFields (payload : Payload) : ModelPurposeMacFields where
  direction := consoleToKeeper
  domain := requestDomain
  agent := payload.request.agent
  incarnation := payload.request.incarnation
  operation := admitOperation
  requestId := payload.request.requestId
  requestDigest := payload.requestDigest
  outcomeDigest := EMPTY_DIGEST p
  payloadDigest := p.modelPurposeDigest (.payload payload)

/-- `modelPurposeEqualMac` -/
def modelPurposeEqualMac (given : Text) (expected : Bytes) : Bool :=
  isNonce given && decide (p.base64url given = expected)

/-- The checks of `runtimeFields`. -/
def wellFormed (m : RuntimeEnvelope) : Bool :=
  isAgent m.agent && isIncarnation m.incarnation && isRequestId m.requestId &&
    isDigest m.outcomeDigest && isDigest m.payloadDigest

/-- The signature over a message. -/
def signed (key : Text) (m : RuntimeEnvelope) : Bool :=
  modelPurposeEqualMac p m.mac (p.mac key (modelPurposeRuntimeRequestFields p m))

def fresh (m : RuntimeEnvelope) (now : Time) : Bool :=
  isSafeInteger m.timestamp && decide (((now : Int) - m.timestamp).natAbs ≤ SKEW_MS)

/-- A capsule that the console has signed, over a challenge that the keeper has signed. -/
def sealed (capsule : Text) (payload : Payload) : Bool :=
  match capsule.splitOn '.' with
  | [body, mac] =>
      decide (Lines.jsLength capsule ≤ 12000) && decide (body ≠ []) && body.all isUrlSafe &&
        decide (p.parse (p.base64url body) = some payload) &&
        modelPurposeEqualMac p mac
          (p.mac p.signingKey (modelPurposeConsoleRequestFields p payload)) &&
        modelPurposeEqualMac p payload.challengeMac
          (p.mac p.signingKey (modelPurposeChallengeFields p payload.request payload.requestDigest
            payload.challenge payload.expiresAt))
  | _ => false

/-- The payload of a capsule, where its signatures are right. -/
def openCapsule (capsule : Text) : Option Payload :=
  match capsule.splitOn '.' with
  | [body, _] => (p.parse (p.base64url body)).filter (sealed p capsule)
  | _ => none

def matchesReceipt (request : ModelPurposeRequest) (r : ModelPurposeReceipt) : Bool :=
  decide (r.method = request.method) && decide (r.path = request.path) &&
    decide (r.rawBodyHash = request.rawBodyHash) && decide (r.requestId = request.requestId) &&
    decide (r.purpose = request.purpose) && decide (r.resume = request.resume)

/-- `verifySignedRequest`, up to `consumeChallenge`. -/
def verified (m : RuntimeEnvelope) (receipt : ModelPurposeReceipt) (payload : Payload)
    (now : Time) : Bool :=
  decide (payload.version = 1) && requestIsValid payload.request &&
    decide (payload.request.agent = m.agent) &&
    decide (payload.request.incarnation = m.incarnation) &&
    decide (payload.requestDigest = p.modelPurposeDigest (.request payload.request)) &&
    decide (now < payload.expiresAt) && matchesReceipt payload.request receipt

/-- The conditions of `consumeChallenge`, and that the challenge is as old as it says. -/
def Challenge.admits (c : Challenge) (payload : Payload) (now : Time) : Bool :=
  decide (now < c.expiresAt) && decide (c.digest = payload.requestDigest) &&
    decide (c.request = payload.request) && decide (c.expiresAt = payload.expiresAt)

/-- `request.admit` -/
def requestAdmit (b : Broker) (m : RuntimeEnvelope) (capsule : Text)
    (receipt : ModelPurposeReceipt) (ms : List Time) : Broker × Option Request :=
  match openCapsule p capsule with
  | none => (b, none)
  | some payload =>
      if verified p m receipt payload (b.now + wait ms 0) then
        match (b.prune (wait ms 0 + wait ms 1)).challenges.find? payload.challenge with
        | none => (b.prune (wait ms 0 + wait ms 1), none)
        | some c =>
            if c.admits payload (b.now + (wait ms 0 + wait ms 1) + wait ms 2) then
              (((b.prune (wait ms 0 + wait ms 1)).pass (wait ms 2)).record (.admitted capsule payload
                (b.now + (wait ms 0 + wait ms 1) + wait ms 2)), some (.admitting payload))
            else
              (((b.prune (wait ms 0 + wait ms 1)).pass (wait ms 2)).record
                (.spent payload.challenge), none)
      else (b.pass (wait ms 0), none)

/-- `pendingReceipt` -/
def pendingReceipt (b : Broker) (payload : Payload) (random : Text) (ms : List Time) : Broker :=
  if full (b.prune (wait ms 0)).pending then b.prune (wait ms 0)
  else
    ((b.prune (wait ms 0)).pass (wait ms 1)).record (.received
      ⟨random, payload.request, payload.requestDigest,
        b.now + wait ms 0 + wait ms 1 + PENDING_MS⟩ payload.challenge)

def isTurnId (turnId : Text) : Bool := turnId = [] || within isTurnIdChar 1 128 turnId

def isSequence (n : Int) : Bool := isSafeInteger n && decide (0 ≤ n)

/-- `parseContext`, and the form of the receipt. -/
def TurnOpen.wellFormed (args : TurnOpen) : Bool :=
  isNonce args.pendingReceipt && isSession args.sessionId && isTurnId args.turnId &&
    isSequence args.sequence

def Pending.belongsTo (x : Pending) (m : RuntimeEnvelope) (args : TurnOpen) : Bool :=
  decide (x.request.agent = m.agent) && decide (x.request.incarnation = m.incarnation) &&
    decide (x.request.session = args.sessionId) &&
    decide (args.admission = some (x.request.member, x.request.admissionNonce))

/-- `turn.open`, up to its transaction. -/
def turnOpen (b : Broker) (m : RuntimeEnvelope) (args : TurnOpen) (ms : List Time) :
    Broker × Option Request :=
  if !args.wellFormed || args.admission.isNone then (b, none)
  else
    match (b.prune (wait ms 0)).pending.find? args.pendingReceipt with
    | none => (b.prune (wait ms 0), none)
    | some x =>
        if decide (b.now + wait ms 0 + wait ms 1 < x.expiresAt) && x.belongsTo m args &&
            !(decide (x.request.purpose = human) && decide (args.turnId = [])) then
          (((b.prune (wait ms 0)).pass (wait ms 1)).record (.receiptConsumed args.pendingReceipt),
            some (.opening x args))
        else
          (((b.prune (wait ms 0)).pass (wait ms 1)).record (.receiptConsumed args.pendingReceipt),
            none)

/-- `resumeMatches` -/
def resumeMatches (request : ModelPurposeRequest) (reference : BudgetAuthorityReference) : Bool :=
  if request.purpose = resume then
    decide (reference.kind = resume) && decide (reference.resume = request.resume)
  else decide (reference.kind = human)

/-- The reference binds whom the request names. -/
def BudgetAuthorityReference.binds (reference : BudgetAuthorityReference)
    (request : ModelPurposeRequest) : Bool :=
  decide (reference.agent = request.agent) && decide (reference.incarnation = request.incarnation) &&
    decide (reference.sessionId = request.session) &&
    decide (reference.memberId = request.member) &&
    decide (reference.admissionNonce = request.admissionNonce)

/-- `/^[a-z][a-z0-9-]{1,63}$/` -/
def isAlias : Text → Bool
  | [] => false
  | first :: rest => first.isLower && within (fun c => c.isLower || c.isDigit || c = '-') 1 63 rest

/-- The checks of `registerTurn`. -/
def registers (x : Pending) (args : TurnOpen) (reference : BudgetAuthorityReference)
    (purposeAlias : Text) : Bool :=
  resumeMatches x.request reference && decide (reference.turnId = args.turnId) &&
    decide (reference.turnSequence = args.sequence) && isAlias purposeAlias

/-- The rest of the transaction of `turn.open`, and `registerTurn`. -/
def registerTurn (b : Broker) (x : Pending) (args : TurnOpen)
    (reference : BudgetAuthorityReference) (purposeAlias random : Text) (ms : List Time) : Broker :=
  if !reference.binds x.request || !resumeMatches x.request reference then b
  else if full (b.prune (wait ms 0)).turns || !registers x args reference purposeAlias then
    b.prune (wait ms 0)
  else
    ((b.prune (wait ms 0)).pass (wait ms 1)).record (.opened
      ⟨random, x.request, reference, args.turnId, args.sequence, x.request.definitionHash,
        purposeAlias, b.now + wait ms 0 + wait ms 1 + TURN_MS⟩ args.pendingReceipt)

/-- `stepEvent` -/
def StepInput.wellFormed (event : StepInput) : Bool :=
  decide (event.type = stepStarted) && isTurnId event.data.turnId &&
    isSequence event.data.sequence && isSequence event.data.stepIndex

/-- The turn may have the step. -/
def LiveTurn.admits (row : LiveTurn) (b : Broker) (m : RuntimeEnvelope) (purposeAlias : Text)
    (event : StepInput) : Bool :=
  event.wellFormed && decide (row.capability ∉ b.closedTurns) &&
    decide (b.now < row.turn.expiresAt) && decide (row.turn.request.agent = m.agent) &&
    decide (row.turn.request.incarnation = m.incarnation) &&
    decide (row.turn.turnId = event.data.turnId) &&
    decide (row.turn.sequence = event.data.sequence) &&
    decide (row.turn.purposeAlias = purposeAlias) && decide (row.steps.length < MAX_STEPS) &&
    decide (event.data ∉ row.steps)

/-- `step.claim`, up to its transaction: "Reserve synchronously before the source-authority
    transaction can await." -/
def reserveStep (b : Broker) (m : RuntimeEnvelope) (cap purposeAlias : Text) (event : StepInput)
    (ms : List Time) : Broker × Option Request :=
  if !isNonce cap || m.outcomeDigest ≠ EMPTY_DIGEST p ||
      m.payloadDigest ≠ p.modelPurposeDigest (.step event) then (b, none)
  else
    match (b.prune (wait ms 0)).turns.find? cap with
    | none => (b.prune (wait ms 0), none)
    | some row =>
        if row.admits ((b.prune (wait ms 0)).pass (wait ms 1)) m purposeAlias event then
          if full (((b.prune (wait ms 0)).pass (wait ms 1)).prune (wait ms 2)).claims then
            (((b.prune (wait ms 0)).pass (wait ms 1)).prune (wait ms 2), none)
          else
            ((((b.prune (wait ms 0)).pass (wait ms 1)).prune (wait ms 2)).record
              (.reserved row.turn event.data), some (.claiming row.turn event.data))
        else ((b.prune (wait ms 0)).pass (wait ms 1), none)

/-- The turn still stands. -/
def Broker.stands (b : Broker) (t : Turn) : Bool :=
  decide (t.capability ∉ b.closedTurns) && decide (b.now < t.expiresAt) && b.turnsHas t

/-- The earliest of three times. -/
def claimExpiry (t : Turn) (now : Time) (authorityDeadline : Option Time) : Time :=
  match authorityDeadline with
  | some deadline => min (min t.expiresAt (now + CLAIM_MS)) deadline
  | none => min t.expiresAt (now + CLAIM_MS)

/-- `finishStep` -/
def finishStep (b : Broker) (t : Turn) (event : StepEvent) (purposeAlias : Text)
    (authorityDeadline : Option Time) (random : Text) (ms : List Time) : Broker :=
  if purposeAlias ≠ t.purposeAlias then b
  else if ((b.prune (wait ms 0)).pass (wait ms 1)).stands t &&
      authorityDeadline.all (fun deadline => decide (b.now + wait ms 0 + wait ms 1 < deadline)) then
    if full (((b.prune (wait ms 0)).pass (wait ms 1)).prune (wait ms 2)).claims then
      ((b.prune (wait ms 0)).pass (wait ms 1)).prune (wait ms 2)
    else
      (((b.prune (wait ms 0)).pass (wait ms 1)).prune (wait ms 2)).record (.claimed
        ⟨random, t, event, t.purposeAlias,
          claimExpiry t (b.now + wait ms 0 + wait ms 1) authorityDeadline⟩ authorityDeadline)
  else (b.prune (wait ms 0)).pass (wait ms 1)

/-- `/v1/messages` and `/v1/chat/completions` -/
def isModelPath (path : Text) : Bool :=
  path = messagesPath || path = completionsPath

/-- The claim may be consumed; the clock is read for the turn, and again for the claim. -/
def Claim.yields (c : Claim) (b : Broker) (m : RuntimeEnvelope)
    (request : GatewayModelRequestIdentity) (ms : Time) : Bool :=
  b.stands c.turn && decide (b.now + ms < c.expiresAt) &&
    decide (c.turn.request.agent = m.agent) &&
    decide (c.turn.request.incarnation = m.incarnation) && decide (request.method = POST) &&
    isDigest request.requestHash && isModelPath request.path

/-- `step.consume`, up to the store: "The claim is irreversibly consumed synchronously, before
    source or financial I/O." -/
def reserveClaimConsumption (b : Broker) (m : RuntimeEnvelope) (token : Text)
    (request : GatewayModelRequestIdentity) (ms : List Time) : Broker × Option Request :=
  if !isNonce token || m.outcomeDigest ≠ EMPTY_DIGEST p ||
      m.payloadDigest ≠ p.modelPurposeDigest (.consume token request) then (b, none)
  else
    match (b.prune (wait ms 0)).claims.find? token with
    | none => (b.prune (wait ms 0), none)
    | some c =>
        if c.yields ((b.prune (wait ms 0)).pass (wait ms 1)) m request (wait ms 2) then
          ((((b.prune (wait ms 0)).pass (wait ms 1)).pass (wait ms 2)).record
              (.consumed c (b.now + wait ms 0 + wait ms 1 + wait ms 2)),
            if p.purposeStore then some (.preparing c) else none)
        else (((b.prune (wait ms 0)).pass (wait ms 1)).pass (wait ms 2), none)

/-- `resolveConsumedClaim` and `isActive`; the latter reads the clock twice. -/
def Broker.resolves (b : Broker) (c : Claim) (ms : Time) : Bool :=
  b.stands c.turn && decide (b.now + ms < c.expiresAt)

def resolveConsumedClaim (b : Broker) (c : Claim) (ms : List Time) : Broker :=
  if (b.pass (wait ms 0)).resolves c (wait ms 1) then
    ((b.pass (wait ms 0)).pass (wait ms 1)).record
      (.resolved c (b.now + wait ms 0 + wait ms 1))
  else (b.pass (wait ms 0)).pass (wait ms 1)

/-- `step.consume`, after `prepareModelPurposeIntent`. -/
def prepare (b : Broker) (c : Claim) (expiresAt : Time) (ms : List Time) : Broker :=
  if expiresAt ≤ b.now + wait ms 0 then b.pass (wait ms 0)
  else if ((b.pass (wait ms 0)).pass (wait ms 1)).resolves c 0 then
    ((b.pass (wait ms 0)).pass (wait ms 1)).record
      (.prepared c (b.now + wait ms 0 + wait ms 1))
  else (b.pass (wait ms 0)).pass (wait ms 1)

/-- `turn.close` -/
def closeTurn (b : Broker) (m : RuntimeEnvelope) (cap turnId : Text) (sequence : Int)
    (ms : List Time) : Broker :=
  match (b.prune (wait ms 0)).turns.find? cap with
  | none => b.prune (wait ms 0)
  | some row =>
      if decide (cap ∉ b.closedTurns) &&
          decide (b.now + wait ms 0 + wait ms 1 < row.turn.expiresAt) &&
          decide (row.turn.request.agent = m.agent) &&
          decide (row.turn.request.incarnation = m.incarnation) &&
          decide (row.turn.turnId = turnId) && decide (row.turn.sequence = sequence) then
        ((b.prune (wait ms 0)).pass (wait ms 1)).record (.closed cap)
      else (b.prune (wait ms 0)).pass (wait ms 1)

/-- `runtimeHandle`, after the message was accepted and up to the next `await`. -/
def perform (b : Broker) (m : RuntimeEnvelope) (ms : List Time) : Broker × Option Request :=
  match m.op with
  | .requestAdmit capsule receipt => requestAdmit p b m capsule receipt ms
  | .turnOpen args => turnOpen b m args ms
  | .stepClaim cap purposeAlias event => reserveStep p b m cap purposeAlias event ms
  | .stepConsume claim request => reserveClaimConsumption p b m claim request ms
  | .turnClose cap turnId sequence => (closeTurn b m cap turnId sequence ms, none)
  | .other => (b, none)

/-- The clock is read for the timestamp, for the expiry of the record, and by `prune`. -/
structure Readings where
  stamp : Time
  expiry : Time
  prune : Time
  rest : List Time
deriving DecidableEq

/-- `burnRequest` takes the message: it is signed, fresh, not on record, and there is room. -/
def burns (b : Broker) (m : RuntimeEnvelope) (key : Text) (ms : Readings) : Bool :=
  signed p key m && fresh m (b.now + ms.stamp) &&
    ((b.prune (ms.stamp + ms.expiry + ms.prune)).requests.find? m.requestId).isNone &&
    !full (b.prune (ms.stamp + ms.expiry + ms.prune)).requests

/-- The message is remembered from the second reading on. -/
def burned (b : Broker) (m : RuntimeEnvelope) (ms : Readings) : Broker :=
  (b.prune (ms.stamp + ms.expiry + ms.prune)).record
    (.accepted m.requestId (b.now + (ms.stamp + ms.expiry + ms.prune))
      (b.now + ms.stamp + ms.expiry + REQUEST_MS))

/-- `runtimeHandle`, from the key file to the next `await`. -/
def checkSignature (b : Broker) (m : RuntimeEnvelope) (key : Text) (aborted : Bool)
    (ms : Readings) : Broker × Option Request :=
  if burns p b m key ms then
    if aborted then (burned b m ms, none) else perform p (burned b m ms) m ms.rest
  else if signed p key m && fresh m (b.now + ms.stamp) then
    (b.prune (ms.stamp + ms.expiry + ms.prune), none)
  else (b.pass ms.stamp, none)

/-! ## Section 5: The broker -/

/-- What an `await` brings, and how long the clock takes meanwhile. -/
inductive Answer where
  /-- Nothing was waited for. -/
  | line
  /-- The session is bound, the definition is current, and the next random bytes. -/
  | current (random : Text) (ms : List Time)
  /-- The key file, and whether the client has gone. -/
  | keyFile (key : Text) (aborted : Bool) (ms : Readings)
  | captured (reference : BudgetAuthorityReference) (purposeAlias random : Text) (ms : List Time)
  /-- The reference is valid, perhaps up to a time. -/
  | validated (purposeAlias : Text) (authorityDeadline : Option Time) (random : Text)
      (ms : List Time)
  /-- The store asks whether the claim is still good. -/
  | asks (ms : List Time)
  | intent (expiresAt : Time) (ms : List Time)
deriving DecidableEq

def step (b : Broker) : Request → Answer → Option (Broker × Option Request)
  | .console request, .line => some (b, consoleHandle request)
  | .challenging request, .current random ms =>
      if b.isNew (.challenge random) then some (challenge p b request random ms, none) else none
  | .runtime m, .line => some (b, if wellFormed m then some (.identified m) else none)
  | .identified m, .keyFile key aborted ms => some (checkSignature p b m key aborted ms)
  | .admitting payload, .current random ms =>
      if b.isNew (.receipt random) then some (pendingReceipt b payload random ms, none) else none
  | .opening x args, .captured reference purposeAlias random ms =>
      if b.isNew (.turn random) then
        some (registerTurn b x args reference purposeAlias random ms, none)
      else none
  | .claiming t event, .validated purposeAlias authorityDeadline random ms =>
      if b.isNew (.claim random) then
        some (finishStep b t event purposeAlias authorityDeadline random ms, none)
      else none
  | .preparing c, .asks ms => some (resolveConsumedClaim b c ms, some (.preparing c))
  | .preparing c, .intent expiresAt ms => some (prepare b c expiresAt ms, none)
  | _, _ => none

/-- A line arrives. -/
def begins : Request → Bool
  | .console _ => true
  | .runtime _ => true
  | .challenging _ => false
  | .identified _ => false
  | .admitting _ => false
  | .opening _ _ => false
  | .claiming _ _ => false
  | .preparing _ => false

/-- Time passes. -/
def broker : Requests Broker Request Answer Time where
  begins _ req := begins req
  step := step p
  happens b ms := some (b.pass ms)

/-- The process has just started. -/
def Started (b : Broker) : Prop :=
  b.challenges.rows = [] ∧ b.pending.rows = [] ∧ b.turns.rows = [] ∧ b.claims.rows = [] ∧
    b.requests.rows = [] ∧ b.closedTurns = [] ∧ b.log = []

end Sockets

end Lares.Keeper.ModelPurpose
