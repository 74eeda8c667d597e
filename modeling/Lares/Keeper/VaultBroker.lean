import Lares.Framework.History
import Lares.Framework.Interleaving
import Lares.Framework.Table
import Lares.Keeper.Wire
import Mathlib

/-! # The vault broker of the console

    The console proves to the keeper that a person is there, and a runtime acts
    on the proof.

    * **Console socket**: a challenge over one request of one member.
    * **Runtime socket**: signed requests. A capsule over a live challenge is
      admitted and yields a pending receipt; a receipt opens a turn; a turn
      reads the vault until it is closed or expires. Beside these, an approval
      yields a capability for one call to the outside.
    * **Memory**: five maps, all lost with the process. The maps are pruned by
      the requests themselves.
    * **Requests** interleave at each `await`. Between two of them the clock may
      still move on, and whatever fails only ends its own request.
-/

namespace Lares.Keeper

/-! ## Section 1: Messages -/

def CHALLENGE_MS : Time := 10000
def PENDING_MS : Time := 30000
def TURN_MS : Time := 5 * 60000
def MAX_LIVE : Nat := 4096
/-- How far the timestamp of a request may be off. -/
def SKEW_MS : Int := 30000
/-- How long the identity of a request is remembered. -/
def REQUEST_MS : Time := 60000
/-- How long an approved call to the outside may wait. -/
def RESUME_MS : Time := 60000

/-- `/eve/v1/session/` -/
def sessionPath : Text :=
  ['/', 'e', 'v', 'e', '/', 'v', '1', '/', 's', 'e', 's', 's', 'i', 'o', 'n', '/']

structure Input where
  agent : Text
  incarnation : Text
  session : Text
  member : Text
  /-- Of the member's admission to the session. -/
  admissionNonce : Text
  method : Text
  path : Text
  /-- Of the request's body, as it came. -/
  rawBodyHash : Text
  /-- The policy it was made under. -/
  policyRevision : Int
  /-- Of the agent's definition then. -/
  definitionHash : Text
deriving DecidableEq

def isInput (x : Input) : Bool :=
  isAgent x.agent && isIncarnation x.incarnation && isSession x.session &&
    decide (0 < Lines.jsLength x.member) && decide (Lines.jsLength x.member ≤ 256) &&
    within isUrlSafe 43 43 x.admissionNonce && decide (x.method = ['P', 'O', 'S', 'T']) &&
    sessionPath.isPrefixOf x.path && isSession (x.path.drop sessionPath.length) &&
    isDigest x.rawBodyHash && isSafeInteger x.policyRevision && decide (0 < x.policyRevision) &&
    isDigest x.definitionHash

/-- What the console has signed, with the fields that are read. -/
structure Capsule extends Input where
  version : Int
  purpose : Text
  challenge : Text
  expiry : Time
deriving DecidableEq

structure Receipt where
  method : Text
  path : Text
  rawBodyHash : Text
deriving DecidableEq

structure SessionDefinitionMaterial where
  definition : Text
  dutiesMd : Text
  voiceMd : Text
  hash : Text
deriving DecidableEq

/-- The input of `turn.open`. -/
structure TurnOpen where
  /-- The receipt it is opened with. -/
  pendingReceipt : Text
  sessionId : Text
  memberId : Text
  admissionNonce : Text
  turnId : Text
  /-- The number of the turn in its session. -/
  sequence : Int
  definition : SessionDefinitionMaterial
deriving DecidableEq

inductive Area where
  | «private»
  | shared
deriving DecidableEq

/-- The input of `vault.read`, with the agent and the incarnation that send it. -/
structure VaultRead where
  agent : Text
  incarnation : Text
  turnCapability : Text
  turnId : Text
  sequence : Int
  sessionId : Text
  memberId : Text
  admissionNonce : Text
  area : Area
  /-- The note that is read, where the notes are not listed. -/
  path : Option Text
  offset : Option Int
  home : Option Text
deriving DecidableEq

/-- The input of `outside.approve` and of `outside.execute`. -/
structure OutsideCall where
  sessionId : Text
  memberId : Text
  admissionNonce : Text
  callId : Text
  connectionName : Text
  toolName : Text
  input : Text
deriving DecidableEq

inductive Operation where
  /-- A request of the console is presented. -/
  | requestAdmit (capsule : Text) (receipt : Receipt)
  /-- A turn is to be opened. -/
  | turnOpen (args : TurnOpen)
  /-- A turn is over. -/
  | turnClose (turnCapability turnId : Text) (sequence : Int)
  /-- The vault is read. -/
  | vaultRead (args : VaultRead)
  /-- A call is to be approved. -/
  | outsideApprove (call : OutsideCall)
  /-- An approved call is to be made. -/
  | outsideExecute (call : OutsideCall) (outsideCapability : Option Text)
  /-- A read of a schedule. -/
  | vaultScheduled
  /-- An operation that leaves the maps alone. -/
  | other
deriving DecidableEq

structure Message where
  agent : Text
  incarnation : Text
  requestId : Text
  timestamp : Int
  op : Operation
  mac : Text
deriving DecidableEq

def Operation.limit : Operation → Time
  | .outsideExecute _ _ => 8000
  | .vaultScheduled => 8000
  | .requestAdmit _ _ => 1700
  | .turnOpen _ => 1700
  | .turnClose _ _ _ => 1700
  | .vaultRead _ => 1700
  | .outsideApprove _ => 1700
  | .other => 1700

/-- What the broker uses of its surroundings. -/
structure Primitives where
  /-- The key that the console signs with. -/
  secret : Text
  /-- Whether calls to the outside are served at all. -/
  outsideCustody : Bool
  /-- `createHmac('sha256', key).update(text).digest()` -/
  hmac : Text → Text → Bytes
  /-- `Buffer.from(text, 'base64url')` -/
  base64url : Text → Bytes
  /-- `JSON.stringify` of all but the field `mac`. -/
  stringify : Message → Text
  /-- `JSON.parse`, where it gives a capsule. -/
  parse : Bytes → Option Capsule
  /-- `hashOf` of what `definitionSchema` accepts. -/
  hashOf : SessionDefinitionMaterial → Option Text
  outsidePayloadHash : Text → Text → Text

/-! ## Section 2: Memory -/

structure Challenge where
  challenge : Text
  input : Input
  expiry : Time
deriving DecidableEq

structure Pending where
  handle : Text
  input : Input
  expiry : Time
deriving DecidableEq

structure Turn where
  turnCapability : Text
  input : Input
  turnId : Text
  sequence : Int
  definition : SessionDefinitionMaterial
  areaIds : List Text
  expiry : Time
deriving DecidableEq

/-- An entry of `runtimeRequests`. -/
structure Seen where
  requestId : Text
  expiry : Time
deriving DecidableEq

/-- An approved call. -/
structure Grant where
  agent : Text
  incarnation : Text
  call : OutsideCall
  policyRevision : Int
  payloadHash : Text
  expiresAt : Time
deriving DecidableEq

structure Resume extends Grant where
  outsideCapability : Text
deriving DecidableEq

/-- What has been done, for the record. -/
inductive Event where
  /-- A request of the runtime is accepted. -/
  | accepted (requestId : Text) (time : Time)
  /-- A challenge is given out. -/
  | challenged (challenge : Challenge)
  /-- A capsule is accepted. -/
  | admitted (capsule : Text) (parsed : Capsule) (time : Time)
  /-- A receipt for it is given out. -/
  | received (pending : Pending) (challenge : Text)
  /-- A receipt is taken. -/
  | consumed (handle : Text)
  /-- A turn is opened for a receipt. -/
  | opened (turn : Turn) (handle : Text)
  /-- A turn is closed. -/
  | closed (turnCapability : Text)
  /-- A `vault.read` succeeds. -/
  | read (args : VaultRead) (time : Time)
  /-- The capability of an approved call is given out. -/
  | granted (resume : Resume)
  /-- Such a capability is taken. -/
  | resumed (outsideCapability : Text)
  /-- Its call is made. -/
  | dispatched (outsideCapability : Text)
deriving DecidableEq

/-- What is for one use. -/
inductive Token where
  /-- For one capsule. -/
  | challenge (challenge : Text)
  /-- For one turn. -/
  | receipt (handle : Text)
  /-- For as long as the turn is open. -/
  | turn (turnCapability : Text)
  /-- For one call. -/
  | outside (outsideCapability : Text)
deriving DecidableEq

def Event.gives : Event → Option Token
  | .challenged c => some (.challenge c.challenge)
  | .received p _ => some (.receipt p.handle)
  | .opened t _ => some (.turn t.turnCapability)
  | .granted r => some (.outside r.outsideCapability)
  | .accepted _ _ => none
  | .admitted _ _ _ => none
  | .consumed _ => none
  | .closed _ => none
  | .read _ _ => none
  | .resumed _ => none
  | .dispatched _ => none

def Event.takes : Event → Option Token
  | .admitted _ parsed _ => some (.challenge parsed.challenge)
  | .consumed handle => some (.receipt handle)
  | .closed cap => some (.turn cap)
  | .resumed cap => some (.outside cap)
  | .accepted _ _ => none
  | .challenged _ => none
  | .received _ _ => none
  | .opened _ _ => none
  | .read _ _ => none
  | .granted _ => none
  | .dispatched _ => none

/-- A receipt comes from a challenge, a turn from a receipt, a dispatch from a capability. -/
def Event.uses : Event → Option Token
  | .received _ challenge => some (.challenge challenge)
  | .opened _ handle => some (.receipt handle)
  | .dispatched cap => some (.outside cap)
  | .accepted _ _ => none
  | .challenged _ => none
  | .admitted _ _ _ => none
  | .consumed _ => none
  | .closed _ => none
  | .read _ _ => none
  | .granted _ => none
  | .resumed _ => none

def tokens : Tokens Event Token := ⟨Event.gives, Event.takes, Event.uses⟩

structure Broker where
  now : Time
  /-- The challenges given out. -/
  challenges : Table Challenge.challenge
  /-- The capsules admitted that no turn has consumed. -/
  pending : Table Pending.handle
  /-- The open turns. -/
  turns : Table Turn.turnCapability
  /-- The requests of the runtime that are remembered. -/
  runtimeRequests : Table Seen.requestId
  /-- The capabilities of approved calls. -/
  outsideResumes : Table Resume.outsideCapability
  log : List Event

namespace Broker

/-- Time between two readings of the clock. -/
def pass (b : Broker) (ms : Time) : Broker := { b with now := b.now + ms }

/-- `prune`, whose second reading of the clock comes `ms` after the first. -/
def prune (b : Broker) (ms : Time) : Broker :=
  { b with
    now := b.now + ms
    challenges := b.challenges.keep fun c => decide (b.now < c.expiry)
    pending := b.pending.keep fun p => decide (b.now < p.expiry)
    turns := b.turns.keep fun t => decide (b.now + ms < t.expiry)
    runtimeRequests := b.runtimeRequests.keep fun r => decide (b.now < r.expiry) }

/-- `capacity` -/
def overfull (b : Broker) : Bool :=
  decide (MAX_LIVE < b.challenges.rows.length) || decide (MAX_LIVE < b.pending.rows.length) ||
    decide (MAX_LIVE < b.turns.rows.length) || decide (MAX_LIVE < b.runtimeRequests.rows.length)

/-- `randomBytes` has not given this before. -/
def isNew (b : Broker) (token : Token) : Bool := decide (token ∉ tokens.given b.log)

def accept (b : Broker) (requestId : Text) : Broker :=
  { b with
    runtimeRequests := b.runtimeRequests.set ⟨requestId, b.now + REQUEST_MS⟩
    log := b.log ++ [.accepted requestId b.now] }

def challenged (b : Broker) (c : Challenge) : Broker :=
  { b with challenges := b.challenges.set c, log := b.log ++ [.challenged c] }

def admitted (b : Broker) (capsule : Text) (parsed : Capsule) : Broker :=
  { b with
    challenges := b.challenges.erase parsed.challenge
    log := b.log ++ [.admitted capsule parsed b.now] }

def received (b : Broker) (p : Pending) (challenge : Text) : Broker :=
  { b with pending := b.pending.set p, log := b.log ++ [.received p challenge] }

def consumed (b : Broker) (handle : Text) : Broker :=
  { b with pending := b.pending.erase handle, log := b.log ++ [.consumed handle] }

def opened (b : Broker) (t : Turn) (handle : Text) : Broker :=
  { b with turns := b.turns.set t, log := b.log ++ [.opened t handle] }

def closed (b : Broker) (cap : Text) : Broker :=
  { b with turns := b.turns.erase cap, log := b.log ++ [.closed cap] }

def readNow (b : Broker) (args : VaultRead) : Broker :=
  { b with log := b.log ++ [.read args b.now] }

def granted (b : Broker) (r : Resume) : Broker :=
  { b with outsideResumes := b.outsideResumes.set r, log := b.log ++ [.granted r] }

def resumed (b : Broker) (cap : Text) : Broker :=
  { b with outsideResumes := b.outsideResumes.erase cap, log := b.log ++ [.resumed cap] }

def dispatched (b : Broker) (cap : Text) : Broker := { b with log := b.log ++ [.dispatched cap] }

/-- The cleanup of `outside.approve` and `outside.execute`. -/
def pruneResumes (b : Broker) : Broker :=
  { b with outsideResumes := b.outsideResumes.keep fun r => decide (b.now < r.expiresAt) }

end Broker

/-! ## Section 3: The console socket -/

/-- Where a request waits. -/
inductive Request where
  /-- A request of the console comes in. -/
  | console (input : Input)
  /-- For the session of a challenge. -/
  | challenging (input : Input) (deadline : Time)
  /-- A message of the runtime comes in. -/
  | runtime (m : Message)
  /-- For the key file of the agent. -/
  | identified (m : Message) (deadline : Time)
  /-- For the row of the agent. -/
  | accepted (m : Message) (deadline : Time)
  /-- For the checks of a capsule. -/
  | admitting (challenge : Text) (input : Input) (deadline : Time)
  /-- For the session of a turn. -/
  | opening (input : Input) (args : TurnOpen) (deadline : Time)
  /-- For the vault. -/
  | reading (turn : Turn) (args : VaultRead) (deadline : Time)
  /-- For the policy of a call. -/
  | approving (agent incarnation : Text) (call : OutsideCall) (deadline : Time)
  /-- For the approval of a call. -/
  | granting (grant : Grant) (deadline : Time)
  /-- For the call. -/
  | executing (resume : Resume) (deadline : Time)
deriving DecidableEq

/-- `handle`, up to its transaction. -/
def handle (b : Broker) (input : Input) (ms ms' : Time) : Broker × Option Request :=
  if 1700 ≤ ms then (b.pass ms, none)
  else if ((b.pass ms).prune ms').overfull || !isInput input then ((b.pass ms).prune ms', none)
  else ((b.pass ms).prune ms', some (.challenging input (b.now + 1700)))

/-- `handle`, after `current`. -/
def challengeCurrent (b : Broker) (input : Input) (deadline : Time) (challenge : Text)
    (ms ms' ms'' : Time) : Broker :=
  if deadline ≤ b.now then b
  else if ((b.pass (ms + ms')).prune ms'').overfull ||
      decide (MAX_LIVE ≤ ((b.pass (ms + ms')).prune ms'').challenges.rows.length) then
    (b.pass (ms + ms')).prune ms''
  else ((b.pass (ms + ms')).prune ms'').challenged ⟨challenge, input, b.now + ms + CHALLENGE_MS⟩

/-! ## Section 4: The runtime socket -/

section Runtime

variable (p : Primitives)

def wellFormed (m : Message) : Bool :=
  isAgent m.agent && isIncarnation m.incarnation && within isUrlSafe 32 64 m.requestId &&
    isSafeInteger m.timestamp

/-- `runtimeHandle`, up to the key file. -/
def identify (b : Broker) (m : Message) (ms : Time) : Broker × Option Request :=
  if m.op.limit ≤ ms || !wellFormed m || decide (SKEW_MS < ((b.now + ms : Nat) - m.timestamp).natAbs)
  then (b.pass ms, none)
  else (b.pass ms, some (.identified m (b.now + m.op.limit)))

/-- The signature over a message. -/
def signed (token : Text) (m : Message) : Bool :=
  isDigest token && decide (p.base64url m.mac = p.hmac token (p.stringify m))

/-- `runtimeHandle`, from the key file to the row of the agent. -/
def checkSignature (b : Broker) (m : Message) (deadline : Time) (token : Text) (ms ms' : Time) :
    Broker × Option Request :=
  if !isDigest token then (b, none)
  else if (b.prune ms).overfull || !signed p token m ||
      ((b.prune ms).runtimeRequests.find? m.requestId).isSome ||
      decide (MAX_LIVE ≤ (b.prune ms).runtimeRequests.rows.length) then
    (b.prune ms, none)
  else (((b.prune ms).pass ms').accept m.requestId, some (.accepted m deadline))

/-- A capsule that the console has signed. -/
def sealed (capsule : Text) (parsed : Capsule) : Bool :=
  match capsule.splitOn '.' with
  | [body, mac] =>
      body ≠ [] && body.all isUrlSafe && mac ≠ [] && mac.all isUrlSafe &&
        decide (p.base64url mac = p.hmac p.secret body) &&
        decide (p.parse (p.base64url body) = some parsed)
  | _ => false

/-- The capsule's body, where its signature is right. -/
def openCapsule (capsule : Text) : Option Capsule :=
  match capsule.splitOn '.' with
  | [body, _] => (p.parse (p.base64url body)).filter (sealed p capsule)
  | _ => none

/-- `human` -/
def humanPurpose : Text := ['h', 'u', 'm', 'a', 'n']

def matchesChallenge (m : Message) (receipt : Receipt) (parsed : Capsule) (c : Challenge)
    (now : Time) : Bool :=
  decide (parsed.version = 1) && decide (parsed.purpose = humanPurpose) &&
    isInput parsed.toInput && decide (c.expiry = parsed.expiry) && decide (now < c.expiry) &&
    decide (c.input = parsed.toInput) && decide (parsed.agent = m.agent) &&
    decide (parsed.incarnation = m.incarnation) && decide (parsed.method = receipt.method) &&
    decide (parsed.path = receipt.path) && decide (parsed.rawBodyHash = receipt.rawBodyHash)

/-- `request.admit` -/
def requestAdmit (b : Broker) (m : Message) (capsule : Text) (receipt : Receipt)
    (deadline : Time) : Broker × Option Request :=
  match openCapsule p capsule with
  | none => (b, none)
  | some parsed =>
      match b.challenges.find? parsed.challenge with
      | none => (b, none)
      | some c =>
          if matchesChallenge m receipt parsed c b.now then
            (b.admitted capsule parsed, some (.admitting parsed.challenge parsed.toInput deadline))
          else (b, none)

/-- `request.admit`, after `current`. -/
def admitCurrent (b : Broker) (challenge : Text) (input : Input) (deadline : Time) (handle : Text)
    (ms : Time) : Broker :=
  if deadline ≤ b.now || decide (MAX_LIVE ≤ b.pending.rows.length) then b
  else (b.pass ms).received ⟨handle, input, b.now + ms + PENDING_MS⟩ challenge

def Pending.belongsTo (p : Pending) (m : Message) (args : TurnOpen) : Bool :=
  decide (p.input.agent = m.agent) && decide (p.input.incarnation = m.incarnation) &&
    decide (p.input.session = args.sessionId) && decide (p.input.member = args.memberId) &&
    decide (p.input.admissionNonce = args.admissionNonce)

def consumePendingVaultReceipt (b : Broker) (m : Message) (args : TurnOpen) (ms ms' : Time) :
    Broker × Option Pending :=
  if (b.prune ms).overfull then (b.prune ms, none)
  else
    match (b.prune ms).pending.find? args.pendingReceipt with
    | none => (b.prune ms, none)
    | some value =>
        if decide (value.expiry ≤ b.now + ms + ms') || !value.belongsTo m args then
          (((b.prune ms).pass ms').consumed args.pendingReceipt, none)
        else (((b.prune ms).pass ms').consumed args.pendingReceipt, some value)

def definitionOk (input : Input) (d : SessionDefinitionMaterial) : Bool :=
  isDigest d.hash && decide (p.hashOf d = some d.hash) && decide (d.hash = input.definitionHash)

/-- `turn.open` -/
def turnOpen (b : Broker) (m : Message) (args : TurnOpen) (deadline ms ms' : Time) :
    Broker × Option Request :=
  if within isTurnIdChar 1 128 args.turnId && isSafeInteger args.sequence then
    match consumePendingVaultReceipt b m args ms ms' with
    | (b', none) => (b', none)
    | (b', some value) =>
        if definitionOk p value.input args.definition then
          (b', some (.opening value.input args deadline))
        else (b', none)
  else (b, none)

/-- `turn.open`, after its three transactions. -/
def turnOpened (b : Broker) (input : Input) (args : TurnOpen) (deadline : Time)
    (policyRevision : Int) (areaIds : List Text) (cap : Text) (ms : Time) : Broker :=
  if decide (policyRevision ≠ input.policyRevision) || areaIds.isEmpty || deadline ≤ b.now ||
      decide (MAX_LIVE ≤ b.turns.rows.length) then b
  else (b.pass ms).opened
    ⟨cap, input, args.turnId, args.sequence, args.definition, areaIds, b.now + ms + TURN_MS⟩
    args.pendingReceipt

/-- `turn.close` -/
def turnClose (b : Broker) (m : Message) (cap turnId : Text) (sequence : Int) : Broker :=
  match b.turns.find? cap with
  | none => b
  | some turn =>
      if turn.turnId = turnId ∧ turn.sequence = sequence ∧ turn.input.agent = m.agent ∧
          turn.input.incarnation = m.incarnation then
        b.closed cap
      else b

def VaultRead.wellFormed (args : VaultRead) : Bool :=
  isSafeInteger args.sequence && args.offset.all (fun n => isSafeInteger n && decide (0 ≤ n)) &&
    args.home.all fun home => decide (args.area = .shared) &&
      ['v', 'a', 'u', 'l', 't', ':'].isPrefixOf home && within isUrlSafe 1 128 (home.drop 6)

def Turn.belongsTo (turn : Turn) (args : VaultRead) : Bool :=
  decide (turn.turnId = args.turnId) && decide (turn.sequence = args.sequence) &&
    decide (turn.input.agent = args.agent) && decide (turn.input.incarnation = args.incarnation) &&
    decide (turn.input.session = args.sessionId) && decide (turn.input.member = args.memberId) &&
    decide (turn.input.admissionNonce = args.admissionNonce)

/-- `vault.read` -/
def vaultRead (b : Broker) (m : Message) (args : VaultRead) (deadline : Time) :
    Broker × Option Request :=
  match b.turns.find? args.turnCapability with
  | none => (b, none)
  | some turn =>
      if args.agent = m.agent ∧ args.incarnation = m.incarnation ∧ args.wellFormed ∧
          b.now < turn.expiry ∧ turn.belongsTo args ∧ b.now < deadline then
        (b, some (.reading turn args deadline))
      else (b, none)

/-- `assertLive` -/
def Turn.live (turn : Turn) (b : Broker) (args : VaultRead) (deadline : Time) : Bool :=
  decide (b.now < deadline) && decide (b.turns.find? args.turnCapability = some turn) &&
    decide (b.now < turn.expiry)

/-- The last `assertLive` of `vault.read`. -/
def vaultReadDone (b : Broker) (turn : Turn) (args : VaultRead) (deadline : Time) : Broker :=
  if turn.live b args deadline then b.readNow args else b

/-- `outside.approve` -/
def outsideApprove (b : Broker) (m : Message) (call : OutsideCall) (deadline : Time) :
    Broker × Option Request :=
  if !p.outsideCustody then (b, none)
  else if MAX_LIVE ≤ b.pruneResumes.outsideResumes.rows.length then (b.pruneResumes, none)
  else (b.pruneResumes, some (.approving m.agent m.incarnation call deadline))

/-- `outside.approve`, after the claim has been committed. -/
def outsideApproved (b : Broker) (agent incarnation : Text) (call : OutsideCall) (deadline : Time)
    (expiresAt : Time) (policyRevision : Int) (ms : Time) : Broker × Option Request :=
  if deadline ≤ b.now + ms ∨ min expiresAt (b.now + RESUME_MS) ≤ b.now + ms then (b.pass ms, none)
  else
    (b.pass ms, some (.granting
      ⟨agent, incarnation, call, policyRevision, p.outsidePayloadHash call.toolName call.input,
        min expiresAt (b.now + RESUME_MS)⟩ deadline))

/-- `outside.approve`, after the custody has agreed. -/
def outsideGranted (b : Broker) (grant : Grant) (deadline : Time) (cap : Text) : Broker :=
  if deadline ≤ b.now ∨ grant.expiresAt ≤ b.now then b else b.granted ⟨grant, cap⟩

def Grant.covers (g : Grant) (m : Message) (call : OutsideCall) : Bool :=
  decide (g.agent = m.agent) && decide (g.incarnation = m.incarnation) &&
    decide (g.call.sessionId = call.sessionId) && decide (g.call.memberId = call.memberId) &&
    decide (g.call.admissionNonce = call.admissionNonce) && decide (g.call.callId = call.callId) &&
    decide (g.call.connectionName = call.connectionName) &&
    decide (g.call.toolName = call.toolName) &&
    decide (g.payloadHash = p.outsidePayloadHash call.toolName call.input)

/-- `outside.execute`: "Take before any await: two responses can never dispatch the same
    capability." -/
def outsideExecute (b : Broker) (m : Message) (call : OutsideCall) (cap : Option Text)
    (deadline ms : Time) : Broker × Option Request :=
  if !p.outsideCustody then (b, none)
  else
    match cap.bind b.pruneResumes.outsideResumes.find? with
    | none => (b.pruneResumes, none)
    | some resume =>
        if b.now + ms < resume.expiresAt ∧ resume.covers p m call then
          ((b.pruneResumes.pass ms).resumed resume.outsideCapability,
            some (.executing resume deadline))
        else ((b.pruneResumes.pass ms).resumed resume.outsideCapability, none)

/-- `outside.execute`, up to the call of the custody. -/
def outsideDispatch (b : Broker) (resume : Resume) (deadline : Time) : Broker :=
  if deadline ≤ b.now ∨ resume.expiresAt ≤ b.now then b else b.dispatched resume.outsideCapability

/-- `runtimeHandle`, from the row of the agent on. -/
def perform (b : Broker) (m : Message) (deadline ms ms' : Time) : Broker × Option Request :=
  match m.op with
  | .requestAdmit capsule receipt => requestAdmit p b m capsule receipt deadline
  | .turnOpen args => turnOpen p b m args deadline ms ms'
  | .turnClose cap turnId sequence => (turnClose b m cap turnId sequence, none)
  | .vaultRead args => vaultRead b m args deadline
  | .outsideApprove call => outsideApprove p b m call deadline
  | .outsideExecute call cap => outsideExecute p b m call cap deadline ms
  | .vaultScheduled => (b, none)
  | .other => (b, none)

end Runtime

/-! ## Section 5: The broker -/

/-- What an `await` brings, and how long the clock takes meanwhile. -/
inductive Answer where
  /-- Nothing was waited for. -/
  | line (ms ms' : Time)
  /-- `current` holds, and the next random bytes. -/
  | current (random : Text) (ms ms' ms'' : Time)
  /-- The key of an agent. -/
  | keyFile (token : Text) (ms ms' : Time)
  /-- The agent has its row. -/
  | active (ms ms' ms'' : Time)
  | turnAuthority (policyRevision : Int) (areaIds : List Text) (random : Text) (ms : Time)
  /-- The transaction is over. -/
  | done
  /-- The policy allows the call, for how long. -/
  | approved (expiresAt : Time) (policyRevision : Int) (ms : Time)
  /-- The approval stands; the next random bytes. -/
  | agreed (random : Text)
deriving DecidableEq

section Broker

variable (p : Primitives)

def step (b : Broker) : Request → Answer → Option (Broker × Option Request)
  | .console input, .line ms ms' => some (handle b input ms ms')
  | .challenging input deadline, .current random ms ms' ms'' =>
      if b.isNew (.challenge random) then
        some (challengeCurrent b input deadline random ms ms' ms'', none)
      else none
  | .runtime m, .line ms _ => some (identify b m ms)
  | .identified m deadline, .keyFile token ms ms' =>
      some (checkSignature p b m deadline token ms ms')
  | .accepted m deadline, .active ms ms' ms'' =>
      if deadline ≤ b.now then some (b, none)
      else some (perform p (b.pass ms) m deadline ms' ms'')
  | .admitting challenge input deadline, .current random ms _ _ =>
      if b.isNew (.receipt random) then
        some (admitCurrent b challenge input deadline random ms, none)
      else none
  | .opening input args deadline, .turnAuthority policyRevision areaIds random ms =>
      if b.isNew (.turn random) then
        some (turnOpened b input args deadline policyRevision areaIds random ms, none)
      else none
  | .reading turn args deadline, .done => some (vaultReadDone b turn args deadline, none)
  | .approving agent incarnation call deadline, .approved expiresAt policyRevision ms =>
      some (outsideApproved p b agent incarnation call deadline expiresAt policyRevision ms)
  | .granting grant deadline, .agreed random =>
      if b.isNew (.outside random) then some (outsideGranted b grant deadline random, none)
      else none
  | .executing resume deadline, .done => some (outsideDispatch b resume deadline, none)
  | _, _ => none

/-- A line arrives. -/
def begins : Request → Bool
  | .console _ => true
  | .runtime _ => true
  | .challenging _ _ => false
  | .identified _ _ => false
  | .accepted _ _ => false
  | .admitting _ _ _ => false
  | .opening _ _ _ => false
  | .reading _ _ _ => false
  | .approving _ _ _ _ => false
  | .granting _ _ => false
  | .executing _ _ => false

/-- Time passes. -/
def broker : Requests Broker Request Answer Time where
  begins _ req := begins req
  step := step p
  happens b ms := some (b.pass ms)

/-- The process has just started. -/
def Started (b : Broker) : Prop :=
  b.challenges.rows = [] ∧ b.pending.rows = [] ∧ b.turns.rows = [] ∧ b.runtimeRequests.rows = [] ∧
    b.outsideResumes.rows = [] ∧ b.log = []

end Broker

end Lares.Keeper
