import Lares.Approvals.Ledger
import Lares.Framework.Transactions

/-! # Personal actions

    `PgPersonalActionStore` and the table and triggers of `personal_actions`.
    Every operation is a transaction; the store's permits are the state that
    its callers share.

    * What SQL reads without a lock (the clock, a member, the id that a lookup
      by another column finds) is an answer, and a row that is looked up is
      compared again when it is locked.
    * The advisory lock on an original call is the lock of its suppression row.
    * A failing statement rolls the transaction back, whatever made it fail.
-/

namespace Lares.Approvals

/-! ## Section 1: Rows -/

/-- `PersonalActionSelection`; the kind is always `mail.send`. -/
structure Selection where
  actorMemberId : Text
  agentId : Text
  incarnation : Text
  sessionId : Text
  originalTurnId : Text
  originalCallId : Text
  accountId : Text
  accountGeneration : Nat
  resourceBindingId : Text
  connectorId : Text
  deriving DecidableEq

/-- `PersonalMailPayload` -/
structure PersonalMailPayload where
  recipients : List Text
  subject : Text
  body : Text
  deriving DecidableEq

/-- What is encrypted, without its purpose and its version. -/
structure Envelope where
  actionId : Text
  selection : Selection
  payload : PersonalMailPayload
  deriving DecidableEq

/-- `PersonalActionState` -/
inductive ActionState where
  | awaitingApproval | awaitingDispatch | claimed | cancelled | expired
  | notDispatched | rejected | accepted | unknown
  deriving DecidableEq, Repr

inductive RejectedCode where
  | providerRefused | invalidRecipient | rateLimited
  deriving DecidableEq

inductive NotDispatchedCode where
  | authorityChanged | expired | policyRefused | credentialUnavailable
  deriving DecidableEq

inductive UnknownCode where
  | transportUncertain | processInterrupted
  deriving DecidableEq

/-- `PersonalActionReceipt` -/
inductive Receipt where
  | accepted (providerReceiptId : Option Text) (providerStatus202 : Bool)
  | rejected (code : RejectedCode)
  | notDispatched (code : NotDispatchedCode)
  | unknown (code : UnknownCode)
  deriving DecidableEq

def Receipt.state : Receipt → ActionState
  | accepted _ _ => .accepted
  | rejected _ => .rejected
  | notDispatched _ => .notDispatched
  | unknown _ => .unknown

/-- A row of `personal_actions`. -/
structure ActionRow where
  id : Text
  selection : Selection
  /-- Of the call it was prepared for; it is reserved for good. -/
  originalCallHash : Hash
  /-- Of what is to be sent. -/
  payloadHash : Hash
  /-- What is to be sent, sealed. -/
  payloadCiphertext : Text
  /-- The card it was attached to. -/
  approvalCallId : Option Text
  /-- The ask of that card. -/
  approvalRequestId : Option Text
  createdAt : Time
  expiresAt : Time
  state : ActionState
  /-- The attempt that has claimed it. -/
  attemptId : Option Text
  claimedAt : Option Time
  /-- What became of the attempt. -/
  receipt : Option Receipt
  completedAt : Option Time
  deriving DecidableEq

/-- `personalActionApprovalDescriptor`, without its purpose and its version. -/
structure Descriptor where
  policyHash : Option Hash
  actionId : Text
  payloadHash : Hash
  selection : Selection
  expiresAt : Text
  deriving DecidableEq

/-- `original_authority`: a descriptor, or a document of somebody else's. -/
inductive Authority where
  | personal (descriptor : Descriptor)
  | other (policyHash : Option Text) (document : Text)
  deriving DecidableEq

def Authority.policyHash : Authority → Option Text
  | personal descriptor => descriptor.policyHash
  | other policyHash _ => policyHash

abbrev Ask := ApprovalRow Authority

/-! ## Section 2: What is used of the rest -/

/-- Schemas, hashes and the crypto of the server. -/
structure ActionCodec where
  acceptsSelection : Selection → Bool
  acceptsPayload : PersonalMailPayload → Bool
  isHash : Text → Bool
  isReceiptId : Text → Bool
  /-- `Buffer.byteLength(JSON.stringify(envelope))` -/
  envelopeBytes : Envelope → Nat
  encrypt : Envelope → Text
  /-- `decrypt`, `JSON.parse` and the schema. -/
  decrypt : Text → Option Envelope
  /-- `payloadFingerprint('mail.send',payload)` -/
  payloadFingerprint : PersonalMailPayload → Hash
  /-- `payloadFingerprint(PURPOSE,…)`, which `same` compares. -/
  selectionPrint : Selection → Hash
  payloadPrint : PersonalMailPayload → Hash
  authorityPrint : Authority → Hash
  receiptPrint : Option Receipt → Hash
  /-- SHA-256 of a text's UTF-8, in hex. -/
  digest : Text → Hash
  iso : Time → Text

/-- `s.incarnation.toLowerCase()` -/
def Selection.lowered (s : Selection) : Selection :=
  { s with incarnation := s.incarnation.map Char.toLower }

/-- What is encrypted can be decrypted. -/
def ActionCodec.Lawful (codec : ActionCodec) : Prop :=
  ∀ actionId s payload, codec.acceptsSelection s = true → codec.acceptsPayload payload = true →
    codec.decrypt (codec.encrypt ⟨actionId, s.lowered, payload⟩) = some ⟨actionId, s.lowered, payload⟩

def PERSONAL_MAIL_SEND_TOOL : Text := "personal_mailbox_send".toList
def MAX_CIPHERTEXT_LENGTH : Nat := 262144
def MAX_ENVELOPE_BYTES : Nat := MAX_CIPHERTEXT_LENGTH / 4 * 3 - 12 - 16

/-- `${[...v].length}:${v}` of every part, joined. -/
def lengthPrefixed (parts : List Text) : Text :=
  (parts.map fun v => Nat.toDigits 10 v.length ++ ':' :: v).flatten

namespace ActionCodec

variable (codec : ActionCodec)

/-- `originalHash` -/
def originalHash (s : Selection) : Hash :=
  codec.digest (lengthPrefixed
    [s.agentId, s.incarnation.map Char.toLower, s.sessionId, s.originalTurnId, s.originalCallId])

/-- The hash that the trigger computes; the text of a uuid is in lower case. -/
def guardHash (s : Selection) : Hash :=
  let incarnation := s.incarnation.map Char.toLower
  codec.digest (
    Nat.toDigits 10 s.agentId.length ++ ':' :: s.agentId ++
    (Nat.toDigits 10 incarnation.length ++ ':' :: incarnation) ++
    (Nat.toDigits 10 s.sessionId.length ++ ':' :: s.sessionId) ++
    (Nat.toDigits 10 s.originalTurnId.length ++ ':' :: s.originalTurnId) ++
    (Nat.toDigits 10 s.originalCallId.length ++ ':' :: s.originalCallId))

/-- The trigger and the store agree on what an original call is. -/
theorem guardHash_eq (s : Selection) : codec.guardHash s = codec.originalHash s := by
  unfold guardHash originalHash lengthPrefixed
  simp only [List.map_cons, List.map_nil, List.flatten_cons, List.flatten_nil, List.append_nil,
    List.append_assoc, List.cons_append]

/-- `personalActionApprovalDescriptor`: the policy's hash has to be one. -/
def descriptor (r : ActionRow) (policyHash : Option Text) : Option Authority :=
  if policyHash.all codec.isHash then
    some (.personal ⟨policyHash, r.id, r.payloadHash, r.selection, codec.iso r.expiresAt⟩)
  else none

/-- `same` of an authority and the descriptor of an action. -/
def sameAuthority (authority : Option Authority) (descriptor : Option Authority) : Bool :=
  match authority, descriptor with
  | some authority, some descriptor =>
      codec.authorityPrint authority == codec.authorityPrint descriptor
  | _, _ => false

/-- `payload`: the payload of a row, if it is the one that was sealed for it. -/
def payload (r : ActionRow) : Option PersonalMailPayload :=
  match codec.decrypt r.payloadCiphertext with
  | none => none
  | some sealed =>
      if sealed.actionId = r.id ∧
          codec.selectionPrint sealed.selection = codec.selectionPrint r.selection ∧
          codec.payloadFingerprint sealed.payload = r.payloadHash then some sealed.payload
      else none

/-- The schema of a receipt, which the table checks again. -/
def acceptsReceipt : Receipt → Bool
  | .accepted providerReceiptId status =>
      providerReceiptId.all codec.isReceiptId && (providerReceiptId.isSome || status)
  | _ => true

end ActionCodec

/-! ## Section 3: The table -/

namespace ActionState

/-- A claim has been made. -/
def attempted : ActionState → Bool
  | .claimed | .notDispatched | .rejected | .accepted | .unknown => true
  | _ => false

/-- A receipt has been recorded. -/
def terminal : ActionState → Bool
  | .notDispatched | .rejected | .accepted | .unknown => true
  | _ => false

/-- The moves that `guard_personal_action` lets pass. -/
def moves : ActionState → ActionState → Bool
  | .awaitingApproval, new => new == .awaitingDispatch || new == .cancelled || new == .expired
  | .awaitingDispatch, new => new == .claimed || new == .cancelled || new == .expired
  | .claimed, new => new.terminal
  | _, _ => false

end ActionState

/-- The CHECK constraints on what changes. -/
def ActionRow.checks (codec : ActionCodec) (r : ActionRow) : Bool :=
  r.approvalCallId.isNone == r.approvalRequestId.isNone &&
    (!(r.state == .awaitingDispatch || r.state.attempted) || r.approvalCallId.isSome) &&
    r.attemptId.isNone == r.claimedAt.isNone && r.state.attempted == r.attemptId.isSome &&
    r.state.terminal == r.completedAt.isSome && r.receipt.isNone == r.completedAt.isNone &&
    r.receipt.all fun receipt => receipt.state == r.state && codec.acceptsReceipt receipt

/-- What no UPDATE may change. -/
def ActionRow.sameIdentity (old new : ActionRow) : Bool :=
  new.id == old.id && new.selection == old.selection &&
    new.originalCallHash == old.originalCallHash && new.payloadHash == old.payloadHash &&
    new.payloadCiphertext == old.payloadCiphertext && new.createdAt == old.createdAt &&
    new.expiresAt == old.expiresAt

/-- `guard_personal_action` lets the UPDATE pass. -/
def guardPersonalAction (old new : ActionRow) : Bool :=
  old.sameIdentity new &&
    (old.approvalCallId == none || (new.approvalCallId == old.approvalCallId &&
      new.approvalRequestId == old.approvalRequestId)) &&
    (old.attemptId == none || (new.attemptId == old.attemptId &&
      new.claimedAt == old.claimedAt)) &&
    (new.state == old.state || old.state.moves new.state) &&
    !(old.state != .awaitingApproval && old.approvalCallId == none &&
      new.approvalCallId != none) &&
    (old.receipt == none || (new.receipt == old.receipt && new.completedAt == old.completedAt))

/-- The table takes the UPDATE. -/
def acceptsUpdate (codec : ActionCodec) (old new : ActionRow) : Bool :=
  guardPersonalAction old new && new.checks codec

/-- What a statement or an advisory lock can hold. -/
inductive Key where
  | action (id : Text)
  | call (hash : Hash)
  | approval (callId : Text)
  deriving DecidableEq

abbrev Cell : Key → Type
  | .action _ => Option ActionRow
  | .call _ => Bool
  | .approval _ => Option Ask

abbrev Db := ∀ k, Cell k

def Db.action (db : Db) (id : Text) : Option ActionRow := db (.action id)
/-- `personal_action_calls` has the original call. -/
def Db.reserved (db : Db) (hash : Hash) : Bool := db (.call hash)
def Db.approval (db : Db) (callId : Text) : Option Ask := db (.approval callId)

/-! ## Section 4: Statements -/

/-- What SQL may answer without a lock; a statement uses the field it asks for. -/
structure Answer where
  /-- The clock of the database. -/
  now : Time
  /-- A new id. -/
  uuid : Text
  /-- Whether the member is active. -/
  member : Bool
  /-- The id of an action, by what was asked. -/
  found : Option Text
  /-- The ids of a list. -/
  rows : List Text
  /-- What stands on the card. -/
  ask : Ask

inductive Reply where
  | outcome (r : ActionRow)
  | claim (r : ActionRow) (payload : PersonalMailPayload)
  | nothing

abbrev Tx := Transaction Cell Answer Reply

section Statements

variable (codec : ActionCodec) (accepts : ActionRow → ActionRow → Bool)

/-- `row` -/
def lockAction (actionId actor : Text) (next : ActionRow → Tx) : Tx :=
  .lock (.action actionId) fun (found : Option ActionRow) =>
    match found with
    | some r => if r.selection.actorMemberId = actor then next r else .rollback
    | none => .rollback

def lockApproval (callId : Text) (next : Option Ask → Tx) : Tx :=
  .lock (.approval callId) fun (found : Option Ask) => next found

/-- `currentMember` -/
def askMember (next : Tx) : Tx := .ask fun answer => if answer.member then next else .rollback

def updateAction (old new : ActionRow) (next : Tx) : Tx :=
  if accepts old new then .write (.action old.id) (some new) next else .rollback

def updateApproval (old new : Ask) (next : Tx) : Tx :=
  if guardExactApprovalAuthority old new then .write (.approval old.callId) (some new) next
  else .rollback

/-- The approval belongs to the action. -/
def approvalFits (r : ActionRow) (a : Ask) : Bool :=
  a.tool == PERSONAL_MAIL_SEND_TOOL && a.agent == r.selection.agentId &&
    a.actingMemberId == some r.selection.actorMemberId &&
    a.sessionId == some r.selection.sessionId && a.payloadHash == r.payloadHash &&
    codec.sameAuthority a.originalAuthority
      (codec.descriptor r (a.originalAuthority.bind Authority.policyHash))

/-- `approval` -/
def approvalOf (r : ActionRow) (callId requestId : Text) (approvedBy : Option Text) (link : Bool)
    (policyHash : Option Text) (next : Ask → Tx) : Tx :=
  lockApproval callId fun found =>
    match found with
    | none => .rollback
    | some a =>
        if (!(link && a.requestId == none) && a.requestId != some requestId) ||
            !approvalFits codec r a then .rollback
        else if policyHash.any fun policy =>
            a.originalAuthority.bind Authority.policyHash != some policy then .rollback
        else if approvedBy.any fun member => member != r.selection.actorMemberId ||
            a.resolvedByMemberId != some member || a.outcome != some .approved ||
            a.answeredAt == none then .rollback
        else .ask fun answer =>
          if r.expiresAt > answer.now ∧ a.askedAt + APPROVAL_TTL > answer.now then next a
          else .rollback

/-! ## Section 5: Operations -/

/-- The row that `prepareAction` inserts. -/
def freshAction (actionId : Text) (s : Selection) (payload : PersonalMailPayload) (now : Time) :
    ActionRow where
  id := actionId
  selection := s
  originalCallHash := codec.guardHash s
  payloadHash := codec.payloadFingerprint payload
  payloadCiphertext := codec.encrypt ⟨actionId, s, payload⟩
  approvalCallId := none
  approvalRequestId := none
  createdAt := now
  expiresAt := now + APPROVAL_TTL
  state := .awaitingApproval
  attemptId := none
  claimedAt := none
  receipt := none
  completedAt := none

/-- `prepareAction`, where no row is found. -/
def insertTx (actionId : Text) (s : Selection) (payload : PersonalMailPayload) (reserved : Bool) :
    Tx :=
  let ciphertext := codec.encrypt ⟨actionId, s, payload⟩
  if reserved then .rollback
  else if ciphertext.length < 1 ∨ ciphertext.length > MAX_CIPHERTEXT_LENGTH then .rollback
  else .ask fun answer =>
    .lock (.action actionId) fun (found : Option ActionRow) =>
      if found.isSome then .rollback
      else
        -- the trigger reserves the original call, or refuses
        .lock (.call (codec.guardHash s)) fun (reserved : Bool) =>
          if reserved then .rollback
          else .write (.call (codec.guardHash s)) true
            (.write (.action actionId) (some (freshAction codec actionId s payload answer.now))
              (.commit (.outcome (freshAction codec actionId s payload answer.now))))

/-- `prepareAction`, from its transaction on. -/
def prepareTx (actionId : Text) (s : Selection) (payload : PersonalMailPayload) : Tx :=
  let original := codec.originalHash s
  let fingerprint := codec.payloadFingerprint payload
  .lock (.call original) fun (reserved : Bool) =>
    askMember (.ask fun answer =>
      match answer.found with
      | none => insertTx codec actionId s payload reserved
      | some id => .lock (.action id) fun (found : Option ActionRow) =>
          match found with
          | none => insertTx codec actionId s payload reserved
          | some r =>
              if r.originalCallHash ≠ original then insertTx codec actionId s payload reserved
              else if codec.selectionPrint r.selection ≠ codec.selectionPrint s ∨
                  r.payloadHash ≠ fingerprint then .rollback
              else
                match codec.payload r with
                | none => .rollback
                | some stored =>
                    if codec.payloadPrint stored ≠ codec.payloadPrint payload then .rollback
                    else .commit (.outcome r))

/-- `reserveApproval` -/
def reserveTx (actionId actor : Text) (turnSequence : Int) (policyHash : Option Text) : Tx :=
  lockAction actionId actor fun r =>
    if r.state ≠ .awaitingApproval then .rollback
    else
      match codec.descriptor r policyHash with
      | none => .rollback
      | some descriptor => .ask fun answer =>
          lockApproval r.selection.originalCallId fun found =>
            let fresh : Ask := {
              callId := r.selection.originalCallId
              requestId := none
              agent := r.selection.agentId
              tool := PERSONAL_MAIL_SEND_TOOL
              payloadHash := r.payloadHash
              originalAuthority := some descriptor
              actingMemberId := some r.selection.actorMemberId
              resolvedByMemberId := none
              sessionId := some r.selection.sessionId
              turnSequence := some turnSequence
              askedAt := answer.now
              answeredAt := none
              outcome := none
              usedAt := none
              useCount := 0 }
            let a := found.getD fresh
            if a.requestId ≠ none ∨ a.outcome ≠ none ∨ a.payloadHash ≠ r.payloadHash ∨
                codec.sameAuthority a.originalAuthority (some descriptor) = false then .rollback
            else .write (.approval r.selection.originalCallId) (some a) (.commit .nothing)

/-- The row that `attachApproval` writes. -/
def ActionRow.attached (r : ActionRow) (approvalCallId requestId : Text) : ActionRow :=
  { r with
    approvalCallId := some approvalCallId
    approvalRequestId := some requestId
    state := .awaitingDispatch }

/-- `attachApproval` -/
def attachTx (actionId actor approvalCallId requestId : Text) : Tx :=
  lockAction actionId actor fun r =>
    if r.state = .awaitingApproval ∨ (r.state = .awaitingDispatch ∧
        r.approvalCallId = some approvalCallId ∧ r.approvalRequestId = some requestId) then
      approvalOf codec r approvalCallId requestId none true none fun a =>
        updateApproval a { a with requestId := some requestId }
          (updateAction accepts r (r.attached approvalCallId requestId)
            (.commit (.outcome (r.attached approvalCallId requestId))))
    else .rollback

/-- `PersonalActionApprovedReference` -/
structure Reference where
  actionId : Text
  payloadHash : Hash
  approvalCallId : Text
  requestId : Text
  resolvedByMemberId : Text
  policyHash : Option Hash
  selection : Selection

/-- The row that `claimAction` writes. -/
def ActionRow.claim (r : ActionRow) (attempt : Text) (now : Time) : ActionRow :=
  { r with state := .claimed, attemptId := some attempt, claimedAt := some now }

def ActionRow.move (r : ActionRow) (state : ActionState) : ActionRow := { r with state := state }

/-- `claimAction` -/
def claimTx (ref : Reference) : Tx :=
  lockAction ref.actionId ref.selection.actorMemberId fun r =>
    if codec.selectionPrint r.selection ≠ codec.selectionPrint ref.selection ∨
        r.payloadHash ≠ ref.payloadHash ∨ r.approvalCallId ≠ some ref.approvalCallId ∨
        r.approvalRequestId ≠ some ref.requestId then .rollback
    else if r.state ≠ .awaitingDispatch then .commit (.outcome r)
    else .ask fun clock =>
      if r.expiresAt ≤ clock.now then
        updateAction accepts r (r.move .expired) (.commit (.outcome (r.move .expired)))
      else
        approvalOf codec r ref.approvalCallId ref.requestId (some ref.resolvedByMemberId) false
          ref.policyHash fun a =>
            match codec.payload r with
            | none => .rollback
            | some payload => .ask fun answer =>
                if r.expiresAt > answer.now ∧ a.outcome = some .approved ∧
                    a.askedAt + APPROVAL_TTL > answer.now then
                  let claimed := r.claim answer.uuid answer.now
                  updateAction accepts r claimed (.commit (.claim claimed payload))
                else .rollback

/-- `validateClaimInTransaction`, of a permit's row and payload. -/
def validateTx (p : ActionRow) (payload : PersonalMailPayload) (policyHash : Option Hash) : Tx :=
  lockAction p.id p.selection.actorMemberId fun r =>
    if r.state ≠ .claimed ∨ r.attemptId ≠ p.attemptId ∨
        codec.selectionPrint r.selection ≠ codec.selectionPrint p.selection ∨
        r.payloadHash ≠ p.payloadHash ∨
        (codec.payload r).map codec.payloadPrint ≠ some (codec.payloadPrint payload) then .rollback
    else
      match p.approvalCallId, p.approvalRequestId with
      | some callId, some requestId =>
          approvalOf codec r callId requestId (some p.selection.actorMemberId) false policyHash
            fun _ => .commit .nothing
      | _, _ => .rollback

/-- The row that `settlement` writes. -/
def ActionRow.settled (r : ActionRow) (receipt : Receipt) (now : Time) : ActionRow :=
  { r with state := receipt.state, receipt := some receipt, completedAt := some now }

/-- `settlement`, of a permit's row. -/
def settleTx (p : ActionRow) (receipt : Receipt) : Tx :=
  lockAction p.id p.selection.actorMemberId fun r =>
    if r.attemptId ≠ p.attemptId then .rollback
    else if r.state ≠ .claimed then
      if codec.receiptPrint r.receipt ≠ codec.receiptPrint (some receipt) then .rollback
      else .commit (.outcome r)
    else .ask fun answer =>
      updateAction accepts r (r.settled receipt answer.now)
        (.commit (.outcome (r.settled receipt answer.now)))

/-- The terminal answers of `cancelApprovalRequest`. -/
inductive Terminal where
  | cancelled | ignored | invalid
  deriving DecidableEq

def Terminal.outcome : Terminal → AskOutcome
  | cancelled => .cancelled
  | ignored => .ignored
  | invalid => .invalid

/-- `cancelApprovalRequest` -/
def cancelRequestTx (actor requestId : Text) (terminal : Terminal) : Tx :=
  askMember (.ask fun answer =>
    match answer.found with
    | none => .rollback
    | some id => lockAction id actor fun r =>
        if r.approvalRequestId ≠ some requestId then .rollback
        else lockApproval r.selection.originalCallId fun found =>
          match found with
          | none => .rollback
          | some a =>
              if r.approvalCallId ≠ some r.selection.originalCallId ∨
                  a.requestId ≠ some requestId ∨ approvalFits codec r a = false then .rollback
              else if r.state ≠ .awaitingApproval ∧ r.state ≠ .awaitingDispatch ∧
                  r.state ≠ .cancelled then .rollback
              else if a.outcome ≠ none ∧ a.outcome ≠ some .approved ∧
                  a.outcome ≠ some terminal.outcome then .rollback
              else .ask fun clock =>
                updateAction accepts r (r.move .cancelled)
                  (updateApproval a { a with
                      outcome := some terminal.outcome
                      answeredAt := some (a.answeredAt.getD clock.now) }
                    (.commit (.outcome (r.move .cancelled)))))

/-- `cancelUnclaimedAction` -/
def cancelUnclaimedTx (actor actionId : Text) : Tx :=
  askMember (lockAction actionId actor fun r =>
    if r.state = .cancelled then .commit (.outcome r)
    else if r.state ≠ .awaitingApproval ∧ r.state ≠ .awaitingDispatch then .rollback
    else updateAction accepts r (r.move .cancelled) (.commit (.outcome (r.move .cancelled))))

/-- The DELETE of `pruneForMember`, row by row. -/
def deleteTx (actor : Text) (cutoff : Time) : List Text → Tx
  | [] => .commit .nothing
  | id :: ids => .lock (.action id) fun (found : Option ActionRow) =>
      match found with
      | some r =>
          if r.selection.actorMemberId = actor ∧ r.createdAt < cutoff then
            .write (.action id) none (deleteTx actor cutoff ids)
          else deleteTx actor cutoff ids
      | none => deleteTx actor cutoff ids

/-- `pruneForMember`: the cutoff of the retention, and the rows that the statement finds. -/
def pruneTx (actor : Text) : Tx := .ask fun answer => deleteTx actor answer.now answer.rows

/-- Another writer of `approval_asks`: a new ask, or an UPDATE. -/
def askTx (callId : Text) : Tx :=
  .ask fun answer =>
    lockApproval callId fun found =>
      match found with
      | none =>
          if answer.ask.callId = callId then
            .write (.approval callId) (some answer.ask) (.commit .nothing)
          else .rollback
      | some a =>
          if answer.ask.callId = callId then updateApproval a answer.ask (.commit .nothing)
          else .rollback

end Statements

/-! ## Section 6: The store -/

/-- `PermitData` -/
structure Permit where
  /-- The row as it was claimed. -/
  row : ActionRow
  /-- What is to be sent. -/
  payload : PersonalMailPayload
  /-- The policy it was claimed under. -/
  policyHash : Option Hash
  /-- It was taken. -/
  consumed : Bool

/-- What `consumeClaimPermit` returns. -/
structure Dispatch where
  /-- The permit it was taken from. -/
  permit : Nat
  actionId : Text
  attemptId : Option Text
  /-- Whose action, and which. -/
  selection : Selection
  /-- What is sent. -/
  payload : PersonalMailPayload
  deriving DecidableEq

structure ActionStore where
  /-- What `prepareAction` has been called for. -/
  requested : List Envelope
  permits : List Permit
  dispatched : List Dispatch

inductive ActionCall where
  | prepareAction (selection : Selection) (payload : PersonalMailPayload) (actionId : Text)
  | reserveApproval (actionId actorMemberId : Text) (turnSequence : Int) (policyHash : Option Text)
  | attachApproval (actionId actorMemberId approvalCallId requestId : Text)
  | claimAction (reference : Reference)
  | consumeClaimPermit (permit : Nat)
  | validateClaimInTransaction (permit : Nat)
  | recordOutcome (permit : Nat) (receipt : Receipt)
  | cancelApprovalRequest (actorMemberId requestId : Text) (terminal : Terminal)
  | cancelUnclaimedAction (actorMemberId actionId : Text)
  | pruneForMember (actorMemberId : Text)
  | ask (callId : Text)

namespace ActionStore

variable (codec : ActionCodec) (accepts : ActionRow → ActionRow → Bool)

/-- `p.consumed=true` -/
def burn (s : ActionStore) (k : Nat) : ActionStore :=
  { s with permits := s.permits.modify k fun p => { p with consumed := true } }

/-- What a call does before its first statement. -/
def start (s : ActionStore) : ActionCall → Option (ActionStore × Option Tx)
  | .prepareAction selection payload actionId =>
      if codec.acceptsSelection selection && codec.acceptsPayload payload then
        let envelope : Envelope := ⟨actionId, selection.lowered, payload⟩
        if codec.envelopeBytes envelope > MAX_ENVELOPE_BYTES then none
        else some ({ s with requested := s.requested ++ [envelope] },
          some (prepareTx codec actionId selection.lowered payload))
      else none
  | .reserveApproval actionId actorMemberId turnSequence policyHash =>
      some (s, some (reserveTx codec actionId actorMemberId turnSequence policyHash))
  | .attachApproval actionId actorMemberId approvalCallId requestId =>
      some (s, some (attachTx codec accepts actionId actorMemberId approvalCallId requestId))
  | .claimAction reference => some (s, some (claimTx codec accepts reference))
  | .consumeClaimPermit k =>
      match s.permits[k]? with
      | none => none
      | some p =>
          if p.consumed then none
          else some ({ s.burn k with dispatched := s.dispatched ++
            [⟨k, p.row.id, p.row.attemptId, p.row.selection, p.payload⟩] }, none)
  | .validateClaimInTransaction k =>
      match s.permits[k]? with
      | none => none
      | some p =>
          if p.consumed then none else some (s, some (validateTx codec p.row p.payload p.policyHash))
  | .recordOutcome k receipt =>
      if codec.acceptsReceipt receipt then
        match s.permits[k]? with
        | none => none
        -- burned before anything can be awaited
        | some p => some (s.burn k, some (settleTx codec accepts p.row receipt))
      else none
  | .cancelApprovalRequest actorMemberId requestId terminal =>
      some (s, some (cancelRequestTx codec accepts actorMemberId requestId terminal))
  | .cancelUnclaimedAction actorMemberId actionId =>
      some (s, some (cancelUnclaimedTx accepts actorMemberId actionId))
  | .pruneForMember actorMemberId => some (s, some (pruneTx actorMemberId))
  | .ask callId => some (s, some (askTx callId))

/-- What a call does after its COMMIT is answered: only a claim leaves something. -/
def finish (call : ActionCall) (reply : Reply) (s : ActionStore) : ActionStore :=
  match call, reply with
  | .claimAction reference, .claim row payload =>
      { s with permits := s.permits ++ [⟨row, payload, reference.policyHash, false⟩] }
  | _, _ => s

/-- `PgPersonalActionStore`, on a table that takes the UPDATEs that `accepts` takes. -/
def callers : Callers Cell Answer Reply ActionCall ActionStore where
  start := start codec accepts
  finish := finish

/-- No actions, no reserved calls and no permits; asks of others may be there. -/
def Fresh (db : Db) (s : ActionStore) : Prop :=
  (∀ id, db.action id = none) ∧ (∀ hash, db.reserved hash = false) ∧
    (∀ callId a, db.approval callId = some a → a.callId = callId) ∧
    s.requested = [] ∧ s.permits = [] ∧ s.dispatched = []

/-- Any number of callers, their statements interleaved. -/
def systemOn : System (Callers.Server Cell Answer Reply ActionCall ActionStore)
    (Callers.ServerLabel Answer ActionCall) :=
  (callers codec accepts).server Fresh

/-- With the trigger and the CHECKs of the table. -/
def system : System (Callers.Server Cell Answer Reply ActionCall ActionStore)
    (Callers.ServerLabel Answer ActionCall) :=
  systemOn codec (acceptsUpdate codec)

end ActionStore

end Lares.Approvals
