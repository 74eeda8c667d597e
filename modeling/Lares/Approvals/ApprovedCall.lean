import Lares.Approvals.Ledger
import Lares.Approvals.Fingerprint
import Lares.Framework.Interleaving
import Mathlib

/-! # A call that has an answer

    `assertApprovedCall`: before a tool runs, the card that was shown for its
    call is looked up in the ledger.

    * **The table**: its statements, each of which is atomic. Rows with an
      authority belong to another path, which only has to respect the trigger.
    * **A call** reads the row, and refuses, settles or counts it. Every access
      may fail, and its answer may be lost.
    * **The system** is any number of calls beside the hook that records cards
      and answers.
-/

namespace Lares.ApprovedCalls

open Approvals

/-! ## Section 1: The table -/

/-- `AskRow` -/
structure AskRow (δ Authority : Type) where
  requestId : Option JsText
  originalAuthority : Option Authority
  callId : JsText
  agent : JsText
  tool : JsText
  payloadHash : δ
  askedAt : Time
  answeredAt : Option Time
  outcome : Option AskOutcome
  answeredVia : Option JsText
  usedAt : Option Time
  useCount : ℕ
deriving DecidableEq

/-- A card as the hook sees it. -/
structure Card where
  requestId : JsText
  callId : JsText
  agent : JsText
  tool : JsText
  input : Input

section Table

variable {δ Authority : Type}

abbrev Asks (δ Authority : Type) := List (AskRow δ Authority)

/-- One of the two unique indexes has the row. -/
def conflicts (requestId : Option JsText) (callId : JsText) (asks : Asks δ Authority) : Bool :=
  asks.any fun r => decide (r.callId = callId) || r.requestId.any fun id => requestId == some id

/-- `recordAsk`, of a card with its fingerprint. -/
def recordAsk (now : Time) (sha256 : ByteArray → δ) (card : Card) (asks : Asks δ Authority) :
    Asks δ Authority :=
  if conflicts (some card.requestId) card.callId asks then asks
  else asks ++ [⟨some card.requestId, none, card.callId, card.agent, card.tool,
    payloadFingerprint sha256 card.tool card.input, now, none, none, none, none, 0⟩]

/-- The row of a request id. -/
def AskRow.answers (r : AskRow δ Authority) (requestId : Option JsText) : Bool :=
  requestId.any fun id => r.requestId == some id

/-- `recordAnswer` -/
def recordAnswer (now : Time) (requestId : JsText) (outcome : AskOutcome) (via : Option JsText)
    (asks : Asks δ Authority) : Asks δ Authority :=
  asks.map fun r =>
    if r.answers (some requestId) && r.outcome.isNone && r.originalAuthority.isNone then
      { r with answeredAt := some now, outcome := some outcome, answeredVia := via }
    else r

/-- `askForCall` -/
def askForCall (callId : JsText) (asks : Asks δ Authority) : Option (AskRow δ Authority) :=
  asks.find? fun r => decide (r.callId = callId)

/-- `expired` and `payload-changed`, which a check may settle. -/
inductive Settled where
  | expired
  | payloadChanged
deriving DecidableEq

def Settled.outcome : Settled → AskOutcome
  | .expired => .expired
  | .payloadChanged => .payloadChanged

/-- `settle` of the production reader. -/
def settle (now : Time) (requestId : Option JsText) (o : Settled) (asks : Asks δ Authority) :
    Asks δ Authority :=
  asks.map fun r =>
    if r.answers requestId && (r.outcome.isNone || r.outcome == some .approved) then
      { r with answeredAt := some (r.answeredAt.getD now), outcome := some o.outcome }
    else r

/-- `markUsed` of the production reader. -/
def markUsed (now : Time) (requestId : Option JsText) (asks : Asks δ Authority) :
    Asks δ Authority :=
  asks.map fun r =>
    if r.answers requestId then
      { r with useCount := r.useCount + 1, usedAt := some (r.usedAt.getD now) }
    else r

variable [DecidableEq Authority] [DecidableEq δ]

/-- What `guard_exact_approval_authority` lets the other path write over a row of its own. -/
def guardsExact (old new : AskRow δ Authority) : Bool :=
  old.originalAuthority.isSome && new.originalAuthority == old.originalAuthority &&
    new.callId == old.callId && new.agent == old.agent && new.tool == old.tool &&
    new.payloadHash == old.payloadHash && new.askedAt == old.askedAt &&
    (old.requestId.isNone || new.requestId == old.requestId)

end Table

/-! ## Section 2: The check -/

/-- A call that is about to run. -/
structure ApprovedCall where
  /-- A call without an id passes nothing. -/
  callId : Option JsText
  toolName : JsText
  input : Input
  /-- The clock when the hook runs. -/
  now : Time
  /-- How long an ask stays good. -/
  ttl : Time

/-- `StaleApprovalError`, `ApprovalPayloadChangedError`, `ApprovalNotGivenError`, or the error of a
    row with an authority. -/
inductive Refusal where
  /-- The row has an authority. -/
  | boundAuthority
  /-- It was asked too long ago. -/
  | stale
  /-- The call is not the one that was shown. -/
  | payloadChanged
  /-- It was not approved. -/
  | notGiven (outcome : AskOutcome)
deriving DecidableEq

def Settled.refusal : Settled → Refusal
  | .expired => .stale
  | .payloadChanged => .payloadChanged

inductive Decision where
  | refuse (e : Refusal)
  | settle (o : Settled)
  | pass
deriving DecidableEq

section Check

variable {δ Authority : Type} [DecidableEq δ]

/-- The checks of `assertApprovedCall` on a row, in their order. -/
def checkRow (sha256 : ByteArray → δ) (call : ApprovedCall) (row : AskRow δ Authority) : Decision :=
  if row.originalAuthority.isSome then .refuse .boundAuthority
  else
    match row.outcome with
    | some .expired => .refuse .stale
    | some .payloadChanged => .refuse .payloadChanged
    | some .cancelled => .refuse (.notGiven .cancelled)
    | some .ignored => .refuse (.notGiven .ignored)
    | some .invalid => .refuse (.notGiven .invalid)
    | _ =>
        if call.ttl < call.now - row.askedAt then .settle .expired
        else if row.payloadHash ≠ payloadFingerprint sha256 call.toolName call.input then
          .settle .payloadChanged
        else .pass

/-- How a call ended: with no row to check, or on a row. -/
inductive Result where
  | unchecked
  | refused (e : Refusal)
  | passed
deriving DecidableEq

/-- The end of a call, with the row it read and whether its pass was counted. -/
structure Verdict (δ Authority : Type) where
  call : ApprovedCall
  /-- `none` where nothing was asked. -/
  row : Option (AskRow δ Authority)
  result : Result
  /-- Its use is in `useCount`. -/
  counted : Bool

/-! ## Section 3: The system -/

/-- The table, with what happened so far. -/
structure Register (δ Authority : Type) where
  asks : Asks δ Authority
  shown : List Card
  verdicts : List (Verdict δ Authority)

/-- What a call waits for. -/
inductive Pending (δ Authority : Type) where
  | asking (call : ApprovedCall)
  | settling (call : ApprovedCall) (row : AskRow δ Authority) (o : Settled)
  | marking (call : ApprovedCall) (row : AskRow δ Authority)

/-- A statement is carried out at a time, or fails, or is carried out and its answer lost. -/
inductive DbAnswer where
  | done (now : Time)
  | lost (now : Time)
  | failed

/-- The time at which a statement was carried out. -/
def DbAnswer.at? : DbAnswer → Option Time
  | .done now => some now
  | .lost now => some now
  | .failed => none

/-- What other parts do to the table. -/
inductive LedgerEvent (δ Authority : Type) where
  /-- A card is shown, and its ask recorded. -/
  | cardShown (now : Time) (card : Card)
  /-- It is answered. -/
  | answered (now : Time) (requestId : JsText) (outcome : AskOutcome) (via : Option JsText)
  /-- An exact card adds its row. -/
  | exactReserved (row : AskRow δ Authority)
  /-- It changes one. -/
  | exactUpdated (row : AskRow δ Authority)

def Register.ends (s : Register δ Authority) (v : Verdict δ Authority) : Register δ Authority :=
  { s with verdicts := s.verdicts ++ [v] }

variable [DecidableEq Authority] (sha256 : ByteArray → δ)

/-- `assertApprovedCall` goes on with the answer of a statement. -/
def stepCall (s : Register δ Authority) : Pending δ Authority → DbAnswer →
    Option (Register δ Authority × Option (Pending δ Authority))
  | .asking call, answer =>
      match call.callId with
      | none => some (s.ends ⟨call, none, .unchecked, false⟩, none)
      | some [] => some (s.ends ⟨call, none, .unchecked, false⟩, none)
      | some callId =>
          match answer with
          | .done _ =>
              match askForCall callId s.asks with
              | none => some (s.ends ⟨call, none, .unchecked, false⟩, none)
              | some row =>
                  match checkRow sha256 call row with
                  | .refuse e => some (s.ends ⟨call, some row, .refused e, false⟩, none)
                  | .settle o => some (s, some (.settling call row o))
                  | .pass => some (s, some (.marking call row))
          | _ => some (s.ends ⟨call, none, .unchecked, false⟩, none)
  | .settling call row o, answer =>
      let asks :=
        match answer.at? with
        | some now => settle now row.requestId o s.asks
        | none => s.asks
      some (({ s with asks }).ends ⟨call, some row, .refused o.refusal, false⟩, none)
  | .marking call row, answer =>
      match answer.at? with
      | some now =>
          some (({ s with asks := markUsed now row.requestId s.asks }).ends
            ⟨call, some row, .passed, true⟩, none)
      | none => some (s.ends ⟨call, some row, .passed, false⟩, none)

def happens (s : Register δ Authority) : LedgerEvent δ Authority → Option (Register δ Authority)
  | .cardShown now card =>
      some { s with asks := recordAsk now sha256 card s.asks, shown := s.shown ++ [card] }
  | .answered now requestId outcome via =>
      some { s with asks := recordAnswer now requestId outcome via s.asks }
  | .exactReserved row =>
      if row.originalAuthority.isSome && !conflicts row.requestId row.callId s.asks then
        some { s with asks := s.asks ++ [row] }
      else none
  | .exactUpdated row =>
      match askForCall row.callId s.asks with
      | some old =>
          if guardsExact old row && !(s.asks.any fun r =>
              decide (r.callId ≠ row.callId) && r.answers row.requestId) then
            some { s with asks := s.asks.map fun r => if r.callId = row.callId then row else r }
          else none
      | none => none

/-- Calls that are checked, over one table. -/
def approvedCalls :
    Requests (Register δ Authority) (Pending δ Authority) DbAnswer (LedgerEvent δ Authority) where
  begins _ req :=
    match req with
    | .asking _ => true
    | _ => false
  step := stepCall sha256
  happens := happens sha256

/-- It starts with an empty table. -/
def approvalSystem :
    System (Requests.State (Register δ Authority) (Pending δ Authority))
      (Requests.Label (Pending δ Authority) DbAnswer (LedgerEvent δ Authority)) :=
  (approvedCalls sha256).system fun s => s = ⟨[], [], []⟩

end Check

end Lares.ApprovedCalls
