import Lares.Framework.Interleaving
import Mathlib

/-! # The follow-up of a meeting

    One row of `meeting_followup_sent` for a meeting page: who has claimed it,
    how often, for which version of the page, and whether the mail is out.

    * **The row**: one definition for each SQL statement.
    * **The tick** of the schedule, one at a time: claim, ask the gate, compose,
      ask the gate again, open the send-turn, note the outcome. It may end
      anywhere.
    * **Executions** of `meeting_followup_send`, any number: an approved card, an
      autonomous series, a conversation.
    * **Declines, redrafts, edits of the page** at any time.
-/

namespace Lares.Meetings

abbrev Hash := List Char
/-- Milliseconds. -/
abbrev Time := Int

/-! ## Section 1: The row -/

inductive FollowupOutcome where
  /-- The mail is out. -/
  | sent
  /-- A send-turn has run, and its card may wait for an answer. -/
  | queued
  /-- There is nobody outside to write to. -/
  | skipped
  /-- Claimed and not yet decided, or failed. -/
  | error
  /-- A card was declined. -/
  | denied
deriving DecidableEq

def MAX_ATTEMPTS : Nat := 3

/-- 20 minutes. -/
def RETRY_ELIGIBLE_AFTER : Time := 1200000

structure Row where
  outcome : FollowupOutcome
  attempts : Nat
  /-- When it was claimed or sent, or a time long enough ago for a retry. -/
  processedAt : Time
  /-- The version of the page at the last claim; rows of an older schema have none. -/
  summaryHash : Option Hash
deriving DecidableEq

structure ClaimResult where
  attempt : Nat
  isFinalAttempt : Bool
  /-- A card was waiting or declined, and the page has changed since. -/
  reclaimedAfterChange : Bool
deriving DecidableEq

/-- A card may be waiting for its answer, or was declined. -/
def Row.carded (r : Row) : Bool := r.outcome = .denied || r.outcome = .queued

/-- The page is known to have changed since the last attempt. -/
def Row.changed (r : Row) (summaryHash : Hash) : Bool :=
  match r.summaryHash with
  | none => false
  | some stored => stored ≠ [] && stored ≠ summaryHash

def Row.retriable (r : Row) (now : Time) : Bool :=
  r.outcome = .error && r.processedAt < now - RETRY_ELIGIBLE_AFTER

/-- The first statement of `claimMeeting`, with the claim if there is one. -/
def claimMeeting (row : Option Row) (now : Time) (summaryHash : Hash) :
    Option Row × Option ClaimResult :=
  match row with
  | none => (some ⟨.error, 1, now, some summaryHash⟩, some ⟨1, decide (MAX_ATTEMPTS ≤ 1), false⟩)
  | some r =>
      if r.attempts < MAX_ATTEMPTS ∧ (r.retriable now ∨ r.carded ∧ r.changed summaryHash) then
        (some ⟨.error, r.attempts + 1, now, some summaryHash⟩,
          some ⟨r.attempts + 1, decide (MAX_ATTEMPTS ≤ r.attempts + 1), r.carded⟩)
      else (row, none)

/-- Its second statement, where nothing was claimed. -/
def adoptHash (row : Option Row) (summaryHash : Hash) : Option Row :=
  row.map fun r =>
    if r.carded ∧ (r.summaryHash = none ∨ r.summaryHash = some []) then
      { r with summaryHash := some summaryHash }
    else r

def recordDenial (row : Option Row) : Option Row :=
  row.map fun r =>
    if r.outcome = .queued ∨ r.outcome = .error then { r with outcome := .denied } else r

/-- With whether the row was reset. -/
def resetClaimForRedraft (row : Option Row) (now : Time) : Option Row × Bool :=
  match row with
  | none => (none, false)
  | some r =>
      if r.outcome ≠ .sent then
        (some { r with
          outcome := .error, attempts := 0, processedAt := now - RETRY_ELIGIBLE_AFTER - 1000 }, true)
      else (row, false)

def releaseClaim (row : Option Row) (now : Time) : Option Row :=
  row.map fun r =>
    if r.outcome = .error then
      { r with attempts := r.attempts - 1, processedAt := now - RETRY_ELIGIBLE_AFTER - 1000 }
    else r

def recordSent (row : Option Row) (now : Time) : Option Row :=
  match row with
  | none => some ⟨.sent, 1, now, none⟩
  | some r => some { r with outcome := .sent, processedAt := now }

def recordOutcome (row : Option Row) (outcome : FollowupOutcome) : Option Row :=
  row.map fun r => if r.outcome ≠ .sent then { r with outcome } else r

def getOutcome (row : Option Row) : Option FollowupOutcome := row.map Row.outcome

/-! ## Section 2: The page -/

/-- What the tick has claimed. -/
structure Claim extends ClaimResult where
  /-- Of the summary that the tick has read. -/
  summaryHash : Hash
deriving DecidableEq

/-- Where the tick is, on its way over this page. -/
inductive Tick where
  /-- Listed, with the hash of its summary, and with nobody to write to or somebody. -/
  | claim (summaryHash : Hash) (internal : Bool)
  /-- Nothing was claimed. -/
  | adopt (summaryHash : Hash)
  /-- `deps.precheck` -/
  | precheck (claim : Claim)
  /-- `deps.compose` -/
  | compose (claim : Claim)
  /-- `deps.send`, up to the verdict of its gate. -/
  | gate (claim : Claim)
  /-- The send-turn. -/
  | turn (claim : Claim)
  /-- The series needs no card: did the tool record a mail? -/
  | readBack
  /-- The gate has held the page back. -/
  | release (claim : Claim)
  | record (outcome : FollowupOutcome)
deriving DecidableEq

/-- Its send-turn is still to come. -/
def Tick.waits : Tick → Bool
  | .precheck _ | .compose _ | .gate _ | .release _ => true
  | _ => false

structure Page where
  /-- The hash of the summary as the page reads now. -/
  live : Hash
  now : Time
  row : Option Row
  tick : Option Tick
  /-- The version that the gate last let through to a send-turn. -/
  passed : Option Hash
  /-- Mails that have left since the last reset. -/
  mails : Nat
  /-- Executions whose mail has left and that have not come to `recordSent`. -/
  leaving : Nat
  /-- Claims since the last reset that were not given back. -/
  taken : Nat
deriving DecidableEq

inductive TickAnswer where
  | done
  /-- The statement or the call throws. -/
  | failed
  /-- The gate holds it back. -/
  | held
  /-- The send-turn is over, and the series needs no card. -/
  | autonomous
deriving DecidableEq

namespace Page

def fresh (live : Hash) (now : Time) : Page := ⟨live, now, none, none, none, 0, 0, 0⟩

def enter (s : Page) (tick : Option Tick) : Page := { s with tick }

/-- `makeFollowupTick`, from one wait to the next. -/
def tickStep (s : Page) (tick : Tick) (answer : TickAnswer) : Page :=
  match tick with
  | .claim summaryHash internal =>
      if answer = .failed then s.enter none
      else
        match claimMeeting s.row s.now summaryHash with
        | (row, some result) =>
            { s with
              row
              taken := s.taken + 1
              tick := some (if internal then .record .skipped
                else .precheck { result with summaryHash }) }
        | (row, none) => { s with row, tick := some (.adopt summaryHash) }
  | .adopt summaryHash =>
      if answer = .failed then s.enter none
      else { s with row := adoptHash s.row summaryHash, tick := none }
  -- a precheck that fails lets the page through
  | .precheck claim => s.enter (some (if answer = .held then .release claim else .compose claim))
  | .compose claim =>
      s.enter (some (if answer = .failed then .record .error else .gate claim))
  | .gate claim =>
      match answer with
      | .failed => s.enter (some (.record .error))
      | .held => s.enter (some (.release claim))
      | _ => { s with passed := some claim.summaryHash, tick := some (.turn claim) }
  | .turn _ =>
      s.enter (some (match answer with
        | .failed => .record .error
        | .autonomous => .readBack
        | _ => .record .queued))
  | .readBack =>
      if answer ≠ .failed ∧ getOutcome s.row = some .sent then s.enter none
      else s.enter (some (.record .error))
  | .release _ =>
      if answer = .failed then s.enter none
      else
        { s with
          row := releaseClaim s.row s.now
          taken := if getOutcome s.row = some .error then s.taken - 1 else s.taken
          tick := none }
  | .record outcome =>
      if answer = .failed then s.enter none
      else { s with row := recordOutcome s.row outcome, tick := none }

end Page

inductive Event where
  /-- The next tick lists the page; no other is running. -/
  | list (internal : Bool)
  | tick (answer : TickAnswer)
  /-- The process ends, and its tick with it. -/
  | crash
  /-- `meeting_followup_record_denial` -/
  | decline
  /-- `meeting_followup_redraft` -/
  | redraft
  /-- The owner corrects the page. -/
  | edit (summaryHash : Hash)
  | wait (time : Nat)
deriving DecidableEq

def Page.happens (s : Page) : Event → Option Page
  | .list internal => if s.tick = none then some (s.enter (some (.claim s.live internal))) else none
  | .tick answer => s.tick.map fun tick => s.tickStep tick answer
  | .crash => some (s.enter none)
  | .decline => some { s with row := recordDenial s.row }
  | .redraft =>
      let reset := resetClaimForRedraft s.row s.now
      some { s with
        row := reset.1
        mails := if reset.2 then 0 else s.mails
        taken := if reset.2 then 0 else s.taken }
  -- no digest is empty
  | .edit summaryHash => if summaryHash ≠ [] then some { s with live := summaryHash } else none
  | .wait time => some { s with now := s.now + time }

/-- `execute` of `meeting_followup_send` -/
inductive Execution where
  /-- `gmail.send` -/
  | send
  /-- `recordSent` -/
  | record
deriving DecidableEq

/-- The answer is whether the call resolves. -/
def execute (s : Page) (execution : Execution) (resolves : Bool) : Page × Option Execution :=
  match execution with
  | .send =>
      if resolves then ({ s with mails := s.mails + 1, leaving := s.leaving + 1 }, some .record)
      else (s, none)
  | .record =>
      ({ s with
        row := if resolves then recordSent s.row s.now else s.row
        leaving := s.leaving - 1 }, none)

def executions : Requests Page Execution Bool Event where
  begins _ execution := decide (execution = .send)
  step s execution resolves := some (execute s execution resolves)
  happens := Page.happens

def followup : System (Requests.State Page Execution) (Requests.Label Execution Bool Event) :=
  executions.system fun s => ∃ live now, live ≠ [] ∧ s = Page.fresh live now

end Lares.Meetings
