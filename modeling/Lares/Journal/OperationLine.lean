import Lares.Framework.Line
import Lares.Framework.System

/-! # The operation line of the journal

    `operation` runs one piece of work at a time. A call that finds the
    barrier taken is turned away, or waits in line for a bounded time.

    Every label is one stretch of code that nothing interrupts: a call, a
    write of a running operation, the end of one with the hand-over in its
    `finally`, a timer, a drain. What the disk does is in the label.

    * What an operation's work writes between its begin and its end are
      labels of their own, in any order.
    * The listener that `whenInDoubt` sets only calls back in, so its calls
      are labels too.
-/

namespace Lares.Journal

open Line (Turn Event)

/-! ## Section 1: States -/

/-- Who holds the barrier. -/
inductive Holder where
  | operation (turn : Turn)
  | settlement
  | fullCheck
  deriving DecidableEq

/-- Who waits for the barrier to be left: a shutdown, a restore, or a restore past its deadline. -/
inductive Drain where
  | shutdown
  | restore
  | expired
  deriving DecidableEq

/-- A record, by the call that wrote it. -/
inductive Entry where
  /-- The records of a next book, opened to make room for the call. -/
  | book (call : Turn)
  | begin (call : Turn)
  /-- A proposal, a terminal or a control record of the call's operation. -/
  | work (call : Turn)
  /-- A record of nobody's call: a freeze, a lease or a settlement. -/
  | custody
  deriving DecidableEq

def Entry.call : Entry → Option Turn
  | book call => some call
  | begin call => some call
  | work call => some call
  | custody => none

/-- `pending`: the operation that has begun; none is one of an earlier keeper. -/
structure PendingOperation where
  call : Option Turn
  proposal : Bool
  deriving DecidableEq

structure OperationLine where
  /-- The barrier is taken. -/
  busy : Bool
  /-- Nothing is let in any more. -/
  closed : Bool
  /-- Nothing is written any more. -/
  frozen : Bool
  /-- Nothing new is started. -/
  stopping : Bool
  /-- Nobody knows whether the pending operation has committed. -/
  inDoubt : Bool
  /-- The lease is held. -/
  writerLease : Bool
  /-- It is being fetched. -/
  startupLeasePending : Bool
  /-- The operation that has begun and not ended. -/
  pending : Option PendingOperation
  /-- Who waits, in the order of their turns. -/
  line : List Turn
  /-- The timers that have neither fired nor been cleared. -/
  timers : List Turn
  /-- Who waits for the barrier to be free. -/
  idle : List Drain
  /-- The drains whose promise is resolved and whose code goes on. -/
  drained : List Drain
  /-- The code that holds the barrier. -/
  holders : List Holder
  /-- How many calls there have been. -/
  calls : Nat
  /-- What was asked and answered, oldest first. -/
  log : List Event
  /-- The records that were written. -/
  journal : List Entry

/-- How the synchronous part of `startOperation` goes. -/
inductive Start where
  /-- `ensureRoom` throws, before the barrier is taken. -/
  | noRoom (rolled freezes : Bool)
  /-- The barrier is taken, but the begin record is not written. -/
  | unbegun (rolled freezes : Bool)
  /-- The begin record is written. -/
  | begun (rolled : Bool)
  deriving DecidableEq

/-- How far `settle` comes. -/
inductive Settling where
  /-- A write fails, with the pending operation ended or not. -/
  | failed (ended cleared : Bool)
  /-- The key store's half may not have run. -/
  | unpublished
  | settled
  deriving DecidableEq

inductive LineLabel where
  /-- An operation asks for its turn. It only waits with a `wait`, which says whether it goes
  first. -/
  | operation (wait : Option Bool) (start : Start)
  /-- The timer of a turn fires. -/
  | timeout (turn : Turn)
  /-- The proposal of the running operation. -/
  | propose (call : Turn) (written : Bool)
  /-- Its transaction has committed; a control record follows the terminal. -/
  | committed (call : Turn) (written control : Bool)
  /-- It has not committed. -/
  | aborted (call : Turn) (written : Bool)
  /-- Nobody knows whether it has. -/
  | markInDoubt (call : Turn)
  /-- The operation is over, and hands over. -/
  | endOperation (turn : Turn) (start : Turn → Start)
  /-- The settlement takes the barrier. -/
  | withSettlementBarrier
  /-- The settlement writes. -/
  | settle (owner : Bool) (fate : Settling)
  /-- It gives the barrier back. -/
  | endSettlement (start : Turn → Start)
  /-- The full check takes the barrier. -/
  | withFullCheckBarrier
  /-- It gives the barrier back. -/
  | endFullCheck (start : Turn → Start)
  /-- The line is stopped. -/
  | drainForShutdown
  /-- The line is stopped, for a restore. -/
  | freezeForRestore (written : Bool)
  /-- A restore has waited for the barrier long enough. -/
  | restoreDeadline
  /-- The code that waited for the barrier goes on. -/
  | drained (drain : Drain) (written : Bool)
  /-- The freeze is written. -/
  | persistFreeze (written : Bool)
  /-- The lease of the writer is taken. -/
  | acquireWriterLease (verified written : Bool)
  /-- The journal is closed. -/
  | close (written : Bool)

/-! ## Section 2: The line -/

namespace OperationLine

/-- `unavailable` -/
def unavailable (s : OperationLine) : Bool :=
  s.closed || s.frozen || s.stopping || s.inDoubt || !s.writerLease

/-- `splice(indexOf(turn),1)`: without the turn, the last one goes. -/
def spliceOut (line : List Turn) (turn : Turn) : List Turn :=
  match line.idxOf? turn with
  | some i => line.eraseIdx i
  | none => line.dropLast

/-- `refuse`, as an event. -/
def refuse (s : OperationLine) (turn : Turn) : OperationLine :=
  { s with log := s.log ++ [.refused turn] }

/-- Where `joinLine` puts a turn. -/
def place (line : List Turn) (turn : Turn) : List Turn :=
  match if turn.first then line.findIdx? fun other => !other.first else none with
  | none => line ++ [turn]
  | some ahead => line.take ahead ++ turn :: line.drop ahead

/-- `joinLine` -/
def joinLine (s : OperationLine) (turn : Turn) : OperationLine :=
  { s with
    line := place s.line turn
    timers := turn :: s.timers
    log := s.log ++ [.joined turn] }

/-- The records of a next book. -/
def roll (call : Turn) (rolled : Bool) : List Entry := if rolled then [.book call] else []

/-- What the end of an operation does before the hand-over. -/
def leaveOperation (s : OperationLine) : OperationLine :=
  { s with
    busy := false
    frozen := s.frozen || (s.pending.isSome && !s.inDoubt)
    idle := []
    drained := s.drained ++ s.idle }

/-- What the end of a check does before the hand-over. -/
def leaveBarrier (s : OperationLine) : OperationLine :=
  { s with busy := false, idle := [], drained := s.drained ++ s.idle }

/-- The synchronous part of `startOperation`, up to the hand-over of one that has ended. -/
def startOperation (s : OperationLine) (turn : Turn) (start : Start) : OperationLine :=
  let s := { s with log := s.log ++ [Event.started turn] }
  match start with
  | .noRoom rolled freezes =>
      { s with frozen := s.frozen || freezes, journal := s.journal ++ roll turn rolled }
  | .unbegun rolled freezes =>
      leaveOperation { s with
        busy := true
        frozen := s.frozen || freezes
        journal := s.journal ++ roll turn rolled }
  | .begun rolled =>
      { s with
        busy := true
        pending := some ⟨some turn, false⟩
        holders := s.holders ++ [Holder.operation turn]
        journal := s.journal ++ roll turn rolled ++ [Entry.begin turn] }

/-- The loop of `nextInLine`. A turn that ends at once hands over by itself: its own loop takes
    the turns that this one would have taken. -/
def handOver (start : Turn → Start) : List Turn → OperationLine → OperationLine
  | [], s => s
  | turn :: rest, s =>
      if s.busy then s
      else
        let s := { s with line := rest, timers := s.timers.erase turn }
        if s.unavailable then handOver start rest (s.refuse turn)
        else handOver start rest (s.startOperation turn (start turn))

/-- `nextInLine` -/
def nextInLine (start : Turn → Start) (s : OperationLine) : OperationLine :=
  handOver start s.line s

/-- The loop of `refuseLine`. -/
def refuseAll : List Turn → OperationLine → OperationLine
  | [], s => s
  | turn :: rest, s => refuseAll rest ({ s with timers := s.timers.erase turn }.refuse turn)

/-- `refuseLine` -/
def refuseLine (s : OperationLine) : OperationLine := refuseAll s.line { s with line := [] }

/-! ## Section 3: Steps -/

/-- `append`: a failed write freezes. -/
def append (s : OperationLine) (entry : Entry) (written allowFrozen : Bool) :
    OperationLine × Bool :=
  if s.closed || (s.frozen && !allowFrozen) || !s.busy || !written then
    ({ s with frozen := true }, false)
  else ({ s with journal := s.journal ++ [entry] }, true)

/-- `persistFreeze`, which takes the barrier for its own write only. -/
def persistFreeze (s : OperationLine) (written : Bool) : OperationLine :=
  if s.closed then s
  else
    let t := ({ s with busy := true }.append .custody written true).1
    { t with busy := s.busy, frozen := true }

/-- `operation` -/
def operation (s : OperationLine) (wait : Option Bool) (start : Start) : OperationLine :=
  let turn : Turn := ⟨s.calls, wait.getD false⟩
  let s := { s with calls := s.calls + 1 }
  if s.unavailable then s.refuse turn
  else if !s.busy && s.line.isEmpty then s.startOperation turn start
  else
    match wait with
    | none => s.refuse turn
    | some _ => s.joinLine turn

/-- `settle`, for what it does to the line. -/
def settle (s : OperationLine) (owner : Bool) (fate : Settling) : OperationLine :=
  if !s.busy || s.closed || (s.frozen && !owner) then s
  else
    match fate with
    | .failed ended cleared =>
        { s with
          pending := if ended then none else s.pending
          inDoubt := s.inDoubt && !cleared
          frozen := true }
    | .unpublished =>
        persistFreeze { s with
          pending := none, inDoubt := false, journal := s.journal ++ [.custody] } true
    | .settled =>
        { s with
          pending := none
          inDoubt := false
          frozen := s.frozen && !owner
          journal := s.journal ++ [.custody] }

/-- Stop, refuse the line, and wait for the barrier if somebody holds it. -/
def drain (s : OperationLine) (drain : Drain) : OperationLine :=
  let s := { s with stopping := true }.refuseLine
  if s.busy then { s with idle := s.idle ++ [drain] } else { s with drained := s.drained ++ [drain] }

/-- One stretch of code. -/
def next (s : OperationLine) : LineLabel → Option OperationLine
  | .operation wait start => some (s.operation wait start)
  | .timeout turn =>
      if turn ∈ s.timers then
        some ({ s with line := spliceOut s.line turn, timers := s.timers.erase turn }.refuse turn)
      else none
  | .propose call written =>
      if s.pending = some ⟨some call, false⟩ then
        let (t, ok) := s.append (.work call) written false
        some (if ok then { t with pending := some ⟨some call, true⟩ } else t)
      else some s
  | .committed call written control =>
      if s.pending = some ⟨some call, true⟩ then
        let (t, ok) := s.append (.work call) written false
        some (if ok then ({ t with pending := none }.append (.work call) control false).1 else t)
      else some s
  | .aborted call written =>
      if s.pending.bind PendingOperation.call = some call then
        let (t, ok) := s.append (.work call) written false
        some (if ok then { t with pending := none } else t)
      else some s
  | .markInDoubt call =>
      if s.frozen then some s
      else if s.pending = some ⟨some call, true⟩ then some { s with inDoubt := true }.refuseLine
      else some s
  | .endOperation turn start =>
      if .operation turn ∈ s.holders then
        some ({ s with holders := s.holders.erase (.operation turn) }.leaveOperation.nextInLine
          start)
      else none
  | .withSettlementBarrier =>
      if s.closed || s.stopping || s.busy then some s
      else some { s with busy := true, holders := s.holders ++ [.settlement] }
  | .settle owner fate => some (s.settle owner fate)
  | .endSettlement start =>
      if .settlement ∈ s.holders then
        some ({ s with holders := s.holders.erase .settlement }.leaveBarrier.nextInLine start)
      else none
  | .withFullCheckBarrier =>
      if s.unavailable || s.busy || !s.line.isEmpty then some s
      else some { s with busy := true, holders := s.holders ++ [.fullCheck] }
  | .endFullCheck start =>
      if .fullCheck ∈ s.holders then
        some ({ s with holders := s.holders.erase .fullCheck }.leaveBarrier.nextInLine start)
      else none
  | .drainForShutdown => some (s.drain .shutdown)
  | .freezeForRestore written =>
      if s.startupLeasePending && !s.frozen then some s
      else if s.busy then some (s.drain .restore)
      else some ({ s with stopping := true }.refuseLine.persistFreeze written)
  | .restoreDeadline =>
      if .restore ∈ s.idle then some { s with idle := s.idle.erase .restore ++ [.expired] }
      else none
  | .drained drain written =>
      if drain ∈ s.drained then
        let t := { s with drained := s.drained.erase drain }
        some (if drain = .restore then t.persistFreeze written else t)
      else none
  | .persistFreeze written => some (s.persistFreeze written)
  | .acquireWriterLease verified written =>
      if s.closed || s.frozen || s.stopping || s.busy || s.writerLease || !verified then some s
      else
        let (t, ok) := { s with busy := true }.append .custody written false
        some (if ok then { t with busy := false, writerLease := true, startupLeasePending := false }
          else { t with busy := false })
  | .close written =>
      if s.closed || s.busy then some s
      else if s.writerLease && !s.frozen && !s.inDoubt then
        let t := ({ s with busy := true }.append .custody written false).1
        some { t with busy := false, closed := true }
      else some { s with closed := true }

end OperationLine

/-- The labels that leave the barrier. -/
def LineLabel.leaves : LineLabel → Bool
  | .endOperation .. | .endSettlement _ | .endFullCheck _ => true
  | _ => false

/-- A keeper's journal, just opened: it may be frozen or unsettled, and may have to take its lease. -/
def operationLine : System OperationLine LineLabel where
  init s := s.busy = false ∧ s.line = [] ∧ s.timers = [] ∧ s.idle = [] ∧ s.drained = [] ∧
    s.holders = [] ∧ s.calls = 0 ∧ s.log = [] ∧ s.journal = [] ∧
    ∀ pending ∈ s.pending, pending.call = none
  next := OperationLine.next

end Lares.Journal
