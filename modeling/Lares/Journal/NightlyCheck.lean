import Lares.Journal.FullCheck

/-! # The nightly check among running operations

    `runScheduledLedgerCheck` as a step machine beside journal operations that
    change the database. One label is one query, one comparison or one step of
    an operation, so every interleaving is a run.

    * Rows are read with no barrier held, and compared with the journal as it
      is when the page has arrived. A row that differs is a suspect.
    * Suspects are read again with the barrier held, and so are the counts.
    * An operation holds the barrier from its begin to its end, and changes the
      database before its commit is recorded.
-/

namespace Lares.Journal

/-! ## Section 1: States -/

/-- `SCHEDULED_SUSPECT_LIMIT` -/
def SCHEDULED_SUSPECT_LIMIT : Nat := 2000
/-- `SCHEDULED_RECHECK_CHUNK` -/
def SCHEDULED_RECHECK_CHUNK : Nat := 100

/-- `ScheduledLedgerCheck` -/
inductive ScheduledLedgerCheck where
  | matched | busy | unavailable | mismatch
  deriving DecidableEq, Repr

/-- A table and the id of a row that differed. -/
abbrev Suspect := AtomKind × Id

/-- Who holds the barrier of the journal. -/
inductive Barrier where
  | free
  /-- An operation, with the checkpoint it has inserted and not yet recorded. -/
  | operation (pending : Option FinancialCheckpoint)
  | check
  deriving DecidableEq

/-- Where the check stands. -/
inductive CheckPc where
  | idle
  /-- About to read a page of the first table. -/
  | walk (table : AtomKind) (tables : List AtomKind) (after : Id) (suspects : List Suspect)
  /-- A page has arrived, and is not empty. -/
  | visit (table : AtomKind) (tables : List AtomKind) (page : List LedgerRow) (last : LedgerRow)
      (suspects : List Suspect)
  /-- About to read checkpoints, with some left. -/
  | checkpoints (walked : Bool) (suspects : List Suspect) (sequence : Nat) (rolling : Hash)
      (left : Nat)
  /-- Waiting for the barrier, with suspects left. -/
  | recheck (walked checkpoints : Bool) (suspects : List Suspect)
  /-- Comparing a chunk with the barrier held. -/
  | rechecking (walked checkpoints : Bool) (chunk rest : List Suspect)
  /-- Waiting for the barrier to report a difference. -/
  | differs
  /-- Waiting for the barrier to compare the counts. -/
  | final (checkpoints : Bool)
  /-- Comparing the counts with the barrier held. -/
  | counting (checkpoints : Bool)
  | done (result : ScheduledLedgerCheck)
  deriving DecidableEq

/-- The database, the journal and the check. -/
structure Night where
  db : LedgerDatabase
  /-- `observeFinancialDatabase` -/
  database : FinancialDatabase
  /-- `control.database` -/
  control : FinancialDatabase
  journal : Committed
  /-- What the journal has committed and summarised. -/
  history : List CommitStep
  barrier : Barrier
  /-- Closed or frozen: there is no expectation to compare with. -/
  frozen : Bool
  /-- Also stopping, in doubt or without a lease: the barrier is refused. -/
  unavailable : Bool
  /-- The count and the rolling digest taken when the check began. -/
  snapshot : Nat × Hash
  pc : CheckPc

inductive NightLabel where
  /-- An operation takes the line. -/
  | begin
  /-- The operation's transaction, or a part of it, commits. -/
  | change (db : LedgerDatabase) (checkpoint : Option FinancialCheckpoint)
  /-- The journal commits the operation. -/
  | record (skip : Nat) (operationId : Id) (digest : Hash) (operation : BudgetFinancialOperation)
      (atoms : List FinancialAtom)
  /-- The operation gives the line back. -/
  | finish
  /-- The journal summarises what is finished. -/
  | summarise (now : Int)
  /-- The journal stops, frozen or not. -/
  | stop (freezes : Bool)
  /-- The check takes its snapshot. -/
  | startCheck
  /-- It reads a page of rows. -/
  | readPage
  /-- It compares the page, row by row. -/
  | visitPage
  /-- The database orders its checkpoints, and answers with the first of them. -/
  | readCheckpoints (sorted : List FinancialCheckpoint)
  /-- It takes the barrier, for the next suspects or the counts. -/
  | takeBarrier
  /-- It compares them under the barrier. -/
  | compare
  /-- A read fails. -/
  | fail
  /-- The barrier is not to be had. -/
  | giveUp

/-! ## Section 2: The check -/

namespace Night

variable (codec : LedgerCodec)

/-- The live half of the expectation. -/
def live (s : Night) : WholeLedgerExpectation :=
  fullLedgerExpectation codec s.journal.fold s.journal.trail

/-- The loop over a page: the suspects, and whether the walk goes on. -/
def visitRows (same : LedgerRow → Bool) : List LedgerRow → List Suspect → List Suspect × Bool
  | [], suspects => (suspects, true)
  | row :: rows, suspects =>
      let suspects := if same row then suspects else suspects ++ [(row.kind, row.id)]
      if suspects.length < SCHEDULED_SUSPECT_LIMIT then visitRows same rows suspects
      else (suspects, false)

/-- After the last suspect: the counts, unless the walk was cut short. -/
def recheckPc (walked checkpoints : Bool) (suspects : List Suspect) : CheckPc :=
  if suspects = [] then if walked then .final checkpoints else .done .unavailable
  else .recheck walked checkpoints suspects

/-- After the last checkpoint: the suspects. -/
def checkpointsPc (walked : Bool) (suspects : List Suspect) (digest : Hash) (sequence : Nat)
    (rolling : Hash) (left : Nat) : CheckPc :=
  if left = 0 then recheckPc walked (rolling == digest) suspects
  else .checkpoints walked suspects sequence rolling left

/-- After the last table: the checkpoints. -/
def walkPc (snapshot : Nat × Hash) (tables : List AtomKind) (suspects : List Suspect) : CheckPc :=
  match tables with
  | [] => checkpointsPc true suspects snapshot.2 0 zero snapshot.1
  | table :: tables => .walk table tables zeroUuid suspects

/-- The ids of one table in a chunk. -/
def idsOf (chunk : List Suspect) (table : AtomKind) : List Id :=
  (chunk.filter fun suspect => suspect.1 == table).map Prod.snd

/-- `table.sql` with the ids. -/
def select (db : LedgerDatabase) (table : AtomKind) (ids : List Id) : List LedgerRow :=
  (db.table table).filter fun row => ids.contains row.id

/-- The comparison of a chunk with the barrier held. -/
def chunkMatches (s : Night) (chunk : List Suspect) : Bool :=
  FINANCIAL_TABLES.all fun table =>
    let ids := idsOf chunk table
    let found := select s.db table ids
    ids.isEmpty || (found.length == ids.length && found.all (rowMatches codec (s.live codec)))

/-- `databaseMatches` -/
def databaseMatches (s : Night) : Bool := sameFinancialDatabase s.database s.control

/-! ## Section 3: Steps -/

/-- No row is lost, and checkpoints are only added. -/
def grows (db db' : LedgerDatabase) (checkpoint : Option FinancialCheckpoint) : Bool :=
  (FINANCIAL_TABLES.all fun table => (db.table table).all fun row =>
    (db'.table table).any fun row' => row'.id == row.id) &&
  decide (db'.checkpoints.rows.Perm (db.checkpoints.rows ++ checkpoint.toList))

/-- Leave the barrier as the check ends. -/
def released (s : Night) : Barrier := if s.barrier = .check then .free else s.barrier

/-- One step of an operation, of the journal or of the check. -/
def next (s : Night) : NightLabel → Option Night
  | .begin =>
      if s.barrier = .free ∧ s.unavailable = false then
        some { s with barrier := .operation none }
      else none
  | .change db checkpoint =>
      match s.barrier with
      | .operation pending =>
          if grows s.db db checkpoint = true ∧ (checkpoint.isSome → pending = none) ∧
              ∀ row ∈ checkpoint, s.journal.sequence ≤ row.sequence then
            some { s with db := db, barrier := .operation (checkpoint.or pending) }
          else none
      | _ => none
  | .record skip operationId digest operation atoms =>
      -- the commit that is recorded is the one in the database
      if s.barrier = .operation (some (s.journal.checkpoint skip operationId digest)) then
        (s.journal.next codec (.commit skip operationId digest operation atoms)).map fun journal =>
          { s with
            journal := journal
            history := s.history ++ [.commit skip operationId digest operation atoms]
            barrier := .operation none }
      else none
  | .finish =>
      match s.barrier with
      | .operation _ => some { s with barrier := .free }
      | _ => none
  | .summarise now =>
      (s.journal.next codec (.summarise now)).map fun journal =>
        { s with journal := journal, history := s.history ++ [.summarise now] }
  | .stop freezes => some { s with unavailable := true, frozen := s.frozen || freezes }
  | .startCheck =>
      if s.pc = .idle then
        if s.frozen then some { s with pc := .done .unavailable }
        else
          let snapshot := (s.journal.trail.checkpointCount, s.journal.trail.checkpointDigest)
          some { s with snapshot := snapshot, pc := walkPc snapshot FINANCIAL_TABLES [] }
      else none
  | .readPage =>
      match s.pc with
      | .walk table tables after suspects =>
          let page := Pages.page LedgerRow.id (s.db.table table) after WHOLE_LEDGER_BATCH
          match page.getLast? with
          | none => some { s with pc := walkPc s.snapshot tables suspects }
          | some last => some { s with pc := .visit table tables page last suspects }
      | _ => none
  | .visitPage =>
      match s.pc with
      | .visit table tables page last suspects =>
          let visited := visitRows (rowMatches codec (s.live codec)) page suspects
          if visited.2 then some { s with pc := .walk table tables last.id visited.1 }
          else some { s with pc := checkpointsPc false visited.1 s.snapshot.2 0 zero s.snapshot.1 }
      | _ => none
  | .readCheckpoints sorted =>
      match s.pc with
      | .checkpoints walked suspects sequence rolling left =>
          if sorted.Perm (Pages.rest FinancialCheckpoint.sequence s.db.checkpoints.rows sequence) ∧
              sorted.Pairwise (fun a b => a.sequence ≤ b.sequence) then
            let page := sorted.take (min WHOLE_LEDGER_BATCH left)
            match page.getLast? with
            | none => some { s with pc := recheckPc walked false suspects }
            | some last =>
                match rollPage codec rolling page with
                | none => some { s with pc := .done .unavailable }
                | some rolling => some { s with
                    pc := checkpointsPc walked suspects s.snapshot.2 last.sequence rolling
                      (left - page.length) }
          else none
      | _ => none
  | .takeBarrier =>
      if s.barrier = .free ∧ s.unavailable = false then
        match s.pc with
        | .recheck walked checkpoints suspects => some { s with
            barrier := .check
            pc := .rechecking walked checkpoints (suspects.take SCHEDULED_RECHECK_CHUNK)
              (suspects.drop SCHEDULED_RECHECK_CHUNK) }
        | .differs => some { s with frozen := true, unavailable := true, pc := .done .mismatch }
        | .final checkpoints => some { s with barrier := .check, pc := .counting checkpoints }
        | _ => none
      else none
  | .compare =>
      match s.pc with
      | .rechecking walked checkpoints chunk rest => some { s with
          barrier := s.released
          pc := if s.frozen then .done .unavailable
            else if s.chunkMatches codec chunk then recheckPc walked checkpoints rest
            else .differs }
      | .counting checkpoints =>
          if s.frozen then some { s with barrier := s.released, pc := .done .unavailable }
          else if checkpoints && s.databaseMatches &&
              financialCountsMatch s.db (s.live codec).counts then
            some { s with barrier := s.released, pc := .done .matched }
          else some { s with
            barrier := s.released
            frozen := true
            unavailable := true
            pc := .done .mismatch }
      | _ => none
  | .fail =>
      match s.pc with
      | .idle => none
      | .done _ => none
      | _ => some { s with barrier := s.released, pc := .done .unavailable }
  | .giveUp =>
      match s.pc with
      | .recheck _ _ _ => some { s with pc := .done .busy }
      | .differs => some { s with pc := .done .busy }
      | .final _ => some { s with pc := .done .busy }
      | _ => none

end Night

/-- The steps of the check itself. -/
def NightLabel.ofCheck : NightLabel → Bool
  | .startCheck | .readPage | .visitPage | .readCheckpoints _ | .takeBarrier | .compare | .fail
  | .giveUp => true
  | _ => false

/-- A night begins with no operation running and a journal that recorded its history. -/
def nightSystem (codec : LedgerCodec) : System Night NightLabel where
  init s := s.barrier = .free ∧ s.pc = .idle ∧
    (Committed.system codec s.journal.journalId).run (Committed.start s.journal.journalId) s.history =
      some s.journal
  next := Night.next codec

/-- Where the barrier is free, the database is the journal's and holds its fold. -/
def Night.Healthy (codec : LedgerCodec) (s : Night) : Prop :=
  s.barrier = .free → s.databaseMatches = true ∧
    Holds codec s.db (ledgerOf s.history) (checkpointsOf s.journal.journalId s.history)

end Lares.Journal
