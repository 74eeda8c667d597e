import Lares.Framework.Lines
import Lares.Framework.PrefixCode
import Lares.Journal.Committed
import Mathlib

/-! # Loading the journal books

    `load` replays the books, oldest first. The record of each kind is one
    clause of `Loading.body`; what every record is checked for is in
    `Loading.record`.

    * A book with a next book is trusted: the next book's first line holds its
      fingerprint, so its lines are parsed but their digests are not checked.
    * Only the last book may end in a torn line.
    * Every error reads the same to the caller of `openExisting`, so a failed
      load is `none`.
-/

namespace Lares.Journal

attribute [local instance] Lines.lawfulText

/-! ## Section 1: States -/

/-- The proposal of the pending operation. -/
structure PendingProposal where
  digest : Hash
  sequence : Nat
  atoms : List FinancialAtom
  deriving DecidableEq

structure Pending where
  id : Id
  operation : BudgetFinancialOperation
  publishes : Bool
  proposal : Option PendingProposal
  deriving DecidableEq

/-- What the loop over the records keeps. -/
structure Loading where
  genesis : Bool
  /-- Each record must name it. -/
  journalId : Id
  /-- The sequence of the next record. -/
  sequence : Nat
  /-- The digest of the last one. -/
  head : Hash
  /-- The book that is read has its seal. -/
  sealed : Bool
  /-- Some record has frozen the journal. -/
  frozen : Bool
  freezes : List FinancialFreezeReason
  control : Option FinancialControl
  preparationComplete : Bool
  /-- Who holds the lease. -/
  writer : Option Id
  /-- The operations of the last book. -/
  operations : List Id
  /-- The operation that has begun and not ended. -/
  pending : Option Pending
  unpublished : Option Id
  lastCheckpoint : Option FinancialCheckpoint
  fold : Fold
  trail : Trail

/-- Where a record stands, and whether its book is trusted. -/
structure Place where
  index : Nat
  position : Nat
  trusted : Bool

namespace Loading

def start : Loading where
  genesis := false
  journalId := []
  sequence := 0
  head := zero
  sealed := false
  frozen := false
  freezes := []
  control := none
  preparationComplete := false
  writer := none
  operations := []
  pending := none
  unpublished := none
  lastCheckpoint := none
  fold := Fold.empty
  trail := Trail.empty

/-! ## Section 2: Records -/

variable (codec : Codec)

/-- The first record of a later book. -/
def opensBook (s : Loading) (index : Nat) : RecordBody → Bool
  | .bookOpen journalId book _ _ => book == index + 1 && journalId == s.journalId
  | _ => false

/-- `commit`: the proposal joins the fold. -/
def commit (s : Loading) (pending : Pending) (proposal : PendingProposal) : Option Loading :=
  let row : FinancialCheckpoint := ⟨pending.id, s.journalId, proposal.sequence, proposal.digest⟩
  let fold := s.fold.applyAtoms codec proposal.atoms
  if Committed.fits fold then
    some { s with
      lastCheckpoint := some row
      trail := s.trail.addCheckpoint codec row pending.operation
      fold := fold
      unpublished := if pending.publishes then some pending.id else s.unpublished
      pending := none }
  else none

/-- What each kind of record is checked for, and what it changes. -/
def body (place : Place) (s : Loading) (frame : Frame) : Option Loading :=
  let r := frame.record
  match r.body with
  | .genesis _ _ => none
  | .bookOpen _ _ _ _ => if place.position = 0 then some s else none
  | .bookSeal book =>
      if s.pending = none ∧ book = place.index + 1 then some { s with sealed := true } else none
  | .freeze reason => some { s with frozen := true, freezes := s.freezes ++ [reason] }
  | .preparationComplete =>
      if r.sequence = 2 ∧ s.control.isSome ∧ s.preparationComplete = false ∧ s.writer = none ∧
          s.pending = none then
        some { s with preparationComplete := true }
      else none
  | .control control =>
      if s.pending = none ∧ control.journalId = s.journalId ∧
          control.checkpoint = s.lastCheckpoint ∧
          ∀ before ∈ s.control, before.database = control.database then
        some { s with control := some control }
      else none
  | .writerOpen =>
      if s.writer = none ∧ s.pending = none then some { s with writer := some r.operationId }
      else none
  | .writerClose =>
      if s.writer = some r.operationId ∧ s.pending = none then some { s with writer := none }
      else none
  | .begin operation publishes =>
      if s.writer.isSome ∧ s.pending = none ∧
          (place.trusted = true ∨ r.operationId ∉ s.operations) then
        some { s with
          operations := if place.trusted then s.operations else r.operationId :: s.operations
          unpublished := none
          pending := some ⟨r.operationId, operation, publishes, none⟩ }
      else none
  | .proposal atoms =>
      match s.pending with
      | some pending =>
          if pending.id = r.operationId ∧ pending.proposal = none ∧
              (place.trusted = true ∨ uniqueFinancialAtoms atoms = true) then
            some { s with
              pending := some { pending with proposal := some ⟨frame.digest, r.sequence, atoms⟩ } }
          else none
      | none => none
  | .commit proposalDigest =>
      match s.pending with
      | some pending =>
          match pending.proposal with
          | some proposal =>
              if pending.id = r.operationId ∧ proposal.digest = proposalDigest then
                s.commit codec pending proposal
              else none
          | none => none
      | none => none
  | .observation observation =>
      match s.control, s.lastCheckpoint with
      | some control, some last =>
          if s.pending = none ∧ r.operationId = observation.operationId ∧
              observation.checkpoint = last ∧
              sameFinancialDatabase observation.database control.database = true then
            some s
          else none
      | _, _ => none
  | .published =>
      if s.pending = none ∧ s.unpublished = some r.operationId then
        some { s with unpublished := none }
      else none
  | .recovered by_ database _ =>
      match s.control with
      | some control =>
          -- only the owner's record lifts a freeze
          if s.pending = none ∧ (∀ writer ∈ s.writer, writer = r.operationId) ∧
              ¬(by_ = .keeper ∧ s.frozen = true) ∧
              sameFinancialDatabase database control.database = true then
            if by_ = .owner then
              some { s with frozen := false, unpublished := none, freezes := [] }
            else some s
          else none
      | none => none
  | .abort proposalDigest _ =>
      match s.pending with
      | some pending =>
          if pending.id = r.operationId ∧
              pending.proposal.map PendingProposal.digest = proposalDigest then
            some { s with pending := none }
          else none
      | none => none

/-- The first record of all. -/
def first (fingerprint : Hash) (s : Loading) (r : JournalRecord) : Option Loading :=
  match r.body with
  | .genesis journalId suppressionKeyFingerprint =>
      if r.sequence = 0 ∧ suppressionKeyFingerprint = fingerprint then
        some { s with journalId := journalId, genesis := true }
      else none
  | _ => none

/-- One record. -/
def record (fingerprint : Hash) (place : Place) (s : Loading) (frame : Frame) : Option Loading :=
  let r := frame.record
  if r.sequence ≠ s.sequence ∨ r.previousDigest ≠ s.head then none
  else if s.sealed = true ∧ r.body.isFreeze = false then none
  else if 0 < place.index ∧ place.position = 0 ∧ s.opensBook place.index r.body = false then none
  else
    (if s.genesis then s.body codec place frame else s.first fingerprint r).map fun s =>
      { s with sequence := s.sequence + 1, head := frame.digest }

/-! ## Section 3: Books -/

/-- The line as a frame. The atoms of a trusted proposal are taken as they come. -/
def readFrame (trusted : Bool) (line : Bytes) : Option Frame :=
  if trusted then codec.parseTrusted line
  else if line.length + 1 > JOURNAL_MAX_RECORD_BYTES then none
  else
    (codec.parse line).bind fun frame =>
      if codec.financialJournalFrame frame.record = some (line ++ [LF], frame.digest) then
        some frame
      else none

/-- The lines of a book, from a position on. -/
def readRecords (fingerprint : Hash) (index : Nat) (trusted : Bool) :
    Nat → List Bytes → Loading → Option Loading
  | _, [], s => some s
  | position, line :: lines, s =>
      (readFrame codec trusted line).bind fun frame =>
        (s.record codec fingerprint ⟨index, position, trusted⟩ frame).bind
          (readRecords fingerprint index trusted (position + 1) lines)

end Loading

inductive TornTail where
  | setAside | ignore
  deriving DecidableEq

/-- What `load` is given beside the books. -/
structure LoadOptions where
  requirePrepared : Bool
  tornTail : Option TornTail
  maxBookBytes : Nat
  /-- The directory has a partial next book. -/
  hasPartial : Bool
  /-- `first-use.json`, if it can be read: its journal and its key's fingerprint. -/
  receipt : Option (Id × Hash)
  now : Int

/-- What `load` leaves. -/
structure Loaded where
  /-- What the records make. -/
  state : Loading
  /-- The bytes of the last book. -/
  size : Nat
  /-- Its records. -/
  bookRecords : Nat
  /-- The bytes after its last whole line. -/
  torn : Bytes
  /-- It was sealed, and the next was not begun. -/
  sealedTail : Bool
  /-- A preparation that was not completed: the journal is frozen before anything else. -/
  mustFreeze : Bool
  /-- An operation has begun and not ended. -/
  needsSettling : Bool

section Load

variable (codec : Codec) (options : LoadOptions) (fingerprint : Hash)

/-- A file of a book's size. -/
def LoadOptions.fitsBook (raw : Bytes) : Bool :=
  decide (1 ≤ raw.length) &&
    decide (raw.length ≤ options.maxBookBytes + BOOK_CLOSING_RECORDS * CONTROL_RECORD_BYTES)

/-- What the first line of a book says of the one before: its own number, and its fingerprint. -/
def sealOf (next : Bytes) : Option (Nat × Hash × Nat) :=
  ((readLines next).1.head?.bind codec.parse).bind fun frame =>
    match frame.record.body with
    | .bookOpen _ book sealedBookDigest sealedBookBytes =>
        some (book, sealedBookDigest, sealedBookBytes)
    | _ => none

/-- The lines of the last book, and what is torn. -/
def lastLines (raw : Bytes) : Option (List Bytes × Bytes) :=
  let read := readLines raw
  if read.1 = [] ∨ (read.2 ≠ [] ∧
      (options.tornTail = none ∨ JOURNAL_MAX_RECORD_BYTES ≤ read.2.length)) then none
  else some read

/-- The records of one book. -/
def readBook (index : Nat) (trusted : Bool) (lines : List Bytes) (s : Loading) : Option Loading :=
  if lines.length > JOURNAL_MAX_RECORDS + BOOK_CLOSING_RECORDS then none
  else Loading.readRecords codec fingerprint index trusted 0 lines { s with sealed := false }

/-- The loop over the books. -/
def readBooks : Nat → List Bytes → Loading → Option (Loading × List Bytes × Bytes)
  | _, [], _ => none
  | index, [raw], s =>
      if options.fitsBook raw then
        (lastLines options raw).bind fun read =>
          (readBook codec fingerprint index false read.1 s).map fun s => (s, read)
      else none
  | index, raw :: next :: books, s =>
      if options.fitsBook raw ∧ (readLines raw).2 = [] ∧
          sealOf codec next = some (index + 2, codec.digest raw, raw.length) then
        (readBook codec fingerprint index true (readLines raw).1 s).bind fun s =>
          if s.sealed then readBooks (index + 1) (next :: books) s else none
      else none

/-- `load`, up to what it writes: a torn line that is set aside, and the freeze of a preparation
    that was not completed. -/
def load (books : List Bytes) : Option Loaded :=
  (readBooks codec options fingerprint 0 books Loading.start).bind fun (s, lines, torn) =>
    let fold := s.fold.summariseFinished codec (some options.now)
    let state := { s with fold := fold }
    let prepared := options.requirePrepared || s.control.isSome
    let unfinished := s.pending.isSome || s.writer.isSome || s.sealed || s.unpublished.isSome ||
      s.control.any fun control => control.checkpoint != s.lastCheckpoint
    if options.hasPartial ∧ s.sealed = false then none
    else if Committed.fits fold = false then none
    else if prepared = true ∧ (s.control = none ∨ options.receipt ≠ some (s.journalId, fingerprint))
      then none
    else if unfinished = true ∧ prepared = false then none
    else
      let preparing := prepared && !s.preparationComplete
      some {
        state := state
        size := (joinLines lines).length
        bookRecords := lines.length
        torn := torn
        sealedTail := s.sealed
        mustFreeze := preparing && !s.frozen && options.tornTail != some .ignore
        needsSettling := !preparing && unfinished }

end Load

end Lares.Journal
