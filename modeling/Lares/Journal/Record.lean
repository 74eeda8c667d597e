import Mathlib.Data.List.Basic

/-! # Records of the financial journal

    The data of `financial-journal.ts`: financial atoms, the fifteen kinds of
    records, and the functions that turn a record into a line of bytes.

    * Canonical JSON, the schemas and SHA-256 are the fields of a `Codec`. What
      the journal relies on is in `Codec.Lawful`: canonical bytes hold no line
      feed and determine the value, and a line is read back as it was written.
    * `readLines` splits a file into its complete lines and the torn rest.
-/

namespace Lares.Journal

abbrev Text := List Char
abbrev Id := Text
abbrev Hash := Text
abbrev Bytes := List UInt8

/-! ## Section 1: Financial atoms -/

inductive AtomKind where
  | account | window | binding | attempt | grant | tombstone
  deriving DecidableEq, Repr

inductive AccountKind where
  | installation | member
  deriving DecidableEq

inductive AccountState where
  | closed | open | frozen | retired
  deriving DecidableEq

inductive AccountReason where
  | unreconciled | approved | policyChanged | memberRemoved | memberErased | receiptConflict
  | overReservation | recoveryMismatch
  deriving DecidableEq

structure AccountAtom where
  id : Id
  installationAccountId : Id
  accountKind : AccountKind
  state : AccountState
  reason : AccountReason
  activeWindowId : Option Id
  installationCap : Option Text
  policyGeneration : Text
  selectedEndpointHash : Option Hash
  endpointGeneration : Text
  recoveryEpochHash : Option Hash
  canonicalSuppressionHash : Option Hash
  providerSuppressionHashes : List Hash
  deriving DecidableEq

structure WindowAtom where
  id : Id
  accountId : Id
  startsAt : Text
  endsAt : Text
  openingLiability : Text
  openingCap : Text
  policyRevision : Text
  deriving DecidableEq

structure BindingAtom where
  id : Id
  installationAccountId : Id
  memberAccountId : Id
  endpointHash : Hash
  credentialGeneration : Text
  profileHash : Hash
  maximumLiability : Text
  /-- the canonical text of the pricing profile -/
  pricingProfile : Option Text
  active : Bool
  deriving DecidableEq

inductive AttemptState where
  | prepared | admitted | unknown | settled | conflict | retired
  deriving DecidableEq, Repr

structure AttemptAtom where
  id : Id
  installationAccountId : Id
  memberAccountId : Id
  bindingId : Id
  installationWindowId : Id
  memberWindowId : Id
  endpointHash : Hash
  credentialGeneration : Text
  installationPolicyGeneration : Text
  memberPolicyGeneration : Text
  endpointGeneration : Text
  recoveryEpochHash : Hash
  requestHash : Hash
  profileHash : Hash
  invocationHash : Option Hash
  reservedAmount : Text
  installationCapSnapshot : Text
  memberCapSnapshot : Text
  createdAt : Text
  expiresAt : Text
  admittedAt : Option Text
  state : AttemptState
  actualAmount : Option Text
  settlementHash : Option Hash
  conflictReason : Option AccountReason
  conflictHash : Option Hash
  highestObservedLiability : Text
  deriving DecidableEq

inductive FinancialAtom where
  | account (row : AccountAtom)
  | window (row : WindowAtom)
  | binding (row : BindingAtom)
  | attempt (row : AttemptAtom)
  | grant (attemptId : Id) (grantHash : Hash)
  | tombstone (accountId : Id) (canonicalSuppressionHash : Hash)
      (providerSuppressionHashes : List Hash) (erased : Bool)
  deriving DecidableEq

/-- `financialAtomKey`: the kind and the identity it is followed by. -/
abbrev AtomKey := AtomKind × Id

def financialAtomKey : FinancialAtom → AtomKey
  | .account row => (.account, row.id)
  | .window row => (.window, row.id)
  | .binding row => (.binding, row.id)
  | .attempt row => (.attempt, row.id)
  | .grant attemptId _ => (.grant, attemptId)
  | .tombstone accountId _ _ _ => (.tombstone, accountId)

/-- `assertUniqueFinancialAtoms` -/
def uniqueFinancialAtoms (atoms : List FinancialAtom) : Bool :=
  decide (atoms.map financialAtomKey).Nodup

/-! ## Section 2: Records -/

structure FinancialCheckpoint where
  operationId : Id
  journalId : Id
  sequence : Nat
  digest : Hash
  deriving DecidableEq

structure FinancialDatabase where
  systemIdentifier : Text
  postmasterStartedAt : Text
  databaseOid : Text
  deriving DecidableEq

/-- Which database this is; its start time is evidence, not identity. -/
def sameFinancialDatabase (left right : FinancialDatabase) : Bool :=
  left.systemIdentifier == right.systemIdentifier && left.databaseOid == right.databaseOid

structure FinancialControl where
  journalId : Id
  database : FinancialDatabase
  checkpoint : Option FinancialCheckpoint
  deriving DecidableEq

structure FinancialCounts where
  accounts : Int
  windows : Int
  bindings : Int
  attempts : Int
  grants : Int
  checkpoints : Int
  deriving DecidableEq

structure FinancialObservation where
  operationId : Id
  checkpoint : FinancialCheckpoint
  database : FinancialDatabase
  projectionDigest : Hash
  checkpointDigest : Hash
  counts : FinancialCounts
  deriving DecidableEq

inductive FinancialFreezeReason where
  | restore | continuity | uncertain
  deriving DecidableEq, Repr

inductive BudgetFinancialOperation where
  | prepare | provision | nativeActivation | admission | grant | unknown | settle | memberRemove
  | erasePerson | nativeCleanupRecovery
  deriving DecidableEq, Repr

inductive AbortReason where
  | notStarted | rollbackAcknowledged | sourceRetirementAcknowledged | sourceRetirementRolledBack
  | commitNeverSent | provenNotCommitted
  deriving DecidableEq, Repr

inductive Settler where
  | keeper | owner
  deriving DecidableEq, Repr

/-- The members of `FINANCIAL_JOURNAL_RECORD_SCHEMA`, without what all of them have. -/
inductive RecordBody where
  /-- The first record of the first book. -/
  | genesis (journalId : Id) (suppressionKeyFingerprint : Hash)
  /-- The first of another, which names the book before it. -/
  | bookOpen (journalId : Id) (book : Nat) (sealedBookDigest : Hash) (sealedBookBytes : Nat)
  /-- The last of a book. -/
  | bookSeal (book : Nat)
  /-- A writer takes the lease. -/
  | writerOpen
  /-- The first control record is in place. -/
  | preparationComplete
  /-- The control record of the installation. -/
  | control (control : FinancialControl)
  /-- Nothing may be written any more. -/
  | freeze (reason : FinancialFreezeReason)
  /-- The writer gives the lease back. -/
  | writerClose
  /-- An operation begins. -/
  | begin (operation : BudgetFinancialOperation) (publishes : Bool)
  /-- What it is going to write. -/
  | proposal (atoms : List FinancialAtom)
  /-- Its transaction has committed. -/
  | commit (proposalDigest : Hash)
  /-- The database as it was seen with the commit. -/
  | observation (observation : FinancialObservation)
  /-- The key store has done its half. -/
  | published
  /-- What the database holds, after an operation was settled from outside. -/
  | recovered (by_ : Settler) (database : FinancialDatabase) (projectionDigest : Hash)
  /-- It has not committed. -/
  | abort (proposalDigest : Option Hash) (reason : AbortReason)
  deriving DecidableEq

structure JournalRecord where
  sequence : Nat
  operationId : Id
  previousDigest : Hash
  body : RecordBody
  deriving DecidableEq

/-- `frameSchema`: a record and its digest. -/
structure Frame where
  record : JournalRecord
  digest : Hash
  deriving DecidableEq

namespace RecordBody

def isFreeze : RecordBody → Bool
  | .freeze _ => true
  | _ => false

end RecordBody

/-! ## Section 3: Lines -/

def LF : UInt8 := 10

def JOURNAL_MAX_RECORD_BYTES : Nat := 65536
def JOURNAL_MAX_BYTES : Nat := 8 * 1024 * 1024
def JOURNAL_MAX_RECORDS : Nat := 8192
def CONTROL_RECORD_BYTES : Nat := 1024
def BOOK_CLOSING_RECORDS : Nat := 2

/-- A digest that no chain has yet: 64 zeros. -/
def zero : Hash := List.replicate 64 '0'

/-- What the journal uses of JSON, of its schemas and of SHA-256. -/
structure Codec where
  /-- `FINANCIAL_JOURNAL_RECORD_SCHEMA.parse` takes the record. -/
  accepts : JournalRecord → Bool
  /-- `gatewayCanonical(record)` -/
  canonicalRecord : JournalRecord → Bytes
  /-- `gatewayCanonical({record,digest})` -/
  canonicalFrame : Frame → Bytes
  /-- `frameSchema.parse(JSON.parse(line))` -/
  parse : Bytes → Option Frame
  /-- The same, without the schema for a proposal. -/
  parseTrusted : Bytes → Option Frame
  /-- `gatewayCanonical(atom)` -/
  canonicalAtom : FinancialAtom → Bytes
  /-- `Buffer.from(previous)` followed by `gatewayCanonical(checkpoint)` -/
  canonicalRolling : Hash → FinancialCheckpoint → Bytes
  /-- `gatewayCanonical(checkpoints)` -/
  canonicalCheckpoints : List FinancialCheckpoint → Bytes
  /-- `gatewayCanonical({checkpoints,atoms})` -/
  canonicalProjection : List FinancialCheckpoint → List FinancialAtom → Bytes
  /-- SHA-256 -/
  digest : Bytes → Hash
  /-- `Date.parse` -/
  dateParse : Text → Int

/-- What the journal relies on. -/
structure Codec.Lawful (codec : Codec) : Prop where
  parse_canonicalFrame : ∀ frame, codec.accepts frame.record = true →
    codec.parse (codec.canonicalFrame frame) = some frame
  parseTrusted_of_parse : ∀ {line frame}, codec.parse line = some frame →
    codec.parseTrusted line = some frame
  canonicalFrame_line : ∀ frame, LF ∉ codec.canonicalFrame frame
  canonicalAtom_injective : Function.Injective codec.canonicalAtom

namespace Codec

variable (codec : Codec)

/-- `financialCheckpointRolling` -/
def rolling (previous : Hash) (checkpoint : FinancialCheckpoint) : Hash :=
  codec.digest (codec.canonicalRolling previous checkpoint)

def atomDigest (atom : FinancialAtom) : Hash := codec.digest (codec.canonicalAtom atom)

/-- The line of a record and its digest, without the bound on its length. -/
def frameOf (record : JournalRecord) : Frame :=
  ⟨record, codec.digest (codec.canonicalRecord record)⟩

/-- `financialJournalFrame` -/
def financialJournalFrame (record : JournalRecord) : Option (Bytes × Hash) :=
  if codec.accepts record then
    let frame := codec.frameOf record
    let bytes := codec.canonicalFrame frame ++ [LF]
    if bytes.length > JOURNAL_MAX_RECORD_BYTES then none else some (bytes, frame.digest)
  else none

theorem financialJournalFrame_eq_some {record : JournalRecord} {bytes : Bytes} {digest : Hash} :
    codec.financialJournalFrame record = some (bytes, digest) ↔
      codec.accepts record = true ∧ bytes = codec.canonicalFrame (codec.frameOf record) ++ [LF] ∧
        bytes.length ≤ JOURNAL_MAX_RECORD_BYTES ∧ digest = (codec.frameOf record).digest := by
  unfold financialJournalFrame
  split
  · next h =>
    dsimp only
    split
    · next hlong =>
      constructor
      · intro hn
        cases hn
      · rintro ⟨-, rfl, hle, -⟩
        omega
    · next hlong =>
      constructor
      · intro hs
        cases hs
        exact ⟨h, rfl, by omega, rfl⟩
      · rintro ⟨-, rfl, -, rfl⟩
        rfl
  · next h => simp [h]

end Codec

/-! ## Section 4: Files -/

/-- The complete lines of a file and what follows the last line feed. -/
def readLines : Bytes → List Bytes × Bytes
  | [] => ([], [])
  | b :: rest =>
      let read := readLines rest
      if b = LF then ([] :: read.1, read.2)
      else match read.1 with
        | [] => ([], b :: read.2)
        | line :: lines => ((b :: line) :: lines, read.2)

@[simp] theorem readLines_nil : readLines [] = ([], []) := rfl

theorem readLines_LF (rest : Bytes) :
    readLines (LF :: rest) = ([] :: (readLines rest).1, (readLines rest).2) := rfl

theorem readLines_torn_cons {b : UInt8} (hb : b ≠ LF) {rest : Bytes} (h : (readLines rest).1 = []) :
    readLines (b :: rest) = ([], b :: (readLines rest).2) := by
  simp only [readLines, if_neg hb, h]

theorem readLines_line_cons {b : UInt8} (hb : b ≠ LF) {rest line : Bytes} {lines : List Bytes}
    (h : (readLines rest).1 = line :: lines) :
    readLines (b :: rest) = ((b :: line) :: lines, (readLines rest).2) := by
  simp only [readLines, if_neg hb, h]

/-- The file of complete lines. -/
def joinLines (lines : List Bytes) : Bytes := (lines.map (· ++ [LF])).flatten

@[simp] theorem joinLines_nil : joinLines [] = [] := rfl

@[simp] theorem joinLines_cons (line : Bytes) (lines : List Bytes) :
    joinLines (line :: lines) = line ++ LF :: joinLines lines := by
  simp [joinLines]

/-- A file is its complete lines and its torn rest. -/
theorem joinLines_readLines (bytes : Bytes) :
    joinLines (readLines bytes).1 ++ (readLines bytes).2 = bytes ∧
      (∀ line ∈ (readLines bytes).1, LF ∉ line) ∧ LF ∉ (readLines bytes).2 := by
  induction bytes with
  | nil => simp
  | cons b rest ih =>
    obtain ⟨hjoin, hlines, htail⟩ := ih
    by_cases hb : b = LF
    · subst hb
      rw [readLines_LF]
      refine ⟨?_, by simpa using hlines, htail⟩
      rw [joinLines_cons, List.nil_append, List.cons_append, hjoin]
    · cases hr : (readLines rest).1 with
      | nil =>
        rw [hr] at hjoin
        rw [readLines_torn_cons hb hr]
        refine ⟨by simpa using hjoin, by simp, ?_⟩
        simpa using ⟨fun h => hb h.symm, htail⟩
      | cons line lines =>
        rw [hr] at hjoin hlines
        rw [readLines_line_cons hb hr]
        refine ⟨?_, ?_, htail⟩
        · rw [joinLines_cons] at hjoin ⊢
          rw [List.cons_append, List.cons_append, hjoin]
        · intro l hl
          rcases List.mem_cons.1 hl with rfl | hl
          · simpa using ⟨fun h => hb h.symm, hlines line List.mem_cons_self⟩
          · exact hlines l (List.mem_cons_of_mem _ hl)

end Lares.Journal
