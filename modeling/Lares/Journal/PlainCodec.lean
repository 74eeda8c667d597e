import Lares.Framework.PrefixCode
import Lares.Journal.Projection

/-! # A codec that meets the laws

    Records, atoms and checkpoints in prefix codes, and as the digest of some
    bytes the bytes themselves, read as characters. The laws of a `Codec` and
    freedom from collisions can be met together.
-/

namespace Lares.Journal.PlainCodec

open PrefixCode

/-! ## Section 1: Atoms -/

def text : PrefixCode Text := list char
def texts : PrefixCode (List Text) := list text
def maybe : PrefixCode (Option Text) := option text

/-- A finite type through the numbers of its values. -/
def enum {α : Type} (number : α → Nat) (value : Nat → α) (h : ∀ a, value (number a) = a) :
    PrefixCode α := nat.map number value h

def bool : PrefixCode Bool := enum Bool.toNat (· == 1) fun b => by cases b <;> rfl

def accountKind : PrefixCode AccountKind :=
  enum (fun | .installation => 0 | .member => 1) (fun | 0 => .installation | _ => .member)
    fun k => by cases k <;> rfl

def accountState : PrefixCode AccountState :=
  enum (fun | .closed => 0 | .open => 1 | .frozen => 2 | .retired => 3)
    (fun | 0 => .closed | 1 => .open | 2 => .frozen | _ => .retired) fun k => by cases k <;> rfl

def accountReason : PrefixCode AccountReason :=
  enum
    (fun | .unreconciled => 0 | .approved => 1 | .policyChanged => 2 | .memberRemoved => 3
         | .memberErased => 4 | .receiptConflict => 5 | .overReservation => 6
         | .recoveryMismatch => 7)
    (fun | 0 => .unreconciled | 1 => .approved | 2 => .policyChanged | 3 => .memberRemoved
         | 4 => .memberErased | 5 => .receiptConflict | 6 => .overReservation
         | _ => .recoveryMismatch)
    fun k => by cases k <;> rfl

def attemptState : PrefixCode AttemptState :=
  enum
    (fun | .prepared => 0 | .admitted => 1 | .unknown => 2 | .settled => 3 | .conflict => 4
         | .retired => 5)
    (fun | 0 => .prepared | 1 => .admitted | 2 => .unknown | 3 => .settled | 4 => .conflict
         | _ => .retired)
    fun k => by cases k <;> rfl

def account : PrefixCode AccountAtom :=
  (prod text (prod text (prod accountKind (prod accountState (prod accountReason (prod maybe
    (prod maybe (prod text (prod maybe (prod text (prod maybe (prod maybe texts)))))))))))).map
    (fun a => (a.id, a.installationAccountId, a.accountKind, a.state, a.reason, a.activeWindowId,
      a.installationCap, a.policyGeneration, a.selectedEndpointHash, a.endpointGeneration,
      a.recoveryEpochHash, a.canonicalSuppressionHash, a.providerSuppressionHashes))
    (fun (a, b, c, d, e, f, g, h, i, j, k, l, m) => ⟨a, b, c, d, e, f, g, h, i, j, k, l, m⟩)
    fun _ => rfl

def window : PrefixCode WindowAtom :=
  (prod text (prod text (prod text (prod text (prod text (prod text text)))))).map
    (fun a => (a.id, a.accountId, a.startsAt, a.endsAt, a.openingLiability, a.openingCap,
      a.policyRevision))
    (fun (a, b, c, d, e, f, g) => ⟨a, b, c, d, e, f, g⟩)
    fun _ => rfl

def binding : PrefixCode BindingAtom :=
  (prod text (prod text (prod text (prod text (prod text (prod text (prod text
    (prod maybe bool)))))))).map
    (fun a => (a.id, a.installationAccountId, a.memberAccountId, a.endpointHash,
      a.credentialGeneration, a.profileHash, a.maximumLiability, a.pricingProfile, a.active))
    (fun (a, b, c, d, e, f, g, h, i) => ⟨a, b, c, d, e, f, g, h, i⟩)
    fun _ => rfl

def attempt : PrefixCode AttemptAtom :=
  (prod (prod text (prod text (prod text (prod text (prod text (prod text (prod text (prod text
    text)))))))) (prod (prod text (prod text (prod text (prod text (prod text (prod maybe (prod text
    (prod text text)))))))) (prod text (prod text (prod maybe (prod attemptState (prod maybe
    (prod maybe (prod (option accountReason) (prod maybe text)))))))))).map
    (fun a => ((a.id, a.installationAccountId, a.memberAccountId, a.bindingId,
      a.installationWindowId, a.memberWindowId, a.endpointHash, a.credentialGeneration,
      a.installationPolicyGeneration), (a.memberPolicyGeneration, a.endpointGeneration,
      a.recoveryEpochHash, a.requestHash, a.profileHash, a.invocationHash, a.reservedAmount,
      a.installationCapSnapshot, a.memberCapSnapshot), a.createdAt, a.expiresAt, a.admittedAt,
      a.state, a.actualAmount, a.settlementHash, a.conflictReason, a.conflictHash,
      a.highestObservedLiability))
    (fun ((a, b, c, d, e, f, g, h, i), (j, k, l, m, n, o, p, q, r), s, t, u, v, w, x, y, z, a') =>
      ⟨a, b, c, d, e, f, g, h, i, j, k, l, m, n, o, p, q, r, s, t, u, v, w, x, y, z, a'⟩)
    fun _ => rfl

def atom : PrefixCode FinancialAtom :=
  (sum (sum account (sum window binding)) (sum attempt (sum (prod text text)
    (prod text (prod text (prod texts bool)))))).map
    (fun
      | .account row => .inl (.inl row)
      | .window row => .inl (.inr (.inl row))
      | .binding row => .inl (.inr (.inr row))
      | .attempt row => .inr (.inl row)
      | .grant a b => .inr (.inr (.inl (a, b)))
      | .tombstone a b c d => .inr (.inr (.inr (a, b, c, d))))
    (fun
      | .inl (.inl row) => .account row
      | .inl (.inr (.inl row)) => .window row
      | .inl (.inr (.inr row)) => .binding row
      | .inr (.inl row) => .attempt row
      | .inr (.inr (.inl (a, b))) => .grant a b
      | .inr (.inr (.inr (a, b, c, d))) => .tombstone a b c d)
    fun a => by cases a <;> rfl

/-! ## Section 2: Records -/

def checkpoint : PrefixCode FinancialCheckpoint :=
  (prod text (prod text (prod nat text))).map
    (fun c => (c.operationId, c.journalId, c.sequence, c.digest))
    (fun (a, b, c, d) => ⟨a, b, c, d⟩) fun _ => rfl

def database : PrefixCode FinancialDatabase :=
  (prod text (prod text text)).map
    (fun d => (d.systemIdentifier, d.postmasterStartedAt, d.databaseOid))
    (fun (a, b, c) => ⟨a, b, c⟩) fun _ => rfl

def control : PrefixCode FinancialControl :=
  (prod text (prod database (option checkpoint))).map
    (fun c => (c.journalId, c.database, c.checkpoint)) (fun (a, b, c) => ⟨a, b, c⟩) fun _ => rfl

def int : PrefixCode Int :=
  (sum nat nat).map
    (fun | .ofNat n => .inl n | .negSucc n => .inr n)
    (fun | .inl n => .ofNat n | .inr n => .negSucc n) fun n => by cases n <;> rfl

def counts : PrefixCode FinancialCounts :=
  (prod int (prod int (prod int (prod int (prod int int))))).map
    (fun c => (c.accounts, c.windows, c.bindings, c.attempts, c.grants, c.checkpoints))
    (fun (a, b, c, d, e, f) => ⟨a, b, c, d, e, f⟩) fun _ => rfl

def observation : PrefixCode FinancialObservation :=
  (prod text (prod checkpoint (prod database (prod text (prod text counts))))).map
    (fun o => (o.operationId, o.checkpoint, o.database, o.projectionDigest, o.checkpointDigest,
      o.counts))
    (fun (a, b, c, d, e, f) => ⟨a, b, c, d, e, f⟩) fun _ => rfl

def freezeReason : PrefixCode FinancialFreezeReason :=
  enum (fun | .restore => 0 | .continuity => 1 | .uncertain => 2)
    (fun | 0 => .restore | 1 => .continuity | _ => .uncertain) fun k => by cases k <;> rfl

def operation : PrefixCode BudgetFinancialOperation :=
  enum
    (fun | .prepare => 0 | .provision => 1 | .nativeActivation => 2 | .admission => 3 | .grant => 4
         | .unknown => 5 | .settle => 6 | .memberRemove => 7 | .erasePerson => 8
         | .nativeCleanupRecovery => 9)
    (fun | 0 => .prepare | 1 => .provision | 2 => .nativeActivation | 3 => .admission | 4 => .grant
         | 5 => .unknown | 6 => .settle | 7 => .memberRemove | 8 => .erasePerson
         | _ => .nativeCleanupRecovery)
    fun k => by cases k <;> rfl

def abortReason : PrefixCode AbortReason :=
  enum
    (fun | .notStarted => 0 | .rollbackAcknowledged => 1 | .sourceRetirementAcknowledged => 2
         | .sourceRetirementRolledBack => 3 | .commitNeverSent => 4 | .provenNotCommitted => 5)
    (fun | 0 => .notStarted | 1 => .rollbackAcknowledged | 2 => .sourceRetirementAcknowledged
         | 3 => .sourceRetirementRolledBack | 4 => .commitNeverSent | _ => .provenNotCommitted)
    fun k => by cases k <;> rfl

def settler : PrefixCode Settler :=
  enum (fun | .keeper => 0 | .owner => 1) (fun | 0 => .keeper | _ => .owner)
    fun k => by cases k <;> rfl

/-- The records that only a book or a writer needs. -/
def custodyBody : PrefixCode (Text × Hash ⊕ (Text × Nat × Hash × Nat) ⊕ Nat ⊕ Nat) :=
  sum (prod text text) (sum (prod text (prod nat (prod text nat))) (sum nat nat))

/-- The records of an operation, from its begin to its end. -/
def operationBody : PrefixCode ((BudgetFinancialOperation × Bool) ⊕ List FinancialAtom ⊕ Hash ⊕
    (Option Hash × AbortReason)) :=
  sum (prod operation bool) (sum (list atom) (sum text (prod maybe abortReason)))

/-- The records about the database. -/
def databaseBody : PrefixCode (FinancialControl ⊕ FinancialObservation ⊕
    (Settler × FinancialDatabase × Hash) ⊕ FinancialFreezeReason) :=
  sum control (sum observation (sum (prod settler (prod database text)) freezeReason))

def body : PrefixCode RecordBody :=
  (sum custodyBody (sum operationBody databaseBody)).map
    (fun
      | .genesis a b => .inl (.inl (a, b))
      | .bookOpen a b c d => .inl (.inr (.inl (a, b, c, d)))
      | .bookSeal a => .inl (.inr (.inr (.inl a)))
      | .writerOpen => .inl (.inr (.inr (.inr 0)))
      | .writerClose => .inl (.inr (.inr (.inr 1)))
      | .preparationComplete => .inl (.inr (.inr (.inr 2)))
      | .published => .inl (.inr (.inr (.inr 3)))
      | .begin a b => .inr (.inl (.inl (a, b)))
      | .proposal a => .inr (.inl (.inr (.inl a)))
      | .commit a => .inr (.inl (.inr (.inr (.inl a))))
      | .abort a b => .inr (.inl (.inr (.inr (.inr (a, b)))))
      | .control a => .inr (.inr (.inl a))
      | .observation a => .inr (.inr (.inr (.inl a)))
      | .recovered a b c => .inr (.inr (.inr (.inr (.inl (a, b, c)))))
      | .freeze a => .inr (.inr (.inr (.inr (.inr a)))))
    (fun
      | .inl (.inl (a, b)) => .genesis a b
      | .inl (.inr (.inl (a, b, c, d))) => .bookOpen a b c d
      | .inl (.inr (.inr (.inl a))) => .bookSeal a
      | .inl (.inr (.inr (.inr 0))) => .writerOpen
      | .inl (.inr (.inr (.inr 1))) => .writerClose
      | .inl (.inr (.inr (.inr 2))) => .preparationComplete
      | .inl (.inr (.inr (.inr _))) => .published
      | .inr (.inl (.inl (a, b))) => .begin a b
      | .inr (.inl (.inr (.inl a))) => .proposal a
      | .inr (.inl (.inr (.inr (.inl a)))) => .commit a
      | .inr (.inl (.inr (.inr (.inr (a, b))))) => .abort a b
      | .inr (.inr (.inl a)) => .control a
      | .inr (.inr (.inr (.inl a))) => .observation a
      | .inr (.inr (.inr (.inr (.inl (a, b, c))))) => .recovered a b c
      | .inr (.inr (.inr (.inr (.inr a)))) => .freeze a)
    fun b => by cases b <;> rfl

def record : PrefixCode JournalRecord :=
  (prod nat (prod text (prod text body))).map
    (fun r => (r.sequence, r.operationId, r.previousDigest, r.body))
    (fun (a, b, c, d) => ⟨a, b, c, d⟩) fun _ => rfl

def frame : PrefixCode Frame :=
  (prod record text).map (fun f => (f.record, f.digest)) (fun (a, b) => ⟨a, b⟩) fun _ => rfl

/-! ## Section 3: The codec -/

/-- The bytes, read as characters. -/
def charsOf (bytes : Bytes) : Hash := bytes.map fun b => Char.ofNat b.toNat

theorem charsOf_injective : Function.Injective charsOf := by
  apply List.map_injective_iff.2
  intro a b h
  -- a byte is the number of its character
  have hnumber : ∀ c : UInt8, (Char.ofNat c.toNat).toNat = c.toNat := by
    intro c
    have hvalid : c.toNat.isValidChar := .inl (by have := c.toNat_lt; omega)
    unfold Char.ofNat
    rw [dif_pos hvalid]
    rfl
  have := congrArg Char.toNat h
  dsimp only at this
  rw [hnumber, hnumber] at this
  exact UInt8.toNat_inj.1 this

/-- The codec of the prefix codes; every record passes its schema. -/
def plainCodec : LedgerCodec where
  accepts _ := true
  canonicalRecord := record.write
  canonicalFrame := frame.write
  parse := frame.readAll
  parseTrusted := frame.readAll
  canonicalAtom := atom.write
  canonicalRolling := fun previous row => text.write previous ++ checkpoint.write row
  canonicalCheckpoints := (list checkpoint).write
  canonicalProjection := fun rows atoms => (list checkpoint).write rows ++ (list atom).write atoms
  digest := charsOf
  dateParse _ := 0
  acceptsAtom _ := true
  acceptsCoordinates _ := true
  hashText t := t

theorem plainCodec_lawful : plainCodec.toCodec.Lawful where
  parse_canonicalFrame f _ := frame.readAll_write f
  parseTrusted_of_parse h := h
  canonicalFrame_line f h := by
    have := frame.plain f LF h
    revert this
    decide
  canonicalAtom_injective := atom.write_injective

theorem plainCodec_collisionFree : plainCodec.toCodec.CollisionFree where
  digest_injective := charsOf_injective
  rolling_injective _ _ h := by
    obtain ⟨hprevious, hrow⟩ := text.write_append h
    exact ⟨hprevious, checkpoint.write_injective hrow⟩

end Lares.Journal.PlainCodec
