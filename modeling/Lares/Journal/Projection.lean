import Lares.Budget.Money
import Lares.Framework.Pages
import Lares.Framework.Table
import Lares.Journal.Fold
import Mathlib.Data.Char

/-! # The ledger tables and their atoms

    The rows of the budget tables as `financial-projection.ts` reads them, and
    the redacted atom of a row.

    * **Rows**: the columns that `financialAtomFromRow` uses, one structure for
      each table. A column with a CHECK over named values is an enumeration.
    * **The database**: tables with their primary keys, ids that are uuids.
    * **Readers**: what the paged queries of a check may answer on a database.
-/

namespace Lares.Journal

/-! ## Section 1: What is used of the schemas -/

/-- `Number.MAX_SAFE_INTEGER` -/
def MAX_SAFE_INTEGER : Nat := 9007199254740991

/-- What a digest without collisions gives: digests of texts and of chains can be undone. -/
structure Codec.CollisionFree (codec : Codec) : Prop where
  digest_injective : Function.Injective codec.digest
  /-- A digest has a fixed length, so what follows it is known. -/
  rolling_injective : ∀ {previous previous' : Hash} {row row' : FinancialCheckpoint},
    (previous = zero ∨ ∃ bytes, previous = codec.digest bytes) →
    (previous' = zero ∨ ∃ bytes, previous' = codec.digest bytes) →
    codec.canonicalRolling previous row = codec.canonicalRolling previous' row' →
    previous = previous' ∧ row = row'

/-- A codec with the schemas of atoms and checkpoints and the hash of a text. -/
structure LedgerCodec extends Codec where
  /-- `FINANCIAL_ATOM_SCHEMA.parse` takes the atom. -/
  acceptsAtom : FinancialAtom → Bool
  /-- The ids of a checkpoint are uuids and its digest is a hash. -/
  acceptsCoordinates : FinancialCheckpoint → Bool
  /-- `hash` of `financial-projection.ts` -/
  hashText : Text → Hash

namespace LedgerCodec

variable (codec : LedgerCodec)

/-- `FINANCIAL_ATOM_SCHEMA.parse` -/
def parseAtom (atom : FinancialAtom) : Option FinancialAtom :=
  if codec.acceptsAtom atom then some atom else none

/-- `FINANCIAL_CHECKPOINT_SCHEMA.parse` takes the checkpoint. -/
def acceptsCheckpoint (checkpoint : FinancialCheckpoint) : Bool :=
  codec.acceptsCoordinates checkpoint && decide (0 < checkpoint.sequence) &&
    decide (checkpoint.sequence ≤ MAX_SAFE_INTEGER)

/-- `FINANCIAL_CHECKPOINT_SCHEMA.parse` -/
def parseCheckpoint (checkpoint : FinancialCheckpoint) : Option FinancialCheckpoint :=
  if codec.acceptsCheckpoint checkpoint then some checkpoint else none

end LedgerCodec

/-- `canonicalBudgetMoney` on a text. -/
def canonicalMoney (value : Text) : Option Text :=
  (Budget.canonicalBudgetMoney (String.ofList value)).map String.toList

/-- A nullable column: null stays null, a value may be refused. -/
def nullable {α β : Type} (convert : α → Option β) : Option α → Option (Option β)
  | none => some none
  | some value => (convert value).map some

/-! ## Section 2: Rows -/

/-- `budget_accounts` -/
structure AccountRow where
  id : Id
  installationAccountId : Id
  kind : AccountKind
  state : AccountState
  reason : AccountReason
  activeWindowId : Option Id
  installationCap : Option Text
  policyGeneration : Text
  selectedEndpoint : Option Hash
  endpointGeneration : Text
  recoveryEpoch : Option Text
  canonicalSuppressionHash : Option Hash
  providerSuppressionHashes : List Hash
  deriving DecidableEq

/-- `budget_windows`, with `starts_utc` and `ends_utc` -/
structure WindowRow where
  id : Id
  accountId : Id
  startsUtc : Text
  endsUtc : Text
  openingLiability : Text
  openingCap : Text
  policyRevision : Text
  deriving DecidableEq

/-- `budget_gateway_bindings` -/
structure BindingRow where
  id : Id
  installationAccountId : Id
  memberAccountId : Id
  endpointHash : Hash
  credentialGeneration : Text
  profileHash : Hash
  maximumLiability : Text
  pricingProfile : Option Text
  active : Bool
  deriving DecidableEq

/-- `budget_attempts`, with `created_utc`, `expires_utc` and `admitted_utc` -/
structure AttemptRow where
  id : Id
  installationAccountId : Id
  memberAccountId : Id
  bindingId : Id
  installationWindowId : Id
  memberWindowId : Id
  endpointHash : Hash
  credentialGeneration : Text
  installationPolicyGeneration : Text
  memberPolicyGeneration : Text
  endpointGeneration : Text
  recoveryEpoch : Text
  requestHash : Hash
  profileHash : Hash
  invocationHash : Option Hash
  reservedAmount : Text
  installationCapSnapshot : Text
  memberCapSnapshot : Text
  createdUtc : Text
  expiresUtc : Text
  admittedUtc : Option Text
  state : AttemptState
  actualAmount : Option Text
  settlementHash : Option Hash
  conflictReason : Option AccountReason
  conflictHash : Option Hash
  highestObservedLiability : Text
  deriving DecidableEq

/-- `budget_gateway_grants` -/
structure GrantRow where
  attemptId : Id
  grantHash : Hash
  deriving DecidableEq

/-- A row of one of the tables that hold atoms. -/
inductive LedgerRow where
  | account (row : AccountRow)
  | window (row : WindowRow)
  | binding (row : BindingRow)
  | attempt (row : AttemptRow)
  | grant (row : GrantRow)
  deriving DecidableEq

namespace LedgerRow

/-- `table.kind` of the table the row is in. -/
def kind : LedgerRow → AtomKind
  | account _ => .account
  | window _ => .window
  | binding _ => .binding
  | attempt _ => .attempt
  | grant _ => .grant

/-- `row[table.key]` -/
def id : LedgerRow → Id
  | account row => row.id
  | window row => row.id
  | binding row => row.id
  | attempt row => row.id
  | grant row => row.attemptId

end LedgerRow

/-- `financialAtomFromRow`; `none` models the thrown error of a schema or of an amount. -/
def financialAtomFromRow (codec : LedgerCodec) : LedgerRow → Option FinancialAtom
  | .account row => do
      let installationCap ← nullable canonicalMoney row.installationCap
      codec.parseAtom (.account
        { id := row.id
          installationAccountId := row.installationAccountId
          accountKind := row.kind
          state := row.state
          reason := row.reason
          activeWindowId := row.activeWindowId
          installationCap
          policyGeneration := row.policyGeneration
          selectedEndpointHash := row.selectedEndpoint
          endpointGeneration := row.endpointGeneration
          recoveryEpochHash := row.recoveryEpoch.map codec.hashText
          canonicalSuppressionHash := row.canonicalSuppressionHash
          providerSuppressionHashes := row.providerSuppressionHashes })
  | .window row => do
      let openingLiability ← canonicalMoney row.openingLiability
      let openingCap ← canonicalMoney row.openingCap
      codec.parseAtom (.window
        { id := row.id
          accountId := row.accountId
          startsAt := row.startsUtc
          endsAt := row.endsUtc
          openingLiability
          openingCap
          policyRevision := row.policyRevision })
  | .binding row => do
      let maximumLiability ← canonicalMoney row.maximumLiability
      codec.parseAtom (.binding
        { id := row.id
          installationAccountId := row.installationAccountId
          memberAccountId := row.memberAccountId
          endpointHash := row.endpointHash
          credentialGeneration := row.credentialGeneration
          profileHash := row.profileHash
          maximumLiability
          pricingProfile := row.pricingProfile
          active := row.active })
  | .attempt row => do
      let reservedAmount ← canonicalMoney row.reservedAmount
      let installationCapSnapshot ← canonicalMoney row.installationCapSnapshot
      let memberCapSnapshot ← canonicalMoney row.memberCapSnapshot
      let actualAmount ← nullable canonicalMoney row.actualAmount
      let highestObservedLiability ← canonicalMoney row.highestObservedLiability
      codec.parseAtom (.attempt
        { id := row.id
          installationAccountId := row.installationAccountId
          memberAccountId := row.memberAccountId
          bindingId := row.bindingId
          installationWindowId := row.installationWindowId
          memberWindowId := row.memberWindowId
          endpointHash := row.endpointHash
          credentialGeneration := row.credentialGeneration
          installationPolicyGeneration := row.installationPolicyGeneration
          memberPolicyGeneration := row.memberPolicyGeneration
          endpointGeneration := row.endpointGeneration
          recoveryEpochHash := codec.hashText row.recoveryEpoch
          requestHash := row.requestHash
          profileHash := row.profileHash
          invocationHash := row.invocationHash
          reservedAmount
          installationCapSnapshot
          memberCapSnapshot
          createdAt := row.createdUtc
          expiresAt := row.expiresUtc
          admittedAt := row.admittedUtc
          state := row.state
          actualAmount
          settlementHash := row.settlementHash
          conflictReason := row.conflictReason
          conflictHash := row.conflictHash
          highestObservedLiability })
  | .grant row => codec.parseAtom (.grant row.attemptId row.grantHash)

theorem parseAtom_some {codec : LedgerCodec} {atom found : FinancialAtom}
    (h : codec.parseAtom atom = some found) : found = atom := by
  unfold LedgerCodec.parseAtom at h
  split at h
  · exact (Option.some.inj h).symm
  · cases h

/-- The atom of a row has the row's kind and id. -/
theorem financialAtomKey_fromRow {codec : LedgerCodec} {row : LedgerRow} {atom : FinancialAtom}
    (h : financialAtomFromRow codec row = some atom) :
    financialAtomKey atom = (row.kind, row.id) := by
  cases row with
  | account row =>
    obtain ⟨cap, -, h⟩ := Option.bind_eq_some_iff.1 h
    rw [parseAtom_some h]
    rfl
  | window row =>
    obtain ⟨liability, -, h⟩ := Option.bind_eq_some_iff.1 h
    obtain ⟨cap, -, h⟩ := Option.bind_eq_some_iff.1 h
    rw [parseAtom_some h]
    rfl
  | binding row =>
    obtain ⟨liability, -, h⟩ := Option.bind_eq_some_iff.1 h
    rw [parseAtom_some h]
    rfl
  | attempt row =>
    obtain ⟨reserved, -, h⟩ := Option.bind_eq_some_iff.1 h
    obtain ⟨installation, -, h⟩ := Option.bind_eq_some_iff.1 h
    obtain ⟨member, -, h⟩ := Option.bind_eq_some_iff.1 h
    obtain ⟨actual, -, h⟩ := Option.bind_eq_some_iff.1 h
    obtain ⟨highest, -, h⟩ := Option.bind_eq_some_iff.1 h
    rw [parseAtom_some h]
    rfl
  | grant row =>
    rw [parseAtom_some h]
    rfl

/-! ## Section 3: Uuids -/

/-- The key before every other: `00000000-0000-0000-0000-000000000000`. -/
def zeroUuid : Id := "00000000-0000-0000-0000-000000000000".toList

def hexDigit (c : Char) : Bool := ('0' ≤ c && c ≤ '9') || ('a' ≤ c && c ≤ 'f')

/-- The text has dashes where the template has them, and hex digits elsewhere. -/
def fitsTemplate : Text → Text → Bool
  | [], [] => true
  | '-' :: template, c :: text => c == '-' && fitsTemplate template text
  | _ :: template, c :: text => hexDigit c && fitsTemplate template text
  | _, _ => false

/-- How PostgreSQL writes a uuid. -/
def isUuid (text : Text) : Bool := fitsTemplate zeroUuid text

theorem lex_of_fitsTemplate {template text : Text} (hzero : ∀ c ∈ template, c = '-' ∨ c = '0')
    (h : fitsTemplate template text) : text = template ∨ List.Lex (· < ·) template text := by
  induction template generalizing text with
  | nil =>
    cases text with
    | nil => exact .inl rfl
    | cons c text => cases h
  | cons d template ih =>
    have hrest : ∀ c ∈ template, c = '-' ∨ c = '0' := fun c hc => hzero c (List.mem_cons_of_mem _ hc)
    cases text with
    | nil =>
      rcases hzero d List.mem_cons_self with rfl | rfl <;> cases h
    | cons c text =>
      -- an equal first character leaves the comparison to the rest
      have hcons : c = d → fitsTemplate template text = true →
          c :: text = d :: template ∨ List.Lex (· < ·) (d :: template) (c :: text) := by
        intro hc hfits
        subst hc
        rcases ih hrest hfits with heq | hlex
        · exact .inl (by rw [heq])
        · exact .inr (.cons hlex)
      rcases hzero d List.mem_cons_self with rfl | rfl
      · simp only [fitsTemplate, Bool.and_eq_true, beq_iff_eq] at h
        exact hcons h.1 h.2
      · have hsplit : hexDigit c = true ∧ fitsTemplate template text = true := by
          simpa [fitsTemplate] using h
        have hle : '0' ≤ c := by
          have hc := hsplit.1
          simp only [hexDigit, Bool.or_eq_true, Bool.and_eq_true, decide_eq_true_eq] at hc
          rcases hc with hc | hc
          · exact hc.1
          · have h0a : '0' ≤ 'a' := by decide
            exact h0a.trans hc.1
        by_cases hc : c = '0'
        · exact hcons hc hsplit.2
        · exact .inr (.rel (lt_of_le_of_ne hle fun heq => hc heq.symm))

theorem zeroUuid_eq : zeroUuid =
    ['0', '0', '0', '0', '0', '0', '0', '0', '-', '0', '0', '0', '0', '-', '0', '0', '0', '0', '-',
      '0', '0', '0', '0', '-', '0', '0', '0', '0', '0', '0', '0', '0', '0', '0', '0', '0'] := rfl

/-- Every uuid but the first comes after the first. -/
theorem zeroUuid_lt {id : Id} (h : isUuid id) (hne : id ≠ zeroUuid) : zeroUuid < id := by
  have hzero : ∀ c ∈ zeroUuid, c = '-' ∨ c = '0' := by
    rw [zeroUuid_eq]
    simp
  rcases lex_of_fitsTemplate hzero h with heq | hlex
  · exact absurd heq hne
  · exact hlex

/-! ## Section 4: The database -/

/-- The ledger tables. -/
structure LedgerDatabase where
  accounts : Table AccountRow.id
  windows : Table WindowRow.id
  bindings : Table BindingRow.id
  attempts : Table AttemptRow.id
  grants : Table GrantRow.attemptId
  checkpoints : Table FinancialCheckpoint.operationId

namespace LedgerDatabase

/-- The rows of the table with the atoms of a kind; tombstones have no table. -/
def table (db : LedgerDatabase) : AtomKind → List LedgerRow
  | .account => db.accounts.rows.map .account
  | .window => db.windows.rows.map .window
  | .binding => db.bindings.rows.map .binding
  | .attempt => db.attempts.rows.map .attempt
  | .grant => db.grants.rows.map .grant
  | .tombstone => []

/-- The ids are uuids, and none is the one that every walk starts after. -/
def UuidKeys (db : LedgerDatabase) : Prop :=
  ∀ kind, ∀ row ∈ db.table kind, isUuid row.id = true ∧ row.id ≠ zeroUuid

theorem table_nodup (db : LedgerDatabase) (kind : AtomKind) :
    ((db.table kind).map LedgerRow.id).Nodup := by
  cases kind with
  | account => simpa [table, Function.comp_def, LedgerRow.id] using db.accounts.nodup
  | window => simpa [table, Function.comp_def, LedgerRow.id] using db.windows.nodup
  | binding => simpa [table, Function.comp_def, LedgerRow.id] using db.bindings.nodup
  | attempt => simpa [table, Function.comp_def, LedgerRow.id] using db.attempts.nodup
  | grant => simpa [table, Function.comp_def, LedgerRow.id] using db.grants.nodup
  | tombstone => exact List.nodup_nil

theorem table_kind {db : LedgerDatabase} {kind : AtomKind} {row : LedgerRow}
    (h : row ∈ db.table kind) : row.kind = kind := by
  cases kind <;> first | cases h | (obtain ⟨r, -, rfl⟩ := List.mem_map.1 h; rfl)

/-- Every row after the first key is every row. -/
theorem rest_zeroUuid {db : LedgerDatabase} (hids : db.UuidKeys) (kind : AtomKind) :
    Pages.rest LedgerRow.id (db.table kind) zeroUuid = db.table kind := by
  apply Pages.rest_eq_self
  intro row hrow
  obtain ⟨huuid, hne⟩ := hids kind row hrow
  exact zeroUuid_lt huuid hne

end LedgerDatabase

/-! ## Section 5: Reading it -/

/-- The answers a database may give to the queries of a check, with pages of `batch` rows. -/
structure LedgerReader (db : LedgerDatabase) (batch : Nat) where
  /-- `${table.select} WHERE ${table.key}>$1 ORDER BY ${table.key} LIMIT ${batch}` -/
  page : AtomKind → Id → List LedgerRow
  page_ok : ∀ kind after, Pages.IsPage LedgerRow.id (db.table kind) after batch (page kind after)
  /-- `... WHERE proposal_sequence>$1 ORDER BY proposal_sequence LIMIT $2` -/
  checkpointPage : Nat → Nat → List FinancialCheckpoint
  checkpointPage_ok : ∀ after limit, Pages.IsPage FinancialCheckpoint.sequence db.checkpoints.rows
    after limit (checkpointPage after limit)

/-- A database that keeps its order among rows with one key. -/
def LedgerDatabase.reader (db : LedgerDatabase) (batch : Nat) : LedgerReader db batch where
  page kind after := Pages.page LedgerRow.id (db.table kind) after batch
  page_ok _ _ := Pages.page_isPage
  checkpointPage after limit := Pages.page FinancialCheckpoint.sequence db.checkpoints.rows after limit
  checkpointPage_ok _ _ := Pages.page_isPage

end Lares.Journal
