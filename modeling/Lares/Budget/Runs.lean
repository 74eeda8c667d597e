import Lares.Framework.System
import Lares.Budget.Effects

/-! # Runs of the budget store

    The store as a labelled transition system over its tables. A step is one
    transaction of the store, or a change made elsewhere:

    * **`call`**: a prepare method, `admit`, `markUnknown`, `settle` or
      `recordGatewayGrant`, atomic under the locks it takes. A call that throws
      is rolled back. Any number of callers is any order of these steps.
    * **`reconfigure`**: owners, provisioning and erasure change policies, bindings,
      provider keys and accounts, open windows, redact identities and retire
      prepared attempts. Triggers keep the rest of the attempt rows, all windows
      and all grants as they are.

    `perform_effect` classifies what a call can do; every invariant of runs is a
    case split over `Effect`.
-/

namespace Lares.Budget

/-! ## Section 1: Calls -/

/-- A call of the store, with everything it reads outside the tables. -/
inductive BudgetCall where
  /-- For a step of an invocation. -/
  | prepareIntent (env : PrepareEnv) (fresh : FreshIntent)
      (invocation : Option ModelInvocation) (request : BudgetRequestReference)
  /-- For a claim of the console's model purposes. -/
  | prepareModelPurposeIntent (env : PrepareEnv) (fresh : FreshIntent)
      (source : Option ModelPurposeClaimSource) (request : GatewayModelRequestIdentity)
  /-- For a job of an owner. -/
  | prepareOwnerJobIntent (env : PrepareEnv) (fresh : FreshIntent) (input : OwnerJobInput)
      (countedAt : Timestamp)
  /-- The gateway asks whether it may send. -/
  | admitTicket (env : AdmitEnv) (ticket : Text) (observation : BudgetGatewayObservation)
      (recovery : BudgetRecoveryReference)
  /-- It has sent, and does not know what came of it. -/
  | markUnknown (attemptId : Id)
  /-- The receipt of a request has come. -/
  | settle (receipt : BudgetTerminalReceipt)
  /-- The grant that the gateway has given out. -/
  | recordGatewayGrant (reference : PermitBody) (grantHash : Hash)

/-- What the caller gets back. -/
inductive Answer where
  /-- The intent is stored. -/
  | prepared
  /-- Whether the request may leave. -/
  | admission (result : AdmitResult)
  /-- It is marked. -/
  | marked
  /-- What became of the receipt. -/
  | verdict (verdict : SettleVerdict)
  /-- Whether the grant was stored. -/
  | grant (stored : Bool)
  /-- The call has thrown, and has done nothing. -/
  | threw (error : StoreError)
  deriving DecidableEq

/-- COMMIT what the transaction did, or roll it back when it threw. -/
def conclude {α : Type} (db : Database) (result : Except StoreError (Database × α))
    (answer : α → Answer) : Database × Answer :=
  match result with
  | .ok (db', value) => (db', answer value)
  | .error e => (db, .threw e)

/-- `conclude` for a transaction that returns nothing of interest. -/
def concludeUnit (db : Database) (result : Except StoreError Database) (answer : Answer) :
    Database × Answer :=
  conclude db (result.map fun db' => (db', ())) fun _ => answer

def perform (D : Digests) (call : BudgetCall) (db : Database) : Database × Answer :=
  match call with
  | .prepareIntent env fresh invocation request =>
      concludeUnit db (prepareIntent D env fresh invocation request db) .prepared
  | .prepareModelPurposeIntent env fresh source request =>
      concludeUnit db (prepareModelPurposeIntent D env fresh source request db) .prepared
  | .prepareOwnerJobIntent env fresh input countedAt =>
      concludeUnit db (prepareOwnerJobIntent D env fresh input countedAt db) .prepared
  | .admitTicket env ticket observation recovery =>
      conclude db (admitAttempt D env ticket observation recovery db) .admission
  | .markUnknown attemptId => concludeUnit db (markUnknown attemptId db) .marked
  | .settle receipt => conclude db (settle receipt db) .verdict
  | .recordGatewayGrant reference grantHash =>
      conclude db (recordGatewayGrant reference grantHash db) .grant

/-! ## Section 2: The effect of a call -/

/-- Everything a call can do to the tables, with the answer that goes with it. -/
inductive Effect (db : Database) : Database → Answer → Prop where
  /-- Nothing is done, and nothing is admitted. -/
  | nothing {answer : Answer} (h : ∀ body, answer ≠ .admission (.admitted body)) :
      Effect db db answer
  /-- A row is added. -/
  | prepares {db' : Database} {row : AttemptRow} (h : Prepares db db' row) :
      Effect db db' .prepared
  /-- A prepared row is put aside, and the request refused. -/
  | retires {db' : Database} {a : AttemptRow} {result : AdmitResult} (h : Retires db db' a)
      (hr : ∀ body, result ≠ .admitted body) : Effect db db' (.admission result)
  /-- A prepared row is admitted, and the money set aside. -/
  | admits {db' : Database} {a : AttemptRow} {body : PermitBody} (h : Admits db db' a)
      (hb : body.attemptId = a.id) : Effect db db' (.admission (.admitted body))
  /-- An admitted row is marked. -/
  | marksUnknown {db' : Database} {a : AttemptRow} (h : MarksUnknown db db' a) :
      Effect db db' .marked
  /-- The money set aside becomes what was spent. -/
  | settles {db' : Database} {receipt : BudgetTerminalReceipt} {actual : BudgetMoney}
      {a row : AttemptRow} (h : Settles db db' receipt actual a row)
      (hs : row.state = .settled) : Effect db db' (.verdict .settled)
  /-- So it does, and the installation is frozen over it. -/
  | conflicts {db₁ db' : Database} {receipt : BudgetTerminalReceipt} {actual : BudgetMoney}
      {a row : AttemptRow} (h : Settles db db₁ receipt actual a row)
      (hc : row.state = .conflict) (hf : Freezes db₁ db' a.installationAccountId) :
      Effect db db' (.verdict .conflict)
  /-- A grant is stored. -/
  | grants {db' : Database} {attemptId : Id} {grantHash : Hash}
      (h : Grants db db' attemptId grantHash) : Effect db db' (.grant true)

theorem conclude_effect {α : Type} {db : Database} {result : Except StoreError (Database × α)}
    {answer : α → Answer}
    (h : ∀ db' value, result = .ok (db', value) → Effect db db' (answer value)) :
    Effect db (conclude db result answer).1 (conclude db result answer).2 := by
  cases result with
  | error e => exact .nothing (by simp [conclude])
  | ok r => exact h r.1 r.2 rfl

theorem concludeUnit_effect {db : Database} {result : Except StoreError Database}
    {answer : Answer} (h : ∀ db', result = .ok db' → Effect db db' answer) :
    Effect db (concludeUnit db result answer).1 (concludeUnit db result answer).2 := by
  refine conclude_effect fun db' _ hok => ?_
  cases result with
  | error e => cases hok
  | ok db₁ =>
    cases hok
    exact h _ rfl

theorem perform_effect (D : Digests) (call : BudgetCall) (db : Database) :
    Effect db (perform D call db).1 (perform D call db).2 := by
  cases call with
  | prepareIntent env fresh invocation request =>
    refine concludeUnit_effect fun db' h => ?_
    obtain ⟨row, hrow⟩ := prepareIntent_ok h
    exact .prepares hrow
  | prepareModelPurposeIntent env fresh source request =>
    refine concludeUnit_effect fun db' h => ?_
    obtain ⟨row, hrow⟩ := prepareModelPurposeIntent_ok h
    exact .prepares hrow
  | prepareOwnerJobIntent env fresh input countedAt =>
    refine concludeUnit_effect fun db' h => ?_
    obtain ⟨row, hrow⟩ := prepareOwnerJobIntent_ok h
    exact .prepares hrow
  | admitTicket env ticket observation recovery =>
    refine conclude_effect fun db' result h => ?_
    rcases admit_ok h with ⟨rfl, hno⟩ | ⟨a, ⟨hr, hno⟩ | ⟨ha, body, rfl, hb⟩⟩
    · exact .nothing (by simpa using hno)
    · exact .retires hr hno
    · exact .admits ha hb
  | markUnknown attemptId =>
    refine concludeUnit_effect fun db' h => ?_
    rcases markUnknown_ok h with rfl | ⟨a, -, hm⟩
    · exact .nothing (by simp)
    · exact .marksUnknown hm
  | settle receipt =>
    refine conclude_effect fun db' verdict h => ?_
    rcases settle_ok h with ⟨rfl, rfl⟩ | ⟨actual, a, -, -, -, ⟨-, rfl, rfl⟩ | ⟨row, db₁, hs, hcase⟩⟩
    · exact .nothing (by simp)
    · exact .nothing (by simp)
    · rcases hcase with ⟨hst, rfl, rfl⟩ | ⟨hst, rfl, hf⟩
      · exact .settles hs hst
      · exact .conflicts hs hst hf
  | recordGatewayGrant reference grantHash =>
    refine conclude_effect fun db' stored h => ?_
    rcases recordGatewayGrant_ok h with ⟨rfl, rfl⟩ | ⟨hg, rfl⟩
    · exact .nothing (by simp)
    · exact .grants hg

/-! ## Section 3: Changes made elsewhere -/

/-- What the rest of the system may do to an attempt: redact whom it belongs to,
    and retire it while it is prepared. -/
def attemptReconfigured (old new : AttemptRow) : Bool :=
  new.toAttempt = { old.toAttempt with
    liveMemberId := new.liveMemberId
    authorityReference := new.authorityReference
    state := new.state }
  && (budgetImmutable old.toAttempt new.toAttempt).isNone
  && (new.state = old.state || (old.state = .prepared && new.state = .retired))

/-- An account keeps its identity. -/
def accountReconfigured (old new : Account) : Bool :=
  new.kind = old.kind && new.installationAccountId = old.installationAccountId

structure Reconfigures (db db' : Database) : Prop where
  /-- A row is redacted, or retired while it is prepared. -/
  attempts : List.Forall₂ (fun old new => attemptReconfigured old new = true)
    db.attempts.rows db'.attempts.rows
  /-- An account keeps what is booked on it. -/
  accounts : ∀ old ∈ db.accounts.rows,
    (db'.accounts.find? old.id).any (accountReconfigured old) = true
  /-- So does a window. -/
  windows : ∀ w ∈ db.windows.rows, db'.windows.find? w.id = some w
  grants : db'.grants = db.grants

instance (db db' : Database) : Decidable (Reconfigures db db') :=
  decidable_of_iff
    (List.Forall₂ (fun old new => attemptReconfigured old new = true)
        db.attempts.rows db'.attempts.rows
      ∧ (∀ old ∈ db.accounts.rows,
          (db'.accounts.find? old.id).any (accountReconfigured old) = true)
      ∧ (∀ w ∈ db.windows.rows, db'.windows.find? w.id = some w)
      ∧ db'.grants = db.grants)
    ⟨fun ⟨h₁, h₂, h₃, h₄⟩ => ⟨h₁, h₂, h₃, h₄⟩, fun ⟨h₁, h₂, h₃, h₄⟩ => ⟨h₁, h₂, h₃, h₄⟩⟩

/-- A row on the left of a pointwise relation has its row on the right. -/
theorem forall₂_exists {α β : Type} {R : α → β → Prop} {xs : List α} {ys : List β}
    (h : List.Forall₂ R xs ys) {x : α} (hx : x ∈ xs) : ∃ y ∈ ys, R x y := by
  obtain ⟨i, hi, rfl⟩ := List.mem_iff_getElem.1 hx
  have hlen : i < ys.length := h.length_eq ▸ hi
  exact ⟨ys[i], List.getElem_mem hlen, h.get hi hlen⟩

/-! ## Section 4: The system -/

inductive BudgetStep where
  | call (call : BudgetCall)
  | reconfigure (db' : Database)

def budgetNext (D : Digests) (db : Database) : BudgetStep → Option Database
  | .call c => some (perform D c db).1
  | .reconfigure db' => if Reconfigures db db' then some db' else none

/-- The store from its first step: no attempt has been prepared yet. -/
def budgetSystem (D : Digests) : System Database BudgetStep where
  init db := db.attempts = Table.empty ∧ db.grants = Table.empty
  next := budgetNext D

@[simp] theorem budgetNext_call (D : Digests) (db : Database) (c : BudgetCall) :
    (budgetSystem D).next db (.call c) = some (perform D c db).1 := rfl

theorem budgetNext_cases {D : Digests} {db db' : Database} {step : BudgetStep}
    (h : (budgetSystem D).next db step = some db') :
    (∃ answer, Effect db db' answer) ∨ Reconfigures db db' := by
  cases step with
  | call c =>
    cases h
    exact .inl ⟨_, perform_effect D c db⟩
  | reconfigure target =>
    simp only [budgetSystem, budgetNext] at h
    split at h
    · next hr =>
      cases h
      exact .inr hr
    · cases h

/-! ## Section 5: The history of an attempt -/

/-- How the attempts table changes in one call: not at all, by a new row, or by
    one update that the trigger lets through. -/
inductive AttemptsChange (db db' : Database) : Prop where
  | same (h : db'.attempts = db.attempts)
  | inserted (row : AttemptRow) (h : Prepares db db' row)
  | updated (old new : AttemptRow) (found : db.attempts.find? new.id = some old)
      (allowed : budgetImmutable old.toAttempt new.toAttempt = none)
      (h : db'.attempts = db.attempts.put new)

theorem Updates.change {db db' : Database} {old new : AttemptRow} (h : Updates db db' old new) :
    AttemptsChange db db' :=
  .updated old new h.found h.allowed (by rw [h.result])

theorem freezes_attempts {db db' : Database} {installationId : Id}
    (h : Freezes db db' installationId) : db'.attempts = db.attempts := by
  rcases h with ⟨rfl, -⟩ | ⟨account, frozen, -, -, -, rfl⟩ <;> rfl

theorem effect_attempts {db db' : Database} {answer : Answer} (h : Effect db db' answer) :
    AttemptsChange db db' := by
  cases h with
  | nothing => exact .same rfl
  | prepares hp => exact .inserted _ hp
  | retires hr =>
    obtain ⟨-, row, -, hup⟩ := hr
    exact hup.change
  | admits ha =>
    obtain ⟨row, _, -, hup⟩ := ha.updates
    exact hup.change
  | marksUnknown hm =>
    obtain ⟨-, row, -, hup⟩ := hm
    exact hup.change
  | settles hs => exact hs.updates.change
  | conflicts hs _ hf =>
    refine .updated _ _ hs.updates.found hs.updates.allowed ?_
    rw [freezes_attempts hf, hs.updates.result]
  | grants hg =>
    obtain ⟨a, grants, -, -, -, rfl⟩ := hg
    exact .same rfl

/-- A row and a later version of it: what was recorded is not taken back. -/
structure Later (old new : Attempt) : Prop where
  /-- It is for the same ticket. -/
  ticketHash : new.ticketHash = old.ticketHash
  /-- It stays with its accounts. -/
  installation : new.installationAccountId = old.installationAccountId
  member : new.memberAccountId = old.memberAccountId
  /-- The state only moves on. -/
  state : old.state.rank ≤ new.state.rank
  /-- It is admitted once. -/
  admittedAt : old.admittedAt.isSome → new.admittedAt = old.admittedAt
  /-- The highest liability only grows. -/
  highest : old.highestObservedLiability.units ≤ new.highestObservedLiability.units
  /-- What it was settled with stays. -/
  evidence : old.actualAmount.isSome →
    new.actualAmount = old.actualAmount ∧ new.settlementHash = old.settlementHash

theorem Later.refl (a : Attempt) : Later a a :=
  ⟨rfl, rfl, rfl, le_refl _, fun _ => rfl, le_refl _, fun _ => ⟨rfl, rfl⟩⟩

theorem Later.trans {a b c : Attempt} (hab : Later a b) (hbc : Later b c) : Later a c where
  ticketHash := hbc.ticketHash.trans hab.ticketHash
  installation := hbc.installation.trans hab.installation
  member := hbc.member.trans hab.member
  state := hab.state.trans hbc.state
  admittedAt h := by
    have hb := hab.admittedAt h
    exact (hbc.admittedAt (hb ▸ h)).trans hb
  highest := hab.highest.trans hbc.highest
  evidence h := by
    obtain ⟨hb, hh⟩ := hab.evidence h
    obtain ⟨hc, hh'⟩ := hbc.evidence (hb ▸ h)
    exact ⟨hc.trans hb, hh'.trans hh⟩

theorem later_of_allowed {old new : Attempt} (h : budgetImmutable old new = none) :
    Later old new := by
  obtain ⟨hkept, hadm, hhigh, hev, -, hrank⟩ := budgetImmutable_none h
  obtain ⟨-, htick, hi, hm, -⟩ := immutableColumnsKept_fields hkept
  exact ⟨htick, hi, hm, hrank, fun hs => (hadm hs).symm, hhigh,
    fun hs => ⟨(hev hs).1.symm, (hev hs).2.symm⟩⟩

/-- **Step lemma**: a row is never removed, and its next version is later. -/
theorem later_change {db db' : Database} (h : AttemptsChange db db') {id : Id} {a : AttemptRow}
    (ha : db.attempts.find? id = some a) :
    ∃ b, db'.attempts.find? id = some b ∧ Later a.toAttempt b.toAttempt := by
  cases h with
  | same hsame => exact ⟨a, hsame ▸ ha, .refl _⟩
  | inserted row hp =>
    obtain ⟨attempts, hins, rfl⟩ := hp.inserted
    have hne : id ≠ row.id := by
      intro hid
      rw [hid, (Table.insert?_eq_some.1 hins).1] at ha
      cases ha
    exact ⟨a, by rw [Table.find?_insert? hins, if_neg hne, ha], .refl _⟩
  | updated old new hfound hallowed hput =>
    rw [hput]
    by_cases hid : id = new.id
    · rw [hid, hfound] at ha
      cases ha
      exact ⟨new, hid ▸ Table.find?_put_self hfound, later_of_allowed hallowed⟩
    · exact ⟨a, (Table.find?_put_ne (t := db.attempts) (r := new) hid).trans ha, .refl _⟩

theorem reconfigured_find {db db' : Database} (h : Reconfigures db db') {id : Id}
    {a : AttemptRow} (ha : db.attempts.find? id = some a) :
    ∃ b, db'.attempts.find? id = some b ∧ attemptReconfigured a b = true := by
  obtain ⟨b, hb, hab⟩ := forall₂_exists h.attempts (Table.mem_def.1 (Table.find?_mem ha))
  have hid : b.id = a.id := by
    simp only [attemptReconfigured, Bool.and_eq_true, decide_eq_true_eq] at hab
    rw [hab.1.1]
  have hfind := Table.find?_of_mem (Table.mem_def.2 hb)
  have hkey := Table.find?_key ha
  rw [hid, hkey] at hfind
  exact ⟨b, hfind, hab⟩

/-! ## Section 6: A small deployment

    One installation, one member and one binding, for concrete runs.
-/

/-- Hexadecimal text of 64 characters that starts like the given one. -/
def sampleHash (v : Text) : Hash :=
  (v.map fun c => if isHex c then c else '0').take 64 ++ List.replicate (64 - v.length) '0'

def sampleDigests : Digests where
  hash := sampleHash
  authorityFingerprint ref := sampleHash ref.turnId
  conversationStep _ identity sequence stepIndex :=
    sampleHash (identity.getLastD [] ++ List.replicate sequence 'a' ++ List.replicate stepIndex 'b')
  ownerJob _ identity := sampleHash (identity.getLastD [])
  utcDate _ := "2026-02-01"

def sampleId (c : Char) : Id :=
  List.replicate 8 c ++ '-' :: List.replicate 4 c ++ '-' :: List.replicate 4 c
    ++ '-' :: List.replicate 4 c ++ '-' :: List.replicate 12 c

def sampleTicket (c : Char) : Text := List.replicate 43 c

def sampleInstallation : Account where
  id := sampleId '1'
  kind := .installation
  installationAccountId := sampleId '1'
  liveMemberId := none
  canonicalSuppressionHash := none
  policyGeneration := 1
  state := .open
  reason := .approved
  activeWindowId := some (sampleId '3')
  installationCap := some ⟨9 * SCALE, by decide⟩
  selectedEndpoint := some (sampleHash ['e'])
  endpointGeneration := 1
  recoveryEpoch := some "epoch".toList

def sampleMember : Account where
  id := sampleId '2'
  kind := .member
  installationAccountId := sampleId '1'
  liveMemberId := some "member".toList
  canonicalSuppressionHash := some (sampleHash ['s'])
  policyGeneration := 1
  state := .open
  reason := .approved
  activeWindowId := some (sampleId '4')
  installationCap := none
  selectedEndpoint := none
  endpointGeneration := 0
  recoveryEpoch := none

def sampleBinding : Binding where
  id := sampleId '5'
  installationAccountId := sampleId '1'
  memberAccountId := sampleId '2'
  liveMemberId := some "member".toList
  endpointHash := sampleHash ['e']
  credentialGeneration := 1
  keyFingerprint := some (sampleHash ['f'])
  agent := some "agent".toList
  incarnation := some (sampleId '6')
  purposeAlias := some "chat".toList
  profileHash := sampleHash ['d']
  maximumLiability := ⟨2 * SCALE, by decide⟩
  pricingFormat := some "anthropic"
  state := .active

def sampleWindow (id account : Char) : Window where
  id := sampleId id
  accountId := sampleId account
  startsAt := 0
  endsAt := 100000000
  openingLiability := ⟨SCALE, by decide⟩

/-- One installation with a cap of 9, one member with a cap of 4, no attempts. -/
def sampleDatabase : Database where
  accounts := ⟨[sampleInstallation, sampleMember], by decide⟩
  windows := ⟨[sampleWindow '3' '1', sampleWindow '4' '2'], by decide⟩
  bindings := ⟨[sampleBinding], by decide⟩
  attempts := Table.empty
  grants := Table.empty
  policies := ⟨[⟨"member".toList, some "4"⟩], by decide⟩
  providerKeys := Table.empty

def sampleReference : AuthorityReference where
  kind := .human
  agent := "agent".toList
  incarnation := sampleId '6'
  memberId := "member".toList
  agentAccessRevision := 1
  sessionId := "session".toList
  admissionNonce := "nonce".toList
  turnId := ['a']
  turnSequence := 1

def samplePrepareEnv : PrepareEnv where
  reference := .ok sampleReference
  current := some (sampleHash ['d'], "chat".toList)
  financialWriter := true
  authorityDeadlineMs := none
  readyInstallationAt := 1
  readyMemberAt := 1
  createdAt := 1000
  intentLifetimeMs := 30000
  startMs := 0
  nowMs := 0
  activeAtStart := true
  activeAtCommit := true

/-- An intent for the step with this index of the sample turn. -/
def samplePrepare (stepIndex : Nat) (ticket attempt : Char) : BudgetCall :=
  .prepareIntent samplePrepareEnv ⟨sampleTicket ticket, sampleId attempt⟩
    (some ⟨['a'], 1, stepIndex, "chat".toList⟩) ⟨sampleId '5', sampleHash ['b'], sampleHash ['d']⟩

def sampleAdmitEnv : AdmitEnv where
  authority := some none
  freshAt := 2000
  readyInstallationAt := 2000
  readyMemberAt := 2000
  admitAt := 2000
  expiredBefore := false
  expiredAfter := false

def sampleObservation : BudgetGatewayObservation where
  requestHash := sampleHash ['b']
  profileHash := sampleHash ['d']
  endpointHash := sampleHash ['e']
  credentialGeneration := 1
  keyFingerprint := sampleHash ['f']
  agent := "agent".toList
  incarnation := sampleId '6'
  purposeAlias := "chat".toList

def sampleRecovery : BudgetRecoveryReference := ⟨sampleId '1', "epoch".toList, 1, true⟩

def sampleAdmit (ticket : Char) : BudgetCall :=
  .admitTicket sampleAdmitEnv (sampleTicket ticket) sampleObservation sampleRecovery

/-- A receipt for the sample attempt. -/
def sampleReceipt (hash : Char) (amount : String) : BudgetTerminalReceipt where
  attemptId := sampleId '7'
  bindingId := sampleId '5'
  requestHash := sampleHash ['b']
  endpointHash := sampleHash ['e']
  credentialGeneration := 1
  profileHash := sampleHash ['d']
  receiptHash := sampleHash [hash]
  actualAmount := amount
  kind := some .terminalUsage

/-- The sample attempt has been prepared and admitted. -/
def sampleAdmitted : Database :=
  (perform sampleDigests (sampleAdmit 'a')
    (perform sampleDigests (samplePrepare 0 'a' '7') sampleDatabase).1).1

theorem sampleAdmitted_run : (budgetSystem sampleDigests).run sampleDatabase
    [.call (samplePrepare 0 'a' '7'), .call (sampleAdmit 'a')] = some sampleAdmitted := by
  simp only [System.run_cons, System.run_nil, budgetNext_call, Option.bind_some]
  rfl

theorem sampleAdmitted_reachable : (budgetSystem sampleDigests).Reachable sampleAdmitted :=
  ⟨sampleDatabase, _, ⟨rfl, rfl⟩, sampleAdmitted_run⟩

end Lares.Budget
