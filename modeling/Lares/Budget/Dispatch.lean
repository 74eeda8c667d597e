import Lares.Budget.Runs

/-! # One ticket, one dispatch

    The calls of `admit` in flight, with the places where other calls can come
    between: after the unlocked lookup, while the locks are held and COMMIT has
    not been sent, after the acknowledgement, and between the answer and the use
    of the permit. Every other store call is one step, and so is a change made
    elsewhere; none of them gets past a row lock.

    * **Row locks**: an `admit` that has changed its row keeps it locked until
      COMMIT or ROLLBACK. The account locks are left out: without them more
      interleavings are possible, not fewer.
    * **Lost answers**: a COMMIT may take effect without being acknowledged, and
      may fail to take effect without an error reaching the caller.
    * **Logs**: `admissions`, `returned` and `consumed` record what has happened;
      no step reads them.
-/

namespace Lares.Budget

/-! ## Section 1: State -/

/-- Where an `admit` call is. -/
inductive AdmitPhase where
  /-- The attempt was found without a lock. -/
  | discovered (a : Attempt) (ref : AuthorityReference)
  /-- The statements under lock have run; `row` is the new version of the
      attempt that COMMIT would make visible, if there is one. -/
  | holding (row : Option AttemptRow) (answer : AdmitResult)
  /-- COMMIT of an admission was acknowledged. -/
  | committed (body : PermitBody)
  | finished

/-- A call of `admit`. -/
structure AdmitCall where
  id : Nat
  /-- The ticket it was called with. -/
  ticket : Text
  /-- What the gateway saw of the request. -/
  observation : BudgetGatewayObservation
  /-- How the attempt can be found again. -/
  recovery : BudgetRecoveryReference
  /-- Where the call stands. -/
  phase : AdmitPhase

/-- An entry of the `permits` map: the permit object and its body. -/
structure Permit where
  id : Nat
  body : PermitBody

/-- `{state:'allowed',permit,attemptId}`, with the ticket it answers. -/
structure Allowed where
  ticket : Text
  permit : Nat
  attemptId : Id
  deriving DecidableEq

structure Dispatch where
  db : Database
  /-- The calls of `admitTicket` under way. -/
  calls : Table AdmitCall.id
  /-- The permits that were given out and not taken. -/
  permits : Table Permit.id
  /-- They are numbered. -/
  nextPermit : Nat
  /-- Attempts whose admission took effect, acknowledged or not. -/
  admissions : List Id
  /-- The answers that came back to the gateway. -/
  returned : List Allowed
  /-- Permits for which `consumeDispatchPermit` returned a body. -/
  consumed : List Nat

/-- The attempt row that a call has locked and changed. -/
def AdmitCall.lockedRow (c : AdmitCall) : Option Id :=
  match c.phase with
  | .holding (some row) _ => some row.id
  | _ => none

/-- No call in flight holds the lock of this row. -/
def Dispatch.rowFree (s : Dispatch) (id : Id) : Bool :=
  s.calls.rows.all fun c => c.lockedRow ≠ some id

/-! ## Section 2: Steps -/

inductive CommitOutcome where
  | acknowledged | lostCommitted | rolledBack
  deriving DecidableEq

inductive DispatchStep where
  /-- A new call of `admit` looks up its ticket. -/
  | discover (callId : Nat) (ticket : Text) (observation : BudgetGatewayObservation)
      (recovery : BudgetRecoveryReference)
  /-- It takes its locks and runs the statements under lock. -/
  | lock (callId : Nat) (env : AdmitEnv)
  | commit (callId : Nat) (outcome : CommitOutcome)
  /-- It mints the permit and returns it. -/
  | answer (callId : Nat)
  /-- The process of a call that holds no lock is gone. -/
  | abandon (callId : Nat)
  /-- `consumeDispatchPermit` -/
  | consume (permit : Nat)
  /-- Any other call of the store. -/
  | call (call : BudgetCall)
  | reconfigure (db' : Database)

/-- What `admit` has done under its locks. A thrown error rolls it back. -/
def phaseUnderLock (D : Digests) (env : AdmitEnv) (c : AdmitCall) (a : Attempt)
    (ref : AuthorityReference) (db : Database) : AdmitPhase :=
  match admitDiscovered D env a ref c.observation c.recovery db with
  | .error _ => .finished
  | .ok (db', answer) =>
      .holding (if db'.attempts = db.attempts then none else db'.attempts.find? a.id) answer

/-- COMMIT makes the changed row visible. -/
def writeRow (db : Database) (row : Option AttemptRow) : Database :=
  match row with
  | some row => { db with attempts := db.attempts.put row }
  | none => db

/-- The rows a store call locks. -/
def BudgetCall.attemptLock : BudgetCall → Option Id
  | .markUnknown attemptId => some attemptId
  | .settle receipt => some receipt.attemptId
  | .recordGatewayGrant reference _ => some reference.attemptId
  | _ => none

/-- `admit` is not one step of this system. -/
def BudgetCall.isAdmit : BudgetCall → Bool
  | .admitTicket .. => true
  | _ => false

def discoverPhase (D : Digests) (db : Database) (ticket : Text) : AdmitPhase :=
  if ticketOk ticket then
    match discoverAttempt D db ticket with
    | some (a, ref) => .discovered a.toAttempt ref
    | none => .finished
  else .finished

/-- The call after COMMIT with this outcome. -/
def AdmitCall.afterCommit (c : AdmitCall) (answer : AdmitResult) (outcome : CommitOutcome) :
    AdmitCall :=
  { c with phase :=
      match outcome, answer with
      | .acknowledged, .admitted body => .committed body
      | _, _ => .finished }

def AdmitResult.attempt : AdmitResult → Option Id
  | .admitted body => some body.attemptId
  | _ => none

def dispatchNext (D : Digests) (s : Dispatch) : DispatchStep → Option Dispatch
  | .discover callId ticket observation recovery =>
      (s.calls.insert? ⟨callId, ticket, observation, recovery, discoverPhase D s.db ticket⟩).map
        fun calls => { s with calls }
  | .lock callId env => do
      let c ← s.calls.find? callId
      match c.phase with
      | .discovered a ref =>
          if s.rowFree a.id then
            some { s with calls := s.calls.put { c with phase := phaseUnderLock D env c a ref s.db } }
          else none
      | _ => none
  | .commit callId outcome => do
      let c ← s.calls.find? callId
      match c.phase with
      | .holding row answer =>
          let calls := s.calls.put (c.afterCommit answer outcome)
          if outcome = .rolledBack then some { s with calls }
          else some { s with
            calls
            db := writeRow s.db row
            admissions := answer.attempt.toList ++ s.admissions }
      | _ => none
  | .answer callId => do
      let c ← s.calls.find? callId
      match c.phase with
      | .committed body => do
          let permits ← s.permits.insert? ⟨s.nextPermit, body⟩
          some { s with
            calls := s.calls.put { c with phase := .finished }
            permits
            nextPermit := s.nextPermit + 1
            returned := ⟨c.ticket, s.nextPermit, body.attemptId⟩ :: s.returned }
      | _ => none
  | .abandon callId => do
      let c ← s.calls.find? callId
      match c.phase with
      | .holding _ _ => none
      | _ => some { s with calls := s.calls.put { c with phase := .finished } }
  | .consume permit =>
      match s.permits.find? permit with
      | some _ => some { s with
          permits := s.permits.erase permit, consumed := permit :: s.consumed }
      | none => some s
  | .call c =>
      if c.isAdmit || !c.attemptLock.all s.rowFree then none
      else some { s with db := (perform D c s.db).1 }
  | .reconfigure db' =>
      if Reconfigures s.db db' ∧ ∀ c ∈ s.calls.rows, ∀ id, c.lockedRow = some id →
          db'.attempts.find? id = s.db.attempts.find? id then
        some { s with db := db' }
      else none

/-- Dispatch from any state the store can reach, with no call in flight. -/
def dispatchSystem (D : Digests) : System Dispatch DispatchStep where
  init s := (budgetSystem D).Reachable s.db ∧ s.calls = Table.empty ∧ s.permits = Table.empty ∧
    s.admissions = [] ∧ s.returned = [] ∧ s.consumed = []
  next := dispatchNext D

/-! ## Section 3: Rows and tickets -/

/-- Every row of `db` has a later version in `db'`. -/
def RowsLater (db db' : Database) : Prop :=
  ∀ id a, db.attempts.find? id = some a →
    ∃ b, db'.attempts.find? id = some b ∧ Later a.toAttempt b.toAttempt

theorem RowsLater.refl (db : Database) : RowsLater db db := fun _ a ha => ⟨a, ha, .refl _⟩

theorem RowsLater.trans {db₁ db₂ db₃ : Database} (h : RowsLater db₁ db₂)
    (h' : RowsLater db₂ db₃) : RowsLater db₁ db₃ := by
  intro id a ha
  obtain ⟨b, hb, hab⟩ := h id a ha
  obtain ⟨c, hc, hbc⟩ := h' id b hb
  exact ⟨c, hc, hab.trans hbc⟩

/-- The unique index on `ticket_hash`. -/
def TicketsUnique (db : Database) : Prop :=
  ∀ a ∈ db.attempts, ∀ b ∈ db.attempts, a.ticketHash = b.ticketHash → a.id = b.id

/-- Rows that each come from a row with the same id and ticket keep tickets unique. -/
theorem ticketsUnique_of_origin {db db' : Database} (h : TicketsUnique db)
    (horigin : ∀ b ∈ db'.attempts, ∃ a ∈ db.attempts, a.id = b.id ∧ a.ticketHash = b.ticketHash) :
    TicketsUnique db' := by
  intro b hb c hc hbc
  obtain ⟨b', hb', hbid, hbt⟩ := horigin b hb
  obtain ⟨c', hc', hcid, hct⟩ := horigin c hc
  rw [← hbid, ← hcid]
  exact h b' hb' c' hc' (hbt.trans (hbc.trans hct.symm))

theorem ticketsUnique_put {db db' : Database} {old new : AttemptRow} (h : TicketsUnique db)
    (hfound : db.attempts.find? new.id = some old)
    (hallowed : budgetImmutable old.toAttempt new.toAttempt = none)
    (hput : db'.attempts = db.attempts.put new) : TicketsUnique db' := by
  refine ticketsUnique_of_origin h fun b hb => ?_
  rw [hput] at hb
  rcases Table.mem_put.1 hb with ⟨hb, -⟩ | ⟨rfl, -⟩
  · exact ⟨b, hb, rfl, rfl⟩
  · have hid := Table.find?_key hfound
    exact ⟨old, Table.find?_mem hfound, hid, (later_of_allowed hallowed).ticketHash.symm⟩

theorem ticketsUnique_change {db db' : Database} (h : TicketsUnique db)
    (hc : AttemptsChange db db') : TicketsUnique db' := by
  cases hc with
  | same hsame =>
    intro a ha b hb
    rw [hsame] at ha hb
    exact h a ha b hb
  | inserted row hp =>
    obtain ⟨attempts, hins, rfl⟩ := hp.inserted
    intro a ha b hb hab
    rcases (Table.mem_insert? hins).1 ha with ha | rfl <;>
      rcases (Table.mem_insert? hins).1 hb with hb | rfl
    · exact h a ha b hb hab
    · exact absurd hab (hp.ticketNew a ha)
    · exact absurd hab.symm (hp.ticketNew b hb)
    · rfl
  | updated old new hfound hallowed hput => exact ticketsUnique_put h hfound hallowed hput

theorem ticketsUnique_reconfigures {db db' : Database} (h : TicketsUnique db)
    (hr : Reconfigures db db') : TicketsUnique db' := by
  refine ticketsUnique_of_origin h fun b hb => ?_
  obtain ⟨i, hi, rfl⟩ := List.mem_iff_getElem.1 (Table.mem_def.1 hb)
  have hlen : i < db.attempts.rows.length := hr.attempts.length_eq ▸ hi
  have hsame := hr.attempts.get hlen hi
  simp only [attemptReconfigured, Bool.and_eq_true, decide_eq_true_eq, List.get_eq_getElem]
    at hsame
  refine ⟨db.attempts.rows[i], List.getElem_mem hlen, ?_, ?_⟩ <;> rw [hsame.1.1]

theorem reachable_ticketsUnique {D : Digests} {db : Database}
    (h : (budgetSystem D).Reachable db) : TicketsUnique db := by
  refine (budgetSystem D).reachable_invariant ?_ ?_ h
  · intro s hs a ha
    rw [hs.1] at ha
    cases ha
  · intro s step t hs ht
    rcases budgetNext_cases ht with ⟨answer, he⟩ | hr
    · exact ticketsUnique_change hs (effect_attempts he)
    · exact ticketsUnique_reconfigures hs hr

/-! ## Section 4: The invariant -/

/-- What is true of a call in each phase. -/
def CallOk (D : Digests) (db : Database) (c : AdmitCall) : Prop :=
  match c.phase with
  | .discovered a _ => ∃ row, db.attempts.find? a.id = some row ∧
      row.ticketHash = D.hash c.ticket ∧
      row.installationAccountId = a.installationAccountId ∧
      row.memberAccountId = a.memberAccountId
  | .holding none answer => answer.attempt = none
  | .holding (some new) answer => ∃ old, db.attempts.find? new.id = some old ∧
      old.state = .prepared ∧ new.state ≠ .prepared ∧
      budgetImmutable old.toAttempt new.toAttempt = none ∧
      new.ticketHash = D.hash c.ticket ∧ ∀ id, answer.attempt = some id → id = new.id
  | .committed body => ∃ row, db.attempts.find? body.attemptId = some row ∧
      row.ticketHash = D.hash c.ticket
  | .finished => True

/-- An acknowledged admission that has not been answered yet. -/
def AdmitCall.token (id : Id) (c : AdmitCall) : Nat :=
  match c.phase with
  | .committed body => if body.attemptId = id then 1 else 0
  | _ => 0

structure DispatchInv (D : Digests) (s : Dispatch) : Prop where
  /-- A ticket stands for one attempt. -/
  tickets : TicketsUnique s.db
  /-- What a call knows is so. -/
  calls : ∀ c ∈ s.calls, CallOk D s.db c
  /-- Two calls never hold the lock of one row. -/
  exclusive : ∀ c ∈ s.calls, ∀ c' ∈ s.calls, ∀ id,
    c.lockedRow = some id → c'.lockedRow = some id → c = c'
  /-- An attempt is admitted at most once, and is not prepared after it. -/
  admissions : ∀ id, s.admissions.count id ≤ 1 ∧
    (id ∈ s.admissions → ∃ a, s.db.attempts.find? id = some a ∧ a.state ≠ .prepared)
  /-- Answers and pending answers come from admissions. -/
  tokens : ∀ id, s.calls.total (AdmitCall.token id) + s.returned.countP (·.attemptId = id) ≤
    s.admissions.count id
  /-- An answer is of the attempt of its ticket. -/
  returned : ∀ r ∈ s.returned, ∃ a, s.db.attempts.find? r.attemptId = some a ∧
    a.ticketHash = D.hash r.ticket
  /-- A permit that is there was not taken. -/
  permits : ∀ p ∈ s.permits, p.id < s.nextPermit ∧ p.id ∉ s.consumed
  /-- A permit is taken once. -/
  consumed : s.consumed.Nodup ∧ ∀ p ∈ s.consumed, p < s.nextPermit

theorem lockedRow_holding {c : AdmitCall} {id : Id} (h : c.lockedRow = some id) :
    ∃ row answer, c.phase = .holding (some row) answer ∧ row.id = id := by
  unfold AdmitCall.lockedRow at h
  split at h
  · next row answer hp => exact ⟨row, answer, hp, Option.some.inj h⟩
  · cases h

/-- A call stays as it is while rows move on and its own row is locked. -/
theorem callOk_mono {D : Digests} {db db' : Database} {c : AdmitCall} (hlater : RowsLater db db')
    (hlock : ∀ id, c.lockedRow = some id → db'.attempts.find? id = db.attempts.find? id)
    (h : CallOk D db c) : CallOk D db' c := by
  unfold CallOk at h ⊢
  split at h
  · next a ref hp =>
    obtain ⟨row, hrow, ht, hi, hm⟩ := h
    obtain ⟨b, hb, hl⟩ := hlater _ _ hrow
    exact ⟨b, hb, hl.ticketHash.trans ht, hl.installation.trans hi, hl.member.trans hm⟩
  · exact h
  · next new answer hp =>
    obtain ⟨old, hold, hrest⟩ := h
    have hrow : c.lockedRow = some new.id := by simp [AdmitCall.lockedRow, hp]
    exact ⟨old, by rw [hlock _ hrow, hold], hrest⟩
  · next body hp =>
    obtain ⟨row, hrow, ht⟩ := h
    obtain ⟨b, hb, hl⟩ := hlater _ _ hrow
    exact ⟨b, hb, hl.ticketHash.trans ht⟩
  · trivial

theorem later_notPrepared {old new : Attempt} (h : Later old new) (hp : old.state ≠ .prepared) :
    new.state ≠ .prepared := by
  intro hn
  have hrank := h.state
  rw [hn] at hrank
  generalize old.state = state at hrank hp
  cases state <;> simp [AttemptState.rank] at hrank hp

/-! ## Section 5: One step -/

section Steps

variable {D : Digests} {s : Dispatch}

/-- Only the tables change: rows move on, locked rows and ticket uniqueness stay. -/
theorem inv_db {db' : Database} (h : DispatchInv D s) (hlater : RowsLater s.db db')
    (hlock : ∀ c ∈ s.calls, ∀ id, c.lockedRow = some id →
      db'.attempts.find? id = s.db.attempts.find? id)
    (htickets : TicketsUnique db') : DispatchInv D { s with db := db' } where
  tickets := htickets
  calls c hc := callOk_mono hlater (hlock c hc) (h.calls c hc)
  exclusive := h.exclusive
  admissions id := by
    refine ⟨(h.admissions id).1, fun hid => ?_⟩
    obtain ⟨a, ha, hp⟩ := (h.admissions id).2 hid
    obtain ⟨b, hb, hab⟩ := hlater id a ha
    exact ⟨b, hb, later_notPrepared hab hp⟩
  tokens := h.tokens
  returned r hr := by
    obtain ⟨a, ha, ht⟩ := h.returned r hr
    obtain ⟨b, hb, hab⟩ := hlater _ a ha
    exact ⟨b, hb, hab.ticketHash.trans ht⟩
  permits := h.permits
  consumed := h.consumed

/-- One call moves to a new phase, in which it may hold the lock of a free row. -/
theorem inv_putCall {c : AdmitCall} (c' : AdmitCall) (h : DispatchInv D s) (hc : s.calls.find? c'.id = some c)
    (hok : CallOk D s.db c')
    (hlock : ∀ id, c'.lockedRow = some id → c.lockedRow = some id ∨ s.rowFree id = true)
    (htoken : ∀ id, c'.token id ≤ c.token id) :
    DispatchInv D { s with calls := s.calls.put c' } := by
  have hcid := Table.find?_key hc
  have hcmem := Table.find?_mem hc
  -- another call cannot hold the row that this one holds now
  have hother : ∀ x ∈ s.calls, x.id ≠ c'.id → ∀ id, c'.lockedRow = some id →
      x.lockedRow ≠ some id := by
    intro x hx hne id hid hxid
    rcases hlock id hid with hheld | hfree
    · have heq := h.exclusive x hx c hcmem id hxid hheld
      rw [heq] at hne
      exact hne hcid
    · have := List.all_eq_true.1 hfree x hx
      simp [hxid] at this
  refine { h with calls := ?_, exclusive := ?_, tokens := ?_ }
  · intro x hx
    rcases Table.mem_put.1 hx with ⟨hx, -⟩ | ⟨rfl, -⟩
    · exact h.calls x hx
    · exact hok
  · intro x hx y hy id hxid hyid
    rcases Table.mem_put.1 hx with ⟨hxold, hxne⟩ | ⟨hxc, -⟩ <;>
      rcases Table.mem_put.1 hy with ⟨hyold, hyne⟩ | ⟨hyc, -⟩
    · exact h.exclusive x hxold y hyold id hxid hyid
    · exact absurd hxid (hother x hxold hxne id (hyc ▸ hyid))
    · exact absurd hyid (hother y hyold hyne id (hxc ▸ hxid))
    · rw [hxc, hyc]
  · intro id
    have hmove := Table.total_put hc (AdmitCall.token id)
    have hle := htoken id
    have hold := h.tokens id
    simp only
    omega

theorem attempt_eq_none {answer : AdmitResult} (h : ∀ body, answer ≠ .admitted body) :
    answer.attempt = none := by
  cases answer with
  | denied => rfl
  | limited limit => rfl
  | admitted body => exact absurd rfl (h body)

/-- A call that ends holds nothing and owes nothing. -/
theorem inv_finish {c : AdmitCall} (h : DispatchInv D s) (hc : s.calls.find? c.id = some c) :
    DispatchInv D { s with calls := s.calls.put { c with phase := .finished } } :=
  inv_putCall { c with phase := .finished } h hc trivial
    (by simp [AdmitCall.lockedRow]) (by simp [AdmitCall.token])

theorem inv_discover {callId : Nat} {ticket : Text} {observation : BudgetGatewayObservation}
    {recovery : BudgetRecoveryReference} {calls : Table AdmitCall.id} (h : DispatchInv D s)
    (hins : s.calls.insert?
      ⟨callId, ticket, observation, recovery, discoverPhase D s.db ticket⟩ = some calls) :
    DispatchInv D { s with calls } := by
  generalize hnew : (⟨callId, ticket, observation, recovery, discoverPhase D s.db ticket⟩ :
    AdmitCall) = c at hins
  have hphase : c.phase = .finished ∨ ∃ a ref, c.phase = .discovered a.toAttempt ref ∧
      discoverAttempt D s.db c.ticket = some (a, ref) := by
    rw [← hnew]
    simp only [discoverPhase]
    split
    · cases hd : discoverAttempt D s.db ticket with
      | none => exact .inl rfl
      | some found => exact .inr ⟨found.1, found.2, rfl, rfl⟩
    · exact .inl rfl
  have hok : CallOk D s.db c := by
    rcases hphase with hp | ⟨a, ref, hp, hd⟩
    · simp [CallOk, hp]
    · obtain ⟨hfound, -, ht⟩ := discoverAttempt_some hd
      simp only [CallOk, hp]
      exact ⟨a, hfound, ht, rfl, rfl⟩
  have hfree : c.lockedRow = none ∧ ∀ id, c.token id = 0 := by
    rcases hphase with hp | ⟨a, ref, hp, -⟩ <;> simp [AdmitCall.lockedRow, AdmitCall.token, hp]
  refine { h with calls := ?_, exclusive := ?_, tokens := ?_ }
  · intro x hx
    rcases (Table.mem_insert? hins).1 hx with hx | rfl
    · exact h.calls x hx
    · exact hok
  · intro x hx y hy id hxid hyid
    rcases (Table.mem_insert? hins).1 hx with hx | rfl
    · rcases (Table.mem_insert? hins).1 hy with hy | rfl
      · exact h.exclusive x hx y hy id hxid hyid
      · rw [hfree.1] at hyid
        cases hyid
    · rw [hfree.1] at hxid
      cases hxid
  · intro id
    have hmove := Table.total_insert? hins (AdmitCall.token id)
    have hzero := hfree.2 id
    have hold := h.tokens id
    simp only
    omega

/-- The locks are taken on a free row, and the row is read again under them. -/
theorem inv_lock {c : AdmitCall} {a : Attempt} {ref : AuthorityReference} {env : AdmitEnv}
    (h : DispatchInv D s) (hc : s.calls.find? c.id = some c) (hp : c.phase = .discovered a ref)
    (hfree : s.rowFree a.id = true) :
    DispatchInv D { s with
      calls := s.calls.put { c with phase := phaseUnderLock D env c a ref s.db } } := by
  have hok := h.calls c (Table.find?_mem hc)
  simp only [CallOk, hp] at hok
  obtain ⟨row, hrow, ht, hi, hm⟩ := hok
  have hsame : ∀ b, s.db.attempts.find? a.id = some b →
      b.installationAccountId = a.installationAccountId ∧
        b.memberAccountId = a.memberAccountId := by
    intro b hb
    rw [hrow] at hb
    cases hb
    exact ⟨hi, hm⟩
  unfold phaseUnderLock
  split
  · exact inv_finish h hc
  · next db' answer hok =>
    -- a row that changed went from prepared to admitted or retired
    have hchanged : ∀ old new : AttemptRow, s.db.attempts.find? a.id = some old →
        old.state = .prepared → Updates s.db db' old new → new.state ≠ .prepared →
        (∀ id, answer.attempt = some id → id = old.id) →
        DispatchInv D { s with calls := s.calls.put { c with
          phase := .holding
            (if db'.attempts = s.db.attempts then none else db'.attempts.find? a.id) answer } } := by
      intro old new hold hprep hup hnew hanswer
      have hkey := Table.find?_key hold
      have hid := (immutableColumnsKept_fields (budgetImmutable_none hup.allowed).1).1
      have hfind : db'.attempts.find? a.id = some new := by
        rw [hup.result, ← hkey, ← hid]
        exact Table.find?_put_self hup.found
      have hne : db'.attempts ≠ s.db.attempts := by
        intro he
        rw [he, hold] at hfind
        cases hfind
        exact hnew hprep
      rw [if_neg hne, hfind]
      have hticket : new.ticketHash = D.hash c.ticket := by
        rw [(later_of_allowed hup.allowed).ticketHash]
        rw [hrow] at hold
        cases hold
        exact ht
      refine inv_putCall { c with phase := .holding (some new) answer } h hc ?_ ?_ ?_
      · exact ⟨old, hup.found, hprep, hnew, hup.allowed, hticket,
          fun id he => (hanswer id he).trans hid.symm⟩
      · intro id hl
        simp only [AdmitCall.lockedRow, Option.some.injEq] at hl
        rw [← hl, hid, hkey]
        exact .inr hfree
      · simp [AdmitCall.token]
    rcases admitDiscovered_ok hsame hok with ⟨rfl, hno⟩ | ⟨old, hold, hcase⟩
    · rw [if_pos rfl]
      refine inv_putCall { c with phase := .holding none answer } h hc ?_ ?_ ?_
      · exact attempt_eq_none hno
      · simp [AdmitCall.lockedRow]
      · simp [AdmitCall.token]
    · rcases hcase with ⟨⟨hprep, new, hnew, hup⟩, hno⟩ | ⟨hadm, body, rfl, hbody⟩
      · refine hchanged old new hold hprep hup (by rw [hnew]; simp) ?_
        simp [attempt_eq_none hno]
      · obtain ⟨new, at', hnew, hup⟩ := hadm.updates
        refine hchanged old new hold hadm.wasPrepared hup (by rw [hnew]; simp) ?_
        intro id he
        cases he
        exact hbody

/-- COMMIT of a call that took effect. The row goes from prepared to its new
    version, so this is the first and only admission of its attempt. -/
theorem inv_commit {c : AdmitCall} {row : Option AttemptRow} {answer : AdmitResult}
    {outcome : CommitOutcome} (h : DispatchInv D s) (hc : s.calls.find? c.id = some c)
    (hp : c.phase = .holding row answer) :
    DispatchInv D { s with
      calls := s.calls.put (c.afterCommit answer outcome)
      db := writeRow s.db row
      admissions := answer.attempt.toList ++ s.admissions } := by
  have hcmem := Table.find?_mem hc
  have hok := h.calls c hcmem
  simp only [CallOk, hp] at hok
  have hold0 : ∀ id, c.token id = 0 := by simp [AdmitCall.token, hp]
  cases row with
  | none =>
    simp only at hok
    have hfinish : c.afterCommit answer outcome = { c with phase := .finished } := by
      cases answer <;> cases outcome <;> first | rfl | cases hok
    rw [hok, hfinish]
    exact inv_finish h hc
  | some new =>
    obtain ⟨old, hold, hprep, hnew, hallowed, hticket, hanswer⟩ := hok
    have hlocked : c.lockedRow = some new.id := by simp [AdmitCall.lockedRow, hp]
    have hfind : (s.db.attempts.put new).find? new.id = some new := Table.find?_put_self hold
    have hlater : RowsLater s.db (writeRow s.db (some new)) :=
      fun _ _ ha => later_change (.updated old new hold hallowed rfl) ha
    -- the attempt was prepared, so it had not been admitted
    have hfirst : s.admissions.count new.id = 0 := by
      refine List.count_eq_zero.2 fun hin => ?_
      obtain ⟨a, ha, hne⟩ := (h.admissions new.id).2 hin
      rw [hold] at ha
      cases ha
      exact hne hprep
    have hcount : ∀ id, (answer.attempt.toList ++ s.admissions).count id =
        (if answer.attempt = some id then 1 else 0) + s.admissions.count id := by
      intro id
      cases hatt : answer.attempt with
      | none => simp
      | some x => simp [List.count_cons, Nat.add_comm]
    have hpending : ∀ id, (c.afterCommit answer outcome).token id ≤
        if answer.attempt = some id then 1 else 0 := by
      intro id
      cases outcome <;> cases answer <;>
        simp [AdmitCall.afterCommit, AdmitCall.token, AdmitResult.attempt]
    refine ⟨?_, ?_, ?_, ?_, ?_, ?_, h.permits, h.consumed⟩
    · exact ticketsUnique_put h.tickets hold hallowed rfl
    · intro x hx
      rcases Table.mem_put.1 hx with ⟨hxold, hxne⟩ | ⟨hxc, -⟩
      · refine callOk_mono hlater (fun id hid => ?_) (h.calls x hxold)
        have hne : id ≠ new.id := by
          rintro rfl
          have heq := h.exclusive x hxold c hcmem _ hid hlocked
          exact hxne (by rw [heq]; rfl)
        exact Table.find?_put_ne (t := s.db.attempts) (r := new) hne
      · rw [hxc]
        cases hans : answer with
        | admitted body =>
          have hbody := hanswer body.attemptId (by rw [hans]; rfl)
          cases outcome with
          | acknowledged =>
            show ∃ r, (s.db.attempts.put new).find? body.attemptId = some r ∧ _
            rw [hbody]
            exact ⟨new, hfind, hticket⟩
          | lostCommitted => trivial
          | rolledBack => trivial
        | denied => cases outcome <;> trivial
        | limited limit => cases outcome <;> trivial
    · have hfree : ∀ id, (c.afterCommit answer outcome).lockedRow ≠ some id := by
        intro id
        cases outcome <;> cases answer <;> simp [AdmitCall.afterCommit, AdmitCall.lockedRow]
      intro x hx y hy id hxid hyid
      rcases Table.mem_put.1 hx with ⟨hxold, -⟩ | ⟨hxc, -⟩
      · rcases Table.mem_put.1 hy with ⟨hyold, -⟩ | ⟨hyc, -⟩
        · exact h.exclusive x hxold y hyold id hxid hyid
        · exact absurd (hyc ▸ hyid) (hfree id)
      · exact absurd (hxc ▸ hxid) (hfree id)
    · intro id
      have hle := (h.admissions id).1
      refine ⟨?_, fun hin => ?_⟩
      · simp only [hcount]
        split
        · next he =>
          rw [hanswer id he, hfirst]
        · omega
      · by_cases he : answer.attempt = some id
        · have hid := hanswer id he
          rw [hid]
          exact ⟨new, hfind, hnew⟩
        · have hin' : id ∈ s.admissions := by
            rcases List.mem_append.1 hin with hin | hin
            · exact absurd (Option.mem_toList.1 hin) he
            · exact hin
          obtain ⟨a, ha, hne⟩ := (h.admissions id).2 hin'
          obtain ⟨b, hb, hab⟩ := hlater id a ha
          exact ⟨b, hb, later_notPrepared hab hne⟩
    · intro id
      have hmove := Table.total_put (r := c.afterCommit answer outcome) hc (AdmitCall.token id)
      have htok := h.tokens id
      have hle := hpending id
      have hzero := hold0 id
      simp only [hcount]
      omega
    · intro r hr
      obtain ⟨a, ha, ht⟩ := h.returned r hr
      obtain ⟨b, hb, hab⟩ := hlater _ a ha
      exact ⟨b, hb, hab.ticketHash.trans ht⟩

/-- The acknowledged admission is answered: the pending token becomes an answer. -/
theorem inv_answer {c : AdmitCall} {body : PermitBody} {permits : Table Permit.id}
    (h : DispatchInv D s) (hc : s.calls.find? c.id = some c) (hp : c.phase = .committed body)
    (hins : s.permits.insert? ⟨s.nextPermit, body⟩ = some permits) :
    DispatchInv D { s with
      calls := s.calls.put { c with phase := .finished }
      permits
      nextPermit := s.nextPermit + 1
      returned := ⟨c.ticket, s.nextPermit, body.attemptId⟩ :: s.returned } := by
  have hfin := inv_finish h hc
  have hok := h.calls c (Table.find?_mem hc)
  simp only [CallOk, hp] at hok
  refine { hfin with tokens := ?_, returned := ?_, permits := ?_, consumed := ?_ }
  · intro id
    have hmove := Table.total_put (r := { c with phase := .finished }) hc (AdmitCall.token id)
    have htok := h.tokens id
    have hnew : AdmitCall.token id { c with phase := .finished } = 0 := rfl
    have hold : c.token id = if body.attemptId = id then 1 else 0 := by
      simp [AdmitCall.token, hp]
    simp only [List.countP_cons, decide_eq_true_eq]
    omega
  · intro r hr
    rcases List.mem_cons.1 hr with rfl | hr
    · exact hok
    · exact h.returned r hr
  · intro p hpm
    rcases (Table.mem_insert? hins).1 hpm with hpm | rfl
    · obtain ⟨hlt, hnot⟩ := h.permits p hpm
      exact ⟨Nat.lt_succ_of_lt hlt, hnot⟩
    · exact ⟨Nat.lt_succ_self _, fun hin => absurd (h.consumed.2 _ hin) (lt_irrefl _)⟩
  · exact ⟨h.consumed.1, fun p hpm => Nat.lt_succ_of_lt (h.consumed.2 p hpm)⟩

/-- A permit that is consumed leaves the map. -/
theorem inv_consume {permit : Nat} {p : Permit} (h : DispatchInv D s)
    (hfound : s.permits.find? permit = some p) :
    DispatchInv D { s with
      permits := s.permits.erase permit, consumed := permit :: s.consumed } := by
  have hpm := h.permits p (Table.find?_mem hfound)
  rw [Table.find?_key hfound] at hpm
  refine { h with permits := ?_, consumed := ?_ }
  · intro q hq
    obtain ⟨hq, hne⟩ := Table.mem_erase.1 hq
    obtain ⟨hlt, hnot⟩ := h.permits q hq
    exact ⟨hlt, by simp [hne, hnot]⟩
  · refine ⟨List.nodup_cons.2 ⟨hpm.2, h.consumed.1⟩, fun q hq => ?_⟩
    rcases List.mem_cons.1 hq with rfl | hq
    · exact hpm.1
    · exact h.consumed.2 q hq

end Steps

/-! ## Section 6: Other store calls -/

theorem prepares_frame {db db' : Database} {row : AttemptRow} (h : Prepares db db' row)
    {id : Id} {a : AttemptRow} (ha : db.attempts.find? id = some a) :
    db'.attempts.find? id = some a := by
  obtain ⟨attempts, hins, rfl⟩ := h.inserted
  have hne : id ≠ row.id := by
    intro hid
    rw [hid, (Table.insert?_eq_some.1 hins).1] at ha
    cases ha
  rw [Table.find?_insert? hins, if_neg hne, ha]

theorem updates_frame {db db' : Database} {old new : AttemptRow} (h : Updates db db' old new)
    {id : Id} (hid : id ≠ new.id) : db'.attempts.find? id = db.attempts.find? id := by
  rw [h.result]
  exact Table.find?_put_ne (t := db.attempts) hid

/-- A result that keeps a row keeps it through COMMIT or ROLLBACK. -/
theorem conclude_frame {α : Type} {db : Database} {result : Except StoreError (Database × α)}
    {answer : α → Answer} {id : Id} {a : AttemptRow} (ha : db.attempts.find? id = some a)
    (h : ∀ db' value, result = .ok (db', value) → db'.attempts.find? id = some a) :
    (conclude db result answer).1.attempts.find? id = some a := by
  cases result with
  | error e => exact ha
  | ok r => exact h r.1 r.2 rfl

theorem concludeUnit_frame {db : Database} {result : Except StoreError Database}
    {answer : Answer} {id : Id} {a : AttemptRow} (ha : db.attempts.find? id = some a)
    (h : ∀ db', result = .ok db' → db'.attempts.find? id = some a) :
    (concludeUnit db result answer).1.attempts.find? id = some a := by
  refine conclude_frame ha fun db' _ hok => ?_
  cases result with
  | error e => cases hok
  | ok db₁ =>
    cases hok
    exact h _ rfl

/-- A call other than `admit` leaves every attempt it does not lock as it is. -/
theorem perform_frame {D : Digests} {call : BudgetCall} {db : Database}
    (hadmitted : call.isAdmit = false) {id : Id} {a : AttemptRow}
    (hlock : call.attemptLock ≠ some id) (ha : db.attempts.find? id = some a) :
    (perform D call db).1.attempts.find? id = some a := by
  cases call with
  | prepareIntent env fresh invocation request =>
    refine concludeUnit_frame ha fun db' h => ?_
    obtain ⟨row, hrow⟩ := prepareIntent_ok h
    exact prepares_frame hrow ha
  | prepareModelPurposeIntent env fresh source request =>
    refine concludeUnit_frame ha fun db' h => ?_
    obtain ⟨row, hrow⟩ := prepareModelPurposeIntent_ok h
    exact prepares_frame hrow ha
  | prepareOwnerJobIntent env fresh input countedAt =>
    refine concludeUnit_frame ha fun db' h => ?_
    obtain ⟨row, hrow⟩ := prepareOwnerJobIntent_ok h
    exact prepares_frame hrow ha
  | admitTicket => cases hadmitted
  | markUnknown attemptId =>
    refine concludeUnit_frame ha fun db' h => ?_
    rcases markUnknown_ok h with rfl | ⟨b, hb, -, row, hrow, hu⟩
    · exact ha
    · have hid : row.id = attemptId := by
        rw [← Table.find?_key hb, hrow]
      rw [updates_frame hu fun he => hlock (by rw [he, hid]; rfl), ha]
  | settle receipt =>
    refine conclude_frame ha fun db' verdict h => ?_
    rcases settle_ok h with ⟨-, rfl⟩ | ⟨actual, b, -, hb, -, ⟨-, -, rfl⟩ | ⟨row, db₁, hs, hcase⟩⟩
    · exact ha
    · exact ha
    · have hid : row.id = receipt.attemptId := by
        rw [← Table.find?_key hb, hs.row_eq]
        rfl
      have hframe : db₁.attempts.find? id = some a := by
        rw [updates_frame hs.updates fun he => hlock (by rw [he, hid]; rfl), ha]
      rcases hcase with ⟨-, -, rfl⟩ | ⟨-, -, hf⟩
      · exact hframe
      · rw [freezes_attempts hf, hframe]
  | recordGatewayGrant reference grantHash =>
    refine conclude_frame ha fun db' stored h => ?_
    rcases recordGatewayGrant_ok h with ⟨rfl, -⟩ | ⟨⟨b, grants, -, -, -, rfl⟩, -⟩
    · exact ha
    · exact ha

/-- Grants are only added: no call changes or removes one. -/
theorem grants_effect {db db' : Database} {answer : Answer} (h : Effect db db' answer)
    {id : Id} {g : Grant} (hg : db.grants.find? id = some g) : db'.grants.find? id = some g := by
  cases h with
  | nothing => exact hg
  | prepares hp =>
    obtain ⟨attempts, -, rfl⟩ := hp.inserted
    exact hg
  | retires hr =>
    obtain ⟨-, row, -, hu⟩ := hr
    rw [hu.result]
    exact hg
  | admits ha =>
    obtain ⟨row, _, -, hu⟩ := ha.updates
    rw [hu.result]
    exact hg
  | marksUnknown hm =>
    obtain ⟨-, row, -, hu⟩ := hm
    rw [hu.result]
    exact hg
  | settles hs =>
    rw [hs.updates.result]
    exact hg
  | conflicts hs _ hf =>
    rcases hf with ⟨rfl, -⟩ | ⟨account, frozen, -, -, -, rfl⟩ <;>
    · rw [hs.updates.result]
      exact hg
  | grants hgr =>
    obtain ⟨a, grants, -, -, hins, rfl⟩ := hgr
    rw [Table.find?_insert? hins]
    split
    · next he =>
      rw [he, (Table.insert?_eq_some.1 hins).1] at hg
      cases hg
    · exact hg

/-! ## Section 7: Whole runs -/

theorem reconfigures_later {db db' : Database} (h : Reconfigures db db') : RowsLater db db' := by
  intro id a ha
  obtain ⟨b, hb, hab⟩ := reconfigured_find h ha
  simp only [attemptReconfigured, Bool.and_eq_true, Option.isNone_iff_eq_none] at hab
  exact ⟨b, hb, later_of_allowed hab.1.2⟩

/-- What one step does to the tables, whatever the step. -/
structure DbStep (s t : Dispatch) : Prop where
  rows : RowsLater s.db t.db
  grants : ∀ id g, s.db.grants.find? id = some g → t.db.grants.find? id = some g

theorem DbStep.same {s t : Dispatch} (h : t.db = s.db) : DbStep s t :=
  ⟨h ▸ .refl _, fun _ _ hg => h ▸ hg⟩

/-- A commit that takes effect changes the row it holds, whether or not its answer comes back. -/
theorem inv_commitStep {D : Digests} {s t : Dispatch} {callId : Nat} {outcome : CommitOutcome}
    (h : DispatchInv D s) (hnext : (dispatchSystem D).next s (.commit callId outcome) = some t) :
    DispatchInv D t ∧ DbStep s t := by
  simp only [dispatchSystem] at hnext
  obtain ⟨c, hc, hstep⟩ := Option.bind_eq_some_iff.1 hnext
  obtain rfl : c.id = callId := Table.find?_key hc
  split at hstep
  · next row answer hp =>
    simp only at hstep
    split at hstep
    · next ho =>
      -- It is rolled back: the call ends, and no row has changed.
      cases hstep
      subst ho
      have hfin : c.afterCommit answer .rolledBack = { c with phase := .finished } := rfl
      rw [hfin]
      exact ⟨inv_finish h hc, .same rfl⟩
    · cases hstep
      refine ⟨inv_commit h hc hp, ?_, fun _ _ hg => ?_⟩
      · cases row with
        | none => exact .refl _
        | some new =>
          have hok := h.calls c (Table.find?_mem hc)
          simp only [CallOk, hp] at hok
          obtain ⟨old, hold, -, -, hallowed, -⟩ := hok
          exact fun _ _ ha => later_change (.updated old new hold hallowed rfl) ha
      · cases row <;> exact hg
  · cases hstep

/-- Another call of the store changes rows, but not one that is locked. -/
theorem inv_callStep {D : Digests} {s t : Dispatch} {c : BudgetCall} (h : DispatchInv D s)
    (hnext : (dispatchSystem D).next s (.call c) = some t) : DispatchInv D t ∧ DbStep s t := by
  simp only [dispatchSystem, dispatchNext] at hnext
  split at hnext
  · cases hnext
  · next hguard =>
    cases hnext
    simp only [Bool.or_eq_true, Bool.not_eq_true', not_or, Bool.not_eq_true,
      Bool.not_eq_false] at hguard
    obtain ⟨hadmitted, hfree⟩ := hguard
    have heffect := perform_effect D c s.db
    have hlater : RowsLater s.db (perform D c s.db).1 :=
      fun _ _ ha => later_change (effect_attempts heffect) ha
    refine ⟨inv_db h hlater (fun x hx id hid => ?_)
      (ticketsUnique_change h.tickets (effect_attempts heffect)), hlater,
      fun _ _ hg => grants_effect heffect hg⟩
    obtain ⟨new, answer, hp, rfl⟩ := lockedRow_holding hid
    have hok := h.calls x hx
    simp only [CallOk, hp] at hok
    obtain ⟨old, hold, -⟩ := hok
    have hne : c.attemptLock ≠ some new.id := by
      intro hl
      rw [hl] at hfree
      have := List.all_eq_true.1 hfree x hx
      simp [hid] at this
    rw [perform_frame hadmitted hne hold, hold]

/-- **Step lemma**: one step keeps the invariant, and rows and grants move on. -/
theorem inv_step {D : Digests} {s t : Dispatch} {step : DispatchStep} (h : DispatchInv D s)
    (hnext : (dispatchSystem D).next s step = some t) : DispatchInv D t ∧ DbStep s t := by
  simp only [dispatchSystem] at hnext
  cases step with
  | discover callId ticket observation recovery =>
    obtain ⟨calls, hins, rfl⟩ := Option.map_eq_some_iff.1 hnext
    exact ⟨inv_discover h hins, .same rfl⟩
  | lock callId env =>
    -- `FOR UPDATE`: the step is taken only while nobody else has the row.
    obtain ⟨c, hc, hstep⟩ := Option.bind_eq_some_iff.1 hnext
    obtain rfl : c.id = callId := Table.find?_key hc
    split at hstep
    · next a ref hp =>
      split at hstep
      · next hfree =>
        cases hstep
        exact ⟨inv_lock h hc hp hfree, .same rfl⟩
      · cases hstep
    · cases hstep
  | commit callId outcome => exact inv_commitStep h hnext
  | answer callId =>
    obtain ⟨c, hc, hstep⟩ := Option.bind_eq_some_iff.1 hnext
    obtain rfl : c.id = callId := Table.find?_key hc
    split at hstep
    · next body hp =>
      -- The answer comes back, and the permit with it.
      obtain ⟨permits, hins, hmint⟩ := Option.bind_eq_some_iff.1 hstep
      cases hmint
      exact ⟨inv_answer h hc hp hins, .same rfl⟩
    · cases hstep
  | abandon callId =>
    -- The answer is lost, and the permit never there.
    obtain ⟨c, hc, hstep⟩ := Option.bind_eq_some_iff.1 hnext
    obtain rfl : c.id = callId := Table.find?_key hc
    split at hstep
    · cases hstep
    · cases hstep
      exact ⟨inv_finish h hc, .same rfl⟩
  | consume permit =>
    simp only [dispatchNext] at hnext
    split at hnext
    · next p hfound =>
      cases hnext
      exact ⟨inv_consume h hfound, .same rfl⟩
    · cases hnext
      exact ⟨h, .same rfl⟩
  | call c => exact inv_callStep h hnext
  | reconfigure db' =>
    simp only [dispatchNext] at hnext
    split at hnext
    · next hguard =>
      cases hnext
      have hlater := reconfigures_later hguard.1
      refine ⟨inv_db h hlater (fun c hc id hid => hguard.2 c hc id hid)
        (ticketsUnique_reconfigures h.tickets hguard.1), hlater, fun _ _ hg => ?_⟩
      rw [hguard.1.grants]
      exact hg
    · cases hnext

theorem inv_init {D : Digests} {s : Dispatch} (h : (dispatchSystem D).init s) :
    DispatchInv D s := by
  obtain ⟨hreach, hcalls, hpermits, hadm, hret, hcons⟩ := h
  refine ⟨reachable_ticketsUnique hreach, ?_, ?_, ?_, ?_, ?_, ?_, ?_⟩
  · intro c hc
    rw [hcalls] at hc
    cases hc
  · intro c hc
    rw [hcalls] at hc
    cases hc
  · simp [hadm]
  · intro id
    rw [hcalls, hret]
    simp [Table.total, Table.empty]
  · simp [hret]
  · intro p hp
    rw [hpermits] at hp
    cases hp
  · simp [hcons]

theorem inv_run {D : Digests} {s t : Dispatch} {steps : List DispatchStep}
    (h : DispatchInv D s) (hrun : (dispatchSystem D).run s steps = some t) : DispatchInv D t :=
  (dispatchSystem D).run_invariant (fun _ _ _ hs ht => (inv_step hs ht).1) h hrun

/-- Rows and grants move on along a run. -/
theorem dbStep_run {D : Digests} {s t : Dispatch} {steps : List DispatchStep}
    (h : DispatchInv D s) (hrun : (dispatchSystem D).run s steps = some t) : DbStep s t :=
  (dispatchSystem D).run_relation (I := DispatchInv D) (R := DbStep)
    (fun _ => .same rfl)
    (fun _ _ _ h₁ h₂ => ⟨h₁.rows.trans h₂.rows, fun id g hg => h₂.grants id g (h₁.grants id g hg)⟩)
    (fun _ _ _ hs ht => (inv_step hs ht).1) (fun _ _ _ hs ht => (inv_step hs ht).2) h hrun

/-- **A ticket buys at most one dispatch.** In every interleaving:

    * at most one `admit` call returns 'allowed' for a ticket;
    * `consumeDispatchPermit` returns the body of a permit at most once;
    * at most one grant hash is ever stored for an attempt: what is stored in one
      state is what is stored in every later one;
    * an attempt that has left 'prepared' is never admitted again: it is admitted
      later only if it already was, by the same admission. -/
theorem ticket_dispatch_once (D : Digests) (s t : Dispatch) (steps : List DispatchStep)
    (hinit : (dispatchSystem D).init s) (hrun : (dispatchSystem D).run s steps = some t) :
    (∀ ticket, t.returned.countP (·.ticket = ticket) ≤ 1) ∧
    (∀ permit, t.consumed.count permit ≤ 1) ∧
    (∀ u, (dispatchSystem D).Visits s steps u → ∀ id g g', u.db.grants.find? id = some g →
      t.db.grants.find? id = some g' → g' = g) ∧
    (∀ u, (dispatchSystem D).Visits s steps u → ∀ id a b, u.db.attempts.find? id = some a →
      a.state ≠ .prepared → t.db.attempts.find? id = some b → b.state = .admitted →
      a.state = .admitted ∧ b.admittedAt = a.admittedAt) ∧
    ∀ id, t.admissions.count id ≤ 1 := by
  have hinv := inv_run (inv_init hinit) hrun
  -- What is true of a step is true from any state of the run to its end.
  have hvisited : ∀ u, (dispatchSystem D).Visits s steps u → DbStep u t := by
    rintro u ⟨pre, ⟨post, rfl⟩, hpre⟩
    rw [System.run_append, hpre, Option.bind_some] at hrun
    exact dbStep_run (inv_run (inv_init hinit) hpre) hrun
  refine ⟨fun ticket => ?_, fun permit => ?_, ?_, ?_, fun id => (hinv.admissions id).1⟩
  · -- all answers for this ticket are about one attempt
    cases hfirst : t.returned.find? (·.ticket = ticket) with
    | none =>
      have hzero : t.returned.countP (·.ticket = ticket) = 0 :=
        List.countP_eq_zero.2 fun r hr => List.find?_eq_none.1 hfirst r hr
      omega
    | some r =>
      have hr := List.mem_of_find?_eq_some hfirst
      have hrt : r.ticket = ticket := by simpa using List.find?_some hfirst
      obtain ⟨a, ha, hat⟩ := hinv.returned r hr
      have hone : t.returned.countP (·.ticket = ticket) ≤
          t.returned.countP (·.attemptId = r.attemptId) := by
        refine List.countP_mono_left fun x hx hxt => ?_
        obtain ⟨b, hb, hbt⟩ := hinv.returned x hx
        have hsame := hinv.tickets b (Table.find?_mem hb) a (Table.find?_mem ha)
          (by rw [hbt, hat, of_decide_eq_true hxt, hrt])
        have hbid := Table.find?_key hb
        have haid := Table.find?_key ha
        rw [← hbid, ← haid]
        exact decide_eq_true hsame
      have htok := hinv.tokens r.attemptId
      have hadm := (hinv.admissions r.attemptId).1
      omega
  · exact List.nodup_iff_count_le_one.1 hinv.consumed.1 permit
  · intro u hu id g g' hg hg'
    have hlater := (hvisited u hu).grants id g hg
    rw [hlater] at hg'
    exact (Option.some.inj hg').symm
  · -- States only move on, so what is admitted at the end was admitted then.
    intro u hu id a b ha hprep hb hadm
    obtain ⟨b', hb', hlater⟩ := (hvisited u hu).rows id a ha
    rw [hb] at hb'
    cases hb'
    have hrank := hlater.state
    rw [hadm] at hrank
    have hstate : a.state = .admitted := by
      generalize a.state = state at hprep hrank
      cases state <;> simp [AttemptState.rank] at hprep hrank ⊢
    refine ⟨hstate, hlater.admittedAt ?_⟩
    rw [a.admittedAt_isSome, hstate]
    rfl

/-- The sample attempt is prepared and no call is in flight. -/
def sampleDispatch : Dispatch where
  db := (perform sampleDigests (samplePrepare 0 'a' '7') sampleDatabase).1
  calls := Table.empty
  permits := Table.empty
  nextPermit := 0
  admissions := []
  returned := []
  consumed := []

/-- Two calls find the same ticket before either locks it; the first is admitted
    and its permit used, the second finds the row taken. -/
def sampleDuplicate : List DispatchStep :=
  [.discover 0 (sampleTicket 'a') sampleObservation sampleRecovery,
    .discover 1 (sampleTicket 'a') sampleObservation sampleRecovery,
    .lock 0 sampleAdmitEnv, .commit 0 .acknowledged, .lock 1 sampleAdmitEnv,
    .answer 0, .commit 1 .acknowledged, .consume 0,
    .call (.recordGatewayGrant ⟨sampleId '7', sampleId '5', sampleHash ['b'], []⟩ (sampleHash ['c'])),
    .consume 0]

theorem ticket_dispatch_once_sample :
    ∃ t, (dispatchSystem sampleDigests).run sampleDispatch sampleDuplicate = some t ∧
      t.returned.length = 1 ∧ t.returned.countP (·.ticket = sampleTicket 'a') ≤ 1 ∧
      t.consumed.count 0 ≤ 1 ∧ t.db.grants.rows.length = 1 ∧ t.admissions.count (sampleId '7') ≤ 1 := by
  have hreach : (budgetSystem sampleDigests).Reachable sampleDispatch.db := by
    refine ⟨sampleDatabase, [.call (samplePrepare 0 'a' '7')], ⟨rfl, rfl⟩, ?_⟩
    simp only [System.run_cons, System.run_nil, budgetNext_call, Option.bind_some]
    rfl
  have hany : ((dispatchSystem sampleDigests).run sampleDispatch sampleDuplicate).any
      (fun t => t.returned.length = 1 ∧ t.db.grants.rows.length = 1) = true := by
    decide +kernel
  obtain ⟨t, hrun, hlen⟩ := (Option.any_eq_true _ _).1 hany
  obtain ⟨hreturned, hgrants⟩ := of_decide_eq_true hlen
  obtain ⟨hticket, hpermit, -, -, hadm⟩ := ticket_dispatch_once sampleDigests sampleDispatch t
    sampleDuplicate ⟨hreach, rfl, rfl, rfl, rfl, rfl⟩ hrun
  exact ⟨t, hrun, hreturned, hticket _, hpermit 0, hgrants, hadm _⟩

end Lares.Budget
