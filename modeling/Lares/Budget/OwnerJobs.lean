import Lares.Budget.Runs

/-! # Owner jobs over time

    The attempts of owner jobs while the clock of the database goes on. A call
    takes effect when it commits. Under the locks of its two accounts it has read
    the clock before that, and after the last commit under either of them.

    * **Bound**: the attempts that count at the last commit under the lock of a
      member account are at most `OWNER_JOB_OUTSTANDING_MAX`. Time only lets
      prepared ones expire, and one admitted later counted then already.
    * **Jobs**: the invocation hash of a job that has its attempt is taken.
-/

namespace Lares.Budget

/-! ## Section 1: The clock and the locks -/

/-- A job that has its attempt. -/
structure OwnerJob where
  memberAccountId : Id
  agent : Text
  incarnation : Id
  jobId : Text
  deriving DecidableEq

structure OwnerJobState where
  db : Database
  /-- `clock_timestamp()` -/
  now : Timestamp
  /-- When the lock of an account was last given back by a call that changed something. -/
  freeSince : Id → Timestamp
  /-- The jobs of the calls that went through so far. -/
  jobs : List OwnerJob

/-- A step; a call comes with everything it reads outside the tables. -/
inductive OwnerJobStep where
  /-- The clock goes on. -/
  | elapse (later : Timestamp)
  /-- A job is prepared, counted from a moment. -/
  | prepareOwnerJobIntent (env : PrepareEnv) (fresh : FreshIntent) (input : OwnerJobInput)
      (countedAt : Timestamp)
  /-- The gateway presents a ticket. -/
  | admitCall (env : AdmitEnv) (ticket : Text) (observation : BudgetGatewayObservation)
      (recovery : BudgetRecoveryReference)
  /-- A call has left, and nobody knows what of it. -/
  | markUnknown (attemptId : Id)
  /-- Its receipt has come. -/
  | settle (receipt : BudgetTerminalReceipt)

/-- The account rows that a call holds FOR UPDATE when it commits. -/
def heldAccounts (D : Digests) (db : Database) : OwnerJobStep → List Id
  | .prepareOwnerJobIntent _ _ input _ =>
      match discoverBinding db input.ownerId input.agent input.incarnation input.purposeAlias with
      | some b => [b.installationAccountId, b.memberAccountId]
      | none => []
  | .admitCall env ticket _ _ =>
      match env.authority, discoverAttempt D db ticket with
      | some _, some discovered =>
          [discovered.1.installationAccountId, discovered.1.memberAccountId]
      | _, _ => []
  | .settle receipt =>
      match db.attempts.find? receipt.attemptId with
      | some found => [found.installationAccountId, found.memberAccountId]
      | none => []
  | .elapse _ | .markUnknown _ => []

/-- The clock can have shown this while the locks were held. -/
def OwnerJobState.readable (s : OwnerJobState) (held : List Id) (reading : Timestamp) : Bool :=
  held.all (fun id => s.freeSince id ≤ reading) && reading ≤ s.now

/-- COMMIT: the locks are free from now on. -/
def OwnerJobState.commit (s : OwnerJobState) (held : List Id) (db : Database) : OwnerJobState :=
  { s with
    db := db
    freeSince := fun id => if held.any (fun h => h = id) then s.now else s.freeSince id }

/-- The job of a call of `prepareOwnerJobIntent`, with the member account of its binding. -/
def ownerJobOf (db : Database) (input : OwnerJobInput) : Option OwnerJob :=
  (discoverBinding db input.ownerId input.agent input.incarnation input.purposeAlias).map
    fun b => ⟨b.memberAccountId, input.agent, input.incarnation, input.jobId⟩

/-- A call that throws is rolled back. Clock readings that decide nothing about
    the attempts that count are not tied to the clock. -/
def ownerJobNext (D : Digests) (s : OwnerJobState) (step : OwnerJobStep) : Option OwnerJobState :=
  let held := heldAccounts D s.db step
  match step with
  | .elapse later => if s.now ≤ later then some { s with now := later } else none
  | .prepareOwnerJobIntent env fresh input countedAt =>
      if !s.readable held countedAt then none
      else match prepareOwnerJobIntent D env fresh input countedAt s.db with
      | .error _ => some s
      | .ok db' => some { s.commit held db' with jobs := s.jobs ++ (ownerJobOf s.db input).toList }
  | .admitCall env ticket observation recovery =>
      if !s.readable held env.admitAt then none
      else match admitAttempt D env ticket observation recovery s.db with
      | .error _ => some s
      | .ok result => some (s.commit held result.1)
  | .markUnknown attemptId =>
      match markUnknown attemptId s.db with
      | .error _ => some s
      | .ok db' => some (s.commit held db')
  | .settle receipt =>
      match settle receipt s.db with
      | .error _ => some s
      | .ok result => some (s.commit held result.1)

/-- From a database without owner jobs. -/
def ownerJobSystem (D : Digests) : System OwnerJobState OwnerJobStep where
  init s := s.jobs = [] ∧ (∀ id, s.freeSince id ≤ s.now) ∧
    ∀ a ∈ s.db.attempts, ¬ a.authorityReference.any (·.kind = .ownerJob) = true
  next := ownerJobNext D

/-! ## Section 2: Counting -/

/-- Whether an attempt counts for a member account and an agent at this time. -/
def countsFor (db : Database) (memberId : Id) (agent : Text) (incarnation : Id) (now : Timestamp)
    (a : AttemptRow) : Bool :=
  a.memberAccountId = memberId
    && (db.bindings.find? a.bindingId).any (fun x =>
      x.agent = some agent && x.incarnation = some incarnation)
    && a.authorityReference.any (·.kind = .ownerJob)
    && (a.state ∈ [.admitted, .unknown] || (a.state = .prepared && now < a.expiresAt))

theorem ownerJobsOutstanding_eq (db : Database) (memberId : Id) (agent : Text) (incarnation : Id)
    (now : Timestamp) : ownerJobsOutstanding db memberId agent incarnation now =
      db.attempts.rows.countP (countsFor db memberId agent incarnation now) := rfl

section Counting

variable {db : Database} {memberId : Id} {agent : Text} {incarnation : Id}

/-- With time, prepared attempts expire. -/
theorem ownerJobsOutstanding_antitone {now later : Timestamp} (h : now ≤ later) :
    ownerJobsOutstanding db memberId agent incarnation later ≤
      ownerJobsOutstanding db memberId agent incarnation now := by
  rw [ownerJobsOutstanding_eq, ownerJobsOutstanding_eq]
  refine List.countP_mono_left fun a _ hcounts => ?_
  simp only [countsFor, Bool.and_eq_true, Bool.or_eq_true, decide_eq_true_eq] at hcounts ⊢
  obtain ⟨hkey, hstate⟩ := hcounts
  refine ⟨hkey, hstate.imp_right fun hprepared => ⟨hprepared.1, ?_⟩⟩
  exact Nat.lt_of_le_of_lt h hprepared.2

/-- A row that counts only where the one it replaces did lets no count rise. -/
theorem ownerJobsOutstanding_updates {db' : Database} {old new : AttemptRow} {now : Timestamp}
    (h : Updates db db' old new)
    (hcounts : countsFor db memberId agent incarnation now new = true →
      countsFor db memberId agent incarnation now old = true) :
    ownerJobsOutstanding db' memberId agent incarnation now ≤
      ownerJobsOutstanding db memberId agent incarnation now := by
  rw [h.result, ownerJobsOutstanding_eq, ownerJobsOutstanding_eq]
  have hrows : (db.attempts.put new).rows =
      db.attempts.rows.map fun x => if x.id = new.id then new else x := rfl
  have hkey : old.id = new.id := (Table.find?_eq_some.1 h.found).2
  rw [hrows, List.countP_map]
  refine List.countP_mono_left fun a ha hnew => ?_
  by_cases hid : a.id = new.id
  · have hold : a = old := Table.eq_of_key_eq (Table.mem_def.2 ha) (Table.find?_mem h.found)
      (hid.trans hkey.symm)
    rw [Function.comp_apply, if_pos hid] at hnew
    rw [hold]
    exact hcounts hnew
  · rw [Function.comp_apply, if_neg hid] at hnew
    exact hnew

/-- What an update keeps of the columns that a count reads. -/
theorem countsFor_of_updates {db' : Database} {old new : AttemptRow} {now : Timestamp}
    (h : Updates db db' old new) (href : new.authorityReference = old.authorityReference)
    (hstate : (new.state ∈ [.admitted, .unknown] || (new.state = .prepared && now < new.expiresAt)) =
        true →
      (old.state ∈ [.admitted, .unknown] || (old.state = .prepared && now < old.expiresAt)) = true)
    (hnew : countsFor db memberId agent incarnation now new = true) :
    countsFor db memberId agent incarnation now old = true := by
  obtain ⟨hkept, -⟩ := budgetImmutable_none h.allowed
  obtain ⟨-, -, -, hmember, hbinding, -⟩ := immutableColumnsKept_fields hkept
  simp only [countsFor, Bool.and_eq_true] at hnew ⊢
  rw [hmember, hbinding, href] at hnew
  exact ⟨hnew.1, hstate hnew.2⟩

end Counting

/-! ## Section 3: What the calls read -/

/-- An attempt is admitted before it expires. -/
theorem admitLocked_reading {D : Digests} {env : AdmitEnv} {validUntil : Option Timestamp}
    {db db' : Database} {l : Locked} {ref : AuthorityReference} {a : Attempt}
    {observation : BudgetGatewayObservation} {recovery : BudgetRecoveryReference}
    {body : PermitBody}
    (h : admitLocked D env validUntil db l ref a observation recovery =
      .ok (db', .admitted body)) : env.admitAt < a.expiresAt := by
  have hdeny : ∀ {ans : AdmitResult}, (∀ body, ans ≠ .admitted body) →
      (do return (← retireAttempt db a, ans) : Except StoreError _) ≠
        .ok (db', .admitted body) := by
    intro ans hans h
    obtain ⟨db₁, -, h⟩ := Except.bind_ok h
    cases h
    exact hans _ rfl
  have hlimit : ∀ (mCap : BudgetMoney) (limited : Bool) (body : PermitBody),
      limitOf D db l mCap limited ≠ .admitted body := by
    intro mCap limited body hlim
    unfold limitOf at hlim
    simp only at hlim
    split at hlim <;> cases hlim
  unfold admitLocked at h
  simp only at h
  split at h
  · split at h
    · exact absurd h (hdeny (by simp))
    · split at h
      · split at h
        · exact absurd h (hdeny (hlimit _ _))
        · split at h
          · cases h
          · split at h
            · next hfresh =>
              simp only [Bool.and_eq_true, decide_eq_true_eq] at hfresh
              exact hfresh.1.1.1
            · split at h
              · cases h
              · exact absurd h (hdeny (by simp))
      · exact absurd h (hdeny (by simp))
  · exact absurd h (hdeny (by simp))

theorem admitDiscovered_reading {D : Digests} {env : AdmitEnv} {discovered : AttemptRow}
    {ref : AuthorityReference} {observation : BudgetGatewayObservation}
    {recovery : BudgetRecoveryReference} {db db' : Database} {body : PermitBody}
    (hfound : db.attempts.find? discovered.id = some discovered)
    (h : admitDiscovered D env discovered.toAttempt ref observation recovery db =
      .ok (db', .admitted body)) :
    env.authority.isSome ∧ env.admitAt < discovered.expiresAt := by
  unfold admitDiscovered at h
  cases hauth : env.authority with
  | none =>
    rw [hauth] at h
    simp only [hfound] at h
    split at h
    · obtain ⟨db₁, -, h⟩ := Except.bind_ok h
      cases h
    · cases h
  | some validUntil =>
    rw [hauth] at h
    obtain ⟨l, -, h⟩ := Except.bind_ok h
    simp only [hfound] at h
    split at h
    · cases h
    · exact ⟨rfl, admitLocked_reading h⟩

/-- An attempt that is admitted had not expired, and its member account is locked. -/
theorem admit_reading {D : Digests} {env : AdmitEnv} {ticket : Text}
    {observation : BudgetGatewayObservation} {recovery : BudgetRecoveryReference}
    {db db' : Database} {a : AttemptRow} {body : PermitBody}
    (h : admitAttempt D env ticket observation recovery db = .ok (db', .admitted body))
    (ha : db.attempts.find? a.id = some a) (hbody : body.attemptId = a.id) :
    env.admitAt < a.expiresAt ∧
      a.memberAccountId ∈ heldAccounts D db (.admitCall env ticket observation recovery) := by
  unfold admitAttempt at h
  split at h
  · cases h
  · split at h
    · cases h
    · next discovered ref hd =>
      have hfound := (discoverAttempt_some hd).1
      obtain ⟨hauth, hexpiry⟩ := admitDiscovered_reading hfound h
      -- the attempt that is admitted is the one that was discovered
      have hsame : ∀ a', db.attempts.find? discovered.id = some a' →
          a'.installationAccountId = discovered.installationAccountId ∧
            a'.memberAccountId = discovered.memberAccountId := by
        intro a' ha'
        rw [hfound] at ha'
        cases ha'
        exact ⟨rfl, rfl⟩
      have hid : discovered.id = a.id := by
        rcases admitDiscovered_ok hsame h with ⟨-, hno⟩ | ⟨a', ha', ⟨-, hno⟩ | ⟨-, body', hb', hid⟩⟩
        · exact absurd rfl (hno body)
        · exact absurd rfl (hno body)
        · cases hb'
          rw [hfound] at ha'
          cases ha'
          exact hid.symm.trans hbody
      rw [hid, ha] at hfound
      cases hfound
      obtain ⟨validUntil, hvalid⟩ := Option.isSome_iff_exists.1 hauth
      refine ⟨hexpiry, ?_⟩
      simp only [heldAccounts, hvalid, hd]
      exact List.mem_cons_of_mem _ (List.mem_cons_self ..)

/-- What `prepareOwnerJobIntent` checks under the locks, and the row it adds. -/
structure PreparesOwnerJob (D : Digests) (db db' : Database) (input : OwnerJobInput)
    (countedAt : Timestamp) (row : AttemptRow) : Prop where
  /-- The row is new. -/
  prepares : Prepares db db' row
  /-- The member is the one of the binding that was found. -/
  discovered : ∃ b, discoverBinding db input.ownerId input.agent input.incarnation
    input.purposeAlias = some b ∧ row.memberAccountId = b.memberAccountId
  /-- It is the binding of this agent and this incarnation. -/
  binding : ∃ b, db.bindings.find? row.bindingId = some b ∧ b.agent = some input.agent ∧
    b.incarnation = some input.incarnation
  /-- The account is the live one of the owner. -/
  member : ∃ m, db.accounts.find? row.memberAccountId = some m ∧ m.kind = .member ∧
    m.liveMemberId = some input.ownerId ∧
    row.invocationHash = some (D.ownerJob (m.canonicalSuppressionHash.getD [])
      [m.installationAccountId, m.id, input.ownerId, input.agent, input.incarnation, input.jobId])
  /-- There was room for one more. -/
  counted : ownerJobsOutstanding db row.memberAccountId input.agent input.incarnation countedAt <
    OWNER_JOB_OUTSTANDING_MAX

theorem lockedPolicy_ok {env : PrepareEnv} {db : Database} {l : Locked} {memberId : Text}
    {accepted : Binding → Bool} {p : LockedPolicy}
    (h : lockedPolicy env db l memberId accepted = .ok p) :
    p.installation = l.installation ∧ p.member = l.member ∧ l.binding = some p.binding ∧
      l.member.liveMemberId = some memberId ∧ accepted p.binding = true := by
  unfold lockedPolicy at h
  split at h
  · next b _ _ _ _ _ hb _ _ _ _ _ =>
    split at h
    · next hok =>
      cases h
      simp only [Bool.and_eq_true, decide_eq_true_eq] at hok
      exact ⟨rfl, rfl, hb, hok.1.1.1.1.1.1.2, hok.1.1.1.1.2⟩
    · cases h
  · cases h

theorem locks_eq {db : Database} {i m : Id} {b : Option Id} {l : Locked}
    (h : locks db i m b = .ok l) :
    l.member.installationAccountId = i ∧ l.binding = b.bind db.bindings.find? := by
  unfold locks at h
  simp only at h
  split at h
  · next hi hm =>
    split at h
    · cases h
    · cases h
      obtain ⟨-, hmk⟩ := Option.filter_eq_some_iff.1 hm
      simp only [decide_eq_true_eq] at hmk
      exact ⟨hmk.2, rfl⟩
  · cases h

theorem refuseIf_ok {c : Bool} {e : StoreError} {u : Unit} (h : refuseIf c e = .ok u) :
    c = false := by
  unfold refuseIf at h
  split at h
  · cases h
  · next hc => simpa using hc

theorem orThrow_ok {α : Type} {value : Option α} {e : StoreError} {v : α}
    (h : orThrow value e = .ok v) : value = some v := by
  unfold orThrow at h
  split at h
  · cases h
    rfl
  · cases h

theorem prepareOwnerJobIntent_checked {D : Digests} {env : PrepareEnv} {fresh : FreshIntent}
    {input : OwnerJobInput} {countedAt : Timestamp} {db db' : Database}
    (h : prepareOwnerJobIntent D env fresh input countedAt db = .ok db') :
    ∃ row, PreparesOwnerJob D db db' input countedAt row := by
  -- Its checks, in its order; those that no part needs are dropped.
  unfold prepareOwnerJobIntent at h
  obtain ⟨-, -, h⟩ := Except.bind_ok h
  obtain ⟨reference, -, h⟩ := Except.bind_ok h
  obtain ⟨-, -, h⟩ := Except.bind_ok h
  obtain ⟨discovered, hdiscovered, h⟩ := Except.bind_ok h
  obtain ⟨l, hl, h⟩ := Except.bind_ok h
  obtain ⟨p, hp, h⟩ := Except.bind_ok h
  obtain ⟨_, hcount, h⟩ := Except.bind_ok h
  obtain ⟨-, -, h⟩ := Except.bind_ok h
  obtain ⟨db'', hins, h⟩ := Except.bind_ok h
  obtain ⟨-, -, h⟩ := Except.bind_ok h
  cases h
  obtain ⟨hinstallation, hmember, hbinding, hlive, haccepted⟩ := lockedPolicy_ok hp
  obtain ⟨hfi, -, hfm, hkind⟩ := locks_ok hl
  obtain ⟨hparent, hlocked⟩ := locks_eq hl
  have hcounted := refuseIf_ok hcount
  simp only [decide_eq_false_iff_not, Nat.not_le] at hcounted
  obtain ⟨row, hrow, hinserted, htick, hinv⟩ := insertAttempt_ok hins
  have hrowMember : row.memberAccountId = discovered.memberAccountId := by
    rw [hrow, ← Table.find?_key hfm, ← hmember]
    rfl
  have hrowBinding : row.bindingId = p.binding.id := by
    rw [hrow]
    rfl
  have hfound : db.bindings.find? p.binding.id = some p.binding := by
    rw [hlocked, Option.bind_some] at hbinding
    rw [Table.find?_key hbinding]
    exact hbinding
  simp only [Bool.and_eq_true, decide_eq_true_eq] at haccepted
  refine ⟨row, ?_, ⟨discovered, orThrow_ok hdiscovered, hrowMember⟩, ?_, ?_, ?_⟩
  · refine ⟨hinserted, ?_, ?_, ?_, ?_, ?_, ?_⟩ <;> simp only [hrow]
    · exact htick
    · exact hinv
    all_goals rfl
  · exact ⟨p.binding, hrowBinding ▸ hfound, haccepted.1.1.1.1, haccepted.1.1.1.2⟩
  · refine ⟨l.member, hrowMember ▸ hfm, hkind, hlive, ?_⟩
    rw [hrow, hparent, ← Table.find?_key hfi, ← hmember, ← hinstallation]
    rfl
  · rw [hrowMember, ← Table.find?_key hfm, ← hmember]
    exact hcounted

/-! ## Section 4: What the other calls keep -/

/-- The attempt of a job is there, under the hash of the job's invocation. -/
def Recorded (D : Digests) (db : Database) (job : OwnerJob) : Prop :=
  ∃ m owner, db.accounts.find? job.memberAccountId = some m ∧ m.kind = .member ∧
    m.liveMemberId = some owner ∧ ∃ a ∈ db.attempts,
      a.invocationHash = some (D.ownerJob (m.canonicalSuppressionHash.getD [])
        [m.installationAccountId, m.id, owner, job.agent, job.incarnation, job.jobId])

/-- No count rises, where the attempts of each member account are counted at a
    time of its own, and no job loses its attempt. -/
structure Keeps (D : Digests) (db db' : Database) (at_ : Id → Timestamp) : Prop where
  counts : ∀ memberId agent incarnation,
    ownerJobsOutstanding db' memberId agent incarnation (at_ memberId) ≤
      ownerJobsOutstanding db memberId agent incarnation (at_ memberId)
  recorded : ∀ job, Recorded D db job → Recorded D db' job

section Keeping

variable {D : Digests} {db db' db'' : Database} {at_ : Id → Timestamp} {old new a : AttemptRow}

theorem Keeps.refl : Keeps D db db at_ := ⟨fun _ _ _ => le_refl _, fun _ h => h⟩

theorem Keeps.trans (h : Keeps D db db' at_) (h' : Keeps D db' db'' at_) : Keeps D db db'' at_ :=
  ⟨fun m g i => (h'.counts m g i).trans (h.counts m g i),
    fun job hjob => h'.recorded job (h.recorded job hjob)⟩

theorem Recorded.updates {job : OwnerJob} (h : Updates db db' old new) (hjob : Recorded D db job) :
    Recorded D db' job := by
  obtain ⟨m, owner, hm, hkind, hlive, a, ha, hhash⟩ := hjob
  rw [h.result]
  refine ⟨m, owner, hm, hkind, hlive, ?_⟩
  by_cases hid : a.id = new.id
  · -- the row was replaced, and the trigger kept its invocation hash
    have hold : a = old := Table.eq_of_key_eq ha (Table.find?_mem h.found)
      (hid.trans (Table.find?_eq_some.1 h.found).2.symm)
    have hkept := of_decide_eq_true (budgetImmutable_none h.allowed).1
    refine ⟨new, Table.mem_put.2 (.inr ⟨rfl, a, ha, hid⟩), ?_⟩
    rw [hkept, ← hold]
    exact hhash
  · exact ⟨a, Table.mem_put.2 (.inl ⟨ha, hid⟩), hhash⟩

theorem Keeps.of_updates (h : Updates db db' old new)
    (href : new.authorityReference = old.authorityReference)
    (hstate : (new.state ∈ [.admitted, .unknown] ||
        (new.state = .prepared && at_ new.memberAccountId < new.expiresAt)) = true →
      (old.state ∈ [.admitted, .unknown] ||
        (old.state = .prepared && at_ new.memberAccountId < old.expiresAt)) = true) :
    Keeps D db db' at_ := by
  refine ⟨?_, fun job hjob => hjob.updates h⟩
  intro memberId agent incarnation
  refine ownerJobsOutstanding_updates h fun hcounts => ?_
  have hmember : new.memberAccountId = memberId := by
    simp only [countsFor, Bool.and_eq_true, decide_eq_true_eq] at hcounts
    exact hcounts.1.1.1
  subst hmember
  exact countsFor_of_updates h href hstate hcounts

theorem Keeps.of_retires (h : Retires db db' a) : Keeps D db db' at_ := by
  obtain ⟨-, row, hrow, hup⟩ := h
  refine .of_updates hup (by rw [hrow]) fun hstate => ?_
  rw [hrow] at hstate
  simp at hstate

theorem Keeps.of_marksUnknown (h : MarksUnknown db db' a) : Keeps D db db' at_ := by
  obtain ⟨hadmitted, row, hrow, hup⟩ := h
  refine .of_updates hup (by rw [hrow]) fun _ => ?_
  simp [hadmitted]

theorem Keeps.of_admits (h : Admits db db' a) (hread : at_ a.memberAccountId < a.expiresAt) :
    Keeps D db db' at_ := by
  obtain ⟨row, admittedAt, hrow, hup⟩ := h.updates
  refine .of_updates hup (by rw [hrow]) fun _ => ?_
  rw [hrow]
  simp [h.wasPrepared, hread]

theorem Keeps.of_settles {receipt : BudgetTerminalReceipt} {actual : BudgetMoney}
    (h : Settles db db' receipt actual old new) : Keeps D db db' at_ := by
  refine .of_updates h.updates (by rw [h.row_eq, settledRow]) fun hstate => ?_
  rw [h.row_eq, settledRow] at hstate
  dsimp only at hstate
  split at hstate <;> simp at hstate

theorem Keeps.of_freezes {installationId : Id} (h : Freezes db db' installationId) :
    Keeps D db db' at_ := by
  rcases h with ⟨rfl, -⟩ | ⟨account, frozen, hfound, -, hfrozen, rfl⟩
  · exact .refl
  · refine ⟨fun _ _ _ => le_refl _, ?_⟩
    rintro job ⟨m, owner, hm, hkind, hlive, hrow⟩
    by_cases hid : job.memberAccountId = frozen.id
    · have hself : db.accounts.find? frozen.id = some m := hid ▸ hm
      have hkey : frozen.id = account.id := by rw [hfrozen]
      have hsame : m = account := by
        rw [hkey, Table.find?_key hfound, hfound] at hself
        exact (Option.some.inj hself).symm
      refine ⟨frozen, owner, hid ▸ Table.find?_put_self hself, ?_, ?_, ?_⟩
      · rw [hfrozen, ← hsame]
        exact hkind
      · rw [hfrozen, ← hsame]
        exact hlive
      · rw [hfrozen, ← hsame]
        exact hrow
    · exact ⟨m, owner, (Table.find?_put_ne hid).trans hm, hkind, hlive, hrow⟩

theorem markUnknown_keeps {attemptId : Id} (h : markUnknown attemptId db = .ok db') :
    Keeps D db db' at_ := by
  rcases markUnknown_ok h with rfl | ⟨a, -, hmarks⟩
  · exact .refl
  · exact .of_marksUnknown hmarks

theorem settle_keeps {receipt : BudgetTerminalReceipt} {verdict : SettleVerdict}
    (h : settle receipt db = .ok (db', verdict)) : Keeps D db db' at_ := by
  rcases settle_ok h with ⟨-, rfl⟩ | ⟨actual, a, -, -, -, ⟨-, -, rfl⟩ | ⟨row, db₁, hs, hcase⟩⟩
  · exact .refl
  · exact .refl
  · rcases hcase with ⟨-, -, rfl⟩ | ⟨-, -, hfreezes⟩
    · exact .of_settles hs
    · exact (Keeps.of_settles hs).trans (.of_freezes hfreezes)

/-- `admit`, with the attempts of the accounts it locks counted when it admits. -/
theorem admit_keeps {env : AdmitEnv} {ticket : Text} {observation : BudgetGatewayObservation}
    {recovery : BudgetRecoveryReference} {answer : AdmitResult}
    (hat : ∀ id ∈ heldAccounts D db (.admitCall env ticket observation recovery),
      at_ id = env.admitAt)
    (h : admitAttempt D env ticket observation recovery db = .ok (db', answer)) :
    Keeps D db db' at_ := by
  rcases admit_ok h with ⟨rfl, -⟩ | ⟨a, ⟨hretires, -⟩ | ⟨hadmits, body, rfl, hbody⟩⟩
  · exact .refl
  · exact .of_retires hretires
  · obtain ⟨row, admittedAt, hrow, hup⟩ := hadmits.updates
    have hfound : db.attempts.find? a.id = some a := by
      have hrowId : row.id = a.id := by rw [hrow]
      rw [← hrowId]
      exact hup.found
    obtain ⟨hexpiry, hheld⟩ := admit_reading h hfound hbody
    exact .of_admits hadmits (by rw [hat _ hheld]; exact hexpiry)

end Keeping

/-! ## Section 5: The bound -/

/-- What holds in every state of a run. -/
structure OwnerJobInvariant (D : Digests) (s : OwnerJobState) : Prop where
  /-- No account counts from a moment that has not come. -/
  clock : ∀ id, s.freeSince id ≤ s.now
  /-- What is outstanding stays below the limit. -/
  bound : ∀ memberId agent incarnation,
    ownerJobsOutstanding s.db memberId agent incarnation (s.freeSince memberId) ≤
      OWNER_JOB_OUTSTANDING_MAX
  /-- A job has its attempt in the table. -/
  recorded : ∀ job ∈ s.jobs, Recorded D s.db job
  /-- A job is recorded once. -/
  nodup : s.jobs.Nodup

section Invariant

variable {D : Digests} {s : OwnerJobState}

theorem OwnerJobState.freeSince_commit (held : List Id) (db : Database) (id : Id) :
    (s.commit held db).freeSince id = if id ∈ held then s.now else s.freeSince id := by
  by_cases hid : id ∈ held
  · have hany : held.any (fun h => h = id) = true := List.any_eq_true.2 ⟨id, hid, by simp⟩
    rw [if_pos hid]
    exact if_pos hany
  · have hany : ¬ held.any (fun h => h = id) = true := by
      simp only [List.any_eq_true, decide_eq_true_eq, not_exists, not_and]
      intro h hh heq
      exact hid (heq ▸ hh)
    rw [if_neg hid]
    exact if_neg hany

theorem OwnerJobInvariant.commit_le (h : OwnerJobInvariant D s) (held : List Id) (db : Database)
    (id : Id) : s.freeSince id ≤ (s.commit held db).freeSince id ∧
      (s.commit held db).freeSince id ≤ s.now := by
  rw [OwnerJobState.freeSince_commit]
  split
  · exact ⟨h.clock id, le_refl _⟩
  · exact ⟨le_refl _, h.clock id⟩

/-- A call that keeps the counts at a time between two commits keeps the invariant. -/
theorem OwnerJobInvariant.keeps (h : OwnerJobInvariant D s) {held : List Id} {db' : Database}
    {at_ : Id → Timestamp} (hkeeps : Keeps D s.db db' at_) (hfrom : ∀ id, s.freeSince id ≤ at_ id)
    (hto : ∀ id, at_ id ≤ (s.commit held db').freeSince id) :
    OwnerJobInvariant D (s.commit held db') where
  clock id := (h.commit_le held db' id).2
  bound memberId agent incarnation :=
    calc ownerJobsOutstanding db' memberId agent incarnation
          ((s.commit held db').freeSince memberId)
      _ ≤ ownerJobsOutstanding db' memberId agent incarnation (at_ memberId) :=
        ownerJobsOutstanding_antitone (hto memberId)
      _ ≤ ownerJobsOutstanding s.db memberId agent incarnation (at_ memberId) :=
        hkeeps.counts memberId agent incarnation
      _ ≤ ownerJobsOutstanding s.db memberId agent incarnation (s.freeSince memberId) :=
        ownerJobsOutstanding_antitone (hfrom memberId)
      _ ≤ OWNER_JOB_OUTSTANDING_MAX := h.bound memberId agent incarnation
  recorded job hjob := hkeeps.recorded job (h.recorded job hjob)
  nodup := h.nodup

theorem OwnerJobState.readable_iff {held : List Id} {reading : Timestamp} :
    s.readable held reading = true ↔ (∀ id ∈ held, s.freeSince id ≤ reading) ∧ reading ≤ s.now := by
  simp [OwnerJobState.readable]

/-- An intent of an owner job: fewer than the most counted, and its job is new. -/
theorem OwnerJobInvariant.prepares (h : OwnerJobInvariant D s) {env : PrepareEnv}
    {fresh : FreshIntent} {input : OwnerJobInput} {countedAt : Timestamp} {db' : Database}
    {held : List Id}
    (hheld : held = heldAccounts D s.db (.prepareOwnerJobIntent env fresh input countedAt))
    (hread : s.readable held countedAt = true)
    (hok : prepareOwnerJobIntent D env fresh input countedAt s.db = .ok db') :
    OwnerJobInvariant D
      { s.commit held db' with jobs := s.jobs ++ (ownerJobOf s.db input).toList } := by
  obtain ⟨row, hprepares, ⟨b, hb, hmemberId⟩, ⟨x, hx, hagent, hincarnation⟩, hmember, hcounted⟩ :=
    prepareOwnerJobIntent_checked hok
  obtain ⟨attempts, hinsert, rfl⟩ := hprepares.inserted
  have hlocked : row.memberAccountId ∈ held := by
    rw [hheld, heldAccounts, hb, hmemberId]
    simp
  have hrows := (Table.insert?_eq_some.1 hinsert).2
  obtain ⟨m, hm, hkind, hlive, hhash⟩ := hmember
  have hjob : ownerJobOf s.db input =
      some ⟨row.memberAccountId, input.agent, input.incarnation, input.jobId⟩ := by
    rw [ownerJobOf, hb, hmemberId]
    rfl
  have hnew : Recorded D { s.db with attempts := attempts }
      ⟨row.memberAccountId, input.agent, input.incarnation, input.jobId⟩ :=
    ⟨m, input.ownerId, hm, hkind, hlive, row, (Table.mem_insert? hinsert).2 (.inr rfl), hhash⟩
  refine ⟨fun id => (h.commit_le held { s.db with attempts := attempts } id).2, ?_, ?_, ?_⟩
  · intro memberId agent incarnation
    show ownerJobsOutstanding { s.db with attempts := attempts } memberId agent incarnation
      ((s.commit held { s.db with attempts := attempts }).freeSince memberId) ≤ _
    rw [ownerJobsOutstanding_eq, hrows, List.countP_append, List.countP_singleton]
    have hlast : s.db.attempts.rows.countP (countsFor { s.db with attempts := attempts } memberId
        agent incarnation ((s.commit held { s.db with attempts := attempts }).freeSince memberId)) =
        ownerJobsOutstanding s.db memberId agent incarnation
          ((s.commit held { s.db with attempts := attempts }).freeSince memberId) := rfl
    rw [hlast]
    split
    next hcounts =>
      -- the new row counts for its own member account and agent only, and those are locked
      simp only [countsFor, Bool.and_eq_true, decide_eq_true_eq] at hcounts
      obtain ⟨⟨⟨rfl, hbinding⟩, -⟩, -⟩ := hcounts
      rw [hx] at hbinding
      simp only [Option.any_some, Bool.and_eq_true, decide_eq_true_eq, hagent, hincarnation,
        Option.some.injEq] at hbinding
      obtain ⟨rfl, rfl⟩ := hbinding
      rw [OwnerJobState.freeSince_commit, if_pos hlocked]
      have hdrop : ownerJobsOutstanding s.db row.memberAccountId input.agent input.incarnation
          s.now ≤ ownerJobsOutstanding s.db row.memberAccountId input.agent input.incarnation
            countedAt :=
        ownerJobsOutstanding_antitone (OwnerJobState.readable_iff.1 hread).2
      omega
    next =>
      exact (ownerJobsOutstanding_antitone
        (h.commit_le held { s.db with attempts := attempts } memberId).1).trans
        (h.bound memberId agent incarnation)
  · intro job hmem
    rcases List.mem_append.1 hmem with hold | hlast
    · obtain ⟨m', owner, hm', hkind', hlive', a, ha, hhash'⟩ := h.recorded job hold
      exact ⟨m', owner, hm', hkind', hlive', a, (Table.mem_insert? hinsert).2 (.inl ha), hhash'⟩
    · rw [hjob, Option.toList_some, List.mem_singleton] at hlast
      rw [hlast]
      exact hnew
  · rw [hjob, Option.toList_some, ← List.concat_eq_append]
    refine h.nodup.concat fun hused => ?_
    -- the attempt of a used job has the invocation hash that the new row has
    obtain ⟨m', owner, hm', -, hlive', a, ha, hhash'⟩ := h.recorded _ hused
    rw [hm] at hm'
    cases hm'
    rw [hlive] at hlive'
    cases hlive'
    exact hprepares.invocationNew a ha (hhash'.trans hhash.symm)

/-- **Step lemma** -/
theorem OwnerJobInvariant.next (h : OwnerJobInvariant D s) {step : OwnerJobStep}
    {s' : OwnerJobState} (hnext : ownerJobNext D s step = some s') : OwnerJobInvariant D s' := by
  cases step with
  | elapse later =>
    simp only [ownerJobNext] at hnext
    split at hnext
    next hlater =>
      cases hnext
      exact ⟨fun id => (h.clock id).trans hlater, h.bound, h.recorded, h.nodup⟩
    next => cases hnext
  | prepareOwnerJobIntent env fresh input countedAt =>
    simp only [ownerJobNext] at hnext
    split at hnext
    next => cases hnext
    next hread =>
      split at hnext
      next =>
        cases hnext
        exact h
      next db' hok =>
        cases hnext
        exact h.prepares rfl (by simpa using hread) hok
  | admitCall env ticket observation recovery =>
    simp only [ownerJobNext] at hnext
    split at hnext
    next => cases hnext
    next hread =>
      split at hnext
      next =>
        cases hnext
        exact h
      next result hok =>
        cases hnext
        have hread' := OwnerJobState.readable_iff.1 (by simpa using hread)
        -- counted when the attempt is admitted, after the last commit and before this one
        have hkeeps : Keeps D s.db result.1 (fun id =>
            if id ∈ heldAccounts D s.db (.admitCall env ticket observation recovery) then env.admitAt
            else s.freeSince id) := admit_keeps (fun id hid => if_pos hid) hok
        refine h.keeps hkeeps ?_ ?_
        · intro id
          split
          · next hid => exact hread'.1 id hid
          · exact le_refl _
        · intro id
          rw [OwnerJobState.freeSince_commit]
          split
          · exact hread'.2
          · exact le_refl _
  | markUnknown attemptId =>
    simp only [ownerJobNext] at hnext
    split at hnext
    next =>
      cases hnext
      exact h
    next db' hok =>
      cases hnext
      exact h.keeps (markUnknown_keeps hok) (fun id => le_refl _) fun id => (h.commit_le _ db' id).1
  | settle receipt =>
    simp only [ownerJobNext] at hnext
    split at hnext
    next =>
      cases hnext
      exact h
    next result hok =>
      cases hnext
      exact h.keeps (settle_keeps hok) (fun id => le_refl _) fun id => (h.commit_le _ _ id).1

theorem ownerJobInvariant_init (h : (ownerJobSystem D).init s) : OwnerJobInvariant D s := by
  obtain ⟨hjobs, hclock, hnone⟩ := h
  refine ⟨hclock, ?_, by simp [hjobs], by simp [hjobs]⟩
  intro memberId agent incarnation
  rw [ownerJobsOutstanding_eq, List.countP_eq_zero.2]
  · exact Nat.zero_le _
  · intro a ha hcounts
    simp only [countsFor, Bool.and_eq_true] at hcounts
    exact hnone a ha hcounts.1.2

end Invariant

/-- In every state of every run the owner jobs that are admitted, unknown, or
    prepared and not expired are at most `OWNER_JOB_OUTSTANDING_MAX` for a member
    account, an agent and an incarnation, and no job has had two attempts. -/
theorem ownerJobs_bounded (D : Digests) {s : OwnerJobState} (h : (ownerJobSystem D).Reachable s) :
    (∀ memberId agent incarnation,
      ownerJobsOutstanding s.db memberId agent incarnation s.now ≤ OWNER_JOB_OUTSTANDING_MAX) ∧
    s.jobs.Nodup := by
  have hinv : OwnerJobInvariant D s := (ownerJobSystem D).reachable_invariant
    (fun _ hinit => ownerJobInvariant_init hinit) (fun _ _ _ hs hnext => hs.next hnext) h
  refine ⟨fun memberId agent incarnation => ?_, hinv.nodup⟩
  exact (ownerJobsOutstanding_antitone (hinv.clock memberId)).trans
    (hinv.bound memberId agent incarnation)

/-! ### A job of the small deployment -/

def sampleJobReference : AuthorityReference := { sampleReference with kind := .ownerJob }

def sampleJobInput : OwnerJobInput where
  agent := "agent".toList
  incarnation := sampleId '6'
  ownerId := "member".toList
  purposeAlias := "chat".toList
  jobId := List.replicate 32 'j'
  request := ⟨"POST", "/v1/messages", sampleHash ['b']⟩

def sampleJobState : OwnerJobState where
  db := sampleDatabase
  now := 1000
  freeSince _ := 0
  jobs := []

/-- The job is prepared, asked for again, and admitted. -/
def sampleJobRun : List OwnerJobStep :=
  let prepare (fresh : Char) : OwnerJobStep :=
    .prepareOwnerJobIntent { samplePrepareEnv with reference := .ok sampleJobReference }
      ⟨sampleTicket fresh, sampleId fresh⟩ sampleJobInput 1000
  [prepare 'a', prepare 'b', .elapse 2000,
    .admitCall sampleAdmitEnv (sampleTicket 'a') sampleObservation sampleRecovery]

theorem ownerJobs_bounded_sample :
    ∃ s, (ownerJobSystem sampleDigests).run sampleJobState sampleJobRun = some s ∧
      ownerJobsOutstanding s.db (sampleId '2') "agent".toList (sampleId '6') s.now = 1 ∧
      ownerJobsOutstanding s.db (sampleId '2') "agent".toList (sampleId '6') s.now ≤
        OWNER_JOB_OUTSTANDING_MAX := by
  have hrun : ((ownerJobSystem sampleDigests).run sampleJobState sampleJobRun).any (fun s =>
      ownerJobsOutstanding s.db (sampleId '2') "agent".toList (sampleId '6') s.now = 1) = true := by
    decide +kernel
  obtain ⟨s, hs, hone⟩ := (Option.any_eq_true _ _).1 hrun
  have hreach : (ownerJobSystem sampleDigests).Reachable s :=
    ⟨sampleJobState, _, ⟨rfl, fun _ => Nat.zero_le _, by simp [sampleJobState, sampleDatabase,
      Table.mem_def, Table.empty]⟩, hs⟩
  exact ⟨s, hs, of_decide_eq_true hone, (ownerJobs_bounded sampleDigests hreach).1 ..⟩

end Lares.Budget
