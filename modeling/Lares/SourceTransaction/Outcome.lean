import Lares.SourceTransaction.ConsoleSource

/-! # Reported outcomes are truthful

    What `settled` hears of a financial transaction, for every connection, every
    pattern of failures and every set of retired bindings.

    * `Truthful`: what each outcome says of the connection. It holds whenever the
      variable is read, and every statement that may be sent keeps it.
    * One lemma for each part of the transaction carries the connection from one
      situation to the next (`Idle`, `Owned`, `Closed`).
    * `settled_truthful`: the report, and what can still happen after it.
-/

namespace Lares.SourceTransaction

open Program

variable (env : Environment)

/-! ## Section 1: Programs that only use the connection -/

/-- The connection is in a situation; the outcome and the custody are these. -/
def OnWire (W : Wire → Prop) (p : Progress) (c : Custody) (run : Run) : Prop :=
  W run.wire ∧ run.progress = p ∧ run.custody = c

/-- A situation that statements of a kind do not change. -/
def KeptBy (W : Wire → Prop) (statement : Statement) : Prop :=
  ∀ w behaviour, W w → W (w.send statement behaviour).1

variable {W : Wire → Prop} {p : Progress} {c : Custody} {allowed : Statement → Prop}

theorem strikes_keeps : Keeps (OnWire W p c) (strikes env) := fun _ h => h

theorem mayFail_keeps {failure : Failure} : Keeps (OnWire W p c) (mayFail env failure) :=
  (strikes_keeps env).bind fun _ => Keeps.onlyIf Keeps.throw

theorem setTxOpen_keeps {value : Bool} : Keeps (OnWire W p c) (setTxOpen value) :=
  Keeps.modify fun _ h => h

theorem setBroken_keeps : Keeps (OnWire W p c) setBroken := Keeps.modify fun _ h => h

theorem modifyOwner_keeps {f : Owner → Owner} : Keeps (OnWire W p c) (modifyOwner f) :=
  Keeps.modify fun _ h => h

/-- The three ends of a statement. -/
theorem send_triple {V : Wire → Prop} {statement : Statement} {Q : Command → Bool → Wire → Prop}
    (hanswer : ∀ w w' behaviour command rows, V w →
      w.send statement behaviour = (w', .answer command rows) → Q command rows w')
    (hother : ∀ w behaviour, V w → W (w.send statement behaviour).1) :
    Triple (OnWire V p c) (send env statement) (fun r => OnWire (Q r.1 r.2) p c)
      (fun _ => OnWire W p c) := by
  rintro run ⟨hW, hp, hc⟩
  unfold send
  have hall := hother run.wire (env.meets run.tick) hW
  cases hsend : run.wire.send statement (env.meets run.tick) with
  | mk wire heard =>
    rw [hsend] at hall
    cases heard with
    | answer command rows => exact ⟨hanswer _ _ _ _ _ hW hsend, hp, hc⟩
    | error => exact ⟨hall, hp, hc⟩
    | nothing timeout => exact ⟨hall, hp, hc⟩

theorem send_keeps {statement : Statement} (h : KeptBy W statement) :
    Keeps (OnWire W p c) (send env statement) :=
  send_triple env (Q := fun _ _ => W) (fun w _ behaviour _ _ hW hsend => by
    have := h w behaviour hW
    rwa [hsend] at this) h

/-- A statement whose answer is not read. -/
theorem discard_keeps {I : Run → Prop} {β : Type} {x : Action β} (h : Keeps I x) :
    Keeps I (discard x) := h.bind fun _ => Keeps.pure

theorem boundedSteps_keeps {statement : Statement} (h : KeptBy W statement) (hq : KeptBy W .query) :
    Keeps (OnWire W p c) (boundedSteps env statement) := by
  have hquery := discard_keeps (send_keeps (p := p) (c := c) env hq)
  refine Keeps.get.bind fun run => ?_
  refine (Keeps.onlyIf ((mayFail_keeps env).bind fun _ => hquery)).bind fun _ => ?_
  refine (mayFail_keeps env).bind fun _ => (send_keeps env h).bind fun result => ?_
  refine (Keeps.onlyIf (setTxOpen_keeps.bind fun _ => (mayFail_keeps env).bind fun _ =>
    hquery.bind fun _ => (mayFail_keeps env).bind fun _ => hquery)).bind fun _ => ?_
  refine (Keeps.onlyIf setTxOpen_keeps).bind fun _ => ?_
  exact (Keeps.onlyIf (mayFail_keeps env)).bind fun _ => Keeps.pure

theorem query_keeps {deadline : Bool} {statement : Statement} (h : KeptBy W statement)
    (hq : KeptBy W .query) : Keeps (OnWire W p c) (query env deadline statement) := by
  cases deadline with
  | false => exact send_keeps env h
  | true =>
    refine (mayFail_keeps env).bind fun _ => (boundedSteps_keeps env h hq).tryCatch fun failure => ?_
    exact (Keeps.onlyIf setBroken_keeps).bind fun _ => Keeps.throw

theorem querySourceBounded_keeps {sql : Sql} (h : KeptBy W sql.statement) :
    Keeps (OnWire W p c) (querySourceBounded env sql) := by
  refine Keeps.get.bind fun run => Keeps.failIf.bind fun _ => Keeps.failIf.bind fun _ => ?_
  refine (mayFail_keeps env).bind fun _ => (send_keeps env h).bind fun result => ?_
  refine (Keeps.onlyIf (Keeps.failIf.bind fun _ => modifyOwner_keeps)).bind fun _ => ?_
  refine (Keeps.onlyIf ?_).bind fun _ => Keeps.pure
  exact Keeps.get.bind fun _ => Keeps.failIf.bind fun _ => modifyOwner_keeps

/-- The caller's code keeps what its statements keep; induction on the code. -/
theorem runScript_keeps {α : Type} {deadline : Bool} {script : Script α}
    (hsends : script.Sends allowed) (h : ∀ statement, allowed statement → KeptBy W statement)
    (hq : KeptBy W .query) : Keeps (OnWire W p c) (runScript env deadline script) := by
  induction script with
  | done value => exact Keeps.pure
  | fail => exact Keeps.throw
  | query sql next ih =>
    refine ((query_keeps env (h _ hsends.1) hq).attempt.bind fun _ => Keeps.pure).bind ?_
    exact fun answer => ih answer (hsends.2 answer)
  | bounded sql next ih =>
    refine ((querySourceBounded_keeps env (h _ hsends.1)).attempt.bind fun _ => Keeps.pure).bind ?_
    exact fun answer => ih answer (hsends.2 answer)
  | retire binding next ih => exact modifyOwner_keeps.bind fun _ => ih hsends
  | retainDeadline binding text next ih => exact modifyOwner_keeps.bind fun _ => ih hsends
  | retainGeneric text next ih => exact modifyOwner_keeps.bind fun _ => ih hsends
  | note change next ih => exact modifyOwner_keeps.bind fun _ => ih hsends

theorem Script.sends_of_all {α : Type} (script : Script α)
    (h : ∀ sql : Sql, allowed sql.statement) : script.Sends allowed := by
  induction script with
  | done | fail => trivial
  | query sql next ih => exact ⟨h sql, ih⟩
  | bounded sql next ih => exact ⟨h sql, ih⟩
  | retire _ _ ih => exact ih
  | retainDeadline _ _ _ ih => exact ih
  | retainGeneric _ _ ih => exact ih
  | note _ _ ih => exact ih

theorem Work.keeps {α : Type} {deadline : Bool} (work : Work α) (hq : KeptBy W .query) :
    Keeps (OnWire W p c) (runScript env deadline work.script) :=
  runScript_keeps env work.plain (fun _ h => h ▸ hq) hq

theorem checkConsoleSourceDeadlines_keeps {deadline : Bool} (hq : KeptBy W .query) :
    Keeps (OnWire W p c) (checkConsoleSourceDeadlines env deadline) := by
  have hquery : Keeps (OnWire W p c) (query env deadline .query) := query_keeps env hq hq
  refine Keeps.get.bind fun run => (Keeps.forM fun _ _ => ?_).bind fun _ =>
    (Keeps.forM fun _ _ => ?_).bind fun _ => Keeps.onlyIf ?_
  · exact hquery.bind fun _ => Keeps.onlyIf (modifyOwner_keeps.bind fun _ => Keeps.throw)
  · exact hquery.bind fun _ => Keeps.failIf
  · exact hquery.bind fun _ => Keeps.failIf

variable {α : Type} (options : SourceTransactionOptions) (hooks : Option BoundaryHooks)
  (work : Work α)

/-- Everything before the `COMMIT` leaves the transaction open. -/
theorem perform_keeps (hq : KeptBy W .query) :
    Keeps (OnWire W p c) (perform env options hooks work) := by
  have hcheck : Keeps (OnWire W p c) (checkConsoleSourceDeadlines env options.deadline) :=
    checkConsoleSourceDeadlines_keeps env hq
  refine (Keeps.optionForM fun started => started.keeps env hq).bind fun _ =>
    (work.keeps env hq).bind fun result => hcheck.bind fun _ => ?_
  refine (Keeps.optionForM fun hooks => Keeps.get.bind fun _ => Keeps.onlyIf ?_).bind fun _ =>
    Keeps.get.bind fun _ => (Keeps.onlyIf (mayFail_keeps env)).bind fun _ => Keeps.pure
  exact Keeps.get.bind fun run => ((hooks.beforeCommit run.owner.changes).keeps env hq).bind fun _ =>
    hcheck.bind fun _ => (Keeps.optionForM fun ready => ready.keeps env hq).bind fun _ => hcheck

/-! ## Section 2: What an outcome says -/

/-- What the outcome says of the connection. -/
def Truthful (p : Progress) (w : Wire) : Prop :=
  match p.outcome with
  | .notStarted => w.Closed .notBegun
  | .rollbackAcknowledged | .sourceRetirementAcknowledged | .sourceRetirementRolledBack =>
      w.Closed .rolledBack
  | .commitAcknowledged => w.Closed .committed
  | .commitNeverSent => False
  | .unknown => p.commitSent = true ∨ w.Unsent ∨ w.Closed .rolledBack

def Sound (c : Custody) (run : Run) : Prop :=
  Truthful run.progress run.wire ∧ run.custody = c

/-- The financial transaction was rolled back, and no outcome says otherwise. -/
def Over (c : Custody) (run : Run) : Prop :=
  run.wire.Closed .rolledBack ∧ run.custody = c ∧
    (run.progress.outcome = .unknown ∨ run.progress.outcome = .rollbackAcknowledged ∨
      run.progress.outcome = .sourceRetirementAcknowledged ∨
      run.progress.outcome = .sourceRetirementRolledBack)

/-- The financial transaction was committed, and the outcome says so. -/
def Committed (c : Custody) (run : Run) : Prop :=
  run.wire.Closed .committed ∧ run.custody = c ∧ run.progress.outcome = .commitAcknowledged

theorem Over.sound {run : Run} (h : Over c run) : Sound c run := by
  refine ⟨?_, h.2.1⟩
  rcases h.2.2 with ho | ho | ho | ho <;> rw [Truthful, ho]
  · exact .inr (.inr h.1)
  all_goals exact h.1

theorem Committed.sound {run : Run} (h : Committed c run) : Sound c run := by
  refine ⟨?_, h.2.1⟩
  rw [Truthful, h.2.2]
  exact h.1

theorem closed_keptBy {fate : Fate} {statement : Statement} (h : statement ≠ .begin .financial) :
    KeptBy (Wire.Closed fate) statement := fun _ behaviour hW => hW.send h behaviour

theorem owned_keptBy : KeptBy Wire.Owned .query := fun _ behaviour hW => hW.send behaviour

/-- A program that keeps every settled connection keeps what is over. -/
theorem over_of_onWire {β : Type} {x : Action β}
    (h : ∀ p c, Keeps (OnWire (Wire.Closed .rolledBack) p c) x) : Keeps (Over c) x := by
  intro run hrun
  have := h run.progress c run ⟨hrun.1, rfl, hrun.2.1⟩
  cases hx : x run with
  | ok a t =>
    rw [hx] at this
    exact ⟨this.1, this.2.2, by rw [this.2.1]; exact hrun.2.2⟩
  | error e t =>
    rw [hx] at this
    exact ⟨this.1, this.2.2, by rw [this.2.1]; exact hrun.2.2⟩

theorem committed_of_onWire {β : Type} {x : Action β}
    (h : ∀ p c, Keeps (OnWire (Wire.Closed .committed) p c) x) : Keeps (Committed c) x := by
  intro run hrun
  have := h run.progress c run ⟨hrun.1, rfl, hrun.2.1⟩
  cases hx : x run with
  | ok a t =>
    rw [hx] at this
    exact ⟨this.1, this.2.2, by rw [this.2.1]; exact hrun.2.2⟩
  | error e t =>
    rw [hx] at this
    exact ⟨this.1, this.2.2, by rw [this.2.1]; exact hrun.2.2⟩

/-! ## Section 3: From an idle connection to an open transaction -/

/-- `BEGIN` opens the transaction, or nothing that can commit was sent. -/
theorem send_begin : Triple (OnWire Wire.Idle p c) (send env (.begin .financial))
    (fun _ => OnWire Wire.Owned p c) (fun _ => OnWire Wire.Unsent p c) :=
  send_triple env (Q := fun _ _ => Wire.Owned)
    (fun _ _ _ _ _ hidle hsend => hidle.begin_answer hsend)
    fun _ behaviour hidle => hidle.unsent.send (by decide) behaviour

theorem query_begin {deadline : Bool} :
    Triple (OnWire Wire.Idle p c) (query env deadline (.begin .financial))
      (fun _ => OnWire Wire.Owned p c) (fun _ => OnWire Wire.Unsent p c) := by
  cases deadline with
  | false => exact send_begin env
  | true =>
    have idleUnsent : ∀ run, OnWire Wire.Idle p c run → OnWire Wire.Unsent p c run :=
      fun run h => ⟨h.1.unsent, h.2⟩
    have ownedUnsent : ∀ run, OnWire Wire.Owned p c run → OnWire Wire.Unsent p c run :=
      fun run h => ⟨h.1.unsent, h.2⟩
    -- before the answer the connection stays idle, after it the transaction stays open
    have hidle : ∀ {β : Type} {x : Action β}, Keeps (OnWire Wire.Idle p c) x →
        Triple (OnWire Wire.Idle p c) x (fun _ => OnWire Wire.Idle p c)
          (fun _ => OnWire Wire.Unsent p c) := fun h =>
      h.consequence (fun _ h => h) (fun _ _ h => h) fun _ => idleUnsent
    have howned : ∀ {β : Type} {x : Action β}, Keeps (OnWire Wire.Owned p c) x →
        Triple (OnWire Wire.Owned p c) x (fun _ => OnWire Wire.Owned p c)
          (fun _ => OnWire Wire.Unsent p c) := fun h =>
      h.consequence (fun _ h => h) (fun _ _ h => h) fun _ => ownedUnsent
    have hidleQuery : KeptBy Wire.Idle .query := fun _ behaviour hW => hW.send behaviour
    have hquery := discard_keeps (send_keeps (p := p) (c := c) env owned_keptBy)
    refine (hidle (mayFail_keeps env)).bind fun _ => Triple.tryCatch (M := fun _ =>
      OnWire Wire.Unsent p c) ?_ fun failure => ?_
    · refine (hidle Keeps.get).bind fun run => ?_
      refine (hidle (Keeps.onlyIf ((mayFail_keeps env).bind fun _ =>
        discard_keeps (send_keeps env hidleQuery)))).bind fun _ => ?_
      refine (hidle (mayFail_keeps env)).bind fun _ => (send_begin env).bind fun result => ?_
      refine (howned (Keeps.onlyIf (setTxOpen_keeps.bind fun _ => (mayFail_keeps env).bind fun _ =>
        hquery.bind fun _ => (mayFail_keeps env).bind fun _ => hquery))).bind fun _ => ?_
      refine (howned (Keeps.onlyIf setTxOpen_keeps)).bind fun _ => ?_
      exact (howned (Keeps.onlyIf (mayFail_keeps env))).bind fun _ => Triple.pure fun _ h => h
    · exact Triple.bind (M := fun _ => OnWire Wire.Unsent p c) (Keeps.onlyIf setBroken_keeps)
        fun _ => Triple.throw fun _ h => h

/-! ## Section 4: Rollback, compensation and commit -/

/-- A lost outcome of a transaction that cannot commit any more is sound. -/
theorem loseOutcome_harmless : Triple
    (OnWire (fun w => w.Unsent ∨ w.Closed .rolledBack) p c) loseOutcome
      (fun _ => Sound c) (fun _ => Sound c) := by
  refine Triple.bind (M := fun _ => OnWire (fun w => w.Unsent ∨ w.Closed .rolledBack) p c)
    (Triple.modify fun _ h => h) fun _ => Triple.modify ?_
  rintro run ⟨hW, -, hc⟩
  exact ⟨.inr hW, hc⟩

theorem rollback_triple : Triple (OnWire Wire.Owned p c) (rollback env)
    (fun _ => Over c) (fun _ => Sound c) := by
  refine Triple.tryCatch (M := fun _ => OnWire (fun w => w.Unsent ∨ w.Closed .rolledBack) p c) ?_
    fun _ => (loseOutcome_harmless).bind fun _ => Triple.throw fun _ h => h
  refine Triple.bind (M := fun _ => OnWire (Wire.Closed .rolledBack) p c) (send_triple env
    (Q := fun _ _ => Wire.Closed .rolledBack) (fun _ _ _ _ _ howned hsend =>
      howned.rollback_answer hsend)
    fun _ behaviour howned => .inl (howned.unsent.send (by decide) behaviour)) fun result => ?_
  refine Triple.bind (M := fun _ => OnWire (Wire.Closed .rolledBack) p c)
    (Triple.onlyIf (fun _ => Triple.throw fun _ h => ⟨.inr h.1, h.2⟩) fun _ _ h => h) fun _ => ?_
  refine Triple.bind (M := fun _ => OnWire (Wire.Closed .rolledBack) p c)
    (Triple.modify fun _ h => h) fun _ => Triple.modify ?_
  rintro run ⟨hW, -, hc⟩
  exact ⟨hW, hc, .inr (.inl rfl)⟩

/-- The statements of the compensation do not touch the financial transaction. -/
theorem over_send {statement : Statement} (h : statement ≠ .begin .financial) :
    Keeps (Over c) (send env statement) :=
  over_of_onWire fun _ _ => send_keeps env (closed_keptBy h)

theorem over_loseOutcome : Keeps (Over c) loseOutcome := by
  refine Keeps.bind (Keeps.modify fun _ h => h) fun _ => Keeps.modify ?_
  exact fun _ h => ⟨h.1, h.2.1, .inl rfl⟩

theorem over_beginCompensation : Keeps (Over c) (beginCompensation env options) := by
  have hquery : Keeps (Over c) (discard (send env .query)) :=
    discard_keeps (over_send env (by decide))
  refine Keeps.bind (Keeps.modify fun _ h => ⟨h.1, h.2.1, .inl rfl⟩) fun _ => ?_
  refine Keeps.bind (over_send env (by decide)) fun result => Keeps.bind Keeps.failIf fun _ => ?_
  refine Keeps.bind (Keeps.modify fun _ h => h) fun _ => ?_
  refine Keeps.bind (Keeps.onlyIf (hquery.bind fun _ => hquery)) fun _ => ?_
  exact Keeps.get.bind fun _ => Keeps.forM fun _ _ => hquery

theorem over_rollbackCompensation : Keeps (Over c) (rollbackCompensation env) := by
  refine Keeps.get.bind fun run => Keeps.ite (Keeps.tryCatch ?_ fun _ => over_loseOutcome)
    over_loseOutcome
  refine Keeps.bind (over_send env (by decide)) fun result => Keeps.bind Keeps.failIf fun _ => ?_
  exact Keeps.modify fun _ h => ⟨h.1, h.2.1, .inr (.inr (.inr rfl))⟩

/-- The compensation never returns, and ends with the financial transaction over. -/
theorem retireSources_triple : Triple (OnWire Wire.Owned p c) (retireSources (α := α) env options)
    (fun _ _ => False) (fun _ => Sound c) := by
  have hover : ∀ {β : Type} {x : Action β}, Keeps (Over c) x →
      Triple (Over c) x (fun _ => Over c) (fun _ => Sound c) := fun h =>
    h.consequence (fun _ h => h) (fun _ _ h => h) fun _ _ h => h.sound
  refine (rollback_triple env).bind fun _ => ?_
  refine (hover ((over_beginCompensation env options).tryCatch fun _ =>
    (over_rollbackCompensation env).bind fun _ => Keeps.throw)).bind fun _ => ?_
  refine (hover (Keeps.tryCatch ?_ fun _ => over_loseOutcome.bind fun _ => Keeps.throw)).bind
    fun _ => Triple.throw fun _ h => h.sound
  refine Keeps.bind (over_send env (by decide)) fun result => Keeps.bind Keeps.failIf fun _ => ?_
  exact Keeps.modify fun _ h => ⟨h.1, h.2.1, .inr (.inr (.inl rfl))⟩

/-- An acknowledged `COMMIT` committed; otherwise nothing is said. -/
theorem query_commit {deadline : Bool} :
    Triple (OnWire Wire.Owned p c) (query env deadline .commit)
      (fun r => OnWire (fun w => r.1 = .COMMIT → w.Closed .committed) p c)
      (fun _ => OnWire (fun _ => True) p c) := by
  have hsend : Triple (OnWire Wire.Owned p c) (send env .commit)
      (fun r => OnWire (fun w => r.1 = .COMMIT → w.Closed .committed) p c)
      (fun _ => OnWire (fun _ => True) p c) :=
    send_triple env (Q := fun command _ w => command = .COMMIT → w.Closed .committed)
      (fun _ _ _ _ _ howned hanswer htag => by
        subst htag
        exact howned.commit_answer hanswer)
      fun _ _ _ => trivial
  cases deadline with
  | false => exact hsend
  | true =>
    have howned : ∀ {β : Type} {x : Action β}, Keeps (OnWire Wire.Owned p c) x →
        Triple (OnWire Wire.Owned p c) x (fun _ => OnWire Wire.Owned p c)
          (fun _ => OnWire (fun _ => True) p c) := fun h =>
      h.consequence (fun _ h => h) (fun _ _ h => h) fun _ _ h => ⟨trivial, h.2⟩
    refine (howned (mayFail_keeps env)).bind fun _ => Triple.tryCatch (M := fun _ =>
      OnWire (fun _ => True) p c) ?_ fun failure => ?_
    · refine (howned Keeps.get).bind fun run => ?_
      -- none of the additions of the wrapper applies to a COMMIT
      refine Triple.bind (M := fun _ => OnWire Wire.Owned p c)
        (Triple.onlyIf (fun h => by simp at h) fun _ _ h => h) fun _ => ?_
      refine (howned (mayFail_keeps env)).bind fun _ => hsend.bind fun result => ?_
      refine Triple.bind (M := fun _ => OnWire _ p c)
        (Triple.onlyIf (fun h => by simp [isBegin] at h) fun _ _ h => h) fun _ => ?_
      refine Triple.bind (M := fun _ => OnWire _ p c)
        (Triple.onlyIf (fun _ => Triple.modify fun _ h => h) fun _ _ h => h) fun _ => ?_
      refine Triple.bind (M := fun _ => OnWire _ p c)
        (Triple.onlyIf (fun h => by simp at h) fun _ _ h => h) fun _ => Triple.pure fun _ h => h
    · exact Triple.bind (M := fun _ => OnWire (fun _ => True) p c) (Keeps.onlyIf setBroken_keeps)
        fun _ => Triple.throw fun _ h => h

/-- A lost outcome after the `COMMIT` was sent is sound, whatever happened to it. -/
theorem loseOutcome_sent (hsent : p.commitSent = true) : Triple (OnWire (fun _ => True) p c)
    loseOutcome (fun _ => Sound c) (fun _ => Sound c) := by
  refine Triple.bind (M := fun _ => OnWire (fun _ => True) p c) (Triple.modify fun _ h => h)
    fun _ => Triple.modify ?_
  rintro run ⟨-, rfl, hc⟩
  exact ⟨.inl hsent, hc⟩

theorem commit_triple : Triple (OnWire Wire.Owned p c) (commit env options)
    (fun _ => Committed c) (fun _ => Sound c) := by
  refine Triple.bind (M := fun _ => OnWire Wire.Owned { p with commitSent := true } c)
    (Triple.modify fun _ h => ⟨h.1, by simp [h.2.1], h.2.2⟩) fun _ => ?_
  refine Triple.tryCatch (M := fun _ => OnWire (fun _ => True) { p with commitSent := true } c) ?_
    fun _ => (loseOutcome_sent rfl).bind fun _ => Triple.throw fun _ h => h
  refine (query_commit env).bind fun result => ?_
  refine Triple.bind (M := fun _ => OnWire (Wire.Closed .committed) { p with commitSent := true } c)
    (Triple.onlyIf (fun _ => Triple.throw fun _ h => ⟨trivial, h.2⟩) fun htag run h =>
      ⟨h.1 (by simpa using htag), h.2⟩) fun _ => Triple.modify ?_
  rintro run ⟨hW, -, hc⟩
  exact ⟨hW, hc, rfl⟩

/-- The observer may send what it likes: the commit stands. -/
theorem observe_keeps (observer : Script Unit) : Keeps (Committed c) (observe env options observer) := by
  have hscript : Keeps (Committed c) (runScript env options.deadline observer) :=
    committed_of_onWire fun p c => runScript_keeps env
      (observer.sends_of_all fun sql => show sql.statement ≠ .begin .financial by
        cases sql <;> simp [Sql.statement])
      (fun _ h => closed_keptBy h) (closed_keptBy (by decide))
  refine Keeps.bind (Keeps.tryCatch ?_ fun failure => ?_) fun _ => ?_
  · refine Keeps.bind (Keeps.modify fun _ h => h) fun _ => hscript.bind fun _ => ?_
    refine Keeps.bind (Keeps.modify fun _ h => h) fun _ => Keeps.get.bind fun _ => Keeps.failIf
  · refine Keeps.bind (Keeps.modify fun _ h => h) fun _ => ?_
    exact Keeps.bind (Keeps.modify fun _ h => h) fun _ => Keeps.throw
  · refine Keeps.bind (Keeps.modify fun _ h => h) fun _ => Keeps.onlyIf ?_
    refine Keeps.bind (committed_of_onWire fun _ _ => strikes_keeps env) fun _ => Keeps.onlyIf ?_
    exact Keeps.bind (Keeps.modify fun _ h => h) fun _ => Keeps.throw

theorem complete_triple (result : α) : Triple (OnWire Wire.Owned p c)
    (complete env options hooks result) (fun _ => Committed c) (fun _ => Sound c) := by
  have hmay : ∀ {failure : Failure}, Keeps (Committed c) (mayFail env failure) :=
    committed_of_onWire fun _ _ => mayFail_keeps env
  refine (commit_triple env options).bind fun _ => ?_
  have hrest : Keeps (Committed c) (do
      onlyIf options.afterCommit (mayFail env .raised)
      onlyIf options.deadline (mayFail env .refused)
      forM (hooks.bind (·.afterCommitObservation)) (observe env options)
      return result : Action α) :=
    (Keeps.onlyIf hmay).bind fun _ => (Keeps.onlyIf hmay).bind fun _ =>
      (Keeps.optionForM fun observer => observe_keeps env options observer).bind fun _ => Keeps.pure
  exact hrest.consequence (fun _ h => h) (fun _ _ h => h) fun _ _ h => h.sound

/-! ## Section 5: The whole call -/

/-- From an idle connection every way through the transaction ends sound. -/
theorem transact_triple : Triple (OnWire Wire.Idle p c) (transact env options hooks work)
    (fun _ => Committed c) (fun _ => Sound c) := by
  have hunknown : ∀ {p : Progress} run, p.outcome = .unknown → OnWire Wire.Unsent p c run →
      Sound c run := by
    rintro p run ho ⟨hW, hp, hc⟩
    refine ⟨?_, hc⟩
    rw [Truthful, hp, ho]
    exact .inr (.inl hW)
  refine Triple.bind (M := fun _ => OnWire Wire.Idle { p with outcome := .unknown } c)
    (Triple.modify fun _ h => ⟨h.1, by simp [h.2.1], h.2.2⟩) fun _ => ?_
  refine Triple.bind ((query_begin env).consequence (fun _ h => h) (fun _ _ h => h)
    fun _ run h => hunknown run rfl h) fun began => ?_
  refine Triple.bind (M := fun _ => OnWire Wire.Owned { p with outcome := .unknown } c)
    (Triple.onlyIf (fun _ => Triple.throw fun run h => hunknown run rfl ⟨h.1.unsent, h.2⟩)
      fun _ _ h => h) fun _ => ?_
  refine Triple.bind (M := fun _ =>
      OnWire Wire.Owned { p with outcome := .unknown, originalOpen := true } c)
    (Triple.modify fun _ h => ⟨h.1, by simp [h.2.1], h.2.2⟩) fun _ => ?_
  refine Triple.bind (M := fun _ =>
      OnWire Wire.Owned { p with outcome := .unknown, originalOpen := true } c)
    ((Triple.attempt (perform_keeps env options hooks work owned_keptBy)).consequence (fun _ h => h)
      (fun r _ h => by cases r <;> exact h) fun _ _ h => h) fun result => ?_
  refine Triple.bind (Triple.get (Q := fun _ => OnWire Wire.Owned _ c) fun _ h => h) fun run => ?_
  split
  · exact (retireSources_triple env options).consequence (fun _ h => h) (fun _ _ h => h.elim)
      fun _ _ h => h
  · cases result with
    | error failure =>
      exact (rollback_triple env).bind fun _ => Triple.throw fun _ h => h.sound
    | ok result => exact complete_triple env options hooks result

/-- Nothing but the financial `BEGIN` and a `COMMIT` can make a truthful outcome false. -/
theorem truthful_keptBy {statement : Statement} (hcommit : statement ≠ .commit)
    (hbegin : statement ≠ .begin .financial) : KeptBy (Truthful p) statement := by
  intro w behaviour hW
  unfold Truthful at hW ⊢
  split at hW
  · exact hW.send hbegin behaviour
  · exact hW.send hbegin behaviour
  · exact hW.send hbegin behaviour
  · exact hW.send hbegin behaviour
  · exact hW.send hbegin behaviour
  · exact hW
  · rcases hW with hW | hW | hW
    · exact .inl hW
    · exact .inr (.inl (hW.send hcommit behaviour))
    · exact .inr (.inr (hW.send hbegin behaviour))

/-- A report that may be given: sound, and of a broken connection if it is unknown. -/
def Settled (c : Custody) (run : Run) : Prop :=
  Sound c run ∧ (run.progress.outcome = .unknown → run.broken = true)

theorem cleanUp_triple : Triple (Sound c) (cleanUp env) (fun _ => Settled c)
    (fun _ => Settled c) := by
  refine Triple.bind (M := fun run => OnWire (Truthful run.progress) run.progress c)
    (Triple.get fun run h => ⟨h.1, rfl, h.2⟩) fun run => ?_
  have hsound : ∀ s, OnWire (Truthful run.progress) run.progress c s → Sound c s :=
    fun s h => ⟨by rw [h.2.1]; exact h.1, h.2.2⟩
  refine Triple.onlyIf (fun _ => ?_) fun hskip s h => ⟨hsound s h, fun ho => ?_⟩
  · refine Triple.bind (M := fun _ => OnWire (Truthful run.progress) run.progress c) ?_ fun _ => ?_
    · refine Triple.tryCatch (M := fun _ => OnWire (Truthful run.progress) run.progress c) ?_
        fun _ => Triple.modify fun _ h => h
      refine Triple.bind (M := fun _ => OnWire (Truthful run.progress) run.progress c)
        (send_keeps env (truthful_keptBy (by decide) (by decide))) fun result => ?_
      exact Triple.onlyIf (fun _ => Triple.modify fun _ h => h) fun _ _ h => h
    · refine Triple.onlyIf (fun _ => Triple.modify fun s h => ⟨hsound _ h, fun _ => rfl⟩)
        fun hknown s h => ⟨hsound s h, fun ho => ?_⟩
      rw [h.2.1] at ho
      exact absurd ho hknown
  · rw [h.2.1] at ho
    simp [ho] at hskip

/-- The call after the connection was asked for: what is reported is sound, and a broken
    connection is released as broken. -/
theorem connected_triple (hstart : p.outcome = .notStarted) (hopen : c.released = none) :
    Triple (OnWire Wire.Idle p c) (connected env options hooks work)
      (fun _ run => ∃ released, Sound { c with released } run ∧
        (run.progress.outcome = .unknown → released = some true))
      (fun _ run => ∃ released, Sound { c with released } run ∧
        (run.progress.outcome = .unknown → released = some true)) := by
  refine Triple.bind (M := fun _ => OnWire Wire.Idle p c) ((mayFail_keeps env).consequence
    (fun _ h => h) (fun _ _ h => h) fun _ run h => ⟨none, ⟨?_, ?_⟩, fun ho => ?_⟩) fun _ => ?_
  · rw [Truthful, h.2.1, hstart]
    exact h.1.closed
  · rw [h.2.2, ← hopen]
  · rw [h.2.1, hstart] at ho
    cases ho
  have htry : Triple (OnWire Wire.Idle p c) (do
      try transact env options hooks work
      catch failure =>
        cleanUp env
        throw failure : Action α) (fun _ => Settled c) (fun _ => Settled c) := by
    refine Triple.tryCatch ((transact_triple env options hooks work).consequence (fun _ h => h)
      (fun _ run h => ⟨h.sound, fun ho => ?_⟩) fun _ _ h => h) fun failure =>
        (cleanUp_triple env).bind fun _ => Triple.throw fun _ h => h
    rw [h.2.2] at ho
    cases ho
  refine Triple.bind (M := fun _ => Settled c) ((Triple.attempt htry).consequence (fun _ h => h)
    (fun r _ h => by cases r <;> exact h) fun _ _ h => h) fun result => ?_
  refine Triple.bind (M := fun _ run => ∃ released, Sound { c with released } run ∧
    (run.progress.outcome = .unknown → released = some true)) (Triple.modify ?_)
    fun _ => Keeps.resume
  rintro run ⟨⟨htruth, rfl⟩, hbroken⟩
  exact ⟨some run.broken, ⟨htruth, rfl⟩, fun ho => congrArg some (hbroken ho)⟩

/-! ## Section 6: The report -/

/-- A call on a connection fresh from the pool; `used` says whether the boundary was. -/
def Run.initial (used : Bool) (tick : Nat) : Run where
  wire := Wire.fresh
  tick := tick
  owner := ⟨[], [], [], [], false, false, false⟩
  txOpen := false
  broken := false
  progress := ⟨.notStarted, false, false, false, false⟩
  custody := ⟨used, none, []⟩

/-- The call takes the boundary: there is one, it is unused, and the deadline is ahead. -/
def accepted (used : Bool) (tick : Nat) : Bool :=
  hooks.isSome && !used && !(options.deadline && env.strikes tick)

/-- The outcomes that say that nothing was committed. -/
def notCommitted : List SourceTransactionOutcome :=
  [.notStarted, .rollbackAcknowledged, .sourceRetirementAcknowledged, .sourceRetirementRolledBack,
    .commitNeverSent]

/-- What a report promises about the connection after the call. -/
structure Vouched (outcome : SourceTransactionOutcome) (w : Wire) (released : Option Bool) :
    Prop where
  committed : outcome = .commitAcknowledged → w.server.fate = .committed
  never : outcome ∈ notCommitted → ∀ later,
    Relation.ReflTransGen (Wire.Later (released == some true)) w later →
      later.server.fate ≠ .committed
  broken : outcome = .unknown ∨ outcome = .commitNeverSent → released = some true

/-- What is reported of a sound call is vouched for. -/
theorem vouched_reported {p : Progress} {w : Wire} {released : Option Bool}
    (htruth : Truthful p w) (hbroken : p.outcome = .unknown → released = some true) :
    Vouched p.reported w released := by
  have hclosed : ∀ {fate : Fate}, fate ≠ .committed → w.Closed fate → ∀ later,
      Relation.ReflTransGen (Wire.Later (released == some true)) w later →
        later.server.fate ≠ .committed := by
    intro fate hfate h later hlater
    rw [(h.later hlater).1]
    exact hfate
  unfold Progress.reported
  split
  · next h =>
    rw [Bool.and_eq_true, decide_eq_true_eq, Bool.not_eq_true'] at h
    refine ⟨nofun, fun _ later hlater => ?_, fun _ => hbroken h.1⟩
    rw [Truthful, h.1] at htruth
    rcases htruth with hsent | hunsent | hover
    · rw [h.2] at hsent
      cases hsent
    · rw [hbroken h.1, beq_self_eq_true] at hlater
      exact (hunsent.later hlater).1
    · exact hclosed (by decide) hover later hlater
  · next h =>
    cases ho : p.outcome with
    | notStarted =>
      rw [Truthful, ho] at htruth
      exact ⟨nofun, fun _ => hclosed (by decide) htruth, by simp⟩
    | rollbackAcknowledged =>
      rw [Truthful, ho] at htruth
      exact ⟨nofun, fun _ => hclosed (by decide) htruth, by simp⟩
    | sourceRetirementAcknowledged =>
      rw [Truthful, ho] at htruth
      exact ⟨nofun, fun _ => hclosed (by decide) htruth, by simp⟩
    | sourceRetirementRolledBack =>
      rw [Truthful, ho] at htruth
      exact ⟨nofun, fun _ => hclosed (by decide) htruth, by simp⟩
    | commitAcknowledged =>
      rw [Truthful, ho] at htruth
      exact ⟨fun _ => htruth.1, by simp [notCommitted], by simp⟩
    | commitNeverSent =>
      rw [Truthful, ho] at htruth
      exact htruth.elim
    | unknown => exact ⟨nofun, by simp [notCommitted], fun _ => hbroken ho⟩

/-- What a call leaves: one report if it took the boundary, none if it did not. -/
structure ReportsOnce (used : Bool) (tick : Nat) (run : Run) : Prop where
  once : accepted env options hooks used tick = true →
    ∃ outcome observation,
      run.custody.settled = [(outcome, observation)] ∧
        Vouched outcome run.wire run.custody.released
  silent : accepted env options hooks used tick = false → run.custody.settled = []
  spent : run.custody.used = (used || accepted env options hooks used tick)

theorem reportsOnce_refused {used : Bool} {tick : Nat} {run : Run}
    (hno : accepted env options hooks used tick = false) (hc : run.custody = ⟨used, none, []⟩) :
    ReportsOnce env options hooks used tick run where
  once := fun h => by
    rw [hno] at h
    cases h
  silent := fun _ => by rw [hc]
  spent := by rw [hc, hno, Bool.or_false]

/-- **Transaction outcomes are truthful**: for every environment, all scripts of the caller
    and every failure, a call that takes its boundary reports exactly once, the report holds
    of the connection and of everything that can still happen on it, and a connection whose
    outcome was left unknown is released as broken. A call that does not take the boundary
    reports nothing. -/
theorem settled_truthful (used : Bool) (tick : Nat) :
    ReportsOnce env options hooks used tick
      (final (consoleSourceTransaction env options hooks work) (Run.initial used tick)) := by
  refine Triple.final (P := (· = Run.initial used tick)) ?_ rfl
  let idle : Run → Prop := OnWire Wire.Idle ⟨.notStarted, false, false, false, false⟩ ⟨used, none, []⟩
  have hinitial : idle (Run.initial used tick) := ⟨Wire.idle_fresh, rfl, rfl⟩
  -- the deadline, checked before the boundary is looked at
  have hdeadline : Triple (· = Run.initial used tick)
      (onlyIf options.deadline (mayFail env .refused))
      (fun _ run => (options.deadline && env.strikes tick) = false ∧ idle run)
      (fun _ => ReportsOnce env options hooks used tick) := by
    refine Triple.onlyIf (fun hd => ?_) fun hd run hrun => ?_
    · refine Triple.bind (M := fun strikes run => strikes = env.strikes tick ∧ idle run)
        (fun run hrun => by subst hrun; exact ⟨rfl, hinitial⟩) fun strikes => ?_
      refine Triple.onlyIf (fun hs => Triple.throw fun run h => ?_) fun hs run h => ⟨?_, h.2⟩
      · refine reportsOnce_refused env options hooks ?_ h.2.2.2
        rw [accepted, ← h.1, hs, hd, Bool.and_self, Bool.not_true, Bool.and_false]
      · rw [← h.1, Bool.eq_false_iff.2 hs, Bool.and_false]
    · subst hrun
      exact ⟨by simp [hd], hinitial⟩
  refine hdeadline.bind fun _ => ?_
  refine Triple.bind (Triple.get (Q := fun s run => s.custody.used = used ∧
    (options.deadline && env.strikes tick) = false ∧ idle run)
      fun run h => ⟨by rw [h.2.2.2], h⟩) fun s => ?_
  -- the boundary
  refine Triple.bind (M := fun _ run => (hooks.isSome && used) = false ∧
    (options.deadline && env.strikes tick) = false ∧ idle run)
    (Triple.onlyIf (fun hused => Triple.throw fun run h => ?_) fun hused run h => ?_) fun _ => ?_
  · refine reportsOnce_refused env options hooks ?_ h.2.2.2.2
    rw [h.1] at hused
    rw [accepted]
    cases hb : hooks.isSome <;> cases used <;> simp_all
  · rw [h.1] at hused
    exact ⟨by simpa using hused, h.2⟩
  refine Triple.bind (M := fun _ run => accepted env options hooks used tick = hooks.isSome ∧
    OnWire Wire.Idle ⟨.notStarted, false, false, false, false⟩ ⟨used || hooks.isSome, none, []⟩ run)
    (Triple.modify fun run h => ⟨?_, h.2.2.1, rfl, by simp [begun, h.2.2.2.2]⟩) fun _ => ?_
  · rw [accepted, h.2.1]
    cases hb : hooks.isSome <;> cases used <;> simp_all
  refine Triple.fact fun haccepted => ?_
  refine Triple.bind (M := fun _ run => ∃ released,
      Sound ⟨used || hooks.isSome, released, []⟩ run ∧
        (run.progress.outcome = .unknown → released = some true))
    ((Triple.attempt (connected_triple env options hooks work rfl rfl)).consequence (fun _ h => h)
      (fun r _ h => by cases r <;> exact h) fun _ _ h => h) fun result => ?_
  refine Triple.bind (M := fun _ => ReportsOnce env options hooks used tick)
    (Triple.onlyIf (fun hsome => ?_) fun hnone run h => ?_) fun _ => Keeps.resume
  · -- the report
    refine Triple.bind (M := fun _ => ReportsOnce env options hooks used tick)
      (Triple.modify ?_) fun _ => Keeps.bind (fun _ h => ?_) fun _ => Keeps.onlyIf Keeps.throw
    · rintro run ⟨released, ⟨htruth, hc⟩, hbroken⟩
      refine ⟨fun _ => ⟨_, _, by rw [hc]; rfl, ?_⟩, fun hno => ?_, by rw [hc, haccepted]⟩
      · refine vouched_reported htruth fun ho => ?_
        rw [hc]
        exact hbroken ho
      · rw [haccepted, hsome] at hno
        cases hno
    · exact ⟨h.once, h.silent, h.spent⟩
  · obtain ⟨released, ⟨-, hc⟩, -⟩ := h
    have hno : hooks.isSome = false := by simpa using hnone
    rw [hno] at haccepted hc
    refine ⟨fun hyes => ?_, fun _ => by rw [hc], by rw [hc, haccepted]⟩
    rw [haccepted] at hyes
    cases hyes

end Lares.SourceTransaction
