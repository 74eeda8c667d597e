import Lares.Meetings.Followup

/-! # What a follow-up keeps to

    * **Statements**: what each does to the attempts, to a row that says sent and
      to the stored hash.
    * **Steps**: what the tick knows of its claim while others write the row.
    * **Runs**: sent stays sent, claims stay within their budget, a card is
      replaced only where the page has changed.
    * **Mails**: one leaves between two redrafts where no execution starts over
      another one.
    * **Versions**: a released or corrected page can be claimed where no decline
      strikes out a claim whose send-turn is still to come.
-/

namespace Lares.Meetings

/-! ## Section 1: Statements -/

/-- Some version of the page is stored. -/
def Row.Known (r : Row) : Prop := ∃ stored, r.summaryHash = some stored ∧ stored ≠ []

theorem Row.changed_iff {r : Row} {summaryHash : Hash} : r.changed summaryHash = true ↔
    ∃ stored, r.summaryHash = some stored ∧ stored ≠ [] ∧ stored ≠ summaryHash := by
  unfold changed
  cases r.summaryHash with
  | none => simp
  | some stored => simp

structure Row.Fits (r : Row) (taken : Nat) : Prop where
  taken : taken ≤ r.attempts
  attempts : r.attempts ≤ MAX_ATTEMPTS
  known : r.outcome ≠ .sent → r.Known

/-- As many claims as the row has counted, and a stored hash while the mail is not out. -/
def Fits (row : Option Row) (taken : Nat) : Prop :=
  match row with
  | none => taken = 0
  | some r => r.Fits taken

def Sent (row : Option Row) : Prop := getOutcome row = some .sent

/-- Nothing was processed later than now. -/
def Past (row : Option Row) (now : Time) : Prop := ∀ r, row = some r → r.processedAt ≤ now

/-- The row is still there, with its attempts or with a fresh budget. -/
def KeepsBudget (row row' : Option Row) : Prop :=
  ∀ r, row = some r → ∃ r', row' = some r' ∧ (r'.attempts = r.attempts ∨ r'.attempts = 0)

/-- What a statement does that only notes an outcome or a hash. -/
structure Notes (f : Row → Row) : Prop where
  /-- The attempts stay. -/
  attempts : ∀ r, (f r).attempts = r.attempts
  /-- So does the time. -/
  processedAt : ∀ r, (f r).processedAt = r.processedAt
  /-- What was sent stays sent. -/
  sent : ∀ r, r.outcome = .sent → (f r).outcome = .sent
  /-- What is known stays known. -/
  known : ∀ r, r.Known → (f r).Known

variable {row : Option Row} {taken : Nat} {f : Row → Row}

theorem Notes.fits (hf : Notes f) (h : Fits row taken) : Fits (row.map f) taken := by
  cases row with
  | none => exact h
  | some r =>
    refine ⟨?_, ?_, ?_⟩
    · rw [hf.attempts]
      exact h.taken
    · rw [hf.attempts]
      exact h.attempts
    · intro hne
      apply hf.known
      apply h.known
      intro hsent
      exact hne (hf.sent r hsent)

theorem Notes.past (hf : Notes f) {now : Time} (h : Past row now) : Past (row.map f) now := by
  intro r hr
  obtain ⟨r', hr', rfl⟩ := Option.map_eq_some_iff.1 hr
  rw [hf.processedAt]
  exact h r' hr'

theorem Notes.keepsSent (hf : Notes f) (h : Sent row) : Sent (row.map f) := by
  cases row with
  | none => cases h
  | some r =>
    have hr : r.outcome = .sent := Option.some.inj h
    exact congrArg some (hf.sent r hr)

theorem Notes.keepsBudget (hf : Notes f) (row : Option Row) : KeepsBudget row (row.map f) := by
  intro r hr
  rw [hr]
  exact ⟨f r, rfl, .inl (hf.attempts r)⟩

theorem notes_adopt (summaryHash : Hash) (hne : summaryHash ≠ []) : Notes fun r =>
    if r.carded ∧ (r.summaryHash = none ∨ r.summaryHash = some []) then
      { r with summaryHash := some summaryHash }
    else r where
  attempts := by
    intro r
    split
    · rfl
    · rfl
  processedAt := by
    intro r
    split
    · rfl
    · rfl
  sent := by
    intro r hr
    split
    · exact hr
    · exact hr
  known := by
    intro r hr
    split
    · exact ⟨summaryHash, rfl, hne⟩
    · exact hr

/-- A hash is adopted only by a row of an older schema. -/
theorem adoptHash_of_fits (h : Fits row taken) (summaryHash : Hash) :
    adoptHash row summaryHash = row := by
  cases row with
  | none => rfl
  | some r =>
    apply congrArg some
    dsimp only
    split
    next hcarded =>
      have hnot : r.outcome ≠ .sent := by
        intro hsent
        simp [Row.carded, hsent] at hcarded
      obtain ⟨stored, hstored, hne⟩ := h.known hnot
      rw [hstored] at hcarded
      simp [hne] at hcarded
    · rfl

theorem adoptHash_sent (h : Sent row) (summaryHash : Hash) : adoptHash row summaryHash = row := by
  cases row with
  | none => cases h
  | some r =>
    have hr : r.outcome = .sent := Option.some.inj h
    simp [adoptHash, Row.carded, hr]

theorem notes_denial : Notes fun r =>
    if r.outcome = .queued ∨ r.outcome = .error then { r with outcome := .denied } else r where
  attempts := by
    intro r
    split
    · rfl
    · rfl
  processedAt := by
    intro r
    split
    · rfl
    · rfl
  sent := by
    intro r hr
    simp [hr]
  known := by
    intro r hr
    split
    · exact hr
    · exact hr

theorem notes_outcome (outcome : FollowupOutcome) : Notes fun r =>
    if r.outcome ≠ .sent then { r with outcome } else r where
  attempts := by
    intro r
    split
    · rfl
    · rfl
  processedAt := by
    intro r
    split
    · rfl
    · rfl
  sent := by
    intro r hr
    simp [hr]
  known := by
    intro r hr
    split
    · exact hr
    · exact hr

theorem claimMeeting_some {row' : Option Row} {now : Time} {summaryHash : Hash} {claim : ClaimResult}
    (hne : summaryHash ≠ []) (h : Fits row taken)
    (hclaim : claimMeeting row now summaryHash = (row', some claim)) :
    Fits row' (taken + 1) ∧ ¬Sent row ∧ 1 ≤ claim.attempt ∧ claim.attempt ≤ MAX_ATTEMPTS ∧
      ∃ r', row' = some r' ∧ r'.attempts = claim.attempt := by
  cases row with
  | none =>
    cases hclaim
    rw [show taken = 0 from h]
    have hone : 1 ≤ MAX_ATTEMPTS := by decide
    refine ⟨⟨le_refl _, hone, fun _ => ⟨_, rfl, hne⟩⟩, ?_, le_refl _, hone, _, rfl, rfl⟩
    intro hsent
    cases hsent
  | some r =>
    unfold claimMeeting at hclaim
    dsimp only at hclaim
    split at hclaim
    next hfree =>
      cases hclaim
      obtain ⟨hlt, hwhy⟩ := hfree
      refine ⟨⟨Nat.succ_le_succ h.taken, hlt, fun _ => ⟨_, rfl, hne⟩⟩, ?_, Nat.succ_pos _, hlt, _,
        rfl, rfl⟩
      intro hsent
      have hr : r.outcome = .sent := Option.some.inj hsent
      simp [Row.retriable, Row.carded, hr] at hwhy
    · cases hclaim

/-- A claim stores the version that it was taken for. -/
theorem claimMeeting_stores {row' : Option Row} {now : Time} {summaryHash : Hash}
    {claim : ClaimResult} (hclaim : claimMeeting row now summaryHash = (row', some claim)) :
    ∃ attempts, row' = some ⟨.error, attempts, now, some summaryHash⟩ := by
  cases row with
  | none =>
    cases hclaim
    exact ⟨1, rfl⟩
  | some r =>
    unfold claimMeeting at hclaim
    dsimp only at hclaim
    split at hclaim
    · cases hclaim
      exact ⟨_, rfl⟩
    · cases hclaim

theorem claimMeeting_none {row' : Option Row} {now : Time} {summaryHash : Hash}
    (hclaim : claimMeeting row now summaryHash = (row', none)) : row' = row := by
  cases row with
  | none => cases hclaim
  | some r =>
    unfold claimMeeting at hclaim
    dsimp only at hclaim
    split at hclaim
    · cases hclaim
    · cases hclaim
      rfl

theorem claimMeeting_sent (h : Sent row) (now : Time) (summaryHash : Hash) :
    claimMeeting row now summaryHash = (row, none) := by
  cases row with
  | none => cases h
  | some r =>
    have hr : r.outcome = .sent := Option.some.inj h
    simp [claimMeeting, Row.retriable, Row.carded, hr]

theorem fits_reset (h : Fits row taken) (now : Time) :
    Fits (resetClaimForRedraft row now).1
      (if (resetClaimForRedraft row now).2 then 0 else taken) := by
  cases row with
  | none => exact h
  | some r =>
    by_cases hr : r.outcome = .sent
    · simpa [resetClaimForRedraft, hr] using h
    · simp only [resetClaimForRedraft, if_pos (show r.outcome ≠ .sent from hr), if_true]
      exact ⟨Nat.zero_le _, Nat.zero_le _, fun _ => h.known hr⟩

theorem keepsBudget_reset (row : Option Row) (now : Time) :
    KeepsBudget row (resetClaimForRedraft row now).1 := by
  intro r hr
  subst hr
  unfold resetClaimForRedraft
  dsimp only
  split
  · exact ⟨_, rfl, .inr rfl⟩
  · exact ⟨_, rfl, .inl rfl⟩

theorem past_reset {now : Time} (h : Past row now) : Past (resetClaimForRedraft row now).1 now := by
  cases row with
  | none => exact h
  | some r =>
    unfold resetClaimForRedraft
    dsimp only
    split
    · rintro _ ⟨⟩
      show now - RETRY_ELIGIBLE_AFTER - 1000 ≤ now
      unfold RETRY_ELIGIBLE_AFTER
      linarith
    · exact h

theorem resetClaimForRedraft_sent (h : Sent row) (now : Time) :
    resetClaimForRedraft row now = (row, false) := by
  cases row with
  | none => cases h
  | some r =>
    have hr : r.outcome = .sent := Option.some.inj h
    simp [resetClaimForRedraft, hr]

theorem fits_release (h : Fits row taken) (now : Time) :
    Fits (releaseClaim row now) (if getOutcome row = some .error then taken - 1 else taken) := by
  cases row with
  | none => exact h
  | some r =>
    by_cases hr : r.outcome = .error
    · have hsent : r.outcome ≠ .sent := by
        rw [hr]
        decide
      simp only [releaseClaim, getOutcome, Option.map_some, hr, if_true]
      exact ⟨Nat.sub_le_sub_right h.taken 1, (Nat.sub_le ..).trans h.attempts,
        fun _ => h.known hsent⟩
    · simpa [releaseClaim, getOutcome, hr] using h

theorem past_release {now : Time} (h : Past row now) : Past (releaseClaim row now) now := by
  intro r hr
  obtain ⟨r', hr', rfl⟩ := Option.map_eq_some_iff.1 hr
  split
  · show now - RETRY_ELIGIBLE_AFTER - 1000 ≤ now
    unfold RETRY_ELIGIBLE_AFTER
    linarith
  · exact h r' hr'

theorem releaseClaim_sent (h : Sent row) (now : Time) : releaseClaim row now = row := by
  cases row with
  | none => cases h
  | some r =>
    have hr : r.outcome = .sent := Option.some.inj h
    simp [releaseClaim, hr]

theorem fits_recordSent (h : Fits row taken) (now : Time) : Fits (recordSent row now) taken := by
  cases row with
  | none =>
    rw [show taken = 0 from h]
    have hone : 1 ≤ MAX_ATTEMPTS := by decide
    exact ⟨Nat.zero_le _, hone, fun hne => absurd rfl hne⟩
  | some r => exact ⟨h.taken, h.attempts, fun hne => absurd rfl hne⟩

theorem past_recordSent (row : Option Row) (now : Time) : Past (recordSent row now) now := by
  intro r hr
  cases row with
  | none =>
    cases hr
    exact le_refl _
  | some r' =>
    cases hr
    exact le_refl _

theorem keepsBudget_recordSent (row : Option Row) (now : Time) :
    KeepsBudget row (recordSent row now) := by
  intro r hr
  subst hr
  exact ⟨_, rfl, .inl rfl⟩

theorem sent_recordSent (row : Option Row) (now : Time) : Sent (recordSent row now) := by
  cases row with
  | none => rfl
  | some r => rfl

/-! ## Section 2: Steps -/

/-- What a tick knows of its page and of its claim. -/
def TickOk (row : Option Row) : Tick → Prop
  | .claim summaryHash _ | .adopt summaryHash => summaryHash ≠ []
  | .precheck claim | .compose claim | .gate claim | .turn claim | .release claim =>
      1 ≤ claim.attempt ∧ claim.attempt ≤ MAX_ATTEMPTS ∧
        ∃ r, row = some r ∧ (r.attempts = claim.attempt ∨ r.attempts = 0)
  | .readBack | .record _ => True

theorem TickOk.mono {row row' : Option Row} {tick : Tick} (h : TickOk row tick)
    (hkeeps : KeepsBudget row row') : TickOk row' tick := by
  have hclaim : ∀ claim : Claim,
      (∃ r, row = some r ∧ (r.attempts = claim.attempt ∨ r.attempts = 0)) →
        ∃ r, row' = some r ∧ (r.attempts = claim.attempt ∨ r.attempts = 0) := by
    rintro claim ⟨r, hr, hattempts⟩
    obtain ⟨r', hr', hsame | hzero⟩ := hkeeps r hr
    · exact ⟨r', hr', by rwa [hsame]⟩
    · exact ⟨r', hr', .inr hzero⟩
  cases tick with
  | claim summaryHash internal => exact h
  | adopt summaryHash => exact h
  | precheck claim => exact ⟨h.1, h.2.1, hclaim claim h.2.2⟩
  | compose claim => exact ⟨h.1, h.2.1, hclaim claim h.2.2⟩
  | gate claim => exact ⟨h.1, h.2.1, hclaim claim h.2.2⟩
  | turn claim => exact ⟨h.1, h.2.1, hclaim claim h.2.2⟩
  | readBack => trivial
  | release claim => exact ⟨h.1, h.2.1, hclaim claim h.2.2⟩
  | record outcome => trivial

structure Page.Ok (s : Page) : Prop where
  /-- A page has a hash. -/
  live : s.live ≠ []
  /-- The attempts are the claims. -/
  fits : Fits s.row s.taken
  /-- No row is from the future. -/
  past : Past s.row s.now
  /-- What the tick knows is so. -/
  tick : ∀ tick, s.tick = some tick → TickOk s.row tick

variable {s t : Page}

/-- The tick goes on, and the row stays as it is. -/
theorem Page.Ok.enter (h : s.Ok) {tick : Option Tick} (htick : ∀ next ∈ tick, TickOk s.row next) :
    (s.enter tick).Ok :=
  ⟨h.live, h.fits, h.past, htick⟩

theorem Page.Ok.tickStep (h : s.Ok) {tick : Tick} (htick : TickOk s.row tick)
    (answer : TickAnswer) : (s.tickStep tick answer).Ok := by
  cases tick with
  | claim summaryHash internal =>
    unfold Page.tickStep
    dsimp only
    split
    · exact h.enter (by simp)
    · split
      next row claim hclaim =>
        -- The claim counts an attempt and takes the row.
        obtain ⟨hfits, -, hpos, hle, r', hr', hattempts⟩ := claimMeeting_some htick h.fits hclaim
        have hpast : Past row s.now := by
          obtain ⟨attempts, rfl⟩ := claimMeeting_stores hclaim
          rintro _ ⟨⟩
          exact le_refl _
        refine ⟨h.live, hfits, hpast, ?_⟩
        intro next hnext
        cases internal with
        | true =>
          cases hnext
          trivial
        | false =>
          cases hnext
          exact ⟨hpos, hle, r', hr', .inl hattempts⟩
      next row hclaim =>
        -- The row is not for it: nothing changes.
        obtain rfl := claimMeeting_none hclaim
        refine ⟨h.live, h.fits, h.past, ?_⟩
        intro next hnext
        cases hnext
        exact htick
  | adopt summaryHash =>
    unfold Page.tickStep
    dsimp only
    split
    · exact h.enter (by simp)
    · have hnotes := notes_adopt summaryHash htick
      exact ⟨h.live, hnotes.fits h.fits, hnotes.past h.past, by simp⟩
  | precheck claim =>
    apply h.enter
    intro next hnext
    obtain rfl := Option.some.inj hnext
    split
    · exact htick
    · exact htick
  | compose claim =>
    apply h.enter
    intro next hnext
    obtain rfl := Option.some.inj hnext
    split
    · trivial
    · exact htick
  | gate claim =>
    -- A send-turn needs the version that the gate has let through.
    have hpassed : ({ s with passed := some claim.summaryHash, tick := some (.turn claim) } :
        Page).Ok := by
      refine ⟨h.live, h.fits, h.past, ?_⟩
      intro next hnext
      cases hnext
      exact htick
    cases answer with
    | failed => exact h.enter (by rintro _ ⟨⟩; trivial)
    | held => exact h.enter (by rintro _ ⟨⟩; exact htick)
    | done => exact hpassed
    | autonomous => exact hpassed
  | turn claim =>
    apply h.enter
    intro next hnext
    obtain rfl := Option.some.inj hnext
    cases answer with
    | done => trivial
    | failed => trivial
    | held => trivial
    | autonomous => trivial
  | readBack =>
    unfold Page.tickStep
    dsimp only
    split
    · exact h.enter (by simp)
    · apply h.enter
      intro next hnext
      cases hnext
      trivial
  | release claim =>
    unfold Page.tickStep
    dsimp only
    split
    · exact h.enter (by simp)
    · -- What is given back is no attempt any more.
      exact ⟨h.live, fits_release h.fits s.now, past_release h.past, by simp⟩
  | record outcome =>
    unfold Page.tickStep
    dsimp only
    split
    · exact h.enter (by simp)
    · have hnotes := notes_outcome outcome
      exact ⟨h.live, hnotes.fits h.fits, hnotes.past h.past, by simp⟩

theorem Page.Ok.happens (h : s.Ok) {event : Event} (hstep : s.happens event = some t) : t.Ok := by
  cases event with
  | list internal =>
    simp only [Page.happens] at hstep
    split at hstep
    · cases hstep
      apply h.enter
      intro next hnext
      cases hnext
      exact h.live
    · cases hstep
  | tick answer =>
    obtain ⟨tick, htick, rfl⟩ := Option.map_eq_some_iff.1 hstep
    exact h.tickStep (h.tick tick htick) answer
  | crash =>
    cases hstep
    exact h.enter (by simp)
  | decline =>
    cases hstep
    refine ⟨h.live, notes_denial.fits h.fits, notes_denial.past h.past, ?_⟩
    intro tick htick
    exact (h.tick tick htick).mono (notes_denial.keepsBudget s.row)
  | redraft =>
    cases hstep
    refine ⟨h.live, fits_reset h.fits s.now, past_reset h.past, ?_⟩
    intro tick htick
    exact (h.tick tick htick).mono (keepsBudget_reset s.row s.now)
  | edit summaryHash =>
    simp only [Page.happens] at hstep
    split at hstep
    next hne =>
      cases hstep
      exact ⟨hne, h.fits, h.past, h.tick⟩
    · cases hstep
  | wait time =>
    cases hstep
    refine ⟨h.live, h.fits, ?_, h.tick⟩
    intro r hr
    exact (h.past r hr).trans (Int.le_add_of_nonneg_right (Int.natCast_nonneg time))

theorem Page.Ok.execute (h : s.Ok) (execution : Execution) (resolves : Bool) :
    (execute s execution resolves).1.Ok := by
  cases execution with
  | send =>
    cases resolves with
    | true => exact ⟨h.live, h.fits, h.past, h.tick⟩
    | false => exact h
  | record =>
    cases resolves with
    | true =>
      refine ⟨h.live, fits_recordSent h.fits s.now, past_recordSent s.row s.now, ?_⟩
      intro tick htick
      exact (h.tick tick htick).mono (keepsBudget_recordSent s.row s.now)
    | false => exact ⟨h.live, h.fits, h.past, h.tick⟩

/-! ## Section 3: Sent is sent -/

theorem sent_tickStep (h : Sent s.row) (tick : Tick) (answer : TickAnswer) :
    Sent (s.tickStep tick answer).row := by
  unfold Page.tickStep
  cases tick with
  | claim summaryHash internal =>
    dsimp only
    rw [claimMeeting_sent h]
    split
    · exact h
    · exact h
  | adopt summaryHash =>
    dsimp only
    split
    · exact h
    · show Sent (adoptHash s.row summaryHash)
      rw [adoptHash_sent h]
      exact h
  | precheck claim => exact h
  | compose claim => exact h
  | gate claim =>
    cases answer with
    | done => exact h
    | failed => exact h
    | held => exact h
    | autonomous => exact h
  | turn claim => exact h
  | readBack =>
    dsimp only
    split
    · exact h
    · exact h
  | release claim =>
    dsimp only
    split
    · exact h
    · show Sent (releaseClaim s.row s.now)
      rw [releaseClaim_sent h]
      exact h
  | record outcome =>
    dsimp only
    split
    · exact h
    · exact (notes_outcome outcome).keepsSent h

theorem sent_happens (h : Sent s.row) {event : Event} (hstep : s.happens event = some t) :
    Sent t.row := by
  cases event with
  | list internal =>
    simp only [Page.happens] at hstep
    split at hstep
    · cases hstep
      exact h
    · cases hstep
  | tick answer =>
    obtain ⟨tick, -, rfl⟩ := Option.map_eq_some_iff.1 hstep
    exact sent_tickStep h tick answer
  | crash =>
    cases hstep
    exact h
  | decline =>
    cases hstep
    exact notes_denial.keepsSent h
  | redraft =>
    cases hstep
    show Sent (resetClaimForRedraft s.row s.now).1
    rw [resetClaimForRedraft_sent h]
    exact h
  | edit summaryHash =>
    simp only [Page.happens] at hstep
    split at hstep
    · cases hstep
      exact h
    · cases hstep
  | wait time =>
    cases hstep
    exact h

theorem sent_execute (h : Sent s.row) (execution : Execution) (resolves : Bool) :
    Sent (execute s execution resolves).1.row := by
  cases execution with
  | send =>
    cases resolves with
    | true => exact h
    | false => exact h
  | record =>
    cases resolves with
    | true => exact sent_recordSent s.row s.now
    | false => exact h

/-! ## Section 4: Mails -/

/-- An execution sends its mail while the row does not say sent and no other execution is on its
    way to `recordSent`, which is neither cut off nor fails. -/
def Recorded (s : Page) (execution : Execution) (answer : Option Bool) : Prop :=
  match execution with
  | .send => answer = some true → getOutcome s.row ≠ some .sent ∧ s.leaving = 0
  | .record => answer = some true

instance (s : Page) : ∀ execution answer, Decidable (Recorded s execution answer)
  | .send, answer =>
      inferInstanceAs (Decidable (answer = some true → getOutcome s.row ≠ some .sent ∧ s.leaving = 0))
  | .record, answer => inferInstanceAs (Decidable (answer = some true))

structure Page.OneMail (s : Page) : Prop where
  atMost : s.mails ≤ 1
  none : ¬Sent s.row → s.leaving = 0 → s.mails = 0

/-- A step that lets no mail out and takes no sent back. -/
theorem Page.OneMail.quiet (h : s.OneMail) (hmails : t.mails = s.mails)
    (hleaving : t.leaving = s.leaving) (hsent : Sent s.row → Sent t.row) : t.OneMail := by
  refine ⟨hmails ▸ h.atMost, ?_⟩
  intro hnot hzero
  rw [hmails]
  apply h.none
  · exact fun hs => hnot (hsent hs)
  · rw [← hleaving]
    exact hzero

theorem tickStep_mails (s : Page) (tick : Tick) (answer : TickAnswer) :
    (s.tickStep tick answer).mails = s.mails ∧ (s.tickStep tick answer).leaving = s.leaving := by
  unfold Page.tickStep
  cases tick with
  | claim summaryHash internal =>
    dsimp only
    split
    · exact ⟨rfl, rfl⟩
    · split
      · exact ⟨rfl, rfl⟩
      · exact ⟨rfl, rfl⟩
  | precheck claim => exact ⟨rfl, rfl⟩
  | compose claim => exact ⟨rfl, rfl⟩
  | gate claim =>
    cases answer with
    | done => exact ⟨rfl, rfl⟩
    | failed => exact ⟨rfl, rfl⟩
    | held => exact ⟨rfl, rfl⟩
    | autonomous => exact ⟨rfl, rfl⟩
  | turn claim => exact ⟨rfl, rfl⟩
  | adopt summaryHash =>
    dsimp only
    split
    · exact ⟨rfl, rfl⟩
    · exact ⟨rfl, rfl⟩
  | readBack =>
    dsimp only
    split
    · exact ⟨rfl, rfl⟩
    · exact ⟨rfl, rfl⟩
  | release claim =>
    dsimp only
    split
    · exact ⟨rfl, rfl⟩
    · exact ⟨rfl, rfl⟩
  | record outcome =>
    dsimp only
    split
    · exact ⟨rfl, rfl⟩
    · exact ⟨rfl, rfl⟩

theorem Page.OneMail.happens (h : s.OneMail) {event : Event} (hstep : s.happens event = some t) :
    t.OneMail := by
  have hsent : Sent s.row → Sent t.row := fun hs => sent_happens hs hstep
  cases event with
  | list internal =>
    simp only [Page.happens] at hstep
    split at hstep
    · cases hstep
      exact h.quiet rfl rfl hsent
    · cases hstep
  | tick answer =>
    obtain ⟨tick, -, rfl⟩ := Option.map_eq_some_iff.1 hstep
    obtain ⟨hmails, hleaving⟩ := tickStep_mails s tick answer
    exact h.quiet hmails hleaving hsent
  | crash =>
    cases hstep
    exact h.quiet rfl rfl hsent
  | decline =>
    cases hstep
    exact h.quiet rfl rfl hsent
  | redraft =>
    cases hstep
    by_cases hreset : (resetClaimForRedraft s.row s.now).2 = true
    · refine ⟨?_, ?_⟩
      · simp [hreset]
      · simp [hreset]
    · refine h.quiet ?_ rfl hsent
      simp [hreset]
  | edit summaryHash =>
    simp only [Page.happens] at hstep
    split at hstep
    · cases hstep
      exact h.quiet rfl rfl hsent
    · cases hstep
  | wait time =>
    cases hstep
    exact h.quiet rfl rfl hsent

theorem Page.OneMail.execute (h : s.OneMail) {execution : Execution} {resolves : Bool}
    (hrecorded : Recorded s execution (some resolves)) :
    (execute s execution resolves).1.OneMail := by
  cases execution with
  | send =>
    cases resolves with
    | true =>
      obtain ⟨hnot, hleaving⟩ := hrecorded rfl
      have hzero : s.mails = 0 := h.none hnot hleaving
      refine ⟨?_, ?_⟩
      · show s.mails + 1 ≤ 1
        omega
      · intro _ hleft
        cases hleft
    | false => exact h
  | record =>
    obtain rfl := Option.some.inj hrecorded
    refine ⟨h.atMost, ?_⟩
    intro hnot
    exact absurd (sent_recordSent s.row s.now) hnot

/-! ## Section 5: Versions -/

/-- A decline meets a row that says error only once the version it stores has come to its
    send-turn, and while no tick holds a claim whose send-turn is to come. -/
def DeclinedAfterTurn (s : Requests.State Page Execution) :
    Requests.Label Execution Bool Event → Prop
  | .happen .decline => ∀ r ∈ s.shared.row, r.outcome = .error →
      r.summaryHash = s.shared.passed ∧ ∀ tick ∈ s.shared.tick, tick.waits = false
  | _ => True

instance (s : Requests.State Page Execution) : ∀ label, Decidable (DeclinedAfterTurn s label)
  | .happen .decline =>
      inferInstanceAs (Decidable (∀ r ∈ s.shared.row, r.outcome = .error →
        r.summaryHash = s.shared.passed ∧ ∀ tick ∈ s.shared.tick, tick.waits = false))
  | .happen (.list _) | .happen (.tick _) | .happen .crash | .happen .redraft
  | .happen (.edit _) | .happen (.wait _) | .call _ _ | .step _ _ | .drop _ => .isTrue trivial

/-- No card of the claim has been answered. -/
def Row.Undecided (r : Row) : Prop := r.outcome = .error ∨ r.outcome = .sent

theorem Row.Undecided.not_carded {r : Row} (h : r.Undecided) : r.carded = false := by
  rcases h with h | h
  · simp [Row.carded, h]
  · simp [Row.carded, h]

/-- The version that a tick is about, against the one that the row stores. -/
def TickSeen (row : Option Row) (passed : Option Hash) : Tick → Prop
  | .claim _ _ | .adopt _ | .readBack | .record .error | .record .skipped => True
  | .precheck claim | .compose claim | .gate claim | .release claim =>
      ∃ r, row = some r ∧ r.summaryHash = some claim.summaryHash ∧ r.Undecided
  | .turn _ | .record .queued => ∃ r, row = some r ∧ r.summaryHash = passed
  | .record .denied | .record .sent => False

/-- The row stores what it stored. A row without an answer to its card is left without one, unless
    no tick waits. -/
theorem TickSeen.mono {row row' : Option Row} {passed : Option Hash} {tick : Tick}
    (h : TickSeen row passed tick)
    (hstores : ∀ r, row = some r → ∃ r', row' = some r' ∧ r'.summaryHash = r.summaryHash ∧
      (tick.waits = true → r.Undecided → r'.Undecided)) : TickSeen row' passed tick := by
  have hwaits : ∀ claim : Claim, tick.waits = true →
      (∃ r, row = some r ∧ r.summaryHash = some claim.summaryHash ∧ r.Undecided) →
        ∃ r, row' = some r ∧ r.summaryHash = some claim.summaryHash ∧ r.Undecided := by
    rintro claim htick ⟨r, hr, hhash, hundecided⟩
    obtain ⟨r', hr', hsame, hkept⟩ := hstores r hr
    exact ⟨r', hr', hsame.trans hhash, hkept htick hundecided⟩
  have hpassed : (∃ r, row = some r ∧ r.summaryHash = passed) →
      ∃ r, row' = some r ∧ r.summaryHash = passed := by
    rintro ⟨r, hr, hhash⟩
    obtain ⟨r', hr', hsame, -⟩ := hstores r hr
    exact ⟨r', hr', hsame.trans hhash⟩
  cases tick with
  | claim summaryHash internal => trivial
  | adopt summaryHash => trivial
  | precheck claim => exact hwaits claim rfl h
  | compose claim => exact hwaits claim rfl h
  | gate claim => exact hwaits claim rfl h
  | turn claim => exact hpassed h
  | readBack => trivial
  | release claim => exact hwaits claim rfl h
  | record outcome =>
    cases outcome with
    | queued => exact hpassed h
    | skipped => trivial
    | error => trivial
    | denied => exact h
    | sent => exact h

/-- A card that waits for an answer or was declined is of the version last let through. -/
def CardSeen (row : Option Row) (passed : Option Hash) : Prop :=
  ∀ r, row = some r → r.carded = true → r.summaryHash = passed

structure Page.Seen (s : Page) : Prop where
  card : CardSeen s.row s.passed
  tick : ∀ tick, s.tick = some tick → TickSeen s.row s.passed tick

theorem Page.Seen.enter (h : s.Seen) {tick : Option Tick}
    (htick : ∀ next ∈ tick, TickSeen s.row s.passed next) : (s.enter tick).Seen :=
  ⟨h.card, htick⟩

theorem cardSeen_release {passed : Option Hash} (h : CardSeen row passed) (now : Time) :
    CardSeen (releaseClaim row now) passed := by
  intro r hr hcarded
  obtain ⟨r', hr', rfl⟩ := Option.map_eq_some_iff.1 hr
  split at hcarded
  next herror => simp [Row.carded, herror] at hcarded
  next herror =>
    rw [if_neg herror]
    exact h r' hr' hcarded

theorem cardSeen_outcome {passed : Option Hash} {outcome : FollowupOutcome}
    (htick : TickSeen row passed (.record outcome)) : CardSeen (recordOutcome row outcome) passed := by
  intro r hr hcarded
  obtain ⟨r', hr', rfl⟩ := Option.map_eq_some_iff.1 hr
  split at hcarded
  next hsent =>
    rw [if_pos hsent]
    cases outcome with
    | queued =>
      obtain ⟨r, hr, hhash⟩ := htick
      obtain rfl : r = r' := Option.some.inj (hr.symm.trans hr')
      exact hhash
    | sent => cases htick
    | denied => cases htick
    | skipped => simp [Row.carded] at hcarded
    | error => simp [Row.carded] at hcarded
  next hsent =>
    have : r'.outcome = .sent := by simpa using hsent
    simp [Row.carded, this] at hcarded

theorem Page.Seen.tickStep (h : s.Seen) (hok : s.Ok) {tick : Tick}
    (htick : TickSeen s.row s.passed tick) (answer : TickAnswer) :
    (s.tickStep tick answer).Seen := by
  cases tick with
  | claim summaryHash internal =>
    unfold Page.tickStep
    dsimp only
    split
    · exact h.enter (by simp)
    · split
      next row claim hclaim =>
        obtain ⟨attempts, rfl⟩ := claimMeeting_stores hclaim
        refine ⟨?_, ?_⟩
        · rintro _ ⟨⟩ hcarded
          simp [Row.carded] at hcarded
        · intro next hnext
          cases internal with
          | true =>
            cases hnext
            trivial
          | false =>
            cases hnext
            exact ⟨_, rfl, rfl, .inl rfl⟩
      next row hclaim =>
        obtain rfl := claimMeeting_none hclaim
        refine ⟨h.card, ?_⟩
        intro next hnext
        cases hnext
        trivial
  | adopt summaryHash =>
    unfold Page.tickStep
    dsimp only
    split
    · exact h.enter (by simp)
    · refine ⟨?_, by simp⟩
      rw [adoptHash_of_fits hok.fits]
      exact h.card
  | precheck claim =>
    apply h.enter
    intro next hnext
    obtain rfl := Option.some.inj hnext
    split
    · exact htick
    · exact htick
  | compose claim =>
    apply h.enter
    intro next hnext
    obtain rfl := Option.some.inj hnext
    split
    · trivial
    · exact htick
  | gate claim =>
    -- no card of the row has been answered, so there is none to be of another version
    have hpassed : ({ s with passed := some claim.summaryHash, tick := some (.turn claim) } :
        Page).Seen := by
      obtain ⟨r, hr, hhash, hundecided⟩ := htick
      refine ⟨?_, ?_⟩
      · intro r' hr' hcarded
        obtain rfl : r = r' := Option.some.inj (hr.symm.trans hr')
        rw [hundecided.not_carded] at hcarded
        cases hcarded
      · intro next hnext
        cases hnext
        exact ⟨r, hr, hhash⟩
    cases answer with
    | failed => exact h.enter (by rintro _ ⟨⟩; trivial)
    | held => exact h.enter (by rintro _ ⟨⟩; exact htick)
    | done => exact hpassed
    | autonomous => exact hpassed
  | turn claim =>
    apply h.enter
    intro next hnext
    obtain rfl := Option.some.inj hnext
    cases answer with
    | done => exact htick
    | failed => trivial
    | held => exact htick
    | autonomous => trivial
  | readBack =>
    unfold Page.tickStep
    dsimp only
    split
    · exact h.enter (by simp)
    · apply h.enter
      intro next hnext
      cases hnext
      trivial
  | release claim =>
    unfold Page.tickStep
    dsimp only
    split
    · exact h.enter (by simp)
    · exact ⟨cardSeen_release h.card s.now, by simp⟩
  | record outcome =>
    unfold Page.tickStep
    dsimp only
    split
    · exact h.enter (by simp)
    · exact ⟨cardSeen_outcome htick, by simp⟩

/-- A decline that keeps to the condition. -/
theorem Page.Seen.decline (h : s.Seen) (hdeclined : ∀ r ∈ s.row, r.outcome = .error →
    r.summaryHash = s.passed ∧ ∀ tick ∈ s.tick, tick.waits = false) :
    ({ s with row := recordDenial s.row } : Page).Seen := by
  refine ⟨?_, ?_⟩
  · intro r hr hcarded
    obtain ⟨r', hr', rfl⟩ := Option.map_eq_some_iff.1 hr
    split
    next hpending =>
      rcases hpending with hqueued | herror
      · exact h.card r' hr' (by simp [Row.carded, hqueued])
      · exact (hdeclined r' hr' herror).1
    next hpending =>
      rw [if_neg hpending] at hcarded
      exact h.card r' hr' hcarded
  · intro tick htick
    refine (h.tick tick htick).mono ?_
    intro r hr
    refine ⟨_, congrArg (Option.map _) hr, ?_, ?_⟩
    · dsimp only
      split
      · rfl
      · rfl
    · intro hwaits hundecided
      dsimp only
      have herror : r.outcome ≠ .error := by
        intro herror
        rw [(hdeclined r hr herror).2 tick htick] at hwaits
        cases hwaits
      have hsent : r.outcome = .sent := hundecided.resolve_left herror
      rw [if_neg (by simp [hsent])]
      exact hundecided

theorem Page.Seen.redraft (h : s.Seen) (mails taken : Nat) :
    ({ s with row := (resetClaimForRedraft s.row s.now).1, mails, taken } : Page).Seen := by
  have hcases : ∀ r, s.row = some r → ∃ r', (resetClaimForRedraft s.row s.now).1 = some r' ∧
      r'.summaryHash = r.summaryHash ∧ r'.Undecided := by
    intro r hr
    rw [hr]
    unfold resetClaimForRedraft
    dsimp only
    split
    · exact ⟨_, rfl, rfl, .inl rfl⟩
    next hsent => exact ⟨r, rfl, rfl, .inr (by simpa using hsent)⟩
  refine ⟨?_, ?_⟩
  · intro r' hr' hcarded
    cases hr : s.row with
    | none =>
      rw [hr] at hr'
      cases hr'
    | some r =>
      obtain ⟨r'', hr'', -, hundecided⟩ := hcases r hr
      obtain rfl : r' = r'' := Option.some.inj (hr'.symm.trans hr'')
      rw [hundecided.not_carded] at hcarded
      cases hcarded
  · intro tick htick
    refine (h.tick tick htick).mono ?_
    intro r hr
    obtain ⟨r', hr', hhash, hundecided⟩ := hcases r hr
    exact ⟨r', hr', hhash, fun _ _ => hundecided⟩

theorem Page.Seen.happens (h : s.Seen) (hok : s.Ok) {event : Event}
    (hdeclined : event = .decline → ∀ r ∈ s.row, r.outcome = .error →
      r.summaryHash = s.passed ∧ ∀ tick ∈ s.tick, tick.waits = false)
    (hstep : s.happens event = some t) : t.Seen := by
  cases event with
  | list internal =>
    simp only [Page.happens] at hstep
    split at hstep
    · cases hstep
      apply h.enter
      intro next hnext
      cases hnext
      trivial
    · cases hstep
  | tick answer =>
    obtain ⟨tick, htick, rfl⟩ := Option.map_eq_some_iff.1 hstep
    exact h.tickStep hok (h.tick tick htick) answer
  | crash =>
    cases hstep
    exact h.enter (by simp)
  | decline =>
    cases hstep
    exact h.decline (hdeclined rfl)
  | redraft =>
    cases hstep
    exact h.redraft _ _
  | edit summaryHash =>
    simp only [Page.happens] at hstep
    split at hstep
    · cases hstep
      exact ⟨h.card, h.tick⟩
    · cases hstep
  | wait time =>
    cases hstep
    exact ⟨h.card, h.tick⟩

theorem Page.Seen.execute (h : s.Seen) (execution : Execution) (resolves : Bool) :
    (execute s execution resolves).1.Seen := by
  cases execution with
  | send =>
    cases resolves with
    | true => exact ⟨h.card, h.tick⟩
    | false => exact h
  | record =>
    cases resolves with
    | false => exact ⟨h.card, h.tick⟩
    | true =>
      refine ⟨?_, ?_⟩
      · intro r hr hcarded
        have hsent : r.outcome = .sent := by
          have hrow : getOutcome (some r) = some .sent := hr ▸ sent_recordSent s.row s.now
          exact Option.some.inj hrow
        simp [Row.carded, hsent] at hcarded
      · intro tick htick
        refine (h.tick tick htick).mono ?_
        intro r hr
        refine ⟨{ r with outcome := .sent, processedAt := s.now }, ?_, rfl, fun _ _ => .inr rfl⟩
        show recordSent s.row s.now = _
        rw [hr]
        rfl

theorem seen_next {s t : Requests.State Page Execution}
    {label : Requests.Label Execution Bool Event} (h : s.shared.Ok ∧ s.shared.Seen)
    (hdeclined : DeclinedAfterTurn s label) (hnext : followup.next s label = some t) :
    t.shared.Ok ∧ t.shared.Seen := by
  obtain ⟨hok, hseen⟩ := h
  rcases Requests.next_shared hnext with hsame |
    ⟨id, resolves, execution, left, -, -, hstep⟩ | ⟨event, rfl, hhappens⟩
  · rw [hsame]
    exact ⟨hok, hseen⟩
  · obtain hpage : (execute s.shared execution resolves).1 = t.shared :=
      congrArg Prod.fst (Option.some.inj hstep)
    rw [← hpage]
    exact ⟨hok.execute execution resolves, hseen.execute execution resolves⟩
  · refine ⟨hok.happens hhappens, hseen.happens hok ?_ hhappens⟩
    rintro rfl
    exact hdeclined

/-! ## Section 6: Runs -/

theorem executions_ok : executions.Keeps (fun _ _ _ => True) Page.Ok (fun _ _ => True)
    (fun s t => Sent s.row → Sent t.row) where
  refl _ h := h
  trans _ _ _ hst htu h := htu (hst h)
  stable := by
    intros
    trivial
  begins := by
    intros
    trivial
  step := by
    intro s execution resolves t left h _ _ hstep
    obtain rfl : (execute s execution resolves).1 = t := congrArg Prod.fst (Option.some.inj hstep)
    exact ⟨h.execute execution resolves, fun hs => sent_execute hs execution resolves,
      fun _ _ => trivial⟩
  happens s event t h hstep := ⟨h.happens hstep, fun hs => sent_happens hs hstep⟩

theorem executions_oneMail : executions.Keeps Recorded Page.OneMail (fun _ _ => True)
    (fun _ _ => True) where
  refl _ := trivial
  trans := by
    intros
    trivial
  stable := by
    intros
    trivial
  begins := by
    intros
    trivial
  step := by
    intro s execution resolves t left h _ hrecorded hstep
    obtain rfl : (execute s execution resolves).1 = t := congrArg Prod.fst (Option.some.inj hstep)
    exact ⟨h.execute hrecorded, trivial, fun _ _ => trivial⟩
  happens s event t h hstep := ⟨h.happens hstep, trivial⟩

/-- What a later tick finds after the release of a claim: the same attempt again, or the first one
    after a redraft. -/
def ReleasedClaimable (u : Requests.State Page Execution) : Prop :=
  ∀ claim r v, u.shared.tick = some (.release claim) → u.shared.row = some r →
    r.outcome ≠ .sent → followup.next u (.happen (.tick .done)) = some v →
      ∀ now summaryHash, u.shared.now ≤ now →
        ∃ row c, claimMeeting v.shared.row now summaryHash = (row, some c) ∧
          (c.attempt = claim.attempt ∨ r.attempts = 0 ∧ c.attempt = 1)

/-- A page that reads otherwise than what last came to a send-turn can be claimed, whether it is
    queued, declined or held. A mail is out or nobody is to get one where this does not hold. -/
def CorrectedClaimable (u : Requests.State Page Execution) : Prop :=
  ∀ r, u.shared.tick = none → u.shared.row = some r → r.outcome ≠ .sent →
    r.outcome ≠ .skipped → u.shared.passed ≠ some u.shared.live → r.attempts < MAX_ATTEMPTS →
      ∀ now, u.shared.now + RETRY_ELIGIBLE_AFTER < now →
        ∃ row c, claimMeeting u.shared.row now u.shared.live = (row, some c)

/-- What a state `t` keeps to, reached from `s`, and a later state `u`. -/
structure FollowupSafe (s t u : Requests.State Page Execution)
    (ls ms : List (Requests.Label Execution Bool Event)) : Prop where
  /-- One mail leaves between two redrafts, where each is recorded before the next. -/
  once : followup.AllSteps (Requests.Meets Recorded) s ls → t.shared.mails ≤ 1
  sent : Sent t.shared.row → Sent u.shared.row ∧
    ∀ now summaryHash, claimMeeting u.shared.row now summaryHash = (u.shared.row, none)
  attempts : u.shared.taken ≤ MAX_ATTEMPTS
  /-- Nothing is lost where no decline strikes out a claim on its way to the send-turn. -/
  claimable : followup.AllSteps DeclinedAfterTurn s (ls ++ ms) →
    ReleasedClaimable u ∧ CorrectedClaimable u
  /-- A card is replaced only where the page is known to have changed. -/
  reclaimed : ∀ r now summaryHash row c, u.shared.row = some r → r.carded = true →
    claimMeeting u.shared.row now summaryHash = (row, some c) →
      ∃ stored, r.summaryHash = some stored ∧ stored ≠ [] ∧ stored ≠ summaryHash
  /-- A page that no longer reads as it was carded can be claimed at once. -/
  corrected : ∀ r, u.shared.row = some r → r.carded = true →
    r.summaryHash ≠ some u.shared.live → r.attempts < MAX_ATTEMPTS →
      ∀ now, ∃ row c, claimMeeting u.shared.row now u.shared.live = (row, some c)

theorem taken_le {row : Option Row} {taken : Nat} (h : Fits row taken) : taken ≤ MAX_ATTEMPTS := by
  cases row with
  | none =>
    rw [show taken = 0 from h]
    exact Nat.zero_le _
  | some r => exact h.taken.trans h.attempts

/-- A row that says error can be claimed once it is old enough. -/
theorem claimMeeting_error {r : Row} {now : Time} (summaryHash : Hash) (herror : r.outcome = .error)
    (hattempts : r.attempts < MAX_ATTEMPTS) (hpast : r.processedAt < now - RETRY_ELIGIBLE_AFTER) :
    ∃ row c, claimMeeting (some r) now summaryHash = (row, some c) ∧
      c.attempt = r.attempts + 1 := by
  simp only [claimMeeting, Row.retriable, herror, hattempts, hpast, decide_true, Bool.and_self,
    true_or, and_self, if_true]
  exact ⟨_, _, rfl, rfl⟩

theorem claimMeeting_released {claim : ClaimResult} {r : Row} {now later : Time}
    (summaryHash : Hash) (herror : r.outcome = .error) (hpos : 1 ≤ claim.attempt)
    (hle : claim.attempt ≤ MAX_ATTEMPTS) (hattempts : r.attempts = claim.attempt ∨ r.attempts = 0)
    (hlater : now ≤ later) :
    ∃ row c, claimMeeting (releaseClaim (some r) now) later summaryHash = (row, some c) ∧
      (c.attempt = claim.attempt ∨ r.attempts = 0 ∧ c.attempt = 1) := by
  have hrelease : releaseClaim (some r) now = some { r with
      attempts := r.attempts - 1, processedAt := now - RETRY_ELIGIBLE_AFTER - 1000 } := by
    simp [releaseClaim, herror]
  have hfree : r.attempts - 1 < MAX_ATTEMPTS := by omega
  have hpast : now - RETRY_ELIGIBLE_AFTER - 1000 < later - RETRY_ELIGIBLE_AFTER := by linarith
  rw [hrelease]
  obtain ⟨row, c, hclaim, hattempt⟩ := claimMeeting_error (r := { r with
    attempts := r.attempts - 1, processedAt := now - RETRY_ELIGIBLE_AFTER - 1000 })
    summaryHash herror hfree hpast
  refine ⟨row, c, hclaim, ?_⟩
  have : c.attempt = r.attempts - 1 + 1 := hattempt
  omega

theorem claimMeeting_changed {r : Row} {now : Time} {summaryHash : Hash} (hcarded : r.carded = true)
    (hknown : r.Known) (hchanged : r.summaryHash ≠ some summaryHash)
    (hattempts : r.attempts < MAX_ATTEMPTS) :
    ∃ row c, claimMeeting (some r) now summaryHash = (row, some c) := by
  obtain ⟨stored, hstored, hne⟩ := hknown
  have hdiffers : r.changed summaryHash = true := by
    refine Row.changed_iff.2 ⟨stored, hstored, hne, ?_⟩
    rintro rfl
    exact hchanged hstored
  simp only [claimMeeting, hattempts, hcarded, hdiffers, and_self, or_true, if_true]
  exact ⟨_, _, rfl⟩

theorem claimMeeting_carded {r : Row} {row : Option Row} {now : Time} {summaryHash : Hash}
    {claim : ClaimResult} (hcarded : r.carded = true)
    (hclaim : claimMeeting (some r) now summaryHash = (row, some claim)) :
    ∃ stored, r.summaryHash = some stored ∧ stored ≠ [] ∧ stored ≠ summaryHash := by
  have hnot : r.retriable now = false := by
    unfold Row.carded at hcarded
    unfold Row.retriable
    cases hr : r.outcome with
    | error => simp [hr] at hcarded
    | sent => simp
    | queued => simp
    | skipped => simp
    | denied => simp
  unfold claimMeeting at hclaim
  dsimp only at hclaim
  split at hclaim
  next hwhy =>
    rcases hwhy.2 with hretry | ⟨-, hchanged⟩
    · rw [hnot] at hretry
      cases hretry
    · exact Row.changed_iff.1 hchanged
  · cases hclaim

theorem Page.Ok.corrected (h : s.Ok) {r : Row} (hrow : s.row = some r) (hcarded : r.carded = true)
    (hchanged : r.summaryHash ≠ some s.live) (hattempts : r.attempts < MAX_ATTEMPTS) (now : Time) :
    ∃ row c, claimMeeting s.row now s.live = (row, some c) := by
  have hfits : r.Fits s.taken := by
    have := h.fits
    rwa [hrow] at this
  have hnot : r.outcome ≠ .sent := by
    intro hsent
    simp [Row.carded, hsent] at hcarded
  rw [hrow]
  exact claimMeeting_changed hcarded (hfits.known hnot) hchanged hattempts

/-- Where the tick releases its claim, the row still says error or the mail is out. -/
theorem releasedClaimable {u : Requests.State Page Execution} (hok : u.shared.Ok)
    (hseen : u.shared.Seen) : ReleasedClaimable u := by
  intro claim r v htick hrow hsent hnext now summaryHash hlater
  obtain ⟨hpos, hle, r', hr', hattempts⟩ := hok.tick _ htick
  obtain rfl : r = r' := Option.some.inj (hrow.symm.trans hr')
  obtain ⟨r'', hr'', -, hundecided⟩ := hseen.tick _ htick
  obtain rfl : r = r'' := Option.some.inj (hrow.symm.trans hr'')
  obtain ⟨page, hpage, rfl⟩ := Option.map_eq_some_iff.1 hnext
  have hstep : u.shared.tickStep (.release claim) .done = page := by
    simpa [executions, Page.happens, htick] using hpage
  subst hstep
  show ∃ row c, claimMeeting (releaseClaim u.shared.row u.shared.now) now summaryHash = _ ∧ _
  rw [hrow]
  exact claimMeeting_released summaryHash (hundecided.resolve_right hsent) hpos hle hattempts hlater

theorem correctedClaimable {u : Requests.State Page Execution} (hok : u.shared.Ok)
    (hseen : u.shared.Seen) : CorrectedClaimable u := by
  intro r _ hrow hsent hskipped hpassed hattempts now hlater
  have hpast : r.processedAt < now - RETRY_ELIGIBLE_AFTER := by
    have := hok.past r hrow
    linarith
  have hcard : r.carded = true →
      ∃ row c, claimMeeting u.shared.row now u.shared.live = (row, some c) := by
    intro hcarded
    apply hok.corrected hrow hcarded _ hattempts
    rw [hseen.card r hrow hcarded]
    exact hpassed
  cases houtcome : r.outcome with
  | sent => exact absurd houtcome hsent
  | skipped => exact absurd houtcome hskipped
  | queued => exact hcard (by simp [Row.carded, houtcome])
  | denied => exact hcard (by simp [Row.carded, houtcome])
  | error =>
    rw [hrow]
    obtain ⟨row, c, hclaim, -⟩ := claimMeeting_error u.shared.live houtcome hattempts hpast
    exact ⟨row, c, hclaim⟩

theorem page_fresh_ok {s : Page} (h : ∃ live now, live ≠ [] ∧ s = Page.fresh live now) :
    s.Ok ∧ s.OneMail ∧ s.Seen := by
  obtain ⟨live, now, hlive, rfl⟩ := h
  refine ⟨⟨hlive, rfl, ?_, by simp [Page.fresh]⟩, ⟨Nat.zero_le _, fun _ _ => rfl⟩, ?_,
    by simp [Page.fresh]⟩
  · rintro _ ⟨⟩
  · rintro _ ⟨⟩

def meeting : Requests.State Page Execution := ⟨Page.fresh ['a'] 0, fun _ => none⟩

/-- A tick claims the page and leaves a card waiting. -/
def card : List (Requests.Label Execution Bool Event) :=
  .happen (.list false) :: List.replicate 6 (.happen (.tick .done))

/-- A tick claims the page, and the gate holds it back before anything is composed. -/
def held : List (Requests.Label Execution Bool Event) :=
  [.happen (.list false), .happen (.tick .done), .happen (.tick .held), .happen (.tick .done)]

/-- An approved card. -/
def approve (id : Nat) : List (Requests.Label Execution Bool Event) :=
  [.call id .send, .step id true, .step id true]

/-- Held back, carded, declined, corrected, carded again and approved. -/
def correctedCard : List (Requests.Label Execution Bool Event) :=
  held ++ card ++ [.happen .decline, .happen (.edit ['b'])] ++ card ++ approve 0

end Lares.Meetings
