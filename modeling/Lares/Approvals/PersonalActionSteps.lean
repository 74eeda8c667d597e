import Lares.Approvals.PersonalAction

/-! # What a personal action's operations can do

    One rule for each statement, and from them one lemma for each operation:
    what its UPDATEs are, and what it has done to the three tables when it
    commits. The invariants of `PersonalActionSafety` only look at `Effect`.

    Nothing here depends on what the table accepts: with every UPDATE taken,
    each one is still one that the trigger and the CHECKs take.
-/

namespace Lares.Approvals

variable {codec : ActionCodec} {accepts : ActionRow → ActionRow → Bool} {db db' : Db}

/-! ## Section 1: Rows -/

/-- The UPDATEs of a row. -/
inductive RowStep (codec : ActionCodec) (r : ActionRow) : ActionRow → Prop
  /-- The approval is attached, perhaps again. -/
  | attach (callId requestId : Text) (h : r.state = .awaitingApproval ∨
      (r.state = .awaitingDispatch ∧ r.approvalCallId = some callId ∧
        r.approvalRequestId = some requestId)) : RowStep codec r (r.attached callId requestId)
  /-- Its time is over. -/
  | expire (h : r.state = .awaitingDispatch) : RowStep codec r (r.move .expired)
  /-- An attempt takes it. -/
  | claim (attempt : Text) (now : Time) (h : r.state = .awaitingDispatch) :
      RowStep codec r (r.claim attempt now)
  /-- The attempt has a receipt. -/
  | settle (receipt : Receipt) (now : Time) (h : r.state = .claimed)
      (hreceipt : codec.acceptsReceipt receipt = true) : RowStep codec r (r.settled receipt now)
  /-- It is cancelled, perhaps again. -/
  | cancel (h : r.state = .awaitingApproval ∨ r.state = .awaitingDispatch ∨ r.state = .cancelled) :
      RowStep codec r (r.move .cancelled)

/-- What the CHECKs say. -/
structure Checked (codec : ActionCodec) (r : ActionRow) : Prop where
  /-- An approval has both of its ids. -/
  linked : r.approvalCallId.isNone = r.approvalRequestId.isNone
  /-- Nothing is dispatched without one. -/
  approved : r.state = .awaitingDispatch ∨ r.state.attempted = true → r.approvalCallId.isSome = true
  /-- An attempt has its time. -/
  claim : r.attemptId.isNone = r.claimedAt.isNone
  /-- An attempt is of a row that was claimed. -/
  attempt : r.state.attempted = r.attemptId.isSome
  /-- A terminal row has its time. -/
  completed : r.state.terminal = r.completedAt.isSome
  /-- So has a receipt. -/
  receipt : r.receipt.isNone = r.completedAt.isNone
  /-- A receipt says what the state says. -/
  receiptOk : ∀ receipt, r.receipt = some receipt →
    receipt.state = r.state ∧ codec.acceptsReceipt receipt = true

theorem checks_iff {r : ActionRow} : r.checks codec = true ↔ Checked codec r := by
  unfold ActionRow.checks
  simp only [Bool.and_eq_true, Bool.or_eq_true, beq_iff_eq, Bool.not_eq_true', Option.all_eq_true]
  constructor
  · rintro ⟨⟨⟨⟨⟨⟨hlinked, happroved⟩, hclaim⟩, hattempt⟩, hcompleted⟩, hreceipt⟩, hok⟩
    refine ⟨hlinked, ?_, hclaim, hattempt, hcompleted, hreceipt, hok⟩
    intro hstate
    refine happroved.resolve_left ?_
    rw [Bool.or_eq_false_iff, beq_eq_false_iff_ne]
    rintro ⟨hne, hfalse⟩
    exact hstate.elim hne (by rw [hfalse]; exact nofun)
  · intro h
    refine ⟨⟨⟨⟨⟨⟨h.linked, ?_⟩, h.claim⟩, h.attempt⟩, h.completed⟩, h.receipt⟩, h.receiptOk⟩
    by_cases hstate : r.state = .awaitingDispatch ∨ r.state.attempted = true
    · exact .inr (h.approved hstate)
    · rw [not_or, Bool.not_eq_true] at hstate
      left
      rw [Bool.or_eq_false_iff, beq_eq_false_iff_ne]
      exact hstate

/-- What is true of a row in the table. -/
structure RowOk (codec : ActionCodec) (r : ActionRow) : Prop extends Checked codec r where
  /-- Before the approval there is no call of it. -/
  unlinked : r.state = .awaitingApproval → r.approvalCallId = none

theorem rowOk_fresh (actionId : Text) (s : Selection) (payload : PersonalMailPayload) (now : Time) :
    RowOk codec (freshAction codec actionId s payload now) where
  toChecked := checks_iff.1 rfl
  unlinked := fun _ => rfl

/-- No attempt and no receipt. -/
structure Unclaimed (r : ActionRow) : Prop where
  attemptId : r.attemptId = none
  claimedAt : r.claimedAt = none
  receipt : r.receipt = none
  completedAt : r.completedAt = none

theorem terminal_of_unattempted {state : ActionState} (h : state.attempted = false) :
    state.terminal = false := by
  cases state <;> first | rfl | cases h

theorem RowOk.unclaimed {r : ActionRow} (h : RowOk codec r) (hstate : r.state.attempted = false) :
    Unclaimed r := by
  have hattempt : r.attemptId = none := by
    simpa [hstate] using h.attempt.symm
  have hcompleted : r.completedAt = none := by
    simpa [terminal_of_unattempted hstate] using h.completed.symm
  exact ⟨hattempt, by simpa [hattempt] using h.claim.symm, by simpa [hcompleted] using h.receipt,
    hcompleted⟩

/-- Before the claim, only the approval's columns have something to say. -/
theorem Unclaimed.checked {r : ActionRow} (h : Unclaimed r) (hstate : r.state.attempted = false)
    (hlinked : r.approvalCallId.isNone = r.approvalRequestId.isNone)
    (happroved : r.state = .awaitingDispatch → r.approvalCallId.isSome = true) :
    Checked codec r where
  linked := hlinked
  approved := by
    rintro (hawaits | hattempted)
    · exact happroved hawaits
    · rw [hstate] at hattempted
      cases hattempted
  claim := by rw [h.attemptId, h.claimedAt]; rfl
  attempt := by rw [hstate, h.attemptId]; rfl
  completed := by rw [terminal_of_unattempted hstate, h.completedAt]; rfl
  receipt := by rw [h.receipt, h.completedAt]; rfl
  receiptOk := by
    intro receipt hreceipt
    rw [h.receipt] at hreceipt
    cases hreceipt

theorem Receipt.state_terminal (receipt : Receipt) :
    receipt.state.terminal = true ∧ receipt.state.attempted = true := by
  cases receipt <;> exact ⟨rfl, rfl⟩

/-- The row after an UPDATE is one that can be there. -/
theorem rowStep_ok {r r' : ActionRow} (h : RowOk codec r) (hstep : RowStep codec r r') :
    RowOk codec r' := by
  cases hstep with
  | attach callId requestId hstate =>
    have hun : Unclaimed r := by
      refine h.unclaimed ?_
      rcases hstate with hstate | ⟨hstate, -⟩ <;> rw [hstate] <;> rfl
    have hun' : Unclaimed (r.attached callId requestId) :=
      ⟨hun.attemptId, hun.claimedAt, hun.receipt, hun.completedAt⟩
    exact ⟨hun'.checked rfl rfl fun _ => rfl, nofun⟩
  | expire hstate =>
    have hun : Unclaimed r := h.unclaimed (by rw [hstate]; rfl)
    have hun' : Unclaimed (r.move .expired) :=
      ⟨hun.attemptId, hun.claimedAt, hun.receipt, hun.completedAt⟩
    exact ⟨hun'.checked rfl h.linked nofun, nofun⟩
  | claim attempt now hstate =>
    have hun : Unclaimed r := h.unclaimed (by rw [hstate]; rfl)
    refine ⟨⟨h.linked, fun _ => h.approved (.inl hstate), rfl, rfl, ?_, h.receipt, ?_⟩, nofun⟩
    · exact (congrArg Option.isSome hun.completedAt).symm
    · intro receipt hreceipt
      exact absurd (hun.receipt.symm.trans hreceipt) nofun
  | settle receipt now hstate hreceipt =>
    obtain ⟨hterminal, hattempted⟩ := receipt.state_terminal
    have hclaimed : r.state.attempted = true := by rw [hstate]; rfl
    refine ⟨⟨h.linked, fun _ => h.approved (.inr hclaimed), h.claim, ?_, hterminal, rfl, ?_⟩, ?_⟩
    · exact hattempted.trans (hclaimed.symm.trans h.attempt)
    · intro other hother
      cases hother
      exact ⟨rfl, hreceipt⟩
    · intro hawaiting
      rw [show receipt.state = .awaitingApproval from hawaiting] at hterminal
      cases hterminal
  | cancel hstate =>
    have hun : Unclaimed r := by
      refine h.unclaimed ?_
      rcases hstate with hstate | hstate | hstate <;> rw [hstate] <;> rfl
    have hun' : Unclaimed (r.move .cancelled) :=
      ⟨hun.attemptId, hun.claimedAt, hun.receipt, hun.completedAt⟩
    exact ⟨hun'.checked rfl h.linked nofun, nofun⟩

/-- The trigger takes every UPDATE. -/
theorem rowStep_guard {r r' : ActionRow} (h : RowOk codec r) (hstep : RowStep codec r r') :
    guardPersonalAction r r' = true := by
  have hcall : r.approvalCallId.isSome = true ∨ r.approvalCallId = none := by
    cases r.approvalCallId
    · exact .inr rfl
    · exact .inl rfl
  unfold guardPersonalAction ActionRow.sameIdentity
  cases hstep with
  | attach callId requestId hstate =>
    rcases hstate with hstate | ⟨hstate, hcall, hrequest⟩
    · simp [ActionRow.attached, hstate, h.unlinked hstate, ActionState.moves]
    · simp [ActionRow.attached, hstate, hcall, hrequest]
  | expire hstate => simp [ActionRow.move, hstate, ActionState.moves, hcall]
  | claim attempt now hstate =>
    have hun : Unclaimed r := h.unclaimed (by rw [hstate]; rfl)
    simp [ActionRow.claim, hstate, hun.attemptId, ActionState.moves, hcall]
  | settle receipt now hstate hreceipt =>
    have hnone : r.receipt = none := by
      have hcompleted : r.completedAt = none := by
        simpa [hstate, ActionState.terminal] using h.completed.symm
      simpa [hcompleted] using h.receipt
    simp [ActionRow.settled, hstate, hnone, ActionState.moves, receipt.state_terminal, hcall]
  | cancel hstate =>
    rcases hstate with hstate | hstate | hstate <;>
      simp [ActionRow.move, hstate, ActionState.moves, hcall]

/-- **Every UPDATE passes** the trigger and the CHECKs. -/
theorem rowStep_accepted {r r' : ActionRow} (h : RowOk codec r) (hstep : RowStep codec r r') :
    acceptsUpdate codec r r' = true := by
  unfold acceptsUpdate
  rw [rowStep_guard h hstep, checks_iff.2 (rowStep_ok h hstep).toChecked]
  rfl

/-! ## Section 2: What changes -/

/-- A row of `personal_actions` before and after. -/
inductive RowChange (codec : ActionCodec) : Option ActionRow → Option ActionRow → Prop
  | kept (found : Option ActionRow) : RowChange codec found found
  | updated (r r' : ActionRow) (h : RowStep codec r r') : RowChange codec (some r) (some r')
  | deleted (r : ActionRow) : RowChange codec (some r) none

/-- Asks stay, and keep what the trigger keeps. -/
def AsksKept (db db' : Db) : Prop :=
  (∀ callId a, db.approval callId = some a → ∃ a', db'.approval callId = some a' ∧
    (a.originalAuthority ≠ none → Kept a a')) ∧
  ∀ callId a', db'.approval callId = some a' → (∀ a, db.approval callId = some a → a.callId = callId) →
    a'.callId = callId

/-- The row is new, and its call was free. -/
structure Inserted (codec : ActionCodec) (actionId : Text) (s : Selection)
    (payload : PersonalMailPayload) (db db' : Db) (r : ActionRow) : Prop where
  id : r.id = actionId
  selection : r.selection = s
  hash : r.originalCallHash = codec.originalHash s
  payloadHash : r.payloadHash = codec.payloadFingerprint payload
  ciphertext : r.payloadCiphertext = codec.encrypt ⟨actionId, s, payload⟩
  ok : RowOk codec r
  state : r.state = .awaitingApproval
  /-- No row had the id. -/
  absent : db.action actionId = none
  /-- No row had the call. -/
  free : db.reserved (codec.originalHash s) = false
  /-- Nothing else changes. -/
  db : db' = Function.update (Function.update db (.call (codec.originalHash s)) true)
    (.action actionId) (some r)

/-- What a transaction does that inserts no action. -/
structure Effect (codec : ActionCodec) (db db' : Db) : Prop where
  calls : ∀ hash, db'.reserved hash = db.reserved hash
  actions : ∀ id, RowChange codec (db.action id) (db'.action id)
  asks : AsksKept db db'

theorem asksKept_of_eq (h : ∀ callId, db'.approval callId = db.approval callId) :
    AsksKept db db' := by
  refine ⟨?_, ?_⟩
  · intro callId a ha
    exact ⟨a, (h callId).trans ha, fun _ => Kept.refl a⟩
  · intro callId a' ha' hids
    exact hids a' ((h callId).symm.trans ha')

theorem effect_refl (codec : ActionCodec) (db : Db) : Effect codec db db :=
  ⟨fun _ => rfl, fun _ => .kept _, asksKept_of_eq fun _ => rfl⟩

theorem action_update (db : Db) (id : Text) (row : Option ActionRow) (other : Text) :
    Db.action (Function.update db (.action id) row) other =
      if other = id then row else db.action other := by
  by_cases h : other = id
  · subst h
    exact (Function.update_self ..).trans (if_pos rfl).symm
  · exact (Function.update_of_ne (fun heq => h (Key.action.inj heq)) ..).trans (if_neg h).symm

theorem reserved_action (db : Db) (id : Text) (row : Option ActionRow) (hash : Hash) :
    Db.reserved (Function.update db (.action id) row) hash = db.reserved hash :=
  Function.update_of_ne (fun heq => by cases heq) _ _

theorem approval_action (db : Db) (id : Text) (row : Option ActionRow) (callId : Text) :
    Db.approval (Function.update db (.action id) row) callId = db.approval callId :=
  Function.update_of_ne (fun heq => by cases heq) _ _

theorem action_approval (db : Db) (callId : Text) (row : Option Ask) (id : Text) :
    Db.action (Function.update db (.approval callId) row) id = db.action id :=
  Function.update_of_ne (fun heq => by cases heq) _ _

theorem reserved_approval (db : Db) (callId : Text) (row : Option Ask) (hash : Hash) :
    Db.reserved (Function.update db (.approval callId) row) hash = db.reserved hash :=
  Function.update_of_ne (fun heq => by cases heq) _ _

theorem approval_update (db : Db) (callId : Text) (row : Option Ask) (other : Text) :
    Db.approval (Function.update db (.approval callId) row) other =
      if other = callId then row else db.approval other := by
  by_cases h : other = callId
  · subst h
    exact (Function.update_self ..).trans (if_pos rfl).symm
  · exact (Function.update_of_ne (fun heq => h (Key.approval.inj heq)) ..).trans (if_neg h).symm

/-- An UPDATE of a row that has not changed yet. -/
theorem Effect.row (h : Effect codec db db') {r r' : ActionRow} (hr : db.action r.id = some r)
    (hstep : RowStep codec r r') :
    Effect codec db (Function.update db' (.action r.id) (some r')) where
  calls := by
    intro hash
    rw [reserved_action]
    exact h.calls hash
  actions := by
    intro id
    rw [action_update]
    split
    · next heq =>
      rw [heq, hr]
      exact .updated r r' hstep
    · exact h.actions id
  asks := by
    refine ⟨?_, ?_⟩
    · intro callId a ha
      rw [approval_action]
      exact h.asks.1 callId a ha
    · intro callId a ha hids
      rw [approval_action] at ha
      exact h.asks.2 callId a ha hids

/-- One UPDATE of a row. -/
theorem effect_update {r r' : ActionRow} (hr : db.action r.id = some r)
    (hstep : RowStep codec r r') : Effect codec db (Function.update db (.action r.id) (some r')) :=
  (effect_refl codec db).row hr hstep

/-- An ask that is written after the other tables are done. -/
theorem Effect.ask (h : Effect codec db db') {callId : Text} {a' : Ask}
    (ha' : a'.callId = callId)
    (hkept : ∀ a, db'.approval callId = some a → a.originalAuthority ≠ none → Kept a a') :
    Effect codec db (Function.update db' (.approval callId) (some a')) where
  calls := by
    intro hash
    rw [reserved_approval]
    exact h.calls hash
  actions := by
    intro id
    rw [action_approval]
    exact h.actions id
  asks := by
    refine ⟨?_, ?_⟩
    · intro other a ha
      obtain ⟨b, hb, hab⟩ := h.asks.1 other a ha
      rw [approval_update]
      split
      · next heq =>
        refine ⟨a', rfl, fun hauthority => ?_⟩
        subst heq
        have hab' := hab hauthority
        refine hab'.trans (hkept b hb ?_)
        rw [hab'.authority]
        exact hauthority
      · exact ⟨b, hb, hab⟩
    · intro other b hb hids
      rw [approval_update] at hb
      split at hb
      · next heq =>
        cases hb
        rw [heq]
        exact ha'
      · exact h.asks.2 other b hb hids

theorem guard_kept {a a' : Ask} (h : guardExactApprovalAuthority a a' = true)
    (hauthority : a.originalAuthority ≠ none) : Kept a a' := by
  obtain ⟨authority, hsome⟩ := Option.ne_none_iff_exists'.1 hauthority
  exact (guardExactApprovalAuthority_iff hsome).1 h

/-! ## Section 3: Statements -/

/-- Every UPDATE of an action is one that the table takes. -/
def Passes (codec : ActionCodec) : ∀ k : Key, Cell k → Cell k → Prop
  | .action _, some r, some r' => acceptsUpdate codec r r' = true
  | _, _, _ => True

section Rules

variable {W : ∀ k : Key, Cell k → Cell k → Prop} {Q : Db → Reply → Prop}

theorem ensures_lockAction {actionId actor : Text} {next : ActionRow → Tx}
    (h : ∀ r, db.action actionId = some r → (next r).Ensures W Q db) :
    (lockAction actionId actor next).Ensures W Q db := by
  dsimp only [lockAction, Transaction.Ensures]
  split
  · next r hr =>
    split
    · exact h r hr
    · trivial
  · trivial

theorem ensures_ask {next : Answer → Tx} (h : ∀ answer, (next answer).Ensures W Q db) :
    (Transaction.ask next : Tx).Ensures W Q db := h

theorem ensures_askMember {next : Tx} (h : next.Ensures W Q db) :
    (askMember next).Ensures W Q db := by
  refine ensures_ask fun answer => ?_
  split
  · exact h
  · trivial

theorem ensures_updateAction {old new : ActionRow} {next : Tx}
    (hold : db.action old.id = some old) (hpasses : acceptsUpdate codec old new = true)
    (h : next.Ensures (Passes codec) Q (Function.update db (.action old.id) (some new))) :
    (updateAction accepts old new next).Ensures (Passes codec) Q db := by
  unfold updateAction
  split
  · refine ⟨?_, h⟩
    rw [show db (.action old.id) = some old from hold]
    exact hpasses
  · trivial

theorem ensures_updateApproval {old new : Ask} {next : Tx}
    (h : guardExactApprovalAuthority old new = true →
      next.Ensures (Passes codec) Q (Function.update db (.approval old.callId) (some new))) :
    (updateApproval old new next).Ensures (Passes codec) Q db := by
  unfold updateApproval
  split
  · next hguard => exact ⟨trivial, h hguard⟩
  · trivial

/-- What passes is an approval of the action. -/
theorem ensures_approvalOf {r : ActionRow} {callId requestId : Text} {approvedBy : Option Text}
    {link : Bool} {policyHash : Option Text} {next : Ask → Tx}
    (h : ∀ a, db.approval callId = some a → approvalFits codec r a = true →
      (next a).Ensures W Q db) :
    (approvalOf codec r callId requestId approvedBy link policyHash next).Ensures W Q db := by
  dsimp only [approvalOf, lockApproval, Transaction.Ensures]
  split
  · trivial
  · next a ha =>
    split
    · trivial
    · next hfits =>
      simp only [Bool.or_eq_true, not_or, Bool.not_eq_true', Bool.not_eq_false] at hfits
      split
      · trivial
      · split
        · trivial
        · refine ensures_ask fun answer => ?_
          split
          · exact h a ha hfits.2
          · trivial

end Rules

theorem approvalFits_some {r : ActionRow} {a : Ask} (h : approvalFits codec r a = true) :
    a.payloadHash = r.payloadHash ∧ a.originalAuthority ≠ none := by
  unfold approvalFits at h
  simp only [Bool.and_eq_true, beq_iff_eq] at h
  refine ⟨h.1.2, ?_⟩
  intro hnone
  have hsame := h.2
  rw [hnone] at hsame
  cases hsame

/-! ## Section 4: Operations -/

/-- Rows stand under their own keys, as they can be there. -/
structure DbOk (codec : ActionCodec) (db : Db) : Prop where
  ids : ∀ id r, db.action id = some r → r.id = id
  rows : ∀ id r, db.action id = some r → RowOk codec r
  asks : ∀ callId a, db.approval callId = some a → a.callId = callId

theorem ensures_insertTx (actionId : Text) (s : Selection) (payload : PersonalMailPayload)
    (reserved : Bool) :
    (insertTx codec actionId s payload reserved).Ensures (Passes codec)
      (fun db' _ => ∃ r, Inserted codec actionId s payload db db' r) db := by
  dsimp only [insertTx]
  split
  · trivial
  · split
    · trivial
    · refine ensures_ask fun answer => ?_
      dsimp only [Transaction.Ensures]
      split
      · trivial
      · next habsent =>
        dsimp only [Transaction.Ensures]
        split
        · trivial
        · next hfree =>
          have habsent : db (.action actionId) = none := Option.not_isSome_iff_eq_none.1 habsent
          refine ⟨trivial, ?_, ?_⟩
          · have hnone : Function.update db (.call (codec.guardHash s)) true (.action actionId) =
                none := (Function.update_of_ne (fun heq => by cases heq) ..).trans habsent
            rw [hnone]
            trivial
          · rw [codec.guardHash_eq] at hfree
            refine ⟨freshAction codec actionId s payload answer.now, rfl, rfl, codec.guardHash_eq s,
              rfl, rfl, rowOk_fresh .., rfl, habsent, (Bool.not_eq_true _).mp hfree, ?_⟩
            rw [codec.guardHash_eq]

/-- `prepareAction` finds the action that was made once, or makes it where the call is free. -/
theorem ensures_prepareTx (actionId : Text) (s : Selection) (payload : PersonalMailPayload) :
    (prepareTx codec actionId s payload).Ensures (Passes codec)
      (fun db' _ => db' = db ∨ ∃ r, Inserted codec actionId s payload db db' r) db := by
  have hinsert : ∀ reserved, (insertTx codec actionId s payload reserved).Ensures (Passes codec)
      (fun db' _ => db' = db ∨ ∃ r, Inserted codec actionId s payload db db' r) db :=
    fun reserved => (ensures_insertTx actionId s payload reserved).mono (fun _ _ _ h => h)
      fun _ _ h => .inr h
  dsimp only [prepareTx, Transaction.Ensures]
  refine ensures_askMember (ensures_ask fun answer => ?_)
  split
  · exact hinsert _
  · dsimp only [Transaction.Ensures]
    split
    · exact hinsert _
    · split
      · exact hinsert _
      · split
        · trivial
        · split
          · trivial
          · split
            · trivial
            · exact .inl rfl

theorem ensures_reserveTx (hok : DbOk codec db) (actionId actor : Text) (turnSequence : Int)
    (policyHash : Option Text) :
    (reserveTx codec actionId actor turnSequence policyHash).Ensures (Passes codec)
      (fun db' _ => Effect codec db db') db := by
  refine ensures_lockAction fun r _ => ?_
  split
  · trivial
  · split
    · trivial
    · refine ensures_ask fun answer => ?_
      dsimp only [lockApproval, Transaction.Ensures]
      split
      · trivial
      · refine ⟨trivial, (effect_refl codec db).ask ?_ ?_⟩
        -- an ask that was there is written back as it is
        · cases hfound : db (.approval r.selection.originalCallId) with
          | none => rfl
          | some a => exact hok.asks _ a hfound
        · intro a ha _
          rw [show db (.approval r.selection.originalCallId) = some a from ha]
          exact Kept.refl a

theorem ensures_attachTx (hok : DbOk codec db) (actionId actor approvalCallId requestId : Text) :
    (attachTx codec accepts actionId actor approvalCallId requestId).Ensures (Passes codec)
      (fun db' _ => Effect codec db db') db := by
  refine ensures_lockAction fun r hr => ?_
  have hid := hok.ids actionId r hr
  have hrow := hok.rows actionId r hr
  rw [← hid] at hr
  split
  · next hstate =>
    refine ensures_approvalOf fun a ha _ => ?_
    refine ensures_updateApproval fun hguard => ?_
    have hstep : RowStep codec r (r.attached approvalCallId requestId) := .attach _ _ hstate
    have hask : Effect codec db (Function.update db (.approval a.callId)
        (some { a with requestId := some requestId })) := by
      refine (effect_refl codec db).ask rfl ?_
      intro b hb hauthority
      rw [hok.asks approvalCallId a ha, ha] at hb
      cases hb
      exact guard_kept hguard hauthority
    refine ensures_updateAction ?_ (rowStep_accepted hrow hstep) ?_
    · exact (action_approval ..).trans hr
    · exact hask.row hr hstep
  · trivial

/-- What a claim has found: a row that awaits its dispatch, its payload and its approval. -/
structure Claimed (codec : ActionCodec) (db db' : Db) (row : ActionRow)
    (payload : PersonalMailPayload) : Prop where
  before : ∃ r attempt now, db.action row.id = some r ∧ r.state = .awaitingDispatch ∧
    row = r.claim attempt now ∧ codec.payload r = some payload
  after : db'.action row.id = some row
  approval : ∃ callId a, row.approvalCallId = some callId ∧ db.approval callId = some a ∧
    a.payloadHash = row.payloadHash ∧ a.originalAuthority ≠ none

theorem ensures_claimTx (hok : DbOk codec db) (ref : Reference) :
    (claimTx codec accepts ref).Ensures (Passes codec)
      (fun db' reply => Effect codec db db' ∧ ∀ row payload, reply = .claim row payload →
        Claimed codec db db' row payload) db := by
  refine ensures_lockAction fun r hr => ?_
  have hid := hok.ids ref.actionId r hr
  have hrow := hok.rows ref.actionId r hr
  rw [← hid] at hr
  split
  · trivial
  · next href =>
    simp only [not_or, not_not] at href
    split
    · refine ⟨effect_refl codec db, ?_⟩
      intro row payload heq
      cases heq
    · next hstate =>
      rw [not_not] at hstate
      refine ensures_ask fun clock => ?_
      split
      · have hstep : RowStep codec r (r.move .expired) := .expire hstate
        refine ensures_updateAction hr (rowStep_accepted hrow hstep) ⟨effect_update hr hstep, ?_⟩
        intro row payload heq
        cases heq
      · refine ensures_approvalOf fun a ha hfits => ?_
        split
        · trivial
        · next payload hpayload =>
          refine ensures_ask fun answer => ?_
          split
          · have hstep : RowStep codec r (r.claim answer.uuid answer.now) := .claim _ _ hstate
            refine ensures_updateAction hr (rowStep_accepted hrow hstep)
              ⟨effect_update hr hstep, ?_⟩
            intro row payload' heq
            cases heq
            obtain ⟨hhash, hauthority⟩ := approvalFits_some hfits
            refine ⟨⟨r, _, _, hr, hstate, rfl, hpayload⟩, ?_, ref.approvalCallId, a, href.2.2.1, ha,
              hhash, hauthority⟩
            exact (action_update ..).trans (if_pos rfl)
          · trivial

theorem ensures_validateTx (p : ActionRow) (payload : PersonalMailPayload)
    (policyHash : Option Hash) :
    (validateTx codec p payload policyHash).Ensures (Passes codec)
      (fun db' _ => Effect codec db db') db := by
  refine ensures_lockAction fun r _ => ?_
  split
  · trivial
  · split
    · exact ensures_approvalOf fun a _ _ => effect_refl codec db
    · trivial

theorem ensures_settleTx (hok : DbOk codec db) (p : ActionRow) {receipt : Receipt}
    (hreceipt : codec.acceptsReceipt receipt = true) :
    (settleTx codec accepts p receipt).Ensures (Passes codec)
      (fun db' _ => Effect codec db db') db := by
  refine ensures_lockAction fun r hr => ?_
  have hid := hok.ids p.id r hr
  have hrow := hok.rows p.id r hr
  rw [← hid] at hr
  split
  · trivial
  · split
    · split
      · trivial
      · exact effect_refl codec db
    · next hstate =>
      rw [not_not] at hstate
      refine ensures_ask fun answer => ?_
      have hstep : RowStep codec r (r.settled receipt answer.now) := .settle _ _ hstate hreceipt
      exact ensures_updateAction hr (rowStep_accepted hrow hstep) (effect_update hr hstep)

theorem ensures_cancelRequestTx (hok : DbOk codec db) (actor requestId : Text)
    (terminal : Terminal) :
    (cancelRequestTx codec accepts actor requestId terminal).Ensures (Passes codec)
      (fun db' _ => Effect codec db db') db := by
  refine ensures_askMember (ensures_ask fun answer => ?_)
  split
  · trivial
  · next id _ =>
    refine ensures_lockAction fun r hr => ?_
    have hid := hok.ids id r hr
    have hrow := hok.rows id r hr
    rw [← hid] at hr
    split
    · trivial
    · dsimp only [lockApproval, Transaction.Ensures]
      split
      · trivial
      · next a ha =>
        split
        · trivial
        · split
          · trivial
          · next hstate =>
            split
            · trivial
            · refine ensures_ask fun clock => ?_
              have hcancel : r.state = .awaitingApproval ∨ r.state = .awaitingDispatch ∨
                  r.state = .cancelled := by
                by_contra hnone
                simp only [not_or] at hnone
                exact hstate hnone
              have hstep : RowStep codec r (r.move .cancelled) := .cancel hcancel
              refine ensures_updateAction hr (rowStep_accepted hrow hstep) ?_
              refine ensures_updateApproval fun hguard => ?_
              refine (effect_update hr hstep).ask rfl ?_
              intro b hb hauthority
              rw [approval_action, hok.asks _ a ha, show db.approval _ = some a from ha] at hb
              cases hb
              exact guard_kept hguard hauthority

theorem ensures_cancelUnclaimedTx (hok : DbOk codec db) (actor actionId : Text) :
    (cancelUnclaimedTx accepts actor actionId).Ensures (Passes codec)
      (fun db' _ => Effect codec db db') db := by
  refine ensures_askMember (ensures_lockAction fun r hr => ?_)
  have hid := hok.ids actionId r hr
  have hrow := hok.rows actionId r hr
  rw [← hid] at hr
  split
  · exact effect_refl codec db
  · split
    · trivial
    · next hstate =>
      rw [not_and_or, not_not, not_not] at hstate
      have hstep : RowStep codec r (r.move .cancelled) := .cancel (hstate.imp_right Or.inl)
      exact ensures_updateAction hr (rowStep_accepted hrow hstep) (effect_update hr hstep)

/-- Deleting only deletes, however many rows. -/
theorem ensures_deleteTx {before : Db} (actor : Text) (cutoff : Time) (ids : List Text)
    (heffect : Effect codec before db)
    (hgone : ∀ id, db.action id = none ∨ db.action id = before.action id) :
    (deleteTx actor cutoff ids).Ensures (Passes codec)
      (fun db' _ => Effect codec before db') db := by
  induction ids generalizing db with
  | nil => exact heffect
  | cons id ids ih =>
    dsimp only [deleteTx, Transaction.Ensures]
    split
    · next r hr =>
      split
      · refine ⟨by rw [hr]; trivial, ih ?_ ?_⟩
        · refine ⟨fun hash => (reserved_action db id none hash).trans (heffect.calls hash), ?_, ?_⟩
          · intro other
            rw [action_update]
            split
            · next heq =>
              subst heq
              have hr : db.action other = some r := hr
              rcases hgone other with hnone | hsame
              · exact absurd (hnone.symm.trans hr) nofun
              · rw [← hsame, hr]
                exact .deleted r
            · exact heffect.actions other
          · refine ⟨?_, ?_⟩
            · intro callId a ha
              rw [approval_action]
              exact heffect.asks.1 callId a ha
            · intro callId a ha hids
              rw [approval_action] at ha
              exact heffect.asks.2 callId a ha hids
        · intro other
          rw [action_update]
          split
          · exact .inl rfl
          · exact hgone other
      · exact ih heffect hgone
    · exact ih heffect hgone

theorem ensures_pruneTx (actor : Text) :
    (pruneTx actor).Ensures (Passes codec) (fun db' _ => Effect codec db db') db :=
  ensures_ask fun _ => ensures_deleteTx actor _ _ (effect_refl codec db) fun _ => .inr rfl

theorem ensures_askTx (hok : DbOk codec db) (callId : Text) :
    (askTx callId).Ensures (Passes codec) (fun db' _ => Effect codec db db') db := by
  refine ensures_ask fun answer => ?_
  dsimp only [lockApproval, Transaction.Ensures]
  split
  · next hnone =>
    split
    · next hcall =>
      refine ⟨trivial, (effect_refl codec db).ask hcall ?_⟩
      intro a ha
      rw [show db.approval callId = none from hnone] at ha
      cases ha
    · trivial
  · next a ha =>
    split
    · next hcall =>
      refine ensures_updateApproval fun hguard => ?_
      have hid := hok.asks callId a ha
      refine (effect_refl codec db).ask (hcall.trans hid.symm) ?_
      intro b hb hauthority
      rw [hid, show db.approval callId = some a from ha] at hb
      cases hb
      exact guard_kept hguard hauthority
    · trivial

end Lares.Approvals
