import Lares.Approvals.PersonalActionSteps
import Mathlib.Logic.Relation

/-! # A personal action is dispatched at most once

    * **One row over time**: what an original call is, and the order of the
      states.
    * **The invariant**: the tables, the permits and what has been dispatched.
      A permit is made from the only row its call will ever have.
    * **Over a run**: tombstones stay, a row only moves on, and a permit comes
      from a row that was waiting.

    Nothing depends on what the table accepts of an UPDATE, so that the same
    theorem says that the trigger would have taken each of them.
-/

namespace Lares.Approvals

variable {codec : ActionCodec} {accepts : ActionRow → ActionRow → Bool}

/-! ## Section 1: One row over time -/

/-- Agent, incarnation, session, turn and call. -/
structure OriginalCall where
  agentId : Text
  incarnation : Text
  sessionId : Text
  originalTurnId : Text
  originalCallId : Text
  deriving DecidableEq

def originalCall (s : Selection) : OriginalCall :=
  ⟨s.agentId, s.incarnation.map Char.toLower, s.sessionId, s.originalTurnId, s.originalCallId⟩

theorem originalHash_eq {s s' : Selection} (h : originalCall s = originalCall s') :
    codec.originalHash s = codec.originalHash s' := by
  simp only [originalCall, OriginalCall.mk.injEq] at h
  obtain ⟨hagent, hincarnation, hsession, hturn, hcall⟩ := h
  unfold ActionCodec.originalHash
  rw [hagent, hincarnation, hsession, hturn, hcall]

/-- One move of an action. -/
inductive Next : ActionState → ActionState → Prop
  /-- It is approved. -/
  | attach : Next .awaitingApproval .awaitingDispatch
  /-- An attempt takes it. -/
  | claim : Next .awaitingDispatch .claimed
  /-- The attempt has ended. -/
  | receipt (receipt : Receipt) : Next .claimed receipt.state
  /-- It is cancelled before its approval. -/
  | cancel : Next .awaitingApproval .cancelled
  /-- It is cancelled before its attempt. -/
  | cancelAttached : Next .awaitingDispatch .cancelled
  /-- Its time is over before its attempt. -/
  | expire : Next .awaitingDispatch .expired

abbrev Path := Relation.ReflTransGen Next

def Waiting (state : ActionState) : Prop := state = .awaitingApproval ∨ state = .awaitingDispatch

theorem path_attempted {a b : ActionState} (h : Path a b) (ha : a.attempted = true) :
    b.attempted = true := by
  induction h with
  | refl => exact ha
  | tail _ hnext ih =>
    cases hnext with
    | claim => rfl
    | receipt receipt => exact receipt.state_terminal.2
    | _ => cases ih

theorem path_waiting {a b : ActionState} (h : Path a b) (hb : Waiting b) : Waiting a := by
  induction h with
  | refl => exact hb
  | tail _ hnext ih =>
    apply ih
    cases hnext with
    | attach => exact .inl rfl
    | receipt receipt =>
      have hterminal := receipt.state_terminal.1
      rcases hb with hb | hb <;> rw [hb] at hterminal <;> cases hterminal
    | _ => rcases hb with hb | hb <;> cases hb

/-- A row and a later state of it: a payload, an approval, an attempt and a receipt stay. -/
structure Moves (r r' : ActionRow) : Prop where
  id : r'.id = r.id
  selection : r'.selection = r.selection
  hash : r'.originalCallHash = r.originalCallHash
  payloadHash : r'.payloadHash = r.payloadHash
  ciphertext : r'.payloadCiphertext = r.payloadCiphertext
  /-- The state only moves on. -/
  path : Path r.state r'.state
  /-- An approval stays. -/
  approval : ∀ callId, r.approvalCallId = some callId → r'.approvalCallId = some callId
  /-- So does an attempt. -/
  attempt : ∀ attempt, r.attemptId = some attempt → r'.attemptId = some attempt
  /-- And a receipt. -/
  receipt : ∀ receipt, r.receipt = some receipt → r'.receipt = some receipt

theorem Moves.refl (r : ActionRow) : Moves r r :=
  ⟨rfl, rfl, rfl, rfl, rfl, .refl, fun _ h => h, fun _ h => h, fun _ h => h⟩

theorem Moves.trans {a b c : ActionRow} (h : Moves a b) (h' : Moves b c) : Moves a c where
  id := h'.id.trans h.id
  selection := h'.selection.trans h.selection
  hash := h'.hash.trans h.hash
  payloadHash := h'.payloadHash.trans h.payloadHash
  ciphertext := h'.ciphertext.trans h.ciphertext
  path := h.path.trans h'.path
  approval := fun callId ha => h'.approval callId (h.approval callId ha)
  attempt := fun attempt ha => h'.attempt attempt (h.attempt attempt ha)
  receipt := fun receipt ha => h'.receipt receipt (h.receipt receipt ha)

/-- Every UPDATE is a move, or leaves the state. -/
theorem rowStep_moves {r r' : ActionRow} (h : RowOk codec r) (hstep : RowStep codec r r') :
    Moves r r' := by
  cases hstep with
  | attach callId requestId hstate =>
    rcases hstate with hstate | ⟨hstate, hcall, -⟩
    · refine ⟨rfl, rfl, rfl, rfl, rfl, ?_, ?_, fun _ ha => ha, fun _ ha => ha⟩
      · rw [hstate]
        exact .single .attach
      · intro other hother
        rw [h.unlinked hstate] at hother
        cases hother
    · refine ⟨rfl, rfl, rfl, rfl, rfl, ?_, ?_, fun _ ha => ha, fun _ ha => ha⟩
      · rw [hstate]
        exact .refl
      · intro other hother
        exact hcall.symm.trans hother
  | expire hstate =>
    refine ⟨rfl, rfl, rfl, rfl, rfl, ?_, fun _ ha => ha, fun _ ha => ha, fun _ ha => ha⟩
    rw [hstate]
    exact .single .expire
  | claim attempt now hstate =>
    have hun : Unclaimed r := h.unclaimed (by rw [hstate]; rfl)
    refine ⟨rfl, rfl, rfl, rfl, rfl, ?_, fun _ ha => ha, ?_, fun _ ha => ha⟩
    · rw [hstate]
      exact .single .claim
    · intro other hother
      rw [hun.attemptId] at hother
      cases hother
  | settle receipt now hstate hreceipt =>
    refine ⟨rfl, rfl, rfl, rfl, rfl, ?_, fun _ ha => ha, fun _ ha => ha, ?_⟩
    · rw [hstate]
      exact .single (.receipt receipt)
    · intro other hother
      obtain ⟨hterminal, -⟩ := h.receiptOk other hother
      have hclaimed := other.state_terminal.1
      rw [hterminal, hstate] at hclaimed
      cases hclaimed
  | cancel hstate =>
    refine ⟨rfl, rfl, rfl, rfl, rfl, ?_, fun _ ha => ha, fun _ ha => ha, fun _ ha => ha⟩
    rcases hstate with hstate | hstate | hstate <;> rw [hstate]
    · exact .single .cancel
    · exact .single .cancelAttached
    · exact .refl

/-! ## Section 2: The tables -/

/-- What is sealed in a row is what `prepareAction` was called for. -/
def Sealed (codec : ActionCodec) (requested : List Envelope) (r : ActionRow) : Prop :=
  ∃ s payload, codec.acceptsSelection s = true ∧ codec.acceptsPayload payload = true ∧
    r.selection = s.lowered ∧ ⟨r.id, r.selection, payload⟩ ∈ requested ∧
    r.payloadHash = codec.payloadFingerprint payload ∧
    r.payloadCiphertext = codec.encrypt ⟨r.id, r.selection, payload⟩

theorem Sealed.mono {requested requested' : List Envelope} {r : ActionRow}
    (h : Sealed codec requested r) (hsub : ∀ e ∈ requested, e ∈ requested') :
    Sealed codec requested' r := by
  obtain ⟨s, payload, hs, hp, hsel, hmem, hhash, hcipher⟩ := h
  exact ⟨s, payload, hs, hp, hsel, hsub _ hmem, hhash, hcipher⟩

theorem Sealed.moves {requested : List Envelope} {r r' : ActionRow} (h : Sealed codec requested r)
    (hmoves : Moves r r') : Sealed codec requested r' := by
  obtain ⟨s, payload, hs, hp, hsel, hmem, hhash, hcipher⟩ := h
  refine ⟨s, payload, hs, hp, hmoves.selection.trans hsel, ?_, hmoves.payloadHash.trans hhash, ?_⟩
  · rw [hmoves.id, hmoves.selection]
    exact hmem
  · rw [hmoves.ciphertext, hmoves.id, hmoves.selection]
    exact hcipher

/-- A row can be opened, and what is in it is the payload that was prepared. -/
theorem Sealed.payload {requested : List Envelope} {r : ActionRow} (hlawful : codec.Lawful)
    (h : Sealed codec requested r) :
    ∃ payload, codec.payload r = some payload ∧ ⟨r.id, r.selection, payload⟩ ∈ requested ∧
      r.payloadHash = codec.payloadFingerprint payload := by
  obtain ⟨s, payload, hs, hp, hsel, hmem, hhash, hcipher⟩ := h
  refine ⟨payload, ?_, hmem, hhash⟩
  have hdecrypt : codec.decrypt r.payloadCiphertext = some ⟨r.id, r.selection, payload⟩ := by
    rw [hcipher, hsel]
    exact hlawful r.id s payload hs hp
  unfold ActionCodec.payload
  rw [hdecrypt]
  exact if_pos ⟨rfl, rfl, hhash.symm⟩

theorem payload_moves {r r' : ActionRow} (h : Moves r r') : codec.payload r' = codec.payload r := by
  unfold ActionCodec.payload
  rw [h.ciphertext, h.id, h.selection, h.payloadHash]

/-- One row for each call, which is reserved for good. -/
structure Tables (codec : ActionCodec) (requested : List Envelope) (db : Db) : Prop
    extends DbOk codec db where
  /-- A row is of the call it was prepared for. -/
  hash : ∀ id r, db.action id = some r → r.originalCallHash = codec.originalHash r.selection
  /-- Its call is taken. -/
  reserved : ∀ id r, db.action id = some r → db.reserved r.originalCallHash = true
  /-- Its payload is what was asked for. -/
  sealed : ∀ id r, db.action id = some r → Sealed codec requested r
  /-- Its state comes from the first one. -/
  path : ∀ id r, db.action id = some r → Path .awaitingApproval r.state
  /-- A call has one row. -/
  unique : ∀ id id' r r', db.action id = some r → db.action id' = some r' →
    r.originalCallHash = r'.originalCallHash → id = id'

theorem Tables.mono {requested requested' : List Envelope} {db : Db}
    (h : Tables codec requested db) (hsub : ∀ e ∈ requested, e ∈ requested') :
    Tables codec requested' db where
  toDbOk := h.toDbOk
  hash := h.hash
  reserved := h.reserved
  sealed := fun id r hr => (h.sealed id r hr).mono hsub
  path := h.path
  unique := h.unique

/-- What is there after an effect is what was there before, moved. -/
theorem Effect.row_back {db db' : Db} (hok : DbOk codec db) (h : Effect codec db db') {id : Text}
    {r' : ActionRow} (hr' : db'.action id = some r') :
    ∃ r, db.action id = some r ∧ Moves r r' ∧ RowOk codec r' := by
  have hchange := h.actions id
  generalize hr : db.action id = row at hchange
  rw [hr'] at hchange
  cases hchange with
  | kept => exact ⟨r', rfl, .refl r', hok.rows id r' hr⟩
  | updated r _ hstep =>
    have hrow := hok.rows id r hr
    exact ⟨r, rfl, rowStep_moves hrow hstep, rowStep_ok hrow hstep⟩

theorem Tables.effect {requested : List Envelope} {db db' : Db} (h : Tables codec requested db)
    (heffect : Effect codec db db') : Tables codec requested db' where
  ids := by
    intro id r' hr'
    obtain ⟨r, hr, hmoves, -⟩ := Effect.row_back h.toDbOk heffect hr'
    exact hmoves.id.trans (h.ids id r hr)
  rows := by
    intro id r' hr'
    obtain ⟨r, hr, -, hok⟩ := Effect.row_back h.toDbOk heffect hr'
    exact hok
  asks := fun callId a ha => heffect.asks.2 callId a ha (h.asks callId)
  hash := by
    intro id r' hr'
    obtain ⟨r, hr, hmoves, -⟩ := Effect.row_back h.toDbOk heffect hr'
    rw [hmoves.hash, hmoves.selection]
    exact h.hash id r hr
  reserved := by
    intro id r' hr'
    obtain ⟨r, hr, hmoves, -⟩ := Effect.row_back h.toDbOk heffect hr'
    rw [hmoves.hash, heffect.calls]
    exact h.reserved id r hr
  sealed := by
    intro id r' hr'
    obtain ⟨r, hr, hmoves, -⟩ := Effect.row_back h.toDbOk heffect hr'
    exact (h.sealed id r hr).moves hmoves
  path := by
    intro id r' hr'
    obtain ⟨r, hr, hmoves, -⟩ := Effect.row_back h.toDbOk heffect hr'
    exact (h.path id r hr).trans hmoves.path
  unique := by
    intro id id' r' s' hr' hs' hhash
    obtain ⟨r, hr, hmoves, -⟩ := Effect.row_back h.toDbOk heffect hr'
    obtain ⟨s, hs, hmoves', -⟩ := Effect.row_back h.toDbOk heffect hs'
    exact h.unique id id' r s hr hs (hmoves.hash.symm.trans (hhash.trans hmoves'.hash))

section Insertion

variable {requested : List Envelope} {db db' : Db} {actionId : Text} {s : Selection}
  {payload : PersonalMailPayload} {row : ActionRow}

theorem Inserted.action (h : Inserted codec actionId s payload db db' row) (id : Text) :
    db'.action id = if id = actionId then some row else db.action id := by
  rw [h.db, action_update]
  split
  · rfl
  · exact Function.update_of_ne (fun heq => by cases heq) _ _

theorem Inserted.reserved (h : Inserted codec actionId s payload db db' row) (hash : Hash) :
    db'.reserved hash = (db.reserved hash || hash == codec.originalHash s) := by
  rw [h.db, reserved_action]
  by_cases heq : hash = codec.originalHash s
  · subst heq
    rw [beq_self_eq_true, Bool.or_true]
    exact Function.update_self ..
  · rw [beq_eq_false_iff_ne.2 heq, Bool.or_false]
    exact Function.update_of_ne (fun h => heq (Key.call.inj h)) _ _

theorem Inserted.approval (h : Inserted codec actionId s payload db db' row) (callId : Text) :
    db'.approval callId = db.approval callId := by
  rw [h.db, approval_action]
  exact Function.update_of_ne (fun heq => by cases heq) _ _

/-- A row is the new one, whose call was free, or was there. -/
theorem Inserted.cases (h : Inserted codec actionId s payload db db' row) {id : Text}
    {r : ActionRow} (hr : db'.action id = some r) :
    (id = actionId ∧ r = row) ∨ db.action id = some r := by
  rw [h.action] at hr
  split at hr
  · next heq =>
    cases hr
    exact .inl ⟨heq, rfl⟩
  · exact .inr hr

theorem Tables.inserted (h : Tables codec requested db)
    (hinserted : Inserted codec actionId s payload db db' row)
    (hsealed : Sealed codec requested row) : Tables codec requested db' where
  ids := by
    intro id r hr
    rcases hinserted.cases hr with ⟨rfl, rfl⟩ | hr
    · exact hinserted.id
    · exact h.ids id r hr
  rows := by
    intro id r hr
    rcases hinserted.cases hr with ⟨rfl, rfl⟩ | hr
    · exact hinserted.ok
    · exact h.rows id r hr
  asks := by
    intro callId a ha
    rw [hinserted.approval] at ha
    exact h.asks callId a ha
  hash := by
    intro id r hr
    rcases hinserted.cases hr with ⟨rfl, rfl⟩ | hr
    · rw [hinserted.hash, hinserted.selection]
    · exact h.hash id r hr
  reserved := by
    intro id r hr
    rw [hinserted.reserved]
    rcases hinserted.cases hr with ⟨rfl, rfl⟩ | hr
    · rw [hinserted.hash, beq_self_eq_true, Bool.or_true]
    · rw [h.reserved id r hr, Bool.true_or]
  sealed := by
    intro id r hr
    rcases hinserted.cases hr with ⟨rfl, rfl⟩ | hr
    · exact hsealed
    · exact h.sealed id r hr
  path := by
    intro id r hr
    rcases hinserted.cases hr with ⟨rfl, rfl⟩ | hr
    · rw [hinserted.state]
    · exact h.path id r hr
  unique := by
    -- The call was free, and every row has reserved its own.
    have hfree : ∀ id r, db.action id = some r → r.originalCallHash ≠ row.originalCallHash := by
      intro id r hr heq
      have hreserved := h.reserved id r hr
      rw [heq, hinserted.hash, hinserted.free] at hreserved
      cases hreserved
    intro id id' r r' hr hr' heq
    rcases hinserted.cases hr with ⟨rfl, rfl⟩ | hr <;>
      rcases hinserted.cases hr' with ⟨rfl, rfl⟩ | hr'
    · rfl
    · exact absurd heq.symm (hfree id' r' hr')
    · exact absurd heq (hfree id r hr)
    · exact h.unique id id' r r' hr hr' heq

end Insertion

/-! ## Section 3: Permits -/

/-- A permit is of the only row its call will ever have, and of what that row was approved for. -/
structure PermitOk (codec : ActionCodec) (requested : List Envelope) (db : Db) (p : Permit) :
    Prop where
  hash : p.row.originalCallHash = codec.originalHash p.row.selection
  /-- No other row can have its call. -/
  reserved : db.reserved p.row.originalCallHash = true
  /-- The row was claimed. -/
  claimed : p.row.state.attempted = true
  /-- A row of its call is a later state of it. -/
  row : ∀ id r, db.action id = some r → r.originalCallHash = p.row.originalCallHash →
    Moves p.row r
  /-- The payload is what was asked for. -/
  sealed : Sealed codec requested p.row
  /-- The permit carries it. -/
  payload : codec.payload p.row = some p.payload
  /-- The approval was of this payload. -/
  approval : ∃ callId a, p.row.approvalCallId = some callId ∧ db.approval callId = some a ∧
    a.payloadHash = p.row.payloadHash ∧ a.originalAuthority ≠ none

theorem PermitOk.mono {requested requested' : List Envelope} {db : Db} {p : Permit}
    (h : PermitOk codec requested db p) (hsub : ∀ e ∈ requested, e ∈ requested') :
    PermitOk codec requested' db p :=
  { h with sealed := h.sealed.mono hsub }

theorem PermitOk.of_row {requested : List Envelope} {db : Db} {p q : Permit}
    (h : PermitOk codec requested db p) (hrow : q.row = p.row) (hpayload : q.payload = p.payload) :
    PermitOk codec requested db q := by
  obtain ⟨row, payload, policyHash, consumed⟩ := q
  subst hrow hpayload
  exact ⟨h.hash, h.reserved, h.claimed, h.row, h.sealed, h.payload, h.approval⟩

theorem PermitOk.effect {requested : List Envelope} {db db' : Db} {p : Permit}
    (h : PermitOk codec requested db p) (hok : DbOk codec db) (heffect : Effect codec db db') :
    PermitOk codec requested db' p where
  hash := h.hash
  reserved := (heffect.calls _).trans h.reserved
  claimed := h.claimed
  row := by
    intro id r' hr' hhash
    obtain ⟨r, hr, hmoves, -⟩ := Effect.row_back hok heffect hr'
    exact (h.row id r hr (hmoves.hash.symm.trans hhash)).trans hmoves
  sealed := h.sealed
  payload := h.payload
  approval := by
    obtain ⟨callId, a, hcall, ha, hhash, hauthority⟩ := h.approval
    obtain ⟨a', ha', hkept⟩ := heffect.asks.1 callId a ha
    have hkept := hkept hauthority
    refine ⟨callId, a', hcall, ha', hkept.payloadHash.trans hhash, ?_⟩
    rw [hkept.authority]
    exact hauthority

theorem PermitOk.inserted {requested : List Envelope} {db db' : Db} {p : Permit} {actionId : Text}
    {s : Selection} {payload : PersonalMailPayload} {row : ActionRow}
    (h : PermitOk codec requested db p)
    (hinserted : Inserted codec actionId s payload db db' row) :
    PermitOk codec requested db' p where
  hash := h.hash
  reserved := by
    rw [hinserted.reserved, h.reserved, Bool.true_or]
  claimed := h.claimed
  row := by
    intro id r hr hhash
    rcases hinserted.cases hr with ⟨rfl, rfl⟩ | hr
    -- the call of a permit is not free
    · have hreserved := h.reserved
      rw [← hhash, hinserted.hash, hinserted.free] at hreserved
      cases hreserved
    · exact h.row id r hr hhash
  sealed := h.sealed
  payload := h.payload
  approval := by
    obtain ⟨callId, a, hcall, ha, hhash⟩ := h.approval
    refine ⟨callId, a, hcall, ?_, hhash⟩
    rw [hinserted.approval]
    exact ha

theorem claim_moves {r : ActionRow} {attempt : Text} {now : Time} (hok : RowOk codec r)
    (hstate : r.state = .awaitingDispatch) : Moves r (r.claim attempt now) :=
  rowStep_moves hok (.claim attempt now hstate)

/-- A claim that commits leaves a row that its permit is of. -/
theorem PermitOk.claim {requested : List Envelope} {db db' : Db} {row : ActionRow}
    {payload : PersonalMailPayload} {policyHash : Option Hash} (h : Tables codec requested db)
    (heffect : Effect codec db db') (hclaimed : Claimed codec db db' row payload) :
    PermitOk codec requested db' ⟨row, payload, policyHash, false⟩ := by
  obtain ⟨r, attempt, now, hr, hstate, hrow, hpayload⟩ := hclaimed.before
  have h' := h.effect heffect
  have hmoves : Moves r row := hrow ▸ claim_moves (h.rows _ r hr) hstate
  refine ⟨h'.hash _ row hclaimed.after, h'.reserved _ row hclaimed.after, ?_, ?_,
    h'.sealed _ row hclaimed.after, (payload_moves hmoves).trans hpayload, ?_⟩
  · rw [hrow]
    rfl
  · intro id r' hr' hhash
    have hid := h'.unique id row.id r' row hr' hclaimed.after hhash
    rw [hid, hclaimed.after] at hr'
    cases hr'
    exact .refl row
  · obtain ⟨callId, a, hcall, ha, hhash, hauthority⟩ := hclaimed.approval
    obtain ⟨a', ha', hkept⟩ := heffect.asks.1 callId a ha
    have hkept := hkept hauthority
    refine ⟨callId, a', hcall, ha', hkept.payloadHash.trans hhash, ?_⟩
    rw [hkept.authority]
    exact hauthority

/-- No two permits are of one call; what is dispatched is a consumed permit's, and each is
    dispatched once. -/
structure Permits (codec : ActionCodec) (db : Db) (s : ActionStore) : Prop where
  /-- A permit is of a row that was claimed. -/
  ok : ∀ p ∈ s.permits, PermitOk codec s.requested db p
  /-- No two permits are of one call. -/
  distinct : (s.permits.map fun p => p.row.originalCallHash).Nodup
  /-- Whatever left was a permit, and is consumed. -/
  dispatched : ∀ d ∈ s.dispatched, ∃ p, s.permits[d.permit]? = some p ∧ p.consumed = true ∧
    d = ⟨d.permit, p.row.id, p.row.attemptId, p.row.selection, p.payload⟩
  /-- No permit is consumed twice. -/
  once : (s.dispatched.map Dispatch.permit).Nodup

theorem Permits.distinct_get {db : Db} {s : ActionStore} (h : Permits codec db s) {i j : Nat}
    {p q : Permit} (hp : s.permits[i]? = some p) (hq : s.permits[j]? = some q)
    (hhash : p.row.originalCallHash = q.row.originalCallHash) : i = j := by
  obtain ⟨hi, -⟩ := List.getElem?_eq_some_iff.1 hp
  apply (List.getElem?_inj ?_ h.distinct).1
  · rw [List.getElem?_map, List.getElem?_map, hp, hq, Option.map_some, Option.map_some, hhash]
  · rw [List.length_map]
    exact hi

/-! ## Section 4: Calls -/

/-- What a call does to the store before its transaction. -/
inductive StoreStep (s : ActionStore) : ActionStore → Prop
  | requested (more : List Envelope) : StoreStep s { s with requested := s.requested ++ more }
  | burn (k : Nat) : StoreStep s (s.burn k)
  | consume (k : Nat) (p : Permit) (hp : s.permits[k]? = some p) (hfree : p.consumed = false) :
      StoreStep s { s.burn k with dispatched := s.dispatched ++
        [⟨k, p.row.id, p.row.attemptId, p.row.selection, p.payload⟩] }

theorem StoreStep.refl (s : ActionStore) : StoreStep s s := by
  have h := StoreStep.requested (s := s) []
  rwa [List.append_nil] at h

/-- Only a claim that commits leaves a permit. -/
def ActionCall.isClaim : ActionCall → Bool
  | .claimAction _ => true
  | _ => false

/-- What a started transaction does to the tables. -/
inductive Outcome (codec : ActionCodec) (requested : List Envelope) (call : ActionCall)
    (db db' : Db) (reply : Reply) : Prop
  | effect (h : Effect codec db db') (hclaim : call.isClaim = true → ∀ row payload,
      reply = .claim row payload → Claimed codec db db' row payload)
  | inserted (hcall : call.isClaim = false) {actionId : Text} {s : Selection}
      {payload : PersonalMailPayload} {row : ActionRow}
      (h : Inserted codec actionId s payload db db' row) (hsealed : Sealed codec requested row)

/-- What a transaction that has started will do, whenever it commits. -/
def Behaves (codec : ActionCodec) (requested : List Envelope) (call : ActionCall) (tx : Tx) : Prop :=
  ∀ db, DbOk codec db →
    tx.Ensures (Passes codec) (fun db' reply => Outcome codec requested call db db' reply) db

theorem Behaves.mono {requested requested' : List Envelope} {call : ActionCall} {tx : Tx}
    (h : Behaves codec requested call tx) (hsub : ∀ e ∈ requested, e ∈ requested') :
    Behaves codec requested' call tx := by
  intro db hok
  refine (h db hok).mono (fun _ _ _ hW => hW) ?_
  intro db' reply houtcome
  cases houtcome with
  | effect heffect hclaim => exact .effect heffect hclaim
  | inserted hcall hinserted hsealed => exact .inserted hcall hinserted (hsealed.mono hsub)

/-- A call that makes no permit. -/
theorem behaves_effect {requested : List Envelope} {call : ActionCall} {tx : Tx}
    (hcall : call.isClaim = false)
    (h : ∀ db, DbOk codec db → tx.Ensures (Passes codec) (fun db' _ => Effect codec db db') db) :
    Behaves codec requested call tx := by
  intro db hok
  refine (h db hok).mono (fun _ _ _ hW => hW) ?_
  intro db' reply heffect
  refine .effect heffect fun hclaim => ?_
  rw [hcall] at hclaim
  cases hclaim

theorem start_step {s s' : ActionStore} {call : ActionCall} {tx : Option Tx}
    (h : ActionStore.start codec accepts s call = some (s', tx)) :
    StoreStep s s' ∧ ∀ t, tx = some t → Behaves codec s'.requested call t := by
  cases call with
  | prepareAction selection payload actionId =>
    dsimp only [ActionStore.start] at h
    split at h
    · next haccepted =>
      rw [Bool.and_eq_true] at haccepted
      split at h
      · cases h
      · cases h
        refine ⟨.requested _, ?_⟩
        intro t ht
        cases ht
        intro db hok
        -- Either the action was there before, and nothing is written, or its row is new.
        refine (ensures_prepareTx actionId selection.lowered payload).mono (fun _ _ _ hW => hW) ?_
        rintro db' reply (rfl | ⟨row, hinserted⟩)
        · refine .effect (effect_refl codec db') fun hclaim => ?_
          cases hclaim
        · refine .inserted rfl hinserted ⟨selection, payload, haccepted.1, haccepted.2,
            hinserted.selection, ?_, hinserted.payloadHash, ?_⟩
          · rw [hinserted.id, hinserted.selection]
            exact List.mem_append_right _ (List.mem_singleton_self _)
          · rw [hinserted.id, hinserted.selection]
            exact hinserted.ciphertext
    · cases h
  | reserveApproval actionId actor turnSequence policyHash =>
    cases h
    -- The call starts a transaction; the store does not change before its answer.
    refine ⟨.refl s, ?_⟩
    intro t ht
    cases ht
    exact behaves_effect rfl fun db hok => ensures_reserveTx hok ..
  | attachApproval actionId actor approvalCallId requestId =>
    cases h
    refine ⟨.refl s, ?_⟩
    intro t ht
    cases ht
    exact behaves_effect rfl fun db hok => ensures_attachTx hok ..
  | claimAction ref =>
    -- The permit comes with the commit, so the claim is remembered until then.
    cases h
    refine ⟨.refl s, ?_⟩
    intro t ht
    cases ht
    intro db hok
    refine (ensures_claimTx hok ref).mono (fun _ _ _ hW => hW) ?_
    intro db' reply hclaim
    exact .effect hclaim.1 fun _ => hclaim.2
  | consumeClaimPermit k =>
    dsimp only [ActionStore.start] at h
    split at h
    · cases h
    · next p hp =>
      split at h
      · cases h
      · next hfree =>
        cases h
        -- No transaction: the permit is taken in the store.
        refine ⟨.consume k p hp ((Bool.not_eq_true _).mp hfree), ?_⟩
        intro t ht
        cases ht
  | validateClaimInTransaction k =>
    dsimp only [ActionStore.start] at h
    split at h
    · cases h
    · split at h
      · cases h
      · cases h
        refine ⟨.refl s, ?_⟩
        intro t ht
        cases ht
        exact behaves_effect rfl fun db _ => ensures_validateTx ..
  | recordOutcome k receipt =>
    dsimp only [ActionStore.start] at h
    split at h
    · next hreceipt =>
      split at h
      · cases h
      · cases h
        -- The permit is taken before its outcome is written.
        refine ⟨.burn k, ?_⟩
        intro t ht
        cases ht
        exact behaves_effect rfl fun db hok => ensures_settleTx hok _ hreceipt
    · cases h
  | cancelApprovalRequest actor requestId terminal =>
    cases h
    refine ⟨.refl s, ?_⟩
    intro t ht
    cases ht
    exact behaves_effect rfl fun db hok => ensures_cancelRequestTx hok actor requestId terminal
  | cancelUnclaimedAction actor actionId =>
    cases h
    refine ⟨.refl s, ?_⟩
    intro t ht
    cases ht
    exact behaves_effect rfl fun db hok => ensures_cancelUnclaimedTx hok actor actionId
  | pruneForMember actor =>
    cases h
    refine ⟨.refl s, ?_⟩
    intro t ht
    cases ht
    exact behaves_effect rfl fun db _ => ensures_pruneTx actor
  | ask callId =>
    cases h
    refine ⟨.refl s, ?_⟩
    intro t ht
    cases ht
    exact behaves_effect rfl fun db hok => ensures_askTx hok callId

/-- A permit of the store, as it was before the step: only its mark may be new. -/
theorem burn_get {s : ActionStore} {k j : Nat} {q : Permit} (h : (s.burn k).permits[j]? = some q) :
    ∃ p, s.permits[j]? = some p ∧ q.row = p.row ∧ q.payload = p.payload ∧
      (p.consumed = true → q.consumed = true) := by
  rw [show (s.burn k).permits = s.permits.modify k _ from rfl, List.getElem?_modify] at h
  obtain ⟨p, hp, hq⟩ := Option.map_eq_some_iff.1 h
  refine ⟨p, hp, ?_⟩
  rw [← hq]
  split
  · exact ⟨rfl, rfl, fun _ => rfl⟩
  · exact ⟨rfl, rfl, id⟩

theorem burn_self {s : ActionStore} {k : Nat} {p : Permit} (h : s.permits[k]? = some p) :
    (s.burn k).permits[k]? = some { p with consumed := true } := by
  rw [show (s.burn k).permits = s.permits.modify k _ from rfl, List.getElem?_modify, h]
  simp

theorem burn_kept {s : ActionStore} {k j : Nat} {p : Permit} (h : s.permits[j]? = some p) :
    ∃ q, (s.burn k).permits[j]? = some q ∧ q.row = p.row ∧ q.payload = p.payload ∧
      (p.consumed = true → q.consumed = true) := by
  rw [show (s.burn k).permits = s.permits.modify k _ from rfl, List.getElem?_modify, h]
  refine ⟨_, rfl, ?_⟩
  dsimp only
  split
  · exact ⟨rfl, rfl, fun _ => rfl⟩
  · exact ⟨rfl, rfl, id⟩

theorem burn_hashes (s : ActionStore) (k : Nat) :
    ((s.burn k).permits.map fun p => p.row.originalCallHash) =
      s.permits.map fun p => p.row.originalCallHash := by
  apply List.ext_getElem?
  intro j
  rw [List.getElem?_map, List.getElem?_map, show (s.burn k).permits = s.permits.modify k _ from rfl,
    List.getElem?_modify]
  cases s.permits[j]? with
  | none => rfl
  | some p =>
    show some _ = some _
    dsimp only
    split <;> rfl

theorem Permits.burn {db : Db} {s : ActionStore} (h : Permits codec db s) (k : Nat) :
    Permits codec db (s.burn k) where
  ok := by
    intro q hq
    obtain ⟨j, hj⟩ := List.mem_iff_getElem?.1 hq
    obtain ⟨p, hp, hrow, hpayload, -⟩ := burn_get hj
    exact (h.ok p (List.mem_of_getElem? hp)).of_row hrow hpayload
  distinct := by
    rw [burn_hashes]
    exact h.distinct
  dispatched := by
    intro d hd
    obtain ⟨p, hp, hconsumed, heq⟩ := h.dispatched d hd
    obtain ⟨q, hq, hrow, hpayload, hmark⟩ := burn_kept (k := k) hp
    refine ⟨q, hq, hmark hconsumed, ?_⟩
    rw [hrow, hpayload]
    exact heq
  once := h.once

theorem StoreStep.requested_sub {s s' : ActionStore} (h : StoreStep s s') :
    ∀ e ∈ s.requested, e ∈ s'.requested := by
  intro e he
  cases h with
  | requested more => exact List.mem_append_left more he
  | burn k => exact he
  | consume k p hp hfree => exact he

theorem StoreStep.permits_back {s s' : ActionStore} (h : StoreStep s s') {q : Permit}
    (hq : q ∈ s'.permits) : ∃ p ∈ s.permits, p.row = q.row := by
  cases h with
  | requested more => exact ⟨q, hq, rfl⟩
  | burn k =>
    obtain ⟨j, hj⟩ := List.mem_iff_getElem?.1 hq
    obtain ⟨p, hp, hrow, -⟩ := burn_get hj
    exact ⟨p, List.mem_of_getElem? hp, hrow.symm⟩
  | consume k p hp hfree =>
    obtain ⟨j, hj⟩ := List.mem_iff_getElem?.1 hq
    obtain ⟨p, hp, hrow, -⟩ := burn_get (k := k) hj
    exact ⟨p, List.mem_of_getElem? hp, hrow.symm⟩

/-- What is dispatched stays, and only a permit that was free is added. -/
theorem Permits.store {db : Db} {s s' : ActionStore} (h : Permits codec db s)
    (hstep : StoreStep s s') : Permits codec db s' := by
  cases hstep with
  | requested more =>
    exact ⟨fun p hp => (h.ok p hp).mono fun e he => List.mem_append_left more he, h.distinct,
      h.dispatched, h.once⟩
  | burn k => exact h.burn k
  | consume k p hp hfree =>
    have hb := h.burn k
    refine ⟨hb.ok, hb.distinct, ?_, ?_⟩
    · intro d hd
      rcases List.mem_append.1 hd with hd | hd
      · exact hb.dispatched d hd
      · rw [List.mem_singleton] at hd
        subst hd
        exact ⟨_, burn_self hp, rfl, rfl⟩
    · rw [List.map_append, List.nodup_append]
      refine ⟨h.once, List.pairwise_singleton _ _, ?_⟩
      intro j hj l hl heq
      rw [List.map_singleton, List.mem_singleton] at hl
      obtain ⟨d, hd, hdj⟩ := List.mem_map.1 hj
      -- an entry of this permit would have found it consumed
      obtain ⟨q, hq, hconsumed, -⟩ := h.dispatched d hd
      rw [hdj, heq, hl, hp] at hq
      cases hq
      rw [hfree] at hconsumed
      cases hconsumed

/-! ## Section 5: Steps -/

/-- The serial machine of the store. -/
abbrev Machine := Callers.Serial Cell Answer Reply ActionCall ActionStore

structure Inv (codec : ActionCodec) (s : Machine) : Prop where
  tables : Tables codec s.shared.requested s.db
  permits : Permits codec s.db s.shared
  started : ∀ i call tx, s.started i = some (call, tx) →
    Behaves codec s.shared.requested call tx

theorem inv_init {s : Machine}
    (h : ((ActionStore.callers codec accepts).serial ActionStore.Fresh).init s) : Inv codec s := by
  obtain ⟨⟨hactions, -, hasks, hrequested, hpermits, hdispatched⟩, hstarted⟩ := h
  have hempty : ∀ {P : Prop} {id : Text} {r : ActionRow}, Db.action s.db id = some r → P := by
    intro P id r hr
    rw [hactions id] at hr
    cases hr
  refine ⟨⟨⟨?_, ?_, hasks⟩, ?_, ?_, ?_, ?_, ?_⟩, ⟨?_, ?_, ?_, ?_⟩, ?_⟩
  · exact fun id r hr => hempty hr
  · exact fun id r hr => hempty hr
  · exact fun id r hr => hempty hr
  · exact fun id r hr => hempty hr
  · exact fun id r hr => hempty hr
  · exact fun id r hr => hempty hr
  · exact fun id id' r r' hr => hempty hr
  · intro p hp
    rw [hpermits] at hp
    cases hp
  · rw [hpermits]
    exact List.nodup_nil
  · intro d hd
    rw [hdispatched] at hd
    cases hd
  · rw [hdispatched]
    exact List.nodup_nil
  · intro i call tx hi
    rw [hstarted i] at hi
    cases hi

/-- The state later on: tombstones stay, a row only moves, a new permit is of a row that waited. -/
structure Later (s t : Machine) : Prop where
  reserved : ∀ hash, Db.reserved s.db hash = true → Db.reserved t.db hash = true
  rows : ∀ id r', Db.action t.db id = some r' →
    (∃ r, Db.action s.db id = some r ∧ Moves r r') ∨ Db.reserved s.db r'.originalCallHash = false
  permits : ∀ p ∈ t.shared.permits, (∃ q ∈ s.shared.permits, q.row = p.row) ∨
    (∃ r, Db.action s.db p.row.id = some r ∧ Waiting r.state ∧ Moves r p.row) ∨
    Db.reserved s.db p.row.originalCallHash = false

theorem Later.refl (s : Machine) : Later s s where
  reserved := fun _ h => h
  rows := fun _ r hr => .inl ⟨r, hr, .refl r⟩
  permits := fun p hp => .inl ⟨p, hp, rfl⟩

theorem Later.unreserved {s t : Machine} (h : Later s t) {hash : Hash}
    (hfree : Db.reserved t.db hash = false) : Db.reserved s.db hash = false := by
  rw [← Bool.not_eq_true] at hfree ⊢
  exact fun hreserved => hfree (h.reserved hash hreserved)

theorem Later.trans {s t u : Machine} (h : Later s t) (h' : Later t u) : Later s u where
  reserved := fun hash hreserved => h'.reserved hash (h.reserved hash hreserved)
  rows := by
    intro id r'' hr''
    rcases h'.rows id r'' hr'' with ⟨r', hr', hmoves'⟩ | hfree
    · rcases h.rows id r' hr' with ⟨r, hr, hmoves⟩ | hfree
      · exact .inl ⟨r, hr, hmoves.trans hmoves'⟩
      · rw [hmoves'.hash]
        exact .inr hfree
    · exact .inr (h.unreserved hfree)
  permits := by
    intro p hp
    rcases h'.permits p hp with ⟨q, hq, hrow⟩ | ⟨r', hr', hwaiting, hmoves'⟩ | hfree
    · rw [← hrow]
      exact h.permits q hq
    · rcases h.rows _ r' hr' with ⟨r, hr, hmoves⟩ | hfree
      · exact .inr (.inl ⟨r, hr, path_waiting hmoves.path hwaiting, hmoves.trans hmoves'⟩)
      · rw [hmoves'.hash]
        exact .inr (.inr hfree)
    · exact .inr (.inr (h.unreserved hfree))

section Step

variable {s : Machine} {db : Db} {started : Nat → Option (ActionCall × Tx)}

/-- What has been started goes on as it was, whatever else starts or ends. -/
theorem started_sub {requested : List Envelope}
    (h : ∀ i call tx, s.started i = some (call, tx) → Behaves codec requested call tx) (j : Nat)
    (new : Option (ActionCall × Tx))
    (hnew : ∀ call tx, new = some (call, tx) → Behaves codec requested call tx) :
    ∀ i call tx, Function.update s.started j new i = some (call, tx) →
      Behaves codec requested call tx := by
  intro i call tx hi
  by_cases hij : i = j
  · subst hij
    rw [Function.update_self] at hi
    exact hnew call tx hi
  · rw [Function.update_of_ne hij] at hi
    exact h i call tx hi

/-- The store's part of a call. -/
theorem Inv.store (h : Inv codec s) {shared : ActionStore}
    (started : Nat → Option (ActionCall × Tx)) (hstep : StoreStep s.shared shared) :
    Tables codec shared.requested s.db ∧ Permits codec s.db shared ∧
      Later s { s with shared := shared, started := started } := by
  refine ⟨h.tables.mono hstep.requested_sub, h.permits.store hstep, ?_⟩
  refine ⟨fun _ hreserved => hreserved, fun id r hr => .inl ⟨r, hr, .refl r⟩, ?_⟩
  intro p hp
  exact .inl (hstep.permits_back hp)

theorem later_effect (h : Inv codec s) (heffect : Effect codec s.db db) :
    Later s { s with db := db, started := started } where
  reserved := fun hash hreserved => (heffect.calls hash).trans hreserved
  rows := by
    intro id r' hr'
    obtain ⟨r, hr, hmoves, -⟩ := Effect.row_back h.tables.toDbOk heffect hr'
    exact .inl ⟨r, hr, hmoves⟩
  permits := fun p hp => .inl ⟨p, hp, rfl⟩

/-- A transaction that commits, its answer lost. -/
theorem inv_effect (h : Inv codec s) (heffect : Effect codec s.db db) :
    Tables codec s.shared.requested db ∧ Permits codec db s.shared :=
  ⟨h.tables.effect heffect, fun p hp => (h.permits.ok p hp).effect h.tables.toDbOk heffect,
    h.permits.distinct, h.permits.dispatched, h.permits.once⟩

/-- The permit of a claim is the first of its call. -/
theorem permits_claim (h : Inv codec s) (heffect : Effect codec s.db db) {row : ActionRow}
    {payload : PersonalMailPayload} (policyHash : Option Hash)
    (hclaimed : Claimed codec s.db db row payload) :
    Permits codec db { s.shared with
      permits := s.shared.permits ++ [⟨row, payload, policyHash, false⟩] } := by
  obtain ⟨-, hpermits⟩ := inv_effect h heffect
  refine ⟨?_, ?_, ?_, hpermits.once⟩
  · intro p hp
    rcases List.mem_append.1 hp with hp | hp
    · exact hpermits.ok p hp
    · rw [List.mem_singleton.1 hp]
      exact PermitOk.claim h.tables heffect hclaimed
  · rw [List.map_append, List.nodup_append]
    refine ⟨hpermits.distinct, List.pairwise_singleton _ _, ?_⟩
    intro hash hhash other hother heq
    rw [List.map_singleton, List.mem_singleton] at hother
    obtain ⟨p, hp, hphash⟩ := List.mem_map.1 hhash
    obtain ⟨r, attempt, now, hr, hstate, hrow, -⟩ := hclaimed.before
    have hmoves : Moves r (r.claim attempt now) := claim_moves (h.tables.rows _ r hr) hstate
    -- a row with a permit has been claimed already
    have hattempted := path_attempted ((h.permits.ok p hp).row _ r hr ?_).path
      (h.permits.ok p hp).claimed
    · rw [hstate] at hattempted
      cases hattempted
    · rw [hphash, heq, hother, hrow]
      exact hmoves.hash.symm
  · intro d hd
    obtain ⟨p, hp, hd⟩ := hpermits.dispatched d hd
    exact ⟨p, by rw [List.getElem?_append_left (List.getElem?_eq_some_iff.1 hp).1]; exact hp, hd⟩

/-- A COMMIT, answered or not. -/
theorem inv_commit (h : Inv codec s) {call : ActionCall} {reply : Reply} (answered : Bool)
    (houtcome : Outcome codec s.shared.requested call s.db db reply) :
    let shared := if answered then ActionStore.finish call reply s.shared else s.shared
    Tables codec shared.requested db ∧ Permits codec db shared ∧
      shared.requested = s.shared.requested ∧
      Later s { s with db := db, shared := shared, started := started } := by
  -- the store stays, but for the permit of a claim
  have hkeep : call.isClaim = false ∨ answered = false ∨ (∀ row payload, reply ≠ .claim row payload) →
      (if answered then ActionStore.finish call reply s.shared else s.shared) = s.shared := by
    rintro (hcall | hanswered | hreply)
    · unfold ActionStore.finish
      split
      · split
        · cases hcall
        · rfl
      · rfl
    · rw [hanswered]
      rfl
    · unfold ActionStore.finish
      split
      · split
        · exact absurd rfl (hreply _ _)
        · rfl
      · rfl
  cases houtcome with
  | effect heffect hclaim =>
    obtain ⟨htables, hpermits⟩ := inv_effect h heffect
    by_cases hnew : call.isClaim = false ∨ answered = false ∨
        (∀ row payload, reply ≠ .claim row payload)
    · rw [hkeep hnew]
      exact ⟨htables, hpermits, rfl, later_effect h heffect⟩
    · simp only [not_or, Bool.not_eq_false, not_forall, not_not] at hnew
      obtain ⟨hcall, hanswered, row, payload, hreply⟩ := hnew
      have hclaimed := hclaim hcall row payload hreply
      cases call with
      | claimAction ref =>
        rw [hanswered, hreply]
        have hrows : Later s { s with db := _, started := started } := later_effect h heffect
        refine ⟨htables, permits_claim h heffect ref.policyHash hclaimed, rfl, hrows.reserved,
          hrows.rows, ?_⟩
        intro p hp
        rcases List.mem_append.1 hp with hp | hp
        · exact .inl ⟨p, hp, rfl⟩
        · rw [List.mem_singleton.1 hp]
          obtain ⟨r, attempt, now, hr, hstate, hrow, -⟩ := hclaimed.before
          refine .inr (.inl ⟨r, hr, .inr hstate, ?_⟩)
          rw [hrow]
          exact claim_moves (h.tables.rows _ r hr) hstate
      | _ => cases hcall
  | inserted hcall hinserted hsealed =>
    rw [hkeep (.inl hcall)]
    refine ⟨h.tables.inserted hinserted hsealed, ⟨?_, h.permits.distinct, h.permits.dispatched,
      h.permits.once⟩, rfl, ?_, ?_, fun p hp => .inl ⟨p, hp, rfl⟩⟩
    · exact fun p hp => (h.permits.ok p hp).inserted hinserted
    · intro hash hreserved
      rw [show Db.reserved _ hash = _ from hinserted.reserved hash, hreserved, Bool.true_or]
    · intro id r hr
      rcases hinserted.cases hr with ⟨rfl, rfl⟩ | hr
      · right
        rw [hinserted.hash]
        exact hinserted.free
      · exact .inl ⟨r, hr, .refl r⟩

/-- **One step** keeps the invariant, and only moves on. -/
theorem inv_step {t : Machine} {label : Callers.SerialLabel Answer ActionCall} (h : Inv codec s)
    (hstep : (ActionStore.callers codec accepts).serialNext s label = some t) :
    Inv codec t ∧ Later s t := by
  cases label with
  | call i call =>
    simp only [Callers.serialNext] at hstep
    split at hstep
    · cases hstep
    · split at hstep
      · cases hstep
        exact ⟨h, .refl s⟩
      · next shared hstart =>
        cases hstep
        -- The call is answered by the store alone.
        obtain ⟨hstore, -⟩ := start_step hstart
        obtain ⟨htables, hpermits, hlater⟩ := h.store s.started hstore
        exact ⟨⟨htables, hpermits, fun i call tx hi =>
          (h.started i call tx hi).mono hstore.requested_sub⟩, hlater⟩
      · next shared tx hstart =>
        cases hstep
        -- A transaction is started: what it may do is noted for its commit.
        obtain ⟨hstore, hbehaves⟩ := start_step hstart
        obtain ⟨htables, hpermits, hlater⟩ := h.store _ hstore
        refine ⟨⟨htables, hpermits, started_sub ?_ i _ ?_⟩, hlater⟩
        · exact fun i call tx hi => (h.started i call tx hi).mono hstore.requested_sub
        · intro call' tx' heq
          cases heq
          exact hbehaves tx rfl
  | commit i answers answered =>
    simp only [Callers.serialNext] at hstep
    split at hstep
    · cases hstep
    · next call tx hstarted =>
      split at hstep
      · cases hstep
      · next db' reply hexec =>
        cases hstep
        -- It runs at its commit, on the tables as they are then.
        have houtcome := (h.started i call tx hstarted s.db h.tables.toDbOk).exec hexec
        obtain ⟨htables, hpermits, hrequested, hlater⟩ := inv_commit h answered houtcome
        refine ⟨⟨htables, hpermits, ?_⟩, hlater⟩
        have hrest := started_sub h.started i none (by intro _ _ hnone; cases hnone)
        rw [← hrequested] at hrest
        exact hrest
  | abort i =>
    simp only [Callers.serialNext] at hstep
    split at hstep
    · cases hstep
      exact ⟨⟨h.tables, h.permits, started_sub h.started i none (by intro _ _ hnone; cases hnone)⟩, fun _ hreserved => hreserved,
        fun id r hr => .inl ⟨r, hr, .refl r⟩, fun p hp => .inl ⟨p, hp, rfl⟩⟩
    · cases hstep

end Step

/-! ## Section 6: Runs -/

abbrev Server := Callers.Server Cell Answer Reply ActionCall ActionStore

/-- What holds of two states of one run. -/
structure DispatchedOnce (codec : ActionCodec) (t u : Server) : Prop where
  /-- A call has one row over all of the run, which only moves on. -/
  row : ∀ id id' r r', Db.action t.db id = some r → Db.action u.db id' = some r' →
    originalCall r.selection = originalCall r'.selection → id = id' ∧ Moves r r'
  path : ∀ id r, Db.action u.db id = some r → Path .awaitingApproval r.state
  /-- A call that has had a row stays reserved, and a reserved call gets no row. -/
  reserved : ∀ id r, Db.action t.db id = some r →
    Db.reserved u.db (codec.originalHash r.selection) = true
  spent : ∀ id r, Db.action u.db id = some r →
    Db.reserved t.db (codec.originalHash r.selection) = true → ∃ r₀, Db.action t.db id = some r₀
  /-- A call is dispatched once, however often it is asked for. -/
  once : (u.shared.dispatched.map fun d => originalCall d.selection).Nodup
  /-- The payload was prepared, and is the one that the action's approval carries. -/
  payload : ∀ d ∈ u.shared.dispatched,
    ⟨d.actionId, d.selection, d.payload⟩ ∈ u.shared.requested ∧
      (∃ p callId a, u.shared.permits[d.permit]? = some p ∧ p.row.id = d.actionId ∧
        p.row.approvalCallId = some callId ∧ Db.approval u.db callId = some a ∧
        a.payloadHash = codec.payloadFingerprint d.payload) ∧
      ∀ id r, Db.action t.db id = some r → originalCall r.selection = originalCall d.selection →
        id = d.actionId ∧ codec.payload r = some d.payload
  /-- What has been cancelled or has expired gets no permit. -/
  closed : ∀ id r, Db.action t.db id = some r → r.state = .cancelled ∨ r.state = .expired →
    ∀ p ∈ u.shared.permits, originalCall p.row.selection ≠ originalCall r.selection
  /-- Every UPDATE of an action that is about to be made is one that the table takes. -/
  update : ∀ i x id r r' next, u.sessions i = some x →
    x.rest = .write (.action id) (some r') next → overlay x.own u.db (.action id) = some r →
    acceptsUpdate codec r r' = true

/-- What a permit's row was at an earlier time. -/
theorem permit_back {t u : Machine} (ht : Inv codec t) (hlater : Later t u) {p : Permit}
    (hp : p ∈ u.shared.permits) {id : Text} {r : ActionRow} (hr : Db.action t.db id = some r)
    (hhash : r.originalCallHash = p.row.originalCallHash) :
    id = p.row.id ∧ codec.payload r = codec.payload p.row ∧
      (r.state.attempted = true ∨ Waiting r.state) := by
  rcases hlater.permits p hp with ⟨q, hq, hrow⟩ | ⟨r₀, hr₀, hwaiting, hmoves⟩ | hfree
  · rw [← hrow] at hhash ⊢
    have hmoves := (ht.permits.ok q hq).row id r hr hhash
    exact ⟨(ht.tables.ids id r hr).symm.trans hmoves.id, payload_moves hmoves,
      .inl (path_attempted hmoves.path (ht.permits.ok q hq).claimed)⟩
  · have hid := ht.tables.unique id _ r r₀ hr hr₀ (hhash.trans hmoves.hash)
    rw [hid, hr₀] at hr
    cases hr
    exact ⟨hid, (payload_moves hmoves).symm, .inr hwaiting⟩
  · rw [← hhash, ht.tables.reserved id r hr] at hfree
    cases hfree

/-- **A personal action is dispatched at most once, with what was approved**: over any run, with
    any number of callers and whatever the table takes of their UPDATEs. -/
theorem personalAction_dispatched_once (codec : ActionCodec) (hlawful : codec.Lawful)
    (accepts : ActionRow → ActionRow → Bool) {s t u : Server}
    {ls ms : List (Callers.ServerLabel Answer ActionCall)}
    (hinit : (ActionStore.systemOn codec accepts).init s)
    (ht : (ActionStore.systemOn codec accepts).run s ls = some t)
    (hu : (ActionStore.systemOn codec accepts).run t ms = some u) : DispatchedOnce codec t u := by
  have hstep : ∀ s label t, Inv codec s →
      (ActionStore.callers codec accepts).serialNext s label = some t → Inv codec t :=
    fun _ _ _ h hnext => (inv_step h hnext).1
  -- The invariant is of the serial machine; the server runs as one of its runs.
  obtain ⟨-, hinv⟩ := Callers.server_invariant _ (fun _ => inv_init) hstep hinit ht
  have hrun : (ActionStore.systemOn codec accepts).run s (ls ++ ms) = some u := by
    rw [System.run_append, ht]
    exact hu
  obtain ⟨hserial, hinv'⟩ := Callers.server_invariant _ (fun _ => inv_init) hstep hinit hrun
  have hlater : Later t.erase u.erase := Callers.server_relation _ Later.refl
    (fun _ _ _ => Later.trans) (fun _ => inv_init) (fun _ _ _ => inv_step) hinit ht hu
  -- A row of `u` whose call was taken in `t` was there in `t`.
  have hback : ∀ id r', Db.action u.db id = some r' →
      Db.reserved t.db r'.originalCallHash = true →
      ∃ r, Db.action t.db id = some r ∧ Moves r r' := by
    intro id r' hr' hreserved
    refine (hlater.rows id r' hr').resolve_right ?_
    intro hfree
    rw [show Db.reserved t.erase.db _ = Db.reserved t.db _ from rfl, hreserved] at hfree
    cases hfree
  -- And a row of the same call has the hash of the permit.
  have hpermit : ∀ p ∈ u.shared.permits, ∀ id r, Db.action t.db id = some r →
      originalCall r.selection = originalCall p.row.selection →
      r.originalCallHash = p.row.originalCallHash := by
    intro p hp id r hr hcall
    rw [hinv.tables.hash id r hr, (hinv'.permits.ok p hp).hash]
    exact originalHash_eq hcall
  refine ⟨?_, hinv'.tables.path, ?_, ?_, ?_, ?_, ?_, ?_⟩
  · -- one row for a call
    intro id id' r r' hr hr' hcall
    have hhash : r.originalCallHash = r'.originalCallHash := by
      rw [hinv.tables.hash id r hr, hinv'.tables.hash id' r' hr']
      exact originalHash_eq hcall
    obtain ⟨r₀, hr₀, hmoves⟩ := hback id' r' hr' (hhash ▸ hinv.tables.reserved id r hr)
    have hid := hinv.tables.unique id id' r r₀ hr hr₀ (hhash.trans hmoves.hash)
    subst hid
    rw [show Db.action t.db id = some r₀ from hr₀] at hr
    cases hr
    exact ⟨rfl, hmoves⟩
  · intro id r hr
    rw [← hinv.tables.hash id r hr]
    exact hlater.reserved _ (hinv.tables.reserved id r hr)
  · intro id r hr hreserved
    rw [← hinv'.tables.hash id r hr] at hreserved
    obtain ⟨r₀, hr₀, -⟩ := hback id r hr hreserved
    exact ⟨r₀, hr₀⟩
  · -- two entries of one call have one permit
    rw [List.Nodup, List.pairwise_map]
    refine (List.pairwise_map.1 hinv'.permits.once).imp_of_mem ?_
    intro d e hd he hne hcall
    obtain ⟨p, hp, -, hdp⟩ := hinv'.permits.dispatched d hd
    obtain ⟨q, hq, -, heq⟩ := hinv'.permits.dispatched e he
    refine hne (hinv'.permits.distinct_get hp hq ?_)
    rw [(hinv'.permits.ok p (List.mem_of_getElem? hp)).hash,
      (hinv'.permits.ok q (List.mem_of_getElem? hq)).hash]
    rw [hdp, heq] at hcall
    exact originalHash_eq hcall
  · -- what was dispatched was asked for, approved and sealed
    intro d hd
    obtain ⟨p, hp, -, hdp⟩ := hinv'.permits.dispatched d hd
    have hmem := List.mem_of_getElem? hp
    have hok := hinv'.permits.ok p hmem
    obtain ⟨payload, hpayload, hrequested, hfingerprint⟩ := hok.sealed.payload hlawful
    rw [hok.payload] at hpayload
    cases hpayload
    obtain ⟨callId, a, hcallId, ha, hahash, -⟩ := hok.approval
    rw [hdp]
    refine ⟨hrequested, ⟨p, callId, a, hp, rfl, hcallId, ha, hahash.trans hfingerprint⟩, ?_⟩
    intro id r hr hcall
    obtain ⟨hid, hopened, -⟩ := permit_back hinv hlater hmem hr (hpermit p hmem id r hr hcall)
    exact ⟨hid, hopened.trans hok.payload⟩
  · -- a call that is closed has no permit
    intro id r hr hclosed p hp hcall
    obtain ⟨-, -, hattempted | hwaiting⟩ := permit_back hinv hlater hp hr
      (hpermit p hp id r hr hcall.symm)
    · rcases hclosed with hclosed | hclosed <;> rw [hclosed] at hattempted <;> cases hattempted
    · rcases hclosed with hclosed | hclosed <;> rw [hclosed] at hwaiting <;>
        rcases hwaiting with hwaiting | hwaiting <;> cases hwaiting
  · -- what a transaction is about to write, its row allows
    intro i x id r r' next hx hrest hr
    have hstarted : u.erase.started i = some (x.call, x.transaction) := by
      show (u.sessions i).map _ = _
      rw [hx]
      rfl
    have hensures := hserial.ensures hx (hinv'.started i _ _ hstarted u.db hinv'.tables.toDbOk)
    rw [hrest] at hensures
    obtain ⟨hpasses, -⟩ := hensures
    rw [hr] at hpasses
    exact hpasses

/-- One member, one mail. -/
def sampleSelection : Selection where
  actorMemberId := ['m']
  agentId := ['a']
  incarnation := ['i']
  sessionId := ['s']
  originalTurnId := ['t']
  originalCallId := ['c']
  accountId := ['x']
  accountGeneration := 1
  resourceBindingId := ['b']
  connectorId := ['k']

def samplePayload : PersonalMailPayload := ⟨[['r']], ['h'], ['b']⟩

/-- Only this mail, sealed as its action's id. -/
def sampleCodec : ActionCodec where
  acceptsSelection s := s == sampleSelection
  acceptsPayload payload := payload == samplePayload
  isHash _ := true
  isReceiptId _ := true
  envelopeBytes _ := 1
  encrypt e := e.actionId
  decrypt text := some ⟨text, sampleSelection, samplePayload⟩
  payloadFingerprint payload := payload.body
  selectionPrint s := s.originalCallId
  payloadPrint payload := payload.body
  authorityPrint
    | .personal d => d.actionId
    | .other _ document => document
  receiptPrint _ := []
  digest text := text
  iso _ := []

def sampleStart : Server where
  db
    | .action _ => none
    | .call _ => false
    | .approval _ => none
  shared := ⟨[], [], []⟩
  sessions := fun _ => none
  locks := fun _ => none

/-- The answered card of the mail. -/
def sampleAsk : Ask where
  callId := ['c']
  requestId := some ['q']
  agent := ['a']
  tool := PERSONAL_MAIL_SEND_TOOL
  payloadHash := ['b']
  originalAuthority := some (.personal ⟨none, ['1'], ['b'], sampleSelection, []⟩)
  actingMemberId := some ['m']
  resolvedByMemberId := some ['m']
  sessionId := some ['s']
  turnSequence := some 1
  askedAt := 0
  answeredAt := some 0
  outcome := some .approved
  usedAt := none
  useCount := 0

def sampleAnswer : Answer := ⟨0, ['u'], true, none, [], sampleAsk⟩

def sampleReference : Reference :=
  ⟨['1'], ['b'], ['c'], ['q'], ['m'], none, sampleSelection⟩

/-- A call whose transaction takes `statements` statements, on one connection. -/
def sampleCall (call : ActionCall) (statements : Nat) :
    List (Callers.ServerLabel Answer ActionCall) :=
  .call 0 call :: List.replicate statements (.statement 0 sampleAnswer) ++ [.commit 0 true]

/-- Prepare, reserve, attach, approve, claim; the permit is used twice. -/
def sampleLabels : List (Callers.ServerLabel Answer ActionCall) :=
  sampleCall (.prepareAction sampleSelection samplePayload ['1']) 8 ++
    sampleCall (.reserveApproval ['1'] ['m'] 1 none) 4 ++
    sampleCall (.attachApproval ['1'] ['m'] ['c'] ['q']) 5 ++
    sampleCall (.ask ['c']) 3 ++ sampleCall (.claimAction sampleReference) 6 ++
    [.call 0 (.consumeClaimPermit 0), .call 0 (.consumeClaimPermit 0)]

theorem sample_lawful : sampleCodec.Lawful := by
  intro actionId s payload hs hp
  rw [show s = sampleSelection from beq_iff_eq.1 hs, show payload = samplePayload from beq_iff_eq.1 hp]
  rfl

theorem personalAction_dispatched_once_sample :
    ∃ u, (ActionStore.system sampleCodec).run sampleStart sampleLabels = some u ∧
      DispatchedOnce sampleCodec u u ∧
      u.shared.dispatched = [⟨0, ['1'], some ['u'], sampleSelection, samplePayload⟩] := by
  have hdispatched : ((ActionStore.system sampleCodec).run sampleStart sampleLabels).map
      (fun u => u.shared.dispatched) =
      some [⟨0, ['1'], some ['u'], sampleSelection, samplePayload⟩] := by
    decide +kernel
  obtain ⟨u, hrun, hu⟩ := Option.map_eq_some_iff.1 hdispatched
  refine ⟨u, hrun, ?_, hu⟩
  refine personalAction_dispatched_once sampleCodec sample_lawful (acceptsUpdate sampleCodec) ?_ hrun
    (System.run_nil _ u)
  refine ⟨⟨fun _ => rfl, fun _ => rfl, ?_, rfl, rfl, rfl⟩, fun _ => rfl, fun _ => rfl⟩
  intro callId a ha
  cases (show (none : Option Ask) = some a from ha)

end Lares.Approvals
