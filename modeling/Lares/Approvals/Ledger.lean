import Mathlib.Data.List.Basic

/-! # The approval ledger

    A row of `approval_asks` and the triggers that guard it. The authority is a
    JSON document whose shape depends on who reserved the call, so it is a
    parameter.
-/

namespace Lares.Approvals

abbrev Text := List Char
abbrev Hash := Text
/-- Microseconds of the database's clock. -/
abbrev Time := Int

/-- `APPROVAL_TTL_MS`, in microseconds -/
def APPROVAL_TTL : Time := 24 * 60 * 60 * 1000 * 1000

/-- `ASK_OUTCOMES` -/
inductive AskOutcome where
  | approved | cancelled | ignored | invalid | expired | payloadChanged
  deriving DecidableEq, Repr

/-- A row of `approval_asks`. -/
structure ApprovalRow (Authority : Type) where
  callId : Text
  requestId : Option Text
  agent : Text
  tool : Text
  payloadHash : Hash
  /-- The authority of an exact card, or of a call of old. -/
  originalAuthority : Option Authority
  actingMemberId : Option Text
  /-- Who has answered. -/
  resolvedByMemberId : Option Text
  sessionId : Option Text
  turnSequence : Option Int
  askedAt : Time
  answeredAt : Option Time
  /-- `NULL` while it is open. -/
  outcome : Option AskOutcome
  /-- When it was claimed. -/
  usedAt : Option Time
  useCount : Nat
  deriving DecidableEq

variable {Authority : Type} [DecidableEq Authority]

/-- `guard_exact_approval_authority` lets the UPDATE pass. -/
def guardExactApprovalAuthority (old new : ApprovalRow Authority) : Bool :=
  old.originalAuthority == none ||
    (new.originalAuthority == old.originalAuthority && new.actingMemberId == old.actingMemberId &&
      new.callId == old.callId && new.agent == old.agent && new.tool == old.tool &&
      new.payloadHash == old.payloadHash && new.askedAt == old.askedAt &&
      (old.requestId == none || new.requestId == old.requestId) &&
      (old.resolvedByMemberId == none || new.resolvedByMemberId == old.resolvedByMemberId))

/-- What the trigger keeps of a row with an authority. -/
structure Kept (old new : ApprovalRow Authority) : Prop where
  authority : new.originalAuthority = old.originalAuthority
  member : new.actingMemberId = old.actingMemberId
  callId : new.callId = old.callId
  agent : new.agent = old.agent
  tool : new.tool = old.tool
  payloadHash : new.payloadHash = old.payloadHash
  askedAt : new.askedAt = old.askedAt
  /-- A request id, once there, stays. -/
  requestId : ∀ requestId, old.requestId = some requestId → new.requestId = some requestId
  /-- So does who has answered. -/
  resolver : ∀ member, old.resolvedByMemberId = some member →
    new.resolvedByMemberId = some member

omit [DecidableEq Authority] in
theorem Kept.refl (row : ApprovalRow Authority) : Kept row row :=
  ⟨rfl, rfl, rfl, rfl, rfl, rfl, rfl, fun _ h => h, fun _ h => h⟩

omit [DecidableEq Authority] in
theorem Kept.trans {a b c : ApprovalRow Authority} (h : Kept a b) (h' : Kept b c) : Kept a c where
  authority := h'.authority.trans h.authority
  member := h'.member.trans h.member
  callId := h'.callId.trans h.callId
  agent := h'.agent.trans h.agent
  tool := h'.tool.trans h.tool
  payloadHash := h'.payloadHash.trans h.payloadHash
  askedAt := h'.askedAt.trans h.askedAt
  requestId := fun requestId hold => h'.requestId requestId (h.requestId requestId hold)
  resolver := fun member hold => h'.resolver member (h.resolver member hold)

theorem guardExactApprovalAuthority_iff {old new : ApprovalRow Authority} {authority : Authority}
    (hauthority : old.originalAuthority = some authority) :
    guardExactApprovalAuthority old new = true ↔ Kept old new := by
  unfold guardExactApprovalAuthority
  rw [hauthority]
  simp only [reduceCtorEq, beq_iff_eq, Bool.or_eq_true, Bool.and_eq_true, false_or]
  constructor
  · rintro ⟨⟨⟨⟨⟨⟨⟨⟨hauth, hmember⟩, hcall⟩, hagent⟩, htool⟩, hpayload⟩, hasked⟩, hrequest⟩,
      hresolver⟩
    refine ⟨hauth.trans hauthority.symm, hmember, hcall, hagent, htool, hpayload, hasked, ?_, ?_⟩
    · intro requestId hold
      rw [hold] at hrequest
      exact hrequest.resolve_left nofun
    · intro member hold
      rw [hold] at hresolver
      exact hresolver.resolve_left nofun
  · intro h
    refine ⟨⟨⟨⟨⟨⟨⟨⟨h.authority.trans hauthority, h.member⟩, h.callId⟩, h.agent⟩, h.tool⟩,
      h.payloadHash⟩, h.askedAt⟩, ?_⟩, ?_⟩
    · cases hold : old.requestId with
      | none => exact .inl rfl
      | some requestId => exact .inr (h.requestId requestId hold)
    · cases hold : old.resolvedByMemberId with
      | none => exact .inl rfl
      | some member => exact .inr (h.resolver member hold)

end Lares.Approvals
