import Lares.Approvals.ExactCard
import Lares.Framework.OneUse

/-! # An exact card is used at most once, for what was approved

    * **Moves**: what one step of a request can do, for all of them.
    * **The log**: a claim comes after an approval and before any settlement, a
      dispatch comes after its claim.
    * **One use**: whoever has claimed a card holds it, as a request or as a
      capability; the cards refine things that are used once.
    * **Expiry**: an outside dispatch looks at the clock right before it is
      made. A write has its row read, waits for the repository and does not look
      again, so it is in time only where the wait is short enough.
-/

namespace Lares.Approvals.ExactCard

variable {codec : CardCodec} {s : Shared} {answer : Answer}

/-! ## Section 1: What a request knows -/

/-- The row has this reservation, for this call. -/
def RowIs (asks : Text → Option Card) (callId tool : Text) (payloadHash : Hash)
    (r : Reservation) : Prop :=
  ∃ row, asks callId = some row ∧ row.originalAuthority = some (.exact r) ∧ row.tool = tool ∧
    row.payloadHash = payloadHash

/-- Exact rows stay, and keep what the trigger keeps. -/
def Grows (asks asks' : Text → Option Card) : Prop :=
  ∀ callId row, asks callId = some row → row.originalAuthority ≠ none →
    ∃ row', asks' callId = some row' ∧ Kept row row'

theorem grows_refl (asks : Text → Option Card) : Grows asks asks :=
  fun _ row hrow _ => ⟨row, hrow, Kept.refl row⟩

theorem Grows.trans {a b c : Text → Option Card} (h : Grows a b) (h' : Grows b c) : Grows a c := by
  intro callId row hrow hexact
  obtain ⟨row', hrow', hkept⟩ := h callId row hrow hexact
  obtain ⟨row'', hrow'', hkept'⟩ := h' callId row' hrow' (by rw [hkept.authority]; exact hexact)
  exact ⟨row'', hrow'', hkept.trans hkept'⟩

theorem RowIs.grows {asks asks' : Text → Option Card} {callId tool : Text} {payloadHash : Hash}
    {r : Reservation} (h : RowIs asks callId tool payloadHash r) (hgrows : Grows asks asks') :
    RowIs asks' callId tool payloadHash r := by
  obtain ⟨row, hrow, hexact, htool, hhash⟩ := h
  obtain ⟨row', hrow', hkept⟩ := hgrows callId row hrow (by rw [hexact]; exact nofun)
  exact ⟨row', hrow', hkept.authority.trans hexact, hkept.tool.trans htool,
    hkept.payloadHash.trans hhash⟩

theorem RowIs.unique {asks : Text → Option Card} {callId tool tool' : Text} {hash hash' : Hash}
    {r r' : Reservation} (h : RowIs asks callId tool hash r) (h' : RowIs asks callId tool' hash' r') :
    r = r' ∧ tool = tool' ∧ hash = hash' := by
  obtain ⟨row, hrow, hexact, htool, hhash⟩ := h
  obtain ⟨row', hrow', hexact', htool', hhash'⟩ := h'
  rw [hrow] at hrow'
  cases hrow'
  rw [hexact] at hexact'
  cases hexact'
  exact ⟨rfl, htool.symm.trans htool', hhash.symm.trans hhash'⟩

/-- The call of a claimed card, whose approval does not end before `expiresAt`. -/
def CallIs (s : Shared) (callId tool : Text) (payloadHash : Hash) (expiresAt : Time) : Prop :=
  Event.claimed callId ∈ s.log ∧
    ∃ r, RowIs s.asks callId tool payloadHash r ∧ expiresAt ≤ r.expiresAt

/-- What a capability stands for. -/
def ResumeOk (s : Shared) (resume : Resume) : Prop :=
  ∃ tool hash, CallIs s resume.callId tool hash resume.expiresAt

def OutsideCall.rowIs (codec : CardCodec) (s : Shared) (call : OutsideCall) (r : Reservation) :
    Prop :=
  RowIs s.asks call.callId call.tool (codec.inputPrint call.tool call.input) r

def WriteRequest.rowIs (codec : CardCodec) (s : Shared) (w : WriteRequest) (r : Reservation) :
    Prop :=
  RowIs s.asks w.approval.callId w.operation (codec.inputPrint w.operation w.input) r

namespace Request

/-- What is true while a request stands where it stands. -/
def Knows (codec : CardCodec) (s : Shared) : Request → Prop
  | approveUpdate response r => RowIs s.asks response.callId response.toolName
      (codec.inputPrint response.toolName response.toolInput) r
  | outsideClaim call _ _ r _ => call.rowIs codec s r
  | outsideCustody call _ _ expiresAt | outsideRecheck call _ _ expiresAt
  | outsideCapability call _ _ expiresAt _ =>
      CallIs s call.callId call.tool (codec.inputPrint call.tool call.input) expiresAt
  | executeCheck resume call _ _ => ResumeOk s resume ∧ resume.callId = call.callId
  | executeCurrent resume call _ _ r =>
      (ResumeOk s resume ∧ resume.callId = call.callId) ∧ call.rowIs codec s r
  | executeLock resume call _ _ target =>
      (ResumeOk s resume ∧ resume.callId = call.callId) ∧
        ∃ r, call.rowIs codec s r ∧ codec.targetPrint target = codec.targetPrint r.target
  | executeDispatch resume call _ _ target r =>
      (ResumeOk s resume ∧ resume.callId = call.callId) ∧ call.rowIs codec s r ∧
        codec.targetPrint target = codec.targetPrint r.target
  | writeClaimUse w r => w.rowIs codec s r
  | writeRead w => Event.claimed w.approval.callId ∈ s.log
  | writeUse w r | writeArea w r | commitFile w r =>
      Event.claimed w.approval.callId ∈ s.log ∧ w.rowIs codec s r ∧
      codec.approvalTargetPrint r.target = codec.approvalTargetPrint w.approval.target
  | _ => True

/-- The card that a request has claimed and may still use. -/
def holds : Request → Option Text
  | outsideCustody call .. | outsideRecheck call .. | outsideCapability call ..
  | executeCheck _ call .. | executeCurrent _ call .. | executeLock _ call ..
  | executeDispatch _ call .. => some call.callId
  | writeRead w | writeUse w _ | writeArea w _ | commitFile w _ => some w.approval.callId
  | _ => none

end Request

/-- What is known stays known: rows grow and the log is only appended to. -/
structure Extends (s t : Shared) : Prop where
  asks : Grows s.asks t.asks
  log : ∀ e ∈ s.log, e ∈ t.log

theorem Extends.refl (s : Shared) : Extends s s := ⟨grows_refl s.asks, fun _ h => h⟩

theorem CallIs.extends {s t : Shared} {callId tool : Text} {hash : Hash} {expiresAt : Time}
    (h : CallIs s callId tool hash expiresAt) (hext : Extends s t) :
    CallIs t callId tool hash expiresAt := by
  obtain ⟨hclaimed, r, hrow, hle⟩ := h
  exact ⟨hext.log _ hclaimed, r, hrow.grows hext.asks, hle⟩

theorem ResumeOk.extends {s t : Shared} {resume : Resume} (h : ResumeOk s resume)
    (hext : Extends s t) : ResumeOk t resume := by
  obtain ⟨tool, hash, hcall⟩ := h
  exact ⟨tool, hash, hcall.extends hext⟩

theorem Request.Knows.extends {s t : Shared} {request : Request} (h : request.Knows codec s)
    (hext : Extends s t) : request.Knows codec t := by
  cases request with
  | approveUpdate response r => exact RowIs.grows h hext.asks
  | outsideClaim call session deadline r requestId => exact RowIs.grows h hext.asks
  | outsideCustody call session deadline expiresAt => exact CallIs.extends h hext
  | outsideRecheck call session deadline expiresAt => exact CallIs.extends h hext
  | outsideCapability call session deadline expiresAt r => exact CallIs.extends h hext
  | executeCheck resume call session deadline => exact ⟨h.1.extends hext, h.2⟩
  | executeCurrent resume call session deadline r =>
    exact ⟨⟨h.1.1.extends hext, h.1.2⟩, RowIs.grows h.2 hext.asks⟩
  | executeLock resume call session deadline target =>
    obtain ⟨hresume, r, hrow, htarget⟩ := h
    exact ⟨⟨hresume.1.extends hext, hresume.2⟩, r, RowIs.grows hrow hext.asks, htarget⟩
  | executeDispatch resume call session deadline target r =>
    exact ⟨⟨h.1.1.extends hext, h.1.2⟩, RowIs.grows h.2.1 hext.asks, h.2.2⟩
  | writeClaimUse w r => exact RowIs.grows h hext.asks
  | writeRead w => exact hext.log _ h
  | writeUse w r | writeArea w r | commitFile w r =>
    exact ⟨hext.log _ h.1, RowIs.grows h.2.1 hext.asks, h.2.2⟩
  | _ => trivial

/-! ## Section 2: Moves -/

/-- An approval of exactly this reservation, by the member it was made for. -/
def Grants (codec : CardCodec) (e : Event) (callId : Text) (row : Card) (r : Reservation) : Prop :=
  ∃ member target, e = .approved callId member row.tool row.payloadHash target r.policyHash ∧
    some member = r.original.actingMemberId ∧
    codec.targetPrint target = codec.targetPrint r.target

/-- A dispatch of exactly this reservation. -/
structure Fits (codec : CardCodec) (d : Dispatch) (row : Card) (r : Reservation) : Prop where
  /-- The tool of the card. -/
  tool : d.tool = row.tool
  /-- Its input, by its print. -/
  payloadHash : d.payloadHash = row.payloadHash
  /-- Its target, by either print. -/
  target : codec.targetPrint d.target = codec.targetPrint r.target ∨
    codec.approvalTargetPrint d.target = codec.approvalTargetPrint r.target
  /-- The policy it was shown under. -/
  policyHash : d.policyHash = r.policyHash

/-- Everything that one step of a request can do. -/
inductive Move (codec : CardCodec) (s : Shared) (request : Request) : After → Prop
  /-- Nothing changes. -/
  | stay (next : Option Request) (hnext : ∀ r, next = some r →
      r.Knows codec s ∧ (r.holds = none ∨ r.holds = request.holds)) :
      Move codec s request (s, next)
  /-- A row is inserted. -/
  | insert (callId : Text) (row : Card) (next : Option Request) (hfree : s.asks callId = none)
      (hid : row.callId = callId) (hunused : row.usedAt = none) (hopen : row.outcome = none)
      (hnext : ∀ r, next = some r → r.Knows codec (s.setAsk callId row) ∧ r.holds = none) :
      Move codec s request (s.setAsk callId row, next)
  /-- An UPDATE that neither approves, settles nor claims. -/
  | update (callId : Text) (old new : Card) (hold : s.asks callId = some old)
      (hguard : guardExactApprovalAuthority old new = true) (hid : new.callId = old.callId)
      (hused : new.usedAt = old.usedAt) (hauthority : new.originalAuthority = old.originalAuthority)
      (houtcome : new.outcome = old.outcome ∨ old.originalAuthority = none) :
      Move codec s request (s.setAsk callId new, none)
  /-- The member approves the card. -/
  | approve (callId : Text) (old new : Card) (r : Reservation) (e : Event)
      (hold : s.asks callId = some old) (hguard : guardExactApprovalAuthority old new = true)
      (hexact : old.originalAuthority = some (.exact r)) (hid : new.callId = old.callId)
      (hused : new.usedAt = old.usedAt)
      (hopen : old.outcome = none ∨ old.outcome = some .approved)
      (hgrants : Grants codec e callId old r) :
      Move codec s request ((s.setAsk callId new).record e, none)
  /-- The card is settled. -/
  | settle (callId : Text) (old new : Card) (outcome : AskOutcome)
      (hold : s.asks callId = some old) (hguard : guardExactApprovalAuthority old new = true)
      (hexact : old.originalAuthority ≠ none) (hid : new.callId = old.callId)
      (hused : new.usedAt = old.usedAt) (hnew : new.outcome = some outcome)
      (hterminal : outcome ≠ .approved) :
      Move codec s request ((s.setAsk callId new).record (.settled callId outcome), none)
  /-- The card is claimed. -/
  | claim (callId : Text) (old new : Card) (r : Reservation) (next : Request)
      (hold : s.asks callId = some old) (hguard : guardExactApprovalAuthority old new = true)
      (hexact : old.originalAuthority = some (.exact r)) (hid : new.callId = old.callId)
      (happroved : old.outcome = some .approved) (hnew : new.outcome = old.outcome)
      (hunused : old.usedAt = none) (hused : new.usedAt ≠ none)
      (hnext : next.Knows codec ((s.setAsk callId new).record (.claimed callId)))
      (hholds : next.holds = some callId) :
      Move codec s request ((s.setAsk callId new).record (.claimed callId), some next)
  /-- A capability is taken. -/
  | take (capability : Text) (resume : Resume) (next : Option Request)
      (hresume : s.capabilities capability = some resume)
      (hnext : ∀ r, next = some r →
        r.Knows codec (s.setCapability capability none) ∧ r.holds = some resume.callId) :
      Move codec s request (s.setCapability capability none, next)
  /-- A capability is given out. -/
  | give (capability : Text) (resume : Resume) (hholds : request.holds = some resume.callId)
      (hresume : ResumeOk s resume) :
      Move codec s request (s.setCapability capability (some resume), none)
  /-- The call or write leaves. -/
  | dispatch (d : Dispatch) (row : Card) (r : Reservation) (hholds : request.holds = some d.callId)
      (hclaimed : Event.claimed d.callId ∈ s.log) (hrow : s.asks d.callId = some row)
      (hexact : row.originalAuthority = some (.exact r)) (hfits : Fits codec d row r)
      (htime : d.time < r.expiresAt ∨ d.time = s.now ∧
        ∃ w, request = .commitFile w r) :
      Move codec s request (s.record (.dispatched d), none)

theorem move_refuse {request : Request} : Move codec s request (refuse s) := by
  refine .stay none ?_
  intro r hr
  cases hr

theorem move_rowForCall {request : Request} {callId : Text} {next : Card → After}
    (h : ∀ row, s.asks callId = some row → row.originalAuthority ≠ none →
      Move codec s request (next row)) : Move codec s request (rowForCall s callId next) := by
  unfold rowForCall
  split
  · next row hrow =>
    split
    · exact move_refuse
    · next hexact => exact h row hrow hexact
  · exact move_refuse

theorem move_updateCard {request : Request} {callId : Text} {old new : Card}
    {next : Shared → After} (h : guardExactApprovalAuthority old new = true →
      Move codec s request (next (s.setAsk callId new))) :
    Move codec s request (updateCard s callId old new next) := by
  unfold updateCard
  split
  · next hguard => exact h hguard
  · exact move_refuse

theorem exact_some {now : Time} {row : Card} {tool : Text} {input : Input} {r : Reservation}
    (h : exact codec now row tool input = some r) :
    row.originalAuthority = some (.exact r) ∧ row.tool = tool ∧
      row.payloadHash = codec.inputPrint tool input ∧ now < r.expiresAt := by
  unfold exact at h
  split at h
  · next r' hexact =>
    split at h
    · next hchecks =>
      cases h
      exact ⟨hexact, hchecks.2.2.2.2.2.1, hchecks.2.2.2.2.2.2.1, hchecks.2.2.2.2.2.2.2⟩
    · cases h
  · cases h

theorem requireBound_some {now : Time} {row : Card} {session : Session} {tool : Text}
    {input : Input} {claimed : Bool} {r : Reservation}
    (h : requireBound codec now row session tool input claimed = some r) :
    exact codec now row tool input = some r := by
  unfold requireBound at h
  split at h
  · next r' hexact =>
    split at h
    · cases h
      exact hexact
    · cases h
  · cases h

theorem current_some {now : Time} {r : Reservation} {session : Session} {target : Option Target}
    (h : current codec now r session target answer = true) :
    some session.memberId = r.original.actingMemberId ∧ answer.policyHash = some r.policyHash ∧
      (∃ t, target = some t ∧ codec.targetPrint t = codec.targetPrint r.target) ∧
      now < r.expiresAt := by
  unfold current at h
  simp only [Bool.and_eq_true, beq_iff_eq, decide_eq_true_eq] at h
  obtain ⟨⟨⟨⟨-, hmember⟩, -⟩, hbinding⟩, htime⟩ := h
  split at hbinding
  · simp only [Bool.and_eq_true, beq_iff_eq, Option.any_eq_true] at hbinding
    obtain ⟨⟨⟨-, hpolicy⟩, t, ht, -, hprint⟩, -⟩ := hbinding
    exact ⟨hmember, hpolicy, ⟨t, ht, hprint⟩, htime⟩
  · cases hbinding

theorem rowIs_of_exact {now : Time} {callId : Text} {row : Card} {tool : Text} {input : Input}
    {r : Reservation} (hrow : s.asks callId = some row)
    (h : exact codec now row tool input = some r) :
    RowIs s.asks callId tool (codec.inputPrint tool input) r := by
  obtain ⟨hexact, htool, hhash, -⟩ := exact_some h
  exact ⟨row, hrow, hexact, htool, hhash⟩

/-- What `trackArea` has read is the row of the card that was shown. -/
theorem writeRow_some {w : WriteRequest} {now : Time} {card : Card} {claimed : Bool}
    {r : Reservation} (h : w.row codec now card claimed = some r) :
    card.originalAuthority = some (.exact r) ∧ card.tool = w.operation ∧
      card.payloadHash = codec.inputPrint w.operation w.input ∧
      codec.approvalTargetPrint r.target = codec.approvalTargetPrint w.approval.target := by
  unfold WriteRequest.row at h
  split at h
  · next r' hexact =>
    split at h
    · next hchecks =>
      cases h
      obtain ⟨-, -, htool, hhash, -, -, -, -, -, -, -, -, -, -, -, htarget, -⟩ := hchecks
      exact ⟨hexact, htool, hhash, htarget⟩
    · cases h
  · cases h

/-! ## Section 3: Every step is a move -/

/-- A step to a place where nothing has been claimed. -/
theorem move_stay {request next : Request} (hknows : next.Knows codec s)
    (hholds : next.holds = none ∨ next.holds = request.holds) :
    Move codec s request (s, some next) := by
  refine .stay (some next) ?_
  intro r hr
  cases hr
  exact ⟨hknows, hholds⟩

theorem move_done {request : Request} : Move codec s request (s, none) := move_refuse

theorem reserveStep_move (call : ReserveCall) :
    Move codec s (.reserveExactApproval call) (reserveStep codec s call answer) := by
  unfold reserveStep
  split
  · split
    · exact move_refuse
    · dsimp only
      split
      · exact move_stay trivial (.inl rfl)
      · next hfree =>
        refine .insert call.callId _ _ hfree rfl rfl rfl ?_
        intro r hr
        cases hr
        exact ⟨trivial, rfl⟩
  · exact move_refuse

theorem recordAskStep_move (requestId callId agent tool : Text) (payloadHash : Hash) :
    Move codec s (.recordAsk requestId callId agent tool payloadHash)
      (recordAskStep s requestId callId agent tool payloadHash) := by
  unfold recordAskStep
  split
  · exact move_done
  · next hfree =>
    refine .insert callId _ _ hfree rfl rfl rfl ?_
    intro r hr
    cases hr

theorem recordAnswerStep_move (requestId : Text) (outcome : AskOutcome) :
    Move codec s (.recordAnswer requestId outcome) (recordAnswerStep s requestId outcome answer) := by
  unfold recordAnswerStep
  split
  · exact move_refuse
  · split
    · exact move_refuse
    · next row hrow =>
      split
      · next hlegacy =>
        refine move_updateCard fun hguard => ?_
        exact .update _ row _ hrow hguard rfl rfl rfl (.inr hlegacy.2.2)
      · exact move_refuse

theorem reserveCheckStep_move (call : ReserveCall) (r : Reservation) :
    Move codec s (.reserveCheck call r) (reserveCheckStep codec s call r) := by
  refine move_rowForCall fun row hrow _ => ?_
  split
  · split
    · exact move_refuse
    · exact move_done
  · exact move_refuse

theorem attachStep_move (requestId callId tool : Text) (input : Input) :
    Move codec s (.attachExactApproval requestId callId tool input)
      (attachStep codec s requestId callId tool input) := by
  refine move_rowForCall fun row hrow _ => ?_
  split
  · exact move_refuse
  · exact move_stay trivial (.inl rfl)

theorem attachUpdateStep_move (requestId callId : Text) :
    Move codec s (.attachUpdate requestId callId) (attachUpdateStep s requestId callId) := by
  unfold attachUpdateStep
  split
  · exact move_refuse
  · next row hrow =>
    split
    · refine move_updateCard fun hguard => ?_
      exact .update callId row _ hrow hguard rfl rfl rfl (.inl rfl)
    · exact move_refuse

theorem approveStep_move (response : Response) :
    Move codec s (.approveExactResponse response) (approveStep codec s response) := by
  refine move_rowForCall fun row hrow _ => ?_
  split
  · next r hexact =>
    split
    · exact move_stay (rowIs_of_exact hrow hexact) (.inl rfl)
    · exact move_refuse
  · exact move_refuse

theorem approveUpdateStep_move (response : Response) (r : Reservation)
    (hknows : (Request.approveUpdate response r).Knows codec s) :
    Move codec s (.approveUpdate response r) (approveUpdateStep codec s response r answer) := by
  obtain ⟨row, hrow, hexact, htool, hhash⟩ := hknows
  unfold approveUpdateStep
  split
  · next hcurrent =>
    obtain ⟨hmember, hpolicy, ⟨target, htarget, hprint⟩, -⟩ := current_some hcurrent
    rw [hrow]
    dsimp only
    split
    · next hopen =>
      refine move_updateCard fun hguard => ?_
      rw [htarget, hpolicy]
      refine .approve response.callId row _ r _ hrow hguard hexact rfl rfl
        (hopen.2.2.imp_right And.left) ⟨response.own.memberId, target, ?_, hmember, hprint⟩
      rw [htool, hhash]
    · exact move_refuse
  · exact move_refuse

theorem settleStep_move (requestId : Text) (outcome : AskOutcome) :
    Move codec s (.settleExactInput requestId outcome) (settleStep s requestId outcome answer) := by
  unfold settleStep
  split
  · exact move_done
  · next houtcome =>
    split
    · exact move_done
    · split
      · exact move_done
      · next row hrow =>
        split
        · next hopen =>
          refine move_updateCard fun hguard => ?_
          refine .settle _ row _ outcome hrow hguard hopen.2.1 rfl rfl rfl ?_
          rintro rfl
          exact houtcome ⟨nofun, nofun, nofun⟩
        · exact move_done

/-- The claim, which whoever makes it then holds. -/
theorem claimUpdate_move {request next : Request} {callId requestId tool : Text} {hash : Hash}
    {r : Reservation} (hrow : RowIs s.asks callId tool hash r)
    (hnext : ∀ t : Shared, Event.claimed callId ∈ t.log → RowIs t.asks callId tool hash r →
      next.Knows codec t) (hholds : next.holds = some callId) :
    Move codec s request (claimUpdate s callId requestId next) := by
  obtain ⟨row, hrow, hexact, htool, hhash⟩ := hrow
  unfold claimUpdate
  rw [hrow]
  dsimp only
  split
  · next hopen =>
    refine move_updateCard fun hguard => ?_
    refine .claim callId row _ r next hrow hguard hexact rfl hopen.2.1 rfl hopen.2.2 nofun
      (hnext _ ?_ ?_) hholds
    · exact List.mem_append_right _ (List.mem_singleton_self _)
    · exact ⟨_, Function.update_self .., hexact, htool, hhash⟩
  · exact move_refuse

theorem outsideApproveStep_move (call : OutsideCall) (session : Session) (requestDeadline : Time) :
    Move codec s (.outsideApprove call session requestDeadline)
      (outsideApproveStep codec s call session requestDeadline) := by
  refine move_rowForCall fun row hrow _ => ?_
  split
  · next r requestId hbound _ =>
    exact move_stay (rowIs_of_exact hrow (requireBound_some hbound)) (.inl rfl)
  · exact move_refuse

theorem outsideClaimStep_move (call : OutsideCall) (session : Session) (requestDeadline : Time)
    (r : Reservation) (requestId : Text)
    (hknows : (Request.outsideClaim call session requestDeadline r requestId).Knows codec s) :
    Move codec s (.outsideClaim call session requestDeadline r requestId)
      (outsideClaimStep codec s call session requestDeadline r requestId answer) := by
  unfold outsideClaimStep
  split
  · exact claimUpdate_move hknows (fun t hclaimed hrow => ⟨hclaimed, r, hrow, Int.le_refl _⟩) rfl
  · exact move_refuse

theorem outsideCustodyStep_move (call : OutsideCall) (session : Session)
    (requestDeadline expiresAt : Time)
    (hknows : (Request.outsideCustody call session requestDeadline expiresAt).Knows codec s) :
    Move codec s (.outsideCustody call session requestDeadline expiresAt)
      (outsideCustodyStep s call session requestDeadline expiresAt answer) := by
  unfold outsideCustodyStep
  dsimp only
  split
  · obtain ⟨hclaimed, r, hrow, hle⟩ := hknows
    exact move_stay ⟨hclaimed, r, hrow, Int.le_trans (Int.min_le_left ..) hle⟩ (.inr rfl)
  · exact move_refuse

theorem outsideRecheckStep_move (call : OutsideCall) (session : Session)
    (requestDeadline expiresAt : Time)
    (hknows : (Request.outsideRecheck call session requestDeadline expiresAt).Knows codec s) :
    Move codec s (.outsideRecheck call session requestDeadline expiresAt)
      (outsideRecheckStep codec s call session requestDeadline expiresAt) := by
  refine move_rowForCall fun row hrow _ => ?_
  split
  · exact move_stay hknows (.inr rfl)
  · exact move_refuse

theorem outsideCapabilityStep_move (call : OutsideCall) (session : Session)
    (requestDeadline expiresAt : Time) (r : Reservation)
    (hknows : (Request.outsideCapability call session requestDeadline expiresAt r).Knows codec s) :
    Move codec s (.outsideCapability call session requestDeadline expiresAt r)
      (outsideCapabilityStep codec s call session requestDeadline expiresAt r answer) := by
  unfold outsideCapabilityStep
  split
  · exact .give answer.uuid _ rfl ⟨_, _, hknows⟩
  · exact move_refuse

theorem outsideExecuteStep_move (capability : Text) (call : OutsideCall) (session : Session)
    (requestDeadline : Time)
    (hresumes : ∀ capability resume, s.capabilities capability = some resume → ResumeOk s resume) :
    Move codec s (.outsideExecute capability call session requestDeadline)
      (outsideExecuteStep codec s capability call session requestDeadline) := by
  unfold outsideExecuteStep
  split
  · exact move_refuse
  · next resume hresume =>
    split
    · next hsame =>
      refine .take capability resume _ hresume ?_
      intro r hr
      cases hr
      exact ⟨⟨hresumes capability resume hresume, hsame.2.2.1⟩, congrArg some hsame.2.2.1.symm⟩
    · refine .take capability resume _ hresume ?_
      intro r hr
      cases hr

theorem executeCheckStep_move (resume : Resume) (call : OutsideCall) (session : Session)
    (requestDeadline : Time)
    (hknows : (Request.executeCheck resume call session requestDeadline).Knows codec s) :
    Move codec s (.executeCheck resume call session requestDeadline)
      (executeCheckStep codec s resume call session requestDeadline) := by
  refine move_rowForCall fun row hrow _ => ?_
  split
  · next r hbound =>
    exact move_stay ⟨hknows, rowIs_of_exact hrow (requireBound_some hbound)⟩ (.inr rfl)
  · exact move_refuse

theorem executeCurrentStep_move (resume : Resume) (call : OutsideCall) (session : Session)
    (requestDeadline : Time) (r : Reservation)
    (hknows : (Request.executeCurrent resume call session requestDeadline r).Knows codec s) :
    Move codec s (.executeCurrent resume call session requestDeadline r)
      (executeCurrentStep codec s resume call session requestDeadline r answer) := by
  unfold executeCurrentStep
  dsimp only
  split
  · next hcurrent =>
    obtain ⟨-, -, ⟨target, htarget, hprint⟩, -⟩ := current_some hcurrent.1
    cases htarget
    exact move_stay ⟨hknows.1, r, hknows.2, hprint⟩ (.inr rfl)
  · exact move_refuse

theorem executeLockStep_move (resume : Resume) (call : OutsideCall) (session : Session)
    (requestDeadline : Time) (target : Target)
    (hknows : (Request.executeLock resume call session requestDeadline target).Knows codec s) :
    Move codec s (.executeLock resume call session requestDeadline target)
      (executeLockStep codec s resume call session requestDeadline target) := by
  obtain ⟨hresume, r, hrow, hprint⟩ := hknows
  obtain ⟨row, hasks, hexact, htool, hhash⟩ := id hrow
  unfold executeLockStep
  rw [hasks]
  dsimp only
  rw [hexact]
  dsimp only
  split
  · exact move_stay ⟨hresume, hrow, hprint⟩ (.inr rfl)
  · exact move_refuse

/-- The capability does not outlive the reservation, and the clock has just been looked at. -/
theorem executeDispatchStep_move (resume : Resume) (call : OutsideCall) (session : Session)
    (requestDeadline : Time) (target : Target) (r : Reservation)
    (hknows : (Request.executeDispatch resume call session requestDeadline target r).Knows codec s) :
    Move codec s (.executeDispatch resume call session requestDeadline target r)
      (executeDispatchStep codec s resume call requestDeadline target r answer) := by
  obtain ⟨⟨⟨tool, hash, hclaimed, r', hrow', hle⟩, hcall⟩, hrow, hprint⟩ := hknows
  rw [hcall] at hclaimed hrow'
  obtain ⟨rfl, -, -⟩ := hrow.unique hrow'
  obtain ⟨row, hasks, hexact, htool, hhash⟩ := hrow
  unfold executeDispatchStep
  split
  · next hnow =>
    exact .dispatch _ row r rfl hclaimed hasks hexact ⟨htool.symm, hhash.symm, .inl hprint, rfl⟩
      (.inl (Int.lt_of_lt_of_le hnow.2.2 hle))
  · exact move_refuse

theorem trackArea_move {request : Request} (w : WriteRequest) (claimed : Bool)
    (next : Reservation → Request) (hholds : ∀ r, (next r).holds = none ∨
      (next r).holds = request.holds)
    (hknows : ∀ r, w.rowIs codec s r →
      codec.approvalTargetPrint r.target = codec.approvalTargetPrint w.approval.target →
      (next r).Knows codec s) :
    Move codec s request (trackArea codec s w claimed next) := by
  unfold trackArea
  split
  · next card _ hcard =>
    split
    · next r hrow =>
      obtain ⟨hexact, htool, hhash, htarget⟩ := writeRow_some hrow
      exact move_stay (hknows r ⟨card, hcard, hexact, htool, hhash⟩ htarget) (hholds r)
    · exact move_refuse
  · exact move_refuse

theorem writeBeforeUseStep_move (w : WriteRequest) (r : Reservation) :
    Move codec s (.writeBeforeUse w r) (writeBeforeUseStep s w r answer) := by
  unfold writeBeforeUseStep
  split
  · exact move_stay trivial (.inl rfl)
  · exact move_refuse

theorem writeClaimUseStep_move (w : WriteRequest) (r : Reservation)
    (hknows : (Request.writeClaimUse w r).Knows codec s) :
    Move codec s (.writeClaimUse w r) (writeClaimUseStep s w r answer) := by
  unfold writeClaimUseStep
  split
  · exact claimUpdate_move hknows (fun t hclaimed _ => hclaimed) rfl
  · exact move_refuse

theorem writeUseStep_move (w : WriteRequest) (r : Reservation)
    (hknows : (Request.writeUse w r).Knows codec s) :
    Move codec s (.writeUse w r) (writeUseStep s w r answer) := by
  unfold writeUseStep
  split
  · exact move_stay hknows (.inr rfl)
  · exact move_refuse

theorem writeAreaStep_move (w : WriteRequest) (r : Reservation)
    (hknows : (Request.writeArea w r).Knows codec s) :
    Move codec s (.writeArea w r) (writeAreaStep s w r answer) := by
  unfold writeAreaStep
  split
  · exact move_stay hknows (.inr rfl)
  · exact move_refuse

/-- Nothing looks at the clock between the row and the write but the request's own deadline, and
    that is before the wait for the repository. -/
theorem commitFileStep_move (w : WriteRequest) (r : Reservation)
    (hknows : (Request.commitFile w r).Knows codec s) :
    Move codec s (.commitFile w r) (commitFileStep codec s w r answer) := by
  obtain ⟨hclaimed, ⟨row, hasks, hexact, htool, hhash⟩, htarget⟩ := hknows
  unfold commitFileStep
  split
  · exact .dispatch _ row r rfl hclaimed hasks hexact
      ⟨htool.symm, hhash.symm, .inr htarget.symm, rfl⟩ (.inr ⟨rfl, w, rfl⟩)
  · exact move_refuse

/-- **Every step is a move**. -/
theorem step_move {request : Request} (hknows : request.Knows codec s)
    (hresumes : ∀ capability resume, s.capabilities capability = some resume → ResumeOk s resume) :
    Move codec s request (request.step codec s answer) := by
  cases request with
  | recordAsk requestId callId agent tool payloadHash => exact recordAskStep_move ..
  | recordAnswer requestId outcome => exact recordAnswerStep_move ..
  | reserveExactApproval call => exact reserveStep_move call
  | reserveCheck call r => exact reserveCheckStep_move call r
  | attachExactApproval requestId callId tool input => exact attachStep_move ..
  | attachUpdate requestId callId => exact attachUpdateStep_move ..
  | approveExactResponse response => exact approveStep_move response
  | approveUpdate response r => exact approveUpdateStep_move response r hknows
  | settleExactInput requestId outcome => exact settleStep_move ..
  | outsideApprove call session deadline => exact outsideApproveStep_move ..
  | outsideClaim call session deadline r requestId => exact outsideClaimStep_move _ _ _ _ _ hknows
  | outsideCustody call session deadline expiresAt => exact outsideCustodyStep_move _ _ _ _ hknows
  | outsideRecheck call session deadline expiresAt => exact outsideRecheckStep_move _ _ _ _ hknows
  | outsideCapability call session deadline expiresAt r =>
    exact outsideCapabilityStep_move _ _ _ _ _ hknows
  | outsideExecute capability call session deadline =>
    exact outsideExecuteStep_move _ _ _ _ hresumes
  | executeCheck resume call session deadline => exact executeCheckStep_move _ _ _ _ hknows
  | executeCurrent resume call session deadline r =>
    exact executeCurrentStep_move _ _ _ _ _ hknows
  | executeLock resume call session deadline target => exact executeLockStep_move _ _ _ _ _ hknows
  | executeDispatch resume call session deadline target r =>
    exact executeDispatchStep_move _ _ _ _ _ _ hknows
  | writeBefore w => exact trackArea_move w false _ (fun _ => .inl rfl) fun _ _ _ => trivial
  | writeBeforeUse w r => exact writeBeforeUseStep_move w r
  | writeClaim w => exact trackArea_move w false _ (fun _ => .inl rfl) fun _ hrow _ => hrow
  | writeClaimUse w r => exact writeClaimUseStep_move w r hknows
  | writeRead w =>
    exact trackArea_move w true _ (fun _ => .inr rfl) fun _ hrow htarget => ⟨hknows, hrow, htarget⟩
  | writeUse w r => exact writeUseStep_move w r hknows
  | writeArea w r => exact writeAreaStep_move w r hknows
  | commitFile w r => exact commitFileStep_move w r hknows

/-! ## Section 4: The log -/

/-- What must have been logged before an event. -/
def Justified (codec : CardCodec) (asks : Text → Option Card) (before : List Event) :
    Event → Prop
  | .claimed callId => (∃ row r, asks callId = some row ∧
      row.originalAuthority = some (.exact r) ∧ ∃ e ∈ before, Grants codec e callId row r) ∧
      ∀ outcome, Event.settled callId outcome ∉ before
  | .dispatched d => Event.claimed d.callId ∈ before ∧ ∃ row r, asks d.callId = some row ∧
      row.originalAuthority = some (.exact r) ∧ Fits codec d row r
  | _ => True

theorem Grants.kept {e : Event} {callId : Text} {row row' : Card} {r : Reservation}
    (h : Grants codec e callId row r) (hkept : Kept row row') : Grants codec e callId row' r := by
  obtain ⟨member, target, he, hmember⟩ := h
  refine ⟨member, target, ?_, hmember⟩
  rw [hkept.tool, hkept.payloadHash]
  exact he

theorem Justified.grows {asks asks' : Text → Option Card} {before : List Event} {e : Event}
    (h : Justified codec asks before e) (hgrows : Grows asks asks') :
    Justified codec asks' before e := by
  cases e with
  | claimed callId =>
    obtain ⟨⟨row, r, hrow, hexact, e, he, hgrants⟩, hsettled⟩ := h
    obtain ⟨row', hrow', hkept⟩ := hgrows callId row hrow (by rw [hexact]; exact nofun)
    exact ⟨⟨row', r, hrow', hkept.authority.trans hexact, e, he, hgrants.kept hkept⟩, hsettled⟩
  | dispatched d =>
    obtain ⟨hclaimed, row, r, hrow, hexact, hfits⟩ := h
    obtain ⟨row', hrow', hkept⟩ := hgrows d.callId row hrow (by rw [hexact]; exact nofun)
    exact ⟨hclaimed, row', r, hrow', hkept.authority.trans hexact,
      hfits.tool.trans hkept.tool.symm, hfits.payloadHash.trans hkept.payloadHash.symm,
      hfits.target, hfits.policyHash⟩
  | _ => trivial

structure Inv (codec : CardCodec) (s : Shared) : Prop where
  /-- Rows stand under their own call. -/
  ids : ∀ callId row, s.asks callId = some row → row.callId = callId
  /-- What is approved was approved by a member who saw the card. -/
  granted : ∀ callId row r, s.asks callId = some row → row.originalAuthority = some (.exact r) →
    row.outcome = some .approved → ∃ e ∈ s.log, Grants codec e callId row r
  /-- What was settled is settled still, and not approved. -/
  settled : ∀ callId outcome, Event.settled callId outcome ∈ s.log → ∃ row,
    s.asks callId = some row ∧ row.originalAuthority ≠ none ∧ row.outcome ≠ none ∧
      row.outcome ≠ some .approved
  /-- What is used was claimed. -/
  used : ∀ callId row r, s.asks callId = some row → row.originalAuthority = some (.exact r) →
    row.usedAt ≠ none → Event.claimed callId ∈ s.log
  /-- Every event has its reason before it. -/
  order : ∀ before e after, s.log = before ++ e :: after → Justified codec s.asks before e
  /-- A capability is of a card that was claimed. -/
  resumes : ∀ capability resume, s.capabilities capability = some resume → ResumeOk s resume

theorem guard_exact {old new : Card} (hexact : old.originalAuthority ≠ none)
    (hguard : guardExactApprovalAuthority old new = true) : Kept old new := by
  obtain ⟨authority, hsome⟩ := Option.ne_none_iff_exists'.1 hexact
  exact (guardExactApprovalAuthority_iff hsome).1 hguard

theorem grows_update {callId : Text} {old new : Card} (hold : s.asks callId = some old)
    (hguard : guardExactApprovalAuthority old new = true) :
    Grows s.asks (s.setAsk callId new).asks := by
  intro other row hrow hexact
  by_cases hother : other = callId
  · subst hother
    rw [hold] at hrow
    cases hrow
    exact ⟨new, Function.update_self .., guard_exact hexact hguard⟩
  · exact ⟨row, (Function.update_of_ne hother ..).trans hrow, Kept.refl row⟩

theorem grows_insert {callId : Text} {row : Card} (hfree : s.asks callId = none) :
    Grows s.asks (s.setAsk callId row).asks := by
  intro other old hold _
  refine ⟨old, (Function.update_of_ne ?_ ..).trans hold, Kept.refl old⟩
  rintro rfl
  rw [hfree] at hold
  cases hold

theorem mem_record {s : Shared} {e new : Event} (h : e ∈ s.log) : e ∈ (s.record new).log :=
  List.mem_append_left _ h

/-- A new event is the last one. -/
theorem order_record {log : List Event} {asks asks' : Text → Option Card} {e : Event}
    (h : ∀ before e after, log = before ++ e :: after → Justified codec asks before e)
    (hgrows : Grows asks asks') (he : Justified codec asks' log e) :
    ∀ before e' after, log ++ [e] = before ++ e' :: after → Justified codec asks' before e' := by
  intro before e' after heq
  rcases List.eq_nil_or_concat after with rfl | ⟨rest, last, rfl⟩
  · obtain ⟨rfl, hlast⟩ := List.append_inj' heq rfl
    cases hlast
    exact he
  · rw [List.concat_eq_append, ← List.cons_append, ← List.append_assoc] at heq
    obtain ⟨hlog, -⟩ := List.append_inj' heq rfl
    exact (h before e' rest hlog).grows hgrows

/-- The rows as they are after one of them has changed. -/
theorem setAsk_cases {callId other : Text} {new row : Card}
    (h : (s.setAsk callId new).asks other = some row) :
    (other = callId ∧ row = new) ∨ (other ≠ callId ∧ s.asks other = some row) := by
  by_cases hother : other = callId
  · subst hother
    rw [show (s.setAsk other new).asks other = some new from Function.update_self ..] at h
    cases h
    exact .inl ⟨rfl, rfl⟩
  · exact .inr ⟨hother, (Function.update_of_ne hother ..).symm.trans h⟩

/-- What a move leaves is later than what it found. -/
theorem Move.extends {request : Request} {after : After} (h : Move codec s request after) :
    Extends s after.1 := by
  cases h with
  | stay next hnext => exact .refl s
  | insert callId row next hfree => exact ⟨grows_insert hfree, fun _ he => he⟩
  | update callId old new hold hguard => exact ⟨grows_update hold hguard, fun _ he => he⟩
  | approve callId old new r e hold hguard =>
    exact ⟨grows_update hold hguard, fun _ he => mem_record he⟩
  | settle callId old new outcome hold hguard =>
    exact ⟨grows_update hold hguard, fun _ he => mem_record he⟩
  | claim callId old new r next hold hguard =>
    exact ⟨grows_update hold hguard, fun _ he => mem_record he⟩
  | take capability resume next => exact ⟨grows_refl s.asks, fun _ he => he⟩
  | give capability resume => exact ⟨grows_refl s.asks, fun _ he => he⟩
  | dispatch d => exact ⟨grows_refl s.asks, fun _ he => mem_record he⟩

section Update

variable {callId : Text} {old new : Card} {e : Event}

/-- The parts of the invariant that an UPDATE keeps, whatever it writes. -/
theorem ids_update (h : Inv codec s) (hold : s.asks callId = some old)
    (hid : new.callId = old.callId) :
    ∀ other row, (s.setAsk callId new).asks other = some row → row.callId = other := by
  intro other row hrow
  rcases setAsk_cases hrow with ⟨rfl, rfl⟩ | ⟨-, hrow⟩
  · exact hid.trans (h.ids _ old hold)
  · exact h.ids other row hrow

/-- The other rows are granted what they were granted. -/
theorem granted_update (h : Inv codec s) (log : List Event) (hlog : ∀ e ∈ s.log, e ∈ log)
    (hnew : ∀ r, new.originalAuthority = some (.exact r) → new.outcome = some .approved →
      ∃ e ∈ log, Grants codec e callId new r) :
    ∀ other row r, (s.setAsk callId new).asks other = some row →
      row.originalAuthority = some (.exact r) → row.outcome = some .approved →
      ∃ e ∈ log, Grants codec e other row r := by
  intro other row r hrow hexact happroved
  rcases setAsk_cases hrow with ⟨rfl, rfl⟩ | ⟨-, hrow⟩
  · exact hnew r hexact happroved
  · obtain ⟨e, he, hgrants⟩ := h.granted other row r hrow hexact happroved
    exact ⟨e, hlog e he, hgrants⟩

/-- What is used has been claimed. -/
theorem used_update (h : Inv codec s) (log : List Event) (hlog : ∀ e ∈ s.log, e ∈ log)
    (hnew : ∀ r, new.originalAuthority = some (.exact r) → new.usedAt ≠ none →
      Event.claimed callId ∈ log) :
    ∀ other row r, (s.setAsk callId new).asks other = some row →
      row.originalAuthority = some (.exact r) → row.usedAt ≠ none → Event.claimed other ∈ log := by
  intro other row r hrow hexact hused
  rcases setAsk_cases hrow with ⟨rfl, rfl⟩ | ⟨-, hrow⟩
  · exact hnew r hexact hused
  · exact hlog _ (h.used other row r hrow hexact hused)

/-- An UPDATE that leaves `used_at` alone. -/
theorem used_same (h : Inv codec s) (log : List Event) (hlog : ∀ e ∈ s.log, e ∈ log)
    (hold : s.asks callId = some old) (hused : new.usedAt = old.usedAt)
    (hauthority : new.originalAuthority = old.originalAuthority) :
    ∀ other row r, (s.setAsk callId new).asks other = some row →
      row.originalAuthority = some (.exact r) → row.usedAt ≠ none → Event.claimed other ∈ log := by
  refine used_update h log hlog ?_
  intro r hexact hne
  rw [hauthority] at hexact
  rw [hused] at hne
  exact hlog _ (h.used callId old r hold hexact hne)

/-- What has been settled is settled still, if this row is. -/
theorem settled_update (h : Inv codec s)
    (hnew : ∀ outcome, Event.settled callId outcome ∈ s.log →
      new.originalAuthority ≠ none ∧ new.outcome ≠ none ∧ new.outcome ≠ some .approved) :
    ∀ other outcome, Event.settled other outcome ∈ s.log → ∃ row,
      (s.setAsk callId new).asks other = some row ∧ row.originalAuthority ≠ none ∧
        row.outcome ≠ none ∧ row.outcome ≠ some .approved := by
  intro other outcome hmem
  by_cases hother : other = callId
  · subst hother
    exact ⟨new, Function.update_self .., hnew outcome hmem⟩
  · obtain ⟨row, hrow, hsettled⟩ := h.settled other outcome hmem
    exact ⟨row, (Function.update_of_ne hother ..).trans hrow, hsettled⟩

/-- A row that is open has not been settled. -/
theorem not_settled (h : Inv codec s) (hold : s.asks callId = some old)
    (hopen : old.outcome = none ∨ old.outcome = some .approved) (outcome : AskOutcome) :
    Event.settled callId outcome ∉ s.log := by
  intro hmem
  obtain ⟨row, hrow, -, hsome, hother⟩ := h.settled callId outcome hmem
  rw [hold] at hrow
  cases hrow
  exact hopen.elim hsome hother

/-- Nothing else is settled where another event is written down. -/
theorem settled_open {e : Event} (h : Inv codec s) (hold : s.asks callId = some old)
    (hopen : old.outcome = none ∨ old.outcome = some .approved)
    (hother : ∀ other outcome, e ≠ .settled other outcome) :
    ∀ other outcome, Event.settled other outcome ∈ ((s.setAsk callId new).record e).log → ∃ row,
      (s.setAsk callId new).asks other = some row ∧ row.originalAuthority ≠ none ∧
        row.outcome ≠ none ∧ row.outcome ≠ some .approved := by
  intro other outcome hmem
  refine settled_update h ?_ other outcome ?_
  · intro outcome hmem
    exact absurd hmem (not_settled h hold hopen outcome)
  · rcases List.mem_append.1 hmem with hmem | hmem
    · exact hmem
    · exact absurd (List.mem_singleton.1 hmem).symm (hother other outcome)

theorem resumes_extends {t : Shared} (h : Inv codec s) (hext : Extends s t)
    (hcapabilities : t.capabilities = s.capabilities) :
    ∀ capability resume, t.capabilities capability = some resume → ResumeOk t resume := by
  intro capability resume hresume
  rw [hcapabilities] at hresume
  exact (h.resumes capability resume hresume).extends hext

theorem inv_insert {row : Card} (h : Inv codec s) (hext : Extends s (s.setAsk callId row))
    (hfree : s.asks callId = none) (hid : row.callId = callId) (hunused : row.usedAt = none)
    (hopen : row.outcome = none) : Inv codec (s.setAsk callId row) := by
  refine ⟨?_, ?_, ?_, ?_, ?_, resumes_extends h hext rfl⟩
  · intro other row' hrow'
    rcases setAsk_cases hrow' with ⟨rfl, rfl⟩ | ⟨-, hrow'⟩
    · exact hid
    · exact h.ids other row' hrow'
  · refine granted_update h s.log (fun _ he => he) ?_
    intro r _ happroved
    rw [hopen] at happroved
    cases happroved
  · refine settled_update h ?_
    intro outcome hmem
    obtain ⟨row', hrow', -⟩ := h.settled callId outcome hmem
    rw [hfree] at hrow'
    cases hrow'
  · refine used_update h s.log (fun _ he => he) ?_
    intro r _ hused
    exact absurd hunused hused
  · exact fun before e after hlog => (h.order before e after hlog).grows hext.asks

theorem inv_update (h : Inv codec s) (hext : Extends s (s.setAsk callId new))
    (hold : s.asks callId = some old) (hguard : guardExactApprovalAuthority old new = true)
    (hid : new.callId = old.callId) (hused : new.usedAt = old.usedAt)
    (hauthority : new.originalAuthority = old.originalAuthority)
    (houtcome : new.outcome = old.outcome ∨ old.originalAuthority = none) :
    Inv codec (s.setAsk callId new) := by
  refine ⟨ids_update h hold hid, ?_, ?_, used_same h s.log (fun _ he => he) hold hused hauthority,
    ?_, resumes_extends h hext rfl⟩
  · refine granted_update h s.log (fun _ he => he) ?_
    intro r hexact happroved
    rw [hauthority] at hexact
    have hsome : old.originalAuthority ≠ none := by rw [hexact]; exact nofun
    rw [houtcome.resolve_right hsome] at happroved
    obtain ⟨e, he, hgrants⟩ := h.granted callId old r hold hexact happroved
    exact ⟨e, he, hgrants.kept (guard_exact hsome hguard)⟩
  · refine settled_update h ?_
    intro outcome hmem
    obtain ⟨row, hrow, hsome, hopen, hnot⟩ := h.settled callId outcome hmem
    rw [hold] at hrow
    cases hrow
    rw [hauthority, houtcome.resolve_right hsome]
    exact ⟨hsome, hopen, hnot⟩
  · exact fun before e after hlog => (h.order before e after hlog).grows hext.asks

theorem inv_approve {r : Reservation} {e : Event} (h : Inv codec s)
    (hext : Extends s ((s.setAsk callId new).record e)) (hold : s.asks callId = some old)
    (hguard : guardExactApprovalAuthority old new = true)
    (hexact : old.originalAuthority = some (.exact r)) (hid : new.callId = old.callId)
    (hused : new.usedAt = old.usedAt) (hopen : old.outcome = none ∨ old.outcome = some .approved)
    (hgrants : Grants codec e callId old r) : Inv codec ((s.setAsk callId new).record e) := by
  have hsome : old.originalAuthority ≠ none := by rw [hexact]; exact nofun
  have hkept := guard_exact hsome hguard
  obtain ⟨member, target, rfl, -⟩ := id hgrants
  refine ⟨ids_update h hold hid, ?_, settled_open h hold hopen nofun,
    used_same h _ (fun _ he => mem_record he) hold hused hkept.authority,
    order_record h.order hext.asks trivial, resumes_extends h hext rfl⟩
  refine granted_update h _ (fun _ he => mem_record he) ?_
  intro r' hexact' _
  rw [hkept.authority, hexact] at hexact'
  cases hexact'
  exact ⟨_, List.mem_append_right _ (List.mem_singleton_self _), hgrants.kept hkept⟩

theorem inv_settle {outcome : AskOutcome} (h : Inv codec s)
    (hext : Extends s ((s.setAsk callId new).record (.settled callId outcome)))
    (hold : s.asks callId = some old) (hguard : guardExactApprovalAuthority old new = true)
    (hexact : old.originalAuthority ≠ none) (hid : new.callId = old.callId)
    (hused : new.usedAt = old.usedAt) (hnew : new.outcome = some outcome)
    (hterminal : outcome ≠ .approved) :
    Inv codec ((s.setAsk callId new).record (.settled callId outcome)) := by
  have hkept := guard_exact hexact hguard
  have hsettled : new.originalAuthority ≠ none ∧ new.outcome ≠ none ∧
      new.outcome ≠ some .approved := by
    rw [hkept.authority, hnew]
    exact ⟨hexact, nofun, fun heq => hterminal (Option.some.inj heq)⟩
  refine ⟨ids_update h hold hid, ?_, ?_,
    used_same h _ (fun _ he => mem_record he) hold hused hkept.authority,
    order_record h.order hext.asks trivial, resumes_extends h hext rfl⟩
  · refine granted_update h _ (fun _ he => mem_record he) ?_
    intro r _ happroved
    exact absurd happroved hsettled.2.2
  · intro other outcome' hmem
    rcases List.mem_append.1 hmem with hmem | hmem
    · exact settled_update h (fun _ _ => hsettled) other outcome' hmem
    · rw [List.mem_singleton] at hmem
      cases hmem
      exact ⟨new, Function.update_self .., hsettled⟩

theorem inv_claim {r : Reservation} (h : Inv codec s)
    (hext : Extends s ((s.setAsk callId new).record (.claimed callId)))
    (hold : s.asks callId = some old) (hguard : guardExactApprovalAuthority old new = true)
    (hexact : old.originalAuthority = some (.exact r)) (hid : new.callId = old.callId)
    (happroved : old.outcome = some .approved) :
    Inv codec ((s.setAsk callId new).record (.claimed callId)) := by
  have hsome : old.originalAuthority ≠ none := by rw [hexact]; exact nofun
  have hkept := guard_exact hsome hguard
  obtain ⟨e, he, hgrants⟩ := h.granted callId old r hold hexact happroved
  refine ⟨ids_update h hold hid, ?_, settled_open h hold (.inr happroved) nofun, ?_, ?_,
    resumes_extends h hext rfl⟩
  · refine granted_update h _ (fun _ he => mem_record he) ?_
    intro r' hexact' _
    rw [hkept.authority, hexact] at hexact'
    cases hexact'
    exact ⟨e, mem_record he, hgrants.kept hkept⟩
  · refine used_update h _ (fun _ he => mem_record he) ?_
    intro _ _ _
    exact List.mem_append_right _ (List.mem_singleton_self _)
  · have hopen := not_settled h hold (.inr happroved)
    exact order_record h.order hext.asks ⟨⟨new, r, Function.update_self ..,
      hkept.authority.trans hexact, e, he, hgrants.kept hkept⟩, hopen⟩

end Update

theorem inv_setCapability {capability : Text} {resume : Option Resume} (h : Inv codec s)
    (hresume : ∀ r, resume = some r → ResumeOk s r) :
    Inv codec (s.setCapability capability resume) := by
  refine ⟨h.ids, h.granted, h.settled, h.used, h.order, ?_⟩
  intro other resume' hresume'
  by_cases hother : other = capability
  · subst hother
    rw [show (s.setCapability other resume).capabilities other = resume from
      Function.update_self ..] at hresume'
    exact hresume resume' hresume'
  · exact h.resumes other resume' ((Function.update_of_ne hother ..).symm.trans hresume')

theorem inv_dispatch {d : Dispatch} {row : Card} {r : Reservation} (h : Inv codec s)
    (hext : Extends s (s.record (.dispatched d))) (hclaimed : Event.claimed d.callId ∈ s.log)
    (hrow : s.asks d.callId = some row) (hexact : row.originalAuthority = some (.exact r))
    (hfits : Fits codec d row r) : Inv codec (s.record (.dispatched d)) := by
  refine ⟨h.ids, ?_, ?_, fun other row' r' hrow' hexact' hused =>
    mem_record (h.used other row' r' hrow' hexact' hused), ?_, resumes_extends h hext rfl⟩
  · intro other row' r' hrow' hexact' happroved
    obtain ⟨e, he, hgrants⟩ := h.granted other row' r' hrow' hexact' happroved
    exact ⟨e, mem_record he, hgrants⟩
  · intro other outcome hmem
    rcases List.mem_append.1 hmem with hmem | hmem
    · exact h.settled other outcome hmem
    · rw [List.mem_singleton] at hmem
      cases hmem
  · exact order_record h.order hext.asks ⟨hclaimed, row, r, hrow, hexact, hfits⟩

/-- **One move** keeps the invariant. -/
theorem inv_move {request : Request} {after : After} (h : Inv codec s)
    (hmove : Move codec s request after) : Inv codec after.1 := by
  have hext := hmove.extends
  cases hmove with
  | stay next hnext => exact h
  | insert callId row next hfree hid hunused hopen hnext =>
    exact inv_insert h hext hfree hid hunused hopen
  | update callId old new hold hguard hid hused hauthority houtcome =>
    exact inv_update h hext hold hguard hid hused hauthority houtcome
  | approve callId old new r e hold hguard hexact hid hused hopen hgrants =>
    exact inv_approve h hext hold hguard hexact hid hused hopen hgrants
  | settle callId old new outcome hold hguard hexact hid hused hnew hterminal =>
    exact inv_settle h hext hold hguard hexact hid hused hnew hterminal
  | claim callId old new r next hold hguard hexact hid happroved hnew hunused hused hnext hholds =>
    exact inv_claim h hext hold hguard hexact hid happroved
  | take capability resume next hresume hnext => exact inv_setCapability h nofun
  | give capability resume hholds hresume =>
    refine inv_setCapability h ?_
    intro r hr
    cases hr
    exact hresume
  | dispatch d row r hholds hclaimed hrow hexact hfits htime =>
    exact inv_dispatch h hext hclaimed hrow hexact hfits

/-! ## Section 5: One use -/

/-- Who may still use a card that has been claimed. -/
inductive Holder where
  | request (i : Nat)
  | capability (capability : Text)

namespace Event

def claims : Event → Option Text
  | claimed callId => some callId
  | _ => none

def uses : Event → Option Text
  | dispatched d => some d.callId
  | _ => none

end Event

/-- A card that is not used is unclaimed, and one that somebody may use is held by them. -/
structure Held (s : State) (phase : Text → OneUse.Phase Holder) : Prop where
  /-- A card that is not there. -/
  absent : ∀ callId, s.shared.asks callId = none → phase callId = .unclaimed
  /-- A card that nobody has claimed. -/
  unused : ∀ callId row, s.shared.asks callId = some row → row.usedAt = none →
    phase callId = .unclaimed
  /-- A card that a request has claimed and not used. -/
  request : ∀ i request callId, s.requests i = some request → request.holds = some callId →
    phase callId = .held (.request i)
  /-- A card whose capability was given out. -/
  capability : ∀ capability resume, s.shared.capabilities capability = some resume →
    phase resume.callId = .held (.capability capability)

structure StateInv (codec : CardCodec) (s : State) : Prop where
  shared : Inv codec s.shared
  knows : ∀ i request, s.requests i = some request → request.Knows codec s.shared

/-- The cards as things that are used once. -/
structure Refines (codec : CardCodec) (s : State) (a : OneUse.State Text Holder) : Prop where
  /-- The rows and the requests are sound. -/
  inv : StateInv codec s
  /-- The phases say who has claimed what. -/
  held : Held s a.phase
  /-- The claims in the log are its claims. -/
  claims : s.shared.log.filterMap Event.claims = a.claims
  /-- The uses are its uses. -/
  uses : s.shared.log.filterMap Event.uses = a.uses

/-- The requests after a step of one of them. -/
theorem requests_cases {s : State} {i j : Nat} {next : Option Request} {request : Request}
    (h : Function.update s.requests i next j = some request) :
    (j = i ∧ next = some request) ∨ (j ≠ i ∧ s.requests j = some request) := by
  by_cases hji : j = i
  · subst hji
    rw [Function.update_self] at h
    exact .inl ⟨rfl, h⟩
  · rw [Function.update_of_ne hji] at h
    exact .inr ⟨hji, h⟩

theorem Move.next_knows {s : Shared} {request : Request} {after : After}
    (h : Move codec s request after) {next : Request} (hnext : after.2 = some next) :
    next.Knows codec after.1 := by
  cases h with
  | stay _ hknows => exact (hknows next hnext).1
  | insert _ _ _ _ _ _ _ hknows => exact (hknows next hnext).1
  | claim _ _ _ _ _ _ _ _ _ _ _ _ _ hknows _ =>
    cases hnext
    exact hknows
  | take _ _ _ _ hknows => exact (hknows next hnext).1
  | _ => cases hnext

/-- A move keeps what everybody knows. -/
theorem stateInv_move {s : State} {i : Nat} {request : Request} {after : After}
    (h : StateInv codec s) (hmove : Move codec s.shared request after) :
    StateInv codec ⟨after.1, Function.update s.requests i after.2⟩ where
  shared := inv_move h.shared hmove
  knows := by
    intro j other hj
    rcases requests_cases hj with ⟨-, hnext⟩ | ⟨-, hj⟩
    · exact hmove.next_knows hnext
    · exact (h.knows j other hj).extends hmove.extends

theorem starts_knows {s : Shared} {request : Request} (h : request.starts = true) :
    request.Knows codec s := by
  cases request <;> trivial

theorem starts_holds {request : Request} (h : request.starts = true) : request.holds = none := by
  cases request <;> first | rfl | cases h

section Simulation

variable {s t : State} {a : OneUse.State Text Holder} {i : Nat} {request : Request}

theorem held_inj {phase : Text → OneUse.Phase Holder} {callId : Text} {holder holder' : Holder}
    (h : phase callId = .held holder) (h' : phase callId = .held holder') : holder = holder' := by
  rw [h] at h'
  exact OneUse.Phase.held.inj h'

/-- Nobody else holds what one holds. -/
theorem Held.request_ne (h : Held s a.phase) {callId other : Text} {j : Nat}
    (hheld : a.phase callId = .unclaimed ∨ ∃ holder, a.phase callId = .held holder ∧
      holder ≠ .request j)
    (hj : s.requests j = some request) (hholds : request.holds = some other) : other ≠ callId := by
  rintro rfl
  have hrequest := h.request j request other hj hholds
  rcases hheld with hfree | ⟨holder, hheld, hne⟩
  · rw [hfree] at hrequest
    cases hrequest
  · exact hne (held_inj hheld hrequest)

theorem Held.capability_ne (h : Held s a.phase) {callId capability : Text} {resume : Resume}
    (hheld : a.phase callId = .unclaimed ∨ ∃ holder, a.phase callId = .held holder ∧
      holder ≠ .capability capability)
    (hresume : s.shared.capabilities capability = some resume) : resume.callId ≠ callId := by
  rintro rfl
  have hcapability := h.capability capability resume hresume
  rcases hheld with hfree | ⟨holder, hheld, hne⟩
  · rw [hfree] at hcapability
    cases hcapability
  · exact hne (held_inj hheld hcapability)

theorem Held.free_ne (h : Held s a.phase) {callId other : Text} {holder : Holder}
    (hheld : a.phase callId = .held holder) (hfree : s.shared.asks other = none ∨
      ∃ row, s.shared.asks other = some row ∧ row.usedAt = none) : other ≠ callId := by
  rintro rfl
  have hunclaimed : a.phase other = .unclaimed := by
    rcases hfree with hnone | ⟨row, hrow, hunused⟩
    · exact h.absent other hnone
    · exact h.unused other row hrow hunused
  rw [hheld] at hunclaimed
  cases hunclaimed

/-- No phase changes. -/
theorem Held.stays (h : Held s a.phase)
    (habsent : ∀ other, t.shared.asks other = none → s.shared.asks other = none)
    (hunused : ∀ other row, t.shared.asks other = some row → row.usedAt = none →
      s.shared.asks other = none ∨ ∃ row', s.shared.asks other = some row' ∧ row'.usedAt = none)
    (hrequests : ∀ j request other, t.requests j = some request → request.holds = some other →
      ∃ request', s.requests j = some request' ∧ request'.holds = some other)
    (hcapabilities : ∀ capability resume, t.shared.capabilities capability = some resume →
      s.shared.capabilities capability = some resume) : Held t a.phase where
  absent := fun other hnone => h.absent other (habsent other hnone)
  unused := by
    intro other row hrow hfree
    rcases hunused other row hrow hfree with hnone | ⟨row', hrow', hfree'⟩
    · exact h.absent other hnone
    · exact h.unused other row' hrow' hfree'
  request := by
    intro j request other hj hholds
    obtain ⟨request', hj', hholds'⟩ := hrequests j request other hj hholds
    exact h.request j request' other hj' hholds'
  capability := fun capability resume hresume =>
    h.capability capability resume (hcapabilities capability resume hresume)

/-- The phase of one card changes. -/
theorem Held.set (h : Held s a.phase) {callId : Text} {phase : OneUse.Phase Holder}
    (habsent : ∀ other, t.shared.asks other = none → other ≠ callId ∧ s.shared.asks other = none)
    (hunused : ∀ other row, t.shared.asks other = some row → row.usedAt = none →
      other ≠ callId ∧ s.shared.asks other = some row)
    (hrequests : ∀ j request other, t.requests j = some request → request.holds = some other →
      (other = callId ∧ phase = .held (.request j)) ∨
        (other ≠ callId ∧ s.requests j = some request))
    (hcapabilities : ∀ capability resume, t.shared.capabilities capability = some resume →
      (resume.callId = callId ∧ phase = .held (.capability capability)) ∨
        (resume.callId ≠ callId ∧ s.shared.capabilities capability = some resume)) :
    Held t (a.set callId phase).phase where
  absent := by
    intro other hnone
    obtain ⟨hother, hnone⟩ := habsent other hnone
    exact (OneUse.set_other a _ hother).trans (h.absent other hnone)
  unused := by
    intro other row hrow hfree
    obtain ⟨hother, hrow⟩ := hunused other row hrow hfree
    exact (OneUse.set_other a _ hother).trans (h.unused other row hrow hfree)
  request := by
    intro j request other hj hholds
    rcases hrequests j request other hj hholds with ⟨rfl, rfl⟩ | ⟨hother, hj⟩
    · exact OneUse.set_self ..
    · exact (OneUse.set_other a _ hother).trans (h.request j request other hj hholds)
  capability := by
    intro capability resume hresume
    rcases hcapabilities capability resume hresume with ⟨rfl, rfl⟩ | ⟨hother, hresume⟩
    · exact OneUse.set_self ..
    · exact (OneUse.set_other a _ hother).trans (h.capability capability resume hresume)

/-- A card that is held goes to another holder, or is used. -/
theorem Held.leave (h : Held s a.phase) {callId : Text} {holder : Holder}
    {phase : OneUse.Phase Holder} (hheld : a.phase callId = .held holder)
    (hasks : t.shared.asks = s.shared.asks)
    (hrequests : ∀ j request other, t.requests j = some request → request.holds = some other →
      (other = callId ∧ phase = .held (.request j)) ∨
        (s.requests j = some request ∧ holder ≠ .request j))
    (hcapabilities : ∀ capability resume, t.shared.capabilities capability = some resume →
      (resume.callId = callId ∧ phase = .held (.capability capability)) ∨
        (s.shared.capabilities capability = some resume ∧ holder ≠ .capability capability)) :
    Held t (a.set callId phase).phase := by
  refine h.set ?_ ?_ ?_ ?_
  · intro other hnone
    rw [hasks] at hnone
    exact ⟨h.free_ne hheld (.inl hnone), hnone⟩
  · intro other row hrow hunused
    rw [hasks] at hrow
    exact ⟨h.free_ne hheld (.inr ⟨row, hrow, hunused⟩), hrow⟩
  · intro j request other hj hholds
    refine (hrequests j request other hj hholds).imp_right ?_
    intro ⟨hj, hne⟩
    exact ⟨h.request_ne (.inr ⟨holder, hheld, hne⟩) hj hholds, hj⟩
  · intro capability resume hresume
    refine (hcapabilities capability resume hresume).imp_right ?_
    intro ⟨hresume, hne⟩
    exact ⟨h.capability_ne (.inr ⟨holder, hheld, hne⟩) hresume, hresume⟩

/-- A move that changes no phase and logs neither a claim nor a use. -/
theorem refines_stays (h : Refines codec s a) (hinv : StateInv codec t) (held : Held t a.phase)
    (hlog : t.shared.log = s.shared.log ∨ ∃ e, t.shared.log = s.shared.log ++ [e] ∧
      e.claims = none ∧ e.uses = none) :
    ∃ ms b, OneUse.oneUse.run a ms = some b ∧ Refines codec t b := by
  refine ⟨[], a, rfl, hinv, held, ?_, ?_⟩
  · rcases hlog with hlog | ⟨e, hlog, hclaims, -⟩
    · rw [hlog]
      exact h.claims
    · rw [hlog, List.filterMap_append, h.claims]
      simp [hclaims]
  · rcases hlog with hlog | ⟨e, hlog, -, huses⟩
    · rw [hlog]
      exact h.uses
    · rw [hlog, List.filterMap_append, h.uses]
      simp [huses]

/-- A request that goes on without a new card: nobody holds more than before. -/
theorem holders_stay (hi : s.requests i = some request) {next : Option Request}
    (hnext : ∀ r, next = some r → r.holds = none ∨ r.holds = request.holds) :
    ∀ j r other, Function.update s.requests i next j = some r → r.holds = some other →
      ∃ r', s.requests j = some r' ∧ r'.holds = some other := by
  intro j r other hj hholds
  rcases requests_cases hj with ⟨rfl, hr⟩ | ⟨-, hj⟩
  · rcases hnext r hr with hnone | hsame
    · rw [hnone] at hholds
      cases hholds
    · exact ⟨request, hi, hsame.symm.trans hholds⟩
  · exact ⟨r, hj, hholds⟩

/-- An UPDATE that leaves `used_at` alone frees no card. -/
theorem unused_update {shared : Shared} {callId : Text} {old new : Card}
    (hold : shared.asks callId = some old) (hused : new.usedAt = old.usedAt) :
    (∀ other, (shared.setAsk callId new).asks other = none → shared.asks other = none) ∧
      ∀ other row, (shared.setAsk callId new).asks other = some row → row.usedAt = none →
        shared.asks other = none ∨ ∃ row', shared.asks other = some row' ∧ row'.usedAt = none := by
  constructor
  · intro other hnone
    by_cases hother : other = callId
    · subst hother
      rw [show (shared.setAsk other new).asks other = some new from Function.update_self ..] at hnone
      cases hnone
    · exact (Function.update_of_ne hother ..).symm.trans hnone
  · intro other row hrow hunused
    rcases setAsk_cases hrow with ⟨rfl, rfl⟩ | ⟨-, hrow⟩
    · exact .inr ⟨old, hold, hused.symm.trans hunused⟩
    · exact .inr ⟨row, hrow, hunused⟩

/-- An UPDATE that leaves `used_at` alone changes no phase. -/
theorem refines_update (h : Refines codec s a) (hi : s.requests i = some request) {callId : Text}
    {old new : Card} {shared : Shared} (hold : s.shared.asks callId = some old)
    (hused : new.usedAt = old.usedAt)
    (hinv : StateInv codec ⟨shared, Function.update s.requests i none⟩)
    (hasks : shared.asks = (s.shared.setAsk callId new).asks)
    (hcapabilities : shared.capabilities = s.shared.capabilities)
    (hlog : shared.log = s.shared.log ∨ ∃ e, shared.log = s.shared.log ++ [e] ∧
      e.claims = none ∧ e.uses = none) :
    ∃ ms b, OneUse.oneUse.run a ms = some b ∧
      Refines codec ⟨shared, Function.update s.requests i none⟩ b := by
  obtain ⟨habsent, hunused⟩ := unused_update hold hused
  refine refines_stays h hinv (h.held.stays ?_ ?_ (holders_stay hi fun r hr => nomatch hr) ?_) hlog
  · rw [hasks]
    exact habsent
  · rw [hasks]
    exact hunused
  · rw [hcapabilities]
    exact fun _ _ hresume => hresume

/-- Who claims an unused card has it from then on. -/
theorem refines_claim (h : Refines codec s a) {callId : Text} {old new : Card} {next : Request}
    (hold : s.shared.asks callId = some old) (hunused : old.usedAt = none) (hused : new.usedAt ≠ none)
    (hholds : next.holds = some callId)
    (hinv : StateInv codec ⟨(s.shared.setAsk callId new).record (.claimed callId),
      Function.update s.requests i (some next)⟩) :
    ∃ ms b, OneUse.oneUse.run a ms = some b ∧
      Refines codec ⟨(s.shared.setAsk callId new).record (.claimed callId),
        Function.update s.requests i (some next)⟩ b := by
  have hphase := h.held.unused callId old hold hunused
  refine ⟨_, _, OneUse.run_claim (.request i) hphase, hinv,
    Held.set (a := a) (t := ⟨_, Function.update s.requests i (some next)⟩)
      h.held ?_ ?_ ?_ ?_, ?_, ?_⟩
  · intro other hnone
    by_cases hother : other = callId
    · subst hother
      rw [show Shared.asks _ other = some new from Function.update_self ..] at hnone
      cases hnone
    · exact ⟨hother, (Function.update_of_ne hother ..).symm.trans hnone⟩
  · intro other row hrow hunused'
    rcases setAsk_cases hrow with ⟨-, rfl⟩ | hother
    · exact absurd hunused' hused
    · exact hother
  · intro j r' other hj hholds'
    rcases requests_cases hj with ⟨rfl, hr'⟩ | ⟨-, hj⟩
    · cases hr'
      exact .inl ⟨Option.some.inj (hholds'.symm.trans hholds), rfl⟩
    · exact .inr ⟨h.held.request_ne (.inl hphase) hj hholds', hj⟩
  · exact fun capability resume hresume =>
      .inr ⟨h.held.capability_ne (.inl hphase) hresume, hresume⟩
  · show (s.shared.log ++ [_]).filterMap _ = a.claims ++ [callId]
    rw [List.filterMap_append, h.claims]
    rfl
  · show (s.shared.log ++ [_]).filterMap _ = a.uses
    rw [List.filterMap_append, h.uses]
    exact List.append_nil _

/-- Who takes a capability has its card from then on. -/
theorem refines_take (h : Refines codec s a) {capability : Text} {resume : Resume}
    {next : Option Request} (hresume : s.shared.capabilities capability = some resume)
    (hnext : ∀ r, next = some r → r.holds = some resume.callId)
    (hinv : StateInv codec ⟨s.shared.setCapability capability none,
      Function.update s.requests i next⟩) :
    ∃ ms b, OneUse.oneUse.run a ms = some b ∧
      Refines codec ⟨s.shared.setCapability capability none, Function.update s.requests i next⟩ b := by
  have hphase := h.held.capability capability resume hresume
  refine ⟨_, _, OneUse.run_pass (.request i) hphase, hinv,
    h.held.leave hphase rfl ?_ ?_, h.claims, h.uses⟩
  · intro j r other hj hholds
    rcases requests_cases hj with ⟨rfl, hr⟩ | ⟨-, hj⟩
    · exact .inl ⟨Option.some.inj (hholds.symm.trans (hnext r hr)), rfl⟩
    · exact .inr ⟨hj, nofun⟩
  · intro other resume' hresume'
    by_cases hother : other = capability
    · subst hother
      rw [show (s.shared.setCapability other none).capabilities other = none from
        Function.update_self ..] at hresume'
      cases hresume'
    · refine .inr ⟨(Function.update_of_ne hother ..).symm.trans hresume', ?_⟩
      exact fun heq => hother (Holder.capability.inj heq).symm

/-- And the other way round: a capability that is given out has the card of who gave it. -/
theorem refines_give (h : Refines codec s a) (hi : s.requests i = some request) {capability : Text}
    {resume : Resume} (hholds : request.holds = some resume.callId)
    (hinv : StateInv codec ⟨s.shared.setCapability capability (some resume),
      Function.update s.requests i none⟩) :
    ∃ ms b, OneUse.oneUse.run a ms = some b ∧
      Refines codec ⟨s.shared.setCapability capability (some resume),
        Function.update s.requests i none⟩ b := by
  have hphase := h.held.request i request resume.callId hi hholds
  refine ⟨_, _, OneUse.run_pass (.capability capability) hphase, hinv,
    h.held.leave hphase rfl ?_ ?_, h.claims, h.uses⟩
  · intro j r other hj _
    rcases requests_cases hj with ⟨-, hr⟩ | ⟨hne, hj⟩
    · cases hr
    · exact .inr ⟨hj, fun heq => hne (Holder.request.inj heq).symm⟩
  · intro other resume' hresume'
    by_cases hother : other = capability
    · subst hother
      rw [show (s.shared.setCapability other (some resume)).capabilities other = some resume from
        Function.update_self ..] at hresume'
      cases hresume'
      exact .inl ⟨rfl, rfl⟩
    · exact .inr ⟨(Function.update_of_ne hother ..).symm.trans hresume', nofun⟩

/-- Only the request that has a card uses it, and nobody has it afterwards. -/
theorem refines_dispatch (h : Refines codec s a) (hi : s.requests i = some request) {d : Dispatch}
    (hholds : request.holds = some d.callId)
    (hinv : StateInv codec ⟨s.shared.record (.dispatched d), Function.update s.requests i none⟩) :
    ∃ ms b, OneUse.oneUse.run a ms = some b ∧
      Refines codec ⟨s.shared.record (.dispatched d), Function.update s.requests i none⟩ b := by
  have hphase := h.held.request i request d.callId hi hholds
  refine ⟨_, _, OneUse.run_use hphase, hinv, h.held.leave hphase rfl ?_ ?_, ?_, ?_⟩
  · intro j r other hj _
    rcases requests_cases hj with ⟨-, hr⟩ | ⟨hne, hj⟩
    · cases hr
    · exact .inr ⟨hj, fun heq => hne (Holder.request.inj heq).symm⟩
  · exact fun other resume' hresume' => .inr ⟨hresume', nofun⟩
  · show (s.shared.log ++ [_]).filterMap _ = a.claims
    rw [List.filterMap_append, h.claims]
    exact List.append_nil _
  · show (s.shared.log ++ [_]).filterMap _ = a.uses ++ [d.callId]
    rw [List.filterMap_append, h.uses]
    rfl

/-- **One move** is matched by what can happen to things that are used once. -/
theorem refines_move {after : After} (h : Refines codec s a) (hi : s.requests i = some request)
    (hmove : Move codec s.shared request after) :
    ∃ ms b, OneUse.oneUse.run a ms = some b ∧
      Refines codec ⟨after.1, Function.update s.requests i after.2⟩ b := by
  have hinv := stateInv_move (i := i) h.inv hmove
  cases hmove with
  | stay next hnext =>
    -- Nobody claims or uses a card here: the cards stay as they are.
    refine refines_stays h hinv (h.held.stays ?_ ?_ ?_ ?_) (.inl rfl)
    · exact fun _ hnone => hnone
    · exact fun _ row hrow hunused => .inr ⟨row, hrow, hunused⟩
    · exact holders_stay hi fun r hr => (hnext r hr).2
    · exact fun _ _ hresume => hresume
  | insert callId row next hfree hid hunused hopen hnext =>
    refine refines_stays h hinv (h.held.stays ?_ ?_ ?_ ?_) (.inl rfl)
    · intro other hnone
      by_cases hother : other = callId
      · exact hother ▸ hfree
      · exact (Function.update_of_ne hother ..).symm.trans hnone
    · intro other row' hrow' hunused'
      rcases setAsk_cases hrow' with ⟨rfl, -⟩ | ⟨-, hrow'⟩
      · exact .inl hfree
      · exact .inr ⟨row', hrow', hunused'⟩
    · exact holders_stay hi fun r hr => .inl (hnext r hr).2
    · exact fun _ _ hresume => hresume
  | update callId old new hold hguard hid hused =>
    exact refines_update h hi hold hused hinv rfl rfl (.inl rfl)
  | approve callId old new r e hold hguard hexact hid hused hopen hgrants =>
    obtain ⟨member, target, rfl, -⟩ := hgrants
    exact refines_update h hi hold hused hinv rfl rfl (.inr ⟨_, rfl, rfl, rfl⟩)
  | settle callId old new outcome hold hguard hexact hid hused =>
    exact refines_update h hi hold hused hinv rfl rfl (.inr ⟨_, rfl, rfl, rfl⟩)
  | claim callId old new r next hold hguard hexact hid happroved hnew hunused hused hnext hholds =>
    exact refines_claim h hold hunused hused hholds hinv
  | take capability resume next hresume hnext =>
    exact refines_take h hresume (fun r hr => (hnext r hr).2) hinv
  | give capability resume hholds hresume => exact refines_give h hi hholds hinv
  | dispatch d row r hholds hclaimed hrow hexact hfits htime => exact refines_dispatch h hi hholds hinv

/-- **One step** is matched by what can happen to things that are used once. -/
theorem refines_step {label : Label} (h : Refines codec s a)
    (hstep : s.next codec label = some t) :
    ∃ ms b, OneUse.oneUse.run a ms = some b ∧ Refines codec t b := by
  -- what changes neither the rows nor the log
  have quiet : t.shared.asks = s.shared.asks → t.shared.log = s.shared.log →
      (∀ j r, t.requests j = some r → s.requests j = some r ∨ r.starts = true) →
      (∀ capability resume, t.shared.capabilities capability = some resume →
        s.shared.capabilities capability = some resume) →
      ∃ ms b, OneUse.oneUse.run a ms = some b ∧ Refines codec t b := by
    intro hasks hlog hrequests hcapabilities
    have hext : Extends s.shared t.shared := ⟨hasks ▸ grows_refl _, fun _ he => hlog ▸ he⟩
    refine refines_stays h ⟨?_, ?_⟩ (h.held.stays ?_ ?_ ?_ hcapabilities) (.inl hlog)
    · refine ⟨?_, ?_, ?_, ?_, ?_, fun capability resume hresume => ?_⟩
      · exact hasks ▸ h.inv.shared.ids
      · exact hasks ▸ hlog ▸ h.inv.shared.granted
      · exact hasks ▸ hlog ▸ h.inv.shared.settled
      · exact hasks ▸ hlog ▸ h.inv.shared.used
      · exact hasks ▸ hlog ▸ h.inv.shared.order
      · exact (h.inv.shared.resumes capability resume
          (hcapabilities capability resume hresume)).extends hext
    · intro j r hj
      rcases hrequests j r hj with hj | hstarts
      · exact (h.inv.knows j r hj).extends hext
      · exact starts_knows hstarts
    · exact fun other hnone => hasks ▸ hnone
    · exact fun other row hrow hunused => .inr ⟨row, hasks ▸ hrow, hunused⟩
    · intro j r other hj hholds
      rcases hrequests j r hj with hj | hstarts
      · exact ⟨r, hj, hholds⟩
      · rw [starts_holds hstarts] at hholds
        cases hholds
  cases label with
  | call i request =>
    simp only [State.next] at hstep
    split at hstep
    · cases hstep
    · next hstarts =>
      cases hstep
      refine quiet rfl rfl ?_ (fun _ _ hresume => hresume)
      intro j r hj
      rcases requests_cases hj with ⟨-, hr⟩ | ⟨-, hj⟩
      · cases hr
        simp only [Bool.or_eq_true, Bool.not_eq_true', not_or, Bool.not_eq_false] at hstarts
        exact .inr hstarts.2
      · exact .inl hj
  | step i answer =>
    simp only [State.next] at hstep
    split at hstep
    · cases hstep
    · next request hi =>
      cases hstep
      exact refines_move h hi (step_move (h.inv.knows i request hi) h.inv.shared.resumes)
  | crash i =>
    cases hstep
    refine quiet rfl rfl ?_ (fun _ _ hresume => hresume)
    intro j r hj
    rcases requests_cases hj with ⟨-, hr⟩ | ⟨-, hj⟩
    · cases hr
    · exact .inl hj
  | tick now =>
    cases hstep
    exact quiet rfl rfl (fun _ _ hj => .inl hj) (fun _ _ hresume => hresume)
  | forget capability =>
    cases hstep
    refine quiet rfl rfl (fun _ _ hj => .inl hj) ?_
    intro other resume hresume
    by_cases hother : other = capability
    · subst hother
      rw [show (s.shared.setCapability other none).capabilities other = none from
        Function.update_self ..] at hresume
      cases hresume
    · exact (Function.update_of_ne hother ..).symm.trans hresume

theorem refines_init (hs : (cards codec).init s) :
    ∃ a, (OneUse.oneUse (K := Text) (H := Holder)).init a ∧ Refines codec s a := by
  obtain ⟨hrows, hcapabilities, hlog, hrequests⟩ := hs
  refine ⟨⟨fun _ => .unclaimed, [], []⟩, ⟨fun _ => rfl, rfl, rfl⟩, ⟨?_, ?_⟩, ?_, ?_, ?_⟩
  · refine ⟨fun callId row hrow => (hrows callId row hrow).1, ?_, ?_, ?_, ?_, ?_⟩
    · exact fun callId row r hrow hexact => absurd hexact ((hrows callId row hrow).2 r)
    · intro callId outcome hmem
      rw [hlog] at hmem
      cases hmem
    · exact fun callId row r hrow hexact => absurd hexact ((hrows callId row hrow).2 r)
    · intro before e after heq
      rw [hlog] at heq
      cases before <;> cases heq
    · intro capability resume hresume
      rw [hcapabilities] at hresume
      cases hresume
  · intro i request hi
    rw [hrequests] at hi
    cases hi
  · refine ⟨fun _ _ => rfl, fun _ _ _ _ => rfl, ?_, ?_⟩
    · intro i request callId hi
      rw [hrequests] at hi
      cases hi
    · intro capability resume hresume
      rw [hcapabilities] at hresume
      cases hresume
  · rw [hlog]
    rfl
  · rw [hlog]
    rfl

/-- **Once**: over every run a card is claimed once and used once. -/
theorem once_cards {ls : List Label} (hs : (cards codec).init s)
    (hrun : (cards codec).run s ls = some t) :
    ∃ a : OneUse.State Text Holder, Refines codec t a ∧ OneUse.Once a := by
  obtain ⟨a, b, ms, ha, hb, href⟩ := (cards codec).simulation (fun s hs => refines_init hs)
    (fun _ _ _ _ h hstep => refines_step h hstep) hs hrun
  exact ⟨b, href, OneUse.once_run ha hb⟩

end Simulation

/-! ## Section 6: Earlier and later -/

/-- What a card keeps, and what it has been used for. -/
structure Later (s t : Shared) : Prop where
  rows : ∀ callId row, s.asks callId = some row → row.originalAuthority ≠ none →
    ∃ row', t.asks callId = some row' ∧ Kept row row' ∧
      ∀ time, row.usedAt = some time → row'.usedAt = some time
  log : s.log <+: t.log

theorem Later.refl (s : Shared) : Later s s :=
  ⟨fun _ row hrow _ => ⟨row, hrow, Kept.refl row, fun _ h => h⟩, List.prefix_refl _⟩

theorem Later.trans {s t u : Shared} (h : Later s t) (h' : Later t u) : Later s u := by
  refine ⟨?_, h.log.trans h'.log⟩
  intro callId row hrow hexact
  obtain ⟨row', hrow', hkept, hused⟩ := h.rows callId row hrow hexact
  obtain ⟨row'', hrow'', hkept', hused'⟩ := h'.rows callId row' hrow'
    (by rw [hkept.authority]; exact hexact)
  exact ⟨row'', hrow'', hkept.trans hkept', fun time hsome => hused' time (hused time hsome)⟩

/-- An UPDATE that the trigger lets through, and that does not take `used_at` back. -/
theorem later_update {callId : Text} {old new : Card} (hold : s.asks callId = some old)
    (hguard : guardExactApprovalAuthority old new = true)
    (hused : ∀ time, old.usedAt = some time → new.usedAt = some time) :
    ∀ other row, s.asks other = some row → row.originalAuthority ≠ none →
      ∃ row', (s.setAsk callId new).asks other = some row' ∧ Kept row row' ∧
        ∀ time, row.usedAt = some time → row'.usedAt = some time := by
  intro other row hrow hexact
  by_cases hother : other = callId
  · subst hother
    rw [hold] at hrow
    cases hrow
    exact ⟨new, Function.update_self .., guard_exact hexact hguard, hused⟩
  · exact ⟨row, (Function.update_of_ne hother ..).trans hrow, Kept.refl row, fun _ h => h⟩

theorem Move.later {request : Request} {after : After} (h : Move codec s request after) :
    Later s after.1 := by
  cases h with
  | stay next hnext => exact Later.refl s
  | insert callId row next hfree =>
    refine ⟨?_, List.prefix_refl _⟩
    intro other old hold _
    refine ⟨old, (Function.update_of_ne ?_ ..).trans hold, Kept.refl old, fun _ h => h⟩
    rintro rfl
    rw [hfree] at hold
    cases hold
  | update callId old new hold hguard hid hused =>
    exact ⟨later_update hold hguard fun _ h => hused.trans h, List.prefix_refl _⟩
  | approve callId old new r e hold hguard hexact hid hused =>
    exact ⟨later_update hold hguard fun _ h => hused.trans h, List.prefix_append ..⟩
  | settle callId old new outcome hold hguard hexact hid hused =>
    exact ⟨later_update hold hguard fun _ h => hused.trans h, List.prefix_append ..⟩
  | claim callId old new r next hold hguard hexact hid happroved hnew hunused =>
    refine ⟨later_update hold hguard ?_, List.prefix_append ..⟩
    intro time hsome
    rw [hunused] at hsome
    cases hsome
  | take capability resume next =>
    exact ⟨(Later.refl s).rows, List.prefix_refl _⟩
  | give capability resume =>
    exact ⟨(Later.refl s).rows, List.prefix_refl _⟩
  | dispatch d => exact ⟨(Later.refl s).rows, List.prefix_append ..⟩

theorem later_step {s t : State} {a : OneUse.State Text Holder} {label : Label}
    (h : Refines codec s a) (hstep : s.next codec label = some t) : Later s.shared t.shared := by
  cases label with
  | call i request =>
    simp only [State.next] at hstep
    split at hstep
    · cases hstep
    · cases hstep
      exact Later.refl _
  | step i answer =>
    simp only [State.next] at hstep
    split at hstep
    · cases hstep
    · next request hi =>
      cases hstep
      exact (step_move (h.inv.knows i request hi) h.inv.shared.resumes).later
  | crash i =>
    cases hstep
    exact Later.refl _
  | tick now =>
    cases hstep
    exact ⟨(Later.refl s.shared).rows, List.prefix_refl _⟩
  | forget capability =>
    cases hstep
    exact ⟨(Later.refl s.shared).rows, List.prefix_refl _⟩

/-! ## Section 7: Expiry -/

/-- No file is written when the reservation of its row has expired. -/
def writesInTime (s : State) : Label → Bool
  | .step i answer =>
      match s.requests i with
      | some (.commitFile _ r) => decide (answer.ok = true → s.shared.now < r.expiresAt)
      | _ => true
  | _ => true

/-- Every dispatch has been made before the expiry of the reservation. -/
def InTime (s : Shared) : Prop :=
  ∀ d, Event.dispatched d ∈ s.log → ∃ row r, s.asks d.callId = some row ∧
    row.originalAuthority = some (.exact r) ∧ d.time < r.expiresAt

theorem InTime.later {s t : Shared} (h : InTime s) (hlater : Later s t)
    (hlog : ∀ d, Event.dispatched d ∈ t.log → Event.dispatched d ∈ s.log) : InTime t := by
  intro d hd
  obtain ⟨row, r, hrow, hexact, htime⟩ := h d (hlog d hd)
  obtain ⟨row', hrow', hkept, -⟩ := hlater.rows d.callId row hrow (by rw [hexact]; exact nofun)
  exact ⟨row', r, hrow', hkept.authority.trans hexact, htime⟩

/-- An event that is no dispatch. -/
theorem dispatched_record {log : List Event} {e : Event} (he : e.uses = none) (d : Dispatch)
    (hd : Event.dispatched d ∈ log ++ [e]) : Event.dispatched d ∈ log := by
  rcases List.mem_append.1 hd with hd | hd
  · exact hd
  · rw [← List.mem_singleton.1 hd] at he
    cases he

theorem inTime_move {request : Request} {after : After} (h : InTime s)
    (hmove : Move codec s request after)
    (htime : ∀ w r, request = .commitFile w r → s.now < r.expiresAt) :
    InTime after.1 := by
  have hlater := hmove.later
  cases hmove with
  | stay | insert | update | take | give => exact h.later hlater fun _ hd => hd
  | settle | claim => exact h.later hlater (dispatched_record rfl)
  | approve callId old new r e hold hguard hexact hid hused hopen hgrants =>
    obtain ⟨member, target, rfl, -⟩ := hgrants
    exact h.later hlater (dispatched_record rfl)
  | dispatch d row r hholds hclaimed hrow hexact hfits hnow =>
    intro d' hd'
    rcases List.mem_append.1 hd' with hd' | hd'
    · exact h d' hd'
    · rw [List.mem_singleton] at hd'
      cases hd'
      refine ⟨row, r, hrow, hexact, ?_⟩
      rcases hnow with hnow | ⟨hnow, w, hrequest⟩
      · exact hnow
      · rw [hnow]
        exact htime w r hrequest

theorem inTime_step {s t : State} {a : OneUse.State Text Holder} {label : Label}
    (href : Refines codec s a) (h : InTime s.shared) (htime : writesInTime s label = true)
    (hstep : s.next codec label = some t) : InTime t.shared := by
  have hlater := later_step href hstep
  cases label with
  | call i request =>
    simp only [State.next] at hstep
    split at hstep
    · cases hstep
    · cases hstep
      exact h
  | step i answer =>
    simp only [State.next] at hstep
    split at hstep
    · cases hstep
    · next request hi =>
      cases hstep
      have hmove : Move codec s.shared request (request.step codec s.shared answer) :=
        step_move (href.inv.knows i request hi) href.inv.shared.resumes
      by_cases hok : answer.ok = true
      · refine inTime_move h hmove ?_
        rintro w r rfl
        simp only [writesInTime, hi, decide_eq_true_eq] at htime
        exact htime hok
      · by_cases hcommit : ∃ w r, request = .commitFile w r
        · -- a write that is refused does nothing
          obtain ⟨w, r, rfl⟩ := hcommit
          simpa [Request.step, commitFileStep, hok, refuse] using h
        · refine inTime_move h hmove ?_
          rintro w r rfl
          exact absurd ⟨w, r, rfl⟩ hcommit
  | crash i | tick now | forget capability =>
    cases hstep
    exact h.later hlater fun _ hd => hd

/-! ## Section 8: Exact cards -/

/-- A dispatch of a card, by what was logged before it. -/
structure Approved (codec : CardCodec) (before : List Event) (d : Dispatch) (row : Card)
    (r : Reservation) : Prop where
  fits : Fits codec d row r
  inTime : d.time < r.expiresAt
  claimed : ∃ early late, before = early ++ .claimed d.callId :: late ∧
    (∃ e ∈ early, Grants codec e d.callId row r) ∧
    ∀ outcome, Event.settled d.callId outcome ∉ early

/-- The cards of a state `u`, and what they were in an earlier state `t`. -/
structure CardsSafe (codec : CardCodec) (t u : Shared) : Prop where
  /-- A card keeps its reservation, and whoever has claimed it has claimed it for good. -/
  kept : Later t u
  /-- A card is claimed once. -/
  claims : (u.log.filterMap Event.claims).Nodup
  /-- It is claimed when `usedAt` is set, and only then. -/
  claimed : ∀ callId row r, u.asks callId = some row → row.originalAuthority = some (.exact r) →
    (row.usedAt ≠ none ↔ Event.claimed callId ∈ u.log)
  /-- It is used once. -/
  uses : (u.log.filterMap Event.uses).Nodup
  /-- Whatever left was approved before, as it left. -/
  dispatched : ∀ before d after, u.log = before ++ .dispatched d :: after → ∃ row r,
    u.asks d.callId = some row ∧ row.originalAuthority = some (.exact r) ∧
      Approved codec before d row r

theorem mem_claims {log : List Event} {callId : Text} :
    callId ∈ log.filterMap Event.claims ↔ Event.claimed callId ∈ log := by
  rw [List.mem_filterMap]
  constructor
  · rintro ⟨e, he, hclaims⟩
    cases e with
    | claimed callId' =>
      cases hclaims
      exact he
    | _ => cases hclaims
  · exact fun h => ⟨_, h, rfl⟩

/-- A dispatch comes after its claim, which comes after its approval. -/
theorem approved_of_inv (h : Inv codec s) (htime : InTime s) {before after : List Event}
    {d : Dispatch} (hlog : s.log = before ++ .dispatched d :: after) :
    ∃ row r, s.asks d.callId = some row ∧ row.originalAuthority = some (.exact r) ∧
      Approved codec before d row r := by
  obtain ⟨hclaimed, row, r, hrow, hexact, hfits⟩ := h.order before _ after hlog
  obtain ⟨row', r', hrow', hexact', hnow⟩ := htime d
    (by rw [hlog]; exact List.mem_append_right _ (List.mem_cons_self ..))
  rw [hrow] at hrow'
  cases hrow'
  rw [hexact] at hexact'
  cases hexact'
  obtain ⟨early, late, hbefore⟩ := List.append_of_mem hclaimed
  obtain ⟨⟨row', r', hrow', hexact', hgrants⟩, hsettled⟩ := h.order early _
    (late ++ .dispatched d :: after) (by rw [hlog, hbefore, List.append_assoc]; rfl)
  rw [hrow] at hrow'
  cases hrow'
  rw [hexact] at hexact'
  cases hexact'
  exact ⟨row, r, hrow, hexact, hfits, hnow, early, late, hbefore, hgrants, hsettled⟩

/-- **An exact card is used at most once, for what was approved**, in every run in which no file is
    written after the reservation has expired: the outside calls are in time anyway. -/
theorem exactCard_used_once (codec : CardCodec) {s t u : State} {ls ms : List Label}
    (hinit : (cards codec).init s) (ht : (cards codec).run s ls = some t)
    (hu : (cards codec).run t ms = some u)
    (htime : (cards codec).AllSteps (fun s label => writesInTime s label = true) s (ls ++ ms)) :
    CardsSafe codec t.shared u.shared := by
  have hrun : (cards codec).run s (ls ++ ms) = some u := by
    rw [System.run_append, ht]
    exact hu
  -- The whole run, as a run of things that are used once.
  obtain ⟨a, href, honce⟩ := once_cards hinit hrun
  have hstep : ∀ s label t, (∃ a, Refines codec s a) → (cards codec).next s label = some t →
      ∃ a, Refines codec t a := by
    intro s label t ⟨a, h⟩ hnext
    obtain ⟨-, b, -, hb⟩ := refines_step h hnext
    exact ⟨b, hb⟩
  have hlater : Later t.shared u.shared := by
    obtain ⟨b, hb, -⟩ := once_cards hinit ht
    exact (cards codec).run_relation (I := fun s => ∃ a, Refines codec s a)
      (R := fun s t => Later s.shared t.shared) (fun s => Later.refl s.shared)
      (fun _ _ _ => Later.trans) hstep (fun _ _ _ ⟨_, h⟩ hnext => later_step h hnext) ⟨b, hb⟩ hu
  -- The time of a dispatch is what needs the condition.
  have hnow : (∃ a, Refines codec u a) ∧ InTime u.shared := by
    refine (cards codec).run_invariant_of_allSteps (P := fun s label => writesInTime s label = true)
      (I := fun s => (∃ a, Refines codec s a) ∧ InTime s.shared) ?_ ⟨?_, ?_⟩ htime hrun
    · intro s label t ⟨href, h⟩ hlabel hnext
      exact ⟨hstep s label t href hnext, href.elim fun _ href => inTime_step href h hlabel hnext⟩
    · exact (refines_init hinit).imp fun _ h => h.2
    · intro d hd
      rw [hinit.2.2.1] at hd
      cases hd
  refine ⟨hlater, ?_, ?_, ?_, fun before d after => approved_of_inv href.inv.shared hnow.2⟩
  · rw [href.claims]
    exact honce.claims
  · -- A card that is claimed is not unclaimed, and an unused one is.
    intro callId row r hrow hexact
    constructor
    · exact href.inv.shared.used callId row r hrow hexact
    · intro hclaimed hunused
      rw [← mem_claims, href.claims, honce.claimed] at hclaimed
      exact hclaimed (href.held.unused callId row hrow hunused)
  · rw [href.uses]
    exact honce.uses

/-! ## Section 9: A note -/

/-- The fingerprints of one note. -/
def noteCodec : CardCodec where
  inputPrint _ input := input
  reservationPrint r := r.original.turnId
  targetPrint target := target.id
  approvalTargetPrint target := target.id
  authorityPrint authority := authority.turnId
  admissionPrint nonce := nonce
  bindingPrint binding := binding.placeId
  outsidePayloadHash _ input := input

def noteTarget : Target := ⟨"vault-note".toList, ['p'], ['m'], ['-'], some "agent".toList⟩

def noteAuthority : TurnAuthority :=
  ⟨.human, ['a'], ['t'], ['s'], ['l'], 1, 1, some ['m'], some ['m'], none, none⟩

def noteSession : Session := ⟨['a'], ['i'], ['s'], ['m'], ['n']⟩

def noteTool : Text := "agent-kit__vault_write".toList

/-- The binding and the policy stay, and there is no note yet. -/
def noteAnswer : Answer where
  original := some noteAuthority
  binding := some ⟨['l'], 1, 1⟩
  locked := true
  policyHash := some ['h']
  target := some noteTarget
  finalBinding := some ⟨['l'], 1, 1⟩
  found := some ['c']
  uuid := ['u']
  content := ['-']
  absent := true
  ok := true

def noteWrite : WriteRequest where
  write := NOTE_WRITE some
  session := noteSession
  operation := noteTool
  input := ['p']
  approval := ⟨['q'], ['c'], noteTool, ['p'], ['p'], noteTarget, noteAuthority⟩
  requestDeadline := APPROVAL_TTL + 1000 * 1000

def noteResponse : Response where
  requestId := ['q']
  callId := ['c']
  toolName := noteTool
  toolInput := ['p']
  own := noteSession
  responderIsResolver := true
  answered := some (['q'], true)
  initialIsHuman := true
  initialMemberId := ['m']
  initialNonce := ['n']

def noteStart : State := ⟨⟨0, fun _ => none, fun _ => none, []⟩, fun _ => none⟩

def noteSteps (request : Request) (steps : Nat) : List Label :=
  .call 0 request :: List.replicate steps (.step 0 noteAnswer)

/-- The card is reserved, shown, approved and claimed, a second before it expires. -/
def noteClaimed : List Label :=
  noteSteps (.reserveExactApproval ⟨noteSession, ['c'], noteTool, ['p'], 1⟩) 2 ++
    noteSteps (.attachExactApproval ['q'] ['c'] noteTool ['p']) 2 ++
    noteSteps (.approveExactResponse noteResponse) 2 ++
    .tick (APPROVAL_TTL - 1000 * 1000) :: noteSteps (.writeBefore noteWrite) 4

/-- A second passes while the write waits for the repository. -/
def noteLate : List Label :=
  noteClaimed ++ List.replicate 3 (.step 0 noteAnswer) ++
    [.tick (APPROVAL_TTL + 1), .step 0 noteAnswer]

theorem noteStart_init : (cards noteCodec).init noteStart :=
  ⟨fun _ _ hrow => (by cases hrow), fun _ => rfl, rfl, fun _ => rfl⟩

theorem exactCard_used_once_note :
    ∃ t u, (cards noteCodec).run noteStart noteClaimed = some t ∧
      (cards noteCodec).run t (List.replicate 4 (.step 0 noteAnswer)) = some u ∧
      CardsSafe noteCodec t.shared u.shared ∧
      u.shared.log.filterMap Event.uses = [['c']] := by
  have hlog : ((cards noteCodec).run noteStart
      (noteClaimed ++ List.replicate 4 (.step 0 noteAnswer))).map
        (fun u => u.shared.log.filterMap Event.uses) = some [['c']] := by
    decide +kernel
  obtain ⟨u, hrun, huses⟩ := Option.map_eq_some_iff.1 hlog
  rw [System.run_append] at hrun
  obtain ⟨t, ht, hu⟩ := Option.bind_eq_some_iff.1 hrun
  exact ⟨t, u, ht, hu, exactCard_used_once noteCodec noteStart_init ht hu (by decide +kernel), huses⟩

/-- The file is written after the reservation has expired. -/
theorem exactCard_used_late : (cards noteCodec).init noteStart ∧
    ∃ u, (cards noteCodec).run noteStart noteLate = some u ∧ ∃ d row r,
      Event.dispatched d ∈ u.shared.log ∧ u.shared.asks d.callId = some row ∧
        row.originalAuthority = some (.exact r) ∧ r.expiresAt < d.time := by
  refine ⟨noteStart_init, ?_⟩
  let r : Reservation :=
    ⟨noteAuthority, ['i'], ['n'], noteTarget, ['h'], APPROVAL_TTL⟩
  let d : Dispatch :=
    ⟨['c'], noteTool, ['p'], noteTarget, ['h'], some ['p'], APPROVAL_TTL + 1⟩
  have hlate : ((cards noteCodec).run noteStart noteLate).map (fun u =>
      (decide (Event.dispatched d ∈ u.shared.log),
        (u.shared.asks ['c']).bind (·.originalAuthority))) = some (true, some (.exact r)) := by
    decide +kernel
  obtain ⟨u, hrun, hu⟩ := Option.map_eq_some_iff.1 hlate
  obtain ⟨hlog, hasks⟩ := Prod.mk.inj hu
  obtain ⟨row, hrow, hexact⟩ := Option.bind_eq_some_iff.1 hasks
  exact ⟨u, hrun, d, row, r, of_decide_eq_true hlog, hrow, hexact, Int.lt_succ APPROVAL_TTL⟩

end Lares.Approvals.ExactCard
