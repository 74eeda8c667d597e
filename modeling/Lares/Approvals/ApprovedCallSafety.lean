import Lares.Approvals.ApprovedCall
import Lares.Approvals.FingerprintBinding

/-! # What a call with a card can do

    * **A row keeps its card**: who asked what and when never changes, and an
      outcome that is no approval is final.
    * **A pass has a card**, which was shown for the same call and is fresh.
    * **Uses** are counted once for each pass whose count was written.
-/

namespace Lares.ApprovedCalls

open Approvals Requests

variable {δ Authority : Type}

/-! ## Section 1: Rows -/

/-- What is final: an outcome that is neither missing nor an approval. -/
def AskRow.Final (r : AskRow δ Authority) : Prop := r.outcome ≠ none ∧ r.outcome ≠ some .approved

/-- What a row becomes. -/
structure Follows (old new : AskRow δ Authority) : Prop where
  /-- A request id stays. -/
  requestId : ∀ id, old.requestId = some id → new.requestId = some id
  authority : new.originalAuthority = old.originalAuthority
  callId : new.callId = old.callId
  tool : new.tool = old.tool
  payloadHash : new.payloadHash = old.payloadHash
  askedAt : new.askedAt = old.askedAt
  /-- Without an authority, a final outcome stays. -/
  final : old.originalAuthority = none → old.Final → new.outcome = old.outcome
  /-- An approval stays, expires or is found to be of another payload. -/
  approved : old.originalAuthority = none → old.outcome = some .approved →
    new.outcome = some .approved ∨ new.outcome = some .expired ∨ new.outcome = some .payloadChanged

theorem Follows.refl (r : AskRow δ Authority) : Follows r r :=
  ⟨fun _ h => h, rfl, rfl, rfl, rfl, rfl, fun _ _ => rfl, fun _ h => .inl h⟩

theorem Follows.trans {a b c : AskRow δ Authority} (h : Follows a b) (h' : Follows b c) :
    Follows a c where
  requestId id ha := h'.requestId id (h.requestId id ha)
  authority := h'.authority.trans h.authority
  callId := h'.callId.trans h.callId
  tool := h'.tool.trans h.tool
  payloadHash := h'.payloadHash.trans h.payloadHash
  askedAt := h'.askedAt.trans h.askedAt
  final hauth hfinal := by
    have hb := h.final hauth hfinal
    have hfinal' : b.Final := by
      rw [AskRow.Final, hb]
      exact hfinal
    exact (h'.final (h.authority.trans hauth) hfinal').trans hb
  approved hauth happroved := by
    have hauth' := h.authority.trans hauth
    rcases h.approved hauth happroved with hb | hb | hb
    · exact h'.approved hauth' hb
    · have hc := h'.final hauth' (by rw [AskRow.Final, hb]; exact ⟨nofun, nofun⟩)
      exact .inr (.inl (hc.trans hb))
    · have hc := h'.final hauth' (by rw [AskRow.Final, hb]; exact ⟨nofun, nofun⟩)
      exact .inr (.inr (hc.trans hb))

/-- Every row is still there. -/
def Extends (asks asks' : Asks δ Authority) : Prop := ∀ r ∈ asks, ∃ r' ∈ asks', Follows r r'

theorem Extends.refl (asks : Asks δ Authority) : Extends asks asks :=
  fun r hr => ⟨r, hr, .refl r⟩

theorem Extends.trans {a b c : Asks δ Authority} (h : Extends a b) (h' : Extends b c) :
    Extends a c := by
  intro r hr
  obtain ⟨r', hr', hfollows⟩ := h r hr
  obtain ⟨r'', hr'', hfollows'⟩ := h' r' hr'
  exact ⟨r'', hr'', hfollows.trans hfollows'⟩

theorem extends_append (asks more : Asks δ Authority) : Extends asks (asks ++ more) :=
  fun r hr => ⟨r, List.mem_append_left _ hr, .refl r⟩

/-- A statement that changes rows one by one. -/
theorem extends_map {f : AskRow δ Authority → AskRow δ Authority} {asks : Asks δ Authority}
    (hf : ∀ r ∈ asks, Follows r (f r)) : Extends asks (asks.map f) :=
  fun r hr => ⟨f r, List.mem_map_of_mem hr, hf r hr⟩

/-- What `recordAnswer`, `settle` and `markUsed` keep of a row. -/
structure Rewrites (f : AskRow δ Authority → AskRow δ Authority) : Prop where
  follows : ∀ r, Follows r (f r)
  requestId : ∀ r, (f r).requestId = r.requestId

theorem recordAnswer_rewrites (now : Time) (requestId : JsText) (outcome : AskOutcome)
    (via : Option JsText) :
    Rewrites fun r : AskRow δ Authority =>
      if r.answers (some requestId) && r.outcome.isNone && r.originalAuthority.isNone then
        { r with answeredAt := some now, outcome := some outcome, answeredVia := via }
      else r := by
  constructor
  · intro r
    split
    next h =>
      simp only [Bool.and_eq_true, Option.isNone_iff_eq_none] at h
      exact ⟨fun _ h => h, rfl, rfl, rfl, rfl, rfl, fun _ hfinal => absurd h.1.2 hfinal.1,
        fun _ happroved => by rw [h.1.2] at happroved; cases happroved⟩
    · exact .refl r
  · intro r
    split <;> rfl

theorem settle_rewrites (now : Time) (requestId : Option JsText) (o : Settled) :
    Rewrites fun r : AskRow δ Authority =>
      if r.answers requestId && (r.outcome.isNone || r.outcome == some .approved) then
        { r with answeredAt := some (r.answeredAt.getD now), outcome := some o.outcome }
      else r := by
  constructor
  · intro r
    split
    next h =>
      simp only [Bool.and_eq_true, Bool.or_eq_true, Option.isNone_iff_eq_none, beq_iff_eq] at h
      refine ⟨fun _ h => h, rfl, rfl, rfl, rfl, rfl, ?_, ?_⟩
      · intro _ hfinal
        exact absurd h.2 (not_or.2 hfinal)
      · intro _ _
        cases o
        · exact .inr (.inl rfl)
        · exact .inr (.inr rfl)
    · exact .refl r
  · intro r
    split <;> rfl

theorem markUsed_rewrites (now : Time) (requestId : Option JsText) :
    Rewrites fun r : AskRow δ Authority =>
      if r.answers requestId then
        { r with useCount := r.useCount + 1, usedAt := some (r.usedAt.getD now) }
      else r := by
  constructor
  · intro r
    split
    · exact ⟨fun _ h => h, rfl, rfl, rfl, rfl, rfl, fun _ _ => rfl, fun _ h => .inl h⟩
    · exact .refl r
  · intro r
    split <;> rfl

/-- Another row with the id would be in the way. -/
theorem not_conflicts {requestId : Option JsText} {callId : JsText} {asks : Asks δ Authority}
    (h : conflicts requestId callId asks = false) :
    ∀ r ∈ asks, r.callId ≠ callId ∧ ∀ id, r.requestId = some id → requestId ≠ some id := by
  intro r hr
  have hrow := List.any_eq_false.1 h r hr
  simp only [Bool.or_eq_true, decide_eq_true_eq, not_or] at hrow
  refine ⟨hrow.1, ?_⟩
  intro id hid hsame
  apply hrow.2
  rw [hid, hsame]
  simp

/-! ## Section 2: The check -/

section Check

variable [DecidableEq δ] {sha256 : ByteArray → δ} {call : ApprovedCall} {row : AskRow δ Authority}

/-- The row lets the call pass. -/
structure Lets (sha256 : ByteArray → δ) (call : ApprovedCall) (row : AskRow δ Authority) : Prop where
  /-- It is no exact card. -/
  authority : row.originalAuthority = none
  /-- It is approved, or not answered yet. -/
  outcome : row.outcome = none ∨ row.outcome = some .approved
  /-- It was asked in time. -/
  fresh : call.now - row.askedAt ≤ call.ttl
  /-- It is this call that was shown. -/
  payloadHash : row.payloadHash = payloadFingerprint sha256 call.toolName call.input

theorem checkRow_pass (h : checkRow sha256 call row = .pass) : Lets sha256 call row := by
  unfold checkRow at h
  split at h
  · cases h
  next hauth =>
    rw [Bool.not_eq_true, Option.isSome_eq_false_iff, Option.isNone_iff_eq_none] at hauth
    split at h
    all_goals try cases h
    next hexpired hchanged hcancelled hignored hinvalid =>
      split at h
      · cases h
      next hfresh =>
        split at h
        · cases h
        next hsame =>
          refine ⟨hauth, ?_, not_lt.1 hfresh, not_not.1 hsame⟩
          cases houtcome : row.outcome with
          | none => exact .inl rfl
          | some o => cases o <;> first | exact .inr rfl | exact absurd houtcome ‹_›

/-- A final outcome is refused at once. -/
theorem checkRow_final (hauth : row.originalAuthority = none) (hfinal : row.Final) :
    ∃ e, checkRow sha256 call row = .refuse e := by
  have hnone : ¬ row.originalAuthority.isSome = true := by simp [hauth]
  unfold checkRow
  rw [if_neg hnone]
  cases houtcome : row.outcome with
  | none => exact absurd houtcome hfinal.1
  | some o =>
    cases o with
    | approved => exact absurd houtcome hfinal.2
    | cancelled => exact ⟨_, rfl⟩
    | ignored => exact ⟨_, rfl⟩
    | invalid => exact ⟨_, rfl⟩
    | expired => exact ⟨_, rfl⟩
    | payloadChanged => exact ⟨_, rfl⟩

end Check

/-! ## Section 3: The invariant -/

/-- The passes that were counted under a request id. -/
def usesOf (requestId : Option JsText) (verdicts : List (Verdict δ Authority)) : ℕ :=
  verdicts.countP fun v => v.counted && v.row.any fun row => decide (row.requestId = requestId)

variable (sha256 : ByteArray → δ)

/-- The row was read for the call, lets it pass, and is in the table. -/
structure Cleared (asks : Asks δ Authority) (call : ApprovedCall) (row : AskRow δ Authority) :
    Prop where
  /-- What was read of the row. -/
  lets : Lets sha256 call row
  /-- The row is that of the call. -/
  callId : call.callId = some row.callId
  /-- The card was shown. -/
  requestId : row.requestId ≠ none
  /-- It is in the table still, later perhaps. -/
  kept : ∃ r ∈ asks, Follows row r

/-- The card of a row without authority. -/
def ShownFor (shown : List Card) (r : AskRow δ Authority) : Prop :=
  ∃ card ∈ shown, r.requestId = some card.requestId ∧ r.callId = card.callId ∧ r.tool = card.tool ∧
    r.payloadHash = payloadFingerprint sha256 card.tool card.input

/-- What holds at any time. -/
structure Good (s : Register δ Authority) : Prop where
  /-- A call has one row. -/
  calls : (s.asks.map AskRow.callId).Nodup
  /-- A request id is of one row. -/
  ids : ∀ a ∈ s.asks, ∀ b ∈ s.asks, ∀ id, a.requestId = some id → b.requestId = some id → a = b
  /-- What was asked without an authority was shown. -/
  shown : ∀ r ∈ s.asks, r.originalAuthority = none → ShownFor sha256 s.shown r
  /-- What has passed was cleared. -/
  passed : ∀ v ∈ s.verdicts, v.result = .passed →
    ∃ row, v.row = some row ∧ Cleared sha256 s.asks v.call row
  /-- Only what has passed is counted. -/
  counted : ∀ v ∈ s.verdicts, v.counted = true → v.result = .passed
  /-- The count is what was counted. -/
  uses : ∀ r ∈ s.asks, r.originalAuthority = none → r.useCount = usesOf r.requestId s.verdicts

/-- What a call knows. -/
def Knows (s : Register δ Authority) : Pending δ Authority → Prop
  | .asking _ => True
  | .settling _ _ _ => True
  | .marking call row => Cleared sha256 s.asks call row

/-- What a step may do. -/
structure Later (s t : Register δ Authority) : Prop where
  asks : Extends s.asks t.asks
  shown : s.shown <+: t.shown
  verdicts : s.verdicts <+: t.verdicts

variable {sha256}

theorem Later.refl (s : Register δ Authority) : Later s s :=
  ⟨.refl _, List.prefix_refl _, List.prefix_refl _⟩

theorem Later.trans {s t u : Register δ Authority} (h : Later s t) (h' : Later t u) : Later s u :=
  ⟨h.asks.trans h'.asks, h.shown.trans h'.shown, h.verdicts.trans h'.verdicts⟩

theorem Cleared.extends {asks asks' : Asks δ Authority} {call : ApprovedCall}
    {row : AskRow δ Authority} (h : Cleared sha256 asks call row) (hext : Extends asks asks') :
    Cleared sha256 asks' call row := by
  obtain ⟨r, hr, hfollows⟩ := h.kept
  obtain ⟨r', hr', hfollows'⟩ := hext r hr
  exact ⟨h.lets, h.callId, h.requestId, r', hr', hfollows.trans hfollows'⟩

theorem Knows.later {s t : Register δ Authority} {req : Pending δ Authority} (hlater : Later s t)
    (h : Knows sha256 s req) : Knows sha256 t req := by
  cases req with
  | asking call => trivial
  | settling call row o => trivial
  | marking call row => exact Cleared.extends h hlater.asks

theorem ShownFor.mono {shown shown' : List Card} {r : AskRow δ Authority} (h : shown <+: shown')
    (hr : ShownFor sha256 shown r) : ShownFor sha256 shown' r := by
  obtain ⟨card, hcard, hrest⟩ := hr
  exact ⟨card, h.subset hcard, hrest⟩

/-- The card of a row is the card of what the row becomes. -/
theorem ShownFor.follows {shown : List Card} {r r' : AskRow δ Authority} (h : Follows r r')
    (hr : ShownFor sha256 shown r) : ShownFor sha256 shown r' := by
  obtain ⟨card, hcard, hid, hcall, htool, hhash⟩ := hr
  exact ⟨card, hcard, h.requestId _ hid, h.callId.trans hcall, h.tool.trans htool,
    h.payloadHash.trans hhash⟩

/-- A statement over all rows, of which only `useCount` has to be looked at. -/
theorem Good.rewrite {s : Register δ Authority} (h : Good sha256 s)
    {f : AskRow δ Authority → AskRow δ Authority} (hf : Rewrites f)
    {more : List (Verdict δ Authority)}
    (hmore : ∀ v ∈ more, v.result = .passed →
      ∃ row, v.row = some row ∧ Cleared sha256 s.asks v.call row)
    (hcounted : ∀ v ∈ more, v.counted = true → v.result = .passed)
    (huses : ∀ r ∈ s.asks, r.originalAuthority = none →
      (f r).useCount = r.useCount + usesOf r.requestId more) :
    Good sha256 ⟨s.asks.map f, s.shown, s.verdicts ++ more⟩ ∧
      Later s ⟨s.asks.map f, s.shown, s.verdicts ++ more⟩ := by
  have hext : Extends s.asks (s.asks.map f) := extends_map fun r _ => hf.follows r
  refine ⟨⟨?_, ?_, ?_, ?_, ?_, ?_⟩, hext, List.prefix_refl _, List.prefix_append _ _⟩
  · have hcalls : (s.asks.map f).map AskRow.callId = s.asks.map AskRow.callId := by
      rw [List.map_map]
      exact List.map_congr_left fun r _ => (hf.follows r).callId
    rw [hcalls]
    exact h.calls
  · intro a' ha' b' hb' id haid hbid
    obtain ⟨a, ha, rfl⟩ := List.mem_map.1 ha'
    obtain ⟨b, hb, rfl⟩ := List.mem_map.1 hb'
    rw [hf.requestId] at haid hbid
    rw [h.ids a ha b hb id haid hbid]
  · intro r' hr' hauth
    obtain ⟨r, hr, rfl⟩ := List.mem_map.1 hr'
    exact (h.shown r hr ((hf.follows r).authority.symm.trans hauth)).follows (hf.follows r)
  · intro v hv hpassed
    have hcleared : ∃ row, v.row = some row ∧ Cleared sha256 s.asks v.call row := by
      rcases List.mem_append.1 hv with hv | hv
      · exact h.passed v hv hpassed
      · exact hmore v hv hpassed
    obtain ⟨row, hrow, hclear⟩ := hcleared
    exact ⟨row, hrow, hclear.extends hext⟩
  · intro v hv hv'
    rcases List.mem_append.1 hv with hv | hv
    · exact h.counted v hv hv'
    · exact hcounted v hv hv'
  · intro r' hr' hauth
    obtain ⟨r, hr, rfl⟩ := List.mem_map.1 hr'
    have hauth' := (hf.follows r).authority.symm.trans hauth
    rw [hf.requestId, usesOf, List.countP_append, huses r hr hauth', h.uses r hr hauth']
    rfl

/-- A new row, which no index has. -/
theorem Good.insert {s : Register δ Authority} (h : Good sha256 s) {row : AskRow δ Authority}
    {more : List Card} (hfree : conflicts row.requestId row.callId s.asks = false)
    (hshown : row.originalAuthority = none → ShownFor sha256 (s.shown ++ more) row)
    (huse : row.originalAuthority = none → row.useCount = 0) :
    Good sha256 ⟨s.asks ++ [row], s.shown ++ more, s.verdicts⟩ ∧
      Later s ⟨s.asks ++ [row], s.shown ++ more, s.verdicts⟩ := by
  have hext := extends_append s.asks [row]
  have hnew := not_conflicts hfree
  refine ⟨⟨?_, ?_, ?_, ?_, h.counted, ?_⟩, hext, List.prefix_append _ _, List.prefix_refl _⟩
  · rw [List.map_append, List.map_singleton]
    refine List.nodup_append'.2 ⟨h.calls, List.nodup_singleton _, ?_⟩
    rw [List.disjoint_singleton]
    intro hmem
    obtain ⟨r, hr, hcall⟩ := List.mem_map.1 hmem
    exact (hnew r hr).1 hcall
  · intro a ha b hb id haid hbid
    rcases List.mem_append.1 ha with ha | ha <;> rcases List.mem_append.1 hb with hb | hb
    · exact h.ids a ha b hb id haid hbid
    · rw [List.mem_singleton.1 hb] at hbid
      exact absurd hbid ((hnew a ha).2 id haid)
    · rw [List.mem_singleton.1 ha] at haid
      exact absurd haid ((hnew b hb).2 id hbid)
    · rw [List.mem_singleton.1 ha, List.mem_singleton.1 hb]
  · intro r hr hauth
    rcases List.mem_append.1 hr with hr | hr
    · exact (h.shown r hr hauth).mono (List.prefix_append _ _)
    · rw [List.mem_singleton.1 hr] at hauth ⊢
      exact hshown hauth
  · intro v hv hpassed
    obtain ⟨row', hrow, hclear⟩ := h.passed v hv hpassed
    exact ⟨row', hrow, hclear.extends hext⟩
  · intro r hr hauth
    rcases List.mem_append.1 hr with hr | hr
    · exact h.uses r hr hauth
    · rw [List.mem_singleton.1 hr] at hauth ⊢
      rw [huse hauth]
      refine (List.countP_eq_zero.2 ?_).symm
      intro v hv
      rw [Bool.and_eq_true]
      rintro ⟨hcounted, hrow⟩
      obtain ⟨row', hread, hclear⟩ := h.passed v hv (h.counted v hv hcounted)
      rw [hread, Option.any_some, decide_eq_true_eq] at hrow
      -- The row that was counted is still there, with the id of the new one.
      obtain ⟨r', hr', hfollows⟩ := hclear.kept
      obtain ⟨id, hid⟩ := Option.ne_none_iff_exists'.1 hclear.requestId
      exact (hnew r' hr').2 id (hfollows.requestId id hid) (hrow.symm.trans hid)

/-- A verdict that counts nothing. -/
theorem Good.ends {s : Register δ Authority} (h : Good sha256 s) {v : Verdict δ Authority}
    (hcounted : v.counted = false)
    (hv : v.result = .passed → ∃ row, v.row = some row ∧ Cleared sha256 s.asks v.call row) :
    Good sha256 (s.ends v) ∧ Later s (s.ends v) := by
  have hmore : ∀ w ∈ [v], w.result = .passed →
      ∃ row, w.row = some row ∧ Cleared sha256 s.asks w.call row := by
    intro w hw hpassed
    rw [List.mem_singleton.1 hw] at hpassed ⊢
    exact hv hpassed
  have hnone : ∀ w ∈ [v], w.counted = true → w.result = .passed := by
    intro w hw hw'
    rw [List.mem_singleton.1 hw, hcounted] at hw'
    cases hw'
  have huses : ∀ r ∈ s.asks, r.originalAuthority = none →
      (id r).useCount = r.useCount + usesOf r.requestId [v] := by
    intro r _ _
    simp [usesOf, hcounted]
  have h' := h.rewrite ⟨fun r => .refl r, fun _ => rfl⟩ hmore hnone huses
  rw [List.map_id'] at h'
  exact h'

/-- The row of a call is the row that is read for it. -/
theorem askForCall_some {callId : JsText} {asks : Asks δ Authority} {row : AskRow δ Authority}
    (h : askForCall callId asks = some row) : row ∈ asks ∧ row.callId = callId :=
  ⟨List.mem_of_find?_eq_some h, by simpa using List.find?_some h⟩

theorem askForCall_of_mem {asks : Asks δ Authority} (hnodup : (asks.map AskRow.callId).Nodup)
    {row : AskRow δ Authority} (hrow : row ∈ asks) : askForCall row.callId asks = some row := by
  cases h : askForCall row.callId asks with
  | none =>
    have hnot := List.find?_eq_none.1 h row hrow
    simp at hnot
  | some row' =>
    obtain ⟨hrow', hcall⟩ := askForCall_some h
    rw [List.inj_on_of_nodup_map hnodup hrow' hrow hcall]

/-- A call that ends without a pass. -/
theorem Good.refuses {s : Register δ Authority} (h : Good sha256 s) (call : ApprovedCall)
    (row : Option (AskRow δ Authority)) (result : Result) (hresult : result ≠ .passed) :
    Good sha256 (s.ends ⟨call, row, result, false⟩) ∧
      Later s (s.ends ⟨call, row, result, false⟩) := by
  refine h.ends rfl ?_
  intro hpassed
  exact absurd hpassed hresult

theorem Good.settles {s : Register δ Authority} (h : Good sha256 s) (call : ApprovedCall)
    (row : AskRow δ Authority) (o : Settled) (now : Time) :
    Good sha256 (({ s with asks := settle now row.requestId o s.asks }).ends
        ⟨call, some row, .refused o.refusal, false⟩) ∧
      Later s (({ s with asks := settle now row.requestId o s.asks }).ends
        ⟨call, some row, .refused o.refusal, false⟩) := by
  refine h.rewrite (settle_rewrites now row.requestId o) ?_ ?_ ?_
  · intro v hv hpassed
    rw [List.mem_singleton.1 hv] at hpassed
    cases hpassed
  · intro v hv hcounted
    rw [List.mem_singleton.1 hv] at hcounted
    cases hcounted
  · intro r _ _
    simp only [usesOf, List.countP_singleton, Bool.false_and, Bool.false_eq_true, if_false,
      Nat.add_zero]
    split <;> rfl

theorem Good.marks {s : Register δ Authority} (h : Good sha256 s) {call : ApprovedCall}
    {row : AskRow δ Authority} (hclear : Cleared sha256 s.asks call row) (now : Time) :
    Good sha256 (({ s with asks := markUsed now row.requestId s.asks }).ends
        ⟨call, some row, .passed, true⟩) ∧
      Later s (({ s with asks := markUsed now row.requestId s.asks }).ends
        ⟨call, some row, .passed, true⟩) := by
  refine h.rewrite (markUsed_rewrites now row.requestId) ?_ ?_ ?_
  · intro v hv _
    rw [List.mem_singleton.1 hv]
    exact ⟨row, rfl, hclear⟩
  · intro v hv _
    rw [List.mem_singleton.1 hv]
  · intro r _ _
    obtain ⟨id, hid⟩ := Option.ne_none_iff_exists'.1 hclear.requestId
    simp only [usesOf, List.countP_singleton, Bool.true_and, Option.any_some, AskRow.answers, hid,
      decide_eq_true_eq, beq_iff_eq]
    by_cases hsame : r.requestId = some id
    · simp [hsame]
    · rw [if_neg hsame, if_neg (Ne.symm hsame)]
      rfl

variable [DecidableEq δ]

/-- The answer to a call's read. -/
theorem stepCall_asking {s t : Register δ Authority} {call : ApprovedCall} {answer : DbAnswer}
    {left : Option (Pending δ Authority)} (h : Good sha256 s)
    (hstep : stepCall sha256 s (.asking call) answer = some (t, left)) :
    Good sha256 t ∧ Later s t ∧ ∀ req', left = some req' → Knows sha256 t req' := by
  simp only [stepCall] at hstep
  split at hstep
  · cases hstep
    obtain ⟨hgood, hlater⟩ := h.refuses call none .unchecked (by decide)
    exact ⟨hgood, hlater, by simp⟩
  · cases hstep
    obtain ⟨hgood, hlater⟩ := h.refuses call none .unchecked (by decide)
    exact ⟨hgood, hlater, by simp⟩
  next callId hnotempty hcallId =>
    split at hstep
    · split at hstep
      · cases hstep
        obtain ⟨hgood, hlater⟩ := h.refuses call none .unchecked (by decide)
        exact ⟨hgood, hlater, by simp⟩
      next row hrow =>
        obtain ⟨hmem, hcall⟩ := askForCall_some hrow
        split at hstep
        next e _ =>
          cases hstep
          obtain ⟨hgood, hlater⟩ := h.refuses call (some row) (.refused e) (by simp)
          exact ⟨hgood, hlater, by simp⟩
        · cases hstep
          refine ⟨h, .refl s, ?_⟩
          intro req' hreq'
          cases hreq'
          trivial
        next hpass =>
          cases hstep
          refine ⟨h, .refl s, ?_⟩
          intro req' hreq'
          cases hreq'
          have hlets := checkRow_pass hpass
          obtain ⟨card, -, hid, -⟩ := h.shown row hmem hlets.authority
          exact ⟨hlets, hcallId.trans (congrArg some hcall.symm), by simp [hid], row, hmem,
            .refl row⟩
    · cases hstep
      obtain ⟨hgood, hlater⟩ := h.refuses call none .unchecked (by decide)
      exact ⟨hgood, hlater, by simp⟩

/-- What a call does with an answer. -/
theorem stepCall_keeps {s t : Register δ Authority} {req : Pending δ Authority} {answer : DbAnswer}
    {left : Option (Pending δ Authority)} (h : Good sha256 s) (hknows : Knows sha256 s req)
    (hstep : stepCall sha256 s req answer = some (t, left)) :
    Good sha256 t ∧ Later s t ∧ ∀ req', left = some req' → Knows sha256 t req' := by
  cases req with
  | asking call => exact stepCall_asking h hstep
  | settling call row o =>
    simp only [stepCall] at hstep
    cases hstep
    cases answer.at? with
    | none =>
      obtain ⟨hgood, hlater⟩ := h.refuses call (some row) (.refused o.refusal) (by simp)
      exact ⟨hgood, hlater, by simp⟩
    | some now =>
      obtain ⟨hgood, hlater⟩ := h.settles call row o now
      exact ⟨hgood, hlater, by simp⟩
  | marking call row =>
    simp only [stepCall] at hstep
    split at hstep
    next now hnow =>
      cases hstep
      obtain ⟨hgood, hlater⟩ := h.marks hknows now
      exact ⟨hgood, hlater, by simp⟩
    · cases hstep
      obtain ⟨hgood, hlater⟩ := h.ends (v := ⟨call, some row, .passed, false⟩) rfl
        fun _ => ⟨row, rfl, hknows⟩
      exact ⟨hgood, hlater, by simp⟩

omit [DecidableEq δ] in
theorem map_replace_callId {asks : Asks δ Authority} {row : AskRow δ Authority} :
    (asks.map fun r => if r.callId = row.callId then row else r).map AskRow.callId =
      asks.map AskRow.callId := by
  rw [List.map_map]
  refine List.map_congr_left fun r _ => ?_
  show (if r.callId = row.callId then row else r).callId = r.callId
  split
  next h => exact h.symm
  · rfl

variable [DecidableEq Authority]

theorem follows_guardsExact {old new : AskRow δ Authority} (h : guardsExact old new = true) :
    Follows old new ∧ old.originalAuthority ≠ none := by
  simp only [guardsExact, Bool.and_eq_true, Bool.or_eq_true, beq_iff_eq,
    Option.isNone_iff_eq_none] at h
  obtain ⟨⟨⟨⟨⟨⟨⟨hsome, hauth⟩, hcall⟩, hagent⟩, htool⟩, hhash⟩, hasked⟩, hid⟩ := h
  have hne : old.originalAuthority ≠ none := Option.isSome_iff_ne_none.1 hsome
  refine ⟨⟨?_, hauth, hcall, htool, hhash, hasked, fun h => absurd h hne, fun h => absurd h hne⟩,
    hne⟩
  intro id hold
  rcases hid with hid | hid
  · rw [hid] at hold
    cases hold
  · rw [hid]
    exact hold

/-- What other parts do to the table. -/
theorem happens_keeps {s t : Register δ Authority} {event : LedgerEvent δ Authority}
    (h : Good sha256 s) (hstep : happens sha256 s event = some t) :
    Good sha256 t ∧ Later s t := by
  cases event with
  | cardShown now card =>
    cases hstep
    by_cases hfree : conflicts (some card.requestId) card.callId s.asks = false
    · rw [recordAsk, hfree, if_neg (by decide)]
      exact h.insert hfree (fun _ => ⟨card, List.mem_append_right _ (List.mem_singleton_self card),
        rfl, rfl, rfl, rfl⟩) fun _ => rfl
    · -- the first row of the card stays
      rw [recordAsk, if_pos (by simpa using hfree)]
      have hshown : s.shown <+: s.shown ++ [card] := List.prefix_append _ _
      exact ⟨⟨h.calls, h.ids, fun r hr hauth => (h.shown r hr hauth).mono hshown, h.passed,
        h.counted, h.uses⟩, .refl _, hshown, List.prefix_refl _⟩
  | answered now requestId outcome via =>
    cases hstep
    have hnone : ∀ v ∈ ([] : List (Verdict δ Authority)), v.result = .passed →
        ∃ row, v.row = some row ∧ Cleared sha256 s.asks v.call row :=
      fun v hv => absurd hv List.not_mem_nil
    have hnone' : ∀ v ∈ ([] : List (Verdict δ Authority)), v.counted = true → v.result = .passed :=
      fun v hv => absurd hv List.not_mem_nil
    have h' := h.rewrite (recordAnswer_rewrites now requestId outcome via) hnone hnone' (by
      intro r _ _
      simp only [usesOf, List.countP_nil, Nat.add_zero]
      split <;> rfl)
    rw [List.append_nil] at h'
    exact h'
  | exactReserved row =>
    simp only [happens] at hstep
    split at hstep
    next hrow =>
      cases hstep
      rw [Bool.and_eq_true, Bool.not_eq_true'] at hrow
      have hne : row.originalAuthority ≠ none := Option.isSome_iff_ne_none.1 hrow.1
      have h' : Good sha256 ⟨s.asks ++ [row], s.shown ++ [], s.verdicts⟩ ∧
          Later s ⟨s.asks ++ [row], s.shown ++ [], s.verdicts⟩ :=
        h.insert hrow.2 (fun hnone => absurd hnone hne) fun hnone => absurd hnone hne
      rw [List.append_nil] at h'
      exact h'
    · cases hstep
  | exactUpdated row =>
    simp only [happens] at hstep
    split at hstep
    next old hold =>
      split at hstep
      next hguard =>
        cases hstep
        rw [Bool.and_eq_true] at hguard
        obtain ⟨hfollows, hne⟩ := follows_guardsExact hguard.1
        obtain ⟨hmem, hcall⟩ := askForCall_some hold
        -- the row of the call is the one row that is replaced
        have hrow : ∀ r ∈ s.asks, r.callId = row.callId → r = old := fun r hr hsame =>
          List.inj_on_of_nodup_map h.calls hr hmem (hsame.trans hcall.symm)
        have hext : Extends s.asks
            (s.asks.map fun r => if r.callId = row.callId then row else r) := by
          apply extends_map
          intro r hr
          split
          next hsame =>
            rw [hrow r hr hsame]
            exact hfollows
          · exact .refl r
        have hplain : ∀ r' ∈ s.asks.map fun r => if r.callId = row.callId then row else r,
            r'.originalAuthority = none → r' ∈ s.asks := by
          intro r' hr' hauth
          obtain ⟨r, hr, rfl⟩ := List.mem_map.1 hr'
          split at hauth
          · exact absurd (hfollows.authority.symm.trans hauth) hne
          next hplain =>
            rw [if_neg hplain]
            exact hr
        -- no other row has the id of the new one
        have hother : ∀ r ∈ s.asks, r.callId ≠ row.callId → ∀ id, r.requestId = some id →
            row.requestId ≠ some id := by
          intro r hr hcallId id hid hrowid
          have hany := hguard.2
          rw [Bool.not_eq_true', List.any_eq_false] at hany
          have hrow' := hany r hr
          simp [hcallId, AskRow.answers, hid, hrowid] at hrow'
        refine ⟨⟨?_, ?_, ?_, ?_, h.counted, ?_⟩, hext, List.prefix_refl _, List.prefix_refl _⟩
        · rw [map_replace_callId]
          exact h.calls
        · intro a' ha' b' hb' id haid hbid
          obtain ⟨a, ha, rfl⟩ := List.mem_map.1 ha'
          obtain ⟨b, hb, rfl⟩ := List.mem_map.1 hb'
          by_cases hacall : a.callId = row.callId <;> by_cases hbcall : b.callId = row.callId
          · rw [if_pos hacall, if_pos hbcall]
          · rw [if_pos hacall] at haid
            rw [if_neg hbcall] at hbid
            exact absurd haid (hother b hb hbcall id hbid)
          · rw [if_neg hacall] at haid
            rw [if_pos hbcall] at hbid
            exact absurd hbid (hother a ha hacall id haid)
          · rw [if_neg hacall] at haid
            rw [if_neg hbcall] at hbid
            rw [if_neg hacall, if_neg hbcall, h.ids a ha b hb id haid hbid]
        · intro r hr hauth
          exact h.shown r (hplain r hr hauth) hauth
        · intro v hv hpassed
          obtain ⟨row', hread, hclear⟩ := h.passed v hv hpassed
          exact ⟨row', hread, hclear.extends hext⟩
        · intro r hr hauth
          exact h.uses r (hplain r hr hauth) hauth
      · cases hstep
    · cases hstep

/-- Every step keeps the invariant, and the table. -/
theorem approvedCalls_keeps :
    (approvedCalls sha256 : Requests (Register δ Authority) _ _ _).Keeps (fun _ _ _ => True) (Good sha256)
      (Knows sha256) Later where
  refl := Later.refl
  trans _ _ _ := Later.trans
  stable _ _ _ hlater hknows := hknows.later hlater
  begins s req _ hbegins := by
    cases req with
    | asking call => trivial
    | settling call row o => cases hbegins
    | marking call row => cases hbegins
  step _ _ _ _ _ hgood hknows _ hstep := stepCall_keeps hgood hknows hstep
  happens _ _ _ hgood hstep := happens_keeps hgood hstep

omit [DecidableEq δ] [DecidableEq Authority] in
theorem good_init : Good sha256 (⟨[], [], []⟩ : Register δ Authority) where
  calls := List.nodup_nil
  ids _ ha := absurd ha List.not_mem_nil
  shown _ hr := absurd hr List.not_mem_nil
  passed _ hv := absurd hv List.not_mem_nil
  counted _ hv := absurd hv List.not_mem_nil
  uses _ hr := absurd hr List.not_mem_nil

/-- A run from the empty table, and on from a state of it. -/
theorem good_of_run {s t : State (Register δ Authority) (Pending δ Authority)}
    {labels : List (Label (Pending δ Authority) DbAnswer (LedgerEvent δ Authority))}
    (hs : Inv (Good sha256) (Knows sha256) s)
    (hrun : (approvalSystem sha256).run s labels = some t) :
    Inv (Good sha256) (Knows sha256) t ∧ Later s.shared t.shared :=
  approvedCalls_keeps.run hs (allSteps_true s labels) hrun

theorem good_of_reachable {s : State (Register δ Authority) (Pending δ Authority)}
    (h : (approvalSystem sha256).Reachable s) : Inv (Good sha256) (Knows sha256) s := by
  obtain ⟨s₀, labels, hinit, hrun⟩ := h
  refine (good_of_run (inv_init ?_ hinit) hrun).1
  intro shared hshared
  rw [hshared]
  exact good_init

/-! ## Section 4: Runs -/

omit [DecidableEq δ] [DecidableEq Authority] in
/-- The same JSON is written the same way, and nothing else is. -/
theorem same_call_of_fingerprint (hdigest : Function.Injective sha256) {t t' : JsText}
    {v v' : Input} (h : payloadFingerprint sha256 t v = payloadFingerprint sha256 t' v')
    (ht : isWellFormed t = true) (ht' : isWellFormed t' = true) (hv : v.value.Unshared)
    (hv' : v'.value.Unshared) : t = t' ∧ v.SameJson v' := by
  rw [payloadFingerprint_eq_iff hdigest, toWellFormed_eq_iff.2 ht, toWellFormed_eq_iff.2 ht',
    expand_eq hv, expand_eq hv'] at h
  exact ⟨h.1, (Input.sameJson_iff v v').2 h.2⟩

/-- **A pass has a card**: in every run, a call that passes on a row passes on a card that was shown
    for this call id, asked no longer than the call's limit ago and not answered with anything but
    an approval; and what runs is the tool and, up to the order of fields, the input of the card,
    wherever their names are well formed and nothing in their inputs is shared. -/
theorem passed_call_was_shown (hdigest : Function.Injective sha256)
    {s : State (Register δ Authority) (Pending δ Authority)}
    (h : (approvalSystem sha256).Reachable s) {v : Verdict δ Authority}
    (hv : v ∈ s.shared.verdicts) (hpassed : v.result = .passed) :
    ∃ row card, v.row = some row ∧ card ∈ s.shared.shown ∧ v.call.callId = some card.callId ∧
      v.call.now - row.askedAt ≤ v.call.ttl ∧ (row.outcome = none ∨ row.outcome = some .approved) ∧
      (isWellFormed card.tool = true → isWellFormed v.call.toolName = true →
        card.input.value.Unshared → v.call.input.value.Unshared →
          card.tool = v.call.toolName ∧ card.input.SameJson v.call.input) := by
  obtain ⟨hgood, -⟩ := good_of_reachable h
  obtain ⟨row, hrow, hclear⟩ := hgood.passed v hv hpassed
  obtain ⟨r, hr, hfollows⟩ := hclear.kept
  obtain ⟨card, hcard, -, hcall, htool, hhash⟩ :=
    hgood.shown r hr (hfollows.authority.trans hclear.lets.authority)
  have hprint : payloadFingerprint sha256 card.tool card.input =
      payloadFingerprint sha256 v.call.toolName v.call.input := by
    rw [← hhash, hfollows.payloadHash, hclear.lets.payloadHash]
  have hcallId : v.call.callId = some card.callId := by
    rw [hclear.callId, ← hfollows.callId, hcall]
  exact ⟨row, card, hrow, hcard, hcallId, hclear.lets.fresh, hclear.lets.outcome,
    same_call_of_fingerprint hdigest hprint⟩

/-- A card for sending a pair, which is answered, and the call that sends it. -/
def sentCard : Card := ⟨[114], [99], [], ascii ['s', 'e', 'n', 'd'], distinctPair⟩

def sentCall : ApprovedCall :=
  ⟨some [99], ascii ['s', 'e', 'n', 'd'], distinctPair, 2, APPROVAL_TTL⟩

def sentLabels : List (Label (Pending ByteArray Unit) DbAnswer (LedgerEvent ByteArray Unit)) :=
  [.happen (.cardShown 0 sentCard), .happen (.answered 1 [114] .approved none),
    .call 0 (.asking sentCall), .step 0 (.done 2), .step 0 (.done 3)]

theorem sent_passes : ∃ s, (approvalSystem id).run ⟨⟨[], [], []⟩, fun _ => none⟩ sentLabels =
    some s ∧ ∃ v ∈ s.shared.verdicts, v.result = .passed ∧ v.call = sentCall := by
  simp [sentLabels, approvalSystem, Requests.system, Requests.next, approvedCalls, happens,
    recordAsk, conflicts, recordAnswer, AskRow.answers, stepCall, askForCall, checkRow, sentCard,
    sentCall, APPROVAL_TTL, DbAnswer.at?, Register.ends]

theorem sent_reachable {s : State (Register ByteArray Unit) (Pending ByteArray Unit)}
    {labels : List (Label (Pending ByteArray Unit) DbAnswer (LedgerEvent ByteArray Unit))}
    (hrun : (approvalSystem id).run ⟨⟨[], [], []⟩, fun _ => none⟩ labels = some s) :
    (approvalSystem id).Reachable s :=
  ⟨_, labels, ⟨rfl, fun _ => rfl⟩, hrun⟩

theorem passed_call_was_shown_sent : ∃ (v : Verdict ByteArray Unit) (row : AskRow ByteArray Unit)
    (card : Card), v.call = sentCall ∧ v.row = some row ∧ v.call.callId = some card.callId ∧
      v.call.now - row.askedAt ≤ v.call.ttl := by
  obtain ⟨s, hrun, v, hv, hpassed, hcall⟩ := sent_passes
  obtain ⟨row, card, hrow, -, hcallId, hfresh, -⟩ :=
    passed_call_was_shown Function.injective_id (sent_reachable hrun) hv hpassed
  exact ⟨v, row, card, hcall, hrow, hcallId, hfresh⟩

/-- The call is refused when it has read its row, or after the write that settles the row, in
    whatever state the write finds the table and whatever becomes of it. -/
def Stops (sha256 : ByteArray → δ) (s : Register δ Authority) (call : ApprovedCall) (now : Time) :
    Prop :=
  (∃ row e, stepCall sha256 s (.asking call) (.done now) =
      some (s.ends ⟨call, some row, .refused e, false⟩, none)) ∨
    ∃ row o, stepCall sha256 s (.asking call) (.done now) =
        some (s, some (.settling call row o)) ∧
      ∀ (u : Register δ Authority) (answer : DbAnswer), ∃ v,
        stepCall sha256 u (.settling call row o) answer = some (v, none) ∧
          v.verdicts = u.verdicts ++ [⟨call, some row, .refused o.refusal, false⟩]

omit [DecidableEq Authority] in
/-- A call that settles its row ends refused. -/
theorem stepCall_settling (s : Register δ Authority) (call : ApprovedCall)
    (row : AskRow δ Authority) (o : Settled) (answer : DbAnswer) :
    ∃ t, stepCall sha256 s (.settling call row o) answer = some (t, none) ∧
      t.verdicts = s.verdicts ++ [⟨call, some row, .refused o.refusal, false⟩] :=
  ⟨_, rfl, rfl⟩

omit [DecidableEq Authority] in
/-- What a call does with the row that it reads. -/
theorem stepCall_row {s : Register δ Authority} {call : ApprovedCall} {row : AskRow δ Authority}
    {now : Time} (hcall : call.callId = some row.callId) (hid : row.callId ≠ [])
    (hrow : askForCall row.callId s.asks = some row) :
    stepCall sha256 s (.asking call) (.done now) =
      match checkRow sha256 call row with
      | .refuse e => some (s.ends ⟨call, some row, .refused e, false⟩, none)
      | .settle o => some (s, some (.settling call row o))
      | .pass => some (s, some (.marking call row)) := by
  simp only [stepCall, hcall]
  cases hcallId : row.callId with
  | nil => exact absurd hcallId hid
  | cons c cs =>
    rw [hcallId] at hrow
    cases hcheck : checkRow sha256 call row <;> simp only [hrow, hcheck]

omit [DecidableEq Authority] [DecidableEq δ] in
/-- A call that passed on the row of its id came within its limit, with the payload of the card. -/
theorem Good.passed_lets {s : Register δ Authority} (h : Good sha256 s) {row : AskRow δ Authority}
    (hrow : row ∈ s.asks) {v : Verdict δ Authority} (hv : v ∈ s.verdicts)
    (hcall : v.call.callId = some row.callId) (hpassed : v.result = .passed) :
    v.call.now - row.askedAt ≤ v.call.ttl ∧
      row.payloadHash = payloadFingerprint sha256 v.call.toolName v.call.input := by
  obtain ⟨read, -, hclear⟩ := h.passed v hv hpassed
  obtain ⟨r, hr, hfollows⟩ := hclear.kept
  have hsame : r.callId = row.callId :=
    hfollows.callId.trans (Option.some.inj (hclear.callId.symm.trans hcall))
  have hrow' : r = row := List.inj_on_of_nodup_map h.calls hr hrow hsame
  subst hrow'
  rw [hfollows.askedAt, hfollows.payloadHash]
  exact ⟨hclear.lets.fresh, hclear.lets.payloadHash⟩

/-- **No is final**: from any reachable state with a row that was cancelled, ignored, rejected,
    expired or found changed, and on in any run, every call with its call id that reads the ledger
    is refused at once; a call that comes later than its limit, or is another call than the card was
    shown for, is refused, and has never passed. -/
theorem refused_for_good {s t : State (Register δ Authority) (Pending δ Authority)}
    {labels : List (Label (Pending δ Authority) DbAnswer (LedgerEvent δ Authority))}
    (hs : (approvalSystem sha256).Reachable s)
    (hrun : (approvalSystem sha256).run s labels = some t) {row : AskRow δ Authority}
    (hrow : row ∈ s.shared.asks) (hauth : row.originalAuthority = none) (hid : row.callId ≠ [])
    {call : ApprovedCall} (hcall : call.callId = some row.callId) (now : Time) :
    (row.Final → ∃ row' e, row'.outcome = row.outcome ∧
      stepCall sha256 t.shared (.asking call) (.done now) =
        some (t.shared.ends ⟨call, some row', .refused e, false⟩, none)) ∧
    (call.ttl < call.now - row.askedAt ∨
        row.payloadHash ≠ payloadFingerprint sha256 call.toolName call.input →
      Stops sha256 t.shared call now ∧
        ∀ v ∈ t.shared.verdicts, v.call = call → v.result ≠ .passed) := by
  obtain ⟨⟨hgood, -⟩, hlater⟩ := good_of_run (good_of_reachable hs) hrun
  -- The row is in the table still, later perhaps, and it is the one that the call reads.
  obtain ⟨row', hrow', hfollows⟩ := hlater.asks row hrow
  have hauth' : row'.originalAuthority = none := hfollows.authority.trans hauth
  have hcall' : call.callId = some row'.callId := by rw [hcall, hfollows.callId]
  have hid' : row'.callId ≠ [] := by rw [hfollows.callId]; exact hid
  have hstep : stepCall sha256 t.shared (.asking call) (.done now) = _ :=
    stepCall_row hcall' hid' (askForCall_of_mem hgood.calls hrow')
  constructor
  · intro hfinal
    -- A final outcome stays, whatever has happened since.
    have houtcome := hfollows.final hauth hfinal
    have hfinal' : row'.Final := by
      rw [AskRow.Final, houtcome]
      exact hfinal
    obtain ⟨e, he⟩ : ∃ e, checkRow sha256 call row' = .refuse e := checkRow_final hauth' hfinal'
    rw [he] at hstep
    exact ⟨row', e, houtcome, hstep⟩
  · intro hbad
    -- A pass would have found the row fresh and of this payload.
    have hnever : ∀ v ∈ t.shared.verdicts, v.call = call → v.result ≠ .passed := by
      rintro v hv rfl hpassed
      obtain ⟨hfresh, hhash⟩ := hgood.passed_lets hrow' hv hcall' hpassed
      rw [hfollows.askedAt] at hfresh
      rw [hfollows.payloadHash] at hhash
      rcases hbad with hstale | hchanged
      · exact absurd hfresh (not_le.2 hstale)
      · exact hchanged hhash
    refine ⟨?_, hnever⟩
    cases hcheck : checkRow sha256 call row' with
    | refuse e =>
      rw [hcheck] at hstep
      exact .inl ⟨row', e, hstep⟩
    | settle o =>
      rw [hcheck] at hstep
      -- The call settles the row, and ends refused whatever the write answers.
      exact .inr ⟨row', o, hstep, fun u answer => stepCall_settling u call row' o answer⟩
    | pass =>
      have hlets := checkRow_pass hcheck
      rcases hbad with hstale | hchanged
      · have hfresh := hlets.fresh
        rw [hfollows.askedAt] at hfresh
        exact absurd hfresh (not_le.2 hstale)
      · exact absurd (hfollows.payloadHash.symm.trans hlets.payloadHash) hchanged

/-- The card is cancelled instead. -/
def cancelledLabels : List (Label (Pending ByteArray Unit) DbAnswer (LedgerEvent ByteArray Unit)) :=
  [.happen (.cardShown 0 sentCard), .happen (.answered 1 [114] .cancelled none)]

theorem cancelled_row : ∃ s, (approvalSystem id).run ⟨⟨[], [], []⟩, fun _ => none⟩
    cancelledLabels = some s ∧ ∃ row ∈ s.shared.asks, row.originalAuthority = none ∧
      row.callId = [99] ∧ row.outcome = some .cancelled := by
  simp [cancelledLabels, approvalSystem, Requests.system, Requests.next, approvedCalls, happens,
    recordAsk, conflicts, recordAnswer, AskRow.answers, sentCard]

/-- A call that comes a millisecond after its limit. -/
def lateCall : ApprovedCall := { sentCall with now := APPROVAL_TTL + 1 }

/-- It is checked, and the write that settles its row fails. -/
def lateLabels : List (Label (Pending ByteArray Unit) DbAnswer (LedgerEvent ByteArray Unit)) :=
  [.call 0 (.asking lateCall), .step 0 (.done 2), .step 0 .failed]

theorem late_row : ∃ s t, (approvalSystem id).run ⟨⟨[], [], []⟩, fun _ => none⟩
    [.happen (.cardShown 0 sentCard)] = some s ∧ (approvalSystem id).run s lateLabels = some t ∧
      ∃ row ∈ s.shared.asks, row.originalAuthority = none ∧ row.callId = [99] ∧
        row.askedAt = 0 ∧ row.outcome = none ∧ t.shared.asks = s.shared.asks ∧
          t.shared.verdicts = [⟨lateCall, some row, .refused .stale, false⟩] := by
  simp [lateLabels, approvalSystem, Requests.system, Requests.next, approvedCalls, happens,
    recordAsk, conflicts, stepCall, askForCall, checkRow, sentCard, lateCall,
    sentCall, DbAnswer.at?, Register.ends, Settled.refusal]

theorem refused_for_good_cancelled :
    (∃ (s : Register ByteArray Unit) (row : AskRow ByteArray Unit) (e : Refusal),
      row.outcome = some .cancelled ∧ stepCall id s (.asking sentCall) (.done 2) =
        some (s.ends ⟨sentCall, some row, .refused e, false⟩, none)) ∧
    ∃ (t : Register ByteArray Unit) (v : Verdict ByteArray Unit), v ∈ t.verdicts ∧
      v.call = lateCall ∧ v.result ≠ .passed ∧ (∃ row ∈ t.asks, row.outcome = none) ∧
        Stops id t lateCall 3 := by
  constructor
  · obtain ⟨s, hrun, row, hrow, hauth, hcallId, houtcome⟩ := cancelled_row
    have hid : row.callId ≠ [] := by rw [hcallId]; nofun
    have hcall : sentCall.callId = some row.callId := by rw [hcallId]; rfl
    have hfinal : row.Final := by rw [AskRow.Final, houtcome]; exact ⟨nofun, nofun⟩
    have hstay : (approvalSystem id).run s [] = some s := rfl
    obtain ⟨row', e, hsame, hstep⟩ :=
      (refused_for_good (sent_reachable hrun) hstay hrow hauth hid hcall 2).1 hfinal
    exact ⟨s.shared, row', e, hsame.trans houtcome, hstep⟩
  · obtain ⟨s, t, hs, ht, row, hrow, hauth, hcallId, hasked, houtcome, hasks, hverdicts⟩ := late_row
    have hid : row.callId ≠ [] := by rw [hcallId]; nofun
    have hcall : lateCall.callId = some row.callId := by rw [hcallId]; rfl
    have hlate : lateCall.ttl < lateCall.now - row.askedAt := by
      rw [hasked]
      decide
    obtain ⟨hstops, hnever⟩ :=
      (refused_for_good (sent_reachable hs) ht hrow hauth hid hcall 3).2 (.inl hlate)
    have hv : (⟨lateCall, some row, .refused .stale, false⟩ : Verdict ByteArray Unit) ∈
        t.shared.verdicts := by
      rw [hverdicts]
      exact List.mem_singleton_self _
    have hunsettled : ∃ row ∈ t.shared.asks, row.outcome = none := by
      rw [hasks]
      exact ⟨row, hrow, houtcome⟩
    exact ⟨t.shared, _, hv, rfl, hnever _ hv rfl, hunsettled, hstops⟩

/-- **Uses**: in every reachable state the count of a row is the number of passes on it whose count
    was written, so it is at most the number of passes of its call. -/
theorem useCount_eq {s : State (Register δ Authority) (Pending δ Authority)}
    (h : (approvalSystem sha256).Reachable s) {row : AskRow δ Authority}
    (hrow : row ∈ s.shared.asks) (hauth : row.originalAuthority = none) :
    row.useCount = usesOf row.requestId s.shared.verdicts ∧
      row.useCount ≤ s.shared.verdicts.countP fun v =>
        decide (v.result = .passed) && decide (v.call.callId = some row.callId) := by
  obtain ⟨hgood, -⟩ := good_of_reachable h
  have huses := hgood.uses row hrow hauth
  refine ⟨huses, ?_⟩
  rw [huses, usesOf]
  apply List.countP_mono_left
  intro v hv hcounted
  rw [Bool.and_eq_true] at hcounted
  have hpassed := hgood.counted v hv hcounted.1
  obtain ⟨read, hread, hclear⟩ := hgood.passed v hv hpassed
  have hsame := hcounted.2
  rw [hread, Option.any_some, decide_eq_true_eq] at hsame
  -- The row that the call read has become the one with its request id.
  obtain ⟨r, hr, hfollows⟩ := hclear.kept
  obtain ⟨id, hid⟩ := Option.ne_none_iff_exists'.1 hclear.requestId
  have hr' : r = row := hgood.ids r hr row hrow id (hfollows.requestId id hid) (hsame.symm.trans hid)
  rw [Bool.and_eq_true, decide_eq_true_eq, decide_eq_true_eq, hclear.callId, ← hr', hfollows.callId]
  exact ⟨hpassed, rfl⟩

theorem sent_counted : ∃ s, (approvalSystem id).run ⟨⟨[], [], []⟩, fun _ => none⟩ sentLabels =
    some s ∧ ∃ row ∈ s.shared.asks, row.originalAuthority = none ∧ row.useCount = 1 := by
  simp [sentLabels, approvalSystem, Requests.system, Requests.next, approvedCalls, happens,
    recordAsk, conflicts, recordAnswer, AskRow.answers, stepCall, askForCall, checkRow, sentCard,
    sentCall, APPROVAL_TTL, DbAnswer.at?, Register.ends, markUsed]

theorem useCount_eq_sent : ∃ (s : Register ByteArray Unit) (row : AskRow ByteArray Unit),
    row ∈ s.asks ∧ row.useCount = 1 ∧ usesOf row.requestId s.verdicts = 1 := by
  obtain ⟨s, hrun, row, hrow, hauth, hcount⟩ := sent_counted
  have huses := (useCount_eq (sent_reachable hrun) hrow hauth).1
  exact ⟨s.shared, row, hrow, hcount, huses.symm.trans hcount⟩

end Lares.ApprovedCalls
