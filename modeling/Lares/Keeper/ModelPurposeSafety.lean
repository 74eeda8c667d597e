import Lares.Framework.TokenRequests
import Lares.Keeper.ModelPurposeBroker
import Mathlib

/-! # What a model-purpose claim is good for

    * **Tokens**: a challenge yields one receipt, a receipt one turn, a step of
      a turn one claim, and a claim one right to a physical request.
    * **Claims**: behind each claim there is a step of an open turn, its receipt,
      and a request that the console has signed over a live challenge.
    * **Room**: no map grows beyond its bound.

    What one step keeps is kept by any interleaving (`KeepsOwned.run`): a token
    that a request has taken is its own.
-/

namespace Lares.Keeper.ModelPurpose

/-! ## Section 1: What is promised -/

/-- The console's request, over a challenge that is alive at the time. -/
def LiveCapsule (p : Primitives) (log : List Event) (capsule : Text) (payload : Payload)
    (time : Time) : Prop :=
  sealed p capsule payload = true ∧ ∃ c, .challenged c ∈ log ∧ c.challenge = payload.challenge ∧
    c.request = payload.request ∧ time < c.expiresAt ∧ .challenge c.challenge ∉ tokens.taken log

/-- The claim is in time, and its turn is open. -/
def Stands (log : List Event) (c : Claim) (time : Time) : Prop :=
  .closed c.turn.capability ∉ log ∧ time < c.expiresAt ∧ time < c.turn.expiresAt

/-- The messages that were accepted, with the times up to which they are remembered. -/
def Event.acceptance : Event → Option (Text × Time)
  | .accepted requestId _ expiresAt => some (requestId, expiresAt)
  | _ => none

def acceptances (log : List Event) : List (Text × Time) := log.filterMap Event.acceptance

/-- Behind the claim there is a request of the console, and perhaps a deadline. -/
structure Asked (p : Primitives) (log : List Event) (c : Claim) : Prop where
  /-- It was given out, and not beyond the deadline. -/
  deadline : ∃ authorityDeadline, .claimed c authorityDeadline ∈ log ∧
    ∀ deadline, authorityDeadline = some deadline → c.expiresAt ≤ deadline
  /-- Its authority is bound to the request. -/
  binds : c.turn.reference.binds c.turn.request = true
  /-- It is of the same definition. -/
  definitionHash : c.turn.definitionHash = c.turn.request.definitionHash
  /-- The console has asked for it, in a capsule that was live. -/
  console : ∃ pre capsule payload time, pre ++ [.admitted capsule payload time] <+: log ∧
    payload.request = c.turn.request ∧ LiveCapsule p pre capsule payload time

/-- No map is beyond its bound. -/
structure Bounded (b : Broker) : Prop where
  challenges : b.challenges.rows.length ≤ MAX_LIVE
  pending : b.pending.rows.length ≤ MAX_LIVE
  turns : b.turns.rows.length ≤ MAX_LIVE
  claims : b.claims.rows.length ≤ MAX_LIVE
  requests : b.requests.rows.length ≤ MAX_LIVE
  steps : ∀ row ∈ b.turns, row.steps.length ≤ MAX_STEPS

/-- A message is accepted once; a token is taken once, and yields one thing; a claim is consumed and
    is found to be good only while it stands, and somebody has asked for it. -/
structure Safe (p : Primitives) (b : Broker) : Prop where
  /-- No message is accepted twice. -/
  accepted : ((acceptances b.log).map Prod.fst).Nodup
  /-- No token is given out twice. -/
  taken : (tokens.taken b.log).Nodup
  /-- No token is used twice. -/
  used : (tokens.used b.log).Nodup
  /-- A claim is consumed while it stands. -/
  consumed : ∀ pre c time post, b.log = pre ++ .consumed c time :: post → Stands pre c time
  /-- It is found good after it was consumed, and for one who asked. -/
  resolved : ∀ pre c time post, b.log = pre ++ .resolved c time :: post →
    (∃ time', .consumed c time' ∈ pre) ∧ Stands pre c time ∧ Asked p pre c
  /-- So is the right to a physical request. -/
  prepared : ∀ pre c time post, b.log = pre ++ .prepared c time :: post →
    (∃ time', .consumed c time' ∈ pre) ∧ Stands pre c time ∧ Asked p pre c
  /-- The maps stay within their bounds. -/
  bounded : Bounded b

/-- A signed and fresh message comes to the replay check before what is remembered of its identity
    is over. -/
def InTime (p : Primitives) (b : Broker) : Request → Answer → Prop
  | .identified m, .keyFile key _ ms =>
      signed p key m && fresh m (b.now + ms.stamp) → ∀ x ∈ acceptances b.log, x.1 = m.requestId →
        b.now + (ms.stamp + ms.expiry + ms.prune) < x.2
  | _, _ => True

instance (p : Primitives) (b : Broker) : ∀ req answer, Decidable (InTime p b req answer) := by
  intro req answer
  unfold InTime
  split <;> infer_instance

/-- What has no answer is dropped. -/
def MessagesInTime (p : Primitives) (b : Broker) (req : Request) (answer : Option Answer) : Prop :=
  ∀ a ∈ answer, InTime p b req a

instance (p : Primitives) (b : Broker) (req : Request) (answer : Option Answer) :
    Decidable (MessagesInTime p b req answer) :=
  inferInstanceAs (Decidable (∀ a ∈ answer, InTime p b req a))

/-! ## Section 2: The invariant -/

/-- Why an event could happen. -/
def Reason (p : Primitives) (log : List Event) : Event → Prop
  | .admitted capsule payload time => LiveCapsule p log capsule payload time
  | .received x challenge =>
      ∃ capsule payload time, .admitted capsule payload time ∈ log ∧
        payload.challenge = challenge ∧ payload.request = x.request
  | .opened t receipt =>
      ∃ x challenge, .received x challenge ∈ log ∧ x.receipt = receipt ∧ x.request = t.request ∧
        t.reference.binds t.request = true ∧ t.definitionHash = t.request.definitionHash
  | .reserved t event =>
      (∃ receipt, .opened t receipt ∈ log) ∧ t.turnId = event.turnId ∧ t.sequence = event.sequence
  | .claimed c authorityDeadline =>
      .reserved c.turn c.event ∈ log ∧ c.expiresAt ≤ c.turn.expiresAt ∧
        ∀ deadline, authorityDeadline = some deadline → c.expiresAt ≤ deadline
  | .consumed c time => (∃ authorityDeadline, .claimed c authorityDeadline ∈ log) ∧ Stands log c time
  | .resolved c time => (∃ time', .consumed c time' ∈ log) ∧ Stands log c time
  | .prepared c time => (∃ time', .consumed c time' ∈ log) ∧ Stands log c time
  | .accepted _ _ _ => True
  | .challenged _ => True
  | .spent _ => True
  | .receiptConsumed _ => True
  | .closed _ => True

/-- What is in the maps. A step is spent as it is given. -/
def Broker.Live (b : Broker) : Token → Prop
  | .challenge challenge => ∃ c ∈ b.challenges, c.challenge = challenge
  | .receipt receipt => ∃ x ∈ b.pending, x.receipt = receipt
  | .turn cap => ∃ row ∈ b.turns, row.capability = cap
  | .step _ _ => False
  | .claim token => ∃ c ∈ b.claims, c.token = token

structure BrokerInv (p : Primitives) (b : Broker) : Prop where
  /-- Every token is taken once, and is live or was taken. -/
  once : tokens.Once b.log b.Live
  /-- Every event has its reason before it. -/
  reasoned : Reasoned (Reason p) b.log
  /-- No message is accepted twice. -/
  accepted : ((acceptances b.log).map Prod.fst).Nodup
  /-- What was accepted is remembered up to its time. -/
  remembered : ∀ x ∈ acceptances b.log, b.now < x.2 → ⟨x.1, x.2⟩ ∈ b.requests
  /-- A challenge in the map was given out. -/
  challenges : ∀ c ∈ b.challenges, .challenged c ∈ b.log
  /-- So was a receipt. -/
  pending : ∀ x ∈ b.pending, ∃ challenge, .received x challenge ∈ b.log
  /-- A turn in the map was opened. -/
  turns : ∀ row ∈ b.turns, ∃ receipt, .opened row.turn receipt ∈ b.log
  /-- A claim in the map was given out. -/
  claims : ∀ c ∈ b.claims, ∃ authorityDeadline, .claimed c authorityDeadline ∈ b.log
  /-- A closed turn has its flag set. -/
  closed : ∀ cap, .closed cap ∈ b.log → cap ∈ b.closedTurns
  /-- A reserved step stays with its turn. -/
  steps : ∀ row ∈ b.turns, ∀ t event, .reserved t event ∈ b.log → t.capability = row.capability →
    event ∈ row.steps
  /-- The maps stay within their bounds. -/
  bounded : Bounded b

/-- The token that a request has taken and not yet used. -/
def own : Request → Option Token
  | .admitting payload => some (.challenge payload.challenge)
  | .opening _ args => some (.receipt args.pendingReceipt)
  | .claiming t event => some (.step t.capability event)
  | .preparing c => some (.claim c.token)
  | .console _ => none
  | .challenging _ => none
  | .runtime _ => none
  | .identified _ => none

/-- How the token came to the request. -/
def Story (log : List Event) : Request → Prop
  | .admitting payload => ∃ capsule time, .admitted capsule payload time ∈ log
  | .opening x args => ∃ challenge, .received x challenge ∈ log ∧ x.receipt = args.pendingReceipt
  | .claiming t event => .reserved t event ∈ log
  | .preparing c => ∃ time, .consumed c time ∈ log
  | .console _ => True
  | .challenging _ => True
  | .runtime _ => True
  | .identified _ => True

theorem Story.mono (log log' : List Event) (req : Request) (hsub : log ⊆ log')
    (h : Story log req) : Story log' req := by
  cases req with
  | admitting payload =>
    obtain ⟨capsule, time, hmem⟩ := h
    exact ⟨capsule, time, hsub hmem⟩
  | opening x args =>
    obtain ⟨challenge, hmem, hreceipt⟩ := h
    exact ⟨challenge, hsub hmem, hreceipt⟩
  | claiming t event => exact hsub h
  | preparing c =>
    obtain ⟨time, hmem⟩ := h
    exact ⟨time, hsub hmem⟩
  | _ => trivial

/-- A step of the owner of `o` that keeps the invariant. -/
abbrev Good (p : Primitives) (b : Broker) (o : Option Token) (out : Broker × Option Request) :
    Prop :=
  tokens.Leaves Broker.log own Story (BrokerInv p) b o out

abbrev Knows (b : Broker) (req : Request) : Prop := tokens.Knows Broker.log own Story b req

/-! ## Section 3: Time -/

/-- Time has passed, and some rows may be gone. -/
structure Aged (b b' : Broker) : Prop where
  /-- The clock does not go back. -/
  now : b.now ≤ b'.now
  /-- Nothing is recorded. -/
  log : b'.log = b.log
  /-- No flag is set. -/
  closedTurns : b'.closedTurns = b.closedTurns
  challenges : b'.challenges.rows.Sublist b.challenges.rows
  pending : b'.pending.rows.Sublist b.pending.rows
  turns : b'.turns.rows.Sublist b.turns.rows
  claims : b'.claims.rows.Sublist b.claims.rows
  requests : b'.requests.rows.Sublist b.requests.rows
  /-- A remembered message stays up to its time. -/
  remembered : ∀ r ∈ b.requests, b'.now < r.expiresAt → r ∈ b'.requests

theorem Aged.refl (b : Broker) : Aged b b :=
  ⟨le_rfl, rfl, rfl, .refl _, .refl _, .refl _, .refl _, .refl _, fun _ h _ => h⟩

theorem Aged.trans {b b' b'' : Broker} (h : Aged b b') (h' : Aged b' b'') : Aged b b'' where
  now := h.now.trans h'.now
  log := h'.log.trans h.log
  closedTurns := h'.closedTurns.trans h.closedTurns
  challenges := h'.challenges.trans h.challenges
  pending := h'.pending.trans h.pending
  turns := h'.turns.trans h.turns
  claims := h'.claims.trans h.claims
  requests := h'.requests.trans h.requests
  remembered r hr hlt :=
    h'.remembered r (h.remembered r hr (lt_of_le_of_lt h'.now hlt)) hlt

theorem aged_pass (b : Broker) (ms : Time) : Aged b (b.pass ms) :=
  ⟨Nat.le_add_right _ _, rfl, rfl, .refl _, .refl _, .refl _, .refl _, .refl _, fun _ h _ => h⟩

theorem aged_prune (b : Broker) (ms : Time) : Aged b (b.prune ms) where
  now := Nat.le_add_right _ _
  log := rfl
  closedTurns := rfl
  challenges := List.filter_sublist
  pending := List.filter_sublist
  turns := List.filter_sublist
  claims := List.filter_sublist
  requests := List.filter_sublist
  remembered _ hr hlt := Table.mem_keep.2 ⟨hr, decide_eq_true hlt⟩

theorem Aged.mem_turns {b b' : Broker} (h : Aged b b') {row : LiveTurn} (hrow : row ∈ b'.turns) :
    row ∈ b.turns :=
  h.turns.subset hrow

section Invariant

variable {p : Primitives} {b b' : Broker}

theorem Aged.live (h : Aged b b') : ∀ token, b'.Live token → b.Live token := by
  intro token hlive
  cases token with
  | challenge challenge =>
    obtain ⟨c, hc, heq⟩ := hlive
    exact ⟨c, h.challenges.subset hc, heq⟩
  | receipt receipt =>
    obtain ⟨x, hx, heq⟩ := hlive
    exact ⟨x, h.pending.subset hx, heq⟩
  | turn cap =>
    obtain ⟨row, hrow, heq⟩ := hlive
    exact ⟨row, h.mem_turns hrow, heq⟩
  | step cap event => exact hlive
  | claim token =>
    obtain ⟨c, hc, heq⟩ := hlive
    exact ⟨c, h.claims.subset hc, heq⟩

theorem Bounded.aged (hb : Bounded b) (h : Aged b b') : Bounded b' where
  challenges := h.challenges.length_le.trans hb.challenges
  pending := h.pending.length_le.trans hb.pending
  turns := h.turns.length_le.trans hb.turns
  claims := h.claims.length_le.trans hb.claims
  requests := h.requests.length_le.trans hb.requests
  steps row hrow := hb.steps row (h.mem_turns hrow)

theorem BrokerInv.aged (hb : BrokerInv p b) (h : Aged b b') : BrokerInv p b' where
  once := by
    rw [h.log]
    exact hb.once.mono h.live
  reasoned := by
    rw [h.log]
    exact hb.reasoned
  accepted := by
    rw [h.log]
    exact hb.accepted
  remembered x hmem hlt := by
    rw [h.log] at hmem
    exact h.remembered _ (hb.remembered x hmem (lt_of_le_of_lt h.now hlt)) hlt
  challenges c hc := by
    rw [h.log]
    exact hb.challenges c (h.challenges.subset hc)
  pending x hx := by
    rw [h.log]
    exact hb.pending x (h.pending.subset hx)
  turns row hrow := by
    rw [h.log]
    exact hb.turns row (h.mem_turns hrow)
  claims c hc := by
    rw [h.log]
    exact hb.claims c (h.claims.subset hc)
  closed cap hmem := by
    rw [h.log] at hmem
    rw [h.closedTurns]
    exact hb.closed cap hmem
  steps row hrow t event hmem hcap := by
    rw [h.log] at hmem
    exact hb.steps row (h.mem_turns hrow) t event hmem hcap
  bounded := hb.bounded.aged h

theorem Aged.isNew (h : Aged b b') {token : Token} (hnew : b.isNew token = true) :
    b'.isNew token = true := by
  rw [Broker.isNew, h.log]
  exact hnew


/-! ## Section 4: One event -/

theorem mem_addStep {turns : Table LiveTurn.capability} {cap : Text} {event : StepEvent}
    {row : LiveTurn} (h : row ∈ Broker.addStep turns cap event) :
    row ∈ turns ∧ row.capability ≠ cap ∨
      ∃ old, turns.find? cap = some old ∧ row = { old with steps := event :: old.steps } := by
  unfold Broker.addStep at h
  cases hfind : turns.find? cap with
  | none =>
    rw [hfind] at h
    exact .inl ⟨h, Table.find?_eq_none.1 hfind row h⟩
  | some old =>
    rw [hfind] at h
    have hkey := Table.find?_key hfind
    rcases Table.mem_put.1 h with ⟨hmem, hne⟩ | ⟨heq, -⟩
    · exact .inl ⟨hmem, fun hcap => hne (hcap.trans hkey.symm)⟩
    · exact .inr ⟨old, rfl, heq⟩

section Record

variable {e : Event}

/-! Each row was there before, or is what the event is about. -/

theorem mem_challenges_record {c : Challenge} (h : c ∈ (b.record e).challenges) :
    c ∈ b.challenges ∨ e = .challenged c := by
  cases e with
  | challenged c' =>
    rcases Table.mem_set.1 h with rfl | ⟨hold, -⟩
    · exact .inr rfl
    · exact .inl hold
  | spent challenge => exact .inl (Table.mem_erase.1 h).1
  | admitted capsule payload time => exact .inl (Table.mem_erase.1 h).1
  | _ => exact .inl h

theorem mem_pending_record {x : Pending} (h : x ∈ (b.record e).pending) :
    x ∈ b.pending ∨ ∃ challenge, e = .received x challenge := by
  cases e with
  | received x' challenge =>
    rcases Table.mem_set.1 h with rfl | ⟨hold, -⟩
    · exact .inr ⟨challenge, rfl⟩
    · exact .inl hold
  | receiptConsumed receipt => exact .inl (Table.mem_erase.1 h).1
  | _ => exact .inl h

theorem mem_turns_record {row : LiveTurn} (h : row ∈ (b.record e).turns) :
    (∃ old ∈ b.turns, old.turn = row.turn ∧ old.steps ⊆ row.steps) ∨
      ∃ receipt, e = .opened row.turn receipt := by
  have hkept : row ∈ b.turns → ∃ old ∈ b.turns, old.turn = row.turn ∧ old.steps ⊆ row.steps :=
    fun hold => ⟨row, hold, rfl, List.Subset.refl _⟩
  cases e with
  | opened t receipt =>
    rcases Table.mem_set.1 h with rfl | ⟨hold, -⟩
    · exact .inr ⟨receipt, rfl⟩
    · exact .inl (hkept hold)
  | reserved t event =>
    rcases mem_addStep h with ⟨hold, -⟩ | ⟨old, hfind, rfl⟩
    · exact .inl (hkept hold)
    · exact .inl ⟨old, Table.find?_mem hfind, rfl, List.subset_cons_self _ _⟩
  | closed cap => exact .inl (hkept (Table.mem_erase.1 h).1)
  | _ => exact .inl (hkept h)

theorem mem_claims_record {c : Claim} (h : c ∈ (b.record e).claims) :
    c ∈ b.claims ∨ ∃ authorityDeadline, e = .claimed c authorityDeadline := by
  cases e with
  | claimed c' authorityDeadline =>
    rcases Table.mem_set.1 h with rfl | ⟨hold, -⟩
    · exact .inr ⟨authorityDeadline, rfl⟩
    · exact .inl hold
  | consumed c' time => exact .inl (Table.mem_erase.1 h).1
  | closed cap => exact .inl (Table.mem_keep.1 h).1
  | _ => exact .inl h

theorem live_record {token : Token} (h : (b.record e).Live token) :
    b.Live token ∨ e.gives = some token := by
  cases token with
  | challenge challenge =>
    obtain ⟨c, hc, rfl⟩ := h
    rcases mem_challenges_record hc with hold | rfl
    · exact .inl ⟨c, hold, rfl⟩
    · exact .inr rfl
  | receipt receipt =>
    obtain ⟨x, hx, rfl⟩ := h
    rcases mem_pending_record hx with hold | ⟨challenge, rfl⟩
    · exact .inl ⟨x, hold, rfl⟩
    · exact .inr rfl
  | turn cap =>
    obtain ⟨row, hrow, rfl⟩ := h
    rcases mem_turns_record hrow with ⟨old, hold, hturn, -⟩ | ⟨receipt, rfl⟩
    · exact .inl ⟨old, hold, congrArg Turn.capability hturn⟩
    · exact .inr rfl
  | step cap event => exact h.elim
  | claim token =>
    obtain ⟨c, hc, rfl⟩ := h
    rcases mem_claims_record hc with hold | ⟨authorityDeadline, rfl⟩
    · exact .inl ⟨c, hold, rfl⟩
    · exact .inr rfl

/-- What is taken is out of its map. -/
theorem not_live_record {token : Token} (h : e.takes = some token) : ¬(b.record e).Live token := by
  cases e with
  | spent challenge =>
    cases h
    rintro ⟨c, hc, heq⟩
    exact (Table.mem_erase.1 hc).2 heq
  | admitted capsule payload time =>
    cases h
    rintro ⟨c, hc, heq⟩
    exact (Table.mem_erase.1 hc).2 heq
  | receiptConsumed receipt =>
    cases h
    rintro ⟨x, hx, heq⟩
    exact (Table.mem_erase.1 hx).2 heq
  | reserved t event =>
    cases h
    exact id
  | consumed c time =>
    cases h
    rintro ⟨c', hc, heq⟩
    exact (Table.mem_erase.1 hc).2 heq
  | closed cap =>
    cases h
    rintro ⟨row, hrow, heq⟩
    exact (Table.mem_erase.1 hrow).2 heq
  | _ => cases h

theorem closedTurns_record {cap : Text} (h : cap ∈ b.closedTurns) :
    cap ∈ (b.record e).closedTurns := by
  cases e with
  | closed cap' => exact List.mem_cons_of_mem _ h
  | _ => exact h

/-! ### Room -/

/-- There is room for what the event adds. -/
def Room (b : Broker) : Event → Prop
  | .accepted _ _ _ => full b.requests = false
  | .challenged _ => full b.challenges = false
  | .received _ _ => full b.pending = false
  | .opened _ _ => full b.turns = false
  | .reserved t _ => ∀ row, b.turns.find? t.capability = some row → row.steps.length < MAX_STEPS
  | .claimed _ _ => full b.claims = false
  | .spent _ => True
  | .admitted _ _ _ => True
  | .receiptConsumed _ => True
  | .consumed _ _ => True
  | .resolved _ _ => True
  | .prepared _ _ => True
  | .closed _ => True

theorem length_set {ρ : Type} {key : ρ → Text} {map : Table key} (h : full map = false) (r : ρ) :
    (map.set r).rows.length ≤ MAX_LIVE := by
  have hlt : map.rows.length < MAX_LIVE := by simpa [full] using h
  rw [(Table.rows_set_perm map r).length_eq, List.length_cons]
  have herase : (map.erase (key r)).rows.length ≤ map.rows.length := List.length_filter_le _ _
  omega

theorem length_addStep (turns : Table LiveTurn.capability) (cap : Text) (event : StepEvent) :
    (Broker.addStep turns cap event).rows.length = turns.rows.length := by
  unfold Broker.addStep
  cases turns.find? cap with
  | none => rfl
  | some old => exact List.length_map _

theorem Bounded.record (hb : Bounded b) (hroom : Room b e) : Bounded (b.record e) := by
  -- only a step that is reserved makes the steps of a turn more
  have hsteps : ∀ row ∈ (b.record e).turns, row.steps.length ≤ MAX_STEPS := by
    intro row hrow
    cases e with
    | opened t receipt =>
      rcases Table.mem_set.1 hrow with rfl | ⟨hold, -⟩
      · exact Nat.zero_le _
      · exact hb.steps row hold
    | reserved t event =>
      rcases mem_addStep hrow with ⟨hold, -⟩ | ⟨old, hfind, rfl⟩
      · exact hb.steps row hold
      · exact hroom old hfind
    | closed cap => exact hb.steps row (Table.mem_erase.1 hrow).1
    | _ => exact hb.steps row hrow
  obtain ⟨hchallenges, hpending, hturns, hclaims, hrequests, -⟩ := hb
  cases e with
  | accepted requestId time expiresAt =>
    exact ⟨hchallenges, hpending, hturns, hclaims, length_set hroom _, hsteps⟩
  | challenged c => exact ⟨length_set hroom _, hpending, hturns, hclaims, hrequests, hsteps⟩
  | spent challenge =>
    exact ⟨(List.length_filter_le _ _).trans hchallenges, hpending, hturns, hclaims, hrequests,
      hsteps⟩
  | admitted capsule payload time =>
    exact ⟨(List.length_filter_le _ _).trans hchallenges, hpending, hturns, hclaims, hrequests,
      hsteps⟩
  | received x challenge =>
    exact ⟨hchallenges, length_set hroom _, hturns, hclaims, hrequests, hsteps⟩
  | receiptConsumed receipt =>
    exact ⟨hchallenges, (List.length_filter_le _ _).trans hpending, hturns, hclaims, hrequests,
      hsteps⟩
  | opened t receipt =>
    exact ⟨hchallenges, hpending, length_set hroom _, hclaims, hrequests, hsteps⟩
  | reserved t event =>
    exact ⟨hchallenges, hpending, (length_addStep _ _ _).trans_le hturns, hclaims, hrequests,
      hsteps⟩
  | claimed c authorityDeadline =>
    exact ⟨hchallenges, hpending, hturns, length_set hroom _, hrequests, hsteps⟩
  | consumed c time =>
    exact ⟨hchallenges, hpending, hturns, (List.length_filter_le _ _).trans hclaims, hrequests,
      hsteps⟩
  | resolved c time => exact ⟨hchallenges, hpending, hturns, hclaims, hrequests, hsteps⟩
  | prepared c time => exact ⟨hchallenges, hpending, hturns, hclaims, hrequests, hsteps⟩
  | closed cap =>
    exact ⟨hchallenges, hpending, (List.length_filter_le _ _).trans hturns,
      (List.length_filter_le _ _).trans hclaims, hrequests, hsteps⟩

/-! ### The invariant -/

theorem BrokerInv.steps_record (hb : BrokerInv p b)
    (hgive : ∀ token, e.gives = some token → b.isNew token = true) :
    ∀ row ∈ (b.record e).turns, ∀ t event, .reserved t event ∈ (b.record e).log →
      t.capability = row.capability → event ∈ row.steps := by
  intro row hrow t event hmem hcap
  rcases List.mem_append.1 hmem with hold | hnew
  · rcases mem_turns_record hrow with ⟨old, hmemold, hturn, hsteps⟩ | ⟨receipt, rfl⟩
    · have hsame : t.capability = old.capability :=
        hcap.trans (congrArg Turn.capability hturn).symm
      exact hsteps (hb.steps old hmemold t event hold hsame)
    · -- a turn that opens has not had a step
      obtain ⟨pre, hpre, ⟨receipt', hopened⟩, -⟩ := hb.reasoned.mem hold
      have hgiven : .turn t.capability ∈ tokens.given b.log :=
        List.mem_filterMap.2
          ⟨_, ((List.prefix_append _ _).trans hpre).subset hopened, rfl⟩
      rw [hcap] at hgiven
      have hisNew := hgive _ rfl
      exact absurd hgiven (of_decide_eq_true hisNew)
  · cases List.mem_singleton.1 hnew
    rcases mem_addStep hrow with ⟨-, hne⟩ | ⟨old, -, rfl⟩
    · exact absurd hcap.symm hne
    · exact List.mem_cons_self

/-- The token is taken, and not yet used. -/
def Usable (b : Broker) (token : Token) : Prop :=
  token ∈ tokens.taken b.log ∧ token ∉ tokens.used b.log

/-- What the maps know of the log, after one more event. -/
theorem BrokerInv.record (hb : BrokerInv p b) (hreason : Reason p b.log e)
    (hgive : ∀ token, e.gives = some token → b.isNew token = true)
    (htake : ∀ token, e.takes = some token → b.Live token ∨ e.gives = some token)
    (huse : ∀ token, e.uses = some token → Usable b token)
    (hroom : Room b e) (haccepted : ((acceptances (b.record e).log).map Prod.fst).Nodup)
    (hremembered : ∀ x ∈ acceptances (b.record e).log, b.now < x.2 →
      ⟨x.1, x.2⟩ ∈ (b.record e).requests) : BrokerInv p (b.record e) where
  once := by
    apply hb.once.concat
    · exact fun token hgives => of_decide_eq_true (hgive token hgives)
    · exact htake
    · exact huse
    · exact fun token hlive => ⟨live_record hlive, fun htakes => not_live_record htakes hlive⟩
  reasoned := hb.reasoned.concat hreason
  accepted := haccepted
  remembered x hx hlt := by
    apply hremembered x hx
    cases e <;> exact hlt
  challenges c hc := by
    rcases mem_challenges_record hc with hold | rfl
    · exact List.mem_append_left _ (hb.challenges c hold)
    · exact List.mem_append_right _ (List.mem_singleton.2 rfl)
  pending x hx := by
    rcases mem_pending_record hx with hold | ⟨challenge, rfl⟩
    · obtain ⟨challenge, hmem⟩ := hb.pending x hold
      exact ⟨challenge, List.mem_append_left _ hmem⟩
    · exact ⟨challenge, List.mem_append_right _ (List.mem_singleton.2 rfl)⟩
  turns row hrow := by
    rcases mem_turns_record hrow with ⟨old, hold, hturn, -⟩ | ⟨receipt, hevent⟩
    · obtain ⟨receipt, hmem⟩ := hb.turns old hold
      rw [hturn] at hmem
      exact ⟨receipt, List.mem_append_left _ hmem⟩
    · exact ⟨receipt, List.mem_append_right _ (List.mem_singleton.2 hevent.symm)⟩
  claims c hc := by
    rcases mem_claims_record hc with hold | ⟨authorityDeadline, rfl⟩
    · obtain ⟨authorityDeadline, hmem⟩ := hb.claims c hold
      exact ⟨authorityDeadline, List.mem_append_left _ hmem⟩
    · exact ⟨authorityDeadline, List.mem_append_right _ (List.mem_singleton.2 rfl)⟩
  closed cap hmem := by
    rcases List.mem_append.1 hmem with hold | hnew
    · exact closedTurns_record (hb.closed cap hold)
    · rw [← List.mem_singleton.1 hnew]
      exact List.mem_cons_self
  steps := hb.steps_record hgive
  bounded := hb.bounded.record hroom

/-- What an event asks of the state it happens in: what it gives is new and has room, what it takes
    is live, and what it uses is usable. -/
def Fits (b : Broker) : Event → Prop
  | .accepted _ _ _ => False
  | .challenged c => b.isNew (.challenge c.challenge) = true ∧ full b.challenges = false
  | .spent challenge => b.Live (.challenge challenge)
  | .admitted _ payload _ => b.Live (.challenge payload.challenge)
  | .received x challenge =>
      b.isNew (.receipt x.receipt) = true ∧ full b.pending = false ∧ Usable b (.challenge challenge)
  | .receiptConsumed receipt => b.Live (.receipt receipt)
  | .opened t receipt =>
      b.isNew (.turn t.capability) = true ∧ full b.turns = false ∧ Usable b (.receipt receipt)
  | .reserved t event =>
      b.isNew (.step t.capability event) = true ∧
        ∀ row, b.turns.find? t.capability = some row → row.steps.length < MAX_STEPS
  | .claimed c _ =>
      b.isNew (.claim c.token) = true ∧ full b.claims = false ∧
        Usable b (.step c.turn.capability c.event)
  | .consumed c _ => b.Live (.claim c.token)
  | .resolved _ _ => True
  | .prepared c _ => Usable b (.claim c.token)
  | .closed cap => b.Live (.turn cap)

theorem Fits.gives (h : Fits b e) : ∀ token, e.gives = some token → b.isNew token = true := by
  intro token hgives
  cases e <;> cases hgives <;> exact h.1

/-- A step is taken as it is given. -/
theorem Fits.takes (h : Fits b e) :
    ∀ token, e.takes = some token → b.Live token ∨ e.gives = some token := by
  intro token htakes
  cases e with
  | reserved t event => exact .inr htakes
  | _ => cases htakes <;> exact .inl h

theorem Fits.uses (h : Fits b e) : ∀ token, e.uses = some token → Usable b token := by
  intro token huses
  cases e with
  | prepared c time =>
    cases huses
    exact h
  | _ => cases huses <;> exact h.2.2

theorem Fits.room (h : Fits b e) : Room b e := by
  cases e with
  | accepted requestId time expiresAt => exact h.elim
  | challenged c => exact h.2
  | received x challenge => exact h.2.1
  | opened t receipt => exact h.2.1
  | reserved t event => exact h.2
  | claimed c authorityDeadline => exact h.2.1
  | _ => trivial

/-- An event that accepts no message. -/
theorem BrokerInv.happens (hb : BrokerInv p b) (hreason : Reason p b.log e) (h : Fits b e) :
    BrokerInv p (b.record e) := by
  have hother : e.acceptance = none := by
    cases e with
    | accepted requestId time expiresAt => exact h.elim
    | _ => rfl
  have hacc : acceptances (b.record e).log = acceptances b.log := by
    show List.filterMap Event.acceptance (b.log ++ [e]) = _
    rw [Tokens.filterMap_concat, hother]
    exact List.append_nil _
  apply hb.record hreason h.gives h.takes h.uses h.room
  · rw [hacc]
    exact hb.accepted
  · intro x hx hlt
    rw [hacc] at hx
    have hrow := hb.remembered x hx hlt
    cases e with
    | accepted requestId time expiresAt => exact h.elim
    | _ => exact hrow

/-- The identity of the message is not on record, so it has not been accepted. -/
theorem BrokerInv.accept (hb : BrokerInv p b) {requestId : Text} {time expiresAt : Time}
    (hnew : requestId ∉ (acceptances b.log).map Prod.fst) (hroom : full b.requests = false) :
    BrokerInv p (b.record (.accepted requestId time expiresAt)) := by
  have hacc : acceptances (b.record (.accepted requestId time expiresAt)).log =
      acceptances b.log ++ [(requestId, expiresAt)] := Tokens.filterMap_concat _ _ _
  apply hb.record
  · trivial
  · intro token h
    cases h
  · intro token h
    cases h
  · intro token h
    cases h
  · exact hroom
  · have hnodup := hb.accepted.concat hnew
    rw [List.concat_eq_append] at hnodup
    rw [hacc, List.map_append]
    exact hnodup
  · intro x hx hlt
    rw [hacc] at hx
    apply Table.mem_set.2
    rcases List.mem_append.1 hx with hold | hlast
    · refine .inr ⟨hb.remembered x hold hlt, ?_⟩
      -- an older record is of another message
      intro hsame
      exact hnew (List.mem_map.2 ⟨x, hold, hsame⟩)
    · rw [List.mem_singleton.1 hlast]
      exact .inl rfl

end Record

/-! ## Section 5: What a request leaves -/

variable {o : Option Token}

theorem good_over (hb : BrokerInv p b) (h : Aged b b') : Good p b o (b', none) :=
  Tokens.leaves_over (hb.aged h) h.log

theorem good_waits {req : Request} (hb : BrokerInv p b) (hown : own req = none)
    (hstory : Story b.log req) : Good p b o (b, some req) :=
  Tokens.leaves_waits hb rfl hown hstory

theorem Aged.usable (h : Aged b b') {token : Token} (hused : Usable b token) : Usable b' token := by
  unfold Usable
  rw [h.log]
  exact hused

theorem isNew_iff {token : Token} : b.isNew token = true ↔ token ∉ tokens.given b.log :=
  decide_eq_true_iff

/-- What is live has been given, and not taken. -/
theorem BrokerInv.not_taken (hb : BrokerInv p b) {token : Token} (h : b.Live token) :
    token ∉ tokens.taken b.log :=
  (hb.once.live token h).2

/-- The request goes on with a token that it has taken just now. -/
theorem good_takes {e : Event} {req : Request} {token : Token} (hb : BrokerInv p b)
    (hinv : BrokerInv p (b.record e)) (huse : e.uses = none) (htakes : e.takes = some token)
    (hfree : token ∉ tokens.taken b.log) (hown : own req = some token)
    (hstory : Story (b.record e).log req) : Good p b o (b.record e, some req) :=
  Tokens.leaves_takes hinv rfl huse htakes hfree hb.once.used hown hstory

theorem good_event {e : Event} (hinv : BrokerInv p (b.record e))
    (huse : ∀ token, e.uses = some token → o = some token) : Good p b o (b.record e, none) :=
  Tokens.leaves_event hinv rfl huse

theorem good_challenge (hb : BrokerInv p b) (request : ModelPurposeRequest) (ms : List Time)
    {random : Text} (hnew : b.isNew (.challenge random) = true) :
    Good p b o (challenge p b request random ms, none) := by
  unfold challenge
  split
  · exact good_over hb (aged_prune b _)
  next hroom =>
    have haged := (aged_prune b (wait ms 0)).trans (aged_pass _ (wait ms 1))
    apply Tokens.Leaves.of_same haged.log
    apply good_event
    · exact (hb.aged haged).happens trivial ⟨haged.isNew hnew, eq_false_of_ne_true hroom⟩
    · intro token h
      cases h

theorem sealed_of_openCapsule {capsule : Text} {payload : Payload}
    (h : openCapsule p capsule = some payload) : sealed p capsule payload = true := by
  unfold openCapsule at h
  split at h
  · exact (Option.filter_eq_some_iff.1 h).2
  · cases h

theorem good_requestAdmit (hb : BrokerInv p b) (m : RuntimeEnvelope) (capsule : Text)
    (receipt : ModelPurposeReceipt) (ms : List Time) :
    Good p b none (requestAdmit p b m capsule receipt ms) := by
  unfold requestAdmit
  split
  · exact good_over hb (Aged.refl b)
  next payload hopen =>
    split
    · split
      · exact good_over hb (aged_prune b _)
      next c hfind =>
        have haged := (aged_prune b (wait ms 0 + wait ms 1)).trans (aged_pass _ (wait ms 2))
        have hlive : ((b.prune (wait ms 0 + wait ms 1)).pass (wait ms 2)).Live
            (.challenge payload.challenge) := ⟨c, Table.find?_mem hfind, Table.find?_key hfind⟩
        -- a challenge in the map has not been taken
        have hfree := (hb.aged haged).not_taken hlive
        split
        next hadmits =>
          simp only [Challenge.admits, Bool.and_eq_true, decide_eq_true_iff] at hadmits
          obtain ⟨⟨⟨hlt, -⟩, hrequest⟩, -⟩ := hadmits
          apply Tokens.Leaves.of_same haged.log
          apply good_takes (hb.aged haged) _ rfl rfl hfree rfl
          · exact ⟨capsule, _, List.mem_append_right _ (List.mem_singleton.2 rfl)⟩
          · apply (hb.aged haged).happens
            · refine ⟨sealed_of_openCapsule hopen, c, (hb.aged haged).challenges c
                (Table.find?_mem hfind), Table.find?_key hfind, hrequest, hlt, ?_⟩
              rw [Table.find?_key hfind]
              exact hfree
            · exact hlive
        · apply Tokens.Leaves.of_same haged.log
          apply good_event
          · exact (hb.aged haged).happens trivial hlive
          · intro token h
            cases h
    · exact good_over hb (aged_pass b _)

theorem good_pendingReceipt (hb : BrokerInv p b) {payload : Payload} {random : Text}
    (ms : List Time) (hnew : b.isNew (.receipt random) = true)
    (hknows : Knows b (.admitting payload)) :
    Good p b (some (.challenge payload.challenge))
      (pendingReceipt b payload random ms, none) := by
  obtain ⟨howned, capsule, time, hadmitted⟩ := hknows
  unfold pendingReceipt
  split
  · exact good_over hb (aged_prune b _)
  next hroom =>
    have haged := (aged_prune b (wait ms 0)).trans (aged_pass _ (wait ms 1))
    apply Tokens.Leaves.of_same haged.log
    apply good_event
    · apply (hb.aged haged).happens
      · refine ⟨capsule, payload, time, ?_, rfl, rfl⟩
        rw [haged.log]
        exact hadmitted
      · exact ⟨haged.isNew hnew, eq_false_of_ne_true hroom, haged.usable (howned _ rfl)⟩
    · intro token h
      exact h

theorem good_turnOpen (hb : BrokerInv p b) (m : RuntimeEnvelope) (args : TurnOpen)
    (ms : List Time) : Good p b none (turnOpen b m args ms) := by
  unfold turnOpen
  split
  · exact good_over hb (Aged.refl b)
  · split
    · exact good_over hb (aged_prune b _)
    next x hfind =>
      have haged := (aged_prune b (wait ms 0)).trans (aged_pass _ (wait ms 1))
      have hlive : ((b.prune (wait ms 0)).pass (wait ms 1)).Live (.receipt args.pendingReceipt) :=
        ⟨x, Table.find?_mem hfind, Table.find?_key hfind⟩
      have hinv : BrokerInv p (((b.prune (wait ms 0)).pass (wait ms 1)).record
          (.receiptConsumed args.pendingReceipt)) := by
        exact (hb.aged haged).happens trivial hlive
      split
      · apply Tokens.Leaves.of_same haged.log
        apply good_takes (hb.aged haged) hinv rfl rfl ((hb.aged haged).not_taken hlive) rfl
        -- the receipt in the map is one that was given for a capsule
        obtain ⟨challenge, hmem⟩ := (hb.aged haged).pending x (Table.find?_mem hfind)
        exact ⟨challenge, List.mem_append_left _ hmem, Table.find?_key hfind⟩
      · apply Tokens.Leaves.of_same haged.log
        apply good_event hinv
        intro token h
        cases h

theorem good_registerTurn (hb : BrokerInv p b) {x : Pending} {args : TurnOpen}
    (reference : BudgetAuthorityReference) (purposeAlias : Text) {random : Text} (ms : List Time)
    (hnew : b.isNew (.turn random) = true) (hknows : Knows b (.opening x args)) :
    Good p b (some (.receipt args.pendingReceipt))
      (registerTurn b x args reference purposeAlias random ms, none) := by
  obtain ⟨howned, challenge, hreceived, hreceipt⟩ := hknows
  unfold registerTurn
  split
  · exact good_over hb (Aged.refl b)
  next hbinds =>
    split
    · exact good_over hb (aged_prune b _)
    next hroom =>
      simp only [Bool.or_eq_true, Bool.not_eq_true', not_or] at hbinds hroom
      have haged := (aged_prune b (wait ms 0)).trans (aged_pass _ (wait ms 1))
      apply Tokens.Leaves.of_same haged.log
      apply good_event
      · apply (hb.aged haged).happens
        · refine ⟨x, challenge, ?_, hreceipt, rfl, eq_true_of_ne_false hbinds.1, rfl⟩
          rw [haged.log]
          exact hreceived
        · exact ⟨haged.isNew hnew, eq_false_of_ne_true hroom.1, haged.usable (howned _ rfl)⟩
      · intro token h
        exact h

theorem reserved_of_gives {e : Event} {cap : Text} {event : StepEvent}
    (h : e.gives = some (.step cap event)) : ∃ t, e = .reserved t event ∧ t.capability = cap := by
  cases e with
  | reserved t event' =>
    cases h
    exact ⟨t, rfl, rfl⟩
  | _ => cases h

theorem good_reserveStep (hb : BrokerInv p b) (m : RuntimeEnvelope) (cap purposeAlias : Text)
    (event : StepInput) (ms : List Time) :
    Good p b none (reserveStep p b m cap purposeAlias event ms) := by
  unfold reserveStep
  split
  · exact good_over hb (Aged.refl b)
  · split
    · exact good_over hb (aged_prune b _)
    next row hfind =>
      have haged := (aged_prune b (wait ms 0)).trans (aged_pass _ (wait ms 1))
      have haged' := haged.trans (aged_prune _ (wait ms 2))
      split
      next hadmits =>
        split
        · exact good_over hb haged'
        · simp only [LiveTurn.admits, Bool.and_eq_true, decide_eq_true_iff] at hadmits
          obtain ⟨⟨⟨⟨⟨-, hturnId⟩, hsequence⟩, -⟩, hlength⟩, hfresh⟩ := hadmits
          have hinv := hb.aged haged'
          have hrow : row ∈ (b.prune (wait ms 0)).turns := Table.find?_mem hfind
          -- the step is not on record, so it was never reserved
          have hunreserved : ∀ t, .reserved t event.data ∈ b.log →
              t.capability ≠ row.turn.capability := by
            intro t hmem hcap
            exact hfresh (hb.steps row ((aged_prune b _).mem_turns hrow) t event.data hmem hcap)
          have hgiven : (.step row.turn.capability event.data) ∉ tokens.given b.log := by
            intro hmem
            obtain ⟨e, he, hgives⟩ := List.mem_filterMap.1 hmem
            obtain ⟨t, rfl, hcap⟩ := reserved_of_gives hgives
            exact hunreserved t he hcap
          have hnew : ((((b.prune (wait ms 0)).pass (wait ms 1)).prune (wait ms 2))).isNew
              (.step row.turn.capability event.data) = true :=
            haged'.isNew (isNew_iff.2 hgiven)
          apply Tokens.Leaves.of_same haged'.log
          apply good_takes hinv _ rfl rfl _ rfl
          · exact List.mem_append_right _ (List.mem_singleton.2 rfl)
          · apply hinv.happens
            · obtain ⟨receipt, hopened⟩ := hb.turns row ((aged_prune b _).mem_turns hrow)
              refine ⟨⟨receipt, ?_⟩, hturnId, hsequence⟩
              rw [haged'.log]
              exact hopened
            · refine ⟨hnew, ?_⟩
              intro row' hfind'
              have hmem : row' ∈ (b.prune (wait ms 0)).turns :=
                ((aged_pass _ _).trans (aged_prune _ _)).mem_turns (Table.find?_mem hfind')
              rw [Table.eq_of_key_eq hmem hrow (Table.find?_key hfind')]
              exact hlength
          · intro htaken
            exact isNew_iff.1 hnew (hinv.once.taken _ htaken)
      · exact good_over hb haged

/-- The turn stands in the maps, so it is not closed in the log. -/
theorem BrokerInv.stands (hb : BrokerInv p b) {t : Turn} (h : b.stands t = true) :
    .closed t.capability ∉ b.log ∧ b.now < t.expiresAt := by
  simp only [Broker.stands, Bool.and_eq_true, decide_eq_true_iff] at h
  exact ⟨fun hmem => h.1.1 (hb.closed _ hmem), h.1.2⟩

theorem claimExpiry_le (t : Turn) (now : Time) (authorityDeadline : Option Time) :
    claimExpiry t now authorityDeadline ≤ t.expiresAt ∧
      ∀ deadline, authorityDeadline = some deadline →
        claimExpiry t now authorityDeadline ≤ deadline := by
  cases authorityDeadline with
  | none =>
    refine ⟨min_le_left _ _, ?_⟩
    intro deadline h
    cases h
  | some deadline =>
    refine ⟨(min_le_left _ _).trans (min_le_left _ _), ?_⟩
    intro deadline' h
    cases h
    exact min_le_right _ _

theorem good_finishStep (hb : BrokerInv p b) {t : Turn} {event : StepEvent} (purposeAlias : Text)
    (authorityDeadline : Option Time) {random : Text} (ms : List Time)
    (hnew : b.isNew (.claim random) = true) (hknows : Knows b (.claiming t event)) :
    Good p b (some (.step t.capability event))
      (finishStep b t event purposeAlias authorityDeadline random ms, none) := by
  obtain ⟨howned, hreserved⟩ := hknows
  have haged := (aged_prune b (wait ms 0)).trans (aged_pass _ (wait ms 1))
  have haged' := haged.trans (aged_prune _ (wait ms 2))
  unfold finishStep
  split
  · exact good_over hb (Aged.refl b)
  · split
    · split
      · exact good_over hb haged'
      next hroom =>
        apply Tokens.Leaves.of_same haged'.log
        apply good_event
        · apply (hb.aged haged').happens
          · refine ⟨?_, claimExpiry_le t _ authorityDeadline⟩
            rw [haged'.log]
            exact hreserved
          · exact ⟨haged'.isNew hnew, eq_false_of_ne_true hroom, haged'.usable (howned _ rfl)⟩
        · intro token h
          exact h
    · exact good_over hb haged

theorem BrokerInv.claim_le (hb : BrokerInv p b) {c : Claim} {authorityDeadline : Option Time}
    (h : .claimed c authorityDeadline ∈ b.log) : c.expiresAt ≤ c.turn.expiresAt := by
  obtain ⟨pre, -, -, hle, -⟩ := hb.reasoned.mem h
  exact hle

theorem BrokerInv.exists_claimed (hb : BrokerInv p b) {c : Claim} {time : Time}
    (h : .consumed c time ∈ b.log) : ∃ authorityDeadline, .claimed c authorityDeadline ∈ b.log := by
  obtain ⟨pre, hpre, ⟨authorityDeadline, hclaimed⟩, -⟩ := hb.reasoned.mem h
  exact ⟨authorityDeadline, ((List.prefix_append _ _).trans hpre).subset hclaimed⟩

theorem good_consume (hb : BrokerInv p b) (m : RuntimeEnvelope) (token : Text)
    (request : GatewayModelRequestIdentity) (ms : List Time) :
    Good p b none (reserveClaimConsumption p b m token request ms) := by
  unfold reserveClaimConsumption
  split
  · exact good_over hb (Aged.refl b)
  · split
    · exact good_over hb (aged_prune b _)
    next c hfind =>
      have haged := (aged_prune b (wait ms 0)).trans (aged_pass _ (wait ms 1))
      have haged' := haged.trans (aged_pass _ (wait ms 2))
      split
      next hyields =>
        simp only [Claim.yields, Bool.and_eq_true, decide_eq_true_iff] at hyields
        obtain ⟨⟨⟨⟨⟨⟨hstands, hlt⟩, -⟩, -⟩, -⟩, -⟩, -⟩ := hyields
        have hinv := hb.aged haged'
        have hmem : c ∈ (((b.prune (wait ms 0)).pass (wait ms 1)).pass (wait ms 2)).claims :=
          Table.find?_mem hfind
        -- the clock was read for the turn first, but a claim is over no later than its turn
        obtain ⟨authorityDeadline, hclaimed⟩ := hinv.claims c hmem
        have hlive : (((b.prune (wait ms 0)).pass (wait ms 1)).pass (wait ms 2)).Live
            (.claim c.token) := ⟨c, hmem, rfl⟩
        have hrecord : BrokerInv p ((((b.prune (wait ms 0)).pass (wait ms 1)).pass
            (wait ms 2)).record (.consumed c (b.now + wait ms 0 + wait ms 1 + wait ms 2))) := by
          apply hinv.happens
          · exact ⟨⟨authorityDeadline, hclaimed⟩, ((hb.aged haged).stands hstands).1, hlt,
              lt_of_lt_of_le hlt (hinv.claim_le hclaimed)⟩
          · exact hlive
        apply Tokens.Leaves.of_same haged'.log
        split
        · apply good_takes hinv hrecord rfl rfl (hinv.not_taken hlive) rfl
          exact ⟨_, List.mem_append_right _ (List.mem_singleton.2 rfl)⟩
        · apply good_event hrecord
          intro token h
          cases h
      · exact good_over hb haged'

theorem knows_aged {req : Request} (h : Aged b b') (hknows : Knows b req) : Knows b' req := by
  unfold Knows Tokens.Knows
  rw [h.log]
  exact hknows

/-- A consumed claim that the broker finds to be good. -/
theorem BrokerInv.resolves (hb : BrokerInv p b) {c : Claim} {ms time : Time}
    (hconsumed : .consumed c time ∈ b.log) (h : b.resolves c ms = true) :
    Stands b.log c (b.now + ms) := by
  simp only [Broker.resolves, Bool.and_eq_true, decide_eq_true_iff] at h
  obtain ⟨authorityDeadline, hclaimed⟩ := hb.exists_claimed hconsumed
  exact ⟨(hb.stands h.1).1, h.2, lt_of_lt_of_le h.2 (hb.claim_le hclaimed)⟩

theorem good_resolve (hb : BrokerInv p b) {c : Claim} (ms : List Time)
    (hknows : Knows b (.preparing c)) :
    Good p b (some (.claim c.token)) (resolveConsumedClaim b c ms, some (.preparing c)) := by
  obtain ⟨time, hconsumed⟩ := hknows.2
  have haged := aged_pass b (wait ms 0)
  have haged' := haged.trans (aged_pass _ (wait ms 1))
  unfold resolveConsumedClaim
  split
  next hresolves =>
    have hinv := hb.aged haged'
    apply Tokens.Leaves.of_same haged'.log
    apply Tokens.leaves_notes _ rfl rfl Story.mono (knows_aged haged' hknows)
    apply hinv.happens
    · exact ⟨⟨time, hconsumed⟩, (hb.aged haged).resolves hconsumed hresolves⟩
    · trivial
  · exact Tokens.leaves_keeps (hb.aged haged') haged'.log hknows

theorem good_prepare (hb : BrokerInv p b) {c : Claim} (expiresAt : Time) (ms : List Time)
    (hknows : Knows b (.preparing c)) :
    Good p b (some (.claim c.token)) (prepare b c expiresAt ms, none) := by
  obtain ⟨howned, time, hconsumed⟩ := hknows
  have haged := (aged_pass b (wait ms 0)).trans (aged_pass _ (wait ms 1))
  unfold prepare
  split
  · exact good_over hb (aged_pass b _)
  · split
    next hresolves =>
      have hinv := hb.aged haged
      apply Tokens.Leaves.of_same haged.log
      apply good_event
      · apply hinv.happens
        · exact ⟨⟨time, hconsumed⟩, hinv.resolves hconsumed hresolves⟩
        · exact haged.usable (howned _ rfl)
      · intro token h
        exact h
    · exact good_over hb haged

theorem good_closeTurn (hb : BrokerInv p b) (m : RuntimeEnvelope) (cap turnId : Text)
    (sequence : Int) (ms : List Time) :
    Good p b none (closeTurn b m cap turnId sequence ms, none) := by
  have haged := (aged_prune b (wait ms 0)).trans (aged_pass _ (wait ms 1))
  unfold closeTurn
  split
  · exact good_over hb (aged_prune b _)
  next row hfind =>
    split
    · apply Tokens.Leaves.of_same haged.log
      apply good_event
      · exact (hb.aged haged).happens trivial ⟨row, Table.find?_mem hfind, Table.find?_key hfind⟩
      · intro token h
        cases h
    · exact good_over hb haged

theorem good_perform (hb : BrokerInv p b) (m : RuntimeEnvelope) (ms : List Time) :
    Good p b none (perform p b m ms) := by
  unfold perform
  split
  · exact good_requestAdmit hb m _ _ ms
  · exact good_turnOpen hb m _ ms
  · exact good_reserveStep hb m _ _ _ ms
  · exact good_consume hb m _ _ ms
  · exact good_closeTurn hb m _ _ _ ms
  · exact good_over hb (Aged.refl b)

/-- The message is not on record; what is remembered is not over yet, so it was never accepted. -/
theorem BrokerInv.burned (hb : BrokerInv p b) {m : RuntimeEnvelope} {key : Text} {ms : Readings}
    (hburns : burns p b m key ms = true)
    (hin : ∀ x ∈ acceptances b.log, x.1 = m.requestId →
      b.now + (ms.stamp + ms.expiry + ms.prune) < x.2) : BrokerInv p (burned b m ms) := by
  simp only [burns, Bool.and_eq_true, Bool.not_eq_true', Option.isNone_iff_eq_none] at hburns
  obtain ⟨⟨-, hnone⟩, hroom⟩ := hburns
  have haged := aged_prune b (ms.stamp + ms.expiry + ms.prune)
  apply (hb.aged haged).accept _ hroom
  intro hmem
  obtain ⟨x, hx, hid⟩ := List.mem_map.1 hmem
  rw [haged.log] at hx
  -- the record of an earlier acceptance would still be in the map
  have hrow := haged.remembered _
    (hb.remembered x hx (lt_of_le_of_lt (Nat.le_add_right _ _) (hin x hx hid))) (hin x hx hid)
  exact Table.find?_eq_none.1 hnone _ hrow hid

theorem good_checkSignature (hb : BrokerInv p b) {m : RuntimeEnvelope} {key : Text} {aborted : Bool}
    {ms : Readings} (hin : InTime p b (.identified m) (.keyFile key aborted ms)) :
    Good p b none (checkSignature p b m key aborted ms) := by
  unfold checkSignature
  split
  next hburns =>
    have hfresh : (signed p key m && fresh m (b.now + ms.stamp)) = true := by
      simp only [burns, Bool.and_eq_true] at hburns ⊢
      exact hburns.1.1
    have haged := aged_prune b (ms.stamp + ms.expiry + ms.prune)
    -- the replay check is where the condition on the run is used
    have hinv := hb.burned hburns (hin hfresh)
    split
    · apply Tokens.Leaves.of_same haged.log
      apply good_event hinv
      intro token h
      cases h
    · exact Tokens.Leaves.after_event rfl rfl (good_perform hinv m ms.rest)
  · split
    · exact good_over hb (aged_prune b _)
    · exact good_over hb (aged_pass b _)

/-! ## Section 6: Every run -/

theorem good_step {req : Request} {answer : Answer} {left : Option Request} (hb : BrokerInv p b)
    (hknows : Knows b req) (hin : InTime p b req answer)
    (hstep : step p b req answer = some (b', left)) : Good p b (own req) (b', left) := by
  -- The cases are those of `step`, in its order.
  unfold step at hstep
  split at hstep
  · next request =>
    rw [← Option.some.inj hstep]
    unfold consoleHandle
    split
    · exact good_waits hb rfl trivial
    · exact good_over hb (Aged.refl b)
  · next request random ms =>
    split at hstep
    · next hnew =>
      rw [← Option.some.inj hstep]
      exact good_challenge hb request ms hnew
    · cases hstep
  · next m =>
    rw [← Option.some.inj hstep]
    split
    · exact good_waits hb rfl trivial
    · exact good_over hb (Aged.refl b)
  · next m key aborted ms =>
    rw [← Option.some.inj hstep]
    exact good_checkSignature hb hin
  · next payload random ms =>
    split at hstep
    · next hnew =>
      rw [← Option.some.inj hstep]
      exact good_pendingReceipt hb ms hnew hknows
    · cases hstep
  · next x args reference purposeAlias random ms =>
    split at hstep
    · next hnew =>
      rw [← Option.some.inj hstep]
      exact good_registerTurn hb reference purposeAlias ms hnew hknows
    · cases hstep
  · next t event purposeAlias authorityDeadline random ms =>
    split at hstep
    · next hnew =>
      rw [← Option.some.inj hstep]
      exact good_finishStep hb purposeAlias authorityDeadline ms hnew hknows
    · cases hstep
  · next c ms =>
    rw [← Option.some.inj hstep]
    exact good_resolve hb ms hknows
  · next c expiresAt ms =>
    rw [← Option.some.inj hstep]
    exact good_prepare hb expiresAt ms hknows
  · cases hstep

theorem knows_begins (b : Broker) {req : Request} (h : begins req = true) :
    Knows b req ∧ own req = none := by
  cases req with
  | console request => exact ⟨Tokens.knows_of_own_none rfl trivial, rfl⟩
  | runtime m => exact ⟨Tokens.knows_of_own_none rfl trivial, rfl⟩
  | _ => cases h

theorem keepsOwned_broker (p : Primitives) :
    (broker p).KeepsOwned (MessagesInTime p) (BrokerInv p) Knows own
      (fun b token => token ∈ tokens.taken b.log) (tokens.Extends Broker.log) where
  stable b b' o req hext hothers hknows := hknows.stable Story.mono hext hothers
  taken b req token hknows hown := (hknows.1 token hown).1
  begins b req _ hbegins := knows_begins b hbegins
  step b req answer b' left hb hknows hin hstep := by
    -- a step leaves what the rule of ownership asks for
    have hgood := good_step hb hknows (hin answer rfl) hstep
    exact ⟨hgood.inv, hgood.extend, hgood.left⟩
  happens b ms b' hb hhappens := by
    cases hhappens
    exact ⟨hb.aged (aged_pass b ms), Tokens.extends_same rfl⟩

theorem brokerInv_started (h : Started b) : BrokerInv p b := by
  obtain ⟨hchallenges, hpending, hturns, hclaims, hrequests, -, hlog⟩ := h
  have hnil : ∀ e, e ∉ b.log := by
    intro e he
    rw [hlog] at he
    cases he
  have hnochallenge : ∀ c, c ∉ b.challenges := by
    intro c hc
    rw [Table.mem_def, hchallenges] at hc
    cases hc
  have hnopending : ∀ x, x ∉ b.pending := by
    intro x hx
    rw [Table.mem_def, hpending] at hx
    cases hx
  have hnoturn : ∀ row, row ∉ b.turns := by
    intro row hrow
    rw [Table.mem_def, hturns] at hrow
    cases hrow
  have hnoclaim : ∀ c, c ∉ b.claims := by
    intro c hc
    rw [Table.mem_def, hclaims] at hc
    cases hc
  constructor
  · rw [hlog]
    apply Tokens.once_nil
    intro token hlive
    cases token with
    | challenge challenge =>
      obtain ⟨c, hc, -⟩ := hlive
      exact hnochallenge c hc
    | receipt receipt =>
      obtain ⟨x, hx, -⟩ := hlive
      exact hnopending x hx
    | turn cap =>
      obtain ⟨row, hrow, -⟩ := hlive
      exact hnoturn row hrow
    | step cap event => exact hlive
    | claim token =>
      obtain ⟨c, hc, -⟩ := hlive
      exact hnoclaim c hc
  · rw [hlog]
    exact reasoned_nil _
  · rw [hlog]
    exact List.nodup_nil
  · intro x hx
    rw [hlog] at hx
    cases hx
  · exact fun c hc => absurd hc (hnochallenge c)
  · exact fun x hx => absurd hx (hnopending x)
  · exact fun row hrow => absurd hrow (hnoturn row)
  · exact fun c hc => absurd hc (hnoclaim c)
  · exact fun cap hmem => absurd hmem (hnil _)
  · exact fun row hrow => absurd hrow (hnoturn row)
  · refine ⟨?_, ?_, ?_, ?_, ?_, fun row hrow => absurd hrow (hnoturn row)⟩
    · rw [hchallenges]
      exact Nat.zero_le _
    · rw [hpending]
      exact Nat.zero_le _
    · rw [hturns]
      exact Nat.zero_le _
    · rw [hclaims]
      exact Nat.zero_le _
    · rw [hrequests]
      exact Nat.zero_le _

/-- Back from a claim to the capsule that it came from. -/
theorem asked_of_claimed {log : List Event} (h : Reasoned (Reason p) log) {c : Claim}
    {authorityDeadline : Option Time} (hclaimed : .claimed c authorityDeadline ∈ log) :
    Asked p log c := by
  -- claim, step, turn, receipt, capsule: each has the one before it in an earlier part of the log
  obtain ⟨pre₁, hpre₁, hreserved, -, hdeadline⟩ := h.mem hclaimed
  have hlog₁ : pre₁ <+: log := (List.prefix_append _ _).trans hpre₁
  obtain ⟨pre₂, hpre₂, ⟨receipt, hopened⟩, -⟩ := (h.of_prefix hlog₁).mem hreserved
  have hlog₂ : pre₂ <+: log := ((List.prefix_append _ _).trans hpre₂).trans hlog₁
  obtain ⟨pre₃, hpre₃, x, challenge, hreceived, -, hrequest, hbinds, hdefinition⟩ :=
    (h.of_prefix hlog₂).mem hopened
  have hlog₃ : pre₃ <+: log := ((List.prefix_append _ _).trans hpre₃).trans hlog₂
  obtain ⟨pre₄, hpre₄, capsule, payload, time, hadmitted, -, hpayload⟩ :=
    (h.of_prefix hlog₃).mem hreceived
  have hlog₄ : pre₄ <+: log := ((List.prefix_append _ _).trans hpre₄).trans hlog₃
  obtain ⟨pre, hpre, hcapsule⟩ := (h.of_prefix hlog₄).mem hadmitted
  exact ⟨⟨authorityDeadline, hclaimed, hdeadline⟩, hbinds, hdefinition,
    pre, capsule, payload, time, hpre.trans hlog₄, hpayload.trans hrequest, hcapsule⟩

/-- Back from a consumed claim. -/
theorem asked_of_consumed {log : List Event} (h : Reasoned (Reason p) log) {c : Claim} {time : Time}
    (hconsumed : .consumed c time ∈ log) : Asked p log c := by
  obtain ⟨pre, hpre, ⟨authorityDeadline, hclaimed⟩, -⟩ := h.mem hconsumed
  exact asked_of_claimed h (((List.prefix_append _ _).trans hpre).subset hclaimed)

theorem BrokerInv.safe (hb : BrokerInv p b) : Safe p b where
  accepted := hb.accepted
  taken := hb.once.takenOnce
  used := hb.once.once
  consumed pre c time post heq := (hb.reasoned pre (.consumed c time) post heq).2
  resolved pre c time post heq := by
    obtain ⟨⟨time', hconsumed⟩, hstands⟩ := hb.reasoned pre (.resolved c time) post heq
    exact ⟨⟨time', hconsumed⟩, hstands,
      asked_of_consumed (hb.reasoned.of_prefix ⟨_, heq.symm⟩) hconsumed⟩
  prepared pre c time post heq := by
    obtain ⟨⟨time', hconsumed⟩, hstands⟩ := hb.reasoned pre (.prepared c time) post heq
    exact ⟨⟨time', hconsumed⟩, hstands,
      asked_of_consumed (hb.reasoned.of_prefix ⟨_, heq.symm⟩) hconsumed⟩
  bounded := hb.bounded

end Invariant

/-- **One paid call**: over every interleaving in which each signed message comes to the replay
    check while its identity is remembered. -/
theorem modelPurpose_safe (p : Primitives) {s t : Requests.State Broker Request}
    {labels : List (Requests.Label Request Answer Time)}
    (hinit : ((broker p).system Started).init s)
    (hin : ((broker p).system Started).AllSteps (Requests.Meets (MessagesInTime p)) s labels)
    (hrun : ((broker p).system Started).run s labels = some t) : Safe p t.shared := by
  have hstart : Requests.OwnedInv (BrokerInv p) Knows own s :=
    Requests.ownedInv_init (fun _ hb => brokerInv_started hb) hinit
  exact ((keepsOwned_broker p).run hstart hin hrun).1.1.safe

/-! ## Section 7: Two keepers -/

def demoDigest : Text := List.replicate 64 'd'

def demoRequest : ModelPurposeRequest where
  agent := ['a', 'b']
  incarnation := List.replicate 36 '0'
  session := ['s']
  member := ['m']
  admissionNonce := List.replicate 43 'n'
  method := POST
  path := sessionRoot
  rawBodyHash := List.replicate 64 'e'
  policyRevision := 1
  definitionHash := demoDigest
  purpose := human
  requestId := List.replicate 32 'q'
  resume := none

/-- The code of a message: who has sent it to whom. -/
def demoMac (requestId direction : Text) : Text := (requestId ++ direction).take 43

def demoPayload : Payload where
  version := 1
  request := demoRequest
  requestDigest := demoDigest
  challenge := ['c']
  challengeMac := demoMac demoRequest.requestId keeperToConsole
  expiresAt := 10000

def demoCapsule : Text := 'b' :: '.' :: demoMac demoRequest.requestId consoleToKeeper

def demoBytes (text : Text) : Bytes := text.map fun c => UInt8.ofNat c.toNat

/-- A keeper whose digests are all the same, and that knows one capsule. -/
def demo : Primitives where
  signingKey := ['k']
  purposeStore := true
  modelPurposeDigest _ := demoDigest
  mac _ fields := demoBytes (demoMac fields.requestId fields.direction)
  base64url := demoBytes
  parse bytes := if bytes = demoBytes ['b'] then some demoPayload else none
  opName _ := ['o']

def idle : Requests.State Broker Request :=
  ⟨⟨0, Table.empty, Table.empty, Table.empty, Table.empty, Table.empty, [], []⟩, fun _ => none⟩

def message (c : Char) (timestamp : Int) (op : Operation) : RuntimeEnvelope where
  agent := demoRequest.agent
  incarnation := demoRequest.incarnation
  requestId := List.replicate 32 c
  timestamp := timestamp
  op := op
  outcomeDigest := demoDigest
  payloadDigest := demoDigest
  mac := demoMac (List.replicate 32 c) runtimeToKeeper

/-- A message up to its first `await` after the replay check. -/
def arrives (id : Nat) (m : RuntimeEnvelope) : List (Requests.Label Request Answer Time) :=
  [.call id (.runtime m), .step id .line, .step id (.keyFile demoDigest false ⟨0, 0, 0, []⟩)]

def demoTurn : Turn where
  capability := List.replicate 43 'u'
  request := demoRequest
  reference :=
    ⟨human, none, ['t'], 1, demoRequest.agent, demoRequest.incarnation, demoRequest.session,
      demoRequest.member, demoRequest.admissionNonce⟩
  turnId := ['t']
  sequence := 1
  definitionHash := demoRequest.definitionHash
  purposeAlias := ['m', 'm']
  expiresAt := 300000

def demoClaim : Claim :=
  ⟨List.replicate 43 'x', demoTurn, ⟨['t'], 1, 0⟩, demoTurn.purposeAlias, 20000⟩

def consuming : RuntimeEnvelope :=
  message 'd' 0 (.stepConsume demoClaim.token ⟨POST, messagesPath, List.replicate 64 'f'⟩)

/-- From the console's request to the right to one call. The claim's message is repeated, and the
    turn is closed. -/
def paid : List (Requests.Label Request Answer Time) :=
  [.call 0 (.console demoRequest), .step 0 .line, .step 0 (.current ['c'] [])] ++
    arrives 1 (message 'a' 0 (.requestAdmit demoCapsule
      ⟨POST, sessionRoot, demoRequest.rawBodyHash, demoRequest.requestId, human, none⟩)) ++
    [.step 1 (.current (List.replicate 43 'r') [])] ++
    arrives 2 (message 'b' 0 (.turnOpen ⟨List.replicate 43 'r', ['s'], ['t'], 1,
      some (demoRequest.member, demoRequest.admissionNonce)⟩)) ++
    [.step 2 (.captured demoTurn.reference demoTurn.purposeAlias demoTurn.capability [])] ++
    arrives 3 (message 'c' 0 (.stepClaim demoTurn.capability demoTurn.purposeAlias
      ⟨stepStarted, ⟨['t'], 1, 0⟩⟩)) ++
    [.step 3 (.validated demoTurn.purposeAlias (some 20000) demoClaim.token [])] ++
    arrives 4 consuming ++ [.step 4 (.asks []), .step 4 (.intent 30000 [])] ++
    .happen 5000 :: arrives 5 consuming ++
    arrives 6 (message 'e' 5000 (.turnClose demoTurn.capability ['t'] 1))

theorem started_idle : ((broker demo).system Started).init idle :=
  ⟨⟨rfl, rfl, rfl, rfl, rfl, rfl, rfl⟩, fun _ => rfl⟩

theorem modelPurpose_safe_paid :
    ∃ t, ((broker demo).system Started).run idle paid = some t ∧ Safe demo t.shared ∧
      .prepared demoClaim 0 ∈ t.shared.log ∧ .closed demoTurn.capability ∈ t.shared.log := by
  have hall : (((broker demo).system Started).run idle paid).any (fun t =>
      decide (.prepared demoClaim 0 ∈ t.shared.log ∧
        .closed demoTurn.capability ∈ t.shared.log)) = true := by
    decide +kernel
  obtain ⟨t, hrun, hlog⟩ := (Option.any_eq_true _ _).1 hall
  refine ⟨t, hrun, modelPurpose_safe demo started_idle ?_ hrun, of_decide_eq_true hlog⟩
  decide +kernel

/-- The message is half a minute ahead, so a copy is as fresh a minute later, when the record has
    just been pruned. -/
theorem message_accepted_twice : ((broker demo).system Started).init idle ∧
    ∃ t, ((broker demo).system Started).run idle
        (arrives 0 (message 'a' 30000 .other) ++
          .happen 60000 :: arrives 1 (message 'a' 30000 .other)) = some t ∧
      ¬Safe demo t.shared := by
  refine ⟨started_idle, ?_⟩
  have htwice : (((broker demo).system Started).run idle
      (arrives 0 (message 'a' 30000 .other) ++
        .happen 60000 :: arrives 1 (message 'a' 30000 .other))).any (fun t =>
      (acceptances t.shared.log).map Prod.fst = [List.replicate 32 'a', List.replicate 32 'a']) =
        true := by
    decide +kernel
  obtain ⟨t, hrun, hlog⟩ := (Option.any_eq_true _ _).1 htwice
  refine ⟨t, hrun, ?_⟩
  intro hsafe
  have hnodup := hsafe.accepted
  rw [of_decide_eq_true hlog] at hnodup
  exact (List.nodup_cons.1 hnodup).1 (List.mem_singleton.2 rfl)

end Lares.Keeper.ModelPurpose
