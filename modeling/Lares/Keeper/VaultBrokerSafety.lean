import Lares.Keeper.VaultBroker
import Mathlib

/-! # What the broker promises

    * **Requests**: an identity is accepted once, where no copy comes after its
      record is gone.
    * **Tokens**: a challenge yields one receipt, a receipt one turn, a
      capability one dispatch.
    * **Reads**: behind each read there is a turn that is open, its receipt, and
      the capsule that was admitted over a live challenge.

    What one step keeps is kept by any interleaving (`KeepsOwned.run`): a token
    that a request has taken is its own.
-/

namespace Lares.Keeper

/-! ## Section 1: What is promised -/

/-- Which request is accepted, and when. -/
def Event.acceptance : Event → Option (Text × Time)
  | .accepted requestId time => some (requestId, time)
  | .challenged _ => none
  | .admitted _ _ _ => none
  | .received _ _ => none
  | .consumed _ => none
  | .opened _ _ => none
  | .closed _ => none
  | .read _ _ => none
  | .granted _ => none
  | .resumed _ => none
  | .dispatched _ => none

def acceptances (log : List Event) : List (Text × Time) := log.filterMap Event.acceptance

/-- The console's capsule, over a challenge that is alive at the time. -/
def LiveCapsule (p : Primitives) (log : List Event) (capsule : Text) (parsed : Capsule)
    (time : Time) : Prop :=
  sealed p capsule parsed ∧ parsed.purpose = humanPurpose ∧
    ∃ c, .challenged c ∈ log ∧ c.challenge = parsed.challenge ∧ c.input = parsed.toInput ∧
      time < c.expiry ∧ .challenge c.challenge ∉ tokens.taken log

/-- The turn of a read is open, and the console's capsule for it was admitted before. -/
def BackedRead (p : Primitives) (log : List Event) (args : VaultRead) (time : Time) : Prop :=
  ∃ turn handle, .opened turn handle ∈ log ∧ turn.turnCapability = args.turnCapability ∧
    turn.belongsTo args ∧ time < turn.expiry ∧ .closed args.turnCapability ∉ log ∧
    ∃ pre capsule parsed admittedAt, pre ++ [.admitted capsule parsed admittedAt] <+: log ∧
      parsed.toInput = turn.input ∧ LiveCapsule p pre capsule parsed admittedAt

/-- Everything that the broker promises. -/
structure Safe (p : Primitives) (log : List Event) : Prop where
  accepted : ((acceptances log).map Prod.fst).Nodup
  /-- One receipt a challenge, one turn a receipt, one dispatch a capability. -/
  used : (log.filterMap Event.uses).Nodup
  read : ∀ pre args time post, log = pre ++ .read args time :: post → BackedRead p pre args time

/-- A signed copy of an accepted request is looked up within `REQUEST_MS`. -/
def InTime (p : Primitives) (b : Broker) : Request → Answer → Prop
  | .identified m _, .keyFile token _ _ =>
      signed p token m → ∀ x ∈ acceptances b.log, x.1 = m.requestId → b.now < x.2 + REQUEST_MS
  | _, _ => True

instance (p : Primitives) (b : Broker) : ∀ req answer, Decidable (InTime p b req answer) := by
  intro req answer
  unfold InTime
  split <;> infer_instance

/-- What has no answer is dropped. -/
def CopiesInTime (p : Primitives) (b : Broker) (req : Request) (answer : Option Answer) : Prop :=
  ∀ a ∈ answer, InTime p b req a

instance (p : Primitives) (b : Broker) (req : Request) (answer : Option Answer) :
    Decidable (CopiesInTime p b req answer) :=
  inferInstanceAs (Decidable (∀ a ∈ answer, InTime p b req a))

/-! ## Section 2: The invariant -/

/-- Why an event could happen. -/
def Reason (p : Primitives) (log : List Event) : Event → Prop
  | .admitted capsule parsed time => LiveCapsule p log capsule parsed time
  | .received pending challenge =>
      ∃ capsule parsed time, .admitted capsule parsed time ∈ log ∧ parsed.challenge = challenge ∧
        parsed.toInput = pending.input
  | .opened turn handle =>
      ∃ pending challenge, .received pending challenge ∈ log ∧ pending.handle = handle ∧
        pending.input = turn.input
  | .read args time =>
      ∃ turn handle, .opened turn handle ∈ log ∧ turn.turnCapability = args.turnCapability ∧
        turn.belongsTo args ∧ time < turn.expiry ∧ .closed args.turnCapability ∉ log
  | .accepted _ _ => True
  | .challenged _ => True
  | .consumed _ => True
  | .closed _ => True
  | .granted _ => True
  | .resumed _ => True
  | .dispatched _ => True

/-- What is in the maps. -/
def Broker.Live (b : Broker) : Token → Prop
  | .challenge challenge => ∃ c ∈ b.challenges, c.challenge = challenge
  | .receipt handle => ∃ p ∈ b.pending, p.handle = handle
  | .turn cap => ∃ t ∈ b.turns, t.turnCapability = cap
  | .outside cap => ∃ r ∈ b.outsideResumes, r.outsideCapability = cap

structure BrokerInv (p : Primitives) (b : Broker) : Prop where
  /-- Every token is taken once, and is live or was taken. -/
  once : tokens.Once b.log b.Live
  /-- Every event has its reason before it. -/
  reasoned : Reasoned (Reason p) b.log
  /-- No request is accepted twice. -/
  accepted : ((acceptances b.log).map Prod.fst).Nodup
  /-- What was accepted in the last minute is remembered. -/
  remembered : ∀ x ∈ acceptances b.log, b.now < x.2 + REQUEST_MS →
    ⟨x.1, x.2 + REQUEST_MS⟩ ∈ b.runtimeRequests
  /-- A challenge in the map was given out. -/
  challenges : ∀ c ∈ b.challenges, .challenged c ∈ b.log
  /-- So was a receipt. -/
  pending : ∀ x ∈ b.pending, ∃ challenge, .received x challenge ∈ b.log
  /-- A turn in the map was opened. -/
  turns : ∀ t ∈ b.turns, ∃ handle, .opened t handle ∈ b.log

/-- The token that a request has taken and not yet used. -/
def own : Request → Option Token
  | .admitting challenge _ _ => some (.challenge challenge)
  | .opening _ args _ => some (.receipt args.pendingReceipt)
  | .executing resume _ => some (.outside resume.outsideCapability)
  | .console _ => none
  | .challenging _ _ => none
  | .runtime _ => none
  | .identified _ _ => none
  | .accepted _ _ => none
  | .reading _ _ _ => none
  | .approving _ _ _ _ => none
  | .granting _ _ => none

/-- How the token came to the request. -/
def Story (log : List Event) : Request → Prop
  | .admitting challenge input _ =>
      ∃ capsule parsed time, .admitted capsule parsed time ∈ log ∧ parsed.challenge = challenge ∧
        parsed.toInput = input
  | .opening input args _ =>
      ∃ pending challenge, .received pending challenge ∈ log ∧
        pending.handle = args.pendingReceipt ∧ pending.input = input
  | .reading turn args _ => turn.belongsTo args
  | .console _ => True
  | .challenging _ _ => True
  | .runtime _ => True
  | .identified _ _ => True
  | .accepted _ _ => True
  | .approving _ _ _ _ => True
  | .granting _ _ => True
  | .executing _ _ => True

def TakenToken (b : Broker) (token : Token) : Prop := token ∈ tokens.taken b.log

def Knows (b : Broker) (req : Request) : Prop :=
  (∀ token, own req = some token → TakenToken b token ∧ token ∉ tokens.used b.log) ∧
    Story b.log req

/-- Only the owner of a token uses it. -/
def Extends (b b' : Broker) (o : Option Token) : Prop :=
  b.log ⊆ b'.log ∧ ∀ token ∈ tokens.used b'.log, token ∈ tokens.used b.log ∨ o = some token

theorem Story.mono {log log' : List Event} {req : Request} (h : Story log req)
    (hsub : log ⊆ log') : Story log' req := by
  cases req with
  | admitting challenge input deadline =>
    obtain ⟨capsule, parsed, time, hmem, heq⟩ := h
    exact ⟨capsule, parsed, time, hsub hmem, heq⟩
  | opening input args deadline =>
    obtain ⟨pending, challenge, hmem, heq⟩ := h
    exact ⟨pending, challenge, hsub hmem, heq⟩
  | reading turn args deadline => exact h
  | _ => trivial

/-! ## Section 3: Time -/

/-- Time has passed, and some rows may be gone. -/
structure Aged (b b' : Broker) : Prop where
  /-- The clock does not go back. -/
  now : b.now ≤ b'.now
  /-- Nothing is recorded. -/
  log : b'.log = b.log
  challenges : ∀ c ∈ b'.challenges, c ∈ b.challenges
  pending : ∀ x ∈ b'.pending, x ∈ b.pending
  turns : ∀ t ∈ b'.turns, t ∈ b.turns
  resumes : ∀ r ∈ b'.outsideResumes, r ∈ b.outsideResumes
  /-- A remembered request stays up to its time. -/
  requests : ∀ r ∈ b.runtimeRequests, b'.now < r.expiry → r ∈ b'.runtimeRequests

theorem Aged.refl (b : Broker) : Aged b b :=
  ⟨le_rfl, rfl, fun _ h => h, fun _ h => h, fun _ h => h, fun _ h => h, fun _ h _ => h⟩

theorem Aged.trans {b b' b'' : Broker} (h : Aged b b') (h' : Aged b' b'') : Aged b b'' where
  now := h.now.trans h'.now
  log := h'.log.trans h.log
  challenges c hc := h.challenges c (h'.challenges c hc)
  pending x hx := h.pending x (h'.pending x hx)
  turns t ht := h.turns t (h'.turns t ht)
  resumes r hr := h.resumes r (h'.resumes r hr)
  requests r hr hlt := h'.requests r (h.requests r hr (lt_of_le_of_lt h'.now hlt)) hlt

theorem aged_pass (b : Broker) (ms : Time) : Aged b (b.pass ms) where
  now := Nat.le_add_right _ _
  log := rfl
  challenges _ h := h
  pending _ h := h
  turns _ h := h
  resumes _ h := h
  requests _ h _ := h

theorem aged_prune (b : Broker) (ms : Time) : Aged b (b.prune ms) where
  now := Nat.le_add_right _ _
  log := rfl
  challenges _ h := (Table.mem_keep.1 h).1
  pending _ h := (Table.mem_keep.1 h).1
  turns _ h := (Table.mem_keep.1 h).1
  resumes _ h := h
  requests r h hlt := by
    -- what outlives the second reading outlives the first
    have hnow : b.now < r.expiry := lt_of_le_of_lt (Nat.le_add_right _ _) hlt
    exact Table.mem_keep.2 ⟨h, by simpa using hnow⟩

theorem aged_pruneResumes (b : Broker) : Aged b b.pruneResumes where
  now := le_rfl
  log := rfl
  challenges _ h := h
  pending _ h := h
  turns _ h := h
  resumes _ h := (Table.mem_keep.1 h).1
  requests _ h _ := h

section Invariant

variable {p : Primitives} {b b' : Broker}

theorem Aged.live (h : Aged b b') : ∀ token, b'.Live token → b.Live token := by
  intro token hlive
  cases token with
  | challenge challenge =>
    obtain ⟨c, hc, heq⟩ := hlive
    exact ⟨c, h.challenges c hc, heq⟩
  | receipt handle =>
    obtain ⟨x, hx, heq⟩ := hlive
    exact ⟨x, h.pending x hx, heq⟩
  | turn cap =>
    obtain ⟨t, ht, heq⟩ := hlive
    exact ⟨t, h.turns t ht, heq⟩
  | outside cap =>
    obtain ⟨r, hr, heq⟩ := hlive
    exact ⟨r, h.resumes r hr, heq⟩

theorem BrokerInv.aged (hb : BrokerInv p b) (h : Aged b b') : BrokerInv p b' where
  once := by
    rw [h.log]
    exact hb.once.mono h.live
  reasoned := by
    rw [h.log]
    exact hb.reasoned
  accepted := by
    rw [h.log]
    exact hb.accepted
  remembered x hmem hlt := by
    rw [h.log] at hmem
    exact h.requests _ (hb.remembered x hmem (lt_of_le_of_lt h.now hlt)) hlt
  challenges c hc := by
    rw [h.log]
    exact hb.challenges c (h.challenges c hc)
  pending x hx := by
    rw [h.log]
    exact hb.pending x (h.pending x hx)
  turns t ht := by
    rw [h.log]
    exact hb.turns t (h.turns t ht)

theorem Aged.extends (h : Aged b b') (o : Option Token) : Extends b b' o := by
  refine ⟨?_, ?_⟩
  · rw [h.log]
    exact List.Subset.refl _
  · intro token hmem
    rw [h.log] at hmem
    exact .inl hmem

theorem Aged.isNew (h : Aged b b') {token : Token} (hnew : b.isNew token) : b'.isNew token := by
  simp only [Broker.isNew] at hnew ⊢
  rw [h.log]
  exact hnew

/-! ## Section 4: One event -/

/-- The step records `e`; each row was there before or is what `e` is about. -/
structure Records (b b' : Broker) (e : Event) : Prop where
  /-- The clock stands still. -/
  now : b'.now = b.now
  /-- The event is the only one. -/
  log : b'.log = b.log ++ [e]
  challenges : ∀ c ∈ b'.challenges, c ∈ b.challenges ∨ e = .challenged c
  pending : ∀ x ∈ b'.pending, x ∈ b.pending ∨ ∃ challenge, e = .received x challenge
  turns : ∀ t ∈ b'.turns, t ∈ b.turns ∨ ∃ handle, e = .opened t handle
  resumes : ∀ r ∈ b'.outsideResumes, r ∈ b.outsideResumes ∨ e = .granted r

theorem Records.live {e : Event} (h : Records b b' e) :
    ∀ token, b'.Live token → b.Live token ∨ e.gives = some token := by
  intro token hlive
  cases token with
  | challenge challenge =>
    obtain ⟨c, hc, rfl⟩ := hlive
    rcases h.challenges c hc with hold | rfl
    · exact .inl ⟨c, hold, rfl⟩
    · exact .inr rfl
  | receipt handle =>
    obtain ⟨x, hx, rfl⟩ := hlive
    rcases h.pending x hx with hold | ⟨challenge, rfl⟩
    · exact .inl ⟨x, hold, rfl⟩
    · exact .inr rfl
  | turn cap =>
    obtain ⟨t, ht, rfl⟩ := hlive
    rcases h.turns t ht with hold | ⟨handle, rfl⟩
    · exact .inl ⟨t, hold, rfl⟩
    · exact .inr rfl
  | outside cap =>
    obtain ⟨r, hr, rfl⟩ := hlive
    rcases h.resumes r hr with hold | rfl
    · exact .inl ⟨r, hold, rfl⟩
    · exact .inr rfl

theorem Records.extends {e : Event} (h : Records b b' e) {o : Option Token}
    (huse : ∀ token, e.uses = some token → o = some token) : Extends b b' o := by
  refine ⟨?_, ?_⟩
  · rw [h.log]
    exact List.subset_append_left _ _
  · intro token hmem
    rw [h.log] at hmem
    rcases Tokens.mem_filterMap_concat.1 hmem with hold | hnew
    · exact .inl hold
    · exact .inr (huse token hnew)

/-- What the maps know of the log, after one more event. -/
theorem BrokerInv.records {e : Event} (hb : BrokerInv p b) (h : Records b b' e)
    (hreason : Reason p b.log e) (hgive : ∀ token, e.gives = some token → b.isNew token)
    (htake : ∀ token, e.takes = some token → b.Live token ∧ ¬b'.Live token)
    (huse : ∀ token, e.uses = some token → TakenToken b token ∧ token ∉ tokens.used b.log)
    (haccepted : ((acceptances b'.log).map Prod.fst).Nodup)
    (hremembered : ∀ x ∈ acceptances b'.log, b'.now < x.2 + REQUEST_MS →
      ⟨x.1, x.2 + REQUEST_MS⟩ ∈ b'.runtimeRequests) : BrokerInv p b' where
  once := by
    rw [h.log]
    apply hb.once.concat
    · intro token hgives
      simpa [Broker.isNew] using hgive token hgives
    · exact fun token htakes => .inl (htake token htakes).1
    · exact huse
    · intro token hlive
      exact ⟨h.live token hlive, fun htakes => (htake token htakes).2 hlive⟩
  reasoned := by
    rw [h.log]
    exact hb.reasoned.concat hreason
  accepted := haccepted
  remembered := hremembered
  challenges c hc := by
    rw [h.log]
    rcases h.challenges c hc with hold | rfl
    · exact List.mem_append_left _ (hb.challenges c hold)
    · exact List.mem_append_right _ (List.mem_singleton.2 rfl)
  pending x hx := by
    rw [h.log]
    rcases h.pending x hx with hold | ⟨challenge, rfl⟩
    · obtain ⟨challenge, hmem⟩ := hb.pending x hold
      exact ⟨challenge, List.mem_append_left _ hmem⟩
    · exact ⟨challenge, List.mem_append_right _ (List.mem_singleton.2 rfl)⟩
  turns t ht := by
    rw [h.log]
    rcases h.turns t ht with hold | ⟨handle, rfl⟩
    · obtain ⟨handle, hmem⟩ := hb.turns t hold
      exact ⟨handle, List.mem_append_left _ hmem⟩
    · exact ⟨handle, List.mem_append_right _ (List.mem_singleton.2 rfl)⟩

/-- An event that accepts no request. -/
theorem BrokerInv.other {e : Event} (hb : BrokerInv p b) (h : Records b b' e)
    (hother : e.acceptance = none) (hrequests : b'.runtimeRequests = b.runtimeRequests)
    (hreason : Reason p b.log e) (hgive : ∀ token, e.gives = some token → b.isNew token)
    (htake : ∀ token, e.takes = some token → b.Live token ∧ ¬b'.Live token)
    (huse : ∀ token, e.uses = some token → TakenToken b token ∧ token ∉ tokens.used b.log) :
    BrokerInv p b' := by
  have hacc : acceptances b'.log = acceptances b.log := by
    rw [h.log, acceptances, Tokens.filterMap_concat, hother]
    exact List.append_nil _
  apply hb.records h hreason hgive htake huse
  · rw [hacc]
    exact hb.accepted
  · intro x hx hlt
    rw [hacc] at hx
    rw [h.now] at hlt
    rw [hrequests]
    exact hb.remembered x hx hlt

theorem records_accept (b : Broker) (requestId : Text) :
    Records b (b.accept requestId) (.accepted requestId b.now) :=
  ⟨rfl, rfl, fun _ h => .inl h, fun _ h => .inl h, fun _ h => .inl h, fun _ h => .inl h⟩

/-- The identity is not on record, and each record is as old as its acceptance. -/
theorem BrokerInv.accept (hb : BrokerInv p b) {requestId : Text}
    (hnew : requestId ∉ (acceptances b.log).map Prod.fst) :
    BrokerInv p (b.accept requestId) := by
  have hacc : acceptances (b.accept requestId).log =
      acceptances b.log ++ [(requestId, b.now)] := Tokens.filterMap_concat _ _ _
  apply hb.records (records_accept b requestId) trivial
  · intro token h
    cases h
  · intro token h
    cases h
  · intro token h
    cases h
  · have hnodup := hb.accepted.concat hnew
    rw [List.concat_eq_append] at hnodup
    rw [hacc, List.map_append]
    exact hnodup
  · intro x hx hlt
    rw [hacc] at hx
    apply Table.mem_set.2
    rcases List.mem_append.1 hx with hold | hlast
    · refine .inr ⟨hb.remembered x hold hlt, ?_⟩
      -- an older record is of another request
      intro hsame
      exact hnew (List.mem_map.2 ⟨x, hold, hsame⟩)
    · rw [List.mem_singleton.1 hlast]
      exact .inl rfl

theorem records_challenged (b : Broker) (c : Challenge) :
    Records b (b.challenged c) (.challenged c) := by
  refine ⟨rfl, rfl, ?_, fun _ h => .inl h, fun _ h => .inl h, fun _ h => .inl h⟩
  intro c' hc'
  rcases Table.mem_set.1 hc' with rfl | ⟨hold, -⟩
  · exact .inr rfl
  · exact .inl hold

theorem BrokerInv.challenged (hb : BrokerInv p b) {c : Challenge}
    (hnew : b.isNew (.challenge c.challenge)) : BrokerInv p (b.challenged c) := by
  apply hb.other (records_challenged b c) rfl rfl trivial
  · intro token h
    cases h
    exact hnew
  · intro token h
    cases h
  · intro token h
    cases h

theorem records_admitted (b : Broker) (capsule : Text) (parsed : Capsule) :
    Records b (b.admitted capsule parsed) (.admitted capsule parsed b.now) :=
  ⟨rfl, rfl, fun _ h => .inl (Table.mem_erase.1 h).1, fun _ h => .inl h, fun _ h => .inl h,
    fun _ h => .inl h⟩

theorem BrokerInv.admitted (hb : BrokerInv p b) {capsule : Text} {parsed : Capsule}
    (hlive : b.Live (.challenge parsed.challenge))
    (hreason : LiveCapsule p b.log capsule parsed b.now) :
    BrokerInv p (b.admitted capsule parsed) := by
  apply hb.other (records_admitted b capsule parsed) rfl rfl hreason
  · intro token h
    cases h
  · intro token h
    cases h
    refine ⟨hlive, ?_⟩
    rintro ⟨c, hc, heq⟩
    exact (Table.mem_erase.1 hc).2 heq
  · intro token h
    cases h

theorem records_received (b : Broker) (x : Pending) (challenge : Text) :
    Records b (b.received x challenge) (.received x challenge) := by
  refine ⟨rfl, rfl, fun _ h => .inl h, ?_, fun _ h => .inl h, fun _ h => .inl h⟩
  intro x' hx'
  rcases Table.mem_set.1 hx' with rfl | ⟨hold, -⟩
  · exact .inr ⟨challenge, rfl⟩
  · exact .inl hold

theorem BrokerInv.received (hb : BrokerInv p b) {x : Pending} {challenge : Text}
    (hnew : b.isNew (.receipt x.handle)) (hreason : Reason p b.log (.received x challenge))
    (htaken : TakenToken b (.challenge challenge))
    (hunused : .challenge challenge ∉ tokens.used b.log) : BrokerInv p (b.received x challenge) := by
  apply hb.other (records_received b x challenge) rfl rfl hreason
  · intro token h
    cases h
    exact hnew
  · intro token h
    cases h
  · intro token h
    cases h
    exact ⟨htaken, hunused⟩

theorem records_consumed (b : Broker) (handle : Text) :
    Records b (b.consumed handle) (.consumed handle) :=
  ⟨rfl, rfl, fun _ h => .inl h, fun _ h => .inl (Table.mem_erase.1 h).1, fun _ h => .inl h,
    fun _ h => .inl h⟩

theorem BrokerInv.consumed (hb : BrokerInv p b) {handle : Text}
    (hlive : b.Live (.receipt handle)) : BrokerInv p (b.consumed handle) := by
  apply hb.other (records_consumed b handle) rfl rfl trivial
  · intro token h
    cases h
  · intro token h
    cases h
    refine ⟨hlive, ?_⟩
    rintro ⟨x, hx, heq⟩
    exact (Table.mem_erase.1 hx).2 heq
  · intro token h
    cases h

theorem records_opened (b : Broker) (t : Turn) (handle : Text) :
    Records b (b.opened t handle) (.opened t handle) := by
  refine ⟨rfl, rfl, fun _ h => .inl h, fun _ h => .inl h, ?_, fun _ h => .inl h⟩
  intro t' ht'
  rcases Table.mem_set.1 ht' with rfl | ⟨hold, -⟩
  · exact .inr ⟨handle, rfl⟩
  · exact .inl hold

theorem BrokerInv.opened (hb : BrokerInv p b) {t : Turn} {handle : Text}
    (hnew : b.isNew (.turn t.turnCapability)) (hreason : Reason p b.log (.opened t handle))
    (htaken : TakenToken b (.receipt handle))
    (hunused : .receipt handle ∉ tokens.used b.log) : BrokerInv p (b.opened t handle) := by
  apply hb.other (records_opened b t handle) rfl rfl hreason
  · intro token h
    cases h
    exact hnew
  · intro token h
    cases h
  · intro token h
    cases h
    exact ⟨htaken, hunused⟩

theorem records_closed (b : Broker) (cap : Text) : Records b (b.closed cap) (.closed cap) :=
  ⟨rfl, rfl, fun _ h => .inl h, fun _ h => .inl h, fun _ h => .inl (Table.mem_erase.1 h).1,
    fun _ h => .inl h⟩

theorem BrokerInv.closed (hb : BrokerInv p b) {cap : Text} (hlive : b.Live (.turn cap)) :
    BrokerInv p (b.closed cap) := by
  apply hb.other (records_closed b cap) rfl rfl trivial
  · intro token h
    cases h
  · intro token h
    cases h
    refine ⟨hlive, ?_⟩
    rintro ⟨t, ht, heq⟩
    exact (Table.mem_erase.1 ht).2 heq
  · intro token h
    cases h

theorem records_readNow (b : Broker) (args : VaultRead) :
    Records b (b.readNow args) (.read args b.now) :=
  ⟨rfl, rfl, fun _ h => .inl h, fun _ h => .inl h, fun _ h => .inl h, fun _ h => .inl h⟩

theorem BrokerInv.readNow (hb : BrokerInv p b) {args : VaultRead}
    (hreason : Reason p b.log (.read args b.now)) : BrokerInv p (b.readNow args) := by
  apply hb.other (records_readNow b args) rfl rfl hreason
  · intro token h
    cases h
  · intro token h
    cases h
  · intro token h
    cases h

theorem records_granted (b : Broker) (r : Resume) : Records b (b.granted r) (.granted r) := by
  refine ⟨rfl, rfl, fun _ h => .inl h, fun _ h => .inl h, fun _ h => .inl h, ?_⟩
  intro r' hr'
  rcases Table.mem_set.1 hr' with rfl | ⟨hold, -⟩
  · exact .inr rfl
  · exact .inl hold

theorem BrokerInv.granted (hb : BrokerInv p b) {r : Resume}
    (hnew : b.isNew (.outside r.outsideCapability)) : BrokerInv p (b.granted r) := by
  apply hb.other (records_granted b r) rfl rfl trivial
  · intro token h
    cases h
    exact hnew
  · intro token h
    cases h
  · intro token h
    cases h

theorem records_resumed (b : Broker) (cap : Text) : Records b (b.resumed cap) (.resumed cap) :=
  ⟨rfl, rfl, fun _ h => .inl h, fun _ h => .inl h, fun _ h => .inl h,
    fun _ h => .inl (Table.mem_erase.1 h).1⟩

theorem BrokerInv.resumed (hb : BrokerInv p b) {cap : Text} (hlive : b.Live (.outside cap)) :
    BrokerInv p (b.resumed cap) := by
  apply hb.other (records_resumed b cap) rfl rfl trivial
  · intro token h
    cases h
  · intro token h
    cases h
    refine ⟨hlive, ?_⟩
    rintro ⟨r, hr, heq⟩
    exact (Table.mem_erase.1 hr).2 heq
  · intro token h
    cases h

theorem records_dispatched (b : Broker) (cap : Text) :
    Records b (b.dispatched cap) (.dispatched cap) :=
  ⟨rfl, rfl, fun _ h => .inl h, fun _ h => .inl h, fun _ h => .inl h, fun _ h => .inl h⟩

theorem BrokerInv.dispatched (hb : BrokerInv p b) {cap : Text}
    (htaken : TakenToken b (.outside cap)) (hunused : .outside cap ∉ tokens.used b.log) :
    BrokerInv p (b.dispatched cap) := by
  apply hb.other (records_dispatched b cap) rfl rfl trivial
  · intro token h
    cases h
  · intro token h
    cases h
  · intro token h
    cases h
    exact ⟨htaken, hunused⟩

/-! ## Section 5: One step -/

/-- What a step of the owner of `o` leaves. -/
structure Good (p : Primitives) (b : Broker) (o : Option Token) (out : Broker × Option Request) :
    Prop where
  inv : BrokerInv p out.1
  extend : Extends b out.1 o
  left : ∀ req, out.2 = some req → Knows out.1 req ∧
    ∀ token, own req = some token → o = some token ∨ ¬TakenToken b token

theorem Good.of_aged {b'' : Broker} {o : Option Token} {left : Option Request} (h : Aged b b')
    (hgood : Good p b' o (b'', left)) : Good p b o (b'', left) where
  inv := hgood.inv
  extend := by
    obtain ⟨hsub, hused⟩ := hgood.extend
    rw [h.log] at hsub hused
    exact ⟨hsub, hused⟩
  left := by
    intro req hreq
    obtain ⟨hknows, hnew⟩ := hgood.left req hreq
    refine ⟨hknows, ?_⟩
    intro token hown
    have := hnew token hown
    rw [TakenToken, h.log] at this
    exact this

/-- The request is over, after some time. -/
theorem good_over {o : Option Token} (hb : BrokerInv p b) (h : Aged b b') :
    Good p b o (b', none) where
  inv := hb.aged h
  extend := h.extends o
  left := by
    intro req hreq
    cases hreq

/-- The request waits, and owns nothing. -/
theorem good_waits {o : Option Token} {req : Request} (hb : BrokerInv p b) (h : Aged b b')
    (hown : own req = none) (hstory : Story b'.log req) : Good p b o (b', some req) where
  inv := hb.aged h
  extend := h.extends o
  left := by
    intro req' hreq'
    cases hreq'
    refine ⟨⟨?_, hstory⟩, ?_⟩
    · intro token htoken
      rw [hown] at htoken
      cases htoken
    · intro token htoken
      rw [hown] at htoken
      cases htoken

/-- One more event, after which the request is over or owns nothing. -/
theorem good_event {o : Option Token} {e : Event} {left : Option Request} (hb : BrokerInv p b')
    (h : Records b b' e) (huse : ∀ token, e.uses = some token → o = some token)
    (hleft : ∀ req, left = some req → own req = none ∧ Story b'.log req) :
    Good p b o (b', left) where
  inv := hb
  extend := h.extends huse
  left := by
    intro req hreq
    obtain ⟨hown, hstory⟩ := hleft req hreq
    refine ⟨⟨?_, hstory⟩, ?_⟩
    · intro token htoken
      rw [hown] at htoken
      cases htoken
    · intro token htoken
      rw [hown] at htoken
      cases htoken

/-- The request has taken a token that was live. -/
theorem good_takes {o : Option Token} {e : Event} {req : Request} {token : Token}
    (hb : BrokerInv p b) (hb' : BrokerInv p b') (h : Records b b' e) (huse : e.uses = none)
    (htakes : e.takes = some token) (hlive : b.Live token) (hown : own req = some token)
    (hstory : Story b'.log req) : Good p b o (b', some req) where
  inv := hb'
  extend := by
    apply h.extends
    intro token' huses
    rw [huse] at huses
    cases huses
  left := by
    have huntaken := (hb.once.live token hlive).2
    intro req' hreq'
    cases hreq'
    refine ⟨⟨?_, hstory⟩, ?_⟩
    · intro token' htoken'
      rw [hown] at htoken'
      cases htoken'
      refine ⟨?_, ?_⟩
      · rw [TakenToken, h.log]
        exact Tokens.mem_filterMap_concat.2 (.inr htakes)
      · intro hused
        rw [h.log] at hused
        -- what is used has been taken before
        rcases Tokens.mem_filterMap_concat.1 hused with hold | hnow
        · exact huntaken (hb.once.used token hold)
        · cases huse.symm.trans hnow
    · intro token' htoken'
      rw [hown] at htoken'
      cases htoken'
      exact .inr huntaken

theorem good_handle {o : Option Token} (hb : BrokerInv p b) (input : Input) (ms ms' : Time) :
    Good p b o (handle b input ms ms') := by
  have hpruned : Aged b ((b.pass ms).prune ms') := (aged_pass b ms).trans (aged_prune _ ms')
  unfold handle
  split
  · exact good_over hb (aged_pass b ms)
  · split
    · exact good_over hb hpruned
    · exact good_waits hb hpruned rfl trivial

theorem good_challengeCurrent {o : Option Token} (hb : BrokerInv p b) (input : Input)
    (deadline : Time) {challenge : Text} (ms ms' ms'' : Time)
    (hnew : b.isNew (.challenge challenge)) :
    Good p b o (challengeCurrent b input deadline challenge ms ms' ms'', none) := by
  have hpruned : Aged b ((b.pass (ms + ms')).prune ms'') :=
    (aged_pass b _).trans (aged_prune _ ms'')
  unfold challengeCurrent
  split
  · exact good_over hb (Aged.refl b)
  · split
    · exact good_over hb hpruned
    · apply Good.of_aged hpruned
      apply good_event _ (records_challenged _ _)
      · intro token h
        cases h
      · intro req hreq
        cases hreq
      · exact (hb.aged hpruned).challenged (hpruned.isNew hnew)

theorem good_identify {o : Option Token} (hb : BrokerInv p b) (m : Message) (ms : Time) :
    Good p b o (identify b m ms) := by
  unfold identify
  split
  · exact good_over hb (aged_pass b ms)
  · exact good_waits hb (aged_pass b ms) rfl trivial

/-- A copy that comes in time finds the record of the request. -/
theorem not_accepted_of_not_found (hb : BrokerInv p b) {requestId : Text} {ms : Time}
    (hfind : ¬((b.prune ms).runtimeRequests.find? requestId).isSome)
    (hin : ∀ x ∈ acceptances b.log, x.1 = requestId → b.now < x.2 + REQUEST_MS) :
    requestId ∉ (acceptances b.log).map Prod.fst := by
  intro hmem
  obtain ⟨x, hx, rfl⟩ := List.mem_map.1 hmem
  have hnow : b.now < x.2 + REQUEST_MS := hin x hx rfl
  have hrecord : (⟨x.1, x.2 + REQUEST_MS⟩ : Seen) ∈ (b.prune ms).runtimeRequests :=
    Table.mem_keep.2 ⟨hb.remembered x hx hnow, by simpa using hnow⟩
  apply hfind
  rw [show x.1 = Seen.requestId ⟨x.1, x.2 + REQUEST_MS⟩ from rfl, Table.find?_of_mem hrecord]
  rfl

theorem good_checkSignature {o : Option Token} (hb : BrokerInv p b) {m : Message}
    {deadline : Time} {token : Text} {ms ms' : Time}
    (hin : InTime p b (.identified m deadline) (.keyFile token ms ms')) :
    Good p b o (checkSignature p b m deadline token ms ms') := by
  unfold checkSignature
  split
  · exact good_over hb (Aged.refl b)
  · split
    · exact good_over hb (aged_prune b ms)
    · next hchecked =>
      simp only [Bool.or_eq_true, not_or, Bool.not_eq_true', Bool.not_eq_false] at hchecked
      obtain ⟨⟨⟨-, hsigned⟩, hfind⟩, -⟩ := hchecked
      have haged : Aged b ((b.prune ms).pass ms') := (aged_prune b ms).trans (aged_pass _ ms')
      have hnew := not_accepted_of_not_found hb hfind (hin hsigned)
      apply Good.of_aged haged
      apply good_event _ (records_accept _ _)
      · intro token h
        cases h
      · intro req hreq
        cases hreq
        exact ⟨rfl, trivial⟩
      · exact (hb.aged haged).accept hnew

theorem sealed_of_openCapsule {capsule : Text} {parsed : Capsule}
    (h : openCapsule p capsule = some parsed) : sealed p capsule parsed := by
  unfold openCapsule at h
  split at h
  · exact (Option.filter_eq_some_iff.1 h).2
  · cases h

theorem good_requestAdmit (hb : BrokerInv p b) (m : Message) (capsule : Text) (receipt : Receipt)
    (deadline : Time) : Good p b none (requestAdmit p b m capsule receipt deadline) := by
  unfold requestAdmit
  split
  · exact good_over hb (Aged.refl b)
  next parsed hopen =>
    split
    · exact good_over hb (Aged.refl b)
    next c hc =>
      split
      · next hmatches =>
        simp only [matchesChallenge, Bool.and_eq_true, decide_eq_true_eq] at hmatches
        obtain ⟨⟨⟨⟨⟨⟨⟨⟨⟨⟨-, hpurpose⟩, -⟩, -⟩, hexpiry⟩, hsame⟩, -⟩, -⟩, -⟩, -⟩, -⟩ := hmatches
        obtain ⟨hmem, hkey⟩ := Table.find?_eq_some.1 hc
        have hlive : b.Live (.challenge parsed.challenge) := ⟨c, hmem, hkey⟩
        have hcapsule : LiveCapsule p b.log capsule parsed b.now := by
          refine ⟨sealed_of_openCapsule hopen, hpurpose, c, hb.challenges c hmem, hkey, hsame,
            hexpiry, ?_⟩
          rw [hkey]
          exact (hb.once.live _ hlive).2
        apply good_takes hb (hb.admitted hlive hcapsule) (records_admitted b capsule parsed) rfl rfl
          hlive rfl
        exact ⟨capsule, parsed, b.now, List.mem_append_right _ (List.mem_singleton.2 rfl), rfl, rfl⟩
      · exact good_over hb (Aged.refl b)

theorem good_admitCurrent (hb : BrokerInv p b) {challenge : Text} {input : Input} {deadline : Time}
    {handle : Text} {ms : Time} (hnew : b.isNew (.receipt handle))
    (hknows : Knows b (.admitting challenge input deadline)) :
    Good p b (some (.challenge challenge))
      (admitCurrent b challenge input deadline handle ms, none) := by
  obtain ⟨howned, hstory⟩ := hknows
  obtain ⟨htaken, hunused⟩ := howned _ rfl
  unfold admitCurrent
  split
  · exact good_over hb (Aged.refl b)
  · apply Good.of_aged (aged_pass b ms)
    apply good_event _ (records_received _ _ _)
    · intro token h
      exact h
    · intro req hreq
      cases hreq
    · exact (hb.aged (aged_pass b ms)).received hnew hstory htaken hunused

/-- The receipt that is found is gone, whether or not it is the right one. -/
theorem good_consume (hb : BrokerInv p b) (m : Message) (args : TurnOpen) (ms ms' : Time) :
    Good p b none ((consumePendingVaultReceipt b m args ms ms').1, none) ∧
      ∀ value, (consumePendingVaultReceipt b m args ms ms').2 = some value →
        (b.prune ms).pending.find? args.pendingReceipt = some value ∧
          (consumePendingVaultReceipt b m args ms ms').1 =
            ((b.prune ms).pass ms').consumed args.pendingReceipt := by
  have hpruned := aged_prune b ms
  have haged : Aged b ((b.prune ms).pass ms') := hpruned.trans (aged_pass _ ms')
  unfold consumePendingVaultReceipt
  by_cases hfull : (b.prune ms).overfull = true
  · rw [if_pos hfull]
    refine ⟨good_over hb hpruned, ?_⟩
    intro value h
    cases h
  rw [if_neg hfull]
  cases hfind : (b.prune ms).pending.find? args.pendingReceipt with
  | none =>
    refine ⟨good_over hb hpruned, ?_⟩
    intro value h
    cases h
  | some value =>
    have hmem := Table.find?_mem hfind
    -- The receipt is in the map, so it is live, and is taken here.
    have hlive : ((b.prune ms).pass ms').Live (.receipt args.pendingReceipt) :=
      ⟨value, hmem, Table.find?_key hfind⟩
    have hover : Good p b none (((b.prune ms).pass ms').consumed args.pendingReceipt, none) := by
      apply Good.of_aged haged
      apply good_event ((hb.aged haged).consumed hlive) (records_consumed _ _)
      · intro token h
        cases h
      · intro req hreq
        cases hreq
    dsimp only
    split
    · refine ⟨hover, ?_⟩
      intro value h
      cases h
    · refine ⟨hover, ?_⟩
      intro value' h
      cases h
      exact ⟨rfl, rfl⟩

theorem good_turnOpen (hb : BrokerInv p b) (m : Message) (args : TurnOpen)
    (deadline ms ms' : Time) : Good p b none (turnOpen p b m args deadline ms ms') := by
  obtain ⟨hover, hfound⟩ := good_consume hb m args ms ms'
  have haged : Aged b ((b.prune ms).pass ms') := (aged_prune b ms).trans (aged_pass _ ms')
  unfold turnOpen
  split
  · generalize consumePendingVaultReceipt b m args ms ms' = out at hover hfound
    obtain ⟨b', left⟩ := out
    cases left with
    | none => exact hover
    | some value =>
      dsimp only
      split
      · obtain ⟨hfind, rfl⟩ := hfound value rfl
        obtain ⟨hmem, hkey⟩ := Table.find?_eq_some.1 hfind
        have hlive : ((b.prune ms).pass ms').Live (.receipt args.pendingReceipt) :=
          ⟨value, hmem, hkey⟩
        obtain ⟨challenge, hreceived⟩ := (hb.aged haged).pending value hmem
        apply Good.of_aged haged
        apply good_takes (hb.aged haged) ((hb.aged haged).consumed hlive) (records_consumed _ _)
          rfl rfl hlive rfl
        exact ⟨value, challenge, List.mem_append_left _ hreceived, hkey, rfl⟩
      · exact hover
  · exact good_over hb (Aged.refl b)

theorem good_turnOpened (hb : BrokerInv p b) {input : Input} {args : TurnOpen} {deadline : Time}
    {policyRevision : Int} {areaIds : List Text} {cap : Text} {ms : Time}
    (hnew : b.isNew (.turn cap)) (hknows : Knows b (.opening input args deadline)) :
    Good p b (some (.receipt args.pendingReceipt))
      (turnOpened b input args deadline policyRevision areaIds cap ms, none) := by
  obtain ⟨howned, hstory⟩ := hknows
  obtain ⟨htaken, hunused⟩ := howned _ rfl
  unfold turnOpened
  split
  · exact good_over hb (Aged.refl b)
  · apply Good.of_aged (aged_pass b ms)
    apply good_event _ (records_opened _ _ _)
    · intro token h
      exact h
    · intro req hreq
      cases hreq
    · exact (hb.aged (aged_pass b ms)).opened hnew hstory htaken hunused

theorem good_turnClose {o : Option Token} (hb : BrokerInv p b) (m : Message) (cap turnId : Text)
    (sequence : Int) : Good p b o (turnClose b m cap turnId sequence, none) := by
  unfold turnClose
  split
  · exact good_over hb (Aged.refl b)
  next turn hturn =>
    obtain ⟨hmem, hkey⟩ := Table.find?_eq_some.1 hturn
    split
    · apply good_event _ (records_closed _ _)
      · intro token h
        cases h
      · intro req hreq
        cases hreq
      · exact hb.closed ⟨turn, hmem, hkey⟩
    · exact good_over hb (Aged.refl b)

theorem good_vaultRead {o : Option Token} (hb : BrokerInv p b) (m : Message) (args : VaultRead)
    (deadline : Time) : Good p b o (vaultRead b m args deadline) := by
  unfold vaultRead
  split
  · exact good_over hb (Aged.refl b)
  · split
    · next hchecked => exact good_waits hb (Aged.refl b) rfl hchecked.2.2.2.2.1
    · exact good_over hb (Aged.refl b)

/-- The turn is in the map, so it was opened and has not been closed. -/
theorem good_vaultReadDone {o : Option Token} (hb : BrokerInv p b) {turn : Turn} {args : VaultRead}
    {deadline : Time} (hbelongs : turn.belongsTo args) :
    Good p b o (vaultReadDone b turn args deadline, none) := by
  unfold vaultReadDone
  split
  · next hlive =>
    simp only [Turn.live, Bool.and_eq_true, decide_eq_true_eq] at hlive
    obtain ⟨⟨-, hfind⟩, hexpiry⟩ := hlive
    obtain ⟨hmem, hkey⟩ := Table.find?_eq_some.1 hfind
    obtain ⟨handle, hopened⟩ := hb.turns turn hmem
    have hlive : b.Live (.turn args.turnCapability) := ⟨turn, hmem, hkey⟩
    have hclosed : Event.closed args.turnCapability ∉ b.log := by
      intro hmem'
      exact (hb.once.live _ hlive).2 (List.mem_filterMap.2 ⟨_, hmem', rfl⟩)
    apply good_event _ (records_readNow _ _)
    · intro token h
      cases h
    · intro req hreq
      cases hreq
    · exact hb.readNow ⟨turn, handle, hopened, hkey, hbelongs, hexpiry, hclosed⟩
  · exact good_over hb (Aged.refl b)

theorem good_outsideApprove {o : Option Token} (hb : BrokerInv p b) (m : Message)
    (call : OutsideCall) (deadline : Time) : Good p b o (outsideApprove p b m call deadline) := by
  unfold outsideApprove
  split
  · exact good_over hb (Aged.refl b)
  · split
    · exact good_over hb (aged_pruneResumes b)
    · exact good_waits hb (aged_pruneResumes b) rfl trivial

theorem good_outsideApproved {o : Option Token} (hb : BrokerInv p b) (agent incarnation : Text)
    (call : OutsideCall) (deadline expiresAt : Time) (policyRevision : Int) (ms : Time) :
    Good p b o
      (outsideApproved p b agent incarnation call deadline expiresAt policyRevision ms) := by
  unfold outsideApproved
  split
  · exact good_over hb (aged_pass b ms)
  · exact good_waits hb (aged_pass b ms) rfl trivial

theorem good_outsideGranted {o : Option Token} (hb : BrokerInv p b) (grant : Grant)
    (deadline : Time) {cap : Text} (hnew : b.isNew (.outside cap)) :
    Good p b o (outsideGranted b grant deadline cap, none) := by
  unfold outsideGranted
  split
  · exact good_over hb (Aged.refl b)
  · apply good_event _ (records_granted _ _)
    · intro token h
      cases h
    · intro req hreq
      cases hreq
    · exact hb.granted hnew

theorem good_outsideExecute (hb : BrokerInv p b) (m : Message) (call : OutsideCall)
    (cap : Option Text) (deadline ms : Time) :
    Good p b none (outsideExecute p b m call cap deadline ms) := by
  have haged : Aged b (b.pruneResumes.pass ms) := (aged_pruneResumes b).trans (aged_pass _ ms)
  unfold outsideExecute
  split
  · exact good_over hb (Aged.refl b)
  · split
    · exact good_over hb (aged_pruneResumes b)
    next resume hresume =>
      obtain ⟨cap', -, hfind⟩ := Option.bind_eq_some_iff.1 hresume
      have hlive : (b.pruneResumes.pass ms).Live (.outside resume.outsideCapability) :=
        ⟨resume, Table.find?_mem hfind, rfl⟩
      have hresumed := (hb.aged haged).resumed hlive
      have hrecords := records_resumed (b.pruneResumes.pass ms) resume.outsideCapability
      split
      · apply Good.of_aged haged
        exact good_takes (hb.aged haged) hresumed hrecords rfl rfl hlive rfl trivial
      · apply Good.of_aged haged
        apply good_event hresumed hrecords
        · intro token h
          cases h
        · intro req hreq
          cases hreq

theorem good_outsideDispatch (hb : BrokerInv p b) {resume : Resume} {deadline : Time}
    (hknows : Knows b (.executing resume deadline)) :
    Good p b (some (.outside resume.outsideCapability))
      (outsideDispatch b resume deadline, none) := by
  obtain ⟨htaken, hunused⟩ := hknows.1 _ rfl
  unfold outsideDispatch
  split
  · exact good_over hb (Aged.refl b)
  · apply good_event _ (records_dispatched _ _)
    · intro token h
      exact h
    · intro req hreq
      cases hreq
    · exact hb.dispatched htaken hunused

theorem good_perform (hb : BrokerInv p b) (m : Message) (deadline ms ms' : Time) :
    Good p b none (perform p b m deadline ms ms') := by
  unfold perform
  split
  · exact good_requestAdmit hb m _ _ deadline
  · exact good_turnOpen hb m _ deadline ms ms'
  · exact good_turnClose hb m _ _ _
  · exact good_vaultRead hb m _ deadline
  · exact good_outsideApprove hb m _ deadline
  · exact good_outsideExecute hb m _ _ deadline ms
  · exact good_over hb (Aged.refl b)
  · exact good_over hb (Aged.refl b)

/-! ## Section 6: Every run -/

theorem good_step {req : Request} {answer : Answer} {left : Option Request} (hb : BrokerInv p b)
    (hknows : Knows b req) (hin : InTime p b req answer)
    (hstep : step p b req answer = some (b', left)) : Good p b (own req) (b', left) := by
  -- The cases are those of `step`, in its order.
  unfold step at hstep
  split at hstep
  · next input ms ms' =>
    rw [← Option.some.inj hstep]
    exact good_handle hb input ms ms'
  · next input deadline random ms ms' ms'' =>
    split at hstep
    · next hnew =>
      rw [← Option.some.inj hstep]
      exact good_challengeCurrent hb input deadline ms ms' ms'' hnew
    · cases hstep
  · next m ms _ =>
    rw [← Option.some.inj hstep]
    exact good_identify hb m ms
  · next m deadline token ms ms' =>
    rw [← Option.some.inj hstep]
    exact good_checkSignature hb hin
  · next m deadline ms ms' ms'' =>
    split at hstep
    · cases hstep
      exact good_over hb (Aged.refl b)
    · rw [← Option.some.inj hstep]
      exact Good.of_aged (aged_pass b ms) (good_perform (hb.aged (aged_pass b ms)) m deadline ms' ms'')
  · next challenge input deadline random ms _ _ =>
    split at hstep
    · next hnew =>
      rw [← Option.some.inj hstep]
      exact good_admitCurrent hb hnew hknows
    · cases hstep
  · next input args deadline policyRevision areaIds random ms =>
    split at hstep
    · next hnew =>
      rw [← Option.some.inj hstep]
      exact good_turnOpened hb hnew hknows
    · cases hstep
  · next turn args deadline =>
    rw [← Option.some.inj hstep]
    exact good_vaultReadDone hb hknows.2
  · next agent incarnation call deadline expiresAt policyRevision ms =>
    rw [← Option.some.inj hstep]
    exact good_outsideApproved hb agent incarnation call deadline expiresAt policyRevision ms
  · next grant deadline random =>
    split at hstep
    · next hnew =>
      rw [← Option.some.inj hstep]
      exact good_outsideGranted hb grant deadline hnew
    · cases hstep
  · next resume deadline =>
    rw [← Option.some.inj hstep]
    exact good_outsideDispatch hb hknows
  · cases hstep

theorem knows_begins (b : Broker) {req : Request} (h : begins req = true) :
    Knows b req ∧ own req = none := by
  have hidle : ∀ token, own req = some token → TakenToken b token ∧ token ∉ tokens.used b.log := by
    intro token htoken
    cases req <;> cases htoken <;> cases h
  cases req with
  | console input => exact ⟨⟨hidle, trivial⟩, rfl⟩
  | runtime m => exact ⟨⟨hidle, trivial⟩, rfl⟩
  | _ => cases h

theorem keepsOwned_broker (p : Primitives) :
    (broker p).KeepsOwned (CopiesInTime p) (BrokerInv p) Knows own TakenToken Extends where
  stable := by
    intro b b' o req hext hothers hknows
    obtain ⟨howned, hstory⟩ := hknows
    refine ⟨?_, hstory.mono hext.1⟩
    intro token htoken
    obtain ⟨htaken, hunused⟩ := howned token htoken
    refine ⟨?_, ?_⟩
    · obtain ⟨e, he, htakes⟩ := List.mem_filterMap.1 htaken
      exact List.mem_filterMap.2 ⟨e, hext.1 he, htakes⟩
    · intro hused
      rcases hext.2 token hused with hold | hmine
      · exact hunused hold
      · exact hothers token htoken hmine
  taken b req token hknows hown := (hknows.1 token hown).1
  begins b req _ hbegins := knows_begins b hbegins
  step b req answer b' left hb hknows hin hstep := by
    have hgood := good_step hb hknows (hin answer rfl) hstep
    exact ⟨hgood.inv, hgood.extend, hgood.left⟩
  happens b ms b' hb hhappens := by
    cases hhappens
    exact ⟨hb.aged (aged_pass b ms), (aged_pass b ms).extends none⟩

theorem brokerInv_started (h : Started b) : BrokerInv p b := by
  obtain ⟨hchallenges, hpending, hturns, -, hresumes, hlog⟩ := h
  refine ⟨?_, ?_, ?_, ?_, ?_, ?_, ?_⟩
  · rw [hlog]
    apply Tokens.once_nil
    intro token hlive
    cases token with
    | challenge challenge =>
      obtain ⟨c, hc, -⟩ := hlive
      rw [Table.mem_def, hchallenges] at hc
      cases hc
    | receipt handle =>
      obtain ⟨x, hx, -⟩ := hlive
      rw [Table.mem_def, hpending] at hx
      cases hx
    | turn cap =>
      obtain ⟨t, ht, -⟩ := hlive
      rw [Table.mem_def, hturns] at ht
      cases ht
    | outside cap =>
      obtain ⟨r, hr, -⟩ := hlive
      rw [Table.mem_def, hresumes] at hr
      cases hr
  · rw [hlog]
    exact reasoned_nil _
  · rw [hlog]
    exact List.nodup_nil
  · intro x hx
    rw [hlog] at hx
    cases hx
  · intro c hc
    rw [Table.mem_def, hchallenges] at hc
    cases hc
  · intro x hx
    rw [Table.mem_def, hpending] at hx
    cases hx
  · intro t ht
    rw [Table.mem_def, hturns] at ht
    cases ht

/-- Back from a turn to the capsule that it came from. -/
theorem exists_admitted {log : List Event} (h : Reasoned (Reason p) log) {turn : Turn}
    {handle : Text} (hopened : .opened turn handle ∈ log) :
    ∃ pre capsule parsed admittedAt, pre ++ [.admitted capsule parsed admittedAt] <+: log ∧
      parsed.toInput = turn.input ∧ LiveCapsule p pre capsule parsed admittedAt := by
  obtain ⟨preTurn, hturn, pending, challenge, hreceived, -, hinput⟩ := h.mem hopened
  have hpreTurn : preTurn <+: log := (List.prefix_append _ _).trans hturn
  obtain ⟨preReceipt, hreceipt, capsule, parsed, time, hadmitted, -, hparsed⟩ :=
    (h.of_prefix hpreTurn).mem hreceived
  have hpreReceipt : preReceipt <+: log :=
    ((List.prefix_append _ _).trans hreceipt).trans hpreTurn
  obtain ⟨pre, hpre, hcapsule⟩ := (h.of_prefix hpreReceipt).mem hadmitted
  exact ⟨pre, capsule, parsed, time, hpre.trans hpreReceipt, hparsed.trans hinput, hcapsule⟩

theorem BrokerInv.safe (hb : BrokerInv p b) : Safe p b.log where
  accepted := hb.accepted
  used := hb.once.once
  read := by
    intro pre args time post heq
    obtain ⟨turn, handle, hopened, hcap, hbelongs, hexpiry, hclosed⟩ :=
      hb.reasoned pre (.read args time) post heq
    have hpre : pre <+: b.log := ⟨_, heq.symm⟩
    exact ⟨turn, handle, hopened, hcap, hbelongs, hexpiry, hclosed,
      exists_admitted (hb.reasoned.of_prefix hpre) hopened⟩

end Invariant

/-- **Single use**: over every interleaving in which no copy of an accepted request is looked up
    `REQUEST_MS` or more after it was accepted. -/
theorem broker_safe (p : Primitives) {s t : Requests.State Broker Request}
    {labels : List (Requests.Label Request Answer Time)}
    (hinit : ((broker p).system Started).init s)
    (hin : ((broker p).system Started).AllSteps (Requests.Meets (CopiesInTime p)) s labels)
    (hrun : ((broker p).system Started).run s labels = some t) : Safe p t.shared.log := by
  have hstart : Requests.OwnedInv (BrokerInv p) Knows own s :=
    Requests.ownedInv_init (fun _ hb => brokerInv_started hb) hinit
  exact ((keepsOwned_broker p).run hstart hin hrun).1.1.safe

/-! ## Section 7: Two keepers -/

def demoDefinition : SessionDefinitionMaterial := ⟨['d'], [], [], List.replicate 64 'd'⟩

def demoInput : Input where
  agent := ['a', 'b']
  incarnation := List.replicate 36 '0'
  session := ['s']
  member := ['m']
  admissionNonce := List.replicate 43 'n'
  method := ['P', 'O', 'S', 'T']
  path := sessionPath ++ ['s']
  rawBodyHash := List.replicate 64 'e'
  policyRevision := 1
  definitionHash := List.replicate 64 'd'

def demoCapsule : Capsule := ⟨demoInput, 1, humanPurpose, ['c'], 10000⟩

/-- A keeper whose digests are short. -/
def demo : Primitives where
  secret := ['k']
  outsideCustody := true
  hmac _ text := text.map fun c => UInt8.ofNat c.toNat
  base64url text := text.map fun c => UInt8.ofNat c.toNat
  stringify m := m.requestId
  parse bytes := if bytes = [98] then some demoCapsule else none
  hashOf d := some d.hash
  outsidePayloadHash toolName input := toolName ++ input

def fresh : Requests.State Broker Request :=
  ⟨⟨0, Table.empty, Table.empty, Table.empty, Table.empty, Table.empty, []⟩, fun _ => none⟩

def message (c : Char) (timestamp : Int) (op : Operation) : Message where
  agent := demoInput.agent
  incarnation := demoInput.incarnation
  requestId := List.replicate 32 c
  timestamp := timestamp
  op := op
  mac := List.replicate 32 c

/-- A request up to its check. -/
def arrives (id : Nat) (m : Message) : List (Requests.Label Request Answer Time) :=
  [.call id (.runtime m), .step id (.line 0 0),
    .step id (.keyFile (List.replicate 64 '0') 0 0)]

def turnArgs : TurnOpen :=
  ⟨['h'], ['s'], ['m'], List.replicate 43 'n', ['t'], 1, demoDefinition⟩

def readArgs : VaultRead where
  agent := demoInput.agent
  incarnation := demoInput.incarnation
  turnCapability := ['u']
  turnId := ['t']
  sequence := 1
  sessionId := ['s']
  memberId := ['m']
  admissionNonce := List.replicate 43 'n'
  area := .shared
  path := none
  offset := none
  home := none

def outsideArgs : OutsideCall := ⟨['s'], ['m'], List.replicate 43 'n', ['i'], ['x'], ['y'], []⟩

def reading : List (Requests.Label Request Answer Time) :=
  [.call 0 (.console demoInput), .step 0 (.line 0 0), .step 0 (.current ['c'] 0 0 0)] ++
    arrives 1 (message 'a' 0 (.requestAdmit ['b', '.', 'b']
      ⟨demoInput.method, demoInput.path, demoInput.rawBodyHash⟩)) ++
    [.step 1 (.active 0 0 0), .step 1 (.current ['h'] 0 0 0)] ++
    arrives 2 (message 'b' 0 (.turnOpen turnArgs)) ++
    [.step 2 (.active 0 0 0), .step 2 (.turnAuthority 1 [['r']] ['u'] 0)] ++
    arrives 3 (message 'c' 0 (.vaultRead readArgs)) ++ [.step 3 (.active 0 0 0), .step 3 .done]

def dispatching : List (Requests.Label Request Answer Time) :=
  arrives 4 (message 'd' 0 (.outsideApprove outsideArgs)) ++
    [.step 4 (.active 0 0 0), .step 4 (.approved 50000 1 0), .step 4 (.agreed ['o'])] ++
    arrives 5 (message 'e' 0 (.outsideExecute outsideArgs (some ['o']))) ++
    [.step 5 (.active 0 0 0), .step 5 .done]

theorem started_fresh : ((broker demo).system Started).init fresh :=
  ⟨⟨rfl, rfl, rfl, rfl, rfl, rfl⟩, fun _ => rfl⟩

/-- The read is repeated before it is forgotten. -/
def repeated : List (Requests.Label Request Answer Time) :=
  reading ++ dispatching ++ .happen 20000 :: arrives 6 (message 'c' 0 (.vaultRead readArgs))

theorem broker_safe_repeated :
    ∃ t, ((broker demo).system Started).run fresh repeated = some t ∧ Safe demo t.shared.log ∧
      .read readArgs 0 ∈ t.shared.log ∧ .dispatched ['o'] ∈ t.shared.log := by
  have hall : (((broker demo).system Started).run fresh repeated).any (fun t =>
      decide (.read readArgs 0 ∈ t.shared.log ∧ .dispatched ['o'] ∈ t.shared.log)) = true := by
    decide +kernel
  obtain ⟨t, hrun, hlog⟩ := (Option.any_eq_true _ _).1 hall
  refine ⟨t, hrun, broker_safe demo started_fresh ?_ hrun, of_decide_eq_true hlog⟩
  decide +kernel

/-- Two acceptances of one request. -/
theorem not_safe_of_twice {p : Primitives} {log : List Event} {id : Text}
    (h : (acceptances log).map Prod.fst = [id, id]) : ¬Safe p log := by
  intro hsafe
  have hnodup := hsafe.accepted
  rw [h] at hnodup
  exact (List.nodup_cons.1 hnodup).1 (List.mem_singleton.2 rfl)

/-- The timestamp is half a minute ahead, so a copy is as fresh a minute later, when the record
    has just been pruned. A copy that waits for the key file outlives the record, too. -/
theorem accepted_twice : ((broker demo).system Started).init fresh ∧
    (∃ t, ((broker demo).system Started).run fresh
        (arrives 0 (message 'a' 30000 .other) ++
          .happen 60000 :: arrives 1 (message 'a' 30000 .other)) = some t ∧
      ¬Safe demo t.shared.log) ∧
    ∃ t, ((broker demo).system Started).run fresh
        (arrives 0 (message 'a' 0 .other) ++
          [.happen 30000, .call 1 (.runtime (message 'a' 0 .other)), .step 1 (.line 0 0),
            .happen 30000, .step 1 (.keyFile (List.replicate 64 '0') 0 0)]) = some t ∧
      ¬Safe demo t.shared.log := by
  refine ⟨started_fresh, ?_, ?_⟩
  · have htwice : (((broker demo).system Started).run fresh
        (arrives 0 (message 'a' 30000 .other) ++
          .happen 60000 :: arrives 1 (message 'a' 30000 .other))).any (fun t =>
        (acceptances t.shared.log).map Prod.fst = [List.replicate 32 'a', List.replicate 32 'a']) =
          true := by
      decide +kernel
    obtain ⟨t, hrun, hlog⟩ := (Option.any_eq_true _ _).1 htwice
    exact ⟨t, hrun, not_safe_of_twice (of_decide_eq_true hlog)⟩
  · have htwice : (((broker demo).system Started).run fresh
        (arrives 0 (message 'a' 0 .other) ++
          [.happen 30000, .call 1 (.runtime (message 'a' 0 .other)), .step 1 (.line 0 0),
            .happen 30000, .step 1 (.keyFile (List.replicate 64 '0') 0 0)])).any (fun t =>
        (acceptances t.shared.log).map Prod.fst = [List.replicate 32 'a', List.replicate 32 'a']) =
          true := by
      decide +kernel
    obtain ⟨t, hrun, hlog⟩ := (Option.any_eq_true _ _).1 htwice
    exact ⟨t, hrun, not_safe_of_twice (of_decide_eq_true hlog)⟩

end Lares.Keeper
