import Lares.Proactivity.Gate

/-! # What the gate keeps to, over any run

    * **Decisions**: what is true where the decision is to send.
    * **Steps**: what one `gatedSend` can do to the ledger.
    * **Runs**: an item is sent once; a door and an owner stay below their
      ceilings; nothing is sent under DND or in the quiet hours; a send that
      threw leaves no mark.
    * **Release**: an item that nothing holds is sent, unless it serves the hold
      of a final stop.
-/

namespace Lares.Proactivity

variable {partsIn : PartsIn}

/-! ## Section 1: Wall clocks and windows -/

theorem hhmm_pad : ∀ (hour : Fin 24) (minute : Fin 60),
    hhmm (pad hour ++ ':' :: pad minute) = some (hour.val * 60 + minute.val) := by
  decide +kernel

theorem hhmm_wallClock (now : Instant) (tz : Zone) :
    hhmm (wallClock partsIn now tz) = some (partsIn now tz).minutes :=
  hhmm_pad ..

/-- Minutes `s` to `e` of the clock, over midnight where need be. -/
def Within (m s e : Int) : Prop := (m - s) % 1440 < (e - s) % 1440

theorem toMinutes_eq {text : Text} {n : Nat} (h : hhmm text = some n) : toMinutes text = n := by
  unfold toMinutes
  rw [h]
  rfl

theorem isWithinQuietHours_iff {start stop time : Text} {s e t : Nat} (hs : hhmm start = some s)
    (he : hhmm stop = some e) (ht : hhmm time = some t) :
    isWithinQuietHours time start stop = true ↔ Within t s e := by
  have hs' := hhmm_lt hs
  have he' := hhmm_lt he
  have ht' := hhmm_lt ht
  unfold isWithinQuietHours Within
  dsimp only
  rw [hs, he, ht]
  simp only [Option.isNone_some, Bool.or_false, Bool.false_eq_true, if_false]
  rw [toMinutes_eq hs, toMinutes_eq he]
  split
  · next heq =>
    simp only [Bool.false_eq_true, false_iff]
    omega
  · split
    · rw [decide_eq_true_eq]
      omega
    · rw [decide_eq_true_eq]
      omega

/-! ## Section 2: Settings -/

theorem clamp_le (value : Option Int) {engine : Int} (h : 0 ≤ engine) :
    clamp value engine ≤ engine := by
  unfold clamp
  split
  · exact le_refl _
  · omega

theorem validated_isSome (raw : Text) {engine : Text} (h : (hhmm engine).isSome) :
    (hhmm (validated raw engine)).isSome := by
  unfold validated
  split
  · assumption
  · exact h

/-- **The quiet hours are movable, not removable**: whatever the rows say, eight hours at least. -/
theorem loadSettings_window (rows : List SettingsRow) (owner agent door : Text) :
    ∃ s e : Nat, hhmm (loadSettings rows owner agent door).quietStart = some s ∧
      hhmm (loadSettings rows owner agent door).quietEnd = some e ∧
      480 ≤ ((e : Int) - s) % 1440 := by
  have hengine : hhmm ENGINE.quietStart = some 1260 ∧ hhmm ENGINE.quietEnd = some 420 := by
    decide +kernel
  unfold loadSettings
  dsimp only
  generalize hstart : validated _ ENGINE.quietStart = start
  generalize hstop : validated _ ENGINE.quietEnd = stop
  obtain ⟨s, hs⟩ := Option.isSome_iff_exists.1 (hstart ▸ validated_isSome _ (by rw [hengine.1]; rfl))
  obtain ⟨e, he⟩ := Option.isSome_iff_exists.1 (hstop ▸ validated_isSome _ (by rw [hengine.2]; rfl))
  have hs' := hhmm_lt hs
  have he' := hhmm_lt he
  rw [toMinutes_eq hs, toMinutes_eq he]
  split
  · refine ⟨1260, 420, hengine.1, hengine.2, by decide⟩
  · next hlong =>
    refine ⟨s, e, hs, he, ?_⟩
    rw [Int.tmod_eq_emod_of_nonneg (by omega)] at hlong
    unfold ENGINE.quietMinHours at hlong
    omega

theorem loadSettings_dnd (rows : List SettingsRow) (owner agent door : Text) :
    (loadSettings rows owner agent door).dnd = true ↔
      ∃ r ∈ rows, r.applies owner agent door = true ∧ r.dnd = true := by
  simp [loadSettings, and_assoc]

/-- The ceiling of a class at a door. -/
def ProactivitySettings.perDoor (s : ProactivitySettings) : InitiationClass → Option Int
  | .event => some s.eventPerDoorPerDay
  | .escalation => some s.escalationPerDoorPerDay
  | .scheduled => none

def ENGINE.perDoor : InitiationClass → Option Int
  | .event => some ENGINE.eventPerDoorPerDay
  | .escalation => some ENGINE.escalationPerDoorPerDay
  | .scheduled => none

/-- **A ceiling may only be lowered.** -/
theorem perDoor_le_engine (rows : List SettingsRow) (owner agent door : Text)
    {cls : InitiationClass} {c : Int}
    (h : (loadSettings rows owner agent door).perDoor cls = some c) :
    ∃ limit, ENGINE.perDoor cls = some limit ∧ c ≤ limit := by
  cases cls with
  | scheduled => cases h
  | event =>
    cases h
    exact ⟨_, rfl, clamp_le _ (by decide)⟩
  | escalation =>
    cases h
    exact ⟨_, rfl, clamp_le _ (by decide)⟩

theorem perOwner_le_engine (rows : List SettingsRow) (owner agent door : Text) :
    (loadSettings rows owner agent door).perOwnerPerDay ≤ ENGINE.perOwnerPerDay :=
  clamp_le _ (by decide)

/-! ## Section 3: Decisions -/

/-- What has been sent at the door in the class, on the request's day. -/
def spent (partsIn : PartsIn) (ledger : List InitiationRow) (req : InitiationRequest) : Nat :=
  ledger.countP (·.sentAt req.owner req.door (ownerDay partsIn req.now req.tz) req.cls)

/-- No rule of the fixed order stands against the request. -/
structure Allowed (partsIn : PartsIn) (rows : List SettingsRow) (ledger : List InitiationRow)
    (req : InitiationRequest) : Prop where
  /-- Nobody wants to be left alone. -/
  dnd : (loadSettings rows req.owner req.agent req.door).dnd = false
  /-- The item was not sent. -/
  unseen : ∀ r ∈ ledger, r.about req = true → r.status ≠ .sent
  /-- It is not night, or the owner has set the time. -/
  awake : req.ownerSetTime = true ∨ isWithinQuietHours (wallClock partsIn req.now req.tz)
    (loadSettings rows req.owner req.agent req.door).quietStart
    (loadSettings rows req.owner req.agent req.door).quietEnd = false
  /-- The class has room at this door. -/
  door : ∀ c, (loadSettings rows req.owner req.agent req.door).perDoor req.cls = some c →
    (spent partsIn ledger req : Int) < c
  /-- The owner has room today, for what counts. -/
  owner : req.cls ≠ .scheduled →
    (ledger.countP (·.counted req.owner (ownerDay partsIn req.now req.tz)) : Int) <
      (loadSettings rows req.owner req.agent req.door).perOwnerPerDay

theorem alreadySeen_eq_false {ledger : List InitiationRow} {req : InitiationRequest} :
    (loadLedgerState partsIn ledger req).alreadySeen = false ↔
      ∀ r ∈ ledger, r.about req = true → r.status ≠ .sent := by
  simp [loadLedgerState]

theorem decideInitiation_send (rows : List SettingsRow) (ledger : List InitiationRow)
    (req : InitiationRequest) :
    decideInitiation partsIn req (loadSettings rows req.owner req.agent req.door)
        (loadLedgerState partsIn ledger req) = .send ↔ Allowed partsIn rows ledger req := by
  generalize hs : loadSettings rows req.owner req.agent req.door = s
  unfold decideInitiation
  constructor
  · intro h
    -- Each test that was passed gives one of the parts.
    split at h
    · split at h
      · cases h
      · cases h
    next hdnd =>
    split at h
    · cases h
    next hseen =>
    split at h
    · split at h
      · cases h
      · cases h
    next hquiet =>
    refine ⟨by rw [hs]; simpa using hdnd, alreadySeen_eq_false.1 (by simpa using hseen),
      by rw [hs]; simpa [Classical.or_iff_not_imp_left] using hquiet, ?_, ?_⟩
    · -- Only the two classes with a ceiling get here.
      intro c hc
      rw [hs] at hc
      unfold ProactivitySettings.perDoor at hc
      unfold spent
      cases hcls : req.cls <;> rw [hcls] at h hc <;> cases hc <;> dsimp only at h <;>
        split at h <;> first | cases h | skip
      · next hspent => exact not_le.1 hspent
      · next hspent => exact not_le.1 hspent
    · -- A scheduled item does not count for the owner.
      intro hcls
      rw [hs]
      cases hcls' : req.cls with
      | scheduled => exact absurd hcls' hcls
      | event =>
        rw [hcls'] at h
        dsimp only at h
        split at h
        · cases h
        · split at h
          · cases h
          · next howner => exact not_le.1 howner
      | escalation =>
        rw [hcls'] at h
        dsimp only at h
        split at h
        · cases h
        · split at h
          · cases h
          · next howner => exact not_le.1 howner
  · intro h
    -- And each part passes its test.
    have hdnd := h.dnd
    have hawake := h.awake
    have hdoor := h.door
    have howner := h.owner
    rw [hs] at hdnd hawake hdoor howner
    rw [if_neg (by simp [hdnd]), if_neg (by simp [alreadySeen_eq_false.2 h.unseen]),
      if_neg (by simpa [Classical.or_iff_not_imp_left] using hawake)]
    unfold spent at hdoor
    have hboth : req.cls ≠ .scheduled →
        ¬ ((loadLedgerState partsIn ledger req).sentTodayOwner : Int) ≥ s.perOwnerPerDay :=
      fun hcls => not_le.2 (howner hcls)
    cases hcls : req.cls with
    | scheduled => rfl
    | event =>
      rw [hcls] at hdoor
      have hspent : ¬ ((loadLedgerState partsIn ledger req).sentTodayDoorEvent : Int) ≥
          s.eventPerDoorPerDay := not_le.2 (hdoor _ rfl)
      dsimp only
      rw [if_neg hspent, if_neg (hboth (by rw [hcls]; decide))]
    | escalation =>
      rw [hcls] at hdoor
      have hspent : ¬ ((loadLedgerState partsIn ledger req).sentTodayDoorEscalation : Int) ≥
          s.escalationPerDoorPerDay := not_le.2 (hdoor _ rfl)
      dsimp only
      rw [if_neg hspent, if_neg (hboth (by rw [hcls]; decide))]

/-! ## Section 4: Steps -/

/-- The holds that stand against a request, whoever asked for them. -/
def Held (ledger : List InitiationRow) (req : InitiationRequest) : Prop :=
  ∃ r ∈ ledger, r.about req = true ∧ r.status = .deferred ∧ ∃ untilAt, r.untilAt = some untilAt ∧
    req.now < untilAt

/-- A deferral has its reason and its end. -/
def HoldsOk (ledger : List InitiationRow) : Prop :=
  ∀ r ∈ ledger, r.status = .deferred →
    ∃ reason untilAt, r.reason = some reason ∧ reason ∈ DEFER_REASONS ∧ r.untilAt = some untilAt

theorem mem_openHolds {ledger : List InitiationRow} {req : InitiationRequest} {r : InitiationRow} :
    r ∈ openHolds ledger req ↔ r ∈ ledger ∧ r.about req = true ∧ r.status = .deferred ∧
      ∃ untilAt, r.untilAt = some untilAt ∧ req.now < untilAt := by
  simp [openHolds, Option.any_eq_true, and_assoc]

theorem limitOne_mem {choice : Nat} {rows : List InitiationRow} {r : InitiationRow}
    (h : limitOne choice rows = some r) : r ∈ rows := List.mem_of_getElem? h

theorem limitOne_isSome (choice : Nat) {rows : List InitiationRow} (h : rows ≠ []) :
    ∃ r, limitOne choice rows = some r := by
  have hlt : choice % rows.length < rows.length := Nat.mod_lt _ (List.length_pos_iff.2 h)
  exact ⟨_, List.getElem?_eq_getElem hlt⟩

/-- Some hold ends last. -/
theorem last_hold {rows : List InitiationRow} (h : rows ≠ []) :
    (rows.filter fun r => rows.all fun other => other.untilAt.getD 0 ≤ r.untilAt.getD 0) ≠ [] := by
  obtain ⟨r, hr, hmax⟩ := rows.toFinset.exists_max_image (fun r => r.untilAt.getD 0)
    (List.toFinset_nonempty_iff rows |>.2 h)
  rw [List.mem_toFinset] at hr
  intro hnil
  have hmem : r ∈ rows.filter fun r => rows.all fun other =>
      other.untilAt.getD 0 ≤ r.untilAt.getD 0 := by
    refine List.mem_filter.2 ⟨hr, List.all_eq_true.2 ?_⟩
    exact fun other hother => decide_eq_true (hmax other (List.mem_toFinset.2 hother))
  rw [hnil] at hmem
  cases hmem

/-- An item serves a hold if it has one that has not ended. -/
theorem openDeferral_isSome {ledger : List InitiationRow} (hok : HoldsOk ledger)
    (req : InitiationRequest) (choice : Nat) :
    (openDeferral ledger req choice).isSome = true ↔ Held ledger req := by
  constructor
  · intro h
    obtain ⟨hold, hhold⟩ := Option.isSome_iff_exists.1 h
    unfold openDeferral at hhold
    dsimp only at hhold
    split at hhold
    · next r reason untilAt hpick =>
      have hmem := (List.mem_filter.1 (limitOne_mem hpick)).1
      exact ⟨_, mem_openHolds.1 hmem⟩
    · cases hhold
  · rintro ⟨r, hr, hopen⟩
    have hne : openHolds ledger req ≠ [] := List.ne_nil_of_mem (mem_openHolds.2 ⟨hr, hopen⟩)
    obtain ⟨last, hlast⟩ := limitOne_isSome choice (last_hold hne)
    have hmem := mem_openHolds.1 (List.mem_filter.1 (limitOne_mem hlast)).1
    obtain ⟨reason, untilAt, hreason, hdefer, huntil⟩ := hok last hmem.1 hmem.2.2.1
    unfold openDeferral
    dsimp only
    rw [hlast]
    cases last
    dsimp only at hreason huntil
    subst hreason huntil
    dsimp only
    rw [if_pos hdefer]
    rfl

/-- The row of a send that has succeeded. -/
def sentRow (partsIn : PartsIn) (req : InitiationRequest) : InitiationRow where
  owner := req.owner
  agent := req.agent
  door := req.door
  cls := req.cls
  itemKey := req.itemKey
  status := .sent
  reason := none
  untilAt := none
  ownerDay := ownerDay partsIn req.now req.tz

/-- Everything that one `gatedSend` can do. -/
inductive Sends (partsIn : PartsIn) (s : State) (req : InitiationRequest) (throws : Bool) :
    State → Prop
  | stay (hheld : Held s.ledger req ∨ ¬ Allowed partsIn s.settings s.ledger req) :
      Sends partsIn s req throws s
  | hold (r : InitiationRow) (hheld : ¬ Allowed partsIn s.settings s.ledger req)
      (hsent : r.status ≠ .sent) (hok : r.status = .deferred →
        ∃ reason untilAt, r.reason = some reason ∧ reason ∈ DEFER_REASONS ∧
          r.untilAt = some untilAt) :
      Sends partsIn s req throws { s with ledger := s.ledger ++ [r] }
  | send (hfree : ¬ Held s.ledger req) (hallowed : Allowed partsIn s.settings s.ledger req) :
      Sends partsIn s req throws { s with
        ledger := if throws then s.ledger else s.ledger ++ [sentRow partsIn req]
        sendings := s.sendings ++ [⟨req, s.settings, throws⟩] }

theorem ceilings_defer {spent both doorCeiling ownerCeiling : Int} {next untilAt : Instant}
    {reason : Reason}
    (h : (if spent ≥ doorCeiling then Decision.defer .doorCeiling next
      else if both ≥ ownerCeiling then .defer .ownerCeiling next else .send) =
        .defer reason untilAt) : reason ∈ DEFER_REASONS := by
  split at h
  · cases h
    decide
  · split at h
    · cases h
      decide
    · cases h

theorem decideInitiation_defer {req : InitiationRequest} {settings : ProactivitySettings}
    {state : LedgerState} {reason : Reason} {untilAt : Instant}
    (h : decideInitiation partsIn req settings state = .defer reason untilAt) :
    reason ∈ DEFER_REASONS := by
  unfold decideInitiation at h
  split at h
  · split at h
    · cases h
      decide
    · cases h
  split at h
  · cases h
  split at h
  · split at h
    · cases h
    · cases h
      decide
  cases hcls : req.cls with
  | scheduled =>
    rw [hcls] at h
    cases h
  | event =>
    rw [hcls] at h
    exact ceilings_defer h
  | escalation =>
    rw [hcls] at h
    exact ceilings_defer h

/-- **One `gatedSend`.** -/
theorem gatedSend_sends (s : State) (hok : HoldsOk s.ledger) (req : InitiationRequest)
    (choice : Choice) (throws : Bool) :
    Sends partsIn s req throws (s.gatedSend partsIn req choice throws) := by
  have hopen := openDeferral_isSome hok req choice.hold
  unfold State.gatedSend gateInitiation
  cases hhold : openDeferral s.ledger req choice.hold with
  | some hold =>
    rw [hhold] at hopen
    exact .stay (.inl (hopen.1 rfl))
  | none =>
    rw [hhold] at hopen
    have hfree : ¬ Held s.ledger req := fun h => by cases hopen.2 h
    dsimp only
    cases hdecision : decideInitiation partsIn req
        (loadSettings s.settings req.owner req.agent req.door)
        (loadLedgerState partsIn s.ledger req) with
    | send => exact .send hfree ((decideInitiation_send ..).1 hdecision)
    | suppress reason =>
      have hheld : ¬ Allowed partsIn s.settings s.ledger req := by
        rw [← decideInitiation_send, hdecision]
        exact fun h => by cases h
      dsimp only
      by_cases hsame : sameDaySuppression partsIn s.ledger req choice.suppression = some reason
      · rw [if_pos hsame]
        exact .stay (.inr hheld)
      · rw [if_neg hsame]
        exact .hold _ hheld nofun nofun
    | defer reason untilAt =>
      have hheld : ¬ Allowed partsIn s.settings s.ledger req := by
        rw [← decideInitiation_send, hdecision]
        exact fun h => by cases h
      refine .hold _ hheld nofun ?_
      exact fun _ => ⟨reason, untilAt, rfl, decideInitiation_defer hdecision, rfl⟩

/-! ## Section 5: Runs -/

/-- The item has been sent. -/
def InitiationRow.sentItem (owner agent itemKey : Text) (r : InitiationRow) : Bool :=
  r.owner == owner && r.agent == agent && r.itemKey == itemKey && r.status == .sent

structure GateInv (partsIn : PartsIn) (s : State) : Prop where
  /-- A hold has its reason and its end. -/
  holds : HoldsOk s.ledger
  /-- What is marked sent is what was sent and did not throw. -/
  marked : s.ledger.filter (·.status == .sent) =
    (s.sendings.filter fun x => !x.threw).map (sentRow partsIn ·.req)
  /-- An item is sent once. -/
  once : ∀ owner agent itemKey, s.ledger.countP (·.sentItem owner agent itemKey) ≤ 1
  /-- No door is over its ceiling. -/
  perDoor : ∀ owner door day cls limit, ENGINE.perDoor cls = some limit →
    (s.ledger.countP (·.sentAt owner door day cls) : Int) ≤ limit
  /-- No owner is. -/
  perOwner : ∀ owner day, (s.ledger.countP (·.counted owner day) : Int) ≤ ENGINE.perOwnerPerDay
  /-- Whatever left was allowed when it left. -/
  allowed : ∀ x ∈ s.sendings, ∃ ledger, Allowed partsIn x.rows ledger x.req

/-- A ceiling that the new row stays below. -/
theorem countP_snoc_le {p : InitiationRow → Bool} {ledger : List InitiationRow} {r : InitiationRow}
    {limit : Int} (h : (ledger.countP p : Int) ≤ limit)
    (hr : p r = true → (ledger.countP p : Int) < limit) :
    ((ledger ++ [r]).countP p : Int) ≤ limit := by
  rw [List.countP_append, List.countP_singleton]
  by_cases hp : p r = true
  · rw [if_pos hp]
    have := hr hp
    omega
  · rw [if_neg hp]
    omega

theorem countP_snoc_hold {p : InitiationRow → Bool} {ledger : List InitiationRow}
    {r : InitiationRow} (hr : p r = false) : (ledger ++ [r]).countP p = ledger.countP p := by
  rw [List.countP_append, List.countP_singleton, hr]
  rfl

theorem sentAt_hold {r : InitiationRow} (h : r.status ≠ .sent) (owner door : Text) (day : Day)
    (cls : InitiationClass) : r.sentAt owner door day cls = false := by
  simp [InitiationRow.sentAt, h]

theorem counted_hold {r : InitiationRow} (h : r.status ≠ .sent) (owner : Text) (day : Day) :
    r.counted owner day = false := by
  simp [InitiationRow.counted, h]

theorem sentItem_hold {r : InitiationRow} (h : r.status ≠ .sent) (owner agent itemKey : Text) :
    r.sentItem owner agent itemKey = false := by
  simp [InitiationRow.sentItem, h]

/-- A send that is counted at a door was below the ceiling there. -/
theorem Allowed.sentAt {rows : List SettingsRow} {ledger : List InitiationRow}
    {req : InitiationRequest} (h : Allowed partsIn rows ledger req) {owner door : Text} {day : Day}
    {cls : InitiationClass} {c : Int}
    (hceiling : (loadSettings rows req.owner req.agent req.door).perDoor cls = some c)
    (hr : (sentRow partsIn req).sentAt owner door day cls = true) :
    (ledger.countP (·.sentAt owner door day cls) : Int) < c := by
  simp only [InitiationRow.sentAt, sentRow, Bool.and_eq_true, beq_iff_eq] at hr
  obtain ⟨⟨⟨⟨rfl, rfl⟩, rfl⟩, -⟩, rfl⟩ := hr
  exact h.door c hceiling

theorem Allowed.counted {rows : List SettingsRow} {ledger : List InitiationRow}
    {req : InitiationRequest} (h : Allowed partsIn rows ledger req) {owner : Text} {day : Day}
    (hr : (sentRow partsIn req).counted owner day = true) :
    (ledger.countP (·.counted owner day) : Int) < ENGINE.perOwnerPerDay := by
  simp only [InitiationRow.counted, sentRow, Bool.and_eq_true, Bool.or_eq_true, beq_iff_eq] at hr
  obtain ⟨⟨⟨rfl, rfl⟩, -⟩, hcls⟩ := hr
  have hlt := h.owner (by rcases hcls with hcls | hcls <;> rw [hcls] <;> decide)
  exact lt_of_lt_of_le hlt (perOwner_le_engine ..)

theorem Allowed.unsent {rows : List SettingsRow} {ledger : List InitiationRow}
    {req : InitiationRequest} (h : Allowed partsIn rows ledger req) {owner agent itemKey : Text}
    (hr : (sentRow partsIn req).sentItem owner agent itemKey = true) :
    ledger.countP (·.sentItem owner agent itemKey) = 0 := by
  simp only [InitiationRow.sentItem, sentRow, Bool.and_eq_true, beq_iff_eq] at hr
  obtain ⟨⟨⟨rfl, rfl⟩, rfl⟩, -⟩ := hr
  refine List.countP_eq_zero.2 ?_
  intro r hmem hsent
  simp only [InitiationRow.sentItem, Bool.and_eq_true, beq_iff_eq] at hsent
  refine h.unseen r hmem ?_ hsent.2
  simp only [InitiationRow.about, Bool.and_eq_true, beq_iff_eq]
  exact hsent.1

theorem GateInv.sends {s t : State} {req : InitiationRequest} {throws : Bool}
    (h : GateInv partsIn s) (hstep : Sends partsIn s req throws t) : GateInv partsIn t := by
  cases hstep with
  | stay _ => exact h
  | hold r hheld hsent hok =>
    -- A hold is not marked sent, so no count changes.
    refine ⟨?_, ?_, ?_, ?_, ?_, h.allowed⟩
    · intro row hmem hstatus
      rcases List.mem_append.1 hmem with hmem | hmem
      · exact h.holds row hmem hstatus
      · rw [List.mem_singleton] at hmem
        subst hmem
        exact hok hstatus
    · rw [List.filter_append, h.marked]
      simp [hsent]
    · intro owner agent itemKey
      rw [countP_snoc_hold (sentItem_hold hsent owner agent itemKey)]
      exact h.once owner agent itemKey
    · intro owner door day cls limit hlimit
      rw [countP_snoc_hold (sentAt_hold hsent owner door day cls)]
      exact h.perDoor owner door day cls limit hlimit
    · intro owner day
      rw [countP_snoc_hold (counted_hold hsent owner day)]
      exact h.perOwner owner day
  | send hfree hallowed =>
    have hsendings : ∀ x ∈ s.sendings ++ [⟨req, s.settings, throws⟩],
        ∃ ledger, Allowed partsIn x.rows ledger x.req := by
      intro x hmem
      rcases List.mem_append.1 hmem with hmem | hmem
      · exact h.allowed x hmem
      · rw [List.mem_singleton] at hmem
        subst hmem
        exact ⟨s.ledger, hallowed⟩
    cases throws with
    | true =>
      -- The door has thrown: the ledger stays, and nothing is marked.
      refine ⟨h.holds, ?_, h.once, h.perDoor, h.perOwner, hsendings⟩
      rw [List.filter_append]
      simpa using h.marked
    | false =>
      -- One row is marked sent. Each count was below its ceiling, for it was allowed.
      refine ⟨?_, ?_, ?_, ?_, ?_, hsendings⟩
      · intro row hmem hstatus
        rcases List.mem_append.1 hmem with hmem | hmem
        · exact h.holds row hmem hstatus
        · rw [List.mem_singleton] at hmem
          subst hmem
          cases hstatus
      · show (s.ledger ++ [sentRow partsIn req]).filter _ = _
        rw [List.filter_append, List.filter_append, List.map_append, h.marked]
        rfl
      · intro owner agent itemKey
        show (s.ledger ++ [sentRow partsIn req]).countP _ ≤ 1
        have hle : ((s.ledger ++ [sentRow partsIn req]).countP
            (·.sentItem owner agent itemKey) : Int) ≤ 1 := by
          refine countP_snoc_le (by exact_mod_cast h.once owner agent itemKey) ?_
          intro hr
          rw [hallowed.unsent hr]
          decide
        exact_mod_cast hle
      · intro owner door day cls limit hlimit
        refine countP_snoc_le (h.perDoor owner door day cls limit hlimit) ?_
        intro hr
        obtain ⟨c, hc⟩ : ∃ c, (loadSettings s.settings req.owner req.agent req.door).perDoor cls =
            some c := by
          cases cls with
          | scheduled => cases hlimit
          | event => exact ⟨_, rfl⟩
          | escalation => exact ⟨_, rfl⟩
        obtain ⟨limit', hlimit', hle⟩ := perDoor_le_engine _ _ _ _ hc
        rw [hlimit] at hlimit'
        cases hlimit'
        exact lt_of_lt_of_le (hallowed.sentAt hc hr) hle
      · intro owner day
        exact countP_snoc_le (h.perOwner owner day) fun hr => hallowed.counted hr

theorem gateInv_step {s t : State} {label : Label} (h : GateInv partsIn s)
    (hstep : (gate partsIn).next s label = some t) : GateInv partsIn t := by
  cases label with
  | gatedSend req choice throws =>
    cases hstep
    exact h.sends (gatedSend_sends s h.holds req choice throws)
  | settings rows =>
    cases hstep
    exact ⟨h.holds, h.marked, h.once, h.perDoor, h.perOwner, h.allowed⟩

theorem gateInv_init {s : State} (h : (gate partsIn).init s) : GateInv partsIn s := by
  obtain ⟨hledger, hsendings⟩ := h
  refine ⟨?_, ?_, ?_, ?_, ?_, ?_⟩
  · intro r hmem
    rw [hledger] at hmem
    cases hmem
  · rw [hledger, hsendings]
    rfl
  · intro owner agent itemKey
    rw [hledger]
    exact Nat.zero_le 1
  · intro owner door day cls limit hlimit
    rw [hledger, List.countP_nil]
    cases cls <;> cases hlimit <;> decide
  · intro owner day
    rw [hledger, List.countP_nil]
    decide
  · intro x hmem
    rw [hsendings] at hmem
    cases hmem

/-- The sends of a class at a door are made under a ceiling of `c` at most. -/
def Stands (owner door : Text) (cls : InitiationClass) (c : Int) (s : State) : Label → Prop
  | .gatedSend req _ _ => req.owner = owner → req.door = door → ∀ limit,
      (loadSettings s.settings req.owner req.agent req.door).perDoor cls = some limit → limit ≤ c
  | .settings _ => True

/-- A row that counts at a door is of its owner and door, and of a class with a ceiling. -/
theorem sentAt_sentRow {req : InitiationRequest} {owner door : Text} {day : Day}
    {cls : InitiationClass} (h : (sentRow partsIn req).sentAt owner door day cls = true) :
    req.owner = owner ∧ req.door = door := by
  simp only [InitiationRow.sentAt, sentRow, Bool.and_eq_true, beq_iff_eq] at h
  exact ⟨h.1.1.1.1, h.1.1.1.2⟩

/-- **While a setting stands**, no more is sent than it allows. -/
theorem standing_run {t u : State} {ms : List Label} {owner door : Text} {cls : InitiationClass}
    {c : Int} (hcls : cls ≠ .scheduled) (ht : GateInv partsIn t)
    (hstands : (gate partsIn).AllSteps (Stands owner door cls c) t ms)
    (hu : (gate partsIn).run t ms = some u) (day : Day) :
    (u.ledger.countP (·.sentAt owner door day cls) : Int) ≤
      max (t.ledger.countP (·.sentAt owner door day cls) : Int) c := by
  have both : GateInv partsIn u ∧ (u.ledger.countP (·.sentAt owner door day cls) : Int) ≤
      max (t.ledger.countP (·.sentAt owner door day cls) : Int) c := by
    refine (gate partsIn).run_invariant_of_allSteps (I := fun v => GateInv partsIn v ∧
      (v.ledger.countP (·.sentAt owner door day cls) : Int) ≤
        max (t.ledger.countP (·.sentAt owner door day cls) : Int) c) ?_
      ⟨ht, le_max_left ..⟩ hstands hu
    intro s label v ⟨hinv, hle⟩ hlabel hstep
    refine ⟨gateInv_step hinv hstep, ?_⟩
    cases label with
    | settings rows =>
      cases hstep
      exact hle
    | gatedSend req choice throws =>
      cases hstep
      have hsends : Sends partsIn s req throws _ := gatedSend_sends s hinv.holds req choice throws
      generalize s.gatedSend partsIn req choice throws = v at hsends
      cases hsends with
      | stay _ => exact hle
      | hold r _ hsent _ =>
        rw [countP_snoc_hold (sentAt_hold hsent owner door day cls)]
        exact hle
      | send hfree hallowed =>
        cases throws with
        | true => exact hle
        | false =>
          refine countP_snoc_le hle ?_
          intro hr
          obtain ⟨howner, hdoor⟩ := sentAt_sentRow hr
          obtain ⟨limit, hlimit⟩ : ∃ limit,
              (loadSettings s.settings req.owner req.agent req.door).perDoor cls = some limit := by
            cases cls with
            | scheduled => exact absurd rfl hcls
            | event => exact ⟨_, rfl⟩
            | escalation => exact ⟨_, rfl⟩
          have hlt := hallowed.sentAt hlimit hr
          exact lt_of_lt_of_le hlt ((hlabel howner hdoor limit hlimit).trans (le_max_right ..))
  exact both.2

/-! ## Section 6: The gate -/

/-- A hold of a final stop that was asked for under DND and has not ended. -/
def FinalStopHeld (ledger : List InitiationRow) (req : InitiationRequest) : Prop :=
  ∃ r ∈ ledger, r.about req = true ∧ r.status = .deferred ∧ r.reason = some .dndFinalStop ∧
    ∃ untilAt, r.untilAt = some untilAt ∧ req.now < untilAt

/-- DND is off, and no other rule holds the item. -/
structure Released (partsIn : PartsIn) (s : State) (req : InitiationRequest) : Prop where
  allowed : Allowed partsIn s.settings s.ledger req
  holds : ∀ r ∈ s.ledger, r.about req = true → r.status = .deferred →
    (∃ untilAt, r.untilAt = some untilAt ∧ req.now < untilAt) → r.reason = some .dndFinalStop

/-- What the gate keeps to, in a state `u` that `t` has come to by `ms`. -/
structure GateSafe (partsIn : PartsIn) (t u : State) (ms : List Label) : Prop where
  /-- An item is marked sent once. -/
  once : ∀ owner agent itemKey, u.ledger.countP (·.sentItem owner agent itemKey) ≤ 1
  /-- The ceilings of the engine. -/
  events : ∀ owner door day, u.ledger.countP (·.sentAt owner door day .event) ≤ 20
  escalations : ∀ owner door day, u.ledger.countP (·.sentAt owner door day .escalation) ≤ 3
  /-- What counts, for one owner and day. -/
  owner : ∀ owner day, u.ledger.countP (·.counted owner day) ≤ 30
  /-- While the ceilings of a door stood at `c` at most. -/
  standing : ∀ owner door day cls c, cls ≠ .scheduled →
    (gate partsIn).AllSteps (Stands owner door cls c) t ms →
      (u.ledger.countP (·.sentAt owner door day cls) : Int) ≤
        max (t.ledger.countP (·.sentAt owner door day cls) : Int) c
  /-- Nothing is sent to who is not to be disturbed. -/
  dnd : ∀ x ∈ u.sendings, ∀ r ∈ x.rows, r.applies x.req.owner x.req.agent x.req.door = true →
    r.dnd = false
  /-- The window that is in effect is eight hours at least, and nothing is sent inside it. -/
  quiet : ∀ x ∈ u.sendings, ∃ s e : Nat,
    hhmm (loadSettings x.rows x.req.owner x.req.agent x.req.door).quietStart = some s ∧
    hhmm (loadSettings x.rows x.req.owner x.req.agent x.req.door).quietEnd = some e ∧
    480 ≤ ((e : Int) - s) % 1440 ∧
    (x.req.ownerSetTime = false → ¬ Within (partsIn x.req.now x.req.tz).minutes s e)
  /-- Exactly the sends that did not throw are marked. -/
  marked : u.ledger.filter (·.status == .sent) =
    (u.sendings.filter fun x => !x.threw).map (sentRow partsIn ·.req)
  /-- What nothing else holds is let through, but for a final stop that DND has held. -/
  released : ∀ req choice throws v, Released partsIn u req →
    (gate partsIn).next u (.gatedSend req choice throws) = some v →
      (v.sendings = u.sendings ++ [⟨req, u.settings, throws⟩] ↔ ¬ FinalStopHeld u.ledger req)

theorem Allowed.quiet {rows : List SettingsRow} {ledger : List InitiationRow}
    {req : InitiationRequest} (h : Allowed partsIn rows ledger req) : ∃ s e : Nat,
    hhmm (loadSettings rows req.owner req.agent req.door).quietStart = some s ∧
    hhmm (loadSettings rows req.owner req.agent req.door).quietEnd = some e ∧
    480 ≤ ((e : Int) - s) % 1440 ∧
    (req.ownerSetTime = false → ¬ Within (partsIn req.now req.tz).minutes s e) := by
  obtain ⟨s, e, hs, he, hspan⟩ := loadSettings_window rows req.owner req.agent req.door
  refine ⟨s, e, hs, he, hspan, ?_⟩
  intro hset hwithin
  rw [← isWithinQuietHours_iff hs he (hhmm_wallClock req.now req.tz)] at hwithin
  rcases h.awake with howner | hawake
  · rw [hset] at howner
    cases howner
  · rw [hwithin] at hawake
    cases hawake

/-- An item that nothing else holds is sent at once, or waits for the end of a final stop's hold. -/
theorem released_sends {s t : State} {req : InitiationRequest} {throws : Bool}
    (h : Released partsIn s req) (hstep : Sends partsIn s req throws t) :
    t.sendings = s.sendings ++ [⟨req, s.settings, throws⟩] ↔ ¬ FinalStopHeld s.ledger req := by
  cases hstep with
  | stay hheld =>
    have hne : s.sendings ≠ s.sendings ++ [⟨req, s.settings, throws⟩] := by simp
    refine ⟨fun heq => absurd heq hne, ?_⟩
    intro hnot
    obtain ⟨r, hr, habout, hstatus, hend⟩ := hheld.resolve_right (not_not_intro h.allowed)
    exact absurd ⟨r, hr, habout, hstatus, h.holds r hr habout hstatus hend, hend⟩ hnot
  | hold r hheld => exact absurd h.allowed hheld
  | send hfree hallowed =>
    refine ⟨?_, fun _ => rfl⟩
    rintro - ⟨r, hr, habout, hstatus, -, hend⟩
    exact hfree ⟨r, hr, habout, hstatus, hend⟩

/-- **The proactivity gate**, over any run of calls one after another and any settings. -/
theorem gate_safe (partsIn : PartsIn) {s t u : State} {ls ms : List Label}
    (hinit : (gate partsIn).init s) (ht : (gate partsIn).run s ls = some t)
    (hu : (gate partsIn).run t ms = some u) : GateSafe partsIn t u ms := by
  have hstep : ∀ s label t, GateInv partsIn s → (gate partsIn).next s label = some t →
      GateInv partsIn t := fun _ _ _ h hnext => gateInv_step h hnext
  have hinv : GateInv partsIn t := (gate partsIn).run_invariant hstep (gateInv_init hinit) ht
  have hinv' : GateInv partsIn u := (gate partsIn).run_invariant hstep hinv hu
  refine ⟨hinv'.once, ?_, ?_, ?_, ?_, ?_, ?_, hinv'.marked, ?_⟩
  · intro owner door day
    exact Int.ofNat_le.1 (hinv'.perDoor owner door day .event _ rfl)
  · intro owner door day
    exact Int.ofNat_le.1 (hinv'.perDoor owner door day .escalation _ rfl)
  · intro owner day
    exact Int.ofNat_le.1 (hinv'.perOwner owner day)
  · exact fun owner door day cls c hcls hstands => standing_run hcls hinv hstands hu day
  · -- The settings were read before the send, with this row among them.
    intro x hx r hr happlies
    obtain ⟨ledger, hallowed⟩ := hinv'.allowed x hx
    by_contra hdnd
    have hon := (loadSettings_dnd x.rows x.req.owner x.req.agent x.req.door).2
      ⟨r, hr, happlies, by simpa using hdnd⟩
    rw [hallowed.dnd] at hon
    cases hon
  · intro x hx
    obtain ⟨ledger, hallowed⟩ := hinv'.allowed x hx
    exact hallowed.quiet
  · -- What nothing holds is let through in this very step.
    intro req choice throws v hreleased hnext
    cases hnext
    exact released_sends hreleased (gatedSend_sends u hinv'.holds req choice throws)

/-! ## Section 7: A final stop -/

/-- UTC. -/
def utc : PartsIn := fun now _ =>
  ⟨now / 86400000, Fin.ofNat 24 (now / 3600000 % 24).toNat, Fin.ofNat 60 (now / 60000 % 60).toNat⟩

/-- The last rung of a ladder, at noon of the first day. -/
def finalStop : InitiationRequest where
  owner := ['o']
  agent := ['a']
  door := ['d']
  cls := .escalation
  itemKey := ['i']
  now := 43200000
  tz := ['z']
  ownerSetTime := false
  finalStop := true

def dndRow : SettingsRow := ⟨['o'], ['*'], ['*'], none, none, none, none, none, true⟩

def calm : State := ⟨[], [], []⟩

/-- DND on, the item is asked for, DND off again. -/
def underDnd : List Label := [.settings [dndRow], .gatedSend finalStop ⟨0, 0⟩ false, .settings []]

def afternoon : List Label := [.gatedSend { finalStop with now := 86400000 * 3 / 2 } ⟨0, 0⟩ false]

/-- The next day it is sent. -/
theorem gate_safe_calm : ∃ t u, (gate utc).run calm underDnd = some t ∧
    (gate utc).run t afternoon = some u ∧ GateSafe utc t u afternoon ∧
    u.sendings.length = 1 := by
  have hrun : (gate utc).run calm underDnd = some _ := rfl
  refine ⟨_, _, hrun, rfl, gate_safe utc ⟨rfl, rfl⟩ hrun rfl, ?_⟩
  decide +kernel

/-- The hold that DND has left. -/
def stopRow : InitiationRow :=
  ⟨['o'], ['a'], ['d'], .escalation, ['i'], .deferred, some .dndFinalStop, some 86400000, 0⟩

/-- DND alone held the item, and it is not let through when DND is off. -/
theorem finalStop_not_released : (gate utc).init calm ∧
    ∃ t u, (gate utc).run calm underDnd = some t ∧
      (gate utc).next t (.gatedSend finalStop ⟨0, 0⟩ false) = some u ∧
      Released utc t finalStop ∧ t.ledger = [stopRow] ∧ u.sendings = [] := by
  have hrow : ∀ r ∈ [stopRow], r = stopRow := fun r hr => List.mem_singleton.1 hr
  refine ⟨⟨rfl, rfl⟩, ⟨[], [stopRow], []⟩, ⟨[], [stopRow], []⟩, ?_, ?_, ⟨⟨?_, ?_, ?_, ?_, ?_⟩, ?_⟩,
    rfl, rfl⟩
  · decide +kernel
  · decide +kernel
  · decide +kernel
  · intro r hr _
    rw [hrow r hr]
    decide
  · right
    decide +kernel
  · intro c hc
    rw [show (loadSettings [] finalStop.owner finalStop.agent finalStop.door).perDoor
      finalStop.cls = some 3 from rfl] at hc
    cases hc
    decide +kernel
  · intro _
    decide +kernel
  · intro r hr _ _ _
    rw [hrow r hr]
    rfl

end Lares.Proactivity
