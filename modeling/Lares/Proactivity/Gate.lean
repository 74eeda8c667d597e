import Lares.Framework.System
import Mathlib

/-! # The proactivity gate

    `gatedSend`: read the settings and the ledger, decide, record a new hold,
    send, and record the send once it has succeeded.

    * **The owner's clock** is `Intl.DateTimeFormat`'s; a day is counted from
      the epoch.
    * **The ledger** is `initiations`, oldest row first.
    * Of the rows that a `LIMIT 1` leaves open, the label picks one.
-/

namespace Lares.Proactivity

abbrev Text := List Char
abbrev Zone := Text
/-- Milliseconds. -/
abbrev Instant := Int
/-- A calendar day. -/
abbrev Day := Int

/-! ## Section 1: The owner's clock -/

structure Parts where
  date : Day
  hour : Fin 24
  minute : Fin 60

/-- Minutes since midnight. -/
def Parts.minutes (p : Parts) : Nat := p.hour.val * 60 + p.minute.val

/-- `partsIn`, of `Intl.DateTimeFormat` -/
abbrev PartsIn := Instant → Zone → Parts

/-- `HHMM`, with the minutes that `toMinutes` reads. -/
def hhmm : Text → Option Nat
  | [a, b, ':', c, d] =>
      if ((a = '0' ∨ a = '1') ∧ b.isDigit ∨ a = '2' ∧ '0' ≤ b ∧ b ≤ '3') ∧
          '0' ≤ c ∧ c ≤ '5' ∧ d.isDigit then
        some ((10 * (a.toNat - 48) + (b.toNat - 48)) * 60 + (10 * (c.toNat - 48) + (d.toNat - 48)))
      else none
  | _ => none

/-- `HH:MM` is a minute of the day. -/
theorem hhmm_lt {time : Text} {m : Nat} (h : hhmm time = some m) : m < 1440 := by
  unfold hhmm at h
  split at h
  · next a b c d =>
    split at h
    · next hform =>
      obtain ⟨hhour, -, hc, hd⟩ := hform
      have htens : c.toNat ≤ 53 := hc
      have hones : d.toNat ≤ 57 := (Char.isDigit_iff_toNat.1 hd).2
      have hhours : 10 * (a.toNat - 48) + (b.toNat - 48) ≤ 23 := by
        rcases hhour with ⟨rfl | rfl, hb⟩ | ⟨rfl, -, hb⟩
        · have hb' : b.toNat ≤ 57 := (Char.isDigit_iff_toNat.1 hb).2
          simp only [Char.reduceToNat]
          omega
        · have hb' : b.toNat ≤ 57 := (Char.isDigit_iff_toNat.1 hb).2
          simp only [Char.reduceToNat]
          omega
        · have hb' : b.toNat ≤ 51 := hb
          simp only [Char.reduceToNat]
          omega
      have hm := Option.some.inj h
      omega
    · cases h
  · cases h

def digit (n : Nat) : Char := Char.ofNat (48 + n)

/-- Two digits. -/
def pad (n : Nat) : Text := [digit (n / 10), digit (n % 10)]

variable (partsIn : PartsIn)

def ownerDay (now : Instant) (tz : Zone) : Day := (partsIn now tz).date

def wallClock (now : Instant) (tz : Zone) : Text :=
  pad (partsIn now tz).hour ++ ':' :: pad (partsIn now tz).minute

def toMinutes (text : Text) : Int := ((hhmm text).getD 0 : Nat)

/-- One correction of `instantAt`; once it reads the target nothing changes. -/
def instantAtStep (target : Int) (tz : Zone) (guess : Int) : Int :=
  let p := partsIn guess tz
  let reads := p.date * 1440 + p.minutes
  guess - (reads - target) * 60000

def instantAt (date : Day) (time : Text) (tz : Zone) : Instant :=
  let target := date * 1440 + toMinutes time
  (instantAtStep partsIn target tz)^[3] (target * 60000)

def nextOwnerDayStart (now : Instant) (tz : Zone) : Instant :=
  instantAt partsIn (ownerDay partsIn now tz + 1) "00:00".toList tz

def nextQuietEnd (now : Instant) (tz : Zone) (quietEnd : Text) : Instant :=
  let today := instantAt partsIn (ownerDay partsIn now tz) quietEnd tz
  if today > now then today
  else instantAt partsIn (ownerDay partsIn now tz + 1) quietEnd tz

/-! ## Section 2: Requests and settings -/

inductive InitiationClass where
  | scheduled | event | escalation
  deriving DecidableEq

structure InitiationRequest where
  owner : Text
  agent : Text
  door : Text
  /-- What counts against which ceiling. -/
  cls : InitiationClass
  /-- What it is about; an item is sent once. -/
  itemKey : Text
  now : Instant
  tz : Zone
  /-- The owner has asked for this very time, so it may come at night. -/
  ownerSetTime : Bool
  /-- The last word of a ladder: who is not to be disturbed gets it later. -/
  finalStop : Bool
  deriving DecidableEq

structure ProactivitySettings where
  /-- `HH:MM`, on the owner's clock. -/
  quietStart : Text
  quietEnd : Text
  eventPerDoorPerDay : Int
  escalationPerDoorPerDay : Int
  perOwnerPerDay : Int
  /-- Nothing is sent at all. -/
  dnd : Bool
  deriving DecidableEq

namespace ENGINE

def quietStart : Text := "21:00".toList
def quietEnd : Text := "07:00".toList
def quietMinHours : Int := 8
def eventPerDoorPerDay : Int := 20
def escalationPerDoorPerDay : Int := 3
def perOwnerPerDay : Int := 30

end ENGINE

/-- A row of `proactivity_settings`. -/
structure SettingsRow where
  owner : Text
  agent : Text
  door : Text
  /-- `NULL` where this row says nothing of it, and so below. -/
  quietStart : Option Text
  quietEnd : Option Text
  eventPerDoorPerDay : Option Int
  escalationPerDoorPerDay : Option Int
  perOwnerPerDay : Option Int
  dnd : Bool
  deriving DecidableEq

def clamp (value : Option Int) (engine : Int) : Int :=
  match value with
  | none => engine
  | some value => max 0 (min value engine)

/-- Whether the row is in a request's scope. -/
def SettingsRow.applies (r : SettingsRow) (owner agent door : Text) : Bool :=
  r.owner == owner && (r.agent == "*".toList || r.agent == agent) &&
    (r.door == "*".toList || r.door == door)

def rank (r : SettingsRow) : Nat :=
  (if r.agent = "*".toList then 0 else 1) + (if r.door = "*".toList then 0 else 2)

/-- The value of the last row that has one. -/
def pick {α : Type} (field : SettingsRow → Option α) (ordered : List SettingsRow) : Option α :=
  (ordered.filterMap field).getLast?

def validated (raw engine : Text) : Text :=
  if (hhmm raw).isSome then raw else engine

def loadSettings (rows : List SettingsRow) (owner agent door : Text) : ProactivitySettings :=
  let ordered := (rows.filter (·.applies owner agent door)).insertionSort (rank · ≤ rank ·)
  let quietStart := validated ((pick (·.quietStart) ordered).getD ENGINE.quietStart) ENGINE.quietStart
  let quietEnd := validated ((pick (·.quietEnd) ordered).getD ENGINE.quietEnd) ENGINE.quietEnd
  let span := ((toMinutes quietEnd - toMinutes quietStart) + 1440).tmod 1440
  let short := span < ENGINE.quietMinHours * 60
  { quietStart := if short then ENGINE.quietStart else quietStart
    quietEnd := if short then ENGINE.quietEnd else quietEnd
    eventPerDoorPerDay := clamp (pick (·.eventPerDoorPerDay) ordered) ENGINE.eventPerDoorPerDay
    escalationPerDoorPerDay :=
      clamp (pick (·.escalationPerDoorPerDay) ordered) ENGINE.escalationPerDoorPerDay
    perOwnerPerDay := clamp (pick (·.perOwnerPerDay) ordered) ENGINE.perOwnerPerDay
    dnd := ordered.any (·.dnd) }

/-- `isWithinQuietHours`; a window that is not "HH:MM" is the engine's. -/
def isWithinQuietHours (time start stop : Text) : Bool :=
  let engine := (hhmm start).isNone || (hhmm stop).isNone
  let s := toMinutes (if engine then ENGINE.quietStart else start)
  let e := toMinutes (if engine then ENGINE.quietEnd else stop)
  match hhmm time with
  | none => false
  | some t =>
      if s = e then false
      else if s < e then decide (t ≥ s ∧ t < e) else decide (t ≥ s ∨ t < e)

/-! ## Section 3: The ledger -/

inductive Status where
  | sent | suppressed | deferred
  deriving DecidableEq

inductive Reason where
  | dnd | quietHours | alreadySeen | dndFinalStop | doorCeiling | ownerCeiling
  deriving DecidableEq

/-- A row of `initiations`. -/
structure InitiationRow where
  owner : Text
  agent : Text
  door : Text
  cls : InitiationClass
  itemKey : Text
  /-- Sent, held back or dropped. -/
  status : Status
  /-- Why it was not sent. -/
  reason : Option Reason
  /-- Until when it is held back. -/
  untilAt : Option Instant
  /-- The day of the owner when it was decided. -/
  ownerDay : Day
  deriving DecidableEq

/-- The row is about the request's item. -/
def InitiationRow.about (r : InitiationRow) (req : InitiationRequest) : Bool :=
  r.owner == req.owner && r.agent == req.agent && r.itemKey == req.itemKey

structure LedgerState where
  sentTodayDoorEvent : Nat
  sentTodayDoorEscalation : Nat
  sentTodayOwner : Nat
  /-- The item was sent before. -/
  alreadySeen : Bool

/-- What was sent of a class, by door and day. -/
def InitiationRow.sentAt (owner door : Text) (day : Day) (cls : InitiationClass)
    (r : InitiationRow) : Bool :=
  r.owner == owner && r.door == door && r.ownerDay == day && r.status == .sent && r.cls == cls

/-- What was sent and counts against the owner's ceiling. -/
def InitiationRow.counted (owner : Text) (day : Day) (r : InitiationRow) : Bool :=
  r.owner == owner && r.ownerDay == day && r.status == .sent &&
    (r.cls == .event || r.cls == .escalation)

def loadLedgerState (ledger : List InitiationRow) (req : InitiationRequest) : LedgerState :=
  let day := ownerDay partsIn req.now req.tz
  { sentTodayDoorEvent := ledger.countP (·.sentAt req.owner req.door day .event)
    sentTodayDoorEscalation := ledger.countP (·.sentAt req.owner req.door day .escalation)
    sentTodayOwner := ledger.countP (·.counted req.owner day)
    alreadySeen := ledger.any fun r => r.about req && r.status == .sent }

inductive Decision where
  | send
  | suppress (reason : Reason)
  | defer (reason : Reason) (untilAt : Instant)
  deriving DecidableEq

def DEFER_REASONS : List Reason := [.dndFinalStop, .quietHours, .doorCeiling, .ownerCeiling]
def REUSABLE_SUPPRESSIONS : List Reason := [.dnd, .quietHours]

/-- The holds that the item is still serving. -/
def openHolds (ledger : List InitiationRow) (req : InitiationRequest) : List InitiationRow :=
  ledger.filter fun r => r.about req && r.status == .deferred && r.untilAt.any (req.now < ·)

/-- Which row the database answers with, where a `LIMIT 1` leaves it open. -/
structure Choice where
  hold : Nat
  suppression : Nat

/-- One of the rows. -/
def limitOne (choice : Nat) (rows : List InitiationRow) : Option InitiationRow :=
  rows[choice % rows.length]?

/-- `ORDER BY until_at DESC LIMIT 1` -/
def openDeferral (ledger : List InitiationRow) (req : InitiationRequest) (choice : Nat) :
    Option (Reason × Instant) :=
  let rows := openHolds ledger req
  let last := rows.filter fun r => rows.all fun other => other.untilAt.getD 0 ≤ r.untilAt.getD 0
  match limitOne choice last with
  | some { reason := some reason, untilAt := some untilAt, .. } =>
      if reason ∈ DEFER_REASONS then some (reason, untilAt) else none
  | _ => none

def sameDaySuppression (ledger : List InitiationRow) (req : InitiationRequest) (choice : Nat) :
    Option Reason :=
  let rows := ledger.filter fun r => r.about req && r.status == .suppressed &&
    r.ownerDay == ownerDay partsIn req.now req.tz && r.reason.any (· ∈ REUSABLE_SUPPRESSIONS)
  (limitOne choice rows).bind (·.reason)

def record (ledger : List InitiationRow) (req : InitiationRequest) (status : Status)
    (reason : Option Reason) (untilAt : Option Instant) : List InitiationRow :=
  ledger ++ [{
    owner := req.owner
    agent := req.agent
    door := req.door
    cls := req.cls
    itemKey := req.itemKey
    status := status
    reason := reason
    untilAt := untilAt
    ownerDay := ownerDay partsIn req.now req.tz }]

/-! ## Section 4: The gate -/

/-- `decideInitiation`: DND, already-seen, quiet hours, ceilings, send. -/
def decideInitiation (req : InitiationRequest) (s : ProactivitySettings) (state : LedgerState) :
    Decision :=
  if s.dnd then
    if req.finalStop then .defer .dndFinalStop (nextOwnerDayStart partsIn req.now req.tz)
    else .suppress .dnd
  else if state.alreadySeen then .suppress .alreadySeen
  else if !req.ownerSetTime &&
      isWithinQuietHours (wallClock partsIn req.now req.tz) s.quietStart s.quietEnd then
    if req.cls = .scheduled then .suppress .quietHours
    else .defer .quietHours (nextQuietEnd partsIn req.now req.tz s.quietEnd)
  else
    let door := match req.cls with
      | .event => some (state.sentTodayDoorEvent, s.eventPerDoorPerDay)
      | .escalation => some (state.sentTodayDoorEscalation, s.escalationPerDoorPerDay)
      | .scheduled => none
    match door with
    | none => .send
    | some (spent, doorCeiling) =>
        if (spent : Int) ≥ doorCeiling then
          .defer .doorCeiling (nextOwnerDayStart partsIn req.now req.tz)
        else if (state.sentTodayOwner : Int) ≥ s.perOwnerPerDay then
          .defer .ownerCeiling (nextOwnerDayStart partsIn req.now req.tz)
        else .send

/-- `gateInitiation`: the decision, and the ledger with a new hold. -/
def gateInitiation (rows : List SettingsRow) (ledger : List InitiationRow)
    (req : InitiationRequest) (choice : Choice) : Decision × List InitiationRow :=
  match openDeferral ledger req choice.hold with
  | some (reason, untilAt) => (.defer reason untilAt, ledger)
  | none =>
      let decision := decideInitiation partsIn req (loadSettings rows req.owner req.agent req.door)
        (loadLedgerState partsIn ledger req)
      match decision with
      | .send => (.send, ledger)
      | .suppress reason =>
          if sameDaySuppression partsIn ledger req choice.suppression = some reason then (decision, ledger)
          else (decision, record partsIn ledger req .suppressed (some reason) none)
      | .defer reason untilAt =>
          (decision, record partsIn ledger req .deferred (some reason) (some untilAt))

/-! ## Section 5: Runs -/

/-- A call of `send`, with the settings as they were. -/
structure Sending where
  req : InitiationRequest
  rows : List SettingsRow
  threw : Bool
  deriving DecidableEq

structure State where
  settings : List SettingsRow
  ledger : List InitiationRow
  sendings : List Sending
  deriving DecidableEq

inductive Label where
  | gatedSend (req : InitiationRequest) (choice : Choice) (throws : Bool)
  | settings (rows : List SettingsRow)

def State.gatedSend (s : State) (req : InitiationRequest) (choice : Choice) (throws : Bool) : State :=
  match gateInitiation partsIn s.settings s.ledger req choice with
  | (.send, ledger) =>
      { s with
        -- a throw leaves no sent row
        ledger := if throws then ledger else record partsIn ledger req .sent none none
        sendings := s.sendings ++ [⟨req, s.settings, throws⟩] }
  | (_, ledger) => { s with ledger := ledger }

/-- Calls one after another, and settings that change in between. -/
def gate : System State Label where
  init s := s.ledger = [] ∧ s.sendings = []
  next s
    | .gatedSend req choice throws => some (s.gatedSend partsIn req choice throws)
    | .settings rows => some { s with settings := rows }

end Lares.Proactivity
