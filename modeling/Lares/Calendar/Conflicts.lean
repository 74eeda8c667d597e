import Lares.Framework.Comparators
import Lares.Framework.Lines
import Lares.Framework.Numbers
import Mathlib

/-! # Calendar conflicts

    The clashes of a calendar, found by code: same events in, same findings out.

    * **De-duplication**: events are sorted, and one that shares a key with an
      event that was kept is a copy of it.
    * **Window**: an event counts when it touches a day of the context.
    * **Findings**: timed commitments that overlap, beds booked for one night,
      and events at an hour that is night where the owner is.
-/

namespace Lares.Calendar

open Comparators Lines

abbrev Text := List Char

/-! ## Section 1: The platform -/

structure WallClock where
  date : Text
  time : Text

/-- What JavaScript and `Intl` answer. -/
structure Platform where
  /-- `Date.parse`, in milliseconds -/
  parse : Text → Option Int
  /-- `new Date(t).toISOString().slice(0, 10)` -/
  isoDate : Int → Text
  /-- The wall clock of a zone; none for a zone that `Intl` refuses -/
  wallClock : Int → Text → Option WallClock
  localeCompare : Text → Text → Int
  toLowerCase : Text → Text

/-! ## Section 2: Events -/

structure CalendarEvent where
  id : Text
  summary : Text
  /-- An instant with its offset, or a date. -/
  start : Text
  «end» : Text
  /-- Its times are dates, and its end is exclusive. -/
  allDay : Bool
  eventType : Option Text
  status : Option Text
  /-- `transparent` leaves the time free. -/
  transparency : Option Text
  /-- The owner's own answer. -/
  myResponse : Option Text
  /-- The same on every calendar that has a copy. -/
  iCalUID : Option Text
  startTimeZone : Option Text
  /-- Whose calendar it is from. -/
  account : Option Text
  calendarId : Option Text
  deriving DecidableEq

structure ConflictTrip where
  start : Text
  «end» : Text
  timezone : Text

structure ConflictContext where
  /-- The calendar days that are looked at. -/
  days : List Text
  trips : List ConflictTrip
  homeTimezone : Text
  /-- Where the days begin and end, if not at home. -/
  dayTimezone : Option Text
  /-- How many events are looked at, at most. -/
  maxEvents : Option Nat

def MAX_CONFLICT_EVENTS : Nat := 400

def WAKING_HOURS_START : Nat := 7

def WAKING_HOURS_END : Nat := 22

/-- `/^\d\d\d\d-\d\d-\d\d$/`, of the trimmed text -/
def isDateOnly (s : Text) : Bool :=
  match trim s with
  | [a, b, c, d, x, e, f, y, g, h] =>
    [a, b, c, d, e, f, g, h].all Char.isDigit && x = '-' && y = '-'
  | _ => false

def isAllDay (e : CalendarEvent) : Bool := e.allDay || isDateOnly e.start

section Days

variable (pf : Platform)

/-- `(s ?? "").trim().toLowerCase()` -/
def lower (s : Option Text) : Text := pf.toLowerCase (trim (s.getD []))

def normalizeEventType (raw : Option Text) : Text :=
  (lower pf raw).filter fun c => !(c = '_' || isSpace c || c = '-')

def addDays (day : Text) (n : Int) : Text :=
  match pf.parse (day ++ "T00:00:00Z".toList) with
  | none => day
  | some t => pf.isoDate (t + n * 86400000)

structure Span where
  start : Int
  «end» : Int

/-- `[start, end)` of a timed event -/
def timedSpan (e : CalendarEvent) : Option Span :=
  if isAllDay e then none
  else match pf.parse e.start, pf.parse e.end with
    | some start, some stop => if stop ≤ start then none else some ⟨start, stop⟩
    | _, _ => none

/-- The first and the last day that an event touches. -/
def coveredDays (e : CalendarEvent) (home : Text) : Option (Text × Text) :=
  if isAllDay e then
    let first := (trim e.start).take 10
    if isDateOnly first then
      -- the end of an all-day event is exclusive
      let rawEnd := (trim e.end).take 10
      some (first, if isDateOnly rawEnd && first < rawEnd then addDays pf rawEnd (-1) else first)
    else none
  else match timedSpan pf e with
    | none =>
      ((pf.parse e.start).bind fun t => pf.wallClock t home).map fun only => (only.date, only.date)
    | some span =>
      match pf.wallClock span.start home, pf.wallClock span.end home with
      | some a, some b => some (a.date, if b.date < a.date then a.date else b.date)
      | _, _ => none

/-- Every date from the first to the last, at most 400. -/
def daySpanFrom : Nat → Text → Text → List Text
  | 0, _, _ => []
  | n + 1, d, last => if d ≤ last then d :: daySpanFrom n (addDays pf d 1) last else []

def daySpan (first last : Text) : List Text := daySpanFrom pf 400 first last

end Days

def timezoneOn (day : Text) (ctx : ConflictContext) : Text :=
  let trip := ctx.trips.find? fun trip =>
    trim trip.timezone ≠ [] && trip.start ≤ day && day ≤ trip.end
  (trip.map fun trip => trim trip.timezone).getD ctx.homeTimezone

/-! ## Section 3: De-duplication -/

section Findings

variable (pf : Platform)

def dedupeKeys (e : CalendarEvent) : List Text :=
  let uid := trim (e.iCalUID.getD [])
  let id := trim e.id
  (if uid = [] then [] else ["uid:".toList ++ uid ++ '|' :: (e.start ++ '|' :: e.end)]) ++
    (if id = [] then [] else ["id:".toList ++ id]) ++
    ["t:".toList ++ lower pf (some e.summary) ++ '|' :: (e.start ++ '|' :: e.end)]

/-- Start, then end, then title, then id. -/
def compareEvents (a b : CalendarEvent) : Int :=
  orElse (pf.localeCompare a.start b.start) (orElse (pf.localeCompare a.end b.end)
    (orElse (pf.localeCompare a.summary b.summary) (pf.localeCompare a.id b.id)))

/-- The events without those that share a key with an earlier one that was kept. -/
def keep (seen : List Text) : List CalendarEvent → List CalendarEvent
  | [] => []
  | e :: events =>
    if (dedupeKeys pf e).any fun k => seen.any fun s => s = k then keep seen events
    else e :: keep (seen ++ dedupeKeys pf e) events

def dedupeEvents (events : List CalendarEvent) : List CalendarEvent :=
  keep pf [] (sort (compareEvents pf) events)

/-! ## Section 4: Commitments -/

inductive Commitment
  | committed
  | tentative
  | excluded
  deriving DecidableEq

/-- One character of a pattern, or one that may be missing. -/
inductive Piece
  | one (c : Char)
  | maybe (allowed : Char → Bool)

/-- Upper case and the two signs that Unicode folds to ASCII letters. -/
def fold (c : Char) : Char := if c = 'ſ' then 's' else if c.toNat = 0x212a then 'k' else c.toLower

def isWordChar (c : Char) : Bool := (fold c).isAlphanum || c = '_'

/-- What may be left of a text after a pattern in front. -/
def afterPieces : List Piece → Text → List Text
  | [], s => [s]
  | .one _ :: _, [] => []
  | .one c :: pieces, d :: s => if fold d = c then afterPieces pieces s else []
  | .maybe _ :: pieces, [] => afterPieces pieces []
  | .maybe allowed :: pieces, d :: s =>
    (if allowed d then afterPieces pieces s else []) ++ afterPieces pieces (d :: s)

def letters (s : String) : List Piece := s.toList.map .one

def maybeBlank : Piece := .maybe (· = ' ')

/-- The words of a bed. -/
def STAY_WORDS : List (List Piece) :=
  [letters "stay at", letters "hotel", letters "hotell", letters "motel", letters "motell",
    letters "hostel", letters "resort", letters "airbnb", letters "lodging",
    letters "overnatting", letters "opphold", letters "guest" ++ maybeBlank :: letters "house",
    letters "pensjonat", letters "b" ++ maybeBlank :: letters "&" ++ maybeBlank :: letters "b",
    letters "bed and breakfast", letters "apartment", letters "leilighet",
    letters "check" ++ .maybe (fun c => c = '-' || isSpace c) :: letters "in", letters "innsjekk"]

/-- A stay's word at this place, between the ends of words. -/
def stayHere (before : Option Char) (s : Text) : Bool :=
  !before.any isWordChar &&
    STAY_WORDS.any fun pieces => (afterPieces pieces s).any fun rest => !rest.head?.any isWordChar

def stayFrom (before : Option Char) : Text → Bool
  | [] => false
  | c :: s => stayHere before (c :: s) || stayFrom (some c) s

/-- `STAY_TITLE.test(title)` -/
def isStayTitle (title : Text) : Bool := stayFrom none title

def isNotAMeetingType (e : CalendarEvent) : Bool :=
  let type := normalizeEventType pf e.eventType
  type = "outofoffice".toList || type = "workinglocation".toList || type = "birthday".toList

/-- Cancelled, or declined by the owner. -/
def isOff (e : CalendarEvent) : Bool :=
  lower pf e.status = "cancelled".toList || lower pf e.myResponse = "declined".toList

/-- An unknown value falls through to a commitment. -/
def commitmentOf (e : CalendarEvent) : Commitment :=
  if isOff pf e then .excluded
  else if lower pf e.transparency = "transparent".toList then .excluded
  else if isNotAMeetingType pf e then .excluded
  else if isStayTitle e.summary then .excluded
  else if lower pf e.status = "tentative".toList || lower pf e.myResponse = "tentative".toList then
    .tentative
  else .committed

/-! ## Section 5: Findings -/

inductive ConflictKind
  | doubleBooked
  | overlappingStay
  | timezoneTrap
  deriving DecidableEq

inductive ConflictSeverity
  | high
  | medium
  deriving DecidableEq

structure ConflictEventRef where
  id : Text
  title : Text
  start : Text
  «end» : Text
  allDay : Bool
  account : Option Text
  calendarId : Option Text
  deriving DecidableEq

structure CalendarConflict where
  kind : ConflictKind
  severity : ConflictSeverity
  events : List ConflictEventRef
  explanation : Text
  deriving DecidableEq

/-- `CONFLICT_PRIORITY.indexOf(kind)` -/
def ConflictKind.priority : ConflictKind → Int
  | .doubleBooked => 0
  | .overlappingStay => 1
  | .timezoneTrap => 2

def titleOf (e : CalendarEvent) : Text :=
  if trim e.summary = [] then "(untitled)".toList else trim e.summary

def refOf (e : CalendarEvent) : ConflictEventRef :=
  ⟨e.id, titleOf e, e.start, e.end, e.allDay, e.account, e.calendarId⟩

def quoted (e : CalendarEvent) : Text := '"' :: titleOf e ++ ['"']

/-- A timed event on the owner's day. -/
structure Timed where
  e : CalendarEvent
  span : Span
  level : Commitment

def timedOf (e : CalendarEvent) : Option Timed :=
  match timedSpan pf e with
  | none => none
  | some span => if commitmentOf pf e = .excluded then none else some ⟨e, span, commitmentOf pf e⟩

/-- Every pair of a list, in its order: the two nested loops. -/
def pairs {α : Type} : List α → List (α × α)
  | [] => []
  | a :: l => l.map (fun b => (a, b)) ++ pairs l

/-- The finding of two timed events, unless they only touch or are both tentative. -/
def doubleBooking (a b : Timed) : Option CalendarConflict :=
  if b.span.end ≤ a.span.start ∨ a.span.end ≤ b.span.start then none
  else if a.level = .tentative ∧ b.level = .tentative then none
  else
    let first := if a.span.start ≤ b.span.start then a else b
    let second := if a.span.start ≤ b.span.start then b else a
    some { kind := .doubleBooked
           severity := .high
           events := [refOf first.e, refOf second.e]
           explanation := quoted first.e ++ " and ".toList ++ quoted second.e ++
             " overlap in time — they cannot both happen as booked.".toList ++
             if a.level = .tentative ∨ b.level = .tentative then
               " One of the two is only tentative.".toList
             else [] }

def doubleBookings (events : List CalendarEvent) : List CalendarConflict :=
  (pairs (events.filterMap (timedOf pf))).filterMap fun p => doubleBooking p.1 p.2

/-- The nights of a stay: a timed one has none on its last day. -/
def nightsOf (e : CalendarEvent) (home : Text) : List Text :=
  match coveredDays pf e home with
  | none => []
  | some (first, last) =>
    let lastNight := if isAllDay e then last else addDays pf last (-1)
    daySpan pf first (if lastNight < first then first else lastNight)

structure Stay where
  e : CalendarEvent
  nights : List Text

def staysOf (events : List CalendarEvent) (home : Text) : List Stay :=
  ((events.filter fun e => !isOff pf e && isStayTitle e.summary).map fun e =>
    ⟨e, nightsOf pf e home⟩).filter fun s => !s.nights.isEmpty

def overlappingStay (days : List Text) (a b : Stay) : Option CalendarConflict :=
  let shared := a.nights.filter fun n => b.nights.any fun m => m = n
  if shared.any fun n => days.any fun d => d = n then
    some { kind := .overlappingStay
           severity := .high
           events := [refOf a.e, refOf b.e]
           explanation := "Two places to sleep are booked over ".toList ++
             (if shared.length = 1 then "the night of ".toList ++ shared.head?.getD []
             else Numbers.written (some shared.length) ++ " nights (".toList ++
               shared.head?.getD [] ++ " to ".toList ++ shared.getLast?.getD [] ++ ")".toList) ++
             ": ".toList ++ quoted a.e ++ " and ".toList ++ quoted b.e ++ ".".toList }
  else none

def overlappingStays (events : List CalendarEvent) (home : Text) (days : List Text) :
    List CalendarConflict :=
  (pairs (staysOf pf events home)).filterMap fun p => overlappingStay days p.1 p.2

/-- An event whose hour is night where the owner is, booked on another clock. -/
def timezoneTrap (ctx : ConflictContext) (e : CalendarEvent) : Option CalendarConflict := do
  if isOff pf e || isNotAMeetingType pf e ||
      normalizeEventType pf e.eventType = "fromgmail".toList || isAllDay e then none
  let at_ ← pf.parse e.start
  let homeDay ← pf.wallClock at_ ctx.homeTimezone
  let there := timezoneOn homeDay.date ctx
  let zone := trim (e.startTimeZone.getD [])
  let eventZone := if zone = [] then ctx.homeTimezone else zone
  let localThere ← pf.wallClock at_ there
  let localBooked ← pf.wallClock at_ eventZone
  if localThere.date = localBooked.date ∧ localThere.time = localBooked.time then none
  let hour ← Numbers.number (localThere.time.take 2)
  if WAKING_HOURS_START ≤ hour ∧ hour < WAKING_HOURS_END then none
  return { kind := .timezoneTrap
           severity := .medium
           events := [refOf e]
           explanation := quoted e ++ " is booked for ".toList ++ localBooked.time.take 5 ++
             ' ' :: eventZone ++ " time, which is ".toList ++ localThere.time.take 5 ++
             " on ".toList ++ localThere.date ++ " where the owner is that day (".toList ++
             there ++ ").".toList }

/-! ## Section 6: The pass -/

def conflictSortKey (c : CalendarConflict) : Text :=
  ((c.events.head?.map ConflictEventRef.start).getD []) ++
    '|' :: [','].intercalate (c.events.map ConflictEventRef.id)

def compareConflicts (a b : CalendarConflict) : Int :=
  orElse (a.kind.priority - b.kind.priority)
    (pf.localeCompare (conflictSortKey a) (conflictSortKey b))

/-- The clock that the days are dates on. -/
def dayZone (ctx : ConflictContext) : Text := ctx.dayTimezone.getD ctx.homeTimezone

def touchesDays (ctx : ConflictContext) (e : CalendarEvent) : Bool :=
  match coveredDays pf e (dayZone ctx) with
  | none => false
  | some (first, last) => (daySpan pf first last).any fun d => ctx.days.any fun day => day = d

def windowed (events : List CalendarEvent) (ctx : ConflictContext) : List CalendarEvent :=
  (dedupeEvents pf events).filter (touchesDays pf ctx)

def detectCalendarConflicts (events : List CalendarEvent) (ctx : ConflictContext) :
    List CalendarConflict :=
  if ctx.days = [] then []
  else
    let inWindow := (windowed pf events ctx).take (ctx.maxEvents.getD MAX_CONFLICT_EVENTS)
    sort (compareConflicts pf) (doubleBookings pf inWindow ++
      overlappingStays pf inWindow (dayZone ctx) ctx.days ++
      inWindow.filterMap (timezoneTrap pf ctx))

end Findings

end Lares.Calendar
