import Lares.Framework.System
import Mathlib

/-! # The nightly dream cycle

    A cycle reads the turns since its cursor, reflects on them, records what
    was observed and commits a note with the next cursor.

    * **Turns** are in the conversation table from the cut-over moment on, and in
      the markdown log before it.
    * **A cycle** runs one at a time. Each of its steps waits for the vault, for
      the database or for the language model, and turns are appended meanwhile.
      It may fail at each of them.
    * **Origins**: an observation is worth what the turns are that it cites.
-/

namespace Lares.Dream

abbrev Text := List Char
/-- Milliseconds since 1970. -/
abbrev Time := Nat
abbrev Day := Nat

/-! ## Section 1: Origins -/

inductive Origin where
  | owner
  | agent
  | synced
  | system
  | thirdParty
deriving DecidableEq

/-- The place in `ORIGIN_TRUST_ORDER`. -/
def Origin.place : Origin → Nat
  | .owner => 0
  | .agent => 1
  | .synced => 2
  | .system => 3
  | .thirdParty => 4

def narrower (worst o : Origin) : Origin := if worst.place < o.place then o else worst

def narrowest (first : Origin) (rest : List Origin) : Origin := rest.foldl narrower first

/-- One exchange, as it is in the table or in its log file. -/
structure Turn where
  id : Nat
  /-- The field `at`. -/
  time : Time
  /-- It has a lane: nobody spoke. -/
  scheduled : Bool
  origin : Origin
deriving DecidableEq

structure TurnLogEntry where
  turn : Turn
  /-- A log file carries none. -/
  origin : Option Origin
deriving DecidableEq

/-- What the model returns for one signal. -/
structure Draft where
  text : Text
  subject : Text
  evidenceRefs : List Time
deriving DecidableEq

structure Observation extends Draft where
  origin : Origin
deriving DecidableEq

/-- Entries of one time collapse to the narrower. -/
def originAt (entries : List TurnLogEntry) (ref : Time) : Origin :=
  match (entries.filter fun e => e.turn.time = ref).map fun e => e.origin.getD .thirdParty with
  | [] => .thirdParty
  | first :: rest => narrowest first rest

def originForObservation (evidenceRefs : List Time) (entries : List TurnLogEntry) : Origin :=
  match evidenceRefs with
  | [] => .thirdParty
  | ref :: refs => narrowest (originAt entries ref) (refs.map (originAt entries))

/-! ## Section 2: Reading -/

section Cycle

-- The first moment whose turns are in the table, and what is neither scaffolding nor personal.
variable (cutOver : Time) (kept : Draft → Bool)

def Turn.inTable (turn : Turn) : Bool := decide (cutOver ≤ turn.time)

/-- `since` of the conversation record, scheduled lanes excluded. -/
def rowsSince (turns : List Turn) (since : Time) : List Turn :=
  (turns.filter fun t => t.inTable cutOver && decide (since < t.time) && !t.scheduled).insertionSort
    fun a b => a.time ≤ b.time

/-- A file that cannot be read is skipped. -/
def readConversationLogs (turns : List Turn) (since : Time) (unreadable : List Nat) : List Turn :=
  (turns.filter fun t => !t.inTable cutOver && decide (t.id ∉ unreadable) && !t.scheduled &&
    decide (since < t.time)).insertionSort fun a b => a.time ≤ b.time

def ofRow (turn : Turn) : TurnLogEntry := ⟨turn, some turn.origin⟩

def ofLog (turn : Turn) : TurnLogEntry := ⟨turn, none⟩

/-- The logs before the table's first row. -/
def gapEntries (rows logs : List Turn) : List Turn :=
  match rows.head? with
  | none => logs
  | some boundary => logs.filter fun t => t.time < boundary.time

def joinSources (rows logs : List Turn) : List TurnLogEntry :=
  ((gapEntries rows logs).map ofLog ++ rows.map ofRow).insertionSort
    fun a b => a.turn.time ≤ b.turn.time

/-- `_meta/dream/<day>.md` -/
structure Note where
  day : Day
  cursor : Time
deriving DecidableEq

def dayOf (now : Time) : Day := now / 86400000

/-- The cursor of the latest note. -/
def cursorOf (notes : List Note) : Time := (notes.argmax Note.day).elim 0 Note.cursor

/-- A note of the same day is overwritten. -/
def writeNote (notes : List Note) (now : Time) : List Note :=
  notes.filter (fun n => n.day ≠ dayOf now) ++ [⟨dayOf now, now⟩]

/-! ## Section 3: Steps -/

/-- What a cycle has reflected on. -/
structure Reflected where
  /-- From where. -/
  since : Time
  /-- The turns it was shown. -/
  entries : List TurnLogEntry
  /-- How many turns there were when the table was read. -/
  seen : Nat
  /-- The cutoff. -/
  now : Time
deriving DecidableEq

inductive Phase where
  /-- Before the cutoff is set. -/
  | resolve
  /-- Before the turns are queried. -/
  | query (since : Time)
  /-- Before the earliest of them is looked up. -/
  | earliest (since : Time) (rows : List Turn) (seen : Nat)
  /-- Before the logs are read. -/
  | logs (since : Time) (rows : List Turn) (seen : Nat)
  /-- In the reflection. -/
  | reflect (since : Time) (entries : List TurnLogEntry) (seen : Nat)
  /-- Between two observations that are promoted. -/
  | promote (cycle : Reflected) (left : List Observation)
deriving DecidableEq

/-- A row of `dream_observations`, with the cycle that recorded it and the turns it cites. -/
structure Sighting where
  cycle : Nat
  observation : Observation
  drawnFrom : List Turn
deriving DecidableEq

/-- A cycle that has committed its note. -/
structure Completed where
  cursor : Time
  batch : List Turn
deriving DecidableEq

structure State where
  /-- Every turn, in the order they were appended. -/
  turns : List Turn
  /-- The notes of the cycles, in the vault. -/
  notes : List Note
  /-- What was recorded. -/
  sightings : List Sighting
  /-- The cycles that have come to their end. -/
  completed : List Completed
  /-- How many cycles have begun. -/
  started : Nat
  /-- The cycle under way. -/
  running : Option Phase
deriving DecidableEq

def Reflected.batch (cycle : Reflected) : List Turn := cycle.entries.map TurnLogEntry.turn

inductive Answer where
  /-- The latest note is read, or there is none. -/
  | found
  | unreadable
  | rows
  /-- The table does not exist. -/
  | missing
  | logs (unreadable : List Nat)
  /-- What the model returned, and the clock after it. -/
  | reflected (drafts : List Draft) (now : Time)
  | recorded
  | committed
  /-- `commitNote` throws, and the note stays in the vault. -/
  | uncommitted

inductive Label where
  /-- A turn is logged. -/
  | append (turn : Turn)
  /-- A cycle begins. -/
  | start
  /-- It takes its next step. -/
  | step (answer : Answer)
  /-- The step fails, or the process dies. -/
  | fail

def reflect (entries : List TurnLogEntry) (drafts : List Draft) : List Observation :=
  if entries = [] then []
  else (drafts.filter kept).map fun d => ⟨d, originForObservation d.evidenceRefs entries⟩

def record (s : State) (cycle : Reflected) (obs : Observation) : Sighting :=
  ⟨s.started, obs, cycle.batch.filter fun t => t.time ∈ obs.evidenceRefs⟩

def runOnce (s : State) (phase : Phase) (answer : Answer) : Option State :=
  match phase, answer with
  | .resolve, .found => some { s with running := some (.query (cursorOf s.notes)) }
  -- "cursor fell back to EPOCH"
  | .resolve, .unreadable =>
      if s.notes = [] then none else some { s with running := some (.query 0) }
  | .query since, .rows =>
      some { s with
        running := some (.earliest since (rowsSince cutOver s.turns since) s.turns.length) }
  | .query since, .missing =>
      if s.turns.any (·.inTable cutOver) then none
      else some { s with running := some (.logs since [] s.turns.length) }
  | .earliest since rows seen, .rows =>
      if (rowsSince cutOver s.turns 0).head?.any fun t => t.time ≤ since then
        some { s with running := some (.reflect since (rows.map ofRow) seen) }
      else some { s with running := some (.logs since rows seen) }
  | .logs since rows seen, .logs unreadable =>
      some { s with
        running := some (.reflect since
          (joinSources rows (readConversationLogs cutOver s.turns since unreadable)) seen) }
  | .reflect since entries seen, .reflected drafts now =>
      some { s with
        running := some (.promote ⟨since, entries, seen, now⟩ (reflect kept entries drafts)) }
  | .promote cycle (obs :: left), .recorded =>
      some { s with
        sightings := s.sightings ++ [record s cycle obs]
        running := some (.promote cycle left) }
  | .promote cycle [], .committed =>
      some { s with
        notes := writeNote s.notes cycle.now
        completed := s.completed ++ [⟨cycle.now, cycle.batch⟩]
        running := none }
  | .promote cycle [], .uncommitted =>
      some { s with notes := writeNote s.notes cycle.now, running := none }
  | _, _ => none

def next (s : State) : Label → Option State
  | .append turn =>
      if turn.id ∉ s.turns.map Turn.id ∧ 0 < turn.time then
        some { s with turns := s.turns ++ [turn] }
      else none
  | .start =>
      if s.running = none then
        some { s with started := s.started + 1, running := some .resolve }
      else none
  | .step answer =>
      match s.running with
      | none => none
      | some phase => runOnce cutOver kept s phase answer
  | .fail => some { s with running := none }

def dreamCycle : System State Label where
  init s := s = ⟨[], [], [], [], 0, none⟩
  next := next cutOver kept

end Cycle

/-- How often the owner is on record as having said so, for the promotion gate. -/
def ownerRecurrenceCount (normalizeObservationText : Text → Text) (s : State) (text : Text) : Nat :=
  s.sightings.countP fun r => decide (r.observation.origin = .owner) &&
    decide (normalizeObservationText r.observation.text = normalizeObservationText text)

end Lares.Dream
