import Lares.Framework.System
import Lares.Framework.WorkerPool
import Mathlib

/-! # The obligation radar

    `gatherOpenObligations`: from the snapshots of threads to the obligations
    that a brief shows.

    * **Selection**: who waits for a reply, most overdue first, less what is
      dismissed or recorded as answered elsewhere.
    * **The stage** asks for each thread whether it was answered elsewhere, then
      what is known of its last message, then reads the last messages of the
      oldest ones nobody has read. Each pass runs so many calls at a time and
      ends with its last call. Every call may throw, and one that hangs is one
      that is never answered.
    * **The budget** may expire between any two steps. What has been decided by
      then is returned; the calls under way go on without effect on it.
-/

namespace Lares.Obligations

abbrev ThreadId := List Char
/-- Milliseconds. -/
abbrev Time := Int

/-! ## Section 1: Selection -/

/-- A snapshot; `κ` is what an obligation carries along and nobody here looks at. -/
structure ThreadSnapshot (κ : Type) where
  threadId : ThreadId
  lastMessageAt : Time
  lastSpeakerIsThem : Bool
  addressedToHim : Bool
  isAutomated : Bool
  isDeadlineCandidate : Bool
  theirUnansweredCount : Int
  dismissedAt : Option Time
  carried : κ

structure Obligation (κ : Type) where
  threadId : ThreadId
  lastMessageAt : Time
  ageHours : Int
  isRePing : Bool
  unansweredCount : Int
  carried : κ
deriving DecidableEq

def OWED_AFTER_HOURS : Int := 48
def REPING_AFTER_HOURS : Int := 24

/-- Whole hours, rounded down. -/
def hoursBetween (start until_ : Time) : Int := (until_ - start) / 3600000

variable {κ : Type}

/-- One thread in the loop of `selectObligations`. -/
def obligationOf (now : Time) (t : ThreadSnapshot κ) : Option (Obligation κ) :=
  let ageHours := hoursBetween t.lastMessageAt now
  let isRePing := decide (2 ≤ t.theirUnansweredCount)
  if t.dismissedAt.isSome then none
  else if !t.lastSpeakerIsThem then none
  else if t.isAutomated then none
  else if t.isDeadlineCandidate then none
  else if !t.addressedToHim then none
  else if ageHours < (if isRePing then REPING_AFTER_HOURS else OWED_AFTER_HOURS) then none
  else
    some { threadId := t.threadId, lastMessageAt := t.lastMessageAt, ageHours, isRePing,
           unansweredCount := t.theirUnansweredCount, carried := t.carried }

/-- `selectObligations`, with the default options -/
def selectObligations (threads : List (ThreadSnapshot κ)) (now : Time) : List (Obligation κ) :=
  (threads.filterMap (obligationOf now)).insertionSort fun a b => b.ageHours ≤ a.ageHours

/-- `dropResolved` -/
def dropResolved (items : List (Obligation κ)) (resolved : List (ThreadId × Time)) :
    List (Obligation κ) :=
  items.filter fun o =>
    !(resolved.lookup o.threadId).any fun answeredAt => o.lastMessageAt < answeredAt

/-- What a pass has to go on: no recorded resolution where none could be read. -/
structure Found (κ : Type) where
  snapshots : List (ThreadSnapshot κ)
  /-- What the owner has put aside. -/
  dismissed : List ThreadId
  /-- What is recorded as answered, and when. -/
  resolved : List (ThreadId × Time)
  now : Time

local instance lawfulThreadId : LawfulBEq ThreadId := inferInstance

/-- `candidates` -/
def Found.candidates (f : Found κ) : List (Obligation κ) :=
  selectObligations (f.snapshots.map fun s =>
    if s.threadId ∈ f.dismissed then { s with dismissedAt := some f.now } else s) f.now

/-- `open` -/
def Found.owed (f : Found κ) : List (Obligation κ) := dropResolved f.candidates f.resolved

/-! ## Section 2: Verdicts -/

inductive Intent where
  | expectsReply | closesLoop | fyi | unreadable
deriving DecidableEq

def INTENT_MAX_PER_PASS : Nat := 8
def RESOLUTION_CONCURRENCY : Nat := 4

def RESOLUTION_UNVERIFIED_REASON : String := "could not verify — kept on the radar"
def INTENT_UNREAD_REASON : String := "not yet read — kept on the radar"

def intentReason (intent : Intent) (isRePing : Bool) : String :=
  match intent with
  | .expectsReply =>
      if isRePing then "they asked something you have not answered, and wrote again since"
      else "they asked something you have not answered"
  | .closesLoop => "they closed the loop"
  | .fyi => "information only"
  | .unreadable => "could not read their last message — kept on the radar"

/-- `StageProgress` -/
structure StageProgress where
  keep : List (ThreadId × Option String)
  dropped : List ThreadId
  unreadable : List (List Char)

namespace StageProgress

def keepAs (p : StageProgress) (id : ThreadId) (reason : Option String) : StageProgress :=
  { p with keep := (id, reason) :: p.keep }

def drop (p : StageProgress) (id : ThreadId) : StageProgress :=
  { p with dropped := id :: p.dropped }

/-- `for (const o of items) progress.keep.set(...)` -/
def keepAll (p : StageProgress) (items : List (Obligation κ)) (reason : Option String) :
    StageProgress :=
  items.foldl (fun p o => p.keepAs o.threadId reason) p

def noteUnreadable (p : StageProgress) (sources : List (List Char)) : StageProgress :=
  { p with unreadable := sources ++ p.unreadable }

end StageProgress

/-- `apply` in `readIntents` -/
def applyIntent (p : StageProgress) (o : Obligation κ) (intent : Intent) : StageProgress :=
  if intent = .closesLoop ∨ intent = .fyi then p.drop o.threadId
  else p.keepAs o.threadId (some (intentReason intent o.isRePing))

/-- An obligation with its `reason`. -/
structure Listed (κ : Type) where
  obligation : Obligation κ
  reason : Option String

/-- `materialize` -/
def materialize (owed : List (Obligation κ)) (p : StageProgress) : List (Listed κ) :=
  (owed.filter fun o => o.threadId ∉ p.dropped).map fun o =>
    match p.keep.lookup o.threadId with
    | none => ⟨o, some RESOLUTION_UNVERIFIED_REASON⟩
    | some reason => ⟨o, reason⟩

/-! ## Section 3: The stage -/

/-- Which of the optional steps there are, and the order of texts. -/
structure Deps where
  /-- `resolveObligation` -/
  resolve : Bool
  /-- `markResolved` -/
  markResolved : Bool
  /-- `cachedIntent` -/
  cachedIntent : Bool
  /-- `classifyIntent` -/
  classifyIntent : Bool
  localeCompare : ThreadId → ThreadId → Int

/-- What a call of the resolve pass waits for. -/
inductive Waits where
  | lookup | write
deriving DecidableEq

/-- `null` or the obligation in the resolve pass. -/
inductive Checked where
  | survives | leaves
deriving DecidableEq

inductive Cached where
  | answered | missed
deriving DecidableEq

inductive Stage (κ : Type) where
  /-- The cross-channel checks. -/
  | resolving (pool : Pool (Obligation κ) Waits Checked)
  /-- The cached verdicts. -/
  | caching (pool : Pool (Obligation κ) Unit Cached)
  /-- The readings. -/
  | reading (pool : Pool (Obligation κ) Unit Unit)
  /-- Everything has ended. -/
  | finished

/-- What has happened, for the record. -/
inductive Event where
  /-- The cross-channel check threw. -/
  | checkFailed (id : ThreadId)
  /-- The thread was answered elsewhere. -/
  | foundElsewhere (id : ThreadId)
  /-- A verdict, from the cache or from a reading. -/
  | verdict (id : ThreadId) (intent : Intent) (fromCache : Bool)
  /-- A model is asked to read the last message. -/
  | modelRead (id : ThreadId)
deriving DecidableEq

/-- What was returned, and what had happened before. -/
structure Returned (κ : Type) where
  threads : List (Listed κ)
  before : List Event

structure State (κ : Type) where
  stage : Stage κ
  progress : StageProgress
  log : List Event
  returned : Option (Returned κ)

/-- The answer of a call. -/
inductive Answer (α : Type) where
  | threw
  | gave (a : α)

/-- `ResolveOutcome`; of a resolution it only matters that there is one. -/
structure ResolveOutcome where
  resolution : Bool
  unreadable : List (List Char)

inductive Label where
  /-- A free worker takes the next thread. -/
  | ask
  | resolved (id : ThreadId) (answer : Answer ResolveOutcome)
  /-- The write of a resolution is over, well or not. -/
  | marked (id : ThreadId)
  /-- The cache answers; a reading that takes too long has thrown. -/
  | cached (id : ThreadId) (answer : Answer (Option Intent))
  | read (id : ThreadId) (answer : Answer Intent)
  /-- All calls of a pass have come back. -/
  | proceed
  /-- The budget is spent. -/
  | expire
  /-- The stage is over. -/
  | complete

/-- The comparison of `byAge`: the oldest first, then by name. -/
def olderFirst (deps : Deps) (a b : Obligation κ) : Prop :=
  b.ageHours < a.ageHours ∨ b.ageHours = a.ageHours ∧ deps.localeCompare a.threadId b.threadId ≤ 0

instance decidableOlderFirst (deps : Deps) (a b : Obligation κ) : Decidable (olderFirst deps a b) :=
  inferInstanceAs (Decidable (_ ∨ _))

def byAge (deps : Deps) (survivors : List (Obligation κ)) : List (Obligation κ) :=
  survivors.insertionSort (olderFirst deps)

/-- `readIntents` from `uncached` on. -/
def startReading (deps : Deps) (s : State κ) (uncached : List (Obligation κ)) : State κ :=
  if !deps.classifyIntent then
    { s with stage := .finished, progress := s.progress.keepAll uncached none }
  else
    { s with stage := .reading (.of (uncached.take INTENT_MAX_PER_PASS)),
             progress := s.progress.keepAll (uncached.drop INTENT_MAX_PER_PASS)
               (some INTENT_UNREAD_REASON) }

/-- `readIntents` up to its first call. -/
def readIntents (deps : Deps) (s : State κ) (survivors : List (Obligation κ)) : State κ :=
  if !deps.cachedIntent ∧ !deps.classifyIntent then
    { s with stage := .finished, progress := s.progress.keepAll survivors none }
  else if deps.cachedIntent then { s with stage := .caching (.of (byAge deps survivors)) }
  else startReading deps s (byAge deps survivors)

def State.note (s : State κ) (e : Event) : State κ := { s with log := s.log ++ [e] }

/-- The lookup for a thread is answered. -/
def onResolved (deps : Deps) (s : State κ) (pool : Pool (Obligation κ) Waits Checked)
    (id : ThreadId) (answer : Answer ResolveOutcome) : Option (State κ) :=
  match answer with
  | .threw =>
      (pool.settle Obligation.threadId id .lookup (.done .leaves)).map fun p =>
        { s with stage := .resolving p.2,
                 progress := s.progress.keepAs id (some RESOLUTION_UNVERIFIED_REASON),
                 log := s.log ++ [.checkFailed id] }
  | .gave outcome =>
      let progress := s.progress.noteUnreadable outcome.unreadable
      if !outcome.resolution then
        (pool.settle Obligation.threadId id .lookup (.done .survives)).map fun p =>
          { s with stage := .resolving p.2, progress }
      else
        let job := if deps.markResolved then .running .write else .done .leaves
        (pool.settle Obligation.threadId id .lookup job).map fun p =>
          -- dropped before the write
          { s with stage := .resolving p.2, progress := progress.drop id,
                   log := s.log ++ [.foundElsewhere id] }

/-- The cache has answered for a thread. -/
def onCached (s : State κ) (pool : Pool (Obligation κ) Unit Cached) (id : ThreadId)
    (answer : Answer (Option Intent)) : Option (State κ) :=
  match answer with
  | .gave (some intent) =>
      (pool.settle Obligation.threadId id () (.done .answered)).map fun p =>
        { s with stage := .caching p.2, progress := applyIntent s.progress p.1 intent,
                 log := s.log ++ [.verdict id intent true] }
  | _ =>
      (pool.settle Obligation.threadId id () (.done .missed)).map fun p =>
        { s with stage := .caching p.2 }

/-- A model has read the last message of a thread, or failed to. -/
def onRead (s : State κ) (pool : Pool (Obligation κ) Unit Unit) (id : ThreadId)
    (answer : Answer Intent) : Option (State κ) :=
  match answer with
  | .threw =>
      (pool.settle Obligation.threadId id () (.done ())).map fun p =>
        { s with stage := .reading p.2,
                 progress := s.progress.keepAs id (some RESOLUTION_UNVERIFIED_REASON) }
  | .gave intent =>
      (pool.settle Obligation.threadId id () (.done ())).map fun p =>
        { s with stage := .reading p.2, progress := applyIntent s.progress p.1 intent,
                 log := s.log ++ [.verdict id intent false] }

/-- `materialize`, once. -/
def State.finish (s : State κ) (owed : List (Obligation κ)) : Option (State κ) :=
  if s.returned.isSome then none
  else some { s with returned := some ⟨materialize owed s.progress, s.log⟩ }

def step (deps : Deps) (owed : List (Obligation κ)) (s : State κ) : Label → Option (State κ)
  | .ask =>
      match s.stage with
      | .resolving pool => (pool.start RESOLUTION_CONCURRENCY .lookup).map fun p =>
          { s with stage := .resolving p.2 }
      | .caching pool => (pool.start RESOLUTION_CONCURRENCY ()).map fun p =>
          { s with stage := .caching p.2 }
      | .reading pool => (pool.start RESOLUTION_CONCURRENCY ()).map fun p =>
          { s with stage := .reading p.2, log := s.log ++ [.modelRead p.1.threadId] }
      | .finished => none
  | .resolved id answer =>
      match s.stage with
      | .resolving pool => onResolved deps s pool id answer
      | _ => none
  | .marked id =>
      match s.stage with
      | .resolving pool =>
          (pool.settle Obligation.threadId id .write (.done .leaves)).map fun p =>
            { s with stage := .resolving p.2 }
      | _ => none
  | .cached id answer =>
      match s.stage with
      | .caching pool => onCached s pool id answer
      | _ => none
  | .read id answer =>
      match s.stage with
      | .reading pool => onRead s pool id answer
      | _ => none
  | .proceed =>
      match s.stage with
      | .resolving pool =>
          if pool.finished then some (readIntents deps s (pool.ended .survives)) else none
      | .caching pool =>
          if pool.finished then some (startReading deps s (pool.ended .missed)) else none
      | .reading pool => if pool.finished then some { s with stage := .finished } else none
      | .finished => none
  | .expire => s.finish owed
  | .complete =>
      match s.stage with
      | .finished => s.finish owed
      | _ => none

/-- Before the first call. -/
def start (deps : Deps) (owed : List (Obligation κ)) : State κ where
  stage :=
    if !deps.resolve ∧ !deps.cachedIntent ∧ !deps.classifyIntent then .finished
    else if deps.resolve then .resolving (.of owed)
    else .resolving (owed.map fun o => (o, .done .survives))
  progress := ⟨[], [], []⟩
  log := []
  -- no step at all: the stage is not even entered
  returned :=
    if !deps.resolve ∧ !deps.cachedIntent ∧ !deps.classifyIntent then
      some ⟨owed.map fun o => ⟨o, none⟩, []⟩
    else none

/-- `gatherOpenObligations` from `open` on. -/
def gatherOpenObligations (deps : Deps) (f : Found κ) : System (State κ) Label where
  init s := s = start deps f.owed
  next := step deps f.owed

end Lares.Obligations
