import Lares.Framework.Interleaving
import Lares.Tracks.Codec

/-! # Tracks in a vault

    `VaultTracksHome` over a store that each list and each read sees at its own
    moment, and whose writes compare the revisions they were given.

    * **The store**: files by path, a revision for each content.
    * **Requests**: `createTrack`, `setSteps`, `addItem` and `moveItem`, one step
      for each call of the store. All of them end in a write.
    * **Safety**: an item of a track names one of its steps, and files read back
      as what the calls have returned, unless an item is created behind the back
      of `setSteps` or a text has white space around it.
-/

namespace Lares.Tracks

attribute [local instance] Lines.lawfulText

/-! ## Section 1: The store -/

/-- `tracks/<id>/track.md` and `tracks/<trackId>/items/<id>.md` -/
inductive Path where
  | track (id : Text)
  | item (trackId id : Text)
deriving DecidableEq

/-- What a call returns. -/
inductive Returned where
  | track (track : Track)
  | item (item : TrackItem)
deriving DecidableEq

def Returned.path : Returned → Path
  | .track t => .track t.id
  | .item i => .item i.trackId i.id

def Returned.content : Returned → Text
  | .track t => noteContent (trackFields t) []
  | .item i => noteContent (itemFields i) []

structure File where
  content : Text
  /-- What the call returned that wrote it. -/
  returned : Returned
deriving DecidableEq

structure Store where
  files : Path → Option File
  paths : List Path

namespace Store

def empty : Store := ⟨fun _ => none, []⟩

def put (s : Store) (path : Path) (file : File) : Store :=
  ⟨Function.update s.files path (some file), if path ∈ s.paths then s.paths else path :: s.paths⟩

end Store

/-- `TrackFileWriter.write`; the written value says where and what. -/
structure Write (Rev : Type) where
  /-- What the call returns then. -/
  returned : Returned
  /-- What the file is expected to hold. -/
  expectedContentRevision : Option Rev
  /-- And other files. -/
  relatedContentRevisions : List (Path × Option Rev)

section Home

variable {Rev : Type} [DecidableEq Rev]

-- `vaultContentRevision`, `Date.parse`, and `localeCompare` on ids.
variable (contentRevision : Text → Rev) (dateParses : Text → Bool) (before : Text → Text → Bool)

def Store.revisionOf (s : Store) (path : Path) : Option Rev :=
  (s.files path).map fun file => contentRevision file.content

/-- Every path still has its expected content. This is the writer that the calls are made for: it
    takes expected revisions of other paths too, which `assertExpected` of `vault-git.ts` refuses. -/
def Store.accepts (s : Store) (w : Write Rev) : Bool :=
  decide (s.revisionOf contentRevision w.returned.path = w.expectedContentRevision) &&
    w.relatedContentRevisions.all fun (path, expected) =>
      decide (s.revisionOf contentRevision path = expected)

def Store.write (s : Store) (w : Write Rev) : Store :=
  if s.accepts contentRevision w then s.put w.returned.path ⟨w.returned.content, w.returned⟩ else s

/-! ## Section 2: Requests -/

/-- What `moveItem` is given. -/
structure Move where
  itemId : Text
  step : Text
  note : Text
  sourceSignal : Text

inductive Request (Rev : Type) where
  /-- A track is written for the first time. -/
  | createTrack (track : Track)
  /-- The steps of a track are changed. -/
  | setSteps (trackId : Text) (steps closingSteps : List Text)
  /-- Its items are listed. -/
  | setList (next : Track) (revision : Rev)
  /-- They are read, for those that would be left behind. -/
  | setRead (next : Track) (revision : Rev) (left : List Text) (related : List (Path × Option Rev))
  /-- An item is added. -/
  | addItem (trackId : Text) (who : TrackWho) (step note sourceSignal : Text)
  /-- An item moves to another step. -/
  | moveItem (move : Move)
  /-- Its track is looked for. -/
  | moveTracks (move : Move) (left : List Text) (tracks : List Track)
  /-- The item is looked for in a track. -/
  | moveFind (move : Move) (tracks : List Track)
  /-- It is found; its track is read again. -/
  | moveParent (next : TrackItem) (revision : Rev)
  /-- The file is written. -/
  | write (w : Write Rev)

inductive Answer where
  | done
  /-- The paths, in the order the store lists them. -/
  | listed (paths : List Path)
  /-- `newId` and `today` -/
  | given (id since : Text)

/-- What is checked before the first call of the store. -/
def Request.begins : Request Rev → Bool
  | .createTrack track => validateTrack track
  | .setSteps trackId _ _ => validId trackId
  | .addItem trackId .. => validId trackId
  | .moveItem move => validId move.itemId
  | _ => false

/-- The ids of the tracks that are listed. -/
def trackIds (paths : List Path) : List Text :=
  paths.filterMap fun
    | .track id => if validId id then some id else none
    | .item _ _ => none

def itemIds (trackId : Text) (paths : List Path) : List Text :=
  paths.filterMap fun
    | .track _ => none
    | .item parent id => if parent = trackId ∧ validId id then some id else none

/-- The request goes on, or it is over: it has thrown. -/
abbrev After (Rev : Type) := Option (Store × Option (Request Rev))

def setSteps (s : Store) (trackId : Text) (steps closingSteps : List Text) : After Rev :=
  match s.files (.track trackId) with
  | none => some (s, none)
  | some file =>
      match parseTrack trackId file.content with
      | .error _ => some (s, none)
      | .ok prior =>
          let next := { prior with steps, closingSteps }
          if validateTrack next then some (s, some (.setList next (contentRevision file.content)))
          else some (s, none)

def setRead (s : Store) (next : Track) (rev : Rev) (left : List Text)
    (related : List (Path × Option Rev)) : After Rev :=
  match left with
  | [] => some (s, some (.write ⟨.track next, some rev, related⟩))
  | id :: left =>
      match s.files (.item next.id id) with
      | none => some (s, some (.setRead next rev left related))
      | some file =>
          match parseItem dateParses id next.id file.content with
          | .error _ => some (s, none)
          | .ok item =>
              -- "A tracked item uses a step that would be removed"
              if item.step ∈ next.steps then
                some (s, some (.setRead next rev left
                  (related ++ [(.item next.id id, some (contentRevision file.content))])))
              else some (s, none)

def addItem (s : Store) (trackId : Text) (who : TrackWho) (step note sourceSignal id since : Text) :
    After Rev :=
  match s.files (.track trackId) with
  | none => some (s, none)
  | some file =>
      match parseTrack trackId file.content with
      | .error _ => some (s, none)
      | .ok track =>
          if whoValid who ∧ step ∈ track.steps ∧ clean note 500 ∧ clean sourceSignal 200 ∧
              validId id ∧ validDate dateParses since then
            some (s, some (.write ⟨.item ⟨id, trackId, who, step, since, note, sourceSignal⟩, none,
              [(.track trackId, some (contentRevision file.content))]⟩))
          else some (s, none)

def moveTracks (s : Store) (move : Move) (left : List Text) (tracks : List Track) : After Rev :=
  match left with
  | [] =>
      some (s, some (.moveFind move (tracks.insertionSort fun a b => before a.id b.id)))
  | id :: left =>
      match s.files (.track id) with
      | none => some (s, some (.moveTracks move left tracks))
      | some file =>
          match parseTrack id file.content with
          | .error _ => some (s, none)
          | .ok track => some (s, some (.moveTracks move left (tracks ++ [track])))

/-- The day is today's, so `Date.parse` knows it. -/
def moveFind (s : Store) (move : Move) (tracks : List Track) (since : Text) : After Rev :=
  match tracks with
  | [] => some (s, none)
  | track :: tracks =>
      match s.files (.item track.id move.itemId) with
      | none => some (s, some (.moveFind move tracks))
      | some file =>
          if move.step ∈ track.steps ∧ clean move.note 500 ∧ clean move.sourceSignal 200 then
            match parseItem dateParses move.itemId track.id file.content with
            | .error _ => some (s, none)
            | .ok prior =>
                if validDate dateParses since then
                  some (s, some (.moveParent
                    { prior with
                      step := move.step, since, note := move.note
                      sourceSignal := move.sourceSignal } (contentRevision file.content)))
                else none
          else some (s, none)

def moveParent (s : Store) (next : TrackItem) (rev : Rev) : After Rev :=
  match s.files (.track next.trackId) with
  | none => some (s, none)
  | some parent =>
      match parseTrack next.trackId parent.content with
      | .error _ => some (s, none)
      | .ok currentTrack =>
          if next.step ∈ currentTrack.steps then
            some (s, some (.write ⟨.item next, some rev,
              [(.track next.trackId, some (contentRevision parent.content))]⟩))
          else some (s, none)

def step (s : Store) (req : Request Rev) (answer : Answer) : After Rev :=
  match req, answer with
  | .createTrack track, .done =>
      if (s.files (.track track.id)).isSome then some (s, none)
      else some (s, some (.write ⟨.track track, none, []⟩))
  | .setSteps trackId steps closingSteps, .done => setSteps contentRevision s trackId steps closingSteps
  | .setList next rev, .listed paths =>
      if paths.Perm s.paths then some (s, some (.setRead next rev (itemIds next.id paths) []))
      else none
  | .setRead next rev left related, .done => setRead contentRevision dateParses s next rev left related
  | .addItem trackId who step note sourceSignal, .given id since =>
      addItem contentRevision dateParses s trackId who step note sourceSignal id since
  | .moveItem move, .listed paths =>
      if paths.Perm s.paths then some (s, some (.moveTracks move (trackIds paths) [])) else none
  | .moveTracks move left tracks, .done => moveTracks before s move left tracks
  | .moveFind move tracks, .given _ since => moveFind contentRevision dateParses s move tracks since
  | .moveParent next rev, .done => moveParent contentRevision s next rev
  | .write w, .done => some (s.write contentRevision w, none)
  | _, _ => none

def tracksRequests : Requests Store (Request Rev) Answer Empty where
  begins _ req := req.begins
  step := step contentRevision dateParses before
  happens _ event := event.elim

def tracksHome : System (Requests.State Store (Request Rev))
    (Requests.Label (Request Rev) Answer Empty) :=
  (tracksRequests contentRevision dateParses before).system (· = Store.empty)

end Home

end Lares.Tracks
