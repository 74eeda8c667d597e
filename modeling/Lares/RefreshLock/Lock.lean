import Lares.Framework.System
import Mathlib.Data.List.Induction

/-! # The refresh lock

    A lock directory under a shared root makes a token refresh run in one caller
    at a time; the others wait for it and read again.

    * **Directories**: what is made and removed. A directory carries, next to the
      number its `held-at` file reads as, the caller that made it (none when it was
      there from the start); the code never looks at that mark.
    * **Callers**: one phase for each place of `withRefreshImpl` between two file
      operations, clock readings or waits.
    * **Steps**: one operation of one caller, the death of a caller at any place, and
      time going on. A caller that dies and a call that throws out of the function look
      the same from the outside: both leave what they made.
-/

namespace Lares.RefreshLock

abbrev Text := List Char
/-- The components of a path, the first one first. -/
abbrev Path := List Text

/-! ## Section 1: Names -/

def keptChar (c : Char) : Bool :=
  c.isAlphanum || c == '_' || c == '.' || c == '-'

/-- The expression runs over code units: a character outside the basic plane is two of them. -/
def safeChar (c : Char) : Text :=
  if keptChar c then [c] else if 0xFFFF < c.toNat then ['_', '_'] else ['_']

def safeKey (key : Text) : Text :=
  key.flatMap safeChar

/-- `join(root, name)` for a name without a slash. -/
def joinName (root : Path) (name : Text) : Path :=
  if name = [] ∨ name = ['.'] then root
  else if name = ['.', '.'] then root.dropLast
  else root ++ [name]

/-! ## Section 2: Directories -/

structure Dir where
  creator : Option Nat
  heldAt : Option Int
deriving DecidableEq, Repr

abbrev Disk := Path → Option Dir

def Disk.put (disk : Disk) (p : Path) (dir : Option Dir) : Disk :=
  fun q => if q = p then dir else disk q

/-- `mkdirSync(root, { recursive: true })`. -/
def Disk.mkdirAll (disk : Disk) (root : Path) : Disk :=
  fun p => if p.isPrefixOf root then some ((disk p).getD ⟨none, none⟩) else disk p

/-- The outcomes of a bare `mkdirSync`: the directory is made, `EEXIST`, any other error. -/
inductive Made where
  | created (disk : Disk)
  | exists
  | refused

def Disk.mkdir (disk : Disk) (p : Path) (who : Nat) : Made :=
  if (disk p).isSome then .exists
  else if (disk p.dropLast).isSome then .created (disk.put p (some ⟨some who, none⟩))
  else .refused

/-- `rmSync(dir, { recursive: true, force: true })`. -/
def Disk.rm (disk : Disk) (p : Path) : Disk :=
  fun q => if p.isPrefixOf q then none else disk q

/-- `writeFileSync(join(dir, "held-at"), …)` into whatever directory is there; it throws when
    there is none. -/
def Disk.writeHeldAt (disk : Disk) (p : Path) (at_ : Int) : Option Disk :=
  (disk p).map fun dir => disk.put p (some { dir with heldAt := some at_ })

/-! ## Section 3: Callers -/

/-- Where a caller of `withRefresh` stands. `since` is when it made the directory. -/
inductive Phase where
  /-- Before `mkdirSync(root)`. -/
  | entering
  /-- Before the deadline is set. -/
  | starting
  /-- Before `mkdirSync(dir)`. -/
  | acquiring (deadline : Int)
  /-- The directory is made; before the clock is read for its stamp. -/
  | writing (since : Int)
  /-- Before `held-at` is written. -/
  | stamping (since stamp : Int)
  /-- In `fn`. -/
  | running (since : Int)
  /-- Before the directory is removed. -/
  | releasing (since : Int)
  /-- The directory was there; before it is looked at. -/
  | reading (deadline : Int)
  /-- What was seen of it is compared with the clock. -/
  | judging (deadline : Int) (seen : Option Dir)
  /-- Before a stale directory is removed. -/
  | breaking (deadline : Int) (seen : Option Dir)
  /-- The lock is fresh; before the deadline is looked at. -/
  | waiting (deadline : Int)
  /-- Before `recheck` is asked, and the next try. -/
  | sleeping (deadline : Int)
  /-- It has returned. -/
  | done
  /-- It has thrown. -/
  | failed
  /-- Its process is gone, and its directory is not. -/
  | crashed
deriving DecidableEq, Repr

/-- Since when a caller holds the lock. -/
def Phase.since : Phase → Option Int
  | .writing since | .stamping since _ | .running since | .releasing since => some since
  | _ => none

/-- A caller that takes no further step. -/
def Phase.ended : Phase → Bool
  | .done | .failed | .crashed => true
  | _ => false

structure Caller where
  key : Text
  waitMs : Int
  phase : Phase
deriving DecidableEq, Repr

/-- What the awaited `fn` or `recheck` comes back with. -/
inductive Answer where
  /-- A value. -/
  | result
  /-- `undefined`, of `recheck`. -/
  | nothing
  /-- It throws. -/
  | throws
deriving DecidableEq, Repr

structure Config where
  root : Path
  staleMs : Nat

def lockPath (cfg : Config) (key : Text) : Path :=
  joinName cfg.root (safeKey key)

/-- One operation of the caller `who` of `withRefreshImpl`. -/
def withRefreshStep (cfg : Config) (now : Int) (disk : Disk) (who : Nat) (c : Caller)
    (answer : Answer) : Option (Disk × Phase) :=
  let dir := lockPath cfg c.key
  match c.phase with
  | .entering => some (disk.mkdirAll cfg.root, .starting)
  | .starting => some (disk, .acquiring (now + c.waitMs))
  | .acquiring deadline =>
      match disk.mkdir dir who with
      | .created disk => some (disk, .writing now)
      | .exists => some (disk, .reading deadline)
      | .refused => some (disk, .failed)
  | .writing since => some (disk, .stamping since now)
  | .stamping since stamp =>
      match disk.writeHeldAt dir stamp with
      | some disk => some (disk, .running since)
      | none => some (disk, .failed)
  | .running since => some (disk, .releasing since)
  | .releasing _ => some (disk.rm dir, .done)
  | .reading deadline => some (disk, .judging deadline (disk dir))
  | .judging deadline seen =>
      match seen.bind Dir.heldAt with
      | none => some (disk, .breaking deadline seen)
      | some heldAt =>
          if (cfg.staleMs : Int) < now - heldAt then some (disk, .breaking deadline seen)
          else some (disk, .waiting deadline)
  | .breaking deadline _ => some (disk.rm dir, .acquiring deadline)
  | .waiting deadline =>
      if deadline ≤ now then some (disk, .failed) else some (disk, .sleeping deadline)
  | .sleeping deadline =>
      match answer with
      | .result => some (disk, .done)
      | .nothing => some (disk, .acquiring deadline)
      | .throws => some (disk, .failed)
  | .done | .failed | .crashed => none

/-! ## Section 4: All callers on one disk -/

structure State where
  now : Int
  disk : Disk
  callers : List Caller

inductive Label where
  | act (who : Nat) (answer : Answer)
  | crash (who : Nat)
  | elapse (later : Int)

def State.move (s : State) (who : Nat) (c : Caller) (phase : Phase) : State :=
  { s with callers := s.callers.set who { c with phase } }

/-- No live holder keeps the lock longer than `staleMs`: time does not pass that point. -/
def State.withinStale (cfg : Config) (s : State) (later : Int) : Bool :=
  s.callers.all fun c => c.phase.since.all fun since => decide (later ≤ since + cfg.staleMs)

def next (cfg : Config) (s : State) : Label → Option State
  | .act who answer =>
      match s.callers[who]? with
      | none => none
      | some c =>
          match withRefreshStep cfg s.now s.disk who c answer with
          | none => none
          | some (disk, phase) => some { s.move who c phase with disk }
  | .crash who =>
      match s.callers[who]? with
      | none => none
      | some c => some (s.move who c .crashed)
  | .elapse later =>
      if s.now ≤ later ∧ s.withinStale cfg later then some { s with now := later } else none

/-- Callers come to a disk that earlier processes may have left lock directories on. -/
def Starts (s : State) : Prop :=
  (∀ p dir, s.disk p = some dir → dir.creator = none) ∧ ∀ c ∈ s.callers, c.phase = .entering

def lock (cfg : Config) : System State Label where
  init := Starts
  next := next cfg

end Lares.RefreshLock
