import Lares.Framework.Gregorian
import Lares.Framework.Numbers
import Mathlib

/-! # Retention of conversations

    The nightly prune of an owner's conversation entries (`pruneForOwner`).

    * **Cutoff**: the clock with its month set back by the owner's months, or
      the floor of thirty days, whichever is earlier.
    * **Prune**: the oldest entries of the owner before the cutoff, at most the
      batch limit of them. Whatever cannot be read or deleted is refused.

    A `Date` is its milliseconds; the column `at` has microseconds.
-/

namespace Lares.Conversations

open Gregorian

abbrev Text := List Char

/-! ## Section 1: Dates -/

def MS_PER_DAY : Int := 86400000

/-- The greatest time value of a `Date`, and the least with its sign -/
def MAX_TIME : Int := 8640000000000000

/-- A time value, or `NaN` beyond the range -/
def timeClip (t : Int) : Option Int := if -MAX_TIME ≤ t ∧ t ≤ MAX_TIME then some t else none

/-- `date.setUTCMonth(month)`: the days of the month go on into the next one. -/
def setUTCMonth (t month : Int) : Option Int :=
  let day := t / MS_PER_DAY
  timeClip ((firstDay (12 * (monthOf day / 12) + month) + dayOfMonth day - 1) * MS_PER_DAY +
    t % MS_PER_DAY)

def getUTCMonth (t : Int) : Int := monthOf (t / MS_PER_DAY) % 12

/-- `date.setUTCDate(date.getUTCDate() - days)` -/
def minusDays (t days : Int) : Option Int := timeClip (t - days * MS_PER_DAY)

/-- `Date.parse("2026-01-01T00:00:00Z")` -/
def EARLIEST_SANE_CLOCK : Int := firstDay (12 * 2026) * MS_PER_DAY

/-- `date.toISOString()` -/
def toISOString (t : Int) : Text :=
  let day := t / MS_PER_DAY
  let ms := t % MS_PER_DAY
  let padded (width : Nat) (n : Int) : Text :=
    (Numbers.written (some n.natAbs)).leftpad width '0'
  let year := monthOf day / 12
  (if 0 ≤ year ∧ year ≤ 9999 then padded 4 year
    else (if year < 0 then '-' else '+') :: padded 6 year) ++
    '-' :: padded 2 (monthOf day % 12 + 1) ++ '-' :: padded 2 (dayOfMonth day) ++
    'T' :: padded 2 (ms / 3600000) ++ ':' :: padded 2 (ms / 60000 % 60) ++
    ':' :: padded 2 (ms / 1000 % 60) ++ '.' :: padded 3 (ms % 1000) ++ ['Z']

/-! ## Section 2: Tables -/

/-- A row of `conversation_entries`, with what the prune reads of it -/
structure ConversationEntry where
  id : Text
  personKey : Text
  «at» : Int
  deriving DecidableEq

/-- A row of `memory_reads` -/
structure MemoryRead where
  owner : Text
  «at» : Int
  deriving DecidableEq

structure Store where
  /-- `conversation_retention` by its primary key, `NULL` for ever -/
  retention : List (Text × Option Nat)
  entries : List ConversationEntry
  reads : List MemoryRead

/-- `ORDER BY at ASC`: which of two equal instants comes first is open. -/
structure OldestFirst where
  sort : List ConversationEntry → List ConversationEntry
  perm : ∀ rows, (sort rows).Perm rows
  sorted : ∀ rows, (sort rows).Pairwise fun a b => a.at ≤ b.at

/-- The statements of a run that the database refuses, with its message -/
structure Faults where
  setting : Option Text
  delete : Option Text
  /-- `none` within: the table is missing (42P01) -/
  reads : Option (Option Text)

/-! ## Section 3: The setting -/

def DEFAULT_RETENTION_MONTHS : Nat := 12

/-- `none` keeps for ever; no row is the default. -/
def readRetentionMonths (s : Store) (owner : Text) : Option Nat :=
  match s.retention.find? fun row => row.1 = owner with
  | some row => row.2
  | none => some DEFAULT_RETENTION_MONTHS

/-- `none` within is an invalid date. -/
def cutoffFor (months : Option Nat) (now : Int) : Option (Option Int) :=
  months.map fun n : Nat => setUTCMonth now (getUTCMonth now - n)

/-! ## Section 4: The prune -/

inductive Outcome
  | pruned
  | keptForever
  | refused
  deriving DecidableEq

structure PruneOutcome where
  outcome : Outcome
  /-- How many entries. -/
  deleted : Nat
  /-- How many memory reads. -/
  deletedReads : Nat
  /-- What is older was deleted. -/
  cutoff : Option (Option Int)
  /-- Why it was skipped or failed. -/
  reason : Option Text
  /-- There is more to delete. -/
  batchLimited : Option Bool

def PRUNE_FLOOR_DAYS : Int := 30

def PRUNE_BATCH_LIMIT : Int := 5000

def refused (cutoff : Option (Option Int)) (reason : Text) : PruneOutcome :=
  ⟨.refused, 0, 0, cutoff, some reason, none⟩

/-- `at < $2`: no row is before an invalid date. -/
def before (cutoff : Option Int) (at_ : Int) : Bool := cutoff.any fun c => at_ < c * 1000

/-- `window < floor ? window : floor`, with `NaN` less than nothing -/
def earlier (window floor : Option Int) : Option Int :=
  match window, floor with
  | some w, some f => if w < f then some w else some f
  | _, _ => floor

/-- The rows that the DELETE removes. -/
def doomed (order : OldestFirst) (owner : Text) (cutoff : Option Int) (limit : Nat)
    (rows : List ConversationEntry) : List ConversationEntry :=
  (order.sort (rows.filter fun e => e.personKey = owner && before cutoff e.at)).take limit

/-- What a run does to the store, and its outcome or what it throws. -/
def pruneForOwner (order : OldestFirst) (faults : Faults) (owner : Text) (now : Option Int)
    (floorDays batchLimit : Option Int) (s : Store) : Except Text PruneOutcome × Store :=
  if now.all fun t => t < EARLIEST_SANE_CLOCK then
    (.ok (refused none ("the clock reads ".toList ++
      (now.map toISOString).getD "an invalid date".toList ++ ", before ".toList ++
      toISOString EARLIEST_SANE_CLOCK ++ (" — nothing was deleted, because the cutoff is " ++
      "computed from the clock").toList)), s)
  else match faults.setting with
  | some message =>
    (.ok (refused none (("could not read the retention setting — nothing was deleted: ").toList ++
      message ++ (" (has the latest database update been applied on this " ++
      "installation?)").toList)), s)
  | none =>
    match readRetentionMonths s owner with
    | none => (.ok ⟨.keptForever, 0, 0, none, none, none⟩, s)
    | some months =>
      let t := now.getD 0
      let window := (cutoffFor (some months) t).join
      let floor := minusDays t (floorDays.getD PRUNE_FLOOR_DAYS)
      let cutoff := earlier window floor
      let limit := batchLimit.getD PRUNE_BATCH_LIMIT
      let cannotDelete (message : Text) : PruneOutcome :=
        refused (some cutoff) ("could not delete — nothing was deleted: ".toList ++ message)
      match faults.delete with
      | some message => (.ok (cannotDelete message), s)
      | none =>
        if limit < 0 then (.ok (cannotDelete "LIMIT must not be negative".toList), s)
        else
          let gone := doomed order owner cutoff limit.toNat s.entries
          let entries := s.entries.diff gone
          let outcome (deletedReads : Nat) : PruneOutcome :=
            { outcome := .pruned
              deleted := gone.length
              deletedReads := deletedReads
              cutoff := some cutoff
              reason := none
              batchLimited := some (limit ≤ gone.length) }
          match faults.reads with
          | some (some message) => (.error message, { s with entries := entries })
          | some none => (.ok (outcome 0), { s with entries := entries })
          | none =>
            let stale := s.reads.filter fun r => r.owner = owner && before cutoff r.at
            (.ok (outcome stale.length), { s with
              entries := entries
              reads := s.reads.filter fun r => !(r.owner = owner && before cutoff r.at) })

end Lares.Conversations
