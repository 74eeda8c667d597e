import Lares.Framework.Lines
import Lares.Framework.Numbers
import Lares.Framework.Ranks
import Lares.Framework.Table
import Mathlib

/-! # Standing facts

    The owner's facts, stored once and told to every session.

    * **Store**: one row a fact; a row is retired or superseded, never removed.
      Ids come from a sequence that transactions which roll back also use up.
    * **Read**: the facts of one owner that stand, newest first, cut at
      `MAX_STANDING_FACTS`.
    * **Correction**: what a later read of the list differs in from the read
      that the session's block was built from.
-/

namespace Lares.Facts

open Numbers

abbrev Text := List Char

/-! ## Section 1: The store -/

inductive Category
  | travel
  | schedule
  | preference
  | people
  | places
  deriving DecidableEq

def Category.text : Category → Text
  | .travel => "travel".toList
  | .schedule => "schedule".toList
  | .preference => "preference".toList
  | .people => "people".toList
  | .places => "places".toList

structure StandingFact where
  id : Nat
  fact : Text
  category : Category
  /-- The turn it was told in. -/
  sourceTurn : Text
  userId : Text
  statedAt : Int
  /-- When it was said to hold no longer. -/
  retiredAt : Option Int
  /-- The fact that has taken its place. -/
  supersededBy : Option Nat
  deriving DecidableEq

structure NewStandingFact where
  fact : Text
  category : Category
  sourceTurn : Text
  userId : Text
  statedAt : Option Int

/-- The table, and the next id of its sequence. -/
structure Store where
  facts : Table StandingFact.id
  nextId : Nat
  fresh : ∀ f ∈ facts, f.id < nextId

namespace Store

def empty : Store where
  facts := Table.empty
  nextId := 1
  fresh := by
    intro f hf
    cases hf

/-- Ids that other transactions took. -/
def skip (s : Store) (n : Nat) : Store where
  facts := s.facts
  nextId := s.nextId + n
  fresh := by
    intro f hf
    exact Nat.lt_add_right n (s.fresh f hf)

/-- The row of an insert. -/
def newRow (s : Store) (f : NewStandingFact) (now : Int) : StandingFact where
  id := s.nextId
  fact := Lines.trim f.fact
  category := f.category
  sourceTurn := f.sourceTurn
  userId := f.userId
  statedAt := f.statedAt.getD now
  retiredAt := none
  supersededBy := none

def insert (s : Store) (f : NewStandingFact) (now : Int) : Store where
  facts := s.facts.set (s.newRow f now)
  nextId := s.nextId + 1
  fresh := by
    intro g hg
    rcases Table.mem_set.1 hg with rfl | ⟨hg, -⟩
    · exact Nat.lt_succ_self _
    · exact Nat.lt_succ_of_lt (s.fresh g hg)

/-- The row `f` retired, and linked to what replaces it. -/
def retire (s : Store) (f : StandingFact) (instant : Int) (replacement : Option Nat) : Store where
  facts := s.facts.put { f with retiredAt := some instant, supersededBy := replacement }
  nextId := s.nextId
  fresh := by
    intro g hg
    rcases Table.mem_put.1 hg with ⟨hg, -⟩ | ⟨rfl, y, hy, hid⟩
    · exact s.fresh g hg
    · exact hid ▸ s.fresh y hy

/-- `WHERE id = $1 AND user_id = $2 AND retired_at IS NULL` -/
def standing? (s : Store) (id : Nat) (userId : Text) : Option StandingFact :=
  (s.facts.find? id).filter fun f => f.userId = userId ∧ f.retiredAt = none

end Store

/-! ## Section 2: Transactions -/

def rememberFact (s : Store) (f : NewStandingFact) (now : Int) : Store := s.insert f now

/-- A row that is unknown, closed or another owner's is left alone. -/
def forgetFact (s : Store) (id : Nat) (userId : Text) (given : Option Int) (now : Int) : Store :=
  match s.standing? id userId with
  | some f => s.retire f (given.getD now) none
  | none => s

/-- The insert comes first, since the closed row names the new one. -/
def supersedeFact (s : Store) (oldId : Nat) (f : NewStandingFact) (now : Int) : Store :=
  match s.standing? oldId f.userId with
  | some old => (s.insert f now).retire old (f.statedAt.getD now) (some s.nextId)
  | none => s

inductive Call
  | remember (f : NewStandingFact)
  | forget (id : Nat) (userId : Text) (given : Option Int)
  | supersede (oldId : Nat) (f : NewStandingFact)

/-- A call in its transaction. One that rolls back, because a statement, the ledger's writer or the
    commit failed, leaves nothing but ids used up. -/
structure Transaction where
  call : Call
  now : Int
  rolledBack : Bool
  skipped : Nat

def Call.run (s : Store) (now : Int) : Call → Store
  | .remember f => rememberFact s f now
  | .forget id userId given => forgetFact s id userId given now
  | .supersede oldId f => supersedeFact s oldId f now

def Transaction.run (s : Store) (t : Transaction) : Store :=
  if t.rolledBack then s.skip t.skipped else t.call.run (s.skip t.skipped) t.now

def runAll (s : Store) (ts : List Transaction) : Store := ts.foldl Transaction.run s

/-! ## Section 3: Reads -/

def MAX_STANDING_FACTS : Nat := 40

/-- `ORDER BY stated_at DESC, id DESC`: the key of the order -/
def StandingFact.age (f : StandingFact) : Lex (Int × Nat) := toLex (f.statedAt, f.id)

/-- `WHERE user_id = $1 AND retired_at IS NULL` -/
def standing (s : Store) (userId : Text) : List StandingFact :=
  s.facts.rows.filter fun f => f.userId = userId ∧ f.retiredAt = none

def listActiveFacts (s : Store) (userId : Text) (limit : Nat) : List StandingFact :=
  (Ranks.greatestFirst StandingFact.age (standing s userId)).take limit

/-! ## Section 4: The correction -/

/-- `` `${f.id}:${f.retiredAt ? 1 : 0}` `` -/
def fingerprintPart (f : StandingFact) : Text :=
  written (some f.id) ++ ':' :: [if f.retiredAt = none then '0' else '1']

/-- The text that the fingerprint digests. -/
def fingerprintText (facts : List StandingFact) : Text :=
  [','].intercalate ((facts.map fingerprintPart).insertionSort (· ≤ ·))

/-- `sha256` in hexadecimal digits, cut at 16 of them -/
def factsCoreFingerprint (sha256 : Text → Text) (facts : List StandingFact) : Text :=
  (sha256 (fingerprintText facts)).take 16

inductive Origin
  | owner
  | agent
  | system
  | thirdParty
  | synced
  deriving DecidableEq

structure AgentNote where
  note : Text
  kind : Text
  origin : Origin
  deriving DecidableEq

/-- Never a note of a turn that had read someone else's words. -/
def SAFE_TO_SURFACE_NOTE_ORIGINS : List Origin := [.owner, .agent, .system]

def standingFactLine (f : StandingFact) : Text :=
  "- [".toList ++ written (some f.id) ++ "] ".toList ++ f.fact ++ " (".toList ++
    f.category.text ++ ")".toList

def agentNoteLine (n : AgentNote) : Text :=
  "- ".toList ++ n.note ++ " (".toList ++ n.kind ++ ")".toList

/-- The lists that the correction renders. -/
structure Correction where
  retired : List StandingFact
  added : List StandingFact
  safeNotes : List AgentNote

/-- Absent from the later list, or retired in it. -/
def noLongerApplies (currentFacts : List StandingFact) (f : StandingFact) : Bool :=
  -- a map keeps the last entry of a key
  match currentFacts.reverse.find? fun g => g.id = f.id with
  | none => true
  | some now => now.retiredAt ≠ none

def factsCorrection (sha256 : Text → Text) (sessionFacts currentFacts : List StandingFact)
    (notes : List AgentNote) : Correction :=
  let factsChanged := factsCoreFingerprint sha256 sessionFacts ≠
    factsCoreFingerprint sha256 currentFacts
  { retired := if factsChanged then sessionFacts.filter (noLongerApplies currentFacts) else []
    added := if factsChanged then
      currentFacts.filter fun f => f.retiredAt = none ∧ ∀ g ∈ sessionFacts, g.id ≠ f.id
      else []
    safeNotes := notes.filter fun n => n.origin ∈ SAFE_TO_SURFACE_NOTE_ORIGINS }

/-- A section of the correction, with its heading unless it is empty. -/
def correctionSection (heading : Text) (lines : List Text) : List Text :=
  if lines = [] then [] else heading :: lines

def Correction.text (c : Correction) : Text :=
  if c.retired = [] ∧ c.added = [] ∧ c.safeNotes = [] then []
  else ['\n'].intercalate ("## Since this conversation began".toList ::
    (correctionSection ("This no longer applies — ignore it from now on, whatever was said " ++
        "earlier in this conversation:").toList (c.retired.map standingFactLine) ++
      correctionSection "I have also been told:".toList (c.added.map standingFactLine) ++
      correctionSection "I have noted, this conversation:".toList (c.safeNotes.map agentNoteLine)))

def buildFactsCorrection (sha256 : Text → Text) (sessionFacts currentFacts : List StandingFact)
    (notes : List AgentNote) : Text :=
  (factsCorrection sha256 sessionFacts currentFacts notes).text

end Lares.Facts
