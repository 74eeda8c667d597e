import Lares.Framework.System
import Lares.Journal.Projection

/-! # The states of the committed fold

    The part of the journal that a whole-ledger check is compared with, as a
    system: a step commits a proposal or summarises finished attempts.

    * `ledgerOf` and `checkpointsOf`: what a run has committed, which forgets
      when and what was summarised.
    * `Recorded`: the fold and the trail hold that ledger and those
      checkpoints, and every part of them passed its schema.
-/

namespace Lares.Journal

/-! ## Section 1: The system -/

/-- The most entries a Map of the runtime can have. -/
def MAP_MAX_ENTRIES : Nat := 16777216

/-- The fold and the trail, and the next sequence. -/
structure Committed where
  journalId : Id
  /-- The sequence of the next record. -/
  sequence : Nat
  fold : Fold
  trail : Trail

/-- A step of the committed part of the journal. -/
inductive CommitStep where
  /-- A commit; `skip` records stand between the last step and its proposal. -/
  | commit (skip : Nat) (operationId : Id) (digest : Hash) (operation : BudgetFinancialOperation)
      (atoms : List FinancialAtom)
  /-- `summariseFinished(Date.now())` of a load or of a new book. -/
  | summarise (now : Int)

namespace Committed

variable (codec : LedgerCodec)

def start (journalId : Id) : Committed := ⟨journalId, 1, Fold.empty, Trail.empty⟩

/-- Neither Map has outgrown the runtime. -/
def fits (f : Fold) : Bool :=
  decide (f.projection.rows.length ≤ MAP_MAX_ENTRIES) &&
    decide (f.summarised.rows.length ≤ MAP_MAX_ENTRIES)

/-- The checkpoint of a commit. -/
def checkpoint (s : Committed) (skip : Nat) (operationId : Id) (digest : Hash) :
    FinancialCheckpoint := ⟨operationId, s.journalId, s.sequence + skip, digest⟩

/-- One step. A proposal was checked by `propose`, its checkpoint by the record schema. -/
def next (s : Committed) : CommitStep → Option Committed
  | .commit skip operationId digest operation atoms =>
      let row := s.checkpoint skip operationId digest
      let fold := s.fold.applyAtoms codec.toCodec atoms
      if uniqueFinancialAtoms atoms && atoms.all codec.acceptsAtom && codec.acceptsCheckpoint row
          && fits fold then
        some { s with
          sequence := row.sequence + 1
          fold := fold
          trail := s.trail.addCheckpoint codec.toCodec row operation }
      else none
  | .summarise now =>
      let fold := s.fold.summariseFinished codec.toCodec (some now)
      if fits fold then some { s with fold := fold } else none

/-- The states of the committed part of a journal. -/
def system (journalId : Id) : System Committed CommitStep where
  init s := s = start journalId
  next := next codec

end Committed

/-! ## Section 2: What a run has committed -/

namespace CommitStep

/-- The ledger after the step. -/
def ledger (ledger : Ledger) : CommitStep → Ledger
  | commit _ _ _ _ atoms => ledger.putAll atoms
  | summarise _ => ledger

/-- The atoms of the step. -/
def atoms : CommitStep → List FinancialAtom
  | commit _ _ _ _ atoms => atoms
  | summarise _ => []

/-- Whether the step commits something. -/
def commits : CommitStep → Bool
  | commit .. => true
  | summarise _ => false

end CommitStep

/-- The newest committed atom of every key. -/
def ledgerOf (steps : List CommitStep) : Ledger :=
  steps.foldl CommitStep.ledger fun _ => none

/-- The checkpoints of the commits, from a sequence on. -/
def checkpointsFrom (journalId : Id) : Nat → List CommitStep → List FinancialCheckpoint
  | _, [] => []
  | sequence, .commit skip operationId digest _ _ :: steps =>
      ⟨operationId, journalId, sequence + skip, digest⟩ ::
        checkpointsFrom journalId (sequence + skip + 1) steps
  | sequence, .summarise _ :: steps => checkpointsFrom journalId sequence steps

/-- The recorded checkpoints, oldest first. -/
def checkpointsOf (journalId : Id) (steps : List CommitStep) : List FinancialCheckpoint :=
  checkpointsFrom journalId 1 steps

/-- Summarising leaves no trace in the ledger. -/
theorem ledgerOf_commits (steps : List CommitStep) :
    ledgerOf (steps.filter CommitStep.commits) = ledgerOf steps := by
  unfold ledgerOf
  generalize (fun _ => none : Ledger) = ledger
  induction steps generalizing ledger with
  | nil => rfl
  | cons step steps ih =>
    cases step with
    | commit => exact ih _
    | summarise now => exact ih ledger

/-- Nor in the checkpoints. -/
theorem checkpointsOf_commits (journalId : Id) (steps : List CommitStep) :
    checkpointsOf journalId (steps.filter CommitStep.commits) = checkpointsOf journalId steps := by
  unfold checkpointsOf
  generalize 1 = sequence
  induction steps generalizing sequence with
  | nil => rfl
  | cons step steps ih =>
    cases step with
    | commit skip operationId digest operation atoms =>
      exact congrArg (List.cons _) (ih (sequence + skip + 1))
    | summarise now => exact ih sequence

/-! ## Section 3: The invariant -/

/-- The rolling digest of a list of checkpoints. -/
def Codec.rollingOf (codec : Codec) (checkpoints : List FinancialCheckpoint) : Hash :=
  checkpoints.foldl codec.rolling zero

/-- The state holds the ledger and the checkpoints, all of them checked. -/
structure Recorded (codec : LedgerCodec) (s : Committed) (ledger : Ledger)
    (checkpoints : List FinancialCheckpoint) : Prop where
  /-- The fold holds the ledger. -/
  represents : s.fold.Represents codec.toCodec ledger
  /-- It is within its bounds. -/
  fits : Committed.fits s.fold = true
  /-- An atom stands under its own key. -/
  keyed : ∀ {key atom}, ledger key = some atom → financialAtomKey atom = key
  /-- It has been checked. -/
  accepted : ∀ {key atom}, ledger key = some atom → codec.acceptsAtom atom = true
  /-- The trail counts the checkpoints. -/
  count : s.trail.checkpointCount = checkpoints.length
  /-- It has their digest. -/
  rolling : s.trail.checkpointDigest = codec.rollingOf checkpoints
  /-- They have been checked. -/
  checked : ∀ row ∈ checkpoints, codec.acceptsCheckpoint row = true
  /-- Their sequences grow. -/
  increasing : checkpoints.Pairwise fun a b => a.sequence < b.sequence
  /-- They are older than the journal. -/
  before : ∀ row ∈ checkpoints, row.sequence < s.sequence

/-- What a ledger holds after more atoms was there or is one of them. -/
theorem putAll_some {ledger : Ledger} {atoms : List FinancialAtom} {key : AtomKey}
    {atom : FinancialAtom} (h : ledger.putAll atoms key = some atom) :
    ledger key = some atom ∨ atom ∈ atoms ∧ financialAtomKey atom = key := by
  induction atoms generalizing ledger with
  | nil => exact .inl h
  | cons first atoms ih =>
    rcases ih h with hput | ⟨hmem, hkey⟩
    · unfold Ledger.put at hput
      split at hput
      · next hk =>
        cases hput
        exact .inr ⟨List.mem_cons_self, hk.symm⟩
      · exact .inl hput
    · exact .inr ⟨List.mem_cons_of_mem _ hmem, hkey⟩

theorem recorded_start (codec : LedgerCodec) (journalId : Id) :
    Recorded codec (Committed.start journalId) (fun _ => none) [] where
  represents := Fold.represents_empty codec.toCodec
  fits := rfl
  keyed := fun h => by cases h
  accepted := fun h => by cases h
  count := rfl
  rolling := rfl
  checked := fun _ h => by cases h
  increasing := List.Pairwise.nil
  before := fun _ h => by cases h

/-- What a step does to the journal's id and to the checkpoints that follow. -/
theorem Committed.next_sequence {codec : LedgerCodec} {s t : Committed} {step : CommitStep}
    (h : s.next codec step = some t) :
    t.journalId = s.journalId ∧ ∀ steps, checkpointsFrom s.journalId s.sequence (step :: steps) =
      checkpointsFrom s.journalId s.sequence [step] ++
        checkpointsFrom t.journalId t.sequence steps := by
  cases step with
  | commit skip operationId digest operation atoms =>
    simp only [Committed.next] at h
    split at h
    · cases h
      exact ⟨rfl, fun steps => rfl⟩
    · cases h
  | summarise now =>
    simp only [Committed.next] at h
    split at h
    · cases h
      exact ⟨rfl, fun steps => rfl⟩
    · cases h

/-- The checkpoints of a run that goes on. -/
theorem Committed.run_sequence {codec : LedgerCodec} {journalId : Id} {steps : List CommitStep}
    {s t : Committed} (h : (Committed.system codec journalId).run s steps = some t) :
    t.journalId = s.journalId ∧ ∀ more, checkpointsFrom s.journalId s.sequence (steps ++ more) =
      checkpointsFrom s.journalId s.sequence steps ++
        checkpointsFrom t.journalId t.sequence more := by
  induction steps generalizing s with
  | nil =>
    cases h
    exact ⟨rfl, fun more => rfl⟩
  | cons step steps ih =>
    obtain ⟨u, hstep, hrest⟩ := Option.bind_eq_some_iff.1 h
    obtain ⟨hjournal, hsplit⟩ := Committed.next_sequence hstep
    obtain ⟨hjournal', hsplit'⟩ := ih hrest
    refine ⟨hjournal'.trans hjournal, fun more => ?_⟩
    rw [List.cons_append, hsplit, hsplit', hsplit steps, List.append_assoc]

/-- **One step** keeps the record, with what the step commits. -/
theorem Recorded.step {codec : LedgerCodec} {s t : Committed} {ledger : Ledger}
    {checkpoints : List FinancialCheckpoint} {step : CommitStep}
    (h : Recorded codec s ledger checkpoints) (hstep : s.next codec step = some t) :
    Recorded codec t (step.ledger ledger)
      (checkpoints ++ checkpointsFrom s.journalId s.sequence [step]) := by
  cases step with
  | commit skip operationId digest operation atoms =>
    simp only [Committed.next] at hstep
    split at hstep
    · next hok =>
      cases hstep
      simp only [Bool.and_eq_true, List.all_eq_true] at hok
      obtain ⟨⟨⟨-, haccepts⟩, hcheckpoint⟩, hfits⟩ := hok
      -- The atoms of the commit go to the fold, its checkpoint to the trail.
      refine ⟨h.represents.applyAtoms atoms, hfits, ?_, ?_, ?_, ?_, ?_, ?_, ?_⟩
      · intro key atom hledger
        rcases putAll_some hledger with hold | ⟨-, hkey⟩
        · exact h.keyed hold
        · exact hkey
      · intro key atom hledger
        rcases putAll_some hledger with hold | ⟨hmem, -⟩
        · exact h.accepted hold
        · exact haccepts atom hmem
      · show s.trail.checkpointCount + 1 = _
        rw [h.count, List.length_append]
        rfl
      · show codec.rolling s.trail.checkpointDigest _ = _
        rw [h.rolling, Codec.rollingOf, Codec.rollingOf, List.foldl_append]
        rfl
      · intro row hrow
        rcases List.mem_append.1 hrow with hold | hnew
        · exact h.checked row hold
        · rw [List.mem_singleton.1 hnew]
          exact hcheckpoint
      · rw [List.pairwise_append]
        refine ⟨h.increasing, List.pairwise_singleton _ _, ?_⟩
        intro a ha b hb
        have hlt := h.before a ha
        rw [List.mem_singleton.1 hb]
        show a.sequence < s.sequence + skip
        omega
      · intro row hrow
        show row.sequence < s.sequence + skip + 1
        rcases List.mem_append.1 hrow with hold | hnew
        · have := h.before row hold
          omega
        · rw [List.mem_singleton.1 hnew]
          show s.sequence + skip < _
          omega
    · cases hstep
  | summarise now =>
    -- A summing up changes neither the ledger nor the trail.
    simp only [Committed.next] at hstep
    split at hstep
    · next hfits =>
      cases hstep
      show Recorded codec _ ledger (checkpoints ++ [])
      rw [List.append_nil]
      exact { h with represents := h.represents.summariseFinished _, fits := hfits }
    · cases hstep

/-- **Runs**: a run records its ledger and its checkpoints. -/
theorem Recorded.run {codec : LedgerCodec} {journalId : Id} {steps : List CommitStep}
    {s t : Committed} {ledger : Ledger} {checkpoints : List FinancialCheckpoint}
    (h : Recorded codec s ledger checkpoints)
    (hrun : (Committed.system codec journalId).run s steps = some t) :
    Recorded codec t (steps.foldl CommitStep.ledger ledger)
      (checkpoints ++ checkpointsFrom s.journalId s.sequence steps) := by
  induction steps generalizing s ledger checkpoints with
  | nil =>
    cases hrun
    show Recorded codec t ledger (checkpoints ++ [])
    rwa [List.append_nil]
  | cons step steps ih =>
    obtain ⟨u, hstep, hrest⟩ := Option.bind_eq_some_iff.1 hrun
    have htail := ih (h.step hstep) hrest
    rw [List.append_assoc, ← (Committed.next_sequence hstep).2 steps] at htail
    exact htail

/-- A journal records what its steps committed. -/
theorem recorded_run {codec : LedgerCodec} {journalId : Id} {steps : List CommitStep}
    {s : Committed}
    (hrun : (Committed.system codec journalId).run (Committed.start journalId) steps = some s) :
    Recorded codec s (ledgerOf steps) (checkpointsOf journalId steps) :=
  (recorded_start codec journalId).run hrun

end Lares.Journal
