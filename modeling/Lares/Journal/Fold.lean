import Lares.Framework.Table
import Lares.Journal.Record
import Mathlib.Data.List.Perm.Basic
import Mathlib.Data.List.Nodup

/-! # The committed fold

    What the committed proposals add up to: the newest atom of every key, as a
    live row or, for a finished attempt and its grant, as a digest.

    * `Fold.Represents f ledger`: `f` holds the ledger, whichever rows it has
      summarised. Summarising keeps it, and applying atoms updates the ledger.
    * A fold counts and matches what the ledger it represents holds.
    * `Trail`: the checkpoints, their count and the rolling digest.
-/

namespace Lares.Journal

/-! ## Section 1: The fold -/

/-- What is kept of a finished row. -/
structure SummarisedAtom where
  key : AtomKey
  digest : Hash
  deriving DecidableEq

/-- `FOLD_SUMMARISE_AT` -/
def FOLD_SUMMARISE_AT : Nat := 64
/-- `FOLD_CHECKPOINT_TAIL` -/
def FOLD_CHECKPOINT_TAIL : Nat := 64

structure Fold where
  /-- The live rows. -/
  projection : Table financialAtomKey
  /-- The rows that were summed up. -/
  summarised : Table SummarisedAtom.key
  /-- How many attempts were summed up. -/
  summarisedAttempts : Int
  /-- How many grants. -/
  summarisedGrants : Int
  /-- How many rows were finished since the last summing up. -/
  finishedWaiting : Nat

namespace Fold

variable (codec : Codec)

def empty : Fold := ⟨Table.empty, Table.empty, 0, 0, 0⟩

def isAttempt (key : AtomKey) : Bool := key.1 == .attempt
def isGrant (key : AtomKey) : Bool := key.1 == .grant

/-- The states that cannot usually change again. -/
def finishedState (state : AttemptState) : Bool := state == .settled || state == .retired

def finishedAtom : FinancialAtom → Bool
  | .attempt row => finishedState row.state
  | _ => false

/-- The body of the loop of `applyAtoms`. -/
def applyAtom (f : Fold) (atom : FinancialAtom) : Fold :=
  let key := financialAtomKey atom
  let known := (f.summarised.find? key).isSome
  { projection := f.projection.set atom
    summarised := f.summarised.erase key
    summarisedAttempts := f.summarisedAttempts - if known && isAttempt key then 1 else 0
    summarisedGrants := f.summarisedGrants - if known && isGrant key then 1 else 0
    finishedWaiting := f.finishedWaiting + if finishedAtom atom then 1 else 0 }

/-- Move one row of the projection to the summaries. -/
def summariseRow (f : Fold) (atom : FinancialAtom) : Fold :=
  let key := financialAtomKey atom
  { f with
    projection := f.projection.erase key
    summarised := f.summarised.set ⟨key, codec.atomDigest atom⟩
    summarisedAttempts := f.summarisedAttempts + if isAttempt key then 1 else 0
    summarisedGrants := f.summarisedGrants + if isGrant key then 1 else 0 }

/-- Whether an attempt is summarised; with `now`, an expired prepared one is as well. -/
def finished (now : Option Int) (row : AttemptAtom) : Bool :=
  finishedState row.state ||
    (row.state == .prepared && now.any fun now => codec.dateParse row.expiresAt < now)

/-- The body of the loop of `summariseFinished`: the attempt, and its grant with it. -/
def summariseAttempt (now : Option Int) (f : Fold) (atom : FinancialAtom) : Fold :=
  match atom with
  | .attempt row =>
      if finished codec now row then
        let f := f.summariseRow codec atom
        match f.projection.find? (.grant, row.id) with
        | some grant => f.summariseRow codec grant
        | none => f
      else f
  | _ => f

/-- `summariseFinished` -/
def summariseFinished (now : Option Int) (f : Fold) : Fold :=
  { f.projection.rows.foldl (summariseAttempt codec now) f with finishedWaiting := 0 }

/-- `applyAtoms` -/
def applyAtoms (f : Fold) (atoms : List FinancialAtom) : Fold :=
  let f := atoms.foldl applyAtom f
  if f.finishedWaiting ≥ FOLD_SUMMARISE_AT then f.summariseFinished codec none else f

/-! ## Section 2: What is read from it -/

/-- Later rows of the proposal win, and all of them over the projection. -/
def overlaid (f : Fold) (overlay : List FinancialAtom) : Table financialAtomKey :=
  overlay.foldl Table.set f.projection

/-- The rows of the proposal that are summarised, by kind. -/
def resurfaced (f : Fold) (overlay : List FinancialAtom) (kind : AtomKey → Bool) : Int :=
  overlay.countP fun atom =>
    kind (financialAtomKey atom) && (f.summarised.find? (financialAtomKey atom)).isSome

/-- The counts of `foldProjection`, with the atoms of a proposal laid over the rows. -/
def counts (f : Fold) (overlay : List FinancialAtom) (checkpoints : Nat) : FinancialCounts :=
  let rows := (f.overlaid overlay).rows
  let count := fun kind : AtomKind => rows.countP fun atom => (financialAtomKey atom).1 == kind
  { accounts := count .account
    windows := count .window
    bindings := count .binding
    attempts := count .attempt + f.summarisedAttempts - f.resurfaced overlay isAttempt
    grants := count .grant + f.summarisedGrants - f.resurfaced overlay isGrant
    checkpoints }

/-- `matches` of an expectation. -/
def matchesAtom (f : Fold) (overlay : List FinancialAtom) (atom : FinancialAtom) : Bool :=
  match (f.overlaid overlay).find? (financialAtomKey atom) with
  | some live => codec.canonicalAtom live == codec.canonicalAtom atom
  | none =>
      match f.summarised.find? (financialAtomKey atom) with
      | some summary => summary.digest == codec.atomDigest atom
      | none => false

end Fold

/-! ## Section 3: The ledger a fold represents -/

/-- The newest committed atom of every key. -/
abbrev Ledger := AtomKey → Option FinancialAtom

/-- The ledger after one more atom. -/
def Ledger.put (ledger : Ledger) (atom : FinancialAtom) : Ledger := fun key =>
  if key = financialAtomKey atom then some atom else ledger key

def Ledger.putAll (ledger : Ledger) (atoms : List FinancialAtom) : Ledger :=
  atoms.foldl Ledger.put ledger

namespace Fold

variable (codec : Codec)

/-- The fold holds the ledger: each row live or summarised, and the summaries counted. -/
structure Represents (f : Fold) (ledger : Ledger) : Prop where
  /-- A live row is the ledger's. -/
  live : ∀ {key atom}, f.projection.find? key = some atom → ledger key = some atom
  /-- A summary is the digest of an attempt or a grant. -/
  summary : ∀ {key summary}, f.summarised.find? key = some summary →
    ∃ atom, ledger key = some atom ∧ summary.digest = codec.atomDigest atom ∧
      (isAttempt key = true ∨ isGrant key = true)
  /-- No row is both. -/
  apart : ∀ {key summary}, f.summarised.find? key = some summary → f.projection.find? key = none
  /-- Each row of the ledger is one of them. -/
  complete : ∀ {key atom}, ledger key = some atom →
    f.projection.find? key = some atom ∨ (f.summarised.find? key).isSome
  /-- The summarised attempts are counted. -/
  attempts : f.summarisedAttempts = f.summarised.keys.countP isAttempt
  /-- So are the grants. -/
  grants : f.summarisedGrants = f.summarised.keys.countP isGrant

theorem represents_empty : Represents codec empty fun _ => none where
  live := fun h => by cases h
  summary := fun h => by cases h
  apart := fun h => by cases h
  complete := fun h => by cases h
  attempts := rfl
  grants := rfl

variable {codec} {f g : Fold} {ledger : Ledger}

theorem applyAtom_projection (atom : FinancialAtom) (key : AtomKey) :
    (f.applyAtom atom).projection.find? key =
      if key = financialAtomKey atom then some atom else f.projection.find? key :=
  Table.find?_set atom key

theorem applyAtom_summarised (atom : FinancialAtom) (key : AtomKey) :
    (f.applyAtom atom).summarised.find? key =
      if key = financialAtomKey atom then none else f.summarised.find? key :=
  Table.find?_erase _ key

theorem summariseRow_projection (atom : FinancialAtom) (key : AtomKey) :
    (f.summariseRow codec atom).projection.find? key =
      if key = financialAtomKey atom then none else f.projection.find? key :=
  Table.find?_erase _ key

theorem summariseRow_summarised (atom : FinancialAtom) (key : AtomKey) :
    (f.summariseRow codec atom).summarised.find? key =
      if key = financialAtomKey atom then some ⟨financialAtomKey atom, codec.atomDigest atom⟩
      else f.summarised.find? key :=
  Table.find?_set _ key

/-- **One atom**: the ledger gets the atom, and a summary of it goes. -/
theorem Represents.applyAtom (h : Represents codec f ledger) (atom : FinancialAtom) :
    Represents codec (f.applyAtom atom) (ledger.put atom) where
  live := by
    intro key found hfind
    rw [applyAtom_projection] at hfind
    unfold Ledger.put
    split at hfind
    · next hk => rw [if_pos hk]; exact hfind
    · next hk => rw [if_neg hk]; exact h.live hfind
  summary := by
    intro key summary hfind
    rw [applyAtom_summarised] at hfind
    unfold Ledger.put
    split at hfind
    · cases hfind
    · next hk => rw [if_neg hk]; exact h.summary hfind
  apart := by
    intro key summary hfind
    rw [applyAtom_summarised] at hfind
    rw [applyAtom_projection]
    split at hfind
    · cases hfind
    · next hk => rw [if_neg hk]; exact h.apart hfind
  complete := by
    intro key found hledger
    rw [applyAtom_projection, applyAtom_summarised]
    unfold Ledger.put at hledger
    split at hledger
    · next hk => rw [if_pos hk]; exact .inl hledger
    · next hk => rw [if_neg hk, if_neg hk]; exact h.complete hledger
  attempts := by
    have := Table.countP_erase (t := f.summarised) (financialAtomKey atom) isAttempt
    simp only [Fold.applyAtom, h.attempts]
    split_ifs at this ⊢ <;> omega
  grants := by
    have := Table.countP_erase (t := f.summarised) (financialAtomKey atom) isGrant
    simp only [Fold.applyAtom, h.grants]
    split_ifs at this ⊢ <;> omega

theorem Represents.applyAll (h : Represents codec f ledger) (atoms : List FinancialAtom) :
    Represents codec (atoms.foldl Fold.applyAtom f) (ledger.putAll atoms) := by
  induction atoms generalizing f ledger with
  | nil => exact h
  | cons atom atoms ih => exact ih (h.applyAtom atom)

theorem Represents.fresh (h : Represents codec f ledger) {key : AtomKey} {atom : FinancialAtom}
    (hlive : f.projection.find? key = some atom) : f.summarised.find? key = none := by
  cases hs : f.summarised.find? key with
  | none => rfl
  | some summary =>
    rw [h.apart hs] at hlive
    cases hlive

/-- **One summary**: the ledger stays. -/
theorem Represents.summariseRow (h : Represents codec f ledger) {atom : FinancialAtom}
    (hlive : f.projection.find? (financialAtomKey atom) = some atom)
    (hkind : isAttempt (financialAtomKey atom) = true ∨ isGrant (financialAtomKey atom) = true) :
    Represents codec (f.summariseRow codec atom) ledger where
  live := by
    intro key found hfind
    rw [summariseRow_projection] at hfind
    split at hfind
    · cases hfind
    · exact h.live hfind
  summary := by
    intro key summary hfind
    rw [summariseRow_summarised] at hfind
    split at hfind
    · next hk =>
      cases hfind
      exact ⟨atom, by rw [hk]; exact h.live hlive, rfl, by rw [hk]; exact hkind⟩
    · exact h.summary hfind
  apart := by
    intro key summary hfind
    rw [summariseRow_summarised] at hfind
    rw [summariseRow_projection]
    split at hfind
    · next hk => rw [if_pos hk]
    · next hk => rw [if_neg hk]; exact h.apart hfind
  complete := by
    intro key found hledger
    rw [summariseRow_projection, summariseRow_summarised]
    by_cases hk : key = financialAtomKey atom
    · rw [if_pos hk, if_pos hk]
      exact .inr rfl
    · rw [if_neg hk, if_neg hk]
      exact h.complete hledger
  attempts := by
    have := Table.countP_set (t := f.summarised)
      ⟨financialAtomKey atom, codec.atomDigest atom⟩ isAttempt
    simp only [h.fresh hlive, Option.isSome_none, Bool.not_false, Bool.true_and] at this
    simp only [Fold.summariseRow, h.attempts, this]
    split_ifs <;> omega
  grants := by
    have := Table.countP_set (t := f.summarised)
      ⟨financialAtomKey atom, codec.atomDigest atom⟩ isGrant
    simp only [h.fresh hlive, Option.isSome_none, Bool.not_false, Bool.true_and] at this
    simp only [Fold.summariseRow, h.grants, this]
    split_ifs <;> omega

theorem Represents.summariseAttempt (h : Represents codec f ledger) (now : Option Int)
    {atom : FinancialAtom} (hlive : f.projection.find? (financialAtomKey atom) = some atom) :
    Represents codec (f.summariseAttempt codec now atom) ledger := by
  unfold Fold.summariseAttempt
  split
  · next row =>
    split
    · have hrow := h.summariseRow hlive (.inl rfl)
      dsimp only
      split
      · next grant hgrant =>
        have hkey := Table.find?_key hgrant
        exact hrow.summariseRow (by rw [hkey]; exact hgrant) (by rw [hkey]; exact .inr rfl)
      · exact hrow
    · exact h
  · exact h

/-- Summarising one attempt leaves the other attempts where they were. -/
theorem summariseAttempt_other {now : Option Int} {atom other : FinancialAtom}
    (hne : financialAtomKey other ≠ financialAtomKey atom)
    (hother : isGrant (financialAtomKey other) = false)
    (hlive : f.projection.find? (financialAtomKey other) = some other) :
    (f.summariseAttempt codec now atom).projection.find? (financialAtomKey other) = some other := by
  unfold Fold.summariseAttempt
  split
  · next row =>
    split
    · have hrow : (f.summariseRow codec (.attempt row)).projection.find? (financialAtomKey other) =
          some other := by
        rw [summariseRow_projection, if_neg hne]
        exact hlive
      dsimp only
      split
      · next grant hgrant =>
        rw [summariseRow_projection, if_neg]
        · exact hrow
        · intro hk
          rw [hk, Table.find?_key hgrant] at hother
          cases hother
      · exact hrow
    · exact hlive
  · exact hlive

/-- A grant is only summarised with its attempt. -/
theorem summariseAttempt_grant {now : Option Int} {atom : FinancialAtom}
    (h : isGrant (financialAtomKey atom) = true) : f.summariseAttempt codec now atom = f := by
  cases atom <;> first | rfl | cases h

/-- The loop of `summariseFinished`, for any state that contains the fold; induction on the rows
    still to visit, all of which are live except grants. -/
theorem summarise_loop {σ : Type*} (fold : σ → Fold) (step : σ → FinancialAtom → σ)
    (P : σ → Prop) {now : Option Int}
    (hfold : ∀ s atom, fold (step s atom) = (fold s).summariseAttempt codec now atom)
    (hskip : ∀ s atom, isGrant (financialAtomKey atom) = true → step s atom = s)
    (hstep : ∀ {s atom}, P s → (fold s).projection.find? (financialAtomKey atom) = some atom →
      P (step s atom))
    (rows : List FinancialAtom) (s : σ) (h : P s) (hnodup : (rows.map financialAtomKey).Nodup)
    (hrows : ∀ atom ∈ rows, isGrant (financialAtomKey atom) = false →
      (fold s).projection.find? (financialAtomKey atom) = some atom) : P (rows.foldl step s) := by
  induction rows generalizing s with
  | nil => exact h
  | cons atom rows ih =>
    rw [List.map_cons, List.nodup_cons] at hnodup
    rw [List.foldl_cons]
    by_cases hgrant : isGrant (financialAtomKey atom) = true
    · rw [hskip s atom hgrant]
      exact ih s h hnodup.2 fun other hmem => hrows other (List.mem_cons_of_mem _ hmem)
    · have hlive := hrows atom List.mem_cons_self (by simpa using hgrant)
      apply ih (step s atom) (hstep h hlive) hnodup.2
      intro other hmem hother
      rw [hfold]
      apply summariseAttempt_other _ hother (hrows other (List.mem_cons_of_mem _ hmem) hother)
      intro hk
      apply hnodup.1
      rw [← hk]
      exact List.mem_map_of_mem hmem

/-- **Summarising** leaves the ledger as it is. -/
theorem Represents.summariseFinished (h : Represents codec f ledger) (now : Option Int) :
    Represents codec (f.summariseFinished codec now) ledger := by
  have := summarise_loop id (Fold.summariseAttempt codec now) (fun f => Represents codec f ledger)
    (fun _ _ => rfl) (fun _ _ => summariseAttempt_grant) (fun h => h.summariseAttempt now)
    f.projection.rows f h f.projection.nodup fun atom hmem _ => Table.find?_of_mem hmem
  exact ⟨this.live, this.summary, this.apart, this.complete, this.attempts, this.grants⟩

theorem Represents.applyAtoms (h : Represents codec f ledger) (atoms : List FinancialAtom) :
    Represents codec (f.applyAtoms codec atoms) (ledger.putAll atoms) := by
  unfold Fold.applyAtoms
  dsimp only
  split
  · exact (h.applyAll atoms).summariseFinished none
  · exact h.applyAll atoms

/-! ## Section 4: Folds of one ledger agree -/

/-- The keys of all rows, live or summarised. -/
def allKeys (f : Fold) : List AtomKey := f.projection.keys ++ f.summarised.keys

theorem Represents.mem_allKeys (h : Represents codec f ledger) {key : AtomKey} :
    key ∈ f.allKeys ↔ (ledger key).isSome := by
  rw [allKeys, List.mem_append, Table.mem_keys, Table.mem_keys]
  constructor
  · rintro (hk | hk)
    · obtain ⟨atom, hatom⟩ := Option.isSome_iff_exists.1 hk
      rw [h.live hatom]
      rfl
    · obtain ⟨summary, hsummary⟩ := Option.isSome_iff_exists.1 hk
      obtain ⟨atom, hatom, -⟩ := h.summary hsummary
      rw [hatom]
      rfl
  · intro hk
    obtain ⟨atom, hatom⟩ := Option.isSome_iff_exists.1 hk
    rcases h.complete hatom with hlive | hsummary
    · exact .inl (by rw [hlive]; rfl)
    · exact .inr hsummary

theorem Represents.nodup_allKeys (h : Represents codec f ledger) : f.allKeys.Nodup := by
  refine List.nodup_append.2 ⟨f.projection.nodup, f.summarised.nodup, ?_⟩
  rintro key hlive other hsummary rfl
  obtain ⟨summary, hs⟩ := Option.isSome_iff_exists.1 (Table.mem_keys.1 hsummary)
  have := Table.mem_keys.1 hlive
  rw [h.apart hs] at this
  cases this

/-- The counts by kind of the keys of a ledger. -/
def countKeys (keys : List AtomKey) (checkpoints : Nat) : FinancialCounts :=
  let count := fun kind : AtomKind => keys.countP fun key => key.1 == kind
  ⟨count .account, count .window, count .binding, count .attempt, count .grant, checkpoints⟩

/-- Without a proposal the counts are those of the ledger. -/
theorem Represents.counts_nil (h : Represents codec f ledger) (checkpoints : Nat) :
    f.counts [] checkpoints = countKeys f.allKeys checkpoints := by
  have hrows : ∀ kind : AtomKind, (f.projection.rows.countP fun atom =>
      (financialAtomKey atom).1 == kind) = f.projection.keys.countP fun key => key.1 == kind := by
    intro kind
    rw [Table.keys, List.countP_map]
    rfl
  -- only attempts and grants are ever summarised
  have hnone : ∀ kind : AtomKind, kind ≠ .attempt → kind ≠ .grant →
      (f.summarised.keys.countP fun key => key.1 == kind) = 0 := by
    intro kind hattempt hgrant
    refine List.countP_eq_zero.2 fun key hkey => ?_
    obtain ⟨summary, hs⟩ := Option.isSome_iff_exists.1 (Table.mem_keys.1 hkey)
    obtain ⟨-, -, -, hkind⟩ := h.summary hs
    simp only [isAttempt, isGrant, beq_iff_eq] at hkind ⊢
    rcases hkind with hk | hk <;> rw [hk]
    · exact fun he => hattempt he.symm
    · exact fun he => hgrant he.symm
  simp only [counts, countKeys, allKeys, overlaid, List.foldl_nil, hrows, List.countP_append,
    hnone .account (by decide) (by decide), hnone .window (by decide) (by decide),
    hnone .binding (by decide) (by decide), resurfaced, List.countP_nil, h.attempts, h.grants]
  simp only [add_zero, Int.natCast_zero, sub_zero, Int.natCast_add]
  rfl

/-- Where no recorded row shares its digest with `atom`, a fold matches exactly the atoms of
    its ledger. -/
theorem Represents.matchesAtom_iff (hcodec : codec.Lawful) (h : Represents codec f ledger)
    {atom : FinancialAtom} (hdigest : ∀ {key row}, ledger key = some row →
      codec.atomDigest row = codec.atomDigest atom → row = atom) :
    f.matchesAtom codec [] atom = true ↔ ledger (financialAtomKey atom) = some atom := by
  unfold matchesAtom
  have hover : f.overlaid [] = f.projection := rfl
  rw [hover]
  cases hrow : f.projection.find? (financialAtomKey atom) with
  | some row =>
    rw [h.live hrow, Option.some.injEq]
    simp only [beq_iff_eq]
    exact hcodec.canonicalAtom_injective.eq_iff
  | none =>
    dsimp only
    cases hs : f.summarised.find? (financialAtomKey atom) with
    | some summary =>
      obtain ⟨row, hledger, hsum, -⟩ := h.summary hs
      rw [hledger, Option.some.injEq]
      simp only [beq_iff_eq, hsum]
      exact ⟨hdigest hledger, fun he => he ▸ rfl⟩
    | none =>
      refine ⟨nofun, fun hledger => ?_⟩
      rcases h.complete hledger with hlive | hsum
      · rw [hrow] at hlive
        cases hlive
      · rw [hs] at hsum
        cases hsum

end Fold

/-! ## Section 5: The checkpoints -/

/-- The checkpoints that are kept, and what is known of all of them. -/
structure Trail where
  /-- Those that are kept whole. -/
  checkpoints : List FinancialCheckpoint
  /-- How many there were. -/
  checkpointCount : Nat
  /-- The digest of all of them. -/
  checkpointDigest : Hash
  /-- Their sequences. -/
  retainedCheckpoints : List Nat
  deriving DecidableEq

namespace Trail

def empty : Trail := ⟨[], 0, zero, []⟩

/-- `GATEWAY_OPERATIONS` -/
def gatewayOperations : List BudgetFinancialOperation := [.prepare, .admission, .grant, .settle, .unknown]

/-- `addCheckpoint` -/
def addCheckpoint (codec : Codec) (t : Trail) (checkpoint : FinancialCheckpoint)
    (operation : BudgetFinancialOperation) : Trail :=
  let checkpoints := t.checkpoints ++ [checkpoint]
  let retained :=
    if operation ∈ gatewayOperations || checkpoint.sequence ∈ t.retainedCheckpoints then
      t.retainedCheckpoints
    else t.retainedCheckpoints ++ [checkpoint.sequence]
  { checkpoints :=
      if checkpoints.length > retained.length + 2 * FOLD_CHECKPOINT_TAIL then
        let oldestTail := (checkpoints[checkpoints.length - FOLD_CHECKPOINT_TAIL]?).map (·.sequence)
        checkpoints.filter fun row =>
          oldestTail.any (· ≤ row.sequence) || retained.contains row.sequence
      else checkpoints
    checkpointCount := t.checkpointCount + 1
    checkpointDigest := codec.rolling t.checkpointDigest checkpoint
    retainedCheckpoints := retained }

end Trail

end Lares.Journal
