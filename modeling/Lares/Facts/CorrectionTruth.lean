import Lares.Facts.StandingFacts
import Mathlib

/-! # What the facts correction tells

    The correction takes a fact that is absent from the later list for one that
    was retired, and one that is new in it for one that was told since. Both
    lists are cut at `MAX_STANDING_FACTS`, so both are right exactly while no
    fact crosses the cut.
-/

namespace Lares.Facts

open Numbers

/-! ## Section 1: What a transaction changes -/

def Retired (t : Store) (id : Nat) : Prop := ∃ g ∈ t.facts.rows, g.id = id ∧ g.retiredAt ≠ none

instance (t : Store) (id : Nat) : Decidable (Retired t id) :=
  inferInstanceAs (Decidable (∃ g ∈ t.facts.rows, g.id = id ∧ g.retiredAt ≠ none))

/-- Every row of `s` is a row of `t`, unless it is retired there. -/
def Later (s t : Store) : Prop := ∀ f ∈ s.facts, f ∈ t.facts ∨ Retired t f.id

namespace Later

theorem refl (s : Store) : Later s s := by
  intro f hf
  exact .inl hf

theorem trans {s t u : Store} (hst : Later s t) (htu : Later t u) : Later s u := by
  intro f hf
  rcases hst f hf with hmem | ⟨g, hg, hid, hretired⟩
  · exact htu f hmem
  · -- a retired row may be closed again, and stays retired
    rcases htu g hg with hmem | hagain
    · exact .inr ⟨g, hmem, hid, hretired⟩
    · exact .inr (hid ▸ hagain)

theorem skip (s : Store) (n : Nat) : Later s (s.skip n) := refl s

theorem insert (s : Store) (f : NewStandingFact) (now : Int) : Later s (s.insert f now) := by
  intro g hg
  have hne : g.id ≠ s.nextId := Nat.ne_of_lt (s.fresh g hg)
  exact .inl (Table.mem_set.2 (.inr ⟨hg, hne⟩))

theorem retire (s : Store) (f : StandingFact) (instant : Int) (replacement : Option Nat) :
    Later s (s.retire f instant replacement) := by
  intro g hg
  by_cases hid : g.id = f.id
  · right
    refine ⟨{ f with retiredAt := some instant, supersededBy := replacement }, ?_, hid.symm, ?_⟩
    · exact Table.mem_put.2 (.inr ⟨rfl, g, hg, hid⟩)
    · simp
  · exact .inl (Table.mem_put.2 (.inl ⟨hg, hid⟩))

theorem call (s : Store) (now : Int) (c : Call) : Later s (c.run s now) := by
  cases c with
  | remember f => exact insert s f now
  | forget id userId given =>
    show Later s (forgetFact s id userId given now)
    unfold forgetFact
    split
    · exact retire s _ _ _
    · exact refl s
  | supersede oldId f =>
    show Later s (supersedeFact s oldId f now)
    unfold supersedeFact
    split
    · exact (insert s f now).trans (retire _ _ _ _)
    · exact refl s

theorem step (s : Store) (t : Transaction) : Later s (t.run s) := by
  unfold Transaction.run
  split
  · exact skip s t.skipped
  · exact (skip s t.skipped).trans (call _ t.now t.call)

/-- Of every run of transactions, of any owners. -/
theorem run (s : Store) (ts : List Transaction) : Later s (runAll s ts) := by
  induction ts generalizing s with
  | nil => exact refl s
  | cons t ts ih => exact (step s t).trans (ih (t.run s))

end Later

/-- A row that stands later stood before, if its id was there. -/
theorem Later.stood {s t : Store} (h : Later s t) {f g : StandingFact} (hf : f ∈ s.facts)
    (hg : g ∈ t.facts) (hid : f.id = g.id) (hstands : g.retiredAt = none) : f = g := by
  rcases h f hf with hmem | ⟨g', hg', hid', hretired⟩
  · exact Table.eq_of_key_eq hmem hg hid
  · have hsame : g' = g := Table.eq_of_key_eq hg' hg (hid'.trans hid)
    rw [hsame] at hretired
    exact absurd hstands hretired

/-! ## Section 2: The list of a read -/

theorem mem_standing {s : Store} {owner : Text} {f : StandingFact} :
    f ∈ standing s owner ↔ f ∈ s.facts ∧ f.userId = owner ∧ f.retiredAt = none := by
  simp [standing, Table.mem_def]

theorem nodup_ages (s : Store) (owner : Text) : ((standing s owner).map StandingFact.age).Nodup := by
  have hids : ((standing s owner).map StandingFact.id).Nodup :=
    s.facts.nodup.sublist (List.filter_sublist.map _)
  refine List.Nodup.of_map (fun age : Lex (Int × Nat) => (ofLex age).2) ?_
  rw [List.map_map]
  exact hids

/-- The standing facts of an owner that are newer than `f`. -/
def newer (s : Store) (owner : Text) (f : StandingFact) : Nat :=
  (standing s owner).countP fun g => f.age < g.age

theorem mem_listActiveFacts {s : Store} {owner : Text} {limit : Nat} {f : StandingFact} :
    f ∈ listActiveFacts s owner limit ↔ f ∈ standing s owner ∧ newer s owner f < limit :=
  Ranks.mem_take_greatestFirst (nodup_ages s owner) f limit

/-! ## Section 3: The fingerprint -/

theorem fingerprintPart_injective {f g : StandingFact} (h : fingerprintPart f = fingerprintPart g) :
    f.id = g.id := by
  have hdigits : written (some f.id) = written (some g.id) := (List.append_inj' h rfl).1
  have hread := number_digits f.id
  rw [show Nat.toDigits 10 f.id = Nat.toDigits 10 g.id from hdigits, number_digits] at hread
  exact (Option.some.inj hread).symm

theorem comma_not_mem_fingerprintPart (f : StandingFact) : ',' ∉ fingerprintPart f := by
  intro hmem
  rcases List.mem_append.1 hmem with hdigit | hrest
  · have hread : Char.isDigit ',' = true :=
      Nat.isDigit_of_mem_toDigits (b := 10) (n := f.id) (by decide) (by decide) hdigit
    simp at hread
  · by_cases hstands : f.retiredAt = none <;> simp [hstands] at hrest

/-- Lists with one fingerprint text have the same ids. -/
theorem ids_of_fingerprintText {a b : List StandingFact}
    (h : fingerprintText a = fingerprintText b) {f : StandingFact} (hf : f ∈ a) :
    ∃ g ∈ b, g.id = f.id := by
  have hparts : ∀ l : List StandingFact, ∀ p ∈ (l.map fingerprintPart).insertionSort (· ≤ ·),
      ∃ g ∈ l, fingerprintPart g = p := by
    intro l p hp
    exact List.mem_map.1 ((List.perm_insertionSort _ _).mem_iff.1 hp)
  have hcomma : ∀ l : List StandingFact, ∀ p ∈ (l.map fingerprintPart).insertionSort (· ≤ ·),
      ',' ∉ p := by
    intro l p hp
    obtain ⟨g, -, rfl⟩ := hparts l p hp
    exact comma_not_mem_fingerprintPart g
  have hmem : fingerprintPart f ∈ (a.map fingerprintPart).insertionSort (· ≤ ·) :=
    (List.perm_insertionSort _ _).mem_iff.2 (List.mem_map_of_mem hf)
  have hb : b ≠ [] := by
    rintro rfl
    -- a text with a part in it is not empty
    have hcolon : ':' ∈ fingerprintText a :=
      Lines.subset_intercalate _ hmem (by simp [fingerprintPart])
    rw [h] at hcolon
    simp [fingerprintText] at hcolon
  have hsorted : (a.map fingerprintPart).insertionSort (· ≤ ·) =
      (b.map fingerprintPart).insertionSort (· ≤ ·) := by
    rw [← List.splitOn_intercalate ',' (hcomma a) (List.ne_nil_of_mem hmem),
      ← List.splitOn_intercalate ',' (hcomma b) (by simpa [← List.length_eq_zero_iff] using hb)]
    exact congrArg _ h
  rw [hsorted] at hmem
  obtain ⟨g, hg, hpart⟩ := hparts b _ hmem
  exact ⟨g, hg, fingerprintPart_injective hpart⟩

theorem noLongerApplies_iff {current : List StandingFact}
    (hstand : ∀ g ∈ current, g.retiredAt = none) {f : StandingFact} :
    noLongerApplies current f = true ↔ ∀ g ∈ current, g.id ≠ f.id := by
  unfold noLongerApplies
  cases hfind : current.reverse.find? fun g => g.id = f.id with
  | none => simpa using hfind
  | some now =>
    have hnow : now ∈ current := List.mem_reverse.1 (List.mem_of_find?_eq_some hfind)
    have hid : now.id = f.id := by simpa using List.find?_some hfind
    simp only [hstand now hnow, ne_eq, not_true_eq_false, decide_false, Bool.false_eq_true,
      false_iff]
    intro hall
    exact hall now hnow hid

/-- The digest tells the texts of two lists apart. -/
def TellsApart (sha256 : Text → Text) (a b : List StandingFact) : Prop :=
  factsCoreFingerprint sha256 a = factsCoreFingerprint sha256 b →
    fingerprintText a = fingerprintText b

section Lists

variable {sha256 : Text → Text} {session current : List StandingFact} {notes : List AgentNote}
  (hdigest : TellsApart sha256 session current)

include hdigest

/-- Named as no longer applying: the facts of the session whose id is absent. -/
theorem mem_retired (hstand : ∀ g ∈ current, g.retiredAt = none) {f : StandingFact} :
    f ∈ (factsCorrection sha256 session current notes).retired ↔
      f ∈ session ∧ ∀ g ∈ current, g.id ≠ f.id := by
  unfold factsCorrection
  by_cases hsame : factsCoreFingerprint sha256 session = factsCoreFingerprint sha256 current
  · simp only [hsame, ne_eq, not_true_eq_false, if_false, List.not_mem_nil, false_iff]
    rintro ⟨hf, hall⟩
    obtain ⟨g, hg, hid⟩ := ids_of_fingerprintText (hdigest hsame) hf
    exact hall g hg hid
  · simp only [hsame, ne_eq, not_false_eq_true, if_true, List.mem_filter,
      noLongerApplies_iff hstand]

/-- Named as newly told: the facts of the later list whose id the session was not shown. -/
theorem mem_added (hstand : ∀ g ∈ current, g.retiredAt = none) {f : StandingFact} :
    f ∈ (factsCorrection sha256 session current notes).added ↔
      f ∈ current ∧ ∀ g ∈ session, g.id ≠ f.id := by
  unfold factsCorrection
  by_cases hsame : factsCoreFingerprint sha256 session = factsCoreFingerprint sha256 current
  · simp only [hsame, ne_eq, not_true_eq_false, if_false, List.not_mem_nil, false_iff]
    rintro ⟨hf, hall⟩
    obtain ⟨g, hg, hid⟩ := ids_of_fingerprintText (hdigest hsame).symm hf
    exact hall g hg hid
  · simp only [ne_eq, hsame, not_false_eq_true, if_true, List.mem_filter, decide_eq_true_eq]
    constructor
    · rintro ⟨hf, -, hall⟩
      exact ⟨hf, hall⟩
    · rintro ⟨hf, hall⟩
      exact ⟨hf, hstand f hf, hall⟩

end Lists

/-- The correction is the empty text exactly when it has nothing to list. -/
theorem buildFactsCorrection_eq_nil_iff {sha256 : Text → Text}
    {session current : List StandingFact} {notes : List AgentNote} :
    buildFactsCorrection sha256 session current notes = [] ↔
      let c := factsCorrection sha256 session current notes
      c.retired = [] ∧ c.added = [] ∧ c.safeNotes = [] := by
  unfold buildFactsCorrection Correction.text
  dsimp only
  split
  · next hempty => exact iff_of_true rfl hempty
  · next hsome =>
    refine iff_of_false ?_ hsome
    intro hnil
    have hheading : '#' ∈ ([] : Text) := by
      rw [← hnil]
      exact Lines.subset_intercalate _ List.mem_cons_self (by simp)
    simp at hheading

/-! ## Section 4: When the correction is right -/

/-- The row was not there at the session's read. -/
def StoredSince (s : Store) (g : StandingFact) : Prop := ∀ f ∈ s.facts.rows, f.id ≠ g.id

instance (s : Store) (g : StandingFact) : Decidable (StoredSince s g) :=
  inferInstanceAs (Decidable (∀ f ∈ s.facts.rows, f.id ≠ g.id))

/-- What a correction promises, of the store `s` at the session's read and `t` at the later one. -/
structure TellsTruth (s t : Store) (owner : Text) (c : Correction) : Prop where
  retired : ∀ f ∈ listActiveFacts s owner MAX_STANDING_FACTS, f ∈ c.retired ↔ Retired t f.id
  added : ∀ f ∈ c.added, StoredSince s f
  silent : c.retired = [] ∧ c.added = [] ↔
    (∀ f ∈ listActiveFacts s owner MAX_STANDING_FACTS, ¬Retired t f.id) ∧
      ∀ f ∈ standing t owner, ¬StoredSince s f

/-- No fact that stands at both reads crosses the cut, and something newly told is above it when
    nothing else would be said. -/
structure WithinCap (s t : Store) (owner : Text) : Prop where
  shown : ∀ f ∈ standing s owner, newer s owner f < MAX_STANDING_FACTS → f ∈ standing t owner →
    newer t owner f < MAX_STANDING_FACTS
  unshown : ∀ f ∈ standing s owner, MAX_STANDING_FACTS ≤ newer s owner f → f ∈ standing t owner →
    MAX_STANDING_FACTS ≤ newer t owner f
  told : (∀ f ∈ standing s owner, newer s owner f < MAX_STANDING_FACTS → f ∈ standing t owner) →
    (∃ f ∈ standing t owner, StoredSince s f) →
      ∃ f ∈ standing t owner, StoredSince s f ∧ newer t owner f < MAX_STANDING_FACTS

/-- A fact that stood is retired exactly when it stands no more. -/
theorem Later.retired_iff {s t : Store} (h : Later s t) {owner : Text} {f : StandingFact}
    (hf : f ∈ standing s owner) : Retired t f.id ↔ f ∉ standing t owner := by
  obtain ⟨hmem, howner, hstands⟩ := mem_standing.1 hf
  constructor
  · rintro ⟨g, hg, hid, hretired⟩ hft
    have hsame : g = f := Table.eq_of_key_eq hg (mem_standing.1 hft).1 hid
    rw [hsame] at hretired
    exact hretired hstands
  · intro hgone
    rcases h f hmem with hft | hretired
    · exact absurd (mem_standing.2 ⟨hft, howner, hstands⟩) hgone
    · exact hretired

/-- An id of the list at `t` that is a row of `s`: the same row, which stood. -/
theorem Later.same_row {s t : Store} (h : Later s t) {owner : Text} {f g : StandingFact}
    (hf : f ∈ s.facts) (hg : g ∈ standing t owner) (hid : f.id = g.id) :
    f = g ∧ f ∈ standing s owner := by
  obtain ⟨hmem, howner, hstands⟩ := mem_standing.1 hg
  have hsame : f = g := h.stood hf hmem hid hstands
  refine ⟨hsame, mem_standing.2 ⟨hf, ?_, ?_⟩⟩
  · rw [hsame, howner]
  · rw [hsame, hstands]

section Reads

variable {s t : Store} {owner : Text} {sha256 : Text → Text} (notes : List AgentNote)

/-- The correction of the later read at `t`. -/
def correctionAt (sha256 : Text → Text) (s t : Store) (owner : Text) (notes : List AgentNote) :
    Correction :=
  factsCorrection sha256 (listActiveFacts s owner MAX_STANDING_FACTS)
    (listActiveFacts t owner MAX_STANDING_FACTS) notes

variable (hlater : Later s t)
  (hdigest : TellsApart sha256 (listActiveFacts s owner MAX_STANDING_FACTS)
    (listActiveFacts t owner MAX_STANDING_FACTS))

include hlater hdigest

/-- What stood at the session's read, is listed as no longer applying when it is out of the later
    list. -/
theorem retired_listed_iff {f : StandingFact} :
    f ∈ (correctionAt sha256 s t owner notes).retired ↔
      f ∈ listActiveFacts s owner MAX_STANDING_FACTS ∧
        (f ∈ standing t owner → MAX_STANDING_FACTS ≤ newer t owner f) := by
  have hstand : ∀ g ∈ listActiveFacts t owner MAX_STANDING_FACTS, g.retiredAt = none := by
    intro g hg
    exact (mem_standing.1 (mem_listActiveFacts.1 hg).1).2.2
  unfold correctionAt
  rw [mem_retired hdigest hstand]
  refine and_congr_right fun hf => ?_
  have hmem : f ∈ s.facts := (mem_standing.1 (mem_listActiveFacts.1 hf).1).1
  constructor
  · intro hall hft
    by_contra hlt
    exact hall f (mem_listActiveFacts.2 ⟨hft, by omega⟩) rfl
  · intro hcut g hg hid
    obtain ⟨hgt, hlt⟩ := mem_listActiveFacts.1 hg
    obtain ⟨rfl, -⟩ := hlater.same_row hmem hgt hid.symm
    have := hcut hgt
    omega

theorem added_listed_iff {f : StandingFact} :
    f ∈ (correctionAt sha256 s t owner notes).added ↔
      f ∈ listActiveFacts t owner MAX_STANDING_FACTS ∧
        (f ∈ standing s owner → MAX_STANDING_FACTS ≤ newer s owner f) := by
  have hstand : ∀ g ∈ listActiveFacts t owner MAX_STANDING_FACTS, g.retiredAt = none := by
    intro g hg
    exact (mem_standing.1 (mem_listActiveFacts.1 hg).1).2.2
  unfold correctionAt
  rw [mem_added hdigest hstand]
  refine and_congr_right fun hf => ?_
  have hft : f ∈ standing t owner := (mem_listActiveFacts.1 hf).1
  constructor
  · intro hall hfs
    by_contra hlt
    exact hall f (mem_listActiveFacts.2 ⟨hfs, by omega⟩) rfl
  · intro hcut g hg hid
    obtain ⟨hgs, hlt⟩ := mem_listActiveFacts.1 hg
    obtain ⟨rfl, -⟩ := hlater.same_row (mem_standing.1 hgs).1 hft hid
    have := hcut hgs
    omega

theorem WithinCap.of_tellsTruth (h : TellsTruth s t owner (correctionAt sha256 s t owner notes)) :
    WithinCap s t owner where
  shown := by
    intro f hfs hlt hft
    by_contra hcut
    have hshown := mem_listActiveFacts.2 ⟨hfs, hlt⟩
    have hlisted := (retired_listed_iff notes hlater hdigest).2
      ⟨hshown, fun _ => not_lt.1 hcut⟩
    exact (hlater.retired_iff hfs).1 ((h.retired f hshown).1 hlisted) hft
  unshown := by
    intro f hfs hcut hft
    by_contra hlt
    have hlist := mem_listActiveFacts.2 ⟨hft, not_le.1 hlt⟩
    have hlisted := (added_listed_iff notes hlater hdigest).2 ⟨hlist, fun _ => hcut⟩
    exact h.added f hlisted f (mem_standing.1 hfs).1 rfl
  told := by
    intro hstill hsince
    by_contra hnone
    push Not at hnone
    have hretired : (correctionAt sha256 s t owner notes).retired = [] := by
      rw [List.eq_nil_iff_forall_not_mem]
      intro f hf
      have hshown := ((retired_listed_iff notes hlater hdigest).1 hf).1
      obtain ⟨hfs, hlt⟩ := mem_listActiveFacts.1 hshown
      exact (hlater.retired_iff hfs).1 ((h.retired f hshown).1 hf) (hstill f hfs hlt)
    have hadded : (correctionAt sha256 s t owner notes).added = [] := by
      rw [List.eq_nil_iff_forall_not_mem]
      intro f hf
      have hlist := ((added_listed_iff notes hlater hdigest).1 hf).1
      obtain ⟨hft, hlt⟩ := mem_listActiveFacts.1 hlist
      exact absurd hlt (not_lt.2 (hnone f hft (h.added f hf)))
    obtain ⟨f, hft, hnew⟩ := hsince
    exact (h.silent.1 ⟨hretired, hadded⟩).2 f hft hnew

theorem TellsTruth.of_withinCap (w : WithinCap s t owner) :
    TellsTruth s t owner (correctionAt sha256 s t owner notes) := by
  have hretired : ∀ f ∈ listActiveFacts s owner MAX_STANDING_FACTS,
      (f ∈ (correctionAt sha256 s t owner notes).retired ↔ Retired t f.id) := by
    intro f hshown
    obtain ⟨hfs, hlt⟩ := mem_listActiveFacts.1 hshown
    rw [retired_listed_iff notes hlater hdigest, hlater.retired_iff hfs]
    constructor
    · rintro ⟨-, hcut⟩ hft
      exact absurd (w.shown f hfs hlt hft) (not_lt.2 (hcut hft))
    · intro hgone
      exact ⟨hshown, fun hft => absurd hft hgone⟩
  have hadded : ∀ f ∈ (correctionAt sha256 s t owner notes).added, StoredSince s f := by
    intro f hf g hg hid
    obtain ⟨hlist, hcut⟩ := (added_listed_iff notes hlater hdigest).1 hf
    obtain ⟨hft, hlt⟩ := mem_listActiveFacts.1 hlist
    obtain ⟨rfl, hgs⟩ := hlater.same_row hg hft hid
    exact absurd hlt (not_lt.2 (w.unshown g hgs (hcut hgs) hft))
  refine ⟨hretired, hadded, ?_⟩
  constructor
  · rintro ⟨hnoRetired, hnoAdded⟩
    have hstill : ∀ f ∈ listActiveFacts s owner MAX_STANDING_FACTS, ¬Retired t f.id := by
      intro f hshown hr
      have hlisted := (hretired f hshown).2 hr
      simp [hnoRetired] at hlisted
    refine ⟨hstill, fun f hft hnew => ?_⟩
    obtain ⟨g, hgt, hgnew, hlt⟩ := w.told (fun f hfs hlt => by
      by_contra hgone
      exact hstill f (mem_listActiveFacts.2 ⟨hfs, hlt⟩) ((hlater.retired_iff hfs).2 hgone))
      ⟨f, hft, hnew⟩
    -- a fact stored since did not stand at the session's read
    have hlisted := (added_listed_iff notes hlater hdigest).2
      ⟨mem_listActiveFacts.2 ⟨hgt, hlt⟩, fun hgs => absurd rfl (hgnew g (mem_standing.1 hgs).1)⟩
    simp [hnoAdded] at hlisted
  · rintro ⟨hstill, hnothing⟩
    constructor
    · rw [List.eq_nil_iff_forall_not_mem]
      intro f hf
      have hshown := ((retired_listed_iff notes hlater hdigest).1 hf).1
      exact hstill f hshown ((hretired f hshown).1 hf)
    · rw [List.eq_nil_iff_forall_not_mem]
      intro f hf
      have hlist := ((added_listed_iff notes hlater hdigest).1 hf).1
      exact hnothing f (mem_listActiveFacts.1 hlist).1 (hadded f hf)

end Reads

/-- A correction that tells the truth is the empty text exactly when nothing that was shown is
    retired, nothing that stands was told since, and no note may be surfaced. -/
theorem TellsTruth.text_eq_nil_iff {s t : Store} {owner : Text} {sha256 : Text → Text}
    {notes : List AgentNote} (h : TellsTruth s t owner (correctionAt sha256 s t owner notes)) :
    buildFactsCorrection sha256 (listActiveFacts s owner MAX_STANDING_FACTS)
        (listActiveFacts t owner MAX_STANDING_FACTS) notes = [] ↔
      ((∀ f ∈ listActiveFacts s owner MAX_STANDING_FACTS, ¬Retired t f.id) ∧
        ∀ f ∈ standing t owner, ¬StoredSince s f) ∧
      ∀ n ∈ notes, n.origin ∉ SAFE_TO_SURFACE_NOTE_ORIGINS := by
  have hnotes : (correctionAt sha256 s t owner notes).safeNotes = [] ↔
      ∀ n ∈ notes, n.origin ∉ SAFE_TO_SURFACE_NOTE_ORIGINS := by
    simp [correctionAt, factsCorrection]
  rw [buildFactsCorrection_eq_nil_iff, ← h.silent, ← hnotes, and_assoc]
  rfl

/-- Over every run of transactions between the two reads. -/
theorem correction_tellsTruth_iff (sha256 : Text → Text) (s : Store) (owner : Text)
    (ts : List Transaction) (notes : List AgentNote)
    (hdigest : TellsApart sha256 (listActiveFacts s owner MAX_STANDING_FACTS)
      (listActiveFacts (runAll s ts) owner MAX_STANDING_FACTS)) :
    TellsTruth s (runAll s ts) owner (correctionAt sha256 s (runAll s ts) owner notes) ↔
      WithinCap s (runAll s ts) owner := by
  have hlater := Later.run s ts
  constructor
  · exact WithinCap.of_tellsTruth notes hlater hdigest
  · exact TellsTruth.of_withinCap notes hlater hdigest

/-- A fact of the owner `"o"`. -/
def plainFact (statedAt : Int) : NewStandingFact where
  fact := "The train.".toList
  category := .travel
  sourceTurn := "t".toList
  userId := "o".toList
  statedAt := some statedAt

def told (statedAt : Int) : Transaction where
  call := .remember (plainFact statedAt)
  now := 100
  rolledBack := false
  skipped := 0

/-- A digest of the length alone. -/
def lengthDigest (text : Text) : Text := Nat.toDigits 10 text.length

/-- One fact is superseded by another. -/
theorem correction_tellsTruth_supersede :
    TellsTruth (runAll .empty [told 1])
      (runAll (runAll .empty [told 1]) [⟨.supersede 1 (plainFact 2), 100, false, 0⟩, told 3])
      "o".toList
      (correctionAt lengthDigest (runAll .empty [told 1])
        (runAll (runAll .empty [told 1]) [⟨.supersede 1 (plainFact 2), 100, false, 0⟩, told 3])
        "o".toList []) := by
  refine (correction_tellsTruth_iff lengthDigest _ _ _ _ ?_).2 ⟨?_, ?_, ?_⟩
  · intro h
    revert h
    decide +kernel
  · decide +kernel
  · decide +kernel
  · decide +kernel

/-- Forty facts are shown, another is told, and the oldest is listed as no longer applying. -/
theorem correction_oldest_pushed_out :
    ¬TellsTruth (runAll .empty ((List.range 40).map fun n => told n))
      (runAll (runAll .empty ((List.range 40).map fun n => told n)) [told 40]) "o".toList
      (correctionAt lengthDigest (runAll .empty ((List.range 40).map fun n => told n))
        (runAll (runAll .empty ((List.range 40).map fun n => told n)) [told 40])
        "o".toList []) := by
  intro h
  let oldest : StandingFact :=
    ⟨1, "The train.".toList, .travel, "t".toList, "o".toList, 0, none, none⟩
  have hretired := (h.retired oldest (by decide +kernel)).1 (by decide +kernel)
  revert hretired
  decide +kernel

end Lares.Facts
