import Lares.Migrations.Runner

/-! # Migrations run in order, once, and all or nothing

    * **Plans**: what a plan without refusals says of the directory and the
      ledger.
    * **Queries**: a file's query commits once, its row and all its statements.
    * **The ledger**: over any interleaving of runs and adoptions it holds one
      row for each committed effect, but for the rows that the adoption of the
      baseline has replaced.
-/

namespace Lares.Migrations

/-! ## Section 1: Plans -/

instance : Std.Total MigrationFile.before where
  total x y := by
    rcases lt_trichotomy x.number y.number with hlt | heq | hgt
    · exact .inl (.inl hlt)
    · rcases le_total (codeUnits x.filename) (codeUnits y.filename) with hle | hle
      · exact .inl (.inr ⟨heq, hle⟩)
      · exact .inr (.inr ⟨heq.symm, hle⟩)
    · exact .inr (.inl hgt)

instance : IsTrans MigrationFile MigrationFile.before where
  trans x y z hxy hyz := by
    rcases hxy with hxy | ⟨hxy, hxname⟩ <;> rcases hyz with hyz | ⟨hyz, hyname⟩
    · exact .inl (hxy.trans hyz)
    · exact .inl (hyz ▸ hxy)
    · exact .inl (hxy ▸ hyz)
    · exact .inr ⟨hxy.trans hyz, hxname.trans hyname⟩

/-- What `readMigrations` returns. -/
structure FilesOk (files : List MigrationFile) : Prop where
  sorted : files.Pairwise fun x y => x.number ≤ y.number
  nodup : (files.map MigrationFile.filename).Nodup

theorem filesOk_readMigrations {checksumOf : Script → Text} {dir : Directory}
    {files : List MigrationFile} (h : readMigrations checksumOf dir = some files) :
    FilesOk files := by
  unfold readMigrations at h
  dsimp only at h
  split at h
  case isFalse => cases h
  cases h
  refine ⟨?_, ?_⟩
  · apply (List.pairwise_insertionSort MigrationFile.before _).imp
    intro x y hxy
    rcases hxy with hlt | ⟨heq, -⟩
    · exact hlt.le
    · exact heq.le
  · have hperm := (List.perm_insertionSort MigrationFile.before
      ((dir.entries.filter fun entry => isSql entry.1).filterMap (migrationFile checksumOf))).map
      MigrationFile.filename
    apply hperm.nodup_iff.2
    have hnames : ∀ entries : List (Text × Script),
        ((entries.filterMap (migrationFile checksumOf)).map MigrationFile.filename).Sublist
          (entries.map Prod.fst) := by
      intro entries
      induction entries with
      | nil => exact List.Sublist.slnil
      | cons entry entries ih =>
        unfold migrationFile at ih ⊢
        cases hnumber : numberOf entry.1 with
        | none => simpa [hnumber] using ih.cons entry.1
        | some number => simpa [hnumber] using ih.cons_cons entry.1
    exact dir.nodup.sublist ((hnames _).trans (List.filter_sublist.map _))

/-- The ledger has no row of the file. -/
def pending (applied : List AppliedMigration) (file : MigrationFile) : Bool :=
  (applied.find? fun row => row.filename = file.filename).isNone

/-- What a plan without refusals says. -/
structure Clear (files : List MigrationFile) (applied : List AppliedMigration) : Prop where
  each : ∀ file ∈ files, (planFile applied file).isRefusal = false
  onDisk : ∀ row ∈ applied, row.filename ∈ files.map MigrationFile.filename
  baseline : ∀ file ∈ files, file.filename = baselineFilename →
    hasPreBaselineHistory applied = false

theorem clear_iff {files : List MigrationFile} {applied : List AppliedMigration} :
    (planMigrations files applied).any PlanStep.isRefusal = false ↔ Clear files applied := by
  -- Without the baseline: no file is refused, and no row is without its file.
  have heach : ((files.map (planFile applied)) ++ applied.filterMap (planMissing files)).any
        PlanStep.isRefusal = false ↔
      (∀ file ∈ files, (planFile applied file).isRefusal = false) ∧
        ∀ row ∈ applied, row.filename ∈ files.map MigrationFile.filename := by
    rw [List.any_append, Bool.or_eq_false_iff]
    apply and_congr
    · simp
    · rw [List.any_eq_false]
      constructor
      · intro h row hrow
        by_contra hmissing
        exact h _ (List.mem_filterMap.2 ⟨row, hrow, if_neg hmissing⟩) rfl
      · intro h step hstep
        obtain ⟨row, hrow, hplan⟩ := List.mem_filterMap.1 hstep
        rw [planMissing, if_pos (h row hrow)] at hplan
        cases hplan
  unfold planMigrations
  split
  next baseline hbaseline =>
    -- With it: the ledger must not be of before the baseline.
    have hname : baseline.filename = baselineFilename := by
      simpa using List.find?_some hbaseline
    have hmem := List.mem_of_find?_eq_some hbaseline
    split
    next hpre =>
      constructor
      · intro h
        cases h
      · intro h
        rw [h.baseline baseline hmem hname] at hpre
        cases hpre
    next hpre =>
      rw [heach]
      constructor
      · rintro ⟨h, hdisk⟩
        exact ⟨h, hdisk, fun _ _ _ => Bool.eq_false_iff.2 hpre⟩
      · intro h
        exact ⟨h.each, h.onDisk⟩
  next hnone =>
    rw [heach]
    constructor
    · rintro ⟨h, hdisk⟩
      refine ⟨h, hdisk, ?_⟩
      intro file hfile hname
      exact absurd (decide_eq_true hname) (List.find?_eq_none.1 hnone file hfile)
    · intro h
      exact ⟨h.each, h.onDisk⟩

theorem planFile_pending {applied : List AppliedMigration} {file : MigrationFile}
    (h : (planFile applied file).isRefusal = false) :
    (planFile applied file).toApply = if pending applied file then some file else none := by
  unfold planFile pending at *
  split at h
  next already hfind =>
    rw [hfind]
    split at h
    next hsame => simp [hsame, PlanStep.toApply]
    · cases h
  next hfind =>
    rw [hfind]
    split at h
    · split at h
      · cases h
      next hnot => simp [hnot, PlanStep.toApply]
    · simp [PlanStep.toApply]

/-- **A plan without refusals** applies the files that the ledger does not have. -/
theorem Clear.toApply {files : List MigrationFile} {applied : List AppliedMigration}
    (h : Clear files applied) :
    toApply (planMigrations files applied) = files.filter (pending applied) := by
  have hmissing : applied.filterMap (planMissing files) = [] := by
    apply List.filterMap_eq_nil_iff.2
    intro row hrow
    exact if_pos (h.onDisk row hrow)
  have hplan : planMigrations files applied = files.map (planFile applied) := by
    unfold planMigrations
    rw [hmissing, List.append_nil]
    split
    next baseline hbaseline =>
      have hname : baseline.filename = baselineFilename := by
        simpa using List.find?_some hbaseline
      rw [h.baseline baseline (List.mem_of_find?_eq_some hbaseline) hname]
      rfl
    · rfl
  rw [hplan, Migrations.toApply, List.filterMap_map, ← List.filterMap_eq_filter]
  apply List.filterMap_congr
  intro file hfile
  rw [Function.comp_apply, planFile_pending (h.each file hfile)]
  simp [Option.guard]

/-- A file that is applied is not numbered below a row of the ledger. -/
theorem Clear.inOrder {files : List MigrationFile} {applied : List AppliedMigration}
    (h : Clear files applied) {file : MigrationFile} (hfile : file ∈ files)
    (hpending : pending applied file = true) {row : AppliedMigration} (hrow : row ∈ applied) :
    row.number ≤ file.number := by
  have heach := h.each file hfile
  unfold planFile at heach
  rw [Option.isNone_iff_eq_none.1 hpending] at heach
  dsimp only at heach
  split at heach
  next highest hmax =>
    split at heach
    · cases heach
    next hnot => exact (List.le_of_mem_argmax hrow hmax).trans (not_lt.1 hnot)
  next hmax =>
    rw [List.argmax_eq_none.1 hmax] at hrow
    cases hrow

theorem pending_iff {applied : List AppliedMigration} {file : MigrationFile} :
    pending applied file = true ↔ ∀ row ∈ applied, row.filename ≠ file.filename := by
  unfold pending
  rw [Option.isNone_iff_eq_none, List.find?_eq_none]
  simp

theorem pending_append {read own : List AppliedMigration} {file : MigrationFile} :
    pending (read ++ own) file = true ↔ pending read file = true ∧ pending own file = true := by
  simp only [pending_iff, List.mem_append]
  constructor
  · intro h
    exact ⟨fun row hrow => h row (.inl hrow), fun row hrow => h row (.inr hrow)⟩
  · rintro ⟨hread, hown⟩ row (hrow | hrow)
    · exact hread row hrow
    · exact hown row hrow

/-- **After all pending files** the plan has neither refusals nor files to apply. -/
theorem Clear.applied {files : List MigrationFile} {read : List AppliedMigration}
    (hfiles : FilesOk files) (h : Clear files read) :
    Clear files (read ++ (files.filter (pending read)).map (rowOf .applied)) ∧
      files.filter (pending (read ++ (files.filter (pending read)).map (rowOf .applied))) = [] := by
  have hown : ∀ file ∈ files, pending read file = true →
      rowOf .applied file ∈ (files.filter (pending read)).map (rowOf .applied) := by
    intro file hfile hpending
    exact List.mem_map_of_mem (List.mem_filter.2 ⟨hfile, hpending⟩)
  refine ⟨⟨?_, ?_, ?_⟩, ?_⟩
  · intro file hfile
    unfold planFile
    rw [List.find?_append]
    by_cases hpending : pending read file = true
    · -- the row that the run has added, and no other one
      have hfind : ((files.filter (pending read)).map (rowOf .applied)).find?
          (fun row => row.filename = file.filename) = some (rowOf .applied file) := by
        cases hfound : ((files.filter (pending read)).map (rowOf .applied)).find?
            (fun row => row.filename = file.filename) with
        | none =>
          have hnot := List.find?_eq_none.1 hfound _ (hown file hfile hpending)
          exact absurd (decide_eq_true rfl) hnot
        | some row =>
          have hname : row.filename = file.filename := by simpa using List.find?_some hfound
          obtain ⟨other, hother, rfl⟩ := List.mem_map.1 (List.mem_of_find?_eq_some hfound)
          rw [List.inj_on_of_nodup_map hfiles.nodup (List.mem_filter.1 hother).1 hfile hname]
      rw [Option.isNone_iff_eq_none.1 hpending, Option.none_or, hfind]
      simp [rowOf, PlanStep.isRefusal]
    · have heach := h.each file hfile
      unfold planFile at heach
      unfold pending at hpending
      cases hfind : read.find? fun row => row.filename = file.filename with
      | none => exact absurd (by rw [hfind]; rfl) hpending
      | some already =>
        rw [hfind] at heach
        exact heach
  · intro row hrow
    rcases List.mem_append.1 hrow with hrow | hrow
    · exact h.onDisk row hrow
    · obtain ⟨file, hfile, rfl⟩ := List.mem_map.1 hrow
      exact List.mem_map_of_mem (List.mem_filter.1 hfile).1
  · intro file hfile hname
    -- the baseline is in the ledger
    have hrow : ∃ row ∈ read ++ (files.filter (pending read)).map (rowOf .applied),
        row.filename = baselineFilename := by
      by_cases hpending : pending read file = true
      · exact ⟨_, List.mem_append_right _ (hown file hfile hpending), hname⟩
      · have hnot := mt pending_iff.2 hpending
        push Not at hnot
        obtain ⟨row, hrow, hsame⟩ := hnot
        exact ⟨row, List.mem_append_left _ hrow, hsame.trans hname⟩
    obtain ⟨row, hrow, hbaseline⟩ := hrow
    have hany : (read ++ (files.filter (pending read)).map (rowOf .applied)).any
        (fun row => row.filename = baselineFilename) = true :=
      List.any_eq_true.2 ⟨row, hrow, decide_eq_true hbaseline⟩
    unfold hasPreBaselineHistory
    rw [hany, Bool.not_true, Bool.and_false]
  · apply List.filter_eq_nil_iff.2
    intro file hfile hpending
    obtain ⟨hread, hnone⟩ := pending_append.1 hpending
    exact pending_iff.1 hnone _ (hown file hfile hread) rfl

/-! ## Section 2: Queries -/

/-- Where the query of a file can be: its row and its statements are in one transaction. -/
inductive Within (file : MigrationFile) : Option Tx → List Statement → Prop
  /-- Nothing of it has run. -/
  | start : Within file none (queryFor file)
  /-- A transaction is open. -/
  | begun : Within file (some ⟨[], [], []⟩)
      (.insert [rowOf .applied file] :: (file.bytes.body ++ [.commit]))
  /-- before its own `BEGIN` -/
  | inner : Within file (some ⟨[], [rowOf .applied file], []⟩)
      (.begin :: (file.bytes.statements.map .run ++ [.commit, .commit]))
  /-- Some of its statements have run. -/
  | running {done rest : List Text} {left : List Statement}
      (hall : file.bytes.statements = done ++ rest) (hleft : left = [] ∨ left = [.commit]) :
      Within file (some ⟨[], [rowOf .applied file], done⟩) (rest.map .run ++ .commit :: left)
  /-- All of it is committed. -/
  | committed {left : List Statement} (hleft : left = [] ∨ left = [.commit]) :
      Within file none left

/-- **A statement of a file's query** changes nothing, or commits the row with the whole file. -/
theorem Within.execute {file : MigrationFile} {run : Run} {db db' : Database} {tx tx' : Option Tx}
    {statement : Statement} {left : List Statement} (h : Within file tx (statement :: left))
    (hexecute : db.execute (.run run file) tx statement = some (db', tx')) :
    Within file tx' left ∧ (db' = db ∨ db.isFree [] (rowOf .applied file) = true ∧
      db' = db.commit ⟨[], [rowOf .applied file], file.bytes.statements⟩ (.run run file)) := by
  generalize hremaining : statement :: left = remaining at h
  cases h with
  | start =>
    cases hremaining
    cases hexecute
    exact ⟨.begun, .inl rfl⟩
  | begun =>
    cases hremaining
    simp only [Database.execute] at hexecute
    split at hexecute
    · cases hexecute
      refine ⟨?_, .inl rfl⟩
      -- A file with its own BEGIN runs it inside, where it does nothing.
      unfold Script.body
      split
      · show Within file _ (.begin :: ((file.bytes.statements.map .run ++ [.commit]) ++ [.commit]))
        rw [List.append_assoc]
        exact .inner
      · exact .running (List.nil_append _).symm (.inl rfl)
    · cases hexecute
  | inner =>
    cases hremaining
    cases hexecute
    exact ⟨.running (List.nil_append _).symm (.inr rfl), .inl rfl⟩
  | @running done rest left' hall hleft =>
    -- The last statement has run: what is left is COMMIT.
    cases rest with
    | nil =>
      cases hremaining
      simp only [Database.execute] at hexecute
      split at hexecute
      next hfree =>
        cases hexecute
        rw [List.append_nil] at hall
        refine ⟨.committed hleft, .inr ⟨?_, ?_⟩⟩
        · exact List.all_eq_true.1 hfree _ (List.mem_singleton.2 rfl)
        · rw [hall]
      · cases hexecute
    | cons text rest =>
      cases hremaining
      cases hexecute
      refine ⟨.running ?_ hleft, .inl rfl⟩
      rw [hall, List.append_assoc, List.singleton_append]
  | committed hleft =>
    -- The outer COMMIT finds no transaction.
    rcases hleft with rfl | rfl
    · cases hremaining
    · cases hremaining
      cases hexecute
      exact ⟨.committed (.inl rfl), .inl rfl⟩

/-- Where the query of an adoption can be. Only the baseline's query deletes. -/
inductive Adopts (read rows : List AppliedMigration) : Option Tx → List Statement → Prop
  /-- Nothing of it has run. -/
  | start : Adopts read rows none [.begin, .insert rows, .commit]
  /-- The rows of before the baseline are deleted, if there are any. -/
  | begun {deleted : List AppliedMigration}
      (hdeleted : deleted = [] ∨ isFullPreBaselineHistory read = true) :
      Adopts read rows (some ⟨deleted, [], []⟩) [.insert rows, .commit]
  /-- The adopted rows are in. -/
  | inserted {deleted : List AppliedMigration}
      (hdeleted : deleted = [] ∨ isFullPreBaselineHistory read = true) :
      Adopts read rows (some ⟨deleted, rows, []⟩) [.commit]
  /-- The baseline takes the place of what it sums up. -/
  | replaces (hfull : isFullPreBaselineHistory read = true) :
      Adopts read rows none [.begin, .delete, .insert rows, .commit]
  /-- Its transaction is open. -/
  | replacing (hfull : isFullPreBaselineHistory read = true) :
      Adopts read rows (some ⟨[], [], []⟩) [.delete, .insert rows, .commit]
  /-- All of it is committed. -/
  | committed : Adopts read rows none []

/-- **A statement of an adoption** changes nothing, or commits all its rows. -/
theorem Adopts.execute {read rows : List AppliedMigration} {db db' : Database} {tx tx' : Option Tx}
    {statement : Statement} {left : List Statement} (h : Adopts read rows tx (statement :: left))
    (hexecute : db.execute (.adoption read) tx statement = some (db', tx')) :
    Adopts read rows tx' left ∧ (db' = db ∨ ∃ deleted,
      (deleted = [] ∨ isFullPreBaselineHistory read = true) ∧ rows.all (db.isFree deleted) = true ∧
        db' = db.commit ⟨deleted, rows, []⟩ (.adoption read)) := by
  cases h with
  | start =>
    cases hexecute
    exact ⟨.begun (.inl rfl), .inl rfl⟩
  | begun hdeleted =>
    simp only [Database.execute] at hexecute
    split at hexecute
    · cases hexecute
      exact ⟨.inserted hdeleted, .inl rfl⟩
    · cases hexecute
  | inserted hdeleted =>
    simp only [Database.execute] at hexecute
    split at hexecute
    next hfree =>
      cases hexecute
      exact ⟨.committed, .inr ⟨_, hdeleted, hfree, rfl⟩⟩
    · cases hexecute
  | replaces hfull =>
    cases hexecute
    exact ⟨.replacing hfull, .inl rfl⟩
  | replacing hfull =>
    cases hexecute
    exact ⟨.begun (.inr hfull), .inl rfl⟩

/-! ## Section 3: The ledger -/

def isApplied (row : AppliedMigration) : Bool := decide (row.how = .applied)

/-- The rows that are in the ledger, or were replaced. -/
def Database.rows (db : Database) : List AppliedMigration :=
  db.ledger ++ db.replaced.map Replaced.row

structure LedgerOk (db : Database) : Prop where
  /-- A file has one row. -/
  unique : (db.ledger.map AppliedMigration.filename).Nodup
  /-- One applied row for each effect. -/
  recorded : (db.effects.map fun e => rowOf .applied e.file).Perm (db.rows.filter isApplied)
  /-- All of a file has run. -/
  whole : ∀ e ∈ db.effects, e.ran = e.file.bytes.statements
  /-- It has run after everything of a lower number that its run knew of. -/
  inOrder : ∀ e ∈ db.effects, ∀ row ∈ e.run.read ++ e.run.own, row.number ≤ e.file.number
  /-- Its run had no reason to refuse. -/
  clear : ∀ e ∈ db.effects, Clear e.run.files e.run.read
  /-- Only the whole history of before the baseline is replaced. -/
  replaced : ∀ r ∈ db.replaced, isFullPreBaselineHistory r.read = true

theorem isFree_iff {db : Database} {deleted : List AppliedMigration} {row : AppliedMigration} :
    db.isFree deleted row = true ↔
      ∀ other ∈ db.ledger, other.filename ≠ row.filename ∨ other ∈ deleted := by
  simp [Database.isFree]

/-- **A file is committed**: its row is new, so its effect is. -/
theorem ledgerOk_commit_run {db : Database} {run : Run} {file : MigrationFile} (h : LedgerOk db)
    (hfree : db.isFree [] (rowOf .applied file) = true) (hclear : Clear run.files run.read)
    (horder : ∀ row ∈ run.read ++ run.own, row.number ≤ file.number) :
    LedgerOk (db.commit ⟨[], [rowOf .applied file], file.bytes.statements⟩ (.run run file)) := by
  have heffects : ∀ e ∈ db.effects ++ [⟨file, file.bytes.statements, run⟩],
      e ∈ db.effects ∨ e = ⟨file, file.bytes.statements, run⟩ := by
    intro e he
    simpa using he
  refine ⟨?_, ?_, ?_, ?_, ?_, h.replaced⟩
  · show ((db.ledger ++ [rowOf .applied file]).map AppliedMigration.filename).Nodup
    rw [List.map_append, List.nodup_append]
    refine ⟨h.unique, List.nodup_singleton _, ?_⟩
    intro name hname other hother heq
    obtain ⟨row, hrow, rfl⟩ := List.mem_map.1 hname
    rw [List.map_singleton, List.mem_singleton] at hother
    rcases isFree_iff.1 hfree row hrow with hne | hdeleted
    · exact hne (heq.trans hother)
    · cases hdeleted
  · show ((db.effects ++ [_]).map _).Perm
      (((db.ledger ++ [rowOf .applied file]) ++ db.replaced.map Replaced.row).filter isApplied)
    rw [List.map_append, List.filter_append, List.filter_append]
    have hrecorded := h.recorded
    rw [Database.rows, List.filter_append] at hrecorded
    exact (hrecorded.append_right _).trans (by
      rw [List.append_assoc, List.append_assoc]
      exact (List.perm_append_comm).append_left _)
  · intro e he
    rcases heffects e he with he | rfl
    · exact h.whole e he
    · rfl
  · intro e he
    rcases heffects e he with he | rfl
    · exact h.inOrder e he
    · exact horder
  · intro e he
    rcases heffects e he with he | rfl
    · exact h.clear e he
    · exact hclear

/-- **An adoption is committed**: the rows it deletes are kept as replaced. -/
theorem ledgerOk_commit_adoption {db : Database} {read rows deleted : List AppliedMigration}
    (h : LedgerOk db) (hfree : rows.all (db.isFree deleted) = true)
    (hadopted : ∀ row ∈ rows, row.how = .adopted)
    (hnodup : (rows.map AppliedMigration.filename).Nodup)
    (hdeleted : deleted = [] ∨ isFullPreBaselineHistory read = true) :
    LedgerOk (db.commit ⟨deleted, rows, []⟩ (.adoption read)) := by
  refine ⟨?_, ?_, h.whole, h.inOrder, h.clear, ?_⟩
  · -- A name that was not deleted is not adopted again.
    show ((db.ledger.filter (· ∉ deleted) ++ rows).map AppliedMigration.filename).Nodup
    rw [List.map_append, List.nodup_append]
    refine ⟨h.unique.sublist (List.filter_sublist.map _), hnodup, ?_⟩
    intro name hname other hother heq
    obtain ⟨row, hrow, rfl⟩ := List.mem_map.1 hname
    obtain ⟨new, hnew, rfl⟩ := List.mem_map.1 hother
    obtain ⟨hledger, hkept⟩ := List.mem_filter.1 hrow
    rcases isFree_iff.1 (List.all_eq_true.1 hfree new hnew) row hledger with hne | hin
    · exact hne heq
    · exact of_decide_eq_true hkept hin
  · show (db.effects.map _).Perm
      ((db.ledger.filter (· ∉ deleted) ++ rows ++ (db.replaced ++
        (db.ledger.filter (· ∈ deleted)).map fun row => (⟨row, read⟩ : Replaced)).map
          Replaced.row).filter isApplied)
    -- The adopted rows have not run, and the deleted ones are still counted among the replaced.
    have hrows : rows.filter isApplied = [] := by
      apply List.filter_eq_nil_iff.2
      intro row hrow hisApplied
      rw [isApplied, hadopted row hrow] at hisApplied
      cases hisApplied
    have hmap : ((db.ledger.filter (· ∈ deleted)).map fun row => (⟨row, read⟩ : Replaced)).map
        Replaced.row = db.ledger.filter (· ∈ deleted) := by
      rw [List.map_map]
      exact List.map_id _
    have hsplit : (db.ledger.filter (· ∉ deleted) ++ db.ledger.filter (· ∈ deleted)).Perm
        db.ledger := by
      have hperm := List.filter_append_perm (fun row => decide (row ∈ deleted)) db.ledger
      refine (List.perm_append_comm).trans (List.Perm.trans ?_ hperm)
      simp
    rw [List.map_append, hmap, List.filter_append, List.filter_append, hrows, List.append_nil,
      ← List.filter_append]
    refine h.recorded.trans ?_
    apply List.Perm.filter
    show (db.ledger ++ db.replaced.map Replaced.row).Perm _
    refine ((hsplit.symm).append_right _).trans ?_
    rw [List.append_assoc]
    exact (List.perm_append_comm).append_left _
  · intro r hr
    rcases List.mem_append.1 hr with hr | hr
    · exact h.replaced r hr
    · obtain ⟨row, hrow, rfl⟩ := List.mem_map.1 hr
      rcases hdeleted with rfl | hfull
      · obtain ⟨-, hin⟩ := List.mem_filter.1 hrow
        cases of_decide_eq_true hin
      · exact hfull

/-! ## Section 4: Runs -/

/-- A run has applied the first of the pending files, and has the rest left. -/
structure RunOk (run : Run) : Prop where
  files : FilesOk run.files
  clear : Clear run.files run.read
  split : ∃ done, run.files.filter (pending run.read) = done ++ run.left ∧
    run.own = done.map (rowOf .applied)

/-- The rows of an adoption. -/
structure AdoptedOk (rows : List AppliedMigration) : Prop where
  adopted : ∀ row ∈ rows, row.how = .adopted
  nodup : (rows.map AppliedMigration.filename).Nodup

/-- What a request knows of its own. -/
def RequestOk : Request → Prop
  | .migrate _ _ => True
  | .looks files => FilesOk files
  | .query run file tx left => RunOk { run with left := file :: run.left } ∧ Within file tx left
  | .took run => RunOk run
  | .returned run => RunOk run ∧ run.left = []
  | .adopt _ _ _ _ => True
  | .ensureLedger read left => ∃ rows, AdoptedOk rows ∧ Adopts read rows none left
  | .adopting read tx left => ∃ rows, AdoptedOk rows ∧ Adopts read rows tx left

theorem RunOk.next {run : Run} (h : RunOk run) : RequestOk run.next := by
  obtain ⟨files, read, own, left⟩ := run
  unfold Run.next
  cases left with
  | nil => exact ⟨h, rfl⟩
  | cons file left => exact ⟨h, .start⟩

/-- A run whose plan is clear. -/
theorem planned_ok {files : List MigrationFile} {read : List AppliedMigration} {req : Request}
    (hfiles : FilesOk files) (h : planned files read = some req) : RequestOk req := by
  unfold planned at h
  dsimp only at h
  split at h
  · cases h
  next hclear =>
    cases h
    have hclear := clear_iff.1 (Bool.eq_false_iff.2 hclear)
    exact RunOk.next ⟨hfiles, hclear, [], hclear.toApply.symm, rfl⟩

/-- **The next file** is not numbered below what its run has read or applied. -/
theorem RunOk.inOrder {run : Run} {file : MigrationFile}
    (h : RunOk { run with left := file :: run.left }) :
    ∀ row ∈ run.read ++ run.own, row.number ≤ file.number := by
  obtain ⟨done, hsplit, hown⟩ := h.split
  have hmem : file ∈ run.files.filter (pending run.read) := by
    rw [hsplit]
    exact List.mem_append_right _ List.mem_cons_self
  obtain ⟨hfile, hpending⟩ := List.mem_filter.1 hmem
  intro row hrow
  rcases List.mem_append.1 hrow with hrow | hrow
  · exact h.clear.inOrder hfile hpending hrow
  · rw [show run.own = _ from hown] at hrow
    obtain ⟨other, hother, rfl⟩ := List.mem_map.1 hrow
    have hsorted := h.files.sorted.sublist (List.filter_sublist (p := pending run.read))
    rw [hsplit, List.pairwise_append] at hsorted
    exact hsorted.2.2 other hother file List.mem_cons_self

/-- The file that is applied is no more left. -/
theorem RunOk.applied {run : Run} {file : MigrationFile}
    (h : RunOk { run with left := file :: run.left }) :
    RunOk { run with own := run.own ++ [rowOf .applied file] } := by
  obtain ⟨done, hsplit, hown⟩ := h.split
  refine ⟨h.files, h.clear, done ++ [file], ?_, ?_⟩
  · rw [List.append_assoc]
    exact hsplit
  · show run.own ++ [_] = _
    rw [List.map_append, ← hown]
    rfl

theorem adoptedOk_rows {files : List MigrationFile} (hfiles : FilesOk files) (through : Text) :
    AdoptedOk ((adoptedFiles files through).map (rowOf .adopted)) := by
  refine ⟨?_, ?_⟩
  · intro row hrow
    obtain ⟨file, -, rfl⟩ := List.mem_map.1 hrow
    rfl
  · rw [List.map_map]
    exact hfiles.nodup.sublist ((List.take_sublist _ _).map _)

variable {checksumOf : Script → Text} {db db' : Database} {left : Option Request}

theorem adopt_ok {files : List MigrationFile} {through : Text} {confirmWillRun dryRun : Bool}
    (hfiles : FilesOk files)
    (h : adopt db files through confirmWillRun dryRun = some (db', left)) :
    db' = db ∧ ∀ req ∈ left, RequestOk req := by
  unfold adopt at h
  dsimp only at h
  generalize (if db.table then db.ledger else []) = existing at h
  split at h
  · cases h
    exact ⟨rfl, by simp⟩
  · split at h
    · cases h
      exact ⟨rfl, by simp⟩
    · split at h
      · cases h
        exact ⟨rfl, by simp⟩
      · cases h
        refine ⟨rfl, ?_⟩
        intro req hreq
        cases hreq
        refine ⟨_, adoptedOk_rows hfiles through, ?_⟩
        split
        next hreplaces => exact .replaces (Bool.and_eq_true_iff.1 hreplaces).2
        · exact .start

theorem ledgerFor_ok {files : List MigrationFile} {dryRun : Bool} (hfiles : FilesOk files)
    (h : ledgerFor db files dryRun = some (db', left)) :
    db' = db ∧ ∀ req ∈ left, RequestOk req := by
  unfold ledgerFor at h
  split at h
  · cases h
    exact ⟨rfl, by simp⟩
  · split at h
    · cases h
      exact ⟨rfl, by simp⟩
    · split at h
      · cases h
        refine ⟨rfl, ?_⟩
        intro req hreq
        cases hreq
        exact hfiles
      · cases h
        exact ⟨rfl, fun req hreq => planned_ok hfiles hreq⟩

/-- A directory that cannot be read has no files. -/
theorem filesOk_getD (dir : Directory) : FilesOk ((readMigrations checksumOf dir).getD []) := by
  cases hread : readMigrations checksumOf dir with
  | none => exact ⟨List.Pairwise.nil, List.nodup_nil⟩
  | some files => exact filesOk_readMigrations hread

/-- **A step keeps the ledger**, and what the request goes on with. -/
theorem step_ok {req : Request} {answer : Answer} (hdb : LedgerOk db) (hreq : RequestOk req)
    (h : step checksumOf db req answer = some (db', left)) :
    LedgerOk db' ∧ ∀ req ∈ left, RequestOk req := by
  unfold step at h
  split at h
  · -- The cases are those of `step`, in its order. Only a COMMIT changes the ledger.
    obtain ⟨rfl, hleft⟩ := ledgerFor_ok (filesOk_getD _) h
    exact ⟨hdb, hleft⟩
  · split at h
    · cases h
      exact ⟨hdb, by simp⟩
    · cases h
      exact ⟨hdb, fun req hplanned => planned_ok hreq hplanned⟩
  · next run file tx statement left' =>
    split at h
    · cases h
      exact ⟨hdb, by simp⟩
    next db'' tx' hexecute =>
      cases h
      -- A statement of a file: nothing is committed, or the whole file is.
      obtain ⟨hrun, hwithin⟩ := hreq
      obtain ⟨hwithin', hcommit⟩ := hwithin.execute hexecute
      refine ⟨?_, ?_⟩
      · rcases hcommit with rfl | ⟨hfree, rfl⟩
        · exact hdb
        · exact ledgerOk_commit_run hdb hfree hrun.clear hrun.inOrder
      · intro req hreq
        cases hreq
        exact ⟨hrun, hwithin'⟩
  · cases h
    refine ⟨hdb, ?_⟩
    intro req hreq'
    cases hreq'
    exact hreq.1.applied
  · cases h
    refine ⟨hdb, ?_⟩
    intro req hreq'
    cases hreq'
    exact RunOk.next hreq
  · obtain ⟨rfl, hleft⟩ := adopt_ok (filesOk_getD _) h
    exact ⟨hdb, hleft⟩
  · cases h
    refine ⟨⟨hdb.unique, hdb.recorded, hdb.whole, hdb.inOrder, hdb.clear, hdb.replaced⟩, ?_⟩
    intro req hreq'
    cases hreq'
    exact hreq
  · next read tx statement left' =>
    split at h
    · cases h
      exact ⟨hdb, by simp⟩
    next db'' tx' hexecute =>
      cases h
      -- A statement of an adoption.
      obtain ⟨rows, hrows, hadopts⟩ := hreq
      obtain ⟨hadopts', hcommit⟩ := hadopts.execute hexecute
      refine ⟨?_, ?_⟩
      · rcases hcommit with rfl | ⟨deleted, hdeleted, hfree, rfl⟩
        · exact hdb
        · exact ledgerOk_commit_adoption hdb hfree hrows.adopted hrows.nodup hdeleted
      · intro req hreq
        cases hreq
        exact ⟨rows, hrows, hadopts'⟩
  · cases h
    exact ⟨hdb, by simp⟩
  · cases h

theorem migrations_keep : (migrationRequests checksumOf).Keeps (fun _ _ _ => True) LedgerOk
    (fun _ => RequestOk) (fun _ _ => True) where
  refl _ := trivial
  trans _ _ _ _ _ := trivial
  stable _ _ _ _ h := h
  begins s req _ hbegins := by
    cases req with
    | migrate => trivial
    | adopt => trivial
    | looks => cases hbegins
    | query => cases hbegins
    | took => cases hbegins
    | returned => cases hbegins
    | ensureLedger => cases hbegins
    | adopting => cases hbegins
  step s req answer t left hs hreq _ hstep := by
    obtain ⟨ht, hleft⟩ := step_ok hs hreq hstep
    exact ⟨ht, trivial, hleft⟩
  happens s event t hs hhappens := by
    cases hhappens
    exact ⟨⟨hs.unique, hs.recorded, hs.whole, hs.inOrder, hs.clear, hs.replaced⟩, trivial⟩

/-! ## Section 5: Safety -/

def Effect.of (filename : Text) (e : Effect) : Bool := decide (e.file.filename = filename)

/-- The row says that the file has run. -/
def AppliedMigration.of (filename : Text) (row : AppliedMigration) : Bool :=
  isApplied row && decide (row.filename = filename)

structure MigrationsSafe (s : Requests.State Database Request) : Prop where
  /-- An effect is committed with its row. -/
  together : ∀ filename, (∃ e ∈ s.shared.effects, e.file.filename = filename) ↔
    ∃ row ∈ s.shared.rows, row.of filename = true
  /-- All of a file is committed, or nothing. -/
  whole : ∀ e ∈ s.shared.effects, e.ran = e.file.bytes.statements
  /-- A file runs once, but for those that an adoption has taken out. -/
  once : ∀ filename, s.shared.effects.countP (Effect.of filename) ≤
    1 + s.shared.replaced.countP fun r => r.row.of filename
  /-- A file that is adopted has not run. -/
  adopted : ∀ row ∈ s.shared.ledger, row.how = .adopted →
    s.shared.effects.countP (Effect.of row.filename) =
      s.shared.replaced.countP fun r => r.row.of row.filename
  /-- Files run in the order of their numbers. -/
  inOrder : ∀ e ∈ s.shared.effects, ∀ row ∈ e.run.read ++ e.run.own, row.number ≤ e.file.number
  /-- A run that refuses a file runs none. -/
  refused : ∀ e ∈ s.shared.effects,
    (planMigrations e.run.files e.run.read).any PlanStep.isRefusal = false
  /-- Only the whole history of before the baseline is replaced. -/
  replaced : ∀ r ∈ s.shared.replaced, isFullPreBaselineHistory r.read = true
  /-- A run has returned without a refusal, and nobody else has changed the ledger. -/
  complete : ∀ id run, s.inFlight id = some (.returned run) →
    s.shared.ledger = run.read ++ run.own →
    toApply (planMigrations run.files s.shared.ledger) = [] ∧
      (planMigrations run.files s.shared.ledger).any PlanStep.isRefusal = false

theorem LedgerOk.count (h : LedgerOk db) (filename : Text) :
    db.effects.countP (Effect.of filename) =
      db.ledger.countP (AppliedMigration.of filename) +
        db.replaced.countP fun r => r.row.of filename := by
  have hperm := h.recorded.countP_eq fun row => decide (row.filename = filename)
  rw [List.countP_map, List.countP_filter, Database.rows, List.countP_append,
    List.countP_map] at hperm
  have hof : ∀ row : AppliedMigration, (decide (row.filename = filename) && isApplied row) =
      row.of filename := fun row => Bool.and_comm ..
  simp only [hof] at hperm
  exact hperm

theorem mem_of_filename {row other : AppliedMigration} (h : LedgerOk db) (hrow : row ∈ db.ledger)
    (hother : other ∈ db.ledger) (hname : row.filename = other.filename) : row = other :=
  List.inj_on_of_nodup_map h.unique hrow hother hname

theorem LedgerOk.count_le (h : LedgerOk db) (filename : Text) :
    db.ledger.countP (AppliedMigration.of filename) ≤ 1 := by
  have hle : db.ledger.countP (AppliedMigration.of filename) ≤
      (db.ledger.map AppliedMigration.filename).count filename := by
    rw [List.count, List.countP_map]
    apply List.countP_mono_left
    intro row _ hof
    simpa using (Bool.and_eq_true_iff.1 hof).2
  exact hle.trans (List.nodup_iff_count_le_one.1 h.unique filename)

theorem MigrationsSafe.of_ok {s : Requests.State Database Request} (h : LedgerOk s.shared)
    (hrequests : ∀ id req, s.inFlight id = some req → RequestOk req) : MigrationsSafe s where
  together filename := by
    have hcount := h.count filename
    have heffects : (∃ e ∈ s.shared.effects, e.file.filename = filename) ↔
        0 < s.shared.effects.countP (Effect.of filename) := by
      rw [List.countP_pos_iff]
      simp [Effect.of]
    have hrows : (∃ row ∈ s.shared.rows, row.of filename = true) ↔
        0 < s.shared.rows.countP (AppliedMigration.of filename) := by
      rw [List.countP_pos_iff]
    rw [heffects, hrows, hcount, Database.rows, List.countP_append, List.countP_map]
    rfl
  whole := h.whole
  once filename := by
    have hcount := h.count filename
    have hle := h.count_le filename
    omega
  adopted row hrow hhow := by
    have hnone : s.shared.ledger.countP (AppliedMigration.of row.filename) = 0 := by
      apply List.countP_eq_zero.2
      intro other hother hof
      obtain ⟨happlied, hname⟩ := Bool.and_eq_true_iff.1 hof
      have hsame := mem_of_filename h hother hrow (of_decide_eq_true hname)
      rw [isApplied, hsame, hhow] at happlied
      cases happlied
    rw [h.count row.filename, hnone, Nat.zero_add]
  inOrder := h.inOrder
  refused e he := clear_iff.2 (h.clear e he)
  replaced := h.replaced
  complete id run hrun hledger := by
    obtain ⟨hok, hleft⟩ := hrequests id _ hrun
    obtain ⟨done, hsplit, hown⟩ := hok.split
    rw [hleft, List.append_nil] at hsplit
    obtain ⟨hclear, hnone⟩ := hok.clear.applied hok.files
    rw [hsplit, ← hown, ← hledger] at hclear
    rw [hsplit, ← hown, ← hledger] at hnone
    exact ⟨hclear.toApply.trans hnone, clear_iff.2 hclear⟩

/-- **Migrations run in order, once, and all or nothing**, over any interleaving of runs and
    adoptions, whichever of them dies. -/
theorem migrations_safe {s t : Requests.State Database Request}
    {labels : List (Requests.Label Request Answer Event)}
    (hinit : (migrationRunner checksumOf).init s)
    (hrun : (migrationRunner checksumOf).run s labels = some t) : MigrationsSafe t := by
  have hstart : Requests.Inv LedgerOk (fun _ => RequestOk) s := by
    refine Requests.inv_init ?_ hinit
    intro db hdb
    rw [hdb]
    exact ⟨List.nodup_nil, .nil, by simp [Database.fresh], by simp [Database.fresh],
      by simp [Database.fresh], by simp [Database.fresh]⟩
  obtain ⟨hok, -⟩ := migrations_keep.run hstart (Requests.allSteps_true s labels) hrun
  exact MigrationsSafe.of_ok hok.1 hok.2

/-! ## Section 6: Two releases -/

/-- `00n_a.sql`, with one statement -/
def numbered (digit : Char) : Text × Script :=
  (['0', '0', digit, '_', 'a', '.', 's', 'q', 'l'], ⟨[[digit]], false⟩)

/-- A release whose files are numbered 1 and 2, and one with 1 and 3. -/
def release (digit : Char) (h : digit ≠ '1') : Directory :=
  ⟨[numbered '1', numbered digit], by simp [numbered, h.symm]⟩

def nothing : Requests.State Database Request := ⟨Database.fresh, fun _ => none⟩

/-- The statements of one file, up to the next one. -/
def one (id : Nat) : List (Requests.Label Request Answer Event) :=
  List.replicate 6 (.step id .done)

def upToPlan (id : Nat) (dir : Directory) : List (Requests.Label Request Answer Event) :=
  [.call id (.migrate dir false), .step id .done]

theorem migrations_safe_release :
    ∃ t, (migrationRunner fun _ => []).run nothing
        (.happen .ensureLedger :: upToPlan 0 (release '2' (by decide)) ++
          .step 0 (.tables false) :: one 0 ++ one 0) = some t ∧
      MigrationsSafe t ∧ t.shared.effects.map (fun e => e.file.number) = [1, 2] := by
  have hrun : (migrationRunner fun _ => []).run nothing
        (.happen .ensureLedger :: upToPlan 0 (release '2' (by decide)) ++
          .step 0 (.tables false) :: one 0 ++ one 0) = some _ := rfl
  exact ⟨_, hrun, migrations_safe ⟨rfl, fun _ => rfl⟩ hrun, rfl⟩

/-- The older release has applied its first file when the newer one plans. -/
def overtaken : List (Requests.Label Request Answer Event) :=
  .happen .ensureLedger :: upToPlan 0 (release '2' (by decide)) ++
    .step 0 (.tables false) :: one 0 ++ upToPlan 1 (release '3' (by decide)) ++ one 1 ++
    List.replicate 3 (.step 0 .done)

/-- The first and the last file of the history that the baseline replaces. -/
def preBaseline : Directory :=
  ⟨[(preBaselineFirst, ⟨[], false⟩), (preBaselineLast, ⟨[], false⟩)], by decide⟩

def baselineOnly : Directory := ⟨[(baselineFilename, ⟨[], false⟩)], by decide⟩

def replacing : List (Requests.Label Request Answer Event) :=
  .happen .ensureLedger :: upToPlan 0 preBaseline ++
    .step 0 (.tables false) :: List.replicate 10 (.step 0 .done) ++
    .call 1 (.adopt baselineOnly baselineFilename false false) :: List.replicate 6 (.step 1 .done)

/-- The older release goes on beneath the newer one. The adoption of the baseline leaves effects
    without their rows. -/
theorem beneath_or_unrecorded : (migrationRunner fun _ => []).init nothing ∧
    (∃ t u, (migrationRunner fun _ => []).run nothing overtaken = some t ∧
      (migrationRunner fun _ => []).next t (.step 0 .done) = some u ∧
      ∃ e ∈ u.shared.effects, e ∉ t.shared.effects ∧
        ∃ row ∈ t.shared.ledger, e.file.number < row.number) ∧
    ∃ t, (migrationRunner fun _ => []).run nothing replacing = some t ∧
      ∃ e ∈ t.shared.effects, ∀ row ∈ t.shared.ledger, row.filename ≠ e.file.filename := by
  refine ⟨⟨rfl, fun _ => rfl⟩, ⟨_, _, rfl, rfl, ?_⟩, _, rfl, ?_⟩
  · decide +kernel
  · decide +kernel

end Lares.Migrations
