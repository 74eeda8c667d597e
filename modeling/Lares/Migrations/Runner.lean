import Lares.Framework.Interleaving
import Lares.Framework.Lines
import Mathlib

/-! # The migration runner

    What is on disk, what the ledger says, and what may therefore run.

    * **Files** of a directory, by number and then by name.
    * **The plan** is pure: what would happen to each file, given the ledger.
    * **Scripts**: one file is one query, whose ledger row comes first. A file
      may bring its own `BEGIN … COMMIT`, which ends the outer transaction.
    * **Requests**: runs and adoptions, each from its own directory, that
      interleave statement by statement and may die between any two.
-/

namespace Lares.Migrations

abbrev Text := List Char

attribute [local instance] Lines.lawfulText

/-! ## Section 1: Files -/

/-- What a file holds; nothing follows its own `COMMIT`. -/
structure Script where
  statements : List Text
  /-- It brings its own `BEGIN` and `COMMIT`. -/
  wrapped : Bool
deriving DecidableEq

structure MigrationFile where
  filename : Text
  number : Nat
  bytes : Script
  checksum : Text
deriving DecidableEq

structure Directory where
  entries : List (Text × Script)
  nodup : (entries.map Prod.fst).Nodup

inductive How where
  | applied
  | adopted
deriving DecidableEq

/-- A row of `schema_migrations`; the filename is its primary key. -/
structure AppliedMigration where
  filename : Text
  number : Nat
  checksum : Text
  how : How
deriving DecidableEq

def digit (c : Char) : Nat := c.toNat - '0'.toNat

/-- `/^(\d{3})[-_]/` -/
def numberOf : Text → Option Nat
  | a :: b :: c :: separator :: _ =>
      if a.isDigit ∧ b.isDigit ∧ c.isDigit ∧ (separator = '-' ∨ separator = '_') then
        some (digit a * 100 + digit b * 10 + digit c)
      else none
  | _ => none

def isSql (filename : Text) : Bool := ['.', 's', 'q', 'l'].isSuffixOf filename

/-- The UTF-16 units that `<` compares. -/
def codeUnits (s : Text) : List Nat :=
  s.flatMap fun c =>
    if c.toNat < 0x10000 then [c.toNat]
    else [0xd800 + (c.toNat - 0x10000) / 0x400, 0xdc00 + (c.toNat - 0x10000) % 0x400]

/-- Number first, then filename. -/
def MigrationFile.before (x y : MigrationFile) : Prop :=
  x.number < y.number ∨ x.number = y.number ∧ codeUnits x.filename ≤ codeUnits y.filename

instance (x y : MigrationFile) : Decidable (x.before y) :=
  inferInstanceAs (Decidable (_ ∨ _ ∧ _))

/-- `001_baseline.sql` -/
def baselineFilename : Text :=
  ['0', '0', '1', '_', 'b', 'a', 's', 'e', 'l', 'i', 'n', 'e', '.', 's', 'q', 'l']

/-- `001_init.sql` -/
def preBaselineFirst : Text := ['0', '0', '1', '_', 'i', 'n', 'i', 't', '.', 's', 'q', 'l']

/-- `094_outside_tool_pins.sql` -/
def preBaselineLast : Text :=
  ['0', '9', '4', '_', 'o', 'u', 't', 's', 'i', 'd', 'e', '_', 't', 'o', 'o', 'l', '_', 'p', 'i',
    'n', 's', '.', 's', 'q', 'l']

def hasPreBaselineHistory (applied : List AppliedMigration) : Bool :=
  applied.any (fun row => row.filename = preBaselineFirst) &&
    !applied.any fun row => row.filename = baselineFilename

def isFullPreBaselineHistory (applied : List AppliedMigration) : Bool :=
  hasPreBaselineHistory applied && applied.any fun row => row.filename = preBaselineLast

/-! ## Section 2: The plan -/

inductive RefusalReason where
  /-- Its bytes are not those that were applied. -/
  | changed
  /-- It would go beneath one that was applied. -/
  | outOfOrder (highest : AppliedMigration)
  /-- It was applied, and is gone. -/
  | missing
  /-- The ledger is of before the baseline. -/
  | preBaseline
deriving DecidableEq

inductive PlanStep where
  | apply (file : MigrationFile)
  | skip (file : MigrationFile)
  | refuse (file : MigrationFile) (reason : RefusalReason)
deriving DecidableEq

/-- `COMMENT_ONLY_MIGRATIONS`: filename, checksum before, checksum after. -/
def commentOnlyMigrations : List (Text × Text × Text) := []

def isCommentOnlyMigration (filename before after : Text) : Bool :=
  (filename, before, after) ∈ commentOnlyMigrations

def planFile (applied : List AppliedMigration) (file : MigrationFile) : PlanStep :=
  match applied.find? fun row => row.filename = file.filename with
  | some already =>
      if already.checksum = file.checksum ∨
          isCommentOnlyMigration file.filename already.checksum file.checksum then
        .skip file
      else .refuse file .changed
  | none =>
      match applied.argmax AppliedMigration.number with
      | some highest =>
          if file.number < highest.number then .refuse file (.outOfOrder highest) else .apply file
      | none => .apply file

/-- A row with nothing on disk to match it. -/
def planMissing (files : List MigrationFile) (row : AppliedMigration) : Option PlanStep :=
  if row.filename ∈ files.map MigrationFile.filename then none
  else some (.refuse ⟨row.filename, row.number, ⟨[], false⟩, row.checksum⟩ .missing)

def planMigrations (files : List MigrationFile) (applied : List AppliedMigration) : List PlanStep :=
  match files.find? fun file => file.filename = baselineFilename with
  | some baseline =>
      if hasPreBaselineHistory applied then [.refuse baseline .preBaseline]
      else files.map (planFile applied) ++ applied.filterMap (planMissing files)
  | none => files.map (planFile applied) ++ applied.filterMap (planMissing files)

def PlanStep.toApply : PlanStep → Option MigrationFile
  | .apply file => some file
  | .skip _ => none
  | .refuse _ _ => none

def PlanStep.isRefusal : PlanStep → Bool
  | .apply _ => false
  | .skip _ => false
  | .refuse _ _ => true

def toApply (plan : List PlanStep) : List MigrationFile := plan.filterMap PlanStep.toApply

/-! ## Section 3: The database -/

inductive Statement where
  /-- `BEGIN` -/
  | begin
  /-- `INSERT INTO schema_migrations` -/
  | insert (rows : List AppliedMigration)
  /-- `DELETE FROM schema_migrations` -/
  | delete
  /-- A statement of a file. -/
  | run (statement : Text)
  /-- `COMMIT` -/
  | commit
deriving DecidableEq

/-- What the open transaction has done. -/
structure Tx where
  deleted : List AppliedMigration
  rows : List AppliedMigration
  ran : List Text
deriving DecidableEq

/-- One call of `runMigrations`: the directory, the ledger it has read, the rows of what it has
    applied, and what is left. -/
structure Run where
  /-- The files of the release. -/
  files : List MigrationFile
  /-- The ledger as it was read. -/
  read : List AppliedMigration
  /-- What it has applied itself. -/
  own : List AppliedMigration
  left : List MigrationFile
deriving DecidableEq

/-- A committed effect. -/
structure Effect where
  file : MigrationFile
  ran : List Text
  run : Run
deriving DecidableEq

/-- A row that an adoption has deleted, and the ledger which that adoption had read. -/
structure Replaced where
  row : AppliedMigration
  read : List AppliedMigration
deriving DecidableEq

structure Database where
  /-- `schema_migrations` exists. -/
  table : Bool
  /-- The rows of `schema_migrations`. -/
  ledger : List AppliedMigration
  /-- What was run and committed. -/
  effects : List Effect
  /-- The rows that an adoption has taken out. -/
  replaced : List Replaced
deriving DecidableEq

/-- Whose transaction it is. -/
inductive Writer where
  | run (run : Run) (file : MigrationFile)
  | adoption (read : List AppliedMigration)
deriving DecidableEq

namespace Database

def fresh : Database := ⟨false, [], [], []⟩

/-- No other row has the filename. -/
def isFree (db : Database) (deleted : List AppliedMigration) (row : AppliedMigration) : Bool :=
  db.ledger.all fun other => decide (other.filename ≠ row.filename) || decide (other ∈ deleted)

def commit (db : Database) (tx : Tx) : Writer → Database
  | .run run file =>
      { db with ledger := db.ledger ++ tx.rows, effects := db.effects ++ [⟨file, tx.ran, run⟩] }
  | .adoption read =>
      { db with
        ledger := db.ledger.filter (· ∉ tx.deleted) ++ tx.rows
        replaced := db.replaced ++ (db.ledger.filter (· ∈ tx.deleted)).map fun row => ⟨row, read⟩ }

/-- One statement of a query; `none` where it fails. An INSERT waits for a transaction that has
    inserted the same filename: what it would find then is also checked at the COMMIT. -/
def execute (db : Database) (writer : Writer) (tx : Option Tx) (statement : Statement) :
    Option (Database × Option Tx) :=
  match tx, statement with
  | none, .begin => some (db, some ⟨[], [], []⟩)
  -- "there is already a transaction in progress"
  | some tx, .begin => some (db, some tx)
  | some tx, .insert rows =>
      if rows.all (db.isFree tx.deleted) then some (db, some { tx with rows := tx.rows ++ rows })
      else none
  | some tx, .delete => some (db, some { tx with deleted := tx.deleted ++ db.ledger })
  | some tx, .run statement => some (db, some { tx with ran := tx.ran ++ [statement] })
  | some tx, .commit =>
      if tx.rows.all (db.isFree tx.deleted) then some (db.commit tx writer, none) else none
  -- "there is no transaction in progress"
  | none, .commit => some (db, none)
  -- no query has another statement outside its transaction
  | none, .insert _ => none
  | none, .delete => none
  | none, .run _ => none

end Database

/-! ## Section 4: Requests -/

section Requests

-- `checksumOf`, a SHA-256.
variable (checksumOf : Script → Text)

def migrationFile (entry : Text × Script) : Option MigrationFile :=
  (numberOf entry.1).map fun number => ⟨entry.1, number, entry.2, checksumOf entry.2⟩

/-- It throws where a file has no number. -/
def readMigrations (dir : Directory) : Option (List MigrationFile) :=
  let entries := dir.entries.filter fun entry => isSql entry.1
  if entries.all fun entry => (numberOf entry.1).isSome then
    some ((entries.filterMap (migrationFile checksumOf)).insertionSort MigrationFile.before)
  else none

def rowOf (how : How) (file : MigrationFile) : AppliedMigration :=
  ⟨file.filename, file.number, file.checksum, how⟩

def Script.body (script : Script) : List Statement :=
  if script.wrapped then .begin :: script.statements.map .run ++ [.commit]
  else script.statements.map .run

/-- The query for one file: the ledger row comes first. -/
def queryFor (file : MigrationFile) : List Statement :=
  .begin :: .insert [rowOf .applied file] :: (file.bytes.body ++ [.commit])

inductive Request where
  /-- `migrate` begins. -/
  | migrate (dir : Directory) (dryRun : Bool)
  /-- It has read the directory, and looks for the table. -/
  | looks (files : List MigrationFile)
  /-- The query of a file is being run. -/
  | query (run : Run) (file : MigrationFile) (tx : Option Tx) (left : List Statement)
  /-- `UPDATE schema_migrations SET took_ms` -/
  | took (run : Run)
  /-- It has returned. -/
  | returned (run : Run)
  /-- `adopt` begins. -/
  | adopt (dir : Directory) (through : Text) (confirmWillRun dryRun : Bool)
  /-- It makes the table. -/
  | ensureLedger (read : List AppliedMigration) (left : List Statement)
  /-- Its query is being run. -/
  | adopting (read : List AppliedMigration) (tx : Option Tx) (left : List Statement)

inductive Answer where
  | done
  /-- Whether there is a table beside the ledger's. -/
  | tables (any : Bool)
deriving DecidableEq

def Request.begins : Request → Bool
  | .migrate dir _ => (readMigrations checksumOf dir).isSome
  | .adopt dir through _ _ =>
      ((readMigrations checksumOf dir).getD []).any fun file => file.filename = through
  | .looks _ => false
  | .query .. => false
  | .took _ => false
  | .returned _ => false
  | .ensureLedger .. => false
  | .adopting .. => false

/-- The next file, or the end of the loop. -/
def Run.next (run : Run) : Request :=
  match run.left with
  | [] => .returned run
  | file :: left => .query { run with left } file none (queryFor file)

/-- A plan with a refusal applies nothing. -/
def planned (files : List MigrationFile) (read : List AppliedMigration) : Option Request :=
  let plan := planMigrations files read
  if plan.any PlanStep.isRefusal then none else some (Run.next ⟨files, read, [], toApply plan⟩)

abbrev After := Option (Database × Option Request)

def ledgerFor (db : Database) (files : List MigrationFile) (dryRun : Bool) : After :=
  if dryRun then some (db, none)
  -- a missing table throws, whether there is another one or not
  else if db.table = false then some (db, none)
  else if db.ledger = [] then some (db, some (.looks files))
  else some (db, planned files db.ledger)

/-- What is adopted: up to and including `through`. -/
def adoptedFiles (files : List MigrationFile) (through : Text) : List MigrationFile :=
  files.take (files.findIdx (fun file => file.filename = through) + 1)

def adopt (db : Database) (files : List MigrationFile) (through : Text)
    (confirmWillRun dryRun : Bool) : After :=
  let existing := if db.table then db.ledger else []
  let replaces := decide (through = baselineFilename) && isFullPreBaselineHistory existing
  let rows := (adoptedFiles files through).map (rowOf .adopted)
  if existing ≠ [] ∧ replaces = false then some (db, none)
  else if toApply (planMigrations files rows) ≠ [] ∧ dryRun = false ∧ confirmWillRun = false then
    some (db, none)
  else if dryRun then some (db, none)
  else some (db, some (.ensureLedger existing
    (if replaces then [.begin, .delete, .insert rows, .commit]
    -- one statement is a transaction of its own
    else [.begin, .insert rows, .commit])))

def step (db : Database) (req : Request) (answer : Answer) : After :=
  match req, answer with
  | .migrate dir dryRun, .done => ledgerFor db ((readMigrations checksumOf dir).getD []) dryRun
  | .looks files, .tables any => if any then some (db, none) else some (db, planned files [])
  | .query run file tx (statement :: left), .done =>
      match db.execute (.run run file) tx statement with
      | none => some (db, none)
      | some (db, tx) => some (db, some (.query run file tx left))
  | .query run file _ [], .done =>
      some (db, some (.took { run with own := run.own ++ [rowOf .applied file] }))
  | .took run, .done => some (db, some run.next)
  | .adopt dir through confirmWillRun dryRun, .done =>
      adopt db ((readMigrations checksumOf dir).getD []) through confirmWillRun dryRun
  | .ensureLedger read left, .done =>
      some ({ db with table := true }, some (.adopting read none left))
  | .adopting read tx (statement :: left), .done =>
      match db.execute (.adoption read) tx statement with
      | none => some (db, none)
      | some (db, tx) => some (db, some (.adopting read tx left))
  | .adopting _ _ [], .done => some (db, none)
  | _, _ => none

/-- The command line makes sure of the ledger before a run. -/
inductive Event where
  | ensureLedger
deriving DecidableEq

def migrationRequests : Requests Database Request Answer Event where
  begins _ req := req.begins checksumOf
  step := step checksumOf
  happens db event := match event with
    | .ensureLedger => some { db with table := true }

def migrationRunner : System (Requests.State Database Request)
    (Requests.Label Request Answer Event) :=
  (migrationRequests checksumOf).system (· = Database.fresh)

end Requests

end Lares.Migrations
