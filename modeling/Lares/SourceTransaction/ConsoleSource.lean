import Lares.Framework.Program
import Lares.SourceTransaction.Connection

/-! # Private conversation transactions

    `consoleSourceTransaction`: one financial transaction on a checked-out
    connection, with the compensation that revokes retired bindings, and the
    outcome that is reported when everything is over.

    * The caller's work and hooks are scripts: any adaptive sequence of queries,
      retired bindings and retained deadlines that ends by returning or failing.
      Only the observer of a commit may send transaction commands of its own.
    * Everything outside the client is an `Environment`: how each statement is
      met, and each comparison with the clock. A call that hears nothing ends
      when its timeout expires or the connection is lost.
-/

namespace Lares.SourceTransaction

open Program

/-! ## Section 1: Data -/

abbrev Text := List Char

structure SourceBinding where
  agent : Text
  incarnation : Text
  sessionId : Text
  memberId : Text
  admissionNonce : Text
  deriving DecidableEq

inductive SourceTransactionOutcome where
  | notStarted | rollbackAcknowledged | sourceRetirementAcknowledged | sourceRetirementRolledBack
  | commitAcknowledged | commitNeverSent | unknown
  deriving DecidableEq, Repr

inductive BudgetFinancialTable where
  | budgetAccounts | budgetWindows | budgetGatewayBindings | budgetAttempts | budgetGatewayGrants
  deriving DecidableEq

structure BudgetFinancialChange where
  table : BudgetFinancialTable
  id : Text
  deriving DecidableEq

/-- What a call can throw. -/
inductive Failure where
  | refused                       -- `Error(REFUSED)`
  | denied                        -- `SourceAuthorityDenied`
  | unavailable                   -- `SourceAuthorityUnavailable`
  | deadlineExpired               -- `SourceTransactionDeadlineExpired`
  | query (timeout : Bool)        -- a statement failed; whether it ran into the query timeout
  | raised                        -- anything the caller's code throws
  deriving DecidableEq

/-- `Owner`: what the client is registered with while its transaction lives. -/
structure Owner where
  /-- The sources that are to be retired. -/
  retire : List SourceBinding
  /-- The deadlines of sources. -/
  deadlines : List (SourceBinding × Text)
  genericDeadlines : List Text
  /-- What was noted for the observer. -/
  changes : List BudgetFinancialChange
  /-- The caller has committed; only the observer goes on. -/
  observationPhase : Bool
  /-- The observer has opened its own. -/
  observerBegan : Bool
  /-- It has committed. -/
  observerCommit : Bool

/-- The variables that decide what is reported. -/
structure Progress where
  /-- What is reported. -/
  outcome : SourceTransactionOutcome
  /-- The transaction is open. -/
  originalOpen : Bool
  /-- So is the one that retires. -/
  compensationOpen : Bool
  /-- `COMMIT` has left. -/
  commitSent : Bool
  /-- The observer is at work. -/
  observation : Bool

/-- What others see of the call: the boundary's one use, the release and the reports. -/
structure Custody where
  used : Bool
  released : Option Bool
  settled : List (SourceTransactionOutcome × Bool)

structure Run where
  /-- The connection. -/
  wire : Wire
  /-- Where the environment is asked next. -/
  tick : Nat
  owner : Owner
  /-- The client thinks a transaction is open. -/
  txOpen : Bool
  /-- The client is given up. -/
  broken : Bool
  progress : Progress
  /-- Where the client is. -/
  custody : Custody

/-- Everything the client does not decide, by the number of decisions made before. -/
structure Environment where
  meets : Nat → Behaviour
  /-- a deadline has passed, a hook throws, a connection is not to be had -/
  strikes : Nat → Bool

abbrev Action := EStateM Failure Run

/-! ## Section 2: Statements -/

section
variable (env : Environment)

/-- The next yes-or-no decision of the environment. -/
def strikes : Action Bool := fun run =>
  .ok (env.strikes run.tick) { run with tick := run.tick + 1 }

/-- Fail if the environment says so. -/
def mayFail (failure : Failure) : Action Unit := do
  onlyIf (← strikes env) (throw failure)

/-- Send a statement on the connection; `rawQuery` and an unbounded `query`. -/
def send (statement : Statement) : Action (Command × Bool) := fun run =>
  let (wire, heard) := run.wire.send statement (env.meets run.tick)
  let run := { run with wire, tick := run.tick + 1 }
  match heard with
  | .answer command rows => .ok (command, rows) run
  | .error => .error (.query false) run
  | .nothing timeout => .error (.query timeout) run

/-- `boundedQueryTimeout`: no time is left for the query. -/
def boundedQueryTimeout : Action Unit := mayFail env .refused

def setTxOpen (value : Bool) : Action Unit := modify fun run => { run with txOpen := value }

def setBroken : Action Unit := modify fun run => { run with broken := true }

def isBegin : Statement → Bool
  | .begin _ => true
  | _ => false

/-- The statements that `installQueryBound` sends for one query, inside its `try`. -/
def boundedSteps (statement : Statement) : Action (Command × Bool) := do
  onlyIf ((← get).txOpen && statement ≠ .commit && statement ≠ .rollback) do
    boundedQueryTimeout env
    discard <| send env .query
  boundedQueryTimeout env
  let result ← send env statement
  onlyIf (isBegin statement) do
    setTxOpen true
    boundedQueryTimeout env
    discard <| send env .query
    boundedQueryTimeout env
    discard <| send env .query
  onlyIf (statement = .commit ∨ statement = .rollback) (setTxOpen false)
  onlyIf (statement ≠ .commit) (mayFail env .refused)
  return result

/-- `query` under `installQueryBound`: a query that timed out breaks the connection. -/
def boundedQuery (statement : Statement) : Action (Command × Bool) := do
  boundedQueryTimeout env
  try boundedSteps env statement
  catch failure =>
    onlyIf (failure = .query true) setBroken
    throw failure

/-- `db.query`; `deadline` says whether the call has a deadline. -/
def query (deadline : Bool) (statement : Statement) : Action (Command × Bool) :=
  if deadline then boundedQuery env statement else send env statement

/-! ## Section 3: The caller's code -/

/-- What the caller's code sends. -/
inductive Sql where
  | begin (readOnlySnapshot : Bool)
  | query
  | commit
  | rollback
  deriving DecidableEq

/-- A `BEGIN` of the caller's code opens a transaction of its own. -/
def Sql.statement : Sql → Statement
  | .begin _ => .begin .observer
  | .query => .query
  | .commit => .commit
  | .rollback => .rollback

/-- The caller's code: what it does next may depend on everything it heard. -/
inductive Script (α : Type) where
  /-- It returns. -/
  | done (value : α)
  /-- It throws. -/
  | fail
  /-- It sends a statement, and goes on with the answer. -/
  | query (sql : Sql) (next : Option (Command × Bool) → Script α)
  /-- `querySourceBounded` -/
  | bounded (sql : Sql) (next : Option (Command × Bool) → Script α)
  /-- `invalidateConsoleSource`; the code may catch what it throws. -/
  | retire (binding : SourceBinding) (next : Script α)
  | retainDeadline (binding : SourceBinding) (deadline : Text) (next : Script α)
  | retainGeneric (deadline : Text) (next : Script α)
  | note (change : BudgetFinancialChange) (next : Script α)

/-- Every statement the code can send is allowed. -/
def Script.Sends {α : Type} (allowed : Statement → Prop) : Script α → Prop
  | .done _ => True
  | .fail => True
  | .query sql next => allowed sql.statement ∧ ∀ heard, (next heard).Sends allowed
  | .bounded sql next => allowed sql.statement ∧ ∀ heard, (next heard).Sends allowed
  | .retire _ next => next.Sends allowed
  | .retainDeadline _ _ next => next.Sends allowed
  | .retainGeneric _ next => next.Sends allowed
  | .note _ next => next.Sends allowed

/-- Code that runs inside the financial transaction and leaves the transaction
    commands to the owner. -/
structure Work (α : Type) where
  script : Script α
  plain : script.Sends (· = .query)

def modifyOwner (f : Owner → Owner) : Action Unit := modify fun run =>
  { run with owner := f run.owner }

/-- Add to a list that stands for a set, in the order of insertion. -/
def insertNew {α : Type} [DecidableEq α] (items : List α) (a : α) : List α :=
  if a ∈ items then items else items ++ [a]

def Owner.addRetired (o : Owner) (binding : SourceBinding) : Owner :=
  { o with retire := insertNew o.retire binding }

/-- `querySourceBounded`, with what it checks during an observation. -/
def querySourceBounded (sql : Sql) : Action (Command × Bool) := do
  let owner := (← get).owner
  failIf (owner.observationPhase && sql = .begin false) .refused
  failIf (owner.observationPhase && sql = .commit && !owner.observerBegan) .refused
  mayFail env .refused
  let result ← send env sql.statement
  onlyIf (owner.observationPhase && isBegin sql.statement) do
    failIf (result.1 ≠ .BEGIN) .refused
    modifyOwner fun o => { o with observerBegan := true }
  onlyIf (owner.observationPhase && sql = .commit) do
    failIf (result.1 ≠ .COMMIT || (← get).owner.observerCommit) .refused
    modifyOwner fun o => { o with observerCommit := true }
  return result

/-- What the code hears of a call that may fail. -/
def heard {α : Type} (call : Action α) : Action (Option α) := return (← attempt call).toOption

def runScript {α : Type} (deadline : Bool) : Script α → Action α
  | .done value => pure value
  | .fail => throw .raised
  | .query sql next => do
      let answer ← heard (query env deadline sql.statement)
      runScript deadline (next answer)
  | .bounded sql next => do
      let answer ← heard (querySourceBounded env sql)
      runScript deadline (next answer)
  | .retire binding next => do
      modifyOwner (·.addRetired binding)
      runScript deadline next
  | .retainDeadline binding text next => do
      modifyOwner fun o => { o with deadlines := insertNew o.deadlines (binding, text) }
      runScript deadline next
  | .retainGeneric text next => do
      modifyOwner fun o => { o with genericDeadlines := insertNew o.genericDeadlines text }
      runScript deadline next
  | .note change next => do
      modifyOwner fun o => { o with changes := insertNew o.changes change }
      runScript deadline next

/-- `checkConsoleSourceDeadlines` -/
def checkConsoleSourceDeadlines (deadline : Bool) : Action Unit := do
  let owner := (← get).owner
  forM owner.deadlines fun (binding, _) => do
    let fresh ← query env deadline .query
    onlyIf (!fresh.2) do
      modifyOwner (·.addRetired binding)
      throw .denied
  forM owner.genericDeadlines fun _ => do
    let fresh ← query env deadline .query
    failIf (!fresh.2) .deadlineExpired
  onlyIf (!owner.deadlines.isEmpty || !owner.genericDeadlines.isEmpty) do
    let least ← query env deadline .query
    failIf (!least.2) .raised

/-- `BoundaryHooks`; `settled` only reports, so it has no script. -/
structure BoundaryHooks where
  /-- Once the transaction has begun. -/
  started : Option (Work Unit)
  /-- Before it ends. -/
  readyToCommit : Option (Work Unit)
  /-- With what was noted. -/
  beforeCommit : List BudgetFinancialChange → Work Unit
  /-- After the commit. -/
  afterCommitObservation : Option (Script Unit)

/-- `SourceTransactionOptions` -/
structure SourceTransactionOptions where
  deadline : Bool
  beforeCommit : Bool
  afterCommit : Bool

/-! ## Section 4: The transaction -/

def modifyProgress (f : Progress → Progress) : Action Unit := modify fun run =>
  { run with progress := f run.progress }

/-- What has a `catch` of its own: the outcome is unknown and the connection broken. -/
def loseOutcome : Action Unit := do
  setBroken
  modifyProgress fun p => { p with outcome := .unknown }

/-- `rollback` -/
def rollback : Action Unit := do
  try
    let result ← send env .rollback
    failIf (result.1 ≠ .ROLLBACK) .refused
    setTxOpen false
    modifyProgress fun p => { p with originalOpen := false, outcome := .rollbackAcknowledged }
  catch _ =>
    loseOutcome
    throw .unavailable

variable {α : Type} (options : SourceTransactionOptions) (hooks : Option BoundaryHooks)
  (work : Work α)

/-- The hooks between the work and the commit. -/
def runHooks (hooks : BoundaryHooks) : Action Unit := do
  runScript env options.deadline (hooks.beforeCommit (← get).owner.changes).script
  checkConsoleSourceDeadlines env options.deadline
  forM hooks.readyToCommit fun ready => runScript env options.deadline ready.script
  checkConsoleSourceDeadlines env options.deadline

/-- The caller's work and the checks before a commit. -/
def perform : Action α := do
  forM (hooks.bind (·.started)) fun started => runScript env options.deadline started.script
  let result ← runScript env options.deadline work.script
  checkConsoleSourceDeadlines env options.deadline
  forM hooks fun hooks => do
    onlyIf (← get).owner.retire.isEmpty (runHooks env options hooks)
  onlyIf ((← get).owner.retire.isEmpty && options.beforeCommit) (mayFail env .raised)
  return result

/-- The statements of the compensation before its `COMMIT`. -/
def beginCompensation : Action Unit := do
  modifyProgress fun p => { p with outcome := .unknown }
  let result ← send env (.begin .compensation)
  failIf (result.1 ≠ .BEGIN) .unavailable
  modifyProgress fun p => { p with compensationOpen := true }
  onlyIf options.deadline do
    discard <| send env .query
    discard <| send env .query
  forM (← get).owner.retire fun _ => discard <| send env .query

/-- What follows a compensation that could not be completed. -/
def rollbackCompensation : Action Unit := do
  if (← get).progress.compensationOpen then
    try
      let result ← send env .rollback
      failIf (result.1 ≠ .ROLLBACK) .refused
      modifyProgress fun p =>
        { p with compensationOpen := false, outcome := .sourceRetirementRolledBack }
    catch _ => loseOutcome
  else loseOutcome

/-- Only exact revoke-only updates survive a retired binding. -/
def retireSources : Action α := do
  rollback env
  try beginCompensation env options
  catch _ =>
    rollbackCompensation env
    throw .unavailable
  try
    let result ← send env .commit
    failIf (result.1 ≠ .COMMIT) .unavailable
    modifyProgress fun p =>
      { p with compensationOpen := false, outcome := .sourceRetirementAcknowledged }
  catch _ =>
    loseOutcome
    throw .unavailable
  throw .denied

/-- Send the financial `COMMIT`. -/
def commit : Action Unit := do
  modifyProgress fun p => { p with commitSent := true }
  try
    let result ← query env options.deadline .commit
    failIf (result.1 ≠ .COMMIT) .unavailable
    modifyProgress fun p => { p with originalOpen := false, outcome := .commitAcknowledged }
  catch _ =>
    loseOutcome
    throw .unavailable

/-- The observation after an acknowledged commit. -/
def observe (observer : Script Unit) : Action Unit := do
  try
    modifyOwner fun o =>
      { o with observationPhase := true, observerBegan := false, observerCommit := false }
    runScript env options.deadline observer
    modifyProgress fun p => { p with observation := true }
    failIf (!(← get).owner.observerCommit) .refused
  catch failure =>
    setBroken
    modifyOwner fun o => { o with observationPhase := false }
    throw failure
  modifyOwner fun o => { o with observationPhase := false }
  onlyIf options.deadline do
    onlyIf (← strikes env) do
      modifyProgress fun p => { p with observation := false }
      throw .refused

/-- What follows work that was done: the commit, and what is checked after it. -/
def complete (result : α) : Action α := do
  commit env options
  onlyIf options.afterCommit (mayFail env .raised)
  onlyIf options.deadline (mayFail env .refused)
  forM (hooks.bind (·.afterCommitObservation)) (observe env options)
  return result

/-- The body of the outer `try`, from the connection on. -/
def transact : Action α := do
  modifyProgress fun p => { p with outcome := .unknown }
  let began ← query env options.deadline (.begin .financial)
  failIf (began.1 ≠ .BEGIN) .unavailable
  modifyProgress fun p => { p with originalOpen := true }
  let result ← attempt (perform env options hooks work)
  if !(← get).owner.retire.isEmpty then retireSources env options
  else match result with
    | .error failure => do
        rollback env
        throw failure
    | .ok result => complete env options hooks result

/-- The `catch` of the outer `try`: cleanup never makes an unknown outcome known. -/
def cleanUp : Action Unit := do
  let progress := (← get).progress
  onlyIf (progress.originalOpen || progress.compensationOpen || progress.outcome = .unknown) do
    try
      let result ← send env .rollback
      onlyIf (result.1 ≠ .ROLLBACK) setBroken
    catch _ => setBroken
    onlyIf (progress.outcome = .unknown) setBroken

def release : Action Unit := modify fun run =>
  { run with custody := { run.custody with released := some run.broken } }

/-- What is reported to `settled`. -/
def Progress.reported (p : Progress) : SourceTransactionOutcome :=
  if p.outcome = .unknown && !p.commitSent then .commitNeverSent else p.outcome

/-- `settled`, which may throw. -/
def settle : Action Unit := do
  modify fun run => { run with custody := { run.custody with
    settled := run.custody.settled ++ [(run.progress.reported, run.progress.observation)] } }
  mayFail env .unavailable

/-- The variables of a call that has just been accepted. -/
def begun (run : Run) : Run :=
  { run with
    owner := ⟨[], [], [], [], false, false, false⟩
    txOpen := false
    broken := false
    progress := ⟨.notStarted, false, false, false, false⟩
    custody := { run.custody with used := run.custody.used || hooks.isSome } }

/-- The client of a pool; `connect` may fail. -/
def connected : Action α := do
  mayFail env .refused
  let result ← attempt do
    try transact env options hooks work
    catch failure =>
      cleanUp env
      throw failure
  release
  resume result

/-- `consoleSourceTransaction` on a pool. The other use, on a client that is already
    owned, only runs the work (`runScript`) and takes no boundary. -/
def consoleSourceTransaction : Action α := do
  onlyIf options.deadline (mayFail env .refused)
  failIf (hooks.isSome && (← get).custody.used) .refused
  modify (begun hooks)
  let result ← attempt (connected env options hooks work)
  onlyIf hooks.isSome (settle env)
  resume result

end

end Lares.SourceTransaction
