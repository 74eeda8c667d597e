import Lares.Budget.Schema

/-! # Accounts under lock

    The parts of `PgBudgetAdmissionStore` that every operation shares: the row
    locks, the cap of an account, its liability in the active window, and
    whether it is ready for spending.
-/

namespace Lares.Budget

/-! ## Section 1: Locks and caps -/

structure Locked where
  installation : Account
  member : Account
  binding : Option Binding

/-- `locks`: the three rows, in lock order. -/
def locks (db : Database) (installationId memberId : Id) (bindingId : Option Id) :
    Except StoreError Locked :=
  let installation := (db.accounts.find? installationId).filter (·.kind = .installation)
  let member := (db.accounts.find? memberId).filter fun m =>
    m.kind = .member ∧ m.installationAccountId = installationId
  let binding := bindingId.bind db.bindings.find?
  match installation, member with
  | some installation, some member =>
      if bindingId.isSome && binding.isNone then .error (.thrown "Budget account unavailable")
      else .ok ⟨installation, member, binding⟩
  | _, _ => .error (.thrown "Budget account unavailable")

/-- `cap`: the installation's own column, or the member's policy row. -/
def cap (db : Database) (account : Account) : Option BudgetMoney :=
  match account.kind with
  | .installation => account.installationCap
  | .member => do
      let policy ← db.policies.find? (← account.liveMemberId)
      BudgetMoney.ofText (← policy.spendCapUsdMonth)

/-! ## Section 2: Liability -/

/-- `${scope}_account_id` -/
def Attempt.scopeAccount (scope : AccountKind) (a : Attempt) : Id :=
  match scope with
  | .installation => a.installationAccountId
  | .member => a.memberAccountId

/-- `${scope}_window_id` -/
def Attempt.scopeWindow (scope : AccountKind) (a : Attempt) : Id :=
  match scope with
  | .installation => a.installationWindowId
  | .member => a.memberWindowId

/-- The WHERE clause of the liability query. -/
def Attempt.counted (a : Attempt) (scope : AccountKind) (accountId windowId : Id) : Bool :=
  a.scopeAccount scope = accountId
    && (a.state = .conflict
        || (a.state ∈ [.admitted, .unknown, .settled] && a.scopeWindow scope = windowId))

/-- What one counted row adds. A settled row always has its actual amount
    (`AttemptRow.actualAmount_isSome`). -/
def Attempt.charge (a : Attempt) : Nat :=
  match a.state with
  | .admitted | .unknown => a.reservedAmount.units
  | .conflict =>
      max (max a.reservedAmount.units ((a.actualAmount.map (·.units)).getD 0))
        a.highestObservedLiability.units
  | .settled => (a.actualAmount.map (·.units)).getD 0
  | .prepared | .retired => 0

/-- The charge of a row in an account's active window. -/
def Attempt.liabilityIn (scope : AccountKind) (accountId windowId : Id) (a : Attempt) : Nat :=
  if a.counted scope accountId windowId then a.charge else 0

/-- The active window of an account, if the row is there and is the account's. -/
def activeWindow (db : Database) (account : Account) : Option Window := do
  let window ← db.windows.find? (← account.activeWindowId)
  if window.accountId = account.id then some window else none

/-- `liability`, as the number its decimal text denotes. -/
def liability (db : Database) (account : Account) : Option Nat := do
  let window ← activeWindow db account
  return window.openingLiability.units
    + db.attempts.total fun a => a.liabilityIn account.kind account.id window.id

/-- `ready` at the given clock reading. -/
def ready (db : Database) (account : Account) (now : Timestamp) : Bool :=
  account.state = .open
    && (activeWindow db account).any fun w => w.startsAt ≤ now && now < w.endsAt

end Lares.Budget
