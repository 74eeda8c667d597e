import Lares.Budget.Runs

/-! # The spending cap

    An account never owes more than its cap, over any order of store calls by
    any number of callers and any changes made elsewhere that keep the cap and
    the active window of the account.

    * **Exposure**: what the attempts add to the opening liability of an account.
      `exposure_effect` says how one call moves it.
    * **The invariant**: `Covered` holds unless an attempt of the account is in
      conflict, and a conflict stays one.
-/

namespace Lares.Budget

/-! ## Section 1: The quantities of one account -/

/-- The cap of the account with this id. -/
def capOf (db : Database) (id : Id) : Option BudgetMoney :=
  (db.accounts.find? id).bind (cap db)

/-- The active window of the account with this id. -/
def windowOf (db : Database) (id : Id) : Option Window :=
  (db.accounts.find? id).bind (activeWindow db)

/-- The liability of the account with this id. -/
def liabilityOf (db : Database) (id : Id) : Option Nat :=
  (db.accounts.find? id).bind (liability db)

/-- What the attempts add to the opening liability of an account in a window. -/
def exposure (db : Database) (kind : AccountKind) (id windowId : Id) : Nat :=
  db.attempts.total fun a => a.liabilityIn kind id windowId

/-- An attempt of the account is in conflict. -/
def Conflicted (db : Database) (kind : AccountKind) (id : Id) : Prop :=
  ∃ a ∈ db.attempts, a.state = .conflict ∧ a.scopeAccount kind = id

theorem liability_eq {db : Database} {account : Account} {w : Window}
    (h : activeWindow db account = some w) :
    liability db account =
      some (w.openingLiability.units + exposure db account.kind account.id w.id) := by
  simp [liability, h, exposure]

theorem liability_some {db : Database} {account : Account} {n : Nat}
    (h : liability db account = some n) :
    ∃ w, activeWindow db account = some w ∧
      n = w.openingLiability.units + exposure db account.kind account.id w.id := by
  cases hw : activeWindow db account with
  | none => simp [liability, hw] at h
  | some w =>
    rw [liability_eq hw] at h
    cases h
    exact ⟨w, rfl, rfl⟩

theorem liabilityOf_some {db : Database} {id : Id} {n : Nat} (h : liabilityOf db id = some n) :
    ∃ account w, db.accounts.find? id = some account ∧ activeWindow db account = some w ∧
      n = w.openingLiability.units + exposure db account.kind id w.id := by
  obtain ⟨account, hf, hl⟩ := Option.bind_eq_some_iff.1 h
  obtain ⟨w, hw, hn⟩ := liability_some hl
  have hid := Table.find?_key hf
  rw [hid] at hn
  exact ⟨account, w, hf, hw, hn⟩

theorem liabilityOf_eq {db : Database} {id : Id} {account : Account} {w : Window}
    (hf : db.accounts.find? id = some account) (hw : activeWindow db account = some w) :
    liabilityOf db id = some (w.openingLiability.units + exposure db account.kind id w.id) := by
  have hid := Table.find?_key hf
  rw [liabilityOf, hf, Option.bind_some, liability_eq hw, hid]

theorem windowOf_some {db : Database} {id : Id} {w : Window} (h : windowOf db id = some w) :
    ∃ account, db.accounts.find? id = some account ∧ activeWindow db account = some w :=
  Option.bind_eq_some_iff.1 h

/-! ## Section 2: The charge of one attempt -/

/-- An attempt that is prepared or retired charges nobody. -/
theorem liabilityIn_inactive {a : Attempt} (h : a.state = .prepared ∨ a.state = .retired)
    (kind : AccountKind) (id wid : Id) : a.liabilityIn kind id wid = 0 := by
  rcases h with h | h <;> simp [Attempt.liabilityIn, Attempt.charge, h]

/-- An attempt charges only the accounts it belongs to. -/
theorem liabilityIn_other {a : Attempt} {kind : AccountKind} {id : Id}
    (h : a.scopeAccount kind ≠ id) (wid : Id) : a.liabilityIn kind id wid = 0 := by
  simp [Attempt.liabilityIn, Attempt.counted, h]

/-- An admitted or unknown attempt charges its reservation, in its own window only. -/
theorem liabilityIn_reserved {a : Attempt} (h : a.state = .admitted ∨ a.state = .unknown)
    (kind : AccountKind) (id wid : Id) :
    a.liabilityIn kind id wid =
      if a.scopeAccount kind = id ∧ a.scopeWindow kind = wid then a.reservedAmount.units
      else 0 := by
  rcases h with h | h <;> simp [Attempt.liabilityIn, Attempt.counted, Attempt.charge, h]

/-- A settled attempt charges its actual amount, in its own window only. -/
theorem liabilityIn_final {a : Attempt} (h : a.state = .settled) (kind : AccountKind)
    (id wid : Id) :
    a.liabilityIn kind id wid =
      if a.scopeAccount kind = id ∧ a.scopeWindow kind = wid then
        (a.actualAmount.map (·.units)).getD 0
      else 0 := by
  simp [Attempt.liabilityIn, Attempt.counted, Attempt.charge, h]

/-- Only the state, the amounts and the immutable columns matter. -/
theorem liabilityIn_congr {a b : Attempt} (hs : b.state = a.state)
    (hi : b.installationAccountId = a.installationAccountId)
    (hm : b.memberAccountId = a.memberAccountId)
    (hiw : b.installationWindowId = a.installationWindowId)
    (hmw : b.memberWindowId = a.memberWindowId) (hr : b.reservedAmount = a.reservedAmount)
    (ha : b.actualAmount = a.actualAmount)
    (hh : b.highestObservedLiability = a.highestObservedLiability)
    (kind : AccountKind) (id wid : Id) :
    b.liabilityIn kind id wid = a.liabilityIn kind id wid := by
  have hcharge : b.charge = a.charge := by simp only [Attempt.charge, hs, hr, ha, hh]
  have hscope : b.scopeAccount kind = a.scopeAccount kind := by
    cases kind <;> assumption
  have hwindow : b.scopeWindow kind = a.scopeWindow kind := by
    cases kind <;> assumption
  have hcounted : b.counted kind id wid = a.counted kind id wid := by
    simp only [Attempt.counted, hs, hscope, hwindow]
  rw [Attempt.liabilityIn, Attempt.liabilityIn, hcharge, hcounted]

/-- A receipt within the reservation lowers the charge, or leaves it. -/
theorem liabilityIn_settled {receipt : BudgetTerminalReceipt} {actual : BudgetMoney}
    {a : AttemptRow} (hm : receiptMatches receipt a.toAttempt = true)
    (hs : (settledRow receipt actual a.toAttempt).state = .settled)
    (kind : AccountKind) (id wid : Id) :
    (settledRow receipt actual a.toAttempt).liabilityIn kind id wid ≤
      a.liabilityIn kind id wid := by
  obtain ⟨hopen, -, -, hle, hrow⟩ := settledRow_settled hm hs
  rw [hrow, liabilityIn_final rfl, liabilityIn_reserved hopen]
  have hscope : ∀ b : Attempt, b = settledRow receipt actual a.toAttempt →
      b.scopeAccount kind = a.scopeAccount kind ∧ b.scopeWindow kind = a.scopeWindow kind := by
    rintro b rfl
    cases kind <;> exact ⟨rfl, rfl⟩
  rw [(hscope _ hrow.symm).1, (hscope _ hrow.symm).2]
  split
  · exact hle
  · exact le_refl _

/-! ## Section 3: How a step moves the exposure -/

theorem exposure_updates {db db' : Database} {old new : AttemptRow} (h : Updates db db' old new)
    (kind : AccountKind) (id wid : Id) :
    exposure db' kind id wid + old.liabilityIn kind id wid =
      exposure db kind id wid + new.liabilityIn kind id wid := by
  rw [h.result]
  exact Table.total_put h.found _

theorem exposure_freezes {db db' : Database} {installationId : Id}
    (h : Freezes db db' installationId) (kind : AccountKind) (id wid : Id) :
    exposure db' kind id wid = exposure db kind id wid := by
  rcases h with ⟨rfl, -⟩ | ⟨account, frozen, -, -, -, rfl⟩ <;> rfl

/-- A call raises the exposure of an account by a successful admission or a
    conflicting receipt, and by nothing else. -/
theorem exposure_effect {db db' : Database} {answer : Answer} (h : Effect db db' answer)
    (hadmitted : ∀ body, answer ≠ .admission (.admitted body))
    (hconflict : answer ≠ .verdict .conflict) (kind : AccountKind) (id wid : Id) :
    exposure db' kind id wid ≤ exposure db kind id wid := by
  cases h with
  | nothing => exact le_refl _
  | prepares hp =>
    obtain ⟨attempts, hins, rfl⟩ := hp.inserted
    have hzero := liabilityIn_inactive (.inl hp.state) kind id wid
    have htotal := Table.total_insert? hins fun a => a.liabilityIn kind id wid
    simp only [exposure]
    omega
  | retires hr =>
    obtain ⟨hp, row, hrow, hup⟩ := hr
    have hold := liabilityIn_inactive (.inl hp) kind id wid
    have hnew := liabilityIn_inactive (a := row.toAttempt) (.inr (by rw [hrow])) kind id wid
    have htotal := exposure_updates hup kind id wid
    omega
  | admits => exact absurd rfl (hadmitted _)
  | @marksUnknown _ a hm =>
    obtain ⟨ha, row, hrow, hup⟩ := hm
    have htotal := exposure_updates hup kind id wid
    have hsame : row.liabilityIn kind id wid = a.liabilityIn kind id wid := by
      rw [liabilityIn_reserved (.inl ha), hrow, liabilityIn_reserved (.inr rfl)]
      cases kind <;> rfl
    omega
  | @settles _ receipt actual a row hs hst =>
    have htotal := exposure_updates hs.updates kind id wid
    rw [hs.row_eq] at htotal hst
    have hle := liabilityIn_settled hs.matches_ hst kind id wid
    omega
  | conflicts => exact absurd rfl hconflict
  | grants hg =>
    obtain ⟨a, grants, -, -, -, rfl⟩ := hg
    exact le_refl _

theorem reconfigured_same {old new : AttemptRow} (h : attemptReconfigured old new = true) :
    (∀ kind, new.scopeAccount kind = old.scopeAccount kind) ∧
      (∀ kind id wid, new.liabilityIn kind id wid = old.liabilityIn kind id wid) ∧
      (old.state = .conflict → new.state = .conflict) := by
  simp only [attemptReconfigured, Bool.and_eq_true, Bool.or_eq_true, decide_eq_true_eq] at h
  obtain ⟨⟨hnew, -⟩, hstate⟩ := h
  have hscope : ∀ kind, new.scopeAccount kind = old.scopeAccount kind := by
    intro kind
    rw [hnew]
    cases kind <;> rfl
  refine ⟨hscope, fun kind id wid => ?_, fun hc => ?_⟩
  · rcases hstate with hs | ⟨hp, hr⟩
    · refine liabilityIn_congr hs ?_ ?_ ?_ ?_ ?_ ?_ ?_ kind id wid <;> rw [hnew]
    · rw [liabilityIn_inactive (.inl hp), liabilityIn_inactive (.inr hr)]
  · rcases hstate with hs | ⟨hp, -⟩
    · rw [hs, hc]
    · rw [hc] at hp
      cases hp

theorem exposure_reconfigures {db db' : Database} (h : Reconfigures db db')
    (kind : AccountKind) (id wid : Id) :
    exposure db' kind id wid = exposure db kind id wid := by
  have hmap : ∀ {xs ys : List AttemptRow},
      List.Forall₂ (fun old new => attemptReconfigured old new = true) xs ys →
        ys.map (fun a => a.liabilityIn kind id wid) =
          xs.map fun a => a.liabilityIn kind id wid := by
    intro xs ys hall
    induction hall with
    | nil => rfl
    | cons hx _ ih => rw [List.map_cons, List.map_cons, ih, (reconfigured_same hx).2.1]
  simp only [exposure, Table.total]
  rw [hmap h.attempts]

/-! ## Section 4: What every step keeps -/

/-- The kind of the account with this id. -/
def kindOf (db : Database) (id : Id) : Option AccountKind :=
  (db.accounts.find? id).map (·.kind)

theorem conflicted_updates {db db' : Database} {old new : AttemptRow}
    (h : Updates db db' old new) {kind : AccountKind} {id : Id}
    (hc : Conflicted db kind id) : Conflicted db' kind id := by
  obtain ⟨a, ha, hstate, hscope⟩ := hc
  rw [h.result]
  by_cases hid : a.id = new.id
  · -- the trigger lets a conflict be updated to a conflict only
    have hold : old = a := by
      have := Table.find?_of_mem ha
      rw [hid, h.found] at this
      cases this
      rfl
    subst hold
    obtain ⟨hkept, -, -, -, htr, -⟩ := budgetImmutable_none h.allowed
    obtain ⟨-, -, hi, hm, -⟩ := immutableColumnsKept_fields hkept
    refine ⟨new, Table.mem_put.2 (.inr ⟨rfl, old, ha, hid⟩), ?_, ?_⟩
    · simpa [hstate, transitionAllowed] using htr
    · cases kind <;> simp only [Attempt.scopeAccount] at hscope ⊢
      · rw [hi, hscope]
      · rw [hm, hscope]
  · exact ⟨a, Table.mem_put.2 (.inl ⟨ha, hid⟩), hstate, hscope⟩

theorem kindOf_updates {db db' : Database} {old new : AttemptRow} (h : Updates db db' old new)
    (id : Id) : kindOf db' id = kindOf db id := by
  rw [h.result]
  rfl

theorem kindOf_freezes {db db' : Database} {installationId : Id}
    (h : Freezes db db' installationId) (id : Id) : kindOf db' id = kindOf db id := by
  rcases h with ⟨rfl, -⟩ | ⟨account, frozen, hf, -, hfrozen, rfl⟩
  · rfl
  · have hsame : frozen.id = account.id := by rw [hfrozen]
    have hid := hsame.trans (Table.find?_key hf)
    simp only [kindOf, Table.find?_put]
    split
    · next heq =>
      rw [heq, hid, hf, Option.map_some, Option.map_some, Option.map_some, hfrozen]
    · rfl

theorem conflicted_freezes {db db' : Database} {installationId : Id}
    (h : Freezes db db' installationId) {kind : AccountKind} {id : Id}
    (hc : Conflicted db kind id) : Conflicted db' kind id := by
  rcases h with ⟨rfl, -⟩ | ⟨account, frozen, -, -, -, rfl⟩
  · exact hc
  · exact hc

/-- Every step keeps the kinds of accounts and the conflicts there are. -/
theorem budgetNext_keeps {D : Digests} {db db' : Database} {step : BudgetStep}
    (h : (budgetSystem D).next db step = some db') (id : Id) :
    (∀ kind, kindOf db id = some kind → kindOf db' id = some kind) ∧
      ∀ kind, Conflicted db kind id → Conflicted db' kind id := by
  rcases budgetNext_cases h with ⟨answer, he⟩ | hr
  · cases he with
    | nothing => exact ⟨fun _ hk => hk, fun _ hc => hc⟩
    | prepares hp =>
      obtain ⟨attempts, hins, rfl⟩ := hp.inserted
      refine ⟨fun _ hk => hk, fun kind hc => ?_⟩
      obtain ⟨a, ha, hs⟩ := hc
      exact ⟨a, (Table.mem_insert? hins).2 (.inl ha), hs⟩
    | retires hr =>
      obtain ⟨-, row, -, hup⟩ := hr
      exact ⟨fun _ hk => kindOf_updates hup id ▸ hk, fun _ => conflicted_updates hup⟩
    | admits ha =>
      obtain ⟨row, _, -, hup⟩ := ha.updates
      exact ⟨fun _ hk => kindOf_updates hup id ▸ hk, fun _ => conflicted_updates hup⟩
    | marksUnknown hm =>
      obtain ⟨-, row, -, hup⟩ := hm
      exact ⟨fun _ hk => kindOf_updates hup id ▸ hk, fun _ => conflicted_updates hup⟩
    | settles hs =>
      exact ⟨fun _ hk => kindOf_updates hs.updates id ▸ hk, fun _ => conflicted_updates hs.updates⟩
    | conflicts hs _ hf =>
      refine ⟨fun kind hk => ?_, fun _ hc => conflicted_freezes hf (conflicted_updates hs.updates hc)⟩
      rw [kindOf_freezes hf, kindOf_updates hs.updates, hk]
    | grants hg =>
      obtain ⟨a, grants, -, -, -, rfl⟩ := hg
      exact ⟨fun _ hk => hk, fun _ hc => hc⟩
  · constructor
    · intro kind hk
      obtain ⟨account, hf, hkind⟩ := Option.map_eq_some_iff.1 hk
      have hany := hr.accounts account (Table.find?_mem hf)
      rw [Table.find?_key hf] at hany
      obtain ⟨new, hnew, hsame⟩ := (Option.any_eq_true _ _).1 hany
      simp only [accountReconfigured, Bool.and_eq_true, decide_eq_true_eq] at hsame
      rw [kindOf, hnew, Option.map_some, hsame.1, hkind]
    · rintro kind ⟨a, ha, hstate, hscope⟩
      obtain ⟨b, hb, hab⟩ := forall₂_exists hr.attempts ha
      obtain ⟨hsc, -, hcf⟩ := reconfigured_same hab
      exact ⟨b, hb, hcf hstate, by rw [hsc, hscope]⟩

/-! ## Section 5: The invariant -/

/-- An attempt of the account is in conflict, or the account owes at most its cap. -/
def Covered (db : Database) (kind : AccountKind) (id : Id) (w : Window) (c : BudgetMoney) : Prop :=
  Conflicted db kind id ∨ w.openingLiability.units + exposure db kind id w.id ≤ c.units

/-- An admission under the caps keeps both accounts of the attempt covered. -/
theorem covered_admits {db db' : Database} {a : AttemptRow} {kind : AccountKind} {id : Id}
    {w : Window} {c : BudgetMoney} (h : Admits db db' a) (hcap : capOf db id = some c)
    (hwindow : windowOf db id = some w)
    (hcov : w.openingLiability.units + exposure db kind id w.id ≤ c.units) :
    w.openingLiability.units + exposure db' kind id w.id ≤ c.units := by
  obtain ⟨row, at', hrow, hup⟩ := h.updates
  have hmove := exposure_updates hup kind id w.id
  rw [liabilityIn_inactive (.inl h.wasPrepared), hrow, liabilityIn_reserved (.inl rfl)] at hmove
  simp only at hmove
  split at hmove
  · next hscope =>
    obtain ⟨hid, hwid⟩ := hscope
    obtain ⟨account, c', n, hf, hkind, -, hc', hn, hfits⟩ := h.fits kind
    rw [show a.scopeAccount kind = id from hid] at hf
    -- the account that `admit` checked is the one whose cap and window are fixed
    have hcc : c' = c := by
      rw [capOf, hf, Option.bind_some, hc'] at hcap
      exact Option.some.inj hcap
    subst hcc
    have hww : activeWindow db account = some w := by
      rw [windowOf, hf, Option.bind_some] at hwindow
      exact hwindow
    have hnn : n = w.openingLiability.units + exposure db kind id w.id := by
      have hacc := Table.find?_key hf
      rw [liability_eq hww, hkind, hacc] at hn
      exact (Option.some.inj hn).symm
    omega
  · omega

/-- A conflicting receipt puts the account's attempt in conflict, or is about
    other accounts. -/
theorem covered_conflicts {db db₁ db' : Database} {receipt : BudgetTerminalReceipt}
    {actual : BudgetMoney} {a row : AttemptRow} {kind : AccountKind} {id : Id} {w : Window}
    {c : BudgetMoney} (hs : Settles db db₁ receipt actual a row) (hc : row.state = .conflict)
    (hf : Freezes db₁ db' a.installationAccountId) (hcov : Covered db kind id w c) :
    Covered db' kind id w c := by
  obtain ⟨hkept, -⟩ := budgetImmutable_none hs.updates.allowed
  obtain ⟨hid, -, hi, hm, -⟩ := immutableColumnsKept_fields hkept
  have hsame : row.scopeAccount kind = a.scopeAccount kind := by
    cases kind <;> assumption
  by_cases hscope : a.scopeAccount kind = id
  · refine .inl (conflicted_freezes hf ?_)
    rw [hs.updates.result]
    exact ⟨row, Table.mem_put.2 (.inr ⟨rfl, a, Table.find?_mem hs.updates.found, hid.symm⟩),
      hc, hsame.trans hscope⟩
  · rcases hcov with hconf | hle
    · exact .inl (conflicted_freezes hf (conflicted_updates hs.updates hconf))
    · right
      have hmove := exposure_updates hs.updates kind id w.id
      rw [liabilityIn_other hscope, liabilityIn_other (hsame ▸ hscope)] at hmove
      rw [exposure_freezes hf]
      omega

/-- One step keeps an account covered while its cap and window are fixed. -/
theorem covered_step {D : Digests} {db db' : Database} {step : BudgetStep}
    {kind : AccountKind} {id : Id} {w : Window} {c : BudgetMoney}
    (h : (budgetSystem D).next db step = some db') (hcap : capOf db id = some c)
    (hwindow : windowOf db id = some w) (hcov : Covered db kind id w c) :
    Covered db' kind id w c := by
  have hkeep := (budgetNext_keeps h id).2 kind
  rcases hcov with hconf | hle
  · exact .inl (hkeep hconf)
  rcases budgetNext_cases h with ⟨answer, he⟩ | hr
  · by_cases hadmitted : ∃ body, answer = .admission (.admitted body)
    · obtain ⟨body, rfl⟩ := hadmitted
      cases he with
      | nothing hno => exact absurd rfl (hno body)
      | retires _ hno => exact absurd rfl (hno body)
      | admits ha => exact .inr (covered_admits ha hcap hwindow hle)
    · by_cases hconflict : answer = .verdict .conflict
      · subst hconflict
        cases he with
        | nothing => exact .inr hle
        | conflicts hs hc hf => exact covered_conflicts hs hc hf (.inr hle)
      · right
        have := exposure_effect he (fun body hb => hadmitted ⟨body, hb⟩) hconflict kind id w.id
        omega
  · right
    rw [exposure_reconfigures hr]
    exact hle

/-! ## Section 6: Whole runs -/

/-- **Run lemma**: from any state in which the account owes at most its cap, while
    its cap and active window stay as they are. -/
theorem covered_run {D : Digests} {s t : Database} {steps : List BudgetStep}
    {kind : AccountKind} {id : Id} {w : Window} {c : BudgetMoney}
    (hrun : (budgetSystem D).run s steps = some t) (hkind : kindOf s id = some kind)
    (hcap : ∀ u, (budgetSystem D).Visits s steps u → capOf u id = some c)
    (hwindow : ∀ u, (budgetSystem D).Visits s steps u → windowOf u id = some w)
    (hstart : Covered s kind id w c) :
    kindOf t id = some kind ∧ Covered t kind id w c := by
  have hinv : ∀ {steps t}, (budgetSystem D).run s steps = some t →
      (∀ u, (budgetSystem D).Visits s steps u → capOf u id = some c ∧ windowOf u id = some w) →
      kindOf t id = some kind ∧ Covered t kind id w c := by
    intro steps t hrun
    refine (budgetSystem D).run_induction (motive := fun steps t =>
      (∀ u, (budgetSystem D).Visits s steps u → capOf u id = some c ∧ windowOf u id = some w) →
        kindOf t id = some kind ∧ Covered t kind id w c) ?_ ?_ hrun
    · exact fun _ => ⟨hkind, hstart⟩
    · intro steps t step u hrun ih hnext hfix
      have hpre : steps <+: steps ++ [step] := List.prefix_append _ _
      obtain ⟨hk, hcov⟩ := ih fun v hv => hfix v ((budgetSystem D).visits_mono hpre hv)
      obtain ⟨hct, hwt⟩ := hfix t ((budgetSystem D).visits_mono hpre
        ((budgetSystem D).visits_end hrun))
      exact ⟨(budgetNext_keeps hnext id).1 kind hk, covered_step hnext hct hwt hcov⟩
  exact hinv hrun fun u hu => ⟨hcap u hu, hwindow u hu⟩

/-- A call that neither admits nor ends in a conflict does not raise the
    liability of any account. -/
theorem liabilityOf_effect {db db' : Database} {answer : Answer} (h : Effect db db' answer)
    (hadmitted : ∀ body, answer ≠ .admission (.admitted body))
    (hconflict : answer ≠ .verdict .conflict) {id : Id} {n : Nat}
    (hn : liabilityOf db id = some n) :
    ∃ n', liabilityOf db' id = some n' ∧ n' ≤ n := by
  obtain ⟨account, w, hf, hw, rfl⟩ := liabilityOf_some hn
  have hle := exposure_effect h hadmitted hconflict account.kind id w.id
  -- no such call touches an account or a window
  have hsame : db'.accounts = db.accounts ∧ db'.windows = db.windows := by
    cases h with
    | nothing => exact ⟨rfl, rfl⟩
    | prepares hp =>
      obtain ⟨attempts, -, rfl⟩ := hp.inserted
      exact ⟨rfl, rfl⟩
    | retires hr =>
      obtain ⟨-, row, -, hup⟩ := hr
      simp [hup.result]
    | admits => exact absurd rfl (hadmitted _)
    | marksUnknown hm =>
      obtain ⟨-, row, -, hup⟩ := hm
      simp [hup.result]
    | settles hs => simp [hs.updates.result]
    | conflicts => exact absurd rfl hconflict
    | grants hg =>
      obtain ⟨a, grants, -, -, -, rfl⟩ := hg
      exact ⟨rfl, rfl⟩
  obtain ⟨ha, hwin⟩ := hsame
  have hw' : activeWindow db' account = some w := by
    rw [activeWindow, hwin]
    exact hw
  refine ⟨_, liabilityOf_eq (ha ▸ hf) hw', ?_⟩
  omega

/-- **Spending cap safety.** An account whose cap and active window have stayed
    the same since the first step, whose opening liability was within its cap and
    none of whose attempts is in conflict owes at most its cap; and from every
    reachable state only an admission or a conflicting receipt raises what an
    account owes. -/
theorem spendingCap_safety (D : Digests) :
    (∀ (s t : Database) (steps : List BudgetStep) (kind : AccountKind) (id : Id) (w : Window)
        (c : BudgetMoney),
      (budgetSystem D).init s → (budgetSystem D).run s steps = some t →
      kindOf s id = some kind →
      (∀ u, (budgetSystem D).Visits s steps u → capOf u id = some c) →
      (∀ u, (budgetSystem D).Visits s steps u → windowOf u id = some w) →
      w.openingLiability.units ≤ c.units →
      (∀ a ∈ t.attempts, a.scopeAccount kind = id → a.state ≠ .conflict) →
      ∃ n, liabilityOf t id = some n ∧ n ≤ c.units) ∧
    (∀ (db : Database) (call : BudgetCall) (id : Id) (n : Nat),
      (budgetSystem D).Reachable db → liabilityOf db id = some n →
      (∀ body, (perform D call db).2 ≠ .admission (.admitted body)) →
      (perform D call db).2 ≠ .verdict .conflict →
      ∃ n', liabilityOf (perform D call db).1 id = some n' ∧ n' ≤ n) := by
  constructor
  · intro s t steps kind id w c hinit hrun hkind hcap hwindow hopening hnone
    -- A run starts without attempts, so nothing is exposed and the cap covers the rest.
    have hzero : exposure s kind id w.id = 0 := by
      rw [exposure, hinit.1]
      rfl
    obtain ⟨hk, hcov⟩ := covered_run hrun hkind hcap hwindow (.inr (by omega))
    -- It stays covered unless some attempt of the account is in conflict, and none is.
    have hle := hcov.resolve_left fun ⟨a, ha, hstate, hscope⟩ => hnone a ha hscope hstate
    obtain ⟨account, hf, hw⟩ := windowOf_some (hwindow t ((budgetSystem D).visits_end hrun))
    have hak : account.kind = kind := by
      rw [kindOf, hf] at hk
      exact Option.some.inj hk
    exact ⟨_, liabilityOf_eq hf hw, hak ▸ hle⟩
  · intro db call id n _ hn hadmitted hconflict
    -- Only an admission or a conflict adds to what is owed.
    exact liabilityOf_effect (perform_effect D call db) hadmitted hconflict hn

/-- A member with a cap of 4 and an opening liability of 1 is admitted once for 2,
    and the call's outcome is then lost. -/
theorem spendingCap_safety_sample :
    ∃ t, (budgetSystem sampleDigests).run sampleDatabase
        [.call (samplePrepare 0 'a' '7'), .call (sampleAdmit 'a')] = some t ∧
      (∃ n, liabilityOf t (sampleId '2') = some n ∧ n ≤ 4 * SCALE) ∧
      ∃ n', liabilityOf (perform sampleDigests (.markUnknown (sampleId '7')) t).1
        (sampleId '2') = some n' ∧ n' ≤ 3 * SCALE := by
  have hvisits : ∀ u, (budgetSystem sampleDigests).Visits sampleDatabase
      [.call (samplePrepare 0 'a' '7'), .call (sampleAdmit 'a')] u →
      capOf u (sampleId '2') = some ⟨4 * SCALE, by decide⟩ ∧
        windowOf u (sampleId '2') = some (sampleWindow '4' '2') := by
    intro u hu
    simp only [System.visits_cons, System.visits_nil, budgetNext_call, Option.some.injEq,
      exists_eq_left'] at hu
    rcases hu with rfl | rfl | rfl <;> decide +kernel
  have hrun := sampleAdmitted_run
  have hreach := sampleAdmitted_reachable
  generalize hdb : sampleAdmitted = db at hrun hreach
  have hnone : ∀ a ∈ db.attempts.rows, a.scopeAccount .member = sampleId '2' →
      a.state ≠ .conflict := by
    rw [← hdb]
    decide +kernel
  have howes : liabilityOf db (sampleId '2') = some (3 * SCALE) := by
    rw [← hdb]
    decide +kernel
  have hanswer : (perform sampleDigests (.markUnknown (sampleId '7')) db).2 = .marked := by
    rw [← hdb]
    decide +kernel
  refine ⟨db, hrun, ?_, ?_⟩
  · exact (spendingCap_safety sampleDigests).1 sampleDatabase db _ .member (sampleId '2')
      (sampleWindow '4' '2') ⟨4 * SCALE, by decide⟩ ⟨rfl, rfl⟩ hrun (by decide +kernel)
      (fun u hu => (hvisits u hu).1) (fun u hu => (hvisits u hu).2) (by decide) hnone
  · exact (spendingCap_safety sampleDigests).2 db (.markUnknown (sampleId '7')) (sampleId '2')
      (3 * SCALE) hreach howes (by simp [hanswer])
      (by simp [hanswer])

end Lares.Budget
