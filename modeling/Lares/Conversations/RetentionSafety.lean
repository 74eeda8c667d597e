import Lares.Conversations.Retention
import Mathlib

/-! # What a prune may delete

    * **Age**: an entry is so many full months old when the same day and time,
      or the last day there is, so many months after it is not after the clock.
    * **The cutoff** keeps what is younger when the month it goes back to has the
      day of the clock. Setting the month goes on into the next month otherwise,
      and an invalid date leaves the floor only.
    * **Batches**: runs with one clock delete what is before the cutoff, oldest first.
-/

namespace Lares.Conversations

open Gregorian

/-! ## Section 1: Ages -/

def US_PER_DAY : Int := 86400000000

/-- The instant so many months after one, at the same time of the day -/
def monthsAfter (n : Nat) (at_ : Int) : Int :=
  monthsLater n (at_ / US_PER_DAY) * US_PER_DAY + at_ % US_PER_DAY

def FullMonthsOld (n : Nat) (now at_ : Int) : Prop := monthsAfter n at_ ≤ now * 1000

/-- The month that is set, and whether the clock's day is in it: the cutoff is a
    date, and that month has the day. Otherwise the cutoff may be the start of the
    next month, or the floor of thirty days may come first. -/
def DayKept (n : Nat) (now : Int) : Prop :=
  let day := now / MS_PER_DAY
  let target := monthOf day - n
  (timeClip ((firstDay target + dayOfMonth day - 1) * MS_PER_DAY + now % MS_PER_DAY)).isSome ∧
    (dayOfMonth day ≤ daysInMonth target ∨
      (dayOfMonth day = daysInMonth target + 1 ∧ now % MS_PER_DAY = 0) ∨
      (n = 1 ∧ (dayOfMonth day ≤ 30 ∨ now % MS_PER_DAY = 0)))

theorem day_le_of_lt {at_ day time : Int} (h : at_ < (day * MS_PER_DAY + time) * 1000)
    (htime : time < MS_PER_DAY) :
    at_ / US_PER_DAY < day ∨ (at_ / US_PER_DAY = day ∧ at_ % US_PER_DAY < time * 1000) := by
  unfold US_PER_DAY
  unfold MS_PER_DAY at h htime
  omega

theorem split_now (now : Int) : now = now / MS_PER_DAY * MS_PER_DAY + now % MS_PER_DAY := by
  unfold MS_PER_DAY
  omega

theorem time_bounds (now : Int) : 0 ≤ now % MS_PER_DAY ∧ now % MS_PER_DAY < MS_PER_DAY := by
  unfold MS_PER_DAY
  omega

theorem fullMonthsOld_of_lt {n : Nat} {now at_ : Int}
    (h : monthsLater n (at_ / US_PER_DAY) < now / MS_PER_DAY) : FullMonthsOld n now at_ := by
  unfold FullMonthsOld monthsAfter
  unfold US_PER_DAY at h ⊢
  unfold MS_PER_DAY at h
  omega

theorem fullMonthsOld_of_eq {n : Nat} {now at_ : Int}
    (h : monthsLater n (at_ / US_PER_DAY) = now / MS_PER_DAY)
    (htime : at_ % US_PER_DAY ≤ now % MS_PER_DAY * 1000) : FullMonthsOld n now at_ := by
  unfold FullMonthsOld monthsAfter
  unfold US_PER_DAY at h htime ⊢
  unfold MS_PER_DAY at h htime
  omega

theorem not_fullMonthsOld {n : Nat} {now at_ : Int}
    (h : now / MS_PER_DAY < monthsLater n (at_ / US_PER_DAY)) : ¬ FullMonthsOld n now at_ := by
  unfold FullMonthsOld monthsAfter
  unfold US_PER_DAY at h ⊢
  unfold MS_PER_DAY at h
  omega

/-! ## Section 2: The cutoff -/

theorem setUTCMonth_back (n : Nat) (now : Int) :
    (cutoffFor (some n) now).join =
      timeClip ((firstDay (monthOf (now / MS_PER_DAY) - n) + dayOfMonth (now / MS_PER_DAY) - 1) *
        MS_PER_DAY + now % MS_PER_DAY) := by
  have hmonth : 12 * (monthOf (now / MS_PER_DAY) / 12) + (monthOf (now / MS_PER_DAY) % 12 - n) =
      monthOf (now / MS_PER_DAY) - n := by omega
  simp only [cutoffFor, Option.map_some, Option.join_some, setUTCMonth, getUTCMonth, hmonth]

theorem timeClip_eq_some {t v : Int} :
    timeClip t = some v ↔ v = t ∧ -MAX_TIME ≤ t ∧ t ≤ MAX_TIME := by
  unfold timeClip
  split
  · next h => simp [h, eq_comm]
  · next h => simp [h]

/-- The floor of a clock that is sane -/
theorem minusDays_floor {now : Int} (hclock : EARLIEST_SANE_CLOCK ≤ now) (hmax : now ≤ MAX_TIME) :
    minusDays now PRUNE_FLOOR_DAYS = some (now - 30 * MS_PER_DAY) := by
  have hearliest : EARLIEST_SANE_CLOCK = 1767225600000 := by decide
  unfold minusDays timeClip PRUNE_FLOOR_DAYS
  unfold MAX_TIME at hmax ⊢
  unfold MS_PER_DAY
  rw [if_pos (by omega)]

/-- What is before the cutoff is before the floor, and before the window if that is a date. -/
theorem before_earlier {window : Option Int} {floor at_ : Int} :
    before (earlier window (some floor)) at_ = true ↔
      at_ < floor * 1000 ∧ ∀ w, window = some w → at_ < w * 1000 := by
  cases window with
  | none => simp [earlier, before]
  | some w =>
    by_cases hlt : w < floor
    · simp only [earlier, hlt, if_true, before, Option.any_some, decide_eq_true_eq,
        Option.some.injEq, forall_eq']
      omega
    · simp only [earlier, hlt, if_false, before, Option.any_some, decide_eq_true_eq,
        Option.some.injEq, forall_eq']
      omega

section Cutoff

variable {n : Nat} {now at_ : Int}

/-- With the day kept, whatever is before window and floor is old enough. -/
theorem fullMonthsOld_of_before (hkept : DayKept n now)
    (hwindow : at_ < ((firstDay (monthOf (now / MS_PER_DAY) - n) +
      dayOfMonth (now / MS_PER_DAY) - 1) * MS_PER_DAY + now % MS_PER_DAY) * 1000)
    (hfloor : at_ < (now - 30 * MS_PER_DAY) * 1000) : FullMonthsOld n now at_ := by
  obtain ⟨-, hkept⟩ := hkept
  have htime := time_bounds now
  generalize hday : now / MS_PER_DAY = day at *
  generalize htarget : monthOf day - n = target at *
  have hnow := dayOfMonth_bounds day
  have heq := eq_firstDay_add day
  have hnext := firstDay_succ target
  -- the entry's day is the one the window goes back to, or an earlier one
  have hbefore := day_le_of_lt hwindow htime.2
  have hin : at_ / US_PER_DAY < firstDay (target + 1) := by
    rcases hkept with hlen | ⟨hover, hmidnight⟩ | ⟨hone, hshort⟩
    · omega
    · have hzero : ¬ at_ % US_PER_DAY < now % MS_PER_DAY * 1000 := by
        rw [hmidnight]
        unfold US_PER_DAY
        omega
      omega
    · have hthis : target + 1 = monthOf day := by omega
      have hback : (now - 30 * MS_PER_DAY) = (day - 30) * MS_PER_DAY + now % MS_PER_DAY := by
        have := split_now now
        rw [hday] at this
        unfold MS_PER_DAY at this ⊢
        omega
      rw [hback] at hfloor
      have hfloorDay := day_le_of_lt hfloor htime.2
      rw [hthis]
      rcases hshort with hshort | hmidnight
      · have hlast := (daysInMonth_bounds (monthOf day)).2
        omega
      · have hzero : ¬ at_ % US_PER_DAY < now % MS_PER_DAY * 1000 := by
          rw [hmidnight]
          unfold US_PER_DAY
          omega
        have hlast := (daysInMonth_bounds (monthOf day)).2
        omega
  have hmonth : monthOf (at_ / US_PER_DAY) ≤ target := monthOf_le hin
  by_cases hearly : monthOf (at_ / US_PER_DAY) < target
  · exact fullMonthsOld_of_lt (hday ▸ monthsLater_lt (by omega))
  · -- in the month itself the day of the month decides, and on the same day the time
    have hsame : monthOf (at_ / US_PER_DAY) + n = monthOf day := by omega
    have hentry := dayOfMonth_bounds (at_ / US_PER_DAY)
    have hentryEq := eq_firstDay_add (at_ / US_PER_DAY)
    have htargetEq : monthOf (at_ / US_PER_DAY) = target := by omega
    rw [htargetEq] at hentryEq
    have hdays : dayOfMonth (at_ / US_PER_DAY) ≤ dayOfMonth day := by omega
    have hlater := monthsLater_le hsame hdays
    by_cases hless : dayOfMonth (at_ / US_PER_DAY) < dayOfMonth day
    · exact fullMonthsOld_of_lt (by rw [hday]; omega)
    · refine fullMonthsOld_of_eq (by rw [hday]; omega) ?_
      rcases hbefore with hlt | ⟨-, hlt⟩
      · omega
      · exact le_of_lt hlt

/-- Otherwise there is an instant before window and floor that is not. -/
theorem exists_before_not_old (hclock : EARLIEST_SANE_CLOCK ≤ now) (hmax : now ≤ MAX_TIME)
    (hn : 1 ≤ n) (hkept : ¬ DayKept n now) :
    ∃ at_, before (earlier (cutoffFor (some n) now).join
      (some (now - 30 * MS_PER_DAY))) at_ = true ∧ ¬ FullMonthsOld n now at_ := by
  have hearliest : EARLIEST_SANE_CLOCK = 1767225600000 := by decide
  have htime := time_bounds now
  have hsplit := split_now now
  unfold DayKept at hkept
  simp only [setUTCMonth_back, before_earlier]
  dsimp only at hkept
  generalize hday : now / MS_PER_DAY = day at *
  generalize htarget : monthOf day - n = target at *
  have hnow := dayOfMonth_bounds day
  have heq := eq_firstDay_add day
  have hnext := firstDay_succ target
  have hlen := daysInMonth_bounds target
  have hthis := daysInMonth_bounds (monthOf day)
  have hmono := firstDay_mono (show target + 1 ≤ monthOf day by omega)
  cases hwindow : timeClip ((firstDay target + dayOfMonth day - 1) * MS_PER_DAY +
      now % MS_PER_DAY) with
  | none =>
    -- the clock goes back beyond all dates, and only the floor is left
    have hfar : 3 ≤ n := by
      by_contra hfew
      have hnear : firstDay (monthOf day) ≤ firstDay target + 62 := by
        by_cases hone : n = 1
        · have hback : target + 1 = monthOf day := by omega
          rw [← hback]
          omega
        · have hback : target + 1 + 1 = monthOf day := by omega
          have hlen' := daysInMonth_bounds (target + 1)
          have hnext' := firstDay_succ (target + 1)
          rw [← hback]
          omega
      unfold timeClip at hwindow
      unfold MAX_TIME at hwindow hmax
      unfold MS_PER_DAY at hwindow hsplit htime
      split at hwindow
      · cases hwindow
      · omega
    refine ⟨(now - 30 * MS_PER_DAY) * 1000 - 1, ⟨by omega, by simp⟩, not_fullMonthsOld ?_⟩
    have hrecent : day - 31 ≤ ((now - 30 * MS_PER_DAY) * 1000 - 1) / US_PER_DAY := by
      unfold US_PER_DAY
      unfold MS_PER_DAY at hsplit htime ⊢
      omega
    have hspan := firstDay_mono (show monthOf day - 2 ≤ monthOf day by omega)
    have hmonth := le_monthOf (show firstDay (monthOf day - 2) ≤
      ((now - 30 * MS_PER_DAY) * 1000 - 1) / US_PER_DAY by omega)
    rw [hday]
    exact lt_monthsLater (by omega)
  | some w =>
    -- the month has no such day, and the window is in the month after it
    rw [hwindow] at hkept
    have hfailed : ¬ (dayOfMonth day ≤ daysInMonth target ∨
        (dayOfMonth day = daysInMonth target + 1 ∧ now % MS_PER_DAY = 0) ∨
        (n = 1 ∧ (dayOfMonth day ≤ 30 ∨ now % MS_PER_DAY = 0))) := fun h => hkept ⟨rfl, h⟩
    have hstart : firstDay (target + 1) * US_PER_DAY / US_PER_DAY = firstDay (target + 1) := by
      unfold US_PER_DAY
      omega
    refine ⟨firstDay (target + 1) * US_PER_DAY, ⟨?_, ?_⟩, not_fullMonthsOld ?_⟩
    · have hspan : n = 1 ∨ firstDay (target + 1) + 28 ≤ firstDay (monthOf day) := by
        by_cases hone : n = 1
        · exact .inl hone
        · exact .inr (by omega)
      have hone : n = 1 → firstDay (target + 1) = firstDay (monthOf day) := by
        intro hone
        rw [show target + 1 = monthOf day by omega]
      unfold US_PER_DAY
      unfold MS_PER_DAY at *
      omega
    · intro w' hw'
      cases hw'
      obtain ⟨rfl, -⟩ := timeClip_eq_some.1 hwindow
      unfold US_PER_DAY
      unfold MS_PER_DAY at *
      omega
    · rw [hday, hstart]
      exact lt_monthsLater (by rw [monthOf_firstDay]; omega)

end Cutoff

/-! ## Section 3: Batches -/

section Batches

variable {order : OldestFirst} {owner : Text} {cutoff : Option Int} {limit : Nat}
  {rows : List ConversationEntry}

/-- The owner's entries before the cutoff -/
def stale (owner : Text) (cutoff : Option Int) (e : ConversationEntry) : Bool :=
  e.personKey = owner && before cutoff e.at

theorem doomed_eq : doomed order owner cutoff limit rows =
    (order.sort (rows.filter (stale owner cutoff))).take limit := rfl

theorem doomed_subperm : (doomed order owner cutoff limit rows).Subperm rows :=
  (List.take_sublist _ _).subperm.trans ((order.perm _).subperm.trans (List.filter_sublist).subperm)

theorem stale_of_doomed {e : ConversationEntry} (he : e ∈ doomed order owner cutoff limit rows) :
    stale owner cutoff e = true :=
  (List.mem_filter.1 ((order.perm _).mem_iff.1 (List.mem_of_mem_take he))).2

theorem perm_doomed_append :
    rows.Perm (doomed order owner cutoff limit rows ++
      rows.diff (doomed order owner cutoff limit rows)) :=
  (List.subperm_append_diff_self_of_count_le fun e _ =>
    List.Subperm.count_le doomed_subperm e).symm

/-- What stays of the stale entries is what the sort puts after the limit. -/
theorem stale_kept_perm : ((rows.diff (doomed order owner cutoff limit rows)).filter
    (stale owner cutoff)).Perm ((order.sort (rows.filter (stale owner cutoff))).drop limit) := by
  have hall : (doomed order owner cutoff limit rows).filter (stale owner cutoff) =
      doomed order owner cutoff limit rows :=
    List.filter_eq_self.2 fun e he => stale_of_doomed he
  have hparts : rows.Perm (doomed order owner cutoff limit rows ++
      rows.diff (doomed order owner cutoff limit rows)) := perm_doomed_append
  have hsplit := hparts.filter (stale owner cutoff)
  rw [List.filter_append, hall] at hsplit
  have hsorted := (order.perm (rows.filter (stale owner cutoff))).trans hsplit
  rw [← List.take_append_drop limit (order.sort _), ← doomed_eq] at hsorted
  exact ((List.perm_append_left_iff _).1 hsorted).symm

/-- The entries that go are the oldest. -/
theorem doomed_le_kept {e k : ConversationEntry} (he : e ∈ doomed order owner cutoff limit rows)
    (hk : k ∈ rows.diff (doomed order owner cutoff limit rows)) (howner : k.personKey = owner) :
    e.at ≤ k.at := by
  by_cases hstale : stale owner cutoff k = true
  · have hdrop := stale_kept_perm.mem_iff.1 (List.mem_filter.2 ⟨hk, hstale⟩)
    have hsorted := order.sorted (rows.filter (stale owner cutoff))
    rw [← List.take_append_drop limit (order.sort _), List.pairwise_append] at hsorted
    exact hsorted.2.2 e he k hdrop
  · -- a younger one is not before the cutoff
    have hbefore := stale_of_doomed he
    simp only [stale, howner, decide_true, Bool.true_and, Bool.not_eq_true] at hstale
    simp only [stale, Bool.and_eq_true] at hbefore
    cases cutoff with
    | none => simp [before] at hbefore
    | some c =>
      simp only [before, Option.any_some, decide_eq_true_eq] at hbefore
      simp only [before, Option.any_some, decide_eq_false_iff_not] at hstale
      omega

theorem filter_diff {p : ConversationEntry → Bool} (l gone : List ConversationEntry)
    (h : ∀ e ∈ gone, p e = false) : (l.diff gone).filter p = l.filter p := by
  induction gone generalizing l with
  | nil => simp
  | cons a gone ih =>
    have ha : a ∉ l.filter p := by simp [h a (List.mem_cons_self ..)]
    rw [List.diff_cons, ih (l.erase a) fun e he => h e (List.mem_cons_of_mem _ he),
      ← List.erase_filter, List.erase_of_not_mem ha]

/-- The entries that no run with this cutoff deletes -/
theorem filter_kept : (rows.diff (doomed order owner cutoff limit rows)).filter
    (fun e => !stale owner cutoff e) = rows.filter fun e => !stale owner cutoff e :=
  filter_diff _ _ fun e he => by simp [stale_of_doomed he]

/-- A run below its limit leaves no stale entry. -/
theorem kept_of_below (hbelow : (doomed order owner cutoff limit rows).length < limit) :
    rows.diff (doomed order owner cutoff limit rows) =
      rows.filter fun e => !stale owner cutoff e := by
  have hkept : (rows.diff (doomed order owner cutoff limit rows)).filter
      (fun e => !stale owner cutoff e) = _ := filter_kept
  rw [← hkept]
  refine (List.filter_eq_self.2 fun k hk => ?_).symm
  by_contra hstale
  have hdrop := stale_kept_perm.mem_iff.1 (List.mem_filter.2 ⟨hk, by simpa using hstale⟩)
  rw [doomed_eq, List.length_take] at hbelow
  rw [List.drop_eq_nil_of_le (by omega)] at hdrop
  exact absurd hdrop (List.not_mem_nil)

end Batches

/-! ## Section 4: Runs -/

/-- Runs of one night after the other, all with the clock of the first -/
def pruneRuns (order : OldestFirst) (owner : Text) (now : Int) (batchLimit : Option Int)
    (s : Store) : List Faults → Store
  | [] => s
  | faults :: runs =>
    pruneRuns order owner now batchLimit
      (pruneForOwner order faults owner (some now) none batchLimit s).2 runs

def noFaults : Faults := ⟨none, none, none⟩

/-- What a run deletes with a setting of `n` months -/
structure Promised (n : Nat) (owner : Text) (now : Int) (batchLimit : Option Int)
    (s : Store) (result : Except Text PruneOutcome × Store) : Prop where
  deleted : ∃ gone, s.entries.Perm (gone ++ result.2.entries) ∧
    result.2.entries.Sublist s.entries ∧
    (∀ e ∈ gone, e.personKey = owner ∧ FullMonthsOld n now e.at ∧
      e.at + PRUNE_FLOOR_DAYS * US_PER_DAY ≤ now * 1000) ∧
    (∀ e ∈ gone, ∀ k ∈ result.2.entries, k.personKey = owner → e.at ≤ k.at) ∧
    gone.length ≤ (batchLimit.getD PRUNE_BATCH_LIMIT).toNat
  otherwise : ∀ o, result.1 = .ok o → o.outcome ≠ .pruned → result.2.entries = s.entries

/-- Every run keeps the promise. The first that is not limited by its batch leaves
    the entries that are not before the cutoff, and if a run may delete there is one. -/
structure RetentionKept (order : OldestFirst) (n : Nat) (owner : Text) (now : Int)
    (batchLimit : Option Int) (s : Store) : Prop where
  promised : ∀ faults,
    Promised n owner now batchLimit s
      (pruneForOwner order faults owner (some now) none batchLimit s)
  finished : ∀ runs faults o, let before_ := pruneRuns order owner now batchLimit s runs
    let result := pruneForOwner order faults owner (some now) none batchLimit before_
    result.1 = .ok o → o.outcome = .pruned → o.batchLimited = some false →
      ∃ cutoff, o.cutoff = some (some cutoff) ∧ result.2.entries =
        s.entries.filter fun e => !(e.personKey = owner && e.at < cutoff * 1000)
  finishes : 1 ≤ batchLimit.getD PRUNE_BATCH_LIMIT → ∃ k o,
    (pruneForOwner order noFaults owner (some now) none batchLimit
      (pruneRuns order owner now batchLimit s (List.replicate k noFaults))).1 = .ok o ∧
    o.outcome = .pruned ∧ o.batchLimited = some false

section Runs

variable {order : OldestFirst} {n : Nat} {owner : Text} {now : Int} {batchLimit : Option Int}
  {s : Store}

/-- The cutoff of a run with a setting of `n` months -/
def runCutoff (n : Nat) (now : Int) : Option Int :=
  earlier (cutoffFor (some n) now).join (some (now - 30 * MS_PER_DAY))

/-- What a run with a sane clock and a setting of `n` months does -/
inductive Run (order : OldestFirst) (n : Nat) (owner : Text) (now : Int) (batchLimit : Option Int)
    (s : Store) : Except Text PruneOutcome × Store → Prop where
  | nothing (o : PruneOutcome) (h : o.outcome ≠ .pruned) :
      Run order n owner now batchLimit s (.ok o, s)
  | deletes (result : Except Text PruneOutcome) (s' : Store)
      (limit : 0 ≤ batchLimit.getD PRUNE_BATCH_LIMIT)
      (entries : s'.entries = s.entries.diff (doomed order owner (runCutoff n now)
        (batchLimit.getD PRUNE_BATCH_LIMIT).toNat s.entries))
      (retention : s'.retention = s.retention)
      (outcome : ∀ o, result = .ok o → o.outcome = .pruned ∧ o.cutoff = some (runCutoff n now) ∧
        o.batchLimited = some (decide (batchLimit.getD PRUNE_BATCH_LIMIT ≤
          (doomed order owner (runCutoff n now) (batchLimit.getD PRUNE_BATCH_LIMIT).toNat
            s.entries).length))) : Run order n owner now batchLimit s (result, s')

variable (order batchLimit) in
theorem pruneForOwner_run (hclock : EARLIEST_SANE_CLOCK ≤ now) (hmax : now ≤ MAX_TIME)
    (hsetting : readRetentionMonths s owner = some n) (faults : Faults) :
    Run order n owner now batchLimit s
      (pruneForOwner order faults owner (some now) none batchLimit s) := by
  have hfloor := minusDays_floor hclock hmax
  unfold pruneForOwner
  rw [if_neg (by simpa using hclock)]
  cases faults.setting with
  | some message => exact .nothing _ (by simp [refused])
  | none =>
    simp only [hsetting, Option.getD_some, Option.getD_none, hfloor]
    cases faults.delete with
    | some message => exact .nothing _ (by simp [refused])
    | none =>
      dsimp only
      by_cases hneg : batchLimit.getD PRUNE_BATCH_LIMIT < 0
      · rw [if_pos hneg]
        exact .nothing _ (by simp [refused])
      · rw [if_neg hneg]
        cases faults.reads with
        | none =>
          refine .deletes _ _ (by omega) rfl rfl fun o ho => ?_
          cases ho
          exact ⟨rfl, rfl, rfl⟩
        | some missing =>
          cases missing with
          | none =>
            refine .deletes _ _ (by omega) rfl rfl fun o ho => ?_
            cases ho
            exact ⟨rfl, rfl, rfl⟩
          | some message =>
            refine .deletes _ _ (by omega) rfl rfl fun o ho => ?_
            cases ho

theorem readRetentionMonths_congr {s' : Store} (h : s'.retention = s.retention) :
    readRetentionMonths s' owner = readRetentionMonths s owner := by
  rw [readRetentionMonths, readRetentionMonths, h]

/-- A run keeps the setting, and every entry that is not stale. -/
theorem Run.keeps {result : Except Text PruneOutcome × Store}
    (h : Run order n owner now batchLimit s result) : result.2.retention = s.retention ∧
      result.2.entries.filter (fun e => !stale owner (runCutoff n now) e) =
        s.entries.filter fun e => !stale owner (runCutoff n now) e := by
  cases h with
  | nothing o h => exact ⟨rfl, rfl⟩
  | deletes result s' limit entries retention outcome =>
    refine ⟨retention, ?_⟩
    rw [entries]
    exact filter_kept

variable (order batchLimit) in
/-- **Run lemma**: so do runs one after the other. -/
theorem pruneRuns_keeps (hclock : EARLIEST_SANE_CLOCK ≤ now) (hmax : now ≤ MAX_TIME)
    (hsetting : readRetentionMonths s owner = some n) (runs : List Faults) :
    readRetentionMonths (pruneRuns order owner now batchLimit s runs) owner = some n ∧
      (pruneRuns order owner now batchLimit s runs).entries.filter
          (fun e => !stale owner (runCutoff n now) e) =
        s.entries.filter fun e => !stale owner (runCutoff n now) e := by
  induction runs generalizing s with
  | nil => exact ⟨hsetting, rfl⟩
  | cons faults runs ih =>
    obtain ⟨hretention, hkept⟩ := (pruneForOwner_run order batchLimit hclock hmax hsetting
      faults).keeps
    obtain ⟨hset, hrest⟩ := ih ((readRetentionMonths_congr hretention).trans hsetting)
    exact ⟨hset, hrest.trans hkept⟩

theorem runCutoff_isSome : ∃ c, runCutoff n now = some c := by
  unfold runCutoff
  cases (cutoffFor (some n) now).join with
  | none => exact ⟨_, rfl⟩
  | some w =>
    rw [earlier]
    split
    · exact ⟨_, rfl⟩
    · exact ⟨_, rfl⟩

theorem finished_run (hclock : EARLIEST_SANE_CLOCK ≤ now) (hmax : now ≤ MAX_TIME)
    (hsetting : readRetentionMonths s owner = some n) {faults : Faults} {o : PruneOutcome}
    (hok : (pruneForOwner order faults owner (some now) none batchLimit s).1 = .ok o)
    (hpruned : o.outcome = .pruned) (hlimited : o.batchLimited = some false) :
    ∃ c, runCutoff n now = some c ∧ o.cutoff = some (some c) ∧
      (pruneForOwner order faults owner (some now) none batchLimit s).2.entries =
        s.entries.filter fun e => !(e.personKey = owner && e.at < c * 1000) := by
  obtain ⟨c, hc⟩ : ∃ c, runCutoff n now = some c := runCutoff_isSome
  have hrun := pruneForOwner_run order batchLimit hclock hmax hsetting faults
  generalize pruneForOwner order faults owner (some now) none batchLimit s = result at hok hrun ⊢
  cases hrun with
  | nothing o' h =>
    cases hok
    exact absurd hpruned h
  | deletes result s' limit entries retention outcome =>
    obtain ⟨-, hcutoff, hbatch⟩ := outcome o hok
    rw [hbatch, Option.some.injEq, decide_eq_false_iff_not] at hlimited
    refine ⟨c, hc, hcutoff.trans (congrArg some hc), ?_⟩
    rw [entries, kept_of_below (by omega), hc]
    rfl

variable (order) in
theorem noFaults_pruned (hclock : EARLIEST_SANE_CLOCK ≤ now)
    (hsetting : readRetentionMonths s owner = some n)
    (hlimit : 1 ≤ batchLimit.getD PRUNE_BATCH_LIMIT) :
    ∃ o, (pruneForOwner order noFaults owner (some now) none batchLimit s).1 = .ok o ∧
      o.outcome = .pruned := by
  have hneg : ¬ batchLimit.getD PRUNE_BATCH_LIMIT < 0 := by omega
  unfold pruneForOwner
  rw [if_neg (by simpa using hclock)]
  simp only [noFaults, hsetting, hneg, if_false]
  exact ⟨_, rfl, rfl⟩

/-- Each run that is limited deletes its limit, so runs without faults come to an end. -/
theorem finishes_of_length (hclock : EARLIEST_SANE_CLOCK ≤ now) (hmax : now ≤ MAX_TIME)
    (hlimit : 1 ≤ batchLimit.getD PRUNE_BATCH_LIMIT) (m : Nat)
    (hsetting : readRetentionMonths s owner = some n)
    (hlength : (s.entries.filter (stale owner (runCutoff n now))).length ≤ m) : ∃ k o,
      (pruneForOwner order noFaults owner (some now) none batchLimit
        (pruneRuns order owner now batchLimit s (List.replicate k noFaults))).1 = .ok o ∧
      o.outcome = .pruned ∧ o.batchLimited = some false := by
  induction m using Nat.strong_induction_on generalizing s with
  | _ m ih =>
    obtain ⟨o, hok, hpruned⟩ := noFaults_pruned order hclock hsetting hlimit
    have hrun := pruneForOwner_run order batchLimit hclock hmax hsetting noFaults
    have hkeeps := hrun.keeps.1
    generalize hresult : pruneForOwner order noFaults owner (some now) none batchLimit s = result
      at hok hrun hkeeps
    cases hrun with
    | nothing o' h =>
      cases hok
      exact absurd hpruned h
    | deletes result s' _ entries retention outcome =>
      obtain ⟨-, -, hbatch⟩ := outcome o hok
      by_cases hlimited : batchLimit.getD PRUNE_BATCH_LIMIT ≤ (doomed order owner (runCutoff n now)
          (batchLimit.getD PRUNE_BATCH_LIMIT).toNat s.entries).length
      · -- as many stale entries as the limit are gone
        have hlen := (order.perm (s.entries.filter (stale owner (runCutoff n now)))).length_eq
        have hleft : (s'.entries.filter (stale owner (runCutoff n now))).length =
            (s.entries.filter (stale owner (runCutoff n now))).length -
              (batchLimit.getD PRUNE_BATCH_LIMIT).toNat := by
          rw [entries, stale_kept_perm.length_eq, List.length_drop, hlen]
        rw [doomed_eq, List.length_take, hlen] at hlimited
        have hless : (s'.entries.filter (stale owner (runCutoff n now))).length ≤ m - 1 := by
          omega
        obtain ⟨k, o', h⟩ := ih (m - 1) (by omega)
          ((readRetentionMonths_congr hkeeps).trans hsetting) hless
        refine ⟨k + 1, o', ?_⟩
        rw [List.replicate_succ, pruneRuns, hresult]
        exact h
      · refine ⟨0, o, ?_, hpruned, ?_⟩
        · rw [List.replicate_zero, pruneRuns, hresult]
          exact hok
        · rw [hbatch, decide_eq_false hlimited]

/-- What is deleted of stale entries that are all old enough -/
theorem Run.promised {result : Except Text PruneOutcome × Store}
    (h : Run order n owner now batchLimit s result)
    (hold : ∀ at_, before (runCutoff n now) at_ = true → FullMonthsOld n now at_) :
    Promised n owner now batchLimit s result := by
  cases h with
  | nothing o h =>
    refine ⟨⟨[], List.Perm.refl _, List.Sublist.refl _, by simp, by simp, by simp⟩, ?_⟩
    intro o' ho _
    rfl
  | deletes result s' limit entries retention outcome =>
    refine ⟨⟨doomed order owner (runCutoff n now) (batchLimit.getD PRUNE_BATCH_LIMIT).toNat
      s.entries, ?_, ?_, ?_, ?_, ?_⟩, ?_⟩
    · rw [entries]
      exact perm_doomed_append
    · rw [entries]
      exact List.diff_sublist _ _
    · intro e he
      have hstale := stale_of_doomed he
      simp only [stale, Bool.and_eq_true, decide_eq_true_eq] at hstale
      refine ⟨hstale.1, hold e.at hstale.2, ?_⟩
      have hfloor := (before_earlier.1 hstale.2).1
      unfold PRUNE_FLOOR_DAYS US_PER_DAY
      unfold MS_PER_DAY at hfloor
      omega
    · intro e he k hk howner
      rw [entries] at hk
      exact doomed_le_kept he hk howner
    · rw [doomed_eq, List.length_take]
      exact Nat.min_le_left ..
    · intro o ho hne
      exact absurd (outcome o ho).1 hne

end Runs

/-- By insertion, the first of equal instants in front -/
def byInstant : OldestFirst where
  sort rows := rows.insertionSort fun a b => a.at ≤ b.at
  perm rows := List.perm_insertionSort _ rows
  sorted rows := by
    have : Std.Total fun a b : ConversationEntry => a.at ≤ b.at := ⟨fun a b => le_total a.at b.at⟩
    have : IsTrans ConversationEntry fun a b => a.at ≤ b.at := ⟨fun a b c => le_trans⟩
    exact List.pairwise_insertionSort _ rows

/-- **Main result**: retention keeps its promise to every owner, with every
    store, order and limit, exactly when the day is kept. -/
theorem retention_kept_iff {n : Nat} {now : Int} (hclock : EARLIEST_SANE_CLOCK ≤ now)
    (hmax : now ≤ MAX_TIME) (hn : 1 ≤ n) :
    (∀ order owner batchLimit s, readRetentionMonths s owner = some n →
      RetentionKept order n owner now batchLimit s) ↔ DayKept n now := by
  constructor
  · intro h
    by_contra hkept
    obtain ⟨at_, hbefore, hyoung⟩ := exists_before_not_old hclock hmax hn hkept
    -- in a store with this entry alone, it is deleted
    let s : Store := ⟨[([], some n)], [⟨[], [], at_⟩], []⟩
    have hsetting : readRetentionMonths s [] = some n := rfl
    obtain ⟨gone, hperm, -, hgone, -⟩ :=
      ((h byInstant [] none s hsetting).promised noFaults).deleted
    obtain ⟨o, hok, hpruned⟩ := noFaults_pruned byInstant hclock hsetting
      (show 1 ≤ (none : Option Int).getD PRUNE_BATCH_LIMIT by decide)
    have hempty : (pruneForOwner byInstant noFaults [] (some now) none none s).2.entries = [] := by
      have hrun := pruneForOwner_run byInstant none hclock hmax hsetting noFaults
      generalize pruneForOwner byInstant noFaults [] (some now) none none s = result at hok hrun ⊢
      cases hrun with
      | nothing o' h =>
        cases hok
        exact absurd hpruned h
      | deletes result s' limit entries retention outcome =>
        have hone : (doomed byInstant [] (runCutoff n now) 5000 s.entries).length ≤ 1 :=
          doomed_subperm.length_le
        have hstale : stale [] (runCutoff n now) ⟨[], [], at_⟩ = true := by
          simp only [stale, decide_true, Bool.true_and]
          exact hbefore
        have hkept : s'.entries = _ :=
          entries.trans (kept_of_below (Nat.lt_of_le_of_lt hone (by decide)))
        simp only [s, List.filter_cons, hstale, Bool.not_true, List.filter_nil] at hkept
        exact hkept
    rw [hempty, List.append_nil] at hperm
    exact hyoung (hgone _ (hperm.mem_iff.1 (List.mem_singleton.2 rfl))).2.1
  · intro hkept order owner batchLimit s hsetting
    have hold : ∀ at_, before (runCutoff n now) at_ = true → FullMonthsOld n now at_ := by
      intro at_ hbefore
      obtain ⟨hfloor, hwindow⟩ := before_earlier.1 hbefore
      obtain ⟨w, hw⟩ := Option.isSome_iff_exists.1 hkept.1
      have hlt := hwindow w (setUTCMonth_back n now ▸ hw)
      rw [(timeClip_eq_some.1 hw).1] at hlt
      exact fullMonthsOld_of_before hkept hlt hfloor
    refine ⟨fun faults => ?_, ?_, ?_⟩
    · exact (pruneForOwner_run order batchLimit hclock hmax hsetting faults).promised hold
    · intro runs faults o before_ result hok hpruned hlimited
      obtain ⟨hset, hrest⟩ := pruneRuns_keeps order batchLimit hclock hmax hsetting runs
      obtain ⟨c, hc, hcutoff, hentries⟩ := finished_run hclock hmax hset hok hpruned hlimited
      refine ⟨c, hcutoff, ?_⟩
      have hstale : ∀ e, stale owner (runCutoff n now) e =
          (e.personKey = owner && e.at < c * 1000 : Bool) := by
        intro e
        rw [hc]
        rfl
      simp only [hstale] at hrest
      exact hentries.trans hrest
    · intro hlimit
      exact finishes_of_length hclock hmax hlimit _ hsetting (le_refl _)

/-- An owner with six months and one entry, of noon on 2 March 2026 -/
def marchStore : Store where
  retention := [("owner".toList, some 6)]
  entries := [⟨"entry".toList, "owner".toList, 1772452800000000⟩]
  reads := []

/-- On the last day of August the entry is deleted. It is six months old in September. -/
theorem pruned_too_early :
    readRetentionMonths marchStore "owner".toList = some 6 ∧
      (pruneForOwner byInstant noFaults "owner".toList (some 1788177600000) none none
        marchStore).2.entries = [] ∧
      ¬ FullMonthsOld 6 1788177600000 1772452800000000 ∧
      ¬ RetentionKept byInstant 6 "owner".toList 1788177600000 none marchStore := by
  have hdeleted : (pruneForOwner byInstant noFaults "owner".toList (some 1788177600000) none none
      marchStore).2.entries = [] := by decide +kernel
  have hyoung : ¬ FullMonthsOld 6 1788177600000 1772452800000000 := by
    unfold FullMonthsOld
    decide +kernel
  refine ⟨rfl, hdeleted, hyoung, ?_⟩
  intro h
  obtain ⟨gone, hperm, -, hgone, -⟩ := (h.promised noFaults).deleted
  rw [hdeleted, List.append_nil] at hperm
  exact hyoung (hgone _ (hperm.mem_iff.1 (List.mem_singleton.2 rfl))).2.1

/-- An owner with twelve months, an entry of November 2025 and one of March 2026, beside a guest. -/
def decemberStore : Store where
  retention := [("owner".toList, some 12)]
  entries := [⟨"autumn".toList, "owner".toList, 1763208000000000⟩,
    ⟨"spring".toList, "owner".toList, 1772452800000000⟩,
    ⟨"guest".toList, "guest".toList, 1763208000000000⟩]
  reads := []

/-- On the last day of December 2026, twelve months back is a December. -/
theorem retention_kept_december :
    RetentionKept byInstant 12 "owner".toList 1798718400000 none decemberStore ∧
    (pruneForOwner byInstant noFaults "owner".toList (some 1798718400000) none none
      decemberStore).2.entries.map ConversationEntry.id = ["spring".toList, "guest".toList] := by
  refine ⟨(retention_kept_iff (by decide) (by decide) (by decide)).2 ?_ _ _ _ _ rfl,
    by decide +kernel⟩
  unfold DayKept
  decide +kernel

end Lares.Conversations
