import Lares.Framework.Interleaving
import Mathlib

/-! # Session rotation of a Telegram chat

    One row per chat carries the day that is answered, the summary of a closed
    day until the next message takes it, and the session to retire.

    * **The row**: one definition for each SQL statement.
    * **Requests**: an inbound message at the door and in `onMessage`, a
      completed turn, one pass of the day hand-over. Each waits for the database
      or for the language model between its statements.
    * **The log**: which summaries were written, handed over and discarded, and
      which sessions were claimed.
-/

namespace Lares.Telegram

abbrev Text := List Char
/-- A calendar day of the home zone. -/
abbrev Day := Int

/-! ## Section 1: The row -/

/-- `telegram_session_rotation`, for one chat. -/
structure Row (Note : Type) where
  /-- The day it has come to. -/
  localDay : Day
  /-- The summary that waits for the next message. -/
  pendingContext : Option Note
  /-- The session that serves the chat. -/
  sessionId : Option Text
  /-- The day that session began. -/
  sessionDay : Option Day
  /-- The last day that was summarised. -/
  handoverDay : Option Day
deriving DecidableEq

structure RotationState (Note : Type) where
  homeDay : Day
  pendingContext : Option Note
  handoverDay : Option Day
deriving DecidableEq

section Statements

variable {Note : Type}

def getRotationState (row : Option (Row Note)) (today : Day) : Row Note × RotationState Note :=
  let row := row.getD ⟨today, none, none, none, none⟩
  (row, ⟨row.localDay, row.pendingContext, row.handoverDay⟩)

def dayHasRolledOver (state : RotationState Note) (today : Day) : Bool :=
  decide (state.homeDay ≠ today)

/-- Under READ COMMITTED the row is taken as it is when its lock is free, but `prior` is read off
    the snapshot: what is returned is what the snapshot had. -/
def consumePendingContext (prior row : Option (Row Note)) : Option (Row Note) × Option Note :=
  match prior, row with
  | some prior, some row =>
      if prior.pendingContext.isSome ∧ row.pendingContext.isSome then
        (some { row with pendingContext := none }, prior.pendingContext)
      else (some row, none)
  | _, _ => (row, none)

def completeRotation (row : Option (Row Note)) (today : Day) (summary : Option Note)
    (closingDay : Option Day) : Option (Row Note) :=
  row.map fun row =>
    { row with
      localDay := today
      pendingContext := summary
      handoverDay := if closingDay.isSome ∧ summary.isSome then closingDay else row.handoverDay }

def advanceRotationDay (row : Option (Row Note)) (today : Day) : Option (Row Note) :=
  row.map fun row => { row with localDay := today }

def handoverWrittenFor (row : Option (Row Note)) (day : Day) : Bool :=
  match row with
  | some row => decide (row.handoverDay = some day)
  | none => false

def storeDayHandover (row : Option (Row Note)) (day : Day) (summary : Note) : Option (Row Note) :=
  match row with
  | none => some ⟨day, some summary, none, none, some day⟩
  | some row =>
      if row.handoverDay ≠ some day then
        some { row with pendingContext := some summary, handoverDay := some day }
      else some row

def recordServingSession (row : Option (Row Note)) (today : Day) (sessionId : Text) :
    Option (Row Note) :=
  row.map fun row => { row with sessionId := some sessionId, sessionDay := some today }

/-- A session is recorded, on another day than today. -/
def Row.behind (row : Row Note) (today : Day) : Bool :=
  row.sessionId.isSome && decide (row.sessionDay ≠ some today)

/-- As in `consumePendingContext`, `prior` is the snapshot. -/
def claimRolledOverSession (prior row : Option (Row Note)) (today : Day) :
    Option (Row Note) × Option Text :=
  match prior, row with
  | some prior, some row =>
      if prior.behind today ∧ row.behind today then
        (some { row with sessionId := none }, prior.sessionId)
      else (some row, none)
  | _, _ => (row, none)

end Statements

/-! ## Section 2: The chat -/

/-- A summary that was written for the next message. -/
structure Summary where
  day : Day
  /-- How many were written before it. -/
  serial : Nat
  text : Text
deriving DecidableEq

structure Discard where
  summary : Summary
  /-- What waits in its place. -/
  replacement : Option Summary
deriving DecidableEq

structure Claim where
  session : Text
  recorded : Option Day
  today : Day
deriving DecidableEq

structure Chat where
  /-- `none` before the first message. -/
  row : Option (Row Summary)
  /-- What was written as pending, in order. -/
  summaries : List Summary
  /-- What a message was given. -/
  handed : List Summary
  /-- What another one has replaced. -/
  discarded : List Discard
  /-- The sessions that were retired for a new day. -/
  claimed : List Claim
deriving DecidableEq

def pending (row : Option (Row Summary)) : Option Summary := row.bind Row.pendingContext

namespace Chat

def fresh : Chat := ⟨none, [], [], [], []⟩

def waiting (c : Chat) : Option Summary := pending c.row

def handoverDay (c : Chat) : Option Day := c.row.bind Row.handoverDay

def sessionId (c : Chat) : Option Text := c.row.bind Row.sessionId

/-- A statement leaves `row`, and has handed over a summary. What waits for the first time was
    written; what waited and was not handed over was discarded. -/
def update (c : Chat) (row : Option (Row Summary)) (handed : Option Summary) : Chat :=
  { c with
    row
    summaries := c.summaries ++ ((pending row).filter (· ∉ c.summaries)).toList
    handed := c.handed ++ handed.toList
    discarded := c.discarded ++ (c.waiting.filter fun s =>
      decide (pending row ≠ some s ∧ handed ≠ some s)).toList.map (⟨·, pending row⟩) }

def summary (c : Chat) (day : Day) (text : Text) : Summary := ⟨day, c.summaries.length, text⟩

end Chat

/-! ## Section 3: Requests -/

inductive Request where
  /-- `retirePriorDaySession` -/
  | door (today : Day)
  | claim (today : Day) (prior : Option (Row Summary))
  /-- `onMessage` -/
  | message
  | consume (prior : Option (Row Summary))
  /-- `message.completed` -/
  | turn (today : Day) (sessionId : Option Text)
  | record (today : Day) (sessionId : Text) (state : RotationState Summary)
  | rotate (today : Day) (state : RotationState Summary)
  | complete (today : Day) (summary : Option Text) (closingDay : Day)
  /-- `runDayHandover`, for this chat -/
  | handover (closingDay : Day)
  | summarize (closingDay : Day)
  | store (closingDay : Day) (summary : Text)
deriving DecidableEq

def Request.begins : Request → Bool
  | .door _ | .message | .turn _ _ | .handover _ => true
  | _ => false

/-- The answer is the language model's: nothing, where the window is empty or the call fails. -/
def step (c : Chat) (req : Request) (answer : Option Text) : Chat × Option Request :=
  match req with
  | .door today => (c, some (.claim today c.row))
  | .claim today prior =>
      let taken := claimRolledOverSession prior c.row today
      ({ c.update taken.1 none with
          claimed := c.claimed ++ taken.2.toList.map (⟨·, prior.bind Row.sessionDay, today⟩) },
        none)
  | .message => (c, some (.consume c.row))
  | .consume prior =>
      let taken := consumePendingContext prior c.row
      (c.update taken.1 taken.2, none)
  | .turn today sessionId =>
      let read := getRotationState c.row today
      (c.update (some read.1) none, some (match sessionId with
        | some sessionId => .record today sessionId read.2
        | none => .rotate today read.2))
  | .record today sessionId state =>
      (c.update (recordServingSession c.row today sessionId) none, some (.rotate today state))
  | .rotate today state =>
      if dayHasRolledOver state today = false then (c, none)
      else if state.handoverDay = some state.homeDay then
        (c.update (advanceRotationDay c.row today) none, none)
      else (c, some (.complete today answer state.homeDay))
  | .complete today summary closingDay =>
      (c.update (completeRotation c.row today (summary.map (c.summary closingDay)) (some closingDay))
        none, none)
  | .handover closingDay =>
      (c, if handoverWrittenFor c.row closingDay then none else some (.summarize closingDay))
  | .summarize closingDay => (c, answer.map (.store closingDay))
  | .store closingDay summary =>
      (c.update (storeDayHandover c.row closingDay (c.summary closingDay summary)) none, none)

/-- A request that is dropped has met a failing statement, or its process has ended. -/
def requests : Requests Chat Request (Option Text) Empty where
  begins _ req := req.begins
  step c req answer := some (step c req answer)
  happens _ event := event.elim

def rotation : System (Requests.State Chat Request)
    (Requests.Label Request (Option Text) Empty) :=
  requests.system (· = Chat.fresh)

/-! ## Section 4: Safety -/

/-- What every state keeps to. -/
structure Delivered (c : Chat) : Prop where
  /-- A day is summarized once. -/
  once : (c.summaries.map Summary.day).Nodup
  /-- A summary is handed to one message. -/
  handed : c.handed.Nodup
  written : ∀ s ∈ c.handed, s ∈ c.summaries
  /-- Only a later day's summary discards one that was not handed over. -/
  discarded : ∀ x ∈ c.discarded, ∃ later, x.replacement = some later ∧ x.summary.day < later.day
  /-- Whatever was written waits, was handed over or was discarded. -/
  kept : ∀ s ∈ c.summaries, c.waiting = some s ∨ s ∈ c.handed ∨ ∃ x ∈ c.discarded, x.summary = s
  /-- A session is claimed once, and only on another day than it was recorded on. -/
  claimed : (c.claimed.map Claim.session).Nodup
  behind : ∀ x ∈ c.claimed, x.recorded ≠ some x.today

/-- Nothing has come in between that the step does not look at: the row a taking statement finds
    is the one of its snapshot, a summary is written in the order of the days, none that waits is
    cleared, and no session is recorded again once it was claimed. -/
def InOrder (c : Chat) (req : Request) (answer : Option (Option Text)) : Prop :=
  answer.isSome → match req with
  | .claim today prior =>
      ∀ old ∈ prior, old.behind today = true → ∀ row ∈ c.row, row.behind today = true →
        row.sessionId = old.sessionId
  | .consume prior => ∀ old ∈ pending prior, ∀ s ∈ c.waiting, s = old
  | .record _ sessionId _ => ∀ x ∈ c.claimed, x.session ≠ sessionId
  | .complete _ (some _) closingDay => ∀ day ∈ c.handoverDay, day < closingDay
  | .complete _ none _ => c.waiting = none
  | .store closingDay _ => ∀ day ∈ c.handoverDay, day ≤ closingDay
  | _ => True

instance (c : Chat) : ∀ req answer, Decidable (InOrder c req answer)
  | .claim today prior, answer => inferInstanceAs (Decidable (answer.isSome → ∀ old ∈ prior,
      old.behind today = true → ∀ row ∈ c.row, row.behind today = true →
        row.sessionId = old.sessionId))
  | .consume prior, answer =>
      inferInstanceAs (Decidable (answer.isSome → ∀ old ∈ pending prior, ∀ s ∈ c.waiting, s = old))
  | .record _ sessionId _, answer =>
      inferInstanceAs (Decidable (answer.isSome → ∀ x ∈ c.claimed, x.session ≠ sessionId))
  | .complete _ (some _) closingDay, answer =>
      inferInstanceAs (Decidable (answer.isSome → ∀ day ∈ c.handoverDay, day < closingDay))
  | .complete _ none _, answer => inferInstanceAs (Decidable (answer.isSome → c.waiting = none))
  | .store closingDay _, answer =>
      inferInstanceAs (Decidable (answer.isSome → ∀ day ∈ c.handoverDay, day ≤ closingDay))
  | .door _, _ | .message, _ | .turn _ _, _ | .rotate _ _, _ | .handover _, _ | .summarize _, _ =>
      .isTrue fun _ => trivial

/-- The summaries, their days and where they are. -/
structure Delivery (c : Chat) : Prop where
  waiting : ∀ s, c.waiting = some s → c.handoverDay = some s.day ∧ s ∈ c.summaries ∧ s ∉ c.handed
  bounded : ∀ s ∈ c.summaries, ∃ day, c.handoverDay = some day ∧ s.day ≤ day
  increasing : (c.summaries.map Summary.day).Pairwise (· < ·)
  handed : c.handed.Nodup
  written : ∀ s ∈ c.handed, s ∈ c.summaries
  discarded : ∀ x ∈ c.discarded, ∃ later, x.replacement = some later ∧ x.summary.day < later.day
  kept : ∀ s ∈ c.summaries, c.waiting = some s ∨ s ∈ c.handed ∨ ∃ x ∈ c.discarded, x.summary = s

/-- The session of the row and the sessions that were claimed. -/
structure Retirement (c : Chat) : Prop where
  live : ∀ id, c.sessionId = some id → ∀ x ∈ c.claimed, x.session ≠ id
  claimed : (c.claimed.map Claim.session).Nodup
  behind : ∀ x ∈ c.claimed, x.recorded ≠ some x.today

variable {c : Chat} {row : Option (Row Summary)}

/-- A statement that leaves what waits alone, and the day with it. -/
theorem Delivery.same (h : Delivery c) (hpending : pending row = c.waiting)
    (hday : row.bind Row.handoverDay = c.handoverDay) : Delivery (c.update row none) := by
  have hold : ((pending row).filter (· ∉ c.summaries)).toList = [] := by
    rw [hpending]
    cases hw : c.waiting with
    | none => rfl
    | some s => simp [(h.waiting s hw).2.1]
  have hdrop : (c.waiting.filter fun s =>
      decide (pending row ≠ some s ∧ none ≠ some s)).toList = [] := by
    rw [hpending]
    cases c.waiting with
    | none => rfl
    | some s => simp
  have heq : c.update row none = { c with row } := by
    simp only [Chat.update, hold, hdrop, List.append_nil, List.map_nil, Option.toList_none]
  rw [heq]
  refine ⟨?_, ?_, h.increasing, h.handed, h.written, h.discarded, ?_⟩
  · intro s hs
    show row.bind Row.handoverDay = _ ∧ _
    rw [hday]
    exact h.waiting s (hpending.symm.trans hs)
  · intro s hs
    show ∃ day, row.bind Row.handoverDay = _ ∧ _
    rw [hday]
    exact h.bounded s hs
  · intro s hs
    show pending row = _ ∨ _
    rw [hpending]
    exact h.kept s hs

/-- A message takes what waits. -/
theorem Delivery.take (h : Delivery c) {s : Summary} (hs : c.waiting = some s)
    (hpending : pending row = none) (hday : row.bind Row.handoverDay = c.handoverDay) :
    Delivery (c.update row (some s)) := by
  obtain ⟨hsday, hmem, hnew⟩ := h.waiting s hs
  have heq : c.update row (some s) = { c with row, handed := c.handed ++ [s] } := by
    simp [Chat.update, hpending, hs]
  rw [heq]
  refine ⟨?_, ?_, h.increasing, ?_, ?_, h.discarded, ?_⟩
  · intro s' hs'
    cases hpending.symm.trans hs'
  · intro s' hs'
    show ∃ day, row.bind Row.handoverDay = _ ∧ _
    rw [hday]
    exact h.bounded s' hs'
  · rw [← List.concat_eq_append]
    exact h.handed.concat hnew
  · intro s' hs'
    rcases List.mem_append.1 hs' with hold | hlast
    · exact h.written s' hold
    · rw [List.mem_singleton.1 hlast]
      exact hmem
  · intro s' hs'
    show _ ∨ s' ∈ c.handed ++ [s] ∨ _
    rcases h.kept s' hs' with hw | hh | hd
    · rw [hs] at hw
      cases hw
      simp
    · simp [hh]
    · simp [hd]

/-- The summary of a later day is written. -/
theorem Delivery.write (h : Delivery c) {s : Summary} (hlater : ∀ day ∈ c.handoverDay, day < s.day)
    (hpending : pending row = some s) (hday : row.bind Row.handoverDay = some s.day) :
    Delivery (c.update row none) := by
  -- The day is later than every day before, so the summary is new.
  have hbelow : ∀ s' ∈ c.summaries, s'.day < s.day := by
    intro s' hs'
    obtain ⟨day, hhandover, hle⟩ := h.bounded s' hs'
    exact lt_of_le_of_lt hle (hlater day hhandover)
  have hnew : s ∉ c.summaries := fun hmem => lt_irrefl _ (hbelow s hmem)
  have hneq : ∀ s', c.waiting = some s' → s ≠ s' := by
    intro s' hs' heq
    exact hnew (heq ▸ (h.waiting s' hs').2.1)
  have hdrop : (c.waiting.filter fun s' =>
      decide (pending row ≠ some s' ∧ none ≠ some s')).toList = c.waiting.toList := by
    rw [hpending]
    cases hw : c.waiting with
    | none => rfl
    | some s' => simp [hneq s' hw]
  -- The summary that was waiting is replaced.
  have heq : c.update row none = { c with
      row
      summaries := c.summaries ++ [s]
      discarded := c.discarded ++ c.waiting.toList.map (⟨·, some s⟩) } := by
    simp only [Chat.update, hdrop]
    simp [hpending, hnew]
  rw [heq]
  refine ⟨?_, ?_, ?_, h.handed, ?_, ?_, ?_⟩
  · intro s' hs'
    cases hpending.symm.trans hs'
    exact ⟨hday, by simp, fun hmem => hnew (h.written s hmem)⟩
  · intro s' hs'
    refine ⟨s.day, hday, ?_⟩
    rcases List.mem_append.1 hs' with hold | hlast
    · exact (hbelow s' hold).le
    · rw [List.mem_singleton.1 hlast]
  · -- The new day comes after the old ones.
    rw [List.map_append, List.pairwise_append]
    refine ⟨h.increasing, List.pairwise_singleton .., ?_⟩
    intro day hold day' hlast
    obtain ⟨s', hs', rfl⟩ := List.mem_map.1 hold
    rw [show day' = s.day by simpa using hlast]
    exact hbelow s' hs'
  · intro s' hs'
    exact List.mem_append_left _ (h.written s' hs')
  · intro x hx
    rcases List.mem_append.1 hx with hold | hlast
    · exact h.discarded x hold
    · obtain ⟨s', hs', rfl⟩ := List.mem_map.1 hlast
      have hmem := (h.waiting s' (Option.mem_toList.1 hs')).2.1
      exact ⟨s, rfl, hbelow s' hmem⟩
  · intro s' hs'
    show pending row = some s' ∨ _ ∨ ∃ x ∈ c.discarded ++ _, _
    rcases List.mem_append.1 hs' with hold | hlast
    · rcases h.kept s' hold with hw | hh | ⟨x, hx, hxs⟩
      · -- What was waiting is among the discarded now, and says what has replaced it.
        refine .inr (.inr ⟨⟨s', some s⟩, ?_, rfl⟩)
        simp [hw]
      · exact .inr (.inl hh)
      · exact .inr (.inr ⟨x, List.mem_append_left _ hx, hxs⟩)
    · rw [List.mem_singleton.1 hlast]
      exact .inl hpending

theorem Delivery.claim (h : Delivery c) (claimed : List Claim) : Delivery { c with claimed } :=
  ⟨h.waiting, h.bounded, h.increasing, h.handed, h.written, h.discarded, h.kept⟩

theorem delivery_consume (h : Delivery c) {prior : Option (Row Summary)}
    (hsame : ∀ old ∈ pending prior, ∀ s ∈ c.waiting, s = old) :
    Delivery (c.update (consumePendingContext prior c.row).1
      (consumePendingContext prior c.row).2) := by
  unfold consumePendingContext
  split
  next p r hrow =>
    split
    next hboth =>
      obtain ⟨old, hold⟩ := Option.isSome_iff_exists.1 hboth.1
      obtain ⟨s, hs⟩ := Option.isSome_iff_exists.1 hboth.2
      have hwaiting : c.waiting = some s := by simp [Chat.waiting, pending, hrow, hs]
      have hcontext : p.pendingContext = some s := by
        rw [hsame old hold s hwaiting]
        exact hold
      dsimp only
      rw [hcontext]
      apply h.take hwaiting rfl
      simp [Chat.handoverDay, hrow]
    · apply h.same
      · rw [Chat.waiting, hrow]
      · rw [Chat.handoverDay, hrow]
  · exact h.same rfl rfl

theorem delivery_complete (h : Delivery c) (today closingDay : Day) (summary : Option Text)
    (horder : InOrder c (.complete today summary closingDay) (some none)) :
    Delivery (c.update (completeRotation c.row today (summary.map (c.summary closingDay))
      (some closingDay)) none) := by
  cases hrow : c.row with
  | none => exact h.same (by rw [Chat.waiting, hrow]; rfl) (by rw [Chat.handoverDay, hrow]; rfl)
  | some r =>
    cases summary with
    | none =>
      apply h.same
      · exact (horder rfl).symm
      · simp [completeRotation, Chat.handoverDay, hrow]
    | some text =>
      apply h.write (s := c.summary closingDay text) (horder rfl)
      · simp [completeRotation, pending]
      · simp [completeRotation, Chat.summary]

theorem delivery_store (h : Delivery c) (closingDay : Day) (summary : Text)
    (horder : ∀ day ∈ c.handoverDay, day ≤ closingDay) :
    Delivery (c.update (storeDayHandover c.row closingDay (c.summary closingDay summary)) none) := by
  cases hrow : c.row with
  | none =>
    apply h.write (s := c.summary closingDay summary)
    · intro day hday
      rw [Chat.handoverDay, hrow] at hday
      cases hday
    · rfl
    · rfl
  | some r =>
    unfold storeDayHandover
    dsimp only
    by_cases hwritten : r.handoverDay = some closingDay
    · rw [if_neg (not_not_intro hwritten)]
      exact h.same (by rw [Chat.waiting, hrow]) (by rw [Chat.handoverDay, hrow])
    · rw [if_pos hwritten]
      apply h.write (s := c.summary closingDay summary)
      · intro day hday
        have hle := horder day hday
        rw [Chat.handoverDay, hrow] at hday
        apply lt_of_le_of_ne hle
        rintro rfl
        exact hwritten hday
      · rfl
      · rfl

/-- A claim leaves the summaries alone. -/
theorem delivery_claim (h : Delivery c) (prior : Option (Row Summary)) (today : Day) :
    Delivery (c.update (claimRolledOverSession prior c.row today).1 none) := by
  unfold claimRolledOverSession
  split
  next p r hrow =>
    split
    · apply h.same
      · simp [Chat.waiting, hrow, pending]
      · simp [Chat.handoverDay, hrow]
    · apply h.same
      · rw [Chat.waiting, hrow]
      · rw [Chat.handoverDay, hrow]
  · exact h.same rfl rfl

theorem delivery_step (h : Delivery c) {req : Request} {answer : Option Text}
    (horder : InOrder c req (some answer)) : Delivery (step c req answer).1 := by
  cases req with
  | door today => exact h
  | claim today prior => exact (delivery_claim h prior today).claim _
  | message => exact h
  | consume prior => exact delivery_consume h (horder rfl)
  | turn today sessionId =>
    apply h.same
    · cases hrow : c.row with
      | none => rw [Chat.waiting, hrow]; rfl
      | some r => rw [Chat.waiting, hrow]; rfl
    · cases hrow : c.row with
      | none => rw [Chat.handoverDay, hrow]; rfl
      | some r => rw [Chat.handoverDay, hrow]; rfl
  | record today sessionId state =>
    apply h.same
    · simp [recordServingSession, Chat.waiting, pending, Option.bind_map]
    · simp [recordServingSession, Chat.handoverDay, Option.bind_map]
  | rotate today state =>
    unfold step
    dsimp only
    split
    · exact h
    · split
      · apply h.same
        · simp [advanceRotationDay, Chat.waiting, pending, Option.bind_map]
        · simp [advanceRotationDay, Chat.handoverDay, Option.bind_map]
      · exact h
  | complete today summary closingDay => exact delivery_complete h today closingDay summary horder
  | handover closingDay => exact h
  | summarize closingDay => exact h
  | store closingDay summary => exact delivery_store h closingDay summary (horder rfl)

/-! ## Section 5: Sessions -/

theorem Retirement.same (h : Retirement c) (handed : Option Summary)
    (hsession : row.bind Row.sessionId = c.sessionId) : Retirement (c.update row handed) where
  live := by
    intro id hid
    exact h.live id (hsession.symm.trans hid)
  claimed := h.claimed
  behind := h.behind

theorem retirement_claim (h : Retirement c) {prior : Option (Row Summary)} {today : Day}
    (hsame : ∀ old ∈ prior, old.behind today = true → ∀ row ∈ c.row, row.behind today = true →
      row.sessionId = old.sessionId) :
    Retirement (step c (.claim today prior) none).1 := by
  unfold step claimRolledOverSession
  dsimp only
  split
  next p r hrow =>
    split
    next hboth =>
      have hid : r.sessionId = p.sessionId := hsame p rfl hboth.1 r hrow hboth.2
      obtain ⟨hsome, hbehind⟩ := Bool.and_eq_true_iff.1 hboth.1
      obtain ⟨id, hp⟩ := Option.isSome_iff_exists.1 hsome
      have hnew : ∀ x ∈ c.claimed, x.session ≠ id := by
        apply h.live id
        simp [Chat.sessionId, hrow, hid, hp]
      refine ⟨?_, ?_, ?_⟩
      · intro id' hid'
        cases hid'
      · show (List.map Claim.session (c.claimed ++ _)).Nodup
        rw [hp]
        simp only [Option.toList_some, List.map_append, List.map_cons, List.map_nil]
        rw [← List.concat_eq_append]
        apply h.claimed.concat
        intro hmem
        obtain ⟨x, hx, hxid⟩ := List.mem_map.1 hmem
        exact hnew x hx hxid
      · intro x hx
        rcases List.mem_append.1 hx with hold | hlast
        · exact h.behind x hold
        · rw [hp] at hlast
          rw [List.mem_singleton.1 hlast]
          exact of_decide_eq_true hbehind
    · have hkeep : Retirement (c.update (some r) none) := h.same none (by rw [Chat.sessionId, hrow])
      simp only [Option.toList_none, List.map_nil, List.append_nil]
      exact hkeep
  · have hkeep : Retirement (c.update c.row none) := h.same none rfl
    simp only [Option.toList_none, List.map_nil, List.append_nil]
    exact hkeep

theorem retirement_step (h : Retirement c) {req : Request} {answer : Option Text}
    (horder : InOrder c req (some answer)) : Retirement (step c req answer).1 := by
  cases req with
  | door today => exact h
  | claim today prior => exact retirement_claim h (horder rfl)
  | message => exact h
  | consume prior =>
    apply h.same
    unfold consumePendingContext
    split
    next p r hrow =>
      split
      · rw [Chat.sessionId, hrow]; rfl
      · rw [Chat.sessionId, hrow]
    · rfl
  | turn today sessionId =>
    apply h.same
    cases hrow : c.row with
    | none => rw [Chat.sessionId, hrow]; rfl
    | some r => rw [Chat.sessionId, hrow]; rfl
  | record today sessionId state =>
    -- The one step that writes a session id, and it writes the serving one.
    refine ⟨?_, h.claimed, h.behind⟩
    intro id hid
    cases hrow : c.row with
    | none =>
      rw [show (step c (.record today sessionId state) answer).1.sessionId = none by
        simp [step, Chat.update, Chat.sessionId, recordServingSession, hrow]] at hid
      cases hid
    | some r =>
      rw [show (step c (.record today sessionId state) answer).1.sessionId = some sessionId by
        simp [step, Chat.update, Chat.sessionId, recordServingSession, hrow]] at hid
      cases hid
      exact horder rfl
  | rotate today state =>
    unfold step
    dsimp only
    split
    · exact h
    · split
      · apply h.same
        simp [advanceRotationDay, Chat.sessionId, Option.bind_map]
      · exact h
  | complete today summary closingDay =>
    -- Summaries and days are not what this is about.
    apply h.same
    simp [completeRotation, Chat.sessionId, Option.bind_map]
  | handover closingDay => exact h
  | summarize closingDay => exact h
  | store closingDay summary =>
    cases hrow : c.row with
    | none =>
      apply h.same
      rw [Chat.sessionId, hrow]
      rfl
    | some r =>
      apply h.same
      rw [Chat.sessionId, hrow]
      unfold storeDayHandover
      dsimp only
      split
      · rfl
      · rfl

/-! ## Section 6: Runs -/

theorem requests_keeps : requests.Keeps InOrder (fun c => Delivery c ∧ Retirement c)
    (fun _ _ => True) (fun _ _ => True) where
  refl := by
    intros
    trivial
  trans := by
    intros
    trivial
  stable := by
    intros
    trivial
  begins := by
    intros
    trivial
  step := by
    intro c req answer c' left h _ horder hstep
    obtain rfl : (step c req answer).1 = c' := congrArg Prod.fst (Option.some.inj hstep)
    exact ⟨⟨delivery_step h.1 horder, retirement_step h.2 horder⟩, trivial, fun _ _ => trivial⟩
  happens := by
    intro c event
    exact event.elim

theorem delivery_fresh : Delivery Chat.fresh := by
  refine ⟨?_, ?_, List.Pairwise.nil, List.nodup_nil, ?_, ?_, ?_⟩
  · intro s hs
    cases hs
  · intro s hs
    cases hs
  · intro s hs
    cases hs
  · intro x hx
    cases hx
  · intro s hs
    cases hs

theorem retirement_fresh : Retirement Chat.fresh := by
  refine ⟨?_, List.nodup_nil, ?_⟩
  · intro id hid
    cases hid
  · intro x hx
    cases hx

/-- **A summary is delivered once**, in every state of a run whose steps are in order. -/
theorem rotation_delivers {s t : Requests.State Chat Request}
    {labels : List (Requests.Label Request (Option Text) Empty)} (hinit : rotation.init s)
    (horder : rotation.AllSteps (Requests.Meets InOrder) s labels)
    (hrun : rotation.run s labels = some t) : Delivered t.shared := by
  have hfresh : ∀ c, c = Chat.fresh → Delivery c ∧ Retirement c := by
    rintro c rfl
    exact ⟨delivery_fresh, retirement_fresh⟩
  obtain ⟨⟨⟨hdelivery, hretirement⟩, -⟩, -⟩ :=
    requests_keeps.run (Requests.inv_init hfresh hinit) horder hrun
  refine ⟨hdelivery.increasing.imp ?_, hdelivery.handed, hdelivery.written, hdelivery.discarded,
    hdelivery.kept, hretirement.claimed, hretirement.behind⟩
  intro day day' hlt
  exact hlt.ne

/-! ## Section 7: One night -/

def start : Requests.State Chat Request := ⟨Chat.fresh, fun _ => none⟩

/-- A turn completes on day 1, and after midnight the hand-over waits for its summary. -/
def untilMidnight : List (Requests.Label Request (Option Text) Empty) :=
  [.call 0 (.turn 1 (some ['a'])), .step 0 none, .step 0 none, .step 0 none,
    .call 1 (.handover 1), .step 1 none, .step 1 (some ['x'])]

/-- The summary is stored, the next message takes it, and its turn only moves the day. -/
def nextMorning : List (Requests.Label Request (Option Text) Empty) :=
  [.step 1 none, .call 2 (.door 2), .step 2 none, .step 2 none, .call 3 .message, .step 3 none,
    .step 3 none, .call 4 (.turn 2 (some ['b'])), .step 4 none, .step 4 none, .step 4 none]

theorem rotation_delivers_night : ∃ t, rotation.run start (untilMidnight ++ nextMorning) = some t ∧
    Delivered t.shared ∧ t.shared.handed = [⟨1, 0, ['x']⟩] ∧
    t.shared.claimed = [⟨['a'], some 1, 2⟩] := by
  have hrun : rotation.run start (untilMidnight ++ nextMorning) = some _ := rfl
  refine ⟨_, hrun, rotation_delivers ⟨rfl, fun _ => rfl⟩ ?_ hrun, ?_, ?_⟩
  · decide +kernel
  · decide +kernel
  · decide +kernel

/-- A turn of day 2 has read the row before the hand-over stores its summary. -/
def sameMinute : List (Requests.Label Request (Option Text) Empty) :=
  [.call 2 (.turn 2 (some ['b'])), .step 2 none, .step 2 none, .step 2 (some ['y']),
    .step 1 none, .step 2 none]

/-- Day 1 is summarized twice, and its first summary is lost. -/
theorem day_summarized_twice : rotation.init start ∧
    ∃ t, rotation.run start (untilMidnight ++ sameMinute) = some t ∧
      t.shared.summaries = [⟨1, 0, ['x']⟩, ⟨1, 1, ['y']⟩] ∧
      t.shared.discarded = [⟨⟨1, 0, ['x']⟩, some ⟨1, 1, ['y']⟩⟩] ∧ ¬Delivered t.shared := by
  have hrun : rotation.run start (untilMidnight ++ sameMinute) = some _ := rfl
  refine ⟨⟨rfl, fun _ => rfl⟩, _, hrun, ?_, ?_, ?_⟩
  · decide +kernel
  · decide +kernel
  · intro h
    have honce := h.once
    revert honce
    decide +kernel

end Lares.Telegram
