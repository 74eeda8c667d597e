import Lares.Dream.Cycle

/-! # Every owner turn is learned from once

    The cursor of the latest note divides the turns: each one up to it was in
    the batch of one completed cycle, and none after it was in any.

    * **Origins**: what the owner is on record for cites turns of the batch.
    * **Reading**: both sources together have every turn since the cursor.
    * **Runs**: the cursor divides the turns, unless a turn comes in behind a
      cycle, a cursor is written that the reading does not reach, or a cycle
      stops half way through what it records.
-/

namespace Lares.Dream

/-! ## Section 1: Safety -/

structure LearnedOnce (s : State) : Prop where
  once : ∀ t ∈ s.turns, t.scheduled = false → ∀ c ∈ s.completed, t.time < c.cursor →
    s.completed.countP (fun c => decide (t ∈ c.batch)) = 1
  /-- What is counted as said by the owner is drawn from turns. -/
  drawn : ∀ r ∈ s.sightings, r.observation.origin = .owner → r.drawnFrom ≠ []
  sighted : ∀ r ∈ s.sightings, ∀ r' ∈ s.sightings, r.observation.origin = .owner →
    r'.observation.origin = .owner → ∀ t ∈ r.drawnFrom, t ∈ r'.drawnFrom → r.cycle = r'.cycle

/-- The clock is not behind the cursor, nor behind a turn that was read; a turn that came after
    the table was read is not older than the cursor that is written. -/
structure Ahead (s : State) (cycle : Reflected) : Prop where
  since : cycle.since ≤ cycle.now
  read : ∀ t ∈ cycle.batch, t.time ≤ cycle.now
  late : ∀ t ∈ s.turns.drop cycle.seen, t.scheduled = false → t ∈ cycle.batch ∨ cycle.now < t.time

section Runs

variable (cutOver : Time)

def Undisturbed (s : State) (label : Label) : Prop :=
  match label, s.running with
  | .append turn, _ => turn.scheduled = true ∨ cursorOf s.notes < turn.time
  | .step .unreadable, _ => False
  | .step (.logs unreadable), some (.logs since _ _) =>
      ∀ t ∈ s.turns, t.inTable cutOver = false → t.scheduled = false → since < t.time →
        t.id ∉ unreadable
  | .step .committed, some (.promote cycle []) => Ahead s cycle
  | .step .uncommitted, some (.promote cycle []) => Ahead s cycle ∧ cycle.entries = []
  -- a cycle that stops has recorded nothing of the owner's
  | .fail, some (.promote _ _) =>
      ∀ r ∈ s.sightings, r.cycle = s.started → r.observation.origin ≠ .owner
  | _, _ => True

/-! ## Section 2: Origins -/

theorem narrower_owner {worst o : Origin} (h : narrower worst o = .owner) :
    worst = .owner ∧ o = .owner := by
  cases worst <;> cases o <;> first | exact ⟨rfl, rfl⟩ | cases h

theorem narrowest_owner {first : Origin} {rest : List Origin}
    (h : narrowest first rest = .owner) : first = .owner ∧ ∀ o ∈ rest, o = .owner := by
  induction rest generalizing first with
  | nil => exact ⟨h, by simp⟩
  | cons o rest ih =>
    obtain ⟨hnarrower, hrest⟩ := ih (show narrowest (narrower first o) rest = .owner from h)
    obtain ⟨hfirst, ho⟩ := narrower_owner hnarrower
    refine ⟨hfirst, ?_⟩
    intro o' ho'
    rcases List.mem_cons.1 ho' with rfl | ho'
    · exact ho
    · exact hrest o' ho'

theorem originAt_owner {entries : List TurnLogEntry} {ref : Time}
    (h : originAt entries ref = .owner) :
    ∃ e ∈ entries, e.turn.time = ref ∧ e.origin = some .owner := by
  unfold originAt at h
  split at h
  · cases h
  · next first rest hmap =>
    have hfirst := (narrowest_owner h).1
    have hmem : first ∈ (entries.filter fun e => e.turn.time = ref).map fun e =>
        e.origin.getD .thirdParty := by
      rw [hmap]
      exact List.mem_cons_self
    obtain ⟨e, he, heq⟩ := List.mem_map.1 hmem
    obtain ⟨hentry, htime⟩ := List.mem_filter.1 he
    refine ⟨e, hentry, of_decide_eq_true htime, ?_⟩
    cases horigin : e.origin with
    | none =>
      rw [horigin, hfirst] at heq
      cases heq
    | some o =>
      rw [horigin, hfirst] at heq
      exact congrArg some heq

/-- **The owner's observations** cite turns of the batch, and each of them is the owner's. -/
theorem originForObservation_owner {refs : List Time} {entries : List TurnLogEntry}
    (h : originForObservation refs entries = .owner) :
    refs ≠ [] ∧ ∀ ref ∈ refs, ∃ e ∈ entries, e.turn.time = ref ∧ e.origin = some .owner := by
  cases refs with
  | nil => cases h
  | cons ref refs =>
    obtain ⟨hfirst, hrest⟩ := narrowest_owner h
    refine ⟨by simp, ?_⟩
    intro ref' href
    rcases List.mem_cons.1 href with rfl | href
    · exact originAt_owner hfirst
    · exact originAt_owner (hrest _ (List.mem_map_of_mem href))

/-! ## Section 3: Reading -/

variable {cutOver}

theorem mem_rowsSince {turns : List Turn} {since : Time} {t : Turn} :
    t ∈ rowsSince cutOver turns since ↔
      t ∈ turns ∧ t.inTable cutOver = true ∧ since < t.time ∧ t.scheduled = false := by
  simp [rowsSince, List.mem_insertionSort, and_assoc]

theorem mem_readConversationLogs {turns : List Turn} {since : Time} {unreadable : List Nat}
    {t : Turn} : t ∈ readConversationLogs cutOver turns since unreadable ↔
      t ∈ turns ∧ t.inTable cutOver = false ∧ t.id ∉ unreadable ∧ t.scheduled = false ∧
        since < t.time := by
  simp [readConversationLogs, List.mem_insertionSort, and_assoc]

/-- Logs are older than rows, so none of them is left out. -/
theorem gapEntries_eq {rows logs : List Turn} (hrows : ∀ t ∈ rows, t.inTable cutOver = true)
    (hlogs : ∀ t ∈ logs, t.inTable cutOver = false) : gapEntries rows logs = logs := by
  unfold gapEntries
  split
  · rfl
  next boundary hhead =>
    apply List.filter_eq_self.2
    intro t ht
    have hboundary := hrows boundary (List.mem_of_mem_head? hhead)
    have ht := hlogs t ht
    simp only [Turn.inTable, decide_eq_true_eq, decide_eq_false_iff_not, not_le] at hboundary ht ⊢
    exact lt_of_lt_of_le ht hboundary

theorem mem_joinSources {rows logs : List Turn} (hrows : ∀ t ∈ rows, t.inTable cutOver = true)
    (hlogs : ∀ t ∈ logs, t.inTable cutOver = false) {t : Turn} :
    t ∈ (joinSources rows logs).map TurnLogEntry.turn ↔ t ∈ rows ∨ t ∈ logs := by
  unfold joinSources
  rw [gapEntries_eq hrows hlogs]
  simp only [List.mem_map, List.mem_insertionSort, List.mem_append]
  constructor
  · rintro ⟨e, ⟨t, ht, rfl⟩ | ⟨t, ht, rfl⟩, rfl⟩
    · exact .inr ht
    · exact .inl ht
  · rintro (ht | ht)
    · exact ⟨ofRow t, .inr ⟨t, ht, rfl⟩, rfl⟩
    · exact ⟨ofLog t, .inl ⟨t, ht, rfl⟩, rfl⟩

/-- The turns that a cycle reflects on: unscheduled, since the cursor, and all of those that
    there were when it read the table. -/
structure Whole (s : State) (since : Time) (batch : List Turn) (seen : Nat) : Prop where
  since_lt : ∀ t ∈ batch, t.scheduled = false ∧ since < t.time
  complete : ∀ t ∈ s.turns.take seen, t.scheduled = false → since < t.time → t ∈ batch

/-- **Where the table reaches back to the cursor**, no log is in the window. -/
theorem whole_rows {s : State} {since : Time} {seen : Nat} {first : Turn}
    (hfirst : first.inTable cutOver = true) (hreaches : first.time ≤ since) :
    Whole s since ((rowsSince cutOver (s.turns.take seen) since).map ofRow |>.map
      TurnLogEntry.turn) seen := by
  have hmap : ((rowsSince cutOver (s.turns.take seen) since).map ofRow).map TurnLogEntry.turn =
      rowsSince cutOver (s.turns.take seen) since := by
    rw [List.map_map]
    exact List.map_id _
  rw [hmap]
  refine ⟨?_, ?_⟩
  · intro t ht
    obtain ⟨-, -, hsince, hspoken⟩ := mem_rowsSince.1 ht
    exact ⟨hspoken, hsince⟩
  · intro t ht hspoken hsince
    refine mem_rowsSince.2 ⟨ht, ?_, hsince, hspoken⟩
    simp only [Turn.inTable, decide_eq_true_eq] at hfirst ⊢
    exact hfirst.trans (hreaches.trans hsince.le)

/-- **Where it does not**, the logs fill the gap. -/
theorem whole_joinSources {s : State} {since : Time} {seen : Nat} {unreadable : List Nat}
    (hreadable : ∀ t ∈ s.turns, t.inTable cutOver = false → t.scheduled = false →
      since < t.time → t.id ∉ unreadable) :
    Whole s since ((joinSources (rowsSince cutOver (s.turns.take seen) since)
      (readConversationLogs cutOver s.turns since unreadable)).map TurnLogEntry.turn) seen := by
  have hmem : ∀ t, t ∈ (joinSources (rowsSince cutOver (s.turns.take seen) since)
        (readConversationLogs cutOver s.turns since unreadable)).map TurnLogEntry.turn ↔
      t ∈ rowsSince cutOver (s.turns.take seen) since ∨
        t ∈ readConversationLogs cutOver s.turns since unreadable := by
    intro t
    apply mem_joinSources
    · exact fun t ht => (mem_rowsSince.1 ht).2.1
    · exact fun t ht => (mem_readConversationLogs.1 ht).2.1
  refine ⟨?_, ?_⟩
  · intro t ht
    rcases (hmem t).1 ht with ht | ht
    · obtain ⟨-, -, hsince, hspoken⟩ := mem_rowsSince.1 ht
      exact ⟨hspoken, hsince⟩
    · obtain ⟨-, -, -, hspoken, hsince⟩ := mem_readConversationLogs.1 ht
      exact ⟨hspoken, hsince⟩
  · intro t ht hspoken hsince
    apply (hmem t).2
    by_cases htable : t.inTable cutOver = true
    · exact .inl (mem_rowsSince.2 ⟨ht, htable, hsince, hspoken⟩)
    · have htable : t.inTable cutOver = false := by simpa using htable
      have hturn := List.mem_of_mem_take ht
      exact .inr (mem_readConversationLogs.2
        ⟨hturn, htable, hreadable t hturn htable hspoken hsince, hspoken, hsince⟩)

/-! ## Section 4: The cursor -/

/-- The notes are dated by their cursors. -/
def NotesOk (notes : List Note) : Prop :=
  ∀ n ∈ notes, n.day = dayOf n.cursor ∧ n.cursor ≤ cursorOf notes

theorem dayOf_mono {a b : Time} (h : a ≤ b) : dayOf a ≤ dayOf b := Nat.div_le_div_right h

/-- The note that is written last is the latest. -/
theorem cursorOf_writeNote {notes : List Note} {now : Time} (h : NotesOk notes)
    (hnow : cursorOf notes ≤ now) : cursorOf (writeNote notes now) = now := by
  unfold cursorOf writeNote
  rw [List.argmax_concat]
  cases hmax : List.argmax Note.day (notes.filter fun n => n.day ≠ dayOf now) with
  | none => rfl
  | some n =>
    have hmem := List.argmax_mem hmax
    obtain ⟨hnote, hday⟩ := List.mem_filter.1 hmem
    obtain ⟨hdated, hcursor⟩ := h n hnote
    have hle : n.day ≤ dayOf now := hdated ▸ dayOf_mono (hcursor.trans hnow)
    have hlt : n.day < dayOf now := lt_of_le_of_ne hle (of_decide_eq_true hday)
    simp [hlt]

theorem notesOk_writeNote {notes : List Note} {now : Time} (h : NotesOk notes)
    (hnow : cursorOf notes ≤ now) : NotesOk (writeNote notes now) := by
  intro n hn
  rw [cursorOf_writeNote h hnow]
  rcases List.mem_append.1 hn with hn | hn
  · obtain ⟨hdated, hcursor⟩ := h n (List.mem_filter.1 hn).1
    exact ⟨hdated, hcursor.trans hnow⟩
  · rw [List.mem_singleton.1 hn]
    exact ⟨rfl, le_refl _⟩

/-! ## Section 5: Every step divides the turns -/

variable (cutOver)

/-- Nothing is recorded yet. -/
def Fresh (s : State) : Prop := ∀ r ∈ s.sightings, r.cycle ≠ s.started

def PhaseOk (s : State) : Phase → Prop
  | .resolve => Fresh s
  | .query since => Fresh s ∧ since = cursorOf s.notes
  | .earliest since rows seen | .logs since rows seen =>
      Fresh s ∧ since = cursorOf s.notes ∧ seen ≤ s.turns.length ∧
        rows = rowsSince cutOver (s.turns.take seen) since
  | .reflect since entries seen =>
      Fresh s ∧ since = cursorOf s.notes ∧ seen ≤ s.turns.length ∧
        Whole s since (entries.map TurnLogEntry.turn) seen
  | .promote cycle left =>
      cycle.since = cursorOf s.notes ∧ cycle.seen ≤ s.turns.length ∧
        Whole s cycle.since cycle.batch cycle.seen ∧
        (∀ obs ∈ left, obs.origin = originForObservation obs.evidenceRefs cycle.entries) ∧
        ∀ r ∈ s.sightings, r.cycle = s.started → ∀ t ∈ r.drawnFrom, t ∈ cycle.batch

/-- The cycle that runs may still cite what it has read. -/
def Past (s : State) (r : Sighting) : Prop := s.running = none ∨ r.cycle ≠ s.started

/-- The cursor divides the turns. -/
structure Divided (s : State) : Prop where
  /-- Time is positive. -/
  positive : ∀ t ∈ s.turns, 0 < t.time
  /-- The notes are readable. -/
  notes : NotesOk s.notes
  /-- No completed cycle is beyond the cursor. -/
  cursors : ∀ c ∈ s.completed, c.cursor ≤ cursorOf s.notes
  /-- A turn before the cursor was learned from once. -/
  old : ∀ t ∈ s.turns, t.scheduled = false → t.time ≤ cursorOf s.notes →
    s.completed.countP (fun c => decide (t ∈ c.batch)) = 1
  /-- One after it was not. -/
  young : ∀ t, cursorOf s.notes < t.time → ∀ c ∈ s.completed, t ∉ c.batch
  /-- Where a cycle stands. -/
  phase : ∀ phase ∈ s.running, PhaseOk cutOver s phase
  /-- Sightings are of cycles that have begun. -/
  numbered : ∀ r ∈ s.sightings, r.cycle ≤ s.started
  /-- What is recorded was drawn from turns before the cursor. -/
  past : ∀ r ∈ s.sightings, r.observation.origin = .owner → Past s r →
    ∀ t ∈ r.drawnFrom, t.time ≤ cursorOf s.notes
  /-- It was drawn from some turn. -/
  drawn : ∀ r ∈ s.sightings, r.observation.origin = .owner → r.drawnFrom ≠ []
  /-- And no turn is drawn from in two cycles. -/
  sighted : ∀ r ∈ s.sightings, ∀ r' ∈ s.sightings, r.observation.origin = .owner →
    r'.observation.origin = .owner → ∀ t ∈ r.drawnFrom, t ∈ r'.drawnFrom → r.cycle = r'.cycle

variable {cutOver} {s t : State}

theorem Divided.learnedOnce (h : Divided cutOver s) : LearnedOnce s := by
  refine ⟨?_, h.drawn, h.sighted⟩
  intro turn hturn hspoken c hc htime
  exact h.old turn hturn hspoken (htime.le.trans (h.cursors c hc))

theorem divided_init : Divided cutOver ⟨[], [], [], [], 0, none⟩ := by
  constructor <;> simp
  intro n hn
  cases hn

theorem Whole.append {since : Time} {batch : List Turn} {seen : Nat} (h : Whole s since batch seen)
    (hseen : seen ≤ s.turns.length) (turn : Turn) :
    Whole { s with turns := s.turns ++ [turn] } since batch seen := by
  refine ⟨h.since_lt, ?_⟩
  intro t ht
  rw [List.take_append_of_le_length hseen] at ht
  exact h.complete t ht

theorem PhaseOk.append {phase : Phase} (h : PhaseOk cutOver s phase) (turn : Turn) :
    PhaseOk cutOver { s with turns := s.turns ++ [turn] } phase := by
  have hlength : ∀ {seen}, seen ≤ s.turns.length → seen ≤ (s.turns ++ [turn]).length := by
    intro seen hseen
    rw [List.length_append]
    omega
  cases phase with
  | resolve => exact h
  | query since => exact h
  | earliest since rows seen =>
    obtain ⟨hfresh, hsince, hseen, hrows⟩ := h
    exact ⟨hfresh, hsince, hlength hseen,
      by rw [List.take_append_of_le_length hseen]; exact hrows⟩
  | logs since rows seen =>
    obtain ⟨hfresh, hsince, hseen, hrows⟩ := h
    exact ⟨hfresh, hsince, hlength hseen,
      by rw [List.take_append_of_le_length hseen]; exact hrows⟩
  | reflect since entries seen =>
    obtain ⟨hfresh, hsince, hseen, hwhole⟩ := h
    exact ⟨hfresh, hsince, hlength hseen, hwhole.append hseen turn⟩
  | promote cycle left =>
    obtain ⟨hsince, hseen, hwhole, hleft⟩ := h
    exact ⟨hsince, hlength hseen, hwhole.append hseen turn, hleft⟩

/-- A turn comes in ahead of the cursor. -/
theorem divided_append {turn : Turn} (h : Divided cutOver s) (hpositive : 0 < turn.time)
    (hahead : turn.scheduled = true ∨ cursorOf s.notes < turn.time) :
    Divided cutOver { s with turns := s.turns ++ [turn] } where
  positive := by
    intro t ht
    rcases List.mem_append.1 ht with ht | ht
    · exact h.positive t ht
    · rw [List.mem_singleton.1 ht]
      exact hpositive
  notes := h.notes
  cursors := h.cursors
  old := by
    intro t ht hspoken htime
    rcases List.mem_append.1 ht with ht | ht
    · exact h.old t ht hspoken htime
    · rw [List.mem_singleton.1 ht] at hspoken htime
      rcases hahead with hscheduled | hahead
      · rw [hspoken] at hscheduled
        cases hscheduled
      · exact absurd htime (not_le.2 hahead)
  young := h.young
  phase phase hphase := (h.phase phase hphase).append turn
  numbered := h.numbered
  past := h.past
  drawn := h.drawn
  sighted := h.sighted

/-- The cycle goes on without a record. -/
theorem Divided.move {phase : Phase} (h : Divided cutOver s)
    (hphase : PhaseOk cutOver { s with running := some phase } phase) :
    Divided cutOver { s with running := some phase } := by
  refine ⟨h.positive, h.notes, h.cursors, h.old, h.young, ?_, h.numbered, ?_, h.drawn, h.sighted⟩
  · intro phase' hphase'
    cases hphase'
    exact hphase
  · intro r hr howner hpast
    rcases hpast with hnone | hcycle
    · cases hnone
    · exact h.past r hr howner (.inr hcycle)

theorem divided_start (h : Divided cutOver s) (hrunning : s.running = none) :
    Divided cutOver { s with started := s.started + 1, running := some .resolve } := by
  refine ⟨h.positive, h.notes, h.cursors, h.old, h.young, ?_, ?_, ?_, h.drawn, h.sighted⟩
  · intro phase hphase
    cases hphase
    intro r hr
    have := h.numbered r hr
    show r.cycle ≠ s.started + 1
    omega
  · intro r hr
    exact (h.numbered r hr).trans (Nat.le_succ _)
  · intro r hr howner _
    exact h.past r hr howner (.inl hrunning)

/-- A cycle stops that has recorded nothing of the owner's. -/
theorem divided_stop (h : Divided cutOver s)
    (hnothing : ∀ r ∈ s.sightings, r.observation.origin = .owner → Past s r) :
    Divided cutOver { s with running := none } := by
  refine ⟨h.positive, h.notes, h.cursors, h.old, h.young, ?_, h.numbered, ?_, h.drawn, h.sighted⟩
  · intro phase hphase
    cases hphase
  · intro r hr howner _
    exact h.past r hr howner (hnothing r hr howner)

/-- **A record** of the cycle that runs is drawn from its batch, which is after the cursor. -/
theorem divided_record {cycle : Reflected} {obs : Observation} {left : List Observation}
    (h : Divided cutOver s) (hrunning : s.running = some (.promote cycle (obs :: left))) :
    Divided cutOver { s with
      sightings := s.sightings ++ [record s cycle obs]
      running := some (.promote cycle left) } := by
  obtain ⟨hsince, hseen, hwhole, horigins, hbatch⟩ := h.phase _ hrunning
  have hdrawn : ∀ t ∈ (record s cycle obs).drawnFrom, t ∈ cycle.batch :=
    fun t ht => (List.mem_filter.1 ht).1
  have hyoung : ∀ t ∈ (record s cycle obs).drawnFrom, cursorOf s.notes < t.time := by
    intro t ht
    rw [← hsince]
    exact (hwhole.since_lt t (hdrawn t ht)).2
  -- another cycle's record is drawn from turns up to the cursor
  have hsame : ∀ r ∈ s.sightings, r.observation.origin = .owner → ∀ t ∈ r.drawnFrom,
      t ∈ (record s cycle obs).drawnFrom → r.cycle = s.started := by
    intro r hr howner t ht hrecorded
    by_contra hother
    exact absurd (h.past r hr howner (.inr hother) t ht) (not_le.2 (hyoung t hrecorded))
  refine ⟨h.positive, h.notes, h.cursors, h.old, h.young, ?_, ?_, ?_, ?_, ?_⟩
  · intro phase hphase
    cases hphase
    refine ⟨hsince, hseen, ⟨hwhole.since_lt, hwhole.complete⟩, ?_, ?_⟩
    · exact fun obs hobs => horigins obs (List.mem_cons_of_mem _ hobs)
    · intro r hr hcycle
      rcases List.mem_append.1 hr with hr | hr
      · exact hbatch r hr hcycle
      · rw [List.mem_singleton.1 hr]
        exact hdrawn
  · intro r hr
    rcases List.mem_append.1 hr with hr | hr
    · exact h.numbered r hr
    · rw [List.mem_singleton.1 hr]
      exact le_refl _
  · intro r hr howner hpast
    rcases hpast with hnone | hcycle
    · cases hnone
    · rcases List.mem_append.1 hr with hr | hr
      · exact h.past r hr howner (.inr hcycle)
      · rw [List.mem_singleton.1 hr] at hcycle
        exact absurd rfl hcycle
  · intro r hr howner
    rcases List.mem_append.1 hr with hr | hr
    · exact h.drawn r hr howner
    · rw [List.mem_singleton.1 hr] at howner ⊢
      have horigin : originForObservation obs.evidenceRefs cycle.entries = .owner :=
        (horigins obs List.mem_cons_self).symm.trans howner
      obtain ⟨hrefs, hcited⟩ := originForObservation_owner horigin
      obtain ⟨ref, href⟩ := List.exists_mem_of_ne_nil _ hrefs
      obtain ⟨e, he, htime, -⟩ := hcited ref href
      apply List.ne_nil_of_mem (a := e.turn)
      exact List.mem_filter.2 ⟨List.mem_map_of_mem he, by simpa [htime] using href⟩
  · intro r hr r' hr' howner howner' t ht ht'
    rcases List.mem_append.1 hr with hr | hr <;> rcases List.mem_append.1 hr' with hr' | hr'
    · exact h.sighted r hr r' hr' howner howner' t ht ht'
    · rw [List.mem_singleton.1 hr'] at ht' ⊢
      exact hsame r hr howner t ht ht'
    · rw [List.mem_singleton.1 hr] at ht ⊢
      exact (hsame r' hr' howner' t ht' ht).symm
    · rw [List.mem_singleton.1 hr, List.mem_singleton.1 hr']

/-- **A note** that is ahead moves the cursor over the batch, and over no other turn. -/
theorem divided_note {cycle : Reflected} {completed : List Completed} (h : Divided cutOver s)
    (hrunning : s.running = some (.promote cycle [])) (hahead : Ahead s cycle)
    (hcompleted : completed = s.completed ++ [⟨cycle.now, cycle.batch⟩] ∨
      cycle.entries = [] ∧ completed = s.completed) :
    Divided cutOver { s with
      notes := writeNote s.notes cycle.now, completed, running := none } := by
  obtain ⟨hsince, hseen, hwhole, -, hbatch⟩ := h.phase _ hrunning
  have hnow : cursorOf s.notes ≤ cycle.now := hsince ▸ hahead.since
  have hcursor := cursorOf_writeNote h.notes hnow
  have hmem : ∀ c ∈ completed, c ∈ s.completed ∨ c = ⟨cycle.now, cycle.batch⟩ := by
    intro c hc
    rcases hcompleted with rfl | ⟨-, rfl⟩
    · simpa using hc
    · exact .inl hc
  -- The cycle that is noted adds its batch, or has nothing in it.
  have hcount : ∀ t, completed.countP (fun c => decide (t ∈ c.batch)) =
      s.completed.countP (fun c => decide (t ∈ c.batch)) + if t ∈ cycle.batch then 1 else 0 := by
    intro t
    rcases hcompleted with rfl | ⟨hempty, rfl⟩
    · rw [List.countP_append, List.countP_singleton]
      simp only [decide_eq_true_eq]
    · rw [if_neg (by simp [Reflected.batch, hempty])]
      rfl
  refine ⟨h.positive, notesOk_writeNote h.notes hnow, ?_, ?_, ?_, ?_, h.numbered, ?_, h.drawn,
    h.sighted⟩
  · intro c hc
    show c.cursor ≤ cursorOf (writeNote s.notes cycle.now)
    rw [hcursor]
    rcases hmem c hc with hc | rfl
    · exact (h.cursors c hc).trans hnow
    · exact le_refl _
  · intro t ht hspoken htime
    replace htime : t.time ≤ cycle.now := hcursor ▸ htime
    show completed.countP _ = 1
    rw [hcount]
    -- A turn before the old cursor was counted then, and is not in the batch;
    -- one between the cursors is in it, and was not counted.
    by_cases hold : t.time ≤ cursorOf s.notes
    · have hnot : t ∉ cycle.batch := by
        intro hbatch
        have := (hwhole.since_lt t hbatch).2
        rw [hsince] at this
        exact absurd hold (not_le.2 this)
      rw [h.old t ht hspoken hold, if_neg hnot]
    · have hyoung := not_le.1 hold
      have hin : t ∈ cycle.batch := by
        rw [← List.take_append_drop cycle.seen s.turns] at ht
        rcases List.mem_append.1 ht with ht | ht
        · exact hwhole.complete t ht hspoken (hsince ▸ hyoung)
        · rcases hahead.late t ht hspoken with hin | hlate
          · exact hin
          · exact absurd htime (not_le.2 hlate)
      have hnone : s.completed.countP (fun c => decide (t ∈ c.batch)) = 0 := by
        apply List.countP_eq_zero.2
        intro c hc
        simpa using h.young t hyoung c hc
      rw [hnone, if_pos hin]
  · intro t htime c hc
    -- After the new cursor nothing is counted.
    replace htime : cycle.now < t.time := hcursor ▸ htime
    rcases hmem c hc with hc | rfl
    · exact h.young t (hnow.trans_lt htime) c hc
    · intro hin
      exact absurd (hahead.read t hin) (not_le.2 htime)
  · intro phase hphase
    cases hphase
  · intro r hr howner _ t ht
    show t.time ≤ cursorOf (writeNote s.notes cycle.now)
    rw [hcursor]
    by_cases hcycle : r.cycle = s.started
    · exact hahead.read t (hbatch r hr hcycle t ht)
    · exact (h.past r hr howner (.inr hcycle) t ht).trans hnow

/-! ## Section 6: Runs -/

variable {kept : Draft → Bool}

/-- **A step of a cycle** that nothing disturbs. -/
theorem divided_runOnce {phase : Phase} {answer : Answer} (h : Divided cutOver s)
    (hrunning : s.running = some phase) (hquiet : Undisturbed cutOver s (.step answer))
    (hstep : runOnce cutOver kept s phase answer = some t) : Divided cutOver t := by
  have hphase := h.phase phase hrunning
  unfold Undisturbed at hquiet
  rw [hrunning] at hquiet
  unfold runOnce at hstep
  split at hstep
  · cases hstep
    exact h.move ⟨hphase, rfl⟩
  · exact hquiet.elim
  · cases hstep
    obtain ⟨hfresh, hsince⟩ := hphase
    exact h.move ⟨hfresh, hsince, le_refl _, by rw [List.take_length]⟩
  · split at hstep
    · cases hstep
    next hmissing =>
      cases hstep
      obtain ⟨hfresh, hsince⟩ := hphase
      refine h.move ⟨hfresh, hsince, le_refl _, ?_⟩
      -- no turn is in the table, so there are no rows
      rw [List.take_length, eq_comm, List.eq_nil_iff_forall_not_mem]
      intro turn hturn
      obtain ⟨hmem, htable, -⟩ := mem_rowsSince.1 hturn
      exact hmissing (List.any_eq_true.2 ⟨turn, hmem, htable⟩)
  · next since rows seen =>
    obtain ⟨hfresh, hsince, hseen, hrows⟩ := hphase
    split at hstep
    next hcoverage =>
      cases hstep
      obtain ⟨first, hfirst, hreaches⟩ := (Option.any_eq_true ..).1 hcoverage
      have htable := (mem_rowsSince.1 (List.mem_of_mem_head? hfirst)).2.1
      rw [hrows]
      exact h.move ⟨hfresh, hsince, hseen, whole_rows htable (of_decide_eq_true hreaches)⟩
    · cases hstep
      exact h.move ⟨hfresh, hsince, hseen, hrows⟩
  · cases hstep
    obtain ⟨hfresh, hsince, hseen, hrows⟩ := hphase
    rw [hrows]
    exact h.move ⟨hfresh, hsince, hseen, whole_joinSources hquiet⟩
  · cases hstep
    obtain ⟨hfresh, hsince, hseen, hwhole⟩ := hphase
    refine h.move ⟨hsince, hseen, ⟨hwhole.since_lt, hwhole.complete⟩, ?_, ?_⟩
    case refine_2 => exact fun r hr hcycle => absurd hcycle (hfresh r hr)
    intro obs hobs
    unfold reflect at hobs
    split at hobs
    · cases hobs
    · obtain ⟨d, -, rfl⟩ := List.mem_map.1 hobs
      rfl
  · cases hstep
    exact divided_record h hrunning
  · cases hstep
    exact divided_note h hrunning hquiet (.inl rfl)
  · cases hstep
    exact divided_note h hrunning hquiet.1 (.inr ⟨hquiet.2, rfl⟩)
  · cases hstep

theorem divided_next {label : Label} (h : Divided cutOver s) (hquiet : Undisturbed cutOver s label)
    (hnext : next cutOver kept s label = some t) : Divided cutOver t := by
  cases label with
  | append turn =>
    simp only [next] at hnext
    split at hnext
    next hnew =>
      cases hnext
      exact divided_append h hnew.2 hquiet
    · cases hnext
  | start =>
    simp only [next] at hnext
    split at hnext
    next hidle =>
      cases hnext
      exact divided_start h hidle
    · cases hnext
  | step answer =>
    simp only [next] at hnext
    split at hnext
    · cases hnext
    next phase hrunning => exact divided_runOnce h hrunning hquiet hnext
  | fail =>
    cases hnext
    apply divided_stop h
    intro r hr howner
    cases hrunning : s.running with
    | none => exact .inl hrunning
    | some phase =>
      right
      have hphase := h.phase phase hrunning
      cases phase with
      | resolve => exact hphase r hr
      | query => exact hphase.1 r hr
      | earliest => exact hphase.1 r hr
      | logs => exact hphase.1 r hr
      | reflect => exact hphase.1 r hr
      | promote cycle left =>
        intro hcycle
        unfold Undisturbed at hquiet
        rw [hrunning] at hquiet
        exact hquiet r hr hcycle howner

/-- **Every owner turn is learned from once**, over any run that nothing disturbs. -/
theorem learned_once {labels : List Label} (hinit : (dreamCycle cutOver kept).init s)
    (hquiet : (dreamCycle cutOver kept).AllSteps (Undisturbed cutOver) s labels)
    (hrun : (dreamCycle cutOver kept).run s labels = some t) : LearnedOnce t := by
  have hs : Divided cutOver s := by
    rw [show s = _ from hinit]
    exact divided_init
  exact ((dreamCycle cutOver kept).run_invariant_of_allSteps
    (fun _ _ _ h hquiet hnext => divided_next h hquiet hnext) hs hquiet hrun).learnedOnce

end Runs

/-! ## Section 7: Two nights -/

instance (s : State) (cycle : Reflected) : Decidable (Ahead s cycle) :=
  decidable_of_iff (cycle.since ≤ cycle.now ∧ (∀ t ∈ cycle.batch, t.time ≤ cycle.now) ∧
    ∀ t ∈ s.turns.drop cycle.seen, t.scheduled = false → t ∈ cycle.batch ∨ cycle.now < t.time)
    ⟨fun ⟨h₁, h₂, h₃⟩ => ⟨h₁, h₂, h₃⟩, fun ⟨h₁, h₂, h₃⟩ => ⟨h₁, h₂, h₃⟩⟩

instance (cutOver : Time) (s : State) (label : Label) :
    Decidable (Undisturbed cutOver s label) := by
  unfold Undisturbed
  split <;> infer_instance

def said (id : Nat) (time : Time) : Turn := ⟨id, time, false, .owner⟩

def nothing : State := ⟨[], [], [], [], 0, none⟩

def reads : List Label := [.start, .step .found, .step .rows, .step .rows]

/-- One observation, drawn from the turn at `ref`. -/
def draws (ref now : Time) : List Label :=
  [.step (.reflected [⟨['k'], ['s'], [ref]⟩] now), .step .recorded]

/-- The first night also reads the logs. -/
def firstNight : List Label :=
  .append (said 0 100) :: reads ++ [.step (.logs [])] ++ draws 100 200

def secondNight : List Label :=
  .append (said 1 300) :: reads ++ draws 300 400 ++ [.step .committed]

theorem learned_once_two_nights : ∃ t, (dreamCycle 1 fun _ => true).run nothing
      (firstNight ++ .step .committed :: secondNight) = some t ∧
    LearnedOnce t ∧ t.completed = [⟨200, [said 0 100]⟩, ⟨400, [said 1 300]⟩] := by
  have hrun : (dreamCycle 1 fun _ => true).run nothing
      (firstNight ++ .step .committed :: secondNight) = some _ := rfl
  refine ⟨_, hrun, learned_once rfl ?_ hrun, rfl⟩
  decide +kernel

/-- A turn is appended while the model reflects, and is older than the cursor that follows. A note
    that is not committed leaves its record behind, and the next night adds another. -/
theorem turn_lost_or_counted_twice : (dreamCycle 1 fun _ => true).init nothing ∧
    (∃ t, (dreamCycle 1 fun _ => true).run nothing
        (reads ++ [.step (.logs []), .append (said 0 100), .step (.reflected [] 200),
          .step .committed]) = some t ∧
      ¬LearnedOnce t) ∧
    ∃ t, (dreamCycle 1 fun _ => true).run nothing
        (firstNight ++ .fail :: reads ++ [.step (.logs [])] ++ draws 100 300) = some t ∧
      ¬LearnedOnce t ∧ ownerRecurrenceCount id t ['k'] = 2 := by
  refine ⟨rfl, ⟨_, rfl, ?_⟩, _, rfl, ?_, rfl⟩
  · intro hlearned
    have hone := hlearned.once (said 0 100) (by decide) rfl ⟨200, []⟩ (by decide) (by decide)
    revert hone
    decide
  · intro hlearned
    have hsame := hlearned.sighted ⟨1, ⟨⟨['k'], ['s'], [100]⟩, .owner⟩, [said 0 100]⟩ (by decide)
      ⟨2, ⟨⟨['k'], ['s'], [100]⟩, .owner⟩, [said 0 100]⟩ (by decide) rfl rfl (said 0 100)
      (by decide) (by decide)
    revert hsame
    decide

end Lares.Dream
