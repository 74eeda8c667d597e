import Lares.Journal.OperationLine

/-! # The operation line is safe and fair

    The line of the journal is orderly in every state: `Base` is what holds
    even in the middle of a hand-over, `LineInv` what holds between two labels.
    Each part of the code keeps `Base`, and what it does to the line is said by
    a lemma of its own.
-/

namespace Lares.Journal

open Line (Turn Event Orderly)

namespace OperationLine

variable {s t : OperationLine} {turn : Turn}

/-! ## Section 1: The invariant -/

/-- Nobody's, or a call's that has been started. -/
def Began (log : List Event) (call : Option Turn) : Prop := ∀ turn ∈ call, .started turn ∈ log

theorem Began.mono {log more : List Event} {call : Option Turn} (h : Began log call) :
    Began (log ++ more) call :=
  fun turn hturn => List.mem_append_left _ (h turn hturn)

/-- Every record and the pending operation are of calls that have been started. -/
def Clean (s : OperationLine) : Prop :=
  (∀ entry ∈ s.journal, Began s.log entry.call) ∧ ∀ pending ∈ s.pending, Began s.log pending.call

/-- What holds even between the turns of a hand-over. -/
structure Base (s : OperationLine) : Prop where
  /-- The line holds who waits, in order. -/
  orderly : Orderly s.line s.log
  /-- Who waits has a timer, and nobody else. -/
  timers : s.timers.Perm s.line
  /-- One body at most holds the barrier. -/
  single : s.holders.length ≤ 1
  /-- The barrier is taken while somebody holds it. -/
  barrier : s.busy = true ↔ s.holders ≠ []
  /-- A turn in the log is of a call that was made. -/
  called : ∀ e ∈ s.log, e.turn.arrival < s.calls
  /-- What is pending has begun. -/
  clean : Clean s

/-- What holds between two labels: nobody waits for a free barrier. -/
structure LineInv (s : OperationLine) : Prop extends Base s where
  served : s.line ≠ [] → s.busy = true

/-- A stretch of code that leaves the line, the barrier and the calls alone. -/
structure Aside (s t : OperationLine) : Prop where
  line : t.line = s.line
  timers : t.timers = s.timers
  busy : t.busy = s.busy
  holders : t.holders = s.holders
  calls : t.calls = s.calls
  log : t.log = s.log

theorem Aside.refl (s : OperationLine) : Aside s s := ⟨rfl, rfl, rfl, rfl, rfl, rfl⟩

theorem Aside.trans {u : OperationLine} (h : Aside s t) (h' : Aside t u) : Aside s u :=
  ⟨h'.line.trans h.line, h'.timers.trans h.timers, h'.busy.trans h.busy,
    h'.holders.trans h.holders, h'.calls.trans h.calls, h'.log.trans h.log⟩

theorem Base.aside (h : Base s) (haside : Aside s t) (hclean : Clean t) : Base t where
  orderly := by
    rw [haside.line, haside.log]
    exact h.orderly
  timers := by
    rw [haside.line, haside.timers]
    exact h.timers
  single := by
    rw [haside.holders]
    exact h.single
  barrier := by
    rw [haside.holders, haside.busy]
    exact h.barrier
  called := by
    rw [haside.log, haside.calls]
    exact h.called
  clean := hclean

theorem LineInv.aside (h : LineInv s) (haside : Aside s t) (hclean : Clean t) : LineInv t where
  toBase := h.toBase.aside haside hclean
  served := by
    rw [haside.line, haside.busy]
    exact h.served

theorem Base.idle (h : Base s) (hbusy : s.busy = false) : s.holders = [] := by
  by_contra hne
  rw [h.barrier.2 hne] at hbusy
  cases hbusy

/-! ## Section 2: The places in the line -/

theorem place_ordinary (line : List Turn) (hordinary : turn.first = false) :
    place line turn = line ++ [turn] := by
  unfold place
  rw [hordinary]
  rfl

theorem place_first_cons (x : Turn) (line : List Turn) (hfirst : turn.first = true) :
    place (x :: line) turn = if x.first then x :: place line turn else turn :: x :: line := by
  unfold place
  rw [hfirst, if_pos rfl, if_pos rfl, List.findIdx?_cons]
  cases hx : x.first with
  | false => rfl
  | true =>
    cases hfind : line.findIdx? fun other => !other.first with
    | none => simp
    | some ahead => simp

theorem place_perm (line : List Turn) (turn : Turn) : (place line turn).Perm (turn :: line) := by
  cases hfirst : turn.first with
  | false =>
    rw [place_ordinary line hfirst]
    exact List.perm_append_singleton turn line
  | true =>
    induction line with
    | nil =>
      unfold place
      rw [hfirst]
      exact List.Perm.refl _
    | cons x line ih =>
      rw [place_first_cons x line hfirst]
      split
      · exact (ih.cons x).trans (List.Perm.swap turn x line)
      · exact List.Perm.refl _

/-- The newest caller has its place behind its own class. -/
theorem place_sorted {line : List Turn} (hsorted : line.Pairwise Turn.Ahead)
    (hnewest : ∀ other ∈ line, other.arrival < turn.arrival) :
    (place line turn).Pairwise Turn.Ahead := by
  cases hfirst : turn.first with
  | false =>
    rw [place_ordinary line hfirst, List.pairwise_append]
    refine ⟨hsorted, List.pairwise_singleton _ _, ?_⟩
    intro other hother last hlast
    rw [List.mem_singleton.1 hlast]
    cases hclass : other.first with
    | true => exact .inl ⟨hclass, hfirst⟩
    | false => exact .inr ⟨hclass.trans hfirst.symm, hnewest other hother⟩
  | true =>
    induction line with
    | nil =>
      unfold place
      rw [hfirst]
      exact List.pairwise_singleton _ _
    | cons x line ih =>
      rw [place_first_cons x line hfirst]
      have htail := List.pairwise_cons.1 hsorted
      split
      · next hx =>
        refine List.pairwise_cons.2 ⟨?_, ih htail.2 fun other hother =>
          hnewest other (List.mem_cons_of_mem _ hother)⟩
        intro other hother
        rcases List.mem_cons.1 ((place_perm line turn).mem_iff.1 hother) with rfl | hother
        · exact .inr ⟨hx.trans hfirst.symm, hnewest x List.mem_cons_self⟩
        · exact htail.1 other hother
      · next hx =>
        rw [Bool.not_eq_true] at hx
        refine List.pairwise_cons.2 ⟨?_, hsorted⟩
        intro other hother
        refine .inl ⟨hfirst, ?_⟩
        rcases List.mem_cons.1 hother with rfl | hother
        · exact hx
        · -- behind an ordinary caller there are only ordinary ones
          rcases htail.1 other hother with ⟨hxfirst, -⟩ | ⟨hsame, -⟩
          · rw [hx] at hxfirst
            cases hxfirst
          · rw [← hsame]
            exact hx

/-- A timer that fires finds its turn in the line. -/
theorem spliceOut_eq_erase {line : List Turn} (hmem : turn ∈ line) :
    spliceOut line turn = line.erase turn := by
  unfold spliceOut
  rw [List.erase_eq_eraseIdx]
  cases hidx : line.idxOf? turn with
  | none => exact absurd hmem (List.idxOf?_eq_none_iff.1 hidx)
  | some i => rfl

/-! ## Section 3: Writes -/

theorem append_aside (s : OperationLine) (entry : Entry) (written allowFrozen : Bool) :
    Aside s (s.append entry written allowFrozen).1 := by
  unfold append
  split
  · exact ⟨rfl, rfl, rfl, rfl, rfl, rfl⟩
  · exact ⟨rfl, rfl, rfl, rfl, rfl, rfl⟩

theorem Clean.append {entry : Entry} (h : Clean s) (hentry : Began s.log entry.call)
    (written allowFrozen : Bool) : Clean (s.append entry written allowFrozen).1 := by
  unfold OperationLine.append
  split
  · exact h
  · refine ⟨?_, h.2⟩
    intro e he
    rcases List.mem_append.1 he with hold | hnew
    · exact h.1 e hold
    · rw [List.mem_singleton.1 hnew]
      exact hentry

theorem began_none (log : List Event) : Began log none := nofun

/-- A freeze puts the barrier back as it was. -/
theorem persistFreeze_aside (s : OperationLine) (written : Bool) :
    Aside s (s.persistFreeze written) := by
  unfold persistFreeze
  split
  · exact Aside.refl s
  · have h := append_aside { s with busy := true } .custody written true
    exact ⟨h.line, h.timers, rfl, h.holders, h.calls, h.log⟩

theorem Clean.persistFreeze (h : Clean s) (written : Bool) : Clean (s.persistFreeze written) := by
  unfold OperationLine.persistFreeze
  split
  · exact h
  · have hbusy : Clean { s with busy := true } := h
    exact hbusy.append (began_none _) written true

/-! ## Section 4: Answers -/

/-- The log of a refused call, or of a call that is started and ends at once. -/
theorem Clean.log (h : Clean s) (e : Event) : Clean { s with log := s.log ++ [e] } :=
  ⟨fun entry hentry => (h.1 entry hentry).mono, fun p hp => (h.2 p hp).mono⟩

theorem clean_roll (h : Clean s) (hstarted : .started turn ∈ s.log) (rolled : Bool) :
    Clean { s with journal := s.journal ++ roll turn rolled } := by
  refine ⟨?_, h.2⟩
  intro entry hentry
  rcases List.mem_append.1 hentry with hold | hnew
  · exact h.1 entry hold
  · unfold roll at hnew
    split at hnew
    · rw [List.mem_singleton.1 hnew]
      intro call hcall
      cases hcall
      exact hstarted
    · cases hnew

theorem startOperation_line (start : Start) :
    (s.startOperation turn start).line = s.line ∧
    (s.startOperation turn start).log = s.log ++ [.started turn] := by
  cases start with
  | noRoom rolled freezes => exact ⟨rfl, rfl⟩
  | unbegun rolled freezes => exact ⟨rfl, rfl⟩
  | begun rolled => exact ⟨rfl, rfl⟩

/-- A started call holds the barrier, or the barrier is as free as before. -/
theorem startOperation_base (hidle : s.holders = []) (hbusy : s.busy = false)
    (horderly : Orderly s.line (s.log ++ [.started turn])) (htimers : s.timers.Perm s.line)
    (hcalled : ∀ e ∈ s.log, e.turn.arrival < s.calls) (hturn : turn.arrival < s.calls)
    (hclean : Clean s) (start : Start) : Base (s.startOperation turn start) := by
  have hfree : s.busy = true ↔ s.holders ≠ [] := by
    rw [hbusy, hidle]
    exact ⟨nofun, fun hne => absurd rfl hne⟩
  have hsingle : s.holders.length ≤ 1 := by
    rw [hidle]
    exact Nat.zero_le 1
  have hstarted : .started turn ∈ s.log ++ [Event.started turn] :=
    List.mem_append_right _ List.mem_cons_self
  have hcalls : ∀ e ∈ s.log ++ [Event.started turn], e.turn.arrival < s.calls := by
    intro e he
    rcases List.mem_append.1 he with hold | hnew
    · exact hcalled e hold
    · rw [List.mem_singleton.1 hnew]
      exact hturn
  have hrolled : ∀ rolled, Clean { s with
      log := s.log ++ [Event.started turn], journal := s.journal ++ roll turn rolled } := by
    intro rolled
    exact clean_roll (s := { s with log := s.log ++ [Event.started turn] }) (hclean.log _) hstarted
      rolled
  cases start with
  | noRoom rolled freezes => exact ⟨horderly, htimers, hsingle, hfree, hcalls, hrolled rolled⟩
  | unbegun rolled freezes =>
    rw [hbusy] at hfree
    exact ⟨horderly, htimers, hsingle, hfree, hcalls, hrolled rolled⟩
  | begun rolled =>
    refine ⟨horderly, htimers, ?_, ?_, hcalls, ?_, ?_⟩
    · show (s.holders ++ [Holder.operation turn]).length ≤ 1
      rw [hidle]
      exact Nat.le_refl 1
    · show true = true ↔ s.holders ++ [Holder.operation turn] ≠ []
      exact ⟨fun _ => by simp, fun _ => rfl⟩
    · intro entry hentry
      rcases List.mem_append.1 hentry with hold | hnew
      · exact (hrolled rolled).1 entry hold
      · rw [List.mem_singleton.1 hnew]
        intro call hcall
        cases hcall
        exact hstarted
    · intro pending hpending
      cases hpending
      intro call hcall
      cases hcall
      exact hstarted

/-- Whoever left the barrier left it free. -/
theorem handOver_line (start : Turn → Start) {turns : List Turn} (hline : s.line = turns) :
    (handOver start turns s).line = [] ∨ (handOver start turns s).busy = true := by
  induction turns generalizing s with
  | nil => exact .inl hline
  | cons turn rest ih =>
    unfold handOver
    split
    · next hbusy => exact .inr hbusy
    · dsimp only
      split
      · exact ih rfl
      · exact ih (startOperation_line _).1

/-- A hand-over only adds to the log. -/
theorem handOver_log (start : Turn → Start) (turns : List Turn) (s : OperationLine) :
    s.log <+: (handOver start turns s).log := by
  induction turns generalizing s with
  | nil => exact List.prefix_refl _
  | cons turn rest ih =>
    unfold handOver
    split
    · exact List.prefix_refl _
    · dsimp only
      split
      · exact (List.prefix_append s.log [.refused turn]).trans
          (ih ({ s with line := rest, timers := s.timers.erase turn }.refuse turn))
      · refine List.IsPrefix.trans ?_ (ih _)
        rw [(startOperation_line _).2]
        exact List.prefix_append _ _

/-- **No stall**: a hand-over starts somebody, or refuses everybody. -/
theorem handOver_answers (start : Turn → Start) {turns : List Turn} (hbusy : s.busy = false) :
    (∃ turn ∈ turns, .started turn ∈ (handOver start turns s).log) ∨
    ∀ turn ∈ turns, .refused turn ∈ (handOver start turns s).log := by
  induction turns generalizing s with
  | nil => exact .inr nofun
  | cons turn rest ih =>
    unfold handOver
    rw [if_neg (by rw [hbusy]; exact Bool.false_ne_true)]
    dsimp only
    split
    · have hrefused := (handOver_log start rest
        ({ s with line := rest, timers := s.timers.erase turn }.refuse turn)).subset
          (List.mem_append_right s.log (List.mem_singleton_self (Event.refused turn)))
      rcases ih (s := { s with line := rest, timers := s.timers.erase turn }.refuse turn) hbusy
        with ⟨other, hother, hstarted⟩ | hall
      · exact .inl ⟨other, List.mem_cons_of_mem _ hother, hstarted⟩
      · right
        intro other hother
        rcases List.mem_cons.1 hother with rfl | hother
        · exact hrefused
        · exact hall other hother
    · left
      refine ⟨turn, List.mem_cons_self, (handOver_log start rest _).subset ?_⟩
      rw [(startOperation_line _).2]
      exact List.mem_append_right _ List.mem_cons_self

/-- The head of the line leaves it, and its timer is cleared. -/
theorem timers_tail {timers rest : List Turn} (h : timers.Perm (turn :: rest)) :
    (timers.erase turn).Perm rest := by
  have := h.erase turn
  rwa [List.erase_cons_head] at this

theorem Base.handOver (h : Base s) (start : Turn → Start) {turns : List Turn}
    (hline : s.line = turns) : Base (handOver start turns s) := by
  induction turns generalizing s with
  | nil => exact h
  | cons turn rest ih =>
    unfold OperationLine.handOver
    split
    · exact h
    · next hbusy =>
      rw [Bool.not_eq_true] at hbusy
      have horderly := h.orderly
      have htimers := h.timers
      rw [hline] at horderly htimers
      have hcalled : turn.arrival < s.calls :=
        h.called _ ((horderly.waits turn).1 List.mem_cons_self).1
      dsimp only
      split
      · refine ih ?_ rfl
        refine ⟨horderly.refuse_head, timers_tail htimers, h.single, h.barrier, ?_,
          h.clean.log _⟩
        intro e he
        rcases List.mem_append.1 he with hold | hnew
        · exact h.called e hold
        · rw [List.mem_singleton.1 hnew]
          exact hcalled
      · refine ih ?_ (startOperation_line _).1
        exact startOperation_base (s := { s with line := rest, timers := s.timers.erase turn })
          (h.idle hbusy) hbusy horderly.start_head (timers_tail htimers) h.called hcalled h.clean
          (start turn)

/-- **The hand-over**: whoever leaves the barrier free leaves nobody waiting for it. -/
theorem Base.nextInLine (h : Base s) (start : Turn → Start) : LineInv (s.nextInLine start) where
  toBase := h.handOver start rfl
  served := fun hline => (handOver_line start rfl).resolve_left hline

/-! ## Section 5: Refusing the line -/

theorem refuseAll_base (turns : List Turn) {s : OperationLine} (h : Base { s with line := turns })
    (hline : s.line = []) :
    Base (refuseAll turns s) ∧ (refuseAll turns s).line = [] ∧
      (refuseAll turns s).busy = s.busy ∧ (refuseAll turns s).holders = s.holders ∧
      (refuseAll turns s).journal = s.journal := by
  induction turns generalizing s with
  | nil =>
    refine ⟨?_, hline, rfl, rfl, rfl⟩
    rw [← hline] at h
    exact h
  | cons turn rest ih =>
    have hcalled : turn.arrival < s.calls :=
      h.called _ ((h.orderly.waits turn).1 List.mem_cons_self).1
    refine ih (s := { s with timers := s.timers.erase turn }.refuse turn) ?_ hline
    refine ⟨h.orderly.refuse_head, timers_tail h.timers, h.single, h.barrier, ?_, h.clean.log _⟩
    intro e he
    rcases List.mem_append.1 he with hold | hnew
    · exact h.called e hold
    · rw [List.mem_singleton.1 hnew]
      exact hcalled

/-- Refusing the line writes nothing, and moves nobody from the barrier. -/
theorem Base.refuseLine (h : Base s) :
    LineInv s.refuseLine ∧ s.refuseLine.line = [] ∧ s.refuseLine.busy = s.busy ∧
      s.refuseLine.holders = s.holders ∧ s.refuseLine.journal = s.journal := by
  obtain ⟨hbase, hline, hbusy, hholders, hjournal⟩ :=
    refuseAll_base s.line (s := { s with line := [] }) h rfl
  exact ⟨⟨hbase, fun hne => absurd hline hne⟩, hline, hbusy, hholders, hjournal⟩

/-! ## Section 6: Steps -/

/-- The only holder is gone. -/
theorem Base.erase_holder (h : Base s) {holder : Holder} (hmem : holder ∈ s.holders) :
    s.holders.erase holder = [] := by
  have hsingle := h.single
  match hholders : s.holders with
  | [] =>
    rw [hholders] at hmem
    cases hmem
  | [only] =>
    rw [hholders, List.mem_singleton] at hmem
    rw [hmem, List.erase_cons_head]
  | _ :: _ :: _ =>
    rw [hholders] at hsingle
    simp at hsingle

theorem Base.leaveOperation (h : Base s) {holder : Holder} (hmem : holder ∈ s.holders) :
    Base ({ s with holders := s.holders.erase holder }.leaveOperation) := by
  have hempty := h.erase_holder hmem
  refine ⟨h.orderly, h.timers, ?_, ?_, h.called, h.clean⟩
  · show (s.holders.erase holder).length ≤ 1
    rw [hempty]
    exact Nat.zero_le 1
  · show false = true ↔ s.holders.erase holder ≠ []
    rw [hempty]
    exact ⟨nofun, fun hne => absurd rfl hne⟩

theorem Base.leaveBarrier (h : Base s) {holder : Holder} (hmem : holder ∈ s.holders) :
    Base ({ s with holders := s.holders.erase holder }.leaveBarrier) := by
  have hempty := h.erase_holder hmem
  refine ⟨h.orderly, h.timers, ?_, ?_, h.called, h.clean⟩
  · show (s.holders.erase holder).length ≤ 1
    rw [hempty]
    exact Nat.zero_le 1
  · show false = true ↔ s.holders.erase holder ≠ []
    rw [hempty]
    exact ⟨nofun, fun hne => absurd rfl hne⟩

/-- Somebody takes the free barrier for a check. -/
theorem LineInv.take (h : LineInv s) (hbusy : s.busy = false) (holder : Holder) :
    LineInv { s with busy := true, holders := s.holders ++ [holder] } := by
  refine ⟨⟨h.orderly, h.timers, ?_, ?_, h.called, h.clean⟩, fun _ => rfl⟩
  · show (s.holders ++ [holder]).length ≤ 1
    rw [h.idle hbusy]
    exact Nat.le_refl 1
  · show true = true ↔ s.holders ++ [holder] ≠ []
    exact ⟨fun _ => by simp, fun _ => rfl⟩

/-- A call is answered at once or joins the line. -/
theorem LineInv.operation (h : LineInv s) (wait : Option Bool) (start : Start) :
    LineInv (s.operation wait start) := by
  have hcalled : ∀ (s' : OperationLine) (e : Event), s'.log = s.log ++ [e] →
      e.turn.arrival = s.calls → ∀ e' ∈ s'.log, e'.turn.arrival < s.calls + 1 := by
    intro s' e hlog he e' he'
    rw [hlog] at he'
    rcases List.mem_append.1 he' with hold | hnew
    · exact Nat.lt_succ_of_lt (h.called e' hold)
    · rw [List.mem_singleton.1 hnew, he]
      exact Nat.lt_succ_self _
  have hrefused : LineInv ({ s with calls := s.calls + 1 }.refuse ⟨s.calls, wait.getD false⟩) := by
    refine ⟨⟨?_, h.timers, h.single, h.barrier, ?_, h.clean.log _⟩, h.served⟩
    · exact h.orderly.answer_fresh (.inr rfl) h.called nofun
    · exact hcalled _ (.refused ⟨s.calls, wait.getD false⟩) rfl rfl
  unfold OperationLine.operation
  dsimp only
  split
  · exact hrefused
  · split
    · next hfree =>
      rw [Bool.and_eq_true, Bool.not_eq_true', List.isEmpty_iff] at hfree
      have hbase : Base (OperationLine.startOperation { s with calls := s.calls + 1 }
          ⟨s.calls, wait.getD false⟩ start) :=
        startOperation_base (s := { s with calls := s.calls + 1 }) (h.idle hfree.1) hfree.1
        (h.orderly.answer_fresh (.inl rfl) h.called fun _ => hfree.2) h.timers
        (fun e he => Nat.lt_succ_of_lt (h.called e he)) (Nat.lt_succ_self _) h.clean start
      refine ⟨hbase, fun hne => absurd ?_ hne⟩
      rw [(startOperation_line start).1]
      exact hfree.2
    · next hwaits =>
      split
      · exact hrefused
      · next first =>
        have hnewest : ∀ other ∈ s.line, other.arrival < s.calls :=
          fun other hother => h.called _ ((h.orderly.waits other).1 hother).1
        have hperm := place_perm s.line ⟨s.calls, (some first).getD false⟩
        refine ⟨⟨?_, ?_, h.single, h.barrier, ?_, h.clean.log _⟩, fun _ => ?_⟩
        · exact h.orderly.join hperm (place_sorted h.orderly.sorted hnewest) h.called
        · exact (h.timers.cons _).trans hperm.symm
        · exact hcalled _ (.joined ⟨s.calls, (some first).getD false⟩) rfl rfl
        · -- a call joins because the barrier is taken, or because others wait for it
          show s.busy = true
          rw [Bool.and_eq_true, Bool.not_eq_true', List.isEmpty_iff, not_and] at hwaits
          by_contra hfree
          exact hfree (h.served (hwaits (Bool.not_eq_true _ ▸ hfree)))

theorem LineInv.timeout (h : LineInv s) (hmem : turn ∈ s.timers) :
    LineInv ({ s with
      line := spliceOut s.line turn
      timers := s.timers.erase turn }.refuse turn) := by
  have hwaits := h.timers.mem_iff.1 hmem
  rw [spliceOut_eq_erase hwaits]
  refine ⟨⟨h.orderly.refuse hwaits, h.timers.erase turn, h.single, h.barrier, ?_, h.clean.log _⟩,
    ?_⟩
  · intro e he
    rcases List.mem_append.1 he with hold | hnew
    · exact h.called e hold
    · rw [List.mem_singleton.1 hnew]
      exact h.called (.joined turn) ((h.orderly.waits turn).1 hwaits).1
  · intro hne
    exact h.served fun hempty => hne (by
      show s.line.erase turn = []
      rw [hempty]
      rfl)

theorem LineInv.settle (h : LineInv s) (owner : Bool) (fate : Settling) :
    LineInv (s.settle owner fate) := by
  have hcustody : ∀ entry ∈ s.journal ++ [Entry.custody], Began s.log entry.call := by
    intro entry hentry
    rcases List.mem_append.1 hentry with hold | hnew
    · exact h.clean.1 entry hold
    · rw [List.mem_singleton.1 hnew]
      exact began_none _
  unfold OperationLine.settle
  split
  · exact h
  · cases fate with
    | failed ended cleared =>
      refine h.aside ⟨rfl, rfl, rfl, rfl, rfl, rfl⟩ ⟨h.clean.1, ?_⟩
      intro pending hpending
      cases ended with
      | true => cases hpending
      | false => exact h.clean.2 pending hpending
    | unpublished =>
      have hended : Clean { s with
          pending := none, inDoubt := false, journal := s.journal ++ [.custody] } :=
        ⟨hcustody, nofun⟩
      have haside := persistFreeze_aside { s with
          pending := none, inDoubt := false, journal := s.journal ++ [.custody] } true
      exact h.aside ⟨haside.line, haside.timers, haside.busy, haside.holders, haside.calls,
        haside.log⟩ (hended.persistFreeze true)
    | settled => exact h.aside ⟨rfl, rfl, rfl, rfl, rfl, rfl⟩ ⟨hcustody, nofun⟩

theorem LineInv.drain (h : LineInv s) (drain : Drain) : LineInv (s.drain drain) := by
  have hstopping : LineInv { s with stopping := true } :=
    h.aside ⟨rfl, rfl, rfl, rfl, rfl, rfl⟩ h.clean
  have hrefused := hstopping.toBase.refuseLine.1
  unfold OperationLine.drain
  dsimp only
  split
  · exact hrefused.aside ⟨rfl, rfl, rfl, rfl, rfl, rfl⟩ hrefused.clean
  · exact hrefused.aside ⟨rfl, rfl, rfl, rfl, rfl, rfl⟩ hrefused.clean

theorem LineInv.persistFreeze (h : LineInv s) (written : Bool) :
    LineInv (s.persistFreeze written) :=
  h.aside (persistFreeze_aside s written) (h.clean.persistFreeze written)

/-- A write of the pending operation, and what follows it. -/
theorem LineInv.append (h : LineInv s) {entry : Entry} (hentry : Began s.log entry.call)
    (written allowFrozen : Bool) : LineInv (s.append entry written allowFrozen).1 :=
  h.aside (append_aside s entry written allowFrozen) (h.clean.append hentry written allowFrozen)

/-- The pending operation goes on, or is over. -/
theorem LineInv.pending (h : LineInv s) (pending : Option PendingOperation)
    (hpending : ∀ p ∈ pending, Began s.log p.call) : LineInv { s with pending := pending } :=
  h.aside ⟨rfl, rfl, rfl, rfl, rfl, rfl⟩ ⟨h.clean.1, hpending⟩

/-- A write that takes the barrier for itself leaves it as it was: free. -/
theorem LineInv.borrow (h : LineInv s) (hbusy : s.busy = false) (written : Bool) :
    Aside s { ({ s with busy := true }.append .custody written false).1 with busy := false } ∧
      Clean ({ s with busy := true }.append .custody written false).1 := by
  have haside := append_aside { s with busy := true } .custody written false
  refine ⟨⟨haside.line, haside.timers, hbusy.symm, haside.holders, haside.calls, haside.log⟩, ?_⟩
  have hclean : Clean { s with busy := true } := h.clean
  exact hclean.append (began_none _) written false

theorem LineInv.step_timeout {turn} (h : LineInv s) (hstep : s.next (.timeout turn) = some t) :
    LineInv t := by
  simp only [next] at hstep
  split at hstep
  · next hmem =>
    cases hstep
    exact h.timeout hmem
  · cases hstep

/-- What a pending call records, has begun. -/
theorem LineInv.began (h : LineInv s) {call : Turn} {proposal : Bool}
    (hpending : s.pending = some ⟨some call, proposal⟩) (entry : Entry)
    (hentry : entry.call = some call) : Began s.log entry.call := by
  rw [hentry]
  exact h.clean.2 _ hpending

theorem LineInv.step_propose {call written} (h : LineInv s)
    (hstep : s.next (.propose call written) = some t) : LineInv t := by
  simp only [next] at hstep
  split at hstep
  · next hpending =>
    cases hstep
    have happend := h.append (h.began hpending (.work call) rfl) written false
    split
    · refine happend.pending _ ?_
      intro p hp
      cases hp
      rw [(append_aside s (.work call) written false).log]
      exact h.began hpending (.work call) rfl
    · exact happend
  · cases hstep
    exact h

theorem LineInv.step_committed {call written control} (h : LineInv s)
    (hstep : s.next (.committed call written control) = some t) : LineInv t := by
  simp only [next] at hstep
  split at hstep
  · next hpending =>
    cases hstep
    have happend := h.append (h.began hpending (.work call) rfl) written false
    split
    · have hover := happend.pending none nofun
      refine hover.append ?_ control false
      show Began (s.append (.work call) written false).1.log _
      rw [(append_aside s (.work call) written false).log]
      exact h.began hpending (.work call) rfl
    · exact happend
  · cases hstep
    exact h

theorem LineInv.step_aborted {call written} (h : LineInv s)
    (hstep : s.next (.aborted call written) = some t) : LineInv t := by
  simp only [next] at hstep
  split at hstep
  · next hpending =>
    cases hstep
    have hcall : Began s.log (some call) := by
      obtain ⟨p, hp, hcall⟩ := Option.bind_eq_some_iff.1 hpending
      rw [← hcall]
      exact h.clean.2 p hp
    have hentry : Began s.log (Entry.work call).call := hcall
    have happend := h.append hentry written false
    split
    · exact happend.pending _ nofun
    · exact happend
  · cases hstep
    exact h

theorem LineInv.step_markInDoubt {call} (h : LineInv s)
    (hstep : s.next (.markInDoubt call) = some t) : LineInv t := by
  simp only [next] at hstep
  split at hstep
  · cases hstep
    exact h
  · split at hstep
    · cases hstep
      have hdoubt : LineInv { s with inDoubt := true } :=
        h.aside ⟨rfl, rfl, rfl, rfl, rfl, rfl⟩ h.clean
      exact hdoubt.toBase.refuseLine.1
    · cases hstep
      exact h

theorem LineInv.step_endOperation {turn start} (h : LineInv s)
    (hstep : s.next (.endOperation turn start) = some t) : LineInv t := by
  simp only [next] at hstep
  split at hstep
  · next hmem =>
    cases hstep
    exact (h.leaveOperation hmem).nextInLine start
  · cases hstep

theorem LineInv.step_withSettlementBarrier (h : LineInv s)
    (hstep : s.next .withSettlementBarrier = some t) : LineInv t := by
  simp only [next] at hstep
  split at hstep
  · cases hstep
    exact h
  · next hfree =>
    cases hstep
    simp only [Bool.or_eq_true, not_or, Bool.not_eq_true] at hfree
    exact h.take hfree.2 .settlement

theorem LineInv.step_endSettlement {start} (h : LineInv s)
    (hstep : s.next (.endSettlement start) = some t) : LineInv t := by
  simp only [next] at hstep
  split at hstep
  · next hmem =>
    cases hstep
    exact (h.leaveBarrier hmem).nextInLine start
  · cases hstep

theorem LineInv.step_withFullCheckBarrier (h : LineInv s)
    (hstep : s.next .withFullCheckBarrier = some t) : LineInv t := by
  simp only [next] at hstep
  split at hstep
  · cases hstep
    exact h
  · next hfree =>
    cases hstep
    simp only [Bool.or_eq_true, not_or, Bool.not_eq_true] at hfree
    exact h.take hfree.1.2 .fullCheck

theorem LineInv.step_endFullCheck {start} (h : LineInv s)
    (hstep : s.next (.endFullCheck start) = some t) : LineInv t := by
  simp only [next] at hstep
  split at hstep
  · next hmem =>
    cases hstep
    exact (h.leaveBarrier hmem).nextInLine start
  · cases hstep

theorem LineInv.step_freezeForRestore {written} (h : LineInv s)
    (hstep : s.next (.freezeForRestore written) = some t) : LineInv t := by
  simp only [next] at hstep
  split at hstep
  · cases hstep
    exact h
  · split at hstep
    · cases hstep
      exact h.drain .restore
    · cases hstep
      have hstopping : LineInv { s with stopping := true } :=
        h.aside ⟨rfl, rfl, rfl, rfl, rfl, rfl⟩ h.clean
      exact hstopping.toBase.refuseLine.1.persistFreeze written

theorem LineInv.step_drained {drain written} (h : LineInv s)
    (hstep : s.next (.drained drain written) = some t) : LineInv t := by
  simp only [next] at hstep
  split at hstep
  · cases hstep
    have hdrained : LineInv { s with drained := s.drained.erase drain } :=
      h.aside ⟨rfl, rfl, rfl, rfl, rfl, rfl⟩ h.clean
    split
    · exact hdrained.persistFreeze written
    · exact hdrained
  · cases hstep

theorem LineInv.step_acquireWriterLease {verified written} (h : LineInv s)
    (hstep : s.next (.acquireWriterLease verified written) = some t) : LineInv t := by
  simp only [next] at hstep
  split at hstep
  · cases hstep
    exact h
  · next hfree =>
    cases hstep
    simp only [Bool.or_eq_true, not_or, Bool.not_eq_true] at hfree
    obtain ⟨haside, hclean⟩ := h.borrow hfree.1.1.2 written
    split
    · exact h.aside ⟨haside.line, haside.timers, haside.busy, haside.holders, haside.calls,
        haside.log⟩ hclean
    · exact h.aside haside hclean

theorem LineInv.step_close {written} (h : LineInv s) (hstep : s.next (.close written) = some t) :
    LineInv t := by
  simp only [next] at hstep
  split at hstep
  · cases hstep
    exact h
  · next hfree =>
    simp only [Bool.or_eq_true, not_or, Bool.not_eq_true] at hfree
    split at hstep
    · cases hstep
      obtain ⟨haside, hclean⟩ := h.borrow hfree.2 written
      exact h.aside ⟨haside.line, haside.timers, haside.busy, haside.holders, haside.calls,
        haside.log⟩ hclean
    · cases hstep
      exact h.aside ⟨rfl, rfl, rfl, rfl, rfl, rfl⟩ h.clean

/-- **One label** keeps the invariant. -/
theorem LineInv.step (h : LineInv s) {label : LineLabel} (hstep : s.next label = some t) :
    LineInv t := by
  cases label with
  | operation wait start =>
    cases hstep
    exact h.operation wait start
  | timeout turn => exact h.step_timeout hstep
  | propose call written => exact h.step_propose hstep
  | committed call written control => exact h.step_committed hstep
  | aborted call written => exact h.step_aborted hstep
  | markInDoubt call => exact h.step_markInDoubt hstep
  | endOperation turn start => exact h.step_endOperation hstep
  | withSettlementBarrier => exact h.step_withSettlementBarrier hstep
  | settle owner fate =>
    cases hstep
    exact h.settle owner fate
  | endSettlement start => exact h.step_endSettlement hstep
  | withFullCheckBarrier => exact h.step_withFullCheckBarrier hstep
  | endFullCheck start => exact h.step_endFullCheck hstep
  | drainForShutdown =>
    cases hstep
    exact h.drain .shutdown
  | freezeForRestore written => exact h.step_freezeForRestore hstep
  | restoreDeadline =>
    simp only [next] at hstep
    split at hstep
    · cases hstep
      exact h.aside ⟨rfl, rfl, rfl, rfl, rfl, rfl⟩ h.clean
    · cases hstep
  | drained drain written => exact h.step_drained hstep
  | persistFreeze written =>
    cases hstep
    exact h.persistFreeze written
  | acquireWriterLease verified written => exact h.step_acquireWriterLease hstep
  | close written => exact h.step_close hstep

/-! ## Section 7: Runs -/

theorem lineInv_init (hinit : operationLine.init s) : LineInv s := by
  obtain ⟨hbusy, hline, htimers, -, -, hholders, -, hlog, hjournal, hpending⟩ := hinit
  refine ⟨⟨?_, ?_, ?_, ?_, ?_, ?_, ?_⟩, fun hne => absurd hline hne⟩
  · rw [hline, hlog]
    exact Line.orderly_nil
  · rw [htimers, hline]
  · rw [hholders]
    exact Nat.zero_le 1
  · rw [hbusy, hholders]
    exact ⟨nofun, fun hne => absurd rfl hne⟩
  · rw [hlog]
    exact nofun
  · rw [hjournal]
    exact nofun
  · intro pending hmem
    rw [hpending pending hmem]
    exact began_none _

theorem lineInv_run {labels : List LineLabel} (hinit : operationLine.init s)
    (hrun : operationLine.run s labels = some t) : LineInv t :=
  operationLine.run_invariant (fun _ _ _ h hstep => h.step hstep) (lineInv_init hinit) hrun

/-- A new call takes the barrier only from nobody. -/
theorem operation_holders (s : OperationLine) (wait : Option Bool) (start : Start) :
    s.holders <+: (s.operation wait start).holders := by
  unfold operation
  dsimp only
  split
  · exact List.prefix_refl _
  · split
    · cases start with
      | noRoom rolled freezes => exact List.prefix_refl _
      | unbegun rolled freezes => exact List.prefix_refl _
      | begun rolled => exact List.prefix_append _ _
    · cases wait with
      | none => exact List.prefix_refl _
      | some first => exact List.prefix_refl _

/-- Whoever leaves the barrier hands it over. -/
theorem leave_answers {label : LineLabel} (hleaves : label.leaves = true)
    (hstep : s.next label = some t) :
    ((∃ turn ∈ s.line, .started turn ∈ t.log) ∨ ∀ turn ∈ s.line, .refused turn ∈ t.log) ∧
      (t.line = [] ∨ t.busy = true) := by
  cases label with
  | endOperation turn start =>
    simp only [next] at hstep
    split at hstep
    · cases hstep
      exact ⟨handOver_answers start rfl, handOver_line start rfl⟩
    · cases hstep
  | endSettlement start =>
    simp only [next] at hstep
    split at hstep
    · cases hstep
      exact ⟨handOver_answers start rfl, handOver_line start rfl⟩
    · cases hstep
  | endFullCheck start =>
    simp only [next] at hstep
    split at hstep
    · cases hstep
      exact ⟨handOver_answers start rfl, handOver_line start rfl⟩
    · cases hstep
  | _ => cases hleaves

/-- What the line keeps to in every state. -/
structure SafeAndFair (s : OperationLine) : Prop where
  /-- Mutual exclusion. -/
  oneBody : s.holders.length ≤ 1
  /-- Who waits has a timer and no answer yet; everyone else who joined has had one answer. -/
  oneAnswer : ∀ turn, .joined turn ∈ s.log →
    Line.answers s.log turn = if turn ∈ s.line then 0 else 1
  /-- Nobody waits without a timer. -/
  timed : ∀ turn ∈ s.line, turn ∈ s.timers
  /-- Who was refused has not started, and has written nothing. -/
  nothingWritten : ∀ turn, .refused turn ∈ s.log →
    .started turn ∉ s.log ∧ ∀ entry ∈ s.journal, entry.call ≠ some turn
  /-- Within one kind, turns start as they came. -/
  arrivalOrder : ∀ a b : Turn, a.first = b.first → a.arrival < b.arrival → .joined a ∈ s.log →
    .started a ∈ s.log → .started b ∈ s.log → [.started a, .started b].Sublist s.log
  /-- One that goes first passes those that wait then. -/
  firstFirst : ∀ pre a post b, s.log = pre ++ .joined a :: post → a.first = true →
    b.first = false → Line.Waiting pre b → .started a ∈ s.log → .started b ∈ s.log →
    [.started a, .started b].Sublist s.log
  /-- At every start nobody ahead is waiting. -/
  noOvertaking : ∀ pre b post, s.log = pre ++ .started b :: post →
    ∀ a, Line.Waiting pre a → ¬ a.Ahead b
  /-- Nobody waits for a free barrier. -/
  noStall : s.line ≠ [] → s.busy = true

theorem LineInv.safeAndFair (h : LineInv s) : SafeAndFair s where
  oneBody := h.single
  oneAnswer := fun turn hjoined => h.orderly.one_answer hjoined
  timed := fun turn hmem => h.timers.mem_iff.2 hmem
  nothingWritten := by
    intro turn hrefused
    have hstarted : .started turn ∉ s.log := fun hstarted =>
      h.orderly.not_refused hstarted hrefused
    refine ⟨hstarted, ?_⟩
    intro entry hentry hcall
    exact hstarted (h.clean.1 entry hentry turn hcall)
  arrivalOrder := fun a b hsame hlt hjoined ha hb =>
    h.orderly.arrival_order hsame hlt hjoined ha hb
  firstFirst := fun pre a post b hcut hfirst hordinary hwaits ha hb =>
    h.orderly.first_first hcut hfirst hordinary hwaits ha hb
  noOvertaking := h.orderly.fair
  noStall := h.served

/-- **Safe and fair**: in every state of every run. A call never moves whoever holds the barrier.
    Leaving the barrier starts a waiting call or refuses them all, and leaves nobody waiting for
    a free barrier. -/
theorem operationLine_safe_fair {labels : List LineLabel} (hinit : operationLine.init s)
    (hrun : operationLine.run s labels = some t) :
    SafeAndFair t ∧
    (∀ wait start u, t.next (.operation wait start) = some u → t.holders <+: u.holders) ∧
    ∀ label u, label.leaves = true → t.next label = some u →
      ((∃ turn ∈ t.line, .started turn ∈ u.log) ∨ ∀ turn ∈ t.line, .refused turn ∈ u.log) ∧
        (u.line = [] ∨ u.busy = true) := by
  have h := lineInv_run hinit hrun
  refine ⟨h.safeAndFair, ?_, fun label u hleaves hstep => leave_answers hleaves hstep⟩
  intro wait start u hstep
  cases hstep
  exact operation_holders t wait start

/-- A journal with a lease and nothing else. -/
def leased : OperationLine where
  busy := false
  closed := false
  frozen := false
  stopping := false
  inDoubt := false
  writerLease := true
  startupLeasePending := false
  pending := none
  line := []
  timers := []
  idle := []
  drained := []
  holders := []
  calls := 0
  log := []
  journal := []

/-- An ordinary call waits behind a running one, and a first call after it goes ahead. -/
def overtaken : List LineLabel :=
  [.operation none (.begun false), .operation (some false) (.begun false),
    .operation (some true) (.begun false), .aborted ⟨0, false⟩ true,
    .endOperation ⟨0, false⟩ fun _ => .begun false]

theorem operationLine_safe_fair_sample :
    ∃ t, operationLine.run leased overtaken = some t ∧ SafeAndFair t ∧
      t.line = [⟨1, false⟩] ∧ t.holders = [.operation ⟨2, true⟩] := by
  have hinit : operationLine.init leased :=
    ⟨rfl, rfl, rfl, rfl, rfl, rfl, rfl, rfl, rfl, nofun⟩
  have hrun : operationLine.run leased overtaken = some _ := rfl
  exact ⟨_, hrun, (operationLine_safe_fair hinit hrun).1, rfl, rfl⟩

end OperationLine

end Lares.Journal
