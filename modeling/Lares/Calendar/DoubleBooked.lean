import Lares.Calendar.ConflictMeaning

/-! # Double bookings, found exactly

    What the double bookings of a calendar should be, in terms of commitments
    and instants, and when the pass finds just that.

    * **Commitments**: rows with one UID and the same instants are one, however
      the instants are written. Two of them are double-booked when they overlap
      at an instant of a day of the context.
    * **Seams**: the pass compares written times where it looks for copies, and
      asks for each event alone whether it touches a day, up to the day that its
      end falls on.
    * **Exactness**: the findings are the double bookings where no clash hangs on
      a seam. None hangs on the window where the days follow on each other and
      no event ends as one of them begins.
-/

namespace Lares.Calendar

open Comparators Lines

/-! ## Section 1: Pairs -/

section Pairs

variable {α β : Type} {l l' : List α}

theorem mem_of_mem_pairs {q : α × α} (h : q ∈ pairs l) : q.1 ∈ l ∧ q.2 ∈ l := by
  induction l with
  | nil => cases h
  | cons a l ih =>
    rw [pairs, List.mem_append] at h
    rcases h with h | h
    · obtain ⟨b, hb, rfl⟩ := List.mem_map.1 h
      exact ⟨List.mem_cons_self .., List.mem_cons_of_mem _ hb⟩
    · exact ⟨List.mem_cons_of_mem _ (ih h).1, List.mem_cons_of_mem _ (ih h).2⟩

theorem rel_of_mem_pairs {r : α → α → Prop} (hl : l.Pairwise r) {q : α × α} (h : q ∈ pairs l) :
    r q.1 q.2 := by
  induction l with
  | nil => cases h
  | cons a l ih =>
    obtain ⟨ha, hl⟩ := List.pairwise_cons.1 hl
    rw [pairs, List.mem_append] at h
    rcases h with h | h
    · obtain ⟨b, hb, rfl⟩ := List.mem_map.1 h
      exact ha b hb
    · exact ih hl h

theorem pairs_map (f : α → β) (l : List α) :
    pairs (l.map f) = (pairs l).map fun q => (f q.1, f q.2) := by
  induction l with
  | nil => rfl
  | cons a l ih => simp [pairs, ih, Function.comp_def]

/-- Of two elements of a list one comes before the other. -/
theorem mem_pairs_or {a b : α} (ha : a ∈ l) (hb : b ∈ l) (hne : a ≠ b) :
    (a, b) ∈ pairs l ∨ (b, a) ∈ pairs l := by
  induction l with
  | nil => cases ha
  | cons x l ih =>
    simp only [pairs, List.mem_append, List.mem_map, Prod.mk.injEq]
    rcases List.mem_cons.1 ha with rfl | ha'
    · rcases List.mem_cons.1 hb with rfl | hb'
      · exact absurd rfl hne
      · exact .inl (.inl ⟨b, hb', rfl, rfl⟩)
    · rcases List.mem_cons.1 hb with rfl | hb'
      · exact .inr (.inl ⟨a, ha', rfl, rfl⟩)
      · rcases ih ha' hb' with h | h
        · exact .inl (.inr h)
        · exact .inr (.inr h)

theorem ne_of_mem_pairs (hnodup : l.Nodup) {q : α × α} (h : q ∈ pairs l) : q.1 ≠ q.2 :=
  rel_of_mem_pairs hnodup h

theorem swap_not_mem_pairs (hnodup : l.Nodup) {a b : α} (h : (a, b) ∈ pairs l) :
    (b, a) ∉ pairs l := by
  induction l with
  | nil => cases h
  | cons x l ih =>
    obtain ⟨hx, hnodup⟩ := List.nodup_cons.1 hnodup
    simp only [pairs, List.mem_append, List.mem_map, Prod.mk.injEq] at h ⊢
    rcases h with ⟨y, hy, rfl, rfl⟩ | h
    · rintro (⟨z, hz, rfl, rfl⟩ | h')
      · exact hx hz
      · exact hx (mem_of_mem_pairs h').2
    · rintro (⟨z, hz, rfl, rfl⟩ | h')
      · exact hx (mem_of_mem_pairs h).2
      · exact ih hnodup h h'

/-- What a part of a list without repeats has of it is the part. -/
theorem filter_mem_of_sublist [DecidableEq α] (hsub : l'.Sublist l) (hnodup : l.Nodup) :
    (l.filter fun a => a ∈ l') = l' := by
  have hself : (l'.filter fun a => a ∈ l') = l' := List.filter_eq_self.2 fun a ha => decide_eq_true ha
  have hpart : l'.Sublist (l.filter fun a => a ∈ l') := by
    have := hsub.filter fun a => decide (a ∈ l')
    rwa [hself] at this
  have hmem : (l.filter fun a => a ∈ l') ⊆ l' :=
    fun a ha => of_decide_eq_true (List.mem_filter.1 ha).2
  exact (hpart.eq_of_length_le ((hnodup.filter _).subperm hmem).length_le).symm

/-- The pairs of a part are the pairs of the list with both in the part. -/
theorem pairs_of_sublist [DecidableEq α] (hsub : l'.Sublist l) (hnodup : l.Nodup)
    (p : α × α → Bool) : (pairs l').filter p =
      (pairs l).filter fun q => p q && (decide (q.1 ∈ l') && decide (q.2 ∈ l')) := by
  have hpart := pairs_filter (fun a => decide (a ∈ l')) l
  rw [filter_mem_of_sublist hsub hnodup] at hpart
  rw [hpart, List.filter_filter]

end Pairs

/-! ## Section 2: Commitments -/

section Commitments

variable (pf : Platform)

/-- One non-empty UID and the same instants, however they are written. -/
def SameCommitment (a b : CalendarEvent) : Prop :=
  trim (a.iCalUID.getD []) ≠ [] ∧ trim (a.iCalUID.getD []) = trim (b.iCalUID.getD []) ∧
    (pf.parse a.start).isSome ∧ pf.parse a.start = pf.parse b.start ∧
    (pf.parse a.end).isSome ∧ pf.parse a.end = pf.parse b.end

instance (a b : CalendarEvent) : Decidable (SameCommitment pf a b) :=
  inferInstanceAs (Decidable (_ ∧ _ ∧ _ ∧ _ ∧ _ ∧ _))

def isTimed (e : CalendarEvent) : Bool := (timedSpan pf e).isSome

/-- The timed commitments of a list, each by its first row in the order of the pass. -/
def commitments (events : List CalendarEvent) : List CalendarEvent :=
  Selection.pick (fun a b => decide (SameCommitment pf a b))
    ((sort (compareEvents pf) events).filter (isTimed pf))

/-- An instant of both events is on a day of the context. -/
def OverlapOnDays (ctx : ConflictContext) (a b : CalendarEvent) : Prop :=
  ∃ s t s' t', Spans pf a s t ∧ Spans pf b s' t' ∧ ∃ at_ clock, s ≤ at_ ∧ s' ≤ at_ ∧ at_ < t ∧
    at_ < t' ∧ pf.wallClock at_ (dayZone ctx) = some clock ∧ clock.date ∈ ctx.days

/-- Two commitments that clash at an instant of a day of the context. -/
def ClashOnDays (ctx : ConflictContext) (a b : CalendarEvent) : Prop :=
  ¬ SameCommitment pf a b ∧ Clash pf a b ∧ OverlapOnDays pf ctx a b

open Classical in
/-- The double bookings found are the pairs of commitments that clash on the days, each once. -/
def FoundExactly (events : List CalendarEvent) (ctx : ConflictContext) : Prop :=
  (((detectCalendarConflicts pf events ctx).filter fun c => c.kind = .doubleBooked).map
      CalendarConflict.events).Perm
    (((pairs (commitments pf events)).filter fun q => ClashOnDays pf ctx q.1 q.2).map
      fun q => startOrder pf q.1 q.2)

variable {pf}

theorem SameCommitment.symm {a b : CalendarEvent} (h : SameCommitment pf a b) :
    SameCommitment pf b a := by
  obtain ⟨huid, hsame, hstart, hstarts, hend, hends⟩ := h
  exact ⟨hsame ▸ huid, hsame.symm, hstarts ▸ hstart, hstarts.symm, hends ▸ hend, hends.symm⟩

theorem mem_commitments {events : List CalendarEvent} {e : CalendarEvent}
    (h : e ∈ commitments pf events) : e ∈ events ∧ isTimed pf e = true := by
  obtain ⟨hmem, htimed⟩ := List.mem_filter.1 ((Selection.pick_sublist _).subset h)
  exact ⟨mem_sort.1 hmem, htimed⟩

/-- Every timed row is a commitment of the list or a copy of one. -/
theorem commitments_cover {events : List CalendarEvent} {e : CalendarEvent} (he : e ∈ events)
    (htimed : isTimed pf e = true) : e ∈ commitments pf events ∨
      ∃ b ∈ commitments pf events, SameCommitment pf e b := by
  have hmem : e ∈ (sort (compareEvents pf) events).filter (isTimed pf) :=
    List.mem_filter.2 ⟨mem_sort.2 he, htimed⟩
  rcases Selection.pick_covers _ e hmem with h | ⟨b, hb, hsame⟩
  · exact .inl h
  · exact .inr ⟨b, hb, of_decide_eq_true hsame⟩

open Classical in
/-- What is found exactly has a clash behind it. -/
theorem FoundExactly.exists_clash {events : List CalendarEvent} {ctx : ConflictContext}
    (h : FoundExactly pf events ctx)
    (hfound : ∃ c ∈ detectCalendarConflicts pf events ctx, c.kind = .doubleBooked) :
    ∃ a ∈ events, ∃ b ∈ events, ClashOnDays pf ctx a b := by
  obtain ⟨c, hc, hkind⟩ := hfound
  have hmem : c.events ∈ ((detectCalendarConflicts pf events ctx).filter
      fun c => c.kind = .doubleBooked).map CalendarConflict.events :=
    List.mem_map_of_mem (List.mem_filter.2 ⟨hc, decide_eq_true hkind⟩)
  obtain ⟨q, hq, -⟩ := List.mem_map.1 (h.subset hmem)
  obtain ⟨hpair, hclash⟩ := List.mem_filter.1 hq
  obtain ⟨ha, hb⟩ := mem_of_mem_pairs hpair
  exact ⟨q.1, (mem_commitments ha).1, q.2, (mem_commitments hb).1, of_decide_eq_true hclash⟩

end Commitments

/-! ## Section 3: Days -/

section Days

variable (pf : Platform)

/-- The calendar of a zone is known over a span of instants, and goes on day by day. -/
structure DayByDay (zone : Text) (s t : Int) : Prop where
  known : ∀ at_, s ≤ at_ → at_ ≤ t → ∃ clock, pf.wallClock at_ zone = some clock
  next : ∀ at_ clock clock', s ≤ at_ → at_ < t → pf.wallClock at_ zone = some clock →
    pf.wallClock (at_ + 1) zone = some clock' →
      clock'.date = clock.date ∨ clock'.date = addDays pf clock.date 1
  later : ∀ at_ clock, s ≤ at_ → at_ ≤ t → pf.wallClock at_ zone = some clock →
    clock.date < addDays pf clock.date 1

/-- The days of the context follow on each other: none between two of them is missing. -/
def Consecutive (ctx : ConflictContext) : Prop :=
  ∀ d ∈ ctx.days, ∀ d' ∈ ctx.days, ∀ n, d ≤ (fun d => addDays pf d 1)^[n] d →
    (fun d => addDays pf d 1)^[n] d ≤ d' → (fun d => addDays pf d 1)^[n] d ∈ ctx.days

/-- An event of at most 400 days, the last of which is a day of the context only if the event's last
    millisecond is on such a day as well. -/
structure Regular (ctx : ConflictContext) (s t : Int) : Prop where
  days : DayByDay pf (dayZone ctx) s t
  short : ∀ first last, pf.wallClock s (dayZone ctx) = some first →
    pf.wallClock t (dayZone ctx) = some last →
      ∃ k < 400, last.date = (fun d => addDays pf d 1)^[k] first.date
  inside : ∀ last before, pf.wallClock t (dayZone ctx) = some last →
    pf.wallClock (t - 1) (dayZone ctx) = some before → last.date ∈ ctx.days →
      before.date ∈ ctx.days

/-- A day that an instant of the span, its end included, is on. -/
def DayIn (zone : Text) (s t : Int) (day : Text) : Prop :=
  ∃ at_ clock, s ≤ at_ ∧ at_ ≤ t ∧ pf.wallClock at_ zone = some clock ∧ clock.date = day

/-- An instant of an event that is on a day of the context. -/
def InstantOn (ctx : ConflictContext) (s t : Int) : Prop :=
  ∃ at_ clock, s ≤ at_ ∧ at_ < t ∧ pf.wallClock at_ (dayZone ctx) = some clock ∧
    clock.date ∈ ctx.days

variable {pf} {zone : Text} {s t : Int}

theorem DayByDay.sub (h : DayByDay pf zone s t) {u v : Int} (hu : s ≤ u) (hv : v ≤ t) :
    DayByDay pf zone u v where
  known at_ hs ht := h.known at_ (hu.trans hs) (ht.trans hv)
  next at_ _ _ hs ht := h.next at_ _ _ (hu.trans hs) (ht.trans_le hv)
  later at_ _ hs ht := h.later at_ _ (hu.trans hs) (ht.trans hv)

theorem DayIn.mono {u v : Int} {day : Text} (h : DayIn pf zone s t day) (hs : u ≤ s)
    (ht : t ≤ v) : DayIn pf zone u v day := by
  obtain ⟨at_, clock, hle, hge, hclock⟩ := h
  exact ⟨at_, clock, hs.trans hle, hge.trans ht, hclock⟩

/-- From one instant to a later one some days go by, each of which the span has an instant of. -/
theorem DayByDay.chain (h : DayByDay pf zone s t) (hst : s ≤ t) {first last : WallClock}
    (hfirst : pf.wallClock s zone = some first) (hlast : pf.wallClock t zone = some last) :
    ∃ k, last.date = (fun d => addDays pf d 1)^[k] first.date ∧
      ∀ m ≤ k, DayIn pf zone s t ((fun d => addDays pf d 1)^[m] first.date) := by
  obtain ⟨n, rfl⟩ := Int.le.dest hst
  induction n generalizing last with
  | zero =>
    obtain rfl : first = last := by simpa [hfirst] using hlast
    refine ⟨0, rfl, ?_⟩
    intro m hm
    obtain rfl : m = 0 := by omega
    exact ⟨s, first, le_refl s, by omega, hfirst, rfl⟩
  | succ n ih =>
    have hpush : s + ((n + 1 : ℕ) : Int) = s + n + 1 := by push_cast; ring
    rw [hpush] at h hlast ⊢
    obtain ⟨before, hbefore⟩ := h.known (s + n) (by omega) (by omega)
    obtain ⟨k, hk, hall⟩ := ih (h.sub (le_refl s) (by omega)) (by omega) hbefore
    have hall' : ∀ m ≤ k, DayIn pf zone s (s + n + 1)
        ((fun d => addDays pf d 1)^[m] first.date) :=
      fun m hm => (hall m hm).mono (le_refl s) (by omega)
    rcases h.next (s + n) before last (by omega) (by omega) hbefore hlast with hsame | hnext
    · exact ⟨k, hsame.trans hk, hall'⟩
    · have hstep : last.date = (fun d => addDays pf d 1)^[k + 1] first.date := by
        rw [Function.iterate_succ_apply', ← hk]
        exact hnext
      refine ⟨k + 1, hstep, ?_⟩
      intro m hm
      rcases Nat.lt_or_ge k m with hlt | hle
      · obtain rfl : m = k + 1 := by omega
        exact ⟨s + n + 1, last, by omega, le_refl _, hlast, hstep⟩
      · exact hall' m hle

/-- Each of the days that a span has an instant of comes before the next. -/
theorem DayByDay.increasing (h : DayByDay pf zone s t) {day : Text} {m k : Nat}
    (hall : ∀ m ≤ k, DayIn pf zone s t ((fun d => addDays pf d 1)^[m] day)) (hm : m ≤ k) :
    (fun d => addDays pf d 1)^[m] day < (fun d => addDays pf d 1)^[k + 1] day := by
  have hlater : ∀ m ≤ k, (fun d => addDays pf d 1)^[m] day <
      (fun d => addDays pf d 1)^[m + 1] day := by
    intro m hm
    obtain ⟨at_, clock, hs, ht, hclock, hdate⟩ := hall m hm
    rw [Function.iterate_succ_apply', ← hdate]
    exact h.later at_ clock hs ht hclock
  have hlt : ∀ j, m + j ≤ k → (fun d => addDays pf d 1)^[m] day <
      (fun d => addDays pf d 1)^[m + j + 1] day := by
    intro j hj
    induction j with
    | zero => exact hlater m hm
    | succ j ih => exact (ih (by omega)).trans (hlater (m + j + 1) (by omega))
  have := hlt (k - m) (by omega)
  rwa [show m + (k - m) + 1 = k + 1 by omega] at this

/-- The days that go by before a day are before it. -/
theorem DayByDay.before (h : DayByDay pf zone s t) {day : Text} {m k : Nat}
    (hall : ∀ m ≤ k, DayIn pf zone s t ((fun d => addDays pf d 1)^[m] day)) (hm : m < k) :
    (fun d => addDays pf d 1)^[m] day < (fun d => addDays pf d 1)^[k] day := by
  have := h.increasing (fun m hm => hall m (by omega)) (show m ≤ k - 1 by omega)
  rwa [show k - 1 + 1 = k by omega] at this

theorem DayByDay.le_of_chain (h : DayByDay pf zone s t) (hst : s ≤ t) {first last : WallClock}
    (hfirst : pf.wallClock s zone = some first) (hlast : pf.wallClock t zone = some last) :
    ∃ k, last.date = (fun d => addDays pf d 1)^[k] first.date ∧ first.date ≤ last.date := by
  obtain ⟨k, hk, hall⟩ := h.chain hst hfirst hlast
  refine ⟨k, hk, ?_⟩
  rcases Nat.eq_zero_or_pos k with rfl | hpos
  · exact hk.ge
  · rw [hk]
    exact (h.before hall hpos).le

/-- A touch is an instant: a regular event that touches a day has an instant on one. -/
theorem instantOn_of_touches {ctx : ConflictContext} {e : CalendarEvent} (hspan : Spans pf e s t)
    (h : Regular pf ctx s t) (htouch : Touches pf ctx e) : InstantOn pf ctx s t := by
  have hst := hspan.ordered
  obtain ⟨s', t', first, last, hspan', hfirst, hlast, n, -, hday, hupTo⟩ := htouch
  obtain ⟨rfl, rfl⟩ := hspan.unique hspan'
  obtain ⟨k, hk, hall⟩ := h.days.chain hst.le hfirst hlast
  obtain ⟨-, -, hfirst_le⟩ := h.days.le_of_chain hst.le hfirst hlast
  have hn : n ≤ k := by
    by_contra hgt
    have hle := hupTo (k + 1) (by omega)
    rw [max_eq_right hfirst_le, hk] at hle
    exact absurd (h.days.increasing hall (le_refl k)) (not_lt.2 hle)
  obtain ⟨at_, clock, hs, ht, hclock, hdate⟩ := hall n hn
  rw [← hdate] at hday
  rcases lt_or_eq_of_le ht with hlt | rfl
  · exact ⟨at_, clock, hs, hlt, hclock, hday⟩
  · -- the end is no instant of the event, but the millisecond before it is
    obtain ⟨before, hbefore⟩ := h.days.known (at_ - 1) (by omega) (by omega)
    exact ⟨at_ - 1, before, by omega, by omega, hbefore, h.inside clock before hclock hbefore hday⟩

/-- An instant is a touch: a regular event with an instant on a day touches it. -/
theorem touches_of_instantOn {ctx : ConflictContext} {e : CalendarEvent} (hspan : Spans pf e s t)
    (h : Regular pf ctx s t) (hon : InstantOn pf ctx s t) : Touches pf ctx e := by
  have hst := hspan.ordered
  obtain ⟨at_, clock, hs, ht, hclock, hday⟩ := hon
  obtain ⟨first, hfirst⟩ := h.days.known s (le_refl s) hst.le
  obtain ⟨last, hlast⟩ := h.days.known t hst.le (le_refl t)
  obtain ⟨n, hn, halln⟩ := (h.days.sub (le_refl s) ht.le).chain hs hfirst hclock
  obtain ⟨j, hj, hallj⟩ := (h.days.sub hs (le_refl t)).chain ht.le hclock hlast
  have hsum : last.date = (fun d => addDays pf d 1)^[n + j] first.date := by
    rw [hj, hn, ← Function.iterate_add_apply, Nat.add_comm]
  have hall : ∀ m ≤ n + j,
      DayIn pf (dayZone ctx) s t ((fun d => addDays pf d 1)^[m] first.date) := by
    intro m hm
    rcases Nat.le_total m n with hle | hge
    · exact (halln m hle).mono (le_refl s) ht.le
    · have hlater := (hallj (m - n) (by omega)).mono hs (le_refl t)
      rwa [hn, ← Function.iterate_add_apply, Nat.sub_add_cancel hge] at hlater
  have hle : ∀ m ≤ n, (fun d => addDays pf d 1)^[m] first.date ≤ last.date := by
    intro m hm
    rcases Nat.lt_or_ge m (n + j) with hlt | hge
    · rw [hsum]
      exact (h.days.before hall hlt).le
    · obtain rfl : m = n + j := by omega
      exact hsum.ge
  have hn400 : n < 400 := by
    obtain ⟨k, hk400, hk⟩ := h.short first last hfirst hlast
    by_contra hge
    have hlt := h.days.before hall (show k < n + j by omega)
    rw [← hk, ← hsum] at hlt
    exact lt_irrefl _ hlt
  refine ⟨s, t, first, last, hspan, hfirst, hlast, n, hn400, hn ▸ hday, ?_⟩
  intro m hm
  exact (hle m hm).trans (le_max_right _ _)

/-- Between two instants on days of the context, every instant is on one. -/
theorem Consecutive.between {ctx : ConflictContext} (hdays : Consecutive pf ctx) {u mid v : Int}
    {clock clock' : WallClock} (h : DayByDay pf (dayZone ctx) u mid)
    (h' : DayByDay pf (dayZone ctx) mid v) (hle : u ≤ mid) (hle' : mid ≤ v)
    (hclock : pf.wallClock u (dayZone ctx) = some clock)
    (hclock' : pf.wallClock v (dayZone ctx) = some clock') (hday : clock.date ∈ ctx.days)
    (hday' : clock'.date ∈ ctx.days) :
    ∃ clock, pf.wallClock mid (dayZone ctx) = some clock ∧ clock.date ∈ ctx.days := by
  obtain ⟨middle, hmiddle⟩ := h.known mid hle (le_refl mid)
  obtain ⟨n, hn, hfrom⟩ := h.le_of_chain hle hclock hmiddle
  obtain ⟨j, hj, hto⟩ := h'.le_of_chain hle' hmiddle hclock'
  rw [hn] at hfrom hto
  refine ⟨middle, hmiddle, ?_⟩
  rw [hn]
  exact hdays _ hday _ hday' n hfrom hto

/-- **The window of a pair**: where the days follow on each other, two regular events that overlap
    touch the days, each of them, if and only if an instant of both is on one. -/
theorem touches_iff_overlap {ctx : ConflictContext} {a b : CalendarEvent} {s' t' : Int}
    (hdays : Consecutive pf ctx) (ha : Spans pf a s t) (hb : Spans pf b s' t') (hst' : s < t')
    (hs't : s' < t) (h : Regular pf ctx s t) (h' : Regular pf ctx s' t') :
    Touches pf ctx a ∧ Touches pf ctx b ↔ OverlapOnDays pf ctx a b := by
  constructor
  · rintro ⟨htouch, htouch'⟩
    obtain ⟨at_, clock, hs, ht, hclock, hday⟩ := instantOn_of_touches ha h htouch
    obtain ⟨at', clock', hs', ht', hclock', hday'⟩ := instantOn_of_touches hb h' htouch'
    refine ⟨s, t, s', t', ha, hb, ?_⟩
    rcases lt_or_ge at_ s' with hearly | hin
    · rcases lt_or_ge at' t with hin' | hlate
      · exact ⟨at', clock', by omega, hs', hin', ht', hclock', hday'⟩
      · -- one is before the overlap and the other after it: its first instant is between them
        obtain ⟨middle, hmiddle, hmem⟩ := hdays.between (h.days.sub hs hs't.le)
          (h'.days.sub (le_refl s') ht'.le) hearly.le hs' hclock hclock' hday hday'
        exact ⟨s', middle, by omega, le_refl s', hs't, by omega, hmiddle, hmem⟩
    · rcases lt_or_ge at_ t' with hbefore | hlate
      · exact ⟨at_, clock, hs, hin, ht, hbefore, hclock, hday⟩
      · rcases lt_or_ge at' s with hearly' | hin'
        · obtain ⟨middle, hmiddle, hmem⟩ := hdays.between (h'.days.sub hs' hst'.le)
            (h.days.sub (le_refl s) ht.le) hearly'.le hs hclock' hclock hday' hday
          exact ⟨s, middle, le_refl s, by omega, by omega, hst', hmiddle, hmem⟩
        · exact ⟨at', clock', hin', hs', by omega, ht', hclock', hday'⟩
  · rintro ⟨u, v, u', v', ha', hb', at_, clock, hs, hs', ht, ht', hclock, hday⟩
    obtain ⟨rfl, rfl⟩ := ha.unique ha'
    obtain ⟨rfl, rfl⟩ := hb.unique hb'
    exact ⟨touches_of_instantOn ha h ⟨at_, clock, hs, ht, hclock, hday⟩,
      touches_of_instantOn hb h' ⟨at_, clock, hs', ht', hclock, hday⟩⟩

end Days

/-! ## Section 4: The seams -/

section Seams

variable (pf : Platform)

/-- The rows of a list in the order of the pass, each with its place. -/
def placed (events : List CalendarEvent) : List (CalendarEvent × Nat) :=
  (sort (compareEvents pf) events).zipIdx

/-- The rows that their keys let stay. -/
def staying (events : List CalendarEvent) : List (CalendarEvent × Nat) :=
  Selection.pick (fun a b => sharesKey pf a.1 b.1) (placed pf events)

/-- The rows that stand for a commitment. -/
def standing (events : List CalendarEvent) : List (CalendarEvent × Nat) :=
  Selection.pick (fun a b => decide (SameCommitment pf a.1 b.1))
    ((placed pf events).filter fun a => isTimed pf a.1)

/-- Where the pass reads written times and single events, no clash hangs on it. -/
structure SeamsHidden (events : List CalendarEvent) (ctx : ConflictContext) : Prop where
  /-- A commitment that is left out for its keys clashes with none on the days. -/
  merged : ∀ a ∈ standing pf events, a ∉ staying pf events →
    ∀ b ∈ standing pf events, a ≠ b → ¬ ClashOnDays pf ctx a.1 b.1
  /-- A copy that stays, its keys being other ones, clashes with no row of the window. -/
  split : ∀ a ∈ staying pf events, a ∉ standing pf events →
    ∀ b ∈ staying pf events, a ≠ b → ¬ Reported pf ctx a.1 b.1
  /-- Two commitments that overlap are in the window, each of them, if their overlap is. -/
  window : ∀ a ∈ standing pf events, a ∈ staying pf events →
    ∀ b ∈ standing pf events, b ∈ staying pf events → a ≠ b → Clash pf a.1 b.1 →
      (Touches pf ctx a.1 ∧ Touches pf ctx b.1 ↔ OverlapOnDays pf ctx a.1 b.1)

variable {pf} {events : List CalendarEvent} {ctx : ConflictContext}

theorem Clash.symm {a b : CalendarEvent} (h : Clash pf a b) : Clash pf b a := by
  obtain ⟨hina, hinb, hfirm, s, t, s', t', ha, hb, hst', hs't⟩ := h
  exact ⟨hinb, hina, fun hsoft => hfirm hsoft.symm, s', t', s, t, hb, ha, hs't, hst'⟩

theorem Reported.symm {a b : CalendarEvent} (h : Reported pf ctx a b) : Reported pf ctx b a :=
  ⟨h.1.symm, h.2.2, h.2.1⟩

theorem ClashOnDays.symm {a b : CalendarEvent} (h : ClashOnDays pf ctx a b) :
    ClashOnDays pf ctx b a := by
  obtain ⟨hother, hclash, s, t, s', t', ha, hb, at_, clock, hs, hs', ht, ht', hclock⟩ := h
  exact ⟨fun hsame => hother hsame.symm, hclash.symm, s', t', s, t, hb, ha, at_, clock, hs', hs,
    ht', ht, hclock⟩

theorem nodup_placed : (placed pf events).Nodup := by
  have hplaces : ((placed pf events).map Prod.snd).Nodup := by
    rw [placed, List.zipIdx_map_snd]
    exact List.nodup_range'
  exact hplaces.of_map

theorem staying_sublist : (staying pf events).Sublist (placed pf events) :=
  Selection.pick_sublist _

theorem standing_sublist : (standing pf events).Sublist (placed pf events) :=
  (Selection.pick_sublist _).trans List.filter_sublist

theorem map_staying : (staying pf events).map Prod.fst = remaining pf events := by
  rw [staying, Selection.pick_map Prod.fst, placed, List.zipIdx_map_fst, remaining]

theorem map_standing : (standing pf events).map Prod.fst = commitments pf events := by
  have htimed : ((placed pf events).filter fun a => isTimed pf a.1).map Prod.fst =
      (sort (compareEvents pf) events).filter (isTimed pf) := by
    rw [placed, ← Function.comp_def (isTimed pf) Prod.fst, ← List.filter_map, List.zipIdx_map_fst]
  have hmap := Selection.pick_map (r := fun a b => decide (SameCommitment pf a b)) Prod.fst
    ((placed pf events).filter fun a => isTimed pf a.1)
  rw [standing, hmap, htimed, commitments]

/-- Two rows that stand are different commitments. -/
theorem different_of_standing {a b : CalendarEvent × Nat} (ha : a ∈ standing pf events)
    (hb : b ∈ standing pf events) (hne : a ≠ b) : ¬ SameCommitment pf a.1 b.1 := by
  intro hsame
  rcases mem_pairs_or ha hb hne with h | h
  · exact of_decide_eq_false (rel_of_mem_pairs (Selection.pick_pairwise _) h) hsame.symm
  · exact of_decide_eq_false (rel_of_mem_pairs (Selection.pick_pairwise _) h) hsame

/-- Pair by pair, what the pass reports is what clashes on the days. -/
def PairsAgree (pf : Platform) (events : List CalendarEvent) (ctx : ConflictContext) : Prop :=
  ∀ q ∈ pairs (placed pf events),
    (Reported pf ctx q.1.1 q.2.1 ∧ q.1 ∈ staying pf events ∧ q.2 ∈ staying pf events ↔
      ClashOnDays pf ctx q.1.1 q.2.1 ∧ q.1 ∈ standing pf events ∧ q.2 ∈ standing pf events)

theorem pairsAgree_of_hidden (h : SeamsHidden pf events ctx) : PairsAgree pf events ctx := by
  rintro ⟨a, b⟩ hpair
  have hne : a ≠ b := ne_of_mem_pairs nodup_placed hpair
  constructor
  · rintro ⟨hreported, ha, hb⟩
    have hstanda : a ∈ standing pf events := by
      by_contra hout
      exact h.split a ha hout b hb hne hreported
    have hstandb : b ∈ standing pf events := by
      by_contra hout
      exact h.split b hb hout a ha hne.symm hreported.symm
    exact ⟨⟨different_of_standing hstanda hstandb hne, hreported.1,
      (h.window a hstanda ha b hstandb hb hne hreported.1).1 hreported.2⟩, hstanda, hstandb⟩
  · rintro ⟨hclash, ha, hb⟩
    have hstaya : a ∈ staying pf events := by
      by_contra hout
      exact h.merged a ha hout b hb hne hclash
    have hstayb : b ∈ staying pf events := by
      by_contra hout
      exact h.merged b hb hout a ha hne.symm hclash.symm
    exact ⟨⟨hclash.2.1, (h.window a ha hstaya b hb hstayb hne hclash.2.1).2 hclash.2.2⟩, hstaya,
      hstayb⟩

theorem PairsAgree.either (h : PairsAgree pf events ctx) {a b : CalendarEvent × Nat}
    (ha : a ∈ placed pf events) (hb : b ∈ placed pf events) (hne : a ≠ b) :
    (Reported pf ctx a.1 b.1 ∧ a ∈ staying pf events ∧ b ∈ staying pf events ↔
      ClashOnDays pf ctx a.1 b.1 ∧ a ∈ standing pf events ∧ b ∈ standing pf events) := by
  rcases mem_pairs_or ha hb hne with hpair | hpair
  · exact h _ hpair
  · constructor
    · rintro ⟨hreported, hstay, hstay'⟩
      obtain ⟨hclash, hstand, hstand'⟩ := (h _ hpair).1 ⟨hreported.symm, hstay', hstay⟩
      exact ⟨hclash.symm, hstand', hstand⟩
    · rintro ⟨hclash, hstand, hstand'⟩
      obtain ⟨hreported, hstay, hstay'⟩ := (h _ hpair).2 ⟨hclash.symm, hstand', hstand⟩
      exact ⟨hreported.symm, hstay', hstay⟩

theorem hidden_of_pairsAgree (h : PairsAgree pf events ctx) : SeamsHidden pf events ctx where
  merged a ha hout b hb hne hclash := by
    have hmema := standing_sublist.subset ha
    have hmemb := standing_sublist.subset hb
    exact hout ((h.either hmema hmemb hne).2 ⟨hclash, ha, hb⟩).2.1
  split a ha hout b hb hne hreported := by
    have hmema := staying_sublist.subset ha
    have hmemb := staying_sublist.subset hb
    exact hout ((h.either hmema hmemb hne).1 ⟨hreported, ha, hb⟩).2.1
  window a ha hstay b hb hstay' hne hclash := by
    have hmema := standing_sublist.subset ha
    have hmemb := standing_sublist.subset hb
    constructor
    · intro htouch
      exact ((h.either hmema hmemb hne).1 ⟨⟨hclash, htouch⟩, hstay, hstay'⟩).1.2.2
    · intro hoverlap
      have hother := different_of_standing ha hb hne
      exact ((h.either hmema hmemb hne).2 ⟨⟨hother, hclash, hoverlap⟩, ha, hb⟩).1.2

/-! ### Findings of placed rows -/

open Classical in
/-- The pairs of placed rows that the pass reports. -/
noncomputable def reportedPairs (pf : Platform) (events : List CalendarEvent)
    (ctx : ConflictContext) : List ((CalendarEvent × Nat) × (CalendarEvent × Nat)) :=
  (pairs (placed pf events)).filter fun q => Reported pf ctx q.1.1 q.2.1 ∧
    q.1 ∈ staying pf events ∧ q.2 ∈ staying pf events

open Classical in
/-- The pairs of placed rows that clash on the days. -/
noncomputable def clashingPairs (pf : Platform) (events : List CalendarEvent)
    (ctx : ConflictContext) : List ((CalendarEvent × Nat) × (CalendarEvent × Nat)) :=
  (pairs (placed pf events)).filter fun q => ClashOnDays pf ctx q.1.1 q.2.1 ∧
    q.1 ∈ standing pf events ∧ q.2 ∈ standing pf events

/-- What a finding shows of two rows. -/
def shown (pf : Platform) (q : (CalendarEvent × Nat) × (CalendarEvent × Nat)) :
    List ConflictEventRef := startOrder pf q.1.1 q.2.1

open Classical in
theorem mem_reportedPairs {q : (CalendarEvent × Nat) × (CalendarEvent × Nat)} :
    q ∈ reportedPairs pf events ctx ↔ q ∈ pairs (placed pf events) ∧
      Reported pf ctx q.1.1 q.2.1 ∧ q.1 ∈ staying pf events ∧ q.2 ∈ staying pf events := by
  rw [reportedPairs, List.mem_filter, decide_eq_true_eq]

open Classical in
theorem mem_clashingPairs {q : (CalendarEvent × Nat) × (CalendarEvent × Nat)} :
    q ∈ clashingPairs pf events ctx ↔ q ∈ pairs (placed pf events) ∧
      ClashOnDays pf ctx q.1.1 q.2.1 ∧ q.1 ∈ standing pf events ∧ q.2 ∈ standing pf events := by
  rw [clashingPairs, List.mem_filter, decide_eq_true_eq]

open Classical in
theorem map_reportedPairs :
    (reportedPairs pf events ctx).map (shown pf) =
      ((pairs (remaining pf events)).filter fun q => Reported pf ctx q.1 q.2).map
        fun q => startOrder pf q.1 q.2 := by
  rw [← map_staying, pairs_map, List.filter_map, List.map_map,
    pairs_of_sublist staying_sublist nodup_placed]
  refine congrArg (List.map (shown pf)) (List.filter_congr fun q _ => ?_)
  rw [Bool.eq_iff_iff]
  simp

open Classical in
theorem map_clashingPairs :
    (clashingPairs pf events ctx).map (shown pf) =
      ((pairs (commitments pf events)).filter fun q => ClashOnDays pf ctx q.1 q.2).map
        fun q => startOrder pf q.1 q.2 := by
  rw [← map_standing, pairs_map, List.filter_map, List.map_map,
    pairs_of_sublist standing_sublist nodup_placed]
  refine congrArg (List.map (shown pf)) (List.filter_congr fun q _ => ?_)
  rw [Bool.eq_iff_iff]
  simp

open Classical in
/-- The findings are exact when the two lists of pairs show the same. -/
theorem foundExactly_iff
    (hcap : (windowed pf events ctx).length ≤ ctx.maxEvents.getD MAX_CONFLICT_EVENTS) :
    FoundExactly pf events ctx ↔ ((reportedPairs pf events ctx).map (shown pf)).Perm
      ((clashingPairs pf events ctx).map (shown pf)) := by
  rw [map_reportedPairs, map_clashingPairs, FoundExactly]
  exact (doubleBookings_perm hcap).congr_left _

/-- Rows that a finding tells apart: a pair of them is known by what is shown of it. -/
theorem shown_injective (hrefs : (events.map refOf).Nodup)
    {q q' : (CalendarEvent × Nat) × (CalendarEvent × Nat)} (h : q ∈ pairs (placed pf events))
    (h' : q' ∈ pairs (placed pf events)) (hsame : shown pf q = shown pf q') : q = q' := by
  have hsorted : ((sort (compareEvents pf) events).map refOf).Nodup :=
    (((sort_perm events).map refOf).nodup_iff).2 hrefs
  have hplaced : ((placed pf events).map fun a => refOf a.1).Nodup := by
    rwa [← Function.comp_def refOf Prod.fst, ← List.map_map, placed, List.zipIdx_map_fst]
  have hrow : ∀ a ∈ placed pf events, ∀ b ∈ placed pf events, refOf a.1 = refOf b.1 → a = b :=
    fun a ha b hb hab => List.inj_on_of_nodup_map hplaced ha hb hab
  obtain ⟨a, b⟩ := q
  obtain ⟨a', b'⟩ := q'
  obtain ⟨ha, hb⟩ := mem_of_mem_pairs h
  obtain ⟨ha', hb'⟩ := mem_of_mem_pairs h'
  have hcases : (refOf a.1 = refOf a'.1 ∧ refOf b.1 = refOf b'.1) ∨
      (refOf a.1 = refOf b'.1 ∧ refOf b.1 = refOf a'.1) := by
    unfold shown startOrder at hsame
    split at hsame <;> split at hsame <;>
      simp only [List.cons.injEq, and_true] at hsame <;> tauto
  rcases hcases with ⟨hfst, hsnd⟩ | ⟨hfst, hsnd⟩
  · rw [hrow a ha a' ha' hfst, hrow b hb b' hb' hsnd]
  · -- the same two rows the other way round
    rw [← hrow a ha b' hb' hfst, ← hrow b hb a' ha' hsnd] at h'
    exact absurd h' (swap_not_mem_pairs nodup_placed h)

/-- Where a finding tells the rows apart, exact findings are exact pair by pair. -/
theorem pairsAgree_of_found (hrefs : (events.map refOf).Nodup)
    (h : ((reportedPairs pf events ctx).map (shown pf)).Perm
      ((clashingPairs pf events ctx).map (shown pf))) : PairsAgree pf events ctx := by
  intro q hq
  constructor
  · intro hreported
    have hmem := mem_reportedPairs.2 ⟨hq, hreported⟩
    obtain ⟨q', hq', hshown⟩ := List.mem_map.1 (h.subset (List.mem_map_of_mem hmem))
    obtain ⟨hpair, hclash⟩ := mem_clashingPairs.1 hq'
    rwa [shown_injective hrefs hpair hq hshown] at hclash
  · intro hclash
    have hmem := mem_clashingPairs.2 ⟨hq, hclash⟩
    obtain ⟨q', hq', hshown⟩ := List.mem_map.1 (h.symm.subset (List.mem_map_of_mem hmem))
    obtain ⟨hpair, hreported⟩ := mem_reportedPairs.1 hq'
    rwa [shown_injective hrefs hpair hq hshown] at hreported

end Seams

/-! ### Runs -/

/-- The day of 2026-07-15. -/
theorem utc_regular {ctx : ConflictContext} (hzone : dayZone ctx = "UTC".toList) {s t : Int}
    (hs : 1784073600000 ≤ s) (hst : s < t) (ht : t < 1784160000000) : Regular utc ctx s t := by
  have hdate : ∀ at_, s - 1 < at_ → at_ ≤ t → ∀ clock, utc.wallClock at_ "UTC".toList = some clock →
      clock.date = utcDate 20649 := by
    intro at_ hfrom hto clock hclock
    have hday : at_ / 86400000 = 20649 := by omega
    simp only [utc, if_true, Option.some.injEq] at hclock
    rw [← hclock, hday]
    rfl
  refine ⟨⟨?_, ?_, ?_⟩, ?_, ?_⟩
  · intro at_ _ _
    rw [hzone]
    exact ⟨_, rfl⟩
  · intro at_ clock clock' hfrom hto hclock hclock'
    rw [hzone] at hclock hclock'
    exact .inl ((hdate _ (by omega) (by omega) _ hclock').trans
      (hdate _ (by omega) (by omega) _ hclock).symm)
  · intro at_ clock hfrom hto hclock
    rw [hzone] at hclock
    rw [hdate _ (by omega) hto _ hclock]
    decide +kernel
  · intro first last hfirst hlast
    rw [hzone] at hfirst hlast
    exact ⟨0, by omega, (hdate _ (by omega) (by omega) _ hlast).trans
      (hdate _ (by omega) (by omega) _ hfirst).symm⟩
  · intro last before hlast hbefore hday
    rw [hzone] at hlast hbefore
    rw [hdate _ (by omega) (by omega) _ hbefore]
    rwa [hdate _ (by omega) (by omega) _ hlast] at hday

theorem plainContext_consecutive (day : String) : Consecutive utc (plainContext [day]) := by
  intro d hd d' hd' n hfrom hto
  obtain rfl : d = day.toList := by simpa [plainContext] using hd
  obtain rfl : d' = day.toList := by simpa [plainContext] using hd'
  rw [le_antisymm hto hfrom]
  exact hd

/-- An invitation, with what all its copies have in common. -/
def invited : CalendarEvent := { standup with iCalUID := some "standup@team".toList }

/-- The invitation as another account has it. -/
def invitedAtWork : CalendarEvent :=
  { invited with id := "e3".toList, account := some "work".toList }

def call : CalendarEvent := plainEvent "e4" "Call" "2026-07-15T22:00:00Z" "2026-07-16T00:00:00Z"

def dinner : CalendarEvent := plainEvent "e5" "Dinner" "2026-07-15T20:00:00Z" "2026-07-16T00:00:00Z"

/-- The invitation as a calendar two hours east writes it. -/
def invitedAbroad : CalendarEvent :=
  { invited with
      id := "e6".toList
      start := "2026-07-15T11:00:00+02:00".toList
      «end» := "2026-07-15T12:00:00+02:00".toList }

end Lares.Calendar
