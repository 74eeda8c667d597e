import Lares.Calendar.Conflicts
import Lares.Framework.Selection
import Mathlib

/-! # What the findings of a calendar say

    * **Copies**: de-duplication goes through the sorted events and keeps each
      one that shares no key with an event kept before.
    * **Order of answers**: the sort cannot tell events with the same times,
      title and id apart. Of two such copies the first one answered stays, with
      its own status and response.
    * **Double bookings** are the overlapping pairs of the events that remain
      and touch a day of the context.
-/

namespace Lares.Calendar

open Comparators Lines

variable (pf : Platform)

/-! ## Section 1: Copies -/

/-- One key of both: the first is a copy of the second. -/
def sharesKey (a b : CalendarEvent) : Bool :=
  (dedupeKeys pf a).any fun k => (dedupeKeys pf b).any fun s => s = k

/-- The events that de-duplication is to keep. -/
def remaining (events : List CalendarEvent) : List CalendarEvent :=
  Selection.pick (sharesKey pf) (sort (compareEvents pf) events)

variable {pf}

theorem mem_seen {kept : List CalendarEvent} {e : CalendarEvent} :
    ((dedupeKeys pf e).any fun k => (kept.flatMap (dedupeKeys pf)).any fun s => s = k) =
      kept.any (sharesKey pf e) := by
  rw [Bool.eq_iff_iff]
  simp only [sharesKey, List.any_eq_true, List.mem_flatMap, decide_eq_true_eq]
  constructor
  · rintro ⟨k, hk, s, ⟨b, hb, hs⟩, hsk⟩
    exact ⟨b, hb, k, hk, s, hs, hsk⟩
  · rintro ⟨b, hb, k, hk, s, hs, hsk⟩
    exact ⟨k, hk, s, ⟨b, hb, hs⟩, hsk⟩

theorem keep_eq_pickFrom (kept events : List CalendarEvent) :
    keep pf (kept.flatMap (dedupeKeys pf)) events =
      Selection.pickFrom (sharesKey pf) kept events := by
  induction events generalizing kept with
  | nil => rfl
  | cons e events ih =>
    rw [keep, Selection.pickFrom, mem_seen]
    by_cases hseen : kept.any (sharesKey pf e)
    · rw [if_pos hseen, if_pos hseen, ih kept]
    · have hkeys : kept.flatMap (dedupeKeys pf) ++ dedupeKeys pf e =
          (kept ++ [e]).flatMap (dedupeKeys pf) := by simp
      rw [if_neg hseen, if_neg hseen, hkeys, ih (kept ++ [e])]

/-- What the source keeps is what remains. -/
theorem dedupeEvents_eq (events : List CalendarEvent) :
    dedupeEvents pf events = remaining pf events :=
  keep_eq_pickFrom [] (sort (compareEvents pf) events)

theorem compareEvents_consistent (hcmp : Consistent pf.localeCompare) :
    Consistent (compareEvents pf) :=
  (hcmp.comap CalendarEvent.start).orElse ((hcmp.comap CalendarEvent.end).orElse
    ((hcmp.comap CalendarEvent.summary).orElse (hcmp.comap CalendarEvent.id)))

/-! ## Section 2: The order of the answers -/

/-- Any two events that the sort cannot tell apart are one. -/
def Distinguished (pf : Platform) (events : List CalendarEvent) : Prop :=
  ∀ a ∈ events, ∀ b ∈ events, compareEvents pf a b = 0 → a = b

theorem dedupeEvents_perm (hcmp : Consistent pf.localeCompare) {events events' : List CalendarEvent}
    (hties : Distinguished pf events) (hperm : events.Perm events') :
    dedupeEvents pf events = dedupeEvents pf events' := by
  rw [dedupeEvents, dedupeEvents, sort_eq_of_perm (compareEvents_consistent hcmp) hperm hties]

theorem detect_congr {events events' : List CalendarEvent}
    (hdedupe : dedupeEvents pf events = dedupeEvents pf events') (ctx : ConflictContext) :
    detectCalendarConflicts pf events ctx = detectCalendarConflicts pf events' ctx := by
  simp only [detectCalendarConflicts, windowed, hdedupe]

/-- Of two events that tie, the one answered first is kept. -/
theorem head_dedupeEvents {a b : CalendarEvent} (htie : compareEvents pf a b = 0) :
    (dedupeEvents pf [a, b]).head? = some a := by
  rw [dedupeEvents_eq, remaining, sort_pair htie.le, Selection.pick_cons]
  rfl

theorem distinguished_of_parts (hcmp : Consistent pf.localeCompare) {events : List CalendarEvent}
    (hparts : ∀ part part', part.Subperm events → part.Perm part' →
      dedupeEvents pf part = dedupeEvents pf part') : Distinguished pf events := by
  intro a ha b hb htie
  by_contra hne
  have hnodup : [a, b].Nodup := by simp [hne]
  have hsub : [a, b].Subperm events := hnodup.subperm (by simp [ha, hb])
  have hsame := hparts [a, b] [b, a] hsub (List.Perm.swap b a [])
  have htie' : compareEvents pf b a = 0 := ((compareEvents_consistent hcmp).tie).1 htie
  have hheads := head_dedupeEvents htie
  rw [hsame, head_dedupeEvents htie', Option.some.injEq] at hheads
  exact hne hheads.symm

/-- Without ties the findings are those of every order, in every context. And
    that is when the copy that stays, of the events or of a part of them, is
    the same in every order. -/
theorem detect_order_free (hcmp : Consistent pf.localeCompare) (events : List CalendarEvent) :
    (Distinguished pf events → ∀ events' ctx, events.Perm events' →
      detectCalendarConflicts pf events ctx = detectCalendarConflicts pf events' ctx) ∧
    ((∀ part part', part.Subperm events → part.Perm part' →
      dedupeEvents pf part = dedupeEvents pf part') ↔ Distinguished pf events) := by
  constructor
  · intro hties events' ctx hperm
    exact detect_congr (dedupeEvents_perm hcmp hties hperm) ctx
  · constructor
    · exact distinguished_of_parts hcmp
    · intro hties part part' hsub hperm
      refine dedupeEvents_perm hcmp ?_ hperm
      intro a ha b hb
      exact hties a (hsub.subset ha) b (hsub.subset hb)

/-! ## Section 3: Double bookings -/

section DoubleBookings

variable (pf)

/-- The instants of a timed event, in the order of a meeting. -/
structure Spans (e : CalendarEvent) (s t : Int) : Prop where
  /-- It has a time of day. -/
  timed : isAllDay e = false
  /-- When it begins. -/
  start : pf.parse e.start = some s
  /-- When it ends, and no longer goes on. -/
  stop : pf.parse e.end = some t
  /-- It takes some time. -/
  ordered : s < t

/-- Two timed commitments, at least one of them firm, that overlap. -/
def Clash (a b : CalendarEvent) : Prop :=
  commitmentOf pf a ≠ .excluded ∧ commitmentOf pf b ≠ .excluded ∧
    ¬ (commitmentOf pf a = .tentative ∧ commitmentOf pf b = .tentative) ∧
    ∃ s t s' t', Spans pf a s t ∧ Spans pf b s' t' ∧ s < t' ∧ s' < t

/-- A day of the context among the first 400 from the day of the start to the day of the end. -/
def Touches (ctx : ConflictContext) (e : CalendarEvent) : Prop :=
  ∃ s t first last, Spans pf e s t ∧ pf.wallClock s (dayZone ctx) = some first ∧
    pf.wallClock t (dayZone ctx) = some last ∧
    ∃ n < 400, (fun d => addDays pf d 1)^[n] first.date ∈ ctx.days ∧
      ∀ m ≤ n, (fun d => addDays pf d 1)^[m] first.date ≤ max first.date last.date

/-- What is to be reported of the events that remain. -/
def Reported (ctx : ConflictContext) (a b : CalendarEvent) : Prop :=
  Clash pf a b ∧ Touches pf ctx a ∧ Touches pf ctx b

/-- The two events of a finding, the one that starts first in front. -/
def startOrder (a b : CalendarEvent) : List ConflictEventRef :=
  if (pf.parse a.start).getD 0 ≤ (pf.parse b.start).getD 0 then [refOf a, refOf b]
  else [refOf b, refOf a]

variable {pf}

theorem Spans.unique {e : CalendarEvent} {s t s' t' : Int} (h : Spans pf e s t)
    (h' : Spans pf e s' t') : s = s' ∧ t = t' :=
  ⟨Option.some.inj (h.start.symm.trans h'.start), Option.some.inj (h.stop.symm.trans h'.stop)⟩

theorem timedSpan_of_spans {e : CalendarEvent} {s t : Int} (h : Spans pf e s t) :
    timedSpan pf e = some ⟨s, t⟩ := by
  have hlt := h.ordered
  rw [timedSpan, if_neg (by simp [h.timed]), h.start, h.stop]
  exact if_neg (show ¬ t ≤ s by omega)

theorem spans_of_timedSpan {e : CalendarEvent} {span : Span} (h : timedSpan pf e = some span) :
    Spans pf e span.start span.end := by
  unfold timedSpan at h
  by_cases hday : isAllDay e = true
  · rw [if_pos hday] at h
    cases h
  · rw [if_neg hday] at h
    cases hstart : pf.parse e.start with
    | none => simp [hstart] at h
    | some s =>
      cases hstop : pf.parse e.end with
      | none => simp [hstart, hstop] at h
      | some t =>
        by_cases hle : t ≤ s
        · simp [hstart, hstop, hle] at h
        · simp only [hstart, hstop, hle, if_false, Option.some.injEq] at h
          subst h
          exact ⟨by simpa using hday, hstart, hstop, show s < t by omega⟩

theorem timedOf_of_spans {e : CalendarEvent} {s t : Int} (h : Spans pf e s t)
    (hin : commitmentOf pf e ≠ .excluded) :
    timedOf pf e = some ⟨e, ⟨s, t⟩, commitmentOf pf e⟩ := by
  rw [timedOf, timedSpan_of_spans h]
  exact if_neg hin

theorem spans_of_timedOf {e : CalendarEvent} {x : Timed} (h : timedOf pf e = some x) :
    commitmentOf pf e ≠ .excluded ∧ Spans pf e x.span.start x.span.end ∧
      x = ⟨e, x.span, commitmentOf pf e⟩ := by
  unfold timedOf at h
  cases hspan : timedSpan pf e with
  | none => simp [hspan] at h
  | some span =>
    by_cases hout : commitmentOf pf e = .excluded
    · simp [hspan, hout] at h
    · simp only [hspan, hout, if_false, Option.some.injEq] at h
      subst h
      exact ⟨hout, spans_of_timedSpan hspan, rfl⟩

/-- The finding of two events. -/
def findingOf (pf : Platform) (a b : CalendarEvent) : Option CalendarConflict :=
  (timedOf pf a).bind fun x => (timedOf pf b).bind fun y => doubleBooking x y

theorem findingOf_of_clash {a b : CalendarEvent} (h : Clash pf a b) :
    (findingOf pf a b).map CalendarConflict.events = some (startOrder pf a b) := by
  obtain ⟨hina, hinb, hfirm, s, t, s', t', ha, hb, hst', hs't⟩ := h
  rw [findingOf, timedOf_of_spans ha hina, timedOf_of_spans hb hinb]
  have hoverlap : ¬ (t' ≤ s ∨ t ≤ s') := by omega
  simp only [Option.bind_some, doubleBooking, hoverlap, hfirm, if_false, Option.map_some,
    startOrder, ha.start, hb.start, Option.getD_some]
  split <;> rfl

theorem clash_of_findingOf {a b : CalendarEvent} (h : (findingOf pf a b).isSome) :
    Clash pf a b := by
  obtain ⟨c, hc⟩ := Option.isSome_iff_exists.1 h
  obtain ⟨x, hx, hrest⟩ := Option.bind_eq_some_iff.1 hc
  obtain ⟨y, hy, hfound⟩ := Option.bind_eq_some_iff.1 hrest
  obtain ⟨hina, hspana, hxe⟩ := spans_of_timedOf hx
  obtain ⟨hinb, hspanb, hye⟩ := spans_of_timedOf hy
  have hlevelx : x.level = commitmentOf pf a := by rw [hxe]
  have hlevely : y.level = commitmentOf pf b := by rw [hye]
  unfold doubleBooking at hfound
  by_cases hapart : y.span.end ≤ x.span.start ∨ x.span.end ≤ y.span.start
  · rw [if_pos hapart] at hfound
    cases hfound
  · rw [if_neg hapart] at hfound
    by_cases hsoft : x.level = .tentative ∧ y.level = .tentative
    · rw [if_pos hsoft] at hfound
      cases hfound
    · rw [hlevelx, hlevely] at hsoft
      exact ⟨hina, hinb, hsoft, _, _, _, _, hspana, hspanb, by omega, by omega⟩

theorem pairs_filter {α : Type} (p : α → Bool) (l : List α) :
    pairs (l.filter p) = (pairs l).filter fun q => p q.1 && p q.2 := by
  induction l with
  | nil => rfl
  | cons a l ih =>
    rw [pairs, List.filter_append, ← ih, List.filter_map]
    by_cases ha : p a = true
    · simp [ha, pairs, Function.comp_def]
    · simp [ha, Function.comp_def]

theorem doubleBookings_eq (events : List CalendarEvent) :
    doubleBookings pf events = (pairs events).filterMap fun q => findingOf pf q.1 q.2 := by
  unfold doubleBookings
  induction events with
  | nil => rfl
  | cons e events ih =>
    rw [pairs, List.filterMap_append, ← ih, List.filterMap_map]
    cases htimed : timedOf pf e with
    | none => simp [htimed, findingOf, Function.comp_def]
    | some x =>
      simp [htimed, findingOf, pairs, Function.comp_def, List.filterMap_map, List.filterMap_filterMap]

open Classical in
/-- The double bookings of a list are its clashes. -/
theorem map_doubleBookings (events : List CalendarEvent) :
    (doubleBookings pf events).map CalendarConflict.events =
      ((pairs events).filter fun q => Clash pf q.1 q.2).map fun q => startOrder pf q.1 q.2 := by
  have hfinding : ∀ q : CalendarEvent × CalendarEvent,
      (findingOf pf q.1 q.2).map CalendarConflict.events =
        if Clash pf q.1 q.2 then some (startOrder pf q.1 q.2) else none := by
    intro q
    by_cases hclash : Clash pf q.1 q.2
    · rw [if_pos hclash, findingOf_of_clash hclash]
    · rw [if_neg hclash, Option.map_eq_none_iff]
      by_contra hsome
      exact hclash (clash_of_findingOf (Option.isSome_iff_ne_none.2 hsome))
  rw [doubleBookings_eq, List.map_filterMap, List.filterMap_congr fun q _ => hfinding q]
  induction pairs events with
  | nil => rfl
  | cons q l ih =>
    by_cases hclash : Clash pf q.1 q.2
    · simp [hclash, ih]
    · simp [hclash, ih]

/-! ### The window -/

theorem mem_daySpanFrom {k : Nat} {d first last : Text} :
    d ∈ daySpanFrom pf k first last ↔ ∃ n < k, (fun d => addDays pf d 1)^[n] first = d ∧
      ∀ m ≤ n, (fun d => addDays pf d 1)^[m] first ≤ last := by
  induction k generalizing first with
  | zero => simp [daySpanFrom]
  | succ k ih =>
    rw [daySpanFrom]
    by_cases hle : first ≤ last
    · rw [if_pos hle, List.mem_cons, ih]
      constructor
      · rintro (rfl | ⟨n, hn, hd, hall⟩)
        · exact ⟨0, by omega, rfl, fun m hm => by simpa [Nat.le_zero.1 hm] using hle⟩
        · refine ⟨n + 1, by omega, hd, ?_⟩
          intro m hm
          cases m with
          | zero => exact hle
          | succ m => exact hall m (by omega)
      · rintro ⟨n, hn, hd, hall⟩
        cases n with
        | zero => exact .inl hd.symm
        | succ n => exact .inr ⟨n, by omega, hd, fun m hm => hall (m + 1) (by omega)⟩
    · rw [if_neg hle]
      refine iff_of_false (by simp) ?_
      rintro ⟨n, hn, hd, hall⟩
      exact hle (hall 0 (Nat.zero_le n))

theorem coveredDays_of_spans {e : CalendarEvent} {s t : Int} {home : Text}
    (h : Spans pf e s t) :
    coveredDays pf e home = (pf.wallClock s home).bind fun a =>
      (pf.wallClock t home).map fun b => (a.date, max a.date b.date) := by
  rw [coveredDays, if_neg (by simp [h.timed]), timedSpan_of_spans h]
  dsimp only
  cases pf.wallClock s home with
  | none => rfl
  | some a =>
    cases pf.wallClock t home with
    | none => rfl
    | some b =>
      simp only [Option.bind_some, Option.map_some, max_def]
      by_cases hlt : b.date < a.date
      · rw [if_pos hlt, if_neg (not_le.2 hlt)]
      · rw [if_neg hlt, if_pos (not_lt.1 hlt)]

theorem touchesDays_iff {ctx : ConflictContext} {e : CalendarEvent} {s t : Int}
    (h : Spans pf e s t) : touchesDays pf ctx e = true ↔ Touches pf ctx e := by
  unfold touchesDays
  rw [coveredDays_of_spans h]
  constructor
  · intro htouch
    cases hfirst : pf.wallClock s (dayZone ctx) with
    | none => simp [hfirst] at htouch
    | some first =>
      cases hlast : pf.wallClock t (dayZone ctx) with
      | none => simp [hfirst, hlast] at htouch
      | some last =>
        simp only [hfirst, hlast, Option.bind_some, Option.map_some, List.any_eq_true,
          decide_eq_true_eq] at htouch
        obtain ⟨d, hd, day, hday, rfl⟩ := htouch
        obtain ⟨n, hn, rfl, hall⟩ := mem_daySpanFrom.1 hd
        exact ⟨s, t, first, last, h, hfirst, hlast, n, hn, hday, hall⟩
  · rintro ⟨s', t', first, last, hspan, hfirst, hlast, n, hn, hday, hall⟩
    obtain ⟨rfl, rfl⟩ := h.unique hspan
    simp only [hfirst, hlast, Option.bind_some, Option.map_some, List.any_eq_true,
      decide_eq_true_eq]
    exact ⟨_, mem_daySpanFrom.2 ⟨n, hn, rfl, hall⟩, _, hday, rfl⟩

/-! ### The findings -/

theorem kind_of_doubleBookings {events : List CalendarEvent} {c : CalendarConflict}
    (h : c ∈ doubleBookings pf events) : c.kind = .doubleBooked := by
  obtain ⟨q, -, hq⟩ := List.mem_filterMap.1 h
  unfold doubleBooking at hq
  split at hq
  · cases hq
  · split at hq
    · cases hq
    · cases hq
      rfl

theorem kind_of_overlappingStays {events : List CalendarEvent} {home : Text} {days : List Text}
    {c : CalendarConflict} (h : c ∈ overlappingStays pf events home days) :
    c.kind = .overlappingStay := by
  obtain ⟨q, -, hq⟩ := List.mem_filterMap.1 h
  unfold overlappingStay at hq
  dsimp only at hq
  split at hq
  · cases hq
    rfl
  · cases hq

theorem kind_of_timezoneTrap {ctx : ConflictContext} {e : CalendarEvent} {c : CalendarConflict}
    (h : timezoneTrap pf ctx e = some c) : c.kind = .timezoneTrap := by
  unfold timezoneTrap at h
  simp only [Option.bind_eq_bind, Option.pure_def, Option.bind_none] at h
  split at h
  · cases h
  · obtain ⟨at_, -, h⟩ := Option.bind_eq_some_iff.1 h
    obtain ⟨homeDay, -, h⟩ := Option.bind_eq_some_iff.1 h
    obtain ⟨localThere, -, h⟩ := Option.bind_eq_some_iff.1 h
    obtain ⟨localBooked, -, h⟩ := Option.bind_eq_some_iff.1 h
    split at h
    · cases h
    · obtain ⟨hour, -, h⟩ := Option.bind_eq_some_iff.1 h
      split at h
      · cases h
      · obtain rfl := Option.some.inj h
        rfl

/-- Of what a pass finds, the double bookings are those of the window. -/
theorem filter_detect {events : List CalendarEvent} {ctx : ConflictContext}
    (hcap : (windowed pf events ctx).length ≤ ctx.maxEvents.getD MAX_CONFLICT_EVENTS) :
    ((detectCalendarConflicts pf events ctx).filter fun c => c.kind = .doubleBooked).Perm
      (doubleBookings pf (windowed pf events ctx)) := by
  unfold detectCalendarConflicts
  by_cases hdays : ctx.days = []
  · -- no day, and then no event touches one
    have hempty : windowed pf events ctx = [] := by
      refine List.filter_eq_nil_iff.2 fun e _ => ?_
      unfold touchesDays
      cases coveredDays pf e (dayZone ctx) <;> simp [hdays]
    rw [if_pos hdays, hempty]
    exact List.Perm.refl _
  · rw [if_neg hdays, List.take_of_length_le hcap]
    refine ((sort_perm _).filter _).trans ?_
    have hdouble : ∀ c ∈ doubleBookings pf (windowed pf events ctx),
        decide (c.kind = ConflictKind.doubleBooked) = true := by
      intro c hc
      rw [kind_of_doubleBookings hc, decide_eq_true rfl]
    have hstay : ∀ c ∈ overlappingStays pf (windowed pf events ctx) (dayZone ctx) ctx.days,
        ¬ decide (c.kind = ConflictKind.doubleBooked) = true := by
      intro c hc
      simp [kind_of_overlappingStays hc]
    have htrap : ∀ c ∈ (windowed pf events ctx).filterMap (timezoneTrap pf ctx),
        ¬ decide (c.kind = ConflictKind.doubleBooked) = true := by
      intro c hc
      obtain ⟨e, -, he⟩ := List.mem_filterMap.1 hc
      simp [kind_of_timezoneTrap he]
    rw [List.filter_append, List.filter_append, List.filter_eq_self.2 hdouble,
      List.filter_eq_nil_iff.2 hstay, List.filter_eq_nil_iff.2 htrap, List.append_nil,
      List.append_nil]

open Classical in
/-- With events within the cap, the double bookings are the clashes of the events that remain and
    touch the days of the context, each once. -/
theorem doubleBookings_perm {events : List CalendarEvent} {ctx : ConflictContext}
    (hcap : (windowed pf events ctx).length ≤ ctx.maxEvents.getD MAX_CONFLICT_EVENTS) :
    (((detectCalendarConflicts pf events ctx).filter fun c => c.kind = .doubleBooked).map
        CalendarConflict.events).Perm
      (((pairs (remaining pf events)).filter fun q => Reported pf ctx q.1 q.2).map
        fun q => startOrder pf q.1 q.2) := by
  refine ((filter_detect hcap).map _).trans ?_
  rw [map_doubleBookings, windowed, dedupeEvents_eq, pairs_filter, List.filter_filter]
  refine List.Perm.of_eq (congrArg (List.map _) (List.filter_congr ?_))
  intro q _
  rw [Bool.eq_iff_iff]
  simp only [Bool.and_eq_true, decide_eq_true_eq]
  constructor
  · rintro ⟨hclash, htouch, htouch'⟩
    obtain ⟨-, -, -, s, t, s', t', ha, hb, -, -⟩ := id hclash
    exact ⟨hclash, (touchesDays_iff ha).1 htouch, (touchesDays_iff hb).1 htouch'⟩
  · rintro ⟨hclash, htouch, htouch'⟩
    obtain ⟨-, -, -, s, t, s', t', ha, hb, -, -⟩ := id hclash
    exact ⟨hclash, (touchesDays_iff ha).2 htouch, (touchesDays_iff hb).2 htouch'⟩

end DoubleBookings

/-! ### A clock at UTC -/

/-- Year, month and day, from the days since 1970-01-01. -/
def utcDate (days : Nat) : Text :=
  let z := days + 719468
  let doe := z % 146097
  let yoe := (doe - doe / 1460 + doe / 36524 - doe / 146096) / 365
  let doy := doe - (365 * yoe + yoe / 4 - yoe / 100)
  let mp := (5 * doy + 2) / 153
  let month := if mp < 10 then mp + 3 else mp - 9
  let year := yoe + z / 146097 * 400 + if month ≤ 2 then 1 else 0
  let padded (width n : Nat) : Text := (Numbers.written (some n)).leftpad width '0'
  padded 4 year ++ '-' :: padded 2 month ++ '-' :: padded 2 (doy - (153 * mp + 2) / 5 + 1)

def utcDays (year month day : Nat) : Nat :=
  let y := if month ≤ 2 then year - 1 else year
  let doy := (153 * (if month > 2 then month - 3 else month + 9) + 2) / 5 + day - 1
  let doe := y % 400 * 365 + y % 400 / 4 - y % 400 / 100 + doy
  y / 400 * 146097 + doe - 719468

/-- `YYYY-MM-DDThh:mm:ssZ`, or with an offset of whole hours east -/
def utcParse (s : Text) : Option Int := do
  let part (from_ length : Nat) : Option Nat := Numbers.number ((s.drop from_).take length)
  let hours := utcDays (← part 0 4) (← part 5 2) (← part 8 2) * 24 + (← part 11 2)
  let offset ← if s.drop 19 = ['Z'] then some 0 else part 20 2
  return ((hours * 3600 + (← part 14 2) * 60 + (← part 17 2) : Nat) - offset * 3600 : Int) * 1000

def utc : Platform where
  parse := utcParse
  isoDate t := utcDate (t / 86400000).toNat
  wallClock t zone :=
    let seconds := (t / 1000 % 86400).toNat
    let padded (n : Nat) : Text := (Numbers.written (some n)).leftpad 2 '0'
    if zone = "UTC".toList then
      some ⟨utcDate (t / 86400000).toNat, padded (seconds / 3600) ++ ':' ::
        (padded (seconds / 60 % 60) ++ ':' :: padded (seconds % 60))⟩
    else none
  localeCompare := compareTexts
  toLowerCase s := s.map Char.toLower

/-- An event with what every calendar gives. -/
def plainEvent (id title start stop : String) : CalendarEvent where
  id := id.toList
  summary := title.toList
  start := start.toList
  «end» := stop.toList
  allDay := false
  eventType := none
  status := some "confirmed".toList
  transparency := none
  myResponse := some "accepted".toList
  iCalUID := none
  startTimeZone := none
  account := none
  calendarId := none

def plainContext (days : List String) : ConflictContext where
  days := days.map String.toList
  trips := []
  homeTimezone := "UTC".toList
  dayTimezone := none
  maxEvents := none

def standup : CalendarEvent :=
  plainEvent "e1" "Standup" "2026-07-15T09:00:00Z" "2026-07-15T10:00:00Z"

def review : CalendarEvent :=
  plainEvent "e2" "Review" "2026-07-15T09:30:00Z" "2026-07-15T10:30:00Z"

/-- The same invitation, as the owner's other account answered it. -/
def standupDeclined : CalendarEvent := { standup with myResponse := some "declined".toList }

/-- The account that answers first decides whether there is a clash. -/
theorem copies_answer_order :
    Consistent utc.localeCompare ∧
      [standup, standupDeclined, review].Perm [standupDeclined, standup, review] ∧
      (detectCalendarConflicts utc [standup, standupDeclined, review]
        (plainContext ["2026-07-15"])).map CalendarConflict.kind = [.doubleBooked] ∧
      detectCalendarConflicts utc [standupDeclined, standup, review]
        (plainContext ["2026-07-15"]) = [] := by
  refine ⟨compareTexts_consistent, List.Perm.swap .., ?_, ?_⟩
  · decide +kernel
  · decide +kernel

theorem detect_order_free_pair :
    detectCalendarConflicts utc [standup, review] (plainContext ["2026-07-15"]) =
      detectCalendarConflicts utc [review, standup] (plainContext ["2026-07-15"]) := by
  have hties : Distinguished utc [standup, review] := by
    unfold Distinguished
    decide +kernel
  exact (detect_order_free compareTexts_consistent [standup, review]).1 hties
    [review, standup] (plainContext ["2026-07-15"]) (List.Perm.swap ..)

end Lares.Calendar
