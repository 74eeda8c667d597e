import Lares.Proactivity.Gate
import Mathlib

/-! # Wall clocks

    A time zone is an offset that now and then changes. `instantAt` inverts the
    wall clock with three corrections of a guess.

    * **Changes** are rare, so the guesses meet one of them at most.
    * **Corrections** settle, or swing across a gap. Where the first guess lies
      decides on which side of the gap they end.
    * **Roll-overs** are the quiet end and the start of the owner's next day.
-/

namespace Lares.Proactivity

/-! ## Section 1: Zones -/

/-- 96 hours. -/
def RARE_MS : Int := 345600000

/-- The offset is another one from `T` on. -/
def Changes (offset : Int → Int) (T : Int) : Prop := offset (T - 1) ≠ offset T

structure ClockZone where
  /-- How many minutes the wall clock is ahead of UTC. -/
  offset : Int → Int
  bounded : ∀ t, -840 ≤ offset t ∧ offset t ≤ 840
  small : ∀ t, offset t ≤ offset (t - 1) + 120 ∧ offset (t - 1) ≤ offset t + 120
  rare : ∀ T T', Changes offset T → Changes offset T' → T < T' → T + RARE_MS ≤ T'

/-- The parts of a wall clock, from its minutes since the epoch. -/
def Parts.ofMinutes (m : Int) : Parts where
  date := m / 1440
  hour := ⟨(m % 1440 / 60).toNat, by omega⟩
  minute := ⟨(m % 60).toNat, by omega⟩

theorem Parts.minutes_ofMinutes (m : Int) : ((Parts.ofMinutes m).minutes : Int) = m % 1440 := by
  show (((m % 1440 / 60).toNat * 60 + (m % 60).toNat : Nat) : Int) = m % 1440
  omega

namespace ClockZone

variable (z : ClockZone) {T target : Int}

/-- The wall clock, in minutes since the epoch. -/
def reads (t : Int) : Int := t / 60000 + z.offset t

/-- `partsIn`, in the zone -/
def partsIn : PartsIn := fun now _ => Parts.ofMinutes (z.reads now)

/-- The clock reads `time` on `date`. -/
def Reads (t : Int) (date : Int) (time : Text) : Prop :=
  (z.partsIn t []).date = date ∧ ((z.partsIn t []).minutes : Int) = toMinutes time

/-- The wall clock goes from before the minute `target` to after its start. -/
def Gap (T target : Int) : Prop :=
  Changes z.offset T ∧ T ≤ 60000 * (target - z.offset (T - 1)) ∧
    60000 * (target - z.offset T) < T

/-- The wall clock is set back and comes to the start of the minute `target` again. -/
def Fold (T target : Int) : Prop :=
  Changes z.offset T ∧ 60000 * (target - z.offset (T - 1)) < T ∧
    T ≤ 60000 * (target - z.offset T)

/-- Without a change the offset stays. -/
theorem offset_eq_of_no_change {s t : Int} (hst : s ≤ t)
    (h : ∀ u, s < u → u ≤ t → ¬Changes z.offset u) : z.offset t = z.offset s := by
  induction t, hst using Int.leInduction with
  | base => rfl
  | succ t hst ih =>
    have hlast : z.offset t = z.offset (t + 1) := by
      have hstays := h (t + 1) (by omega) le_rfl
      rw [Changes, not_not, show t + 1 - 1 = t by omega] at hstays
      exact hstays
    rw [← hlast]
    apply ih
    intro u hs ht
    exact h u hs (by omega)

theorem offset_before (hT : Changes z.offset T) {s : Int} (hs : T - RARE_MS ≤ s)
    (hlt : s < T) : z.offset s = z.offset (T - 1) := by
  symm
  apply z.offset_eq_of_no_change (by omega)
  intro u hsu hu hchange
  have hrare := z.rare u T hchange hT (by omega)
  omega

theorem offset_after (hT : Changes z.offset T) {s : Int} (hs : s < T + RARE_MS)
    (hle : T ≤ s) : z.offset s = z.offset T := by
  apply z.offset_eq_of_no_change hle
  intro u hTu hu hchange
  have hrare := z.rare T u hT hchange hTu
  omega

/-- Between two offsets there is a change, and it is the only one. -/
theorem exists_change {s t : Int} (hst : s ≤ t) (hnear : t < s + RARE_MS)
    (hne : z.offset s ≠ z.offset t) : ∃ T, Changes z.offset T ∧ s < T ∧ T ≤ t ∧
      z.offset (T - 1) = z.offset s ∧ z.offset T = z.offset t := by
  by_contra hnone
  push Not at hnone
  have hstays : z.offset t = z.offset s := by
    apply z.offset_eq_of_no_change hst
    intro u hsu hut hchange
    refine hnone u hchange hsu hut ?_ ?_
    · exact (z.offset_before hchange (by omega) hsu).symm
    · exact (z.offset_after hchange (by omega) hut).symm
  exact hne hstays.symm

theorem partsIn_reads (t : Int) (tz : Zone) :
    (z.partsIn t tz).date * 1440 + ((z.partsIn t tz).minutes : Int) = z.reads t := by
  have hminutes : ((z.partsIn t tz).minutes : Int) = z.reads t % 1440 :=
    Parts.minutes_ofMinutes _
  rw [hminutes]
  show z.reads t / 1440 * 1440 + z.reads t % 1440 = z.reads t
  omega

end ClockZone

theorem toMinutes_range (time : Text) : 0 ≤ toMinutes time ∧ toMinutes time < 1440 := by
  unfold toMinutes
  cases h : hhmm time with
  | none => decide
  | some m =>
    have hlt := hhmm_lt h
    rw [Option.getD_some]
    omega

/-! ## Section 2: Corrections -/

/-- The wall clock's minute that is asked for. -/
def wallMinute (date : Int) (time : Text) : Int := date * 1440 + toMinutes time

namespace ClockZone

variable (z : ClockZone) {T target : Int} {date : Int} {time : Text} {tz : Zone}

/-- The minute that a correction of the minute `g` leads to. -/
def corrected (target g : Int) : Int := target - z.offset (60000 * g)

theorem reads_minute (g : Int) : z.reads (60000 * g) = g + z.offset (60000 * g) := by
  show 60000 * g / 60000 + z.offset (60000 * g) = _
  omega

theorem instantAtStep_minute (target g : Int) :
    instantAtStep z.partsIn target tz (60000 * g) = 60000 * z.corrected target g := by
  show 60000 * g - ((z.partsIn (60000 * g) tz).date * 1440 + ((z.partsIn (60000 * g) tz).minutes : Int)
    - target) * 60000 = 60000 * z.corrected target g
  rw [z.partsIn_reads, z.reads_minute, corrected]
  omega

theorem instantAt_eq (date : Int) (time : Text) (tz : Zone) :
    instantAt z.partsIn date time tz =
      60000 * (z.corrected (wallMinute date time))^[3] (wallMinute date time) := by
  have hcommutes : Function.Semiconj (60000 * · : Int → Int)
      (z.corrected (wallMinute date time)) (instantAtStep z.partsIn (wallMinute date time) tz) :=
    fun g => (z.instantAtStep_minute _ g).symm
  show (instantAtStep z.partsIn (wallMinute date time) tz)^[3] (wallMinute date time * 60000) = _
  rw [mul_comm]
  exact ((hcommutes.iterate_right 3).eq _).symm

theorem Reads_iff (t : Int) : z.Reads t date time ↔ z.reads t = wallMinute date time := by
  have hparts := z.partsIn_reads t []
  have hrange := toMinutes_range time
  have hminutes : ((z.partsIn t []).minutes : Int) = z.reads t % 1440 := Parts.minutes_ofMinutes _
  show z.reads t / 1440 = date ∧ ((z.partsIn t []).minutes : Int) = toMinutes time ↔
    z.reads t = date * 1440 + toMinutes time
  rw [hminutes]
  omega

/-- A minute that reads the wall clock right stays. -/
theorem corrected_of_reads {g : Int} (h : g + z.offset (60000 * g) = target) :
    z.corrected target g = g := by
  rw [corrected]
  omega

theorem reads_of_corrected {g : Int} (h : z.corrected target g = g) :
    z.reads (60000 * g) = target := by
  rw [z.reads_minute]
  rw [corrected] at h
  omega

/-- The guesses are close enough to each other to meet one change at most. -/
theorem corrected_near (target g : Int) :
    target - 840 ≤ z.corrected target g ∧ z.corrected target g ≤ target + 840 := by
  have hbounds := z.bounded (60000 * g)
  rw [corrected]
  omega

/-- Where the start of a minute is skipped, no minute reads it. -/
theorem Gap.ne_reads (h : z.Gap T target) (g : Int) : g + z.offset (60000 * g) ≠ target := by
  obtain ⟨hT, hbefore, hafter⟩ := h
  have hrare : RARE_MS = 345600000 := rfl
  have hT' := z.bounded T
  have hT'' := z.bounded (T - 1)
  have hg := z.bounded (60000 * g)
  intro hreads
  by_cases hlt : 60000 * g < T
  · rw [z.offset_before hT (by omega) hlt] at hreads
    omega
  · rw [z.offset_after hT (by omega) (by omega)] at hreads
    omega

/-- One change at most skips the minute. -/
theorem gap_unique {T' : Int} (h : z.Gap T target) (h' : z.Gap T' target) : T = T' := by
  obtain ⟨hT, hbefore, hafter⟩ := h
  obtain ⟨hT', hbefore', hafter'⟩ := h'
  have hrare : RARE_MS = 345600000 := rfl
  have hold := z.bounded (T - 1)
  have hnew := z.bounded T
  have hold' := z.bounded (T' - 1)
  have hnew' := z.bounded T'
  by_contra hne
  rcases lt_or_gt_of_ne hne with hlt | hlt
  · have hapart := z.rare T T' hT hT' hlt
    omega
  · have hapart := z.rare T' T hT' hT hlt
    omega

/-- **Three corrections**: they settle on a minute that reads the wall clock, or swing across a
    gap and end on the far side from the first guess. -/
theorem settles_or_gap (target : Int) :
    z.reads (60000 * (z.corrected target)^[3] target) = target ∨
      ∃ T, z.Gap T target ∧
        (60000 * target < T → (z.corrected target)^[3] target = target - z.offset (T - 1)) ∧
        (T ≤ 60000 * target → (z.corrected target)^[3] target = target - z.offset T) := by
  have hrare : RARE_MS = 345600000 := rfl
  obtain ⟨g, hg⟩ : ∃ g, g = z.corrected target target := ⟨_, rfl⟩
  obtain ⟨g', hg'⟩ : ∃ g', g' = z.corrected target g := ⟨_, rfl⟩
  have hlast : (z.corrected target)^[3] target = z.corrected target g' := by
    rw [hg', hg]
    rfl
  have hnear := z.corrected_near target target
  have hnear' := z.corrected_near target g
  rw [← hg] at hnear
  rw [← hg'] at hnear'
  rw [hlast]
  by_cases hsame : z.offset (60000 * g) = z.offset (60000 * target)
  · left
    -- the second guess is the first one again
    have hstays : z.corrected target g = g := by
      rw [corrected, hsame, ← corrected, ← hg]
    rw [hg', hstays, hstays]
    exact z.reads_of_corrected hstays
  by_cases hsame' : z.offset (60000 * g') = z.offset (60000 * g)
  · left
    have hstays : z.corrected target g' = g' := by
      rw [corrected, hsame', ← corrected, ← hg']
    rw [hstays]
    exact z.reads_of_corrected hstays
  right
  rcases le_total target g with hle | hle
  · -- the first guess comes before the change
    obtain ⟨T, hT, hlt, hTg, hold, hnew⟩ := z.exists_change (s := 60000 * target)
      (t := 60000 * g) (by omega) (by omega) (Ne.symm hsame)
    have hlt' : 60000 * g' < T := by
      by_contra hge
      exact hsame' ((z.offset_after hT (by omega) (by omega)).trans hnew)
    have hback : z.offset (60000 * g') = z.offset (T - 1) := z.offset_before hT (by omega) hlt'
    refine ⟨T, ⟨hT, ?_, ?_⟩, ?_, ?_⟩
    · rw [hold, ← corrected, ← hg]
      exact hTg
    · rw [hnew, ← corrected, ← hg']
      exact hlt'
    · intro _
      rw [corrected, hback]
    · intro hge
      omega
  · obtain ⟨T, hT, hgT, hTt, hold, hnew⟩ := z.exists_change (s := 60000 * g)
      (t := 60000 * target) (by omega) (by omega) hsame
    have hge : T ≤ 60000 * g' := by
      by_contra hlt
      exact hsame' ((z.offset_before hT (by omega) (by omega)).trans hold)
    have hback : z.offset (60000 * g') = z.offset T := z.offset_after hT (by omega) hge
    refine ⟨T, ⟨hT, ?_, ?_⟩, ?_, ?_⟩
    · rw [hold, ← corrected, ← hg']
      exact hge
    · rw [hnew, ← corrected, ← hg]
      exact hgT
    · intro hlt
      omega
    · intro _
      rw [corrected, hback]

/-- Of two minutes that read the wall clock, the first guess decides. -/
theorem corrected_of_fold (h : z.Fold T target) :
    (60000 * target < T → (z.corrected target)^[3] target = target - z.offset (T - 1)) ∧
      (T ≤ 60000 * target → (z.corrected target)^[3] target = target - z.offset T) := by
  obtain ⟨hT, hbefore, hafter⟩ := h
  have hrare : RARE_MS = 345600000 := rfl
  have hT' := z.bounded T
  have hT'' := z.bounded (T - 1)
  have hfixed : ∀ {g}, z.corrected target target = g → g + z.offset (60000 * g) = target →
      (z.corrected target)^[3] target = g := by
    intro g hfirst hreads
    have hstays := z.corrected_of_reads hreads
    show z.corrected target (z.corrected target (z.corrected target target)) = g
    rw [hfirst, hstays, hstays]
  constructor
  · intro hlt
    apply hfixed
    · rw [corrected, z.offset_before hT (by omega) hlt]
    · rw [z.offset_before hT (by omega) hbefore]
      omega
  · intro hge
    apply hfixed
    · rw [corrected, z.offset_after hT (by omega) hge]
    · rw [z.offset_after hT (by omega) hafter]
      omega

/-- Before the wall clock reads the skipped minute, the gap is still to come. -/
theorem Gap.after {now : Int} (h : z.Gap T target) (hnow : z.reads now < target) : now < T := by
  obtain ⟨hT, -, hafter⟩ := h
  have hrare : RARE_MS = 345600000 := rfl
  have hT' := z.bounded T
  have hn := z.bounded now
  rw [reads] at hnow
  by_contra hge
  rw [z.offset_after hT (by omega) (by omega)] at hnow
  omega

/-- The wall clock has been set back since it read the minute first. -/
theorem fold_of_reads {now g : Int} (hg : z.reads (60000 * g) = target)
    (hnow : z.reads now < target) (hle : 60000 * g ≤ now) :
    ∃ T, z.Fold T target ∧ 60000 * g < T ∧ T ≤ now := by
  have hrare : RARE_MS = 345600000 := rfl
  have hn := z.bounded now
  have hg' := z.bounded (60000 * g)
  rw [z.reads_minute] at hg
  rw [reads] at hnow
  obtain ⟨T, hT, hlt, hTnow, hold, hnew⟩ := z.exists_change hle (by omega) (by omega)
  refine ⟨T, ⟨hT, ?_, ?_⟩, hlt, hTnow⟩
  · rw [hold]
    omega
  · rw [hnew]
    omega

/-! ## Section 3: Roll-overs -/

/-- The wall time is answered by an instant that reads it if there is one, and early if the clock
    skips it. -/
def Inverts (date : Int) (time : Text) (tz : Zone) : Prop :=
  ((∃ t, z.Reads t date time) → z.Reads (instantAt z.partsIn date time tz) date time) ∧
    ∀ T, z.Gap T (wallMinute date time) → instantAt z.partsIn date time tz < T

/-- Where the clock skips the wall time, UTC is past the change when it reads that time. -/
theorem inverts_iff (date : Int) (time : Text) (tz : Zone) : z.Inverts date time tz ↔
    ((∃ t, z.Reads t date time) → ∃ g, z.Reads (60000 * g) date time) ∧
      ∀ T, z.Gap T (wallMinute date time) → T ≤ 60000 * wallMinute date time := by
  have hsettles := z.settles_or_gap (wallMinute date time)
  unfold Inverts
  simp only [z.Reads_iff, z.instantAt_eq]
  constructor
  · rintro ⟨hreads, hearly⟩
    refine ⟨fun hsome => ⟨_, hreads hsome⟩, ?_⟩
    intro T hgap
    by_contra hlt
    rcases hsettles with hsettled | ⟨T', hgap', hlate, -⟩
    · rw [z.reads_minute] at hsettled
      exact hgap.ne_reads z _ hsettled
    have hsame : T' = T := z.gap_unique hgap' hgap
    subst hsame
    have hbefore := hgap.2.1
    have hend : 60000 * (z.corrected (wallMinute date time))^[3] (wallMinute date time) < T' :=
      hearly T' hgap
    rw [hlate (by omega)] at hend
    omega
  · rintro ⟨hminute, hpast⟩
    rcases hsettles with hsettled | ⟨T, hgap, -, hearly⟩
    · refine ⟨fun _ => hsettled, ?_⟩
      intro T hgap
      rw [z.reads_minute] at hsettled
      exact absurd hsettled (hgap.ne_reads z _)
    · constructor
      · intro hsome
        obtain ⟨g, hg⟩ := hminute hsome
        rw [z.reads_minute] at hg
        exact absurd hg (hgap.ne_reads z _)
      · intro T' hgap'
        have hsame : T' = T := z.gap_unique hgap' hgap
        subst hsame
        rw [hearly (hpast T' hgap)]
        exact hgap.2.2

/-- The minute of today that is asked for comes about a day before tomorrow's. -/
theorem corrected_yesterday (target : Int) (hT : Changes z.offset T)
    (hnear : 60000 * (target - 840) ≤ T) (hnear' : T ≤ 60000 * (target + 840)) :
    (z.corrected (target - 1440))^[3] (target - 1440) ≤ target - z.offset T - 1320 ∧
      (z.corrected (target - 1440))^[3] (target - 1440) ≤ target - z.offset (T - 1) - 1320 := by
  have hrare : RARE_MS = 345600000 := rfl
  obtain ⟨g, hg⟩ : ∃ g, g = (z.corrected (target - 1440))^[2] (target - 1440) := ⟨_, rfl⟩
  have hguess := z.corrected_near (target - 1440)
    (z.corrected (target - 1440) (target - 1440))
  have hlast : (z.corrected (target - 1440))^[3] (target - 1440) =
      target - 1440 - z.offset (60000 * g) := by
    rw [hg]
    rfl
  have hg' : g = z.corrected (target - 1440) (z.corrected (target - 1440) (target - 1440)) := hg
  have hsmall := z.small T
  rw [hlast]
  -- the guess meets the same change
  by_cases hlt : 60000 * g < T
  · rw [z.offset_before hT (by omega) hlt]
    omega
  · rw [z.offset_after hT (by omega) (by omega)]
    omega

/-- The minute that `nextQuietEnd` asks for tomorrow. -/
theorem wallMinute_tomorrow (now : Int) (time : Text) (tz : Zone) :
    wallMinute (ownerDay z.partsIn now tz + 1) time =
      z.reads now / 1440 * 1440 + 1440 + toMinutes time := by
  show (z.reads now / 1440 + 1) * 1440 + toMinutes time = _
  omega

theorem nextQuietEnd_eq (now : Int) (tz : Zone) (quietEnd : Text) :
    nextQuietEnd z.partsIn now tz quietEnd =
      let target := wallMinute (ownerDay z.partsIn now tz + 1) quietEnd
      if 60000 * (z.corrected (target - 1440))^[3] (target - 1440) > now then
        60000 * (z.corrected (target - 1440))^[3] (target - 1440)
      else 60000 * (z.corrected target)^[3] target := by
  have htoday : wallMinute (ownerDay z.partsIn now tz) quietEnd =
      wallMinute (ownerDay z.partsIn now tz + 1) quietEnd - 1440 := by
    rw [wallMinute_tomorrow]
    show z.reads now / 1440 * 1440 + toMinutes quietEnd = _
    omega
  unfold nextQuietEnd
  rw [z.instantAt_eq, z.instantAt_eq, htoday]

/-- **The quiet end is ahead**, unless tomorrow's is skipped and answered by an instant that has
    passed, or is read twice and answered by the first time, before the clock was set back. -/
theorem nextQuietEnd_iff (now : Int) (tz : Zone) (quietEnd : Text) :
    now < nextQuietEnd z.partsIn now tz quietEnd ↔
      (∀ T, z.Gap T (wallMinute (ownerDay z.partsIn now tz + 1) quietEnd) →
        T ≤ 60000 * wallMinute (ownerDay z.partsIn now tz + 1) quietEnd →
        z.reads now + (z.offset T - z.offset (T - 1)) <
          wallMinute (ownerDay z.partsIn now tz + 1) quietEnd) ∧
      ∀ T, z.Fold T (wallMinute (ownerDay z.partsIn now tz + 1) quietEnd) → T ≤ now →
        T ≤ 60000 * wallMinute (ownerDay z.partsIn now tz + 1) quietEnd := by
  have hrange := toMinutes_range quietEnd
  have hrare : RARE_MS = 345600000 := rfl
  have htomorrow := z.wallMinute_tomorrow now quietEnd tz
  rw [z.nextQuietEnd_eq]
  generalize wallMinute (ownerDay z.partsIn now tz + 1) quietEnd = target at htomorrow ⊢
  have hnow : z.reads now < target := by omega
  have hn := z.bounded now
  have hreads : z.reads now = now / 60000 + z.offset now := rfl
  dsimp only
  constructor
  · intro hahead
    constructor
    · intro T hgap hpast
      have hT := z.bounded T
      have hT' := z.bounded (T - 1)
      have hbefore := hgap.2.1
      have hafter := hgap.2.2
      have hyesterday := (z.corrected_yesterday target hgap.1 (by omega) (by omega)).1
      have hlt : now < T := hgap.after z hnow
      have hold := z.offset_before hgap.1 (s := now)
      by_contra hreached
      -- the answer is where the clock would have read the minute before the change
      have hanswer : (z.corrected target)^[3] target = target - z.offset T := by
        rcases z.settles_or_gap target with hsettled | ⟨T', hgap', -, hearly⟩
        · rw [z.reads_minute] at hsettled
          exact absurd hsettled (hgap.ne_reads z _)
        · have hsame : T' = T := z.gap_unique hgap' hgap
          subst hsame
          exact hearly hpast
      rw [hanswer] at hahead
      split at hahead
      · omega
      · omega
    · intro T hfold hTnow
      have hT := z.bounded T
      have hT' := z.bounded (T - 1)
      have hbefore := hfold.2.1
      have hafter := hfold.2.2
      have hyesterday := (z.corrected_yesterday target hfold.1 (by omega) (by omega)).2
      by_contra hlt
      rw [(z.corrected_of_fold hfold).1 (by omega)] at hahead
      split at hahead
      · omega
      · omega
  · rintro ⟨hearly, hfirst⟩
    split
    · assumption
    rcases z.settles_or_gap target with hsettled | ⟨T, hgap, hlate, hpast⟩
    · by_contra hpassed
      obtain ⟨T, hfold, hlt, hTnow⟩ := z.fold_of_reads hsettled hnow (by omega)
      have hafter := hfold.2.2
      rw [(z.corrected_of_fold hfold).2 (hfirst T hfold hTnow)] at hlt
      omega
    · have hlt : now < T := hgap.after z hnow
      have hT := z.bounded T
      have hT' := z.bounded (T - 1)
      have hbefore := hgap.2.1
      have hold := z.offset_before hgap.1 (s := now)
      by_cases hside : T ≤ 60000 * target
      · have hstart := hearly T hgap hside
        rw [hpast hside]
        omega
      · rw [hlate (by omega)]
        omega

/-- **The owner's next day**: its start is after `now` and belongs to it, unless the clock skips
    midnight and UTC is past the change, or midnight is read twice and answered by the first
    time, before the clock was set back. -/
theorem nextOwnerDayStart_iff (now : Int) (tz : Zone) :
    (now < nextOwnerDayStart z.partsIn now tz ∧
      ownerDay z.partsIn (nextOwnerDayStart z.partsIn now tz) tz = ownerDay z.partsIn now tz + 1) ↔
      (∀ T, z.Gap T (wallMinute (ownerDay z.partsIn now tz + 1) "00:00".toList) →
        60000 * wallMinute (ownerDay z.partsIn now tz + 1) "00:00".toList < T) ∧
      ∀ T, z.Fold T (wallMinute (ownerDay z.partsIn now tz + 1) "00:00".toList) → T ≤ now →
        T ≤ 60000 * wallMinute (ownerDay z.partsIn now tz + 1) "00:00".toList := by
  have hrare : RARE_MS = 345600000 := rfl
  have htomorrow := z.wallMinute_tomorrow now "00:00".toList tz
  have hzero : toMinutes "00:00".toList = 0 := by decide
  unfold nextOwnerDayStart
  rw [z.instantAt_eq]
  generalize wallMinute (ownerDay z.partsIn now tz + 1) "00:00".toList = target at htomorrow ⊢
  have hnow : z.reads now < target := by omega
  have hn := z.bounded now
  have hreads : z.reads now = now / 60000 + z.offset now := rfl
  have hday : (ownerDay z.partsIn (60000 * (z.corrected target)^[3] target) tz =
      ownerDay z.partsIn now tz + 1) ↔
      z.reads (60000 * (z.corrected target)^[3] target) / 1440 = z.reads now / 1440 + 1 := Iff.rfl
  rw [hday]
  constructor
  · rintro ⟨hahead, hnext⟩
    constructor
    · intro T hgap
      have hafter := hgap.2.2
      have hbefore := hgap.2.1
      have hT := z.bounded T
      have hT' := z.bounded (T - 1)
      rcases z.settles_or_gap target with hsettled | ⟨T', hgap', -, hearly⟩
      · rw [z.reads_minute] at hsettled
        exact absurd hsettled (hgap.ne_reads z _)
      · have hsame : T' = T := z.gap_unique hgap' hgap
        subst hsame
        by_contra hpast
        -- the answer is still in the owner's day
        rw [hearly (by omega), z.reads_minute, z.offset_before hgap.1 (by omega) hafter] at hnext
        omega
    · intro T hfold hTnow
      by_contra hlt
      have hbefore := hfold.2.1
      rw [(z.corrected_of_fold hfold).1 (by omega)] at hahead
      omega
  · rintro ⟨hlate, hfirst⟩
    rcases z.settles_or_gap target with hsettled | ⟨T, hgap, hend, -⟩
    · refine ⟨?_, ?_⟩
      · by_contra hpassed
        obtain ⟨T, hfold, hlt, hTnow⟩ := z.fold_of_reads hsettled hnow (by omega)
        have hafter := hfold.2.2
        rw [(z.corrected_of_fold hfold).2 (hfirst T hfold hTnow)] at hlt
        omega
      · rw [hsettled]
        omega
    · have hlt : now < T := hgap.after z hnow
      have hbefore := hgap.2.1
      have hafter := hgap.2.2
      have hsmall := z.small T
      have hT' := z.bounded (T - 1)
      have hT := z.bounded T
      rw [hend (hlate T hgap), z.reads_minute, z.offset_after hgap.1 (by omega) hbefore]
      omega

/-- **Wall clocks and roll-overs**, for every zone, date, `HH:MM` and instant. -/
theorem wallClock_exact (date : Int) {time : Text} (_ : (hhmm time).isSome) (now : Int)
    (tz : Zone) :
    (z.Inverts date time tz ↔
      ((∃ t, z.Reads t date time) → ∃ g, z.Reads (60000 * g) date time) ∧
        ∀ T, z.Gap T (wallMinute date time) → T ≤ 60000 * wallMinute date time) ∧
    (now < nextQuietEnd z.partsIn now tz time ↔
      (∀ T, z.Gap T (wallMinute (ownerDay z.partsIn now tz + 1) time) →
        T ≤ 60000 * wallMinute (ownerDay z.partsIn now tz + 1) time →
        z.reads now + (z.offset T - z.offset (T - 1)) <
          wallMinute (ownerDay z.partsIn now tz + 1) time) ∧
      ∀ T, z.Fold T (wallMinute (ownerDay z.partsIn now tz + 1) time) → T ≤ now →
        T ≤ 60000 * wallMinute (ownerDay z.partsIn now tz + 1) time) ∧
    ((now < nextOwnerDayStart z.partsIn now tz ∧
      ownerDay z.partsIn (nextOwnerDayStart z.partsIn now tz) tz = ownerDay z.partsIn now tz + 1) ↔
      (∀ T, z.Gap T (wallMinute (ownerDay z.partsIn now tz + 1) "00:00".toList) →
        60000 * wallMinute (ownerDay z.partsIn now tz + 1) "00:00".toList < T) ∧
      ∀ T, z.Fold T (wallMinute (ownerDay z.partsIn now tz + 1) "00:00".toList) → T ≤ now →
        T ≤ 60000 * wallMinute (ownerDay z.partsIn now tz + 1) "00:00".toList) :=
  ⟨z.inverts_iff date time tz, z.nextQuietEnd_iff now tz time, z.nextOwnerDayStart_iff now tz⟩

end ClockZone

/-! ## Section 4: Two zones -/

theorem changes_once {T a b S : Int} (h : Changes (fun t => if t < T then a else b) S) : S = T := by
  by_contra hne
  apply h
  by_cases hlt : S < T
  · dsimp only
    rw [if_pos (by omega), if_pos hlt]
  · dsimp only
    rw [if_neg (by omega), if_neg hlt]

/-- A zone that changes once. -/
def ClockZone.once (T a b : Int) (ha : -840 ≤ a ∧ a ≤ 840) (hb : -840 ≤ b ∧ b ≤ 840)
    (hab : b ≤ a + 120 ∧ a ≤ b + 120) : ClockZone where
  offset t := if t < T then a else b
  bounded t := by
    split
    · exact ha
    · exact hb
  small t := by
    split <;> split <;> omega
  rare := by
    intro S S' hS hS' hlt
    have h := changes_once hS
    have h' := changes_once hS'
    omega

/-- A zone that never changes. -/
def always : ClockZone := .once 0 60 60 (by decide) (by decide) (by decide)

/-- New York in spring: at 07:00Z on 8 March 2026 half past two is skipped. -/
def newYork : ClockZone :=
  .once 1772953200000 (-300) (-240) (by decide) (by decide) (by decide)

/-- Cairo in spring: at 22:00Z on 23 April 2026 midnight is skipped. -/
def cairo : ClockZone := .once 1776981600000 120 180 (by decide) (by decide) (by decide)

/-- Where midnight is skipped in Cairo, so is half past midnight; UTC is past the change when it reads
    that time. The day of the change in New York rolls over at midnight. -/
theorem wallClock_exact_spring : (hhmm "00:30".toList).isSome ∧
    cairo.Gap 1776981600000 (wallMinute 20567 "00:30".toList) ∧
    cairo.Inverts 20567 "00:30".toList [] ∧
    1776970000000 < nextQuietEnd cairo.partsIn 1776970000000 [] "00:30".toList ∧
    1772949600000 < nextOwnerDayStart newYork.partsIn 1772949600000 [] ∧
    ownerDay newYork.partsIn (nextOwnerDayStart newYork.partsIn 1772949600000 []) [] =
      ownerDay newYork.partsIn 1772949600000 [] + 1 := by
  have hsome : (hhmm "00:30".toList).isSome := by decide
  have hcairo := cairo.wallClock_exact 20567 hsome 1776970000000 []
  have hnewYork := newYork.wallClock_exact 20567 hsome 1772949600000 []
  refine ⟨hsome, ⟨?_, by decide +kernel, by decide +kernel⟩, hcairo.1.2 ⟨?_, ?_⟩,
    hcairo.2.1.2 ⟨?_, ?_⟩, hnewYork.2.2.2 ⟨?_, ?_⟩⟩
  · show cairo.offset _ ≠ cairo.offset _
    decide +kernel
  · rintro ⟨t, ht⟩
    -- no instant reads the skipped time
    have hreads := (cairo.Reads_iff _).1 ht
    have hwall : wallMinute 20567 "00:30".toList = 29616510 := by decide +kernel
    change t / 60000 + (if t < 1776981600000 then 120 else 180) = _ at hreads
    split at hreads <;> omega
  · intro T hgap
    rw [changes_once hgap.1]
    decide +kernel
  · intro T hgap _
    rw [changes_once hgap.1]
    decide +kernel
  · intro T hfold hle
    rw [changes_once hfold.1] at hle
    exact absurd hle (by decide)
  · intro T hgap
    have hafter := hgap.2.2
    rw [changes_once hgap.1] at hafter
    exact absurd hafter (by decide +kernel)
  · intro T hfold hle
    rw [changes_once hfold.1] at hle
    exact absurd hle (by decide)

theorem newYork_gap : newYork.Gap 1772953200000 (wallMinute 20520 "02:30".toList) := by
  refine ⟨?_, ?_, ?_⟩
  · show newYork.offset _ ≠ newYork.offset _
    decide +kernel
  · decide +kernel
  · decide +kernel

/-- In New York the skipped half past two is answered by half past three, in Cairo midnight by
    eleven in the evening before, which has passed. -/
theorem instantAt_late :
    ¬newYork.Inverts 20520 "02:30".toList [] ∧
    nextOwnerDayStart cairo.partsIn 1776979800000 [] = 1776978000000 ∧
    ownerDay cairo.partsIn 1776979800000 [] = 20566 ∧
    ownerDay cairo.partsIn 1776978000000 [] = 20566 := by
  refine ⟨?_, ?_, ?_, ?_⟩
  · intro hinverts
    have hearly : instantAt newYork.partsIn 20520 "02:30".toList [] < 1772953200000 :=
      hinverts.2 _ newYork_gap
    revert hearly
    decide +kernel
  · decide +kernel
  · decide +kernel
  · decide +kernel

end Lares.Proactivity
