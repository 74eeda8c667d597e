import Lares.Framework.Lines
import Lares.Framework.Numbers
import Lares.Proactivity.WallClock
import Mathlib

/-! # Recurring reminders

    `nextOccurrence` sets a reminder that has fired to its next home date, at
    the same wall time.

    * **Search**: the date is looked for from the next midnight on.
    * **Conversion**: the instant is one correction of a guess, which takes the
      home clock to be an hour ahead of UTC. It misses where the clock changes
      between the guess and the answer.
    * **Runs**: reminders that are set right visit every date they may.
-/

namespace Lares.Proactivity

open Lines Numbers

/-! ## Section 1: Dates -/

/-- The day of the week, from Sunday on; 1 January 1970 was a Thursday. -/
def dow (date : Day) : Nat := ((date + 4) % 7).toNat

def DOW_MAP (token : Text) : Option Nat :=
  if token = "sunday".toList ∨ token = "sun".toList then some 0
  else if token = "monday".toList ∨ token = "mon".toList then some 1
  else if token = "tuesday".toList ∨ token = "tue".toList then some 2
  else if token = "wednesday".toList ∨ token = "wed".toList then some 3
  else if token = "thursday".toList ∨ token = "thu".toList then some 4
  else if token = "friday".toList ∨ token = "fri".toList then some 5
  else if token = "saturday".toList ∨ token = "sat".toList then some 6
  else none

variable (partsIn : PartsIn) (homeTz : Zone)

def homeDate (d : Instant) : Day := (partsIn d homeTz).date

def addHomeDays (dateStr n : Int) : Int := dateStr + n

/-- A guess as if the home clock were an hour ahead of UTC, and one correction. -/
def homeLocalToDate (date : Day) (hour minute : Nat) : Instant :=
  let target : Int := date * 1440 + (hour * 60 + minute)
  let guess := (target - 60) * 60000
  let parts := partsIn guess homeTz
  let diffMinutes := parts.date * 1440 + parts.minutes - target
  guess - diffMinutes * 60000

def nextDowDate (now : Instant) (targetDow targetHour targetMinute : Nat) : Day :=
  let parts := partsIn now homeTz
  let daysAhead := (targetDow + 7 - dow parts.date) % 7
  if daysAhead = 0 then
    if parts.hour.val > targetHour ∨
        parts.hour.val = targetHour ∧ parts.minute.val ≥ targetMinute then
      addHomeDays parts.date 7
    else parts.date
  else addHomeDays parts.date daysAhead

/-- The `for (;;)`: it ends within a week. -/
def untilWeekday (nowDow : Nat) : Nat → Nat → Nat
  | 0, daysAhead => daysAhead
  | fuel + 1, daysAhead =>
    if 1 ≤ (nowDow + daysAhead) % 7 ∧ (nowDow + daysAhead) % 7 ≤ 5 then daysAhead
    else untilWeekday nowDow fuel (daysAhead + 1)

def nextWeekdayDate (now : Instant) (targetHour targetMinute : Nat) : Day :=
  let parts := partsIn now homeTz
  let nowDow := dow parts.date
  if (1 ≤ nowDow ∧ nowDow ≤ 5) ∧ (parts.hour.val < targetHour ∨
      parts.hour.val = targetHour ∧ parts.minute.val < targetMinute) then
    parts.date
  else addHomeDays parts.date (untilWeekday nowDow 7 1)

/-! ## Section 2: Occurrences -/

/-- The hour and the minute; `none` models the thrown error. -/
def parseHHMM (hh mm : Option Text) : Option (Nat × Nat) :=
  (hh.bind number).bind fun hour => (mm.bind number).map fun minute => (hour, minute)

/-- The next occurrence; `none` models a thrown error. -/
def nextOccurrence (recurrence : Text) (fired : Instant) : Option Instant :=
  let parts := recurrence.splitOn ':'
  let fromPlusOneDate := addHomeDays (homeDate partsIn homeTz fired) 1
  if parts[0]? = some "daily".toList then
    (parseHHMM parts[1]? parts[2]?).map fun time =>
      homeLocalToDate partsIn homeTz fromPlusOneDate time.1 time.2
  else if parts[0]? = some "weekdays".toList then
    (parseHHMM parts[1]? parts[2]?).map fun time =>
      let fromPlusOne := homeLocalToDate partsIn homeTz fromPlusOneDate 0 0
      homeLocalToDate partsIn homeTz
        (nextWeekdayDate partsIn homeTz fromPlusOne time.1 time.2) time.1 time.2
  else if parts[0]? = some "weekly".toList then
    (parseHHMM parts[2]? parts[3]?).bind fun time =>
      (parts[1]?.bind DOW_MAP).map fun targetDow =>
        let fromPlusOne := homeLocalToDate partsIn homeTz fromPlusOneDate 0 0
        homeLocalToDate partsIn homeTz
          (nextDowDate partsIn homeTz fromPlusOne targetDow time.1 time.2) time.1 time.2
  else none

/-- A recurrence: its text, whether its date is searched for, the dates that it allows, and its
    time. -/
inductive Recurrence : Text → Bool → (Day → Prop) → Text → Prop
  | daily {time : Text} (htime : (hhmm time).isSome) :
      Recurrence ("daily:".toList ++ time) false (fun _ => True) time
  | weekdays {time : Text} (htime : (hhmm time).isSome) :
      Recurrence ("weekdays:".toList ++ time) true (fun date => 1 ≤ dow date ∧ dow date ≤ 5) time
  | weekly {token time : Text} {targetDow : Nat} (htoken : DOW_MAP token = some targetDow)
      (htime : (hhmm time).isSome) :
      Recurrence ("weekly:".toList ++ (token ++ ':' :: time)) true
        (fun date => dow date = targetDow) time

/-! ## Section 3: The conversion -/

namespace ClockZone

variable (z : ClockZone) {T target shift : Int}

/-- The instant that is answered for a minute of the wall clock. -/
def answer (target : Int) : Int := 60000 * z.corrected target (target - 60)

/-- The clock changes between the guess and the answer, which then reads `shift` minutes more. -/
def Slips (target shift : Int) : Prop :=
  ∃ T, Changes z.offset T ∧
    (60000 * (target - 60) < T ∧ T ≤ 60000 * (target - z.offset (T - 1)) ∧
        shift = z.offset T - z.offset (T - 1) ∨
      60000 * (target - z.offset T) < T ∧ T ≤ 60000 * (target - 60) ∧
        shift = z.offset (T - 1) - z.offset T)

theorem homeLocalToDate_eq (homeTz : Zone) (date : Day) (hour minute : Nat) :
    homeLocalToDate z.partsIn homeTz date hour minute =
      z.answer (date * 1440 + (hour * 60 + minute)) := by
  have hstep : instantAtStep z.partsIn (date * 1440 + (hour * 60 + minute)) homeTz _ = _ :=
    z.instantAtStep_minute (date * 1440 + (hour * 60 + minute))
      (date * 1440 + (hour * 60 + minute) - 60)
  rw [mul_comm (60000 : Int) (_ - 60)] at hstep
  exact hstep

theorem Slips.ne_zero (h : z.Slips target shift) : shift ≠ 0 := by
  obtain ⟨T, hT, h | h⟩ := h
  · have hne : z.offset (T - 1) ≠ z.offset T := hT
    omega
  · have hne : z.offset (T - 1) ≠ z.offset T := hT
    omega

theorem Slips.small (h : z.Slips target shift) : -120 ≤ shift ∧ shift ≤ 120 := by
  obtain ⟨T, -, h | h⟩ := h
  · have hsmall := z.small T
    omega
  · have hsmall := z.small T
    omega

/-- The change is near. -/
theorem Slips.near (h : z.Slips target shift) : ∃ T, Changes z.offset T ∧
    60000 * (target - 840) ≤ T ∧ T ≤ 60000 * (target + 840) := by
  obtain ⟨T, hT, h | h⟩ := h
  · have hold := z.bounded (T - 1)
    exact ⟨T, hT, by omega, by omega⟩
  · have hnew := z.bounded T
    exact ⟨T, hT, by omega, by omega⟩

/-- A guess before a change takes the old offset. -/
theorem answer_before (target : Int) (hT : Changes z.offset T) (hnear : T ≤ 60000 * (target + 840))
    (hguess : 60000 * (target - 60) < T) : z.answer target = 60000 * (target - z.offset (T - 1)) := by
  have hrare : RARE_MS = 345600000 := rfl
  rw [answer, corrected, z.offset_before hT (by omega) hguess]

/-- A guess after a change takes the new offset. -/
theorem answer_after (target : Int) (hT : Changes z.offset T) (hnear : 60000 * (target - 840) ≤ T)
    (hguess : T ≤ 60000 * (target - 60)) : z.answer target = 60000 * (target - z.offset T) := by
  have hrare : RARE_MS = 345600000 := rfl
  rw [answer, corrected, z.offset_after hT (by omega) hguess]

/-- Where it slips, the answer reads that much more. -/
theorem Slips.reads (h : z.Slips target shift) : z.reads (z.answer target) = target + shift := by
  have hrare : RARE_MS = 345600000 := rfl
  obtain ⟨T, hT, ⟨hguess, hanswer, hshift⟩ | ⟨hanswer, hguess, hshift⟩⟩ := h
  · have hold := z.bounded (T - 1)
    rw [z.answer_before target hT (by omega) hguess, z.reads_minute,
      z.offset_after hT (by omega) hanswer]
    omega
  · have hnew := z.bounded T
    rw [z.answer_after target hT (by omega) hguess, z.reads_minute,
      z.offset_before hT (by omega) hanswer]
    omega

/-- Where no instant reads the minute, the answer comes after any earlier reading. -/
theorem Slips.later (h : z.Slips target shift) (hnone : ∀ t, z.reads t ≠ target) {now : Int}
    (hnow : z.reads now < target) (hnow' : z.reads now < target + shift) :
    now < z.answer target := by
  have hrare : RARE_MS = 345600000 := rfl
  obtain ⟨T, hT, ⟨hguess, hanswer, hshift⟩ | ⟨hanswer, hguess, hshift⟩⟩ := h
  · have hold := z.bounded (T - 1)
    have hnew := z.bounded T
    have hgap : z.Gap T target := by
      refine ⟨hT, hanswer, ?_⟩
      by_contra hread
      -- the new offset would read the minute
      apply hnone (60000 * (target - z.offset T))
      rw [z.reads_minute, z.offset_after (s := 60000 * (target - z.offset T)) hT (by omega) (by omega)]
      omega
    have hlt := hgap.after z hnow
    rw [z.answer_before target hT (by omega) hguess]
    omega
  · have hold := z.bounded (T - 1)
    have hnew := z.bounded T
    have hgap : z.Gap T target := by
      refine ⟨hT, ?_, hanswer⟩
      by_contra hread
      apply hnone (60000 * (target - z.offset (T - 1)))
      rw [z.reads_minute,
        z.offset_before (s := 60000 * (target - z.offset (T - 1))) hT (by omega) (by omega)]
      omega
    have hlt := hgap.after z hnow
    rw [z.answer_after target hT (by omega) hguess]
    by_contra hpast
    -- from the answer on, the clock has not read less
    have hreads : z.reads now = now / 60000 + z.offset now := rfl
    rw [z.offset_before hT (by omega) hlt] at hreads
    omega

/-- The answer reads what is asked for, unless it slips. -/
theorem reads_answer (target : Int) :
    z.reads (z.answer target) = target ∨ ∃ shift, z.Slips target shift := by
  have hrare : RARE_MS = 345600000 := rfl
  have hguess := z.bounded (60000 * (target - 60))
  rw [answer, z.reads_minute, corrected]
  by_cases hsame : z.offset (60000 * (target - z.offset (60000 * (target - 60)))) =
      z.offset (60000 * (target - 60))
  · left
    omega
  right
  rcases le_total (60000 * (target - 60))
    (60000 * (target - z.offset (60000 * (target - 60)))) with hle | hle
  · -- the clock changes after the guess
    obtain ⟨T, hT, hlt, hTle, hold, -⟩ := z.exists_change hle (by omega) (Ne.symm hsame)
    rw [← hold] at hTle
    exact ⟨_, T, hT, .inl ⟨hlt, hTle, rfl⟩⟩
  · obtain ⟨T, hT, hlt, hTle, -, hnew⟩ := z.exists_change hle (by omega) hsame
    rw [← hnew] at hlt
    exact ⟨_, T, hT, .inr ⟨hlt, hTle, rfl⟩⟩

theorem reads_answer_iff (target : Int) :
    z.reads (z.answer target) = target ↔ ∀ shift, ¬z.Slips target shift := by
  constructor
  · intro hreads shift hslips
    have hshift := hslips.reads z
    have hne := hslips.ne_zero z
    omega
  · intro hnone
    rcases z.reads_answer target with hreads | ⟨shift, hslips⟩
    · exact hreads
    · exact absurd hslips (hnone shift)

/-! ## Section 4: The search -/

/-- What the wall clock shows, and when a time of day is still to come. -/
theorem shows (now : Instant) (tz : Zone) : ∃ (today : Int) (hour minute : Nat),
    (z.partsIn now tz).date = today ∧ (z.partsIn now tz).hour.val = hour ∧
      (z.partsIn now tz).minute.val = minute ∧ ∀ (date : Int) (h m : Nat), h < 24 → m < 60 →
        (z.reads now < date * 1440 + (h * 60 + m) ↔
          today < date ∨ today = date ∧ (hour < h ∨ hour = h ∧ minute < m)) := by
  refine ⟨z.reads now / 1440, (z.reads now % 1440 / 60).toNat, (z.reads now % 60).toNat, rfl, rfl,
    rfl, ?_⟩
  intro date h m hh hm
  omega

/-- The search finds the first date of its weekday whose time is still to come. -/
theorem nextDowDate_isLeast (now : Instant) (tz : Zone) {targetDow h m : Nat}
    (hdow : targetDow < 7) (hh : h < 24) (hm : m < 60) :
    IsLeast {date | dow date = targetDow ∧ z.reads now < date * 1440 + (h * 60 + m)}
      (nextDowDate z.partsIn tz now targetDow h m) := by
  obtain ⟨today, hour, minute, hdate, hhour, hminute, htime⟩ := z.shows now tz
  have hdays : dow today = ((today + 4) % 7).toNat := rfl
  have hmem : ∀ date : Int, date ∈ {date | dow date = targetDow ∧
      z.reads now < date * 1440 + (h * 60 + m)} ↔ ((date + 4) % 7).toNat = targetDow ∧
        (today < date ∨ today = date ∧ (hour < h ∨ hour = h ∧ minute < m)) :=
    fun date => and_congr Iff.rfl (htime date h m hh hm)
  unfold nextDowDate addHomeDays
  dsimp only
  rw [hdate, hhour, hminute]
  constructor
  · rw [hmem]
    split_ifs <;> omega
  · intro date hall
    rw [hmem] at hall
    show (_ : Int) ≤ date
    split_ifs <;> omega

/-- The loop stops at the first weekday. -/
theorem untilWeekday_spec {nowDow : Nat} (h : nowDow < 7) :
    1 ≤ untilWeekday nowDow 7 1 ∧
      (1 ≤ (nowDow + untilWeekday nowDow 7 1) % 7 ∧ (nowDow + untilWeekday nowDow 7 1) % 7 ≤ 5) ∧
      ∀ k < untilWeekday nowDow 7 1, 1 ≤ k → ¬(1 ≤ (nowDow + k) % 7 ∧ (nowDow + k) % 7 ≤ 5) := by
  interval_cases nowDow <;> decide

/-- The search finds the first weekday whose time is still to come. -/
theorem nextWeekdayDate_isLeast (now : Instant) (tz : Zone) {h m : Nat} (hh : h < 24)
    (hm : m < 60) :
    IsLeast {date | (1 ≤ dow date ∧ dow date ≤ 5) ∧ z.reads now < date * 1440 + (h * 60 + m)}
      (nextWeekdayDate z.partsIn tz now h m) := by
  obtain ⟨today, hour, minute, hdate, hhour, hminute, htime⟩ := z.shows now tz
  have hdays : dow today = ((today + 4) % 7).toNat := rfl
  have hmem : ∀ date : Int, date ∈ {date | (1 ≤ dow date ∧ dow date ≤ 5) ∧
      z.reads now < date * 1440 + (h * 60 + m)} ↔
        (1 ≤ ((date + 4) % 7).toNat ∧ ((date + 4) % 7).toNat ≤ 5) ∧
          (today < date ∨ today = date ∧ (hour < h ∨ hour = h ∧ minute < m)) :=
    fun date => and_congr Iff.rfl (htime date h m hh hm)
  unfold nextWeekdayDate addHomeDays
  dsimp only
  rw [hdate, hhour, hminute]
  have hlt : dow today < 7 := by omega
  obtain ⟨hpos, hweekday, hfirst⟩ := untilWeekday_spec hlt
  generalize untilWeekday (dow today) 7 1 = ahead at *
  constructor
  · rw [hmem]
    split_ifs <;> omega
  · intro date hall
    rw [hmem] at hall
    show (_ : Int) ≤ date
    split_ifs with htoday
    · omega
    · by_contra hearlier
      -- a weekday before the one that the loop stopped at
      have hnot := hfirst (date - today).toNat (by omega) (by omega)
      omega

end ClockZone

/-! ## Section 5: Texts -/

theorem number_two {c d : Char} (hc : c.isDigit) (hd : d.isDigit) :
    number [c, d] = some (10 * (c.toNat - 48) + (d.toNat - 48)) := by
  simp [number, hc, hd, Nat.ofDigitChars_cons]

theorem colon_not_mem {c d : Char} (hc : c.isDigit) (hd : d.isDigit) : ':' ∉ [c, d] := by
  intro hmem
  simp only [List.mem_cons, List.not_mem_nil, or_false] at hmem
  rcases hmem with rfl | rfl
  · exact absurd hc (by decide)
  · exact absurd hd (by decide)

/-- The hour and the minute of `HH:MM`. -/
theorem hhmm_read {time : Text} (h : (hhmm time).isSome) : ∃ hh mm hour minute,
    time = hh ++ ':' :: mm ∧ ':' ∉ hh ∧ ':' ∉ mm ∧ number hh = some hour ∧
      number mm = some minute ∧ hour < 24 ∧ minute < 60 ∧
      toMinutes time = ((hour * 60 + minute : Nat) : Int) := by
  obtain ⟨total, htotal⟩ := Option.isSome_iff_exists.1 h
  have hlt := hhmm_lt htotal
  have hminutes : toMinutes time = (total : Int) := by rw [toMinutes, htotal, Option.getD_some]
  unfold hhmm at htotal
  split at htotal
  · next a b c d =>
    split at htotal
    · next hform =>
      obtain ⟨hhour, hc, hc', hd⟩ := hform
      have ha : a.isDigit := by
        rcases hhour with ⟨rfl | rfl, -⟩ | ⟨rfl, -⟩ <;> decide
      have hb : b.isDigit := by
        rcases hhour with ⟨-, hb⟩ | ⟨-, hb, hb'⟩
        · exact hb
        · have hlow : 48 ≤ b.toNat := hb
          have hhigh : b.toNat ≤ 51 := hb'
          exact Char.isDigit_iff_toNat.2 ⟨hlow, hhigh.trans (by decide)⟩
      have hlow : 48 ≤ c.toNat := hc
      have hhigh : c.toNat ≤ 53 := hc'
      have hc : c.isDigit := Char.isDigit_iff_toNat.2 ⟨hlow, hhigh.trans (by decide)⟩
      have hones : d.toNat ≤ 57 := (Char.isDigit_iff_toNat.1 hd).2
      have hsum := Option.some.inj htotal
      refine ⟨[a, b], [c, d], _, _, rfl, colon_not_mem ha hb, colon_not_mem hc hd,
        number_two ha hb, number_two hc hd, by omega, by omega, ?_⟩
      rw [hminutes, hsum]
    · simp at htotal
  · simp at htotal

/-- The tokens of a text that ends in `HH:MM`. -/
theorem splitOn_time (token : Text) {hh mm : Text} (htoken : ':' ∉ token) (hhh : ':' ∉ hh) (hmm : ':' ∉ mm) :
    (token ++ ':' :: (hh ++ ':' :: mm)).splitOn ':' = [token, hh, mm] := by
  rw [splitOn_append_break, splitOn_append_break, List.splitOn_eq_singleton htoken,
    List.splitOn_eq_singleton hhh, List.splitOn_eq_singleton hmm]
  rfl

theorem colon_not_mem_dow {token : Text} {targetDow : Nat} (h : DOW_MAP token = some targetDow) :
    ':' ∉ token ∧ targetDow < 7 := by
  unfold DOW_MAP at h
  split_ifs at h with h0 h1 h2 h3 h4 h5 h6
  · rcases h0 with rfl | rfl <;> cases h <;> decide
  · rcases h1 with rfl | rfl <;> cases h <;> decide
  · rcases h2 with rfl | rfl <;> cases h <;> decide
  · rcases h3 with rfl | rfl <;> cases h <;> decide
  · rcases h4 with rfl | rfl <;> cases h <;> decide
  · rcases h5 with rfl | rfl <;> cases h <;> decide
  · rcases h6 with rfl | rfl <;> cases h <;> decide

namespace ClockZone

variable (z : ClockZone)

/-- The minute of the next midnight. -/
def nextMidnight (fired : Instant) : Int := (z.reads fired / 1440 + 1) * 1440

/-- What `nextOccurrence` answers: the next date, or the first one that is allowed after what the
    answer for the next midnight reads. -/
theorem nextOccurrence_eq {text time : Text} {searched : Bool} {allowed : Day → Prop}
    (h : Recurrence text searched allowed time) (tz : Zone) (fired : Instant) : ∃ date : Int,
      nextOccurrence z.partsIn tz text fired = some (z.answer (wallMinute date time)) ∧
        (searched = false → date = z.reads fired / 1440 + 1 ∧ ∀ d, allowed d) ∧
        (searched = true → IsLeast {d | allowed d ∧
          z.reads (z.answer (z.nextMidnight fired)) < wallMinute d time} date) := by
  -- Every form starts from the midnight after the day that has fired.
  have hmidnight : homeLocalToDate z.partsIn tz
      (addHomeDays (homeDate z.partsIn tz fired) 1) 0 0 = z.answer (z.nextMidnight fired) := by
    rw [z.homeLocalToDate_eq]
    congr 1
    show (z.reads fired / 1440 + 1) * 1440 + _ = (z.reads fired / 1440 + 1) * 1440
    omega
  have hanswer : ∀ (date : Int) {hour minute : Nat} {total : Int},
      total = ((hour * 60 + minute : Nat) : Int) →
        homeLocalToDate z.partsIn tz date hour minute = z.answer (date * 1440 + total) := by
    intro date hour minute total htotal
    rw [z.homeLocalToDate_eq, htotal, Nat.cast_add, Nat.cast_mul]
    rfl
  have hread : ∀ {hh mm : Text} {hour minute : Nat}, number hh = some hour →
      number mm = some minute → parseHHMM (some hh) (some mm) = some (hour, minute) := by
    intro hh mm hour minute hhour hminute
    simp [parseHHMM, hhour, hminute]
  cases h with
  | daily htime =>
    -- `daily`: that day itself, without a search.
    obtain ⟨hh, mm, hour, minute, rfl, hhh, hmm, hhour, hminute, -, -, htotal⟩ := hhmm_read htime
    have hparts : ("daily:".toList ++ (hh ++ ':' :: mm)).splitOn ':' = ["daily".toList, hh, mm] :=
      splitOn_time "daily".toList (by decide) hhh hmm
    refine ⟨z.reads fired / 1440 + 1, ?_, fun _ => ⟨rfl, fun _ => trivial⟩, by simp⟩
    unfold nextOccurrence
    rw [wallMinute, ← hanswer _ htotal, hparts]
    simp only [List.getElem?_cons_zero, List.getElem?_cons_succ, if_true, hread hhour hminute,
      Option.map_some]
    rfl
  | weekdays htime =>
    obtain ⟨hh, mm, hour, minute, rfl, hhh, hmm, hhour, hminute, hlt, hlt', htotal⟩ :=
      hhmm_read htime
    have hparts : ("weekdays:".toList ++ (hh ++ ':' :: mm)).splitOn ':' =
        ["weekdays".toList, hh, mm] := splitOn_time "weekdays".toList (by decide) hhh hmm
    -- The search begins at midnight, and stops at the first day that will do.
    have hsearch := z.nextWeekdayDate_isLeast (z.answer (z.nextMidnight fired)) tz hlt hlt'
    refine ⟨nextWeekdayDate z.partsIn tz (z.answer (z.nextMidnight fired)) hour minute, ?_, by simp,
      fun _ => ?_⟩
    · unfold nextOccurrence
      rw [wallMinute, ← hanswer _ htotal, hparts]
      simp only [List.getElem?_cons_zero, List.getElem?_cons_succ, hmidnight, hread hhour hminute,
        Option.map_some]
      rfl
    · simp only [wallMinute, htotal, Nat.cast_add, Nat.cast_mul]
      exact hsearch
  | @weekly token _ targetDow htoken htime =>
    obtain ⟨hcolon, hdow⟩ := colon_not_mem_dow htoken
    obtain ⟨hh, mm, hour, minute, rfl, hhh, hmm, hhour, hminute, hlt, hlt', htotal⟩ :=
      hhmm_read htime
    have hparts : ("weekly:".toList ++ (token ++ ':' :: (hh ++ ':' :: mm))).splitOn ':' =
        ["weekly".toList, token, hh, mm] := by
      show ("weekly".toList ++ ':' :: (token ++ ':' :: (hh ++ ':' :: mm))).splitOn ':' = _
      rw [splitOn_append_break, splitOn_time token hcolon hhh hmm,
        List.splitOn_eq_singleton (by decide)]
      rfl
    -- The same search, for one day of the week.
    have hsearch := z.nextDowDate_isLeast (z.answer (z.nextMidnight fired)) tz hdow hlt hlt'
    refine ⟨nextDowDate z.partsIn tz (z.answer (z.nextMidnight fired)) targetDow hour minute, ?_,
      by simp, fun _ => ?_⟩
    · unfold nextOccurrence
      rw [wallMinute, ← hanswer _ htotal, hparts]
      simp only [List.getElem?_cons_zero, List.getElem?_cons_succ, hmidnight, hread hhour hminute,
        Option.bind_some, htoken, Option.map_some]
      rfl
    · simp only [wallMinute, htotal, Nat.cast_add, Nat.cast_mul]
      exact hsearch

/-! ## Section 6: Occurrences that are right -/

/-- The first date after one on which a reminder fired that its recurrence allows. -/
def Next (allowed : Day → Prop) (fired : Instant) (date : Int) : Prop :=
  IsLeast {d | z.reads fired / 1440 < d ∧ allowed d} date

/-- The next occurrence comes later, on the next date that is allowed, and reads the time if the
    clock reads it at all on that date. -/
structure Right (allowed : Day → Prop) (time : Text) (tz : Zone) (fired next : Int) : Prop where
  later : fired < next
  date : z.Next allowed fired (homeDate z.partsIn tz next)
  reads : (∃ t, z.Reads t (homeDate z.partsIn tz next) time) →
    z.Reads next (homeDate z.partsIn tz next) time

/-- The answer for the next midnight does not read the time on a date before or after it. -/
structure SearchOk (allowed : Day → Prop) (time : Text) (fired : Instant) : Prop where
  today : allowed (z.reads fired / 1440) →
    ∀ shift, z.Slips (z.nextMidnight fired) shift → toMinutes time ≤ 1440 + shift
  tomorrow : allowed (z.reads fired / 1440 + 1) →
    (∀ shift, z.Slips (z.nextMidnight fired) shift → shift < toMinutes time) ∧
      ((∀ shift, ¬z.Slips (z.nextMidnight fired) shift) → 0 < toMinutes time)

/-- The answer slips only where no instant reads the time, and within the date; and a time that is
    read twice is answered by the second time once the clock has been set back. -/
structure ConvertOk (time : Text) (fired : Instant) (date : Int) : Prop where
  slips : ∀ shift, z.Slips (wallMinute date time) shift → (∀ t, ¬z.Reads t date time) ∧
    0 ≤ toMinutes time + shift ∧ toMinutes time + shift < 1440
  fold : ∀ T, z.Fold T (wallMinute date time) → T ≤ fired →
    T ≤ 60000 * (wallMinute date time - 60)

/-- The condition on the zone, the recurrence and the instant that fired. -/
structure OnTime (searched : Bool) (allowed : Day → Prop) (time : Text) (fired : Instant) : Prop where
  search : searched = true → z.SearchOk allowed time fired
  convert : ∀ date, z.Next allowed fired date → z.ConvertOk time fired date

variable {z} {allowed : Day → Prop} {time : Text} {tz : Zone} {fired next date : Int}

/-- The parts of `Next`, for omega. -/
theorem Next.bounds (h : z.Next allowed fired date) : z.reads fired / 1440 < date ∧ allowed date ∧
    ∀ d : Int, z.reads fired / 1440 < d → allowed d → date ≤ d :=
  ⟨h.1.1, h.1.2, fun _ hd hallowed => h.2 ⟨hd, hallowed⟩⟩

theorem wallMinute_eq (date : Int) (time : Text) :
    wallMinute date time = date * 1440 + toMinutes time := rfl

theorem homeDate_eq (tz : Zone) (t : Instant) : homeDate z.partsIn tz t = z.reads t / 1440 := rfl

/-- On the next date, the conversion decides. -/
theorem right_answer_iff (h : z.Next allowed fired date) :
    z.Right allowed time tz fired (z.answer (wallMinute date time)) ↔
      z.ConvertOk time fired date := by
  have hrare : RARE_MS = 345600000 := rfl
  have hrange := toMinutes_range time
  have hwall := wallMinute_eq date time
  obtain ⟨hafter, -, -⟩ := h.bounds
  -- before the date, the clock reads less than the time
  have hfired : z.reads fired < wallMinute date time := by omega
  constructor
  · rintro ⟨hlater, hdate, hreads⟩
    have hsame : z.reads (z.answer (wallMinute date time)) / 1440 = date :=
      hdate.unique h
    refine ⟨?_, ?_⟩
    · intro shift hslips
      have hshift := hslips.reads z
      have hne := hslips.ne_zero z
      refine ⟨?_, by omega, by omega⟩
      intro t ht
      rw [homeDate_eq, hsame] at hreads
      have hexact := (z.Reads_iff _).1 (hreads ⟨t, ht⟩)
      omega
    · intro T hfold hpast
      by_contra hguess
      have hbefore := hfold.2.1
      have hbound := z.bounded T
      have hafter := hfold.2.2
      rw [z.answer_before (wallMinute date time) hfold.1 (by omega) (by omega)] at hlater
      omega
  · rintro ⟨hslips, hfold⟩
    rcases z.reads_answer (wallMinute date time) with hexact | ⟨shift, hshift⟩
    · have hsame : z.reads (z.answer (wallMinute date time)) / 1440 = date := by omega
      refine ⟨?_, by rw [homeDate_eq, hsame]; exact h, ?_⟩
      · by_contra hpassed
        -- the clock was set back between the answer and the instant that fired
        obtain ⟨T, hT, hlt, hle⟩ := z.fold_of_reads hexact hfired (by rw [← answer]; omega)
        rw [← answer] at hlt
        have hafter := hT.2.2
        have hbound := z.bounded (T - 1)
        have hbefore := hT.2.1
        rw [z.answer_after (wallMinute date time) hT.1 (by omega) (hfold T hT hle)] at hlt
        omega
      · intro _
        rw [homeDate_eq, hsame, z.Reads_iff]
        exact hexact
    · obtain ⟨hnone, hlow, hhigh⟩ := hslips shift hshift
      have hread := hshift.reads z
      have hsame : z.reads (z.answer (wallMinute date time)) / 1440 = date := by omega
      have hnever : ∀ t, z.reads t ≠ wallMinute date time := by
        intro t ht
        exact hnone t ((z.Reads_iff t).2 ht)
      refine ⟨hshift.later z hnever hfired (by omega), by rw [homeDate_eq, hsame]; exact h, ?_⟩
      rw [homeDate_eq, hsame]
      rintro ⟨t, ht⟩
      exact absurd ht (hnone t)

/-- Two answers a day or more apart do not both slip. -/
theorem not_slips_both {target target' shift shift' : Int} (h : z.Slips target shift)
    (h' : z.Slips target' shift') (hfar : target + 1000 ≤ target')
    (hnear : target' ≤ target + 4000) : False := by
  have hrare : RARE_MS = 345600000 := rfl
  obtain ⟨S, hS, hlow, hhigh⟩ := h.near z
  obtain ⟨T, hT, hside⟩ := h
  obtain ⟨T', hT', hside'⟩ := h'
  have hold := z.bounded (T - 1)
  have hnew := z.bounded T
  have hold' := z.bounded (T' - 1)
  have hnew' := z.bounded T'
  have hsmall := z.small T
  rcases lt_trichotomy T T' with hlt | rfl | hlt
  · have hapart := z.rare T T' hT hT' hlt
    omega
  · omega
  · have hapart := z.rare T' T hT' hT hlt
    omega

/-- What the search finds is the next date, where the answer for midnight is good enough. -/
theorem SearchOk.chosen (hsearch : z.SearchOk allowed time fired) (h : z.Next allowed fired date)
    {chosen : Int} (hchosen : IsLeast {d | allowed d ∧
      z.reads (z.answer (z.nextMidnight fired)) < wallMinute d time} chosen) : chosen = date := by
  have hrange := toMinutes_range time
  obtain ⟨hafter, hallowed, hleast⟩ := h.bounds
  have hmidnight : z.nextMidnight fired = (z.reads fired / 1440 + 1) * 1440 := rfl
  have hwall := fun d => wallMinute_eq d time
  -- the answer for midnight reads less than the time on the next date
  have hahead : z.reads (z.answer (z.nextMidnight fired)) < wallMinute date time := by
    rcases z.reads_answer (z.nextMidnight fired) with hexact | ⟨shift, hslips⟩
    · rw [hexact, hwall]
      by_cases htomorrow : date = z.reads fired / 1440 + 1
      · have hpos := (hsearch.tomorrow (htomorrow ▸ hallowed)).2
          ((z.reads_answer_iff _).1 hexact)
        omega
      · omega
    · have hsmall := hslips.small z
      rw [hslips.reads z, hwall]
      by_cases htomorrow : date = z.reads fired / 1440 + 1
      · have hpos := (hsearch.tomorrow (htomorrow ▸ hallowed)).1 shift hslips
        omega
      · omega
  apply le_antisymm (hchosen.2 ⟨hallowed, hahead⟩)
  obtain ⟨hallowed', hreads⟩ := hchosen.1
  rw [hwall] at hreads
  -- and more than the time on any date before it
  apply hleast chosen _ hallowed'
  by_contra hpast
  rcases z.reads_answer (z.nextMidnight fired) with hexact | ⟨shift, hslips⟩
  · omega
  · have hsmall := hslips.small z
    have hread := hslips.reads z
    have htoday : chosen = z.reads fired / 1440 := by omega
    have hlate := hsearch.today (htoday ▸ hallowed') shift hslips
    omega

/-- Elsewhere the occurrence is wrong. -/
theorem not_right_of_search (hsearch : ¬z.SearchOk allowed time fired)
    (h : z.Next allowed fired date) {chosen : Int} (hchosen : IsLeast {d | allowed d ∧
      z.reads (z.answer (z.nextMidnight fired)) < wallMinute d time} chosen) :
    ¬z.Right allowed time tz fired (z.answer (wallMinute chosen time)) := by
  have hrange := toMinutes_range time
  obtain ⟨hafter, hallowed, hleast⟩ := h.bounds
  have hmidnight : z.nextMidnight fired = (z.reads fired / 1440 + 1) * 1440 := rfl
  have hwall := fun d => wallMinute_eq d time
  obtain ⟨hallowed', hahead⟩ := hchosen.1
  rw [hwall] at hahead
  rintro ⟨-, hdate, hreads⟩
  have hsame : z.reads (z.answer (wallMinute chosen time)) / 1440 = date := hdate.unique h
  rw [homeDate_eq, hsame] at hreads
  apply hsearch
  refine ⟨?_, ?_⟩
  · intro htoday shift hslips
    by_contra hlate
    have hsmall := hslips.small z
    have hread := hslips.reads z
    -- the search falls back to the date on which the reminder fired
    have hle : chosen ≤ z.reads fired / 1440 := hchosen.2 ⟨htoday, by rw [hwall]; omega⟩
    rcases z.reads_answer (wallMinute chosen time) with hexact | ⟨shift', hslips'⟩
    · have := hwall chosen
      omega
    · have hread' := hslips'.reads z
      have hsmall' := hslips'.small z
      have hchosen' := hwall chosen
      have hdate' := hwall date
      rcases z.reads_answer (wallMinute date time) with hexact | ⟨shift'', hslips''⟩
      · have hright := (z.Reads_iff _).1 (hreads ⟨_, (z.Reads_iff _).2 hexact⟩)
        omega
      · exact not_slips_both hslips hslips'' (by omega) (by omega)
  · intro htomorrow
    have hnext : date = z.reads fired / 1440 + 1 := by
      have hle := hleast (z.reads fired / 1440 + 1) (by omega) htomorrow
      omega
    have hchosen' := hwall chosen
    have hdate' := hwall date
    refine ⟨?_, ?_⟩
    · intro shift hslips
      by_contra hlate
      have hsmall := hslips.small z
      have hread := hslips.reads z
      -- the search leaves the next date out
      rcases z.reads_answer (wallMinute chosen time) with hexact | ⟨shift', hslips'⟩
      · omega
      · have hread' := hslips'.reads z
        have hsmall' := hslips'.small z
        exact not_slips_both hslips hslips' (by omega) (by omega)
    · intro hnone
      by_contra hzero
      have hexact := (z.reads_answer_iff _).2 hnone
      have hstart : z.reads (z.answer (z.nextMidnight fired)) = wallMinute date time := by omega
      have hright := (z.Reads_iff _).1 (hreads ⟨_, (z.Reads_iff _).2 hstart⟩)
      rcases z.reads_answer (wallMinute chosen time) with hexact' | ⟨shift', hslips'⟩
      · omega
      · have hread' := hslips'.reads z
        have hsmall' := hslips'.small z
        omega

/-- There is always a next date. -/
theorem exists_next {text : Text} {searched : Bool}
    (h : Recurrence text searched allowed time) (fired : Int) : ∃ date, z.Next allowed fired date := by
  have hsome : ∃ date : Int, z.reads fired / 1440 < date ∧ allowed date := by
    generalize z.reads fired / 1440 = today
    cases h with
    | daily _ => exact ⟨today + 1, by omega, trivial⟩
    | weekdays _ =>
      -- the next Wednesday
      refine ⟨today + 1 + (13 - today) % 7, by omega, ?_⟩
      show 1 ≤ ((today + 1 + (13 - today) % 7 + 4) % 7).toNat ∧
        ((today + 1 + (13 - today) % 7 + 4) % 7).toNat ≤ 5
      omega
    | @weekly _ _ targetDow htoken _ =>
      have hlt := (colon_not_mem_dow htoken).2
      refine ⟨today + 1 + (targetDow + 9 - today) % 7, by omega, ?_⟩
      show ((today + 1 + (targetDow + 9 - today) % 7 + 4) % 7).toNat = targetDow
      omega
  obtain ⟨date, hdate, hleast⟩ := Int.exists_least_of_bdd
    ⟨z.reads fired / 1440, fun d hd => hd.1.le⟩ hsome
  exact ⟨date, hdate, fun d hd => hleast d hd⟩

/-- **Occurrences**: the next one is right exactly under the condition. -/
theorem nextOccurrence_right {text : Text} {searched : Bool}
    (h : Recurrence text searched allowed time) (tz : Zone) (fired : Int) :
    ∃ next, nextOccurrence z.partsIn tz text fired = some next ∧
      (z.Right allowed time tz fired next ↔ z.OnTime searched allowed time fired) := by
  obtain ⟨chosen, hanswer, hdaily, hsearched⟩ := z.nextOccurrence_eq h tz fired
  obtain ⟨date, hdate⟩ := exists_next (z := z) h fired
  refine ⟨_, hanswer, ?_⟩
  -- the conversion is asked for on one date only
  have hconvert : (∀ d, z.Next allowed fired d → z.ConvertOk time fired d) ↔
      z.ConvertOk time fired date := by
    constructor
    · intro hall
      exact hall date hdate
    · intro hok d hd
      rw [hd.unique hdate]
      exact hok
  by_cases hsearch : searched = true
  · by_cases hok : z.SearchOk allowed time fired
    · rw [hok.chosen hdate (hsearched hsearch), right_answer_iff hdate, ← hconvert]
      exact ⟨fun hall => ⟨fun _ => hok, hall⟩, fun hon => hon.convert⟩
    · have hwrong : ¬z.Right allowed time tz fired (z.answer (wallMinute chosen time)) :=
        not_right_of_search hok hdate (hsearched hsearch)
      exact ⟨fun hright => absurd hright hwrong, fun hon => absurd (hon.search hsearch) hok⟩
  · obtain ⟨hchosen, hall⟩ := hdaily (Bool.eq_false_iff.2 hsearch)
    have hsame : chosen = date := by
      have hbounds := hdate.bounds
      have hle := hbounds.2.2 (z.reads fired / 1440 + 1) (by omega) (hall _)
      omega
    rw [hsame, right_answer_iff hdate, ← hconvert]
    exact ⟨fun hall => ⟨fun hs => absurd hs hsearch, hall⟩, fun hon => hon.convert⟩

end ClockZone

/-- A sequence of next dates visits every allowed one once. -/
theorem visits_once {date : Nat → Int} {allowed : Int → Prop}
    (h : ∀ k, IsLeast {d | date k < d ∧ allowed d} (date (k + 1))) :
    StrictMono date ∧ (∀ k, allowed (date (k + 1))) ∧
      ∀ d, date 0 < d → allowed d → ∃! k, date (k + 1) = d := by
  have hmono : StrictMono date := strictMono_nat_of_lt_succ fun k => (h k).1.1
  refine ⟨hmono, fun k => (h k).1.2, ?_⟩
  intro d hd hallowed
  have hgrows : ∀ k : Nat, date 0 + k ≤ date k := by
    intro k
    induction k with
    | zero => simp
    | succ k ih =>
      have hlt := (h k).1.1
      push_cast
      omega
  have hreach : ∃ k, d ≤ date (k + 1) := by
    have hfar := hgrows ((d - date 0).toNat + 1)
    exact ⟨(d - date 0).toNat, by omega⟩
  classical
  -- the first date that is not before `d`
  have hlast : date (Nat.find hreach) < d := by
    cases hfind : Nat.find hreach with
    | zero => exact hd
    | succ k =>
      have hnot := Nat.find_min hreach (m := k) (by omega)
      omega
  refine ⟨Nat.find hreach, ?_, ?_⟩
  · have hle := (h (Nat.find hreach)).2 ⟨hlast, hallowed⟩
    have hge := Nat.find_spec hreach
    exact le_antisymm hle hge
  · intro k hk
    have hge := Nat.find_spec hreach
    have hle := (h (Nat.find hreach)).2 ⟨hlast, hallowed⟩
    have hsame : date (k + 1) = date (Nat.find hreach + 1) := by rw [hk]; exact le_antisymm hge hle
    have hinj := hmono.injective hsame
    omega

namespace ClockZone

/-- **Recurrences**: every occurrence is right exactly under the condition, and reminders that meet it
    visit every date that they may, each once. -/
theorem nextOccurrence_exact (z : ClockZone) {text time : Text} {searched : Bool}
    {allowed : Day → Prop} (h : Recurrence text searched allowed time) (tz : Zone) :
    (∀ fired, ∃ next, nextOccurrence z.partsIn tz text fired = some next ∧
      (z.Right allowed time tz fired next ↔ z.OnTime searched allowed time fired)) ∧
    ∀ fired : Nat → Int,
      (∀ k, nextOccurrence z.partsIn tz text (fired k) = some (fired (k + 1))) →
      (∀ k, z.OnTime searched allowed time (fired k)) →
        StrictMono (fun k => homeDate z.partsIn tz (fired k)) ∧
        (∀ k, allowed (homeDate z.partsIn tz (fired (k + 1)))) ∧
        ∀ d, homeDate z.partsIn tz (fired 0) < d → allowed d →
          ∃! k, homeDate z.partsIn tz (fired (k + 1)) = d := by
  refine ⟨fun fired => nextOccurrence_right h tz fired, ?_⟩
  intro fired hrun hon
  apply visits_once
  intro k
  obtain ⟨next, hnext, hiff⟩ := nextOccurrence_right (z := z) h tz (fired k)
  rw [hrun k, Option.some.injEq] at hnext
  rw [hnext]
  exact (hiff.2 (hon k)).date

end ClockZone

/-- Monday to Friday. -/
def Weekday (date : Day) : Prop := 1 ≤ dow date ∧ dow date ≤ 5

theorem newYork_slips {target shift : Int} (h : newYork.Slips target shift) :
    60000 * (target - 60) < 1772953200000 ∧ 1772953200000 ≤ 60000 * (target + 300) := by
  obtain ⟨T, hT, hcase⟩ := h
  have hbefore : newYork.offset (1772953200000 - 1) = -300 := by decide +kernel
  have hafter : newYork.offset 1772953200000 = -240 := by decide +kernel
  rw [changes_once hT, hbefore, hafter] at hcase
  omega

/-- A reminder at nine on the Friday before the clock goes forward in New York comes again on the
    Monday after. -/
theorem nextOccurrence_exact_spring :
    nextOccurrence newYork.partsIn [] "weekdays:09:00".toList 1772805600000 = some 1773061200000 ∧
      newYork.Right Weekday "09:00".toList [] 1772805600000 1773061200000 := by
  have hrec : Recurrence ("weekdays:".toList ++ "09:00".toList) true Weekday "09:00".toList :=
    .weekdays (by decide)
  have hmonday : nextOccurrence newYork.partsIn [] "weekdays:09:00".toList 1772805600000 =
      some 1773061200000 := by decide +kernel
  obtain ⟨next, hnext, hiff⟩ := (newYork.nextOccurrence_exact hrec []).1 1772805600000
  obtain rfl : next = 1773061200000 := Option.some.inj (hnext.symm.trans hmonday)
  have hmidnight : newYork.nextMidnight 1772805600000 = 29547360 := by decide +kernel
  have hfired : newYork.reads 1772805600000 / 1440 = 20518 := by decide +kernel
  refine ⟨hmonday, hiff.2 ⟨fun _ => ⟨?_, ?_⟩, fun date hdate => ?_⟩⟩
  · intro _ shift hslips
    have := newYork_slips hslips
    omega
  · intro hsaturday
    rw [hfired] at hsaturday
    exact absurd hsaturday (by unfold Weekday; decide +kernel)
  · obtain ⟨hlater, hallowed, hleast⟩ := hdate.bounds
    have hle := hleast 20521 (by rw [hfired]; decide) (by unfold Weekday; decide +kernel)
    rw [hfired] at hlater
    have hdates : date = 20519 ∨ date = 20520 ∨ date = 20521 := by omega
    rcases hdates with rfl | rfl | rfl
    · exact absurd hallowed (by unfold Weekday; decide +kernel)
    · exact absurd hallowed (by unfold Weekday; decide +kernel)
    · have hnine : wallMinute 20521 "09:00".toList = 29550780 := by decide +kernel
      refine ⟨fun shift hslips => ?_, fun T hfold hle => ?_⟩
      · have := newYork_slips hslips
        omega
      · rw [changes_once hfold.1] at hle
        exact absurd hle (by decide)

/-- A reminder at midnight leaves Tuesday out, in a zone that never changes; and on the day when the
    clock goes forward in New York, one at six comes at seven. -/
theorem nextOccurrence_wrong :
    nextOccurrence always.partsIn [] "weekdays:00:00".toList 1773054000000 = some 1773183600000 ∧
    ¬always.Right Weekday "00:00".toList [] 1773054000000 1773183600000 ∧
    nextOccurrence newYork.partsIn [] "daily:06:00".toList 1772881200000 = some 1772967600000 ∧
    ¬newYork.Right (fun _ => True) "06:00".toList [] 1772881200000 1772967600000 := by
  refine ⟨by decide +kernel, ?_, by decide +kernel, ?_⟩
  · intro hright
    have htuesday : always.reads 1773054000000 / 1440 < 20522 ∧ Weekday 20522 := by
      refine ⟨by decide +kernel, ?_⟩
      show 1 ≤ dow 20522 ∧ dow 20522 ≤ 5
      decide +kernel
    have hle := hright.date.2 htuesday
    revert hle
    decide +kernel
  · intro hright
    have hsix : newYork.Reads 1772964000000 (homeDate newYork.partsIn [] 1772967600000)
        "06:00".toList := (newYork.Reads_iff _).2 (by decide +kernel)
    have hseven := (newYork.Reads_iff _).1 (hright.reads ⟨_, hsix⟩)
    revert hseven
    decide +kernel

end Lares.Proactivity
