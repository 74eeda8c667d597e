import Lares.OriginTaint.TurnTaint

/-! # What a turn's taint does

    The maps are shared by all turns of a process, and every turn goes through
    them on its own.

    * **Slots** of different turns differ, whatever the ids are.
    * **A log** is any order of calls; what a turn finds in the maps depends on
      its own calls alone.
    * **Stamps and fetches** follow from what was read since the turn began.
-/

namespace Lares.OriginTaint

open Approvals VaultFormat Expiry
open Gateway (unit)

/-! ## Section 1: Slots -/

theorem ofNat_unit {c : Char} (h : c.isDigit = true) : Char.ofNat (unit c).val = c := by
  have hlt : c.toNat < 65536 := by
    simp only [Char.isDigit, Bool.and_eq_true, decide_eq_true_iff] at h
    have hnine : c.val.toNat ≤ 57 := h.2
    exact lt_of_le_of_lt hnine (by decide)
  have hval : (unit c).val = c.toNat := Nat.mod_eq_of_lt hlt
  rw [hval, Char.ofNat_toNat]

/-- The digits of a number, read back. -/
theorem digits_of_ascii (n : ℕ) :
    (ascii (Nat.toDigits 10 n)).map (fun u => Char.ofNat u.val) = Nat.toDigits 10 n := by
  rw [ascii, List.map_map]
  conv_rhs => rw [← List.map_id (Nat.toDigits 10 n)]
  apply List.map_congr_left
  intro c hc
  exact ofNat_unit (Nat.isDigit_of_mem_toDigits (by decide) (by decide) hc)

theorem space_not_mem_digits (n : ℕ) : unit ' ' ∉ ascii (Nat.toDigits 10 n) := by
  intro hmem
  obtain ⟨c, hc, hunit⟩ := List.mem_map.1 hmem
  have hdigit := Nat.isDigit_of_mem_toDigits (by decide) (by decide) hc
  have hback := ofNat_unit hdigit
  rw [hunit] at hback
  rw [← hback] at hdigit
  exact absurd hdigit (by decide)

theorem ascii_digits_injective {m n : ℕ}
    (h : ascii (Nat.toDigits 10 m) = ascii (Nat.toDigits 10 n)) : m = n := by
  have hdigits : Nat.toDigits 10 m = Nat.toDigits 10 n := by
    rw [← digits_of_ascii m, ← digits_of_ascii n, h]
  have hvalue := congrArg (fun ds => Nat.ofDigitChars 10 ds 0) hdigits
  simpa only [Nat.ofDigitChars_ten_toDigits] using hvalue

theorem digits_before_space (n : ℕ) (rest : JsText) :
    (ascii (Nat.toDigits 10 n) ++ unit ' ' :: rest).takeWhile (· ≠ unit ' ') =
      ascii (Nat.toDigits 10 n) := by
  have hdigits : ∀ u ∈ ascii (Nat.toDigits 10 n), decide (u ≠ unit ' ') = true := by
    intro u hu
    rw [decide_eq_true_iff]
    rintro rfl
    exact space_not_mem_digits n hu
  rw [List.takeWhile_append_of_pos hdigits, List.takeWhile_cons_of_neg (by simp), List.append_nil]

/-- The length in front says where the session's id ends. -/
theorem slot_injective {turn other : TurnKey} (h : turn.slot = other.slot) : turn = other := by
  have hshape : ∀ t : TurnKey, t.slot =
      ascii (Nat.toDigits 10 t.sessionId.length) ++
        unit ' ' :: (t.sessionId ++ unit ' ' :: t.turnId) := fun t => by
    rw [TurnKey.slot, List.append_assoc, List.cons_append]
  rw [hshape, hshape] at h
  have hdigits := congrArg (List.takeWhile (· ≠ unit ' ')) h
  rw [digits_before_space, digits_before_space] at hdigits
  have hlength := ascii_digits_injective hdigits
  rw [hdigits] at h
  have hrest := (List.cons.inj (List.append_cancel_left h)).2
  obtain ⟨hsession, hturn⟩ := List.append_inj hrest hlength
  cases turn
  cases other
  cases hsession
  cases (List.cons.inj hturn).2
  rfl

theorem slotOf_eq_slot {key : Unknown} {turn : TurnKey} :
    slotOf key = some turn.slot ↔ usable key = some turn := by
  rw [slotOf, Option.map_eq_some_iff]
  constructor
  · rintro ⟨other, husable, hslot⟩
    rw [husable, slot_injective hslot]
  · intro husable
    exact ⟨turn, husable, rfl⟩

/-! ## Section 2: Logs -/

/-- A call of the module. -/
inductive Call where
  | taintTurn (now : Int) (key : Unknown) (taint : Taint)
  | currentTaint (now : Int) (key : Unknown)
  | clearTurn (now : Int) (key : Unknown)
  | noteUrlRead (now : Int) (key : Unknown) (url : JsText)
  | urlReadThisTurn (now : Int) (key : Unknown) (url : JsText)

namespace Call

def time : Call → Int
  | .taintTurn now _ _ => now
  | .currentTaint now _ => now
  | .clearTurn now _ => now
  | .noteUrlRead now _ _ => now
  | .urlReadThisTurn now _ _ => now

def key : Call → Unknown
  | .taintTurn _ key _ => key
  | .currentTaint _ key => key
  | .clearTurn _ key => key
  | .noteUrlRead _ key _ => key
  | .urlReadThisTurn _ key _ => key

def clears : Call → Bool
  | .clearTurn _ _ => true
  | _ => false

/-- The class that the call taints with. -/
def taint? : Call → Option Taint
  | .taintTurn _ _ taint => some taint
  | _ => none

/-- The link that the call has read. -/
def url? : Call → Option JsText
  | .noteUrlRead _ _ url => some url
  | _ => none

/-- What is left in the maps. -/
def apply (maps : Maps) : Call → Maps
  | .taintTurn now key taint => OriginTaint.taintTurn now key taint maps
  | .currentTaint now key => (OriginTaint.currentTaint now key maps).2
  | .clearTurn _ key => OriginTaint.clearTurn key maps
  | .noteUrlRead now key url => OriginTaint.noteUrlRead now key url maps
  | .urlReadThisTurn now key url => (OriginTaint.urlReadThisTurn now key url maps).2

end Call

/-- The maps of a process, after its calls. -/
def run (log : List Call) : Maps := log.foldl Call.apply ⟨fun _ => none, fun _ => none⟩

/-- The clock does not go back, up to `now`. -/
def InOrder (log : List Call) (now : Int) : Prop :=
  log.Pairwise (fun c d => c.time ≤ d.time) ∧ ∀ c ∈ log, c.time ≤ now

/-- The calls for a turn. -/
def callsFor (turn : TurnKey) (log : List Call) : List Call :=
  log.filter fun c => usable c.key = some turn

theorem callsFor_append (turn : TurnKey) (log more : List Call) :
    callsFor turn (log ++ more) = callsFor turn log ++ callsFor turn more :=
  List.filter_append ..

/-- What a turn's own calls brought since it was cleared, with the times. -/
def ownSince {Item : Type} (what : Call → Option Item) (turn : TurnKey) (log : List Call) :
    List (Int × Item) :=
  log.foldl (fun seen c =>
    if usable c.key = some turn then
      if c.clears then [] else seen ++ ((what c).map fun x => (c.time, x)).toList
    else seen) []

/-- The taints of a turn since it was cleared, with the times. -/
def taintsOf : TurnKey → List Call → List (Int × Taint) := ownSince Call.taint?

/-- The links that a turn has read since it was cleared, with the times. -/
def urlsOf : TurnKey → List Call → List (Int × JsText) := ownSince Call.url?

theorem ownSince_snoc {Item : Type} (what : Call → Option Item) (turn : TurnKey) (log : List Call)
    (c : Call) :
    ownSince what turn (log ++ [c]) =
      if usable c.key = some turn then
        if c.clears then [] else ownSince what turn log ++ ((what c).map fun x => (c.time, x)).toList
      else ownSince what turn log := by
  rw [ownSince, List.foldl_append]
  rfl

/-- Calls for other turns bring nothing. -/
theorem ownSince_callsFor {Item : Type} (what : Call → Option Item) (turn : TurnKey)
    (log : List Call) : ownSince what turn (callsFor turn log) = ownSince what turn log := by
  induction log using List.reverseRecOn with
  | nil => rfl
  | append_singleton log c ih =>
    rw [ownSince_snoc, callsFor_append]
    by_cases hown : usable c.key = some turn
    · have hc : callsFor turn [c] = [c] := by simp [callsFor, hown]
      rw [hc, ownSince_snoc, if_pos hown, if_pos hown, ih]
    · have hc : callsFor turn [c] = [] := by simp [callsFor, hown]
      rw [hc, List.append_nil, if_neg hown, ih]

/-! ## Section 3: The tables of a log -/

section Tables

variable {Item Value : Type} (what : Call → Option Item) (op : Item → Option Value → Value)

/-- What a call does to one of the maps. -/
def accessOf (c : Call) : Option (Access JsText Value) :=
  (slotOf c.key).map fun slot =>
    if c.clears then .delete c.time slot
    else match what c with
      | some x => .write c.time slot (op x)
      | none => .sweep c.time

variable {what op}

theorem accessOf_time {c : Call} {a : Access JsText Value} (h : accessOf what op c = some a) :
    a.time = c.time := by
  obtain ⟨slot, -, rfl⟩ := Option.map_eq_some_iff.1 h
  by_cases hclears : c.clears = true
  · rw [if_pos hclears]
    rfl
  · rw [if_neg hclears]
    cases what c <;> rfl

/-- A log in order is a log of accesses in order. -/
theorem InOrder.timely {log : List Call} {now : Int} (h : InOrder log now) :
    Timely (log.filterMap (accessOf what op)) now := by
  constructor
  · refine List.Pairwise.filterMap _ ?_ h.1
    intro c d hle a ha b hb
    rw [accessOf_time ha, accessOf_time hb]
    exact hle
  · intro a ha
    obtain ⟨c, hc, hca⟩ := List.mem_filterMap.1 ha
    rw [accessOf_time hca]
    exact h.2 c hc

/-- The writes to a turn's slot are what its own calls brought. -/
theorem since_accessOf (turn : TurnKey) (log : List Call) :
    since turn.slot (log.filterMap (accessOf what op)) =
      (ownSince what turn log).map fun p => (p.1, op p.2) := by
  induction log using List.reverseRecOn with
  | nil => rfl
  | append_singleton log c ih =>
    rw [List.filterMap_append, ownSince_snoc]
    cases husable : usable c.key with
    | none =>
      have hnone : accessOf what op c = none := by rw [accessOf, slotOf, husable]; rfl
      rw [List.filterMap_cons_none hnone, List.filterMap_nil, List.append_nil, if_neg nofun, ih]
    | some other =>
      have hslot : slotOf c.key = some other.slot := slotOf_eq_slot.2 husable
      have hsome : accessOf what op c = some (if c.clears then .delete c.time other.slot
          else match what c with
            | some x => .write c.time other.slot (op x)
            | none => .sweep c.time) := by
        rw [accessOf, hslot]
        rfl
      rw [List.filterMap_cons_some hsome, List.filterMap_nil, since_snoc]
      by_cases hother : other = turn
      · subst hother
        rw [if_pos rfl]
        by_cases hclears : c.clears = true
        · simp only [if_pos hclears, if_true, List.map_nil]
        · rw [if_neg hclears, if_neg hclears, List.map_append, ih]
          cases hwhat : what c with
          | none => simp
          | some x => simp
      · have hne : other.slot ≠ turn.slot := fun h => hother (slot_injective h)
        rw [if_neg fun h => hother (Option.some.inj h)]
        by_cases hclears : c.clears = true
        · simp only [if_pos hclears, if_neg hne, ih]
        · rw [if_neg hclears]
          cases hwhat : what c with
          | none => exact ih
          | some x => simp only [if_neg hne, ih]

/-- A map that each call accesses, after a log. -/
theorem run_table {table : Maps → Table JsText Value}
    (hinit : table ⟨fun _ => none, fun _ => none⟩ = fun _ => none)
    (hstep : ∀ maps c, table (c.apply maps) =
      ((accessOf what op c).map (access TAINT_MAX_AGE_MS (table maps))).getD (table maps))
    (log : List Call) :
    table (run log) =
      runTable TAINT_MAX_AGE_MS (fun _ => none) (log.filterMap (accessOf what op)) := by
  induction log using List.reverseRecOn with
  | nil => exact hinit
  | append_singleton log c ih =>
    rw [run, List.foldl_append, List.filterMap_append, runTable, List.foldl_append]
    show table (c.apply (run log)) = _
    rw [hstep, ih]
    cases h : accessOf what op c with
    | none => rw [List.filterMap_cons_none h]; rfl
    | some a => rw [List.filterMap_cons_some h]; rfl

/-- **One turn alone**: its slot holds what its own calls brought. -/
theorem live_run {table : Maps → Table JsText Value}
    (hinit : table ⟨fun _ => none, fun _ => none⟩ = fun _ => none)
    (hstep : ∀ maps c, table (c.apply maps) =
      ((accessOf what op c).map (access TAINT_MAX_AGE_MS (table maps))).getD (table maps))
    {log : List Call} {now : Int} (h : InOrder log now) (turn : TurnKey) :
    live TAINT_MAX_AGE_MS now (table (run log) turn.slot) =
      live TAINT_MAX_AGE_MS now (writeAll TAINT_MAX_AGE_MS
        ((ownSince what turn log).map fun p => (p.1, op p.2))) := by
  rw [run_table hinit hstep, live_runTable _ _ h.timely, runCell_none, since_accessOf]

/-- While nothing is old, the slot has all of it. -/
theorem value_run {table : Maps → Table JsText Value}
    (hinit : table ⟨fun _ => none, fun _ => none⟩ = fun _ => none)
    (hstep : ∀ maps c, table (c.apply maps) =
      ((accessOf what op c).map (access TAINT_MAX_AGE_MS (table maps))).getD (table maps))
    {log : List Call} {now : Int} (h : InOrder log now) (turn : TurnKey)
    (hyoung : ∀ p ∈ ownSince what turn log, now - p.1 < TAINT_MAX_AGE_MS) :
    (live TAINT_MAX_AGE_MS now (table (run log) turn.slot)).map (·.value) =
      (ownSince what turn log).foldl (fun value p => some (op p.2 value)) none := by
  have htimely : Timely (log.filterMap (accessOf what op)) now := h.timely
  obtain ⟨hpair, hnow⟩ := since_timely turn.slot htimely
  rw [since_accessOf] at hpair hnow
  have hyoung' : ∀ w ∈ (ownSince what turn log).map fun p => (p.1, op p.2),
      now - w.1 < TAINT_MAX_AGE_MS := by
    intro w hw
    obtain ⟨p, hp, rfl⟩ := List.mem_map.1 hw
    exact hyoung p hp
  rw [live_run hinit hstep h, value_of_young hpair hnow hyoung', written, List.foldl_map]

/-- Once all of it is old, the slot is empty. -/
theorem none_run {table : Maps → Table JsText Value}
    (hinit : table ⟨fun _ => none, fun _ => none⟩ = fun _ => none)
    (hstep : ∀ maps c, table (c.apply maps) =
      ((accessOf what op c).map (access TAINT_MAX_AGE_MS (table maps))).getD (table maps))
    {log : List Call} {now : Int} (h : InOrder log now) (turn : TurnKey)
    (hold : ∀ p ∈ ownSince what turn log, TAINT_MAX_AGE_MS ≤ now - p.1) :
    live TAINT_MAX_AGE_MS now (table (run log) turn.slot) = none := by
  rw [live_run hinit hstep h]
  apply none_of_old
  intro w hw
  obtain ⟨p, hp, rfl⟩ := List.mem_map.1 hw
  exact hold p hp

end Tables

/-- The access of a call to `taints`. -/
theorem taints_step (maps : Maps) (c : Call) :
    (c.apply maps).taints =
      ((accessOf Call.taint? addTaint c).map (access TAINT_MAX_AGE_MS maps.taints)).getD
        maps.taints := by
  cases c with
  | taintTurn now key taint =>
    simp only [Call.apply, taintTurn, accessOf, Call.key]
    cases slotOf key <;> rfl
  | currentTaint now key =>
    simp only [Call.apply, currentTaint, accessOf, Call.key]
    cases slotOf key <;> rfl
  | clearTurn now key =>
    simp only [Call.apply, clearTurn, accessOf, Call.key]
    cases slotOf key <;> rfl
  | noteUrlRead now key url =>
    simp only [Call.apply, noteUrlRead, accessOf, Call.key]
    cases slotOf key <;> rfl
  | urlReadThisTurn now key url =>
    simp only [Call.apply, urlReadThisTurn, accessOf, Call.key]
    cases slotOf key <;> rfl

/-- The access of a call to `readUrls`. -/
theorem readUrls_step (maps : Maps) (c : Call) :
    (c.apply maps).readUrls =
      ((accessOf Call.url? addUrl c).map (access TAINT_MAX_AGE_MS maps.readUrls)).getD
        maps.readUrls := by
  cases c with
  | taintTurn now key taint =>
    simp only [Call.apply, taintTurn, accessOf, Call.key]
    cases slotOf key <;> rfl
  | currentTaint now key =>
    simp only [Call.apply, currentTaint, accessOf, Call.key]
    cases slotOf key <;> rfl
  | clearTurn now key =>
    simp only [Call.apply, clearTurn, accessOf, Call.key]
    cases slotOf key <;> rfl
  | noteUrlRead now key url =>
    simp only [Call.apply, noteUrlRead, accessOf, Call.key]
    cases slotOf key <;> rfl
  | urlReadThisTurn now key url =>
    simp only [Call.apply, urlReadThisTurn, accessOf, Call.key]
    cases slotOf key <;> rfl

/-! ## Section 4: Answers -/

theorem currentTaint_eq {key : Unknown} {turn : TurnKey} (hkey : usable key = some turn)
    (now : Int) (maps : Maps) :
    (currentTaint now key maps).1 =
      (live TAINT_MAX_AGE_MS now (maps.taints turn.slot)).map (·.value) := by
  rw [currentTaint, slotOf_eq_slot.2 hkey]
  rfl

theorem stampFor_eq {key : Unknown} {turn : TurnKey} (hkey : usable key = some turn)
    (now : Int) (intended : Origin) (maps : Maps) :
    (stampFor now intended key maps).1 =
      narrowest intended ((currentTaint now key maps).1.map (·.1)).toList := by
  rw [stampFor, slotOf_eq_slot.2 hkey]
  cases currentTaint now key maps with
  | mk t swept => cases t <;> rfl

theorem urlReadThisTurn_eq {key : Unknown} {turn : TurnKey} (hkey : usable key = some turn)
    (now : Int) (url : JsText) (maps : Maps) :
    (urlReadThisTurn now key url maps).1 =
      (((live TAINT_MAX_AGE_MS now (maps.readUrls turn.slot)).map (·.value)).getD []).contains
        url := by
  rw [urlReadThisTurn, slotOf_eq_slot.2 hkey]
  show ((live TAINT_MAX_AGE_MS now (maps.readUrls turn.slot)).map _).getD false = _
  cases live TAINT_MAX_AGE_MS now (maps.readUrls turn.slot) <;> rfl

theorem asksAfterUntrustedText_eq {ctx key : Unknown} (hctx : turnKeyFrom ctx .undefined = some key)
    (now : Int) (maps : Maps) :
    (asksAfterUntrustedText now ctx maps).1 =
      if (currentTaint now key maps).1 = none then .notApplicable else .userApproval := by
  simp only [asksAfterUntrustedText, hctx]
  cases currentTaint now key maps with
  | mk t swept => cases t <;> rfl

/-- A question is a call that brings nothing. -/
theorem ownSince_ask {Item : Type} {what : Call → Option Item} {c : Call} (hwhat : what c = none)
    (hclears : c.clears = false) (turn : TurnKey) (log : List Call) :
    ownSince what turn (log ++ [c]) = ownSince what turn log := by
  rw [ownSince_snoc, hwhat, hclears]
  simp

theorem InOrder.snoc {log : List Call} {now later : Int} (h : InOrder log now) (hle : now ≤ later)
    {c : Call} (hc : c.time = now) : InOrder (log ++ [c]) later := by
  constructor
  · refine List.pairwise_append.2 ⟨h.1, List.pairwise_singleton _ _, ?_⟩
    intro d hd e he
    rw [List.mem_singleton.1 he, hc]
    exact h.2 d hd
  · intro d hd
    rcases List.mem_append.1 hd with hd | hd
    · exact (h.2 d hd).trans hle
    · rw [List.mem_singleton.1 hd, hc]
      exact hle

theorem InOrder.mono {log : List Call} {now later : Int} (h : InOrder log now) (hle : now ≤ later) :
    InOrder log later :=
  ⟨h.1, fun c hc => (h.2 c hc).trans hle⟩

/-- The policy asks `readUrls` where a further page is read, and the taint otherwise. -/
theorem asksUnlessNextPage_eq {ctx key : Unknown} (hctx : turnKeyFrom ctx .undefined = some key)
    (now later : Int) (log : List Call) :
    (asksUnlessNextPage now later ctx (run log)).1 =
      match nextPage (toolInput ctx) with
      | none => (asksAfterUntrustedText later ctx (run log)).1
      | some url =>
          if (urlReadThisTurn now key url (run log)).1 then .notApplicable
          else (asksAfterUntrustedText later ctx (run (log ++ [.urlReadThisTurn now key url]))).1 := by
  have hrun : ∀ url, run (log ++ [.urlReadThisTurn now key url]) =
      (urlReadThisTurn now key url (run log)).2 := by
    intro url
    rw [run, List.foldl_append]
    rfl
  simp only [asksUnlessNextPage, hctx, hrun]
  cases nextPage (toolInput ctx) with
  | none => rfl
  | some url =>
    dsimp only
    cases urlReadThisTurn now key url (run log) with
    | mk read swept => cases read <;> rfl

/-! ## Section 5: Independence of turns -/

section Independence

variable {log log' : List Call} {now : Int} {key : Unknown} {turn : TurnKey}

theorem currentTaint_isolated (h : InOrder log now) (h' : InOrder log' now)
    (hkey : usable key = some turn) (hown : callsFor turn log = callsFor turn log') :
    (currentTaint now key (run log)).1 = (currentTaint now key (run log')).1 := by
  have hsame : ownSince Call.taint? turn log = ownSince Call.taint? turn log' := by
    rw [← ownSince_callsFor, hown, ownSince_callsFor]
  rw [currentTaint_eq hkey, currentTaint_eq hkey, live_run rfl taints_step h,
    live_run rfl taints_step h', hsame]

theorem urlReadThisTurn_isolated (h : InOrder log now) (h' : InOrder log' now)
    (hkey : usable key = some turn) (hown : callsFor turn log = callsFor turn log')
    (url : JsText) :
    (urlReadThisTurn now key url (run log)).1 = (urlReadThisTurn now key url (run log')).1 := by
  have hsame : ownSince Call.url? turn log = ownSince Call.url? turn log' := by
    rw [← ownSince_callsFor, hown, ownSince_callsFor]
  rw [urlReadThisTurn_eq hkey, urlReadThisTurn_eq hkey, live_run rfl readUrls_step h,
    live_run rfl readUrls_step h', hsame]

theorem asksAfterUntrustedText_isolated (h : InOrder log now) (h' : InOrder log' now)
    (hkey : usable key = some turn) (hown : callsFor turn log = callsFor turn log')
    {ctx : Unknown} (hctx : turnKeyFrom ctx .undefined = some key) :
    (asksAfterUntrustedText now ctx (run log)).1 = (asksAfterUntrustedText now ctx (run log')).1 := by
  rw [asksAfterUntrustedText_eq hctx, asksAfterUntrustedText_eq hctx,
    currentTaint_isolated h h' hkey hown]

/-- **Turns are independent**: in two logs with the same calls for a turn, whatever the calls for
    other turns are, the turn gets the same answers. -/
theorem answers_isolated (h : InOrder log now) (h' : InOrder log' now)
    (hkey : usable key = some turn) (hown : callsFor turn log = callsFor turn log') :
    (∀ intended, (stampFor now intended key (run log)).1 =
      (stampFor now intended key (run log')).1) ∧
    (∀ url, (urlReadThisTurn now key url (run log)).1 =
      (urlReadThisTurn now key url (run log')).1) ∧
    ∀ ctx later, now ≤ later → turnKeyFrom ctx .undefined = some key →
      (asksUnlessNextPage now later ctx (run log)).1 =
        (asksUnlessNextPage now later ctx (run log')).1 := by
  refine ⟨?_, fun url => urlReadThisTurn_isolated h h' hkey hown url, ?_⟩
  · intro intended
    rw [stampFor_eq hkey, stampFor_eq hkey, currentTaint_isolated h h' hkey hown]
  · intro ctx later hle hctx
    rw [asksUnlessNextPage_eq hctx, asksUnlessNextPage_eq hctx]
    -- The next page is asked for first, and that call is logged; it is of the same turn in both.
    cases nextPage (toolInput ctx) with
    | none =>
      exact asksAfterUntrustedText_isolated (h.mono hle) (h'.mono hle) hkey hown hctx
    | some url =>
      have hasked : callsFor turn (log ++ [.urlReadThisTurn now key url]) =
          callsFor turn (log' ++ [.urlReadThisTurn now key url]) := by
        rw [callsFor_append, callsFor_append, hown]
      have hlater := asksAfterUntrustedText_isolated (h.snoc hle rfl) (h'.snoc hle rfl) hkey
        hasked hctx
      simp only [urlReadThisTurn_isolated h h' hkey hown url, hlater]

end Independence

/-- A turn `t` of the session `s`. -/
def turnST : TurnKey := ⟨[115], [116], by decide, by decide⟩

def keyST : Unknown := turnKey (.text [115]) (.text [116])

/-- Its context, as a call of `read_url` with this input has it. -/
def contextST (input : Unknown) : Unknown :=
  .object [(ascii ['s', 'e', 's', 's', 'i', 'o', 'n'], .object [(ascii ['i', 'd'], .text [115]),
      (ascii ['t', 'u', 'r', 'n'], .object [(ascii ['i', 'd'], .text [116])])]),
    (ascii ['t', 'o', 'o', 'l', 'I', 'n', 'p', 'u', 't'], input)]

/-- A turn whose session ends where this one's turn does. -/
theorem answers_isolated_otherTurn :
    (stampFor 9 .owner keyST (run [.taintTurn 1 keyST .synced])).1 =
      (stampFor 9 .owner keyST (run [.taintTurn 1 keyST .synced,
        .taintTurn 2 (turnKey (.text [115, 32, 116]) (.text [116])) .thirdParty,
        .clearTurn 3 (turnKey (.text [115, 32, 116]) (.text [116]))])).1 := by
  have horder : InOrder [.taintTurn 1 keyST .synced] 9 := ⟨by decide, by decide⟩
  have horder' : InOrder [.taintTurn 1 keyST .synced,
      .taintTurn 2 (turnKey (.text [115, 32, 116]) (.text [116])) .thirdParty,
      .clearTurn 3 (turnKey (.text [115, 32, 116]) (.text [116]))] 9 := ⟨by decide, by decide⟩
  have hkey : usable keyST = some turnST := rfl
  exact (answers_isolated horder horder' hkey rfl).1 .owner

/-! ## Section 6: Stamps -/

theorem narrowest_append (o : Origin) (l m : List Origin) :
    narrowest o (l ++ m) = narrowest (narrowest o l) m :=
  List.foldl_append ..

theorem distrust_injective {a b : Origin} (h : distrust a = distrust b) : a = b := by
  cases a <;> cases b <;> first | rfl | cases h

theorem distrust_narrowest_singleton (a b : Origin) :
    distrust (narrowest a [b]) = max (distrust a) (distrust b) := by
  show distrust (if distrust a < distrust b then b else a) = _
  split <;> omega

theorem narrowest_assoc (a b c : Origin) :
    narrowest a [narrowest b [c]] = narrowest (narrowest a [b]) [c] := by
  apply distrust_injective
  simp only [distrust_narrowest_singleton]
  omega

/-- A list of origins is as narrow as its narrowest. -/
theorem le_distrust_narrowest {o : Origin} {l : List Origin} {a : Origin} (h : a = o ∨ a ∈ l) :
    distrust a ≤ distrust (narrowest o l) := by
  induction l using List.reverseRecOn generalizing a with
  | nil =>
    rcases h with rfl | h
    · exact le_rfl
    · cases h
  | append_singleton l b ih =>
    rw [narrowest_append, distrust_narrowest_singleton]
    rcases h with h | h
    · exact le_max_of_le_left (ih (.inl h))
    · rcases List.mem_append.1 h with h | h
      · exact le_max_of_le_left (ih (.inr h))
      · rw [List.mem_singleton.1 h]
        exact le_max_right _ _

/-- The taint of an entry is the narrowest that was added. -/
theorem narrowest_added (intended : Origin) (taints : List (Int × Taint)) :
    narrowest intended
      (((taints.foldl (fun value p => some (addTaint p.2 value)) none).map (·.1)).toList) =
      narrowest intended (taints.map fun p => p.2.1) := by
  induction taints using List.reverseRecOn with
  | nil => rfl
  | append_singleton taints p ih =>
    rw [List.foldl_append, List.map_append, narrowest_append, ← ih]
    cases taints.foldl (fun value p => some (addTaint p.2 value)) none with
    | none =>
      apply distrust_injective
      show distrust (narrowest intended [narrowest p.2.1 [p.2.1]]) =
        distrust (narrowest intended [p.2.1])
      simp only [distrust_narrowest_singleton, max_self]
    | some t => exact narrowest_assoc intended t.1 p.2.1

/-- **Stamps**: a write is stamped with the narrowest of its own class and of all that the turn has
    read since it was cleared, as long as nothing of that is six hours old; with its own class, once
    all of it is; and with the least trusted class, where the turn cannot be named. -/
theorem stampFor_own_taints {log : List Call} {now : Int} (h : InOrder log now) (key : Unknown)
    (intended : Origin) :
    (∀ turn, usable key = some turn →
      ((∀ p ∈ taintsOf turn log, now - p.1 < TAINT_MAX_AGE_MS) →
        (stampFor now intended key (run log)).1 =
          narrowest intended ((taintsOf turn log).map fun p => p.2.1)) ∧
      ((∀ p ∈ taintsOf turn log, TAINT_MAX_AGE_MS ≤ now - p.1) →
        (stampFor now intended key (run log)).1 = intended)) ∧
    (usable key = none → (stampFor now intended key (run log)).1 = .thirdParty) := by
  constructor
  · intro turn hkey
    rw [stampFor_eq hkey, currentTaint_eq hkey]
    constructor
    · intro hyoung
      rw [value_run rfl taints_step h turn hyoung]
      exact narrowest_added intended (taintsOf turn log)
    · intro hold
      rw [none_run rfl taints_step h turn hold]
      rfl
  · intro hkey
    rw [stampFor, slotOf, hkey]
    rfl

/-- What was synced does not raise what a third party wrote. -/
theorem stampFor_own_taints_both :
    (stampFor 9 .agent keyST (run [.taintTurn 1 keyST .thirdParty, .taintTurn 2 keyST .synced])).1 =
      .thirdParty := by
  have horder : InOrder [.taintTurn 1 keyST .thirdParty, .taintTurn 2 keyST .synced] 9 :=
    ⟨by decide, by decide⟩
  have h := ((stampFor_own_taints horder keyST .agent).1 turnST rfl).1 (by decide)
  rw [h]
  rfl

/-! ## Section 7: Fetches -/

/-- The links that an entry holds: the first fifty different ones. -/
def firstUrls (urls : List (Int × JsText)) : List JsText :=
  ((urls.map (·.2)).eraseDups).take MAX_URLS_PER_TURN

theorem eraseDups_snoc (urls : List JsText) (url : JsText) :
    (urls ++ [url]).eraseDups = if url ∈ urls then urls.eraseDups else urls.eraseDups ++ [url] := by
  rw [List.eraseDups_append]
  by_cases hmem : url ∈ urls
  · simp [hmem, List.removeAll]
  · simp [hmem, List.removeAll, List.eraseDups_cons]

theorem addUrl_firstUrls (urls : List (Int × JsText)) (p : Int × JsText) :
    addUrl p.2 (some (firstUrls urls)) = firstUrls (urls ++ [p]) := by
  have hlength : (firstUrls urls).length =
      min MAX_URLS_PER_TURN ((urls.map (·.2)).eraseDups).length := List.length_take
  have hsnoc : firstUrls (urls ++ [p]) =
      (if p.2 ∈ urls.map (·.2) then (urls.map (·.2)).eraseDups
        else (urls.map (·.2)).eraseDups ++ [p.2]).take MAX_URLS_PER_TURN := by
    rw [firstUrls, List.map_append, List.map_cons, List.map_nil, eraseDups_snoc]
  rw [hsnoc, addUrl, Option.getD_some]
  by_cases hroom : (firstUrls urls).length < MAX_URLS_PER_TURN
  · -- There is room, so every link is held.
    have hall : firstUrls urls = (urls.map (·.2)).eraseDups := List.take_of_length_le (by omega)
    simp only [if_pos hroom]
    by_cases hmem : p.2 ∈ urls.map (·.2)
    · have hheld : (firstUrls urls).contains p.2 = true := by
        rw [hall, List.contains_iff_mem, List.mem_eraseDups]
        exact hmem
      rw [if_pos hheld, if_pos hmem]
      rfl
    · have hnew : ¬ (firstUrls urls).contains p.2 = true := by
        rw [hall, List.contains_iff_mem, List.mem_eraseDups]
        exact hmem
      rw [if_neg hnew, if_neg hmem, hall]
      refine (List.take_of_length_le ?_).symm
      rw [List.length_append, List.length_singleton, ← hall]
      exact hroom
  · have hfull : MAX_URLS_PER_TURN ≤ ((urls.map (·.2)).eraseDups).length := by omega
    simp only [if_neg hroom]
    by_cases hmem : p.2 ∈ urls.map (·.2)
    · rw [if_pos hmem]
      rfl
    · rw [if_neg hmem, List.take_append_of_le_length hfull]
      rfl

theorem urls_added (urls : List (Int × JsText)) :
    ((urls.foldl (fun value p => some (addUrl p.2 value)) none).getD []) = firstUrls urls := by
  induction urls using List.reverseRecOn with
  | nil => rfl
  | append_singleton urls p ih =>
    rw [List.foldl_append, ← addUrl_firstUrls, ← ih]
    cases urls.foldl (fun value p => some (addUrl p.2 value)) none <;> rfl

section Fetches

variable {log : List Call} {now later : Int} {ctx key : Unknown} {turn : TurnKey}

theorem currentTaint_none_iff (h : InOrder log now) (hkey : usable key = some turn)
    (hyoung : ∀ p ∈ taintsOf turn log, now - p.1 < TAINT_MAX_AGE_MS) :
    (currentTaint now key (run log)).1 = none ↔ taintsOf turn log = [] := by
  rw [currentTaint_eq hkey, value_run rfl taints_step h turn hyoung, ← taintsOf]
  cases htaints : taintsOf turn log using List.reverseRecOn with
  | nil => simp
  | append_singleton taints p => simp

theorem urlReadThisTurn_iff (h : InOrder log now) (hkey : usable key = some turn)
    (hyoung : ∀ p ∈ urlsOf turn log, now - p.1 < TAINT_MAX_AGE_MS) (url : JsText) :
    (urlReadThisTurn now key url (run log)).1 = true ↔ url ∈ firstUrls (urlsOf turn log) := by
  rw [urlReadThisTurn_eq hkey, value_run rfl readUrls_step h turn hyoung, ← urlsOf, urls_added,
    List.contains_iff_mem]

theorem asksAfterUntrustedText_iff (h : InOrder log now)
    (hctx : turnKeyFrom ctx .undefined = some key) (hkey : usable key = some turn)
    (hyoung : ∀ p ∈ taintsOf turn log, now - p.1 < TAINT_MAX_AGE_MS) :
    (asksAfterUntrustedText now ctx (run log)).1 = .notApplicable ↔ taintsOf turn log = [] := by
  rw [asksAfterUntrustedText_eq hctx, ← currentTaint_none_iff h hkey hyoung]
  split <;> simp_all

theorem usable_of_turnKeyFrom (hctx : turnKeyFrom ctx .undefined = some key) :
    ∃ turn, usable key = some turn := by
  have hslot : (slotOf key).isSome = true := by
    simp only [turnKeyFrom] at hctx
    split at hctx
    · split at hctx
      · obtain ⟨hsome, hkey⟩ := Option.ite_none_right_eq_some.1 hctx
        cases hkey
        exact hsome
      · cases hctx
    · cases hctx
  rw [slotOf, Option.isSome_map] at hslot
  exact Option.isSome_iff_exists.1 hslot

/-- **Fetches**: while nothing that the turn has read is six hours old, a link is opened without a
    card exactly where the turn can be named, and has read no words from outside since it was
    cleared or asks for a further page of one of the first fifty links that it has read. -/
theorem asksUnlessNextPage_iff (h : InOrder log now) (hle : now ≤ later)
    (hyoung : ∀ key turn, turnKeyFrom ctx .undefined = some key → usable key = some turn →
      (∀ p ∈ taintsOf turn log, later - p.1 < TAINT_MAX_AGE_MS) ∧
        ∀ p ∈ urlsOf turn log, later - p.1 < TAINT_MAX_AGE_MS) :
    (asksUnlessNextPage now later ctx (run log)).1 = .notApplicable ↔
      ∃ key turn, turnKeyFrom ctx .undefined = some key ∧ usable key = some turn ∧
        (taintsOf turn log = [] ∨
          ∃ url, nextPage (toolInput ctx) = some url ∧ url ∈ firstUrls (urlsOf turn log)) := by
  cases hctx : turnKeyFrom ctx .undefined with
  | none =>
    have hasks : (asksUnlessNextPage now later ctx (run log)).1 = .userApproval := by
      simp only [asksUnlessNextPage, asksAfterUntrustedText, hctx]
    rw [hasks]
    simp
  | some key =>
    obtain ⟨turn, hkey⟩ := usable_of_turnKeyFrom hctx
    obtain ⟨htaints, hurls⟩ := hyoung key turn hctx hkey
    have hurls' : ∀ p ∈ urlsOf turn log, now - p.1 < TAINT_MAX_AGE_MS := by
      intro p hp
      have := hurls p hp
      omega
    have hexists : (∃ key' turn', some key = some key' ∧ usable key' = some turn' ∧
        (taintsOf turn' log = [] ∨
          ∃ url, nextPage (toolInput ctx) = some url ∧ url ∈ firstUrls (urlsOf turn' log))) ↔
        (taintsOf turn log = [] ∨
          ∃ url, nextPage (toolInput ctx) = some url ∧ url ∈ firstUrls (urlsOf turn log)) := by
      constructor
      · rintro ⟨key', turn', hkey', hturn', hrest⟩
        cases hkey'
        rw [hkey] at hturn'
        cases hturn'
        exact hrest
      · intro hrest
        exact ⟨key, turn, rfl, hkey, hrest⟩
    rw [asksUnlessNextPage_eq hctx, hexists]
    cases hpage : nextPage (toolInput ctx) with
    | none =>
      have hplain := asksAfterUntrustedText_iff (h.mono hle) hctx hkey htaints
      simpa using hplain
    | some url =>
      have hread := urlReadThisTurn_iff h hkey hurls' url
      -- The question about the link brings nothing to the turn.
      have hsame : taintsOf turn (log ++ [.urlReadThisTurn now key url]) = taintsOf turn log :=
        ownSince_ask rfl rfl turn log
      have hasked := asksAfterUntrustedText_iff (h.snoc hle rfl) hctx hkey (hsame ▸ htaints)
      rw [hsame] at hasked
      dsimp only
      by_cases hheld : (urlReadThisTurn now key url (run log)).1 = true
      · rw [if_pos hheld]
        simp [hread.1 hheld]
      · rw [if_neg hheld, hasked]
        have hnot : url ∉ firstUrls (urlsOf turn log) := fun hmem => hheld (hread.2 hmem)
        simp [hnot]

/-- The second page of a link that was read. -/
theorem asksUnlessNextPage_iff_secondPage :
    (asksUnlessNextPage 9 9 (contextST (.object [(ascii ['u', 'r', 'l'], .text [104]),
      (ascii ['o', 'f', 'f', 's', 'e', 't'], .number 1)]))
      (run [.taintTurn 1 keyST .thirdParty, .noteUrlRead 1 keyST [104]])).1 = .notApplicable := by
  refine (asksUnlessNextPage_iff ⟨by decide, by decide⟩ le_rfl ?_).2
    ⟨keyST, turnST, rfl, rfl, .inr ⟨[104], rfl, by decide⟩⟩
  intro key turn hctx hkey
  have hown : turnKeyFrom (contextST (.object [(ascii ['u', 'r', 'l'], .text [104]),
      (ascii ['o', 'f', 'f', 's', 'e', 't'], .number 1)])) .undefined = some keyST := rfl
  rw [hown] at hctx
  cases hctx
  have hturn : usable keyST = some turnST := rfl
  rw [hturn] at hkey
  cases hkey
  exact ⟨by decide, by decide⟩

end Fetches

/-! ## Section 8: The hook -/

/-- What happens in a process: a tool's own call, the hook, or a link that was read. -/
inductive Event where
  /-- A tool calls the module itself. -/
  | call (c : Call)
  /-- The hook sees a result. -/
  | actionResult (now : Int) (event ctx : Unknown) (definition : Option OutsideDefinitionView)
  /-- A turn ends. -/
  | turnBoundary (now : Int) (event ctx : Unknown)
  /-- A link was read. -/
  | urlRead (now later : Int) (ctx : Unknown) (taint : Taint) (url : JsText)

namespace Event

def apply (maps : Maps) : Event → Maps
  | .call c => c.apply maps
  | .actionResult now event ctx definition => onActionResult now event ctx definition maps
  | .turnBoundary _ event ctx => onTurnBoundary event ctx maps
  | .urlRead now later ctx taint url => OriginTaint.urlRead now later ctx taint url maps

/-- The calls that an event makes. -/
def calls : Event → List Call
  | .call c => [c]
  | .actionResult now event ctx definition =>
      match (resultTool event).bind fun toolName => resultTaint toolName definition,
          keyOf event ctx with
      | some taint, some key => [.taintTurn now key taint]
      | _, _ => []
  | .turnBoundary now event ctx => ((keyOf event ctx).map (Call.clearTurn now)).toList
  | .urlRead now later ctx taint url =>
      match turnKeyFrom ctx .undefined with
      | some key => [.taintTurn now key taint, .noteUrlRead later key url]
      | none => []

theorem apply_eq (maps : Maps) (e : Event) : e.apply maps = e.calls.foldl Call.apply maps := by
  cases e with
  | call c => rfl
  | actionResult now event ctx definition =>
    simp only [apply, onActionResult, calls]
    cases (resultTool event).bind fun toolName => resultTaint toolName definition with
    | none => rfl
    | some taint => cases keyOf event ctx <;> rfl
  | turnBoundary now event ctx =>
    simp only [apply, onTurnBoundary, calls]
    cases keyOf event ctx <;> rfl
  | urlRead now later ctx taint url =>
    simp only [apply, OriginTaint.urlRead, calls]
    cases turnKeyFrom ctx .undefined <;> rfl

end Event

/-- The maps of a process, after what happened in it. -/
def after (events : List Event) : Maps := events.foldl Event.apply ⟨fun _ => none, fun _ => none⟩

def callsOf (events : List Event) : List Call := events.flatMap Event.calls

theorem after_eq_run (events : List Event) : after events = run (callsOf events) := by
  induction events using List.reverseRecOn with
  | nil => rfl
  | append_singleton events e ih =>
    rw [after, List.foldl_append, ← after, ih]
    show e.apply (run (callsOf events)) = _
    rw [Event.apply_eq, callsOf, callsOf, List.flatMap_append, List.flatMap_singleton, run, run,
      List.foldl_append]

/-- A taint stays with a turn that is not cleared. -/
theorem mem_taintsOf {turn : TurnKey} {before rest : List Call} {t : Int} {key : Unknown}
    {taint : Taint} (hkey : usable key = some turn)
    (hrest : ∀ c ∈ rest, c.clears = true → usable c.key ≠ some turn) :
    (t, taint) ∈ taintsOf turn (before ++ .taintTurn t key taint :: rest) := by
  induction rest using List.reverseRecOn with
  | nil =>
    have hown : usable (Call.taintTurn t key taint).key = some turn := hkey
    rw [taintsOf, ownSince_snoc, if_pos hown]
    simp [Call.clears, Call.taint?, Call.time]
  | append_singleton rest c ih =>
    have hbefore : (t, taint) ∈ taintsOf turn (before ++ .taintTurn t key taint :: rest) :=
      ih fun d hd => hrest d (List.mem_append_left _ hd)
    rw [← List.cons_append, ← List.append_assoc, taintsOf, ownSince_snoc]
    split
    next hown =>
      split
      next hclears =>
        exact absurd hown (hrest c (List.mem_append_right _ (List.mem_singleton_self c)) hclears)
      · exact List.mem_append_left _ hbefore
    · exact hbefore

/-- **Words from outside**: after the hook has seen such a result, and until the turn is cleared or
    what it has read is six hours old, every write of the turn is stamped at least as narrow as the
    result, and every link that it opens is put on a card unless it was read in the same turn. -/
theorem after_outside_result {events before rest : List Event} {t now later : Int}
    {event ctx : Unknown} {definition : Option OutsideDefinitionView} {toolName : JsText}
    {taint : Taint} {key : Unknown} {turn : TurnKey}
    (hevents : events = before ++ .actionResult t event ctx definition :: rest)
    (h : InOrder (callsOf events) now) (hle : now ≤ later)
    (htool : resultTool event = some toolName)
    (htaint : resultTaint toolName definition = some taint)
    (hkey : keyOf event ctx = some key) (husable : usable key = some turn)
    (hrest : ∀ c ∈ callsOf rest, c.clears = true → usable c.key ≠ some turn)
    (htaints : ∀ p ∈ taintsOf turn (callsOf events), later - p.1 < TAINT_MAX_AGE_MS)
    (hurls : ∀ p ∈ urlsOf turn (callsOf events), later - p.1 < TAINT_MAX_AGE_MS)
    {write : Unknown} (hwrite : usable write = some turn) :
    (∀ intended,
      distrust taint.1 ≤ distrust (stampFor now intended write (after events)).1 ∧
        distrust intended ≤ distrust (stampFor now intended write (after events)).1) ∧
    ∀ fetch, turnKeyFrom fetch .undefined = some write →
      (asksUnlessNextPage now later fetch (after events)).1 = .notApplicable →
        ∃ url, nextPage (toolInput fetch) = some url ∧
          url ∈ firstUrls (urlsOf turn (callsOf events)) := by
  -- The result is one call of the module, with the taint that the hook gives it.
  have hcalls : callsOf events =
      callsOf before ++ .taintTurn t key taint :: callsOf rest := by
    have hresult : Event.calls (.actionResult t event ctx definition) =
        [.taintTurn t key taint] := by
      simp only [Event.calls, htool, Option.bind_some, htaint, hkey]
    rw [hevents, callsOf, List.flatMap_append, List.flatMap_cons, hresult]
    rfl
  -- Nothing clears the turn after it, so its taint is among those of the turn.
  have hmem : (t, taint) ∈ taintsOf turn (callsOf events) := by
    rw [hcalls]
    exact mem_taintsOf husable hrest
  rw [after_eq_run]
  constructor
  · -- The stamp: the narrowest of the taints is no wider than this one.
    intro intended
    have hyoung : ∀ p ∈ taintsOf turn (callsOf events), now - p.1 < TAINT_MAX_AGE_MS := by
      intro p hp
      have := htaints p hp
      omega
    rw [((stampFor_own_taints h write intended).1 turn hwrite).1 hyoung]
    have hlisted : taint.1 ∈ (taintsOf turn (callsOf events)).map fun p => p.2.1 :=
      List.mem_map.2 ⟨(t, taint), hmem, rfl⟩
    exact ⟨le_distrust_narrowest (.inr hlisted), le_distrust_narrowest (.inl rfl)⟩
  · -- A link: the turn has a taint, so only the next page of what was read goes unasked.
    intro fetch hfetch hruns
    have hown : ∀ key' turn', turnKeyFrom fetch .undefined = some key' → usable key' = some turn' →
        turn' = turn := by
      intro key' turn' hkey' hturn'
      rw [hfetch] at hkey'
      cases hkey'
      exact Option.some.inj (hturn'.symm.trans hwrite)
    obtain ⟨key', turn', hkey', hturn', hcase⟩ := (asksUnlessNextPage_iff h hle (by
      intro key' turn' hkey' hturn'
      rw [hown key' turn' hkey' hturn']
      exact ⟨htaints, hurls⟩)).1 hruns
    rw [hown key' turn' hkey' hturn'] at hcase
    rcases hcase with hnone | hpage
    · rw [hnone] at hmem
      cases hmem
    · exact hpage

/-- A result of `gmail_read`. -/
def mailRead : Unknown :=
  .object [(ascii ['d', 'a', 't', 'a'], .object [(ascii ['r', 'e', 's', 'u', 'l', 't'], .object
    [(ascii ['k', 'i', 'n', 'd'],
        .text (ascii ['t', 'o', 'o', 'l', '-', 'r', 'e', 's', 'u', 'l', 't'])),
      (ascii ['t', 'o', 'o', 'l', 'N', 'a', 'm', 'e'],
        .text (ascii ['g', 'm', 'a', 'i', 'l', '_', 'r', 'e', 'a', 'd']))])])]

/-- A turn reads a mail and then a link. -/
def mailTurn : List Event :=
  [.actionResult 1 mailRead (contextST .undefined) none,
    .urlRead 3 4 (contextST .undefined) .thirdParty [104]]

/-- The second page of that link. -/
def secondPage : Unknown :=
  contextST (.object [(ascii ['u', 'r', 'l'], .text [104]),
    (ascii ['o', 'f', 'f', 's', 'e', 't'], .number 1)])

/-- What the agent writes then, and the next page of what it has read, which needs no card. -/
theorem after_outside_result_mail :
    distrust .thirdParty ≤ distrust (stampFor 9 .agent keyST (after mailTurn)).1 ∧
    (asksUnlessNextPage 9 9 secondPage (after mailTurn)).1 = .notApplicable ∧
    ∃ url, nextPage (toolInput secondPage) = some url ∧
      url ∈ firstUrls (urlsOf turnST (callsOf mailTurn)) := by
  have horder : InOrder (callsOf mailTurn) 9 := ⟨by decide, by decide⟩
  have htool : resultTool mailRead =
      some (ascii ['g', 'm', 'a', 'i', 'l', '_', 'r', 'e', 'a', 'd']) := rfl
  have htaint : resultTaint (ascii ['g', 'm', 'a', 'i', 'l', '_', 'r', 'e', 'a', 'd']) none =
      some .thirdParty := rfl
  have hkey : keyOf mailRead (contextST .undefined) = some keyST := rfl
  have hturn : usable keyST = some turnST := rfl
  have hrest : ∀ c ∈ callsOf [.urlRead 3 4 (contextST .undefined) .thirdParty [104]],
      c.clears = true → usable c.key ≠ some turnST := by decide
  have hruns : (asksUnlessNextPage 9 9 secondPage (after mailTurn)).1 = .notApplicable := rfl
  have hafter := after_outside_result (List.nil_append mailTurn).symm horder le_rfl htool htaint
    hkey hturn hrest (by decide) (by decide) hturn
  exact ⟨(hafter.1 .agent).1, hruns, hafter.2 secondPage rfl hruns⟩

end Lares.OriginTaint
