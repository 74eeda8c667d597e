import Lares.RefreshLock.LockInvariant

/-! # Single flight of the refresh lock

    In runs whose steps are all orderly, with keys that are mapped to names of their own,
    the lock does what it is for: one caller of a key inside `fn`, own or dead directories
    removed only, keys that do not touch each other, and a lock left without a result taken
    over. A caller that comes between `mkdirSync` and the write of `held-at` ends that.
-/

namespace Lares.RefreshLock

/-! ## Section 1: What a refresh lock is for -/

/-- At most one caller of a key is inside `fn`. -/
def Alone (s : State) : Prop :=
  ∀ (i j : Nat) (ci cj : Caller) (ti tj : Int),
    s.callers[i]? = some ci → s.callers[j]? = some cj → ci.key = cj.key → ci.phase = .running ti →
      cj.phase = .running tj → i = j

/-- The places of a caller that has not looked at a held lock since its last `recheck`. -/
def Phase.trying : Phase → Bool
  | .acquiring _ | .reading _ | .judging _ none | .breaking _ _ | .sleeping _ => true
  | _ => false

/-- What a refresh lock is for, in one state and the steps from it. -/
structure SingleFlight (cfg : Config) (s : State) : Prop where
  alone : Alone s
  /-- A caller removes the directory of its own key, made by itself or by a caller that died. -/
  removals : ∀ l t k dir, orderly cfg s l → next cfg s l = some t → k ∈ s.callers.map Caller.key →
    s.disk (lockPath cfg k) = some dir → t.disk (lockPath cfg k) = none →
    ∃ i answer c, l = .act i answer ∧ s.callers[i]? = some c ∧ c.key = k ∧
      (dir.creator = some i ∨ HolderGone s dir)
  /-- Whatever stands at the path of another key, a caller does the same and leaves it there. -/
  apart : ∀ i c answer k dir, s.callers[i]? = some c → k ∈ s.callers.map Caller.key → k ≠ c.key →
    next cfg { s with disk := s.disk.put (lockPath cfg k) dir } (.act i answer) =
      (next cfg s (.act i answer)).map fun t => { t with disk := t.disk.put (lockPath cfg k) dir }
  /-- With the directory gone and `recheck` empty, a caller takes the lock by its own steps,
      whatever its deadline. -/
  takes : ∀ i c, s.callers[i]? = some c → c.phase.trying = true →
    s.disk (lockPath cfg c.key) = none →
    ∃ n t, (lock cfg).run s (List.replicate n (.act i .nothing)) = some t ∧
      t.callers[i]? = some { c with phase := .writing s.now }

/-! ## Section 2: What the invariant gives -/

section Consequences

variable {cfg : Config} {keys : List Text} {s : State}

theorem Sound.alone (hs : Sound cfg keys s) : Alone s := by
  intro i j ci cj ti tj hi hj hkey hri hrj
  obtain ⟨dir, hdir, hmine, -⟩ := hs.held i ci ti hi (congrArg Phase.since hri)
  obtain ⟨dir', hdir', hyours, -⟩ := hs.held j cj tj hj (congrArg Phase.since hrj)
  rw [hkey, hdir'] at hdir
  cases hdir
  exact Option.some.inj (hmine.symm.trans hyours)

theorem Sound.removals (hkeys : KeysApart keys) (hs : Sound cfg keys s) {l : Label} {t : State}
    {k : Text} {dir : Dir} (horderly : orderly cfg s l = true) (h : next cfg s l = some t)
    (hk : k ∈ keys) (hdir : s.disk (lockPath cfg k) = some dir)
    (hgone : t.disk (lockPath cfg k) = none) :
    ∃ i answer c, l = .act i answer ∧ s.callers[i]? = some c ∧ c.key = k ∧
      (dir.creator = some i ∨ HolderGone s dir) := by
  obtain ⟨i, answer, c, disk, phase, rfl, hc, -, heff, rfl⟩ | ⟨i, c, rfl, hc, rfl⟩ |
    ⟨later, rfl, -, -, rfl⟩ := next_cases h
  · dsimp only at hgone
    have hkey : k = c.key := by
      by_contra hne
      rw [heff.disk_apart hkeys (hs.key_mem hc) hk hne, hdir] at hgone
      cases hgone
    subst hkey
    refine ⟨i, answer, c, rfl, hc, rfl, ?_⟩
    cases heff with
    | opened =>
      rw [Disk.mkdirAll_outside (lockPath_not_root hkeys hk), hdir] at hgone
      cases hgone
    | created | stamped => simp at hgone
    | released since hphase =>
      obtain ⟨own, hown, hmine, -⟩ := hs.held i c since hc (congrArg Phase.since hphase)
      rw [hdir] at hown
      cases hown
      exact .inl hmine
    | broke deadline seen hphase => exact .inr (hs.broken_gone hc horderly hphase hdir)
    | lost | looked | condemned | kept | outside =>
      rw [hdir] at hgone
      cases hgone
  · exact absurd (hdir.symm.trans hgone) (by simp)
  · exact absurd (hdir.symm.trans hgone) (by simp)

/-- The disk a caller comes back with, when another key's directory is replaced before its step. -/
theorem withRefreshStep_apart (hkeys : KeysApart keys) {i : Nat} {c : Caller} {k : Text}
    (hkey : c.key ∈ keys) (hk : k ∈ keys) (hne : k ≠ c.key) (now : Int) (disk : Disk)
    (answer : Answer) (dir : Option Dir) :
    withRefreshStep cfg now (disk.put (lockPath cfg k) dir) i c answer =
      (withRefreshStep cfg now disk i c answer).map fun r =>
        (r.1.put (lockPath cfg k) dir, r.2) := by
  -- The directories of two keys are apart, and neither is above the other.
  have hpath : lockPath cfg c.key ≠ lockPath cfg k := fun heq =>
    hne (lockPath_injective hkeys hk hkey heq.symm)
  have hown : disk.put (lockPath cfg k) dir (lockPath cfg c.key) = disk (lockPath cfg c.key) :=
    Disk.put_ne dir hpath
  have hparent : disk.put (lockPath cfg k) dir (lockPath cfg c.key).dropLast =
      disk (lockPath cfg c.key).dropLast := by
    refine Disk.put_ne dir fun heq => ?_
    rw [lockPath_eq hkeys hkey, List.dropLast_concat] at heq
    have hprefix : lockPath cfg k <+: cfg.root := heq ▸ List.prefix_refl _
    exact lockPath_not_root hkeys hk hprefix
  have hrm : (disk.put (lockPath cfg k) dir).rm (lockPath cfg c.key) =
      (disk.rm (lockPath cfg c.key)).put (lockPath cfg k) dir := by
    funext q
    by_cases hq : q = lockPath cfg k
    · subst hq
      rw [Disk.rm_outside (lockPath_apart hkeys hkey hk (Ne.symm hne)), Disk.put_self,
        Disk.put_self]
    · simp [Disk.rm, Disk.put, hq]
  -- A step looks at the directory of its own key, and at the root.
  cases hphase : c.phase with
  | entering =>
    simp [withRefreshStep, hphase, Disk.mkdirAll_put (lockPath_not_root hkeys hk)]
  | acquiring deadline =>
    simp only [withRefreshStep, hphase, Disk.mkdir, hown, hparent]
    by_cases hthere : (disk (lockPath cfg c.key)).isSome
    · simp [hthere]
    · by_cases hroot : (disk (lockPath cfg c.key).dropLast).isSome
      · simp [hthere, hroot, Disk.put_comm hpath]
      · simp [hthere, hroot]
  | stamping since stamp =>
    simp only [withRefreshStep, hphase, Disk.writeHeldAt, hown]
    cases hdir : disk (lockPath cfg c.key) with
    | none => simp
    | some own => simp [Disk.put_comm hpath]
  | reading deadline => simp [withRefreshStep, hphase, hown]
  | releasing since => simp [withRefreshStep, hphase, hrm]
  | breaking deadline seen => simp [withRefreshStep, hphase, hrm]
  | judging deadline seen =>
    simp only [withRefreshStep, hphase]
    split
    · rfl
    · split <;> rfl
  | waiting deadline =>
    simp only [withRefreshStep, hphase]
    split <;> rfl
  | sleeping deadline =>
    cases answer <;> simp [withRefreshStep, hphase]
  | starting | writing | running | done | failed | crashed => simp [withRefreshStep, hphase]

theorem next_apart (hkeys : KeysApart keys) {i : Nat} {c : Caller} {k : Text}
    (hc : s.callers[i]? = some c) (hkey : c.key ∈ keys) (hk : k ∈ keys) (hne : k ≠ c.key)
    (answer : Answer) (dir : Option Dir) :
    next cfg { s with disk := s.disk.put (lockPath cfg k) dir } (.act i answer) =
      (next cfg s (.act i answer)).map fun t =>
        { t with disk := t.disk.put (lockPath cfg k) dir } := by
  simp only [next, hc, withRefreshStep_apart hkeys hkey hk hne]
  cases withRefreshStep cfg s.now s.disk i c answer <;> rfl

/-- By its own steps alone the caller `i` comes to hold the lock. -/
def Takes (cfg : Config) (s : State) (i : Nat) (c : Caller) : Prop :=
  ∃ n t, (lock cfg).run s (List.replicate n (.act i .nothing)) = some t ∧
    t.callers[i]? = some { c with phase := .writing s.now }

theorem takes_acquiring {i : Nat} {c : Caller} (deadline : Int) (hc : s.callers[i]? = some c)
    (hphase : c.phase = .acquiring deadline) (habsent : s.disk (lockPath cfg c.key) = none)
    (hroot : (s.disk (lockPath cfg c.key).dropLast).isSome) : Takes cfg s i c := by
  refine ⟨1, { s.move i c (.writing s.now) with
    disk := s.disk.put (lockPath cfg c.key) (some ⟨some i, none⟩) }, ?_,
    (set_lookup hc).2 (.inl ⟨rfl, rfl⟩)⟩
  simp [lock, next, hc, withRefreshStep, hphase, Disk.mkdir, habsent, hroot]

/-- One step of the caller on the way. -/
theorem takes_after {i : Nat} {c : Caller} (disk : Disk) (phase : Phase)
    (hc : s.callers[i]? = some c)
    (hstep : withRefreshStep cfg s.now s.disk i c .nothing = some (disk, phase))
    (h : Takes cfg { s.move i c phase with disk } i { c with phase }) : Takes cfg s i c := by
  obtain ⟨n, t, hrun, ht⟩ := h
  refine ⟨n + 1, t, ?_, ht⟩
  rw [List.replicate_succ, System.run_cons]
  have hnext : next cfg s (.act i .nothing) = some { s.move i c phase with disk } := by
    simp [next, hc, hstep]
  simpa [lock, hnext] using hrun

theorem takes_breaking {i : Nat} {c : Caller} (deadline : Int) (seen : Option Dir)
    (hc : s.callers[i]? = some c) (hphase : c.phase = .breaking deadline seen)
    (hroot : ((s.disk.rm (lockPath cfg c.key)) (lockPath cfg c.key).dropLast).isSome) :
    Takes cfg s i c := by
  refine takes_after (s.disk.rm (lockPath cfg c.key)) (.acquiring deadline) hc
    (by simp [withRefreshStep, hphase]) ?_
  exact takes_acquiring deadline ((set_lookup hc).2 (.inl ⟨rfl, rfl⟩)) rfl
    Disk.rm_self hroot

theorem takes_judging {i : Nat} {c : Caller} (deadline : Int) (hc : s.callers[i]? = some c)
    (hphase : c.phase = .judging deadline none)
    (hroot : ((s.disk.rm (lockPath cfg c.key)) (lockPath cfg c.key).dropLast).isSome) :
    Takes cfg s i c := by
  refine takes_after s.disk (.breaking deadline none) hc
    (by simp [withRefreshStep, hphase]) ?_
  exact takes_breaking deadline none ((set_lookup hc).2 (.inl ⟨rfl, rfl⟩)) rfl hroot

theorem Sound.takes (hkeys : KeysApart keys) (hs : Sound cfg keys s) {i : Nat} {c : Caller}
    (hc : s.callers[i]? = some c) (htrying : c.phase.trying = true)
    (habsent : s.disk (lockPath cfg c.key) = none) : Takes cfg s i c := by
  have hkey : c.key ∈ keys := hs.key_mem hc
  have hparent : (lockPath cfg c.key).dropLast = cfg.root := by
    rw [lockPath_eq hkeys hkey, List.dropLast_concat]
  have hthere : (s.disk cfg.root).isSome := by
    refine hs.root i c hc ?_ ?_
    · intro hphase
      simp [hphase, Phase.trying] at htrying
    · revert htrying
      cases c.phase <;> simp [Phase.trying, Phase.ended]
  have hroot : (s.disk (lockPath cfg c.key).dropLast).isSome := hparent ▸ hthere
  have hafter : ((s.disk.rm (lockPath cfg c.key)) (lockPath cfg c.key).dropLast).isSome := by
    rw [hparent, Disk.rm_outside (lockPath_not_root hkeys hkey)]
    exact hthere
  have hself (phase : Phase) : (s.callers.set i { c with phase })[i]? = some { c with phase } :=
    (set_lookup hc).2 (.inl ⟨rfl, rfl⟩)
  cases hphase : c.phase with
  | acquiring deadline => exact takes_acquiring deadline hc hphase habsent hroot
  | sleeping deadline =>
    refine takes_after s.disk (.acquiring deadline) hc
      (by simp [withRefreshStep, hphase]) ?_
    exact takes_acquiring deadline (hself _) rfl habsent hroot
  | breaking deadline seen => exact takes_breaking deadline seen hc hphase hafter
  | judging deadline seen =>
    cases seen with
    | none => exact takes_judging deadline hc hphase hafter
    | some dir => simp [hphase, Phase.trying] at htrying
  | reading deadline =>
    -- the directory is gone by the time it is read
    refine takes_after s.disk (.judging deadline none) hc
      (by simp [withRefreshStep, hphase, habsent]) ?_
    exact takes_judging deadline (hself _) rfl hafter
  | entering | starting | writing | stamping | running | releasing | waiting | done | failed
  | crashed => simp [hphase, Phase.trying] at htrying

end Consequences

/-- **Single flight of a token refresh.** In every orderly run over keys with directories of their
    own, whatever the interleaving and the deaths, every state reached has at most one caller of a
    key inside `fn`, removals of own or dead directories only, keys that do not touch each other,
    and callers that take a lock left without a result. -/
theorem refreshLock_singleFlight {cfg : Config} {s t : State} {ls : List Label} (hs : Starts s)
    (hkeys : KeysApart (s.callers.map Caller.key))
    (horderly : (lock cfg).AllSteps (fun s l => orderly cfg s l = true) s ls)
    (hrun : (lock cfg).run s ls = some t) : SingleFlight cfg t := by
  have hsound : Sound cfg (s.callers.map Caller.key) t :=
    (lock cfg).run_invariant_of_allSteps (fun _ _ _ hI hl hnext => hI.stepped hkeys hl hnext)
      (Sound.start hs) horderly hrun
  constructor
  case alone => exact hsound.alone
  case removals =>
    intro l u k dir hl hnext hk
    exact hsound.removals hkeys hl hnext (hsound.names ▸ hk)
  case apart =>
    intro i c answer k dir hc hk hne
    exact next_apart hkeys hc (hsound.key_mem hc) (hsound.names ▸ hk) hne answer dir
  case takes =>
    intro i c hc htrying habsent
    exact hsound.takes hkeys hc htrying habsent

/-! ## Section 3: A holder that dies, and two callers inside -/

def sampleConfig : Config := ⟨[['l', 'o', 'c', 'k', 's']], 30000⟩

/-- Two callers of one key and one of another come to an empty disk. -/
def sampleStart : State where
  now := 1000
  disk := fun _ => none
  callers := [⟨['g'], 20000, .entering⟩, ⟨['g'], 20000, .entering⟩, ⟨['s'], 20000, .entering⟩]

def steps (who n : Nat) : List Label :=
  List.replicate n (.act who .nothing)

theorem sampleStart_starts : Starts sampleStart := by
  refine ⟨fun p dir h => ?_, by decide⟩
  simp [sampleStart] at h

theorem sampleStart_keysApart : KeysApart (sampleStart.callers.map Caller.key) := by
  refine ⟨by decide, ?_⟩
  simp only [sampleStart, List.map_cons, List.map_nil]
  decide

/-- The first caller dies inside `fn`; the second waits, finds it stale and takes over, next to the
    one with the other key. -/
def takeoverRun : List Label :=
  steps 0 5 ++ steps 2 5 ++ [.crash 0] ++ steps 1 6 ++ steps 2 2 ++ [.elapse 40000] ++ steps 1 8

theorem refreshLock_singleFlight_takeover :
    ((lock sampleConfig).run sampleStart takeoverRun).any (fun t =>
      t.callers.map Caller.phase == [.crashed, .running 40000, .done]) = true ∧
    ∃ t, (lock sampleConfig).run sampleStart takeoverRun = some t ∧
      SingleFlight sampleConfig t := by
  refine ⟨by decide +kernel, ?_⟩
  cases hrun : (lock sampleConfig).run sampleStart takeoverRun with
  | none =>
    have hsome : ((lock sampleConfig).run sampleStart takeoverRun).isSome = true := by
      decide +kernel
    simp [hrun] at hsome
  | some t =>
    exact ⟨t, rfl, refreshLock_singleFlight sampleStart_starts sampleStart_keysApart
      (by decide +kernel) hrun⟩

/-- The second caller comes between the first one's `mkdirSync` and its `held-at`. -/
def midAcquireRun : List Label :=
  steps 0 3 ++ steps 1 9 ++ steps 0 2

/-- Two callers of one key are inside `fn` at a time. -/
theorem two_callers_inside :
    ¬ ∀ (cfg : Config) (s t : State) (ls : List Label), Starts s →
      KeysApart (s.callers.map Caller.key) → (lock cfg).run s ls = some t → Alone t := by
  intro h
  have hphases : ((lock sampleConfig).run sampleStart midAcquireRun).map State.callers =
      some [⟨['g'], 20000, .running 1000⟩, ⟨['g'], 20000, .running 1000⟩,
        ⟨['s'], 20000, .entering⟩] := by
    decide +kernel
  obtain ⟨t, hrun, hcallers⟩ := Option.map_eq_some_iff.1 hphases
  have halone := h sampleConfig sampleStart t midAcquireRun sampleStart_starts
    sampleStart_keysApart hrun
  have heq : 0 = 1 := by
    refine halone 0 1 ⟨['g'], 20000, .running 1000⟩ ⟨['g'], 20000, .running 1000⟩ 1000 1000
      ?_ ?_ rfl rfl rfl
    all_goals rw [hcallers]; rfl
  cases heq

end Lares.RefreshLock
