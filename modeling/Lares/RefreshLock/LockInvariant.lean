import Lares.RefreshLock.Lock
import Mathlib.Data.List.Basic
import Mathlib.Tactic.Common

/-! # Whose a lock directory is

    The lock is a directory and a number written into it later. A reader that comes in
    between takes a live holder for a dead one, and a breaker removes whatever directory
    stands at the path when it gets there. An orderly step does neither.

    * **Effects**: what one operation of a caller can do, said once.
    * **Invariant**: a holder's directory is its own and no younger than its claim to it; a
      directory was made by a holder or by a caller that died; what a breaker looked at
      has no live holder. Orderly steps keep it.
-/

namespace Lares.RefreshLock

/-! ## Section 1: Orderly steps -/

/-- Each key has a directory of its own below the root. -/
def KeysApart (keys : List Text) : Prop :=
  (∀ k ∈ keys, safeKey k ≠ [] ∧ safeKey k ≠ ['.'] ∧ safeKey k ≠ ['.', '.']) ∧
    ∀ k ∈ keys, ∀ k' ∈ keys, safeKey k = safeKey k' → k = k'

/-- The caller that made the directory still holds it. -/
def State.live (s : State) (dir : Dir) : Bool :=
  match dir.creator with
  | none => false
  | some j => (s.callers[j]?).any fun c => c.phase.since.isSome

/-- No caller reads the directory between its making and the write of `held-at` by a live holder;
    no breaker removes another directory than the one it read. -/
def orderly (cfg : Config) (s : State) : Label → Bool
  | .act who _ =>
      match s.callers[who]? with
      | none => true
      | some c =>
          match c.phase, s.disk (lockPath cfg c.key) with
          | .reading _, some dir => dir.heldAt.isSome || !s.live dir
          | .breaking _ seen, some dir => decide (seen.map Dir.creator = some dir.creator)
          | _, _ => true
  | _ => true

/-- Whoever made the directory has died. -/
def HolderGone (s : State) (dir : Dir) : Prop :=
  ∀ j, dir.creator = some j → ∃ c, s.callers[j]? = some c ∧ c.phase = .crashed

/-! ## Section 2: Paths -/

section Paths

variable {cfg : Config} {keys : List Text} {k k' : Text}

theorem lockPath_eq (h : KeysApart keys) (hk : k ∈ keys) :
    lockPath cfg k = cfg.root ++ [safeKey k] := by
  obtain ⟨hnil, hdot, hdots⟩ := h.1 k hk
  simp [lockPath, joinName, hnil, hdot, hdots]

theorem lockPath_not_root (h : KeysApart keys) (hk : k ∈ keys) :
    ¬ lockPath cfg k <+: cfg.root := by
  intro hp
  have hlen := hp.length_le
  rw [lockPath_eq h hk, List.length_append, List.length_singleton] at hlen
  omega

theorem lockPath_injective (h : KeysApart keys) (hk : k ∈ keys) (hk' : k' ∈ keys)
    (heq : lockPath cfg k = lockPath cfg k') : k = k' := by
  rw [lockPath_eq h hk, lockPath_eq h hk'] at heq
  exact h.2 k hk k' hk' (by simpa using heq)

theorem lockPath_apart (h : KeysApart keys) (hk : k ∈ keys) (hk' : k' ∈ keys) (hne : k ≠ k') :
    ¬ lockPath cfg k <+: lockPath cfg k' := by
  intro hp
  have hlen : (lockPath cfg k).length = (lockPath cfg k').length := by
    simp [lockPath_eq h hk, lockPath_eq h hk']
  exact hne (lockPath_injective h hk hk' (hp.eq_of_length hlen))

end Paths

namespace Disk

variable {disk : Disk} {p q : Path}

@[simp] theorem put_self (dir : Option Dir) : disk.put p dir p = dir := by
  simp [put]

theorem put_ne (dir : Option Dir) (h : q ≠ p) : disk.put p dir q = disk q := by
  simp [put, h]

theorem rm_under (h : p <+: q) : disk.rm p q = none := by
  simp [rm, h]

@[simp] theorem rm_self : disk.rm p p = none :=
  rm_under (List.prefix_refl p)

theorem rm_outside (h : ¬ p <+: q) : disk.rm p q = disk q := by
  simp [rm, h]

theorem put_comm (h : q ≠ p) (a b : Option Dir) :
    (disk.put p a).put q b = (disk.put q b).put p a := by
  funext r
  by_cases hr : r = p
  · simp [put, hr, Ne.symm h]
  · simp [put, hr]

theorem mkdirAll_put {root : Path} (h : ¬ p <+: root) (dir : Option Dir) :
    (disk.put p dir).mkdirAll root = (disk.mkdirAll root).put p dir := by
  funext q
  by_cases hq : q = p
  · subst hq
    rw [put_self]
    simp [mkdirAll, h]
  · simp [mkdirAll, put, hq]

theorem mkdirAll_root {root : Path} : (disk.mkdirAll root root).isSome := by
  simp [mkdirAll]

theorem mkdirAll_outside {root : Path} (h : ¬ p <+: root) : disk.mkdirAll root p = disk p := by
  simp [mkdirAll, h]

end Disk

/-! ## Section 3: What one operation does -/

/-- The effect of one operation of the caller `who` on the disk and on its own phase. -/
inductive Effect (cfg : Config) (now : Int) (disk : Disk) (who : Nat) (c : Caller) :
    Disk → Phase → Prop where
  /-- The root is made. -/
  | opened (h : c.phase = .entering) : Effect cfg now disk who c (disk.mkdirAll cfg.root) .starting
  /-- The directory is made, for this caller. -/
  | created (deadline : Int) (h : c.phase = .acquiring deadline)
      (habsent : disk (lockPath cfg c.key) = none) :
      Effect cfg now disk who c (disk.put (lockPath cfg c.key) (some ⟨some who, none⟩))
        (.writing now)
  /-- The stamp is written. -/
  | stamped (since stamp : Int) (dir : Dir) (h : c.phase = .stamping since stamp)
      (hdir : disk (lockPath cfg c.key) = some dir) :
      Effect cfg now disk who c
        (disk.put (lockPath cfg c.key) (some { dir with heldAt := some stamp })) (.running since)
  /-- The directory was removed before its stamp. -/
  | lost (since stamp : Int) (h : c.phase = .stamping since stamp)
      (hdir : disk (lockPath cfg c.key) = none) : Effect cfg now disk who c disk .failed
  /-- The lock is given back. -/
  | released (since : Int) (h : c.phase = .releasing since) :
      Effect cfg now disk who c (disk.rm (lockPath cfg c.key)) .done
  /-- A directory is removed, whoever has made it. -/
  | broke (deadline : Int) (seen : Option Dir) (h : c.phase = .breaking deadline seen) :
      Effect cfg now disk who c (disk.rm (lockPath cfg c.key)) (.acquiring deadline)
  /-- The directory is seen as it is. -/
  | looked (deadline : Int) (h : c.phase = .reading deadline) :
      Effect cfg now disk who c disk (.judging deadline (disk (lockPath cfg c.key)))
  /-- What was seen of it is stale, or has no stamp. -/
  | condemned (deadline : Int) (seen : Option Dir) (h : c.phase = .judging deadline seen)
      (hstale : ∀ dir heldAt, seen = some dir → dir.heldAt = some heldAt →
        heldAt + cfg.staleMs < now) : Effect cfg now disk who c disk (.breaking deadline seen)
  /-- A holder goes on, and keeps the lock. -/
  | kept (since : Int) (phase : Phase) (h : c.phase.since = some since)
      (hsince : phase.since = some since)
      (hstamp : ∀ stamp, phase = .stamping since stamp → stamp = now) :
      Effect cfg now disk who c disk phase
  /-- A caller without the lock goes on. -/
  | outside (phase : Phase) (h : c.phase.since = none) (hin : c.phase ≠ .entering)
      (hsince : phase.since = none) (hnew : phase ≠ .entering)
      (hjudging : ∀ deadline seen, phase ≠ .judging deadline seen)
      (hbreaking : ∀ deadline seen, phase ≠ .breaking deadline seen) :
      Effect cfg now disk who c disk phase

theorem withRefreshStep_effect {cfg : Config} {now : Int} {disk disk' : Disk} {who : Nat}
    {c : Caller} {answer : Answer} {phase' : Phase}
    (h : withRefreshStep cfg now disk who c answer = some (disk', phase')) :
    Effect cfg now disk who c disk' phase' := by
  cases hphase : c.phase with
  | entering =>
    simp only [withRefreshStep, hphase, Option.some.injEq, Prod.mk.injEq] at h
    obtain ⟨rfl, rfl⟩ := h
    exact .opened hphase
  | starting =>
    simp only [withRefreshStep, hphase, Option.some.injEq, Prod.mk.injEq] at h
    obtain ⟨rfl, rfl⟩ := h
    exact .outside _ (by simp [hphase, Phase.since]) (by simp [hphase]) rfl (by simp) (by simp)
      (by simp)
  | acquiring deadline =>
    simp only [withRefreshStep, hphase, Disk.mkdir] at h
    split at h
    · next hmade =>
      -- a directory is made only where there is none
      split at hmade
      · cases hmade
      · next habsent =>
        split at hmade
        · cases hmade
          cases h
          exact .created deadline hphase (by simpa using habsent)
        · cases hmade
    all_goals
      cases h
      exact .outside _ (by simp [hphase, Phase.since]) (by simp [hphase]) rfl (by simp) (by simp)
        (by simp)
  | writing since =>
    simp only [withRefreshStep, hphase, Option.some.injEq, Prod.mk.injEq] at h
    obtain ⟨rfl, rfl⟩ := h
    exact .kept since _ (by simp [hphase, Phase.since]) rfl (by simp)
  | stamping since stamp =>
    simp only [withRefreshStep, hphase, Disk.writeHeldAt] at h
    cases hdir : disk (lockPath cfg c.key) with
    | none =>
      simp only [hdir, Option.map_none, Option.some.injEq, Prod.mk.injEq] at h
      obtain ⟨rfl, rfl⟩ := h
      exact .lost since stamp hphase hdir
    | some dir =>
      simp only [hdir, Option.map_some, Option.some.injEq, Prod.mk.injEq] at h
      obtain ⟨rfl, rfl⟩ := h
      exact .stamped since stamp dir hphase hdir
  | running since =>
    simp only [withRefreshStep, hphase, Option.some.injEq, Prod.mk.injEq] at h
    obtain ⟨rfl, rfl⟩ := h
    exact .kept since _ (by simp [hphase, Phase.since]) rfl (by simp)
  | releasing since =>
    simp only [withRefreshStep, hphase, Option.some.injEq, Prod.mk.injEq] at h
    obtain ⟨rfl, rfl⟩ := h
    exact .released since hphase
  | reading deadline =>
    simp only [withRefreshStep, hphase, Option.some.injEq, Prod.mk.injEq] at h
    obtain ⟨rfl, rfl⟩ := h
    exact .looked deadline hphase
  | judging deadline seen =>
    simp only [withRefreshStep, hphase] at h
    split at h
    · next hnone =>
      cases h
      refine .condemned deadline seen hphase fun dir heldAt hseen hheld => ?_
      simp [hseen, hheld] at hnone
    · next heldAt hsome =>
      split at h
      · next hstale =>
        cases h
        refine .condemned deadline seen hphase fun dir heldAt' hseen hheld => ?_
        simp only [hseen, Option.bind_some, hheld, Option.some.injEq] at hsome
        omega
      · cases h
        exact .outside _ (by simp [hphase, Phase.since]) (by simp [hphase]) rfl (by simp)
          (by simp) (by simp)
  | breaking deadline seen =>
    simp only [withRefreshStep, hphase, Option.some.injEq, Prod.mk.injEq] at h
    obtain ⟨rfl, rfl⟩ := h
    exact .broke deadline seen hphase
  | waiting deadline =>
    simp only [withRefreshStep, hphase] at h
    split at h <;> cases h <;>
      exact .outside _ (by simp [hphase, Phase.since]) (by simp [hphase]) rfl (by simp) (by simp)
        (by simp)
  | sleeping deadline =>
    simp only [withRefreshStep, hphase] at h
    cases answer <;> cases h <;>
      exact .outside _ (by simp [hphase, Phase.since]) (by simp [hphase]) rfl (by simp) (by simp)
        (by simp)
  | done | failed | crashed =>
    simp [withRefreshStep, hphase] at h

theorem withRefreshStep_goes {cfg : Config} {now : Int} {disk : Disk} {who : Nat} {c : Caller}
    {answer : Answer} {r : Disk × Phase} (h : withRefreshStep cfg now disk who c answer = some r) :
    c.phase.ended = false := by
  cases hphase : c.phase <;> first | rfl | simp [withRefreshStep, hphase] at h

/-- What a step can be. -/
theorem next_cases {cfg : Config} {s t : State} {l : Label} (h : next cfg s l = some t) :
    (∃ i answer c disk phase, l = .act i answer ∧ s.callers[i]? = some c ∧
      c.phase.ended = false ∧ Effect cfg s.now s.disk i c disk phase ∧
      t = { s.move i c phase with disk }) ∨
    (∃ i c, l = .crash i ∧ s.callers[i]? = some c ∧ t = s.move i c .crashed) ∨
    (∃ later, l = .elapse later ∧ s.now ≤ later ∧ s.withinStale cfg later = true ∧
      t = { s with now := later }) := by
  cases l with
  | act i answer =>
    simp only [next] at h
    split at h
    · cases h
    · next c hc =>
      split at h
      · cases h
      · next disk phase hstep =>
        cases h
        exact .inl ⟨i, answer, c, disk, phase, rfl, hc, withRefreshStep_goes hstep,
          withRefreshStep_effect hstep, rfl⟩
  | crash i =>
    simp only [next] at h
    split at h
    · cases h
    · next c hc =>
      cases h
      exact .inr (.inl ⟨i, c, rfl, hc, rfl⟩)
  | elapse later =>
    simp only [next] at h
    split at h
    · next hguard =>
      cases h
      exact .inr (.inr ⟨later, rfl, hguard.1, hguard.2, rfl⟩)
    · cases h

/-! ## Section 4: The invariant -/

structure Sound (cfg : Config) (keys : List Text) (s : State) : Prop where
  /-- The callers keep their keys. -/
  names : s.callers.map Caller.key = keys
  /-- Whoever has got past the root finds it. -/
  root : ∀ (i : Nat) (c : Caller), s.callers[i]? = some c → c.phase ≠ .entering →
    c.phase.ended = false → (s.disk cfg.root).isSome
  /-- A holder has been one for no longer than `staleMs`. -/
  time : ∀ (i : Nat) (c : Caller) since, s.callers[i]? = some c → c.phase.since = some since →
    since ≤ s.now ∧ s.now ≤ since + cfg.staleMs
  /-- A stamp is not older than the lock. -/
  stamp : ∀ (i : Nat) (c : Caller) since stamp, s.callers[i]? = some c →
    c.phase = .stamping since stamp → since ≤ stamp
  /-- The directory of a holder is there, is its own, and looks no older than it is. -/
  held : ∀ (i : Nat) (c : Caller) since, s.callers[i]? = some c → c.phase.since = some since →
    ∃ dir, s.disk (lockPath cfg c.key) = some dir ∧ dir.creator = some i ∧
      ∀ heldAt, dir.heldAt = some heldAt → since ≤ heldAt
  /-- A directory belongs to a holder or to a process that is gone. -/
  made : ∀ k ∈ keys, ∀ dir i, s.disk (lockPath cfg k) = some dir → dir.creator = some i →
    ∃ c, s.callers[i]? = some c ∧ c.key = k ∧ (c.phase.since.isSome ∨ c.phase = .crashed)
  /-- Who has made a directory that is being judged has ended, or holds the lock under the stamp
  that was seen. -/
  judged : ∀ (i : Nat) (c : Caller) deadline dir, s.callers[i]? = some c →
    c.phase = .judging deadline (some dir) → ∀ j, dir.creator = some j →
    ∃ c', s.callers[j]? = some c' ∧ (c'.phase.ended = true ∨
      ∃ since heldAt, c'.phase.since = some since ∧ dir.heldAt = some heldAt ∧ since ≤ heldAt)
  /-- Who has made a directory that is being broken has ended. -/
  condemned : ∀ (i : Nat) (c : Caller) deadline dir, s.callers[i]? = some c →
    c.phase = .breaking deadline (some dir) → ∀ j, dir.creator = some j →
    ∃ c', s.callers[j]? = some c' ∧ c'.phase.ended = true

theorem since_not_ended {phase : Phase} {since : Int} (h : phase.since = some since) :
    phase.ended = false := by
  cases phase <;> first | rfl | simp [Phase.since] at h

theorem set_lookup {cs : List Caller} {i j : Nat} {c c' cj : Caller} (hc : cs[i]? = some c) :
    (cs.set i c')[j]? = some cj ↔ (j = i ∧ cj = c') ∨ (j ≠ i ∧ cs[j]? = some cj) := by
  obtain ⟨hlt, -⟩ := List.getElem?_eq_some_iff.1 hc
  rw [List.getElem?_set]
  by_cases hij : i = j
  · subst hij
    simp [hlt, eq_comm]
  · simp [hij, Ne.symm hij]

theorem set_keys {cs : List Caller} {i : Nat} {c : Caller} (hc : cs[i]? = some c) (phase : Phase) :
    (cs.set i { c with phase }).map Caller.key = cs.map Caller.key := by
  refine List.ext_getElem? fun j => ?_
  obtain ⟨hlt, hi⟩ := List.getElem?_eq_some_iff.1 hc
  by_cases hij : i = j
  · subst hij
    simp [hlt, hi]
  · simp [hij]

theorem orderly_reading {cfg : Config} {s : State} {i : Nat} {c : Caller} {answer : Answer}
    {deadline : Int} {dir : Dir} (h : orderly cfg s (.act i answer) = true)
    (hc : s.callers[i]? = some c) (hphase : c.phase = .reading deadline)
    (hdir : s.disk (lockPath cfg c.key) = some dir) (hheld : dir.heldAt = none) :
    s.live dir = false := by
  simpa [orderly, hc, hphase, hdir, hheld] using h

theorem orderly_breaking {cfg : Config} {s : State} {i : Nat} {c : Caller} {answer : Answer}
    {deadline : Int} {seen : Option Dir} {dir : Dir} (h : orderly cfg s (.act i answer) = true)
    (hc : s.callers[i]? = some c) (hphase : c.phase = .breaking deadline seen)
    (hdir : s.disk (lockPath cfg c.key) = some dir) :
    ∃ was, seen = some was ∧ was.creator = dir.creator := by
  simpa [orderly, hc, hphase, hdir] using h

section Preservation

variable {cfg : Config} {keys : List Text} {s : State} {i : Nat} {c : Caller} {answer : Answer}
  {disk : Disk} {phase : Phase}

theorem Sound.key_mem (hs : Sound cfg keys s) (hc : s.callers[i]? = some c) : c.key ∈ keys := by
  rw [← hs.names]
  exact List.mem_map_of_mem (List.mem_of_getElem? hc)

/-- Other keys' directories are not touched. -/
theorem Effect.disk_apart (heff : Effect cfg s.now s.disk i c disk phase) (hkeys : KeysApart keys)
    (hkey : c.key ∈ keys) {k : Text} (hk : k ∈ keys) (hne : k ≠ c.key) :
    disk (lockPath cfg k) = s.disk (lockPath cfg k) := by
  have hpath : lockPath cfg k ≠ lockPath cfg c.key := fun heq =>
    hne (lockPath_injective hkeys hk hkey heq)
  have hunder : ¬ lockPath cfg c.key <+: lockPath cfg k :=
    lockPath_apart hkeys hkey hk (Ne.symm hne)
  cases heff with
  | opened => exact Disk.mkdirAll_outside (lockPath_not_root hkeys hk)
  | created | stamped => exact Disk.put_ne _ hpath
  | released | broke => exact Disk.rm_outside hunder
  | lost | looked | condemned | kept | outside => rfl

theorem Effect.root_kept (heff : Effect cfg s.now s.disk i c disk phase) (hkeys : KeysApart keys)
    (hkey : c.key ∈ keys) (hroot : (s.disk cfg.root).isSome) : (disk cfg.root).isSome := by
  have hnot : ¬ lockPath cfg c.key <+: cfg.root := lockPath_not_root hkeys hkey
  have hpath : cfg.root ≠ lockPath cfg c.key := fun heq => hnot (heq ▸ List.prefix_refl _)
  cases heff with
  | opened => exact Disk.mkdirAll_root
  | created | stamped => rwa [Disk.put_ne _ hpath]
  | released | broke => rwa [Disk.rm_outside hnot]
  | lost | looked | condemned | kept | outside => exact hroot

/-- What a breaker removes in an orderly step has no live holder. -/
theorem Sound.broken_gone (hs : Sound cfg keys s) (hc : s.callers[i]? = some c)
    (horderly : orderly cfg s (.act i answer) = true) {deadline : Int} {seen : Option Dir}
    {dir : Dir} (hphase : c.phase = .breaking deadline seen)
    (hdir : s.disk (lockPath cfg c.key) = some dir) : HolderGone s dir := by
  obtain ⟨was, rfl, hcreator⟩ := orderly_breaking horderly hc hphase hdir
  intro j hj
  obtain ⟨c', hc', hended⟩ := hs.condemned i c deadline was hc hphase j (hcreator.trans hj)
  obtain ⟨c'', hc'', -, hsince | hcrashed⟩ := hs.made c.key (hs.key_mem hc) dir j hdir hj
  · obtain rfl : c' = c'' := Option.some.inj (hc'.symm.trans hc'')
    obtain ⟨since, hsince⟩ := Option.isSome_iff_exists.1 hsince
    simp [since_not_ended hsince] at hended
  · exact ⟨c'', hc'', hcrashed⟩

/-- A holder's directory is left alone by everyone else. -/
theorem Sound.held_kept (hkeys : KeysApart keys) (hs : Sound cfg keys s)
    (hc : s.callers[i]? = some c) (heff : Effect cfg s.now s.disk i c disk phase)
    (horderly : orderly cfg s (.act i answer) = true) {j : Nat} {cj : Caller} {since : Int}
    (hne : j ≠ i) (hj : s.callers[j]? = some cj) (hsince : cj.phase.since = some since) :
    disk (lockPath cfg cj.key) = s.disk (lockPath cfg cj.key) := by
  by_cases hkey : cj.key = c.key
  swap
  · exact heff.disk_apart hkeys (hs.key_mem hc) (hs.key_mem hj) hkey
  obtain ⟨dir, hdir, hcreator, -⟩ := hs.held j cj since hj hsince
  rw [hkey] at hdir ⊢
  -- the actor is not a holder of the same directory
  have hother : c.phase.since = none := by
    cases hi : c.phase.since with
    | none => rfl
    | some since' =>
      obtain ⟨dir', hdir', hcreator', -⟩ := hs.held i c since' hc hi
      rw [hdir] at hdir'
      cases hdir'
      exact absurd (Option.some.inj (hcreator.symm.trans hcreator')) hne
  cases heff with
  | opened => exact Disk.mkdirAll_outside (lockPath_not_root hkeys (hs.key_mem hc))
  | created deadline hphase habsent => simp [habsent] at hdir
  | stamped since stamp dir hphase => simp [hphase, Phase.since] at hother
  | released since hphase => simp [hphase, Phase.since] at hother
  | broke deadline seen hphase =>
    obtain ⟨c', hc', hcrashed⟩ := hs.broken_gone hc horderly hphase hdir j hcreator
    obtain rfl : cj = c' := Option.some.inj (hj.symm.trans hc')
    simp [hcrashed, Phase.since] at hsince
  | lost | looked | condemned | kept | outside => rfl

/-- A holder stays one, with the same claim, until its calls are over. -/
theorem Effect.since_after (heff : Effect cfg s.now s.disk i c disk phase) {since : Int}
    (hsince : c.phase.since = some since) : phase.since = some since ∨ phase.ended = true := by
  cases heff with
  | opened h | created _ h | broke _ _ h | looked _ h | condemned _ _ h =>
    simp [h, Phase.since] at hsince
  | stamped since' stamp dir h =>
    simp only [h, Phase.since, Option.some.injEq] at hsince
    exact .inl (by simp [Phase.since, hsince])
  | lost | released => exact .inr rfl
  | kept since' phase h hsince' =>
    rw [h] at hsince
    exact .inl (by rw [hsince', hsince])
  | outside phase h => simp [h] at hsince

theorem Effect.judging (heff : Effect cfg s.now s.disk i c disk phase) {deadline : Int}
    {seen : Option Dir} (h : phase = .judging deadline seen) :
    c.phase = .reading deadline ∧ s.disk (lockPath cfg c.key) = seen := by
  cases heff with
  | looked deadline' hreading =>
    simp only [Phase.judging.injEq] at h
    obtain ⟨rfl, rfl⟩ := h
    exact ⟨hreading, rfl⟩
  | kept since phase _ hsince => simp [h, Phase.since] at hsince
  | outside phase _ _ _ _ hjudging => exact absurd h (hjudging _ _)
  | opened | created | stamped | lost | released | broke | condemned => cases h

theorem Effect.breaking (heff : Effect cfg s.now s.disk i c disk phase) {deadline : Int}
    {seen : Option Dir} (h : phase = .breaking deadline seen) :
    c.phase = .judging deadline seen ∧ ∀ dir heldAt, seen = some dir → dir.heldAt = some heldAt →
      heldAt + cfg.staleMs < s.now := by
  cases heff with
  | condemned deadline' seen' hjudging hstale =>
    simp only [Phase.breaking.injEq] at h
    obtain ⟨rfl, rfl⟩ := h
    exact ⟨hjudging, hstale⟩
  | kept since phase _ hsince => simp [h, Phase.since] at hsince
  | outside phase _ _ _ _ _ hbreaking => exact absurd h (hbreaking _ _)
  | opened | created | stamped | lost | released | broke | looked => cases h

theorem ended_after (hc : s.callers[i]? = some c) (hgoes : c.phase.ended = false) {j : Nat}
    {cj : Caller} (hj : s.callers[j]? = some cj) (hended : cj.phase.ended = true) (c' : Caller) :
    (s.callers.set i c')[j]? = some cj := by
  refine (set_lookup hc).2 (.inr ⟨?_, hj⟩)
  rintro rfl
  obtain rfl : c = cj := Option.some.inj (hc.symm.trans hj)
  simp [hgoes] at hended

theorem judged_after (hc : s.callers[i]? = some c) (hgoes : c.phase.ended = false)
    (heff : Effect cfg s.now s.disk i c disk phase) {dir : Dir} {j : Nat} {cj : Caller}
    (hj : s.callers[j]? = some cj)
    (hfor : cj.phase.ended = true ∨ ∃ since heldAt, cj.phase.since = some since ∧
      dir.heldAt = some heldAt ∧ since ≤ heldAt) :
    ∃ c', (s.callers.set i { c with phase })[j]? = some c' ∧ (c'.phase.ended = true ∨
      ∃ since heldAt, c'.phase.since = some since ∧ dir.heldAt = some heldAt ∧
        since ≤ heldAt) := by
  obtain hended | ⟨since, heldAt, hsince, hheld, hle⟩ := hfor
  · exact ⟨cj, ended_after hc hgoes hj hended _, .inl hended⟩
  by_cases hij : j = i
  · subst hij
    obtain rfl : c = cj := Option.some.inj (hc.symm.trans hj)
    refine ⟨_, (set_lookup hc).2 (.inl ⟨rfl, rfl⟩), ?_⟩
    obtain hsame | hended := heff.since_after hsince
    · exact .inr ⟨since, heldAt, hsame, hheld, hle⟩
    · exact .inl hended
  · exact ⟨cj, (set_lookup hc).2 (.inr ⟨hij, hj⟩), .inr ⟨since, heldAt, hsince, hheld, hle⟩⟩

/-- What the actor claims after its step: the directory is its own. -/
theorem Sound.held_self (hs : Sound cfg keys s) (hc : s.callers[i]? = some c)
    (heff : Effect cfg s.now s.disk i c disk phase) {since : Int}
    (hsince : phase.since = some since) :
    since ≤ s.now ∧ s.now ≤ since + cfg.staleMs ∧
      (∀ stamp, phase = .stamping since stamp → since ≤ stamp) ∧
      ∃ dir, disk (lockPath cfg c.key) = some dir ∧ dir.creator = some i ∧
        ∀ heldAt, dir.heldAt = some heldAt → since ≤ heldAt := by
  cases heff with
  | opened | lost | released | broke | looked | condemned => simp [Phase.since] at hsince
  | created deadline h habsent =>
    simp only [Phase.since, Option.some.injEq] at hsince
    subst hsince
    exact ⟨Int.le_refl _, by omega, by simp, _, Disk.put_self _, rfl, by simp⟩
  | stamped since' stamp dir h hdir =>
    simp only [Phase.since, Option.some.injEq] at hsince
    subst hsince
    have hhas : c.phase.since = some since' := by rw [h]; rfl
    obtain ⟨hle, hstale⟩ := hs.time i c since' hc hhas
    obtain ⟨dir', hdir', hcreator, -⟩ := hs.held i c since' hc hhas
    rw [hdir] at hdir'
    cases hdir'
    refine ⟨hle, hstale, by simp, _, Disk.put_self _, hcreator, fun heldAt hheld => ?_⟩
    cases hheld
    exact hs.stamp i c since' stamp hc h
  | kept since' phase h hsince' hstamp =>
    obtain rfl : since' = since := Option.some.inj (hsince'.symm.trans hsince)
    obtain ⟨hle, hstale⟩ := hs.time i c since' hc h
    refine ⟨hle, hstale, fun stamp heq => ?_, hs.held i c since' hc h⟩
    rw [hstamp stamp heq]
    exact hle
  | outside phase h hin hnone => simp [hnone] at hsince

/-- Whose directories stand after the step. -/
theorem Sound.made_after (hkeys : KeysApart keys) (hs : Sound cfg keys s)
    (hc : s.callers[i]? = some c) (hgoes : c.phase.ended = false)
    (heff : Effect cfg s.now s.disk i c disk phase) {k : Text} (hk : k ∈ keys) {dir : Dir} {j : Nat}
    (hdir : disk (lockPath cfg k) = some dir) (hcreator : dir.creator = some j) :
    ∃ c', (s.callers.set i { c with phase })[j]? = some c' ∧ c'.key = k ∧
      (c'.phase.since.isSome ∨ c'.phase = .crashed) := by
  have hself : (s.callers.set i { c with phase })[i]? = some { c with phase } :=
    (set_lookup hc).2 (.inl ⟨rfl, rfl⟩)
  -- a directory that stood before the step: its maker may be the actor, as a holder
  have hstood (hwas : s.disk (lockPath cfg k) = some dir)
      (hsame : c.key = k → c.phase.since.isSome → phase.since.isSome) :
      ∃ c', (s.callers.set i { c with phase })[j]? = some c' ∧ c'.key = k ∧
        (c'.phase.since.isSome ∨ c'.phase = .crashed) := by
    obtain ⟨c', hc', hkey, hstate⟩ := hs.made k hk dir j hwas hcreator
    by_cases hij : j = i
    · subst hij
      obtain rfl : c = c' := Option.some.inj (hc.symm.trans hc')
      obtain hsince | hcrashed := hstate
      · exact ⟨_, hself, hkey, .inl (hsame hkey hsince)⟩
      · simp [hcrashed, Phase.ended] at hgoes
    · exact ⟨c', (set_lookup hc).2 (.inr ⟨hij, hc'⟩), hkey, hstate⟩
  by_cases hkey : k = c.key
  swap
  · rw [heff.disk_apart hkeys (hs.key_mem hc) hk hkey] at hdir
    exact hstood hdir fun heq => absurd heq.symm hkey
  subst hkey
  cases heff with
  | opened h =>
    rw [Disk.mkdirAll_outside (lockPath_not_root hkeys hk)] at hdir
    exact hstood hdir (by simp [h, Phase.since])
  | created deadline h habsent =>
    rw [Disk.put_self] at hdir
    cases hdir
    cases hcreator
    exact ⟨_, hself, rfl, .inl rfl⟩
  | stamped since stamp was h hwas =>
    rw [Disk.put_self] at hdir
    cases hdir
    obtain ⟨was', hwas', hmine, -⟩ := hs.held i c since hc (by rw [h]; rfl)
    rw [hwas] at hwas'
    cases hwas'
    obtain rfl : j = i := Option.some.inj (hcreator.symm.trans hmine)
    exact ⟨_, hself, rfl, .inl rfl⟩
  | lost since stamp h hnone => simp [hnone] at hdir
  | released | broke => simp at hdir
  | looked deadline h | condemned deadline seen h => exact hstood hdir (by simp [h, Phase.since])
  | kept since phase h hsince => exact hstood hdir fun _ _ => by simp [hsince]
  | outside phase h => exact hstood hdir (by simp [h])

/-- What an orderly read meets was made by a caller that has ended or by a holder whose claim is no
    younger than the number read. -/
theorem Sound.read_traced (hs : Sound cfg keys s) (hc : s.callers[i]? = some c)
    (heff : Effect cfg s.now s.disk i c disk phase)
    (horderly : orderly cfg s (.act i answer) = true) {deadline : Int} {dir : Dir}
    (hphase : phase = .judging deadline (some dir)) {j : Nat} (hcreator : dir.creator = some j) :
    ∃ c', s.callers[j]? = some c' ∧ (c'.phase.ended = true ∨
      ∃ since heldAt, c'.phase.since = some since ∧ dir.heldAt = some heldAt ∧
        since ≤ heldAt) := by
  obtain ⟨hreading, hdir⟩ := heff.judging hphase
  obtain ⟨c', hc', hsame, hsince | hcrashed⟩ := hs.made c.key (hs.key_mem hc) dir j hdir hcreator
  swap
  · exact ⟨c', hc', .inl (by rw [hcrashed]; rfl)⟩
  obtain ⟨since, hsince⟩ := Option.isSome_iff_exists.1 hsince
  obtain ⟨own, hown, -, hle⟩ := hs.held j c' since hc' hsince
  rw [hsame, hdir] at hown
  cases hown
  cases hheld : dir.heldAt with
  | none =>
    have hdead : s.live dir = false := orderly_reading horderly hc hreading hdir hheld
    simp [State.live, hcreator, hc', hsince] at hdead
  | some heldAt => exact ⟨c', hc', .inr ⟨since, heldAt, hsince, rfl, hle heldAt hheld⟩⟩

/-- A directory judged stale was made by a caller that has ended: a live holder is inside its
    `staleMs`. -/
theorem Sound.condemned_ended (hs : Sound cfg keys s) (hc : s.callers[i]? = some c)
    (heff : Effect cfg s.now s.disk i c disk phase) {deadline : Int} {dir : Dir}
    (hphase : phase = .breaking deadline (some dir)) {j : Nat} (hcreator : dir.creator = some j) :
    ∃ c', s.callers[j]? = some c' ∧ c'.phase.ended = true := by
  obtain ⟨hjudging, hstale⟩ := heff.breaking hphase
  obtain ⟨c', hc', hended | ⟨since, heldAt, hsince, hheld, hle⟩⟩ :=
    hs.judged i c deadline dir hc hjudging j hcreator
  · exact ⟨c', hc', hended⟩
  · have hpast : heldAt + cfg.staleMs < s.now := hstale dir heldAt rfl hheld
    obtain ⟨-, hinside⟩ := hs.time j c' since hc' hsince
    omega

/-- One operation of a caller keeps the invariant. -/
theorem Sound.act (hkeys : KeysApart keys) (hs : Sound cfg keys s)
    (horderly : orderly cfg s (.act i answer) = true) (hc : s.callers[i]? = some c)
    (hgoes : c.phase.ended = false) (heff : Effect cfg s.now s.disk i c disk phase) :
    Sound cfg keys { s.move i c phase with disk } := by
  have hkey : c.key ∈ keys := hs.key_mem hc
  constructor
  case names => exact (set_keys hc phase).trans hs.names
  case root =>
    intro j cj hj hin hnot
    obtain ⟨rfl, rfl⟩ | ⟨-, hj⟩ := (set_lookup hc).1 hj
    · by_cases hentering : c.phase = .entering
      · -- the first operation of a caller makes the root
        cases heff with
        | opened => exact Disk.mkdirAll_root
        | lost | released => simp [Phase.ended] at hnot
        | created _ h | stamped _ _ _ h | broke _ _ h | looked _ h | condemned _ _ h =>
          simp [h] at hentering
        | kept _ _ h => simp [hentering, Phase.since] at h
        | outside _ _ hin => exact absurd hentering hin
      · exact heff.root_kept hkeys hkey (hs.root j c hc hentering hgoes)
    · exact heff.root_kept hkeys hkey (hs.root j cj hj hin hnot)
  case time =>
    intro j cj since hj hsince
    obtain ⟨rfl, rfl⟩ | ⟨-, hj⟩ := (set_lookup hc).1 hj
    · obtain ⟨hle, hstale, -⟩ := hs.held_self hc heff hsince
      exact ⟨hle, hstale⟩
    · exact hs.time j cj since hj hsince
  case stamp =>
    intro j cj since stamp hj hphase
    obtain ⟨rfl, rfl⟩ | ⟨-, hj⟩ := (set_lookup hc).1 hj
    · obtain ⟨-, -, hstamp, -⟩ := hs.held_self hc heff (congrArg Phase.since hphase)
      exact hstamp stamp hphase
    · exact hs.stamp j cj since stamp hj hphase
  case held =>
    intro j cj since hj hsince
    obtain ⟨rfl, rfl⟩ | ⟨hne, hj⟩ := (set_lookup hc).1 hj
    · obtain ⟨-, -, -, hheld⟩ := hs.held_self hc heff hsince
      exact hheld
    · obtain ⟨dir, hdir, hmine⟩ := hs.held j cj since hj hsince
      exact ⟨dir, (hs.held_kept hkeys hc heff horderly hne hj hsince).trans hdir, hmine⟩
  case made =>
    intro k hk dir j hdir hcreator
    exact hs.made_after hkeys hc hgoes heff hk hdir hcreator
  case judged =>
    intro j cj deadline dir hj hphase j' hcreator
    obtain ⟨rfl, rfl⟩ | ⟨-, hj⟩ := (set_lookup hc).1 hj
    · obtain ⟨c', hc', hfor⟩ := hs.read_traced hc heff horderly hphase hcreator
      exact judged_after hc hgoes heff hc' hfor
    · obtain ⟨c', hc', hfor⟩ := hs.judged j cj deadline dir hj hphase j' hcreator
      exact judged_after hc hgoes heff hc' hfor
  case condemned =>
    intro j cj deadline dir hj hphase j' hcreator
    obtain ⟨rfl, rfl⟩ | ⟨-, hj⟩ := (set_lookup hc).1 hj
    · obtain ⟨c', hc', hended⟩ := hs.condemned_ended hc heff hphase hcreator
      exact ⟨c', ended_after hc hgoes hc' hended _, hended⟩
    · obtain ⟨c', hc', hended⟩ := hs.condemned j cj deadline dir hj hphase j' hcreator
      exact ⟨c', ended_after hc hgoes hc' hended _, hended⟩

/-- A caller that dies leaves what it made, as the directory of a dead holder. -/
theorem Sound.crash (hs : Sound cfg keys s) (hc : s.callers[i]? = some c) :
    Sound cfg keys (s.move i c .crashed) := by
  have hself : (s.callers.set i { c with phase := .crashed })[i]? =
      some { c with phase := .crashed } := (set_lookup hc).2 (.inl ⟨rfl, rfl⟩)
  have hother {j : Nat} {cj : Caller} (hne : j ≠ i) (hj : s.callers[j]? = some cj) :
      (s.callers.set i { c with phase := .crashed })[j]? = some cj :=
    (set_lookup hc).2 (.inr ⟨hne, hj⟩)
  -- Who has crashed is in no phase that a part speaks of; the others are where they were.
  constructor
  case names => exact (set_keys hc .crashed).trans hs.names
  case root =>
    intro j cj hj hin hgoes
    obtain ⟨rfl, rfl⟩ | ⟨-, hj⟩ := (set_lookup hc).1 hj
    · simp [Phase.ended] at hgoes
    · exact hs.root j cj hj hin hgoes
  case time =>
    intro j cj since hj hsince
    obtain ⟨rfl, rfl⟩ | ⟨-, hj⟩ := (set_lookup hc).1 hj
    · simp [Phase.since] at hsince
    · exact hs.time j cj since hj hsince
  case stamp =>
    intro j cj since stamp hj hphase
    obtain ⟨rfl, rfl⟩ | ⟨-, hj⟩ := (set_lookup hc).1 hj
    · simp at hphase
    · exact hs.stamp j cj since stamp hj hphase
  case held =>
    intro j cj since hj hsince
    obtain ⟨rfl, rfl⟩ | ⟨-, hj⟩ := (set_lookup hc).1 hj
    · simp [Phase.since] at hsince
    · exact hs.held j cj since hj hsince
  case made =>
    intro k hk dir j hdir hcreator
    -- The directory it made stays, and is now of a process that is gone.
    obtain ⟨c', hc', hkey, hstate⟩ := hs.made k hk dir j hdir hcreator
    by_cases hij : j = i
    · subst hij
      obtain rfl : c = c' := Option.some.inj (hc.symm.trans hc')
      exact ⟨_, hself, hkey, .inr rfl⟩
    · exact ⟨c', hother hij hc', hkey, hstate⟩
  case judged =>
    intro j cj deadline dir hj hphase j' hcreator
    obtain ⟨rfl, rfl⟩ | ⟨-, hj⟩ := (set_lookup hc).1 hj
    · simp at hphase
    · obtain ⟨c', hc', hfor⟩ := hs.judged j cj deadline dir hj hphase j' hcreator
      by_cases hij : j' = i
      · subst hij
        exact ⟨_, hself, .inl rfl⟩
      · exact ⟨c', hother hij hc', hfor⟩
  case condemned =>
    intro j cj deadline dir hj hphase j' hcreator
    obtain ⟨rfl, rfl⟩ | ⟨-, hj⟩ := (set_lookup hc).1 hj
    · simp at hphase
    · obtain ⟨c', hc', hended⟩ := hs.condemned j cj deadline dir hj hphase j' hcreator
      by_cases hij : j' = i
      · subst hij
        exact ⟨_, hself, rfl⟩
      · exact ⟨c', hother hij hc', hended⟩

theorem Sound.elapse (hs : Sound cfg keys s) {later : Int} (hlater : s.now ≤ later)
    (hwithin : s.withinStale cfg later = true) : Sound cfg keys { s with now := later } := by
  refine ⟨hs.names, hs.root, fun j cj since hj hsince => ?_, hs.stamp, hs.held, hs.made, hs.judged,
    hs.condemned⟩
  have hfor := List.all_eq_true.1 hwithin cj (List.mem_of_getElem? hj)
  rw [hsince] at hfor
  exact ⟨Int.le_trans (hs.time j cj since hj hsince).1 hlater, by simpa using hfor⟩

theorem Sound.start (h : Starts s) : Sound cfg (s.callers.map Caller.key) s := by
  have hentering {j : Nat} {cj : Caller} (hj : s.callers[j]? = some cj) :
      cj.phase = .entering := h.2 cj (List.mem_of_getElem? hj)
  constructor
  case names => rfl
  case root =>
    intro j cj hj hin
    exact absurd (hentering hj) hin
  case time =>
    intro j cj since hj hsince
    simp [hentering hj, Phase.since] at hsince
  case stamp =>
    intro j cj since stamp hj hphase
    simp [hentering hj] at hphase
  case held =>
    intro j cj since hj hsince
    simp [hentering hj, Phase.since] at hsince
  case made =>
    intro k _ dir j hdir hcreator
    simp [h.1 _ dir hdir] at hcreator
  case judged =>
    intro j cj deadline dir hj hphase
    simp [hentering hj] at hphase
  case condemned =>
    intro j cj deadline dir hj hphase
    simp [hentering hj] at hphase

/-- The invariant holds along every orderly run. -/
theorem Sound.stepped {t : State} {l : Label} (hkeys : KeysApart keys) (hs : Sound cfg keys s)
    (horderly : orderly cfg s l = true) (h : next cfg s l = some t) : Sound cfg keys t := by
  obtain ⟨i, answer, c, disk, phase, rfl, hc, hgoes, heff, rfl⟩ | ⟨i, c, rfl, hc, rfl⟩ |
    ⟨later, rfl, hlater, hwithin, rfl⟩ := next_cases h
  · exact hs.act hkeys horderly hc hgoes heff
  · exact hs.crash hc
  · exact hs.elapse hlater hwithin

end Preservation

end Lares.RefreshLock
