import Lares.Framework.StableSort
import Lares.Obligations.Pipeline
import Mathlib

/-! # An obligation leaves the radar on a positive finding only

    * **Progress**: what is dropped was found elsewhere or has a verdict, what
      is found elsewhere is dropped, and each reason that is kept has its cause.
    * **The queue** of the reading pass is sorted by age, and only a failed
      check, a finding or a cached verdict keeps a thread out of it.
    * **Returning** at any moment shows what the progress says of all threads.
-/

namespace Lares.Obligations

variable {κ : Type}

/-! ## Section 1: The record -/

def checkFailed (log : List Event) (id : ThreadId) : Prop := .checkFailed id ∈ log

def foundElsewhere (log : List Event) (id : ThreadId) : Prop := .foundElsewhere id ∈ log

def cachedVerdict (log : List Event) (id : ThreadId) : Prop :=
  ∃ intent, .verdict id intent true ∈ log

/-- `closes_loop` or `fyi`, from the cache or from a reading. -/
def verdictDrops (log : List Event) (id : ThreadId) : Prop :=
  ∃ intent fromCache, .verdict id intent fromCache ∈ log ∧ (intent = .closesLoop ∨ intent = .fyi)

def hasVerdict (log : List Event) (id : ThreadId) : Prop :=
  ∃ intent fromCache, .verdict id intent fromCache ∈ log

def Event.readOf : Event → Option ThreadId
  | .modelRead id => some id
  | _ => none

/-- The model reads made. -/
def modelReads (log : List Event) : List ThreadId := log.filterMap Event.readOf

theorem modelReads_append (log : List Event) (e : Event) :
    modelReads (log ++ [e]) = modelReads log ++ e.readOf.toList := by
  unfold modelReads
  rw [List.filterMap_append]
  cases e <;> rfl

/-! ## Section 2: Progress -/

/-- Why a thread stays with this reason. -/
def Cause (deps : Deps) (log : List Event) (id : ThreadId) (reason : Option String) : Prop :=
  reason = some RESOLUTION_UNVERIFIED_REASON ∨ reason = some INTENT_UNREAD_REASON ∨
    deps.classifyIntent = false ∧ reason = none ∨ hasVerdict log id

structure Decided (deps : Deps) (log : List Event) (p : StageProgress) : Prop where
  found : ∀ id, foundElsewhere log id → id ∈ p.dropped
  dropped : ∀ id ∈ p.dropped, foundElsewhere log id ∨ verdictDrops log id
  keep : ∀ q ∈ p.keep, Cause deps log q.1 q.2

namespace Decided

variable {deps : Deps} {log : List Event} {p : StageProgress}

/-- An event that finds no thread elsewhere. -/
theorem note (h : Decided deps log p) (e : Event) (he : ∀ id, e ≠ .foundElsewhere id) :
    Decided deps (log ++ [e]) p := by
  have hmono : ∀ {e'}, e' ∈ log → e' ∈ log ++ [e] := fun h => List.mem_append_left _ h
  refine ⟨?_, ?_, ?_⟩
  · intro id hid
    rcases List.mem_append.1 hid with hold | hnew
    · exact h.found id hold
    · exact absurd (List.mem_singleton.1 hnew).symm (he id)
  · intro id hid
    exact (h.dropped id hid).imp hmono fun ⟨i, b, hmem, hi⟩ => ⟨i, b, hmono hmem, hi⟩
  · intro q hq
    refine (h.keep q hq).imp_right (Or.imp_right (Or.imp_right ?_))
    exact fun ⟨i, b, hmem⟩ => ⟨i, b, hmono hmem⟩

theorem keepAs (h : Decided deps log p) {id : ThreadId} {reason : Option String}
    (hcause : Cause deps log id reason) : Decided deps log (p.keepAs id reason) :=
  ⟨h.found, h.dropped, List.forall_mem_cons.2 ⟨hcause, h.keep⟩⟩

theorem keepAll (h : Decided deps log p) {reason : Option String}
    (hcause : ∀ id, Cause deps log id reason) (items : List (Obligation κ)) :
    Decided deps log (p.keepAll items reason) := by
  unfold StageProgress.keepAll
  induction items generalizing p with
  | nil => exact h
  | cons o items ih => exact ih (h.keepAs (hcause o.threadId))

theorem noteUnreadable (h : Decided deps log p) (sources : List (List Char)) :
    Decided deps log (p.noteUnreadable sources) :=
  ⟨h.found, h.dropped, h.keep⟩

/-- Found elsewhere, and dropped. -/
theorem findElsewhere (h : Decided deps log p) (id : ThreadId) :
    Decided deps (log ++ [.foundElsewhere id]) (p.drop id) := by
  have hmono : ∀ {e'}, e' ∈ log → e' ∈ log ++ [.foundElsewhere id] :=
    fun h => List.mem_append_left _ h
  refine ⟨?_, ?_, ?_⟩
  · intro id' hid'
    rcases List.mem_append.1 hid' with hold | hnew
    · exact List.mem_cons_of_mem _ (h.found id' hold)
    · have he : id' = id := by
        have := List.mem_singleton.1 hnew
        injection this
      rw [he]
      exact List.mem_cons_self
  · intro id' hid'
    rcases List.mem_cons.1 hid' with rfl | hold
    · exact .inl (by simp [foundElsewhere])
    · exact (h.dropped id' hold).imp hmono fun ⟨i, b, hmem, hi⟩ => ⟨i, b, hmono hmem, hi⟩
  · intro q hq
    refine (h.keep q hq).imp_right (Or.imp_right (Or.imp_right ?_))
    exact fun ⟨i, b, hmem⟩ => ⟨i, b, hmono hmem⟩

/-- A verdict, and what it does. -/
theorem applyIntent (h : Decided deps log p) (o : Obligation κ) (intent : Intent)
    (fromCache : Bool) :
    Decided deps (log ++ [.verdict o.threadId intent fromCache]) (applyIntent p o intent) := by
  have hnoted := h.note (.verdict o.threadId intent fromCache) (fun _ => by simp)
  have hverdict : Event.verdict o.threadId intent fromCache ∈
      log ++ [Event.verdict o.threadId intent fromCache] := by simp
  unfold Obligations.applyIntent
  split_ifs with hdrops
  · refine ⟨fun id hid => List.mem_cons_of_mem _ (hnoted.found id hid), ?_, hnoted.keep⟩
    intro id hid
    rcases List.mem_cons.1 hid with rfl | hold
    · exact .inr ⟨intent, fromCache, hverdict, hdrops⟩
    · exact hnoted.dropped id hold
  · exact hnoted.keepAs (.inr (.inr (.inr ⟨intent, fromCache, hverdict⟩)))

end Decided

/-! ## Section 3: The queue -/

/-- What the reading pass may read, oldest first. -/
structure Queue (owed : List (Obligation κ)) (log : List Event) (queue : List (Obligation κ)) :
    Prop where
  sorted : queue.Pairwise fun a b => b.ageHours ≤ a.ageHours
  sub : ∀ o ∈ queue, o ∈ owed
  cover : ∀ o ∈ owed, o ∈ queue ∨ checkFailed log o.threadId ∨ foundElsewhere log o.threadId ∨
    cachedVerdict log o.threadId

theorem Queue.note {owed queue : List (Obligation κ)} {log : List Event}
    (h : Queue owed log queue) (e : Event) : Queue owed (log ++ [e]) queue := by
  refine ⟨h.sorted, h.sub, ?_⟩
  intro o ho
  have hmono : ∀ {e'}, e' ∈ log → e' ∈ log ++ [e] := fun h => List.mem_append_left _ h
  refine (h.cover o ho).imp_right (Or.imp hmono (Or.imp hmono ?_))
  exact fun ⟨i, hi⟩ => ⟨i, hmono hi⟩

/-- Inserting by age and then by name keeps the ages sorted, whatever the order of names is. -/
theorem sorted_byAge (deps : Deps) (l : List (Obligation κ)) :
    (byAge deps l).Pairwise fun a b => b.ageHours ≤ a.ageHours := by
  unfold byAge
  induction l with
  | nil => exact .nil
  | cons a l ih =>
    rw [List.insertionSort_cons]
    generalize l.insertionSort (olderFirst deps) = m at ih
    induction m with
    | nil => exact List.pairwise_singleton _ _
    | cons b m ihm =>
      have ⟨hb, htail⟩ := List.pairwise_cons.1 ih
      rw [List.orderedInsert_cons]
      split_ifs with hab
      · have hage : b.ageHours ≤ a.ageHours := by
          unfold olderFirst at hab
          omega
        refine List.pairwise_cons.2 ⟨?_, ih⟩
        intro c hc
        rcases List.mem_cons.1 hc with rfl | hc
        · exact hage
        · exact (hb c hc).trans hage
      · refine List.pairwise_cons.2 ⟨?_, ihm htail⟩
        intro c hc
        rcases (List.mem_orderedInsert _).1 hc with rfl | hc
        · unfold olderFirst at hab
          omega
        · exact hb c hc

theorem mem_byAge (deps : Deps) {l : List (Obligation κ)} {o : Obligation κ} :
    o ∈ byAge deps l ↔ o ∈ l :=
  (List.perm_insertionSort _ l).mem_iff

/-! ## Section 4: What holds at every moment -/

/-- The passes, each with what is known of its calls. -/
def StageInv (owed : List (Obligation κ)) (log : List Event) : Stage κ → Prop
  | .resolving pool =>
      pool.map Prod.fst = owed ∧ modelReads log = [] ∧
      ∀ p ∈ pool, p.2 = .running .write ∨ p.2 = .done .leaves →
        checkFailed log p.1.threadId ∨ foundElsewhere log p.1.threadId
  | .caching pool =>
      Queue owed log (pool.map Prod.fst) ∧ modelReads log = [] ∧
      ((pool.map Prod.fst).map Obligation.threadId).Nodup ∧
      ∀ p ∈ pool, p.2 = .done .answered → cachedVerdict log p.1.threadId
  | .reading pool =>
      ∃ queue, Queue owed log queue ∧ (queue.map Obligation.threadId).Nodup ∧
        pool.map Prod.fst = queue.take INTENT_MAX_PER_PASS ∧ Pool.InOrder pool ∧
        modelReads log = (Pool.taken pool).map Obligation.threadId
  | .finished =>
      modelReads log = [] ∨ ∃ queue k, Queue owed log queue ∧ k ≤ INTENT_MAX_PER_PASS ∧
        modelReads log = (queue.take k).map Obligation.threadId

/-- What is returned at a moment, and what is known by then. -/
structure Sound (deps : Deps) (owed : List (Obligation κ)) (r : Returned κ) : Prop where
  /-- In the order they are owed. -/
  order : (r.threads.map Listed.obligation).Sublist owed
  /-- What is left out was answered elsewhere, or has its verdict. -/
  missing : ∀ o ∈ owed, o ∉ r.threads.map Listed.obligation →
    foundElsewhere r.before o.threadId ∨ verdictDrops r.before o.threadId
  /-- What was answered elsewhere is left out. -/
  found : ∀ t ∈ r.threads, ¬ foundElsewhere r.before t.obligation.threadId
  /-- The reason given is the one there is. -/
  reasons : ∀ t ∈ r.threads, Cause deps r.before t.obligation.threadId t.reason

structure Inv (deps : Deps) (owed : List (Obligation κ)) (s : State κ) : Prop where
  progress : Decided deps s.log s.progress
  stage : StageInv owed s.log s.stage
  returned : ∀ r, s.returned = some r → Sound deps owed r

theorem materialize_obligations (owed : List (Obligation κ)) (p : StageProgress) :
    (materialize owed p).map Listed.obligation = owed.filter fun o => o.threadId ∉ p.dropped := by
  unfold materialize
  rw [List.map_map]
  conv_rhs => rw [← List.map_id (owed.filter fun o => o.threadId ∉ p.dropped)]
  apply List.map_congr_left
  intro o _
  rw [Function.comp_apply]
  split <;> rfl

/-- **Returning now**: whatever has been decided, the list is sound. -/
theorem sound_materialize {deps : Deps} {owed : List (Obligation κ)} {log : List Event}
    {p : StageProgress} (h : Decided deps log p) :
    Sound deps owed ⟨materialize owed p, log⟩ := by
  refine ⟨?_, ?_, ?_, ?_⟩
  · rw [materialize_obligations]
    exact List.filter_sublist
  · intro o ho hmissing
    rw [materialize_obligations, List.mem_filter] at hmissing
    have hdropped : o.threadId ∈ p.dropped := by
      by_contra hkept
      exact hmissing ⟨ho, by simpa using hkept⟩
    exact h.dropped _ hdropped
  · intro t ht hfound
    have hmem : t.obligation ∈ (materialize owed p).map Listed.obligation := List.mem_map_of_mem ht
    rw [materialize_obligations, List.mem_filter] at hmem
    have hkept : t.obligation.threadId ∉ p.dropped := by simpa using hmem.2
    exact hkept (h.found _ hfound)
  · intro t ht
    obtain ⟨o, -, rfl⟩ := List.mem_map.1 ht
    dsimp only
    cases hkeep : p.keep.lookup o.threadId with
    | none => exact .inl rfl
    | some reason =>
      obtain ⟨l, l', hkeep, -⟩ := List.lookup_eq_some_iff.1 hkeep
      exact h.keep (o.threadId, reason) (by rw [hkeep]; simp)

section Steps

variable {deps : Deps} {owed : List (Obligation κ)} {s s' : State κ}

/-- A step that only moves the stage and the progress. -/
theorem Inv.move (h : Inv deps owed s) {stage : Stage κ} {progress : StageProgress}
    {log : List Event} (hprogress : Decided deps log progress)
    (hstage : StageInv owed log stage) : Inv deps owed { s with stage, progress, log } :=
  ⟨hprogress, hstage, h.returned⟩

theorem Inv.finish (h : Inv deps owed s) (hs : s.finish owed = some s') : Inv deps owed s' := by
  unfold State.finish at hs
  split_ifs at hs
  cases hs
  refine ⟨h.progress, h.stage, ?_⟩
  intro r hr
  cases hr
  exact sound_materialize h.progress

/-- The reading pass begins with a queue. -/
theorem Inv.startReading (h : Inv deps owed s) {queue : List (Obligation κ)}
    (hqueue : Queue owed s.log queue) (hids : (queue.map Obligation.threadId).Nodup)
    (hreads : modelReads s.log = []) : Inv deps owed (startReading deps s queue) := by
  unfold Obligations.startReading
  by_cases hclassify : deps.classifyIntent = true
  · rw [if_neg (by simp [hclassify])]
    refine h.move (h.progress.keepAll (fun _ => .inr (.inl rfl)) _)
      ⟨queue, hqueue, hids, ?_, ?_, ?_⟩
    · exact Pool.map_fst_of _
    · exact Pool.inOrder_of _
    · rw [hreads, Pool.taken_of, List.map_nil]
  · have hnone : deps.classifyIntent = false := by simpa using hclassify
    rw [if_pos (by simp [hnone])]
    exact h.move (h.progress.keepAll (fun _ => .inr (.inr (.inl ⟨hnone, rfl⟩))) _) (.inl hreads)

/-- The intent pass begins with the survivors of the resolve pass. -/
theorem Inv.readIntents (h : Inv deps owed s) {survivors : List (Obligation κ)}
    (hqueue : Queue owed s.log (byAge deps survivors))
    (hids : ((byAge deps survivors).map Obligation.threadId).Nodup)
    (hreads : modelReads s.log = []) : Inv deps owed (readIntents deps s survivors) := by
  unfold Obligations.readIntents
  split_ifs with hneither hcached
  · have hnone : deps.classifyIntent = false := by simpa using hneither.2
    exact h.move (h.progress.keepAll (fun _ => .inr (.inr (.inl ⟨hnone, rfl⟩))) _) (.inl hreads)
  · refine h.move h.progress ⟨?_, hreads, ?_, ?_⟩
    · rw [Pool.map_fst_of]
      exact hqueue
    · rw [Pool.map_fst_of]
      exact hids
    · intro p hp hdone
      rw [(Pool.mem_of hp).2] at hdone
      cases hdone
  · exact h.startReading hqueue hids hreads

theorem modelReads_note {log : List Event} (e : Event) (he : e.readOf = none)
    (h : modelReads log = []) : modelReads (log ++ [e]) = [] := by
  rw [modelReads_append, he, h]
  rfl

theorem Inv.onResolved (h : Inv deps owed s) {pool : Pool (Obligation κ) Waits Checked}
    (hstage : s.stage = .resolving pool) {id : ThreadId} {answer : Answer ResolveOutcome}
    (hs : onResolved deps s pool id answer = some s') : Inv deps owed s' := by
  have hinv := h.stage
  rw [hstage] at hinv
  obtain ⟨hpool, hreads, hgone⟩ := hinv
  have hmono : ∀ (e : Event), ∀ p ∈ pool, p.2 = .running .write ∨ p.2 = .done .leaves →
      checkFailed (s.log ++ [e]) p.1.threadId ∨ foundElsewhere (s.log ++ [e]) p.1.threadId :=
    fun e p hp hjob => (hgone p hp hjob).imp (List.mem_append_left _) (List.mem_append_left _)
  cases answer with
  | threw =>
    obtain ⟨⟨o, pool'⟩, hsettle, rfl⟩ := Option.map_eq_some_iff.1 hs
    refine h.move ((h.progress.note _ (by simp)).keepAs (.inl rfl))
      ⟨(Pool.settle_map_fst hsettle).trans hpool, modelReads_note _ rfl hreads, ?_⟩
    intro p hp hjob
    rcases Pool.mem_settle hsettle hp with hold | ⟨hkey, -⟩
    · exact hmono _ p hold hjob
    · exact .inl (by rw [hkey]; simp [checkFailed])
  | gave outcome =>
    simp only [Obligations.onResolved] at hs
    by_cases hnone : (!outcome.resolution) = true
    · rw [if_pos hnone] at hs
      obtain ⟨⟨o, pool'⟩, hsettle, rfl⟩ := Option.map_eq_some_iff.1 hs
      refine h.move (h.progress.noteUnreadable _)
        ⟨(Pool.settle_map_fst hsettle).trans hpool, hreads, ?_⟩
      intro p hp hjob
      rcases Pool.mem_settle hsettle hp with hold | ⟨-, hnew⟩
      · exact hgone p hold hjob
      · rw [hnew] at hjob
        simp at hjob
    · rw [if_neg hnone] at hs
      obtain ⟨⟨o, pool'⟩, hsettle, rfl⟩ := Option.map_eq_some_iff.1 hs
      refine h.move ((h.progress.noteUnreadable _).findElsewhere id)
        ⟨(Pool.settle_map_fst hsettle).trans hpool, modelReads_note _ rfl hreads, ?_⟩
      intro p hp hjob
      rcases Pool.mem_settle hsettle hp with hold | ⟨hkey, -⟩
      · exact hmono _ p hold hjob
      · exact .inr (by rw [hkey]; simp [foundElsewhere])

theorem Inv.onCached (h : Inv deps owed s) {pool : Pool (Obligation κ) Unit Cached}
    (hstage : s.stage = .caching pool) {id : ThreadId} {answer : Answer (Option Intent)}
    (hs : onCached s pool id answer = some s') : Inv deps owed s' := by
  have hinv := h.stage
  rw [hstage] at hinv
  obtain ⟨hqueue, hreads, hids, hanswered⟩ := hinv
  have hmissed : ∀ {s'}, (pool.settle Obligation.threadId id () (.done Cached.missed)).map
      (fun p => { s with stage := Stage.caching p.2 }) = some s' → Inv deps owed s' := by
    intro s' hs
    obtain ⟨⟨o, pool'⟩, hsettle, rfl⟩ := Option.map_eq_some_iff.1 hs
    have hfst := Pool.settle_map_fst hsettle
    refine h.move h.progress ⟨by rw [hfst]; exact hqueue, hreads, by rw [hfst]; exact hids, ?_⟩
    intro p hp hdone
    rcases Pool.mem_settle hsettle hp with hold | ⟨-, hnew⟩
    · exact hanswered p hold hdone
    · rw [hnew] at hdone
      simp at hdone
  cases answer with
  | threw => exact hmissed hs
  | gave verdict =>
    cases verdict with
    | none => exact hmissed hs
    | some intent =>
      obtain ⟨⟨o, pool'⟩, hsettle, rfl⟩ := Option.map_eq_some_iff.1 hs
      have hfst := Pool.settle_map_fst hsettle
      have ho := (Pool.settle_mem hsettle).2
      have hprogress := h.progress.applyIntent o intent true
      rw [ho] at hprogress
      refine h.move hprogress ⟨by rw [hfst]; exact hqueue.note _, modelReads_note _ rfl hreads,
        by rw [hfst]; exact hids, ?_⟩
      intro p hp hdone
      rcases Pool.mem_settle hsettle hp with hold | ⟨hkey, -⟩
      · obtain ⟨i, hi⟩ := hanswered p hold hdone
        exact ⟨i, List.mem_append_left _ hi⟩
      · exact ⟨intent, by rw [hkey]; simp⟩

theorem Inv.onRead (h : Inv deps owed s) {pool : Pool (Obligation κ) Unit Unit}
    (hstage : s.stage = .reading pool) {id : ThreadId} {answer : Answer Intent}
    (hs : onRead s pool id answer = some s') : Inv deps owed s' := by
  have hinv := h.stage
  rw [hstage] at hinv
  obtain ⟨queue, hqueue, hids, hpool, horder, hreads⟩ := hinv
  have hkeys : (pool.map fun p => p.1.threadId).Nodup := by
    have : (pool.map fun p => p.1.threadId) =
        (queue.take INTENT_MAX_PER_PASS).map Obligation.threadId := by
      rw [← hpool, List.map_map]
      rfl
    rw [this]
    exact hids.sublist ((List.take_sublist _ _).map _)
  cases answer with
  | threw =>
    obtain ⟨⟨o, pool'⟩, hsettle, rfl⟩ := Option.map_eq_some_iff.1 hs
    obtain ⟨htaken, hkept⟩ := Pool.settle_taken rfl hkeys hsettle
    refine h.move (h.progress.keepAs (.inl rfl)) ⟨queue, hqueue, hids, ?_, hkept horder, ?_⟩
    · rw [Pool.settle_map_fst hsettle, hpool]
    · rw [hreads, htaken]
  | gave intent =>
    obtain ⟨⟨o, pool'⟩, hsettle, rfl⟩ := Option.map_eq_some_iff.1 hs
    obtain ⟨htaken, hkept⟩ := Pool.settle_taken rfl hkeys hsettle
    have ho := (Pool.settle_mem hsettle).2
    have hprogress := h.progress.applyIntent o intent false
    rw [ho] at hprogress
    refine h.move hprogress ⟨queue, hqueue.note _, hids, ?_, hkept horder, ?_⟩
    · rw [Pool.settle_map_fst hsettle, hpool]
    · rw [modelReads_append, hreads, htaken]
      exact List.append_nil _

/-- A worker takes the next thread. -/
theorem Inv.ask (h : Inv deps owed s) (hs : step deps owed s .ask = some s') :
    Inv deps owed s' := by
  have hinv := h.stage
  simp only [step] at hs
  cases hstage : s.stage with
  | resolving pool =>
    rw [hstage] at hs hinv
    obtain ⟨⟨o, pool'⟩, hstart, rfl⟩ := Option.map_eq_some_iff.1 hs
    have htake := Pool.start_eq hstart
    refine h.move h.progress ⟨(Pool.take_map_fst htake).trans hinv.1, hinv.2.1, ?_⟩
    intro p hp hjob
    rcases Pool.mem_take htake hp with hold | rfl
    · exact hinv.2.2 p hold hjob
    · simp at hjob
  | caching pool =>
    rw [hstage] at hs hinv
    obtain ⟨⟨o, pool'⟩, hstart, rfl⟩ := Option.map_eq_some_iff.1 hs
    have htake := Pool.start_eq hstart
    have hfst := Pool.take_map_fst htake
    obtain ⟨hqueue, hreads, hids, hanswered⟩ := hinv
    refine h.move h.progress ⟨by rw [hfst]; exact hqueue, hreads, by rw [hfst]; exact hids, ?_⟩
    intro p hp hdone
    rcases Pool.mem_take htake hp with hold | rfl
    · exact hanswered p hold hdone
    · simp at hdone
  | reading pool =>
    rw [hstage] at hs hinv
    obtain ⟨⟨o, pool'⟩, hstart, rfl⟩ := Option.map_eq_some_iff.1 hs
    have htake := Pool.start_eq hstart
    obtain ⟨queue, hqueue, hids, hpool, horder, hreads⟩ := hinv
    refine h.move (h.progress.note _ (by simp))
      ⟨queue, hqueue.note _, hids, (Pool.take_map_fst htake).trans hpool,
        Pool.take_inOrder htake horder, ?_⟩
    rw [modelReads_append, hreads, Pool.take_taken htake horder, List.map_append]
    rfl
  | finished =>
    rw [hstage] at hs
    cases hs

/-- All calls of a pass have come back. -/
theorem Inv.proceed (hids : (owed.map Obligation.threadId).Nodup) (h : Inv deps owed s)
    (hs : step deps owed s .proceed = some s') : Inv deps owed s' := by
  have hinv := h.stage
  simp only [step] at hs
  cases hstage : s.stage with
  | resolving pool =>
    rw [hstage] at hs hinv
    dsimp only at hs
    split_ifs at hs with hfinished
    cases hs
    obtain ⟨hpool, hreads, hgone⟩ := hinv
    have hsub : (pool.ended Checked.survives).Sublist (pool.map Prod.fst) :=
      Pool.ended_sublist Checked.survives
    rw [hpool] at hsub
    -- Whoever survived the checks is sorted and read; whoever left has a cause.
    refine h.readIntents ⟨sorted_byAge deps _, ?_, ?_⟩ ?_ hreads
    · intro o ho
      exact hsub.subset ((mem_byAge deps).1 ho)
    · intro o ho
      rw [← hpool] at ho
      obtain ⟨p, hp, rfl⟩ := List.mem_map.1 ho
      obtain ⟨ending, hdone⟩ := Pool.done_of_finished hfinished hp
      cases ending with
      | survives =>
        left
        rw [mem_byAge, Pool.mem_ended, ← hdone]
        exact hp
      | leaves => exact .inr ((hgone p hp (.inr hdone)).imp_right .inl)
    · have hperm := (List.perm_insertionSort (olderFirst deps) (pool.ended Checked.survives)).map
        Obligation.threadId
      exact hperm.nodup_iff.2 (hids.sublist (hsub.map _))
  | caching pool =>
    rw [hstage] at hs hinv
    dsimp only at hs
    split_ifs at hs with hfinished
    cases hs
    obtain ⟨hqueue, hreads, hids', hanswered⟩ := hinv
    have hsub : (pool.ended Cached.missed).Sublist (pool.map Prod.fst) :=
      Pool.ended_sublist Cached.missed
    -- Whoever the cache has not answered is read.
    refine h.startReading ⟨hqueue.sorted.sublist hsub, ?_, ?_⟩ (hids'.sublist (hsub.map _)) hreads
    · exact fun o ho => hqueue.sub o (hsub.subset ho)
    · intro o ho
      refine (hqueue.cover o ho).elim ?_ .inr
      intro hmem
      obtain ⟨p, hp, rfl⟩ := List.mem_map.1 hmem
      obtain ⟨ending, hdone⟩ := Pool.done_of_finished hfinished hp
      cases ending with
      | answered => exact .inr (.inr (.inr (hanswered p hp hdone)))
      | missed =>
        left
        rw [Pool.mem_ended, ← hdone]
        exact hp
  | reading pool =>
    rw [hstage] at hs hinv
    dsimp only at hs
    split_ifs at hs
    cases hs
    obtain ⟨queue, hqueue, -, hpool, horder, hreads⟩ := hinv
    -- The readings have ended: what was read is a front part of the queue.
    refine h.move h.progress (.inr ⟨queue, (Pool.taken pool).length, hqueue, ?_, ?_⟩)
    · have hle := (Pool.taken_prefix horder).length_le
      rw [hpool, List.length_take] at hle
      omega
    · have hfront := Pool.taken_prefix horder
      rw [hpool] at hfront
      rw [hreads, List.prefix_iff_eq_take.1 (hfront.trans (List.take_prefix _ _))]
      simp
  | finished =>
    rw [hstage] at hs
    cases hs

theorem Inv.step (hids : (owed.map Obligation.threadId).Nodup) (label : Label)
    (h : Inv deps owed s) (hs : step deps owed s label = some s') : Inv deps owed s' := by
  cases label with
  | ask => exact h.ask hs
  | proceed => exact h.proceed hids hs
  | expire => exact h.finish hs
  | complete =>
    simp only [Obligations.step] at hs
    cases hstage : s.stage with
    | finished =>
      rw [hstage] at hs
      exact h.finish hs
    | _ =>
      rw [hstage] at hs
      cases hs
  | resolved id answer =>
    simp only [Obligations.step] at hs
    cases hstage : s.stage with
    | resolving pool =>
      rw [hstage] at hs
      exact h.onResolved hstage hs
    | _ =>
      rw [hstage] at hs
      cases hs
  | marked id =>
    simp only [Obligations.step] at hs
    cases hstage : s.stage with
    | resolving pool =>
      have hinv := h.stage
      rw [hstage] at hs hinv
      obtain ⟨⟨o, pool'⟩, hsettle, rfl⟩ := Option.map_eq_some_iff.1 hs
      refine h.move h.progress ⟨(Pool.settle_map_fst hsettle).trans hinv.1, hinv.2.1, ?_⟩
      intro p hp hjob
      rcases Pool.mem_settle hsettle hp with hold | ⟨hkey, -⟩
      · exact hinv.2.2 p hold hjob
      · -- its write was under way
        obtain ⟨hmem, ho⟩ := Pool.settle_mem hsettle
        have hgone := hinv.2.2 _ hmem (.inl rfl)
        rw [ho] at hgone
        rw [hkey]
        exact hgone
    | _ =>
      rw [hstage] at hs
      cases hs
  | cached id answer =>
    simp only [Obligations.step] at hs
    cases hstage : s.stage with
    | caching pool =>
      rw [hstage] at hs
      exact h.onCached hstage hs
    | _ =>
      rw [hstage] at hs
      cases hs
  | read id answer =>
    simp only [Obligations.step] at hs
    cases hstage : s.stage with
    | reading pool =>
      rw [hstage] at hs
      exact h.onRead hstage hs
    | _ =>
      rw [hstage] at hs
      cases hs

end Steps

/-! ## Section 5: Selection -/

/-- What selection keeps, dismissals apart. -/
def Found.selection (f : Found κ) : List (Obligation κ) := selectObligations f.snapshots f.now

theorem threadId_of_obligationOf {now : Time} {t : ThreadSnapshot κ} {o : Obligation κ}
    (h : obligationOf now t = some o) : o.threadId = t.threadId := by
  unfold obligationOf at h
  dsimp only at h
  split_ifs at h
  all_goals
    cases h
    rfl

/-- The dismissed threads are no candidates, and nothing else changes. -/
theorem Found.candidates_eq (f : Found κ) :
    f.candidates = f.selection.filter fun o => o.threadId ∉ f.dismissed := by
  have hone : ∀ t : ThreadSnapshot κ,
      obligationOf f.now
          (if t.threadId ∈ f.dismissed then { t with dismissedAt := some f.now } else t) =
        (obligationOf f.now t).filter fun o => o.threadId ∉ f.dismissed := by
    intro t
    by_cases hmem : t.threadId ∈ f.dismissed
    · rw [if_pos hmem]
      have hnone : obligationOf f.now { t with dismissedAt := some f.now } = none := by
        simp [obligationOf]
      rw [hnone]
      cases ho : obligationOf f.now t with
      | none => rfl
      | some o =>
        rw [Option.filter_some, threadId_of_obligationOf ho, if_neg (by simpa using hmem)]
    · rw [if_neg hmem]
      cases ho : obligationOf f.now t with
      | none => rfl
      | some o =>
        rw [Option.filter_some, threadId_of_obligationOf ho, if_pos (by simpa using hmem)]
  have : Std.Total fun a b : Obligation κ => b.ageHours ≤ a.ageHours :=
    ⟨fun a b => Int.le_total b.ageHours a.ageHours⟩
  have : IsTrans (Obligation κ) fun a b => b.ageHours ≤ a.ageHours :=
    ⟨fun _ _ _ hab hbc => Int.le_trans hbc hab⟩
  unfold Found.candidates Found.selection selectObligations
  rw [← StableSort.insertionSort_filter, List.filterMap_map, List.filter_filterMap]
  congr 1
  exact List.filterMap_congr fun t _ => hone t

theorem Found.owed_sublist (f : Found κ) : f.owed.Sublist f.selection := by
  unfold Found.owed dropResolved
  rw [f.candidates_eq]
  exact List.filter_sublist.trans List.filter_sublist

/-- What selection keeps is owed unless it was dismissed or is known to be answered. -/
theorem Found.mem_owed {f : Found κ} {o : Obligation κ} (ho : o ∈ f.selection) :
    o ∈ f.owed ∨ o.threadId ∈ f.dismissed ∨
      ∃ answeredAt, f.resolved.lookup o.threadId = some answeredAt ∧
        o.lastMessageAt < answeredAt := by
  by_cases hdismissed : o.threadId ∈ f.dismissed
  · exact .inr (.inl hdismissed)
  unfold Found.owed dropResolved
  rw [f.candidates_eq, List.mem_filter, List.mem_filter]
  cases hlookup : f.resolved.lookup o.threadId with
  | none => exact .inl ⟨⟨ho, by simpa using hdismissed⟩, rfl⟩
  | some answeredAt =>
    by_cases hlater : o.lastMessageAt < answeredAt
    · exact .inr (.inr ⟨answeredAt, rfl, hlater⟩)
    · exact .inl ⟨⟨ho, by simpa using hdismissed⟩, by simpa using hlater⟩

/-- Distinct threads have distinct obligations. -/
theorem Found.nodup_owed {f : Found κ} (h : (f.snapshots.map ThreadSnapshot.threadId).Nodup) :
    (f.owed.map Obligation.threadId).Nodup := by
  have hkept : ((f.snapshots.filterMap (obligationOf f.now)).map Obligation.threadId).Sublist
      (f.snapshots.map ThreadSnapshot.threadId) := by
    generalize f.snapshots = ts
    induction ts with
    | nil => exact .slnil
    | cons t ts ih =>
      cases ho : obligationOf f.now t with
      | none =>
        rw [List.filterMap_cons_none ho]
        exact ih.cons _
      | some o =>
        rw [List.filterMap_cons_some ho, List.map_cons, List.map_cons,
          threadId_of_obligationOf ho]
        exact ih.cons_cons _
  have hsorted := (List.perm_insertionSort (fun a b : Obligation κ => b.ageHours ≤ a.ageHours)
    (f.snapshots.filterMap (obligationOf f.now))).map Obligation.threadId
  exact (hsorted.nodup_iff.2 (h.sublist hkept)).sublist (f.owed_sublist.map _)

/-! ## Section 6: The radar -/

theorem inv_start (deps : Deps) (owed : List (Obligation κ)) : Inv deps owed (start deps owed) := by
  have hnothing : Decided deps [] ⟨[], [], []⟩ :=
    ⟨fun id h => by simp [foundElsewhere] at h, List.forall_mem_nil _, List.forall_mem_nil _⟩
  by_cases hnone : (!deps.resolve) = true ∧ (!deps.cachedIntent) = true ∧
      (!deps.classifyIntent) = true
  · refine ⟨hnothing, ?_, ?_⟩
    · unfold start
      rw [if_pos hnone]
      exact .inl rfl
    · intro r hr
      simp only [start, if_pos hnone, Option.some.injEq] at hr
      subst hr
      have hclassify : deps.classifyIntent = false := by simpa using hnone.2.2
      refine ⟨?_, ?_, ?_, ?_⟩
      · rw [List.map_map]
        exact (List.map_id owed).symm ▸ List.Sublist.refl _
      · intro o ho hmissing
        rw [List.map_map] at hmissing
        exact absurd (List.mem_map.2 ⟨o, ho, rfl⟩) hmissing
      · intro t _ hfound
        simp [foundElsewhere] at hfound
      · intro t ht
        obtain ⟨o, -, rfl⟩ := List.mem_map.1 ht
        exact .inr (.inr (.inl ⟨hclassify, rfl⟩))
  · refine ⟨hnothing, ?_, ?_⟩
    · unfold start
      rw [if_neg hnone]
      by_cases hresolve : deps.resolve = true
      · rw [if_pos hresolve]
        refine ⟨Pool.map_fst_of _, rfl, ?_⟩
        intro p hp hjob
        rw [(Pool.mem_of hp).2] at hjob
        simp at hjob
      · rw [if_neg hresolve]
        refine ⟨?_, rfl, ?_⟩
        · rw [List.map_map]
          exact List.map_id owed
        · intro p hp hjob
          obtain ⟨o, -, rfl⟩ := List.mem_map.1 hp
          simp at hjob
    · intro r hr
      simp only [start, if_neg hnone, reduceCtorEq] at hr

theorem inv_reachable {deps : Deps} {f : Found κ}
    (h : (f.snapshots.map ThreadSnapshot.threadId).Nodup) {s : State κ}
    (hs : (gatherOpenObligations deps f).Reachable s) : Inv deps f.owed s := by
  apply System.reachable_invariant _ _ _ hs
  · rintro _ rfl
    exact inv_start deps f.owed
  · intro s label t hinv hstep
    exact hinv.step (Found.nodup_owed h) label hstep

/-- What was returned, against what selection keeps. -/
structure Radar (deps : Deps) (f : Found κ) (r : Returned κ) : Prop where
  /-- In the order they are owed. -/
  order : (r.threads.map Listed.obligation).Sublist f.selection
  /-- What is left out was dismissed, is resolved, was answered elsewhere, or has its verdict. -/
  missing : ∀ o ∈ f.selection, o ∉ r.threads.map Listed.obligation →
    o.threadId ∈ f.dismissed ∨
    (∃ answeredAt, f.resolved.lookup o.threadId = some answeredAt ∧
      o.lastMessageAt < answeredAt) ∨
    foundElsewhere r.before o.threadId ∨ verdictDrops r.before o.threadId
  /-- What was answered elsewhere is left out. -/
  found : ∀ t ∈ r.threads, ¬ foundElsewhere r.before t.obligation.threadId
  /-- Without a verdict it says why. -/
  undecided : ∀ t ∈ r.threads, ¬ hasVerdict r.before t.obligation.threadId →
    t.reason = some RESOLUTION_UNVERIFIED_REASON ∨ t.reason = some INTENT_UNREAD_REASON ∨
      deps.classifyIntent = false ∧ t.reason = none

/-- The model reads made so far. -/
structure Reads (f : Found κ) (log : List Event) : Prop where
  atMost : (modelReads log).length ≤ INTENT_MAX_PER_PASS
  oldest : ∀ o ∈ f.owed, o.threadId ∈ modelReads log → ∀ o' ∈ f.owed,
    o'.threadId ∉ modelReads log → ¬ cachedVerdict log o'.threadId →
    ¬ checkFailed log o'.threadId → ¬ foundElsewhere log o'.threadId → o'.ageHours ≤ o.ageHours

theorem radar_of_sound {deps : Deps} {f : Found κ} {r : Returned κ} (h : Sound deps f.owed r) :
    Radar deps f r := by
  refine ⟨h.order.trans f.owed_sublist, ?_, h.found, ?_⟩
  · intro o ho hmissing
    rcases Found.mem_owed ho with howed | hdismissed | hanswered
    · exact .inr (.inr (h.missing o howed hmissing))
    · exact .inl hdismissed
    · exact .inr (.inl hanswered)
  · intro t ht hnone
    rcases h.reasons t ht with hr | hr | hr | hverdict
    · exact .inl hr
    · exact .inr (.inl hr)
    · exact .inr (.inr hr)
    · exact absurd hverdict hnone

/-- A front part of the queue is what has been read. -/
theorem reads_of_queue {f : Found κ} {log : List Event} {queue : List (Obligation κ)}
    (hids : (f.owed.map Obligation.threadId).Nodup) (hqueue : Queue f.owed log queue) {k : Nat}
    (hk : k ≤ INTENT_MAX_PER_PASS)
    (hreads : modelReads log = (queue.take k).map Obligation.threadId) : Reads f log := by
  constructor
  · rw [hreads, List.length_map, List.length_take]
    omega
  · intro o ho hread o' ho' hunread hcached hfailed hfound
    rw [hreads] at hread hunread
    obtain ⟨a, ha, hid⟩ := List.mem_map.1 hread
    have hao : a = o :=
      List.inj_on_of_nodup_map hids (hqueue.sub a (List.mem_of_mem_take ha)) ho hid
    have hin : o' ∈ queue := by
      rcases hqueue.cover o' ho' with hin | h | h | h
      · exact hin
      · exact absurd h hfailed
      · exact absurd h hfound
      · exact absurd h hcached
    have hlater : o' ∈ queue.drop k := by
      rw [← List.take_append_drop k queue, List.mem_append] at hin
      exact hin.resolve_left fun h => hunread (List.mem_map_of_mem h)
    have hsorted := hqueue.sorted
    rw [← List.take_append_drop k queue, List.pairwise_append] at hsorted
    rw [← hao]
    exact hsorted.2.2 a ha o' hlater

theorem reads_of_inv {deps : Deps} {f : Found κ} (hids : (f.owed.map Obligation.threadId).Nodup)
    {s : State κ} (h : Inv deps f.owed s) : Reads f s.log := by
  have hnone : modelReads s.log = [] → Reads f s.log := by
    intro hreads
    constructor
    · rw [hreads]
      exact Nat.zero_le _
    · intro o _ hread
      rw [hreads] at hread
      cases hread
  have hinv := h.stage
  cases hstage : s.stage with
  | resolving pool =>
    rw [hstage] at hinv
    exact hnone hinv.2.1
  | caching pool =>
    rw [hstage] at hinv
    exact hnone hinv.2.1
  | reading pool =>
    rw [hstage] at hinv
    obtain ⟨queue, hqueue, -, hpool, horder, hreads⟩ := hinv
    have hfront := Pool.taken_prefix horder
    rw [hpool] at hfront
    have hle := hfront.length_le
    rw [List.length_take] at hle
    apply reads_of_queue hids hqueue (k := (Pool.taken pool).length) (by omega)
    rw [hreads, ← List.prefix_iff_eq_take.1 (hfront.trans (List.take_prefix _ _))]
  | finished =>
    rw [hstage] at hinv
    rcases hinv with hreads | ⟨queue, k, hqueue, hk, hreads⟩
    · exact hnone hreads
    · exact reads_of_queue hids hqueue hk hreads

/-- **An obligation leaves the radar only on a positive finding**, and the model reads go to the
    oldest threads that the check has let through. -/
theorem gatherOpenObligations_radar (deps : Deps) (f : Found κ)
    (h : (f.snapshots.map ThreadSnapshot.threadId).Nodup) (s : State κ)
    (hs : (gatherOpenObligations deps f).Reachable s) :
    Reads f s.log ∧ ∀ r, s.returned = some r → Radar deps f r := by
  have hinv := inv_reachable h hs
  exact ⟨reads_of_inv (Found.nodup_owed h) hinv, fun r hr => radar_of_sound (hinv.returned r hr)⟩

/-! Two threads, of which the older one cannot be checked. -/

def waiting (id : ThreadId) (hours : Int) : ThreadSnapshot Unit where
  threadId := id
  lastMessageAt := -hours * 3600000
  lastSpeakerIsThem := true
  addressedToHim := true
  isAutomated := false
  isDeadlineCandidate := false
  theirUnansweredCount := 1
  dismissedAt := none
  carried := ()

def twoThreads : Found Unit := ⟨[waiting ['a'] 72, waiting ['b'] 50], [], [], 0⟩

def checkAndRead (markResolved classifyIntent : Bool) : Deps :=
  ⟨true, markResolved, false, classifyIntent, fun _ _ => 0⟩

/-- The check of `a` throws, that of `b` finds nothing, and `b` is read. -/
def failedCheck : List Label :=
  [.ask, .ask, .resolved ['a'] .threw, .resolved ['b'] (.gave ⟨false, []⟩), .proceed, .ask,
    .read ['b'] (.gave .expectsReply), .proceed, .complete]

/-- `a` is found answered, and `b` is read. -/
def foundCheck : List Label :=
  [.ask, .ask, .resolved ['a'] (.gave ⟨true, []⟩), .resolved ['b'] (.gave ⟨false, []⟩), .proceed,
    .ask, .read ['b'] (.gave .expectsReply), .proceed, .complete]

/-- `a` is found answered, and the budget is spent while that is being written. -/
def lateWrite : List Label :=
  [.ask, .ask, .resolved ['a'] (.gave ⟨true, []⟩), .resolved ['b'] (.gave ⟨false, []⟩), .expire]

/-- Both checks find nothing, and nobody reads. -/
def nobodyReads : List Label :=
  [.ask, .ask, .resolved ['a'] (.gave ⟨false, []⟩), .resolved ['b'] (.gave ⟨false, []⟩), .proceed,
    .complete]

def stateAfter (deps : Deps) (labels : List Label) : State Unit :=
  ((gatherOpenObligations deps twoThreads).run (start deps twoThreads.owed) labels).getD
    (start deps twoThreads.owed)

theorem reachable_after (deps : Deps) (labels : List Label)
    (h : ((gatherOpenObligations deps twoThreads).run
      (start deps twoThreads.owed) labels).isSome = true) :
    (gatherOpenObligations deps twoThreads).Reachable (stateAfter deps labels) := by
  refine ⟨start deps twoThreads.owed, labels, rfl, ?_⟩
  obtain ⟨s, hs⟩ := Option.isSome_iff_exists.1 h
  unfold stateAfter
  rw [hs]
  rfl

theorem gatherOpenObligations_radar_lateWrite :
    Reads twoThreads (stateAfter (checkAndRead false true) failedCheck).log ∧
    (stateAfter (checkAndRead false true) failedCheck).log =
      [.checkFailed ['a'], .modelRead ['b'], .verdict ['b'] .expectsReply false] ∧
    ∃ r, (stateAfter (checkAndRead true true) lateWrite).returned = some r ∧
      r.threads = [⟨⟨['b'], -180000000, 50, false, 1, ()⟩, some RESOLUTION_UNVERIFIED_REASON⟩] ∧
      r.before = [.foundElsewhere ['a']] ∧ Radar (checkAndRead true true) twoThreads r := by
  have hfailed := gatherOpenObligations_radar (checkAndRead false true) twoThreads (by decide) _
    (reachable_after _ failedCheck rfl)
  have hlate := gatherOpenObligations_radar (checkAndRead true true) twoThreads (by decide) _
    (reachable_after _ lateWrite rfl)
  exact ⟨hfailed.1, by decide, _, rfl, rfl, rfl, hlate.2 _ rfl⟩

/-- The model reads go to the oldest threads that nobody has read, wherever the check stands. -/
def OldestFirst (f : Found κ) (log : List Event) : Prop :=
  ∀ o ∈ f.owed, o.threadId ∈ modelReads log → ∀ o' ∈ f.owed,
    o'.threadId ∉ modelReads log → ¬ cachedVerdict log o'.threadId → o'.ageHours ≤ o.ageHours

/-- What nobody could decide says so. -/
def UndecidedSaysSo (r : Returned κ) : Prop :=
  ∀ t ∈ r.threads, ¬ hasVerdict r.before t.obligation.threadId →
    t.reason = some RESOLUTION_UNVERIFIED_REASON ∨ t.reason = some INTENT_UNREAD_REASON

/-- The older thread was neither read nor answered from the cache. -/
theorem not_oldestFirst {log : List Event} (hread : ['b'] ∈ modelReads log)
    (hunread : ['a'] ∉ modelReads log) (hcached : ¬ cachedVerdict log ['a']) :
    ¬ OldestFirst twoThreads log := by
  intro hfirst
  have howed : twoThreads.owed = [⟨['a'], -259200000, 72, false, 1, ()⟩,
      ⟨['b'], -180000000, 50, false, 1, ()⟩] := by decide
  unfold OldestFirst at hfirst
  rw [howed] at hfirst
  have hage := hfirst ⟨['b'], -180000000, 50, false, 1, ()⟩ (by simp) hread
    ⟨['a'], -259200000, 72, false, 1, ()⟩ (by simp) hunread hcached
  simp at hage

/-- A thread whose check failed, or that was found answered, is passed over for a younger one, and
    where nobody reads nothing is said. -/
theorem radar_exceptions :
    (∃ s, (gatherOpenObligations (checkAndRead false true) twoThreads).Reachable s ∧
      checkFailed s.log ['a'] ∧ ¬ OldestFirst twoThreads s.log) ∧
    (∃ s, (gatherOpenObligations (checkAndRead false true) twoThreads).Reachable s ∧
      foundElsewhere s.log ['a'] ∧ ¬ OldestFirst twoThreads s.log) ∧
    ∃ s r, (gatherOpenObligations (checkAndRead false false) twoThreads).Reachable s ∧
      s.returned = some r ∧ ¬ UndecidedSaysSo r := by
  have hreturned : (stateAfter (checkAndRead false false) nobodyReads).returned =
      some ⟨[⟨⟨['a'], -259200000, 72, false, 1, ()⟩, none⟩,
        ⟨⟨['b'], -180000000, 50, false, 1, ()⟩, none⟩], []⟩ := rfl
  refine ⟨⟨_, reachable_after _ failedCheck rfl, ?_⟩, ⟨_, reachable_after _ foundCheck rfl, ?_⟩,
    _, _, reachable_after _ nobodyReads rfl, hreturned, ?_⟩
  · have hlog : (stateAfter (checkAndRead false true) failedCheck).log =
        [.checkFailed ['a'], .modelRead ['b'], .verdict ['b'] .expectsReply false] := by decide
    rw [hlog]
    exact ⟨by simp [checkFailed], not_oldestFirst (by decide) (by decide) (by simp [cachedVerdict])⟩
  · have hlog : (stateAfter (checkAndRead false true) foundCheck).log =
        [.foundElsewhere ['a'], .modelRead ['b'], .verdict ['b'] .expectsReply false] := by decide
    rw [hlog]
    exact ⟨by simp [foundElsewhere],
      not_oldestFirst (by decide) (by decide) (by simp [cachedVerdict])⟩
  · intro hsays
    have hreason := hsays ⟨⟨['a'], -259200000, 72, false, 1, ()⟩, none⟩ (List.mem_cons_self ..)
      (by simp [hasVerdict])
    simp at hreason

end Lares.Obligations
