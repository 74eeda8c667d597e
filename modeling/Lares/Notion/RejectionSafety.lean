import Lares.Notion.Rejection
import Mathlib

/-! # What a closed rejection stands for

    * **Calls**: what a block of calls for one proposal can do to the queue and the
      pages, composed along the branch.
    * **Proposals**: a close follows a revert, a decline or a freeze; a patch leaves
      a page that its open proposals still describe.
    * **Runs**: the pages keep matching the open proposals that were patched, so none
      of these is superseded.
-/

namespace Lares.Notion.Rejection

open Translate (Text assertPushSafe)

variable {Hash : Type}

/-! ## Section 1: The log -/

def Landed (log : List Entry) (call : Call) (id : Nat) : Prop :=
  ∃ e ∈ log, e.call = call ∧ e.id = id

def TookEffect (log : List Entry) (call : Call) (id : Nat) : Prop :=
  ∃ e ∈ log, e.call = call ∧ e.id = id ∧ 0 < e.rows

/-- Reverted from the vault, declined, or frozen. -/
def CarriedOut (log : List Entry) (id : Nat) : Prop :=
  (Landed log .patchPageMarkdown id ∧ Landed log .updateDocProps id ∧ Landed log .readBack id) ∨
    Landed log .recordNotionAccounted id ∨ Landed log .updateNotionWatermark id ∨
      TookEffect log .freezeDoc id

/-- A patch of a proposal, then the word that it was not reverted. -/
def Contradicts (e f : Entry) : Prop :=
  e.call = .patchPageMarkdown ∧ (f.call = .supersede ∨ f.call = .notReverted) ∧ e.id = f.id

/-- In the log of each tick, what is closed was carried out; over all of them, no
    patched proposal is superseded. -/
structure Faithful (ticks : List (List Entry)) : Prop where
  closed : ∀ log ∈ ticks, ∀ id, TookEffect log .markProposalReverted id → CarriedOut log id
  superseded : ticks.flatten.Pairwise fun e f => ¬ Contradicts e f

theorem Landed.mono {a b : List Entry} {call : Call} {id : Nat} (h : Landed a call id)
    (hsub : ∀ e ∈ a, e ∈ b) : Landed b call id := by
  obtain ⟨e, he, hcall⟩ := h
  exact ⟨e, hsub e he, hcall⟩

theorem landed_append {a b : List Entry} {call : Call} {id : Nat} :
    Landed (a ++ b) call id ↔ Landed a call id ∨ Landed b call id := by
  simp only [Landed, List.mem_append, or_and_right, exists_or]

theorem CarriedOut.mono {a b : List Entry} {id : Nat} (h : CarriedOut a id)
    (hsub : ∀ e ∈ a, e ∈ b) : CarriedOut b id := by
  rcases h with ⟨hpatch, hprops, hread⟩ | h | h | ⟨e, he, hcall⟩
  · exact .inl ⟨hpatch.mono hsub, hprops.mono hsub, hread.mono hsub⟩
  · exact .inr (.inl (h.mono hsub))
  · exact .inr (.inr (.inl (h.mono hsub)))
  · exact .inr (.inr (.inr ⟨e, hsub e he, hcall⟩))

/-! ## Section 2: What calls for one proposal do -/

/-- Proposals can close, no other than this one; only a patch changes a page. -/
structure Write.Own (w : Write Hash) (id : Nat) : Prop where
  pages : ∀ {s s' n}, w.write s = some (s', n) → w.call ≠ .patchPageMarkdown → s'.pages = s.pages
  closes : ∀ {s s' n}, w.write s = some (s', n) →
    ∀ q ∈ getRejectedUnexecuted s', q ∈ getRejectedUnexecuted s
  others : ∀ {s s' n}, w.write s = some (s', n) →
    ∀ q ∈ getRejectedUnexecuted s, q.id ≠ id → q ∈ getRejectedUnexecuted s'

/-- The block of calls that leads from one pass to another. -/
structure Makes (id : Nat) (pass pass' : Pass Hash) (block : List Entry) : Prop where
  /-- It is added to the log. -/
  log : pass'.log = pass.log ++ block
  /-- It is about this proposal only. -/
  own : ∀ e ∈ block, e.id = id
  /-- Only a patch changes a page. -/
  pages : (∀ e ∈ block, e.call ≠ .patchPageMarkdown) → pass'.store.pages = pass.store.pages
  /-- No proposal is opened again. -/
  closes : ∀ q ∈ getRejectedUnexecuted pass'.store, q ∈ getRejectedUnexecuted pass.store
  /-- The others stay open. -/
  others : ∀ q ∈ getRejectedUnexecuted pass.store, q.id ≠ id →
    q ∈ getRejectedUnexecuted pass'.store

theorem Makes.count (pass : Pass Hash) (id : Nat) (f : Counts → Counts) :
    Makes id pass (pass.count f) [] where
  log := (List.append_nil _).symm
  own := by simp
  pages := fun _ => rfl
  closes := fun _ h => h
  others := fun _ h _ => h

theorem Makes.trans {id : Nat} {pass pass' pass'' : Pass Hash} {a b : List Entry}
    (ha : Makes id pass pass' a) (hb : Makes id pass' pass'' b) : Makes id pass pass'' (a ++ b) where
  log := by rw [hb.log, ha.log, List.append_assoc]
  own := by
    intro e he
    rcases List.mem_append.1 he with he | he
    · exact ha.own e he
    · exact hb.own e he
  pages := by
    intro h
    rw [hb.pages fun e he => h e (List.mem_append_right a he),
      ha.pages fun e he => h e (List.mem_append_left b he)]
  closes := fun q hq => ha.closes q (hb.closes q hq)
  others := fun q hq hne => hb.others q (ha.others q hq hne) hne

/-- The block of one call: it is there when the call landed. -/
structure Made (id : Nat) (w : Write Hash) (pass pass' : Pass Hash) (block : List Entry) : Prop
    extends Makes id pass pass' block where
  calls : ∀ e ∈ block, e.call = w.call ∧ w.outcome.lands = true
  lands : ∀ {store n}, w.outcome.lands = true → w.write pass.store = some (store, n) →
    block = [⟨w.call, id, n⟩] ∧ pass'.store = store

theorem made_make {w : Write Hash} {id : Nat} (hw : w.Own id) (pass : Pass Hash) :
    ∃ block, Made id w pass (pass.make id w).1 block ∧
      ((pass.make id w).2 = true → w.outcome = .done ∧ Landed block w.call id) := by
  have hnil : Makes id pass pass [] := Makes.count pass id fun n => n
  unfold Pass.make
  split
  · next hlands =>
    cases hwrite : w.write pass.store with
    | none => exact ⟨[], ⟨hnil, by simp, by simp [hwrite]⟩, by simp⟩
    | some out =>
      obtain ⟨store, n⟩ := out
      have hmakes : Makes id pass { pass with store, log := pass.log ++ [⟨w.call, id, n⟩] }
          [⟨w.call, id, n⟩] := by
        refine ⟨rfl, by simp, fun h => ?_, hw.closes hwrite, hw.others hwrite⟩
        exact hw.pages hwrite (h _ (List.mem_singleton_self _))
      refine ⟨_, ⟨hmakes, ?_, ?_⟩, fun h =>
        ⟨of_decide_eq_true h, _, List.mem_singleton_self _, rfl, rfl⟩⟩
      · intro e he
        rw [List.mem_singleton.1 he]
        exact ⟨rfl, hlands⟩
      · intro store' n' _ heq
        rw [hwrite] at heq
        cases heq
        exact ⟨rfl, rfl⟩
  · next hlands =>
    exact ⟨[], ⟨hnil, by simp, fun h => absurd h hlands⟩, by simp⟩

theorem make_done (w : Write Hash) (pass : Pass Hash) (id : Nat) {store : Store Hash} {n : Nat}
    (hwrite : w.write pass.store = some (store, n)) :
    (pass.make id w).2 = decide (w.outcome = .done) := by
  unfold Pass.make
  rw [hwrite]
  cases w.outcome <;> rfl

theorem made_tryRecord {w : Write Hash} {id : Nat} (hw : w.Own id) (pass : Pass Hash) :
    ∃ block, Made id w pass (pass.tryRecord id [w]) block := by
  obtain ⟨block, hmade, _⟩ := made_make hw pass
  refine ⟨block, ?_⟩
  unfold Pass.tryRecord
  dsimp only
  split
  · exact hmade
  · refine ⟨?_, hmade.calls, hmade.lands⟩
    have htrans := hmade.toMakes.trans (Makes.count (pass.make id w).1 id fun n =>
      { n with bookkeepingFailed := n.bookkeepingFailed + 1 })
    rwa [List.append_nil] at htrans

theorem own_of_queue {w : Write Hash} {id : Nat}
    (h : ∀ s s' n, w.write s = some (s', n) → s'.queue = s.queue ∧ s'.pages = s.pages) :
    w.Own id where
  pages := fun hwrite _ => (h _ _ _ hwrite).2
  closes := by
    intro s s' n hwrite q hq
    rwa [getRejectedUnexecuted, (h s s' n hwrite).1] at hq
  others := by
    intro s s' n hwrite q hq _
    rwa [getRejectedUnexecuted, (h s s' n hwrite).1]

/-- A proposal that is not of this id stays; one of this id can only close. -/
theorem own_of_mapQueue {call : Call} {outcome : Outcome} {id : Nat} {f : Proposal Hash → Proposal Hash}
    {hf : ∀ p, (f p).id = p.id} {n : Store Hash → Nat} (hkeep : ∀ p, p.id ≠ id → f p = p)
    (hclose : ∀ p, p.id = id → (f p).unexecuted = true → f p = p) :
    Write.Own ⟨call, outcome, fun s => some (s.mapQueue f hf, n s)⟩ id where
  pages := by
    intro s s' n hwrite _
    cases hwrite
    rfl
  closes := by
    intro s s' n hwrite q hq
    cases hwrite
    obtain ⟨hmem, hopen⟩ := List.mem_filter.1 hq
    obtain ⟨p, hp, rfl⟩ := List.mem_map.1 hmem
    have hsame : f p = p := by
      by_cases hid : p.id = id
      · exact hclose p hid hopen
      · exact hkeep p hid
    rw [hsame] at hopen ⊢
    exact List.mem_filter.2 ⟨hp, hopen⟩
  others := by
    intro s s' n hwrite q hq hne
    cases hwrite
    obtain ⟨hmem, hopen⟩ := List.mem_filter.1 hq
    exact List.mem_filter.2 ⟨List.mem_map.2 ⟨q, hmem, hkeep q hne⟩, hopen⟩

theorem own_mark (answers : Answers) (id : Nat) :
    (answers.mark id : Write Hash).Own id := by
  apply own_of_mapQueue
  · intro p hne
    exact if_neg fun h => hne h.1
  · intro p _ hopen
    split at hopen
    · simp [Proposal.unexecuted] at hopen
    · next h => exact if_neg h

theorem own_supersede (outcome : Outcome) (id : Nat) :
    Write.Own (⟨.supersede, outcome, setProposalState id .superseded⟩ : Write Hash) id := by
  apply own_of_mapQueue
  · intro p hne
    exact if_neg hne
  · intro p hid hopen
    rw [if_pos hid] at hopen
    simp [Proposal.unexecuted] at hopen

theorem own_unchanged (call : Call) (outcome : Outcome) (id : Nat) :
    Write.Own (⟨call, outcome, unchanged⟩ : Write Hash) id := by
  apply own_of_queue
  intro s s' n hwrite
  cases hwrite
  exact ⟨rfl, rfl⟩

theorem own_updateWhere {call : Call} {outcome : Outcome} {id : Nat}
    {write : Store Hash → Option (Store Hash × Nat)}
    (h : ∀ s out, write s = some out → ∃ rows, out.1 = s.setRows rows) :
    Write.Own ⟨call, outcome, write⟩ id := by
  apply own_of_queue
  intro s s' n hwrite
  obtain ⟨rows, hrows⟩ := h s _ hwrite
  dsimp only at hrows
  subst hrows
  exact ⟨rfl, rfl⟩

theorem own_patch (outcome : Outcome) (id : Nat) (pageId stored : Text) :
    Write.Own
      (⟨.patchPageMarkdown, outcome, fun s => some (s.setPage pageId stored, 0)⟩ : Write Hash)
      id where
  pages := fun _ h => absurd rfl h
  closes := by
    intro s s' n hwrite q hq
    cases hwrite
    exact hq
  others := by
    intro s s' n hwrite q hq _
    cases hwrite
    exact hq

/-! ## Section 3: Branches -/

theorem own_recordDocError (outcome : Outcome) (vaultPath : Text) (id : Nat) :
    Write.Own (⟨.recordDocError, outcome, recordDocError vaultPath⟩ : Write Hash) id := by
  apply own_updateWhere
  intro s out hwrite
  cases hwrite
  exact ⟨_, rfl⟩

theorem own_freezeDoc (outcome : Outcome) (vaultPath : Text) (id : Nat) :
    Write.Own (⟨.freezeDoc, outcome, freezeDoc vaultPath⟩ : Write Hash) id := by
  apply own_updateWhere
  intro s out hwrite
  cases hwrite
  exact ⟨_, rfl⟩

theorem own_updateNotionWatermark (outcome : Outcome) (vaultPath : Text) (notionHash : Hash)
    (notionLastEdited : Option Text) (id : Nat) :
    Write.Own ⟨.updateNotionWatermark, outcome,
      updateNotionWatermark vaultPath notionHash notionLastEdited⟩ id := by
  apply own_updateWhere
  intro s out hwrite
  cases hwrite
  exact ⟨_, rfl⟩

theorem own_recordNotionAccounted (outcome : Outcome) (pageId : Text) (notionHash : Hash)
    (id : Nat) : Write.Own ⟨.recordNotionAccounted, outcome,
      recordNotionAccounted pageId notionHash⟩ id := by
  apply own_updateWhere
  intro s out hwrite
  unfold recordNotionAccounted at hwrite
  dsimp only at hwrite
  split at hwrite
  · cases hwrite
  · cases hwrite
    exact ⟨_, rfl⟩

theorem own_upsertDocSynced (outcome : Outcome) (doc : DocSyncedInput Hash) (id : Nat) :
    Write.Own ⟨.upsertDocSynced, outcome, upsertDocSynced doc⟩ id := by
  apply own_updateWhere
  intro s out hwrite
  unfold upsertDocSynced at hwrite
  dsimp only at hwrite
  split at hwrite
  · cases hwrite
    exact ⟨_, rfl⟩
  · split at hwrite
    · cases hwrite
    · cases hwrite
      exact ⟨_, rfl⟩

theorem fail_spec (answers : Answers) (pass : Pass Hash) (p : Proposal Hash) (dryRun : Bool) :
    ∃ block, Makes p.id pass (pass.fail answers p dryRun) block ∧
      ∀ e ∈ block, e.call = .recordDocError := by
  unfold Pass.fail
  dsimp only
  have hcount := Makes.count pass p.id fun n => { n with errored := n.errored + 1 }
  split
  · exact ⟨[], hcount, by simp⟩
  · obtain ⟨block, hmade⟩ := made_tryRecord
      (own_recordDocError answers.recordDocError p.vaultPath p.id)
      (pass.count fun n => { n with errored := n.errored + 1 })
    exact ⟨block, hcount.trans hmade.toMakes, fun e he => (hmade.calls e he).1⟩

/-- The close comes after the record in one block. -/
theorem decline_spec (answers : Answers) (pass : Pass Hash) (p : Proposal Hash) (dryRun : Bool)
    {record : Write Hash} (hrecord : record.Own p.id) :
    ∃ block, Makes p.id pass (pass.decline answers p dryRun record) block ∧
      (∀ e ∈ block, e.call = record.call ∨ e.call = .markProposalReverted) ∧
      ((∃ e ∈ block, e.call ≠ record.call) → Landed block record.call p.id) := by
  unfold Pass.decline
  dsimp only
  have hcount := Makes.count pass p.id fun n => { n with declined := n.declined + 1 }
  split
  · exact ⟨[], hcount, by simp, by simp⟩
  · obtain ⟨a, hmade, hdone⟩ := made_make hrecord
      (pass.count fun n => { n with declined := n.declined + 1 })
    unfold Pass.tryRecord
    dsimp only
    split
    · next h =>
      obtain ⟨b, hmark⟩ := made_tryRecord (own_mark answers p.id)
        ((pass.count fun n => { n with declined := n.declined + 1 }).make p.id record).1
      refine ⟨a ++ b, (hcount.trans hmade.toMakes).trans hmark.toMakes, ?_, fun _ => ?_⟩
      · intro e he
        rcases List.mem_append.1 he with he | he
        · exact .inl (hmade.calls e he).1
        · exact .inr (hmark.calls e he).1
      · exact (hdone h).2.mono fun e he => List.mem_append_left b he
    · refine ⟨a, ?_, fun e he => .inl (hmade.calls e he).1, ?_⟩
      · have htrans := (hcount.trans hmade.toMakes).trans (Makes.count _ p.id fun n =>
          { n with bookkeepingFailed := n.bookkeepingFailed + 1 })
        rwa [List.append_nil] at htrans
      · rintro ⟨e, he, hne⟩
        exact absurd (hmade.calls e he).1 hne

theorem supersede_spec (answers : Answers) (pass : Pass Hash) (p : Proposal Hash)
    (dryRun : Bool) : ∃ block, Makes p.id pass (pass.supersede answers p dryRun) block ∧
      ∀ e ∈ block, e.call = .supersede ∨ e.call = .notReverted := by
  unfold Pass.supersede
  dsimp only
  have hcount := Makes.count pass p.id fun n => { n with superseded := n.superseded + 1 }
  split
  · exact ⟨[], hcount, by simp⟩
  · obtain ⟨a, hclose⟩ := made_tryRecord (own_supersede answers.setProposalState p.id)
      (pass.count fun n => { n with superseded := n.superseded + 1 })
    obtain ⟨b, hnotice, _⟩ := made_make (own_unchanged .notReverted answers.notify p.id)
      ((pass.count fun n => { n with superseded := n.superseded + 1 }).tryRecord p.id
        [⟨.supersede, answers.setProposalState, setProposalState p.id .superseded⟩])
    refine ⟨a ++ b, (hcount.trans hclose.toMakes).trans hnotice.toMakes, ?_⟩
    intro e he
    rcases List.mem_append.1 he with he | he
    · exact .inl (hclose.calls e he).1
    · exact .inr (hnotice.calls e he).1

theorem closed_mark {answers : Answers} {id : Nat} {pass pass' : Pass Hash} {block : List Entry}
    (h : Made id (answers.mark id) pass pass' block)
    (hlands : answers.markProposalReverted.lands = true) :
    ∀ q ∈ getRejectedUnexecuted pass'.store, q.id ≠ id := by
  intro q hq hid
  have hstore := (h.lands hlands rfl).2
  rw [hstore] at hq
  obtain ⟨hmem, hopen⟩ := List.mem_filter.1 hq
  obtain ⟨p, _, rfl⟩ := List.mem_map.1 hmem
  split at hopen
  · simp [Proposal.unexecuted] at hopen
  · next h =>
    rw [if_neg h] at hid
    exact h ⟨hid, hopen⟩

/-- The freeze and the close fail apart. -/
theorem freeze_spec (answers : Answers) (pass : Pass Hash) (p : Proposal Hash) :
    ∃ block, Makes p.id pass (pass.freeze answers p) block ∧
      (∀ e ∈ block, e.call = .freezeDoc ∨
        e.call = .markProposalReverted ∧ answers.markProposalReverted.lands = true) ∧
      (answers.freezeDoc.lands = true → (∃ row ∈ pass.store.rows, isDoc p.vaultPath row = true) →
        TookEffect block .freezeDoc p.id) ∧
      (answers.markProposalReverted.lands = true →
        ∀ q ∈ getRejectedUnexecuted (pass.freeze answers p).store, q.id ≠ p.id) := by
  have hcount := Makes.count pass p.id fun n => { n with frozen := n.frozen + 1 }
  obtain ⟨a, hfreeze⟩ := made_tryRecord (own_freezeDoc answers.freezeDoc p.vaultPath p.id)
    (pass.count fun n => { n with frozen := n.frozen + 1 })
  obtain ⟨b, hmark⟩ := made_tryRecord (own_mark answers p.id)
    ((pass.count fun n => { n with frozen := n.frozen + 1 }).tryRecord p.id
      [⟨.freezeDoc, answers.freezeDoc, freezeDoc p.vaultPath⟩])
  refine ⟨a ++ b, (hcount.trans hfreeze.toMakes).trans hmark.toMakes, ?_, ?_, closed_mark hmark⟩
  · intro e he
    rcases List.mem_append.1 he with he | he
    · exact .inl (hfreeze.calls e he).1
    · exact .inr (hmark.calls e he)
  · rintro hlands ⟨row, hrow, hdoc⟩
    have hblock := (hfreeze.lands hlands rfl).1
    refine ⟨_, List.mem_append_left b (by rw [hblock]; exact List.mem_singleton_self _), rfl, rfl,
      List.countP_pos_iff.2 ⟨row, hrow, hdoc⟩⟩

/-- Only what was patched, stamped and read is closed. -/
theorem settle_spec (answers : Answers) (pass : Pass Hash) (p : Proposal Hash)
    (sha256 : Text → Hash) (row : Row Hash) (rendered : RenderedDoc) :
    ∃ block, Makes p.id pass (pass.settle answers p sha256 row rendered) block ∧
      (∀ e ∈ block, e.call ∈ [.updateDocProps, .readBack, .upsertDocSynced, .recordDocError,
        Call.markProposalReverted]) ∧
      (Landed block .markProposalReverted p.id →
        Landed block .updateDocProps p.id ∧ Landed block .readBack p.id) ∧
      (answers.updateDocProps = .done → answers.readBack = true →
        answers.markProposalReverted.lands = true →
        ∀ q ∈ getRejectedUnexecuted (pass.settle answers p sha256 row rendered).store,
          q.id ≠ p.id) := by
  obtain ⟨a, hprops, hdone⟩ :=
    made_make (own_unchanged .updateDocProps answers.updateDocProps p.id) pass
  have hreturns := make_done ⟨.updateDocProps, answers.updateDocProps, unchanged⟩ pass
    p.id rfl
  unfold Pass.settle
  dsimp only at hdone hreturns ⊢
  -- Each call adds its own block; the block of the whole is their concatenation.
  generalize pass.make p.id ⟨.updateDocProps, answers.updateDocProps, unchanged⟩ = props at *
  have hfail : ∀ e ∈ a, e.call = .updateDocProps := fun e he => (hprops.calls e he).1
  split
  · next hreturned =>
    obtain ⟨-, hlanded⟩ := hdone hreturned
    split
    · next hread =>
      -- The props are written and the page read back: the row is stored and the proposal marked.
      have hcount := fun pass : Pass Hash =>
        Makes.count pass p.id fun n => { n with reverted := n.reverted + 1 }
      obtain ⟨b, hback, _⟩ := made_make (own_unchanged .readBack .done p.id) props.1
      have hbackBlock := (hback.lands rfl rfl).1
      generalize (props.1.make p.id ⟨.readBack, .done, unchanged⟩).1 = read at *
      obtain ⟨c, hupsert⟩ := made_tryRecord (own_upsertDocSynced answers.upsertDocSynced
        ⟨p.vaultPath, p.notionPageId, docRenderHash sha256 rendered,
          sha256 (props.1.store.pages p.notionPageId), row.notionLastEdited, row.direction⟩ p.id)
        (read.count fun n => { n with reverted := n.reverted + 1 })
      generalize (read.count fun n => { n with reverted := n.reverted + 1 }).tryRecord p.id
        [⟨.upsertDocSynced, answers.upsertDocSynced, upsertDocSynced
          ⟨p.vaultPath, p.notionPageId, docRenderHash sha256 rendered,
            sha256 (props.1.store.pages p.notionPageId), row.notionLastEdited,
            row.direction⟩⟩] = synced at *
      obtain ⟨d, hmark⟩ := made_tryRecord (own_mark answers p.id) synced
      refine ⟨a ++ b ++ c ++ d, ?_, ?_, fun _ => ⟨?_, ?_⟩, fun _ _ => closed_mark hmark⟩
      · have hread := (hprops.toMakes.trans hback.toMakes).trans (hcount read)
        rw [List.append_nil] at hread
        exact (hread.trans hupsert.toMakes).trans hmark.toMakes
      · intro e he
        simp only [List.mem_append] at he
        rcases he with ((he | he) | he) | he
        · simp [hfail e he]
        · simp [(hback.calls e he).1]
        · simp [(hupsert.calls e he).1]
        · rw [(hmark.calls e he).1]
          simp [Answers.mark]
      · exact hlanded.mono fun e he => by simp [he]
      · exact ⟨⟨.readBack, p.id, 0⟩, by simp [hbackBlock], rfl, rfl⟩
    · next hread =>
      -- The page cannot be read: an error is recorded, and the proposal stays open.
      obtain ⟨b, hmakes, hcalls⟩ := fail_spec answers props.1 p false
      refine ⟨a ++ b, hprops.toMakes.trans hmakes, ?_, ?_, fun _ h => absurd h hread⟩
      · intro e he
        rcases List.mem_append.1 he with he | he
        · simp [hfail e he]
        · simp [hcalls e he]
      · rintro ⟨e, he, hcall, -⟩
        rcases List.mem_append.1 he with he | he
        · rw [hfail e he] at hcall
          cases hcall
        · rw [hcalls e he] at hcall
          cases hcall
  · next hreturned =>
    -- The props are not written: the same.
    obtain ⟨b, hmakes, hcalls⟩ := fail_spec answers props.1 p false
    refine ⟨a ++ b, hprops.toMakes.trans hmakes, ?_, ?_, fun h => ?_⟩
    · intro e he
      rcases List.mem_append.1 he with he | he
      · simp [hfail e he]
      · simp [hcalls e he]
    · rintro ⟨e, he, hcall, -⟩
      rcases List.mem_append.1 he with he | he
      · rw [hfail e he] at hcall
        cases hcall
      · rw [hcalls e he] at hcall
        cases hcall
    · rw [hreturns] at hreturned
      exact absurd (decide_eq_true h) hreturned

/-! ## Section 4: One proposal -/

/-- The proposal is closed once its patch was sent. -/
def Closes (answers : Answers) : Prop :=
  answers.markProposalReverted.lands = true ∧
    (answers.patch = .done ∧ answers.updateDocProps = .done ∧ answers.readBack = true ∨
      answers.patch ≠ .done ∧ isChildContentError answers.patchError = true)

/-- A freeze that changes a row, when Notion keeps the children and the proposal is closed. -/
def Freezes (answers : Answers) (s : Store Hash) (p : Proposal Hash) : Prop :=
  answers.patch ≠ .done → isChildContentError answers.patchError = true →
    answers.markProposalReverted.lands = true →
      answers.freezeDoc.lands = true ∧ ∃ row ∈ s.rows, isDoc p.vaultPath row = true

/-- The patch itself, with what it has left of the page. -/
structure Patched (answers : Answers) (pass sent : Pass Hash) (p : Proposal Hash) (a : List Entry) :
    Prop extends Makes p.id pass sent a where
  calls : ∀ e ∈ a, e.call = .patchPageMarkdown ∧ answers.patch.lands = true
  lands : answers.patch.lands = true →
    sent.store.pages = (pass.store.setPage p.notionPageId answers.stored).pages
  rows : sent.store.rows = pass.store.rows

/-- What a revert leads to that gets as far as its patch. -/
structure PatchOk (answers : Answers) (pass after : Pass Hash) (p : Proposal Hash)
    (block : List Entry) : Prop extends Makes p.id pass after block where
  /-- It is not taken for a page that has moved on. -/
  calls : ∀ e ∈ block, e.call ≠ .supersede ∧ e.call ≠ .notReverted
  /-- It is closed only when it was carried out. -/
  closed : Freezes answers pass.store p → Landed block .markProposalReverted p.id →
    CarriedOut block p.id
  /-- A patch that has landed is on the page. -/
  patched : Landed block .patchPageMarkdown p.id → answers.patch.lands = true ∧
    after.store.pages = (pass.store.setPage p.notionPageId answers.stored).pages
  /-- Whatever can be closed is. -/
  settled : Closes answers → ∀ q ∈ getRejectedUnexecuted after.store, q.id ≠ p.id

namespace Patched

variable {answers : Answers} {pass sent after : Pass Hash} {p : Proposal Hash} {a b : List Entry}

/-- What follows the patch leaves the page as the patch did. -/
theorem page (h : Patched answers pass sent p a) (hmakes : Makes p.id sent after b)
    (hother : ∀ e ∈ b, e.call ≠ .patchPageMarkdown)
    (hlanded : Landed (a ++ b) .patchPageMarkdown p.id) : answers.patch.lands = true ∧
      after.store.pages = (pass.store.setPage p.notionPageId answers.stored).pages := by
  obtain ⟨e, he, hcall, -⟩ := hlanded
  rcases List.mem_append.1 he with he | he
  · have hland := (h.calls e he).2
    exact ⟨hland, by rw [hmakes.pages hother, h.lands hland]⟩
  · exact absurd hcall (hother e he)

theorem calls_append (h : Patched answers pass sent p a)
    (hother : ∀ e ∈ b, e.call ≠ .supersede ∧ e.call ≠ .notReverted) :
    ∀ e ∈ a ++ b, e.call ≠ .supersede ∧ e.call ≠ .notReverted := by
  intro e he
  rcases List.mem_append.1 he with he | he
  · rw [(h.calls e he).1]
    exact ⟨by decide, by decide⟩
  · exact hother e he

/-- The patch closes nothing. -/
theorem mark (h : Patched answers pass sent p a)
    (hlanded : Landed (a ++ b) .markProposalReverted p.id) :
    Landed b .markProposalReverted p.id := by
  obtain ⟨e, he, hcall, hid⟩ := hlanded
  rcases List.mem_append.1 he with he | he
  · rw [(h.calls e he).1] at hcall
    cases hcall
  · exact ⟨e, he, hcall, hid⟩

theorem settle (h : Patched answers pass sent p a) (sha256 : Text → Hash) (row : Row Hash)
    (rendered : RenderedDoc) (hdone : answers.patch = .done)
    (hlanded : Landed a .patchPageMarkdown p.id) :
    ∃ block, PatchOk answers pass (sent.settle answers p sha256 row rendered) p block := by
  obtain ⟨b, hmakes, hb, hmark, hclosed⟩ := settle_spec answers sent p sha256 row rendered
  have hother : ∀ call, call ∉ [.updateDocProps, .readBack, .upsertDocSynced, .recordDocError,
      Call.markProposalReverted] → ∀ e ∈ b, e.call ≠ call := by
    intro call hcall e he heq
    exact hcall (heq ▸ hb e he)
  refine ⟨a ++ b, h.toMakes.trans hmakes, h.calls_append fun e he =>
    ⟨hother _ (by decide) e he, hother _ (by decide) e he⟩, fun _ hmarked => ?_,
    h.page hmakes (hother _ (by decide)), ?_⟩
  · obtain ⟨hprops, hread⟩ := hmark (h.mark hmarked)
    exact .inl ⟨hlanded.mono fun e he => List.mem_append_left b he,
      hprops.mono fun e he => List.mem_append_right a he,
      hread.mono fun e he => List.mem_append_right a he⟩
  · rintro ⟨hmarks, ⟨-, hprops, hread⟩ | ⟨hne, -⟩⟩
    · exact hclosed hprops hread hmarks
    · exact absurd hdone hne

theorem freeze (h : Patched answers pass sent p a) (hne : answers.patch ≠ .done)
    (hchild : isChildContentError answers.patchError = true) :
    ∃ block, PatchOk answers pass (sent.freeze answers p) p block := by
  obtain ⟨b, hmakes, hb, hfrozen, hclosed⟩ := freeze_spec answers sent p
  have hcalls : ∀ e ∈ b, e.call = .freezeDoc ∨ e.call = .markProposalReverted :=
    fun e he => (hb e he).imp_right And.left
  refine ⟨a ++ b, h.toMakes.trans hmakes, h.calls_append fun e he => ?_,
    fun hfreezes hmarked => ?_, h.page hmakes fun e he => ?_, fun hcloses => hclosed hcloses.1⟩
  · rcases hcalls e he with hcall | hcall <;> simp [hcall]
  · obtain ⟨e, he, hcall, -⟩ := h.mark hmarked
    have hmarks : answers.markProposalReverted.lands = true := by
      rcases hb e he with hfreeze | ⟨-, hmarks⟩
      · rw [hcall] at hfreeze
        cases hfreeze
      · exact hmarks
    obtain ⟨hland, hrow⟩ := hfreezes hne hchild hmarks
    rw [← h.rows] at hrow
    obtain ⟨f, hf, heffect⟩ := hfrozen hland hrow
    exact .inr (.inr (.inr ⟨f, List.mem_append_right a hf, heffect⟩))
  · rcases hcalls e he with hcall | hcall <;> simp [hcall]

theorem fail (h : Patched answers pass sent p a) (hne : answers.patch ≠ .done)
    (hchild : ¬isChildContentError answers.patchError = true) :
    ∃ block, PatchOk answers pass (sent.fail answers p false) p block := by
  obtain ⟨b, hmakes, hb⟩ := fail_spec answers sent p false
  refine ⟨a ++ b, h.toMakes.trans hmakes, h.calls_append fun e he => by simp [hb e he],
    fun _ hmarked => ?_, h.page hmakes fun e he => by simp [hb e he], ?_⟩
  · obtain ⟨e, he, hcall, -⟩ := h.mark hmarked
    rw [hb e he] at hcall
    cases hcall
  · rintro ⟨-, ⟨hdone, -⟩ | ⟨-, hkept⟩⟩
    · exact absurd hdone hne
    · exact absurd hkept hchild

end Patched

theorem patch_spec (answers : Answers) (pass : Pass Hash) (p : Proposal Hash)
    (sha256 : Text → Hash) (row : Row Hash) (rendered : RenderedDoc) :
    ∃ block, PatchOk answers pass (pass.patch answers p sha256 row rendered) p block := by
  obtain ⟨a, hpatch, hdone⟩ := made_make
    (own_patch answers.patch p.id p.notionPageId answers.stored) pass
  have hreturns := make_done ⟨.patchPageMarkdown, answers.patch, fun s =>
    some (s.setPage p.notionPageId answers.stored, 0)⟩ pass p.id rfl
  unfold Pass.patch
  dsimp only at hdone hreturns ⊢
  have hrows : (pass.make p.id ⟨.patchPageMarkdown, answers.patch, fun s =>
      some (s.setPage p.notionPageId answers.stored, 0)⟩).1.store.rows = pass.store.rows := by
    unfold Pass.make
    split <;> rfl
  generalize pass.make p.id ⟨.patchPageMarkdown, answers.patch, fun s =>
    some (s.setPage p.notionPageId answers.stored, 0)⟩ = patched at *
  have hpatched : Patched answers pass patched.1 p a :=
    ⟨hpatch.toMakes, hpatch.calls, fun hland => by rw [(hpatch.lands hland rfl).2], hrows⟩
  split
  · next hreturned =>
    obtain ⟨hdone, hlanded⟩ := hdone hreturned
    exact hpatched.settle sha256 row rendered hdone hlanded
  · next hreturned =>
    have hne : answers.patch ≠ .done := by
      intro h
      rw [hreturns] at hreturned
      exact hreturned (decide_eq_true h)
    split
    · next hchild => exact hpatched.freeze hne hchild
    · next hchild => exact hpatched.fail hne hchild

section Execute

variable [DecidableEq Hash] (sha256 : Text → Hash) (tick : Tick Hash) (pass : Pass Hash)
  (p : Proposal Hash)

/-- The revert gets as far as its patch. -/
structure Reverts : Prop where
  /-- Only a page that exists can be reverted. -/
  kind : p.kind = .update
  /-- The vault may write to it. -/
  row : ∃ row, tick.rows p.vaultPath = some row ∧ engineMayWrite row = true ∧
    notionOwns row.direction = false
  /-- The note renders, and is safe to push. -/
  render : ∃ rendered, (tick.answers p.id).render = some rendered ∧
    assertPushSafe rendered.markdown = .ok ()
  /-- The page can be read. -/
  read : (tick.answers p.id).preCheckRead = true
  /-- Nobody has touched it since. -/
  same : sha256 (pass.store.pages p.notionPageId) = p.notionHash
  /-- It is no dry run. -/
  real : tick.dryRun = false

/-- What one rejected proposal leads to. -/
structure Executed (block : List Entry) : Prop
    extends Makes p.id pass (tick.step sha256 pass p) block where
  /-- It is closed only when it was carried out. -/
  closed : (Reverts sha256 tick pass p → Freezes (tick.answers p.id) pass.store p) →
    Landed block .markProposalReverted p.id → CarriedOut block p.id
  /-- A patch that has landed was a revert, and is on the page. -/
  patched : Landed block .patchPageMarkdown p.id → Reverts sha256 tick pass p ∧
    (tick.answers p.id).patch.lands = true ∧ (tick.step sha256 pass p).store.pages =
      (pass.store.setPage p.notionPageId (tick.answers p.id).stored).pages
  /-- Whatever can be closed is. -/
  settled : Reverts sha256 tick pass p → Closes (tick.answers p.id) →
    ∀ q ∈ getRejectedUnexecuted (tick.step sha256 pass p).store, q.id ≠ p.id
  /-- It is called superseded only when the page has moved on. -/
  differs : (∃ e ∈ block, e.call = .supersede ∨ e.call = .notReverted) →
    sha256 (pass.store.pages p.notionPageId) ≠ p.notionHash

variable {sha256 tick pass p}

/-- Nothing but these calls, where no patch is reached. -/
theorem executed_quiet {block : List Entry} (calls : List Call)
    (hmakes : Makes p.id pass (tick.step sha256 pass p) block)
    (hcalls : ∀ e ∈ block, e.call ∈ calls) (hreverts : ¬ Reverts sha256 tick pass p)
    (hpatch : Call.patchPageMarkdown ∉ calls)
    (hmark : Landed block .markProposalReverted p.id → CarriedOut block p.id)
    (hdiffers : Call.supersede ∈ calls ∨ Call.notReverted ∈ calls →
      sha256 (pass.store.pages p.notionPageId) ≠ p.notionHash) :
    Executed sha256 tick pass p block where
  toMakes := hmakes
  closed := fun _ => hmark
  patched := by
    rintro ⟨e, he, hcall, -⟩
    exact absurd (hcall ▸ hcalls e he) hpatch
  settled := fun h => absurd h hreverts
  differs := by
    rintro ⟨e, he, hcall | hcall⟩
    · exact hdiffers (.inl (hcall ▸ hcalls e he))
    · exact hdiffers (.inr (hcall ▸ hcalls e he))

/-- A decline closes after its record. -/
theorem executed_decline {record : Write Hash} (hrecord : record.Own p.id)
    (hcall : record.call = .recordNotionAccounted ∨ record.call = .updateNotionWatermark)
    (hreverts : ¬ Reverts sha256 tick pass p)
    (hstep : tick.step sha256 pass p = pass.decline (tick.answers p.id) p tick.dryRun record) :
    ∃ block, Executed sha256 tick pass p block := by
  obtain ⟨block, hmakes, hcalls, hmark⟩ :=
    decline_spec (tick.answers p.id) pass p tick.dryRun hrecord
  rw [← hstep] at hmakes
  have hne : record.call ≠ .patchPageMarkdown ∧ record.call ≠ .supersede ∧
      record.call ≠ .notReverted ∧ record.call ≠ .markProposalReverted := by
    rcases hcall with h | h
    all_goals
      rw [h]
      decide
  refine ⟨block, executed_quiet [record.call, .markProposalReverted] hmakes ?_ hreverts
    ?_ ?_ ?_⟩
  · intro e he
    simpa using hcalls e he
  · simp [hne.1.symm]
  · rintro ⟨e, he, hmarked, -⟩
    have hlanded := hmark ⟨e, he, by rw [hmarked]; exact hne.2.2.2.symm⟩
    rcases hcall with h | h
    · exact .inr (.inl (h ▸ hlanded))
    · exact .inr (.inr (.inl (h ▸ hlanded)))
  · rintro (h | h)
    · simp [hne.2.1.symm] at h
    · simp [hne.2.2.1.symm] at h

theorem executed_count {f : Counts → Counts} (hreverts : ¬ Reverts sha256 tick pass p)
    (hstep : tick.step sha256 pass p = pass.count f) :
    ∃ block, Executed sha256 tick pass p block := by
  have hmakes := Makes.count pass p.id f
  rw [← hstep] at hmakes
  refine ⟨[], executed_quiet [] hmakes (by simp) hreverts (by simp) ?_ (by simp)⟩
  rintro ⟨e, he, -⟩
  cases he

theorem executed_fail (hreverts : ¬ Reverts sha256 tick pass p)
    (hstep : tick.step sha256 pass p = pass.fail (tick.answers p.id) p tick.dryRun) :
    ∃ block, Executed sha256 tick pass p block := by
  obtain ⟨block, hmakes, hcalls⟩ := fail_spec (tick.answers p.id) pass p tick.dryRun
  rw [← hstep] at hmakes
  refine ⟨block, executed_quiet [.recordDocError] hmakes ?_ hreverts (by decide) ?_
    (by simp)⟩
  · intro e he
    simp [hcalls e he]
  · rintro ⟨e, he, hmarked, -⟩
    rw [hcalls e he] at hmarked
    cases hmarked

theorem executed_revert {row : Row Hash} (hkind : p.kind = .update)
    (hrow : tick.rows p.vaultPath = some row) (hmay : engineMayWrite row = true)
    (howns : notionOwns row.direction = false)
    (hstep : tick.step sha256 pass p =
      pass.revert (tick.answers p.id) p sha256 tick.dryRun row) :
    ∃ block, Executed sha256 tick pass p block := by
  unfold Pass.revert at hstep
  cases hrender : (tick.answers p.id).render with
  | none =>
    rw [hrender] at hstep
    -- Nothing to write: the render throws.
    refine executed_fail (fun h => ?_) hstep
    obtain ⟨rendered, h, -⟩ := h.render
    rw [hrender] at h
    cases h
  | some rendered =>
    rw [hrender] at hstep
    dsimp only at hstep
    have hsafe : Reverts sha256 tick pass p → assertPushSafe rendered.markdown = .ok () := by
      intro h
      obtain ⟨rendered', h, hok⟩ := h.render
      rw [hrender] at h
      cases h
      exact hok
    cases hassert : assertPushSafe rendered.markdown with
    | error refusal =>
      rw [hassert] at hstep hsafe
      -- What it renders is not safe to push.
      exact executed_fail (fun h => by cases hsafe h) hstep
    | ok u =>
      rw [hassert] at hstep
      dsimp only at hstep
      split at hstep
      · next hread =>
        split at hstep
        · next hne =>
          -- The page has moved on since the proposal: superseded.
          obtain ⟨block, hmakes, hcalls⟩ :=
            supersede_spec (tick.answers p.id) pass p tick.dryRun
          rw [← hstep] at hmakes
          refine ⟨block, executed_quiet [.supersede, .notReverted] hmakes ?_
            (fun h => hne h.same) (by decide) ?_ fun _ => hne⟩
          · intro e he
            simpa using hcalls e he
          · rintro ⟨e, he, hmarked, -⟩
            rcases hcalls e he with h | h
            all_goals
              rw [hmarked] at h
              cases h
        · next hsame =>
          split at hstep
          · next hdry =>
            -- A dry run only counts.
            refine executed_count (fun h => ?_) hstep
            rw [h.real] at hdry
            cases hdry
          · next hdry =>
            -- Here the page is patched, and every condition of `Reverts` is met.
            obtain ⟨block, hok⟩ := patch_spec (tick.answers p.id) pass p sha256 row rendered
            rw [← hstep] at hok
            have hreverts : Reverts sha256 tick pass p :=
              ⟨hkind, ⟨row, hrow, hmay, howns⟩, ⟨rendered, hrender, hassert⟩, hread,
                not_not.1 hsame, Bool.eq_false_iff.2 hdry⟩
            refine ⟨block, hok.toMakes, fun h => hok.closed (h hreverts),
              fun h => ⟨hreverts, hok.patched h⟩, fun _ => hok.settled, ?_⟩
            rintro ⟨e, he, h | h⟩
            · exact absurd h (hok.calls e he).1
            · exact absurd h (hok.calls e he).2
      · -- The page cannot be read.
        next hread => exact executed_fail (fun h => hread h.read) hstep

theorem execute_spec (sha256 : Text → Hash) (tick : Tick Hash) (pass : Pass Hash)
    (p : Proposal Hash) : ∃ block, Executed sha256 tick pass p block := by
  have hstep : tick.step sha256 pass p =
    pass.execute (tick.answers p.id) p sha256 tick.dryRun tick.rows := rfl
  unfold Pass.execute at hstep
  split at hstep
  · next hkind =>
    exact executed_decline (own_recordNotionAccounted ..) (.inl rfl)
      (fun h => by rw [h.kind] at hkind; cases hkind) hstep
  · next hkind =>
    have hupdate : p.kind = .update := by
      cases h : p.kind with
      | update => rfl
      | create => exact absurd h hkind
    split at hstep
    · next hnone =>
      refine executed_count (fun h => ?_) hstep
      obtain ⟨row, hrow, -⟩ := h.row
      rw [hnone] at hrow
      cases hrow
    · next row hrow =>
      have hunique : Reverts sha256 tick pass p →
          engineMayWrite row = true ∧ notionOwns row.direction = false := by
        intro h
        obtain ⟨row', h, hmay⟩ := h.row
        rw [hrow] at h
        cases h
        exact hmay
      split at hstep
      · next hmay =>
        split at hstep
        · next howns =>
          refine executed_decline (own_updateNotionWatermark ..) (.inr rfl) (fun h => ?_) hstep
          rw [(hunique h).2] at howns
          cases howns
        · next howns =>
          exact executed_revert hupdate hrow hmay (Bool.eq_false_iff.2 howns) hstep
      · next hmay => exact executed_count (fun h => hmay (hunique h).1) hstep

end Execute

/-! ## Section 5: Runs -/

section Runs

variable [DecidableEq Hash] (sha256 : Text → Hash)

/-- What Notion makes of the patch is what each open proposal of the page describes,
    when that proposal was patched before or stays open now. -/
def KeepsPage (before : List Entry) (answers : Answers) (s : Store Hash) (p : Proposal Hash) :
    Prop :=
  answers.patch.lands = true →
    ∀ q ∈ getRejectedUnexecuted s, q.notionPageId = p.notionPageId →
      (q.id = p.id ∧ ¬ Closes answers ∨
        q.id ≠ p.id ∧ Landed before .patchPageMarkdown q.id) →
        sha256 answers.stored = q.notionHash

/-- A patch that is reached ends in a freeze that holds, or leaves a page that matches. -/
def Sound (before : List Entry) (tick : Tick Hash) (pass : Pass Hash) (p : Proposal Hash) : Prop :=
  Reverts sha256 tick pass p → Freezes (tick.answers p.id) pass.store p ∧
    KeepsPage sha256 (before ++ pass.log) (tick.answers p.id) pass.store p

def SoundLoop (before : List Entry) (tick : Tick Hash) : Pass Hash → List (Proposal Hash) → Prop
  | _, [] => True
  | pass, p :: ps =>
      Sound sha256 before tick pass p ∧ SoundLoop before tick (tick.step sha256 pass p) ps

/-- Nobody edits the page of a rejection whose patch has landed. -/
def Untouched (before : List Entry) (s s' : Store Hash) : Prop :=
  ∀ q ∈ getRejectedUnexecuted s', Landed before .patchPageMarkdown q.id →
    q ∈ getRejectedUnexecuted s ∧ s'.pages q.notionPageId = s.pages q.notionPageId

def SoundRun : History Hash → List (Event Hash) → Prop
  | _, [] => True
  | h, event :: events =>
      (match event with
        | .tick tick =>
            SoundLoop sha256 h.ticks.flatten tick (.start h.store) (rejectedOf h.store)
        | .between store => Untouched h.ticks.flatten h.store store) ∧
      SoundRun (h.step sha256 event) events

/-- Open proposals that were patched describe their page. -/
def Matching (before : List Entry) (s : Store Hash) : Prop :=
  ∀ q ∈ getRejectedUnexecuted s, Landed before .patchPageMarkdown q.id →
    sha256 (s.pages q.notionPageId) = q.notionHash

structure LoopOk (before : List Entry) (pass : Pass Hash) : Prop where
  /-- The log and the store say the same. -/
  matching : Matching sha256 (before ++ pass.log) pass.store
  /-- Nothing is reverted and superseded. -/
  superseded : (before ++ pass.log).Pairwise fun e f => ¬ Contradicts e f
  /-- Whatever was closed was carried out. -/
  closed : ∀ id, TookEffect pass.log .markProposalReverted id → CarriedOut pass.log id

variable {sha256} {before : List Entry} {tick : Tick Hash} {pass : Pass Hash} {p : Proposal Hash}
  {block : List Entry}

omit [DecidableEq Hash] in
theorem eq_of_id {s : Store Hash} {p q : Proposal Hash} (hp : p ∈ getRejectedUnexecuted s)
    (hq : q ∈ getRejectedUnexecuted s) (h : q.id = p.id) : q = p :=
  List.inj_on_of_nodup_map s.nodup (List.mem_of_mem_filter hq) (List.mem_of_mem_filter hp) h

theorem matching_step (h : Matching sha256 (before ++ pass.log) pass.store)
    (hp : p ∈ getRejectedUnexecuted pass.store) (hsound : Sound sha256 before tick pass p)
    (hexec : Executed sha256 tick pass p block) :
    Matching sha256 (before ++ (tick.step sha256 pass p).log) (tick.step sha256 pass p).store := by
  intro q hq hlanded
  have hopen := hexec.closes q hq
  rw [hexec.log, ← List.append_assoc, landed_append] at hlanded
  by_cases hpatch : Landed block .patchPageMarkdown p.id
  · obtain ⟨hreverts, hlands, hpages⟩ := hexec.patched hpatch
    obtain ⟨-, hkeeps⟩ := hsound hreverts
    rw [hpages]
    by_cases hpage : q.notionPageId = p.notionPageId
    · change sha256 (if q.notionPageId = p.notionPageId then _ else _) = _
      rw [if_pos hpage]
      refine hkeeps hlands q hopen hpage ?_
      by_cases hid : q.id = p.id
      · exact .inl ⟨hid, fun hcloses => hexec.settled hreverts hcloses q hq hid⟩
      · refine .inr ⟨hid, hlanded.resolve_right ?_⟩
        rintro ⟨e, he, -, heid⟩
        exact hid (heid.symm.trans (hexec.own e he))
    · change sha256 (if q.notionPageId = p.notionPageId then _ else _) = _
      rw [if_neg hpage]
      refine h q hopen (hlanded.resolve_right ?_)
      rintro ⟨e, he, -, heid⟩
      exact hpage (by rw [eq_of_id hp hopen (heid.symm.trans (hexec.own e he))])
  · have hnone : ∀ e ∈ block, e.call ≠ .patchPageMarkdown :=
      fun e he hcall => hpatch ⟨e, he, hcall, hexec.own e he⟩
    rw [hexec.pages hnone]
    refine h q hopen (hlanded.resolve_right ?_)
    rintro ⟨e, he, hcall, -⟩
    exact hnone e he hcall

theorem superseded_step (h : LoopOk sha256 before pass)
    (hp : p ∈ getRejectedUnexecuted pass.store) (hexec : Executed sha256 tick pass p block) :
    (before ++ (tick.step sha256 pass p).log).Pairwise fun e f => ¬ Contradicts e f := by
  rw [hexec.log, ← List.append_assoc, List.pairwise_append]
  have hlate : ∀ e f, f ∈ block → Contradicts e f →
      ¬ Landed (before ++ pass.log ++ block) .patchPageMarkdown p.id := by
    rintro e f hf ⟨-, hcall, -⟩ hlanded
    have hne := hexec.differs ⟨f, hf, hcall⟩
    rcases landed_append.1 hlanded with hlanded | hlanded
    · exact hne (h.matching p hp hlanded)
    · exact hne (hexec.patched hlanded).1.same
  refine ⟨h.superseded, ?_, ?_⟩
  · refine List.pairwise_of_forall_mem_list fun e he f hf hcontra => ?_
    exact hlate e f hf hcontra ⟨e, List.mem_append_right _ he, hcontra.1, hexec.own e he⟩
  · intro e he f hf hcontra
    exact hlate e f hf hcontra
      ⟨e, List.mem_append_left _ he, hcontra.1, hcontra.2.2.trans (hexec.own f hf)⟩

theorem LoopOk.step (h : LoopOk sha256 before pass) (hp : p ∈ getRejectedUnexecuted pass.store)
    (hsound : Sound sha256 before tick pass p) (hexec : Executed sha256 tick pass p block) :
    LoopOk sha256 before (tick.step sha256 pass p) where
  matching := matching_step h.matching hp hsound hexec
  superseded := superseded_step h hp hexec
  closed := by
    rintro id ⟨e, he, hcall, hid, hrows⟩
    rw [hexec.log] at he ⊢
    rcases List.mem_append.1 he with he | he
    · exact (h.closed id ⟨e, he, hcall, hid, hrows⟩).mono fun e he => List.mem_append_left block he
    · have hown := hexec.own e he
      have hdone := hexec.closed (fun hreverts => (hsound hreverts).1) ⟨e, he, hcall, hown⟩
      rw [← hid, hown]
      exact hdone.mono fun e he => List.mem_append_right pass.log he

theorem LoopOk.loop (h : LoopOk sha256 before pass) (ps : List (Proposal Hash))
    (hps : ∀ p ∈ ps, p ∈ getRejectedUnexecuted pass.store) (hids : (ids ps).Nodup)
    (hsound : SoundLoop sha256 before tick pass ps) :
    LoopOk sha256 before (ps.foldl (tick.step sha256) pass) := by
  induction ps generalizing pass with
  | nil => exact h
  | cons p ps ih =>
    obtain ⟨hfirst, hrest⟩ := hsound
    obtain ⟨hnot, hids⟩ := List.nodup_cons.1 hids
    obtain ⟨block, hexec⟩ := execute_spec sha256 tick pass p
    refine ih (h.step (hps p List.mem_cons_self) hfirst hexec) ?_ hids hrest
    intro q hq
    refine hexec.others q (hps q (List.mem_cons_of_mem p hq)) ?_
    intro hid
    exact hnot (hid ▸ List.mem_map_of_mem hq)

theorem runApplySync_ok {s : Store Hash} (hmatch : Matching sha256 before s)
    (hsuper : before.Pairwise fun e f => ¬ Contradicts e f)
    (hsound : SoundLoop sha256 before tick (.start s) (rejectedOf s)) :
    LoopOk sha256 before (runApplySync sha256 tick s) := by
  have hperm : (rejectedOf s).Perm (getRejectedUnexecuted s) := List.perm_insertionSort _ _
  have hstart : LoopOk sha256 before (.start s) := by
    refine ⟨?_, ?_, ?_⟩
    · rwa [Pass.start, List.append_nil]
    · rwa [Pass.start, List.append_nil]
    · rintro id ⟨e, he, -⟩
      cases he
  refine hstart.loop (rejectedOf s) (fun p hp => hperm.mem_iff.1 hp) ?_ hsound
  have hnodup : (ids (getRejectedUnexecuted s)).Nodup :=
    s.nodup.sublist (List.filter_sublist.map Proposal.id)
  exact (hperm.map Proposal.id).nodup_iff.2 hnodup

theorem history_ok {h : History Hash} (hfaithful : Faithful h.ticks)
    (hmatch : Matching sha256 h.ticks.flatten h.store) (events : List (Event Hash))
    (hsound : SoundRun sha256 h events) : Faithful (h.run sha256 events).ticks := by
  induction events generalizing h with
  | nil => exact hfaithful
  | cons event events ih =>
    obtain ⟨hfirst, hrest⟩ := hsound
    cases event with
    | tick tick =>
      have hok := runApplySync_ok hmatch hfaithful.superseded hfirst
      have hflatten : (h.ticks ++ [(runApplySync sha256 tick h.store).log]).flatten =
          h.ticks.flatten ++ (runApplySync sha256 tick h.store).log := by simp
      refine ih (h := h.step sha256 (.tick tick)) ⟨?_, ?_⟩ ?_ hrest
      · intro log hlog
        rcases List.mem_append.1 hlog with hlog | hlog
        · exact hfaithful.closed log hlog
        · rw [List.mem_singleton.1 hlog]
          exact hok.closed
      · change (h.ticks ++ [(runApplySync sha256 tick h.store).log]).flatten.Pairwise _
        rw [hflatten]
        exact hok.superseded
      · change Matching sha256 (h.ticks ++ [(runApplySync sha256 tick h.store).log]).flatten _
        rw [hflatten]
        exact hok.matching
    | between store =>
      refine ih (h := h.step sha256 (.between store)) hfaithful ?_ hrest
      intro q hq hlanded
      obtain ⟨hopen, hpage⟩ := hfirst q hq hlanded
      change sha256 (store.pages q.notionPageId) = _
      rw [hpage]
      exact hmatch q hopen hlanded

/-- From any store, whatever fails and whatever happens between the ticks. -/
theorem rejections_faithful (s : Store Hash) (events : List (Event Hash))
    (hsound : SoundRun sha256 ⟨s, []⟩ events) :
    Faithful (History.run sha256 ⟨s, []⟩ events).ticks := by
  refine history_ok ⟨by simp, by simp⟩ ?_ events hsound
  rintro q - ⟨e, he, -⟩
  cases he

end Runs

/-! ## Section 6: Half-done reverts -/

/-- A page of the desk with one rejected edit. -/
def desk : Store Text where
  rows := [⟨some ['a'], ['p'], .docs, .twoWay, none, some ['o'], none, .synced, 0⟩]
  queue := [⟨1, ['a'], ['p'], ['e'], .update, .rejected, false⟩]
  pages := fun _ => ['e']
  nodup := by decide

/-- Nothing fails. -/
def allDone : Answers where
  render := some ⟨['v'], ⟨['n'], []⟩⟩
  preCheckRead := true
  readBack := true
  patch := .done
  patchError := []
  stored := ['v']
  updateDocProps := .done
  recordNotionAccounted := .done
  updateNotionWatermark := .done
  upsertDocSynced := .done
  freezeDoc := .done
  recordDocError := .done
  markProposalReverted := .done
  setProposalState := .done
  notify := .done

def deskTick (answers : Answers) : Event Text :=
  .tick ⟨false, getLinkedRows desk, fun _ => answers⟩

def deskRun (answers : List Answers) : List (List Entry) :=
  (History.run (fun text => text) ⟨desk, []⟩ (answers.map deskTick)).ticks

/-- The patch fails. -/
def patchRefused : Answers := { allDone with patch := .refused }

/-- Notion keeps a child page. -/
def childKept : Answers := { patchRefused with patchError := ['c', 'h', 'i', 'l', 'd'] }

/-- The first tick leaves the rejection open, the second one freezes the page. -/
theorem rejections_faithful_desk :
    deskRun [patchRefused, childKept] =
      [[⟨.recordDocError, 1, 1⟩], [⟨.freezeDoc, 1, 1⟩, ⟨.markProposalReverted, 1, 1⟩]] ∧
    Faithful (deskRun [patchRefused, childKept]) := by
  refine ⟨rfl, rejections_faithful desk [deskTick patchRefused, deskTick childKept]
    ⟨⟨fun _ => ⟨?_, ?_⟩, trivial⟩, ⟨fun _ => ⟨?_, ?_⟩, trivial⟩, trivial⟩⟩
  · exact fun _ hchild => absurd hchild (by decide)
  · exact fun hlands => absurd hlands (by decide)
  · exact fun _ _ _ => ⟨rfl, _, List.mem_cons_self, rfl⟩
  · exact fun hlands => absurd hlands (by decide)

/-- Notion keeps a child page, and the freeze fails. -/
def unfrozen : Answers :=
  { allDone with
    patch := .refused
    patchError := ['c', 'h', 'i', 'l', 'd']
    freezeDoc := .refused }

/-- The patch lands, and the properties fail. -/
def halfDone : Answers := { allDone with updateDocProps := .refused }

/-- The first rejection is closed though nothing was done; the second is superseded
    after its patch, by the next tick. -/
theorem rejections_unfaithful :
    (∃ log ∈ deskRun [unfrozen], TookEffect log .markProposalReverted 1 ∧ ¬ CarriedOut log 1) ∧
    (∃ e ∈ (deskRun [halfDone, allDone]).flatten, ∃ f ∈ (deskRun [halfDone, allDone]).flatten,
      Contradicts e f ∧ f.call = .notReverted) ∧
    ¬ Faithful (deskRun [unfrozen]) ∧ ¬ Faithful (deskRun [halfDone, allDone]) := by
  have hunfrozen : deskRun [unfrozen] = [[⟨.markProposalReverted, 1, 1⟩]] := rfl
  have hhalf : deskRun [halfDone, allDone] =
      [[⟨.patchPageMarkdown, 1, 0⟩, ⟨.recordDocError, 1, 1⟩],
        [⟨.supersede, 1, 1⟩, ⟨.notReverted, 1, 0⟩]] := rfl
  have hclosed : ¬ CarriedOut [⟨.markProposalReverted, 1, 1⟩] 1 := by
    simp [CarriedOut, Landed, TookEffect]
  have heffect : TookEffect [⟨.markProposalReverted, 1, 1⟩] .markProposalReverted 1 :=
    ⟨_, List.mem_singleton_self _, rfl, rfl, by decide⟩
  rw [hunfrozen, hhalf]
  refine ⟨⟨_, List.mem_singleton_self _, heffect, hclosed⟩,
    ⟨⟨.patchPageMarkdown, 1, 0⟩, by simp, ⟨.notReverted, 1, 0⟩, by simp, ⟨rfl, .inr rfl, rfl⟩, rfl⟩,
    fun h => hclosed (h.closed _ (List.mem_singleton_self _) 1 heffect), fun h => ?_⟩
  have hpairs := h.superseded
  simp [Contradicts] at hpairs

end Lares.Notion.Rejection
