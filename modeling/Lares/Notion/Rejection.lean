import Lares.Notion.Translate
import Mathlib

/-! # How a rejection is carried out

    The second loop of the apply pass, with its dependencies: the state rows, the
    queue of proposals and the pages in Notion.

    * **Calls**: each one is answered, refused, or carried out with its answer lost.
      What took effect is logged, with the number of rows it changed.
    * **Branches**: a create and a row that Notion owns are declined, every other
      update is reverted from the vault.
-/

namespace Lares.Notion.Rejection

open Translate (Text assertPushSafe)

variable {Hash : Type}

/-! ## Section 1: The store -/

inductive DocState where
  | synced
  | frozen
  | error
  | unmatched
  | retrying
deriving DecidableEq

inductive DocTarget where
  | docs
  | meetings
deriving DecidableEq

inductive Direction where
  | mdToNotion
  | twoWay
  | notionToMd
deriving DecidableEq

/-- A row of `notion_sync_docs`. -/
structure Row (Hash : Type) where
  /-- The note; `NULL` for a page without one. -/
  vaultPath : Option Text
  notionPageId : Text
  target : DocTarget
  /-- Who may write: the vault, Notion or both. -/
  direction : Direction
  /-- Of what was rendered last. -/
  mdHash : Option Hash
  /-- Of what the page held then. -/
  notionHash : Option Hash
  /-- What Notion said of it then. -/
  notionLastEdited : Option Text
  state : DocState
  /-- Failures in a row. -/
  errorCount : Nat

inductive ProposalKind where
  | update
  | create
deriving DecidableEq

inductive ProposalState where
  | pending
  | approved
  | rejected
  | applied
  | superseded
deriving DecidableEq

/-- A row of `notion_sync_proposals`. -/
structure Proposal (Hash : Type) where
  id : Nat
  /-- The note it would change. -/
  vaultPath : Text
  notionPageId : Text
  /-- Of what the page held when it was made. -/
  notionHash : Hash
  /-- A change of a note, or a new one. -/
  kind : ProposalKind
  state : ProposalState
  /-- Whether `resolved_at` is set. -/
  resolved : Bool

/-- Rejected, and not carried out. -/
def Proposal.unexecuted (p : Proposal Hash) : Bool :=
  decide (p.state = .rejected) && !p.resolved

def ids (queue : List (Proposal Hash)) : List Nat := queue.map Proposal.id

structure Store (Hash : Type) where
  /-- The documents that are synced. -/
  rows : List (Row Hash)
  /-- The proposals. -/
  queue : List (Proposal Hash)
  /-- What the pages hold, in Notion. -/
  pages : Text → Text
  /-- The primary key of the queue. -/
  nodup : (ids queue).Nodup

def Store.setRows (s : Store Hash) (rows : List (Row Hash)) : Store Hash := { s with rows }

/-- Changes proposals, not their ids. -/
def Store.mapQueue (s : Store Hash) (f : Proposal Hash → Proposal Hash)
    (hf : ∀ p, (f p).id = p.id) : Store Hash where
  rows := s.rows
  queue := s.queue.map f
  pages := s.pages
  nodup := by
    have hids : ids (s.queue.map f) = ids s.queue := by
      rw [ids, List.map_map]
      exact List.map_congr_left fun p _ => hf p
    rw [hids]
    exact s.nodup

def Store.setPage (s : Store Hash) (pageId text : Text) : Store Hash :=
  { s with pages := fun id => if id = pageId then text else s.pages id }

/-! ## Section 2: The queries -/

/-- The rows that an `UPDATE` has changed, and how many. -/
def updateWhere (s : Store Hash) (p : Row Hash → Bool) (f : Row Hash → Row Hash) :
    Store Hash × Nat :=
  (s.setRows (s.rows.map fun row => if p row then f row else row), s.rows.countP p)

def getLinkedRows (s : Store Hash) (vaultPath : Text) : Option (Row Hash) :=
  s.rows.find? fun row => decide (row.vaultPath = some vaultPath)

def getRejectedUnexecuted (s : Store Hash) : List (Proposal Hash) :=
  s.queue.filter Proposal.unexecuted

/-- Throws when the page has no row. -/
def recordNotionAccounted (pageId : Text) (notionHash : Hash) (s : Store Hash) :
    Option (Store Hash × Nat) :=
  let out := updateWhere s (fun row => decide (row.notionPageId = pageId)) fun row =>
    { row with notionHash := some notionHash }
  if out.2 = 0 then none else some out

def updateNotionWatermark (vaultPath : Text) (notionHash : Hash) (notionLastEdited : Option Text)
    (s : Store Hash) : Option (Store Hash × Nat) :=
  some (updateWhere s (fun row => decide (row.vaultPath = some vaultPath)) fun row =>
    { row with notionHash := some notionHash, notionLastEdited })

/-- A row of the desk. -/
def isDoc (vaultPath : Text) (row : Row Hash) : Bool :=
  decide (row.target = .docs) && decide (row.vaultPath = some vaultPath)

def freezeDoc (vaultPath : Text) (s : Store Hash) : Option (Store Hash × Nat) :=
  some (updateWhere s (isDoc vaultPath) fun row => { row with state := .frozen })

def recordDocError (vaultPath : Text) (s : Store Hash) : Option (Store Hash × Nat) :=
  some (updateWhere s (isDoc vaultPath) fun row =>
    { row with
      errorCount := row.errorCount + 1
      state := if 3 ≤ row.errorCount + 1 then .error else row.state })

structure DocSyncedInput (Hash : Type) where
  vaultPath : Text
  pageId : Text
  mdHash : Hash
  notionHash : Hash
  notionLastEdited : Option Text
  direction : Direction

/-- Throws when the path belongs to a row of another target. -/
def upsertDocSynced (doc : DocSyncedInput Hash) (s : Store Hash) : Option (Store Hash × Nat) :=
  match getLinkedRows s doc.vaultPath with
  | none =>
      some (s.setRows (s.rows ++ [⟨some doc.vaultPath, doc.pageId, .docs, doc.direction,
        some doc.mdHash, some doc.notionHash, doc.notionLastEdited, .synced, 0⟩]), 1)
  | some _ =>
      let out := updateWhere s (isDoc doc.vaultPath) fun row =>
        { row with
          notionPageId := doc.pageId
          mdHash := some doc.mdHash
          notionHash := some doc.notionHash
          notionLastEdited := doc.notionLastEdited <|> row.notionLastEdited
          state := if row.state = .frozen then .frozen else .synced
          errorCount := 0 }
      if out.2 = 0 then none else some out

def setProposalState (id : Nat) (state : ProposalState) (s : Store Hash) :
    Option (Store Hash × Nat) :=
  some (s.mapQueue (fun p => if p.id = id then
      { p with state, resolved := p.resolved || decide (state = .applied ∨ state = .superseded) }
    else p) (by intro p; split <;> rfl),
    s.queue.countP fun p => decide (p.id = id))

def markProposalReverted (id : Nat) (s : Store Hash) : Option (Store Hash × Nat) :=
  some (s.mapQueue (fun p => if p.id = id ∧ p.unexecuted then { p with resolved := true } else p)
      (by intro p; split <;> rfl),
    s.queue.countP fun p => decide (p.id = id) && p.unexecuted)

/-! ## Section 3: Calls -/

/-- How a call ends for the engine, which sees no difference between the last two. -/
inductive Outcome where
  | done
  /-- Nothing happened. -/
  | refused
  /-- It happened. -/
  | lost
deriving DecidableEq

def Outcome.lands (outcome : Outcome) : Bool := decide (outcome ≠ .refused)

/-- The calls that change something, the read after a patch, and the notice that
    nothing was reverted. -/
inductive Call where
  | recordNotionAccounted
  | updateNotionWatermark
  | patchPageMarkdown
  | updateDocProps
  | readBack
  | upsertDocSynced
  | freezeDoc
  | recordDocError
  | markProposalReverted
  | supersede
  | notReverted
deriving DecidableEq

structure Entry where
  call : Call
  /-- The proposal it was made for. -/
  id : Nat
  /-- How many rows it changed. -/
  rows : Nat

structure Counts where
  /-- Reverted. -/
  reverted : Nat
  /-- Closed without a revert, for a new page. -/
  declined : Nat
  /-- Closed, for the page has moved on. -/
  superseded : Nat
  /-- Frozen. -/
  frozen : Nat
  /-- Left for a later tick. -/
  skipped : Nat
  /-- Failed, and left. -/
  errored : Nat
  /-- Done, but not recorded. -/
  bookkeepingFailed : Nat

structure Pass (Hash : Type) where
  store : Store Hash
  log : List Entry
  counts : Counts

def Pass.count (pass : Pass Hash) (f : Counts → Counts) : Pass Hash :=
  { pass with counts := f pass.counts }

structure Write (Hash : Type) where
  call : Call
  outcome : Outcome
  /-- `none` when the statement itself throws. -/
  write : Store Hash → Option (Store Hash × Nat)

/-- The pass after a call, and whether it returned. -/
def Pass.make (pass : Pass Hash) (id : Nat) (w : Write Hash) : Pass Hash × Bool :=
  if w.outcome.lands then
    match w.write pass.store with
    | some (store, rows) =>
        ({ pass with store, log := pass.log ++ [⟨w.call, id, rows⟩] }, decide (w.outcome = .done))
    | none => (pass, false)
  else (pass, false)

/-- One block of writes: the first that throws ends it. -/
def Pass.tryRecord (pass : Pass Hash) (id : Nat) : List (Write Hash) → Pass Hash
  | [] => pass
  | w :: ws =>
      let out := pass.make id w
      if out.2 then out.1.tryRecord id ws
      else out.1.count fun n => { n with bookkeepingFailed := n.bookkeepingFailed + 1 }

/-- A call that changes neither the rows nor the pages. -/
def unchanged (s : Store Hash) : Option (Store Hash × Nat) := some (s, 0)

/-! ## Section 4: The rejected loop -/

structure DocProps where
  name : Text
  frontmatter : Text

structure RenderedDoc where
  markdown : Text
  props : DocProps

def docRenderHash (sha256 : Text → Hash) (rendered : RenderedDoc) : Hash :=
  sha256 (rendered.markdown ++ '\x00' :: rendered.props.name ++ '\x00' :: rendered.props.frontmatter)

/-- How the calls for one proposal end. -/
structure Answers where
  /-- What the note renders to. -/
  render : Option RenderedDoc
  /-- Whether the page can be read before the patch, and after. -/
  preCheckRead : Bool
  readBack : Bool
  /-- How the patch ends. -/
  patch : Outcome
  /-- What its error says. -/
  patchError : Text
  /-- What Notion makes of the patch. -/
  stored : Text
  updateDocProps : Outcome
  recordNotionAccounted : Outcome
  updateNotionWatermark : Outcome
  upsertDocSynced : Outcome
  freezeDoc : Outcome
  recordDocError : Outcome
  markProposalReverted : Outcome
  setProposalState : Outcome
  notify : Outcome

def engineMayWrite (row : Row Hash) : Bool :=
  decide (row.target = .meetings) || decide (row.state = .synced)

def notionOwns (direction : Direction) : Bool := decide (direction = .notionToMd)

/-- `allow_deleting_content` -/
def allowDeletingContent : Text :=
  ['a', 'l', 'l', 'o', 'w', '_', 'd', 'e', 'l', 'e', 't', 'i', 'n', 'g', '_', 'c', 'o', 'n', 't',
    'e', 'n', 't']

/-- `CHILD_CONTENT_ERROR` -/
def isChildContentError (message : Text) : Bool :=
  (message.map Char.toLower).tails.any fun rest =>
    ['c', 'h', 'i', 'l', 'd'].isPrefixOf rest || allowDeletingContent.isPrefixOf rest

section Loop

variable (answers : Answers) (pass : Pass Hash) (p : Proposal Hash)

def Answers.mark (id : Nat) : Write Hash :=
  ⟨.markProposalReverted, answers.markProposalReverted, Rejection.markProposalReverted id⟩

/-- `fail`; a dry run records nothing. -/
def Pass.fail (dryRun : Bool) : Pass Hash :=
  let pass := pass.count fun n => { n with errored := n.errored + 1 }
  if dryRun then pass
  else pass.tryRecord p.id
    [⟨.recordDocError, answers.recordDocError, recordDocError p.vaultPath⟩]

/-- Nothing is written to either side. -/
def Pass.decline (dryRun : Bool) (record : Write Hash) : Pass Hash :=
  let pass := pass.count fun n => { n with declined := n.declined + 1 }
  if dryRun then pass else pass.tryRecord p.id [record, answers.mark p.id]

/-- What was rejected is not what the page holds. -/
def Pass.supersede (dryRun : Bool) : Pass Hash :=
  let pass := pass.count fun n => { n with superseded := n.superseded + 1 }
  if dryRun then pass
  else
    let pass := pass.tryRecord p.id
      [⟨.supersede, answers.setProposalState, setProposalState p.id .superseded⟩]
    (pass.make p.id ⟨.notReverted, answers.notify, unchanged⟩).1

/-- Notion keeps the children of the page. -/
def Pass.freeze : Pass Hash :=
  let pass := pass.count fun n => { n with frozen := n.frozen + 1 }
  let pass := pass.tryRecord p.id [⟨.freezeDoc, answers.freezeDoc, freezeDoc p.vaultPath⟩]
  pass.tryRecord p.id [answers.mark p.id]

variable (sha256 : Text → Hash)

/-- After the patch. -/
def Pass.settle (row : Row Hash) (rendered : RenderedDoc) : Pass Hash :=
  let props := pass.make p.id ⟨.updateDocProps, answers.updateDocProps, unchanged⟩
  if props.2 then
    if answers.readBack then
      let stored := props.1.store.pages p.notionPageId
      let pass := (props.1.make p.id ⟨.readBack, .done, unchanged⟩).1
      let pass := pass.count fun n => { n with reverted := n.reverted + 1 }
      let pass := pass.tryRecord p.id [⟨.upsertDocSynced, answers.upsertDocSynced, upsertDocSynced
        ⟨p.vaultPath, p.notionPageId, docRenderHash sha256 rendered, sha256 stored,
          row.notionLastEdited, row.direction⟩⟩]
      pass.tryRecord p.id [answers.mark p.id]
    else props.1.fail answers p false
  else props.1.fail answers p false

def Pass.patch (row : Row Hash) (rendered : RenderedDoc) : Pass Hash :=
  let patched := pass.make p.id ⟨.patchPageMarkdown, answers.patch, fun s =>
    some (s.setPage p.notionPageId answers.stored, 0)⟩
  if patched.2 then patched.1.settle answers p sha256 row rendered
  else if isChildContentError answers.patchError then patched.1.freeze answers p
  else patched.1.fail answers p false

variable [DecidableEq Hash]

def Pass.revert (dryRun : Bool) (row : Row Hash) : Pass Hash :=
  match answers.render with
  | none => pass.fail answers p dryRun
  | some rendered =>
      match assertPushSafe rendered.markdown with
      | .error _ => pass.fail answers p dryRun
      | .ok () =>
          if answers.preCheckRead then
            if sha256 (pass.store.pages p.notionPageId) ≠ p.notionHash then
              pass.supersede answers p dryRun
            else if dryRun then pass.count fun n => { n with reverted := n.reverted + 1 }
            else pass.patch answers p sha256 row rendered
          else pass.fail answers p dryRun

/-- One rejected proposal; `rows` was read before the loop. -/
def Pass.execute (dryRun : Bool) (rows : Text → Option (Row Hash)) : Pass Hash :=
  if p.kind = .create then
    pass.decline answers p dryRun ⟨.recordNotionAccounted, answers.recordNotionAccounted,
      recordNotionAccounted p.notionPageId p.notionHash⟩
  else
    match rows p.vaultPath with
    | none => pass.count fun n => { n with skipped := n.skipped + 1 }
    | some row =>
        if engineMayWrite row then
          if notionOwns row.direction then
            pass.decline answers p dryRun ⟨.updateNotionWatermark, answers.updateNotionWatermark,
              updateNotionWatermark p.vaultPath p.notionHash row.notionLastEdited⟩
          else pass.revert answers p sha256 dryRun row
        else pass.count fun n => { n with skipped := n.skipped + 1 }

end Loop

/-! ## Section 5: Ticks -/

structure Tick (Hash : Type) where
  dryRun : Bool
  /-- The rows as the pass has read them, with what its approved loop put in. -/
  rows : Text → Option (Row Hash)
  answers : Nat → Answers

variable [DecidableEq Hash] (sha256 : Text → Hash)

def Tick.step (tick : Tick Hash) (pass : Pass Hash) (p : Proposal Hash) : Pass Hash :=
  pass.execute (tick.answers p.id) p sha256 tick.dryRun tick.rows

def rejectedOf (s : Store Hash) : List (Proposal Hash) :=
  (getRejectedUnexecuted s).insertionSort fun a b => a.id ≤ b.id

def Pass.start (s : Store Hash) : Pass Hash := ⟨s, [], ⟨0, 0, 0, 0, 0, 0, 0⟩⟩

/-- The rejected loop of `runApplySync`. -/
def runApplySync (tick : Tick Hash) (s : Store Hash) : Pass Hash :=
  (rejectedOf s).foldl (tick.step sha256) (.start s)

/-- The store, and what took effect in each tick. -/
structure History (Hash : Type) where
  store : Store Hash
  ticks : List (List Entry)

inductive Event (Hash : Type) where
  | tick (tick : Tick Hash)
  /-- What happens between ticks. -/
  | between (store : Store Hash)

def History.step (h : History Hash) : Event Hash → History Hash
  | .tick tick =>
      let pass := runApplySync sha256 tick h.store
      ⟨pass.store, h.ticks ++ [pass.log]⟩
  | .between store => { h with store }

def History.run (h : History Hash) (events : List (Event Hash)) : History Hash :=
  events.foldl (History.step sha256) h

end Lares.Notion.Rejection
