import Lares.Approvals.Fingerprint
import Lares.Framework.Expiry
import Lares.VaultFormat.Origin

/-! # The taint of a turn

    A process remembers which turns have read words that the owner did not
    write. Writes and fetches of such a turn are treated with less trust.

    * **The maps** are keyed by a slot for each turn, and every use of them drops
      the entries that are too old.
    * **The hook** taints the turn of a result from outside, and clears a turn
      where it starts and ends.
    * **The policy** asks before a link is opened in a tainted turn, unless it is
      the next page of a link which the turn has read.
-/

namespace Lares.OriginTaint

open Approvals VaultFormat Expiry
open Gateway (unit)

/-! ## Section 1: Trust -/

/-- `ORIGIN_TRUST_ORDER` -/
def ORIGIN_TRUST_ORDER : List Origin := [.owner, .agent, .synced, .system, .thirdParty]

/-- `ORIGIN_TRUST_ORDER.indexOf(o)` -/
def distrust (o : Origin) : ℕ := ORIGIN_TRUST_ORDER.idxOf o

/-- `narrowest`, of origins of which there is a first. -/
def narrowest (first : Origin) (rest : List Origin) : Origin :=
  rest.foldl (fun worst o => if distrust worst < distrust o then o else worst) first

/-- `Taint`: the classes a read can taint a turn with. -/
def Taint : Type := { o : Origin // o = .synced ∨ o = .thirdParty }

namespace Taint

instance : DecidableEq Taint := inferInstanceAs (DecidableEq (Subtype _))

def synced : Taint := ⟨.synced, .inl rfl⟩

def thirdParty : Taint := ⟨.thirdParty, .inr rfl⟩

/-- `narrowest([a, b]) as Taint` -/
def narrow (a b : Taint) : Taint :=
  ⟨narrowest a.1 [b.1], by
    rcases a.2 with ha | ha <;> rcases b.2 with hb | hb <;> rw [ha, hb] <;> decide⟩

end Taint

/-! ## Section 2: Turns -/

/-- A value that the runtime hands over. `other` is what is none of the rest, such as a boolean. -/
inductive Unknown where
  | undefined
  | null
  | other
  | number (x : ℚ)
  | text (s : JsText)
  | object (fields : List (JsText × Unknown))

namespace Unknown

/-- `(value as { name?: unknown }).name` of what is an object. -/
def field (fields : List (JsText × Unknown)) (name : List Char) : Unknown :=
  (fields.lookup (ascii name)).getD .undefined

/-- `a ?? b` -/
def orElse : Unknown → Unknown → Unknown
  | .undefined, b => b
  | .null, b => b
  | a, _ => a

end Unknown

open Unknown (field)

/-- `id.trim() === ""` -/
def blank (id : JsText) : Bool := id.all fun u => Lines.isSpace (Char.ofNat u.val)

/-- A turn that can be named. -/
structure TurnKey where
  sessionId : JsText
  turnId : JsText
  session_not_blank : blank sessionId = false
  turn_not_blank : blank turnId = false
deriving DecidableEq

/-- The pair of texts in a key, if it is one. -/
def usable : Unknown → Option TurnKey
  | .object fields =>
      match field fields ['s', 'e', 's', 's', 'i', 'o', 'n', 'I', 'd'],
          field fields ['t', 'u', 'r', 'n', 'I', 'd'] with
      | .text sessionId, .text turnId =>
          if hsession : blank sessionId = false then
            if hturn : blank turnId = false then some ⟨sessionId, turnId, hsession, hturn⟩ else none
          else none
      | _, _ => none
  | _ => none

/-- `${sessionId.length} ${sessionId} ${turnId}` -/
def TurnKey.slot (turn : TurnKey) : JsText :=
  ascii (Nat.toDigits 10 turn.sessionId.length) ++ unit ' ' :: turn.sessionId ++
    unit ' ' :: turn.turnId

def slotOf (key : Unknown) : Option JsText := (usable key).map TurnKey.slot

/-- `{ sessionId, turnId }` -/
def turnKey (sessionId turnId : Unknown) : Unknown :=
  .object [(ascii ['s', 'e', 's', 's', 'i', 'o', 'n', 'I', 'd'], sessionId),
    (ascii ['t', 'u', 'r', 'n', 'I', 'd'], turnId)]

def turnKeyFrom (ctx turnId : Unknown) : Option Unknown :=
  match ctx with
  | .object fields =>
      match field fields ['s', 'e', 's', 's', 'i', 'o', 'n'] with
      | .object session =>
          let contextTurnId :=
            match field session ['t', 'u', 'r', 'n'] with
            | .object turn => field turn ['i', 'd']
            | _ => .undefined
          let candidate := turnKey (field session ['i', 'd']) (turnId.orElse contextTurnId)
          if (slotOf candidate).isSome then some candidate else none
      | _ => none
  | _ => none

/-! ## Section 3: The maps -/

/-- `TAINT_MAX_AGE_MS` -/
def TAINT_MAX_AGE_MS : Int := 6 * 60 * 60 * 1000

def MAX_URLS_PER_TURN : ℕ := 50

/-- `taints` and `readUrls`. The links are in the order they were added. -/
structure Maps where
  taints : Table JsText Taint
  readUrls : Table JsText (List JsText)

def sweep (now : Int) (maps : Maps) : Maps where
  taints := sweepTable TAINT_MAX_AGE_MS now maps.taints
  readUrls := sweepTable TAINT_MAX_AGE_MS now maps.readUrls

/-- The taint of an entry, with one more. -/
def addTaint (taint : Taint) (existing : Option Taint) : Taint := (existing.getD taint).narrow taint

/-- The links of an entry, with one more if there is room. -/
def addUrl (url : JsText) (existing : Option (List JsText)) : List JsText :=
  let urls := existing.getD []
  if urls.length < MAX_URLS_PER_TURN then if urls.contains url then urls else urls ++ [url] else urls

def taintTurn (now : Int) (key : Unknown) (taint : Taint) (maps : Maps) : Maps :=
  match slotOf key with
  | none => maps
  | some slot =>
      let swept := sweep now maps
      { swept with
        taints := Function.update swept.taints slot
          (some (put now (addTaint taint) (swept.taints slot))) }

def currentTaint (now : Int) (key : Unknown) (maps : Maps) : Option Taint × Maps :=
  match slotOf key with
  | none => (none, maps)
  | some slot =>
      let swept := sweep now maps
      ((swept.taints slot).map (·.value), swept)

def stampFor (now : Int) (intended : Origin) (key : Unknown) (maps : Maps) : Origin × Maps :=
  match slotOf key with
  | none => (.thirdParty, maps)
  | some _ =>
      match currentTaint now key maps with
      | (some t, swept) => (narrowest intended [t.1], swept)
      | (none, swept) => (intended, swept)

def clearTurn (key : Unknown) (maps : Maps) : Maps :=
  match slotOf key with
  | none => maps
  | some slot =>
      ⟨Function.update maps.taints slot none, Function.update maps.readUrls slot none⟩

def noteUrlRead (now : Int) (key : Unknown) (url : JsText) (maps : Maps) : Maps :=
  match slotOf key with
  | none => maps
  | some slot =>
      let swept := sweep now maps
      { swept with
        readUrls := Function.update swept.readUrls slot
          (some (put now (addUrl url) (swept.readUrls slot))) }

def urlReadThisTurn (now : Int) (key : Unknown) (url : JsText) (maps : Maps) : Bool × Maps :=
  match slotOf key with
  | none => (false, maps)
  | some slot =>
      let swept := sweep now maps
      (((swept.readUrls slot).map fun e => e.value.contains url).getD false, swept)

/-! ## Section 4: The policy of a fetch -/

/-- A status of eve: run, or park on a card. -/
inductive ApprovalStatus where
  | notApplicable
  | userApproval
deriving DecidableEq

def asksAfterUntrustedText (now : Int) (ctx : Unknown) (maps : Maps) : ApprovalStatus × Maps :=
  match turnKeyFrom ctx .undefined with
  | none => (.userApproval, maps)
  | some key =>
      match currentTaint now key maps with
      | (none, swept) => (.notApplicable, swept)
      | (some _, swept) => (.userApproval, swept)

/-- `ctx?.toolInput` -/
def toolInput : Unknown → Unknown
  | .object fields => field fields ['t', 'o', 'o', 'l', 'I', 'n', 'p', 'u', 't']
  | _ => .undefined

/-- The link of which a call reads a further page. -/
def nextPage : Unknown → Option JsText
  | .object fields =>
      match field fields ['u', 'r', 'l'], field fields ['o', 'f', 'f', 's', 'e', 't'] with
      | .text url, .number offset => if 0 < offset then some url else none
      | _, _ => none
  | _ => none

/-- `asksAfterUntrustedTextUnlessNextPage`, which may read the clock twice. -/
def asksUnlessNextPage (now later : Int) (ctx : Unknown) (maps : Maps) : ApprovalStatus × Maps :=
  match turnKeyFrom ctx .undefined, nextPage (toolInput ctx) with
  | some key, some url =>
      match urlReadThisTurn now key url maps with
      | (true, swept) => (.notApplicable, swept)
      | (false, swept) => asksAfterUntrustedText later ctx swept
  | _, _ => asksAfterUntrustedText later ctx maps

/-! ## Section 5: Tools from outside -/

structure Grant where
  capability : JsText
  scope : JsText

structure OutsideToolDeclaration where
  name : JsText
  trusted : Bool

/-- `OutsideDefinitionView` -/
structure OutsideDefinitionView where
  grants : List Grant
  autonomy : List (JsText × JsText)
  outsideTools : List OutsideToolDeclaration

/-- `outside` -/
def OUTSIDE_CAPABILITY : JsText := ascii ['o', 'u', 't', 's', 'i', 'd', 'e']

/-- `connection_search` -/
def CONNECTION_SEARCH_TOOL : JsText :=
  ascii ['c', 'o', 'n', 'n', 'e', 'c', 't', 'i', 'o', 'n', '_', 's', 'e', 'a', 'r', 'c', 'h']

def outsideToolsInEffect (d : OutsideDefinitionView) : List OutsideToolDeclaration :=
  match d.grants.find? fun g => g.capability == OUTSIDE_CAPABILITY with
  | none => []
  | some grant =>
      if grant.scope = ascii ['n', 'o', 'n', 'e'] then []
      else if d.autonomy.lookup OUTSIDE_CAPABILITY = some (ascii ['n', 'e', 'v', 'e', 'r']) then []
      else d.outsideTools

/-- `<name>__` -/
def toolsOf (e : OutsideToolDeclaration) : JsText := e.name ++ ascii ['_', '_']

def outsideResultTaint (toolName : JsText) (d : OutsideDefinitionView) : Option Taint :=
  let untrusted := (outsideToolsInEffect d).filter fun e => !e.trusted
  if untrusted.isEmpty then none
  else if toolName = CONNECTION_SEARCH_TOOL then some .thirdParty
  else if untrusted.any fun e => (toolsOf e).isPrefixOf toolName then some .thirdParty
  else none

/-! ## Section 6: The hook -/

/-- The keys of `TAINTING_TOOLS`, which are all `third_party`. -/
def TAINTING_TOOLS : List JsText :=
  [ascii ['g', 'm', 'a', 'i', 'l', '_', 'r', 'e', 'a', 'd'],
    ascii ['g', 'm', 'a', 'i', 'l', '_', 's', 'e', 'a', 'r', 'c', 'h'],
    ascii ['r', 'e', 'a', 'd', '_', 'u', 'r', 'l']]

/-- `toolName.includes("__")` -/
def includesUnderscores (toolName : JsText) : Bool :=
  toolName.tails.any fun t => (ascii ['_', '_']).isPrefixOf t

/-- `outsideEffects`. There is no definition where it cannot be read, or a signal is refused. -/
def outsideEffects (toolName : JsText) (definition : Option OutsideDefinitionView) :
    Option Taint :=
  if toolName ≠ CONNECTION_SEARCH_TOOL ∧ includesUnderscores toolName = false then none
  else definition.bind (outsideResultTaint toolName)

local instance lawfulToolName : LawfulBEq JsText := inferInstance

/-- The class that the result of a tool taints at. -/
def resultTaint (toolName : JsText) (definition : Option OutsideDefinitionView) : Option Taint :=
  if toolName ∈ TAINTING_TOOLS then some .thirdParty else outsideEffects toolName definition

/-- `event?.data` -/
def dataOf : Unknown → Unknown
  | .object event => field event ['d', 'a', 't', 'a']
  | _ => .undefined

/-- `keyOf` -/
def keyOf (event ctx : Unknown) : Option Unknown :=
  turnKeyFrom ctx (match dataOf event with
    | .object data => field data ['t', 'u', 'r', 'n', 'I', 'd']
    | _ => .undefined)

/-- The name of the tool of which an event is a result. -/
def resultTool (event : Unknown) : Option JsText :=
  match dataOf event with
  | .object data =>
      match field data ['r', 'e', 's', 'u', 'l', 't'] with
      | .object result =>
          match field result ['k', 'i', 'n', 'd'],
              field result ['t', 'o', 'o', 'l', 'N', 'a', 'm', 'e'] with
          | .text kind, .text toolName =>
              if kind = ascii ['t', 'o', 'o', 'l', '-', 'r', 'e', 's', 'u', 'l', 't'] then
                some toolName
              else none
          | _, _ => none
      | _ => none
  | _ => none

/-- `onActionResult`, from where the taint is known. -/
def onActionResult (now : Int) (event ctx : Unknown) (definition : Option OutsideDefinitionView)
    (maps : Maps) : Maps :=
  match (resultTool event).bind fun toolName => resultTaint toolName definition, keyOf event ctx with
  | some taint, some key => taintTurn now key taint maps
  | _, _ => maps

/-- `onTurnStarted` and `onTurnEnded` -/
def onTurnBoundary (event ctx : Unknown) (maps : Maps) : Maps :=
  match keyOf event ctx with
  | some key => clearTurn key maps
  | none => maps

/-- What `read_url` does once a link is read, at the class of its branch. -/
def urlRead (now later : Int) (ctx : Unknown) (taint : Taint) (url : JsText) (maps : Maps) : Maps :=
  match turnKeyFrom ctx .undefined with
  | some key => noteUrlRead later key url (taintTurn now key taint maps)
  | none => maps

end Lares.OriginTaint
