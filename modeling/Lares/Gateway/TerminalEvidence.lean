import Lares.Gateway.Json

/-! # Terminal evidence

    `TerminalEvidence` of the gateway: a state machine that is fed the JSON
    documents of one provider response and, when the response was complete,
    gives its usage. A refusal is `none`; it poisons the object for good, so what
    a refused document wrote before it was refused is never read and is dropped.
-/

namespace Lares.Gateway

/-! ## Section 1: Usage -/

/-- The usage record of a receipt. -/
structure Usage where
  inputTokens : Nat
  outputTokens : Nat
  cacheReadTokens : Nat
  cacheWriteTokens : Nat
  deriving DecidableEq

namespace TerminalEvidence

/-- `type(value) is int and 0 <= value <= 2**53-1`; a Boolean is not an int here. -/
def integer : Json → Option Nat
  | .int n => if 0 ≤ n ∧ n ≤ 2 ^ 53 - 1 then some n.toNat else none
  | _ => none

def openaiUsage (usage : Json) : Option Usage := do
  let usage ← usage.asDict
  let inputTokens ← integer (Json.get usage "prompt_tokens")
  let outputTokens ← integer (Json.get usage "completion_tokens")
  let total ← integer (Json.get usage "total_tokens")
  if total ≠ inputTokens + outputTokens then none
  else do
    let details := Json.get usage "prompt_tokens_details"
    let details ← if details.truthy then details.asDict else some []
    let cached ← integer (Json.getD details "cached_tokens" (.int 0))
    if cached > inputTokens then none
    else some ⟨inputTokens, outputTokens, cached, 0⟩

def anthropicUsage (usage : Json) : Option Usage := do
  let usage ← usage.asDict
  return ⟨← integer (Json.get usage "input_tokens"), ← integer (Json.get usage "output_tokens"),
    ← integer (Json.getD usage "cache_read_input_tokens" (.int 0)),
    ← integer (Json.getD usage "cache_creation_input_tokens" (.int 0))⟩

/-- Embeddings are charged on input tokens only. -/
def embeddingUsage (usage : Json) : Option Usage := do
  let usage ← usage.asDict
  let prompt ← integer (Json.get usage "prompt_tokens")
  let completion ← integer (Json.getD usage "completion_tokens" (.int 0))
  if completion ≠ 0 then none
  else do
    let total ← integer (Json.get usage "total_tokens")
    if total ≠ prompt + completion then none else some ⟨prompt, 0, 0, 0⟩

def anthropicStopReasons : List String :=
  ["end_turn", "max_tokens", "stop_sequence", "tool_use", "pause_turn", "refusal"]

def openaiStopReasons : List String :=
  ["stop", "length", "tool_calls", "content_filter", "function_call"]

/-- `stop_reason` -/
def stopReason (value : Json) (anthropic : Bool) : Bool :=
  value.isOneOf (if anthropic then anthropicStopReasons else openaiStopReasons)

/-! ## Section 2: A response in one document -/

/-- The route a response belongs to. -/
inductive Path where
  | messages | chatCompletions | embeddings
  deriving DecidableEq, Repr

/-- One entry of an embeddings reply, at its position. -/
def embeddingItem (index : Nat) (item : Json) : Bool :=
  match item with
  | .obj item => (Json.get item "object").isText "embedding" &&
      match Json.get item "index" with
      | .int n => n == index
      | _ => false
  | _ => false

/-- `nonstream` -/
def nonstream (path : Path) (response : Json) : Option Usage := do
  let response ← response.asDict
  match path with
  | .embeddings =>
      let data ← (Json.get response "data").asList
      if !(Json.get response "object").isText "list" || data.isEmpty then none
      else if data.zipIdx.all fun (item, index) => embeddingItem index item then
        embeddingUsage (Json.get response "usage")
      else none
  | .messages =>
      let _ ← (Json.get response "id").asNonempty
      if (Json.get response "type").isText "message"
          && (Json.get response "role").isText "assistant"
          && stopReason (Json.get response "stop_reason") true then
        anthropicUsage (Json.get response "usage")
      else none
  | .chatCompletions =>
      let _ ← (Json.get response "id").asNonempty
      let choices ← (Json.get response "choices").asList
      match choices with
      | [.obj choice] =>
          if (Json.get response "object").isText "chat.completion"
              && (Json.get choice "index").isZero
              && stopReason (Json.get choice "finish_reason") false then
            openaiUsage (Json.get response "usage")
          else none
      | _ => none

/-! ## Section 3: A stream of documents -/

end TerminalEvidence

/-- The fields of a `TerminalEvidence` object. -/
structure TerminalEvidence where
  path : TerminalEvidence.Path
  poisoned : Bool
  started : Bool
  stopped : Bool
  finalDelta : Bool
  usage : Option Usage
  output : Nat
  responseId : Option String

namespace TerminalEvidence

/-- `TerminalEvidence(path)` -/
def init (path : Path) : TerminalEvidence := ⟨path, false, false, false, false, none, 0, none⟩

/-- `kind == "message_start"` -/
def feedMessageStart (s : TerminalEvidence) (document : List (String × Json)) :
    Option TerminalEvidence := do
  if s.started then none
  else do
    let message ← (Json.get document "message").asDict
    let id ← (Json.get message "id").asNonempty
    let usage ← anthropicUsage (Json.get message "usage")
    return { s with
      responseId := some id, usage := some usage, output := usage.outputTokens, started := true }

/-- `kind == "message_delta"` -/
def feedMessageDelta (s : TerminalEvidence) (document : List (String × Json)) :
    Option TerminalEvidence := do
  if !s.started || s.finalDelta then none
  else do
    let delta ← (Json.get document "delta").asDict
    let usage ← (Json.get document "usage").asDict
    let output ← integer (Json.get usage "output_tokens")
    if output < s.output then none
    else
      let reason := Json.get delta "stop_reason"
      if reason.isNull then some { s with output }
      else if stopReason reason true then
        some { s with
          output
          finalDelta := true
          usage := s.usage.map fun u => { u with outputTokens := output } }
      else none

/-- The branch of `feed` for `/v1/messages`. -/
def feedMessages (s : TerminalEvidence) (document : List (String × Json)) :
    Option TerminalEvidence :=
  let kind := Json.get document "type"
  if s.stopped then none
  else if kind.isText "message_start" then feedMessageStart s document
  else if kind.isText "message_delta" then feedMessageDelta s document
  else if kind.isText "message_stop" then
    if !s.started || !s.finalDelta then none else some { s with stopped := true }
  else if !kind.isOneOf ["content_block_start", "content_block_delta", "content_block_stop", "ping"]
      || s.finalDelta || !s.started then none
  else some s

/-- One pass of the loop over `choices`: the new `stopped` flag. -/
def feedChoice (stopped : Bool) (choice : Json) : Option Bool := do
  let choice ← choice.asDict
  if !(Json.get choice "index").isZero then none
  else
    let reason := Json.get choice "finish_reason"
    if reason.isNull then some stopped
    else if stopped || !stopReason reason false then none
    else some true

/-- The branch of `feed` for the other paths. -/
def feedChat (s : TerminalEvidence) (document : List (String × Json)) :
    Option TerminalEvidence := do
  let choices ← (Json.get document "choices").asList
  let identity ← (Json.get document "id").asNonempty
  if choices.length > 1 then none
  else if s.responseId.any (· != identity) then none
  else if s.stopped && !choices.isEmpty then none
  else do
    let stopped ← choices.foldlM feedChoice s.stopped
    let reported := Json.get document "usage"
    if reported.isNull then some { s with responseId := some identity, stopped }
    else if !stopped || s.usage.isSome then none
    else do
      let usage ← openaiUsage reported
      return { s with responseId := some identity, stopped, usage := some usage }

/-- The body of `feed` inside its `try`. -/
def feedDocument (s : TerminalEvidence) (document : Json) : Option TerminalEvidence := do
  let fields ← document.asDict
  if s.poisoned || Json.hasKey fields "error" then none
  else if s.path = .messages then feedMessages s fields
  else feedChat s fields

def feed (s : TerminalEvidence) (document : Json) : TerminalEvidence :=
  (feedDocument s document).getD { s with poisoned := true }

def result (s : TerminalEvidence) : Option Usage :=
  if s.stopped && !s.poisoned then s.usage else none

/-- Feed documents in order, starting from a new object. -/
def feedAll (path : Path) (documents : List Json) : TerminalEvidence :=
  documents.foldl feed (init path)

end TerminalEvidence

end Lares.Gateway
