import Lares.Gateway.TerminalEvidence

/-! # The grammar of complete streams

    Which lists of documents a response is complete with, stated without the
    flags of `TerminalEvidence`, and the proof that it accepts exactly those.

    * **Documents**: each dialect sorts a document by itself, without a state
      (`messagesDocument`, `chatDocument`).
    * **Grammars**: `MessagesStream` and `ChatStream` over the sorted documents.
    * **The machine**: `feed` is a step over sorted documents
      (`feedDocument_messages`, `feedDocument_chat`), and a run of steps is
      accepted exactly on the grammar of its dialect.
-/

namespace Lares.Gateway

namespace TerminalEvidence

/-! ## Section 1: Sorted documents -/

/-- What a document of a `/v1/messages` stream says. -/
inductive MessagesDocument where
  | start (id : String) (usage : Usage)
  | delta (output : Nat) (final : Bool)
  | content
  | stop

/-- A `message_start` with an id and a valid usage. -/
def startDocument (fields : List (String × Json)) : Option MessagesDocument := do
  let message ← (Json.get fields "message").asDict
  let id ← (Json.get message "id").asNonempty
  let usage ← anthropicUsage (Json.get message "usage")
  return .start id usage

/-- A `message_delta` with a valid count and no stop reason, or an accepted one. -/
def deltaDocument (fields : List (String × Json)) : Option MessagesDocument := do
  let delta ← (Json.get fields "delta").asDict
  let usage ← (Json.get fields "usage").asDict
  let output ← integer (Json.get usage "output_tokens")
  let reason := Json.get delta "stop_reason"
  if reason.isNull then some (.delta output false)
  else if stopReason reason true then some (.delta output true)
  else none

def messagesDocument (document : Json) : Option MessagesDocument := do
  let fields ← document.asDict
  if Json.hasKey fields "error" then none
  else
    let kind := Json.get fields "type"
    if kind.isText "message_start" then startDocument fields
    else if kind.isText "message_delta" then deltaDocument fields
    else if kind.isText "message_stop" then some .stop
    else if kind.isOneOf
        ["content_block_start", "content_block_delta", "content_block_stop", "ping"] then
      some .content
    else none

/-- The choice of a `/v1/chat/completions` document, if it has one. -/
inductive ChatChoice where
  | absent | unfinished | finished
  deriving DecidableEq

structure ChatDocument where
  id : String
  choice : ChatChoice
  usage : Option Usage

def chatChoice (choices : List Json) : Option ChatChoice :=
  match choices with
  | [] => some .absent
  | [.obj choice] =>
      if !(Json.get choice "index").isZero then none
      else
        let reason := Json.get choice "finish_reason"
        if reason.isNull then some .unfinished
        else if stopReason reason false then some .finished
        else none
  | _ => none

/-- The usage of a document: none at all, or a valid one. -/
def chatUsage (reported : Json) : Option (Option Usage) :=
  if reported.isNull then some none else (openaiUsage reported).map some

def chatDocument (document : Json) : Option ChatDocument := do
  let fields ← document.asDict
  if Json.hasKey fields "error" then none
  else do
    let choices ← (Json.get fields "choices").asList
    let id ← (Json.get fields "id").asNonempty
    let choice ← chatChoice choices
    let usage ← chatUsage (Json.get fields "usage")
    return ⟨id, choice, usage⟩

/-! ## Section 2: The grammars -/

/-- The documents are, in order, of these sorts. -/
def Sorted {α : Type} (sort : Json → Option α) (documents : List Json) (sorts : List α) : Prop :=
  List.Forall₂ (fun d s => sort d = some s) documents sorts

/-- The token counts that `message_delta` documents report. -/
def outputs (sorts : List MessagesDocument) : List Nat :=
  sorts.filterMap fun
    | .delta output _ => some output
    | _ => none

/-- Content, pings and deltas without a stop reason. -/
def MessagesDocument.isMiddle : MessagesDocument → Bool
  | .content | .delta _ false => true
  | _ => false

/-- A complete `/v1/messages` stream and its usage: a start, any number of middle
    documents, one delta with a stop reason and a stop, with output counts that
    never go down; the usage is the start's with the last count. -/
def MessagesStream (documents : List Json) (usage : Usage) : Prop :=
  ∃ id first middle last,
    Sorted messagesDocument documents
      (.start id first :: middle ++ [.delta last true, .stop]) ∧
    (∀ d ∈ middle, d.isMiddle = true) ∧
    (first.outputTokens :: outputs middle ++ [last]).IsChain (· ≤ ·) ∧
    usage = { first with outputTokens := last }

/-- A complete `/v1/chat/completions` stream and its usage: one id, one finished
    choice, no choice after it, no usage before it, and one usage in all. -/
def ChatStream (documents : List Json) (usage : Usage) : Prop :=
  ∃ id before finish after,
    Sorted chatDocument documents (before ++ finish :: after) ∧
    (∀ d ∈ before ++ finish :: after, d.id = id) ∧
    (∀ d ∈ before, d.choice ≠ .finished ∧ d.usage = none) ∧
    finish.choice = .finished ∧
    (∀ d ∈ after, d.choice = .absent) ∧
    (finish :: after).filterMap (·.usage) = [usage]

/-! ## Section 3: Steps over sorted documents -/

def messagesStep (s : TerminalEvidence) : MessagesDocument → Option TerminalEvidence
  | .start id usage =>
      if s.stopped || s.started then none
      else some { s with
        responseId := some id, usage := some usage, output := usage.outputTokens, started := true }
  | .delta output final =>
      if s.stopped || !s.started || s.finalDelta || output < s.output then none
      else if final then some { s with
        output
        finalDelta := true
        usage := s.usage.map fun u => { u with outputTokens := output } }
      else some { s with output }
  | .content => if s.stopped || !s.started || s.finalDelta then none else some s
  | .stop =>
      if s.stopped || !s.started || !s.finalDelta then none else some { s with stopped := true }

def chatStep (s : TerminalEvidence) (d : ChatDocument) : Option TerminalEvidence :=
  let stopped := s.stopped || d.choice = .finished
  if s.responseId.any (· != d.id) || (s.stopped && d.choice ≠ .absent) then none
  else match d.usage with
  | none => some { s with responseId := some d.id, stopped }
  | some usage =>
      if !stopped || s.usage.isSome then none
      else some { s with responseId := some d.id, stopped, usage := some usage }

theorem feedMessageStart_eq (s : TerminalEvidence) (fields : List (String × Json)) :
    (if s.stopped then none else feedMessageStart s fields) =
      (startDocument fields).bind (messagesStep s) := by
  unfold feedMessageStart startDocument
  cases (Json.get fields "message").asDict with
  | none => cases s.stopped <;> cases s.started <;> rfl
  | some message =>
    simp only [Option.bind_eq_bind, Option.bind_some]
    cases (Json.get message "id").asNonempty with
    | none => cases s.stopped <;> cases s.started <;> rfl
    | some id =>
      simp only [Option.bind_some]
      cases anthropicUsage (Json.get message "usage") with
      | none => cases s.stopped <;> cases s.started <;> rfl
      | some usage =>
        simp only [Option.bind_some, Option.pure_def, messagesStep]
        cases s.stopped <;> cases s.started <;> rfl

theorem feedMessageDelta_eq (s : TerminalEvidence) (fields : List (String × Json)) :
    (if s.stopped then none else feedMessageDelta s fields) =
      (deltaDocument fields).bind (messagesStep s) := by
  unfold feedMessageDelta deltaDocument
  cases (Json.get fields "delta").asDict with
  | none => cases s.stopped <;> cases s.started <;> cases s.finalDelta <;> rfl
  | some delta =>
    simp only [Option.bind_eq_bind, Option.bind_some]
    cases (Json.get fields "usage").asDict with
    | none => cases s.stopped <;> cases s.started <;> cases s.finalDelta <;> rfl
    | some usage =>
      simp only [Option.bind_some]
      cases integer (Json.get usage "output_tokens") with
      | none => cases s.stopped <;> cases s.started <;> cases s.finalDelta <;> rfl
      | some output =>
        simp only [Option.bind_some]
        generalize Json.get delta "stop_reason" = reason
        by_cases hlow : output < s.output <;> cases reason.isNull <;>
          cases stopReason reason true <;> cases hs : s.stopped <;> cases hst : s.started <;>
          cases hf : s.finalDelta <;> simp [messagesStep, hlow, hs, hst, hf]

theorem feedDocument_messages {s : TerminalEvidence} (hpath : s.path = .messages)
    (hp : s.poisoned = false) (document : Json) :
    feedDocument s document = (messagesDocument document).bind (messagesStep s) := by
  unfold feedDocument messagesDocument
  cases document.asDict with
  | none => rfl
  | some fields =>
    simp only [Option.bind_eq_bind, Option.bind_some, hp, Bool.false_or, hpath, if_true]
    split
    · rfl
    · unfold feedMessages
      simp only
      generalize Json.get fields "type" = kind
      have hstart := feedMessageStart_eq s fields
      have hdelta := feedMessageDelta_eq s fields
      cases hs : s.stopped with
      | true =>
        rw [if_pos hs] at hstart hdelta
        rw [if_pos rfl]
        split
        · exact hstart
        split
        · exact hdelta
        split
        · simp [messagesStep, hs]
        split
        · simp [messagesStep, hs]
        · rfl
      | false =>
        rw [if_neg (by simp [hs])] at hstart hdelta
        rw [if_neg (by simp)]
        split
        · exact hstart
        split
        · exact hdelta
        split
        · simp [messagesStep, hs]
        · cases kind.isOneOf
            ["content_block_start", "content_block_delta", "content_block_stop", "ping"] <;>
            cases hst : s.started <;> cases hf : s.finalDelta <;> simp [messagesStep, hs, hst, hf]

theorem chatChoice_long {choices : List Json} (h : choices.length > 1) :
    chatChoice choices = none := by
  match choices, h with
  | _ :: _ :: _, _ => simp [chatChoice]

/-- A document has a choice exactly when its list of choices is not empty. -/
theorem chatChoice_absent {choices : List Json} {c : ChatChoice}
    (h : chatChoice choices = some c) : c = .absent ↔ choices = [] := by
  unfold chatChoice at h
  split at h
  · cases h
    simp
  · split at h
    · cases h
    · simp only at h
      split at h
      · cases h
        simp
      · split at h <;> cases h
        simp
  · cases h

/-- The loop over at most one choice, of which there is none once stopped. -/
theorem foldlM_choices {choices : List Json} {stopped : Bool} (hlen : ¬choices.length > 1)
    (hstop : (stopped && !choices.isEmpty) = false) :
    choices.foldlM feedChoice stopped =
      (chatChoice choices).map fun c => stopped || c = .finished := by
  match choices, hlen with
  | [], _ => simp [chatChoice]
  | [choice], _ =>
    have hs : stopped = false := by simpa using hstop
    subst hs
    simp only [List.foldlM_cons, List.foldlM_nil, feedChoice]
    cases choice with
    | obj fields =>
      simp only [Json.asDict, chatChoice, Option.bind_eq_bind, Option.bind_some, Bool.false_or]
      generalize Json.get fields "finish_reason" = reason
      cases (Json.get fields "index").isZero <;> cases reason.isNull <;>
        cases stopReason reason false <;> rfl
    | _ => rfl
  | _ :: _ :: _, hlen => simp at hlen

theorem feedDocument_chat {s : TerminalEvidence} (hpath : s.path ≠ .messages)
    (hp : s.poisoned = false) (document : Json) :
    feedDocument s document = (chatDocument document).bind (chatStep s) := by
  unfold feedDocument chatDocument
  cases document.asDict with
  | none => rfl
  | some fields =>
    simp only [Option.bind_eq_bind, Option.bind_some, hp, Bool.false_or, hpath, if_false]
    split
    · rfl
    · unfold feedChat
      cases (Json.get fields "choices").asList with
      | none => rfl
      | some choices =>
        simp only [Option.bind_eq_bind, Option.bind_some]
        cases (Json.get fields "id").asNonempty with
        | none => rfl
        | some id =>
          simp only [Option.bind_some]
          by_cases hlen : choices.length > 1
          · rw [if_pos hlen, chatChoice_long hlen]
            rfl
          rw [if_neg hlen]
          generalize Json.get fields "usage" = reported
          by_cases hrefuse : s.responseId.any (· != id) = true ∨
              (s.stopped && !choices.isEmpty) = true
          · -- the document is refused whatever it reports
            have hnone : ∀ c u, chatChoice choices = some c → chatStep s ⟨id, c, u⟩ = none := by
              intro c u hc
              have habs := chatChoice_absent hc
              unfold chatStep
              rw [if_pos]
              rcases hrefuse with h | h
              · simp [h]
              · simp only [Bool.and_eq_true, Bool.not_eq_true', List.isEmpty_eq_false_iff] at h
                have hne : c ≠ .absent := fun he => h.2 (habs.1 he)
                simp [h.1, hne]
            have hleft : ∀ k : Option TerminalEvidence,
                (if s.responseId.any (· != id) = true then none
                  else if (s.stopped && !choices.isEmpty) = true then none else k) = none := by
              intro k
              rcases hrefuse with h | h
              · rw [if_pos h]
              · rw [if_pos h]
                split <;> rfl
            rw [hleft]
            cases hc : chatChoice choices with
            | none => rfl
            | some c =>
              simp only [Option.bind_some]
              cases chatUsage reported with
              | none => rfl
              | some u => exact (hnone c u hc).symm
          · rw [not_or] at hrefuse
            have hstop : (s.stopped && !choices.isEmpty) = false := by simpa using hrefuse.2
            rw [if_neg hrefuse.1, if_neg hrefuse.2, foldlM_choices hlen hstop]
            cases hc : chatChoice choices with
            | none => rfl
            | some c =>
              have habs := chatChoice_absent hc
              have hgo : (s.responseId.any (· != id) || (s.stopped && decide (c ≠ .absent))) =
                  false := by
                have hfree : (s.stopped && decide (c ≠ .absent)) = false := by
                  cases hs : s.stopped with
                  | false => rfl
                  | true =>
                    rw [hs] at hstop
                    simp only [Bool.true_and, Bool.not_eq_false', List.isEmpty_iff] at hstop
                    simp [habs.2 hstop]
                rw [hfree, Bool.or_false]
                simpa using hrefuse.1
              have hstep : ∀ u, chatStep s ⟨id, c, u⟩ = match u with
                  | none => some { s with
                      responseId := some id, stopped := s.stopped || decide (c = .finished) }
                  | some usage =>
                      if !(s.stopped || decide (c = .finished)) || s.usage.isSome then none
                      else some { s with
                        responseId := some id
                        stopped := s.stopped || decide (c = .finished)
                        usage := some usage } := by
                intro u
                unfold chatStep
                rw [if_neg (by simpa using hgo)]
              simp only [Option.map_some, Option.bind_some, chatUsage]
              cases reported.isNull with
              | true => exact (hstep none).symm
              | false =>
                cases openaiUsage reported with
                | none => simp
                | some u =>
                  simp only [Option.map_some, Option.bind_some, Option.pure_def, hstep,
                    Bool.false_eq_true, if_false]

/-! ## Section 4: Runs of the machine -/

section Runs

variable {α : Type} {step : TerminalEvidence → α → Option TerminalEvidence}

/-- The steps go through from `s` and end stopped with this usage. -/
def Accepts (step : TerminalEvidence → α → Option TerminalEvidence) (s : TerminalEvidence)
    (sorts : List α) (usage : Usage) : Prop :=
  ∃ t, sorts.foldlM step s = some t ∧ t.stopped = true ∧ t.usage = some usage

theorem accepts_nil {s : TerminalEvidence} {usage : Usage} :
    Accepts step s [] usage ↔ s.stopped = true ∧ s.usage = some usage := by
  simp [Accepts]

theorem accepts_cons {s : TerminalEvidence} {m : α} {ms : List α} {usage : Usage} :
    Accepts step s (m :: ms) usage ↔ ∃ t, step s m = some t ∧ Accepts step t ms usage := by
  simp only [Accepts, List.foldlM_cons, Option.bind_eq_bind, Option.bind_eq_some_iff]
  constructor
  · rintro ⟨t, ⟨u, hu, ht⟩, hend⟩
    exact ⟨u, hu, t, ht, hend⟩
  · rintro ⟨u, hu, t, ht, hend⟩
    exact ⟨t, ⟨u, hu, ht⟩, hend⟩

/-- A poisoned object stays poisoned. -/
theorem feed_poisoned {s : TerminalEvidence} (hp : s.poisoned = true) (document : Json) :
    (feed s document).poisoned = true := by
  have hnone : feedDocument s document = none := by
    unfold feedDocument
    cases document.asDict <;> simp [hp]
  rw [feed, hnone]
  rfl

theorem result_poisoned {s : TerminalEvidence} (hp : s.poisoned = true) (documents : List Json) :
    result (documents.foldl feed s) = none := by
  induction documents generalizing s with
  | nil => simp [result, hp]
  | cons d ds ih => exact ih (feed_poisoned hp d)

/-- Feeding documents is sorting each of them and stepping over the sorts. -/
theorem result_foldl {path : Path} {sort : Json → Option α}
    (hfeed : ∀ s document, s.path = path → s.poisoned = false →
      feedDocument s document = (sort document).bind (step s))
    (hkeep : ∀ s m t, step s m = some t → t.path = s.path ∧ t.poisoned = s.poisoned)
    {s : TerminalEvidence} (hpath : s.path = path) (hp : s.poisoned = false)
    {documents : List Json} {usage : Usage} :
    result (documents.foldl feed s) = some usage ↔
      ∃ sorts, Sorted sort documents sorts ∧ Accepts step s sorts usage := by
  induction documents generalizing s with
  | nil =>
    simp only [List.foldl_nil, result, hp, Bool.not_false, Bool.and_true]
    constructor
    · intro h
      split at h
      · next hs => exact ⟨[], .nil, accepts_nil.2 ⟨hs, h⟩⟩
      · cases h
    · rintro ⟨sorts, hsorts, hacc⟩
      cases hsorts
      obtain ⟨hs, hu⟩ := accepts_nil.1 hacc
      rw [if_pos hs, hu]
  | cons d ds ih =>
    have hd := hfeed s d hpath hp
    rw [List.foldl_cons]
    cases hstep : feedDocument s d with
    | none =>
      have hpois : (feed s d).poisoned = true := by
        rw [feed, hstep]
        rfl
      rw [result_poisoned hpois]
      constructor
      · intro h
        cases h
      · rintro ⟨sorts, hsorts, hacc⟩
        cases hsorts with
        | cons hm hms =>
          obtain ⟨t, ht, -⟩ := accepts_cons.1 hacc
          rw [hstep, hm, Option.bind_some, ht] at hd
          cases hd
    | some t =>
      have hfed : feed s d = t := by
        rw [feed, hstep]
        rfl
      rw [hstep] at hd
      obtain ⟨m, hm, ht⟩ := Option.bind_eq_some_iff.1 hd.symm
      obtain ⟨htp, htpois⟩ := hkeep s m t ht
      rw [hfed, ih (htp.trans hpath) (htpois.trans hp)]
      constructor
      · rintro ⟨sorts, hsorts, hacc⟩
        exact ⟨m :: sorts, .cons hm hsorts, accepts_cons.2 ⟨t, ht, hacc⟩⟩
      · rintro ⟨sorts, hsorts, hacc⟩
        cases hsorts with
        | cons hm' hms =>
          obtain ⟨t', ht', hacc'⟩ := accepts_cons.1 hacc
          rw [hm] at hm'
          cases hm'
          rw [ht] at ht'
          cases ht'
          exact ⟨_, hms, hacc'⟩

end Runs

theorem messagesStep_keep (s : TerminalEvidence) (m : MessagesDocument) (t : TerminalEvidence)
    (h : messagesStep s m = some t) : t.path = s.path ∧ t.poisoned = s.poisoned := by
  cases m with
  | start id usage =>
    simp only [messagesStep] at h
    split at h <;> cases h
    exact ⟨rfl, rfl⟩
  | delta output final =>
    simp only [messagesStep] at h
    split at h
    · cases h
    · split at h <;> cases h <;> exact ⟨rfl, rfl⟩
  | content =>
    simp only [messagesStep] at h
    split at h <;> cases h
    exact ⟨rfl, rfl⟩
  | stop =>
    simp only [messagesStep] at h
    split at h <;> cases h
    exact ⟨rfl, rfl⟩

theorem chatStep_keep (s : TerminalEvidence) (d : ChatDocument) (t : TerminalEvidence)
    (h : chatStep s d = some t) : t.path = s.path ∧ t.poisoned = s.poisoned := by
  unfold chatStep at h
  split at h
  · cases h
  · split at h
    · cases h
      exact ⟨rfl, rfl⟩
    · simp only at h
      split at h <;> cases h
      exact ⟨rfl, rfl⟩

/-! ## Section 5: Messages -/

/-- After `message_stop` nothing may follow. -/
theorem messages_stopped {s : TerminalEvidence} (hs : s.stopped = true)
    {ms : List MessagesDocument} {usage : Usage} :
    Accepts messagesStep s ms usage ↔ ms = [] ∧ s.usage = some usage := by
  cases ms with
  | nil => simp [accepts_nil, hs]
  | cons m ms =>
    rw [accepts_cons]
    cases m <;> simp [messagesStep, hs]

/-- After the final delta only `message_stop` may follow. -/
theorem messages_final {s : TerminalEvidence} (hs : s.stopped = false) (hst : s.started = true)
    (hf : s.finalDelta = true) {ms : List MessagesDocument} {usage : Usage} :
    Accepts messagesStep s ms usage ↔ ms = [.stop] ∧ s.usage = some usage := by
  cases ms with
  | nil => simp [accepts_nil, hs]
  | cons m ms =>
    rw [accepts_cons]
    cases m with
    | stop =>
      have hstep : messagesStep s .stop = some { s with stopped := true } := by
        simp [messagesStep, hs, hst, hf]
      simp only [hstep, Option.some.injEq, exists_eq_left', messages_stopped, List.cons.injEq,
        true_and]
    | _ => simp [messagesStep, hs, hst, hf]

/-- What may follow a start, when the last count was `out`: middle documents, the
    final delta and the stop. -/
def MessagesRest (out : Nat) (first : Usage) (ms : List MessagesDocument) (usage : Usage) : Prop :=
  ∃ middle last, ms = middle ++ [.delta last true, .stop] ∧
    (∀ d ∈ middle, d.isMiddle = true) ∧
    (out :: outputs middle ++ [last]).IsChain (· ≤ ·) ∧
    usage = { first with outputTokens := last }

theorem messagesRest_nil {out : Nat} {first usage : Usage} :
    ¬MessagesRest out first [] usage := by
  rintro ⟨middle, last, h, -⟩
  simp at h

/-- What follows, by its first document. -/
theorem messagesRest_cons {out : Nat} {first usage : Usage} {m : MessagesDocument}
    {ms : List MessagesDocument} :
    MessagesRest out first (m :: ms) usage ↔ match m with
      | .content => MessagesRest out first ms usage
      | .delta output false => out ≤ output ∧ MessagesRest output first ms usage
      | .delta output true => out ≤ output ∧ ms = [.stop] ∧
          usage = { first with outputTokens := output }
      | _ => False := by
  constructor
  · rintro ⟨middle, last, h, hmiddle, hchain, hu⟩
    cases middle with
    | nil =>
      simp only [List.nil_append, List.cons.injEq] at h
      obtain ⟨rfl, rfl⟩ := h
      exact ⟨(List.isChain_cons_cons.1 hchain).1, rfl, hu⟩
    | cons d middle =>
      simp only [List.cons_append, List.cons.injEq] at h
      obtain ⟨rfl, rfl⟩ := h
      have hd := hmiddle m List.mem_cons_self
      have hrest := fun d hd => hmiddle d (List.mem_cons_of_mem m hd)
      cases m with
      | content => exact ⟨middle, last, rfl, hrest, hchain, hu⟩
      | delta output final =>
        cases final with
        | true => cases hd
        | false =>
          obtain ⟨hle, hchain⟩ := List.isChain_cons_cons.1 hchain
          exact ⟨hle, middle, last, rfl, hrest, hchain, hu⟩
      | start => cases hd
      | stop => cases hd
  · intro h
    cases m with
    | content =>
      obtain ⟨middle, last, rfl, hmiddle, hchain, hu⟩ := h
      refine ⟨.content :: middle, last, rfl, ?_, hchain, hu⟩
      simpa [MessagesDocument.isMiddle] using hmiddle
    | delta output final =>
      cases final with
      | true =>
        obtain ⟨hle, rfl, hu⟩ := h
        exact ⟨[], output, rfl, by simp, by simpa [outputs] using hle, hu⟩
      | false =>
        obtain ⟨hle, middle, last, rfl, hmiddle, hchain, hu⟩ := h
        refine ⟨.delta output false :: middle, last, rfl, ?_, ?_, hu⟩
        · simpa [MessagesDocument.isMiddle] using hmiddle
        · exact List.isChain_cons_cons.2 ⟨hle, hchain⟩
    | start => exact h.elim
    | stop => exact h.elim

theorem messages_open {s : TerminalEvidence} {first : Usage} (hs : s.stopped = false)
    (hst : s.started = true) (hf : s.finalDelta = false) (hu : s.usage = some first)
    {ms : List MessagesDocument} {usage : Usage} :
    Accepts messagesStep s ms usage ↔ MessagesRest s.output first ms usage := by
  induction ms generalizing s with
  | nil =>
    rw [accepts_nil, hs]
    exact ⟨fun h => Bool.noConfusion h.1, fun h => (messagesRest_nil h).elim⟩
  | cons m ms ih =>
    rw [accepts_cons, messagesRest_cons]
    cases m with
    | content =>
      have hstep : messagesStep s .content = some s := by simp [messagesStep, hs, hst, hf]
      simp only [hstep, Option.some.injEq, exists_eq_left']
      exact ih hs hst hf hu
    | delta output final =>
      by_cases hlow : output < s.output
      · have hstep : messagesStep s (.delta output final) = none := by
          simp [messagesStep, hlow]
        cases final <;> simp [hstep, Nat.not_le.2 hlow]
      · have hle : s.output ≤ output := Nat.not_lt.1 hlow
        cases final with
        | false =>
          have hstep : messagesStep s (.delta output false) = some { s with output } := by
            simp [messagesStep, hs, hst, hf, hlow]
          simp only [hstep, Option.some.injEq, exists_eq_left', hle, true_and]
          exact ih (s := { s with output }) hs hst hf hu
        | true =>
          have hstep : messagesStep s (.delta output true) = some { s with
              output
              finalDelta := true
              usage := some { first with outputTokens := output } } := by
            simp [messagesStep, hs, hst, hf, hlow, hu]
          simp only [hstep, Option.some.injEq, exists_eq_left', hle, true_and]
          rw [messages_final (s := { s with
              output
              finalDelta := true
              usage := some { first with outputTokens := output } }) hs hst rfl,
            Option.some.injEq, eq_comm (a := usage)]
    | start id u => simp [messagesStep, hst]
    | stop => simp [messagesStep, hf]

/-- From a new object: a start, and what may follow it. -/
theorem messages_init {path : Path} {ms : List MessagesDocument} {usage : Usage} :
    Accepts messagesStep (init path) ms usage ↔
      ∃ id first rest, ms = .start id first :: rest ∧
        MessagesRest first.outputTokens first rest usage := by
  cases ms with
  | nil => simp [accepts_nil, init]
  | cons m ms =>
    rw [accepts_cons]
    cases m with
    | start id first =>
      have hstep : messagesStep (init path) (.start id first) = some { init path with
          responseId := some id
          usage := some first
          output := first.outputTokens
          started := true } := rfl
      simp only [hstep, Option.some.injEq, exists_eq_left']
      rw [messages_open rfl rfl rfl rfl]
      constructor
      · exact fun h => ⟨id, first, ms, rfl, h⟩
      · rintro ⟨_, _, _, h, hrest⟩
        cases h
        exact hrest
    | _ => simp [messagesStep, init]

theorem feedAll_messages {documents : List Json} {usage : Usage} :
    (feedAll .messages documents).result = some usage ↔ MessagesStream documents usage := by
  rw [feedAll, result_foldl (fun s d (hs : s.path = .messages) hp => feedDocument_messages hs hp d)
    messagesStep_keep rfl rfl]
  constructor
  · rintro ⟨sorts, hsorted, hacc⟩
    obtain ⟨id, first, rest, rfl, middle, last, rfl, hmiddle, hchain, hu⟩ := messages_init.1 hacc
    exact ⟨id, first, middle, last, hsorted, hmiddle, hchain, hu⟩
  · rintro ⟨id, first, middle, last, hsorted, hmiddle, hchain, hu⟩
    exact ⟨_, hsorted, messages_init.2 ⟨id, first, _, rfl, middle, last, rfl, hmiddle, hchain, hu⟩⟩

/-! ## Section 6: Chat completions -/

theorem chatStep_some {s t : TerminalEvidence} {d : ChatDocument} (h : chatStep s d = some t) :
    (∀ id, s.responseId = some id → d.id = id) ∧
      (s.stopped = true → d.choice = .absent) ∧
      t.responseId = some d.id ∧ t.stopped = (s.stopped || decide (d.choice = .finished)) ∧
      ((d.usage = none ∧ t.usage = s.usage) ∨
        ∃ u, d.usage = some u ∧ t.stopped = true ∧ s.usage = none ∧ t.usage = some u) := by
  unfold chatStep at h
  split at h
  · cases h
  · next hgo =>
    simp only [Bool.or_eq_true, Bool.and_eq_true, decide_eq_true_eq, not_or, not_and,
      not_not] at hgo
    obtain ⟨hid, hstop⟩ := hgo
    have hid' : ∀ id, s.responseId = some id → d.id = id := by
      intro id he
      simp only [he, Option.any_some, bne_iff_ne, not_not] at hid
      exact hid.symm
    split at h
    · next hnone =>
      cases h
      exact ⟨hid', hstop, rfl, rfl, .inl ⟨hnone, rfl⟩⟩
    · next u hsome =>
      simp only at h
      split at h
      · cases h
      · next hfree =>
        cases h
        simp only [Bool.or_eq_true, Bool.not_eq_true', not_or, Bool.not_eq_false,
          Option.not_isSome_iff_eq_none] at hfree
        refine ⟨hid', hstop, rfl, rfl, .inr ⟨u, hsome, ?_, hfree.2, rfl⟩⟩
        simpa using hfree.1

theorem chatStep_of {s : TerminalEvidence} {d : ChatDocument}
    (hid : ∀ id, s.responseId = some id → d.id = id)
    (hstop : s.stopped = true → d.choice = .absent)
    (husage : d.usage.isSome → (s.stopped || decide (d.choice = .finished)) = true ∧
      s.usage = none) :
    ∃ t, chatStep s d = some t := by
  unfold chatStep
  have hany : s.responseId.any (· != d.id) = false := by
    cases hr : s.responseId with
    | none => rfl
    | some id => simp [hid id hr]
  have hfree : (s.stopped && decide (d.choice ≠ .absent)) = false := by
    cases hs : s.stopped with
    | false => rfl
    | true => simp [hstop hs]
  rw [if_neg (by rw [hany, hfree]; simp)]
  cases hu : d.usage with
  | none => exact ⟨_, rfl⟩
  | some u =>
    obtain ⟨hst, hnone⟩ := husage (by rw [hu]; rfl)
    simp only [hst, hnone]
    exact ⟨_, rfl⟩

/-- The usages that sorted documents report, in order. -/
def usages (ds : List ChatDocument) : List Usage := ds.filterMap (·.usage)

/-- What may follow the finished choice: documents without a choice, whose
    usages complete the one of the stream. -/
theorem chat_stopped {s : TerminalEvidence} {id : String} (hs : s.stopped = true)
    (hid : s.responseId = some id) {ds : List ChatDocument} {usage : Usage} :
    Accepts chatStep s ds usage ↔
      (∀ d ∈ ds, d.id = id) ∧ (∀ d ∈ ds, d.choice = .absent) ∧
        s.usage.toList ++ usages ds = [usage] := by
  induction ds generalizing s with
  | nil =>
    simp only [accepts_nil, hs, true_and, usages, List.filterMap_nil, List.append_nil,
      List.not_mem_nil, false_implies, implies_true]
    cases s.usage <;> simp
  | cons d ds ih =>
    rw [accepts_cons]
    constructor
    · rintro ⟨t, hstep, hacc⟩
      obtain ⟨hsame, habs, htid, htstop, hcase⟩ := chatStep_some hstep
      rw [hs, Bool.true_or] at htstop
      rw [hsame id hid] at htid
      obtain ⟨hids, hchoices, hus⟩ := (ih htstop htid).1 hacc
      refine ⟨List.forall_mem_cons.2 ⟨hsame id hid, hids⟩,
        List.forall_mem_cons.2 ⟨habs hs, hchoices⟩, ?_⟩
      rcases hcase with ⟨hnone, htu⟩ | ⟨u, hsome, -, hsu, htu⟩
      · rw [htu] at hus
        simpa [usages, hnone] using hus
      · rw [htu] at hus
        simpa [usages, hsome, hsu] using hus
    · rintro ⟨hids, hchoices, hus⟩
      obtain ⟨hdid, hids⟩ := List.forall_mem_cons.1 hids
      obtain ⟨hdc, hchoices⟩ := List.forall_mem_cons.1 hchoices
      have hone : d.usage.isSome → s.usage = none := by
        intro hsome
        obtain ⟨u, hu⟩ := Option.isSome_iff_exists.1 hsome
        cases hsu : s.usage with
        | none => rfl
        | some v =>
          rw [hsu] at hus
          simp [usages, hu] at hus
      obtain ⟨t, hstep⟩ := chatStep_of (s := s) (d := d)
        (fun id' he => by rw [hid] at he; cases he; exact hdid) (fun _ => hdc)
        (fun hsome => ⟨by rw [hs, Bool.true_or], hone hsome⟩)
      obtain ⟨-, -, htid, htstop, hcase⟩ := chatStep_some hstep
      rw [hs, Bool.true_or] at htstop
      rw [hdid] at htid
      refine ⟨t, hstep, (ih htstop htid).2 ⟨hids, hchoices, ?_⟩⟩
      rcases hcase with ⟨hnone, htu⟩ | ⟨u, hsome, -, hsu, htu⟩
      · rw [htu]
        simpa [usages, hnone] using hus
      · rw [htu]
        simpa [usages, hsome, hsu] using hus

/-- A stream that has not reached its finished choice. -/
def ChatRest (id : String) (ds : List ChatDocument) (usage : Usage) : Prop :=
  ∃ before finish after, ds = before ++ finish :: after ∧
    (∀ d ∈ ds, d.id = id) ∧
    (∀ d ∈ before, d.choice ≠ .finished ∧ d.usage = none) ∧
    finish.choice = .finished ∧ (∀ d ∈ after, d.choice = .absent) ∧
    usages (finish :: after) = [usage]

theorem chatRest_cons {id : String} {d : ChatDocument} {ds : List ChatDocument} {usage : Usage} :
    ChatRest id (d :: ds) usage ↔ d.id = id ∧
      ((d.choice ≠ .finished ∧ d.usage = none ∧ ChatRest id ds usage) ∨
        (d.choice = .finished ∧ (∀ x ∈ ds, x.id = id) ∧ (∀ x ∈ ds, x.choice = .absent) ∧
          usages (d :: ds) = [usage])) := by
  constructor
  · rintro ⟨before, finish, after, h, hids, hbefore, hfin, hafter, hus⟩
    obtain ⟨hdid, hids⟩ := List.forall_mem_cons.1 hids
    refine ⟨hdid, ?_⟩
    cases before with
    | nil =>
      simp only [List.nil_append, List.cons.injEq] at h
      obtain ⟨rfl, rfl⟩ := h
      exact .inr ⟨hfin, hids, hafter, hus⟩
    | cons b before =>
      simp only [List.cons_append, List.cons.injEq] at h
      obtain ⟨rfl, hds⟩ := h
      obtain ⟨⟨hc, hu⟩, hbefore⟩ := List.forall_mem_cons.1 hbefore
      exact .inl ⟨hc, hu, before, finish, after, hds, hids, hbefore, hfin, hafter, hus⟩
  · rintro ⟨hdid, ⟨hc, hu, before, finish, after, rfl, hids, hbefore, hfin, hafter, hus⟩ |
      ⟨hfin, hids, hafter, hus⟩⟩
    · exact ⟨d :: before, finish, after, rfl, List.forall_mem_cons.2 ⟨hdid, hids⟩,
        List.forall_mem_cons.2 ⟨⟨hc, hu⟩, hbefore⟩, hfin, hafter, hus⟩
    · exact ⟨[], d, ds, rfl, List.forall_mem_cons.2 ⟨hdid, hids⟩, by simp, hfin, hafter, hus⟩

/-- One document of a stream that has not stopped, with the id it shares. -/
theorem chat_step_open {s : TerminalEvidence} {id : String} (hs : s.stopped = false)
    (hu : s.usage = none) (hid : s.responseId = none ∨ s.responseId = some id)
    {d : ChatDocument} {ds : List ChatDocument} {usage : Usage}
    (ih : ∀ {t : TerminalEvidence}, t.stopped = false → t.usage = none →
      t.responseId = some id → (Accepts chatStep t ds usage ↔ ChatRest id ds usage)) :
    d.id = id → (Accepts chatStep s (d :: ds) usage ↔ ChatRest id (d :: ds) usage) := by
  intro hdid
  rw [accepts_cons, chatRest_cons]
  have hids : ∀ id', s.responseId = some id' → d.id = id' := by
    intro id' he
    rcases hid with h | h <;> rw [h] at he <;> cases he
    exact hdid
  constructor
  · rintro ⟨t, hstep, hacc⟩
    obtain ⟨-, -, htid, htstop, hcase⟩ := chatStep_some hstep
    rw [hs, Bool.false_or] at htstop
    rw [hdid] at htid
    refine ⟨hdid, ?_⟩
    by_cases hfin : d.choice = .finished
    · rw [hfin] at htstop
      obtain ⟨hall, hchoices, hus⟩ := (chat_stopped htstop htid).1 hacc
      refine .inr ⟨hfin, hall, hchoices, ?_⟩
      rcases hcase with ⟨hnone, htu⟩ | ⟨u, hsome, -, -, htu⟩
      · rw [htu, hu] at hus
        simpa [usages, hnone] using hus
      · rw [htu] at hus
        simpa [usages, hsome] using hus
    · have hts : t.stopped = false := by simpa [hfin] using htstop
      rcases hcase with ⟨hnone, htu⟩ | ⟨u, -, hstop, -, -⟩
      · exact .inl ⟨hfin, hnone, (ih hts (htu.trans hu) htid).1 hacc⟩
      · rw [hts] at hstop
        cases hstop
  · rintro ⟨-, ⟨hc, hnone, hrest⟩ | ⟨hfin, hall, hchoices, hus⟩⟩
    · obtain ⟨t, hstep⟩ := chatStep_of (s := s) (d := d) hids
        (fun h => by rw [hs] at h; cases h) (fun h => by rw [hnone] at h; cases h)
      obtain ⟨-, -, htid, htstop, hcase⟩ := chatStep_some hstep
      rw [hs, Bool.false_or] at htstop
      rw [hdid] at htid
      have hts : t.stopped = false := by simpa [hc] using htstop
      rcases hcase with ⟨-, htu⟩ | ⟨u, -, hstop, -, -⟩
      · exact ⟨t, hstep, (ih hts (htu.trans hu) htid).2 hrest⟩
      · rw [hts] at hstop
        cases hstop
    · obtain ⟨t, hstep⟩ := chatStep_of (s := s) (d := d) hids
        (fun h => by rw [hs] at h; cases h) (fun _ => ⟨by simp [hfin], hu⟩)
      obtain ⟨-, -, htid, htstop, hcase⟩ := chatStep_some hstep
      rw [hs, hfin] at htstop
      rw [hdid] at htid
      refine ⟨t, hstep, (chat_stopped htstop htid).2 ⟨hall, hchoices, ?_⟩⟩
      rcases hcase with ⟨hnone, htu⟩ | ⟨u, hsome, -, -, htu⟩
      · rw [htu, hu]
        simpa [usages, hnone] using hus
      · rw [htu]
        simpa [usages, hsome] using hus

theorem chat_open {s : TerminalEvidence} {id : String} (hs : s.stopped = false)
    (hu : s.usage = none) (hid : s.responseId = some id) {ds : List ChatDocument}
    {usage : Usage} : Accepts chatStep s ds usage ↔ ChatRest id ds usage := by
  induction ds generalizing s with
  | nil =>
    rw [accepts_nil, hs]
    refine ⟨fun h => Bool.noConfusion h.1, ?_⟩
    rintro ⟨before, finish, after, h, -⟩
    simp at h
  | cons d ds ih =>
    by_cases hdid : d.id = id
    · exact chat_step_open hs hu (.inr hid) ih hdid
    · rw [accepts_cons, chatRest_cons]
      constructor
      · rintro ⟨t, hstep, -⟩
        exact absurd ((chatStep_some hstep).1 id hid) hdid
      · exact fun h => absurd h.1 hdid

theorem chat_init {path : Path} {ds : List ChatDocument} {usage : Usage} :
    Accepts chatStep (init path) ds usage ↔ ∃ id, ChatRest id ds usage := by
  cases ds with
  | nil =>
    rw [accepts_nil]
    refine ⟨fun h => Bool.noConfusion h.1, ?_⟩
    rintro ⟨id, before, finish, after, h, -⟩
    simp at h
  | cons d ds =>
    rw [chat_step_open (s := init path) (d := d) rfl rfl (.inl rfl)
      (fun hs hu hid => chat_open hs hu hid) rfl]
    exact ⟨fun h => ⟨d.id, h⟩, fun ⟨id, h⟩ => by
      obtain ⟨rfl, -⟩ := chatRest_cons.1 h
      exact h⟩

theorem feedAll_chat {p : Path} (hpath : p ≠ .messages) {documents : List Json}
    {usage : Usage} :
    (feedAll p documents).result = some usage ↔ ChatStream documents usage := by
  rw [feedAll, result_foldl (fun s d (hs : s.path = p) hp => feedDocument_chat (hs ▸ hpath) hp d)
    chatStep_keep rfl rfl]
  constructor
  · rintro ⟨sorts, hsorted, hacc⟩
    obtain ⟨id, before, finish, after, rfl, hids, hbefore, hfin, hafter, hus⟩ := chat_init.1 hacc
    exact ⟨id, before, finish, after, hsorted, hids, hbefore, hfin, hafter, hus⟩
  · rintro ⟨id, before, finish, after, hsorted, hids, hbefore, hfin, hafter, hus⟩
    exact ⟨_, hsorted, chat_init.2
      ⟨id, before, finish, after, rfl, hids, hbefore, hfin, hafter, hus⟩⟩

/-! ## Section 7: The result -/

/-- `"error" in document` -/
def hasError (document : Json) : Bool :=
  match document with
  | .obj fields => Json.hasKey fields "error"
  | _ => false

theorem messagesDocument_error {document : Json} (h : hasError document = true) :
    messagesDocument document = none := by
  cases document with
  | obj fields =>
    have hkey : Json.hasKey fields "error" = true := h
    simp [messagesDocument, Json.asDict, hkey]
  | _ => rfl

theorem chatDocument_error {document : Json} (h : hasError document = true) :
    chatDocument document = none := by
  cases document with
  | obj fields =>
    have hkey : Json.hasKey fields "error" = true := h
    simp [chatDocument, Json.asDict, hkey]
  | _ => rfl

/-- A list with an error document is in no grammar. -/
theorem not_sorted_of_error {α : Type} {sort : Json → Option α} {documents : List Json}
    {sorts : List α} (hsort : ∀ d, hasError d = true → sort d = none)
    (h : ∃ d ∈ documents, hasError d = true) : ¬Sorted sort documents sorts := by
  rintro hsorted
  obtain ⟨d, hd, herr⟩ := h
  induction hsorted with
  | nil => cases hd
  | cons hx _ ih =>
    rcases List.mem_cons.1 hd with rfl | hd
    · rw [hsort _ herr] at hx
      cases hx
    · exact ih hd

/-- **`TerminalEvidence` accepts exactly complete streams.** On `/v1/messages` and
    on `/v1/chat/completions` the result is a usage record exactly when the
    documents are in the grammar of the path with that usage, and `None`
    otherwise; one error document anywhere makes it `None`. -/
theorem terminalEvidence_complete (documents : List Json) :
    (∀ usage, (feedAll .messages documents).result = some usage ↔
      MessagesStream documents usage) ∧
    ((feedAll .messages documents).result = none ↔ ¬∃ usage, MessagesStream documents usage) ∧
    (∀ usage, (feedAll .chatCompletions documents).result = some usage ↔
      ChatStream documents usage) ∧
    ((feedAll .chatCompletions documents).result = none ↔ ¬∃ usage, ChatStream documents usage) ∧
    ((∃ d ∈ documents, hasError d = true) →
      (feedAll .messages documents).result = none ∧
        (feedAll .chatCompletions documents).result = none) := by
  have hmessages : (feedAll .messages documents).result = none ↔
      ¬∃ usage, MessagesStream documents usage := by
    simp only [← feedAll_messages, ← Option.isSome_iff_exists, Option.not_isSome_iff_eq_none]
  have hchat : (feedAll .chatCompletions documents).result = none ↔
      ¬∃ usage, ChatStream documents usage := by
    simp only [← feedAll_chat (p := .chatCompletions) (by simp), ← Option.isSome_iff_exists,
      Option.not_isSome_iff_eq_none]
  refine ⟨fun _ => feedAll_messages, hmessages, fun _ => feedAll_chat (by simp), hchat, ?_⟩
  -- A document with an error belongs to neither grammar.
  intro herr
  constructor
  · rw [hmessages]
    rintro ⟨usage, id, first, middle, last, hsorted, -⟩
    exact not_sorted_of_error (fun _ => messagesDocument_error) herr hsorted
  · rw [hchat]
    rintro ⟨usage, id, before, finish, after, hsorted, -⟩
    exact not_sorted_of_error (fun _ => chatDocument_error) herr hsorted

/-- A stream of three documents, and the same with an error document in it. -/
theorem terminalEvidence_complete_sample :
    MessagesStream
      [.obj [("type", .str "message_start"), ("message", .obj [("id", .str "m"),
          ("usage", .obj [("input_tokens", .int 7), ("output_tokens", .int 1)])])],
        .obj [("type", .str "message_delta"), ("delta", .obj [("stop_reason", .str "end_turn")]),
          ("usage", .obj [("output_tokens", .int 4)])],
        .obj [("type", .str "message_stop")]] ⟨7, 4, 0, 0⟩ ∧
    (feedAll .chatCompletions [.obj [("error", .null)]]).result = none :=
  ⟨((terminalEvidence_complete _).1 _).1 (by decide),
    ((terminalEvidence_complete _).2.2.2.2 ⟨_, List.mem_singleton.2 rfl, by decide⟩).2⟩

end TerminalEvidence

end Lares.Gateway
