import Lares.Framework.Chunks
import Mathlib.Data.List.DropRight
import Lares.Gateway.TerminalEvidence

/-! # Wire evidence

    `WireEvidence` of the gateway: bounded parsing of the provider bytes as they
    arrive. `parse_json` reads a payload with the standard library's reader and is
    a parameter: it depends on the payload alone.

    Every chunk rewrites the whole buffer, also the part that was rewritten with
    an earlier chunk. A carriage return that was left before a rewritten line
    feed (`CR CR LF`) is therefore dropped by the next chunk, and the result
    depends on where the chunks end. Where no such line end is left in the buffer
    for another chunk, the result is a function of the bytes (`evidence_chunks`).
-/

namespace Lares.Gateway

abbrev Bytes := List UInt8

/-! ## Section 1: Bytes -/

def CR : UInt8 := 13
def LF : UInt8 := 10

/-- The bytes of an ASCII text. -/
def ascii (text : String) : Bytes := text.toList.map fun c => c.toNat.toUInt8

/-- `replace(b"\r\n", b"\n")` -/
def replaceCrlf (bytes : Bytes) : Bytes := Chunks.normalize CR LF bytes

/-- The bytes that `bytes.strip()` takes off the ends. -/
def isByteSpace (b : UInt8) : Bool := b == 32 || (9 ≤ b && b ≤ 13)

/-- The payload lines of an event: `line[5:].lstrip()` of each line with `data:`. -/
def dataLines (event : Bytes) : List Bytes :=
  ((event.splitOn LF).filter fun line => (ascii "data:").isPrefixOf line).map fun line =>
    (line.drop 5).dropWhile isByteSpace

/-- `b"\n".join(lines)` -/
def joinLines (lines : List Bytes) : Bytes := [LF].intercalate lines

/-! ## Section 2: The object -/

/-- The characters that `str.strip()` takes off the ends. -/
def isTextSpace (c : Char) : Bool :=
  let n := c.toNat
  (9 ≤ n && n ≤ 13) || (28 ≤ n && n ≤ 32) || n == 0x85 || n == 0xA0 || n == 0x1680
    || (0x2000 ≤ n && n ≤ 0x200A) || n == 0x2028 || n == 0x2029 || n == 0x202F || n == 0x205F
    || n == 0x3000

/-- `content_type.split(";")[0].strip()` -/
def mediaType (contentType : List Char) : List Char :=
  ((contentType.takeWhile (· ≠ ';')).dropWhile isTextSpace).rdropWhile isTextSpace

def MAX_RESPONSE_BYTES : Nat := 1048576
def MAX_EMBEDDING_RESPONSE_BYTES : Nat := 4 * 1048576

/-- The fields of a `WireEvidence` object. -/
structure WireEvidence where
  /-- Which of the two dialects. -/
  path : TerminalEvidence.Path
  /-- How long an event may be. -/
  limit : Nat
  /-- A stream, or one document. -/
  sse : Bool
  /-- Something was wrong with it. -/
  poisoned : Bool
  /-- What is not read yet. -/
  buffer : Bytes
  /-- How much there was. -/
  total : Nat
  /-- The last event was seen. -/
  done : Bool
  /-- What the events say. -/
  events : TerminalEvidence

namespace WireEvidence

/-- `WireEvidence(wire, content_type, status)` -/
def init (wire : String) (contentType : List Char) (status : Int) : WireEvidence :=
  let path : TerminalEvidence.Path :=
    if wire = "anthropic" then .messages
    else if wire = "embedding" then .embeddings
    else .chatCompletions
  let media := mediaType contentType
  let sse := media = "text/event-stream".toList
  { path
    limit := if wire = "embedding" then MAX_EMBEDDING_RESPONSE_BYTES else MAX_RESPONSE_BYTES
    sse
    poisoned := status != 200
      || (media ≠ "application/json".toList && media ≠ "text/event-stream".toList)
      || (wire = "embedding" && sse)
    buffer := []
    total := 0
    done := false
    events := TerminalEvidence.init path }

/-- What the loop over events changes: `done` and `events`. -/
abbrev Progress := Bool × TerminalEvidence

variable (parseJson : Bytes → Option Json)

/-- The body of the loop for one event; `none` is a refusal. -/
def feedEvent (path : TerminalEvidence.Path) (s : Progress) (event : Bytes) : Option Progress :=
  match dataLines event with
  | [] => some s
  | lines =>
      if s.1 then none
      else
        let payload := joinLines lines
        if payload = ascii "[DONE]" then
          if path ≠ .chatCompletions || s.2.result.isNone then none else some (true, s.2)
        else do
          let document ← parseJson payload
          let events := s.2.feed document
          if events.poisoned then none else some (s.1, events)

/-- The loop over the complete events in the buffer. -/
def drainEvents (path : TerminalEvidence.Path) (s : Progress) (buffer : Bytes) :
    Option (Progress × Bytes) :=
  Chunks.drain LF (feedEvent parseJson path) s buffer

/-- `feed`. What a refused event changed before it was refused is not read again. -/
def feed (w : WireEvidence) (raw : Bytes) : WireEvidence :=
  if w.poisoned then w
  else if w.total + raw.length > w.limit then
    { w with total := w.total + raw.length, poisoned := true, buffer := [] }
  else if !w.sse then
    { w with total := w.total + raw.length, buffer := w.buffer ++ raw }
  else match drainEvents parseJson w.path (w.done, w.events) (replaceCrlf (w.buffer ++ raw)) with
  | none => { w with total := w.total + raw.length, poisoned := true, buffer := [] }
  | some ((done, events), rest) =>
      { w with total := w.total + raw.length, buffer := rest, done, events }

/-- `finish` -/
def finish (w : WireEvidence) : Option Usage :=
  if w.poisoned then none
  else if w.sse then
    if !w.buffer.all isByteSpace || (w.path = .chatCompletions && !w.done) then none
    else w.events.result
  else (parseJson w.buffer).bind (TerminalEvidence.nonstream w.path)

/-- The usage that is read from a response whose bytes arrive in these chunks. -/
def evidence (wire : String) (contentType : List Char) (status : Int) (chunks : List Bytes) :
    Option Usage :=
  finish parseJson (chunks.foldl (feed parseJson) (init wire contentType status))

/-! ## Section 3: Feeding all chunks -/

theorem feed_poisoned {w : WireEvidence} (h : w.poisoned = true) (raw : Bytes) :
    feed parseJson w raw = w := by
  rw [feed, if_pos h]

theorem foldl_poisoned {w : WireEvidence} (h : w.poisoned = true) (chunks : List Bytes) :
    chunks.foldl (feed parseJson) w = w := by
  induction chunks with
  | nil => rfl
  | cons raw chunks ih => rw [List.foldl_cons, feed_poisoned parseJson h, ih]

theorem finish_poisoned {w : WireEvidence} (h : w.poisoned = true) : finish parseJson w = none := by
  rw [finish, if_pos h]

/-- What `feed` never changes. -/
theorem feed_fixed (w : WireEvidence) (raw : Bytes) :
    (feed parseJson w raw).path = w.path ∧ (feed parseJson w raw).limit = w.limit ∧
      (feed parseJson w raw).sse = w.sse := by
  unfold feed
  split
  · exact ⟨rfl, rfl, rfl⟩
  split
  · exact ⟨rfl, rfl, rfl⟩
  split
  · exact ⟨rfl, rfl, rfl⟩
  split <;> exact ⟨rfl, rfl, rfl⟩

/-- An object that is not poisoned has counted every byte, and they fit. -/
theorem feed_total {w : WireEvidence} {raw : Bytes} (h : (feed parseJson w raw).poisoned = false) :
    w.poisoned = false ∧ (feed parseJson w raw).total = w.total + raw.length ∧
      w.total + raw.length ≤ w.limit := by
  unfold feed at h ⊢
  split at h
  · next hp => exact absurd h (by simp [hp])
  next hp =>
  rw [if_neg hp]
  split at h
  · cases h
  next hlimit =>
  rw [if_neg hlimit]
  refine ⟨by simpa using hp, ?_, by omega⟩
  split at h
  · next hsse => rw [if_pos hsse]
  next hsse =>
  rw [if_neg hsse]
  split at h
  · cases h
  · rfl

theorem foldl_total {w : WireEvidence} {chunks : List Bytes}
    (h : (chunks.foldl (feed parseJson) w).poisoned = false) (hlimit : w.total ≤ w.limit) :
    w.total + chunks.flatten.length ≤ w.limit := by
  induction chunks generalizing w with
  | nil => simpa using hlimit
  | cons raw chunks ih =>
    rw [List.foldl_cons] at h
    have hp : (feed parseJson w raw).poisoned = false := by
      by_contra hp
      rw [foldl_poisoned parseJson (by simpa using hp)] at h
      exact hp h
    obtain ⟨-, htotal, hfits⟩ := feed_total parseJson hp
    have := ih h (by rw [htotal, (feed_fixed parseJson w raw).2.1]; exact hfits)
    rw [htotal, (feed_fixed parseJson w raw).2.1] at this
    simp only [List.flatten_cons, List.length_append]
    omega

/-- A body that is not a stream is collected whole. -/
theorem foldl_body {w : WireEvidence} (hp : w.poisoned = false) (hsse : w.sse = false)
    {chunks : List Bytes} (hfits : w.total + chunks.flatten.length ≤ w.limit) :
    chunks.foldl (feed parseJson) w =
      { w with total := w.total + chunks.flatten.length, buffer := w.buffer ++ chunks.flatten } := by
  induction chunks generalizing w with
  | nil => simp
  | cons raw chunks ih =>
    simp only [List.flatten_cons, List.length_append] at hfits
    have hfeed : feed parseJson w raw =
        { w with total := w.total + raw.length, buffer := w.buffer ++ raw } := by
      rw [feed, if_neg (by simp [hp]), if_neg (by omega), if_pos (by simp [hsse])]
    have hrest := ih (w := feed parseJson w raw) (by rw [hfeed]; exact hp) (by rw [hfeed]; exact hsse)
      (by rw [hfeed]; simp only; omega)
    rw [List.foldl_cons, hrest, hfeed]
    simp only [List.flatten_cons, List.length_append, List.append_assoc, Nat.add_assoc]

/-- The object after a stream of which `seen` has arrived, if it depends on `seen` alone. -/
def AtBytes (start : WireEvidence) (seen : Bytes) (w : WireEvidence) : Prop :=
  match drainEvents parseJson start.path (start.done, start.events) (replaceCrlf seen) with
  | none => w.poisoned = true
  | some ((done, events), rest) =>
      w = { start with total := seen.length, buffer := rest, done, events }

theorem atBytes_init (wire : String) (contentType : List Char) (status : Int) :
    AtBytes parseJson (init wire contentType status) [] (init wire contentType status) := by
  unfold AtBytes drainEvents
  rw [replaceCrlf, Chunks.normalize_nil, Chunks.drain_none Chunks.splitBlank_nil]
  rfl

theorem CR_ne_LF : CR ≠ LF := by decide

/-- A carriage return that the first rewrite leaves before a line feed. -/
def doubleReturn : Bytes := [CR, CR, LF]

/-- No event of these bytes, rewritten once, is refused. -/
def Readable (start : WireEvidence) (bytes : Bytes) : Prop :=
  drainEvents parseJson start.path (start.done, start.events) (replaceCrlf bytes) ≠ none

theorem Readable.front {start : WireEvidence} {front back : Bytes}
    (h : Readable parseJson start (front ++ back)) : Readable parseJson start front :=
  fun hrefused => h (Chunks.drain_refused CR_ne_LF hrefused back)

/-- **One more chunk** of a stream in whose unfinished event no double return is left. -/
theorem feed_atBytes {start w : WireEvidence} {seen raw : Bytes} (hp : start.poisoned = false)
    (hsse : start.sse = true) (hfits : seen.length + raw.length ≤ start.limit)
    (hclean : ∀ front back, seen = front ++ doubleReturn ++ back → ¬Readable parseJson start front)
    (h : AtBytes parseJson start seen w) :
    AtBytes parseJson start (seen ++ raw) (feed parseJson w raw) := by
  cases hdrain : drainEvents parseJson start.path (start.done, start.events) (replaceCrlf seen) with
  | none =>
    have hmore := Chunks.drain_refused CR_ne_LF hdrain raw
    unfold AtBytes at h ⊢
    unfold drainEvents replaceCrlf at h hdrain ⊢
    rw [hdrain] at h
    rw [hmore]
    rwa [feed_poisoned parseJson h]
  | some r =>
    obtain ⟨⟨done, events⟩, rest⟩ := r
    have hreadable : Readable parseJson start seen := by
      rw [Readable, hdrain]
      exact Option.some_ne_none _
    obtain ⟨read, tail, hseen, htail, -, hgo⟩ := Chunks.drain_continues CR_ne_LF hdrain
    have hfree : ¬doubleReturn <:+: tail := by
      rintro ⟨front, back, hin⟩
      have heq : seen = (read ++ front) ++ doubleReturn ++ back := by
        rw [hseen, ← hin]
        simp only [List.append_assoc]
      refine hclean _ _ heq ?_
      rw [heq, List.append_assoc] at hreadable
      exact hreadable.front
    have hagain := Chunks.normalize_normalize_append CR_ne_LF hfree raw
    rw [htail] at hagain
    have hmore := (hgo raw).trans (congrArg _ hagain.symm)
    unfold AtBytes at h ⊢
    rw [hdrain] at h
    subst h
    unfold drainEvents replaceCrlf
    rw [hmore]
    unfold feed drainEvents replaceCrlf
    rw [if_neg (by simp [hp]), if_neg (by simp only; omega), if_neg (by simp [hsse])]
    cases hnext : Chunks.drain LF (feedEvent parseJson start.path) (done, events)
        (Chunks.normalize CR LF (rest ++ raw)) with
    | none => rfl
    | some r => simp

/-! ## Section 4: Where the chunks end -/

/-- A double return that another chunk can reach: a byte comes after it, and no event before it is
    refused. -/
def ReachedReturn (start : WireEvidence) (bytes : Bytes) : Prop :=
  ∃ front back, bytes = front ++ doubleReturn ++ back ∧ back ≠ [] ∧ Readable parseJson start front

/-- A double return at the end, which an empty chunk can reach. -/
def EndsInReturn (start : WireEvidence) (bytes : Bytes) : Prop :=
  ∃ front, bytes = front ++ doubleReturn ∧ Readable parseJson start front

/-- When no second rewrite of a line end can make a difference. -/
def ReadsWhole (wire : String) (contentType : List Char) (status : Int) (bytes : Bytes) : Prop :=
  let start := init wire contentType status
  start.poisoned = true ∨ start.sse = false ∨ start.limit < bytes.length ∨
    ¬ReachedReturn parseJson start bytes

/-- All chunks of a stream. An empty one is no harm unless a double return stands at the end. -/
theorem foldl_atBytes {start w : WireEvidence} {seen : Bytes} (chunks : List Bytes)
    (hp : start.poisoned = false) (hsse : start.sse = true)
    (hfits : (seen ++ chunks.flatten).length ≤ start.limit)
    (hreach : ¬ReachedReturn parseJson start (seen ++ chunks.flatten))
    (hempty : [] ∉ chunks ∨ ¬EndsInReturn parseJson start (seen ++ chunks.flatten))
    (h : AtBytes parseJson start seen w) :
    AtBytes parseJson start (seen ++ chunks.flatten) (chunks.foldl (feed parseJson) w) := by
  induction chunks generalizing seen w with
  | nil => simpa using h
  | cons raw chunks ih =>
    have hclean : ∀ front back, seen = front ++ doubleReturn ++ back →
        ¬Readable parseJson start front := by
      intro front back hseen hreadable
      have hbytes : seen ++ (raw :: chunks).flatten =
          front ++ doubleReturn ++ (back ++ (raw :: chunks).flatten) := by
        rw [hseen, List.append_assoc _ back]
      by_cases hmore : back ++ (raw :: chunks).flatten = []
      · -- nothing comes after it but empty chunks
        obtain ⟨-, hflat⟩ := List.append_eq_nil_iff.1 hmore
        rw [List.flatten_cons, List.append_eq_nil_iff] at hflat
        rcases hempty with hempty | hempty
        · rw [hflat.1] at hempty
          exact hempty (List.mem_cons_self ..)
        · rw [hmore, List.append_nil] at hbytes
          exact hempty ⟨front, hbytes, hreadable⟩
      · exact hreach ⟨front, _, hbytes, hmore, hreadable⟩
    have hlater : [] ∉ chunks ∨
        ¬EndsInReturn parseJson start (seen ++ (raw :: chunks).flatten) :=
      hempty.imp_left fun hnone hmem => hnone (List.mem_cons_of_mem _ hmem)
    rw [List.flatten_cons, ← List.append_assoc] at hfits hreach hlater ⊢
    refine ih hfits hreach hlater (feed_atBytes parseJson hp hsse ?_ hclean h)
    simp only [List.length_append] at hfits
    omega

/-- The evidence of a stream that is read whole is that of its bytes in one chunk. -/
theorem evidence_eq_whole {wire : String} {contentType : List Char} {status : Int} {bytes : Bytes}
    {chunks : List Bytes} (h : ReadsWhole parseJson wire contentType status bytes)
    (hbytes : chunks.flatten = bytes)
    (hempty : [] ∉ chunks ∨ ¬EndsInReturn parseJson (init wire contentType status) bytes) :
    evidence parseJson wire contentType status chunks =
      evidence parseJson wire contentType status (if bytes = [] then [] else [bytes]) := by
  set whole : List Bytes := if bytes = [] then [] else [bytes] with hwhole
  have hflat : whole.flatten = bytes := by
    rw [hwhole]
    split
    · next hnil => rw [hnil]; rfl
    · simp
  have hsolid : [] ∉ whole := by
    rw [hwhole]
    split
    · simp
    · next hnil => simpa [eq_comm] using hnil
  unfold evidence
  set start := init wire contentType status with hstart
  have hzero : start.total = 0 := rfl
  by_cases hp : start.poisoned = true
  · rw [foldl_poisoned parseJson hp, foldl_poisoned parseJson hp]
  have hp : start.poisoned = false := by simpa using hp
  by_cases hfits : bytes.length ≤ start.limit
  swap
  · -- the limit poisons both
    have hover : ∀ cs : List Bytes, cs.flatten = bytes →
        (cs.foldl (feed parseJson) start).poisoned = true := by
      intro cs hcs
      by_contra hn
      have := foldl_total parseJson (by simpa using hn) (by rw [hzero]; exact Nat.zero_le _)
      rw [hcs, hzero] at this
      omega
    rw [finish_poisoned parseJson (hover chunks hbytes), finish_poisoned parseJson (hover _ hflat)]
  cases hsse : start.sse with
  | false =>
    rw [foldl_body parseJson hp hsse (by rw [hbytes, hzero]; omega),
      foldl_body parseJson hp hsse (by rw [hflat, hzero]; omega), hbytes, hflat]
  | true =>
    have hreach : ¬ReachedReturn parseJson start bytes := by
      rcases h with h | h | h | h
      · rw [← hstart, hp] at h
        cases h
      · rw [← hstart, hsse] at h
        cases h
      · rw [← hstart] at h
        omega
      · exact h
    have hopen : AtBytes parseJson start [] start := atBytes_init parseJson wire contentType status
    have hat : ∀ cs : List Bytes, cs.flatten = bytes →
        [] ∉ cs ∨ ¬EndsInReturn parseJson start bytes →
          AtBytes parseJson start bytes (cs.foldl (feed parseJson) start) := by
      intro cs hcs hnone
      have := foldl_atBytes parseJson cs hp hsse (by simpa [hcs] using hfits)
        (by simpa [hcs] using hreach) (by simpa [hcs] using hnone) hopen
      simpa [hcs] using this
    have h₁ := hat chunks hbytes hempty
    have h₂ := hat _ hflat (.inl hsolid)
    unfold AtBytes at h₁ h₂
    split at h₁
    · next hrefused =>
      rw [hrefused] at h₂
      rw [finish_poisoned parseJson h₁, finish_poisoned parseJson h₂]
    · next hsome =>
      rw [hsome] at h₂
      rw [h₁, h₂]

/-- After a readable front, a double return leaves a line end in the buffer that the rewrite of the
    next chunk changes. -/
theorem feed_doubleReturn {start : WireEvidence} {front : Bytes} (hp : start.poisoned = false)
    (hsse : start.sse = true) (hempty : start.buffer = [])
    (hfits : start.total + (front ++ doubleReturn).length ≤ start.limit)
    (hreadable : Readable parseJson start front) :
    (feed parseJson start (front ++ doubleReturn)).poisoned = false ∧
      replaceCrlf (feed parseJson start (front ++ doubleReturn)).buffer ≠
        (feed parseJson start (front ++ doubleReturn)).buffer := by
  obtain ⟨⟨⟨done, events⟩, rest⟩, hdrain⟩ := Option.ne_none_iff_exists'.1 hreadable
  obtain ⟨read, tail, -, htail, hblank, hgo⟩ := Chunks.drain_continues CR_ne_LF hdrain
  have hleft : Chunks.normalize CR LF (tail ++ doubleReturn) = rest ++ [CR, LF] := by
    rw [doubleReturn, Chunks.normalize_append_of_start CR_ne_LF, htail]
    rfl
  have hmore : drainEvents parseJson start.path (start.done, start.events)
      (replaceCrlf (front ++ doubleReturn)) = some ((done, events), rest ++ [CR, LF]) := by
    have hnone := Chunks.splitBlank_append hblank CR_ne_LF
    rw [drainEvents, replaceCrlf, hgo doubleReturn, hleft, Chunks.drain_none hnone]
  have hfeed : feed parseJson start (front ++ doubleReturn) =
      { start with
          total := start.total + (front ++ doubleReturn).length
          buffer := rest ++ [CR, LF]
          done
          events } := by
    rw [feed, if_neg (by simp [hp]), if_neg (by omega), if_neg (by simp [hsse]), hempty,
      List.nil_append, hmore]
  rw [hfeed]
  refine ⟨hp, ?_⟩
  intro hsame
  have hagain : replaceCrlf (rest ++ [CR, LF]) = Chunks.normalize CR LF rest ++ [LF] := by
    rw [replaceCrlf, Chunks.normalize_append_of_start CR_ne_LF]
    rfl
  have hlength := congrArg List.length (hagain.symm.trans hsame)
  have hle := Chunks.length_normalize_le (x := CR) (y := LF) rest
  simp only [List.length_append, List.length_cons, List.length_nil] at hlength
  omega

/-- A double return that another chunk can reach is rewritten again when one does. -/
theorem rewritten_again {wire : String} {contentType : List Char} {status : Int} {bytes : Bytes}
    (h : ¬ReadsWhole parseJson wire contentType status bytes) :
    ∃ seen raw, seen ++ raw = bytes ∧ raw ≠ [] ∧
      (feed parseJson (init wire contentType status) seen).poisoned = false ∧
      replaceCrlf (feed parseJson (init wire contentType status) seen).buffer ≠
        (feed parseJson (init wire contentType status) seen).buffer := by
  unfold ReadsWhole at h
  simp only [not_or, not_not, Bool.not_eq_true, Bool.not_eq_false, not_lt] at h
  obtain ⟨hp, hsse, hfits, front, back, rfl, hback, hreadable⟩ := h
  refine ⟨front ++ doubleReturn, back, rfl, hback, ?_⟩
  refine feed_doubleReturn parseJson hp hsse rfl ?_ hreadable
  have hzero : (init wire contentType status).total = 0 := rfl
  simp only [List.length_append] at hfits ⊢
  omega

/-- **Evidence of a stream**: two ways to cut the same bytes give the same evidence, if the
    response is refused at its head, is no stream, is too long, or has no double return that another
    chunk can reach. Where it has one, there is a cut at which it is rewritten a second time. -/
theorem evidence_chunks (wire : String) (contentType : List Char) (status : Int) (bytes : Bytes) :
    (ReadsWhole parseJson wire contentType status bytes → ∀ chunks others : List Bytes,
      chunks.flatten = bytes → others.flatten = bytes →
      ([] ∉ chunks ∧ [] ∉ others) ∨ ¬EndsInReturn parseJson (init wire contentType status) bytes →
        evidence parseJson wire contentType status chunks =
          evidence parseJson wire contentType status others) ∧
    (¬ReadsWhole parseJson wire contentType status bytes → ∃ seen raw, seen ++ raw = bytes ∧
      raw ≠ [] ∧ (feed parseJson (init wire contentType status) seen).poisoned = false ∧
      replaceCrlf (feed parseJson (init wire contentType status) seen).buffer ≠
        (feed parseJson (init wire contentType status) seen).buffer) := by
  refine ⟨?_, rewritten_again parseJson⟩
  intro h chunks others hchunks hothers hempty
  rw [evidence_eq_whole parseJson h hchunks (hempty.imp_left And.left),
    evidence_eq_whole parseJson h hothers (hempty.imp_left And.right)]

/-! ## Section 5: A response of one document -/

/-- The text of a complete response. -/
def sampleText : Bytes := ascii
  "\x7b\"id\":\"r\",\"choices\":[\x7b\"index\":0,\"finish_reason\":\"stop\"\x7d],\"usage\":\x7b\"prompt_tokens\":5,\"completion_tokens\":2,\"total_tokens\":7\x7d\x7d"

/-- The value of `sampleText`. -/
def sampleDocument : Json := .obj [
  ("id", .str "r"),
  ("choices", .arr [.obj [("index", .int 0), ("finish_reason", .str "stop")]]),
  ("usage", .obj [("prompt_tokens", .int 5), ("completion_tokens", .int 2),
    ("total_tokens", .int 7)])]

/-- The reader on the payloads of the sample streams: `[DONE]` is never read, and with a
    carriage return after it is no JSON. -/
def sampleRead (payload : Bytes) : Option Json :=
  if payload = sampleText then some sampleDocument else none

/-- The response as a stream whose last line ends in these bytes. -/
def sampleStream (lineEnd : Bytes) : Bytes :=
  ascii "data: " ++ sampleText ++ [CR, LF, CR, LF] ++ ascii "data: [DONE]" ++ lineEnd

theorem ReachedReturn.infix {start : WireEvidence} {bytes : Bytes}
    (h : ReachedReturn parseJson start bytes) : doubleReturn <:+: bytes := by
  obtain ⟨front, back, rfl, -⟩ := h
  exact ⟨front, back, rfl⟩

/-- With plain line ends, a cut inside one of them changes nothing. With a double return before the
    last line end there is a cut that does. -/
theorem evidence_chunks_sample :
    evidence sampleRead "openai" "text/event-stream".toList 200 [sampleStream [CR, LF, CR, LF]] =
        evidence sampleRead "openai" "text/event-stream".toList 200
          [(sampleStream [CR, LF, CR, LF]).dropLast, [LF]] ∧
      ∃ seen raw, seen ++ raw = sampleStream [CR, CR, LF, LF] ∧ raw ≠ [] ∧
        (feed sampleRead (init "openai" "text/event-stream".toList 200) seen).poisoned = false ∧
        replaceCrlf (feed sampleRead (init "openai" "text/event-stream".toList 200) seen).buffer ≠
          (feed sampleRead (init "openai" "text/event-stream".toList 200) seen).buffer := by
  constructor
  · have hclean : ¬doubleReturn <:+: sampleStream [CR, LF, CR, LF] := by
      unfold doubleReturn
      decide +kernel
    exact (evidence_chunks sampleRead "openai" "text/event-stream".toList 200
      (sampleStream [CR, LF, CR, LF])).1 (.inr (.inr (.inr fun h => hclean h.infix))) _ _
      (by decide +kernel) (by decide +kernel) (.inl ⟨by decide +kernel, by decide +kernel⟩)
  · refine (evidence_chunks sampleRead "openai" "text/event-stream".toList 200
      (sampleStream [CR, CR, LF, LF])).2 ?_
    unfold ReadsWhole
    simp only [not_or, not_not, Bool.not_eq_true, Bool.not_eq_false, not_lt]
    refine ⟨by decide +kernel, by decide +kernel, by decide +kernel, ?_⟩
    exact ⟨ascii "data: " ++ sampleText ++ [CR, LF, CR, LF] ++ ascii "data: [DONE]", [LF],
      by decide +kernel, by decide, by unfold Readable; decide +kernel⟩

/-- With `CR CR LF LF` the same bytes are refused whole and accepted in two chunks. -/
theorem evidence_chunks_differ :
    [sampleStream [CR, CR, LF, LF]].flatten =
        [(sampleStream [CR, CR, LF, LF]).dropLast, [LF]].flatten ∧
      evidence sampleRead "openai" "text/event-stream".toList 200
        [sampleStream [CR, CR, LF, LF]] = none ∧
      evidence sampleRead "openai" "text/event-stream".toList 200
        [(sampleStream [CR, CR, LF, LF]).dropLast, [LF]] = some ⟨5, 2, 0, 0⟩ := by
  decide +kernel

end WireEvidence

end Lares.Gateway
