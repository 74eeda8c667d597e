import Lares.Atlas.Frontmatter

/-! # Surgical edits of the frontmatter

    The reader and the writer of a block agree on which lines carry a plain key. The
    writer changes the first of them, the reader keeps the last; the writer compares the
    texts of the values, the reader unquotes them. What an edit promises holds exactly
    where neither difference shows.

    * **Cuts**: a note that is accepted, in parts.
    * **Entries**: the values that the block holds for a key, in order, and what a
      reading, a rewriting and an insertion do to them.
-/

namespace Lares.Atlas

open Lines

/-! ## Section 1: What is asked of an edit -/

/-- A top-level key name. -/
def PlainKey (key : Text) : Prop :=
  key ≠ [] ∧ trim key = key ∧ ':' ∉ key ∧ '\n' ∉ key ∧ key.head? ≠ some '#'

instance (key : Text) : Decidable (PlainKey key) :=
  inferInstanceAs (Decidable (_ ∧ _))

structure Applicable (updates : Updates) : Prop where
  distinct : (updates.map Prod.fst).Nodup
  plain : ∀ update ∈ updates, PlainKey update.1
  single : ∀ update ∈ updates, '\n' ∉ update.2 ∧ trim update.2 = update.2

/-- What stands behind the colon of a line with this key, as the writer looks for it. -/
def valueOn (key line : Text) : Option Text :=
  match splitColon line with
  | none => none
  | some (name, text) => if line.head? ≠ some ' ' ∧ name = key then some text else none

def carries (updates : Updates) (line : Text) : Bool :=
  updates.any fun update => (valueOn update.1 line).isSome

/-- The values of a key in the block of a note, from the first line to the last. -/
def valuesOf (raw key : Text) : List Text :=
  match frontmatterEnd raw with
  | .error _ => []
  | .ok last => (blockOf last (linesOf raw)).filterMap (valueOn key)

/-- What an edit of the note promises of its result. -/
structure Surgical (note : ParsedNote) (updates : Updates) (out : Text) (note' : ParsedNote) :
    Prop where
  /-- It is a note still. -/
  accepted : parseNote out = .ok note'
  /-- The body stays. -/
  body : note'.body = note.body
  /-- So does every line of another key. -/
  others : (linesOf out).filter (fun line => !carries updates line) =
    (linesOf note.raw).filter fun line => !carries updates line
  /-- The keys read as they were set. -/
  reads : ∀ update ∈ updates, note'.frontmatter.get update.1 = some (parseScalar update.2)
  /-- The others read as before. -/
  keeps : ∀ key, key ∉ updates.map Prod.fst → note'.frontmatter.get key = note.frontmatter.get key
  /-- To edit it again changes nothing. -/
  again : setFrontmatterKeys out updates = .ok out
  /-- Nor does an edit that asks for what is there. -/
  satisfied : (∀ update ∈ updates, note.frontmatter.get update.1 = some (parseScalar update.2)) →
    out = note.raw

/-- Where an edit keeps its promise. -/
structure Editable (raw : Text) (updates : Updates) : Prop where
  /-- `__proto__` is no key of an object. -/
  noProto : ∀ update ∈ updates, update.1 ≠ protoName
  /-- Of several lines of a key the last one already reads as the new value. -/
  lastReads : ∀ update ∈ updates, 2 ≤ (valuesOf raw update.1).length →
    (valuesOf raw update.1).getLast?.map parseScalar = some (parseScalar update.2)
  /-- When every key already reads as its new value, its first line shows that value as it is. -/
  firstShows : (∀ update ∈ updates,
      (valuesOf raw update.1).getLast?.map parseScalar = some (parseScalar update.2)) →
    ∀ update ∈ updates, (valuesOf raw update.1).head?.map trim = some update.2

/-! ## Section 2: Cuts -/

section FirstOccurrence

variable {α : Type*} [BEq α] [LawfulBEq α] {a : α} {pre post l : List α} {i : Nat}

theorem idxOf?_append (h : a ∉ pre) : (pre ++ a :: post).idxOf? a = some pre.length := by
  induction pre with
  | nil => simp [List.idxOf?_cons]
  | cons b pre ih =>
    obtain ⟨hne, hpre⟩ := List.ne_and_not_mem_of_not_mem_cons h
    simp [List.idxOf?_cons, ih hpre, Ne.symm hne]

theorem exists_of_idxOf? (h : l.idxOf? a = some i) :
    ∃ pre post, l = pre ++ a :: post ∧ a ∉ pre ∧ pre.length = i := by
  have hmem : a ∈ l := List.isSome_idxOf?.1 (by rw [h]; rfl)
  obtain ⟨pre, post, rfl, hpre⟩ := List.eq_append_cons_of_mem hmem
  rw [idxOf?_append hpre] at h
  exact ⟨pre, post, rfl, hpre, Option.some.inj h⟩

end FirstOccurrence

/-- A note with a closed block. -/
structure Cut where
  /-- The opening fence. -/
  opening : Text
  /-- The lines of the block. -/
  block : List Text
  /-- The body. -/
  rest : List Text
  opens : trim opening = fence
  inner : fence ∉ block
  clean : ∀ line ∈ opening :: (block ++ fence :: rest), '\n' ∉ line

namespace Cut

variable (c : Cut)

def lines : List Text := c.opening :: (c.block ++ fence :: c.rest)

def raw : Text := joinLines c.lines

theorem linesOf_raw : linesOf c.raw = c.lines :=
  List.splitOn_intercalate '\n' (fun line hline => c.clean line hline) (by simp [lines])

theorem frontmatterEnd_raw : frontmatterEnd c.raw = .ok (c.block.length + 1) := by
  have hclose : (c.block ++ fence :: c.rest).idxOf? fence = some c.block.length :=
    idxOf?_append c.inner
  simp only [frontmatterEnd, linesOf_raw, lines, List.head?_cons, Option.map_some, c.opens,
    List.drop_succ_cons, List.drop_zero, hclose]
  rfl

theorem blockOf_lines : blockOf (c.block.length + 1) c.lines = c.block := by
  simp [blockOf, lines]

theorem parseNote_raw : parseNote c.raw =
    .ok ⟨c.block.foldl readLine [], joinLines c.rest, c.raw⟩ := by
  have hrest : c.lines.drop (c.block.length + 1 + 1) = c.rest := by
    rw [lines, List.drop_succ_cons, List.drop_append]
    simp
  simp only [parseNote, frontmatterEnd_raw, bind, Except.bind, linesOf_raw, blockOf_lines, hrest]
  rfl

theorem valuesOf_raw (key : Text) : valuesOf c.raw key = c.block.filterMap (valueOn key) := by
  simp only [valuesOf, frontmatterEnd_raw, linesOf_raw, blockOf_lines]

end Cut

theorem exists_cut {raw : Text} {last : Nat} (h : frontmatterEnd raw = .ok last) :
    ∃ c : Cut, c.raw = raw ∧ last = c.block.length + 1 := by
  have hjoin : joinLines (linesOf raw) = raw := List.intercalate_splitOn '\n'
  have hclean : ∀ line ∈ linesOf raw, '\n' ∉ line := fun line hline =>
    not_mem_of_mem_splitOn hline
  unfold frontmatterEnd at h
  cases hlines : linesOf raw with
  | nil => simp [hlines] at h
  | cons opening lines =>
    rw [hlines] at h hjoin hclean
    simp only [List.head?_cons, Option.map_some, List.drop_succ_cons, List.drop_zero] at h
    split at h
    · cases h
    · next hopen =>
      split at h
      · cases h
      · next i hidx =>
        obtain ⟨block, rest, rfl, hinner, hlen⟩ := exists_of_idxOf? hidx
        cases h
        exact ⟨⟨opening, block, rest, by simpa using hopen, hinner, hclean⟩, hjoin, by simp [hlen]⟩

theorem exists_cut_of_parseNote {raw : Text} {note : ParsedNote} (h : parseNote raw = .ok note) :
    ∃ c : Cut, c.raw = raw ∧ note = ⟨c.block.foldl readLine [], joinLines c.rest, c.raw⟩ := by
  cases hend : frontmatterEnd raw with
  | error e =>
    simp only [parseNote, hend] at h
    cases h
  | ok last =>
    obtain ⟨c, rfl, -⟩ := exists_cut hend
    rw [c.parseNote_raw] at h
    cases h
    exact ⟨c, rfl, rfl⟩

/-! ## Section 3: Lines of a key -/

theorem splitColon_eq {line key text : Text} (h : splitColon line = some (key, text)) :
    ∃ before, line = before ++ ':' :: text ∧ before ≠ [] ∧ key = trim before := by
  unfold splitColon at h
  split at h
  · cases h
  · next i hidx =>
    obtain ⟨before, text', rfl, -, rfl⟩ := exists_of_idxOf? hidx
    split at h
    · cases h
    · next hpos =>
      simp only [List.take_left', List.drop_append, List.drop_eq_nil_of_le (Nat.le_succ _),
        Nat.add_sub_cancel_left, List.drop_succ_cons, List.drop_zero, List.nil_append,
        Option.some.injEq, Prod.mk.injEq] at h
      obtain ⟨rfl, rfl⟩ := h
      exact ⟨before, rfl, by simpa using hpos, rfl⟩

theorem splitColon_append {before text : Text} (hcolon : ':' ∉ before) (hne : before ≠ []) :
    splitColon (before ++ ':' :: text) = some (trim before, text) := by
  have hpos : before.length ≠ 0 := by simpa using hne
  simp [splitColon, idxOf?_append hcolon, hpos]

theorem PlainKey.head_not_space {key : Text} (h : PlainKey key) :
    ∃ c rest, key = c :: rest ∧ isSpace c = false := by
  obtain ⟨hne, htrim, -⟩ := h
  obtain ⟨c, rest, rfl⟩ := List.exists_cons_of_ne_nil hne
  refine ⟨c, rest, rfl, ?_⟩
  by_contra hspace
  have hlen : (trim (c :: rest)).length ≤ rest.length := by
    rw [trim, trimStart, List.dropWhile_cons_of_pos (by simpa using hspace)]
    exact ((Words.isPrefix_trimEnd _).length_le).trans (List.dropWhile_suffix _).length_le
  rw [htrim] at hlen
  simp at hlen

/-- What the reader takes from a line. -/
def entryOf (line : Text) : Option (Text × Text) :=
  if trim line = [] ∨ (trimStart line).head? = some '#' ∨ line.head? = some ' ' then none
  else splitColon line

theorem readLine_eq (record : Record) (line : Text) : readLine record line =
    match entryOf line with
    | none => record
    | some (key, text) => record.assign key (parseScalar text) := by
  unfold readLine entryOf
  split <;> rfl

/-- The value that a line gives a key, as the reader takes it. -/
def readOn (key line : Text) : Option Text :=
  match entryOf line with
  | none => none
  | some (name, text) => if name = key then some text else none

/-- Both sides agree on the lines of a plain key. -/
theorem readOn_eq_valueOn {key : Text} (h : PlainKey key) (line : Text) :
    readOn key line = valueOn key line := by
  unfold readOn valueOn entryOf
  cases hsplit : splitColon line with
  | none => simp only [ite_self]
  | some entry =>
    obtain ⟨name, text⟩ := entry
    obtain ⟨before, rfl, -, rfl⟩ := splitColon_eq hsplit
    by_cases hname : trim before = key
    swap
    · by_cases hskip : trim (before ++ ':' :: text) = [] ∨
          (trimStart (before ++ ':' :: text)).head? = some '#' ∨
          (before ++ ':' :: text).head? = some ' '
      · simp only [if_pos hskip, hname, and_false, if_false]
      · simp only [if_neg hskip, hname, and_false, if_false]
    -- a plain key is no comment and not blank
    have hblank : isBlank before = false := by
      by_contra hnot
      exact h.1 (hname ▸ trim_eq_nil.2 (by simpa using hnot))
    have hline : trim (before ++ ':' :: text) ≠ [] := by
      intro hnil
      have hall := trim_eq_nil.1 hnil
      simp only [isBlank, List.all_append, List.all_cons, Bool.and_eq_true] at hall
      exact absurd hall.2.1 (by decide)
    have hcomment : (trimStart (before ++ ':' :: text)).head? ≠ some '#' := by
      obtain ⟨c, rest, hkey, -⟩ := h.head_not_space
      obtain ⟨tail, htail⟩ := Words.isPrefix_trimEnd (trimStart before)
      have hstart : trimStart before = c :: (rest ++ tail) := by
        rw [← htail, show trimEnd (trimStart before) = c :: rest from hname.trans hkey]
        rfl
      have hhash := h.2.2.2.2
      rw [hkey] at hhash
      rw [trimStart_append hblank, hstart]
      simpa using hhash
    by_cases hindent : (before ++ ':' :: text).head? = some ' '
    · simp only [hindent, or_true, if_true, ne_eq, not_true_eq_false, false_and, if_false]
    · simp only [hline, hcomment, hindent, or_self, if_false, hname, ne_eq, not_false_eq_true,
        and_self, if_true]

theorem readOn_other {key key' line text : Text} (h : readOn key line = some text)
    (hne : key ≠ key') : readOn key' line = none := by
  unfold readOn at h ⊢
  split at h
  · cases h
  · next name text' hentry =>
    split at h
    · next hname => simp only [hname, hne, if_false]
    · cases h

theorem valueOn_renderLine {key : Text} (h : PlainKey key) (value : Text) :
    valueOn key (renderLine key value) = some (' ' :: value) := by
  obtain ⟨c, rest, hkey, hspace⟩ := h.head_not_space
  have hhead : (renderLine key value).head? ≠ some ' ' := by
    intro heq
    simp only [renderLine, hkey, List.cons_append, List.head?_cons, Option.some.injEq] at heq
    subst heq
    exact absurd hspace (by decide)
  have hsplit : splitColon (renderLine key value) = some (key, ' ' :: value) := by
    rw [renderLine, splitColon_append h.2.2.1 h.1, h.2.1]
  simp [valueOn, hsplit, hhead]

theorem readOn_renderLine {key : Text} (h : PlainKey key) (value key' : Text) :
    readOn key' (renderLine key value) = if key = key' then some (' ' :: value) else none := by
  have hown : readOn key (renderLine key value) = some (' ' :: value) :=
    (readOn_eq_valueOn h _).trans (valueOn_renderLine h value)
  by_cases hkey : key = key'
  · subst hkey
    simpa using hown
  · simpa [hkey] using readOn_other hown hkey

/-! ## Section 4: Reading -/

theorem Record.get_cons (name : Text) (held : Scalar) (record : Record) (key : Text) :
    Record.get ((name, held) :: record) key = if key = name then some held else record.get key := by
  by_cases h : key = name
  · simp [Record.get, h]
  · have hbeq : (key == name) = false := by simpa using h
    simp [Record.get, List.lookup_cons, h, hbeq]

/-- The replacement of a property that is there. -/
theorem Record.get_map (record : Record) (key : Text) (value : Scalar) (key' : Text) :
    Record.get (record.map fun entry => if entry.1 = key then (key, value) else entry) key' =
      if key = key' ∧ (record.any fun entry => entry.1 = key) then some value
      else record.get key' := by
  induction record with
  | nil => simp
  | cons entry record ih =>
    obtain ⟨name, held⟩ := entry
    rw [List.map_cons, Record.get_cons]
    by_cases hname : name = key
    · subst hname
      rw [if_pos rfl, Record.get_cons, ih]
      by_cases hkey : key' = name
      · simp [hkey]
      · simp [hkey, Ne.symm hkey]
    · rw [if_neg hname, Record.get_cons, ih]
      by_cases hkey : key' = name
      · have hne : ¬ key = key' := fun heq => hname (heq.trans hkey).symm
        simp [hkey, hname, Ne.symm hname]
      · simp only [if_neg hkey, List.any_cons, hname, decide_false, Bool.false_or]

theorem Record.get_concat (record : Record) (key : Text) (value : Scalar) (key' : Text) :
    Record.get (record ++ [(key, value)]) key' =
      (record.get key').or (if key' = key then some value else none) := by
  rw [Record.get, List.lookup_append]
  congr 1
  exact Record.get_cons key value [] key'

theorem Record.get_of_not_any {record : Record} {key : Text}
    (h : (record.any fun entry => entry.1 = key) = false) : record.get key = none := by
  refine List.lookup_eq_none_iff.2 fun entry hentry => ?_
  have hne : ¬ entry.1 = key := by simpa using List.any_eq_false.1 h entry hentry
  simpa using Ne.symm hne

theorem Record.get_assign (record : Record) (key : Text) (value : Scalar) (key' : Text) :
    (record.assign key value).get key' =
      if key = key' ∧ key ≠ protoName then some value else record.get key' := by
  unfold Record.assign
  by_cases hproto : key = protoName
  · simp [hproto]
  cases hany : record.any fun entry => entry.1 = key with
  | true => simp [hproto, Record.get_map, hany]
  | false =>
    rw [if_neg hproto, if_neg (by simp), Record.get_concat]
    by_cases hkey : key = key'
    · subst hkey
      simp [hproto, Record.get_of_not_any hany]
    · simp [hkey, Ne.symm hkey]

/-- The record holds, for each key, the value of its last line. -/
theorem get_foldl (block : List Text) (record : Record) (key : Text) (hkey : key ≠ protoName) :
    (block.foldl readLine record).get key =
      ((block.filterMap (readOn key)).getLast?.map parseScalar).or (record.get key) := by
  induction block generalizing record with
  | nil => simp
  | cons line block ih =>
    rw [List.foldl_cons, ih, readLine_eq, List.filterMap_cons]
    unfold readOn
    cases hentry : entryOf line with
    | none => rfl
    | some entry =>
      obtain ⟨name, text⟩ := entry
      simp only [Record.get_assign]
      by_cases hname : name = key
      · subst hname
        cases hlast : block.filterMap (readOn name) with
        | nil =>
          unfold readOn at hlast
          simp [hlast, hkey]
        | cons t ts =>
          unfold readOn at hlast
          have hsome : (t :: ts).getLast? = some ((t :: ts).getLast (by simp)) :=
            List.getLast?_eq_getLast_of_ne_nil (by simp)
          simp only [hlast, if_true, List.getLast?_cons_cons, hsome, Option.map_some, Option.some_or]
      · simp [hname]

theorem get_proto (block : List Text) : (block.foldl readLine []).get protoName = none := by
  have hnone (record : Record) (h : record.get protoName = none) :
      (block.foldl readLine record).get protoName = none := by
    induction block generalizing record with
    | nil => exact h
    | cons line block ih =>
      rw [List.foldl_cons]
      refine ih _ ?_
      rw [readLine_eq]
      split
      · exact h
      · rw [Record.get_assign, if_neg fun heq => heq.2 heq.1]
        exact h
  exact hnone [] rfl

/-! ## Section 5: Rewriting -/

theorem Applicable.filter {updates : Updates} (h : Applicable updates)
    (p : Text × Text → Bool) : Applicable (updates.filter p) where
  distinct := h.distinct.sublist (List.filter_sublist.map _)
  plain := fun update hmem => h.plain update (List.mem_of_mem_filter hmem)
  single := fun update hmem => h.single update (List.mem_of_mem_filter hmem)

theorem Applicable.lookup {updates : Updates} (h : Applicable updates) {update : Text × Text}
    (hmem : update ∈ updates) : List.lookup update.1 updates = some update.2 := by
  obtain ⟨before, after, rfl⟩ := List.append_of_mem hmem
  refine List.lookup_eq_some_iff.2 ⟨before, after, rfl, fun other hother => ?_⟩
  have hdistinct := h.distinct
  rw [List.map_append, List.map_cons] at hdistinct
  have hne := (List.nodup_append.1 hdistinct).2.2 other.1 (List.mem_map_of_mem hother) update.1
    (List.mem_cons_self)
  simpa using Ne.symm hne

theorem lookup_filter (updates : Updates) (p : Text → Bool) (key : Text) :
    List.lookup key (updates.filter fun update => p update.1) =
      if p key then List.lookup key updates else none := by
  induction updates with
  | nil => simp
  | cons update updates ih =>
    obtain ⟨name, value⟩ := update
    by_cases hkey : key = name
    · subst hkey
      cases hp : p key with
      | false =>
        rw [hp, if_neg (by simp)] at ih
        simpa [List.filter_cons, hp] using ih
      | true => simp [hp]
    · have hbeq : (key == name) = false := by simpa using hkey
      cases hp : p name <;> simp [hp, List.lookup_cons, hbeq, ih]

/-- What one line does with the keys that are pending. -/
theorem rewriteLine_cases (pending : Updates) (line : Text) :
    (rewriteLine pending line = (line, pending) ∧
      ∀ update ∈ pending, valueOn update.1 line = none) ∨
    ∃ update ∈ pending, ∃ text, valueOn update.1 line = some text ∧
      List.lookup update.1 pending = some update.2 ∧
      rewriteLine pending line =
        (if trim text ≠ update.2 then renderLine update.1 update.2 else line,
          pending.filter fun other => other.1 ≠ update.1) := by
  unfold rewriteLine valueOn
  cases hsplit : splitColon line with
  | none => exact .inl ⟨rfl, fun _ _ => rfl⟩
  | some entry =>
    obtain ⟨key, text⟩ := entry
    dsimp only
    by_cases hindent : line.head? = some ' '
    · exact .inl ⟨if_pos hindent, fun _ _ => if_neg fun h => h.1 hindent⟩
    rw [if_neg hindent]
    cases hlookup : List.lookup key pending with
    | none =>
      refine .inl ⟨rfl, fun update hmem => if_neg fun h => ?_⟩
      have hne := List.lookup_eq_none_iff.1 hlookup update hmem
      simp [h.2] at hne
    | some value =>
      obtain ⟨before, after, rfl, -⟩ := List.lookup_eq_some_iff.1 hlookup
      exact .inr ⟨(key, value), by simp, text, if_pos ⟨hindent, rfl⟩, hlookup, rfl⟩

/-- The first value of a key becomes the new one, unless it shows it. -/
def replaceFirst (value : Text) : List Text → List Text
  | [] => []
  | text :: texts => (if trim text ≠ value then ' ' :: value else text) :: texts

section Block

variable {pending : Updates} (h : Applicable pending)

include h

theorem Applicable.readOn_eq {update : Text × Text} (hmem : update ∈ pending) (line : Text) :
    readOn update.1 line = valueOn update.1 line :=
  readOn_eq_valueOn (h.plain update hmem) line

/-- The values of a key after the rewriting. -/
theorem rewriteBlock_readOn (block : List Text) (key : Text) :
    (rewriteBlock pending block).1.filterMap (readOn key) =
      match List.lookup key pending with
      | none => block.filterMap (readOn key)
      | some value => replaceFirst value (block.filterMap (readOn key)) := by
  induction block generalizing pending with
  | nil => cases List.lookup key pending <;> rfl
  | cons line block ih =>
    obtain ⟨hline, hnone⟩ | ⟨update, hmem, text, hvalue, hlookup, hline⟩ :=
      rewriteLine_cases pending line
    · simp only [rewriteBlock, hline, List.filterMap_cons]
      cases hread : readOn key line with
      | none => exact ih h
      | some text =>
        -- a line that no pending key is on belongs to another key
        have hother : List.lookup key pending = none := by
          refine List.lookup_eq_none_iff.2 fun other hother => ?_
          have hne : key ≠ other.1 := by
            rintro rfl
            rw [h.readOn_eq hother, hnone other hother] at hread
            cases hread
          simpa using hne
        have htail := ih h
        rw [hother] at htail
        simp only [hother, htail]
    · have hread : readOn update.1 line = some text := (h.readOn_eq hmem line).trans hvalue
      have hplain : PlainKey update.1 := h.plain update hmem
      have htail := ih (h.filter fun other => other.1 ≠ update.1)
      simp only [rewriteBlock, hline, List.filterMap_cons]
      by_cases hkey : update.1 = key
      · subst hkey
        rw [lookup_filter pending (fun name => name ≠ update.1), if_neg (by simp)] at htail
        have hnew : readOn update.1
            (if trim text ≠ update.2 then renderLine update.1 update.2 else line) =
            some (if trim text ≠ update.2 then ' ' :: update.2 else text) := by
          by_cases hsame : trim text ≠ update.2
          · rw [if_pos hsame, if_pos hsame, readOn_renderLine hplain, if_pos rfl]
          · rw [if_neg hsame, if_neg hsame, hread]
        simp only [hread, hlookup, hnew, htail, replaceFirst]
      · rw [lookup_filter pending (fun name => name ≠ update.1),
          if_pos (by simpa using Ne.symm hkey)] at htail
        have hnew : readOn key
            (if trim text ≠ update.2 then renderLine update.1 update.2 else line) = none := by
          by_cases hsame : trim text ≠ update.2
          · rw [if_pos hsame, readOn_renderLine hplain, if_neg hkey]
          · rw [if_neg hsame, readOn_other hread hkey]
        simp only [readOn_other hread hkey, hnew, htail]

/-- The keys that had no line. -/
theorem rewriteBlock_pending (block : List Text) :
    (rewriteBlock pending block).2 =
      pending.filter fun update => (block.filterMap (readOn update.1)).isEmpty := by
  induction block generalizing pending with
  | nil => simp [rewriteBlock]
  | cons line block ih =>
    obtain ⟨hline, hnone⟩ | ⟨update, hmem, text, hvalue, hlookup, hline⟩ :=
      rewriteLine_cases pending line
    · simp only [rewriteBlock, hline]
      rw [ih h]
      refine List.filter_congr fun other hother => ?_
      rw [List.filterMap_cons, h.readOn_eq hother, hnone other hother]
    · have hread : readOn update.1 line = some text := (h.readOn_eq hmem line).trans hvalue
      simp only [rewriteBlock, hline]
      rw [ih (h.filter _), List.filter_filter]
      refine List.filter_congr fun other hother => ?_
      rw [List.filterMap_cons]
      by_cases hkey : update.1 = other.1
      · simp [← hkey, hread]
      · simp [readOn_other hread hkey, Ne.symm hkey]

/-- A block whose first lines show the new values is left as it is. -/
theorem rewriteBlock_same (block : List Text) (hshows : ∀ update ∈ pending, ∀ text,
    (block.filterMap (readOn update.1)).head? = some text → trim text = update.2) :
    (rewriteBlock pending block).1 = block := by
  induction block generalizing pending with
  | nil => rfl
  | cons line block ih =>
    obtain ⟨hline, hnone⟩ | ⟨update, hmem, text, hvalue, hlookup, hline⟩ :=
      rewriteLine_cases pending line
    · simp only [rewriteBlock, hline]
      rw [ih h]
      intro other hother text htext
      refine hshows other hother text ?_
      rwa [List.filterMap_cons, h.readOn_eq hother, hnone other hother]
    · have hread : readOn update.1 line = some text := (h.readOn_eq hmem line).trans hvalue
      have hsame : trim text = update.2 := hshows update hmem text (by
        rw [List.filterMap_cons, hread]
        rfl)
      simp only [rewriteBlock, hline, if_neg (not_not.2 hsame)]
      rw [ih (h.filter _)]
      intro other hother text' htext
      obtain ⟨hother, hne⟩ := List.mem_filter.1 hother
      refine hshows other hother text' ?_
      have hkey : other.1 ≠ update.1 := by simpa using hne
      rwa [List.filterMap_cons, readOn_other hread (Ne.symm hkey)]

/-- A line after the rewriting stood before, or shows an update. -/
theorem mem_rewriteBlock {block : List Text} {line : Text}
    (hline : line ∈ (rewriteBlock pending block).1) :
    line ∈ block ∨ ∃ update ∈ pending, line = renderLine update.1 update.2 := by
  induction block generalizing pending with
  | nil => exact .inl hline
  | cons first block ih =>
    obtain ⟨hfirst, -⟩ | ⟨update, hmem, text, -, -, hfirst⟩ := rewriteLine_cases pending first
    · simp only [rewriteBlock, hfirst, List.mem_cons] at hline
      obtain rfl | hrest := hline
      · exact .inl List.mem_cons_self
      · exact (ih h hrest).imp_left (List.mem_cons_of_mem first)
    · simp only [rewriteBlock, hfirst, List.mem_cons] at hline
      obtain hhead | hrest := hline
      · split at hhead
        · exact .inr ⟨update, hmem, hhead⟩
        · exact .inl (by rw [hhead]; exact List.mem_cons_self)
      · obtain hold | ⟨other, hother, hnew⟩ := ih (h.filter _) hrest
        · exact .inl (List.mem_cons_of_mem first hold)
        · exact .inr ⟨other, List.mem_of_mem_filter hother, hnew⟩

theorem carries_renderLine {updates : Updates} (hsub : ∀ update ∈ pending, update ∈ updates)
    {update : Text × Text} (hmem : update ∈ pending) :
    carries updates (renderLine update.1 update.2) = true :=
  List.any_eq_true.2 ⟨update, hsub update hmem,
    by rw [valueOn_renderLine (h.plain update hmem)]; rfl⟩

theorem rewriteBlock_others {updates : Updates} (hsub : ∀ update ∈ pending, update ∈ updates)
    (block : List Text) :
    (rewriteBlock pending block).1.filter (fun line => !carries updates line) =
      block.filter fun line => !carries updates line := by
  induction block generalizing pending with
  | nil => rfl
  | cons line block ih =>
    obtain ⟨hline, -⟩ | ⟨update, hmem, text, hvalue, -, hline⟩ := rewriteLine_cases pending line
    · simp only [rewriteBlock, hline, List.filter_cons, ih h hsub]
    · have hcarries : carries updates line = true :=
        List.any_eq_true.2 ⟨update, hsub update hmem, by rw [hvalue]; rfl⟩
      have hnew := carries_renderLine h hsub hmem
      have htail := ih (h.filter fun other => other.1 ≠ update.1) fun other hother =>
        hsub other (List.mem_of_mem_filter hother)
      simp only [rewriteBlock, hline, List.filter_cons, hcarries, htail]
      split <;> simp [hnew, hcarries]

end Block

theorem length_rewriteBlock (pending : Updates) (block : List Text) :
    (rewriteBlock pending block).1.length = block.length := by
  induction block generalizing pending with
  | nil => rfl
  | cons line block ih => simp [rewriteBlock, ih]

/-! ## Section 6: The edited block -/

/-- How many lines stand before the insertions. -/
def typeEnd (block : List Text) : Nat :=
  match block.findIdx? fun line => "type:".toList.isPrefixOf line with
  | some i => i + 1
  | none => 0

theorem typeEnd_le (block : List Text) : typeEnd block ≤ block.length := by
  unfold typeEnd
  split
  · next i hidx =>
    obtain ⟨hlt, -⟩ := List.findIdx?_eq_some_iff_getElem.1 hidx
    exact hlt
  · exact Nat.zero_le _

def inserts (pending : Updates) : List Text :=
  pending.map fun update => renderLine update.1 update.2

def editBlock (updates : Updates) (block : List Text) : List Text :=
  let rewritten := rewriteBlock updates block
  rewritten.1.take (typeEnd block) ++ inserts rewritten.2 ++ rewritten.1.drop (typeEnd block)

theorem trim_space (value : Text) : trim (' ' :: value) = trim value := by
  rw [trim, trim, trimStart, List.dropWhile_cons_of_pos (by decide)]
  rfl

section Edited

variable {updates : Updates} (h : Applicable updates)

include h

theorem inserts_readOn (key : Text) : (inserts updates).filterMap (readOn key) =
    ((List.lookup key updates).map fun value => ' ' :: value).toList := by
  induction updates with
  | nil => rfl
  | cons update updates ih =>
    obtain ⟨name, value⟩ := update
    have hplain : PlainKey name := h.plain (name, value) List.mem_cons_self
    have htail : Applicable updates := ⟨(List.nodup_cons.1 h.distinct).2,
      fun other hother => h.plain other (List.mem_cons_of_mem _ hother),
      fun other hother => h.single other (List.mem_cons_of_mem _ hother)⟩
    have hrest := ih htail
    simp only [inserts, List.map_cons, List.filterMap_cons, readOn_renderLine hplain] at hrest ⊢
    by_cases hkey : name = key
    · subst hkey
      -- the other updates have other keys
      have hnone : List.lookup name updates = none := by
        refine List.lookup_eq_none_iff.2 fun other hother => ?_
        have hne : name ≠ other.1 := by
          rintro rfl
          have hmem : other.1 ∈ updates.map Prod.fst := List.mem_map_of_mem hother
          exact (List.nodup_cons.1 h.distinct).1 hmem
        simpa using hne
      simp [hrest, hnone]
    · have hbeq : (key == name) = false := by simpa using Ne.symm hkey
      simp [hkey, hrest, List.lookup_cons, hbeq]

/-- The values of a key in the edited block. -/
theorem editBlock_readOn (block : List Text) (key : Text) :
    (editBlock updates block).filterMap (readOn key) =
      match List.lookup key updates with
      | none => block.filterMap (readOn key)
      | some value =>
        if block.filterMap (readOn key) = [] then [' ' :: value]
        else replaceFirst value (block.filterMap (readOn key)) := by
  have hpending := rewriteBlock_pending h block
  have hin := inserts_readOn (h.filter fun update =>
    (block.filterMap (readOn update.1)).isEmpty) key
  rw [lookup_filter updates fun name => (block.filterMap (readOn name)).isEmpty] at hin
  have hread := rewriteBlock_readOn h block key
  rw [← List.take_append_drop (typeEnd block) (rewriteBlock updates block).1,
    List.filterMap_append] at hread
  simp only [editBlock, List.filterMap_append, hpending, hin]
  cases hlookup : List.lookup key updates with
  | none =>
    rw [hlookup] at hread
    simpa using hread
  | some value =>
    rw [hlookup] at hread
    dsimp only at hread ⊢
    by_cases hempty : block.filterMap (readOn key) = []
    · rw [hempty] at hread
      obtain ⟨htake, hdrop⟩ := List.append_eq_nil_iff.1 hread
      simp [htake, hdrop, hempty]
    · have hnot : (block.filterMap (readOn key)).isEmpty = false := by simpa using hempty
      rw [if_neg hempty, if_neg (by simp [hnot])]
      simpa using hread

theorem mem_editBlock {block : List Text} {line : Text} (hline : line ∈ editBlock updates block) :
    line ∈ block ∨ ∃ update ∈ updates, line = renderLine update.1 update.2 := by
  simp only [editBlock, List.mem_append] at hline
  obtain (hmem | hmem) | hmem := hline
  · exact mem_rewriteBlock h (List.mem_of_mem_take hmem)
  · obtain ⟨update, hupdate, rfl⟩ := List.mem_map.1 hmem
    rw [rewriteBlock_pending h] at hupdate
    exact .inr ⟨update, List.mem_of_mem_filter hupdate, rfl⟩
  · exact mem_rewriteBlock h (List.mem_of_mem_drop hmem)

theorem editBlock_others (block : List Text) :
    (editBlock updates block).filter (fun line => !carries updates line) =
      block.filter fun line => !carries updates line := by
  have hinserts : (inserts (rewriteBlock updates block).2).filter
      (fun line => !carries updates line) = [] := by
    refine List.filter_eq_nil_iff.2 fun line hline => ?_
    obtain ⟨update, hupdate, rfl⟩ := List.mem_map.1 hline
    rw [rewriteBlock_pending h] at hupdate
    simp [carries_renderLine h (fun _ hmem => hmem) (List.mem_of_mem_filter hupdate)]
  rw [← rewriteBlock_others h (fun _ hmem => hmem) block]
  simp only [editBlock, List.filter_append, hinserts, List.append_nil]
  rw [← List.filter_append, List.take_append_drop]

/-- Every updated key shows its value on its first line. -/
def Shows (updates : Updates) (block : List Text) : Prop :=
  ∀ update ∈ updates, (block.filterMap (readOn update.1)).head?.map trim = some update.2

theorem editBlock_same {block : List Text} (hshows : Shows updates block) :
    editBlock updates block = block := by
  have hpending : (rewriteBlock updates block).2 = [] := by
    rw [rewriteBlock_pending h]
    refine List.filter_eq_nil_iff.2 fun update hmem => ?_
    have hsome := hshows update hmem
    cases hvalues : block.filterMap (readOn update.1) <;> simp [hvalues] at hsome ⊢
  have hblock : (rewriteBlock updates block).1 = block := by
    refine rewriteBlock_same h block fun update hmem text htext => ?_
    have hsome := hshows update hmem
    rw [htext] at hsome
    exact Option.some.inj hsome
  simp [editBlock, hpending, hblock, inserts]

theorem editBlock_shows (block : List Text) : Shows updates (editBlock updates block) := by
  intro update hmem
  have hvalue : trim (' ' :: update.2) = update.2 :=
    (trim_space update.2).trans (h.single update hmem).2
  rw [editBlock_readOn h, h.lookup hmem]
  dsimp only
  split
  · simp [hvalue]
  · next hne =>
    obtain ⟨text, texts, htexts⟩ := List.exists_cons_of_ne_nil hne
    rw [htexts, replaceFirst, List.head?_cons, Option.map_some]
    by_cases hsame : trim text = update.2
    · simp [hsame]
    · simp [hsame, hvalue]

end Edited

/-! ## Section 7: The edited note -/

namespace Cut

variable (c : Cut) {updates : Updates} (h : Applicable updates)

/-- The note after the edit. -/
def edit : Cut where
  opening := c.opening
  block := editBlock updates c.block
  rest := c.rest
  opens := c.opens
  inner := by
    intro hmem
    obtain hold | ⟨update, -, heq⟩ := mem_editBlock h hmem
    · exact c.inner hold
    · have hcolon : ':' ∈ fence := by rw [heq]; simp [renderLine]
      exact absurd hcolon (by decide)
  clean := by
    intro line hline
    simp only [List.mem_cons, List.mem_append] at hline
    obtain hopening | hblock | hrest := hline
    · exact c.clean line (by simp [hopening])
    · obtain hold | ⟨update, hupdate, rfl⟩ := mem_editBlock h hblock
      · exact c.clean line (by simp [hold])
      · obtain ⟨-, -, -, hkey, -⟩ := h.plain update hupdate
        simp [renderLine, hkey, (h.single update hupdate).1]
    · exact c.clean line (by simp [hrest])

theorem setFrontmatterKeys_raw :
    setFrontmatterKeys c.raw updates = .ok (c.edit h).raw := by
  have hat : insertAt (c.block.length + 1) c.lines = typeEnd c.block + 1 := by
    unfold insertAt typeEnd
    rw [blockOf_lines]
    cases c.block.findIdx? fun line => "type:".toList.isPrefixOf line <;> rfl
  have hlen := length_rewriteBlock updates c.block
  have hle : typeEnd c.block ≤ (rewriteBlock updates c.block).1.length := by
    rw [hlen]
    exact typeEnd_le c.block
  have hlast : c.lines.drop (c.block.length + 1) = fence :: c.rest := by
    simp [lines]
  have hfirst : c.lines.take 1 = [c.opening] := by simp [lines]
  simp only [setFrontmatterKeys, frontmatterEnd_raw, bind, Except.bind, linesOf_raw, blockOf_lines,
    hat, hlast, hfirst]
  simp only [raw, lines, edit, editBlock, inserts, List.cons_append, List.nil_append,
    List.take_succ_cons, List.drop_succ_cons, List.take_append_of_le_length hle,
    List.drop_append_of_le_length hle, List.append_assoc]
  rfl

theorem edit_same (hshows : Shows updates c.block) : (c.edit h).raw = c.raw := by
  simp only [raw, lines, edit, editBlock_same h hshows]

include h in
theorem valuesOf_eq {update : Text × Text} (hmem : update ∈ updates) :
    valuesOf c.raw update.1 = c.block.filterMap (readOn update.1) := by
  rw [valuesOf_raw]
  exact List.filterMap_congr fun line _ => (h.readOn_eq hmem line).symm

include h in
theorem shows_iff :
    Shows updates c.block ↔ ∀ update ∈ updates,
      (valuesOf c.raw update.1).head?.map trim = some update.2 := by
  refine forall₂_congr fun update hmem => ?_
  rw [c.valuesOf_eq h hmem]

theorem edit_eq_iff : (c.edit h).raw = c.raw ↔ Shows updates c.block := by
  constructor
  · intro heq
    have hshows := (c.edit h).shows_iff h
    rw [heq, ← c.shows_iff h] at hshows
    exact hshows.1 (editBlock_shows h c.block)
  · exact c.edit_same h

end Cut

theorem parseScalar_trim {s t : Text} (h : trim s = trim t) : parseScalar s = parseScalar t := by
  unfold parseScalar
  rw [h]

/-- What the reader makes of a key after the edit. -/
theorem replaceFirst_reads {value : Text} (hvalue : trim value = value) (texts : List Text)
    (hne : texts ≠ []) :
    (replaceFirst value texts).getLast?.map parseScalar = some (parseScalar value) ↔
      (2 ≤ texts.length → texts.getLast?.map parseScalar = some (parseScalar value)) := by
  obtain ⟨text, texts, rfl⟩ := List.exists_cons_of_ne_nil hne
  cases texts with
  | nil =>
    have hread : parseScalar (if trim text ≠ value then ' ' :: value else text) =
        parseScalar value := by
      by_cases hsame : trim text = value
      · rw [if_neg (not_not.2 hsame)]
        exact parseScalar_trim (hsame.trans hvalue.symm)
      · rw [if_pos hsame]
        exact parseScalar_trim (trim_space value)
    have hone : ¬ 2 ≤ [text].length := by simp
    simp only [replaceFirst, List.getLast?_singleton, Option.map_some, hread, hone, false_implies]
  | cons text' texts => simp [replaceFirst, List.getLast?_cons_cons]

/-! ## Section 8: The edit -/

theorem Cut.get_block (c : Cut) (key : Text) (hkey : key ≠ protoName) :
    (c.block.foldl readLine []).get key =
      (c.block.filterMap (readOn key)).getLast?.map parseScalar := by
  rw [get_foldl _ _ _ hkey]
  simp [Record.get]

section Edit

variable (c : Cut) {updates : Updates} (h : Applicable updates)

include h

theorem Cut.others_edit : (linesOf (c.edit h).raw).filter (fun line => !carries updates line) =
    (linesOf c.raw).filter fun line => !carries updates line := by
  rw [Cut.linesOf_raw, Cut.linesOf_raw]
  simp only [Cut.lines, Cut.edit, List.filter_cons, List.filter_append, editBlock_others h]

/-- What the reader has for a key after the edit. -/
theorem Cut.get_edit (key : Text) (hkey : key ≠ protoName) :
    ((c.edit h).block.foldl readLine []).get key =
      ((editBlock updates c.block).filterMap (readOn key)).getLast?.map parseScalar := by
  rw [get_foldl _ _ _ hkey]
  simp [Cut.edit, Record.get]

theorem Cut.keeps_edit {key : Text} (hother : key ∉ updates.map Prod.fst) :
    ((c.edit h).block.foldl readLine []).get key = (c.block.foldl readLine []).get key := by
  by_cases hkey : key = protoName
  · subst hkey
    rw [get_proto, get_proto]
  · have hnone : List.lookup key updates = none := by
      refine List.lookup_eq_none_iff.2 fun update hmem => ?_
      have hne : key ≠ update.1 := by
        rintro rfl
        exact hother (List.mem_map_of_mem hmem)
      simpa using hne
    rw [c.get_edit h key hkey, c.get_block key hkey, editBlock_readOn h, hnone]

/-- An updated key reads as its new value, unless several lines carry it and the last one reads
    otherwise. -/
theorem Cut.reads_iff {update : Text × Text} (hmem : update ∈ updates)
    (hkey : update.1 ≠ protoName) :
    ((c.edit h).block.foldl readLine []).get update.1 = some (parseScalar update.2) ↔
      (2 ≤ (valuesOf c.raw update.1).length →
        (valuesOf c.raw update.1).getLast?.map parseScalar = some (parseScalar update.2)) := by
  rw [c.get_edit h _ hkey, editBlock_readOn h, h.lookup hmem, c.valuesOf_eq h hmem]
  dsimp only
  by_cases hempty : c.block.filterMap (readOn update.1) = []
  · simp [hempty, parseScalar_trim (trim_space update.2)]
  · rw [if_neg hempty]
    exact replaceFirst_reads (h.single update hmem).2 _ hempty

end Edit

/-- **Surgical edits.** An edit of an accepted note always succeeds; it keeps its promise exactly
    when no updated key stands on several lines of which the last reads otherwise, none is the
    one name that no record holds, and updates that the note already reads as are written in it
    as they are. -/
theorem setFrontmatterKeys_surgical_iff {raw : Text} {note : ParsedNote} {updates : Updates}
    (hnote : parseNote raw = .ok note) (h : Applicable updates) :
    ∃ out note', setFrontmatterKeys raw updates = .ok out ∧ parseNote out = .ok note' ∧
      (Surgical note updates out note' ↔ Editable raw updates) := by
  -- A note that parses is a cut, and the edit is one of its block.
  obtain ⟨c, rfl, rfl⟩ := exists_cut_of_parseNote hnote
  refine ⟨(c.edit h).raw, _, c.setFrontmatterKeys_raw h, (c.edit h).parseNote_raw, ?_⟩
  constructor
  · intro hsurgical
    -- No object reads `__proto__` back.
    have hproto : ∀ update ∈ updates, update.1 ≠ protoName := by
      intro update hmem heq
      have hreads := hsurgical.reads update hmem
      rw [heq, get_proto] at hreads
      cases hreads
    refine ⟨hproto, fun update hmem => ?_, fun hread => ?_⟩
    · exact (c.reads_iff h hmem (hproto update hmem)).1 (hsurgical.reads update hmem)
    · -- An edit that is satisfied already changes no line.
      have hsame := hsurgical.satisfied fun update hmem => by
        rw [c.get_block _ (hproto update hmem), ← c.valuesOf_eq h hmem]
        exact hread update hmem
      exact (c.shows_iff h).1 ((c.edit_eq_iff h).1 hsame)
  · intro heditable
    constructor
    case accepted => exact (c.edit h).parseNote_raw
    case body => rfl
    case others => exact c.others_edit h
    case reads =>
      intro update hmem
      exact (c.reads_iff h hmem (heditable.noProto update hmem)).2
        (heditable.lastReads update hmem)
    case keeps => exact fun key hother => c.keeps_edit h hother
    case again =>
      rw [(c.edit h).setFrontmatterKeys_raw h,
        (c.edit h).edit_same h (editBlock_shows h c.block)]
    case satisfied =>
      intro hread
      refine (c.edit_eq_iff h).2 ((c.shows_iff h).2 (heditable.firstShows fun update hmem => ?_))
      rw [c.valuesOf_eq h hmem, ← c.get_block _ (heditable.noProto update hmem)]
      exact hread update hmem

def sampleNote : Text :=
  "---\ntype: venture\nstatus:   exploration\n# kept\n  - also kept\n---\n# Harbor\n".toList

def sampleUpdates : Updates :=
  [("status".toList, "parked".toList), ("public_url".toList, "[a, b]".toList)]

def sampleOut : Text :=
  ("---\ntype: venture\npublic_url: [a, b]\nstatus: parked\n# kept\n  - also kept\n---\n" ++
    "# Harbor\n").toList

theorem sampleUpdates_applicable : Applicable sampleUpdates where
  distinct := by decide
  plain := by decide
  single := by decide

theorem setFrontmatterKeys_surgical_sample :
    setFrontmatterKeys sampleNote sampleUpdates = .ok sampleOut ∧
    ∃ note out note', setFrontmatterKeys sampleNote sampleUpdates = .ok out ∧
      Surgical note sampleUpdates out note' := by
  refine ⟨by decide +kernel, ?_⟩
  cases hnote : parseNote sampleNote with
  | error e =>
    have hok : (parseNote sampleNote).isOk = true := by decide +kernel
    rw [hnote] at hok
    cases hok
  | ok note =>
    obtain ⟨out, note', hout, -, hiff⟩ :=
      setFrontmatterKeys_surgical_iff hnote sampleUpdates_applicable
    refine ⟨note, out, note', hout, hiff.2 ⟨?_, ?_, ?_⟩⟩ <;> decide +kernel

def twiceNote : Text := "---\nstatus: a\nstatus: b\n---\n".toList

/-- A key on two lines: the first is changed, the last is read. -/
theorem setFrontmatterKeys_twice :
    ¬ ∀ (raw : Text) (note : ParsedNote) (updates : Updates), parseNote raw = .ok note →
      Applicable updates → ∃ out note', setFrontmatterKeys raw updates = .ok out ∧
        Surgical note updates out note' := by
  intro hall
  have hnote : parseNote twiceNote =
      .ok ⟨[("status".toList, .text ['b'])], [], twiceNote⟩ := by decide +kernel
  have happlicable : Applicable [("status".toList, ['c'])] :=
    ⟨by decide, by decide, by decide⟩
  obtain ⟨out, note', hout, hsurgical⟩ := hall twiceNote _ _ hnote happlicable
  have hedited : setFrontmatterKeys twiceNote [("status".toList, ['c'])] =
      .ok "---\nstatus: c\nstatus: b\n---\n".toList := by decide +kernel
  rw [hedited] at hout
  cases hout
  have hparsed : parseNote "---\nstatus: c\nstatus: b\n---\n".toList =
      .ok ⟨[("status".toList, .text ['b'])], [], "---\nstatus: c\nstatus: b\n---\n".toList⟩ := by
    decide +kernel
  have haccepted := hsurgical.accepted
  rw [hparsed] at haccepted
  cases haccepted
  have hreads := hsurgical.reads ("status".toList, ['c']) List.mem_cons_self
  revert hreads
  decide +kernel

end Lares.Atlas
