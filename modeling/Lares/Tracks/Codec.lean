import Lares.Framework.JsonTexts
import Lares.Framework.Lines
import Mathlib

/-! # Track files

    A track and its items are notes: front matter between two lines of dashes,
    and an empty body.

    * **Texts**: `trim`, `clean` and the ids. A character is a Unicode scalar
      value, a length is counted in UTF-16 units.
    * **Writing**: `serializeFrontmatter`, one line a field.
    * **Reading**: `frontmatter` trims each value; a list of steps is JSON, whose
      entries are not trimmed.
    * **Round trip**: what has no outer white space reads back as it was.
-/

namespace Lares.Tracks

open Lines (isSpace trim trimStart trimEnd)

abbrev Text := List Char

attribute [local instance] Lines.lawfulText

/-! ## Section 1: Texts -/

def validId : Text → Bool
  | [] => false
  | c :: rest =>
      Lines.isLowerAlnum c && rest.length ≤ 62 && rest.all fun c => Lines.isLowerAlnum c || c = '-'

def clean (s : Text) (max : Nat) : Bool :=
  (trim s).length > 0 && Lines.jsLength s ≤ max && s.all fun c => c ≠ '\r' && c ≠ '\n' && c ≠ '\x00'

/-- `/^\d{4}-\d{2}-\d{2}$/` -/
def dateShaped : Text → Bool
  | [a, b, c, d, '-', e, f, '-', g, h] =>
      a.isDigit && b.isDigit && c.isDigit && d.isDigit && e.isDigit && f.isDigit && g.isDigit &&
        h.isDigit
  | _ => false

/-! ## Section 2: Writing -/

inductive FieldValue where
  | null
  | text (value : Text)
  | list (values : List Text)

abbrev Frontmatter := List (Text × FieldValue)

def dashes : Text := ['-', '-', '-']

def fieldLine : Text × FieldValue → Text
  | (key, .null) => key ++ [':']
  | (key, .text value) => key ++ ':' :: ' ' :: value
  | (key, .list values) => key ++ ':' :: ' ' :: JsonTexts.stringify values

def serializeFrontmatter (fm : Frontmatter) : Text :=
  ['\n'].intercalate (dashes :: fm.map fieldLine ++ [dashes])

/-- The content that `commitNote` writes. -/
def noteContent (fm : Frontmatter) (body : Text) : Text :=
  serializeFrontmatter fm ++ ['\n', '\n'] ++ body

/-! ## Section 3: Reading -/

inductive TrackError where
  /-- "Track file is invalid" -/
  | file
  /-- "Track steps are invalid" -/
  | steps
  /-- "Track definition is invalid" -/
  | definition
  /-- "Track item is invalid" -/
  | item
deriving DecidableEq

/-- `replace(/\r\n/g, '\n')` -/
def replaceBreaks : Text → Text
  | '\r' :: '\n' :: rest => '\n' :: replaceBreaks rest
  | c :: rest => c :: replaceBreaks rest
  | [] => []

/-- A line with a colon, but not at its start. -/
def field (line : Text) : Option (Text × Text) :=
  let key := line.takeWhile (· ≠ ':')
  if key ≠ [] ∧ ':' ∈ line then some (key, trim (line.drop (key.length + 1))) else none

def frontmatter (raw : Text) : Except TrackError (List (Text × Text)) :=
  match (replaceBreaks raw).splitOn '\n' with
  | [] => .error .file
  | first :: rest =>
      if first = dashes ∧ dashes ∈ rest then
        .ok ((rest.takeWhile (· ≠ dashes)).filterMap field)
      else .error .file

/-- The value that was set last. -/
def get : List (Text × Text) → Text → Option Text
  | [], _ => none
  | (key, value) :: rest, wanted =>
      (get rest wanted).or (if key = wanted then some value else none)

def decodeList (value : Option Text) : Except TrackError (List Text) :=
  match value with
  | none => .error .steps
  | some value =>
      if value.head? = some '[' ∧ value.getLast? = some ']' then
        match JsonTexts.parse value with
        | some steps => if steps.all (clean · 80) then .ok steps else .error .steps
        | none => .error .steps
      else .error .steps

structure Track where
  id : Text
  name : Text
  purpose : Text
  /-- The steps an item can stand at, in order. -/
  steps : List Text
  /-- Those that end an item. -/
  closingSteps : List Text
deriving DecidableEq

def validateTrack (track : Track) : Bool :=
  validId track.id && clean track.name 120 && clean track.purpose 500 && track.steps ≠ [] &&
    track.steps.all (clean · 80) && track.steps.Nodup && track.closingSteps ≠ [] &&
    track.closingSteps.all (· ∈ track.steps)

def typeKey : Text := ['t', 'y', 'p', 'e']
def nameKey : Text := ['n', 'a', 'm', 'e']
def purposeKey : Text := ['p', 'u', 'r', 'p', 'o', 's', 'e']
def stepsKey : Text := ['s', 't', 'e', 'p', 's']
def closingStepsKey : Text := ['c', 'l', 'o', 's', 'i', 'n', 'g', '_', 's', 't', 'e', 'p', 's']
def personKey : Text := ['p', 'e', 'r', 's', 'o', 'n']
def organisationKey : Text := ['o', 'r', 'g', 'a', 'n', 'i', 's', 'a', 't', 'i', 'o', 'n']
def stepKey : Text := ['s', 't', 'e', 'p']
def sinceKey : Text := ['s', 'i', 'n', 'c', 'e']
def noteKey : Text := ['n', 'o', 't', 'e']
def sourceSignalKey : Text := ['s', 'o', 'u', 'r', 'c', 'e', '_', 's', 'i', 'g', 'n', 'a', 'l']
def trackType : Text := ['t', 'r', 'a', 'c', 'k']
def itemType : Text := ['t', 'r', 'a', 'c', 'k', '-', 'i', 't', 'e', 'm']

def parseTrack (id raw : Text) : Except TrackError Track := do
  let f ← frontmatter raw
  if get f typeKey = some trackType then
    let steps ← decodeList (get f stepsKey)
    let closingSteps ← decodeList (get f closingStepsKey)
    let track : Track :=
      ⟨id, (get f nameKey).getD [], (get f purposeKey).getD [], steps, closingSteps⟩
    if validateTrack track then .ok track else .error .definition
  else .error .file

structure TrackWho where
  personId : Option Text
  organisationId : Option Text
deriving DecidableEq

def whoValid (who : TrackWho) : Bool :=
  (who.personId.isSome || who.organisationId.isSome) && who.personId.all (clean · 160) &&
    who.organisationId.all (clean · 160)

structure TrackItem where
  id : Text
  trackId : Text
  who : TrackWho
  /-- Where it stands. -/
  step : Text
  /-- The day it came there. -/
  since : Text
  note : Text
  /-- What it was noticed by. -/
  sourceSignal : Text
deriving DecidableEq

section Items

-- Whether `Date.parse` knows the day.
variable (dateParses : Text → Bool)

def validDate (since : Text) : Bool := dateShaped since && dateParses since

def parseItem (id trackId raw : Text) : Except TrackError TrackItem := do
  let f ← frontmatter raw
  let who : TrackWho :=
    ⟨(get f personKey).filter (· ≠ []), (get f organisationKey).filter (· ≠ [])⟩
  let item : TrackItem :=
    ⟨id, trackId, who, (get f stepKey).getD [], (get f sinceKey).getD [], (get f noteKey).getD [],
      (get f sourceSignalKey).getD []⟩
  if get f typeKey = some itemType ∧ whoValid who ∧ clean item.step 80 ∧
      validDate dateParses item.since ∧ clean item.note 500 ∧ clean item.sourceSignal 200 then
    .ok item
  else .error .item

end Items

/-! ## Section 4: The files that are written -/

def trackFields (track : Track) : Frontmatter :=
  [(typeKey, .text trackType), (nameKey, .text track.name), (purposeKey, .text track.purpose),
    (stepsKey, .list track.steps), (closingStepsKey, .list track.closingSteps)]

/-- `who.personId ? { person: who.personId } : {}` -/
def whoField (key : Text) (value : Option Text) : Frontmatter :=
  (value.filter (· ≠ [])).toList.map fun value => (key, .text value)

def itemFields (item : TrackItem) : Frontmatter :=
  [(typeKey, .text itemType)] ++ whoField personKey item.who.personId ++
    whoField organisationKey item.who.organisationId ++
    [(stepKey, .text item.step), (sinceKey, .text item.since), (noteKey, .text item.note),
      (sourceSignalKey, .text item.sourceSignal)]

/-! ## Section 5: Trimming -/

/-- There is no white space around it. -/
def Trimmed (s : Text) : Prop := trim s = s

instance (s : Text) : Decidable (Trimmed s) := inferInstanceAs (Decidable (trim s = s))

theorem head_dropWhile_not {p : Char → Bool} {s : Text} {c : Char} {rest : Text}
    (h : s.dropWhile p = c :: rest) : p c = false := by
  have hne : s.dropWhile p ≠ [] := by
    rw [h]
    exact List.cons_ne_nil c rest
  have hhead := List.head_dropWhile_not p hne
  simpa only [h, List.head_cons, Bool.not_eq_true] using hhead

theorem trimmed_trim (s : Text) : Trimmed (trim s) := by
  unfold Trimmed trim trimEnd trimStart
  cases hdrop : (s.dropWhile isSpace).rdropWhile isSpace with
  | nil => rfl
  | cons c rest =>
    obtain ⟨tail, htail⟩ := List.rdropWhile_prefix isSpace (l := s.dropWhile isSpace)
    have hhead : isSpace c = false := by
      rw [hdrop, List.cons_append] at htail
      exact head_dropWhile_not htail.symm
    rw [List.dropWhile_cons_of_neg (by simp [hhead]), ← hdrop]
    exact List.rdropWhile_idempotent _ _

/-- No white space at either end. -/
theorem trimmed_of_ends {s : Text} (hhead : ∀ c ∈ s.head?, isSpace c = false)
    (hlast : ∀ c ∈ s.getLast?, isSpace c = false) : Trimmed s := by
  unfold Trimmed trim trimEnd trimStart
  have hdrop : s.dropWhile isSpace = s := by
    cases s with
    | nil => rfl
    | cons c rest => exact List.dropWhile_cons_of_neg (by simp [hhead c rfl])
  rw [hdrop, List.rdropWhile_eq_self_iff]
  intro hne
  simp [hlast _ (List.getLast?_eq_some_getLast hne)]

theorem trim_space_cons (s : Text) : trim (' ' :: s) = trim s := by
  unfold trim trimStart
  rw [List.dropWhile_cons_of_pos (by decide)]

theorem trimmed_stringify (values : List Text) : Trimmed (JsonTexts.stringify values) := by
  apply trimmed_of_ends
  · intro c hc
    cases hc
    decide
  · intro c hc
    rw [JsonTexts.stringify, List.getLast?_concat] at hc
    cases hc
    decide

theorem clean_ne_nil {s : Text} {max : Nat} (h : clean s max = true) : s ≠ [] := by
  rintro rfl
  simp [clean, trim, trimStart, trimEnd] at h

theorem clean_no_break {s : Text} {max : Nat} (h : clean s max = true) : '\n' ∉ s ∧ '\r' ∉ s := by
  simp only [clean, Bool.and_eq_true, List.all_eq_true] at h
  constructor
  · intro hmem
    have := h.2 _ hmem
    simp at this
  · intro hmem
    have := h.2 _ hmem
    simp at this

/-! ## Section 6: Front matter -/

def FieldValue.read : FieldValue → Text
  | .null => []
  | .text value => trim value
  | .list values => JsonTexts.stringify values

def FieldValue.NoBreak : FieldValue → Prop
  | .text value => '\n' ∉ value ∧ '\r' ∉ value
  | _ => True

structure KeyOk (key : Text) : Prop where
  nonempty : key ≠ []
  colon : ':' ∉ key
  newline : '\n' ∉ key
  carriage : '\r' ∉ key

instance (key : Text) : Decidable (KeyOk key) :=
  decidable_of_iff (key ≠ [] ∧ ':' ∉ key ∧ '\n' ∉ key ∧ '\r' ∉ key)
    ⟨fun ⟨h₁, h₂, h₃, h₄⟩ => ⟨h₁, h₂, h₃, h₄⟩, fun ⟨h₁, h₂, h₃, h₄⟩ => ⟨h₁, h₂, h₃, h₄⟩⟩

theorem keys_ok : ∀ key ∈ [typeKey, nameKey, purposeKey, stepsKey, closingStepsKey, personKey,
    organisationKey, stepKey, sinceKey, noteKey, sourceSignalKey], KeyOk key := by
  decide

theorem fieldLine_eq (key : Text) (value : FieldValue) :
    ∃ rest, fieldLine (key, value) = key ++ ':' :: rest ∧ trim rest = value.read ∧
      (value.NoBreak → '\n' ∉ rest ∧ '\r' ∉ rest) := by
  cases value with
  | null => exact ⟨[], rfl, rfl, by simp⟩
  | text value =>
    refine ⟨' ' :: value, rfl, trim_space_cons value, ?_⟩
    rintro ⟨hn, hr⟩
    simp [hn, hr]
  | list values =>
    refine ⟨' ' :: JsonTexts.stringify values, rfl, ?_, ?_⟩
    · rw [trim_space_cons]
      exact trimmed_stringify values
    · intro _
      have hbreak : ∀ c : Char, c.toNat < 32 → c ∉ JsonTexts.stringify values := by
        intro c hc hmem
        have := JsonTexts.stringify_ge hmem
        omega
      simp [hbreak '\n' (by decide), hbreak '\r' (by decide)]

theorem fieldLine_ne_dashes {key : Text} {value : FieldValue} :
    fieldLine (key, value) ≠ dashes := by
  obtain ⟨rest, hline, -, -⟩ := fieldLine_eq key value
  intro h
  have hcolon : ':' ∈ dashes := by
    rw [← h, hline]
    simp
  revert hcolon
  decide

theorem field_fieldLine {key : Text} {value : FieldValue} (hkey : KeyOk key) :
    field (fieldLine (key, value)) = some (key, value.read) := by
  obtain ⟨rest, hline, htrim, -⟩ := fieldLine_eq key value
  have hkeep : ∀ c ∈ key, decide (c ≠ ':') = true := by
    intro c hc
    simp only [decide_eq_true_eq]
    rintro rfl
    exact hkey.colon hc
  have htake : (key ++ ':' :: rest).takeWhile (· ≠ ':') = key := by
    rw [List.takeWhile_append_of_pos hkeep, List.takeWhile_cons_of_neg (by decide), List.append_nil]
  unfold field
  rw [hline]
  simp only [htake]
  rw [if_pos ⟨hkey.nonempty, by simp⟩, ← htrim]
  congr 2
  rw [List.drop_append, List.drop_of_length_le (by omega)]
  simp

theorem replaceBreaks_eq_self {s : Text} (h : '\r' ∉ s) : replaceBreaks s = s := by
  induction s with
  | nil => rfl
  | cons c rest ih =>
    have hrest : '\r' ∉ rest := fun hmem => h (List.mem_cons_of_mem c hmem)
    have hc : c ≠ '\r' := fun heq => h (heq ▸ List.mem_cons_self ..)
    rw [replaceBreaks, ih hrest]
    intro _ heq
    exact absurd heq hc

theorem not_mem_intercalate {c : Char} (hc : c ≠ '\n') {lines : List Text}
    (h : ∀ line ∈ lines, c ∉ line) : c ∉ ['\n'].intercalate lines := by
  induction lines with
  | nil => simp
  | cons line rest ih =>
    have hrest := ih fun next hnext => h next (List.mem_cons_of_mem line hnext)
    have hline := h line (List.mem_cons_self ..)
    cases rest with
    | nil => simpa using hline
    | cons next rest =>
      rw [List.intercalate_cons_cons]
      simp [hline, hc, hrest]

theorem intercalate_concat (lines : List Text) (last : Text) (hne : lines ≠ []) :
    ['\n'].intercalate (lines ++ [last]) = ['\n'].intercalate lines ++ '\n' :: last := by
  induction lines with
  | nil => exact absurd rfl hne
  | cons line rest ih =>
    cases rest with
    | nil => simp
    | cons next rest =>
      rw [List.cons_append, List.cons_append, List.intercalate_cons_cons, ← List.cons_append,
        ih (List.cons_ne_nil next rest), List.intercalate_cons_cons]
      simp

theorem noteContent_nil (fm : Frontmatter) : noteContent fm [] =
    ['\n'].intercalate (dashes :: fm.map fieldLine ++ [dashes] ++ [[]] ++ [[]]) := by
  rw [intercalate_concat _ _ (by simp), intercalate_concat _ _ (by simp)]
  simp [noteContent, serializeFrontmatter]

/-- **Front matter is read as it was written**, each value trimmed. -/
theorem frontmatter_noteContent {fm : Frontmatter} (hkeys : ∀ f ∈ fm, KeyOk f.1)
    (hvalues : ∀ f ∈ fm, f.2.NoBreak) :
    frontmatter (noteContent fm []) = .ok (fm.map fun f => (f.1, f.2.read)) := by
  have hline : ∀ f ∈ fm, '\n' ∉ fieldLine f ∧ '\r' ∉ fieldLine f := by
    intro f hf
    obtain ⟨rest, hline, -, hrest⟩ := fieldLine_eq f.1 f.2
    obtain ⟨hn, hr⟩ := hrest (hvalues f hf)
    have hkey := hkeys f hf
    rw [show fieldLine f = f.1 ++ ':' :: rest from hline]
    simp [hkey.newline, hkey.carriage, hn, hr]
  have hlines : ∀ c : Char, c ∉ dashes → (∀ f ∈ fm, c ∉ fieldLine f) →
      ∀ line ∈ dashes :: fm.map fieldLine ++ [dashes] ++ [[]] ++ [[]], c ∉ line := by
    intro c hdashes hfm line hmem
    simp only [List.mem_append, List.mem_cons, List.mem_map, List.not_mem_nil, or_false] at hmem
    rcases hmem with (((rfl | ⟨f, hf, rfl⟩) | rfl) | rfl) | rfl
    · exact hdashes
    · exact hfm f hf
    · exact hdashes
    · simp
    · simp
  have hreturn : '\r' ∉ noteContent fm [] := by
    rw [noteContent_nil]
    apply not_mem_intercalate (by decide)
    exact hlines '\r' (by decide) fun f hf => (hline f hf).2
  have hsplit : (replaceBreaks (noteContent fm [])).splitOn '\n' =
      dashes :: (fm.map fieldLine ++ [dashes] ++ [[]] ++ [[]]) := by
    rw [replaceBreaks_eq_self hreturn, noteContent_nil, List.splitOn_intercalate]
    · simp
    · exact hlines '\n' (by decide) fun f hf => (hline f hf).1
    · simp
  have htake : (fm.map fieldLine ++ [dashes] ++ [[]] ++ [[]]).takeWhile (· ≠ dashes) =
      fm.map fieldLine := by
    have hbefore : ∀ line ∈ fm.map fieldLine, decide (line ≠ dashes) = true := by
      intro line hmem
      obtain ⟨f, -, rfl⟩ := List.mem_map.1 hmem
      exact decide_eq_true fieldLine_ne_dashes
    rw [List.append_assoc, List.append_assoc, List.takeWhile_append_of_pos hbefore,
      List.singleton_append, List.takeWhile_cons_of_neg (by simp), List.append_nil]
  unfold frontmatter
  rw [hsplit]
  simp only
  rw [if_pos (by simp), htake, List.filterMap_map]
  congr 1
  rw [← List.filterMap_eq_map]
  apply List.filterMap_congr
  intro f hf
  exact field_fieldLine (hkeys f hf)

/-- Every value that is read is trimmed. -/
theorem trimmed_get {raw : Text} {f : List (Text × Text)} (h : frontmatter raw = .ok f)
    (key : Text) : Trimmed ((get f key).getD []) := by
  have hall : ∀ p ∈ f, Trimmed p.2 := by
    unfold frontmatter at h
    split at h
    · cases h
    · split at h
      · cases h
        intro p hp
        obtain ⟨line, -, hline⟩ := List.mem_filterMap.1 hp
        simp only [field, Option.ite_none_right_eq_some] at hline
        obtain ⟨-, hline⟩ := hline
        cases hline
        exact trimmed_trim _
      · cases h
  clear h
  induction f with
  | nil => exact rfl
  | cons p f ih =>
    have htail := ih fun q hq => hall q (List.mem_cons_of_mem p hq)
    rw [get]
    cases hget : get f key with
    | some value =>
      rw [hget] at htail
      exact htail
    | none =>
      by_cases hkey : p.1 = key
      · rw [if_pos hkey]
        exact hall p (List.mem_cons_self ..)
      · rw [if_neg hkey]
        exact rfl

theorem get_none {f : List (Text × Text)} {key : Text} (h : key ∉ f.map Prod.fst) :
    get f key = none := by
  induction f with
  | nil => rfl
  | cons p f ih =>
    simp only [List.map_cons, List.mem_cons, not_or] at h
    rw [get, ih h.2, if_neg (Ne.symm h.1)]
    rfl

theorem get_of_mem {f : List (Text × Text)} {key value : Text} (hkeys : (f.map Prod.fst).Nodup)
    (h : (key, value) ∈ f) : get f key = some value := by
  induction f with
  | nil => cases h
  | cons p f ih =>
    obtain ⟨hnew, hkeys⟩ := List.nodup_cons.1 hkeys
    rcases List.mem_cons.1 h with rfl | h
    · rw [get, get_none hnew, if_pos rfl]
      rfl
    · rw [get, ih hkeys h]
      rfl

theorem get_append (a b : List (Text × Text)) (key : Text) :
    get (a ++ b) key = (get b key).or (get a key) := by
  induction a with
  | nil => simp [get]
  | cons p a ih => rw [List.cons_append, get, ih, get, Option.or_assoc]

theorem get_toList (value : Option Text) (key wanted : Text) :
    get (value.toList.map fun value => (key, value)) wanted =
      if key = wanted then value else none := by
  cases value with
  | none => simp [get]
  | some value => rfl

/-! ## Section 7: Tracks and items -/

theorem decodeList_stringify {values : List Text} (h : values.all (clean · 80) = true) :
    decodeList (some (JsonTexts.stringify values)) = .ok values := by
  have hhead : (JsonTexts.stringify values).head? = some '[' := rfl
  have hlast : (JsonTexts.stringify values).getLast? = some ']' := by
    rw [JsonTexts.stringify, List.getLast?_concat]
  unfold decodeList
  simp only [hhead, hlast, and_self, if_true, JsonTexts.parse_stringify, h]

/-- **A track reads back as it was written.** -/
theorem parseTrack_trackFields {track : Track} (hvalid : validateTrack track = true)
    (hname : Trimmed track.name) (hpurpose : Trimmed track.purpose) :
    parseTrack track.id (noteContent (trackFields track) []) = .ok track := by
  have hvalid' := hvalid
  simp only [validateTrack, Bool.and_eq_true] at hvalid'
  obtain ⟨⟨⟨⟨⟨⟨⟨-, hcname⟩, hcpurpose⟩, -⟩, hsteps⟩, -⟩, -⟩, hclosing⟩ := hvalid'
  have hclosing : track.closingSteps.all (clean · 80) = true := by
    rw [List.all_eq_true] at hclosing hsteps ⊢
    intro step hstep
    exact hsteps step (of_decide_eq_true (hclosing step hstep))
  have hkeys : ∀ f ∈ trackFields track, KeyOk f.1 := by
    simp only [trackFields, List.forall_mem_cons]
    exact ⟨keys_ok typeKey (by decide), keys_ok nameKey (by decide),
      keys_ok purposeKey (by decide), keys_ok stepsKey (by decide),
      keys_ok closingStepsKey (by decide), by simp⟩
  have hvalues : ∀ f ∈ trackFields track, f.2.NoBreak := by
    simp only [trackFields, List.forall_mem_cons]
    have htype : '\n' ∉ trackType ∧ '\r' ∉ trackType := by decide
    exact ⟨htype, clean_no_break hcname, clean_no_break hcpurpose, trivial, trivial, by simp⟩
  have hread : (trackFields track).map (fun f => (f.1, f.2.read)) =
      [(typeKey, trackType), (nameKey, track.name), (purposeKey, track.purpose),
        (stepsKey, JsonTexts.stringify track.steps),
        (closingStepsKey, JsonTexts.stringify track.closingSteps)] := by
    simp only [trackFields, List.map_cons, List.map_nil, FieldValue.read]
    rw [hname, hpurpose, show trim trackType = trackType by decide]
  unfold parseTrack
  rw [frontmatter_noteContent hkeys hvalues, hread]
  generalize hf : [(typeKey, trackType), (nameKey, track.name), (purposeKey, track.purpose),
      (stepsKey, JsonTexts.stringify track.steps),
      (closingStepsKey, JsonTexts.stringify track.closingSteps)] = f
  have hnodup : (f.map Prod.fst).Nodup := by
    rw [← hf]
    simp only [List.map_cons, List.map_nil]
    decide
  have hget : ∀ key value, (key, value) ∈ f → get f key = some value :=
    fun key value => get_of_mem hnodup
  simp only [hget typeKey trackType (by simp [← hf]), hget nameKey track.name (by simp [← hf]),
    hget purposeKey track.purpose (by simp [← hf]),
    hget stepsKey (JsonTexts.stringify track.steps) (by simp [← hf]),
    hget closingStepsKey (JsonTexts.stringify track.closingSteps) (by simp [← hf]),
    decodeList_stringify hsteps, decodeList_stringify hclosing, Option.getD_some, bind, Except.bind,
    if_true, hvalid]

theorem parseTrack_ok {id raw : Text} {track : Track} (h : parseTrack id raw = .ok track) :
    validateTrack track = true ∧ track.id = id ∧ Trimmed track.name ∧ Trimmed track.purpose := by
  unfold parseTrack at h
  cases hf : frontmatter raw with
  | error e =>
    rw [hf] at h
    cases h
  | ok f =>
    rw [hf] at h
    simp only [bind, Except.bind] at h
    split at h
    · cases hsteps : decodeList (get f stepsKey) with
      | error e =>
        rw [hsteps] at h
        cases h
      | ok steps =>
        cases hclosing : decodeList (get f closingStepsKey) with
        | error e =>
          rw [hsteps, hclosing] at h
          cases h
        | ok closingSteps =>
          rw [hsteps, hclosing] at h
          dsimp only at h
          split at h
          next hvalid =>
            cases h
            exact ⟨hvalid, rfl, trimmed_get hf nameKey, trimmed_get hf purposeKey⟩
          · cases h
    · cases h

section Items

variable {dateParses : Text → Bool}

/-- What `addItem` and `parseItem` ask of an item. -/
structure ItemOk (dateParses : Text → Bool) (item : TrackItem) : Prop where
  who : whoValid item.who = true
  step : clean item.step 80 = true
  since : validDate dateParses item.since = true
  note : clean item.note 500 = true
  sourceSignal : clean item.sourceSignal 200 = true

/-- No white space around what an item is given. -/
structure TrackItem.Trimmed (item : TrackItem) : Prop where
  personId : ∀ id ∈ item.who.personId, Tracks.Trimmed id
  organisationId : ∀ id ∈ item.who.organisationId, Tracks.Trimmed id
  step : Tracks.Trimmed item.step
  note : Tracks.Trimmed item.note
  sourceSignal : Tracks.Trimmed item.sourceSignal

theorem isDigit_not_space {c : Char} (h : c.isDigit = true) :
    isSpace c = false ∧ c ≠ '\n' ∧ c ≠ '\r' := by
  simp only [Char.isDigit, Bool.and_eq_true, decide_eq_true_eq] at h
  have hlow : 48 ≤ c.toNat := h.1
  have hhigh : c.toNat ≤ 57 := h.2
  refine ⟨?_, ?_, ?_⟩
  · simp only [isSpace, Bool.or_eq_false_iff, Bool.and_eq_false_iff, decide_eq_false_iff_not]
    omega
  · rintro rfl
    exact absurd hlow (by decide)
  · rintro rfl
    exact absurd hlow (by decide)

theorem dateShaped_spec {s : Text} (h : dateShaped s = true) :
    Tracks.Trimmed s ∧ '\n' ∉ s ∧ '\r' ∉ s := by
  unfold dateShaped at h
  split at h
  · next a b c d e f g i =>
    simp only [Bool.and_eq_true] at h
    obtain ⟨⟨⟨⟨⟨⟨⟨ha, hb⟩, hc⟩, hd⟩, he⟩, hf⟩, hg⟩, hi⟩ := h
    refine ⟨trimmed_of_ends ?_ ?_, ?_, ?_⟩
    · intro x hx
      cases hx
      exact (isDigit_not_space ha).1
    · intro x hx
      cases hx
      exact (isDigit_not_space hi).1
    · simp [(isDigit_not_space ha).2.1.symm, (isDigit_not_space hb).2.1.symm,
        (isDigit_not_space hc).2.1.symm, (isDigit_not_space hd).2.1.symm,
        (isDigit_not_space he).2.1.symm, (isDigit_not_space hf).2.1.symm,
        (isDigit_not_space hg).2.1.symm, (isDigit_not_space hi).2.1.symm]
    · simp [(isDigit_not_space ha).2.2.symm, (isDigit_not_space hb).2.2.symm,
        (isDigit_not_space hc).2.2.symm, (isDigit_not_space hd).2.2.symm,
        (isDigit_not_space he).2.2.symm, (isDigit_not_space hf).2.2.symm,
        (isDigit_not_space hg).2.2.symm, (isDigit_not_space hi).2.2.symm]
  · cases h

theorem whoField_read {key : Text} {value : Option Text} (hclean : value.all (clean · 160) = true)
    (htrimmed : ∀ id ∈ value, Tracks.Trimmed id) :
    (whoField key value).map (fun f => (f.1, f.2.read)) =
      value.toList.map fun value => (key, value) := by
  cases value with
  | none => rfl
  | some value =>
    have hne : value ≠ [] := clean_ne_nil hclean
    have htrim : trim value = value := htrimmed value rfl
    simp [whoField, hne, FieldValue.read, htrim]

theorem whoField_ok {key : Text} {value : Option Text} (hkey : KeyOk key)
    (hclean : value.all (clean · 160) = true) :
    ∀ f ∈ whoField key value, KeyOk f.1 ∧ f.2.NoBreak := by
  intro f hf
  obtain ⟨id, hid, rfl⟩ := List.mem_map.1 hf
  refine ⟨hkey, ?_⟩
  cases value with
  | none => cases hid
  | some value =>
    obtain rfl : id = value := by
      have := (Option.filter_eq_some_iff.1 (Option.mem_toList.1 hid)).1
      exact (Option.some.inj this).symm
    exact clean_no_break hclean

/-- **An item reads back as it was written.** -/
theorem parseItem_itemFields {item : TrackItem} (hok : ItemOk dateParses item)
    (htrimmed : item.Trimmed) :
    parseItem dateParses item.id item.trackId (noteContent (itemFields item) []) = .ok item := by
  have hwho := hok.who
  simp only [whoValid, Bool.and_eq_true] at hwho
  obtain ⟨⟨-, hperson⟩, horganisation⟩ := hwho
  have hshaped := (Bool.and_eq_true_iff.1 hok.since).1
  obtain ⟨hsince, hsincebreak⟩ := dateShaped_spec hshaped
  have hfields : ∀ f ∈ itemFields item, KeyOk f.1 ∧ f.2.NoBreak := by
    intro f hf
    simp only [itemFields, List.mem_append] at hf
    rcases hf with ((hf | hf) | hf) | hf
    · rw [List.mem_singleton.1 hf]
      have htype : '\n' ∉ itemType ∧ '\r' ∉ itemType := by decide
      exact ⟨keys_ok typeKey (by decide), htype⟩
    · exact whoField_ok (keys_ok personKey (by decide)) hperson f hf
    · exact whoField_ok (keys_ok organisationKey (by decide)) horganisation f hf
    · simp only [List.mem_cons, List.not_mem_nil, or_false] at hf
      rcases hf with rfl | rfl | rfl | rfl
      · exact ⟨keys_ok stepKey (by decide), clean_no_break hok.step⟩
      · exact ⟨keys_ok sinceKey (by decide), hsincebreak⟩
      · exact ⟨keys_ok noteKey (by decide), clean_no_break hok.note⟩
      · exact ⟨keys_ok sourceSignalKey (by decide), clean_no_break hok.sourceSignal⟩
  have hread : (itemFields item).map (fun f => (f.1, f.2.read)) =
      [(typeKey, itemType)] ++ item.who.personId.toList.map (fun value => (personKey, value)) ++
        item.who.organisationId.toList.map (fun value => (organisationKey, value)) ++
        [(stepKey, item.step), (sinceKey, item.since), (noteKey, item.note),
          (sourceSignalKey, item.sourceSignal)] := by
    rw [itemFields, List.map_append, List.map_append, List.map_append,
      whoField_read hperson htrimmed.personId, whoField_read horganisation htrimmed.organisationId]
    simp only [List.map_cons, List.map_nil, FieldValue.read]
    rw [htrimmed.step, hsince, htrimmed.note, htrimmed.sourceSignal,
      show trim itemType = itemType by decide]
  have hnonempty : ∀ value : Option Text, value.all (clean · 160) = true →
      value.filter (· ≠ []) = value := by
    intro value hclean
    cases value with
    | none => rfl
    | some value => simp [clean_ne_nil (show clean value 160 = true from hclean)]
  unfold parseItem
  rw [frontmatter_noteContent (fun f hf => (hfields f hf).1) (fun f hf => (hfields f hf).2), hread]
  generalize hf : [(typeKey, itemType)] ++
      item.who.personId.toList.map (fun value => (personKey, value)) ++
      item.who.organisationId.toList.map (fun value => (organisationKey, value)) ++
      [(stepKey, item.step), (sinceKey, item.since), (noteKey, item.note),
        (sourceSignalKey, item.sourceSignal)] = f
  have htype : get f typeKey = some itemType := by
    rw [← hf]
    simp +decide [get_append, get_toList, get]
  have hpersonGet : get f personKey = item.who.personId := by
    rw [← hf]
    simp +decide [get_append, get_toList, get]
  have horganisationGet : get f organisationKey = item.who.organisationId := by
    rw [← hf]
    simp +decide [get_append, get_toList, get]
  have hstep : get f stepKey = some item.step := by
    rw [← hf]
    simp +decide [get_append, get_toList, get]
  have hsinceGet : get f sinceKey = some item.since := by
    rw [← hf]
    simp +decide [get_append, get_toList, get]
  have hnote : get f noteKey = some item.note := by
    rw [← hf]
    simp +decide [get_append, get_toList, get]
  have hsignal : get f sourceSignalKey = some item.sourceSignal := by
    rw [← hf]
    simp +decide [get_append, get_toList, get]
  simp only [htype, hpersonGet, horganisationGet, hstep, hsinceGet, hnote, hsignal, bind,
    Except.bind, Option.getD_some, hnonempty _ hperson, hnonempty _ horganisation]
  rw [if_pos ⟨trivial, hok.who, hok.step, hok.since, hok.note, hok.sourceSignal⟩]

theorem parseItem_ok {id trackId raw : Text} {item : TrackItem}
    (h : parseItem dateParses id trackId raw = .ok item) :
    ItemOk dateParses item ∧ item.id = id ∧ item.trackId = trackId ∧ item.Trimmed := by
  unfold parseItem at h
  cases hf : frontmatter raw with
  | error e =>
    rw [hf] at h
    cases h
  | ok f =>
    rw [hf] at h
    simp only [bind, Except.bind] at h
    split at h
    next hok =>
      cases h
      obtain ⟨-, hwho, hstep, hsince, hnote, hsignal⟩ := hok
      have hid : ∀ key, ∀ id ∈ (get f key).filter (· ≠ []), Tracks.Trimmed id := by
        intro key id hid
        have hsome := (Option.filter_eq_some_iff.1 hid).1
        have htrim := trimmed_get hf key
        rwa [hsome] at htrim
      exact ⟨⟨hwho, hstep, hsince, hnote, hsignal⟩, rfl, rfl, hid personKey, hid organisationKey,
        trimmed_get hf stepKey, trimmed_get hf noteKey, trimmed_get hf sourceSignalKey⟩
    · cases h

end Items

end Lares.Tracks
