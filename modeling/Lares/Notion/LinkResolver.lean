import Lares.Framework.Lines
import Lares.Framework.Table
import Mathlib

/-! # Links, pulled and pushed

    A mention of a page becomes a wikilink when a page is pulled, and the
    wikilink a mention again when the file is pushed.

    * **Pulling** names a page by its bare file name when no other tracked file
      has it, else by its whole path.
    * **Pushing** cuts a target at `#`, trims it, and looks for a path in one
      directory, then for a bare name there.
    * **Exactness**: the two are inverse on exactly the file names described.
-/

namespace Lares.Notion

open Lines

abbrev Target := List Char

theorem lawfulTarget : LawfulBEq Target := inferInstance

attribute [local instance] lawfulTarget

/-! ## Section 1: Page ids -/

def isHexDigit (c : Char) : Bool :=
  c.isDigit || ('a' ≤ c && c ≤ 'f') || ('A' ≤ c && c ≤ 'F')

/-- `[0-9a-f]{n}` -/
def takeHex : Nat → Target → Option (Target × Target)
  | 0, s => some ([], s)
  | _ + 1, [] => none
  | n + 1, c :: s =>
      if isHexDigit c then (takeHex n s).map fun cut => (c :: cut.1, cut.2) else none

/-- `(-?[0-9a-f]{n})` for each `n` -/
def takeGroups : List Nat → Target → Option (Target × Target)
  | [], s => some ([], s)
  | n :: ns, s => do
      let (group, rest) ← takeHex n (if s.head? = some '-' then s.tail else s)
      let (groups, rest) ← takeGroups ns rest
      return ((if s.head? = some '-' then ['-'] else []) ++ group ++ groups, rest)

/-- `PAGE_ID_IN_TEXT` at the start of a text. -/
def pageIdAt (s : Target) : Option (Target × Target) := do
  let (group, rest) ← takeHex 8 s
  let (groups, rest) ← takeGroups [4, 4, 4, 12] rest
  return (group ++ groups, rest)

/-- The last match, when `skip` characters belong to the one before. -/
def lastPageId : Nat → Target → Option Target → Option Target
  | _, [], last => last
  | skip + 1, _ :: s, last => lastPageId skip s last
  | 0, c :: s, last =>
      match pageIdAt (c :: s) with
      | some (found, _) => lastPageId (found.length - 1) s (some found)
      | none => lastPageId 0 s last

def undashed (s : Target) : Target := s.filter (· ≠ '-')

def pageKey (toLowerCase : Target → Target) (value : Target) : Target :=
  match lastPageId 0 value none with
  | some found => toLowerCase (undashed found)
  | none => toLowerCase (trim value)

/-- A page id as Notion gives it: a UUID, with or without dashes. -/
structure PageId where
  text : Target
  isId : pageIdAt text = some (text, [])

/-- `https://www.notion.so/` -/
def pageUrlStart : Target :=
  ['h', 't', 't', 'p', 's', ':', '/', '/', 'w', 'w', 'w', '.', 'n', 'o', 't', 'i', 'o', 'n', '.',
    's', 'o', '/']

def notionPageUrl (pageId : Target) : Target := pageUrlStart ++ undashed pageId

theorem takeHex_eq_some {n : Nat} {s group rest : Target} :
    takeHex n s = some (group, rest) ↔
      s = group ++ rest ∧ group.length = n ∧ ∀ c ∈ group, isHexDigit c = true := by
  induction n generalizing s group with
  | zero =>
    rw [takeHex]
    constructor
    · intro h
      cases h
      simp
    · rintro ⟨rfl, hlen, -⟩
      rw [List.length_eq_zero_iff.1 hlen]
      rfl
  | succ n ih =>
    cases s with
    | nil =>
      rw [takeHex]
      constructor
      · intro h
        cases h
      · rintro ⟨hs, hlen, -⟩
        cases group with
        | nil => cases hlen
        | cons c group => cases hs
    | cons c s =>
      rw [takeHex]
      constructor
      · intro h
        split at h
        · next hc =>
          obtain ⟨⟨group', rest'⟩, hcut, heq⟩ := Option.map_eq_some_iff.1 h
          cases heq
          obtain ⟨rfl, hlen, hall⟩ := ih.1 hcut
          refine ⟨rfl, by rw [List.length_cons, hlen], ?_⟩
          intro x hx
          rcases List.mem_cons.1 hx with rfl | hx
          · exact hc
          · exact hall x hx
        · cases h
      · rintro ⟨hs, hlen, hall⟩
        cases group with
        | nil => cases hlen
        | cons d group =>
          rw [List.cons_append] at hs
          obtain ⟨rfl, rfl⟩ := List.cons.inj hs
          rw [if_pos (hall c List.mem_cons_self),
            ih.2 ⟨rfl, Nat.succ.inj hlen, fun x hx => hall x (List.mem_cons_of_mem c hx)⟩]
          rfl

theorem isHexDigit_ne_dash {c : Char} (h : isHexDigit c = true) : c ≠ '-' := by
  rintro rfl
  exact absurd h (by decide)

theorem undashed_eq_self {s : Target} (h : ∀ c ∈ s, isHexDigit c = true) : undashed s = s := by
  apply List.filter_eq_self.2
  intro c hc
  simp [isHexDigit_ne_dash (h c hc)]

/-- Without its dashes a sequence of groups is one run of digits. -/
theorem takeGroups_undashed {ns : List Nat} {s groups rest : Target}
    (h : takeGroups ns s = some (groups, rest)) :
    (undashed groups).length = ns.sum ∧ ∀ c ∈ undashed groups, isHexDigit c = true := by
  induction ns generalizing s groups with
  | nil =>
    cases h
    simp [undashed]
  | cons n ns ih =>
    rw [takeGroups] at h
    cases hgroup : takeHex n (if s.head? = some '-' then s.tail else s) with
    | none =>
      rw [hgroup] at h
      cases h
    | some cut =>
      obtain ⟨group, rest'⟩ := cut
      rw [hgroup] at h
      cases hmore : takeGroups ns rest' with
      | none =>
        simp [hmore] at h
      | some cut' =>
        obtain ⟨more, rest''⟩ := cut'
        simp only [hmore, Option.bind_eq_bind, Option.bind_some, Option.pure_def,
          Option.some.injEq, Prod.mk.injEq] at h
        obtain ⟨rfl, rfl⟩ := h
        obtain ⟨-, hlen, hall⟩ := takeHex_eq_some.1 hgroup
        obtain ⟨hlen', hall'⟩ := ih hmore
        have hdash : undashed (if s.head? = some '-' then ['-'] else []) = [] := by
          split
          · rfl
          · rfl
        have hundash : undashed ((if s.head? = some '-' then ['-'] else []) ++ group ++ more) =
            group ++ undashed more := by
          have hgroup' := undashed_eq_self hall
          unfold undashed at hdash hgroup' ⊢
          rw [List.filter_append, List.filter_append, hdash, hgroup', List.nil_append]
        rw [hundash]
        constructor
        · rw [List.length_append, hlen, hlen', List.sum_cons]
        · intro c hc
          rcases List.mem_append.1 hc with hc | hc
          · exact hall c hc
          · exact hall' c hc

theorem takeGroups_hex {ns : List Nat} {s : Target}
    (hlen : s.length = ns.sum) (hall : ∀ c ∈ s, isHexDigit c = true) :
    takeGroups ns s = some (s, []) := by
  induction ns generalizing s with
  | nil =>
    rw [List.sum_nil, List.length_eq_zero_iff] at hlen
    rw [hlen]
    rfl
  | cons n ns ih =>
    have hhead : s.head? ≠ some '-' := by
      intro h
      have hmem := List.mem_of_head? h
      exact isHexDigit_ne_dash (hall _ hmem) rfl
    rw [List.sum_cons] at hlen
    have hcut : takeHex n s = some (s.take n, s.drop n) := by
      apply takeHex_eq_some.2
      refine ⟨(List.take_append_drop n s).symm, ?_, fun c hc => hall c (List.mem_of_mem_take hc)⟩
      rw [List.length_take]
      omega
    have hrest := ih (s := s.drop n)
      (by rw [List.length_drop]; omega) (fun c hc => hall c (List.mem_of_mem_drop hc))
    rw [takeGroups, if_neg hhead, if_neg hhead, hcut]
    simp only [Option.bind_eq_bind, Option.bind_some, hrest, Option.pure_def, List.nil_append,
      List.take_append_drop]

theorem pageIdAt_eq_some {s found rest : Target} (h : pageIdAt s = some (found, rest)) :
    (undashed found).length = 32 ∧ ∀ c ∈ undashed found, isHexDigit c = true := by
  rw [pageIdAt] at h
  cases hgroup : takeHex 8 s with
  | none =>
    rw [hgroup] at h
    cases h
  | some cut =>
    obtain ⟨group, rest'⟩ := cut
    rw [hgroup] at h
    cases hmore : takeGroups [4, 4, 4, 12] rest' with
    | none => simp [hmore] at h
    | some cut' =>
      obtain ⟨more, rest''⟩ := cut'
      simp only [hmore, Option.bind_eq_bind, Option.bind_some, Option.pure_def,
        Option.some.injEq, Prod.mk.injEq] at h
      obtain ⟨rfl, rfl⟩ := h
      obtain ⟨-, hlen, hall⟩ := takeHex_eq_some.1 hgroup
      obtain ⟨hlen', hall'⟩ := takeGroups_undashed hmore
      have hundash : undashed (group ++ more) = group ++ undashed more := by
        have hgroup' := undashed_eq_self hall
        unfold undashed at hgroup' ⊢
        rw [List.filter_append, hgroup']
      rw [hundash]
      constructor
      · rw [List.length_append, hlen, hlen']
        rfl
      · intro c hc
        rcases List.mem_append.1 hc with hc | hc
        · exact hall c hc
        · exact hall' c hc

theorem pageIdAt_hex {s : Target} (hlen : s.length = 32) (hall : ∀ c ∈ s, isHexDigit c = true) :
    pageIdAt s = some (s, []) := by
  have hcut : takeHex 8 s = some (s.take 8, s.drop 8) := by
    apply takeHex_eq_some.2
    refine ⟨(List.take_append_drop 8 s).symm, ?_, fun c hc => hall c (List.mem_of_mem_take hc)⟩
    rw [List.length_take]
    omega
  have hrest : takeGroups [4, 4, 4, 12] (s.drop 8) = some (s.drop 8, []) := by
    apply takeGroups_hex
    · rw [List.length_drop, hlen]
      rfl
    · exact fun c hc => hall c (List.mem_of_mem_drop hc)
  rw [pageIdAt, hcut]
  simp only [Option.bind_eq_bind, Option.bind_some, hrest, Option.pure_def,
    List.take_append_drop]

theorem lastPageId_skip {skip : Nat} {s : Target} (h : s.length ≤ skip) (last : Option Target) :
    lastPageId skip s last = last := by
  induction s generalizing skip with
  | nil => cases skip <;> rfl
  | cons c s ih =>
    cases skip with
    | zero => simp at h
    | succ skip => exact ih (by simpa using h)

theorem lastPageId_whole {s : Target} (hne : s ≠ []) (h : pageIdAt s = some (s, []))
    (last : Option Target) : lastPageId 0 s last = some s := by
  cases s with
  | nil => exact absurd rfl hne
  | cons c s =>
    rw [lastPageId, h]
    exact lastPageId_skip (by simp) _

/-- No id starts where there is no digit. -/
theorem lastPageId_append {a : Target} (ha : ∀ c ∈ a, isHexDigit c = false) (s : Target)
    (last : Option Target) : lastPageId 0 (a ++ s) last = lastPageId 0 s last := by
  induction a with
  | nil => rfl
  | cons c a ih =>
    have hnone : pageIdAt (c :: (a ++ s)) = none := by
      have hc : ¬isHexDigit c = true := by simp [ha c List.mem_cons_self]
      rw [pageIdAt, takeHex, if_neg hc]
      rfl
    rw [List.cons_append, lastPageId, hnone]
    exact ih fun x hx => ha x (List.mem_cons_of_mem c hx)

theorem pageUrlStart_no_digit {c : Char} (h : c ∈ pageUrlStart) : isHexDigit c = false := by
  have hall : (pageUrlStart.all fun c => !isHexDigit c) = true := by decide +kernel
  simpa using List.all_eq_true.1 hall c h

/-- A page's url has the key of its id. -/
theorem pageKey_url (toLowerCase : Target → Target) (id : PageId) :
    pageKey toLowerCase (notionPageUrl id.text) = pageKey toLowerCase id.text := by
  obtain ⟨hlen, hall⟩ := pageIdAt_eq_some id.isId
  have hne : undashed id.text ≠ [] := by
    intro hnil
    rw [hnil] at hlen
    cases hlen
  have htext : id.text ≠ [] := by
    intro hnil
    rw [hnil] at hne
    exact hne rfl
  rw [pageKey, pageKey, notionPageUrl, lastPageId_append fun _ => pageUrlStart_no_digit,
    lastPageId_whole hne (pageIdAt_hex hlen hall), lastPageId_whole htext id.isId]
  dsimp only
  rw [undashed_eq_self hall]

/-! ## Section 2: The code -/

def mdExtensions : List Target :=
  [['.', 'm', 'd'], ['.', 'm', 'D'], ['.', 'M', 'd'], ['.', 'M', 'D']]

/-- `replace(/\.md$/i, "")` -/
def stripMd (path : Target) : Target :=
  if path.drop (path.length - 3) ∈ mdExtensions then path.take (path.length - 3) else path

/-- `split("/").pop()` -/
def stemOf (key : Target) : Target := ((key.splitOn '/').getLast?).getD key

structure DeskRow where
  vaultPath : Target
  pageId : PageId

/-- The pages of the snapshot by vault path. -/
abbrev Rows := Table DeskRow.vaultPath

section Pull

variable (toLowerCase : Target → Target) (rows : Rows)

/-- `pathByPage`, where a later row replaces an earlier one. -/
def pathByPage (key : Target) : Option Target :=
  ((rows.rows.filter fun row => decide (pageKey toLowerCase row.pageId.text = key)).getLast?).map
    DeskRow.vaultPath

def stemCount (stem : Target) : Nat :=
  rows.rows.countP fun row => decide (stemOf (stripMd row.vaultPath) = stem)

def linkTarget (vaultPath : Target) : Target :=
  let key := stripMd vaultPath
  let stem := stemOf key
  if stemCount rows stem = 1 then stem else key

def buildPageResolver (urlOrId : Target) : Option Target :=
  (pathByPage toLowerCase rows (pageKey toLowerCase urlOrId)).map (linkTarget rows)

end Pull

structure ResolvedWikiLink where
  url : Target
  title : Target

/-- The titles of a directory's files by their path in it. -/
abbrev Titles := Table (Prod.fst : Target × Target → Target)

section Push

variable (wikiDir : Target) (rows : Rows) (titles : Titles)

/-- The files with a row, in the order of the titles. -/
def linkedFiles : List (Target × ResolvedWikiLink) :=
  titles.rows.filterMap fun file =>
    (rows.find? (wikiDir ++ '/' :: file.1)).map fun row =>
      (file.1, ⟨notionPageUrl row.pageId.text, file.2⟩)

/-- What is looked up for a target. -/
def linkText (target : Target) : Target :=
  let t := trim (target.takeWhile (· ≠ '#'))
  if (wikiDir ++ ['/']).isPrefixOf t then t.drop (wikiDir.length + 1) else t

/-- `byPath.get`, where a later file replaces an earlier one. -/
def byPath (t : Target) : Option (Target × ResolvedWikiLink) :=
  ((linkedFiles wikiDir rows titles).filter fun file => decide (stripMd file.1 = t)).getLast?

def byStem (t : Target) : List (Target × ResolvedWikiLink) :=
  (linkedFiles wikiDir rows titles).filter fun file => decide (stemOf (stripMd file.1) = t)

def buildResolver (target : Target) : Option ResolvedWikiLink :=
  let t := linkText wikiDir target
  if t = [] then none
  else
    match byPath wikiDir rows titles t with
    | some exact => some exact.2
    | none =>
        if '/' ∈ t then none
        else
          let stems := byStem wikiDir rows titles t
          if stems.length = 1 then stems.head?.map Prod.snd else none

end Push

/-! ## Section 3: Names -/

theorem splitOn_of_not_mem {s : Target} (h : '/' ∉ s) : s.splitOn '/' = [s] := by
  have hmem : ∀ l ∈ [s], '/' ∉ l := fun l hl => by rw [List.mem_singleton.1 hl]; exact h
  have hsplit := List.splitOn_intercalate '/' hmem (List.cons_ne_nil s [])
  rwa [List.intercalate_singleton] at hsplit

theorem stemOf_of_not_mem {s : Target} (h : '/' ∉ s) : stemOf s = s := by
  rw [stemOf, splitOn_of_not_mem h]
  rfl

theorem slash_not_mem_stemOf (key : Target) : '/' ∉ stemOf key := by
  obtain ⟨init, last, hsplit⟩ : ∃ init last, key.splitOn '/' = init ++ [last] :=
    ⟨_, _, (List.dropLast_append_getLast (List.splitOn_ne_nil _ _)).symm⟩
  rw [stemOf, hsplit, List.getLast?_concat, Option.getD_some]
  apply not_mem_of_mem_splitOn (s := key)
  rw [hsplit]
  simp

/-- A path in a directory has the stem that it has there. -/
theorem stemOf_append (dir key : Target) : stemOf (dir ++ '/' :: key) = stemOf key := by
  obtain ⟨init, last, hsplit⟩ : ∃ init last, key.splitOn '/' = init ++ [last] :=
    ⟨_, _, (List.dropLast_append_getLast (List.splitOn_ne_nil _ _)).symm⟩
  rw [stemOf, stemOf, splitOn_append_break, hsplit, ← List.append_assoc, List.getLast?_concat,
    List.getLast?_concat]
  rfl

theorem stripMd_append (dir rel : Target) :
    stripMd (dir ++ '/' :: rel) = dir ++ '/' :: stripMd rel := by
  have hext : ∀ e ∈ mdExtensions, e.length = 3 ∧ '/' ∉ e := by decide
  have hlen : (dir ++ '/' :: rel).length = dir.length + (rel.length + 1) := by simp
  by_cases hrel : 3 ≤ rel.length
  · have hcut : (dir ++ '/' :: rel).length - 3 = dir.length + (rel.length - 3 + 1) := by omega
    rw [stripMd, stripMd, hcut, List.drop_append, List.take_append]
    simp only [Nat.add_sub_cancel_left, List.drop_succ_cons, List.take_succ_cons]
    rw [List.drop_eq_nil_of_le (by omega), List.take_of_length_le (by omega), List.nil_append]
    split
    · rfl
    · rfl
  · -- the last three characters hold the slash
    have hshort : rel.drop (rel.length - 3) ∉ mdExtensions := by
      intro h
      have h3 := (hext _ h).1
      rw [List.length_drop] at h3
      omega
    have hslash : (dir ++ '/' :: rel).drop ((dir ++ '/' :: rel).length - 3) ∉ mdExtensions := by
      intro h
      apply (hext _ h).2
      rw [List.drop_append_of_le_length (by omega)]
      simp
    rw [stripMd, stripMd, if_neg hshort, if_neg hslash]

theorem mem_of_mem_trim {c : Char} {s : Target} (h : c ∈ trim s) : c ∈ s :=
  (List.dropWhile_suffix _).subset ((List.rdropWhile_prefix _ _).subset h)

theorem length_trim_le (s : Target) : (trim s).length ≤ s.length :=
  (List.rdropWhile_prefix _ _).length_le.trans (List.dropWhile_suffix _).length_le

/-- A name that a target keeps: not empty, without `#`, and trimmed. -/
def Bare (stem : Target) : Prop := stem ≠ [] ∧ '#' ∉ stem ∧ trim stem = stem

theorem linkText_stem {stem : Target} (h : '/' ∉ stem) (wikiDir : Target) :
    linkText wikiDir stem = trim (stem.takeWhile (· ≠ '#')) := by
  have hstarts : ¬(wikiDir ++ ['/']).isPrefixOf (trim (stem.takeWhile (· ≠ '#'))) = true := by
    rw [List.isPrefixOf_iff_prefix]
    intro hp
    have hmem : '/' ∈ trim (stem.takeWhile (· ≠ '#')) := hp.subset (by simp)
    exact h ((List.takeWhile_prefix _).subset (mem_of_mem_trim hmem))
  rw [linkText]
  exact if_neg hstarts

theorem linkText_eq_stem {stem : Target} (h : '/' ∉ stem) (wikiDir : Target) :
    linkText wikiDir stem = stem ↔ '#' ∉ stem ∧ trim stem = stem := by
  rw [linkText_stem h]
  constructor
  · intro heq
    have hlen := length_trim_le (stem.takeWhile (· ≠ '#'))
    rw [heq] at hlen
    have hall : stem.takeWhile (· ≠ '#') = stem :=
      (List.takeWhile_prefix _).eq_of_length_le hlen
    rw [hall] at heq
    refine ⟨?_, heq⟩
    intro hmem
    rw [← hall] at hmem
    have hpos := List.mem_takeWhile_imp hmem
    simp at hpos
  · rintro ⟨hhash, htrim⟩
    have hall : stem.takeWhile (· ≠ '#') = stem := by
      apply List.takeWhile_eq_self_iff.2
      intro c hc
      rw [decide_eq_true_eq]
      rintro rfl
      exact hhash hc
    rw [hall, htrim]

/-! ## Section 4: What a resolver finds -/

theorem getLast?_filter_eq_some {α : Type*} {p : α → Bool} {l : List α} {x : α} :
    (l.filter p).getLast? = some x ↔
      ∃ before after, l = before ++ x :: after ∧ p x = true ∧ ∀ y ∈ after, p y = false := by
  constructor
  · intro h
    obtain ⟨init, hinit⟩ := List.getLast?_eq_some_iff.1 h
    obtain ⟨a, b, rfl, -, hb⟩ := List.filter_eq_append_iff.1 hinit
    obtain ⟨c, d, rfl, hc, hx, hd⟩ := List.filter_eq_cons_iff.1 hb
    refine ⟨a ++ c, d, by simp, hx, ?_⟩
    intro y hy
    have hnone := List.filter_eq_nil_iff.1 hd y hy
    simpa using hnone
  · rintro ⟨before, after, rfl, hx, hafter⟩
    have hnil : after.filter p = [] := List.filter_eq_nil_iff.2 fun y hy => by simp [hafter y hy]
    rw [List.filter_append, List.filter_cons_of_pos hx, hnil, List.getLast?_concat]

section Resolver

variable {wikiDir : Target} {rows : Rows} {titles : Titles}

theorem mem_linkedFiles {rel : Target} {link : ResolvedWikiLink} :
    (rel, link) ∈ linkedFiles wikiDir rows titles ↔
      ∃ row ∈ rows, ∃ title, (rel, title) ∈ titles ∧ row.vaultPath = wikiDir ++ '/' :: rel ∧
        link = ⟨notionPageUrl row.pageId.text, title⟩ := by
  rw [linkedFiles, List.mem_filterMap]
  constructor
  · rintro ⟨⟨rel', title⟩, hfile, hlink⟩
    obtain ⟨row, hrow, heq⟩ := Option.map_eq_some_iff.1 hlink
    obtain ⟨hmem, hpath⟩ := Table.find?_eq_some.1 hrow
    cases heq
    exact ⟨row, hmem, title, hfile, hpath, rfl⟩
  · rintro ⟨row, hrow, title, hfile, hpath, rfl⟩
    refine ⟨(rel, title), hfile, ?_⟩
    rw [Table.find?_eq_some.2 ⟨hrow, hpath⟩]
    rfl

theorem nodup_linkedFiles : ((linkedFiles wikiDir rows titles).map Prod.fst).Nodup := by
  have hsub : ((linkedFiles wikiDir rows titles).map Prod.fst).Sublist
      (titles.rows.map Prod.fst) := by
    rw [linkedFiles]
    induction titles.rows with
    | nil => exact List.Sublist.slnil
    | cons file files ih =>
      cases hrow : rows.find? (wikiDir ++ '/' :: file.1) with
      | none =>
        rw [List.filterMap_cons_none (by rw [hrow]; rfl)]
        exact ih.cons _
      | some row =>
        rw [List.filterMap_cons_some (by rw [hrow]; rfl)]
        exact ih.cons_cons _
  exact hsub.nodup titles.nodup

theorem eq_of_linkedFiles {file file' : Target × ResolvedWikiLink}
    (h : file ∈ linkedFiles wikiDir rows titles) (h' : file' ∈ linkedFiles wikiDir rows titles)
    (heq : file.1 = file'.1) : file = file' :=
  List.inj_on_of_nodup_map nodup_linkedFiles h h' heq

/-- The file of the directory that a looked-up text names: the last one at that path, or else the
    only one with that bare name. -/
def Names (wikiDir : Target) (rows : Rows) (titles : Titles) (t rel : Target) : Prop :=
  t ≠ [] ∧
    ((∃ before after link, linkedFiles wikiDir rows titles = before ++ (rel, link) :: after ∧
        stripMd rel = t ∧ ∀ file ∈ after, stripMd file.1 ≠ t) ∨
      '/' ∉ t ∧ (∀ file ∈ linkedFiles wikiDir rows titles, stripMd file.1 ≠ t) ∧
        (∃ link, (rel, link) ∈ linkedFiles wikiDir rows titles) ∧
        ∀ file ∈ linkedFiles wikiDir rows titles, stemOf (stripMd file.1) = t ↔ file.1 = rel)

theorem byStem_eq_singleton {t : Target} {file : Target × ResolvedWikiLink} :
    byStem wikiDir rows titles t = [file] ↔
      file ∈ linkedFiles wikiDir rows titles ∧
        ∀ file' ∈ linkedFiles wikiDir rows titles, stemOf (stripMd file'.1) = t ↔ file' = file := by
  have hnodup : (byStem wikiDir rows titles t).Nodup :=
    (List.Nodup.of_map _ nodup_linkedFiles).filter _
  constructor
  · intro h
    have hmem : ∀ f, f ∈ byStem wikiDir rows titles t ↔ f = file := by
      rw [h]
      exact fun f => List.mem_singleton
    have hfile := List.mem_filter.1 ((hmem file).2 rfl)
    refine ⟨hfile.1, fun f hf => ?_⟩
    rw [← hmem f, byStem, List.mem_filter, decide_eq_true_eq]
    simp [hf]
  · rintro ⟨hfile, hall⟩
    have hmem : ∀ f, f ∈ byStem wikiDir rows titles t ↔ f = file := by
      intro f
      rw [byStem, List.mem_filter, decide_eq_true_eq]
      constructor
      · exact fun hf => (hall f hf.1).1 hf.2
      · rintro rfl
        exact ⟨hfile, (hall f hfile).2 rfl⟩
    have hperm : (byStem wikiDir rows titles t).Perm [file] := by
      rw [List.perm_ext_iff_of_nodup hnodup (List.nodup_singleton file)]
      intro f
      rw [hmem, List.mem_singleton]
    exact List.perm_singleton.1 hperm

theorem head?_of_length_one {α β : Type*} {f : α → β} {l : List α} {y : β} :
    (if l.length = 1 then l.head?.map f else none) = some y ↔ ∃ x, l = [x] ∧ f x = y := by
  cases l with
  | nil => simp
  | cons x l => cases l <;> simp

theorem byPath_eq_some {t rel : Target} {link : ResolvedWikiLink} :
    byPath wikiDir rows titles t = some (rel, link) ↔
      ∃ before after, linkedFiles wikiDir rows titles = before ++ (rel, link) :: after ∧
        stripMd rel = t ∧ ∀ file ∈ after, stripMd file.1 ≠ t := by
  rw [byPath, getLast?_filter_eq_some]
  simp only [decide_eq_true_eq, decide_eq_false_iff_not]

theorem byPath_eq_none {t : Target} :
    byPath wikiDir rows titles t = none ↔
      ∀ file ∈ linkedFiles wikiDir rows titles, stripMd file.1 ≠ t := by
  rw [byPath, List.getLast?_eq_none_iff, List.filter_eq_nil_iff]
  simp only [decide_eq_true_eq]

theorem buildResolver_eq_some {target : Target} {link : ResolvedWikiLink} :
    buildResolver wikiDir rows titles target = some link ↔
      ∃ rel, Names wikiDir rows titles (linkText wikiDir target) rel ∧
        (rel, link) ∈ linkedFiles wikiDir rows titles := by
  unfold buildResolver
  generalize linkText wikiDir target = t
  dsimp only
  constructor
  · intro h
    split at h
    · cases h
    · next hne =>
      cases hpath : byPath wikiDir rows titles t with
      | some exact =>
        obtain ⟨rel, link'⟩ := exact
        rw [hpath] at h
        cases h
        -- Its path is a key of the map; a later row of the same key would have replaced it.
        obtain ⟨before, after, hfiles, hkey, hafter⟩ := byPath_eq_some.1 hpath
        refine ⟨rel, ⟨hne, .inl ⟨before, after, link', hfiles, hkey, hafter⟩⟩, ?_⟩
        rw [hfiles]
        simp
      | none =>
        rw [hpath] at h
        dsimp only at h
        split at h
        · cases h
        · next hslash =>
          -- Only its stem names it, and nothing else has that stem.
          obtain ⟨⟨rel, link'⟩, hstems, rfl⟩ := head?_of_length_one.1 h
          obtain ⟨hmem, hall⟩ := byStem_eq_singleton.1 hstems
          refine ⟨rel, ⟨hne, .inr ⟨hslash, byPath_eq_none.1 hpath, ⟨link', hmem⟩, ?_⟩⟩, hmem⟩
          intro file hfile
          rw [hall file hfile]
          exact ⟨congrArg Prod.fst, eq_of_linkedFiles hfile hmem⟩
  · rintro ⟨rel, ⟨hne, hnames⟩, hlink⟩
    rw [if_neg hne]
    rcases hnames with ⟨before, after, link', hfiles, hkey, hafter⟩ | ⟨hslash, hnone, -, hstem⟩
    · have hlink' : (rel, link') ∈ linkedFiles wikiDir rows titles := by
        rw [hfiles]
        simp
      rw [byPath_eq_some.2 ⟨before, after, hfiles, hkey, hafter⟩]
      exact congrArg (some ∘ Prod.snd) (eq_of_linkedFiles hlink' hlink rfl)
    · rw [byPath_eq_none.2 hnone]
      dsimp only
      rw [if_neg hslash]
      apply head?_of_length_one.2
      refine ⟨(rel, link), byStem_eq_singleton.2 ⟨hlink, fun file hfile => ?_⟩, rfl⟩
      rw [hstem file hfile]
      exact ⟨eq_of_linkedFiles hfile hlink, congrArg Prod.fst⟩

/-- A text names one file. -/
theorem Names.unique {t rel rel' : Target} (h : Names wikiDir rows titles t rel)
    (h' : Names wikiDir rows titles t rel') : rel = rel' := by
  obtain ⟨-, hnames⟩ := h
  obtain ⟨-, hnames'⟩ := h'
  rcases hnames with ⟨before, after, link, hfiles, hkey, hafter⟩ | ⟨-, hnone, ⟨link, hlink⟩, hstem⟩
  · rcases hnames' with ⟨before', after', link', hfiles', hkey', hafter'⟩ | ⟨-, hnone, -⟩
    · have hpath := byPath_eq_some.2 ⟨before, after, hfiles, hkey, hafter⟩
      rw [byPath_eq_some.2 ⟨before', after', hfiles', hkey', hafter'⟩] at hpath
      exact (congrArg Prod.fst (Option.some.inj hpath)).symm
    · exact absurd hkey (hnone (rel, link) (by rw [hfiles]; simp))
  · rcases hnames' with ⟨before', after', link', hfiles', hkey', -⟩ | ⟨-, -, -, hstem'⟩
    · exact absurd hkey' (hnone (rel', link') (by rw [hfiles']; simp))
    · exact (hstem' (rel, link) hlink).1 ((hstem (rel, link) hlink).2 rfl)

theorem Names.linked {t rel : Target} (h : Names wikiDir rows titles t rel) :
    ∃ link, (rel, link) ∈ linkedFiles wikiDir rows titles := by
  obtain ⟨-, ⟨before, after, link, hfiles, -⟩ | ⟨-, -, hlink, -⟩⟩ := h
  · refine ⟨link, ?_⟩
    rw [hfiles]
    simp
  · exact hlink

end Resolver

/-! ## Section 5: Exactness -/

section Exact

variable (toLowerCase : Target → Target) (wikiDir : Target) (rows : Rows) (titles : Titles)

/-- The row is of a file of the directory. -/
def Under (row : DeskRow) : Prop := ∃ rel, row.vaultPath = wikiDir ++ '/' :: rel

/-- The target of each page's url is pushed as that page where the file is in the directory, and
    never as another page. -/
def Inverted : Prop :=
  ∀ row ∈ rows, ∃ target,
    buildPageResolver toLowerCase rows (notionPageUrl row.pageId.text) = some target ∧
    (Under wikiDir row → ∃ link, buildResolver wikiDir rows titles target = some link ∧
      link.url = notionPageUrl row.pageId.text) ∧
    ∀ link, buildResolver wikiDir rows titles target = some link →
      link.url = notionPageUrl row.pageId.text

/-- A bare name is one that a target keeps, unless the file is elsewhere and what is kept of the
    name is no file's; a path, cut as a target, is the file's own and no other's. -/
def Legible (row : DeskRow) : Prop :=
  let key := stripMd row.vaultPath
  let stem := stemOf key
  if stemCount rows stem = 1 then
    Bare stem ∨ ¬Under wikiDir row ∧ ∀ rel, ¬Names wikiDir rows titles (linkText wikiDir stem) rel
  else
    (∀ rel, row.vaultPath = wikiDir ++ '/' :: rel →
        Names wikiDir rows titles (linkText wikiDir key) rel) ∧
      (¬Under wikiDir row → ∀ rel, ¬Names wikiDir rows titles (linkText wikiDir key) rel)

variable {toLowerCase wikiDir rows titles}

/-- The rows are of different pages. -/
theorem eq_of_url (hpages : (rows.rows.map fun row => pageKey toLowerCase row.pageId.text).Nodup)
    {row row' : DeskRow} (h : row ∈ rows) (h' : row' ∈ rows)
    (heq : notionPageUrl row.pageId.text = notionPageUrl row'.pageId.text) : row = row' := by
  apply List.inj_on_of_nodup_map hpages h h'
  have hkey := congrArg (pageKey toLowerCase) heq
  rwa [pageKey_url, pageKey_url] at hkey

theorem buildPageResolver_url
    (hpages : (rows.rows.map fun row => pageKey toLowerCase row.pageId.text).Nodup)
    {row : DeskRow} (h : row ∈ rows) :
    buildPageResolver toLowerCase rows (notionPageUrl row.pageId.text) =
      some (linkTarget rows row.vaultPath) := by
  have hlast : (rows.rows.filter fun row' => decide (pageKey toLowerCase row'.pageId.text =
      pageKey toLowerCase row.pageId.text)).getLast? = some row := by
    obtain ⟨before, after, hrows⟩ := List.append_of_mem h
    apply getLast?_filter_eq_some.2
    refine ⟨before, after, hrows, by simp, ?_⟩
    intro row' hrow'
    rw [decide_eq_false_iff_not]
    intro hkey
    rw [hrows, List.map_append, List.map_cons, List.nodup_append] at hpages
    have hnot := (List.nodup_cons.1 hpages.2.1).1
    rw [← hkey] at hnot
    exact hnot (List.mem_map_of_mem hrow')
  rw [buildPageResolver, pageKey_url, pathByPage, hlast]
  rfl

/-- What one row asks, of the text that is looked up. -/
theorem row_iff (hpages : (rows.rows.map fun row => pageKey toLowerCase row.pageId.text).Nodup)
    {row : DeskRow} (h : row ∈ rows) (target : Target) :
    ((Under wikiDir row → ∃ link, buildResolver wikiDir rows titles target = some link ∧
        link.url = notionPageUrl row.pageId.text) ∧
      ∀ link, buildResolver wikiDir rows titles target = some link →
        link.url = notionPageUrl row.pageId.text) ↔
      (∀ rel, row.vaultPath = wikiDir ++ '/' :: rel →
        Names wikiDir rows titles (linkText wikiDir target) rel) ∧
      (¬Under wikiDir row →
        ∀ rel, ¬Names wikiDir rows titles (linkText wikiDir target) rel) := by
  -- a file that is found is the row's own when its url is
  have hown : ∀ {rel link}, (rel, link) ∈ linkedFiles wikiDir rows titles →
      (link.url = notionPageUrl row.pageId.text ↔ row.vaultPath = wikiDir ++ '/' :: rel) := by
    intro rel link hlink
    obtain ⟨row', hrow', title, -, hpath, rfl⟩ := mem_linkedFiles.1 hlink
    constructor
    · intro hurl
      rw [← eq_of_url hpages hrow' h hurl]
      exact hpath
    · intro hpath'
      rw [Table.eq_of_key_eq hrow' h (hpath.trans hpath'.symm)]
  constructor
  · rintro ⟨hfound, hnever⟩
    constructor
    · intro rel hrel
      obtain ⟨link, hlink, hurl⟩ := hfound ⟨rel, hrel⟩
      obtain ⟨rel', hnames, hmem⟩ := buildResolver_eq_some.1 hlink
      have hpath := (hown hmem).1 hurl
      rw [hrel, List.append_right_inj, List.cons.injEq] at hpath
      rw [hpath.2]
      exact hnames
    · intro hout rel hnames
      obtain ⟨link, hmem⟩ := hnames.linked
      exact hout ⟨rel, (hown hmem).1 (hnever link (buildResolver_eq_some.2 ⟨rel, hnames, hmem⟩))⟩
  · rintro ⟨hunder, hout⟩
    constructor
    · rintro ⟨rel, hrel⟩
      obtain ⟨link, hmem⟩ := (hunder rel hrel).linked
      exact ⟨link, buildResolver_eq_some.2 ⟨rel, hunder rel hrel, hmem⟩, (hown hmem).2 hrel⟩
    · intro link hlink
      obtain ⟨rel, hnames, hmem⟩ := buildResolver_eq_some.1 hlink
      by_cases hu : Under wikiDir row
      · obtain ⟨rel', hrel'⟩ := hu
        rw [(hown hmem), hnames.unique (hunder rel' hrel')]
        exact hrel'
      · exact absurd hnames (hout hu rel)

theorem eq_of_stemCount {stem : Target} (hcount : stemCount rows stem = 1) {row row' : DeskRow}
    (h : row ∈ rows) (h' : row' ∈ rows) (hstem : stemOf (stripMd row.vaultPath) = stem)
    (hstem' : stemOf (stripMd row'.vaultPath) = stem) : row = row' := by
  rw [stemCount, List.countP_eq_length_filter] at hcount
  obtain ⟨only, honly⟩ := List.length_eq_one_iff.1 hcount
  have hmem : ∀ r ∈ rows, stemOf (stripMd r.vaultPath) = stem → r = only := by
    intro r hr hs
    have hfilter : r ∈ rows.rows.filter fun row =>
        decide (stemOf (stripMd row.vaultPath) = stem) :=
      List.mem_filter.2 ⟨hr, decide_eq_true hs⟩
    rw [honly] at hfilter
    exact List.mem_singleton.1 hfilter
  rw [hmem row h hstem, hmem row' h' hstem']

/-- A linked file with the one stem is the row's. -/
theorem vaultPath_of_stem {row : DeskRow} (h : row ∈ rows)
    (hcount : stemCount rows (stemOf (stripMd row.vaultPath)) = 1) {rel : Target}
    {link : ResolvedWikiLink} (hlink : (rel, link) ∈ linkedFiles wikiDir rows titles)
    (hstem : stemOf (stripMd rel) = stemOf (stripMd row.vaultPath)) :
    row.vaultPath = wikiDir ++ '/' :: rel := by
  obtain ⟨row', hrow', title, -, hpath, -⟩ := mem_linkedFiles.1 hlink
  rw [← hpath]
  refine congrArg _ (eq_of_stemCount hcount h hrow' rfl ?_)
  rw [hpath, stripMd_append, stemOf_append, hstem]

/-- A text without a slash is the bare name of the file that it names. -/
theorem Names.stem {t rel : Target} (h : Names wikiDir rows titles t rel) (hslash : '/' ∉ t) :
    stemOf (stripMd rel) = t := by
  obtain ⟨-, ⟨before, after, link, -, hkey, -⟩ | ⟨-, -, ⟨link, hlink⟩, hstem⟩⟩ := h
  · rw [hkey, stemOf_of_not_mem hslash]
  · exact (hstem (rel, link) hlink).2 rfl

theorem names_stem {row : DeskRow} (h : row ∈ rows)
    (hcount : stemCount rows (stemOf (stripMd row.vaultPath)) = 1)
    (hne : stemOf (stripMd row.vaultPath) ≠ []) {rel : Target} {link : ResolvedWikiLink}
    (hlink : (rel, link) ∈ linkedFiles wikiDir rows titles)
    (hrel : row.vaultPath = wikiDir ++ '/' :: rel) :
    Names wikiDir rows titles (stemOf (stripMd row.vaultPath)) rel := by
  have hstem : stemOf (stripMd rel) = stemOf (stripMd row.vaultPath) := by
    rw [hrel, stripMd_append, stemOf_append]
  have hslash := slash_not_mem_stemOf (stripMd row.vaultPath)
  refine ⟨hne, ?_⟩
  cases hpath : byPath wikiDir rows titles (stemOf (stripMd row.vaultPath)) with
  | some exact =>
    obtain ⟨rel', link'⟩ := exact
    obtain ⟨before, after, hfiles, hkey, hafter⟩ := byPath_eq_some.1 hpath
    have hlink' : (rel', link') ∈ linkedFiles wikiDir rows titles := by
      rw [hfiles]
      simp
    have hpath' := vaultPath_of_stem h hcount hlink' (by rw [hkey, stemOf_of_not_mem hslash])
    rw [hrel, List.append_right_inj, List.cons.injEq] at hpath'
    rw [hpath'.2]
    exact .inl ⟨before, after, link', hfiles, hkey, hafter⟩
  | none =>
    refine .inr ⟨hslash, byPath_eq_none.1 hpath, ⟨link, hlink⟩, fun file hfile => ?_⟩
    constructor
    · intro hfstem
      have hpath' := vaultPath_of_stem h hcount hfile hfstem
      rw [hrel, List.append_right_inj, List.cons.injEq] at hpath'
      exact hpath'.2.symm
    · intro heq
      rw [heq, hstem]

/-- A bare name that no other file has. -/
theorem stem_iff {row : DeskRow} (h : row ∈ rows)
    (hcount : stemCount rows (stemOf (stripMd row.vaultPath)) = 1)
    (htitles : ∀ rel, row.vaultPath = wikiDir ++ '/' :: rel →
      ∃ link, (rel, link) ∈ linkedFiles wikiDir rows titles) :
    ((∀ rel, row.vaultPath = wikiDir ++ '/' :: rel →
        Names wikiDir rows titles (linkText wikiDir (stemOf (stripMd row.vaultPath))) rel) ∧
      (¬Under wikiDir row → ∀ rel,
        ¬Names wikiDir rows titles (linkText wikiDir (stemOf (stripMd row.vaultPath))) rel)) ↔
      Bare (stemOf (stripMd row.vaultPath)) ∨ ¬Under wikiDir row ∧
        ∀ rel, ¬Names wikiDir rows titles (linkText wikiDir (stemOf (stripMd row.vaultPath))) rel := by
  have hslash := slash_not_mem_stemOf (stripMd row.vaultPath)
  constructor
  · rintro ⟨hunder, hout⟩
    by_cases hu : Under wikiDir row
    · -- what is found is the row's own file, so its bare name is the text
      obtain ⟨rel, hrel⟩ := hu
      have hnames := hunder rel hrel
      have hstem : stemOf (stripMd rel) = stemOf (stripMd row.vaultPath) := by
        rw [hrel, stripMd_append, stemOf_append]
      have htext : '/' ∉ linkText wikiDir (stemOf (stripMd row.vaultPath)) := by
        rw [linkText_stem hslash]
        exact fun hmem => hslash ((List.takeWhile_prefix _).subset (mem_of_mem_trim hmem))
      have heq := hnames.stem htext
      rw [hstem] at heq
      refine .inl ⟨?_, (linkText_eq_stem hslash wikiDir).1 heq.symm⟩
      rw [heq]
      exact hnames.1
    · exact .inr ⟨hu, hout hu⟩
  · rintro (⟨hne, hbare⟩ | ⟨hu, hnone⟩)
    · rw [(linkText_eq_stem hslash wikiDir).2 hbare]
      constructor
      · intro rel hrel
        obtain ⟨link, hlink⟩ := htitles rel hrel
        exact names_stem h hcount hne hlink hrel
      · intro hu rel hnames
        obtain ⟨link, hlink⟩ := hnames.linked
        exact hu ⟨rel, vaultPath_of_stem h hcount hlink (hnames.stem hslash)⟩
    · exact ⟨fun rel hrel => absurd ⟨rel, hrel⟩ hu, fun _ => hnone⟩

/-- The resolver of a directory inverts the one that names pages, on exactly the snapshots whose
    files all have legible names. -/
theorem resolvers_inverted_iff
    (hpages : (rows.rows.map fun row => pageKey toLowerCase row.pageId.text).Nodup)
    (htitles : ∀ row ∈ rows, ∀ rel, row.vaultPath = wikiDir ++ '/' :: rel →
      rel ∈ titles.rows.map Prod.fst) :
    Inverted toLowerCase wikiDir rows titles ↔ ∀ row ∈ rows, Legible wikiDir rows titles row := by
  refine forall₂_congr fun row hrow => ?_
  have hlinked : ∀ rel, row.vaultPath = wikiDir ++ '/' :: rel →
      ∃ link, (rel, link) ∈ linkedFiles wikiDir rows titles := by
    intro rel hrel
    obtain ⟨⟨rel', title⟩, htitle, rfl⟩ := List.mem_map.1 (htitles row hrow rel hrel)
    exact ⟨_, mem_linkedFiles.2 ⟨row, hrow, title, htitle, hrel, rfl⟩⟩
  rw [buildPageResolver_url hpages hrow]
  simp only [Option.some.injEq, exists_eq_left']
  rw [row_iff hpages hrow (linkTarget rows row.vaultPath), Legible]
  by_cases hcount : stemCount rows (stemOf (stripMd row.vaultPath)) = 1
  · rw [if_pos hcount, linkTarget, if_pos hcount]
    exact stem_iff hrow hcount hlinked
  · rw [if_neg hcount, linkTarget, if_neg hcount]

end Exact

/-- The id of thirty-two times a digit. -/
def repeated (digit : Char) (h : pageIdAt (List.replicate 32 digit) =
    some (List.replicate 32 digit, [])) : PageId := ⟨List.replicate 32 digit, h⟩

/-- `a/C#.md`, `a/o/j.md` and `o/j.md` -/
def sharpAndJanes : Rows where
  rows := [⟨['a', '/', 'C', '#', '.', 'm', 'd'], repeated '1' (by decide +kernel)⟩,
    ⟨['a', '/', 'o', '/', 'j', '.', 'm', 'd'], repeated '2' (by decide +kernel)⟩,
    ⟨['o', '/', 'j', '.', 'm', 'd'], repeated '3' (by decide +kernel)⟩]
  nodup := by decide +kernel

def sharpAndJanesTitles : Titles where
  rows := [(['C', '#', '.', 'm', 'd'], ['C', '#']), (['o', '/', 'j', '.', 'm', 'd'], ['j'])]
  nodup := by decide +kernel

theorem resolvers_inverted_iff_sharpAndJanes :
    Inverted id ['a'] sharpAndJanes sharpAndJanesTitles ↔
      ∀ row ∈ sharpAndJanes, Legible ['a'] sharpAndJanes sharpAndJanesTitles row := by
  apply resolvers_inverted_iff
  · decide +kernel
  · intro row hrow rel hrel
    simp only [sharpAndJanes, Table.mem_def, List.mem_cons, List.not_mem_nil, or_false] at hrow
    rcases hrow with rfl | rfl | rfl
    · obtain ⟨-, rfl⟩ := List.cons.inj (List.cons.inj hrel).2
      decide +kernel
    · obtain ⟨-, rfl⟩ := List.cons.inj (List.cons.inj hrel).2
      decide +kernel
    · exact absurd (List.cons.inj hrel).1 (by decide)

/-- The first target is cut at its `#` and finds nothing; the third file's finds the second. -/
theorem resolvers_not_inverted :
    ¬Inverted id ['a'] sharpAndJanes sharpAndJanesTitles ∧
      (∃ target, buildPageResolver id sharpAndJanes
          (notionPageUrl (List.replicate 32 '1')) = some target ∧
        (buildResolver ['a'] sharpAndJanes sharpAndJanesTitles target).isNone) ∧
      ∃ target, buildPageResolver id sharpAndJanes
          (notionPageUrl (List.replicate 32 '3')) = some target ∧
        (buildResolver ['a'] sharpAndJanes sharpAndJanesTitles target).map ResolvedWikiLink.url =
          some (notionPageUrl (List.replicate 32 '2')) := by
  refine ⟨?_, ⟨['C', '#'], by decide +kernel, by decide +kernel⟩,
    ⟨['o', '/', 'j'], by decide +kernel, by decide +kernel⟩⟩
  intro h
  obtain ⟨target, htarget, hfound, -⟩ := h _ List.mem_cons_self
  have hcut : buildPageResolver id sharpAndJanes (notionPageUrl (List.replicate 32 '1')) =
      some ['C', '#'] := by decide +kernel
  have hnone : (buildResolver ['a'] sharpAndJanes sharpAndJanesTitles ['C', '#']).isNone := by
    decide +kernel
  have heq : target = ['C', '#'] := Option.some.inj (htarget.symm.trans hcut)
  obtain ⟨link, hlink, -⟩ := hfound ⟨['C', '#', '.', 'm', 'd'], rfl⟩
  rw [heq] at hlink
  rw [hlink] at hnone
  cases hnone

end Lares.Notion
