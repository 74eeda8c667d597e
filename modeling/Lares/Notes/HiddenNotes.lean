import Lares.Framework.StableSort
import Lares.Notes.NotesStore

/-! # What a reader learns of hidden notes

    A note that a reader may not see is not named, not read and not listed as a citer.
    But a search has counted it: it can be the only note with all tokens, it can give a
    token its document frequency, and it can take one of the twenty places. The search
    agrees with the search of the visible notes alone exactly when none of this shows.

    * **Selection** over scored notes, with and without the hidden ones.
    * **Two stores** that differ in hidden texts only.
-/

namespace Lares.Notes

open StableSort

/-! ## Section 1: What the law asks -/

def Store.seen (store : Store) (reader : Reader) (path : Text) : Bool :=
  visibleTo ((store.cachedContent path).getD []) reader

/-- The store with the visible notes alone. -/
def Store.visibleOnly (store : Store) (reader : Reader) : Store :=
  { store with
    notes := store.notes.filter (store.seen reader)
    distinct := store.distinct.filter _ }

/-- The same paths; a text that differs is invisible in both stores. -/
structure Agree (reader : Reader) (s t : Store) : Prop where
  notes : s.notes = t.notes
  within : s.within = t.within
  read : ∀ path, s.read path = t.read path ∨
    ∃ raw raw', s.read path = .text raw ∧ t.read path = .text raw' ∧
      visibleTo raw reader = false ∧ visibleTo raw' reader = false

variable (u : Unicode)

/-- Every hit is visible, and the hits are those of a search of the visible notes alone. -/
def Alone (query : Text) (reader : Reader) (options : NoteReadOptions) (s : Store) : Prop :=
  ∀ result, searchNotes u query s (some reader) options = .ok result →
    (∀ path ∈ result.hits, path ∈ s.notes ∧ s.seen reader path = true) ∧
    ∃ alone, searchNotes u query (s.visibleOnly reader) (some reader) ⟨true⟩ = .ok alone ∧
      result.hits = alone.hits

/-- Hidden notes leave no trace. -/
structure NoTrace (query : Text) (reader : Reader) (options : NoteReadOptions) (s t : Store) :
    Prop where
  /-- A search finds the same. -/
  hits : searchNotes u query s (some reader) options = searchNotes u query t (some reader) options
  /-- The same notes link to a path. -/
  backlinks : ∀ path, findBacklinks u path s (some reader) options =
    findBacklinks u path t (some reader) options
  /-- A note reads the same. -/
  reads : ∀ path, readNote path s (some reader) = readNote path t (some reader)
  /-- A hidden note reads as one that is not there. -/
  absent : ∀ path raw, s.read path = .text raw → visibleTo raw reader = false →
    readNote path s (some reader) =
      readNote path { s with read := fun p => if p = path then .missing else s.read p }
        (some reader)
  /-- The hits are those of the visible notes alone. -/
  alone : Alone u query reader options s ∧ Alone u query reader options t

/-- More notes first; of as many tokens, in the order of the store. -/
abbrev ByTokens (a b : Scored) : Prop := b.n ≤ a.n

/-- How many of the notes `m` that have a token of the lowest document frequency among `m` come
    before a note, in the order of the store `l`. -/
def rank (tokens : List Text) (l m : List Scored) (x : Scored) : Nat :=
  (m.filter (anchored tokens m)).countP fun y => Before ByTokens (Earlier l) y x

/-- The hidden notes of a store do not show in a search: either a visible note has all tokens; or
    some token is in no visible note, and then a hidden note has all tokens, or a token is in no
    note at all, or every visible note with a token of the lowest document frequency has twenty
    such notes before it; or every token is in a visible note, no hidden note has them all, and
    the visible notes with fewer than twenty before them are the same in both counts. -/
def Unmarked (tokens : List Text) (l : List Scored) (visible : Scored → Bool) : Prop :=
  (∃ x ∈ l.filter visible, x.n = tokens.length) ∨
  ((∃ t ∈ tokens, docFreq (l.filter visible) t = 0) ∧
    ((∃ x ∈ l, x.n = tokens.length) ∨ (∃ t ∈ tokens, docFreq l t = 0) ∨
      ∀ x ∈ l.filter visible, anchored tokens l x = true → 20 ≤ rank tokens l l x)) ∨
  ((∀ t ∈ tokens, docFreq (l.filter visible) t ≠ 0) ∧ (∀ x ∈ l, x.n ≠ tokens.length) ∧
    ∀ x ∈ l.filter visible,
      (anchored tokens l x = true ∧ rank tokens l l x < 20) ↔
        (anchored tokens (l.filter visible) x = true ∧ rank tokens l (l.filter visible) x < 20))

/-! ## Section 2: Selection -/

instance : Std.Total ByTokens := ⟨fun a b => Nat.le_total b.n a.n⟩

instance : IsTrans Scored ByTokens := ⟨fun _ _ _ hab hbc => Nat.le_trans hbc hab⟩

section Selection

variable {tokens : List Text} {l : List Scored} {visible : Scored → Bool}

theorem minDf_attained (h : tokens ≠ []) (l : List Scored) :
    ∃ t ∈ tokens, docFreq l t = minDf tokens l ∧ ∀ t' ∈ tokens, minDf tokens l ≤ docFreq l t' := by
  have hne : tokens.map (docFreq l) ≠ [] := by simpa using h
  obtain ⟨least, hleast⟩ := Option.isSome_iff_exists.1 (List.isSome_min?_of_ne_nil hne)
  obtain ⟨hmem, hle⟩ := List.min?_eq_some_iff.1 hleast
  obtain ⟨t, ht, hdf⟩ := List.mem_map.1 hmem
  have hmin : minDf tokens l = least := by rw [minDf, hleast, Option.getD_some]
  refine ⟨t, ht, hdf.trans hmin.symm, fun t' ht' => ?_⟩
  rw [hmin]
  exact hle _ (List.mem_map_of_mem ht')

theorem minDf_eq_zero (h : tokens ≠ []) (l : List Scored) :
    minDf tokens l = 0 ↔ ∃ t ∈ tokens, docFreq l t = 0 := by
  obtain ⟨t, ht, hdf, hle⟩ := minDf_attained h l
  constructor
  · intro hzero
    exact ⟨t, ht, hdf.trans hzero⟩
  · rintro ⟨t', ht', hzero⟩
    have := hle t' ht'
    omega

theorem docFreq_pos {t : Text} (h : docFreq l t ≠ 0) : ∃ x ∈ l, t ∈ x.present := by
  by_contra hnone
  push Not at hnone
  apply h
  rw [docFreq, List.sum_eq_zero_iff]
  intro n hn
  obtain ⟨x, hx, rfl⟩ := List.mem_map.1 hn
  exact List.count_eq_zero.2 (hnone x hx)

theorem docFreq_filter_le (t : Text) : docFreq (l.filter visible) t ≤ docFreq l t :=
  (List.filter_sublist.map _).sum_le_sum fun _ _ => Nat.zero_le _

/-- When every token occurs, some note has one of the lowest document frequency. -/
theorem exists_anchored (h : tokens ≠ []) (hdf : minDf tokens l ≠ 0) :
    ∃ x ∈ l, anchored tokens l x = true := by
  obtain ⟨t, ht, hmin, -⟩ := minDf_attained h l
  obtain ⟨x, hx, hpresent⟩ := docFreq_pos (by rw [hmin]; exact hdf)
  refine ⟨x, hx, List.any_eq_true.2 ⟨t, hpresent, List.any_eq_true.2 ⟨t, ht, ?_⟩⟩⟩
  simpa using hmin

variable (tokens) in
/-- The fallback over a part of the store, in terms of ranks. -/
theorem mem_fallback (h : l.Nodup) {m : List Scored} (hm : m.Sublist l) (x : Scored) :
    x ∈ ((m.filter (anchored tokens m)).insertionSort ByTokens).take 20 ↔
      (x ∈ m ∧ anchored tokens m x = true) ∧ rank tokens l m x < 20 := by
  have hpairwise : (m.filter (anchored tokens m)).Pairwise (Earlier l) :=
    ((pairwise_earlier h).sublist hm).filter _
  rw [mem_take_sort hpairwise, List.mem_filter]
  rfl

variable (tokens) in
theorem pairwise_fallback (h : l.Nodup) {m : List Scored} (hm : m.Sublist l) :
    (((m.filter (anchored tokens m)).insertionSort ByTokens).take 20).Pairwise
      (Before ByTokens (Earlier l)) :=
  (pairwise_insertionSort (((pairwise_earlier h).sublist hm).filter _)).sublist
    (List.take_sublist _ _)

theorem fallback_ne_nil (h : tokens ≠ []) (hdf : minDf tokens l ≠ 0) :
    ((l.filter (anchored tokens l)).insertionSort ByTokens).take 20 ≠ [] := by
  obtain ⟨x, hx, hanchored⟩ := exists_anchored h hdf
  have hne : (l.filter (anchored tokens l)).insertionSort ByTokens ≠ [] :=
    List.ne_nil_of_mem ((List.mem_insertionSort _).2 (List.mem_filter.2 ⟨hx, hanchored⟩))
  intro hnil
  obtain hzero | hempty := List.take_eq_nil_iff.1 hnil
  · cases hzero
  · exact hne hempty

theorem selectHits_all {x : Scored} (hx : x ∈ l) (hfull : x.n = tokens.length) :
    selectHits tokens l = l.filter fun s => s.n = tokens.length := by
  have hne : (l.filter fun s => decide (s.n = tokens.length)) ≠ [] :=
    List.ne_nil_of_mem (List.mem_filter.2 ⟨hx, by simpa using hfull⟩)
  simp only [selectHits, if_pos hne]

theorem selectHits_rest (hnone : ∀ x ∈ l, x.n ≠ tokens.length) :
    selectHits tokens l = if minDf tokens l = 0 then []
      else ((l.filter (anchored tokens l)).insertionSort ByTokens).take 20 := by
  have hnil : (l.filter fun s => decide (s.n = tokens.length)) = [] := by
    simpa [List.filter_eq_nil_iff] using hnone
  simp [selectHits, hnil]

theorem selectHits_sub (tokens : List Text) (l : List Scored) :
    ∀ x ∈ selectHits tokens l, x ∈ l := by
  intro x hx
  unfold selectHits at hx
  dsimp only at hx
  split at hx
  · exact List.mem_of_mem_filter hx
  · split at hx
    · cases hx
    · exact List.mem_of_mem_filter ((List.mem_insertionSort _).1 (List.mem_of_mem_take hx))

/-- With a hidden note that has all tokens, and no visible one, nothing is left. -/
theorem selectHits_hidden {x : Scored} (hx : x ∈ l) (hfull : x.n = tokens.length)
    (hvisible : ∀ y ∈ l.filter visible, y.n ≠ tokens.length) :
    (selectHits tokens l).filter visible = [] := by
  rw [selectHits_all hx hfull, List.filter_filter, List.filter_eq_nil_iff]
  intro y hy hboth
  simp only [Bool.and_eq_true, decide_eq_true_eq] at hboth
  exact hvisible y (List.mem_filter.2 ⟨hy, hboth.1⟩) hboth.2

/-- What is left of the selection is the selection of what is left, exactly when the hidden notes
    do not show. -/
theorem selectHits_filter_iff (htokens : tokens ≠ []) (hnodup : l.Nodup) :
    (selectHits tokens l).filter visible = selectHits tokens (l.filter visible) ↔
      Unmarked tokens l visible := by
  have hsub : (l.filter visible).Sublist l := List.filter_sublist
  by_cases hfull : ∃ x ∈ l.filter visible, x.n = tokens.length
  · -- a visible note has all tokens
    obtain ⟨x, hx, hn⟩ := hfull
    rw [selectHits_all (List.mem_of_mem_filter hx) hn, selectHits_all hx hn]
    refine iff_of_true ?_ (.inl ⟨x, hx, hn⟩)
    rw [List.filter_filter, List.filter_filter]
    exact List.filter_congr fun y _ => Bool.and_comm _ _
  have hvisible : ∀ y ∈ l.filter visible, y.n ≠ tokens.length := fun y hy hn =>
    hfull ⟨y, hy, hn⟩
  rw [selectHits_rest hvisible]
  by_cases hzero : ∃ t ∈ tokens, docFreq (l.filter visible) t = 0
  · -- some token is in no visible note
    rw [if_pos ((minDf_eq_zero htokens _).2 hzero)]
    have hthird : ¬ ∀ t ∈ tokens, docFreq (l.filter visible) t ≠ 0 := fun hall => by
      obtain ⟨t, ht, hdf⟩ := hzero
      exact hall t ht hdf
    simp only [Unmarked, hfull, hzero, hthird, true_and, false_or, false_and, or_false]
    by_cases hall : ∃ x ∈ l, x.n = tokens.length
    · obtain ⟨x, hx, hn⟩ := hall
      exact iff_of_true (selectHits_hidden hx hn hvisible) (.inl ⟨x, hx, hn⟩)
    have hnone : ∀ x ∈ l, x.n ≠ tokens.length := fun x hx hn => hall ⟨x, hx, hn⟩
    rw [selectHits_rest hnone]
    by_cases hstore : ∃ t ∈ tokens, docFreq l t = 0
    · rw [if_pos ((minDf_eq_zero htokens l).2 hstore)]
      exact iff_of_true rfl (.inr (.inl hstore))
    · rw [if_neg fun h => hstore ((minDf_eq_zero htokens l).1 h)]
      simp only [hall, hstore, false_or, List.filter_eq_nil_iff]
      constructor
      · intro hempty x hx hanchored
        obtain ⟨hmem, hv⟩ := List.mem_filter.1 hx
        by_contra hlt
        have hplaced := (mem_fallback tokens hnodup (List.Sublist.refl l) x).2
          ⟨⟨hmem, hanchored⟩, by omega⟩
        exact hempty x hplaced hv
      · intro hrank x hx hv
        obtain ⟨⟨hmem, hanchored⟩, hlt⟩ := (mem_fallback tokens hnodup (List.Sublist.refl l) x).1 hx
        have := hrank x (List.mem_filter.2 ⟨hmem, hv⟩) hanchored
        omega
  · -- every token is in a visible note
    have hdf : minDf tokens (l.filter visible) ≠ 0 := fun h =>
      hzero ((minDf_eq_zero htokens _).1 h)
    have hevery : ∀ t ∈ tokens, docFreq (l.filter visible) t ≠ 0 := fun t ht h =>
      hzero ⟨t, ht, h⟩
    rw [if_neg hdf]
    simp only [Unmarked, hfull, hzero, false_and, false_or]
    by_cases hall : ∃ x ∈ l, x.n = tokens.length
    · obtain ⟨x, hx, hn⟩ := hall
      rw [selectHits_hidden hx hn hvisible]
      exact iff_of_false (fun h => fallback_ne_nil htokens hdf h.symm) fun h => h.2.1 x hx hn
    have hnone : ∀ x ∈ l, x.n ≠ tokens.length := fun x hx hn => hall ⟨x, hx, hn⟩
    have hstore : minDf tokens l ≠ 0 := by
      intro h
      obtain ⟨t, ht, hzero'⟩ := (minDf_eq_zero htokens l).1 h
      have hle : docFreq (l.filter visible) t ≤ docFreq l t := docFreq_filter_le t
      exact hevery t ht (by omega)
    rw [selectHits_rest hnone, if_neg hstore]
    have hleft := (pairwise_fallback tokens hnodup (List.Sublist.refl l)).filter visible
    have hright := pairwise_fallback tokens hnodup hsub
    have hmemLeft (x : Scored) := mem_fallback tokens hnodup (List.Sublist.refl l) x
    have hmemRight (x : Scored) := mem_fallback tokens hnodup hsub x
    constructor
    · intro heq
      refine ⟨hevery, hnone, fun x hx => ?_⟩
      obtain ⟨hmem, hv⟩ := List.mem_filter.1 hx
      have hiff := congrArg (x ∈ ·) heq
      simp only [List.mem_filter, hmemLeft, hmemRight, hmem, hv, and_true, true_and] at hiff
      exact iff_of_eq hiff
    · rintro ⟨-, -, hranks⟩
      refine eq_of_mem_iff hleft hright fun x => ?_
      rw [List.mem_filter, hmemLeft, hmemRight]
      constructor
      · rintro ⟨⟨⟨hmem, hanchored⟩, hlt⟩, hv⟩
        have hx : x ∈ l.filter visible := List.mem_filter.2 ⟨hmem, hv⟩
        obtain ⟨hanchored', hlt'⟩ := (hranks x hx).1 ⟨hanchored, hlt⟩
        exact ⟨⟨hx, hanchored'⟩, hlt'⟩
      · rintro ⟨⟨hx, hanchored⟩, hlt⟩
        obtain ⟨hmem, hv⟩ := List.mem_filter.1 hx
        obtain ⟨hanchored', hlt'⟩ := (hranks x hx).2 ⟨hanchored, hlt⟩
        exact ⟨⟨⟨hmem, hanchored'⟩, hlt'⟩, hv⟩

/-- Hidden notes without any of the tokens do not show. -/
theorem unmarked_of_blank (htokens : tokens ≠ []) (hlength : ∀ x ∈ l, x.n = x.present.length)
    (hblank : ∀ x ∈ l, visible x = false → x.present = []) : Unmarked tokens l visible := by
  have hdf : docFreq (l.filter visible) = docFreq l := by
    funext t
    unfold docFreq
    clear hlength
    induction l with
    | nil => rfl
    | cons x l ih =>
      have hrest := ih fun y hy => hblank y (.tail x hy)
      cases hv : visible x with
      | true => simp [hv, hrest]
      | false => simp [hv, hrest, hblank x List.mem_cons_self hv]
  have hmin : minDf tokens (l.filter visible) = minDf tokens l := by simp only [minDf, hdf]
  have hanchored (x : Scored) : anchored tokens (l.filter visible) x = anchored tokens l x := by
    simp only [anchored, hdf, hmin]
  -- a note with a token is visible
  have hshown : ∀ x ∈ l, x.present ≠ [] → x ∈ l.filter visible := by
    intro x hx hne
    refine List.mem_filter.2 ⟨hx, ?_⟩
    by_contra hnot
    exact hne (hblank x hx (by simpa using hnot))
  by_cases hfull : ∃ x ∈ l, x.n = tokens.length
  · obtain ⟨x, hx, hn⟩ := hfull
    refine .inl ⟨x, hshown x hx fun hnil => htokens ?_, hn⟩
    rw [hlength x hx, hnil] at hn
    exact List.eq_nil_of_length_eq_zero hn.symm
  have hnone : ∀ x ∈ l, x.n ≠ tokens.length := fun x hx hn => hfull ⟨x, hx, hn⟩
  by_cases hzero : ∃ t ∈ tokens, docFreq l t = 0
  · exact .inr (.inl ⟨by rw [hdf]; exact hzero, .inr (.inl hzero)⟩)
  · refine .inr (.inr ⟨fun t ht h => hzero ⟨t, ht, by rwa [hdf] at h⟩, hnone, fun x _ => ?_⟩)
    have hsame : (l.filter visible).filter (anchored tokens (l.filter visible)) =
        l.filter (anchored tokens l) := by
      rw [List.filter_filter]
      refine List.filter_congr fun y hy => ?_
      rw [hanchored]
      cases hy' : anchored tokens l y with
      | false => rfl
      | true =>
        have hne : y.present ≠ [] := by
          rintro hnil
          simp [anchored, hnil] at hy'
        simpa using (List.mem_filter.1 (hshown y hy hne)).2
    rw [hanchored, rank, rank, hsame]

end Selection

/-! ## Section 3: A search of a store -/

section Stores

variable {query : Text} {reader : Reader} {options : NoteReadOptions} {s t : Store}

/-- The notes of the store, as a search of the query scores them. -/
def scoredOf (tokens : List Text) (s : Store) : List Scored := s.notes.map (score u s tokens)

def Scored.shown (reader : Reader) (x : Scored) : Bool := visibleTo x.raw reader

/-- The hidden notes of the store do not show in a search of the query. -/
def Unseen (query : Text) (reader : Reader) (s : Store) : Prop :=
  tokensOf u query = [] ∨
    Unmarked (tokensOf u query) (scoredOf u (tokensOf u query) s) (Scored.shown reader)

/-- The hits of a search with tokens. -/
def hitsOf (tokens : List Text) (reader : Reader) (s : Store) : List Text :=
  ((selectHits tokens (scoredOf u tokens s)).filter (Scored.shown reader)).map Scored.relPath

variable {u} {tokens : List Text}

theorem mem_scoredOf {x : Scored} :
    x ∈ scoredOf u tokens s ↔ x.relPath ∈ s.notes ∧ x = score u s tokens x.relPath := by
  constructor
  · intro h
    obtain ⟨path, hpath, rfl⟩ := List.mem_map.1 h
    exact ⟨hpath, rfl⟩
  · rintro ⟨hpath, hx⟩
    rw [hx]
    exact List.mem_map_of_mem hpath

theorem nodup_scoredOf : (scoredOf u tokens s).Nodup :=
  s.distinct.map_on fun _ _ _ _ heq => congrArg Scored.relPath heq

theorem rawByPath_scoredOf {path : Text} (h : path ∈ s.notes) :
    rawByPath (scoredOf u tokens s) path = (s.cachedContent path).getD [] := by
  have hsome : (List.lookup path
      ((scoredOf u tokens s).map fun x => (x.relPath, x.raw)).reverse).isSome := by
    rw [List.lookup_isSome_iff]
    refine ⟨(path, (s.cachedContent path).getD []), ?_, by simp⟩
    rw [List.mem_reverse, scoredOf, List.map_map]
    exact List.mem_map_of_mem h
  obtain ⟨raw, hraw⟩ := Option.isSome_iff_exists.1 hsome
  obtain ⟨before, after, hlist, -⟩ := List.lookup_eq_some_iff.1 hraw
  have hmem : (path, raw) ∈ (scoredOf u tokens s).map fun x => (x.relPath, x.raw) := by
    rw [← List.mem_reverse, hlist]
    exact List.mem_append_right before List.mem_cons_self
  obtain ⟨x, hx, heq⟩ := List.mem_map.1 hmem
  obtain ⟨path', -, rfl⟩ := List.mem_map.1 hx
  obtain ⟨rfl, rfl⟩ := Prod.mk.injEq _ _ _ _ ▸ heq
  rw [rawByPath, hraw]
  rfl

/-- The reader's filter over paths is a filter over scored notes. -/
theorem filter_paths {xs : List Scored} (hxs : ∀ x ∈ xs, x ∈ scoredOf u tokens s) :
    (xs.map Scored.relPath).filter
        (fun path => visibleTo (rawByPath (scoredOf u tokens s) path) reader) =
      (xs.filter (Scored.shown reader)).map Scored.relPath := by
  rw [List.filter_map]
  congr 1
  refine List.filter_congr fun x hx => ?_
  obtain ⟨hpath, heq⟩ := mem_scoredOf.1 (hxs x hx)
  rw [Function.comp_apply, rawByPath_scoredOf hpath, Scored.shown]
  conv_rhs => rw [heq]
  rfl

theorem searchNotes_eq (hhealthy : listNotes s options = .ok s.notes) :
    searchNotes u query s (some reader) options =
      .ok ⟨if tokensOf u query = [] then [] else hitsOf u (tokensOf u query) reader s,
        s.notes.length⟩ := by
  simp only [searchNotes, hhealthy, bind, Except.bind, pure, Except.pure]
  by_cases htokens : tokensOf u query = []
  · simp [htokens]
  · simp only [if_neg htokens]
    congr 2
    exact filter_paths (selectHits_sub _ _)

theorem listNotes_ok (h : s.notes ≠ [] ∨ options.allowEmpty = true) :
    listNotes s options = .ok s.notes := by
  refine if_neg fun hsick => ?_
  obtain hne | hallow := h
  · exact hne hsick.1
  · rw [hsick.2] at hallow
    cases hallow

theorem scoredOf_visibleOnly : scoredOf u tokens (s.visibleOnly reader) =
    (scoredOf u tokens s).filter (Scored.shown reader) := by
  rw [scoredOf, scoredOf, List.filter_map]
  rfl

theorem hitsOf_visibleOnly : hitsOf u tokens reader (s.visibleOnly reader) =
    (selectHits tokens ((scoredOf u tokens s).filter (Scored.shown reader))).map
      Scored.relPath := by
  rw [hitsOf, scoredOf_visibleOnly]
  congr 1
  refine List.filter_eq_self.2 fun x hx => ?_
  exact (List.mem_filter.1 (selectHits_sub _ _ x hx)).2

/-- Scored notes of one store are told apart by their paths. -/
theorem map_relPath_inj {xs ys : List Scored} (hxs : ∀ x ∈ xs, x ∈ scoredOf u tokens s)
    (hys : ∀ y ∈ ys, y ∈ scoredOf u tokens s) :
    xs.map Scored.relPath = ys.map Scored.relPath ↔ xs = ys := by
  have hback {zs : List Scored} (hzs : ∀ z ∈ zs, z ∈ scoredOf u tokens s) :
      (zs.map Scored.relPath).map (score u s tokens) = zs := by
    rw [List.map_map]
    conv_rhs => rw [← List.map_id zs]
    exact List.map_congr_left fun z hz => (mem_scoredOf.1 (hzs z hz)).2.symm
  constructor
  · intro h
    rw [← hback hxs, ← hback hys, h]
  · exact congrArg _

theorem hitsOf_alone_iff (htokens : tokens ≠ []) :
    hitsOf u tokens reader s = hitsOf u tokens reader (s.visibleOnly reader) ↔
      Unmarked tokens (scoredOf u tokens s) (Scored.shown reader) := by
  rw [hitsOf_visibleOnly, ← selectHits_filter_iff htokens nodup_scoredOf]
  refine map_relPath_inj (fun x hx => selectHits_sub _ _ x (List.mem_of_mem_filter hx))
    fun x hx => List.mem_of_mem_filter (selectHits_sub _ _ x hx)

theorem alone_iff (hhealthy : s.notes ≠ [] ∨ options.allowEmpty = true) :
    Alone u query reader options s ↔ Unseen u query reader s := by
  have hvisible : searchNotes u query (s.visibleOnly reader) (some reader) ⟨true⟩ = _ :=
    searchNotes_eq (listNotes_ok (.inr rfl))
  have hstore : searchNotes u query s (some reader) options = _ :=
    searchNotes_eq (listNotes_ok hhealthy)
  unfold Unseen
  by_cases htokens : tokensOf u query = []
  · refine iff_of_true (fun result hresult => ?_) (.inl htokens)
    rw [hstore, if_pos htokens] at hresult
    cases hresult
    exact ⟨by simp, _, hvisible, by rw [if_pos htokens]⟩
  simp only [htokens, false_or, ← hitsOf_alone_iff htokens]
  rw [if_neg htokens] at hstore hvisible
  constructor
  · intro halone
    obtain ⟨-, alone, halone, hhits⟩ := halone _ hstore
    rw [hvisible] at halone
    cases halone
    exact hhits
  · intro hhits result hresult
    rw [hstore] at hresult
    cases hresult
    refine ⟨fun path hpath => ?_, _, hvisible, hhits⟩
    obtain ⟨x, hx, rfl⟩ := List.mem_map.1 hpath
    obtain ⟨hselected, hshown⟩ := List.mem_filter.1 hx
    obtain ⟨hmem, heq⟩ := mem_scoredOf.1 (selectHits_sub _ _ x hselected)
    rw [heq] at hshown
    exact ⟨hmem, hshown⟩

end Stores

/-! ## Section 4: Two stores -/

section TwoStores

variable {u : Unicode} {query : Text} {reader : Reader} {options : NoteReadOptions} {s t : Store}
  (h : Agree reader s t)

include h

/-- What a search looks at is the same, or hidden on both sides. -/
theorem Agree.cachedContent (path : Text) : s.cachedContent path = t.cachedContent path ∨
    ∃ raw raw', s.cachedContent path = some raw ∧ t.cachedContent path = some raw' ∧
      visibleTo raw reader = false ∧ visibleTo raw' reader = false := by
  obtain hsame | ⟨raw, raw', hs, ht, hhidden⟩ := h.read path
  · exact .inl (by simp only [Store.cachedContent, hsame])
  · exact .inr ⟨raw, raw', by simp only [Store.cachedContent, hs],
      by simp only [Store.cachedContent, ht], hhidden⟩

theorem Agree.seen (path : Text) : s.seen reader path = t.seen reader path := by
  obtain hsame | ⟨raw, raw', hs, ht, hraw, hraw'⟩ := h.cachedContent path
  · simp only [Store.seen, hsame]
  · simp only [Store.seen, hs, ht, Option.getD_some, hraw, hraw']

theorem Agree.score {tokens : List Text} {path : Text} (hseen : s.seen reader path = true) :
    score u s tokens path = score u t tokens path := by
  obtain hsame | ⟨raw, raw', hs, ht, hraw, hraw'⟩ := h.cachedContent path
  · simp only [Lares.Notes.score, hsame]
  · simp [Store.seen, hs, hraw] at hseen

/-- The visible notes are the same. -/
theorem Agree.scoredOf_visibleOnly (tokens : List Text) :
    scoredOf u tokens (s.visibleOnly reader) = scoredOf u tokens (t.visibleOnly reader) := by
  have hnotes : s.notes.filter (s.seen reader) = t.notes.filter (t.seen reader) := by
    rw [h.notes]
    exact List.filter_congr fun path _ => h.seen path
  simp only [scoredOf, Store.visibleOnly, ← hnotes]
  refine List.map_congr_left fun path hpath => ?_
  exact h.score (List.mem_filter.1 hpath).2

theorem Agree.hits (hs : Alone u query reader options s) (ht : Alone u query reader options t)
    (hhealthy : s.notes ≠ [] ∨ options.allowEmpty = true) :
    searchNotes u query s (some reader) options = searchNotes u query t (some reader) options := by
  have hstore : searchNotes u query s (some reader) options = _ :=
    searchNotes_eq (listNotes_ok hhealthy)
  have hother : searchNotes u query t (some reader) options = _ :=
    searchNotes_eq (listNotes_ok (h.notes ▸ hhealthy))
  rw [hstore, hother, h.notes]
  by_cases htokens : tokensOf u query = []
  · simp [htokens]
  have hunseen := (alone_iff hhealthy).1 hs
  have hunseen' := (alone_iff (h.notes ▸ hhealthy)).1 ht
  simp only [Unseen, htokens, false_or, ← hitsOf_alone_iff htokens] at hunseen hunseen'
  have heq : hitsOf u (tokensOf u query) reader s = hitsOf u (tokensOf u query) reader t := by
    rw [hunseen, hunseen', hitsOf, hitsOf, h.scoredOf_visibleOnly]
  rw [if_neg htokens, if_neg htokens, heq]

theorem Agree.resolveInStore (path : Text) : resolveInStore path s = resolveInStore path t := by
  simp only [Lares.Notes.resolveInStore, h.within]

theorem Agree.backlinks (path : Text) :
    findBacklinks u path s (some reader) options =
      findBacklinks u path t (some reader) options := by
  have hlist : Lares.Notes.listNotes s options = Lares.Notes.listNotes t options := by
    simp only [Lares.Notes.listNotes, h.notes]
  simp only [findBacklinks, h.resolveInStore, hlist]
  congr 1
  funext _
  congr 1
  funext files
  congr 3
  funext relPath
  congr 1
  obtain hsame | ⟨raw, raw', hs, ht, hraw, hraw'⟩ := h.cachedContent relPath
  · rw [hsame]
  · simp [hs, ht, hraw, hraw']

theorem Agree.reads (path : Text) :
    readNote path s (some reader) = readNote path t (some reader) := by
  have hlist : Lares.Notes.listNotes s ⟨false⟩ = Lares.Notes.listNotes t ⟨false⟩ := by
    simp only [Lares.Notes.listNotes, h.notes]
  simp only [readNote, h.resolveInStore, hlist]
  congr 1
  funext _
  congr 1
  funext _
  obtain hsame | ⟨raw, raw', hs, ht, hraw, hraw'⟩ := h.read path
  · rw [hsame]
  · simp [hs, ht, hraw, hraw']

end TwoStores

/-- A hidden note reads as one that is not there. -/
theorem readNote_absent {s : Store} {reader : Reader} {path raw : Text}
    (hread : s.read path = .text raw) (hhidden : visibleTo raw reader = false) :
    readNote path s (some reader) =
      readNote path { s with read := fun p => if p = path then .missing else s.read p }
        (some reader) := by
  simp only [readNote, hread, if_true, Option.any_some, hhidden, Bool.not_false]
  rfl

/-- **No trace of hidden notes.** For stores that differ in hidden texts only, what the reader is
    told is the same, and is what the visible notes alone would give, exactly when the hidden notes
    of neither store show in the search. -/
theorem noTrace_iff (u : Unicode) (query : Text) {reader : Reader} {options : NoteReadOptions}
    {s t : Store} (h : Agree reader s t) (hhealthy : s.notes ≠ [] ∨ options.allowEmpty = true) :
    NoTrace u query reader options s t ↔ Unseen u query reader s ∧ Unseen u query reader t := by
  have hother : t.notes ≠ [] ∨ options.allowEmpty = true := h.notes ▸ hhealthy
  constructor
  · intro htrace
    exact ⟨(alone_iff hhealthy).1 htrace.alone.1, (alone_iff hother).1 htrace.alone.2⟩
  · rintro ⟨hs, ht⟩
    have halone : Alone u query reader options s := (alone_iff hhealthy).2 hs
    have halone' : Alone u query reader options t := (alone_iff hother).2 ht
    exact ⟨h.hits halone halone' hhealthy, h.backlinks, h.reads,
      fun _ _ hread hhidden => readNote_absent hread hhidden, halone, halone'⟩

def ascii : Unicode where
  toLowerCase s := s.map Char.toLower
  isWord c := c.isAlphanum
  fold := Char.toLower

def sampleReader : Reader := ⟨"mette".toList, .atlas⟩

/-- A private note with this body, next to two notes that everybody sees. -/
def sampleStore (body : String) : Store where
  notes := ["a.md".toList, "b.md".toList, "c.md".toList]
  distinct := by decide
  read path :=
    if path = "a.md".toList then .text ("---\nscope: private\n---\n" ++ body).toList
    else if path = "b.md".toList then .text "red".toList
    else if path = "c.md".toList then .text "blue".toList
    else .missing
  within _ := true

theorem sampleStore_agree {body body' : String}
    (h : visibleTo ("---\nscope: private\n---\n" ++ body).toList sampleReader = false)
    (h' : visibleTo ("---\nscope: private\n---\n" ++ body').toList sampleReader = false) :
    Agree sampleReader (sampleStore body) (sampleStore body') where
  notes := rfl
  within := rfl
  read path := by
    by_cases hpath : path = "a.md".toList
    · exact .inr ⟨_, _, if_pos hpath, if_pos hpath, h, h'⟩
    · exact .inl (by simp only [sampleStore, if_neg hpath])

theorem noTrace_iff_green :
    NoTrace ascii "red blue".toList sampleReader ⟨false⟩ (sampleStore "green")
      (sampleStore "x") := by
  have hunseen (body : String) (h : body = "green" ∨ body = "x") :
      Unseen ascii "red blue".toList sampleReader (sampleStore body) := by
    obtain rfl | rfl := h
    all_goals
      exact .inr (unmarked_of_blank (by decide +kernel) (by decide +kernel) (by decide +kernel))
  exact (noTrace_iff ascii "red blue".toList
    (sampleStore_agree (by decide +kernel) (by decide +kernel)) (.inl (by decide))).2
    ⟨hunseen "green" (.inl rfl), hunseen "x" (.inr rfl)⟩

/-- A hidden note with both words takes the two visible notes out of the answer. -/
theorem hidden_note_shows :
    ¬ ∀ (u : Unicode) (query : Text) (reader : Reader) (options : NoteReadOptions) (s t : Store),
      Agree reader s t → s.notes ≠ [] ∨ options.allowEmpty = true →
        NoTrace u query reader options s t := by
  intro hall
  have hagree : Agree sampleReader (sampleStore "red blue") (sampleStore "green") :=
    sampleStore_agree (by decide +kernel) (by decide +kernel)
  have hhits := (hall ascii "red blue".toList sampleReader ⟨false⟩ _ _ hagree
    (.inl (by decide))).hits
  have hleft : searchNotes ascii "red blue".toList (sampleStore "red blue") (some sampleReader)
      ⟨false⟩ = .ok ⟨[], 3⟩ := by decide +kernel
  have hright : searchNotes ascii "red blue".toList (sampleStore "green") (some sampleReader)
      ⟨false⟩ = .ok ⟨["b.md".toList, "c.md".toList], 3⟩ := by decide +kernel
  rw [hleft, hright] at hhits
  revert hhits
  decide

end Lares.Notes
