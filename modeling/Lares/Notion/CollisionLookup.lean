import Lares.Framework.Lines
import Mathlib

/-! # The cheap collision lookup

    Before a file is created, the vault is searched for a path that a file system
    without case would take for it.

    * **The whole listing** is the question: any path with the target's key.
    * **The lookup** reads the directories whose path has the key of an ancestor,
      one level at a time.
    * **Same verdict**: each level holds exactly the paths with the key of that
      ancestor, by induction on the depth.
-/

namespace Lares.Notion

open Lines

/-! ## Section 1: A vault -/

/-- The names on the way to a file or a directory. -/
abbrev Path := List (List Char)

theorem lawfulName : LawfulBEq (List Char) := inferInstance

attribute [local instance] lawfulName

def joinPath (p : Path) : List Char := ['/'].intercalate p

/-- A finite tree of files and directories under a root. -/
structure Vault where
  all : List Path
  isDir : Path → Bool
  nodup : all.Nodup
  names : ∀ p ∈ all, p ≠ [] ∧
    ∀ name ∈ p, name ≠ [] ∧ '/' ∉ name ∧ name ≠ ['.'] ∧ name ≠ ['.', '.']
  parents : ∀ p name, p ++ [name] ∈ all → p ≠ [] → p ∈ all ∧ isDir p = true

inductive Errno where
  | ENOENT
  | ENOTDIR

/-- The entries of a directory, `[]` for the root. -/
def Vault.entries (v : Vault) (dir : Path) : List (List Char) :=
  v.all.filterMap fun p => if p.dropLast = dir then p.getLast? else none

def Vault.readdir (v : Vault) (relDir : List Char) : Except Errno (List (List Char)) :=
  let dir : Path := if relDir = [] then [] else relDir.splitOn '/'
  if dir.inits.any fun p => decide (p ∈ v.all) && !v.isDir p then .error .ENOTDIR
  else if dir = [] ∨ dir ∈ v.all then .ok (v.entries dir)
  else .error .ENOENT

/-! ## Section 2: The code -/

/-- The two operations on texts that a key is made of. -/
structure Unicode where
  normalize : List Char → List Char
  toLowerCase : List Char → List Char

def MAX_COLLIDING_DIRS : Nat := 64

inductive LookupError where
  | readdir (code : Errno)
  | tooManyDirs (relPath wanted : List Char)

section Code

variable (u : Unicode)

def collisionKey (name : List Char) : List Char := u.toLowerCase (u.normalize name)

def findCollidingPath (target : List Char) (existing : List (List Char)) : Option (List Char) :=
  existing.find? fun path =>
    decide (path ≠ target) && decide (collisionKey u path = collisionKey u target)

variable (v : Vault)

def entriesOf (relDir : List Char) : Except LookupError (List (List Char)) :=
  match v.readdir relDir with
  | .ok names => .ok names
  | .error .ENOENT => .ok []
  | .error .ENOTDIR => .error (.readdir .ENOTDIR)

/-- UTF-16, which `sort` compares -/
def codeUnits (name : List Char) : List Nat :=
  name.flatMap fun c =>
    if c.toNat < 65536 then [c.toNat]
    else [55296 + (c.toNat - 65536) / 1024, 56320 + (c.toNat - 65536) % 1024]

def sortNames (names : List (List Char)) : List (List Char) :=
  names.mergeSort fun a b => decide (codeUnits a ≤ codeUnits b)

def child (dir name : List Char) : List Char := if dir = [] then name else dir ++ '/' :: name

/-- The entries of the directories that have the wanted key. -/
def nextDirs (wantedKey : List Char) : List (List Char) → Except LookupError (List (List Char))
  | [] => .ok []
  | dir :: dirs => do
      let names ← entriesOf v dir
      let here := (sortNames names).filter fun name => decide (collisionKey u name = wantedKey)
      let more ← nextDirs wantedKey dirs
      return here.map (child dir) ++ more

def candidatesIn : List (List Char) → Except LookupError (List (List Char))
  | [] => .ok []
  | dir :: dirs => do
      let names ← entriesOf v dir
      let more ← candidatesIn dirs
      return names.map (child dir) ++ more

/-- The loop over the ancestors that are left. -/
def lookupFrom (relPath : List Char) :
    List (List Char) → List (List Char) → Except LookupError (List (List Char))
  | [], dirs => candidatesIn v dirs
  | wanted :: ancestors, dirs => do
      let next ← nextDirs u v (collisionKey u wanted) dirs
      if next = [] then return []
      if MAX_COLLIDING_DIRS < next.length then throw (.tooManyDirs relPath wanted)
      lookupFrom relPath ancestors next

def listCollisionCandidates (relPath : List Char) : Except LookupError (List (List Char)) :=
  lookupFrom u v relPath (relPath.splitOn '/').dropLast [[]]

end Code

/-! ## Section 3: Reading a vault -/

namespace Vault

variable {v : Vault}

theorem splitOn_joinPath {p : Path} (h : p ∈ v.all) : (joinPath p).splitOn '/' = p := by
  obtain ⟨hne, hnames⟩ := v.names p h
  exact List.splitOn_intercalate '/' (fun name hname => (hnames name hname).2.1) hne

theorem joinPath_ne_nil {p : Path} (h : p ∈ v.all) : joinPath p ≠ [] := by
  intro hnil
  have hsplit := splitOn_joinPath h
  rw [hnil, List.splitOn_nil] at hsplit
  have hname := ((v.names p h).2 [] (by rw [← hsplit]; exact List.mem_singleton_self _)).1
  exact hname rfl

theorem child_joinPath {p : Path} (h : p = [] ∨ p ∈ v.all) (name : List Char) :
    child (joinPath p) name = joinPath (p ++ [name]) := by
  rcases h with rfl | h
  · rw [joinPath, joinPath, List.nil_append, List.intercalate_singleton]
    rfl
  · rw [child, if_neg (joinPath_ne_nil h), joinPath, joinPath,
      intercalate_append _ (v.names p h).1 (List.cons_ne_nil name []), List.intercalate_singleton,
      List.append_assoc]
    rfl

theorem mem_entries {dir : Path} {name : List Char} :
    name ∈ v.entries dir ↔ dir ++ [name] ∈ v.all := by
  rw [entries, List.mem_filterMap]
  constructor
  · rintro ⟨p, hp, hname⟩
    split at hname
    · next hdir =>
      obtain ⟨init, rfl⟩ := List.getLast?_eq_some_iff.1 hname
      rw [List.dropLast_concat] at hdir
      rw [← hdir]
      exact hp
    · cases hname
  · intro h
    refine ⟨dir ++ [name], h, ?_⟩
    rw [List.dropLast_concat, if_pos rfl, List.getLast?_concat]

theorem nodup_entries (dir : Path) : (v.entries dir).Nodup := by
  apply v.nodup.filterMap
  intro p q name hp hq
  rw [Option.mem_def] at hp hq
  split at hp
  · next hpdir =>
    split at hq
    · next hqdir =>
      obtain ⟨init, rfl⟩ := List.getLast?_eq_some_iff.1 hp
      obtain ⟨init', rfl⟩ := List.getLast?_eq_some_iff.1 hq
      rw [List.dropLast_concat] at hpdir hqdir
      rw [hpdir, hqdir]
    · cases hq
  · cases hp

/-- What leads to an entry is there. -/
theorem prefix_mem {p : Path} (h : p ∈ v.all) {q : Path} (hq : q <+: p) (hne : q ≠ []) :
    q ∈ v.all := by
  obtain ⟨r, rfl⟩ := hq
  induction r using List.reverseRecOn with
  | nil => simpa using h
  | append_singleton r name ih =>
    rw [← List.append_assoc] at h
    exact ih (v.parents _ name h (by simp [hne])).1

theorem isDir_of_prefix {p : Path} (h : p ∈ v.all) {q : Path} (hq : q <+: p) (hne : q ≠ [])
    (hlt : q ≠ p) : v.isDir q = true := by
  obtain ⟨r, rfl⟩ := hq
  cases r with
  | nil => simp at hlt
  | cons name r =>
    have hnext : q ++ [name] ∈ v.all :=
      prefix_mem h ⟨r, by simp⟩ (by simp)
    exact (v.parents q name hnext hne).2

/-- A directory of the vault can be read. -/
theorem entriesOf_joinPath {p : Path} (h : p = [] ∨ p ∈ v.all ∧ v.isDir p = true) :
    entriesOf v (joinPath p) = .ok (v.entries p) := by
  have hdir : (if joinPath p = [] then [] else (joinPath p).splitOn '/' : Path) = p := by
    rcases h with rfl | ⟨h, -⟩
    · rfl
    · rw [if_neg (joinPath_ne_nil h), splitOn_joinPath h]
  have hfiles : (p.inits.any fun q => decide (q ∈ v.all) && !v.isDir q) = false := by
    rw [List.any_eq_false]
    intro q hq hfile
    rw [Bool.and_eq_true, decide_eq_true_eq, Bool.not_eq_true'] at hfile
    have hne := (v.names q hfile.1).1
    rw [List.mem_inits] at hq
    have hisDir : v.isDir q = true := by
      rcases h with rfl | ⟨h, hp⟩
      · exact absurd (List.prefix_nil.1 hq) hne
      · by_cases heq : q = p
        · rw [heq]
          exact hp
        · exact isDir_of_prefix h hq hne heq
    rw [hisDir] at hfile
    exact absurd hfile.2 (by decide)
  have hthere : p = [] ∨ p ∈ v.all := h.imp_right And.left
  unfold entriesOf readdir
  dsimp only
  rw [hdir, hfiles, if_neg (by decide), if_pos hthere]

end Vault

/-! ## Section 4: One level -/

section Levels

variable {u : Unicode} {v : Vault}

/-- The entries with the wanted key, of several directories. -/
def nextPaths (u : Unicode) (v : Vault) (wantedKey : List Char) (ps : List Path) : List Path :=
  ps.flatMap fun p =>
    ((sortNames (v.entries p)).filter fun name => decide (collisionKey u name = wantedKey)).map
      fun name => p ++ [name]

theorem nextDirs_joinPath (wantedKey : List Char) {ps : List Path}
    (h : ∀ p ∈ ps, p = [] ∨ p ∈ v.all ∧ v.isDir p = true) :
    nextDirs u v wantedKey (ps.map joinPath) =
      .ok ((nextPaths u v wantedKey ps).map joinPath) := by
  induction ps with
  | nil => rfl
  | cons p ps ih =>
    have hp := h p List.mem_cons_self
    have hthere : p = [] ∨ p ∈ v.all := hp.imp_right And.left
    have hchild : child (joinPath p) = fun name => joinPath (p ++ [name]) :=
      funext (Vault.child_joinPath hthere)
    rw [List.map_cons, nextDirs, Vault.entriesOf_joinPath hp,
      ih fun q hq => h q (List.mem_cons_of_mem p hq), hchild]
    rw [nextPaths, nextPaths, List.flatMap_cons, List.map_append, List.map_map]
    rfl

theorem candidatesIn_joinPath {ps : List Path}
    (h : ∀ p ∈ ps, p = [] ∨ p ∈ v.all ∧ v.isDir p = true) :
    candidatesIn v (ps.map joinPath) =
      .ok ((ps.flatMap fun p => (v.entries p).map fun name => p ++ [name]).map joinPath) := by
  induction ps with
  | nil => rfl
  | cons p ps ih =>
    have hp := h p List.mem_cons_self
    have hthere : p = [] ∨ p ∈ v.all := hp.imp_right And.left
    have hchild : child (joinPath p) = fun name => joinPath (p ++ [name]) :=
      funext (Vault.child_joinPath hthere)
    rw [List.map_cons, candidatesIn, Vault.entriesOf_joinPath hp,
      ih fun q hq => h q (List.mem_cons_of_mem p hq), hchild, List.flatMap_cons, List.map_append,
      List.map_map]
    rfl

/-- The paths of the vault, the root with them, whose names have these keys. -/
structure AtLevel (u : Unicode) (v : Vault) (keys : List (List Char)) (ps : List Path) : Prop where
  nodup : ps.Nodup
  mem_iff : ∀ p, p ∈ ps ↔ (p = [] ∨ p ∈ v.all) ∧ p.map (collisionKey u) = keys

theorem atLevel_root : AtLevel u v [] [[]] where
  nodup := List.nodup_singleton _
  mem_iff p := by
    rw [List.mem_singleton, List.map_eq_nil_iff]
    constructor
    · exact fun h => ⟨.inl h, h⟩
    · exact And.right

theorem mem_nextPaths {wantedKey : List Char} {ps : List Path} {q : Path} :
    q ∈ nextPaths u v wantedKey ps ↔
      ∃ p ∈ ps, ∃ name, p ++ [name] ∈ v.all ∧ collisionKey u name = wantedKey ∧
        p ++ [name] = q := by
  rw [nextPaths, List.mem_flatMap]
  refine exists_congr fun p => and_congr_right fun _ => ?_
  rw [List.mem_map]
  refine exists_congr fun name => ?_
  rw [List.mem_filter, sortNames, List.mem_mergeSort, Vault.mem_entries, decide_eq_true_eq,
    and_assoc]

theorem AtLevel.next {keys : List (List Char)} {ps : List Path} (h : AtLevel u v keys ps)
    (wantedKey : List Char) : AtLevel u v (keys ++ [wantedKey]) (nextPaths u v wantedKey ps) where
  nodup := by
    rw [nextPaths, List.nodup_flatMap]
    constructor
    · intro p _
      apply List.Nodup.map
      · intro a b hab
        exact List.cons.inj (List.append_cancel_left hab) |>.1
      · apply List.Nodup.filter
        exact (List.mergeSort_perm _ _).nodup_iff.2 (Vault.nodup_entries p)
    · apply h.nodup.imp
      intro p q hpq r hrp hrq
      obtain ⟨a, -, rfl⟩ := List.mem_map.1 hrp
      obtain ⟨b, -, hb⟩ := List.mem_map.1 hrq
      exact hpq (List.append_inj_left' hb rfl).symm
  mem_iff q := by
    rw [mem_nextPaths]
    constructor
    · rintro ⟨p, hp, name, hall, hkey, rfl⟩
      refine ⟨.inr hall, ?_⟩
      rw [List.map_append, ((h.mem_iff p).1 hp).2, List.map_singleton, hkey]
    · rintro ⟨hq, hkeys⟩
      rcases List.eq_nil_or_concat q with rfl | ⟨p, name, rfl⟩
      · simp at hkeys
      · rw [List.concat_eq_append] at hq hkeys ⊢
        have hall : p ++ [name] ∈ v.all := hq.resolve_left (by simp)
        rw [List.map_append, List.map_singleton] at hkeys
        obtain ⟨hp, hname⟩ := List.append_inj' hkeys rfl
        refine ⟨p, (h.mem_iff p).2 ⟨?_, hp⟩, name, hall, (List.cons.inj hname).1, rfl⟩
        by_cases hnil : p = []
        · exact .inl hnil
        · exact .inr (Vault.prefix_mem hall (List.prefix_append p [name]) hnil)

/-! ## Section 5: All levels -/

/-- No file stands where an ancestor of the target would, and an ancestor has few spellings. -/
structure Explorable (u : Unicode) (v : Vault) (ancestors : Path) : Prop where
  dirs : ∀ q, q <+: ancestors → q ≠ [] → ∀ p ∈ v.all, v.isDir p = false →
    p.map (collisionKey u) ≠ q.map (collisionKey u)
  few : ∀ q, q <+: ancestors → q ≠ [] →
    (v.all.filter fun p => decide (p.map (collisionKey u) = q.map (collisionKey u))).length ≤
      MAX_COLLIDING_DIRS

variable {ancestors : Path}

theorem Explorable.readable (hex : Explorable u v ancestors) {q : Path} (hq : q <+: ancestors)
    {ps : List Path} (h : AtLevel u v (q.map (collisionKey u)) ps) {p : Path} (hp : p ∈ ps) :
    p = [] ∨ p ∈ v.all ∧ v.isDir p = true := by
  obtain ⟨hthere, hkeys⟩ := (h.mem_iff p).1 hp
  rcases hthere with hnil | hall
  · exact .inl hnil
  · refine .inr ⟨hall, ?_⟩
    by_contra hfile
    have hne : q ≠ [] := by
      rintro rfl
      exact (v.names p hall).1 (List.map_eq_nil_iff.1 hkeys)
    exact hex.dirs q hq hne p hall (by simpa using hfile) hkeys

theorem Explorable.length_le (hex : Explorable u v ancestors) {q : Path} (hq : q <+: ancestors)
    (hne : q ≠ []) {ps : List Path} (h : AtLevel u v (q.map (collisionKey u)) ps) :
    ps.length ≤ MAX_COLLIDING_DIRS := by
  have hsub : ps ⊆ v.all.filter fun p =>
      decide (p.map (collisionKey u) = q.map (collisionKey u)) := by
    intro p hp
    obtain ⟨hthere, hkeys⟩ := (h.mem_iff p).1 hp
    rw [List.mem_filter, decide_eq_true_eq]
    refine ⟨hthere.resolve_left ?_, hkeys⟩
    rintro rfl
    exact hne (List.map_eq_nil_iff.1 hkeys.symm)
  exact ((h.nodup.subperm hsub).length_le).trans (hex.few q hq hne)

/-- The candidates of the lookup are paths of the vault, with all those that have the key. -/
def Complete (u : Unicode) (v : Vault) (segments : Path) (candidates : List (List Char)) : Prop :=
  (∀ c ∈ candidates, ∃ p ∈ v.all, c = joinPath p) ∧
    ∀ p ∈ v.all, p.map (collisionKey u) = segments.map (collisionKey u) → joinPath p ∈ candidates

theorem complete_entries {last : List Char} {ps : List Path}
    (h : AtLevel u v (ancestors.map (collisionKey u)) ps) :
    Complete u v (ancestors ++ [last])
      ((ps.flatMap fun p => (v.entries p).map fun name => p ++ [name]).map joinPath) := by
  constructor
  · intro c hc
    obtain ⟨q, hq, rfl⟩ := List.mem_map.1 hc
    obtain ⟨p, -, hq⟩ := List.mem_flatMap.1 hq
    obtain ⟨name, hname, rfl⟩ := List.mem_map.1 hq
    exact ⟨_, Vault.mem_entries.1 hname, rfl⟩
  · intro q hall hkeys
    rw [List.map_append, List.map_singleton] at hkeys
    have hnext := (h.next (collisionKey u last)).mem_iff q
    rw [mem_nextPaths] at hnext
    obtain ⟨p, hp, name, hname, -, rfl⟩ := hnext.2 ⟨.inr hall, hkeys⟩
    apply List.mem_map_of_mem
    rw [List.mem_flatMap]
    exact ⟨p, hp, List.mem_map_of_mem (Vault.mem_entries.2 hname)⟩

/-- The loop, from any level on: the induction is on the ancestors that are left. -/
theorem lookupFrom_complete (hex : Explorable u v ancestors) (relPath last : List Char) :
    ∀ left done : Path, done ++ left = ancestors → ∀ ps : List Path,
      AtLevel u v (done.map (collisionKey u)) ps →
        ∃ candidates, lookupFrom u v relPath left (ps.map joinPath) = .ok candidates ∧
          Complete u v (ancestors ++ [last]) candidates := by
  intro left
  induction left with
  | nil =>
    intro done hdone ps hps
    rw [List.append_nil] at hdone
    subst hdone
    refine ⟨_, candidatesIn_joinPath fun p hp => hex.readable List.prefix_rfl hps hp, ?_⟩
    exact complete_entries hps
  | cons wanted left ih =>
    intro done hdone ps hps
    have hstarts : done <+: ancestors := ⟨_, hdone⟩
    have hdone' : (done ++ [wanted]) ++ left = ancestors := by
      rw [List.append_assoc, List.singleton_append, hdone]
    have hnext := hps.next (collisionKey u wanted)
    rw [← List.map_singleton, ← List.map_append] at hnext
    have hread := nextDirs_joinPath (u := u) (collisionKey u wanted)
      fun p hp => hex.readable hstarts hps hp
    rw [lookupFrom, hread]
    by_cases hnil : nextPaths u v (collisionKey u wanted) ps = []
    · -- nothing lies under an ancestor that exists in no spelling
      refine ⟨[], by rw [hnil]; rfl, by simp, ?_⟩
      intro p hall hkeys
      rw [← hdone', List.append_assoc, List.map_append] at hkeys
      obtain ⟨q, r, rfl, hq, -⟩ := List.map_eq_append_iff.1 hkeys
      have hne : q ≠ [] := by
        rintro rfl
        simp at hq
      have hmem := (hnext.mem_iff q).2
        ⟨.inr (Vault.prefix_mem hall (List.prefix_append q r) hne), hq⟩
      rw [hnil] at hmem
      cases hmem
    · have hlen := hex.length_le ⟨left, hdone'⟩ (by simp) hnext
      obtain ⟨candidates, hrun, hcomplete⟩ := ih (done ++ [wanted]) hdone' _ hnext
      refine ⟨candidates, ?_, hcomplete⟩
      rw [← hrun]
      have hne : ¬(nextPaths u v (collisionKey u wanted) ps).map joinPath = [] := by simpa using hnil
      have hfew : ¬MAX_COLLIDING_DIRS <
          ((nextPaths u v (collisionKey u wanted) ps).map joinPath).length := by
        rw [List.length_map]
        omega
      change (if _ then _ else _) = _
      rw [if_neg hne]
      change (if _ then _ else _) = _
      rw [if_neg hfew]

end Levels

/-! ## Section 6: The same verdict -/

section Verdict

variable {u : Unicode} {v : Vault}

theorem isSome_findCollidingPath {target : List Char} {existing : List (List Char)} :
    (findCollidingPath u target existing).isSome ↔
      ∃ path ∈ existing, path ≠ target ∧ collisionKey u path = collisionKey u target := by
  rw [findCollidingPath, List.find?_isSome]
  simp only [Bool.and_eq_true, decide_eq_true_eq]

/-- A key that acts segment by segment. -/
theorem collisionKey_eq_iff
    (hsegments : ∀ path, (collisionKey u path).splitOn '/' =
      (path.splitOn '/').map (collisionKey u)) (a b : List Char) :
    collisionKey u a = collisionKey u b ↔
      (a.splitOn '/').map (collisionKey u) = (b.splitOn '/').map (collisionKey u) := by
  rw [← hsegments, ← hsegments]
  constructor
  · exact congrArg _
  · exact splitOn_injective '/'

/-- The lookup gives the verdict of the whole vault, whatever the target. -/
theorem listCollisionCandidates_verdict (u : Unicode)
    (hsegments : ∀ path, (collisionKey u path).splitOn '/' =
      (path.splitOn '/').map (collisionKey u))
    (v : Vault) (target : List Char)
    (hdirs : ∀ i, 0 < i → i < (target.splitOn '/').length → ∀ p ∈ v.all, v.isDir p = false →
      collisionKey u (joinPath p) ≠ collisionKey u (joinPath ((target.splitOn '/').take i)))
    (hfew : ∀ i, 0 < i → i < (target.splitOn '/').length →
      (v.all.filter fun p => decide (collisionKey u (joinPath p) =
        collisionKey u (joinPath ((target.splitOn '/').take i)))).length ≤ MAX_COLLIDING_DIRS) :
    ∃ candidates, listCollisionCandidates u v target = .ok candidates ∧
      ((findCollidingPath u target candidates).isSome ↔
        ∃ p ∈ v.all, joinPath p ≠ target ∧
          collisionKey u (joinPath p) = collisionKey u target) ∧
      (findCollidingPath u target candidates).isSome =
        (findCollidingPath u target (v.all.map joinPath)).isSome := by
  obtain ⟨ancestors, last, hsegs⟩ : ∃ ancestors last, target.splitOn '/' = ancestors ++ [last] :=
    ⟨_, _, (List.dropLast_append_getLast (List.splitOn_ne_nil _ _)).symm⟩
  -- A path of ancestors is read back from its text.
  have hjoin : ∀ q, q <+: ancestors → q ≠ [] → (joinPath q).splitOn '/' = q := by
    intro q hq hne
    apply List.splitOn_intercalate '/' _ hne
    intro name hname
    apply not_mem_of_mem_splitOn (s := target)
    rw [hsegs]
    exact List.mem_append_left _ (hq.subset hname)
  have htake : ∀ q, q <+: ancestors → q ≠ [] → 0 < q.length ∧
      q.length < (target.splitOn '/').length ∧ (target.splitOn '/').take q.length = q := by
    intro q hq hne
    refine ⟨List.length_pos_of_ne_nil hne, ?_, ?_⟩
    · rw [hsegs, List.length_append, List.length_singleton]
      have hle := hq.length_le
      omega
    · rw [hsegs]
      exact (List.prefix_iff_eq_take.1 (hq.trans (List.prefix_append _ _))).symm
  have hkey : ∀ q, q <+: ancestors → q ≠ [] → ∀ p ∈ v.all,
      (collisionKey u (joinPath p) = collisionKey u (joinPath q) ↔
        p.map (collisionKey u) = q.map (collisionKey u)) := by
    intro q hq hne p hp
    rw [collisionKey_eq_iff hsegments, Vault.splitOn_joinPath hp, hjoin q hq hne]
  -- So the two hypotheses are about the walk: it meets no file and no crowded level.
  have hex : Explorable u v ancestors := by
    refine ⟨?_, ?_⟩
    · intro q hq hne p hp hfile hkeys
      obtain ⟨hpos, hlt, heq⟩ := htake q hq hne
      have hne' := hdirs q.length hpos hlt p hp hfile
      rw [heq] at hne'
      exact hne' ((hkey q hq hne p hp).2 hkeys)
    · intro q hq hne
      obtain ⟨hpos, hlt, heq⟩ := htake q hq hne
      have hle := hfew q.length hpos hlt
      rw [heq] at hle
      refine le_trans (le_of_eq ?_) hle
      congr 1
      apply List.filter_congr
      intro p hp
      rw [decide_eq_decide]
      exact (hkey q hq hne p hp).symm
  -- The walk then finds every path that collides level by level.
  obtain ⟨candidates, hrun, hpaths, hall⟩ :=
    lookupFrom_complete hex target last ancestors [] rfl [[]] atLevel_root
  have hverdict : (findCollidingPath u target candidates).isSome ↔
      ∃ p ∈ v.all, joinPath p ≠ target ∧ collisionKey u (joinPath p) = collisionKey u target := by
    -- Only paths of the vault are candidates, and the colliding ones all are.
    rw [isSome_findCollidingPath]
    constructor
    · rintro ⟨path, hpath, hne, hkeys⟩
      obtain ⟨p, hp, rfl⟩ := hpaths path hpath
      exact ⟨p, hp, hne, hkeys⟩
    · rintro ⟨p, hp, hne, hkeys⟩
      refine ⟨joinPath p, hall p hp ?_, hne, hkeys⟩
      have hsegkeys := (collisionKey_eq_iff hsegments _ _).1 hkeys
      rwa [Vault.splitOn_joinPath hp, hsegs] at hsegkeys
  refine ⟨candidates, ?_, hverdict, ?_⟩
  · rw [listCollisionCandidates, hsegs, List.dropLast_concat]
    exact hrun
  · rw [Bool.eq_iff_iff, hverdict, isSome_findCollidingPath]
    simp only [List.mem_map, exists_exists_and_eq_and]

/-- Texts of ASCII characters. -/
def ascii : Unicode := ⟨id, fun text => text.map Char.toLower⟩

theorem toLower_eq_slash {c : Char} : c.toLower = '/' ↔ c = '/' := by
  constructor
  · intro h
    unfold Char.toLower at h
    split at h
    · next hupper =>
      have hval := congrArg (fun c : Char => c.val.toNat) h
      have hlow := UInt32.le_iff_toNat_le.1 hupper.1
      have hhigh := UInt32.le_iff_toNat_le.1 hupper.2
      simp at hval hlow hhigh
      omega
    · exact h
  · rintro rfl
    rfl

theorem ascii_segments (path : List Char) :
    (collisionKey ascii path).splitOn '/' = (path.splitOn '/').map (collisionKey ascii) := by
  have hkey : ∀ text, collisionKey ascii text = text.map Char.toLower := fun _ => rfl
  simp only [hkey]
  induction path with
  | nil => rfl
  | cons c path ih =>
    rw [List.map_cons]
    by_cases hc : c = '/'
    · subst hc
      rw [splitOn_break, toLower_eq_slash.2 rfl, splitOn_break, ih]
      rfl
    · rw [splitOn_cons_of_ne hc, splitOn_cons_of_ne (mt toLower_eq_slash.1 hc), ih]
      obtain ⟨first, rest, hsplit⟩ := List.exists_cons_of_ne_nil (List.splitOn_ne_nil '/' path)
      rw [hsplit]
      rfl

/-- A folder `A` with a note, beside a folder `a`. -/
def twoCases : Vault where
  all := [[['A']], [['A'], ['n', '.', 'm', 'd']], [['a']]]
  isDir p := p.length = 1
  nodup := by decide
  names := by decide
  parents := by
    intro p name h hne
    simp only [List.mem_cons, List.not_mem_nil, or_false] at h
    rcases h with h | h | h
    all_goals
      have hp := congrArg List.dropLast h
      rw [List.dropLast_concat] at hp
      subst hp
    · exact absurd rfl hne
    · decide
    · exact absurd rfl hne

theorem listCollisionCandidates_verdict_twoCases :
    ∃ candidates, listCollisionCandidates ascii twoCases ['a', '/', 'N', '.', 'm', 'd'] =
        .ok candidates ∧
      ((findCollidingPath ascii ['a', '/', 'N', '.', 'm', 'd'] candidates).isSome ↔
        ∃ p ∈ twoCases.all, joinPath p ≠ ['a', '/', 'N', '.', 'm', 'd'] ∧
          collisionKey ascii (joinPath p) = collisionKey ascii ['a', '/', 'N', '.', 'm', 'd']) ∧
      (findCollidingPath ascii ['a', '/', 'N', '.', 'm', 'd'] candidates).isSome =
        (findCollidingPath ascii ['a', '/', 'N', '.', 'm', 'd']
          (twoCases.all.map joinPath)).isSome := by
  apply listCollisionCandidates_verdict ascii ascii_segments
  · intro i hpos hlt
    have hi : i = 1 := by
      have hlen : (['a', '/', 'N', '.', 'm', 'd'].splitOn '/').length = 2 := by decide
      omega
    subst hi
    decide +kernel
  · intro i hpos hlt
    have hi : i = 1 := by
      have hlen : (['a', '/', 'N', '.', 'm', 'd'].splitOn '/').length = 2 := by decide
      omega
    subst hi
    decide +kernel

end Verdict

end Lares.Notion
