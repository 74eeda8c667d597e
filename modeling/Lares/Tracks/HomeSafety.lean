import Lares.Tracks.Home

/-! # What the tracks of a vault keep to

    * **Knowledge**: what a request has checked before its write, of contents
      that the write compares.
    * **Writes**: a write that is accepted keeps every item on a step of its track.
    * **Runs**: over any interleaving, where no item comes in behind `setSteps`.
-/

namespace Lares.Tracks

open Lines (trim)

attribute [local instance] Lines.lawfulText

/-! ## Section 1: Safety -/

section Safety

variable (dateParses : Text → Bool)

/-- The file reads as what the call has returned that wrote it. -/
def ReadsBack (path : Path) (file : File) : Prop :=
  file.returned.path = path ∧ match file.returned with
    | .track t => parseTrack t.id file.content = .ok t
    | .item i => parseItem dateParses i.id i.trackId file.content = .ok i

structure TracksSafe (s : Store) : Prop where
  /-- Every item names a step of its track. -/
  steps : ∀ trackId file track, s.files (.track trackId) = some file →
    parseTrack trackId file.content = .ok track →
    ∀ id itemFile, s.files (.item trackId id) = some itemFile →
      ∃ item, parseItem dateParses id trackId itemFile.content = .ok item ∧ item.step ∈ track.steps
  /-- What is written is read back. -/
  readsBack : ∀ path file, s.files path = some file → ReadsBack dateParses path file

/-- No white space around the texts that are trimmed when they are read. -/
def Returned.Trimmed : Returned → Prop
  | .track t => Tracks.Trimmed t.name ∧ Tracks.Trimmed t.purpose
  | .item i => i.Trimmed

/-- An item of the track keeps its step. -/
def Store.stays (s : Store) (next : Track) (path : Path) : Bool :=
  match path with
  | .track _ => true
  | .item trackId id =>
      decide (trackId ≠ next.id) || match s.files path with
        | none => true
        | some file =>
            match parseItem dateParses id trackId file.content with
            | .ok item => decide (item.step ∈ next.steps)
            | .error _ => false

variable {Rev : Type} (contentRevision : Text → Rev)

/-- A write that is accepted brings trimmed texts. The items it does not compare, which were
    created since they were listed, keep their steps. -/
def Apart [DecidableEq Rev] (s : Store) (req : Request Rev) (answer : Option Answer) : Prop :=
  answer.isSome → match req with
    | .write w => s.accepts contentRevision w = true → w.returned.Trimmed ∧
        match w.returned with
        | .track t => ∀ path ∈ s.paths,
            path ∈ w.relatedContentRevisions.map Prod.fst ∨ s.stays dateParses t path = true
        | .item _ => True
    | _ => True

/-! ## Section 2: Knowledge -/

/-- What the related revisions of a write are revisions of. -/
def WriteOk (w : Write Rev) : Prop :=
  match w.returned with
  | .track t => validateTrack t = true ∧ ∀ r ∈ w.relatedContentRevisions, ∃ id content item,
      r = (.item t.id id, some (contentRevision content)) ∧
        parseItem dateParses id t.id content = .ok item ∧ item.step ∈ t.steps
  | .item i => ItemOk dateParses i ∧ ∃ content track,
      (.track i.trackId, some (contentRevision content)) ∈ w.relatedContentRevisions ∧
        parseTrack i.trackId content = .ok track ∧ i.step ∈ track.steps

def RequestOk : Request Rev → Prop
  | .createTrack track | .setList track _ => validateTrack track = true
  | .setRead next rev _ related => WriteOk dateParses contentRevision ⟨.track next, some rev, related⟩
  | .moveParent next _ => clean next.step 80 = true → ItemOk dateParses next
  | .write w => WriteOk dateParses contentRevision w
  | _ => True

variable {dateParses contentRevision} {before : Text → Text → Bool} {s t : Store}
  {req : Request Rev} {left : Option (Request Rev)}

theorem setSteps_knows {trackId : Text} {steps closingSteps : List Text}
    (hstep : setSteps contentRevision s trackId steps closingSteps = some (t, left)) :
    t = s ∧ ∀ req ∈ left, RequestOk dateParses contentRevision req := by
  unfold setSteps at hstep
  split at hstep
  · cases hstep
    exact ⟨rfl, by simp⟩
  · split at hstep
    · cases hstep
      exact ⟨rfl, by simp⟩
    · dsimp only at hstep
      split at hstep
      next hvalid =>
        cases hstep
        refine ⟨rfl, ?_⟩
        intro req hreq
        cases hreq
        exact hvalid
      · cases hstep
        exact ⟨rfl, by simp⟩

theorem setRead_knows {next : Track} {rev : Rev} {ids : List Text}
    {related : List (Path × Option Rev)}
    (hok : WriteOk dateParses contentRevision ⟨.track next, some rev, related⟩)
    (hstep : setRead contentRevision dateParses s next rev ids related = some (t, left)) :
    t = s ∧ ∀ req ∈ left, RequestOk dateParses contentRevision req := by
  unfold setRead at hstep
  split at hstep
  · cases hstep
    refine ⟨rfl, ?_⟩
    intro req hreq
    cases hreq
    exact hok
  · next id ids =>
    split at hstep
    · cases hstep
      refine ⟨rfl, ?_⟩
      intro req hreq
      cases hreq
      exact hok
    · next file hfile =>
      split at hstep
      · cases hstep
        exact ⟨rfl, by simp⟩
      · next item hitem =>
        split at hstep
        next hmem =>
          cases hstep
          refine ⟨rfl, ?_⟩
          intro req hreq
          cases hreq
          refine ⟨hok.1, ?_⟩
          intro r hr
          rcases List.mem_append.1 hr with hr | hr
          · exact hok.2 r hr
          · rw [List.mem_singleton.1 hr]
            exact ⟨id, file.content, item, rfl, hitem, hmem⟩
        · cases hstep
          exact ⟨rfl, by simp⟩

theorem clean_of_mem_steps {track : Track} {step : Text} (hvalid : validateTrack track = true)
    (hmem : step ∈ track.steps) : clean step 80 = true := by
  simp only [validateTrack, Bool.and_eq_true] at hvalid
  obtain ⟨⟨⟨⟨-, hsteps⟩, -⟩, -⟩, -⟩ := hvalid
  exact List.all_eq_true.1 hsteps step hmem

theorem addItem_knows {trackId : Text} {who : TrackWho} {step note sourceSignal id since : Text}
    (hstep : addItem contentRevision dateParses s trackId who step note sourceSignal id since =
      some (t, left)) :
    t = s ∧ ∀ req ∈ left, RequestOk dateParses contentRevision req := by
  unfold addItem at hstep
  split at hstep
  · cases hstep
    exact ⟨rfl, by simp⟩
  · next file hfile =>
    split at hstep
    · cases hstep
      exact ⟨rfl, by simp⟩
    · next track htrack =>
      split at hstep
      next hok =>
        cases hstep
        refine ⟨rfl, ?_⟩
        intro req hreq
        cases hreq
        obtain ⟨hwho, hmem, hnote, hsignal, -, hsince⟩ := hok
        have hclean := clean_of_mem_steps (parseTrack_ok htrack).1 hmem
        exact ⟨⟨hwho, hclean, hsince, hnote, hsignal⟩, file.content, track,
          List.mem_singleton.2 rfl, htrack, hmem⟩
      · cases hstep
        exact ⟨rfl, by simp⟩

theorem moveTracks_knows {move : Move} {ids : List Text} {tracks : List Track}
    (hstep : moveTracks before s move ids tracks = some (t, left)) :
    t = s ∧ ∀ req ∈ left, RequestOk dateParses contentRevision req := by
  unfold moveTracks at hstep
  split at hstep
  · cases hstep
    refine ⟨rfl, ?_⟩
    intro req hreq
    cases hreq
    trivial
  · split at hstep
    · cases hstep
      refine ⟨rfl, ?_⟩
      intro req hreq
      cases hreq
      trivial
    · split at hstep
      · cases hstep
        exact ⟨rfl, by simp⟩
      · cases hstep
        refine ⟨rfl, ?_⟩
        intro req hreq
        cases hreq
        trivial

theorem moveFind_knows {move : Move} {tracks : List Track} {since : Text}
    (hstep : moveFind contentRevision dateParses s move tracks since = some (t, left)) :
    t = s ∧ ∀ req ∈ left, RequestOk dateParses contentRevision req := by
  unfold moveFind at hstep
  split at hstep
  · cases hstep
    exact ⟨rfl, by simp⟩
  · split at hstep
    · cases hstep
      refine ⟨rfl, ?_⟩
      intro req hreq
      cases hreq
      trivial
    · split at hstep
      next hcleans =>
        split at hstep
        · cases hstep
          exact ⟨rfl, by simp⟩
        · next prior hprior =>
          split at hstep
          next hsince =>
            cases hstep
            refine ⟨rfl, ?_⟩
            intro req hreq
            cases hreq
            intro hstep
            exact ⟨(parseItem_ok hprior).1.who, hstep, hsince, hcleans.2.1, hcleans.2.2⟩
          · cases hstep
      · cases hstep
        exact ⟨rfl, by simp⟩

theorem moveParent_knows {next : TrackItem} {rev : Rev}
    (hok : clean next.step 80 = true → ItemOk dateParses next)
    (hstep : moveParent contentRevision s next rev = some (t, left)) :
    t = s ∧ ∀ req ∈ left, RequestOk dateParses contentRevision req := by
  unfold moveParent at hstep
  split at hstep
  · cases hstep
    exact ⟨rfl, by simp⟩
  · next parent hparent =>
    split at hstep
    · cases hstep
      exact ⟨rfl, by simp⟩
    · next track htrack =>
      split at hstep
      next hmem =>
        cases hstep
        refine ⟨rfl, ?_⟩
        intro req hreq
        cases hreq
        have hclean := clean_of_mem_steps (parseTrack_ok htrack).1 hmem
        exact ⟨hok hclean, parent.content, track, List.mem_singleton.2 rfl, htrack, hmem⟩
      · cases hstep
        exact ⟨rfl, by simp⟩

/-! ## Section 3: Writes -/

/-- Every file is listed. -/
structure HomeOk (dateParses : Text → Bool) (s : Store) : Prop where
  safe : TracksSafe dateParses s
  listed : ∀ path file, s.files path = some file → path ∈ s.paths

theorem homeOk_empty : HomeOk dateParses Store.empty := by
  refine ⟨⟨?_, ?_⟩, ?_⟩
  · intro trackId file track hfile
    cases hfile
  · intro path file hfile
    cases hfile
  · intro path file hfile
    cases hfile

theorem put_files_self (path : Path) (file : File) : (s.put path file).files path = some file :=
  Function.update_self ..

theorem put_files_ne {path other : Path} (h : other ≠ path) (file : File) :
    (s.put path file).files other = s.files other :=
  Function.update_of_ne h ..

theorem mem_put_paths (path : Path) (file : File) :
    path ∈ (s.put path file).paths ∧ ∀ other ∈ s.paths, other ∈ (s.put path file).paths := by
  simp only [Store.put]
  split
  next h => exact ⟨h, fun _ hother => hother⟩
  next h => exact ⟨List.mem_cons_self, fun _ hother => List.mem_cons_of_mem _ hother⟩

/-- What is written reads back. -/
theorem readsBack_written {w : Write Rev} (hok : WriteOk dateParses contentRevision w)
    (htrimmed : w.returned.Trimmed) :
    ReadsBack dateParses w.returned.path ⟨w.returned.content, w.returned⟩ := by
  refine ⟨rfl, ?_⟩
  obtain ⟨returned, expected, related⟩ := w
  cases returned with
  | track t => exact parseTrack_trackFields hok.1 htrimmed.1 htrimmed.2
  | item i => exact parseItem_itemFields hok.1 htrimmed

variable [DecidableEq Rev]

/-- The store has the content that the write compares. -/
theorem content_of_accepts {w : Write Rev} {path : Path} {content : Text} {file : File}
    (hrev : Function.Injective contentRevision) (haccepts : s.accepts contentRevision w = true)
    (hmem : (path, some (contentRevision content)) ∈ w.relatedContentRevisions)
    (hfile : s.files path = some file) : file.content = content := by
  have hall := List.all_eq_true.1 (Bool.and_eq_true_iff.1 haccepts).2 _ hmem
  have hsame : s.revisionOf contentRevision path = some (contentRevision content) :=
    of_decide_eq_true hall
  rw [Store.revisionOf, hfile] at hsame
  exact hrev (Option.some.inj hsame)

/-- An item of the written track is compared, or it stays. -/
theorem keepsStep_track {next : Track} {expected : Option Rev}
    {related : List (Path × Option Rev)} {id : Text} {itemFile : File}
    (hrev : Function.Injective contentRevision) (hs : HomeOk dateParses s)
    (hok : WriteOk dateParses contentRevision ⟨.track next, expected, related⟩)
    (haccepts : s.accepts contentRevision ⟨.track next, expected, related⟩ = true)
    (hapart : ∀ path ∈ s.paths,
      path ∈ related.map Prod.fst ∨ s.stays dateParses next path = true)
    (hitem : s.files (.item next.id id) = some itemFile) :
    ∃ item, parseItem dateParses id next.id itemFile.content = .ok item ∧
      item.step ∈ next.steps := by
  rcases hapart _ (hs.listed _ _ hitem) with hcompared | hstays
  · obtain ⟨r, hr, hpath⟩ := List.mem_map.1 hcompared
    obtain ⟨id', content, item, rfl, hparse, hmem⟩ := hok.2 r hr
    cases hpath
    rw [content_of_accepts hrev haccepts hr hitem]
    exact ⟨item, hparse, hmem⟩
  · simp only [Store.stays, hitem, ne_eq, not_true, decide_false, Bool.false_or] at hstays
    split at hstays
    next item hparse => exact ⟨item, hparse, of_decide_eq_true hstays⟩
    · cases hstays

/-- **A write that is accepted keeps the tracks.** -/
theorem write_ok {w : Write Rev} (hrev : Function.Injective contentRevision)
    (hs : HomeOk dateParses s) (hok : WriteOk dateParses contentRevision w)
    (hapart : Apart dateParses contentRevision s (.write w) (some .done)) :
    HomeOk dateParses (s.write contentRevision w) := by
  unfold Store.write
  split
  case isFalse => exact hs
  next haccepts =>
    obtain ⟨htrimmed, hitems⟩ := hapart rfl haccepts
    have hback := readsBack_written hok htrimmed
    refine ⟨⟨?_, ?_⟩, ?_⟩
    · -- Steps: the file that is written may be a track or an item.
      obtain ⟨returned, expected, related⟩ := w
      intro trackId file track hfile htrack id itemFile hitem
      cases returned with
      | track next =>
        rw [put_files_ne (by simp [Returned.path])] at hitem
        by_cases hid : trackId = next.id
        · subst hid
          rw [show Path.track next.id = (Returned.track next).path from rfl,
            put_files_self] at hfile
          cases hfile
          -- A new track: its items were read, and it keeps their steps.
          have hsame : track = next := Except.ok.inj (htrack.symm.trans hback.2)
          rw [hsame]
          exact keepsStep_track hrev hs hok haccepts hitems hitem
        · rw [put_files_ne (by simpa [Returned.path] using hid)] at hfile
          exact hs.safe.steps trackId file track hfile htrack id itemFile hitem
      | item i =>
        rw [put_files_ne (by simp [Returned.path])] at hfile
        by_cases hpath : Path.item trackId id = (Returned.item i).path
        · rw [hpath, put_files_self] at hitem
          cases hitem
          cases hpath
          -- A new item: its track was read, and the write expects it unchanged.
          obtain ⟨-, content, parent, hmem, hparent, hstep⟩ := hok
          rw [content_of_accepts hrev haccepts hmem hfile] at htrack
          have hsame : track = parent := Except.ok.inj (htrack.symm.trans hparent)
          exact ⟨i, hback.2, hsame ▸ hstep⟩
        · rw [put_files_ne hpath] at hitem
          exact hs.safe.steps trackId file track hfile htrack id itemFile hitem
    · intro path file hfile
      by_cases hpath : path = w.returned.path
      · rw [hpath, put_files_self] at hfile
        cases hfile
        exact hpath ▸ hback
      · rw [put_files_ne hpath] at hfile
        exact hs.safe.readsBack path file hfile
    · intro path file hfile
      by_cases hpath : path = w.returned.path
      · exact hpath ▸ (mem_put_paths ..).1
      · rw [put_files_ne hpath] at hfile
        exact (mem_put_paths ..).2 path (hs.listed path file hfile)

/-! ## Section 4: Runs -/

/-- **A step keeps the tracks**, and what the request goes on with has been checked. -/
theorem step_ok {answer : Answer} (hrev : Function.Injective contentRevision)
    (hs : HomeOk dateParses s) (hreq : RequestOk dateParses contentRevision req)
    (hapart : Apart dateParses contentRevision s req (some answer))
    (hstep : step contentRevision dateParses before s req answer = some (t, left)) :
    HomeOk dateParses t ∧ ∀ req ∈ left, RequestOk dateParses contentRevision req := by
  have hquiet : (t = s ∧ ∀ req ∈ left, RequestOk dateParses contentRevision req) →
      HomeOk dateParses t ∧ ∀ req ∈ left, RequestOk dateParses contentRevision req := by
    rintro ⟨rfl, hleft⟩
    exact ⟨hs, hleft⟩
  unfold step at hstep
  split at hstep
  · split at hstep
    · cases hstep
      exact ⟨hs, by simp⟩
    · cases hstep
      refine ⟨hs, ?_⟩
      intro req hreq'
      cases hreq'
      exact ⟨hreq, by simp⟩
  · exact hquiet (setSteps_knows hstep)
  · split at hstep
    · cases hstep
      refine ⟨hs, ?_⟩
      intro req hreq'
      cases hreq'
      exact ⟨hreq, by simp⟩
    · cases hstep
  · exact hquiet (setRead_knows hreq hstep)
  · exact hquiet (addItem_knows hstep)
  · split at hstep
    · cases hstep
      refine ⟨hs, ?_⟩
      intro req hreq'
      cases hreq'
      trivial
    · cases hstep
  · exact hquiet (moveTracks_knows hstep)
  · exact hquiet (moveFind_knows hstep)
  · exact hquiet (moveParent_knows hreq hstep)
  · cases hstep
    exact ⟨write_ok hrev hs hreq hapart, by simp⟩
  · cases hstep

theorem tracks_keeps (hrev : Function.Injective contentRevision) :
    (tracksRequests contentRevision dateParses before).Keeps (Apart dateParses contentRevision)
      (HomeOk dateParses) (fun _ => RequestOk dateParses contentRevision) (fun _ _ => True) where
  refl _ := trivial
  trans _ _ _ _ _ := trivial
  stable _ _ _ _ h := h
  begins s req _ hbegins := by
    cases req with
    | createTrack track => exact hbegins
    | setSteps => trivial
    | addItem => trivial
    | moveItem => trivial
    | _ => cases hbegins
  step s req answer t left hs hreq hapart hstep := by
    obtain ⟨ht, hleft⟩ := step_ok hrev hs hreq hapart hstep
    exact ⟨ht, trivial, hleft⟩
  happens _ event := event.elim

/-- **Every item is on a step of its track**, and every file reads back as what was returned,
    over any interleaving of calls where no item comes in behind `setSteps`. -/
theorem tracks_safe (hrev : Function.Injective contentRevision)
    {s t : Requests.State Store (Request Rev)}
    {labels : List (Requests.Label (Request Rev) Answer Empty)}
    (hinit : (tracksHome contentRevision dateParses before).init s)
    (hapart : (tracksHome contentRevision dateParses before).AllSteps
      (Requests.Meets (Apart dateParses contentRevision)) s labels)
    (hrun : (tracksHome contentRevision dateParses before).run s labels = some t) :
    TracksSafe dateParses t.shared := by
  have hstart : Requests.Inv (HomeOk dateParses)
      (fun _ => RequestOk dateParses contentRevision) s := by
    refine Requests.inv_init ?_ hinit
    intro s hs
    rw [hs]
    exact homeOk_empty
  exact ((tracks_keeps hrev).run hstart hapart hrun).1.1.safe

end Safety

/-! ## Section 5: A track with one item -/

instance (s : Text) : Decidable (Trimmed s) :=
  inferInstanceAs (Decidable (trim s = s))

instance (i : TrackItem) : Decidable i.Trimmed :=
  decidable_of_iff ((∀ id ∈ i.who.personId, Trimmed id) ∧ (∀ id ∈ i.who.organisationId, Trimmed id) ∧
    Trimmed i.step ∧ Trimmed i.note ∧ Trimmed i.sourceSignal)
    ⟨fun ⟨a, b, c, d, e⟩ => ⟨a, b, c, d, e⟩, fun ⟨a, b, c, d, e⟩ => ⟨a, b, c, d, e⟩⟩

instance : ∀ r : Returned, Decidable r.Trimmed
  | .track t => inferInstanceAs (Decidable (Trimmed t.name ∧ Trimmed t.purpose))
  | .item i => inferInstanceAs (Decidable i.Trimmed)

instance {dateParses : Text → Bool} {Rev : Type} [DecidableEq Rev] {contentRevision : Text → Rev}
    (s : Store) : ∀ (req : Request Rev) (answer : Option Answer),
    Decidable (Apart dateParses contentRevision s req answer)
  | .write ⟨.track t, _, related⟩, answer =>
      inferInstanceAs (Decidable (answer.isSome → s.accepts contentRevision _ = true →
        (Returned.track t).Trimmed ∧ ∀ path ∈ s.paths,
          path ∈ related.map Prod.fst ∨ s.stays dateParses t path = true))
  | .write ⟨.item i, _, _⟩, answer =>
      inferInstanceAs (Decidable (answer.isSome → s.accepts contentRevision _ = true →
        (Returned.item i).Trimmed ∧ True))
  | .createTrack _, _ | .setSteps _ _ _, _ | .setList _ _, _ | .setRead _ _ _ _, _
  | .addItem _ _ _ _ _, _ | .moveItem _, _ | .moveTracks _ _ _, _ | .moveFind _ _, _
  | .moveParent _ _, _ => .isTrue fun _ => trivial

/-- Every call at once, with the contents for their revisions. -/
def home : System (Requests.State Store (Request Text))
    (Requests.Label (Request Text) Answer Empty) :=
  tracksHome id (fun _ => true) fun _ _ => true

def nothing : Requests.State Store (Request Text) := ⟨Store.empty, fun _ => none⟩

/-- `New : deal`, with the steps `met` and `won` -/
def deals : Track :=
  ⟨['d'], ['N', 'e', 'w', ' ', ':', ' ', 'd', 'e', 'a', 'l'], ['s', 'e', 'l', 'l'],
    [['m', 'e', 't'], ['w', 'o', 'n']], [['w', 'o', 'n']]⟩

def created : List (Requests.Label (Request Text) Answer Empty) :=
  [.call 0 (.createTrack deals), .step 0 .done, .step 0 .done]

def day : Text := ['2', '0', '2', '6', '-', '0', '9', '-', '0', '1']

/-- `addItem` with the step `met` -/
def added : List (Requests.Label (Request Text) Answer Empty) :=
  [.call 1 (.addItem ['d'] ⟨some ['p'], none⟩ ['m', 'e', 't'] ['n'] ['s']),
    .step 1 (.given ['i'] day), .step 1 .done]

/-- `setSteps` without the step `met`, up to its write -/
def shortened (paths : List Path) : List (Requests.Label (Request Text) Answer Empty) :=
  [.call 2 (.setSteps ['d'] [['w', 'o', 'n']] [['w', 'o', 'n']]), .step 2 .done,
    .step 2 (.listed paths), .step 2 .done]

def files (s : Requests.State Store (Request Text)) (path : Path) : Option Returned :=
  (s.shared.files path).map File.returned

theorem tracks_safe_deals : ∃ t, home.run nothing (created ++ added) = some t ∧
    TracksSafe (fun _ => true) t.shared ∧
    files t (.item ['d'] ['i']) =
      some (.item ⟨['i'], ['d'], ⟨some ['p'], none⟩, ['m', 'e', 't'], day, ['n'], ['s']⟩) := by
  have hinit : home.init nothing := ⟨rfl, fun _ => rfl⟩
  have hrun : home.run nothing (created ++ added) = some _ := rfl
  refine ⟨_, hrun, tracks_safe Function.injective_id hinit ?_ hrun, rfl⟩
  decide +kernel

/-- The item is added between the listing of `setSteps` and its write. -/
theorem item_left_behind : home.init nothing ∧
    ∃ t, home.run nothing
        (created ++ shortened [.track ['d']] ++ added ++ [.step 2 .done]) = some t ∧
      ¬TracksSafe (fun _ => true) t.shared := by
  refine ⟨⟨rfl, fun _ => rfl⟩, _, rfl, ?_⟩
  intro hsafe
  obtain ⟨item, hitem, hmem⟩ :=
    hsafe.steps ['d'] _ { deals with steps := [['w', 'o', 'n']] } rfl rfl ['i'] _ rfl
  have hwritten := hsafe.readsBack (.item ['d'] ['i']) _ rfl
  have hsame : item = ⟨['i'], ['d'], ⟨some ['p'], none⟩, ['m', 'e', 't'], day, ['n'], ['s']⟩ :=
    Except.ok.inj (hitem.symm.trans hwritten.2)
  rw [hsame] at hmem
  revert hmem
  decide

end Lares.Tracks
