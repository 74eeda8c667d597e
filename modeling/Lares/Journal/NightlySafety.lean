import Lares.Journal.NightlyCheck

/-! # The nightly check never freezes a healthy ledger

    * `PcOk`: what the check knows at each point. Suspects are distinct rows
      that are still there, and the checkpoints read so far are the front of
      the recorded ones.
    * `NightInv`: the journal recorded its history, the database has at most
      one checkpoint that the journal lacks, and `PcOk` holds. A step from a
      healthy state keeps it, so no state of a healthy run is a mismatch.
    * `Compared`: without operations, what a check that ends in a match has
      compared is the whole ledger.
-/

namespace Lares.Journal

variable {codec : LedgerCodec}

/-! ## Section 1: Suspects -/

section order

variable {κ : Type} [LinearOrder κ]

/-- No key is after `after`. -/
def AtMost (after : κ) (keys : List κ) : Prop := ∀ k ∈ keys, k ≤ after

theorem AtMost.nil (after : κ) : AtMost after [] := fun _ h => by cases h

/-- Keys up to a point and distinct keys after it are distinct. -/
theorem AtMost.nodup_append {after : κ} {old new : List κ} (hold : AtMost after old)
    (hnew : ∀ k ∈ new, after < k) (hnodup : old.Nodup) (hnodup' : new.Nodup) :
    (old ++ new).Nodup := by
  rw [List.nodup_append]
  refine ⟨hnodup, hnodup', ?_⟩
  intro a ha b hb hab
  subst hab
  exact absurd (hnew a hb) (not_lt.2 (hold a ha))

end order

open Night

/-- The suspects are distinct rows of the database. -/
def SuspectsOk (db : LedgerDatabase) (suspects : List Suspect) : Prop :=
  ∀ table, (idsOf suspects table).Nodup ∧
    ∀ id ∈ idsOf suspects table, ∃ row ∈ db.table table, row.id = id

theorem idsOf_append (xs ys : List Suspect) (table : AtomKind) :
    idsOf (xs ++ ys) table = idsOf xs table ++ idsOf ys table := by
  simp [idsOf]

theorem mem_idsOf {suspects : List Suspect} {table : AtomKind} {id : Id} :
    id ∈ idsOf suspects table ↔ (table, id) ∈ suspects := by
  unfold idsOf
  rw [List.mem_map]
  constructor
  · rintro ⟨suspect, hmem, rfl⟩
    obtain ⟨hsuspect, htable⟩ := List.mem_filter.1 hmem
    rw [← eq_of_beq htable]
    exact hsuspect
  · intro hmem
    exact ⟨(table, id), List.mem_filter.2 ⟨hmem, beq_self_eq_true table⟩, rfl⟩

theorem SuspectsOk.sublist {db : LedgerDatabase} {xs ys : List Suspect} (h : SuspectsOk db ys)
    (hsub : xs.Sublist ys) : SuspectsOk db xs := by
  intro table
  have hids : (idsOf xs table).Sublist (idsOf ys table) := (hsub.filter _).map _
  exact ⟨(h table).1.sublist hids, fun id hid => (h table).2 id (hids.subset hid)⟩

/-- A loop over a page adds some of its rows to the suspects, and the rest matched. -/
theorem visitRows_spec (same : LedgerRow → Bool) (page : List LedgerRow) (suspects : List Suspect) :
    ∃ extra, (visitRows same page suspects).1 = suspects ++ extra ∧
      extra.Sublist (page.map fun row => (row.kind, row.id)) ∧
      ((visitRows same page suspects).2 = true →
        ∀ row ∈ page, same row = true ∨ (row.kind, row.id) ∈ (visitRows same page suspects).1) := by
  induction page generalizing suspects with
  | nil => exact ⟨[], by simp [visitRows], List.Sublist.refl _, fun _ _ h => by cases h⟩
  | cons row page ih =>
    unfold visitRows
    dsimp only
    by_cases hsame : same row = true
    · rw [if_pos hsame]
      split
      · obtain ⟨extra, heq, hsub, hall⟩ := ih suspects
        refine ⟨extra, heq, hsub.cons _, fun hgo other hother => ?_⟩
        rcases List.mem_cons.1 hother with rfl | hrest
        · exact .inl hsame
        · exact hall hgo other hrest
      · exact ⟨[], by simp, List.nil_sublist _, fun h => by cases h⟩
    · rw [if_neg hsame]
      split
      · obtain ⟨extra, heq, hsub, hall⟩ := ih (suspects ++ [(row.kind, row.id)])
        refine ⟨(row.kind, row.id) :: extra, by rw [heq]; simp, hsub.cons_cons _,
          fun hgo other hother => ?_⟩
        rcases List.mem_cons.1 hother with rfl | hrest
        · right
          rw [heq]
          simp
        · exact hall hgo other hrest
      · refine ⟨[(row.kind, row.id)], rfl, ?_, fun h => by cases h⟩
        exact (List.nil_sublist _).cons_cons _

/-- Distinct rows that are there are found, each once. -/
theorem select_length {db : LedgerDatabase} {table : AtomKind} {ids : List Id} (hnodup : ids.Nodup)
    (hpresent : ∀ id ∈ ids, ∃ row ∈ db.table table, row.id = id) :
    (select db table ids).length = ids.length := by
  have hfound : ((select db table ids).map LedgerRow.id).Nodup :=
    (db.table_nodup table).sublist (List.filter_sublist.map _)
  have hperm : ((select db table ids).map LedgerRow.id).Perm ids := by
    rw [List.perm_ext_iff_of_nodup hfound hnodup]
    intro id
    rw [List.mem_map]
    constructor
    · rintro ⟨row, hrow, rfl⟩
      simpa using (List.mem_filter.1 hrow).2
    · intro hid
      obtain ⟨row, hrow, rfl⟩ := hpresent id hid
      exact ⟨row, List.mem_filter.2 ⟨hrow, by simpa using hid⟩, rfl⟩
  have := hperm.length_eq
  rwa [List.length_map] at this

/-- In a database that holds the fold, every suspect is cleared. -/
theorem chunkMatches_of_holds (hcodec : codec.toCodec.Lawful) (hfree : codec.toCodec.CollisionFree)
    {s : Night} {ledger : Ledger} {checkpoints : List FinancialCheckpoint}
    (h : Recorded codec s.journal ledger checkpoints) (hholds : Holds codec s.db ledger checkpoints)
    {chunk : List Suspect} (hchunk : SuspectsOk s.db chunk) : s.chunkMatches codec chunk = true := by
  unfold chunkMatches
  rw [List.all_eq_true]
  intro table _
  obtain ⟨hnodup, hpresent⟩ := hchunk table
  dsimp only
  rw [Bool.or_eq_true, Bool.and_eq_true, beq_iff_eq, List.all_eq_true]
  right
  refine ⟨select_length hnodup hpresent, ?_⟩
  intro row hrow
  exact (rowMatches_iff hcodec hfree h row).2
    (hholds.nothingElse table row (List.mem_filter.1 hrow).1)

/-! ## Section 2: What the check knows -/

/-- The snapshot is of a front of the recorded checkpoints. -/
def SnapshotOk (recorded : List FinancialCheckpoint) (codec : LedgerCodec) (snapshot : Nat × Hash) :
    Prop :=
  ∃ front, front <+: recorded ∧ snapshot = (front.length, codec.rollingOf front)

/-- `read` of the snapshot's checkpoints have been read, up to `sequence`. -/
def ReadingOk (recorded : List FinancialCheckpoint) (codec : LedgerCodec) (digest : Hash)
    (sequence : Nat) (rolling : Hash) (left : Nat) : Prop :=
  ∃ read todo, (read ++ todo) <+: recorded ∧ digest = codec.rollingOf (read ++ todo) ∧
    rolling = codec.rollingOf read ∧ left = todo.length ∧
    ((read = [] ∧ sequence = 0) ∨ ∃ last, read.getLast? = some last ∧ sequence = last.sequence)

/-- What holds where the check stands. -/
def PcOk (codec : LedgerCodec) (db : LedgerDatabase) (recorded : List FinancialCheckpoint)
    (snapshot : Nat × Hash) : CheckPc → Prop
  | .idle => True
  | .walk table tables after suspects =>
      SnapshotOk recorded codec snapshot ∧ SuspectsOk db suspects ∧ (table :: tables).Nodup ∧
        AtMost after (idsOf suspects table) ∧ ∀ later ∈ tables, idsOf suspects later = []
  | .visit table tables page last suspects =>
      SnapshotOk recorded codec snapshot ∧ SuspectsOk db suspects ∧ (table :: tables).Nodup ∧
        (∀ later ∈ tables, idsOf suspects later = []) ∧
        (idsOf suspects table ++ page.map LedgerRow.id).Nodup ∧
        AtMost last.id (idsOf suspects table ++ page.map LedgerRow.id) ∧
        ∀ row ∈ page, row.kind = table ∧ ∃ row' ∈ db.table table, row'.id = row.id
  | .checkpoints _ suspects sequence rolling left =>
      SuspectsOk db suspects ∧ left ≠ 0 ∧ ReadingOk recorded codec snapshot.2 sequence rolling left
  | .recheck _ checkpoints suspects => checkpoints = true ∧ SuspectsOk db suspects
  | .rechecking _ checkpoints chunk rest =>
      checkpoints = true ∧ SuspectsOk db chunk ∧ SuspectsOk db rest
  | .differs => False
  | .final checkpoints => checkpoints = true
  | .counting checkpoints => checkpoints = true
  | .done result => result ≠ .mismatch

theorem PcOk.recheckPc {db : LedgerDatabase} {recorded : List FinancialCheckpoint}
    {snapshot : Nat × Hash} {suspects : List Suspect} (walked : Bool) (h : SuspectsOk db suspects) :
    PcOk codec db recorded snapshot (Night.recheckPc walked true suspects) := by
  unfold Night.recheckPc
  split
  · split
    · exact rfl
    · exact nofun
  · exact ⟨rfl, h⟩

theorem PcOk.checkpointsPc {db : LedgerDatabase} {recorded : List FinancialCheckpoint}
    {snapshot : Nat × Hash} {suspects : List Suspect} {sequence left : Nat} {rolling : Hash}
    (walked : Bool) (h : SuspectsOk db suspects)
    (hread : ReadingOk recorded codec snapshot.2 sequence rolling left) :
    PcOk codec db recorded snapshot
      (Night.checkpointsPc walked suspects snapshot.2 sequence rolling left) := by
  unfold Night.checkpointsPc
  split
  · next hleft =>
    -- nothing is left, so what was read has the digest of the snapshot
    obtain ⟨read, todo, -, hdigest, hrolling, hlen, -⟩ := hread
    have htodo : todo = [] := List.length_eq_zero_iff.1 (hlen.symm.trans hleft)
    rw [htodo, List.append_nil] at hdigest
    rw [hdigest, hrolling, beq_self_eq_true]
    exact PcOk.recheckPc walked h
  · next hleft => exact ⟨h, hleft, hread⟩

theorem SnapshotOk.reading {recorded : List FinancialCheckpoint} {snapshot : Nat × Hash}
    (h : SnapshotOk recorded codec snapshot) :
    ReadingOk recorded codec snapshot.2 0 zero snapshot.1 := by
  obtain ⟨front, hstarts, rfl⟩ := h
  exact ⟨[], front, hstarts, rfl, rfl, rfl, .inl ⟨rfl, rfl⟩⟩

theorem PcOk.walkPc {db : LedgerDatabase} {recorded : List FinancialCheckpoint}
    {snapshot : Nat × Hash} {suspects : List Suspect} {tables : List AtomKind}
    (hsnapshot : SnapshotOk recorded codec snapshot) (h : SuspectsOk db suspects)
    (hnodup : tables.Nodup) (hlater : ∀ later ∈ tables, idsOf suspects later = []) :
    PcOk codec db recorded snapshot (Night.walkPc snapshot tables suspects) := by
  cases tables with
  | nil => exact PcOk.checkpointsPc true h hsnapshot.reading
  | cons table tables =>
    refine ⟨hsnapshot, h, hnodup, ?_, fun later hmem => hlater later (List.mem_cons_of_mem _ hmem)⟩
    rw [hlater table List.mem_cons_self]
    exact AtMost.nil _

/-- Rows that stay and checkpoints that are added change nothing the check knows. -/
theorem PcOk.mono {db db' : LedgerDatabase} {recorded recorded' : List FinancialCheckpoint}
    {snapshot : Nat × Hash} {pc : CheckPc}
    (hdb : ∀ table, ∀ row ∈ db.table table, ∃ row' ∈ db'.table table, row'.id = row.id)
    (hrecorded : recorded <+: recorded') (h : PcOk codec db recorded snapshot pc) :
    PcOk codec db' recorded' snapshot pc := by
  have hsuspects : ∀ {suspects}, SuspectsOk db suspects → SuspectsOk db' suspects := by
    intro suspects hok table
    refine ⟨(hok table).1, fun id hid => ?_⟩
    obtain ⟨row, hrow, rfl⟩ := (hok table).2 id hid
    exact hdb table row hrow
  have hsnapshot : SnapshotOk recorded codec snapshot → SnapshotOk recorded' codec snapshot := by
    rintro ⟨front, hstarts, heq⟩
    exact ⟨front, hstarts.trans hrecorded, heq⟩
  cases pc with
  | idle => exact h
  | walk table tables after suspects =>
    obtain ⟨hs, hok, hrest⟩ := h
    exact ⟨hsnapshot hs, hsuspects hok, hrest⟩
  | visit table tables page last suspects =>
    obtain ⟨hs, hok, hnodup, hlater, hids, hmost, hpage⟩ := h
    refine ⟨hsnapshot hs, hsuspects hok, hnodup, hlater, hids, hmost, fun row hrow => ?_⟩
    obtain ⟨hkind, row', hrow', hid⟩ := hpage row hrow
    obtain ⟨row'', hrow'', hid'⟩ := hdb table row' hrow'
    exact ⟨hkind, row'', hrow'', hid'.trans hid⟩
  | checkpoints walked suspects sequence rolling left =>
    obtain ⟨hok, hleft, read, todo, hstarts, hrest⟩ := h
    exact ⟨hsuspects hok, hleft, read, todo, hstarts.trans hrecorded, hrest⟩
  | recheck walked checkpoints suspects => exact ⟨h.1, hsuspects h.2⟩
  | rechecking walked checkpoints chunk rest => exact ⟨h.1, hsuspects h.2.1, hsuspects h.2.2⟩
  | differs => exact h
  | final checkpoints => exact h
  | counting checkpoints => exact h
  | done result => exact h

/-! ## Section 3: The check's own steps -/

theorem idsOf_rows {page : List LedgerRow} {table : AtomKind} (h : ∀ row ∈ page, row.kind = table)
    (other : AtomKind) : idsOf (page.map fun row => (row.kind, row.id)) other =
      if other = table then page.map LedgerRow.id else [] := by
  induction page with
  | nil => simp [idsOf]
  | cons row page ih =>
    have hrow := h row List.mem_cons_self
    have hrest := ih fun r hr => h r (List.mem_cons_of_mem _ hr)
    unfold idsOf at hrest ⊢
    rw [List.map_cons, List.filter_cons, hrow]
    by_cases hother : other = table
    · subst hother
      rw [if_pos rfl] at hrest ⊢
      simp [hrest]
    · rw [if_neg hother] at hrest ⊢
      rw [if_neg (by simpa using fun h => hother h.symm)]
      exact hrest

/-- Comparing a page keeps the suspects distinct and in place. -/
theorem PcOk.visited {db : LedgerDatabase} {recorded : List FinancialCheckpoint}
    {snapshot : Nat × Hash} {table : AtomKind} {tables : List AtomKind} {page : List LedgerRow}
    {last : LedgerRow} {suspects : List Suspect} (same : LedgerRow → Bool)
    (h : PcOk codec db recorded snapshot (.visit table tables page last suspects)) :
    SuspectsOk db (visitRows same page suspects).1 ∧
      AtMost last.id (idsOf (visitRows same page suspects).1 table) ∧
      ∀ later ∈ tables, idsOf (visitRows same page suspects).1 later = [] := by
  obtain ⟨-, hok, hnodup, hlater, hids, hmost, hpage⟩ := h
  obtain ⟨extra, heq, hsub, -⟩ := visitRows_spec same page suspects
  have hextra : ∀ other, (idsOf extra other).Sublist
      (if other = table then page.map LedgerRow.id else []) := by
    intro other
    rw [← idsOf_rows (fun row hrow => (hpage row hrow).1) other]
    exact (hsub.filter _).map _
  rw [heq]
  refine ⟨?_, ?_, ?_⟩
  · intro other
    rw [idsOf_append]
    have hsubOther := hextra other
    by_cases hother : other = table
    · subst hother
      rw [if_pos rfl] at hsubOther
      refine ⟨hids.sublist (hsubOther.append_left _), fun id hid => ?_⟩
      rcases List.mem_append.1 hid with hold | hnew
      · exact (hok other).2 id hold
      · obtain ⟨row, hrow, rfl⟩ := List.mem_map.1 (hsubOther.subset hnew)
        exact (hpage row hrow).2
    · rw [if_neg hother] at hsubOther
      rw [List.sublist_nil.1 hsubOther, List.append_nil]
      exact hok other
  · have hsubTable := hextra table
    rw [if_pos rfl] at hsubTable
    intro id hid
    rw [idsOf_append] at hid
    exact hmost id ((hsubTable.append_left _).subset hid)
  · intro later hmem
    have hne : later ≠ table := by
      intro heq
      rw [heq] at hmem
      exact (List.nodup_cons.1 hnodup).1 hmem
    have hsubLater := hextra later
    rw [if_neg hne] at hsubLater
    rw [idsOf_append, List.sublist_nil.1 hsubLater, hlater later hmem]
    rfl

/-- A page that arrives has new rows of its table. -/
theorem PcOk.paged {db : LedgerDatabase} {recorded : List FinancialCheckpoint}
    {snapshot : Nat × Hash} {table : AtomKind} {tables : List AtomKind} {after : Id}
    {last : LedgerRow} {suspects : List Suspect} {limit : Nat}
    (h : PcOk codec db recorded snapshot (.walk table tables after suspects))
    (hlast : (Pages.page LedgerRow.id (db.table table) after limit).getLast? = some last) :
    PcOk codec db recorded snapshot (.visit table tables
      (Pages.page LedgerRow.id (db.table table) after limit) last suspects) := by
  obtain ⟨hsnapshot, hok, hnodup, hmost, hlater⟩ := h
  have hpage : Pages.IsPage LedgerRow.id (db.table table) after limit
      (Pages.page LedgerRow.id (db.table table) after limit) := Pages.page_isPage
  generalize Pages.page LedgerRow.id (db.table table) after limit = page at *
  obtain ⟨left, hperm, hsorted, -⟩ := hpage.split
  have hids : (page.map LedgerRow.id).Nodup := by
    have hall : ((page ++ left).map LedgerRow.id).Nodup :=
      (hperm.map _).nodup_iff.2 ((db.table_nodup table).sublist (List.filter_sublist.map _))
    rw [List.map_append] at hall
    exact (List.nodup_append.1 hall).1
  have hnew : ∀ id ∈ page.map LedgerRow.id, after < id := by
    intro id hid
    obtain ⟨row, hrow, rfl⟩ := List.mem_map.1 hid
    exact (hpage.mem hrow).2
  refine ⟨hsnapshot, hok, hnodup, hlater, hmost.nodup_append hnew (hok table).1 hids, ?_, ?_⟩
  · intro id hid
    rcases List.mem_append.1 hid with hold | hrow
    · have hlastRow : after < last.id := (hpage.mem (List.mem_of_getLast? hlast)).2
      exact (hmost id hold).trans hlastRow.le
    · obtain ⟨row, hmem, rfl⟩ := List.mem_map.1 hrow
      exact Pages.le_last hsorted hlast row hmem
  · intro row hrow
    have hmem := (hpage.mem hrow).1
    exact ⟨LedgerDatabase.table_kind hmem, row, hmem, rfl⟩

/-- The recorded checkpoints and one more are the database's, in order. -/
theorem increasing_pending {s : Committed} {ledger : Ledger}
    {recorded : List FinancialCheckpoint} {pending : Option FinancialCheckpoint}
    (h : Recorded codec s ledger recorded) (hpending : ∀ row ∈ pending, s.sequence ≤ row.sequence) :
    (recorded ++ pending.toList).Pairwise fun a b => a.sequence < b.sequence := by
  rw [List.pairwise_append]
  refine ⟨h.increasing, ?_, ?_⟩
  · cases pending with
    | none => exact List.Pairwise.nil
    | some row => exact List.pairwise_singleton _ _
  · intro a ha b hb
    have hb' : b ∈ pending := by simpa using hb
    exact lt_of_lt_of_le (h.before a ha) (hpending b hb')

/-- **Checkpoints**: what is read next is the next part of the snapshot. -/
theorem ReadingOk.step {s : Committed} {ledger : Ledger} {recorded sorted rows :
      List FinancialCheckpoint} {pending : Option FinancialCheckpoint} {digest rolling : Hash}
    {sequence left : Nat} (hs : Recorded codec s ledger recorded)
    (hpending : ∀ row ∈ pending, s.sequence ≤ row.sequence)
    (hrows : rows.Perm (recorded ++ pending.toList))
    (h : ReadingOk recorded codec digest sequence rolling left) (hleft : left ≠ 0)
    (hperm : sorted.Perm (Pages.rest FinancialCheckpoint.sequence rows sequence))
    (hsorted : sorted.Pairwise fun a b => a.sequence ≤ b.sequence) :
    ∃ last, (sorted.take (min WHOLE_LEDGER_BATCH left)).getLast? = some last ∧
      ∃ rolled, rollPage codec rolling (sorted.take (min WHOLE_LEDGER_BATCH left)) = some rolled ∧
        ReadingOk recorded codec digest last.sequence rolled
          (left - (sorted.take (min WHOLE_LEDGER_BATCH left)).length) := by
  obtain ⟨read, todo, ⟨later, hsplit⟩, hdigest, hrolling, hlen, hplace⟩ := h
  have hincreasing := increasing_pending hs hpending
  have hshape : recorded ++ pending.toList = read ++ (todo ++ (later ++ pending.toList)) := by
    rw [← hsplit]
    simp
  rw [hshape] at hrows hincreasing
  generalize later ++ pending.toList = tail at *
  -- what has not been read comes after the sequence, what has been read does not
  have hafter : ∀ row ∈ todo ++ tail, sequence < row.sequence := by
    intro row hrow
    rcases hplace with ⟨rfl, rfl⟩ | ⟨last, hlast, rfl⟩
    · have hmem : row ∈ recorded ++ pending.toList := by
        rw [hshape]
        exact hrow
      rcases List.mem_append.1 hmem with hrecorded | hpend
      · exact (acceptsCheckpoint_sequence (hs.checked row hrecorded)).1
      · have hle := hpending row (by simpa using hpend)
        have hpositive : 0 < todo.length := by omega
        have hfirst := hs.before _ (hsplit ▸ List.mem_append_left later
          (List.mem_append_right [] (List.getElem_mem hpositive)))
        omega
    · exact (List.pairwise_append.1 hincreasing).2.2 last (List.mem_of_getLast? hlast) row hrow
  have hback : Pages.rest FinancialCheckpoint.sequence read sequence = [] := by
    unfold Pages.rest
    rw [List.filter_eq_nil_iff]
    intro row hrow
    rw [decide_eq_true_eq, not_lt]
    rcases hplace with ⟨rfl, rfl⟩ | ⟨last, hlast, rfl⟩
    · cases hrow
    · have hread : (read ++ []).Pairwise fun a b : FinancialCheckpoint =>
          a.sequence ≤ b.sequence := by
        rw [List.append_nil]
        exact (List.pairwise_append.1 hincreasing).1.imp fun h => h.le
      exact Pages.le_last hread hlast row hrow
  have hrest : (todo ++ tail).Perm (Pages.rest FinancialCheckpoint.sequence rows sequence) := by
    have hall : Pages.rest FinancialCheckpoint.sequence (read ++ (todo ++ tail)) sequence =
        todo ++ tail := by
      show List.filter _ _ = _
      rw [List.filter_append]
      show Pages.rest FinancialCheckpoint.sequence read sequence ++
        Pages.rest FinancialCheckpoint.sequence (todo ++ tail) sequence = _
      rw [hback, Pages.rest_eq_self hafter, List.nil_append]
    have hpages : (Pages.rest FinancialCheckpoint.sequence rows sequence).Perm
        (Pages.rest FinancialCheckpoint.sequence (read ++ (todo ++ tail)) sequence) :=
      Pages.rest_perm hrows
    rw [hall] at hpages
    exact hpages.symm
  have hpage : sorted.take (min WHOLE_LEDGER_BATCH left) =
      todo.take (min WHOLE_LEDGER_BATCH left) := by
    have htake : sorted.take (min WHOLE_LEDGER_BATCH left) =
        (todo ++ tail).take (min WHOLE_LEDGER_BATCH left) :=
      Pages.IsPage.eq_take ⟨sorted, hperm, hsorted, rfl⟩ hrest
        (List.pairwise_append.1 hincreasing).2.1
    rw [htake, List.take_append_of_le_length (by omega)]
  rw [hpage]
  have hsize : 0 < min WHOLE_LEDGER_BATCH left := by
    unfold WHOLE_LEDGER_BATCH
    omega
  generalize min WHOLE_LEDGER_BATCH left = m at *
  have haccepted : ∀ row ∈ todo.take m, codec.acceptsCheckpoint row = true := by
    intro row hrow
    apply hs.checked row
    rw [← hsplit]
    exact List.mem_append_left _ (List.mem_append_right _ (List.mem_of_mem_take hrow))
  cases hlast : (todo.take m).getLast? with
  | none =>
    have hnil := congrArg List.length (List.getLast?_eq_none_iff.1 hlast)
    rw [List.length_take, List.length_nil] at hnil
    omega
  | some last =>
    refine ⟨last, rfl, _, rollPage_some.2 ⟨haccepted, rfl⟩, read ++ todo.take m, todo.drop m,
      ⟨later, ?_⟩, ?_, ?_, ?_, .inr ⟨last, ?_, rfl⟩⟩
    · rw [List.append_assoc read, List.take_append_drop]
      exact hsplit
    · rw [List.append_assoc, List.take_append_drop]
      exact hdigest
    · rw [hrolling]
      unfold Codec.rollingOf
      rw [List.foldl_append]
    · rw [List.length_take, List.length_drop]
      omega
    · rw [List.getLast?_append, hlast]
      rfl

/-! ## Section 4: The invariant -/

/-- The checkpoints that the journal has recorded. -/
def Night.recorded (s : Night) : List FinancialCheckpoint :=
  checkpointsOf s.journal.journalId s.history

/-- The check holds the barrier at these points. -/
def CheckPc.inside : CheckPc → Bool
  | .rechecking .. => true
  | .counting _ => true
  | _ => false

/-- The invariant of a healthy night. -/
structure NightInv (codec : LedgerCodec) (s : Night) : Prop where
  /-- The journal is what its history makes it. -/
  run : (Committed.system codec s.journal.journalId).run (Committed.start s.journal.journalId)
    s.history = some s.journal
  /-- The table holds the checkpoints of the journal, and perhaps the one that is being written. -/
  book : ∃ pending : Option FinancialCheckpoint,
    s.db.checkpoints.rows.Perm (s.recorded ++ pending.toList) ∧
      (∀ row ∈ pending, s.journal.sequence ≤ row.sequence) ∧
      ∀ held, s.barrier = .operation held → held = pending
  /-- While the check holds the barrier, nothing is half written. -/
  held : s.barrier = .check → s.databaseMatches = true ∧
    Holds codec s.db (ledgerOf s.history) s.recorded
  /-- The check compares only while it holds the barrier. -/
  inside : s.pc.inside = true → s.barrier = .check
  /-- What was compared so far agrees. -/
  pc : PcOk codec s.db s.recorded s.snapshot s.pc

theorem NightInv.recorded {s : Night} (h : NightInv codec s) :
    Recorded codec s.journal (ledgerOf s.history) s.recorded := recorded_run h.run

theorem recheckPc_inside (walked checkpoints : Bool) (suspects : List Suspect) :
    (Night.recheckPc walked checkpoints suspects).inside = false := by
  unfold Night.recheckPc
  split
  · split <;> rfl
  · rfl

theorem checkpointsPc_inside (walked : Bool) (suspects : List Suspect) (digest : Hash)
    (sequence : Nat) (rolling : Hash) (left : Nat) :
    (Night.checkpointsPc walked suspects digest sequence rolling left).inside = false := by
  unfold Night.checkpointsPc
  split
  · exact recheckPc_inside _ _ _
  · rfl

theorem walkPc_inside (snapshot : Nat × Hash) (tables : List AtomKind) (suspects : List Suspect) :
    (Night.walkPc snapshot tables suspects).inside = false := by
  cases tables with
  | nil => exact checkpointsPc_inside _ _ _ _ _ _
  | cons table tables => rfl

/-- A step of the check outside the barrier changes where it stands, and nothing else. -/
theorem NightInv.move {s : Night} (h : NightInv codec s) {pc : CheckPc} (hinside : pc.inside = false)
    (hpc : PcOk codec s.db s.recorded s.snapshot pc) : NightInv codec { s with pc := pc } where
  run := h.run
  book := h.book
  held := h.held
  inside hin := by
    rw [hinside] at hin
    cases hin
  pc := hpc

/-- A healthy database has the recorded checkpoints and no other. -/
theorem Holds.checkpoints_perm {s : Night} (h : NightInv codec s)
    (hholds : Holds codec s.db (ledgerOf s.history) s.recorded) :
    s.db.checkpoints.rows.Perm s.recorded :=
  (checkpointsInOrder_eq_iff h.recorded.increasing).1 hholds.checkpoints

/-- With every checkpoint recorded, an operation that holds the barrier has inserted none. -/
theorem book_recorded {rows recorded : List FinancialCheckpoint} {sequence : Nat} {barrier : Barrier}
    (hperm : rows.Perm recorded) (hbarrier : ∀ held, barrier = .operation held → held = none) :
    ∃ pending : Option FinancialCheckpoint, rows.Perm (recorded ++ pending.toList) ∧
      (∀ row ∈ pending, sequence ≤ row.sequence) ∧
      ∀ held, barrier = .operation held → held = pending := by
  refine ⟨none, ?_, ?_, hbarrier⟩
  · simpa using hperm
  · intro row hrow
    cases hrow

/-- The barrier is let go, or was not the check's. -/
theorem released_ne_check (s : Night) : s.released ≠ .check := by
  unfold Night.released
  split
  · exact nofun
  · next h => exact h

/-- The check leaves the barrier and goes on. -/
theorem NightInv.release {s : Night} (h : NightInv codec s) {pc : CheckPc} {frozen unavailable : Bool}
    (hinside : pc.inside = false) (hpc : PcOk codec s.db s.recorded s.snapshot pc) :
    NightInv codec { s with
      barrier := s.released, frozen := frozen, unavailable := unavailable, pc := pc } where
  run := h.run
  book := by
    obtain ⟨pending, hperm, hsequence, hheld⟩ := h.book
    refine ⟨pending, hperm, hsequence, fun held hbarrier => hheld held ?_⟩
    have hsame : s.released = .operation held := hbarrier
    unfold Night.released at hsame
    split at hsame
    · cases hsame
    · exact hsame
  held hcheck := absurd hcheck (released_ne_check s)
  inside hin := by
    rw [hinside] at hin
    cases hin
  pc := hpc

/-- What is recorded only grows. -/
theorem NightInv.record {s : Night} (h : NightInv codec s) {step : CommitStep} {journal : Committed}
    (hnext : s.journal.next codec step = some journal) :
    (Committed.system codec journal.journalId).run (Committed.start journal.journalId)
        (s.history ++ [step]) = some journal ∧
      checkpointsOf journal.journalId (s.history ++ [step]) =
        s.recorded ++ checkpointsFrom s.journal.journalId s.journal.sequence [step] := by
  obtain ⟨hid, -⟩ := Committed.next_sequence hnext
  rw [hid]
  refine ⟨(System.run_snoc _).2 ⟨s.journal, h.run, hnext⟩, ?_⟩
  exact (Committed.run_sequence h.run).2 [step]

theorem NightInv.step_begin {s t : Night} (h : NightInv codec s) (hhealthy : s.Healthy codec)
    (hstep : s.next codec .begin = some t) : NightInv codec t := by
  simp only [Night.next] at hstep
  split at hstep
  · next hok =>
    cases hstep
    have hperm := (hhealthy hok.1).2.checkpoints_perm h
    refine ⟨h.run, book_recorded hperm ?_, (by intro h; cases h), ?_, h.pc⟩
    · intro held heq
      cases heq
      rfl
    · intro hin
      have := h.inside hin
      rw [hok.1] at this
      cases this
  · cases hstep

theorem NightInv.step_change {s t : Night} {db checkpoint} (h : NightInv codec s)
    (hstep : s.next codec (.change db checkpoint) = some t) : NightInv codec t := by
  simp only [Night.next] at hstep
  split at hstep
  · next pending hbarrier =>
    split at hstep
    · next hok =>
      cases hstep
      obtain ⟨hgrows, honce, hsequence⟩ := hok
      obtain ⟨known, hperm, hknown, hheld⟩ := h.book
      obtain rfl := hheld pending hbarrier
      obtain ⟨hrows, hcheckpoints⟩ := Bool.and_eq_true_iff.1 hgrows
      have hcheckpoints := of_decide_eq_true hcheckpoints
      have hrows : ∀ table, ∀ row ∈ s.db.table table, ∃ row' ∈ db.table table, row'.id = row.id := by
        intro table row hrow
        have hmem : table ∈ FINANCIAL_TABLES := by
          cases table with
          | tombstone => cases hrow
          | _ => decide
        have := List.all_eq_true.1 (List.all_eq_true.1 hrows table hmem) row hrow
        simpa using this
      refine ⟨h.run, ⟨checkpoint.or pending, ?_, ?_, ?_⟩, (by intro h; cases h), ?_,
        h.pc.mono hrows (List.prefix_refl _)⟩
      · refine hcheckpoints.trans ((hperm.append_right _).trans ?_)
        cases checkpoint with
        | none => exact List.Perm.of_eq (List.append_nil _)
        | some row =>
          rw [honce rfl, Option.toList_none, List.append_nil]
          exact List.Perm.refl _
      · intro row hrow
        cases checkpoint with
        | none => exact hknown row hrow
        | some new => exact hsequence row hrow
      · intro held heq
        cases heq
        rfl
      · intro hin
        have := h.inside hin
        rw [hbarrier] at this
        cases this
    · cases hstep
  · cases hstep

theorem NightInv.step_record {s t : Night} {skip operationId digest operation atoms}
    (h : NightInv codec s)
    (hstep : s.next codec (.record skip operationId digest operation atoms) = some t) :
    NightInv codec t := by
  simp only [Night.next] at hstep
  split at hstep
  · next hbarrier =>
    obtain ⟨journal, hnext, rfl⟩ := Option.map_eq_some_iff.1 hstep
    obtain ⟨hrun, hsplit⟩ := h.record hnext
    obtain ⟨pending, hperm, hknown, hheld⟩ := h.book
    obtain rfl := hheld _ hbarrier
    have hrecorded : s.db.checkpoints.rows.Perm (checkpointsOf journal.journalId
        (s.history ++ [.commit skip operationId digest operation atoms])) := by
      rw [hsplit]
      exact hperm
    refine ⟨hrun, book_recorded hrecorded ?_, (by intro h; cases h), ?_, ?_⟩
    · intro held heq
      cases heq
      rfl
    · intro hin
      have := h.inside hin
      rw [hbarrier] at this
      cases this
    · apply h.pc.mono fun table row hrow => ⟨row, hrow, rfl⟩
      show s.recorded <+: checkpointsOf journal.journalId _
      rw [hsplit]
      exact List.prefix_append _ _
  · cases hstep

theorem NightInv.step_finish {s t : Night} (h : NightInv codec s)
    (hstep : s.next codec .finish = some t) : NightInv codec t := by
  simp only [Night.next] at hstep
  split at hstep
  · next pending hbarrier =>
    cases hstep
    obtain ⟨known, hperm, hknown, -⟩ := h.book
    refine ⟨h.run, ⟨known, hperm, hknown, (by intro _ h; cases h)⟩, (by intro h; cases h), ?_, h.pc⟩
    intro hin
    have := h.inside hin
    rw [hbarrier] at this
    cases this
  · cases hstep

theorem NightInv.step_summarise {s t : Night} {now} (h : NightInv codec s)
    (hstep : s.next codec (.summarise now) = some t) : NightInv codec t := by
  obtain ⟨journal, hnext, rfl⟩ := Option.map_eq_some_iff.1 hstep
  obtain ⟨hrun, hsplit⟩ := h.record hnext
  have hsame : checkpointsOf journal.journalId (s.history ++ [.summarise now]) = s.recorded := by
    rw [hsplit]
    exact List.append_nil _
  have hsequence : journal.sequence = s.journal.sequence := by
    simp only [Committed.next] at hnext
    split at hnext
    · cases hnext
      rfl
    · cases hnext
  have hledger : ledgerOf (s.history ++ [.summarise now]) = ledgerOf s.history := by
    unfold ledgerOf
    rw [List.foldl_append]
    rfl
  refine ⟨hrun, ?_, ?_, h.inside, ?_⟩
  · obtain ⟨pending, hperm, hknown, hheld⟩ := h.book
    refine ⟨pending, ?_, ?_, hheld⟩
    · show s.db.checkpoints.rows.Perm (checkpointsOf journal.journalId _ ++ _)
      rw [hsame]
      exact hperm
    · intro row hrow
      rw [hsequence]
      exact hknown row hrow
  · intro hcheck
    refine ⟨(h.held hcheck).1, ?_⟩
    show Holds codec s.db (ledgerOf _) (checkpointsOf journal.journalId _)
    rw [hsame, hledger]
    exact (h.held hcheck).2
  · show PcOk codec s.db (checkpointsOf journal.journalId _) s.snapshot s.pc
    rw [hsame]
    exact h.pc

theorem NightInv.step_startCheck {s t : Night} (h : NightInv codec s)
    (hstep : s.next codec .startCheck = some t) : NightInv codec t := by
  simp only [Night.next] at hstep
  split at hstep
  · split at hstep
    · cases hstep
      exact h.move rfl (by intro h; cases h)
    · cases hstep
      have hpc : PcOk codec s.db s.recorded
          (s.journal.trail.checkpointCount, s.journal.trail.checkpointDigest)
          (Night.walkPc (s.journal.trail.checkpointCount, s.journal.trail.checkpointDigest)
            FINANCIAL_TABLES []) := by
        apply PcOk.walkPc
        · refine ⟨s.recorded, List.prefix_refl _, ?_⟩
          rw [h.recorded.count, h.recorded.rolling]
        · intro table
          exact ⟨List.nodup_nil, (by intro _ h; cases h)⟩
        · decide
        · exact fun _ _ => rfl
      refine ⟨h.run, h.book, h.held, fun hin => ?_, hpc⟩
      have houtside := walkPc_inside (s.journal.trail.checkpointCount,
        s.journal.trail.checkpointDigest) FINANCIAL_TABLES []
      cases houtside.symm.trans hin
  · cases hstep

theorem NightInv.step_readPage {s t : Night} (h : NightInv codec s)
    (hstep : s.next codec .readPage = some t) : NightInv codec t := by
  simp only [Night.next] at hstep
  split at hstep
  · next table tables after suspects hpc =>
    have hok := h.pc
    rw [hpc] at hok
    split at hstep
    · cases hstep
      obtain ⟨hsnapshot, hsuspects, hnodup, -, hlater⟩ := hok
      exact h.move (walkPc_inside _ _ _)
        (PcOk.walkPc hsnapshot hsuspects (List.nodup_cons.1 hnodup).2 hlater)
    · next last hlast =>
      cases hstep
      exact h.move rfl (PcOk.paged hok hlast)
  · cases hstep

theorem NightInv.step_visitPage {s t : Night} (h : NightInv codec s)
    (hstep : s.next codec .visitPage = some t) : NightInv codec t := by
  simp only [Night.next] at hstep
  split at hstep
  · next table tables page last suspects hpc =>
    have hok := h.pc
    rw [hpc] at hok
    obtain ⟨hsuspects, hmost, hlater⟩ := PcOk.visited (rowMatches codec (s.live codec)) hok
    split at hstep
    · cases hstep
      exact h.move rfl ⟨hok.1, hsuspects, hok.2.2.1, hmost, hlater⟩
    · cases hstep
      exact h.move (checkpointsPc_inside _ _ _ _ _ _)
        (PcOk.checkpointsPc false hsuspects hok.1.reading)
  · cases hstep

theorem NightInv.step_readCheckpoints {s t : Night} {sorted} (h : NightInv codec s)
    (hstep : s.next codec (.readCheckpoints sorted) = some t) : NightInv codec t := by
  simp only [Night.next] at hstep
  split at hstep
  · next walked suspects sequence rolling left hpc =>
    have hok := h.pc
    rw [hpc] at hok
    obtain ⟨hsuspects, hleft, hreading⟩ := hok
    split at hstep
    · next hanswer =>
      obtain ⟨pending, hperm, hknown, -⟩ := h.book
      obtain ⟨last, hlast, rolled, hroll, hnext⟩ :=
        hreading.step h.recorded hknown hperm hleft hanswer.1 hanswer.2
      rw [hlast] at hstep
      dsimp only at hstep
      rw [hroll] at hstep
      cases hstep
      exact h.move (checkpointsPc_inside _ _ _ _ _ _)
        (PcOk.checkpointsPc walked hsuspects hnext)
    · cases hstep
  · cases hstep

theorem NightInv.step_takeBarrier {s t : Night} (h : NightInv codec s) (hhealthy : s.Healthy codec)
    (hstep : s.next codec .takeBarrier = some t) : NightInv codec t := by
  simp only [Night.next] at hstep
  split at hstep
  · next hok =>
    have hfit := hhealthy hok.1
    have hperm := hfit.2.checkpoints_perm h
    split at hstep
    · next walked checkpoints suspects hpc =>
      cases hstep
      have hpcOk := h.pc
      rw [hpc] at hpcOk
      exact ⟨h.run, book_recorded hperm (by intro _ h; cases h), fun _ => hfit, fun _ => rfl,
        hpcOk.1, hpcOk.2.sublist (List.take_sublist _ _), hpcOk.2.sublist (List.drop_sublist _ _)⟩
    · next hpc =>
      -- a healthy check never gets here
      have hpcOk := h.pc
      rw [hpc] at hpcOk
      exact hpcOk.elim
    · next checkpoints hpc =>
      cases hstep
      have hpcOk := h.pc
      rw [hpc] at hpcOk
      exact ⟨h.run, book_recorded hperm (by intro _ h; cases h), fun _ => hfit, fun _ => rfl, hpcOk⟩
    · cases hstep
  · cases hstep

theorem NightInv.step_compare {s t : Night} (hcodec : codec.toCodec.Lawful)
    (hfree : codec.toCodec.CollisionFree) (h : NightInv codec s)
    (hstep : s.next codec .compare = some t) : NightInv codec t := by
  simp only [Night.next] at hstep
  split at hstep
  · next walked checkpoints chunk rest hpc =>
    cases hstep
    have hpcOk := h.pc
    rw [hpc] at hpcOk
    obtain ⟨rfl, hchunk, hrest⟩ := hpcOk
    have hcheck := h.inside (by rw [hpc]; rfl)
    have hmatch := chunkMatches_of_holds hcodec hfree h.recorded (h.held hcheck).2 hchunk
    rw [hmatch, if_pos rfl]
    split
    · exact h.release rfl (by intro h; cases h)
    · exact h.release (recheckPc_inside _ _ _) (PcOk.recheckPc walked hrest)
  · next checkpoints hpc =>
    have hpcOk := h.pc
    rw [hpc] at hpcOk
    have hcheck := h.inside (by rw [hpc]; rfl)
    obtain ⟨hdatabase, hholds⟩ := h.held hcheck
    have hcounts : financialCountsMatch s.db (s.live codec).counts = true :=
      hholds.countsMatch h.recorded
    rw [show checkpoints = true from hpcOk, hdatabase, hcounts] at hstep
    split at hstep
    · cases hstep
      exact h.release rfl (by intro h; cases h)
    · cases hstep
      exact h.release rfl (by intro h; cases h)
  · cases hstep

theorem NightInv.step_fail {s t : Night} (h : NightInv codec s)
    (hstep : s.next codec .fail = some t) : NightInv codec t := by
  simp only [Night.next] at hstep
  split at hstep
  · cases hstep
  · cases hstep
  · cases hstep
    exact h.release rfl (by intro h; cases h)

theorem NightInv.step_giveUp {s t : Night} (h : NightInv codec s)
    (hstep : s.next codec .giveUp = some t) : NightInv codec t := by
  simp only [Night.next] at hstep
  split at hstep
  · cases hstep
    exact h.move rfl (by intro h; cases h)
  · cases hstep
    exact h.move rfl (by intro h; cases h)
  · cases hstep
    exact h.move rfl (by intro h; cases h)
  · cases hstep

/-- **One step** from a healthy state keeps the invariant. -/
theorem NightInv.step (hcodec : codec.toCodec.Lawful) (hfree : codec.toCodec.CollisionFree)
    {s t : Night} {label : NightLabel} (h : NightInv codec s) (hhealthy : s.Healthy codec)
    (hstep : s.next codec label = some t) : NightInv codec t := by
  cases label with
  | begin => exact h.step_begin hhealthy hstep
  | change db checkpoint => exact h.step_change hstep
  | record skip operationId digest operation atoms => exact h.step_record hstep
  | finish => exact h.step_finish hstep
  | summarise now => exact h.step_summarise hstep
  | stop freezes =>
    cases hstep
    exact ⟨h.run, h.book, h.held, h.inside, h.pc⟩
  | startCheck => exact h.step_startCheck hstep
  | readPage => exact h.step_readPage hstep
  | visitPage => exact h.step_visitPage hstep
  | readCheckpoints sorted => exact h.step_readCheckpoints hstep
  | takeBarrier => exact h.step_takeBarrier hhealthy hstep
  | compare => exact h.step_compare hcodec hfree hstep
  | fail => exact h.step_fail hstep
  | giveUp => exact h.step_giveUp hstep

/-! ## Section 5: What a match has compared -/

/-- The row matches the journal, or is a suspect. -/
def Covered (codec : LedgerCodec) (s : Night) (suspects : List Suspect) (row : LedgerRow) : Prop :=
  rowMatches codec (s.live codec) row = true ∨ (row.kind, row.id) ∈ suspects

/-- Every row of every table is covered. -/
def AllCovered (codec : LedgerCodec) (s : Night) (suspects : List Suspect) : Prop :=
  ∀ table, ∀ row ∈ s.db.table table, Covered codec s suspects row

/-- As many checkpoints of the database as the journal has, with its digest. -/
def CheckpointsRead (codec : LedgerCodec) (s : Night) : Prop :=
  ∃ read : List FinancialCheckpoint, read.Subperm s.db.checkpoints.rows ∧
    read.length = s.journal.trail.checkpointCount ∧
    codec.rollingOf read = s.journal.trail.checkpointDigest

/-- The checkpoints read so far, and any that are read after them. -/
def CheckpointsReading (codec : LedgerCodec) (s : Night) (sequence : Nat) (rolling : Hash)
    (left : Nat) : Prop :=
  ∃ read : List FinancialCheckpoint, rolling = codec.rollingOf read ∧
    read.length + left = s.journal.trail.checkpointCount ∧
    ∀ tail : List FinancialCheckpoint,
      tail.Subperm (Pages.rest FinancialCheckpoint.sequence s.db.checkpoints.rows sequence) →
      (read ++ tail).Subperm s.db.checkpoints.rows

/-- What the check has compared, where nothing changes around it. -/
def Compared (codec : LedgerCodec) (s : Night) : CheckPc → Prop
  | .idle => True
  | .walk table tables after suspects =>
      ∃ before, FINANCIAL_TABLES = before ++ table :: tables ∧
        (∀ other ∈ before, ∀ row ∈ s.db.table other, Covered codec s suspects row) ∧
        ∀ row ∈ s.db.table table, row ∈ Pages.rest LedgerRow.id (s.db.table table) after ∨
          Covered codec s suspects row
  | .visit table tables page last suspects =>
      ∃ before, FINANCIAL_TABLES = before ++ table :: tables ∧
        (∀ other ∈ before, ∀ row ∈ s.db.table other, Covered codec s suspects row) ∧
        ∀ row ∈ s.db.table table, row ∈ Pages.rest LedgerRow.id (s.db.table table) last.id ∨
          row ∈ page ∨ Covered codec s suspects row
  | .checkpoints walked suspects sequence rolling left =>
      (walked = true → AllCovered codec s suspects) ∧
        CheckpointsReading codec s sequence rolling left
  | .recheck walked checkpoints suspects =>
      (walked = true → AllCovered codec s suspects) ∧ (checkpoints = true → CheckpointsRead codec s)
  | .rechecking walked checkpoints chunk rest =>
      (walked = true → AllCovered codec s (chunk ++ rest)) ∧
        (checkpoints = true → CheckpointsRead codec s)
  | .differs => True
  | .final checkpoints =>
      AllCovered codec s [] ∧ (checkpoints = true → CheckpointsRead codec s)
  | .counting checkpoints =>
      AllCovered codec s [] ∧ (checkpoints = true → CheckpointsRead codec s)
  | .done result => result = .matched →
      Holds codec s.db (ledgerOf s.history) s.recorded

theorem Compared.recheckPc {s : Night} {walked checkpoints : Bool} {suspects : List Suspect}
    (hrows : walked = true → AllCovered codec s suspects)
    (hcheckpoints : checkpoints = true → CheckpointsRead codec s) :
    Compared codec s (Night.recheckPc walked checkpoints suspects) := by
  unfold Night.recheckPc
  split
  · next hnil =>
    split
    · next hwalked =>
      rw [hnil] at hrows
      exact ⟨hrows hwalked, hcheckpoints⟩
    · exact nofun
  · exact ⟨hrows, hcheckpoints⟩

theorem Compared.checkpointsPc {s : Night} {walked : Bool} {suspects : List Suspect}
    {sequence left : Nat} {rolling : Hash} (hrows : walked = true → AllCovered codec s suspects)
    (hread : CheckpointsReading codec s sequence rolling left) :
    Compared codec s (Night.checkpointsPc walked suspects s.journal.trail.checkpointDigest sequence
      rolling left) := by
  unfold Night.checkpointsPc
  split
  · next hleft =>
    apply Compared.recheckPc hrows
    intro hdigest
    obtain ⟨read, rfl, hlen, htail⟩ := hread
    refine ⟨read, ?_, ?_, eq_of_beq hdigest⟩
    · have := htail [] List.nil_subperm
      rwa [List.append_nil] at this
    · rw [hleft] at hlen
      exact hlen
  · exact ⟨hrows, hread⟩

/-- Nothing has been read yet. -/
theorem CheckpointsReading.start (s : Night) :
    CheckpointsReading codec s 0 zero s.journal.trail.checkpointCount :=
  ⟨[], rfl, Nat.zero_add _, fun _ htail => htail.trans List.filter_sublist.subperm⟩

/-- After a table: the next table, or the checkpoints. -/
theorem Compared.walkPc {s : Night} {before tables : List AtomKind} {suspects : List Suspect}
    (hids : s.db.UuidKeys) (htables : FINANCIAL_TABLES = before ++ tables)
    (hbefore : ∀ other ∈ before, ∀ row ∈ s.db.table other, Covered codec s suspects row) :
    Compared codec s (Night.walkPc
      (s.journal.trail.checkpointCount, s.journal.trail.checkpointDigest) tables suspects) := by
  cases tables with
  | nil =>
    refine Compared.checkpointsPc (fun _ table row hrow => ?_) (CheckpointsReading.start s)
    apply hbefore table ?_ row hrow
    rw [List.append_nil] at htables
    rw [← htables]
    cases table with
    | tombstone => cases hrow
    | _ => decide
  | cons table tables =>
    refine ⟨before, htables, hbefore, fun row hrow => .inl ?_⟩
    rw [LedgerDatabase.rest_zeroUuid hids]
    exact hrow

/-- The rows up to the last of a page were there before, or are on the page. -/
theorem mem_page {db : LedgerDatabase} {table : AtomKind} {after : Id} {limit : Nat}
    {page : List LedgerRow} {last row : LedgerRow}
    (hpage : Pages.IsPage LedgerRow.id (db.table table) after limit page)
    (hlast : page.getLast? = some last)
    (hrow : row ∈ Pages.rest LedgerRow.id (db.table table) after) :
    row ∈ Pages.rest LedgerRow.id (db.table table) last.id ∨ row ∈ page := by
  obtain ⟨left, hperm, hsorted, -⟩ := hpage.split
  rcases List.mem_append.1 (hperm.symm.subset hrow) with hfirst | hleft
  · exact .inr hfirst
  · left
    have hlater := Pages.rest_left hperm hsorted (db.table_nodup table) hlast
    rw [← hlater] at hleft
    exact (Pages.rest_last hperm hsorted hlast).subset hleft

/-- A page of checkpoints continues what has been read. -/
theorem CheckpointsReading.step {s : Night} {sequence left limit : Nat} {rolling rolled : Hash}
    {sorted : List FinancialCheckpoint} {last : FinancialCheckpoint}
    (h : CheckpointsReading codec s sequence rolling left)
    (hperm : sorted.Perm (Pages.rest FinancialCheckpoint.sequence s.db.checkpoints.rows sequence))
    (hsorted : sorted.Pairwise fun a b => a.sequence ≤ b.sequence) (hlimit : limit ≤ left)
    (hlast : (sorted.take limit).getLast? = some last)
    (hroll : rollPage codec rolling (sorted.take limit) = some rolled) :
    CheckpointsReading codec s last.sequence rolled (left - (sorted.take limit).length) := by
  obtain ⟨read, rfl, hlen, htail⟩ := h
  obtain ⟨-, rfl⟩ := rollPage_some.1 hroll
  have hsplit : (sorted.take limit ++ sorted.drop limit).Perm
      (Pages.rest FinancialCheckpoint.sequence s.db.checkpoints.rows sequence) := by
    rwa [List.take_append_drop]
  have hpairs : (sorted.take limit ++ sorted.drop limit).Pairwise
      fun a b => a.sequence ≤ b.sequence := by
    rwa [List.take_append_drop]
  refine ⟨read ++ sorted.take limit, ?_, ?_, fun tail hsub => ?_⟩
  · unfold Codec.rollingOf
    rw [List.foldl_append]
  · rw [List.length_append]
    have := List.length_take_le limit sorted
    omega
  · rw [List.append_assoc]
    apply htail
    have hrest := Pages.rest_last hsplit hpairs hlast
    have hdrop : tail.Subperm (sorted.drop limit) :=
      (hsub.trans hrest.symm.subperm).trans List.filter_sublist.subperm
    exact ((List.subperm_append_left (sorted.take limit)).2 hdrop).trans hsplit.subperm

/-- A chunk that matches clears its suspects. -/
theorem AllCovered.recheck {s : Night} {chunk rest : List Suspect}
    (h : AllCovered codec s (chunk ++ rest)) (hmatch : s.chunkMatches codec chunk = true) :
    AllCovered codec s rest := by
  intro table row hrow
  rcases h table row hrow with hok | hsuspect
  · exact .inl hok
  · rcases List.mem_append.1 hsuspect with hchunk | hrest
    · left
      rw [LedgerDatabase.table_kind hrow] at hchunk
      have hid : row.id ∈ idsOf chunk table := mem_idsOf.2 hchunk
      have hmem : table ∈ FINANCIAL_TABLES := by
        cases table with
        | tombstone => cases hrow
        | _ => decide
      have htable := List.all_eq_true.1 hmatch table hmem
      dsimp only at htable
      rw [Bool.or_eq_true, Bool.and_eq_true, List.all_eq_true] at htable
      rcases htable with hempty | ⟨-, hall⟩
      · rw [List.isEmpty_iff.1 hempty] at hid
        cases hid
      · exact hall row (List.mem_filter.2 ⟨hrow, by simpa using hid⟩)
    · exact .inr hrest

/-- With the rows, the checkpoints and the counts compared, the tables hold the fold. -/
theorem holds_of_compared (hcodec : codec.toCodec.Lawful) (hfree : codec.toCodec.CollisionFree)
    {s : Night} (h : Recorded codec s.journal (ledgerOf s.history) s.recorded)
    (hrows : AllCovered codec s []) (hcheckpoints : CheckpointsRead codec s)
    (hcounts : financialCountsMatch s.db (s.live codec).counts = true) :
    Holds codec s.db (ledgerOf s.history) s.recorded := by
  obtain ⟨htables, hnumber⟩ := (financialCountsMatch_iff h).1 hcounts
  have hmatch : ∀ kind, ∀ row ∈ s.db.table kind, ∃ atom, financialAtomFromRow codec row = some atom ∧
      ledgerOf s.history (financialAtomKey atom) = some atom := by
    intro kind row hrow
    rcases hrows kind row hrow with hok | hsuspect
    · exact (rowMatches_iff hcodec hfree h row).1 hok
    · cases hsuspect
  obtain ⟨read, hsub, hlen, hdigest⟩ := hcheckpoints
  rw [h.count] at hlen
  rw [h.rolling] at hdigest
  have hread := rollingOf_injective hfree hlen hdigest
  refine ⟨?_, hmatch, ?_⟩
  · intro key atom hledger hkind
    have hmem : key.1 ∈ FINANCIAL_TABLES := by
      revert hkind
      cases key.1 with
      | tombstone => exact fun hne => absurd rfl hne
      | _ => exact fun _ => by decide
    exact table_exact h (htables key.1 hmem) (hmatch key.1) hledger rfl
  · rw [checkpointsInOrder_eq_iff h.increasing]
    have hperm : read.Perm s.db.checkpoints.rows := hsub.perm_of_length_le (by omega)
    rw [← hread]
    exact hperm.symm

/-- The state of a check with nothing else running. -/
structure Quiet (codec : LedgerCodec) (s : Night) : Prop where
  /-- The journal is what its history makes it. -/
  run : (Committed.system codec s.journal.journalId).run (Committed.start s.journal.journalId)
    s.history = some s.journal
  /-- Rows stand under their own keys. -/
  ids : s.db.UuidKeys
  /-- The snapshot is the trail, which nobody moves. -/
  snapshot : s.pc = .idle ∨ s.pc = .done .unavailable ∨
    s.snapshot = (s.journal.trail.checkpointCount, s.journal.trail.checkpointDigest)
  /-- What was compared so far says what the tables say. -/
  pc : Compared codec s s.pc

/-- The check goes on among the same rows and records. -/
theorem Quiet.move {s : Night} (h : Quiet codec s) {pc : CheckPc} {barrier : Barrier}
    {frozen unavailable : Bool} {snapshot : Nat × Hash}
    (hsnapshot : snapshot = (s.journal.trail.checkpointCount, s.journal.trail.checkpointDigest))
    (hpc : Compared codec s pc) :
    Quiet codec { s with
      barrier := barrier, frozen := frozen, unavailable := unavailable, snapshot := snapshot,
      pc := pc } where
  run := h.run
  ids := h.ids
  snapshot := .inr (.inr hsnapshot)
  pc := by cases pc <;> exact hpc

theorem Quiet.snapshot_eq {s : Night} (h : Quiet codec s) (hidle : s.pc ≠ .idle)
    (hdone : ∀ result, s.pc = .done result → False) :
    s.snapshot = (s.journal.trail.checkpointCount, s.journal.trail.checkpointDigest) :=
  (h.snapshot.resolve_left hidle).resolve_left (hdone _)

theorem Quiet.step_startCheck {s t : Night} (h : Quiet codec s)
    (hstep : s.next codec .startCheck = some t) : Quiet codec t := by
  simp only [Night.next] at hstep
  split at hstep
  · split at hstep
    · cases hstep
      exact ⟨h.run, h.ids, .inr (.inl rfl), nofun⟩
    · cases hstep
      exact h.move rfl (@Compared.walkPc codec s [] FINANCIAL_TABLES [] h.ids rfl nofun)
  · cases hstep

theorem Quiet.step_readPage {s t : Night} (h : Quiet codec s)
    (hstep : s.next codec .readPage = some t) : Quiet codec t := by
  have hpc := h.pc
  simp only [Night.next] at hstep
  split at hstep
  · next table tables after suspects heq =>
    have hsnap := h.snapshot_eq (by rw [heq]; exact nofun) (by rw [heq]; exact nofun)
    rw [heq] at hpc
    obtain ⟨before, htables, hbefore, hrows⟩ := hpc
    have hpage : Pages.IsPage LedgerRow.id (s.db.table table) after WHOLE_LEDGER_BATCH
        (Pages.page LedgerRow.id (s.db.table table) after WHOLE_LEDGER_BATCH) := Pages.page_isPage
    split at hstep
    · next hnone =>
      cases hstep
      rw [List.getLast?_eq_none_iff.1 hnone] at hpage
      have hrest := hpage.nil (by decide)
      rw [hsnap]
      have hdone : FINANCIAL_TABLES = (before ++ [table]) ++ tables := by simpa using htables
      refine h.move rfl (Compared.walkPc h.ids hdone fun other hother row hrow => ?_)
      rcases List.mem_append.1 hother with hold | hnew
      · exact hbefore other hold row hrow
      · rw [List.mem_singleton.1 hnew] at hrow
        rcases hrows row hrow with hleft | hcovered
        · rw [hrest] at hleft
          cases hleft
        · exact hcovered
    · next last hlast =>
      cases hstep
      refine h.move hsnap ⟨before, htables, hbefore, fun row hrow => ?_⟩
      rcases hrows row hrow with hleft | hcovered
      · rcases mem_page hpage hlast hleft with hlater | hmem
        · exact .inl hlater
        · exact .inr (.inl hmem)
      · exact .inr (.inr hcovered)
  · cases hstep

theorem Quiet.step_visitPage {s t : Night} (h : Quiet codec s)
    (hstep : s.next codec .visitPage = some t) : Quiet codec t := by
  have hpc := h.pc
  simp only [Night.next] at hstep
  split at hstep
  · next table tables page last suspects heq =>
    have hsnap := h.snapshot_eq (by rw [heq]; exact nofun) (by rw [heq]; exact nofun)
    rw [heq] at hpc
    obtain ⟨before, htables, hbefore, hrows⟩ := hpc
    obtain ⟨extra, hextra, -, hall⟩ :=
      visitRows_spec (rowMatches codec (s.live codec)) page suspects
    have hmono : ∀ row, Covered codec s suspects row → Covered codec s
        (visitRows (rowMatches codec (s.live codec)) page suspects).1 row := by
      intro row hcovered
      rcases hcovered with hok | hsuspect
      · exact .inl hok
      · rw [hextra]
        exact .inr (List.mem_append_left _ hsuspect)
    split at hstep
    · next hgo =>
      cases hstep
      refine h.move hsnap ⟨before, htables, fun other hother row hrow =>
        hmono row (hbefore other hother row hrow), fun row hrow => ?_⟩
      rcases hrows row hrow with hlater | hmem | hcovered
      · exact .inl hlater
      · exact .inr (hall hgo row hmem)
      · exact .inr (hmono row hcovered)
    · cases hstep
      rw [hsnap]
      exact h.move rfl (Compared.checkpointsPc nofun (CheckpointsReading.start s))
  · cases hstep

theorem Quiet.step_readCheckpoints {s t : Night} {sorted} (h : Quiet codec s)
    (hstep : s.next codec (.readCheckpoints sorted) = some t) : Quiet codec t := by
  have hpc := h.pc
  simp only [Night.next] at hstep
  split at hstep
  · next walked suspects sequence rolling left heq =>
    have hsnap := h.snapshot_eq (by rw [heq]; exact nofun) (by rw [heq]; exact nofun)
    rw [heq] at hpc
    obtain ⟨hrows, hreading⟩ := hpc
    split at hstep
    · next hanswer =>
      split at hstep
      · cases hstep
        exact h.move hsnap (Compared.recheckPc hrows nofun)
      · next last hlast =>
        split at hstep
        · cases hstep
          exact h.move hsnap nofun
        · next rolled hroll =>
          cases hstep
          have hnext := hreading.step hanswer.1 hanswer.2 (Nat.min_le_right _ _) hlast hroll
          rw [hsnap]
          exact h.move rfl (Compared.checkpointsPc hrows hnext)
    · cases hstep
  · cases hstep

theorem Quiet.step_takeBarrier {s t : Night} (h : Quiet codec s)
    (hstep : s.next codec .takeBarrier = some t) : Quiet codec t := by
  have hpc := h.pc
  simp only [Night.next] at hstep
  split at hstep
  · split at hstep
    · next walked checkpoints suspects heq =>
      cases hstep
      have hsnap := h.snapshot_eq (by rw [heq]; exact nofun) (by rw [heq]; exact nofun)
      rw [heq] at hpc
      refine h.move hsnap ⟨fun hwalked => ?_, hpc.2⟩
      rw [List.take_append_drop]
      exact hpc.1 hwalked
    · next heq =>
      cases hstep
      exact h.move (h.snapshot_eq (by rw [heq]; exact nofun) (by rw [heq]; exact nofun)) nofun
    · next checkpoints heq =>
      cases hstep
      have hsnap := h.snapshot_eq (by rw [heq]; exact nofun) (by rw [heq]; exact nofun)
      rw [heq] at hpc
      exact h.move hsnap hpc
    · cases hstep
  · cases hstep

theorem Quiet.step_compare {s t : Night} (hcodec : codec.toCodec.Lawful)
    (hfree : codec.toCodec.CollisionFree) (h : Quiet codec s)
    (hstep : s.next codec .compare = some t) : Quiet codec t := by
  have hrecorded : Recorded codec s.journal (ledgerOf s.history) s.recorded := recorded_run h.run
  have hpc := h.pc
  simp only [Night.next] at hstep
  split at hstep
  · next walked checkpoints chunk rest heq =>
    cases hstep
    have hsnap := h.snapshot_eq (by rw [heq]; exact nofun) (by rw [heq]; exact nofun)
    rw [heq] at hpc
    split
    · exact h.move hsnap nofun
    · split
      · next hmatch =>
        exact h.move hsnap (Compared.recheckPc (fun hwalked => (hpc.1 hwalked).recheck hmatch) hpc.2)
      · exact h.move hsnap trivial
  · next checkpoints heq =>
    have hsnap := h.snapshot_eq (by rw [heq]; exact nofun) (by rw [heq]; exact nofun)
    rw [heq] at hpc
    split at hstep
    · cases hstep
      exact h.move hsnap nofun
    · split at hstep
      · next hsame =>
        cases hstep
        rw [Bool.and_eq_true, Bool.and_eq_true] at hsame
        exact h.move hsnap fun _ =>
          holds_of_compared hcodec hfree hrecorded hpc.1 (hpc.2 hsame.1.1) hsame.2
      · cases hstep
        exact h.move hsnap nofun
  · cases hstep

theorem Quiet.step_fail {s t : Night} (h : Quiet codec s) (hstep : s.next codec .fail = some t) :
    Quiet codec t := by
  simp only [Night.next] at hstep
  split at hstep
  · cases hstep
  · cases hstep
  · next hidle hdone =>
    cases hstep
    exact h.move (h.snapshot_eq hidle hdone) nofun

theorem Quiet.step_giveUp {s t : Night} (h : Quiet codec s) (hstep : s.next codec .giveUp = some t) :
    Quiet codec t := by
  simp only [Night.next] at hstep
  split at hstep
  · next heq =>
    cases hstep
    exact h.move (h.snapshot_eq (by rw [heq]; exact nofun) (by rw [heq]; exact nofun)) nofun
  · next heq =>
    cases hstep
    exact h.move (h.snapshot_eq (by rw [heq]; exact nofun) (by rw [heq]; exact nofun)) nofun
  · next heq =>
    cases hstep
    exact h.move (h.snapshot_eq (by rw [heq]; exact nofun) (by rw [heq]; exact nofun)) nofun
  · cases hstep

/-- **One step** of the check alone keeps what it has compared. -/
theorem Quiet.step (hcodec : codec.toCodec.Lawful) (hfree : codec.toCodec.CollisionFree)
    {s t : Night} {label : NightLabel} (h : Quiet codec s) (hlabel : label.ofCheck = true)
    (hstep : s.next codec label = some t) : Quiet codec t := by
  cases label with
  | startCheck => exact h.step_startCheck hstep
  | readPage => exact h.step_readPage hstep
  | visitPage => exact h.step_visitPage hstep
  | readCheckpoints sorted => exact h.step_readCheckpoints hstep
  | takeBarrier => exact h.step_takeBarrier hstep
  | compare => exact h.step_compare hcodec hfree hstep
  | fail => exact h.step_fail hstep
  | giveUp => exact h.step_giveUp hstep
  | begin => cases hlabel
  | change => cases hlabel
  | record => cases hlabel
  | finish => cases hlabel
  | summarise => cases hlabel
  | stop => cases hlabel

/-! ## Section 6: Nights -/

/-- Every step leaves the journal with a history that gives it. -/
theorem night_recorded {s t : Night} {label : NightLabel}
    (h : (Committed.system codec s.journal.journalId).run (Committed.start s.journal.journalId)
      s.history = some s.journal)
    (hstep : s.next codec label = some t) :
    (Committed.system codec t.journal.journalId).run (Committed.start t.journal.journalId)
      t.history = some t.journal := by
  have hgrow : ∀ {step : CommitStep} {journal : Committed},
      s.journal.next codec step = some journal →
      (Committed.system codec journal.journalId).run (Committed.start journal.journalId)
        (s.history ++ [step]) = some journal := by
    intro step journal hnext
    rw [(Committed.next_sequence hnext).1]
    exact (System.run_snoc _).2 ⟨s.journal, h, hnext⟩
  cases label with
  | record skip operationId digest operation atoms =>
    simp only [Night.next] at hstep
    split at hstep
    · obtain ⟨journal, hnext, rfl⟩ := Option.map_eq_some_iff.1 hstep
      exact hgrow hnext
    · cases hstep
  | summarise now =>
    obtain ⟨journal, hnext, rfl⟩ := Option.map_eq_some_iff.1 hstep
    exact hgrow hnext
  | _ =>
    -- no other step touches the journal
    simp only [Night.next] at hstep
    repeat' split at hstep
    all_goals first
      | exact (Option.some.inj hstep) ▸ h
      | cases hstep

theorem night_init {s : Night} (hinit : (nightSystem codec).init s) (hhealthy : s.Healthy codec) :
    NightInv codec s := by
  obtain ⟨hfree, hidle, hrun⟩ := hinit
  have hholds := (hhealthy hfree).2
  refine ⟨hrun, book_recorded ?_ ?_, ?_, ?_, ?_⟩
  · exact (checkpointsInOrder_eq_iff (recorded_run hrun).increasing).1 hholds.checkpoints
  · intro held heq
    rw [hfree] at heq
    cases heq
  · intro heq
    rw [hfree] at heq
    cases heq
  · intro hin
    rw [hidle] at hin
    cases hin
  · rw [hidle]
    trivial

/-- **Healthy nights**: where every visited state is healthy, the invariant holds at the end. -/
theorem night_inv (hcodec : codec.toCodec.Lawful) (hfree : codec.toCodec.CollisionFree)
    {s t : Night} {labels : List NightLabel} (hinit : (nightSystem codec).init s)
    (hrun : (nightSystem codec).run s labels = some t)
    (hhealthy : ∀ u, (nightSystem codec).Visits s labels u → u.Healthy codec) :
    NightInv codec t := by
  have hall : ∀ ls u, (nightSystem codec).run s ls = some u → ls <+: labels → NightInv codec u := by
    intro ls u hu
    induction ls using List.reverseRecOn generalizing u with
    | nil =>
      intro _
      cases hu
      exact night_init hinit (hhealthy s ((nightSystem codec).visits_start s labels))
    | append_singleton ls label ih =>
      intro hstarts
      obtain ⟨v, hv, hstep⟩ := (System.run_snoc _).1 hu
      have hfront : ls <+: labels := (List.prefix_append ls [label]).trans hstarts
      exact (ih v hv hfront).step hcodec hfree (hhealthy v ⟨ls, hfront, hv⟩) hstep
  exact hall labels t hrun (List.prefix_refl _)

/-- **The nightly check**: on a night in which the database holds the fold whenever the barrier
    is free, it never reports a mismatch. When it reports a match with nothing else running, the
    database holds the fold. -/
theorem scheduledLedgerCheck_sound (hcodec : codec.toCodec.Lawful)
    (hfree : codec.toCodec.CollisionFree) {s t : Night} {labels : List NightLabel}
    (hinit : (nightSystem codec).init s) (hrun : (nightSystem codec).run s labels = some t) :
    ((∀ u, (nightSystem codec).Visits s labels u → u.Healthy codec) → t.pc ≠ .done .mismatch) ∧
    ∀ u quiet, t.pc = .idle → t.db.UuidKeys → (∀ label ∈ quiet, label.ofCheck = true) →
      (nightSystem codec).run t quiet = some u → u.pc = .done .matched →
      Holds codec u.db (ledgerOf u.history) (checkpointsOf u.journal.journalId u.history) := by
  constructor
  · -- A healthy night: its invariant has no place for a mismatch.
    intro hhealthy hmismatch
    have hpc := (night_inv hcodec hfree hinit hrun hhealthy).pc
    rw [hmismatch] at hpc
    exact hpc rfl
  · intro u quiet hidle hids hquiet hrest hmatched
    have hrecorded := System.run_invariant (nightSystem codec)
      (fun v label w hv hstep => night_recorded hv hstep) hinit.2.2 hrun
    have hstart : Quiet codec t := ⟨hrecorded, hids, .inl hidle, by rw [hidle]; trivial⟩
    -- With nothing else running, what was compared stays compared.
    have hend : ∀ ls (v w : Night), Quiet codec v → (∀ label ∈ ls, label.ofCheck = true) →
        (nightSystem codec).run v ls = some w → Quiet codec w := by
      intro ls
      induction ls with
      | nil =>
        intro v w hv _ hw
        cases hw
        exact hv
      | cons label ls ih =>
        intro v w hv hls hw
        obtain ⟨x, hstep, hrest⟩ := Option.bind_eq_some_iff.1 hw
        exact ih x w (hv.step hcodec hfree (hls label List.mem_cons_self) hstep)
          (fun l hl => hls l (List.mem_cons_of_mem _ hl)) hrest
    have hpc := (hend quiet t u hstart hquiet hrest).pc
    rw [hmatched] at hpc
    exact hpc rfl

/-! A night in which an attempt is changed. -/

/-- What a check of the whole ledger finds where the barrier is free. -/
def Night.looksHealthy (codec : LedgerCodec) (s : Night) : Prop :=
  s.barrier = .free → s.databaseMatches = true ∧ s.db.UuidKeys ∧
    fullCheck codec (s.live codec) (s.db.reader WHOLE_LEDGER_BATCH) (s.db.size + 1) = some true

instance (codec : LedgerCodec) (s : Night) : Decidable (s.looksHealthy codec) :=
  inferInstanceAs (Decidable (_ → _ ∧ _ ∧ _))

theorem Night.looksHealthy.healthy {s : Night} (hcodec : codec.toCodec.Lawful)
    (hfree : codec.toCodec.CollisionFree)
    (hrun : (Committed.system codec s.journal.journalId).run
      (Committed.start s.journal.journalId) s.history = some s.journal)
    (h : s.looksHealthy codec) : s.Healthy codec := by
  intro hbarrier
  obtain ⟨hmatches, hids, hcheck⟩ := h hbarrier
  exact ⟨hmatches, ((recorded_run hrun).fullCheck_iff hcodec hfree hids (by decide)
    (s.db.reader WHOLE_LEDGER_BATCH) (Nat.lt_succ_self _)).1 hcheck⟩

/-- A night on which every whole check succeeds is healthy. -/
theorem visits_healthy (hcodec : codec.toCodec.Lawful) (hfree : codec.toCodec.CollisionFree)
    {s t : Night} {labels : List NightLabel} (hinit : (nightSystem codec).init s)
    (hbefore : (nightSystem codec).AllSteps (fun s _ => s.looksHealthy codec) s labels)
    (hrun : (nightSystem codec).run s labels = some t) (hend : t.looksHealthy codec) :
    ∀ u, (nightSystem codec).Visits s labels u → u.Healthy codec := by
  intro u hvisits
  obtain ⟨pre, hpre, hu⟩ := hvisits
  have hrecorded := System.run_invariant (nightSystem codec)
    (fun v label w hv hstep => night_recorded hv hstep) hinit.2.2 hu
  apply Night.looksHealthy.healthy hcodec hfree hrecorded
  refine System.of_visits _ hbefore ?_ ⟨pre, hpre, hu⟩
  intro v hv
  obtain rfl := Option.some.inj (hv.symm.trans hrun)
  exact hend

def spentNight : Night where
  db := spentOnce .admitted
  database := ⟨"keeper".toList, "2026-01-01T00:00:00Z".toList, "1".toList⟩
  control := ⟨"keeper".toList, "2026-01-01T00:00:00Z".toList, "1".toList⟩
  journal := spentJournal spending
  history := spending
  barrier := .free
  frozen := false
  unavailable := false
  snapshot := (0, zero)
  pc := .idle

/-- The admitted attempt becomes unknown. -/
def losing : CommitStep :=
  .commit 0 (spentId '8') ['n'] .unknown
    ([LedgerRow.attempt (spentAttempt '5' .unknown none)].filterMap
      (financialAtomFromRow PlainCodec.plainCodec))

theorem spentTwice_nodup : ((checkpointsOf spentJournalId (spending ++ [losing])).map
    FinancialCheckpoint.operationId).Nodup := by
  decide +kernel

/-- The database after that. -/
def spentTwice : LedgerDatabase :=
  spentDatabase .unknown ⟨checkpointsOf spentJournalId (spending ++ [losing]), spentTwice_nodup⟩

/-- The operation: the database changes before the journal does. -/
def losingOperation : List NightLabel :=
  [.begin, .change spentTwice (checkpointsOf spentJournalId (spending ++ [losing])).getLast?,
    .record 0 (spentId '8') ['n'] .unknown losing.atoms, .finish]

/-- A table is read, compared and found to end. -/
def wholeTable : List NightLabel := [.readPage, .visitPage, .readPage]

/-- After the tables: the checkpoints that the journal had, the suspects if there are any, the
    counts. -/
def afterTables (suspects : Bool) : List NightLabel :=
  .readCheckpoints (checkpointsOf spentJournalId (spending ++ [losing])) ::
    (if suspects then [.takeBarrier, .compare] else []) ++ [.takeBarrier, .compare]

/-- The attempt changes between the reading of its page and the comparison. -/
def disturbedCheck : List NightLabel :=
  .startCheck :: wholeTable ++ wholeTable ++ wholeTable ++ .readPage :: losingOperation ++
    [.visitPage, .readPage] ++ wholeTable ++ afterTables true

def quietCheck : List NightLabel :=
  .startCheck :: wholeTable ++ wholeTable ++ wholeTable ++ wholeTable ++ wholeTable ++
    afterTables false

theorem spentNight_init : (nightSystem PlainCodec.plainCodec).init spentNight :=
  ⟨rfl, rfl, spentJournal_run (by decide +kernel)⟩

theorem disturbedCheck_before : (nightSystem PlainCodec.plainCodec).AllSteps
    (fun s _ => s.looksHealthy PlainCodec.plainCodec) spentNight disturbedCheck := by
  decide +kernel

theorem disturbedCheck_end : ∃ t,
    (nightSystem PlainCodec.plainCodec).run spentNight disturbedCheck = some t ∧
      t.pc = .done .matched ∧ t.looksHealthy PlainCodec.plainCodec := by
  have hend : ((nightSystem PlainCodec.plainCodec).run spentNight disturbedCheck).map
      (fun t => (t.pc, decide (t.looksHealthy PlainCodec.plainCodec))) =
        some (.done .matched, true) := by
    decide +kernel
  obtain ⟨t, hrun, ht⟩ := Option.map_eq_some_iff.1 hend
  obtain ⟨hpc, hlooks⟩ := Prod.mk.inj ht
  exact ⟨t, hrun, hpc, of_decide_eq_true hlooks⟩

/-- The operation, and then a check that nothing disturbs. -/
theorem losingOperation_end : ∃ t u,
    (nightSystem PlainCodec.plainCodec).run spentNight losingOperation = some t ∧ t.pc = .idle ∧
      t.db.UuidKeys ∧ (nightSystem PlainCodec.plainCodec).run t quietCheck = some u ∧
        u.pc = .done .matched ∧ u.db.attempts.rows.map AttemptRow.state = [.unknown, .settled] := by
  have hstart : ((nightSystem PlainCodec.plainCodec).run spentNight losingOperation).map
      (fun t => (t.pc, decide t.db.UuidKeys)) = some (.idle, true) := by
    decide +kernel
  have hend : ((nightSystem PlainCodec.plainCodec).run spentNight
      (losingOperation ++ quietCheck)).map
        (fun t => (t.pc, t.db.attempts.rows.map AttemptRow.state)) =
          some (.done .matched, [.unknown, .settled]) := by
    decide +kernel
  obtain ⟨t, hrun, ht⟩ := Option.map_eq_some_iff.1 hstart
  obtain ⟨u, hall, hu⟩ := Option.map_eq_some_iff.1 hend
  obtain ⟨hidle, hids⟩ := Prod.mk.inj ht
  obtain ⟨hmatched, hstates⟩ := Prod.mk.inj hu
  rw [System.run_append, hrun, Option.bind_some] at hall
  exact ⟨t, u, hrun, hidle, of_decide_eq_true hids, hall, hmatched, hstates⟩

/-- An attempt changes under the check, which finds no difference all the same; and a check that
    nothing disturbs shows that the database holds the changed attempt. -/
theorem scheduledLedgerCheck_sound_losing :
    (∃ t, (nightSystem PlainCodec.plainCodec).run spentNight disturbedCheck = some t ∧
      t.pc ≠ .done .mismatch ∧ t.pc = .done .matched) ∧
    ∃ u : Night, u.db.attempts.rows.map AttemptRow.state = [.unknown, .settled] ∧
      Holds PlainCodec.plainCodec u.db (ledgerOf u.history)
        (checkpointsOf u.journal.journalId u.history) := by
  have hlawful := PlainCodec.plainCodec_lawful
  have hfree := PlainCodec.plainCodec_collisionFree
  constructor
  · obtain ⟨t, hrun, hpc, hend⟩ := disturbedCheck_end
    have hhealthy := visits_healthy hlawful hfree spentNight_init disturbedCheck_before hrun hend
    exact ⟨t, hrun, (scheduledLedgerCheck_sound hlawful hfree spentNight_init hrun).1 hhealthy, hpc⟩
  · obtain ⟨t, u, hrun, hidle, hids, hrest, hmatched, hstates⟩ := losingOperation_end
    exact ⟨u, hstates, (scheduledLedgerCheck_sound hlawful hfree spentNight_init hrun).2 u
      quietCheck hidle hids (by decide) hrest hmatched⟩

end Lares.Journal
