import Lares.Journal.Committed
import Lares.Journal.PlainCodec

/-! # The whole-ledger check

    `financialCountsMatch`, `eachLedgerRow` over `rowMatches` and
    `recordedCheckpointsMatch` of `financial-continuity.ts`, on one snapshot.

    * **The check**: every row is compared with what was recorded for it, the
      checkpoints by their rolling digest, and every table by its count.
    * `Holds`: the tables hold the ledger, row by row, and nothing else.
    * **Exactness**: the check succeeds if and only if the tables hold the
      ledger, whatever is summarised and however long the pages are.
-/

namespace Lares.Journal

/-! ## Section 1: The check -/

/-- `WHOLE_LEDGER_BATCH` -/
def WHOLE_LEDGER_BATCH : Nat := 500

/-- What a whole-ledger check compares with. -/
structure WholeLedgerExpectation where
  counts : FinancialCounts
  checkpointDigest : Hash
  matchesAtom : FinancialAtom → Bool

/-- `fullLedgerExpectation` -/
def fullLedgerExpectation (codec : LedgerCodec) (fold : Fold) (trail : Trail) :
    WholeLedgerExpectation where
  counts := fold.counts [] trail.checkpointCount
  checkpointDigest := trail.checkpointDigest
  matchesAtom := fold.matchesAtom codec.toCodec []

/-- The tables of atoms: `FINANCIAL_TABLES`. -/
def FINANCIAL_TABLES : List AtomKind := [.account, .window, .binding, .attempt, .grant]

/-- One of the comparisons of `financialCountsMatch`. -/
def countMatches (count : Nat) (expected : Int) : Bool :=
  decide (count ≤ MAX_SAFE_INTEGER) && (count : Int) == expected

/-- `financialCountsMatch` -/
def financialCountsMatch (db : LedgerDatabase) (expected : FinancialCounts) : Bool :=
  countMatches (db.table .account).length expected.accounts &&
    countMatches (db.table .window).length expected.windows &&
    countMatches (db.table .binding).length expected.bindings &&
    countMatches (db.table .attempt).length expected.attempts &&
    countMatches (db.table .grant).length expected.grants &&
    countMatches db.checkpoints.rows.length expected.checkpoints

/-- `rowMatches`: a row that cannot be read does not match. -/
def rowMatches (codec : LedgerCodec) (expected : WholeLedgerExpectation) (row : LedgerRow) : Bool :=
  match financialAtomFromRow codec row with
  | some atom => expected.matchesAtom atom
  | none => false

/-- `eachLedgerRow` over the tables that are left. -/
def eachLedgerRow (page : AtomKind → Id → List LedgerRow) (visit : LedgerRow → Bool) (fuel : Nat) :
    List AtomKind → Option Bool
  | [] => some true
  | table :: tables =>
      match Pages.eachRow LedgerRow.id (page table) visit fuel zeroUuid with
      | some true => eachLedgerRow page visit fuel tables
      | other => other

/-- The rolling digest after a page; `none` models the thrown error of the schema. -/
def rollPage (codec : LedgerCodec) (rolling : Hash) (page : List FinancialCheckpoint) :
    Option Hash :=
  page.foldlM (fun rolling row => (codec.parseCheckpoint row).map (codec.rolling rolling)) rolling

/-- The loop of `recordedCheckpointsMatch`, with `left` checkpoints to read. -/
def recordedCheckpointsMatch (codec : LedgerCodec) (next : Nat → Nat → List FinancialCheckpoint)
    (batch : Nat) (checkpointDigest : Hash) : Nat → Nat → Hash → Nat → Option Bool
  | _, _, rolling, 0 => some (rolling == checkpointDigest)
  | 0, _, _, _ + 1 => none
  | fuel + 1, sequence, rolling, left + 1 =>
      let page := next sequence (min batch (left + 1))
      match page.getLast? with
      | none => some false
      | some last =>
          match rollPage codec rolling page with
          | none => none
          | some rolling =>
              recordedCheckpointsMatch codec next batch checkpointDigest fuel last.sequence rolling
                (left + 1 - page.length)

/-- The comparison of `verifyFullFinancialContinuity`: each part runs if the one before it
    succeeded. `none` is a thrown error. -/
def fullCheck (codec : LedgerCodec) (expected : WholeLedgerExpectation) {db : LedgerDatabase}
    {batch : Nat} (reader : LedgerReader db batch) (fuel : Nat) : Option Bool :=
  if financialCountsMatch db expected.counts then
    match eachLedgerRow reader.page (rowMatches codec expected) fuel FINANCIAL_TABLES with
    | some true =>
        recordedCheckpointsMatch codec reader.checkpointPage batch expected.checkpointDigest fuel 0
          zero expected.counts.checkpoints.toNat
    | other => other
  else some false

/-! ## Section 2: What the check is for -/

/-- The checkpoints of the database, oldest first. -/
def LedgerDatabase.checkpointsInOrder (db : LedgerDatabase) : List FinancialCheckpoint :=
  db.checkpoints.rows.mergeSort fun a b => decide (a.sequence ≤ b.sequence)

/-- The tables hold the atoms of some kinds of the ledger, and nothing else. -/
structure HoldsKinds (kinds : AtomKind → Prop) (codec : LedgerCodec) (db : LedgerDatabase)
    (ledger : Ledger) (checkpoints : List FinancialCheckpoint) : Prop where
  present : ∀ key atom, ledger key = some atom → kinds key.1 →
    ∃! row, row ∈ db.table key.1 ∧ financialAtomFromRow codec row = some atom
  nothingElse : ∀ kind, ∀ row ∈ db.table kind, ∃ atom, financialAtomFromRow codec row = some atom ∧
    ledger (financialAtomKey atom) = some atom
  checkpoints : db.checkpointsInOrder = checkpoints

/-- The tables hold the ledger; what is kept of an erased account has no table. -/
abbrev Holds := HoldsKinds (· ≠ .tombstone)

/-- The number of rows of the database. -/
def LedgerDatabase.size (db : LedgerDatabase) : Nat :=
  (db.table .account).length + (db.table .window).length + (db.table .binding).length +
    (db.table .attempt).length + (db.table .grant).length + db.checkpoints.rows.length

theorem LedgerDatabase.table_length_le (db : LedgerDatabase) (kind : AtomKind) :
    (db.table kind).length ≤ db.size := by
  unfold LedgerDatabase.size
  cases kind with
  | tombstone => exact Nat.zero_le _
  | _ => omega

/-- Every table but the one that does not exist. -/
theorem mem_financialTables {kind : AtomKind} (h : kind ≠ .tombstone) : kind ∈ FINANCIAL_TABLES := by
  cases kind with
  | tombstone => exact absurd rfl h
  | _ => decide

instance decidableUuidKeys (db : LedgerDatabase) : Decidable db.UuidKeys :=
  decidable_of_iff (∀ kind ∈ FINANCIAL_TABLES, ∀ row ∈ db.table kind,
    isUuid row.id = true ∧ row.id ≠ zeroUuid)
    ⟨fun h kind row hrow => h kind (mem_financialTables (by rintro rfl; cases hrow)) row hrow,
      fun h kind _ row hrow => h kind row hrow⟩

/-! ## Section 3: Rows -/

variable {codec : LedgerCodec} {s : Committed} {ledger : Ledger}
  {checkpoints : List FinancialCheckpoint} {db : LedgerDatabase} {batch fuel : Nat}

/-- Every row of every table is visited. -/
theorem eachLedgerRow_eq (hids : db.UuidKeys) (hbatch : 0 < batch) (reader : LedgerReader db batch)
    (hfuel : db.size < fuel) (visit : LedgerRow → Bool) (tables : List AtomKind) :
    eachLedgerRow reader.page visit fuel tables =
      some (tables.all fun table => (db.table table).all visit) := by
  induction tables with
  | nil => rfl
  | cons table tables ih =>
    have hlen : (Pages.rest LedgerRow.id (db.table table) zeroUuid).length < fuel := by
      rw [LedgerDatabase.rest_zeroUuid hids]
      exact lt_of_le_of_lt (db.table_length_le table) hfuel
    have hwalk : Pages.eachRow LedgerRow.id (reader.page table) visit fuel zeroUuid =
        some ((Pages.rest LedgerRow.id (db.table table) zeroUuid).all visit) :=
      Pages.eachRow_eq hbatch (reader.page_ok table) (db.table_nodup table) hlen
    rw [LedgerDatabase.rest_zeroUuid hids] at hwalk
    unfold eachLedgerRow
    rw [hwalk, List.all_cons]
    cases (db.table table).all visit with
    | false => rfl
    | true => rw [ih, Bool.true_and]

/-- A row matches if and only if its atom is recorded. -/
theorem rowMatches_iff (hcodec : codec.toCodec.Lawful) (hfree : codec.toCodec.CollisionFree)
    (h : Recorded codec s ledger checkpoints) (row : LedgerRow) :
    rowMatches codec (fullLedgerExpectation codec s.fold s.trail) row = true ↔
      ∃ atom, financialAtomFromRow codec row = some atom ∧
        ledger (financialAtomKey atom) = some atom := by
  unfold rowMatches
  cases hrow : financialAtomFromRow codec row with
  | none => simp
  | some atom =>
    have hdigest : ∀ {key found}, ledger key = some found →
        codec.atomDigest found = codec.atomDigest atom → found = atom := by
      intro key found _ heq
      exact hcodec.canonicalAtom_injective (hfree.digest_injective heq)
    show s.fold.matchesAtom codec.toCodec [] atom = true ↔ _
    rw [h.represents.matchesAtom_iff hcodec hdigest]
    constructor
    · intro hledger
      exact ⟨atom, rfl, hledger⟩
    · rintro ⟨found, hfound, hledger⟩
      cases hfound
      exact hledger

/-- The keys of a table. -/
def tableKeys (db : LedgerDatabase) (kind : AtomKind) : List AtomKey :=
  (db.table kind).map fun row => (kind, row.id)

/-- The keys of a kind in a fold. -/
def foldKeys (fold : Fold) (kind : AtomKind) : List AtomKey :=
  fold.allKeys.filter fun key => key.1 == kind

theorem tableKeys_nodup (db : LedgerDatabase) (kind : AtomKind) : (tableKeys db kind).Nodup := by
  have h := (db.table_nodup kind).map (f := fun id : Id => (kind, id))
    fun a b hab => (Prod.mk.inj hab).2
  rwa [List.map_map] at h

theorem foldKeys_nodup (h : Recorded codec s ledger checkpoints) (kind : AtomKind) :
    (foldKeys s.fold kind).Nodup := h.represents.nodup_allKeys.filter _

theorem mem_foldKeys (h : Recorded codec s ledger checkpoints) {kind : AtomKind} {key : AtomKey} :
    key ∈ foldKeys s.fold kind ↔ (ledger key).isSome ∧ key.1 = kind := by
  rw [foldKeys, List.mem_filter, h.represents.mem_allKeys, beq_iff_eq]

/-- Rows of recorded atoms have recorded keys. -/
theorem tableKeys_subset (h : Recorded codec s ledger checkpoints) {kind : AtomKind}
    (hrows : ∀ row ∈ db.table kind, ∃ atom, financialAtomFromRow codec row = some atom ∧
      ledger (financialAtomKey atom) = some atom) :
    tableKeys db kind ⊆ foldKeys s.fold kind := by
  intro key hkey
  obtain ⟨row, hrow, rfl⟩ := List.mem_map.1 hkey
  obtain ⟨atom, hatom, hledger⟩ := hrows row hrow
  rw [financialAtomKey_fromRow hatom, LedgerDatabase.table_kind hrow] at hledger
  rw [mem_foldKeys h]
  exact ⟨by rw [hledger]; rfl, rfl⟩

/-- A recorded atom whose key is in the table is the atom of one row. -/
theorem present_of_mem {key : AtomKey} {atom : FinancialAtom}
    (hrows : ∀ row ∈ db.table key.1, ∃ atom, financialAtomFromRow codec row = some atom ∧
      ledger (financialAtomKey atom) = some atom)
    (hledger : ledger key = some atom) (hkey : key ∈ tableKeys db key.1) :
    ∃! row, row ∈ db.table key.1 ∧ financialAtomFromRow codec row = some atom := by
  obtain ⟨row, hrow, hid⟩ := List.mem_map.1 hkey
  obtain ⟨found, hfound, hrecorded⟩ := hrows row hrow
  have hrowKey : financialAtomKey found = key := by
    rw [financialAtomKey_fromRow hfound, LedgerDatabase.table_kind hrow]
    exact hid
  rw [hrowKey, hledger] at hrecorded
  cases hrecorded
  refine ⟨row, ⟨hrow, hfound⟩, ?_⟩
  -- another row of this atom has this key
  intro other hother
  have hids : other.id = row.id := by
    have := (financialAtomKey_fromRow hother.2).symm.trans (financialAtomKey_fromRow hfound)
    exact (Prod.mk.inj this).2
  exact List.inj_on_of_nodup_map (db.table_nodup key.1) hother.1 hrow hids

/-- **Rows**: with the counts right, every row matches if and only if the tables hold the
    ledger's atoms of that kind. -/
theorem table_exact (h : Recorded codec s ledger checkpoints) {kind : AtomKind}
    (hcount : (db.table kind).length = (foldKeys s.fold kind).length)
    (hrows : ∀ row ∈ db.table kind, ∃ atom, financialAtomFromRow codec row = some atom ∧
      ledger (financialAtomKey atom) = some atom)
    {key : AtomKey} {atom : FinancialAtom} (hledger : ledger key = some atom)
    (hkind : key.1 = kind) :
    ∃! row, row ∈ db.table key.1 ∧ financialAtomFromRow codec row = some atom := by
  subst hkind
  have hsub : (tableKeys db key.1).Subperm (foldKeys s.fold key.1) :=
    (tableKeys_nodup db key.1).subperm (tableKeys_subset h hrows)
  have hperm : (tableKeys db key.1).Perm (foldKeys s.fold key.1) := by
    apply hsub.perm_of_length_le
    rw [tableKeys, List.length_map, hcount]
  apply present_of_mem hrows hledger
  rw [hperm.mem_iff, mem_foldKeys h]
  exact ⟨by rw [hledger]; rfl, rfl⟩

/-- A table that holds the ledger has as many rows as the fold has keys. -/
theorem HoldsKinds.length_table (h : Recorded codec s ledger checkpoints) {kinds : AtomKind → Prop}
    (hholds : HoldsKinds kinds codec db ledger checkpoints) {kind : AtomKind} (hkind : kinds kind) :
    (db.table kind).length = (foldKeys s.fold kind).length := by
  have hperm : (tableKeys db kind).Perm (foldKeys s.fold kind) := by
    rw [List.perm_ext_iff_of_nodup (tableKeys_nodup db kind) (foldKeys_nodup h kind)]
    intro key
    constructor
    · intro hkey
      exact tableKeys_subset h (hholds.nothingElse kind) hkey
    · intro hkey
      obtain ⟨hsome, rfl⟩ := (mem_foldKeys h).1 hkey
      obtain ⟨atom, hatom⟩ := Option.isSome_iff_exists.1 hsome
      obtain ⟨row, ⟨hrow, hfrom⟩, -⟩ := hholds.present key atom hatom hkind
      have hrowKey := (financialAtomKey_fromRow hfrom).symm.trans (h.keyed hatom)
      exact List.mem_map.2 ⟨row, hrow, by rw [← hrowKey, LedgerDatabase.table_kind hrow]⟩
  have := hperm.length_eq
  rwa [tableKeys, List.length_map] at this

/-! ## Section 4: Counts -/

theorem countMatches_iff {count : Nat} {expected : Int} :
    countMatches count expected = true ↔ count ≤ MAX_SAFE_INTEGER ∧ (count : Int) = expected := by
  simp [countMatches]

/-- What fits in the runtime can be counted. -/
theorem foldKeys_safe (h : Recorded codec s ledger checkpoints) (kind : AtomKind) :
    (foldKeys s.fold kind).length ≤ MAX_SAFE_INTEGER := by
  have hle : (foldKeys s.fold kind).length ≤ s.fold.allKeys.length := List.length_filter_le _ _
  obtain ⟨hlive, hsummarised⟩ := Bool.and_eq_true_iff.1 h.fits
  have hlive := of_decide_eq_true hlive
  have hsummarised := of_decide_eq_true hsummarised
  rw [Fold.allKeys, List.length_append, Table.keys, Table.keys, List.length_map,
    List.length_map] at hle
  unfold MAP_MAX_ENTRIES at hlive hsummarised
  unfold MAX_SAFE_INTEGER
  omega

/-- Sequences that increase up to a bound are no more than the bound. -/
theorem length_le_of_increasing {rows : List FinancialCheckpoint} {low high : Nat}
    (hincreasing : rows.Pairwise fun a b => a.sequence < b.sequence)
    (hlow : ∀ row ∈ rows, low < row.sequence) (hhigh : ∀ row ∈ rows, row.sequence ≤ high)
    (hle : low ≤ high) : rows.length ≤ high - low := by
  induction rows generalizing low with
  | nil => exact Nat.zero_le _
  | cons row rows ih =>
    rw [List.pairwise_cons] at hincreasing
    have hfirst := hlow row List.mem_cons_self
    have hlast := hhigh row List.mem_cons_self
    have hrest := ih hincreasing.2 hincreasing.1
      (fun other hother => hhigh other (List.mem_cons_of_mem _ hother)) hlast
    rw [List.length_cons]
    omega

theorem acceptsCheckpoint_sequence {row : FinancialCheckpoint}
    (h : codec.acceptsCheckpoint row = true) :
    0 < row.sequence ∧ row.sequence ≤ MAX_SAFE_INTEGER := by
  simp only [LedgerCodec.acceptsCheckpoint, Bool.and_eq_true, decide_eq_true_eq] at h
  exact ⟨h.1.2, h.2⟩

theorem checkpoints_safe (h : Recorded codec s ledger checkpoints) :
    checkpoints.length ≤ MAX_SAFE_INTEGER :=
  length_le_of_increasing h.increasing
    (fun row hrow => (acceptsCheckpoint_sequence (h.checked row hrow)).1)
    (fun row hrow => (acceptsCheckpoint_sequence (h.checked row hrow)).2) (Nat.zero_le _)

/-- **Counts** match if and only if every table has as many rows as the fold has keys. -/
theorem financialCountsMatch_iff (h : Recorded codec s ledger checkpoints) :
    financialCountsMatch db (fullLedgerExpectation codec s.fold s.trail).counts = true ↔
      (∀ kind ∈ FINANCIAL_TABLES, (db.table kind).length = (foldKeys s.fold kind).length) ∧
        db.checkpoints.rows.length = checkpoints.length := by
  have hcounts : (fullLedgerExpectation codec s.fold s.trail).counts =
      Fold.countKeys s.fold.allKeys checkpoints.length := by
    show s.fold.counts [] s.trail.checkpointCount = _
    rw [h.represents.counts_nil, h.count]
  have hkind : ∀ kind : AtomKind, countMatches (db.table kind).length
      (s.fold.allKeys.countP fun key => key.1 == kind) = true ↔
        (db.table kind).length = (foldKeys s.fold kind).length := by
    intro kind
    rw [countMatches_iff, List.countP_eq_length_filter]
    have hsafe := foldKeys_safe h kind
    unfold foldKeys at hsafe ⊢
    omega
  have hcheckpoints : countMatches db.checkpoints.rows.length checkpoints.length = true ↔
      db.checkpoints.rows.length = checkpoints.length := by
    rw [countMatches_iff]
    have := checkpoints_safe h
    omega
  rw [hcounts]
  simp only [financialCountsMatch, Fold.countKeys, Bool.and_eq_true, hkind, hcheckpoints,
    FINANCIAL_TABLES, List.forall_mem_cons, List.not_mem_nil, false_imp_iff, implies_true,
    and_true]
  tauto

/-! ## Section 5: Checkpoints -/

theorem rollPage_some {rolling result : Hash} {page : List FinancialCheckpoint} :
    rollPage codec rolling page = some result ↔
      (∀ row ∈ page, codec.acceptsCheckpoint row = true) ∧
        result = page.foldl codec.rolling rolling := by
  unfold rollPage
  induction page generalizing rolling with
  | nil =>
    constructor
    · intro h
      cases h
      exact ⟨fun _ => nofun, rfl⟩
    · rintro ⟨-, rfl⟩
      rfl
  | cons row page ih =>
    rw [List.foldlM_cons, List.forall_mem_cons, List.foldl_cons]
    unfold LedgerCodec.parseCheckpoint
    by_cases hrow : codec.acceptsCheckpoint row = true
    · rw [if_pos hrow]
      simp only [Option.map_some, Option.bind_eq_bind, Option.bind_some, hrow, true_and]
      exact ih
    · rw [if_neg hrow]
      simp [hrow]

/-- The loop succeeds on the checkpoints it reads, if they pass and have the digest. -/
theorem recordedCheckpointsMatch_iff {next : Nat → Nat → List FinancialCheckpoint}
    {checkpointDigest : Hash} {sequence left : Nat} {rolling : Hash} :
    recordedCheckpointsMatch codec next batch checkpointDigest fuel sequence rolling left =
        some true ↔
      ∃ read, Pages.collect FinancialCheckpoint.sequence next batch fuel sequence left = some read ∧
        (∀ row ∈ read, codec.acceptsCheckpoint row = true) ∧
        read.foldl codec.rolling rolling = checkpointDigest := by
  induction fuel generalizing sequence left rolling with
  | zero =>
    cases left with
    | zero => simp [recordedCheckpointsMatch, Pages.collect]
    | succ left => simp [recordedCheckpointsMatch, Pages.collect]
  | succ fuel ih =>
    cases left with
    | zero => simp [recordedCheckpointsMatch, Pages.collect]
    | succ left =>
      unfold recordedCheckpointsMatch Pages.collect
      dsimp only
      generalize next sequence (min batch (left + 1)) = page
      cases hlast : page.getLast? with
      | none => simp
      | some last =>
        dsimp only
        cases hroll : rollPage codec rolling page with
        | none =>
          constructor
          · intro h
            cases h
          · rintro ⟨read, hread, hok, -⟩
            obtain ⟨tail, -, rfl⟩ := Option.map_eq_some_iff.1 hread
            have hpage : rollPage codec rolling page = some (page.foldl codec.rolling rolling) :=
              rollPage_some.2 ⟨fun row hrow => hok row (List.mem_append_left _ hrow), rfl⟩
            rw [hroll] at hpage
            cases hpage
        | some rolled =>
          obtain ⟨hpage, rfl⟩ := rollPage_some.1 hroll
          rw [ih]
          constructor
          · rintro ⟨tail, htail, hok, hdigest⟩
            refine ⟨page ++ tail, by rw [htail]; rfl, ?_, by rw [List.foldl_append]; exact hdigest⟩
            intro row hrow
            rcases List.mem_append.1 hrow with hfirst | hrest
            · exact hpage row hfirst
            · exact hok row hrest
          · rintro ⟨read, hread, hok, hdigest⟩
            obtain ⟨tail, htail, rfl⟩ := Option.map_eq_some_iff.1 hread
            rw [List.foldl_append] at hdigest
            exact ⟨tail, htail, fun row hrow => hok row (List.mem_append_right _ hrow), hdigest⟩

/-- A rolling digest is the first one or a digest. -/
theorem rollingOf_digest (rows : List FinancialCheckpoint) :
    codec.rollingOf rows = zero ∨ ∃ bytes, codec.rollingOf rows = codec.digest bytes := by
  induction rows using List.reverseRecOn with
  | nil => exact .inl rfl
  | append_singleton rows row _ =>
    refine .inr ⟨codec.canonicalRolling (codec.rollingOf rows) row, ?_⟩
    unfold Codec.rollingOf
    rw [List.foldl_append]
    rfl

/-- Lists of one length with one rolling digest are the same; the induction takes the last
    checkpoint off both. -/
theorem rollingOf_injective (hfree : codec.toCodec.CollisionFree)
    {rows rows' : List FinancialCheckpoint} (hlen : rows.length = rows'.length)
    (h : codec.rollingOf rows = codec.rollingOf rows') : rows = rows' := by
  induction rows using List.reverseRecOn generalizing rows' with
  | nil => exact (List.length_eq_zero_iff.1 hlen.symm).symm
  | append_singleton rows row ih =>
    cases rows' using List.reverseRecOn with
    | nil => simp at hlen
    | append_singleton rows' row' =>
      have hdigest : codec.digest (codec.canonicalRolling (codec.rollingOf rows) row) =
          codec.digest (codec.canonicalRolling (codec.rollingOf rows') row') := by
        unfold Codec.rollingOf at h ⊢
        rwa [List.foldl_append, List.foldl_append] at h
      obtain ⟨hprevious, hrow⟩ := hfree.rolling_injective (rollingOf_digest rows)
        (rollingOf_digest rows') (hfree.digest_injective hdigest)
      rw [List.length_append, List.length_append] at hlen
      rw [ih (by simpa using hlen) hprevious, hrow]

/-- The ordered checkpoints are a strictly increasing list if and only if they are its rows. -/
theorem checkpointsInOrder_eq_iff {rows : List FinancialCheckpoint}
    (hincreasing : rows.Pairwise fun a b => a.sequence < b.sequence) :
    db.checkpointsInOrder = rows ↔ db.checkpoints.rows.Perm rows := by
  have hperm : db.checkpointsInOrder.Perm db.checkpoints.rows := List.mergeSort_perm _ _
  constructor
  · intro h
    rw [h] at hperm
    exact hperm.symm
  · intro h
    have hsame := hperm.trans h
    have hnodup : (rows.map FinancialCheckpoint.sequence).Nodup :=
      List.pairwise_map.2 (hincreasing.imp fun h => h.ne)
    apply hsame.eq_of_pairwise
    · intro a b ha hb hab hba
      exact List.inj_on_of_nodup_map hnodup (hsame.subset ha) hb (le_antisymm hab hba)
    · apply List.Pairwise.imp of_decide_eq_true
      apply List.pairwise_mergeSort
      · intro a b c hab hbc
        simp only [decide_eq_true_eq] at *
        exact hab.trans hbc
      · intro a b
        simpa using le_total a.sequence b.sequence
    · exact hincreasing.imp fun h => h.le

/-- **Checkpoints**: with their number right, the loop succeeds if and only if the database has
    the recorded checkpoints. -/
theorem checkpoints_exact (hfree : codec.toCodec.CollisionFree)
    (h : Recorded codec s ledger checkpoints) (hbatch : 0 < batch)
    (reader : LedgerReader db batch) (hfuel : db.size < fuel)
    (hcount : db.checkpoints.rows.length = checkpoints.length) :
    recordedCheckpointsMatch codec reader.checkpointPage batch s.trail.checkpointDigest fuel 0 zero
        checkpoints.length = some true ↔ db.checkpointsInOrder = checkpoints := by
  rw [recordedCheckpointsMatch_iff, checkpointsInOrder_eq_iff h.increasing, h.rolling]
  constructor
  · rintro ⟨read, hread, -, hdigest⟩
    obtain ⟨hlen, hsub, -⟩ := Pages.collect_some reader.checkpointPage_ok hread
    have hrest : (Pages.rest FinancialCheckpoint.sequence db.checkpoints.rows 0).Subperm
        db.checkpoints.rows := List.filter_sublist.subperm
    have hperm : read.Perm db.checkpoints.rows := by
      apply (hsub.trans hrest).perm_of_length_le
      omega
    rw [← rollingOf_injective hfree hlen hdigest]
    exact hperm.symm
  · intro hperm
    have hpositive : Pages.rest FinancialCheckpoint.sequence db.checkpoints.rows 0 =
        db.checkpoints.rows := by
      apply Pages.rest_eq_self
      intro row hrow
      exact (acceptsCheckpoint_sequence (h.checked row (hperm.subset hrow))).1
    have hsize : db.checkpoints.rows.length ≤ db.size := by
      unfold LedgerDatabase.size
      omega
    have hread : Pages.collect FinancialCheckpoint.sequence reader.checkpointPage batch fuel 0
        checkpoints.length = some (checkpoints.take checkpoints.length) :=
      Pages.collect_sorted hbatch reader.checkpointPage_ok
        (by rw [hpositive]; exact hperm.symm) h.increasing le_rfl (by omega)
    rw [List.take_length] at hread
    exact ⟨checkpoints, hread, h.checked, rfl⟩

/-! ## Section 6: Exactness -/

/-- Tables that hold the fold have its counts. -/
theorem HoldsKinds.countsMatch (hholds : Holds codec db ledger checkpoints)
    (h : Recorded codec s ledger checkpoints) :
    financialCountsMatch db (fullLedgerExpectation codec s.fold s.trail).counts = true := by
  refine (financialCountsMatch_iff h).2 ⟨?_, ?_⟩
  · intro kind hmem
    apply hholds.length_table h
    intro htomb
    rw [htomb] at hmem
    revert hmem
    decide
  · exact ((checkpointsInOrder_eq_iff h.increasing).1 hholds.checkpoints).length_eq

/-- The check succeeds if and only if the tables hold what is recorded. -/
theorem Recorded.fullCheck_iff (hcodec : codec.toCodec.Lawful) (hfree : codec.toCodec.CollisionFree)
    (h : Recorded codec s ledger checkpoints) (hids : db.UuidKeys) (hbatch : 0 < batch)
    (reader : LedgerReader db batch) (hfuel : db.size < fuel) :
    fullCheck codec (fullLedgerExpectation codec s.fold s.trail) reader fuel = some true ↔
      Holds codec db ledger checkpoints := by
  -- Three comparisons: the counts, row by row, and the checkpoints in their order.
  have hcounts : financialCountsMatch db (fullLedgerExpectation codec s.fold s.trail).counts = true ↔
      (∀ kind ∈ FINANCIAL_TABLES, (db.table kind).length = (foldKeys s.fold kind).length) ∧
        db.checkpoints.rows.length = checkpoints.length := financialCountsMatch_iff h
  have hleft : (fullLedgerExpectation codec s.fold s.trail).counts.checkpoints.toNat =
      checkpoints.length := by
    show ((s.trail.checkpointCount : Int)).toNat = _
    rw [Int.toNat_natCast, h.count]
  have hrows : eachLedgerRow reader.page
      (rowMatches codec (fullLedgerExpectation codec s.fold s.trail)) fuel FINANCIAL_TABLES =
        some true ↔ ∀ kind, ∀ row ∈ db.table kind, ∃ atom,
          financialAtomFromRow codec row = some atom ∧
            ledger (financialAtomKey atom) = some atom := by
    rw [eachLedgerRow_eq hids hbatch reader hfuel]
    simp only [Option.some.injEq, List.all_eq_true, rowMatches_iff hcodec hfree h]
    constructor
    · intro hall kind row hrow
      exact hall kind (mem_financialTables (by rintro rfl; cases hrow)) row hrow
    · intro hall kind _ row hrow
      exact hall kind row hrow
  unfold fullCheck
  constructor
  · intro hcheck
    split at hcheck
    · next hok =>
      obtain ⟨htables, hnumber⟩ := hcounts.1 hok
      have hevery : eachLedgerRow reader.page
          (rowMatches codec (fullLedgerExpectation codec s.fold s.trail)) fuel FINANCIAL_TABLES =
            some true := by
        split at hcheck
        · next heq => exact heq
        · next hne => exact absurd hcheck hne
      rw [hevery] at hcheck
      dsimp only at hcheck
      rw [hleft] at hcheck
      have hmatch := hrows.1 hevery
      refine ⟨?_, hmatch, (checkpoints_exact hfree h hbatch reader hfuel hnumber).1 hcheck⟩
      -- Every row is the ledger's, and there are as many: so none is missing.
      intro key atom hledger hkind
      exact table_exact h (htables key.1 (mem_financialTables hkind)) (hmatch key.1) hledger rfl
    · cases hcheck
  · intro hholds
    have hok := hholds.countsMatch h
    rw [if_pos hok, hrows.2 hholds.nothingElse]
    dsimp only
    rw [hleft]
    exact (checkpoints_exact hfree h hbatch reader hfuel (hcounts.1 hok).2).2 hholds.checkpoints

/-- **Exactness**: for every journal and every database the check succeeds if and only if the
    tables hold the fold, with pages of any size. A journal that committed the same and
    summarised other attempts gives the same answer. -/
theorem fullCheck_exact (hcodec : codec.toCodec.Lawful) (hfree : codec.toCodec.CollisionFree)
    {journalId : Id} {steps : List CommitStep}
    (hrun : (Committed.system codec journalId).run (Committed.start journalId) steps = some s)
    (hids : db.UuidKeys) (hbatch : 0 < batch) (reader : LedgerReader db batch)
    (hfuel : db.size < fuel) :
    (fullCheck codec (fullLedgerExpectation codec s.fold s.trail) reader fuel = some true ↔
      Holds codec db (ledgerOf steps) (checkpointsOf journalId steps)) ∧
    ∀ (steps' : List CommitStep) (s' : Committed) (batch' fuel' : Nat)
      (reader' : LedgerReader db batch'),
      steps'.filter CommitStep.commits = steps.filter CommitStep.commits →
      (Committed.system codec journalId).run (Committed.start journalId) steps' = some s' →
      0 < batch' → db.size < fuel' →
      (fullCheck codec (fullLedgerExpectation codec s'.fold s'.trail) reader' fuel' = some true ↔
        fullCheck codec (fullLedgerExpectation codec s.fold s.trail) reader fuel = some true) := by
  have hexact := (recorded_run hrun).fullCheck_iff hcodec hfree hids hbatch reader hfuel
  refine ⟨hexact, ?_⟩
  intro steps' s' batch' fuel' reader' hsame hrun' hbatch' hfuel'
  -- What is summarised and when does not change the ledger, nor its checkpoints.
  have hledger : ledgerOf steps' = ledgerOf steps := by
    rw [← ledgerOf_commits steps', hsame, ledgerOf_commits]
  have hcheckpoints : checkpointsOf journalId steps' = checkpointsOf journalId steps := by
    rw [← checkpointsOf_commits journalId steps', hsame, checkpointsOf_commits]
  rw [(recorded_run hrun').fullCheck_iff hcodec hfree hids hbatch' reader' hfuel', hledger,
    hcheckpoints, hexact]

/-! A ledger with a row in each table. -/

/-- The uuid that ends with a digit. -/
def spentId (digit : Char) : Id := "00000000-0000-4000-8000-00000000000".toList ++ [digit]

def spentAccount : AccountRow where
  id := spentId '1'
  installationAccountId := spentId '1'
  kind := .installation
  state := .open
  reason := .approved
  activeWindowId := some (spentId '2')
  installationCap := some ['1', '0']
  policyGeneration := ['1']
  selectedEndpoint := none
  endpointGeneration := ['1']
  recoveryEpoch := none
  canonicalSuppressionHash := none
  providerSuppressionHashes := []

def spentWindow : WindowRow := ⟨spentId '2', spentId '1', ['a'], ['b'], ['0'], ['1', '0'], ['1']⟩

def spentBinding : BindingRow :=
  ⟨spentId '3', spentId '1', spentId '1', ['e'], ['1'], ['p'], ['1'], none, true⟩

/-- An attempt of a state, with what it has cost so far. -/
def spentAttempt (digit : Char) (state : AttemptState) (actual : Option Text) : AttemptRow where
  id := spentId digit
  installationAccountId := spentId '1'
  memberAccountId := spentId '1'
  bindingId := spentId '3'
  installationWindowId := spentId '2'
  memberWindowId := spentId '2'
  endpointHash := ['e']
  credentialGeneration := ['1']
  installationPolicyGeneration := ['1']
  memberPolicyGeneration := ['1']
  endpointGeneration := ['1']
  recoveryEpoch := ['r']
  requestHash := ['q']
  profileHash := ['p']
  invocationHash := none
  reservedAmount := ['1']
  installationCapSnapshot := ['1', '0']
  memberCapSnapshot := ['1', '0']
  createdUtc := ['a']
  expiresUtc := ['b']
  admittedUtc := some ['a']
  state
  actualAmount := actual
  settlementHash := none
  conflictReason := none
  conflictHash := none
  highestObservedLiability := ['1']

/-- One attempt is settled, and one is admitted. -/
def spentRows : List LedgerRow :=
  [.account spentAccount, .window spentWindow, .binding spentBinding,
    .attempt (spentAttempt '4' .settled (some ['1'])), .attempt (spentAttempt '5' .admitted none),
    .grant ⟨spentId '4', ['g']⟩, .grant ⟨spentId '5', ['h']⟩]

def spentJournalId : Id := spentId '6'

/-- The atoms of all rows are committed, and what is finished is summarised. -/
def spending : List CommitStep :=
  [.commit 0 (spentId '7') ['d'] .admission
    (spentRows.filterMap (financialAtomFromRow PlainCodec.plainCodec)), .summarise 0]

/-- The journal after some steps. -/
def spentJournal (steps : List CommitStep) : Committed :=
  ((Committed.system PlainCodec.plainCodec spentJournalId).run
    (Committed.start spentJournalId) steps).getD (Committed.start spentJournalId)

theorem spentJournal_run {steps : List CommitStep}
    (h : ((Committed.system PlainCodec.plainCodec spentJournalId).run
      (Committed.start spentJournalId) steps).isSome = true) :
    (Committed.system PlainCodec.plainCodec spentJournalId).run
      (Committed.start spentJournalId) steps = some (spentJournal steps) := by
  obtain ⟨t, ht⟩ := Option.isSome_iff_exists.1 h
  unfold spentJournal
  rw [ht]
  rfl

theorem spentAttempts_nodup (state : AttemptState) :
    ([spentAttempt '5' state none, spentAttempt '4' .settled (some ['1'])].map
      AttemptRow.id).Nodup := by
  show [spentId '5', spentId '4'].Nodup
  decide

theorem spentGrants_nodup : ([⟨spentId '5', ['h']⟩, ⟨spentId '4', ['g']⟩].map
    GrantRow.attemptId).Nodup := by
  decide

/-- The database, on whose disk the younger attempt comes first, in some state. -/
def spentDatabase (state : AttemptState) (checkpoints : Table FinancialCheckpoint.operationId) :
    LedgerDatabase where
  accounts := ⟨[spentAccount], List.nodup_singleton _⟩
  windows := ⟨[spentWindow], List.nodup_singleton _⟩
  bindings := ⟨[spentBinding], List.nodup_singleton _⟩
  attempts := ⟨[spentAttempt '5' state none, spentAttempt '4' .settled (some ['1'])],
    spentAttempts_nodup state⟩
  grants := ⟨[⟨spentId '5', ['h']⟩, ⟨spentId '4', ['g']⟩], spentGrants_nodup⟩
  checkpoints

/-- With one checkpoint. -/
def spentOnce (state : AttemptState) : LedgerDatabase :=
  spentDatabase state ⟨checkpointsOf spentJournalId spending, List.nodup_singleton _⟩

/-- One attempt is summarised and one is live. The check accepts the rows, with pages of one row and
    nothing summarised as well, and no other state of the live attempt. -/
theorem fullCheck_exact_spent :
    (spentJournal spending).fold.summarised.rows.length = 2 ∧
    (spentJournal spending).fold.projection.rows.length = 5 ∧
    Holds PlainCodec.plainCodec (spentOnce .admitted) (ledgerOf spending)
      (checkpointsOf spentJournalId spending) ∧
    (spentJournal (spending.take 1)).fold.summarised.rows = [] ∧
    fullCheck PlainCodec.plainCodec (fullLedgerExpectation PlainCodec.plainCodec
      (spentJournal (spending.take 1)).fold (spentJournal (spending.take 1)).trail)
        ((spentOnce .admitted).reader 1) 9 = some true ∧
    ¬ Holds PlainCodec.plainCodec (spentOnce .unknown) (ledgerOf spending)
      (checkpointsOf spentJournalId spending) := by
  have hrun := @spentJournal_run spending (by decide +kernel)
  have hrun' := @spentJournal_run (spending.take 1) (by decide +kernel)
  have hcheck : fullCheck PlainCodec.plainCodec (fullLedgerExpectation PlainCodec.plainCodec
      (spentJournal spending).fold (spentJournal spending).trail)
        ((spentOnce .admitted).reader WHOLE_LEDGER_BATCH) 9 = some true := by
    decide +kernel
  have hchanged : fullCheck PlainCodec.plainCodec (fullLedgerExpectation PlainCodec.plainCodec
      (spentJournal spending).fold (spentJournal spending).trail)
        ((spentOnce .unknown).reader WHOLE_LEDGER_BATCH) 9 ≠ some true := by
    decide +kernel
  have hids : ∀ state, (spentOnce state).UuidKeys ∧ (spentOnce state).size < 9 := by
    intro state
    cases state <;> exact ⟨by decide +kernel, by decide⟩
  have hexact := fullCheck_exact PlainCodec.plainCodec_lawful PlainCodec.plainCodec_collisionFree
    hrun (hids .admitted).1 (by decide) ((spentOnce .admitted).reader WHOLE_LEDGER_BATCH)
    (hids .admitted).2
  have hother := fullCheck_exact PlainCodec.plainCodec_lawful PlainCodec.plainCodec_collisionFree
    hrun (hids .unknown).1 (by decide) ((spentOnce .unknown).reader WHOLE_LEDGER_BATCH)
    (hids .unknown).2
  refine ⟨by decide +kernel, by decide +kernel, hexact.1.1 hcheck, by decide +kernel, ?_, ?_⟩
  · exact (hexact.2 (spending.take 1) _ 1 9 ((spentOnce .admitted).reader 1) rfl hrun' (by decide)
      (by decide)).2 hcheck
  · exact fun hholds => hchanged (hother.1.2 hholds)

/-- What is kept of an erased account. -/
def erasedTombstone : FinancialAtom :=
  .tombstone "00000000-0000-4000-8000-000000000003".toList (List.replicate 64 'b')
    [List.replicate 64 'c'] true

/-- The erasure of a person, as far as the tombstone shows it. -/
def erasure : CommitStep :=
  .commit 1 "00000000-0000-4000-8000-000000000002".toList (List.replicate 64 'a') .erasePerson
    [erasedTombstone]

def erasureJournalId : Id := "00000000-0000-4000-8000-000000000001".toList

/-- The journal after the erasure. -/
def erasureJournal : Committed :=
  ((Committed.start erasureJournalId).next PlainCodec.plainCodec erasure).getD
    (Committed.start erasureJournalId)

/-- The database after the erasure, without its other rows. -/
def erasureDatabase : LedgerDatabase where
  accounts := Table.empty
  windows := Table.empty
  bindings := Table.empty
  attempts := Table.empty
  grants := Table.empty
  checkpoints := ⟨checkpointsOf erasureJournalId [erasure], List.nodup_singleton _⟩

theorem erasureJournal_run :
    (Committed.system PlainCodec.plainCodec erasureJournalId).run
      (Committed.start erasureJournalId) [erasure] = some erasureJournal := by
  have hsome : ((Committed.start erasureJournalId).next PlainCodec.plainCodec erasure).isSome := by
    decide +kernel
  obtain ⟨t, ht⟩ := Option.isSome_iff_exists.1 hsome
  show ((Committed.start erasureJournalId).next PlainCodec.plainCodec erasure).bind _ = _
  unfold erasureJournal
  rw [ht]
  rfl

theorem erasureDatabase_empty (kind : AtomKind) : erasureDatabase.table kind = [] := by
  cases kind <;> rfl

theorem erasureDatabase_uuidKeys : erasureDatabase.UuidKeys := by
  intro kind row hrow
  rw [erasureDatabase_empty] at hrow
  cases hrow

theorem erasureDatabase_holds : Holds PlainCodec.plainCodec erasureDatabase (ledgerOf [erasure])
    (checkpointsOf erasureJournalId [erasure]) where
  present := by
    intro key atom hledger hkind
    -- the tombstone is all the ledger has
    rcases putAll_some hledger with hnone | ⟨hmem, hkey⟩
    · cases hnone
    · rw [← hkey, List.mem_singleton.1 hmem] at hkind
      exact absurd rfl hkind
  nothingElse := by
    intro kind row hrow
    rw [erasureDatabase_empty] at hrow
    cases hrow
  checkpoints := List.mergeSort_singleton _

/-- The check succeeds although no table has the tombstone. -/
theorem fullCheck_tombstone :
    PlainCodec.plainCodec.toCodec.Lawful ∧ PlainCodec.plainCodec.toCodec.CollisionFree ∧
    erasureDatabase.UuidKeys ∧
    (Committed.system PlainCodec.plainCodec erasureJournalId).run
      (Committed.start erasureJournalId) [erasure] = some erasureJournal ∧
    fullCheck PlainCodec.plainCodec (fullLedgerExpectation PlainCodec.plainCodec erasureJournal.fold
      erasureJournal.trail) (erasureDatabase.reader WHOLE_LEDGER_BATCH) 2 = some true ∧
    ¬ HoldsKinds (fun _ => True) PlainCodec.plainCodec erasureDatabase (ledgerOf [erasure])
      (checkpointsOf erasureJournalId [erasure]) := by
  refine ⟨PlainCodec.plainCodec_lawful, PlainCodec.plainCodec_collisionFree,
    erasureDatabase_uuidKeys, erasureJournal_run, ?_, ?_⟩
  · exact ((recorded_run erasureJournal_run).fullCheck_iff PlainCodec.plainCodec_lawful
      PlainCodec.plainCodec_collisionFree erasureDatabase_uuidKeys (by decide) _ (by decide)).2
      erasureDatabase_holds
  · intro hholds
    have hledger : ledgerOf [erasure] (financialAtomKey erasedTombstone) =
        some erasedTombstone := by
      show (if financialAtomKey erasedTombstone = financialAtomKey erasedTombstone then
        some erasedTombstone else none) = _
      rw [if_pos rfl]
    obtain ⟨row, ⟨hrow, -⟩, -⟩ := hholds.present _ _ hledger trivial
    rw [erasureDatabase_empty] at hrow
    cases hrow

end Lares.Journal
