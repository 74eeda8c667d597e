import Lares.Framework.Chain
import Lares.Journal.Load
import Lares.Journal.PlainCodec

/-! # Tamper evidence of the journal books

    The head of a loaded journal determines every byte of its books. Backwards:
    the last book's records are linked by their digests, its first record holds
    the fingerprint of the book before it, and so on. The digests inside a
    trusted book are not looked at, and not needed.
-/

namespace Lares.Journal

variable {codec : Codec} {fingerprint : Hash}

/-! ## Section 1: Records -/

/-- Canonical bytes of checked records determine them. -/
def Codec.Readable (codec : Codec) : Prop :=
  ∀ {r r' : JournalRecord}, codec.accepts r = true → codec.accepts r' = true →
    codec.canonicalRecord r = codec.canonicalRecord r' → r = r'

/-- The number of the book that the record opens. -/
def RecordBody.book : RecordBody → Option Nat
  | .genesis _ _ => some 1
  | .bookOpen _ book _ _ => some book
  | _ => none

namespace Loading

variable {s t : Loading} {place : Place} {frame : Frame}

theorem body_genesis (h : s.body codec place frame = some t) : t.genesis = s.genesis := by
  unfold body at h
  dsimp only at h
  cases hbody : frame.record.body with
  | commit digest =>
    rw [hbody] at h
    dsimp only at h
    split at h
    · split at h
      · split at h
        · unfold commit at h
          dsimp only at h
          split at h
          · cases h
            rfl
          · cases h
        · cases h
      · cases h
    · cases h
  | _ =>
    rw [hbody] at h
    dsimp only at h
    repeat' split at h
    all_goals first
      | (cases h; rfl)
      | cases h

theorem body_book (h : s.body codec place frame = some t) (hposition : place.position ≠ 0) :
    frame.record.body.book = none := by
  unfold body at h
  dsimp only at h
  cases hbody : frame.record.body with
  | genesis journalId suppressionKeyFingerprint =>
    rw [hbody] at h
    cases h
  | bookOpen journalId book digest bytes =>
    rw [hbody] at h
    dsimp only at h
    rw [if_neg hposition] at h
    cases h
  | _ => rfl

theorem first_some {r : JournalRecord} (h : s.first fingerprint r = some t) :
    t.genesis = true ∧ r.body.book = some 1 := by
  unfold first at h
  split at h
  · next heq =>
    split at h
    · cases h
      rw [heq]
      exact ⟨rfl, rfl⟩
    · cases h
  · cases h

/-- What an accepted record says: the head it follows, and whether it opens its book. -/
theorem record_some (h : s.record codec fingerprint place frame = some t)
    (hgenesis : s.genesis = true ↔ 0 < place.index ∨ 0 < place.position) :
    frame.record.previousDigest = s.head ∧ t.head = frame.digest ∧ t.genesis = true ∧
      frame.record.body.book = if place.position = 0 then some (place.index + 1) else none := by
  unfold record at h
  dsimp only at h
  split at h
  · cases h
  · next hchain =>
    rw [not_or, not_not, not_not] at hchain
    split at h
    · cases h
    · split at h
      · cases h
      · next hopens =>
        obtain ⟨u, hu, rfl⟩ := Option.map_eq_some_iff.1 h
        refine ⟨hchain.2, rfl, ?_⟩
        split at hu
        · next hold =>
          refine ⟨(body_genesis hu).trans hold, ?_⟩
          split
          · next hzero =>
            -- the first record of a later book
            have hindex : 0 < place.index := by
              rcases hgenesis.1 hold with hindex | hposition
              · exact hindex
              · omega
            have hopen : s.opensBook place.index frame.record.body = true := by
              by_contra hnot
              rw [Bool.not_eq_true] at hnot
              exact hopens ⟨hindex, hzero, hnot⟩
            unfold opensBook at hopen
            split at hopen
            · next heq =>
              rw [heq]
              rw [Bool.and_eq_true, beq_iff_eq] at hopen
              exact congrArg some hopen.1
            · cases hopen
          · next hposition => exact body_book hu hposition
        · next hnew =>
          obtain ⟨hstarted, hbook⟩ := first_some hu
          refine ⟨hstarted, ?_⟩
          rw [hgenesis, not_or] at hnew
          rw [if_pos (by omega), hbook, show place.index = 0 by omega]

/-- A line whose digest is checked is the line of its frame. -/
theorem readFrame_some {line : Bytes} (h : readFrame codec false line = some frame) :
    codec.accepts frame.record = true ∧ frame = codec.frameOf frame.record ∧
      line = codec.canonicalFrame frame := by
  unfold readFrame at h
  rw [if_neg Bool.false_ne_true] at h
  split at h
  · cases h
  · obtain ⟨read, -, hread⟩ := Option.bind_eq_some_iff.1 h
    split at hread
    · next hframe =>
      cases hread
      obtain ⟨haccepts, hbytes, -, hdigest⟩ :=
        (codec.financialJournalFrame_eq_some).1 hframe
      have hself : frame = codec.frameOf frame.record := by
        show frame = ⟨frame.record, codec.digest (codec.canonicalRecord frame.record)⟩
        rw [← show frame.digest = codec.digest (codec.canonicalRecord frame.record) from hdigest]
      refine ⟨haccepts, hself, ?_⟩
      rw [← hself] at hbytes
      exact (List.append_inj' hbytes rfl).1
    · cases hread

/-! ## Section 2: The last book -/

/-- The frames of checked lines, and how they are linked. -/
structure Frames (codec : Codec) (index position : Nat) (head : Hash) (lines : List Bytes)
    (frames : List Frame) : Prop where
  /-- The lines are the frames as they are written. -/
  lines : lines = frames.map codec.canonicalFrame
  /-- Each was checked. -/
  checked : ∀ f ∈ frames, codec.accepts f.record = true ∧ f = codec.frameOf f.record
  /-- Each names the one before. -/
  chain : frames.IsChain fun a b => b.record.previousDigest = a.digest
  /-- The first names the head, and the book it begins. -/
  head : ∀ f ∈ frames.head?, f.record.previousDigest = head ∧
    f.record.body.book = if position = 0 then some (index + 1) else none
  /-- Only the first begins a book. -/
  later : ∀ f ∈ frames.tail, f.record.body.book = none

theorem readRecords_frames {index position : Nat} {lines : List Bytes}
    (h : readRecords codec fingerprint index false position lines s = some t)
    (hgenesis : s.genesis = true ↔ 0 < index ∨ 0 < position) :
    ∃ frames, Frames codec index position s.head lines frames ∧
      t.head = (frames.getLast?.map Frame.digest).getD s.head := by
  induction lines generalizing position s with
  | nil =>
    cases h
    exact ⟨[], ⟨rfl, nofun, List.isChain_nil, nofun, nofun⟩, rfl⟩
  | cons line lines ih =>
    obtain ⟨frame, hframe, hrest⟩ := Option.bind_eq_some_iff.1 h
    obtain ⟨u, hrecord, hrest⟩ := Option.bind_eq_some_iff.1 hrest
    obtain ⟨haccepts, hself, hline⟩ := readFrame_some hframe
    obtain ⟨hprevious, hhead, hstarted, hbook⟩ := record_some hrecord hgenesis
    obtain ⟨frames, hframes, hlast⟩ := ih hrest
      ⟨fun _ => .inr (Nat.succ_pos position), fun _ => hstarted⟩
    refine ⟨frame :: frames, ⟨?_, ?_, ?_, ?_, ?_⟩, ?_⟩
    · rw [List.map_cons, ← hframes.lines, hline]
    · intro f hf
      rcases List.mem_cons.1 hf with rfl | hf
      · exact ⟨haccepts, hself⟩
      · exact hframes.checked f hf
    · refine List.isChain_cons.2 ⟨?_, hframes.chain⟩
      intro f hf
      rw [(hframes.head f hf).1, hhead]
    · intro f hf
      cases hf
      exact ⟨hprevious, hbook⟩
    · intro f hf
      -- after the first record no record opens a book
      cases hframes' : frames with
      | nil =>
        rw [hframes'] at hf
        cases hf
      | cons next more =>
        rw [hframes'] at hf hframes
        rcases List.mem_cons.1 hf with rfl | hf
        · exact (hframes.head f rfl).2
        · exact hframes.later f hf
    · rw [hlast, hhead]
      cases frames with
      | nil => rfl
      | cons next more =>
        rw [List.getLast?_cons_cons]
        rw [List.getLast?_eq_some_getLast (List.cons_ne_nil next more)]
        rfl

theorem readRecords_genesis {index position : Nat} {trusted : Bool} {lines : List Bytes}
    (h : readRecords codec fingerprint index trusted position lines s = some t)
    (hgenesis : s.genesis = true ↔ 0 < index ∨ 0 < position) :
    t.genesis = true ↔ 0 < index ∨ 0 < position + lines.length := by
  induction lines generalizing position s with
  | nil =>
    cases h
    exact hgenesis
  | cons line lines ih =>
    obtain ⟨frame, -, hrest⟩ := Option.bind_eq_some_iff.1 h
    obtain ⟨u, hrecord, hrest⟩ := Option.bind_eq_some_iff.1 hrest
    have hstarted := (record_some hrecord hgenesis).2.2.1
    rw [ih hrest ⟨fun _ => .inr (Nat.succ_pos position), fun _ => hstarted⟩, List.length_cons,
      Nat.add_right_comm, Nat.add_assoc]

end Loading

/-! ## Section 3: Books -/

section Books

variable {options options' : LoadOptions} {s : Loading}

/-- The next book holds the fingerprint of the one before. -/
def Seals (codec : Codec) (raw next : Bytes) : Prop :=
  ∃ book bytes, sealOf codec next = some (book, codec.digest raw, bytes)

theorem Seals.unique (hdigest : Function.Injective codec.digest) {raw raw' next : Bytes}
    (h : Seals codec raw next) (h' : Seals codec raw' next) : raw = raw' := by
  obtain ⟨book, bytes, hseal⟩ := h
  obtain ⟨book', bytes', hseal'⟩ := h'
  rw [hseal] at hseal'
  exact hdigest (congrArg (fun sealed => sealed.2.1) (Option.some.inj hseal'))

/-- What is read of the last book. -/
structure LastBook (codec : Codec) (options : LoadOptions) (fingerprint : Hash) (index : Nat)
    (raw : Bytes) (result : Loading × List Bytes × Bytes) : Prop where
  read : lastLines options raw = some result.2
  replayed : ∃ s : Loading, (s.genesis = true ↔ 0 < index) ∧
    readBook codec fingerprint index false result.2.1 s = some result.1

theorem readBook_genesis {index : Nat} {trusted : Bool} {lines : List Bytes} {t : Loading}
    (h : readBook codec fingerprint index trusted lines s = some t) (hne : lines ≠ [])
    (hgenesis : s.genesis = true ↔ 0 < index) : t.genesis = true := by
  unfold readBook at h
  split at h
  · cases h
  · have hpositive := List.length_pos_iff.2 hne
    refine (Loading.readRecords_genesis h (hgenesis.trans ?_)).2 (.inr (by omega))
    exact ⟨Or.inl, fun h => h.resolve_right (Nat.lt_irrefl 0)⟩

/-- Books that are read: each seals the one before, and the last one is checked line by line. -/
theorem readBooks_some {index : Nat} {books : List Bytes} {result : Loading × List Bytes × Bytes}
    (h : readBooks codec options fingerprint index books s = some result)
    (hgenesis : s.genesis = true ↔ 0 < index) :
    books.IsChain (Seals codec) ∧ ∃ raw, books.getLast? = some raw ∧
      LastBook codec options fingerprint (index + books.length - 1) raw result := by
  induction books generalizing index s with
  | nil => cases h
  | cons raw books ih =>
    cases books with
    | nil =>
      unfold readBooks at h
      split at h
      · obtain ⟨read, hread, hrest⟩ := Option.bind_eq_some_iff.1 h
        obtain ⟨t, hbook, rfl⟩ := Option.map_eq_some_iff.1 hrest
        exact ⟨List.isChain_singleton raw, raw, rfl, hread, s, hgenesis, hbook⟩
      · cases h
    | cons next books =>
      unfold readBooks at h
      split at h
      · next hsealed =>
        obtain ⟨hfits, htorn, hseal⟩ := hsealed
        obtain ⟨t, hbook, hrest⟩ := Option.bind_eq_some_iff.1 h
        split at hrest
        · have hlines : (readLines raw).1 ≠ [] := by
            intro hnil
            have hjoin := (joinLines_readLines raw).1
            rw [hnil, htorn] at hjoin
            rw [← hjoin] at hfits
            cases hfits
          have hstarted := readBook_genesis hbook hlines hgenesis
          obtain ⟨hchain, last, hlast, hread⟩ :=
            ih hrest ⟨fun _ => Nat.succ_pos index, fun _ => hstarted⟩
          refine ⟨List.isChain_cons_cons.2 ⟨⟨_, _, hseal⟩, hchain⟩, last, ?_, ?_⟩
          · rw [List.getLast?_cons_cons]
            exact hlast
          · rw [List.length_cons, ← Nat.add_assoc, Nat.add_right_comm]
            exact hread
        · cases hrest
      · cases h

/-- The checked frames of the last book. -/
theorem LastBook.frames {index : Nat} {raw : Bytes} {result : Loading × List Bytes × Bytes}
    (h : LastBook codec options fingerprint index raw result) :
    ∃ head frames, Loading.Frames codec index 0 head result.2.1 frames ∧ frames ≠ [] ∧
      frames.getLast?.map Frame.digest = some result.1.head ∧
      raw = joinLines result.2.1 ++ result.2.2 := by
  obtain ⟨hread, s, hgenesis, hbook⟩ := h
  unfold lastLines at hread
  dsimp only at hread
  split at hread
  · cases hread
  · next hlines =>
    rw [not_or] at hlines
    have hresult := Option.some.inj hread
    unfold readBook at hbook
    split at hbook
    · cases hbook
    · obtain ⟨frames, hframes, hhead⟩ := Loading.readRecords_frames hbook
        (hgenesis.trans ⟨Or.inl, fun h => h.resolve_right (Nat.lt_irrefl 0)⟩)
      have hne : frames ≠ [] := by
        intro hnil
        refine hlines.1 ?_
        rw [hresult, hframes.lines, hnil]
        rfl
      refine ⟨_, frames, hframes, hne, ?_, ?_⟩
      · rw [hhead, List.getLast?_eq_some_getLast hne]
        rfl
      · rw [← hresult]
        exact (joinLines_readLines raw).1.symm

theorem load_some {books : List Bytes} {loaded : Loaded}
    (h : load codec options fingerprint books = some loaded) :
    ∃ result, readBooks codec options fingerprint 0 books Loading.start = some result ∧
      loaded.state.head = result.1.head ∧ loaded.torn = result.2.2 := by
  obtain ⟨result, hread, hrest⟩ := Option.bind_eq_some_iff.1 h
  refine ⟨result, hread, ?_⟩
  obtain ⟨s, lines, torn⟩ := result
  dsimp only at hrest
  split at hrest
  · cases hrest
  · split at hrest
    · cases hrest
    · split at hrest
      · cases hrest
      · split at hrest
        · cases hrest
        · cases hrest
          exact ⟨rfl, rfl⟩

/-- **Tamper evidence**: books that load with the same key, without a torn line, and that end with
    the same head are the same books, byte for byte. -/
theorem load_tamper_evident (hdigest : Function.Injective codec.digest) (hreadable : codec.Readable)
    {key : Bytes} {books books' : List Bytes} {loaded loaded' : Loaded}
    (h : load codec options (codec.digest key) books = some loaded)
    (h' : load codec options' (codec.digest key) books' = some loaded')
    (htorn : loaded.torn = []) (htorn' : loaded'.torn = [])
    (hhead : loaded.state.head = loaded'.state.head) : books = books' := by
  obtain ⟨result, hread, hresult, hrest⟩ := load_some h
  obtain ⟨result', hread', hresult', hrest'⟩ := load_some h'
  have hstart : Loading.start.genesis = true ↔ 0 < 0 := ⟨nofun, fun h => absurd h (Nat.lt_irrefl 0)⟩
  obtain ⟨hchain, raw, hraw, hlast⟩ := readBooks_some hread hstart
  obtain ⟨hchain', raw', hraw', hlast'⟩ := readBooks_some hread' hstart
  obtain ⟨head, frames, hframes, hne, hdigests, hbytes⟩ := hlast.frames
  obtain ⟨head', frames', hframes', hne', hdigests', hbytes'⟩ := hlast'.frames
  -- the records of the last books are linked, and so the same
  have hlinked : ∀ {index : Nat} {head : Hash} {lines : List Bytes} {frames : List Frame},
      Loading.Frames codec index 0 head lines frames →
      Chain.Linked (fun f => f.record.previousDigest) Frame.digest
        (fun f => f.record.body.book ≠ none) frames := by
    intro index head lines frames hframes
    refine ⟨hframes.chain, ?_, fun f hf hopens => hopens (hframes.later f hf)⟩
    intro f hf hnone
    rw [(hframes.head f hf).2] at hnone
    cases hnone
  have hsame : frames = frames' := by
    refine (hlinked hframes).unique ?_ (hlinked hframes') hne hne' ?_
    · intro f hf g hg heq
      obtain ⟨haccepts, hself⟩ := hframes.checked f hf
      obtain ⟨haccepts', hself'⟩ := hframes'.checked g hg
      rw [hself, hself'] at heq
      rw [hself, hself', hreadable haccepts haccepts' (hdigest heq)]
    · rw [hdigests, hdigests', ← hresult, ← hresult', hhead]
  subst hsame
  have hlines : result.2.1 = result'.2.1 := hframes.lines.trans hframes'.lines.symm
  have hraws : raw = raw' := by
    rw [hbytes, hbytes', ← hrest, ← hrest', htorn, htorn', hlines]
  -- their first record says how many books there are
  have hlength : books.length = books'.length := by
    obtain ⟨first, rest, hcons⟩ := List.exists_cons_of_ne_nil hne
    rw [hcons] at hframes hframes'
    have hbook := (hframes.head first rfl).2.symm.trans (hframes'.head first rfl).2
    have hpositive : 0 < books.length := List.length_pos_iff.2 fun hnil => by
      rw [hnil] at hraw
      cases hraw
    have hpositive' : 0 < books'.length := List.length_pos_iff.2 fun hnil => by
      rw [hnil] at hraw'
      cases hraw'
    have := Option.some.inj hbook
    omega
  exact Chain.sealed_unique (R := Seals codec) (fun _ _ _ h h' => Seals.unique hdigest h h') hchain
    hchain' hlength (by rw [hraw, hraw', hraws])

/-- A foundation whose first book is full: a genesis and a seal. -/
def fullBook : Bytes × Hash :=
  let genesis := PlainCodec.plainCodec.frameOf
    ⟨0, "1".toList, zero, .genesis "2".toList (PlainCodec.plainCodec.digest [])⟩
  let bookSeal := PlainCodec.plainCodec.frameOf ⟨1, "3".toList, genesis.digest, .bookSeal 1⟩
  (joinLines [PlainCodec.plainCodec.canonicalFrame genesis,
    PlainCodec.plainCodec.canonicalFrame bookSeal], bookSeal.digest)

/-- Its next book, with nothing but its first record. -/
def nextBook : Bytes :=
  joinLines [PlainCodec.plainCodec.canonicalFrame (PlainCodec.plainCodec.frameOf
    ⟨2, "3".toList, fullBook.2, .bookOpen "2".toList 2 (PlainCodec.plainCodec.digest fullBook.1)
      fullBook.1.length⟩)]

def foundation (now : Int) : LoadOptions where
  requirePrepared := false
  tornTail := none
  maxBookBytes := JOURNAL_MAX_BYTES
  hasPartial := false
  receipt := none
  now := now

theorem load_tamper_evident_sample :
    ∃ loaded loaded', load PlainCodec.plainCodec.toCodec (foundation 0)
        (PlainCodec.plainCodec.digest []) [fullBook.1, nextBook] = some loaded ∧
      load PlainCodec.plainCodec.toCodec (foundation 1) (PlainCodec.plainCodec.digest [])
        [fullBook.1, nextBook] = some loaded' ∧ loaded.state.head = loaded'.state.head ∧
      [fullBook.1, nextBook] = [fullBook.1, nextBook] := by
  have hloads : ∀ now ∈ [(0 : Int), 1], (load PlainCodec.plainCodec.toCodec (foundation now)
      (PlainCodec.plainCodec.digest []) [fullBook.1, nextBook]).map
        (fun loaded => (loaded.torn, loaded.state.head)) =
      some ([], PlainCodec.plainCodec.digest (PlainCodec.plainCodec.canonicalRecord
        ⟨2, "3".toList, fullBook.2, .bookOpen "2".toList 2 (PlainCodec.plainCodec.digest fullBook.1)
          fullBook.1.length⟩)) := by
    decide +kernel
  obtain ⟨loaded, hload, hends⟩ := Option.map_eq_some_iff.1 (hloads 0 (by simp))
  obtain ⟨loaded', hload', hends'⟩ := Option.map_eq_some_iff.1 (hloads 1 (by simp))
  have hhead : loaded.state.head = loaded'.state.head :=
    (Prod.mk.inj hends).2.trans (Prod.mk.inj hends').2.symm
  exact ⟨loaded, loaded', hload, hload', hhead,
    load_tamper_evident PlainCodec.plainCodec_collisionFree.digest_injective
      (fun _ _ h => PlainCodec.record.write_injective h) hload hload' (Prod.mk.inj hends).1
      (Prod.mk.inj hends').1 hhead⟩

end Books

end Lares.Journal
