import Lares.Framework.Words
import Mathlib

/-! # The forget ledger

    What the owner told the agent to forget, kept as one-way keys.

    * **Keys**: owner, kind and normalised words, each with its length in
      front.
    * **Words** of a fact are lower-cased, then composed, then reduced to
      letters and numbers; a **path** is only lower-cased.
    * **Files**: the create guard composes before it lower-cases, so it takes
      spellings for one file that the ledger tells apart.
-/

namespace Lares.VaultFormat.ForgetLedger

open Lines

abbrev Text := List Char

/-! ## Section 1: Unicode -/

def isSeparator (c : Char) : Bool := c = '/' || c = '\\'

/-- `toLowerCase`, `normalize` and the classes `\p{L}` and `\p{N}`, with what Unicode says of
    them. -/
structure Unicode where
  toLowerCase : Text → Text
  nfc : Text → Text
  nfkc : Text → Text
  isLetter : Char → Bool
  isNumber : Char → Bool
  /-- What changes is a character that has a lower case of its own. -/
  toLowerCase_eq_self : ∀ s, toLowerCase s = s ↔ ∀ c ∈ s, toLowerCase [c] = [c]
  toLowerCase_blank : toLowerCase [' '] = [' ']
  nfkc_nfkc : ∀ s, nfkc (nfkc s) = nfkc s
  nfkc_form : Words.Form nfkc
  /-- Composing a composed text again, after it was lower-cased, brings no capital back. -/
  nfkc_toLowerCase : ∀ s, nfkc s = s → ∀ c ∈ nfkc (toLowerCase s), toLowerCase [c] = [c]
  toLowerCase_separators : ∀ s, (toLowerCase s).filter isSeparator = s.filter isSeparator
  nfc_separators : ∀ s, (nfc s).filter isSeparator = s.filter isSeparator
  not_space : ∀ c, (isLetter c || isNumber c) = true → isSpace c = false

namespace Unicode

variable (U : Unicode)

def isWordChar (c : Char) : Bool := U.isLetter c || U.isNumber c

/-! ## Section 2: Normal forms -/

def normaliseForgotten (s : Text) : Text := Words.words U.isWordChar (U.nfkc (U.toLowerCase s))

def normaliseForgottenPath (p : Text) : Text :=
  (U.toLowerCase (trim p)).map fun c => if c = '\\' then '/' else c

/-- The create guard's form of a path. -/
def collisionKey (name : Text) : Text := U.toLowerCase (U.nfc name)

end Unicode

inductive ForgottenKind
  | fact
  | note
  | preference
  deriving DecidableEq

def ForgottenKind.text : ForgottenKind → Text
  | .fact => "fact".toList
  | .note => "note".toList
  | .preference => "preference".toList

def Unicode.normaliseFor (U : Unicode) (kind : ForgottenKind) (words : Text) : Text :=
  if kind = .note then U.normaliseForgottenPath words else U.normaliseForgotten words

/-! ## Section 3: Keys -/

def field (v : Text) : Text := Nat.toDigits 10 (jsLength v) ++ ':' :: v

def forgetKey {Digest : Type} (sha256 : Text → Digest) (owner : Text) (kind : ForgottenKind)
    (normalised : Text) : Digest :=
  sha256 (field owner ++ field kind.text ++ field normalised)

/-! ## Section 4: The ledger -/

section Ledger

variable {Digest : Type} [DecidableEq Digest]

structure ForgetLedgerEntry (Digest : Type) where
  owner : Text
  kind : ForgottenKind
  matchHash : Digest

/-- The key that an entry is written with and asked for. -/
def Unicode.entry (U : Unicode) (sha256 : Text → Digest) (owner : Text) (kind : ForgottenKind)
    (words : Text) : ForgetLedgerEntry Digest :=
  ⟨owner, kind, forgetKey sha256 owner kind (U.normaliseFor kind words)⟩

/-- `owner = $1 AND kind = $2 AND match_hash = $3` -/
def ForgetLedgerEntry.sameKey (a b : ForgetLedgerEntry Digest) : Bool :=
  a.owner = b.owner && a.kind = b.kind && decide (a.matchHash = b.matchHash)

/-- A blank owner is thrown back. -/
def assertCanonicalOwner (owner : Text) : Option Unit := if trim owner = [] then none else some ()

/-- A key that is there already keeps its row. -/
def Unicode.recordForgotten (U : Unicode) (sha256 : Text → Digest)
    (ledger : List (ForgetLedgerEntry Digest)) (owner : Text) (kind : ForgottenKind)
    (words : Text) : Option (List (ForgetLedgerEntry Digest)) := do
  assertCanonicalOwner owner
  let e := U.entry sha256 owner kind words
  return if ledger.any e.sameKey then ledger else ledger ++ [e]

def Unicode.wasForgotten (U : Unicode) (sha256 : Text → Digest)
    (ledger : List (ForgetLedgerEntry Digest)) (owner : Text) (kind : ForgottenKind)
    (words : Text) : Option (Option (ForgetLedgerEntry Digest)) := do
  assertCanonicalOwner owner
  return ledger.find? (U.entry sha256 owner kind words).sameKey

def Unicode.wasPathForgotten (U : Unicode) (sha256 : Text → Digest)
    (ledger : List (ForgetLedgerEntry Digest)) (owner path : Text) :
    Option (Option (ForgetLedgerEntry Digest)) :=
  U.wasForgotten sha256 ledger owner .note path

end Ledger

/-! ## Section 5: Lengths in front -/

theorem colon_not_mem_digits (n : Nat) : ':' ∉ Nat.toDigits 10 n := by
  intro hmem
  have hdigit := Nat.isDigit_of_mem_toDigits (by decide) (by decide) hmem
  simp at hdigit

/-- What stands in front of the first `:`. -/
theorem append_colon_inj {a b x y : Text} (ha : ':' ∉ a) (hb : ':' ∉ b)
    (h : a ++ ':' :: x = b ++ ':' :: y) : a = b ∧ x = y := by
  induction a generalizing b with
  | nil =>
    cases b with
    | nil => exact ⟨rfl, (List.cons.inj h).2⟩
    | cons c b =>
      have hc : ':' = c := (List.cons.inj h).1
      exact absurd (hc ▸ List.mem_cons_self) hb
  | cons d a ih =>
    cases b with
    | nil =>
      have hd : d = ':' := (List.cons.inj h).1
      exact absurd (hd ▸ List.mem_cons_self) ha
    | cons c b =>
      obtain ⟨hdc, hrest⟩ := List.cons.inj h
      obtain ⟨hab, hxy⟩ := ih (fun hmem => ha (List.mem_cons_of_mem d hmem))
        (fun hmem => hb (List.mem_cons_of_mem c hmem)) hrest
      exact ⟨by rw [hdc, hab], hxy⟩

/-- Texts of one length in front of two rests are told apart. -/
theorem append_inj_of_jsLength {a b x y : Text} (hlength : jsLength a = jsLength b)
    (h : a ++ x = b ++ y) : a = b ∧ x = y := by
  induction a generalizing b with
  | nil =>
    cases b with
    | nil => exact ⟨rfl, h⟩
    | cons c b =>
      have hc := codeUnitCount_pos c
      simp only [jsLength, List.map_nil, List.sum_nil, List.map_cons, List.sum_cons] at hlength
      omega
  | cons d a ih =>
    cases b with
    | nil =>
      have hd := codeUnitCount_pos d
      simp only [jsLength, List.map_nil, List.sum_nil, List.map_cons, List.sum_cons] at hlength
      omega
    | cons c b =>
      obtain ⟨hdc, hrest⟩ := List.cons.inj h
      have hlengths : jsLength a = jsLength b := by
        simp only [jsLength, List.map_cons, List.sum_cons, hdc] at hlength
        exact Nat.add_left_cancel hlength
      obtain ⟨hab, hxy⟩ := ih hlengths hrest
      exact ⟨by rw [hdc, hab], hxy⟩

theorem field_append_inj {a b x y : Text} (h : field a ++ x = field b ++ y) : a = b ∧ x = y := by
  unfold field at h
  rw [List.append_assoc, List.append_assoc, List.cons_append, List.cons_append] at h
  obtain ⟨hdigits, hrest⟩ := append_colon_inj (colon_not_mem_digits _) (colon_not_mem_digits _) h
  have hlength : jsLength a = jsLength b := by
    have hread := congrArg (fun digits => Nat.ofDigitChars 10 digits 0) hdigits
    simpa only [Nat.ofDigitChars_ten_toDigits] using hread
  exact append_inj_of_jsLength hlength hrest

theorem text_injective {a b : ForgottenKind} (h : a.text = b.text) : a = b := by
  cases a <;> cases b <;> first | rfl | exact absurd h (by decide)

theorem forgetKey_inj {Digest : Type} {sha256 : Text → Digest}
    (hsha256 : Function.Injective sha256) {owner owner' normalised normalised' : Text}
    {kind kind' : ForgottenKind}
    (h : forgetKey sha256 owner kind normalised = forgetKey sha256 owner' kind' normalised') :
    owner = owner' ∧ kind = kind' ∧ normalised = normalised' := by
  have hfields := hsha256 h
  rw [List.append_assoc, List.append_assoc] at hfields
  obtain ⟨howner, hrest⟩ := field_append_inj hfields
  obtain ⟨hkind, hlast⟩ := field_append_inj hrest
  have hwords : field normalised ++ [] = field normalised' ++ [] := by simpa using hlast
  exact ⟨howner, text_injective hkind, (field_append_inj hwords).1⟩

/-! ## Section 6: Normalising again -/

namespace Unicode

variable {U : Unicode}

/-- No letter or number of the composed text has a lower case of its own. -/
def NoCapitalLeft (U : Unicode) (s : Text) : Prop :=
  ∀ c ∈ U.nfkc (U.toLowerCase s), U.isWordChar c = true → U.toLowerCase [c] = [c]

theorem nfkc_normaliseForgotten (s : Text) :
    U.nfkc (U.normaliseForgotten s) = U.normaliseForgotten s :=
  U.nfkc_form.words U.not_space (U.nfkc_nfkc _)

theorem normaliseForgotten_idem_iff (s : Text) :
    U.normaliseForgotten (U.normaliseForgotten s) = U.normaliseForgotten s ↔
      U.NoCapitalLeft s := by
  constructor
  · intro h c hc hword
    have hspace := U.not_space c hword
    have hmem : c ∈ U.normaliseForgotten s := (Words.mem_words hspace).2 ⟨hc, hword⟩
    -- the letter came through a second time, and is lower case by then
    rw [← h] at hmem
    exact U.nfkc_toLowerCase _ (nfkc_normaliseForgotten s) c ((Words.mem_words hspace).1 hmem).1
  · intro h
    have hlower : U.toLowerCase (U.normaliseForgotten s) = U.normaliseForgotten s := by
      rw [U.toLowerCase_eq_self]
      intro c hc
      by_cases hspace : isSpace c = true
      · rw [(Words.single_words _).2 c hc hspace]
        exact U.toLowerCase_blank
      · obtain ⟨hmem, hword⟩ := (Words.mem_words (Bool.eq_false_iff.2 hspace)).1 hc
        exact h c hmem hword
    have hagain : U.normaliseForgotten (U.normaliseForgotten s) =
        Words.words U.isWordChar (U.normaliseForgotten s) := by
      rw [normaliseForgotten, hlower, nfkc_normaliseForgotten]
    rw [hagain]
    exact Words.words_words _

/-! ## Section 7: Spellings of one file -/

/-- Slashes that were merged are told apart by where the separators stand. -/
theorem eq_of_slashes {a b : Text}
    (hmap : (a.map fun c => if c = '\\' then '/' else c) =
      b.map fun c => if c = '\\' then '/' else c)
    (hseparators : a.filter isSeparator = b.filter isSeparator) : a = b := by
  induction a generalizing b with
  | nil => exact (List.map_eq_nil_iff.1 hmap.symm).symm
  | cons c a ih =>
    cases b with
    | nil => simp at hmap
    | cons d b =>
      rw [List.map_cons, List.map_cons] at hmap
      obtain ⟨hhead, htail⟩ := List.cons.inj hmap
      have hsep : isSeparator c = isSeparator d := by
        by_cases hc : c = '\\' <;> by_cases hd : d = '\\' <;> simp_all [isSeparator, eq_comm]
      by_cases hc : isSeparator c = true
      · rw [List.filter_cons_of_pos hc, List.filter_cons_of_pos (hsep ▸ hc)] at hseparators
        obtain ⟨hcd, hrest⟩ := List.cons.inj hseparators
        rw [hcd, ih htail hrest]
      · rw [List.filter_cons_of_neg hc, List.filter_cons_of_neg (hsep ▸ hc)] at hseparators
        have hcd : c = d := by
          have hc' : c ≠ '\\' := by
            rintro rfl
            exact hc rfl
          have hd' : d ≠ '\\' := by
            rintro rfl
            exact hc (hsep ▸ rfl)
          simpa only [hc', hd', if_false] using hhead
        rw [hcd, ih htail hseparators]

theorem separators_trimmed (p : Text) :
    (U.toLowerCase (trim p)).filter isSeparator = (U.collisionKey p).filter isSeparator := by
  have hspace : ∀ c, isSeparator c = true → isSpace c = false := by
    intro c hc
    have heither : c = '/' ∨ c = '\\' := by simpa [isSeparator] using hc
    rcases heither with rfl | rfl
    · decide
    · decide
  rw [collisionKey, U.toLowerCase_separators, U.toLowerCase_separators, U.nfc_separators,
    Words.filter_trim hspace]

/-- For spellings of one file, the ledger's form is the lower case of the path as it is composed. -/
theorem normaliseForgottenPath_eq_iff {p q : Text} (h : U.collisionKey p = U.collisionKey q) :
    U.normaliseForgottenPath p = U.normaliseForgottenPath q ↔
      U.toLowerCase (trim p) = U.toLowerCase (trim q) := by
  constructor
  · intro hforms
    refine eq_of_slashes hforms ?_
    rw [separators_trimmed, separators_trimmed, h]
  · intro hlower
    rw [normaliseForgottenPath, normaliseForgottenPath, hlower]

end Unicode

section Ledger

variable {U : Unicode} {Digest : Type} {sha256 : Text → Digest}

/-- The key of a path, as it is recorded and asked for. -/
def Unicode.pathKey (U : Unicode) (sha256 : Text → Digest) (owner path : Text) : Digest :=
  forgetKey sha256 owner .note (U.normaliseFor .note path)

theorem pathKey_eq_iff (hsha256 : Function.Injective sha256) (owner p q : Text)
    (h : U.collisionKey p = U.collisionKey q) :
    U.pathKey sha256 owner p = U.pathKey sha256 owner q ↔
      U.toLowerCase (trim p) = U.toLowerCase (trim q) := by
  rw [← Unicode.normaliseForgottenPath_eq_iff h]
  constructor
  · intro hkeys
    exact (forgetKey_inj hsha256 hkeys).2.2
  · intro hforms
    exact congrArg (forgetKey sha256 owner .note) hforms

variable [DecidableEq Digest]

/-- Recording leaves the ledger as it is, or adds the entry. -/
theorem recordForgotten_eq {ledger ledger' : List (ForgetLedgerEntry Digest)} {owner words : Text}
    {kind : ForgottenKind} (h : U.recordForgotten sha256 ledger owner kind words = some ledger') :
    assertCanonicalOwner owner = some () ∧ ledger' =
      if ledger.any (U.entry sha256 owner kind words).sameKey then ledger
      else ledger ++ [U.entry sha256 owner kind words] := by
  unfold Unicode.recordForgotten at h
  cases howner : assertCanonicalOwner owner with
  | none => simp [howner] at h
  | some _ =>
    simp only [howner, Option.bind_eq_bind, Option.bind_some, Option.pure_def,
      Option.some.injEq] at h
    exact ⟨rfl, h.symm⟩

theorem wasPathForgotten_eq {owner : Text} (howner : assertCanonicalOwner owner = some ())
    (ledger : List (ForgetLedgerEntry Digest)) (path : Text) :
    U.wasPathForgotten sha256 ledger owner path =
      some (ledger.find? (U.entry sha256 owner .note path).sameKey) := by
  unfold Unicode.wasPathForgotten Unicode.wasForgotten
  simp only [howner, Option.bind_eq_bind, Option.bind_some, Option.pure_def]

theorem sameKey_entry_iff {owner p q : Text} :
    (U.entry sha256 owner .note q).sameKey (U.entry sha256 owner .note p) = true ↔
      U.pathKey sha256 owner q = U.pathKey sha256 owner p := by
  simp only [ForgetLedgerEntry.sameKey, Unicode.entry, Unicode.pathKey, decide_true, Bool.true_and]
  exact decide_eq_true_iff

/-- A path that was not there is found, once another is recorded, exactly when they have one key. -/
theorem wasPathForgotten_recordForgotten {ledger ledger' : List (ForgetLedgerEntry Digest)}
    {owner p q : Text} (hrecord : U.recordForgotten sha256 ledger owner .note p = some ledger')
    (hnew : U.wasPathForgotten sha256 ledger owner q = some none) :
    (∃ e, U.wasPathForgotten sha256 ledger' owner q = some (some e)) ↔
      U.pathKey sha256 owner p = U.pathKey sha256 owner q := by
  obtain ⟨howner, rfl⟩ := recordForgotten_eq hrecord
  rw [wasPathForgotten_eq howner, Option.some.injEq] at hnew
  simp only [wasPathForgotten_eq howner, Option.some.injEq]
  split
  · next hthere =>
    -- the entry of `p` is there, and `q` has another key
    refine iff_of_false (by simp [hnew]) ?_
    intro hkey
    have hentry : U.entry sha256 owner .note p = U.entry sha256 owner .note q :=
      congrArg (ForgetLedgerEntry.mk owner ForgottenKind.note) hkey
    obtain ⟨e, he, hsame⟩ := List.any_eq_true.1 hthere
    rw [hentry] at hsame
    exact List.find?_eq_none.1 hnew e he hsame
  · rw [List.find?_append, hnew, Option.none_or, ← Option.isSome_iff_exists, List.find?_isSome]
    simp only [List.mem_singleton, exists_eq_left]
    rw [sameKey_entry_iff, eq_comm]

end Ledger

/-! ## Section 8: What the keys recognise -/

/-- Keys tell owners, kinds and words apart; normalising again changes a text with a capital left,
    and two spellings of one file have one key, and are found under one another, when they differ
    in case alone. -/
theorem forgetKeys_exact (U : Unicode) {Digest : Type} [DecidableEq Digest] (sha256 : Text → Digest)
    (hsha256 : Function.Injective sha256) :
    (∀ owner kind normalised owner' kind' normalised',
      forgetKey sha256 owner kind normalised = forgetKey sha256 owner' kind' normalised' →
        owner = owner' ∧ kind = kind' ∧ normalised = normalised') ∧
    (∀ s, U.normaliseForgotten (U.normaliseForgotten s) = U.normaliseForgotten s ↔
      U.NoCapitalLeft s) ∧
    (∀ owner p q, U.collisionKey p = U.collisionKey q →
      (U.pathKey sha256 owner p = U.pathKey sha256 owner q ↔
        U.toLowerCase (trim p) = U.toLowerCase (trim q))) ∧
    (∀ ledger ledger' owner p q, U.collisionKey p = U.collisionKey q →
      U.recordForgotten sha256 ledger owner .note p = some ledger' →
      U.wasPathForgotten sha256 ledger owner q = some none →
      ((∃ e, U.wasPathForgotten sha256 ledger' owner q = some (some e)) ↔
        U.toLowerCase (trim p) = U.toLowerCase (trim q))) := by
  refine ⟨?_, Unicode.normaliseForgotten_idem_iff, pathKey_eq_iff hsha256, ?_⟩
  · intro owner kind normalised owner' kind' normalised' h
    exact forgetKey_inj hsha256 h
  · intro ledger ledger' owner p q hfile hrecord hnew
    rw [wasPathForgotten_recordForgotten hrecord hnew]
    exact pathKey_eq_iff hsha256 owner p q hfile

/-- `NFKC`, of the trade mark sign alone -/
def tradeMark (c : Char) : Text := if c = '™' then ['T', 'M'] else [c]

/-- `NFC`, of `å` alone -/
def composeRing : Text → Text
  | [] => []
  | c :: s =>
    if c = 'a' ∧ (composeRing s).head? = some '\u030a' then 'å' :: (composeRing s).tail
    else c :: composeRing s

theorem tradeMark_not_mem (s : Text) : '™' ∉ s.flatMap tradeMark := by
  intro hmem
  obtain ⟨c, -, hc⟩ := List.mem_flatMap.1 hmem
  unfold tradeMark at hc
  split at hc
  · revert hc
    decide
  · next hne => exact hne (List.mem_singleton.1 hc).symm

theorem tradeMark_eq_self_iff {s : Text} : s.flatMap tradeMark = s ↔ '™' ∉ s := by
  constructor
  · intro h
    rw [← h]
    exact tradeMark_not_mem s
  · intro h
    induction s with
    | nil => rfl
    | cons c s ih =>
      have hc : c ≠ '™' := fun hc => h (hc ▸ List.mem_cons_self)
      rw [List.flatMap_cons, ih fun hmem => h (List.mem_cons_of_mem c hmem), tradeMark, if_neg hc]
      rfl

theorem separator_toLower (c : Char) :
    isSeparator c.toLower = isSeparator c ∧ (isSeparator c = true → c.toLower = c) := by
  by_cases hupper : c.isUpper = true
  · have hlower : c.toLower.isLower = true := by
      rw [Char.isLower_toLower_eq_isAlpha, Char.isAlpha, hupper]
      rfl
    have hnone : ∀ d : Char, (d.isUpper || d.isLower) = true → isSeparator d = false := by
      intro d hd
      rw [Bool.eq_false_iff]
      intro hsep
      have heither : d = '/' ∨ d = '\\' := by simpa [isSeparator] using hsep
      rcases heither with rfl | rfl <;> simp at hd
    rw [hnone c (by simp [hupper]), hnone c.toLower (by simp [hlower])]
    simp
  · rw [Char.toLower_eq_of_not_isUpper hupper]
    simp

theorem tradeMark_toLower {c : Char} (h : c.toLower = '™') : c = '™' := by
  by_cases hupper : c.isUpper = true
  · have hlower : c.toLower.isLower = true := by
      rw [Char.isLower_toLower_eq_isAlpha, Char.isAlpha, hupper]
      rfl
    rw [h] at hlower
    simp at hlower
  · rwa [Char.toLower_eq_of_not_isUpper hupper] at h

/-- A small part of Unicode: the letters and digits of ASCII, `™` and `å`. -/
def smallUnicode : Unicode where
  toLowerCase s := s.map Char.toLower
  nfc := composeRing
  nfkc s := s.flatMap tradeMark
  isLetter c := decide (65 ≤ c.toNat ∧ c.toNat ≤ 90 ∨ 97 ≤ c.toNat ∧ c.toNat ≤ 122)
  isNumber c := decide (48 ≤ c.toNat ∧ c.toNat ≤ 57)
  toLowerCase_eq_self := by
    intro s
    induction s with
    | nil => simp
    | cons c s ih => simp [ih]
  toLowerCase_blank := rfl
  nfkc_nfkc := by
    intro s
    exact tradeMark_eq_self_iff.2 (tradeMark_not_mem s)
  nfkc_form :=
    { left := by
        intro a b h
        rw [tradeMark_eq_self_iff] at h ⊢
        exact fun hmem => h (List.mem_append_left b hmem)
      right := by
        intro a b h
        rw [tradeMark_eq_self_iff] at h ⊢
        exact fun hmem => h (List.mem_append_right a hmem)
      blank := by
        intro a b
        rw [List.flatMap_append, List.flatMap_cons]
        rfl }
  nfkc_toLowerCase := by
    intro s h c hc
    rw [tradeMark_eq_self_iff] at h
    have hlower : (s.map Char.toLower).flatMap tradeMark = s.map Char.toLower := by
      rw [tradeMark_eq_self_iff]
      intro hmem
      obtain ⟨d, hd, hlower⟩ := List.mem_map.1 hmem
      exact h (tradeMark_toLower hlower ▸ hd)
    rw [hlower] at hc
    obtain ⟨d, -, rfl⟩ := List.mem_map.1 hc
    simp
  toLowerCase_separators := by
    intro s
    induction s with
    | nil => rfl
    | cons c s ih =>
      obtain ⟨hsame, hkept⟩ := separator_toLower c
      by_cases hc : isSeparator c = true
      · rw [List.map_cons, hkept hc, List.filter_cons_of_pos hc, List.filter_cons_of_pos hc, ih]
      · rw [List.map_cons, List.filter_cons_of_neg (hsame ▸ hc), List.filter_cons_of_neg hc, ih]
  nfc_separators := by
    intro s
    induction s with
    | nil => rfl
    | cons c s ih =>
      unfold composeRing
      split
      · next hring =>
        obtain ⟨rfl, hhead⟩ := hring
        obtain ⟨rest, hrest⟩ := List.head?_eq_some_iff.1 hhead
        rw [hrest, List.filter_cons_of_neg (by decide)] at ih
        rw [hrest, List.tail_cons, List.filter_cons_of_neg (by decide),
          List.filter_cons_of_neg (by decide), ih]
      · rw [List.filter_cons, List.filter_cons, ih]
  not_space := by
    intro c hc
    simp only [Bool.or_eq_true, decide_eq_true_eq] at hc
    simp only [isSpace, Bool.or_eq_false_iff, Bool.and_eq_false_iff, decide_eq_false_iff_not]
    omega

/-- Under the small part of Unicode. -/
theorem forgetKeys_exact_small :
    (∀ owner kind normalised owner' kind' normalised',
      forgetKey id owner kind normalised = forgetKey id owner' kind' normalised' →
        owner = owner' ∧ kind = kind' ∧ normalised = normalised') ∧
    (∀ s, smallUnicode.normaliseForgotten (smallUnicode.normaliseForgotten s) =
        smallUnicode.normaliseForgotten s ↔ smallUnicode.NoCapitalLeft s) ∧
    (∀ owner p q, smallUnicode.collisionKey p = smallUnicode.collisionKey q →
      (smallUnicode.pathKey id owner p = smallUnicode.pathKey id owner q ↔
        smallUnicode.toLowerCase (trim p) = smallUnicode.toLowerCase (trim q))) ∧
    (∀ ledger ledger' owner p q, smallUnicode.collisionKey p = smallUnicode.collisionKey q →
      smallUnicode.recordForgotten id ledger owner .note p = some ledger' →
      smallUnicode.wasPathForgotten id ledger owner q = some none →
      ((∃ e, smallUnicode.wasPathForgotten id ledger' owner q = some (some e)) ↔
        smallUnicode.toLowerCase (trim p) = smallUnicode.toLowerCase (trim q))) :=
  forgetKeys_exact smallUnicode id Function.injective_id

/-- `™` is composed after it was lower-cased, and `å` has two spellings in the name of one file. -/
theorem forgetKeys_wrong :
    smallUnicode.normaliseForgotten (smallUnicode.normaliseForgotten "™".toList) ≠
      smallUnicode.normaliseForgotten "™".toList ∧
    smallUnicode.collisionKey "å.md".toList = smallUnicode.collisionKey "a\u030a.md".toList ∧
    smallUnicode.pathKey id "o".toList "å.md".toList ≠
      smallUnicode.pathKey id "o".toList "a\u030a.md".toList := by
  refine ⟨?_, ?_, ?_⟩ <;> decide +kernel

end Lares.VaultFormat.ForgetLedger
