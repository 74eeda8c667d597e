import Mathlib

/-! # Tables with a unique key

    A table is a list of rows in which no two rows share a key. The field
    `nodup` is the primary-key constraint, so a table that breaks it cannot be
    built and lookups never have to choose between two rows.

    * **Lookup**: `find? k`, with one membership lemma.
    * **Changes**: `put` replaces the row of a key in place, `insert?` adds a
      row whose key is new, `set` does one or the other, `erase` removes a key.
    * **Aggregates**: `total w` sums a weight over the rows. Each change has
      one lemma that says what it does to a lookup and one for `total`.
-/

/-- Rows of type `ρ` with at most one row for each key. -/
structure Table {κ ρ : Type*} (key : ρ → κ) where
  rows : List ρ
  nodup : (rows.map key).Nodup

namespace Table

variable {κ ρ : Type*} {key : ρ → κ}

/-! ## Lookup -/

instance : Membership ρ (Table key) := ⟨fun t r => r ∈ t.rows⟩

theorem mem_def {t : Table key} {r : ρ} : r ∈ t ↔ r ∈ t.rows := Iff.rfl

@[ext] theorem ext {t u : Table key} (h : t.rows = u.rows) : t = u := by
  cases t; cases u; cases h; rfl

instance [DecidableEq ρ] : DecidableEq (Table key) := fun t u =>
  decidable_of_iff (t.rows = u.rows) ⟨ext, fun h => h ▸ rfl⟩

/-- The empty table. -/
def empty : Table key := ⟨[], List.nodup_nil⟩

/-- Two rows of a table with the same key are the same row. -/
theorem eq_of_key_eq {t : Table key} {r r' : ρ} (h : r ∈ t) (h' : r' ∈ t)
    (hk : key r = key r') : r = r' :=
  List.inj_on_of_nodup_map t.nodup h h' hk

variable [DecidableEq κ]

/-- The row with key `k`, if there is one. -/
def find? (t : Table key) (k : κ) : Option ρ := t.rows.find? fun r => key r = k

theorem find?_eq_some {t : Table key} {k : κ} {r : ρ} :
    t.find? k = some r ↔ r ∈ t ∧ key r = k := by
  constructor
  · intro h
    exact ⟨List.mem_of_find?_eq_some h, by simpa using List.find?_some h⟩
  · rintro ⟨hmem, rfl⟩
    cases hf : t.find? (key r) with
    | none =>
      have := List.find?_eq_none.1 hf r hmem
      simp at this
    | some r' =>
      have hk : key r' = key r := by simpa using List.find?_some hf
      rw [eq_of_key_eq (List.mem_of_find?_eq_some hf) hmem hk]

theorem find?_eq_none {t : Table key} {k : κ} :
    t.find? k = none ↔ ∀ r ∈ t, key r ≠ k := by
  simp [find?, List.find?_eq_none, mem_def]

theorem find?_key {t : Table key} {k : κ} {r : ρ} (h : t.find? k = some r) : key r = k :=
  (find?_eq_some.1 h).2

theorem find?_mem {t : Table key} {k : κ} {r : ρ} (h : t.find? k = some r) : r ∈ t :=
  (find?_eq_some.1 h).1

theorem find?_of_mem {t : Table key} {r : ρ} (h : r ∈ t) : t.find? (key r) = some r :=
  find?_eq_some.2 ⟨h, rfl⟩

@[simp] theorem find?_empty (k : κ) : (empty : Table key).find? k = none := rfl

/-! ## Replacing one row -/

/-- Replace the row that has the key of `r` by `r`; nothing else changes. -/
def put (t : Table key) (r : ρ) : Table key where
  rows := t.rows.map fun x => if key x = key r then r else x
  nodup := by
    have hkeys : (t.rows.map fun x => if key x = key r then r else x).map key
        = t.rows.map key := by
      rw [List.map_map]
      refine List.map_congr_left fun x _ => ?_
      by_cases h : key x = key r <;> simp [h]
    rw [hkeys]
    exact t.nodup

theorem mem_put {t : Table key} {r x : ρ} :
    x ∈ t.put r ↔ (x ∈ t ∧ key x ≠ key r) ∨ (x = r ∧ ∃ y ∈ t, key y = key r) := by
  simp only [mem_def, put, List.mem_map]
  constructor
  · rintro ⟨y, hy, rfl⟩
    by_cases h : key y = key r
    · exact .inr ⟨by simp [h], y, hy, h⟩
    · simp only [h, if_false]
      exact .inl ⟨hy, h⟩
  · rintro (⟨hx, hne⟩ | ⟨rfl, y, hy, h⟩)
    · exact ⟨x, hx, by simp [hne]⟩
    · exact ⟨y, hy, by simp [h]⟩

theorem find?_put {t : Table key} {r : ρ} (k : κ) :
    (t.put r).find? k = if k = key r then (t.find? k).map fun _ => r else t.find? k := by
  by_cases hk : k = key r
  · subst hk
    rw [if_pos rfl]
    cases h : t.find? (key r) with
    | none =>
      rw [Option.map_none, find?_eq_none]
      intro x hx
      rcases mem_put.1 hx with ⟨-, hne⟩ | ⟨-, y, hy, hky⟩
      · exact hne
      · exact absurd hky (find?_eq_none.1 h y hy)
    | some y =>
      rw [Option.map_some, find?_eq_some]
      exact ⟨mem_put.2 (.inr ⟨rfl, y, find?_mem h, find?_key h⟩), rfl⟩
  · simp only [hk, if_false]
    refine Option.ext fun x => ?_
    simp only [find?_eq_some, mem_put]
    constructor
    · rintro ⟨⟨hx, -⟩ | ⟨rfl, -⟩, hkx⟩
      · exact ⟨hx, hkx⟩
      · exact absurd hkx.symm hk
    · rintro ⟨hx, rfl⟩
      exact ⟨.inl ⟨hx, hk⟩, rfl⟩

theorem find?_put_self {t : Table key} {r y : ρ} (h : t.find? (key r) = some y) :
    (t.put r).find? (key r) = some r := by
  simp [find?_put, h]

theorem find?_put_ne {t : Table key} {r : ρ} {k : κ} (h : k ≠ key r) :
    (t.put r).find? k = t.find? k := by
  simp [find?_put, h]

/-! ## Adding a row -/

/-- Add a row whose key is new; a key that is present refuses the row. -/
def insert? (t : Table key) (r : ρ) : Option (Table key) :=
  if h : key r ∈ t.rows.map key then none
  else some ⟨t.rows ++ [r], by
    rw [List.map_append, List.nodup_append]
    refine ⟨t.nodup, by simp, ?_⟩
    rintro a ha b hb rfl
    simp only [List.map_cons, List.map_nil, List.mem_singleton] at hb
    exact h (hb ▸ ha)⟩

theorem insert?_eq_some {t u : Table key} {r : ρ} :
    t.insert? r = some u ↔ t.find? (key r) = none ∧ u.rows = t.rows ++ [r] := by
  unfold insert?
  split
  · next h =>
    obtain ⟨x, hx, hk⟩ := List.mem_map.1 h
    have hfind := find?_of_mem (t := t) (mem_def.2 hx)
    rw [hk] at hfind
    simp [hfind]
  · next h =>
    have hnone : t.find? (key r) = none :=
      find?_eq_none.2 fun x hx hk => h (List.mem_map.2 ⟨x, hx, hk⟩)
    simp only [Option.some.injEq, hnone, true_and]
    exact ⟨fun e => e ▸ rfl, fun e => Table.ext e.symm⟩

theorem mem_insert? {t u : Table key} {r x : ρ} (h : t.insert? r = some u) :
    x ∈ u ↔ x ∈ t ∨ x = r := by
  rw [mem_def, (insert?_eq_some.1 h).2]
  simp [mem_def]

theorem find?_insert? {t u : Table key} {r : ρ} (h : t.insert? r = some u) (k : κ) :
    u.find? k = if k = key r then some r else t.find? k := by
  have hnew := (insert?_eq_some.1 h).1
  split
  · next hk =>
    subst hk
    exact find?_eq_some.2 ⟨(mem_insert? h).2 (.inr rfl), rfl⟩
  · next hk =>
    refine Option.ext fun x => ?_
    simp only [find?_eq_some, mem_insert? h]
    constructor
    · rintro ⟨hx | rfl, hkx⟩
      · exact ⟨hx, hkx⟩
      · exact absurd hkx.symm hk
    · rintro ⟨hx, hkx⟩
      exact ⟨.inl hx, hkx⟩

/-! ## Removing a row -/

/-- Remove the row with key `k`, if there is one. -/
def erase (t : Table key) (k : κ) : Table key where
  rows := t.rows.filter fun r => key r ≠ k
  nodup := t.nodup.sublist ((List.filter_sublist).map key)

theorem mem_erase {t : Table key} {k : κ} {x : ρ} : x ∈ t.erase k ↔ x ∈ t ∧ key x ≠ k := by
  simp [mem_def, erase]

theorem find?_erase {t : Table key} (k j : κ) :
    (t.erase k).find? j = if j = k then none else t.find? j := by
  refine Option.ext fun x => ?_
  split
  · next h =>
    simp only [find?_eq_some, mem_erase, reduceCtorEq, iff_false]
    rintro ⟨⟨-, hne⟩, hx⟩
    exact hne (hx.trans h)
  · next h =>
    simp only [find?_eq_some, mem_erase]
    constructor
    · rintro ⟨⟨hx, -⟩, hk⟩
      exact ⟨hx, hk⟩
    · rintro ⟨hx, rfl⟩
      exact ⟨⟨hx, h⟩, rfl⟩

/-! ## Setting a row -/

/-- Replace the row with the key of `r`, or add `r` if the key is new. -/
def set (t : Table key) (r : ρ) : Table key := (t.insert? r).getD (t.put r)

theorem find?_set {t : Table key} (r : ρ) (k : κ) :
    (t.set r).find? k = if k = key r then some r else t.find? k := by
  unfold set
  cases h : t.insert? r with
  | some u => exact find?_insert? h k
  | none =>
    rw [Option.getD_none, find?_put]
    split
    · next hk =>
      subst hk
      cases hf : t.find? (key r) with
      | some x => rfl
      | none =>
        rw [insert?, dif_neg] at h
        · cases h
        · intro hmem
          obtain ⟨x, hx, hkx⟩ := List.mem_map.1 hmem
          exact find?_eq_none.1 hf x hx hkx
    · rfl

theorem mem_set {t : Table key} {r x : ρ} : x ∈ t.set r ↔ x = r ∨ x ∈ t ∧ key x ≠ key r := by
  have hfind : x ∈ t.set r ↔ (t.set r).find? (key x) = some x := by
    rw [find?_eq_some]
    simp
  rw [hfind, find?_set]
  by_cases hk : key x = key r
  · rw [if_pos hk]
    simp [hk, eq_comm]
  · rw [if_neg hk, find?_eq_some]
    have hne : x ≠ r := by
      rintro rfl
      exact hk rfl
    simp [hk, hne]

omit [DecidableEq κ] in
/-- Tables with the same rows have them in some other order. -/
theorem rows_perm {t u : Table key} (h : ∀ r, r ∈ t ↔ r ∈ u) : t.rows.Perm u.rows :=
  (List.perm_ext_iff_of_nodup (List.Nodup.of_map key t.nodup) (List.Nodup.of_map key u.nodup)).2 h

theorem rows_set_perm (t : Table key) (r : ρ) :
    (t.set r).rows.Perm (r :: (t.erase (key r)).rows) := by
  have hnodup : (r :: (t.erase (key r)).rows).Nodup := by
    rw [List.nodup_cons]
    constructor
    · intro hmem
      exact (mem_erase.1 hmem).2 rfl
    · exact List.Nodup.of_map key (t.erase (key r)).nodup
  apply (List.perm_ext_iff_of_nodup (List.Nodup.of_map key (t.set r).nodup) hnodup).2
  intro x
  rw [List.mem_cons]
  exact mem_set.trans (or_congr_right mem_erase.symm)

/-- The row of a key, and the others. -/
theorem rows_perm_cons_erase {t : Table key} {k : κ} {r : ρ} (h : t.find? k = some r) :
    t.rows.Perm (r :: (t.erase k).rows) := by
  have hkey := find?_key h
  have hset : ∀ x, x ∈ t ↔ x ∈ t.set r := by
    intro x
    rw [mem_set, hkey]
    constructor
    · intro hx
      by_cases hk : key x = k
      · exact .inl (eq_of_key_eq hx (find?_mem h) (hk.trans hkey.symm))
      · exact .inr ⟨hx, hk⟩
    · intro hx
      cases hx with
      | inl hx => rw [hx]; exact find?_mem h
      | inr hx => exact hx.1
  rw [← hkey]
  exact (rows_perm hset).trans (rows_set_perm t r)

theorem erase_of_not_found {t : Table key} {k : κ} (h : t.find? k = none) : t.erase k = t := by
  apply ext
  apply List.filter_eq_self.2
  intro x hx
  have := find?_eq_none.1 h x hx
  simpa using this

/-! ## Keeping some rows -/

omit [DecidableEq κ] in
/-- Remove the rows that do not satisfy `p`. -/
def keep (t : Table key) (p : ρ → Bool) : Table key where
  rows := t.rows.filter p
  nodup := t.nodup.sublist ((List.filter_sublist).map key)

omit [DecidableEq κ] in
theorem mem_keep {t : Table key} {p : ρ → Bool} {x : ρ} : x ∈ t.keep p ↔ x ∈ t ∧ p x := by
  simp [mem_def, keep]

/-! ## The keys of a table -/

omit [DecidableEq κ] in
/-- The keys of the rows, in the order of the rows. -/
def keys (t : Table key) : List κ := t.rows.map key

/-- A key is present if and only if it is found. -/
theorem mem_keys {t : Table key} {k : κ} : k ∈ t.keys ↔ (t.find? k).isSome := by
  rw [Option.isSome_iff_exists, keys, List.mem_map]
  constructor
  · rintro ⟨x, hx, rfl⟩
    exact ⟨x, find?_of_mem hx⟩
  · rintro ⟨x, hx⟩
    exact ⟨x, find?_mem hx, find?_key hx⟩

theorem keys_erase {t : Table key} (k : κ) : (t.erase k).keys = t.keys.erase k := by
  rw [keys, keys, t.nodup.erase_eq_filter, erase, List.filter_map]
  refine congrArg _ (List.filter_congr fun x _ => ?_)
  by_cases h : key x = k <;> simp [h]

theorem keys_set {t : Table key} (r : ρ) :
    (t.set r).keys = if key r ∈ t.keys then t.keys else t.keys ++ [key r] := by
  unfold set
  cases h : t.insert? r with
  | some u =>
    have hnew := insert?_eq_some.1 h
    rw [Option.getD_some, keys, hnew.2, if_neg]
    · simp [keys]
    · rw [mem_keys, hnew.1]
      simp
  | none =>
    have hmem : key r ∈ t.keys := by
      by_contra hn
      rw [insert?, dif_neg (show key r ∉ t.rows.map key from hn)] at h
      cases h
    rw [Option.getD_none, if_pos hmem, keys, keys, put, List.map_map]
    refine List.map_congr_left fun x _ => ?_
    by_cases hx : key x = key r <;> simp [hx]

/-- Removing a key takes at most itself out of a count of keys. -/
theorem countP_erase {t : Table key} (k : κ) (p : κ → Bool) :
    (t.erase k).keys.countP p + (if (t.find? k).isSome && p k then 1 else 0) =
      t.keys.countP p := by
  rw [keys_erase]
  by_cases hk : k ∈ t.keys
  · rw [(List.perm_cons_erase hk).countP_eq p, List.countP_cons, mem_keys.1 hk, Bool.true_and]
  · rw [List.erase_of_not_mem hk, if_neg]
    · rfl
    · rw [mem_keys] at hk
      simp [hk]

/-- Setting a row adds at most its own key to a count of keys. -/
theorem countP_set {t : Table key} (r : ρ) (p : κ → Bool) :
    (t.set r).keys.countP p =
      t.keys.countP p + if !(t.find? (key r)).isSome && p (key r) then 1 else 0 := by
  rw [keys_set]
  by_cases hk : key r ∈ t.keys
  · rw [if_pos hk, mem_keys.1 hk]
    simp
  · rw [if_neg hk, List.countP_append, List.countP_singleton]
    rw [mem_keys] at hk
    simp [hk]

/-! ## Totals -/

/-- The sum of a weight over all rows. -/
def total (t : Table key) (w : ρ → Nat) : Nat := (t.rows.map w).sum

theorem total_insert? {t u : Table key} {r : ρ} (h : t.insert? r = some u) (w : ρ → Nat) :
    u.total w = t.total w + w r := by
  simp [total, (insert?_eq_some.1 h).2]

/-- Replacing one row moves the total by the difference of the two weights. -/
theorem total_put {t : Table key} {r old : ρ} (h : t.find? (key r) = some old)
    (w : ρ → Nat) : (t.put r).total w + w old = t.total w + w r := by
  obtain ⟨hmem, hkey⟩ := find?_eq_some.1 h
  obtain ⟨pre, post, hrows⟩ := List.append_of_mem (mem_def.1 hmem)
  have hnd := t.nodup
  rw [hrows, List.map_append, List.map_cons, List.nodup_middle, List.nodup_cons] at hnd
  -- every other row has another key, so `put` leaves it as it is
  have hother : ∀ x, x ∈ pre ∨ x ∈ post → key x ≠ key r := by
    intro x hx hk
    refine hnd.1 (hkey ▸ hk ▸ ?_)
    rw [← List.map_append]
    exact List.mem_map_of_mem (List.mem_append.2 hx)
  have hpre : pre.map (fun x => if key x = key r then r else x) = pre := by
    conv_rhs => rw [← List.map_id pre]
    exact List.map_congr_left fun x hx => by simp [hother x (.inl hx)]
  have hpost : post.map (fun x => if key x = key r then r else x) = post := by
    conv_rhs => rw [← List.map_id post]
    exact List.map_congr_left fun x hx => by simp [hother x (.inr hx)]
  have hput : (t.put r).rows = pre ++ r :: post := by
    show t.rows.map _ = _
    rw [hrows, List.map_append, List.map_cons, hpre, hpost, if_pos hkey]
  simp only [total, hput, hrows, List.map_append, List.map_cons, List.sum_append, List.sum_cons]
  omega

end Table
