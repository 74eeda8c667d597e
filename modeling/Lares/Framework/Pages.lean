import Mathlib

/-! # Reading a table in pages

    Keyset pagination: a page holds the rows after a key, in key order, up to a
    limit, and the next page starts after the last row read.

    * **Pages**: `IsPage` says which answers a query may give. Rows that share
      a key may come in any order.
    * **Whole walks**: `eachRow` visits every row after the start once.
    * **Bounded walks**: `collect` reads a number of rows. What it returns is
      part of the table, and with distinct keys it is the front of it.
-/

namespace Pages

variable {α κ : Type*} [LinearOrder κ] (key : α → κ)

/-! ## Section 1: Pages -/

/-- The rows after a key. -/
def rest (rows : List α) (after : κ) : List α := rows.filter fun r => decide (after < key r)

/-- One of the answers to "the rows after `after` in key order, at most `limit`". -/
def IsPage (rows : List α) (after : κ) (limit : Nat) (page : List α) : Prop :=
  ∃ sorted : List α, sorted.Perm (rest key rows after) ∧
    sorted.Pairwise (fun a b => key a ≤ key b) ∧ page = sorted.take limit

/-- The page that keeps the order of the table among rows that share a key. -/
def page (rows : List α) (after : κ) (limit : Nat) : List α :=
  ((rest key rows after).insertionSort fun a b => key a ≤ key b).take limit

variable {key} {rows : List α} {after : κ} {limit : Nat} {batch : List α}

theorem page_isPage : IsPage key rows after limit (page key rows after limit) := by
  have : Std.Total fun a b : α => key a ≤ key b := ⟨fun a b => le_total (key a) (key b)⟩
  have : IsTrans α fun a b => key a ≤ key b := ⟨fun _ _ _ => le_trans⟩
  exact ⟨_, List.perm_insertionSort _ _, List.pairwise_insertionSort _ _, rfl⟩

theorem mem_rest {r : α} : r ∈ rest key rows after ↔ r ∈ rows ∧ after < key r := by
  simp [rest]

theorem rest_eq_self (h : ∀ r ∈ rows, after < key r) : rest key rows after = rows := by
  unfold rest
  rw [List.filter_eq_self]
  intro r hr
  exact decide_eq_true (h r hr)

theorem rest_subset_of_le {after' : κ} (h : after ≤ after') :
    rest key (rest key rows after) after' = rest key rows after' := by
  unfold rest
  rw [List.filter_filter]
  refine List.filter_congr fun r _ => ?_
  by_cases hr : after' < key r
  · simp [hr, lt_of_le_of_lt h hr]
  · simp [hr]

theorem rest_perm {rows' : List α} (h : rows.Perm rows') :
    (rest key rows after).Perm (rest key rows' after) := h.filter _

/-- An empty page says that nothing is left. -/
theorem IsPage.nil (h : IsPage key rows after limit []) (hlimit : 0 < limit) :
    rest key rows after = [] := by
  obtain ⟨sorted, hperm, -, hpage⟩ := h
  have hlen : sorted.length = 0 := by
    have := congrArg List.length hpage
    rw [List.length_nil, List.length_take] at this
    omega
  rw [List.length_eq_zero_iff.1 hlen] at hperm
  exact List.nil_perm.1 hperm

/-- A page and what it leaves out are the rows after the key. -/
theorem IsPage.split (h : IsPage key rows after limit batch) :
    ∃ left, (batch ++ left).Perm (rest key rows after) ∧
      (batch ++ left).Pairwise (fun a b => key a ≤ key b) ∧
      (batch.length < limit → left = []) ∧ batch.length ≤ limit := by
  obtain ⟨sorted, hperm, hsorted, hpage⟩ := h
  subst hpage
  refine ⟨sorted.drop limit, by rwa [List.take_append_drop], by rwa [List.take_append_drop],
    fun hshort => ?_, List.length_take_le _ _⟩
  rw [List.length_take] at hshort
  exact List.drop_eq_nil_of_le (by omega)

theorem IsPage.mem (h : IsPage key rows after limit batch) {r : α} (hr : r ∈ batch) :
    r ∈ rows ∧ after < key r := by
  obtain ⟨left, hperm, -⟩ := h.split
  exact mem_rest.1 (hperm.subset (List.mem_append_left _ hr))

/-- A row of a page is at most the last one. -/
theorem le_last {left : List α} {last : α}
    (hsorted : (batch ++ left).Pairwise (fun a b => key a ≤ key b))
    (hlast : batch.getLast? = some last) : ∀ r ∈ batch, key r ≤ key last := by
  intro r hr
  obtain ⟨front, rfl⟩ := List.getLast?_eq_some_iff.1 hlast
  rcases List.mem_append.1 hr with hfront | hl
  · exact (List.pairwise_append.1 (List.pairwise_append.1 hsorted).1).2.2 r hfront last
      List.mem_cons_self
  · rw [List.mem_singleton.1 hl]

/-- What follows the last row of a page was left out by the page. -/
theorem rest_last {left : List α} {last : α}
    (hperm : (batch ++ left).Perm (rest key rows after))
    (hsorted : (batch ++ left).Pairwise (fun a b => key a ≤ key b))
    (hlast : batch.getLast? = some last) :
    (rest key left (key last)).Perm (rest key rows (key last)) := by
  have hmem : last ∈ batch := List.mem_of_getLast? hlast
  have hafter : after < key last := (mem_rest.1 (hperm.subset (List.mem_append_left _ hmem))).2
  have hback : rest key batch (key last) = [] := by
    unfold rest
    rw [List.filter_eq_nil_iff]
    intro r hr
    rw [decide_eq_true_eq, not_lt]
    exact le_last hsorted hlast r hr
  have hrest : (rest key (batch ++ left) (key last)).Perm
      (rest key (rest key rows after) (key last)) := rest_perm hperm
  rw [rest_subset_of_le hafter.le] at hrest
  have happ : rest key (batch ++ left) (key last) = rest key left (key last) := by
    show List.filter _ _ = _
    rw [List.filter_append]
    show rest key batch (key last) ++ _ = _
    rw [hback, List.nil_append]
    rfl
  rwa [happ] at hrest

/-- With distinct keys that is all the page left out. -/
theorem rest_left {left : List α} {last : α}
    (hperm : (batch ++ left).Perm (rest key rows after))
    (hsorted : (batch ++ left).Pairwise (fun a b => key a ≤ key b))
    (hnodup : (rows.map key).Nodup) (hlast : batch.getLast? = some last) :
    rest key left (key last) = left := by
  have hmem : last ∈ batch := List.mem_of_getLast? hlast
  have hkeys : ((batch ++ left).map key).Nodup :=
    (hperm.map key).nodup_iff.2 (hnodup.sublist (List.filter_sublist.map key))
  apply rest_eq_self
  intro r hr
  apply lt_of_le_of_ne ((List.pairwise_append.1 hsorted).2.2 last hmem r hr)
  intro heq
  rw [List.map_append, List.nodup_append] at hkeys
  exact hkeys.2.2 _ (List.mem_map_of_mem hmem) _ (List.mem_map_of_mem hr) heq

/-! ## Section 2: Whole walks -/

/-- Visit the rows after a key page by page, until one is refused. -/
def eachRow (key : α → κ) (next : κ → List α) (visit : α → Bool) : Nat → κ → Option Bool
  | 0, _ => none
  | fuel + 1, after =>
      match (next after).getLast? with
      | none => some true
      | some last =>
          if (next after).all visit then eachRow key next visit fuel (key last) else some false

/-- **Whole walks**: every row after the start is visited, however long the pages are. -/
theorem eachRow_eq {next : κ → List α} {visit : α → Bool} (hlimit : 0 < limit)
    (hnext : ∀ after, IsPage key rows after limit (next after)) (hnodup : (rows.map key).Nodup) :
    ∀ {fuel : Nat} {after : κ}, (rest key rows after).length < fuel →
      eachRow key next visit fuel after = some ((rest key rows after).all visit) := by
  intro fuel
  induction fuel with
  | zero =>
    intro after h
    omega
  | succ fuel ih =>
    intro after h
    unfold eachRow
    cases hlast : (next after).getLast? with
    | none =>
      have hnil : next after = [] := List.getLast?_eq_none_iff.1 hlast
      have hrest := (hnil ▸ hnext after).nil hlimit
      rw [hrest]
      rfl
    | some last =>
      obtain ⟨left, hperm, hsorted, -⟩ := (hnext after).split
      have hleft : left.Perm (rest key rows (key last)) := by
        have := rest_last hperm hsorted hlast
        rwa [rest_left hperm hsorted hnodup hlast] at this
      -- the page is not empty, so fewer rows are left than before
      have hlen : (rest key rows (key last)).length < fuel := by
        have htotal := hperm.length_eq
        have hpage : 0 < (next after).length := List.length_pos_of_mem (List.mem_of_getLast? hlast)
        rw [List.length_append] at htotal
        rw [← hleft.length_eq]
        omega
      have hall : (rest key rows after).all visit =
          ((next after).all visit && (rest key rows (key last)).all visit) := by
        rw [← hperm.all_eq, List.all_append, hleft.all_eq]
      dsimp only
      rw [hall]
      split
      · next hv => rw [ih hlen, hv, Bool.true_and]
      · next hv => rw [eq_false_of_ne_true hv, Bool.false_and]

/-! ## Section 3: Bounded walks -/

/-- Read `left` rows after a key in pages of at most `limit`. -/
def collect (key : α → κ) (next : κ → Nat → List α) (limit : Nat) :
    Nat → κ → Nat → Option (List α)
  | _, _, 0 => some []
  | 0, _, _ + 1 => none
  | fuel + 1, after, left + 1 =>
      let batch := next after (min limit (left + 1))
      match batch.getLast? with
      | none => none
      | some last =>
          (collect key next limit fuel (key last) (left + 1 - batch.length)).map (batch ++ ·)

variable {next : κ → Nat → List α}

/-- What is collected are rows of the table, each as often as it is there, in key order. -/
theorem collect_some (hnext : ∀ after limit, IsPage key rows after limit (next after limit)) :
    ∀ {fuel after left read}, collect key next limit fuel after left = some read →
      read.length = left ∧ read.Subperm (rest key rows after) ∧
        read.Pairwise (fun a b => key a ≤ key b) := by
  intro fuel
  induction fuel with
  | zero =>
    intro after left read h
    cases left with
    | zero =>
      cases h
      exact ⟨rfl, List.nil_subperm, List.Pairwise.nil⟩
    | succ left => cases h
  | succ fuel ih =>
    intro after left read h
    cases left with
    | zero =>
      cases h
      exact ⟨rfl, List.nil_subperm, List.Pairwise.nil⟩
    | succ left =>
      unfold collect at h
      dsimp only at h
      cases hlast : (next after (min limit (left + 1))).getLast? with
      | none =>
        rw [hlast] at h
        cases h
      | some last =>
        rw [hlast] at h
        obtain ⟨tail, htail, rfl⟩ := Option.map_eq_some_iff.1 h
        -- This page, and what the walk collects behind its last row.
        obtain ⟨hlen, hsub, hpair⟩ := ih htail
        obtain ⟨out, hperm, hsorted, -, hshort⟩ := (hnext after (min limit (left + 1))).split
        generalize hb : next after (min limit (left + 1)) = batch at *
        refine ⟨by rw [List.length_append, hlen]; omega, ?_, ?_⟩
        · -- What is behind the last row was not on the page.
          have hrest := rest_last hperm hsorted hlast
          have hout : tail.Subperm out :=
            (hsub.trans hrest.symm.subperm).trans List.filter_sublist.subperm
          exact ((List.subperm_append_left batch).2 hout).trans hperm.subperm
        · refine List.pairwise_append.2 ⟨(List.pairwise_append.1 hsorted).1, hpair, ?_⟩
          -- A row of the page is not above its last, and the rest is.
          intro a ha b hb
          have hb' := (mem_rest.1 (hsub.subset hb)).2
          exact (le_last hsorted hlast a ha).trans hb'.le

/-- Strictly sorted rows are the only answer a page can be cut from. -/
theorem IsPage.eq_take {sorted : List α} (h : IsPage key rows after limit batch)
    (hperm : sorted.Perm (rest key rows after))
    (hstrict : sorted.Pairwise (fun a b => key a < key b)) : batch = sorted.take limit := by
  obtain ⟨other, hother, hsorted, heq⟩ := h
  have hsame : other = sorted := by
    have hnodup : (sorted.map key).Nodup := List.pairwise_map.2 (hstrict.imp fun h => h.ne)
    apply (hother.trans hperm.symm).eq_of_pairwise
    · intro a b ha hb hab hba
      have ha' := (hother.trans hperm.symm).subset ha
      exact List.inj_on_of_nodup_map hnodup ha' hb (le_antisymm hab hba)
    · exact hsorted
    · exact hstrict.imp fun h => h.le
  rw [heq, hsame]

/-- **Bounded walks**: with distinct keys the front of the table is collected. -/
theorem collect_sorted (hlimit : 0 < limit)
    (hnext : ∀ after limit, IsPage key rows after limit (next after limit)) :
    ∀ {fuel after left} {sorted : List α}, sorted.Perm (rest key rows after) →
      sorted.Pairwise (fun a b => key a < key b) → left ≤ sorted.length → left ≤ fuel →
      collect key next limit fuel after left = some (sorted.take left) := by
  intro fuel
  induction fuel with
  | zero =>
    intro after left sorted _ _ _ hfuel
    obtain rfl : left = 0 := by omega
    rfl
  | succ fuel ih =>
    intro after left sorted hperm hstrict hle hfuel
    cases left with
    | zero => rfl
    | succ left =>
      have hpage := (hnext after (min limit (left + 1))).eq_take hperm hstrict
      have hsize : 0 < min limit (left + 1) := by omega
      unfold collect
      dsimp only
      rw [hpage]
      generalize hm : min limit (left + 1) = m at *
      cases hlast : (sorted.take m).getLast? with
      | none =>
        have := congrArg List.length (List.getLast?_eq_none_iff.1 hlast)
        rw [List.length_take, List.length_nil] at this
        omega
      | some last =>
        have hsplit : (sorted.take m ++ sorted.drop m).Perm (rest key rows after) := by
          rwa [List.take_append_drop]
        have hpairs : (sorted.take m ++ sorted.drop m).Pairwise (fun a b => key a < key b) := by
          rwa [List.take_append_drop]
        have hlater : ∀ r ∈ sorted.drop m, key last < key r := fun r hr =>
          (List.pairwise_append.1 hpairs).2.2 last (List.mem_of_getLast? hlast) r hr
        -- the next page starts in what this one left out
        have hnextperm : (sorted.drop m).Perm (rest key rows (key last)) := by
          have := rest_last hsplit (hpairs.imp fun h => h.le) hlast
          rwa [rest_eq_self hlater] at this
        have hlen : (sorted.take m).length = m := by
          rw [List.length_take]
          omega
        have hrec : collect key next limit fuel (key last) (left + 1 - m) =
            some ((sorted.drop m).take (left + 1 - m)) :=
          ih hnextperm (List.pairwise_append.1 hpairs).2.1 (by rw [List.length_drop]; omega)
            (by omega)
        dsimp only
        rw [hlen, hrec, Option.map_some]
        have hcut : left + 1 = m + (left + 1 - m) := by omega
        conv_rhs => rw [hcut, List.take_add]

end Pages
