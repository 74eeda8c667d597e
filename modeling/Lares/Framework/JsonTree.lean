import Lares.Framework.JsonTexts
import Mathlib

/-! # JSON trees

    What a JSON text says, over any type of numbers and any type of texts, and
    the two ways between trees and texts.

    * **Trees** with their induction, and `map`. An object is the list of its
      fields; in a `Keyed` tree no object has two fields of one name.
    * `Arrangement`: a way to order fields that sees their names only. Trees
      are arranged inside out, and two arrangements agree on a tree if and only
      if they agree on the names of each of its objects.
    * **Writing** with no space between tokens.
    * **Reading** (`JSON.parse`): a machine that takes one character at a time
      and has the open arrays and objects on a stack.
    * **Round trip**: what was written is read.
-/

/-- `σ` is the type of texts, `ν` that of numbers. -/
inductive JsonTree (ν σ : Type) where
  | null
  | bool (b : Bool)
  | number (x : ν)
  | string (text : σ)
  | array (items : List (JsonTree ν σ))
  | object (fields : List (σ × JsonTree ν σ))

namespace JsonTree

variable {ν ν' σ σ' : Type}

/-! ## Section 1: Trees -/

/-- Induction on trees: the items of an array and the fields of an object come first. -/
@[induction_eliminator, elab_as_elim]
theorem induct {P : JsonTree ν σ → Prop} (null : P .null) (bool : ∀ b, P (.bool b))
    (number : ∀ x, P (.number x)) (string : ∀ text, P (.string text))
    (array : ∀ items, (∀ v ∈ items, P v) → P (.array items))
    (object : ∀ fields, (∀ p ∈ fields, P p.2) → P (.object fields)) (v : JsonTree ν σ) : P v := by
  refine @JsonTree.rec ν σ P (fun items => ∀ v ∈ items, P v) (fun fields => ∀ p ∈ fields, P p.2)
    (fun p => P p.2) null bool number string array object ?_ ?_ ?_ ?_ (fun _ _ h => h) v
  · intro v hv
    cases hv
  · intro w items hw hitems v hv
    cases List.mem_cons.1 hv with
    | inl he => rw [he]; exact hw
    | inr hmem => exact hitems v hmem
  · intro p hp
    cases hp
  · intro q fields hq hfields p hp
    cases List.mem_cons.1 hp with
    | inl he => rw [he]; exact hq
    | inr hmem => exact hfields p hmem

section Map

variable (g : ν → ν') (h : σ → σ')

mutual

/-- Other numbers and other texts in the same tree. -/
def map : JsonTree ν σ → JsonTree ν' σ'
  | .null => .null
  | .bool b => .bool b
  | .number x => .number (g x)
  | .string text => .string (h text)
  | .array items => .array (mapItems items)
  | .object fields => .object (mapFields fields)

def mapItems : List (JsonTree ν σ) → List (JsonTree ν' σ')
  | [] => []
  | v :: items => map v :: mapItems items

def mapFields : List (σ × JsonTree ν σ) → List (σ' × JsonTree ν' σ')
  | [] => []
  | (k, v) :: fields => (h k, map v) :: mapFields fields

end

theorem mapItems_eq (items : List (JsonTree ν σ)) : mapItems g h items = items.map (map g h) := by
  induction items with
  | nil => rfl
  | cons v items ih => rw [mapItems, ih, List.map_cons]

theorem mapFields_eq (fields : List (σ × JsonTree ν σ)) :
    mapFields g h fields = fields.map fun p => (h p.1, map g h p.2) := by
  induction fields with
  | nil => rfl
  | cons p fields ih => rw [mapFields, ih, List.map_cons]

end Map

section Everywhere

variable (onNumber : ν → Prop) (onNames : List σ → Prop)

mutual

/-- A property of every number, and one of the names of every object. -/
def Everywhere : JsonTree ν σ → Prop
  | .null => True
  | .bool _ => True
  | .number x => onNumber x
  | .string _ => True
  | .array items => EverywhereItems items
  | .object fields => onNames (fields.map Prod.fst) ∧ EverywhereFields fields

def EverywhereItems : List (JsonTree ν σ) → Prop
  | [] => True
  | v :: items => Everywhere v ∧ EverywhereItems items

def EverywhereFields : List (σ × JsonTree ν σ) → Prop
  | [] => True
  | (_, v) :: fields => Everywhere v ∧ EverywhereFields fields

end

variable {onNumber : ν → Prop} {onNames : List σ → Prop}

theorem everywhereItems {items : List (JsonTree ν σ)} :
    EverywhereItems onNumber onNames items ↔ ∀ v ∈ items, Everywhere onNumber onNames v := by
  induction items with
  | nil => simp [EverywhereItems]
  | cons v items ih => rw [EverywhereItems, ih, List.forall_mem_cons]

theorem everywhereFields {fields : List (σ × JsonTree ν σ)} :
    EverywhereFields onNumber onNames fields ↔
      ∀ p ∈ fields, Everywhere onNumber onNames p.2 := by
  induction fields with
  | nil => simp [EverywhereFields]
  | cons p fields ih => rw [EverywhereFields, ih, List.forall_mem_cons]

theorem everywhere_array {items : List (JsonTree ν σ)} :
    Everywhere onNumber onNames (.array items) ↔
      ∀ v ∈ items, Everywhere onNumber onNames v := by
  rw [Everywhere, everywhereItems]

theorem everywhere_object {fields : List (σ × JsonTree ν σ)} :
    Everywhere onNumber onNames (.object fields) ↔ onNames (fields.map Prod.fst) ∧
      ∀ p ∈ fields, Everywhere onNumber onNames p.2 := by
  rw [Everywhere, everywhereFields]

theorem Everywhere.mono {onNumber' : ν → Prop} {onNames' : List σ → Prop} {v : JsonTree ν σ}
    (h : Everywhere onNumber onNames v) (hnumber : ∀ x, onNumber x → onNumber' x)
    (hnames : ∀ names, onNames names → onNames' names) : Everywhere onNumber' onNames' v := by
  induction v with
  | null => trivial
  | bool b => trivial
  | number x => exact hnumber x h
  | string text => trivial
  | array items ih =>
    rw [everywhere_array] at h ⊢
    exact fun v hv => ih v hv (h v hv)
  | object fields ih =>
    rw [everywhere_object] at h ⊢
    exact ⟨hnames _ h.1, fun p hp => ih p hp (h.2 p hp)⟩

theorem Everywhere.and {onNumber' : ν → Prop} {onNames' : List σ → Prop} {v : JsonTree ν σ}
    (h : Everywhere onNumber onNames v) (h' : Everywhere onNumber' onNames' v) :
    Everywhere (fun x => onNumber x ∧ onNumber' x) (fun ns => onNames ns ∧ onNames' ns) v := by
  induction v with
  | null => trivial
  | bool b => trivial
  | number x => exact ⟨h, h'⟩
  | string text => trivial
  | array items ih =>
    rw [everywhere_array] at h h' ⊢
    exact fun v hv => ih v hv (h v hv) (h' v hv)
  | object fields ih =>
    rw [everywhere_object] at h h' ⊢
    exact ⟨⟨h.1, h'.1⟩, fun p hp => ih p hp (h.2 p hp) (h'.2 p hp)⟩

end Everywhere

/-- No object has two fields of one name. -/
def Keyed (v : JsonTree ν σ) : Prop := v.Everywhere (fun _ => True) List.Nodup

/-! ## Section 2: Arranging the fields -/

/-- A way to order fields that sees their names only. -/
structure Arrangement (σ : Type) where
  apply : ∀ {V : Type}, List (σ × V) → List (σ × V)
  perm : ∀ {V : Type} (fields : List (σ × V)), (apply fields).Perm fields
  natural : ∀ {V W : Type} (g : V → W) (fields : List (σ × V)),
    apply (fields.map fun p => (p.1, g p.2)) = (apply fields).map fun p => (p.1, g p.2)

namespace Arrangement

/-- Sorted by name, where `f` says where a name stands. -/
def byName {κ : Type} [LinearOrder κ] (f : σ → κ) : Arrangement σ where
  apply fields := fields.insertionSort fun p q => f p.1 ≤ f q.1
  perm fields := List.perm_insertionSort _ fields
  natural g fields := by
    symm
    apply List.map_insertionSort
    intro p _ q _
    rfl

/-- One arrangement after another. -/
def andThen (r s : Arrangement σ) : Arrangement σ where
  apply fields := s.apply (r.apply fields)
  perm fields := (s.perm _).trans (r.perm fields)
  natural g fields := by rw [r.natural, s.natural]

/-- What an arrangement makes of names alone. -/
def names (r : Arrangement σ) (names : List σ) : List σ :=
  (r.apply (names.map fun k => (k, ()))).map Prod.fst

theorem map_fst_apply (r : Arrangement σ) {V : Type} (fields : List (σ × V)) :
    (r.apply fields).map Prod.fst = r.names (fields.map Prod.fst) := by
  have h := r.natural (fun _ => ()) fields
  unfold names
  rw [List.map_map]
  show _ = ((r.apply (fields.map fun p => (p.1, ()))).map Prod.fst)
  rw [h, List.map_map]
  rfl

theorem mem_apply (r : Arrangement σ) {V : Type} {fields : List (σ × V)} {p : σ × V} :
    p ∈ r.apply fields ↔ p ∈ fields :=
  (r.perm fields).mem_iff

theorem nodup_apply (r : Arrangement σ) {V : Type} {fields : List (σ × V)}
    (h : (fields.map Prod.fst).Nodup) : ((r.apply fields).map Prod.fst).Nodup :=
  ((r.perm fields).map Prod.fst).nodup_iff.2 h

/-- Lists of fields with the same distinct names in the same order and the same fields. -/
theorem fields_ext {V : Type} {l l' : List (σ × V)} (hnames : l.map Prod.fst = l'.map Prod.fst)
    (hnodup : (l.map Prod.fst).Nodup) (hmem : ∀ p ∈ l, p ∈ l') : l = l' := by
  induction l generalizing l' with
  | nil =>
    cases l' with
    | nil => rfl
    | cons q l' => cases hnames
  | cons p l ih =>
    cases l' with
    | nil => cases hnames
    | cons q l' =>
      rw [List.map_cons, List.map_cons, List.cons.injEq] at hnames
      rw [List.map_cons, List.nodup_cons] at hnodup
      have hp : p = q := by
        cases List.mem_cons.1 (hmem p List.mem_cons_self) with
        | inl he => exact he
        | inr htail =>
          -- the name of `p` is that of `q`, so it is not a later one
          have hlater : p.1 ∈ l'.map Prod.fst := List.mem_map_of_mem htail
          rw [← hnames.2] at hlater
          exact absurd hlater hnodup.1
      rw [hp, ih hnames.2 hnodup.2]
      intro r hr
      cases List.mem_cons.1 (hmem r (List.mem_cons_of_mem _ hr)) with
      | inl he =>
        have hname : p.1 ∈ l.map Prod.fst := by
          rw [hp, ← he]
          exact List.mem_map_of_mem hr
        exact absurd hname hnodup.1
      | inr htail => exact htail

/-- Where two arrangements order the names alike they order the fields alike. -/
theorem apply_eq_of_names {r s : Arrangement σ} {V : Type} {fields : List (σ × V)}
    (hnodup : (fields.map Prod.fst).Nodup)
    (h : r.names (fields.map Prod.fst) = s.names (fields.map Prod.fst)) :
    r.apply fields = s.apply fields := by
  apply fields_ext
  · rw [map_fst_apply, map_fst_apply, h]
  · exact r.nodup_apply hnodup
  · intro p hp
    exact s.mem_apply.2 (r.mem_apply.1 hp)

theorem names_perm (r : Arrangement σ) (ns : List σ) : (r.names ns).Perm ns := by
  have h := (r.perm (ns.map fun k => (k, ()))).map Prod.fst
  rw [List.map_map] at h
  have hid : (ns.map (Prod.fst ∘ fun k => (k, ()))) = ns := List.map_id ns
  rw [hid] at h
  exact h

theorem names_andThen (r s : Arrangement σ) (ns : List σ) :
    (r.andThen s).names ns = s.names (r.names ns) :=
  s.map_fst_apply (r.apply (ns.map fun k => (k, ())))

section ByName

variable {κ κ' : Type} [LinearOrder κ] [LinearOrder κ'] {f : σ → κ} {g : σ → κ'}

theorem names_byName (f : σ → κ) (ns : List σ) :
    (byName f).names ns = ns.insertionSort fun k k' => f k ≤ f k' := by
  unfold names byName
  show ((ns.map fun k => (k, ())).insertionSort _).map Prod.fst = _
  rw [List.map_insertionSort _ (fun k k' => f k ≤ f k')]
  · rw [List.map_map]
    exact congrArg _ (List.map_id ns)
  · intro p _ q _
    rfl

theorem names_byName_pairwise (f : σ → κ) (ns : List σ) :
    ((byName f).names ns).Pairwise fun k k' => f k ≤ f k' := by
  have htotal : Std.Total fun k k' : σ => f k ≤ f k' := ⟨fun k k' => le_total (f k) (f k')⟩
  have htrans : IsTrans σ fun k k' => f k ≤ f k' := ⟨fun _ _ _ h h' => h.trans h'⟩
  rw [names_byName]
  exact List.pairwise_insertionSort _ ns

/-- Only one order of the names is sorted. -/
theorem names_unique (hf : Function.Injective f) {l ns : List σ} (hperm : l.Perm ns)
    (hsorted : l.Pairwise fun k k' => f k ≤ f k') : l = (byName f).names ns := by
  apply List.Perm.eq_of_pairwise _ hsorted (names_byName_pairwise f ns)
    (hperm.trans ((byName f).names_perm ns).symm)
  intro k k' _ _ h h'
  exact hf (le_antisymm h h')

/-- **Two sorts agree** on names if and only if any two of these compare alike. -/
theorem names_eq_iff (hf : Function.Injective f) (hg : Function.Injective g) (ns : List σ) :
    (byName f).names ns = (byName g).names ns ↔
      ∀ k ∈ ns, ∀ k' ∈ ns, f k ≤ f k' ↔ g k ≤ g k' := by
  constructor
  · intro h
    have hpf := names_byName_pairwise f ns
    have hpg := names_byName_pairwise g ns
    rw [← h] at hpg
    -- of two names the one that stands first is the smaller one for both
    have hboth : ((byName f).names ns).Pairwise fun k k' => f k ≤ f k' ∧ g k ≤ g k' :=
      hpf.and hpg
    have hsymm : Std.Symm fun k k' : σ =>
        (f k ≤ f k' ∧ g k ≤ g k') ∨ f k' ≤ f k ∧ g k' ≤ g k := ⟨fun _ _ h => h.symm⟩
    have hcompare : ∀ k ∈ (byName f).names ns, ∀ k' ∈ (byName f).names ns,
        (f k ≤ f k' ∧ g k ≤ g k') ∨ f k' ≤ f k ∧ g k' ≤ g k := by
      intro k hk k' hk'
      have hself : ∀ k ∈ (byName f).names ns,
          (f k ≤ f k ∧ g k ≤ g k) ∨ f k ≤ f k ∧ g k ≤ g k :=
        fun k _ => .inl ⟨le_refl _, le_refl _⟩
      have hpair : ((byName f).names ns).Pairwise fun k k' =>
          (f k ≤ f k' ∧ g k ≤ g k') ∨ f k' ≤ f k ∧ g k' ≤ g k := hboth.imp fun h => Or.inl h
      have hall := hpair.forall_of_forall hself
      exact hall hk hk'
    have hmem : ∀ {k}, k ∈ ns → k ∈ (byName f).names ns :=
      fun hk => ((byName f).names_perm ns).mem_iff.2 hk
    intro k hk k' hk'
    cases hcompare k (hmem hk) k' (hmem hk') with
    | inl hle => exact ⟨fun _ => hle.2, fun _ => hle.1⟩
    | inr hge =>
      constructor
      · intro hle
        rw [hf (le_antisymm hle hge.1)]
      · intro hle
        rw [hg (le_antisymm hle hge.2)]
  · intro h
    apply names_unique hg ((byName f).names_perm ns)
    apply (names_byName_pairwise f ns).imp_of_mem
    intro k k' hk hk' hle
    have hmem : ∀ {k}, k ∈ (byName f).names ns → k ∈ ns :=
      fun hk => ((byName f).names_perm ns).mem_iff.1 hk
    exact (h k (hmem hk) k' (hmem hk')).1 hle

end ByName

end Arrangement

section Arrange

variable (r : Arrangement σ)

mutual

/-- The tree with the fields of its objects arranged. -/
def arrange : JsonTree ν σ → JsonTree ν σ
  | .null => .null
  | .bool b => .bool b
  | .number x => .number x
  | .string text => .string text
  | .array items => .array (arrangeItems items)
  | .object fields => .object (r.apply (arrangeFields fields))

def arrangeItems : List (JsonTree ν σ) → List (JsonTree ν σ)
  | [] => []
  | v :: items => arrange v :: arrangeItems items

def arrangeFields : List (σ × JsonTree ν σ) → List (σ × JsonTree ν σ)
  | [] => []
  | (k, v) :: fields => (k, arrange v) :: arrangeFields fields

end

theorem arrange_array (items : List (JsonTree ν σ)) :
    arrange r (.array items) = .array (items.map (arrange r)) := by
  rw [arrange]
  congr 1
  induction items with
  | nil => rfl
  | cons v items ih => rw [arrangeItems, ih, List.map_cons]

theorem arrangeFields_eq (fields : List (σ × JsonTree ν σ)) :
    arrangeFields r fields = fields.map fun p => (p.1, arrange r p.2) := by
  induction fields with
  | nil => rfl
  | cons p fields ih => rw [arrangeFields, ih, List.map_cons]

theorem arrange_object (fields : List (σ × JsonTree ν σ)) :
    arrange r (.object fields) =
      .object ((r.apply fields).map fun p => (p.1, arrange r p.2)) := by
  rw [arrange, arrangeFields_eq, r.natural]

variable {r} {s : Arrangement σ}

theorem arrange_arrange (v : JsonTree ν σ) :
    arrange s (arrange r v) = arrange (r.andThen s) v := by
  induction v with
  | null => rfl
  | bool b => rfl
  | number x => rfl
  | string text => rfl
  | array items ih =>
    rw [arrange_array, arrange_array, arrange_array, List.map_map]
    exact congrArg _ (List.map_congr_left ih)
  | object fields ih =>
    rw [arrange_object, arrange_object, arrange_object, s.natural, List.map_map]
    congr 1
    apply List.map_congr_left
    intro p hp
    show (p.1, arrange s (arrange r p.2)) = (p.1, arrange (r.andThen s) p.2)
    rw [ih p (r.mem_apply.1 (s.mem_apply.1 hp))]

theorem everywhere_arrange {onNumber : ν → Prop} {onNames : List σ → Prop} {v : JsonTree ν σ}
    (hnames : ∀ ns, onNames ns → onNames (r.names ns))
    (h : v.Everywhere onNumber onNames) : (arrange r v).Everywhere onNumber onNames := by
  induction v with
  | null => trivial
  | bool b => trivial
  | number x => exact h
  | string text => trivial
  | array items ih =>
    rw [arrange_array]
    rw [everywhere_array] at h ⊢
    intro v hv
    obtain ⟨w, hw, hv⟩ := List.mem_map.1 hv
    rw [← hv]
    exact ih w hw (h w hw)
  | object fields ih =>
    rw [arrange_object]
    rw [everywhere_object] at h ⊢
    rw [List.map_map]
    constructor
    · show onNames ((r.apply fields).map Prod.fst)
      rw [r.map_fst_apply]
      exact hnames _ h.1
    · intro p hp
      obtain ⟨q, hq, hp⟩ := List.mem_map.1 hp
      rw [← hp]
      have hmem := r.mem_apply.1 hq
      exact ih q hmem (h.2 q hmem)

theorem Keyed.arrange {v : JsonTree ν σ} (h : v.Keyed) : (arrange r v).Keyed :=
  everywhere_arrange (fun ns hns => (r.names_perm ns).nodup_iff.2 hns) h

/-- **Arranging alike**: a matter of the names of each object. -/
theorem arrange_eq_iff {v : JsonTree ν σ} (hkeyed : v.Keyed) :
    arrange r v = arrange s v ↔
      v.Everywhere (fun _ => True) fun ns => r.names ns = s.names ns := by
  induction v with
  | null => exact ⟨fun _ => trivial, fun _ => rfl⟩
  | bool b => exact ⟨fun _ => trivial, fun _ => rfl⟩
  | number x => exact ⟨fun _ => trivial, fun _ => rfl⟩
  | string text => exact ⟨fun _ => trivial, fun _ => rfl⟩
  | array items ih =>
    unfold Keyed at hkeyed
    rw [everywhere_array] at hkeyed
    rw [arrange_array, arrange_array, everywhere_array, array.injEq, List.map_inj_left]
    exact forall₂_congr fun v hv => ih v hv (hkeyed v hv)
  | object fields ih =>
    unfold Keyed at hkeyed
    rw [everywhere_object] at hkeyed
    rw [arrange_object, arrange_object, everywhere_object, object.injEq]
    have hfields : (∀ p ∈ fields, arrange r p.2 = arrange s p.2) ↔
        ∀ p ∈ fields, p.2.Everywhere (fun _ => True) fun ns => r.names ns = s.names ns :=
      forall₂_congr fun p hp => ih p hp (hkeyed.2 p hp)
    rw [← hfields]
    constructor
    · intro h
      have hnames : r.names (fields.map Prod.fst) = s.names (fields.map Prod.fst) := by
        have := congrArg (List.map Prod.fst) h
        rw [List.map_map, List.map_map] at this
        rw [← r.map_fst_apply, ← s.map_fst_apply]
        exact this
      refine ⟨hnames, ?_⟩
      intro p hp
      -- the fields stand in the same places, so each is compared with itself
      rw [Arrangement.apply_eq_of_names hkeyed.1 hnames, List.map_inj_left] at h
      exact (Prod.mk.inj (h p (s.mem_apply.2 hp))).2
    · intro h
      rw [Arrangement.apply_eq_of_names hkeyed.1 h.1, List.map_inj_left]
      intro p hp
      rw [h.2 p (s.mem_apply.1 hp)]

end Arrange

theorem map_array (g : ν → ν') (h : σ → σ') (items : List (JsonTree ν σ)) :
    map g h (.array items) = .array (items.map (map g h)) := by
  rw [map, mapItems_eq]

theorem map_object (g : ν → ν') (h : σ → σ') (fields : List (σ × JsonTree ν σ)) :
    map g h (.object fields) = .object (fields.map fun p => (h p.1, map g h p.2)) := by
  rw [map, mapFields_eq]

theorem map_map {ν'' σ'' : Type} (g : ν → ν') (h : σ → σ') (g' : ν' → ν'') (h' : σ' → σ'')
    (v : JsonTree ν σ) : map g' h' (map g h v) = map (fun x => g' (g x)) (fun k => h' (h k)) v := by
  induction v with
  | null => rfl
  | bool b => rfl
  | number x => rfl
  | string text => rfl
  | array items ih =>
    rw [map_array, map_array, map_array, List.map_map]
    exact congrArg _ (List.map_congr_left ih)
  | object fields ih =>
    rw [map_object, map_object, map_object, List.map_map]
    congr 1
    apply List.map_congr_left
    intro p hp
    show (h' (h p.1), map g' h' (map g h p.2)) = _
    rw [ih p hp]

theorem map_id (v : JsonTree ν σ) : map id id v = v := by
  induction v with
  | null => rfl
  | bool b => rfl
  | number x => rfl
  | string text => rfl
  | array items ih =>
    rw [map_array, List.map_congr_left ih]
    exact congrArg _ (List.map_id items)
  | object fields ih =>
    rw [map_object]
    congr 1
    conv_rhs => rw [← List.map_id fields]
    apply List.map_congr_left
    intro p hp
    show (p.1, map id id p.2) = p
    rw [ih p hp]

theorem everywhere_map {onNumber : ν' → Prop} {onNames : List σ' → Prop} {g : ν → ν'}
    {h : σ → σ'} {v : JsonTree ν σ} : (map g h v).Everywhere onNumber onNames ↔
      v.Everywhere (fun x => onNumber (g x)) fun ns => onNames (ns.map h) := by
  induction v with
  | null => rfl
  | bool b => rfl
  | number x => rfl
  | string text => rfl
  | array items ih =>
    rw [map_array, everywhere_array, everywhere_array, List.forall_mem_map]
    exact forall₂_congr ih
  | object fields ih =>
    rw [map_object, everywhere_object, everywhere_object, List.forall_mem_map, List.map_map,
      List.map_map]
    exact and_congr Iff.rfl (forall₂_congr ih)

/-- Numbers that can be taken back leave the tree to be read off. -/
theorem map_injective {g : ν → ν'} (back : ν' → ν) (h : ∀ x, back (g x) = x) :
    Function.Injective (map (σ := σ) g id) := by
  intro v w he
  have hback : ∀ v : JsonTree ν σ, map back id (map g id v) = v := by
    intro v
    rw [map_map, funext h]
    exact map_id v
  rw [← hback v, he, hback w]

/-- Sorting by the new names is sorting by where these stand. -/
theorem arrange_map {κ : Type} [LinearOrder κ] (f : σ' → κ) (g : ν → ν') (h : σ → σ')
    (v : JsonTree ν σ) : arrange (.byName f) (map g h v) =
      map g h (arrange (.byName fun k => f (h k)) v) := by
  induction v with
  | null => rfl
  | bool b => rfl
  | number x => rfl
  | string text => rfl
  | array items ih =>
    rw [map_array, arrange_array, arrange_array, map_array, List.map_map, List.map_map]
    exact congrArg _ (List.map_congr_left ih)
  | object fields ih =>
    have hsort : (Arrangement.byName f).apply (fields.map fun p => (h p.1, map g h p.2)) =
        ((Arrangement.byName fun k => f (h k)).apply fields).map fun p => (h p.1, map g h p.2) := by
      symm
      apply List.map_insertionSort
      intro p _ q _
      rfl
    rw [map_object, arrange_object, arrange_object, map_object, hsort, List.map_map, List.map_map]
    congr 1
    apply List.map_congr_left
    intro p hp
    have hmem := (Arrangement.byName fun k => f (h k)).mem_apply.1 hp
    show (h p.1, arrange (.byName f) (map g h p.2)) = (h p.1, map g h (arrange _ p.2))
    rw [ih p hmem]

/-! ## Section 3: The same document -/

section Same

variable [LinearOrder σ]

/-- Trees that differ only in the order of fields. -/
def Same (v w : JsonTree ν σ) : Prop := arrange (.byName id) v = arrange (.byName id) w

omit [LinearOrder σ] in
theorem names_andThen_byName {κ : Type} [LinearOrder κ] {f : σ → κ} (hf : Function.Injective f)
    (r : Arrangement σ) (ns : List σ) :
    (r.andThen (.byName f)).names ns = (Arrangement.byName f).names ns := by
  rw [Arrangement.names_andThen]
  apply Arrangement.names_unique hf
  · exact ((Arrangement.byName f).names_perm _).trans (r.names_perm ns)
  · exact Arrangement.names_byName_pairwise f _

omit [LinearOrder σ] in
/-- Sorting forgets what was arranged before. -/
theorem arrange_byName_arrange {κ : Type} [LinearOrder κ] {f : σ → κ} (hf : Function.Injective f)
    (r : Arrangement σ) {v : JsonTree ν σ} (h : v.Keyed) :
    arrange (.byName f) (arrange r v) = arrange (.byName f) v := by
  rw [arrange_arrange, arrange_eq_iff h]
  exact h.mono (fun _ _ => trivial) fun ns _ => names_andThen_byName hf r ns

theorem same_arrange (r : Arrangement σ) {v : JsonTree ν σ} (h : v.Keyed) :
    Same v (arrange r v) :=
  (arrange_byName_arrange Function.injective_id r h).symm

/-- Sorted by whatever, the same document gives the same tree. -/
theorem Same.arrange_eq {κ : Type} [LinearOrder κ] {f : σ → κ} (hf : Function.Injective f)
    {v w : JsonTree ν σ} (h : Same v w) (hv : v.Keyed) (hw : w.Keyed) :
    arrange (.byName f) v = arrange (.byName f) w := by
  rw [← arrange_byName_arrange hf (.byName id) hv, h, arrange_byName_arrange hf (.byName id) hw]

theorem same_of_arrange_eq {r s : Arrangement σ} {v w : JsonTree ν σ} (hv : v.Keyed)
    (hw : w.Keyed) (h : arrange r v = arrange s w) : Same v w := by
  have hsame := same_arrange r hv
  rw [h] at hsame
  exact hsame.trans (same_arrange s hw).symm

/-- Objects are the same if they have the same names and the same values under them. -/
theorem same_object_iff {fields fields' : List (σ × JsonTree ν σ)}
    (h : (fields.map Prod.fst).Nodup) (h' : (fields'.map Prod.fst).Nodup) :
    Same (.object fields) (.object fields') ↔
      (fields.map Prod.fst).Perm (fields'.map Prod.fst) ∧
      ∀ k v w, (k, v) ∈ fields → (k, w) ∈ fields' → Same v w := by
  -- the sorted fields with their values sorted, of either object
  let sort := Arrangement.byName (id : σ → σ)
  let sorted (l : List (σ × JsonTree ν σ)) :=
    (sort.apply l).map fun p => (p.1, arrange sort p.2)
  have hsame : Same (.object fields) (.object fields') ↔ sorted fields = sorted fields' := by
    unfold Same
    rw [arrange_object, arrange_object, object.injEq]
  have hnames : ∀ l, (sorted l).map Prod.fst = sort.names (l.map Prod.fst) := by
    intro l
    rw [← sort.map_fst_apply, List.map_map]
    rfl
  have hmem : ∀ {l k} {v : JsonTree ν σ}, (k, v) ∈ l → (k, arrange sort v) ∈ sorted l := by
    intro l k v hv
    exact List.mem_map.2 ⟨(k, v), sort.mem_apply.2 hv, rfl⟩
  rw [hsame]
  constructor
  · intro he
    have hperm := (sort.names_perm (fields.map Prod.fst)).symm
    rw [← hnames, he, hnames] at hperm
    refine ⟨hperm.trans (sort.names_perm _), ?_⟩
    intro k v w hv hw
    have hv' := hmem hv
    rw [he] at hv'
    have hnodup : ((sorted fields').map Prod.fst).Nodup := by
      rw [hnames]
      exact (sort.names_perm _).nodup_iff.2 h'
    have := List.inj_on_of_nodup_map hnodup hv' (hmem hw) rfl
    exact (Prod.mk.inj this).2
  · intro ⟨hperm, hvalues⟩
    apply Arrangement.fields_ext
    · rw [hnames, hnames]
      apply Arrangement.names_unique Function.injective_id
      · exact (sort.names_perm _).trans hperm
      · exact Arrangement.names_byName_pairwise id _
    · rw [hnames]
      exact (sort.names_perm _).nodup_iff.2 h
    · intro p hp
      obtain ⟨q, hq, hp⟩ := List.mem_map.1 hp
      have hq := sort.mem_apply.1 hq
      have hname : q.1 ∈ fields'.map Prod.fst := hperm.mem_iff.1 (List.mem_map_of_mem hq)
      obtain ⟨q', hq', hk⟩ := List.mem_map.1 hname
      have hvalue := hvalues q.1 q.2 q'.2 hq (by rw [← hk]; exact hq')
      have harranged : arrange sort q.2 = arrange sort q'.2 := hvalue
      rw [← hp, harranged, ← hk]
      exact hmem hq'

end Same

end JsonTree
