import Lares.Framework.JsonQuotes
import Lares.Approvals.Fingerprint

/-! # What the payload fingerprint binds

    * **The tree that is written** is the value with a text in the place of
      whatever was seen before. It is the value itself where nothing is shared.
    * **Texts**: the canonical text is a JSON text after the space behind the
      name of the tool, and no other space in it can be that one.
    * **Binding**: the fingerprint of a call is that of the same calls only, and
      of all of them, if and only if nothing in its input is shared and no half
      of a surrogate pair stands alone in the name of its tool.
-/

namespace Lares.Approvals

open Gateway JsonTree

/-! ## Section 1: Values -/

namespace Value

@[elab_as_elim]
theorem induct {P : Value → Prop} (undefined : P .undefined) (null : P .null)
    (bool : ∀ b, P (.bool b)) (number : ∀ x, P (.number x)) (string : ∀ text, P (.string text))
    (array : ∀ address items, (∀ v ∈ items, P v) → P (.array address items))
    (object : ∀ address fields, (∀ p ∈ fields, P p.2) → P (.object address fields))
    (v : Value) : P v := by
  refine @Value.rec P (fun items => ∀ v ∈ items, P v) (fun fields => ∀ p ∈ fields, P p.2)
    (fun p => P p.2) undefined null bool number string array object ?_ ?_ ?_ ?_ (fun _ _ h => h) v
  · exact List.forall_mem_nil _
  · exact fun v items hv hitems => List.forall_mem_cons.2 ⟨hv, hitems⟩
  · exact List.forall_mem_nil _
  · exact fun p fields hp hfields => List.forall_mem_cons.2 ⟨hp, hfields⟩

theorem jsonItems_eq (items : List Value) : jsonItems items = items.map json := by
  induction items with
  | nil => rfl
  | cons v items ih => rw [jsonItems, ih, List.map_cons]

theorem jsonFields_eq (fields : List (JsText × Value)) :
    jsonFields fields = fields.map fun p => (p.1, p.2.json) := by
  induction fields with
  | nil => rfl
  | cons p fields ih => rw [jsonFields, ih, List.map_cons]

theorem json_array (address : ℕ) (items : List Value) :
    (array address items).json = .array (items.map json) := by
  rw [json, jsonItems_eq]

theorem json_object (address : ℕ) (fields : List (JsText × Value)) :
    (object address fields).json = .object (fields.map fun p => (p.1, p.2.json)) := by
  rw [json, jsonFields_eq]

theorem addresses_array (address : ℕ) (items : List Value) :
    (array address items).addresses = address :: items.flatMap addresses := by
  have h : addressesOfItems items = items.flatMap addresses := by
    induction items with
    | nil => rfl
    | cons v items ih => rw [addressesOfItems, ih, List.flatMap_cons]
  rw [addresses, h]

theorem addresses_object (address : ℕ) (fields : List (JsText × Value)) :
    (object address fields).addresses = address :: fields.flatMap fun p => p.2.addresses := by
  have h : addressesOfFields fields = fields.flatMap fun p => p.2.addresses := by
    induction fields with
    | nil => rfl
    | cons p fields ih => rw [addressesOfFields, ih, List.flatMap_cons]
  rw [addresses, h]

end Value

theorem canonicalItems_eq (items : List Value) : canonicalItems items = items.map canonical := by
  induction items with
  | nil => rfl
  | cons v items ih => rw [canonicalItems, ih, List.map_cons]

theorem canonicalFields_eq (fields : List (JsText × Value)) :
    canonicalFields fields = fields.map fun p => (p.1, canonical p.2) := by
  induction fields with
  | nil => rfl
  | cons p fields ih => rw [canonicalFields, ih, List.map_cons]

/-! ## Section 2: The tree that is written -/

/-- A key and its value. -/
def field (p : JsText × Visit (JsonTree ℚ JsText)) : Visit (JsText × JsonTree ℚ JsText) :=
  fun seen => ((p.1, (p.2 seen).1), (p.2 seen).2)

mutual

/-- The tree that `canonical` writes, in the order in which it does. -/
def expand : Value → Visit (JsonTree ℚ JsText)
  | .undefined => fun seen => (.null, seen)
  | .null => fun seen => (.null, seen)
  | .bool b => fun seen => (.bool b, seen)
  | .number x => fun seen => (.number x, seen)
  | .string text => fun seen => (.string text, seen)
  | .array address items => fun seen =>
      if address ∈ seen then (.string (ascii cycle), seen)
      else
        let trees := visitAll (expandItems items) (address :: seen)
        (.array trees.1, trees.2)
  | .object address fields => fun seen =>
      if address ∈ seen then (.string (ascii cycle), seen)
      else
        let keys := sortedKeys.apply (expandFields fields)
        let trees := visitAll (keys.map field) (address :: seen)
        (.object trees.1, trees.2)

def expandItems : List Value → List (Visit (JsonTree ℚ JsText))
  | [] => []
  | v :: items => expand v :: expandItems items

def expandFields : List (JsText × Value) → List (JsText × Visit (JsonTree ℚ JsText))
  | [] => []
  | (k, v) :: fields => (k, expand v) :: expandFields fields

end

theorem expandItems_eq (items : List Value) : expandItems items = items.map expand := by
  induction items with
  | nil => rfl
  | cons v items ih => rw [expandItems, ih, List.map_cons]

theorem expandFields_eq (fields : List (JsText × Value)) :
    expandFields fields = fields.map fun p => (p.1, expand p.2) := by
  induction fields with
  | nil => rfl
  | cons p fields ih => rw [expandFields, ih, List.map_cons]

theorem expand_array (address : ℕ) (items : List Value) {seen : List ℕ} (h : address ∉ seen) :
    expand (.array address items) seen =
      (.array (visitAll (items.map expand) (address :: seen)).1,
        (visitAll (items.map expand) (address :: seen)).2) := by
  rw [← expandItems_eq]
  exact if_neg h

/-- The fields of an object in the order of `sort`. -/
def keys (fields : List (JsText × Value)) : List (JsText × Value) := sortedKeys.apply fields

/-- What is done with one of them. -/
def expandField (p : JsText × Value) : Visit (JsText × JsonTree ℚ JsText) :=
  field (p.1, expand p.2)

theorem expand_object (address : ℕ) (fields : List (JsText × Value)) {seen : List ℕ}
    (h : address ∉ seen) :
    expand (.object address fields) seen =
      (.object (visitAll ((keys fields).map expandField) (address :: seen)).1,
        (visitAll ((keys fields).map expandField) (address :: seen)).2) := by
  have hkeys : (sortedKeys.apply (expandFields fields)).map field =
      (keys fields).map expandField := by
    rw [expandFields_eq, sortedKeys.natural, List.map_map]
    rfl
  rw [← hkeys]
  exact if_neg h

theorem visitAll_map {α β γ : Type} {f : γ → Visit α} {g : γ → Visit β} {h : α → β} {l : List γ}
    (hfg : ∀ x ∈ l, ∀ seen, g x seen = (h (f x seen).1, (f x seen).2)) (seen : List ℕ) :
    visitAll (l.map g) seen =
      ((visitAll (l.map f) seen).1.map h, (visitAll (l.map f) seen).2) := by
  induction l generalizing seen with
  | nil => rfl
  | cons x l ih =>
    simp only [List.map_cons, visitAll]
    rw [hfg x List.mem_cons_self, ih fun y hy => hfg y (List.mem_cons_of_mem _ hy)]

/-- The text of a tree. -/
def text (t : JsonTree ℚ JsText) : JsText :=
  t.write unit (fun x => ascii (numberText x)) quoteJSONString

theorem text_array (items : List (JsonTree ℚ JsText)) :
    text (.array items) = unit '[' :: [unit ','].intercalate (items.map text) ++ [unit ']'] := by
  cases items with
  | nil => rfl
  | cons v items =>
    have hitems : ∀ v, text v ++ writeItems unit (fun x => ascii (numberText x)) quoteJSONString
        items = [unit ','].intercalate ((v :: items).map text) := by
      induction items with
      | nil => simp [writeItems]
      | cons w items ih =>
        intro v
        have hw := ih w
        rw [List.map_cons] at hw
        rw [List.map_cons, List.map_cons, List.intercalate_cons_cons, ← hw, List.append_assoc]
        rfl
    rw [← hitems]
    rfl

/-- A key and its value as text. -/
def writePart (p : JsText × JsonTree ℚ JsText) : JsText :=
  quoteJSONString p.1 ++ unit ':' :: text p.2

theorem text_object (fields : List (JsText × JsonTree ℚ JsText)) :
    text (.object fields) =
      unit '{' :: [unit ','].intercalate (fields.map writePart) ++ [unit '}'] := by
  cases fields with
  | nil => rfl
  | cons p fields =>
    have hfields : ∀ p, writePart p ++
        writeFields unit (fun x => ascii (numberText x)) quoteJSONString fields =
          [unit ','].intercalate ((p :: fields).map writePart) := by
      induction fields with
      | nil => simp [writeFields]
      | cons q fields ih =>
        intro p
        have hq := ih q
        rw [List.map_cons] at hq
        rw [List.map_cons, List.map_cons, List.intercalate_cons_cons, ← hq, List.append_assoc]
        simp [writeFields, writePart, text]
    rw [← hfields]
    rfl

/-- **`canonical` writes the tree.** -/
theorem canonical_eq (v : Value) (seen : List ℕ) :
    canonical v seen = (text (expand v seen).1, (expand v seen).2) := by
  have hcycle : ascii ('"' :: cycle ++ ['"']) = text (.string (ascii cycle)) := by decide
  induction v using Value.induct generalizing seen with
  | undefined => rfl
  | null => rfl
  | bool b => cases b <;> rfl
  | number x => rfl
  | string text => rfl
  | array address items ih =>
    by_cases hseen : address ∈ seen
    · have hexpand : expand (.array address items) seen = (.string (ascii cycle), seen) :=
        if_pos hseen
      rw [hexpand, ← hcycle]
      exact if_pos hseen
    · refine (if_neg hseen).trans ?_
      rw [expand_array _ _ hseen, canonicalItems_eq, visitAll_map ih, text_array]
  | object address fields ih =>
    by_cases hseen : address ∈ seen
    · have hexpand : expand (.object address fields) seen = (.string (ascii cycle), seen) :=
        if_pos hseen
      rw [hexpand, ← hcycle]
      exact if_pos hseen
    · have hparts : (sortedKeys.apply (canonicalFields fields)).map part =
          (keys fields).map fun p => part (p.1, canonical p.2) := by
        rw [canonicalFields_eq, sortedKeys.natural, List.map_map]
        rfl
      have hpart : ∀ p ∈ keys fields, ∀ seen, part (p.1, canonical p.2) seen =
          (writePart (expandField p seen).1, (expandField p seen).2) := by
        intro p hp seen
        unfold part
        dsimp only
        rw [ih p (sortedKeys.mem_apply.1 hp)]
        rfl
      refine (if_neg hseen).trans ?_
      rw [expand_object _ _ hseen, hparts, visitAll_map hpart, text_object]

/-! ## Section 3: What is seen -/

section Count

mutual

/-- How many arrays and objects a tree has. -/
def containers : JsonTree ℚ JsText → ℕ
  | .array items => containersOfItems items + 1
  | .object fields => containersOfFields fields + 1
  | _ => 0

def containersOfItems : List (JsonTree ℚ JsText) → ℕ
  | [] => 0
  | t :: items => containers t + containersOfItems items

def containersOfFields : List (JsText × JsonTree ℚ JsText) → ℕ
  | [] => 0
  | (_, t) :: fields => containers t + containersOfFields fields

end

theorem containers_array (items : List (JsonTree ℚ JsText)) :
    containers (.array items) = (items.map containers).sum + 1 := by
  have h : containersOfItems items = (items.map containers).sum := by
    induction items with
    | nil => rfl
    | cons t items ih => rw [containersOfItems, ih, List.map_cons, List.sum_cons]
  rw [containers, h]

theorem containers_object (fields : List (JsText × JsonTree ℚ JsText)) :
    containers (.object fields) = (fields.map fun p => containers p.2).sum + 1 := by
  have h : containersOfFields fields = (fields.map fun p => containers p.2).sum := by
    induction fields with
    | nil => rfl
    | cons p fields ih => rw [containersOfFields, ih, List.map_cons, List.sum_cons]
  rw [containers, h]

/-- Arranging leaves their number. -/
theorem containers_arrange (r : Arrangement JsText) (t : JsonTree ℚ JsText) :
    containers (t.arrange r) = containers t := by
  induction t with
  | null => rfl
  | bool b => rfl
  | number x => rfl
  | string text => rfl
  | array items ih =>
    have hitems : items.map (containers ∘ arrange r) = items.map containers :=
      List.map_congr_left ih
    rw [arrange_array, containers_array, containers_array, List.map_map, hitems]
  | object fields ih =>
    have hfields : (r.apply fields).map
        ((fun p => containers p.2) ∘ fun p => (p.1, arrange r p.2)) =
          (r.apply fields).map fun p => containers p.2 :=
      List.map_congr_left fun p hp => ih p (r.mem_apply.1 hp)
    rw [arrange_object, containers_object, containers_object, List.map_map, hfields,
      ((r.perm fields).map _).sum_eq]

/-- A visit that sees, besides what was seen, some of these addresses, and writes as many arrays
    and objects as it sees addresses. -/
structure Honest {α : Type} (addresses : List ℕ) (count : α → ℕ) (f : Visit α) : Prop where
  nodup : ∀ {seen}, seen.Nodup → (f seen).2.Nodup
  length : ∀ seen, (f seen).2.length = count (f seen).1 + seen.length
  mem : ∀ {seen} {a : ℕ}, a ∈ (f seen).2 → a ∈ addresses ∨ a ∈ seen

variable {α γ : Type} {f : γ → Visit α} {addresses : γ → List ℕ} {count : α → ℕ} {l : List γ}

theorem Honest.all (h : ∀ x ∈ l, Honest (addresses x) count (f x)) :
    Honest (l.flatMap addresses) (fun ts => (ts.map count).sum) (visitAll (l.map f)) := by
  induction l with
  | nil => exact ⟨id, fun _ => (Nat.zero_add _).symm, .inr⟩
  | cons x l ih =>
    have hx := h x List.mem_cons_self
    have hl := ih fun y hy => h y (List.mem_cons_of_mem _ hy)
    constructor
    · exact fun hseen => hl.nodup (hx.nodup hseen)
    · intro seen
      have hfirst := hx.length seen
      have hrest := hl.length (f x seen).2
      simp only [List.map_cons, visitAll, List.sum_cons]
      omega
    · intro seen a ha
      rw [List.flatMap_cons, List.mem_append]
      rcases hl.mem ha with hrest | hfirst
      · exact .inl (.inr hrest)
      · exact (hx.mem hfirst).imp_left .inl

theorem Honest.field {p : JsText × Value} (h : Honest p.2.addresses containers (expand p.2)) :
    Honest p.2.addresses (fun q => containers q.2) (expandField p) :=
  ⟨h.nodup, h.length, h.mem⟩

theorem honest_unchanged (t : JsonTree ℚ JsText) (ht : containers t = 0)
    {f : Visit (JsonTree ℚ JsText)} (hf : ∀ seen, f seen = (t, seen)) (as : List ℕ) :
    Honest as containers f := by
  constructor
  · intro seen hseen
    rw [hf]
    exact hseen
  · intro seen
    rw [hf, ht, Nat.zero_add]
  · intro seen a ha
    rw [hf] at ha
    exact .inr ha

/-- Seen at its address, and then what is in it. -/
theorem Honest.enter {β : Type} {f : Visit (List β)} {c : List β → ℕ} {as : List ℕ}
    (h : Honest as c f) {address : ℕ} {g : Visit (JsonTree ℚ JsText)}
    {make : List β → JsonTree ℚ JsText} (hcount : ∀ l, containers (make l) = c l + 1)
    (hseen : ∀ {seen}, address ∈ seen → g seen = (.string (ascii cycle), seen))
    (hnew : ∀ {seen}, address ∉ seen →
      g seen = (make (f (address :: seen)).1, (f (address :: seen)).2)) :
    Honest (address :: as) containers g := by
  constructor
  · intro seen hnodup
    by_cases hmem : address ∈ seen
    · rw [hseen hmem]
      exact hnodup
    · rw [hnew hmem]
      exact h.nodup (List.nodup_cons.2 ⟨hmem, hnodup⟩)
  · intro seen
    by_cases hmem : address ∈ seen
    · rw [hseen hmem]
      exact (Nat.zero_add _).symm
    · have hlength := h.length (address :: seen)
      rw [List.length_cons] at hlength
      rw [hnew hmem, hcount, hlength]
      omega
  · intro seen a ha
    by_cases hmem : address ∈ seen
    · rw [hseen hmem] at ha
      exact .inr ha
    · rw [hnew hmem] at ha
      rcases h.mem ha with hin | hbefore
      · exact .inl (List.mem_cons_of_mem _ hin)
      · rcases List.mem_cons.1 hbefore with he | hold
        · exact .inl (by rw [he]; exact List.mem_cons_self)
        · exact .inr hold

theorem honest_expand (v : Value) : Honest v.addresses containers (expand v) := by
  induction v using Value.induct with
  | undefined => exact honest_unchanged (JsonTree.null) rfl (fun _ => rfl) _
  | null => exact honest_unchanged (JsonTree.null) rfl (fun _ => rfl) _
  | bool b => exact honest_unchanged (JsonTree.bool b) rfl (fun _ => rfl) _
  | number x => exact honest_unchanged (JsonTree.number x) rfl (fun _ => rfl) _
  | string text => exact honest_unchanged (JsonTree.string text) rfl (fun _ => rfl) _
  | array address items ih =>
    rw [Value.addresses_array]
    exact (Honest.all ih).enter containers_array (fun h => if_pos h)
      (fun h => expand_array address items h)
  | object address fields ih =>
    have hkeys : Honest ((keys fields).flatMap fun p => p.2.addresses)
        (fun ts => (ts.map fun q => containers q.2).sum)
        (visitAll ((keys fields).map expandField)) :=
      Honest.all fun p hp => (ih p (sortedKeys.mem_apply.1 hp)).field
    have hsame : Honest (fields.flatMap fun p => p.2.addresses)
        (fun ts => (ts.map fun q => containers q.2).sum)
        (visitAll ((keys fields).map expandField)) := by
      refine ⟨hkeys.nodup, hkeys.length, fun ha => (hkeys.mem ha).imp_left ?_⟩
      exact (((sortedKeys.perm fields).flatMap_right _).mem_iff).1
    rw [Value.addresses_object]
    exact hsame.enter containers_object (fun h => if_pos h)
      (fun h => expand_object address fields h)

theorem containers_json (v : Value) : containers v.json = v.addresses.length := by
  induction v using Value.induct with
  | undefined => rfl
  | null => rfl
  | bool b => rfl
  | number x => rfl
  | string text => rfl
  | array address items ih =>
    have hitems : items.map (containers ∘ Value.json) =
        items.map fun v => v.addresses.length := List.map_congr_left ih
    rw [Value.json_array, containers_array, Value.addresses_array, List.length_cons,
      List.length_flatMap, List.map_map, hitems]
  | object address fields ih =>
    have hfields : fields.map ((fun p => containers p.2) ∘ fun p => (p.1, p.2.json)) =
        fields.map fun p => p.2.addresses.length := List.map_congr_left ih
    rw [Value.json_object, containers_object, Value.addresses_object, List.length_cons,
      List.length_flatMap, List.map_map, hfields]

/-- If as much is written as there is, nothing is shared. -/
theorem unshared_of_containers {v : Value}
    (h : containers (expand v []).1 = containers v.json) : v.Unshared := by
  have hv := honest_expand v
  have hnodup := hv.nodup List.nodup_nil
  have hlength := hv.length []
  have hsub : (expand v []).2 ⊆ v.addresses := fun a ha => (hv.mem ha).resolve_right (by simp)
  rw [h, containers_json, List.length_nil, Nat.add_zero] at hlength
  have hperm := (hnodup.subperm hsub).perm_of_length_le hlength.ge
  exact hperm.nodup_iff.1 hnodup

end Count

/-! ## Section 4: Shared and unshared values -/

section Visited

variable {α γ : Type} {f : γ → Visit α} {l : List γ} {seen : List ℕ}

theorem mem_visitAll {t : α} (h : t ∈ (visitAll (l.map f) seen).1) :
    ∃ x ∈ l, ∃ before, t = (f x before).1 := by
  induction l generalizing seen with
  | nil => cases h
  | cons x l ih =>
    rcases List.mem_cons.1 h with he | hmem
    · exact ⟨x, List.mem_cons_self, seen, he⟩
    · obtain ⟨y, hy, hbefore⟩ := ih hmem
      exact ⟨y, List.mem_cons_of_mem _ hy, hbefore⟩

theorem visitAll_names {l : List (JsText × Value)} (seen : List ℕ) :
    (visitAll (l.map expandField) seen).1.map Prod.fst = l.map Prod.fst := by
  induction l generalizing seen with
  | nil => rfl
  | cons p l ih =>
    simp only [List.map_cons, visitAll]
    rw [ih]
    rfl

/-- Where no address stands twice, each item is what it is alone. -/
theorem visitAll_unshared (addresses : γ → List ℕ) {count : α → ℕ} (g : γ → α)
    (seen : List ℕ) (hhonest : ∀ x ∈ l, Honest (addresses x) count (f x))
    (hf : ∀ x ∈ l, ∀ seen, (addresses x).Nodup → (∀ a ∈ addresses x, a ∉ seen) →
      (f x seen).1 = g x)
    (hnodup : (l.flatMap addresses).Nodup) (hnew : ∀ a ∈ l.flatMap addresses, a ∉ seen) :
    (visitAll (l.map f) seen).1 = l.map g := by
  induction l generalizing seen with
  | nil => rfl
  | cons x l ih =>
    rw [List.flatMap_cons] at hnodup hnew
    rw [List.nodup_append] at hnodup
    obtain ⟨hx, hl, hapart⟩ := hnodup
    have hfirst := hf x List.mem_cons_self seen hx fun a ha => hnew a (List.mem_append_left _ ha)
    simp only [List.map_cons, visitAll]
    rw [hfirst, ih _ (fun y hy => hhonest y (List.mem_cons_of_mem _ hy))
      (fun y hy => hf y (List.mem_cons_of_mem _ hy)) hl]
    intro a ha hbefore
    rcases (hhonest x List.mem_cons_self).mem hbefore with hin | hseen
    · exact hapart a hin a ha rfl
    · exact hnew a (List.mem_append_right _ ha) hseen

end Visited

/-- **An unshared value** is written as it is, its fields sorted. -/
theorem expand_unshared (v : Value) {seen : List ℕ} (hnodup : v.Unshared)
    (hnew : ∀ a ∈ v.addresses, a ∉ seen) : (expand v seen).1 = v.json.arrange sortedKeys := by
  unfold Value.Unshared at hnodup
  induction v using Value.induct generalizing seen with
  | undefined => rfl
  | null => rfl
  | bool b => rfl
  | number x => rfl
  | string text => rfl
  | array address items ih =>
    rw [Value.addresses_array] at hnodup hnew
    obtain ⟨haddress, hitems⟩ := List.nodup_cons.1 hnodup
    have hall := visitAll_unshared Value.addresses (fun v => v.json.arrange sortedKeys)
      (address :: seen) (fun v _ => honest_expand v) (fun v hv seen => ih v hv) hitems (by
        intro a ha hmem
        rcases List.mem_cons.1 hmem with he | hold
        · exact haddress (he ▸ ha)
        · exact hnew a (List.mem_cons_of_mem _ ha) hold)
    rw [expand_array _ _ (hnew address List.mem_cons_self), hall, Value.json_array, arrange_array,
      List.map_map]
    rfl
  | object address fields ih =>
    rw [Value.addresses_object] at hnodup hnew
    obtain ⟨haddress, hfields⟩ := List.nodup_cons.1 hnodup
    have hperm := (sortedKeys.perm fields).flatMap_right fun p => p.2.addresses
    have hall := visitAll_unshared (l := keys fields) (fun p => p.2.addresses)
      (fun p => (p.1, p.2.json.arrange sortedKeys)) (address :: seen)
      (fun p _ => (honest_expand p.2).field) (by
        intro p hp seen hp' hnew'
        exact congrArg (Prod.mk p.1) (ih p (sortedKeys.mem_apply.1 hp) hp' hnew'))
      (hperm.nodup_iff.2 hfields) (by
        intro a ha hmem
        have ha := hperm.mem_iff.1 ha
        rcases List.mem_cons.1 hmem with he | hold
        · exact haddress (he ▸ ha)
        · exact hnew a (List.mem_cons_of_mem _ ha) hold)
    rw [expand_object _ _ (hnew address List.mem_cons_self), hall, Value.json_object,
      arrange_object, sortedKeys.natural, List.map_map]
    rfl

theorem sortedKeys_names (ns : List JsText) :
    sortedKeys.names (sortedKeys.names ns) = sortedKeys.names ns := by
  have hnames : ∀ ns, sortedKeys.names ns = (Arrangement.byName id).names ns :=
    names_andThen_byName Function.injective_id ownProperties
  rw [hnames, hnames]
  exact (Arrangement.names_unique Function.injective_id (.refl _)
    (Arrangement.names_byName_pairwise id ns)).symm

/-- No arrangement at all. -/
def asIs : Arrangement JsText where
  apply fields := fields
  perm fields := .refl fields
  natural _ _ := rfl

theorem asIs_names (ns : List JsText) : asIs.names ns = ns :=
  (List.map_map).trans (List.map_id ns)

/-- What is written is JSON with its fields sorted. -/
theorem expand_spec (v : Value) (seen : List ℕ) (h : IsJson v.json) :
    IsJson (expand v seen).1 ∧ (expand v seen).1.arrange sortedKeys = (expand v seen).1 := by
  induction v using Value.induct generalizing seen with
  | undefined => exact ⟨trivial, rfl⟩
  | null => exact ⟨trivial, rfl⟩
  | bool b => exact ⟨trivial, rfl⟩
  | number x => exact ⟨h, rfl⟩
  | string text => exact ⟨trivial, rfl⟩
  | array address items ih =>
    by_cases hseen : address ∈ seen
    · have hexpand : expand (.array address items) seen = (.string (ascii cycle), seen) :=
        if_pos hseen
      rw [hexpand]
      exact ⟨trivial, rfl⟩
    rw [Value.json_array, IsJson, everywhere_array] at h
    have hitems : ∀ t ∈ (visitAll (items.map expand) (address :: seen)).1,
        IsJson t ∧ t.arrange sortedKeys = t := by
      intro t ht
      obtain ⟨v, hv, before, rfl⟩ := mem_visitAll ht
      exact ih v hv before (h _ (List.mem_map_of_mem hv))
    rw [expand_array _ _ hseen]
    constructor
    · exact everywhere_array.2 fun t ht => (hitems t ht).1
    · dsimp only
      rw [arrange_array, List.map_congr_left fun t ht => (hitems t ht).2, List.map_id']
  | object address fields ih =>
    by_cases hseen : address ∈ seen
    · have hexpand : expand (.object address fields) seen = (.string (ascii cycle), seen) :=
        if_pos hseen
      rw [hexpand]
      exact ⟨trivial, rfl⟩
    rw [Value.json_object, IsJson, everywhere_object] at h
    obtain ⟨hnames, hvalues⟩ := h
    have hfields : ∀ q ∈ (visitAll ((keys fields).map expandField) (address :: seen)).1,
        IsJson q.2 ∧ q.2.arrange sortedKeys = q.2 := by
      intro q hq
      obtain ⟨p, hp, before, rfl⟩ := mem_visitAll hq
      have hp := sortedKeys.mem_apply.1 hp
      exact ih p hp before (hvalues _ (List.mem_map_of_mem hp))
    have hsorted : (visitAll ((keys fields).map expandField) (address :: seen)).1.map Prod.fst =
        sortedKeys.names (fields.map Prod.fst) := by
      rw [visitAll_names, keys, sortedKeys.map_fst_apply]
    rw [List.map_map] at hnames
    rw [expand_object _ _ hseen]
    have hnodup : (sortedKeys.names (fields.map Prod.fst)).Nodup :=
      (sortedKeys.names_perm _).nodup_iff.2 hnames
    constructor
    · apply everywhere_object.2
      rw [hsorted]
      exact ⟨hnodup, fun q hq => (hfields q hq).1⟩
    · dsimp only
      generalize (visitAll ((keys fields).map expandField) (address :: seen)).1 = sorted
        at hfields hsorted
      have hsame : sortedKeys.apply sorted = asIs.apply sorted := by
        apply Arrangement.apply_eq_of_names
        · rw [hsorted]
          exact hnodup
        · rw [hsorted, sortedKeys_names, asIs_names]
      rw [arrange_object, hsame, object.injEq]
      calc
        sorted.map (fun q => (q.1, q.2.arrange sortedKeys)) = sorted.map id :=
          List.map_congr_left fun q hq => Prod.ext rfl (hfields q hq).2
        _ = sorted := List.map_id _

mutual

/-- The value with this JSON, its addresses counted from `n` on. -/
def copy : JsonTree ℚ JsText → ℕ → Value
  | .null => fun _ => .null
  | .bool b => fun _ => .bool b
  | .number x => fun _ => .number x
  | .string text => fun _ => .string text
  | .array items => fun n => .array n (copyItems items (n + 1))
  | .object fields => fun n => .object n (copyFields fields (n + 1))

def copyItems : List (JsonTree ℚ JsText) → ℕ → List Value
  | [] => fun _ => []
  | t :: items => fun n => copy t n :: copyItems items (n + containers t)

def copyFields : List (JsText × JsonTree ℚ JsText) → ℕ → List (JsText × Value)
  | [] => fun _ => []
  | (k, t) :: fields => fun n => (k, copy t n) :: copyFields fields (n + containers t)

end

theorem json_copy (t : JsonTree ℚ JsText) (n : ℕ) : (copy t n).json = t := by
  induction t generalizing n with
  | null => rfl
  | bool b => rfl
  | number x => rfl
  | string text => rfl
  | array items ih =>
    have hitems : ∀ n, Value.jsonItems (copyItems items n) = items := by
      induction items with
      | nil => exact fun _ => rfl
      | cons t items ihItems =>
        intro n
        rw [copyItems, Value.jsonItems, ih t List.mem_cons_self,
          ihItems fun u hu => ih u (List.mem_cons_of_mem _ hu)]
    rw [copy, Value.json, hitems]
  | object fields ih =>
    have hfields : ∀ n, Value.jsonFields (copyFields fields n) = fields := by
      induction fields with
      | nil => exact fun _ => rfl
      | cons p fields ihFields =>
        intro n
        rw [copyFields, Value.jsonFields, ih p List.mem_cons_self,
          ihFields fun q hq => ih q (List.mem_cons_of_mem _ hq)]
    rw [copy, Value.json, hfields]

theorem addresses_copy (t : JsonTree ℚ JsText) (n : ℕ) :
    (copy t n).addresses = List.range' n (containers t) := by
  induction t generalizing n with
  | null => rfl
  | bool b => rfl
  | number x => rfl
  | string text => rfl
  | array items ih =>
    have hitems : ∀ n, Value.addressesOfItems (copyItems items n) =
        List.range' n (containersOfItems items) := by
      induction items with
      | nil => exact fun _ => rfl
      | cons t items ihItems =>
        intro n
        rw [copyItems, Value.addressesOfItems, ih t List.mem_cons_self,
          ihItems (fun u hu => ih u (List.mem_cons_of_mem _ hu)), containersOfItems,
          List.range'_append_1]
    rw [copy, Value.addresses, hitems, containers, List.range'_succ]
  | object fields ih =>
    have hfields : ∀ n, Value.addressesOfFields (copyFields fields n) =
        List.range' n (containersOfFields fields) := by
      induction fields with
      | nil => exact fun _ => rfl
      | cons p fields ihFields =>
        intro n
        rw [copyFields, Value.addressesOfFields, ih p List.mem_cons_self,
          ihFields (fun q hq => ih q (List.mem_cons_of_mem _ hq)), containersOfFields,
          List.range'_append_1]
    rw [copy, Value.addresses, hfields, containers, List.range'_succ]

theorem unshared_copy (t : JsonTree ℚ JsText) : (copy t 0).Unshared := by
  unfold Value.Unshared
  rw [addresses_copy]
  exact List.nodup_range'

/-! ## Section 5: Texts without half a pair -/

theorem not_isSurrogate_replace (c : CodePoint) : isSurrogate (replaceSurrogate c) = false := by
  unfold replaceSurrogate
  by_cases h : isSurrogate c = true
  · rw [if_pos h]
    decide
  · rw [if_neg h]
    simpa using h

/-- A code unit that starts no pair is a code point. -/
theorem codePoints_cons {u : CodeUnit} {rest : JsText}
    (h : isHigh u = true → ∀ v ∈ rest.head?, isLow v = false) :
    codePoints (u :: rest) = Fin.ofNat 1114112 u.val :: codePoints rest := by
  cases rest with
  | nil => rfl
  | cons v rest =>
    rw [codePoints, if_neg]
    rintro ⟨hu, hv⟩
    rw [h hu v rfl] at hv
    cases hv

/-- A code point is read back from its code units, whatever follows. -/
theorem codePoints_codeUnits {c : CodePoint} (h : isSurrogate c = false) (rest : JsText) :
    codePoints (codeUnits c ++ rest) = c :: codePoints rest := by
  have hlt : c.val < 1114112 := c.isLt
  unfold codeUnits
  by_cases hsmall : c.val < 65536
  · -- one code unit that starts no pair
    have hval : (Fin.ofNat 65536 c.val).val = c.val := Nat.mod_eq_of_lt hsmall
    have hself : Fin.ofNat 1114112 (Fin.ofNat 65536 c.val).val = c := by
      rw [hval]
      exact Fin.ext (Nat.mod_eq_of_lt hlt)
    have hhigh : isHigh (Fin.ofNat 65536 c.val) = false := by
      simp only [isSurrogate, Bool.and_eq_false_iff, decide_eq_false_iff_not] at h
      simp only [isHigh, hval, Bool.and_eq_false_iff, decide_eq_false_iff_not]
      omega
    rw [if_pos hsmall, List.singleton_append, codePoints_cons, hself]
    intro he
    rw [hhigh] at he
    cases he
  · have hhigh : (Fin.ofNat 65536 (55296 + (c.val - 65536) / 1024)).val =
        55296 + (c.val - 65536) / 1024 := Nat.mod_eq_of_lt (by omega)
    have hlow : (Fin.ofNat 65536 (56320 + (c.val - 65536) % 1024)).val =
        56320 + (c.val - 65536) % 1024 := Nat.mod_eq_of_lt (by omega)
    have hpair : isHigh (Fin.ofNat 65536 (55296 + (c.val - 65536) / 1024)) = true ∧
        isLow (Fin.ofNat 65536 (56320 + (c.val - 65536) % 1024)) = true := by
      simp only [isHigh, isLow, hhigh, hlow, Bool.and_eq_true, decide_eq_true_eq]
      omega
    have hself : Fin.ofNat 1114112 (65536 + (55296 + (c.val - 65536) / 1024 - 55296) * 1024 +
        (56320 + (c.val - 65536) % 1024 - 56320)) = c := by
      apply Fin.ext
      show _ % 1114112 = _
      omega
    rw [if_neg hsmall, List.cons_append, List.singleton_append, codePoints, if_pos hpair, hhigh,
      hlow, hself]

theorem codePoints_flatMap {cs : List CodePoint} (h : ∀ c ∈ cs, isSurrogate c = false)
    (rest : JsText) : codePoints (cs.flatMap codeUnits ++ rest) = cs ++ codePoints rest := by
  induction cs with
  | nil => rfl
  | cons c cs ih =>
    rw [List.flatMap_cons, List.append_assoc, codePoints_codeUnits (h c List.mem_cons_self),
      ih fun d hd => h d (List.mem_cons_of_mem _ hd)]
    rfl

/-- No pair reaches over a code unit that is no second half. -/
theorem codePoints_append_cons (text : JsText) {u : CodeUnit} (hu : isLow u = false)
    (rest : JsText) :
    codePoints (text ++ u :: rest) = codePoints text ++ codePoints (u :: rest) := by
  induction text using codePoints.induct with
  | case1 => rfl
  | case2 v =>
    rw [List.singleton_append, codePoints_cons (fun _ => by simpa using hu)]
    rfl
  | case3 v v' text hpair ih =>
    rw [List.cons_append, List.cons_append, codePoints, if_pos hpair, ih, codePoints,
      if_pos hpair]
    rfl
  | case4 v v' text hpair ih =>
    rw [List.cons_append, List.cons_append, codePoints, if_neg hpair, ← List.cons_append, ih,
      codePoints, if_neg hpair]
    rfl

/-- `toWellFormed`: every half of a pair that stands alone is U+FFFD. -/
def toWellFormed (text : JsText) : JsText :=
  ((codePoints text).map replaceSurrogate).flatMap codeUnits

theorem replaced_not_surrogate (text : JsText) :
    ∀ c ∈ (codePoints text).map replaceSurrogate, isSurrogate c = false :=
  List.forall_mem_map.2 fun c _ => not_isSurrogate_replace c

theorem codePoints_toWellFormed (text : JsText) :
    codePoints (toWellFormed text) = (codePoints text).map replaceSurrogate := by
  have h := codePoints_flatMap (replaced_not_surrogate text) []
  rw [List.append_nil] at h
  exact h.trans (List.append_nil _)

theorem isWellFormed_iff {text : JsText} :
    isWellFormed text = true ↔ ∀ c ∈ codePoints text, isSurrogate c = false := by
  unfold isWellFormed
  simp

theorem toWellFormed_eq_iff {text : JsText} :
    toWellFormed text = text ↔ isWellFormed text = true := by
  rw [isWellFormed_iff]
  constructor
  · intro h
    rw [← h, codePoints_toWellFormed]
    exact replaced_not_surrogate text
  · intro h
    have hmap : (codePoints text).map replaceSurrogate = codePoints text := by
      conv_rhs => rw [← List.map_id (codePoints text)]
      apply List.map_congr_left
      intro c hc
      unfold replaceSurrogate
      rw [if_neg (by simp [h c hc])]
      rfl
    unfold toWellFormed
    rw [hmap, codeUnits_codePoints]

theorem isWellFormed_toWellFormed (text : JsText) : isWellFormed (toWellFormed text) = true := by
  rw [isWellFormed_iff, codePoints_toWellFormed]
  exact replaced_not_surrogate text

theorem toWellFormed_idem (text : JsText) : toWellFormed (toWellFormed text) = toWellFormed text :=
  toWellFormed_eq_iff.2 (isWellFormed_toWellFormed text)

theorem isWellFormed_append {a b : JsText} (ha : isWellFormed a = true)
    (hb : isWellFormed b = true) : isWellFormed (a ++ b) = true := by
  rw [isWellFormed_iff] at ha hb ⊢
  have happend := codePoints_flatMap ha b
  rw [codeUnits_codePoints] at happend
  rw [happend]
  exact List.forall_mem_append.2 ⟨ha, hb⟩

theorem isWellFormed_of_forall {text : JsText}
    (h : ∀ u ∈ text, isHigh u = false ∧ isLow u = false) : isWellFormed text = true := by
  induction text with
  | nil => rfl
  | cons u text ih =>
    have hu := h u List.mem_cons_self
    rw [← List.singleton_append]
    apply isWellFormed_append
    · rw [isWellFormed_iff, codePoints, List.forall_mem_singleton]
      simp only [isHigh, isLow, Bool.and_eq_false_iff, decide_eq_false_iff_not] at hu
      simp only [isSurrogate, val_ofNat_unit, Bool.and_eq_false_iff, decide_eq_false_iff_not]
      omega
    · exact ih fun v hv => h v (List.mem_cons_of_mem _ hv)

/-- The space ends whatever text is before it. -/
theorem toWellFormed_append_cons (text : JsText) {u : CodeUnit} (hu : isLow u = false)
    {rest : JsText} (hrest : isWellFormed (u :: rest) = true) :
    toWellFormed (text ++ u :: rest) = toWellFormed text ++ u :: rest := by
  have hself := toWellFormed_eq_iff.2 hrest
  unfold toWellFormed at hself ⊢
  rw [codePoints_append_cons text hu, List.map_append, List.flatMap_append, hself]

theorem utf8_eq_iff {s t : JsText} : utf8 s = utf8 t ↔ toWellFormed s = toWellFormed t := by
  -- a code point that is no surrogate is known from its character
  have hback : ∀ c : CodePoint,
      Fin.ofNat 1114112 (Char.ofNat (replaceSurrogate c).val).toNat = replaceSurrogate c := by
    intro c
    have hc := not_isSurrogate_replace c
    have hlt := (replaceSurrogate c).isLt
    simp only [isSurrogate, Bool.and_eq_false_iff, decide_eq_false_iff_not] at hc
    have hvalid : (replaceSurrogate c).val.isValidChar := by
      unfold Nat.isValidChar
      omega
    rw [Char.toNat_ofNat, if_pos hvalid]
    exact Fin.ext (Nat.mod_eq_of_lt hlt)
  have hmap : ∀ text : JsText, ((codePoints text).map fun c =>
      Char.ofNat (replaceSurrogate c).val).map (fun c => Fin.ofNat 1114112 c.toNat) =
        (codePoints text).map replaceSurrogate := by
    intro text
    rw [List.map_map]
    exact List.map_congr_left fun c _ => hback c
  constructor
  · intro h
    have hchars := String.ofList_injective (String.toByteArray_inj.1 h)
    unfold toWellFormed
    rw [← hmap s, hchars, hmap t]
  · intro h
    have hpoints := congrArg codePoints h
    rw [codePoints_toWellFormed, codePoints_toWellFormed] at hpoints
    have hchars : (codePoints s).map (fun c => Char.ofNat (replaceSurrogate c).val) =
        (codePoints t).map fun c => Char.ofNat (replaceSurrogate c).val := by
      have := congrArg (List.map fun c : CodePoint => Char.ofNat c.val) hpoints
      rw [List.map_map, List.map_map] at this
      exact this
    unfold utf8
    rw [hchars]

/-! ## Section 6: The canonical text -/

theorem printable_not_surrogate {c : Char} (h : Printable c) :
    isHigh (unit c) = false ∧ isLow (unit c) = false := by
  have hval : (unit c).val = c.toNat := Nat.mod_eq_of_lt (by have := h.2; omega)
  have hle := h.2
  simp only [isHigh, isLow, hval, Bool.and_eq_false_iff, decide_eq_false_iff_not]
  omega

theorem isWellFormed_ascii {l : List Char} (h : ∀ c ∈ l, Printable c) :
    isWellFormed (ascii l) = true :=
  isWellFormed_of_forall (List.forall_mem_map.2 fun c hc => printable_not_surrogate (h c hc))

theorem printable_number (x : ℚ) : ∀ c ∈ numberText x, Printable c := by
  intro c hc
  have h := isNumberChar_numberText x c hc
  simp only [isNumberChar, Bool.or_eq_true, decide_eq_true_eq, Char.isDigit_iff_toNat] at h
  have hzero : '0'.toNat = 48 := rfl
  have hnine : '9'.toNat = 57 := rfl
  rcases h with ((((h | h) | h) | h) | h) | h
  · exact ⟨by omega, by omega⟩
  all_goals subst h; decide

theorem isWellFormed_quoteUnit (u : CodeUnit) : isWellFormed (quoteUnit u) = true := by
  have hback : isWellFormed (ascii ['\\']) = true := isWellFormed_ascii (by simp [Printable])
  unfold quoteUnit
  split_ifs with h₁ h₂ h₃ h₄ h₅ hquote hescape
  iterate 5 exact isWellFormed_ascii (by simp [Printable])
  · have hu : isWellFormed [u] = true := by
      apply isWellFormed_of_forall
      simp only [List.mem_singleton, forall_eq, isHigh, isLow, Bool.and_eq_false_iff,
        decide_eq_false_iff_not]
      omega
    exact isWellFormed_append hback hu
  · exact isWellFormed_ascii (printable_unicode u)
  · apply isWellFormed_of_forall
    rw [not_or, not_or] at hescape
    simpa using hescape.2

/-- `QuoteJSONString` escapes what stands alone. -/
theorem isWellFormed_quoteUnits (text : JsText) : isWellFormed (quoteUnits text) = true := by
  induction text using quoteUnits.induct with
  | case1 => rfl
  | case2 u => exact isWellFormed_quoteUnit u
  | case3 u u' rest hpair ih =>
    have hbounds := hpair
    simp only [isHigh, isLow, Bool.and_eq_true, decide_eq_true_eq] at hbounds
    rw [quoteUnits, if_pos hpair, isWellFormed_iff, codePoints, if_pos hpair]
    rw [isWellFormed_iff] at ih
    refine List.forall_mem_cons.2 ⟨?_, ih⟩
    -- a pair is above all surrogates
    have hval : (Fin.ofNat 1114112 (65536 + (u.val - 55296) * 1024 + (u'.val - 56320))).val =
        65536 + (u.val - 55296) * 1024 + (u'.val - 56320) := Nat.mod_eq_of_lt (by omega)
    simp only [isSurrogate, hval, Bool.and_eq_false_iff, decide_eq_false_iff_not]
    omega
  | case4 u u' rest hpair ih =>
    rw [quoteUnits, if_neg hpair]
    exact isWellFormed_append (isWellFormed_quoteUnit u) ih

theorem isWellFormed_text (t : JsonTree ℚ JsText) : isWellFormed (text t) = true := by
  have hquote : isWellFormed (ascii ['"']) = true := isWellFormed_ascii (by simp [Printable])
  unfold text
  apply write_closed (P := fun l => isWellFormed l = true)
  · rfl
  · exact isWellFormed_append
  · exact fun c hc => isWellFormed_ascii (l := [c])
      (List.forall_mem_singleton.2 (printable_syntaxChars c hc))
  · exact fun x => isWellFormed_ascii (printable_number x)
  · intro s
    exact isWellFormed_append (isWellFormed_append hquote (isWellFormed_quoteUnits s)) hquote

/-- What a tree is in ASCII. -/
def asciiText (t : JsonTree ℚ JsText) : List Char := t.write id numberText asciiQuote

theorem text_replaced (t : JsonTree ℚ JsText) : (text t).flatMap replaced = asciiText t := by
  have hlit : ∀ c ∈ syntaxChars, replaced (unit c) = [id c] :=
    fun c hc => replaced_unit (printable_syntaxChars c hc)
  have hnum : ∀ x : ℚ, (ascii (numberText x)).flatMap replaced = numberText (id x) :=
    fun x => flatMap_replaced (printable_number x)
  have hstr : ∀ s, (quoteJSONString s).flatMap replaced = asciiQuote (id s) :=
    quoteJSONString_replaced
  have h := flatMap_write hlit hnum hstr t
  rw [map_id] at h
  exact h

def numberValue : Number → ℚ
  | .finite x => x
  | .infinite _ => 0

/-- A tree is known from its text. -/
theorem asciiText_injective {t t' : JsonTree ℚ JsText} (ht : IsJson t) (ht' : IsJson t')
    (h : asciiText t = asciiText t') : t = t' := by
  have hread : ∀ {t : JsonTree ℚ JsText}, IsJson t →
      parse parseNumber (asciiText t) = some (map Number.finite id t) :=
    fun ht => parse_write (ht.mono (fun _ hx => readable_numberText hx) fun _ hn => hn)
  have hmap := hread ht
  rw [h, hread ht', Option.some.injEq] at hmap
  exact map_injective numberValue (fun _ => rfl) hmap.symm

/-! ## Section 7: Binding -/

variable {δ : Type} {sha256 : ByteArray → δ}

/-- **What the fingerprint tells apart**: names up to lone halves of pairs, and what is written. -/
theorem payloadFingerprint_eq_iff (hdigest : Function.Injective sha256) (t t' : JsText)
    (v v' : Input) :
    payloadFingerprint sha256 t v = payloadFingerprint sha256 t' v' ↔
      toWellFormed t = toWellFormed t' ∧
        (expand v.value []).1 = (expand v'.value []).1 := by
  have hspace : isLow (unit ' ') = false := by decide
  have hbytes : ∀ (t : JsText) (v : Input),
      toWellFormed (t ++ unit ' ' :: (canonical v.value []).1) =
        toWellFormed t ++ unit ' ' :: text (expand v.value []).1 := by
    intro t v
    have hrest : isWellFormed (unit ' ' :: text (expand v.value []).1) = true :=
      isWellFormed_append (a := ascii [' ']) (isWellFormed_ascii (by simp [Printable]))
        (isWellFormed_text _)
    rw [canonical_eq, toWellFormed_append_cons t hspace hrest]
  unfold payloadFingerprint
  rw [hdigest.eq_iff, utf8_eq_iff, hbytes, hbytes]
  constructor
  · intro h
    -- in ASCII the space before the tree can be no other one
    have hascii := congrArg (List.flatMap replaced) h
    rw [List.flatMap_append, List.flatMap_append, List.flatMap_cons, List.flatMap_cons,
      text_replaced, text_replaced, replaced_unit (by decide)] at hascii
    obtain ⟨-, htrees⟩ := separator isNumberChar_numberText hascii
    have htree := asciiText_injective (expand_spec v.value [] v.valid).1
      (expand_spec v'.value [] v'.valid).1 htrees
    rw [htree] at h
    exact ⟨List.append_cancel_right h, htree⟩
  · intro ⟨hname, htree⟩
    rw [hname, htree]

/-- The fingerprint of the call is that of another one, well formed and unshared, if and only if
    the calls are the same. -/
def Binds (sha256 : ByteArray → δ) (toolName : JsText) (input : Input) : Prop :=
  ∀ (toolName' : JsText) (input' : Input),
    isWellFormed toolName' = true → input'.value.Unshared →
      (payloadFingerprint sha256 toolName input = payloadFingerprint sha256 toolName' input' ↔
        toolName = toolName' ∧ input.SameJson input')

theorem Input.keyed (v : Input) : v.value.json.Keyed :=
  v.valid.mono (fun _ _ => trivial) fun _ h => h

theorem expand_eq {v : Value} (h : v.Unshared) : (expand v []).1 = v.json.arrange sortedKeys :=
  expand_unshared v h fun _ _ => by simp

theorem Input.sameJson_iff (v w : Input) :
    v.SameJson w ↔ v.value.json.arrange sortedKeys = w.value.json.arrange sortedKeys := by
  have hsort : ∀ v : Input,
      v.value.json.arrange sortedKeys = v.value.json.arrange (.byName id) := by
    intro v
    rw [arrange_eq_iff v.keyed]
    exact v.keyed.mono (fun _ _ => trivial) fun ns _ =>
      names_andThen_byName Function.injective_id ownProperties ns
  unfold Input.SameJson Same
  rw [hsort, hsort]

/-- **The fingerprint binds a call** if and only if its name is well formed and nothing in its
    input is shared. -/
theorem payloadFingerprint_binds_iff (hdigest : Function.Injective sha256) (t : JsText)
    (v : Input) :
    Binds sha256 t v ↔ isWellFormed t = true ∧ v.value.Unshared := by
  constructor
  · intro h
    -- the call that is written the same way, with nothing shared
    have hspec := expand_spec v.value [] v.valid
    let w : Input := ⟨copy (expand v.value []).1 0, by rw [json_copy]; exact hspec.1⟩
    have hjson : w.value.json = (expand v.value []).1 := json_copy _ 0
    have hw : w.value.Unshared := unshared_copy _
    have hsame := h (toWellFormed t) w (isWellFormed_toWellFormed t) hw
    rw [payloadFingerprint_eq_iff hdigest, toWellFormed_idem, expand_eq hw, hjson,
      hspec.2] at hsame
    obtain ⟨hname, hvalue⟩ := hsame.1 ⟨rfl, rfl⟩
    refine ⟨toWellFormed_eq_iff.1 hname.symm, unshared_of_containers ?_⟩
    rw [Input.sameJson_iff, hjson, hspec.2] at hvalue
    rw [← hvalue, containers_arrange]
  · intro ⟨hname, hv⟩ t' v' hname' hv'
    rw [payloadFingerprint_eq_iff hdigest, toWellFormed_eq_iff.2 hname,
      toWellFormed_eq_iff.2 hname', expand_eq hv, expand_eq hv', Input.sameJson_iff]

/-- The same empty object twice. -/
def sharedPair : Input where
  value := .array 0 [.object 1 [], .object 1 []]
  valid := ⟨⟨List.nodup_nil, trivial⟩, ⟨List.nodup_nil, trivial⟩, trivial⟩

/-- Two empty objects. -/
def distinctPair : Input where
  value := .array 0 [.object 1 [], .object 2 []]
  valid := ⟨⟨List.nodup_nil, trivial⟩, ⟨List.nodup_nil, trivial⟩, trivial⟩

theorem payloadFingerprint_binds_distinctPair :
    Binds (id : ByteArray → ByteArray) (ascii ['s', 'e', 'n', 'd']) distinctPair :=
  (payloadFingerprint_binds_iff Function.injective_id _ _).2
    ⟨by decide, show [0, 1, 2].Nodup by decide⟩

/-- The same JSON has another fingerprint when its parts are one object. -/
theorem sharedPair_differs :
    ¬ (payloadFingerprint (id : ByteArray → ByteArray) (ascii ['s', 'e', 'n', 'd']) sharedPair =
        payloadFingerprint id (ascii ['s', 'e', 'n', 'd']) distinctPair ↔
      ascii ['s', 'e', 'n', 'd'] = ascii ['s', 'e', 'n', 'd'] ∧
        sharedPair.SameJson distinctPair) := by
  rw [payloadFingerprint_eq_iff Function.injective_id]
  intro h
  have htrees : JsonTree.array [.object [], .string (ascii cycle)] =
      JsonTree.array [.object [], .object []] := (h.2 ⟨rfl, rfl⟩).2
  simp at htrees

end Lares.Approvals
