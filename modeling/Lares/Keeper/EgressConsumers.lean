import Lares.Keeper.Egress
import Mathlib

/-! # The consumers of the generated rules

    * **Plain words**: every name, address, host and network that is accepted
      is one word of its line.
    * **Consumers**: one for each entry of the inventory, under its own name and
      address, with the hosts that the entry owns.
-/

namespace Lares.Keeper.Egress

open WordLines

/-! ## Section 1: Addresses -/

theorem octet?_eq_some {part : Text} {n : Nat} (h : octet? part = some n) :
    part = Nat.toDigits 10 n ∧ n ≤ 255 := by
  unfold octet? at h
  dsimp only at h
  split at h
  · next hdigits =>
    rw [← Option.some.inj h]
    exact hdigits
  · simp at h

theorem ipv4?_eq_some {value : Text} {ip : Nat} (h : ipv4? value = some ip) :
    ∃ a b c d, value.splitOn '.' = [Nat.toDigits 10 a, Nat.toDigits 10 b, Nat.toDigits 10 c,
      Nat.toDigits 10 d] ∧ (a ≤ 255 ∧ b ≤ 255 ∧ c ≤ 255 ∧ d ≤ 255) ∧
      ip = ((a * 256 + b) * 256 + c) * 256 + d := by
  unfold ipv4? at h
  split at h
  · next a b c d hparts =>
    obtain ⟨pa, rest, hsplit, ha, hrest⟩ := List.map_eq_cons_iff.1 hparts
    obtain ⟨pb, rest, rfl, hb, hrest⟩ := List.map_eq_cons_iff.1 hrest
    obtain ⟨pc, rest, rfl, hc, hrest⟩ := List.map_eq_cons_iff.1 hrest
    obtain ⟨pd, rest, rfl, hd, hrest⟩ := List.map_eq_cons_iff.1 hrest
    rw [List.map_eq_nil_iff.1 hrest] at hsplit
    obtain ⟨rfl, hal⟩ := octet?_eq_some ha
    obtain ⟨rfl, hbl⟩ := octet?_eq_some hb
    obtain ⟨rfl, hcl⟩ := octet?_eq_some hc
    obtain ⟨rfl, hdl⟩ := octet?_eq_some hd
    exact ⟨a, b, c, d, hsplit, ⟨hal, hbl, hcl, hdl⟩, (Option.some.inj h).symm⟩
  · simp at h

/-- An address has one text. -/
theorem ipv4?_injective {v w : Text} {ip : Nat} (hv : ipv4? v = some ip) (hw : ipv4? w = some ip) :
    v = w := by
  obtain ⟨a, b, c, d, hsplit, hle, rfl⟩ := ipv4?_eq_some hv
  obtain ⟨a', b', c', d', hsplit', hle', hip⟩ := ipv4?_eq_some hw
  obtain ⟨rfl, rfl, rfl, rfl⟩ : a = a' ∧ b = b' ∧ c = c' ∧ d = d' := by omega
  exact Lines.splitOn_injective '.' (hsplit.trans hsplit'.symm)

/-- The characters of an address. -/
theorem mem_ipv4 {value : Text} {ip : Nat} (h : ipv4? value = some ip) {c : Char}
    (hc : c ∈ value) : c = '.' ∨ c.isDigit = true := by
  obtain ⟨x, y, z, w, hsplit, -, -⟩ := ipv4?_eq_some h
  have hjoin : ['.'].intercalate (value.splitOn '.') = value := List.intercalate_splitOn '.'
  rw [← hjoin, hsplit] at hc
  rcases Lines.mem_of_mem_intercalate hc with hdot | ⟨part, hpart, hdigit⟩
  · exact .inl (List.mem_singleton.1 hdot)
  · right
    have hdigits : ∃ n, part = Nat.toDigits 10 n := by
      simp only [List.mem_cons, List.not_mem_nil, or_false] at hpart
      rcases hpart with rfl | rfl | rfl | rfl <;> exact ⟨_, rfl⟩
    obtain ⟨n, rfl⟩ := hdigits
    exact Nat.isDigit_of_mem_toDigits (by decide) (by decide) hdigit

theorem ipv4_ne_nil {value : Text} {ip : Nat} (h : ipv4? value = some ip) : value ≠ [] := by
  rintro rfl
  revert h
  simp [ipv4?, octet?]

/-! ## Section 2: Plain words -/

theorem plain_of_chars {word : Text} (hne : word ≠ [])
    (h : ∀ c ∈ word, c ≠ ' ' ∧ c ≠ '\n') : Plain word :=
  ⟨hne, fun hmem => (h _ hmem).1 rfl, fun hmem => (h _ hmem).2 rfl⟩

theorem plain_address {value : Text} {ip : Nat} (h : ipv4? value = some ip) : Plain value := by
  refine plain_of_chars (ipv4_ne_nil h) fun c hc => ?_
  rcases mem_ipv4 h hc with rfl | hdigit
  · decide
  · constructor
    · rintro rfl
      simp at hdigit
    · rintro rfl
      simp at hdigit

theorem lowerAlnum_plain {c : Char} (h : (Lines.isLowerAlnum c || c = '-') = true) :
    c ≠ ' ' ∧ c ≠ '\n' ∧ c ≠ '.' := by
  refine ⟨?_, ?_, ?_⟩ <;> rintro rfl <;> revert h <;> decide

theorem plain_name {name : Text} (h : isName name = true) : Plain name := by
  unfold isName at h
  simp only [Bool.and_eq_true] at h
  obtain ⟨⟨-, hhead⟩, hall⟩ := h
  refine plain_of_chars ?_ fun c hc => ?_
  · rintro rfl
    simp at hhead
  · have hplain := lowerAlnum_plain (List.all_eq_true.1 hall c hc)
    exact ⟨hplain.1, hplain.2.1⟩

/-- The labels of a domain are not empty, and hold no blank or break. -/
theorem label_of_domain {domain : Text} (h : isDomain domain = true) {label : Text}
    (hlabel : label ∈ domain.splitOn '.') :
    label ≠ [] ∧ ∀ c ∈ label, (Lines.isLowerAlnum c || c = '-') = true := by
  unfold isDomain at h
  rw [Bool.and_eq_true] at h
  have hok := List.all_eq_true.1 h.2 label hlabel
  unfold isLabel at hok
  simp only [Bool.and_eq_true] at hok
  obtain ⟨⟨⟨-, hall⟩, hhead⟩, -⟩ := hok
  constructor
  · rintro rfl
    simp at hhead
  · exact List.all_eq_true.1 hall

theorem plain_domain {domain : Text} (h : isDomain domain = true) : Plain domain := by
  refine plain_of_chars ?_ fun c hc => ?_
  · rintro rfl
    revert h
    decide
  · have hjoin : ['.'].intercalate (domain.splitOn '.') = domain := List.intercalate_splitOn '.'
    rw [← hjoin] at hc
    rcases Lines.mem_of_mem_intercalate hc with hdot | ⟨label, hlabel, hmem⟩
    · rw [List.mem_singleton.1 hdot]
      decide
    · have hplain := lowerAlnum_plain ((label_of_domain h hlabel).2 c hmem)
      exact ⟨hplain.1, hplain.2.1⟩

theorem host_eq_ok {value out : Text} (h : host value = .ok out) :
    out = value ∧ isDomain (domainOf value) = true := by
  unfold host at h
  split at h
  · simp only [reduceCtorEq] at h
  · next hok =>
    rw [Bool.not_eq_true, Bool.or_eq_false_iff, Bool.or_eq_false_iff, Bool.not_eq_false'] at hok
    exact ⟨(Except.ok.inj h).symm, hok.1.2⟩

theorem dotted_eq {value : Text} (h : isDotted value = true) : value = '.' :: value.tail := by
  cases value with
  | nil => simp [isDotted] at h
  | cons c rest =>
    have hc : c = '.' := by simpa [isDotted] using h
    rw [hc, List.tail_cons]

/-- After a leading dot comes a letter or a digit. -/
theorem not_dotted_domainOf {value out : Text} (h : host value = .ok out) :
    isDotted (domainOf value) = false := by
  obtain ⟨-, hdomain⟩ := host_eq_ok h
  rw [Bool.eq_false_iff]
  intro hdotted
  have hempty : [] ∈ (domainOf value).splitOn '.' := by
    rw [dotted_eq hdotted, Lines.splitOn_break]
    exact List.mem_cons_self
  exact (label_of_domain hdomain hempty).1 rfl

theorem plain_host {value out : Text} (h : host value = .ok out) : Plain value := by
  have hplain := plain_domain (host_eq_ok h).2
  unfold domainOf at hplain
  split at hplain
  · next hdotted =>
    rw [dotted_eq hdotted]
    exact plain_append (a := ['.']) ⟨by simp, by decide, by decide⟩ hplain.2
  · exact hplain

theorem address_eq_ok {value out : Text} (h : address value = .ok out) :
    out = value ∧ ∃ ip, ipv4? value = some ip := by
  unfold address at h
  split at h
  · simp only [reduceCtorEq] at h
  · next hsome =>
    refine ⟨(Except.ok.inj h).symm, ?_⟩
    exact Option.ne_none_iff_exists'.1 (by simpa using hsome)

theorem bind_eq_ok {α β : Type} {x : Except Text α} {f : α → Except Text β} {b : β} :
    (x >>= f) = .ok b ↔ ∃ a, x = .ok a ∧ f a = .ok b := by
  cases x with
  | error e => simp [bind, Except.bind]
  | ok a => simp [bind, Except.bind]

theorem digit_plain {c : Char} (h : c.isDigit = true) : c ≠ ' ' ∧ c ≠ '\n' := by
  constructor
  · rintro rfl
    simp at h
  · rintro rfl
    simp at h

/-- An accepted network is one word: an address, and the length of a prefix. -/
theorem destination_eq_ok {value out : Text} (h : destination value = .ok out) :
    out = value ∧ Plain value := by
  have hjoin : ['/'].intercalate (value.splitOn '/') = value := List.intercalate_splitOn '/'
  unfold destination at h
  split at h
  · next base hsplit =>
    obtain ⟨_, haddress, hout⟩ := bind_eq_ok.1 h
    obtain ⟨-, ip, hip⟩ := address_eq_ok haddress
    rw [hsplit, List.intercalate_singleton] at hjoin
    exact ⟨(Except.ok.inj hout).symm, hjoin ▸ plain_address hip⟩
  · next base length hsplit =>
    obtain ⟨_, haddress, hout⟩ := bind_eq_ok.1 h
    obtain ⟨-, ip, hip⟩ := address_eq_ok haddress
    split at hout
    · next hlength =>
      refine ⟨(Except.ok.inj hout).symm, ?_⟩
      have hdigits : length.all Char.isDigit = true := by
        unfold isPrefixLength at hlength
        simp only [Bool.and_eq_true] at hlength
        exact hlength.1.1.2
      have hvalue : value = base ++ '/' :: length := by
        rw [← hjoin, hsplit]
        simp [List.intercalate_cons_cons]
      rw [hvalue]
      refine plain_append (plain_address hip) ⟨?_, ?_⟩
      · intro hmem
        rcases List.mem_cons.1 hmem with hslash | hmem
        · simp at hslash
        · exact (digit_plain (List.all_eq_true.1 hdigits _ hmem)).1 rfl
      · intro hmem
        rcases List.mem_cons.1 hmem with hslash | hmem
        · simp at hslash
        · exact (digit_plain (List.all_eq_true.1 hdigits _ hmem)).2 rfl
    · simp only [reduceCtorEq] at hout
  · obtain ⟨_, -, hout⟩ := bind_eq_ok.1 h
    simp only [reduceCtorEq] at hout
  · next hnil => exact absurd hnil (List.splitOn_ne_nil '/' value)

/-! ## Section 3: Entries of the inventory -/

/-- A consumer as the inventory has it: its name, its address, and the hosts it owns. -/
structure Entry where
  name : Text
  address : Text
  owns : Text → Prop

section Inventory

variable (pf : Platform) (options : EgressOptions)

/-- The hosts of an agent, by where they come from. -/
inductive AgentHost (agent : EgressAgent) : Text → Prop
  | infrastructure {h : Text} (hmem : h ∈ agent.infrastructureHosts) : AgentHost agent h
  | outside {h : Text} (hmem : h ∈ agent.outsideHosts) : AgentHost agent h
  | granted {h : Text} {g : Grant} {doc : CapabilityDoc} (hgrant : g ∈ agent.grants)
      (hscope : g.scope ≠ "none".toList) (hdoc : pf.capabilityDocs g.capability = some doc)
      (hmem : h ∈ doc.hosts) : AgentHost agent h
  | endpoint {h url : Text} {g : Grant} {doc : CapabilityDoc} {e : Endpoint}
      (hgrant : g ∈ agent.grants) (hscope : g.scope ≠ "none".toList)
      (hdoc : pf.capabilityDocs g.capability = some doc) (hendpoint : doc.endpoint = some e)
      (hurl : options.endpoints e = some url) (hhost : endpointHost pf.newUrl url = .ok h) :
      AgentHost agent h
  | door {h : Text} {d : Door} {hosts : List Text} (hdoor : d ∈ agent.doors)
      (henabled : d.enabled = true) (hhosts : DOOR_HOSTS d.kind = some hosts) (hmem : h ∈ hosts) :
      AgentHost agent h

def agentEntry (agent : EgressAgent) : Entry :=
  ⟨agent.name, agent.address, AgentHost pf options agent⟩

def legacyEntry (legacy : LegacyConsumer) : Entry :=
  ⟨legacy.name, legacy.address, (· ∈ legacy.hosts)⟩

def managedEntry (service : ManagedService) : Entry :=
  ⟨service.name, service.address, fun h =>
    h ∈ service.hosts ∨ ∃ url ∈ service.endpoints, endpointHost pf.newUrl url = .ok h⟩

end Inventory

def Inventory.entries (pf : Platform) (inv : Inventory) : List Entry :=
  inv.agents.map (agentEntry pf inv.options) ++ inv.options.legacyConsumers.map legacyEntry ++
    inv.options.managedServices.map (managedEntry pf)

/-! ## Section 4: Consumers -/

/-- What the checks leave of a consumer. -/
structure Consumer.Valid (c : Consumer) : Prop where
  name : isName c.name = true
  address : ∃ ip, ipv4? c.address = some ip
  hosts : ∀ h ∈ c.hosts, host h = .ok h

/-- The consumer of an entry. -/
structure Fits (e : Entry) (c : Consumer) : Prop where
  name : c.name = e.name
  address : c.address = e.address
  hosts : ∀ h, h ∈ c.hosts ↔ e.owns h
  valid : c.Valid

/-- The consumers of a draft are those of the entries, under different names and addresses. -/
structure Filled (entries : List Entry) (consumers : List Consumer) : Prop where
  fits : List.Forall₂ Fits entries consumers
  names : (consumers.map Consumer.name).Nodup
  addresses : (consumers.map Consumer.address).Nodup

theorem mapM_eq_ok {α : Type} {f : α → Except Text Text} {xs : List α} {ys : List Text}
    (h : xs.mapM f = .ok ys) : ∀ y, y ∈ ys ↔ ∃ x ∈ xs, f x = .ok y := by
  induction xs generalizing ys with
  | nil =>
    rw [List.mapM_nil] at h
    rw [← Except.ok.inj h]
    simp
  | cons x xs ih =>
    rw [List.mapM_cons] at h
    obtain ⟨y, hy, h⟩ := bind_eq_ok.1 h
    obtain ⟨rest, hrest, h⟩ := bind_eq_ok.1 h
    rw [← Except.ok.inj h]
    intro z
    simp [ih hrest, hy, eq_comm]

/-- A check answers with what it was given. -/
theorem mapM_check {f : Text → Except Text Text} (hf : ∀ x y, f x = .ok y → y = x)
    {xs ys : List Text} (h : xs.mapM f = .ok ys) :
    (∀ y, y ∈ ys ↔ y ∈ xs) ∧ ∀ x ∈ xs, f x = .ok x := by
  have hok : ∀ x ∈ xs, f x = .ok x := by
    induction xs generalizing ys with
    | nil => simp
    | cons x xs ih =>
      rw [List.mapM_cons] at h
      obtain ⟨y, hy, h⟩ := bind_eq_ok.1 h
      obtain ⟨rest, hrest, -⟩ := bind_eq_ok.1 h
      intro z hz
      rcases List.mem_cons.1 hz with rfl | hz
      · rw [hy, hf _ _ hy]
      · exact ih hrest z hz
  refine ⟨fun y => ?_, hok⟩
  rw [mapM_eq_ok h]
  constructor
  · rintro ⟨x, hx, hy⟩
    rw [hf x y hy]
    exact hx
  · intro hy
    exact ⟨y, hy, hok y hy⟩

theorem mem_sorted {values : List Text} {v : Text} : v ∈ sorted values ↔ v ∈ values := by
  rw [sorted, (List.perm_insertionSort _ _).mem_iff, List.mem_dedup]

theorem consumer_eq_ok {consumers : List Consumer} {name ip : Text} {hosts : List Text}
    {c : Consumer} (h : consumer consumers name ip hosts = .ok c) :
    c.name = name ∧ c.address = ip ∧ (∀ v, v ∈ c.hosts ↔ v ∈ hosts) ∧ c.Valid ∧
      (∀ d ∈ consumers, d.name ≠ name) ∧ ∀ d ∈ consumers, d.address ≠ ip := by
  unfold consumer at h
  split at h
  · simp only [reduceCtorEq] at h
  · next hname =>
    obtain ⟨_, haddress, h⟩ := bind_eq_ok.1 h
    split at h
    · simp only [reduceCtorEq] at h
    · next hnew =>
      obtain ⟨values, hvalues, h⟩ := bind_eq_ok.1 h
      obtain ⟨hsame, hok⟩ := mapM_check (fun x y hxy => (host_eq_ok hxy).1) hvalues
      have hhosts : ∀ v, v ∈ sorted values ↔ v ∈ hosts := fun v => mem_sorted.trans (hsame v)
      rw [Bool.not_eq_true, Bool.or_eq_false_iff, Bool.not_eq_false'] at hname
      rw [← Except.ok.inj h]
      refine ⟨rfl, rfl, hhosts, ⟨hname.1, (address_eq_ok haddress).2, ?_⟩, ?_, ?_⟩
      · intro v hv
        exact hok v ((hhosts v).1 hv)
      · simpa using hname.2
      · simpa using hnew

/-- One more consumer. -/
theorem Filled.add {entries : List Entry} {consumers : List Consumer}
    (hfilled : Filled entries consumers) {e : Entry} {c : Consumer} {hosts : List Text}
    (h : consumer consumers e.name e.address hosts = .ok c) (howns : ∀ v, v ∈ hosts ↔ e.owns v) :
    Filled (entries ++ [e]) (consumers ++ [c]) := by
  obtain ⟨hname, haddress, hhosts, hvalid, hnewName, hnewAddress⟩ := consumer_eq_ok h
  refine ⟨List.rel_append hfilled.fits (.cons ⟨hname, haddress, ?_, hvalid⟩ .nil), ?_, ?_⟩
  · intro v
    rw [hhosts, howns]
  · rw [List.map_append, List.nodup_append]
    refine ⟨hfilled.names, by simp, ?_⟩
    intro a ha b hb hab
    obtain ⟨d, hd, rfl⟩ := List.mem_map.1 ha
    rw [List.map_singleton, List.mem_singleton] at hb
    exact hnewName d hd (hab.trans (hb.trans hname))
  · rw [List.map_append, List.nodup_append]
    refine ⟨hfilled.addresses, by simp, ?_⟩
    intro a ha b hb hab
    obtain ⟨d, hd, rfl⟩ := List.mem_map.1 ha
    rw [List.map_singleton, List.mem_singleton] at hb
    exact hnewAddress d hd (hab.trans (hb.trans haddress))

section Agents

variable {pf : Platform} {options : EgressOptions}

/-- What one grant brings. -/
def GrantHost (pf : Platform) (options : EgressOptions) (g : Grant) (h : Text) : Prop :=
  g.scope ≠ "none".toList ∧ ∃ doc, pf.capabilityDocs g.capability = some doc ∧
    (h ∈ doc.hosts ∨ ∃ e url, doc.endpoint = some e ∧ options.endpoints e = some url ∧
      endpointHost pf.newUrl url = .ok h)

theorem endpointHosts_eq_ok {doc : CapabilityDoc} {own : List Text}
    (h : endpointHosts pf options doc = .ok own) (v : Text) :
    v ∈ own ↔ ∃ e url, doc.endpoint = some e ∧ options.endpoints e = some url ∧
      endpointHost pf.newUrl url = .ok v := by
  unfold endpointHosts at h
  split at h
  · next hnone =>
    rw [← Except.ok.inj h]
    rw [Option.bind_eq_none_iff] at hnone
    constructor
    · intro hmem
      simp at hmem
    · rintro ⟨e, url, he, hurl, -⟩
      have := hnone e he
      rw [hurl] at this
      simp at this
  · next url hsome =>
    obtain ⟨e, he, hurl⟩ := Option.bind_eq_some_iff.1 hsome
    obtain ⟨w, hw, hout⟩ := bind_eq_ok.1 h
    rw [← Except.ok.inj hout, List.mem_singleton]
    constructor
    · rintro rfl
      exact ⟨e, url, he, hurl, hw⟩
    · rintro ⟨e', url', he', hurl', hv⟩
      obtain rfl : e = e' := Option.some.inj (he.symm.trans he')
      obtain rfl : url = url' := Option.some.inj (hurl.symm.trans hurl')
      exact Except.ok.inj (hv.symm.trans hw)

theorem grantHosts_eq_ok {agent : Text} {seen : List Text} {grants : List Grant}
    {hosts : List Text} {skipped : List Skipped}
    (h : grantHosts pf options agent seen grants = .ok (hosts, skipped)) (v : Text) :
    v ∈ hosts ↔ ∃ g ∈ grants, GrantHost pf options g v := by
  induction grants generalizing seen hosts skipped with
  | nil =>
    unfold grantHosts at h
    rw [← (Prod.mk.inj (Except.ok.inj h)).1]
    simp
  | cons g grants ih =>
    unfold grantHosts at h
    rw [List.exists_mem_cons_iff]
    split at h
    · next hunknown =>
      -- a capability without a doc brings nothing
      have hnothing : ¬GrantHost pf options g v := by
        rintro ⟨-, doc, hdoc, -⟩
        rw [hunknown] at hdoc
        simp at hdoc
      split at h
      · obtain ⟨⟨rest, more⟩, hrest, h⟩ := bind_eq_ok.1 h
        rw [← (Prod.mk.inj (Except.ok.inj h)).1, ih hrest]
        exact (or_iff_right hnothing).symm
      · simp only [reduceCtorEq] at h
    · next doc hdoc =>
      split at h
      · simp only [reduceCtorEq] at h
      · split at h
        · next hnone =>
          have hnothing : ¬GrantHost pf options g v := fun hg => hg.1 hnone
          rw [ih h]
          exact (or_iff_right hnothing).symm
        · next hscope =>
          obtain ⟨own, hown, h⟩ := bind_eq_ok.1 h
          obtain ⟨⟨rest, more⟩, hrest, h⟩ := bind_eq_ok.1 h
          have hgrant : GrantHost pf options g v ↔ v ∈ doc.hosts ∨ v ∈ own := by
            rw [endpointHosts_eq_ok hown]
            constructor
            · rintro ⟨-, doc', hdoc', hv⟩
              obtain rfl : doc = doc' := Option.some.inj (hdoc.symm.trans hdoc')
              exact hv
            · intro hv
              exact ⟨hscope, doc, hdoc, hv⟩
          rw [← (Prod.mk.inj (Except.ok.inj h)).1, List.mem_append, List.mem_append, ih hrest,
            hgrant]

theorem doorHosts_eq_ok {doors : List Door} {hosts : List Text} (h : doorHosts doors = .ok hosts)
    (v : Text) : v ∈ hosts ↔ ∃ d ∈ doors, d.enabled = true ∧
      ∃ own, DOOR_HOSTS d.kind = some own ∧ v ∈ own := by
  induction doors generalizing hosts with
  | nil =>
    rw [← Except.ok.inj h]
    simp
  | cons d doors ih =>
    unfold doorHosts at h
    rw [List.exists_mem_cons_iff]
    split at h
    · simp only [reduceCtorEq] at h
    · next own hown =>
      obtain ⟨rest, hrest, h⟩ := bind_eq_ok.1 h
      rw [← Except.ok.inj h, List.mem_append, ih hrest, hown]
      by_cases henabled : d.enabled = true
      · simp [henabled]
      · simp [henabled]

theorem addAgent_filled {entries : List Entry} {filled next : Draft} {agent : EgressAgent}
    (hfilled : Filled entries filled.consumers) (h : addAgent pf options filled agent = .ok next) :
    Filled (entries ++ [agentEntry pf options agent]) next.consumers := by
  unfold addAgent at h
  obtain ⟨⟨granted, skipped⟩, hgranted, h⟩ := bind_eq_ok.1 h
  obtain ⟨doors, hdoors, h⟩ := bind_eq_ok.1 h
  obtain ⟨c, hc, h⟩ := bind_eq_ok.1 h
  rw [← Except.ok.inj h]
  refine hfilled.add (e := agentEntry pf options agent) hc fun v => ?_
  rw [List.mem_append, List.mem_append, List.mem_append, grantHosts_eq_ok hgranted,
    doorHosts_eq_ok hdoors]
  constructor
  · rintro (((hinfra | houtside) | ⟨g, hg, hscope, doc, hdoc, hmem | ⟨e, url, he, hurl, hv⟩⟩) |
      ⟨d, hd, henabled, own, hown, hmem⟩)
    · exact .infrastructure hinfra
    · exact .outside houtside
    · exact .granted hg hscope hdoc hmem
    · exact .endpoint hg hscope hdoc he hurl hv
    · exact .door hd henabled hown hmem
  · intro hv
    cases hv with
    | infrastructure hmem => exact .inl (.inl (.inl hmem))
    | outside hmem => exact .inl (.inl (.inr hmem))
    | granted hg hscope hdoc hmem => exact .inl (.inr ⟨_, hg, hscope, _, hdoc, .inl hmem⟩)
    | endpoint hg hscope hdoc he hurl hhost =>
      exact .inl (.inr ⟨_, hg, hscope, _, hdoc, .inr ⟨_, _, he, hurl, hhost⟩⟩)
    | door hd henabled hown hmem => exact .inr ⟨_, hd, henabled, _, hown, hmem⟩

theorem addLegacy_filled {entries : List Entry} {filled next : Draft} {legacy : LegacyConsumer}
    (hfilled : Filled entries filled.consumers) (h : addLegacy filled legacy = .ok next) :
    Filled (entries ++ [legacyEntry legacy]) next.consumers := by
  unfold addLegacy at h
  obtain ⟨c, hc, h⟩ := bind_eq_ok.1 h
  rw [← Except.ok.inj h]
  exact hfilled.add (e := legacyEntry legacy) hc fun v => Iff.rfl

theorem addManaged_filled {entries : List Entry} {filled next : Draft} {service : ManagedService}
    (hfilled : Filled entries filled.consumers) (h : addManaged pf filled service = .ok next) :
    Filled (entries ++ [managedEntry pf service]) next.consumers := by
  unfold addManaged at h
  obtain ⟨own, hown, h⟩ := bind_eq_ok.1 h
  obtain ⟨c, hc, h⟩ := bind_eq_ok.1 h
  rw [← Except.ok.inj h]
  refine hfilled.add (e := managedEntry pf service) hc fun v => ?_
  rw [List.mem_append, mapM_eq_ok hown]
  exact Iff.rfl

end Agents

/-- A loop that adds an entry a turn. -/
theorem filled_foldlM {α : Type} (add : Draft → α → Except Text Draft) (entry : α → Entry)
    (hadd : ∀ entries filled next a, Filled entries filled.consumers → add filled a = .ok next →
      Filled (entries ++ [entry a]) next.consumers)
    {xs : List α} {entries : List Entry} {filled next : Draft}
    (hfilled : Filled entries filled.consumers) (h : xs.foldlM add filled = .ok next) :
    Filled (entries ++ xs.map entry) next.consumers := by
  induction xs generalizing entries filled with
  | nil =>
    rw [List.foldlM_nil] at h
    rw [← Except.ok.inj h]
    simpa using hfilled
  | cons x xs ih =>
    rw [List.foldlM_cons] at h
    obtain ⟨mid, hmid, h⟩ := bind_eq_ok.1 h
    have hrest := ih (hadd _ _ _ _ hfilled hmid) h
    simpa using hrest

/-- The consumers of a draft are the entries of the inventory, in some order. -/
theorem draft_filled {pf : Platform} {inv : Inventory} {filled : Draft}
    (h : draft pf inv = .ok filled) :
    ∃ entries, entries.Perm (inv.entries pf) ∧ Filled entries filled.consumers := by
  unfold draft at h
  obtain ⟨agents, hagents, h⟩ := bind_eq_ok.1 h
  obtain ⟨legacy, hlegacy, hmanaged⟩ := bind_eq_ok.1 h
  have hempty : Filled [] (Draft.mk [] [] []).consumers := ⟨.nil, by simp, by simp⟩
  have hfirst := filled_foldlM (addAgent pf inv.options) (agentEntry pf inv.options)
    (fun _ _ _ _ => addAgent_filled) hempty hagents
  have hsecond := filled_foldlM addLegacy legacyEntry (fun _ _ _ _ => addLegacy_filled) hfirst
    hlegacy
  have hthird := filled_foldlM (addManaged pf) (managedEntry pf)
    (fun _ _ _ _ => addManaged_filled) hsecond hmanaged
  refine ⟨_, ?_, hthird⟩
  unfold Inventory.entries
  rw [List.nil_append]
  exact (((List.perm_insertionSort _ _).map _).append_right _).append_right _

end Lares.Keeper.Egress
