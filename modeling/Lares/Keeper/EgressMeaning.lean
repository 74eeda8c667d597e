import Lares.Keeper.EgressConsumers
import Lares.Keeper.RuleMeaning
import Mathlib

/-! # Generated rules mean the inventory

    What the two generated files decide, against what the inventory says.

    * **Proxy**: a connection is allowed when the one consumer with its source
      owns an entry that matches the host.
    * **Packet filter**: what a consumer sends is dropped, apart from what is
      established, goes to an exception or to port 53.
    * **Covered hosts** may be left out of the proxy's lists.
-/

namespace Lares.Keeper.Egress

open WordLines

/-! ## Section 1: Fixed lines -/

theorem plain_fixed (indent : Nat) {line : String} (h : '\n' ∉ line.toList) :
    (fixed indent line).Plain := by
  intro word hword
  obtain ⟨hmem, hne⟩ := List.mem_filter.1 hword
  refine ⟨by simpa using hne, Lines.not_mem_of_mem_splitOn hmem, ?_⟩
  intro hbreak
  exact h (Lines.subset_of_mem_splitOn hmem hbreak)

/-! ## Section 2: The proxy's lines, read back -/

section Proxy

variable (listed : Consumer → List Text) (consumers : List Consumer)

def consumerDirectives (c : Consumer) : List Directive :=
  .acl (sourceAcl c) "src".toList [c.address] ::
    if c.hosts.isEmpty then []
    else [.acl (hostAcl c) "dstdomain".toList (listed c),
      .httpAccess true ["CONNECT".toList, sourceAcl c, hostAcl c, "SSL_ports".toList]]

/-- What stands in front of the line that denies everything. -/
def allowances : List Directive :=
  [.other, .acl "SSL_ports".toList "port".toList ["443".toList],
    .acl "CONNECT".toList "method".toList ["CONNECT".toList]] ++
  consumers.flatMap (consumerDirectives listed)

def config : List Directive :=
  allowances listed consumers ++ [.httpAccess false ["all".toList], .other, .other, .other]

variable {listed consumers}

theorem plain_consumerLines {c : Consumer} (hvalid : c.Valid) (hlisted : listed c ⊆ c.hosts) :
    ∀ l ∈ consumerLines listed c, l.Plain := by
  obtain ⟨ip, hip⟩ := hvalid.address
  have hname := plain_name hvalid.name
  have hsource : Plain (sourceAcl c) := plain_append ⟨by decide, by decide, by decide⟩ hname.2
  have hhost : Plain (hostAcl c) := plain_append ⟨by decide, by decide, by decide⟩ hname.2
  have hfirst : Line.Plain ⟨0, ["acl".toList, sourceAcl c, "src".toList, c.address]⟩ := by
    intro word hword
    simp only [List.mem_cons, List.not_mem_nil, or_false] at hword
    rcases hword with rfl | rfl | rfl | rfl
    · exact ⟨by decide, by decide, by decide⟩
    · exact hsource
    · exact ⟨by decide, by decide, by decide⟩
    · exact plain_address hip
  intro l hl
  unfold consumerLines at hl
  rcases List.mem_cons.1 hl with rfl | hl
  · exact hfirst
  · split at hl
    · simp at hl
    · simp only [List.mem_cons, List.not_mem_nil, or_false] at hl
      rcases hl with rfl | rfl
      · intro word hword
        rcases List.mem_append.1 hword with hword | hword
        · simp only [List.mem_cons, List.not_mem_nil, or_false] at hword
          rcases hword with rfl | rfl | rfl
          · exact ⟨by decide, by decide, by decide⟩
          · exact hhost
          · exact ⟨by decide, by decide, by decide⟩
        · exact plain_host (hvalid.hosts word (hlisted hword))
      · intro word hword
        simp only [List.mem_cons, List.not_mem_nil, or_false] at hword
        rcases hword with rfl | rfl | rfl | rfl | rfl | rfl
        · exact ⟨by decide, by decide, by decide⟩
        · exact ⟨by decide, by decide, by decide⟩
        · exact ⟨by decide, by decide, by decide⟩
        · exact hsource
        · exact hhost
        · exact ⟨by decide, by decide, by decide⟩

theorem directive_consumerLines (c : Consumer) :
    (consumerLines listed c).map (fun l => directive l.words) = consumerDirectives listed c := by
  unfold consumerLines consumerDirectives
  split
  · rfl
  · rfl

/-- The generated proxy file is read back as the lists and lines it was written from. -/
theorem readWords_squid (hvalid : ∀ c ∈ consumers, c.Valid)
    (hlisted : ∀ c ∈ consumers, listed c ⊆ c.hosts) :
    (readWords (document (squidLines listed consumers))).map directive =
      config listed consumers := by
  have hplain : ∀ l ∈ squidLines listed consumers, l.Plain := by
    intro l hl
    unfold squidLines at hl
    rw [List.mem_append, List.mem_append, List.mem_flatMap] at hl
    simp only [List.mem_cons, List.not_mem_nil, or_false] at hl
    rcases hl with ((rfl | rfl | rfl) | ⟨c, hc, hl⟩) | rfl | rfl | rfl
    · exact plain_fixed 0 (by decide)
    · exact plain_fixed 0 (by decide)
    · exact plain_fixed 0 (by decide)
    · exact plain_consumerLines (hvalid c hc) (hlisted c hc) l hl
    · exact plain_fixed 0 (by decide)
    · exact plain_fixed 0 (by decide)
    · exact plain_fixed 0 (by decide)
  rw [readWords_document (by simp [squidLines]) hplain]
  unfold squidLines config allowances
  simp only [List.map_append, List.map_map, List.map_flatMap]
  have hlines : ∀ c, (consumerLines listed c).map (directive ∘ Line.words) =
      consumerDirectives listed c := directive_consumerLines
  simp only [hlines]
  rw [List.append_assoc]
  rfl

/-! ## Section 3: The proxy's lists -/

theorem mem_config_acl {name kind : Text} {values : List Text} :
    .acl name kind values ∈ config listed consumers ↔
      (name = "SSL_ports".toList ∧ kind = "port".toList ∧ values = ["443".toList]) ∨
      (name = "CONNECT".toList ∧ kind = "method".toList ∧ values = ["CONNECT".toList]) ∨
      ∃ c ∈ consumers, (name = sourceAcl c ∧ kind = "src".toList ∧ values = [c.address]) ∨
        (c.hosts.isEmpty = false ∧ name = hostAcl c ∧ kind = "dstdomain".toList ∧
          values = listed c) := by
  have hconsumer : ∀ c, .acl name kind values ∈ consumerDirectives listed c ↔
      (name = sourceAcl c ∧ kind = "src".toList ∧ values = [c.address]) ∨
        (c.hosts.isEmpty = false ∧ name = hostAcl c ∧ kind = "dstdomain".toList ∧
          values = listed c) := by
    intro c
    unfold consumerDirectives
    by_cases hempty : c.hosts.isEmpty = true
    · simp [hempty]
    · simp [hempty]
  unfold config allowances
  simp only [List.mem_append, List.mem_flatMap, hconsumer, List.mem_cons, List.not_mem_nil,
    or_false, reduceCtorEq, false_or, Directive.acl.injEq]
  rw [or_assoc]

theorem listMatches_iff {directives : List Directive} {r : Request} {name : Text} :
    listMatches directives r name = true ↔ name = "all".toList ∨
      ∃ kind values, .acl name kind values ∈ directives ∧ aclMatches r kind values = true := by
  unfold listMatches
  rw [Bool.or_eq_true, decide_eq_true_eq, List.any_eq_true]
  refine or_congr_right ⟨?_, ?_⟩
  · rintro ⟨d, hd, hmatch⟩
    cases d with
    | acl defined kind values =>
      rw [Bool.and_eq_true, decide_eq_true_eq] at hmatch
      exact ⟨kind, values, hmatch.1 ▸ hd, hmatch.2⟩
    | httpAccess allow acls => simp at hmatch
    | other => simp at hmatch
  · rintro ⟨kind, values, hd, hmatch⟩
    exact ⟨_, hd, by simp [hmatch]⟩

section Lists

variable {r : Request} {c : Consumer}

theorem aclMatches_src (values : List Text) :
    aclMatches r "src".toList values = values.any fun v => ipv4? v = some r.source := rfl

theorem aclMatches_dstdomain (values : List Text) :
    aclMatches r "dstdomain".toList values = values.any fun v => matchesDomain v r.host := rfl

theorem aclMatches_port (values : List Text) :
    aclMatches r "port".toList values = values.any fun v => v = Nat.toDigits 10 r.port := rfl

theorem aclMatches_method (values : List Text) :
    aclMatches r "method".toList values = values.any fun v => v = r.method := rfl

theorem ssl_ne (d : Consumer) : "SSL_ports".toList ≠ sourceAcl d ∧ "SSL_ports".toList ≠ hostAcl d := by
  constructor
  · intro h
    exact absurd (List.cons.inj h).1 (by decide)
  · intro h
    exact absurd (List.cons.inj h).1 (by decide)

theorem connect_ne (d : Consumer) : "CONNECT".toList ≠ sourceAcl d ∧ "CONNECT".toList ≠ hostAcl d := by
  constructor
  · intro h
    exact absurd (List.cons.inj h).1 (by decide)
  · intro h
    exact absurd (List.cons.inj h).1 (by decide)

theorem source_ne (d : Consumer) : sourceAcl c ≠ hostAcl d ∧ sourceAcl c ≠ "all".toList := by
  constructor
  · intro h
    exact absurd (List.cons.inj h).1 (by decide)
  · intro h
    exact absurd (List.cons.inj h).1 (by decide)

theorem host_ne_all : hostAcl c ≠ "all".toList := by
  intro h
  exact absurd (List.cons.inj h).1 (by decide)

/-- Under different names, a consumer is told by its own. -/
theorem eq_of_name (hnames : (consumers.map Consumer.name).Nodup) (hc : c ∈ consumers)
    {d : Consumer} (hd : d ∈ consumers) (h : c.name = d.name) : c = d :=
  List.inj_on_of_nodup_map hnames hc hd h

theorem ssl_matches : listMatches (config listed consumers) r "SSL_ports".toList = true ↔
    r.port = 443 := by
  rw [listMatches_iff]
  constructor
  · rintro (hall | ⟨kind, values, hmem, hmatch⟩)
    · exact absurd hall (by decide)
    · rcases mem_config_acl.1 hmem with ⟨-, rfl, rfl⟩ | ⟨hname, -⟩ | ⟨d, -, ⟨hname, -⟩ | ⟨-, hname, -⟩⟩
      · rw [aclMatches_port, List.any_cons, List.any_nil, Bool.or_false,
          decide_eq_true_eq] at hmatch
        have hread : Nat.ofDigitChars 10 "443".toList 0 = r.port := by
          rw [hmatch, Nat.ofDigitChars_ten_toDigits]
        have hnumber : Nat.ofDigitChars 10 "443".toList 0 = 443 := by decide
        exact hread.symm.trans hnumber
      · exact absurd hname (by decide)
      · exact absurd hname (ssl_ne d).1
      · exact absurd hname (ssl_ne d).2
  · intro hport
    refine .inr ⟨_, _, mem_config_acl.2 (.inl ⟨rfl, rfl, rfl⟩), ?_⟩
    rw [aclMatches_port, hport]
    decide

theorem connect_matches : listMatches (config listed consumers) r "CONNECT".toList = true ↔
    r.method = "CONNECT".toList := by
  rw [listMatches_iff]
  constructor
  · rintro (hall | ⟨kind, values, hmem, hmatch⟩)
    · exact absurd hall (by decide)
    · rcases mem_config_acl.1 hmem with ⟨hname, -⟩ | ⟨-, rfl, rfl⟩ | ⟨d, -, ⟨hname, -⟩ | ⟨-, hname, -⟩⟩
      · exact absurd hname (by decide)
      · rw [aclMatches_method, List.any_cons, List.any_nil, Bool.or_false,
          decide_eq_true_eq] at hmatch
        exact hmatch.symm
      · exact absurd hname (connect_ne d).1
      · exact absurd hname (connect_ne d).2
  · intro hmethod
    refine .inr ⟨_, _, mem_config_acl.2 (.inr (.inl ⟨rfl, rfl, rfl⟩)), ?_⟩
    rw [aclMatches_method, hmethod]
    decide

theorem source_matches (hnames : (consumers.map Consumer.name).Nodup) (hc : c ∈ consumers) :
    listMatches (config listed consumers) r (sourceAcl c) = true ↔
      ipv4? c.address = some r.source := by
  rw [listMatches_iff]
  constructor
  · rintro (hall | ⟨kind, values, hmem, hmatch⟩)
    · exact absurd hall (source_ne c).2
    · rcases mem_config_acl.1 hmem with ⟨hname, -⟩ | ⟨hname, -⟩ |
        ⟨d, hd, ⟨hname, rfl, rfl⟩ | ⟨-, hname, -⟩⟩
      · exact absurd hname.symm (ssl_ne c).1
      · exact absurd hname.symm (connect_ne c).1
      · obtain rfl := eq_of_name hnames hc hd (List.append_cancel_left hname)
        rw [aclMatches_src, List.any_cons, List.any_nil, Bool.or_false,
          decide_eq_true_eq] at hmatch
        exact hmatch
      · exact absurd hname (source_ne d).1
  · intro haddress
    refine .inr ⟨_, _, mem_config_acl.2 (.inr (.inr ⟨c, hc, .inl ⟨rfl, rfl, rfl⟩⟩)), ?_⟩
    rw [aclMatches_src, List.any_cons, List.any_nil, Bool.or_false, decide_eq_true_eq]
    exact haddress

theorem host_matches (hnames : (consumers.map Consumer.name).Nodup) (hc : c ∈ consumers)
    (hhosts : c.hosts.isEmpty = false) :
    listMatches (config listed consumers) r (hostAcl c) = true ↔
      ∃ entry ∈ listed c, matchesDomain entry r.host = true := by
  rw [listMatches_iff]
  constructor
  · rintro (hall | ⟨kind, values, hmem, hmatch⟩)
    · exact absurd hall host_ne_all
    · rcases mem_config_acl.1 hmem with ⟨hname, -⟩ | ⟨hname, -⟩ |
        ⟨d, hd, ⟨hname, -⟩ | ⟨-, hname, rfl, rfl⟩⟩
      · exact absurd hname.symm (ssl_ne c).2
      · exact absurd hname.symm (connect_ne c).2
      · exact absurd hname.symm (source_ne c).1
      · obtain rfl := eq_of_name hnames hc hd (List.append_cancel_left hname)
        simpa only [aclMatches_dstdomain, List.any_eq_true] using hmatch
  · intro hentry
    refine .inr ⟨_, _, mem_config_acl.2 (.inr (.inr ⟨c, hc, .inr ⟨hhosts, rfl, rfl, rfl⟩⟩)), ?_⟩
    simpa only [aclMatches_dstdomain, List.any_eq_true] using hentry

end Lists

/-! ## Section 4: The proxy's decision -/

/-- Allowing lines in front of one that denies everything: some of them has to match. -/
theorem findSome_allow {directives before after : List Directive} {r : Request}
    (hallow : ∀ allow acls, .httpAccess allow acls ∈ before → allow = true) :
    ((before ++ .httpAccess false ["all".toList] :: after).findSome?
        (decides directives r)).getD false = true ↔
      ∃ acls, .httpAccess true acls ∈ before ∧ acls.all (listMatches directives r) = true := by
  induction before with
  | nil =>
    have hall : listMatches directives r "all".toList = true := by simp [listMatches]
    have hdeny : decides directives r (.httpAccess false ["all".toList]) = some false := by
      simp only [decides, List.all_cons, List.all_nil, hall, Bool.and_self, if_true]
    rw [List.nil_append, List.findSome?_cons, hdeny]
    simp
  | cons d before ih =>
    have hrest := ih fun allow acls hmem => hallow allow acls (List.mem_cons_of_mem d hmem)
    rw [List.cons_append, List.findSome?_cons]
    cases hd : decides directives r d with
    | some answer =>
      cases d with
      | httpAccess allow acls =>
        obtain rfl := hallow allow acls List.mem_cons_self
        simp only [decides] at hd
        split at hd
        · next hmatch =>
          rw [← Option.some.inj hd]
          exact iff_of_true rfl ⟨acls, List.mem_cons_self, hmatch⟩
        · simp at hd
      | acl name kind values => simp [decides] at hd
      | other => simp [decides] at hd
    | none =>
      rw [hrest]
      constructor
      · rintro ⟨acls, hmem, hmatch⟩
        exact ⟨acls, List.mem_cons_of_mem d hmem, hmatch⟩
      · rintro ⟨acls, hmem, hmatch⟩
        rcases List.mem_cons.1 hmem with rfl | hmem
        · simp [decides, hmatch] at hd
        · exact ⟨acls, hmem, hmatch⟩

theorem mem_allowances {allow : Bool} {acls : List Text} :
    .httpAccess allow acls ∈ allowances listed consumers ↔
      allow = true ∧ ∃ c ∈ consumers, c.hosts.isEmpty = false ∧
        acls = ["CONNECT".toList, sourceAcl c, hostAcl c, "SSL_ports".toList] := by
  have hconsumer : ∀ c, .httpAccess allow acls ∈ consumerDirectives listed c ↔
      allow = true ∧ c.hosts.isEmpty = false ∧
        acls = ["CONNECT".toList, sourceAcl c, hostAcl c, "SSL_ports".toList] := by
    intro c
    unfold consumerDirectives
    by_cases hempty : c.hosts.isEmpty = true
    · simp [hempty]
    · simp [hempty]
  unfold allowances
  simp only [List.mem_append, List.mem_flatMap, hconsumer, List.mem_cons, List.not_mem_nil,
    or_false, reduceCtorEq, false_or]
  constructor
  · rintro ⟨c, hc, hallow, hrest⟩
    exact ⟨hallow, c, hc, hrest⟩
  · rintro ⟨hallow, c, hc, hrest⟩
    exact ⟨c, hc, hallow, hrest⟩

/-- What the generated proxy file allows, with any lists of domains taken from the hosts. -/
theorem squidAllows_iff (hvalid : ∀ c ∈ consumers, c.Valid)
    (hnames : (consumers.map Consumer.name).Nodup)
    (hlisted : ∀ c ∈ consumers, listed c ⊆ c.hosts) (r : Request) :
    squidAllows (document (squidLines listed consumers)) r = true ↔
      r.method = "CONNECT".toList ∧ r.port = 443 ∧ ∃ c ∈ consumers,
        ipv4? c.address = some r.source ∧ ∃ entry ∈ listed c, matchesDomain entry r.host = true := by
  unfold squidAllows
  rw [readWords_squid hvalid hlisted]
  dsimp only
  rw [show config listed consumers = allowances listed consumers ++
    .httpAccess false ["all".toList] :: [.other, .other, .other] from rfl, findSome_allow]
  · rw [← show config listed consumers = allowances listed consumers ++
      .httpAccess false ["all".toList] :: [.other, .other, .other] from rfl]
    constructor
    · rintro ⟨acls, hmem, hall⟩
      obtain ⟨-, c, hc, hhosts, rfl⟩ := mem_allowances.1 hmem
      simp only [List.all_cons, List.all_nil, Bool.and_true, Bool.and_eq_true, connect_matches,
        source_matches hnames hc, host_matches hnames hc hhosts, ssl_matches] at hall
      exact ⟨hall.1, hall.2.2.2, c, hc, hall.2.1, hall.2.2.1⟩
    · rintro ⟨hmethod, hport, c, hc, haddress, entry, hentry, hmatch⟩
      have hhosts : c.hosts.isEmpty = false := by
        rw [List.isEmpty_eq_false_iff]
        exact List.ne_nil_of_mem (hlisted c hc hentry)
      refine ⟨_, mem_allowances.2 ⟨rfl, c, hc, hhosts, rfl⟩, ?_⟩
      simp only [List.all_cons, List.all_nil, Bool.and_true, Bool.and_eq_true, connect_matches,
        source_matches hnames hc, host_matches hnames hc hhosts, ssl_matches]
      exact ⟨hmethod, haddress, ⟨entry, hentry, hmatch⟩, hport⟩
  · intro allow acls hmem
    exact (mem_allowances.1 hmem).1

end Proxy

/-! ## Section 5: Covered hosts -/

/-- What an entry matches, the suffix that covers it matches too. -/
theorem matchesDomain_of_coveredBy {entry suffix h : Text} {out : Text}
    (hsuffix : host suffix = .ok out) (hcovered : coveredBy entry suffix = true)
    (hmatch : matchesDomain entry h = true) : matchesDomain suffix h = true := by
  unfold coveredBy at hcovered
  simp only [Bool.and_eq_true, decide_eq_true_eq, Bool.or_eq_true, List.isSuffixOf_iff_suffix]
    at hcovered
  obtain ⟨⟨hne, hdotted⟩, hcover⟩ := hcovered
  unfold matchesDomain at hmatch
  unfold matchesDomain
  rw [if_pos hdotted, Bool.or_eq_true, decide_eq_true_eq, List.isSuffixOf_iff_suffix]
  by_cases hentry : isDotted entry = true
  · rw [if_pos hentry, Bool.or_eq_true, decide_eq_true_eq, List.isSuffixOf_iff_suffix] at hmatch
    have hproper : suffix <:+ entry := by
      rcases hcover with htail | hends
      · -- a domain after its dot does not begin with another
        have hnot := not_dotted_domainOf hsuffix
        rw [domainOf, if_pos hdotted, ← htail, hentry] at hnot
        simp at hnot
      · exact hends
    rcases hmatch with htail | hends
    · right
      rw [htail]
      rw [dotted_eq hentry] at hproper hne
      exact (List.suffix_cons_iff.1 hproper).resolve_left hne
    · exact .inr (hproper.trans hends)
  · rw [if_neg hentry, decide_eq_true_eq] at hmatch
    rw [hmatch]
    exact hcover

theorem length_of_coveredBy {entry suffix : Text} (hdotted : isDotted entry = true) {out : Text}
    (hsuffix : host suffix = .ok out) (hcovered : coveredBy entry suffix = true) :
    suffix.length < entry.length := by
  unfold coveredBy at hcovered
  simp only [Bool.and_eq_true, decide_eq_true_eq, Bool.or_eq_true, List.isSuffixOf_iff_suffix]
    at hcovered
  obtain ⟨⟨hne, hdot⟩, htail | hends⟩ := hcovered
  · have hnot := not_dotted_domainOf hsuffix
    rw [domainOf, if_pos hdot, ← htail, hdotted] at hnot
    simp at hnot
  · rcases Nat.lt_or_ge suffix.length entry.length with hlt | hge
    · exact hlt
    · exact absurd (hends.eq_of_length (Nat.le_antisymm hends.length_le hge)) hne

/-- A suffix that is listed, or one that covers it, is among the needed ones. -/
theorem needed_of_dotted {c : Consumer} (hvalid : c.Valid) {h : Text} (n : Nat) :
    ∀ entry ∈ c.hosts, isDotted entry = true → entry.length ≤ n → matchesDomain entry h = true →
      ∃ needed ∈ domains c, matchesDomain needed h = true := by
  induction n with
  | zero =>
    intro entry _ hdotted hlength
    rw [dotted_eq hdotted] at hlength
    simp at hlength
  | succ n ih =>
    intro entry hentry hdotted hlength hmatch
    by_cases hcovered : c.hosts.any (coveredBy entry) = true
    · obtain ⟨suffix, hsuffix, hcover⟩ := List.any_eq_true.1 hcovered
      have hshorter := length_of_coveredBy hdotted (hvalid.hosts suffix hsuffix) hcover
      have hdot : isDotted suffix = true := by
        unfold coveredBy at hcover
        simp only [Bool.and_eq_true] at hcover
        exact hcover.1.2
      exact ih suffix hsuffix hdot (by omega)
        (matchesDomain_of_coveredBy (hvalid.hosts suffix hsuffix) hcover hmatch)
    · exact ⟨entry, List.mem_filter.2 ⟨hentry, by simp [hcovered]⟩, hmatch⟩

/-- Leaving covered hosts out changes no match. -/
theorem domains_match_iff {c : Consumer} (hvalid : c.Valid) (h : Text) :
    (∃ entry ∈ domains c, matchesDomain entry h = true) ↔
      ∃ entry ∈ c.hosts, matchesDomain entry h = true := by
  constructor
  · rintro ⟨entry, hentry, hmatch⟩
    exact ⟨entry, (List.mem_filter.1 hentry).1, hmatch⟩
  · rintro ⟨entry, hentry, hmatch⟩
    by_cases hcovered : c.hosts.any (coveredBy entry) = true
    · obtain ⟨suffix, hsuffix, hcover⟩ := List.any_eq_true.1 hcovered
      have hdot : isDotted suffix = true := by
        unfold coveredBy at hcover
        simp only [Bool.and_eq_true] at hcover
        exact hcover.1.2
      exact needed_of_dotted hvalid suffix.length suffix hsuffix hdot (Nat.le_refl _)
        (matchesDomain_of_coveredBy (hvalid.hosts suffix hsuffix) hcover hmatch)
    · exact ⟨entry, List.mem_filter.2 ⟨hentry, by simp [hcovered]⟩, hmatch⟩

/-! ## Section 6: The packet filter's rules -/

section Filter

variable {p : Packet}

/-- Accepted for its connection: an established one, or one related to it. -/
def Packet.Established (p : Packet) : Prop := p.ctState = .established ∨ p.ctState = .related

def Packet.ToPort53 (p : Packet) : Prop :=
  (p.transport = .udp ∨ p.transport = .tcp) ∧ p.dport = 53

/-- A word that is no verdict opens an expression. -/
theorem verdictFuel_expression (fuel : Nat) {word : Text} {rest after : List Text} {holds : Bool}
    (hword : word ≠ "accept".toList ∧ word ≠ "drop".toList ∧ word ≠ "counter".toList)
    (hread : expression p (word :: rest) = some (holds, after)) :
    verdictFuel p (fuel + 1) (word :: rest) =
      if holds = true then verdictFuel p fuel after else none := by
  rw [verdictFuel, if_neg hword.1, if_neg hword.2.1, if_neg hword.2.2, hread]
  cases holds <;> rfl

theorem verdict_ct (indent : Nat) :
    verdict p (fixed indent "ct state established,related accept").words =
      if p.ctState = .established ∨ p.ctState = .related then some .accept else none := by
  have hstates : ∀ s : CtState, (("established,related".toList.splitOn ',').any
      fun t => decide (t = s.text)) = decide (s = .established ∨ s = .related) := by
    intro s
    cases s <;> decide
  have hwords : (fixed indent "ct state established,related accept").words =
      ["ct".toList, "state".toList, "established,related".toList, "accept".toList] := rfl
  have hread : expression p ["ct".toList, "state".toList, "established,related".toList,
      "accept".toList] = some ((("established,related".toList.splitOn ',').any
        fun t => decide (t = p.ctState.text)), ["accept".toList]) := rfl
  have hexpr : verdict p ["ct".toList, "state".toList, "established,related".toList,
      "accept".toList] = _ := verdictFuel_expression _ (by decide) hread
  rw [hwords, hexpr, hstates]
  by_cases hstate : p.ctState = .established ∨ p.ctState = .related
  · simp only [hstate, decide_true, if_true]
    rfl
  · simp only [hstate, decide_false, if_false, Bool.false_eq_true]

theorem verdict_daddr (ip : Text) :
    verdict p ["ip".toList, "daddr".toList, ip, "accept".toList] =
      if (p.ipv4 && inNetwork ip p.daddr) = true then some .accept else none := by
  have hread : expression p ["ip".toList, "daddr".toList, ip, "accept".toList] =
      some ((p.ipv4 && inNetwork ip p.daddr), ["accept".toList]) := rfl
  have hexpr : verdict p ["ip".toList, "daddr".toList, ip, "accept".toList] = _ :=
    verdictFuel_expression _ (by decide) hread
  rw [hexpr]
  rfl

theorem verdict_dport (indent : Nat) :
    verdict p (fixed indent "udp dport 53 accept").words =
        (if p.transport = .udp ∧ p.dport = 53 then some .accept else none) ∧
      verdict p (fixed indent "tcp dport 53 accept").words =
        (if p.transport = .tcp ∧ p.dport = 53 then some .accept else none) := by
  -- A packet has the port when it has its digits.
  have hport : ("53".toList = Nat.toDigits 10 p.dport) ↔ p.dport = 53 := by
    constructor
    · intro h
      have hread : Nat.ofDigitChars 10 "53".toList 0 = p.dport := by
        rw [h, Nat.ofDigitChars_ten_toDigits]
      have hnumber : Nat.ofDigitChars 10 "53".toList 0 = 53 := by decide
      exact hread.symm.trans hnumber
    · intro h
      rw [h]
      decide
  have hudp : ("udp".toList = p.transport.text) ↔ p.transport = .udp := by
    cases p.transport <;> decide
  have htcp : ("tcp".toList = p.transport.text) ↔ p.transport = .tcp := by
    cases p.transport <;> decide
  have hport' : ∀ word : Text, word ≠ "accept".toList ∧ word ≠ "drop".toList ∧
      word ≠ "counter".toList → expression p [word, "dport".toList, "53".toList, "accept".toList] =
        some ((decide (word = p.transport.text) &&
          decide ("53".toList = Nat.toDigits 10 p.dport)), ["accept".toList]) →
      verdict p [word, "dport".toList, "53".toList, "accept".toList] =
        if word = p.transport.text ∧ "53".toList = Nat.toDigits 10 p.dport then some .accept
        else none := by
    intro word hword hread
    have hexpr : verdict p [word, "dport".toList, "53".toList, "accept".toList] = _ :=
      verdictFuel_expression _ hword hread
    rw [hexpr, ← Bool.decide_and]
    simp only [decide_eq_true_eq]
    rfl
  -- Both rules are read the same way, up to their first word.
  have hrule : ∀ word : Text, word = "udp".toList ∨ word = "tcp".toList →
      verdict p [word, "dport".toList, "53".toList, "accept".toList] =
        if word = p.transport.text ∧ "53".toList = Nat.toDigits 10 p.dport then some .accept
        else none := by
    rintro word (rfl | rfl)
    · have hread : expression p ["udp".toList, "dport".toList, "53".toList, "accept".toList] =
          some ((decide ("udp".toList = p.transport.text) &&
            decide ("53".toList = Nat.toDigits 10 p.dport)), ["accept".toList]) := rfl
      exact hport' _ (by decide) hread
    · have hread : expression p ["tcp".toList, "dport".toList, "53".toList, "accept".toList] =
          some ((decide ("tcp".toList = p.transport.text) &&
            decide ("53".toList = Nat.toDigits 10 p.dport)), ["accept".toList]) := rfl
      exact hport' _ (by decide) hread
  constructor
  · have hwords : (fixed indent "udp dport 53 accept").words =
        ["udp".toList, "dport".toList, "53".toList, "accept".toList] := rfl
    rw [hwords, hrule _ (.inl rfl)]
    simp only [hport, hudp]
  · have hwords : (fixed indent "tcp dport 53 accept").words =
        ["tcp".toList, "dport".toList, "53".toList, "accept".toList] := rfl
    rw [hwords, hrule _ (.inr rfl)]
    simp only [hport, htcp]

theorem verdict_drop (indent : Nat) :
    verdict p (fixed indent "counter drop").words = some .drop := rfl

/-- What both chains do with a packet of a consumer. -/
theorem forward_drops_iff (hipv4 : p.ipv4 = true) (exceptions : List Text) :
    ((forwardLines exceptions).map Line.words).findSome? (verdict p) = some .drop ↔
      ¬p.Established ∧ (¬∃ x ∈ exceptions, inNetwork x p.daddr = true) ∧ ¬p.ToPort53 := by
  have hexceptions : ∀ rest : List (List Text), ((exceptions.map fun ip =>
      (["ip".toList, "daddr".toList, ip, "accept".toList] : List Text)) ++ rest).findSome?
        (verdict p) =
      if ∃ x ∈ exceptions, inNetwork x p.daddr = true then some .accept
      else rest.findSome? (verdict p) := by
    intro rest
    induction exceptions with
    | nil => simp
    | cons x exceptions ih =>
      rw [List.map_cons, List.cons_append, List.findSome?_cons, verdict_daddr, hipv4,
        Bool.true_and, ih]
      by_cases hx : inNetwork x p.daddr = true
      · simp [hx]
      · simp [hx]
  have hlines : (forwardLines exceptions).map Line.words =
      (fixed 4 "ct state established,related accept").words ::
        ((exceptions.map fun ip => ["ip".toList, "daddr".toList, ip, "accept".toList]) ++
          [(fixed 4 "udp dport 53 accept").words, (fixed 4 "tcp dport 53 accept").words,
            (fixed 4 "counter drop").words]) := by
    simp only [forwardLines, List.map_append, List.map_map]
    rfl
  rw [hlines, List.findSome?_cons, verdict_ct, hexceptions]
  simp only [List.findSome?_cons, (verdict_dport 4).1, (verdict_dport 4).2, verdict_drop]
  unfold Packet.Established Packet.ToPort53
  by_cases hstate : p.ctState = .established ∨ p.ctState = .related
  · simp [hstate]
  · by_cases hexception : ∃ x ∈ exceptions, inNetwork x p.daddr = true
    · simp only [hstate, hexception, if_true, if_false, not_true_eq_false, false_and, and_false,
        iff_false, Option.some.injEq]
      simp
    · simp only [hstate, hexception, if_false, not_false_eq_true, true_and]
      by_cases hport : p.dport = 53
      · cases p.transport <;> simp [hport]
      · simp [hport]

/-! ## Section 7: The packet filter's sources -/

/-- The words of a set, read without their commas. -/
theorem commaWords_values {values : List Text} (h : ∀ v ∈ values, ',' ∉ v) :
    (commaWords values).map (fun e => e.filter (· ≠ ',')) = values := by
  have hplain : ∀ v ∈ values, v.filter (· ≠ ',') = v := by
    intro v hv
    rw [List.filter_eq_self]
    intro c hc
    rw [decide_eq_true_eq]
    rintro rfl
    exact h v hv hc
  unfold commaWords
  rw [List.map_append, List.map_map]
  cases hlast : values.getLast? with
  | none =>
    rw [List.getLast?_eq_none_iff] at hlast
    rw [hlast]
    rfl
  | some last =>
    have hsplit := List.dropLast_append_getLast? last hlast
    have hinit : values.dropLast.map ((fun e : Text => e.filter (· ≠ ',')) ∘ (· ++ [','])) =
        values.dropLast := by
      refine (List.map_congr_left fun v hv => ?_).trans (List.map_id _)
      show (v ++ [',']).filter (· ≠ ',') = v
      rw [List.filter_append, hplain v (List.dropLast_subset values hv)]
      simp
    rw [hinit]
    have hmem : last ∈ values := List.mem_of_getLast? hlast
    show values.dropLast ++ [last.filter (· ≠ ',')] = values
    rw [hplain last hmem]
    exact hsplit

theorem comma_not_mem_address {value : Text} {ip : Nat} (h : ipv4? value = some ip) :
    ',' ∉ value := by
  intro hmem
  rcases mem_ipv4 h hmem with hdot | hdigit
  · simp at hdot
  · simp at hdigit

/-- A comma or a dot apart, the words of a set of addresses hold digits. -/
theorem commaWords_ne {values : List Text} (h : ∀ v ∈ values, ∃ ip, ipv4? v = some ip)
    (brace : Char) (hbrace : brace ≠ ',' ∧ brace ≠ '.' ∧ brace.isDigit = false) :
    ∀ w ∈ commaWords values, w ≠ [brace] := by
  have hchar : ∀ v ∈ values, brace ∉ v := by
    intro v hv hmem
    obtain ⟨ip, hip⟩ := h v hv
    rcases mem_ipv4 hip hmem with hdot | hdigit
    · exact hbrace.2.1 hdot
    · rw [hbrace.2.2] at hdigit
      simp at hdigit
  intro w hw heq
  have hmem : brace ∈ w := by
    rw [heq]
    exact List.mem_singleton_self _
  unfold commaWords at hw
  rcases List.mem_append.1 hw with hinit | hlast
  · obtain ⟨v, hv, rfl⟩ := List.mem_map.1 hinit
    rcases List.mem_append.1 hmem with hmem | hmem
    · exact hchar v (List.dropLast_subset values hv) hmem
    · exact hbrace.1 (List.mem_singleton.1 hmem)
  · have hv : w ∈ values := List.mem_of_getLast? (Option.mem_toList.1 hlast)
    exact hchar w hv hmem

/-- The rule that lets everything pass that no consumer sends. -/
theorem verdictFuel_saddr (hipv4 : p.ipv4 = true) {sources : List Text}
    (h : ∀ v ∈ sources, ∃ ip, ipv4? v = some ip) (fuel : Nat) :
    verdictFuel p (fuel + 2)
        (["ip".toList, "saddr".toList, "!=".toList] ++ setWords sources ++ ["accept".toList]) =
      if ∃ v ∈ sources, ipv4? v = some p.saddr then none else some .accept := by
  have hne := commaWords_ne h '\x7d' (by decide)
  have hall : ∀ w ∈ commaWords sources, decide (w ≠ "\x7d".toList) = true := by
    intro w hw
    exact decide_eq_true (hne w hw)
  have hset : ["ip".toList, "saddr".toList, "!=".toList] ++ setWords sources ++ ["accept".toList] =
      "ip".toList :: "saddr".toList :: "!=".toList :: "\x7b".toList ::
        (commaWords sources ++ ["\x7d".toList, "accept".toList]) := by
    simp [setWords]
  have hvalues : (commaWords sources).map (fun e => e.filter (· ≠ ',')) = sources := by
    refine commaWords_values fun v hv => ?_
    obtain ⟨ip, hip⟩ := h v hv
    exact comma_not_mem_address hip
  have hread : expression p ("ip".toList :: "saddr".toList :: "!=".toList :: "\x7b".toList ::
      (commaWords sources ++ ["\x7d".toList, "accept".toList])) =
      some ((p.ipv4 && !(((commaWords sources ++ ["\x7d".toList, "accept".toList]).takeWhile
        (· ≠ "\x7d".toList)).map fun e => e.filter (· ≠ ',')).any fun e => ipv4? e = some p.saddr),
        ((commaWords sources ++ ["\x7d".toList, "accept".toList]).dropWhile
          (· ≠ "\x7d".toList)).tail) := rfl
  rw [hset, verdictFuel_expression _ (by decide) hread, List.takeWhile_append_of_pos hall,
    List.dropWhile_append_of_pos hall, List.takeWhile_cons_of_neg (by decide), List.dropWhile_cons_of_neg (by decide),
    List.append_nil, hvalues, hipv4, Bool.true_and]
  by_cases hsource : ∃ v ∈ sources, ipv4? v = some p.saddr
  · have hany : (sources.any fun e => decide (ipv4? e = some p.saddr)) = true := by
      simpa using hsource
    rw [if_pos hsource, hany]
    rfl
  · have hany : (sources.any fun e => decide (ipv4? e = some p.saddr)) = false := by
      simpa using hsource
    rw [if_neg hsource, hany]
    rfl

end Filter

/-! ## Section 8: The packet filter's chains, read back -/

section Chains

variable {sources exceptions : List Text}

/-- Every rule ends in a verdict. -/
def EndsInVerdict (l : Line) : Prop :=
  l.words.getLast? = some "accept".toList ∨ l.words.getLast? = some "drop".toList

theorem plain_setWords (hsources : ∀ v ∈ sources, ∃ ip, ipv4? v = some ip) :
    ∀ w ∈ setWords sources, Plain w := by
  have hplain : ∀ v ∈ sources, Plain v := by
    intro v hv
    obtain ⟨ip, hip⟩ := hsources v hv
    exact plain_address hip
  intro w hw
  unfold setWords commaWords at hw
  simp only [List.mem_append, List.mem_singleton] at hw
  rcases hw with (rfl | hinit | hlast) | rfl
  · exact ⟨by decide, by decide, by decide⟩
  · obtain ⟨v, hv, rfl⟩ := List.mem_map.1 hinit
    exact plain_append (hplain v (List.dropLast_subset sources hv)) ⟨by decide, by decide⟩
  · exact hplain w (List.mem_of_getLast? (Option.mem_toList.1 hlast))
  · exact ⟨by decide, by decide, by decide⟩

theorem forwardLines_ok (hexceptions : ∀ x ∈ exceptions, Plain x) :
    ∀ l ∈ forwardLines exceptions, l.Plain ∧ EndsInVerdict l := by
  intro l hl
  unfold forwardLines at hl
  simp only [List.mem_append, List.mem_cons, List.not_mem_nil, or_false, List.mem_map] at hl
  rcases hl with (rfl | ⟨x, hx, rfl⟩) | rfl | rfl | rfl
  · exact ⟨plain_fixed 4 (by decide), .inl rfl⟩
  · refine ⟨?_, .inl rfl⟩
    intro word hword
    simp only [List.mem_cons, List.not_mem_nil, or_false] at hword
    rcases hword with rfl | rfl | rfl | rfl
    · exact ⟨by decide, by decide, by decide⟩
    · exact ⟨by decide, by decide, by decide⟩
    · exact hexceptions _ hx
    · exact ⟨by decide, by decide, by decide⟩
  · exact ⟨plain_fixed 4 (by decide), .inl rfl⟩
  · exact ⟨plain_fixed 4 (by decide), .inl rfl⟩
  · exact ⟨plain_fixed 4 (by decide), .inr rfl⟩

/-- A rule of plain words in front of a set of sources. -/
theorem saddrLine_ok (hsources : ∀ v ∈ sources, ∃ ip, ipv4? v = some ip) {words : List Text}
    (hwords : ∀ w ∈ words, Plain w) :
    Line.Plain ⟨4, words ++ setWords sources ++ ["accept".toList]⟩ ∧
      EndsInVerdict ⟨4, words ++ setWords sources ++ ["accept".toList]⟩ := by
  constructor
  · intro word hword
    simp only [List.mem_append, List.mem_singleton] at hword
    rcases hword with (hword | hword) | rfl
    · exact hwords word hword
    · exact plain_setWords hsources word hword
    · exact ⟨by decide, by decide, by decide⟩
  · left
    show (words ++ setWords sources ++ ["accept".toList]).getLast? = _
    rw [List.getLast?_concat]

theorem inetRules_ok (hsources : ∀ v ∈ sources, ∃ ip, ipv4? v = some ip)
    (hexceptions : ∀ x ∈ exceptions, Plain x) :
    ∀ l ∈ inetRules sources exceptions, l.Plain ∧ EndsInVerdict l := by
  intro l hl
  unfold inetRules at hl
  split at hl
  · simp at hl
  · rcases List.mem_cons.1 hl with rfl | hl
    · refine saddrLine_ok hsources fun w hw => ?_
      simp only [List.mem_cons, List.not_mem_nil, or_false] at hw
      rcases hw with rfl | rfl | rfl <;> exact ⟨by decide, by decide, by decide⟩
    · exact forwardLines_ok hexceptions l hl

theorem bridgeRules_ok (hsources : ∀ v ∈ sources, ∃ ip, ipv4? v = some ip)
    (hexceptions : ∀ x ∈ exceptions, Plain x) :
    ∀ l ∈ bridgeRules sources exceptions, l.Plain ∧ EndsInVerdict l := by
  intro l hl
  unfold bridgeRules at hl
  split at hl
  · simp at hl
  · rcases List.mem_cons.1 hl with rfl | hl
    · exact ⟨plain_fixed 4 (by decide), .inl rfl⟩
    · rcases List.mem_cons.1 hl with rfl | hl
      · refine saddrLine_ok hsources fun w hw => ?_
        simp only [List.mem_cons, List.not_mem_nil, or_false] at hw
        rcases hw with rfl | rfl | rfl | rfl | rfl | rfl <;>
          exact ⟨by decide, by decide, by decide⟩
      · exact forwardLines_ok hexceptions l hl

/-- A line that ends in a verdict closes no chain and opens no table. -/
theorem ne_of_endsInVerdict {l : Line} (h : EndsInVerdict l) :
    l.words ≠ ["\x7d".toList] ∧ l.words ≠ ["table".toList, "bridge".toList, "lares_egress".toList,
      "\x7b".toList] := by
  constructor
  · intro heq
    rw [EndsInVerdict, heq] at h
    revert h
    decide
  · intro heq
    rw [EndsInVerdict, heq] at h
    revert h
    decide

theorem readWords_nft (hsources : ∀ v ∈ sources, ∃ ip, ipv4? v = some ip)
    (hexceptions : ∀ x ∈ exceptions, Plain x) :
    readWords (document (nftLines sources exceptions)) =
      (nftLines sources exceptions).map Line.words ++ [[]] := by
  refine readWords_document (by simp [nftLines]) fun l hl => ?_
  unfold nftLines at hl
  simp only [List.mem_append, List.mem_cons, List.not_mem_nil, or_false] at hl
  rcases hl with ((((hfixed | hrule) | hfixed) | hfixed) | hrule) | hfixed
  · rcases hfixed with rfl | rfl | rfl | rfl | rfl | rfl <;> exact plain_fixed _ (by decide)
  · exact (inetRules_ok hsources hexceptions l hrule).1
  · rcases hfixed with rfl | rfl <;> exact plain_fixed _ (by decide)
  · rcases hfixed with rfl | rfl | rfl | rfl | rfl <;> exact plain_fixed _ (by decide)
  · exact (bridgeRules_ok hsources hexceptions l hrule).1
  · rcases hfixed with rfl | rfl <;> exact plain_fixed _ (by decide)

/-- The rules of a chain end where its brace closes. -/
theorem takeWhile_rules {rules : List Line} (hrules : ∀ l ∈ rules, EndsInVerdict l)
    (rest : List (List Text)) :
    (rules.map Line.words ++ ["\x7d".toList] :: rest).takeWhile (· ≠ ["\x7d".toList]) =
      rules.map Line.words := by
  rw [List.takeWhile_append_of_pos, List.takeWhile_cons_of_neg (by decide), List.append_nil]
  intro words hwords
  obtain ⟨l, hl, rfl⟩ := List.mem_map.1 hwords
  exact decide_eq_true (ne_of_endsInVerdict (hrules l hl)).1

theorem forwardChain_inet (hsources : ∀ v ∈ sources, ∃ ip, ipv4? v = some ip)
    (hexceptions : ∀ x ∈ exceptions, Plain x) :
    forwardChain "inet".toList (readWords (document (nftLines sources exceptions))) =
      (fixed 4 "type filter hook forward priority -10; policy accept;").words ::
        (inetRules sources exceptions).map Line.words := by
  have hrules := takeWhile_rules (fun l hl => (inetRules_ok hsources hexceptions l hl).2)
    (["\x7d".toList] :: ([fixed 0 "add table bridge lares_egress",
      fixed 0 "delete table bridge lares_egress", fixed 0 "table bridge lares_egress \x7b",
      fixed 2 "chain forward \x7b",
      fixed 4 "type filter hook forward priority filter; policy accept;"].map Line.words ++
      ((bridgeRules sources exceptions).map Line.words ++
        [["\x7d".toList], ["\x7d".toList], []])))
  rw [readWords_nft hsources hexceptions, ← hrules]
  unfold nftLines
  simp only [List.map_append, List.append_assoc]
  rfl

theorem forwardChain_bridge (hsources : ∀ v ∈ sources, ∃ ip, ipv4? v = some ip)
    (hexceptions : ∀ x ∈ exceptions, Plain x) :
    forwardChain "bridge".toList (readWords (document (nftLines sources exceptions))) =
      (fixed 4 "type filter hook forward priority filter; policy accept;").words ::
        (bridgeRules sources exceptions).map Line.words := by
  have hrules := takeWhile_rules (fun l hl => (bridgeRules_ok hsources hexceptions l hl).2)
    [["\x7d".toList], []]
  rw [readWords_nft hsources hexceptions, ← hrules]
  unfold nftLines forwardChain
  simp only [List.map_append, List.append_assoc]
  -- the table of the other family is passed over
  rw [List.dropWhile_append_of_pos (by decide), List.dropWhile_append_of_pos]
  · rfl
  · intro words hwords
    obtain ⟨l, hl, rfl⟩ := List.mem_map.1 hwords
    exact decide_eq_true (ne_of_endsInVerdict (inetRules_ok hsources hexceptions l hl).2).2

/-! ## Section 9: The packet filter's decision -/

variable {p : Packet}

/-- What both chains drop. -/
def Drops (sources exceptions : List Text) (p : Packet) : Prop :=
  (∃ v ∈ sources, ipv4? v = some p.saddr) ∧ ¬p.Established ∧
    (¬∃ x ∈ exceptions, inNetwork x p.daddr = true) ∧ ¬p.ToPort53

/-- A rule that lets strangers pass, in front of the rules for consumers. -/
theorem saddr_then_forward (hipv4 : p.ipv4 = true) {rule : List Text}
    (hrule : verdict p rule =
      if ∃ v ∈ sources, ipv4? v = some p.saddr then none else some .accept) :
    (rule :: (forwardLines exceptions).map Line.words).findSome? (verdict p) = some .drop ↔
      Drops sources exceptions p := by
  unfold Drops
  rw [List.findSome?_cons]
  by_cases hsource : ∃ v ∈ sources, ipv4? v = some p.saddr
  · rw [hrule, if_pos hsource]
    dsimp only
    rw [forward_drops_iff hipv4]
    exact (and_iff_right hsource).symm
  · rw [hrule, if_neg hsource]
    simp [hsource]

theorem not_drops_nil (hempty : sources.isEmpty = true) : ¬Drops sources exceptions p := by
  rintro ⟨⟨v, hv, -⟩, -⟩
  rw [List.isEmpty_iff.1 hempty] at hv
  simp at hv

theorem inet_drops_iff (hsources : ∀ v ∈ sources, ∃ ip, ipv4? v = some ip)
    (hexceptions : ∀ x ∈ exceptions, Plain x) (hipv4 : p.ipv4 = true) :
    nftDrops "inet".toList (document (nftLines sources exceptions)) p = true ↔
      Drops sources exceptions p := by
  have htype : verdict p (fixed 4 "type filter hook forward priority -10; policy accept;").words =
      none := rfl
  unfold nftDrops
  rw [forwardChain_inet hsources hexceptions, List.findSome?_cons, htype, decide_eq_true_eq]
  dsimp only
  unfold inetRules
  by_cases hempty : sources.isEmpty = true
  · rw [if_pos hempty]
    exact iff_of_false (by simp) (not_drops_nil hempty)
  · rw [if_neg hempty, List.map_cons]
    refine saddr_then_forward hipv4 ?_
    have hlength : (["ip".toList, "saddr".toList, "!=".toList] ++ setWords sources ++
        ["accept".toList]).length = ((setWords sources).length + 2) + 2 := by
      simp [List.length_append]
    rw [verdict, hlength]
    exact verdictFuel_saddr hipv4 hsources _

theorem bridge_drops_iff (hsources : ∀ v ∈ sources, ∃ ip, ipv4? v = some ip)
    (hexceptions : ∀ x ∈ exceptions, Plain x) (hipv4 : p.ipv4 = true) :
    nftDrops "bridge".toList (document (nftLines sources exceptions)) p = true ↔
      Drops sources exceptions p := by
  have htype : verdict p
      (fixed 4 "type filter hook forward priority filter; policy accept;").words = none := rfl
  have hether : verdict p (fixed 4 "ether type != ip accept").words = none := by
    have hwords : (fixed 4 "ether type != ip accept").words =
        ["ether".toList, "type".toList, "!=".toList, "ip".toList, "accept".toList] := rfl
    have hread : expression p ["ether".toList, "type".toList, "!=".toList, "ip".toList,
        "accept".toList] =
          some (decide (some "ip".toList ≠ some "ip".toList) || !p.ipv4, ["accept".toList]) := rfl
    have hexpr : verdict p ["ether".toList, "type".toList, "!=".toList, "ip".toList,
        "accept".toList] = _ := verdictFuel_expression _ (by decide) hread
    rw [hwords, hexpr, hipv4]
    rfl
  unfold nftDrops
  rw [forwardChain_bridge hsources hexceptions, List.findSome?_cons, htype, decide_eq_true_eq]
  dsimp only
  unfold bridgeRules
  by_cases hempty : sources.isEmpty = true
  · rw [if_pos hempty]
    exact iff_of_false (by simp) (not_drops_nil hempty)
  · rw [if_neg hempty, List.map_cons, List.findSome?_cons, hether]
    dsimp only
    rw [List.map_cons]
    refine saddr_then_forward hipv4 ?_
    have hlength : (["ether".toList, "type".toList, "ip".toList, "ip".toList, "saddr".toList,
        "!=".toList] ++ setWords sources ++ ["accept".toList]).length =
          ((setWords sources).length + 4) + 2 + 1 := by
      simp [List.length_append]
    rw [verdict, hlength, ← verdictFuel_saddr hipv4 hsources ((setWords sources).length + 4)]
    -- the type of the frame matches, and the rule for the sources is what is left
    have hread : expression p (["ether".toList, "type".toList, "ip".toList, "ip".toList,
        "saddr".toList, "!=".toList] ++ setWords sources ++ ["accept".toList]) =
        some (true && p.ipv4, ["ip".toList, "saddr".toList, "!=".toList] ++
          setWords sources ++ ["accept".toList]) := rfl
    have hexpr := verdictFuel_expression ((setWords sources).length + 4 + 2) (by decide) hread
    refine hexpr.trans ?_
    rw [hipv4]
    exact if_pos rfl

end Chains

/-! ## Section 10: The inventory -/

theorem exists_fits {entries : List Entry} {consumers : List Consumer}
    (h : List.Forall₂ Fits entries consumers) :
    (∀ e ∈ entries, ∃ c ∈ consumers, Fits e c) ∧ ∀ c ∈ consumers, ∃ e ∈ entries, Fits e c := by
  induction h with
  | nil => exact ⟨by simp, by simp⟩
  | @cons e c entries consumers hfits hrest ih =>
    constructor
    · intro e' he'
      rcases List.mem_cons.1 he' with rfl | he'
      · exact ⟨c, List.mem_cons_self, hfits⟩
      · obtain ⟨c', hc', hfits'⟩ := ih.1 e' he'
        exact ⟨c', List.mem_cons_of_mem c hc', hfits'⟩
    · intro c' hc'
      rcases List.mem_cons.1 hc' with rfl | hc'
      · exact ⟨e, List.mem_cons_self, hfits⟩
      · obtain ⟨e', he', hfits'⟩ := ih.2 c' hc'
        exact ⟨e', List.mem_cons_of_mem e he', hfits'⟩

theorem addresses_eq {entries : List Entry} {consumers : List Consumer}
    (h : List.Forall₂ Fits entries consumers) :
    entries.map Entry.address = consumers.map Consumer.address := by
  induction h with
  | nil => rfl
  | cons hfits _ ih => rw [List.map_cons, List.map_cons, ih, hfits.address]

/-- Under different addresses, the entry with a source is the only one. -/
theorem filter_source {entries : List Entry} (hnodup : (entries.map Entry.address).Nodup)
    {e : Entry} (he : e ∈ entries) {source : Nat} (hip : ipv4? e.address = some source) :
    entries.filter (fun e => ipv4? e.address = some source) = [e] := by
  obtain ⟨before, after, rfl⟩ := List.append_of_mem he
  rw [List.map_append, List.map_cons, List.nodup_append, List.nodup_cons] at hnodup
  obtain ⟨-, ⟨hafter, -⟩, hbefore⟩ := hnodup
  have hother : ∀ d : Entry, d.address ≠ e.address → ¬ipv4? d.address = some source := by
    intro d hne hd
    exact hne (ipv4?_injective hd hip)
  rw [List.filter_append, List.filter_cons_of_pos (by simpa using hip)]
  have hnone : before.filter (fun d => ipv4? d.address = some source) = [] := by
    rw [List.filter_eq_nil_iff]
    intro d hd
    rw [decide_eq_true_eq]
    exact hother d (hbefore _ (List.mem_map_of_mem hd) _ List.mem_cons_self)
  have hnone' : after.filter (fun d => ipv4? d.address = some source) = [] := by
    rw [List.filter_eq_nil_iff]
    intro d hd
    rw [decide_eq_true_eq]
    refine hother d ?_
    intro heq
    exact hafter (heq ▸ List.mem_map_of_mem hd)
  rw [hnone, hnone']
  rfl

/-- A connection to a host that the one consumer with its source owns. -/
def Allowed (pf : Platform) (inv : Inventory) (r : Request) : Prop :=
  r.method = "CONNECT".toList ∧ r.port = 443 ∧
    ∃ e, (inv.entries pf).filter (fun e => ipv4? e.address = some r.source) = [e] ∧
      ∃ own, e.owns own ∧ matchesDomain own r.host = true

/-- A packet of a consumer that no exception is for. -/
def Sealed (pf : Platform) (inv : Inventory) (p : Packet) : Prop :=
  (∃ e ∈ inv.entries pf, ipv4? e.address = some p.saddr) ∧ ¬p.Established ∧
    (¬∃ x ∈ inv.options.internalNetworks ++ inv.options.directDestinations,
      inNetwork x p.daddr = true) ∧ ¬p.ToPort53

/-- The generated rules decide what the inventory says, and leaving out covered hosts changes
    nothing. -/
theorem generateEgress_exact (pf : Platform) (inv : Inventory) (out : GeneratedRules)
    (h : generateEgress pf inv = .ok out) :
    (∀ r, squidAllows out.squid r = true ↔ Allowed pf inv r) ∧
    (∀ p, p.ipv4 = true → (nftDrops "inet".toList out.nft p = true ↔ Sealed pf inv p) ∧
      (nftDrops "bridge".toList out.nft p = true ↔ Sealed pf inv p)) ∧
    ∃ filled, draft pf inv = .ok filled ∧
      out.squid = document (squidLines domains (byName pf filled.consumers)) ∧
      ∀ r, squidAllows (document (squidLines Consumer.hosts (byName pf filled.consumers))) r =
        squidAllows out.squid r := by
  unfold generateEgress at h
  obtain ⟨filled, hdraft, h⟩ := bind_eq_ok.1 h
  obtain ⟨exceptions, hexceptions, h⟩ := bind_eq_ok.1 h
  -- Every entry of the inventory has its consumer in the draft, and every consumer its entry.
  obtain ⟨entries, hperm, hfilled⟩ := draft_filled hdraft
  obtain rfl := Except.ok.inj h
  obtain ⟨hentry, hconsumer⟩ := exists_fits hfilled.fits
  have hsort : (byName pf filled.consumers).Perm filled.consumers := List.perm_insertionSort _ _
  have hvalid : ∀ c ∈ byName pf filled.consumers, c.Valid := by
    intro c hc
    obtain ⟨e, -, hfits⟩ := hconsumer c (hsort.mem_iff.1 hc)
    exact hfits.valid
  have hnames : ((byName pf filled.consumers).map Consumer.name).Nodup :=
    (hsort.map Consumer.name).nodup_iff.2 hfilled.names
  -- The proxy is given the domains that no other covers; they match the same hosts.
  have hdomains : ∀ r, squidAllows (document (squidLines domains (byName pf filled.consumers))) r =
      true ↔ r.method = "CONNECT".toList ∧ r.port = 443 ∧ ∃ c ∈ byName pf filled.consumers,
        ipv4? c.address = some r.source ∧ ∃ entry ∈ c.hosts, matchesDomain entry r.host = true := by
    intro r
    have hsubset : ∀ c ∈ byName pf filled.consumers, domains c ⊆ c.hosts :=
      fun c _ => List.filter_sublist.subset
    rw [squidAllows_iff hvalid hnames hsubset]
    refine and_congr_right fun _ => and_congr_right fun _ => exists_congr fun c => ?_
    refine and_congr_right fun hc => and_congr_right fun _ => ?_
    exact domains_match_iff (hvalid c hc) r.host
  refine ⟨fun r => ?_, fun p hipv4 => ?_, filled, hdraft, rfl, fun r => ?_⟩
  · -- the consumer with the source, and its entry
    have haddresses : ((inv.entries pf).map Entry.address).Nodup := by
      rw [← (hperm.map Entry.address).nodup_iff, addresses_eq hfilled.fits]
      exact hfilled.addresses
    rw [hdomains]
    refine and_congr_right fun _ => and_congr_right fun _ => ?_
    constructor
    · rintro ⟨c, hc, hip, own, hown, hmatch⟩
      obtain ⟨e, he, hfits⟩ := hconsumer c (hsort.mem_iff.1 hc)
      rw [hfits.address] at hip
      exact ⟨e, filter_source haddresses (hperm.mem_iff.1 he) hip, own, (hfits.hosts own).1 hown,
        hmatch⟩
    · rintro ⟨e, hfilter, own, hown, hmatch⟩
      have he : e ∈ (inv.entries pf).filter fun e => ipv4? e.address = some r.source := by
        rw [hfilter]
        exact List.mem_singleton_self e
      obtain ⟨hmem, hip⟩ := List.mem_filter.1 he
      obtain ⟨c, hc, hfits⟩ := hentry e (hperm.mem_iff.2 hmem)
      rw [decide_eq_true_eq, ← hfits.address] at hip
      exact ⟨c, hsort.mem_iff.2 hc, hip, own, (hfits.hosts own).2 hown, hmatch⟩
  · -- The firewall: sources and exceptions are those of the inventory, sorted.
    obtain ⟨hsame, hok⟩ := mapM_check (fun x y hxy => (destination_eq_ok hxy).1) hexceptions
    have hsources : ∀ v ∈ sorted (filled.consumers.map Consumer.address), ∃ ip,
        ipv4? v = some ip := by
      intro v hv
      obtain ⟨c, hc, rfl⟩ := List.mem_map.1 (mem_sorted.1 hv)
      exact (hvalid c (hsort.mem_iff.2 hc)).address
    have hplain : ∀ x ∈ sorted exceptions, Plain x := by
      intro x hx
      exact (destination_eq_ok (hok x ((hsame x).1 (mem_sorted.1 hx)))).2
    have hsealed : Drops (sorted (filled.consumers.map Consumer.address)) (sorted exceptions) p ↔
        Sealed pf inv p := by
      have hsource : (∃ v ∈ sorted (filled.consumers.map Consumer.address),
          ipv4? v = some p.saddr) ↔ ∃ e ∈ inv.entries pf, ipv4? e.address = some p.saddr := by
        constructor
        · rintro ⟨v, hv, hip⟩
          rw [mem_sorted, ← addresses_eq hfilled.fits] at hv
          obtain ⟨e, he, rfl⟩ := List.mem_map.1 hv
          exact ⟨e, hperm.mem_iff.1 he, hip⟩
        · rintro ⟨e, he, hip⟩
          refine ⟨e.address, ?_, hip⟩
          rw [mem_sorted, ← addresses_eq hfilled.fits]
          exact List.mem_map_of_mem (hperm.mem_iff.2 he)
      have hexception : ∀ x, x ∈ sorted exceptions ↔
          x ∈ inv.options.internalNetworks ++ inv.options.directDestinations :=
        fun x => mem_sorted.trans (hsame x)
      unfold Drops Sealed
      rw [hsource]
      simp only [hexception]
    constructor
    · rw [← hsealed]
      exact inet_drops_iff hsources hplain hipv4
    · rw [← hsealed]
      exact bridge_drops_iff hsources hplain hipv4
  · rw [Bool.eq_iff_iff, hdomains, squidAllows_iff hvalid hnames (fun c _ => List.Subset.refl _)]

/-- An agent with a door and a host under it. -/
def smallInventory : Inventory where
  agents := [⟨"alpha".toList, "10.0.0.4".toList, [⟨"notion".toList, "read".toList⟩],
    [⟨"slack".toList, true⟩], ["files.slack.com".toList], []⟩]
  options := ⟨fun _ => none, [], [], ["10.0.0.0/8".toList], [], []⟩

def smallPlatform : Platform where
  newUrl _ := none
  localeCompare a b := if a < b then -1 else if b < a then 1 else 0
  capabilityDocs c := if c = "notion".toList then some ⟨["api.notion.com".toList], none⟩ else none

def smallConsumer : Consumer :=
  ⟨"alpha".toList, "10.0.0.4".toList, [".slack-files.com".toList, ".slack.com".toList,
    "api.notion.com".toList, "files.slack.com".toList]⟩

def smallRules : GeneratedRules where
  squid := document (squidLines domains [smallConsumer])
  nft := document (nftLines ["10.0.0.4".toList] ["10.0.0.0/8".toList])
  perAgent := [("alpha".toList, smallConsumer.hosts)]
  skipped := []

/-- Of the small inventory. -/
theorem generateEgress_exact_small :
    (∀ r, squidAllows smallRules.squid r = true ↔ Allowed smallPlatform smallInventory r) ∧
    (∀ p, p.ipv4 = true →
      (nftDrops "inet".toList smallRules.nft p = true ↔ Sealed smallPlatform smallInventory p) ∧
      (nftDrops "bridge".toList smallRules.nft p = true ↔ Sealed smallPlatform smallInventory p)) ∧
    ∃ filled, draft smallPlatform smallInventory = .ok filled ∧
      smallRules.squid =
        document (squidLines domains (byName smallPlatform filled.consumers)) ∧
      ∀ r, squidAllows (document (squidLines Consumer.hosts
          (byName smallPlatform filled.consumers))) r = squidAllows smallRules.squid r :=
  generateEgress_exact smallPlatform smallInventory smallRules (by rfl)

end Lares.Keeper.Egress
