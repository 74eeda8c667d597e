import Lares.Framework.Lines
import Lares.Framework.WordLines
import Mathlib

/-! # Generated egress rules

    The keeper writes a proxy configuration (squid) and a packet filter (nft)
    from the inventory of agents and other consumers.

    * **Hosts** of a consumer come from its infrastructure, outside tools,
      grants, configured endpoints and doors.
    * **Checks** of names, addresses, hosts and networks keep blanks and breaks
      out of the rules.
    * **Rules** are lines of words; their order is their meaning.
-/

namespace Lares.Keeper.Egress

open WordLines

/-! ## Section 1: Addresses and hosts -/

/-- A number from 0 to 255 without leading zeros. -/
def octet? (part : Text) : Option Nat :=
  let n := Nat.ofDigitChars 10 part 0
  if part = Nat.toDigits 10 n ∧ n ≤ 255 then some n else none

/-- The address that a dotted text stands for; `isIP(value) === 4` when there is one -/
def ipv4? (value : Text) : Option Nat :=
  match (value.splitOn '.').map octet? with
  | [some a, some b, some c, some d] => some (((a * 256 + b) * 256 + c) * 256 + d)
  | _ => none

/-- `[a-z0-9](?:[a-z0-9-]{0,61}[a-z0-9])?` -/
def isLabel (label : Text) : Bool :=
  label.length ≤ 63 && label.all (fun c => Lines.isLowerAlnum c || c = '-') &&
    label.head?.any Lines.isLowerAlnum && label.getLast?.any Lines.isLowerAlnum

/-- Labels between dots, two at least -/
def isDomain (domain : Text) : Bool :=
  2 ≤ (domain.splitOn '.').length && (domain.splitOn '.').all isLabel

def EXISTING_SUFFIXES : List Text :=
  [".googleapis.com".toList, ".slack.com".toList, ".slack-files.com".toList]

def isDotted (value : Text) : Bool := value.head? = some '.'

/-- What stands after the leading dot, if there is one. -/
def domainOf (value : Text) : Text := if isDotted value then value.tail else value

def host (value : Text) : Except Text Text :=
  if (isDotted value && !EXISTING_SUFFIXES.any fun suffix => suffix = value) ||
      253 < (domainOf value).length || !isDomain (domainOf value) ||
      (ipv4? (domainOf value)).isSome then
    .error ("Invalid egress host: ".toList ++ value)
  else .ok value

def address (value : Text) : Except Text Text :=
  if (ipv4? value).isNone then .error ("Invalid egress IPv4 address: ".toList ++ value)
  else .ok value

/-- `/^[1-9][0-9]?$/`, and at most 32 -/
def isPrefixLength (part : Text) : Bool :=
  (part.length = 1 || part.length = 2) && part.all Char.isDigit && part.head? ≠ some '0' &&
    Nat.ofDigitChars 10 part 0 ≤ 32

def destination (value : Text) : Except Text Text :=
  match value.splitOn '/' with
  | [base] => do
    let _ ← address base
    return value
  | [base, length] => do
    let _ ← address base
    if isPrefixLength length then return value
    else .error ("Invalid egress IPv4 network: ".toList ++ value)
  | base :: _ => do
    let _ ← address base
    .error ("Invalid egress IPv4 network: ".toList ++ value)
  | [] => .ok value

/-- What `new URL` answers. -/
structure Url where
  protocol : Text
  username : Text
  password : Text
  hostname : Text
  port : Text
  hash : Text

def endpointHost (newUrl : Text → Option Url) (value : Text) : Except Text Text :=
  if value.any fun c => Lines.isSpace c || c = '\\' then .error "Invalid egress endpoint".toList
  else match newUrl value with
    | none => .error "Invalid URL".toList
    | some url =>
      if url.protocol ≠ "https:".toList ∨ url.username ≠ [] ∨ url.password ≠ [] ∨ url.port ≠ [] ∨
          url.hash ≠ [] then
        .error ("Egress proxy endpoints require HTTPS port 443 without credentials or " ++
          "fragment").toList
      else host url.hostname

/-! ## Section 2: The inventory -/

inductive Endpoint
  | readabilityUrl
  | twentyBaseUrl

/-- What the capability's doc says of the network. -/
structure CapabilityDoc where
  hosts : List Text
  endpoint : Option Endpoint

/-- The platform and the table of capabilities. -/
structure Platform where
  newUrl : Text → Option Url
  localeCompare : Text → Text → Int
  capabilityDocs : Text → Option CapabilityDoc

structure Grant where
  capability : Text
  scope : Text

structure Door where
  kind : Text
  enabled : Bool

structure EgressAgent where
  name : Text
  address : Text
  /-- What it may do, and so where it must get to. -/
  grants : List Grant
  /-- The channels it listens on. -/
  doors : List Door
  /-- What its runtime depends on. -/
  infrastructureHosts : List Text
  /-- The hosts of its outside tools. -/
  outsideHosts : List Text

structure LegacyConsumer where
  name : Text
  address : Text
  hosts : List Text

structure ManagedService where
  name : Text
  address : Text
  hosts : List Text
  endpoints : List Text

structure EgressOptions where
  /-- The URL of an integration, if it is connected. -/
  endpoints : Endpoint → Option Text
  legacyConsumers : List LegacyConsumer
  managedServices : List ManagedService
  /-- Networks that are not sealed off. -/
  internalNetworks : List Text
  /-- Addresses that are reached without the proxy. -/
  directDestinations : List Text
  /-- Agents whose unknown grants are skipped. -/
  tolerateUnknownGrantsFor : List Text

structure Inventory where
  agents : List EgressAgent
  options : EgressOptions

/-! ## Section 3: Consumers -/

structure Consumer where
  name : Text
  address : Text
  hosts : List Text

structure Skipped where
  agent : Text
  capability : Text

/-- What the loops fill. -/
structure Draft where
  consumers : List Consumer
  perAgent : List (Text × List Text)
  skipped : List Skipped

def sorted (values : List Text) : List Text := values.dedup.insertionSort (· ≤ ·)

/-- `/^[a-z][a-z0-9-]{0,62}$/` -/
def isName (name : Text) : Bool :=
  name.length ≤ 63 && name.head?.any (fun c => 'a' ≤ c && c ≤ 'z') &&
    name.all fun c => Lines.isLowerAlnum c || c = '-'

/-- A consumer under a new name and a new address. -/
def consumer (consumers : List Consumer) (name ip : Text) (hosts : List Text) :
    Except Text Consumer := do
  if !isName name || consumers.any fun c => c.name = name then
    .error ("Invalid or duplicate egress name: ".toList ++ name)
  else
    let _ ← address ip
    if consumers.any fun c => c.address = ip then
      .error ("Duplicate egress source: ".toList ++ ip)
    else
      let values ← hosts.mapM host
      return ⟨name, ip, sorted values⟩

def SCOPES : List Text :=
  ["none".toList, "read".toList, "write".toList, "write-with-confirm".toList]

def DOOR_HOSTS (kind : Text) : Option (List Text) :=
  if kind = "slack".toList then some [".slack.com".toList, ".slack-files.com".toList]
  else if kind = "telegram".toList then some ["api.telegram.org".toList]
  else none

section Agents

variable (pf : Platform) (options : EgressOptions)

/-- The host of the endpoint that a capability uses, when it is configured. -/
def endpointHosts (doc : CapabilityDoc) : Except Text (List Text) :=
  match doc.endpoint.bind options.endpoints with
  | none => .ok []
  | some url => do
    let h ← endpointHost pf.newUrl url
    return [h]

/-- Hosts of the grants, and grants of capabilities that are tolerated and unknown. -/
def grantHosts (agent : Text) : List Text → List Grant → Except Text (List Text × List Skipped)
  | _, [] => .ok ([], [])
  | seen, g :: grants =>
    match pf.capabilityDocs g.capability with
    | none =>
      if options.tolerateUnknownGrantsFor.any fun name => name = agent then do
        let (hosts, skipped) ← grantHosts agent seen grants
        return (hosts, ⟨agent, g.capability⟩ :: skipped)
      else .error ("Unknown egress capability: ".toList ++ g.capability ++ " (granted by ".toList ++
        agent ++ ")".toList)
    | some doc =>
      if (!SCOPES.any fun scope => scope = g.scope) || seen.any fun c => c = g.capability then
        .error ("Invalid or duplicate egress grant: ".toList ++ g.capability)
      else if g.scope = "none".toList then grantHosts agent (g.capability :: seen) grants
      else do
        let own ← endpointHosts pf options doc
        let (hosts, skipped) ← grantHosts agent (g.capability :: seen) grants
        return (doc.hosts ++ own ++ hosts, skipped)

def doorHosts : List Door → Except Text (List Text)
  | [] => .ok []
  | door :: doors =>
    match DOOR_HOSTS door.kind with
    | none => .error "Invalid egress door".toList
    | some own => do
      let hosts ← doorHosts doors
      return (if door.enabled then own else []) ++ hosts

def addAgent (draft : Draft) (agent : EgressAgent) : Except Text Draft := do
  let (granted, skipped) ← grantHosts pf options agent.name [] agent.grants
  let doors ← doorHosts agent.doors
  let c ← consumer draft.consumers agent.name agent.address
    (agent.infrastructureHosts ++ agent.outsideHosts ++ granted ++ doors)
  return { consumers := draft.consumers ++ [c]
           perAgent := draft.perAgent ++ [(agent.name, c.hosts)]
           skipped := draft.skipped ++ skipped }

def addLegacy (draft : Draft) (legacy : LegacyConsumer) : Except Text Draft := do
  let c ← consumer draft.consumers legacy.name legacy.address legacy.hosts
  return { draft with consumers := draft.consumers ++ [c] }

def addManaged (draft : Draft) (service : ManagedService) : Except Text Draft := do
  let own ← service.endpoints.mapM (endpointHost pf.newUrl)
  let c ← consumer draft.consumers service.name service.address (service.hosts ++ own)
  return { draft with consumers := draft.consumers ++ [c] }

end Agents

/-! ## Section 4: The rules -/

/-- `h` is matched by the suffix, and is not it. -/
def coveredBy (h suffix : Text) : Bool :=
  suffix ≠ h && isDotted suffix && (h = suffix.tail || suffix.isSuffixOf h)

/-- The hosts that the proxy's list needs. -/
def domains (c : Consumer) : List Text := c.hosts.filter fun h => !c.hosts.any (coveredBy h)

def sourceAcl (c : Consumer) : Text := "src_".toList ++ c.name

def hostAcl (c : Consumer) : Text := "dst_".toList ++ c.name

/-- The lines of one consumer, with its list of domains. -/
def consumerLines (listed : Consumer → List Text) (c : Consumer) : List Line :=
  ⟨0, ["acl".toList, sourceAcl c, "src".toList, c.address]⟩ ::
    if c.hosts.isEmpty then []
    else [⟨0, ["acl".toList, hostAcl c, "dstdomain".toList] ++ listed c⟩,
      ⟨0, ["http_access".toList, "allow".toList, "CONNECT".toList, sourceAcl c, hostAcl c,
        "SSL_ports".toList]⟩]

def squidLines (listed : Consumer → List Text) (consumers : List Consumer) : List Line :=
  [fixed 0 "# Generated by keeper; do not edit.", fixed 0 "acl SSL_ports port 443",
    fixed 0 "acl CONNECT method CONNECT"] ++
  consumers.flatMap (consumerLines listed) ++
  [fixed 0 "http_access deny all", fixed 0 "http_port 8888", fixed 0 "cache deny all"]

/-- `values.join(', ')`, as words -/
def commaWords (values : List Text) : List Text :=
  values.dropLast.map (· ++ [',']) ++ values.getLast?.toList

def setWords (values : List Text) : List Text := ["\x7b".toList] ++ commaWords values ++ ["\x7d".toList]

/-- What both chains hold after their first rules. -/
def forwardLines (exceptions : List Text) : List Line :=
  [fixed 4 "ct state established,related accept"] ++
  exceptions.map (fun ip => ⟨4, ["ip".toList, "daddr".toList, ip, "accept".toList]⟩) ++
  [fixed 4 "udp dport 53 accept", fixed 4 "tcp dport 53 accept", fixed 4 "counter drop"]

def inetRules (sources exceptions : List Text) : List Line :=
  if sources.isEmpty then []
  else ⟨4, ["ip".toList, "saddr".toList, "!=".toList] ++ setWords sources ++ ["accept".toList]⟩ ::
    forwardLines exceptions

def bridgeRules (sources exceptions : List Text) : List Line :=
  if sources.isEmpty then []
  else fixed 4 "ether type != ip accept" ::
    ⟨4, ["ether".toList, "type".toList, "ip".toList, "ip".toList, "saddr".toList, "!=".toList] ++
      setWords sources ++ ["accept".toList]⟩ ::
    forwardLines exceptions

def nftLines (sources exceptions : List Text) : List Line :=
  [fixed 0 "# Generated by keeper; apply the whole file atomically with nft -f.",
    fixed 0 "add table inet lares_egress", fixed 0 "delete table inet lares_egress",
    fixed 0 "table inet lares_egress \x7b", fixed 2 "chain forward \x7b",
    fixed 4 "type filter hook forward priority -10; policy accept;"] ++
  inetRules sources exceptions ++ [fixed 2 "\x7d", fixed 0 "\x7d"] ++
  [fixed 0 "add table bridge lares_egress", fixed 0 "delete table bridge lares_egress",
    fixed 0 "table bridge lares_egress \x7b", fixed 2 "chain forward \x7b",
    fixed 4 "type filter hook forward priority filter; policy accept;"] ++
  bridgeRules sources exceptions ++ [fixed 2 "\x7d", fixed 0 "\x7d"]

structure GeneratedRules where
  /-- The configuration of the proxy. -/
  squid : Text
  /-- The table of the firewall. -/
  nft : Text
  /-- The hosts of each agent, for a reader. -/
  perAgent : List (Text × List Text)
  /-- The grants that were skipped. -/
  skipped : List Skipped

/-- The consumers of an inventory, agents first and by name. -/
def draft (pf : Platform) (inv : Inventory) : Except Text Draft := do
  let agents := inv.agents.insertionSort fun a b => pf.localeCompare a.name b.name ≤ 0
  let filled ← agents.foldlM (addAgent pf inv.options) ⟨[], [], []⟩
  let filled ← inv.options.legacyConsumers.foldlM addLegacy filled
  inv.options.managedServices.foldlM (addManaged pf) filled

def byName (pf : Platform) (consumers : List Consumer) : List Consumer :=
  consumers.insertionSort fun a b => pf.localeCompare a.name b.name ≤ 0

def generateEgress (pf : Platform) (inv : Inventory) : Except Text GeneratedRules := do
  let filled ← draft pf inv
  let exceptions ← (inv.options.internalNetworks ++ inv.options.directDestinations).mapM destination
  return { squid := document (squidLines domains (byName pf filled.consumers))
           nft := document (nftLines (sorted (filled.consumers.map Consumer.address))
             (sorted exceptions))
           perAgent := filled.perAgent
           skipped := filled.skipped }

end Lares.Keeper.Egress
