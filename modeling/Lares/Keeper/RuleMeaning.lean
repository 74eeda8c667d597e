import Lares.Keeper.Egress
import Mathlib

/-! # What egress rules mean

    The readers of the two files, as far as the generated lines go.

    * **squid**: the first `http_access` line whose lists all match decides. A
      `dstdomain` entry with a leading dot matches the domain and every
      subdomain, any other entry only itself.
    * **nft**: the first rule of the chain that matches and has a verdict
      decides; the policy of both chains is to accept.
-/

namespace Lares.Keeper.Egress

open WordLines

/-! ## Section 1: The proxy -/

structure Request where
  source : Nat
  method : Text
  host : Text
  port : Nat

/-- An entry of a `dstdomain` list. -/
def matchesDomain (entry h : Text) : Bool :=
  if isDotted entry then h = entry.tail || entry.isSuffixOf h else h = entry

inductive Directive
  | acl (name kind : Text) (values : List Text)
  | httpAccess (allow : Bool) (acls : List Text)
  | other

def directive : List Text → Directive
  | word :: name :: values =>
    if word = "acl".toList then
      match values with
      | kind :: values => .acl name kind values
      | [] => .other
    else if word = "http_access".toList then .httpAccess (name = "allow".toList) values
    else .other
  | _ => .other

/-- One definition of a list. -/
def aclMatches (r : Request) (kind : Text) (values : List Text) : Bool :=
  if kind = "src".toList then values.any fun v => ipv4? v = some r.source
  else if kind = "dstdomain".toList then values.any fun v => matchesDomain v r.host
  else if kind = "port".toList then values.any fun v => v = Nat.toDigits 10 r.port
  else if kind = "method".toList then values.any fun v => v = r.method
  else false

/-- A list is what all its definitions say together. -/
def listMatches (config : List Directive) (r : Request) (name : Text) : Bool :=
  name = "all".toList || config.any fun d =>
    match d with
    | .acl defined kind values => defined = name && aclMatches r kind values
    | _ => false

/-- The decision of a line, when all of its lists match. -/
def decides (config : List Directive) (r : Request) : Directive → Option Bool
  | .httpAccess allow acls => if acls.all (listMatches config r) then some allow else none
  | _ => none

def squidAllows (squid : Text) (r : Request) : Bool :=
  let config := (readWords squid).map directive
  (config.findSome? (decides config r)).getD false

/-! ## Section 2: The packet filter -/

inductive CtState
  | new
  | established
  | related
  | invalid
  | untracked
  deriving DecidableEq

def CtState.text : CtState → Text
  | .new => "new".toList
  | .established => "established".toList
  | .related => "related".toList
  | .invalid => "invalid".toList
  | .untracked => "untracked".toList

inductive Transport
  | tcp
  | udp
  | other
  deriving DecidableEq

def Transport.text : Transport → Text
  | .tcp => "tcp".toList
  | .udp => "udp".toList
  | .other => []

/-- A forwarded packet; the addresses are those of IPv4. -/
structure Packet where
  ipv4 : Bool
  saddr : Nat
  daddr : Nat
  ctState : CtState
  transport : Transport
  dport : Nat

/-- An address, or a network with the length of its prefix. -/
def inNetwork (network : Text) (ip : Nat) : Bool :=
  match network.splitOn '/' with
  | [base] => ipv4? base = some ip
  | [base, length] =>
    let shift := 32 - Nat.ofDigitChars 10 length 0
    (ipv4? base).any fun b => b / 2 ^ shift = ip / 2 ^ shift
  | _ => false

inductive Verdict
  | accept
  | drop
  deriving DecidableEq

/-- The first expression of a rule: whether the packet matches it, and the words after it. -/
def expression (p : Packet) : List Text → Option (Bool × List Text)
  | word :: key :: value :: rest =>
    if word = "ip".toList ∧ key = "saddr".toList ∧ value = "!=".toList then
      match rest with
      | brace :: rest =>
        if brace = "\x7b".toList then
          -- the elements, up to the closing brace, each without its comma
          let elements := (rest.takeWhile (· ≠ "\x7d".toList)).map fun e => e.filter (· ≠ ',')
          some (p.ipv4 && !elements.any fun e => ipv4? e = some p.saddr,
            (rest.dropWhile (· ≠ "\x7d".toList)).tail)
        else none
      | [] => none
    else if word = "ip".toList ∧ key = "daddr".toList then
      some (p.ipv4 && inNetwork value p.daddr, rest)
    else if word = "ct".toList ∧ key = "state".toList then
      some ((value.splitOn ',').any fun s => s = p.ctState.text, rest)
    else if (word = "udp".toList ∨ word = "tcp".toList) ∧ key = "dport".toList then
      some (decide (word = p.transport.text) && decide (value = Nat.toDigits 10 p.dport), rest)
    else if word = "ether".toList ∧ key = "type".toList then
      if value = "!=".toList then some (rest.head? ≠ some "ip".toList || !p.ipv4, rest.tail)
      else some (decide (value = "ip".toList) && p.ipv4, rest)
    else none
  | _ => none

/-- The verdict of a rule, when all that stands in front of it matches. -/
def verdictFuel (p : Packet) : Nat → List Text → Option Verdict
  | 0, _ => none
  | _ + 1, [] => none
  | fuel + 1, word :: rest =>
    if word = "accept".toList then some .accept
    else if word = "drop".toList then some .drop
    else if word = "counter".toList then verdictFuel p fuel rest
    else match expression p (word :: rest) with
      | some (true, rest) => verdictFuel p fuel rest
      | _ => none

def verdict (p : Packet) (rule : List Text) : Option Verdict := verdictFuel p rule.length rule

/-- The lines of the table's forward chain. -/
def forwardChain (family : Text) (lines : List (List Text)) : List (List Text) :=
  let table := (lines.dropWhile (· ≠ ["table".toList, family, "lares_egress".toList,
    "\x7b".toList])).tail
  let chain := (table.dropWhile (· ≠ ["chain".toList, "forward".toList, "\x7b".toList])).tail
  chain.takeWhile (· ≠ ["\x7d".toList])

def nftDrops (family nft : Text) (p : Packet) : Bool :=
  (forwardChain family (readWords nft)).findSome? (verdict p) = some .drop

end Lares.Keeper.Egress
