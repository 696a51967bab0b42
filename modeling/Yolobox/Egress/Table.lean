/-
# The egress table

`nix/egress.nix` renders one table: an output chain, and a postrouting chain when the
box has tunnel interfaces.  A rule is a list of matches and a statement, as nft has
it; the two hooks see a packet with different interfaces.  `Network` holds the two
options together with the assertions the module makes about them.
-/
import Yolobox.Lib.FirstMatch
import Yolobox.Egress.Cidr

namespace Egress

/-! ## Packets -/

inductive Transport
  | udp (sport dport : ℕ)
  | tcp (sport dport : ℕ)
  | icmpv6 (type : ℕ)
  | other
  deriving DecidableEq, Repr

/-- An outgoing packet, after the hooks that rewrite it. -/
structure Packet where
  firstOif : PyStr        -- the interface of the route taken before the output hook
  finalOif : PyStr        -- the interface the packet leaves by
  daddr : Addr            -- the final destination
  transport : Transport
  reply : Bool            -- `ct direction reply`
  dnat : Bool             -- `ct status dnat`
  deriving DecidableEq, Repr

inductive Hook
  | output
  | postrouting
  deriving DecidableEq, Repr

/-- The interface a chain sees: the output hook keeps that of the first route. -/
def Hook.oif : Hook → Packet → PyStr
  | .output, p => p.firstOif
  | .postrouting, p => p.finalOif

/-! ## Rules -/

inductive Match
  | oifname (names : List PyStr)
  | ctDirectionReply
  | ctStatusDnat
  | ipDaddr (elements : List PyStr)
  | ip6Daddr (elements : List PyStr)
  | udpSport (port : ℕ)
  | udpDport (port : ℕ)
  | tcpDport (port : ℕ)
  | icmpv6Type (types : List ℕ)
  deriving DecidableEq, Repr

inductive Statement
  | accept
  | log      -- `limit rate .. log ..`: no verdict, whether the limit is reached or not
  | reject
  | drop
  deriving DecidableEq, Repr

structure Rule where
  criteria : List Match
  statement : Statement
  deriving DecidableEq, Repr

structure Chain where
  hook : Hook
  accepts : Bool   -- the policy
  rules : List Rule
  deriving DecidableEq, Repr

/-- Whether a match holds of a packet whose interface the hook sees as `oif`. -/
def Match.holds (oif : PyStr) (p : Packet) : Match → Bool
  | .oifname names => decide (oif ∈ names)
  | .ctDirectionReply => p.reply
  | .ctStatusDnat => p.dnat
  | .ipDaddr elements =>
    match p.daddr with
    | .v4 _ => elements.any fun e => covers e p.daddr
    | .v6 _ => false
  | .ip6Daddr elements =>
    match p.daddr with
    | .v4 _ => false
    | .v6 _ => elements.any fun e => covers e p.daddr
  | .udpSport port =>
    match p.transport with
    | .udp sport _ => sport == port
    | _ => false
  | .udpDport port =>
    match p.transport with
    | .udp _ dport => dport == port
    | _ => false
  | .tcpDport port =>
    match p.transport with
    | .tcp _ dport => dport == port
    | _ => false
  | .icmpv6Type types =>
    match p.transport with
    | .icmpv6 type => decide (type ∈ types)
    | _ => false

/-- Whether a statement lets a packet on, when it decides at all. -/
def Statement.verdict : Statement → Option Bool
  | .accept => some true
  | .log => none
  | .reject => some false
  | .drop => some false

/-- What a rule decides on a packet. -/
def Rule.decides (oif : PyStr) (rule : Rule) : FirstMatch.Rule Packet Bool :=
  fun p => if rule.criteria.all (Match.holds oif p) then rule.statement.verdict else none

/-- Whether the rules let a packet on. -/
def passes (oif : PyStr) (rules : List Rule) (accepts : Bool) (p : Packet) : Bool :=
  FirstMatch.verdict (rules.map (Rule.decides oif)) accepts p

def Chain.passes (chain : Chain) (p : Packet) : Bool :=
  Egress.passes (chain.hook.oif p) chain.rules chain.accepts p

/-! ## The options -/

def tailnetIface : PyStr := lit "tailscale0"

def limaGateway : PyStr := lit "192.168.5.2"

def blockedV4 : List PyStr :=
  [lit "10.0.0.0/8", lit "100.64.0.0/10", lit "169.254.0.0/16", lit "172.16.0.0/12",
    lit "192.168.0.0/16", lit "224.0.0.0/4", lit "255.255.255.255"]

def blockedV6 : List PyStr :=
  [lit "fc00::/7", lit "fe80::/10", lit "ff00::/8", lit "64:ff9b:1::/48"]

def acceptedIfaces (tunnelInterfaces : List PyStr) : List PyStr :=
  [lit "lo", tailnetIface] ++ tunnelInterfaces

/-- `[a-zA-Z0-9_.-]`. -/
def isIfaceChar (c : ℕ) : Bool :=
  (97 ≤ c && c ≤ 122) || (65 ≤ c && c ≤ 90) || isDigit c || c == 95 || c == 46 || c == 45

/-- `badIfaces`: the names that are not 1 to 15 such characters. -/
def badIfaces (tunnelInterfaces : List PyStr) : List PyStr :=
  tunnelInterfaces.filter fun name =>
    !(decide (1 ≤ name.length) && decide (name.length ≤ 15) && name.all isIfaceChar)

/-- `notCidr`: the entries that neither check accepts. -/
def notCidr (lanAllow : List PyStr) : List PyStr :=
  lanAllow.filter fun entry => !(isV4 entry || isV6 entry)

/-- `yolobox.network`, with the assertions of the module. -/
structure Network where
  lanAllow : List PyStr
  tunnelInterfaces : List PyStr
  cidrs : notCidr lanAllow = []
  ifaces : badIfaces tunnelInterfaces = []
  distinct : (acceptedIfaces tunnelInterfaces).eraseDups = acceptedIfaces tunnelInterfaces

namespace Network

variable (net : Network)

def lanV4 : List PyStr := net.lanAllow.filter isV4

def lanV6 : List PyStr := net.lanAllow.filter isV6

def hasTunnels : Bool := !net.tunnelInterfaces.isEmpty

/-- `ifaceSet`. -/
def ifaceSet : List PyStr := acceptedIfaces net.tunnelInterfaces

/-! ## The table -/

/-- An empty list renders no rule. -/
def lanRules : List Rule :=
  (if net.lanV4.isEmpty then [] else [⟨[.ipDaddr net.lanV4], .accept⟩]) ++
  (if net.lanV6.isEmpty then [] else [⟨[.ip6Daddr net.lanV6], .accept⟩])

/-- `rewrittenDefer`. -/
def rewrittenDefer : List Rule :=
  if net.hasTunnels then [⟨[.ctStatusDnat], .accept⟩] else []

/-- The rules of the output chain. -/
def outputRules : List Rule :=
  [⟨[.oifname net.ifaceSet], .accept⟩,
   ⟨[.ctDirectionReply], .accept⟩] ++
  net.rewrittenDefer ++
  [⟨[.udpSport 68, .udpDport 67, .ipDaddr [lit "255.255.255.255", limaGateway]], .accept⟩,
   ⟨[.ipDaddr [limaGateway], .udpDport 53], .accept⟩,
   ⟨[.ipDaddr [limaGateway], .tcpDport 53], .accept⟩] ++
  net.lanRules ++
  [ -- nd-router-solicit, nd-neighbor-solicit, nd-neighbor-advert
   ⟨[.icmpv6Type [133, 135, 136]], .accept⟩,
   -- mld-listener-report, mld2-listener-report
   ⟨[.icmpv6Type [131, 143], .ip6Daddr [lit "ff02::/16"]], .accept⟩,
   ⟨[.ipDaddr blockedV4], .log⟩,
   ⟨[.ipDaddr blockedV4], .reject⟩,
   ⟨[.ip6Daddr blockedV6], .log⟩,
   ⟨[.ip6Daddr blockedV6], .reject⟩]

/-- The rules of the postrouting chain. -/
def postroutingRules : List Rule :=
  [⟨[.ctDirectionReply], .accept⟩,
   ⟨[.ctStatusDnat, .oifname net.ifaceSet], .accept⟩,
   ⟨[.ctStatusDnat, .ipDaddr blockedV4], .log⟩,
   ⟨[.ctStatusDnat, .ipDaddr blockedV4], .drop⟩,
   ⟨[.ctStatusDnat, .ip6Daddr blockedV6], .log⟩,
   ⟨[.ctStatusDnat, .ip6Daddr blockedV6], .drop⟩]

/-- `rewrittenChain`. -/
def rewrittenChain : List Chain :=
  if net.hasTunnels then [⟨.postrouting, true, net.postroutingRules⟩] else []

/-- `ruleFile`. -/
def ruleFile : List Chain := ⟨.output, true, net.outputRules⟩ :: net.rewrittenChain

/-- A packet leaves the box when every chain lets it on. -/
def letOut (p : Packet) : Bool := net.ruleFile.all fun chain => chain.passes p

end Network

end Egress
