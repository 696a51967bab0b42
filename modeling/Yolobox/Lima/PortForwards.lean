/-
# The port forwards of a Lima box

`limactl list --json` shows the rules of a running instance.  Lima mirrors a guest
listener onto the host by the first rule that takes it (`forwardingAddresses`), and
its own default rule comes after all others.  `config_gaps` compares the TCP rules
with `LIMA_PORT_FORWARDS`, in order, and asks of the UDP rules only whether one of
them ignores every listener.
-/
import Yolobox.Text
import Yolobox.Lib.Ip
import Yolobox.Lib.FirstMatch

open FirstMatch

namespace Lima

/-! ## Entries of `portForwards` -/

inductive Proto
  | tcp
  | udp
  | any
  deriving DecidableEq, Repr

/-- An entry as `limactl` shows it; `none` is a missing key. -/
structure PortForward where
  guestSocket : Option PyStr := none
  hostSocket : Option PyStr := none
  reverse : Option Bool := none
  proto : Option Proto := none
  guestIP : Option Addr := none
  guestIPMustBeZero : Option Bool := none
  guestPort : Option ℕ := none
  guestPortRange : Option (ℕ × ℕ) := none
  hostIP : Option Addr := none
  hostPort : Option ℕ := none
  hostPortRange : Option (ℕ × ℕ) := none
  ignore : Option Bool := none
  deriving DecidableEq, Repr

/-- A member of the list: a dict, or some other JSON value. -/
inductive Entry
  | dict (forward : PortForward)
  | other
  deriving DecidableEq, Repr

/-- The fields that decide what is mirrored, filled in. -/
structure PortRule where
  proto : Proto
  guestIP : Addr
  guestIPMustBeZero : Bool
  guestPortRange : ℕ × ℕ
  hostIP : Addr
  hostPortRange : ℕ × ℕ
  ignore : Bool
  deriving DecidableEq, Repr

def MAX_PORT : ℕ := 65535

/-- `normalize_port_forward`. -/
def normalizePortForward (rule : PortForward) : PortRule :=
  let mustBeZero := rule.guestIPMustBeZero.getD (rule.guestIP == some (Addr.quad 0 0 0 0))
  let guestIP := rule.guestIP.getD (if mustBeZero then Addr.quad 0 0 0 0 else Addr.quad 127 0 0 1)
  let guestPortRange := rule.guestPortRange.getD
    (match rule.guestPort with
      | none => (1, MAX_PORT)
      | some guestPort => (guestPort, guestPort))
  let hostPortRange := rule.hostPortRange.getD
    (match rule.hostPort with
      | none => guestPortRange
      | some hostPort => (hostPort, hostPort))
  { proto := rule.proto.getD .any
    guestIP := guestIP
    guestIPMustBeZero := mustBeZero
    guestPortRange := guestPortRange
    hostIP := rule.hostIP.getD (Addr.quad 127 0 0 1)
    hostPortRange := hostPortRange
    ignore := rule.ignore.getD false }

/-- An entry with the defaults filled in, as `limactl` shows it. -/
def PortForward.filled (rule : PortForward) : PortForward :=
  let shown := normalizePortForward rule
  { rule with
    proto := some shown.proto
    guestIP := some shown.guestIP
    guestIPMustBeZero := some shown.guestIPMustBeZero
    guestPortRange := some shown.guestPortRange
    hostIP := some shown.hostIP
    hostPortRange := some shown.hostPortRange
    ignore := some shown.ignore }

/-- Filling in the defaults twice changes nothing. -/
@[simp] theorem normalizePortForward_filled (rule : PortForward) :
    normalizePortForward rule.filled = normalizePortForward rule := rfl

/-- `ignores_all_guest_udp`. -/
def ignoresAllGuestUdp : Entry → Bool
  | .other => false
  | .dict forward =>
    forward.ignore == some true && forward.proto == some .udp
      && forward.guestPortRange == some (1, MAX_PORT)
      && (match forward.guestIP with
          | none => false
          | some guestIP => guestIP.isUnspecified)
      && forward.guestIPMustBeZero == some false

/-- The rule of an entry that is about ports and not about a socket. -/
def Entry.portRule : Entry → Option PortRule
  | .other => none
  | .dict forward =>
    match forward.guestSocket with
    | some _ => none
    | none => some (normalizePortForward forward)

def Entry.filled : Entry → Entry
  | .other => .other
  | .dict forward => .dict forward.filled

/-- Whether `limactl` fills in the defaults or not, an entry is the same rule. -/
@[simp] theorem Entry.portRule_filled (entry : Entry) : entry.filled.portRule = entry.portRule := by
  cases entry with
  | other => rfl
  | dict forward =>
    cases hsocket : forward.guestSocket <;>
      simp [Entry.filled, Entry.portRule, PortForward.filled, hsocket, normalizePortForward]

/-- `tcp_forward_rules`. -/
def tcpForwardRules (forwards : List Entry) : List PortRule :=
  (forwards.filterMap Entry.portRule).filter fun rule => rule.proto != .udp

/-- The check of the TCP rules does not depend on who fills in the defaults. -/
theorem tcpForwardRules_filled (forwards : List Entry) :
    tcpForwardRules (forwards.map Entry.filled) = tcpForwardRules forwards := by
  simp [tcpForwardRules, List.filterMap_map]

/-! ## The rules of `lima/yolobox.yaml` -/

def OP_GUEST_SOCK : PyStr := lit "/run/yolobox-op/agent.sock"

def AWS_BROKER_GUEST_SOCK : PyStr := lit "/run/yolobox-op/aws-broker.sock"

def MIRRORED_TCP_PORTS : ℕ × ℕ := (1024, 49151)

def OAUTH_CALLBACK_PORT_RANGES : List (ℕ × ℕ) :=
  [(1455, 1457), (8020, 8020), (8085, 8085), (9005, 9005), (18000, 18000)]

/-- The deny-list, the range, the two sockets, then the catch-alls. -/
def LIMA_PORT_FORWARDS : List Entry :=
  (OAUTH_CALLBACK_PORT_RANGES.map fun portRange => Entry.dict
    { proto := some .tcp, guestIP := some (Addr.quad 0 0 0 0), guestIPMustBeZero := some false,
      guestPortRange := some portRange, ignore := some true }) ++
  [.dict { proto := some .tcp, guestPortRange := some MIRRORED_TCP_PORTS },
   .dict { guestSocket := some OP_GUEST_SOCK,
           hostSocket := some
            (lit "\x7b\x7b.Home\x7d\x7d/Library/Group Containers/2BUA8C4S2C.com.1password/t/agent.sock"),
           reverse := some true },
   .dict { guestSocket := some AWS_BROKER_GUEST_SOCK,
           hostSocket := some (lit "\x7b\x7b.Home\x7d\x7d/.local/state/yolobox/aws-broker.sock"),
           reverse := some true },
   .dict { proto := some .udp, guestIP := some (Addr.quad 0 0 0 0),
           guestIPMustBeZero := some false, ignore := some true },
   .dict { proto := some .tcp, guestIP := some (Addr.quad 0 0 0 0),
           guestIPMustBeZero := some false, ignore := some true }]

/-! ## `config_gaps` -/

/-- `user.uid` as `limactl` reports it: an `int`, or a `bool`, a text or nothing. -/
inductive Uid
  | int (n : ℤ)
  | other
  deriving DecidableEq, Repr

/-- The fields of `LimaInfo` that `config_gaps` reads. -/
structure LimaInfo where
  portForwards : List Entry
  mounts : List PyStr
  forwardAgent : Bool
  overVsock : Option Bool
  propagateProxyEnv : Option Bool
  loadDotSshPubKeys : Option Bool
  userUid : Uid
  deriving DecidableEq, Repr

def OPERATOR_GUEST_UID : ℤ := 501

def GAP_MOUNTS : PyStr := lit "mounts"
def GAP_FORWARD_AGENT : PyStr := lit "ssh.forwardAgent"
def GAP_SSH_OVER_VSOCK : PyStr := lit "ssh.overVsock"
def GAP_PROPAGATE_PROXY_ENV : PyStr := lit "propagateProxyEnv"
def GAP_LOAD_DOT_SSH_PUB_KEYS : PyStr := lit "ssh.loadDotSSHPubKeys"
def GAP_UDP_FORWARDS : PyStr := lit "portForwards.udp"
def GAP_TCP_FORWARDS : PyStr := lit "portForwards.tcp"
def GAP_OPERATOR_UID : PyStr := lit "user.uid"

/-- Whether an entry is the reverse rule of a guest socket and its host socket. -/
def Entry.reverses (guestSock hostSock : PyStr) : Entry → Bool
  | .other => false
  | .dict forward =>
    forward.reverse == some true && forward.guestSocket == some guestSock
      && forward.hostSocket == some hostSock

/-- One line of the check: the gap, when it is there. -/
def gapIf (there : Bool) (gap : PyStr) : List PyStr := if there then [gap] else []

/-- `operator_uid_readable` and another uid than `OPERATOR_GUEST_UID`. -/
def wrongOperatorUid : Uid → Bool
  | .int n => n != OPERATOR_GUEST_UID
  | .other => false

/-- `LimaDriver.config_gaps` of an instance that exists, with the host's two sockets. -/
def configGaps (opSock awsBrokerSock : PyStr) (info : LimaInfo) : List PyStr :=
  ([(OP_GUEST_SOCK, opSock), (AWS_BROKER_GUEST_SOCK, awsBrokerSock)].filter fun expected =>
      !info.portForwards.any (Entry.reverses expected.1 expected.2)).map Prod.fst ++
  gapIf (!info.portForwards.any ignoresAllGuestUdp) GAP_UDP_FORWARDS ++
  gapIf (tcpForwardRules info.portForwards != tcpForwardRules LIMA_PORT_FORWARDS)
    GAP_TCP_FORWARDS ++
  gapIf (!info.mounts.isEmpty) GAP_MOUNTS ++
  gapIf info.forwardAgent GAP_FORWARD_AGENT ++
  gapIf (info.overVsock != some false) GAP_SSH_OVER_VSOCK ++
  gapIf (info.propagateProxyEnv != some false) GAP_PROPAGATE_PROXY_ENV ++
  gapIf (info.loadDotSshPubKeys != some false) GAP_LOAD_DOT_SSH_PUB_KEYS ++
  gapIf (wrongOperatorUid info.userUid) GAP_OPERATOR_UID

/-- An entry of an instance without the UDP gap ignores all guest UDP. -/
theorem udpIgnored_of_no_gap {opSock awsBrokerSock : PyStr} {info : LimaInfo}
    (h : GAP_UDP_FORWARDS ∉ configGaps opSock awsBrokerSock info) :
    info.portForwards.any ignoresAllGuestUdp = true := by
  by_contra hne
  rw [Bool.not_eq_true] at hne
  apply h
  simp [configGaps, gapIf, hne]

/-- The TCP rules of an instance without the TCP gap are those of the file. -/
theorem tcpForwardRules_of_no_gap {opSock awsBrokerSock : PyStr} {info : LimaInfo}
    (h : GAP_TCP_FORWARDS ∉ configGaps opSock awsBrokerSock info) :
    tcpForwardRules info.portForwards = tcpForwardRules LIMA_PORT_FORWARDS := by
  by_contra hne
  have hbne : (tcpForwardRules info.portForwards != tcpForwardRules LIMA_PORT_FORWARDS) = true :=
    bne_iff_ne.mpr hne
  apply h
  simp [configGaps, gapIf, hbne]

/-! ## What Lima mirrors -/

inductive Transport
  | tcp
  | udp
  deriving DecidableEq, Repr

/-- A listener in the guest. -/
structure Listener where
  transport : Transport
  address : Addr
  port : ℕ
  port_pos : 1 ≤ port
  port_le : port ≤ MAX_PORT

def Proto.covers : Proto → Transport → Bool
  | .any, _ => true
  | .tcp, .tcp => true
  | .udp, .udp => true
  | _, _ => false

/-- A rule's `guestIP` covers the address of a listener.  Lima also lets `::1` match
a rule for `127.0.0.1`; what follows holds with that case and without it. -/
def PortRule.coversAddress (withLoopback6 : Bool) (rule : PortRule) (address : Addr) : Bool :=
  address.isUnspecified || address == rule.guestIP
    || (withLoopback6 && address == Addr.loopback6 && rule.guestIP == Addr.loopback4)
    || (rule.guestIP.isUnspecified && !rule.guestIPMustBeZero)

/-- A rule takes a listener: it matches, and is not an ignore rule that Lima skips
for a listener on every address. -/
def PortRule.takes (withLoopback6 : Bool) (rule : PortRule) (l : Listener) : Bool :=
  rule.proto.covers l.transport
    && decide (rule.guestPortRange.1 ≤ l.port) && decide (l.port ≤ rule.guestPortRange.2)
    && rule.coversAddress withLoopback6 l.address
    && !(rule.ignore && l.address.isUnspecified && !rule.guestIP.isUnspecified)

/-- Where a listener appears on the host. -/
structure Target where
  hostIP : Addr
  port : ℕ
  deriving DecidableEq, Repr

/-- The target a rule gives a listener it takes; an ignore rule gives none. -/
def PortRule.target (rule : PortRule) (l : Listener) : Option Target :=
  if rule.ignore then none
  else some ⟨rule.hostIP, rule.hostPortRange.1 + (l.port - rule.guestPortRange.1)⟩

def PortRule.decides (withLoopback6 : Bool) (rule : PortRule) :
    FirstMatch.Rule Listener (Option Target) :=
  fun l => if rule.takes withLoopback6 l then some (rule.target l) else none

/-- Lima's own rule after all others: loopback listeners of every port. -/
def defaultRule : PortRule := normalizePortForward {}

/-- The rules Lima goes through, in order. -/
def portRules (forwards : List Entry) : List PortRule :=
  forwards.filterMap Entry.portRule ++ [defaultRule]

/-- What Lima makes of a listener: a target on the host, or nothing. -/
def mirrored (withLoopback6 : Bool) (forwards : List Entry) (l : Listener) : Option Target :=
  verdict ((portRules forwards).map (PortRule.decides withLoopback6)) none l

end Lima
