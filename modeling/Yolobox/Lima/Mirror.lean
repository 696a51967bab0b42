/-
# What an instance without port gaps mirrors

Two facts about Lima's first match carry the result.  A TCP listener is decided by
the TCP rules alone, and the check pins those.  A UDP listener is decided by the
rules before the first one that ignores all guest UDP, and the check says nothing
about those.
-/
import Yolobox.Lima.PortForwards

open FirstMatch

namespace Lima

variable {withLoopback6 : Bool} {forwards : List Entry} {l : Listener}

/-! ## TCP listeners -/

/-- A UDP rule passes a TCP listener on. -/
theorem decides_tcp_of_udp {rule : PortRule} (hrule : rule.proto = .udp)
    (hl : l.transport = .tcp) : rule.decides withLoopback6 l = none := by
  simp [PortRule.decides, PortRule.takes, Proto.covers, hrule, hl]

/-- A TCP listener is decided by the TCP rules and the default rule. -/
theorem mirrored_tcp (hl : l.transport = .tcp) :
    mirrored withLoopback6 forwards l =
      verdict ((tcpForwardRules forwards ++ [defaultRule]).map
        (PortRule.decides withLoopback6)) none l := by
  have hrules : tcpForwardRules forwards ++ [defaultRule] =
      (portRules forwards).filter fun rule => rule.proto != .udp := by
    rw [portRules, List.filter_append]
    rfl
  rw [hrules, verdict_filter]
  · rfl
  · intro rule _ hkeep
    exact decides_tcp_of_udp (by simpa using hkeep) hl

/-- An ignore rule on every address, as the deny-list and the catch-alls spell it. -/
def ignoreRule (proto : Proto) (portRange : ℕ × ℕ) : PortRule :=
  { proto := proto, guestIP := Addr.quad 0 0 0 0, guestIPMustBeZero := false,
    guestPortRange := portRange, hostIP := Addr.quad 127 0 0 1, hostPortRange := portRange,
    ignore := true }

/-- The rule that mirrors the development ports. -/
def devPorts : PortRule :=
  normalizePortForward { proto := some .tcp, guestPortRange := some MIRRORED_TCP_PORTS }

theorem tcpForwardRules_file :
    tcpForwardRules LIMA_PORT_FORWARDS =
      OAUTH_CALLBACK_PORT_RANGES.map (ignoreRule .tcp) ++
        [devPorts, ignoreRule .tcp (1, MAX_PORT)] := rfl

/-- A range of ports covers one. -/
def inRange (port : ℕ) (portRange : ℕ × ℕ) : Bool :=
  decide (portRange.1 ≤ port) && decide (port ≤ portRange.2)

/-- An ignore rule on every address takes the TCP listeners of its range. -/
theorem ignoreRule_decides (hl : l.transport = .tcp) (portRange : ℕ × ℕ) :
    (ignoreRule .tcp portRange).decides withLoopback6 l =
      if inRange l.port portRange then some none else none := by
  simp [ignoreRule, inRange, PortRule.decides, PortRule.takes, PortRule.target,
    PortRule.coversAddress, Proto.covers, Addr.isUnspecified, Addr.quad, hl]

/-- The development ports go to the host's loopback, at their own numbers. -/
theorem devPorts_decides {t : Target}
    (h : devPorts.decides withLoopback6 l = some (some t)) :
    t = ⟨Addr.loopback4, l.port⟩ ∧ MIRRORED_TCP_PORTS.1 ≤ l.port ∧
      l.port ≤ MIRRORED_TCP_PORTS.2 := by
  unfold PortRule.decides at h
  split_ifs at h with htakes
  have hrange : MIRRORED_TCP_PORTS.1 ≤ l.port ∧ l.port ≤ MIRRORED_TCP_PORTS.2 := by
    simp only [PortRule.takes, Bool.and_eq_true, decide_eq_true_eq] at htakes
    exact ⟨htakes.1.1.1.2, htakes.1.1.2⟩
  have htarget : t = ⟨Addr.loopback4, MIRRORED_TCP_PORTS.1 + (l.port - MIRRORED_TCP_PORTS.1)⟩ :=
    (Option.some.inj (Option.some.inj h)).symm
  rw [Nat.add_sub_cancel' hrange.1] at htarget
  exact ⟨htarget, hrange⟩

/-- The last TCP rule takes what the rules before it left over. -/
theorem ignoreTcp_decides (hl : l.transport = .tcp) :
    (ignoreRule .tcp (1, MAX_PORT)).decides withLoopback6 l = some none := by
  rw [ignoreRule_decides hl, if_pos]
  simp [inRange, l.port_pos, l.port_le]

/-- Where the TCP rules are those of the file, the deny-list decides first, then the
development ports, then nothing is mirrored. -/
theorem mirrored_tcp_file (hrules : tcpForwardRules forwards = tcpForwardRules LIMA_PORT_FORWARDS)
    (hl : l.transport = .tcp) :
    mirrored withLoopback6 forwards l =
      if OAUTH_CALLBACK_PORT_RANGES.any (inRange l.port) then none
      else (devPorts.decides withLoopback6 l).getD none := by
  rw [mirrored_tcp hl, hrules, tcpForwardRules_file, List.append_assoc, List.map_append,
    verdict_append]
  have hrest : verdict (([devPorts, ignoreRule .tcp (1, MAX_PORT)] ++ [defaultRule]).map
      (PortRule.decides withLoopback6)) none l = (devPorts.decides withLoopback6 l).getD none := by
    rw [List.cons_append, List.map_cons, verdict_cons, List.cons_append, List.map_cons,
      verdict_cons, ignoreTcp_decides hl]
    rfl
  rw [hrest, List.map_map]
  exact verdict_uniform (ignoreRule_decides hl)

/-! ## UDP listeners -/

/-- A rule ignores every UDP listener. -/
def PortRule.ignoresAllUdp (rule : PortRule) : Bool :=
  rule.ignore && rule.proto == .udp && rule.guestPortRange == (1, MAX_PORT)
    && rule.guestIP.isUnspecified && !rule.guestIPMustBeZero

/-- The rules before the first one that ignores every UDP listener. -/
def beforeUdpIgnored (forwards : List Entry) : List PortRule :=
  (portRules forwards).takeWhile fun rule => !rule.ignoresAllUdp

/-- Before the first rule that ignores every UDP listener, a rule that forwards takes
only UDP listeners that an ignore rule before it takes already. -/
def UdpGuarded (withLoopback6 : Bool) (forwards : List Entry) : Prop :=
  ∀ pre rule post, beforeUdpIgnored forwards = pre ++ rule :: post → rule.ignore = false →
    ∀ l : Listener, l.transport = .udp → rule.takes withLoopback6 l = true →
      ∃ earlier ∈ pre, earlier.ignore = true ∧ earlier.takes withLoopback6 l = true

theorem decides_of_ignoresAllUdp {rule : PortRule} (h : rule.ignoresAllUdp = true)
    (hl : l.transport = .udp) : rule.decides withLoopback6 l = some none := by
  simp only [PortRule.ignoresAllUdp, Bool.and_eq_true, Bool.not_eq_true', beq_iff_eq] at h
  obtain ⟨⟨⟨⟨hignore, hproto⟩, hrange⟩, haddress⟩, hzero⟩ := h
  simp [PortRule.decides, PortRule.takes, PortRule.target, PortRule.coversAddress, Proto.covers,
    hignore, hproto, hrange, haddress, hzero, hl, l.port_pos, l.port_le]

/-- A UDP listener is decided by the rules before the first one that ignores them all. -/
theorem mirrored_udp (hl : l.transport = .udp) :
    mirrored withLoopback6 forwards l =
      verdict ((beforeUdpIgnored forwards).map (PortRule.decides withLoopback6)) none l := by
  rw [mirrored, ← List.takeWhile_append_dropWhile (l := portRules forwards)
    (p := fun rule => !rule.ignoresAllUdp), List.map_append, verdict_append]
  congr 1
  cases hrest : (portRules forwards).dropWhile fun rule => !rule.ignoresAllUdp with
  | nil => rfl
  | cons rule rules =>
    have hall := List.head?_dropWhile_not (fun rule => !rule.ignoresAllUdp) (portRules forwards)
    rw [hrest, List.head?_cons] at hall
    rw [List.map_cons, verdict_cons, decides_of_ignoresAllUdp (by simpa using hall) hl,
      Option.getD_some]

theorem decides_some_iff {rule : PortRule} {outcome : Option Target} :
    rule.decides withLoopback6 l = some outcome ↔
      rule.takes withLoopback6 l = true ∧ rule.target l = outcome := by
  unfold PortRule.decides
  split_ifs with h <;> simp [h]

theorem target_eq_none {rule : PortRule} : rule.target l = none ↔ rule.ignore = true := by
  unfold PortRule.target
  split_ifs with h <;> simp [h]

/-- What the check finds is a rule that ignores every UDP listener, unless it is a socket's. -/
theorem ignoresAllUdp_of_entry {entry : Entry} {rule : PortRule}
    (h : ignoresAllGuestUdp entry = true) (hrule : entry.portRule = some rule) :
    rule.ignoresAllUdp = true := by
  cases entry with
  | other => cases h
  | dict forward =>
    simp only [ignoresAllGuestUdp, Bool.and_eq_true, beq_iff_eq] at h
    obtain ⟨⟨⟨⟨hignore, hproto⟩, hrange⟩, haddress⟩, hzero⟩ := h
    simp only [Entry.portRule] at hrule
    split at hrule
    · cases hrule
    obtain rfl := Option.some.inj hrule
    cases hguestIP : forward.guestIP with
    | none => simp [hguestIP] at haddress
    | some guestIP =>
      rw [hguestIP] at haddress
      simp [PortRule.ignoresAllUdp, normalizePortForward, hignore, hproto, hrange, hguestIP, hzero, haddress]

/-- Rules that forward no UDP before the first one that ignores it all are guarded. -/
theorem udpGuarded_of_ignoring
    (h : ∀ rule ∈ beforeUdpIgnored forwards, rule.ignore = true ∨ rule.proto = .tcp) :
    UdpGuarded withLoopback6 forwards := by
  intro pre rule post hsplit hforwards l hl htakes
  rcases h rule (hsplit ▸ List.mem_append_right pre (List.mem_cons_self ..)) with hignore | htcp
  · rw [hforwards] at hignore
    exact absurd hignore (by decide)
  · simp [PortRule.takes, Proto.covers, htcp, hl] at htakes

/-- Where an entry ignores all guest UDP, the rules before the first one that does are those
of the entries before it. -/
theorem mem_beforeUdpIgnored (hany : forwards.any ignoresAllGuestUdp = true)
    (hports : ∀ entry ∈ forwards, ignoresAllGuestUdp entry = true → entry.portRule ≠ none)
    {rule : PortRule} (hrule : rule ∈ beforeUdpIgnored forwards) :
    ∃ entry ∈ forwards.takeWhile (fun entry => !ignoresAllGuestUdp entry),
      entry.portRule = some rule := by
  induction forwards with
  | nil => simp at hany
  | cons entry rest ih =>
    rw [List.forall_mem_cons] at hports
    cases hentry : ignoresAllGuestUdp entry with
    | true =>
      obtain ⟨first, hfirst⟩ := Option.ne_none_iff_exists'.mp (hports.1 hentry)
      have hignores := ignoresAllUdp_of_entry hentry hfirst
      rw [beforeUdpIgnored, portRules, List.filterMap_cons_some hfirst, List.cons_append,
        List.takeWhile_cons_of_neg (by simp [hignores])] at hrule
      cases hrule
    | false =>
      rw [List.any_cons, hentry, Bool.false_or] at hany
      rw [List.takeWhile_cons_of_pos (by simp [hentry])]
      cases hfirst : entry.portRule with
      | none =>
        rw [beforeUdpIgnored, portRules, List.filterMap_cons_none hfirst] at hrule
        obtain ⟨entry', hmem, hportRule⟩ := ih hany hports.2 hrule
        exact ⟨entry', List.mem_cons_of_mem entry hmem, hportRule⟩
      | some first =>
        rw [beforeUdpIgnored, portRules, List.filterMap_cons_some hfirst, List.cons_append,
          List.takeWhile_cons] at hrule
        split_ifs at hrule with hignores
        · rcases List.mem_cons.mp hrule with rfl | hrule
          · exact ⟨entry, List.mem_cons_self .., hfirst⟩
          · obtain ⟨entry', hmem, hportRule⟩ := ih hany hports.2 hrule
            exact ⟨entry', List.mem_cons_of_mem entry hmem, hportRule⟩
        · cases hrule

/-- No UDP listener is mirrored exactly when the rules are guarded. -/
theorem udp_unmirrored_iff :
    (∀ l : Listener, l.transport = .udp → mirrored withLoopback6 forwards l = none) ↔
      UdpGuarded withLoopback6 forwards := by
  constructor
  · intro h pre rule post hsplit hforwards l hl htakes
    have hnone := h l hl
    rw [mirrored_udp hl, verdict_iff (P := fun outcome => outcome = none) rfl] at hnone
    obtain ⟨q, hq, outcome, hdecides, rfl⟩ := hnone pre rule post hsplit _
      (decides_some_iff.mpr ⟨htakes, rfl⟩) (by simp [target_eq_none, hforwards])
    obtain ⟨hqtakes, hqtarget⟩ := decides_some_iff.mp hdecides
    exact ⟨q, hq, target_eq_none.mp hqtarget, hqtakes⟩
  · intro h l hl
    rw [mirrored_udp hl, verdict_iff (P := fun outcome => outcome = none) rfl]
    intro pre rule post hsplit outcome hdecides hforwards
    obtain ⟨htakes, rfl⟩ := decides_some_iff.mp hdecides
    rw [target_eq_none, Bool.not_eq_true] at hforwards
    obtain ⟨q, hq, hqignore, hqtakes⟩ := h pre rule post hsplit hforwards l hl htakes
    exact ⟨q, hq, none, decides_some_iff.mpr ⟨hqtakes, target_eq_none.mpr hqignore⟩, rfl⟩

/-! ## The port gaps -/

/-- What the two port gaps are about: no UDP listener is mirrored, and a TCP listener
only onto the host's loopback, at its own number, and only as a development port that
is no OAuth callback. -/
def OnlyDevPorts (withLoopback6 : Bool) (forwards : List Entry) : Prop :=
  (∀ l : Listener, l.transport = .udp → mirrored withLoopback6 forwards l = none) ∧
  ∀ (l : Listener) (t : Target), l.transport = .tcp →
    mirrored withLoopback6 forwards l = some t →
      t = ⟨Addr.loopback4, l.port⟩ ∧ MIRRORED_TCP_PORTS.1 ≤ l.port ∧
        l.port ≤ MIRRORED_TCP_PORTS.2 ∧
        ∀ portRange ∈ OAUTH_CALLBACK_PORT_RANGES, inRange l.port portRange = false

/-- Without the TCP gap, no UDP listener is all that is left to ask for. -/
theorem onlyDevPorts_of_udp {opSock awsBrokerSock : PyStr} {info : LimaInfo}
    (hgap : GAP_TCP_FORWARDS ∉ configGaps opSock awsBrokerSock info)
    (hudp : UdpGuarded withLoopback6 info.portForwards) :
    OnlyDevPorts withLoopback6 info.portForwards := by
  refine ⟨udp_unmirrored_iff.mpr hudp, fun l t hl hmirrored => ?_⟩
  rw [mirrored_tcp_file (tcpForwardRules_of_no_gap hgap) hl] at hmirrored
  split_ifs at hmirrored with hoauth
  cases hdecides : devPorts.decides withLoopback6 l with
  | none => simp [hdecides] at hmirrored
  | some outcome =>
    rw [hdecides, Option.getD_some] at hmirrored
    obtain ⟨ht, hlow, hhigh⟩ := devPorts_decides (hmirrored ▸ hdecides)
    refine ⟨ht, hlow, hhigh, fun portRange hmem => ?_⟩
    by_contra hin
    exact hoauth (List.any_eq_true.mpr ⟨portRange, hmem, by simpa using hin⟩)

/-- **Without the port gaps** only development ports are mirrored, when no entry before the
first one that ignores all guest UDP forwards UDP.  (A socket's entry is no rule for ports,
whatever its ports say.) -/
theorem onlyDevPorts_of_no_udp_before {opSock awsBrokerSock : PyStr} {info : LimaInfo}
    (hgaps : GAP_UDP_FORWARDS ∉ configGaps opSock awsBrokerSock info ∧
      GAP_TCP_FORWARDS ∉ configGaps opSock awsBrokerSock info)
    (hports : ∀ entry ∈ info.portForwards, ignoresAllGuestUdp entry = true → entry.portRule ≠ none)
    (hbefore : ∀ entry ∈ info.portForwards.takeWhile (fun entry => !ignoresAllGuestUdp entry),
      ∀ rule, entry.portRule = some rule → rule.ignore = true ∨ rule.proto = .tcp) :
    OnlyDevPorts withLoopback6 info.portForwards := by
  refine onlyDevPorts_of_udp hgaps.2 (udpGuarded_of_ignoring fun rule hrule => ?_)
  obtain ⟨entry, hmem, hportRule⟩ := mem_beforeUdpIgnored (udpIgnored_of_no_gap hgaps.1) hports hrule
  exact hbefore entry hmem rule hportRule

/-- **Port gaps.**  An instance with neither port gap mirrors only development ports
exactly when its UDP rules are guarded: the check of the TCP rules is enough, and the
check of the UDP rules does not look at what stands before the rule it finds. -/
theorem onlyDevPorts_iff (opSock awsBrokerSock : PyStr) (info : LimaInfo) (withLoopback6 : Bool)
    (hgaps : GAP_UDP_FORWARDS ∉ configGaps opSock awsBrokerSock info ∧
      GAP_TCP_FORWARDS ∉ configGaps opSock awsBrokerSock info) :
    OnlyDevPorts withLoopback6 info.portForwards ↔
      UdpGuarded withLoopback6 info.portForwards := by
  exact ⟨fun h => udp_unmirrored_iff.mp h.1, onlyDevPorts_of_udp hgaps.2⟩

/-- An instance with the rules of `lima/yolobox.yaml`, as `limactl` shows them. -/
def fileInfo : LimaInfo where
  portForwards := LIMA_PORT_FORWARDS.map Entry.filled
  mounts := []
  forwardAgent := false
  overVsock := some false
  propagateProxyEnv := some false
  loadDotSshPubKeys := some false
  userUid := .int OPERATOR_GUEST_UID

theorem onlyDevPorts_file : OnlyDevPorts true fileInfo.portForwards :=
  (onlyDevPorts_iff OP_GUEST_SOCK AWS_BROKER_GUEST_SOCK fileInfo true (by decide)).mpr
    (udpGuarded_of_ignoring (by decide))

/-- The same instance with one more rule, which forwards UDP 5353, before the others. -/
def mdnsInfo : LimaInfo :=
  { fileInfo with
    portForwards :=
      Entry.filled (.dict { proto := some .udp, guestPort := some 5353 }) ::
        fileInfo.portForwards }

/-- A guest listener on `127.0.0.1:5353/udp`. -/
def mdnsListener : Listener :=
  ⟨.udp, Addr.loopback4, 5353, by decide, by decide⟩

/-- A rule that forwards a UDP port stands before the one that ignores them all:
neither port gap is there, and Lima mirrors the listener. -/
theorem mdns_mirrored :
    (GAP_UDP_FORWARDS ∉ configGaps OP_GUEST_SOCK AWS_BROKER_GUEST_SOCK mdnsInfo ∧
      GAP_TCP_FORWARDS ∉ configGaps OP_GUEST_SOCK AWS_BROKER_GUEST_SOCK mdnsInfo) ∧
    (∀ withLoopback6, mirrored withLoopback6 mdnsInfo.portForwards mdnsListener =
      some ⟨Addr.loopback4, 5353⟩) ∧
    ∀ withLoopback6, ¬ OnlyDevPorts withLoopback6 mdnsInfo.portForwards := by
  have hmirrored : ∀ withLoopback6, mirrored withLoopback6 mdnsInfo.portForwards mdnsListener =
      some ⟨Addr.loopback4, 5353⟩ := by decide
  refine ⟨by decide, hmirrored, fun withLoopback6 h => ?_⟩
  have hnone := h.1 mdnsListener rfl
  rw [hmirrored] at hnone
  exact absurd hnone (by simp)

end Lima
