/-
# What the egress table lets out

Each statement of a rule is a step of the chain: an accept adds packets to what
passes, a reject or a drop takes packets away from what the later rules would pass.
The two chains are read off rule by rule; what is left is which addresses the pairs
of sets, one for each family, cover together.
-/
import Yolobox.Egress.Table

open FirstMatch

namespace Egress

variable {oif : PyStr} {p : Packet} {rules : List Rule} {accepts : Bool}

/-! ## One rule at the head of a chain -/

@[simp] theorem passes_nil : passes oif [] accepts p = accepts := rfl

/-- The first rule decides, or leaves the packet to the others. -/
theorem passes_cons (rule : Rule) :
    passes oif (rule :: rules) accepts p =
      if rule.criteria.all (Match.holds oif p) then
        rule.statement.verdict.getD (passes oif rules accepts p)
      else passes oif rules accepts p := by
  unfold passes
  rw [List.map_cons, verdict_cons, Rule.decides]
  split_ifs <;> rfl

@[simp] theorem passes_accept (criteria : List Match) :
    passes oif (⟨criteria, .accept⟩ :: rules) accepts p =
      (criteria.all (Match.holds oif p) || passes oif rules accepts p) := by
  rw [passes_cons]
  cases criteria.all (Match.holds oif p) <;> rfl

@[simp] theorem passes_log (criteria : List Match) :
    passes oif (⟨criteria, .log⟩ :: rules) accepts p = passes oif rules accepts p := by
  rw [passes_cons]
  cases criteria.all (Match.holds oif p) <;> rfl

@[simp] theorem passes_reject (criteria : List Match) :
    passes oif (⟨criteria, .reject⟩ :: rules) accepts p =
      (!criteria.all (Match.holds oif p) && passes oif rules accepts p) := by
  rw [passes_cons]
  cases criteria.all (Match.holds oif p) <;> rfl

@[simp] theorem passes_drop (criteria : List Match) :
    passes oif (⟨criteria, .drop⟩ :: rules) accepts p =
      (!criteria.all (Match.holds oif p) && passes oif rules accepts p) := by
  rw [passes_cons]
  cases criteria.all (Match.holds oif p) <;> rfl

/-- A rule that is rendered only for a set with elements passes what the set covers. -/
theorem passes_rendered (criterion : List PyStr → Match) (elements : List PyStr)
    (hnil : (criterion []).holds oif p = false) :
    passes oif ((if elements.isEmpty then [] else [⟨[criterion elements], .accept⟩]) ++ rules)
        accepts p =
      ((criterion elements).holds oif p || passes oif rules accepts p) := by
  cases elements with
  | nil => rw [hnil]; rfl
  | cons e es => simp

/-! ## Sets of addresses -/

/-- An element of a list covers an address. -/
def coveredBy (elements : List PyStr) (a : Addr) : Prop :=
  ∃ e ∈ elements, covers e a = true

/-- A pair of sets, one for each family, covers what the list they are taken from covers. -/
theorem daddr_holds_iff {all v4 v6 : List PyStr} (hv4 : v4 ⊆ all) (hv6 : v6 ⊆ all)
    (h4 : ∀ e ∈ all, (∃ bits length, readElement e = some (.v4 bits length)) → e ∈ v4)
    (h6 : ∀ e ∈ all, (∃ bits length, readElement e = some (.v6 bits length)) → e ∈ v6) :
    (Match.holds oif p (.ipDaddr v4) = true ∨ Match.holds oif p (.ip6Daddr v6) = true) ↔
      coveredBy all p.daddr := by
  unfold Match.holds coveredBy
  cases p.daddr with
  | v4 a =>
    simp only [List.any_eq_true, Bool.false_eq_true, or_false]
    exact ⟨fun ⟨e, he, hcovers⟩ => ⟨e, hv4 he, hcovers⟩,
      fun ⟨e, he, hcovers⟩ => ⟨e, h4 e he (covers_v4 hcovers), hcovers⟩⟩
  | v6 a =>
    simp only [List.any_eq_true, Bool.false_eq_true, false_or]
    exact ⟨fun ⟨e, he, hcovers⟩ => ⟨e, hv6 he, hcovers⟩,
      fun ⟨e, he, hcovers⟩ => ⟨e, h6 e he (covers_v6 hcovers), hcovers⟩⟩

/-- The ranges the table blocks. -/
def blocked : List PyStr := blockedV4 ++ blockedV6

theorem blocked_reads :
    blockedV4.map readElement =
      [some (.v4 0x0A000000 8), some (.v4 0x64400000 10), some (.v4 0xA9FE0000 16),
        some (.v4 0xAC100000 12), some (.v4 0xC0A80000 16), some (.v4 0xE0000000 4),
        some (.v4 0xFFFFFFFF 32)] ∧
    blockedV6.map readElement =
      [some (.v6 (0xFC00 <<< 112) 7), some (.v6 (0xFE80 <<< 112) 10),
        some (.v6 (0xFF00 <<< 112) 8), some (.v6 (0x0064FF9B0001 <<< 80) 48)] := by
  decide

/-- The two blocked sets together cover the blocked ranges. -/
theorem blocked_holds_iff (oif : PyStr) :
    (Match.holds oif p (.ipDaddr blockedV4) = true ∨
      Match.holds oif p (.ip6Daddr blockedV6) = true) ↔ coveredBy blocked p.daddr := by
  apply daddr_holds_iff (List.subset_append_left _ _) (List.subset_append_right _ _)
  · rintro e he ⟨bits, length, hread⟩
    refine (List.mem_append.mp he).resolve_right fun hv6 => ?_
    have hmem := List.mem_map_of_mem (f := readElement) hv6
    rw [blocked_reads.2, hread] at hmem
    simp at hmem
  · rintro e he ⟨bits, length, hread⟩
    refine (List.mem_append.mp he).resolve_left fun hv4 => ?_
    have hmem := List.mem_map_of_mem (f := readElement) hv4
    rw [blocked_reads.1, hread] at hmem
    simp at hmem

/-- The two rendered sets together cover `lanAllow`, because every entry is a range of
one family or the other. -/
theorem lan_holds_iff (oif : PyStr) (net : Network) :
    (Match.holds oif p (.ipDaddr net.lanV4) = true ∨
      Match.holds oif p (.ip6Daddr net.lanV6) = true) ↔ coveredBy net.lanAllow p.daddr := by
  have hcidr : ∀ e ∈ net.lanAllow, isV4 e = true ∨ isV6 e = true := by
    intro e he
    by_contra hne
    exact List.filter_eq_nil_iff.mp net.cidrs e he (by simpa [not_or] using hne)
  have hv4 : net.lanV4 ⊆ net.lanAllow := List.filter_subset_self _
  have hv6 : net.lanV6 ⊆ net.lanAllow := List.filter_subset_self _
  apply daddr_holds_iff hv4 hv6
  · rintro e he ⟨bits, length, hread⟩
    refine List.mem_filter.mpr ⟨he, ?_⟩
    by_contra h4
    rw [Bool.not_eq_true] at h4
    obtain ⟨bits', length', hread'⟩ :=
      readElement_of_isV6 h4 ((hcidr e he).resolve_left (by simp [h4]))
    rw [hread] at hread'
    simp at hread'
  · rintro e he ⟨bits, length, hread⟩
    refine List.mem_filter.mpr ⟨he, (hcidr e he).resolve_left fun h4 => ?_⟩
    obtain ⟨bits', length', hread'⟩ := readElement_of_isV4 h4
    rw [hread] at hread'
    simp at hread'

/-- The text of one IPv4 address covers that address. -/
theorem covers_host {text : PyStr} {bits : BitVec 32} {a : Addr}
    (hread : readElement text = some (.v4 bits 32)) : covers text a = true ↔ a = .v4 bits := by
  rw [covers, hread]
  exact Block.contains_host_v4 bits a

/-- A match on single IPv4 addresses holds of those that its elements cover. -/
theorem ipDaddr_hosts_iff {elements : List PyStr}
    (hread : ∀ e ∈ elements, ∃ bits, readElement e = some (.v4 bits 32)) :
    Match.holds oif p (.ipDaddr elements) = true ↔ coveredBy elements p.daddr := by
  have h : (Match.holds oif p (.ipDaddr elements) = true ∨
      Match.holds oif p (.ip6Daddr []) = true) ↔ coveredBy elements p.daddr := by
    apply daddr_holds_iff (List.Subset.refl elements) (List.nil_subset elements)
    · exact fun e he _ => he
    · rintro e he ⟨bits, length, h6⟩
      obtain ⟨bits', h4⟩ := hread e he
      rw [h4] at h6
      simp at h6
  rw [← h, iff_self_or]
  intro h6
  unfold Match.holds at h6
  cases hd : p.daddr <;> simp [hd] at h6

/-! ## The policy -/

/-- `192.168.5.2`. -/
def gateway : Addr := Addr.quad 192 168 5 2

/-- DHCP to the broadcast address or the gateway. -/
def isDhcp (p : Packet) : Prop :=
  p.transport = .udp 68 67 ∧ (p.daddr = Addr.quad 255 255 255 255 ∨ p.daddr = gateway)

/-- DNS to the gateway. -/
def isGatewayDns (p : Packet) : Prop :=
  p.daddr = gateway ∧ ∃ sport, p.transport = .udp sport 53 ∨ p.transport = .tcp sport 53

/-- A router or neighbour solicitation, or a neighbour advertisement. -/
def isNeighbourDiscovery (p : Packet) : Prop :=
  ∃ type ∈ [133, 135, 136], p.transport = .icmpv6 type

/-- A listener report to a link-local group. -/
def isMldReport (p : Packet) : Prop :=
  (∃ type ∈ [131, 143], p.transport = .icmpv6 type) ∧
    (Block.v6 (0xFF02 <<< 112) 16).contains p.daddr = true

/-- What the box may send.  With tunnel interfaces a rewritten packet is judged by the
interface it leaves by, and has no exceptions but the replies. -/
def Network.Allowed (net : Network) (p : Packet) : Prop :=
  if net.tunnelInterfaces ≠ [] ∧ p.dnat = true then
    p.reply = true ∨ p.finalOif ∈ net.ifaceSet ∨ ¬ coveredBy blocked p.daddr
  else
    p.firstOif ∈ net.ifaceSet ∨ p.reply = true ∨ isDhcp p ∨ isGatewayDns p ∨
      coveredBy net.lanAllow p.daddr ∨ isNeighbourDiscovery p ∨ isMldReport p ∨
      ¬ coveredBy blocked p.daddr

/-! ## The two chains -/

theorem passes_append_rewrittenDefer (net : Network) :
    passes oif (net.rewrittenDefer ++ rules) accepts p =
      ((net.hasTunnels && p.dnat) || passes oif rules accepts p) := by
  unfold Network.rewrittenDefer
  cases net.hasTunnels <;> simp [Match.holds]

theorem passes_append_lanRules (net : Network) :
    passes oif (net.lanRules ++ rules) accepts p =
      ((Match.ipDaddr net.lanV4).holds oif p || ((Match.ip6Daddr net.lanV6).holds oif p ||
        passes oif rules accepts p)) := by
  have h4 : (Match.ipDaddr []).holds oif p = false := by
    unfold Match.holds
    cases p.daddr <;> rfl
  have h6 : (Match.ip6Daddr []).holds oif p = false := by
    unfold Match.holds
    cases p.daddr <;> rfl
  rw [Network.lanRules, List.append_assoc, passes_rendered .ipDaddr _ h4,
    passes_rendered .ip6Daddr _ h6]

@[simp] theorem oifname_holds_iff {names : List PyStr} :
    (Match.oifname names).holds oif p = true ↔ oif ∈ names :=
  decide_eq_true_iff

@[simp] theorem reply_holds_iff : Match.ctDirectionReply.holds oif p = true ↔ p.reply = true :=
  Iff.rfl

@[simp] theorem dnat_holds_iff : Match.ctStatusDnat.holds oif p = true ↔ p.dnat = true :=
  Iff.rfl

theorem limaGateway_reads : readElement limaGateway = some (.v4 0xC0A80502 32) := by decide

theorem broadcast_reads :
    readElement (lit "255.255.255.255") = some (.v4 0xFFFFFFFF 32) := by decide

theorem multicast_reads :
    readElement (lit "ff02::/16") = some (.v6 (0xFF02 <<< 112) 16) := by decide

theorem gateway_holds_iff :
    (Match.ipDaddr [limaGateway]).holds oif p = true ↔ p.daddr = gateway := by
  rw [ipDaddr_hosts_iff]
  · simp [coveredBy, covers_host limaGateway_reads, gateway, Addr.quad]
  · intro e he
    rw [List.mem_singleton.mp he]
    exact ⟨_, limaGateway_reads⟩

theorem dhcp_holds_iff (oif : PyStr) :
    ((Match.udpSport 68).holds oif p = true ∧ (Match.udpDport 67).holds oif p = true ∧
      (Match.ipDaddr [lit "255.255.255.255", limaGateway]).holds oif p = true) ↔ isDhcp p := by
  have hdaddr : (Match.ipDaddr [lit "255.255.255.255", limaGateway]).holds oif p = true ↔
      p.daddr = Addr.quad 255 255 255 255 ∨ p.daddr = gateway := by
    rw [ipDaddr_hosts_iff]
    · simp [coveredBy, covers_host limaGateway_reads, covers_host broadcast_reads, gateway,
        Addr.quad]
    · intro e he
      rcases List.mem_pair.mp he with rfl | rfl
      · exact ⟨_, broadcast_reads⟩
      · exact ⟨_, limaGateway_reads⟩
  rw [hdaddr, isDhcp, ← and_assoc]
  refine and_congr_left fun _ => ?_
  unfold Match.holds
  cases p.transport <;> simp

theorem dns_holds_iff (oif : PyStr) :
    (((Match.ipDaddr [limaGateway]).holds oif p = true ∧ (Match.udpDport 53).holds oif p = true) ∨
      ((Match.ipDaddr [limaGateway]).holds oif p = true ∧
        (Match.tcpDport 53).holds oif p = true)) ↔ isGatewayDns p := by
  rw [gateway_holds_iff, ← and_or_left, isGatewayDns]
  refine and_congr_right fun _ => ?_
  unfold Match.holds
  cases p.transport <;> simp

theorem icmpv6_holds_iff (oif : PyStr) {types : List ℕ} :
    (Match.icmpv6Type types).holds oif p = true ↔
      ∃ type ∈ types, p.transport = .icmpv6 type := by
  unfold Match.holds
  cases p.transport <;> simp

theorem mld_holds_iff (oif : PyStr) :
    ((Match.icmpv6Type [131, 143]).holds oif p = true ∧
      (Match.ip6Daddr [lit "ff02::/16"]).holds oif p = true) ↔ isMldReport p := by
  rw [icmpv6_holds_iff oif, isMldReport]
  refine and_congr_right fun _ => ?_
  unfold Match.holds
  cases p.daddr <;> simp [covers, multicast_reads, Block.contains]

/-- What the output chain passes. -/
theorem output_passes_iff (net : Network) :
    passes oif net.outputRules true p = true ↔
      oif ∈ net.ifaceSet ∨ p.reply = true ∨ (net.hasTunnels = true ∧ p.dnat = true) ∨
        isDhcp p ∨ isGatewayDns p ∨ coveredBy net.lanAllow p.daddr ∨
        isNeighbourDiscovery p ∨ isMldReport p ∨ ¬ coveredBy blocked p.daddr := by
  rw [← dhcp_holds_iff oif, ← dns_holds_iff oif, isNeighbourDiscovery, ← icmpv6_holds_iff oif,
    ← mld_holds_iff oif, ← lan_holds_iff oif, ← blocked_holds_iff oif]
  unfold Network.outputRules
  simp only [List.append_assoc, List.cons_append, List.nil_append, passes_accept, passes_log,
    passes_reject, passes_append_rewrittenDefer, passes_append_lanRules, passes_nil,
    List.all_cons, List.all_nil, Bool.and_true, Bool.or_eq_true, Bool.and_eq_true,
    Bool.not_eq_true', ← Bool.not_eq_true, oifname_holds_iff, reply_holds_iff, or_assoc,
    not_or]

/-- What the postrouting chain passes. -/
theorem postrouting_passes_iff (net : Network) :
    passes oif net.postroutingRules true p = true ↔
      p.reply = true ∨ p.dnat = false ∨ oif ∈ net.ifaceSet ∨ ¬ coveredBy blocked p.daddr := by
  rw [← blocked_holds_iff oif]
  unfold Network.postroutingRules
  simp only [passes_accept, passes_log, passes_drop, passes_nil, List.all_cons, List.all_nil,
    Bool.and_true, Bool.or_eq_true, Bool.and_eq_true, Bool.not_eq_true', ← Bool.not_eq_true,
    oifname_holds_iff, reply_holds_iff, dnat_holds_iff, not_or, not_and]
  cases p.dnat <;> simp

/-- **Egress.**  The table lets a packet out exactly when the policy allows it. -/
theorem letOut_iff (net : Network) (p : Packet) : net.letOut p = true ↔ net.Allowed p := by
  have htunnels : net.tunnelInterfaces ≠ [] ↔ net.hasTunnels = true := by
    simp [Network.hasTunnels]
  unfold Network.letOut Network.ruleFile Network.Allowed
  rw [List.all_cons, Bool.and_eq_true, Chain.passes, output_passes_iff]
  simp only [htunnels]
  cases ht : net.hasTunnels with
  | false =>
    -- one chain, and it defers nothing
    simp [Network.rewrittenChain, ht, Hook.oif]
  | true =>
    have hpost : net.rewrittenChain.all (fun chain => chain.passes p) = true ↔
        passes p.finalOif net.postroutingRules true p = true := by
      simp [Network.rewrittenChain, ht, Chain.passes, Hook.oif]
    rw [hpost, postrouting_passes_iff]
    cases hd : p.dnat <;> simp [Hook.oif]

end Egress
