/-
# The host's own table

`linux/yolobox-host.nft`: on a Linux host a guest's connections leave as sockets of the
account `yolobox-vm`, and the chain `vm` judges them there, whatever becomes of the table in
the guest.  `goto` leaves what no rule of `vm` decides to the policy of the output chain.
-/
import Yolobox.Egress.Tiers

namespace Egress

/-! ## The table -/

def vmUser : PyStr := lit "yolobox-vm"

/-- A packet the host sends, with the account of its socket where it has a full one. -/
structure Sent extends Tracked where
  owner : Option PyStr

/-- `meta l4proto { tcp, udp } th dport 53` -/
def Transport.toDns : Transport → Bool
  | .udp _ dport => dport == 53
  | .tcp _ dport => dport == 53
  | _ => false

def hostBlockedV6 : List PyStr := blockedV6 ++ [lit "::1"]

/-- `chain vm` -/
def vmRules : List (FirstMatch.Rule Tracked Bool) :=
  [FirstMatch.rule Tracked.established true,
   FirstMatch.rule (fun p => (Match.oifname [lit "lo"]).holds p.firstOif p.toPacket &&
     (Match.ipDaddr [lit "127.0.0.0/8"]).holds p.firstOif p.toPacket && p.transport.toDns) true,
   Rule.onTracked ⟨[.oifname [lit "lo"]], .reject⟩,
   Rule.onTracked ⟨[.ipDaddr blockedV4], .reject⟩,
   Rule.onTracked ⟨[.ip6Daddr hostBlockedV6], .reject⟩]

/-- `chain output`, with the policy to accept. -/
def hostLetOut (p : Sent) : Bool :=
  if p.owner = some vmUser then FirstMatch.verdict vmRules true p.toTracked else true

/-! ## What it lets out -/

variable {p : Tracked} {rules : List (FirstMatch.Rule Tracked Bool)} {accepts : Bool}

theorem verdict_reject (criterion : Match) :
    FirstMatch.verdict (Rule.onTracked ⟨[criterion], .reject⟩ :: rules) accepts p =
      (!criterion.holds p.firstOif p.toPacket && FirstMatch.verdict rules accepts p) := by
  rw [FirstMatch.verdict_cons, Rule.onTracked, Rule.decides, List.all_cons, List.all_nil, Bool.and_true]
  cases criterion.holds p.firstOif p.toPacket <;> rfl

theorem verdict_accept (covers' : Tracked → Bool) :
    FirstMatch.verdict (FirstMatch.rule covers' true :: rules) accepts p =
      (covers' p || FirstMatch.verdict rules accepts p) := by
  rw [FirstMatch.verdict_rule]
  cases covers' p <;> rfl

/-- The host's own addresses. -/
def isLoopback (a : Addr) : Prop := (Block.v4 0x7F000000 8).contains a = true

def isLoopbackV6 (a : Addr) : Prop := a = .v6 1

theorem loopback_holds_iff (oif : PyStr) :
    (Match.ipDaddr [lit "127.0.0.0/8"]).holds oif p.toPacket = true ↔ isLoopback p.daddr := by
  have hread : readElement (lit "127.0.0.0/8") = some (.v4 0x7F000000 8) := by decide
  unfold Match.holds isLoopback
  cases hd : p.daddr <;> simp [covers, hread, Block.contains]

theorem hostBlocked_holds_iff (oif : PyStr) :
    ((Match.ipDaddr blockedV4).holds oif p.toPacket = true ∨
      (Match.ip6Daddr hostBlockedV6).holds oif p.toPacket = true) ↔
      coveredBy blocked p.daddr ∨ isLoopbackV6 p.daddr := by
  rw [← blocked_holds_iff oif, or_assoc]
  refine or_congr_right ?_
  have hread : readElement (lit "::1") = some (.v6 1 128) := by decide
  unfold Match.holds isLoopbackV6 hostBlockedV6
  cases hd : p.daddr with
  | v4 a => simp
  | v6 a => simp [List.any_append, covers, hread, Block.contains]

/-- What leaves the blocked ranges alone is allowed by every configuration of the box. -/
theorem Network.allowed_of_not_blocked (net : Network) {packet : Packet} (h : ¬coveredBy blocked packet.daddr) :
    net.Allowed packet := by
  unfold Network.Allowed
  split_ifs
  · exact .inr (.inr h)
  · exact .inr (.inr (.inr (.inr (.inr (.inr (.inr h))))))

/-- **The host's table.**  It lets out whatever is no box's, and of a box the packets of
connections that stand, DNS to the host's loopback, and what goes elsewhere than to the host and
to the blocked ranges.  So the connections that a box begins are DNS to the loopback and what
the table in the guest allows in every configuration: `lanAllow` opens nothing on a Linux host. -/
theorem hostLetOut_iff (p : Sent) :
    (hostLetOut p = true ↔ p.owner ≠ some vmUser ∨ p.established = true ∨
      (p.firstOif = lit "lo" ∧ isLoopback p.daddr ∧ p.transport.toDns = true) ∨
      (p.firstOif ≠ lit "lo" ∧ ¬coveredBy blocked p.daddr ∧ ¬isLoopbackV6 p.daddr)) ∧
    (p.owner = some vmUser → p.established = false → hostLetOut p = true →
      (isLoopback p.daddr ∧ p.transport.toDns = true) ∨ ∀ net : Network, net.Allowed p.toPacket) := by
  have hiff : hostLetOut p = true ↔ p.owner ≠ some vmUser ∨ p.established = true ∨
      (p.firstOif = lit "lo" ∧ isLoopback p.daddr ∧ p.transport.toDns = true) ∨
      (p.firstOif ≠ lit "lo" ∧ ¬coveredBy blocked p.daddr ∧ ¬isLoopbackV6 p.daddr) := by
    rw [← not_or, ← hostBlocked_holds_iff p.firstOif, ← loopback_holds_iff p.firstOif]
    unfold hostLetOut vmRules
    split_ifs with howner
    · simp only [verdict_accept, verdict_reject, FirstMatch.verdict_nil, Bool.or_eq_true, Bool.and_eq_true,
        Bool.not_eq_true', ← Bool.not_eq_true, oifname_holds_iff, List.mem_singleton, not_or, howner,
        ne_eq, not_true_eq_false, false_or, and_true, and_assoc]
    · exact iff_of_true rfl (.inl howner)
  refine ⟨hiff, fun howner hnew hout => ?_⟩
  rcases hiff.mp hout with habsurd | habsurd | ⟨-, hdns⟩ | ⟨-, hblocked, -⟩
  · exact absurd howner habsurd
  · rw [hnew] at habsurd
    cases habsurd
  · exact .inl hdns
  · exact .inr fun net => net.allowed_of_not_blocked hblocked

end Egress
