/-
# The unit that loads the egress table

`yolobox-egress.service`: before the full rules it loads the recovery table, or the
last-resort table where that one does not load.  A file is one nft transaction, so a load
replaces the table or leaves it as it was, also when nft is killed.  Stopping the unit
loads nothing.
-/
import Yolobox.Egress.Policy
import Yolobox.Lib.Transition

open Transition

namespace Egress

/-! ## The fallback tables -/

/-- A packet, with what connection tracking says of its connection. -/
structure Tracked extends Packet where
  established : Bool      -- `ct state established,related`
  deriving DecidableEq, Repr

/-- `recoveryFile` -/
def recoveryFile : Chain :=
  ⟨.output, true,
    [⟨[.oifname [lit "lo"]], .accept⟩,
     ⟨[.ctDirectionReply], .accept⟩,
     ⟨[.udpSport 68, .udpDport 67, .ipDaddr [lit "255.255.255.255", limaGateway]], .accept⟩,
     ⟨[.icmpv6Type [133, 135, 136]], .accept⟩,
     ⟨[], .log⟩,
     ⟨[], .reject⟩]⟩

/-- What a rule without `ct state` decides on a tracked packet in the output hook. -/
def Rule.onTracked (rule : Rule) : FirstMatch.Rule Tracked Bool :=
  fun p => rule.decides p.firstOif p.toPacket

/-- `lastResortFile`, whose policy is to drop. -/
def lastResortRules : List (FirstMatch.Rule Tracked Bool) :=
  [Rule.onTracked ⟨[.oifname [lit "lo"]], .accept⟩,
   FirstMatch.rule Tracked.established true,
   Rule.onTracked ⟨[.udpSport 68, .udpDport 67], .accept⟩]

/-- The table `inet yolobox-egress`, by the file it was loaded from. -/
inductive Table
  | full (net : Network)
  | recovery
  | lastResort

def Table.letOut : Table → Tracked → Bool
  | .full net, p => net.letOut p.toPacket
  | .recovery, p => recoveryFile.passes p.toPacket
  | .lastResort, p => FirstMatch.verdict lastResortRules false p

/-! ## The unit -/

inductive Phase
  | inactive
  | recovery (net : Network)      -- `ExecStartPre` loads the recovery file
  | lastResort (net : Network)    -- .. which failed, and loads the last-resort file
  | rules (net : Network)         -- `ExecStart` loads the rule file
  | active (net : Network)
  | failed

/-- The unit and its table, since the box booted. -/
structure Service where
  table : Option Table
  phase : Phase

inductive Action
  | start (net : Network)
  | stop
  | ends (loaded : Bool)       -- nft ends by itself
  | killed (loaded : Bool)     -- nft is killed, and the unit with it

/-- A transaction of nft. -/
def Service.load (s : Service) (table : Table) (loaded : Bool) (phase : Phase) : Service :=
  ⟨if loaded then some table else s.table, phase⟩

/-- The table that nft is at, and where the unit goes from there. -/
def Phase.loads : Phase → Option (Table × Phase × Phase)
  | .recovery net => some (.recovery, .rules net, .lastResort net)
  | .lastResort net => some (.lastResort, .rules net, .failed)
  | .rules net => some (.full net, .active net, .failed)
  | _ => none

/-- A unit that can be started. -/
def Phase.isOver : Phase → Bool
  | .inactive => true
  | .failed => true
  | _ => false

def Phase.isActive : Phase → Bool
  | .active _ => true
  | _ => false

def step (s : Service) : Action → Option Service
  | .start net => if s.phase.isOver then some ⟨s.table, .recovery net⟩ else none
  | .stop => if s.phase.isActive then some ⟨s.table, .inactive⟩ else none
  | .ends loaded =>
    s.phase.loads.map fun (table, onward, refused) =>
      s.load table loaded (if loaded then onward else refused)
  | .killed loaded => s.phase.loads.map fun (table, _, _) => s.load table loaded .failed

def boot : Service := ⟨none, .inactive⟩

/-- What the box sends; without a table it is everything. -/
def Service.letOut (s : Service) (p : Tracked) : Bool := s.table.all fun table => table.letOut p

/-- An action in which a table is loaded. -/
def Action.isLoad : Action → Bool
  | .ends loaded => loaded
  | .killed loaded => loaded
  | _ => false

/-! ## What the fallback tables let out -/

variable {p : Tracked}

theorem recovery_letOut_iff : Table.recovery.letOut p = true ↔
    p.firstOif = lit "lo" ∨ p.reply = true ∨ isDhcp p.toPacket ∨ isNeighbourDiscovery p.toPacket := by
  rw [Table.letOut, Chain.passes, ← dhcp_holds_iff p.firstOif, isNeighbourDiscovery,
    ← icmpv6_holds_iff p.firstOif]
  unfold recoveryFile
  simp only [Hook.oif, passes_accept, passes_log, passes_reject, List.all_cons, List.all_nil,
    Bool.and_true, Bool.not_true, Bool.false_and, Bool.or_false, Bool.or_eq_true, Bool.and_eq_true,
    oifname_holds_iff, reply_holds_iff, List.mem_singleton]

theorem lastResort_letOut_iff : Table.lastResort.letOut p = true ↔
    p.firstOif = lit "lo" ∨ p.established = true ∨ p.transport = .udp 68 67 := by
  have hdhcp : ((Match.udpSport 68).holds p.firstOif p.toPacket = true ∧
      (Match.udpDport 67).holds p.firstOif p.toPacket = true) ↔ p.transport = .udp 68 67 := by
    unfold Match.holds
    cases p.transport <;> simp
  rw [Table.letOut, ← hdhcp]
  unfold lastResortRules Rule.onTracked Rule.decides
  rw [FirstMatch.verdict_cons, FirstMatch.verdict_rule, FirstMatch.verdict_cons, FirstMatch.verdict_nil]
  simp only [List.all_cons, List.all_nil, Bool.and_true, Statement.verdict]
  cases hlo : (Match.oifname [lit "lo"]).holds p.firstOif p.toPacket <;>
    cases p.established <;>
    cases (Match.udpSport 68).holds p.firstOif p.toPacket <;>
    cases (Match.udpDport 67).holds p.firstOif p.toPacket <;>
    simp_all [Match.holds]

/-! ## What a step does -/

variable {s s' : Service} {a : Action} {table : Table} {onward refused : Phase}

theorem table_load (loaded : Bool) (phase : Phase) :
    (s.load table loaded phase).table = if loaded then some table else s.table := rfl

theorem phase_load (loaded : Bool) (phase : Phase) : (s.load table loaded phase).phase = phase := rfl

/-- A step starts the unit, stops it, or ends the nft that is running. -/
theorem step_cases (h : step s a = some s') :
    (∃ net, a = .start net ∧ s' = ⟨s.table, .recovery net⟩) ∨
    (a = .stop ∧ s' = ⟨s.table, .inactive⟩) ∨
    ∃ table onward refused loaded, s.phase.loads = some (table, onward, refused) ∧
      ((a = .ends loaded ∧ s' = s.load table loaded (if loaded then onward else refused)) ∨
        (a = .killed loaded ∧ s' = s.load table loaded .failed)) := by
  cases a with
  | start net =>
    rw [step, Option.ite_none_right_eq_some] at h
    exact .inl ⟨net, rfl, (Option.some.inj h.2).symm⟩
  | stop =>
    rw [step, Option.ite_none_right_eq_some] at h
    exact .inr (.inl ⟨rfl, (Option.some.inj h.2).symm⟩)
  | ends loaded =>
    rw [step] at h
    obtain ⟨⟨table, onward, refused⟩, hloads, rfl⟩ := Option.map_eq_some_iff.mp h
    exact .inr (.inr ⟨table, onward, refused, loaded, hloads, .inl ⟨rfl, rfl⟩⟩)
  | killed loaded =>
    rw [step] at h
    obtain ⟨⟨table, onward, refused⟩, hloads, rfl⟩ := Option.map_eq_some_iff.mp h
    exact .inr (.inr ⟨table, onward, refused, loaded, hloads, .inr ⟨rfl, rfl⟩⟩)

/-- A table goes only where another comes. -/
theorem table_step (h : step s a = some s') :
    s'.table = none ↔ s.table = none ∧ a.isLoad = false := by
  rcases step_cases h with ⟨net, rfl, rfl⟩ | ⟨rfl, rfl⟩ |
    ⟨table, onward, refused, loaded, -, ⟨rfl, rfl⟩ | ⟨rfl, rfl⟩⟩
  · simp [Action.isLoad]
  · simp [Action.isLoad]
  · cases loaded <;> simp [Action.isLoad, table_load]
  · cases loaded <;> simp [Action.isLoad, table_load]

/-- The loads of a unit, and what each leads to. -/
theorem loads_cases (h : s.phase.loads = some (table, onward, refused)) : ∃ net,
    (s.phase = .recovery net ∧ table = .recovery ∧ onward = .rules net ∧ refused = .lastResort net) ∨
    (s.phase = .lastResort net ∧ table = .lastResort ∧ onward = .rules net ∧ refused = .failed) ∨
    (s.phase = .rules net ∧ table = .full net ∧ onward = .active net ∧ refused = .failed) := by
  cases hphase : s.phase <;> rw [hphase] at h <;> cases h
  case recovery net => exact ⟨net, .inl ⟨rfl, rfl, rfl, rfl⟩⟩
  case lastResort net => exact ⟨net, .inr (.inl ⟨rfl, rfl, rfl, rfl⟩)⟩
  case rules net => exact ⟨net, .inr (.inr ⟨rfl, rfl, rfl, rfl⟩)⟩

/-- The configuration that the unit is at. -/
def Phase.config : Phase → Option Network
  | .recovery net | .lastResort net | .rules net | .active net => some net
  | .inactive | .failed => none

/-- The full rules are tried over a fallback table, and an active unit has its own; every
configuration is one that `known` holds of. -/
structure Inv (known : Network → Prop) (s : Service) : Prop where
  full : ∀ net, s.table = some (.full net) → known net
  config : ∀ net, s.phase.config = some net → known net
  rules : ∀ net, s.phase = .rules net → s.table = some .recovery ∨ s.table = some .lastResort
  active : ∀ net, s.phase = .active net → s.table = some (.full net)

variable {known : Network → Prop}

/-- At the start of a load, or at rest, only what the table and the configuration are counts. -/
theorem inv_of_before {phase : Phase} {loaded : Option Table}
    (hfull : ∀ net, loaded = some (.full net) → known net)
    (hconfig : ∀ net, phase.config = some net → known net)
    (hrules : ∀ net, phase ≠ .rules net) (hactive : ∀ net, phase ≠ .active net) :
    Inv known ⟨loaded, phase⟩ :=
  ⟨hfull, hconfig, fun net h => absurd h (hrules net), fun net h => absurd h (hactive net)⟩

theorem inv_boot : Inv known boot :=
  inv_of_before (by simp) (by simp [Phase.config]) (by simp) (by simp)

theorem inv_load (hinv : Inv known s) (hloads : s.phase.loads = some (table, onward, refused))
    (loaded : Bool) : Inv known (s.load table loaded .failed) ∧
      Inv known (s.load table loaded (if loaded then onward else refused)) := by
  obtain ⟨net, hcases⟩ := loads_cases hloads
  have hnet : known net := by
    rcases hcases with ⟨h, -⟩ | ⟨h, -⟩ | ⟨h, -⟩ <;> exact hinv.config net (by rw [h]; rfl)
  have hfull : ∀ net', (s.load table loaded .failed).table = some (.full net') → known net' := by
    intro net' h
    rw [table_load] at h
    split_ifs at h with hloaded
    · rcases hcases with ⟨-, rfl, -⟩ | ⟨-, rfl, -⟩ | ⟨-, rfl, -⟩ <;> cases h
      exact hnet
    · exact hinv.full net' h
  refine ⟨inv_of_before hfull (by simp [Phase.config]) (by simp) (by simp), ?_⟩
  rcases hcases with ⟨-, rfl, rfl, rfl⟩ | ⟨-, rfl, rfl, rfl⟩ | ⟨-, rfl, rfl, rfl⟩ <;> cases loaded
  · exact inv_of_before hfull (by rintro net' ⟨⟩; exact hnet) (by simp) (by simp)
  · exact ⟨hfull, by rintro net' ⟨⟩; exact hnet, fun _ _ => .inl rfl, by simp [phase_load]⟩
  · exact inv_of_before hfull (by simp [Phase.config]) (by simp) (by simp)
  · exact ⟨hfull, by rintro net' ⟨⟩; exact hnet, fun _ _ => .inr rfl, by simp [phase_load]⟩
  · exact inv_of_before hfull (by simp [Phase.config]) (by simp) (by simp)
  · exact ⟨hfull, by rintro net' ⟨⟩; exact hnet, by simp [phase_load], by rintro net' ⟨⟩; rfl⟩

theorem inv_step (hinv : Inv known s) (hknown : ∀ net, a = .start net → known net)
    (h : step s a = some s') : Inv known s' := by
  rcases step_cases h with ⟨net, rfl, rfl⟩ | ⟨rfl, rfl⟩ |
    ⟨table, onward, refused, loaded, hloads, ⟨rfl, rfl⟩ | ⟨rfl, rfl⟩⟩
  · exact inv_of_before hinv.full (by rintro net' ⟨⟩; exact hknown net rfl) (by simp) (by simp)
  · exact inv_of_before hinv.full (by simp [Phase.config]) (by simp) (by simp)
  · exact (inv_load hinv hloads loaded).2
  · exact (inv_load hinv hloads loaded).1

/-! ## Runs -/

variable {as : List Action}

theorem table_run (h : run step s as = some s') :
    s'.table = none ↔ s.table = none ∧ ∀ a ∈ as, a.isLoad = false := by
  induction as generalizing s with
  | nil =>
    rw [run_nil, Option.some.injEq] at h
    simp [h]
  | cons a as ih =>
    rw [run_cons, Option.bind_eq_some_iff] at h
    obtain ⟨t, ht, hrest⟩ := h
    rw [ih hrest, table_step ht, List.forall_mem_cons, and_assoc]

theorem inv_run (hinv : Inv known s) (hknown : ∀ net, .start net ∈ as → known net)
    (h : run step s as = some s') : Inv known s' := by
  induction as generalizing s with
  | nil =>
    rw [run_nil, Option.some.injEq] at h
    exact h ▸ hinv
  | cons a as ih =>
    rw [run_cons, Option.bind_eq_some_iff] at h
    obtain ⟨t, ht, hrest⟩ := h
    refine ih (inv_step hinv (fun net ha => hknown net ?_) ht) (fun net hmem => hknown net ?_) hrest
    · exact ha ▸ List.mem_cons_self
    · exact List.mem_cons_of_mem a hmem

/-- What a fallback table may let out, of whatever configuration. -/
def isFallback (p : Tracked) : Prop :=
  p.firstOif = lit "lo" ∨ p.reply = true ∨ p.established = true ∨ p.transport = .udp 68 67 ∨
    isNeighbourDiscovery p.toPacket

theorem isFallback_of_recovery (h : Table.recovery.letOut p = true) : isFallback p := by
  rcases recovery_letOut_iff.mp h with hlo | hreply | hdhcp | hnd
  · exact .inl hlo
  · exact .inr (.inl hreply)
  · exact .inr (.inr (.inr (.inl hdhcp.1)))
  · exact .inr (.inr (.inr (.inr hnd)))

theorem isFallback_of_lastResort (h : Table.lastResort.letOut p = true) : isFallback p := by
  rcases lastResort_letOut_iff.mp h with hlo | hestablished | hdhcp
  · exact .inl hlo
  · exact .inr (.inr (.inl hestablished))
  · exact .inr (.inr (.inr (.inl hdhcp)))

/-- **The box fails closed.**  In every run since the boot, of starts of any configurations, stops,
loads that fail and kills: there is a table as soon as one load has succeeded, and never less
from then on; the full rules are tried over a fallback; an active unit lets out what its
configuration allows; and whatever a box with a table sends, a fallback lets out or the
configuration of an earlier start allows. -/
theorem closed_of_run (h : run step boot as = some s) :
    (s.table = none ↔ ∀ a ∈ as, a.isLoad = false) ∧
    (∀ net, s.phase = .rules net → ∀ p, s.letOut p = true → isFallback p) ∧
    (∀ net, s.phase = .active net → ∀ p, s.letOut p = true ↔ net.Allowed p.toPacket) ∧
    (s.table ≠ none → ∀ p, s.letOut p = true →
      isFallback p ∨ ∃ net, Action.start net ∈ as ∧ net.Allowed p.toPacket) := by
  have hinv : Inv (fun net => Action.start net ∈ as) s :=
    inv_run inv_boot (fun _ => id) h
  refine ⟨?_, fun net hphase p hout => ?_, fun net hphase p => ?_, fun htable p hout => ?_⟩
  · rw [table_run h]
    exact and_iff_right rfl
  · rcases hinv.rules net hphase with htable | htable <;> rw [Service.letOut, htable] at hout
    · exact isFallback_of_recovery hout
    · exact isFallback_of_lastResort hout
  · rw [Service.letOut, hinv.active net hphase]
    exact letOut_iff net p.toPacket
  · obtain ⟨table, hsome⟩ := Option.ne_none_iff_exists'.mp htable
    rw [Service.letOut, hsome] at hout
    cases table with
    | full net => exact .inr ⟨net, hinv.full net hsome, (letOut_iff net p.toPacket).mp hout⟩
    | recovery => exact .inl (isFallback_of_recovery hout)
    | lastResort => exact .inl (isFallback_of_lastResort hout)

def plainNetwork : Network where
  lanAllow := []
  tunnelInterfaces := []
  cidrs := rfl
  ifaces := rfl
  distinct := by decide

/-- Neither the recovery table nor the full rules load. -/
theorem closed_of_run_lastResort :
    (Service.mk (some .lastResort) .failed).table ≠ none ∧
      ∀ p, (Service.mk (some .lastResort) .failed).letOut p = true →
        isFallback p ∨ ∃ net, Action.start net ∈ [.start plainNetwork, .ends false, .ends true, .ends false] ∧
          net.Allowed p.toPacket :=
  ⟨by simp, (closed_of_run (show run step boot [.start plainNetwork, .ends false, .ends true, .ends false] =
    some ⟨some .lastResort, .failed⟩ from rfl)).2.2.2 (by simp)⟩

end Egress
