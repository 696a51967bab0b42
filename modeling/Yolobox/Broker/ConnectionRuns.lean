/-
# Permits and slots are accounted for

`Inv` counts the permits and the slots: those of the threads, the one in the accept loop
and the free ones make the bound.  Each step moves at most one of each.
-/
import Yolobox.Broker.Connections
import Yolobox.Lib.Transition

open Semaphore Transition

namespace Connections

open Broker (Config Reply credsProfile credsPathPrefix healthRoute busyReply)

variable {cfg : Config} {b : Bounds} {s s' : Server} {n : ℕ} {c : Conn}

/-- One while the loop holds a permit. -/
def Server.inLoop (s : Server) : ℕ := if s.starting.isSome then 1 else 0

/-- A path that asks for no credentials gets `/health`'s reply, or its 404. -/
def Conn.Served (cfg : Config) : Conn → Prop
  | .handled (.sending path reply) _ => credsProfile path = none → reply = healthRoute cfg path
  | _ => True

structure Inv (cfg : Config) (b : Bounds) (s : Server) : Prop where
  permits : s.count Conn.holdsPermit + s.inLoop + s.permits = b.maxConnections
  slots : s.count Conn.holdsSlot + s.slots = b.maxConcurrent
  fresh : ∀ n, s.accepted ≤ n → s.conn n = .absent
  starting : ∀ n, s.starting = some n → n < s.accepted ∧ s.conn n = .absent
  served : ∀ n, (s.conn n).Served cfg

theorem inv_init : Inv cfg b (.init b) :=
  ⟨by simp [Server.init, Server.count, Server.inLoop],
    by simp [Server.init, Server.count], fun _ _ => rfl, nofun, fun _ => trivial⟩

theorem Inv.lt_accepted (h : Inv cfg b s) (hn : s.conn n ≠ .absent) : n < s.accepted := by
  by_contra hge
  exact hn (h.fresh n (Nat.not_lt.mp hge))

/-! ## One connection goes on -/

/-- What a step of one connection does to a count. -/
theorem count_set (holds : Conn → Bool) (hn : n < s.accepted) :
    (s.set n c).count holds + (if holds (s.conn n) = true then 1 else 0)
      = s.count holds + if holds c = true then 1 else 0 :=
  held_update hn

@[simp] theorem set_permits : (s.set n c).permits = s.permits := rfl
@[simp] theorem set_slots : (s.set n c).slots = s.slots := rfl
@[simp] theorem set_accepted : (s.set n c).accepted = s.accepted := rfl
@[simp] theorem set_starting : (s.set n c).starting = s.starting := rfl
@[simp] theorem set_inLoop : (s.set n c).inLoop = s.inLoop := rfl

/-- Where the connection leads and what it holds, given the permits and slots it takes. -/
theorem inv_set (permits slots : ℕ) (starting : Option ℕ) (h : Inv cfg b s) (hn : n < s.accepted)
    (hpermits : (s.set n c).count Conn.holdsPermit + (if starting.isSome then 1 else 0) + permits
      = b.maxConnections)
    (hslots : (s.set n c).count Conn.holdsSlot + slots = b.maxConcurrent)
    (hstarting : ∀ k, starting = some k → s.starting = some k ∧ k ≠ n)
    (hserved : c.Served cfg) :
    Inv cfg b { s.set n c with permits := permits, slots := slots, starting := starting } := by
  refine ⟨hpermits, hslots, fun k hk => ?_, fun k hk => ?_, fun k => ?_⟩
  · show Function.update s.conn n c k = .absent
    rw [Function.update_of_ne (by have hk' : s.accepted ≤ k := hk; omega)]
    exact h.fresh k hk
  · obtain ⟨hs, hne⟩ := hstarting k hk
    refine ⟨(h.starting k hs).1, ?_⟩
    show Function.update s.conn n c k = .absent
    rw [Function.update_of_ne hne]
    exact (h.starting k hs).2
  · show (Function.update s.conn n c k).Served cfg
    obtain rfl | hne := eq_or_ne k n
    · rw [Function.update_self]
      exact hserved
    · rw [Function.update_of_ne hne]
      exact h.served k

/-- A connection that neither takes nor gives back. -/
theorem inv_keep {phase : Phase} {outOfTime : Bool} (h : Inv cfg b s)
    (hconn : s.conn n = .handled phase outOfTime)
    (hpermit : c.holdsPermit = (Conn.handled phase outOfTime).holdsPermit)
    (hslot : c.holdsSlot = (Conn.handled phase outOfTime).holdsSlot) (hserved : c.Served cfg) :
    Inv cfg b (s.set n c) := by
  have hne : s.conn n ≠ .absent := by rw [hconn]; nofun
  have hn := h.lt_accepted hne
  have hp := count_set (c := c) Conn.holdsPermit hn
  have hs := count_set (c := c) Conn.holdsSlot hn
  rw [hconn, ← hpermit] at hp
  rw [hconn, ← hslot] at hs
  refine inv_set s.permits s.slots s.starting h hn ?_ ?_ ?_ hserved
  · have := h.permits
    unfold Server.inLoop at this
    omega
  · have := h.slots
    omega
  · intro k hk
    refine ⟨hk, ?_⟩
    rintro rfl
    exact hne (h.starting k hk).2

/-- The loop's connection is not one that a thread handles. -/
theorem Inv.ne_starting {k : ℕ} (h : Inv cfg b s) (hn : s.conn n ≠ .absent)
    (hk : s.starting = some k) : k ≠ n := by
  rintro rfl
  exact hn (h.starting k hk).2

theorem inv_dispatch {path : PyStr} {outOfTime : Bool} (h : Inv cfg b s)
    (hconn : s.conn n = .handled (.asked path) outOfTime) :
    Inv cfg b (dispatch cfg b s n path outOfTime) := by
  have hne : s.conn n ≠ .absent := by rw [hconn]; nofun
  unfold dispatch
  split
  · exact inv_keep h hconn rfl rfl fun _ => rfl
  · rename_i profile hprofile
    have hcreds : credsProfile path = some profile := by
      split_ifs at hprofile
      exact hprofile
    split
    · exact inv_keep h hconn rfl rfl fun hnone => absurd (hcreds.symm.trans hnone) nofun
    · rename_i free hfree
      have hn := h.lt_accepted hne
      have hp := count_set (c := .handled (.route profile) outOfTime) Conn.holdsPermit hn
      have hs := count_set (c := .handled (.route profile) outOfTime) Conn.holdsSlot hn
      rw [hconn] at hp hs
      simp only [Conn.holdsPermit, Conn.holdsSlot, if_true, Bool.false_eq_true, if_false] at hp hs
      have hslots := h.slots
      have hpermits := h.permits
      rw [acquire_eq_some_iff] at hfree
      unfold Server.inLoop at hpermits
      exact inv_set s.permits free s.starting h hn (by omega) (by omega)
        (fun k hk => ⟨hk, h.ne_starting hne hk⟩) trivial

theorem inv_leave {profile : PyStr} {reply : Option Reply} {outOfTime : Bool} (h : Inv cfg b s)
    (hconn : s.conn n = .handled (.leaving profile reply) outOfTime) :
    s.slots < b.maxConcurrent ∧
      Inv cfg b (releaseSlot b (s.set n (.handled (afterRoute profile reply) outOfTime))) := by
  have hne : s.conn n ≠ .absent := by rw [hconn]; nofun
  have hn := h.lt_accepted hne
  have hslots := h.slots
  have hpos : 0 < s.count Conn.holdsSlot := held_pos hn (by rw [hconn]; rfl)
  refine ⟨by omega, ?_⟩
  have hserved : (Conn.handled (afterRoute profile reply) outOfTime).Served cfg := by
    cases reply with
    | none => trivial
    | some reply =>
      intro hnone
      have hsome : credsProfile (credsPathPrefix ++ profile) = some profile := by
        simp [credsProfile]
      exact absurd (hsome.symm.trans hnone) nofun
  have hholds : (Conn.handled (afterRoute profile reply) outOfTime).holdsPermit = true ∧
      (Conn.handled (afterRoute profile reply) outOfTime).holdsSlot = false := by
    cases reply <;> exact ⟨rfl, rfl⟩
  have hp := count_set (c := .handled (afterRoute profile reply) outOfTime) Conn.holdsPermit hn
  have hs := count_set (c := .handled (afterRoute profile reply) outOfTime) Conn.holdsSlot hn
  rw [hconn, hholds.1] at hp
  rw [hconn, hholds.2] at hs
  simp only [Conn.holdsPermit, Conn.holdsSlot, if_true, Bool.false_eq_true, if_false] at hp hs
  have hpermits := h.permits
  unfold Server.inLoop at hpermits
  unfold releaseSlot
  rw [set_slots, release_of_lt (by omega)]
  exact inv_set s.permits (s.slots + 1) s.starting h hn (by omega) (by omega)
    (fun k hk => ⟨hk, h.ne_starting hne hk⟩) hserved

theorem inv_release {outOfTime : Bool} (h : Inv cfg b s)
    (hconn : s.conn n = .handled .releasing outOfTime) :
    s.permits < b.maxConnections ∧
      Inv cfg b (releasePermit b (s.set n (.handled .ending outOfTime))) := by
  have hne : s.conn n ≠ .absent := by rw [hconn]; nofun
  have hn := h.lt_accepted hne
  have hpermits := h.permits
  have hpos : 0 < s.count Conn.holdsPermit := held_pos hn (by rw [hconn]; rfl)
  refine ⟨by omega, ?_⟩
  have hp := count_set (c := .handled .ending outOfTime) Conn.holdsPermit hn
  have hs := count_set (c := .handled .ending outOfTime) Conn.holdsSlot hn
  rw [hconn] at hp hs
  simp only [Conn.holdsPermit, Conn.holdsSlot, if_true, Bool.false_eq_true, if_false] at hp hs
  have hslots := h.slots
  unfold releasePermit
  rw [set_permits, release_of_lt (by omega)]
  unfold Server.inLoop at hpermits
  exact inv_set (s.permits + 1) s.slots s.starting h hn (by omega) (by omega)
    (fun k hk => ⟨hk, h.ne_starting hne hk⟩) trivial

/-! ## The accept loop -/

theorem inv_accept (h : Inv cfg b s) (hidle : s.starting = none) : Inv cfg b (accept s) := by
  have habsent := h.fresh s.accepted le_rfl
  have hpermits := h.permits
  have hslots := h.slots
  simp only [Server.inLoop, hidle, Option.isSome_none, Bool.false_eq_true, if_false] at hpermits
  unfold accept
  split
  · refine ⟨?_, ?_, fun k hk => ?_, fun k hk => ?_, fun k => ?_⟩
    · simp only [Server.count, Server.inLoop, hidle, Option.isSome_none, Bool.false_eq_true,
        if_false, held_succ, held_update_of_le le_rfl, Function.update_self, Conn.holdsPermit]
      exact hpermits
    · simp only [Server.count, held_succ, held_update_of_le le_rfl, Function.update_self,
        Conn.holdsSlot, Bool.false_eq_true, if_false]
      exact hslots
    · have hk' : s.accepted + 1 ≤ k := hk
      show Function.update s.conn s.accepted .closed k = .absent
      rw [Function.update_of_ne (by omega)]
      exact h.fresh k (by omega)
    · exact nomatch hidle.symm.trans hk
    · show (Function.update s.conn s.accepted .closed k).Served cfg
      obtain rfl | hne := eq_or_ne k s.accepted
      · rw [Function.update_self]
        trivial
      · rw [Function.update_of_ne hne]
        exact h.served k
  · rename_i free hfree
    rw [acquire_eq_some_iff] at hfree
    refine ⟨?_, ?_, fun k hk => h.fresh k (by have hk' : s.accepted + 1 ≤ k := hk; omega), ?_,
      h.served⟩
    · simp only [Server.count, Server.inLoop, Option.isSome_some, if_true, held_succ, habsent,
        Conn.holdsPermit, Bool.false_eq_true, if_false]
      simp only [Server.count] at hpermits
      omega
    · simp only [Server.count, held_succ, habsent, Conn.holdsSlot, Bool.false_eq_true, if_false]
      exact hslots
    · intro k hk
      obtain rfl := Option.some.inj hk
      exact ⟨Nat.lt_succ_self _, habsent⟩

theorem inv_started (h : Inv cfg b s) (hn : s.starting = some n) :
    Inv cfg b { s.set n (.handled .reading false) with starting := none } := by
  obtain ⟨hlt, habsent⟩ := h.starting n hn
  have hp := count_set (c := .handled .reading false) Conn.holdsPermit hlt
  have hs := count_set (c := .handled .reading false) Conn.holdsSlot hlt
  rw [habsent] at hp hs
  simp only [Conn.holdsPermit, Conn.holdsSlot, if_true, Bool.false_eq_true, if_false] at hp hs
  have hpermits := h.permits
  have hslots := h.slots
  simp only [Server.inLoop, hn, Option.isSome_some, if_true] at hpermits
  refine inv_set s.permits s.slots none h hlt ?_ (by omega) nofun trivial
  simp only [Option.isSome_none, Bool.false_eq_true, if_false]
  omega

theorem inv_notStarted (h : Inv cfg b s) (hn : s.starting = some n) :
    s.permits < b.maxConnections ∧
      Inv cfg b (releasePermit b { s.set n .closed with starting := none }) := by
  obtain ⟨hlt, habsent⟩ := h.starting n hn
  have hp := count_set (c := .closed) Conn.holdsPermit hlt
  have hs := count_set (c := .closed) Conn.holdsSlot hlt
  rw [habsent] at hp hs
  simp only [Conn.holdsPermit, Conn.holdsSlot, Bool.false_eq_true, if_false] at hp hs
  have hpermits := h.permits
  have hslots := h.slots
  simp only [Server.inLoop, hn, Option.isSome_some, if_true] at hpermits
  refine ⟨by omega, ?_⟩
  unfold releasePermit
  rw [show ({ s.set n .closed with starting := none } : Server).permits = s.permits from rfl,
    release_of_lt (by omega)]
  refine inv_set (s.permits + 1) s.slots none h hlt ?_ (by omega) nofun trivial
  simp only [Option.isSome_none, Bool.false_eq_true, if_false]
  omega

/-! ## Every step -/

theorem inv_threadStep {phase : Phase} {outOfTime : Bool} {a : Action} (h : Inv cfg b s)
    (hconn : s.conn n = .handled phase outOfTime)
    (hstep : threadStep cfg b s n phase outOfTime a = some s') : Inv cfg b s' := by
  cases a with
  | head _ path =>
    cases phase <;> simp only [threadStep, reduceCtorEq] at hstep
    split_ifs at hstep
    obtain rfl := Option.some.inj hstep
    exact inv_keep h hconn rfl rfl trivial
  | dispatch _ =>
    cases phase <;> simp only [threadStep, reduceCtorEq] at hstep
    obtain rfl := Option.some.inj hstep
    exact inv_dispatch h hconn
  | routeEnds _ reply =>
    cases phase <;> simp only [threadStep, reduceCtorEq] at hstep
    obtain rfl := Option.some.inj hstep
    exact inv_keep h hconn rfl rfl trivial
  | leave _ =>
    cases phase <;> simp only [threadStep, reduceCtorEq] at hstep
    obtain rfl := Option.some.inj hstep
    exact (inv_leave h hconn).2
  | sent _ =>
    cases phase <;> simp only [threadStep, reduceCtorEq] at hstep
    split_ifs at hstep
    obtain rfl := Option.some.inj hstep
    exact inv_keep h hconn rfl rfl trivial
  | fails _ =>
    cases phase <;> simp only [threadStep, reduceCtorEq] at hstep <;>
      · obtain rfl := Option.some.inj hstep
        exact inv_keep h hconn rfl rfl trivial
  | deadline _ =>
    have hserved := h.served n
    rw [hconn] at hserved
    simp only [threadStep] at hstep
    split_ifs at hstep
    obtain rfl := Option.some.inj hstep
    cases phase <;> exact inv_keep h hconn rfl rfl hserved
  | shutdown _ =>
    cases phase <;> simp only [threadStep, reduceCtorEq] at hstep
    obtain rfl := Option.some.inj hstep
    exact inv_keep h hconn rfl rfl trivial
  | release _ =>
    cases phase <;> simp only [threadStep, reduceCtorEq] at hstep
    obtain rfl := Option.some.inj hstep
    exact (inv_release h hconn).2
  | exit _ =>
    cases phase <;> simp only [threadStep, reduceCtorEq] at hstep
    obtain rfl := Option.some.inj hstep
    exact inv_keep h hconn rfl rfl trivial
  | accept => exact nomatch hstep
  | started => exact nomatch hstep
  | notStarted => exact nomatch hstep

/-- The loop's steps, and the threads'. -/
theorem step_cases {a : Action} (hstep : step cfg b s a = some s') :
    (∃ n phase outOfTime, s.conn n = .handled phase outOfTime ∧ a.thread = some n ∧
      threadStep cfg b s n phase outOfTime a = some s') ∨
    (a = .accept ∧ s.starting = none ∧ s' = accept s) ∨
    (∃ n, a = .started ∧ s.starting = some n ∧
      s' = { s.set n (.handled .reading false) with starting := none }) ∨
    ∃ n, a = .notStarted ∧ s.starting = some n ∧
      s' = releasePermit b { s.set n .closed with starting := none } := by
  unfold step at hstep
  split at hstep
  · rename_i n hthread
    split at hstep
    · rename_i phase outOfTime hconn
      exact .inl ⟨n, phase, outOfTime, hconn, hthread, hstep⟩
    · exact nomatch hstep
  · split at hstep
    · rename_i hidle _
      exact .inr (.inl ⟨rfl, hidle, (Option.some.inj hstep).symm⟩)
    · rename_i n hn _
      exact .inr (.inr (.inl ⟨n, rfl, hn, (Option.some.inj hstep).symm⟩))
    · rename_i n hn _
      exact .inr (.inr (.inr ⟨n, rfl, hn, (Option.some.inj hstep).symm⟩))
    · exact nomatch hstep

theorem inv_step {a : Action} (h : Inv cfg b s) (hstep : step cfg b s a = some s') :
    Inv cfg b s' := by
  obtain ⟨n, phase, outOfTime, hconn, -, hthread⟩ | ⟨-, hidle, rfl⟩ | ⟨n, -, hn, rfl⟩ | ⟨n, -, hn, rfl⟩ :=
    step_cases hstep
  · exact inv_threadStep h hconn hthread
  · exact inv_accept h hidle
  · exact inv_started h hn
  · exact (inv_notStarted h hn).2

theorem inv_of_reaches (hr : Reaches (step cfg b) anyStep (.init b) s) : Inv cfg b s :=
  hr.invariant inv_init fun _ _ _ h _ hstep => inv_step h hstep

/-! ## What is closed stays closed -/

/-- A thread's step changes its own connection alone. -/
theorem conn_threadStep {phase : Phase} {outOfTime : Bool} {a : Action}
    (hstep : threadStep cfg b s n phase outOfTime a = some s') :
    ∃ c, s'.conn = Function.update s.conn n c := by
  cases a with
  | dispatch _ =>
    cases phase <;> simp only [threadStep, reduceCtorEq] at hstep
    obtain rfl := Option.some.inj hstep
    unfold dispatch
    split
    · exact ⟨_, rfl⟩
    · split <;> exact ⟨_, rfl⟩
  | _ =>
    cases phase <;> simp only [threadStep, reduceCtorEq] at hstep <;> (try split_ifs at hstep) <;>
      · obtain rfl := Option.some.inj hstep
        exact ⟨_, rfl⟩

theorem closed_step {a : Action} {k : ℕ} (h : Inv cfg b s) (hk : s.conn k = .closed)
    (hstep : step cfg b s a = some s') : s'.conn k = .closed := by
  have hne : s.conn k ≠ .absent := by rw [hk]; nofun
  have hlt := h.lt_accepted hne
  obtain ⟨n, phase, outOfTime, hconn, -, hthread⟩ | ⟨-, hidle, rfl⟩ | ⟨n, -, hn, rfl⟩ | ⟨n, -, hn, rfl⟩ :=
    step_cases hstep
  · obtain ⟨c, hc⟩ := conn_threadStep hthread
    have hkn : k ≠ n := by
      rintro rfl
      exact nomatch hk.symm.trans hconn
    rw [hc, Function.update_of_ne hkn, hk]
  · unfold accept
    split
    · show Function.update s.conn s.accepted .closed k = .closed
      rw [Function.update_of_ne (by omega), hk]
    · exact hk
  · show Function.update s.conn n (.handled .reading false) k = .closed
    rw [Function.update_of_ne (h.ne_starting hne hn).symm, hk]
  · show Function.update s.conn n .closed k = .closed
    rw [Function.update_of_ne (h.ne_starting hne hn).symm, hk]

theorem closed_of_reaches {k : ℕ} (h : Inv cfg b s) (hk : s.conn k = .closed)
    (hr : Reaches (step cfg b) anyStep s s') : s'.conn k = .closed :=
  (hr.invariant (I := fun t => Inv cfg b t ∧ t.conn k = .closed) ⟨h, hk⟩
    fun _ _ _ ht _ hstep => ⟨inv_step ht.1 hstep, closed_step ht.1 ht.2 hstep⟩).2

/-! ## The account -/

/-- What holds of a server at every moment. -/
structure Accounted (cfg : Config) (b : Bounds) (s : Server) : Prop where
  /-- The threads that hold a permit, the loop's permit and the free ones make the bound. -/
  permits : s.count Conn.holdsPermit + s.inLoop + s.permits = b.maxConnections
  /-- No permit is given back to a full semaphore. -/
  permit_missing : ∀ n, s.starting = some n ∨ (∃ t, s.conn n = .handled .releasing t) →
    s.permits < b.maxConnections
  /-- Over the bound, the next connection is closed, and no thread ever takes it. -/
  over_bound : s.permits = 0 → s.starting = none → ∃ s', step cfg b s .accept = some s' ∧
    s'.count Conn.live = s.count Conn.live ∧
    ∀ s'', Reaches (step cfg b) anyStep s' s'' → s''.conn s.accepted = .closed
  /-- The requests that hold a slot and the free ones make the other bound. -/
  slots : s.count Conn.holdsSlot + s.slots = b.maxConcurrent
  in_route : s.count Conn.inRoute ≤ b.maxConcurrent
  slot_missing : ∀ n profile reply t, s.conn n = .handled (.leaving profile reply) t →
    s.slots < b.maxConcurrent
  /-- A request outside `/creds/` is answered, whatever the slots. -/
  health : ∀ n path t, s.conn n = .handled (.asked path) t → credsProfile path = none →
    step cfg b s (.dispatch n)
      = some (s.set n (.handled (.sending path (healthRoute cfg path)) t))
  health_reply : ∀ n path reply t, s.conn n = .handled (.sending path reply) t →
    credsProfile path = none → reply = healthRoute cfg path

theorem over_bound_of_inv (h : Inv cfg b s) (hzero : s.permits = 0) (hidle : s.starting = none) :
    ∃ s', step cfg b s .accept = some s' ∧ s'.count Conn.live = s.count Conn.live ∧
      ∀ s'', Reaches (step cfg b) anyStep s' s'' → s''.conn s.accepted = .closed := by
  have hstep : step cfg b s .accept = some (accept s) := by
    simp [step, Action.thread, hidle]
  have haccept : accept s = { s with saturated := true, accepted := s.accepted + 1,
                                     conn := Function.update s.conn s.accepted .closed } := by
    unfold accept
    rw [acquire_eq_none_iff.mpr hzero]
  refine ⟨accept s, hstep, ?_, fun s'' hr => closed_of_reaches (inv_step h hstep) ?_ hr⟩
  · rw [haccept]
    simp only [Server.count, held_succ, held_update_of_le le_rfl, Function.update_self, Conn.live,
      Bool.false_eq_true, if_false, Nat.add_zero]
  · rw [haccept]
    exact Function.update_self ..

/-- **Every permit and every slot is accounted for**, at every moment of every
interleaving; the bounds hold, and `/health` needs no slot. -/
theorem accounted_of_reaches (hr : Reaches (step cfg b) anyStep (.init b) s) :
    Accounted cfg b s := by
  have h := inv_of_reaches hr
  refine ⟨h.permits, ?_, over_bound_of_inv h, h.slots, ?_, ?_, ?_, ?_⟩
  · rintro n (hn | ⟨t, hconn⟩)
    · exact (inv_notStarted h hn).1
    · exact (inv_release h hconn).1
  · have hle : s.count Conn.inRoute ≤ s.count Conn.holdsSlot := held_le fun c hc => by
      unfold Conn.inRoute at hc
      split at hc
      · rfl
      · exact absurd hc Bool.false_ne_true
    have hslots := h.slots
    omega
  · intro n profile reply t hconn
    exact (inv_leave h hconn).1
  · intro n path t hconn hpath
    simp [step, Action.thread, hconn, threadStep, dispatch, hpath]
  · intro n path reply t hconn hpath
    have hserved := h.served n
    rw [hconn] at hserved
    exact hserved hpath

def noProfiles : Config := ⟨[], 0, 32, 1, 2⟩

/-- Two connections of one profile and a third: the first is in the credentials route, the
second finds no slot, and the third is over the bound. -/
def crowd : List Action :=
  [.accept, .started, .head 0 (credsPathPrefix ++ lit "dev"), .dispatch 0,
    .accept, .started, .head 1 (credsPathPrefix ++ lit "dev"), .dispatch 1, .accept]

/-- A thread is in the credentials route and a connection was closed without one. -/
theorem accounted_of_reaches_crowd :
    ∃ s, (s.conn 0).inRoute = true ∧ s.conn 2 = .closed ∧ s.saturated = true ∧
      Accounted noProfiles ⟨2, 1, true⟩ s := by
  obtain ⟨s, hs, hroute, hclosed, hsaturated⟩ : ∃ s,
      run (guarded (step noProfiles ⟨2, 1, true⟩) anyStep) (.init ⟨2, 1, true⟩) crowd = some s ∧
      (s.conn 0).inRoute = true ∧ s.conn 2 = .closed ∧ s.saturated = true :=
    ⟨_, rfl, rfl, rfl, rfl⟩
  exact ⟨s, hroute, hclosed, hsaturated, accounted_of_reaches (reaches_of_run crowd hs)⟩

/-- **Live threads and free permits alone do not make the bound**: they are one short while
the loop starts a thread, and one over after a thread gave its permit back. -/
theorem live_and_permits_off :
    (∃ s, Reaches (step noProfiles guestBounds) anyStep (.init guestBounds) s ∧
      s.count Conn.live + s.permits < guestBounds.maxConnections) ∧
    ∃ s, Reaches (step noProfiles guestBounds) anyStep (.init guestBounds) s ∧
      guestBounds.maxConnections < s.count Conn.live + s.permits := by
  have hstarting : Reaches (step noProfiles guestBounds) anyStep (.init guestBounds) _ :=
    .tail (a := .accept) .refl trivial rfl
  have hreading := hstarting.tail (a := .started) trivial rfl
  have hclosing := hreading.tail (a := .fails 0) trivial rfl
  have hreleasing := hclosing.tail (a := .shutdown 0) trivial rfl
  have hending := hreleasing.tail (a := .release 0) trivial rfl
  exact ⟨⟨_, hstarting, by decide⟩, _, hending, by decide⟩

end Connections
