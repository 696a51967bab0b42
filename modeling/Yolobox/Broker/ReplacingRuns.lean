/-
# Which broker is left serving

Every step of a broker and of a yo keeps `Inv`.  Its core: beside the broker that a yo has
connected to, or whose READY it waits for, only brokers in a handshake of their own can have a
socket at a name, and what a broker was started with is `inForce` or it is one of those.
-/
import Yolobox.Broker.Replacing

open Transition

namespace Sockets

/-! ## How far a broker is -/

inductive Phase
  | absent
  | setup     -- no SIGTERM handler yet
  | armed
  | running   -- READY is printed
  | dead
  deriving DecidableEq

def Main.phase : Main → Phase
  | .absent => .absent
  | .armed => .armed
  | .serving | .exiting _ => .running
  | .dead => .dead
  | _ => .setup

variable {s s' : State} {b c : ℕ} {p : Path}

theorem phase_reclaimed (p : Path) : (Main.reclaimed p).phase = .setup := by
  cases p <;> rfl

/-- What a step makes of a broker's phase. -/
inductive Phases (s s' : State) (a : Action) (c : ℕ) : Prop
  | same (h : (s'.broker c).main.phase = (s.broker c).main.phase)
  | starts (ha : a = .start) (hc : c = s.started) (h : (s'.broker c).main.phase = .setup)
  | arms (p : Path) (hs : (s.broker c).main = .statting p) (h : (s'.broker c).main.phase = .armed)
  | readies (ha : a = .main c ∨ a = .term c) (hs : (s.broker c).main = .armed)
      (h : (s'.broker c).main.phase = .running)
  | dies (h : s'.broker c = { Broker.none with main := .dead })

theorem phases_set {B : Broker} {a : Action} (hB : B.main.phase = (s.broker b).main.phase) :
    Phases s (s.set b B) a c := by
  refine .same ?_
  by_cases hc : c = b
  · subst hc
    rw [set_broker_self, hB]
  · rw [set_broker_of_ne hc]

theorem phases_die {a : Action} : Phases s (s.die b) a c := by
  by_cases hc : c = b
  · subst hc
    exact .dies (set_broker_self _)
  · exact .same (congrArg (fun B => B.main.phase) (set_broker_of_ne hc _))

theorem phases_setMain {m : Main} {a : Action} (hm : m.phase = (s.broker b).main.phase) :
    Phases s (s.setMain b m) a c :=
  phases_set (B := { s.broker b with main := m }) hm

/-- What the step reads and writes beside the brokers does not matter. -/
theorem Phases.of_broker {t t' : State} {a : Action} (h : Phases t t' a c) (ht : t.broker = s.broker)
    (ht' : s'.broker = t'.broker) (hstarted : t.started = s.started) : Phases s s' a c := by
  cases h with
  | same h => exact .same (by rw [ht', h, ht])
  | starts ha hc h => exact .starts ha (hc.trans hstarted) (by rw [ht', h])
  | arms p hs h => exact .arms p (by rw [← ht, hs]) (by rw [ht', h])
  | readies ha hs h => exact .readies ha (by rw [← ht, hs]) (by rw [ht', h])
  | dies h => exact .dies (by rw [ht', h])

theorem phases_exitStep (go : ℕ → State → Exit → State) {a : Action}
    (hgo : ∀ t e, t.broker = s.broker → t.started = s.started → Phases s (go b t e) a c)
    (e : Exit) :
    Phases s (s.exitStep b (go b) e) a c := by
  cases e with
  | look p => exact hgo s _ rfl rfl
  | unlink p => exact hgo (s.remove p) _ rfl rfl
  | ended => exact phases_die

theorem phases_mainStep (hmain : mainStep s b (s.broker b).main = some s') :
    Phases s s' (.main b) c := by
  generalize hm : (s.broker b).main = m at hmain
  unfold mainStep at hmain
  split at hmain
  · split at hmain <;> cases hmain
    · exact phases_setMain (by rw [hm, phase_reclaimed]; rfl)
    · exact phases_setMain (by rw [hm]; rfl)
    · exact phases_die
  · split_ifs at hmain <;> cases hmain
    · exact phases_setMain (by rw [hm, phase_reclaimed]; rfl)
    · exact phases_die
    · exact phases_setMain (by rw [hm]; rfl)
  · cases hmain
    refine Phases.of_broker (phases_setMain (s := s.remove _) ?_) rfl rfl rfl
    show _ = (s.broker b).main.phase
    rw [hm, phase_reclaimed]
    rfl
  · rename_i p
    split at hmain <;> cases hmain
    · cases p with
      | guest => exact phases_set (by rw [hm]; rfl)
      | control =>
        by_cases hc : c = b
        · subst hc
          exact .arms .control hm (by rw [set_broker_self]; rfl)
        · exact .same (congrArg (fun B => B.main.phase) (set_broker_of_ne hc _))
    · exact phases_die
  · split_ifs at hmain <;> cases hmain
    · exact phases_setMain (by rw [hm]; rfl)
    · exact phases_die
  · cases hmain
    exact Phases.of_broker (phases_die (s := s.remove _)) rfl rfl rfl
  · cases hmain
    by_cases hc : c = b
    · subst hc
      exact .readies (.inl rfl) hm (congrArg (fun B => B.main.phase) (set_broker_self _))
    · exact .same (congrArg (fun B => B.main.phase) (set_broker_of_ne hc _))
  · cases hmain
    refine phases_exitStep State.mainExit (fun t e ht hstarted => ?_) _
    refine Phases.of_broker (phases_setMain (s := t) ?_) ht rfl hstarted
    rw [ht, hm]
    rfl
  · cases hmain

/-- **What one step makes of a broker.** -/
theorem phases_of_step {a : Action} (h : step s a = some s') (c : ℕ) : Phases s s' a c := by
  cases a with
  | start =>
    cases h
    by_cases hc : c = s.started
    · subst hc
      exact .starts rfl rfl (congrArg (fun B => B.main.phase) (set_broker_self _))
    · exact .same (congrArg (fun B => B.main.phase) (set_broker_of_ne hc _))
  | lock b =>
    rw [step, Option.ite_none_right_eq_some] at h
    obtain ⟨⟨hm, -⟩, h⟩ := h
    cases h
    exact Phases.of_broker (phases_setMain (m := .looking .guest) (by rw [hm]; rfl)) rfl rfl rfl
  | main b => exact phases_mainStep h
  | bind b i =>
    simp only [step] at h
    split at h
    · rename_i hm
      rw [Option.ite_none_right_eq_some] at h
      cases h.2
      exact Phases.of_broker (phases_set (B := _) (by rw [hm]; rfl)) rfl rfl rfl
    · cases h
  | bindFails b left =>
    simp only [step] at h
    split at h
    · cases h
      exact phases_die
    · rw [Option.ite_none_right_eq_some] at h
      cases h.2
      exact Phases.of_broker phases_die rfl rfl rfl
    · rename_i hm
      cases h
      exact phases_set (by rw [hm]; rfl)
    · rename_i hm
      rw [Option.ite_none_right_eq_some] at h
      cases h.2
      exact Phases.of_broker (phases_set (B := _) (by rw [hm]; rfl)) rfl rfl rfl
    · cases h
  | term b =>
    simp only [step] at h
    split at h
    · rename_i hm
      cases h
      by_cases hc : c = b
      · subst hc
        exact .readies (.inr rfl) hm (congrArg (fun B => B.main.phase) (set_broker_self _))
      · exact .same (congrArg (fun B => B.main.phase) (set_broker_of_ne hc _))
    · rename_i hm
      cases h
      exact phases_setMain (by rw [hm]; rfl)
    · rename_i hm
      cases h
      exact phases_setMain (by rw [hm]; rfl)
    · cases h
  | pidEnds b =>
    rw [step, Option.ite_none_right_eq_some] at h
    cases h.2
    exact phases_set rfl
  | watch b =>
    simp only [step] at h
    split at h
    · cases h
      refine phases_exitStep State.watchExit (fun t e ht hstarted => ?_) _
      have hset : Phases t (State.watchExit b t e) (.watch b) c := phases_set rfl
      exact hset.of_broker ht rfl hstarted
    · cases h
  | exitFails b watch =>
    cases watch <;> simp only [step] at h <;> split at h
    · rename_i hm
      cases h
      exact phases_setMain (by rw [hm]; rfl)
    · rename_i hm
      cases h
      exact phases_setMain (by rw [hm]; rfl)
    · cases h
    · cases h
      exact phases_set rfl
    · cases h
      exact phases_set rfl
    · cases h
  | kill b =>
    simp only [step] at h
    split at h
    · cases h
    · cases h
    · cases h
      exact phases_die

theorem started_exitStep (go : ℕ → State → Exit → State)
    (hgo : ∀ t e, (go b t e).started = t.started) (e : Exit) :
    (s.exitStep b (go b) e).started = s.started := by
  cases e with
  | look p => exact hgo s _
  | unlink p => exact hgo (s.remove p) _
  | ended => rfl

theorem started_of_step {a : Action} (h : step s a = some s') (ha : a ≠ .start) :
    s'.started = s.started := by
  cases a with
  | start => exact absurd rfl ha
  | main b =>
    simp only [step] at h
    unfold mainStep at h
    split at h
    · split at h <;> cases h <;> rfl
    · split_ifs at h <;> cases h <;> rfl
    · cases h
      rfl
    · split at h <;> cases h <;> rfl
    · split_ifs at h <;> cases h <;> rfl
    · cases h
      rfl
    · cases h
      rfl
    · cases h
      exact started_exitStep State.mainExit (fun _ _ => rfl) _
    · cases h
  | watch b =>
    simp only [step] at h
    split at h
    · cases h
      exact started_exitStep State.watchExit (fun _ _ => rfl) _
    · cases h
  | lock b =>
    rw [step, Option.ite_none_right_eq_some] at h
    cases h.2
    rfl
  | pidEnds b =>
    rw [step, Option.ite_none_right_eq_some] at h
    cases h.2
    rfl
  | bind b i =>
    simp only [step] at h
    split at h
    · rw [Option.ite_none_right_eq_some] at h
      cases h.2
      rfl
    · cases h
  | bindFails b left =>
    simp only [step] at h
    split at h
    · cases h
      rfl
    · rw [Option.ite_none_right_eq_some] at h
      cases h.2
      rfl
    · cases h
      rfl
    · rw [Option.ite_none_right_eq_some] at h
      cases h.2
      rfl
    · cases h
  | term b =>
    simp only [step] at h
    split at h <;> cases h <;> rfl
  | exitFails b watch =>
    cases watch <;> simp only [step] at h <;> split at h <;> cases h <;> rfl
  | kill b =>
    simp only [step] at h
    split at h <;> cases h
    rfl

/-- A file that a step adds is the binder's own. -/
theorem has_of_step (hi : Inv s) {a : Action} (h : step s a = some s') (hc : s'.Has c p) :
    s.Has c p ∨ ∃ q, (s.broker c).main = .binding q := by
  obtain ⟨j, hmade, hname⟩ := hc
  rcases kept_or_binds hi h with hk | ⟨d, q, i, ha, hfresh, -, hmadeOnly, hnameOnly⟩
  · exact .inl ⟨j, hk.made c p j hmade, hk.name p j hname⟩
  · by_cases hcd : c = d
    · exact .inr ⟨q, hcd ▸ ha.1⟩
    · have hold : (s.broker c).made p = some j := (hmadeOnly c p j hmade).resolve_left fun h => hcd h.1
      rcases hnameOnly p j hname with ⟨rfl, rfl⟩ | hn
      · have hlock : s.lock = some d := hi.locked d (by rw [ha.1]; rfl)
        exact absurd hold (ne_made_of_fresh hi hlock hfresh hcd p)
      · exact .inl ⟨j, hold, hn⟩

end Sockets

namespace BrokerReplacing

open Sockets (Path Phases)

variable {s s' : State} {y b c : ℕ} {p : Path}

/-! ## The invariant -/

/-- The stages under the lock. -/
def Stage.inside : Stage → Bool
  | .asking .. | .asked .. | .killing .. | .watching .. | .starting _ | .handshake ..
  | .reaping _ => true
  | _ => false

/-- A broker whose handshake was not seen to its end. -/
def Stage.child : Stage → Option ℕ
  | .handshake b _ | .reaping b | .killed (some b) => some b
  | _ => none

/-- The broker a stage names. -/
def Stage.names : Stage → Option ℕ
  | .asked _ b _ | .killing _ b _ | .watching b _ | .handshake b _ | .reaping b | .served b _
  | .killed (some b) => some b
  | _ => none

/-- The broker beside which no settled one has a socket at a name. -/
def Stage.alone (ready : ℕ → Bool) : Stage → Option ℕ
  | .asked _ b _ | .killing _ b _ | .watching b _ => some b
  | .handshake b _ => if ready b then some b else none
  | _ => none

/-- The broker is the child of a yo in the handshake, or of one that died there. -/
def State.Unsettled (s : State) (b : ℕ) : Prop := ∃ y, (s.stage y).child = some b

structure Inv (s : State) : Prop where
  sockets : Sockets.Inv s.sockets
  armed : ∀ b, (s.sockets.broker b).main = .armed → ∀ c, c ≠ b → ∀ p, ¬ s.sockets.Has c p
  ready : ∀ b, s.ready b = true →
    (s.sockets.broker b).main.phase = .running ∨ (s.sockets.broker b).main.phase = .dead
  absent : ∀ y, s.yos ≤ y → s.stage y = .absent
  inside : ∀ y, (s.stage y).inside = true → s.lock = some y
  names : ∀ y b, (s.stage y).names = some b → b < s.sockets.started
  settled : ∀ b < s.sockets.started, (s.sockets.broker b).main.phase ≠ .dead →
    s.ready b = false → s.Unsettled b
  alone : ∀ y b, (s.stage y).alone s.ready = some b → ∀ c, c ≠ b → ∀ p,
    s.sockets.Has c p → s.Unsettled c
  child : ∀ y b wanted, s.stage y = .handshake b wanted → s.conf b = wanted
  killing : ∀ y p b wanted, s.stage y = .killing p b (some wanted) →
    brokerNeedsRestart p (s.conf b) wanted = true
  served : ∀ y b wanted, s.stage y = .served b wanted → s.conf b = wanted
  dead : ∀ b, (s.sockets.broker b).main.phase = .dead → ∀ p, ¬ s.sockets.Has b p
  inForce : ∀ b p, s.sockets.Has b p → s.Unsettled b ∨ s.inForce = some (s.conf b)

theorem inv_init (name : Path → Option Sockets.Entry) : Inv (.init name) where
  sockets := Sockets.inv_init name
  armed := by simp [State.init, Sockets.State.init, Sockets.Broker.none]
  ready := by simp [State.init]
  absent := fun _ _ => rfl
  inside := by simp [State.init, Stage.inside]
  names := by simp [State.init, Stage.names]
  settled := by simp [State.init, Sockets.State.init]
  alone := by simp [State.init, Stage.alone]
  child := by simp [State.init]
  killing := by simp [State.init]
  served := by simp [State.init]
  dead := by simp [State.init, Sockets.State.init, Sockets.State.Has, Sockets.Broker.none]
  inForce := by simp [State.init, Sockets.State.init, Sockets.State.Has, Sockets.Broker.none]

theorem inside_of_alone {stage : Stage} (h : stage.alone s.ready = some b) : stage.inside = true := by
  cases stage <;> first | rfl | cases h

theorem names_of_child {stage : Stage} (h : stage.child = some b) : stage.names = some b := by
  cases stage with
  | handshake c wanted => exact h
  | reaping c => exact h
  | killed child =>
    cases child with
    | none => cases h
    | some c => exact h
  | _ => cases h

theorem Inv.lt_yos (hi : Inv s) (hy : s.stage y ≠ .absent) : y < s.yos := by
  by_contra hle
  exact hy (hi.absent y (Nat.le_of_not_lt hle))

/-- The lock keeps the others out. -/
theorem Inv.eq_of_inside (hi : Inv s) {z : ℕ} (hy : (s.stage y).inside = true)
    (hz : (s.stage z).inside = true) : z = y :=
  Option.some.inj ((hi.inside z hz).symm.trans (hi.inside y hy))

theorem Inv.lt_of_has (hi : Inv s) (h : s.sockets.Has b p) : b < s.sockets.started := by
  obtain ⟨i, hmade, -⟩ := h
  by_contra hle
  rw [hi.sockets.absent b (Nat.le_of_not_lt hle)] at hmade
  cases hmade

/-- A broker that binds is one whose handshake is not over. -/
theorem Inv.unsettled_of_binding (hi : Inv s) {q : Path} (h : (s.sockets.broker c).main = .binding q) :
    s.Unsettled c := by
  have hlt : c < s.sockets.started := hi.sockets.started_of_main (by simp [h])
  refine hi.settled c hlt (by simp [h, Sockets.Main.phase]) ?_
  by_contra hready
  rw [Bool.not_eq_false] at hready
  rcases hi.ready c hready with hphase | hphase <;> rw [h] at hphase <;> cases hphase

/-! ## Steps of a yo -/

theorem setStage_self {stage : Stage} : (s.setStage y stage).stage y = stage :=
  Function.update_self _ _ _

theorem setStage_of_ne {stage : Stage} {z : ℕ} (hz : z ≠ y) :
    (s.setStage y stage).stage z = s.stage z :=
  Function.update_of_ne hz _ _

section stage

variable (stage : Stage) (lock : Option ℕ) (inForce : Option Conf)

/-- One yo moves, and nothing else. -/
theorem inv_stage (hi : Inv s) (hy : y < s.yos)
    (hinside : stage.inside = true → lock = some y)
    (hothers : ∀ z, z ≠ y → (s.stage z).inside = true → lock = some z)
    (hnames : ∀ b, stage.names = some b → b < s.sockets.started)
    (hsettled : ∀ b, s.Unsettled b → (s.setStage y stage).Unsettled b ∨
      (s.sockets.broker b).main.phase = .dead ∨ s.ready b = true)
    (halone : ∀ z b, ((s.setStage y stage).stage z).alone s.ready = some b →
      ∀ c, c ≠ b → ∀ p, s.sockets.Has c p → (s.setStage y stage).Unsettled c)
    (hchild : ∀ b wanted, stage = .handshake b wanted → s.conf b = wanted)
    (hkilling : ∀ p b wanted, stage = .killing p b (some wanted) →
      brokerNeedsRestart p (s.conf b) wanted = true)
    (hserved : ∀ b wanted, stage = .served b wanted → s.conf b = wanted)
    (hforce : ∀ b p, s.sockets.Has b p →
      (s.setStage y stage).Unsettled b ∨ inForce = some (s.conf b)) :
    Inv { s.setStage y stage with lock := lock, inForce := inForce } := by
  have hself : (s.setStage y stage).stage y = stage := Function.update_self _ _ _
  have hother : ∀ z, z ≠ y → (s.setStage y stage).stage z = s.stage z :=
    fun z hz => Function.update_of_ne hz _ _
  have hpoint : ∀ {P : ℕ → Stage → Prop}, P y stage → (∀ z, P z (s.stage z)) →
      ∀ z, P z ((s.setStage y stage).stage z) := by
    intro P hP hall z
    by_cases hz : z = y
    · subst hz
      rwa [hself]
    · rw [hother z hz]
      exact hall z
  refine ⟨hi.sockets, hi.armed, hi.ready, fun z hz => ?_, fun z hz => ?_, ?_,
    fun b hb hphase hready => ?_, halone, ?_, ?_, ?_, hi.dead, hforce⟩
  · have hne : z ≠ y := fun h => by
      subst h
      exact absurd hz (Nat.not_le_of_lt hy)
    exact (hother z hne).trans (hi.absent z hz)
  · change ((s.setStage y stage).stage z).inside = true at hz
    by_cases hzy : z = y
    · subst hzy
      rw [hself] at hz
      exact hinside hz
    · rw [hother z hzy] at hz
      exact hothers z hzy hz
  · exact hpoint (P := fun _ st => ∀ b, st.names = some b → b < s.sockets.started) hnames hi.names
  · rcases hsettled b (hi.settled b hb hphase hready) with h | h | h
    · exact h
    · exact absurd h hphase
    · exact absurd (h.symm.trans hready) (by simp)
  · exact hpoint (P := fun _ st => ∀ b wanted, st = .handshake b wanted → s.conf b = wanted)
      hchild hi.child
  · exact hpoint (P := fun _ st => ∀ p b wanted, st = .killing p b (some wanted) →
      brokerNeedsRestart p (s.conf b) wanted = true) hkilling hi.killing
  · exact hpoint (P := fun _ st => ∀ b wanted, st = .served b wanted → s.conf b = wanted)
      hserved hi.served

/-- A yo moves on, and keeps the child it has. -/
theorem inv_keep (hi : Inv s) (hy : y < s.yos)
    (hkept : ∀ b, (s.stage y).child = some b → stage.child = some b)
    (hinside : stage.inside = true → lock = some y)
    (hothers : ∀ z, z ≠ y → (s.stage z).inside = true → lock = some z)
    (hnames : ∀ b, stage.names = some b → b < s.sockets.started)
    (halone : ∀ b, stage.alone s.ready = some b → ∀ c, c ≠ b → ∀ p,
      s.sockets.Has c p → s.Unsettled c)
    (hchild : ∀ b wanted, stage = .handshake b wanted → s.conf b = wanted)
    (hkilling : ∀ p b wanted, stage = .killing p b (some wanted) →
      brokerNeedsRestart p (s.conf b) wanted = true)
    (hserved : ∀ b wanted, stage = .served b wanted → s.conf b = wanted) :
    Inv { s.setStage y stage with lock := lock } := by
  have hunsettled : ∀ b, s.Unsettled b → (s.setStage y stage).Unsettled b := by
    rintro b ⟨z, hz⟩
    by_cases hzy : z = y
    · subst hzy
      exact ⟨z, by rw [setStage_self]; exact hkept b hz⟩
    · exact ⟨z, by rw [setStage_of_ne hzy]; exact hz⟩
  refine inv_stage stage lock s.inForce hi hy hinside hothers hnames
    (fun b hb => .inl (hunsettled b hb)) (fun z b hz c hc p hhas => ?_) hchild hkilling hserved
    (fun b p hhas => (hi.inForce b p hhas).imp (hunsettled b) id)
  by_cases hzy : z = y
  · subst hzy
    rw [setStage_self] at hz
    exact hunsettled c (halone b hz c hc p hhas)
  · rw [setStage_of_ne hzy] at hz
    exact hunsettled c (hi.alone z b hz c hc p hhas)

/-- **A yo leaves the section**, and its child is settled now: it is dead, or READY and what the
yo asked for. -/
theorem inv_leave (hi : Inv s) (hy : (s.stage y).inside = true) (houtside : stage.inside = false)
    (hnames : ∀ b, stage.names = some b → b < s.sockets.started)
    (hlost : ∀ b, (s.stage y).child = some b →
      (s.sockets.broker b).main.phase = .dead ∨ s.ready b = true ∧ inForce = some (s.conf b))
    (hserved : ∀ b wanted, stage = .served b wanted → s.conf b = wanted)
    (hforce : ∀ b p, s.sockets.Has b p → s.Unsettled b ∨ inForce = some (s.conf b)) :
    Inv { s.leave y stage with inForce := inForce } := by
  have habsent : s.stage y ≠ .absent := fun h => by simp [h, Stage.inside] at hy
  have hunsettled : ∀ b, s.Unsettled b →
      (s.setStage y stage).Unsettled b ∨ (s.stage y).child = some b := by
    rintro b ⟨z, hz⟩
    by_cases hzy : z = y
    · exact .inr (hzy ▸ hz)
    · exact .inl ⟨z, by rw [setStage_of_ne hzy]; exact hz⟩
  refine inv_stage stage none inForce hi (hi.lt_yos habsent) (fun h => ?_)
    (fun z hz h => absurd (hi.eq_of_inside hy h) hz) hnames (fun b hb => ?_)
    (fun z b hz c hc p hhas => ?_) (fun b wanted h => ?_) (fun p b wanted h => ?_) hserved fun b p hhas => ?_
  · rw [houtside] at h
    cases h
  · exact (hunsettled b hb).imp id fun h => (hlost b h).imp id And.left
  · by_cases hzy : z = y
    · subst hzy
      rw [setStage_self] at hz
      rw [inside_of_alone hz] at houtside
      cases houtside
    · rw [setStage_of_ne hzy] at hz
      exact absurd (hi.eq_of_inside hy (inside_of_alone hz)) hzy
  · rw [h] at houtside
    cases houtside
  · rw [h] at houtside
    cases houtside
  · rcases hforce b p hhas with hb | hb
    · rcases hunsettled b hb with h | h
      · exact .inl h
      · rcases hlost b h with hdead | ⟨-, hf⟩
        · exact absurd hhas (hi.dead b hdead p)
        · exact .inr hf
    · exact .inr hb

end stage

theorem isDead_iff : isDead s b = true ↔ (s.sockets.broker b).main.phase = .dead := by
  unfold isDead
  cases (s.sockets.broker b).main <;> simp [Sockets.Main.phase]

/-- A connect that goes through reaches a broker that has its socket there. -/
theorem has_of_connects (h : connects s p b = true) : s.sockets.Has b p := by
  unfold connects at h
  split at h
  · rename_i i j hname hmade
    rw [Bool.and_eq_true, beq_iff_eq] at h
    exact ⟨i, h.1 ▸ hmade, hname⟩
  · cases h

/-- What needs no restart answered on the control socket and is what was asked for. -/
theorem eq_of_not_needsRestart {found wanted : Conf} (h : brokerNeedsRestart p found wanted = false) :
    p = .control ∧ found = wanted := by
  unfold brokerNeedsRestart checkedPid at h
  split_ifs at h with hp hpid hsome
  · cases found
    cases wanted
    rw [decide_eq_false_iff_not, not_not] at h
    rw [not_not] at hp hsome
    cases hsome
    exact ⟨hp, by simpa using h⟩
  · simp_all

/-- No broker is left that was found, and the yo goes on to start one or is done. -/
theorem inv_gone (hi : Inv s) {task : Option Conf} (hy : (s.stage y).inside = true)
    (hnone : (s.stage y).child = none) (halone : (s.stage y).alone s.ready = some b)
    (hdead : (s.sockets.broker b).main.phase = .dead) : Inv (s.gone y task) := by
  have hothers : ∀ z, z ≠ y → (s.stage z).inside = true → s.lock = some z :=
    fun z _ h => hi.inside z h
  cases task with
  | some wanted =>
    refine inv_keep (.starting wanted) _ hi ?_ ?_ (fun _ => hi.inside y hy) hothers ?_ ?_ ?_ ?_ ?_
    · exact hi.lt_yos fun h => by simp [h, Stage.inside] at hy
    · simp [hnone]
    all_goals simp [Stage.names, Stage.alone]
  | none =>
    refine inv_leave .off _ hi hy rfl ?_ ?_ ?_ fun c p hhas => .inl ?_
    · simp [Stage.names]
    · simp [hnone]
    · simp
    · refine hi.alone y b halone c ?_ p hhas
      rintro rfl
      exact hi.dead c hdead p hhas

/-- A health request that nobody answers. -/
theorem inv_silent (hi : Inv s) {task : Option Conf} (hy : (s.stage y).inside = true)
    (hnone : (s.stage y).child = none) : Inv (s.silent y p task) := by
  have hothers : ∀ z, z ≠ y → (s.stage z).inside = true → s.lock = some z :=
    fun z _ h => hi.inside z h
  have hlt : y < s.yos := hi.lt_yos fun h => by simp [h, Stage.inside] at hy
  have hkept : ∀ {stage : Stage}, ∀ b, (s.stage y).child = some b → stage.child = some b := by
    simp [hnone]
  cases p with
  | control =>
    exact inv_keep (.asking .guest task) _ hi hlt hkept (fun _ => hi.inside y hy) hothers
      (by simp [Stage.names]) (by simp [Stage.alone]) (by simp) (by simp) (by simp)
  | guest =>
    cases task with
    | some wanted =>
      exact inv_keep (.starting wanted) _ hi hlt hkept (fun _ => hi.inside y hy) hothers
        (by simp [Stage.names]) (by simp [Stage.alone]) (by simp) (by simp) (by simp)
    | none =>
      exact inv_leave .off _ hi hy rfl (by simp [Stage.names]) (by simp [hnone]) (by simp)
        hi.inForce

/-- An answer from a broker beside which there is no settled one. -/
theorem inv_answered (hi : Inv s) {task : Option Conf} (h : s.stage y = .asked p b task) :
    Inv (s.answered y p b task) := by
  have hy : (s.stage y).inside = true := by rw [h]; rfl
  have hothers : ∀ z, z ≠ y → (s.stage z).inside = true → s.lock = some z :=
    fun z _ h => hi.inside z h
  have hlt : b < s.sockets.started := hi.names y b (by rw [h]; rfl)
  have halone := hi.alone y b (by rw [h]; rfl)
  have hkill : ∀ task' : Option Conf,
      (∀ wanted, task' = some wanted → brokerNeedsRestart p (s.conf b) wanted = true) →
      Inv (s.setStage y (.killing p b task')) := by
    intro task' hneeds
    refine inv_keep (.killing p b task') _ hi (hi.lt_yos (by simp [h])) (by simp [h, Stage.child])
      (fun _ => hi.inside y hy) hothers ?_ ?_ (by simp) ?_ (by simp)
    · simpa [Stage.names] using hlt
    · simpa [Stage.alone] using halone
    · rintro p' b' wanted heq
      cases heq
      exact hneeds wanted rfl
  cases task with
  | none => exact hkill none (by simp)
  | some wanted =>
    change Inv (if brokerNeedsRestart p (s.conf b) wanted then s.setStage y (.killing p b (some wanted))
      else s.serve y b wanted)
    split_ifs with hneeds
    · exact hkill (some wanted) fun w hw => by rwa [← Option.some.inj hw]
    · have hconf : s.conf b = wanted := (eq_of_not_needsRestart (by simpa using hneeds)).2
      refine inv_leave (.served b wanted) _ hi hy rfl ?_ ?_ ?_ fun c p' hhas => ?_
      · simpa [Stage.names] using hlt
      · simp [h, Stage.child]
      · rintro b' w heq
        cases heq
        exact hconf
      · by_cases hc : c = b
        · exact .inr (by rw [hc, hconf])
        · exact .inl (halone c hc p' hhas)

/-! ## Steps of a broker -/

/-- What prints READY was armed, and serves now. -/
theorem prints_spec {a : Sockets.Action} {sockets : Sockets.State} (hprints : prints s a b = true)
    (h : Sockets.step s.sockets a = some sockets) :
    (s.sockets.broker b).main = .armed ∧ (sockets.broker b).main.phase = .running := by
  unfold prints at hprints
  simp only [Bool.and_eq_true, beq_iff_eq] at hprints
  obtain ⟨rfl, hm⟩ := hprints
  refine ⟨hm, ?_⟩
  rw [Sockets.step, hm] at h
  cases h
  exact congrArg (fun B => B.main.phase) (Sockets.set_broker_self _)

theorem phase_eq_armed {m : Sockets.Main} : m.phase = .armed ↔ m = .armed := by
  cases m <;> simp [Sockets.Main.phase]

/-- A broker that is armed has the lock of the brokers, so no other binds. -/
theorem Inv.not_binding (hi : Inv s) (hb : (s.sockets.broker b).main.locks = true) (hc : c ≠ b)
    {q : Path} :
    (s.sockets.broker c).main ≠ .binding q := by
  intro hbinding
  have hlock := hi.sockets.locked c (by rw [hbinding]; rfl)
  exact hc (Option.some.inj (hlock.symm.trans (hi.sockets.locked b hb)))

section sockets

variable {a : Sockets.Action} {sockets : Sockets.State}

/-- The files of a broker that has been armed are the only ones. -/
theorem Inv.armed_of_step (hi : Inv s) (h : Sockets.step s.sockets a = some sockets)
    (hb : (s.sockets.broker b).main = .armed ∨ (sockets.broker b).main = .armed) (hc : c ≠ b)
    (p : Path) : ¬ sockets.Has c p := by
  intro hhas'
  have hstage : (s.sockets.broker b).main = .armed ∨
      ∃ q, (s.sockets.broker b).main = .statting q := by
    rcases hb with hb | hb
    · exact .inl hb
    · have hphase := phase_eq_armed.mpr hb
      cases Sockets.phases_of_step h b with
      | same hsame => exact .inl (phase_eq_armed.mp (hsame ▸ hphase))
      | starts _ _ hsetup => rw [hsetup] at hphase; cases hphase
      | arms q hq => exact .inr ⟨q, hq⟩
      | readies _ _ hrunning => rw [hrunning] at hphase; cases hphase
      | dies hdies => rw [hdies] at hphase; cases hphase
  have hlocks : (s.sockets.broker b).main.locks = true := by
    rcases hstage with hb | ⟨q, hb⟩ <;> rw [hb] <;> rfl
  rcases Sockets.has_of_step hi.sockets h hhas' with hhas | ⟨q, hq⟩
  · rcases hstage with hb | ⟨q, hb⟩
    · exact hi.armed b hb c hc p hhas
    · exact hi.sockets.cleared b p (by rw [hb]; rfl) c hc hhas
  · exact hi.not_binding hlocks hc hq

/-- What has printed READY serves, or leaves, or is dead. -/
theorem Inv.ready_of_step (hi : Inv s) (h : Sockets.step s.sockets a = some sockets)
    (hb : s.ready b = true) :
    (sockets.broker b).main.phase = .running ∨ (sockets.broker b).main.phase = .dead := by
  have hold := hi.ready b hb
  cases Sockets.phases_of_step h b with
  | same hsame => exact hsame ▸ hold
  | starts _ hc =>
    rw [hc, hi.sockets.absent _ le_rfl] at hold
    rcases hold with hold | hold <;> cases hold
  | arms q hq =>
    rw [hq] at hold
    rcases hold with hold | hold <;> cases hold
  | readies _ _ hrunning => exact .inl hrunning
  | dies hdies => exact .inr (by rw [hdies]; rfl)

/-- The dead stay dead. -/
theorem Inv.alive_of_step (hi : Inv s) (h : Sockets.step s.sockets a = some sockets)
    (hb : (sockets.broker b).main.phase ≠ .dead) : (s.sockets.broker b).main.phase ≠ .dead := by
  intro hdead
  cases Sockets.phases_of_step h b with
  | same hsame => exact hb (hsame.trans hdead)
  | starts _ hc =>
    rw [hc, hi.sockets.absent _ le_rfl] at hdead
    cases hdead
  | arms q hq =>
    rw [hq] at hdead
    cases hdead
  | readies _ hs =>
    rw [hs] at hdead
    cases hdead
  | dies hdies => exact hb (by rw [hdies]; rfl)

/-- The dead have no socket. -/
theorem Inv.dead_of_step (hi : Inv s) (h : Sockets.step s.sockets a = some sockets)
    (hb : (sockets.broker b).main.phase = .dead) (p : Path) : ¬ sockets.Has b p := by
  intro hhas'
  cases Sockets.phases_of_step h b with
  | same hsame =>
    rcases Sockets.has_of_step hi.sockets h hhas' with hhas | ⟨q, hq⟩
    · exact hi.dead b (hsame ▸ hb) p hhas
    · rw [hsame, hq] at hb
      cases hb
  | starts _ _ hsetup =>
    rw [hsetup] at hb
    cases hb
  | arms q hq harmed =>
    rw [harmed] at hb
    cases hb
  | readies _ _ hrunning =>
    rw [hrunning] at hb
    cases hb
  | dies hdies =>
    obtain ⟨i, hmade, -⟩ := hhas'
    rw [hdies] at hmade
    cases hmade

theorem Inv.has_of_step (hi : Inv s) (h : Sockets.step s.sockets a = some sockets)
    (hhas : sockets.Has c p) :
    s.sockets.Has c p ∨ s.Unsettled c :=
  (Sockets.has_of_step hi.sockets h hhas).imp id fun ⟨_, hq⟩ => hi.unsettled_of_binding hq

theorem alone_new {stage : Stage} {ready ready' : ℕ → Bool} (h : stage.alone ready' = some b)
    (hold : stage.alone ready ≠ some b) : ready b = false ∧ ready' b = true := by
  cases stage with
  | handshake b' wanted =>
    simp only [Stage.alone] at h hold
    split_ifs at h with hready
    cases h
    refine ⟨?_, hready⟩
    by_contra hb
    exact hold (if_pos (by simpa using hb))
  | _ => exact absurd h hold

/-- A step of a broker. -/
theorem inv_broker (hi : Inv s) (ha : a ≠ .start) (h : Sockets.step s.sockets a = some sockets) :
    Inv { s with sockets := sockets, ready := fun b => s.ready b || prints s a b } := by
  have hstarted := Sockets.started_of_step h ha
  refine ⟨Sockets.inv_step hi.sockets h, fun b hb c hc p => hi.armed_of_step h (.inr hb) hc p,
    fun b hb => ?_, hi.absent, hi.inside, fun y b hb => ?_, fun b hb hphase hready => ?_,
    fun y b hb c hc p hhas => ?_, hi.child, hi.killing, hi.served, fun b hb p => hi.dead_of_step h hb p,
    fun b p hhas => ?_⟩
  · rcases Bool.or_eq_true_iff.mp hb with hb | hb
    · exact hi.ready_of_step h hb
    · exact .inl (prints_spec hb h).2
  · show b < sockets.started
    rw [hstarted]
    exact hi.names y b hb
  · change b < sockets.started at hb
    rw [hstarted] at hb
    exact hi.settled b hb (hi.alive_of_step h hphase) (Bool.or_eq_false_iff.mp hready).1
  · by_cases hold : (s.stage y).alone s.ready = some b
    · exact (hi.has_of_step h hhas).elim (hi.alone y b hold c hc p) id
    · -- the broker has just printed READY, so it was armed
      obtain ⟨hnot, hready⟩ := alone_new hb hold
      have hprints : prints s a b = true := by simpa [hnot] using hready
      exact absurd hhas (hi.armed_of_step h (.inl (prints_spec hprints h).1) hc p)
  · exact (hi.has_of_step h hhas).elim (hi.inForce b p) .inl

/-- **A child is there**, and it was started with what the yo asked for. -/
theorem inv_spawn (hi : Inv s) {wanted : Conf} (hy : s.stage y = .starting wanted)
    (h : Sockets.step s.sockets .start = some sockets) :
    Inv { s.setStage y (.handshake s.sockets.started wanted) with
      sockets := sockets
      conf := Function.update s.conf s.sockets.started wanted } := by
  have hstarted : sockets.started = s.sockets.started + 1 := by
    cases h
    rfl
  have hfresh : s.ready s.sockets.started = false := by
    by_contra hready
    rw [Bool.not_eq_false] at hready
    have hphase := hi.ready _ hready
    rw [hi.sockets.absent _ le_rfl] at hphase
    rcases hphase with hphase | hphase <;> cases hphase
  have hinside : (s.stage y).inside = true := by rw [hy]; rfl
  have hlt : y < s.yos := hi.lt_yos (by simp [hy])
  have hconf : ∀ c < s.sockets.started,
      Function.update s.conf s.sockets.started wanted c = s.conf c :=
    fun c hc => Function.update_of_ne (Nat.ne_of_lt hc) _ _
  generalize hn : s.sockets.started = n at *
  have hstage : ∀ z,
      (z = y ∧ (s.setStage y (.handshake n wanted)).stage z = .handshake n wanted) ∨
      z ≠ y ∧ (s.setStage y (.handshake n wanted)).stage z = s.stage z := by
    intro z
    by_cases hz : z = y
    · exact .inl ⟨hz, hz ▸ setStage_self⟩
    · exact .inr ⟨hz, setStage_of_ne hz⟩
  have hunsettled : ∀ c, s.Unsettled c → (s.setStage y (.handshake n wanted)).Unsettled c := by
    rintro c ⟨z, hz⟩
    rcases hstage z with ⟨rfl, -⟩ | ⟨-, hsame⟩
    · rw [hy] at hz
      cases hz
    · exact ⟨z, by rw [hsame]; exact hz⟩
  refine ⟨Sockets.inv_step hi.sockets h, fun b hb c hc p => hi.armed_of_step h (.inr hb) hc p,
    fun b hb => hi.ready_of_step h hb, fun z hz => ?_, fun z hz => ?_, fun z b hb => ?_,
    fun b hb hphase hready => ?_, fun z b hb c hc p hhas => ?_, fun z b w hz => ?_,
    fun z p b w hz => ?_, fun z b w hz => ?_, fun b hb p => hi.dead_of_step h hb p, fun b p hhas => ?_⟩
  · rcases hstage z with ⟨rfl, -⟩ | ⟨-, hsame⟩
    · exact absurd hlt (Nat.not_lt_of_le hz)
    · exact hsame.trans (hi.absent z hz)
  · rcases hstage z with ⟨rfl, -⟩ | ⟨-, hsame⟩
    · exact hi.inside z hinside
    · exact hi.inside z (hsame ▸ hz)
  · show b < sockets.started
    rw [hstarted]
    rcases hstage z with ⟨-, hnew⟩ | ⟨-, hsame⟩
    · have hnames : (Stage.handshake n wanted).names = some b := hnew ▸ hb
      cases hnames
      exact Nat.lt_succ_self n
    · have hold : b < s.sockets.started := hi.names z b (hsame ▸ hb)
      omega
  · change b < sockets.started at hb
    rw [hstarted] at hb
    rcases Nat.lt_succ_iff_lt_or_eq.mp hb with hb | rfl
    · exact hunsettled b (hi.settled b (by rwa [hn]) (hi.alive_of_step h hphase) hready)
    · exact ⟨y, by rw [setStage_self]; rfl⟩
  · change ((s.setStage y (.handshake n wanted)).stage z).alone s.ready = some b at hb
    rcases hstage z with ⟨-, hnew⟩ | ⟨hz, hsame⟩
    · rw [hnew, Stage.alone, if_neg (by simp [hfresh])] at hb
      cases hb
    · rw [hsame] at hb
      exact absurd (hi.eq_of_inside hinside (inside_of_alone hb)) hz
  · rcases hstage z with ⟨-, hnew⟩ | ⟨-, hsame⟩
    · cases hnew.symm.trans hz
      exact Function.update_self _ _ _
    · have hold : s.stage z = .handshake b w := hsame.symm.trans hz
      exact (hconf b (hn ▸ hi.names z b (by rw [hold]; rfl))).trans (hi.child z b w hold)
  · rcases hstage z with ⟨-, hnew⟩ | ⟨-, hsame⟩
    · cases hnew.symm.trans hz
    · have hold : s.stage z = .killing p b (some w) := hsame.symm.trans hz
      show brokerNeedsRestart p (Function.update s.conf n wanted b) w = true
      rw [hconf b (hn ▸ hi.names z b (by rw [hold]; rfl))]
      exact hi.killing z p b w hold
  · rcases hstage z with ⟨-, hnew⟩ | ⟨-, hsame⟩
    · cases hnew.symm.trans hz
    · have hold : s.stage z = .served b w := hsame.symm.trans hz
      exact (hconf b (hn ▸ hi.names z b (by rw [hold]; rfl))).trans (hi.served z b w hold)
  · rcases hi.has_of_step h hhas with hhas | hb
    · have hb : b < n := hn ▸ hi.lt_of_has hhas
      refine (hi.inForce b p hhas).imp (hunsettled b) fun hforce => ?_
      show s.inForce = some (Function.update s.conf n wanted b)
      rw [hconf b hb, hforce]
    · exact .inl (hunsettled b hb)

end sockets

/-! ## The run -/

/-- A yo leaves the section as it is. -/
theorem inv_quit (hi : Inv s) {stage : Stage} (hy : (s.stage y).inside = true)
    (houtside : stage.inside = false)
    (hkept : ∀ b, (s.stage y).child = some b → stage.child = some b)
    (hnames : ∀ b, stage.names = some b → b < s.sockets.started)
    (hserved : ∀ b wanted, stage ≠ .served b wanted) :
    Inv (s.leave y stage) := by
  refine inv_keep stage none hi (hi.lt_yos fun h => by simp [h, Stage.inside] at hy) hkept (fun h => ?_)
    (fun z hz h => absurd (hi.eq_of_inside hy h) hz) hnames (fun b h => ?_) (fun b wanted h => ?_)
    (fun p b wanted h => ?_) (fun b wanted h => absurd h (hserved b wanted))
  · rw [houtside] at h
    cases h
  · rw [inside_of_alone h] at houtside
    cases houtside
  · rw [h] at houtside
    cases houtside
  · rw [h] at houtside
    cases houtside

/-- A child that is dead is given up. -/
theorem inv_failed (hi : Inv s) (hy : (s.stage y).inside = true) (hchild : (s.stage y).child = some b)
    (hdead : (s.sockets.broker b).main.phase = .dead) : Inv (s.leave y .failed) := by
  refine inv_leave .failed _ hi hy rfl (by simp [Stage.names]) ?_ (by simp) hi.inForce
  rw [hchild]
  rintro c heq
  cases heq
  exact .inl hdead

/-- A yo connects to the broker that has the name. -/
theorem inv_asked (hi : Inv s) {task : Option Conf} (hy : s.stage y = .asking p task)
    (hconnects : connects s p b = true) : Inv (s.setStage y (.asked p b task)) := by
  have hhas : s.sockets.Has b p := has_of_connects hconnects
  have hin : s.lock = some y := hi.inside y (by rw [hy]; rfl)
  refine inv_keep (.asked p b task) _ hi (hi.lt_yos (by simp [hy])) (by simp [hy, Stage.child])
    (fun _ => hin) (fun z _ h => hi.inside z h) ?_ ?_ (by simp) (by simp) (by simp)
  · simpa [Stage.names] using hi.lt_of_has hhas
  · -- the other name has no other broker's socket
    simp only [Stage.alone, Option.some.injEq]
    rintro b rfl c hc q hhas'
    exact absurd hhas' (hi.sockets.apart b c p q (Ne.symm hc) hhas)

/-- The child printed READY. -/
theorem inv_ready (hi : Inv s) {wanted : Conf} (hy : s.stage y = .handshake b wanted)
    (hready : s.ready b = true) : Inv (s.serve y b wanted) := by
  have hconf : s.conf b = wanted := hi.child y b wanted hy
  have halone := hi.alone y b (by rw [hy]; exact if_pos hready)
  refine inv_leave (.served b wanted) _ hi (by rw [hy]; rfl) rfl ?_ ?_ ?_ fun c p hhas => ?_
  · simpa [Stage.names] using hi.names y b (by rw [hy]; rfl)
  · simp only [hy, Stage.child, Option.some.injEq]
    rintro b rfl
    exact .inr ⟨hready, by rw [hconf]⟩
  · rintro b' w heq
    cases heq
    exact hconf
  · by_cases hc : c = b
    · exact .inr (by rw [hc, hconf])
    · exact .inl (halone c hc p hhas)

/-- A yo is killed in the section; its child stays behind. -/
theorem inv_killed (hi : Inv s) (hy : (s.stage y).inside = true) :
    Inv (s.leave y (.killed (s.stage y).child)) := by
  refine inv_quit hi hy rfl (fun b hb => by rw [hb]; rfl) (fun b hb => ?_) (by simp)
  have hchild : (s.stage y).child = some b := by
    cases hc : (s.stage y).child with
    | none => rw [hc] at hb; cases hb
    | some c => rw [hc] at hb; exact hb
  exact hi.names y b (names_of_child hchild)

theorem inv_step (hi : Inv s) {a : Action} (h : step s a = some s') : Inv s' := by
  have hothers : ∀ {y z}, z ≠ y → (s.stage z).inside = true → s.lock = some z :=
    fun _ h => hi.inside _ h
  cases a with
  | broker a =>
    by_cases ha : a = .start
    · subst ha
      cases h
    · have hstep : (Sockets.step s.sockets a).map (fun sockets =>
          { s with sockets := sockets, ready := fun b => s.ready b || prints s a b }) = some s' := by
        cases a <;> first | exact h | exact absurd rfl ha
      obtain ⟨sockets, hsockets, rfl⟩ := Option.map_eq_some_iff.mp hstep
      exact inv_broker hi ha hsockets
  | arrive task =>
    cases h
    have hroom : Inv { s with yos := s.yos + 1 } :=
      { hi with absent := fun y hy => hi.absent y (Nat.le_of_succ_le hy) }
    have habsent : s.stage s.yos = .absent := hi.absent s.yos le_rfl
    exact inv_keep (s := { s with yos := s.yos + 1 }) (.waiting task) s.lock hroom
      (Nat.lt_succ_self _) (by simp [habsent, Stage.child]) (by simp [Stage.inside])
      (fun z hz h => hothers hz h) (by simp [Stage.names]) (by simp [Stage.alone]) (by simp)
      (by simp) (by simp)
  | lock y =>
    simp only [step] at h
    split at h
    · rename_i task hy hlock
      cases h
      refine inv_keep (.asking .control task) (some y) hi (hi.lt_yos (by simp [hy]))
        (by simp [hy, Stage.child]) (fun _ => rfl) (fun z _ hz => ?_) (by simp [Stage.names])
        (by simp [Stage.alone]) (by simp) (by simp) (by simp)
      have hheld := hi.inside z hz
      rw [hlock] at hheld
      cases hheld
    · cases h
  | connect y b =>
    simp only [step] at h
    split at h
    · rename_i p task hy
      rw [Option.ite_none_right_eq_some] at h
      obtain ⟨hconnects, h⟩ := h
      cases h
      exact inv_asked hi hy hconnects
    · cases h
  | reply y answered =>
    simp only [step] at h
    split at h
    · rename_i p task hy
      cases h
      exact inv_silent hi (by rw [hy]; rfl) (by rw [hy]; rfl)
    · rename_i p b task hy
      cases h
      exact inv_silent hi (by rw [hy]; rfl) (by rw [hy]; rfl)
    · rename_i p b task hy
      rw [Option.ite_none_right_eq_some] at h
      cases h.2
      exact inv_answered hi hy
    · cases h
  | kill y =>
    simp only [step] at h
    split at h
    · rename_i p b task hy
      cases h
      have hin : (s.stage y).inside = true := by rw [hy]; rfl
      split_ifs with hdead
      · exact inv_gone hi hin (by rw [hy]; rfl) (by rw [hy]; rfl) (isDead_iff.mp hdead)
      · refine inv_keep (.watching b task) _ hi (hi.lt_yos (by simp [hy])) (by simp [hy, Stage.child])
          (fun _ => hi.inside y hin) (fun z hz h => hothers hz h) ?_ ?_ (by simp) (by simp) (by simp)
        · simpa [Stage.names] using hi.names y b (by rw [hy]; rfl)
        · simpa [Stage.alone] using hi.alone y b (by rw [hy]; rfl)
    · cases h
  | exited y =>
    simp only [step] at h
    split at h
    · rename_i b task hy
      rw [Option.ite_none_right_eq_some] at h
      obtain ⟨hdead, h⟩ := h
      cases h
      exact inv_gone hi (by rw [hy]; rfl) (by rw [hy]; rfl) (by rw [hy]; rfl) (isDead_iff.mp hdead)
    · cases h
  | spawn y =>
    simp only [step] at h
    split at h
    · rename_i wanted hy
      obtain ⟨sockets, hsockets, rfl⟩ := Option.map_eq_some_iff.mp h
      exact inv_spawn hi hy hsockets
    · cases h
  | readReady y =>
    simp only [step] at h
    split at h
    · rename_i b wanted hy
      rw [Option.ite_none_right_eq_some] at h
      obtain ⟨hready, h⟩ := h
      cases h
      exact inv_ready hi hy hready
    · cases h
  | readError y =>
    simp only [step] at h
    split at h
    · rename_i b wanted hy
      rw [Option.ite_none_right_eq_some] at h
      obtain ⟨hdead, h⟩ := h
      cases h
      exact inv_failed hi (by rw [hy]; rfl) (by rw [hy]; rfl)
        (isDead_iff.mp (Bool.and_eq_true_iff.mp hdead).1)
    · cases h
  | terminate y =>
    simp only [step] at h
    split at h
    · rename_i b wanted hy
      cases h
      refine inv_keep (.reaping b) _ hi (hi.lt_yos (by simp [hy])) (by simp [hy, Stage.child])
        (fun _ => hi.inside y (by rw [hy]; rfl)) (fun z hz h => hothers hz h) ?_
        (by simp [Stage.alone]) (by simp) (by simp) (by simp)
      simpa [Stage.names] using hi.names y b (by rw [hy]; rfl)
    · cases h
  | reaped y =>
    simp only [step] at h
    split at h
    · rename_i b hy
      rw [Option.ite_none_right_eq_some] at h
      obtain ⟨hdead, h⟩ := h
      cases h
      exact inv_failed hi (by rw [hy]; rfl) (by rw [hy]; rfl) (isDead_iff.mp hdead)
    · cases h
  | fails y =>
    simp only [step] at h
    split at h
    iterate 3
      · rename_i hy
        cases h
        exact inv_quit hi (by rw [hy]; rfl) rfl (by simp [hy, Stage.child]) (by simp [Stage.names])
          (by simp)
    · cases h
  | dies y =>
    simp only [step] at h
    split at h
    · rename_i task hy
      cases h
      exact inv_keep (.killed none) _ hi (hi.lt_yos (by simp [hy])) (by simp [hy, Stage.child])
        (by simp [Stage.inside]) (fun z hz h => hothers hz h) (by simp [Stage.names])
        (by simp [Stage.alone]) (by simp) (by simp) (by simp)
    all_goals rename_i hy
    all_goals cases h
    -- in the section, with a child or without one
    all_goals
      have hkilled := inv_killed hi (y := y) (by rw [hy]; rfl)
      rw [hy] at hkilled
      exact hkilled

theorem inv_of_reaches {name : Path → Option Sockets.Entry}
    (h : Reaches step anyStep (.init name) s) : Inv s :=
  h.invariant (inv_init name) fun _ _ _ hi _ hs => inv_step hi hs

/-- A section ends that took effect. -/
def TakesEffect (s s' : State) : Prop :=
  ∃ y, (s.stage y).inside = true ∧
    ((∃ b wanted, s'.stage y = .served b wanted ∧ s'.inForce = some wanted) ∨
      s'.stage y = .off ∧ s'.inForce = none)

theorem inForce_gone (hy : (s.stage y).inside = true) (task : Option Conf) :
    (s.gone y task).inForce = s.inForce ∨ TakesEffect s (s.gone y task) := by
  cases task with
  | some wanted => exact .inl rfl
  | none => exact .inr ⟨y, hy, .inr ⟨setStage_self, rfl⟩⟩

theorem inForce_serve (hy : (s.stage y).inside = true) (wanted : Conf) :
    TakesEffect s (s.serve y b wanted) :=
  ⟨y, hy, .inl ⟨b, wanted, setStage_self, rfl⟩⟩

theorem inForce_silent (task : Option Conf) : (s.silent y p task).inForce = s.inForce := by
  cases p <;> cases task <;> rfl

theorem inForce_answered (hy : (s.stage y).inside = true) (task : Option Conf) :
    (s.answered y p b task).inForce = s.inForce ∨ TakesEffect s (s.answered y p b task) := by
  cases task with
  | none => exact .inl rfl
  | some wanted =>
    by_cases hneeds : brokerNeedsRestart p (s.conf b) wanted = true
    · exact .inl (by rw [State.answered, if_pos hneeds]; rfl)
    · rw [State.answered, if_neg hneeds]
      exact .inr (inForce_serve hy wanted)

/-- What is in force changes only where a section ends. -/
theorem inForce_of_step {a : Action} (h : step s a = some s') :
    s'.inForce = s.inForce ∨ TakesEffect s s' := by
  cases a with
  | broker a =>
    cases a <;> first
      | (obtain ⟨sockets, -, rfl⟩ := Option.map_eq_some_iff.mp h; exact .inl rfl)
      | cases h
  | arrive task =>
    cases h
    exact .inl rfl
  | reply y answered =>
    simp only [step] at h
    split at h
    · cases h
      exact .inl (inForce_silent _)
    · cases h
      exact .inl (inForce_silent _)
    · rename_i hy
      rw [Option.ite_none_right_eq_some] at h
      cases h.2
      exact inForce_answered (by rw [hy]; rfl) _
    · cases h
  | kill y =>
    simp only [step] at h
    split at h
    · rename_i hy
      cases h
      split_ifs
      · exact inForce_gone (by rw [hy]; rfl) _
      · exact .inl rfl
    · cases h
  | exited y =>
    simp only [step] at h
    split at h
    · rename_i hy
      rw [Option.ite_none_right_eq_some] at h
      cases h.2
      exact inForce_gone (by rw [hy]; rfl) _
    · cases h
  | readReady y =>
    simp only [step] at h
    split at h
    · rename_i hy
      rw [Option.ite_none_right_eq_some] at h
      cases h.2
      exact .inr (inForce_serve (by rw [hy]; rfl) _)
    · cases h
  | spawn y =>
    simp only [step] at h
    split at h
    · obtain ⟨sockets, -, rfl⟩ := Option.map_eq_some_iff.mp h
      exact .inl rfl
    · cases h
  | lock y =>
    simp only [step] at h
    split at h <;> cases h
    exact .inl rfl
  | connect y b =>
    simp only [step] at h
    split at h
    · rw [Option.ite_none_right_eq_some] at h
      cases h.2
      exact .inl rfl
    · cases h
  | readError y =>
    simp only [step] at h
    split at h
    · rw [Option.ite_none_right_eq_some] at h
      cases h.2
      exact .inl rfl
    · cases h
  | reaped y =>
    simp only [step] at h
    split at h
    · rw [Option.ite_none_right_eq_some] at h
      cases h.2
      exact .inl rfl
    · cases h
  | terminate y =>
    simp only [step] at h
    split at h <;> cases h
    exact .inl rfl
  | fails y =>
    simp only [step] at h
    split at h <;> cases h
    all_goals exact .inl rfl
  | dies y =>
    simp only [step] at h
    split at h <;> cases h
    all_goals exact .inl rfl

/-- **Which broker is left serving.**  However many yos enable and disable the broker at once, and
however brokers and yos end: a broker with a socket at either name was started with what the last
section asked for that took effect, or a yo has started it and died, or has yet to read its READY.
What a yo was told to be there was started with what it asked for; and no yo signals a broker that
answered on its control socket as it was asked for. -/
theorem serves_inForce {name : Path → Option Sockets.Entry}
    (h : Reaches step anyStep (.init name) s) :
    (∀ b p, s.sockets.Has b p → s.Unsettled b ∨ s.inForce = some (s.conf b)) ∧
      (∀ y b wanted, s.stage y = .served b wanted → s.conf b = wanted) ∧
      (∀ y b wanted, s.stage y = .killing .control b (some wanted) → 1 < wanted.watchPid →
        s.conf b ≠ wanted) ∧
      (∀ y z, (s.stage y).inside = true → (s.stage z).inside = true → z = y) ∧
      ∀ a s', step s a = some s' → s'.inForce = s.inForce ∨ TakesEffect s s' := by
  have hi := inv_of_reaches h
  refine ⟨hi.inForce, hi.served, fun y b wanted hy hpid heq => ?_, fun y z => hi.eq_of_inside,
    fun a s' => inForce_of_step⟩
  have hneeds := hi.killing y .control b wanted hy
  rw [heq] at hneeds
  simp [brokerNeedsRestart, checkedPid, hpid] at hneeds

/-- Broker `b` comes up, from its start to READY. -/
def comesUp (b g c : ℕ) : List Action :=
  ((Sockets.serve b g c).drop 1).map .broker

/-- One yo starts a broker; the next asks for other profiles and replaces it. -/
def replaced (first second : Conf) : List Action :=
  [.arrive (some first), .lock 0, .reply 0 false, .reply 0 false, .spawn 0] ++ comesUp 0 1 2 ++
    [.readReady 0, .arrive (some second), .lock 1, .connect 1 0, .reply 1 true, .kill 1] ++
    [.broker (.term 0), .broker (.main 0), .broker (.main 0), .broker (.main 0), .broker (.main 0),
      .broker (.main 0), .exited 1, .spawn 1] ++ comesUp 1 3 4 ++ [.readReady 1]

/-- The replaced broker is gone, and the new one has the guest's socket. -/
theorem serves_inForce_replaced : ∃ s, Reaches step anyStep (.init fun _ => none) s ∧
    s.sockets.Has 1 .guest ∧ (s.Unsettled 1 ∨ s.inForce = some (s.conf 1)) := by
  have hruns : (run (guarded step anyStep) (.init fun _ => none)
      (replaced ⟨7, {lit "dev", lit "prod"}⟩ ⟨8, {lit "dev"}⟩)).any
        (fun s => connects s .guest 1) = true := by decide +kernel
  obtain ⟨s, hs, hconnects⟩ := (Option.any_eq_true _ _).mp hruns
  have hreach := reaches_of_run _ hs
  have hhas := has_of_connects hconnects
  exact ⟨s, hreach, hhas, (serves_inForce hreach).1 1 .guest hhas⟩

end BrokerReplacing
