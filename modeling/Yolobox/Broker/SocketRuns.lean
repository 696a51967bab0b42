/-
# Whose socket file is unlinked

The invariant `Inv` holds in every run: a broker that has reclaimed a path holds the
lock, and no other live broker has a file there, so the files at the two names are
never those of two live brokers.  That a leaving thread stands over nobody else's file
(`Tidy`) needs that no path is bound in between; without it, the second of two leaving
threads of one broker can unlink its successor's socket (`unlinks_foreign`).
-/
import Yolobox.Broker.Sockets

open Transition

namespace Sockets

/-! ## The invariant -/

/-- The stages under the lock. -/
def Main.locks : Main → Bool
  | .looking _ | .probing _ | .removing _ | .binding _ | .statting _ | .undoing _ | .armed => true
  | _ => false

/-- The paths a broker has found free of other live brokers' files. -/
def Main.clears : Main → Path → Bool
  | .removing p, q => p == q || q == .guest
  | .looking .control, .guest | .probing .control, .guest => true
  | .binding _, _ | .statting _, _ | .undoing _, _ => true
  | _, _ => false

theorem locks_of_clears {m : Main} {p : Path} (h : m.clears p = true) : m.locks = true := by
  cases m <;> first | rfl | (cases p <;> cases h)

/-- The stages before a path is bound. -/
def Main.before : Main → Path → Bool
  | .absent, _ | .wantsLock, _ | .looking _, _ | .probing _, _ | .removing _, _ => true
  | .binding .guest, _ | .binding .control, .control | .statting .guest, .control => true
  | _, _ => false

structure Inv (s : State) : Prop where
  absent : ∀ c, s.started ≤ c → s.broker c = .none
  locked : ∀ b, (s.broker b).main.locks = true → s.lock = some b
  closed : ∀ b p i, (s.broker b).made p = some i → (s.broker b).listening p = false →
    ∃ matched, (s.broker b).main = .undoing matched
  uniq : ∀ b c p q i, b ≠ c → (s.broker b).made p = some i → (s.broker c).made q ≠ some i
  cleared : ∀ b p, (s.broker b).main.clears p = true → ∀ c, c ≠ b → ¬ s.Has c p
  apart : ∀ b c p q, b ≠ c → s.Has b p → ¬ s.Has c q
  own : ∀ b p, (s.broker b).main = .statting p → ∀ i, s.name p = some (.socket i) →
    (s.broker b).made p = some i
  identity : ∀ b p i, (s.broker b).identity p = some i →
    (s.broker b).made p = some i ∧ (s.broker b).main.before p = false

theorem inv_init (name : Path → Option Entry) : Inv (State.init name) where
  absent := fun _ _ => rfl
  locked := by simp [State.init, Broker.none, Main.locks]
  closed := by simp [State.init, Broker.none]
  uniq := by simp [State.init, Broker.none]
  cleared := by simp [State.init, Broker.none, Main.clears]
  apart := by simp [State.init, Broker.none, State.Has]
  own := by simp [State.init, Broker.none]
  identity := by simp [State.init, Broker.none]

/-- A step of broker `b` that binds nothing. -/
structure Shrinks (b : ℕ) (s s' : State) : Prop where
  others : ∀ c, c ≠ b → s'.broker c = s.broker c
  started : s'.started = s.started
  name : ∀ p i, s'.name p = some (.socket i) → s.name p = some (.socket i)
  made : ∀ p i, (s'.broker b).made p = some i → (s.broker b).made p = some i
  lock : ∀ c, c ≠ b → s.lock = some c → s'.lock = some c

variable {s s' : State} {b : ℕ}

theorem Shrinks.made_le (h : Shrinks b s s') {c : ℕ} {p : Path} {i : ℕ}
    (hm : (s'.broker c).made p = some i) : (s.broker c).made p = some i := by
  by_cases hc : c = b
  · subst hc
    exact h.made p i hm
  · rw [h.others c hc] at hm
    exact hm

theorem Shrinks.has (h : Shrinks b s s') {c : ℕ} {p : Path} (hc : s'.Has c p) : s.Has c p := by
  obtain ⟨i, hm, hn⟩ := hc
  exact ⟨i, h.made_le hm, h.name p i hn⟩

theorem Inv.started_of_main (hi : Inv s) (hb : (s.broker b).main ≠ .absent) : b < s.started := by
  by_contra hle
  rw [hi.absent b (Nat.le_of_not_lt hle)] at hb
  exact hb rfl

/-- **A step that binds nothing keeps the invariant** when it does for its own
broker. -/
theorem inv_of_shrinks (hi : Inv s) (h : Shrinks b s s') (hb : b < s.started)
    (hlocked : (s'.broker b).main.locks = true → s'.lock = some b)
    (hclosed : ∀ p i, (s'.broker b).made p = some i → (s'.broker b).listening p = false →
      ∃ matched, (s'.broker b).main = .undoing matched)
    (hcleared : ∀ p, (s'.broker b).main.clears p = true → ∀ c, c ≠ b → ¬ s'.Has c p)
    (hown : ∀ p, (s'.broker b).main = .statting p → ∀ i, s'.name p = some (.socket i) →
      (s'.broker b).made p = some i)
    (hidentity : ∀ p i, (s'.broker b).identity p = some i →
      (s'.broker b).made p = some i ∧ (s'.broker b).main.before p = false) :
    Inv s' := by
  refine ⟨fun c hc => ?_, fun c hc => ?_, fun c p i hm hl => ?_, fun c d p q i hcd hm hm' => ?_,
    fun c p hc d hd hhas => ?_, fun c d p q hcd hc hd => ?_, fun c p hc i hn => ?_,
    fun c p i hid => ?_⟩
  · rw [h.started] at hc
    have hne : c ≠ b := fun hcb => by omega
    rw [h.others c hne, hi.absent c hc]
  · by_cases hcb : c = b
    · subst hcb
      exact hlocked hc
    · rw [h.others c hcb] at hc
      exact h.lock c hcb (hi.locked c hc)
  · by_cases hcb : c = b
    · subst hcb
      exact hclosed p i hm hl
    · rw [h.others c hcb] at hm hl ⊢
      exact hi.closed c p i hm hl
  · exact hi.uniq c d p q i hcd (h.made_le hm) (h.made_le hm')
  · by_cases hcb : c = b
    · subst hcb
      exact hcleared p hc d hd hhas
    · rw [h.others c hcb] at hc
      exact hi.cleared c p hc d hd (h.has hhas)
  · exact hi.apart c d p q hcd (h.has hc) (h.has hd)
  · by_cases hcb : c = b
    · subst hcb
      exact hown p hc i hn
    · rw [h.others c hcb] at hc ⊢
      exact hi.own c p hc i (h.name p i hn)
  · by_cases hcb : c = b
    · subst hcb
      exact hidentity p i hid
    · rw [h.others c hcb] at hid ⊢
      exact hi.identity c p i hid

/-! ## The steps, one by one -/

@[simp] theorem set_broker_self (B : Broker) : (s.set b B).broker b = B :=
  Function.update_self _ _ _

theorem set_broker_of_ne {c : ℕ} (hc : c ≠ b) (B : Broker) : (s.set b B).broker c = s.broker c :=
  Function.update_of_ne hc _ _

/-- A step that moves the main thread on, and may take an identity. -/
theorem inv_set (hi : Inv s) (hb : b < s.started) {B : Broker}
    (hmade : B.made = (s.broker b).made) (hlistening : B.listening = (s.broker b).listening)
    (hundo : ∀ matched, (s.broker b).main = .undoing matched → ∃ matched, B.main = .undoing matched)
    (hlocked : B.main.locks = true → s.lock = some b)
    (hcleared : ∀ p, B.main.clears p = true → ∀ c, c ≠ b → ¬ s.Has c p)
    (hown : ∀ p, B.main ≠ .statting p)
    (hidentity : ∀ p i, B.identity p = some i → B.made p = some i ∧ B.main.before p = false) :
    Inv (s.set b B) := by
  have hs : Shrinks b s (s.set b B) :=
    ⟨fun c hc => set_broker_of_ne hc B, rfl, fun _ _ h => h,
      fun p i h => by rwa [set_broker_self, hmade] at h, fun _ _ h => h⟩
  refine inv_of_shrinks hi hs hb ?_ ?_ ?_ ?_ ?_ <;> simp only [set_broker_self]
  · exact hlocked
  · intro p i hm hl
    rw [hmade] at hm
    rw [hlistening] at hl
    obtain ⟨matched, hmain⟩ := hi.closed b p i hm hl
    exact hundo matched hmain
  · exact fun p hp c hc hhas => hcleared p hp c hc (hs.has hhas)
  · exact fun p hp => absurd hp (hown p)
  · exact hidentity

theorem inv_setMain (hi : Inv s) {m : Main} (hb : b < s.started)
    (hundo : ∀ matched, (s.broker b).main = .undoing matched → ∃ matched, m = .undoing matched)
    (hlocked : m.locks = true → s.lock = some b)
    (hcleared : ∀ p, m.clears p = true → ∀ c, c ≠ b → ¬ s.Has c p)
    (hown : ∀ p, m ≠ .statting p)
    (hbefore : ∀ p, m.before p = true → (s.broker b).main.before p = true) :
    Inv (s.setMain b m) := by
  refine inv_set hi hb rfl rfl hundo hlocked hcleared hown fun p i hid => ?_
  obtain ⟨hmade, hb'⟩ := hi.identity b p i hid
  refine ⟨hmade, ?_⟩
  by_contra hm
  rw [hbefore p (by simpa using hm)] at hb'
  cases hb'

theorem inv_setWatch (hi : Inv s) (hb : b < s.started) (w : Watch) :
    Inv (s.setWatch b w) := by
  have hs : Shrinks b s (s.setWatch b w) :=
    ⟨fun c hc => set_broker_of_ne hc _, rfl, fun _ _ h => h,
      fun p i h => by rwa [State.setWatch, set_broker_self] at h, fun _ _ h => h⟩
  refine inv_of_shrinks hi hs hb ?_ ?_ ?_ ?_ ?_ <;> simp only [State.setWatch, set_broker_self]
  · exact hi.locked b
  · exact hi.closed b
  · exact fun p hp c hc hhas => hi.cleared b p hp c hc (hs.has hhas)
  · exact hi.own b
  · exact hi.identity b

theorem remove_name {p q : Path} {i : ℕ} (h : (s.remove p).name q = some (.socket i)) :
    q ≠ p ∧ s.name q = some (.socket i) := by
  by_cases hq : q = p
  · subst hq
    simp [State.remove] at h
  · simp only [State.remove, Function.update_of_ne hq] at h
    exact ⟨hq, h⟩

theorem inv_remove (hi : Inv s) (hb : b < s.started) (p : Path) :
    Inv (s.remove p) := by
  have hs : Shrinks b s (s.remove p) :=
    ⟨fun _ _ => rfl, rfl, fun _ _ h => (remove_name h).2, fun _ _ h => h, fun _ _ h => h⟩
  exact inv_of_shrinks hi hs hb (hi.locked b) (hi.closed b)
    (fun q hq c hc hhas => hi.cleared b q hq c hc (hs.has hhas))
    (fun q hq i hn => hi.own b q hq i (remove_name hn).2) (hi.identity b)

theorem inv_die (hi : Inv s) (hb : b < s.started) : Inv (s.die b) := by
  have hself : (s.die b).broker b = { Broker.none with main := .dead } := set_broker_self _
  have hs : Shrinks b s (s.die b) := by
    refine ⟨fun c hc => set_broker_of_ne hc _, rfl, fun _ _ h => h, fun p i h => ?_, fun c hc h => ?_⟩
    · rw [hself] at h
      cases h
    · rw [State.die, if_neg (by simpa [h] using hc)]
      exact h
  refine inv_of_shrinks hi hs hb ?_ ?_ ?_ ?_ ?_ <;>
    simp [hself, Broker.none, Main.locks, Main.clears]

theorem inv_exitStep_main (hi : Inv s) {e : Exit} (hm : (s.broker b).main = .exiting e) :
    Inv (s.exitStep b (State.mainExit b) e) := by
  have hb := hi.started_of_main (b := b) (by simp [hm])
  have hset : ∀ {t : State} {e' : Exit}, Inv t → (t.broker b).main = .exiting e →
      Inv (State.mainExit b t e') := by
    intro t e' ht hmt
    exact inv_setMain ht (ht.started_of_main (by simp [hmt])) (by simp [hmt])
      (by simp [Main.locks]) (by simp [Main.clears]) (by simp) (by simp [Main.before])
  cases e with
  | look p => exact hset hi hm
  | unlink p => exact hset (inv_remove hi hb p) hm
  | ended => exact inv_die hi hb

theorem started_of_watch (hi : Inv s) (hw : (s.broker b).watch ≠ .absent) : b < s.started := by
  by_contra hle
  rw [hi.absent b (Nat.le_of_not_lt hle)] at hw
  exact hw rfl

theorem inv_exitStep_watch (hi : Inv s) {e : Exit} (hb : b < s.started) :
    Inv (s.exitStep b (State.watchExit b) e) := by
  cases e with
  | look p => exact inv_setWatch hi hb _
  | unlink p => exact inv_setWatch (inv_remove hi hb p) hb _
  | ended => exact inv_die hi hb

/-- Nothing answers where only stale files are. -/
theorem not_has_of_not_answers (hi : Inv s) {p : Path} (hlock : s.lock = some b)
    (hanswers : s.answers p = false) {c : ℕ} (hc : c ≠ b) : ¬ s.Has c p := by
  rintro ⟨i, hm, hn⟩
  have hstarted : c < s.started := by
    by_contra hle
    rw [hi.absent c (Nat.le_of_not_lt hle)] at hm
    cases hm
  have hlistening : (s.broker c).listening p = true := by
    by_contra hl
    obtain ⟨matched, hu⟩ := hi.closed c p i hm (by simpa using hl)
    have hlock' := hi.locked c (by rw [hu]; rfl)
    exact hc (Option.some.inj (hlock'.symm.trans hlock))
  have htrue : s.answers p = true := by
    unfold State.answers
    rw [hn]
    exact List.any_eq_true.mpr ⟨c, List.mem_range.mpr hstarted, by simp [hm, hlistening]⟩
  rw [htrue] at hanswers
  cases hanswers

theorem not_has_of_none {p : Path} (hn : ∀ i, s.name p ≠ some (.socket i)) (c : ℕ) :
    ¬ s.Has c p := by
  rintro ⟨i, -, hs⟩
  exact hn i hs

/-- What a path's reclaim leaves to be known: earlier paths are clear, this one is. -/
theorem clears_reclaimed {m : Main} {p : Path} (hm : ∀ q, q ≠ p → (Main.reclaimed p).clears q → m.clears q)
    (hi : Inv s) (hmain : (s.broker b).main = m) (hp : ∀ c, c ≠ b → ¬ s.Has c p) :
    ∀ q, (Main.reclaimed p).clears q = true → ∀ c, c ≠ b → ¬ s.Has c q := by
  intro q hq c hc
  by_cases hqp : q = p
  · subst hqp
    exact hp c hc
  · exact hi.cleared b q (by rw [hmain]; exact hm q hqp hq) c hc

/-- The lock is released, and the broker serves. -/
theorem inv_release (hi : Inv s) (hb : b < s.started) (hm : (s.broker b).main = .armed) :
    Inv { s.set b { s.broker b with main := .serving, watch := .waiting } with lock := none } := by
  have hlock := hi.locked b (by rw [hm]; rfl)
  refine inv_of_shrinks hi (b := b) ⟨fun c hc => set_broker_of_ne hc _, rfl, fun _ _ h => h, ?_,
    fun c hc h => absurd (Option.some.inj (h.symm.trans hlock)) hc⟩ hb ?_ ?_ ?_ ?_ ?_
  · intro p i h
    simpa only [set_broker_self] using h
  · simp [Main.locks]
  · intro p i h hl
    simp only [set_broker_self] at h hl
    obtain ⟨matched, hu⟩ := hi.closed b p i h hl
    rw [hm] at hu
    cases hu
  · simp [Main.clears]
  · simp
  · intro p i hid
    simp only [set_broker_self] at hid ⊢
    exact ⟨(hi.identity b p i hid).1, rfl⟩

theorem inv_mainStep (hi : Inv s) {m : Main} (hm : (s.broker b).main = m)
    (h : mainStep s b m = some s') : Inv s' := by
  have hb : m ≠ .absent → b < s.started := fun h => hi.started_of_main (by rwa [hm])
  have hlock : m.locks = true → s.lock = some b := fun h => hi.locked b (by rwa [hm])
  unfold mainStep at h
  split at h
  · rename_i p
    have hst := hb (by simp)
    split at h
    · rename_i hnone
      cases h
      refine inv_setMain hi hst (by simp [hm]) (fun _ => hlock rfl) ?_ ?_
        (by simp [hm, Main.before])
      · refine clears_reclaimed (fun q hq hc => ?_) hi hm fun c _ =>
          not_has_of_none (by simp [hnone]) c
        cases p <;> cases q <;> simp_all [Main.reclaimed, Main.clears]
      · cases p <;> simp [Main.reclaimed]
    · cases h
      refine inv_setMain hi hst (by simp [hm]) (fun _ => hlock rfl) (fun q hq => ?_) (by simp)
        (by simp [hm, Main.before])
      exact hi.cleared b q (by rw [hm]; cases p <;> cases q <;> simp_all [Main.clears])
    · cases h
      exact inv_die hi hst
  · rename_i p
    have hst := hb (by simp)
    split_ifs at h with hnone hanswers
    · cases h
      refine inv_setMain hi hst (by simp [hm]) (fun _ => hlock rfl) ?_ ?_
        (by simp [hm, Main.before])
      · refine clears_reclaimed (fun q hq hc => ?_) hi hm fun c _ =>
          not_has_of_none (by simp [hnone]) c
        cases p <;> cases q <;> simp_all [Main.reclaimed, Main.clears]
      · cases p <;> simp [Main.reclaimed]
    · cases h
      exact inv_die hi hst
    · cases h
      refine inv_setMain hi hst (by simp [hm]) (fun _ => hlock rfl) (fun q hq c hc => ?_) (by simp)
        (by simp [hm, Main.before])
      by_cases hqp : q = p
      · subst hqp
        exact not_has_of_not_answers hi (hlock rfl) (by simpa using hanswers) hc
      · refine hi.cleared b q ?_ c hc
        rw [hm]
        cases p <;> cases q <;> simp_all [Main.clears]
  · rename_i p
    have hst := hb (by simp)
    cases h
    have hremoved := inv_remove hi hst p
    refine inv_setMain hremoved hst (by simp [State.remove, hm]) (fun _ => hlock rfl) ?_ ?_
      (by simp [State.remove, hm, Main.before])
    · refine clears_reclaimed (m := .removing p) (fun q hq hc => ?_) hremoved hm fun c _ =>
        not_has_of_none (fun i hn => (remove_name hn).1 rfl) c
      cases p <;> cases q <;> simp_all [Main.reclaimed, Main.clears]
    · cases p <;> simp [Main.reclaimed]
  · rename_i p
    have hst := hb (by simp)
    split at h
    · rename_i i hn
      cases h
      have hown := hi.own b p hm i hn
      refine inv_set hi hst rfl rfl (by simp [hm]) (fun _ => hlock rfl) (fun q _ => ?_) (fun q => ?_)
        (fun q j hq => ?_)
      · exact hi.cleared b q (by rw [hm]; rfl)
      · cases p <;> simp
      · by_cases hqp : q = p
        · subst hqp
          simp only [Function.update_self, Option.some.injEq] at hq
          refine ⟨hq ▸ hown, ?_⟩
          cases q <;> rfl
        · simp only [Function.update_of_ne hqp] at hq
          obtain ⟨hmade, hbefore⟩ := hi.identity b q j hq
          refine ⟨hmade, ?_⟩
          rw [hm] at hbefore
          cases p <;> cases q <;> simp_all [Main.before]
    · cases h
      exact inv_die hi hst
  · have hst := hb (by simp)
    split_ifs at h
    · cases h
      exact inv_setMain hi hst (by simp) (fun _ => hlock rfl)
        (fun q _ => hi.cleared b q (by rw [hm]; rfl)) (by simp) (by simp [Main.before])
    · cases h
      exact inv_die hi hst
  · have hst := hb (by simp)
    cases h
    exact inv_die (inv_remove hi hst .guest) hst
  · have hst := hb (by simp)
    cases h
    exact inv_release hi hst hm
  · cases h
    exact inv_exitStep_main hi hm
  · cases h

/-- The lock is free, and a broker takes it. -/
theorem inv_lock (hi : Inv s) (hm : (s.broker b).main = .wantsLock) (hfree : s.lock = none) :
    Inv { s.setMain b (.looking .guest) with lock := some b } := by
  have hb := hi.started_of_main (b := b) (by simp [hm])
  refine inv_of_shrinks hi (b := b) ⟨fun c hc => set_broker_of_ne hc _, rfl, fun _ _ h => h, ?_,
    fun c hc h => ?_⟩ hb (fun _ => rfl) ?_ ?_ ?_ ?_
  · intro p i h
    simpa only [State.setMain, set_broker_self] using h
  · rw [hfree] at h
    cases h
  · intro p i h hl
    simp only [State.setMain, set_broker_self] at h hl
    obtain ⟨matched, hu⟩ := hi.closed b p i h hl
    rw [hm] at hu
    cases hu
  · simp [State.setMain, Main.clears]
  · simp [State.setMain]
  · intro p i hid
    simp only [State.setMain, set_broker_self] at hid ⊢
    obtain ⟨-, hbefore⟩ := hi.identity b p i hid
    rw [hm] at hbefore
    cases hbefore

theorem inv_start (hi : Inv s) :
    Inv { s.set s.started { Broker.none with main := .wantsLock } with
      started := s.started + 1 } := by
  have hroom : Inv { s with started := s.started + 1 } :=
    ⟨fun c hc => hi.absent c (Nat.le_of_succ_le hc), hi.locked, hi.closed, hi.uniq, hi.cleared,
      hi.apart, hi.own, hi.identity⟩
  have hnone := hi.absent s.started le_rfl
  refine inv_set (b := s.started) hroom (Nat.lt_succ_self _) ?_ ?_ ?_ ?_ ?_ ?_ ?_ <;>
    simp [hnone, Broker.none, Main.locks, Main.clears]

/-- The identity of a new file belongs to no other live broker. -/
theorem ne_made_of_fresh (hi : Inv s) (hlock : s.lock = some b) {i : ℕ} (hfresh : s.fresh i)
    {c : ℕ} (hc : c ≠ b) (p : Path) : (s.broker c).made p ≠ some i := by
  intro hm
  have hstarted : c < s.started := by
    by_contra hle
    rw [hi.absent c (Nat.le_of_not_lt hle)] at hm
    cases hm
  have hp : p ∈ [Path.guest, Path.control] := by cases p <;> simp
  by_cases hl : (s.broker c).listening p = true
  · exact hfresh.1 c hstarted p hp hl hm
  · obtain ⟨matched, hu⟩ := hi.closed c p i hm (by simpa using hl)
    have hlock' := hi.locked c (by rw [hu]; rfl)
    exact hc (Option.some.inj (hlock'.symm.trans hlock))

/-- **A bind** leaves a file that no other live broker has, where none has any. -/
theorem inv_bound (hi : Inv s) {p : Path} (hm : (s.broker b).main = .binding p) {i : ℕ}
    (hfree : s.name p = none) (hfresh : s.fresh i) {B : Broker}
    (hmade : B.made = Function.update (s.broker b).made p (some i))
    (hidentity : B.identity = (s.broker b).identity)
    (hbefore : ∀ q, B.main.before q = true → (s.broker b).main.before q = true)
    (hclosed : ∀ q j, B.made q = some j → B.listening q = false →
      ∃ matched, B.main = .undoing matched)
    (hown : ∀ q, B.main = .statting q → q = p) :
    Inv { s.set b B with name := Function.update s.name p (some (.socket i)) } := by
  have hlock := hi.locked b (by rw [hm]; rfl)
  have hb := hi.started_of_main (b := b) (by simp [hm])
  have hclear : ∀ q c, c ≠ b → ¬ s.Has c q := fun q c hc =>
    hi.cleared b q (by rw [hm]; rfl) c hc
  have hnew := fun c (hc : c ≠ b) => ne_made_of_fresh hi hlock hfresh hc
  generalize ht : ({ s.set b B with name := Function.update s.name p (some (.socket i)) } : State)
    = t
  have hself : t.broker b = B := by
    rw [← ht]
    exact set_broker_self B
  have hother : ∀ c, c ≠ b → t.broker c = s.broker c := by
    intro c hc
    rw [← ht]
    exact set_broker_of_ne hc B
  have hnamep : t.name p = some (.socket i) := by
    rw [← ht]
    exact Function.update_self _ _ _
  have hname : ∀ q, q ≠ p → t.name q = s.name q := by
    intro q hq
    rw [← ht]
    exact Function.update_of_ne hq _ _
  have hlock' : t.lock = some b := by
    rw [← ht]
    exact hlock
  have hstarted : t.started = s.started := by
    rw [← ht]
    rfl
  -- no other broker has a file at a name, before or after
  have hothers : ∀ q c, c ≠ b → ¬ t.Has c q := by
    rintro q c hc ⟨j, hmc, hn⟩
    rw [hother c hc] at hmc
    by_cases hq : q = p
    · subst hq
      rw [hnamep] at hn
      cases hn
      exact hnew c hc q hmc
    · rw [hname q hq] at hn
      exact hclear q c hc ⟨j, hmc, hn⟩
  have hmadeb : ∀ q j, B.made q = some j → q = p ∧ j = i ∨ (s.broker b).made q = some j := by
    intro q j hj
    rw [hmade] at hj
    by_cases hq : q = p
    · subst hq
      rw [Function.update_self, Option.some.injEq] at hj
      exact .inl ⟨rfl, hj.symm⟩
    · rw [Function.update_of_ne hq] at hj
      exact .inr hj
  refine ⟨fun c hc => ?_, fun c hc => ?_, fun c q j hmc hl => ?_, fun c d q r j hcd hmc hmd => ?_,
    fun c q hc d hd => ?_, fun c d q r hcd hc hd => ?_, fun c q hc j hn => ?_, fun c q j hid => ?_⟩
  · rw [hstarted] at hc
    rw [hother c (by omega), hi.absent c hc]
  · by_cases hcb : c = b
    · rw [hcb]
      exact hlock'
    · rw [hother c hcb] at hc
      rw [hlock', ← hlock]
      exact hi.locked c hc
  · by_cases hcb : c = b
    · subst hcb
      rw [hself] at hmc hl ⊢
      exact hclosed q j hmc hl
    · rw [hother c hcb] at hmc hl ⊢
      exact hi.closed c q j hmc hl
  · by_cases hcb : c = b
    · subst hcb
      rw [hself] at hmc
      rw [hother d (Ne.symm hcd)] at hmd
      rcases hmadeb q j hmc with ⟨-, rfl⟩ | hold
      · exact hnew d (Ne.symm hcd) r hmd
      · exact hi.uniq c d q r j hcd hold hmd
    · rw [hother c hcb] at hmc
      by_cases hdb : d = b
      · subst hdb
        rw [hself] at hmd
        rcases hmadeb r j hmd with ⟨-, rfl⟩ | hold
        · exact hnew c hcb q hmc
        · exact hi.uniq c d q r j hcd hmc hold
      · rw [hother d hdb] at hmd
        exact hi.uniq c d q r j hcd hmc hmd
  · by_cases hdb : d = b
    · -- a broker that clears a path holds the lock, so it is the one that binds
      subst hdb
      have hcb : c ≠ d := Ne.symm hd
      rw [hother c hcb] at hc
      have hlc := hi.locked c (locks_of_clears hc)
      exact absurd (Option.some.inj (hlc.symm.trans hlock)) hcb
    · exact hothers q d hdb
  · by_cases hcb : c = b
    · exact hothers r d (fun hdb => hcd (hcb.trans hdb.symm)) hd
    · exact hothers q c hcb hc
  · by_cases hcb : c = b
    · subst hcb
      rw [hself] at hc ⊢
      obtain rfl := hown q hc
      rw [hnamep] at hn
      cases hn
      rw [hmade, Function.update_self]
    · rw [hother c hcb] at hc
      have hlc := hi.locked c (by rw [hc]; rfl)
      exact absurd (Option.some.inj (hlc.symm.trans hlock)) hcb
  · by_cases hcb : c = b
    · subst hcb
      rw [hself] at hid ⊢
      rw [hidentity] at hid
      obtain ⟨hold, hpast⟩ := hi.identity c q j hid
      have hqp : q ≠ p := by
        rintro rfl
        rw [hm] at hpast
        cases q <;> cases hpast
      refine ⟨by rw [hmade, Function.update_of_ne hqp]; exact hold, ?_⟩
      by_contra hbf
      rw [hbefore q (by simpa using hbf)] at hpast
      cases hpast
    · rw [hother c hcb] at hid ⊢
      exact hi.identity c q j hid

/-- A file of no live broker appears while nobody holds the lock. -/
theorem inv_stale (hi : Inv s) {p : Path} {i : ℕ} (hlock : s.lock = none)
    (hno : ∀ c q, (s.broker c).made q ≠ some i) :
    Inv { s with name := Function.update s.name p (some (.socket i)) } := by
  have hhas : ∀ c q, State.Has { s with name := Function.update s.name p (some (.socket i)) } c q →
      s.Has c q := by
    rintro c q ⟨j, hm, hn⟩
    by_cases hq : q = p
    · subst hq
      simp only [Function.update_self, Option.some.injEq, Entry.socket.injEq] at hn
      exact absurd (hn ▸ hm) (hno c q)
    · simp only [Function.update_of_ne hq] at hn
      exact ⟨j, hm, hn⟩
  refine ⟨hi.absent, hi.locked, hi.closed, hi.uniq,
    fun c q hc d hd hd' => hi.cleared c q hc d hd (hhas d q hd'),
    fun c d q r hcd hc hd => hi.apart c d q r hcd (hhas c q hc) (hhas d r hd),
    fun c q hc => ?_, hi.identity⟩
  have hlc := hi.locked c (by rw [hc]; rfl)
  rw [hlock] at hlc
  cases hlc

theorem inv_bindFails (hi : Inv s) {left : Option ℕ} (h : step s (.bindFails b left) = some s') :
    Inv s' := by
  simp only [step] at h
  have hst : (s.broker b).main ≠ .absent → b < s.started := hi.started_of_main
  split at h
  · rename_i hm
    cases h
    exact inv_die hi (hst (by simp [hm]))
  · rename_i i hm
    rw [Option.ite_none_right_eq_some] at h
    obtain ⟨⟨hfree, hfresh⟩, h⟩ := h
    cases h
    have hlock := hi.locked b (by rw [hm]; rfl)
    refine inv_stale (inv_die hi (hst (by simp [hm]))) ?_ fun c q hmade => ?_
    · rw [State.die, if_pos hlock]
    · by_cases hc : c = b
      · subst hc
        rw [State.die, set_broker_self] at hmade
        cases hmade
      · have hother : (s.die b).broker c = s.broker c := set_broker_of_ne hc _
        rw [hother] at hmade
        exact ne_made_of_fresh hi hlock hfresh hc q hmade
  · rename_i hm
    cases h
    have hb := hst (by simp [hm])
    have hlock := hi.locked b (by rw [hm]; rfl)
    refine inv_of_shrinks hi (b := b) ⟨fun c hc => set_broker_of_ne hc _, rfl, fun _ _ h => h, ?_,
      fun _ _ h => h⟩ hb (fun _ => hlock) ?_ ?_ ?_ ?_ <;> simp only [set_broker_self]
    · exact fun _ _ h => h
    · exact fun _ _ _ _ => ⟨false, rfl⟩
    · exact fun p _ c hc hhas => hi.cleared b p (by rw [hm]; rfl) c hc (by
        obtain ⟨i, hmade, hn⟩ := hhas
        rw [set_broker_of_ne hc] at hmade
        exact ⟨i, hmade, hn⟩)
    · simp
    · exact fun p i hid => ⟨(hi.identity b p i hid).1, rfl⟩
  · rename_i i hm
    rw [Option.ite_none_right_eq_some] at h
    obtain ⟨⟨hfree, hfresh⟩, h⟩ := h
    cases h
    exact inv_bound hi hm hfree hfresh rfl rfl (by simp [Main.before])
      (fun _ _ _ _ => ⟨false, rfl⟩) (by simp)
  · cases h

/-- **The step lemma.** -/
theorem inv_step (hi : Inv s) {a : Action} (h : step s a = some s') : Inv s' := by
  cases a with
  | start =>
    cases h
    exact inv_start hi
  | lock b =>
    rw [step, Option.ite_none_right_eq_some] at h
    obtain ⟨⟨hm, hfree⟩, h⟩ := h
    cases h
    exact inv_lock hi hm hfree
  | main b => exact inv_mainStep hi rfl h
  | bind b i =>
    simp only [step] at h
    split at h
    · rename_i p hm
      rw [Option.ite_none_right_eq_some] at h
      obtain ⟨⟨hfree, hfresh⟩, h⟩ := h
      cases h
      refine inv_bound hi hm hfree hfresh rfl rfl (fun q hq => ?_) (fun q j hj hl => ?_)
        (fun q hq => ?_)
      · rw [hm]
        cases p <;> cases q <;> simp_all [Main.before]
      · by_cases hq : q = p
        · subst hq
          simp at hl
        · simp only [Function.update_of_ne hq] at hj hl
          obtain ⟨matched, hu⟩ := hi.closed b q j hj hl
          rw [hm] at hu
          cases hu
      · exact (Main.statting.inj hq).symm
    · cases h
  | bindFails b left => exact inv_bindFails hi h
  | term b =>
    simp only [step] at h
    split at h
    case h_4 => cases h
    all_goals
      rename_i hm
      cases h
      exact inv_setMain hi (hi.started_of_main (by simp [hm])) (by simp [hm]) (by simp [Main.locks])
        (by simp [Main.clears]) (by simp) (by simp [Main.before])
  | pidEnds b =>
    rw [step, Option.ite_none_right_eq_some] at h
    obtain ⟨hw, h⟩ := h
    cases h
    exact inv_setWatch hi (started_of_watch hi (by simp [hw])) _
  | watch b =>
    simp only [step] at h
    split at h
    · rename_i e hw
      cases h
      exact inv_exitStep_watch hi (started_of_watch hi (by simp [hw]))
    · cases h
  | exitFails b watch =>
    cases watch with
    | false =>
      simp only [step] at h
      split at h
      case h_3 => cases h
      all_goals
        rename_i hm
        cases h
        exact inv_setMain hi (hi.started_of_main (by simp [hm])) (by simp [hm])
          (by simp [Main.locks]) (by simp [Main.clears]) (by simp) (by simp [Main.before])
    | true =>
      simp only [step] at h
      split at h
      case h_3 => cases h
      all_goals
        rename_i hw
        cases h
        exact inv_setWatch hi (started_of_watch hi (by simp [hw])) _
  | kill b =>
    simp only [step] at h
    split at h
    · cases h
    · cases h
    · rename_i hm _
      cases h
      exact inv_die hi (hi.started_of_main hm)

/-- **The run lemma.** -/
theorem inv_of_reaches {ok : State → Action → Prop} {name : Path → Option Entry}
    (h : Reaches step ok (State.init name) s) : Inv s :=
  h.invariant (inv_init name) fun _ _ _ hi _ hs => inv_step hi hs

/-! ## Leaving -/

theorem between_iff {B : Broker} {p : Path} :
    B.between p = true ↔ B.main = .exiting (.unlink p) ∨ B.watch = .exiting (.unlink p) := by
  simp [Broker.between]

/-- A thread that has matched a path stands over no other live broker's file. -/
theorem not_has_of_matched (hi : Inv s) {p : Path} (hm : s.matched b p = true) {c : ℕ}
    (hc : c ≠ b) : ¬ s.Has c p := by
  rintro ⟨i, hmade, hn⟩
  unfold State.matched at hm
  rw [hn] at hm
  split at hm
  · rename_i i' j hs hid
    cases hs
    rw [beq_iff_eq] at hm
    subst hm
    exact hi.uniq c b p p _ hc hmade (hi.identity b p _ hid).1
  · cases hm

/-- A broker's new threads are not between. -/
theorem between_set {B : Broker} {c : ℕ} {p : Path}
    (h : ((s.set b B).broker c).between p = true) :
    (s.broker c).between p = true ∨ c = b ∧ B.between p = true := by
  by_cases hc : c = b
  · subst hc
    rw [set_broker_self] at h
    exact .inr ⟨rfl, h⟩
  · rw [set_broker_of_ne hc] at h
    exact .inl h

theorem between_setMain {m : Main} (hm : ∀ p, m ≠ .exiting (.unlink p)) {c : ℕ} {p : Path}
    (h : ((s.setMain b m).broker c).between p = true) : (s.broker c).between p = true := by
  rcases between_set h with h | ⟨rfl, h⟩
  · exact h
  · rw [between_iff] at h ⊢
    exact h.imp (fun h => absurd h (hm p)) id

theorem between_setWatch {w : Watch} (hw : ∀ p, w ≠ .exiting (.unlink p)) {c : ℕ} {p : Path}
    (h : ((s.setWatch b w).broker c).between p = true) : (s.broker c).between p = true := by
  rcases between_set h with h | ⟨rfl, h⟩
  · exact h
  · rw [between_iff] at h ⊢
    exact h.imp id fun h => absurd h (hw p)

theorem between_die {c : ℕ} {p : Path} (h : ((s.die b).broker c).between p = true) :
    (s.broker c).between p = true := by
  rcases between_set (B := { Broker.none with main := .dead }) h with h | ⟨-, h⟩
  · exact h
  · cases h

/-- A thread comes between a path's `lstat` and its `unlink` by matching it. -/
theorem between_exitStep (go : ℕ → State → Exit → State)
    (hgo : ∀ t e c p, ((go b t e).broker c).between p = true →
      (t.broker c).between p = true ∨ c = b ∧ e = .unlink p)
    {e : Exit} {c : ℕ} {p : Path} (h : ((s.exitStep b (go b) e).broker c).between p = true) :
    (s.broker c).between p = true ∨ s.matched c p = true := by
  cases e with
  | look q =>
    rcases hgo _ _ _ _ h with h | ⟨rfl, he⟩
    · exact .inl h
    · split_ifs at he with hm
      · cases he
        exact .inr hm
      · cases q <;> cases he
  | unlink q =>
    rcases hgo _ _ _ _ h with h | ⟨rfl, he⟩
    · exact .inl h
    · cases q <;> cases he
  | ended => exact .inl (between_die h)

theorem between_mainExit (t : State) (e : Exit) (c : ℕ) (p : Path)
    (h : ((State.mainExit b t e).broker c).between p = true) :
    (t.broker c).between p = true ∨ c = b ∧ e = .unlink p := by
  rcases between_set h with h | ⟨rfl, h⟩
  · exact .inl h
  · rw [between_iff] at h
    rcases h with h | h
    · exact .inr ⟨rfl, Main.exiting.inj h⟩
    · exact .inl (between_iff.mpr (.inr h))

theorem between_watchExit (t : State) (e : Exit) (c : ℕ) (p : Path)
    (h : ((State.watchExit b t e).broker c).between p = true) :
    (t.broker c).between p = true ∨ c = b ∧ e = .unlink p := by
  rcases between_set h with h | ⟨rfl, h⟩
  · exact .inl h
  · rw [between_iff] at h
    rcases h with h | h
    · exact .inl (between_iff.mpr (.inl h))
    · exact .inr ⟨rfl, Watch.exiting.inj h⟩

theorem reclaimed_ne (q p : Path) : Main.reclaimed q ≠ .exiting (.unlink p) := by
  cases q <;> simp [Main.reclaimed]

theorem between_mainStep {m : Main} (h : mainStep s b m = some s') {c : ℕ} {p : Path}
    (hb : (s'.broker c).between p = true) :
    (s.broker c).between p = true ∨ s.matched c p = true := by
  unfold mainStep at h
  split at h
  · split at h <;> cases h
    · exact .inl (between_setMain (reclaimed_ne _) hb)
    · exact .inl (between_setMain (by simp) hb)
    · exact .inl (between_die hb)
  · split_ifs at h <;> cases h
    · exact .inl (between_setMain (reclaimed_ne _) hb)
    · exact .inl (between_die hb)
    · exact .inl (between_setMain (by simp) hb)
  · cases h
    exact .inl (between_setMain (s := s.remove _) (reclaimed_ne _) hb)
  · split at h <;> cases h
    · rcases between_set hb with hb | ⟨rfl, hb⟩
      · exact .inl hb
      · rw [between_iff] at hb ⊢
        refine .inl (hb.imp (fun hb => ?_) id)
        split at hb <;> cases hb
    · exact .inl (between_die hb)
  · split_ifs at h <;> cases h
    · exact .inl (between_setMain (by simp) hb)
    · exact .inl (between_die hb)
  · cases h
    exact .inl (between_die (s := s.remove .guest) hb)
  · cases h
    rcases between_set hb with hb | ⟨rfl, hb⟩
    · exact .inl hb
    · simp [between_iff] at hb
  · cases h
    exact between_exitStep State.mainExit between_mainExit hb
  · cases h

theorem between_of_step {a : Action} (h : step s a = some s') {c : ℕ} {p : Path}
    (hb : (s'.broker c).between p = true) :
    (s.broker c).between p = true ∨ s.matched c p = true := by
  cases a with
  | start =>
    cases h
    rcases between_set hb with hb | ⟨-, hb⟩
    · exact .inl hb
    · cases hb
  | lock b =>
    rw [step, Option.ite_none_right_eq_some] at h
    cases h.2
    exact .inl (between_setMain (m := .looking .guest) (by simp) hb)
  | main b => exact between_mainStep h hb
  | bind b i =>
    simp only [step] at h
    split at h
    · rw [Option.ite_none_right_eq_some] at h
      cases h.2
      rcases between_set hb with hb | ⟨rfl, hb⟩
      · exact .inl hb
      · rw [between_iff] at hb ⊢
        exact .inl (hb.imp (fun hb => by cases hb) id)
    · cases h
  | bindFails b left =>
    simp only [step] at h
    split at h
    · cases h
      exact .inl (between_die hb)
    · rw [Option.ite_none_right_eq_some] at h
      cases h.2
      exact .inl (between_die hb)
    · cases h
      rcases between_set hb with hb | ⟨rfl, hb⟩
      · exact .inl hb
      · rw [between_iff] at hb ⊢
        exact .inl (hb.imp (fun hb => by cases hb) id)
    · rw [Option.ite_none_right_eq_some] at h
      cases h.2
      rcases between_set hb with hb | ⟨rfl, hb⟩
      · exact .inl hb
      · rw [between_iff] at hb ⊢
        exact .inl (hb.imp (fun hb => by cases hb) id)
    · cases h
  | term b =>
    simp only [step] at h
    split at h <;> cases h
    all_goals exact .inl (between_setMain (by simp) hb)
  | pidEnds b =>
    rw [step, Option.ite_none_right_eq_some] at h
    cases h.2
    exact .inl (between_setWatch (by simp) hb)
  | watch b =>
    simp only [step] at h
    split at h <;> cases h
    exact between_exitStep State.watchExit between_watchExit hb
  | exitFails b watch =>
    cases watch <;> simp only [step] at h <;> split at h <;> cases h
    all_goals rename_i q _
    · exact .inl (between_setMain (by cases q <;> simp [Exit.after]) hb)
    · exact .inl (between_setMain (by cases q <;> simp [Exit.after]) hb)
    · exact .inl (between_setWatch (by cases q <;> simp [Exit.after]) hb)
    · exact .inl (between_setWatch (by cases q <;> simp [Exit.after]) hb)
  | kill b =>
    simp only [step] at h
    split at h <;> cases h
    exact .inl (between_die hb)

/-- The files a step may add: to the names, or to what a live broker bound. -/
def Action.binds (s : State) (c : ℕ) (p : Path) (i : ℕ) (a : Action) : Prop :=
  (s.broker c).main = .binding p ∧ (a = .bind c i ∨ a = .bindFails c (some i))

/-- Nothing is added. -/
structure Kept (s s' : State) : Prop where
  name : ∀ p i, s'.name p = some (.socket i) → s.name p = some (.socket i)
  made : ∀ c p i, (s'.broker c).made p = some i → (s.broker c).made p = some i

theorem kept_set {B : Broker} (hB : ∀ p i, B.made p = some i → (s.broker b).made p = some i) :
    Kept s (s.set b B) := by
  refine ⟨fun _ _ h => h, fun c p i h => ?_⟩
  by_cases hc : c = b
  · subst hc
    rw [set_broker_self] at h
    exact hB p i h
  · rwa [set_broker_of_ne hc] at h

theorem kept_die : Kept s (s.die b) :=
  have h := kept_set (s := s) (b := b) (B := { Broker.none with main := .dead })
    fun _ _ h => by cases h
  ⟨h.name, h.made⟩

theorem kept_remove (p : Path) : Kept s (s.remove p) :=
  ⟨fun _ _ h => (remove_name h).2, fun _ _ _ h => h⟩

theorem Kept.trans {s'' : State} (h : Kept s s') (h' : Kept s' s'') : Kept s s'' :=
  ⟨fun p i hn => h.name p i (h'.name p i hn), fun c p i hm => h.made c p i (h'.made c p i hm)⟩

theorem kept_setMain (m : Main) : Kept s (s.setMain b m) := kept_set fun _ _ h => h

theorem kept_setWatch (w : Watch) : Kept s (s.setWatch b w) := kept_set fun _ _ h => h

theorem kept_exitStep (go : ℕ → State → Exit → State) (hgo : ∀ t e, Kept t (go b t e)) (e : Exit) :
    Kept s (s.exitStep b (go b) e) := by
  cases e with
  | look p => exact hgo _ _
  | unlink p => exact (kept_remove p).trans (hgo _ _)
  | ended => exact kept_die

theorem kept_mainStep {m : Main} (h : mainStep s b m = some s') : Kept s s' := by
  unfold mainStep at h
  split at h
  · split at h <;> cases h <;> first | exact kept_setMain _ | exact kept_die
  · split_ifs at h <;> cases h <;> first | exact kept_setMain _ | exact kept_die
  · cases h
    exact (kept_remove _).trans (kept_setMain _)
  · split at h <;> cases h
    · exact kept_set fun _ _ h => h
    · exact kept_die
  · split_ifs at h <;> cases h <;> first | exact kept_setMain _ | exact kept_die
  · cases h
    exact (kept_remove _).trans kept_die
  · cases h
    have hk := kept_set (s := s) (b := b)
      (B := { s.broker b with main := .serving, watch := .waiting }) fun _ _ h => h
    exact ⟨hk.name, hk.made⟩
  · cases h
    exact kept_exitStep State.mainExit (fun t e => kept_setMain _) _
  · cases h

theorem name_bound {p q : Path} {i j : ℕ}
    (h : Function.update s.name p (some (.socket i)) q = some (.socket j)) :
    q = p ∧ j = i ∨ s.name q = some (.socket j) := by
  by_cases hq : q = p
  · subst hq
    simp only [Function.update_self, Option.some.injEq, Entry.socket.injEq] at h
    exact .inl ⟨rfl, h.symm⟩
  · rw [Function.update_of_ne hq] at h
    exact .inr h

theorem made_bound {B : Broker} {p q : Path} {i j c : ℕ}
    (hB : B.made = Function.update (s.broker b).made p (some i))
    (h : ((s.set b B).broker c).made q = some j) :
    c = b ∧ q = p ∨ (s.broker c).made q = some j := by
  by_cases hc : c = b
  · subst hc
    rw [set_broker_self, hB] at h
    by_cases hq : q = p
    · exact .inl ⟨rfl, hq⟩
    · rw [Function.update_of_ne hq] at h
      exact .inr h
  · rw [set_broker_of_ne hc] at h
    exact .inr h

/-- A step adds nothing, or it binds one path and leaves the rest alone. -/
theorem kept_or_binds (hi : Inv s) {a : Action} (h : step s a = some s') :
    Kept s s' ∨ ∃ b p i, a.binds s b p i ∧ s.fresh i ∧ s.name p = none ∧
      (∀ c q j, (s'.broker c).made q = some j → c = b ∧ q = p ∨ (s.broker c).made q = some j) ∧
      ∀ q j, s'.name q = some (.socket j) → q = p ∧ j = i ∨ s.name q = some (.socket j) := by
  cases a with
  | start =>
    cases h
    have hnone := hi.absent s.started le_rfl
    have hk := kept_set (s := s) (b := s.started) (B := { Broker.none with main := .wantsLock })
      fun _ _ h => by cases h
    exact .inl ⟨hk.name, hk.made⟩
  | lock b =>
    rw [step, Option.ite_none_right_eq_some] at h
    cases h.2
    have hk := kept_setMain (s := s) (b := b) (.looking .guest)
    exact .inl ⟨hk.name, hk.made⟩
  | main b => exact .inl (kept_mainStep h)
  | bind b i =>
    simp only [step] at h
    split at h
    · rename_i p hm
      rw [Option.ite_none_right_eq_some] at h
      obtain ⟨⟨hfree, hfresh⟩, h⟩ := h
      cases h
      exact .inr ⟨b, p, i, ⟨hm, .inl rfl⟩, hfresh, hfree, fun c q j hj => made_bound rfl hj,
        fun q j hn => name_bound hn⟩
    · cases h
  | bindFails b left =>
    simp only [step] at h
    split at h
    · cases h
      exact .inl kept_die
    · rename_i i hm
      rw [Option.ite_none_right_eq_some] at h
      obtain ⟨⟨hfree, hfresh⟩, h⟩ := h
      cases h
      exact .inr ⟨b, .guest, i, ⟨hm, .inr rfl⟩, hfresh, hfree,
        fun c q j hj => .inr (kept_die.made c q j hj), fun q j hn => name_bound hn⟩
    · cases h
      exact .inl (kept_set fun _ _ h => h)
    · rename_i i hm
      rw [Option.ite_none_right_eq_some] at h
      obtain ⟨⟨hfree, hfresh⟩, h⟩ := h
      cases h
      exact .inr ⟨b, .control, i, ⟨hm, .inr rfl⟩, hfresh, hfree,
        fun c q j hj => made_bound rfl hj, fun q j hn => name_bound hn⟩
    · cases h
  | term b =>
    simp only [step] at h
    split at h <;> cases h
    all_goals exact .inl (kept_setMain _)
  | pidEnds b =>
    rw [step, Option.ite_none_right_eq_some] at h
    cases h.2
    exact .inl (kept_setWatch _)
  | watch b =>
    simp only [step] at h
    split at h <;> cases h
    exact .inl (kept_exitStep State.watchExit (fun t e => kept_setWatch _) _)
  | exitFails b watch =>
    cases watch <;> simp only [step] at h <;> split at h <;> cases h
    · exact .inl (kept_setMain _)
    · exact .inl (kept_setMain _)
    · exact .inl (kept_setWatch _)
    · exact .inl (kept_setWatch _)
  | kill b =>
    simp only [step] at h
    split at h <;> cases h
    exact .inl kept_die

/-- No leaving thread is about to unlink another live broker's file. -/
def Tidy (s : State) : Prop := ∀ b p, (s.broker b).between p = true → ∀ c, c ≠ b → ¬ s.Has c p

theorem unhurried_of_binds {d : ℕ} {p : Path} {i : ℕ} {a : Action} (hok : unhurried s a)
    (ha : a.binds s d p i) : ∀ c < s.started, (s.broker c).between p = false := by
  obtain ⟨hm, rfl | rfl⟩ := ha <;>
    · simp only [unhurried, hm] at hok
      exact hok

theorem tidy_step (hi : Inv s) (ht : Tidy s) {a : Action} (hok : unhurried s a)
    (h : step s a = some s') : Tidy s' := by
  rintro b p hb c hc ⟨j, hmade, hname⟩
  have hnot : ¬ s.Has c p := by
    rcases between_of_step h hb with hb | hm
    · exact ht b p hb c hc
    · exact not_has_of_matched hi hm hc
  rcases kept_or_binds hi h with hk | ⟨d, p', i, ha, hfresh, hfree, hmadeOnly, hnameOnly⟩
  · exact hnot ⟨j, hk.made c p j hmade, hk.name p j hname⟩
  · by_cases hbound : c = d ∧ p = p'
    · -- the path is bound just now, and nobody stood over it
      obtain ⟨rfl, rfl⟩ := hbound
      rcases between_of_step h hb with hb | hm
      · have hstarted : b < s.started := by
          by_contra hle
          rw [hi.absent b (Nat.le_of_not_lt hle)] at hb
          cases hb
        rw [unhurried_of_binds hok ha b hstarted] at hb
        cases hb
      · rw [State.matched, hfree] at hm
        cases hm
    · have hold := (hmadeOnly c p j hmade).resolve_left hbound
      rcases hnameOnly p j hname with ⟨rfl, rfl⟩ | hn
      · have hcd : c ≠ d := fun hcd => hbound ⟨hcd, rfl⟩
        exact ne_made_of_fresh hi (hi.locked d (by rw [ha.1]; rfl)) hfresh hcd p hold
      · exact hnot ⟨j, hold, hn⟩

/-! ## The results -/

/-- The two names never hold the files of two live brokers. -/
theorem apart_of_reaches {name : Path → Option Entry} {c : ℕ} {p q : Path}
    (h : Reaches step anyStep (State.init name) s) (hbc : b ≠ c) (hb : s.Has b p) : ¬ s.Has c q :=
  (inv_of_reaches h).apart b c p q hbc hb

/-- **No broker unlinks a live broker's socket file**, in every run in which no path is
bound while a leaving thread stands between its `lstat` of that path and its `unlink`.
And in every run, the files at the two names are never those of two live brokers. -/
theorem unlinks_own (name : Path → Option Entry) (s : State) :
    (Reaches step unhurried (State.init name) s → ∀ a s' b p, step s a = some s' →
        unlinks s a = some (b, p) → ∀ c, c ≠ b → ¬ s.Has c p) ∧
      (Reaches step anyStep (State.init name) s → ∀ b c p q, b ≠ c → s.Has b p → ¬ s.Has c q) := by
  refine ⟨fun h a s' b p _ hu c hc => ?_, fun h b c p q hbc hb => apart_of_reaches h hbc hb⟩
  have hinv := h.invariant (I := fun s => Inv s ∧ Tidy s)
    ⟨inv_init name, fun b p hb => by cases hb⟩
    fun _ _ _ hi hok hs => ⟨inv_step hi.1 hs, tidy_step hi.1 hi.2 hok hs⟩
  obtain ⟨hi, ht⟩ := hinv
  cases a with
  | main d =>
    simp only [unlinks] at hu
    split at hu <;> cases hu
    · rename_i hm
      exact hi.cleared b p (by rw [hm]; simp [Main.clears]) c hc
    · rename_i hm
      exact ht b p (between_iff.mpr (.inl hm)) c hc
    · rename_i hm
      exact hi.cleared b .guest (by rw [hm]; rfl) c hc
  | watch d =>
    simp only [unlinks] at hu
    split at hu <;> cases hu
    rename_i hw
    exact ht b p (between_iff.mpr (.inr hw)) c hc
  | _ => cases hu

/-- The way from the start to serving, of broker `b` with socket files `g` and `c`. -/
def serve (b g c : ℕ) : List Action :=
  [.start, .lock b, .main b, .main b, .bind b g, .main b, .bind b c, .main b, .main b]

/-- Broker 0's main thread has unlinked both paths and its watching thread still leaves when
broker 1 serves; the late thread does not take the new socket for its own, and then broker 1
leaves. -/
def lateExit : List Action :=
  serve 0 1 2 ++ [.term 0, .pidEnds 0, .main 0, .main 0, .main 0, .main 0] ++ serve 1 3 4 ++
    [.watch 0, .term 1, .main 1]

/-- A broker is about to remove its own guest socket, while a broker before it still leaves. -/
theorem unlinks_own_serve :
    ∃ s s', Reaches step unhurried (State.init fun _ => none) s ∧
      (s.broker 0).watch = .exiting (.look .control) ∧ step s (.main 1) = some s' ∧
      unlinks s (.main 1) = some (1, .guest) ∧ ∀ c, c ≠ 1 → ¬ s.Has c .guest := by
  obtain ⟨s, hs, hlate, hstep, hu⟩ : ∃ s,
      run (guarded step unhurried) (State.init fun _ => none) lateExit = some s ∧
      (s.broker 0).watch = .exiting (.look .control) ∧
      (step s (.main 1)).isSome = true ∧ unlinks s (.main 1) = some (1, .guest) :=
    ⟨_, rfl, rfl, rfl, rfl⟩
  obtain ⟨s', hs'⟩ := Option.isSome_iff_exists.mp hstep
  have hreach := reaches_of_run _ hs
  exact ⟨s, s', hreach, hlate, hs', hu, (unlinks_own _ s).1 hreach _ s' 1 .guest hs' hu⟩

/-- Both threads of broker 0 leave.  The watching thread has matched the guest socket
when the main thread unlinks both paths, broker 1 starts, and then it goes on. -/
def twoExits : List Action :=
  serve 0 1 2 ++ [.term 0, .pidEnds 0, .watch 0, .main 0, .main 0, .main 0, .main 0] ++
    serve 1 3 4

/-- **A broker can unlink a live broker's socket file.** -/
theorem unlinks_foreign :
    ∃ s s', Reaches step anyStep (State.init fun _ => none) s ∧ step s (.watch 0) = some s' ∧
      unlinks s (.watch 0) = some (0, .guest) ∧ s.Has 1 .guest := by
  obtain ⟨s, hs, h⟩ : ∃ s, run (guarded step anyStep) (State.init fun _ => none) twoExits = some s ∧
      (step s (.watch 0)).isSome = true ∧ unlinks s (.watch 0) = some (0, .guest) ∧
      (s.broker 1).made .guest = some 3 ∧ s.name .guest = some (.socket 3) :=
    ⟨_, rfl, rfl, rfl, rfl, rfl⟩
  obtain ⟨hstep, hunlinks, hmade, hname⟩ := h
  obtain ⟨s', hs'⟩ := Option.isSome_iff_exists.mp hstep
  exact ⟨s, s', reaches_of_run twoExits hs, hs', hunlinks, 3, hmade, hname⟩

end Sockets
