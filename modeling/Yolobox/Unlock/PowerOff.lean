/-
# Sending the passphrase and powering off, under one host lock

The parties that meet over one box in its initrd: any number of yo processes on
one host (`run_initrd_helper` of `yolobox_cli/unlock.py` and `cmd_down` of
`yolobox_cli/vm.py`, both under the flock `unlock_lock`), the remote
`yolobox-unlock` helpers they start (`nix/luks/yolobox-unlock.sh`), which go on
when their yo dies, and the migration unit.

One action is one step of one party, and a schedule is an interleaving.  The
passphrase is in three places in turn: in ssh's pipe or on the wire, in the
helper before its `mkfifo`, in the helper while its FIFO stands.  The probe of
`yo down` sees only the third (`onTheWay` names the first two).  The answer and the
end of the ask are two steps: the file stands until the asker unlinks it (`answered`).
-/
import Yolobox.Lib.Transition
import Yolobox.Unlock.Probe

open Transition

namespace Unlock

/-! ## The parties -/

/-- `yolobox-luks-migrate.service` over one boot of the initrd. -/
inductive UnitState
  | off                -- the VM is powered off
  | inactive           -- booted, not started yet
  | starting           -- runs, before its ask (or with nothing to ask)
  | asking             -- waits on its ask
  | writing            -- its ask was answered: it goes on to shrink, encrypt, finalize
  | ended (ok : Bool)
  deriving DecidableEq, Repr

/-- The word `systemctl is-active` prints. -/
def UnitState.word : UnitState → PyStr
  | .off => []
  | .inactive => lit "inactive"
  | .starting => migrateUnitRunning
  | .asking => migrateUnitRunning
  | .writing => migrateUnitRunning
  | .ended true => migrateUnitFinished
  | .ended false => migrateUnitFailed

/-- One run of `yolobox-unlock`, from the ssh that starts it to its end. -/
inductive HelperStage
  | absent
  | connecting (sent : Bool)  -- ssh runs; has yo written the passphrase into it?
  | keyed                     -- the helper read the passphrase, before `mkfifo`
  | listening                 -- its FIFO stands; it answers asks
  -- killed without its EXIT trap, it leaves the FIFO; its reply may go on without it
  | ended (fifoLeft replying : Bool)
  deriving DecidableEq, Repr

/-- Whether `/tmp` holds this helper's FIFO. -/
def HelperStage.fifo : HelperStage → Bool
  | .listening => true
  | .ended left _ => left
  | _ => false

/-- The passphrase is under way to a FIFO that does not exist yet. -/
def HelperStage.onTheWay : HelperStage → Bool
  | .connecting sent => sent
  | .keyed => true
  | _ => false

/-- A reply that outlives its helper. -/
def HelperStage.replying : HelperStage → Bool
  | .ended _ replying => replying
  | _ => false

/-- Where one yo process stands. -/
inductive YoStage
  | idle
  | lockedUp                   -- `run_initrd_helper` has the lock
  | session (h : ℕ)            -- its ssh runs helper `h`
  | lockedDown                 -- `cmd_down` has the lock
  | unitRead (unit : PyStr)
  | fifosRead (unit : PyStr) (left seen : List ℕ)
  | asksRead (unit : PyStr) (seen : List ℕ) (left read : List PyStr)
  | judged (verdict : InitrdState)
  | forced
  | dead
  deriving DecidableEq, Repr

/-- Whether a process at this stage holds the flock. -/
def YoStage.holds : YoStage → Bool
  | .idle => false
  | .dead => false
  | _ => true

structure State where
  lock : Option ℕ
  yo : ℕ → YoStage
  started : ℕ                  -- helpers `0 .. started - 1` were started
  helper : ℕ → HelperStage
  unit : UnitState
  askFile : Bool               -- the file of the migration's ask stands
  otherAsks : List PyStr       -- ids of the pending asks that are not the migration's

/-- A box that boots, with no yo at work. -/
def State.init : State where
  lock := none
  yo := fun _ => .idle
  started := 0
  helper := fun _ => .absent
  unit := .inactive
  askFile := false
  otherAsks := []

/-- The ids of the asks whose files stand. -/
def State.asks (s : State) : List PyStr :=
  (if s.askFile then [migrateAskId] else []) ++ s.otherAsks

/-- The helpers whose FIFO stands. -/
def State.fifos (s : State) : List ℕ :=
  (List.range s.started).filter fun h => (s.helper h).fifo

/-- The path of a helper's FIFO, as the probe prints it. -/
def fifoPath (h : ℕ) : PyStr := lit "/tmp/yolobox-unlock." ++ [h]

def State.setYo (s : State) (p : ℕ) (st : YoStage) : State :=
  { s with yo := Function.update s.yo p st }

def State.setHelper (s : State) (h : ℕ) (st : HelperStage) : State :=
  { s with helper := Function.update s.helper h st }

/-- Every helper in the initrd is gone with the power; an ssh that still tries to
connect lives on the host. -/
def HelperStage.powerOff : HelperStage → HelperStage
  | .keyed => .ended false false
  | .listening => .ended false false
  | .ended _ _ => .ended false false
  | st => st

/-! ## The steps -/

inductive Action
  -- a yo that unlocks: `run_initrd_helper`
  | lockUp (p : ℕ)
  | refuseListener (p : ℕ)     -- `verify_initrd_listener` raises
  | spawn (p : ℕ)
  | send (p : ℕ)
  | sessionEnds (p : ℕ)        -- ssh exits, for whatever reason
  -- a yo that stops the box: `cmd_down`
  | lockDown (p : ℕ)
  | probeFails (p : ℕ)
  | readUnit (p : ℕ)
  | globFifos (p : ℕ)
  | testFifo (p : ℕ)
  | globAsks (p : ℕ)
  | catAsk (p : ℕ)
  | judgeProbe (p : ℕ)
  | forceStop (p : ℕ)
  | leave (p : ℕ)
  -- any yo, at any step
  | kill (p : ℕ)
  -- the helper in the initrd
  | readKey (h : ℕ)
  | mkfifo (h : ℕ)
  | answer (h : ℕ)             -- it answers the migration's ask
  | exit (h : ℕ) (fifoLeft replying : Bool)
  | replyEnds (h : ℕ)          -- with no answer to the migration's ask
  -- the initrd
  | boot
  | unitStarts
  | unitAsks
  | unlinkAsk                  -- by the asker, after the answer or when it is ended
  | unitEnds (ok : Bool)
  | setAsks (ids : List PyStr)
  deriving DecidableEq, Repr

/-- Leave the critical section. -/
def State.release (s : State) (p : ℕ) (st : YoStage) : State :=
  { s.setYo p st with lock := none }

/-- One step; `none` when the action is not possible in the state. -/
def step (s : State) : Action → Option State
  | .lockUp p =>
    if s.yo p = .idle ∧ s.lock = none then some { s.setYo p .lockedUp with lock := some p }
    else none
  | .refuseListener p => if s.yo p = .lockedUp then some (s.release p .idle) else none
  | .spawn p =>
    if s.yo p = .lockedUp then
      some { (s.setYo p (.session s.started)).setHelper s.started (.connecting false) with
        started := s.started + 1 }
    else none
  | .send p =>
    match s.yo p with
    | .session h =>
      -- a pipe whose ssh already ended: the `BrokenPipeError` that is passed over
      if s.helper h = .connecting false then some (s.setHelper h (.connecting true)) else some s
    | _ => none
  | .sessionEnds p =>
    match s.yo p with
    | .session _ => some (s.release p .idle)
    | _ => none
  | .lockDown p =>
    if s.yo p = .idle ∧ s.lock = none then some { s.setYo p .lockedDown with lock := some p }
    else none
  | .probeFails p =>
    match s.yo p with
    | .lockedDown => some (s.setYo p (.judged .unknown))
    | .unitRead _ => some (s.setYo p (.judged .unknown))
    | .fifosRead _ _ _ => some (s.setYo p (.judged .unknown))
    | .asksRead _ _ _ _ => some (s.setYo p (.judged .unknown))
    | _ => none
  | .readUnit p =>
    if s.yo p = .lockedDown then some (s.setYo p (.unitRead s.unit.word)) else none
  | .globFifos p =>
    match s.yo p with
    | .unitRead unit => some (s.setYo p (.fifosRead unit s.fifos []))
    | _ => none
  | .testFifo p =>
    match s.yo p with
    | .fifosRead unit (h :: left) seen =>
      some (s.setYo p (.fifosRead unit left (if (s.helper h).fifo then seen ++ [h] else seen)))
    | _ => none
  | .globAsks p =>
    match s.yo p with
    | .fifosRead unit [] seen => some (s.setYo p (.asksRead unit seen s.asks []))
    | _ => none
  | .catAsk p =>
    match s.yo p with
    | .asksRead unit seen (id :: left) read =>
      some (s.setYo p (.asksRead unit seen left (if id ∈ s.asks then read ++ [id] else read)))
    | _ => none
  | .judgeProbe p =>
    match s.yo p with
    | .asksRead unit seen [] read =>
      some (s.setYo p (.judged
        (classifyLines (probeLines unit (seen.map fifoPath) (read.map askLines)))))
    | _ => none
  | .forceStop p =>
    if s.yo p = .judged .waitingForPassphrase then
      some { s.setYo p .forced with
        unit := .off, askFile := false, otherAsks := [], helper := fun h => (s.helper h).powerOff }
    else none
  | .leave p =>
    match s.yo p with
    | .judged verdict =>
      if verdict = .waitingForPassphrase then none else some (s.release p .idle)
    | .forced => some (s.release p .idle)
    | _ => none
  | .kill p =>
    if s.yo p = .dead then none
    else some { s.setYo p .dead with lock := if (s.yo p).holds then none else s.lock }
  | .readKey h =>
    if s.helper h = .connecting true ∧ s.unit ≠ .off then some (s.setHelper h .keyed) else none
  | .mkfifo h => if s.helper h = .keyed then some (s.setHelper h .listening) else none
  | .answer h =>
    if s.unit = .asking then
      match s.helper h with
      | .listening => some { s with unit := .writing }
      | .ended left true => some { s.setHelper h (.ended left false) with unit := .writing }
      | _ => none
    else none
  | .exit h left replying =>
    match s.helper h with
    | .connecting _ => some (s.setHelper h (.ended false false))
    | .keyed => some (s.setHelper h (.ended false false))
    | .listening => some (s.setHelper h (.ended left replying))
    | _ => none
  | .replyEnds h =>
    match s.helper h with
    | .ended left true => some (s.setHelper h (.ended left false))
    | _ => none
  | .boot => if s.unit = .off then some { s with unit := .inactive } else none
  | .unitStarts => if s.unit = .inactive then some { s with unit := .starting } else none
  | .unitAsks =>
    if s.unit = .starting then some { s with unit := .asking, askFile := true } else none
  | .unlinkAsk => if s.askFile then some { s with askFile := false } else none
  | .unitEnds ok =>
    -- without an answer the script fails
    if s.unit = .starting ∨ s.unit = .writing ∨ s.unit = .asking ∧ ok = false then
      some { s with unit := .ended ok }
    else none
  | .setAsks ids =>
    if migrateAskId ∉ ids ∧ s.unit ≠ .off then some { s with otherAsks := ids } else none

/-- No passphrase is on its way to a FIFO that does not exist yet. -/
def State.noneOnTheWay (s : State) : Prop :=
  ∀ h < s.started, (s.helper h).onTheWay = false

instance (s : State) : Decidable s.noneOnTheWay := by
  unfold State.noneOnTheWay; infer_instance

/-- The migration's ask has its answer, and its file still stands. -/
def State.answered (s : State) : Prop := s.askFile = true ∧ s.unit = .writing

instance (s : State) : Decidable s.answered := by
  unfold State.answered; infer_instance

/-- No reply outlives its helper. -/
def State.noneReplying (s : State) : Prop :=
  ∀ h < s.started, (s.helper h).replying = false

instance (s : State) : Decidable s.noneReplying := by
  unfold State.noneReplying; infer_instance

/-- It found no FIFO, and the next ask it reads is the migration's. -/
def YoStage.readsMigrateAsk : YoStage → Bool
  | .asksRead _ [] (id :: _) _ => id == migrateAskId
  | _ => false

/-- The condition on a step: `yo down` lists the FIFOs only while no passphrase is
on its way to one, and where it found none it reads the migration's ask only while
that has no answer and no reply outlives its helper.  (It holds the lock there, so
such a passphrase or reply is of a sender that gave the lock up: it was killed, or
its ssh session ended early.) -/
def settled (s : State) : Action → Prop
  | .globFifos _ => s.noneOnTheWay
  | .catAsk p => (s.yo p).readsMigrateAsk = true → ¬ s.answered ∧ s.noneReplying
  | _ => True

instance (s : State) (a : Action) : Decidable (settled s a) := by
  cases a <;> unfold settled <;> infer_instance

/-! ## What a step can do -/

/-- Nothing that `yo down` relies on gets worse from `s` to `s'`: no passphrase
is newly on its way, no helper listens that was not on its way or listening, only
the reply of a listening one outlives it, a finished unit stays finished and an ask
is answered by a helper that listens or by its reply. -/
structure Calmer (s s' : State) : Prop where
  onTheWay : ∀ h, (s'.helper h).onTheWay = true → (s.helper h).onTheWay = true
  listening : ∀ h, s'.helper h = .listening →
    s.helper h = .listening ∨ (s.helper h).onTheWay = true
  replying : ∀ h, (s'.helper h).replying = true →
    s.helper h = .listening ∨ (s.helper h).replying = true
  ended : s.unit = .ended true → s'.unit = .ended true
  writing : s'.unit = .writing → s.unit = .writing ∨
    ∃ h, s.helper h = .listening ∨ (s.helper h).replying = true

/-- A step that touches neither the helpers nor the unit. -/
theorem calmer_of_eq {s s' : State} (hh : s'.helper = s.helper) (hu : s'.unit = s.unit) :
    Calmer s s' where
  onTheWay := fun h hw => by rw [hh] at hw; exact hw
  listening := fun h hl => by rw [hh] at hl; exact .inl hl
  replying := fun h hr => by rw [hh] at hr; exact .inr hr
  ended := fun h => by rw [hu, h]
  writing := fun h => .inl (by rw [← hu, h])

/-- A step of one helper: it moves on along `connecting`, `keyed`, `listening`. -/
theorem calmer_setHelper {s : State} {h : ℕ} {st : HelperStage}
    (hw : st.onTheWay = true → (s.helper h).onTheWay = true)
    (hl : st = .listening → (s.helper h).onTheWay = true)
    (hr : st.replying = true → s.helper h = .listening ∨ (s.helper h).replying = true) :
    Calmer s (s.setHelper h st) where
  onTheWay := fun k hk => by
    by_cases hkh : k = h
    · subst hkh
      simp only [State.setHelper, Function.update_self] at hk
      exact hw hk
    · simpa [State.setHelper, hkh] using hk
  listening := fun k hk => by
    by_cases hkh : k = h
    · subst hkh
      simp only [State.setHelper, Function.update_self] at hk
      exact .inr (hl hk)
    · exact .inl (by simpa [State.setHelper, hkh] using hk)
  replying := fun k hk => by
    by_cases hkh : k = h
    · subst hkh
      simp only [State.setHelper, Function.update_self] at hk
      exact hr hk
    · exact .inr (by simpa [State.setHelper, hkh] using hk)
  ended := fun h => h
  writing := fun h => .inl h

/-- A step of the unit by itself. -/
theorem calmer_unit {s s' : State} (hh : s'.helper = s.helper) (he : s.unit ≠ .ended true)
    (hw : s'.unit ≠ .writing) : Calmer s s' where
  onTheWay := fun h hw => by rw [hh] at hw; exact hw
  listening := fun h hl => by rw [hh] at hl; exact .inl hl
  replying := fun h hr => by rw [hh] at hr; exact .inr hr
  ended := fun h => absurd h he
  writing := fun h => absurd h hw

/-- Every step but a yo's writing of the passphrase and the power cut is calm. -/
theorem calmer_of_step {s s' : State} {a : Action} (h : step s a = some s')
    (hsend : ∀ p, a ≠ .send p) (hforce : ∀ p, a ≠ .forceStop p) : Calmer s s' := by
  cases a with
  | send p => exact absurd rfl (hsend p)
  | forceStop p => exact absurd rfl (hforce p)
  | spawn p =>
    simp only [step, Option.ite_none_right_eq_some, Option.some.injEq] at h
    obtain ⟨-, rfl⟩ := h
    have hset : Calmer s (s.setHelper s.started (.connecting false)) :=
      calmer_setHelper (by simp [HelperStage.onTheWay]) (by simp)
        (by simp [HelperStage.replying])
    exact ⟨hset.onTheWay, hset.listening, hset.replying, hset.ended, hset.writing⟩
  | readKey k =>
    simp only [step, Option.ite_none_right_eq_some, Option.some.injEq] at h
    obtain ⟨⟨hk, -⟩, rfl⟩ := h
    exact calmer_setHelper (fun _ => by rw [hk]; rfl) (by simp) (by simp [HelperStage.replying])
  | mkfifo k =>
    simp only [step, Option.ite_none_right_eq_some, Option.some.injEq] at h
    obtain ⟨hk, rfl⟩ := h
    exact calmer_setHelper (fun _ => by rw [hk]; rfl) (fun _ => by rw [hk]; rfl)
      (by simp [HelperStage.replying])
  | exit k left replying =>
    simp only [step] at h
    split at h
    · cases h
      exact calmer_setHelper (by simp [HelperStage.onTheWay]) (by simp)
        (by simp [HelperStage.replying])
    · cases h
      exact calmer_setHelper (by simp [HelperStage.onTheWay]) (by simp)
        (by simp [HelperStage.replying])
    · rename_i hk
      cases h
      exact calmer_setHelper (by simp [HelperStage.onTheWay]) (by simp) (fun _ => .inl hk)
    · cases h
  | replyEnds k =>
    simp only [step] at h
    split at h
    · cases h
      exact calmer_setHelper (by simp [HelperStage.onTheWay]) (by simp)
        (by simp [HelperStage.replying])
    · cases h
  | answer k =>
    simp only [step, Option.ite_none_right_eq_some] at h
    obtain ⟨hu, h⟩ := h
    have hended : s.unit ≠ .ended true := by simp [hu]
    split at h
    · rename_i hk
      cases h
      exact ⟨fun _ hw => hw, fun _ hl => .inl hl, fun _ hr => .inr hr,
        fun he => absurd he hended, fun _ => .inr ⟨k, .inl hk⟩⟩
    · rename_i left hk
      cases h
      have hset : Calmer s (s.setHelper k (.ended left false)) :=
        calmer_setHelper (by simp [HelperStage.onTheWay]) (by simp)
          (by simp [HelperStage.replying])
      exact ⟨hset.onTheWay, hset.listening, hset.replying, fun he => absurd he hended,
        fun _ => .inr ⟨k, .inr (by rw [hk]; rfl)⟩⟩
    · cases h
  | boot =>
    simp only [step, Option.ite_none_right_eq_some, Option.some.injEq] at h
    obtain ⟨hu, rfl⟩ := h
    exact calmer_unit rfl (by rw [hu]; simp) (by simp)
  | unitStarts =>
    simp only [step, Option.ite_none_right_eq_some, Option.some.injEq] at h
    obtain ⟨hu, rfl⟩ := h
    exact calmer_unit rfl (by rw [hu]; simp) (by simp)
  | unitAsks =>
    simp only [step, Option.ite_none_right_eq_some, Option.some.injEq] at h
    obtain ⟨hu, rfl⟩ := h
    exact calmer_unit rfl (by rw [hu]; simp) (by simp)
  | unitEnds ok =>
    simp only [step, Option.ite_none_right_eq_some, Option.some.injEq] at h
    obtain ⟨hu, rfl⟩ := h
    refine calmer_unit rfl (fun he => ?_) (by simp)
    rcases hu with hu | hu | ⟨hu, -⟩ <;> rw [hu] at he <;> cases he
  | _ =>
    -- the remaining steps move a yo, the lock or the other asks
    simp only [step] at h
    repeat' split at h
    all_goals first
      | (rw [Option.some.injEq] at h; subst h; exact calmer_of_eq rfl rfl)
      | cases h

/-- The yo process an action belongs to. -/
def Action.actor : Action → Option ℕ
  | .lockUp p | .refuseListener p | .spawn p | .send p | .sessionEnds p | .lockDown p
  | .probeFails p | .readUnit p | .globFifos p | .testFifo p | .globAsks p | .catAsk p
  | .judgeProbe p | .forceStop p | .leave p | .kill p => some p
  | _ => none

/-- A step moves no other yo. -/
theorem yo_of_step {s s' : State} {a : Action} {p : ℕ} (h : step s a = some s')
    (hp : a.actor ≠ some p) : s'.yo p = s.yo p := by
  cases a <;> simp only [step, Action.actor, ne_eq, Option.some.injEq] at h hp <;>
    (repeat' split at h) <;>
    first
    | (cases h; simp [State.setYo, State.setHelper, State.release, Ne.symm hp])
    | cases h

/-! ## The invariant -/

/-- No helper has the passphrase, and the migration does not write. -/
structure Idle (s : State) : Prop where
  onTheWay : ∀ h, (s.helper h).onTheWay = false
  listening : ∀ h, s.helper h ≠ .listening
  replying : ∀ h, (s.helper h).replying = false
  writing : s.unit ≠ .writing

/-- What a stopping yo has learned so far, and that it still holds. -/
def Watched (s : State) : YoStage → Prop
  | .unitRead unit => unit = migrateUnitFinished → s.unit = .ended true
  | .fifosRead unit left seen =>
    (unit = migrateUnitFinished → s.unit = .ended true) ∧
      (∀ h, (s.helper h).onTheWay = false) ∧
      ∀ h, s.helper h = .listening → h ∈ left ∨ h ∈ seen
  | .asksRead unit seen _ read =>
    (unit = migrateUnitFinished → s.unit = .ended true) ∧
      (∀ h, (s.helper h).onTheWay = false) ∧ (∀ h, s.helper h = .listening → h ∈ seen) ∧
      (seen = [] → migrateAskId ∈ read → Idle s)
  | .judged .waitingForPassphrase => Idle s ∨ s.unit = .ended true
  | _ => True

structure Inv (s : State) : Prop where
  fresh : ∀ h, s.started ≤ h → s.helper h = .absent
  held : ∀ p, (s.yo p).holds = true → s.lock = some p
  others : migrateAskId ∉ s.otherAsks
  watched : ∀ p, Watched s (s.yo p)

theorem inv_init : Inv State.init where
  fresh := fun _ _ => rfl
  held := fun _ h => by simp [State.init, YoStage.holds] at h
  others := by simp [State.init]
  watched := fun _ => trivial

theorem Idle.setYo {s : State} (hi : Idle s) (p : ℕ) (st : YoStage) : Idle (s.setYo p st) :=
  ⟨hi.onTheWay, hi.listening, hi.replying, hi.writing⟩

theorem Idle.calmer {s s' : State} (hi : Idle s) (hc : Calmer s s') : Idle s' where
  onTheWay := fun k => by
    by_contra hk
    rw [Bool.not_eq_false] at hk
    exact absurd (hc.onTheWay k hk) (by simp [hi.onTheWay k])
  listening := fun k hk => by
    rcases hc.listening k hk with hl | hw
    · exact hi.listening k hl
    · exact absurd hw (by simp [hi.onTheWay k])
  replying := fun k => by
    by_contra hk
    rw [Bool.not_eq_false] at hk
    rcases hc.replying k hk with hl | hr
    · exact hi.listening k hl
    · exact absurd hr (by simp [hi.replying k])
  writing := fun hwriting => by
    rcases hc.writing hwriting with hwriting | ⟨k, hl | hr⟩
    · exact hi.writing hwriting
    · exact hi.listening k hl
    · exact absurd hr (by simp [hi.replying k])

/-- What a stopping yo has learned outlives every calm step. -/
theorem watched_of_calmer {s s' : State} (hc : Calmer s s') {st : YoStage}
    (h : Watched s st) : Watched s' st := by
  have quiet : (∀ k, (s.helper k).onTheWay = false) → ∀ k, (s'.helper k).onTheWay = false := by
    intro hq k
    by_contra hk
    rw [Bool.not_eq_false] at hk
    exact absurd (hc.onTheWay k hk) (by rw [hq k]; simp)
  have still : (∀ k, (s.helper k).onTheWay = false) → ∀ k, s'.helper k = .listening →
      s.helper k = .listening := by
    intro hq k hk
    rcases hc.listening k hk with hl | hw
    · exact hl
    · rw [hq k] at hw
      cases hw
  cases st with
  | unitRead unit => exact fun hu => hc.ended (h hu)
  | fifosRead unit left seen =>
    obtain ⟨hu, hq, hl⟩ := h
    exact ⟨fun he => hc.ended (hu he), quiet hq, fun k hk => hl k (still hq k hk)⟩
  | asksRead unit seen left read =>
    obtain ⟨hu, hq, hl, ha⟩ := h
    exact ⟨fun he => hc.ended (hu he), quiet hq, fun k hk => hl k (still hq k hk),
      fun hseen hid => (ha hseen hid).calmer hc⟩
  | judged verdict =>
    cases verdict with
    | waitingForPassphrase => exact h.imp (fun hidle => hidle.calmer hc) hc.ended
    | _ => trivial
  | _ => trivial

/-- Only a process that holds the lock has learned anything. -/
theorem watched_of_not_holds (s : State) {st : YoStage} (h : st.holds = false) :
    Watched s st := by
  cases st <;> trivial

/-- Two processes never hold the lock at once. -/
theorem Inv.unique {s : State} (hi : Inv s) {p q : ℕ} (hp : (s.yo p).holds = true)
    (hq : (s.yo q).holds = true) : p = q :=
  Option.some.inj ((hi.held p hp).symm.trans (hi.held q hq))

/-! ### The lock -/

/-- A holder moves on inside its critical section. -/
theorem held_setYo {s : State} {q : ℕ} {st : YoStage} (hi : Inv s)
    (hq : (s.yo q).holds = true) :
    ∀ p, ((s.setYo q st).yo p).holds = true → (s.setYo q st).lock = some p := by
  intro p hp
  by_cases hpq : p = q
  · subst hpq
    exact hi.held p hq
  · exact hi.held p (by simpa [State.setYo, hpq] using hp)

/-- A holder gives the lock up. -/
theorem held_release {s : State} {q : ℕ} {st : YoStage} (hi : Inv s)
    (hq : (s.yo q).holds = true) (hst : st.holds = false) :
    ∀ p, ((s.release q st).yo p).holds = true → (s.release q st).lock = some p := by
  intro p hp
  by_cases hpq : p = q
  · subst hpq
    simp [State.release, State.setYo, hst] at hp
  · have hp' : (s.yo p).holds = true := by simpa [State.release, State.setYo, hpq] using hp
    exact absurd (hi.unique hp' hq) hpq

/-- A process takes the free lock. -/
theorem held_acquire {s : State} {q : ℕ} {st : YoStage} (hi : Inv s) (hfree : s.lock = none) :
    ∀ p, (Function.update s.yo q st p).holds = true → some q = some p := by
  intro p hp
  by_cases hpq : p = q
  · rw [hpq]
  · rw [Function.update_of_ne hpq] at hp
    have := hi.held p hp
    rw [hfree] at this
    cases this

theorem held_of_step {s s' : State} {a : Action} (hi : Inv s) (h : step s a = some s') :
    ∀ p, (s'.yo p).holds = true → s'.lock = some p := by
  cases a with
  | lockUp q =>
    simp only [step, Option.ite_none_right_eq_some, Option.some.injEq] at h
    obtain ⟨⟨-, hfree⟩, rfl⟩ := h
    exact held_acquire hi hfree
  | lockDown q =>
    simp only [step, Option.ite_none_right_eq_some, Option.some.injEq] at h
    obtain ⟨⟨-, hfree⟩, rfl⟩ := h
    exact held_acquire hi hfree
  | kill q =>
    simp only [step, Option.ite_none_left_eq_some, Option.some.injEq] at h
    obtain ⟨-, rfl⟩ := h
    intro p hp
    by_cases hq : (s.yo q).holds = true
    · have hrel := held_release hi hq rfl p hp
      simp [State.release] at hrel
    · by_cases hpq : p = q
      · subst hpq
        simp [State.setYo, YoStage.holds] at hp
      · have hlock := hi.held p (by simpa [State.setYo, hpq] using hp)
        simpa [hq, State.setYo] using hlock
  | refuseListener q =>
    simp only [step, Option.ite_none_right_eq_some, Option.some.injEq] at h
    obtain ⟨hq, rfl⟩ := h
    exact held_release hi (by rw [hq]; rfl) rfl
  | sessionEnds q =>
    simp only [step] at h
    split at h
    · rename_i hq
      cases h
      exact held_release hi (by rw [hq]; rfl) rfl
    · cases h
  | leave q =>
    simp only [step] at h
    split at h
    · rename_i hq
      split at h
      · cases h
      · cases h
        exact held_release hi (by rw [hq]; rfl) rfl
    · rename_i hq
      cases h
      exact held_release hi (by rw [hq]; rfl) rfl
    · cases h
  | spawn q =>
    simp only [step, Option.ite_none_right_eq_some, Option.some.injEq] at h
    obtain ⟨hq, rfl⟩ := h
    exact held_setYo hi (by rw [hq]; rfl)
  | readUnit q =>
    simp only [step, Option.ite_none_right_eq_some, Option.some.injEq] at h
    obtain ⟨hq, rfl⟩ := h
    exact held_setYo hi (by rw [hq]; rfl)
  | forceStop q =>
    simp only [step, Option.ite_none_right_eq_some, Option.some.injEq] at h
    obtain ⟨hq, rfl⟩ := h
    exact held_setYo hi (by rw [hq]; rfl)
  | _ =>
    -- a holder moves on, or nobody's stage changes
    simp only [step] at h
    repeat' split at h
    all_goals first
      | (cases h; exact hi.held)
      | (cases h; exact held_setYo hi (by simp_all [YoStage.holds]))
      | cases h

/-! ### The helpers and the asks -/

theorem fresh_setHelper {s : State} {k : ℕ} {st : HelperStage}
    (hf : ∀ h, s.started ≤ h → s.helper h = .absent) (hk : s.helper k ≠ .absent) :
    ∀ h, s.started ≤ h → (s.setHelper k st).helper h = .absent := by
  intro h hh
  have hne : h ≠ k := by
    rintro rfl
    exact hk (hf h hh)
  simpa [State.setHelper, hne] using hf h hh

theorem fresh_of_step {s s' : State} {a : Action} (hi : Inv s) (h : step s a = some s') :
    ∀ k, s'.started ≤ k → s'.helper k = .absent := by
  cases a with
  | spawn q =>
    simp only [step, Option.ite_none_right_eq_some, Option.some.injEq] at h
    obtain ⟨-, rfl⟩ := h
    intro k hk
    simp only [State.setHelper, State.setYo] at hk ⊢
    rw [Function.update_of_ne (by omega)]
    exact hi.fresh k (by omega)
  | forceStop q =>
    simp only [step, Option.ite_none_right_eq_some, Option.some.injEq] at h
    obtain ⟨-, rfl⟩ := h
    intro k hk
    simp only [State.setYo] at hk ⊢
    rw [hi.fresh k hk]
    rfl
  | _ =>
    simp only [step] at h
    repeat' split at h
    all_goals first
      | (cases h; exact hi.fresh)
      | (cases h; exact fresh_setHelper hi.fresh (by simp_all))
      | cases h

theorem others_of_step {s s' : State} {a : Action} (hi : Inv s) (h : step s a = some s') :
    migrateAskId ∉ s'.otherAsks := by
  cases a with
  | setAsks ids =>
    simp only [step, Option.ite_none_right_eq_some, Option.some.injEq] at h
    obtain ⟨⟨hids, -⟩, rfl⟩ := h
    exact hids
  | forceStop q =>
    simp only [step, Option.ite_none_right_eq_some, Option.some.injEq] at h
    obtain ⟨-, rfl⟩ := h
    exact List.not_mem_nil
  | _ =>
    simp only [step] at h
    repeat' split at h
    all_goals first
      | (cases h; exact hi.others)
      | cases h

/-- The migration's ask is listed exactly while its file stands. -/
theorem Inv.mem_asks {s : State} (hi : Inv s) : migrateAskId ∈ s.asks ↔ s.askFile = true := by
  unfold State.asks
  split_ifs with hf
  · simp [hf]
  · simp [hf, hi.others]

/-- Only a unit that ended well is `active`. -/
theorem word_eq_finished {u : UnitState} (h : u.word = migrateUnitFinished) :
    u = .ended true := by
  revert h
  cases u with
  | ended ok => cases ok <;> decide
  | _ => decide

/-! ### The probe -/

/-- What the stopping yo knows after a step of its own. -/
theorem watched_own {s s' : State} {a : Action} {p : ℕ} (hi : Inv s) (hok : settled s a)
    (h : step s a = some s') (hp : a.actor = some p) (hsend : ∀ q, a ≠ .send q) :
    Watched s' (s'.yo p) := by
  have hw := hi.watched p
  cases a with
  | readUnit q =>
    cases hp
    simp only [step, Option.ite_none_right_eq_some, Option.some.injEq] at h
    obtain ⟨-, rfl⟩ := h
    simpa [State.setYo, Watched] using fun hu => word_eq_finished hu
  | globFifos q =>
    cases hp
    simp only [step] at h
    split at h
    · rename_i unit hq
      cases h
      rw [hq] at hw
      simp only [State.setYo, Function.update_self, Watched, List.not_mem_nil, or_false]
      refine ⟨hw, fun k => ?_, fun k hk => ?_⟩
      · by_cases hk : k < s.started
        · exact hok k hk
        · rw [hi.fresh k (by omega)]
          rfl
      · have hlt : k < s.started := by
          by_contra hge
          rw [hi.fresh k (by omega)] at hk
          cases hk
        simp [State.fifos, hlt, hk, HelperStage.fifo]
    · cases h
  | testFifo q =>
    cases hp
    simp only [step] at h
    split at h
    · rename_i unit k left seen hq
      cases h
      rw [hq] at hw
      obtain ⟨hu, hquiet, hl⟩ := hw
      simp only [State.setYo, Function.update_self, Watched]
      refine ⟨hu, hquiet, fun j hj => ?_⟩
      have hjf : (s.helper j).fifo = true := by rw [hj]; rfl
      rcases hl j hj with hmem | hmem
      · rcases List.mem_cons.mp hmem with rfl | hmem
        · exact .inr (by simp [hjf])
        · exact .inl hmem
      · right
        split_ifs
        · exact List.mem_append_left _ hmem
        · exact hmem
    · cases h
  | globAsks q =>
    cases hp
    simp only [step] at h
    split at h
    · rename_i unit seen hq
      cases h
      rw [hq] at hw
      obtain ⟨hu, hquiet, hl⟩ := hw
      simp only [State.setYo, Function.update_self, Watched]
      exact ⟨hu, hquiet, fun j hj => (hl j hj).resolve_left List.not_mem_nil,
        fun _ hid => absurd hid List.not_mem_nil⟩
    · cases h
  | catAsk q =>
    cases hp
    simp only [step] at h
    split at h
    · rename_i unit seen id left read hq
      cases h
      rw [hq] at hw
      obtain ⟨hu, hquiet, hl, ha⟩ := hw
      simp only [State.setYo, Function.update_self, Watched]
      refine ⟨hu, hquiet, hl, fun hseen hid => ?_⟩
      split_ifs at hid with hpending
      · rcases List.mem_append.mp hid with hid | hid
        · exact (ha hseen hid).setYo p _
        · rw [← List.mem_singleton.mp hid] at hpending hq
          subst hseen
          have hreads : (s.yo p).readsMigrateAsk = true := by
            rw [hq]
            exact beq_self_eq_true _
          obtain ⟨hanswered, hreplying⟩ := hok hreads
          exact {
            onTheWay := hquiet
            listening := fun k hk => List.not_mem_nil (hl k hk)
            replying := fun k => by
              by_cases hk : k < s.started
              · exact hreplying k hk
              · rw [hi.fresh k (by omega)]
                rfl
            writing := fun hwriting => hanswered ⟨hi.mem_asks.mp hpending, hwriting⟩ }
      · exact (ha hseen hid).setYo p _
    · cases h
  | judgeProbe q =>
    cases hp
    simp only [step] at h
    split at h
    · rename_i unit seen read hq
      cases h
      rw [hq] at hw
      obtain ⟨hu, hquiet, hl, ha⟩ := hw
      rw [classify_probeLines _ _ _ (by simpa using fun id _ => probeAskEnd_notMem_askLines id)]
      have hids : (read.map askLines).flatMap idsOf = read := by
        simp [List.flatMap_map]
      rw [hids]
      simp only [State.setYo, Function.update_self]
      generalize hv : judge ⟨[unit], read, !(seen.map fifoPath).isEmpty, false, true⟩ = verdict
      cases verdict with
      | waitingForPassphrase =>
        obtain ⟨hnone, hunit⟩ := judge_waiting hv
        have hseen : seen = [] := by simpa using hnone
        rcases hunit with ⟨-, hid⟩ | hunit
        · exact .inl ((ha hseen hid).setYo p _)
        · exact .inr (hu hunit)
      | _ => trivial
    · cases h
  | probeFails q =>
    cases hp
    simp only [step] at h
    split at h
    all_goals first
      | (cases h; simp only [State.setYo, Function.update_self]; trivial)
      | cases h
  | send q => exact absurd rfl (hsend q)
  | _ =>
    first
    | (cases hp
       simp only [step] at h
       repeat' split at h
       all_goals first
        | (cases h; simp only [State.setYo, State.setHelper, State.release,
            Function.update_self]; trivial)
        | cases h)
    | cases hp

theorem watched_of_step {s s' : State} {a : Action} (hi : Inv s) (hok : settled s a)
    (h : step s a = some s') : ∀ p, Watched s' (s'.yo p) := by
  intro p
  by_cases hholds : (s'.yo p).holds = true
  swap
  · exact watched_of_not_holds s' (by simpa using hholds)
  by_cases hsend : ∃ q, a = .send q
  · -- the sender holds the lock, so no other process has learned anything
    obtain ⟨q, rfl⟩ := hsend
    simp only [step] at h
    split at h
    · rename_i k hq
      have hyo : s'.yo = s.yo := by split_ifs at h <;> cases h <;> rfl
      rw [hyo] at hholds ⊢
      obtain rfl := hi.unique hholds (q := q) (by rw [hq]; rfl)
      rw [hq]
      trivial
    · cases h
  push Not at hsend
  by_cases hp : a.actor = some p
  · exact watched_own hi hok h hp hsend
  · have hyo := yo_of_step h hp
    rw [hyo] at hholds ⊢
    by_cases hforce : ∃ q, a = .forceStop q
    · obtain ⟨q, rfl⟩ := hforce
      simp only [step, Option.ite_none_right_eq_some] at h
      exact absurd (congrArg some (hi.unique hholds (q := q) (by rw [h.1]; rfl)).symm) hp
    · push Not at hforce
      exact watched_of_calmer (calmer_of_step h hsend hforce) (hi.watched p)

/-- **The step lemma.** -/
theorem inv_step {s s' : State} {a : Action} (hi : Inv s) (hok : settled s a)
    (h : step s a = some s') : Inv s' :=
  ⟨fresh_of_step hi h, held_of_step hi h, others_of_step hi h, watched_of_step hi hok h⟩

/-- **The run lemma.** -/
theorem inv_of_reaches {s : State} (h : Reaches step settled State.init s) : Inv s :=
  h.invariant inv_init fun _ _ _ hi hok hs => inv_step hi hok hs

/-! ## The power cut -/

/-- **`yo down` never cuts the power under a write**, in every run in which it lists
the FIFOs only while no passphrase is on its way to one and, where it finds none,
reads the migration's ask only while that has no answer and no reply outlives its
helper. -/
theorem forceStop_of_settled {s s' : State} {p : ℕ} (h : Reaches step settled State.init s)
    (hs : step s (.forceStop p) = some s') : s.unit ≠ .writing := by
  have hi := inv_of_reaches h
  simp only [step, Option.ite_none_right_eq_some] at hs
  have hw := hi.watched p
  rw [hs.1] at hw
  rcases hw with hidle | hended
  · exact hidle.writing
  · simp [hended]

/-- A run in which the condition holds and the box is powered off: a `yo up` came
and went, its helper's FIFO is gone, and the unit still waits. -/
def settledSchedule : List Action :=
  [.unitStarts, .lockUp 0, .spawn 0, .send 0, .readKey 0, .mkfifo 0, .sessionEnds 0,
    .exit 0 false false, .unitAsks, .lockDown 1, .readUnit 1, .globFifos 1, .globAsks 1,
    .catAsk 1, .judgeProbe 1]

theorem forceStop_of_settled_run :
    ∃ s s', Reaches step settled State.init s ∧ step s (.forceStop 1) = some s' ∧
      s.unit ≠ .writing := by
  obtain ⟨s, hs⟩ : ∃ s, run (guarded step settled) State.init settledSchedule = some s :=
    Option.isSome_iff_exists.mp (by decide)
  have hreach := reaches_of_run settledSchedule hs
  have hforce : ((run (guarded step settled) State.init settledSchedule).bind
      (step · (.forceStop 1))).isSome = true := by decide
  rw [hs, Option.bind_some] at hforce
  obtain ⟨s', hs'⟩ := Option.isSome_iff_exists.mp hforce
  exact ⟨s, s', hreach, hs', forceStop_of_settled hreach hs'⟩

/-- The defect: yo 0 is killed right after it wrote the passphrase.  Its ssh still
delivers it, but the helper has made no FIFO when yo 1 lists them, and answers
the ask after the probe has read it as pending. -/
def killedSenderSchedule : List Action :=
  [.unitStarts, .unitAsks, .lockUp 0, .spawn 0, .send 0, .kill 0,
    .lockDown 1, .readUnit 1, .globFifos 1, .globAsks 1, .catAsk 1, .judgeProbe 1,
    .readKey 0, .mkfifo 0, .answer 0]

/-- **The power can be cut under a write**: after such a death `cmd_down` proves the
box idle and powers it off while the migration writes. -/
theorem forceStop_while_writing :
    ∃ s s', Reaches step anyStep State.init s ∧ step s (.forceStop 1) = some s' ∧
      s.unit = .writing := by
  obtain ⟨s, hs⟩ : ∃ s, run (guarded step anyStep) State.init killedSenderSchedule = some s :=
    Option.isSome_iff_exists.mp (by decide)
  have hreach := reaches_of_run killedSenderSchedule hs
  have hforce : ((run (guarded step anyStep) State.init killedSenderSchedule).bind
      (step · (.forceStop 1))).isSome = true := by decide
  have hunit : (run (guarded step anyStep) State.init killedSenderSchedule).map State.unit
      = some .writing := by decide
  rw [hs, Option.bind_some] at hforce
  rw [hs, Option.map_some, Option.some.injEq] at hunit
  obtain ⟨s', hs'⟩ := Option.isSome_iff_exists.mp hforce
  exact ⟨s, s', hreach, hs', hunit⟩

/-- The same with a helper that is gone once it answered: the asker has not unlinked its
file yet. -/
def answeredAskSchedule : List Action :=
  [.unitStarts, .unitAsks, .lockUp 0, .spawn 0, .send 0, .kill 0, .readKey 0, .mkfifo 0,
    .answer 0, .exit 0 false false, .lockDown 1, .readUnit 1, .globFifos 1, .globAsks 1,
    .catAsk 1, .judgeProbe 1]

example : (run step State.init answeredAskSchedule).map (fun s => (s.unit, s.yo 1)) =
    some (.writing, .judged .waitingForPassphrase) := by decide

end Unlock
