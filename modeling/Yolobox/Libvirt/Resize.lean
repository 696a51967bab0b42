/-
# Resizing a stopped domain

`resize`, `current_size` and the `yo up` around them, over the four sizes of a stopped
domain's definition.  The resize is four `virsh` calls and any of them may fail; a rerun
looks at the maximum memory and the current vCPUs only.
-/
import Yolobox.Vm.Grow

open Script Vm

namespace Domain

/-! ## The definition -/

/-- The sizes of a stopped domain's definition; memory in KiB. -/
structure Definition where
  maxMemory : ℕ
  memory : ℕ
  maxVcpus : ℕ
  vcpus : ℕ
  deriving DecidableEq

/-- KiB of a GiB. -/
def KIB_PER_GIB : ℕ := 1024 * 1024

/-- `virsh ... --config`. -/
inductive Virsh
  | setmaxmem (gib : ℕ)
  | setmem (gib : ℕ)
  | setvcpusMaximum (count : ℕ)
  | setvcpus (count : ℕ)
  deriving DecidableEq

/-- What a call makes of the definition.  A lower maximum lowers what is above it, and what
would be above the maximum is refused. -/
def Virsh.apply (d : Definition) : Virsh → Option Definition
  | setmaxmem gib =>
    some { d with maxMemory := gib * KIB_PER_GIB, memory := min d.memory (gib * KIB_PER_GIB) }
  | setmem gib =>
    if gib * KIB_PER_GIB ≤ d.maxMemory then some { d with memory := gib * KIB_PER_GIB } else none
  | setvcpusMaximum count => some { d with maxVcpus := count, vcpus := min d.vcpus count }
  | setvcpus count => if count ≤ d.maxVcpus then some { d with vcpus := count } else none

/-- A call may also fail, without effect or after it. -/
def virsh : Machine (fun _ : Virsh => Unit) Definition := fun call d r t =>
  call.apply d = some t ∨ r = none ∧ t = d

/-! ## The driver -/

/-- `LibvirtDriver.resize`. -/
def resize (memoryGib cpus : ℕ) : Script Virsh (fun _ => Unit) Virsh Unit := do
  Script.cmd (.setmaxmem memoryGib) (.setmaxmem memoryGib)
  Script.cmd (.setmem memoryGib) (.setmem memoryGib)
  Script.cmd (.setvcpusMaximum cpus) (.setvcpusMaximum cpus)
  Script.cmd (.setvcpus cpus) (.setvcpus cpus)

/-- `exact_gib`. -/
def exactGib (kib : ℕ) : Option ℕ := if kib % KIB_PER_GIB = 0 then some (kib / KIB_PER_GIB) else none

/-- `LibvirtDriver.current_size`, beside a disk of so many GiB: `dominfo` prints the maximum
memory and the current vCPUs. -/
def currentSize (diskGib : ℕ) (d : Definition) : Option BoxSize :=
  (exactGib d.maxMemory).map fun memoryGib => ⟨memoryGib, diskGib, d.vcpus⟩

/-- `off_status`. -/
def STATE_OFF : PyStr := lit "shut off"

/-- What the calls of a `yo up` answer on a domain that exists and do to its definition.
Every call may fail, a resize after any of its setters. -/
def host (diskGib : ℕ) : Machine Vm.Answer Definition
  | .vmStatus, d, r, t => (∀ status, r = some status → status ≠ none) ∧ t = d
  | .currentSize, d, r, t => (∀ size, r = some size → currentSize diskGib d = some size) ∧ t = d
  | .resize memoryGib cpus, d, r, t =>
    ∃ o, (resize memoryGib cpus).Ends virsh d o t ∧ (r = some () → o = .returned ())
  | _, d, _, t => t = d

/-- `yo up --memory MEMORY --cpus CPUS`. -/
def up (memoryGib cpus : ℕ) : Vm.Py Unit := cmdUp STATE_OFF ⟨some memoryGib, none, some cpus⟩

/-- One run, however it ends, and what was made of the definition. -/
def Ran (diskGib memoryGib cpus : ℕ) (d t : Definition) : Prop :=
  ∃ o, (up memoryGib cpus).Ends (host diskGib) d o t

/-- A definition whose memory and vCPUs are at their maxima. -/
def level (memory vcpus : ℕ) : Definition := ⟨memory, memory, vcpus, vcpus⟩

/-- After any runs with the same flags, one that returns leaves all four sizes as asked. -/
def Finishes (diskGib memoryGib cpus : ℕ) (d : Definition) : Prop :=
  ∀ t u, Relation.ReflTransGen (Ran diskGib memoryGib cpus) d t →
    (up memoryGib cpus).Ends (host diskGib) t (.returned ()) u →
    u = level (memoryGib * KIB_PER_GIB) cpus

/-! ## The setters -/

section
variable (memory vcpus memoryGib cpus : ℕ)

/-- What the first calls of a resize make of a definition that was level. -/
def stage : ℕ → Definition
  | 0 => level memory vcpus
  | 1 => ⟨memoryGib * KIB_PER_GIB, min memory (memoryGib * KIB_PER_GIB), vcpus, vcpus⟩
  | 2 => ⟨memoryGib * KIB_PER_GIB, memoryGib * KIB_PER_GIB, vcpus, vcpus⟩
  | 3 => ⟨memoryGib * KIB_PER_GIB, memoryGib * KIB_PER_GIB, cpus, min vcpus cpus⟩
  | _ => level (memoryGib * KIB_PER_GIB) cpus

/-- The calls of a resize, in order. -/
def setter : ℕ → Virsh
  | 0 => .setmaxmem memoryGib
  | 1 => .setmem memoryGib
  | 2 => .setvcpusMaximum cpus
  | _ => .setvcpus cpus

/-- A call takes the next step and repeats one that was taken. -/
theorem apply_setter {call step : ℕ} (hcall : call < 4) (hle : call ≤ step) :
    (setter memoryGib cpus call).apply (stage memory vcpus memoryGib cpus step) =
      some (stage memory vcpus memoryGib cpus (max step (call + 1))) := by
  have hfrom : ∀ more, stage memory vcpus memoryGib cpus (more + 4) = level (memoryGib * KIB_PER_GIB) cpus :=
    fun _ => rfl
  rcases Nat.lt_or_ge step 4 with hlt | hge
  · interval_cases call <;> interval_cases step <;>
      simp [setter, Virsh.apply, stage, level]
  · obtain ⟨more, rfl⟩ := Nat.exists_eq_add_of_le' hge
    rw [max_eq_left (by omega), hfrom]
    interval_cases call <;> simp [setter, Virsh.apply, level]

/-- Somewhere on the way. -/
def Onward (first : ℕ) (d : Definition) : Prop :=
  ∃ step, first ≤ step ∧ d = stage memory vcpus memoryGib cpus step

variable {memory vcpus memoryGib cpus}

theorem Onward.mono {less more : ℕ} {d : Definition} (h : Onward memory vcpus memoryGib cpus more d)
    (hle : less ≤ more) : Onward memory vcpus memoryGib cpus less d := by
  obtain ⟨step, hstep, hd⟩ := h
  exact ⟨step, hle.trans hstep, hd⟩

/-- One setter. -/
theorem wp_setter {call : ℕ} {d : Definition} (hcall : call < 4)
    (h : Onward memory vcpus memoryGib cpus call d) {e : Virsh} :
    (Script.cmd e (setter memoryGib cpus call) : Script Virsh (fun _ => Unit) Virsh Unit).wp virsh
      ⟨fun _ t => Onward memory vcpus memoryGib cpus (call + 1) t,
        fun _ t => Onward memory vcpus memoryGib cpus call t,
        fun t => Onward memory vcpus memoryGib cpus call t⟩ d := by
  obtain ⟨step, hstep, rfl⟩ := id h
  have happly := apply_setter memory vcpus memoryGib cpus hcall hstep
  have hnext : Onward memory vcpus memoryGib cpus (call + 1)
      (stage memory vcpus memoryGib cpus (max step (call + 1))) := ⟨_, le_max_right _ _, rfl⟩
  rw [wp_cmd]
  refine ⟨h, ?_, ?_⟩
  · rintro r t (hdone | ⟨hnone, -⟩)
    · rw [happly, Option.some.injEq] at hdone
      exact hdone ▸ ⟨hnext.mono (Nat.le_succ call), hnext⟩
    · cases hnone
  · rintro t (hdone | ⟨-, rfl⟩)
    · rw [happly, Option.some.injEq] at hdone
      exact hdone ▸ ⟨hnext.mono (Nat.le_succ call), hnext.mono (Nat.le_succ call)⟩
    · exact ⟨h, h⟩

/-- **A resize that returns has set all four**, from wherever an earlier one stopped. -/
theorem wp_resize {d : Definition} (h : Onward memory vcpus memoryGib cpus 0 d) :
    (resize memoryGib cpus).wp virsh
      ⟨fun _ t => t = level (memoryGib * KIB_PER_GIB) cpus,
        fun _ t => Onward memory vcpus memoryGib cpus 0 t,
        fun t => Onward memory vcpus memoryGib cpus 0 t⟩ d := by
  have hdown : ∀ {k : ℕ} {t : Definition}, Onward memory vcpus memoryGib cpus k t →
      Onward memory vcpus memoryGib cpus 0 t := fun ht => ht.mono (Nat.zero_le _)
  refine wp_seq (wp_mono (wp_setter (show 0 < 4 by norm_num) h) ?_ (fun _ _ => hdown) fun _ => hdown)
  rintro _ t₁ h₁
  refine wp_seq (wp_mono (wp_setter (show 1 < 4 by norm_num) h₁) ?_ (fun _ _ => hdown) fun _ => hdown)
  rintro _ t₂ h₂
  refine wp_seq (wp_mono (wp_setter (show 2 < 4 by norm_num) h₂) ?_ (fun _ _ => hdown) fun _ => hdown)
  rintro _ t₃ h₃
  refine wp_mono (wp_setter (show 3 < 4 by norm_num) h₃) ?_ (fun _ _ => hdown) fun _ => hdown
  rintro _ t₄ ⟨step, hstep, rfl⟩
  obtain ⟨more, rfl⟩ := Nat.exists_eq_add_of_le' hstep
  rfl

/-! ## One run -/

variable {diskGib : ℕ}

/-- Every call but the resize. -/
def Mild : Vm.Cmd → Prop
  | .resize _ _ => False
  | _ => True

theorem mild_of_bystander (c : Vm.Cmd) (hc : Bystander c) : Mild c := by
  cases c <;> trivial

theorem mild_keeps {c : Vm.Cmd} {d t : Definition} {r : Option (Vm.Answer c)} (hc : Mild c)
    (h : host diskGib c d r t) : t = d := by
  cases c with
  | resize => exact hc.elim
  | vmStatus => exact h.2
  | currentSize => exact h.2
  | _ => exact h

theorem wp_py {c : Vm.Cmd} {Q : Post Vm.YoError (Vm.Answer c) Definition} {d : Definition}
    (hkilled : Q.killed d)
    (hsome : ∀ r t, host diskGib c d (some r) t → Q.killed t ∧ Q.returned r t)
    (hnone : ∀ t, host diskGib c d none t → Q.killed t ∧ Q.raised (.failed c) t) :
    (Vm.py c).wp (host diskGib) Q d := by
  show (Script.cmd (Vm.YoError.failed c) c : Script Vm.Cmd Vm.Answer Vm.YoError (Vm.Answer c)).wp _ Q d
  exact (wp_cmd _ c Q d).mpr ⟨hkilled, hsome, hnone⟩

theorem wp_mild {α : Type} {p : Vm.Py α} (hp : p.Issues Mild (fun _ => True) fun _ => True)
    {Q : Post Vm.YoError α Definition} {d : Definition} (hreturned : ∀ a, Q.returned a d)
    (hraised : ∀ e, Q.raised e d) (hkilled : Q.killed d) : p.wp (host diskGib) Q d := by
  refine wp_iff.mpr fun o t hends => ?_
  have hkept : t = d := hp.keeps (I := (· = d))
    (fun c s r u hc hs hm => (mild_keeps hc hm).trans hs) hends rfl
  rw [hkept]
  cases o with
  | returned a => exact hreturned a
  | raised e => exact hraised e
  | killed => exact hkilled

/-- What `dominfo` shows of a definition that is as asked. -/
def shown (diskGib memoryGib cpus : ℕ) : BoxSize := ⟨memoryGib, diskGib, cpus⟩

theorem fill_asked (diskGib : ℕ) {current : BoxSize} (hdisk : current.diskGib = diskGib) :
    (Size.mk (some memoryGib) none (some cpus)).fill current = shown diskGib memoryGib cpus := by
  rw [← hdisk]
  rfl

theorem currentSize_eq_some {d : Definition} {size : BoxSize} (h : currentSize diskGib d = some size) :
    d.maxMemory = size.memoryGib * KIB_PER_GIB ∧ size.diskGib = diskGib ∧ size.cpus = d.vcpus := by
  unfold currentSize exactGib at h
  split_ifs at h with hwhole
  · rw [Option.map_some, Option.some.injEq] at h
    rw [← h]
    exact ⟨(Nat.div_mul_cancel (Nat.dvd_of_mod_eq_zero hwhole)).symm, rfl, rfl⟩
  · cases h

/-- What a plan says of the definition: with nothing to do `dominfo` shows what was asked,
and what there is to do sets the hardware of a box that is off. -/
structure Planned (diskGib memoryGib cpus : ℕ) (status : PyStr) (d : Definition)
    (resize : Option Vm.Resize) : Prop where
  done : resize = none → d.maxMemory = memoryGib * KIB_PER_GIB ∧ d.vcpus = cpus
  todo : ∀ r, resize = some r →
    status = STATE_OFF ∧ r.wanted = shown diskGib memoryGib cpus ∧ r.setsHardware = true ∧
      ∃ gib, d.maxMemory = gib * KIB_PER_GIB

theorem wp_planResize (status : PyStr) (d : Definition) :
    (planResize STATE_OFF status ⟨some memoryGib, none, some cpus⟩).wp (host diskGib)
      ⟨fun resize t => t = d ∧ Planned diskGib memoryGib cpus status d resize,
        fun _ t => t = d, fun t => t = d⟩ d := by
  have hasked : (Size.mk (some memoryGib) none (some cpus)).asked = true := rfl
  unfold planResize
  rw [if_pos hasked]
  refine wp_seq (wp_py rfl ?_ fun t ht => ⟨ht.2, ht.2⟩)
  rintro current t ⟨hcurrent, rfl⟩
  refine ⟨rfl, ?_⟩
  obtain ⟨hmemory, hdisk, hcpus⟩ := currentSize_eq_some (hcurrent current rfl)
  simp only [fill_asked diskGib hdisk]
  split_ifs with hsame hsmaller hstatus
  · refine ⟨rfl, fun _ => ?_, nofun⟩
    rw [hmemory, ← hcpus, ← hsame]
    exact ⟨rfl, rfl⟩
  · exact rfl
  · exact rfl
  · refine wp_seq (wp_py rfl ?_ fun u hu => ⟨hu, hu⟩)
    rintro refusal u rfl
    refine ⟨rfl, ?_⟩
    cases refusal with
    | some why => exact rfl
    | none =>
      refine ⟨rfl, nofun, ?_⟩
      rintro r hr
      rw [← Option.some.inj hr]
      refine ⟨not_not.mp hstatus, rfl, ?_, current.memoryGib, hmemory⟩
      rw [Resize.setsHardware, decide_eq_true_eq]
      rintro hpair
      refine hsame ?_
      obtain ⟨hm, hc⟩ := Prod.mk.inj hpair
      cases current
      simp only [shown] at hm hc hdisk ⊢
      rw [hm, hc, hdisk]

/-! ## All runs -/

/-- A definition that the runs can leave; one that a resize was begun on had whole GiB. -/
def Left (memory vcpus memoryGib cpus : ℕ) (d : Definition) : Prop :=
  d = level memory vcpus ∨
    Onward memory vcpus memoryGib cpus 0 d ∧ ∃ gib, memory = gib * KIB_PER_GIB

/-- Only the memory is raised. -/
def OnlyRaised (memory vcpus memoryGib cpus : ℕ) : Prop :=
  vcpus = cpus ∧ ∃ gib < memoryGib, memory = gib * KIB_PER_GIB

theorem Left.onward {d : Definition} (h : Left memory vcpus memoryGib cpus d) :
    Onward memory vcpus memoryGib cpus 0 d := by
  rcases h with rfl | h
  · exact ⟨0, le_refl 0, rfl⟩
  · exact h.1

theorem Left.begun {d : Definition} (h : Left memory vcpus memoryGib cpus d) {gib : ℕ}
    (hgib : d.maxMemory = gib * KIB_PER_GIB) : ∃ gib, memory = gib * KIB_PER_GIB := by
  rcases h with rfl | h
  · exact ⟨gib, hgib⟩
  · exact h.2

/-- **What `dominfo` shows is enough**, unless only the memory was raised. -/
theorem Left.eq_level {d : Definition} (h : Left memory vcpus memoryGib cpus d)
    (hnot : ¬OnlyRaised memory vcpus memoryGib cpus) (hmemory : d.maxMemory = memoryGib * KIB_PER_GIB)
    (hcpus : d.vcpus = cpus) : d = level (memoryGib * KIB_PER_GIB) cpus := by
  rcases h with rfl | ⟨⟨step, -, rfl⟩, gib, hgib⟩
  · show level memory vcpus = _
    rw [show memory = memoryGib * KIB_PER_GIB from hmemory, show vcpus = cpus from hcpus]
  · rcases Nat.lt_or_ge step 4 with hlt | hge
    · interval_cases step
      · show level memory vcpus = _
        rw [show memory = memoryGib * KIB_PER_GIB from hmemory, show vcpus = cpus from hcpus]
      · have hvcpus : vcpus = cpus := hcpus
        have hle : memoryGib ≤ gib := not_lt.mp fun hraised => hnot ⟨hvcpus, gib, hraised, hgib⟩
        have hmin : min memory (memoryGib * KIB_PER_GIB) = memoryGib * KIB_PER_GIB := by
          rw [hgib]
          exact min_eq_right (Nat.mul_le_mul_right KIB_PER_GIB hle)
        rw [stage, hmin, hvcpus]
        rfl
      · rw [stage, show vcpus = cpus from hcpus]
        rfl
      · rw [stage, show min vcpus cpus = cpus from hcpus]
        rfl
    · obtain ⟨more, rfl⟩ := Nat.exists_eq_add_of_le' hge
      rfl

/-- What holds after a run of a box, however it ends. -/
abbrev After (memory vcpus memoryGib cpus : ℕ) (α : Type) : Post Vm.YoError α Definition :=
  ⟨fun _ t => Left memory vcpus memoryGib cpus t ∧ t = level (memoryGib * KIB_PER_GIB) cpus,
    fun _ t => Left memory vcpus memoryGib cpus t, Left memory vcpus memoryGib cpus⟩

theorem wp_setHardware {d : Definition} (h : Left memory vcpus memoryGib cpus d)
    (hnot : ¬OnlyRaised memory vcpus memoryGib cpus) {status : PyStr} {resize : Option Vm.Resize}
    (hplan : Planned diskGib memoryGib cpus status d resize) :
    (setHardware resize).wp (host diskGib) (After memory vcpus memoryGib cpus Unit) d := by
  cases resize with
  | none =>
    obtain ⟨hmemory, hcpus⟩ := hplan.done rfl
    exact ⟨h, h.eq_level hnot hmemory hcpus⟩
  | some r =>
    obtain ⟨-, hwanted, hsets, gib, hgib⟩ := hplan.todo r rfl
    have hresized : ∀ o t, (Domain.resize memoryGib cpus).Ends virsh d o t →
        Left memory vcpus memoryGib cpus t ∧ (o = .returned () → t = level (memoryGib * KIB_PER_GIB) cpus) := by
      intro o t hends
      have hpost := wp_iff.mp (wp_resize h.onward) o t hends
      cases o with
      | returned a =>
        have hlevel : t = level (memoryGib * KIB_PER_GIB) cpus := hpost
        refine ⟨.inr ⟨⟨4, Nat.zero_le 4, hlevel⟩, h.begun hgib⟩, fun _ => hlevel⟩
      | raised e => exact ⟨.inr ⟨hpost, h.begun hgib⟩, nofun⟩
      | killed => exact ⟨.inr ⟨hpost, h.begun hgib⟩, nofun⟩
    rw [setHardware, onlyIf, if_pos hsets, hwanted]
    refine wp_py h ?_ ?_
    · rintro r t ⟨o, hends, hdone⟩
      exact ⟨(hresized o t hends).1, (hresized o t hends).1, (hresized o t hends).2 (hdone rfl)⟩
    · rintro t ⟨o, hends, -⟩
      exact ⟨(hresized o t hends).1, (hresized o t hends).1⟩

theorem STATE_OFF_ne : some STATE_OFF ≠ some RUNNING := by decide

theorem wp_bringUp {d : Definition} (h : Left memory vcpus memoryGib cpus d)
    (hnot : ¬OnlyRaised memory vcpus memoryGib cpus) {status : PyStr} {size : Size}
    {resize : Option Vm.Resize} (hplan : Planned diskGib memoryGib cpus status d resize) :
    (bringUp (some status) none size resize).wp (host diskGib)
      (After memory vcpus memoryGib cpus (Option Passphrase)) d := by
  unfold bringUp
  split_ifs with hstatus
  · refine wp_seq (wp_mild ((bystander_orDerived none).mono mild_of_bystander) ?_ (fun _ => h) h)
    rintro passphrase
    refine wp_seq (wp_mono (wp_setHardware h hnot hplan) ?_ (fun _ _ ht => ht) fun _ ht => ht)
    rintro _ t ht
    refine wp_seq (wp_mild (issues_py (by trivial)) ?_ (fun _ => ht.1) ht.1)
    rintro _
    exact ht
  · have hnone : resize = none := by
      cases resize with
      | none => rfl
      | some r =>
        obtain ⟨hoff, -⟩ := hplan.todo r rfl
        rw [hoff] at hstatus
        exact absurd (not_not.mp hstatus) STATE_OFF_ne
    obtain ⟨hmemory, hcpus⟩ := hplan.done hnone
    have hlevel := h.eq_level hnot hmemory hcpus
    exact wp_mild ((bystander_unlockBox none).mono mild_of_bystander) (fun _ => ⟨h, hlevel⟩)
      (fun _ => h) h

/-- **One run** of `yo up`, from wherever the ones before it left the definition. -/
theorem wp_up {d : Definition} (h : Left memory vcpus memoryGib cpus d)
    (hnot : ¬OnlyRaised memory vcpus memoryGib cpus) :
    (up memoryGib cpus).wp (host diskGib) (After memory vcpus memoryGib cpus Unit) d := by
  unfold up cmdUp vmUp
  refine wp_seq (wp_seq (wp_mild (bystander_checkGaps.mono mild_of_bystander) ?_ (fun _ => h) h))
  rintro _
  refine wp_seq (wp_py h ?_ ?_)
  · rintro status t ⟨hstatus, rfl⟩
    refine ⟨h, ?_⟩
    obtain ⟨status, rfl⟩ := Option.ne_none_iff_exists'.mp (hstatus status rfl)
    refine wp_seq (wp_seq (wp_mono (wp_planResize status t) ?_ ?_ ?_))
    · rintro resize u ⟨rfl, hplan⟩
      show (((py .requireLoginKey).bind fun _ => (bringUp (some status) none _ resize).bind
        fun passphrase => _) : Vm.Py (Option Passphrase)).wp _ _ _
      refine wp_seq (wp_mild (issues_py (by trivial)) (fun _ => ?_) (fun _ => h) h)
      refine wp_seq (wp_mono (wp_bringUp h hnot hplan) ?_ (fun _ _ ht => ht) fun _ ht => ht)
      rintro passphrase t ht
      refine wp_seq (wp_mild (issues_py (by trivial)) (fun _ => ?_) (fun _ => ht.1) ht.1)
      refine wp_seq (wp_mild (issues_py (by trivial)) (fun _ => ?_) (fun _ => ht.1) ht.1)
      refine wp_seq (wp_mild (issues_onlyIf (issues_py (by trivial))) (fun _ => ?_) (fun _ => ht.1) ht.1)
      exact ht
    · rintro e u rfl
      exact h
    · rintro u rfl
      exact h
  · rintro t ⟨-, rfl⟩
    exact ⟨h, h⟩

/-- **All runs**: what they leave is on the way. -/
theorem left_of_runs (hnot : ¬OnlyRaised memory vcpus memoryGib cpus) {d : Definition}
    (hruns : Relation.ReflTransGen (Ran diskGib memoryGib cpus) (level memory vcpus) d) :
    Left memory vcpus memoryGib cpus d := by
  induction hruns with
  | refl => exact .inl rfl
  | tail _ hrun ih =>
    obtain ⟨o, hends⟩ := hrun
    have hafter := wp_iff.mp (wp_up ih hnot) o _ hends
    cases o with
    | returned a => exact hafter.1
    | raised e => exact hafter
    | killed => exact hafter

/-! ## A `setmem` that fails -/

/-- A box that is off, on a host where each call succeeds but `setmem`. -/
def handle (diskGib : ℕ) : (c : Vm.Cmd) → Definition → Option (Vm.Answer c) × Definition
  | .configGaps, d | .fatalGaps _, d => (some [], d)
  | .vmStatus, d => (some (some STATE_OFF), d)
  | .creationRefusal _, d | .resizeRefusal _ _, d => (some none, d)
  | .currentSize, d => (currentSize diskGib d, d)
  | .luksPassphrase, d => (some [1], d)
  | .resize memoryGib _, d =>
    (none, ⟨memoryGib * KIB_PER_GIB, min d.memory (memoryGib * KIB_PER_GIB), d.maxVcpus, d.vcpus⟩)
  | .cpuCount, d | .bootStage, d | .growpartLoadState, d | .luksDeviceFstype, d | .lsblkSize, d
  | .guestRootUsage, d | .guestDeviceBytes _, d | .guestFilesystemBytes _, d => (none, d)
  | .requireLoginKey, d | .start _ _, d | .stop, d | .growDisk _ _, d | .ensureAgentSshConfig, d
  | .vmServices, d | .say _, d | .unlockDisk _, d | .waitForOperator, d | .ensureGuestKnownHosts, d
  | .cryptsetupResize _, d | .resize2fs, d => (some (), d)

theorem host_handle (diskGib : ℕ) (c : Vm.Cmd) (d : Definition) :
    host diskGib c d (handle diskGib c d).1 (handle diskGib c d).2 := by
  cases c with
  | resize memoryGib cpus =>
    refine ⟨.raised (.setmem memoryGib), ?_, nofun⟩
    exact .inr ⟨some (), _, .inl rfl, .inr (.inr ⟨none, _, .inr ⟨rfl, rfl⟩, .inr ⟨rfl, rfl⟩⟩)⟩
  | vmStatus => exact ⟨fun status h => by rw [← Option.some.inj h]; exact nofun, rfl⟩
  | currentSize => exact ⟨fun size h => h, rfl⟩
  | _ => rfl

theorem exactGib_mul (gib : ℕ) : exactGib (gib * KIB_PER_GIB) = some gib := by
  rw [exactGib, if_pos (Nat.mul_mod_left gib KIB_PER_GIB), Nat.mul_div_cancel gib (by decide)]

theorem interp_py {c : Vm.Cmd} {d t : Definition} {r : Vm.Answer c}
    (h : handle diskGib c d = (some r, t)) : (py c).interp (handle diskGib) d = (.ok r, t) := by
  rw [py, Script.cmd, interp, h]
  rfl

theorem interp_py_none {c : Vm.Cmd} {d t : Definition} (h : handle diskGib c d = (none, t)) :
    (py c).interp (handle diskGib) d = (.error (.failed c), t) := by
  rw [py, Script.cmd, interp, h]
  rfl

/-- What is planned there. -/
theorem interp_planResize {d : Definition} {current : BoxSize}
    (hsize : currentSize diskGib d = some current) :
    (planResize STATE_OFF STATE_OFF ⟨some memoryGib, none, some cpus⟩).interp (handle diskGib) d =
      (.ok (if shown diskGib memoryGib cpus = current then none
        else some ⟨current, shown diskGib memoryGib cpus⟩), d) := by
  have hdisk := (currentSize_eq_some hsize).2.1
  have hread : (py .currentSize).interp (handle diskGib) d = (.ok current, d) :=
    interp_py (by rw [handle, hsize])
  unfold planResize
  rw [if_pos (show (Size.mk (some memoryGib) none (some cpus)).asked = true from rfl), bind_eq,
    interp_bind, hread]
  simp only [fill_asked diskGib hdisk]
  split_ifs with hsame hsmaller hstatus
  · rfl
  · exact absurd hsmaller (by rw [hdisk]; exact lt_irrefl diskGib)
  · exact absurd rfl hstatus
  · rfl

/-- Up to the start, a run does what is planned. -/
theorem interp_up {d : Definition} {resize : Option Vm.Resize}
    (hplan : (planResize STATE_OFF STATE_OFF ⟨some memoryGib, none, some cpus⟩).interp (handle diskGib) d
      = (.ok resize, d)) :
    (up memoryGib cpus).interp (handle diskGib) d =
      match (setHardware resize).interp (handle diskGib) d with
      | (.ok _, t) => (.ok (), t)
      | (.error e, t) => (.error e, t) := by
  have hgaps : checkGaps.interp (handle diskGib) d = (.ok (), d) := rfl
  have hstatus : (py .vmStatus).interp (handle diskGib) d = (.ok (some STATE_OFF), d) := rfl
  have hlogin : (py .requireLoginKey).interp (handle diskGib) d = (.ok (), d) := rfl
  have hkey : (orDerived none).interp (handle diskGib) d = (.ok [1], d) := rfl
  unfold up cmdUp vmUp plan bringUp startBox
  simp only [bind_eq, interp_bind, hgaps, hstatus, hplan, interp, hlogin, if_pos STATE_OFF_ne, hkey]
  cases (setHardware resize).interp (handle diskGib) d with
  | mk ended t =>
    cases ended with
    | ok a => rfl
    | error e => rfl

/-- The run that raises the maximum alone. -/
theorem interp_up_raised {gib : ℕ} (hlt : gib < memoryGib) :
    (up memoryGib cpus).interp (handle diskGib) (level (gib * KIB_PER_GIB) cpus) =
      (.error (.failed (.resize memoryGib cpus)),
        ⟨memoryGib * KIB_PER_GIB, gib * KIB_PER_GIB, cpus, cpus⟩) := by
  have hsize : currentSize diskGib (level (gib * KIB_PER_GIB) cpus) = some ⟨gib, diskGib, cpus⟩ := by
    rw [currentSize, show (level (gib * KIB_PER_GIB) cpus).maxMemory = gib * KIB_PER_GIB from rfl,
      exactGib_mul]
    rfl
  have hne : shown diskGib memoryGib cpus ≠ ⟨gib, diskGib, cpus⟩ := by
    intro heq
    exact hlt.ne' (congrArg BoxSize.memoryGib heq)
  have hsets : Resize.setsHardware ⟨⟨gib, diskGib, cpus⟩, shown diskGib memoryGib cpus⟩ = true := by
    rw [Resize.setsHardware, decide_eq_true_eq]
    intro heq
    exact hlt.ne' (congrArg Prod.fst heq)
  have hmin : min (gib * KIB_PER_GIB) (memoryGib * KIB_PER_GIB) = gib * KIB_PER_GIB :=
    min_eq_left (Nat.mul_le_mul_right KIB_PER_GIB hlt.le)
  have hfails : (setHardware (some ⟨⟨gib, diskGib, cpus⟩, shown diskGib memoryGib cpus⟩)).interp
      (handle diskGib) (level (gib * KIB_PER_GIB) cpus) =
        (.error (.failed (.resize memoryGib cpus)),
          ⟨memoryGib * KIB_PER_GIB, gib * KIB_PER_GIB, cpus, cpus⟩) := by
    rw [setHardware, onlyIf, if_pos hsets]
    refine interp_py_none ?_
    show (none, Definition.mk _ (min (gib * KIB_PER_GIB) (memoryGib * KIB_PER_GIB)) _ _) = _
    rw [hmin]
    rfl
  rw [interp_up (interp_planResize hsize), if_neg hne, hfails]

/-- The run after it finds nothing to do. -/
theorem interp_up_returned {memory : ℕ} :
    (up memoryGib cpus).interp (handle diskGib) ⟨memoryGib * KIB_PER_GIB, memory, cpus, cpus⟩ =
      (.ok (), ⟨memoryGib * KIB_PER_GIB, memory, cpus, cpus⟩) := by
  have hsize : currentSize diskGib ⟨memoryGib * KIB_PER_GIB, memory, cpus, cpus⟩ =
      some (shown diskGib memoryGib cpus) := by
    rw [currentSize, exactGib_mul]
    rfl
  rw [interp_up (interp_planResize hsize), if_pos rfl]
  rfl

/-- **A raise of the memory alone** can be left half done. -/
theorem not_finishes {gib : ℕ} (hlt : gib < memoryGib) :
    ¬Finishes diskGib memoryGib cpus (level (gib * KIB_PER_GIB) cpus) := by
  intro hfinishes
  have hraised := ends_interp (host_handle diskGib) (up memoryGib cpus)
    (level (gib * KIB_PER_GIB) cpus)
  rw [interp_up_raised hlt] at hraised
  have hreturned := ends_interp (host_handle diskGib) (up memoryGib cpus)
    ⟨memoryGib * KIB_PER_GIB, gib * KIB_PER_GIB, cpus, cpus⟩
  rw [interp_up_returned] at hreturned
  have heq := hfinishes _ _ (.single ⟨_, hraised⟩) hreturned
  have hmemory : gib * KIB_PER_GIB = memoryGib * KIB_PER_GIB := congrArg Definition.memory heq
  exact hlt.ne (Nat.eq_of_mul_eq_mul_right (by decide) hmemory)

end

/-- **When a rerun finishes a resize**: unless the memory alone is raised, every run that
returns leaves all four sizes as asked, whichever setters failed before. -/
theorem finishes_iff (diskGib memoryGib cpus memory vcpus : ℕ) :
    Finishes diskGib memoryGib cpus (level memory vcpus) ↔ ¬OnlyRaised memory vcpus memoryGib cpus := by
  constructor
  · rintro hfinishes ⟨rfl, gib, hlt, rfl⟩
    exact not_finishes hlt hfinishes
  · intro hnot d t hruns hends
    exact (wp_iff.mp (wp_up (left_of_runs hnot hruns) hnot) _ t hends).2

/-- From 8 GiB to 16 GiB, with the four CPUs there are. -/
theorem not_finishes_sample : ¬Finishes 40 16 4 (level (8 * KIB_PER_GIB) 4) :=
  not_finishes (by norm_num)

end Domain
