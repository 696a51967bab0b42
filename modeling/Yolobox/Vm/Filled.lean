/-
# What a finished grow leaves

Every call keeps the layers nested (`Inv`); one lemma for each function says what it
leaves when it returns, and `filled_of_run` puts them together.
-/
import Yolobox.Vm.GrowRuns

open Script Config

namespace Vm

variable {ext4 : Ext4} {b b' t : Box}

/-! ## What every call keeps -/

/-- The layers fit into each other, up to the mapping's slack. -/
structure Box.Inv (b : Box) : Prop where
  mapping : b.mapping ≤ b.partition
  filesystem : b.filesystem ≤ b.partition
  slack : b.filesystem ≤ b.mapping + MAPPING_SLACK_BYTES

theorem Box.Nested.inv (h : b.Nested) : b.Inv :=
  ⟨h.mapping, h.filesystem.trans h.mapping, h.filesystem.trans (Nat.le_add_right _ _)⟩

theorem inv_boots (hb : b.Inv) (h : b.Boots b') : b'.Inv := by
  obtain ⟨p, hp, rfl⟩ := h
  have hle : b.partition ≤ p := hp.elim (fun h => h ▸ le_refl _) And.left
  exact ⟨hb.mapping.trans hle, hb.filesystem.trans hle, hb.slack⟩

theorem inv_does (c : Cmd) (a : Answer c) (hb : b.Inv) (h : does ext4 c b a b') : b'.Inv := by
  cases c with
  | start passphrase size => exact inv_boots hb h.2
  | unlockDisk passphrase => exact inv_boots hb h.2
  | stop => exact h ▸ ⟨hb.mapping, hb.filesystem, hb.slack⟩
  | growDisk currentGib wantedGib => exact h.2 ▸ ⟨hb.mapping, hb.filesystem, hb.slack⟩
  | cryptsetupResize passphrase =>
    obtain ⟨-, m, ⟨hm, hslack⟩, rfl⟩ := h
    exact ⟨hm, hb.filesystem, hb.filesystem.trans hslack⟩
  | resize2fs =>
    obtain ⟨-, f, ⟨hf, -⟩, rfl⟩ := h
    exact ⟨hb.mapping, hf.trans hb.mapping, hf.trans (Nat.le_add_right _ _)⟩
  | vmStatus | currentSize | waitForOperator => exact h.2 ▸ hb
  | bootStage | luksDeviceFstype | guestRootUsage | guestDeviceBytes device
  | guestFilesystemBytes device => exact h.2.2 ▸ hb
  | _ =>
    cases h
    exact hb

theorem inv_tools (c : Cmd) (b : Box) (r : Option (Answer c)) (t : Box) (hb : b.Inv)
    (h : tools ext4 c b r t) : t.Inv := by
  cases r with
  | some a => exact inv_does c a hb h
  | none =>
    obtain rfl | ⟨a, ha⟩ | hpart := h
    · exact hb
    · exact inv_does c a hb ha
    · cases c with
      | start passphrase size => exact hpart.2 ▸ ⟨hb.mapping, hb.filesystem, hb.slack⟩
      | _ => exact hpart.elim

theorem inv_soundTools (c : Cmd) (b : Box) (r : Option (Answer c)) (t : Box) (hb : b.Inv)
    (h : soundTools ext4 c b r t) : t.Inv :=
  inv_tools c b r t hb h.1

theorem inv_of_runs {b₀ : Box} (hb : b₀.Nested) (hr : Runs (soundTools ext4) b₀ b) : b.Inv := by
  induction hr with
  | refl => exact hb.inv
  | run _ _ _ hends ih => exact hends.keeps inv_soundTools ih
  | boots _ hboots ih => exact inv_boots ih hboots
  | stops _ ih => exact ⟨ih.mapping, ih.filesystem, ih.slack⟩

/-! ## What the calls of a start keep -/

/-- The same ceiling, and the same layers but for the partition. -/
def SameRoot (b t : Box) : Prop :=
  t.ceiling = b.ceiling ∧ t.mapping = b.mapping ∧ t.filesystem = b.filesystem

/-- The calls that neither raise the ceiling nor resize the mapping or filesystem. -/
def Quiet : Cmd → Prop
  | .growDisk _ _ | .cryptsetupResize _ | .resize2fs => False
  | _ => True

theorem sameRoot_does (c : Cmd) (a : Answer c) (hc : Quiet c) (h : does ext4 c b a b') :
    SameRoot b b' := by
  have hboots : ∀ {b'}, b.Boots b' → SameRoot b b' := by
    rintro _ ⟨p, -, rfl⟩
    exact ⟨rfl, rfl, rfl⟩
  have hsame : ∀ {b'}, b' = b → SameRoot b b' := by
    rintro _ rfl
    exact ⟨rfl, rfl, rfl⟩
  cases c with
  | start passphrase size => exact hboots h.2
  | unlockDisk passphrase => exact hboots h.2
  | stop => exact h ▸ ⟨rfl, rfl, rfl⟩
  | growDisk currentGib wantedGib => exact hc.elim
  | cryptsetupResize passphrase => exact hc.elim
  | resize2fs => exact hc.elim
  | vmStatus | currentSize | waitForOperator => exact hsame h.2
  | bootStage | luksDeviceFstype | guestRootUsage | guestDeviceBytes device
  | guestFilesystemBytes device => exact hsame h.2.2
  | _ => exact hsame h

theorem sameRoot_soundTools (b : Box) (c : Cmd) (s : Box) (r : Option (Answer c)) (t : Box)
    (hc : Quiet c) (hs : SameRoot b s) (h : soundTools ext4 c s r t) : SameRoot b t := by
  have htrans : SameRoot s t → SameRoot b t := fun ht =>
    ⟨ht.1.trans hs.1, ht.2.1.trans hs.2.1, ht.2.2.trans hs.2.2⟩
  cases r with
  | some a => exact htrans (sameRoot_does c a hc h.1)
  | none =>
    obtain rfl | ⟨a, ha⟩ | hpart := h.1
    · exact hs
    · exact htrans (sameRoot_does c a hc ha)
    · cases c with
      | start passphrase size =>
        obtain ⟨-, rfl⟩ := hpart
        exact htrans ⟨rfl, rfl, rfl⟩
      | _ => exact hpart.elim

section
variable {α : Type} {offStatus : PyStr}

/-- What a script of quiet calls keeps. -/
theorem ensures_quiet {p : Py α} (hp : p.Issues Quiet (fun _ => True) (fun _ => True)) :
    p.Ensures (soundTools ext4) (fun _ t => SameRoot b t) b :=
  fun _ _ hends => hp.keeps (sameRoot_soundTools b) hends ⟨rfl, rfl, rfl⟩

theorem quiet_of_bystander (c : Cmd) (hc : Bystander c) : Quiet c := by
  cases c <;> trivial

theorem quiet_orDerived (passphrase : Option Passphrase) :
    (orDerived passphrase).Issues Quiet (fun _ => True) (fun _ => True) :=
  (bystander_orDerived passphrase).mono quiet_of_bystander

theorem quiet_requireGrowableGuest :
    requireGrowableGuest.Issues Quiet (fun _ => True) (fun _ => True) := by
  unfold requireGrowableGuest
  refine (issues_py trivial).bind fun stdout _ => ?_
  dsimp only
  split_ifs
  · trivial
  · trivial
  · refine (issues_py trivial).bind fun fstype _ => ?_
    split_ifs <;> trivial

theorem quiet_checkGaps : checkGaps.Issues Quiet (fun _ => True) (fun _ => True) :=
  bystander_checkGaps.mono quiet_of_bystander

theorem quiet_startBox (status : Option PyStr) (passphrase : Option Passphrase) (size : Size)
    (resize : Option Resize) :
    (startBox status passphrase size resize).Issues Quiet (fun _ => True) (fun _ => True) := by
  refine (quiet_orDerived passphrase).bind fun key _ =>
    Issues.bind (A := fun _ => True) ?_ fun _ _ => (issues_py trivial).bind fun _ _ => trivial
  cases resize with
  | none => trivial
  | some resize => exact issues_onlyIf (issues_py trivial)

theorem quiet_unlockBox (passphrase : Option Passphrase) :
    (unlockBox passphrase).Issues Quiet (fun _ => True) (fun _ => True) :=
  (bystander_unlockBox passphrase).mono quiet_of_bystander

theorem quiet_bringUp (status : Option PyStr) (passphrase : Option Passphrase) (size : Size)
    (resize : Option Resize) :
    (bringUp status passphrase size resize).Issues Quiet (fun _ => True) (fun _ => True) := by
  unfold bringUp
  split_ifs
  · exact quiet_startBox status passphrase size resize
  · exact quiet_unlockBox passphrase

end

/-! ## What the functions ensure -/

section
variable {offStatus : PyStr}

theorem ensures_py {m : Machine Answer Box} {c : Cmd} :
    (py c).Ensures m (fun a t => m c b (some a) t) b :=
  ensures_cmd.mpr fun _ _ h => h

/-- What holds of any box's runs holds of those that resize sound boxes only. -/
theorem ensures_sound {α : Type} {p : Py α} {Q : α → Box → Prop} (h : p.Ensures (tools ext4) Q b) :
    p.Ensures (soundTools ext4) Q b :=
  fun a t hends => h a t (hends.mono fun _ _ _ _ hm => hm.1)

theorem SameRoot.trans {c : Box} (h : SameRoot b t) (h' : SameRoot t c) : SameRoot b c :=
  ⟨h'.1.trans h.1, h'.2.1.trans h.2.1, h'.2.2.trans h.2.2⟩

/-- A plan for a box that exists is not for a smaller disk. -/
theorem planResize_ensures (status : PyStr) (asked : Size) :
    (planResize offStatus status asked).Ensures (soundTools ext4)
      (fun _ t => t = b ∧ ∀ w, asked.diskGib = some w → b.ceiling ≤ w) b := by
  unfold planResize
  by_cases hasked : asked.asked = true
  · rw [if_pos hasked]
    refine ensures_py.bind ?_
    rintro size t ⟨⟨hsize, rfl⟩, -⟩
    have hfill : ∀ w, asked.diskGib = some w → (asked.fill size).diskGib = w := by
      intro w hw
      simp [Size.fill, hw]
    dsimp only
    split_ifs with heq hlt hoff
    · refine ensures_ret.mpr ⟨rfl, fun w hw => ?_⟩
      rw [← hsize, ← hfill w hw, heq]
    · exact ensures_throw
    · exact ensures_throw
    · refine ensures_py.bind ?_
      rintro refusal t ⟨rfl, -⟩
      cases refusal with
      | some why => exact ensures_throw
      | none =>
        refine ensures_ret.mpr ⟨rfl, fun w hw => ?_⟩
        rw [← hsize, ← hfill w hw]
        exact Nat.le_of_not_lt hlt
  · rw [if_neg hasked]
    refine ensures_ret.mpr ⟨rfl, fun w hw => ?_⟩
    simp [Size.asked, hw] at hasked

/-- **A start changes no layer but the partition**, and is refused for a smaller disk. -/
theorem vmUp_ensures (runServices : Bool) (passphrase : Option Passphrase) (size : Size) :
    (vmUp offStatus runServices passphrase size).Ensures (soundTools ext4)
      (fun _ t => SameRoot b t ∧ ∀ w, size.diskGib = some w → b.ceiling ≤ w) b := by
  refine (ensures_quiet quiet_checkGaps).bind fun _ t ht => ensures_py.bind ?_
  rintro status t ⟨⟨⟨s, rfl, -⟩, rfl⟩, -⟩
  refine Ensures.bind (Q := fun _ u => SameRoot b u ∧ ∀ w, size.diskGib = some w → b.ceiling ≤ w)
    ?_ ?_
  · refine (planResize_ensures s size).bind ?_
    rintro resize u ⟨rfl, hsize⟩
    exact ensures_ret.mpr ⟨ht, fun w hw => ht.1 ▸ hsize w hw⟩
  · rintro planned u ⟨hu, hsize⟩
    refine Ensures.mono (ensures_quiet ?_) fun _ v hv => ⟨hu.trans hv, hsize⟩
    exact (issues_py trivial).bind fun _ _ => (quiet_bringUp _ _ _ _).bind fun _ _ =>
      (issues_py trivial).bind fun _ _ => (issues_py trivial).bind fun _ _ =>
      (issues_onlyIf (issues_py trivial)).bind fun _ _ => trivial

theorem rootUsageBeforeGrow_ensures :
    rootUsageBeforeGrow.Ensures (soundTools ext4)
      (fun usage t => t = b ∧ usage.totalKib = ext4.dfKib b.filesystem) b :=
  ensures_mapError.mpr (ensures_py.mono fun _ _ h => ⟨h.1.2.2, h.1.2.1⟩)

theorem requirePartitionGrown_ensures (ceilingGib : ℕ) :
    (requirePartitionGrown ceilingGib).Ensures (tools ext4)
      (fun _ t => t = b ∧ ceilingGib * GIB ≤ b.partition + PARTITION_SLACK_BYTES) b := by
  refine ensures_py.bind ?_
  rintro size t ⟨-, rfl, rfl⟩
  split_ifs with hshort
  · exact ensures_throw
  · refine ensures_ret.mpr ⟨rfl, ?_⟩
    simp only [Box.deviceBytes] at hshort
    omega

theorem ensures_say {line : Line} :
    (py (.say line)).Ensures (tools ext4) (fun _ t => t = b) b :=
  ensures_py.mono fun _ _ h => h

theorem vda2SizeForReport_ensures :
    vda2SizeForReport.Ensures (tools ext4) (fun _ t => t = b) b := by
  refine (ensures_attempt (Q := fun _ t => t = b)).mpr ?_ |>.bind fun _ _ h => ensures_ret.mpr h
  intro r t h
  cases r with
  | some a => exact h
  | none =>
    obtain rfl | ⟨a, ha⟩ | hpart := h
    · rfl
    · exact ha
    · exact hpart.elim

/-- **A grow of a sound box that returns fills the ceiling**, if its `df` was read first. -/
theorem growMappingAndFilesystem_ensures (passphrase : Passphrase) (before : RootUsage)
    (finishing : Bool) (hbefore : before.totalKib = ext4.dfKib b.filesystem)
    (hsound : b.power = .up → b.Sound ext4) :
    (growMappingAndFilesystem passphrase b.ceiling before finishing).Ensures (tools ext4)
      (fun _ t => t.Filled b.ceiling) b := by
  refine ensures_py.bind ?_
  rintro - t ⟨hup, m, hm, rfl⟩
  refine ensures_py.bind ?_
  rintro - t ⟨-, f, hf, rfl⟩
  have hfilled : b.ceiling * GIB ≤ b.partition + PARTITION_SLACK_BYTES →
      Box.Filled { b with mapping := m, filesystem := f } b.ceiling := fun hpart =>
    ⟨rfl, hpart, ⟨hm.2, hm.1.trans (Nat.le_add_right _ _)⟩,
      ⟨hf.2.trans (Nat.add_le_add_left ext4.block_le f), hf.1.trans (Nat.le_add_right _ _)⟩⟩
  refine (ensures_mapError.mpr ensures_py).bind ?_
  rintro after t ⟨-, hafter, rfl⟩
  refine ensures_say.bind ?_
  rintro - t rfl
  refine ensures_say.bind ?_
  rintro - t rfl
  refine vda2SizeForReport_ensures.bind ?_
  rintro vda2 t rfl
  refine ensures_say.bind ?_
  rintro - t rfl
  split_ifs with hgrew hfin
  · refine ensures_ret.mpr (hfilled ?_)
    refine (hsound hup).resolve_right fun hnone => ?_
    have hle := hnone m f hm hf
    rw [hafter, hbefore] at hgrew
    exact absurd hgrew (Nat.not_lt.mpr hle)
  · refine (requirePartitionGrown_ensures b.ceiling).bind ?_
    rintro - t ⟨rfl, hpart⟩
    exact ensures_say.mono fun _ _ h => h ▸ hfilled hpart
  · exact ensures_throw

/-- What issues `cryptsetup resize` only on sound boxes finds the box sound there. -/
theorem growMappingAndFilesystem_sound {gib : ℕ} (passphrase : Passphrase) {before : RootUsage}
    (finishing : Bool) (hb : b.ceiling = gib)
    (hbefore : before.totalKib = ext4.dfKib b.filesystem) :
    (growMappingAndFilesystem passphrase gib before finishing).Ensures (soundTools ext4)
      (fun _ t => t.Filled gib) b := by
  subst hb
  intro a t hends
  have hsound : b.power = .up → b.Sound ext4 := by
    obtain ⟨h, -⟩ | ⟨r, u, hstep, -⟩ := hends
    · exact nomatch h
    · exact hstep.2 passphrase rfl
  exact ensures_sound
    (growMappingAndFilesystem_ensures passphrase before finishing hbefore hsound) a t hends

theorem finishPreviousGrow_ensures {gib : ℕ} (passphrase : Passphrase) (hb : b.ceiling = gib) :
    (finishPreviousGrow gib passphrase).Ensures (soundTools ext4) (fun _ t => t.Filled gib) b := by
  refine (ensures_quiet quiet_requireGrowableGuest).bind fun _ t ht => ?_
  refine rootUsageBeforeGrow_ensures.bind ?_
  rintro before t ⟨rfl, hbefore⟩
  exact growMappingAndFilesystem_sound passphrase true (ht.1.trans hb) hbefore

theorem growRunningDisk_ensures (currentGib wantedGib : ℕ) (passphrase : Option Passphrase) :
    (growRunningDisk offStatus currentGib wantedGib passphrase).Ensures (soundTools ext4)
      (fun _ t => t.Filled wantedGib) b := by
  refine (ensures_quiet (quiet_orDerived passphrase)).bind fun key t ht => ?_
  refine rootUsageBeforeGrow_ensures.bind ?_
  rintro before t ⟨rfl, hbefore⟩
  refine ensures_py.bind ?_
  rintro - t ⟨rfl, -⟩
  refine (ensures_mapError.mpr ensures_py).bind ?_
  rintro - t ⟨⟨-, rfl⟩, -⟩
  refine ensures_mapError.mpr ((vmUp_ensures true (some key) NO_SIZE).bind ?_)
  rintro - t ⟨⟨hceiling, -, hfs⟩, -⟩
  exact growMappingAndFilesystem_sound key false hceiling (by rw [hbefore, hfs])

/-- Where there is no room to grow, the layers fill the ceiling already. -/
theorem rootHasRoomToGrow_ensures {gib : ℕ} (hinv : b.Inv) (hb : b.ceiling = gib) :
    (rootHasRoomToGrow gib).Ensures (soundTools ext4)
      (fun room t => t = b ∧ (room = false → b.Filled gib)) b := by
  refine ensures_py.bind ?_
  rintro fstype t ⟨⟨-, rfl, rfl⟩, -⟩
  rw [if_neg (by decide), if_neg (by decide)]
  refine (ensures_sound (requirePartitionGrown_ensures gib)).bind ?_
  rintro - t ⟨rfl, hpart⟩
  refine ensures_py.bind ?_
  rintro mappingBytes t ⟨⟨-, rfl, rfl⟩, -⟩
  refine ensures_py.bind ?_
  rintro partitionBytes t ⟨⟨-, rfl, rfl⟩, -⟩
  by_cases hroom : t.partition - t.mapping > MAPPING_SLACK_BYTES
  · exact (if_pos hroom).symm ▸ ensures_ret.mpr ⟨rfl, nofun⟩
  · refine (if_neg hroom).symm ▸ ensures_py.bind ?_
    rintro filesystemBytes t ⟨⟨-, rfl, rfl⟩, -⟩
    refine ensures_ret.mpr ⟨rfl, fun hfull => ?_⟩
    have hfs : ¬ t.mapping - t.filesystem > MAPPING_SLACK_BYTES := of_decide_eq_false hfull
    have hmap := hinv.mapping
    have hslack := hinv.slack
    exact ⟨hb, hpart, ⟨by omega, by omega⟩, ⟨by omega, by omega⟩⟩

theorem growToAskedDisk_ensures {wantedGib : ℕ} (passphrase : Option Passphrase)
    (hinv : b.Inv) (hle : b.ceiling ≤ wantedGib) :
    (growToAskedDisk offStatus wantedGib passphrase).Ensures (soundTools ext4)
      (fun _ t => t.Filled wantedGib) b := by
  refine ensures_py.bind ?_
  rintro size t ⟨⟨hsize, rfl⟩, -⟩
  dsimp only
  rw [if_neg (by omega)]
  split_ifs with heq
  · refine (rootHasRoomToGrow_ensures hinv (hsize ▸ heq.symm)).bind ?_
    rintro room t ⟨rfl, hroom⟩
    cases room with
    | false => exact ensures_ret.mpr (hroom rfl)
    | true =>
      refine (ensures_quiet (quiet_orDerived passphrase)).bind fun key u hu => ?_
      exact finishPreviousGrow_ensures key (hu.1.trans (hsize ▸ heq.symm))
  · refine (ensures_mapError.mpr (ensures_quiet quiet_requireGrowableGuest)).bind fun _ u _ => ?_
    exact growRunningDisk_ensures _ _ _

theorem cmdDiskGrow_ensures (wanted : ℕ) :
    (cmdDiskGrow offStatus wanted).Ensures (soundTools ext4) (fun _ t => t.Filled wanted) b := by
  refine ensures_py.bind ?_
  rintro size t ⟨⟨hsize, rfl⟩, -⟩
  dsimp only
  split_ifs with hlt heq
  · exact ensures_throw
  · refine (ensures_sound ensures_say).bind ?_
    rintro - t rfl
    refine ensures_py.bind ?_
    rintro key t ⟨rfl, -⟩
    refine (vmUp_ensures true (some key) NO_SIZE).bind ?_
    rintro - u ⟨hu, -⟩
    exact finishPreviousGrow_ensures key (hu.1.trans (hsize ▸ heq.symm))
  · exact (ensures_quiet quiet_requireGrowableGuest).bind fun _ u _ =>
      growRunningDisk_ensures _ _ _

theorem cmdUp_ensures (gib : ℕ) (memoryGib cpus : Option ℕ) (hinv : b.Inv) :
    (cmdUp offStatus ⟨memoryGib, some gib, cpus⟩).Ensures (soundTools ext4)
      (fun _ t => t.Filled gib) b := by
  refine ((vmUp_ensures true none _).and_keeps inv_soundTools hinv).bind ?_
  rintro passphrase t ⟨⟨hsame, hle⟩, hinv'⟩
  exact growToAskedDisk_ensures passphrase hinv' (hsame.1 ▸ hle gib rfl)

end

/-- **Exactly the sound boxes**: from one box that is up, every grow that returns fills
the ceiling if and only if the box is sound. -/
theorem growMappingAndFilesystem_fills_iff (hup : b.power = .up) :
    (∀ passphrase before finishing, before.totalKib = ext4.dfKib b.filesystem →
      (growMappingAndFilesystem passphrase b.ceiling before finishing).Ensures (tools ext4)
        (fun _ t => t.Filled b.ceiling) b) ↔ b.Sound ext4 := by
  constructor
  · intro hall
    by_contra hnot
    rw [Box.Sound, not_or] at hnot
    obtain ⟨hshort, hroom⟩ := hnot
    push Not at hroom
    obtain ⟨m, f, hm, hf, hgrew⟩ := hroom
    refine hshort (hall [] ⟨[], _⟩ false rfl () { b with mapping := m, filesystem := f } ?_).partition
    refine .inr ⟨some (), _, ⟨hup, m, hm, rfl⟩, .inr (.inr ⟨some (), _, ⟨hup, f, hf, rfl⟩, .inr ?_⟩)⟩
    refine .inr ⟨some ⟨[], ext4.dfKib f⟩, _, ⟨hup, rfl, rfl⟩, .inr ?_⟩
    refine .inr ⟨some (), _, rfl, .inr (.inr ⟨some (), _, rfl, .inr ?_⟩)⟩
    refine .inr ⟨some [], _, rfl, .inr (.inr ⟨some (), _, rfl, .inr ?_⟩)⟩
    rw [if_pos hgrew]
    exact ⟨rfl, rfl⟩
  · intro hsound passphrase before finishing hbefore
    exact growMappingAndFilesystem_ensures passphrase before finishing hbefore fun _ => hsound

/-! ## A concrete box -/

/-- Whether `growpart` works, by the ceiling the box boots with. -/
def Box.booted (works : ℕ → Bool) (b : Box) : Box :=
  let p := b.ceiling * GIB - 256 * MIB
  { b with power := .up, partition := if works b.ceiling && b.partition ≤ p then p else b.partition }

def onlyWhen (there : Bool) {α : Type} (a : α) (b b' : Box) : Option α × Box :=
  if there then (some a, b') else (none, b)

/-- A 4 KiB-block filesystem whose `df` shows all of it. -/
def plainExt4 : Ext4 := ⟨4096, fun bytes => bytes / 1024, by decide⟩

/-- A box whose calls in `bad` fail and change nothing. -/
def handle (works : ℕ → Bool) (bad : Cmd → Bool) (c : Cmd) (b : Box) : Option (Answer c) × Box :=
  if bad c then (none, b)
  else match c with
    | .configGaps => (some [], b)
    | .fatalGaps _ => (some [], b)
    | .vmStatus => (some (some (if b.power = .off then lit "Stopped" else RUNNING)), b)
    | .creationRefusal _ => (some none, b)
    | .currentSize => (some ⟨16, b.ceiling, 4⟩, b)
    | .resizeRefusal _ _ => (some none, b)
    | .requireLoginKey => (some (), b)
    | .resize _ _ => (some (), b)
    | .start _ _ => onlyWhen (b.power = .off) () b (b.booted works)
    | .stop => (some (), { b with power := .off })
    | .growDisk _ wantedGib => onlyWhen (b.power = .off) () b { b with ceiling := wantedGib }
    | .cpuCount => (some (some 8), b)
    | .luksPassphrase => (some [1], b)
    | .ensureAgentSshConfig => (some (), b)
    | .vmServices => (some (), b)
    | .say _ => (some (), b)
    | .bootStage =>
      (some (match b.power with
        | .off => .none
        | .initrd => .initrd
        | .up => .stage2), b)
    | .unlockDisk _ => onlyWhen (b.power = .initrd) () b (b.booted works)
    | .waitForOperator => onlyWhen (b.power = .up) () b b
    | .ensureGuestKnownHosts => (some (), b)
    | .growpartLoadState => (some (lit "loaded"), b)
    | .luksDeviceFstype => onlyWhen (b.power = .up) DISK_FSTYPE_LUKS b b
    | .guestRootUsage => onlyWhen (b.power = .up) ⟨[], plainExt4.dfKib b.filesystem⟩ b b
    | .cryptsetupResize _ =>
      onlyWhen (b.power = .up) () b { b with mapping := b.partition - 16 * MIB }
    | .resize2fs => onlyWhen (b.power = .up) () b { b with filesystem := b.mapping }
    | .lsblkSize => (some [], b)
    | .guestDeviceBytes device => onlyWhen (b.power = .up) (b.deviceBytes device) b b
    | .guestFilesystemBytes _ => onlyWhen (b.power = .up) b.filesystem b b

theorem bootsTo_booted (works : ℕ → Bool) (b : Box) : b.Boots (b.booted works) := by
  refine ⟨_, ?_, rfl⟩
  split_ifs with h
  · rw [Bool.and_eq_true, decide_eq_true_eq] at h
    have hslack : 256 * MIB ≤ PARTITION_SLACK_BYTES := by decide
    exact .inr ⟨h.2, by omega, by omega⟩
  · exact .inl rfl

theorem handle_tools (works : ℕ → Bool) (bad : Cmd → Bool) (c : Cmd) (b : Box) :
    tools plainExt4 c b (handle works bad c b).1 (handle works bad c b).2 := by
  have hnone : fails plainExt4 c b b := .inl rfl
  have hwhen : ∀ {there : Bool} {a : Answer c} {b' : Box}, (there = true → does plainExt4 c b a b') →
      tools plainExt4 c b (onlyWhen there a b b').1 (onlyWhen there a b b').2 := by
    intro there a b' h
    cases there with
    | true => exact h rfl
    | false => exact hnone
  unfold handle
  by_cases hbad : bad c = true
  · rw [if_pos hbad]
    exact hnone
  rw [if_neg hbad]
  cases c with
  | vmStatus =>
    refine ⟨⟨_, rfl, ?_⟩, rfl⟩
    split_ifs with hoff
    · exact ⟨fun h => absurd h (by decide), fun h => absurd hoff h⟩
    · exact ⟨fun _ => hoff, fun _ => rfl⟩
  | currentSize => exact ⟨rfl, rfl⟩
  | start passphrase size =>
    exact hwhen fun h => ⟨of_decide_eq_true h, bootsTo_booted works b⟩
  | unlockDisk passphrase =>
    exact hwhen fun h => ⟨of_decide_eq_true h, bootsTo_booted works b⟩
  | growDisk currentGib wantedGib => exact hwhen fun h => ⟨of_decide_eq_true h, rfl⟩
  | bootStage =>
    refine ⟨?_, ?_, rfl⟩
    all_goals
      intro h
      revert h
      cases b.power <;> simp
  | waitForOperator => exact hwhen fun h => ⟨of_decide_eq_true h, rfl⟩
  | luksDeviceFstype => exact hwhen fun h => ⟨of_decide_eq_true h, rfl, rfl⟩
  | guestRootUsage => exact hwhen fun h => ⟨of_decide_eq_true h, rfl, rfl⟩
  | guestDeviceBytes device => exact hwhen fun h => ⟨of_decide_eq_true h, rfl, rfl⟩
  | guestFilesystemBytes device => exact hwhen fun h => ⟨of_decide_eq_true h, rfl, rfl⟩
  | cryptsetupResize passphrase =>
    refine hwhen fun h => ⟨of_decide_eq_true h, _, ⟨Nat.sub_le _ _, ?_⟩, rfl⟩
    have hslack : 16 * MIB ≤ MAPPING_SLACK_BYTES := by decide
    omega
  | resize2fs =>
    exact hwhen fun h => ⟨of_decide_eq_true h, _, ⟨le_refl _, Nat.le_add_right _ _⟩, rfl⟩
  | _ => rfl

/-- The partition of a box that is up fills the ceiling. -/
def Box.Grown (b : Box) : Prop :=
  b.power = .up → b.ceiling * GIB ≤ b.partition + PARTITION_SLACK_BYTES

theorem grown_booted (b : Box) : (b.booted fun _ => true).Grown := by
  intro _
  have hslack : 256 * MIB ≤ PARTITION_SLACK_BYTES := by decide
  simp only [Box.booted, Bool.true_and, decide_eq_true_eq]
  split_ifs with h <;> omega

/-- Where every boot's `growpart` works, `cryptsetup resize` finds sound boxes only. -/
theorem handle_soundTools (bad : Cmd → Bool) (c : Cmd) (b : Box) (hb : b.Grown) :
    soundTools plainExt4 c b (handle (fun _ => true) bad c b).1 (handle (fun _ => true) bad c b).2 ∧
      (handle (fun _ => true) bad c b).2.Grown := by
  refine ⟨⟨handle_tools _ _ c b, fun _ _ hup => .inl (hb hup)⟩, ?_⟩
  unfold handle
  by_cases hbad : bad c = true
  · rw [if_pos hbad]
    exact hb
  rw [if_neg hbad]
  have hwhen : ∀ {α : Type} {there : Bool} {a : α} {b' : Box}, (there = true → b'.Grown) →
      (onlyWhen there a b b').2.Grown := by
    intro α there a b' h
    cases there with
    | true => exact h rfl
    | false => exact hb
  cases c with
  | start passphrase size => exact hwhen fun _ => grown_booted b
  | unlockDisk passphrase => exact hwhen fun _ => grown_booted b
  | stop => exact fun h => nomatch h
  | growDisk currentGib wantedGib =>
    exact hwhen fun h hup => absurd ((of_decide_eq_true h).symm.trans hup) (by decide)
  | cryptsetupResize passphrase => exact hwhen fun _ hup => hb hup
  | resize2fs => exact hwhen fun _ hup => hb hup
  | waitForOperator | luksDeviceFstype | guestRootUsage | guestDeviceBytes device
  | guestFilesystemBytes device => exact hwhen fun _ => hb
  | _ => exact hb

/-- A box of `gib` GiB, whose ceiling may be more. -/
def fullBox (gib ceiling : ℕ) : Box :=
  ⟨.up, ceiling, gib * GIB - 256 * MIB, gib * GIB - 272 * MIB, gib * GIB - 272 * MIB⟩

theorem nested_fullBox : (fullBox 40 40).Nested := ⟨by decide, by decide, by decide⟩

theorem grown_fullBox : (fullBox 40 40).Grown := by
  have hfits : 40 * GIB ≤ 40 * GIB - 256 * MIB + PARTITION_SLACK_BYTES := by decide
  exact fun _ => hfits

/-! ## Every run -/

/-- **A run that ends successfully leaves the disk it was asked for**, after any runs
that issued `cryptsetup resize` on sound boxes only. -/
theorem filled_of_run {b₀ : Box} (hb : b₀.Nested) (hr : Runs (soundTools ext4) b₀ b)
    (run : Run) (offStatus : PyStr)
    (h : (run.script offStatus).Ends (soundTools ext4) b (.returned ()) b') :
    b'.Filled run.gib := by
  cases run with
  | diskGrow gib => exact cmdDiskGrow_ensures gib () b' h
  | up gib memoryGib cpus => exact cmdUp_ensures gib memoryGib cpus (inv_of_runs hb hr) () b' h

/-- The 40 GiB box whose boot at 60 GiB grew the partition, and nothing else after it. -/
def cutOffBox : Box :=
  ⟨.up, 60, 60 * GIB - 256 * MIB, 40 * GIB - 272 * MIB, 40 * GIB - 272 * MIB⟩

def resizeFails : Cmd → Bool
  | .cryptsetupResize _ => true
  | _ => false

/-- A 40 GiB box grown to 60 GiB by the second run: the first one could not resize the
mapping. -/
theorem filled_of_run_sample :
    (∃ e, ((Run.diskGrow 60).script (lit "Stopped")).Ends (soundTools plainExt4)
      (fullBox 40 40) (.raised e) cutOffBox) ∧
    ((Run.diskGrow 60).script (lit "Stopped")).Ends (soundTools plainExt4)
      cutOffBox (.returned ()) (fullBox 60 60) ∧ (fullBox 60 60).Filled 60 := by
  have hgrown : cutOffBox.Grown := by
    have hfits : 60 * GIB ≤ 60 * GIB - 256 * MIB + PARTITION_SLACK_BYTES := by decide
    exact fun _ => hfits
  have hfirst : ∃ e, ((Run.diskGrow 60).script (lit "Stopped")).Ends (soundTools plainExt4)
      (fullBox 40 40) (.raised e) cutOffBox :=
    ⟨_, ends_interp_within (handle_soundTools resizeFails) (cmdDiskGrow (lit "Stopped") 60)
      grown_fullBox⟩
  have hends : ((Run.diskGrow 60).script (lit "Stopped")).Ends (soundTools plainExt4)
      cutOffBox (.returned ()) (fullBox 60 60) :=
    ends_interp_within (handle_soundTools fun _ => false) (cmdDiskGrow (lit "Stopped") 60) hgrown
  obtain ⟨e, hcut⟩ := hfirst
  exact ⟨⟨e, hcut⟩, hends, filled_of_run nested_fullBox (.run (.diskGrow 60) (lit "Stopped") .refl hcut)
    (.diskGrow 60) (lit "Stopped") hends⟩

/-! ## The defect -/

/-- **A grow to 100 GiB succeeds with a partition of 60 GiB.**  The grow to 60 GiB before
it was cut off after its boot, and the second one's boot did not grow the partition:
`df` grew by what the first one had left over. -/
theorem leftover_grows :
    (fullBox 40 40).Nested ∧ Runs (tools plainExt4) (fullBox 40 40) cutOffBox ∧
      ((Run.diskGrow 100).script (lit "Stopped")).Ends (tools plainExt4) cutOffBox
        (.returned ()) (fullBox 60 100) ∧
      ¬ (fullBox 60 100).Filled 100 := by
  refine ⟨nested_fullBox, .run (.diskGrow 60) (lit "Stopped") .refl
    (ends_interp (handle_tools (fun _ => true) resizeFails) _ _),
    ends_interp (handle_tools (fun gib => gib ≠ 100) fun _ => false) _ _, ?_⟩
  intro h
  exact absurd h.partition (by decide)

end Vm
