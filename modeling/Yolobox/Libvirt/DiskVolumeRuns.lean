/-
# A volume that is adopted is whole

`Inv` says that a volume taken to a box's size holds the pinned seed.  Only the last
step of a call takes a volume there, after an upload that succeeded, so every step of
every call keeps it, whatever fails.
-/
import Yolobox.Libvirt.DiskVolume

open Script Config

namespace Disk

variable {images : Images} {h h₀ h' : Host} {α : Type}

/-- A finished volume holds the pinned seed. -/
def Host.Inv (images : Images) (h : Host) : Prop :=
  ∀ v, h.volume = some v → v.Finished → v.Verified images

theorem inv_congr (heq : h'.volume = h.volume) (hinv : h.Inv images) : h'.Inv images :=
  fun v hv => hinv v (heq ▸ hv)

/-! ## Steps that leave the pool alone -/

theorem volume_setFile (f : File) (bytes : Option (List Utf8.Byte)) :
    (h.setFile f bytes).volume = h.volume := by
  cases f <;> rfl

theorem volume_does {c : Cmd} {a : Answer c} (hc : c.changesVolume = false)
    (hdoes : does images c h a h') : h'.volume = h.volume := by
  cases c with
  | volDelete => exact nomatch hc
  | volCreateAs size => exact nomatch hc
  | volUpload f => exact nomatch hc
  | volResize gib => exact nomatch hc
  | volumeExists => exact hdoes.2 ▸ rfl
  | pathExists f => exact hdoes.2 ▸ rfl
  | capacity =>
    obtain ⟨v, -, -, rfl⟩ := hdoes
    rfl
  | fileSha512 f =>
    obtain ⟨bytes, -, -, rfl⟩ := hdoes
    rfl
  | fileSize f =>
    obtain ⟨bytes, -, -, rfl⟩ := hdoes
    rfl
  | unlink f => exact hdoes.2 ▸ volume_setFile f none
  | mkstemp => exact hdoes ▸ rfl
  | urlopen =>
    obtain ⟨-, bytes, rfl⟩ := hdoes
    rfl
  | replace =>
    obtain ⟨bytes, -, rfl⟩ := hdoes
    rfl
  | makedirs => exact hdoes ▸ rfl
  | err note => exact hdoes ▸ rfl

theorem volume_fails {c : Cmd} (hc : c.changesVolume = false) (hfails : fails images c h h') :
    h'.volume = h.volume := by
  obtain rfl | ⟨a, ha⟩ | hpart := hfails
  · rfl
  · exact volume_does hc ha
  · cases c with
    | volUpload f => exact nomatch hc
    | urlopen =>
      obtain ⟨-, bytes, rfl⟩ := hpart
      rfl
    | _ => exact hpart.elim

/-- However it ends, the volume is that of `h₀`. -/
def quietPost (h₀ : Host) (R : α → Host → Prop) : Post Raised α Host :=
  ⟨fun a t => t.volume = h₀.volume ∧ R a t, fun _ t => t.volume = h₀.volume,
    fun t => t.volume = h₀.volume⟩

theorem quiet_py {c : Cmd} (hc : c.changesVolume = false) (hv : h.volume = h₀.volume) :
    (py c).wpIn (tools images) (Allowed images) (quietPost h₀ fun a t => does images c h a t) h := by
  refine wpIn_cmd ⟨fun _ => hc, ?_⟩ hv ?_ ?_
  · rintro f rfl
    exact nomatch hc
  · intro a t hdoes
    have heq := (volume_does hc hdoes).trans hv
    exact ⟨heq, heq, hdoes⟩
  · intro t hfails
    have heq := (volume_fails hc hfails).trans hv
    exact ⟨heq, heq⟩

/-! ## The seed -/

/-- The cached file is the pinned seed. -/
def Host.Pinned (images : Images) (h : Host) : Prop :=
  ∃ bytes, h.seed = some bytes ∧ images.sha512 bytes = SEED_SHA512

theorem quiet_fetchPart (hv : h.volume = h₀.volume) :
    fetchPart.wpIn (tools images) (Allowed images) (quietPost h₀ fun _ t => t.Pinned images) h := by
  refine (quiet_py rfl hv).bind ?_
  rintro - t ⟨hv, -⟩
  refine (quiet_py rfl hv).bind ?_
  rintro digest t ⟨hv, bytes, hpart, rfl, rfl⟩
  split_ifs with hpin
  · exact hv
  · refine wpIn_mono (quiet_py rfl hv) ?_ (fun _ _ h => h) fun _ h => h
    rintro - u ⟨hv, bytes', hpart', rfl⟩
    obtain rfl : bytes = bytes' := Option.some.inj (hpart.symm.trans hpart')
    exact ⟨hv, bytes, rfl, not_not.mp hpin⟩

theorem quiet_downloadSeed (hv : h.volume = h₀.volume) :
    downloadSeed.wpIn (tools images) (Allowed images) (quietPost h₀ fun _ t => t.Pinned images) h := by
  refine (quiet_py rfl hv).bind ?_
  rintro - t ⟨hv, -⟩
  refine wpIn.bind (M := fun outcome u => u.volume = h₀.volume ∧
    (outcome = .ok () → u.Pinned images)) ?_ ?_
  · rw [wpIn_caught, wpIn_mapError]
    exact wpIn_mono (quiet_fetchPart hv) (fun _ _ h => ⟨h.1, fun _ => h.2⟩)
      (fun _ _ h => ⟨h, nofun⟩) fun _ h => h
  · rintro outcome u ⟨hv, hpin⟩
    refine (quiet_py rfl hv).bind ?_
    rintro there u ⟨hv, -, rfl⟩
    refine wpIn.bind (M := fun _ w => w.volume = h₀.volume ∧
      (outcome = .ok () → w.Pinned images)) ?_ ?_
    · unfold onlyIf
      split_ifs
      · refine wpIn_mono (quiet_py rfl hv) ?_ (fun _ _ h => h) fun _ h => h
        rintro - w ⟨hv, -, rfl⟩
        exact ⟨hv, hpin⟩
      · exact ⟨hv, hpin⟩
    · rintro - w ⟨hv, hpin⟩
      cases outcome with
      | ok a => exact ⟨hv, hpin rfl⟩
      | error failure => exact hv

theorem quiet_freshSeed (hv : h.volume = h₀.volume) :
    freshSeed.wpIn (tools images) (Allowed images)
      (quietPost h₀ fun f t => f = .seed ∧ t.Pinned images) h := by
  refine (quiet_py rfl hv).bind ?_
  rintro - t ⟨hv, -⟩
  refine (quiet_downloadSeed hv).bind ?_
  rintro - t ⟨hv, hpin⟩
  exact ⟨hv, rfl, hpin⟩

/-- **The seed is the pinned one**, on every path that returns it. -/
theorem quiet_ensureSeed (hv : h.volume = h₀.volume) :
    ensureSeed.wpIn (tools images) (Allowed images)
      (quietPost h₀ fun f t => f = .seed ∧ t.Pinned images) h := by
  refine (quiet_py rfl hv).bind ?_
  rintro - t ⟨hv, -⟩
  refine (quiet_py rfl hv).bind ?_
  rintro there t ⟨hv, -, rfl⟩
  split_ifs
  · refine (quiet_py rfl hv).bind ?_
    rintro digest t ⟨hv, bytes, hseed, rfl, rfl⟩
    split_ifs with hpin
    · exact ⟨hv, rfl, bytes, hseed, hpin⟩
    · refine (quiet_py rfl hv).bind ?_
      rintro - t ⟨hv, -⟩
      refine (quiet_py rfl hv).bind ?_
      rintro - t ⟨hv, -⟩
      exact quiet_freshSeed hv
  · exact quiet_freshSeed hv

/-! ## The volume -/

/-- Every volume there is smaller than any box. -/
def Host.Unfinished (h : Host) : Prop := ∀ v, h.volume = some v → v.capacity < MIN_DISK_GIB * GIB

theorem Host.Unfinished.inv (hu : h.Unfinished) : h.Inv images :=
  fun v hv hfin => absurd hfin (Nat.not_le.mpr (hu v hv))

theorem unfinished_none (hv : h.volume = none) : h.Unfinished := by
  intro v hsome
  exact nomatch hv.symm.trans hsome

theorem unfinished_volume {capacity : ℕ} {content : Content}
    (hlt : capacity < MIN_DISK_GIB * GIB) :
    ({ h with volume := some ⟨capacity, content⟩ } : Host).Unfinished := by
  rintro v hv
  rw [← Option.some.inj hv]
  exact hlt

/-- An unfinished volume may be changed, but not by uploading. -/
theorem Host.Unfinished.allowed {c : Cmd} (hu : h.Unfinished) (hc : ∀ f, c ≠ .volUpload f) :
    Allowed images c h := by
  refine ⟨?_, fun f hf => absurd hf (hc f)⟩
  rintro ⟨v, hv, hfin⟩
  exact absurd hfin (Nat.not_le.mpr (hu v hv))

/-- The volume holds the whole seed, and is not resized yet. -/
def Host.Uploaded (images : Images) (h : Host) : Prop :=
  ∃ v bytes, h.volume = some v ∧ v.capacity < MIN_DISK_GIB * GIB ∧ v.content = .image bytes ∧
    images.sha512 bytes = SEED_SHA512

theorem upload_volume {r : Option Unit} {t : Host} (hu : h.Unfinished) (hpin : h.Pinned images)
    (hstep : tools images (.volUpload .seed) h r t) :
    t.Unfinished ∧ (r = some () → t.Uploaded images) := by
  obtain ⟨bytes, hseed, hsha⟩ := hpin
  have hdoes : ∀ {t}, does images (.volUpload .seed) h () t → t.Unfinished ∧ t.Uploaded images := by
    rintro t ⟨v, bytes', hv, hfile, rfl⟩
    obtain rfl : bytes = bytes' := Option.some.inj (hseed.symm.trans hfile)
    have hlt := images.virtualSize_lt bytes hsha
    exact ⟨unfinished_volume hlt, _, bytes, rfl, hlt, rfl, hsha⟩
  cases r with
  | some a => exact ⟨(hdoes hstep).1, fun _ => (hdoes hstep).2⟩
  | none =>
    refine ⟨?_, nofun⟩
    obtain rfl | ⟨a, ha⟩ | ⟨v, bytes', capacity, hv, hfile, hcap, rfl⟩ := hstep
    · exact hu
    · exact (hdoes ha).1
    · obtain rfl : bytes = bytes' := Option.some.inj (hseed.symm.trans hfile)
      refine unfinished_volume ?_
      obtain rfl | rfl := hcap
      · exact hu v hv
      · exact images.virtualSize_lt bytes hsha

/-- **A created volume holds the whole seed**, and a failure leaves it unfinished. -/
theorem wpIn_createVolume {size : ℕ} (hnone : h.volume = none) (hpin : h.Pinned images)
    (hsize : size < MIN_DISK_GIB * GIB) :
    (createVolume size .seed).wpIn (tools images) (Allowed images)
      ⟨fun _ t => t.Uploaded images, fun _ t => t.Unfinished, fun t => t.Unfinished⟩ h := by
  have hu := unfinished_none hnone
  refine wpIn.bind (M := fun _ t => t.Unfinished ∧ t.Pinned images)
    (wpIn_cmd (hu.allowed nofun) hu ?_ ?_) ?_
  · rintro - t ⟨-, rfl⟩
    exact ⟨unfinished_volume hsize, unfinished_volume hsize, hpin⟩
  · rintro t (rfl | ⟨-, -, rfl⟩ | hpart)
    · exact ⟨hu, hu⟩
    · exact ⟨unfinished_volume hsize, unfinished_volume hsize⟩
    · exact hpart.elim
  · rintro - t ⟨hu, hpin⟩
    refine wpIn.bind (M := fun outcome u => u.Unfinished ∧ (outcome = .ok () → u.Uploaded images))
      (wpIn_caught.mpr (wpIn_cmd ?_ hu ?_ ?_)) ?_
    · refine ⟨(hu.allowed nofun : Allowed images .volDelete t).1, ?_⟩
      rintro f hf
      obtain rfl := Cmd.volUpload.inj hf
      exact hpin
    · intro a u hstep
      obtain ⟨hunf, hup⟩ := upload_volume hu hpin hstep
      exact ⟨hunf, hunf, fun _ => hup rfl⟩
    · intro u hstep
      have hunf := (upload_volume hu hpin hstep).1
      exact ⟨hunf, hunf, nofun⟩
    · rintro outcome u ⟨hu, hup⟩
      cases outcome with
      | ok a => exact hup rfl
      | error failure =>
        refine ⟨hu.allowed nofun, hu, fun r w hstep => ?_⟩
        have hw : w.Unfinished := by
          cases r with
          | some a =>
            obtain ⟨-, rfl⟩ := hstep
            exact unfinished_none rfl
          | none =>
            obtain rfl | ⟨a, -, rfl⟩ | hpart := hstep
            · exact hu
            · exact unfinished_none rfl
            · exact hpart.elim
        exact ⟨hw, hw⟩

/-- What a call leaves. -/
def finishedPost (images : Images) : Post Raised Unit Host :=
  ⟨fun _ t => ∃ v, t.volume = some v ∧ v.Finished ∧ v.Verified images,
    fun _ t => t.Inv images, fun t => t.Inv images⟩

theorem wpIn_buildDiskVolume {diskGib : ℕ} (hgib : MIN_DISK_GIB ≤ diskGib)
    (hnone : h.volume = none) :
    (buildDiskVolume diskGib).wpIn (tools images) (Allowed images) (finishedPost images) h := by
  have hquiet : ∀ t : Host, t.volume = h.volume → t.Inv images := fun t ht =>
    (unfinished_none (ht.trans hnone)).inv
  refine wpIn.bind (wpIn_mono (quiet_ensureSeed rfl) (fun _ _ h => h) (fun _ => hquiet) hquiet) ?_
  rintro _ t ⟨hv, rfl, hpin⟩
  refine wpIn.bind (wpIn_mono (quiet_py rfl hv) (fun _ _ h => h) (fun _ => hquiet) hquiet) ?_
  rintro size t ⟨hv, bytes, hseed, rfl, rfl⟩
  have hsize : bytes.length < MIN_DISK_GIB * GIB := by
    obtain ⟨bytes', hseed', hsha⟩ := hpin
    obtain rfl : bytes' = bytes := Option.some.inj (hseed'.symm.trans hseed)
    exact images.length_lt bytes' hsha
  refine wpIn.bind (wpIn_mono (wpIn_createVolume (hv.trans hnone) hpin hsize) (fun _ _ h => h)
    (fun _ _ h => h.inv) fun _ h => h.inv) ?_
  rintro - u ⟨v, image, hvol, hlt, himage, hsha⟩
  have hu : u.Unfinished := by
    rintro v' hv'
    obtain rfl := Option.some.inj (hvol.symm.trans hv')
    exact hlt
  have hresized : ∀ {w}, does images (.volResize diskGib) u () w →
      ∃ v, w.volume = some v ∧ v.Finished ∧ v.Verified images := by
    rintro w ⟨v', hv', -, rfl⟩
    obtain rfl := Option.some.inj (hvol.symm.trans hv')
    exact ⟨_, rfl, Nat.mul_le_mul_right GIB hgib, image, hsha, .inl himage⟩
  have hinv : ∀ {w}, does images (.volResize diskGib) u () w → w.Inv images := by
    intro w hw v' hv' _
    obtain ⟨v, hv, -, hver⟩ := hresized hw
    obtain rfl := Option.some.inj (hv.symm.trans hv')
    exact hver
  refine wpIn_cmd (hu.allowed nofun) hu.inv (fun a w hw => ⟨hinv hw, hresized hw⟩) ?_
  rintro w (rfl | ⟨a, ha⟩ | hpart)
  · exact ⟨hu.inv, hu.inv⟩
  · exact ⟨hinv ha, hinv ha⟩
  · exact hpart.elim

theorem diskVolumeFinished_iff {v : Volume} : diskVolumeFinished v.capacity = true ↔ v.Finished :=
  decide_eq_true_iff

/-- **One call**: what it leaves, and where its steps are taken. -/
theorem wpIn_ensureDiskVolume {diskGib : ℕ} (hgib : MIN_DISK_GIB ≤ diskGib)
    (hinv : h.Inv images) :
    (ensureDiskVolume diskGib).wpIn (tools images) (Allowed images) (finishedPost images) h := by
  have hquiet : ∀ t : Host, t.volume = h.volume → t.Inv images := fun t ht => inv_congr ht hinv
  refine wpIn.bind (wpIn_mono (quiet_py rfl rfl) (fun _ _ h => h) (fun _ => hquiet) hquiet) ?_
  rintro there t ⟨-, rfl, rfl⟩
  split_ifs with hthere
  · refine wpIn.bind (wpIn_mono (quiet_py rfl rfl) (fun _ _ h => h) (fun _ => hquiet) hquiet) ?_
    rintro capacity t ⟨-, v, hv, rfl, rfl⟩
    split_ifs with hfin
    · have hfinished : v.Finished := diskVolumeFinished_iff.mp hfin
      exact ⟨v, hv, hfinished, hinv v hv hfinished⟩
    · refine wpIn.bind (wpIn_mono (quiet_py rfl rfl) (fun _ _ h => h) (fun _ => hquiet) hquiet) ?_
      rintro - u ⟨-, rfl⟩
      have hu : u.Unfinished := by
        rintro v' hv'
        obtain rfl := Option.some.inj (hv.symm.trans hv')
        exact Nat.not_le.mp fun h => hfin (diskVolumeFinished_iff.mpr h)
      refine wpIn.bind (M := fun _ w => w.volume = none) (wpIn_cmd (hu.allowed nofun) hu.inv ?_ ?_)
        fun _ w hw => wpIn_buildDiskVolume hgib hw
      · rintro - w ⟨-, rfl⟩
        exact ⟨(unfinished_none rfl).inv, rfl⟩
      · rintro w (rfl | ⟨-, -, rfl⟩ | hpart)
        · exact ⟨hu.inv, hu.inv⟩
        · exact ⟨(unfinished_none rfl).inv, (unfinished_none rfl).inv⟩
        · exact hpart.elim
  · exact wpIn_buildDiskVolume hgib (Option.not_isSome_iff_eq_none.mp hthere)

/-- A finished volume is left as it is, however the call ends. -/
theorem quiet_ensureDiskVolume {diskGib : ℕ} (hfin : h.Finished) :
    (ensureDiskVolume diskGib).wpIn (tools images) (Allowed images) (quietPost h fun _ _ => True)
      h := by
  obtain ⟨v, hv, hfin⟩ := hfin
  refine (quiet_py rfl rfl).bind ?_
  rintro there t ⟨-, rfl, rfl⟩
  rw [if_pos (by rw [hv, Option.isSome_some])]
  refine (quiet_py rfl rfl).bind ?_
  rintro capacity u ⟨-, v', hv', rfl, rfl⟩
  obtain rfl := Option.some.inj (hv.symm.trans hv')
  rw [if_pos (diskVolumeFinished_iff.mpr hfin)]
  exact ⟨rfl, trivial⟩

/-! ## Every run -/

theorem inv_of_runs (hinv : h₀.Inv images) (hr : Runs images h₀ h) : h.Inv images := by
  induction hr with
  | refl => exact hinv
  | call diskGib _ hgib hends ih =>
    rename_i h h' o _
    have hpost := (wpIn_iff.mp (wpIn_ensureDiskVolume hgib ih)).2 o h' hends
    cases o with
    | returned a =>
      obtain ⟨v, hv, -, hver⟩ := hpost
      rintro v' hv' -
      obtain rfl := Option.some.inj (hv.symm.trans hv')
      exact hver
    | raised e => exact hpost
    | killed => exact hpost
  | boxWrites _ hv hfin hcontent _ ih =>
    obtain ⟨bytes, hsha, hholds⟩ := ih _ hv hfin
    rintro v' hv' -
    obtain rfl := Option.some.inj hv'
    refine ⟨bytes, hsha, .inr ?_⟩
    obtain himage | hbox := hcontent
    · obtain h | h := hholds
      · rw [Content.image.inj (himage.symm.trans h)]
      · exact nomatch himage.symm.trans h
    · obtain h | h := hholds
      · exact nomatch hbox.symm.trans h
      · rw [Content.box.inj (hbox.symm.trans h)]
  | deleted _ _ => exact (unfinished_none rfl).inv
  | cached _ ih => exact inv_congr (volume_setFile _ _) ih

/-- **A call that returns leaves a whole disk of a box's size, and no call touches a
finished one**: in every state that calls, failed and killed ones among them, may lead to
from a pool without a volume, or with a finished one that holds the pinned seed. -/
theorem ensureDiskVolume_spec {diskGib : ℕ} (hinv : h₀.Inv images) (hr : Runs images h₀ h)
    (hgib : MIN_DISK_GIB ≤ diskGib) :
    (∀ h', (ensureDiskVolume diskGib).Ends (tools images) h (.returned ()) h' →
      ∃ v, h'.volume = some v ∧ v.Finished ∧ v.Verified images) ∧
    (h.Finished → ∀ o h', (ensureDiskVolume diskGib).Ends (tools images) h o h' →
      h'.volume = h.volume) ∧
    ∀ c t, (ensureDiskVolume diskGib).Issued (tools images) h c t → Allowed images c t := by
  have hcall := wpIn_iff.mp (wpIn_ensureDiskVolume hgib (inv_of_runs hinv hr))
  refine ⟨fun h' hends => hcall.2 _ h' hends, fun hfin o h' hends => ?_, hcall.1⟩
  have hpost := (wpIn_iff.mp (quiet_ensureDiskVolume hfin)).2 o h' hends
  cases o with
  | returned a => exact hpost.1
  | raised e => exact hpost
  | killed => exact hpost

/-- Images of which only `[1]` is the pinned seed. -/
def oneByteSeed : Images where
  sha512 bytes := if bytes = [1] then SEED_SHA512 else []
  virtualSize bytes := bytes.length
  length_lt bytes h := by
    split_ifs at h with hone
    · rw [hone]
      decide
    · exact absurd h (by decide)
  virtualSize_lt bytes h := by
    split_ifs at h with hone
    · rw [hone]
      decide
    · exact absurd h (by decide)

/-- A host without a volume that has the seed in its cache. -/
def cachedHost : Host := ⟨none, some [1], none⟩

/-- The same host with a volume whose upload stopped part-way. -/
def tornHost : Host := { cachedHost with volume := some ⟨1, .torn⟩ }

/-- A call that is killed in its upload. -/
theorem ensureDiskVolume_cachedHost :
    (ensureDiskVolume 100).Ends (tools oneByteSeed) cachedHost .killed tornHost := by
  refine .inr ⟨some false, _, ⟨rfl, rfl⟩, .inr (.inr ⟨some (), _, rfl, .inr ?_⟩)⟩
  refine .inr ⟨some true, _, ⟨rfl, rfl⟩, .inr (.inr ⟨some SEED_SHA512, _, ⟨[1], rfl, rfl, rfl⟩, .inr ?_⟩)⟩
  refine .inr ⟨some 1, _, ⟨[1], rfl, rfl, rfl⟩, .inr (.inr ⟨some (), _, ⟨rfl, rfl⟩, .inr ?_⟩)⟩
  exact .inr ⟨none, tornHost, .inr (.inr ⟨_, [1], 1, rfl, rfl, .inl rfl, rfl⟩), .inl ⟨rfl, rfl⟩⟩

/-- The next call finds the volume unfinished and builds it again. -/
theorem ensureDiskVolume_tornHost :
    (ensureDiskVolume 100).Ends (tools oneByteSeed) tornHost (.returned ())
      { cachedHost with volume := some ⟨100 * GIB, .image [1]⟩ } := by
  refine .inr ⟨some true, _, ⟨rfl, rfl⟩, .inr (.inr ⟨some 1, _, ⟨_, rfl, rfl, rfl⟩, .inr ?_⟩)⟩
  refine .inr ⟨some (), _, rfl, .inr (.inr ⟨some (), _, ⟨rfl, rfl⟩, .inr (.inr ⟨some (), _, rfl, .inr ?_⟩)⟩)⟩
  refine .inr ⟨some true, _, ⟨rfl, rfl⟩, .inr (.inr ⟨some SEED_SHA512, _, ⟨[1], rfl, rfl, rfl⟩, .inr ?_⟩)⟩
  refine .inr ⟨some 1, _, ⟨[1], rfl, rfl, rfl⟩, .inr (.inr ⟨some (), _, ⟨rfl, rfl⟩, .inr ?_⟩)⟩
  refine .inr ⟨some (), _, ⟨_, [1], rfl, rfl, rfl⟩, .inr (.inr ⟨some (), _, ⟨_, rfl, ?_, rfl⟩, .inr ?_⟩)⟩
  · decide
  · exact ⟨rfl, rfl⟩

theorem ensureDiskVolume_spec_sample :
    (ensureDiskVolume 100).Ends (tools oneByteSeed) cachedHost .killed tornHost ∧
      ∃ v, some (⟨100 * GIB, .image [1]⟩ : Volume) = some v ∧ v.Finished ∧ v.Verified oneByteSeed :=
  ⟨ensureDiskVolume_cachedHost, (ensureDiskVolume_spec (unfinished_none rfl).inv
    (.call 100 .refl (by decide) ensureDiskVolume_cachedHost) (by decide)).1 _ ensureDiskVolume_tornHost⟩

end Disk
