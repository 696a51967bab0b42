/-
# When the cidata volume holds what was asked

Every call of `sync_cidata` that rebuilds leaves the volume and the staged copy with
its files, wherever it was started (`wp_syncCidata`).  A call that trusts the staged
copy is right exactly when the volume holds what the copy reads as.  A rebuild that
is cut off after it touched the volume and before it took the old staged copy away
leaves the two apart, and the next call for the old files returns over it.
-/
import Yolobox.Libvirt.Cidata

open Script Utf8

namespace Cidata

variable {files : Files} {h₀ h : Host}

/-! ## The rules for one step -/

/-- The steps that only look. -/
def Cmd.looks : Cmd → Bool
  | .readTextFile _ | .volumeExists | .dirExists _ | .isoSize | .isoExists => true
  | _ => false

theorem eq_of_does_looks {c : Cmd} (hc : c.looks = true) {t : Host} {a : Answer c}
    (hd : does c h a t) : t = h := by
  cases c <;> first
    | (simp [Cmd.looks] at hc; done)
    | exact hd.2

theorem eq_of_fails_looks {c : Cmd} (hc : c.looks = true) {t : Host} (hf : fails c h t) :
    t = h := by
  rcases hf with rfl | ⟨a, hd⟩ | hl
  · rfl
  · exact eq_of_does_looks hc hd
  · cases c <;> first
      | (simp [Cmd.looks] at hc; done)
      | exact hl.elim

theorem staged_of_staging {t : Host} (hs : t.staging = h.staging) (n : Name) :
    t.staged n = h.staged n := by
  rw [Host.staged, Host.staged, hs]

/-- A directory left by its removal holds nothing new. -/
theorem staged_setDir {p : Place} {d' : Option Dir}
    (hd : ∀ n bytes, (d'.bind fun d => d n) = some bytes →
      ((h.dir p).bind fun d => d n) = some bytes)
    {n : Name} {bytes : List Byte} (hn : (h.setDir p d').staged n = some bytes) :
    h.staged n = some bytes := by
  cases p with
  | staging => exact hd n bytes hn
  | building => exact hn

/-- Only the rename puts anything into the staged copy. -/
theorem staged_of_does {c : Cmd} (hc : c ≠ .rename) {t : Host} {a : Answer c}
    (hd : does c h a t) {n : Name} {bytes : List Byte} (hn : t.staged n = some bytes) :
    h.staged n = some bytes := by
  cases c with
  | rename => exact absurd rfl hc
  | rmtree p =>
    obtain ⟨-, rfl⟩ := hd
    exact staged_setDir (by simp) hn
  | privateDir =>
    obtain rfl := hd
    exact hn
  | atomicWrite n text =>
    obtain ⟨d, bytes, -, -, rfl⟩ := hd
    exact hn
  | xorriso =>
    obtain ⟨d, -, rfl⟩ := hd
    exact hn
  | volUpload =>
    obtain ⟨-, -, rfl⟩ := hd
    exact hn
  | volDelete | volCreate | unlinkIso =>
    obtain ⟨-, rfl⟩ := hd
    exact hn
  | _ =>
    obtain ⟨-, rfl⟩ := hd
    exact hn

theorem staged_of_fails {c : Cmd} (hc : c ≠ .rename) {t : Host} (hf : fails c h t) {n : Name}
    {bytes : List Byte} (hn : t.staged n = some bytes) : h.staged n = some bytes := by
  rcases hf with rfl | ⟨a, hd⟩ | hl
  · exact hn
  · exact staged_of_does hc hd hn
  · cases c with
    | rmtree p =>
      obtain ⟨d, d', hdir, hsub, rfl⟩ := hl
      refine staged_setDir (fun m bytes hm => ?_) hn
      rw [hdir]
      rcases hsub m with heq | hnone
      · exact heq.symm.trans hm
      · exact absurd hm (by simp [hnone])
    | xorriso =>
      obtain rfl := hl
      exact hn
    | volUpload =>
      obtain ⟨-, v, rfl⟩ := hl
      exact hn
    | _ => exact hl.elim

/-- Every staged file is one of before the call or one of the call's own. -/
def Host.From (files : Files) (h₀ t : Host) : Prop :=
  ∀ n bytes, t.staged n = some bytes → h₀.staged n = some bytes ∨ encode (files n) = some bytes

/-- What is asked of a piece of the call: nothing foreign gets into the staged copy
however it ends, and `R` when it returns. -/
def keeps {α : Type} (files : Files) (h₀ : Host) (R : α → Host → Prop) : Post Unit α Host where
  returned := fun a t => h₀.From files t ∧ R a t
  raised := fun _ t => h₀.From files t
  killed := fun t => h₀.From files t

theorem wp_keeps_seq {α β : Type} {p : Py α} {f : α → Py β} {R : α → Host → Prop}
    {R' : β → Host → Prop} (hp : p.wp tools (keeps files h₀ R) h)
    (hf : ∀ a t, h₀.From files t → R a t → (f a).wp tools (keeps files h₀ R') t) :
    (p.bind f).wp tools (keeps files h₀ R') h :=
  wp_seq (wp_mono hp (fun a t hr => hf a t hr.1 hr.2) (fun _ _ hr => hr) fun _ hk => hk)

/-- **The rule for a step**, but the rename. -/
theorem wp_py {c : Cmd} (hc : c ≠ .rename) (hfrom : h₀.From files h) {R : Answer c → Host → Prop}
    (hdoes : ∀ a t, does c h a t → R a t) : (py c).wp tools (keeps files h₀ R) h := by
  rw [py, wp_cmd]
  refine ⟨hfrom, fun a t hd => ?_, fun t hf => ?_⟩
  · have ht : h₀.From files t := fun n bytes hn => hfrom n bytes (staged_of_does hc hd hn)
    exact ⟨ht, ht, hdoes a t hd⟩
  · have ht : h₀.From files t := fun n bytes hn => hfrom n bytes (staged_of_fails hc hf hn)
    exact ⟨ht, ht⟩

/-- The rule for a step that only looks. -/
theorem wp_look {c : Cmd} (hc : c.looks = true) (hfrom : h₀.From files h)
    {R : Answer c → Host → Prop} (hdoes : ∀ a, does c h a h → R a h) :
    (py c).wp tools (keeps files h₀ R) h := by
  refine wp_py (fun hr => ?_) hfrom fun a t hd => ?_
  · rw [hr] at hc
    cases hc
  · obtain rfl := eq_of_does_looks hc hd
    exact hdoes a hd

/-! ## The rules for the functions -/

theorem wp_readStaged (hfrom : h₀.From files h) (ns : List Name) (staged₀ : Name → Option PyStr) :
    (readStaged ns staged₀).wp tools (keeps files h₀ fun staged t =>
      t = h ∧ ∀ n, staged n = staged₀ n ∨ staged n = (h.staged n).map readText) h := by
  induction ns generalizing staged₀ with
  | nil => exact ⟨hfrom, rfl, fun n => .inl rfl⟩
  | cons n ns ih =>
    refine wp_keeps_seq (R := fun text t => t = h ∧ text = (h.staged n).map readText)
      (wp_look rfl hfrom fun text hd => ⟨rfl, hd.1⟩) ?_
    rintro text t - ⟨rfl, htext⟩
    cases text with
    | none => exact ⟨hfrom, rfl, fun n => .inl rfl⟩
    | some text =>
      refine wp_mono (ih (Function.update staged₀ n (some text))) (fun staged t hr => ?_)
        (fun _ _ hr => hr) fun _ hk => hk
      obtain ⟨ht, rfl, hr⟩ := hr
      refine ⟨ht, rfl, fun m => ?_⟩
      rcases hr m with hm | hm
      · by_cases hmn : m = n
        · subst hmn
          right
          rw [hm, Function.update_self, htext]
        · left
          rw [hm, Function.update_of_ne hmn]
      · exact .inr hm

theorem wp_rmtreeIfExists (hfrom : h₀.From files h) (p : Place) :
    (rmtreeIfExists p).wp tools (keeps files h₀ fun _ t => t = h.setDir p none) h := by
  refine wp_keeps_seq (wp_look rfl hfrom fun there hd => ⟨rfl, hd.1⟩)
    (R := fun there t => t = h ∧ there = (h.dir p).isSome) ?_
  rintro there t - ⟨rfl, hthere⟩
  cases there with
  | true => exact wp_py (by simp) hfrom fun _ t hd => hd.2
  | false =>
    have hnone : t.dir p = none := by simpa using hthere.symm
    refine ⟨hfrom, ?_⟩
    cases p <;> simp [Host.setDir, Host.dir] at hnone ⊢ <;> rw [← hnone]

theorem wp_createVolume (hfrom : h₀.From files h) (size : ℕ) :
    (createVolume size).wp tools (keeps files h₀ fun _ t => t = { h with volume := h.iso }) h := by
  refine wp_keeps_seq (wp_py (by simp) hfrom fun _ t hd => hd.2)
    (R := fun _ t => t = { h with volume := some .torn }) ?_
  rintro _ t ht rfl
  refine wp_seq ?_
  rw [wp_caught]
  refine wp_mono (wp_py (c := .volUpload) (by simp) ht fun _ u hd => hd.2.2) ?_ ?_ ?_
  · exact fun _ u hu => hu
  · intro _ u hu
    refine ⟨hu, fun r v hv => ?_⟩
    have hv' : h₀.From files v := by
      cases r with
      | some a =>
        have hd : does .volDelete u a v := hv
        exact fun n bytes hn => hu n bytes (staged_of_does (by simp) hd hn)
      | none =>
        have hf : fails .volDelete u v := hv
        exact fun n bytes hn => hu n bytes (staged_of_fails (by simp) hf hn)
    exact ⟨hv', hv'⟩
  · exact fun _ hk => hk

/-- The files of the call, as a directory holds them. -/
def Written (files : Files) (d : Dir) (n : Name) : Prop := (d n).isSome ∧ d n = encode (files n)

theorem wp_writes {d : Dir} (hfrom : h₀.From files h) (hb : h.building = some d) (ns : List Name)
    (hns : ∀ n, n ∈ ns ∨ Written files d n) :
    (Script.each ns fun n => py (.atomicWrite n (files n))).wp tools
      (keeps files h₀ fun _ t => ∃ d, t.building = some d ∧ ∀ n, Written files d n) h := by
  induction ns generalizing h d with
  | nil => exact ⟨hfrom, d, hb, fun n => (hns n).resolve_left (by simp)⟩
  | cons m ns ih =>
    refine wp_keeps_seq (wp_py (by simp) hfrom fun _ t hd => hd) ?_
    rintro _ t ht ⟨d', bytes, hb', henc, rfl⟩
    obtain rfl : d = d' := by simpa [hb] using hb'
    refine ih ht rfl fun n => ?_
    by_cases hn : n = m
    · subst hn
      exact .inr ⟨by simp, by simp [henc]⟩
    · rcases hns n with hmem | hdone
      · exact .inl ((List.mem_cons.mp hmem).resolve_left hn)
      · refine .inr ?_
        rw [Written, Function.update_of_ne hn]
        exact hdone

/-- The volume and the staged copy hold the files of the call. -/
def Host.Synced (t : Host) (files : Files) : Prop :=
  ∃ d, t.volume = some (.image d) ∧ t.staging = some d ∧ ∀ n, Written files d n

theorem wp_rename {d : Dir} (hfrom : h₀.From files h) (hb : h.building = some d)
    (hd : ∀ n, Written files d n) (hv : h.volume = some (.image d)) :
    (py .rename).wp tools (keeps files h₀ fun _ t => t.Synced files) h := by
  have hdone : ∀ a t, does .rename h a t → h₀.From files t ∧ t.Synced files := by
    rintro _ t ⟨d', hb', -, rfl⟩
    obtain rfl : d = d' := by simpa [hb] using hb'
    refine ⟨fun n bytes hn => .inr ?_, d, hv, rfl, hd⟩
    exact (hd n).2.symm.trans hn
  rw [py, wp_cmd]
  refine ⟨hfrom, fun a t ht => ⟨(hdone a t ht).1, hdone a t ht⟩, fun t ht => ?_⟩
  rcases ht with rfl | ⟨a, ht⟩ | hl
  · exact ⟨hfrom, hfrom⟩
  · exact ⟨(hdone a t ht).1, (hdone a t ht).1⟩
  · exact hl.elim

theorem wp_build (hfrom : h₀.From files h) :
    (build files).wp tools (keeps files h₀ fun _ t => t.Synced files) h := by
  unfold build
  refine wp_keeps_seq (wp_py (by simp) hfrom fun _ t hd => ?_)
    (R := fun _ t => ∃ d, t.building = some d) ?_
  · obtain rfl := hd
    exact ⟨_, rfl⟩
  rintro _ h₁ hfrom ⟨d, hb⟩
  refine wp_keeps_seq (wp_writes hfrom hb cidataFiles fun n => .inl (mem_cidataFiles n)) ?_
  clear hb d
  rintro _ h₂ hfrom ⟨d, hb, hd⟩
  refine wp_keeps_seq (wp_py (by simp) hfrom fun _ t hx => ?_)
    (R := fun _ t => t.building = some d ∧ t.iso = some (.image d)) ?_
  · obtain ⟨d', hb', rfl⟩ := hx
    obtain rfl : d = d' := by simpa [hb] using hb'
    exact ⟨hb, rfl⟩
  rintro _ h₃ hfrom ⟨hb, hiso⟩
  refine wp_keeps_seq (wp_look rfl hfrom fun there _ => rfl) (R := fun _ t => t = h₃) ?_
  rintro there _ - rfl
  refine wp_keeps_seq (R := fun _ t => t.building = some d ∧ t.iso = some (.image d)) ?_ ?_
  · cases there with
    | true =>
      refine wp_py (by simp) hfrom fun _ t ht => ?_
      obtain ⟨-, rfl⟩ := ht
      exact ⟨hb, hiso⟩
    | false => exact ⟨hfrom, hb, hiso⟩
  clear hb hiso
  rintro _ h₄ hfrom ⟨hb, hiso⟩
  refine wp_keeps_seq (wp_look rfl hfrom fun size _ => rfl) (R := fun _ t => t = h₄) ?_
  rintro size _ - rfl
  refine wp_keeps_seq (wp_createVolume hfrom size) ?_
  rintro _ h₅ hfrom rfl
  refine wp_keeps_seq (wp_rmtreeIfExists hfrom .staging) ?_
  rintro _ h₆ hfrom rfl
  exact wp_rename hfrom hb hd hiso

theorem wp_cleanUp (hfrom : h₀.From files h) :
    cleanUp.wp tools
      (keeps files h₀ fun _ t => t.volume = h.volume ∧ t.staging = h.staging) h := by
  unfold cleanUp
  refine wp_keeps_seq (wp_look rfl hfrom fun there _ => rfl) (R := fun _ t => t = h) ?_
  rintro there _ - rfl
  rename_i h
  refine wp_keeps_seq (R := fun _ t => t.volume = h.volume ∧ t.staging = h.staging) ?_ ?_
  · cases there with
    | true =>
      refine wp_py (by simp) hfrom fun _ t ht => ?_
      obtain ⟨-, rfl⟩ := ht
      exact ⟨rfl, rfl⟩
    | false => exact ⟨hfrom, rfl, rfl⟩
  rintro _ t ht ⟨hv, hs⟩
  refine wp_mono (wp_rmtreeIfExists ht .building) (fun _ u hu => ?_) (fun _ _ hr => hr)
    fun _ hk => hk
  obtain ⟨hu, rfl⟩ := hu
  exact ⟨hu, hv, hs⟩

/-- The staged copy reads as the files of the call. -/
def Host.ReadsAs (h : Host) (files : Files) : Prop :=
  ∀ n, (h.staged n).map readText = some (files n)

/-- **One call.**  However it ends the staged copy holds nothing but files of before
and its own; it returns over a volume that it rebuilt, or over one that it found
beside a staged copy that reads as its files. -/
theorem wp_syncCidata :
    (syncCidata files).wp tools (keeps files h fun _ t =>
      t.Synced files ∨ t = h ∧ h.volume.isSome ∧ h.ReadsAs files) h := by
  have hfrom : h.From files h := fun n bytes hn => .inl hn
  unfold syncCidata
  refine wp_keeps_seq (wp_readStaged hfrom cidataFiles fun _ => none) ?_
  rintro staged _ - ⟨rfl, hstaged⟩
  rename_i h
  refine wp_keeps_seq
    (R := fun current t => t = h ∧ (current = true → h.volume.isSome ∧ h.ReadsAs files)) ?_ ?_
  · unfold current
    split_ifs with hall
    · refine wp_look rfl hfrom fun there hd => ⟨rfl, fun ht => ⟨hd.1 ▸ ht, fun n => ?_⟩⟩
      have hn := List.all_eq_true.mp hall n (mem_cidataFiles n)
      rw [beq_iff_eq] at hn
      rcases hstaged n with h' | h'
      · exact absurd (hn.symm.trans h') (by simp)
      · exact h'.symm.trans hn
    · exact ⟨hfrom, rfl, by simp⟩
  rintro current _ - ⟨rfl, hcurrent⟩
  rename_i h
  cases current with
  | true => exact ⟨hfrom, .inr ⟨rfl, hcurrent rfl⟩⟩
  | false =>
    refine wp_keeps_seq (wp_rmtreeIfExists hfrom .building) ?_
    rintro _ t ht -
    refine wp_seq ?_
    rw [wp_caught]
    refine wp_mono (wp_build ht) (fun _ u hu => ?_) (fun _ u hu => ?_) fun _ hk => hk
    · obtain ⟨hu, d, hv, hs, hd⟩ := hu
      refine wp_keeps_seq (wp_cleanUp hu) ?_
      rintro _ v hv' ⟨hvol, hstg⟩
      exact ⟨hv', .inl ⟨d, hvol.trans hv, hstg.trans hs, hd⟩⟩
    · refine wp_keeps_seq (wp_cleanUp hu) ?_
      rintro _ v hv' -
      exact hv'

/-! ## When a returning call is right -/

theorem newlines_of_not_mem {text : PyStr} (h : 13 ∉ text) : newlines text = text := by
  induction text with
  | nil => rfl
  | cons c text ih =>
    rw [List.mem_cons, not_or] at h
    have hc : c ≠ 13 := fun hc => h.1 hc.symm
    rw [newlines, if_neg hc, ih h.2]
    · simp [hc]

/-- Text without a carriage return is read back as it was written. -/
theorem encode_readText {bytes : List Byte} (h : Fin.ofNat 256 13 ∉ bytes) :
    encode (readText bytes) = some bytes := by
  have hcr : 13 ∉ decode bytes := fun hm => h ((ascii_mem_decode (by decide) bytes).mp hm)
  rw [readText, newlines_of_not_mem hcr, encode_decode]

/-- The staged copy reads as some files, and the volume beside it holds something
else. -/
def Host.Misread (h : Host) : Prop :=
  ∃ files, h.ReadsAs files ∧ h.volume.isSome ∧ ¬ h.Carries files

/-- A call that trusts the staged copy goes through. -/
theorem syncCidata_of_readsAs (hr : h.ReadsAs files) (hv : h.volume.isSome = true) :
    (syncCidata files).interp (handle fun _ => false) h = (.ok (), h) := by
  have h1 := hr .userData
  have h2 := hr .metaData
  have h3 := hr .limaEnv
  have h4 := hr .etcEnvironment
  simp [syncCidata, readStaged, cidataFiles, current, py, cmd, interp, handle, h1, h2, h3, h4, hv]

/-- **One call is right from any state but a misread one.** -/
theorem syncCidata_carries_iff :
    (∀ files h', (syncCidata files).Ends tools h (.returned ()) h' → h'.Carries files) ↔
      ¬ h.Misread := by
  constructor
  · rintro hall ⟨files, hr, hv, hnot⟩
    have hends := ends_interp (handle_tools fun _ => false) (syncCidata files) h
    rw [syncCidata_of_readsAs hr hv] at hends
    exact hnot (hall files h hends)
  · intro hmis files h' hends
    obtain ⟨-, ⟨d, hv, -, hd⟩ | ⟨rfl, hv, hr⟩⟩ := wp_iff.mp wp_syncCidata _ _ hends
    · exact ⟨d, hv, hd⟩
    · by_contra hnot
      exact hmis ⟨files, hr, hv, hnot⟩

/-! ## Any number of calls -/

/-- A whole staged copy beside a volume that was not built from it. -/
def Host.Stale (h : Host) : Prop :=
  ∃ d v, h.staging = some d ∧ (∀ n, (d n).isSome) ∧ h.volume = some v ∧ v ≠ .image d

/-- The hosts that calls lead to whose texts have no carriage return, none of them
cut off with the staged copy stale. -/
inductive Runs : Host → Prop
  | start : Runs .empty
  | call {h h' : Host} {files : Files} {o : Outcome Unit Unit} :
      Runs h → (∀ n, 13 ∉ files n) → (syncCidata files).Ends tools h o h' →
      (o = .returned () ∨ ¬ h'.Stale) → Runs h'

/-- What holds between calls. -/
structure Inv (h : Host) : Prop where
  fresh : ¬ h.Stale
  clean : ∀ n bytes, h.staged n = some bytes → Fin.ofNat 256 13 ∉ bytes

theorem Inv.not_misread (hi : Inv h) : ¬ h.Misread := by
  rintro ⟨files, hr, hv, hnot⟩
  obtain ⟨v, hv⟩ := Option.isSome_iff_exists.mp hv
  cases hs : h.staging with
  | none =>
    have hn := hr .userData
    simp [Host.staged, hs] at hn
  | some d =>
    have hfile : ∀ n, ∃ bytes, d n = some bytes ∧ readText bytes = files n := fun n => by
      have hn := hr n
      rw [Host.staged, hs] at hn
      exact Option.map_eq_some_iff.mp hn
    have himage : v = .image d := by
      by_contra hne
      refine hi.fresh ⟨d, v, hs, fun n => ?_, hv, hne⟩
      obtain ⟨bytes, hb, -⟩ := hfile n
      rw [hb]
      rfl
    refine hnot ⟨d, himage ▸ hv, fun n => ?_⟩
    obtain ⟨bytes, hb, hread⟩ := hfile n
    have hclean : Fin.ofNat 256 13 ∉ bytes := hi.clean n bytes (by rw [Host.staged, hs]; exact hb)
    rw [← hread, encode_readText hclean, hb]
    exact ⟨rfl, rfl⟩

/-- **The run lemma.** -/
theorem inv_of_runs (hr : Runs h) : Inv h := by
  induction hr with
  | start =>
    refine ⟨?_, fun n bytes hn => by cases hn⟩
    rintro ⟨d, v, hs, -⟩
    cases hs
  | call _ hcr hends hcut ih =>
    rename_i h h' files o _
    have hpost := wp_iff.mp wp_syncCidata _ _ hends
    have hfrom : h.From files h' := by
      cases o with
      | returned _ => exact hpost.1
      | raised _ => exact hpost
      | killed => exact hpost
    refine ⟨?_, fun n bytes hn => ?_⟩
    · rcases hcut with rfl | hfresh
      · rcases hpost.2 with ⟨d, hv, hs, -⟩ | ⟨rfl, -⟩
        · rintro ⟨d', v, hs', -, hv', hne⟩
          obtain rfl : d = d' := by simpa [hs] using hs'
          exact hne (Option.some.inj (hv'.symm.trans hv))
        · exact ih.fresh
      · exact hfresh
    · rcases hfrom n bytes hn with hold | hnew
      · exact ih.clean n bytes hold
      · exact fun hm => hcr n ((ascii_mem_encode (by decide) hnew).mp hm)

/-- **Returning calls are right**: in every run whose texts have no carriage return
and in which no call was cut off with the staged copy stale.  From a single state
they are right exactly when it is not misread. -/
theorem syncCidata_carries (h : Host) :
    (Runs h → ∀ files h', (syncCidata files).Ends tools h (.returned ()) h' →
        h'.Carries files) ∧
      ((∀ files h', (syncCidata files).Ends tools h (.returned ()) h' → h'.Carries files) ↔
        ¬ h.Misread) :=
  ⟨fun hr => syncCidata_carries_iff.mpr (inv_of_runs hr).not_misread, syncCidata_carries_iff⟩

def filesA : Files := fun _ => lit "a"

def filesB : Files := fun _ => lit "b"

/-- The volume is created and the upload into it fails. -/
def uploadFails : Cmd → Bool
  | .volUpload => true
  | _ => false

/-- The second call fails at its upload; the third, with the same texts, goes through. -/
theorem syncCidata_carries_retried :
    ∃ h₁ h₂ h₃, (syncCidata filesA).Ends tools .empty (.returned ()) h₁ ∧
      (syncCidata filesB).Ends tools h₁ (.raised ()) h₂ ∧
      (syncCidata filesB).Ends tools h₂ (.returned ()) h₃ ∧ h₃.Carries filesB := by
  obtain ⟨h₁, h₂, h₃, hfirst, hcut, hlast, hvolume⟩ : ∃ h₁ h₂ h₃,
      (syncCidata filesA).Ends tools .empty (.returned ()) h₁ ∧
      (syncCidata filesB).Ends tools h₁ (.raised ()) h₂ ∧
      (syncCidata filesB).Ends tools h₂ (.returned ()) h₃ ∧ h₂.volume = none :=
    ⟨_, _, _, ends_interp (handle_tools fun _ => false) _ _, ends_interp (handle_tools uploadFails) _ _,
      ends_interp (handle_tools fun _ => false) _ _, rfl⟩
  have hreturnA : ∀ n, 13 ∉ filesA n := fun _ => (by decide : 13 ∉ lit "a")
  have hreturnB : ∀ n, 13 ∉ filesB n := fun _ => (by decide : 13 ∉ lit "b")
  have hfresh : ¬ h₂.Stale := by
    rintro ⟨-, v, -, -, hv, -⟩
    exact absurd (hvolume.symm.trans hv) nofun
  have hruns : Runs h₂ := .call (.call .start hreturnA hfirst (.inl rfl)) hreturnB hcut (.inr hfresh)
  exact ⟨h₁, h₂, h₃, hfirst, hcut, hlast, (syncCidata_carries h₂).1 hruns filesB h₃ hlast⟩

/-! ## The defect -/

/-- The staged copy cannot be removed. -/
def rmtreeFails : Cmd → Bool
  | .rmtree .staging => true
  | _ => false

/-- **A call can return over another call's files**: the second call fails after its
upload, and the third finds the staged copy of the first and returns. -/
theorem syncCidata_stale :
    ∃ h₁ h₂ h₃, (syncCidata filesA).Ends tools .empty (.returned ()) h₁ ∧
      (syncCidata filesB).Ends tools h₁ (.raised ()) h₂ ∧
      (syncCidata filesA).Ends tools h₂ (.returned ()) h₃ ∧ ¬ h₃.Carries filesA := by
  refine ⟨_, _, _, ends_interp (handle_tools fun _ => false) _ _,
    ends_interp (handle_tools rmtreeFails) _ _,
    ends_interp (handle_tools fun _ => false) _ _, ?_⟩
  rintro ⟨d, hv, hd⟩
  have hb : encode (filesB .userData) = d .userData :=
    congrFun (Content.image.inj (Option.some.inj hv)) .userData
  have ha : d .userData = encode (filesA .userData) := (hd .userData).2
  exact absurd (hb.trans ha) (by decide)

end Cidata
