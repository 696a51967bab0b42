/-
# Any number of interrupted encryptions

Every run of `yolobox-luks-migrate` keeps the invariant `Good`, however it ends, and
on a good day it goes through to the label (`wp_migrate`).  The proof follows the
script: a rule for each kind of command, then one for each function.  So the
invariant holds after any number of runs cut off anywhere (`good_of_reach`), and the
next run completes what is there (`resumable`).
-/
import Yolobox.Luks.Disk

open Script

namespace Migrate

variable {dev : Device} {day : Option PyStr} {d : Disk}

/-! ## The rules for one command -/

/-- **The rule for a command under `errexit`.** -/
theorem wp_sh {c : Cmd} {Q : Post ℕ (Answer c) Disk} (hkill : Q.killed d)
    (hdoes : ∀ a t, does dev c d a t → (∀ key, day = some key → answersWith key c a) →
      Q.killed t ∧ Q.returned a t)
    (hfails : ∀ t, fails dev c d t → Q.killed t ∧ (day = none → Q.raised errexit t))
    (hcan : day ≠ none → ∃ a t, does dev c d a t) : (sh c).wp (tools dev day) Q d := by
  rw [sh, wp_cmd]
  refine ⟨hkill, fun a t ht => hdoes a t ht.1 ht.2, fun t ht => ⟨(hfails t ht.1).1, ?_⟩⟩
  by_cases hday : day = none
  · exact (hfails t ht.1).2 hday
  · obtain ⟨a, t', hd⟩ := hcan hday
    exact absurd hd (ht.2 hday a t')

/-- **The rule for a command that only looks.** -/
theorem wp_look {c : Cmd} (hc : c.looks = true) {Q : Post ℕ (Answer c) Disk}
    (hkill : Q.killed d) (hraise : day = none → Q.raised errexit d)
    (hdoes : ∀ a, does dev c d a d → (∀ key, day = some key → answersWith key c a) →
      Q.returned a d)
    (hcan : day ≠ none → ∃ a, does dev c d a d) : (sh c).wp (tools dev day) Q d := by
  refine wp_sh hkill (fun a t ht hk => ?_) (fun t ht => ?_)
    (fun h => (hcan h).imp fun a ha => ⟨d, ha⟩)
  · obtain rfl := eq_of_does_looks dev hc ht
    exact ⟨hkill, hdoes a ht hk⟩
  · obtain rfl := eq_of_fails_looks dev hc ht
    exact ⟨hkill, hraise⟩

/-- The rule for a command that only looks, where `errexit` does not. -/
theorem wp_tryLook {c : Cmd} (hc : c.looks = true) {Q : Post ℕ (Option (Answer c)) Disk}
    (hkill : Q.killed d) (hdoes : ∀ a, does dev c d a d → Q.returned (some a) d)
    (hfails : (day ≠ none → ∀ a, ¬ does dev c d a d) → Q.returned none d) :
    (trySh c).wp (tools dev day) Q d := by
  rw [trySh, wp_attempt]
  refine ⟨hkill, fun r t ht => ?_⟩
  cases r with
  | some a =>
    obtain rfl := eq_of_does_looks dev hc ht.1
    exact ⟨hkill, hdoes a ht.1⟩
  | none =>
    obtain rfl := eq_of_fails_looks dev hc ht.1
    exact ⟨hkill, hfails fun h a => ht.2 h a t⟩

/-- A checked numeral. -/
theorem wp_requirePositiveInt {text : PyStr} {Q : Post ℕ Unit Disk}
    (hok : isPositiveInt text = true → Q.returned () d)
    (hbad : isPositiveInt text = false → Q.raised errexit d) :
    (requirePositiveInt text).wp (tools dev day) Q d := by
  unfold requirePositiveInt
  split_ifs with h
  · exact hok h
  · exact hbad (by simpa using h)

theorem wp_fsckOk {on : Dev} {Q : Post ℕ Unit Disk} (hkill : Q.killed d)
    (hret : Q.returned () d) (hraise : day = none → Q.raised 4 d)
    (hon : day ≠ none → d.accessible on) : (fsckOk on).wp (tools dev day) Q d := by
  rw [fsckOk, bind_eq, wp_bind]
  refine wp_tryLook rfl hkill (fun rc hrc => ?_) (fun hcannot => ?_)
  · obtain ⟨-, hle, -⟩ := hrc
    change wp _ (if rc > 2 then _ else _) Q d
    rw [if_neg (Nat.not_lt.mpr hle)]
    exact hret
  · change Q.raised 4 d
    by_cases hday : day = none
    · exact hraise hday
    · exact absurd ⟨hon hday, Nat.zero_le 2, rfl⟩ (hcannot hday (0 : ℕ))

/-! ## The rules for the functions -/

/-- What is asked of a piece of the script: the invariant however it ends, `R` when
it returns, and on a good day no failure but one in `E`. -/
def keeps {α : Type} (dev : Device) (day : Option PyStr) (E : ℕ → Disk → Prop)
    (R : α → Disk → Prop) : Post ℕ α Disk where
  returned := fun a t => Good dev t ∧ R a t
  raised := fun e t => Good dev t ∧ (day ≠ none → E e t)
  killed := Good dev

def never : ℕ → Disk → Prop := fun _ _ => False

/-- The refusal of a disk that has no room for the header. -/
def tooFull : ℕ → Disk → Prop := fun e t => e = 7 ∧ t.format = .ext4

theorem wp_keeps_mono {α : Type} {p : Sh α} {E : ℕ → Disk → Prop} {R R' : α → Disk → Prop}
    (h : p.wp (tools dev day) (keeps dev day never R) d) (hR : ∀ a t, R a t → R' a t) :
    p.wp (tools dev day) (keeps dev day E R') d :=
  wp_mono h (fun a t hr => ⟨hr.1, hR a t hr.2⟩)
    (fun _ _ he => ⟨he.1, fun hd => (he.2 hd).elim⟩) fun _ hk => hk

/-- The rule of sequencing, for what keeps the invariant. -/
theorem wp_keeps_seq {α β : Type} {p : Sh α} {f : α → Sh β} {E E' : ℕ → Disk → Prop}
    {R : α → Disk → Prop} {R' : β → Disk → Prop}
    (hp : p.wp (tools dev day) (keeps dev day E R) d) (hE : ∀ e t, E e t → E' e t)
    (hf : ∀ a t, Good dev t → R a t → (f a).wp (tools dev day) (keeps dev day E' R') t) :
    (p.bind f).wp (tools dev day) (keeps dev day E' R') d :=
  wp_seq (wp_mono hp (fun a t h => hf a t h.1 h.2)
    (fun e t h => ⟨h.1, fun hd => hE e t (h.2 hd)⟩) fun _ h => h)

/-- What a good day takes: no scratch mapping left open, and the passphrase that
opens the disk. -/
def Disk.ready (d : Disk) (key : PyStr) : Prop :=
  d.opened = false ∧ key ≠ [] ∧ (d.format ≠ .ext4 → key = d.key)

/-- The branch that completes what is there. -/
def Disk.branch (d : Disk) : Branch :=
  match d.format with
  | .ext4 => .encrypt
  | .reencrypting _ => .resume
  | .luks false => .finalize
  | .luks true => .done

/-- `detect_state` changes nothing, and the branch it names fits the disk. -/
theorem wp_detectState (hg : Good dev d) :
    detectState.wp (tools dev day)
      (keeps dev day never fun b t => t = d ∧ (day ≠ none → b = d.branch) ∧
        (b = .encrypt → d.format = .ext4) ∧
        (b = .resume → ∃ region, d.format = .reencrypting region) ∧
        (b = .finalize → ∃ labelled, d.format = .luks labelled) ∧
        (b = .done → d.format = .luks true)) d := by
  rw [detectState, bind_eq, wp_bind]
  refine wp_tryLook rfl hg (fun a ha => ?_) (fun hcannot => ?_)
  · -- a LUKS header
    have hluks : d.format ≠ .ext4 := ha.1
    simp only [reduceCtorEq, if_false, bind_eq, wp_bind]
    refine wp_look rfl hg (fun h => ⟨hg, fun hd => absurd h hd⟩) (fun dump hdump _ => ?_)
      (fun _ => ?_)
    · obtain ⟨-, -, hdump⟩ := hdump
      simp only
      split_ifs with hline
      · have hre := hdump.mp hline
        refine ⟨hg, rfl, fun _ => ?_, by simp, fun _ => hre, by simp, by simp⟩
        obtain ⟨region, hr⟩ := hre
        rw [Disk.branch, hr]
      · have hnot : ¬ ∃ region, d.format = .reencrypting region := fun h => hline (hdump.mpr h)
        have hf : ∃ labelled, d.format = .luks labelled := by
          cases hfmt : d.format with
          | ext4 => exact absurd hfmt hluks
          | reencrypting region => exact absurd ⟨region, hfmt⟩ hnot
          | luks labelled => exact ⟨labelled, rfl⟩
        have hlabel : ([] : PyStr) ≠ label := by decide
        rw [wp_bind]
        refine wp_tryLook rfl hg (fun found hfound => ?_) (fun hcannot => ?_)
        · simp only [Option.getD_some]
          split_ifs with hl
          · have hdone := hfound.1.mp hl
            refine ⟨hg, rfl, fun _ => ?_, by simp, by simp, by simp, fun _ => hdone⟩
            rw [Disk.branch, hdone]
          · have hnl : d.format ≠ .luks true := fun h => hl (hfound.1.mpr h)
            refine ⟨hg, rfl, fun _ => ?_, by simp, by simp, fun _ => hf, by simp⟩
            obtain ⟨labelled, hf⟩ := hf
            cases labelled with
            | false => rw [Disk.branch, hf]
            | true => exact absurd hf hnl
        · simp only [Option.getD_none, if_neg hlabel]
          refine ⟨hg, rfl, fun hd => ?_, by simp, by simp, fun _ => hf, by simp⟩
          by_cases hdone : d.format = .luks true
          · exact absurd ⟨by simp [hdone], rfl⟩ (hcannot hd label)
          · exact absurd ⟨by simp [hdone, hlabel], rfl⟩ (hcannot hd [])
    · by_cases hre : ∃ region, d.format = .reencrypting region
      · refine ⟨[lit "Requirements:\tonline-reencrypt"], hluks, rfl, ?_⟩
        have hline : isReencryptLine (lit "Requirements:\tonline-reencrypt") = true := by decide
        simp [hline, hre]
      · exact ⟨[], hluks, rfl, by simp [hre]⟩
  · -- no LUKS header, or a `cryptsetup isLuks` that could not tell
    simp only [if_true, bind_eq, wp_bind]
    have hext : day ≠ none → d.format = .ext4 := by
      intro hd
      by_contra hf
      exact hcannot hd () ⟨hf, rfl⟩
    refine wp_tryLook rfl hg (fun type htype => ?_) (fun hno => ?_)
    · simp only [Option.getD_some]
      split_ifs with hne
      · refine ⟨hg, fun hd => absurd ?_ hne⟩
        rw [htype.1, if_pos (hext hd)]
      · rw [ne_eq, not_not] at hne
        have hf : d.format = .ext4 := by
          by_contra hf
          rw [htype.1, if_neg hf] at hne
          exact absurd hne (by decide)
        refine ⟨hg, rfl, fun _ => ?_, fun _ => hf, by simp, by simp, by simp⟩
        rw [Disk.branch, hf]
    · change Good dev d ∧ _
      exact ⟨hg, fun hd => absurd ⟨rfl, rfl⟩ (hno hd _)⟩

theorem wp_readKey (hg : Good dev d) (hkey : ∀ k, day = some k → k ≠ []) :
    readKey.wp (tools dev day)
      (keeps dev day never fun key t => t = d ∧ ∀ k, day = some k → key = k) d := by
  rw [readKey, bind_eq, wp_bind]
  refine wp_look rfl hg (fun h => ⟨hg, fun hd => absurd h hd⟩) (fun key _ hgiven => ?_)
    (fun _ => ⟨[], rfl⟩)
  change wp _ (if (key : PyStr) = [] then _ else _) _ d
  split_ifs with hempty
  · refine ⟨hg, fun hd => ?_⟩
    obtain ⟨k, hk⟩ := Option.ne_none_iff_exists'.mp hd
    exact hkey k hk ((hgiven k hk).symm.trans hempty)
  · exact ⟨hg, rfl, hgiven⟩

/-- `encrypt` ends in LUKS without the label, or refuses a disk that is too full. -/
theorem wp_encrypt (hg : Good dev d) (hf : d.format = .ext4) (key : PyStr) :
    (encrypt key).wp (tools dev day)
      (keeps dev day tooFull fun _ t =>
        t.format = .luks false ∧ t.key = key ∧ t.opened = d.opened) d := by
  have hraise : day = none → ∀ e, Good dev d ∧ (day ≠ none → tooFull e d) :=
    fun h e => ⟨hg, fun hd => absurd h hd⟩
  unfold encrypt
  refine wp_seq ?_
  refine wp_fsckOk hg ?_ (fun h => hraise h 4) (fun _ => hf)
  refine wp_seq ?_
  refine wp_look rfl hg (fun h => hraise h _) (fun min hmin _ => ?_)
    (fun _ => ⟨dec dev.neededBlocks, hf, rfl, _, le_rfl, rfl⟩)
  obtain ⟨-, -, n, hn, rfl⟩ := hmin
  have hnpos : 0 < n := lt_of_lt_of_le dev.neededBlocks_pos hn
  refine wp_seq ?_
  refine wp_requirePositiveInt (fun _ => ?_)
    (fun h => absurd (isPositiveInt_dec hnpos) (by simp [h]))
  refine wp_seq ?_
  refine wp_look rfl hg (fun h => hraise h _) (fun bs hbs _ => ?_)
    (fun _ => ⟨dec dev.blockSize, hf, rfl, rfl⟩)
  obtain ⟨-, rfl, -⟩ := hbs
  refine wp_seq ?_
  refine wp_requirePositiveInt (fun _ => ?_)
    (fun h => absurd (isPositiveInt_dec dev.blockSize_pos) (by simp [h]))
  refine wp_seq ?_
  refine wp_look rfl hg (fun h => hraise h _) (fun total htotal _ => ?_)
    (fun _ => ⟨dec dev.total, rfl, rfl⟩)
  obtain ⟨rfl, -⟩ := htotal
  have htotal : 0 < dev.total := by
    have hs := hg.shape
    rw [hf] at hs
    exact lt_of_lt_of_le hg.fsBytes_pos hs
  refine wp_seq ?_
  refine wp_requirePositiveInt (fun _ => ?_)
    (fun h => absurd (isPositiveInt_dec htotal) (by simp [h]))
  have hnum := num_dec n
  have hnumbs := num_dec dev.blockSize
  have hnumtotal := num_dec dev.total
  dsimp only
  rw [hnum, hnumbs, hnumtotal]
  have hlt := lt_targetBlocks n
  have hregion := le_regionBytes (targetBlocks n) dev.blockSize
  generalize targetBlocks n = target at hlt hregion ⊢
  generalize regionBytes target dev.blockSize = region at hregion ⊢
  split_ifs with hneed
  · exact ⟨hg, fun _ => ⟨rfl, hf⟩⟩
  refine wp_seq ?_
  refine wp_sh hg (fun _ t ht _ => ?_) (fun t ht => ?_)
    (fun _ => ⟨(), { d with fsBlocks := target }, hf, target, rfl, by omega, by omega, rfl⟩)
  · -- shrunk, and now the reencryption
    obtain ⟨-, m, hm, hneeded, hfit, rfl⟩ := ht
    obtain rfl : target = m := hm
    have hg' : Good dev { d with fsBlocks := target } := by
      refine ⟨hg.intact, hneeded, hg.inDevice, ?_⟩
      simp only [hf]
      exact hfit
    have henc : Disk.encryptable dev { d with fsBlocks := target } region :=
      ⟨hregion, by omega⟩
    refine ⟨hg', ?_⟩
    change wp _ (sh (.reencrypt key region)) _ _
    refine wp_sh hg' (fun _ t ht _ => ?_) (fun t ht => ?_) (fun _ => ?_)
    · obtain ⟨-, p, hp, rfl⟩ := ht
      have hdone : Good dev { d with
          format := .luks false, key := key, plaintext := p, fsBlocks := target,
          intact := d.intact && true } := by
        refine ⟨by simp [hg.intact], hneeded, fun x hx => (hp x hx).1, ?_⟩
        have hbase := dev.offset_le
        simp only [Disk.fsBytes, Device.base]
        exact ⟨by omega, fun x hx => (hp x hx).2⟩
      rw [decide_eq_true henc]
      exact ⟨hdone, hdone, rfl, rfl, rfl⟩
    · rcases ht with rfl | ⟨-, p, hp, rfl⟩
      · exact ⟨hg', fun h => ⟨hg', fun hd => absurd h hd⟩⟩
      · have hmarked : Good dev { d with
            format := .reencrypting region, key := key, plaintext := p, fsBlocks := target,
            intact := d.intact && true } := by
          refine ⟨by simp [hg.intact], hneeded, hp, ?_⟩
          exact henc
        rw [decide_eq_true henc]
        exact ⟨hmarked, fun h => ⟨hmarked, fun hd => absurd h hd⟩⟩
    · exact ⟨(), _, hf, ∅, by simp [Disk.encryptedPlaintext], rfl⟩
  · obtain rfl : t = d := ht
    exact ⟨hg, fun h => hraise h _⟩

theorem wp_resume (hg : Good dev d) (hf : ∃ region, d.format = .reencrypting region)
    (key : PyStr) (hkey : day ≠ none → key = d.key) :
    (resume key).wp (tools dev day)
      (keeps dev day never fun _ t =>
        t.format = .luks false ∧ t.key = d.key ∧ t.opened = d.opened) d := by
  obtain ⟨region, hf⟩ := hf
  have henc : d.encryptable dev region := by
    have hs := hg.shape
    rwa [hf] at hs
  have hbase := dev.offset_le
  refine wp_sh hg (fun _ t ht _ => ?_) (fun t ht => ?_)
    (fun hd => ⟨(), _, hkey hd, region, ∅, hf, by simp [Disk.encryptedPlaintext], rfl⟩)
  · obtain ⟨-, r, p, hr, hp, rfl⟩ := ht
    obtain rfl : region = r := by simpa [hf] using hr
    have hdone : Good dev { d with format := .luks false, plaintext := p } := by
      refine ⟨hg.intact, hg.needed, fun x hx => (hp x hx).1, ?_⟩
      obtain ⟨hin, hout⟩ := henc
      simp only [Disk.fsBytes, Device.base] at hin ⊢
      exact ⟨by omega, fun x hx => (hp x hx).2⟩
    exact ⟨hdone, hdone, rfl, rfl, rfl⟩
  · rcases ht with rfl | ⟨r, p, hr, hp, rfl⟩
    · exact ⟨hg, fun h => ⟨hg, fun hd => absurd h hd⟩⟩
    · have hmarked : Good dev { d with plaintext := p } := by
        refine ⟨hg.intact, hg.needed, hp, ?_⟩
        simp only [hf]
        exact henc
      exact ⟨hmarked, fun h => ⟨hmarked, fun hd => absurd h hd⟩⟩

/-- What `discard_and_grow` is for: nothing left behind the header, and the
filesystem fills the mapping. -/
def Disk.GrownFrom (dev : Device) (d t : Disk) : Prop :=
  t.format = d.format ∧ t.key = d.key ∧ t.opened = true ∧
    (∀ x ∈ t.plaintext, x < dev.base) ∧ dev.total - dev.base < t.fsBytes dev + dev.blockSize

theorem wp_grow (hg : Good dev d) (hf : ∃ labelled, d.format = .luks labelled)
    (ho : d.opened = true) (hp : ∀ x ∈ d.plaintext, x < dev.base) :
    ((fsckOk .scratch).bind fun _ => sh (.resize2fs .scratch none)).wp (tools dev day)
      (keeps dev day never fun _ t => d.GrownFrom dev t) d := by
  have hraise : day = none → ∀ e, Good dev d ∧ (day ≠ none → never e d) :=
    fun h e => ⟨hg, fun hd => absurd h hd⟩
  have hbs := dev.blockSize_pos
  have hdiv := Nat.div_add_mod (dev.total - dev.base) dev.blockSize
  have hmod := Nat.mod_lt (dev.total - dev.base) hbs
  have hcomm := Nat.mul_comm dev.blockSize ((dev.total - dev.base) / dev.blockSize)
  refine wp_seq ?_
  refine wp_fsckOk hg ?_ (fun h => hraise h 4) (fun _ => ho)
  refine wp_sh hg (fun _ t ht _ => ?_) (fun t ht => ?_) (fun _ => ?_)
  · obtain ⟨-, n, hn, hneeded, hfit, rfl⟩ := ht
    obtain rfl : (dev.total - dev.base) / dev.blockSize = n := hn
    have hgrown := hg.grown hf hp hneeded hfit (by omega)
    refine ⟨hgrown, hgrown, rfl, rfl, ho, hp, ?_⟩
    simp only [Disk.fsBytes]
    omega
  · obtain rfl : t = d := ht
    exact ⟨hg, fun h => hraise h _⟩
  · obtain ⟨labelled, hf⟩ := hf
    have hin : d.fsBlocks * dev.blockSize ≤ dev.total - dev.base := by
      have hin := (hg.luks hf).1
      simp only [Disk.fsBytes] at hin
      omega
    have hneeded := hg.needed.trans ((Nat.le_div_iff_mul_le hbs).mpr hin)
    exact ⟨(), _, ho, _, rfl, hneeded, by simp only [Option.getD_none]; omega, rfl⟩

theorem wp_discardAndGrow (hg : Good dev d) (hf : ∃ labelled, d.format = .luks labelled)
    (ho : d.opened = true) :
    discardAndGrow.wp (tools dev day)
      (keeps dev day never fun _ t => d.GrownFrom dev t) d := by
  have hraise : day = none → ∀ e, Good dev d ∧ (day ≠ none → never e d) :=
    fun h e => ⟨hg, fun hd => absurd h hd⟩
  obtain ⟨labelled, hfmt⟩ := hf
  obtain ⟨hroom, hout⟩ := hg.luks hfmt
  have hpos := hg.fsBytes_pos
  unfold discardAndGrow
  refine wp_seq ?_
  refine wp_look rfl hg (fun h => hraise h _) (fun offset hoffset _ => ?_)
    (fun _ => ⟨dec dev.offsetSectors, ho, rfl, rfl⟩)
  obtain ⟨-, rfl, -⟩ := hoffset
  refine wp_seq ?_
  refine wp_requirePositiveInt (fun _ => ?_)
    (fun h => absurd (isPositiveInt_dec dev.offset_pos) (by simp [h]))
  refine wp_seq ?_
  refine wp_look rfl hg (fun h => hraise h _) (fun bs hbs _ => ?_)
    (fun _ => ⟨dec dev.blockSize, ho, rfl, rfl⟩)
  obtain ⟨-, rfl, -⟩ := hbs
  refine wp_seq ?_
  refine wp_requirePositiveInt (fun _ => ?_)
    (fun h => absurd (isPositiveInt_dec dev.blockSize_pos) (by simp [h]))
  refine wp_seq ?_
  refine wp_look rfl hg (fun h => hraise h _) (fun count hcount _ => ?_)
    (fun _ => ⟨dec d.fsBlocks, ho, rfl, rfl⟩)
  obtain ⟨-, rfl, -⟩ := hcount
  refine wp_seq ?_
  refine wp_requirePositiveInt (fun _ => ?_)
    (fun h => absurd (isPositiveInt_dec hg.fsBlocks_pos) (by simp [h]))
  refine wp_seq ?_
  refine wp_look rfl hg (fun h => hraise h _) (fun total htotal _ => ?_)
    (fun _ => ⟨dec dev.total, rfl, rfl⟩)
  obtain ⟨rfl, -⟩ := htotal
  have hoff := num_dec dev.offsetSectors
  have hbsn := num_dec dev.blockSize
  have hcnt := num_dec d.fsBlocks
  have htot := num_dec dev.total
  dsimp only
  rw [hoff, hbsn, hcnt, htot, lessThan_dec]
  have htail : dev.offsetSectors * sectorBytes + d.fsBlocks * dev.blockSize
      = dev.base + d.fsBytes dev := rfl
  rw [htail]
  by_cases htailed : dev.base + d.fsBytes dev < dev.total
  · rw [decide_eq_true htailed, if_pos rfl]
    have hdiscarded : Good dev { d with
        plaintext := d.plaintext \ Set.Ico (dev.base + d.fsBytes dev) dev.total,
        intact := d.intact && true } := by
      refine ⟨by simp [hg.intact], hg.needed, fun x hx => hg.inDevice x hx.1, ?_⟩
      have hs := hg.shape
      rw [hfmt] at hs
      simp only [hfmt]
      cases labelled with
      | false => exact ⟨hs.1, fun x hx => hs.2 x hx.1⟩
      | true => exact ⟨hs.1, fun x hx => hs.2.1 x hx.1, hs.2.2⟩
    refine wp_seq ?_
    refine wp_sh hg (fun _ t ht _ => ?_) (fun t ht => ?_) (fun _ => ⟨(), _, rfl⟩)
    · obtain rfl := ht
      have hbehind : d.behind dev (dev.base + d.fsBytes dev) := by
        simp [Disk.behind, hfmt]
      rw [decide_eq_true hbehind, Nat.add_sub_cancel' hroom]
      refine ⟨hdiscarded, ?_⟩
      refine wp_keeps_mono (wp_grow hdiscarded ⟨labelled, hfmt⟩ ho fun x hx => ?_) fun _ _ h => h
      -- what lies behind the filesystem has just been discarded
      rcases hout x hx.1 with hlow | hhigh
      · exact hlow
      · exact absurd ⟨hhigh, hg.inDevice x hx.1⟩ hx.2
    · obtain rfl : t = d := ht
      exact ⟨hg, fun h => hraise h _⟩
  · rw [decide_eq_false htailed, if_neg (by decide)]
    refine wp_grow hg ⟨labelled, hfmt⟩ ho fun x hx => ?_
    have hx' := hg.inDevice x hx
    rcases hout x hx with hlow | hhigh
    · exact hlow
    · omega

/-- The label is put on when there is nothing left to do. -/
theorem wp_finalize (hg : Good dev d) (hf : ∃ labelled, d.format = .luks labelled)
    {key : PyStr} (hday : day ≠ none → d.opened = false ∧ key = d.key) :
    (finalize key).wp (tools dev day)
      (keeps dev day never fun _ t => t.format = .luks true) d := by
  unfold finalize
  refine wp_seq ?_
  refine wp_sh hg (fun _ t ht _ => ?_)
    (fun t ht => ?_) (fun hd => ⟨(), _, hf, (hday hd).2, (hday hd).1, rfl⟩)
  · obtain ⟨-, -, -, rfl⟩ := ht
    have hopen := hg.setOpened true
    refine ⟨hopen, wp_seq ?_⟩
    rw [wp_caught]
    refine wp_mono (wp_discardAndGrow hopen hf rfl) (fun _ t ht => ?_) (fun e t ht => ?_)
      fun _ h => h
    · obtain ⟨hgt, hfmt, -, hto, hp, hfull⟩ := ht
      refine wp_seq (wp_sh hgt (fun _ u hu _ => ?_) (fun u hu => ?_) fun _ => ⟨(), _, hto, rfl⟩)
      · obtain ⟨-, rfl⟩ := hu
        have hclosed := hgt.setOpened false
        have hft : ∃ labelled, t.format = .luks labelled := by
          obtain ⟨labelled, hf⟩ := hf
          exact ⟨labelled, hfmt.trans hf⟩
        refine ⟨hclosed, ?_⟩
        change wp _ (sh .configLabel) _ _
        refine wp_sh hclosed (fun _ v hv _ => ?_) (fun v hv => ?_) fun _ => ⟨(), _, hft, rfl⟩
        · obtain ⟨-, rfl⟩ := hv
          obtain ⟨labelled, hft⟩ := hft
          have hlabelled : Good dev { t with opened := false, format := .luks true } :=
            ⟨hgt.intact, hgt.needed, hgt.inDevice, (hgt.luks hft).1, hp, hfull⟩
          exact ⟨hlabelled, hlabelled, rfl⟩
        · obtain rfl : v = _ := hv
          exact ⟨hclosed, fun h => ⟨hclosed, fun hd => absurd h hd⟩⟩
      · obtain rfl : u = t := hu
        exact ⟨hgt, fun h => ⟨hgt, fun hd => absurd h hd⟩⟩
    · obtain ⟨hgt, hnever⟩ := ht
      have hnone : day = none := by
        by_contra hd
        exact hnever hd
      refine wp_seq (wp_sh hgt (fun _ u hu _ => ?_) (fun u hu => ?_) fun hd => absurd hnone hd)
      · obtain ⟨-, rfl⟩ := hu
        have hclosed := hgt.setOpened false
        exact ⟨hclosed, hclosed, fun hd => absurd hnone hd⟩
      · obtain rfl : u = t := hu
        exact ⟨hgt, fun h => ⟨hgt, fun hd => absurd h hd⟩⟩
  · obtain rfl : t = d := ht
    exact ⟨hg, fun h => ⟨hg, fun hd => absurd h hd⟩⟩

/-- **One run.**  It keeps the invariant however it ends, returns only with the
label on, and on a good day fails only where the disk is too full. -/
theorem wp_migrate (hg : Good dev d) (hday : ∀ key, day = some key → d.ready key) :
    migrate.wp (tools dev day) (keeps dev day tooFull fun _ t => t.format = .luks true) d := by
  have hkey : ∀ k, day = some k → k ≠ [] := fun k hk => (hday k hk).2.1
  have hopen : day ≠ none → d.opened = false := by
    intro hd
    obtain ⟨k, hk⟩ := Option.ne_none_iff_exists'.mp hd
    exact (hday k hk).1
  have hmatch : d.format ≠ .ext4 → ∀ key, (∀ k, day = some k → key = k) →
      day ≠ none → key = d.key := by
    intro hf key hgiven hd
    obtain ⟨k, hk⟩ := Option.ne_none_iff_exists'.mp hd
    exact (hgiven k hk).trans ((hday k hk).2.2 hf)
  have hno : ∀ e t, never e t → tooFull e t := fun _ _ h => h.elim
  unfold migrate
  refine wp_keeps_seq (wp_detectState hg) hno fun b t _ hb => ?_
  obtain ⟨rfl, -, hencrypt, hresume, hfinalize, hdone⟩ := hb
  cases b with
  | done => exact ⟨hg, hdone rfl⟩
  | encrypt =>
    refine wp_keeps_seq (wp_readKey hg hkey) hno fun key u _ hu => ?_
    obtain ⟨rfl, hgiven⟩ := hu
    refine wp_keeps_seq (wp_encrypt hg (hencrypt rfl) key) (fun _ _ h => h) fun _ v hgv hv => ?_
    obtain ⟨hfmt, hvkey, hvo⟩ := hv
    exact wp_keeps_mono (wp_finalize hgv ⟨false, hfmt⟩
      fun hd => ⟨hvo.trans (hopen hd), hvkey.symm⟩) fun _ _ h => h
  | resume =>
    refine wp_keeps_seq (wp_readKey hg hkey) hno fun key u _ hu => ?_
    obtain ⟨rfl, hgiven⟩ := hu
    have hne : u.format ≠ .ext4 := by
      obtain ⟨region, hr⟩ := hresume rfl
      simp [hr]
    refine wp_keeps_seq (wp_resume hg (hresume rfl) key (hmatch hne key hgiven)) hno
      fun _ v hgv hv => ?_
    obtain ⟨hfmt, hvkey, hvo⟩ := hv
    exact wp_keeps_mono (wp_finalize hgv ⟨false, hfmt⟩
      fun hd => ⟨hvo.trans (hopen hd), (hmatch hne key hgiven hd).trans hvkey.symm⟩)
      fun _ _ h => h
  | finalize =>
    refine wp_keeps_seq (wp_readKey hg hkey) hno fun key u _ hu => ?_
    obtain ⟨rfl, hgiven⟩ := hu
    have hne : u.format ≠ .ext4 := by
      obtain ⟨labelled, hl⟩ := hfinalize rfl
      simp [hl]
    exact wp_keeps_mono (wp_finalize hg (hfinalize rfl)
      fun hd => ⟨hopen hd, hmatch hne key hgiven hd⟩) fun _ _ h => h

/-! ## Any number of runs -/

/-- A disk that has never been touched. -/
structure Disk.Fresh (dev : Device) (d : Disk) : Prop where
  format : d.format = .ext4
  intact : d.intact = true
  needed : dev.neededBlocks ≤ d.fsBlocks
  fits : d.fsBytes dev ≤ dev.total
  inDevice : ∀ x ∈ d.plaintext, x < dev.total

/-- The disks that runs of the script lead to.  Any command of a run may fail and a
run ends anywhere; a reboot takes the scratch mapping away. -/
inductive Reach (dev : Device) : Disk → Prop
  | start {d : Disk} : d.Fresh dev → Reach dev d
  | run {d d' : Disk} {o : Outcome ℕ Unit} :
      Reach dev d → migrate.Ends (tools dev none) d o d' → Reach dev d'
  | reboot {d : Disk} : Reach dev d → Reach dev { d with opened := false }

theorem good_of_reach (h : Reach dev d) : Good dev d := by
  induction h with
  | start h =>
    refine ⟨h.intact, h.needed, h.inDevice, ?_⟩
    rw [h.format]
    exact h.fits
  | run _ hends ih =>
    rename_i o _
    have hpost := wp_iff.mp (wp_migrate ih (by simp)) _ _ hends
    cases o with
    | returned a => exact hpost.1
    | raised e => exact hpost.1
    | killed => exact hpost
  | reboot _ ih => exact ih.setOpened false

/-- The first byte of the filesystem on the device. -/
def Disk.start (dev : Device) (d : Disk) : ℕ :=
  match d.format with
  | .luks _ => dev.base
  | _ => 0

theorem Good.start_add_le (h : Good dev d) : d.start dev + d.fsBytes dev ≤ dev.total := by
  have hs := h.shape
  unfold Disk.start
  cases hf : d.format with
  | ext4 =>
    rw [hf] at hs
    simpa using hs
  | reencrypting region =>
    rw [hf] at hs
    obtain ⟨hin, hroom⟩ := hs
    dsimp only
    omega
  | luks labelled => exact (h.luks hf).1

/-- A disk of 1 GiB that an ext4 filesystem of 4 KiB blocks fills. -/
def sampleDevice : Device where
  total := 1024 * mib
  blockSize := 4096
  neededBlocks := 50000
  offsetSectors := 32768
  blockSize_pos := by decide
  neededBlocks_pos := by decide
  offset_pos := by decide
  offset_le := by decide

def sampleDisk : Disk where
  format := .ext4
  key := []
  fsBlocks := 262144
  intact := true
  plaintext := Set.Iio (1024 * mib)
  opened := false

theorem sampleDisk_fresh : sampleDisk.Fresh sampleDevice :=
  ⟨rfl, rfl, by decide, by decide, fun _ hx => hx⟩

instance (d : Disk) (on : Dev) : Decidable (d.accessible on) := by
  cases on <;> unfold Disk.accessible <;> infer_instance

/-- Tools that work on a sample disk, but for a reencryption that starts and is cut off. -/
def sampleHandle : (c : Cmd) → Disk → Option (Answer c) × Disk
  | .isLuks, d => (if d.format = .ext4 then none else some (), d)
  | .blkidType, d => (some (if d.format = .ext4 then lit "ext4" else lit "crypto_LUKS"), d)
  | .luksDump, d =>
    match d.format with
    | .ext4 => (none, d)
    | .reencrypting _ => (some [lit "Requirements: online-reencrypt"], d)
    | .luks _ => (some [], d)
  | .blkidLabel, d => (some (if d.format = .luks true then label else []), d)
  | .askPassword, d => (some (lit "key"), d)
  | .e2fsck on, d => (if d.accessible on then some (0 : ℕ) else none, d)
  | .resize2fsMinimum, d =>
    (if d.format = .ext4 then some (dec sampleDevice.neededBlocks) else none, d)
  | .blockSize on, d => (if d.accessible on then some (dec sampleDevice.blockSize) else none, d)
  | .blockCount on, d => (if d.accessible on then some (dec d.fsBlocks) else none, d)
  | .getsize64, d => (some (dec sampleDevice.total), d)
  | .resize2fs .disk target, d =>
    let n := target.getD (sampleDevice.total / sampleDevice.blockSize)
    if d.format = .ext4 ∧ sampleDevice.neededBlocks ≤ n ∧
        n * sampleDevice.blockSize ≤ sampleDevice.total
    then (some (), { d with fsBlocks := n })
    else (none, d)
  | .resize2fs .scratch target, d =>
    let room := sampleDevice.total - sampleDevice.base
    let n := target.getD (room / sampleDevice.blockSize)
    if d.opened = true ∧ sampleDevice.neededBlocks ≤ n ∧ n * sampleDevice.blockSize ≤ room
    then (some (), { d with fsBlocks := n })
    else (none, d)
  | .reencrypt key region, d =>
    if d.format = .ext4 then
      (none, { d with
        format := .reencrypting region, key := key, plaintext := Set.Iio sampleDevice.total,
        intact := d.intact && decide (d.encryptable sampleDevice region) })
    else (none, d)
  | .reencryptResume key, d =>
    match d.format with
    | .reencrypting _ =>
      if key = d.key then
        (some (), { d with
          format := .luks false
          plaintext := {x | x < sampleDevice.total ∧
            (x < sampleDevice.base ∨ sampleDevice.base + d.fsBytes sampleDevice ≤ x)} })
      else (none, d)
    | _ => (none, d)
  | .openScratch key, d =>
    match d.format with
    | .luks _ =>
      if key = d.key ∧ d.opened = false then (some (), { d with opened := true }) else (none, d)
    | _ => (none, d)
  | .closeScratch, d =>
    if d.opened = true then (some (), { d with opened := false }) else (none, d)
  | .statusOffset, d =>
    (if d.opened = true then some (dec sampleDevice.offsetSectors) else none, d)
  | .blkdiscard offset length, d =>
    (some (), { d with
      plaintext := d.plaintext \ Set.Ico offset (offset + length)
      intact := d.intact && decide (d.behind sampleDevice offset) })
  | .configLabel, d =>
    match d.format with
    | .luks _ => (some (), { d with format := .luks true })
    | _ => (none, d)

theorem tools_sampleHandle (c : Cmd) (d : Disk) :
    tools sampleDevice none c d (sampleHandle c d).1 (sampleHandle c d).2 := by
  cases c with
  | isLuks | blkidType =>
    by_cases hf : d.format = .ext4 <;> simp [sampleHandle, hf, tools, does, fails]
  | resize2fsMinimum =>
    by_cases hf : d.format = .ext4
    · simp only [sampleHandle, hf, if_true, tools, does]
      exact ⟨⟨trivial, trivial, _, le_rfl, rfl⟩, by simp⟩
    · simp [sampleHandle, hf, tools, fails]
  | blkidLabel =>
    have hlabel : label ≠ [] := by decide
    by_cases hf : d.format = .luks true <;> simp [sampleHandle, hf, tools, does, hlabel.symm]
  | luksDump =>
    have hmarked : isReencryptLine (lit "Requirements: online-reencrypt") = true := by decide
    cases hf : d.format <;> simp [sampleHandle, hf, tools, does, fails, hmarked]
  | askPassword | getsize64 | blkdiscard offset length => simp [sampleHandle, tools, does]
  | e2fsck on | blockSize on | blockCount on =>
    by_cases hon : d.accessible on <;> simp [sampleHandle, hon, tools, does, fails]
  | resize2fs on target =>
    cases on <;> simp only [sampleHandle] <;> split_ifs with hfits
    · simpa [tools, does, and_assoc] using hfits
    · simp [tools, fails]
    · simpa [tools, does, and_assoc] using hfits
    · simp [tools, fails]
  | reencrypt key region =>
    by_cases hf : d.format = .ext4
    · simp only [sampleHandle, hf, if_true, tools, fails]
      exact ⟨.inr ⟨trivial, _, fun _ hx => hx, rfl⟩, by simp⟩
    · simp [sampleHandle, hf, tools, fails]
  | reencryptResume key =>
    cases hf : d.format with
    | reencrypting region =>
      by_cases hkey : key = d.key
      · simp only [sampleHandle, hf, hkey, if_true, tools, does]
        exact ⟨⟨trivial, region, _, rfl, fun _ hx => hx, rfl⟩, by simp⟩
      · simp [sampleHandle, hf, hkey, tools, fails]
    | _ => simp [sampleHandle, hf, tools, fails]
  | openScratch key =>
    cases hf : d.format with
    | luks labelled =>
      by_cases hopen : key = d.key ∧ d.opened = false
      · simp only [sampleHandle, hf, hopen, and_self, if_true, tools, does]
        simp
      · simp [sampleHandle, hf, hopen, tools, fails]
    | _ => simp [sampleHandle, hf, tools, fails]
  | closeScratch | statusOffset =>
    by_cases hopen : d.opened = true <;> simp [sampleHandle, hopen, tools, does, fails]
  | configLabel => cases hf : d.format <;> simp [sampleHandle, hf, tools, does, fails]

/-- The disk when the power goes in the middle of the encryption. -/
def sampleCut : Disk := (migrate.interp sampleHandle sampleDisk).2

end Migrate
