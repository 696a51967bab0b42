/-
# The disk under the in-place encryption

The disk as `yolobox-luks-migrate` meets it: plain ext4, mid-reencryption, LUKS
without the label or LUKS with it, with the extent of the filesystem and the
device bytes that still hold plaintext from before the encryption.  `does` is
what a command does when it works and `fails` what it leaves when it does not.
The machine `tools` lets every command fail, but on a good day (a passphrase is
given) only those that cannot do what they are asked.  `Good` is what holds of the
disk between any two commands.
-/
import Yolobox.Luks.Migrate

open Script

namespace Migrate

/-! ## The disk -/

inductive Format
  | ext4
  | reencrypting (region : ℕ)   -- LUKS2 with the online-reencrypt requirement
  | luks (labelled : Bool)
  deriving DecidableEq, Repr

/-- What no run of the script changes. -/
structure Device where
  total : ℕ                     -- bytes
  blockSize : ℕ                 -- of the filesystem
  neededBlocks : ℕ              -- what the contents of the filesystem take
  offsetSectors : ℕ             -- where the LUKS data segment starts
  blockSize_pos : 0 < blockSize
  neededBlocks_pos : 0 < neededBlocks
  offset_pos : 0 < offsetSectors
  offset_le : offsetSectors * sectorBytes ≤ headerRoom

/-- The first byte of the data segment; what lies below is the LUKS header's. -/
def Device.base (dev : Device) : ℕ := dev.offsetSectors * sectorBytes

structure Disk where
  format : Format
  key : PyStr                   -- what opens it, once it is LUKS
  fsBlocks : ℕ
  intact : Bool                 -- no command has overwritten the contents
  plaintext : Set ℕ             -- device bytes that still hold old plaintext
  opened : Bool                 -- the scratch mapping exists

/-- Bytes of the filesystem, from its first. -/
def Disk.fsBytes (dev : Device) (d : Disk) : ℕ := d.fsBlocks * dev.blockSize

/-- What `e2fsck`, `dumpe2fs` and `resize2fs` find a filesystem on. -/
def Disk.accessible (d : Disk) : Dev → Prop
  | .disk => d.format = .ext4
  | .scratch => d.opened = true

variable (dev : Device)

/-! ## The commands on the disk -/

/-- The reencryption needs the filesystem within the region, short of the header
room, and as much room again behind the region; without them it overwrites. -/
def Disk.encryptable (d : Disk) (region : ℕ) : Prop :=
  d.fsBytes dev + headerRoom ≤ region ∧ region + headerRoom ≤ dev.total

instance (d : Disk) (region : ℕ) : Decidable (d.encryptable dev region) := by
  unfold Disk.encryptable; infer_instance

/-- A discard is harmless to the contents when it starts behind them. -/
def Disk.behind (d : Disk) (offset : ℕ) : Prop :=
  match d.format with
  | .luks _ => dev.base + d.fsBytes dev ≤ offset
  | _ => False

instance (d : Disk) (offset : ℕ) : Decidable (d.behind dev offset) := by
  unfold Disk.behind
  cases d.format <;> infer_instance

/-- Once `cryptsetup reencrypt` is done, the filesystem is ciphertext in the data
segment; old plaintext may be left in the header's area and behind the filesystem. -/
def Disk.encryptedPlaintext (d : Disk) (p : Set ℕ) : Prop :=
  ∀ x ∈ p, x < dev.total ∧ (x < dev.base ∨ dev.base + d.fsBytes dev ≤ x)

/-- What a command does when it works. -/
def does : (c : Cmd) → Disk → Answer c → Disk → Prop
  | .isLuks, d, _, d' => d.format ≠ .ext4 ∧ d' = d
  | .blkidType, d, type, d' =>
    type = (if d.format = .ext4 then lit "ext4" else lit "crypto_LUKS") ∧ d' = d
  | .luksDump, d, dump, d' =>
    d.format ≠ .ext4 ∧ d' = d ∧
      (List.any dump isReencryptLine = true ↔ ∃ region, d.format = .reencrypting region)
  | .blkidLabel, d, found, d' => (found = label ↔ d.format = .luks true) ∧ d' = d
  | .askPassword, d, _, d' => d' = d
  | .e2fsck on, d, (rc : ℕ), d' => d.accessible on ∧ rc ≤ 2 ∧ d' = d
  | .resize2fsMinimum, d, min, d' =>
    d.format = .ext4 ∧ d' = d ∧ ∃ n, dev.neededBlocks ≤ n ∧ min = dec n
  | .blockSize on, d, bs, d' => d.accessible on ∧ bs = dec dev.blockSize ∧ d' = d
  | .blockCount on, d, count, d' => d.accessible on ∧ count = dec d.fsBlocks ∧ d' = d
  | .getsize64, d, total, d' => total = dec dev.total ∧ d' = d
  | .resize2fs .disk target, d, _, d' =>
    d.format = .ext4 ∧ ∃ n, target.getD (dev.total / dev.blockSize) = n ∧
      dev.neededBlocks ≤ n ∧ n * dev.blockSize ≤ dev.total ∧ d' = { d with fsBlocks := n }
  | .resize2fs .scratch target, d, _, d' =>
    d.opened = true ∧ ∃ n, target.getD ((dev.total - dev.base) / dev.blockSize) = n ∧
      dev.neededBlocks ≤ n ∧ n * dev.blockSize ≤ dev.total - dev.base ∧
      d' = { d with fsBlocks := n }
  | .reencrypt key region, d, _, d' =>
    d.format = .ext4 ∧ ∃ p, d.encryptedPlaintext dev p ∧
      d' = { d with
        format := .luks false, key := key, plaintext := p,
        intact := d.intact && decide (d.encryptable dev region) }
  | .reencryptResume key, d, _, d' =>
    key = d.key ∧ ∃ region p, d.format = .reencrypting region ∧
      d.encryptedPlaintext dev p ∧ d' = { d with format := .luks false, plaintext := p }
  | .openScratch key, d, _, d' =>
    (∃ labelled, d.format = .luks labelled) ∧ key = d.key ∧ d.opened = false ∧
      d' = { d with opened := true }
  | .closeScratch, d, _, d' => d.opened = true ∧ d' = { d with opened := false }
  | .statusOffset, d, offset, d' => d.opened = true ∧ offset = dec dev.offsetSectors ∧ d' = d
  | .blkdiscard offset length, d, _, d' =>
    d' = { d with
      plaintext := d.plaintext \ Set.Ico offset (offset + length),
      intact := d.intact && decide (d.behind dev offset) }
  | .configLabel, d, _, d' =>
    (∃ labelled, d.format = .luks labelled) ∧ d' = { d with format := .luks true }

/-- What a command leaves when it fails.  Only a reencryption leaves anything:
before its header exists the disk is plain, from then on it is marked. -/
def fails : Cmd → Disk → Disk → Prop
  | .reencrypt key region, d, d' =>
    d' = d ∨ d.format = .ext4 ∧ ∃ p : Set ℕ, (∀ x ∈ p, x < dev.total) ∧ d' = { d with
      format := .reencrypting region, key := key, plaintext := p,
      intact := d.intact && decide (d.encryptable dev region) }
  | .reencryptResume _, d, d' =>
    d' = d ∨ ∃ region, ∃ p : Set ℕ, d.format = .reencrypting region ∧
      (∀ x ∈ p, x < dev.total) ∧ d' = { d with plaintext := p }
  | _, d, d' => d' = d

/-- The ask is answered with the passphrase of the day. -/
def answersWith (key : PyStr) : (c : Cmd) → Answer c → Prop
  | .askPassword, given => given = key
  | _, _ => True

/-- The tools.  On `none` each may fail at any time.  On the good day `some key`
one fails only when it cannot do what it is asked, and `key` is given. -/
def tools (day : Option PyStr) : Machine Answer Disk := fun c d r d' =>
  match r with
  | some a => does dev c d a d' ∧ ∀ key, day = some key → answersWith key c a
  | none => fails dev c d d' ∧ (day ≠ none → ∀ a t, ¬ does dev c d a t)

/-- The commands that only look. -/
def Cmd.looks : Cmd → Bool
  | .resize2fs _ _ | .reencrypt _ _ | .reencryptResume _ | .openScratch _ | .closeScratch
  | .blkdiscard _ _ | .configLabel => false
  | _ => true

theorem eq_of_does_looks {c : Cmd} (hc : c.looks = true) {d d' : Disk} {a : Answer c}
    (h : does dev c d a d') : d' = d := by
  cases c <;> first
    | (simp [Cmd.looks] at hc; done)
    | (simp only [does] at h; tauto)

theorem eq_of_fails_looks {c : Cmd} (hc : c.looks = true) {d d' : Disk}
    (h : fails dev c d d') : d' = d := by
  cases c <;> first
    | (simp [Cmd.looks] at hc; done)
    | exact h

/-! ## The invariant -/

/-- What holds of the disk between any two commands. -/
structure Good (d : Disk) : Prop where
  intact : d.intact = true
  needed : dev.neededBlocks ≤ d.fsBlocks
  inDevice : ∀ x ∈ d.plaintext, x < dev.total
  shape : match d.format with
    | .ext4 => d.fsBytes dev ≤ dev.total
    | .reencrypting region => d.encryptable dev region
    | .luks false => dev.base + d.fsBytes dev ≤ dev.total ∧
        ∀ x ∈ d.plaintext, x < dev.base ∨ dev.base + d.fsBytes dev ≤ x
    | .luks true => dev.base + d.fsBytes dev ≤ dev.total ∧
        (∀ x ∈ d.plaintext, x < dev.base) ∧ dev.total - dev.base < d.fsBytes dev + dev.blockSize

variable {dev} {day : Option PyStr} {d : Disk}

/-- The scratch mapping is no part of what the invariant says. -/
theorem Good.setOpened (h : Good dev d) (b : Bool) : Good dev { d with opened := b } :=
  ⟨h.intact, h.needed, h.inDevice, h.shape⟩

theorem Good.fsBytes_pos (h : Good dev d) : 0 < d.fsBytes dev :=
  Nat.mul_pos (lt_of_lt_of_le dev.neededBlocks_pos h.needed) dev.blockSize_pos

theorem Good.fsBlocks_pos (h : Good dev d) : 0 < d.fsBlocks :=
  lt_of_lt_of_le dev.neededBlocks_pos h.needed

/-- On LUKS, labelled or not, the filesystem is inside the mapping and no old
plaintext is under it. -/
theorem Good.luks (h : Good dev d) {labelled : Bool} (hf : d.format = .luks labelled) :
    dev.base + d.fsBytes dev ≤ dev.total ∧
      ∀ x ∈ d.plaintext, x < dev.base ∨ dev.base + d.fsBytes dev ≤ x := by
  have hs := h.shape
  rw [hf] at hs
  cases labelled with
  | false => exact hs
  | true => exact ⟨hs.1, fun x hx => .inl (hs.2.1 x hx)⟩

/-- The filesystem may be resized within the mapping it is in, when no plaintext is
left behind the header. -/
theorem Good.grown (h : Good dev d) (hf : ∃ labelled, d.format = .luks labelled)
    (hp : ∀ x ∈ d.plaintext, x < dev.base) {n : ℕ} (hn : dev.neededBlocks ≤ n)
    (hfit : n * dev.blockSize ≤ dev.total - dev.base)
    (hfull : dev.total - dev.base < n * dev.blockSize + dev.blockSize) :
    Good dev { d with fsBlocks := n } := by
  obtain ⟨labelled, hf⟩ := hf
  have hroom := (h.luks hf).1
  refine ⟨h.intact, hn, h.inDevice, ?_⟩
  cases labelled <;> simp only [hf, Disk.fsBytes] at hroom ⊢
  · exact ⟨by omega, fun x hx => .inl (hp x hx)⟩
  · exact ⟨by omega, hp, hfull⟩

end Migrate
