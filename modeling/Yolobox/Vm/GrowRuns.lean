/-
# Growing again and again

Any sequence of `yo disk-grow N` and `yo up --disk N` on an encrypted box, each run of
which may fail or be killed at any step and whose boots may grow the partition or not.

The layers of the disk are four numbers.  `Sound` is the state in which
`cryptsetup resize` may be issued: the partition fills the ceiling, or there is no room
left over under the filesystem that would make `df` grow without it.
-/
import Yolobox.Vm.Grow

open Script Config

namespace Vm

/-! ## The box -/

inductive Power
  | off
  | initrd
  | up
  deriving DecidableEq, Repr

/-- An encrypted box: its ceiling in GiB, the layers under `/` in bytes. -/
structure Box where
  power : Power
  ceiling : ℕ
  partition : ℕ
  mapping : ℕ
  filesystem : ℕ
  deriving DecidableEq, Repr

/-- The filesystem's block size, and what `df -kP` shows of a filesystem by its size. -/
structure Ext4 where
  block : ℕ
  dfKib : ℕ → ℕ
  block_le : block ≤ MAPPING_SLACK_BYTES

namespace Box

/-- What a boot may make of the partition: as it was, or grown into the ceiling. -/
def BootsTo (b : Box) (p : ℕ) : Prop :=
  p = b.partition ∨
    b.partition ≤ p ∧ b.ceiling * GIB ≤ p + PARTITION_SLACK_BYTES ∧ p ≤ b.ceiling * GIB

/-- What `cryptsetup resize` may make of the mapping. -/
def ResizesTo (b : Box) (m : ℕ) : Prop := m ≤ b.partition ∧ b.partition ≤ m + MAPPING_SLACK_BYTES

/-- What `resize2fs` may make of the filesystem. -/
def FillsTo (ext4 : Ext4) (b : Box) (f : ℕ) : Prop := f ≤ b.mapping ∧ b.mapping ≤ f + ext4.block

/-- The box after a boot. -/
def Boots (b b' : Box) : Prop := ∃ p, b.BootsTo p ∧ b' = { b with power := .up, partition := p }

end Box

variable (ext4 : Ext4)

def Box.deviceBytes (b : Box) : Device → ℕ
  | .luksDevice => b.partition
  | .luksMapper => b.mapping

/-- What a call does when it succeeds.  Calls that neither read nor change the layers or
the power may answer anything. -/
def does : (c : Cmd) → Box → Answer c → Box → Prop
  | .vmStatus, b, status, b' =>
    (∃ s, status = some s ∧ (s = RUNNING ↔ b.power ≠ .off)) ∧ b' = b
  | .currentSize, b, size, b' => size.diskGib = b.ceiling ∧ b' = b
  | .start _ _, b, _, b' => b.power = .off ∧ b.Boots b'
  | .stop, b, _, b' => b' = { b with power := .off }
  | .growDisk _ wantedGib, b, _, b' => b.power = .off ∧ b' = { b with ceiling := wantedGib }
  | .bootStage, b, stage, b' =>
    (stage = .initrd → b.power = .initrd) ∧ (stage = .stage2 → b.power = .up) ∧ b' = b
  | .unlockDisk _, b, _, b' => b.power = .initrd ∧ b.Boots b'
  | .waitForOperator, b, _, b' => b.power = .up ∧ b' = b
  | .luksDeviceFstype, b, fstype, b' =>
    b.power = .up ∧ fstype = DISK_FSTYPE_LUKS ∧ b' = b
  | .guestRootUsage, b, usage, b' =>
    b.power = .up ∧ usage.totalKib = ext4.dfKib b.filesystem ∧ b' = b
  | .cryptsetupResize _, b, _, b' =>
    b.power = .up ∧ ∃ m, b.ResizesTo m ∧ b' = { b with mapping := m }
  | .resize2fs, b, _, b' =>
    b.power = .up ∧ ∃ f, b.FillsTo ext4 f ∧ b' = { b with filesystem := f }
  | .guestDeviceBytes device, b, size, b' =>
    b.power = .up ∧ size = b.deviceBytes device ∧ b' = b
  | .guestFilesystemBytes _, b, size, b' => b.power = .up ∧ size = b.filesystem ∧ b' = b
  | _, b, _, b' => b' = b

/-- What a failing call may leave, besides nothing or all of its effect: a start that
stops in the initrd. -/
def leaves : Cmd → Box → Box → Prop
  | .start _ _, b, b' => b.power = .off ∧ b' = { b with power := .initrd }
  | _, _, _ => False

def fails (c : Cmd) (b b' : Box) : Prop := b' = b ∨ (∃ a, does ext4 c b a b') ∨ leaves c b b'

/-- Any call may fail. -/
def tools : Machine Answer Box := fun c b r b' =>
  match r with
  | some a => does ext4 c b a b'
  | none => fails ext4 c b b'

/-! ## Runs -/

inductive Run
  | diskGrow (gib : ℕ)             -- `yo disk-grow N`
  | up (gib : ℕ) (memoryGib cpus : Option ℕ)  -- `yo up --disk N`
  deriving DecidableEq, Repr

def Run.gib : Run → ℕ
  | .diskGrow gib => gib
  | .up gib _ _ => gib

def Run.script (offStatus : PyStr) : Run → Py Unit
  | .diskGrow gib => cmdDiskGrow offStatus gib
  | .up gib memoryGib cpus => cmdUp offStatus ⟨memoryGib, some gib, cpus⟩

/-- Two sizes less than the mapping's slack apart. -/
def Within (m n : ℕ) : Prop := m ≤ n + MAPPING_SLACK_BYTES ∧ n ≤ m + MAPPING_SLACK_BYTES

instance (m n : ℕ) : Decidable (Within m n) := inferInstanceAs (Decidable (_ ∧ _))

/-- The layers fill a ceiling of `gib`. -/
structure Box.Filled (b : Box) (gib : ℕ) : Prop where
  ceiling : b.ceiling = gib
  partition : gib * GIB ≤ b.partition + PARTITION_SLACK_BYTES
  mapping : Within b.partition b.mapping
  filesystem : Within b.mapping b.filesystem

/-- A box before the first run: no layer is larger than the one under it. -/
structure Box.Nested (b : Box) : Prop where
  partition : b.partition ≤ b.ceiling * GIB
  mapping : b.mapping ≤ b.partition
  filesystem : b.filesystem ≤ b.mapping

/-- What `cryptsetup resize` may be issued on: the partition fills the ceiling, or the
mapping and the filesystem have no room left in it for `df` to show. -/
def Box.Sound (b : Box) : Prop :=
  b.ceiling * GIB ≤ b.partition + PARTITION_SLACK_BYTES ∨
    ∀ m f, b.ResizesTo m → Box.FillsTo ext4 { b with mapping := m } f →
      ext4.dfKib f ≤ ext4.dfKib b.filesystem

/-- The same machine, with `cryptsetup resize` issued only on a sound box. -/
def soundTools : Machine Answer Box := fun c b r b' =>
  tools ext4 c b r b' ∧
    ∀ passphrase, c = .cryptsetupResize passphrase → b.power = .up → b.Sound ext4

/-- The boxes any number of runs may leave, and boots or stops between them. -/
inductive Runs (m : Machine Answer Box) (b₀ : Box) : Box → Prop
  | refl : Runs m b₀ b₀
  | run {b b' : Box} (run : Run) (offStatus : PyStr) {o : Outcome YoError Unit} :
      Runs m b₀ b → (run.script offStatus).Ends m b o b' → Runs m b₀ b'
  | boots {b b' : Box} : Runs m b₀ b → b.Boots b' → Runs m b₀ b'
  | stops {b : Box} {power : Power} : Runs m b₀ b → Runs m b₀ { b with power := power }

end Vm
