/-
# The in-place encryption script

`nix/luks/yolobox-luks-migrate.sh`, command by command.  Every tool it runs is a
command of the script's interface, with what the shell captures of it as the
answer, so the same text is read against arbitrary outputs and against a disk.
A failing command ends the script (`errexit`, `pipefail`), but in a condition,
after `||`, and in the subshell of `finalize`, whose exit code is looked at.

Numbers are the strings the tools print.  The arithmetic is the shell's, on sizes
far below the range of its 64-bit integers.
-/
import Yolobox.Lib.Script
import Yolobox.Text

namespace Migrate

/-! ## The interface -/

/-- What a filesystem tool is pointed at: `$device`, or `/dev/mapper/$scratch`. -/
inductive Dev
  | disk
  | scratch
  deriving DecidableEq, Repr

inductive Cmd
  | isLuks
  | blkidType
  | luksDump
  | blkidLabel
  | askPassword
  | e2fsck (d : Dev)
  | resize2fsMinimum                      -- `resize2fs -P`
  | blockSize (d : Dev)                   -- `dumpe2fs -h`, the block size line
  | blockCount (d : Dev)                  -- `dumpe2fs -h`, the block count line
  | getsize64
  | resize2fs (d : Dev) (target : Option ℕ)
  | reencrypt (key : PyStr) (region : ℕ)  -- `cryptsetup reencrypt --encrypt`
  | reencryptResume (key : PyStr)         -- `cryptsetup reencrypt --resume-only`
  | openScratch (key : PyStr)
  | closeScratch
  | statusOffset                          -- `cryptsetup status`, the offset line
  | blkdiscard (offset length : ℕ)
  | configLabel
  deriving DecidableEq, Repr

/-- What the script captures of a command. -/
abbrev Answer : Cmd → Type
  | .luksDump => List PyStr               -- lines
  | .e2fsck _ => ℕ                        -- its exit code
  | .blkidType | .blkidLabel | .askPassword | .resize2fsMinimum | .blockSize _
  | .blockCount _ | .getsize64 | .statusOffset => PyStr
  | _ => Unit

/-- A shell script; giving up carries the exit code. -/
abbrev Sh := Script Cmd Answer ℕ

/-- The exit code of a command that failed, whichever it was. -/
def errexit : ℕ := 1

/-- Run a command under `errexit`. -/
def sh (c : Cmd) : Sh (Answer c) := Script.cmd errexit c

/-- Run a command where `errexit` does not look: in a condition or before `||`. -/
def trySh (c : Cmd) : Sh (Option (Answer c)) := Script.attempt c

/-! ## The constants -/

/-- `label` of `nix/luks/facts.nix`. -/
def label : PyStr := lit "yolobox-luks"

def mib : ℕ := 1024 * 1024
def headroomPercent : ℕ := 5
def headerRoomMib : ℕ := 32
def headerRoom : ℕ := headerRoomMib * mib
def align : ℕ := 4 * mib
def sectorBytes : ℕ := 512

/-! ## The functions -/

/-- The patterns `''`, `*[!0-9]*` and `0*` that `require_positive_int` refuses. -/
def isPositiveInt (text : PyStr) : Bool :=
  !text.isEmpty && text.all isDigit && text.head? != some 48

def requirePositiveInt (text : PyStr) : Sh Unit :=
  if isPositiveInt text then .ret () else .throw errexit

/-- `[ "$n" -lt "$text" ]`: false on a text that is no number. -/
def lessThan (n : ℕ) (text : PyStr) : Bool :=
  !text.isEmpty && text.all isDigit && n < num text

def readKey : Sh PyStr := do
  let key : PyStr ← sh .askPassword
  if key = [] then .throw 2 else .ret key

/-- `e2fsck` may exit 1 or 2 over a consistent filesystem; one that cannot be run
exits 127. -/
def fsckOk (d : Dev) : Sh Unit := do
  let rc : Option ℕ ← trySh (.e2fsck d)
  if rc.getD 127 > 2 then .throw 4 else .ret ()

/-- The line `grep '^Requirements:.*online-reencrypt'` looks for. -/
def isReencryptLine (line : PyStr) : Bool :=
  startswith line (lit "Requirements:") &&
    decide (lit "online-reencrypt" <:+: line.drop (lit "Requirements:").length)

/-- What `detect_state` finds, and so the branch that is taken. -/
inductive Branch
  | encrypt
  | resume
  | done
  | finalize
  deriving DecidableEq, Repr

def detectState : Sh Branch := do
  let isLuks : Option Unit ← trySh .isLuks
  if isLuks = none then
    let type : Option PyStr ← trySh .blkidType  -- `|| true`
    if type.getD [] ≠ lit "ext4" then .throw 3 else .ret .encrypt
  else
    let dump : List PyStr ← sh .luksDump
    if dump.any isReencryptLine then .ret .resume
    else do
      -- in a condition, so a failing blkid only compares as empty
      let found : Option PyStr ← trySh .blkidLabel
      if found.getD [] = label then .ret .done else .ret .finalize

/-- The blocks the filesystem is shrunk to. -/
def targetBlocks (min : ℕ) : ℕ := min + min * headroomPercent / 100 + 1

/-- The bytes that are encrypted: the shrunken filesystem and the header room,
rounded up to the alignment. -/
def regionBytes (target bs : ℕ) : ℕ := (target * bs + headerRoom + align - 1) / align * align

def encrypt (key : PyStr) : Sh Unit := do
  fsckOk .disk
  let min : PyStr ← sh .resize2fsMinimum
  requirePositiveInt min
  let bs : PyStr ← sh (.blockSize .disk)
  requirePositiveInt bs
  let target := targetBlocks (num min)
  let region := regionBytes target (num bs)
  let total : PyStr ← sh .getsize64
  requirePositiveInt total
  let need := region + headerRoom
  if need > num total then .throw 7
  else do
    let _ ← sh (.resize2fs .disk (some target))
    sh (.reencrypt key region)

def resume (key : PyStr) : Sh Unit := sh (.reencryptResume key)

/-- The subshell of `finalize`. -/
def discardAndGrow : Sh Unit := do
  let offsetSectors : PyStr ← sh .statusOffset
  requirePositiveInt offsetSectors
  let mapperBs : PyStr ← sh (.blockSize .scratch)
  requirePositiveInt mapperBs
  let fsBlocks : PyStr ← sh (.blockCount .scratch)
  requirePositiveInt fsBlocks
  let plaintextTail := num offsetSectors * sectorBytes + num fsBlocks * num mapperBs
  let total : PyStr ← sh .getsize64
  if lessThan plaintextTail total then
    let _ ← sh (.blkdiscard plaintextTail (num total - plaintextTail))
    fsckOk .scratch
    sh (.resize2fs .scratch none)
  else do
    fsckOk .scratch
    sh (.resize2fs .scratch none)

def finalize (key : PyStr) : Sh Unit := do
  let _ ← sh (.openScratch key)
  let rc ← discardAndGrow.caught
  let _ ← sh .closeScratch
  match rc with
  | .error _ => .throw 5
  | .ok _ => sh .configLabel

/-- The script. -/
def migrate : Sh Unit := do
  match ← detectState with
  | .done => .ret ()
  | .encrypt =>
    let key ← readKey
    encrypt key
    finalize key
  | .resume =>
    let key ← readKey
    resume key
    finalize key
  | .finalize =>
    let key ← readKey
    finalize key

/-! ## The numbers -/

/-- A canonical numeral passes the check. -/
theorem isPositiveInt_dec {n : ℕ} (hn : 0 < n) : isPositiveInt (dec n) = true := by
  have hall : (dec n).all isDigit = true :=
    List.all_eq_true.mpr fun c hc => isDigit_of_mem_dec hc
  have hne := head_dec_ne_zero hn
  simp [isPositiveInt, hall, dec_ne_nil, hne]

/-- What passes the check is a canonical positive decimal. -/
theorem isPositiveInt_iff {text : PyStr} :
    isPositiveInt text = true ↔ ∃ n, 0 < n ∧ text = dec n := by
  constructor
  · intro h
    simp only [isPositiveInt, Bool.and_eq_true, Bool.not_eq_true', List.isEmpty_eq_false_iff,
      List.all_eq_true, bne_iff_ne] at h
    obtain ⟨⟨hne, hdigits⟩, hhead⟩ := h
    obtain ⟨hpos, hdec⟩ := dec_num hne hdigits hhead
    exact ⟨num text, hpos, hdec.symm⟩
  · rintro ⟨n, hn, rfl⟩
    exact isPositiveInt_dec hn

theorem lessThan_dec (a n : ℕ) : lessThan a (dec n) = decide (a < n) := by
  have hall : (dec n).all isDigit = true :=
    List.all_eq_true.mpr fun c hc => isDigit_of_mem_dec hc
  simp [lessThan, hall, dec_ne_nil]

/-- The shrunken filesystem is larger than its minimum. -/
theorem lt_targetBlocks (min : ℕ) : min < targetBlocks min := by
  unfold targetBlocks
  omega

/-- The region holds the shrunken filesystem and the header room. -/
theorem le_regionBytes (target bs : ℕ) : target * bs + headerRoom ≤ regionBytes target bs := by
  have halign : 0 < align := by decide
  have hdiv := Nat.div_add_mod (target * bs + headerRoom + align - 1) align
  have hmod := Nat.mod_lt (target * bs + headerRoom + align - 1) halign
  have hcomm := Nat.mul_comm align ((target * bs + headerRoom + align - 1) / align)
  unfold regionBytes
  omega

end Migrate
