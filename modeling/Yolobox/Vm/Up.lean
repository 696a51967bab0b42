/-
# `yo up`

`vm_up`, `plan_resize` and the sizes they compare (`yolobox_cli/vm.py`,
`yolobox_cli/driver.py`), as scripts over the calls they make of the driver, of the
boot and of the guest.  A call that raises a `YoError` fails; any other exception
ends the run where it stands, as a kill does.
-/
import Yolobox.Lib.Script
import Yolobox.Lib.Utf8
import Yolobox.Lines

open Script Utf8

namespace Vm

/-! ## Sizes -/

/-- A whole box's size: memory and disk in GiB, and the vCPU count. -/
structure BoxSize where
  memoryGib : ℕ
  diskGib : ℕ
  cpus : ℕ
  deriving DecidableEq, Repr

/-- What `--memory`, `--disk` and `--cpus` asked of a box; `none`: not asked. -/
structure Size where
  memoryGib : Option ℕ
  diskGib : Option ℕ
  cpus : Option ℕ
  deriving DecidableEq, Repr

def NO_SIZE : Size := ⟨none, none, none⟩

/-- `DEFAULT_CPUS_CAP`: the most CPUs a new box gets when `--cpus` does not say. -/
def DEFAULT_CPUS_CAP : ℕ := 4

/-- What `wanted` changes of this size. -/
def BoxSize.changesTo (current wanted : BoxSize) : Size :=
  ⟨if wanted.memoryGib ≠ current.memoryGib then some wanted.memoryGib else none,
    if wanted.diskGib ≠ current.diskGib then some wanted.diskGib else none,
    if wanted.cpus ≠ current.cpus then some wanted.cpus else none⟩

/-- Whether any flag was given. -/
def Size.asked (size : Size) : Bool :=
  size.memoryGib.isSome || size.diskGib.isSome || size.cpus.isSome

/-- This size, with `base` for everything that was not asked. -/
def Size.fill (size : Size) (base : BoxSize) : BoxSize :=
  ⟨size.memoryGib.getD base.memoryGib, size.diskGib.getD base.diskGib,
    size.cpus.getD base.cpus⟩

/-- A stopped box's size now, and the size it was asked to have. -/
structure Resize where
  current : BoxSize
  wanted : BoxSize
  deriving DecidableEq, Repr

def Resize.setsHardware (resize : Resize) : Bool :=
  decide ((resize.wanted.memoryGib, resize.wanted.cpus)
    ≠ (resize.current.memoryGib, resize.current.cpus))

/-! ## The interface -/

/-- The status of a VM that is up, in Lima's word, which every driver reports. -/
def RUNNING : PyStr := lit "Running"

abbrev Passphrase := List Byte

inductive BootStage
  | unknown
  | none
  | initrd
  | stage2
  deriving DecidableEq, Repr

/-- The block devices whose size is read: `LUKS_DEVICE` and its mapping. -/
inductive Device
  | luksDevice
  | luksMapper
  deriving DecidableEq, Repr

/-- The guest's `/` as `df` reports it. -/
structure RootUsage where
  humanLine : PyStr
  totalKib : ℕ
  deriving DecidableEq, Repr

/-- What is printed and has no other effect. -/
inductive Line
  | gaps (gaps : List PyStr)
  | before (humanLine : PyStr)
  | after (humanLine : PyStr)
  | vda2 (size : Option PyStr)        -- `none`: unreadable
  | nothingLeft (ceilingGib : ℕ)
  | finishing (ceilingGib : ℕ)
  deriving DecidableEq, Repr

inductive Cmd
  -- `state.driver()`
  | configGaps
  | fatalGaps (gaps : List PyStr)
  | vmStatus
  | creationRefusal (size : Size)
  | currentSize
  | resizeRefusal (current wanted : BoxSize)
  | requireLoginKey
  | resize (memoryGib cpus : ℕ)
  | start (passphrase : Passphrase) (size : Size)
  | stop
  | growDisk (currentGib wantedGib : ℕ)
  -- the host
  | cpuCount
  | luksPassphrase
  | ensureAgentSshConfig
  | vmServices
  | say (line : Line)
  -- the boot
  | bootStage
  | unlockDisk (passphrase : Passphrase)
  | waitForOperator
  -- the guest
  | ensureGuestKnownHosts
  | growpartLoadState
  | luksDeviceFstype
  | guestRootUsage
  | cryptsetupResize (passphrase : Passphrase)
  | resize2fs
  | lsblkSize
  | guestDeviceBytes (device : Device)
  | guestFilesystemBytes (device : Device)
  deriving DecidableEq

abbrev Answer : Cmd → Type
  | .configGaps | .fatalGaps _ => List PyStr
  | .vmStatus | .creationRefusal _ | .resizeRefusal _ _ => Option PyStr
  | .currentSize => BoxSize
  | .cpuCount => Option ℕ
  | .luksPassphrase => Passphrase
  | .bootStage => BootStage
  | .growpartLoadState | .luksDeviceFstype | .lsblkSize => PyStr
  | .guestRootUsage => RootUsage
  | .guestDeviceBytes _ | .guestFilesystemBytes _ => ℕ
  | _ => Unit

/-- What a run gives up with; a name for each message. -/
inductive YoError
  | failed (c : Cmd)
  | fatalGaps (gaps : List PyStr)
  | refused (why : PyStr)
  | noCpuCount
  | oneCpu
  | smallerDisk (current wanted : BoxSize)
  | notStopped (status : PyStr) (current : BoxSize) (changed : Size) (growAlone : Bool)
  | stageUnknown
  | stageNone
  | notUp (why : YoError)
  | growpartUnreadable
  | noGrowpart
  | notEncrypted
  | fstypeUnclear (fstype : PyStr)
  | partitionShort (size ceilingGib : ℕ)
  | unverified (ceilingGib : ℕ) (why : YoError)
  | didNotGrow (ceilingGib : ℕ)
  | onlyGrows (currentGib : ℕ)
  | stillStopped (why : YoError) (currentGib wantedGib : ℕ)
  | alreadyRaised (why : YoError) (wantedGib : ℕ)
  | stillSmall (why : YoError) (currentGib wantedGib : ℕ)
  deriving DecidableEq

abbrev Py := Script Cmd Answer YoError

def py (c : Cmd) : Py (Answer c) := Script.cmd (.failed c) c

/-- `if there: ...` -/
def onlyIf (there : Bool) (p : Py Unit) : Py Unit := if there then p else .ret ()

/-! ## The functions -/

/-- `default_cpus`: always one CPU left to the host. -/
def defaultCpus : Py ℕ := do
  let host : Option ℕ ← py .cpuCount
  match host with
  | none => .throw .noCpuCount
  | some host =>
    let cpus := min (DEFAULT_CPUS_CAP : ℤ) (host - 1)
    if cpus < 1 then .throw .oneCpu else .ret cpus.toNat

/-- `Size.for_creation`. -/
def Size.forCreation (size : Size) : Py Size :=
  match size.cpus with
  | some _ => .ret size
  | none => do
    let cpus ← defaultCpus
    .ret { size with cpus := some cpus }

/-- `passphrase or agent.luks_passphrase()`. -/
def orDerived : Option Passphrase → Py Passphrase
  | some (b :: bs) => .ret (b :: bs)
  | _ => py .luksPassphrase

section
variable (offStatus : PyStr)

def planResize (status : PyStr) (asked : Size) : Py (Option Resize) :=
  if asked.asked then do
    let current : BoxSize ← py .currentSize
    let wanted := asked.fill current
    if wanted = current then .ret none
    else if wanted.diskGib < current.diskGib then .throw (.smallerDisk current wanted)
    else if status ≠ offStatus then
      let changed := current.changesTo wanted
      let growAlone := status = RUNNING ∧ changed.memoryGib = none ∧ changed.cpus = none
      .throw (.notStopped status current changed growAlone)
    else do
      let refusal : Option PyStr ← py (.resizeRefusal current wanted)
      match refusal with
      | some why => .throw (.refused why)
      | none => .ret (some ⟨current, wanted⟩)
  else .ret none

/-- The gaps are fatal, or a warning. -/
def checkGaps : Py Unit := do
  let gaps : List PyStr ← py .configGaps
  let fatal : List PyStr ← py (.fatalGaps gaps)
  if fatal ≠ [] then .throw (.fatalGaps gaps)
  else onlyIf (gaps ≠ []) (py (.say (.gaps gaps)))

/-- The size to create a missing box at, or what to change of one that exists. -/
def plan (status : Option PyStr) (size : Size) : Py (Size × Option Resize) :=
  match status with
  | none => do
    let refusal : Option PyStr ← py (.creationRefusal size)
    match refusal with
    | some why => .throw (.refused why)
    | none => do
      let size ← size.forCreation
      .ret (size, none)
  | some status => do
    let resize ← planResize offStatus status size
    .ret (size, resize)

def setHardware : Option Resize → Py Unit
  | none => .ret ()
  | some resize =>
    onlyIf resize.setsHardware (py (.resize resize.wanted.memoryGib resize.wanted.cpus))

/-- The start of a box that is not running. -/
def startBox (status : Option PyStr) (passphrase : Option Passphrase) (size : Size)
    (resize : Option Resize) : Py (Option Passphrase) := do
  let passphrase ← orDerived passphrase
  setHardware resize
  py (.start passphrase (if status = none then size else NO_SIZE))
  .ret (some passphrase)

/-- What a running box still needs. -/
def unlockBox (passphrase : Option Passphrase) : Py (Option Passphrase) := do
  let stage : BootStage ← py .bootStage
  match stage with
  | .unknown => .throw .stageUnknown
  | .none => .throw .stageNone
  | .initrd => do
    let passphrase ← orDerived passphrase
    py (.unlockDisk passphrase)
    py .waitForOperator
    .ret (some passphrase)
  | .stage2 => .ret passphrase

/-- The passphrase, when one was needed. -/
def bringUp (status : Option PyStr) (passphrase : Option Passphrase) (size : Size)
    (resize : Option Resize) : Py (Option Passphrase) :=
  if status ≠ some RUNNING then startBox status passphrase size resize
  else unlockBox passphrase

def vmUp (runServices : Bool) (passphrase : Option Passphrase) (size : Size) :
    Py (Option Passphrase) := do
  checkGaps
  let status : Option PyStr ← py .vmStatus
  let planned ← plan offStatus status size
  py .requireLoginKey
  let passphrase ← bringUp status passphrase planned.1 planned.2
  py .ensureAgentSshConfig
  py .ensureGuestKnownHosts
  onlyIf runServices (py .vmServices)
  .ret passphrase

end

/-! ## The calls that only look -/

/-- The calls that leave the box, its sizes and its disk as they are. -/
def Bystander : Cmd → Prop
  | .resize _ _ | .start _ _ | .stop | .growDisk _ _ | .cryptsetupResize _ | .resize2fs => False
  | _ => True

theorem issues_py {P : Cmd → Prop} {c : Cmd} (hc : P c) :
    (py c).Issues P (fun _ => True) (fun _ => True) :=
  issues_cmd hc trivial fun _ => trivial

theorem issues_onlyIf {P : Cmd → Prop} {there : Bool} {p : Py Unit}
    (hp : p.Issues P (fun _ => True) (fun _ => True)) :
    (onlyIf there p).Issues P (fun _ => True) (fun _ => True) := by
  unfold onlyIf
  split_ifs
  · exact hp
  · trivial

theorem bystander_orDerived (passphrase : Option Passphrase) :
    (orDerived passphrase).Issues Bystander (fun _ => True) (fun _ => True) := by
  unfold orDerived
  split
  · trivial
  · exact issues_py trivial

theorem bystander_checkGaps : checkGaps.Issues Bystander (fun _ => True) (fun _ => True) := by
  refine (issues_py trivial).bind fun gaps _ => (issues_py trivial).bind fun fatal _ => ?_
  split_ifs
  · trivial
  · exact issues_onlyIf (issues_py trivial)

theorem bystander_unlockBox (passphrase : Option Passphrase) :
    (unlockBox passphrase).Issues Bystander (fun _ => True) (fun _ => True) := by
  refine (issues_py trivial).bind fun stage _ => ?_
  cases stage with
  | unknown => trivial
  | none => trivial
  | initrd =>
    exact (bystander_orDerived passphrase).bind fun key _ => (issues_py trivial).bind fun _ _ =>
      (issues_py trivial).bind fun _ _ => trivial
  | stage2 => trivial

end Vm
