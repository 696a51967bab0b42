/-
# Growing a box's disk

`cmd_up`, `cmd_disk_grow` and the functions under them that raise a disk's ceiling and
grow the partition's mapping and filesystem into it (`yolobox_cli/vm.py`).  The
partition itself is grown by the guest's `growpart` at boot.
-/
import Yolobox.Config
import Yolobox.Vm.Up

open Script Config

namespace Vm

/-- What of the disk the partition does not get. -/
def PARTITION_SLACK_BYTES : ℕ := GIB

/-- What a grown mapping may lack of the partition, and a grown filesystem of its
mapping. -/
def MAPPING_SLACK_BYTES : ℕ := 64 * MIB

def DISK_FSTYPE_PLAIN : PyStr := lit "ext4"
def DISK_FSTYPE_LUKS : PyStr := lit "crypto_LUKS"

inductive DiskState
  | unreadable
  | plainExt4
  | encrypted
  | other
  deriving DecidableEq, Repr

def classifyDisk (fstype : PyStr) : DiskState :=
  if fstype = [] then .unreadable
  else if fstype = DISK_FSTYPE_PLAIN then .plainExt4
  else if fstype = DISK_FSTYPE_LUKS then .encrypted
  else .other

def requireGrowableGuest : Py Unit := do
  let stdout : PyStr ← py .growpartLoadState
  let loadState := (splitlines stdout).headD []
  if loadState = [] then .throw (.notUp .growpartUnreadable)
  else if loadState ≠ lit "loaded" then .throw .noGrowpart
  else do
    let fstype : PyStr ← py .luksDeviceFstype
    if classifyDisk fstype ≠ .encrypted then .throw .notEncrypted else .ret ()

/-- `vda2_size_for_report`: a failed read is reported, not raised. -/
def vda2SizeForReport : Py (Option PyStr) := do
  let stdout : Option PyStr ← Script.attempt Cmd.lsblkSize
  .ret (stdout.bind fun stdout => (splitlines stdout).head?)

def rootUsageBeforeGrow : Py RootUsage := (py .guestRootUsage).mapError .notUp

/-- Raise unless the partition fills the disk the ceiling describes. -/
def requirePartitionGrown (ceilingGib : ℕ) : Py Unit := do
  let size : ℕ ← py (.guestDeviceBytes .luksDevice)
  if size < ceilingGib * GIB - PARTITION_SLACK_BYTES then
    .throw (.partitionShort size ceilingGib)
  else .ret ()

/-- Whether the mapping or the filesystem is short of the device under it. -/
def rootHasRoomToGrow (ceilingGib : ℕ) : Py Bool := do
  let fstype : PyStr ← py .luksDeviceFstype
  if classifyDisk fstype = .plainExt4 then .ret false
  else if classifyDisk fstype ≠ .encrypted then .throw (.fstypeUnclear fstype)
  else do
    requirePartitionGrown ceilingGib
    let mappingBytes : ℕ ← py (.guestDeviceBytes .luksMapper)
    let partitionBytes : ℕ ← py (.guestDeviceBytes .luksDevice)
    if partitionBytes - mappingBytes > MAPPING_SLACK_BYTES then .ret true
    else do
      let filesystemBytes : ℕ ← py (.guestFilesystemBytes .luksMapper)
      .ret (decide (mappingBytes - filesystemBytes > MAPPING_SLACK_BYTES))

/-- Grow the mapping and the filesystem into the raised ceiling, and verify. -/
def growMappingAndFilesystem (passphrase : Passphrase) (ceilingGib : ℕ) (before : RootUsage)
    (finishing : Bool) : Py Unit := do
  py (.cryptsetupResize passphrase)
  py .resize2fs
  let after : RootUsage ← (py .guestRootUsage).mapError (.unverified ceilingGib)
  py (.say (.before before.humanLine))
  py (.say (.after after.humanLine))
  let vda2 ← vda2SizeForReport
  py (.say (.vda2 vda2))
  if after.totalKib > before.totalKib then .ret ()
  else if finishing then do
    -- An earlier run may have grown the root already and failed afterwards.
    requirePartitionGrown ceilingGib
    py (.say (.nothingLeft ceilingGib))
  else .throw (.didNotGrow ceilingGib)

/-- Grow into a ceiling already raised. -/
def finishPreviousGrow (ceilingGib : ℕ) (passphrase : Passphrase) : Py Unit := do
  requireGrowableGuest
  let before ← rootUsageBeforeGrow
  growMappingAndFilesystem passphrase ceilingGib before true

section
variable (offStatus : PyStr)

/-- Raise the running box's disk, and grow into it. -/
def growRunningDisk (currentGib wantedGib : ℕ) (passphrase : Option Passphrase) : Py Unit := do
  let passphrase ← orDerived passphrase
  let before ← rootUsageBeforeGrow
  py .stop
  (py (.growDisk currentGib wantedGib)).mapError fun error =>
    .stillStopped error currentGib wantedGib
  Script.mapError (fun error => .alreadyRaised error wantedGib) do
    let _ ← vmUp offStatus true (some passphrase) NO_SIZE
    growMappingAndFilesystem passphrase wantedGib before false

/-- After `yo up --disk` has the box up. -/
def growToAskedDisk (wantedGib : ℕ) (passphrase : Option Passphrase) : Py Unit := do
  let size : BoxSize ← py .currentSize
  let currentGib := size.diskGib
  if wantedGib < currentGib then .ret ()
  else if wantedGib = currentGib then do
    let room ← rootHasRoomToGrow wantedGib
    onlyIf room do
      let passphrase ← orDerived passphrase
      finishPreviousGrow wantedGib passphrase
  else do
    requireGrowableGuest.mapError fun error => .stillSmall error currentGib wantedGib
    growRunningDisk offStatus currentGib wantedGib passphrase

def cmdUp (size : Size) : Py Unit := do
  let passphrase ← vmUp offStatus true none size
  match size.diskGib with
  | none => .ret ()
  | some wantedGib => growToAskedDisk offStatus wantedGib passphrase

def cmdDiskGrow (wanted : ℕ) : Py Unit := do
  let size : BoxSize ← py .currentSize
  let currentGib := size.diskGib
  if wanted < currentGib then .throw (.onlyGrows currentGib)
  else if wanted = currentGib then do
    py (.say (.finishing currentGib))
    let passphrase : Passphrase ← py .luksPassphrase
    let _ ← vmUp offStatus true (some passphrase) NO_SIZE
    finishPreviousGrow wanted passphrase
  else do
    requireGrowableGuest
    growRunningDisk offStatus currentGib wanted none

end

end Vm
