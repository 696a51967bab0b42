/-
# The disk volume

`ensure_disk_volume`, `create_volume` and `ensure_seed` of `yolobox_cli/libvirt.py`, as
a script over the `virsh` calls and the file operations they make.  A volume is created
at the seed's size, filled by an upload and resized last, and whether it is finished is
read from its capacity alone.
-/
import Yolobox.Config
import Yolobox.Lib.Script
import Yolobox.Lib.Utf8
import Yolobox.Text

open Script Utf8 Config

namespace Disk

/-! ## The interface -/

def SEED_SHA512 : PyStr :=
  lit "cdf15475c6f799d3a355da50147fa81316e43e159b1b2e76eb21046f9fe8499770840ef876daaf85a2f5eb" ++
  lit "3a73445c4fa87d0337533fdf6f116d80c40806fbc9"

/-- The files of the seed's cache: the seed, and the download beside it. -/
inductive File
  | seed
  | part
  deriving DecidableEq, Repr

/-- What is printed on stderr. -/
inductive Note
  | neverFinished
  | failsCheck
  | downloading
  | removalFailed
  deriving DecidableEq, Repr

inductive Cmd
  | volumeExists
  | capacity                    -- `volume_sizes()["Capacity"]`
  | volDelete
  | volCreateAs (size : ℕ)
  | volUpload (source : File)
  | volResize (gib : ℕ)
  | makedirs
  | pathExists (f : File)
  | fileSha512 (f : File)
  | fileSize (f : File)
  | unlink (f : File)
  | mkstemp
  | urlopen                     -- the download into the part file
  | replace                     -- the part file over the seed
  | err (note : Note)
  deriving DecidableEq, Repr

abbrev Answer : Cmd → Type
  | .volumeExists | .pathExists _ => Bool
  | .capacity | .fileSize _ => ℕ
  | .fileSha512 _ => PyStr
  | _ => Unit

/-- What a call raises. -/
inductive Raised
  | failed (c : Cmd)
  | notPinned (digest : PyStr)
  | cannotDownload (c : Cmd)
  | uploadFailed (why : Raised) (removed : Bool)
  deriving DecidableEq, Repr

abbrev Py := Script Cmd Answer Raised

def py (c : Cmd) : Py (Answer c) := Script.cmd (.failed c) c

/-- `if there: ...` -/
def onlyIf (there : Bool) (p : Py Unit) : Py Unit := if there then p else .ret ()

/-! ## The functions -/

/-- The body of `download_seed`'s `try`. -/
def fetchPart : Py Unit := do
  py .urlopen
  let digest : PyStr ← py (.fileSha512 .part)
  if digest ≠ SEED_SHA512 then .throw (.notPinned digest) else py .replace

/-- `except (URLError, OSError) as failure`. -/
def downloadError : Raised → Raised
  | .failed c => .cannotDownload c
  | e => e

/-- Through a file of its own, checked before it is moved. -/
def downloadSeed : Py Unit := do
  py .mkstemp
  let outcome ← (fetchPart.mapError downloadError).caught
  let there : Bool ← py (.pathExists .part)
  onlyIf there (py (.unlink .part))
  match outcome with
  | .ok _ => .ret ()
  | .error failure => .throw failure

def freshSeed : Py File := do
  py (.err .downloading)
  downloadSeed
  .ret .seed

/-- Downloaded once and verified on every use. -/
def ensureSeed : Py File := do
  py .makedirs
  let there : Bool ← py (.pathExists .seed)
  if there then do
    let digest : PyStr ← py (.fileSha512 .seed)
    if digest = SEED_SHA512 then .ret .seed
    else do
      py (.err .failsCheck)
      py (.unlink .seed)
      freshSeed
  else freshSeed

/-- Never left half-filled, as far as the cleanup goes through. -/
def createVolume (size : ℕ) (source : File) : Py Unit := do
  py (.volCreateAs size)
  match ← (py (.volUpload source)).caught with
  | .ok _ => .ret ()
  | .error failure => do
    let cleanup : Option Unit ← Script.attempt Cmd.volDelete  -- `check=False`
    .throw (.uploadFailed failure cleanup.isSome)

def diskVolumeFinished (capacity : ℕ) : Bool := decide (capacity ≥ MIN_DISK_GIB * GIB)

/-- The seed, uploaded and resized to `diskGib`. -/
def buildDiskVolume (diskGib : ℕ) : Py Unit := do
  let seedFile ← ensureSeed
  let size : ℕ ← py (.fileSize seedFile)
  createVolume size seedFile
  py (.volResize diskGib)

/-- A finished volume is adopted as it is; an unfinished one is rebuilt. -/
def ensureDiskVolume (diskGib : ℕ) : Py Unit := do
  let there : Bool ← py .volumeExists
  if there then do
    let capacity : ℕ ← py .capacity
    if diskVolumeFinished capacity then .ret ()
    else do
      py (.err .neverFinished)
      py .volDelete
      buildDiskVolume diskGib
  else buildDiskVolume diskGib

/-! ## The host -/

/-- What a volume holds. -/
inductive Content
  | blank
  | torn                          -- an upload that stopped part-way
  | image (bytes : List Byte)
  | box (bytes : List Byte)       -- what a box wrote onto an image
  deriving DecidableEq, Repr

structure Volume where
  capacity : ℕ
  content : Content
  deriving DecidableEq, Repr

structure Host where
  volume : Option Volume
  seed : Option (List Byte)
  part : Option (List Byte)
  deriving DecidableEq, Repr

/-- `sha512` of a file's bytes in hexadecimal, and the capacity of a volume that holds
them.  The seed, as a file and as a disk, is smaller than any box. -/
structure Images where
  sha512 : List Byte → PyStr
  virtualSize : List Byte → ℕ
  length_lt : ∀ bytes, sha512 bytes = SEED_SHA512 → bytes.length < MIN_DISK_GIB * GIB
  virtualSize_lt : ∀ bytes, sha512 bytes = SEED_SHA512 → virtualSize bytes < MIN_DISK_GIB * GIB

variable (images : Images)

def Host.file (h : Host) : File → Option (List Byte)
  | .seed => h.seed
  | .part => h.part

def Host.setFile (h : Host) : File → Option (List Byte) → Host
  | .seed, bytes => { h with seed := bytes }
  | .part, bytes => { h with part := bytes }

/-- What a step does when it succeeds. -/
def does : (c : Cmd) → Host → Answer c → Host → Prop
  | .volumeExists, h, there, h' => there = h.volume.isSome ∧ h' = h
  | .capacity, h, n, h' => ∃ v, h.volume = some v ∧ n = v.capacity ∧ h' = h
  | .volDelete, h, _, h' => h.volume.isSome ∧ h' = { h with volume := none }
  | .volCreateAs size, h, _, h' => h.volume = none ∧ h' = { h with volume := some ⟨size, .blank⟩ }
  | .volUpload f, h, _, h' =>
    ∃ v bytes, h.volume = some v ∧ h.file f = some bytes ∧
      h' = { h with volume := some ⟨images.virtualSize bytes, .image bytes⟩ }
  | .volResize gib, h, _, h' =>
    ∃ v, h.volume = some v ∧ v.capacity ≤ gib * GIB ∧
      h' = { h with volume := some { v with capacity := gib * GIB } }
  | .pathExists f, h, there, h' => there = (h.file f).isSome ∧ h' = h
  | .fileSha512 f, h, digest, h' => ∃ bytes, h.file f = some bytes ∧ digest = images.sha512 bytes ∧ h' = h
  | .fileSize f, h, n, h' => ∃ bytes, h.file f = some bytes ∧ n = bytes.length ∧ h' = h
  | .unlink f, h, _, h' => (h.file f).isSome ∧ h' = h.setFile f none
  | .mkstemp, h, _, h' => h' = { h with part := some [] }
  | .urlopen, h, _, h' => h.part.isSome ∧ ∃ bytes, h' = { h with part := some bytes }
  | .replace, h, _, h' =>
    ∃ bytes, h.part = some bytes ∧ h' = { h with seed := some bytes, part := none }
  | .makedirs, h, _, h' => h' = h
  | .err _, h, _, h' => h' = h

/-- What a failing step may leave, besides nothing or all of its effect. -/
def leaves : Cmd → Host → Host → Prop
  | .volUpload f, h, h' =>
    ∃ v bytes capacity, h.volume = some v ∧ h.file f = some bytes ∧
      (capacity = v.capacity ∨ capacity = images.virtualSize bytes) ∧
      h' = { h with volume := some ⟨capacity, .torn⟩ }
  | .urlopen, h, h' => h.part.isSome ∧ ∃ bytes, h' = { h with part := some bytes }
  | _, _, _ => False

def fails (c : Cmd) (h h' : Host) : Prop := h' = h ∨ (∃ a, does images c h a h') ∨ leaves images c h h'

/-- Any step may fail. -/
def tools : Machine Answer Host := fun c h r h' =>
  match r with
  | some a => does images c h a h'
  | none => fails images c h h'

/-! ## Runs -/

/-- Taken to a box's size. -/
def Volume.Finished (v : Volume) : Prop := MIN_DISK_GIB * GIB ≤ v.capacity

/-- Holding the pinned seed, or what a box later wrote onto it. -/
def Volume.Verified (v : Volume) : Prop :=
  ∃ bytes, images.sha512 bytes = SEED_SHA512 ∧ (v.content = .image bytes ∨ v.content = .box bytes)

/-- The pool has a finished volume. -/
def Host.Finished (h : Host) : Prop := ∃ v, h.volume = some v ∧ v.Finished

/-- The hosts that calls may leave, one after another, from `h₀`: between two calls a
box may write onto a finished disk and its disk may grow, the volume may be deleted, and
the cached seed may become anything. -/
inductive Runs (h₀ : Host) : Host → Prop
  | refl : Runs h₀ h₀
  | call {h h' : Host} (diskGib : ℕ) {o : Outcome Raised Unit} :
      Runs h₀ h → MIN_DISK_GIB ≤ diskGib → (ensureDiskVolume diskGib).Ends (tools images) h o h' →
      Runs h₀ h'
  | boxWrites {h : Host} {v : Volume} {bytes : List Byte} {capacity : ℕ} :
      Runs h₀ h → h.volume = some v → v.Finished → v.content = .image bytes ∨ v.content = .box bytes →
      v.capacity ≤ capacity → Runs h₀ { h with volume := some ⟨capacity, .box bytes⟩ }
  | deleted {h : Host} : Runs h₀ h → Runs h₀ { h with volume := none }
  | cached {h : Host} {f : File} {bytes : Option (List Byte)} :
      Runs h₀ h → Runs h₀ (h.setFile f bytes)

/-- The steps that change the pool. -/
def Cmd.changesVolume : Cmd → Bool
  | .volDelete | .volCreateAs _ | .volUpload _ | .volResize _ => true
  | _ => false

/-- Where a step of a call may be taken: a finished volume is left alone, and only the
pinned seed is uploaded. -/
def Allowed (c : Cmd) (h : Host) : Prop :=
  (h.Finished → c.changesVolume = false) ∧
  ∀ f, c = .volUpload f → ∃ bytes, h.file f = some bytes ∧ images.sha512 bytes = SEED_SHA512

end Disk
