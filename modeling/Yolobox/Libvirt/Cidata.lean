/-
# The cidata volume and its staged copy

`LibvirtDriver.sync_cidata` and `create_volume` of `yolobox_cli/libvirt.py`, as a
script over the file operations and the `virsh` calls they make.  The staged copy in
the instance directory is the key of a cache whose entry is the pool's volume, and
the two change in separate steps.  `does` is what a step does when it works, `fails`
what it may leave when it raises or is interrupted.

A call rebuilds the volume unless the staged copy reads as what is asked and some
volume exists; nothing compares the volume.
-/
import Yolobox.Lib.Script
import Yolobox.Lib.Utf8
import Yolobox.Text

open Script Utf8

namespace Cidata

/-! ## The interface -/

inductive Name
  | userData
  | metaData
  | limaEnv
  | etcEnvironment
  deriving DecidableEq, Repr

/-- `CIDATA_FILES`. -/
def cidataFiles : List Name := [.userData, .metaData, .limaEnv, .etcEnvironment]

theorem mem_cidataFiles (n : Name) : n ∈ cidataFiles := by
  cases n <;> decide

/-- The texts of a call, by name. -/
abbrev Files := Name → PyStr

/-- A directory of the instance that holds the files. -/
inductive Place
  | staging
  | building
  deriving DecidableEq, Repr

inductive Cmd
  | readTextFile (n : Name)                -- of the staged copy
  | volumeExists
  | dirExists (p : Place)
  | rmtree (p : Place)
  | privateDir                             -- of `building`
  | atomicWrite (n : Name) (text : PyStr)  -- in `building`
  | xorriso                                -- `iso` from `building`
  | isoSize
  | volDelete
  | volCreate (size : ℕ)
  | volUpload                              -- of `iso`
  | rename                                 -- `building` to `staging`
  | isoExists
  | unlinkIso
  deriving DecidableEq, Repr

abbrev Answer : Cmd → Type
  | .readTextFile _ => Option PyStr
  | .volumeExists | .dirExists _ | .isoExists => Bool
  | .isoSize => ℕ
  | _ => Unit

/-- A Python function; what it raises, a signal's exception included, carries nothing
that the callers here look at. -/
abbrev Py := Script Cmd Answer Unit

def py (c : Cmd) : Py (Answer c) := Script.cmd () c

/-- `if there: ...` -/
def onlyIf (there : Bool) (p : Py Unit) : Py Unit := if there then p else .ret ()

/-! ## The functions -/

/-- Never left half-filled, as far as the cleanup goes through. -/
def createVolume (size : ℕ) : Py Unit := do
  let _ ← py (.volCreate size)
  match ← (py .volUpload).caught with
  | .ok _ => .ret ()
  | .error failure =>
    let _ ← Script.attempt .volDelete  -- `check=False`
    .throw failure

/-- The loop over the staged copy, which stops at the first missing file. -/
def readStaged : List Name → (Name → Option PyStr) → Py (Name → Option PyStr)
  | [], staged => .ret staged
  | n :: ns, staged => do
    let text : Option PyStr ← py (.readTextFile n)
    match text with
    | none => .ret staged
    | some text => readStaged ns (Function.update staged n (some text))

def rmtreeIfExists (p : Place) : Py Unit := do
  let there : Bool ← py (.dirExists p)
  onlyIf there (py (.rmtree p))

/-- The body of the `try`. -/
def build (files : Files) : Py Unit := do
  let _ ← py .privateDir
  Script.each cidataFiles fun n => py (.atomicWrite n (files n))
  let _ ← py .xorriso
  let there : Bool ← py .volumeExists
  onlyIf there (py .volDelete)
  let size : ℕ ← py .isoSize
  createVolume size
  rmtreeIfExists .staging
  py .rename

/-- The `finally`. -/
def cleanUp : Py Unit := do
  let there : Bool ← py .isoExists
  onlyIf there (py .unlinkIso)
  rmtreeIfExists .building

/-- `staged == files and self.volume_exists(...)` -/
def current (files : Files) (staged : Name → Option PyStr) : Py Bool :=
  if cidataFiles.all fun n => staged n == some (files n) then py .volumeExists else .ret false

def syncCidata (files : Files) : Py Unit := do
  let staged ← readStaged cidataFiles fun _ => none
  if ← current files staged then .ret ()
  else do
    rmtreeIfExists .building
    let outcome ← (build files).caught
    cleanUp
    match outcome with
    | .ok _ => .ret ()
    | .error failure => .throw failure

/-! ## The host -/

/-- The files of a directory, by name. -/
abbrev Dir := Name → Option (List Byte)

/-- What a volume or an image file holds. -/
inductive Content
  | torn
  | image (d : Dir)

structure Host where
  volume : Option Content
  iso : Option Content
  staging : Option Dir
  building : Option Dir

def Host.empty : Host := ⟨none, none, none, none⟩

def Host.dir (h : Host) : Place → Option Dir
  | .staging => h.staging
  | .building => h.building

def Host.setDir (h : Host) : Place → Option Dir → Host
  | .staging, d => { h with staging := d }
  | .building, d => { h with building := d }

/-- Universal newlines. -/
def newlines : PyStr → PyStr
  | [] => []
  | 13 :: 10 :: text => 10 :: newlines text
  | c :: text => (if c = 13 then 10 else c) :: newlines text

/-- What `read_text_file` makes of the bytes of a file. -/
def readText (bytes : List Byte) : PyStr := newlines (decode bytes)

/-- A file of the staged copy. -/
def Host.staged (h : Host) (n : Name) : Option (List Byte) := h.staging.bind fun d => d n

def does : (c : Cmd) → Host → Answer c → Host → Prop
  | .readTextFile n, h, text, h' => text = (h.staged n).map readText ∧ h' = h
  | .volumeExists, h, there, h' => there = h.volume.isSome ∧ h' = h
  | .dirExists p, h, there, h' => there = (h.dir p).isSome ∧ h' = h
  | .rmtree p, h, _, h' => (h.dir p).isSome ∧ h' = h.setDir p none
  | .privateDir, h, _, h' => h' = { h with building := some (h.building.getD fun _ => none) }
  | .atomicWrite n text, h, _, h' =>
    ∃ d bytes, h.building = some d ∧ encode text = some bytes ∧
      h' = { h with building := some (Function.update d n (some bytes)) }
  | .xorriso, h, _, h' => ∃ d, h.building = some d ∧ h' = { h with iso := some (.image d) }
  | .isoSize, h, _, h' => h.iso.isSome ∧ h' = h
  | .volDelete, h, _, h' => h.volume.isSome ∧ h' = { h with volume := none }
  | .volCreate _, h, _, h' => h.volume = none ∧ h' = { h with volume := some .torn }
  | .volUpload, h, _, h' => h.volume.isSome ∧ h.iso.isSome ∧ h' = { h with volume := h.iso }
  | .rename, h, _, h' =>
    ∃ d, h.building = some d ∧ h.staging = none ∧
      h' = { h with staging := some d, building := none }
  | .isoExists, h, there, h' => there = h.iso.isSome ∧ h' = h
  | .unlinkIso, h, _, h' => h.iso.isSome ∧ h' = { h with iso := none }

/-- What a failing step may leave, besides nothing or all of its effect. -/
def leaves : Cmd → Host → Host → Prop
  | .rmtree p, h, h' =>
    ∃ d d' : Dir, h.dir p = some d ∧ (∀ n, d' n = d n ∨ d' n = none) ∧ h' = h.setDir p (some d')
  | .xorriso, h, h' => h' = { h with iso := some .torn }
  | .volUpload, h, h' => h.volume.isSome ∧ ∃ v, h' = { h with volume := some v }
  | _, _, _ => False

def fails (c : Cmd) (h h' : Host) : Prop := h' = h ∨ (∃ a, does c h a h') ∨ leaves c h h'

/-- Any step may fail. -/
def tools : Machine Answer Host := fun c h r h' =>
  match r with
  | some a => does c h a h'
  | none => fails c h h'

/-- A host on which the steps in `bad` fail and change nothing. -/
def handle (bad : Cmd → Bool) (c : Cmd) (h : Host) : Option (Answer c) × Host :=
  if bad c then (none, h)
  else match c with
    | .readTextFile n => (some ((h.staged n).map readText), h)
    | .volumeExists => (some h.volume.isSome, h)
    | .dirExists p => (some (h.dir p).isSome, h)
    | .rmtree p => if (h.dir p).isSome then (some (), h.setDir p none) else (none, h)
    | .privateDir => (some (), { h with building := some (h.building.getD fun _ => none) })
    | .atomicWrite n text =>
      match h.building, encode text with
      | some d, some bytes =>
        (some (), { h with building := some (Function.update d n (some bytes)) })
      | _, _ => (none, h)
    | .xorriso =>
      match h.building with
      | some d => (some (), { h with iso := some (.image d) })
      | none => (none, h)
    | .isoSize => if h.iso.isSome then (some 0, h) else (none, h)
    | .volDelete =>
      if h.volume.isSome then (some (), { h with volume := none }) else (none, h)
    | .volCreate _ =>
      match h.volume with
      | none => (some (), { h with volume := some .torn })
      | some _ => (none, h)
    | .volUpload =>
      if h.volume.isSome ∧ h.iso.isSome then (some (), { h with volume := h.iso })
      else (none, h)
    | .rename =>
      match h.building, h.staging with
      | some d, none => (some (), { h with staging := some d, building := none })
      | _, _ => (none, h)
    | .isoExists => (some h.iso.isSome, h)
    | .unlinkIso => if h.iso.isSome then (some (), { h with iso := none }) else (none, h)

theorem handle_tools (bad : Cmd → Bool) (c : Cmd) (h : Host) :
    tools c h (handle bad c h).1 (handle bad c h).2 := by
  have hnone : fails c h h := .inl rfl
  unfold handle
  by_cases hbad : bad c = true
  · rw [if_pos hbad]
    exact hnone
  rw [if_neg hbad]
  cases c <;> dsimp only <;> (try split) <;> first | exact hnone | simp_all [tools, does]

/-- The volume exists and holds exactly the files. -/
def Host.Carries (h : Host) (files : Files) : Prop :=
  ∃ d : Dir, h.volume = some (.image d) ∧ ∀ n, (d n).isSome ∧ d n = encode (files n)

end Cidata
