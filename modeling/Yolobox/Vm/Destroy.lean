/-
# `yo destroy`

`cmd_destroy` and `destruction_steps` (`yolobox_cli/vm.py`) with the pieces they are made of:
the ssh masters (`sshx.py`), `LibvirtDriver.removals` (`libvirt.py`), the herdr machine
(`forwards.py`) and the file that remembers the ref (`state.py`).  Every command may fail,
and one that failed may have done its work; the domain may go off at any time, and another
`yo` may start it.  Nothing locks that out between the last read of its state and its
`undefine`; that it does not happen there is assumed.
-/
import Yolobox.Machine
import Yolobox.Libvirt.Stop

open Script hiding Machine

namespace Destroy

/-! ## The interface -/

inductive Role
  | agent
  | operator
  deriving DecidableEq, Repr

/-- An entry of `herdr machine list --json`: a text where one is needed. -/
structure HerdrMachine where
  target : Option PyStr
  id : Option PyStr
  deriving DecidableEq, Repr

/-- What a step says that it removes. -/
inductive What
  | master (role : Role)
  | power (domain : PyStr)
  | definition (domain : PyStr)
  | volume (volume : PyStr)
  | directory (path : PyStr)
  | herdrMachine (target : PyStr)
  | file (path : PyStr)
  deriving DecidableEq, Repr

inductive Line
  | nothing (name : PyStr)
  | would (name : PyStr)
  | step (what : What)
  | lost (name : PyStr)
  deriving DecidableEq, Repr

inductive Cmd
  | unlockLock (path : PyStr)        -- without waiting for it
  | checkMaster (role : Role)        -- `ssh -O check`
  | exitMaster (role : Role)         -- `ssh -O exit`, whatever its exit status
  | privateDir (path : PyStr)
  | domainNames
  | domstate (domain : PyStr)
  | destroy (domain : PyStr)
  | undefine (domain : PyStr)
  | volumeNames
  | volDelete (volume : PyStr)
  | pathExists (path : PyStr)
  | deleteTree (path : PyStr)
  | deleteFile (path : PyStr)
  | herdrList
  | herdrRemove (id : PyStr)
  | out (line : Line)
  deriving DecidableEq, Repr

abbrev Answer : Cmd → Type
  | .unlockLock _ => Bool
  | .checkMaster _ => Bool
  | .domainNames => List PyStr
  | .domstate _ => PyStr
  | .volumeNames => List PyStr
  | .pathExists _ => Bool
  | .herdrList => Option (List HerdrMachine)   -- `none`: not a JSON array
  | _ => Unit

inductive PyError
  | unlockBusy
  | masterStillRunning (role : Role)
  | noDomain
  | herdrUnparseable
  | herdrNoId
  | raisedBy (c : Cmd)
  deriving DecidableEq, Repr

abbrev Py := Script Cmd Answer PyError

def py (c : Cmd) : Py (Answer c) := Script.cmd (.raisedBy c) c

/-- A piece of a machine, and the way to remove it. -/
structure Removal where
  what : What
  remove : Py Unit

/-! ## The functions -/

section
variable (m : Machine) (HOME : PyStr)

def instanceDir : PyStr := (m.env .libvirt HOME).instanceDir

/-- `stop_master`. -/
def stopMaster (role : Role) : Py Unit :=
  (py (.exitMaster role)).bind fun _ =>
    (py (.checkMaster role)).bind fun alive =>
      if alive then .throw (.masterStillRunning role) else .ret ()

/-- `agent_master_removals`. -/
def agentMasterRemovals : Py (List Removal) :=
  (py (.checkMaster .agent)).bind fun alive =>
    .ret (if alive then [⟨.master .agent, stopMaster .agent⟩] else [])

/-- `close_master`; its lock is a file of the instance directory. -/
def closeMaster : Py Unit :=
  (py (.privateDir (instanceDir m HOME))).bind fun _ => stopMaster .operator

def operatorMasterRemovals : Py (List Removal) :=
  (py (.checkMaster .operator)).bind fun alive =>
    .ret (if alive then [⟨.master .operator, closeMaster m HOME⟩] else [])

/-- `force_stop`. -/
def forceStop : Py Unit :=
  (py .domainNames).bind fun names =>
    if m.domainName ∉ names then .throw .noDomain
    else
      (py (.domstate m.domainName)).bind fun state =>
        if state = Stop.STATE_OFF then .ret () else py (.destroy m.domainName)

/-- `undefine_domain`. -/
def undefineDomain : Py Unit := (forceStop m).bind fun _ => py (.undefine m.domainName)

def domainRemovals : Py (List Removal) :=
  (py .domainNames).bind fun names =>
    if m.domainName ∉ names then .ret []
    else
      (py (.domstate m.domainName)).bind fun state =>
        .ret ((if state = Stop.STATE_OFF then [] else [⟨.power m.domainName, forceStop m⟩]) ++
          [⟨.definition m.domainName, undefineDomain m⟩])

def volumeRemovals : Py (List Removal) :=
  (py .volumeNames).bind fun volumes =>
    .ret ((m.volumes.filter fun volume => decide (volume ∈ volumes)).map fun volume =>
      ⟨.volume volume, py (.volDelete volume)⟩)

def directoryRemovals : Py (List Removal) :=
  (py (.pathExists (instanceDir m HOME))).bind fun there =>
    .ret (if there then [⟨.directory (instanceDir m HOME), py (.deleteTree (instanceDir m HOME))⟩] else [])

/-- `LibvirtDriver.removals`. -/
def removals : Py (List Removal) :=
  (operatorMasterRemovals m HOME).bind fun masters =>
    (domainRemovals m).bind fun domain =>
      (volumeRemovals m).bind fun volumes =>
        (directoryRemovals m HOME).bind fun directory =>
          .ret (masters ++ domain ++ volumes ++ directory)

/-- `herdr_machine_id`. -/
def herdrMachineId (listing : Option (List HerdrMachine)) : Py (Option PyStr) :=
  match listing with
  | none => .throw .herdrUnparseable
  | some entries =>
    match entries.find? fun entry => entry.target == some (m.box .libvirt).herdrAlias with
    | none => .ret none
    | some entry =>
      match entry.id with
      | none => .throw .herdrNoId
      | some id => if id = [] then .throw .herdrNoId else .ret (some id)

/-- `herdr_machine_removals`. -/
def herdrMachineRemovals : Py (List Removal) :=
  (py .herdrList).bind fun listing =>
    (herdrMachineId m listing).bind fun id =>
      .ret (id.toList.map fun id => ⟨.herdrMachine (m.box .libvirt).herdrAlias, py (.herdrRemove id)⟩)

def flakeRefRemovals : Py (List Removal) :=
  (py (.pathExists (m.flakeRefFile HOME))).bind fun there =>
    .ret (if there then [⟨.file (m.flakeRefFile HOME), py (.deleteFile (m.flakeRefFile HOME))⟩] else [])

/-- `destruction_steps`; `herdr` says whether the host has a herdr. -/
def destructionSteps (herdr : Bool) : Py (List Removal) :=
  agentMasterRemovals.bind fun agent =>
    (removals m HOME).bind fun driver =>
      (if herdr then herdrMachineRemovals m else .ret []).bind fun machines =>
        (flakeRefRemovals m HOME).bind fun ref => .ret (agent ++ driver ++ machines ++ ref)

/-- What `cmd_destroy` does with the steps. -/
def carryOut (yes : Bool) (steps : List Removal) : Py Unit :=
  if steps.isEmpty then py (.out (.nothing m.name))
  else if yes then
    each steps fun step => (py (.out (.step step.what))).bind fun _ => step.remove
  else
    (py (.out (.would m.name))).bind fun _ =>
      (each steps fun step => py (.out (.step step.what))).bind fun _ => py (.out (.lost m.name))

/-- `cmd_destroy`. -/
def cmdDestroy (herdr yes : Bool) : Py Unit :=
  if yes then
    (py (.unlockLock (m.unlockLock HOME))).bind fun free =>
      if free then (destructionSteps m HOME herdr).bind (carryOut m true) else .throw .unlockBusy
  else (destructionSteps m HOME herdr).bind (carryOut m false)

end

/-! ## The host -/

/-- What the host has: the machine's masters, and the domains, volumes, paths and herdr
machines of all. -/
structure Host where
  masters : Role → Bool
  domains : PyStr → Option PyStr     -- a state, in virsh's words
  volumes : PyStr → Bool
  paths : PyStr → Bool
  herdr : List HerdrMachine

/-- What a command does when it does its work.  The file of the lock is made and stays; a
domain that runs goes on without a definition. -/
def effect : Cmd → Host → Host
  | .unlockLock path, h => { h with paths := Function.update h.paths path true }
  | .exitMaster role, h => { h with masters := Function.update h.masters role false }
  | .privateDir path, h => { h with paths := Function.update h.paths path true }
  | .destroy domain, h =>
    { h with domains := Function.update h.domains domain ((h.domains domain).map fun _ => Stop.STATE_OFF) }
  | .undefine domain, h =>
    if h.domains domain = some Stop.STATE_OFF then
      { h with domains := Function.update h.domains domain none }
    else h
  | .volDelete volume, h => { h with volumes := Function.update h.volumes volume false }
  | .deleteTree path, h => { h with paths := Function.update h.paths path false }
  | .deleteFile path, h => { h with paths := Function.update h.paths path false }
  | .herdrRemove id, h => { h with herdr := h.herdr.filter fun entry => entry.id != some id }
  | _, h => h

/-- A domain goes off, or another `yo` starts it; never between the last read of its state and
its `undefine` (assumed). -/
structure Drifts (domain : PyStr) (c : Cmd) (h h' : Host) : Prop where
  others : ∃ state, h' = { h with domains := Function.update h.domains domain state } ∧
    state.isSome = (h.domains domain).isSome
  off : c = .undefine domain → h.domains domain = some Stop.STATE_OFF → h'.domains domain = some Stop.STATE_OFF

/-- An answer is true where it says what there is.  ssh reads its configuration out of the
instance directory, so without one it sees no master. -/
def Answers (directory : PyStr) (h : Host) : (c : Cmd) → Option (Answer c) → Prop
  | .checkMaster role, r => ∀ alive, r = some alive → alive = (h.masters role && h.paths directory)
  | .domainNames, r => ∀ names, r = some names → ∀ domain, domain ∈ names ↔ (h.domains domain).isSome = true
  | .domstate domain, r => ∀ state, r = some state → h.domains domain = some state
  | .volumeNames, r => ∀ names, r = some names → ∀ volume, volume ∈ names ↔ h.volumes volume = true
  | .pathExists path, r => ∀ there, r = some there → there = h.paths path
  | .herdrList, r => ∀ entries, r = some (some entries) → entries = h.herdr
  | .destroy domain, r => r = some () → (h.domains domain).isSome = true
  | _, _ => True

/-- The commands that say nothing when their work failed. -/
def Cmd.silent : Cmd → Bool
  | .exitMaster _ => true
  | _ => false

def host (m : Machine) (HOME : PyStr) : Script.Machine Answer Host := fun c h r h' =>
  ∃ t, Drifts m.domainName c h t ∧ Answers (instanceDir m HOME) t c r ∧
    (h' = effect c t ∨ (r = none ∨ c.silent = true) ∧ h' = t)

end Destroy
