/-
# The host ports of boxes and forwards

`host_port_window`, `lowest_free_port`, and the `LibvirtDriver`'s `allocate_host_port`,
`create_domain` and `forward_port`, as scripts of any number of `yo` processes on one
host, next to the starts, stops, undefines and closed masters of any machine.  One
action is one command of one process, so the processes interleave between any two
commands; a command may fail without effect, and one that changes the host may also
report a failure after it.

Of a domain's XML there is what `yolobox_domains` reads of it.
-/
import Yolobox.Config
import Yolobox.Text
import Yolobox.Lib.Rely
import Yolobox.Lib.Transition

namespace Ports

def MAX_PORT : ℕ := 65535

def GUEST_SSH_PORT : ℕ := 22

/-- A `range` of a `portForward`: the first host port, the last one where it is given, and
the guest port.  libvirt admits no range without a numeric start, and none that ends
before it starts. -/
structure PortRange where
  start : ℕ
  stop : Option ℕ
  guestPort : Option ℕ          -- the attribute `to`
  start_le : ∀ last ∈ stop, start ≤ last

instance instDecidableEqPortRange : DecidableEq PortRange := fun a b =>
  decidable_of_iff (a.start = b.start ∧ a.stop = b.stop ∧ a.guestPort = b.guestPort)
    ⟨fun ⟨hstart, hstop, hto⟩ => by cases a; cases b; simp_all, fun h => h ▸ ⟨rfl, rfl, rfl⟩⟩

/-- A host port that the range forwards. -/
def PortRange.holds (range : PortRange) (port : ℕ) : Bool :=
  range.start ≤ port && port ≤ range.stop.getD range.start

structure PortForward where
  ranges : List PortRange
  deriving DecidableEq

structure Interface where
  portForwards : List PortForward
  deriving DecidableEq

/-- What `virsh dumpxml` prints of a domain. -/
structure DomainXml where
  marker : Option PyStr         -- the `yolobox:instance` metadata
  interfaces : List Interface
  deriving DecidableEq

/-- `root.findall("devices/interface/portForward")`, and the ranges of each. -/
def DomainXml.ranges (xml : DomainXml) : List PortRange :=
  (xml.interfaces.flatMap (·.portForwards)).flatMap (·.ranges)

/-- `forward_ports` of `domain_info`. -/
def DomainXml.forwardPorts (xml : DomainXml) : List ℕ := xml.ranges.map (·.start)

/-- `ssh_port` of `domain_info`. -/
def DomainXml.sshPort (xml : DomainXml) : Option ℕ :=
  (xml.ranges.find? fun range => range.guestPort == some GUEST_SSH_PORT).map (·.start)

/-- The range of the template `libvirt/domain.xml`. -/
def sshRange (port : ℕ) : PortRange := ⟨port, none, some GUEST_SSH_PORT, nofun⟩

/-- `domain_xml`: the template, filled in. -/
def domainXml (machine : PyStr) (port : ℕ) : DomainXml := ⟨some machine, [⟨[⟨[sshRange port]⟩]⟩]⟩

/-- `Box.vm_name`. -/
def vmName (machine : PyStr) : PyStr := lit "yolobox-" ++ machine

/-! ## The scripts -/

inductive Cmd
  | vmAccount
  | makeInstancesDir
  | flock                       -- `.port.lock`, waiting for it
  | close                       -- the lock's descriptor
  | list                        -- `virsh list --all --name`
  | dumpxml (name : PyStr)
  | readPortRange
  | probe (port : ℕ)
  | writeXml (machine : PyStr) (xml : DomainXml)
  | define (machine : PyStr)    -- `virsh define` of the file written
  | ensureMaster (machine : PyStr)
  | forward (machine : PyStr) (hostPort guestPort : ℕ)
  | start (machine : PyStr)
  | shutdown (machine : PyStr)
  | undefine (machine : PyStr)
  | exitMaster (machine : PyStr)
  deriving DecidableEq

abbrev Answer : Cmd → Type
  | .list => List PyStr
  | .dumpxml _ => DomainXml
  | .readPortRange => PyStr
  | .probe _ => Bool
  | _ => Unit

inductive YoError
  | failed (c : Cmd)
  | stillDefined (name : PyStr)     -- a `dumpxml` failed, and not for an undefined domain
  | notTwoPorts (text : PyStr)
  | noPortAbove (last : PyStr)
  | noFreePort
  deriving DecidableEq

abbrev Py := Script Cmd Answer YoError

def py (c : Cmd) : Py (Answer c) := Script.cmd (.failed c) c

/-- `text.split()` -/
def fields (text : PyStr) : List PyStr := (text.splitOnP isSpace).filter fun field => !field.isEmpty

/-- `is_ascii_number`. -/
def isAsciiNumber (text : PyStr) : Bool := !text.isEmpty && text.all isDigit

/-- The ports from the one after `last` on. -/
def windowAfter (last : PyStr) : Except YoError (List ℕ) :=
  let first := num last + 1
  if first > MAX_PORT then .error (.noPortAbove last)
  else .ok (List.range' first (MAX_PORT + 1 - first))

def hostPortWindow (rangeText : PyStr) : Except YoError (List ℕ) :=
  match fields rangeText with
  | [low, last] =>
    if isAsciiNumber low && isAsciiNumber last then windowAfter last
    else .error (.notTwoPorts rangeText)
  | _ => .error (.notTwoPorts rangeText)

def lowestFreePort (taken : List ℕ) : List ℕ → Py ℕ
  | [] => .throw .noFreePort
  | port :: ports =>
    if port ∈ taken then lowestFreePort taken ports
    else do
      let isBound ← py (.probe port)
      if isBound then lowestFreePort taken ports else .ret port

/-- `raise_unless_undefined`. -/
def raiseUnlessUndefined (name : PyStr) : Py Unit := do
  let names ← py .list
  if name ∈ names then .throw (.stillDefined name) else .ret ()

/-- The root of a domain's XML, none for a domain that went away. -/
def rootOf (name : PyStr) : Option DomainXml → Py (List DomainXml)
  | some xml => .ret [xml]
  | none => do
    raiseUnlessUndefined name
    return []

def roots : List PyStr → Py (List DomainXml)
  | [] => .ret []
  | name :: names => do
    let dump ← Script.attempt (.dumpxml name)
    let here ← rootOf name dump
    let more ← roots names
    return here ++ more

def yoloboxDomains : Py (List DomainXml) := do
  let names ← py .list
  let all ← roots names
  return all.filter fun xml => xml.marker.isSome

def readPortWindow : Py (List ℕ) := do
  let rangeText ← py .readPortRange
  match hostPortWindow rangeText with
  | .ok window => .ret window
  | .error e => .throw e

def allocateHostPort : Py ℕ := do
  let domains ← yoloboxDomains
  let window ← readPortWindow
  lowestFreePort (domains.flatMap (·.forwardPorts)) window

/-- Go on as a caught script ended. -/
def reraise {α : Type} : Except YoError α → Py α
  | .ok a => .ret a
  | .error e => .throw e

/-- A body under `port_lock`. -/
def portLock {α : Type} (body : Py α) : Py α := do
  py .makeInstancesDir
  py .flock
  let ended ← body.caught
  py .close
  reraise ended

def createDomain (machine : PyStr) : Py ℕ := do
  py .vmAccount
  portLock do
    let port ← allocateHostPort
    py (.writeXml machine (domainXml machine port))
    py (.define machine)
    return port

def forwardPort (machine : PyStr) (guestPort : ℕ) : Py ℕ := do
  py (.ensureMaster machine)
  portLock do
    let hostPort ← allocateHostPort
    py (.forward machine hostPort guestPort)
    return hostPort

/-- What a process runs that bears on the ports. -/
inductive Job
  | createDomain (machine : PyStr)
  | forwardPort (machine : PyStr) (guestPort : ℕ)
  | start (machine : PyStr)
  | stop (machine : PyStr)
  | undefine (machine : PyStr)
  | closeMaster (machine : PyStr)
  deriving DecidableEq, Repr

def Job.script : Job → Py Unit
  | .createDomain machine => (Ports.createDomain machine).bind fun _ => .ret ()
  | .forwardPort machine guestPort => (Ports.forwardPort machine guestPort).bind fun _ => .ret ()
  | .start machine => py (.start machine)
  | .stop machine => py (.shutdown machine)
  | .undefine machine => py (.undefine machine)
  | .closeMaster machine => py (.exitMaster machine)

/-! ## The host -/

/-- A domain libvirt knows; an undefined one lives on until it goes off. -/
structure Domain where
  name : PyStr
  xml : DomainXml
  persistent : Bool
  active : Bool
  deriving DecidableEq

/-- A forward of an operator master. -/
structure Forward where
  machine : PyStr
  port : ℕ
  guestPort : ℕ
  deriving DecidableEq, Repr

structure Host where
  domains : List Domain
  forwards : List Forward
  xmlFile : PyStr → Option DomainXml    -- `domain.xml` in a machine's instance directory
  lock : Option ℕ                       -- the process that holds `.port.lock`

def Domain.binds (d : Domain) (port : ℕ) : Bool := d.active && d.xml.ranges.any (·.holds port)

/-- Something holds the port on 127.0.0.1. -/
def Host.bound (h : Host) (port : ℕ) : Bool :=
  h.domains.any (·.binds port) || h.forwards.any (·.port == port)

def Host.find (h : Host) (name : PyStr) : Option Domain := h.domains.find? (·.name == name)

def Host.change (h : Host) (f : Domain → Option Domain) : Host :=
  { h with domains := h.domains.filterMap f }

/-- The domain of that name runs. -/
def Domain.started (name : PyStr) (d : Domain) : Option Domain :=
  if d.name = name then some { d with active := true } else some d

/-- The domain of that name is off, and gone if it was undefined. -/
def Domain.off (name : PyStr) (d : Domain) : Option Domain :=
  if d.name = name then (if d.persistent then some { d with active := false } else none) else some d

def Domain.undefined (name : PyStr) (d : Domain) : Option Domain :=
  if d.name = name then (if d.active then some { d with persistent := false } else none) else some d

/-- passt binds every port of a domain that starts. -/
def startDomain (h : Host) (name : PyStr) : Option Host :=
  match h.find name with
  | some d =>
    if d.active || (List.range (MAX_PORT + 1)).any fun port => d.xml.ranges.any (·.holds port) && h.bound port
    then none
    else some (h.change (Domain.started name))
  | none => none

def undefineDomain (h : Host) (name : PyStr) : Option Host :=
  match h.find name with
  | some d => if d.persistent then some (h.change (Domain.undefined name)) else none
  | none => none

/-- The XML carries no uuid, so a domain of the name is in the way. -/
def defineDomain (h : Host) (machine : PyStr) : Option Host :=
  match h.xmlFile machine, h.find (vmName machine) with
  | some xml, none => some { h with domains := h.domains ++ [⟨vmName machine, xml, true, false⟩] }
  | _, _ => none

def openForward (h : Host) (machine : PyStr) (hostPort guestPort : ℕ) : Option Host :=
  if h.bound hostPort then none
  else some { h with forwards := h.forwards ++ [⟨machine, hostPort, guestPort⟩] }

def closeForwards (h : Host) (machine : PyStr) : Host :=
  { h with forwards := h.forwards.filter (·.machine != machine) }

/-- `/proc/sys/net/ipv4/ip_local_port_range`, as the kernel writes it. -/
def portRangeText (low high : ℕ) : PyStr := dec low ++ 9 :: (dec high ++ [10])

variable (low high : ℕ)

/-- What a command of a process answers and does; `none` where it cannot. -/
def obey (pid : ℕ) : (c : Cmd) → Host → Option (Answer c × Host)
  | .flock, h => if h.lock = none then some ((), { h with lock := some pid }) else none
  | .close, h => some ((), { h with lock := none })
  | .list, h => some (h.domains.map (·.name), h)
  | .dumpxml name, h => (h.find name).map fun d => (d.xml, h)
  | .readPortRange, h => some (portRangeText low high, h)
  | .probe port, h => some (h.bound port, h)
  | .writeXml machine xml, h =>
    some ((), { h with xmlFile := Function.update h.xmlFile machine (some xml) })
  | .define machine, h => (defineDomain h machine).map fun t => ((), t)
  | .forward machine hostPort guestPort, h =>
    (openForward h machine hostPort guestPort).map fun t => ((), t)
  | .start machine, h => (startDomain h (vmName machine)).map fun t => ((), t)
  | .undefine machine, h => (undefineDomain h (vmName machine)).map fun t => ((), t)
  | .exitMaster machine, h => some ((), closeForwards h machine)
  | .vmAccount, h | .makeInstancesDir, h | .ensureMaster _, h | .shutdown _, h => some ((), h)

/-- How a command ends. -/
inductive How
  | done
  | failed                      -- and nothing has happened
  | failedLate                  -- and yet it has happened
  deriving DecidableEq, Repr

/-- Closing the descriptor always drops the lock, and a process that failed to take it
does not hold it. -/
def ending (pid : ℕ) (how : How) (c : Cmd) (h : Host) : Option (Option (Answer c) × Host) :=
  match how with
  | .done => (obey low high pid c h).map fun (answer, t) => (some answer, t)
  | .failed => if c = .close then none else some (none, h)
  | .failedLate =>
    if c = .flock ∨ c = .close then none else (obey low high pid c h).map fun (_, t) => (none, t)

/-! ## The system -/

structure Sys where
  host : Host
  process : ℕ → Py Unit         -- what is left of a process's script

inductive Action
  | launch (pid : ℕ) (job : Job)
  | run (pid : ℕ) (how : How)   -- the next command
  | goesOff (name : PyStr)      -- a domain, by itself or after a `shutdown`
  | masterDies (machine : PyStr)
  deriving DecidableEq, Repr

def Sys.proceed (s : Sys) (pid : ℕ) (left : Py Unit) (h : Host) : Sys :=
  ⟨h, Function.update s.process pid left⟩

def runNext (s : Sys) (pid : ℕ) (how : How) : Py Unit → Option Sys
  | .exec c k => (ending low high pid how c s.host).map fun (r, h) => s.proceed pid (k r) h
  | _ => none

/-- A process whose script is over runs another. -/
def launch (s : Sys) (pid : ℕ) (job : Job) : Py Unit → Option Sys
  | .exec _ _ => none
  | _ => some (s.proceed pid job.script s.host)

def step (s : Sys) : Action → Option Sys
  | .launch pid job => launch s pid job (s.process pid)
  | .run pid how => runNext low high s pid how (s.process pid)
  | .goesOff name => some { s with host := s.host.change (Domain.off name) }
  | .masterDies machine => some { s with host := closeForwards s.host machine }

/-! ## The claimed ports -/

/-- The ssh port of a defined yolobox domain. -/
def Domain.claims (d : Domain) : Option ℕ :=
  if d.persistent && d.xml.marker.isSome then d.xml.sshPort else none

/-- The ssh ports of the defined yolobox domains and the ports of the live forwards. -/
def Host.claimed (h : Host) : List ℕ := h.domains.filterMap Domain.claims ++ h.forwards.map (·.port)

/-- Domains have different names, claimed ports are different, and each lies above the
kernel's ephemeral range. -/
structure Host.Sound (high : ℕ) (h : Host) : Prop where
  names : (h.domains.map (·.name)).Nodup
  claimed : h.claimed.Nodup
  above : ∀ port ∈ h.claimed, high < port

end Ports
