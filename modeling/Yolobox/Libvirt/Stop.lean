/-
# Stopping a domain

`LibvirtDriver.stop`, `require_stoppable` and `event_stream_ended`
(`yolobox_cli/libvirt.py`), as scripts over `virsh` and the event watcher.  Any `virsh`
may fail, and so may reading what the watcher prints; `poll`, `terminate` and
`communicate` of a process of one's own do not.

The loop over the watcher's lines is cut off after any number of turns.  A message is
named, with what its text is made of.
-/
import Yolobox.Lib.Control
import Yolobox.Lines

open Script

namespace Stop

/-! ## Constants -/

def LIBVIRT_STOP_TIMEOUT : ℕ := 300

def EVENT_TIMEOUT_LINE : PyStr := lit "event loop timed out"

def STATE_RUNNING : PyStr := lit "running"
def STATE_BLOCKED : PyStr := lit "blocked"
def STATE_OFF : PyStr := lit "shut off"
def STATE_SHUTTING_DOWN : PyStr := lit "in shutdown"

def STATES_STOPPING : List PyStr := [STATE_RUNNING, STATE_BLOCKED, STATE_SHUTTING_DOWN]

/-- The verb and the virsh command that bring a domain back. -/
def STATE_REMEDIES : List (PyStr × PyStr × PyStr) :=
  [(lit "paused", lit "resume", lit "resume"), (lit "pmsuspended", lit "wake", lit "dompmwakeup")]

/-! ## The interface -/

inductive Cmd
  | virsh (args : List PyStr)
  | spawnVirsh (args : List PyStr)
  | readline                         -- of the watcher's stdout
  | readStderr
  | wait
  | poll
  | terminate
  | communicate
  deriving DecidableEq, Repr

abbrev Answer : Cmd → Type
  | .virsh _ => PyStr
  | .readline | .readStderr => PyStr
  | .wait => ℤ
  | .poll => Option ℤ
  | _ => Unit

/-- The reasons of a `StopRefused`. -/
inductive Refusal
  | willNotShutDown (domainState : PyStr) (diskMayBeFull : Bool) (remedy : Option (PyStr × PyStr))
  | didNotShutDown (seconds : ℕ)
  deriving DecidableEq, Repr

inductive PyError
  | noDomain
  | refused (why : Refusal)
  | eventFailed (code : ℤ) (said : PyStr)
  | raisedBy (c : Cmd)
  deriving DecidableEq, Repr

abbrev Py := Script Cmd Answer PyError

def py (c : Cmd) : Py (Answer c) := Script.cmd (.raisedBy c) c

/-! ## The functions -/

section
variable (domainName : PyStr)

def listArgs : List PyStr := [lit "list", lit "--all", lit "--name"]
def domstateArgs : List PyStr := [lit "domstate", domainName]
def shutdownArgs : List PyStr := [lit "shutdown", domainName]

def eventArgs : List PyStr :=
  [lit "event", domainName, lit "lifecycle", lit "--loop", lit "--timeout",
    dec LIBVIRT_STOP_TIMEOUT]

/-- `names_listed` -/
def namesListed (listing : PyStr) : List PyStr :=
  ((splitlines listing).map strip).filter fun name => !name.isEmpty

def domainExists : Py Bool := do
  let listing : PyStr ← py (.virsh listArgs)
  .ret (decide (domainName ∈ namesListed listing))

def domainState : Py PyStr := do
  let word : PyStr ← py (.virsh (domstateArgs domainName))
  .ret (strip word)

/-- The remedy of `state_hint`. -/
def stateHint (domainState : PyStr) : Option (PyStr × PyStr) :=
  (STATE_REMEDIES.find? fun remedy => remedy.1 == domainState).map Prod.snd

def requireStoppable (domainState : PyStr) : Py Unit :=
  if domainState ∈ STATES_STOPPING then .ret ()
  else .throw (.refused (.willNotShutDown domainState (domainState == lit "paused")
    (stateHint domainState)))

def eventStreamEnded (printed : List PyStr) : Py PyError := do
  let stderr : PyStr ← py .readStderr
  let code : ℤ ← py .wait
  if code = 1 ∧ EVENT_TIMEOUT_LINE ∈ printed.map strip then
    .ret (.refused (.didNotShutDown LIBVIRT_STOP_TIMEOUT))
  else .ret (.eventFailed code (strip stderr))

/-- The variables of the loop. -/
structure Loop where
  domainState : PyStr
  printed : List PyStr
  deriving DecidableEq, Repr

/-- The watcher is over; the state is the judge, not the stream. -/
def streamOver (printed : List PyStr) : Py (Loop ⊕ Unit) := do
  let domainState ← domainState domainName
  if domainState = STATE_OFF then .ret (.inr ())
  else do
    let error ← eventStreamEnded printed
    .throw error

def turn (st : Loop) : Py (Loop ⊕ Unit) :=
  if st.domainState = STATE_OFF then .ret (.inr ())
  else do
    requireStoppable st.domainState
    let line : PyStr ← py .readline
    if line = [] then streamOver domainName st.printed
    else do
      let domainState ← domainState domainName
      .ret (.inl ⟨domainState, st.printed ++ [line]⟩)

/-- `virsh shutdown`, unless the domain is shutting down already. -/
def askShutdown (domainState : PyStr) : Py Unit :=
  if domainState ≠ STATE_SHUTTING_DOWN then do
    let _ : PyStr ← py (.virsh (shutdownArgs domainName))
    .ret ()
  else .ret ()

/-- The `try`'s body. -/
def watchStop (n : ℕ) (first : PyStr) : Py (Loop ⊕ Unit) := do
  askShutdown domainName first
  let domainState ← domainState domainName
  turns (turn domainName) n ⟨domainState, []⟩

/-- The `finally`. -/
def endWatcher : Py Unit := do
  let code : Option ℤ ← py .poll
  match code with
  | none => do
    py .terminate
    py .communicate
  | some _ => py .communicate

/-- `stop`, its loop cut off after `n` turns. -/
def stop (n : ℕ) : Py (Loop ⊕ Unit) := do
  let there ← domainExists domainName
  if there then do
    let first ← domainState domainName
    if first = STATE_OFF then .ret (.inr ())
    else do
      requireStoppable first
      py (.spawnVirsh (eventArgs domainName))
      ensuring (watchStop domainName n first) endWatcher
  else .throw .noDomain

end

/-! ## The world -/

/-- The watcher, as its parent sees it. -/
inductive Watcher
  | absent
  | running
  | terminated
  | reaped
  deriving DecidableEq, Repr

inductive Event
  | virsh (args : List PyStr) (stdout : Option PyStr)  -- `none`: it failed
  | line (line : PyStr)
  deriving DecidableEq, Repr

/-- The lines the watcher has still to print before it ends, the watcher, and what
happened, newest first. -/
structure World where
  lines : List PyStr
  watcher : Watcher
  history : List Event

/-- A world in which the watcher will print these lines, whole or cut off at the end. -/
def World.start (lines : List PyStr) : World := ⟨lines, .absent, []⟩

def World.note (s : World) (e : Event) : World := { s with history := e :: s.history }

/-- What a call may answer, and leave; a `virsh` answers anything. -/
def does (s : World) : (c : Cmd) → Answer c → World → Prop
  | .virsh args, stdout, t => t = s.note (.virsh args (some stdout))
  | .spawnVirsh _, _, t => t = { s with watcher := .running }
  | .readline, line, t =>
    line = s.lines.headD [] ∧ t = { s.note (.line line) with lines := s.lines.tail }
  | .readStderr, _, t => t = s
  | .wait, _, t => t = { s with watcher := .reaped }
  | .poll, none, t => t = s
  | .poll, some _, t => t = { s with watcher := .reaped }
  | .terminate, _, t => t = { s with watcher := .terminated }
  | .communicate, _, t => t = { s with watcher := .reaped }

/-- What a call may leave that raises. -/
def fails (s : World) : Cmd → World → Prop
  | .virsh args, t => t = s.note (.virsh args none)
  | .poll, _ | .terminate, _ | .communicate, _ => False
  | _, t => t = s

def machine : Machine Answer World := fun c s r t =>
  match r with
  | some a => does s c a t
  | none => fails s c t

end Stop
