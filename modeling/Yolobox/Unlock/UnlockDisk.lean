/-
# Unlocking the disk

`run_initrd_helper` and the loop of `unlock_disk` (`yolobox_cli/unlock.py`), as scripts
over what they ask of the host: the unlock lock, ssh and the helper it runs, the driver,
the starter process and the clock.  A command that raises ends the call with its
exception, and a kill may end it anywhere.

`while True` is cut off after any number of turns (`Script.turns`); the loop's variables
are a `Loop`.  Clock readings are rationals.
-/
import Yolobox.Lib.Control
import Yolobox.Lib.Shlex
import Yolobox.Lib.Utf8
import Yolobox.Lines
import Yolobox.Unlock.Probe

open Script Utf8

namespace Unlock

/-! ## Constants -/

def HELPER_EXIT_WRONG_KEY : ℤ := 1
def HELPER_EXIT_MIGRATION_FAILED : ℤ := 2
def HELPER_EXIT_WATCH_LOST : ℤ := 3
def HELPER_EXIT_NO_PASSPHRASE : ℤ := 4
def HELPER_EXIT_ROOT_MOUNT_FAILED : ℤ := 5
def HELPER_EXIT_INTERNAL : ℤ := 6

/-- ssh's own exit code. -/
def SSH_UNREACHABLE : ℤ := 255

def INITRD_UNLOCK_HELPER : PyStr := lit "yolobox-unlock"
def LUKS_KEY_ITEM : PyStr := lit "yolobox-disk"
def LUKS_DEVICE : PyStr := lit "/dev/vda2"

def INITRD_WAIT_SECONDS : ℕ := 600
def INITRD_POLL_SECONDS : ℕ := 2

def RUNNING : PyStr := lit "Running"

def LIMA_PRE_BOOT_STATUSES : List (Option PyStr) :=
  [none, some (lit "Installing"), some (lit "Starting"), some (lit "Stopped")]

def NOT_LISTENING_MARKERS : List PyStr :=
  [lit "Connection refused", lit "Connection reset", lit "kex_exchange_identification",
    lit "Connection closed", lit "closed by remote host", lit "Broken pipe",
    lit "Connection timed out", lit "Operation timed out"]

/-! ## One attempt -/

/-- What one ssh attempt at the initrd's or stage 2's sshd came to. -/
inductive SshOutcome
  | answered
  | ran
  | refused
  | notListening
  | error
  deriving DecidableEq, Repr

/-- `part in text` -/
abbrev isPartOf (part text : PyStr) : Bool := decide (part <:+: text)

def classifyInitrdAttempt (returncode : ℤ) (stderr : PyStr) : SshOutcome :=
  if returncode ≠ SSH_UNREACHABLE then .ran
  else if isPartOf (lit "Permission denied") stderr then .refused
  else if NOT_LISTENING_MARKERS.any (isPartOf · stderr) then .notListening
  else .error

/-- A finished ssh. -/
structure Completed where
  returncode : ℤ
  stderr : PyStr
  deriving DecidableEq, Repr

/-- The outcome of `probe_sshd`. -/
def Completed.outcome (completed : Completed) : SshOutcome :=
  if completed.returncode = 0 then .answered
  else classifyInitrdAttempt completed.returncode completed.stderr

/-- What the helper's ssh gives from its start to its end: lines as they are read. -/
structure Session where
  stdout : List (List Byte)
  stderr : List (List Byte)
  returncode : ℤ
  deriving DecidableEq, Repr

/-- `raw.decode("utf-8", "replace").rstrip("\n")` -/
def lineText (raw : List Byte) : PyStr := (decodeReplace raw).rdropWhile (· == 10)

/-- One run of the initrd's yolobox-unlock over ssh. -/
structure HelperRun where
  returncode : ℤ
  stderr : PyStr
  migrated : Bool
  streamed : Bool
  deriving DecidableEq, Repr

/-- What one line of the helper's output changes. -/
def HelperRun.reads (run : HelperRun) (raw : List Byte) : HelperRun :=
  { run with
    streamed := true
    migrated := run.migrated || isPartOf (lit "id=" ++ migrateAskId) (lineText raw) }

def Session.run (session : Session) : HelperRun :=
  session.stdout.foldl HelperRun.reads
    ⟨session.returncode, [10].intercalate (session.stderr.map lineText), false, false⟩

/-- What `unlock_disk` does after one helper run. -/
inductive Verdict
  | unlocked
  | failed
  | dropped
  | refused
  | notListening
  deriving DecidableEq, Repr

def judgeHelperRun (attempt : HelperRun) : Verdict :=
  let outcome := classifyInitrdAttempt attempt.returncode attempt.stderr
  if outcome = .ran then if attempt.returncode = 0 then .unlocked else .failed
  else if attempt.streamed then .dropped
  else if outcome = .error then .failed
  else if outcome = .refused then .refused
  else .notListening

/-! ## The interface -/

/-- What a host driver says of itself. -/
structure Driver where
  name : PyStr
  startCommand : PyStr
  listCommand : PyStr
  initrdUnseenHint : PyStr
  vmLostHint : Option PyStr → PyStr

/-- The machine, its driver and the operator. -/
structure Box where
  name : PyStr
  driver : Driver
  hostUser : PyStr

inductive Cmd
  -- `state.unlock_lock(wait=True)`
  | lock
  | release
  -- the initrd
  | endpointPort                     -- `sshconfig.initrd_endpoint().port`
  | verifyInitrdListener (port : ℕ)
  | initrdSshArgv (remote : PyStr)
  | spawn (argv : List PyStr)
  | write (line : List Byte)         -- and close; a broken pipe is no failure
  | session                          -- the helper's output and its end
  | probeSshd (user : PyStr)
  -- the driver, the starter and the clock
  | sshPort
  | vmStatus
  | poll
  | monotonic
  | sleep (seconds : ℕ)
  -- the terminal
  | out (line : PyStr)
  | err (line : PyStr)
  deriving DecidableEq

abbrev Answer : Cmd → Type
  | .endpointPort | .sshPort => ℕ
  | .initrdSshArgv _ => List PyStr
  | .session => Session
  | .probeSshd _ => Completed
  | .vmStatus => Option PyStr
  | .poll => Option ℤ
  | .monotonic => ℚ
  | _ => Unit

inductive PyError
  | yo (message : PyStr)
  | raisedBy (c : Cmd)
  deriving DecidableEq

abbrev Py := Script Cmd Answer PyError

def py (c : Cmd) : Py (Answer c) := Script.cmd (.raisedBy c) c

/-- `with state.unlock_lock(wait=True): ...` -/
def withUnlockLock {α : Type} (p : Py α) : Py α := do
  py .lock
  ensuring p (py .release)

/-! ## The helper -/

/-- The body of `run_initrd_helper`.  Its threads read stdout and stderr side by side;
what they read is one answer here. -/
def sendPassphrase (passphrase : List Byte) : Py HelperRun := do
  let port : ℕ ← py .endpointPort
  py (.verifyInitrdListener port)
  let argv : List PyStr ← py (.initrdSshArgv INITRD_UNLOCK_HELPER)
  py (.spawn argv)
  py (.write (passphrase ++ [10]))
  let session : Session ← py .session
  each session.stdout fun raw => py (.out (lineText raw))
  .ret session.run

def runInitrdHelper (passphrase : List Byte) : Py HelperRun :=
  withUnlockLock (sendPassphrase passphrase)

def stage2Up (box : Box) : Py Bool := do
  let completed : Completed ← py (.probeSshd box.hostUser)
  .ret (completed.outcome == .answered)

/-! ## The messages -/

/-- `%d` -/
def intText (n : ℤ) : PyStr := if n < 0 then 45 :: dec n.natAbs else dec n.toNat

def initrdRootSshCommand (remoteCommand : PyStr) : Py PyStr := do
  let argv : List PyStr ← py (.initrdSshArgv remoteCommand)
  .ret (Shlex.join argv)

def helperFailureMessage (attempt : HelperRun) : Py PyStr :=
  let code := attempt.returncode
  let stderr := attempt.stderr
  if code = SSH_UNREACHABLE then
    if stderr ≠ [] then .ret stderr
    else do
      let port : ℕ ← py .sshPort
      .ret (lit "ssh to 127.0.0.1:" ++ dec port ++ lit " failed with exit " ++ intText code
        ++ lit " and no message")
  else if code = HELPER_EXIT_MIGRATION_FAILED then do
    let command ← initrdRootSshCommand (lit "journalctl -u yolobox-luks-migrate")
    .ret (lit "encrypting the disk failed in the initrd; the box is still in its initrd with the plaintext intact. Inspect it as root: "
      ++ command ++ [10] ++ stderr)
  else if code = HELPER_EXIT_ROOT_MOUNT_FAILED then do
    let command ← initrdRootSshCommand (lit "journalctl -b")
    .ret (lit "the disk unlocked but the initrd could not mount it as /sysroot (sysroot.mount failed); the box waits in its initrd emergency mode. Inspect it as root: "
      ++ command ++ [10] ++ stderr)
  else if code = HELPER_EXIT_WRONG_KEY then
    .ret (lit "the " ++ LUKS_KEY_ITEM ++ lit " key in 1Password does not open " ++ LUKS_DEVICE
      ++ lit " — a different key encrypted this disk, and there is no recovery slot")
  else if code = HELPER_EXIT_WATCH_LOST then
    .ret (lit "the initrd helper lost its watch:" ++ [10] ++ stderr)
  else if code = HELPER_EXIT_NO_PASSPHRASE then
    .ret (lit "no passphrase reached the initrd helper")
  else if code = HELPER_EXIT_INTERNAL then
    .ret (lit "the initrd helper failed unexpectedly; the line below names the command that failed:"
      ++ [10] ++ stderr)
  else .ret (lit "the initrd helper failed with exit " ++ intText code ++ lit ": " ++ stderr)

def vmLostError (box : Box) (status : Option PyStr) (waitingFor : PyStr) : PyError :=
  let shown := match status with
    | some (c :: cs) => c :: cs
    | _ => lit "not listed"
  .yo (box.name ++ lit " is " ++ shown ++ lit ", not Running, while yo waited for " ++ waitingFor
    ++ lit " — " ++ box.driver.vmLostHint status)

def initrdTimeoutError (box : Box) (keyWasRefused : Bool) (sshPort : ℕ) : PyError :=
  if keyWasRefused then
    .yo (lit "the sshd on 127.0.0.1:" ++ dec sshPort ++ lit " refused " ++ box.driver.name
      ++ lit "'s key for root and for " ++ box.hostUser ++ lit " — if " ++ box.name
      ++ lit " is in its initrd, reading the key from cidata failed; see docs/disk-encryption.md#recognising-failures")
  else
    .yo (box.name ++ lit " never offered its initrd sshd on 127.0.0.1:" ++ dec sshPort
      ++ lit " within " ++ dec INITRD_WAIT_SECONDS ++ lit " s of " ++ box.driver.name
      ++ lit " reporting it Running — " ++ box.driver.listCommand ++ lit ", "
      ++ box.driver.initrdUnseenHint)

/-! ## The loop -/

/-- `deadline or now`: a time that is missing or zero gives way. -/
def orTime : Option ℚ → ℚ → ℚ
  | some time, other => if time = 0 then other else time
  | none, other => other

def deadlineAfter (box : Box) (deadline : Option ℚ) (status : Option PyStr)
    (limaIsStarting : Bool) (now : ℚ) : Except PyError (Option ℚ) :=
  if status = some RUNNING then .ok (some (orTime deadline (now + INITRD_WAIT_SECONDS)))
  else if limaIsStarting ∧ status ∈ LIMA_PRE_BOOT_STATUSES then .ok none
  else .error (vmLostError box status (lit "its initrd to take the disk passphrase"))

/-- The variables of the loop. -/
structure Loop where
  migratedAny : Bool
  sessionRan : Bool
  deadline : Option ℚ
  refusedSince : Option ℚ
  deriving DecidableEq, Repr

def Loop.start : Loop := ⟨false, false, none, none⟩

/-- The next turn's variables, or what the call returns. -/
abbrev Next := Loop ⊕ Bool

section
variable (box : Box) (passphrase : List Byte) (starter : Bool)

def printStderr (attempt : HelperRun) : Py Unit :=
  each (splitlines attempt.stderr) fun line => py (.err line)

/-- `if stage2_up(): return migrated_any` -/
def unlessStage2Up (st : Loop) (next : Py Next) : Py Next := do
  let up ← stage2Up box
  if up then .ret (.inr st.migratedAny) else next

/-- `refused_since = refused_since or time.monotonic()` -/
def markRefused (st : Loop) : Py Loop :=
  match st.refusedSince with
  | none => do
    let now : ℚ ← py .monotonic
    .ret { st with refusedSince := some now }
  | some time =>
    if time = 0 then do
      let now : ℚ ← py .monotonic
      .ret { st with refusedSince := some now }
    else .ret st

/-- What follows a verdict, and `next` when the loop goes on. -/
def afterVerdict (attempt : HelperRun) (st : Loop) (next : Loop → Py Next) : Py Next :=
  match judgeHelperRun attempt with
  | .unlocked => do
    printStderr attempt
    .ret (.inr st.migratedAny)
  | .failed => do
    let message ← helperFailureMessage attempt
    .throw (.yo message)
  | .dropped => do
    printStderr attempt
    let now : ℚ ← py .monotonic
    let st := { st with sessionRan := true, deadline := some (now + INITRD_WAIT_SECONDS) }
    unlessStage2Up box st (next st)
  | .refused => unlessStage2Up box st do
    let st ← markRefused st
    next st
  | .notListening => next st

def startExited (code : ℤ) : PyError :=
  .yo (box.driver.startCommand ++ lit " exited " ++ intText code ++ lit " before " ++ box.name
    ++ lit " offered its initrd sshd")

/-- `next` is told whether the starter is alive. -/
def watchStarter (st : Loop) (next : Bool → Py Next) : Py Next :=
  if starter then do
    let code : Option ℤ ← py .poll
    match code with
    | none => next true
    | some code =>
      if st.sessionRan then next false
      else if code ≠ 0 then .throw (startExited box code)
      else unlessStage2Up box st (next false)
  else next false

def raiseWhenOver (st : Loop) : Py Unit :=
  match st.deadline with
  | none => .ret ()
  | some deadline => do
    let now : ℚ ← py .monotonic
    if now > deadline then do
      let port : ℕ ← py .sshPort
      .throw (initrdTimeoutError box st.refusedSince.isSome port)
    else .ret ()

/-- The budget, and the wait for the next turn. -/
def waitMore (st : Loop) (starterAlive : Bool) : Py Next := do
  let status : Option PyStr ← py .vmStatus
  let now : ℚ ← py .monotonic
  match deadlineAfter box st.deadline status (starterAlive && !st.sessionRan) now with
  | .error e => .throw e
  | .ok deadline => do
    let st := { st with deadline := deadline }
    raiseWhenOver box st
    py (.sleep INITRD_POLL_SECONDS)
    .ret (.inl st)

def turn (st : Loop) : Py Next := do
  let attempt ← runInitrdHelper passphrase
  let st := { st with migratedAny := st.migratedAny || attempt.migrated }
  afterVerdict box attempt st fun st =>
    watchStarter box starter st fun starterAlive =>
      waitMore box st starterAlive

/-- `unlock_disk`, cut off after `n` turns. -/
def unlockDisk (n : ℕ) : Py Next := do
  py (.err (lit "yo: waiting for " ++ box.name
    ++ lit "'s initrd to ask for its disk passphrase"))
  turns (turn box passphrase starter) n .start

end

end Unlock
