/-
# The initrd's password agent

The event loop of `nix/luks/yolobox-unlock.sh` and `answer_pending`, with the parties
around it: whoever puts ask files into the directory and takes them away, `inotifywait`
and `journalctl`, which write into one FIFO.  One action is one step of one party, so a
schedule is an interleaving.

The shell reads the FIFO byte by byte, and `journalctl` writes any piece of text at a
time, so its lines may be torn; a line of `inotifywait` is one short write.  A glob lists
what was there all along, and may list what came or went meanwhile.  What the helper
prints is left out.

`replied`, `tried` and the names in a `Scan` that were complete when it began are kept
for the statements only.
-/
import Yolobox.Lib.Transition
import Yolobox.Text

namespace AskPassword

def ASK_DIR : PyStr := lit "/run/systemd/ask-password"

/-! ## The directory -/

structure AskFile where
  name : PyStr
  text : PyStr
  complete : Bool               -- renamed into place, or closed by its writer
  deriving DecidableEq, Repr

def path (name : PyStr) : PyStr := ASK_DIR ++ lit "/" ++ name

/-- What the pattern `ask.*` matches. -/
def isAsk (name : PyStr) : Bool := startswith name (lit "ask.")

/-- `$(sed -n "s/^$key//p" "$f")` -/
def sedValue (key text : PyStr) : PyStr :=
  ([10].intercalate (((text.splitOn 10).filter (startswith · key)).map (·.drop key.length)))
    |>.rdropWhile (· == 10)

inductive Kind
  | create
  | closeWrite
  | movedTo
  | delete
  deriving DecidableEq, Repr

/-- `%e` -/
def Kind.word : Kind → PyStr
  | .create => lit "CREATE"
  | .closeWrite => lit "CLOSE_WRITE,CLOSE"
  | .movedTo => lit "MOVED_TO"
  | .delete => lit "DELETE"

structure Event where
  kind : Kind
  name : PyStr
  deriving DecidableEq, Repr

/-- The line `inotifywait` prints. -/
def Event.line (e : Event) : PyStr := lit "inotify " ++ e.kind.word ++ lit " " ++ path e.name

/-- Where `inotifywait` is. -/
inductive Watcher
  | absent
  | settingUp
  | watching                    -- the watch exists
  | established                 -- and it said so
  | failed
  deriving DecidableEq, Repr

/-- Whether a change of the directory raises an event. -/
def Watcher.watches : Watcher → Bool
  | .watching | .established => true
  | _ => false

/-! ## The helper -/

structure Scan where
  complete : List PyStr         -- the ask files complete when it began
  todo : List PyStr
  deriving DecidableEq, Repr

inductive Stage
  | reading (part : PyStr)
  | gotLine (line : PyStr)
  | globbing (complete : List PyStr)
  | scanning (scan : Scan)
  | socketOf (scan : Scan) (name : PyStr)
  | idOf (scan : Scan) (name socket : PyStr)
  | replyTo (scan : Scan) (name socket id : PyStr)
  | checking
  | exited (code : ℕ)
  deriving DecidableEq, Repr

/-- What `check_units` learns from systemd. -/
structure Units where
  migrateFailed : Bool
  untilActive : Bool
  rootMounts : Bool
  emergency : Bool
  untilFailed : Bool
  deriving DecidableEq, Repr

def waitForRootMount (units : Units) : Option ℕ :=
  if ¬ units.rootMounts then some 5
  else if units.emergency then some 5
  else none

/-- The code it exits with, if it does. -/
def checkUnits (units : Units) : Option ℕ :=
  if units.migrateFailed then some 2
  else if units.untilActive then some ((waitForRootMount units).getD 0)
  else if units.untilFailed then some 1
  else none

structure State where
  files : List AskFile
  used : List PyStr             -- the names given so far
  watcher : Watcher
  queue : List Event            -- raised, and not written into the FIFO yet
  fifo : PyStr
  stage : Stage
  answered : PyStr
  replied : List PyStr
  tried : List PyStr
  deriving DecidableEq, Repr

/-- The loop starts to read. -/
def State.init : State where
  files := []
  used := []
  watcher := .absent
  queue := []
  fifo := []
  stage := .reading []
  answered := [10]
  replied := []
  tried := []

def State.file? (s : State) (name : PyStr) : Option AskFile :=
  s.files.find? fun f => f.name == name

/-- The ask files that are all there. -/
def State.completeAsks (s : State) : List PyStr :=
  ((s.files.filter (·.complete)).map (·.name)).filter isAsk

/-- `case "$answered" in *$'\n'"$f"$'\n'*)` -/
def State.isAnswered (s : State) (name : PyStr) : Bool :=
  decide ([10] ++ path name ++ [10] <:+: s.answered)

def State.raise (s : State) (kind : Kind) (name : PyStr) : State :=
  if s.watcher.watches then { s with queue := s.queue ++ [⟨kind, name⟩] } else s

/-- `> "$fifo"`: a line at once. -/
def State.writeLine (s : State) (line : PyStr) : State := { s with fifo := s.fifo ++ line ++ [10] }

/-- `continue` after a message: the file was tried, and not answered. -/
def State.skip (s : State) (scan : Scan) (name : PyStr) : State :=
  { s with
    stage := .scanning scan
    tried := if name ∈ scan.complete then name :: s.tried else s.tried }

/-- Lines that say the watch could not be set up. -/
def saysWatchFailed (line : PyStr) : Bool :=
  startswith line (lit "Couldn't watch ") || startswith line (lit "Failed to watch ")

/-! ## The steps -/

inductive Action
  -- the directory
  | create (name : PyStr)
  | write (name text : PyStr)
  | close (name : PyStr)
  | moveIn (name text : PyStr)
  | remove (name : PyStr)
  -- `inotifywait`
  | start
  | watch
  | failToWatch
  | announce
  | deliver
  -- `journalctl`
  | journal (text : PyStr)
  -- the helper
  | readByte
  | takeLine
  | glob (todo : List PyStr)
  | next
  | readSocket (ok : Bool)
  | readId (ok : Bool)
  | reply (ok : Bool)
  | check (units : Units)
  deriving DecidableEq, Repr

/-- A change of one file. -/
def State.change (s : State) (name : PyStr) (f : AskFile → AskFile) : State :=
  { s with files := s.files.map fun file => if file.name = name then f file else file }

/-- A new file. -/
def State.add (s : State) (file : AskFile) : State :=
  { s with files := file :: s.files, used := file.name :: s.used }

/-- A step of the directory's users. -/
def stepDirectory (s : State) : Action → Option State
  | .create name =>
    if name ∉ s.used then some ((s.add ⟨name, [], false⟩).raise .create name) else none
  | .write name text =>
    match s.file? name with
    | some file =>
      if file.complete then none
      else some (s.change name fun file => { file with text := file.text ++ text })
    | none => none
  | .close name =>
    match s.file? name with
    | some file =>
      if file.complete then none
      else some ((s.change name fun file => { file with complete := true }).raise .closeWrite name)
    | none => none
  | .moveIn name text =>
    if name ∉ s.used then some ((s.add ⟨name, text, true⟩).raise .movedTo name) else none
  | .remove name =>
    match s.file? name with
    | some _ =>
      some (({ s with files := s.files.filter fun file => file.name ≠ name }).raise .delete name)
    | none => none
  | _ => none

/-- A step of one of the FIFO's writers. -/
def stepWriter (s : State) : Action → Option State
  | .start =>
    if s.watcher = .absent then
      some { s.writeLine (lit "Setting up watches.") with watcher := .settingUp }
    else none
  | .watch => if s.watcher = .settingUp then some { s with watcher := .watching } else none
  | .failToWatch =>
    if s.watcher = .settingUp then
      some { s.writeLine (lit "Couldn't watch " ++ ASK_DIR) with watcher := .failed }
    else none
  | .announce =>
    if s.watcher = .watching then
      some { s.writeLine (lit "Watches established.") with watcher := .established }
    else none
  | .deliver =>
    match s.watcher, s.queue with
    | .established, e :: queue => some { s.writeLine e.line with queue := queue }
    | _, _ => none
  | .journal text => some { s with fifo := s.fifo ++ text }
  | _ => none

/-- A step of the helper. -/
def stepHelper (s : State) : Action → Option State
  | .readByte =>
    match s.stage, s.fifo with
    | .reading part, c :: fifo =>
      some { s with
        fifo := fifo
        stage := if c = 10 then .gotLine part else .reading (part ++ [c]) }
    | _, _ => none
  | .takeLine =>
    match s.stage with
    | .gotLine line =>
      some { s with
        stage := if saysWatchFailed line then .exited 3 else .globbing s.completeAsks }
    | _ => none
  | .glob todo =>
    match s.stage with
    | .globbing complete =>
      if todo.all isAsk ∧ ∀ file ∈ s.files, file.name ∈ complete → file.name ∈ todo then
        some { s with stage := .scanning ⟨complete, todo⟩ }
      else none
    | _ => none
  | .next =>
    match s.stage with
    | .scanning ⟨_, []⟩ => some { s with stage := .checking }
    | .scanning ⟨complete, name :: todo⟩ =>
      if s.file? name = none then some { s with stage := .scanning ⟨complete, todo⟩ }
      else if s.isAnswered name then some { s with stage := .scanning ⟨complete, todo⟩ }
      else some { s with stage := .socketOf ⟨complete, todo⟩ name }
    | _ => none
  | .readSocket ok =>
    match s.stage with
    | .socketOf scan name =>
      match ok, s.file? name with
      | true, some file =>
        some { s with stage := .idOf scan name (sedValue (lit "Socket=") file.text) }
      | true, none => none
      | false, _ => some (s.skip scan name)
    | _ => none
  | .readId ok =>
    match s.stage with
    | .idOf scan name socket =>
      match ok, s.file? name with
      | true, some file =>
        if socket = [] then some (s.skip scan name)
        else some { s with stage := .replyTo scan name socket (sedValue (lit "Id=") file.text) }
      | true, none => none
      | false, _ => some (s.skip scan name)
    | _ => none
  | .reply ok =>
    match s.stage with
    | .replyTo scan name _ _ =>
      if ok then
        some { s with
          stage := .scanning scan
          answered := s.answered ++ path name ++ [10]
          replied := name :: s.replied }
      else some (s.skip scan name)
    | _ => none
  | .check units =>
    match s.stage with
    | .checking =>
      some { s with
        stage := match checkUnits units with
          | some code => .exited code
          | none => .reading [] }
    | _ => none
  | _ => none

/-- One step; `none` when the action is not possible in the state. -/
def step (s : State) (a : Action) : Option State :=
  (stepDirectory s a).or ((stepWriter s a).or (stepHelper s a))

end AskPassword
