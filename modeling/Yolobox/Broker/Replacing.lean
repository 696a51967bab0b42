/-
# Replacing the broker

`ensure_aws_broker` and `disable_aws_broker` of `yolobox_cli/aws.py`, run by any number of
yos over the brokers and the socket files of `Broker/Sockets`.  What a yo asks for is fixed
before it waits for the lock (`aws-broker.yo.lock`); health request, kill and start are under
it.  One action is one call of one party, and a health request is a connect and a reply.

Only yos start brokers, and a broker's pid is its number: none is used twice, and none is a pid
that `checked_pid` refuses.
-/
import Yolobox.Broker.SocketRuns
import Yolobox.Text

open Transition

namespace BrokerReplacing

open Sockets (Path)

/-! ## The parties -/

/-- What a broker is started with.  `allowed_names` is the sorted list of the profiles, and so is
what `/health` reports: two of them are equal when the profiles are. -/
structure Conf where
  watchPid : ℕ
  allow : Finset PyStr
  deriving DecidableEq

/-- `checked_pid` -/
def checkedPid (value : ℕ) : Option ℕ := if 1 < value then some value else none

/-- `broker_needs_restart`: what answered was started with `found`, and the request went to `p`
(`NO_CONTROL` when that is the forwarded socket). -/
def brokerNeedsRestart (p : Path) (found wanted : Conf) : Bool :=
  if p ≠ .control then true
  else if checkedPid found.watchPid ≠ some wanted.watchPid then true
  else decide (found.allow ≠ wanted.allow)

/-- Where a yo stands.  A task is what `ensure_aws_broker` asks for; `none` is a
`disable_aws_broker`. -/
inductive Stage
  | absent
  | waiting (task : Option Conf)                      -- for the lock
  | asking (p : Path) (task : Option Conf)            -- `health_on`, before its connect
  | asked (p : Path) (b : ℕ) (task : Option Conf)     -- connected, before the reply
  | killing (p : Path) (b : ℕ) (task : Option Conf)   -- `kill_stale_broker`, before `os.kill`
  | watching (b : ℕ) (task : Option Conf)             -- `wait_for_pid_exit`
  | starting (wanted : Conf)                          -- `start_aws_broker`, before the spawn
  | handshake (b : ℕ) (wanted : Conf)                 -- `read_handshake`
  | reaping (b : ℕ)                                   -- terminated, in `child.wait`
  | served (b : ℕ) (wanted : Conf)                    -- the section is over, the broker is there
  | off                                               -- it is over, and was a disable
  | failed                                            -- a `YoError`
  | killed (child : Option ℕ)                         -- with a child still in its handshake
  deriving DecidableEq

structure State where
  sockets : Sockets.State
  conf : ℕ → Conf           -- what each broker was started with
  ready : ℕ → Bool          -- the brokers that printed READY
  lock : Option ℕ
  yos : ℕ                   -- the yos are `0 .. yos - 1`
  stage : ℕ → Stage
  inForce : Option Conf     -- what the last section asked for that replaced or found a broker

/-- Before any yo, with whatever the two names hold. -/
def State.init (name : Path → Option Sockets.Entry) : State where
  sockets := .init name
  conf := fun _ => ⟨0, ∅⟩
  ready := fun _ => false
  lock := none
  yos := 0
  stage := fun _ => .absent
  inForce := none

/-! ## The steps -/

def State.setStage (s : State) (y : ℕ) (stage : Stage) : State :=
  { s with stage := Function.update s.stage y stage }

/-- The yo leaves the section. -/
def State.leave (s : State) (y : ℕ) (stage : Stage) : State :=
  { s.setStage y stage with lock := none }

/-- The broker is there as it was asked for. -/
def State.serve (s : State) (y b : ℕ) (wanted : Conf) : State :=
  { s.leave y (.served b wanted) with inForce := some wanted }

/-- What follows where no broker is left. -/
def State.gone (s : State) (y : ℕ) : Option Conf → State
  | some wanted => s.setStage y (.starting wanted)
  | none => { s.leave y .off with inForce := none }

/-- What follows a health request that got no answer: the other socket, and `UNREACHABLE`. -/
def State.silent (s : State) (y : ℕ) : Path → Option Conf → State
  | .control, task => s.setStage y (.asking .guest task)
  | .guest, some wanted => s.setStage y (.starting wanted)
  | .guest, none => s.leave y .off

/-- What follows an answer. -/
def State.answered (s : State) (y : ℕ) (p : Path) (b : ℕ) : Option Conf → State
  | some wanted =>
    if brokerNeedsRestart p (s.conf b) wanted then s.setStage y (.killing p b (some wanted))
    else s.serve y b wanted
  | none => s.setStage y (.killing p b none)

def isDead (s : State) (b : ℕ) : Bool := (s.sockets.broker b).main == .dead

/-- The threads that answer are there. -/
def isRunning (s : State) (b : ℕ) : Bool :=
  match (s.sockets.broker b).main with
  | .serving | .exiting _ => true
  | _ => false

/-- The socket at the name is the broker's, and it listens there. -/
def connects (s : State) (p : Path) (b : ℕ) : Bool :=
  match s.sockets.name p, (s.sockets.broker b).made p with
  | some (.socket i), some j => i == j && (s.sockets.broker b).listening p
  | _, _ => false

inductive Action
  | broker (a : Sockets.Action)            -- a step of a broker, or what happens to it
  | arrive (task : Option Conf)
  | lock (y : ℕ)
  | connect (y : ℕ) (b : ℕ)
  | reply (y : ℕ) (answered : Bool)        -- `false`: a failed connect, no reply in time, no JSON
  | kill (y : ℕ)
  | exited (y : ℕ)
  | spawn (y : ℕ)
  | readReady (y : ℕ)
  | readError (y : ℕ)                      -- `ERROR=…`, or an exit before any line
  | terminate (y : ℕ)                      -- no line in time, or another one
  | reaped (y : ℕ)
  | fails (y : ℕ)                          -- a `YoError` that leaves no child
  | dies (y : ℕ)
  deriving DecidableEq

/-- The broker prints READY in this step. -/
def prints (s : State) (a : Sockets.Action) (b : ℕ) : Bool :=
  a == .main b && (s.sockets.broker b).main == .armed

def step (s : State) : Action → Option State
  | .broker .start => none
  | .broker a =>
    (Sockets.step s.sockets a).map fun sockets =>
      { s with sockets := sockets, ready := fun b => s.ready b || prints s a b }
  | .arrive task => some { s.setStage s.yos (.waiting task) with yos := s.yos + 1 }
  | .lock y =>
    match s.stage y, s.lock with
    | .waiting task, none => some { s.setStage y (.asking .control task) with lock := some y }
    | _, _ => none
  | .connect y b =>
    match s.stage y with
    | .asking p task => if connects s p b then some (s.setStage y (.asked p b task)) else none
    | _ => none
  | .reply y answered =>
    match s.stage y, answered with
    | .asking p task, false | .asked p _ task, false => some (s.silent y p task)
    | .asked p b task, true => if isRunning s b then some (s.answered y p b task) else none
    | _, _ => none
  | .kill y =>
    match s.stage y with
    | .killing _ b task =>
      some (if isDead s b then s.gone y task else s.setStage y (.watching b task))
    | _ => none
  | .exited y =>
    match s.stage y with
    | .watching b task => if isDead s b then some (s.gone y task) else none
    | _ => none
  | .spawn y =>
    match s.stage y with
    | .starting wanted =>
      (Sockets.step s.sockets .start).map fun sockets =>
        { s.setStage y (.handshake s.sockets.started wanted) with
          sockets := sockets
          conf := Function.update s.conf s.sockets.started wanted }
    | _ => none
  | .readReady y =>
    match s.stage y with
    | .handshake b wanted => if s.ready b then some (s.serve y b wanted) else none
    | _ => none
  | .readError y =>
    match s.stage y with
    | .handshake b _ => if isDead s b && !s.ready b then some (s.leave y .failed) else none
    | _ => none
  | .terminate y =>
    match s.stage y with
    | .handshake b _ => some (s.setStage y (.reaping b))
    | _ => none
  | .reaped y =>
    match s.stage y with
    | .reaping b => if isDead s b then some (s.leave y .failed) else none
    | _ => none
  | .fails y =>
    match s.stage y with
    | .killing .. | .watching .. | .starting _ => some (s.leave y .failed)
    | _ => none
  | .dies y =>
    match s.stage y with
    | .waiting _ => some (s.setStage y (.killed none))
    | .handshake b _ | .reaping b => some (s.leave y (.killed (some b)))
    | .asking .. | .asked .. | .killing .. | .watching .. | .starting _ =>
      some (s.leave y (.killed none))
    | _ => none

end BrokerReplacing
