/-
# Connections, permits and slots

`UnixHTTPServer`, `HealthHandler` and `GuestHandler` of `aws-broker`: the accept loop,
any number of handler threads, and the two bounded semaphores.  A connection's permit is
taken in the accept loop and given back in its thread, or in the loop where no thread
takes the connection over; a credentials slot is taken and given back inside a request.
One action is one step of the loop, of one thread or of one thread's timer.

What goes on inside the credentials route is `Credentials`; here it ends with some
reply, or with an exception that `_guarded` does not catch.
-/
import Yolobox.Broker.Credentials
import Yolobox.Lib.Semaphore

open Semaphore

namespace Connections

open Broker (Config Reply credsProfile credsPathPrefix healthRoute busyReply)

/-! ## The parties -/

/-- The bounds of a server, and which handler serves it. -/
structure Bounds where
  maxConnections : ℕ
  maxConcurrent : ℕ
  guest : Bool                  -- `GuestHandler`, or `HealthHandler` alone

/-- `bind_guest_server` with its defaults. -/
def guestBounds : Bounds := ⟨64, 32, true⟩

/-- Where a handler thread stands. -/
inductive Phase
  | reading                                        -- `setup`, and a request's head
  | asked (path : PyStr)                           -- in `do_GET`
  | route (profile : PyStr)                        -- in the credentials route
  | leaving (profile : PyStr) (reply : Option Reply)  -- out of it, the slot still held
  | sending (path : PyStr) (reply : Reply)
  | closing                                        -- before `shutdown_request`
  | releasing                                      -- before the permit's release
  | ending                                         -- after it
  deriving DecidableEq

/-- Where an accepted connection stands. -/
inductive Conn
  | absent                                         -- not accepted, or still in the loop
  | closed                                         -- closed in the loop, without a thread
  | handled (phase : Phase) (outOfTime : Bool)     -- its thread lives
  | done                                           -- its thread is gone
  deriving DecidableEq

structure Server where
  permits : ℕ                   -- free ones of `connections`
  slots : ℕ                     -- free ones
  saturated : Bool
  accepted : ℕ                  -- the connections are `0 .. accepted - 1`
  starting : Option ℕ           -- the loop holds a permit for it and starts its thread
  conn : ℕ → Conn

def Server.init (b : Bounds) : Server :=
  ⟨b.maxConnections, b.maxConcurrent, false, 0, none, fun _ => .absent⟩

def Server.set (s : Server) (n : ℕ) (c : Conn) : Server :=
  { s with conn := Function.update s.conn n c }

/-! ## The steps -/

inductive Action
  | accept
  | started                     -- the thread of the connection in the loop runs
  | notStarted                  -- its start raises
  | head (n : ℕ) (path : PyStr)
  | dispatch (n : ℕ)
  | routeEnds (n : ℕ) (reply : Option Reply)
  | leave (n : ℕ)
  | sent (n : ℕ)
  | fails (n : ℕ)               -- a read, a write or `do_GET` raises
  | deadline (n : ℕ)
  | shutdown (n : ℕ)
  | release (n : ℕ)
  | exit (n : ℕ)
  deriving DecidableEq

variable (cfg : Config) (b : Bounds)

/-- `process_request`, up to the start of the thread. -/
def accept (s : Server) : Server :=
  match acquire s.permits with
  | none =>
    { s with saturated := true, accepted := s.accepted + 1,
             conn := Function.update s.conn s.accepted .closed }
  | some free =>
    { s with permits := free, saturated := false, accepted := s.accepted + 1,
             starting := some s.accepted }

/-- A permit goes back; where none is missing the semaphore raises and stays as it is. -/
def releasePermit (s : Server) : Server :=
  { s with permits := (release b.maxConnections s.permits).getD s.permits }

def releaseSlot (s : Server) : Server :=
  { s with slots := (release b.maxConcurrent s.slots).getD s.slots }

/-- `do_GET`: only a path under `/creds/` needs a slot, and it does not wait for one. -/
def dispatch (s : Server) (n : ℕ) (path : PyStr) (outOfTime : Bool) : Server :=
  match if b.guest then credsProfile path else none with
  | none => s.set n (.handled (.sending path (healthRoute cfg path)) outOfTime)
  | some profile =>
    match acquire s.slots with
    | none => s.set n (.handled (.sending path busyReply) outOfTime)
    | some free => { s.set n (.handled (.route profile) outOfTime) with slots := free }

/-- What follows the credentials route. -/
def afterRoute (profile : PyStr) : Option Reply → Phase
  | some reply => .sending (credsPathPrefix ++ profile) reply
  | none => .closing

/-- The handler has not left `handle`, so its timer still counts. -/
def Phase.timed : Phase → Bool
  | .closing | .releasing | .ending => false
  | _ => true

/-- A step of the thread of connection `n`, or of its timer. -/
def threadStep (s : Server) (n : ℕ) (phase : Phase) (outOfTime : Bool) : Action → Option Server
  | .head _ path =>
    match phase with
    | .reading => if outOfTime then none else some (s.set n (.handled (.asked path) outOfTime))
    | _ => none
  | .dispatch _ =>
    match phase with
    | .asked path => some (dispatch cfg b s n path outOfTime)
    | _ => none
  | .routeEnds _ reply =>
    match phase with
    | .route profile => some (s.set n (.handled (.leaving profile reply) outOfTime))
    | _ => none
  | .leave _ =>
    match phase with
    | .leaving profile reply =>
      some (releaseSlot b (s.set n (.handled (afterRoute profile reply) outOfTime)))
    | _ => none
  | .sent _ =>
    match phase with
    | .sending _ _ => if outOfTime then none else some (s.set n (.handled .closing outOfTime))
    | _ => none
  | .fails _ =>
    match phase with
    | .reading | .asked _ | .sending _ _ => some (s.set n (.handled .closing outOfTime))
    | _ => none
  | .deadline _ => if phase.timed then some (s.set n (.handled phase true)) else none
  | .shutdown _ =>
    match phase with
    | .closing => some (s.set n (.handled .releasing outOfTime))
    | _ => none
  | .release _ =>
    match phase with
    | .releasing => some (releasePermit b (s.set n (.handled .ending outOfTime)))
    | _ => none
  | .exit _ =>
    match phase with
    | .ending => some (s.set n .done)
    | _ => none
  | _ => none

def Action.thread : Action → Option ℕ
  | .accept | .started | .notStarted => none
  | .head n _ | .dispatch n | .routeEnds n _ | .leave n | .sent n | .fails n | .deadline n
  | .shutdown n | .release n | .exit n => some n

def step (s : Server) (a : Action) : Option Server :=
  match a.thread with
  | some n =>
    match s.conn n with
    | .handled phase outOfTime => threadStep cfg b s n phase outOfTime a
    | _ => none
  | none =>
    match a, s.starting with
    | .accept, none => some (accept s)
    | .started, some n => some { s.set n (.handled .reading false) with starting := none }
    | .notStarted, some n => some (releasePermit b { s.set n .closed with starting := none })
    | _, _ => none

/-! ## The counts -/

/-- The thread has not given its permit back. -/
def Conn.holdsPermit : Conn → Bool
  | .handled .ending _ => false
  | .handled _ _ => true
  | _ => false

/-- The thread lives. -/
def Conn.live : Conn → Bool
  | .handled _ _ => true
  | _ => false

/-- The thread has not given its slot back. -/
def Conn.holdsSlot : Conn → Bool
  | .handled (.route _) _ | .handled (.leaving _ _) _ => true
  | _ => false

/-- The thread is in the credentials route. -/
def Conn.inRoute : Conn → Bool
  | .handled (.route _) _ => true
  | _ => false

def Server.count (s : Server) (holds : Conn → Bool) : ℕ := held holds s.conn s.accepted

end Connections
