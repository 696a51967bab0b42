/-
# The two socket files of a broker

Any number of `aws-broker` processes on the same two paths: `held_socket_lock`,
`reclaim_socket_path`, `bind_servers`, and the ways out (`unlink_bound` in the main
thread, by SIGTERM or at the end of `serve_forever`, and in the thread that watches
the pid).  One action is one system call of one thread.

Reclaiming and binding are under the lock.  Leaving is not: its `lstat` and its
`unlink` are two steps, and a broker has two threads that may leave at once.
-/
import Yolobox.Lib.Transition

open Transition

namespace Sockets

/-! ## The parties -/

inductive Path
  | guest
  | control
  deriving DecidableEq, Repr

/-- What a name holds.  The identity of a socket file is its device and inode. -/
inductive Entry
  | socket (identity : ℕ)
  | other
  deriving DecidableEq, Repr

/-- A thread in `exit_cleanly`. -/
inductive Exit
  | look (p : Path)    -- before its `lstat`
  | unlink (p : Path)  -- the identity matched
  | ended              -- before `os._exit`
  deriving DecidableEq, Repr

/-- `unlink_bound` goes over the guest socket and the control socket. -/
def Exit.after : Path → Exit
  | .guest => .look .control
  | .control => .ended

/-- Where the main thread stands. -/
inductive Main
  | absent
  | wantsLock
  | looking (p : Path)         -- `reclaim_socket_path`, before its `lstat`
  | probing (p : Path)         -- a socket is there; before the `connect`
  | removing (p : Path)        -- the `connect` was refused; before the `unlink`
  | binding (p : Path)
  | statting (p : Path)        -- bound, before the `lstat` that takes the identity
  | undoing (matched : Bool)   -- the control bind failed and the guest socket is closed
  | armed                      -- the SIGTERM handler is in place, the lock still held
  | serving
  | exiting (e : Exit)
  | dead
  deriving DecidableEq, Repr

/-- The thread that waits for the watched pid. -/
inductive Watch
  | absent
  | waiting
  | exiting (e : Exit)
  deriving DecidableEq, Repr

structure Broker where
  main : Main
  watch : Watch
  made : Path → Option ℕ       -- the socket files this process bound, while it lives
  listening : Path → Bool
  identity : Path → Option ℕ   -- what it took for the identities

def Broker.none : Broker := ⟨.absent, .absent, fun _ => Option.none, fun _ => false,
  fun _ => Option.none⟩

structure State where
  name : Path → Option Entry
  lock : Option ℕ
  started : ℕ                  -- the brokers are `0 .. started - 1`
  broker : ℕ → Broker

/-- Before any broker, with whatever the names hold. -/
def State.init (name : Path → Option Entry) : State := ⟨name, none, 0, fun _ => .none⟩

/-! ## The steps -/

def State.set (s : State) (b : ℕ) (B : Broker) : State :=
  { s with broker := Function.update s.broker b B }

def State.setMain (s : State) (b : ℕ) (m : Main) : State :=
  s.set b { s.broker b with main := m }

def State.setWatch (s : State) (b : ℕ) (w : Watch) : State :=
  s.set b { s.broker b with watch := w }

def State.remove (s : State) (p : Path) : State :=
  { s with name := Function.update s.name p none }

/-- The process ends: its sockets are closed, its lock is dropped, its files stay. -/
def State.die (s : State) (b : ℕ) : State :=
  { s.set b { Broker.none with main := .dead } with
    lock := if s.lock = some b then none else s.lock }

/-- The name holds the identity this broker took. -/
def State.matched (s : State) (b : ℕ) (p : Path) : Bool :=
  match s.name p, (s.broker b).identity p with
  | some (.socket i), some j => i == j
  | _, _ => false

/-- A connect to the name succeeds: a live broker listens on the socket there. -/
def State.answers (s : State) (p : Path) : Bool :=
  match s.name p with
  | some (.socket i) => (List.range s.started).any fun b =>
      (s.broker b).made p == some i && (s.broker b).listening p
  | _ => false

/-- What follows when a path is free. -/
def Main.reclaimed : Path → Main
  | .guest => .looking .control
  | .control => .binding .guest

/-- One step of a thread that leaves, where `go` puts the thread. -/
def State.exitStep (s : State) (b : ℕ) (go : State → Exit → State) : Exit → State
  | .look p => go s (if s.matched b p then .unlink p else .after p)
  | .unlink p => go (s.remove p) (.after p)
  | .ended => s.die b

/-- The main thread leaves. -/
def State.mainExit (b : ℕ) (s : State) (e : Exit) : State := s.setMain b (.exiting e)

/-- The watching thread leaves. -/
def State.watchExit (b : ℕ) (s : State) (e : Exit) : State := s.setWatch b (.exiting e)

/-- An identity that no listening socket and no name has. -/
def State.fresh (s : State) (i : ℕ) : Prop :=
  (∀ b < s.started, ∀ p ∈ [Path.guest, Path.control],
      (s.broker b).listening p = true → (s.broker b).made p ≠ some i) ∧
    ∀ p ∈ [Path.guest, Path.control], s.name p ≠ some (.socket i)

instance (s : State) (i : ℕ) : Decidable (s.fresh i) := by
  unfold State.fresh
  infer_instance

inductive Action
  | start
  | lock (b : ℕ)
  | main (b : ℕ)
  | bind (b i : ℕ)
  | bindFails (b : ℕ) (left : Option ℕ)   -- a failing `listen` leaves a file
  | term (b : ℕ)                          -- SIGTERM, or `serve_forever` is over
  | pidEnds (b : ℕ)
  | watch (b : ℕ)
  | exitFails (b : ℕ) (watch : Bool)      -- an `OSError` while leaving is logged
  | kill (b : ℕ)                          -- also any other failure that ends the process
  deriving DecidableEq, Repr

/-- The main thread's own steps, but the bind. -/
def mainStep (s : State) (b : ℕ) : Main → Option State
  | .looking p =>
    match s.name p with
    | none => some (s.setMain b (.reclaimed p))
    | some (.socket _) => some (s.setMain b (.probing p))
    | some .other => some (s.die b)
  | .probing p =>
    if s.name p = none then some (s.setMain b (.reclaimed p))
    else if s.answers p then some (s.die b)
    else some (s.setMain b (.removing p))
  | .removing p => some ((s.remove p).setMain b (.reclaimed p))
  | .statting p =>
    match s.name p with
    | some (.socket i) =>
      some (s.set b { s.broker b with
        identity := Function.update (s.broker b).identity p (some i)
        main := match p with
          | .guest => .binding .control
          | .control => .armed })
    | _ => some (s.die b)
  | .undoing false =>
    if s.matched b .guest then some (s.setMain b (.undoing true)) else some (s.die b)
  | .undoing true => some ((s.remove .guest).die b)
  | .armed =>
    some { s.set b { s.broker b with main := .serving, watch := .waiting } with lock := none }
  | .exiting e => some (s.exitStep b (State.mainExit b) e)
  | _ => none

def step (s : State) : Action → Option State
  | .start =>
    some { s.set s.started { Broker.none with main := .wantsLock } with started := s.started + 1 }
  | .lock b =>
    if (s.broker b).main = .wantsLock ∧ s.lock = none then
      some { s.setMain b (.looking .guest) with lock := some b }
    else none
  | .main b => mainStep s b (s.broker b).main
  | .bind b i =>
    match (s.broker b).main with
    | .binding p =>
      if s.name p = none ∧ s.fresh i then
        some { s.set b { s.broker b with
            main := .statting p
            made := Function.update (s.broker b).made p (some i)
            listening := Function.update (s.broker b).listening p true } with
          name := Function.update s.name p (some (.socket i)) }
      else none
    | _ => none
  | .bindFails b left =>
    match (s.broker b).main, left with
    | .binding .guest, none => some (s.die b)
    | .binding .guest, some i =>
      if s.name .guest = none ∧ s.fresh i then
        some { s.die b with name := Function.update s.name .guest (some (.socket i)) }
      else none
    | .binding .control, none =>
      some (s.set b { s.broker b with
        main := .undoing false
        listening := Function.update (s.broker b).listening .guest false })
    | .binding .control, some i =>
      if s.name .control = none ∧ s.fresh i then
        some { s.set b { s.broker b with
            main := .undoing false
            made := Function.update (s.broker b).made .control (some i)
            listening := Function.update (s.broker b).listening .guest false } with
          name := Function.update s.name .control (some (.socket i)) }
      else none
    | _, _ => none
  | .term b =>
    match (s.broker b).main with
    | .armed | .serving | .exiting _ => some (State.mainExit b s (.look .guest))
    | _ => none
  | .pidEnds b =>
    if (s.broker b).watch = .waiting then some (State.watchExit b s (.look .guest)) else none
  | .watch b =>
    match (s.broker b).watch with
    | .exiting e => some (s.exitStep b (State.watchExit b) e)
    | _ => none
  | .exitFails b false =>
    match (s.broker b).main with
    | .exiting (.look p) | .exiting (.unlink p) => some (State.mainExit b s (.after p))
    | _ => none
  | .exitFails b true =>
    match (s.broker b).watch with
    | .exiting (.look p) | .exiting (.unlink p) => some (State.watchExit b s (.after p))
    | _ => none
  | .kill b =>
    match (s.broker b).main with
    | .absent | .dead => none
    | _ => some (s.die b)

/-- The path an action unlinks, and the broker it does so for. -/
def unlinks (s : State) : Action → Option (ℕ × Path)
  | .main b =>
    match (s.broker b).main with
    | .removing p | .exiting (.unlink p) => some (b, p)
    | .undoing true => some (b, .guest)
    | _ => none
  | .watch b =>
    match (s.broker b).watch with
    | .exiting (.unlink p) => some (b, p)
    | _ => none
  | _ => none

/-- The name holds the socket file a broker bound that is still alive. -/
def State.Has (s : State) (b : ℕ) (p : Path) : Prop :=
  ∃ i, (s.broker b).made p = some i ∧ s.name p = some (.socket i)

/-- A leaving thread of the broker stands between its `lstat` and its `unlink`. -/
def Broker.between (B : Broker) (p : Path) : Bool :=
  B.main == .exiting (.unlink p) || B.watch == .exiting (.unlink p)

/-- No path is bound while a leaving thread stands between its `lstat` of that path
and its `unlink`. -/
def unhurried (s : State) : Action → Prop
  | .bind b _ | .bindFails b (some _) =>
    match (s.broker b).main with
    | .binding p => ∀ c < s.started, (s.broker c).between p = false
    | _ => True
  | _ => True

instance (s : State) (a : Action) : Decidable (unhurried s a) := by
  unfold unhurried
  split <;> first | infer_instance | (split <;> infer_instance)

end Sockets
