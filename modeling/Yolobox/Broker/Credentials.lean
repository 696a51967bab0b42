/-
# Serving credentials

The guest side of `aws-broker`: any number of request threads (`GuestHandler`), the
cache of each allow-listed profile (`State`) under its lock, and the two clocks.
One action is one step of one thread, or a clock going on; a step reads a clock at
most once.  The wall clock may jump, the monotonic clock does not go back.

`history` is no part of the broker.  It records, newest first, what the results are
about: mints starting and ending, `State.get` returning credentials, replies sent.
-/
import Yolobox.Broker.Mint
import Yolobox.Lib.Transition

namespace Broker

/-! ## The replies -/

inductive Body
  | credentials (version : ℕ) (creds : Creds)
  | health (pid watchPid : ℕ) (allow : List PyStr)
  | text (body : PyStr)
  deriving DecidableEq, Repr

structure Reply where
  status : ℕ
  body : Body
  deriving DecidableEq, Repr

structure Config where
  allow : List PyStr
  minRemintInterval : ℚ         -- seconds
  maxConcurrent : ℕ
  pid : ℕ
  watchPid : ℕ

def credentialProcessVersion : ℕ := 1

def credsPathPrefix : PyStr := lit "/creds/"

def remintWindow : ℤ := 600 * secondMicros

def busyReply : Reply := ⟨503, .text (lit "broker busy; retry\n")⟩

def mintFailedBody (profile : PyStr) : PyStr :=
  lit "mint failed: run `aws sso login --profile " ++ profile ++
    lit "` on the Mac; the detail is in broker.log\n"

def requestFailedBody : PyStr := lit "request failed; the detail is in broker.log\n"

/-- `sorted(self.states)` -/
def Config.names (cfg : Config) : List PyStr := cfg.allow.dedup.insertionSort (· ≤ ·)

def Config.notAllowed (cfg : Config) (profile : PyStr) : Reply :=
  let allowed :=
    if cfg.names = [] then lit "(none)" else (lit ", ").intercalate cfg.names
  ⟨403, .text (lit "profile '" ++ profile ++ lit "' is not allowlisted; allowed: " ++ allowed ++
    lit "\n")⟩

/-- `creds_profile`. -/
def credsProfile (path : PyStr) : Option PyStr :=
  if startswith path credsPathPrefix then some (path.drop credsPathPrefix.length) else none

/-- `HealthHandler._route`. -/
def healthRoute (cfg : Config) (path : PyStr) : Reply :=
  if path = lit "/health" then ⟨200, .health cfg.pid cfg.watchPid cfg.names⟩
  else ⟨404, .text []⟩

/-- How `State.get` ends. -/
inductive Got
  | served (creds : Creds)
  | nothing
  | raised               -- the cached expiration does not parse
  deriving DecidableEq, Repr

/-- The reply of `_creds_route`, through `_guarded`. -/
def Got.reply (profile : PyStr) : Got → Reply
  | .served creds => ⟨200, .credentials credentialProcessVersion creds⟩
  | .nothing => ⟨500, .text (mintFailedBody profile)⟩
  | .raised => ⟨500, .text (if profile = [] then requestFailedBody else mintFailedBody profile)⟩

/-! ## The state -/

/-- `State`: what is cached of one profile. -/
structure Profile where
  lock : Option ℕ               -- the thread that holds it
  creds : Option Creds
  lastMintAttempt : Option ℚ
  lastMintError : Option MintError
  deriving DecidableEq, Repr

/-- Where a request thread stands. -/
inductive Stage
  | idle
  | asked (path : PyStr)
  | waiting (profile : PyStr)                   -- for the profile's lock
  | locked (profile : PyStr)
  | judged (profile : PyStr) (needsRemint : Bool)
  | willMint (profile : PyStr)
  | minting (profile : PyStr)                   -- `aws` runs
  | minted (profile : PyStr) (result : Except MintError Creds)
  | stamped (profile : PyStr) (result : Except MintError Creds)
  | checking (profile : PyStr)
  | leaving (profile : PyStr) (got : Got)       -- the lock is about to be released
  | routed (path : PyStr) (reply : Reply)       -- the slot is about to be released
  | replying (path : PyStr) (reply : Reply)
  deriving DecidableEq

/-- The profile whose lock a thread holds. -/
def Stage.holds : Stage → Option PyStr
  | .locked P | .judged P _ | .willMint P | .minting P | .minted P _ | .stamped P _
  | .checking P | .leaving P _ => some P
  | _ => none

inductive Event
  | mintStart (t : ℕ) (profile : PyStr) (time : ℚ)
  | mintEnd (t : ℕ) (profile : PyStr) (result : Except MintError Creds) (time : ℚ)
  | got (t : ℕ) (profile : PyStr) (creds : Creds) (wall : ℤ)
  | sent (t : ℕ) (path : PyStr) (reply : Reply)

def Event.thread : Event → ℕ
  | .mintStart t _ _ | .mintEnd t _ _ _ | .got t _ _ _ | .sent t _ _ => t

structure Sys where
  thread : ℕ → Stage
  profile : PyStr → Profile
  slots : ℕ                     -- free ones
  mono : ℚ                      -- seconds
  wall : ℤ                      -- microseconds
  history : List Event

def Sys.init (cfg : Config) (mono : ℚ) (wall : ℤ) : Sys where
  thread := fun _ => .idle
  profile := fun _ => ⟨none, none, none, none⟩
  slots := cfg.maxConcurrent
  mono := mono
  wall := wall
  history := []

/-! ## The steps of a thread -/

/-- What the environment decides about a thread's next step. -/
inductive Move
  | go
  | giveUp              -- `PROFILE_LOCK_TIMEOUT_SECONDS` are over
  | awsEnds (run : AwsRun)
  deriving DecidableEq, Repr

/-- What a step of a thread changes. -/
structure Effect where
  stage : Stage
  profile : Option (PyStr × Profile) := none
  slots : ℕ
  event : Option Event := none

def Sys.apply (s : Sys) (t : ℕ) (e : Effect) : Sys where
  thread := Function.update s.thread t e.stage
  profile := match e.profile with
    | some (P, p) => Function.update s.profile P p
    | none => s.profile
  slots := e.slots
  mono := s.mono
  wall := s.wall
  history := e.event.toList ++ s.history

variable (cfg : Config) (py : Python)

/-- `needs_remint`, or `none` where `seconds_to_expiry` raises. -/
def needsRemint (p : Profile) (wall : ℤ) : Option Bool :=
  match p.creds with
  | none => some true
  | some creds =>
    (parseExpiration creds.expiration).map fun expiry => decide (expiry - wall < remintWindow)

def throttled (p : Profile) (mono : ℚ) : Bool :=
  p.lastMintAttempt.any fun last => mono - last < cfg.minRemintInterval

/-- What `State.get` returns at its end. -/
def usable (p : Profile) (wall : ℤ) : Got :=
  match p.creds with
  | none => .nothing
  | some creds =>
    match parseExpiration creds.expiration with
    | none => .raised
    | some expiry => if expiry - wall ≤ 0 then .nothing else .served creds

/-- `_remint_locked`, once `last_mint_attempt` is set. -/
def Profile.store (p : Profile) : Except MintError Creds → Profile
  | .error e => { p with lastMintError := some e }
  | .ok creds => { p with creds := some creds, lastMintError := none }

def Got.event (t : ℕ) (profile : PyStr) (wall : ℤ) : Got → Option Event
  | .served creds => some (.got t profile creds wall)
  | _ => none

/-- A free slot is taken for a `/creds/` path; a profile that is not in `states` is
refused, and one that is waits for the lock. -/
def route (s : Sys) (path : PyStr) : Effect :=
  match credsProfile path with
  | none => { stage := .replying path (healthRoute cfg path), slots := s.slots }
  | some profile =>
    if s.slots = 0 then { stage := .replying path busyReply, slots := 0 }
    else if profile ∈ cfg.allow then { stage := .waiting profile, slots := s.slots - 1 }
    else { stage := .routed path (cfg.notAllowed profile), slots := s.slots - 1 }

def advance (s : Sys) (t : ℕ) : Stage → Move → Option Effect
  | .asked path, .go => some (route cfg s path)
  | .waiting P, .go =>
    if (s.profile P).lock = none then
      some { stage := .locked P, profile := some (P, { s.profile P with lock := some t }),
             slots := s.slots }
    else none
  | .waiting P, .giveUp =>
    some { stage := .routed (credsPathPrefix ++ P) busyReply, slots := s.slots }
  | .locked P, .go =>
    match needsRemint (s.profile P) s.wall with
    | none => some { stage := .leaving P .raised, slots := s.slots }
    | some needs => some { stage := .judged P needs, slots := s.slots }
  | .judged P needs, .go =>
    if needs && !throttled cfg (s.profile P) s.mono then
      some { stage := .willMint P, slots := s.slots }
    else some { stage := .checking P, slots := s.slots }
  | .willMint P, .go =>
    some { stage := .minting P, slots := s.slots, event := some (.mintStart t P s.mono) }
  | .minting P, .awsEnds run =>
    (exportCredentials py run).map fun result =>
      { stage := .minted P result, slots := s.slots,
        event := some (.mintEnd t P result s.mono) }
  | .minted P result, .go =>
    some { stage := .stamped P result,
           profile := some (P, { s.profile P with lastMintAttempt := some s.mono }),
           slots := s.slots }
  | .stamped P result, .go =>
    some { stage := .checking P, profile := some (P, (s.profile P).store result),
           slots := s.slots }
  | .checking P, .go =>
    let got := usable (s.profile P) s.wall
    some { stage := .leaving P got, slots := s.slots, event := got.event t P s.wall }
  | .leaving P got, .go =>
    some { stage := .routed (credsPathPrefix ++ P) (got.reply P),
           profile := some (P, { s.profile P with lock := none }), slots := s.slots }
  | .routed path reply, .go => some { stage := .replying path reply, slots := s.slots + 1 }
  | .replying path reply, .go =>
    some { stage := .idle, slots := s.slots, event := some (.sent t path reply) }
  | _, _ => none

inductive Action
  | tick (mono : ℚ)
  | setWall (wall : ℤ)
  | request (t : ℕ) (path : PyStr)
  | thread (t : ℕ) (move : Move)

def step (s : Sys) : Action → Option Sys
  | .tick mono => if s.mono ≤ mono then some { s with mono := mono } else none
  | .setWall wall => some { s with wall := wall }
  | .request t path =>
    if s.thread t = .idle then some (s.apply t { stage := .asked path, slots := s.slots })
    else none
  | .thread t move => (advance cfg py s t (s.thread t) move).map (s.apply t)

/-! ## Reading the history -/

/-- The credentials of the latest successful mint of a profile. -/
def latestMint (P : PyStr) : List Event → Option Creds
  | [] => none
  | .mintEnd _ Q (.ok creds) _ :: pre => if Q = P then some creds else latestMint P pre
  | _ :: pre => latestMint P pre

/-- When the mints of a profile ended. -/
def mintEnds (P : PyStr) : List Event → List ℚ
  | [] => []
  | .mintEnd _ Q _ time :: pre => if Q = P then time :: mintEnds P pre else mintEnds P pre
  | _ :: pre => mintEnds P pre

/-- Whether a mint of a profile has started and not ended. -/
def mintPending (P : PyStr) : List Event → Bool
  | [] => false
  | .mintStart _ Q _ :: pre => Q = P || mintPending P pre
  | .mintEnd _ Q _ _ :: pre => Q ≠ P && mintPending P pre
  | _ :: pre => mintPending P pre

/-- The thread's last event is that `State.get` of `P` returned these credentials. -/
def LastGot (t : ℕ) (P : PyStr) (creds : Creds) (pre : List Event) : Prop :=
  ∃ between wall before, pre = between ++ .got t P creds wall :: before ∧
    ∀ e ∈ between, e.thread ≠ t

/-- What holds of an event after the events before it. -/
def EventOk (e : Event) (pre : List Event) : Prop :=
  match e with
  | .mintStart _ P time =>
    mintPending P pre = false ∧ ∀ ended ∈ mintEnds P pre, ended + cfg.minRemintInterval ≤ time
  | .mintEnd _ _ result _ => ∀ creds, result = .ok creds → creds.sessionToken ≠ []
  | .got _ P creds wall =>
    P ∈ cfg.allow ∧ latestMint P pre = some creds ∧ creds.sessionToken ≠ [] ∧
      ∃ expiry, parseExpiration creds.expiration = some expiry ∧ wall < expiry
  | .sent t path reply =>
    reply.status = 200 → ∀ P, path = credsPathPrefix ++ P →
      ∃ creds, reply.body = .credentials credentialProcessVersion creds ∧ LastGot t P creds pre

/-- Every event is as it should be after those before it. -/
def Good : List Event → Prop
  | [] => True
  | e :: pre => EventOk cfg e pre ∧ Good pre

end Broker
