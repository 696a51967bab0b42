/-
# The ssh-agent protocol

`ssh_string` to `parse_agent_signature`, `recv_exact`, `read_agent_reply`, `ssh_agent_call`,
`ssh_agent_identities` and `ssh_agent_sign` (`yolobox_cli/agent.py`).

A slice of Python stops at the end of the bytes.  Here one that reaches past the end fails
(`overrun`), so that reading past the end is an outcome that can be ruled out.
-/
import Yolobox.Lib.Wire
import Yolobox.Lib.Utf8
import Yolobox.Text

open Wire

namespace Agent

abbrev Bytes := List Byte

/-! ## Exceptions -/

inductive OSErrorKind
  | timeout
  | agentConnectionClosed
  | connectionReset
  | brokenPipe
  | other
  deriving DecidableEq, Repr

structure OSError where
  kind : OSErrorKind
  text : PyStr
  deriving DecidableEq, Repr

/-- What a call may raise: a `YoError`, the one for an agent that hung up among them, an
`OSError`, or what `struct` and a list raise on bytes that are too few. -/
inductive Raised
  | yoError (message : PyStr)
  | agentHungUp (message : PyStr)
  | osError (failure : OSError)
  | structError
  | indexError
  | overrun
  deriving DecidableEq, Repr

/-- A `YoError`. -/
def Raised.IsYoError : Raised → Prop
  | .yoError _ | .agentHungUp _ => True
  | _ => False

abbrev Py := Except Raised

/-! ## Strings on the wire -/

def AGENT_REPLY_TIMEOUT : ℕ := 300
def AGENT_MAX_REPLY_BYTES : ℕ := 2 ^ 20
def ED25519_SIGNATURE_LENGTH : ℕ := 64
def SSH_AGENT_FAILURE : Byte := 5
def SSH_AGENT_REQUEST_IDENTITIES : Byte := 11
def SSH_AGENT_IDENTITIES_ANSWER : Byte := 12
def SSH_AGENT_SIGN_REQUEST : Byte := 13
def SSH_AGENT_SIGN_RESPONSE : Byte := 14
def LUKS_KEY_ITEM : PyStr := lit "yolobox-disk"

/-- `b"..."` -/
def ascii (text : String) : Bytes := text.toList.map fun c => Fin.ofNat 256 c.toNat

def truncated : Raised := .yoError (lit "the ssh agent sent a truncated message")

/-- `struct.pack(">I", n)` -/
def pack (n : ℕ) : Py Bytes := if n < 2 ^ 32 then .ok (u32 n) else .error .structError

/-- `struct.unpack(">I", bytes)` -/
def unpack (bytes : Bytes) : Py ℕ := if bytes.length = 4 then .ok (ofBytes bytes) else .error .structError

/-- `buf[start:stop]` -/
def slice (buf : Bytes) (start stop : ℕ) : Py Bytes :=
  if start ≤ stop ∧ stop ≤ buf.length then .ok ((buf.take stop).drop start) else .error .overrun

def sshString (data : Bytes) : Py Bytes := do
  let length ← pack data.length
  return length ++ data

def readSshString (buf : Bytes) (pos : ℕ) : Py (Bytes × ℕ) := do
  if pos + 4 > buf.length then
    throw truncated
  let length ← unpack (← slice buf pos (pos + 4))
  let stop := pos + 4 + length
  if stop > buf.length then
    throw truncated
  return (← slice buf (pos + 4) stop, stop)

/-- The loop of `parse_agent_identities`, with `count` identities to go. -/
def identitiesFrom (body : Bytes) : ℕ → ℕ → Py (List (Bytes × PyStr))
  | 0, _ => return []
  | count + 1, pos => do
    let (blob, pos) ← readSshString body pos
    let (comment, pos) ← readSshString body pos
    let rest ← identitiesFrom body count pos
    return (blob, Utf8.decodeReplace comment) :: rest

def parseAgentIdentities (body : Bytes) : Py (List (Bytes × PyStr)) := do
  if body.length < 4 then
    throw truncated
  let count ← unpack (← slice body 0 4)
  identitiesFrom body count 4

def wrongAlgorithm (algorithm : Bytes) : Raised :=
  .yoError (lit "the " ++ LUKS_KEY_ITEM ++ lit " key signed with " ++ Utf8.decodeReplace algorithm ++
    lit "; it must be an Ed25519 key")

def wrongLength (length : ℕ) : Raised :=
  .yoError (lit "the ssh agent returned a " ++ dec length ++ lit "-byte Ed25519 signature, not " ++
    dec ED25519_SIGNATURE_LENGTH)

/-- The checks at the end of `parse_agent_signature`. -/
def checkSignature (algorithm raw : Bytes) : Py Bytes :=
  if algorithm ≠ ascii "ssh-ed25519" then .error (wrongAlgorithm algorithm)
  else if raw.length ≠ ED25519_SIGNATURE_LENGTH then .error (wrongLength raw.length)
  else .ok raw

def parseAgentSignature (body : Bytes) : Py Bytes := do
  let (signature, _) ← readSshString body 0
  let (algorithm, pos) ← readSshString signature 0
  let (raw, _) ← readSshString signature pos
  checkSignature algorithm raw

/-! ## Replies -/

/-- A connected socket. -/
abbrev Socket := Wire.Stream OSError

def connectionClosed : OSError := ⟨.agentConnectionClosed, lit "connection closed mid-message"⟩

def oddLength (length : ℕ) : OSError := ⟨.other, lit "implausible reply length " ++ dec length⟩

def recvExact (conn : Socket) (count : ℕ) : Py (Bytes × Socket) :=
  if count = 0 then .ok ([], conn)
  else match conn.recv count with
    | .error failure => .error (.osError failure)
    | .ok ([], _) => .error (.osError connectionClosed)
    | .ok (b :: bs, conn) => do
      let (rest, conn) ← recvExact conn (count - (bs.length + 1))
      return (b :: bs ++ rest, conn)
termination_by count

def readAgentReply (conn : Socket) : Py (Bytes × Socket) := do
  let (head, conn) ← recvExact conn 4
  let length ← unpack head
  if length = 0 ∨ length > AGENT_MAX_REPLY_BYTES then .error (.osError (oddLength length))
  else recvExact conn length

/-! ## Calls -/

/-- What becomes of one call's connection: whether it is made, whether the request is taken,
and what is received. -/
structure Conversation where
  connect : Option OSError
  sendall : Option OSError
  reply : Socket

section
variable (sockPath : PyStr)

def didNotAnswer : Raised :=
  .yoError (lit "1Password's SSH agent at " ++ sockPath ++ lit " did not answer within " ++
    dec AGENT_REPLY_TIMEOUT ++ lit " s — approve its prompt")

def hungUp (failure : OSError) : Raised :=
  .agentHungUp (lit "1Password's SSH agent at " ++ sockPath ++ lit " hung up before it answered: " ++
    failure.text)

def notAnswering (failure : OSError) : Raised :=
  .yoError (lit "1Password's SSH agent at " ++ sockPath ++ lit " is not answering: " ++ failure.text)

/-- What the two handlers make of what is raised. -/
def handled : Raised → Raised
  | .osError failure =>
    match failure.kind with
    | .timeout => didNotAnswer sockPath
    | .agentConnectionClosed | .connectionReset | .brokenPipe => hungUp sockPath failure
    | .other => notAnswering sockPath failure
  | raised => raised

/-- The request, and its reply. -/
def exchange (talk : Conversation) (payload : Bytes) : Py Bytes := do
  let _request ← sshString payload
  match talk.sendall with
  | some failure => throw (.osError failure)
  | none =>
    let (reply, _) ← readAgentReply talk.reply
    return reply

/-- `agent` is what the agent makes of a request. -/
def sshAgentCall (agent : Bytes → Conversation) (payload : Bytes) : Py Bytes :=
  match (agent payload).connect with
  | some failure => .error (notAnswering sockPath failure)
  | none => (exchange (agent payload) payload).mapError (handled sockPath)

/-- `reply[0]` -/
def firstByte (reply : Bytes) : Py Byte :=
  match reply with
  | [] => .error .indexError
  | b :: _ => .ok b

def sshAgentIdentities (agent : Bytes → Conversation) : Py (List (Bytes × PyStr)) := do
  let reply ← sshAgentCall sockPath agent [SSH_AGENT_REQUEST_IDENTITIES]
  let type ← firstByte reply
  if type ≠ SSH_AGENT_IDENTITIES_ANSWER then
    .error (.yoError (lit "the ssh agent answered message type " ++ dec type.val ++
      lit " to a key listing"))
  else parseAgentIdentities reply.tail

def REAPPROVE_HINT : PyStr :=
  lit "approve the prompt in 1Password and run the same yo command again"

/-- The handler of `ssh_agent_sign`. -/
def declined : Raised → Raised
  | .agentHungUp message =>
    .yoError (message ++ lit " — the approval prompt was probably declined or timed out; " ++
      REAPPROVE_HINT)
  | raised => raised

def signRequest (blob data : Bytes) : Py Bytes := do
  let blob ← sshString blob
  let data ← sshString data
  return SSH_AGENT_SIGN_REQUEST :: blob ++ data ++ [0, 0, 0, 0]

/-- The call of `ssh_agent_sign`. -/
def signCall (agent : Bytes → Conversation) (blob data : Bytes) : Py Bytes := do
  let request ← signRequest blob data
  sshAgentCall sockPath agent request

def sshAgentSign (agent : Bytes → Conversation) (blob data : Bytes) : Py Bytes := do
  let reply ← (signCall sockPath agent blob data).mapError declined
  let type ← firstByte reply
  if type = SSH_AGENT_FAILURE then
    .error (.yoError (lit "1Password declined to sign with the " ++ LUKS_KEY_ITEM ++ lit " key — " ++
      REAPPROVE_HINT))
  else if type ≠ SSH_AGENT_SIGN_RESPONSE then
    .error (.yoError (lit "the ssh agent answered message type " ++ dec type.val ++
      lit " to a sign request"))
  else parseAgentSignature reply.tail

end

end Agent
