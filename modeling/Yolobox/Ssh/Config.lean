/-
# The ssh.config of an instance

`parse_ssh_host_block`, `herdr_alias_block`, `lima_part_of` and `ensure_agent_ssh_config`
(`yolobox_cli/sshconfig.py`), `libvirt_ssh_config` and `write_ssh_config`
(`yolobox_cli/libvirt.py`), and the names and paths they spell (`yolobox_cli/state.py`).

A file's content is what `surrogateescape` makes of its bytes; `readText` is what a file
opened for text gives of it.  What is printed is left out.
-/
import Yolobox.Lib.Utf8
import Yolobox.Lines
import Yolobox.Posix

open Posix

namespace SshConfig

/-! ## Text -/

/-- `"\n".join(lines)` -/
def joinLines (lines : List PyStr) : PyStr := [10].intercalate lines

/-- `text.partition(sep)`, when the separator is there: what is before and after it. -/
def partition? (sep : PyStr) : PyStr → Option (PyStr × PyStr)
  | [] => none
  | c :: rest =>
    if startswith (c :: rest) sep then some ([], (c :: rest).drop sep.length)
    else (partition? sep rest).map fun (before, after) => (c :: before, after)

/-- `text.partition(sep)`, without the separator. -/
def partition (sep text : PyStr) : PyStr × PyStr := (partition? sep text).getD (text, [])

/-- `text.strip('"')` -/
def stripQuotes (text : PyStr) : PyStr := (text.dropWhile (· == 34)).rdropWhile (· == 34)

/-- Universal newlines: how Python reads a text file. -/
def readText : PyStr → PyStr
  | [] => []
  | 13 :: 10 :: rest => 10 :: readText rest
  | c :: rest => (if c = 13 then 10 else c) :: readText rest

theorem notMem_readText (text : PyStr) : 13 ∉ readText text := by
  fun_induction readText text with
  | case1 => exact List.not_mem_nil
  | case2 rest ih => simp [ih]
  | case3 c rest hcrlf ih =>
    split_ifs with hc
    · simp [ih]
    · simp [ih, Ne.symm hc]

theorem readText_of_notMem {text : PyStr} (h : 13 ∉ text) : readText text = text := by
  fun_induction readText text with
  | case1 => rfl
  | case2 rest ih => exact absurd List.mem_cons_self h
  | case3 c rest hcrlf ih =>
    rw [List.mem_cons, not_or] at h
    rw [if_neg (Ne.symm h.1), ih h.2]

/-- `"%s"` in double quotes. -/
def quoted (text : PyStr) : PyStr := 34 :: (text ++ [34])

/-- `%d` -/
def intText (n : ℤ) : PyStr := if n < 0 then 45 :: dec n.natAbs else dec n.toNat

/-! ## The machine -/

inductive HostDriver
  | lima
  | libvirt
  deriving DecidableEq, Repr

/-- `instances_dir` -/
def HostDriver.instancesDir : HostDriver → PyStr
  | .lima => lit ".lima"
  | .libvirt => lit ".local/state/yolobox/instances"

/-- A character of a machine's name. -/
def isNameChar (c : ℕ) : Bool :=
  isDigit c || (65 ≤ c && c ≤ 90) || (97 ≤ c && c ≤ 122) || c ∈ [45, 46, 95]

/-- The machine yo drives; its name was checked. -/
structure Box where
  driver : HostDriver
  name : PyStr
  name_ne_nil : name ≠ []
  isNameChar_name : ∀ c ∈ name, isNameChar c = true

def Box.vmHost (box : Box) : PyStr := lit "lima-" ++ box.name

def Box.herdrAlias (box : Box) : PyStr := box.name

def Box.tildeDir (box : Box) : PyStr := lit "~/" ++ box.driver.instancesDir ++ lit "/" ++ box.name

def AGENT_USER : PyStr := lit "agent"

def Box.editorSshBlock (box : Box) : PyStr :=
  joinLines [lit "Match host " ++ box.vmHost ++ lit " user " ++ AGENT_USER,
    lit "  ControlPath " ++ box.tildeDir ++ lit "/ssh-agent.sock",
    lit "  ForwardAgent no"]

/-- Where yo runs: the machine, `$HOME` or else the account's, and the longest path of a
unix socket. -/
structure Env where
  box : Box
  HOME : PyStr
  socketPathLimit : ℕ

def Env.home (e : Env) : PyStr := normpath e.HOME

def Env.instanceDir (e : Env) : PyStr := join (join e.home e.box.driver.instancesDir) e.box.name

def Env.knownHostsPath (e : Env) : PyStr := join e.instanceDir (lit "known_hosts")

def Env.agentControlPath (e : Env) : PyStr := join e.instanceDir (lit "ssh-agent.sock")

def Env.opSock (e : Env) : PyStr := join e.home (lit ".1password/agent.sock")

/-- `len(".") + 16` -/
def SSH_MUX_TEMP_SUFFIX_LENGTH : ℕ := 17

/-- `require_control_path_fits` does not raise. -/
def Env.controlPathFits (e : Env) : Bool :=
  match Utf8.encode e.agentControlPath with
  | some bytes => decide (bytes.length + SSH_MUX_TEMP_SUFFIX_LENGTH < e.socketPathLimit)
  | none => false

/-! ## Reading a Host block -/

/-- What yo reads of an instance's Host block. -/
structure SshHostBlock where
  hostname : PyStr
  port : PyStr
  identityFiles : List PyStr
  identityAgent : Option PyStr
  deriving DecidableEq, Repr

/-- The accumulators of the loop over a block's lines. -/
structure Seen where
  first : List (PyStr × PyStr)
  identityFiles : List PyStr
  deriving DecidableEq, Repr

/-- `first.get(key)` -/
def Seen.get (seen : Seen) (key : PyStr) : Option PyStr := seen.first.lookup key

/-- `first.setdefault(key, value)` -/
def Seen.setdefault (seen : Seen) (key value : PyStr) : Seen :=
  if (seen.get key).isSome then seen else { seen with first := (key, value) :: seen.first }

/-- The keyword of a line, and its value. -/
def fieldOf (line : PyStr) : PyStr × PyStr :=
  let (key, value) := partition (lit " ") (strip line)
  (key, stripQuotes (strip value))

def Seen.line (seen : Seen) (line : PyStr) : Seen :=
  let (key, value) := fieldOf line
  if key = lit "IdentityFile" then
    if value ≠ [] then { seen with identityFiles := seen.identityFiles ++ [value] } else seen
  else if key ∈ [lit "Hostname", lit "Port", lit "IdentityAgent"] then seen.setdefault key value
  else seen

/-- A line that does not end a block. -/
def isIndented (line : PyStr) : Bool :=
  match line with
  | [] => true
  | c :: _ => isSpace c

/-- `value or None` -/
def orNone : Option PyStr → Option PyStr
  | some [] => none
  | value => value

/-- The block of what its lines say. -/
def Seen.block (seen : Seen) : Option SshHostBlock :=
  match orNone (seen.get (lit "Hostname")), orNone (seen.get (lit "Port")), seen.identityFiles with
  | some hostname, some port, identity :: identities =>
    some ⟨hostname, port, identity :: identities, orNone (seen.get (lit "IdentityAgent"))⟩
  | _, _, _ => none

def parseSshHostBlock (text host : PyStr) : Option SshHostBlock :=
  match (splitlines text).dropWhile fun line => strip line != lit "Host " ++ host with
  | [] => none
  | _ :: lines => ((lines.takeWhile isIndented).foldl Seen.line ⟨[], []⟩).block

/-! ## The blocks yo writes -/

def AGENT_SSH_CONFIG_MARKER : PyStr :=
  lit "# yolobox: re-applied by yo; lima rewrites this file on every start"

def STAGE2_CONNECT_TIMEOUT_SECONDS : ℕ := 30
def SSH_ALIVE_INTERVAL_SECONDS : ℕ := 15
def STAGE2_ALIVE_COUNT_MAX : ℕ := 8

section
variable (e : Env)

def herdrAliasLines (hostBlock : SshHostBlock) : List PyStr :=
  [lit "Host " ++ e.box.herdrAlias,
    lit "  User " ++ AGENT_USER,
    lit "  ControlPath none",
    lit "  ForwardAgent no",
    lit "  Hostname " ++ hostBlock.hostname,
    lit "  Port " ++ hostBlock.port]
  ++ hostBlock.identityFiles.map (fun identity => lit "  IdentityFile " ++ quoted identity)
  ++ [lit "  UserKnownHostsFile " ++ quoted e.knownHostsPath, lit "  IdentitiesOnly yes"]
  ++ hostBlock.identityAgent.toList.map fun agent => lit "  IdentityAgent " ++ quoted agent

def herdrAliasBlock (hostBlock : SshHostBlock) : PyStr := joinLines (herdrAliasLines e hostBlock)

def hostKeyPinBlock : PyStr :=
  joinLines [lit "Match host " ++ e.box.vmHost,
    lit "  UserKnownHostsFile " ++ quoted e.knownHostsPath,
    lit "  StrictHostKeyChecking accept-new",
    lit "  NoHostAuthenticationForLocalhost no"]

def connectionBoundsBlock : PyStr :=
  joinLines [lit "Match host " ++ e.box.vmHost ++ lit "," ++ e.box.herdrAlias,
    lit "  ConnectTimeout " ++ dec STAGE2_CONNECT_TIMEOUT_SECONDS,
    lit "  ServerAliveInterval " ++ dec SSH_ALIVE_INTERVAL_SECONDS,
    lit "  ServerAliveCountMax " ++ dec STAGE2_ALIVE_COUNT_MAX]

/-- `lima_part_of`: what is not yo's of the file. -/
def limaPartOf (current : PyStr) : PyStr :=
  if startswith current AGENT_SSH_CONFIG_MARKER then
    match partition? [10, 10] current with
    | some (_, rest) => rest
    | none => (partition [10] current).2
  else current

/-- `owned` -/
def ownedBlocks (hostBlock : Option SshHostBlock) : List PyStr :=
  [AGENT_SSH_CONFIG_MARKER, e.box.editorSshBlock, hostKeyPinBlock e, connectionBoundsBlock e]
    ++ hostBlock.toList.map (herdrAliasBlock e)

/-- The header above the driver's part. -/
def headerOf (rest : PyStr) : PyStr :=
  joinLines (ownedBlocks e (parseSshHostBlock rest e.box.vmHost))

inductive ConfigError
  | controlPathTooLong
  deriving DecidableEq, Repr

/-- `ensure_agent_ssh_config` on the file's content: what it writes, if anything. -/
def ensureAgentSshConfig (content : Option PyStr) : Except ConfigError (Option PyStr) :=
  if e.controlPathFits then
    match content with
    | none => .ok none
    | some content =>
      let current := readText content
      let rest := limaPartOf current
      let newContent := headerOf e rest ++ [10, 10] ++ rest
      if newContent = current then .ok none else .ok (some newContent)
  else .error .controlPathTooLong

end

/-! ## The libvirt driver's part -/

def LOOPBACK : PyStr := lit "127.0.0.1"

def libvirtLines (host : PyStr) (port : ℤ) (user identityAgent instanceDir : PyStr) : List PyStr :=
  [lit "Host " ++ host,
    lit "  Hostname " ++ LOOPBACK,
    lit "  Port " ++ intText port,
    lit "  User " ++ user,
    lit "  IdentityAgent " ++ quoted identityAgent,
    lit "  IdentityFile " ++ quoted (join instanceDir (lit "operator.pub")),
    lit "  IdentitiesOnly yes",
    lit "  BatchMode yes",
    lit "  PreferredAuthentications publickey",
    lit "  PasswordAuthentication no",
    lit "  KbdInteractiveAuthentication no",
    lit "  GSSAPIAuthentication no",
    lit "  AddKeysToAgent no",
    lit "  ForwardAgent no",
    lit "  Compression no",
    lit "  ControlMaster auto",
    lit "  ControlPath " ++ quoted (join instanceDir (lit "ssh.sock")),
    lit "  ControlPersist yes",
    lit "  StrictHostKeyChecking no",
    lit "  UserKnownHostsFile /dev/null",
    lit "  NoHostAuthenticationForLocalhost yes",
    []]

def libvirtSshConfig (host : PyStr) (port : ℤ) (user identityAgent instanceDir : PyStr) : PyStr :=
  joinLines (libvirtLines host port user identityAgent instanceDir)

/-- `write_ssh_config` on the file's content: what it writes, if anything. -/
def writeSshConfig (e : Env) (port : ℤ) (user : PyStr) (content : Option PyStr) : Option PyStr :=
  let wanted := libvirtSshConfig e.box.vmHost port user e.opSock e.instanceDir
  let current := (content.map readText).getD []
  if limaPartOf current ≠ wanted then some wanted else none

end SshConfig
