/-
# The host keys that are pinned

`known_hosts_lines` (`yolobox_cli/sshconfig.py`) and `ensure_guest_known_hosts`
(`yolobox_cli/guest.py`), which writes what the guest prints, and what ssh makes of the file.
How ssh reads a line is a parameter, of which `Reads` says what is relied on.  Every character
with a meaning there is ASCII.
-/
import Yolobox.LandingDir
import Yolobox.Ssh.HostBlocks

open Utf8 Paths

namespace SshConfig

/-! ## What yo writes -/

/-- The first word of a text for `str.split`, and what is behind it. -/
def firstWord (text : PyStr) : PyStr × PyStr :=
  let text := text.dropWhile isSpace
  (text.takeWhile fun c => !isSpace c, text.dropWhile fun c => !isSpace c)

/-- The first two of `raw.split(None, 2)`, where there are two. -/
def keyFields (raw : PyStr) : Option (PyStr × PyStr) :=
  let (keytype, rest) := firstWord raw
  let (key, _) := firstWord rest
  if key = [] then none else some (keytype, key)

def hostPort (hostBlock : SshHostBlock) : PyStr :=
  lit "[" ++ hostBlock.hostname ++ lit "]:" ++ hostBlock.port

def keyLine (hostBlock : SshHostBlock) (fields : PyStr × PyStr) : PyStr :=
  hostPort hostBlock ++ lit " " ++ fields.1 ++ lit " " ++ fields.2

/-- `known_hosts_lines` -/
def knownHostsLines (hostBlock : SshHostBlock) (pubkeys : PyStr) : List PyStr :=
  ((splitlines pubkeys).filterMap keyFields).map (keyLine hostBlock)

def HOST_KEY_GLOB : PyStr := lit "/etc/ssh/ssh_host_*_key.pub"

/-- What `ssh_run` returned. -/
structure Completed where
  returncode : ℤ
  stdout : List Byte
  stderr : List Byte

/-- `failure_detail` -/
def failureDetail (completed : Completed) : PyStr :=
  strip (if captured completed.stderr = [] then captured completed.stdout
    else captured completed.stderr)

/-- `ensure_guest_known_hosts`: an error's text, or the content of the file, where one is
written. -/
def ensureGuestKnownHosts (e : Env) (current : Option PyStr) (completed : Completed) :
    Except PyStr (Option PyStr) :=
  match current.bind fun content => parseSshHostBlock (readText content) e.box.vmHost with
  | none => .ok none
  | some hostBlock =>
    if completed.returncode ≠ 0 then
      .error (lit "could not fetch the guest's ssh host keys (" ++ HOST_KEY_GLOB ++
        lit ") to pin them for the '" ++ e.box.herdrAlias ++ lit "' ssh alias: " ++
        failureDetail completed)
    else
      let lines := knownHostsLines hostBlock (captured completed.stdout)
      if lines = [] then
        .error (lit "the guest reported no parseable ssh host keys at " ++ HOST_KEY_GLOB)
      else .ok (some (joinLines lines ++ lit "\n"))

/-! ## What ssh reads -/

/-- One line of a known_hosts file. -/
inductive Entry
  | comment
  | marked                                -- `@cert-authority` or `@revoked`
  | broken
  | pins (hosts keytype key : PyStr)
  deriving DecidableEq

def isBlank (c : ℕ) : Bool := c == 32 || c == 9

/-- The next token, and what is behind it. -/
def token (text : PyStr) : PyStr × PyStr :=
  let text := text.dropWhile isBlank
  (text.takeWhile fun c => !isBlank c, text.dropWhile fun c => !isBlank c)

/-- A line is a C string: it ends at a NUL. -/
def cString (line : PyStr) : PyStr := line.takeWhile fun c => c != 0

/-- What is relied on of the way ssh reads a line.  A NUL ends it.  Where no `#` and no `@` opens
it, its first field names the hosts; the next two are the key that is pinned for them, or the
line is skipped. -/
structure Reads (read : PyStr → Entry) : Prop where
  pins : ∀ hosts rest, hosts ≠ [] → (∀ c ∈ hosts, isBlank c = false ∧ c ≠ 0) →
    hosts.head? ≠ some 35 → hosts.head? ≠ some 64 →
    read (hosts ++ 32 :: rest) = .broken ∨
      (token (token (cString rest)).2).1 ≠ [] ∧ read (hosts ++ 32 :: rest) =
        .pins hosts (token (cString rest)).1 (token (token (cString rest)).2).1

/-! ## Words and tokens -/

variable {text word rest : PyStr} {hostBlock : SshHostBlock} {read : PyStr → Entry}

theorem firstWord_notSpace (text : PyStr) : ∀ c ∈ (firstWord text).1, isSpace c = false := by
  intro c hc
  simpa using List.mem_takeWhile_imp hc

theorem keyFields_spec {fields : PyStr × PyStr} (h : keyFields text = some fields) :
    (fields.1 ≠ [] ∧ ∀ c ∈ fields.1, isSpace c = false) ∧
      fields.2 ≠ [] ∧ ∀ c ∈ fields.2, isSpace c = false := by
  have hword : ∀ {text : PyStr}, text ≠ [] → (∀ c ∈ text.head?, isSpace c = false) →
      (text.takeWhile fun c => !isSpace c) ≠ [] := by
    intro text hne hhead
    obtain ⟨c, cs, rfl⟩ := List.exists_cons_of_ne_nil hne
    rw [List.takeWhile_cons_of_pos (by simp [hhead c rfl])]
    exact List.cons_ne_nil _ _
  change (if (firstWord (firstWord text).2).1 = [] then none
    else some ((firstWord text).1, (firstWord (firstWord text).2).1)) = some fields at h
  split_ifs at h with hkey
  cases h
  refine ⟨⟨fun hnil => hkey ?_, firstWord_notSpace text⟩, hkey, firstWord_notSpace _⟩
  -- without a first word there is nothing behind it
  have hnone : text.dropWhile isSpace = [] := by
    by_contra hne
    refine hword hne (fun c hc => ?_) hnil
    have hnot := List.head?_dropWhile_not isSpace text
    rw [Option.mem_def.mp hc] at hnot
    simpa using hnot
  simp only [firstWord, hnone]
  rfl

theorem isBlank_of_isSpace {c : ℕ} (h : isSpace c = false) : isBlank c = false := by
  by_contra hblank
  rw [Bool.not_eq_false, isBlank, Bool.or_eq_true, beq_iff_eq, beq_iff_eq] at hblank
  rcases hblank with rfl | rfl <;> cases h

/-- A token ends where a blank or the line's end is. -/
theorem token_append (hword : word ≠ []) (hblank : ∀ c ∈ word, isBlank c = false)
    (hrest : ∀ c ∈ rest.head?, isBlank c = true) : token (word ++ rest) = (word, rest) := by
  obtain ⟨c, cs, rfl⟩ := List.exists_cons_of_ne_nil hword
  have hall : ∀ d ∈ c :: cs, (!isBlank d) = true := fun d hd => by simp [hblank d hd]
  have hstart : (c :: cs ++ rest).dropWhile isBlank = c :: cs ++ rest :=
    List.dropWhile_cons_of_neg (by simp [hblank c])
  rw [token, hstart, List.takeWhile_append_of_pos hall, List.dropWhile_append_of_pos hall]
  cases rest with
  | nil => simp
  | cons d rest =>
    have hd : isBlank d = true := hrest d rfl
    rw [List.takeWhile_cons_of_neg (by simp [hd]), List.dropWhile_cons_of_neg (by simp [hd]),
      List.append_nil]

theorem token_append_blank (hword : word ≠ []) (hblank : ∀ c ∈ word, isBlank c = false)
    (rest : PyStr) : token (word ++ 32 :: rest) = (word, 32 :: rest) := by
  refine token_append hword hblank ?_
  rintro c hc
  cases hc
  rfl

theorem token_blank (text : PyStr) : token (32 :: text) = token text := by
  rw [token, List.dropWhile_cons_of_pos (by rfl), ← token]

theorem token_word (hblank : ∀ c ∈ word, isBlank c = false) : token word = (word, []) := by
  by_cases hword : word = []
  · subst hword
    rfl
  · have happend : token (word ++ []) = (word, []) := token_append hword hblank (by simp)
    rwa [List.append_nil] at happend

theorem cString_append (h : 0 ∉ word) (rest : PyStr) :
    cString (word ++ rest) = word ++ cString rest := by
  refine List.takeWhile_append_of_pos fun c hc => ?_
  rw [bne_iff_ne]
  rintro rfl
  exact h hc

theorem cString_append_of_mem (h : 0 ∈ word) (rest : PyStr) :
    cString (word ++ rest) = cString word := by
  induction word with
  | nil => exact absurd h List.not_mem_nil
  | cons c word ih =>
    rw [List.cons_append, cString, cString]
    by_cases hc : c = 0
    · rw [List.takeWhile_cons_of_neg (by simp [hc]), List.takeWhile_cons_of_neg (by simp [hc])]
    · rw [List.takeWhile_cons_of_pos (by simp [hc]), List.takeWhile_cons_of_pos (by simp [hc])]
      exact congrArg _ (ih ((List.mem_cons.mp h).resolve_left (Ne.symm hc)))

theorem mem_of_mem_cString {c : ℕ} (h : c ∈ cString word) : c ∈ word :=
  (List.takeWhile_sublist _).subset h

/-! ## A line is read back -/

/-- A host and a port that ssh reads as one token. -/
def Clean (hostBlock : SshHostBlock) : Prop :=
  ∀ c ∈ hostPort hostBlock, isSpace c = false ∧ c ≠ 0

instance (hostBlock : SshHostBlock) : Decidable (Clean hostBlock) := by
  unfold Clean
  infer_instance

/-- What ssh makes of a key that was printed: it skips the line, or pins that key for the
machine's own host and port. -/
def Pinned (read : PyStr → Entry) (hostBlock : SshHostBlock) (fields : PyStr × PyStr)
    (line : PyStr) : Prop :=
  read line = .broken ∨
    0 ∉ fields.1 ∧ read line = .pins (hostPort hostBlock) fields.1 (cString fields.2)

theorem keyLine_eq (hostBlock : SshHostBlock) (fields : PyStr × PyStr) :
    keyLine hostBlock fields = hostPort hostBlock ++ 32 :: (fields.1 ++ 32 :: fields.2) := by
  have hblank : lit " " = [32] := by decide
  simp only [keyLine, hblank, List.append_assoc, List.cons_append, List.nil_append]

theorem newline_not_mem_keyLine (hclean : Clean hostBlock) {fields : PyStr × PyStr}
    (htype : ∀ c ∈ fields.1, isSpace c = false) (hkey : ∀ c ∈ fields.2, isSpace c = false) :
    10 ∉ keyLine hostBlock fields := by
  intro hmem
  have hsplit : 10 ∈ hostPort hostBlock ∨ 10 ∈ fields.1 ∨ 10 ∈ fields.2 := by
    simpa [keyLine_eq] using hmem
  rcases hsplit with hmem | hmem | hmem
  · exact absurd (hclean 10 hmem).1 (by decide)
  · exact absurd (htype 10 hmem) (by decide)
  · exact absurd (hkey 10 hmem) (by decide)

theorem pinned_keyLine (hread : Reads read) (hclean : Clean hostBlock) {fields : PyStr × PyStr}
    (htype : fields.1 ≠ [] ∧ ∀ c ∈ fields.1, isSpace c = false)
    (hkey : ∀ c ∈ fields.2, isSpace c = false) :
    Pinned read hostBlock fields (keyLine hostBlock fields) := by
  obtain ⟨keytype, key⟩ := fields
  have htoken : ∀ {word : PyStr}, (∀ c ∈ word, isSpace c = false) →
      token (cString word) = (cString word, []) :=
    fun h => token_word fun c hc => isBlank_of_isSpace (h c (mem_of_mem_cString hc))
  -- a bracket, so neither a comment nor a marker
  obtain ⟨host, hhead⟩ : ∃ host, hostPort hostBlock = 91 :: host := ⟨_, rfl⟩
  have hline := hread.pins (hostPort hostBlock) (keytype ++ 32 :: key) (by simp [hhead])
    (fun c hc => ⟨isBlank_of_isSpace (hclean c hc).1, (hclean c hc).2⟩) (by simp [hhead])
    (by simp [hhead])
  rw [← keyLine_eq hostBlock (keytype, key)] at hline
  obtain hbroken | ⟨hne, hpins⟩ := hline
  · exact .inl hbroken
  by_cases hnul : 0 ∈ keytype
  · -- the line ends in the type, so there is no key
    rw [cString_append_of_mem hnul, htoken htype.2] at hne
    exact absurd rfl hne
  · have hrest : cString (keytype ++ 32 :: key) = keytype ++ 32 :: cString key := by
      rw [cString_append hnul]
      exact congrArg _ (List.takeWhile_cons_of_pos (by rfl))
    have hsecond : token (keytype ++ 32 :: cString key) = (keytype, 32 :: cString key) :=
      token_append_blank htype.1 (fun c hc => isBlank_of_isSpace (htype.2 c hc)) _
    rw [hrest, hsecond, token_blank, htoken hkey] at hpins
    exact .inr ⟨hnul, hpins⟩

/-- **What the guest prints is pinned for its own host and port, and for nothing else.**  Whatever
bytes it prints for its keys, ssh reads the file that yo writes as one entry for each line that
had two words, in their order: the host and the port of its own block with that type and that
key, up to a NUL, or a line that ssh skips.  No line is a marker, and none names another host. -/
theorem knownHosts_pins (hread : Reads read) {e : Env} {current : Option PyStr} {completed : Completed} {file : PyStr}
    (hclean : ∀ content ∈ current, ∀ hostBlock ∈ parseSshHostBlock (readText content) e.box.vmHost,
      Clean hostBlock)
    (h : ensureGuestKnownHosts e current completed = .ok (some file)) :
    ∃ content hostBlock, current = some content ∧
      parseSshHostBlock (readText content) e.box.vmHost = some hostBlock ∧ completed.returncode = 0 ∧
      (splitlines (captured completed.stdout)).filterMap keyFields ≠ [] ∧
      List.Forall₂ (Pinned read hostBlock)
        ((splitlines (captured completed.stdout)).filterMap keyFields) (fileLines file) := by
  rw [ensureGuestKnownHosts] at h
  cases hparse : current.bind fun content =>
      parseSshHostBlock (readText content) e.box.vmHost with
  | none =>
    rw [hparse] at h
    exact absurd (Except.ok.inj h) (by simp)
  | some hostBlock =>
    rw [hparse] at h
    obtain ⟨content, rfl, hblock⟩ := Option.bind_eq_some_iff.mp hparse
    have hhost : Clean hostBlock := hclean content rfl hostBlock hblock
    simp only at h
    split_ifs at h with hcode hnil
    · generalize hfields : (splitlines (captured completed.stdout)).filterMap keyFields = fields
      have hlines : knownHostsLines hostBlock (captured completed.stdout) =
          fields.map (keyLine hostBlock) := by
        rw [knownHostsLines, hfields]
      rw [hlines] at h hnil
      have hspec : ∀ field ∈ fields, (field.1 ≠ [] ∧ ∀ c ∈ field.1, isSpace c = false) ∧
          field.2 ≠ [] ∧ ∀ c ∈ field.2, isSpace c = false := by
        intro field hfield
        rw [← hfields] at hfield
        obtain ⟨raw, -, hraw⟩ := List.mem_filterMap.mp hfield
        exact keyFields_spec hraw
      have hfile : file = unlines (fields.map (keyLine hostBlock)) := by
        have hnewline : lit "\n" = [10] := by decide
        rw [← unlines_eq_joinLines hnil, joinLines_append hnil (List.cons_ne_nil _ _),
          joinLines_singleton, ← Option.some.inj (Except.ok.inj h), hnewline]
      refine ⟨content, hostBlock, rfl, hblock, not_not.mp hcode, fun h => hnil (by rw [h]; rfl), ?_⟩
      rw [hfile, fileLines_unlines, List.forall₂_map_right_iff, List.forall₂_same]
      · intro field hfield
        obtain ⟨htype, -, hkey⟩ := hspec field hfield
        exact pinned_keyLine hread hhost htype hkey
      · rintro line hline
        obtain ⟨field, hfield, rfl⟩ := List.mem_map.mp hline
        obtain ⟨htype, -, hkey⟩ := hspec field hfield
        exact newline_not_mem_keyLine hhost htype.2 hkey

/-! ## A reader -/

/-- One line; behind the hosts a `#` ends it. -/
def readEntry (line : PyStr) : Entry :=
  let text := (cString line).dropWhile isBlank
  if text = [] ∨ text.head? = some 35 then .comment
  else if text.head? = some 64 then .marked
  else
    let (hosts, rest) := token text
    let (keytype, rest) := token rest
    let (key, _) := token rest
    if keytype.head? = some 35 ∨ key = [] then .broken else .pins hosts keytype key

theorem reads_readEntry : Reads readEntry where
  pins hosts rest hne hhosts hcomment hmarker := by
    have hnul : 0 ∉ hosts := fun hmem => (hhosts 0 hmem).2 rfl
    have hblank : ∀ c ∈ hosts, isBlank c = false := fun c hc => (hhosts c hc).1
    have hline : cString (hosts ++ 32 :: rest) = hosts ++ 32 :: cString rest := by
      rw [cString_append hnul]
      exact congrArg _ (List.takeWhile_cons_of_pos (by rfl))
    have hfirst := token_append_blank hne hblank (cString rest)
    have hread : readEntry (hosts ++ 32 :: rest) =
        if (token (cString rest)).1.head? = some 35 ∨ (token (token (cString rest)).2).1 = [] then
          .broken
        else .pins hosts (token (cString rest)).1 (token (token (cString rest)).2).1 := by
      obtain ⟨c, cs, rfl⟩ := List.exists_cons_of_ne_nil hne
      rw [readEntry, hline]
      rw [List.cons_append] at hfirst ⊢
      rw [List.dropWhile_cons_of_neg (by simp [hblank c]), if_neg (by simpa using hcomment),
        if_neg (by simpa using hmarker), hfirst]
      simp only [token_blank]
    rw [hread]
    split_ifs with hbad
    · exact .inl rfl
    · exact .inr ⟨fun hnone => hbad (.inr hnone), rfl⟩

/-- The ssh.config of a sample. -/
def sampleConfig : PyStr :=
  lit "Host " ++ sampleBox.vmHost ++
    lit "\n  Hostname 127.0.0.1\n  Port 60022\n  IdentityFile \"/home/a/key\"\n"

/-- A guest that prints a marker and a name of another host. -/
def sampleKeys : Completed where
  returncode := 0
  stdout := ascii (lit "ssh-ed25519 AAAA root@box\n\n@cert-authority * ssh-rsa BBBB\n")
  stderr := []

def sampleKnownHosts : PyStr :=
  lit "[127.0.0.1]:60022 ssh-ed25519 AAAA\n[127.0.0.1]:60022 @cert-authority *\n"

theorem knownHosts_pins_marker : ∃ hostBlock, hostPort hostBlock = lit "[127.0.0.1]:60022" ∧
    List.Forall₂ (Pinned readEntry hostBlock)
      [(lit "ssh-ed25519", lit "AAAA"), (lit "@cert-authority", lit "*")]
      (fileLines sampleKnownHosts) := by
  have hparse : parseSshHostBlock (readText sampleConfig) (sampleEnv (lit "/home/a")).box.vmHost =
      some ⟨lit "127.0.0.1", lit "60022", [lit "/home/a/key"], none⟩ := by decide +kernel
  have hfields : (splitlines (captured sampleKeys.stdout)).filterMap keyFields =
      [(lit "ssh-ed25519", lit "AAAA"), (lit "@cert-authority", lit "*")] := by decide +kernel
  have hwritten : ensureGuestKnownHosts (sampleEnv (lit "/home/a")) (some sampleConfig) sampleKeys =
      .ok (some sampleKnownHosts) := by decide +kernel
  have hclean : ∀ content ∈ some sampleConfig,
      ∀ hostBlock ∈ parseSshHostBlock (readText content) (sampleEnv (lit "/home/a")).box.vmHost,
        Clean hostBlock := by
    rintro content hcontent hostBlock hblock
    obtain rfl := Option.some.inj hcontent
    obtain rfl := Option.some.inj (hparse.symm.trans hblock)
    decide
  obtain ⟨content, hostBlock, hcontent, hblock, -, -, hpinned⟩ :=
    knownHosts_pins reads_readEntry hclean hwritten
  obtain rfl := Option.some.inj hcontent
  obtain rfl := Option.some.inj (hparse.symm.trans hblock)
  rw [hfields] at hpinned
  exact ⟨_, rfl, hpinned⟩

end SshConfig
