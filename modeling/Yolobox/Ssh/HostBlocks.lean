/-
# The Host blocks yo writes are read back

The driver's block below yo's header, and the alias block of the header: each line gives its
keyword and its value, every line of a block is indented, and no other line is the
block's first (`parse_libvirtSshConfig`, `parse_herdrAliasBlock`).
-/
import Yolobox.Ssh.Header

open Posix

namespace SshConfig

section fields

variable {key value text line host : PyStr} {seen : Seen} {lines before : List PyStr}
  {fields : List (PyStr × PyStr)}

/-! ## Lines of keywords and values -/

instance instDecidableKeyword : Decidable (Keyword key) :=
  decidable_of_iff (key ≠ [] ∧ ∀ c ∈ key, isSpace c = false)
    ⟨fun h => ⟨h.1, h.2⟩, fun h => ⟨h.ne_nil, h.noSpace⟩⟩

instance instDecidableOneLine : Decidable (OneLine text) :=
  inferInstanceAs (Decidable (∀ c ∈ text, isLineBreak c = false))

/-- The lines of a block below its first. -/
def fieldLines (fields : List (PyStr × PyStr)) : List PyStr :=
  fields.map fun (key, value) => indented key value

theorem fieldLines_append (fields more : List (PyStr × PyStr)) :
    fieldLines (fields ++ more) = fieldLines fields ++ fieldLines more := List.map_append

theorem lineWithout_of_mem_fieldLines {c : ℕ} (hc : isPrintable c = false)
    (hfields : ∀ field ∈ fields, field.1.all isPrintable = true ∧ c ∉ field.2)
    (h : line ∈ fieldLines fields) : LineWithout c line := by
  obtain ⟨⟨key, value⟩, hfield, rfl⟩ := List.mem_map.mp h
  obtain ⟨hkey, hvalue⟩ := hfields _ hfield
  have hnotMem : c ∉ key := fun hmem => by
    have hprintable := List.all_eq_true.mp hkey c hmem
    rw [hc] at hprintable
    cases hprintable
  exact (((LineWithout.of_lit hc (by decide) (by decide)).append hnotMem).append
    (notMem_lit hc (by decide))).append hvalue

theorem isIndented_of_mem_fieldLines (h : line ∈ fieldLines fields) : isIndented line = true := by
  obtain ⟨⟨key, value⟩, -, rfl⟩ := List.mem_map.mp h
  simp only [indented, List.append_assoc]
  rfl

theorem fieldOf_fst_of_strip (hkey : Keyword key) (hrest : text <+: 32 :: value)
    (h : strip line = key ++ text) : (fieldOf line).1 = key := by
  unfold fieldOf partition
  rw [h, show lit " " = [32] from rfl]
  rcases List.prefix_cons_iff.mp hrest with rfl | ⟨rest, rfl, -⟩
  · rw [List.append_nil, partition?_none hkey.notMem]
    rfl
  · rw [partition?_word hkey.notMem]
    rfl

/-- A line that begins with its keyword. -/
theorem fieldOf_word_fst (hkey : Keyword key) (value : PyStr) :
    (fieldOf (key ++ 32 :: value)).1 = key :=
  fieldOf_fst_of_strip hkey (List.rdropWhile_prefix _ _) (strip_append hkey.ne_nil hkey.noSpace _)

/-- The first line of a host's block says it is a host's. -/
theorem fieldOf_fst_of_host (h : strip line = lit "Host " ++ host) : (fieldOf line).1 = lit "Host" :=
  fieldOf_fst_of_strip (by decide) List.prefix_rfl (by rw [h]; rfl)

theorem strip_indented_ne_host (hkey : Keyword key) (hne : key ≠ lit "Host") (value : PyStr) :
    strip (indented key value) ≠ lit "Host " ++ host := by
  intro hstrip
  have hhost := fieldOf_fst_of_host hstrip
  rw [fieldOf_indented_fst hkey] at hhost
  exact hne hhost

theorem strip_ne_host_of_mem_fieldLines
    (hkeys : ∀ field ∈ fields, Keyword field.1 ∧ field.1 ≠ lit "Host") (h : line ∈ fieldLines fields) :
    strip line ≠ lit "Host " ++ host := by
  obtain ⟨⟨key, value⟩, hfield, rfl⟩ := List.mem_map.mp h
  exact strip_indented_ne_host (hkeys _ hfield).1 (hkeys _ hfield).2 value

/-! ## What a line adds to a block -/

/-- The keywords that yo reads. -/
def blockKeys : List PyStr := [lit "IdentityFile", lit "Hostname", lit "Port", lit "IdentityAgent"]

theorem Seen.line_ignored (hkey : Keyword key) (hnone : key ∉ blockKeys) (value : PyStr) :
    seen.line (indented key value) = seen := by
  rw [blockKeys, List.mem_cons, not_or] at hnone
  unfold Seen.line
  simp only
  rw [fieldOf_indented_fst hkey, if_neg hnone.1, if_neg hnone.2]

theorem foldl_ignored (h : ∀ field ∈ fields, Keyword field.1 ∧ field.1 ∉ blockKeys) :
    (fieldLines fields).foldl Seen.line seen = seen := by
  induction fields with
  | nil => rfl
  | cons field fields ih =>
    rw [List.forall_mem_cons] at h
    show (fieldLines fields).foldl Seen.line (seen.line (indented field.1 field.2)) = seen
    rw [Seen.line_ignored h.1.1 h.1.2, ih h.2]

theorem Seen.line_first (hkey : key ∈ [lit "Hostname", lit "Port", lit "IdentityAgent"])
    (h : fieldOf line = (key, value)) : seen.line line = seen.setdefault key value := by
  have hne : key ≠ lit "IdentityFile" := by
    rintro rfl
    exact absurd hkey (by decide)
  unfold Seen.line
  rw [h]
  simp only
  rw [if_neg hne, if_pos hkey]

theorem Seen.line_identityFile (hvalue : value ≠ []) (hquotes : stripQuotes value = value) :
    seen.line (indented (lit "IdentityFile") (quoted value)) =
      { seen with identityFiles := seen.identityFiles ++ [value] } := by
  unfold Seen.line
  rw [fieldOf_quoted (by decide) hquotes]
  show (if lit "IdentityFile" = lit "IdentityFile" then _ else _) = _
  rw [if_pos rfl, if_pos hvalue]

/-- Every identity file is kept, in order. -/
theorem foldl_identityFiles {files : List PyStr}
    (h : ∀ file ∈ files, file ≠ [] ∧ stripQuotes file = file) :
    (fieldLines (files.map fun file => (lit "IdentityFile", quoted file))).foldl Seen.line seen =
      { seen with identityFiles := seen.identityFiles ++ files } := by
  induction files generalizing seen with
  | nil =>
    rw [List.append_nil]
    rfl
  | cons file files ih =>
    rw [List.forall_mem_cons] at h
    show List.foldl Seen.line (seen.line (indented (lit "IdentityFile") (quoted file)))
      (fieldLines (files.map fun file => (lit "IdentityFile", quoted file))) = _
    rw [Seen.line_identityFile h.1.1 h.1.2, ih h.2, List.append_assoc, List.singleton_append]

/-- A value that is read as it is written, without quotes around it. -/
structure Bare (value : PyStr) : Prop where
  ne_nil : value ≠ []
  strip_eq : strip value = value
  stripQuotes_eq : stripQuotes value = value

theorem fieldOf_bare (hkey : Keyword key) (h : Bare value) :
    fieldOf (indented key value) = (key, value) := by
  rw [fieldOf_indented hkey h.ne_nil h.strip_eq, h.stripQuotes_eq]

/-- What the lines of the hostname and the port leave. -/
def seenOf (hostname port : PyStr) : Seen :=
  ⟨[(lit "Port", port), (lit "Hostname", hostname)], []⟩

theorem foldl_hostname_port {hostname port : PyStr} (hhostname : Bare hostname) (hport : Bare port) :
    (fieldLines [(lit "Hostname", hostname), (lit "Port", port)]).foldl Seen.line ⟨[], []⟩ =
      seenOf hostname port := by
  show (Seen.line (Seen.line ⟨[], []⟩ (indented (lit "Hostname") hostname))
    (indented (lit "Port") port)) = _
  rw [Seen.line_first (by decide) (fieldOf_bare (by decide) hhostname),
    Seen.line_first (by decide) (fieldOf_bare (by decide) hport)]
  rfl

theorem orNone_some (hvalue : value ≠ []) : orNone (some value) = some value := by
  obtain ⟨c, cs, rfl⟩ := List.exists_cons_of_ne_nil hvalue
  rfl

/-- What the lines of a block make of it. -/
theorem block_of_files {hostname port : PyStr} {files : List PyStr} (hhostname : hostname ≠ [])
    (hport : port ≠ []) (hfiles : files ≠ []) :
    ({ seenOf hostname port with identityFiles := files }).block =
      some ⟨hostname, port, files, none⟩ := by
  obtain ⟨file, files, rfl⟩ := List.exists_cons_of_ne_nil hfiles
  have hfirst : orNone ((seenOf hostname port).get (lit "Hostname")) = some hostname :=
    orNone_some hhostname
  have hsecond : orNone ((seenOf hostname port).get (lit "Port")) = some port := orNone_some hport
  have hget (key : PyStr) : ({ seenOf hostname port with identityFiles := file :: files } : Seen).get key =
      (seenOf hostname port).get key := rfl
  rw [Seen.block, hget, hget, hget, hfirst, hsecond]
  rfl

/-- The same with an identity agent. -/
theorem block_of_agent {hostname port agent : PyStr} {files : List PyStr} (hhostname : hostname ≠ [])
    (hport : port ≠ []) (hfiles : files ≠ []) (hagent : agent ≠ []) :
    ({ (seenOf hostname port).setdefault (lit "IdentityAgent") agent with
        identityFiles := files }).block = some ⟨hostname, port, files, some agent⟩ := by
  obtain ⟨file, files, rfl⟩ := List.exists_cons_of_ne_nil hfiles
  have hfirst : orNone (({ (seenOf hostname port).setdefault (lit "IdentityAgent") agent with
      identityFiles := file :: files } : Seen).get (lit "Hostname")) = some hostname := orNone_some hhostname
  have hsecond : orNone (({ (seenOf hostname port).setdefault (lit "IdentityAgent") agent with
      identityFiles := file :: files } : Seen).get (lit "Port")) = some port := orNone_some hport
  have hthird : orNone (({ (seenOf hostname port).setdefault (lit "IdentityAgent") agent with
      identityFiles := file :: files } : Seen).get (lit "IdentityAgent")) = some agent := orNone_some hagent
  rw [Seen.block, hfirst, hsecond, hthird]

/-! ## Where a block is -/

/-- **The block of a host**: its first line, then the indented lines. -/
theorem parse_of_lines (htext : splitlines text = before ++ line :: fieldLines fields)
    (hbefore : ∀ l ∈ before, strip l ≠ lit "Host " ++ host)
    (hline : strip line = lit "Host " ++ host) :
    parseSshHostBlock text host = ((fieldLines fields).foldl Seen.line ⟨[], []⟩).block := by
  have hdrop : (splitlines text).dropWhile (fun l => strip l != lit "Host " ++ host) =
      line :: fieldLines fields := by
    rw [htext, List.dropWhile_append_of_pos, List.dropWhile_cons_of_neg]
    · simp [hline]
    · intro l hl
      simpa using hbefore l hl
  unfold parseSshHostBlock
  rw [hdrop]
  simp only
  rw [List.takeWhile_eq_self_iff.mpr fun l hl => isIndented_of_mem_fieldLines hl]

theorem parse_none (h : ∀ l ∈ splitlines text, strip l ≠ lit "Host " ++ host) :
    parseSshHostBlock text host = none := by
  have hdrop : (splitlines text).dropWhile (fun l => strip l != lit "Host " ++ host) = [] := by
    rw [List.dropWhile_eq_nil_iff]
    intro l hl
    simpa using h l hl
  unfold parseSshHostBlock
  rw [hdrop]

/-- A host that is read as it is written. -/
theorem strip_host (hhost : host ≠ []) (hlast : host.rdropWhile isSpace = host) :
    strip (lit "Host " ++ host) = lit "Host " ++ host := by
  have hspace := List.rdropWhile_eq_self_iff.mp hlast hhost
  have hkept : (32 :: host).rdropWhile isSpace = 32 :: host := by
    rw [List.rdropWhile_eq_self_iff]
    intro hcons
    rwa [List.getLast_cons hhost]
  have hword : strip (lit "Host" ++ 32 :: host) = lit "Host" ++ (32 :: host).rdropWhile isSpace :=
    strip_append (by decide) (by decide) _
  rw [hkept] at hword
  exact hword

theorem unlines_eq_joinLines (h : lines ≠ []) : joinLines (lines ++ [[]]) = unlines lines := by
  induction lines with
  | nil => exact absurd rfl h
  | cons line lines ih =>
    cases lines with
    | nil => simp [joinLines_cons_cons]
    | cons next lines =>
      rw [List.cons_append, List.cons_append, joinLines_cons_cons, ← List.cons_append,
        ih (List.cons_ne_nil _ _), ← unlines_cons]

theorem oneLine_of_lineWithout (h : ∀ c, isLineBreak c = true → LineWithout c line) : OneLine line := by
  intro c hc
  rw [← Bool.not_eq_true]
  exact fun hbreak => (h c hbreak).notMem hc

theorem notMem_of_oneLine {c : ℕ} (h : OneLine text) (hc : isLineBreak c = true) : c ∉ text := fun hmem => by
  rw [h c hmem] at hc
  cases hc

end fields

/-! ## The driver's block -/

section driver

variable {host user identityAgent instanceDir : PyStr} {port : ℤ}

/-- What `libvirt_ssh_config` is asked to write. -/
structure Asked (host user identityAgent instanceDir : PyStr) : Prop where
  host_ne_nil : host ≠ []
  host_end : host.rdropWhile isSpace = host
  agent_ne_nil : identityAgent ≠ []
  noQuote : ∀ text ∈ [host, user, identityAgent, instanceDir], 34 ∉ text
  oneLine : ∀ text ∈ [host, user, identityAgent, instanceDir], OneLine text

/-- The fields that yo reads back, but for the user's. -/
def libvirtFields (port : ℤ) (user identityAgent instanceDir : PyStr) : List (PyStr × PyStr) :=
  [(lit "Hostname", LOOPBACK),
    (lit "Port", intText port),
    (lit "User", user),
    (lit "IdentityAgent", quoted identityAgent),
    (lit "IdentityFile", quoted (join instanceDir (lit "operator.pub")))]

/-- The fields that only ssh reads. -/
def libvirtOptions (instanceDir : PyStr) : List (PyStr × PyStr) :=
  [(lit "IdentitiesOnly", lit "yes"),
    (lit "BatchMode", lit "yes"),
    (lit "PreferredAuthentications", lit "publickey"),
    (lit "PasswordAuthentication", lit "no"),
    (lit "KbdInteractiveAuthentication", lit "no"),
    (lit "GSSAPIAuthentication", lit "no"),
    (lit "AddKeysToAgent", lit "no"),
    (lit "ForwardAgent", lit "no"),
    (lit "Compression", lit "no"),
    (lit "ControlMaster", lit "auto"),
    (lit "ControlPath", quoted (join instanceDir (lit "ssh.sock"))),
    (lit "ControlPersist", lit "yes"),
    (lit "StrictHostKeyChecking", lit "no"),
    (lit "UserKnownHostsFile", lit "/dev/null"),
    (lit "NoHostAuthenticationForLocalhost", lit "yes")]

theorem libvirtSshConfig_eq :
    libvirtSshConfig host port user identityAgent instanceDir =
      unlines ((lit "Host " ++ host) :: fieldLines
        (libvirtFields port user identityAgent instanceDir ++ libvirtOptions instanceDir)) := by
  have hlines : libvirtLines host port user identityAgent instanceDir =
      (lit "Host " ++ host) :: fieldLines
        (libvirtFields port user identityAgent instanceDir ++ libvirtOptions instanceDir) ++ [[]] := by
    simp [libvirtLines, fieldLines, libvirtFields, libvirtOptions, indented, lit]
  rw [libvirtSshConfig, hlines, unlines_eq_joinLines (List.cons_ne_nil _ _)]

theorem keys_libvirtFields :
    ∀ field ∈ libvirtFields port user identityAgent instanceDir ++ libvirtOptions instanceDir,
      Keyword field.1 ∧ field.1 ≠ lit "Host" ∧ field.1.all isPrintable = true := by
  have hkeys : ∀ key ∈ (libvirtFields 0 [] [] [] ++ libvirtOptions []).map Prod.fst,
      Keyword key ∧ key ≠ lit "Host" ∧ key.all isPrintable = true := by decide
  intro field hfield
  have hmem : field.1 ∈ (libvirtFields port user identityAgent instanceDir ++
      libvirtOptions instanceDir).map Prod.fst := List.mem_map_of_mem hfield
  exact hkeys _ hmem

theorem notMem_intText {c : ℕ} (hc : isPrintable c = false) (n : ℤ) : c ∉ intText n := by
  have hminus : c ≠ 45 := by
    rintro rfl
    cases hc
  unfold intText
  split_ifs
  · simp [hminus, notMem_dec hc]
  · exact notMem_dec hc _

theorem notMem_libvirtFields {c : ℕ} (hc : isPrintable c = false)
    (htexts : ∀ text ∈ [host, user, identityAgent, instanceDir], c ∉ text) :
    ∀ field ∈ libvirtFields port user identityAgent instanceDir ++ libvirtOptions instanceDir,
      c ∉ field.2 := by
  simp only [List.forall_mem_cons] at htexts
  obtain ⟨-, huser, hagent, hdir, -⟩ := htexts
  have hfile {s : String} (h : (lit s).all isPrintable = true) :
      c ∉ quoted (join instanceDir (lit s)) :=
    notMem_quoted hc (notMem_join hc hdir (notMem_lit hc h))
  rw [List.forall_mem_append]
  refine ⟨?_, ?_⟩
  · simp only [libvirtFields, List.forall_mem_cons]
    exact ⟨notMem_lit hc (by decide), notMem_intText hc port, huser, notMem_quoted hc hagent,
      hfile (by decide), nofun⟩
  · simp only [libvirtOptions, List.forall_mem_cons]
    refine ⟨?_, ?_, ?_, ?_, ?_, ?_, ?_, ?_, ?_, ?_, ?_, ?_, ?_, ?_, ?_, nofun⟩
    on_goal 11 => exact hfile (by decide)
    all_goals exact notMem_lit hc (by decide)

/-- The lines of the driver's block. -/
theorem lineWithout_libvirt {c : ℕ} (hc : isPrintable c = false)
    (htexts : ∀ text ∈ [host, user, identityAgent, instanceDir], c ∉ text) :
    ∀ line ∈ (lit "Host " ++ host) :: fieldLines
      (libvirtFields port user identityAgent instanceDir ++ libvirtOptions instanceDir),
      LineWithout c line := by
  rw [List.forall_mem_cons]
  refine ⟨(LineWithout.of_lit hc (by decide) (by decide)).append (htexts host List.mem_cons_self),
    fun line hline => lineWithout_of_mem_fieldLines hc (fun field hfield => ?_) hline⟩
  exact ⟨(keys_libvirtFields field hfield).2.2, notMem_libvirtFields hc htexts field hfield⟩

theorem bare_intText (n : ℤ) : Bare (intText n) := by
  have hdec (n : ℕ) : ∀ c ∈ dec n, isSpace c = false ∧ c ≠ 34 := by
    intro c hc
    have hdigit := isDigit_of_mem_dec hc
    simp only [isDigit, Bool.and_eq_true, decide_eq_true_eq] at hdigit
    refine ⟨?_, by omega⟩
    simp only [isSpace, Bool.or_eq_false_iff, Bool.and_eq_false_iff, decide_eq_false_iff_not,
      List.mem_cons, List.not_mem_nil, or_false]
    omega
  have hint : intText n ≠ [] ∧ ∀ c ∈ intText n, isSpace c = false ∧ c ≠ 34 := by
    unfold intText
    split_ifs
    · rw [List.forall_mem_cons]
      exact ⟨List.cons_ne_nil _ _, ⟨by rfl, by decide⟩, hdec _⟩
    · exact ⟨dec_ne_nil _, hdec _⟩
  exact ⟨hint.1, trim_of_forall fun c hc => (hint.2 c hc).1,
    stripQuotes_of_notMem fun hmem => (hint.2 34 hmem).2 rfl⟩

theorem join_ne_nil {a b : PyStr} (hb : b ≠ []) : join a b ≠ [] := by
  unfold join
  split_ifs
  · exact hb
  · exact List.append_ne_nil_of_right_ne_nil _ hb
  · exact List.append_ne_nil_of_right_ne_nil _ (List.cons_ne_nil _ _)

/-- What yo reads of the driver's block. -/
def operatorBlock (port : ℤ) (identityAgent instanceDir : PyStr) : SshHostBlock :=
  ⟨LOOPBACK, intText port, [join instanceDir (lit "operator.pub")], some identityAgent⟩

theorem foldl_libvirt (h : Asked host user identityAgent instanceDir) :
    ((fieldLines (libvirtFields port user identityAgent instanceDir ++ libvirtOptions instanceDir)).foldl
      Seen.line ⟨[], []⟩).block = some (operatorBlock port identityAgent instanceDir) := by
  have hnoQuote := h.noQuote
  simp only [List.forall_mem_cons] at hnoQuote
  obtain ⟨-, -, hagentQuote, hdirQuote, -⟩ := hnoQuote
  have hfile : stripQuotes (join instanceDir (lit "operator.pub")) =
      join instanceDir (lit "operator.pub") := by
    refine stripQuotes_of_notMem fun hmem => ?_
    rcases mem_join hmem with habsurd | hmem | hmem
    · cases habsurd
    · exact hdirQuote hmem
    · exact absurd hmem (by decide)
  have hfileNe : join instanceDir (lit "operator.pub") ≠ [] := join_ne_nil (by decide)
  have hagent : fieldOf (indented (lit "IdentityAgent") (quoted identityAgent)) =
      (lit "IdentityAgent", identityAgent) :=
    fieldOf_quoted (by decide) (stripQuotes_of_notMem hagentQuote)
  have hoptions : ∀ field ∈ libvirtOptions instanceDir, Keyword field.1 ∧ field.1 ∉ blockKeys := by
    have hkeys : ∀ key ∈ (libvirtOptions []).map Prod.fst, Keyword key ∧ key ∉ blockKeys := by decide
    intro field hfield
    have hmem : field.1 ∈ (libvirtOptions instanceDir).map Prod.fst := List.mem_map_of_mem hfield
    exact hkeys _ hmem
  rw [fieldLines_append, List.foldl_append]
  show (((fieldLines (libvirtOptions instanceDir)).foldl Seen.line
    (Seen.line (Seen.line (Seen.line
      ((fieldLines [(lit "Hostname", LOOPBACK), (lit "Port", intText port)]).foldl Seen.line ⟨[], []⟩)
      (indented (lit "User") user))
      (indented (lit "IdentityAgent") (quoted identityAgent)))
      (indented (lit "IdentityFile") (quoted (join instanceDir (lit "operator.pub")))))).block) = _
  rw [foldl_hostname_port ⟨by decide, by decide, by decide⟩ (bare_intText port),
    Seen.line_ignored (show Keyword (lit "User") by decide) (by decide),
    Seen.line_first (by decide) hagent,
    Seen.line_identityFile hfileNe hfile, foldl_ignored hoptions]
  exact block_of_agent (by decide) (bare_intText port).ne_nil (List.cons_ne_nil _ _) h.agent_ne_nil

theorem Asked.oneLine_lines (h : Asked host user identityAgent instanceDir) :
    ∀ line ∈ (lit "Host " ++ host) :: fieldLines
      (libvirtFields port user identityAgent instanceDir ++ libvirtOptions instanceDir),
      OneLine line := fun line hline =>
  oneLine_of_lineWithout fun _ hc => lineWithout_libvirt (not_isPrintable hc)
    (fun text htext => notMem_of_oneLine (h.oneLine text htext) hc) line hline

theorem Asked.splitlines_text (h : Asked host user identityAgent instanceDir) :
    splitlines (libvirtSshConfig host port user identityAgent instanceDir) =
      (lit "Host " ++ host) :: fieldLines
        (libvirtFields port user identityAgent instanceDir ++ libvirtOptions instanceDir) := by
  have hlines := splitlines_unlines (h.oneLine_lines : ∀ line ∈ (lit "Host " ++ host) :: fieldLines
    (libvirtFields port user identityAgent instanceDir ++ libvirtOptions instanceDir), _) []
  rwa [List.append_nil, ← libvirtSshConfig_eq, splitlines, List.append_nil] at hlines

theorem Asked.strip_host (h : Asked host user identityAgent instanceDir) :
    strip (lit "Host " ++ host) = lit "Host " ++ host :=
  SshConfig.strip_host h.host_ne_nil h.host_end

/-- **The driver's block is read back.** -/
theorem parse_libvirtSshConfig (h : Asked host user identityAgent instanceDir) :
    parseSshHostBlock (libvirtSshConfig host port user identityAgent instanceDir) host =
      some (operatorBlock port identityAgent instanceDir) := by
  have hlines : splitlines (libvirtSshConfig host port user identityAgent instanceDir) =
      [] ++ (lit "Host " ++ host) :: fieldLines
        (libvirtFields port user identityAgent instanceDir ++ libvirtOptions instanceDir) :=
    h.splitlines_text
  rw [parse_of_lines hlines nofun h.strip_host, foldl_libvirt h]

/-- No other host has a block there. -/
theorem parse_libvirt_none (h : Asked host user identityAgent instanceDir) {other : PyStr}
    (hne : other ≠ host) :
    parseSshHostBlock (libvirtSshConfig host port user identityAgent instanceDir) other = none := by
  refine parse_none ?_
  rw [h.splitlines_text, List.forall_mem_cons, h.strip_host]
  refine ⟨fun heq => hne (List.append_cancel_left heq).symm, fun line hline => ?_⟩
  refine strip_ne_host_of_mem_fieldLines (fun field hfield => ?_) hline
  obtain ⟨hkey, hhost, -⟩ := keys_libvirtFields field hfield
  exact ⟨hkey, hhost⟩

end driver

/-! ## Below the header -/

section below

variable {e : Env} {host text : PyStr} {hostBlock : Option SshHostBlock} {block : SshHostBlock}

def aliasFields (e : Env) (block : SshHostBlock) : List (PyStr × PyStr) :=
  [(lit "User", AGENT_USER), (lit "ControlPath", lit "none"), (lit "ForwardAgent", lit "no")]
    ++ [(lit "Hostname", block.hostname), (lit "Port", block.port)]
    ++ (block.identityFiles.map fun file => (lit "IdentityFile", quoted file))
    ++ [(lit "UserKnownHostsFile", quoted e.knownHostsPath), (lit "IdentitiesOnly", lit "yes")]
    ++ block.identityAgent.toList.map fun agent => (lit "IdentityAgent", quoted agent)

theorem herdrAliasLines_eq (e : Env) (block : SshHostBlock) :
    herdrAliasLines e block = (lit "Host " ++ e.box.herdrAlias) :: fieldLines (aliasFields e block) := by
  simp [herdrAliasLines, fieldLines, aliasFields, indented, lit, Function.comp_def]

theorem keys_aliasFields : ∀ field ∈ aliasFields e block, Keyword field.1 ∧ field.1 ≠ lit "Host" := by
  unfold aliasFields
  simp only [List.forall_mem_append, List.forall_mem_cons, List.forall_mem_map]
  refine ⟨⟨⟨⟨⟨?_, ?_, ?_, nofun⟩, ?_, ?_, nofun⟩, fun _ _ => ?_⟩, ?_, ?_, nofun⟩, fun _ _ => ?_⟩ <;>
    decide

theorem strip_alias (e : Env) : strip (lit "Host " ++ e.box.herdrAlias) = lit "Host " ++ e.box.herdrAlias := by
  refine strip_host e.box.name_ne_nil (List.rdropWhile_eq_self_iff.mpr fun hne => ?_)
  have hname := e.box.isNameChar_name _ (List.getLast_mem hne)
  rw [Bool.not_eq_true]
  simp only [isNameChar, isDigit, isSpace, Bool.or_eq_true, Bool.and_eq_true, decide_eq_true_eq,
    Bool.or_eq_false_iff, Bool.and_eq_false_iff, decide_eq_false_iff_not, List.mem_cons,
    List.not_mem_nil, or_false] at hname ⊢
  omega

/-- A line of the header that says it is a host's is the alias block's first. -/
theorem strip_headerLines (hhost : hostBlock.isSome → host ≠ e.box.herdrAlias) :
    ∀ line ∈ headerLines e hostBlock, strip line ≠ lit "Host " ++ host := by
  have hmatch (value : PyStr) : strip (lit "Match host " ++ value) ≠ lit "Host " ++ host := by
    intro hstrip
    have hfst : (fieldOf (lit "Match" ++ 32 :: (lit "host " ++ value))).1 = lit "Match" :=
      fieldOf_word_fst (by decide) _
    have hhost : (fieldOf (lit "Match host " ++ value)).1 = lit "Host" := fieldOf_fst_of_host hstrip
    exact absurd (hfst.symm.trans hhost) (by decide)
  have hcontrol (value : PyStr) : strip (lit "  ControlPath " ++ value) ≠ lit "Host " ++ host := by
    have hkey : Keyword (lit "ControlPath") := by decide
    rw [show lit "  ControlPath " = lit "  " ++ lit "ControlPath" ++ lit " " by decide]
    exact strip_indented_ne_host hkey (by decide) value
  have hknown (value : PyStr) :
      strip (lit "  UserKnownHostsFile " ++ value) ≠ lit "Host " ++ host := by
    have hkey : Keyword (lit "UserKnownHostsFile") := by decide
    rw [show lit "  UserKnownHostsFile " = lit "  " ++ lit "UserKnownHostsFile" ++ lit " " by decide]
    exact strip_indented_ne_host hkey (by decide) value
  have hlit {text : PyStr} (h : (fieldOf text).1 ≠ lit "Host") : strip text ≠ lit "Host " ++ host :=
    fun hstrip => h (fieldOf_fst_of_host hstrip)
  have halias : ∀ line ∈ (hostBlock.toList.map (herdrAliasLines e)).flatten,
      strip line ≠ lit "Host " ++ host := by
    intro line hline
    obtain ⟨_, hlines, hline⟩ := List.mem_flatten.mp hline
    obtain ⟨block, hblock, rfl⟩ := List.mem_map.mp hlines
    rw [herdrAliasLines_eq, List.mem_cons] at hline
    rcases hline with rfl | hline
    · rw [strip_alias]
      intro heq
      refine hhost ?_ (List.append_cancel_left heq).symm
      rw [Option.mem_toList.mp hblock]
      rfl
    · exact strip_ne_host_of_mem_fieldLines keys_aliasFields hline
  unfold headerLines headerBlocks
  simp only [List.flatten_append, List.forall_mem_append, List.flatten_cons, List.flatten_nil,
    List.forall_mem_cons, List.append_nil, List.append_assoc]
  refine ⟨⟨?_, nofun⟩, ⟨hmatch _, hcontrol _, ?_, nofun⟩, ⟨hmatch _, hknown _, ?_, ?_, nofun⟩,
    ⟨hmatch _, ?_, ?_, ?_, nofun⟩, halias⟩ <;> exact hlit (by decide)

/-- **The driver's block is read below yo's header**, whoever's name the header spells. -/
theorem parse_below_header (hhome : OneLine e.home) {user identityAgent instanceDir : PyStr} {port : ℤ}
    (h : Asked host user identityAgent instanceDir)
    (htext : text = libvirtSshConfig host port user identityAgent instanceDir) :
    parseSshHostBlock (headerOf e text ++ [10, 10] ++ text) host =
      some (operatorBlock port identityAgent instanceDir) := by
  have hheader : ∀ line ∈ headerLines e (parseSshHostBlock text e.box.vmHost), OneLine line :=
    fun line hline => oneLine_of_lineWithout fun _ hc =>
      forall_headerLines_parse hc (notMem_of_oneLine hhome hc) text line hline
  have hlines : splitlines (headerOf e text ++ [10, 10] ++ text) =
      (headerLines e (parseSshHostBlock text e.box.vmHost) ++ [[]]) ++ (lit "Host " ++ host) ::
        fieldLines (libvirtFields port user identityAgent instanceDir ++ libvirtOptions instanceDir) := by
    rw [headerOf_eq, splitlines_joinLines hheader (headerLines_ne_nil e _), List.append_assoc, htext,
      h.splitlines_text]
    rfl
  have hother : (parseSshHostBlock text e.box.vmHost).isSome → host ≠ e.box.herdrAlias := by
    rintro hsome rfl
    have hne : e.box.vmHost ≠ e.box.herdrAlias := fun heq => by
      have hlength := congrArg List.length heq
      simp only [Box.vmHost, Box.herdrAlias, List.length_append] at hlength
      have hpos : 0 < (lit "lima-").length := by decide
      omega
    rw [htext, parse_libvirt_none h hne] at hsome
    cases hsome
  rw [parse_of_lines hlines ?_ h.strip_host, foldl_libvirt h]
  rw [List.forall_mem_append]
  refine ⟨strip_headerLines hother, ?_⟩
  rw [List.forall_mem_singleton]
  exact (List.append_ne_nil_of_left_ne_nil (by decide) host).symm

/-! ## The alias -/

theorem identityFiles_ne_nil_of_parse (h : parseSshHostBlock text host = some block) :
    block.identityFiles ≠ [] := by
  unfold parseSshHostBlock at h
  split at h
  · cases h
  · unfold Seen.block at h
    split at h
    · obtain rfl := Option.some.inj h
      exact List.cons_ne_nil _ _
    · cases h

theorem splitlines_lines {lines : List PyStr}
    (hlines : ∀ line ∈ lines, line ≠ [] ∧ OneLine line) : splitlines (joinLines lines) = lines := by
  induction lines with
  | nil => rfl
  | cons line lines ih =>
    rw [List.forall_mem_cons] at hlines
    cases lines with
    | nil => rw [joinLines_singleton, splitlines_oneLine hlines.1.2, if_neg hlines.1.1]
    | cons next lines => rw [joinLines_cons_cons, splitlines_append hlines.1.2, ih hlines.2]

/-- The values that the lines of a block are written with. -/
structure Readable (block : SshHostBlock) : Prop where
  hostname : Bare block.hostname
  port : Bare block.port
  files : block.identityFiles ≠ []
  value : ∀ value ∈ block.identityFiles ++ block.identityAgent.toList,
    value ≠ [] ∧ stripQuotes value = value

theorem readable_of_parse (h : parseSshHostBlock text host = some block)
    (hhostname : strip block.hostname = block.hostname) (hport : strip block.port = block.port) :
    Readable block := by
  have hvalue (value : PyStr) (hmem : value ∈ block.values) : value ≠ [] ∧ stripQuotes value = value :=
    ⟨(exists_line_of_parse h hmem).1, stripQuotes_of_parse h hmem⟩
  have hfirst := hvalue block.hostname List.mem_cons_self
  have hsecond := hvalue block.port (List.mem_cons_of_mem _ List.mem_cons_self)
  exact ⟨⟨hfirst.1, hhostname, hfirst.2⟩, ⟨hsecond.1, hport, hsecond.2⟩,
    identityFiles_ne_nil_of_parse h,
    fun value hmem => hvalue value (List.mem_cons_of_mem _ (List.mem_cons_of_mem _ hmem))⟩

theorem foldl_aliasFields (h : Readable block) :
    ((fieldLines (aliasFields e block)).foldl Seen.line ⟨[], []⟩).block = some block := by
  have hfirst : ∀ field ∈ [(lit "User", AGENT_USER), (lit "ControlPath", lit "none"),
      (lit "ForwardAgent", lit "no")], Keyword field.1 ∧ field.1 ∉ blockKeys := by decide
  have hlast : ∀ field ∈ [(lit "UserKnownHostsFile", quoted e.knownHostsPath),
      (lit "IdentitiesOnly", lit "yes")], Keyword field.1 ∧ field.1 ∉ blockKeys := by
    simp only [List.forall_mem_cons]
    exact ⟨by decide, by decide, nofun⟩
  have hfiles : ∀ file ∈ block.identityFiles, file ≠ [] ∧ stripQuotes file = file :=
    fun file hfile => h.value file (List.mem_append_left _ hfile)
  unfold aliasFields
  simp only [fieldLines_append, List.foldl_append]
  rw [foldl_ignored hfirst, foldl_hostname_port h.hostname h.port, foldl_identityFiles hfiles,
    foldl_ignored hlast]
  obtain ⟨hostname, port, files, agent⟩ := block
  cases agent with
  | none => exact block_of_files h.hostname.ne_nil h.port.ne_nil h.files
  | some agent =>
    obtain ⟨hne, hquotes⟩ := h.value agent (List.mem_append_right _ List.mem_cons_self)
    have hagent : fieldOf (indented (lit "IdentityAgent") (quoted agent)) =
        (lit "IdentityAgent", agent) := fieldOf_quoted (by decide) hquotes
    show (Seen.line _ (indented (lit "IdentityAgent") (quoted agent))).block = _
    rw [Seen.line_first (by decide) hagent]
    exact block_of_agent h.hostname.ne_nil h.port.ne_nil h.files hne

/-- **A block that was read is read again under the alias.** -/
theorem parse_herdrAliasBlock (hhome : OneLine e.home)
    (h : parseSshHostBlock text host = some block) (hhostname : strip block.hostname = block.hostname)
    (hport : strip block.port = block.port) :
    parseSshHostBlock (herdrAliasBlock e block) e.box.herdrAlias = some block := by
  have hwithout (c : ℕ) (hc : isLineBreak c = true) :
      ∀ line ∈ herdrAliasLines e block, LineWithout c line :=
    forall_herdrAliasLines (not_isPrintable hc) (notMem_of_oneLine hhome hc) (notMem_parse hc block h)
  have hlines : splitlines (herdrAliasBlock e block) =
      [] ++ (lit "Host " ++ e.box.herdrAlias) :: fieldLines (aliasFields e block) := by
    rw [herdrAliasBlock, List.nil_append, ← herdrAliasLines_eq]
    exact splitlines_lines fun line hline => ⟨(hwithout 10 (by rfl) line hline).ne_nil,
      oneLine_of_lineWithout fun c hc => hwithout c hc line hline⟩
  rw [parse_of_lines hlines (List.forall_mem_nil _) (strip_alias e),
    foldl_aliasFields (readable_of_parse h hhostname hport)]

/-! ## Both writers -/

theorem oneLine_home (hdir : OneLine e.instanceDir) : OneLine e.home := fun c hc =>
  hdir c (mem_home_instanceDir hc)

/-- What a run puts the header above. -/
theorem eq_of_ensured {user identityAgent instanceDir content : PyStr} {port : ℤ}
    (h : Asked host user identityAgent instanceDir)
    (htext : text = libvirtSshConfig host port user identityAgent instanceDir)
    (hwrites : ensureAgentSshConfig e (some text) = .ok (some content)) :
    content = headerOf e text ++ [10, 10] ++ text := by
  have hfits : e.controlPathFits = true := by
    by_contra hlong
    rw [ensureAgentSshConfig, if_neg hlong] at hwrites
    cases hwrites
  have hreturn : 13 ∉ text := by
    rw [htext, libvirtSshConfig_eq, unlines, List.mem_flatMap]
    rintro ⟨line, hline, hmem⟩
    rcases List.mem_append.mp hmem with hmem | habsurd
    · exact notMem_of_oneLine (h.oneLine_lines line hline) (by rfl) hmem
    · exact absurd habsurd (by decide)
  have hunmarked : startswith text AGENT_SSH_CONFIG_MARKER = false := by
    rw [htext, libvirtSshConfig_eq, unlines_cons]
    rfl
  have hcontent := eq_of_writes hfits hwrites
  rwa [readText_of_notMem hreturn, limaPartOf_of_not_startswith hunmarked] at hcontent

/-- **Both writers' Host blocks are read as they were meant**: the driver's, alone or below the
header that a run puts above it, and the alias block of a block that was read. -/
theorem hostBlocks_read (hdir : OneLine e.instanceDir) :
    (∀ host user identityAgent instanceDir port, Asked host user identityAgent instanceDir →
      ∀ content, (content = libvirtSshConfig host port user identityAgent instanceDir ∨
        ensureAgentSshConfig e (some (libvirtSshConfig host port user identityAgent instanceDir)) =
          .ok (some content)) →
        parseSshHostBlock content host = some ⟨LOOPBACK, intText port,
          [join instanceDir (lit "operator.pub")], some identityAgent⟩)
    ∧ ∀ text host block, parseSshHostBlock text host = some block →
      strip block.hostname = block.hostname → strip block.port = block.port →
      parseSshHostBlock (herdrAliasBlock e block) e.box.herdrAlias = some block := by
  refine ⟨fun host user identityAgent instanceDir port h content hcontent => ?_,
    fun text host block => parse_herdrAliasBlock (oneLine_home hdir)⟩
  rcases hcontent with rfl | hwrites
  · exact parse_libvirtSshConfig h
  · rw [eq_of_ensured h rfl hwrites]
    exact parse_below_header (oneLine_home hdir) h rfl

end below

def sampleBlock : SshHostBlock :=
  ⟨LOOPBACK, intText 60022, [join (sampleEnv (lit "/home/a")).instanceDir (lit "operator.pub")],
    some (sampleEnv (lit "/home/a")).opSock⟩

/-- The driver's block below the header that a run puts above it, and the alias block of it. -/
theorem hostBlocks_read_sample :
    ∃ content, ensureAgentSshConfig (sampleEnv (lit "/home/a")) (some sampleText) = .ok (some content) ∧
      parseSshHostBlock content sampleBox.vmHost = some sampleBlock ∧
      parseSshHostBlock (herdrAliasBlock (sampleEnv (lit "/home/a")) sampleBlock) sampleBox.herdrAlias =
        some sampleBlock := by
  have hread := hostBlocks_read (show OneLine (sampleEnv (lit "/home/a")).instanceDir by decide)
  have hwrites : ensureAgentSshConfig (sampleEnv (lit "/home/a")) (some sampleText) =
      .ok (some (headerOf (sampleEnv (lit "/home/a")) sampleText ++ [10, 10] ++ sampleText)) := by
    decide +kernel
  have hblock := hread.1 sampleBox.vmHost (lit "operator") (sampleEnv (lit "/home/a")).opSock
    (sampleEnv (lit "/home/a")).instanceDir 60022 ⟨by decide, by decide, by decide, by decide, by decide⟩
    _ (.inr hwrites)
  exact ⟨_, hwrites, hblock, hread.2 _ sampleBox.vmHost sampleBlock hblock (by decide) (by decide)⟩

/-- A host that ends in a blank has no block, nor has one without a name; and an identity
agent without a name is none. -/
theorem hostBlocks_missed :
    parseSshHostBlock (libvirtSshConfig (lit "a ") 22 (lit "u") (lit "/s") (lit "/d")) (lit "a ") = none
    ∧ parseSshHostBlock (libvirtSshConfig [] 22 (lit "u") (lit "/s") (lit "/d")) [] = none
    ∧ parseSshHostBlock (libvirtSshConfig (lit "a") 22 (lit "u") [] (lit "/d")) (lit "a") =
      some ⟨LOOPBACK, lit "22", [lit "/d/operator.pub"], none⟩ := by
  decide

end SshConfig
