/-
# The header above the driver's part

yo and the driver share one file: yo's blocks, a blank line, and what the driver wrote.
None of yo's lines is empty, so the first blank line is where the header ends
(`partition?_headerOf`).
-/
import Yolobox.Ssh.Parse

open Posix

namespace SshConfig

/-! ## Lines joined by newlines -/

section lines

variable {c : ℕ} {line text : PyStr} {lines : List PyStr}

@[simp] theorem joinLines_singleton (line : PyStr) : joinLines [line] = line := by
  simp [joinLines]

@[simp] theorem joinLines_cons_cons (line next : PyStr) (lines : List PyStr) :
    joinLines (line :: next :: lines) = line ++ 10 :: joinLines (next :: lines) := by
  simp [joinLines, List.intercalate_cons_cons]

theorem joinLines_append {ls : List PyStr} (hlines : lines ≠ []) (hls : ls ≠ []) :
    joinLines (lines ++ ls) = joinLines lines ++ 10 :: joinLines ls := by
  induction lines with
  | nil => exact absurd rfl hlines
  | cons line lines ih =>
    cases lines with
    | nil =>
      obtain ⟨l, ls, rfl⟩ := List.exists_cons_of_ne_nil hls
      rw [List.singleton_append, joinLines_cons_cons, joinLines_singleton]
    | cons next lines =>
      rw [List.cons_append, List.cons_append, joinLines_cons_cons, ← List.cons_append,
        ih (List.cons_ne_nil _ _), joinLines_cons_cons, List.append_assoc, List.cons_append]

theorem mem_joinLines (h : c ∈ joinLines lines) : c = 10 ∨ ∃ line ∈ lines, c ∈ line := by
  induction lines with
  | nil => exact absurd h List.not_mem_nil
  | cons line lines ih =>
    cases lines with
    | nil => exact .inr ⟨line, List.mem_cons_self, by rwa [joinLines_singleton] at h⟩
    | cons next lines =>
      rw [joinLines_cons_cons, List.mem_append, List.mem_cons] at h
      rcases h with hline | rfl | hrest
      · exact .inr ⟨line, List.mem_cons_self, hline⟩
      · exact .inl rfl
      · rcases ih hrest with hnewline | ⟨l, hl, hc⟩
        · exact .inl hnewline
        · exact .inr ⟨l, List.mem_cons_of_mem _ hl, hc⟩

theorem mem_joinLines_of_mem (hline : line ∈ lines) (hc : c ∈ line) : c ∈ joinLines lines := by
  induction lines with
  | nil => exact absurd hline List.not_mem_nil
  | cons first lines ih =>
    cases lines with
    | nil =>
      rw [joinLines_singleton, ← List.mem_singleton.mp hline]
      exact hc
    | cons next lines =>
      rw [joinLines_cons_cons, List.mem_append]
      rcases List.mem_cons.mp hline with rfl | hline
      · exact .inl hc
      · exact .inr (List.mem_cons_of_mem _ (ih hline))

/-- A text with a blank line behind it, read line by line. -/
theorem splitlines_joinLines (hlines : ∀ line ∈ lines, OneLine line) (hne : lines ≠ [])
    (text : PyStr) :
    splitlines (joinLines lines ++ [10, 10] ++ text) = lines ++ [] :: splitlines text := by
  induction lines with
  | nil => exact absurd rfl hne
  | cons line lines ih =>
    rw [List.forall_mem_cons] at hlines
    cases lines with
    | nil =>
      rw [joinLines_singleton, List.append_assoc]
      show splitlines (line ++ 10 :: 10 :: text) = _
      rw [splitlines_append hlines.1]
      rfl
    | cons next lines =>
      rw [joinLines_cons_cons, List.append_assoc, List.append_assoc, List.cons_append,
        splitlines_append hlines.1, ← List.append_assoc, ih hlines.2 (List.cons_ne_nil _ _)]
      rfl

/-! ## The first blank line -/

theorem partition?_cons_of_ne (hc : c ≠ 10) (text : PyStr) :
    partition? [10, 10] (c :: text) =
      (partition? [10, 10] text).map fun (before, after) => (c :: before, after) := by
  rw [partition?, if_neg]
  simp [List.isPrefixOf, hc.symm]

theorem partition?_newline (hc : c ≠ 10) (text : PyStr) :
    partition? [10, 10] (10 :: c :: text) =
      (partition? [10, 10] (c :: text)).map fun (before, after) => (10 :: before, after) := by
  rw [partition?, if_neg]
  simp [List.isPrefixOf, hc.symm]

theorem partition?_line (hline : 10 ∉ line) (text : PyStr) :
    partition? [10, 10] (line ++ text) =
      (partition? [10, 10] text).map fun (before, after) => (line ++ before, after) := by
  induction line with
  | nil =>
    rw [List.nil_append]
    exact Option.map_id'.symm
  | cons c line ih =>
    rw [List.mem_cons, not_or] at hline
    rw [List.cons_append, partition?_cons_of_ne (Ne.symm hline.1), ih hline.2, Option.map_map]
    rfl

/-- **Lines that are not empty end at the first blank line.** -/
theorem partition?_joinLines (hne : lines ≠ []) (hlines : ∀ line ∈ lines, line ≠ [] ∧ 10 ∉ line)
    (text : PyStr) :
    partition? [10, 10] (joinLines lines ++ [10, 10] ++ text) = some (joinLines lines, text) := by
  induction lines with
  | nil => exact absurd rfl hne
  | cons line lines ih =>
    rw [List.forall_mem_cons] at hlines
    cases lines with
    | nil =>
      rw [joinLines_singleton, List.append_assoc, partition?_line hlines.1.2]
      show some (line ++ [], text) = _
      rw [List.append_nil]
    | cons next lines =>
      have hnext : ∃ c rest, c ≠ 10 ∧ joinLines (next :: lines) = c :: rest := by
        obtain ⟨hempty, hnotMem⟩ := hlines.2 next List.mem_cons_self
        obtain ⟨c, cs, rfl⟩ := List.exists_cons_of_ne_nil hempty
        rw [List.mem_cons, not_or] at hnotMem
        refine ⟨c, cs ++ (joinLines ((c :: cs) :: lines)).drop (c :: cs).length,
          Ne.symm hnotMem.1, ?_⟩
        cases lines <;> simp
      obtain ⟨c, rest, hc, hjoin⟩ := hnext
      have hrest := ih (List.cons_ne_nil _ _) hlines.2
      rw [hjoin, List.cons_append, List.cons_append] at hrest
      rw [joinLines_cons_cons, hjoin, List.append_assoc, List.append_assoc,
        partition?_line hlines.1.2]
      show Option.map _ (partition? [10, 10] (10 :: c :: (rest ++ ([10, 10] ++ text)))) = _
      rw [partition?_newline hc, ← List.append_assoc, hrest]
      rfl

/-- Blocks joined by newlines are their lines joined by newlines. -/
theorem joinLines_map_joinLines {blocks : List (List PyStr)} (hblocks : ∀ block ∈ blocks, block ≠ []) :
    joinLines (blocks.map joinLines) = joinLines blocks.flatten := by
  induction blocks with
  | nil => rfl
  | cons block blocks ih =>
    rw [List.forall_mem_cons] at hblocks
    cases blocks with
    | nil => simp
    | cons next blocks =>
      have hflatten : (next :: blocks).flatten ≠ [] := by
        rw [List.flatten_cons]
        exact List.append_ne_nil_of_left_ne_nil (hblocks.2 next List.mem_cons_self) _
      rw [List.flatten_cons, joinLines_append hblocks.1 hflatten, ← ih hblocks.2]
      rfl

end lines

/-! ## What yo's lines are made of -/

/-- The characters of the literals yo writes. -/
def isPrintable (c : ℕ) : Bool := 32 ≤ c && c ≤ 126

section made

variable {e : Env} {c : ℕ} {line text a b : PyStr}

theorem notMem_lit {s : String} (hc : isPrintable c = false)
    (h : (lit s).all isPrintable = true) : c ∉ lit s := fun hmem => by
  rw [List.all_eq_true] at h
  exact absurd (h c hmem) (by simp [hc])

theorem notMem_dec (hc : isPrintable c = false) (n : ℕ) : c ∉ dec n := fun hmem => by
  have hdigit := isDigit_of_mem_dec hmem
  simp only [isDigit, isPrintable, Bool.and_eq_true, Bool.and_eq_false_iff, decide_eq_true_eq,
    decide_eq_false_iff_not] at hdigit hc
  omega

theorem notMem_name (hc : isPrintable c = false) (box : Box) : c ∉ box.name := fun hmem => by
  have hname := box.isNameChar_name c hmem
  simp only [isNameChar, isDigit, isPrintable, Bool.or_eq_true, Bool.and_eq_true, decide_eq_true_eq,
    Bool.and_eq_false_iff, decide_eq_false_iff_not, List.mem_cons, List.not_mem_nil,
    or_false] at hname hc
  omega

theorem notMem_quoted (hc : isPrintable c = false) (h : c ∉ text) : c ∉ quoted text := by
  have hquote : c ≠ 34 := by
    rintro rfl
    cases hc
  simp [quoted, hquote, h]

theorem mem_join (h : c ∈ join a b) : c = 47 ∨ c ∈ a ∨ c ∈ b := by
  unfold join at h
  split_ifs at h
  · exact .inr (.inr h)
  · exact .inr (List.mem_append.mp h)
  · rw [List.mem_append, List.mem_cons] at h
    tauto

theorem notMem_join (hc : isPrintable c = false) (ha : c ∉ a) (hb : c ∉ b) : c ∉ join a b := by
  intro h
  rcases mem_join h with rfl | h | h
  · cases hc
  · exact ha h
  · exact hb h

theorem notMem_instanceDir (hc : isPrintable c = false) (hhome : c ∉ e.home) : c ∉ e.instanceDir := by
  refine notMem_join hc (notMem_join hc hhome ?_) (notMem_name hc e.box)
  cases e.box.driver <;> exact notMem_lit hc (by decide)

theorem notMem_knownHostsPath (hc : isPrintable c = false) (hhome : c ∉ e.home) :
    c ∉ e.knownHostsPath :=
  notMem_join hc (notMem_instanceDir hc hhome) (notMem_lit hc (by decide))

/-- The lines of yo's blocks, one list a block. -/
def headerBlocks (e : Env) (hostBlock : Option SshHostBlock) : List (List PyStr) :=
  [[AGENT_SSH_CONFIG_MARKER],
    [lit "Match host " ++ e.box.vmHost ++ lit " user " ++ AGENT_USER,
      lit "  ControlPath " ++ e.box.tildeDir ++ lit "/ssh-agent.sock",
      lit "  ForwardAgent no"],
    [lit "Match host " ++ e.box.vmHost,
      lit "  UserKnownHostsFile " ++ quoted e.knownHostsPath,
      lit "  StrictHostKeyChecking accept-new",
      lit "  NoHostAuthenticationForLocalhost no"],
    [lit "Match host " ++ e.box.vmHost ++ lit "," ++ e.box.herdrAlias,
      lit "  ConnectTimeout " ++ dec STAGE2_CONNECT_TIMEOUT_SECONDS,
      lit "  ServerAliveInterval " ++ dec SSH_ALIVE_INTERVAL_SECONDS,
      lit "  ServerAliveCountMax " ++ dec STAGE2_ALIVE_COUNT_MAX]]
    ++ hostBlock.toList.map (herdrAliasLines e)

def headerLines (e : Env) (hostBlock : Option SshHostBlock) : List PyStr :=
  (headerBlocks e hostBlock).flatten

theorem headerOf_eq (e : Env) (rest : PyStr) :
    headerOf e rest = joinLines (headerLines e (parseSshHostBlock rest e.box.vmHost)) := by
  have hblocks : ∀ block ∈ headerBlocks e (parseSshHostBlock rest e.box.vmHost), block ≠ [] := by
    intro block hblock
    rcases List.mem_append.mp hblock with hfixed | halias
    · simp only [List.mem_cons, List.not_mem_nil, or_false] at hfixed
      rcases hfixed with rfl | rfl | rfl | rfl <;> exact List.cons_ne_nil _ _
    · obtain ⟨hostBlock, -, rfl⟩ := List.mem_map.mp halias
      exact List.cons_ne_nil _ _
  rw [headerLines, ← joinLines_map_joinLines hblocks, headerOf]
  congr 1
  simp [ownedBlocks, headerBlocks, Box.editorSshBlock, hostKeyPinBlock, connectionBoundsBlock,
    herdrAliasBlock]

/-- A line that is not empty and has none of a character. -/
structure LineWithout (c : ℕ) (line : PyStr) : Prop where
  ne_nil : line ≠ []
  notMem : c ∉ line

theorem LineWithout.of_lit {s : String} (hc : isPrintable c = false) (hs : lit s ≠ [])
    (h : (lit s).all isPrintable = true) : LineWithout c (lit s) := ⟨hs, notMem_lit hc h⟩

theorem LineWithout.append (hline : LineWithout c line) (htext : c ∉ text) :
    LineWithout c (line ++ text) :=
  ⟨List.append_ne_nil_of_left_ne_nil hline.ne_nil _, List.not_mem_append hline.notMem htext⟩

theorem LineWithout.vmHost (hc : isPrintable c = false) (box : Box) : LineWithout c box.vmHost :=
  (of_lit hc (by decide) (by decide)).append (notMem_name hc box)

theorem LineWithout.tildeDir (hc : isPrintable c = false) (box : Box) : LineWithout c box.tildeDir := by
  have hdir : c ∉ box.driver.instancesDir := by
    cases box.driver <;> exact notMem_lit hc (by decide)
  exact (((of_lit hc (by decide) (by decide)).append hdir).append
    (notMem_lit hc (by decide))).append (notMem_name hc box)

theorem forall_herdrAliasLines {hostBlock : SshHostBlock} (hc : isPrintable c = false)
    (hhome : c ∉ e.home) (hvalues : ∀ v ∈ hostBlock.values, c ∉ v) :
    ∀ line ∈ herdrAliasLines e hostBlock, LineWithout c line := by
  simp only [SshHostBlock.values, List.forall_mem_cons, List.forall_mem_append] at hvalues
  obtain ⟨hhostname, hport, hidentities, hagent⟩ := hvalues
  have hlit {s : String} (hs : lit s ≠ []) (h : (lit s).all isPrintable = true) :
      LineWithout c (lit s) := .of_lit hc hs h
  unfold herdrAliasLines
  simp only [List.forall_mem_append, List.forall_mem_map, List.forall_mem_cons]
  refine ⟨⟨⟨⟨?_, ?_, ?_, ?_, ?_, ?_, List.forall_mem_nil _⟩, ?_⟩, ?_, ?_, List.forall_mem_nil _⟩, ?_⟩
  · exact (hlit (by decide) (by decide)).append (notMem_name hc e.box)
  · exact (hlit (by decide) (by decide)).append (notMem_lit hc (by decide))
  · exact hlit (by decide) (by decide)
  · exact hlit (by decide) (by decide)
  · exact (hlit (by decide) (by decide)).append hhostname
  · exact (hlit (by decide) (by decide)).append hport
  · intro v hv
    exact (hlit (by decide) (by decide)).append (notMem_quoted hc (hidentities v hv))
  · exact (hlit (by decide) (by decide)).append (notMem_quoted hc (notMem_knownHostsPath hc hhome))
  · exact hlit (by decide) (by decide)
  · intro v hv
    exact (hlit (by decide) (by decide)).append (notMem_quoted hc (hagent v hv))

/-- **The lines of the header** are not empty, and have no line break of their own. -/
theorem forall_headerLines {hostBlock : Option SshHostBlock} (hc : isPrintable c = false)
    (hhome : c ∉ e.home) (hvalues : ∀ block ∈ hostBlock, ∀ v ∈ block.values, c ∉ v) :
    ∀ line ∈ headerLines e hostBlock, LineWithout c line := by
  have hlit {s : String} (hs : lit s ≠ []) (h : (lit s).all isPrintable = true) :
      LineWithout c (lit s) := .of_lit hc hs h
  have hhost : LineWithout c (lit "Match host " ++ e.box.vmHost) :=
    (hlit (by decide) (by decide)).append (LineWithout.vmHost hc e.box).notMem
  have halias : ∀ line ∈ (hostBlock.toList.map (herdrAliasLines e)).flatten, LineWithout c line := by
    intro line hline
    obtain ⟨_, hlines, hline⟩ := List.mem_flatten.mp hline
    obtain ⟨block, hblock, rfl⟩ := List.mem_map.mp hlines
    exact forall_herdrAliasLines hc hhome (hvalues block (Option.mem_toList.mp hblock)) line hline
  unfold headerLines headerBlocks
  simp only [List.flatten_append, List.forall_mem_append, List.flatten_cons, List.flatten_nil,
    List.forall_mem_cons, List.append_nil]
  refine ⟨⟨⟨?_, nofun⟩, ⟨?_, ?_, ?_, nofun⟩, ⟨hhost, ?_, ?_, ?_, nofun⟩, ⟨?_, ?_, ?_, ?_, nofun⟩⟩, halias⟩
  · exact hlit (by decide) (by decide)
  · exact (hhost.append (notMem_lit hc (by decide))).append (notMem_lit hc (by decide))
  · exact ((hlit (by decide) (by decide)).append (LineWithout.tildeDir hc e.box).notMem).append
      (notMem_lit hc (by decide))
  · exact hlit (by decide) (by decide)
  · exact (hlit (by decide) (by decide)).append (notMem_quoted hc (notMem_knownHostsPath hc hhome))
  · exact hlit (by decide) (by decide)
  · exact hlit (by decide) (by decide)
  · exact (hhost.append (notMem_lit hc (by decide))).append (notMem_name hc e.box)
  · exact (hlit (by decide) (by decide)).append (notMem_dec hc _)
  · exact (hlit (by decide) (by decide)).append (notMem_dec hc _)
  · exact (hlit (by decide) (by decide)).append (notMem_dec hc _)

theorem headerLines_ne_nil (e : Env) (hostBlock : Option SshHostBlock) :
    headerLines e hostBlock ≠ [] := List.cons_ne_nil _ _

theorem startswith_headerOf (e : Env) (rest text : PyStr) :
    startswith (headerOf e rest ++ text) AGENT_SSH_CONFIG_MARKER = true := by
  have hlines : ∃ next lines, headerLines e (parseSshHostBlock rest e.box.vmHost) =
      AGENT_SSH_CONFIG_MARKER :: next :: lines := ⟨_, _, rfl⟩
  obtain ⟨next, lines, hlines⟩ := hlines
  rw [headerOf_eq, hlines, joinLines_cons_cons, List.append_assoc]
  exact startswith_append _ _

theorem notMem_parse {rest host : PyStr} (hc : isLineBreak c = true) :
    ∀ block ∈ parseSshHostBlock rest host, ∀ v ∈ block.values, c ∉ v := fun _ hblock _ hv hmem => by
  have hline := oneLine_of_parse hblock hv c hmem
  exact absurd hc (by simp [hline])

theorem not_isPrintable (hc : isLineBreak c = true) : isPrintable c = false := by
  simp only [isLineBreak, List.mem_cons, List.not_mem_nil, or_false, decide_eq_true_eq] at hc
  rcases hc with rfl | rfl | rfl | rfl | rfl | rfl | rfl | rfl | rfl | rfl <;> rfl

/-- The lines of the header hold a line break only where `$HOME` has it. -/
theorem forall_headerLines_parse (hc : isLineBreak c = true) (hhome : c ∉ e.home) (rest : PyStr) :
    ∀ line ∈ headerLines e (parseSshHostBlock rest e.box.vmHost), LineWithout c line :=
  forall_headerLines (not_isPrintable hc) hhome (notMem_parse hc)

end made

/-! ## Splitting the file -/

section split

variable {e : Env} {rest content written : PyStr}

/-- **The header ends at the first blank line.** -/
theorem partition?_headerOf (hhome : 10 ∉ e.home) (text : PyStr) :
    partition? [10, 10] (headerOf e rest ++ [10, 10] ++ text) = some (headerOf e rest, text) := by
  rw [headerOf_eq]
  refine partition?_joinLines (headerLines_ne_nil e _) (fun line hline => ?_) text
  have hwithout := forall_headerLines_parse (by rfl) hhome rest line hline
  exact ⟨hwithout.ne_nil, hwithout.notMem⟩

theorem limaPartOf_headerOf (hhome : 10 ∉ e.home) (text : PyStr) :
    limaPartOf (headerOf e rest ++ [10, 10] ++ text) = text := by
  rw [limaPartOf, List.append_assoc, startswith_headerOf, if_pos rfl, ← List.append_assoc,
    partition?_headerOf hhome]

theorem limaPartOf_of_not_startswith (h : startswith content AGENT_SSH_CONFIG_MARKER = false) :
    limaPartOf content = content := by
  rw [limaPartOf, h, if_neg Bool.false_ne_true]

theorem length_partition_lt {sep text : PyStr} (hsep : sep ≠ []) (htext : text ≠ []) :
    (partition sep text).2.length < text.length := by
  unfold partition
  cases hparts : partition? sep text with
  | none => exact List.length_pos_iff.mpr htext
  | some parts =>
    have hlength := congrArg List.length (eq_of_partition? hparts)
    have hpos := List.length_pos_iff.mpr hsep
    simp only [List.length_append] at hlength
    show parts.2.length < text.length
    omega

/-- A text that begins with the marker is not all the driver's. -/
theorem not_startswith_of_limaPartOf (h : limaPartOf content = content) :
    startswith content AGENT_SSH_CONFIG_MARKER = false := by
  by_contra hstart
  rw [Bool.not_eq_false] at hstart
  have hne : content ≠ [] := by
    rintro rfl
    cases hstart
  rw [limaPartOf, if_pos hstart] at h
  split at h
  · rename_i before after hparts
    have hlt : (partition [10, 10] content).2.length < content.length :=
      length_partition_lt (List.cons_ne_nil _ _) hne
    rw [partition, hparts, Option.getD_some, h] at hlt
    exact lt_irrefl _ hlt
  · have hlt : (partition [10] content).2.length < content.length :=
      length_partition_lt (List.cons_ne_nil _ _) hne
    rw [h] at hlt
    exact lt_irrefl _ hlt

/-! ## Runs -/

/-- What a run leaves in the file. -/
def ensured (e : Env) (content : PyStr) : PyStr :=
  match ensureAgentSshConfig e (some content) with
  | .ok (some written) => written
  | _ => content

/-- What happens to the file: yo runs, or the driver rewrites it. -/
inductive Event
  | run
  | rewrite (rest : PyStr)

def Event.apply (e : Env) (content : PyStr) : Event → PyStr
  | .run => ensured e content
  | .rewrite rest => rest

def history (e : Env) (content : PyStr) (events : List Event) : PyStr :=
  events.foldl (Event.apply e) content

/-- `writeSshConfig` writes exactly when the driver's part is not what it wants. -/
def Settles (e : Env) (content : PyStr) : Prop :=
  ∀ port user, writeSshConfig e port user (some content) =
    if limaPartOf content = libvirtSshConfig e.box.vmHost port user e.opSock e.instanceDir then none
    else some (libvirtSshConfig e.box.vmHost port user e.opSock e.instanceDir)

/-- The driver's part is kept: it is what is below the header, a second run writes nothing,
the file is as new after a rewrite, and the libvirt driver sees what is there. -/
structure Kept (e : Env) (rest written : PyStr) : Prop where
  writes : ensureAgentSshConfig e (some rest) = .ok (some written)
  limaPartOf_written : limaPartOf written = rest
  second : ensureAgentSshConfig e (some written) = .ok none
  rewritten : ∀ events rest2,
    history e rest (events ++ [.rewrite rest2, .run]) = history e rest2 [.run]
  settles : Settles e rest ∧ Settles e written

theorem ensureAgentSshConfig_of_fits (hfits : e.controlPathFits = true) (content : PyStr) :
    ensureAgentSshConfig e (some content) =
      if headerOf e (limaPartOf (readText content)) ++ [10, 10] ++ limaPartOf (readText content)
          = readText content then .ok none
      else .ok (some (headerOf e (limaPartOf (readText content)) ++ [10, 10]
        ++ limaPartOf (readText content))) := by
  rw [ensureAgentSshConfig, if_pos hfits]

theorem settles_of_notMem (h : 13 ∉ content) : Settles e content := by
  intro port user
  rw [writeSshConfig, Option.map_some, Option.getD_some, readText_of_notMem h]
  simp only [ne_eq, ite_not]

theorem notMem_headerOf (hhome : 13 ∉ e.home) : 13 ∉ headerOf e rest := by
  rw [headerOf_eq]
  intro h
  rcases mem_joinLines h with habsurd | ⟨line, hline, hmem⟩
  · cases habsurd
  · exact (forall_headerLines_parse (by rfl) hhome rest line hline).notMem hmem

theorem mem_join_left {c : ℕ} {a b : PyStr} (hb : 47 ∉ b) (hc : c ∈ a) : c ∈ join a b := by
  have hslash : ¬ startswith b [47] = true := by
    intro h
    obtain ⟨tail, rfl⟩ := startswith_iff.mp h
    exact hb List.mem_cons_self
  rw [join, if_neg hslash]
  split_ifs <;> exact List.mem_append_left _ hc

/-- `$HOME` is where the instance is. -/
theorem mem_home_instanceDir {c : ℕ} (hc : c ∈ e.home) : c ∈ e.instanceDir := by
  have hname : 47 ∉ e.box.name := fun hmem => absurd (e.box.isNameChar_name 47 hmem) (by decide)
  have hrelative : ¬ startswith e.box.driver.instancesDir [47] = true := by
    cases e.box.driver <;> decide
  refine mem_join_left hname ?_
  rw [join, if_neg hrelative]
  split_ifs <;> exact List.mem_append_left _ hc

/-- `$HOME` is in the header. -/
theorem mem_headerOf {c : ℕ} (hc : c ∈ e.home) : c ∈ headerOf e rest := by
  have hpath : c ∈ e.knownHostsPath := mem_join_left (by decide) (mem_home_instanceDir hc)
  have hline : lit "  UserKnownHostsFile " ++ quoted e.knownHostsPath ∈
      headerLines e (parseSshHostBlock rest e.box.vmHost) :=
    List.mem_flatten.mpr ⟨_, List.mem_append_left _ (List.mem_cons_of_mem _
      (List.mem_cons_of_mem _ List.mem_cons_self)), List.mem_cons_of_mem _ List.mem_cons_self⟩
  rw [headerOf_eq]
  refine mem_joinLines_of_mem hline ?_
  exact List.mem_append_right _ (List.mem_cons_of_mem _ (List.mem_append_left _ hpath))

/-! ## The driver's part is kept -/

theorem notMem_home (hHOME : 10 ∉ e.HOME) : 10 ∉ e.home := by
  intro h
  rcases mem_normpath h with habsurd | habsurd | hmem
  · cases habsurd
  · cases habsurd
  · exact hHOME hmem

/-- What a run writes, when it writes. -/
theorem eq_of_writes (hfits : e.controlPathFits = true)
    (h : ensureAgentSshConfig e (some content) = .ok (some written)) :
    written = headerOf e (limaPartOf (readText content)) ++ [10, 10]
      ++ limaPartOf (readText content) := by
  rw [ensureAgentSshConfig_of_fits hfits] at h
  split_ifs at h with hsame
  · cases h
  · exact (Option.some.inj (Except.ok.inj h)).symm

theorem mem_of_mem_limaPartOf {c : ℕ} (h : c ∈ limaPartOf content) : c ∈ content := by
  unfold limaPartOf at h
  split at h
  · split at h
    · rename_i before after hparts
      rw [eq_of_partition? hparts]
      exact List.mem_append_right _ h
    · exact mem_partition h
  · exact h

/-- What is kept had no carriage return, and was not headed. -/
theorem Kept.plain (hfits : e.controlPathFits = true) (hhome : 10 ∉ e.home)
    (h : Kept e rest written) :
    13 ∉ rest ∧ 13 ∉ e.home ∧ startswith rest AGENT_SSH_CONFIG_MARKER = false := by
  have hwritten := eq_of_writes hfits h.writes
  have hrest := h.limaPartOf_written
  rw [hwritten, limaPartOf_headerOf hhome] at hrest
  have hplain : 13 ∉ rest := by
    rw [← hrest]
    exact fun hmem => notMem_readText rest (mem_of_mem_limaPartOf hmem)
  refine ⟨hplain, fun hmem => ?_, ?_⟩
  · have hsecond := h.second
    rw [ensureAgentSshConfig_of_fits hfits] at hsecond
    split_ifs at hsecond with hsame
    · have hread := notMem_readText written
      rw [← hsame] at hread
      exact hread (List.mem_append_left _ (List.mem_append_left _ (mem_headerOf hmem)))
    · cases hsecond
  · rw [readText_of_notMem hplain] at hrest
    exact not_startswith_of_limaPartOf hrest

/-- **A driver's part without carriage returns is kept**, when `$HOME` has none either. -/
theorem kept_of_plain (hfits : e.controlPathFits = true) (hhome : 10 ∉ e.home)
    (hrest : 13 ∉ rest) (hreturn : 13 ∉ e.home)
    (hmarker : startswith rest AGENT_SSH_CONFIG_MARKER = false) :
    Kept e rest (headerOf e rest ++ [10, 10] ++ rest) := by
  have hwritten : 13 ∉ headerOf e rest ++ [10, 10] ++ rest :=
    List.not_mem_append (List.not_mem_append (notMem_headerOf hreturn) (by decide)) hrest
  have hpart : limaPartOf (headerOf e rest ++ [10, 10] ++ rest) = rest :=
    limaPartOf_headerOf hhome rest
  refine ⟨?_, hpart, ?_, fun events rest2 => ?_, settles_of_notMem hrest, settles_of_notMem hwritten⟩
  · rw [ensureAgentSshConfig_of_fits hfits, readText_of_notMem hrest,
      limaPartOf_of_not_startswith hmarker, if_neg]
    intro heq
    have hlength := congrArg List.length heq
    simp only [List.length_append, List.length_cons] at hlength
    omega
  · rw [ensureAgentSshConfig_of_fits hfits, readText_of_notMem hwritten, hpart, if_pos rfl]
  · rw [history, List.foldl_append]
    rfl

/-- **When `ensure_agent_ssh_config` keeps the driver's part**: there is no carriage return
in it or in `$HOME`, and it does not begin with yo's marker. -/
theorem kept_iff (hHOME : 10 ∉ e.HOME) (hfits : e.controlPathFits = true) :
    (∃ written, Kept e rest written) ↔
      13 ∉ rest ∧ 13 ∉ e.home ∧ startswith rest AGENT_SSH_CONFIG_MARKER = false := by
  constructor
  · rintro ⟨written, h⟩
    exact h.plain hfits (notMem_home hHOME)
  · rintro ⟨hrest, hreturn, hmarker⟩
    exact ⟨_, kept_of_plain hfits (notMem_home hHOME) hrest hreturn hmarker⟩

/-! ## Any order of runs and rewrites -/

/-- What the driver last wrote. -/
def driverPart (rest : PyStr) : Event → PyStr
  | .run => rest
  | .rewrite rest => rest

/-- A text the driver may write. -/
def Event.Plain : Event → Prop
  | .run => True
  | .rewrite rest => 13 ∉ rest ∧ startswith rest AGENT_SSH_CONFIG_MARKER = false

/-- What the driver wrote, with the header above it or without. -/
structure Holds (e : Env) (rest content : PyStr) : Prop where
  noReturn : 13 ∉ rest
  unmarked : startswith rest AGENT_SSH_CONFIG_MARKER = false
  content_eq : content = rest ∨ content = headerOf e rest ++ [10, 10] ++ rest

theorem Holds.limaPartOf (hhome : 10 ∉ e.home) (h : Holds e rest content) :
    limaPartOf content = rest := by
  rcases h.content_eq with rfl | rfl
  · exact limaPartOf_of_not_startswith h.unmarked
  · exact limaPartOf_headerOf hhome rest

/-- One run, or one rewrite, keeps what the driver wrote. -/
theorem Holds.apply (hfits : e.controlPathFits = true) (hhome : 10 ∉ e.home) (hreturn : 13 ∉ e.home)
    (h : Holds e rest content) {event : Event} (hplain : event.Plain) :
    Holds e (driverPart rest event) (event.apply e content) := by
  cases event with
  | rewrite rest2 => exact ⟨hplain.1, hplain.2, .inl rfl⟩
  | run =>
    have hkept := kept_of_plain hfits hhome h.noReturn hreturn h.unmarked
    refine ⟨h.noReturn, h.unmarked, .inr ?_⟩
    show ensured e content = _
    rcases h.content_eq with rfl | rfl
    · rw [ensured, hkept.writes]
      rfl
    · rw [ensured, hkept.second]
      rfl

/-- **The driver's part is never lost and never doubled**, however often yo runs and
whenever the driver rewrites the file. -/
theorem limaPartOf_history (hfits : e.controlPathFits = true) (hhome : 10 ∉ e.home)
    (hreturn : 13 ∉ e.home) {events : List Event} (hplain : ∀ event ∈ events, event.Plain)
    (h : Holds e rest content) :
    limaPartOf (history e content events) = events.foldl driverPart rest := by
  induction events generalizing rest content with
  | nil => exact h.limaPartOf hhome
  | cons event events ih =>
    rw [List.forall_mem_cons] at hplain
    exact ih hplain.2 (h.apply hfits hhome hreturn hplain.1)

end split

/-- A machine of the libvirt driver. -/
def sampleBox : Box := ⟨.libvirt, lit "yolobox", by decide, by decide⟩

def sampleEnv (HOME : PyStr) : Env := ⟨sampleBox, HOME, 108⟩

/-- Lines that end in a carriage return and a newline are read back without the former, and a
carriage return in `$HOME` has the header written again by every run. -/
theorem not_kept :
    (10 ∉ (sampleEnv (lit "/home/a")).HOME ∧ (sampleEnv (lit "/home/a")).controlPathFits = true ∧
      startswith (lit "Host a\r\n") AGENT_SSH_CONFIG_MARKER = false ∧
      ¬ ∃ written, Kept (sampleEnv (lit "/home/a")) (lit "Host a\r\n") written) ∧
    10 ∉ (sampleEnv (lit "/home/a\rb")).HOME ∧ (sampleEnv (lit "/home/a\rb")).controlPathFits = true ∧
      startswith (lit "Host a\n") AGENT_SSH_CONFIG_MARKER = false ∧
      ¬ ∃ written, Kept (sampleEnv (lit "/home/a\rb")) (lit "Host a\n") written := by
  refine ⟨⟨by decide, by decide, by decide, ?_⟩, by decide, by decide, by decide, ?_⟩
  · rintro ⟨written, h⟩
    exact absurd (h.plain (by decide) (notMem_home (by decide))).1 (by decide)
  · rintro ⟨written, h⟩
    exact absurd (h.plain (by decide) (notMem_home (by decide))).2.1 (by decide)

/-- The driver's text for that machine. -/
def sampleText : PyStr :=
  libvirtSshConfig sampleBox.vmHost 60022 (lit "operator") (sampleEnv (lit "/home/a")).opSock
    (sampleEnv (lit "/home/a")).instanceDir

/-- The machine's own block stands in the text that is kept. -/
theorem kept_iff_sample :
    (∃ block, parseSshHostBlock sampleText sampleBox.vmHost = some block ∧ block.port = lit "60022") ∧
      ∃ written, Kept (sampleEnv (lit "/home/a")) sampleText written :=
  ⟨⟨_, rfl, rfl⟩,
    (kept_iff (by decide) (by decide)).mpr ⟨by decide +kernel, by decide, by decide +kernel⟩⟩

end SshConfig
