/-
# Landing where the host's cwd is mirrored

`mirror` and `dir_for_cwd` of `yolobox_cli/paths.py`, with what they go through: the
command line that `ssh_run` quotes, `landing-dir` of `yolobox-guest`, and the output that
`proc.run` captures.  `run` decodes it with replacement characters and drops every
carriage return, so a directory is named back only where its path has neither.
-/
import Yolobox.BytePaths
import Yolobox.Paths
import Yolobox.Lib.Shlex

open Utf8 Posix BytePaths

namespace Paths

/-! ## The host's side -/

/-- `path.rstrip('/')` -/
def rstripSlash (path : PyStr) : PyStr := (path.reverse.dropWhile isSlash).reverse

/-- One turn of the loop of `mirror`. -/
def mirrorFrom (macPath host : PyStr) : Option PyStr :=
  if macPath = host then some AGENT_HOME
  else if startswith macPath (host ++ [47]) then
    some (AGENT_HOME ++ 47 :: macPath.drop (host.length + 1))
  else none

/-- `mirror`, where `realpath` is that of `$HOME`. -/
def mirror (home realpath macPath : PyStr) : Option PyStr :=
  [rstripSlash home, rstripSlash realpath].findSome? (mirrorFrom macPath)

def HELPER : PyStr := lit "yolobox-guest"

def LANDING_DIR : PyStr := lit "landing-dir"

/-- The text of the captured output of `proc.run`. -/
def captured (stdout : List Byte) : PyStr := (decodeReplace stdout).filter (· ≠ 13)

/-- `text.strip('\n')` -/
def stripNewlines (text : PyStr) : PyStr :=
  ((text.dropWhile (· == 10)).reverse.dropWhile (· == 10)).reverse

/-! ## The guest's side -/

structure Guest where
  home : List Byte              -- `$HOME` of the agent
  isDir : List Byte → Bool      -- `[ -d PATH ]`

/-- `${d%/*}` -/
def cutLast (d : List Byte) : List Byte :=
  if slash ∈ d then ((d.reverse.dropWhile (· != slash)).drop 1).reverse else d

theorem cutLast_append {n : List Byte} (hn : slash ∉ n) (d : List Byte) :
    cutLast (d ++ slash :: n) = d := by
  have hall : ∀ b ∈ n.reverse, (b != slash) = true := by
    intro b hb
    rw [bne_iff_ne]
    rintro rfl
    exact hn (List.mem_reverse.mp hb)
  have hmem : slash ∈ d ++ slash :: n := by simp
  rw [cutLast, if_pos hmem, List.reverse_append, List.reverse_cons, List.append_assoc,
    List.dropWhile_append_of_pos hall, List.singleton_append, List.dropWhile_cons_of_neg (by simp),
    List.drop_one, List.tail_cons, List.reverse_reverse]

/-- A text with a slash is cut at its last one. -/
theorem exists_cut_last {d : List Byte} (h : slash ∈ d) :
    ∃ rest n, slash ∉ n ∧ d = rest ++ slash :: n := by
  obtain ⟨n, rest, hrev, hn⟩ := List.eq_append_cons_of_mem (List.mem_reverse.mpr h)
  refine ⟨rest.reverse, n.reverse, fun hmem => hn (List.mem_reverse.mp hmem), ?_⟩
  rw [← List.reverse_reverse d, hrev]
  simp

theorem length_cutLast_lt {d : List Byte} (h : slash ∈ d) : (cutLast d).length < d.length := by
  obtain ⟨rest, n, hn, rfl⟩ := exists_cut_last h
  rw [cutLast_append hn, List.length_append, List.length_cons]
  omega

/-- The loop of `cmd_landing_dir`; `none` where it does not end. -/
def walkUp (isDir : List Byte → Bool) (d : List Byte) : Option (List Byte) :=
  if d = [] then some []
  else if isDir d then some d
  else if _h : slash ∈ d then walkUp isDir (cutLast d) else none
termination_by d.length
decreasing_by exact length_cutLast_lt _h

/-- `cmd_landing_dir`: its exit status and what it prints. -/
def cmdLandingDir (g : Guest) (d : List Byte) : Option (ℕ × List Byte) :=
  if d = [] then some (1, [])
  else if d.head? ≠ some slash then some (2, [])
  else (walkUp g.isDir d).map fun found => (0, (if found = [] then g.home else found) ++ [10])

/-- What the agent's shell makes of a command line that runs the helper. -/
def Guest.ssh (g : Guest) (line : List Byte) : Option (ℕ × List Byte) :=
  match Shlex.words (line.map Fin.val) with
  | some [helper, sub, d] =>
    if helper = HELPER ∧ sub = LANDING_DIR then cmdLandingDir g (d.map (Fin.ofNat 256)) else none
  | _ => none

/-! ## `dir_for_cwd` -/

inductive LandingError
  | unencodable (command : PyStr)
  | noAnswer
  | helperFailed (returncode : ℕ)
  | refused (refusal : Refusal)
  deriving DecidableEq, Repr

/-- A directory to land in, and the pair of paths in the note that is printed. -/
structure Landing where
  path : PyStr
  missing : Option (PyStr × PyStr)
  deriving DecidableEq, Repr

/-- What is reported, judged. -/
def landOn (desired : PyStr) (completed : ℕ × List Byte) : Except LandingError Landing :=
  if completed.1 ≠ 0 then .error (.helperFailed completed.1)
  else
    match guestPath (stripNewlines (captured completed.2)) [AGENT_HOME] with
    | .error refusal => .error (.refused refusal)
    | .ok landing => .ok ⟨landing, if landing ≠ desired then some (desired, landing) else none⟩

/-- `dir_for_cwd`, where `cwd` is `logical_cwd()`. -/
def dirForCwd (home realpath cwd : PyStr) (g : Guest) : Except LandingError Landing :=
  match mirror home realpath cwd with
  | none => .ok ⟨AGENT_HOME, some (cwd, AGENT_HOME)⟩
  | some desired =>
    match encode (Shlex.join [HELPER, LANDING_DIR, desired]) with
    | none => .error (.unencodable desired)
    | some line =>
      match g.ssh line with
      | none => .error .noAnswer
      | some completed => landOn desired completed

/-! ## The command line -/

/-- A byte inside single quotes. -/
def escapeByte (b : Byte) : List Byte := (Shlex.escapeQuote b.val).map (Fin.ofNat 256)

theorem map_val_flatMap_escapeByte (bytes : List Byte) :
    (bytes.flatMap escapeByte).map Fin.val = (bytes.map Fin.val).flatMap Shlex.escapeQuote := by
  induction bytes with
  | nil => rfl
  | cons b bytes ih =>
    rw [List.flatMap_cons, List.map_append, ih, List.map_cons, List.flatMap_cons]
    congr 1
    unfold escapeByte Shlex.escapeQuote
    split_ifs
    · rfl
    · simp

/-- Escaping, before or after encoding. -/
theorem encode_flatMap_escapeQuote {text : PyStr} {bytes : List Byte} (h : encode text = some bytes) :
    encode (text.flatMap Shlex.escapeQuote) = some (bytes.flatMap escapeByte) := by
  induction text generalizing bytes with
  | nil =>
    cases h
    rfl
  | cons c text ih =>
    obtain ⟨here, hc, h⟩ := Option.bind_eq_some_iff.mp h
    obtain ⟨there, ht, rfl⟩ := Option.map_eq_some_iff.mp h
    have hhere : encode (Shlex.escapeQuote c) = some (here.flatMap escapeByte) := by
      by_cases h39 : c = 39
      · subst h39
        rw [encodeChar_ascii (by decide), Option.some.injEq] at hc
        subst hc
        decide
      · have hkeep : ∀ b ∈ here, escapeByte b = [b] := by
          intro b hb
          have hne : b.val ≠ 39 := by
            intro hval
            refine h39 (eq_of_ascii_mem (k := 39) (by decide) hc ?_)
            rw [ofNat_eq hval.symm]
            exact hb
          rw [escapeByte, Shlex.escapeQuote, if_neg hne, List.map_singleton, ofNat_eq rfl]
        have hsame : here.flatMap escapeByte = here := by
          rw [List.flatMap_congr hkeep]
          simp
        rw [hsame, Shlex.escapeQuote, if_neg h39]
        simp [encode, hc]
    rw [List.flatMap_cons, encode_append, hhere, ih ht, List.flatMap_append]
    rfl

theorem lt_of_isSafe {c : ℕ} (h : Shlex.isSafe c = true) : c < 0x80 := by
  simp only [Shlex.isSafe, Bool.or_eq_true, Bool.and_eq_true, decide_eq_true_eq, List.mem_cons,
    List.not_mem_nil, or_false] at h
  omega

theorem all_isSafe_encodeChar {c : ℕ} {here : List Byte} (hc : encodeChar c = some here) :
    (here.map Fin.val).all Shlex.isSafe = Shlex.isSafe c := by
  by_cases hlow : c < 0x80
  · rw [encodeChar_ascii hlow, Option.some.injEq] at hc
    subst hc
    have hval : (Fin.ofNat 256 c).val = c := Nat.mod_eq_of_lt (by omega)
    rw [List.map_singleton, hval, List.all_cons, List.all_nil, Bool.and_true]
  · have hquoted : Shlex.isSafe c = false := by
      by_contra h
      exact hlow (lt_of_isSafe (Bool.not_eq_false _ ▸ h))
    obtain ⟨b, more, rfl⟩ := List.exists_cons_of_ne_nil (encodeChar_ne_nil hc)
    have hbyte : Shlex.isSafe b.val = false := by
      by_contra h
      have hb := lt_of_isSafe (Bool.not_eq_false _ ▸ h)
      refine hlow ((eq_of_ascii_mem hb hc ?_) ▸ hb)
      rw [ofNat_eq rfl]
      exact List.mem_cons_self ..
    rw [hquoted, List.map_cons, List.all_cons, hbyte, Bool.false_and]

/-- A text is safe where its bytes are. -/
theorem all_isSafe_encode {text : PyStr} {bytes : List Byte} (h : encode text = some bytes) :
    (bytes.map Fin.val).all Shlex.isSafe = text.all Shlex.isSafe := by
  induction text generalizing bytes with
  | nil =>
    cases h
    rfl
  | cons c text ih =>
    obtain ⟨here, hc, h⟩ := Option.bind_eq_some_iff.mp h
    obtain ⟨there, ht, rfl⟩ := Option.map_eq_some_iff.mp h
    rw [List.map_append, List.all_append, ih ht, List.all_cons, all_isSafe_encodeChar hc]

/-- **Quoting, before or after encoding.** -/
theorem encode_quote {text : PyStr} {bytes : List Byte} (h : encode text = some bytes) :
    ∃ line, encode (Shlex.quote text) = some line ∧ line.map Fin.val = Shlex.quote (bytes.map Fin.val) := by
  have hnil : text = [] ↔ bytes.map Fin.val = [] := by
    rw [List.map_eq_nil_iff]
    constructor
    · rintro rfl
      cases h
      rfl
    · rintro rfl
      cases text with
      | nil => rfl
      | cons c text =>
        obtain ⟨here, hc, h⟩ := Option.bind_eq_some_iff.mp h
        obtain ⟨there, -, hcat⟩ := Option.map_eq_some_iff.mp h
        exact absurd (List.append_eq_nil_iff.mp hcat).1 (encodeChar_ne_nil hc)
  unfold Shlex.quote
  rw [all_isSafe_encode h]
  simp only [← hnil]
  split_ifs
  · exact ⟨[Fin.ofNat 256 39, Fin.ofNat 256 39], by decide, rfl⟩
  · exact ⟨bytes, h, rfl⟩
  · refine ⟨Fin.ofNat 256 39 :: (bytes.flatMap escapeByte ++ [Fin.ofNat 256 39]), ?_, ?_⟩
    · rw [encode, encodeChar_ascii (by decide), encode_append, encode_flatMap_escapeQuote h]
      rfl
    · rw [List.map_cons, List.map_append, map_val_flatMap_escapeByte]
      rfl

theorem encode_join {args : List PyStr} {words : List (List Byte)}
    (h : args.map encode = words.map some) :
    ∃ line, encode (Shlex.join args) = some line ∧
      line.map Fin.val = Shlex.join (words.map fun w => w.map Fin.val) := by
  induction args generalizing words with
  | nil =>
    cases words with
    | nil => exact ⟨[], rfl, rfl⟩
    | cons w words => cases h
  | cons arg args ih =>
    cases words with
    | nil => cases h
    | cons w words =>
      rw [List.map_cons, List.map_cons, List.cons.injEq] at h
      obtain ⟨line, hline, hread⟩ := encode_quote h.1
      cases args with
      | nil =>
        cases words with
        | nil => exact ⟨line, by rw [Shlex.join]; simpa using hline, by rw [Shlex.join]; simpa using hread⟩
        | cons w' words => cases h.2
      | cons arg' args =>
        cases words with
        | nil => cases h.2
        | cons w' words =>
          obtain ⟨more, hmore, hrest⟩ := ih h.2
          refine ⟨line ++ Fin.ofNat 256 32 :: more, ?_, ?_⟩
          · have hjoin : Shlex.join (arg :: arg' :: args)
                = Shlex.quote arg ++ 32 :: Shlex.join (arg' :: args) := by
              simp [Shlex.join, List.intercalate_cons_cons]
            rw [hjoin, encode_append, hline, encode, encodeChar_ascii (by decide), hmore]
            rfl
          · rw [List.map_append, List.map_cons, hread, hrest]
            simp [Shlex.join, List.intercalate_cons_cons]

/-- What the shell runs is what was asked for. -/
theorem ssh_join (g : Guest) {path : PyStr} {d : List Byte} (h : encode path = some d) :
    ∃ line, encode (Shlex.join [HELPER, LANDING_DIR, path]) = some line ∧ g.ssh line = cmdLandingDir g d := by
  have hargs : [HELPER, LANDING_DIR, path].map encode = [ascii HELPER, ascii LANDING_DIR, d].map some := by
    have hhelper : encode HELPER = some (ascii HELPER) := by decide
    have hsub : encode LANDING_DIR = some (ascii LANDING_DIR) := by decide
    simp [h, hhelper, hsub]
  obtain ⟨line, hline, hread⟩ := encode_join hargs
  refine ⟨line, hline, ?_⟩
  have hcodes : ((ascii HELPER).map Fin.val = HELPER) ∧ (ascii LANDING_DIR).map Fin.val = LANDING_DIR := by
    decide
  have hbytes : (d.map Fin.val).map (Fin.ofNat 256) = d := by
    rw [List.map_map]
    refine (List.map_congr_left fun b _ => ?_).trans (List.map_id d)
    exact ofNat_eq rfl
  rw [Guest.ssh, hread, Shlex.words_join]
  simp only [List.map_cons, List.map_nil, hcodes, and_self, if_true, hbytes]

/-! ## The walk -/

/-- The mirror of `$HOME/a/b/…` -/
def mirrored (rest : List (List Byte)) : List Byte := ascii AGENT_HOME ++ spell rest

/-- `p` is the deepest directory among the mirror of `rest` and what lies above it. -/
def Deepest (isDir : List Byte → Bool) (rest : List (List Byte)) (p : List Byte) : Prop :=
  ∃ k ≤ rest.length, p = mirrored (rest.take k) ∧ isDir p = true ∧
    ∀ j, k < j → j ≤ rest.length → isDir (mirrored (rest.take j)) = false

section
variable {isDir : List Byte → Bool} {rest : List (List Byte)} {p d n : List Byte}

/-- A deepest one is there as soon as the agent's home is. -/
theorem exists_deepest (h : isDir (mirrored []) = true) (rest : List (List Byte)) :
    ∃ p, Deepest isDir rest p := by
  induction rest using List.reverseRecOn with
  | nil => exact ⟨mirrored [], 0, le_rfl, rfl, h, fun j hj hlen => absurd hlen (by simp; omega)⟩
  | append_singleton rest n ih =>
    by_cases hself : isDir (mirrored (rest ++ [n])) = true
    · refine ⟨_, (rest ++ [n]).length, le_rfl, by rw [List.take_length], hself, fun j hj hlen => ?_⟩
      omega
    · obtain ⟨p, k, hk, hp, hdir, hdeep⟩ := ih
      refine ⟨p, k, ?_, ?_, hdir, fun j hj hlen => ?_⟩
      · rw [List.length_append]
        omega
      · rw [hp, List.take_append_of_le_length hk]
      · rw [List.length_append, List.length_singleton] at hlen
        obtain hlt | heq := Nat.lt_or_eq_of_le hlen
        · rw [List.take_append_of_le_length (by omega)]
          exact hdeep j hj (by omega)
        · rw [List.take_of_length_le (by rw [List.length_append, List.length_singleton]; omega)]
          exact Bool.not_eq_true _ ▸ hself

theorem walkUp_of_isDir (hne : d ≠ []) (h : isDir d = true) : walkUp isDir d = some d := by
  rw [walkUp, if_neg hne, if_pos h]

theorem walkUp_cut (hn : slash ∉ n) (h : isDir (d ++ slash :: n) = false) :
    walkUp isDir (d ++ slash :: n) = walkUp isDir d := by
  have hmem : slash ∈ d ++ slash :: n := by simp
  rw [walkUp, if_neg (by simp), if_neg (by simp [h]), dif_pos hmem, cutLast_append hn]

theorem mirrored_ne_nil (rest : List (List Byte)) : mirrored rest ≠ [] := by
  have hhome : ascii AGENT_HOME ≠ [] := by decide
  simp [mirrored, hhome]

/-- **The loop stops at the deepest directory.** -/
theorem walkUp_mirrored (hrest : ∀ n ∈ rest, slash ∉ n) (hp : Deepest isDir rest p) :
    walkUp isDir (mirrored rest) = some p := by
  obtain ⟨k, hk, rfl, hdir, hdeep⟩ := hp
  have hall : ∀ j, k ≤ j → j ≤ rest.length →
      walkUp isDir (mirrored (rest.take j)) = some (mirrored (rest.take k)) := by
    intro j hkj
    induction j, hkj using Nat.le_induction with
    | base => exact fun _ => walkUp_of_isDir (mirrored_ne_nil _) hdir
    | succ j hkj ih =>
      intro hlen
      have hstep : mirrored (rest.take (j + 1)) = mirrored (rest.take j) ++ slash :: rest[j] := by
        rw [List.take_succ_eq_append_getElem hlen, mirrored, spell_append, mirrored]
        simp
      have hdeep' := hdeep (j + 1) (by omega) hlen
      rw [hstep] at hdeep' ⊢
      rw [walkUp_cut (hrest _ (List.getElem_mem hlen)) hdeep', ih (by omega)]
  have hself := hall rest.length hk le_rfl
  rwa [List.take_length] at hself

end

/-! ## What is captured -/

/-- The path is UTF-8 and has no carriage return. -/
def Plain (p : List Byte) : Prop := ∀ c ∈ decode p, c ≠ 13 ∧ isEscape c = false

theorem decode_mirrored (rest : List (List Byte)) :
    decode (mirrored rest) = AGENT_HOME ++ ofNames (rest.map decode) := by
  rw [mirrored, decode_append_spell, decode_ascii (by decide)]

theorem stripNewlines_line {text : PyStr} (h : 10 ∉ text) : stripNewlines (text ++ [10]) = text := by
  have hall : ∀ c ∈ text, ¬ (c == 10) = true := by
    intro c hc h10
    rw [beq_iff_eq] at h10
    exact h (h10 ▸ hc)
  have hkeep : ∀ t : PyStr, (∀ c ∈ t, ¬ (c == 10) = true) → t.dropWhile (· == 10) = t := by
    intro t ht
    cases t with
    | nil => rfl
    | cons c t => exact List.dropWhile_cons_of_neg (ht c (List.mem_cons_self ..))
  cases text with
  | nil => rfl
  | cons c text =>
    have hreverse : ∀ d ∈ (c :: text).reverse, ¬ (d == 10) = true :=
      fun d hd => hall d (List.mem_reverse.mp hd)
    have hfirst : (c :: (text ++ [10])).dropWhile (· == 10) = c :: (text ++ [10]) :=
      List.dropWhile_cons_of_neg (hall c (List.mem_cons_self ..))
    have hlast : (10 :: (c :: text).reverse).dropWhile (· == 10)
        = (c :: text).reverse.dropWhile (· == 10) := List.dropWhile_cons_of_pos rfl
    rw [stripNewlines, List.cons_append, hfirst, ← List.cons_append, List.reverse_append,
      List.reverse_singleton, List.singleton_append, hlast, hkeep _ hreverse, List.reverse_reverse]

/-- A plain path is captured as it is. -/
theorem captured_of_plain {p : List Byte} (h : Plain p) : captured (p ++ [10]) = decode p ++ [10] := by
  have hdecode : decode (p ++ [10]) = decode p ++ [10] := decode_append_ascii (by decide) p []
  have hutf : ∀ c ∈ decode (p ++ [10]), isEscape c = false := by
    rw [hdecode]
    intro c hc
    rcases List.mem_append.mp hc with hc | hc
    · exact (h c hc).2
    · rw [List.mem_singleton.mp hc]
      decide
  have hline : ∀ c ∈ decode p ++ [10], decide (c ≠ 13) = true := by
    intro c hc
    rw [decide_eq_true_eq]
    rcases List.mem_append.mp hc with hc | hc
    · exact (h c hc).1
    · rw [List.mem_singleton.mp hc]
      decide
  rw [captured, decodeReplace_eq hutf, hdecode, List.filter_eq_self.mpr hline]

theorem mem_stripNewlines {c : ℕ} {text : PyStr} (h : c ∈ stripNewlines text) : c ∈ text := by
  have hinner := (List.dropWhile_sublist _).subset (List.mem_reverse.mp h)
  exact (List.dropWhile_sublist _).subset (List.mem_reverse.mp hinner)

/-- What is captured has no carriage return and no escaped byte. -/
theorem of_mem_captured {c : ℕ} {stdout : List Byte} (h : c ∈ captured stdout) :
    c ≠ 13 ∧ isEscape c = false := by
  rw [captured, List.mem_filter, decide_eq_true_eq] at h
  exact ⟨h.2, isEscape_of_isScalar (isScalar_of_mem_decodeReplaceFrom h.1)⟩

/-! ## Where the session lands -/

section
variable {rest : List (List Byte)} {p : List Byte}

/-- What is left of `$HOME` by `rstrip('/')`. -/
def hostRoot (home : List Byte) : List Byte := if home = [slash] then [] else home

theorem rstripSlash_of_getLast? {path : PyStr} (h : path.getLast? ≠ some 47) : rstripSlash path = path := by
  cases path using List.reverseRecOn with
  | nil => rfl
  | append_singleton path c =>
    rw [List.getLast?_concat] at h
    have hc : isSlash c = false := by
      rw [isSlash, beq_eq_false_iff_ne]
      exact fun h47 => h (congrArg some h47)
    rw [rstripSlash, List.reverse_append, List.reverse_singleton, List.singleton_append,
      List.dropWhile_cons_of_neg (by simp [hc]), List.reverse_cons, List.reverse_reverse]

theorem rstripSlash_decode {home : List Byte} (h : home = [slash] ∨ CleanBytes home) :
    rstripSlash (decode home) = decode (hostRoot home) := by
  by_cases hroot : home = [slash]
  · subst hroot
    rfl
  · obtain ⟨ns, hne, hns, rfl⟩ := h.resolve_left hroot
    rw [hostRoot, if_neg hroot, decode_spell]
    refine rstripSlash_of_getLast? ?_
    cases ns using List.reverseRecOn with
    | nil => exact absurd rfl hne
    | append_singleton ns n =>
      have hn := (hns n (by simp)).decode
      rw [List.map_append, List.map_singleton, ofNames_concat, List.append_cons]
      exact hn.getLast? _

theorem mirror_decode {home : List Byte} (hhome : home = [slash] ∨ CleanBytes home) (realpath : PyStr)
    (hcwd : hostRoot home ++ spell rest ≠ []) :
    mirror (decode home) realpath (decode (hostRoot home ++ spell rest)) = some (decode (mirrored rest)) := by
  have hturn : mirrorFrom (decode (hostRoot home ++ spell rest)) (decode (hostRoot home))
      = some (decode (mirrored rest)) := by
    rw [decode_append_spell, decode_mirrored, mirrorFrom]
    cases rest with
    | nil => simp
    | cons n rest =>
      have hmore : decode (hostRoot home) ++ ofNames ((n :: rest).map decode)
          = (decode (hostRoot home) ++ [47]) ++ (decode n ++ ofNames (rest.map decode)) := by
        simp
      have hne : decode (hostRoot home) ++ ofNames ((n :: rest).map decode) ≠ decode (hostRoot home) := by
        intro heq
        have hlen := congrArg List.length heq
        simp at hlen
      rw [if_neg hne, hmore, if_pos (startswith_append _ _)]
      simp
  rw [mirror, rstripSlash_decode hhome, List.findSome?_cons, hturn]

/-- The exit status and the output of `landing-dir` there. -/
theorem cmdLandingDir_mirrored {g : Guest} (hrest : ∀ n ∈ rest, slash ∉ n) (hp : Deepest g.isDir rest p) :
    cmdLandingDir g (mirrored rest) = some (0, p ++ [10]) := by
  have hhead : (mirrored rest).head? = some slash := by
    have hhome : ascii AGENT_HOME = slash :: (ascii AGENT_HOME).tail := by decide
    rw [mirrored, hhome]
    rfl
  have hne : p ≠ [] := by
    obtain ⟨k, -, rfl, -⟩ := hp
    exact mirrored_ne_nil _
  rw [cmdLandingDir, if_neg (mirrored_ne_nil _), if_neg (by simp [hhead]), walkUp_mirrored hrest hp,
    Option.map_some, if_neg hne]

/-- **The landing, through every hop** but the capture of the output. -/
theorem dirForCwd_eq {home : List Byte} (hhome : home = [slash] ∨ CleanBytes home) (realpath : PyStr)
    (hrest : ∀ n ∈ rest, IsFileName n) (hcwd : hostRoot home ++ spell rest ≠ []) {g : Guest}
    (hp : Deepest g.isDir rest p) :
    dirForCwd (decode home) realpath (decode (hostRoot home ++ spell rest)) g
      = landOn (decode (mirrored rest)) (0, p ++ [10]) := by
  obtain ⟨line, hline, hssh⟩ := ssh_join g (encode_decode (mirrored rest))
  rw [dirForCwd, mirror_decode hhome realpath hcwd]
  simp only [hline, hssh, cmdLandingDir_mirrored (fun n hn => (hrest n hn).slash) hp]

theorem decode_mirrored_names (rest : List (List Byte)) :
    decode (mirrored rest) = ofNames ([lit "home", lit "agent"] ++ rest.map decode) := by
  rw [decode_mirrored, ofNames_append]
  rfl

theorem not_mem_decode_mirrored {k : ℕ} (hk : k < 0x80) (hhome : k ∉ AGENT_HOME)
    (hslash : Fin.ofNat 256 k ≠ slash) (hrest : ∀ n ∈ rest, Fin.ofNat 256 k ∉ n) :
    k ∉ decode (mirrored rest) := by
  rw [ascii_mem_decode hk, mirrored, List.mem_append, ← ascii_mem_decode hk, decode_ascii (by decide)]
  rintro (hmem | hmem)
  · exact hhome hmem
  · obtain ⟨n, hn, hmem⟩ := List.mem_flatMap.mp hmem
    rcases List.mem_cons.mp hmem with heq | hmem
    · exact hslash heq
    · exact hrest n hn hmem

/-- A clean path at or below the agent's home is let through. -/
theorem guestPath_mirrored (hrest : ∀ n ∈ rest, IsFileName n ∧ 10 ∉ n) :
    guestPath (decode (mirrored rest)) [AGENT_HOME] = .ok (decode (mirrored rest)) := by
  have hnul : 0 ∉ decode (mirrored rest) :=
    not_mem_decode_mirrored (by decide) (by decide) (by decide) fun n hn => (hrest n hn).1.nul
  have hnewline : 10 ∉ decode (mirrored rest) :=
    not_mem_decode_mirrored (by decide) (by decide) (by decide) fun n hn => (hrest n hn).2
  have hnormal : normpath (decode (mirrored rest)) = decode (mirrored rest) := by
    rw [decode_mirrored_names]
    refine normpath_ofNames ?_ (by simp)
    rw [List.forall_mem_append]
    exact ⟨by decide, forall_isName_decode fun n hn => (hrest n hn).1⟩
  have hroot : (decode (mirrored rest) == AGENT_HOME
      || startswith (decode (mirrored rest)) (AGENT_HOME ++ [47])) = true := by
    rw [decode_mirrored, Bool.or_eq_true, beq_iff_eq]
    cases rest with
    | nil => exact .inl (by simp)
    | cons n rest =>
      refine .inr (startswith_iff.mpr ⟨decode n ++ ofNames (rest.map decode), ?_⟩)
      simp
  unfold guestPath
  simp only [hnul, hnewline, or_self, if_false, hnormal, List.any_cons, List.any_nil, Bool.or_false,
    hroot, if_true]

/-- **The deepest directory is where the session lands**, exactly where its path is UTF-8
without a carriage return. -/
theorem dirForCwd_iff {home : List Byte} (hhome : home = [slash] ∨ CleanBytes home) (realpath : PyStr)
    (hrest : ∀ n ∈ rest, IsFileName n ∧ 10 ∉ n) (hcwd : hostRoot home ++ spell rest ≠ []) {g : Guest}
    (hp : Deepest g.isDir rest p) :
    (∃ missing, dirForCwd (decode home) realpath (decode (hostRoot home ++ spell rest)) g
        = .ok ⟨decode p, missing⟩) ↔ Plain p := by
  rw [dirForCwd_eq hhome realpath (fun n hn => (hrest n hn).1) hcwd hp]
  obtain ⟨k, hk, rfl, -, -⟩ := hp
  have htaken : ∀ n ∈ rest.take k, IsFileName n ∧ 10 ∉ n := fun n hn => hrest n (List.mem_of_mem_take hn)
  constructor
  · rintro ⟨missing, hland⟩ c hc
    unfold landOn at hland
    rw [if_neg (by simp)] at hland
    cases hpath : guestPath (stripNewlines (captured (mirrored (rest.take k) ++ [10]))) [AGENT_HOME] with
    | error refusal => simp [hpath] at hland
    | ok landing =>
      simp only [hpath, Except.ok.injEq, Landing.mk.injEq] at hland
      unfold guestPath at hpath
      simp only at hpath
      split_ifs at hpath with hbytes hroot
      rw [Except.ok.injEq] at hpath
      rw [← hland.1, ← hpath] at hc
      rcases mem_normpath hc with rfl | rfl | hc
      · decide
      · decide
      · exact of_mem_captured (mem_stripNewlines hc)
  · intro hplain
    have hline : 10 ∉ decode (mirrored (rest.take k)) :=
      not_mem_decode_mirrored (by decide) (by decide) (by decide) fun n hn => (htaken n hn).2
    unfold landOn
    rw [if_neg (by simp), captured_of_plain hplain, stripNewlines_line hline, guestPath_mirrored htaken]
    exact ⟨_, rfl⟩

end

/-- A home on the host. -/
def hostHome : List Byte := spell [ascii (lit "home"), ascii (lit "op")]

theorem hostHome_clean : CleanBytes hostHome :=
  ⟨[ascii (lit "home"), ascii (lit "op")], by simp,
    by simpa using ⟨⟨by decide, by decide, by decide, by decide, by decide⟩,
      ⟨by decide, by decide, by decide, by decide, by decide⟩⟩, rfl⟩

/-- A guest where every path is a directory. -/
def fullGuest : Guest := ⟨ascii AGENT_HOME, fun _ => true⟩

theorem deepest_full (rest : List (List Byte)) : Deepest fullGuest.isDir rest (mirrored rest) :=
  ⟨rest.length, le_rfl, by rw [List.take_length], rfl, fun j hj hlen => absurd hlen (by omega)⟩

/-- `a`, a carriage return, `b`. -/
def crName : List Byte := [97, 13, 98]

theorem crName_isFileName : IsFileName crName ∧ 10 ∉ crName :=
  ⟨⟨by decide, by decide, by decide, by decide, by decide⟩, by decide⟩

/-- From `~/a\rb` the session lands in `/home/agent/ab`, which is not the mirror. -/
theorem dirForCwd_carriageReturn :
    (CleanBytes hostHome ∧ (IsFileName crName ∧ 10 ∉ crName) ∧
      Deepest fullGuest.isDir [crName] (mirrored [crName])) ∧
    dirForCwd (decode hostHome) [] (decode (hostRoot hostHome ++ spell [crName])) fullGuest
      = .ok ⟨lit "/home/agent/ab", some (decode (mirrored [crName]), lit "/home/agent/ab")⟩ ∧
    lit "/home/agent/ab" ≠ decode (mirrored [crName]) := by
  refine ⟨⟨hostHome_clean, crName_isFileName, deepest_full _⟩, ?_, by decide⟩
  have hrest : ∀ n ∈ [crName], IsFileName n := by simpa using crName_isFileName.1
  rw [dirForCwd_eq (.inr hostHome_clean) [] hrest (by decide) (deepest_full _)]
  decide

/-- A directory with a plain name. -/
theorem dirForCwd_iff_plain :
    Plain (mirrored [ascii (lit "a b")]) ∧
    ((∃ missing, dirForCwd (decode hostHome) [] (decode (hostRoot hostHome ++ spell [ascii (lit "a b")]))
        fullGuest = .ok ⟨decode (mirrored [ascii (lit "a b")]), missing⟩)
      ↔ Plain (mirrored [ascii (lit "a b")])) := by
  have hrest : ∀ n ∈ [ascii (lit "a b")], IsFileName n ∧ 10 ∉ n := by
    simpa using ⟨⟨by decide, by decide, by decide, by decide, by decide⟩, by decide⟩
  have hplain : Plain (mirrored [ascii (lit "a b")]) := by
    unfold Plain
    decide
  exact ⟨hplain, dirForCwd_iff (.inr hostHome_clean) [] hrest (by decide) (deepest_full _)⟩

end Paths
