/-
# The flake ref of a build

`flake_ref` of `yolobox_cli/release.py`, the check of `flake.nix`, the stamp that
`nix/base.nix` writes and `rebuild` of `nix/guest/yolobox-guest.sh`, which reads it: three
programs that each match the ref with their own pattern.
-/
import Yolobox.Lines
import Yolobox.Lib.Regex
import Yolobox.Lib.Lists

open Regex RegularExpression

namespace Release

/-! ## Patterns of `release.py` -/

def UPSTREAM_FLAKE : PyStr := lit "github:aka-rider/yolobox"

/-- `\d+` -/
def number : RegularExpression ℕ := many1 (oneOf digitChars)

/-- `v?(\d+\.\d+\.\d+)`, its one group the second factor. -/
def RELEASE_VERSION_RE : List (RegularExpression ℕ) :=
  [opt (literal (lit "v")), number * literal (lit ".") * number * literal (lit ".") * number]

/-- `v?\d+(\.\d+)?` -/
def PARTIAL_VERSION_RE : RegularExpression ℕ :=
  opt (literal (lit "v")) * number * opt (literal (lit ".") * number)

/-- `[A-Za-z0-9][A-Za-z0-9._-]*` -/
def GIT_REF_RE : RegularExpression ℕ := oneOf alnumChars * star (oneOf nameChars)

/-- `github:[A-Za-z0-9._-]+/[A-Za-z0-9._-]+/%s` of the pattern above. -/
def GITHUB_FLAKE_RE : RegularExpression ℕ :=
  literal (lit "github:") * many1 (oneOf nameChars) * literal (lit "/") * many1 (oneOf nameChars) *
    literal (lit "/") * GIT_REF_RE

/-- `github:aka-rider/yolobox/v(\d+)\.(\d+)\.(\d+)`, its groups every second factor. -/
def UPSTREAM_RELEASE_RE : List (RegularExpression ℕ) :=
  [literal (UPSTREAM_FLAKE ++ lit "/v"), number, literal (lit "."), number, literal (lit "."), number]

/-- `(1, 9, 2)` -/
def FIRST_HOST_OS_FREE_RELEASE : List ℕ := [1, 9, 2]

/-! ## `flake_ref` -/

/-- What `flake_ref` raises: its `YoError`s, and the `ValueError` of `int`. -/
inductive Raised
  | unreleased                     -- "this yo (%s) is an unreleased build with no release it can build …"
  | oldRelease (old : PyStr)       -- "cannot build release %s, …"
  | notATriple (version : PyStr)   -- "a release is X.Y.Z, got %r"
  | noLatest                       -- "there is no latest ref; omit --version …"
  | notARef (version : PyStr)      -- "--version must be a release (1.7.2), a branch or tag … got %r"
  | valueError
  deriving DecidableEq

/-- `int` of a text of digits; more than `sys.get_int_max_str_digits()` are an error. -/
def int (text : PyStr) : Except Raised ℕ :=
  if 4300 < text.length then .error .valueError else .ok (num text)

/-- `named_flake_ref` -/
def namedFlakeRef (version : PyStr) : Except Raised PyStr :=
  match fullmatch RELEASE_VERSION_RE version with
  | some groups => .ok (UPSTREAM_FLAKE ++ lit "/v" ++ groups.getD 1 [])
  | none =>
    if PARTIAL_VERSION_RE.rmatch version then .error (.notATriple version)
    else if version = lit "latest" then .error .noLatest
    else if GIT_REF_RE.rmatch version then .ok (UPSTREAM_FLAKE ++ lit "/" ++ version)
    else if GITHUB_FLAKE_RE.rmatch version then .ok version
    else .error (.notARef version)

/-- `old_release` -/
def oldRelease (ref : PyStr) : Except Raised (Option PyStr) :=
  match fullmatchIgnoringCase lowerChar UPSTREAM_RELEASE_RE ref with
  | none => .ok none
  | some groups => do
    let parts ← [groups.getD 1 [], groups.getD 3 [], groups.getD 5 []].mapM int
    if FIRST_HOST_OS_FREE_RELEASE ≤ parts then return none
    return some ((lit ".").intercalate (parts.map dec))

/-- `own_release_ref` -/
def ownReleaseRef (YO_VERSION : PyStr) : Except Raised (Option PyStr) :=
  if YO_VERSION = lit "dev" then .ok none
  else do
    let ref := UPSTREAM_FLAKE ++ lit "/v" ++ YO_VERSION
    let old ← oldRelease ref
    return if old.isSome then none else some ref

/-- `flake_ref` -/
def flakeRef (YO_VERSION : PyStr) : Option PyStr → Except Raised PyStr
  | none => do
    match ← ownReleaseRef YO_VERSION with
    | none => throw .unreleased
    | some own => return own
  | some version => do
    let ref ← namedFlakeRef version
    match ← oldRelease ref with
    | some old => throw (.oldRelease old)
    | none => return ref

/-- `text.rsplit("/", 1)[0]` -/
def beforeLastSlash (text : PyStr) : PyStr :=
  if 47 ∈ text then (text.rdropWhile fun c => c != 47).dropLast else text

/-- `pinned_ref` -/
def pinnedRef (ref rev : PyStr) : PyStr := beforeLastSlash ref ++ lit "/" ++ rev

/-- `COMMIT_RE`: `[0-9a-f]{40}`. -/
def isCommit (rev : PyStr) : Bool :=
  rev.length == 40 && rev.all fun c => isDigit c || (97 ≤ c && c ≤ 102)

/-! ## `flake.nix` -/

/-- `flakeRef` of `flake.nix`, from `$YOLOBOX_FLAKE_REF`; `none` is a `throw`. -/
def nixFlakeRef (r : PyStr) : Option PyStr :=
  let pattern := literal (lit "github:") * many1 (oneOf nameChars) * literal (lit "/") *
    many1 (oneOf nameChars) * literal (lit "/") * (oneOf alnumChars * star (oneOf nameChars))
  if pattern.rmatch r then some r else none

/-- `/etc/yolobox/flake-ref` of `nix/base.nix`. -/
def stamp (flakeRef : PyStr) : PyStr := flakeRef ++ [10]

/-! ## `yolobox-guest rebuild` -/

/-- The pattern of the script; `^` and `$` hold at the ends of the text only. -/
def FLAKE_REF_RE : RegularExpression ℕ :=
  literal (lit "github:") * many1 (oneOf nameChars) * literal (lit "/") * many1 (oneOf nameChars) *
    literal (lit "/") * (oneOf alnumChars * star (oneOf nameChars))

/-- The lines that `while IFS= read -r line || [ -n "${line}" ]` sees: `read` drops NULs. -/
def readLines (text : PyStr) : List PyStr := fileLines (text.filter (· ≠ 0))

/-- `read_stamp` of a file; `none` is a missing file, or a failure. -/
def readStamp (file : Option PyStr) : Option PyStr := do
  let lines := readLines (← file)
  let value := lines.getLast?.getD []
  if lines.length ≠ 1 ∨ value = [] then none else some value

/-- The ref that `cmd_rebuild` reads from `flake-ref`. -/
def stampedRef (file : Option PyStr) : Option PyStr := do
  let ref ← readStamp file
  if FLAKE_REF_RE.rmatch ref then some ref else none

/-- `YOLOBOX_STAMPS`. -/
structure Stamps where
  flakeRef : Option PyStr
  hostname : Option PyStr

/-- The `nixos-rebuild` that `cmd_rebuild` ends in, or its exit code. -/
def rebuildArgv (args : List PyStr) (uid user : PyStr) (stamps : Stamps) : Except ℕ (List PyStr) :=
  if args ≠ [lit "switch"] ∧ args ≠ [lit "boot"] then .error 2
  else if uid ≠ lit "501" then .error 2
  else match stampedRef stamps.flakeRef with
    | none => .error 1
    | some ref => match readStamp stamps.hostname with
      | none => .error 1
      | some host => .ok [lit "sudo", lit "env", lit "YOLOBOX_USERNAME=" ++ user,
          lit "YOLOBOX_HOSTNAME=" ++ host, lit "YOLOBOX_FLAKE_REF=" ++ ref, lit "flock", lit "-n",
          lit "-E", lit "75", lit "/run/yolobox-rebuild.lock", lit "nixos-rebuild", args.headD [],
          lit "--impure", lit "--refresh", lit "--flake", ref ++ lit "#yolobox"]

/-! ## Refs -/

/-- `[A-Za-z0-9._-]+` -/
def IsRepoName (name : PyStr) : Prop := name ≠ [] ∧ ∀ c ∈ name, c ∈ nameChars

/-- `[A-Za-z0-9][A-Za-z0-9._-]*` -/
def IsGitRef (ref : PyStr) : Prop := ∃ c rest, ref = c :: rest ∧ c ∈ alnumChars ∧ ∀ d ∈ rest, d ∈ nameChars

/-- `\d+` -/
def IsNumber (part : PyStr) : Prop := part ≠ [] ∧ ∀ c ∈ part, isDigit c = true

/-- `github:OWNER/REPO/REF` -/
def refOf (OWNER REPO REF : PyStr) : PyStr := lit "github:" ++ OWNER ++ lit "/" ++ REPO ++ lit "/" ++ REF

/-- The ref is the upstream release of that version, in some spelling of owner and
repository. -/
def IsRelease (ref : PyStr) (version : List ℕ) : Prop :=
  ∃ OWNER REPO major minor patch : PyStr,
    ref = refOf OWNER REPO (lit "v" ++ major ++ lit "." ++ minor ++ lit "." ++ patch) ∧
    lower OWNER = lit "aka-rider" ∧ lower REPO = lit "yolobox" ∧
    IsNumber major ∧ IsNumber minor ∧ IsNumber patch ∧
    version = [num major, num minor, num patch]

/-- A ref that every program takes for the same tree. -/
structure Built (YO_VERSION r OWNER REPO REF : PyStr) : Prop where
  spelled : r = refOf OWNER REPO REF
  owner : IsRepoName OWNER
  repo : IsRepoName REPO
  ref : IsGitRef REF
  nix : nixFlakeRef r = some r
  stamped : stampedRef (some (stamp r)) = some r
  oneAttribute : 35 ∉ r
  oneWord : ∀ c ∈ r, isSpace c = false
  oneScheme : r.count 58 = 1
  notOld : ∀ version, IsRelease r version → FIRST_HOST_OS_FREE_RELEASE ≤ version
  again : flakeRef YO_VERSION (some r) = .ok r
  pinned : ∀ rev, isCommit rev = true → pinnedRef r rev = refOf OWNER REPO rev ∧
    nixFlakeRef (pinnedRef r rev) = some (pinnedRef r rev)

variable {YO_VERSION version r OWNER REPO REF : PyStr}

/-! ## The three patterns -/

theorem gitRef_rmatch_iff : GIT_REF_RE.rmatch version = true ↔ IsGitRef version := word_rmatch_iff

theorem githubFlake_rmatch_iff : GITHUB_FLAKE_RE.rmatch r = true ↔
    ∃ OWNER REPO REF, r = refOf OWNER REPO REF ∧ IsRepoName OWNER ∧ IsRepoName REPO ∧ IsGitRef REF := by
  unfold GITHUB_FLAKE_RE
  simp only [mul_rmatch_iff, literal_rmatch_iff, many1_oneOf_rmatch_iff, gitRef_rmatch_iff]
  constructor
  · rintro ⟨_, REF, rfl, ⟨_, _, rfl, ⟨_, REPO, rfl, ⟨_, _, rfl, ⟨_, OWNER, rfl, rfl, howner⟩, rfl⟩, hrepo⟩, rfl⟩, href⟩
    exact ⟨OWNER, REPO, REF, rfl, howner, hrepo, href⟩
  · rintro ⟨OWNER, REPO, REF, rfl, howner, hrepo, href⟩
    exact ⟨_, REF, rfl, ⟨_, _, rfl, ⟨_, REPO, rfl, ⟨_, _, rfl, ⟨_, OWNER, rfl, rfl, howner⟩, rfl⟩, hrepo⟩, rfl⟩, href⟩

/-- The pattern of `flake.nix` is the one of `release.py`, and so is the script's. -/
theorem nixFlakeRef_eq (r : PyStr) : nixFlakeRef r = if GITHUB_FLAKE_RE.rmatch r then some r else none := rfl

theorem FLAKE_REF_RE_eq : FLAKE_REF_RE = GITHUB_FLAKE_RE := rfl

/-! ## Characters -/

theorem IsGitRef.mem_nameChars (h : IsGitRef REF) : ∀ c ∈ REF, c ∈ nameChars := by
  obtain ⟨c, rest, rfl, hc, hrest⟩ := h
  exact List.forall_mem_cons.mpr ⟨List.mem_append_left _ hc, hrest⟩

theorem release_groups {groups : List PyStr} (h : fullmatch RELEASE_VERSION_RE version = some groups) :
    ∃ v triple, version = v ++ triple ∧ groups = [v, triple] ∧ (v = [] ∨ v = lit "v") ∧
      (number * literal (lit ".") * number * literal (lit ".") * number).rmatch triple = true := by
  obtain ⟨hflat, hall⟩ := fullmatch_sound h
  obtain ⟨v, rest, hv, hrest, rfl⟩ := List.forall₂_cons_left_iff.mp hall
  obtain ⟨triple, rest, htriple, hnil, rfl⟩ := List.forall₂_cons_left_iff.mp hrest
  rw [List.forall₂_nil_left_iff] at hnil
  subst hnil
  refine ⟨v, triple, ?_, rfl, ?_, htriple⟩
  · rw [← hflat, List.flatten_cons, List.flatten_cons, List.flatten_nil, List.append_nil]
  · rwa [opt_rmatch_iff, literal_rmatch_iff] at hv

/-- A text with a colon is a full ref or nothing. -/
theorem namedFlakeRef_of_colon (hcolon : 58 ∈ version) :
    namedFlakeRef version = if GITHUB_FLAKE_RE.rmatch version then .ok version else .error (.notARef version) := by
  have hnot : ∀ P : RegularExpression ℕ, 58 ∉ symbols P → ¬P.rmatch version = true :=
    fun P hP h => hP (mem_symbols h 58 hcolon)
  have hlatest : version ≠ lit "latest" := by
    rintro rfl
    exact absurd hcolon (by decide)
  unfold namedFlakeRef
  rw [if_neg (hnot _ (by decide)), if_neg hlatest, if_neg (hnot _ (by decide))]
  cases hrelease : fullmatch RELEASE_VERSION_RE version with
  | none => rfl
  | some groups =>
    obtain ⟨v, triple, rfl, -, hv, htriple⟩ := release_groups hrelease
    rcases List.mem_append.mp hcolon with hmem | hmem
    · rcases hv with rfl | rfl
      · exact absurd hmem List.not_mem_nil
      · exact absurd hmem (by decide)
    · exact absurd (mem_symbols htriple 58 hmem) (by decide)

/-- What `named_flake_ref` returns is a full ref. -/
theorem githubFlake_of_named (h : namedFlakeRef version = .ok r) : GITHUB_FLAKE_RE.rmatch r = true := by
  have hupstream : ∀ {REF : PyStr}, IsGitRef REF →
      GITHUB_FLAKE_RE.rmatch (UPSTREAM_FLAKE ++ lit "/" ++ REF) = true := by
    intro REF href
    have howner : IsRepoName (lit "aka-rider") := ⟨by decide, by decide⟩
    have hrepo : IsRepoName (lit "yolobox") := ⟨by decide, by decide⟩
    exact githubFlake_rmatch_iff.mpr ⟨_, _, REF, rfl, howner, hrepo, href⟩
  unfold namedFlakeRef at h
  split at h
  · rename_i groups hgroups
    obtain ⟨v, triple, -, rfl, -, htriple⟩ := release_groups hgroups
    obtain rfl := Except.ok.inj h
    have hchars : ∀ c ∈ symbols (number * literal (lit ".") * number * literal (lit ".") * number),
        c ∈ nameChars := by decide
    exact hupstream ⟨118, triple, rfl, by decide, fun c hc => hchars c (mem_symbols htriple c hc)⟩
  · split_ifs at h with hpartial hlatest hgit hfull
    · obtain rfl := Except.ok.inj h
      exact hupstream (gitRef_rmatch_iff.mp hgit)
    · obtain rfl := Except.ok.inj h
      exact hfull

theorem count_refOf (howner : IsRepoName OWNER) (hrepo : IsRepoName REPO) (href : IsGitRef REF) :
    (refOf OWNER REPO REF).count 58 = 1 := by
  have hcolon : 58 ∉ nameChars := by decide
  unfold refOf
  rw [List.count_append, List.count_append, List.count_append, List.count_append, List.count_append,
    List.count_eq_zero_of_not_mem fun h => hcolon (howner.2 _ h),
    List.count_eq_zero_of_not_mem fun h => hcolon (hrepo.2 _ h),
    List.count_eq_zero_of_not_mem fun h => hcolon (href.mem_nameChars _ h)]
  rfl

/-- What `rsplit` leaves of a ref. -/
theorem pinnedRef_refOf (href : 47 ∉ REF) (rev : PyStr) :
    pinnedRef (refOf OWNER REPO REF) rev = refOf OWNER REPO rev := by
  have hall : ∀ c ∈ REF.reverse, (c != 47) = true := by
    intro c hc
    rw [bne_iff_ne]
    rintro rfl
    exact href (List.mem_reverse.mp hc)
  have hslash : lit "/" = [47] := rfl
  have hmem : 47 ∈ refOf OWNER REPO REF := by
    unfold refOf
    rw [hslash]
    exact List.mem_append_left _ (List.mem_append_right _ List.mem_cons_self)
  unfold pinnedRef beforeLastSlash
  rw [if_pos hmem]
  unfold refOf
  rw [List.rdropWhile, List.reverse_append, List.dropWhile_append_of_pos hall, hslash,
    List.reverse_append, List.reverse_singleton, List.singleton_append, List.dropWhile_cons_of_neg (by decide),
    List.reverse_cons, List.dropLast_concat, List.reverse_reverse]

/-! ## The stamp -/

theorem readStamp_stamp (hne : r ≠ []) (hline : ∀ c ∈ r, c ≠ 0 ∧ c ≠ 10) : readStamp (some (stamp r)) = some r := by
  have hkeep : (stamp r).filter (· ≠ 0) = r ++ [10] := by
    rw [stamp, List.filter_append, List.filter_eq_self.mpr fun c hc => decide_eq_true (hline c hc).1]
    rfl
  have hlines : readLines (stamp r) = [r] := by
    have hone : ∀ line ∈ [r], 10 ∉ line := by
      rintro line hline' hmem
      rw [List.mem_singleton.mp hline'] at hmem
      exact (hline 10 hmem).2 rfl
    have hunlines : r ++ [10] = unlines [r] := by rw [unlines_cons, unlines_nil]
    rw [readLines, hkeep, hunlines, fileLines_unlines hone]
  show (if (readLines (stamp r)).length ≠ 1 ∨ (readLines (stamp r)).getLast?.getD [] = [] then none
    else some ((readLines (stamp r)).getLast?.getD [])) = some r
  rw [hlines, if_neg]
  · rfl
  · rintro (hlength | hempty)
    · exact hlength rfl
    · exact hne hempty

theorem stampedRef_stamp (h : GITHUB_FLAKE_RE.rmatch r = true) : stampedRef (some (stamp r)) = some r := by
  have hline : ∀ c ∈ symbols GITHUB_FLAKE_RE, c ≠ 0 ∧ c ≠ 10 := by decide +kernel
  have hne : r ≠ [] := by
    rintro rfl
    exact absurd h (by decide)
  have hread : readStamp (some (stamp r)) = some r := readStamp_stamp hne fun c hc => hline c (mem_symbols h c hc)
  unfold stampedRef
  rw [hread]
  show (if FLAKE_REF_RE.rmatch _ = true then _ else _) = _
  rw [FLAKE_REF_RE_eq, if_pos h]

/-- **A rebuild in the box** builds a full ref whatever the stamps hold: the one that
`flake-ref` holds. -/
theorem rebuildArgv_flake {args argv : List PyStr} {uid user : PyStr} {stamps : Stamps}
    (h : rebuildArgv args uid user stamps = .ok argv) :
    ∃ r, GITHUB_FLAKE_RE.rmatch r = true ∧ stampedRef stamps.flakeRef = some r ∧
      argv.getLast? = some (r ++ lit "#yolobox") := by
  have hread : ∀ {file : Option PyStr} {ref : PyStr}, stampedRef file = some ref →
      GITHUB_FLAKE_RE.rmatch ref = true := by
    intro file ref hstamped
    unfold stampedRef at hstamped
    rw [Option.bind_eq_bind, Option.bind_eq_some_iff] at hstamped
    obtain ⟨read, -, hchecked⟩ := hstamped
    split_ifs at hchecked with hmatch
    rwa [Option.some.inj hchecked] at hmatch
  unfold rebuildArgv at h
  split_ifs at h with hargs huid
  cases hstamped : stampedRef stamps.flakeRef with
  | none =>
    rw [hstamped] at h
    exact absurd h nofun
  | some ref =>
    cases hhost : readStamp stamps.hostname with
    | none =>
      rw [hstamped, hhost] at h
      exact absurd h nofun
    | some host =>
      rw [hstamped, hhost] at h
      rw [← Except.ok.inj h]
      exact ⟨ref, hread hstamped, rfl, rfl⟩

/-! ## Old releases -/

theorem number_ignoringCase_iff {part : PyStr} :
    (map lowerChar number).rmatch (part.map lowerChar) = true ↔ IsNumber part := by
  have hdigits : digitChars.map lowerChar = digitChars := by decide
  have hlower : ∀ c, isDigit (lowerChar c) = isDigit c := by
    intro c
    unfold lowerChar
    split_ifs with hupper
    · rw [Bool.eq_iff_iff]
      simp only [isDigit, Bool.and_eq_true, decide_eq_true_eq]
      omega
    · rfl
  rw [number, map_many1, map_oneOf, hdigits, many1_oneOf_rmatch_iff, IsNumber, ne_eq, List.map_eq_nil_iff]
  simp only [List.forall_mem_map, mem_digitChars, hlower]

theorem dot_ignoringCase_iff {part : PyStr} :
    (map lowerChar (literal (lit "."))).rmatch (part.map lowerChar) = true ↔ part = lit "." := by
  rw [map_literal, literal_rmatch_iff]
  constructor
  · intro h
    obtain ⟨c, rfl⟩ := List.length_eq_one_iff.mp ((List.length_map _).symm.trans (congrArg List.length h))
    have hc : lowerChar c = 46 := (List.cons.inj h).1
    unfold lowerChar at hc
    split_ifs at hc
    · omega
    · rw [hc]
      rfl
  · rintro rfl
    rfl

/-- The groups of an upstream release. -/
theorem upstream_groups_iff {groups : List PyStr} :
    List.Forall₂ (fun P part => (map lowerChar P).rmatch (part.map lowerChar) = true) UPSTREAM_RELEASE_RE groups ↔
      ∃ start major minor patch, groups = [start, major, lit ".", minor, lit ".", patch] ∧
        lower start = UPSTREAM_FLAKE ++ lit "/v" ∧ IsNumber major ∧ IsNumber minor ∧ IsNumber patch := by
  have hlower : (UPSTREAM_FLAKE ++ lit "/v").map lowerChar = UPSTREAM_FLAKE ++ lit "/v" := by decide
  have hstart : ∀ part : PyStr, (map lowerChar (literal (UPSTREAM_FLAKE ++ lit "/v"))).rmatch (part.map lowerChar) = true ↔
      lower part = UPSTREAM_FLAKE ++ lit "/v" := by
    intro part
    rw [map_literal, literal_rmatch_iff, hlower]
    rfl
  unfold UPSTREAM_RELEASE_RE
  simp only [List.forall₂_cons_left_iff, List.forall₂_nil_left_iff, number_ignoringCase_iff,
    dot_ignoringCase_iff, hstart]
  constructor
  · rintro ⟨start, _, hstart, ⟨major, _, hmajor, ⟨_, _, rfl, ⟨minor, _, hminor, ⟨_, _, rfl,
      ⟨patch, _, hpatch, rfl, rfl⟩, rfl⟩, rfl⟩, rfl⟩, rfl⟩, rfl⟩
    exact ⟨start, major, minor, patch, rfl, hstart, hmajor, hminor, hpatch⟩
  · rintro ⟨start, major, minor, patch, rfl, hstart, hmajor, hminor, hpatch⟩
    exact ⟨start, _, hstart, ⟨major, _, hmajor, ⟨_, _, rfl, ⟨minor, _, hminor, ⟨_, _, rfl,
      ⟨patch, _, hpatch, rfl, rfl⟩, rfl⟩, rfl⟩, rfl⟩, rfl⟩, rfl⟩

theorem IsNumber.dot_notMem {part : PyStr} (h : IsNumber part) : 46 ∉ part :=
  fun hmem => absurd (h.2 46 hmem) (by decide)

/-- The parts of a version are what stands between its dots. -/
theorem splitOn_version {major minor patch : PyStr} (hmajor : IsNumber major) (hminor : IsNumber minor)
    (hpatch : IsNumber patch) :
    (major ++ lit "." ++ minor ++ lit "." ++ patch).splitOn 46 = [major, minor, patch] := by
  refine (Lists.splitOn_eq_iff (List.cons_ne_nil _ _)).mpr ⟨?_, ?_⟩
  · show _ = major ++ (lit "." ++ (minor ++ (lit "." ++ (patch ++ []))))
    simp only [List.append_assoc, List.append_nil]
  · intro part hpart
    simp only [List.mem_cons, List.not_mem_nil, or_false] at hpart
    rcases hpart with rfl | rfl | rfl
    · exact hmajor.dot_notMem
    · exact hminor.dot_notMem
    · exact hpatch.dot_notMem

theorem mapM_int {texts : List PyStr} {parts : List ℕ} (h : texts.mapM int = .ok parts) : parts = texts.map num := by
  induction texts generalizing parts with
  | nil => exact (Except.ok.inj h).symm
  | cons text texts ih =>
    rw [List.mapM_cons, int] at h
    split_ifs at h with hlong
    · exact absurd h (by simp [bind, Except.bind])
    · cases hrest : texts.mapM int with
      | error why =>
        rw [hrest] at h
        exact absurd h (by simp [bind, Except.bind])
      | ok rest =>
        rw [hrest] at h
        rw [← Except.ok.inj h, List.map_cons, ih hrest]

/-- A release is one in every spelling of its owner and its repository. -/
theorem oldRelease_eq {parts : List ℕ} (h : IsRelease r parts) (hnone : oldRelease r = .ok none) :
    FIRST_HOST_OS_FREE_RELEASE ≤ parts := by
  obtain ⟨OWNER, REPO, major, minor, patch, rfl, howner, hrepo, hmajor, hminor, hpatch, rfl⟩ := h
  have hstart : lower (lit "github:" ++ OWNER ++ lit "/" ++ REPO ++ lit "/v") = UPSTREAM_FLAKE ++ lit "/v" := by
    rw [lower_append, lower_append, lower_append, lower_append, howner, hrepo]
    decide
  have hflat : refOf OWNER REPO (lit "v" ++ major ++ lit "." ++ minor ++ lit "." ++ patch) =
      [lit "github:" ++ OWNER ++ lit "/" ++ REPO ++ lit "/v", major, lit ".", minor, lit ".", patch].flatten := by
    have hslash : lit "/v" = lit "/" ++ lit "v" := rfl
    rw [hslash]
    simp only [refOf, List.flatten_cons, List.flatten_nil, List.append_assoc, List.append_nil]
  obtain ⟨groups, hgroups⟩ := exists_fullmatchIgnoringCase
    (upstream_groups_iff.mpr ⟨_, major, minor, patch, rfl, hstart, hmajor, hminor, hpatch⟩)
  obtain ⟨hsame, hall⟩ := fullmatchIgnoringCase_sound hgroups
  obtain ⟨start, major', minor', patch', rfl, hstart', hmajor', hminor', hpatch'⟩ := upstream_groups_iff.mp hall
  have hlength : start.length = (lit "github:" ++ OWNER ++ lit "/" ++ REPO ++ lit "/v").length := by
    rw [← length_lower, hstart', ← hstart, length_lower]
  rw [List.flatten_cons, List.flatten_cons] at hsame
  have hversion := (List.append_inj hsame hlength).2
  have hsplit : major' ++ lit "." ++ minor' ++ lit "." ++ patch' = major ++ lit "." ++ minor ++ lit "." ++ patch := by
    simpa only [List.flatten_cons, List.flatten_nil, List.append_assoc, List.append_nil] using hversion
  have hparts := congrArg (List.splitOn 46) hsplit
  rw [splitOn_version hmajor' hminor' hpatch', splitOn_version hmajor hminor hpatch] at hparts
  simp only [List.cons.injEq, and_true] at hparts
  obtain ⟨rfl, rfl, rfl⟩ := hparts
  rw [hflat, oldRelease, hgroups] at hnone
  change (do
    let parts ← [major', minor', patch'].mapM int
    if FIRST_HOST_OS_FREE_RELEASE ≤ parts then return none
    return some ((lit ".").intercalate (parts.map dec))) = Except.ok none at hnone
  cases hparts : [major', minor', patch'].mapM int with
  | error why =>
    rw [hparts] at hnone
    exact absurd hnone (by simp [bind, Except.bind])
  | ok parts =>
    obtain rfl := mapM_int hparts
    rw [hparts] at hnone
    by_contra hold
    have hmap : [major', minor', patch'].map num = [num major', num minor', num patch'] := rfl
    change (if FIRST_HOST_OS_FREE_RELEASE ≤ _ then _ else _) = _ at hnone
    rw [hmap, if_neg hold] at hnone
    exact absurd (Except.ok.inj hnone) (Option.some_ne_none _)

theorem isGitRef_of_commit {rev : PyStr} (h : isCommit rev = true) : IsGitRef rev := by
  rw [isCommit, Bool.and_eq_true, beq_iff_eq, List.all_eq_true] at h
  have halnum : ∀ c ∈ rev, c ∈ alnumChars := by
    intro c hc
    have hchar := h.2 c hc
    rw [alnumChars, letterChars, List.mem_append, List.mem_append, mem_digitChars, List.mem_range'_1,
      List.mem_range'_1]
    simp only [Bool.or_eq_true, Bool.and_eq_true, decide_eq_true_eq] at hchar
    rcases hchar with hdigit | hletter
    · exact .inr hdigit
    · exact .inl (.inr (by omega))
  obtain ⟨c, rest, rfl⟩ := List.exists_cons_of_ne_nil (List.ne_nil_of_length_eq_add_one h.1)
  rw [List.forall_mem_cons] at halnum
  exact ⟨c, rest, rfl, halnum.1, fun d hd => List.mem_append_left _ (halnum.2 d hd)⟩

/-! ## The ref of a build -/

theorem flakeRef_some (version : PyStr) : flakeRef YO_VERSION (some version) = do
    let ref ← namedFlakeRef version
    match ← oldRelease ref with
    | some old => throw (.oldRelease old)
    | none => return ref := rfl

/-- What `flake_ref` returns is what was named, and no old release. -/
theorem flakeRef_eq_ok_iff :
    flakeRef YO_VERSION (some version) = .ok r ↔ namedFlakeRef version = .ok r ∧ oldRelease r = .ok none := by
  rw [flakeRef_some]
  cases hnamed : namedFlakeRef version with
  | error why => simp [bind, Except.bind]
  | ok ref =>
    change (oldRelease ref >>= _) = _ ↔ _
    rw [Except.ok.injEq]
    constructor
    · intro h
      cases hold : oldRelease ref with
      | error why =>
        rw [hold] at h
        exact absurd h (by simp [bind, Except.bind])
      | ok old =>
        rw [hold] at h
        cases old with
        | none =>
          obtain rfl := Except.ok.inj h
          exact ⟨rfl, hold⟩
        | some version => exact absurd h (by simp [bind, Except.bind, throw, throwThe, MonadExceptOf.throw])
    · rintro ⟨rfl, hold⟩
      rw [hold]
      rfl

/-- **The ref of a build.**  What `flake_ref` returns for a text is one ref of the form
`github:OWNER/REPO/REF` to every program that reads it: `flake.nix` takes it, `rebuild`
reads it back from its stamp, `flake_ref` returns it again, and it is no release too old
to build.  Its pinned ref is the commit in the same repository. -/
theorem flakeRef_built (h : flakeRef YO_VERSION (some version) = .ok r) :
    ∃ OWNER REPO REF, Built YO_VERSION r OWNER REPO REF := by
  obtain ⟨hnamed, hold⟩ := flakeRef_eq_ok_iff.mp h
  have hmatch := githubFlake_of_named hnamed
  obtain ⟨OWNER, REPO, REF, rfl, howner, hrepo, href⟩ := githubFlake_rmatch_iff.mp hmatch
  have hcount := count_refOf howner hrepo href
  have hcolon : 58 ∈ refOf OWNER REPO REF := List.count_pos_iff.mp (by omega)
  have hspace : ∀ c ∈ symbols GITHUB_FLAKE_RE, isSpace c = false := by decide +kernel
  have hhash : 35 ∉ symbols GITHUB_FLAKE_RE := by decide +kernel
  have hslash : 47 ∉ nameChars := by decide
  refine ⟨OWNER, REPO, REF, ?_⟩
  constructor
  case spelled => rfl
  case owner => exact howner
  case repo => exact hrepo
  case ref => exact href
  case nix => rw [nixFlakeRef_eq, if_pos hmatch]
  case stamped => exact stampedRef_stamp hmatch
  case oneAttribute => exact fun hmem => hhash (mem_symbols hmatch 35 hmem)
  case oneWord => exact fun c hc => hspace c (mem_symbols hmatch c hc)
  case oneScheme => exact hcount
  case notOld => exact fun parts hparts => oldRelease_eq hparts hold
  case again =>
    refine flakeRef_eq_ok_iff.mpr ⟨?_, hold⟩
    rw [namedFlakeRef_of_colon hcolon, if_pos hmatch]
  case pinned =>
    intro rev hrev
    have hpinned : pinnedRef (refOf OWNER REPO REF) rev = refOf OWNER REPO rev :=
      pinnedRef_refOf (fun hmem => hslash (href.mem_nameChars 47 hmem)) rev
    refine ⟨hpinned, ?_⟩
    rw [hpinned, nixFlakeRef_eq, if_pos]
    exact githubFlake_rmatch_iff.mpr ⟨OWNER, REPO, rev, rfl, howner, hrepo, isGitRef_of_commit hrev⟩

theorem flakeRef_built_branch : ∃ OWNER REPO REF,
    Built (lit "1.9.4") (lit "github:aka-rider/yolobox/main") OWNER REPO REF :=
  have hmain : flakeRef (lit "1.9.4") (some (lit "main")) = .ok (lit "github:aka-rider/yolobox/main") := by
    decide +kernel
  flakeRef_built hmain

end Release
