/-
# The profiles of the guest

`aws_allowlist` and `guest_aws_config_text` of `yolobox_cli/aws.py`: what yo takes from
`~/.aws/config` and writes for the guest, and the three programs that read it there: an
INI reader, the awk program of `yolobox-guest aws-check` and the checks of the names.
-/
import Yolobox.Aws.ConfigParser
import Yolobox.Lib.Regex
import Yolobox.Lib.Shlex
import Yolobox.LandingDir

open Regex RegularExpression ConfigParser Dict
open Paths (HELPER)

namespace AwsAllowlist

/-! ## `aws_allowlist` -/

/-- `^[A-Za-z0-9][A-Za-z0-9._-]*$`, matched whole. -/
def PROFILE_NAME_RE : RegularExpression ℕ := oneOf alnumChars * star (oneOf nameChars)

/-- `[a-z]` -/
def lowerChars : List ℕ := List.range' 97 26

/-- `[a-z]{2,4}(-[a-z]+)+-\d+` -/
def AWS_REGION_RE : RegularExpression ℕ :=
  oneOf lowerChars * oneOf lowerChars * opt (oneOf lowerChars) * opt (oneOf lowerChars) *
    many1 (literal (lit "-") * many1 (oneOf lowerChars)) * literal (lit "-") * many1 (oneOf digitChars)

/-- `str.lower`; `unicodeLower` is what it does to a text that is not ASCII. -/
def strLower (unicodeLower : PyStr → PyStr) (text : PyStr) : PyStr :=
  if text.all (· < 128) then lower text else unicodeLower text

/-- `~/.aws/config`, as `open` and `read_file` find it. -/
inductive ConfigFile
  | missing
  | unreadable
  | undecodable
  | text (contents : PyStr)

/-- The `YoError`s of `aws_allowlist`. -/
inductive YoError
  | cannotRead                                   -- "cannot read %s: %s", of an `OSError`
  | cannotDecode                                 -- the same, of a `UnicodeDecodeError`
  | cannotParse (failure : ConfigParser.Error)   -- "cannot parse %s: %s"
  deriving DecidableEq

/-- What `aws_allowlist` says on its way. -/
inductive Warning
  | badName (name : PyStr)                         -- "… has a name yo will not pass to the guest …"
  | bothName (earlier sectname name : PyStr)       -- "[%s] and [%s] in ~/.aws/config both name the profile …"
  | noRegion (name : PyStr)                        -- "… has no region in ~/.aws/config …"
  | badRegion (name region : PyStr)                -- "… which is not an AWS region name …"
  deriving DecidableEq

/-- The profile that a section defines. -/
def profileOf (sectname : PyStr) : Option PyStr :=
  if sectname = lit "default" then some (lit "default")
  else if startswith sectname (lit "profile ") then some (sectname.drop 8)
  else none

/-- `defined_by`, and the warnings so far. -/
abbrev Defined := List (PyStr × PyStr) × List Warning

/-- One section of the first loop. -/
def define (defined : Defined) (sectname : PyStr) : Defined :=
  match profileOf sectname with
  | none => defined
  | some name =>
    if !PROFILE_NAME_RE.rmatch name then (defined.1, defined.2 ++ [.badName name])
    else (set defined.1 name sectname,
      defined.2 ++ ((defined.1.lookup name).map fun earlier => Warning.bothName earlier sectname name).toList)

/-- The first loop. -/
def definedBy (config : Config) : Defined := (keys config.sections).foldl define ([], [])

variable (unicodeLower : PyStr → PyStr)

/-- One profile of the second loop: its region, or why it is left out. -/
def judge (config : Config) (name sectname : PyStr) : Except (Option Warning) PyStr :=
  let DEFAULT := some (lit "DEFAULT")
  if !(config.hasOption (strLower unicodeLower) DEFAULT sectname (lit "sso_session") ||
      config.hasOption (strLower unicodeLower) DEFAULT sectname (lit "sso_start_url")) then .error none
  else
    let region := config.get (strLower unicodeLower) sectname (lit "region") []
    if region = [] then .error (some (.noRegion name))
    else if !AWS_REGION_RE.rmatch region then .error (some (.badRegion name region))
    else .ok region

/-- The profiles that a configuration allows. -/
def allowedOf (config : Config) : List (PyStr × PyStr) :=
  (definedBy config).1.filterMap fun item =>
    ((judge unicodeLower config item.1 item.2).toOption).map (item.1, ·)

/-- What is said about a configuration. -/
def warningsOf (config : Config) : List Warning :=
  (definedBy config).2 ++ (definedBy config).1.flatMap fun item =>
    match judge unicodeLower config item.1 item.2 with
    | .error (some warning) => [warning]
    | _ => []

/-- The configuration that a file holds; a missing one holds none. -/
def ConfigFile.config : ConfigFile → Except YoError Config
  | .missing => .ok ⟨[], []⟩
  | .unreadable => .error .cannotRead
  | .undecodable => .error .cannotDecode
  | .text contents => (read (strLower unicodeLower) (some (lit "DEFAULT")) contents).mapError .cannotParse

/-- `aws_allowlist` -/
def awsAllowlist (file : ConfigFile) : Except YoError (List (PyStr × PyStr)) :=
  (file.config unicodeLower).map (allowedOf unicodeLower)

/-- `guest_aws_config_text` -/
def guestAwsConfigText (allowed : List (PyStr × PyStr)) : PyStr :=
  allowed.flatMap fun (name, region) =>
    lit "[profile " ++ name ++ lit "]\nregion = " ++ region ++ lit "\ncredential_process = " ++ HELPER ++
      lit " aws-creds " ++ name ++ lit "\n"

/-! ## The guest and the broker -/

/-- The lines that the awk program of `cmd_aws_check` prints. -/
def awkLines (text : PyStr) : List PyStr :=
  (fileLines text).flatMap fun line =>
    (if startswith line (lit "[profile ") then [(line.drop 9).takeWhile fun c => c != 93] else []) ++
      (if startswith line (lit "[default]") then [lit "default"] else [])

/-- What `$(…)` leaves of an output. -/
def commandOutput (output : PyStr) : PyStr := (output.filter (· ≠ 0)).rdropWhile (· == 10)

/-- The profiles that `cmd_aws_check` tries; `none` is a failed check. -/
def checkedProfiles (text : PyStr) : Option (List PyStr) :=
  let profiles := commandOutput (unlines (awkLines text))
  if profiles = [] then none else some (fileLines (profiles ++ [10]))

/-- The check of `cmd_aws_creds`. -/
def awsCredsAccepts (profile : PyStr) : Bool :=
  profile ≠ [] && (oneOf alnumChars * star (oneOf nameChars)).rmatch profile

/-- The check of `parse_args`. -/
def allowAccepts (allow : List PyStr) : Bool := allow.all fun name => PROFILE_NAME_RE.rmatch name

/-! ## What was allowed -/

variable {unicodeLower : PyStr → PyStr} {config : Config} {allowed : List (PyStr × PyStr)}
  {name region sectname : PyStr}

/-- The last section that defines a profile. -/
def lastNamed (config : Config) (name : PyStr) : Option PyStr :=
  ((keys config.sections).filter fun sectname => profileOf sectname = some name).getLast?

/-- A section of single sign-on, in that region. -/
def IsSso (unicodeLower : PyStr → PyStr) (config : Config) (sectname region : PyStr) : Prop :=
  (config.hasOption (strLower unicodeLower) (some (lit "DEFAULT")) sectname (lit "sso_session") = true ∨
    config.hasOption (strLower unicodeLower) (some (lit "DEFAULT")) sectname (lit "sso_start_url") = true) ∧
  region = config.get (strLower unicodeLower) sectname (lit "region") [] ∧ AWS_REGION_RE.rmatch region = true

/-- The command of a profile. -/
def credentialProcess (name : PyStr) : PyStr := HELPER ++ lit " aws-creds " ++ name

/-- The sections of the guest's configuration. -/
def entries (allowed : List (PyStr × PyStr)) : List (PyStr × Options) :=
  allowed.map fun item =>
    (lit "profile " ++ item.1, [(lit "region", item.2), (lit "credential_process", credentialProcess item.1)])

/-- What is allowed is what the host's configuration says, and what every reader of the
guest's text finds there. -/
structure Faithful (unicodeLower : PyStr → PyStr) (config : Config) (allowed : List (PyStr × PyStr)) : Prop where
  distinct : (keys allowed).Nodup
  judged : ∀ name region, (name, region) ∈ allowed ↔ PROFILE_NAME_RE.rmatch name = true ∧
    ∃ sectname, lastNamed config name = some sectname ∧ IsSso unicodeLower config sectname region
  listed : awkLines (guestAwsConfigText allowed) = keys allowed
  checked : allowed ≠ [] → checkedProfiles (guestAwsConfigText allowed) = some (keys allowed)
  readBack : ∀ defaultSection ∈ [none, some (lit "DEFAULT")],
    read (strLower unicodeLower) defaultSection (guestAwsConfigText allowed) = .ok ⟨[], entries allowed⟩
  once : (keys (entries allowed)).Nodup
  command : ∀ name ∈ keys allowed, Shlex.words (credentialProcess name) = some [HELPER, lit "aws-creds", name]
  accepted : ∀ name ∈ keys allowed, awsCredsAccepts name = true
  allow : allowAccepts (keys allowed) = true

/-! ## The host's side -/

theorem judge_eq_ok_iff : judge unicodeLower config name sectname = .ok region ↔
    IsSso unicodeLower config sectname region := by
  have hempty : AWS_REGION_RE.rmatch [] = false := by decide
  unfold judge IsSso
  dsimp only
  rw [← Bool.or_eq_true]
  split_ifs with hsso hregion hmatch
  · rw [Bool.not_eq_true'] at hsso
    simp [hsso]
  · rw [hregion]
    refine iff_of_false nofun ?_
    rintro ⟨-, rfl, hmatch⟩
    rw [hempty] at hmatch
    exact Bool.false_ne_true hmatch
  · rw [Bool.not_eq_true'] at hmatch
    refine iff_of_false nofun ?_
    rintro ⟨-, rfl, hmatch'⟩
    rw [hmatch] at hmatch'
    exact Bool.false_ne_true hmatch'
  · rw [Bool.not_eq_true', Bool.not_eq_false] at hsso hmatch
    rw [Except.ok.injEq]
    constructor
    · rintro rfl
      exact ⟨hsso, rfl, hmatch⟩
    · rintro ⟨-, rfl, -⟩
      rfl

/-- Each profile is kept with the last section that defines it. -/
theorem lookup_define (names : List PyStr) (name : PyStr) :
    (names.foldl define ([], [])).1.lookup name =
      if PROFILE_NAME_RE.rmatch name then (names.filter fun sectname => profileOf sectname = some name).getLast?
      else none := by
  induction names using List.reverseRecOn with
  | nil =>
    split_ifs
    · rfl
    · rfl
  | append_singleton names sectname ih =>
    rw [List.foldl_append, List.foldl_cons, List.foldl_nil, List.filter_append, define]
    cases hprofile : profileOf sectname with
    | none =>
      have hfilter : [sectname].filter (fun sectname => profileOf sectname = some name) = [] := by
        simp [hprofile]
      simp only [ih, hfilter, List.append_nil]
    | some profile =>
      by_cases hname : PROFILE_NAME_RE.rmatch profile = true
      · simp only [hname, Bool.not_true, Bool.false_eq_true, if_false]
        rw [lookup_set, ih]
        by_cases heq : name = profile
        · subst heq
          simp [hprofile, hname]
        · have heq' : ¬profile = name := fun h => heq h.symm
          simp [hprofile, heq, heq']
      · have hne : PROFILE_NAME_RE.rmatch name = true → ¬profile = name := fun h heq => hname (heq ▸ h)
        rw [Bool.not_eq_true] at hname
        simp only [hname, Bool.not_false, if_true]
        rw [ih]
        split_ifs with hmatch
        · simp [hprofile, hne hmatch]
        · rfl

theorem nodup_define (names : List PyStr) : (keys (names.foldl define ([], [])).1).Nodup := by
  induction names using List.reverseRecOn with
  | nil => exact List.nodup_nil
  | append_singleton names sectname ih =>
    rw [List.foldl_append, List.foldl_cons, List.foldl_nil, define]
    split
    · exact ih
    · split_ifs
      · exact ih
      · exact nodup_set ih

theorem mem_allowedOf : (name, region) ∈ allowedOf unicodeLower config ↔ PROFILE_NAME_RE.rmatch name = true ∧
    ∃ sectname, lastNamed config name = some sectname ∧ IsSso unicodeLower config sectname region := by
  have hitem : (name, region) ∈ allowedOf unicodeLower config ↔
      ∃ sectname, (name, sectname) ∈ (definedBy config).1 ∧
        judge unicodeLower config name sectname = .ok region := by
    unfold allowedOf
    rw [List.mem_filterMap]
    constructor
    · rintro ⟨⟨key, sectname⟩, hmem, hjudge⟩
      obtain ⟨found, hfound, heq⟩ := Option.map_eq_some_iff.mp hjudge
      obtain ⟨rfl, rfl⟩ := Prod.mk.inj heq
      refine ⟨sectname, hmem, ?_⟩
      cases hresult : judge unicodeLower config key sectname with
      | error why =>
        rw [hresult] at hfound
        exact absurd hfound nofun
      | ok other =>
        rw [hresult] at hfound
        rw [Option.some.inj hfound]
    · rintro ⟨sectname, hmem, hjudge⟩
      refine ⟨(name, sectname), hmem, ?_⟩
      rw [hjudge]
      rfl
  have hlookup : ∀ sectname, (name, sectname) ∈ (definedBy config).1 ↔
      PROFILE_NAME_RE.rmatch name = true ∧ lastNamed config name = some sectname := by
    intro sectname
    rw [definedBy, mem_iff_lookup (nodup_define _), lookup_define]
    split_ifs with hmatch
    · rw [lastNamed]
      exact (and_iff_right hmatch).symm
    · exact iff_of_false nofun fun h => hmatch h.1
  simp only [hitem, hlookup, judge_eq_ok_iff]
  constructor
  · rintro ⟨sectname, ⟨hmatch, hlast⟩, hsso⟩
    exact ⟨hmatch, sectname, hlast, hsso⟩
  · rintro ⟨hmatch, sectname, hlast, hsso⟩
    exact ⟨sectname, ⟨hmatch, hlast⟩, hsso⟩

theorem nodup_allowedOf : (keys (allowedOf unicodeLower config)).Nodup := by
  have hsublist : ∀ items : List (PyStr × PyStr), List.Sublist (keys (items.filterMap fun item =>
      ((judge unicodeLower config item.1 item.2).toOption).map (item.1, ·))) (keys items) := by
    intro items
    induction items with
    | nil => exact List.Sublist.refl []
    | cons item items ih =>
      rw [List.filterMap_cons]
      cases (judge unicodeLower config item.1 item.2).toOption with
      | none => exact ih.cons item.1
      | some region => exact ih.cons_cons item.1
  exact (hsublist _).nodup (nodup_define _)

/-! ## The guest's text -/

/-- A profile whose name and region passed their checks. -/
structure Checked (item : PyStr × PyStr) : Prop where
  name : PROFILE_NAME_RE.rmatch item.1 = true
  region : AWS_REGION_RE.rmatch item.2 = true

theorem guestAwsConfigText_eq (allowed : List (PyStr × PyStr)) :
    guestAwsConfigText allowed = render (entries allowed) := by
  induction allowed with
  | nil => rfl
  | cons item allowed ih =>
    have hcons : entries (item :: allowed) = (lit "profile " ++ item.1,
        [(lit "region", item.2), (lit "credential_process", credentialProcess item.1)]) :: entries allowed := rfl
    rw [guestAwsConfigText, List.flatMap_cons, ← guestAwsConfigText, ih, hcons, render, render, List.flatMap_cons,
      unlines_append]
    congr 1
    simp [sectionLines, unlines, credentialProcess, lit]

variable {item : PyStr × PyStr}

theorem Checked.ne_nil (h : Checked item) : item.1 ≠ [] := by
  intro hnil
  have hname := h.name
  rw [hnil] at hname
  exact absurd hname (by decide)

theorem Checked.mem_nameChars (h : Checked item) : ∀ c ∈ item.1, c ∈ nameChars := by
  obtain ⟨c, rest, hname, hc, hrest⟩ := word_rmatch_iff.mp h.name
  rw [hname]
  exact List.forall_mem_cons.mpr ⟨List.mem_append_left _ hc, hrest⟩

/-- What a name is made of is no blank, no bracket and nothing that a shell minds. -/
theorem of_mem_nameChars : ∀ c ∈ nameChars, isSpace c = false ∧ c ≠ 93 ∧ Shlex.isSafe c = true := by
  decide +kernel

theorem notSpace {c : ℕ} (h : isSpace c = false) : c ≠ 10 ∧ c ≠ 13 := by
  constructor
  · rintro rfl
    exact absurd h (by decide)
  · rintro rfl
    exact absurd h (by decide)

theorem plainOption_region (h : Checked item) :
    PlainOption (strLower unicodeLower) (lit "region", item.2) := by
  have hspace : ∀ c ∈ item.2, isSpace c = false := by
    have hall : ∀ c ∈ symbols AWS_REGION_RE, isSpace c = false := by decide +kernel
    exact fun c hc => hall c (mem_symbols h.region c hc)
  constructor
  case name_ne => exact List.cons_ne_nil _ _
  case name_chars =>
    show ∀ c ∈ lit "region", isSpace c = false ∧ isDelimiter c = false ∧ c ∉ lit "[#;"
    decide
  case fixed => rfl
  case value_ne =>
    intro hnil
    have hregion := h.region
    rw [show item.2 = [] from hnil] at hregion
    exact absurd hregion (by decide)
  case value_head => exact fun c hc => hspace c (List.mem_of_head? hc)
  case value_last => exact fun c hc => hspace c (List.mem_of_getLast? hc)
  case value_line => exact fun c hc => notSpace (hspace c hc)

theorem plainOption_command (h : Checked item) :
    PlainOption (strLower unicodeLower) (lit "credential_process", credentialProcess item.1) := by
  have hname : ∀ c ∈ item.1, isSpace c = false := fun c hc => (of_mem_nameChars c (h.mem_nameChars c hc)).1
  constructor
  case name_ne => exact List.cons_ne_nil _ _
  case name_chars =>
    show ∀ c ∈ lit "credential_process", isSpace c = false ∧ isDelimiter c = false ∧ c ∉ lit "[#;"
    decide
  case fixed => rfl
  case value_ne => exact List.cons_ne_nil _ _
  case value_head =>
    intro c hc
    rw [← Option.some.inj hc]
    rfl
  case value_last =>
    intro c hc
    rw [credentialProcess, List.getLast?_append_of_ne_nil _ h.ne_nil] at hc
    exact hname c (List.mem_of_getLast? hc)
  case value_line =>
    intro c hc
    have hcommand : ∀ c ∈ HELPER ++ lit " aws-creds ", c ≠ 10 ∧ c ≠ 13 := by decide
    rcases List.mem_append.mp hc with hc | hc
    · exact hcommand c hc
    · exact notSpace (hname c hc)

theorem plainSection_entry (h : Checked item) {defaultSection : Option PyStr}
    (hdefault : defaultSection ∈ [none, some (lit "DEFAULT")]) :
    PlainSection (strLower unicodeLower) defaultSection
      (lit "profile " ++ item.1, [(lit "region", item.2), (lit "credential_process", credentialProcess item.1)]) := by
  constructor
  case name_ne => exact List.cons_ne_nil _ _
  case name_line =>
    intro c hc
    have hprofile : ∀ c ∈ lit "profile ", c ≠ 10 ∧ c ≠ 13 := by decide
    rcases List.mem_append.mp hc with hc | hc
    · exact hprofile c hc
    · exact notSpace (of_mem_nameChars c (h.mem_nameChars c hc)).1
  case notDefault =>
    simp only [List.mem_cons, List.not_mem_nil, or_false] at hdefault
    rcases hdefault with rfl | rfl
    · exact Option.some_ne_none _
    · intro heq
      exact absurd (List.cons.inj (Option.some.inj heq)).1 (by decide)
  case distinct =>
    show [lit "region", lit "credential_process"].Nodup
    decide
  case options =>
    intro option hoption
    simp only [List.mem_cons, List.not_mem_nil, or_false] at hoption
    rcases hoption with rfl | rfl
    · exact plainOption_region h
    · exact plainOption_command h

theorem keys_entries (allowed : List (PyStr × PyStr)) :
    keys (entries allowed) = (keys allowed).map (lit "profile " ++ ·) := by
  rw [keys, keys, entries, List.map_map, List.map_map]
  rfl

theorem guestAwsConfigText_read (h : ∀ item ∈ allowed, Checked item) (hdistinct : (keys allowed).Nodup)
    {defaultSection : Option PyStr} (hdefault : defaultSection ∈ [none, some (lit "DEFAULT")]) :
    read (strLower unicodeLower) defaultSection (guestAwsConfigText allowed) = .ok ⟨[], entries allowed⟩ := by
  rw [guestAwsConfigText_eq]
  refine read_render ?_ fun found hfound => ?_
  · rw [keys_entries]
    exact hdistinct.map (List.append_right_injective _)
  · obtain ⟨item, hitem, rfl⟩ := List.mem_map.mp hfound
    exact plainSection_entry (h item hitem) hdefault

/-! ## The guest's programs -/

theorem awkLines_guestAwsConfigText (h : ∀ item ∈ allowed, Checked item) :
    awkLines (guestAwsConfigText allowed) = keys allowed := by
  have hlines : ∀ line ∈ (entries allowed).flatMap sectionLines, 10 ∉ line := by
    intro line hline hmem
    obtain ⟨found, hfound, hline⟩ := List.mem_flatMap.mp hline
    obtain ⟨item, hitem, rfl⟩ := List.mem_map.mp hfound
    exact (mem_sectionLines (@plainSection_entry id item (h item hitem) none List.mem_cons_self) hline 10 hmem).1 rfl
  rw [guestAwsConfigText_eq, awkLines, render, fileLines_unlines hlines, List.flatMap_assoc]
  clear hlines
  induction allowed with
  | nil => rfl
  | cons item allowed ih =>
    rw [List.forall_mem_cons] at h
    have hname : (item.1 ++ [93]).takeWhile (fun c => c != 93) = item.1 := by
      rw [List.takeWhile_append_of_pos]
      · exact List.append_nil item.1
      · exact fun c hc => bne_iff_ne.mpr (of_mem_nameChars c (h.1.mem_nameChars c hc)).2.1
    have hcons : entries (item :: allowed) = (lit "profile " ++ item.1,
        [(lit "region", item.2), (lit "credential_process", credentialProcess item.1)]) :: entries allowed := rfl
    rw [hcons, List.flatMap_cons, ih h.2]
    show [(item.1 ++ [93]).takeWhile fun c => c != 93] ++ keys allowed = item.1 :: keys allowed
    rw [hname, List.singleton_append]

/-- Names that were printed, a line each, are what the loop of `cmd_aws_check` sees. -/
theorem checkedProfiles_guestAwsConfigText (h : ∀ item ∈ allowed, Checked item) (hne : allowed ≠ []) :
    checkedProfiles (guestAwsConfigText allowed) = some (keys allowed) := by
  have hchars : ∀ name ∈ keys allowed, name ≠ [] ∧ ∀ c ∈ name, c ≠ 0 ∧ c ≠ 10 := by
    intro name hname
    obtain ⟨item, hitem, rfl⟩ := List.mem_map.mp hname
    have hchar : ∀ c ∈ nameChars, c ≠ 0 ∧ c ≠ 10 := by decide +kernel
    exact ⟨(h item hitem).ne_nil, fun c hc => hchar c ((h item hitem).mem_nameChars c hc)⟩
  have hkeys : keys allowed ≠ [] := by rwa [keys, ne_eq, List.map_eq_nil_iff]
  obtain ⟨names, name, hnames⟩ := (List.eq_nil_or_concat (keys allowed)).resolve_left hkeys
  rw [List.concat_eq_append] at hnames
  have hlast := hchars name (hnames ▸ List.mem_append_right _ List.mem_cons_self)
  have hkept : (unlines (keys allowed)).filter (· ≠ 0) = unlines (keys allowed) := by
    refine List.filter_eq_self.mpr fun c hc => decide_eq_true ?_
    obtain ⟨line, hline, hc⟩ := List.mem_flatMap.mp hc
    rcases List.mem_append.mp hc with hc | hc
    · exact ((hchars line hline).2 c hc).1
    · rw [List.mem_singleton.mp hc]
      decide
  have hprinted : unlines (keys allowed) = unlines names ++ name ++ [10] := by
    rw [hnames, unlines_append, unlines_cons, unlines_nil, List.append_assoc]
  have houtput : commandOutput (unlines (keys allowed)) = unlines names ++ name := by
    rw [commandOutput, hkept, hprinted, List.rdropWhile_concat_pos _ _ _ rfl, List.rdropWhile_eq_self_iff]
    intro hne'
    have hmem : (unlines names ++ name).getLast hne' ∈ name := by
      rw [List.getLast_append_of_ne_nil _ hlast.1]
      exact List.getLast_mem hlast.1
    rw [beq_iff_eq]
    exact (hlast.2 _ hmem).2
  have hlines : fileLines (unlines (keys allowed)) = keys allowed :=
    fileLines_unlines fun name hname hmem => ((hchars name hname).2 10 hmem).2 rfl
  unfold checkedProfiles
  dsimp only
  rw [awkLines_guestAwsConfigText h, houtput, if_neg, ← hprinted, hlines]
  exact fun hnil => hlast.1 (List.append_eq_nil_iff.mp hnil).2

theorem words_credentialProcess (h : Checked item) :
    Shlex.words (credentialProcess item.1) = some [HELPER, lit "aws-creds", item.1] := by
  have hquote : Shlex.quote item.1 = item.1 := by
    rw [Shlex.quote, if_neg h.ne_nil, if_pos]
    exact List.all_eq_true.mpr fun c hc => (of_mem_nameChars c (h.mem_nameChars c hc)).2.2
  have hjoin : Shlex.join [HELPER, lit "aws-creds", item.1] = credentialProcess item.1 := by
    show HELPER ++ ([32] ++ (lit "aws-creds" ++ ([32] ++ (Shlex.quote item.1 ++ [])))) = _
    rw [hquote, List.append_nil]
    rfl
  rw [← hjoin, Shlex.words_join]

/-! ## The whole way -/

/-- **The profiles of the guest.**  Whatever `~/.aws/config` holds, the profiles that are
allowed are distinct, each judged by the last section that defines it, and the text that is
written for the guest says just that to all who read it: an INI reader finds one section for
each with its region and its command, a shell takes the command for the helper's and awk
lists the names in their order, which the guest and the broker accept. -/
theorem awsAllowlist_faithful {file : ConfigFile} (h : awsAllowlist unicodeLower file = .ok allowed) :
    ∃ config, file.config unicodeLower = .ok config ∧ Faithful unicodeLower config allowed := by
  unfold awsAllowlist at h
  cases hconfig : file.config unicodeLower with
  | error why =>
    rw [hconfig] at h
    exact absurd h nofun
  | ok config =>
    rw [hconfig] at h
    obtain rfl := Except.ok.inj h
    have hchecked : ∀ item ∈ allowedOf unicodeLower config, Checked item := by
      rintro ⟨name, region⟩ hitem
      obtain ⟨hname, sectname, -, -, -, hregion⟩ := mem_allowedOf.mp hitem
      exact ⟨hname, hregion⟩
    have hnames : ∀ name ∈ keys (allowedOf unicodeLower config), PROFILE_NAME_RE.rmatch name = true := by
      intro name hname
      obtain ⟨item, hitem, rfl⟩ := List.mem_map.mp hname
      exact (hchecked item hitem).name
    refine ⟨config, rfl, ?_⟩
    constructor
    case distinct => exact nodup_allowedOf
    case judged => exact fun name region => mem_allowedOf
    case listed => exact awkLines_guestAwsConfigText hchecked
    case checked => exact checkedProfiles_guestAwsConfigText hchecked
    case readBack =>
      exact fun defaultSection hdefault => guestAwsConfigText_read hchecked nodup_allowedOf hdefault
    case once =>
      rw [keys_entries]
      exact nodup_allowedOf.map (List.append_right_injective _)
    case command =>
      intro name hname
      obtain ⟨item, hitem, rfl⟩ := List.mem_map.mp hname
      exact words_credentialProcess (hchecked item hitem)
    case accepted =>
      intro name hname
      obtain ⟨item, hitem, rfl⟩ := List.mem_map.mp hname
      rw [awsCredsAccepts, Bool.and_eq_true]
      exact ⟨decide_eq_true (hchecked item hitem).ne_nil, hnames item.1 hname⟩
    case allow => exact List.all_eq_true.mpr hnames

/-- A configuration with two profiles of single sign-on and one with keys of its own. -/
def sampleConfig : ConfigFile :=
  .text (lit "[profile work]\nsso_session = corp\nregion = eu-west-1\n[profile keys]\nregion = eu-west-1\n" ++
    lit "[default]\nsso_start_url = https://corp\nregion = us-east-1\n")

theorem awsAllowlist_faithful_sample : ∃ config, sampleConfig.config id = .ok config ∧
    Faithful id config [(lit "work", lit "eu-west-1"), (lit "default", lit "us-east-1")] :=
  awsAllowlist_faithful (by decide +kernel)

end AwsAllowlist
