/-
# Reading and writing INI files

Python's `configparser.ConfigParser(interpolation=None)`, as it reads a file: strict,
with `=` and `:` as delimiters, `#` and `;` before comment lines and values that go on in
deeper lines.  A file that is written a section at a time, one line an option, is read
back as it was (`read_render`).
-/
import Yolobox.Lines
import Yolobox.Lib.Dict
import Yolobox.Ssh.Config

open Dict

namespace ConfigParser

/-! ## The parser -/

/-- `configparser.Error`, as the parser raises it. -/
inductive Error
  | duplicateSection (sectname : PyStr)
  | duplicateOption (sectname optname : PyStr)
  | missingSectionHeader (line : PyStr)
  | parsing
  deriving DecidableEq

/-- The options of a section, in the order they were set. -/
abbrev Options := List (PyStr × PyStr)

/-- What a parser has read. -/
structure Config where
  defaults : Options
  sections : List (PyStr × Options)
  deriving DecidableEq

/-- The options of a section that is being read: each with the lines of its value. -/
abbrev Lines := List (PyStr × List PyStr)

/-- The variables of `_read`.  `cursect` is the section `sectname`, or the defaults. -/
structure Reading where
  defaults : Lines
  sections : List (PyStr × Lines)
  sectname : Option PyStr
  optname : PyStr       -- empty for `None` as well
  indentLevel : ℕ
  bogus : Bool

def Reading.start : Reading := ⟨[], [], none, [], 0, false⟩

/-- `cursect` -/
def Reading.cursect (r : Reading) : Lines :=
  match r.sectname with
  | none => []
  | some sectname => (r.sections.lookup sectname).getD r.defaults

/-- `cursect` is changed. -/
def Reading.change (r : Reading) (f : Lines → Lines) : Reading :=
  match r.sectname with
  | none => r
  | some sectname =>
    if sectname ∈ keys r.sections then { r with sections := modify r.sections sectname f }
    else { r with defaults := f r.defaults }

/-- `cursect[optname].append(line)` -/
def Reading.append (r : Reading) (line : PyStr) : Reading :=
  if r.optname = [] then r else r.change fun options => modify options r.optname (· ++ [line])

/-- `SECTCRE.match`: `\[(?P<header>.+)\]`. -/
def header? (value : PyStr) : Option PyStr :=
  match value with
  | [] => none
  | c :: rest =>
    let header := (rest.rdropWhile fun c => c != 93).dropLast
    if c = 91 ∧ header ≠ [] then some header else none

def isDelimiter (c : ℕ) : Bool := c == 61 || c == 58

/-- `OPTCRE.match`: the text before the first delimiter, without the blanks behind it, and
the text after it. -/
def option? (value : PyStr) : Option (PyStr × PyStr) :=
  match value.dropWhile fun c => !isDelimiter c with
  | [] => none
  | _ :: rest => some ((value.takeWhile fun c => !isDelimiter c).rdropWhile isSpace, strip rest)

/-- A section header. -/
def Reading.header (defaultSection : Option PyStr) (r : Reading) (sectname : PyStr) : Except Error Reading :=
  if sectname ∈ keys r.sections then .error (.duplicateSection sectname)
  else .ok { r with
    sections := if some sectname = defaultSection then r.sections else r.sections ++ [(sectname, [])]
    sectname := some sectname
    optname := [] }

/-- An option line; a nameless one is an error that is raised at the end. -/
def Reading.option (optionxform : PyStr → PyStr) (r : Reading) (sectname option value : PyStr) :
    Except Error Reading :=
  let optname := optionxform option
  if optname ∈ keys r.cursect then .error (.duplicateOption sectname optname)
  else .ok { r.change fun options => set options optname [value] with
    optname := optname
    bogus := r.bogus || option.isEmpty }

/-- A line that is no part of a value: a header, or an option. -/
def Reading.entry (optionxform : PyStr → PyStr) (defaultSection : Option PyStr) (r : Reading)
    (line value : PyStr) : Except Error Reading :=
  match header? value with
  | some sectname => r.header defaultSection sectname
  | none =>
    match r.sectname with
    | none => .error (.missingSectionHeader line)
    | some sectname =>
      match option? value with
      | none => .ok { r with bogus := true }
      | some option => r.option optionxform sectname option.1 option.2

/-- One line of `_read`. -/
def Reading.line (optionxform : PyStr → PyStr) (defaultSection : Option PyStr) (r : Reading) (line : PyStr) :
    Except Error Reading :=
  let value := strip line
  let indentLevel := (line.takeWhile isSpace).length
  if startswith value (lit "#") || startswith value (lit ";") then .ok r
  else if value = [] then .ok (r.append [])
  else if r.optname ≠ [] ∧ r.indentLevel < indentLevel then .ok (r.append value)
  else { r with indentLevel }.entry optionxform defaultSection line value

/-- `_join_multiline_values` -/
def joinValues (options : Lines) : Options :=
  options.map fun option => (option.1, ([10].intercalate option.2).rdropWhile isSpace)

/-- `read_file` of what the file holds. -/
def read (optionxform : PyStr → PyStr) (defaultSection : Option PyStr) (contents : PyStr) : Except Error Config := do
  let r ← (fileLines (SshConfig.readText contents)).foldlM (Reading.line optionxform defaultSection) .start
  if r.bogus then throw .parsing
  return ⟨joinValues r.defaults, r.sections.map fun found => (found.1, joinValues found.2)⟩

/-- `has_option` -/
def Config.hasOption (optionxform : PyStr → PyStr) (defaultSection : Option PyStr) (config : Config)
    (sectname option : PyStr) : Bool :=
  if sectname = [] ∨ some sectname = defaultSection then (optionxform option) ∈ keys config.defaults
  else match config.sections.lookup sectname with
    | none => false
    | some options => optionxform option ∈ keys options ∨ optionxform option ∈ keys config.defaults

/-- `get`, of a section that is there, with a fallback. -/
def Config.get (optionxform : PyStr → PyStr) (config : Config) (sectname option fallback : PyStr) : PyStr :=
  let options := (config.sections.lookup sectname).getD []
  ((options.lookup (optionxform option)).or (config.defaults.lookup (optionxform option))).getD fallback

/-! ## Writing -/

/-- A section, a line for its name and one for each option. -/
def sectionLines (found : PyStr × Options) : List PyStr :=
  (91 :: (found.1 ++ [93])) :: found.2.map fun option => option.1 ++ lit " = " ++ option.2

/-- A file of these sections. -/
def render (sections : List (PyStr × Options)) : PyStr := unlines (sections.flatMap sectionLines)

variable {optionxform : PyStr → PyStr} {defaultSection : Option PyStr} {text value : PyStr}

/-- An option that stands in one line, and means itself there. -/
structure PlainOption (optionxform : PyStr → PyStr) (option : PyStr × PyStr) : Prop where
  name_ne : option.1 ≠ []
  name_chars : ∀ c ∈ option.1, isSpace c = false ∧ isDelimiter c = false ∧ c ∉ lit "[#;"
  fixed : optionxform option.1 = option.1
  value_ne : option.2 ≠ []
  value_head : ∀ c, option.2.head? = some c → isSpace c = false
  value_last : ∀ c, option.2.getLast? = some c → isSpace c = false
  value_line : ∀ c ∈ option.2, c ≠ 10 ∧ c ≠ 13

structure PlainSection (optionxform : PyStr → PyStr) (defaultSection : Option PyStr) (found : PyStr × Options) :
    Prop where
  name_ne : found.1 ≠ []
  name_line : ∀ c ∈ found.1, c ≠ 10 ∧ c ≠ 13
  notDefault : some found.1 ≠ defaultSection
  distinct : (keys found.2).Nodup
  options : ∀ option ∈ found.2, PlainOption optionxform option

/-! ## One line -/

theorem rdropWhile_space (hlast : ∀ c, text.getLast? = some c → isSpace c = false) :
    text.rdropWhile isSpace = text := by
  rw [List.rdropWhile_eq_self_iff]
  intro hne
  rw [hlast _ (List.getLast?_eq_some_getLast hne)]
  exact Bool.false_ne_true

theorem strip_eq_self (hhead : ∀ c, text.head? = some c → isSpace c = false)
    (hlast : ∀ c, text.getLast? = some c → isSpace c = false) : strip text = text := by
  have hdrop : text.dropWhile isSpace = text := by
    cases text with
    | nil => rfl
    | cons c text =>
      refine List.dropWhile_cons_of_neg ?_
      rw [hhead c rfl]
      exact Bool.false_ne_true
  rw [strip, hdrop, rdropWhile_space hlast]

/-- A line with no blanks around it, no comment and no text is read at level 0. -/
theorem line_eq (r : Reading) {c : ℕ} (hspace : isSpace c = false) (hcomment : c ∉ lit "#;")
    (hstrip : strip (c :: text) = c :: text) :
    r.line optionxform defaultSection (c :: text) =
      { r with indentLevel := 0 }.entry optionxform defaultSection (c :: text) (c :: text) := by
  have hindent : ((c :: text).takeWhile isSpace).length = 0 := by
    rw [List.takeWhile_cons_of_neg (by rw [hspace]; exact Bool.false_ne_true)]
    rfl
  have hstart : ∀ d ∈ lit "#;", startswith (c :: text) [d] = false := by
    intro d hd
    rw [Bool.eq_false_iff, ne_eq, startswith_iff]
    rintro ⟨rest, hrest⟩
    exact hcomment ((List.cons.inj hrest).1 ▸ hd)
  unfold Reading.line
  dsimp only
  rw [hstrip, hindent, show lit "#" = [35] from rfl, show lit ";" = [59] from rfl,
    hstart 35 (by decide), hstart 59 (by decide), Bool.or_self, if_neg Bool.false_ne_true,
    if_neg (List.cons_ne_nil c text), if_neg fun hdeep => Nat.not_lt_zero _ hdeep.2]

theorem line_header (r : Reading) {name : PyStr} (hname : name ≠ []) :
    r.line optionxform defaultSection (91 :: (name ++ [93])) =
      { r with indentLevel := 0 }.header defaultSection name := by
  have hheader : header? (91 :: (name ++ [93])) = some name := by
    have hbracket : (name ++ [93]).rdropWhile (fun c => c != 93) = name ++ [93] :=
      List.rdropWhile_concat_neg _ _ _ (by decide)
    rw [header?, hbracket, List.dropLast_concat, if_pos ⟨rfl, hname⟩]
  have hstrip : strip (91 :: (name ++ [93])) = 91 :: (name ++ [93]) := by
    refine strip_eq_self (fun c hc => ?_) (fun c hc => ?_)
    · rw [← Option.some.inj hc]
      rfl
    · rw [← List.cons_append, List.getLast?_concat] at hc
      rw [← Option.some.inj hc]
      rfl
  rw [line_eq r rfl (by decide) hstrip, Reading.entry, hheader]

theorem line_option (r : Reading) {sectname : PyStr} {option : PyStr × PyStr} (hsect : r.sectname = some sectname)
    (h : PlainOption optionxform option) :
    r.line optionxform defaultSection (option.1 ++ lit " = " ++ option.2) =
      { r with indentLevel := 0 }.option optionxform sectname option.1 option.2 := by
  obtain ⟨name, value⟩ := option
  obtain ⟨c, rest, rfl⟩ : ∃ c rest, name = c :: rest := List.exists_cons_of_ne_nil h.name_ne
  obtain ⟨hspace, -, hbracket⟩ := h.name_chars c List.mem_cons_self
  have hline : (c :: rest) ++ lit " = " ++ value = c :: (rest ++ lit " = " ++ value) := rfl
  have hlast : ((c :: rest) ++ lit " = " ++ value).getLast? = value.getLast? :=
    List.getLast?_append_of_ne_nil _ h.value_ne
  have hstrip : strip (c :: (rest ++ lit " = " ++ value)) = c :: (rest ++ lit " = " ++ value) := by
    rw [← hline]
    refine strip_eq_self (fun d hd => ?_) (fun d hd => h.value_last d (hlast ▸ hd))
    rw [← Option.some.inj hd]
    exact hspace
  have hheader : header? (c :: (rest ++ lit " = " ++ value)) = none := by
    rw [header?, if_neg]
    rintro ⟨rfl, -⟩
    exact hbracket (by decide)
  have hoption : option? ((c :: rest) ++ lit " = " ++ value) = some (c :: rest, value) := by
    have hname : ∀ d ∈ (c :: rest) ++ [32], (!isDelimiter d) = true := by
      intro d hd
      rcases List.mem_append.mp hd with hd | hd
      · rw [(h.name_chars d hd).2.1]
        rfl
      · rw [List.mem_singleton.mp hd]
        rfl
    have hsplit : (c :: rest) ++ lit " = " ++ value = ((c :: rest) ++ [32]) ++ 61 :: 32 :: value := by
      rw [List.append_assoc, List.append_assoc]
      rfl
    have hblank : ((c :: rest) ++ [32]).rdropWhile isSpace = c :: rest := by
      rw [List.rdropWhile_concat_pos _ _ _ rfl]
      refine rdropWhile_space fun d hd => ?_
      exact (h.name_chars d (List.mem_of_getLast? hd)).1
    have hvalue : strip (32 :: value) = value := by
      have hfirst : strip (32 :: value) = strip value := by
        rw [strip, List.dropWhile_cons_of_pos rfl, ← strip]
      rw [hfirst, strip_eq_self h.value_head h.value_last]
    rw [option?, hsplit, List.dropWhile_append_of_pos hname, List.takeWhile_append_of_pos hname]
    show some ((((c :: rest) ++ [32]) ++ []).rdropWhile isSpace, strip (32 :: value)) = _
    rw [List.append_nil, hblank, hvalue]
  rw [hline, line_eq r hspace (fun hmem => hbracket (List.mem_cons_of_mem _ hmem)) hstrip, ← hline,
    Reading.entry, hline, hheader, ← hline, hoption]
  simp only [hsect]

/-! ## A whole file -/

/-- A section whose values are one line each. -/
def opened (found : PyStr × Options) : PyStr × Lines :=
  (found.1, found.2.map fun option => (option.1, [option.2]))

/-- What has been read when these sections have. -/
def reached (done : List (PyStr × Options)) (sectname : Option PyStr) (optname : PyStr) : Reading :=
  ⟨[], done.map opened, sectname, optname, 0, false⟩

theorem keys_opened (done : List (PyStr × Options)) : keys (done.map opened) = keys done := by
  rw [keys, List.map_map]
  rfl

variable {done : List (PyStr × Options)} {sectname : Option PyStr} {name optname : PyStr}

/-- An option that is not there yet is added to the last section. -/
theorem option_reached {before : Options} {option : PyStr × PyStr} (hname : name ∉ keys done)
    (hnew : option.1 ∉ keys before) (h : PlainOption optionxform option) :
    (reached (done ++ [(name, before)]) (some name) optname).option optionxform name option.1 option.2 =
      .ok (reached (done ++ [(name, before ++ [option])]) (some name) option.1) := by
  have hname' : name ∉ keys (done.map opened) := by rwa [keys_opened]
  have hsections : (done ++ [(name, before)]).map opened =
      done.map opened ++ [(name, before.map fun option => (option.1, [option.2]))] := List.map_append
  have hlookup : (reached (done ++ [(name, before)]) (some name) optname).cursect =
      before.map fun option => (option.1, [option.2]) := by
    show (((done ++ [(name, before)]).map opened).lookup name).getD [] = _
    rw [hsections, List.lookup_append, lookup_eq_none_iff.mpr hname', lookup_cons, if_pos rfl]
    rfl
  have hkeys : keys (before.map fun option => (option.1, [option.2])) = keys before := by
    rw [keys, List.map_map]
    rfl
  have hnew' : option.1 ∉ keys (before.map fun option => (option.1, [option.2])) := by rwa [hkeys]
  have hmem : name ∈ keys ((done ++ [(name, before)]).map opened) := by
    rw [keys_opened, keys_append]
    exact List.mem_append_right _ List.mem_cons_self
  have hchange : (reached (done ++ [(name, before)]) (some name) optname).change
      (fun options => set options option.1 [option.2]) =
        ⟨[], (done ++ [(name, before ++ [option])]).map opened, some name, optname, 0, false⟩ := by
    show (if name ∈ keys ((done ++ [(name, before)]).map opened) then _ else _) = _
    rw [if_pos hmem]
    show Reading.mk [] (modify ((done ++ [(name, before)]).map opened) name
      fun options => set options option.1 [option.2]) (some name) optname 0 false = _
    rw [hsections, modify_concat hname', set_of_notMem hnew', List.map_append]
    simp [opened]
  unfold Reading.option
  dsimp only
  rw [h.fixed, hlookup, if_neg hnew', hchange, show option.1.isEmpty = false from List.isEmpty_eq_false_iff.mpr h.name_ne]
  rfl

/-- The options of a section, one after another. -/
theorem options_reached (before options : Options) (optname : PyStr) (hname : name ∉ keys done)
    (hdistinct : (keys (before ++ options)).Nodup) (h : ∀ option ∈ options, PlainOption optionxform option) :
    ∃ optname', (options.map fun option => option.1 ++ lit " = " ++ option.2).foldlM
      (Reading.line optionxform defaultSection) (reached (done ++ [(name, before)]) (some name) optname) =
        .ok (reached (done ++ [(name, before ++ options)]) (some name) optname') := by
  induction options generalizing before optname with
  | nil => exact ⟨optname, by rw [List.append_nil]; rfl⟩
  | cons option options ih =>
    rw [List.forall_mem_cons] at h
    have hnew : option.1 ∉ keys before := by
      rw [keys_append, List.nodup_append] at hdistinct
      exact fun hmem => hdistinct.2.2 _ hmem _ List.mem_cons_self rfl
    have hrest : (keys (before ++ [option] ++ options)).Nodup := by
      rwa [List.append_assoc, List.singleton_append]
    obtain ⟨optname', hfold⟩ := ih (before ++ [option]) option.1 hrest h.2
    refine ⟨optname', ?_⟩
    rw [List.map_cons, List.foldlM_cons, line_option _ rfl h.1]
    show ((reached (done ++ [(name, before)]) (some name) optname).option optionxform name option.1 option.2 >>= _) = _
    rw [option_reached hname hnew h.1]
    show List.foldlM _ _ _ = _
    rw [hfold, List.append_assoc, List.singleton_append]

/-- The sections, one after another. -/
theorem sections_reached (done sections : List (PyStr × Options)) (sectname : Option PyStr) (optname : PyStr)
    (hdistinct : (keys (done ++ sections)).Nodup)
    (h : ∀ found ∈ sections, PlainSection optionxform defaultSection found) :
    ∃ sectname' optname', (sections.flatMap sectionLines).foldlM (Reading.line optionxform defaultSection)
      (reached done sectname optname) = .ok (reached (done ++ sections) sectname' optname') := by
  induction sections generalizing done sectname optname with
  | nil => exact ⟨sectname, optname, by rw [List.append_nil]; rfl⟩
  | cons found sections ih =>
    rw [List.forall_mem_cons] at h
    obtain ⟨name, options⟩ := found
    have hname : name ∉ keys done := by
      rw [keys_append, List.nodup_append] at hdistinct
      exact fun hmem => hdistinct.2.2 _ hmem _ List.mem_cons_self rfl
    have hrest : (keys (done ++ [(name, options)] ++ sections)).Nodup := by
      rwa [List.append_assoc, List.singleton_append]
    have hheader : (reached done sectname optname).line optionxform defaultSection (91 :: (name ++ [93])) =
        .ok (reached (done ++ [(name, [])]) (some name) []) := by
      rw [line_header _ h.1.name_ne]
      show (if name ∈ keys (done.map opened) then _ else _) = _
      rw [keys_opened, if_neg hname]
      show Except.ok (Reading.mk [] (if some name = defaultSection then done.map opened
        else done.map opened ++ [(name, [])]) (some name) [] 0 false) = _
      rw [if_neg h.1.notDefault, reached, List.map_append]
      rfl
    obtain ⟨last, hoptions⟩ := options_reached [] options [] hname h.1.distinct h.1.options
    obtain ⟨sectname', optname', hsections⟩ := ih (done ++ [(name, options)]) (some name) last hrest h.2
    refine ⟨sectname', optname', ?_⟩
    rw [List.flatMap_cons, sectionLines, List.cons_append, List.foldlM_cons, hheader]
    show List.foldlM _ _ _ = _
    rw [List.foldlM_append, hoptions]
    show List.foldlM _ _ _ = _
    rw [List.nil_append, hsections, List.append_assoc, List.singleton_append]

theorem joinValues_opened {options : Options} (h : ∀ option ∈ options, PlainOption optionxform option) :
    joinValues (options.map fun option => (option.1, [option.2])) = options := by
  rw [joinValues, List.map_map]
  refine (List.map_congr_left fun option hoption => ?_).trans (List.map_id options)
  show (option.1, ([10].intercalate [option.2]).rdropWhile isSpace) = option
  rw [List.intercalate_singleton, rdropWhile_space (h option hoption).value_last]

/-- No line of a section is broken. -/
theorem mem_sectionLines {found : PyStr × Options} (h : PlainSection optionxform defaultSection found)
    {line : PyStr} (hline : line ∈ sectionLines found) : ∀ c ∈ line, c ≠ 10 ∧ c ≠ 13 := by
  intro c hc
  rcases List.mem_cons.mp hline with rfl | hline
  · rcases List.mem_cons.mp hc with rfl | hc
    · decide
    · rcases List.mem_append.mp hc with hc | hc
      · exact h.name_line c hc
      · rw [List.mem_singleton.mp hc]
        decide
  · obtain ⟨option, hoption, rfl⟩ := List.mem_map.mp hline
    have hplain := h.options option hoption
    rcases List.mem_append.mp hc with hc | hc
    · rcases List.mem_append.mp hc with hc | hc
      · have hspace := (hplain.name_chars c hc).1
        constructor
        · rintro rfl
          exact absurd hspace (by decide)
        · rintro rfl
          exact absurd hspace (by decide)
      · have hblank : ∀ c ∈ lit " = ", c ≠ 10 ∧ c ≠ 13 := by decide
        exact hblank c hc
    · exact hplain.value_line c hc

/-- **Round trip.**  Sections that are written one after another are read back: each name
once, with its options and no others. -/
theorem read_render {sections : List (PyStr × Options)} (hdistinct : (keys sections).Nodup)
    (h : ∀ found ∈ sections, PlainSection optionxform defaultSection found) :
    read optionxform defaultSection (render sections) = .ok ⟨[], sections⟩ := by
  have hlines : ∀ line ∈ sections.flatMap sectionLines, ∀ c ∈ line, c ≠ 10 ∧ c ≠ 13 := by
    intro line hline
    obtain ⟨found, hfound, hline⟩ := List.mem_flatMap.mp hline
    exact mem_sectionLines (h found hfound) hline
  have hreturn : 13 ∉ render sections := by
    intro hmem
    obtain ⟨line, hline, hmem⟩ := List.mem_flatMap.mp hmem
    rcases List.mem_append.mp hmem with hmem | hmem
    · exact (hlines line hline 13 hmem).2 rfl
    · exact absurd hmem (by decide)
  have hfile : fileLines (render sections) = sections.flatMap sectionLines :=
    fileLines_unlines fun line hline hmem => (hlines line hline 10 hmem).1 rfl
  obtain ⟨sectname, optname, hfold⟩ := sections_reached [] sections none [] hdistinct h
  unfold read
  rw [SshConfig.readText_of_notMem hreturn, hfile, show Reading.start = reached [] none [] from rfl, hfold]
  show Except.ok (Config.mk [] ((sections.map opened).map _)) = _
  rw [List.map_map]
  congr 2
  refine (List.map_congr_left fun found hfound => ?_).trans (List.map_id sections)
  show (found.1, joinValues (found.2.map fun option => (option.1, [option.2]))) = found
  rw [joinValues_opened (h found hfound).options]

end ConfigParser
