/-
# What the parser of Host blocks reads

A line of two blanks, a keyword, a blank and a value gives the keyword and the value
(`fieldOf_indented`), and whatever a block holds was read off a line of the text
(`exists_line_of_parse`).
-/
import Yolobox.Ssh.Config

namespace SshConfig

/-! ## White space and quotes -/

section trim

variable {p : ℕ → Bool} {text : PyStr} {c : ℕ}

/-- Characters that go from both ends. -/
def trim (p : ℕ → Bool) (text : PyStr) : PyStr := (text.dropWhile p).rdropWhile p

theorem trim_eq_self (h : trim p text = text) :
    text.dropWhile p = text ∧ text.rdropWhile p = text := by
  have hdrop : text.dropWhile p = text := by
    refine (List.dropWhile_suffix _).eq_of_length_le ?_
    calc text.length = (trim p text).length := by rw [h]
      _ ≤ (text.dropWhile p).length := (List.rdropWhile_prefix _ _).length_le
  rw [trim, hdrop] at h
  exact ⟨hdrop, h⟩

theorem trim_of_forall (h : ∀ c ∈ text, p c = false) : trim p text = text := by
  have hdrop : text.dropWhile p = text := by
    cases text with
    | nil => rfl
    | cons c rest => exact List.dropWhile_cons_of_neg (by simp [h c List.mem_cons_self])
  rw [trim, hdrop, List.rdropWhile_eq_self_iff]
  exact fun hne => by simp [h _ (List.getLast_mem hne)]

theorem trim_trim (text : PyStr) : trim p (trim p text) = trim p text := by
  have hdrop : (trim p text).dropWhile p = trim p text := by
    rw [List.dropWhile_eq_self_iff]
    intro hlength hc
    have hpre : trim p text <+: text.dropWhile p := List.rdropWhile_prefix _ _
    rw [hpre.getElem hlength] at hc
    exact List.dropWhile_get_zero_not _ _ (hlength.trans_le hpre.length_le) hc
  rw [trim, hdrop]
  exact List.rdropWhile_idempotent _ _

theorem mem_of_mem_trim (h : c ∈ trim p text) : c ∈ text :=
  (List.dropWhile_suffix _).subset ((List.rdropWhile_prefix _ _).subset h)

/-- A text that ends in none of the characters is kept from the right. -/
theorem rdropWhile_append (hne : text ≠ []) (hlast : p (text.getLast hne) = false)
    (rest : PyStr) : (text ++ rest).rdropWhile p = text ++ rest.rdropWhile p := by
  induction rest using List.reverseRecOn with
  | nil =>
    rw [List.append_nil, List.rdropWhile_nil, List.append_nil, List.rdropWhile_eq_self_iff]
    exact fun _ => by simp [hlast]
  | append_singleton rest c ih =>
    rw [← List.append_assoc, List.rdropWhile_concat, List.rdropWhile_concat, ih]
    split_ifs
    · rfl
    · exact List.append_assoc _ _ _

end trim

variable {text line key value : PyStr} {c : ℕ}

theorem strip_eq_trim (text : PyStr) : strip text = trim isSpace text := rfl

theorem stripQuotes_eq_trim (text : PyStr) : stripQuotes text = trim (· == 34) text := rfl

theorem strip_cons_of_isSpace (hc : isSpace c = true) (rest : PyStr) :
    strip (c :: rest) = strip rest := by
  rw [strip, strip, List.dropWhile_cons_of_pos hc]

/-- What is left of a text that begins with a word. -/
theorem strip_append (hkey : key ≠ []) (hspace : ∀ c ∈ key, isSpace c = false) (rest : PyStr) :
    strip (key ++ rest) = key ++ rest.rdropWhile isSpace := by
  have hhead : (key ++ rest).dropWhile isSpace = key ++ rest := by
    obtain ⟨k, ks, rfl⟩ := List.exists_cons_of_ne_nil hkey
    exact List.dropWhile_cons_of_neg (by simp [hspace k List.mem_cons_self])
  rw [strip, hhead, rdropWhile_append hkey (hspace _ (List.getLast_mem hkey))]

/-- Quotes keep what they enclose from `strip`. -/
theorem strip_quoted (text : PyStr) : strip (quoted text) = quoted text := by
  have hword : strip ([34] ++ (text ++ [34])) = [34] ++ (text ++ [34]).rdropWhile isSpace :=
    strip_append (by simp) (by decide) _
  rwa [List.rdropWhile_concat_neg _ _ _ (by decide)] at hword

/-- The quotes around a value go, and no others. -/
theorem stripQuotes_quoted (h : stripQuotes text = text) : stripQuotes (quoted text) = text := by
  obtain ⟨hdrop, hrdrop⟩ := trim_eq_self h
  rw [stripQuotes, quoted, List.dropWhile_cons_of_pos (by rfl)]
  cases text with
  | nil => rfl
  | cons c rest =>
    have hc : ¬ (c == 34) = true := by
      rw [List.dropWhile_eq_self_iff] at hdrop
      exact hdrop (by simp)
    rw [List.cons_append, List.dropWhile_cons_of_neg (p := (· == 34)) hc, ← List.cons_append,
      List.rdropWhile_concat_pos _ _ _ (by rfl), hrdrop]

theorem stripQuotes_of_notMem (h : 34 ∉ text) : stripQuotes text = text :=
  trim_of_forall fun c hc => by
    rw [beq_eq_false_iff_ne]
    rintro rfl
    exact h hc

/-! ## Lines -/

theorem partition?_word (hkey : 32 ∉ key) (rest : PyStr) :
    partition? [32] (key ++ 32 :: rest) = some (key, rest) := by
  induction key with
  | nil => rfl
  | cons k ks ih =>
    rw [List.mem_cons, not_or] at hkey
    rw [List.cons_append, partition?, ih hkey.2, if_neg]
    · rfl
    · simp [List.isPrefixOf, hkey.1]

theorem partition?_none (hkey : 32 ∉ key) : partition? [32] key = none := by
  induction key with
  | nil => rfl
  | cons k ks ih =>
    rw [List.mem_cons, not_or] at hkey
    rw [partition?, ih hkey.2, if_neg]
    · rfl
    · simp [List.isPrefixOf, hkey.1]

/-- A word of an ssh config. -/
structure Keyword (key : PyStr) : Prop where
  ne_nil : key ≠ []
  noSpace : ∀ c ∈ key, isSpace c = false

theorem Keyword.notMem (h : Keyword key) : 32 ∉ key := fun hmem => by
  have hspace := h.noSpace 32 hmem
  exact absurd hspace (by decide)

/-- The line of a keyword and a value. -/
def indented (key value : PyStr) : PyStr := lit "  " ++ key ++ lit " " ++ value

theorem strip_indented (hkey : Keyword key) (value : PyStr) :
    strip (indented key value) = key ++ (32 :: value).rdropWhile isSpace := by
  have hline : indented key value = 32 :: 32 :: (key ++ 32 :: value) := by
    simp [indented, lit]
  rw [hline, strip_cons_of_isSpace (by rfl), strip_cons_of_isSpace (by rfl),
    strip_append hkey.ne_nil hkey.noSpace]

theorem fieldOf_of_strip (hkey : Keyword key) {rest : PyStr}
    (h : strip line = key ++ 32 :: rest) : fieldOf line = (key, stripQuotes (strip rest)) := by
  unfold fieldOf partition
  rw [h, show lit " " = [32] from rfl, partition?_word hkey.notMem]
  rfl

/-- The keyword is read, whatever the value is. -/
theorem fieldOf_indented_fst (hkey : Keyword key) (value : PyStr) :
    (fieldOf (indented key value)).1 = key := by
  have hstrip := strip_indented hkey value
  have hpre : (32 :: value).rdropWhile isSpace <+: 32 :: value := List.rdropWhile_prefix _ _
  rcases List.prefix_cons_iff.mp hpre with hnil | ⟨rest, hrest, -⟩
  · rw [hnil, List.append_nil] at hstrip
    unfold fieldOf partition
    rw [hstrip, show lit " " = [32] from rfl, partition?_none hkey.notMem]
    rfl
  · rw [hrest] at hstrip
    rw [fieldOf_of_strip hkey hstrip]

/-- **The keyword and the value of a line.** -/
theorem fieldOf_indented (hkey : Keyword key) (hne : value ≠ []) (hvalue : strip value = value) :
    fieldOf (indented key value) = (key, stripQuotes value) := by
  obtain ⟨-, hrdrop⟩ := trim_eq_self (hvalue : trim isSpace value = value)
  have hlast := List.rdropWhile_eq_self_iff.mp hrdrop hne
  have hkept : (32 :: value).rdropWhile isSpace = 32 :: value := by
    rw [List.rdropWhile_eq_self_iff]
    intro hcons
    rwa [List.getLast_cons hne]
  have hstrip := strip_indented hkey value
  rw [hkept] at hstrip
  rw [fieldOf_of_strip hkey hstrip, hvalue]

theorem fieldOf_quoted (hkey : Keyword key) (hvalue : stripQuotes value = value) :
    fieldOf (indented key (quoted value)) = (key, value) := by
  have hne : quoted value ≠ [] := List.cons_ne_nil _ _
  rw [fieldOf_indented hkey hne (strip_quoted value), stripQuotes_quoted hvalue]

/-! ## What is read was there -/

theorem oneLine_of_mem_splitlines (h : line ∈ splitlines text) : OneLine line := by
  fun_induction splitlines text generalizing line with
  | case1 => exact absurd h List.not_mem_nil
  | case2 rest ih =>
    rcases List.mem_cons.mp h with rfl | h
    · exact fun _ hc => absurd hc List.not_mem_nil
    · exact ih h
  | case3 c rest _ _ ih =>
    rcases List.mem_cons.mp h with rfl | h
    · exact fun _ hc => absurd hc List.not_mem_nil
    · exact ih h
  | case4 c rest _ hbreak _ _ =>
    rw [List.mem_singleton.mp h, OneLine, List.forall_mem_singleton]
    exact Bool.not_eq_true _ ▸ hbreak
  | case5 c rest _ hbreak first lines hlines ih =>
    rw [hlines] at ih
    rcases List.mem_cons.mp h with rfl | h
    · rw [OneLine, List.forall_mem_cons]
      exact ⟨Bool.not_eq_true _ ▸ hbreak, ih List.mem_cons_self⟩
    · exact ih (List.mem_cons_of_mem _ h)

/-- The values of a block. -/
def SshHostBlock.values (block : SshHostBlock) : List PyStr :=
  block.hostname :: block.port :: (block.identityFiles ++ block.identityAgent.toList)

/-- The values a scan holds. -/
def Seen.values (seen : Seen) : List PyStr := seen.first.map Prod.snd ++ seen.identityFiles

theorem mem_values_line {seen : Seen} (h : value ∈ (seen.line line).values) :
    value ∈ seen.values ∨ value = (fieldOf line).2 := by
  unfold Seen.line at h
  simp only at h
  split_ifs at h with hfile hempty hkey
  · rw [Seen.values, ← List.append_assoc, List.mem_append, List.mem_singleton] at h
    exact h
  · exact .inl h
  · unfold Seen.setdefault at h
    split_ifs at h
    · exact .inl h
    · rw [Seen.values, List.map_cons, List.cons_append, List.mem_cons] at h
      exact h.symm
  · exact .inl h

theorem mem_values_foldl {lines : List PyStr} {seen : Seen}
    (h : value ∈ (lines.foldl Seen.line seen).values) :
    value ∈ seen.values ∨ ∃ line ∈ lines, value = (fieldOf line).2 := by
  induction lines generalizing seen with
  | nil => exact .inl h
  | cons line lines ih =>
    rcases ih h with hseen | ⟨l, hl, hvalue⟩
    · rcases mem_values_line hseen with hold | hnew
      · exact .inl hold
      · exact .inr ⟨line, List.mem_cons_self, hnew⟩
    · exact .inr ⟨l, List.mem_cons_of_mem _ hl, hvalue⟩

theorem orNone_eq_some {found : Option PyStr} (h : orNone found = some value) :
    found = some value ∧ value ≠ [] := by
  unfold orNone at h
  split at h
  · cases h
  · rename_i hne
    refine ⟨h, ?_⟩
    rintro rfl
    exact hne h

theorem mem_values_of_get {seen : Seen} (h : orNone (seen.get key) = some value) :
    value ∈ seen.values ∧ value ≠ [] := by
  obtain ⟨hget, hne⟩ := orNone_eq_some h
  obtain ⟨before, after, hfirst, -⟩ := List.lookup_eq_some_iff.mp hget
  refine ⟨List.mem_append_left _ (List.mem_map.mpr ⟨(key, value), ?_, rfl⟩), hne⟩
  rw [hfirst]
  exact List.mem_append_right _ List.mem_cons_self

/-- No empty identity file is kept. -/
theorem identityFiles_ne_nil {lines : List PyStr} {seen : Seen}
    (hseen : ∀ v ∈ seen.identityFiles, v ≠ []) :
    ∀ v ∈ (lines.foldl Seen.line seen).identityFiles, v ≠ [] := by
  induction lines generalizing seen with
  | nil => exact hseen
  | cons line lines ih =>
    refine ih fun v hv => ?_
    unfold Seen.line at hv
    simp only at hv
    split_ifs at hv with hfile hvalue hkey
    · rcases List.mem_append.mp hv with hv | hv
      · exact hseen v hv
      · rw [List.mem_singleton.mp hv]
        exact hvalue
    · exact hseen v hv
    · unfold Seen.setdefault at hv
      split_ifs at hv <;> exact hseen v hv
    · exact hseen v hv

/-- What a block holds, the scan held, and none of it is empty. -/
theorem mem_values_block {seen : Seen} {block : SshHostBlock} (h : seen.block = some block)
    (hne : ∀ v ∈ seen.identityFiles, v ≠ []) (hvalue : value ∈ block.values) :
    value ∈ seen.values ∧ value ≠ [] := by
  unfold Seen.block at h
  split at h
  · rename_i hostname port identity identities hhostname hport hidentities
    obtain rfl := Option.some.inj h
    simp only [SshHostBlock.values, List.mem_cons, List.mem_append, Option.mem_toList] at hvalue
    have hidentity : ∀ v ∈ identity :: identities, v ∈ seen.values ∧ v ≠ [] := by
      rw [← hidentities]
      exact fun v hv => ⟨List.mem_append_right _ hv, hne v hv⟩
    rw [List.forall_mem_cons] at hidentity
    rcases hvalue with rfl | rfl | (rfl | hmem) | hagent
    · exact mem_values_of_get hhostname
    · exact mem_values_of_get hport
    · exact hidentity.1
    · exact hidentity.2 value hmem
    · exact mem_values_of_get hagent
  · cases h

/-- **Whatever a parsed block holds was the value of a line**, and is not empty. -/
theorem exists_line_of_parse {host : PyStr} {block : SshHostBlock}
    (h : parseSshHostBlock text host = some block) (hvalue : value ∈ block.values) :
    value ≠ [] ∧ ∃ line ∈ splitlines text, value = (fieldOf line).2 := by
  unfold parseSshHostBlock at h
  split at h
  · cases h
  · rename_i first lines hlines
    obtain ⟨hmem, hne⟩ := mem_values_block h (identityFiles_ne_nil nofun) hvalue
    refine ⟨hne, ?_⟩
    rcases mem_values_foldl hmem with hnil | ⟨line, hline, heq⟩
    · exact absurd hnil List.not_mem_nil
    · refine ⟨line, ?_, heq⟩
      have hrest : line ∈ first :: lines :=
        List.mem_cons_of_mem _ ((List.takeWhile_prefix _).subset hline)
      rw [← hlines] at hrest
      exact (List.dropWhile_suffix _).subset hrest

/-- What is before the separator, the separator, and what is after it. -/
theorem eq_of_partition? {sep before after : PyStr}
    (h : partition? sep text = some (before, after)) : text = before ++ sep ++ after := by
  induction text generalizing before with
  | nil => cases h
  | cons c rest ih =>
    rw [partition?] at h
    split_ifs at h with hstart
    · obtain ⟨rfl, rfl⟩ := Prod.mk.inj (Option.some.inj h)
      obtain ⟨tail, htail⟩ := startswith_iff.mp hstart
      rw [htail, List.drop_left, List.nil_append]
    · rw [Option.map_eq_some_iff] at h
      obtain ⟨⟨before', after'⟩, hrest, heq⟩ := h
      obtain ⟨rfl, rfl⟩ := Prod.mk.inj heq
      rw [ih hrest, List.cons_append, List.cons_append]

theorem mem_partition {sep : PyStr} (h : c ∈ (partition sep text).2) : c ∈ text := by
  unfold partition at h
  cases hparts : partition? sep text with
  | none =>
    rw [hparts] at h
    exact absurd h List.not_mem_nil
  | some parts =>
    rw [hparts] at h
    rw [eq_of_partition? hparts]
    exact List.mem_append_right _ h

/-- A parsed value has no line break. -/
theorem oneLine_of_parse {host : PyStr} {block : SshHostBlock}
    (h : parseSshHostBlock text host = some block) (hvalue : value ∈ block.values) :
    OneLine value := by
  obtain ⟨-, line, hline, rfl⟩ := exists_line_of_parse h hvalue
  intro c hc
  refine oneLine_of_mem_splitlines hline c ?_
  exact mem_of_mem_trim (mem_partition (mem_of_mem_trim (mem_of_mem_trim hc)))

/-- A parsed value has no quotes at its ends. -/
theorem stripQuotes_of_parse {host : PyStr} {block : SshHostBlock}
    (h : parseSshHostBlock text host = some block) (hvalue : value ∈ block.values) :
    stripQuotes value = value := by
  obtain ⟨-, line, -, rfl⟩ := exists_line_of_parse h hvalue
  exact trim_trim _

end SshConfig
