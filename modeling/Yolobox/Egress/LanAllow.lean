/-
# The spelling of `lanAllow` entries

What the checks of `nix/egress.nix` accept, spelled out: an IPv4 range is four octets and a
prefix, an IPv6 range eight groups, or at most seven with one `::`, and a prefix.  The
numbers are in decimal without leading zeros.
-/
import Yolobox.Egress.Cidr
import Yolobox.Lib.Lists

namespace Egress

/-! ## The grammar -/

/-- The text of a list of groups, a colon between any two. -/
def colons (groups : List PyStr) : PyStr := [58].intercalate groups

/-- An IPv4 range: `dec` has no leading zeros. -/
def IsV4Range (entry : PyStr) : Prop :=
  ∃ octets : List ℕ, octets.length = 4 ∧ (∀ octet ∈ octets, octet ≤ 255) ∧
    ∃ length ≤ 32, entry = [46].intercalate (octets.map dec) ++ 47 :: dec length

/-- A group of one to four hexadecimal digits. -/
structure IsGroup (group : PyStr) : Prop where
  pos : 0 < group.length
  le : group.length ≤ 4
  digits : ∀ c ∈ group, isHexDigit c = true

/-- The text form of an IPv6 address in hexadecimal. -/
inductive IsV6Text : PyStr → Prop
  | full {groups : List PyStr} (hlength : groups.length = 8) (hgroups : ∀ g ∈ groups, IsGroup g) :
      IsV6Text (colons groups)
  | compressed {before after : List PyStr} (hlength : before.length + after.length ≤ 7)
      (hbefore : ∀ g ∈ before, IsGroup g) (hafter : ∀ g ∈ after, IsGroup g) :
      IsV6Text (colons before ++ 58 :: 58 :: colons after)

def IsV6Range (entry : PyStr) : Prop :=
  ∃ addr, IsV6Text addr ∧ ∃ length ≤ 128, entry = addr ++ 47 :: dec length

/-- What a range is made of: hexadecimal digits, colons, dots and slashes. -/
def isRangeChar (c : ℕ) : Bool := isHexDigit c || c == 58 || c == 46 || c == 47

/-! ## Numerals -/

theorem isHexDigit_of_isDigit {c : ℕ} (h : isDigit c = true) : isHexDigit c = true := by
  rw [isHexDigit, h, Bool.true_or, Bool.true_or]

theorem isDigit_of_isNumeral {text : PyStr} (h : isNumeral text = true) {c : ℕ} (hc : c ∈ text) :
    isDigit c = true := by
  cases text with
  | nil => exact absurd hc List.not_mem_nil
  | cons first rest =>
    simp only [isNumeral, Bool.or_eq_true, Bool.and_eq_true, beq_iff_eq, List.isEmpty_iff,
      decide_eq_true_eq, List.all_eq_true] at h
    rcases h with ⟨rfl, rfl⟩ | ⟨⟨⟨hlow, hhigh⟩, -⟩, hrest⟩
    · rw [List.mem_singleton.mp hc]
      rfl
    · rcases List.mem_cons.mp hc with rfl | hc
      · simp only [isDigit, Bool.and_eq_true, decide_eq_true_eq]
        omega
      · exact hrest c hc

/-- **A numeral of the checks** is a number below a thousand in decimal. -/
theorem isNumeral_iff {text : PyStr} : isNumeral text = true ↔ ∃ n < 1000, text = dec n := by
  constructor
  · intro h
    have hdigits : ∀ c ∈ text, isDigit c = true := fun c hc => isDigit_of_isNumeral h hc
    cases text with
    | nil => exact absurd h Bool.false_ne_true
    | cons first rest =>
      simp only [isNumeral, Bool.or_eq_true, Bool.and_eq_true, beq_iff_eq, List.isEmpty_iff,
        decide_eq_true_eq] at h
      rcases h with ⟨rfl, rfl⟩ | ⟨⟨⟨hlow, -⟩, hlength⟩, -⟩
      · exact ⟨0, by norm_num, rfl⟩
      · have hhead : (first :: rest).head? ≠ some 48 := by
          rw [List.head?_cons, ne_eq, Option.some.injEq]
          omega
        obtain ⟨-, hdec⟩ := dec_num (List.cons_ne_nil first rest) hdigits hhead
        refine ⟨num (first :: rest), ?_, hdec.symm⟩
        have hle : (dec (num (first :: rest))).length ≤ 3 := by
          rw [hdec, List.length_cons]
          omega
        exact (length_dec_le_iff (by norm_num)).mp hle
  · rintro ⟨n, hn, rfl⟩
    have hlength : (dec n).length ≤ 3 := (length_dec_le_iff (by norm_num)).mpr hn
    have hdigits : ∀ c ∈ dec n, isDigit c = true := fun c hc => isDigit_of_mem_dec hc
    rcases Nat.eq_zero_or_pos n with rfl | hpos
    · rfl
    · have hhead := head_dec_ne_zero hpos
      cases hdec : dec n with
      | nil => exact absurd hdec (dec_ne_nil n)
      | cons first rest =>
        rw [hdec] at hlength hdigits hhead
        rw [List.forall_mem_cons] at hdigits
        rw [List.head?_cons, ne_eq, Option.some.injEq] at hhead
        rw [List.length_cons] at hlength
        have hfirst := hdigits.1
        simp only [isDigit, Bool.and_eq_true, decide_eq_true_eq] at hfirst
        simp only [isNumeral, Bool.or_eq_true, Bool.and_eq_true, decide_eq_true_eq, List.all_eq_true]
        exact Or.inr ⟨⟨⟨by omega, hfirst.2⟩, by omega⟩, hdigits.2⟩

theorem notMem_dec_of_not_isDigit {n c : ℕ} (hc : isDigit c = false) : c ∉ dec n := by
  intro hmem
  rw [isDigit_of_mem_dec hmem] at hc
  exact Bool.noConfusion hc

/-- **An entry** is an address, a slash and a prefix. -/
theorem cidrSplit_iff {entry addr length : PyStr} :
    cidrSplit entry = some (addr, length) ↔
      entry = addr ++ 47 :: length ∧ addr ≠ [] ∧ 47 ∉ addr ∧ isNumeral length = true := by
  have hsplit : entry.splitOn 47 = [addr, length] ↔ entry = addr ++ 47 :: length ∧ 47 ∉ addr ∧ 47 ∉ length := by
    rw [Lists.splitOn_eq_iff (List.cons_ne_nil addr [length]), List.intercalate_cons_cons,
      List.intercalate_singleton, List.append_assoc, List.singleton_append]
    simp
  constructor
  · intro h
    unfold cidrSplit at h
    split at h
    · rename_i addr' length' hparts
      split_ifs at h with hchecks
      obtain ⟨rfl, rfl⟩ := Prod.mk.injEq .. ▸ Option.some.inj h
      obtain ⟨hentry, haddr, -⟩ := hsplit.mp hparts
      simp only [Bool.and_eq_true, Bool.not_eq_true', List.isEmpty_eq_false_iff] at hchecks
      exact ⟨hentry, hchecks.1, haddr, hchecks.2⟩
    · cases h
  · rintro ⟨hentry, hne, haddr, hlength⟩
    have hslash : 47 ∉ length := fun hmem => absurd (isDigit_of_isNumeral hlength hmem) (by decide)
    rw [cidrSplit, hsplit.mpr ⟨hentry, haddr, hslash⟩]
    simp [hlength, hne]

/-- What is read before the slash and what the prefix is. -/
theorem isCidr_iff {isAddr : PyStr → Bool} {maxPrefix : ℕ} (hmax : maxPrefix < 1000)
    (haddr : ∀ addr, isAddr addr = true → addr ≠ [] ∧ 47 ∉ addr) {entry : PyStr} :
    isCidr isAddr maxPrefix entry = true ↔
      ∃ addr, isAddr addr = true ∧ ∃ length ≤ maxPrefix, entry = addr ++ 47 :: dec length := by
  unfold isCidr
  constructor
  · intro h
    split at h
    · cases h
    · rename_i addr text hsplit
      obtain ⟨rfl, -, -, hnumeral⟩ := cidrSplit_iff.mp hsplit
      obtain ⟨length, -, rfl⟩ := isNumeral_iff.mp hnumeral
      simp only [num_dec, Bool.and_eq_true, decide_eq_true_eq] at h
      exact ⟨addr, h.1, length, h.2, rfl⟩
  · rintro ⟨addr, hisAddr, length, hlength, rfl⟩
    obtain ⟨hne, hslash⟩ := haddr addr hisAddr
    have hnumeral : isNumeral (dec length) = true := isNumeral_iff.mpr ⟨length, by omega, rfl⟩
    rw [cidrSplit_iff.mpr ⟨rfl, hne, hslash, hnumeral⟩]
    simp [hisAddr, hlength]

/-! ## IPv4 -/

theorem isV4Addr_iff {addr : PyStr} :
    isV4Addr addr = true ↔ ∃ octets : List ℕ, octets.length = 4 ∧ (∀ octet ∈ octets, octet ≤ 255) ∧
      addr = [46].intercalate (octets.map dec) := by
  unfold isV4Addr v4Octets
  constructor
  · intro h
    split at h
    · cases h
    · rename_i texts hoctets
      simp only at hoctets
      split_ifs at hoctets with hchecks
      simp only [Bool.and_eq_true, beq_iff_eq, List.all_eq_true] at hchecks
      rw [Option.some.injEq] at hoctets
      rw [← hoctets, List.all_eq_true] at h
      obtain ⟨hlength, hnumerals⟩ := hchecks
      refine ⟨(addr.splitOn 46).map num, by rw [List.length_map, hlength], ?_, ?_⟩
      · intro octet hoctet
        obtain ⟨text, htext, rfl⟩ := List.mem_map.mp hoctet
        exact of_decide_eq_true (h text htext)
      · have hdec : ∀ text ∈ addr.splitOn 46, dec (num text) = text := by
          intro text htext
          obtain ⟨n, -, rfl⟩ := isNumeral_iff.mp (hnumerals text htext)
          rw [num_dec]
        have hmap : ((addr.splitOn 46).map num).map dec = addr.splitOn 46 := by
          rw [List.map_map]
          exact (List.map_congr_left hdec).trans (List.map_id _)
        rw [hmap]
        exact (List.intercalate_splitOn 46).symm
  · rintro ⟨octets, hlength, hle, haddr⟩
    have hsplit : addr.splitOn 46 = octets.map dec := by
      refine (Lists.splitOn_eq_iff ?_).mpr ⟨haddr, ?_⟩
      · rw [ne_eq, List.map_eq_nil_iff]
        rintro rfl
        cases hlength
      · intro text htext
        obtain ⟨n, -, rfl⟩ := List.mem_map.mp htext
        exact notMem_dec_of_not_isDigit (by decide)
    have hnumerals : (octets.map dec).all isNumeral = true := by
      rw [List.all_map, List.all_eq_true]
      intro n hn
      exact isNumeral_iff.mpr ⟨n, by have := hle n hn; omega, rfl⟩
    simp only [hsplit, List.length_map, hlength, hnumerals, beq_self_eq_true, Bool.and_self, if_true,
      List.all_map, List.all_eq_true, Function.comp_apply, num_dec, decide_eq_true_eq]
    exact hle

/-- An address is a text of digits and dots. -/
theorem mem_v4Addr {addr : PyStr} (h : isV4Addr addr = true) {c : ℕ} (hc : c ∈ addr) :
    isDigit c = true ∨ c = 46 := by
  obtain ⟨octets, -, -, rfl⟩ := isV4Addr_iff.mp h
  rcases Lists.mem_intercalate hc with hdot | ⟨text, htext, hc⟩
  · exact .inr (List.mem_singleton.mp hdot)
  · obtain ⟨n, -, rfl⟩ := List.mem_map.mp htext
    exact .inl (isDigit_of_mem_dec hc)

theorem isV4Addr_ne_nil {addr : PyStr} (h : isV4Addr addr = true) : addr ≠ [] := by
  rintro rfl
  exact absurd h (by decide)

/-- **What `isV4` accepts.** -/
theorem isV4_iff {entry : PyStr} : isV4 entry = true ↔ IsV4Range entry := by
  have haddr : ∀ addr, isV4Addr addr = true → addr ≠ [] ∧ 47 ∉ addr := by
    intro addr h
    refine ⟨isV4Addr_ne_nil h, fun hslash => ?_⟩
    rcases mem_v4Addr h hslash with hdigit | heq
    · exact absurd hdigit (by decide)
    · exact absurd heq (by decide)
  rw [isV4, isCidr_iff (by norm_num) haddr]
  constructor
  · rintro ⟨addr, h, length, hlength, rfl⟩
    obtain ⟨octets, hfour, hle, rfl⟩ := isV4Addr_iff.mp h
    exact ⟨octets, hfour, hle, length, hlength, rfl⟩
  · rintro ⟨octets, hfour, hle, length, hlength, rfl⟩
    exact ⟨_, isV4Addr_iff.mpr ⟨octets, hfour, hle, rfl⟩, length, hlength, rfl⟩

/-! ## IPv6 -/

theorem splitDoubleColon_ne_nil (text : PyStr) : splitDoubleColon text ≠ [] := by
  unfold splitDoubleColon
  split
  · exact List.cons_ne_nil _ _
  · exact List.cons_ne_nil _ _
  · split <;> exact List.cons_ne_nil _ _

theorem splitDoubleColon_pair (rest : PyStr) :
    splitDoubleColon (58 :: 58 :: rest) = [] :: splitDoubleColon rest := by
  rw [splitDoubleColon]

/-- A character that no pair of colons starts at goes on with the first part. -/
theorem splitDoubleColon_cons {c : ℕ} {rest : PyStr} (hpair : c = 58 → rest.head? ≠ some 58) :
    splitDoubleColon (c :: rest) = (splitDoubleColon rest).modifyHead (c :: ·) := by
  have hnot : ∀ more, c = 58 → rest = 58 :: more → False := by
    rintro more hc rfl
    exact hpair hc rfl
  obtain ⟨part, parts, hparts⟩ := List.exists_cons_of_ne_nil (splitDoubleColon_ne_nil rest)
  rw [splitDoubleColon.eq_3 c rest hnot, hparts]
  rfl

/-- Joined again, the parts are the text. -/
theorem intercalate_splitDoubleColon (text : PyStr) :
    [58, 58].intercalate (splitDoubleColon text) = text := by
  induction hlength : text.length using Nat.strong_induction_on generalizing text with
  | _ length ih =>
    by_cases hpair : ∃ rest, text = 58 :: 58 :: rest
    · obtain ⟨rest, rfl⟩ := hpair
      have hrest := ih rest.length (by rw [← hlength]; simp) rest rfl
      rw [splitDoubleColon_pair, List.intercalate_cons_of_ne_nil (splitDoubleColon_ne_nil rest), hrest]
      rfl
    · cases text with
      | nil => rfl
      | cons c rest =>
        have hrest := ih rest.length (by rw [← hlength]; simp) rest rfl
        have hhead : c = 58 → rest.head? ≠ some 58 := by
          rintro rfl hsome
          obtain ⟨more, rfl⟩ := List.head?_eq_some_iff.mp hsome
          exact hpair ⟨more, rfl⟩
        obtain ⟨part, parts, hparts⟩ := List.exists_cons_of_ne_nil (splitDoubleColon_ne_nil rest)
        rw [hparts] at hrest
        rw [splitDoubleColon_cons hhead, hparts, List.modifyHead_cons, List.intercalate_cons_cons_left,
          hrest]

theorem splitDoubleColon_append {start : PyStr} (hstart : 58 ∉ start) (rest : PyStr) :
    splitDoubleColon (start ++ rest) = (splitDoubleColon rest).modifyHead (start ++ ·) := by
  induction start with
  | nil => exact (List.modifyHead_id ▸ rfl)
  | cons c start ih =>
    rw [List.mem_cons, not_or] at hstart
    rw [List.cons_append, splitDoubleColon_cons fun hc => absurd hc.symm hstart.1, ih hstart.2,
      List.modifyHead_modifyHead]
    rfl

/-- **Groups are not split.** -/
theorem splitDoubleColon_colons {groups : List PyStr} (hgroups : ∀ g ∈ groups, g ≠ [] ∧ 58 ∉ g)
    (rest : PyStr) :
    splitDoubleColon (colons groups ++ rest) = (splitDoubleColon rest).modifyHead (colons groups ++ ·) := by
  induction groups with
  | nil => exact (List.modifyHead_id ▸ rfl)
  | cons g groups ih =>
    rw [List.forall_mem_cons] at hgroups
    cases groups with
    | nil =>
      rw [colons, List.intercalate_singleton]
      exact splitDoubleColon_append hgroups.1.2 rest
    | cons second groups =>
      have hsecond := hgroups.2 second (List.mem_cons_self ..)
      have hhead : (colons (second :: groups) ++ rest).head? ≠ some 58 := by
        obtain ⟨c, cs, rfl⟩ := List.exists_cons_of_ne_nil hsecond.1
        rw [colons, List.intercalate_cons_cons_left, List.cons_append, List.head?_cons, ne_eq,
          Option.some.injEq]
        rintro rfl
        exact hsecond.2 (List.mem_cons_self ..)
      have htext : colons (g :: second :: groups) ++ rest =
          g ++ 58 :: (colons (second :: groups) ++ rest) := by
        simp [colons, List.intercalate_cons_cons]
      rw [htext, splitDoubleColon_append hgroups.1.2, splitDoubleColon_cons fun _ => hhead,
        ih hgroups.2, List.modifyHead_modifyHead, List.modifyHead_modifyHead]
      congr 1
      funext part
      simp [colons, List.intercalate_cons_cons]

theorem isHexGroup_iff {g : PyStr} : isHexGroup g = true ↔ IsGroup g := by
  simp only [isHexGroup, Bool.and_eq_true, Bool.not_eq_true', List.isEmpty_eq_false_iff,
    decide_eq_true_eq, List.all_eq_true]
  constructor
  · rintro ⟨⟨hne, hle⟩, hdigits⟩
    exact ⟨List.length_pos_iff.mpr hne, hle, hdigits⟩
  · rintro ⟨hpos, hle, hdigits⟩
    exact ⟨⟨List.length_pos_iff.mp hpos, hle⟩, hdigits⟩

theorem IsGroup.plain {g : PyStr} (h : IsGroup g) : g ≠ [] ∧ 58 ∉ g :=
  ⟨List.length_pos_iff.mp h.pos, fun hcolon => absurd (h.digits 58 hcolon) (by decide)⟩

theorem colons_ne_nil {groups : List PyStr} (hne : groups ≠ []) (hgroups : ∀ g ∈ groups, IsGroup g) :
    colons groups ≠ [] := by
  obtain ⟨g, groups, rfl⟩ := List.exists_cons_of_ne_nil hne
  obtain ⟨c, cs, rfl⟩ := List.exists_cons_of_ne_nil (hgroups g (List.mem_cons_self ..)).plain.1
  rw [colons, List.intercalate_cons_cons_left]
  exact List.cons_ne_nil _ _

/-- The groups of a part are read back, also when there are none. -/
theorem v6Groups_colons {groups : List PyStr} (hgroups : ∀ g ∈ groups, IsGroup g) :
    v6Groups (colons groups) = groups := by
  by_cases hne : groups = []
  · subst hne
    rfl
  · unfold v6Groups
    rw [if_neg (by simpa using colons_ne_nil hne hgroups)]
    exact List.splitOn_intercalate 58 (fun g hg => (hgroups g hg).plain.2) hne

theorem colons_v6Groups (part : PyStr) : colons (v6Groups part) = part := by
  unfold v6Groups
  split_ifs with hempty
  · rw [List.isEmpty_iff.mp hempty]
    rfl
  · exact List.intercalate_splitOn 58

theorem splitDoubleColon_full {groups : List PyStr} (hgroups : ∀ g ∈ groups, IsGroup g) :
    splitDoubleColon (colons groups) = [colons groups] := by
  have hsplit := splitDoubleColon_colons (fun g hg => (hgroups g hg).plain) []
  rw [List.append_nil] at hsplit
  rw [hsplit]
  show [colons groups ++ []] = _
  rw [List.append_nil]

theorem splitDoubleColon_compressed {before after : List PyStr} (hbefore : ∀ g ∈ before, IsGroup g)
    (hafter : ∀ g ∈ after, IsGroup g) :
    splitDoubleColon (colons before ++ 58 :: 58 :: colons after) = [colons before, colons after] := by
  rw [splitDoubleColon_colons fun g hg => (hbefore g hg).plain, splitDoubleColon_pair,
    splitDoubleColon_full hafter]
  show [colons before ++ [], colons after] = _
  rw [List.append_nil]

theorem isV6Addr_iff {addr : PyStr} : isV6Addr addr = true ↔ IsV6Text addr := by
  have hjoin := intercalate_splitDoubleColon addr
  constructor
  · intro h
    simp only [isV6Addr, Bool.and_eq_true, List.all_eq_true, List.length_map] at h
    obtain ⟨hgroups, hcount⟩ := h
    rcases hparts : splitDoubleColon addr with _ | ⟨before, _ | ⟨after, _ | ⟨third, more⟩⟩⟩
    · exact absurd hparts (splitDoubleColon_ne_nil addr)
    · rw [hparts] at hjoin hgroups hcount
      simp only [List.map_cons, List.map_nil, List.flatten_cons, List.flatten_nil, List.append_nil,
        List.length_singleton, beq_self_eq_true, if_true, beq_iff_eq] at hgroups hcount
      rw [List.intercalate_singleton] at hjoin
      rw [← hjoin, ← colons_v6Groups before]
      exact .full hcount fun g hg => isHexGroup_iff.mp (hgroups g hg)
    · rw [hparts] at hjoin hgroups hcount
      simp only [List.map_cons, List.map_nil, List.flatten_cons, List.flatten_nil, List.append_nil,
        List.length_cons, List.length_nil, Nat.reduceAdd, Nat.reduceBEq, Bool.false_eq_true, if_false,
        List.length_append, Bool.true_and, decide_eq_true_eq, List.mem_append] at hgroups hcount
      rw [List.intercalate_cons_cons, List.intercalate_singleton] at hjoin
      have htext : addr = colons (v6Groups before) ++ 58 :: 58 :: colons (v6Groups after) := by
        rw [colons_v6Groups, colons_v6Groups, ← hjoin]
        simp
      rw [htext]
      exact .compressed hcount (fun g hg => isHexGroup_iff.mp (hgroups g (.inl hg)))
        fun g hg => isHexGroup_iff.mp (hgroups g (.inr hg))
    · rw [hparts] at hcount
      simp at hcount
  · rintro (⟨hlength, hgroups⟩ | ⟨hlength, hbefore, hafter⟩)
    · rename_i groups
      unfold isV6Addr
      rw [splitDoubleColon_full hgroups]
      simp only [List.map_cons, List.map_nil, v6Groups_colons hgroups, List.flatten_cons,
        List.flatten_nil, List.append_nil, List.length_singleton, beq_self_eq_true, if_true, hlength,
        Bool.and_true, List.all_eq_true]
      exact fun g hg => isHexGroup_iff.mpr (hgroups g hg)
    · rename_i before after
      unfold isV6Addr
      rw [splitDoubleColon_compressed hbefore hafter]
      simp only [List.map_cons, List.map_nil, v6Groups_colons hbefore, v6Groups_colons hafter,
        List.flatten_cons, List.flatten_nil, List.append_nil, List.length_cons, List.length_nil,
        Nat.reduceAdd, Nat.reduceBEq, Bool.false_eq_true, if_false, List.length_append, Bool.true_and,
        Bool.and_eq_true, decide_eq_true_eq, List.all_eq_true, List.mem_append]
      refine ⟨?_, hlength⟩
      rintro g (hg | hg)
      · exact isHexGroup_iff.mpr (hbefore g hg)
      · exact isHexGroup_iff.mpr (hafter g hg)

/-- An address is a text of hexadecimal digits and colons. -/
theorem mem_colons {groups : List PyStr} (hgroups : ∀ g ∈ groups, IsGroup g) {c : ℕ}
    (hc : c ∈ colons groups) : isHexDigit c = true ∨ c = 58 := by
  rcases Lists.mem_intercalate hc with hcolon | ⟨g, hg, hc⟩
  · exact .inr (List.mem_singleton.mp hcolon)
  · exact .inl ((hgroups g hg).digits c hc)

theorem mem_v6Text {addr : PyStr} (h : IsV6Text addr) {c : ℕ} (hc : c ∈ addr) :
    isHexDigit c = true ∨ c = 58 := by
  rcases h with ⟨-, hgroups⟩ | ⟨-, hbefore, hafter⟩
  · exact mem_colons hgroups hc
  · simp only [List.mem_append, List.mem_cons] at hc
    rcases hc with hc | rfl | rfl | hc
    · exact mem_colons hbefore hc
    · exact .inr rfl
    · exact .inr rfl
    · exact mem_colons hafter hc

/-- Every address has a colon. -/
theorem colon_mem_v6Text {addr : PyStr} (h : IsV6Text addr) : 58 ∈ addr := by
  rcases h with ⟨hlength, -⟩ | ⟨-, -, -⟩
  · rename_i groups
    obtain ⟨first, second, rest, rfl⟩ : ∃ first second rest, groups = first :: second :: rest := by
      rcases groups with _ | ⟨first, _ | ⟨second, rest⟩⟩
      · cases hlength
      · cases hlength
      · exact ⟨first, second, rest, rfl⟩
    rw [colons, List.intercalate_cons_cons]
    simp
  · simp

/-- **What `isV6` accepts.** -/
theorem isV6_iff {entry : PyStr} : isV6 entry = true ↔ IsV6Range entry := by
  have haddr : ∀ addr, isV6Addr addr = true → addr ≠ [] ∧ 47 ∉ addr := by
    intro addr h
    have htext := isV6Addr_iff.mp h
    refine ⟨List.ne_nil_of_mem (colon_mem_v6Text htext), fun hslash => ?_⟩
    rcases mem_v6Text htext hslash with hdigit | heq
    · exact absurd hdigit (by decide)
    · exact absurd heq (by decide)
  rw [isV6, isCidr_iff (by norm_num) haddr]
  simp only [isV6Addr_iff, IsV6Range]

/-! ## Both -/

theorem colon_notMem_v4Range {entry : PyStr} (h : IsV4Range entry) : 58 ∉ entry := by
  obtain ⟨octets, hfour, hle, length, -, rfl⟩ := h
  have haddr := isV4Addr_iff.mpr ⟨octets, hfour, hle, rfl⟩
  rw [List.mem_append, List.mem_cons, not_or, not_or]
  refine ⟨fun hmem => ?_, by decide, notMem_dec_of_not_isDigit (by decide)⟩
  rcases mem_v4Addr haddr hmem with hdigit | heq
  · exact absurd hdigit (by decide)
  · exact absurd heq (by decide)

theorem isRangeChar_v4 {entry : PyStr} (h : IsV4Range entry) {c : ℕ} (hc : c ∈ entry) :
    isRangeChar c = true := by
  obtain ⟨octets, hfour, hle, length, -, rfl⟩ := h
  have haddr := isV4Addr_iff.mpr ⟨octets, hfour, hle, rfl⟩
  simp only [isRangeChar, Bool.or_eq_true, beq_iff_eq]
  rcases List.mem_append.mp hc with hc | hc
  · rcases mem_v4Addr haddr hc with hdigit | heq
    · exact .inl (.inl (.inl (isHexDigit_of_isDigit hdigit)))
    · exact .inl (.inr heq)
  · rcases List.mem_cons.mp hc with heq | hc
    · exact .inr heq
    · exact .inl (.inl (.inl (isHexDigit_of_isDigit (isDigit_of_mem_dec hc))))

theorem isRangeChar_v6 {entry : PyStr} (h : IsV6Range entry) {c : ℕ} (hc : c ∈ entry) :
    isRangeChar c = true := by
  obtain ⟨addr, haddr, length, -, rfl⟩ := h
  simp only [isRangeChar, Bool.or_eq_true, beq_iff_eq]
  rcases List.mem_append.mp hc with hc | hc
  · rcases mem_v6Text haddr hc with hdigit | heq
    · exact .inl (.inl (.inl hdigit))
    · exact .inl (.inl (.inr heq))
  · rcases List.mem_cons.mp hc with heq | hc
    · exact .inr heq
    · exact .inl (.inl (.inl (isHexDigit_of_isDigit (isDigit_of_mem_dec hc))))

/-- **The checks of `lanAllow`**: each accepts the ranges of its family and nothing else, no
entry is of both, and what is accepted is spelled without a character that could end or split
an nft set. -/
theorem lanAllow_checked (entry : PyStr) :
    (isV4 entry = true ↔ IsV4Range entry) ∧ (isV6 entry = true ↔ IsV6Range entry) ∧
      ¬(isV4 entry = true ∧ isV6 entry = true) ∧
      (isV4 entry = true ∨ isV6 entry = true → ∀ c ∈ entry, isRangeChar c = true) := by
  refine ⟨isV4_iff, isV6_iff, ?_, ?_⟩
  · rintro ⟨h4, h6⟩
    obtain ⟨addr, haddr, length, -, hentry⟩ := isV6_iff.mp h6
    refine colon_notMem_v4Range (isV4_iff.mp h4) ?_
    rw [hentry]
    exact List.mem_append_left _ (colon_mem_v6Text haddr)
  · rintro (h4 | h6) c hc
    · exact isRangeChar_v4 (isV4_iff.mp h4) hc
    · exact isRangeChar_v6 (isV6_iff.mp h6) hc

end Egress
