/-
# Python strings

A Python `str` is a sequence of code points, lone surrogates included (that is
how `surrogateescape` carries a byte that is not UTF-8), so text is a list of
natural numbers and not a Lean `String`.  `lit` spells a literal of the source.
-/
import Mathlib

/-- A Python `str`: its code points. -/
abbrev PyStr := List ℕ

instance instLawfulBEqPyStr : LawfulBEq PyStr := inferInstance

/-- The text of a literal. -/
def lit (s : String) : PyStr := s.toList.map Char.toNat

/-- `text.startswith(start)`. -/
abbrev startswith (text start : PyStr) : Bool := start.isPrefixOf text

theorem startswith_iff {text start : PyStr} :
    startswith text start = true ↔ ∃ rest, text = start ++ rest := by
  rw [List.isPrefixOf_iff_prefix]
  exact ⟨fun ⟨r, hr⟩ => ⟨r, hr.symm⟩, fun ⟨r, hr⟩ => ⟨r, hr.symm⟩⟩

@[simp] theorem startswith_append (start rest : PyStr) :
    startswith (start ++ rest) start = true :=
  startswith_iff.mpr ⟨rest, rfl⟩

/-! ## White space -/

/-- `str.isspace` of one character. -/
def isSpace (c : ℕ) : Bool :=
  (9 ≤ c && c ≤ 13) || (28 ≤ c && c ≤ 32) || (8192 ≤ c && c ≤ 8202) ||
    c ∈ [133, 160, 5760, 8232, 8233, 8239, 8287, 12288]

/-- `text.strip()` -/
def strip (text : PyStr) : PyStr := (text.dropWhile isSpace).rdropWhile isSpace

/-! ## Letter case -/

/-- `str.lower` of one ASCII character. -/
def lowerChar (c : ℕ) : ℕ := if 65 ≤ c ∧ c ≤ 90 then c + 32 else c

/-- `text.lower()` of ASCII text. -/
def lower (text : PyStr) : PyStr := text.map lowerChar

@[simp] theorem lower_append (a b : PyStr) : lower (a ++ b) = lower a ++ lower b := List.map_append

@[simp] theorem lower_cons (c : ℕ) (text : PyStr) : lower (c :: text) = lowerChar c :: lower text := rfl

@[simp] theorem length_lower (text : PyStr) : (lower text).length = text.length := List.length_map _

/-! ## Decimal numerals -/

/-- `[0-9]`. -/
def isDigit (c : ℕ) : Bool := 48 ≤ c && c ≤ 57

/-- A number in decimal, with no leading zero. -/
def dec (n : ℕ) : PyStr := if n = 0 then [48] else (Nat.digits 10 n).reverse.map (· + 48)

/-- The number a run of digits spells in decimal. -/
def num (text : PyStr) : ℕ := Nat.ofDigits 10 (text.reverse.map (· - 48))

@[simp] theorem num_dec (n : ℕ) : num (dec n) = n := by
  unfold dec
  split_ifs with h
  · subst h; rfl
  · rw [num, ← List.map_reverse, List.reverse_reverse, List.map_map]
    have hid : ((· - 48) ∘ (· + 48) : ℕ → ℕ) = id := by
      funext c
      simp
    rw [hid, List.map_id, Nat.ofDigits_digits]

theorem dec_injective : Function.Injective dec := fun a b h => by
  rw [← num_dec a, ← num_dec b, h]

/-- Every character of a numeral is a digit. -/
theorem isDigit_of_mem_dec {n c : ℕ} (h : c ∈ dec n) : isDigit c = true := by
  unfold dec at h
  split_ifs at h with hn
  · rw [List.mem_singleton.mp h]
    rfl
  · rw [List.mem_map] at h
    obtain ⟨d, hd, rfl⟩ := h
    have hlt := Nat.digits_lt_base (by norm_num) (List.mem_reverse.mp hd)
    simp [isDigit]
    omega

theorem dec_ne_nil (n : ℕ) : dec n ≠ [] := by
  unfold dec
  split_ifs with hn
  · simp
  · simp [Nat.digits_eq_nil_iff_eq_zero, hn]

/-- A positive number's numeral does not start with a zero. -/
theorem head_dec_ne_zero {n : ℕ} (hn : 0 < n) : (dec n).head? ≠ some 48 := by
  have hne : Nat.digits 10 n ≠ [] := Nat.digits_ne_nil_iff_ne_zero.mpr (by omega)
  rw [dec, if_neg (by omega), List.head?_map, List.head?_reverse,
    List.getLast?_eq_some_getLast hne, Option.map_some]
  intro h
  rw [Option.some.injEq] at h
  exact Nat.getLast_digit_ne_zero 10 (m := n) (by omega) (by omega)

theorem dec_of_pos {n : ℕ} (hn : 0 < n) : dec n = (Nat.digits 10 n).reverse.map (· + 48) :=
  if_neg (by omega)

theorem length_dec_le_iff {n width : ℕ} (hpos : 0 < width) : (dec n).length ≤ width ↔ n < 10 ^ width := by
  unfold dec
  split_ifs with hzero
  · rw [hzero, List.length_singleton]
    exact iff_of_true hpos (Nat.pow_pos (by norm_num))
  · rw [List.length_map, List.length_reverse, Nat.digits_length_le_iff (by norm_num)]

/-- A text of digits with no leading zero is the numeral of what it spells. -/
theorem dec_num {text : PyStr} (hne : text ≠ []) (hdigits : ∀ c ∈ text, isDigit c = true)
    (hhead : text.head? ≠ some 48) : 0 < num text ∧ dec (num text) = text := by
  have hrange : ∀ c ∈ text, 48 ≤ c ∧ c ≤ 57 := by
    intro c hc
    simpa [isDigit] using hdigits c hc
  have hdig : Nat.digits 10 (num text) = text.reverse.map (· - 48) := by
    refine Nat.digits_ofDigits 10 (by norm_num) _ (fun d hd => ?_) (fun hne' => ?_)
    · obtain ⟨c, hc, rfl⟩ := List.mem_map.mp hd
      have hc' := hrange c (List.mem_reverse.mp hc)
      omega
    · rw [List.getLast_map, List.getLast_reverse]
      have hmem := hrange _ (List.head_mem hne)
      intro hzero
      refine hhead ?_
      rw [List.head?_eq_some_head hne]
      congr 1
      omega
  have hpos : 0 < num text := by
    rw [Nat.pos_iff_ne_zero]
    intro hzero
    rw [hzero, Nat.digits_zero] at hdig
    simp [hne] at hdig
  refine ⟨hpos, ?_⟩
  rw [dec_of_pos hpos, hdig, ← List.map_reverse, List.reverse_reverse, List.map_map]
  refine (List.map_congr_left fun c hc => ?_).trans (List.map_id text)
  have hc' := hrange c hc
  simp only [Function.comp_apply, id_eq]
  omega

/-! ## Character classes -/

/-- `[0-9]`, and `\d` under `re.ASCII`. -/
def digitChars : List ℕ := List.range' 48 10

/-- `[A-Za-z]` -/
def letterChars : List ℕ := List.range' 65 26 ++ List.range' 97 26

/-- `[A-Za-z0-9]` -/
def alnumChars : List ℕ := letterChars ++ digitChars

/-- `[A-Za-z0-9._-]` -/
def nameChars : List ℕ := alnumChars ++ lit "._-"

theorem mem_digitChars {c : ℕ} : c ∈ digitChars ↔ isDigit c = true := by
  rw [digitChars, List.mem_range'_1, isDigit, Bool.and_eq_true, decide_eq_true_eq, decide_eq_true_eq]
  omega
