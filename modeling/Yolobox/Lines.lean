/-
# Lines of text

`str.splitlines`, and what it makes of lines that were printed one after another, in
whole or cut off at some point.
-/
import Yolobox.Text
import Yolobox.Lib.Lists

/-- A character that ends a line for `str.splitlines`. -/
def isLineBreak (c : ℕ) : Bool := c ∈ [10, 11, 12, 13, 28, 29, 30, 133, 8232, 8233]

/-- `text.splitlines()`. -/
def splitlines : PyStr → List PyStr
  | [] => []
  | 13 :: 10 :: rest => [] :: splitlines rest
  | c :: rest =>
    if isLineBreak c then [] :: splitlines rest
    else match splitlines rest with
      | [] => [[c]]
      | line :: lines => (c :: line) :: lines

/-- Lines, each ended by a newline. -/
def unlines (lines : List PyStr) : PyStr := lines.flatMap (· ++ [10])

/-- A text without line breaks. -/
def OneLine (text : PyStr) : Prop := ∀ c ∈ text, isLineBreak c = false

variable {line : PyStr} {lines : List PyStr}

@[simp] theorem unlines_nil : unlines [] = [] := rfl

@[simp] theorem unlines_cons : unlines (line :: lines) = line ++ 10 :: unlines lines := by
  simp [unlines]

@[simp] theorem unlines_append (lines' : List PyStr) :
    unlines (lines ++ lines') = unlines lines ++ unlines lines' := by
  simp [unlines]

/-- The lines between newlines, and a newline at the end. -/
theorem unlines_splitOn (text : PyStr) : unlines (text.splitOn 10) = text ++ [10] := by
  induction text with
  | nil => rfl
  | cons c text ih =>
    rw [List.splitOn, List.splitOnP_cons_eq_if_modifyHead]
    rw [List.splitOn] at ih
    split_ifs with hc
    · rw [unlines_cons, ih, beq_iff_eq.mp hc]
      rfl
    · obtain ⟨line, lines, hsplit⟩ := List.exists_cons_of_ne_nil (List.splitOnP_ne_nil (· == 10) text)
      rw [hsplit] at ih ⊢
      rw [unlines_cons] at ih
      rw [List.modifyHead_cons, unlines_cons, List.cons_append, ih, List.cons_append]

/-- Between newlines there is no other line break, when there is none in the text. -/
theorem oneLine_of_mem_splitOn {text : PyStr} (h : ∀ c ∈ text, isLineBreak c = true → c = 10)
    (hline : line ∈ text.splitOn 10) : OneLine line := by
  intro c hc
  refine Bool.eq_false_iff.mpr fun hbreak => ?_
  have hnewline : c = 10 := h c (Lists.mem_of_mem_splitOn hline hc) hbreak
  exact Lists.not_mem_of_mem_splitOn hline (hnewline ▸ hc)

theorem splitlines_cons {c : ℕ} (hc : isLineBreak c = false) (rest : PyStr) :
    splitlines (c :: rest) = match splitlines rest with
      | [] => [[c]]
      | line :: lines => (c :: line) :: lines := by
  have hne : c ≠ 13 := by
    rintro rfl
    simp [isLineBreak] at hc
  rw [splitlines]
  · rw [if_neg (by simp [hc])]
  · rintro rest' rfl
    exact absurd rfl hne

theorem splitlines_append (h : OneLine line) (rest : PyStr) :
    splitlines (line ++ 10 :: rest) = line :: splitlines rest := by
  induction line with
  | nil => rfl
  | cons c line ih =>
    rw [OneLine, List.forall_mem_cons] at h
    rw [List.cons_append, splitlines_cons h.1, ih h.2]

theorem splitlines_oneLine (h : OneLine line) : splitlines line = if line = [] then [] else [line] := by
  induction line with
  | nil => rfl
  | cons c line ih =>
    rw [OneLine, List.forall_mem_cons] at h
    rw [splitlines_cons h.1, ih h.2, if_neg (List.cons_ne_nil c line)]
    split_ifs with hline
    · rw [hline]
    · rfl

/-- **Lines that were printed** are read back. -/
theorem splitlines_unlines (h : ∀ line ∈ lines, OneLine line) (rest : PyStr) :
    splitlines (unlines lines ++ rest) = lines ++ splitlines rest := by
  induction lines with
  | nil => rfl
  | cons line lines ih =>
    rw [List.forall_mem_cons] at h
    rw [unlines_cons, List.append_assoc, List.cons_append, splitlines_append h.1, ih h.2]
    rfl

/-- **Lines that are cut off**: whole ones, and the start of the next. -/
theorem exists_cut {text : PyStr} (h : text <+: unlines lines) :
    text = unlines lines ∨ ∃ before line after part,
      lines = before ++ line :: after ∧ part <+: line ∧ text = unlines before ++ part := by
  induction lines generalizing text with
  | nil => exact .inl (List.prefix_nil.mp h)
  | cons line lines ih =>
    rw [unlines_cons] at h
    rcases List.prefix_or_prefix_of_prefix h (List.prefix_append line _) with hpart | hwhole
    · exact .inr ⟨[], line, lines, text, rfl, hpart, rfl⟩
    · obtain ⟨rest, rfl⟩ := hwhole
      rw [List.prefix_append_right_inj] at h
      cases rest with
      | nil => exact .inr ⟨[], line, lines, line, rfl, List.prefix_rfl, by simp⟩
      | cons c rest =>
        rw [List.cons_prefix_cons] at h
        obtain ⟨rfl, hrest⟩ := h
        rcases ih hrest with rfl | ⟨before, line', after, part, rfl, hpart, rfl⟩
        · exact .inl (unlines_cons).symm
        · exact .inr ⟨line :: before, line', after, part, rfl, hpart, by simp⟩

/-! ## Lines of a file -/

/-- The lines of a file, without their newlines; the last one need not have one. -/
def fileLines (text : PyStr) : List PyStr :=
  if (text.splitOn 10).getLast? = some [] then (text.splitOn 10).dropLast else text.splitOn 10

theorem splitOn_unlines (h : ∀ line ∈ lines, 10 ∉ line) : (unlines lines).splitOn 10 = lines ++ [[]] := by
  induction lines with
  | nil => rfl
  | cons line lines ih =>
    rw [List.forall_mem_cons] at h
    rw [unlines_cons, List.splitOn_append_cons_self_of_not_mem h.1, ih h.2, List.cons_append]

theorem fileLines_unlines (h : ∀ line ∈ lines, 10 ∉ line) : fileLines (unlines lines) = lines := by
  rw [fileLines, splitOn_unlines h, List.getLast?_concat, if_pos rfl, List.dropLast_concat]
