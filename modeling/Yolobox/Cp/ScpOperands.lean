/-
# The operands of scp

A guest path as scp's wildcard pattern, and the operands of one fetch in runs that fit
`SCP_ARGV_BUDGET`.
-/
import Yolobox.Cp.Fetch
import Yolobox.Lib.Glob

namespace Cp

/-! ## Wildcards -/

/-- The wildcards of a remote source, in ASCII. -/
def scpGlob : Glob.Syntax ℕ where
  backslash := 92
  star := 42
  question := 63
  opening := 91
  closing := 93

theorem scpGlob_apart : scpGlob.Apart where
  star := by decide
  question := by decide
  opening := by decide

theorem isGlobChar_of_special (c : ℕ) (hc : scpGlob.Special c) : isGlobChar c = true := by
  rcases hc with rfl | rfl | rfl | rfl <;> rfl

/-- **A path is fetched under its own name**: whatever a bracket expression admits, the
escaped path matches itself and no other text. -/
theorem scpGlobEscape_matches (admits : List ℕ → ℕ → Prop) (path other : PyStr) :
    Glob.Matches scpGlob admits (scpGlobEscape path) other ↔ other = path :=
  Glob.matches_escaped_iff scpGlob_apart isGlobChar isGlobChar_of_special path

/-! ## Runs -/

variable {operands batch : List PyStr} {size : ℕ}

/-- What a run takes of the budget. -/
def runCost (run : List PyStr) : ℕ := (run.map argvCost).sum

/-- A run that scp can be given, as far as that is possible. -/
def Fits (run : List PyStr) : Prop :=
  runCost run ≤ SCP_ARGV_BUDGET ∨ ∃ operand, run = [operand] ∧ SCP_ARGV_BUDGET < argvCost operand

/-- The next run's first operand would have passed the budget. -/
def Full (run next : List PyStr) : Prop :=
  ∀ operand ∈ next.head?, SCP_ARGV_BUDGET < runCost run + argvCost operand

/-- The runs that the operands are cut into. -/
structure Batched (operands : List PyStr) (runs : List (List PyStr)) : Prop where
  nonempty : ∀ run ∈ runs, run ≠ []
  flatten : runs.flatten = operands
  fits : ∀ run ∈ runs, Fits run
  full : runs.IsChain Full

theorem runCost_concat (run : List PyStr) (operand : PyStr) :
    runCost (run ++ [operand]) = runCost run + argvCost operand := by
  unfold runCost
  rw [List.map_append, List.sum_append, List.map_singleton, List.sum_singleton]

theorem runCost_singleton (operand : PyStr) : runCost [operand] = argvCost operand := by
  unfold runCost
  rw [List.map_singleton, List.sum_singleton]

theorem fits_singleton (operand : PyStr) : Fits [operand] := by
  rcases le_or_gt (argvCost operand) SCP_ARGV_BUDGET with hle | hlt
  · exact Or.inl (runCost_singleton operand ▸ hle)
  · exact Or.inr ⟨operand, rfl, hlt⟩

/-! ## The loop -/

theorem flatten_batchesFrom (batch : List PyStr) (size : ℕ) (operands : List PyStr) :
    (batchesFrom batch size operands).flatten = batch ++ operands := by
  induction operands generalizing batch size with
  | nil =>
    rw [batchesFrom, List.append_nil]
    split_ifs with hbatch
    · rw [hbatch, List.flatten_nil]
    · rw [List.flatten_singleton]
  | cons operand operands ih =>
    rw [batchesFrom]
    split_ifs with hover
    · rw [List.flatten_cons, ih, List.singleton_append]
    · rw [ih, List.append_assoc, List.singleton_append]

/-- Nothing is lost, doubled or moved. -/
theorem flatten_inBatches (operands : List PyStr) : (inBatches operands).flatten = operands :=
  flatten_batchesFrom [] 0 operands

theorem nonempty_batchesFrom (batch : List PyStr) (size : ℕ) (operands : List PyStr) :
    ∀ run ∈ batchesFrom batch size operands, run ≠ [] := by
  induction operands generalizing batch size with
  | nil =>
    rw [batchesFrom]
    split_ifs with hbatch
    · exact fun run hrun => absurd hrun List.not_mem_nil
    · rintro run hrun
      rw [List.mem_singleton.mp hrun]
      exact hbatch
  | cons operand operands ih =>
    rw [batchesFrom]
    split_ifs with hover
    · exact List.forall_mem_cons.mpr ⟨hover.1, ih [operand] (argvCost operand)⟩
    · exact ih (batch ++ [operand]) (size + argvCost operand)

/-- What the loop has of a run stays at the front of it. -/
theorem head_batchesFrom (hbatch : batch ≠ []) (size : ℕ) (operands : List PyStr) :
    ∃ more runs, batchesFrom batch size operands = (batch ++ more) :: runs := by
  induction operands generalizing batch size with
  | nil => exact ⟨[], [], by rw [batchesFrom, if_neg hbatch, List.append_nil]⟩
  | cons operand operands ih =>
    rw [batchesFrom]
    split_ifs with hover
    · exact ⟨[], batchesFrom [operand] (argvCost operand) operands, by rw [List.append_nil]⟩
    · obtain ⟨more, runs, hruns⟩ := ih
        (List.append_ne_nil_of_right_ne_nil batch (List.cons_ne_nil operand [])) (size + argvCost operand)
      exact ⟨operand :: more, runs, by rw [hruns, List.append_assoc, List.singleton_append]⟩

/-- A run is extended only where it still fits. -/
theorem fits_concat {operand : PyStr} (hover : ¬(batch ≠ [] ∧ SCP_ARGV_BUDGET < runCost batch + argvCost operand)) :
    Fits (batch ++ [operand]) := by
  by_cases hbatch : batch = []
  · rw [hbatch, List.nil_append]
    exact fits_singleton operand
  · left
    rw [runCost_concat]
    exact not_lt.mp fun hlt => hover ⟨hbatch, hlt⟩

theorem fits_batchesFrom (hbatch : Fits batch) :
    ∀ run ∈ batchesFrom batch (runCost batch) operands, Fits run := by
  induction operands generalizing batch with
  | nil =>
    rw [batchesFrom]
    split_ifs
    · exact fun run hrun => absurd hrun List.not_mem_nil
    · rintro run hrun
      rw [List.mem_singleton.mp hrun]
      exact hbatch
  | cons operand operands ih =>
    rw [batchesFrom]
    split_ifs with hover
    · have hrest := ih (fits_singleton operand)
      rw [runCost_singleton] at hrest
      exact List.forall_mem_cons.mpr ⟨hbatch, hrest⟩
    · have hrest := ih (fits_concat hover)
      rwa [runCost_concat] at hrest

theorem full_batchesFrom (batch operands : List PyStr) :
    (batchesFrom batch (runCost batch) operands).IsChain Full := by
  induction operands generalizing batch with
  | nil =>
    rw [batchesFrom]
    split_ifs
    · exact List.IsChain.nil
    · exact List.IsChain.singleton batch
  | cons operand operands ih =>
    rw [batchesFrom]
    split_ifs with hover
    · have hrest := ih [operand]
      obtain ⟨more, runs, hruns⟩ :=
        head_batchesFrom (List.cons_ne_nil operand []) (argvCost operand) operands
      rw [runCost_singleton, hruns] at hrest
      rw [hruns]
      refine List.IsChain.cons_cons ?_ hrest
      rintro first hfirst
      rw [List.singleton_append, List.head?_cons, Option.mem_some_iff] at hfirst
      rw [← hfirst]
      exact hover.2
    · have hrest := ih (batch ++ [operand])
      rwa [runCost_concat] at hrest

/-- **The runs of `in_batches`**: none is empty, joined they are the operands in order, each
fits the budget or is one operand that never could, and none had room for one more. -/
theorem inBatches_batched (operands : List PyStr) : Batched operands (inBatches operands) where
  nonempty := nonempty_batchesFrom [] 0 operands
  flatten := flatten_inBatches operands
  fits := fits_batchesFrom (Or.inl (Nat.zero_le _))
  full := full_batchesFrom [] operands

end Cp
