/-
# The initrd probe of `yo down`

`INITRD_PROBE_COMMAND` prints what the initrd is doing, section by section, and
`classify_initrd_probe` judges the lines (`yolobox_cli/unlock.py`).  The lines
are scanned once, by a loop with five accumulators; `scanLine` is its body.

`scan_probeLines` evaluates the scan on everything the command can print, so
the later modules read a verdict off the unit's state, the FIFOs and the asks
(`classify_probeLines`) and never unfold the scan.
-/
import Yolobox.Text

namespace Unlock

/-- `MIGRATE_ASK_ID`: the password-ask id the migration posts. -/
def migrateAskId : PyStr := lit "yolobox:luks-migrate"

def probeMigratePrefix : PyStr := lit "migrate="
def probeFifoPrefix : PyStr := lit "unlock-fifo="
def probeAskBegin : PyStr := lit "ask-begin"
def probeAskEnd : PyStr := lit "ask-end"
def probeEnd : PyStr := lit "probe=end"
def askIdPrefix : PyStr := lit "Id="
def cryptsetupAskIdPrefix : PyStr := lit "cryptsetup:"
def migrateUnitRunning : PyStr := lit "activating"
def migrateUnitFinished : PyStr := lit "active"
def migrateUnitFailed : PyStr := lit "failed"

/-- What the initrd is doing, as far as the probe proves it. -/
inductive InitrdState
  | waitingForPassphrase
  | migrating
  | unlocking
  | migrationFailed
  | unlockedIdle
  | unknown
  deriving DecidableEq, Repr

/-! ## The classifier -/

/-- The loop's accumulators. -/
structure Scan where
  migrateStates : List PyStr
  askIds : List PyStr
  unlockRunning : Bool
  inAsk : Bool
  ended : Bool
  deriving DecidableEq, Repr

/-- The accumulators before the first line. -/
def Scan.start : Scan := ⟨[], [], false, false, false⟩

/-- The loop's body on one line; `none` is the early `return UNKNOWN`. -/
def scanLine (st : Scan) (line : PyStr) : Option Scan :=
  if st.ended then none
  else if st.inAsk then
    if line = probeAskEnd then some { st with inAsk := false }
    else if startswith line askIdPrefix then
      some { st with askIds := st.askIds ++ [line.drop askIdPrefix.length] }
    else some st
  else if line = probeAskBegin then some { st with inAsk := true }
  else if startswith line probeMigratePrefix then
    some { st with migrateStates := st.migrateStates ++ [line.drop probeMigratePrefix.length] }
  else if startswith line probeFifoPrefix then some { st with unlockRunning := true }
  else if line = probeEnd then some { st with ended := true }
  else none

/-- The judgement after the loop. -/
def judge (st : Scan) : InitrdState :=
  if ¬ st.ended ∨ st.inAsk then .unknown
  else match st.migrateStates with
    | [migrate] =>
      if migrate = migrateUnitRunning ∧ migrateAskId ∉ st.askIds then .migrating
      else if st.unlockRunning then .unlocking
      else if migrate = migrateUnitFailed then .migrationFailed
      else if migrate ∉ [migrateUnitRunning, migrateUnitFinished] then .unknown
      else if st.askIds = [] then .unlockedIdle
      else if ∀ id ∈ st.askIds, id = migrateAskId ∨ startswith id cryptsetupAskIdPrefix then
        .waitingForPassphrase
      else .unknown
    | _ => .unknown

/-- `classify_initrd_probe` on the lines of the output. -/
def classifyLines (lines : List PyStr) : InitrdState :=
  match lines.foldlM scanLine Scan.start with
  | none => .unknown
  | some st => judge st

/-! ## What the command prints -/

/-- The lines printed for one ask file: its own between the two markers. -/
def askSection (ask : List PyStr) : List PyStr := probeAskBegin :: ask ++ [probeAskEnd]

/-- The lines `INITRD_PROBE_COMMAND` prints for the unit's state, the FIFOs it
found and the ask files it could read. -/
def probeLines (unit : PyStr) (fifos : List PyStr) (asks : List (List PyStr)) : List PyStr :=
  (probeMigratePrefix ++ unit) :: fifos.map (probeFifoPrefix ++ ·)
    ++ asks.flatMap askSection ++ [probeEnd]

/-- The ids an ask file names. -/
def idsOf (ask : List PyStr) : List PyStr :=
  (ask.filter (startswith · askIdPrefix)).map (·.drop askIdPrefix.length)

/-- The lines of an ask file systemd posts under the id `id`. -/
def askLines (id : PyStr) : List PyStr := [lit "[Ask]", askIdPrefix ++ id]

@[simp] theorem idsOf_askLines (id : PyStr) : idsOf (askLines id) = [id] := by
  have h : startswith (lit "[Ask]") askIdPrefix = false := by decide
  simp [idsOf, askLines, h]

/-- No line of such a file reads as the end marker. -/
theorem probeAskEnd_notMem_askLines (id : PyStr) : probeAskEnd ∉ askLines id := by
  have h₁ : probeAskEnd ≠ lit "[Ask]" := by decide
  have h₂ : probeAskEnd.head? ≠ askIdPrefix.head? := by decide
  intro hmem
  rcases List.mem_pair.mp hmem with h | h
  · exact h₁ h
  · exact h₂ (by rw [h]; rfl)

/-! ## The scan of the printed lines -/

/-- A `migrate=` line, outside an ask. -/
theorem scanLine_migrate (st : Scan) (unit : PyStr) (he : st.ended = false)
    (ha : st.inAsk = false) :
    scanLine st (probeMigratePrefix ++ unit)
      = some { st with migrateStates := st.migrateStates ++ [unit] } := by
  have hne : probeMigratePrefix ++ unit ≠ probeAskBegin := by
    intro h
    exact absurd (congrArg List.head? h) (by simp [probeMigratePrefix, probeAskBegin, lit])
  simp [scanLine, he, ha, hne]

/-- An `unlock-fifo=` line, outside an ask. -/
theorem scanLine_fifo (st : Scan) (fifo : PyStr) (he : st.ended = false)
    (ha : st.inAsk = false) :
    scanLine st (probeFifoPrefix ++ fifo) = some { st with unlockRunning := true } := by
  have hne : probeFifoPrefix ++ fifo ≠ probeAskBegin := by
    intro h
    exact absurd (congrArg List.head? h) (by simp [probeFifoPrefix, probeAskBegin, lit])
  have hm : startswith (probeFifoPrefix ++ fifo) probeMigratePrefix = false := by
    simp [startswith, probeFifoPrefix, probeMigratePrefix, lit, List.isPrefixOf]
  simp [scanLine, he, ha, hne, hm]

/-- The FIFO lines: one is enough to raise the flag. -/
theorem scan_fifos (fifos : List PyStr) (st : Scan) (he : st.ended = false)
    (ha : st.inAsk = false) :
    (fifos.map (probeFifoPrefix ++ ·)).foldlM scanLine st
      = some { st with unlockRunning := st.unlockRunning || !fifos.isEmpty } := by
  induction fifos generalizing st with
  | nil => simp
  | cons f fs ih =>
    rw [List.map_cons, List.foldlM_cons, scanLine_fifo st f he ha]
    have hstep := ih { st with unlockRunning := true } he ha
    simpa using hstep

/-- The lines inside an ask: only the ids are kept. -/
theorem scan_askBody (ask : List PyStr) (st : Scan) (he : st.ended = false)
    (ha : st.inAsk = true) (hend : probeAskEnd ∉ ask) :
    ask.foldlM scanLine st = some { st with askIds := st.askIds ++ idsOf ask } := by
  induction ask generalizing st with
  | nil => simp [idsOf]
  | cons l ls ih =>
    rw [List.mem_cons, not_or] at hend
    have hl : l ≠ probeAskEnd := fun h => hend.1 h.symm
    rw [List.foldlM_cons]
    by_cases hid : startswith l askIdPrefix = true
    · have hscan : scanLine st l
          = some { st with askIds := st.askIds ++ [l.drop askIdPrefix.length] } := by
        simp [scanLine, he, ha, hl, hid]
      have hstep := ih { st with askIds := st.askIds ++ [l.drop askIdPrefix.length] } he ha hend.2
      rw [hscan]
      simpa [idsOf, hid] using hstep
    · have hscan : scanLine st l = some st := by
        simp [scanLine, he, ha, hl, hid]
      have hstep := ih st he ha hend.2
      rw [hscan]
      simpa [idsOf, hid] using hstep

/-- One whole ask section. -/
theorem scan_askSection (ask : List PyStr) (st : Scan) (he : st.ended = false)
    (ha : st.inAsk = false) (hend : probeAskEnd ∉ ask) :
    (askSection ask).foldlM scanLine st
      = some { st with askIds := st.askIds ++ idsOf ask } := by
  have hbegin : scanLine st probeAskBegin = some { st with inAsk := true } := by
    simp [scanLine, he, ha]
  have hbody := scan_askBody ask { st with inAsk := true } he rfl hend
  rw [askSection, List.cons_append, List.foldlM_cons, hbegin]
  simp only [Option.bind_eq_bind, Option.bind_some, List.foldlM_append, hbody]
  simp [scanLine, he, ha]

/-- All ask sections. -/
theorem scan_asks (asks : List (List PyStr)) (st : Scan) (he : st.ended = false)
    (ha : st.inAsk = false) (hend : ∀ ask ∈ asks, probeAskEnd ∉ ask) :
    (asks.flatMap askSection).foldlM scanLine st
      = some { st with askIds := st.askIds ++ asks.flatMap idsOf } := by
  induction asks generalizing st with
  | nil => simp
  | cons ask asks ih =>
    rw [List.forall_mem_cons] at hend
    have hstep := ih { st with askIds := st.askIds ++ idsOf ask } he ha hend.2
    rw [List.flatMap_cons, List.foldlM_append, scan_askSection ask st he ha hend.1]
    simpa using hstep

/-- **The scan, evaluated.**  Whatever the command prints, the loop ends with
the unit's state, the ids of the asks and whether there was a FIFO. -/
theorem scan_probeLines (unit : PyStr) (fifos : List PyStr) (asks : List (List PyStr))
    (hend : ∀ ask ∈ asks, probeAskEnd ∉ ask) :
    (probeLines unit fifos asks).foldlM scanLine Scan.start
      = some ⟨[unit], asks.flatMap idsOf, !fifos.isEmpty, false, true⟩ := by
  have hmig := scanLine_migrate Scan.start unit rfl rfl
  have hfifo := scan_fifos fifos { Scan.start with migrateStates := [unit] } rfl rfl
  have hasks := scan_asks asks
    { Scan.start with migrateStates := [unit], unlockRunning := !fifos.isEmpty } rfl rfl hend
  have hlast : ∀ st : Scan, st.ended = false → st.inAsk = false →
      scanLine st probeEnd = some { st with ended := true } := by
    intro st he ha
    have h₁ : probeEnd ≠ probeAskBegin := by decide
    have h₂ : startswith probeEnd probeMigratePrefix = false := by decide
    have h₃ : startswith probeEnd probeFifoPrefix = false := by decide
    simp [scanLine, he, ha, h₁, h₂, h₃]
  rw [probeLines, List.append_assoc, List.cons_append, List.foldlM_cons, hmig]
  simp only [Scan.start, List.nil_append, Bool.false_or] at hfifo hasks ⊢
  simp only [Option.bind_eq_bind, Option.bind_some, List.foldlM_append, hfifo, hasks]
  simp [hlast]

/-- **The verdict as a function of what the command found.** -/
theorem classify_probeLines (unit : PyStr) (fifos : List PyStr) (asks : List (List PyStr))
    (hend : ∀ ask ∈ asks, probeAskEnd ∉ ask) :
    classifyLines (probeLines unit fifos asks)
      = judge ⟨[unit], asks.flatMap idsOf, !fifos.isEmpty, false, true⟩ := by
  rw [classifyLines, scan_probeLines unit fifos asks hend]

/-- An idle verdict saw no FIFO, and a unit that has finished or that runs with
its own ask pending. -/
theorem judge_waiting {unit : PyStr} {ids : List PyStr} {running : Bool}
    (h : judge ⟨[unit], ids, running, false, true⟩ = .waitingForPassphrase) :
    running = false ∧
      (unit = migrateUnitRunning ∧ migrateAskId ∈ ids ∨ unit = migrateUnitFinished) := by
  simp only [judge] at h
  split_ifs at h with h₁ h₂ h₃ h₄ h₅ h₆ <;> simp_all
  tauto

end Unlock
