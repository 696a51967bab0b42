/-
# The probe as text

`INITRD_PROBE_COMMAND` prints text, ask files included as they are, and
`classify_initrd_probe` splits it into lines.  On everything the command prints the text
is read back as the lines `classify_probeLines` judges, and cut off before its last line
is complete it is never judged idle.
-/
import Yolobox.Unlock.Probe
import Yolobox.Lines

namespace Unlock

/-- `echo`. -/
def echo (line : PyStr) : PyStr := line ++ [10]

/-- What the command prints for one ask file. -/
def askText (ask : PyStr) : PyStr := echo probeAskBegin ++ ask ++ echo [] ++ echo probeAskEnd

/-- What `INITRD_PROBE_COMMAND` prints for the unit's state, the FIFOs it found and the ask
files it could read. -/
def initrdProbe (unit : PyStr) (fifos asks : List PyStr) : PyStr :=
  echo (probeMigratePrefix ++ unit) ++ fifos.flatMap (fun f => echo (probeFifoPrefix ++ f)) ++
    asks.flatMap askText ++ echo probeEnd

/-- `classify_initrd_probe`. -/
def classifyInitrdProbe (output : PyStr) : InitrdState := classifyLines (splitlines output)

/-- The ids of the pending asks. -/
def askIds (asks : List PyStr) : List PyStr := asks.flatMap fun ask => idsOf (ask.splitOn 10)

/-- A text whose only line separator is the newline, none of whose lines reads as the end
of an ask. -/
structure AskText (ask : PyStr) : Prop where
  newlines : ∀ c ∈ ask, isLineBreak c = true → c = 10
  noEnd : probeAskEnd ∉ ask.splitOn 10

variable {unit : PyStr} {fifos asks : List PyStr}

/-! ## The lines of the output -/

/-- The output is the lines, each ended by a newline. -/
theorem initrdProbe_eq (unit : PyStr) (fifos asks : List PyStr) :
    initrdProbe unit fifos asks = unlines (probeLines unit fifos (asks.map (·.splitOn 10))) := by
  have hask : ∀ ask : PyStr, unlines (askSection (ask.splitOn 10)) = askText ask := by
    intro ask
    simp [askSection, askText, echo, unlines_splitOn]
  have hasks : unlines ((asks.map (·.splitOn 10)).flatMap askSection) = asks.flatMap askText := by
    induction asks with
    | nil => rfl
    | cons ask asks ih => rw [List.map_cons, List.flatMap_cons, unlines_append, ih, hask]; rfl
  have hfifos : unlines (fifos.map (probeFifoPrefix ++ ·)) =
      fifos.flatMap fun f => echo (probeFifoPrefix ++ f) := by
    rw [unlines, List.flatMap_map]
    rfl
  rw [probeLines, unlines_append, unlines_append, hasks, unlines_cons, hfifos]
  simp [initrdProbe, echo]

theorem oneLine_append {a b : PyStr} (ha : OneLine a) (hb : OneLine b) : OneLine (a ++ b) := by
  intro c hc
  exact (List.mem_append.mp hc).elim (ha c) (hb c)

/-- None of the lines has a line break in it. -/
theorem oneLine_probeLines (hunit : OneLine unit) (hfifos : ∀ f ∈ fifos, OneLine f)
    (hasks : ∀ ask ∈ asks, AskText ask) :
    ∀ line ∈ probeLines unit fifos (asks.map (·.splitOn 10)), OneLine line := by
  have hmigrate : OneLine probeMigratePrefix := by unfold OneLine; decide
  have hfifo : OneLine probeFifoPrefix := by unfold OneLine; decide
  have hbegin : OneLine probeAskBegin := by unfold OneLine; decide
  have hend : OneLine probeAskEnd := by unfold OneLine; decide
  have hfinal : OneLine probeEnd := by unfold OneLine; decide
  intro line hline
  simp only [probeLines, List.mem_append, List.mem_cons, List.mem_map, List.mem_flatMap,
    askSection, List.not_mem_nil, or_false] at hline
  rcases hline with ((rfl | ⟨f, hf, rfl⟩) | ⟨lines, ⟨ask, hask, rfl⟩, (rfl | hline) | rfl⟩) | rfl
  · exact oneLine_append hmigrate hunit
  · exact oneLine_append hfifo (hfifos f hf)
  · exact hbegin
  · exact oneLine_of_mem_splitOn (hasks ask hask).newlines hline
  · exact hend
  · exact hfinal

/-! ## The verdict -/

/-- When the judgement permits a power-off. -/
theorem judge_waiting_iff {ids : List PyStr} {running : Bool} :
    judge ⟨[unit], ids, running, false, true⟩ = .waitingForPassphrase ↔
      running = false ∧ ids ≠ [] ∧
        (∀ id ∈ ids, id = migrateAskId ∨ startswith id cryptsetupAskIdPrefix = true) ∧
        (unit = migrateUnitFinished ∨ unit = migrateUnitRunning ∧ migrateAskId ∈ ids) := by
  have hrunning : migrateUnitRunning ≠ migrateUnitFinished := by decide
  have hfailed : migrateUnitFailed ≠ migrateUnitFinished := by decide
  have hfailed' : migrateUnitFailed ≠ migrateUnitRunning := by decide
  constructor
  · intro h
    rw [judge, if_neg (by simp)] at h
    dsimp only at h
    split_ifs at h with hpending hidle hworked hunit hnone hall
    refine ⟨by simpa using hidle, hnone, hall, ?_⟩
    rw [List.mem_pair] at hunit
    rcases hunit with rfl | rfl
    · exact .inr ⟨rfl, by simpa using hpending⟩
    · exact .inl rfl
  · rintro ⟨rfl, hne, hall, hunit⟩
    have hknown : unit ∈ [migrateUnitRunning, migrateUnitFinished] := by
      rcases hunit with rfl | ⟨rfl, -⟩ <;> simp
    have hpending : ¬ (unit = migrateUnitRunning ∧ migrateAskId ∉ ids) := by
      rintro ⟨rfl, hnone⟩
      rcases hunit with hunit | hunit
      · exact hrunning hunit
      · exact hnone hunit.2
    have hworked : unit ≠ migrateUnitFailed := by
      rintro rfl
      rcases hunit with hunit | hunit
      · exact hfailed hunit
      · exact hfailed' hunit.1
    simp only [judge]
    rw [if_neg (by simp), if_neg hpending, if_neg (by simp), if_neg hworked, if_neg (not_not.mpr hknown),
      if_neg hne, if_pos hall]

/-! ## Cut off -/

/-- After the last line nothing more is taken. -/
theorem foldlM_ended {st : Scan} (h : st.ended = true) {lines : List PyStr} {st' : Scan}
    (hscan : lines.foldlM scanLine st = some st') : lines = [] := by
  cases lines with
  | nil => rfl
  | cons line lines => simp [scanLine, h] at hscan

/-- Only the end marker ends the scan, and outside an ask nothing but itself starts with
it. -/
theorem ended_of_scanLine_part {st st₁ st₂ : Scan} {line part : PyStr} (he : st.ended = false)
    (hpart : part <+: line) (hline : scanLine st line = some st₁)
    (hscan : scanLine st part = some st₂) (hended : st₂.ended = true) :
    part = probeEnd ∧ line = probeEnd ∧ st₁.ended = true := by
  have hpartEnd : st.inAsk = false ∧ part = probeEnd := by
    unfold scanLine at hscan
    rw [if_neg (by simp [he])] at hscan
    split_ifs at hscan with hask h₁ h₂ h₃ h₄ h₅ h₆
    all_goals
      cases hscan
      first
        | exact ⟨by simpa using hask, h₆⟩
        | exact absurd hended (by simp [he])
  obtain ⟨hask, rfl⟩ := hpartEnd
  obtain ⟨rest, rfl⟩ := hpart
  have hbegin : probeEnd ++ rest ≠ probeAskBegin := by
    intro h
    exact absurd (congrArg List.head? h) (by simp [probeEnd, probeAskBegin, lit])
  have hmigrate : startswith (probeEnd ++ rest) probeMigratePrefix = false := by
    simp [startswith, probeEnd, probeMigratePrefix, lit, List.isPrefixOf]
  have hfifo : startswith (probeEnd ++ rest) probeFifoPrefix = false := by
    simp [startswith, probeEnd, probeFifoPrefix, lit, List.isPrefixOf]
  simp only [scanLine, he, hask, hbegin, hmigrate, hfifo, Bool.false_eq_true, if_false] at hline
  split_ifs at hline with hend
  cases hline
  exact ⟨rfl, hend, rfl⟩

theorem judge_not_ended {st : Scan} (h : st.ended = false) : judge st = .unknown := by
  rw [judge, if_pos (.inl (by simp [h]))]

/-- Lines that were cut off before the last was complete prove nothing. -/
theorem classifyLines_cut {lines before after : List PyStr} {line part : PyStr}
    {st : Scan} (hscan : lines.foldlM scanLine Scan.start = some st)
    (hlines : lines = before ++ line :: after) (hpart : part <+: line)
    (hcut : ¬ (after = [] ∧ part = line)) :
    classifyLines (before ++ if part = [] then [] else [part]) = .unknown := by
  rw [hlines, List.foldlM_append, Option.bind_eq_bind, Option.bind_eq_some_iff] at hscan
  obtain ⟨st₀, hbefore, hrest⟩ := hscan
  have hgoing : st₀.ended = false := by
    by_contra h
    exact List.cons_ne_nil _ _ (foldlM_ended (by simpa using h) hrest)
  rw [classifyLines, List.foldlM_append, hbefore, Option.bind_eq_bind, Option.bind_some]
  split_ifs with hnil
  · exact judge_not_ended hgoing
  have hone : [part].foldlM scanLine st₀ = scanLine st₀ part := by simp
  rw [hone]
  cases hnext : scanLine st₀ part with
  | none => rfl
  | some st₂ =>
    refine judge_not_ended (Bool.eq_false_iff.mpr fun hended => hcut ?_)
    rw [List.foldlM_cons, Option.bind_eq_bind, Option.bind_eq_some_iff] at hrest
    obtain ⟨st₁, hline, hafter⟩ := hrest
    obtain ⟨hp, hl, hended₁⟩ := ended_of_scanLine_part hgoing hpart hline hnext hended
    exact ⟨foldlM_ended hended₁ hafter, hp.trans hl.symm⟩

/-- **The probe.**  Whatever the initrd is doing, the text the command prints is judged idle
exactly when no helper runs and only an ask that is safe to cut off is waited for; and any
text that is cut off before its last line is complete is judged unknown. -/
theorem classifyInitrdProbe_iff (unit : PyStr) (fifos asks : List PyStr) (hunit : OneLine unit)
    (hfifos : ∀ f ∈ fifos, OneLine f) (hasks : ∀ ask ∈ asks, AskText ask) :
    (classifyInitrdProbe (initrdProbe unit fifos asks) = .waitingForPassphrase ↔
      fifos = [] ∧ askIds asks ≠ [] ∧
        (∀ id ∈ askIds asks, id = migrateAskId ∨ startswith id cryptsetupAskIdPrefix = true) ∧
        (unit = migrateUnitFinished ∨ unit = migrateUnitRunning ∧ migrateAskId ∈ askIds asks)) ∧
      ∀ output, output <+: initrdProbe unit fifos asks →
        output.length + 1 < (initrdProbe unit fifos asks).length →
        classifyInitrdProbe output = .unknown := by
  have hend : ∀ ask ∈ asks.map (·.splitOn 10), probeAskEnd ∉ ask := by
    intro lines hlines
    obtain ⟨ask, hask, rfl⟩ := List.mem_map.mp hlines
    exact (hasks ask hask).noEnd
  have hone := oneLine_probeLines hunit hfifos hasks
  have hscan := scan_probeLines unit fifos _ hend
  rw [initrdProbe_eq]
  constructor
  · have hread := splitlines_unlines hone []
    rw [List.append_nil] at hread
    rw [classifyInitrdProbe, hread, splitlines, List.append_nil, classify_probeLines _ _ _ hend,
      judge_waiting_iff]
    simp [askIds, List.flatMap_map]
  · intro output hpre hlength
    rcases exists_cut hpre with rfl | ⟨before, line, after, part, hlines, hpart, rfl⟩
    · omega
    have hbefore : ∀ l ∈ before, OneLine l := fun l hl => hone l (by rw [hlines]; simp [hl])
    have hpartLine : OneLine part := fun c hc =>
      hone line (by rw [hlines]; simp) c (hpart.subset hc)
    rw [classifyInitrdProbe, splitlines_unlines hbefore, splitlines_oneLine hpartLine]
    refine classifyLines_cut hscan hlines hpart ?_
    rintro ⟨rfl, rfl⟩
    rw [hlines] at hlength
    simp only [unlines_append, unlines_cons, unlines_nil, List.length_append, List.length_cons,
      List.length_nil] at hlength
    omega

/-- An ask of the migration, whose file has no newline at its end. -/
def sampleAsk : PyStr := lit "[Ask]\nId=yolobox:luks-migrate\nMessage=m"

theorem askText_sampleAsk : AskText sampleAsk := ⟨by decide, by decide⟩

theorem classifyInitrdProbe_sample :
    classifyInitrdProbe (initrdProbe (lit "activating") [] [sampleAsk]) = .waitingForPassphrase := by
  have hunit : OneLine (lit "activating") := by unfold OneLine; decide
  refine (classifyInitrdProbe_iff _ [] [sampleAsk] hunit (by simp) ?_).1.mpr ?_
  · simpa using askText_sampleAsk
  · decide

end Unlock
