/-
# Every ask is tried

Over any interleaving, an ask file that is all there is answered, or was tried by a scan
that began after it was complete, or something is on its way that makes the helper scan
again (`Covered`).  A helper that waits on an empty FIFO has nothing on its way but the
events `inotifywait` still holds.
-/
import Yolobox.Luks.AskPassword
import Yolobox.Lines

open Transition

namespace AskPassword

/-! ## The set of answered files -/

theorem line_prefix_iff {line l rest : PyStr} (hline : 10 ∉ line) (hl : 10 ∉ l) :
    line ++ [10] <+: l ++ 10 :: rest ↔ line = l := by
  constructor
  · intro h
    induction line generalizing l with
    | nil =>
      cases l with
      | nil => rfl
      | cons c l =>
        rw [List.nil_append, List.cons_append, List.cons_prefix_cons] at h
        exact absurd (h.1 ▸ List.mem_cons_self) hl
    | cons d line ih =>
      rw [List.mem_cons, not_or] at hline
      cases l with
      | nil =>
        rw [List.cons_append, List.nil_append, List.cons_prefix_cons] at h
        exact absurd h.1.symm hline.1
      | cons c l =>
        rw [List.cons_append, List.cons_append, List.cons_prefix_cons] at h
        rw [h.1, ih hline.2 (fun hmem => hl (List.mem_cons_of_mem _ hmem)) h.2]
  · rintro rfl
    exact ⟨rest, by simp⟩

/-- What begins with a newline is not found before the first newline. -/
theorem newline_infix_iff {text l rest : PyStr} (hl : 10 ∉ l) :
    10 :: text <:+: l ++ rest ↔ 10 :: text <:+: rest := by
  induction l with
  | nil => rfl
  | cons c l ih =>
    rw [List.mem_cons, not_or] at hl
    rw [List.cons_append, List.infix_cons_iff, List.cons_prefix_cons, ih hl.2]
    exact or_iff_right fun h => hl.1 h.1

/-- A line is found between newlines when it is one of the lines. -/
theorem mem_lines_iff {line : PyStr} {lines : List PyStr} (hline : 10 ∉ line)
    (hlines : ∀ l ∈ lines, 10 ∉ l) :
    10 :: (line ++ [10]) <:+: 10 :: unlines lines ↔ line ∈ lines := by
  induction lines with
  | nil =>
    refine iff_of_false (fun h => ?_) List.not_mem_nil
    have hlength := h.length_le
    simp at hlength
  | cons l lines ih =>
    rw [List.forall_mem_cons] at hlines
    rw [List.infix_cons_iff, List.cons_prefix_cons, unlines_cons, line_prefix_iff hline hlines.1,
      newline_infix_iff hlines.1, ih hlines.2, List.mem_cons]
    exact or_congr_left (and_iff_right rfl)

theorem newline_notMem_path {name : PyStr} (h : 10 ∉ name) : 10 ∉ path name := by
  rw [path, List.mem_append, not_or]
  exact ⟨by decide, h⟩

theorem path_injective : Function.Injective path := fun _ _ h => List.append_cancel_left h

/-! ## What is on its way -/

/-- A scan comes to this file, which was complete when it began. -/
def Scan.Comes (scan : Scan) (name : PyStr) : Prop := name ∈ scan.complete ∧ name ∈ scan.todo

/-- A scan is at this file, which was complete when it began. -/
def Scan.At (scan : Scan) (name current : PyStr) : Prop :=
  name ∈ scan.complete ∧ (name = current ∨ name ∈ scan.todo)

/-- From here on the helper tries a file that is complete, before it waits again. -/
def Stage.WillTry (name : PyStr) : Stage → Prop
  | .reading _ => False
  | .gotLine _ => True
  | .globbing complete => name ∈ complete
  | .scanning scan => scan.Comes name
  | .socketOf scan current => scan.At name current
  | .idOf scan current _ => scan.At name current
  | .replyTo scan current _ _ => scan.At name current
  | .checking => False
  | .exited _ => True

/-- The file that is being tried. -/
def Stage.current : Stage → Option PyStr
  | .socketOf _ name => some name
  | .idOf _ name _ => some name
  | .replyTo _ name _ _ => some name
  | _ => none

/-- A complete file is answered, was tried after it was complete, or something is on its
way: an event, the line that says the watch stands, a line in the FIFO, a scan. -/
def Covered (s : State) (name : PyStr) : Prop :=
  name ∈ s.replied ∨ name ∈ s.tried ∨ (∃ e ∈ s.queue, e.name = name)
    ∨ s.watcher ≠ .established ∨ 10 ∈ s.fifo ∨ s.stage.WillTry name

/-- The invariant of any run. -/
structure Sound (s : State) : Prop where
  used : ∀ file ∈ s.files, file.name ∈ s.used
  current : ∀ name ∈ s.stage.current, name ∈ s.used ∧ name ∉ s.replied
  replied : ∀ name ∈ s.replied, name ∈ s.used
  answered : s.answered = 10 :: unlines (s.replied.reverse.map path)

/-- The invariant of a run whose file names have no newline. -/
structure Watchful (s : State) : Prop where
  plain : ∀ name ∈ s.used, 10 ∉ name
  covered : ∀ file ∈ s.files, file.complete = true → isAsk file.name = true →
    Covered s file.name

/-- No new file has a newline in its name. -/
def plainNames (_ : State) : Action → Prop
  | .create name => 10 ∉ name
  | .moveIn name _ => 10 ∉ name
  | _ => True

instance (s : State) (a : Action) : Decidable (plainNames s a) := by
  cases a <;> unfold plainNames <;> infer_instance

/-! ## What a step can do -/

variable {s s' : State} {a : Action} {name : PyStr}

theorem step_eq (h : step s a = some s') :
    stepDirectory s a = some s' ∨ stepWriter s a = some s' ∨ stepHelper s a = some s' := by
  rw [step, Option.or_eq_some_iff] at h
  rcases h with h | ⟨-, h⟩
  · exact .inl h
  · rw [Option.or_eq_some_iff] at h
    exact .inr (h.imp id And.right)

theorem file?_name {file : AskFile} (h : s.file? name = some file) :
    file ∈ s.files ∧ file.name = name :=
  ⟨List.mem_of_find?_eq_some h, by simpa using List.find?_some h⟩

/-- The helper and the FIFO are where they were, no event was lost, and the files that
are new or newly complete raised one if they are watched. -/
structure Changed (s s' : State) : Prop where
  watcher : s'.watcher = s.watcher
  fifo : s'.fifo = s.fifo
  stage : s'.stage = s.stage
  answered : s'.answered = s.answered
  replied : s'.replied = s.replied
  tried : s'.tried = s.tried
  queue : ∀ e ∈ s.queue, e ∈ s'.queue
  used : ∀ name ∈ s.used, name ∈ s'.used
  files : ∀ file ∈ s'.files, file.name ∈ s'.used
  complete : ∀ file ∈ s'.files, file.complete = true →
    (∃ old ∈ s.files, old.name = file.name ∧ old.complete = true)
      ∨ (s.watcher = .established → ∃ e ∈ s'.queue, e.name = file.name)

theorem raise_eq (s : State) (kind : Kind) (name : PyStr) :
    ∃ queue, s.raise kind name = { s with queue := queue } ∧ (∀ e ∈ s.queue, e ∈ queue) ∧
      (s.watcher = .established → ⟨kind, name⟩ ∈ queue) := by
  unfold State.raise
  split_ifs with hwatches
  · exact ⟨_, rfl, fun e he => List.mem_append_left _ he,
      fun _ => List.mem_append_right _ List.mem_cons_self⟩
  · refine ⟨s.queue, rfl, fun e he => he, fun hestablished => ?_⟩
    rw [hestablished] at hwatches
    exact absurd rfl hwatches

/-- A new file, with its event. -/
theorem changed_add (hs : Sound s) {file : AskFile} {kind : Kind} :
    Changed s ((s.add file).raise kind file.name) := by
  obtain ⟨queue, heq, hold, hnew⟩ := raise_eq (s.add file) kind file.name
  rw [heq]
  refine ⟨rfl, rfl, rfl, rfl, rfl, rfl, hold, fun _ h => List.mem_cons_of_mem _ h, ?_, ?_⟩
  · intro f hf
    rcases List.mem_cons.mp hf with rfl | hf
    · exact List.mem_cons_self
    · exact List.mem_cons_of_mem _ (hs.used f hf)
  · intro f hf hcomplete
    rcases List.mem_cons.mp hf with rfl | hf
    · exact .inr fun hestablished => ⟨_, hnew hestablished, rfl⟩
    · exact .inl ⟨f, hf, rfl, hcomplete⟩

theorem changed_of_stepDirectory (hs : Sound s) (h : stepDirectory s a = some s') :
    Changed s s' := by
  cases a with
  | create name =>
    simp only [stepDirectory, Option.ite_none_right_eq_some, Option.some.injEq] at h
    rw [← h.2]
    exact changed_add hs
  | moveIn name text =>
    simp only [stepDirectory, Option.ite_none_right_eq_some, Option.some.injEq] at h
    rw [← h.2]
    exact changed_add hs
  | write name text =>
    simp only [stepDirectory] at h
    split at h
    · simp only [Option.ite_none_left_eq_some, Option.some.injEq] at h
      rw [← h.2]
      refine ⟨rfl, rfl, rfl, rfl, rfl, rfl, fun _ h => h, fun _ h => h, ?_, ?_⟩
      · intro f hf
        obtain ⟨old, hold, rfl⟩ := List.mem_map.mp hf
        have hused := hs.used old hold
        split_ifs <;> exact hused
      · intro f hf hcomplete
        obtain ⟨old, hold, rfl⟩ := List.mem_map.mp hf
        refine .inl ⟨old, hold, ?_, ?_⟩
        · split_ifs <;> rfl
        · split_ifs at hcomplete <;> exact hcomplete
    · cases h
  | close name =>
    simp only [stepDirectory] at h
    split at h
    · simp only [Option.ite_none_left_eq_some, Option.some.injEq] at h
      rw [← h.2]
      obtain ⟨queue, heq, hold, hnew⟩ :=
        raise_eq (s.change name fun file => { file with complete := true }) .closeWrite name
      rw [heq]
      refine ⟨rfl, rfl, rfl, rfl, rfl, rfl, hold, fun _ h => h, ?_, ?_⟩
      · intro f hf
        obtain ⟨old, hmem, rfl⟩ := List.mem_map.mp hf
        have hused := hs.used old hmem
        split_ifs <;> exact hused
      · intro f hf hcomplete
        obtain ⟨old, hmem, rfl⟩ := List.mem_map.mp hf
        by_cases hname : old.name = name
        · rw [if_pos hname]
          exact .inr fun hestablished => ⟨_, hnew hestablished, hname.symm⟩
        · rw [if_neg hname] at hcomplete ⊢
          exact .inl ⟨old, hmem, rfl, hcomplete⟩
    · cases h
  | remove name =>
    simp only [stepDirectory] at h
    split at h
    · rw [← Option.some.inj h]
      obtain ⟨queue, heq, hold, -⟩ := raise_eq
        { s with files := s.files.filter fun file => file.name ≠ name } .delete name
      rw [heq]
      refine ⟨rfl, rfl, rfl, rfl, rfl, rfl, hold, fun _ h => h, ?_, ?_⟩
      · exact fun f hf => hs.used f (List.mem_filter.mp hf).1
      · exact fun f hf hcomplete => .inl ⟨f, (List.mem_filter.mp hf).1, rfl, hcomplete⟩
    · cases h
  | _ => cases h

/-- A step of a writer leaves the files and the helper as they are, and the FIFO has a
new line when the watch was announced or an event was taken. -/
structure Wrote (s s' : State) : Prop where
  files : s'.files = s.files
  used : s'.used = s.used
  stage : s'.stage = s.stage
  answered : s'.answered = s.answered
  replied : s'.replied = s.replied
  tried : s'.tried = s.tried
  line : 10 ∈ s'.fifo ∨ (∀ c ∈ s.fifo, c ∈ s'.fifo) ∧ s'.queue = s.queue ∧
    (s'.watcher = .established → s.watcher = .established)

theorem newline_mem_writeLine (s : State) (line : PyStr) : 10 ∈ (s.writeLine line).fifo :=
  List.mem_append_right _ List.mem_cons_self

theorem wrote_of_stepWriter (h : stepWriter s a = some s') : Wrote s s' := by
  cases a with
  | start =>
    simp only [stepWriter, Option.ite_none_right_eq_some, Option.some.injEq] at h
    rw [← h.2]
    exact ⟨rfl, rfl, rfl, rfl, rfl, rfl, .inl (newline_mem_writeLine s _)⟩
  | watch =>
    simp only [stepWriter, Option.ite_none_right_eq_some, Option.some.injEq] at h
    rw [← h.2]
    exact ⟨rfl, rfl, rfl, rfl, rfl, rfl, .inr ⟨fun _ h => h, rfl, nofun⟩⟩
  | failToWatch =>
    simp only [stepWriter, Option.ite_none_right_eq_some, Option.some.injEq] at h
    rw [← h.2]
    exact ⟨rfl, rfl, rfl, rfl, rfl, rfl, .inl (newline_mem_writeLine s _)⟩
  | announce =>
    simp only [stepWriter, Option.ite_none_right_eq_some, Option.some.injEq] at h
    rw [← h.2]
    exact ⟨rfl, rfl, rfl, rfl, rfl, rfl, .inl (newline_mem_writeLine s _)⟩
  | deliver =>
    simp only [stepWriter] at h
    split at h
    · rw [← Option.some.inj h]
      exact ⟨rfl, rfl, rfl, rfl, rfl, rfl, .inl (newline_mem_writeLine s _)⟩
    · cases h
  | journal text =>
    rw [← Option.some.inj h]
    exact ⟨rfl, rfl, rfl, rfl, rfl, rfl,
      .inr ⟨fun _ h => List.mem_append_left _ h, rfl, fun h => h⟩⟩
  | _ => cases h

/-- A step of the helper leaves the others as they are. -/
structure Helped (s s' : State) : Prop where
  files : s'.files = s.files
  used : s'.used = s.used
  watcher : s'.watcher = s.watcher
  queue : s'.queue = s.queue

theorem helped_of_stepHelper (h : stepHelper s a = some s') : Helped s s' := by
  unfold stepHelper at h
  split at h <;> repeat' split at h
  all_goals first
    | cases h; exact ⟨rfl, rfl, rfl, rfl⟩
    | cases h

/-! ## What a step keeps -/

theorem Changed.sound (hs : Sound s) (h : Changed s s') : Sound s' where
  used := h.files
  current := by
    rw [h.stage, h.replied]
    exact fun name hname => ⟨h.used _ (hs.current name hname).1, (hs.current name hname).2⟩
  replied := by
    rw [h.replied]
    exact fun name hname => h.used _ (hs.replied name hname)
  answered := by rw [h.answered, h.replied, hs.answered]

theorem Wrote.sound (hs : Sound s) (h : Wrote s s') : Sound s' where
  used := by
    rw [h.files, h.used]
    exact hs.used
  current := by
    rw [h.stage, h.used, h.replied]
    exact hs.current
  replied := by
    rw [h.replied, h.used]
    exact hs.replied
  answered := by rw [h.answered, h.replied, hs.answered]

/-- A file that was answered is found in `answered`. -/
theorem isAnswered_of_replied (hs : Sound s) (h : name ∈ s.replied) : s.isAnswered name = true := by
  have hmem : path name ∈ s.replied.reverse.map path :=
    List.mem_map_of_mem (List.mem_reverse.mpr h)
  obtain ⟨before, after, hsplit⟩ := List.append_of_mem hmem
  rw [State.isAnswered, decide_eq_true_iff, hs.answered, hsplit, unlines_append, unlines_cons]
  cases hbefore : before.reverse with
  | nil =>
    rw [List.reverse_eq_nil_iff.mp hbefore]
    exact ⟨[], unlines after, by simp⟩
  | cons last init =>
    rw [← List.reverse_reverse before, hbefore, List.reverse_cons, unlines_append, unlines_cons]
    exact ⟨10 :: (unlines init.reverse ++ last), unlines after, by simp⟩

/-- When no name has a newline, nothing else is found there. -/
theorem replied_of_isAnswered (hs : Sound s) (hplain : ∀ name ∈ s.used, 10 ∉ name)
    (hname : 10 ∉ name) (h : s.isAnswered name = true) : name ∈ s.replied := by
  rw [State.isAnswered, decide_eq_true_iff, hs.answered] at h
  have hlines : ∀ l ∈ s.replied.reverse.map path, 10 ∉ l := by
    intro l hl
    obtain ⟨n, hn, rfl⟩ := List.mem_map.mp hl
    exact newline_notMem_path (hplain n (hs.replied n (List.mem_reverse.mp hn)))
  have hmem := (mem_lines_iff (newline_notMem_path hname) hlines).mp h
  rw [List.mem_map_of_injective path_injective, List.mem_reverse] at hmem
  exact hmem

/-- The helper is about to try one file of a scan. -/
theorem sound_next {scan : Scan} (hs : Sound s) (hfile : s.file? name ≠ none)
    (hnot : s.isAnswered name = false) : Sound { s with stage := .socketOf scan name } := by
  obtain ⟨file, hfile⟩ := Option.ne_none_iff_exists'.mp hfile
  obtain ⟨hmem, rfl⟩ := file?_name hfile
  refine ⟨hs.used, ?_, hs.replied, hs.answered⟩
  intro current hcurrent
  obtain rfl : file.name = current := Option.some.inj hcurrent
  refine ⟨hs.used file hmem, fun hreplied => ?_⟩
  rw [isAnswered_of_replied hs hreplied] at hnot
  cases hnot

/-- The helper goes on with the same file, or with none. -/
theorem sound_stage {stage : Stage} (hs : Sound s)
    (hcurrent : ∀ name ∈ stage.current, name ∈ s.stage.current) :
    Sound { s with stage := stage } :=
  ⟨hs.used, fun name hname => hs.current name (hcurrent name hname), hs.replied, hs.answered⟩

theorem sound_skip {scan : Scan} (hs : Sound s) : Sound (s.skip scan name) :=
  ⟨hs.used, nofun, hs.replied, hs.answered⟩

theorem sound_of_stepHelper (hs : Sound s) (h : stepHelper s a = some s') : Sound s' := by
  cases a with
  | readByte =>
    simp only [stepHelper] at h
    split at h
    · rename_i part c fifo hstage hfifo
      rw [← Option.some.inj h]
      refine ⟨hs.used, fun name hname => ?_, hs.replied, hs.answered⟩
      split_ifs at hname <;> cases hname
    · cases h
  | takeLine =>
    simp only [stepHelper] at h
    split at h
    · rw [← Option.some.inj h]
      refine sound_stage hs fun name hname => ?_
      split_ifs at hname <;> cases hname
    · cases h
  | glob todo =>
    simp only [stepHelper] at h
    split at h
    · simp only [Option.ite_none_right_eq_some, Option.some.injEq] at h
      rw [← h.2]
      exact sound_stage hs nofun
    · cases h
  | next =>
    simp only [stepHelper] at h
    split at h
    · rw [← Option.some.inj h]
      exact sound_stage hs nofun
    · split_ifs at h with hgone hanswered
      · rw [← Option.some.inj h]
        exact sound_stage hs nofun
      · rw [← Option.some.inj h]
        exact sound_stage hs nofun
      · rw [← Option.some.inj h]
        exact sound_next hs hgone (Bool.not_eq_true _ ▸ hanswered)
    · cases h
  | readSocket ok =>
    simp only [stepHelper] at h
    split at h
    · rename_i scan name hstage
      split at h
      · rw [← Option.some.inj h]
        exact sound_stage hs fun n hn => by rw [hstage]; exact hn
      · cases h
      · rw [← Option.some.inj h]
        exact sound_skip hs
    · cases h
  | readId ok =>
    simp only [stepHelper] at h
    split at h
    · rename_i scan name socket hstage
      split at h
      · split_ifs at h
        · rw [← Option.some.inj h]
          exact sound_skip hs
        · rw [← Option.some.inj h]
          exact sound_stage hs fun n hn => by rw [hstage]; exact hn
      · cases h
      · rw [← Option.some.inj h]
        exact sound_skip hs
    · cases h
  | reply ok =>
    simp only [stepHelper] at h
    split at h
    · rename_i scan name socket id hstage
      have hname := hs.current name (by rw [hstage]; rfl)
      split_ifs at h
      · rw [← Option.some.inj h]
        refine ⟨hs.used, nofun, List.forall_mem_cons.mpr ⟨hname.1, hs.replied⟩, ?_⟩
        show s.answered ++ path name ++ [10] = 10 :: unlines ((name :: s.replied).reverse.map path)
        rw [hs.answered, List.reverse_cons, List.map_append, unlines_append]
        simp
      · rw [← Option.some.inj h]
        exact sound_skip hs
    · cases h
  | check units =>
    simp only [stepHelper] at h
    split at h
    · rw [← Option.some.inj h]
      refine sound_stage hs fun name hname => ?_
      split at hname <;> cases hname
    · cases h
  | _ => cases h

theorem sound_step (hs : Sound s) (h : step s a = some s') : Sound s' := by
  rcases step_eq h with h | h | h
  · exact (changed_of_stepDirectory hs h).sound hs
  · exact (wrote_of_stepWriter h).sound hs
  · exact sound_of_stepHelper hs h

theorem sound_init : Sound State.init := ⟨nofun, nofun, nofun, rfl⟩

theorem sound_of_reaches {ok : State → Action → Prop} (h : Reaches step ok .init s) : Sound s :=
  h.invariant sound_init fun _ _ _ hs _ hstep => sound_step hs hstep

/-! ## Nothing is lost -/

/-- A step of the directory's users or of a writer. -/
theorem Changed.covered (h : Changed s s') (hcovered : Covered s name) : Covered s' name := by
  unfold Covered
  rw [h.replied, h.tried, h.watcher, h.fifo, h.stage]
  rcases hcovered with hr | ht | ⟨e, he, hname⟩ | hrest
  · exact .inl hr
  · exact .inr (.inl ht)
  · exact .inr (.inr (.inl ⟨e, h.queue e he, hname⟩))
  · exact .inr (.inr (.inr hrest))

theorem Wrote.covered (h : Wrote s s') (hcovered : Covered s name) : Covered s' name := by
  rcases h.line with hline | ⟨hfifo, hqueue, hwatcher⟩
  · exact .inr (.inr (.inr (.inr (.inl hline))))
  · unfold Covered
    rw [h.replied, h.tried, hqueue, h.stage]
    rcases hcovered with hr | ht | hq | hw | hf | hstage
    · exact .inl hr
    · exact .inr (.inl ht)
    · exact .inr (.inr (.inl hq))
    · exact .inr (.inr (.inr (.inl fun h => hw (hwatcher h))))
    · exact .inr (.inr (.inr (.inr (.inl (hfifo 10 hf)))))
    · exact .inr (.inr (.inr (.inr (.inr hstage))))

/-- What covers a file but for the helper's stage stays, unless a step takes it. -/
theorem Covered.stage {fifo : PyStr} {stage : Stage} {answered : PyStr} {replied tried : List PyStr}
    (hcovered : Covered s name) (hreplied : ∀ n ∈ s.replied, n ∈ replied)
    (htried : ∀ n ∈ s.tried, n ∈ tried) (hfifo : 10 ∈ s.fifo → 10 ∈ fifo ∨ stage.WillTry name)
    (hstage : s.stage.WillTry name → name ∈ replied ∨ name ∈ tried ∨ stage.WillTry name) :
    Covered { s with
      fifo := fifo, stage := stage, answered := answered, replied := replied, tried := tried } name := by
  rcases hcovered with hr | ht | hq | hw | hf | hs
  · exact .inl (hreplied name hr)
  · exact .inr (.inl (htried name ht))
  · exact .inr (.inr (.inl hq))
  · exact .inr (.inr (.inr (.inl hw)))
  · exact .inr (.inr (.inr (.inr (hfifo hf))))
  · rcases hstage hs with hr | ht | hs
    · exact .inl hr
    · exact .inr (.inl ht)
    · exact .inr (.inr (.inr (.inr (.inr hs))))

/-- A step that only moves the helper on. -/
theorem Covered.moves {stage : Stage} (hcovered : Covered s name)
    (hstage : s.stage.WillTry name → name ∈ s.replied ∨ stage.WillTry name) :
    Covered { s with stage := stage } name :=
  hcovered.stage (fun _ h => h) (fun _ h => h) .inl fun h => (hstage h).imp id .inr

/-- A file that is given up was tried. -/
theorem Covered.skip {scan : Scan} {current : PyStr} (hcovered : Covered s name)
    (hstage : s.stage.WillTry name → scan.At name current) : Covered (s.skip scan current) name := by
  refine hcovered.stage (fun _ h => h) ?_ .inl fun h => ?_
  · intro n hn
    split_ifs
    · exact List.mem_cons_of_mem _ hn
    · exact hn
  · obtain ⟨hcomplete, rfl | htodo⟩ := hstage h
    · rw [if_pos hcomplete]
      exact .inr (.inl List.mem_cons_self)
    · exact .inr (.inr ⟨hcomplete, htodo⟩)

theorem mem_completeAsks {file : AskFile} (hfile : file ∈ s.files) (hcomplete : file.complete = true)
    (hask : isAsk file.name = true) : file.name ∈ s.completeAsks :=
  List.mem_filter.mpr ⟨List.mem_map_of_mem (List.mem_filter.mpr ⟨hfile, hcomplete⟩), hask⟩

/-- A file that is there is found. -/
theorem file?_ne_none {file : AskFile} (hfile : file ∈ s.files) : s.file? file.name ≠ none := by
  rw [State.file?, ne_eq, List.find?_eq_none]
  exact fun h => h file hfile (by simp)

/-- **A step of the helper.** -/
theorem covered_of_stepHelper (hs : Sound s) (hplain : ∀ name ∈ s.used, 10 ∉ name)
    {file : AskFile} (hfile : file ∈ s.files) (hcomplete : file.complete = true)
    (hask : isAsk file.name = true) (hcovered : Covered s file.name)
    (h : stepHelper s a = some s') : Covered s' file.name := by
  cases a with
  | readByte =>
    simp only [stepHelper] at h
    split at h
    · rename_i part c fifo hstage hfifo
      rw [← Option.some.inj h]
      refine hcovered.stage (fun _ h => h) (fun _ h => h) (fun hmem => ?_) fun hwill => ?_
      · -- the newline that was read makes the helper scan
        rw [hfifo, List.mem_cons] at hmem
        rcases hmem with rfl | hmem
        · exact .inr trivial
        · exact .inl hmem
      · rw [hstage] at hwill
        exact hwill.elim
    · cases h
  | takeLine =>
    simp only [stepHelper] at h
    split at h
    · rw [← Option.some.inj h]
      refine hcovered.moves fun _ => .inr ?_
      split_ifs
      · exact trivial
      · exact mem_completeAsks hfile hcomplete hask
    · cases h
  | glob todo =>
    simp only [stepHelper] at h
    split at h
    · rename_i complete hstage
      simp only [Option.ite_none_right_eq_some, Option.some.injEq] at h
      rw [← h.2]
      refine hcovered.moves fun hwill => .inr ?_
      rw [hstage] at hwill
      exact ⟨hwill, h.1.2 file hfile hwill⟩
    · cases h
  | next =>
    simp only [stepHelper] at h
    split at h
    · rename_i complete hstage
      rw [← Option.some.inj h]
      refine hcovered.moves fun hwill => ?_
      rw [hstage] at hwill
      exact absurd hwill.2 List.not_mem_nil
    · rename_i complete name todo hstage
      have hwill : s.stage.WillTry file.name →
          file.name ∈ complete ∧ (file.name = name ∨ file.name ∈ todo) := by
        rw [hstage]
        exact fun hwill => ⟨hwill.1, List.mem_cons.mp hwill.2⟩
      split_ifs at h with hgone hanswered
      · rw [← Option.some.inj h]
        refine hcovered.moves fun h => ?_
        obtain ⟨hc, rfl | htodo⟩ := hwill h
        · exact absurd hgone (file?_ne_none hfile)
        · exact .inr ⟨hc, htodo⟩
      · rw [← Option.some.inj h]
        refine hcovered.moves fun h => ?_
        obtain ⟨hc, rfl | htodo⟩ := hwill h
        · exact .inl (replied_of_isAnswered hs hplain (hplain _ (hs.used file hfile)) hanswered)
        · exact .inr ⟨hc, htodo⟩
      · rw [← Option.some.inj h]
        exact hcovered.moves fun h => .inr (hwill h)
    · cases h
  | readSocket ok =>
    simp only [stepHelper] at h
    split at h
    · rename_i scan name hstage
      have hwill : s.stage.WillTry file.name → scan.At file.name name := by
        rw [hstage]
        exact id
      split at h
      · rw [← Option.some.inj h]
        exact hcovered.moves fun h => .inr (hwill h)
      · cases h
      · rw [← Option.some.inj h]
        exact hcovered.skip hwill
    · cases h
  | readId ok =>
    simp only [stepHelper] at h
    split at h
    · rename_i scan name socket hstage
      have hwill : s.stage.WillTry file.name → scan.At file.name name := by
        rw [hstage]
        exact id
      split at h
      · split_ifs at h
        · rw [← Option.some.inj h]
          exact hcovered.skip hwill
        · rw [← Option.some.inj h]
          exact hcovered.moves fun h => .inr (hwill h)
      · cases h
      · rw [← Option.some.inj h]
        exact hcovered.skip hwill
    · cases h
  | reply ok =>
    simp only [stepHelper] at h
    split at h
    · rename_i scan name socket id hstage
      have hwill : s.stage.WillTry file.name → scan.At file.name name := by
        rw [hstage]
        exact fun h => h
      split_ifs at h
      · rw [← Option.some.inj h]
        refine hcovered.stage (fun _ h => List.mem_cons_of_mem _ h) (fun _ h => h) .inl fun h => ?_
        obtain ⟨hc, heq | htodo⟩ := hwill h
        · exact .inl (heq ▸ List.mem_cons_self)
        · exact .inr (.inr ⟨hc, htodo⟩)
      · rw [← Option.some.inj h]
        exact hcovered.skip hwill
    · cases h
  | check units =>
    simp only [stepHelper] at h
    split at h
    · rename_i hstage
      rw [← Option.some.inj h]
      refine hcovered.moves fun hwill => ?_
      rw [hstage] at hwill
      exact hwill.elim
    · cases h
  | _ => cases h

@[simp] theorem used_raise (s : State) (kind : Kind) (name : PyStr) :
    (s.raise kind name).used = s.used := by
  obtain ⟨queue, heq, -⟩ := raise_eq s kind name
  rw [heq]

/-- The names of a step. -/
theorem plain_of_step (hplain : ∀ name ∈ s.used, 10 ∉ name) (hok : plainNames s a)
    (h : step s a = some s') : ∀ name ∈ s'.used, 10 ∉ name := by
  rcases step_eq h with h | h | h
  · cases a with
    | create name =>
      simp only [stepDirectory, Option.ite_none_right_eq_some, Option.some.injEq] at h
      rw [← h.2, used_raise]
      exact List.forall_mem_cons.mpr ⟨hok, hplain⟩
    | moveIn name text =>
      simp only [stepDirectory, Option.ite_none_right_eq_some, Option.some.injEq] at h
      rw [← h.2, used_raise]
      exact List.forall_mem_cons.mpr ⟨hok, hplain⟩
    | write name text =>
      simp only [stepDirectory] at h
      split at h
      · simp only [Option.ite_none_left_eq_some, Option.some.injEq] at h
        rw [← h.2]
        exact hplain
      · cases h
    | close name =>
      simp only [stepDirectory] at h
      split at h
      · simp only [Option.ite_none_left_eq_some, Option.some.injEq] at h
        rw [← h.2, used_raise]
        exact hplain
      · cases h
    | remove name =>
      simp only [stepDirectory] at h
      split at h
      · rw [← Option.some.inj h, used_raise]
        exact hplain
      · cases h
    | _ => cases h
  · rw [(wrote_of_stepWriter h).used]
    exact hplain
  · rw [(helped_of_stepHelper h).used]
    exact hplain

theorem watchful_step (hs : Sound s) (hw : Watchful s) (hok : plainNames s a)
    (h : step s a = some s') : Watchful s' := by
  refine ⟨plain_of_step hw.plain hok h, fun file hfile hcomplete hask => ?_⟩
  rcases step_eq h with h | h | h
  · have hchanged := changed_of_stepDirectory hs h
    rcases hchanged.complete file hfile hcomplete with ⟨old, hold, hname, hc⟩ | hevent
    · exact hchanged.covered (hname ▸ hw.covered old hold hc (hname.symm ▸ hask))
    · by_cases hestablished : s.watcher = .established
      · exact .inr (.inr (.inl (hevent hestablished)))
      · exact .inr (.inr (.inr (.inl (hchanged.watcher.symm ▸ hestablished))))
  · have hwrote := wrote_of_stepWriter h
    exact hwrote.covered (hw.covered file (hwrote.files ▸ hfile) hcomplete hask)
  · have hfile' : file ∈ s.files := (helped_of_stepHelper h).files ▸ hfile
    exact covered_of_stepHelper hs hw.plain hfile' hcomplete hask
      (hw.covered file hfile' hcomplete hask) h

theorem watchful_of_reaches (h : Reaches step plainNames .init s) : Watchful s := by
  refine (h.invariant (I := fun s => Sound s ∧ Watchful s) ⟨sound_init, nofun, nofun⟩ ?_).2
  rintro s a s' ⟨hs, hw⟩ hok hstep
  exact ⟨sound_step hs hstep, watchful_step hs hw hok hstep⟩

/-! ## Waiting -/

/-- The loop waits on an empty FIFO, after the line that says the watch stands was read
(it was written, and nothing written is left to read). -/
structure Waits (s : State) : Prop where
  reading : ∃ part, s.stage = .reading part
  empty : s.fifo = []
  established : s.watcher = .established

instance (s : State) : Decidable (Waits s) :=
  decidable_of_iff ((match s.stage with | .reading _ => true | _ => false) = true ∧ s.fifo = []
    ∧ s.watcher = .established) <| by
    constructor
    · rintro ⟨hstage, hempty, hestablished⟩
      refine ⟨?_, hempty, hestablished⟩
      split at hstage
      · exact ⟨_, ‹_›⟩
      · cases hstage
    · rintro ⟨⟨part, hstage⟩, hempty, hestablished⟩
      rw [hstage]
      exact ⟨rfl, hempty, hestablished⟩

/-- **No wake-up is lost, and nothing is answered twice.**  A helper that waits on an
empty FIFO has answered every ask file that is complete, or tried it in a scan that
began after it was complete, but for those with an event `inotifywait` has not written
yet; and the passphrase is not sent again after a reply that succeeded. -/
theorem asks_tried :
    (∀ s, Reaches step plainNames .init s → Waits s →
      ∀ file ∈ s.files, file.complete = true → isAsk file.name = true →
        file.name ∈ s.replied ∨ file.name ∈ s.tried ∨ ∃ e ∈ s.queue, e.name = file.name)
    ∧ ∀ s, Reaches step anyStep .init s → ∀ scan name socket id,
      s.stage = .replyTo scan name socket id → name ∉ s.replied := by
  constructor
  · rintro s hs ⟨⟨part, hreading⟩, hempty, hestablished⟩ file hfile hcomplete hask
    rcases (watchful_of_reaches hs).covered file hfile hcomplete hask with
      hr | ht | hq | hw | hf | hstage
    · exact .inl hr
    · exact .inr (.inl ht)
    · exact .inr (.inr hq)
    · exact absurd hestablished hw
    · rw [hempty] at hf
      exact absurd hf List.not_mem_nil
    · rw [hreading] at hstage
      exact hstage.elim
  · intro s hs scan name socket id hstage
    exact ((sound_of_reaches hs).current name (by rw [hstage]; rfl)).2

/-! ### Runs -/

def idleUnits : Units := ⟨false, false, false, false, false⟩

/-- A line of so many characters is read, and these names are scanned. -/
def turn (length : ℕ) (todo : List PyStr) (tries : List Action) : List Action :=
  List.replicate (length + 1) .readByte ++ [.takeLine, .glob todo] ++ tries
    ++ [.next, .check idleUnits]

/-- The watch is set up, and its two lines are read. -/
def setUp : List Action := [.start, .watch, .announce] ++ turn 19 [] [] ++ turn 20 [] []

/-- An event is written and read. -/
def heard (e : Event) (todo : List PyStr) (tries : List Action) : List Action :=
  .deliver :: turn e.line.length todo tries

def askA : PyStr := lit "ask.a"
def askAB : PyStr := lit "ask.a\nb"
def askText : PyStr := lit "[Ask]\nSocket=/run/s\nId=cryptsetup:x\n"

def answering : List Action := [.next, .readSocket true, .readId true, .reply true]

/-- An ask that is answered. -/
def answeredRun : List Action :=
  setUp ++ [.moveIn askA askText] ++ heard ⟨.movedTo, askA⟩ [askA] answering

/-- An ask that is in place, and its event not written yet. -/
def unheardRun : List Action := setUp ++ [.moveIn askA askText]

/-- An ask that was answered, and one whose name is the first line of its name.  The event
of the first is two lines. -/
def mistakenRun : List Action :=
  setUp ++ [.moveIn askAB askText, .deliver]
    ++ turn ((Event.mk .movedTo askAB).line.length - 2) [askAB] answering ++ turn 1 [askAB] [.next]
    ++ [.moveIn askA askText] ++ heard ⟨.movedTo, askA⟩ [askAB, askA] [.next, .next]

/-- An ask that is still being written. -/
def unfinishedRun : List Action :=
  setUp ++ [.create askA] ++ heard ⟨.create, askA⟩ [askA]
    [.next, .readSocket true, .readId true]

/-- An ask file that was neither answered nor tried since it was complete. -/
def Missed (s : State) (file : AskFile) : Prop :=
  isAsk file.name = true ∧ file.name ∉ s.replied ∧ file.name ∉ s.tried

instance (s : State) (file : AskFile) : Decidable (Missed s file) :=
  inferInstanceAs (Decidable (_ ∧ _))

theorem reaches_of_any {ok : State → Action → Prop} [∀ s a, Decidable (ok s a)] {p : State → Prop}
    [DecidablePred p] (as : List Action)
    (h : (run (guarded step ok) State.init as).any (fun s => decide (p s)) = true) :
    ∃ s, Reaches step ok .init s ∧ p s := by
  rw [Option.any_eq_true] at h
  obtain ⟨s, hrun, hp⟩ := h
  exact ⟨s, reaches_of_run as hrun, of_decide_eq_true hp⟩

theorem asks_tried_sample :
    ∃ s : State, s.files ≠ [] ∧
      ∀ file ∈ s.files, file.complete = true → isAsk file.name = true →
        file.name ∈ s.replied ∨ file.name ∈ s.tried ∨ ∃ e ∈ s.queue, e.name = file.name := by
  obtain ⟨s, hs, hwaits, hfiles⟩ :
      ∃ s, Reaches step plainNames .init s ∧ Waits s ∧ s.files ≠ [] :=
    reaches_of_any answeredRun (by decide +kernel)
  exact ⟨s, hfiles, asks_tried.1 s hs hwaits⟩

/-- **A helper that waits may have asks it did not try**: one whose event is not written
yet, one whose name is found in the name of another, one that is not complete. -/
theorem asks_missed :
    (∃ s, Reaches step anyStep .init s ∧ Waits s ∧
      ∃ file ∈ s.files, Missed s file ∧ file.complete = true)
    ∧ (∃ s, Reaches step anyStep .init s ∧ Waits s ∧ s.queue = [] ∧
      ∃ file ∈ s.files, Missed s file ∧ file.complete = true)
    ∧ ∃ s, Reaches step anyStep .init s ∧ Waits s ∧ s.queue = [] ∧
      ∃ file ∈ s.files, Missed s file :=
  ⟨reaches_of_any unheardRun (by decide +kernel), reaches_of_any mistakenRun (by decide +kernel),
    reaches_of_any unfinishedRun (by decide +kernel)⟩

end AskPassword
