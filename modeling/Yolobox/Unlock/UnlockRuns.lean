/-
# Runs of `unlock_disk`

The world answers whatever it likes: the helper's output and exit, the probes, the
statuses, the starter; only the clock never goes back.  It keeps what happened, newest
first, and the time of the last reading; a sleep takes the seconds it was asked for, and
what else passes shows in the next reading.

`Waiting` is the loop's invariant between two turns, and `Later` what any number of turns
changes.
-/
import Yolobox.Unlock.UnlockDisk

open Script

namespace Unlock

/-! ## The world -/

inductive Event
  | wrote (line : List Utf8.Byte) (locked verified : Bool)
  | ran (session : Session)
  | probed (completed : Completed)
  | status (word : Option PyStr)
  | polled (code : Option ℤ)
  | read (time : ℚ)
  deriving DecidableEq

structure World where
  locked : Bool
  verified : Bool              -- since the lock was taken
  clock : ℚ
  history : List Event

/-- A world in which the call begins. -/
def World.start (clock : ℚ) : World := ⟨false, false, clock, []⟩

def World.note (s : World) (e : Event) : World := { s with history := e :: s.history }

/-- Which answers there can be. -/
def may (s : World) : (c : Cmd) → Answer c → Prop
  | .monotonic, time => s.clock ≤ time
  | _, _ => True

/-- What a command does to the world. -/
def World.after (s : World) : (c : Cmd) → Answer c → World
  | .lock, _ => { s with locked := true, verified := false }
  | .release, _ => { s with locked := false }
  | .verifyInitrdListener _, _ => { s with verified := true }
  | .write line, _ => s.note (.wrote line s.locked s.verified)
  | .session, session => s.note (.ran session)
  | .probeSshd _, completed => s.note (.probed completed)
  | .vmStatus, word => s.note (.status word)
  | .poll, code => s.note (.polled code)
  | .monotonic, time => { s.note (.read time) with clock := time }
  | .sleep seconds, _ => { s with clock := s.clock + seconds }
  | _, _ => s

/-- Any command may raise, before or after it did what it does. -/
def machine : Machine Answer World := fun c s r t =>
  match r with
  | some a => may s c a ∧ t = s.after c a
  | none => t = s ∨ ∃ a, may s c a ∧ t = s.after c a

/-! ## What is said of a history -/

/-- A helper run that was judged so. -/
def Event.Judged (verdict : Verdict) : Event → Prop
  | .ran session => judgeHelperRun session.run = verdict
  | _ => False

/-- A run that reported answering the migration's ask. -/
def Event.Migrated : Event → Prop
  | .ran session => session.run.migrated = true
  | _ => False

/-- A helper run that exited 0, or a stage-2 probe that answered. -/
def Event.Unlocks : Event → Prop
  | .ran session => session.returncode = 0
  | .probed completed => completed.outcome = .answered
  | _ => False

/-- The VM was running, and no session was dropped. -/
def Event.Steady : Event → Prop
  | .ran session => judgeHelperRun session.run ≠ .dropped
  | .status word => word = some RUNNING
  | _ => True

/-- A write is of the passphrase, under the lock, to a listener that was verified. -/
def Event.Guarded (passphrase : List Utf8.Byte) : Event → Prop
  | .wrote line locked verified =>
    line = passphrase ++ [10] ∧ locked = true ∧ verified = true
  | _ => True

/-- Neither a helper run nor a write. -/
def Event.Plain : Event → Prop
  | .wrote _ _ _ => False
  | .ran _ => False
  | _ => True

/-- Every write was guarded, and no run was judged FAILED. -/
structure Clean (passphrase : List Utf8.Byte) (history : List Event) : Prop where
  guarded : ∀ e ∈ history, e.Guarded passphrase
  failed : ∀ e ∈ history, ¬ e.Judged .failed

/-- Every write was guarded, and only the newest run can have been judged FAILED. -/
structure FailedLast (passphrase : List Utf8.Byte) (history : List Event) : Prop where
  guarded : ∀ e ∈ history, e.Guarded passphrase
  failed : ∀ e ∈ history.tail, ¬ e.Judged .failed

/-- Some run answered the migration's ask. -/
def AnyMigrated (history : List Event) : Prop := ∃ e ∈ history, e.Migrated

/-- The loop's invariant between two turns. -/
structure Waiting (passphrase : List Utf8.Byte) (st : Loop) (s : World) : Prop where
  clean : Clean passphrase s.history
  migrated : st.migratedAny = true ↔ AnyMigrated s.history
  budget : ∀ deadline, st.deadline = some deadline →
    ∃ start, .read start ∈ s.history ∧ deadline = start + INITRD_WAIT_SECONDS
      ∧ s.clock ≤ deadline + INITRD_POLL_SECONDS

/-- Since `past`, `P` came about, if all was steady. -/
def Since (past history : List Event) (P : Prop) : Prop :=
  ∃ new, history = new ++ past ∧ ((∀ e ∈ new, e.Steady) → P)

/-- There is a budget, and one that was there before is the same.  (`deadline or ...` takes
a deadline of zero for none.) -/
def Kept (st st' : Loop) : Prop :=
  st'.deadline.isSome ∧
    ∀ deadline, deadline ≠ 0 → st.deadline = some deadline → st'.deadline = some deadline

/-- What is so when the call returns. -/
structure Done (passphrase : List Utf8.Byte) (migrated : Bool) (s : World) : Prop where
  clean : Clean passphrase s.history
  unlocks : ∃ e ∈ s.history.head?, e.Unlocks
  migrated : migrated = true ↔ AnyMigrated s.history

/-! ## Histories -/

variable {passphrase : List Utf8.Byte} {history : List Event} {e : Event}

theorem Clean.failedLast (h : Clean passphrase history) : FailedLast passphrase history :=
  ⟨h.guarded, fun e he => h.failed e (List.mem_of_mem_tail he)⟩

theorem Clean.cons_failedLast (h : Clean passphrase history) (he : e.Guarded passphrase) :
    FailedLast passphrase (e :: history) :=
  ⟨List.forall_mem_cons.mpr ⟨he, h.guarded⟩, h.failed⟩

theorem Clean.cons (h : Clean passphrase history) (he : e.Guarded passphrase)
    (hfailed : ¬ e.Judged .failed) : Clean passphrase (e :: history) :=
  ⟨List.forall_mem_cons.mpr ⟨he, h.guarded⟩, List.forall_mem_cons.mpr ⟨hfailed, h.failed⟩⟩

theorem Event.Plain.guarded (h : e.Plain) : e.Guarded passphrase := by
  cases e <;> first | exact h.elim | exact trivial

theorem Event.Plain.not_judged {verdict : Verdict} (h : e.Plain) : ¬ e.Judged verdict := by
  cases e <;> first | exact h.elim | exact id

theorem Event.Plain.not_migrated (h : e.Plain) : ¬ e.Migrated := by
  cases e <;> first | exact h.elim | exact id

theorem Clean.plain (h : Clean passphrase history) (he : e.Plain) :
    Clean passphrase (e :: history) := h.cons he.guarded he.not_judged

theorem anyMigrated_cons : AnyMigrated (e :: history) ↔ e.Migrated ∨ AnyMigrated history := by
  simp [AnyMigrated]

section Since

variable {past : List Event} {P P' : Prop}

theorem Since.plain (h : Since past history P) (hP : e.Steady → P → P') :
    Since past (e :: history) P' := by
  obtain ⟨new, heq, hsteady⟩ := h
  refine ⟨e :: new, by rw [heq]; rfl, fun hall => ?_⟩
  rw [List.forall_mem_cons] at hall
  exact hP hall.1 (hsteady hall.2)

theorem Since.trans {history' : List Event} (h : Since past history P)
    (h' : Since history history' P') : Since past history' (P ∧ P') := by
  obtain ⟨new, rfl, hP⟩ := h
  obtain ⟨new', rfl, hP'⟩ := h'
  refine ⟨new' ++ new, (List.append_assoc new' new past).symm, fun hall => ?_⟩
  rw [List.forall_mem_append] at hall
  exact ⟨hP hall.2, hP' hall.1⟩

theorem Since.mono (h : Since past history P) (hP : P → P') : Since past history P' := by
  obtain ⟨new, heq, hsteady⟩ := h
  exact ⟨new, heq, fun hall => hP (hsteady hall)⟩

end Since

theorem Kept.trans {st st' st'' : Loop} (h : Kept st st') (h' : Kept st' st'') : Kept st st'' :=
  ⟨h'.1, fun deadline hne hd => h'.2 deadline hne (h.2 deadline hne hd)⟩

/-- A turn in the middle, after the helper's run. -/
structure Midway (passphrase : List Utf8.Byte) (past : List Event) (P : Prop) (st : Loop)
    (history : List Event) : Prop where
  clean : Clean passphrase history
  migrated : st.migratedAny = true ↔ AnyMigrated history
  budget : ∀ deadline, st.deadline = some deadline →
    ∃ start, .read start ∈ history ∧ deadline = start + INITRD_WAIT_SECONDS
  since : Since past history P

variable {st₀ st : Loop} {past : List Event} {P : Prop}

theorem Midway.plain (h : Midway passphrase past P st history) (he : e.Plain) :
    Midway passphrase past P st (e :: history) where
  clean := h.clean.plain he
  migrated := by
    rw [anyMigrated_cons]
    exact h.migrated.trans (or_iff_right he.not_migrated).symm
  budget := by
    intro deadline hd
    obtain ⟨start, hmem, heq⟩ := h.budget deadline hd
    exact ⟨start, List.mem_cons_of_mem _ hmem, heq⟩
  since := h.since.plain fun _ hP => hP

/-- The time of a refusal is only remembered. -/
theorem Midway.refused (h : Midway passphrase past P st history) (time : Option ℚ) :
    Midway passphrase past P { st with refusedSince := time } history :=
  ⟨h.clean, h.migrated, h.budget, h.since⟩

/-! ## Commands -/

/-- The post-condition of a part of the call: `Q` if it returns, `X` if it raises or is
killed. -/
abbrev orElse {α : Type} (Q : α → World → Prop) (X : World → Prop) : Post PyError α World :=
  ⟨Q, fun _ => X, X⟩

variable {X : World → Prop} {s : World}

theorem wp_py {c : Cmd} {Q : Answer c → World → Prop} (hs : X s)
    (h : ∀ a, may s c a → X (s.after c a) ∧ Q a (s.after c a)) :
    (py c).wp machine (orElse Q X) s := by
  rw [py, wp_cmd]
  refine ⟨hs, ?_, ?_⟩
  · rintro a t ⟨hmay, rfl⟩
    exact h a hmay
  · rintro t (rfl | ⟨a, hmay, rfl⟩)
    · exact ⟨hs, hs⟩
    · exact ⟨(h a hmay).1, (h a hmay).1⟩

/-- A command, and what follows it. -/
theorem wp_py_bind {α : Type} {c : Cmd} {f : Answer c → Py α} {Q : α → World → Prop} (hs : X s)
    (h : ∀ a, may s c a →
      X (s.after c a) ∧ (f a).wp machine (orElse Q X) (s.after c a)) :
    ((py c).bind f).wp machine (orElse Q X) s :=
  wp_seq (wp_py hs h)

/-- A command that the history does not show. -/
theorem wp_silent_bind {α : Type} {c : Cmd} {f : Answer c → Py α} {Q : α → World → Prop} (hs : X s)
    (hafter : ∀ a, s.after c a = s) (h : ∀ a, (f a).wp machine (orElse Q X) s) :
    ((py c).bind f).wp machine (orElse Q X) s := by
  refine wp_py_bind hs fun a _ => ?_
  rw [hafter a]
  exact ⟨hs, h a⟩

/-- Lines that are printed. -/
theorem wp_print {ι : Type} {lines : List ι} {f : ι → Py Unit}
    (hf : ∀ i Q, X s → Q () s → (f i).wp machine (orElse Q X) s)
    {Q : Unit → World → Prop} (hs : X s) (h : Q () s) :
    (each lines f).wp machine (orElse Q X) s := by
  induction lines with
  | nil => exact h
  | cons i lines ih => exact wp_seq (hf i _ hs ih)

theorem wp_out {line : PyStr} {Q : Unit → World → Prop} (hs : X s) (h : Q () s) :
    (py (.out line)).wp machine (orElse Q X) s :=
  wp_py hs fun _ _ => ⟨hs, h⟩

theorem wp_printStderr {attempt : HelperRun} {Q : Unit → World → Prop} (hs : X s) (h : Q () s) :
    (printStderr attempt).wp machine (orElse Q X) s :=
  wp_print (fun _ _ hs h => wp_py hs fun _ _ => ⟨hs, h⟩) hs h

/-! ## The helper -/

/-- How a call ends early. -/
abbrev Broken (passphrase : List Utf8.Byte) (s : World) : Prop := FailedLast passphrase s.history

/-- The world once a helper ran: the passphrase was written under the lock, to a listener
that was verified. -/
def World.helped (s : World) (passphrase : List Utf8.Byte) (session : Session) : List Event :=
  .ran session :: .wrote (passphrase ++ [10]) true true :: s.history

theorem wp_sendPassphrase (hlocked : s.locked = true) (hs : Clean passphrase s.history) :
    (sendPassphrase passphrase).wp machine
      (orElse (fun run t => ∃ session, run = session.run ∧
        t.history = s.helped passphrase session) (Broken passphrase)) s := by
  have hwrote : Clean passphrase (.wrote (passphrase ++ [10]) true true :: s.history) :=
    hs.cons ⟨rfl, rfl, rfl⟩ id
  refine wp_silent_bind hs.failedLast (fun _ => rfl) fun port => ?_
  refine wp_py_bind hs.failedLast fun _ _ => ⟨hs.failedLast, ?_⟩
  refine wp_silent_bind hs.failedLast (fun _ => rfl) fun argv => ?_
  refine wp_silent_bind hs.failedLast (fun _ => rfl) fun _ => ?_
  refine wp_py_bind hs.failedLast fun _ _ => ?_
  rw [show ((s.after (.verifyInitrdListener port) ()).after (.write (passphrase ++ [10])) ())
    = World.mk true true s.clock (.wrote (passphrase ++ [10]) true true :: s.history) by
      simp [World.after, World.note, hlocked]]
  refine ⟨hwrote.failedLast, wp_py_bind hwrote.failedLast fun session _ => ?_⟩
  have hran : FailedLast passphrase (s.helped passphrase session) :=
    hwrote.cons_failedLast trivial
  refine ⟨hran, wp_seq (wp_print (fun _ _ => wp_out) hran ?_)⟩
  exact ⟨session, rfl, rfl⟩

theorem wp_runInitrdHelper (hs : Clean passphrase s.history) :
    (runInitrdHelper passphrase).wp machine
      (orElse (fun run t => ∃ session, run = session.run ∧
        t.history = s.helped passphrase session) (Broken passphrase)) s := by
  refine wp_py_bind hs.failedLast fun _ _ => ⟨hs.failedLast, ?_⟩
  refine wp_ensuring (wp_sendPassphrase (s := s.after .lock ()) rfl hs) ?_ ?_ fun _ h => h
  · rintro run t ⟨session, hrun, ht⟩
    have hbroken : FailedLast passphrase t.history := by
      rw [ht]
      exact (hs.cons (e := .wrote _ true true) ⟨rfl, rfl, rfl⟩ id).cons_failedLast trivial
    exact wp_py hbroken fun _ _ => ⟨hbroken, session, hrun, ht⟩
  · intro error t ht
    exact wp_py ht fun _ _ => ⟨ht, ht⟩

/-! ## A turn -/

variable {box : Box} {starter : Bool} {s₀ : World}

/-- How a turn ends. -/
abbrev Ending (passphrase : List Utf8.Byte) (st₀ : Loop) (s₀ : World) : Post PyError Next World :=
  LoopPost.post ⟨fun st s => Waiting passphrase st s ∧ Since s₀.history s.history (Kept st₀ st),
    Done passphrase, fun _ => Broken passphrase, Broken passphrase⟩

theorem Midway.broken (h : Midway passphrase past P st s.history) : Broken passphrase s :=
  h.clean.failedLast

theorem wp_unlessStage2Up {next : Py Next} (h : Midway passphrase past P st s.history)
    (hnext : ∀ s, Midway passphrase past P st s.history →
      next.wp machine (Ending passphrase st₀ s₀) s) :
    (unlessStage2Up box st next).wp machine (Ending passphrase st₀ s₀) s := by
  refine wp_seq (wp_py_bind h.broken fun completed _ => ?_)
  have hprobed : Midway passphrase past P st (s.note (.probed completed)).history :=
    h.plain trivial
  refine ⟨hprobed.broken, ?_⟩
  show (if (completed.outcome == .answered) = true then _ else _ : Py Next).wp machine _ _
  split_ifs with hup
  · exact ⟨hprobed.clean, ⟨_, rfl, beq_iff_eq.mp hup⟩, hprobed.migrated⟩
  · exact hnext _ hprobed

theorem wp_markRefused {Q : Loop → World → Prop} (h : Midway passphrase past P st s.history)
    (hQ : ∀ time s, Midway passphrase past P { st with refusedSince := time } s.history →
      Q { st with refusedSince := time } s) :
    (markRefused st).wp machine (orElse Q (Broken passphrase)) s := by
  have hread : (do
      let now : ℚ ← py .monotonic
      Script.ret { st with refusedSince := some now } : Py Loop).wp machine
        (orElse Q (Broken passphrase)) s := by
    refine wp_py_bind h.broken fun now _ => ?_
    have hnow : Midway passphrase past P st (Event.read now :: s.history) := h.plain trivial
    exact ⟨hnow.broken (s := s.after .monotonic now), hQ (some now) _ (hnow.refused (some now))⟩
  unfold markRefused
  split
  · exact hread
  · split_ifs
    · exact hread
    · exact hQ st.refusedSince s h

theorem wp_watchStarter {next : Bool → Py Next} (h : Midway passphrase past P st s.history)
    (hnext : ∀ alive s, Midway passphrase past P st s.history →
      (next alive).wp machine (Ending passphrase st₀ s₀) s) :
    (watchStarter box starter st next).wp machine (Ending passphrase st₀ s₀) s := by
  unfold watchStarter
  by_cases hstarter : starter = true
  · rw [if_pos hstarter]
    refine wp_py_bind h.broken fun code _ => ?_
    have hpolled : Midway passphrase past P st (s.note (.polled code)).history :=
      h.plain trivial
    refine ⟨hpolled.broken, ?_⟩
    cases code with
    | none => exact hnext true _ hpolled
    | some code =>
      show (if st.sessionRan then _ else if code ≠ 0 then _ else _ : Py Next).wp machine _ _
      split_ifs
      · exact hnext false _ hpolled
      · exact hpolled.broken
      · exact wp_unlessStage2Up hpolled fun s => hnext false s
  · rw [if_neg hstarter]
    exact hnext false s h

/-- What `deadline_after` does to the budget. -/
theorem deadlineAfter_ok {deadline deadline' : Option ℚ} {word : Option PyStr} {starting : Bool}
    {now : ℚ} (h : deadlineAfter box deadline word starting now = .ok deadline') :
    deadline' = none ∧ word ≠ some RUNNING ∨
      ∃ d, deadline' = some d ∧ (deadline = some d ∨ d = now + INITRD_WAIT_SECONDS) ∧
        ∀ d', d' ≠ 0 → deadline = some d' → d = d' := by
  unfold deadlineAfter at h
  split_ifs at h with hrunning hstarting
  · right
    refine ⟨_, (Except.ok.inj h).symm, ?_, ?_⟩
    · rcases deadline with _ | d
      · exact .inr rfl
      · by_cases hd : d = 0
        · exact .inr (if_pos hd)
        · exact .inl (congrArg some (if_neg hd).symm)
    · rintro d' hd' rfl
      exact if_neg hd'
  · exact .inl ⟨(Except.ok.inj h).symm, hrunning⟩

/-- The budget after the status was read. -/
theorem Midway.counted {word : Option PyStr} {now : ℚ} {deadline : Option ℚ} {starting : Bool}
    (h : Midway passphrase past (st.deadline = st₀.deadline) st history)
    (hdeadline : deadlineAfter box st.deadline word starting now = .ok deadline) :
    Midway passphrase past (Kept st₀ { st with deadline := deadline })
      { st with deadline := deadline } (.read now :: .status word :: history) where
  clean := (h.clean.plain (e := .status word) trivial).plain (e := .read now) trivial
  migrated := ((h.plain (e := .status word) trivial).plain (e := .read now) trivial).migrated
  budget := by
    intro d hd
    obtain ⟨hnone, -⟩ | ⟨d', hsome, hfrom, -⟩ := deadlineAfter_ok hdeadline
    · exact absurd (hnone.symm.trans hd) nofun
    · obtain rfl : d' = d := Option.some.inj (hsome.symm.trans hd)
      rcases hfrom with hold | hnew
      · obtain ⟨start, hmem, heq⟩ := h.budget d' hold
        exact ⟨start, List.mem_cons_of_mem _ (List.mem_cons_of_mem _ hmem), heq⟩
      · exact ⟨now, List.mem_cons_self, hnew⟩
  since := by
    have hword : Since past (.status word :: history)
        (word = some RUNNING ∧ st.deadline = st₀.deadline) :=
      h.since.plain fun hsteady hsame => ⟨hsteady, hsame⟩
    refine hword.plain fun _ ⟨hrunning, hsame⟩ => ?_
    obtain ⟨-, hnot⟩ | ⟨d, rfl, -, hkept⟩ := deadlineAfter_ok hdeadline
    · exact absurd hrunning hnot
    · refine ⟨rfl, fun d' hne hd' => ?_⟩
      exact congrArg some (hkept d' hne (hsame.trans hd'))

theorem wp_raiseWhenOver {Q : Unit → World → Prop} (h : Clean passphrase s.history)
    (hnone : st.deadline = none → Q () s)
    (hsome : ∀ deadline now, st.deadline = some deadline → now ≤ deadline →
      Q () (s.after .monotonic now)) :
    (raiseWhenOver box st).wp machine (orElse Q (Broken passphrase)) s := by
  unfold raiseWhenOver
  split
  · rename_i hdeadline
    exact hnone hdeadline
  · rename_i deadline hdeadline
    refine wp_py_bind h.failedLast fun now _ => ?_
    have hread : FailedLast passphrase (Event.read now :: s.history) :=
      (h.plain (e := .read now) trivial).failedLast
    refine ⟨hread, ?_⟩
    split_ifs with hover
    · exact wp_silent_bind (s := s.after .monotonic now) hread (fun _ => rfl) fun port => hread
    · exact hsome deadline now hdeadline (not_lt.mp hover)

/-- A sleep within the budget. -/
theorem Midway.sleeps (h : Midway passphrase s₀.history (Kept st₀ st) st s.history)
    (hclock : ∀ deadline, st.deadline = some deadline → s.clock ≤ deadline) :
    (do
      py (.sleep INITRD_POLL_SECONDS)
      Script.ret (.inl st) : Py Next).wp machine (Ending passphrase st₀ s₀) s := by
  refine wp_py_bind h.broken fun _ _ => ⟨h.broken, ⟨h.clean, h.migrated, ?_⟩, h.since⟩
  intro deadline hd
  obtain ⟨start, hmem, heq⟩ := h.budget deadline hd
  refine ⟨start, hmem, heq, ?_⟩
  have hle := hclock deadline hd
  show s.clock + (INITRD_POLL_SECONDS : ℚ) ≤ _
  linarith

theorem wp_waitMore {alive : Bool}
    (h : Midway passphrase s₀.history (st.deadline = st₀.deadline) st s.history) :
    (waitMore box st alive).wp machine (Ending passphrase st₀ s₀) s := by
  refine wp_py_bind h.broken fun word _ => ?_
  have hword : FailedLast passphrase (.status word :: s.history) :=
    (h.plain (e := .status word) trivial).clean.failedLast
  refine ⟨hword, wp_py_bind hword fun now _ => ?_⟩
  have hnow : FailedLast passphrase (.read now :: .status word :: s.history) :=
    ((h.plain (e := .status word) trivial).plain (e := .read now) trivial).clean.failedLast
  refine ⟨hnow, ?_⟩
  cases hdeadline : deadlineAfter box st.deadline word (alive && !st.sessionRan) now with
  | error e => exact hnow
  | ok deadline =>
    have hcounted := h.counted hdeadline
    refine wp_seq (wp_raiseWhenOver hcounted.clean ?_ ?_)
    · intro hnone
      exact hcounted.sleeps (s := (s.after .vmStatus word).after .monotonic now)
        fun d hd => absurd (hnone.symm.trans hd) nofun
    · intro d now' hd hle
      refine (hcounted.plain (e := .read now') trivial).sleeps
        (s := ((s.after .vmStatus word).after .monotonic now).after .monotonic now') ?_
      intro d' hd'
      obtain rfl : d = d' := Option.some.inj (hd.symm.trans hd')
      exact hle

/-! ## The verdict on a run -/

theorem run_returncode (session : Session) : session.run.returncode = session.returncode := by
  have hfold : ∀ (lines : List (List Utf8.Byte)) (run : HelperRun),
      (lines.foldl HelperRun.reads run).returncode = run.returncode := by
    intro lines
    induction lines with
    | nil => exact fun _ => rfl
    | cons raw lines ih => exact fun run => ih (run.reads raw)
  exact hfold session.stdout _

theorem returncode_of_unlocked {session : Session}
    (h : judgeHelperRun session.run = .unlocked) : session.returncode = 0 := by
  rw [← run_returncode]
  simp only [judgeHelperRun] at h
  by_contra hcode
  rw [if_neg hcode] at h
  split_ifs at h

theorem wp_helperFailureMessage {attempt : HelperRun} (hs : X s) :
    (helperFailureMessage attempt).wp machine (orElse (fun _ => X) X) s := by
  have hcommand : ∀ remote (f : PyStr → PyStr),
      ((initrdRootSshCommand remote).bind fun command => Script.ret (f command)).wp machine
        (orElse (fun _ => X) X) s :=
    fun remote f => wp_seq (wp_silent_bind hs (fun _ => rfl) fun argv => hs)
  unfold helperFailureMessage
  simp only
  split_ifs
  · exact hs
  · exact wp_silent_bind hs (fun _ => rfl) fun port => hs
  · exact hcommand _ fun command => _
  · exact hcommand _ fun command => _
  all_goals exact hs

/-- The loop's variables and the history, once a helper ran. -/
theorem Waiting.helped {session : Session} (h : Waiting passphrase st s)
    (hrun : judgeHelperRun session.run ≠ .failed) :
    Midway passphrase s.history (judgeHelperRun session.run ≠ .dropped)
      { st with migratedAny := st.migratedAny || session.run.migrated }
      (s.helped passphrase session) where
  clean := (h.clean.cons (e := .wrote _ true true) ⟨rfl, rfl, rfl⟩ id).cons trivial hrun
  migrated := by
    show (st.migratedAny || session.run.migrated) = true ↔ _
    rw [World.helped, anyMigrated_cons, anyMigrated_cons, Bool.or_eq_true, h.migrated, or_comm]
    simp [Event.Migrated]
  budget := by
    intro deadline hd
    obtain ⟨start, hmem, heq, -⟩ := h.budget deadline hd
    exact ⟨start, List.mem_cons_of_mem _ (List.mem_cons_of_mem _ hmem), heq⟩
  since := ⟨[.ran session, .wrote (passphrase ++ [10]) true true], rfl,
    fun hall => hall _ List.mem_cons_self⟩

theorem Midway.mono {P' : Prop} (h : Midway passphrase past P st history) (hP : P → P') :
    Midway passphrase past P' st history :=
  ⟨h.clean, h.migrated, h.budget, h.since.mono hP⟩

/-- A dropped session starts a new budget. -/
theorem Midway.renewed {now : ℚ} (h : Midway passphrase past P st history) (hP : P → False) :
    Midway passphrase past False
      { st with sessionRan := true, deadline := some (now + INITRD_WAIT_SECONDS) }
      (.read now :: history) where
  clean := h.clean.plain (e := .read now) trivial
  migrated := (h.plain (e := .read now) trivial).migrated
  budget := fun _ hd => ⟨now, List.mem_cons_self, (Option.some.inj hd).symm⟩
  since := h.since.plain fun _ hp => hP hp

theorem wp_afterVerdict {session : Session} {next : Loop → Py Next}
    (h : Waiting passphrase st₀ s₀) (hs : s.history = s₀.helped passphrase session)
    (hnext : ∀ st s, Midway passphrase s₀.history (st.deadline = st₀.deadline) st s.history →
      (next st).wp machine (Ending passphrase st₀ s₀) s) :
    (afterVerdict box session.run
        { st₀ with migratedAny := st₀.migratedAny || session.run.migrated } next).wp machine
      (Ending passphrase st₀ s₀) s := by
  have hmid (hrun : judgeHelperRun session.run ≠ .failed) :
      Midway passphrase s₀.history (judgeHelperRun session.run ≠ .dropped)
        { st₀ with migratedAny := st₀.migratedAny || session.run.migrated } s.history :=
    hs ▸ h.helped hrun
  unfold afterVerdict
  cases hverdict : judgeHelperRun session.run with
  | unlocked =>
    have hran := hmid (by rw [hverdict]; nofun)
    refine wp_seq (wp_printStderr hran.broken ⟨hran.clean, ⟨.ran session, ?_, ?_⟩, hran.migrated⟩)
    · rw [hs]
      rfl
    · exact returncode_of_unlocked hverdict
  | failed =>
    have hbroken : Broken passphrase s := by
      rw [Broken, hs]
      exact (h.clean.cons (e := .wrote _ true true) ⟨rfl, rfl, rfl⟩ id).cons_failedLast trivial
    exact wp_seq (wp_helperFailureMessage hbroken)
  | dropped =>
    have hran := hmid (by rw [hverdict]; nofun)
    refine wp_seq (wp_printStderr hran.broken (wp_py_bind hran.broken fun now _ => ?_))
    have hrenewed : Midway passphrase s₀.history False
        { st₀ with
          migratedAny := st₀.migratedAny || session.run.migrated
          sessionRan := true
          deadline := some (now + INITRD_WAIT_SECONDS) } (.read now :: s.history) :=
      hran.renewed (absurd hverdict)
    exact ⟨hrenewed.broken (s := s.after .monotonic now), wp_unlessStage2Up hrenewed
      fun s hup => hnext _ s (hup.mono False.elim)⟩
  | refused =>
    have hran := hmid (by rw [hverdict]; nofun)
    exact wp_unlessStage2Up (hran.mono fun _ => (rfl : st₀.deadline = st₀.deadline))
      fun s hup => wp_seq (wp_markRefused hup fun time s hmarked => hnext _ s hmarked)
  | notListening =>
    exact hnext _ s ((hmid (by rw [hverdict]; nofun)).mono fun _ => rfl)

/-- **One turn of the loop.** -/
theorem wp_turn (h : Waiting passphrase st s) :
    (turn box passphrase starter st).wp machine (Ending passphrase st s) s := by
  refine wp_seq (wp_mono (wp_runInitrdHelper h.clean) ?_ (fun _ _ h => h) fun _ h => h)
  rintro run t ⟨session, rfl, ht⟩
  exact wp_afterVerdict h ht fun st t hmid =>
    wp_watchStarter hmid fun alive t halive => wp_waitMore halive

/-! ## The loop -/

/-- The next helper run starts in time: the budget was last started at `start`. -/
structure InBudget (st : Loop) (s : World) (start : ℚ) : Prop where
  wasRead : .read start ∈ s.history
  deadline : st.deadline = some (start + INITRD_WAIT_SECONDS)
  inTime : s.clock ≤ start + INITRD_WAIT_SECONDS + INITRD_POLL_SECONDS

theorem Waiting.inBudget {deadline : ℚ} (h : Waiting passphrase st s)
    (hd : st.deadline = some deadline) :
    ∃ start, InBudget st s start ∧ deadline = start + INITRD_WAIT_SECONDS := by
  obtain ⟨start, hmem, rfl, hclock⟩ := h.budget deadline hd
  exact ⟨start, ⟨hmem, hd, hclock⟩, rfl⟩

/-- What the budget is after `k` turns more. -/
def Onward (st₀ : Loop) (s₀ : World) : ℕ → Loop → World → Prop
  | 0, st, s => st = st₀ ∧ s = s₀
  | _ + 1, st, s => Since s₀.history s.history (Kept st₀ st)

theorem Onward.next {k : ℕ} {st' : Loop} {s' : World} (h : Onward st₀ s₀ k st s)
    (hnext : Since s.history s'.history (Kept st st')) : Onward st₀ s₀ (k + 1) st' s' := by
  cases k with
  | zero =>
    obtain ⟨rfl, rfl⟩ := h
    exact hnext
  | succ k => exact (h.trans hnext).mono fun ⟨hkept, hkept'⟩ => hkept.trans hkept'

/-- **Any number of turns.** -/
theorem wp_turns_turn (h : Waiting passphrase st₀ s₀) (n : ℕ) :
    (turns (turn box passphrase starter) n st₀).wp machine
      (LoopPost.post ⟨fun st s => Waiting passphrase st s ∧ Onward st₀ s₀ n st s,
        Done passphrase, fun _ => Broken passphrase, Broken passphrase⟩) s₀ := by
  have hturn : ∀ k st s, Waiting passphrase st s ∧ Onward st₀ s₀ k st s →
      (turn box passphrase starter st).wp machine
        (LoopPost.post ⟨fun st s => Waiting passphrase st s ∧ Onward st₀ s₀ (k + 1) st s,
          Done passphrase, fun _ => Broken passphrase, Broken passphrase⟩) s := by
    rintro k st s ⟨hwaiting, honward⟩
    refine wp_mono (wp_turn hwaiting) ?_ (fun _ _ h => h) fun _ h => h
    rintro (st' | migrated) s'
    · rintro ⟨hwaiting', hsince⟩
      exact ⟨hwaiting', honward.next hsince⟩
    · exact id
  have hturns := wp_turns (I := fun k st s => Waiting passphrase st s ∧ Onward st₀ s₀ k st s)
    hturn n (k := 0) ⟨h, rfl, rfl⟩
  rwa [Nat.zero_add] at hturns

theorem clean_nil : Clean passphrase [] := ⟨nofun, nofun⟩

theorem waiting_start (clock : ℚ) : Waiting passphrase .start (World.start clock) where
  clean := clean_nil
  migrated := ⟨nofun, fun ⟨_, h, _⟩ => absurd h List.not_mem_nil⟩
  budget := nofun

theorem wp_unlockDisk (clock : ℚ) (n : ℕ) :
    (unlockDisk box passphrase starter n).wp machine
      (LoopPost.post ⟨Waiting passphrase, Done passphrase, fun _ => Broken passphrase,
        Broken passphrase⟩) (World.start clock) := by
  refine wp_silent_bind clean_nil.failedLast (fun _ => rfl) fun _ => ?_
  refine wp_mono (wp_turns_turn (waiting_start clock) n) ?_ (fun _ _ h => h) fun _ h => h
  rintro (st | migrated) s
  · exact And.left
  · exact id

/-- **What a run of `unlock_disk` can come to**, ended or cut off after any number of
turns: it returns on a helper that exited 0 or a stage-2 probe that answered, and says
whether a run answered the migration's ask; nothing follows a run judged FAILED, which it
does not return from; a write of the passphrase is under the lock and to a verified
listener; and the helper runs start within the budget, which goes on while the VM runs
and no session is dropped. -/
theorem unlockDisk_runs {clock : ℚ} {n : ℕ} {o : Outcome PyError Next}
    (h : (unlockDisk box passphrase starter n).Ends machine (World.start clock) o s) :
    (∀ migrated, o = .returned (.inr migrated) →
      (∃ e ∈ s.history.head?, e.Unlocks) ∧ (migrated = true ↔ ∃ e ∈ s.history, e.Migrated))
    ∧ ((∀ e ∈ s.history.tail, ¬ e.Judged .failed)
      ∧ ∀ next, o = .returned next → ∀ e ∈ s.history, ¬ e.Judged .failed)
    ∧ (∀ line locked verified, .wrote line locked verified ∈ s.history →
      line = passphrase ++ [10] ∧ locked = true ∧ verified = true)
    ∧ ∀ st, o = .returned (.inl st) →
      (st.deadline.isSome → ∃ start, InBudget st s start)
      ∧ ∀ k st' s',
        (turns (turn box passphrase starter) (k + 1) st).Ends machine s (.returned (.inl st')) s' →
        ∃ new, s'.history = new ++ s.history ∧ ((∀ e ∈ new, e.Steady) →
          ∃ start, InBudget st' s' start ∧ ∀ deadline, deadline ≠ 0 →
            st.deadline = some deadline → deadline = start + INITRD_WAIT_SECONDS) := by
  have hpost := wp_iff.mp (wp_unlockDisk clock n) o s h
  have hlast : FailedLast passphrase s.history := by
    rcases o with (st | migrated) | error | _
    · exact hpost.clean.failedLast
    · exact hpost.clean.failedLast
    · exact hpost
    · exact hpost
  refine ⟨?_, ⟨hlast.failed, ?_⟩, fun line locked verified hmem => hlast.guarded _ hmem, ?_⟩
  · rintro migrated rfl
    exact ⟨hpost.unlocks, hpost.migrated⟩
  · rintro (st | migrated) rfl
    · exact hpost.clean.failed
    · exact hpost.clean.failed
  · rintro st rfl
    refine ⟨fun hsome => ?_, fun k st' s' hturns => ?_⟩
    · obtain ⟨deadline, hd⟩ := Option.isSome_iff_exists.mp hsome
      obtain ⟨start, hstart, -⟩ := hpost.inBudget hd
      exact ⟨start, hstart⟩
    · obtain ⟨hwaiting, new, hnew, hkept⟩ := wp_iff.mp (wp_turns_turn hpost (k + 1)) _ _ hturns
      refine ⟨new, hnew, fun hall => ?_⟩
      obtain ⟨hsome, hsame⟩ := hkept hall
      obtain ⟨deadline, hd⟩ := Option.isSome_iff_exists.mp hsome
      obtain ⟨start, hstart, rfl⟩ := hwaiting.inBudget hd
      refine ⟨start, hstart, fun deadline hne hdeadline => ?_⟩
      exact Option.some.inj ((hsame deadline hne hdeadline).symm.trans hd)

/-! ### A run -/

def sampleBox : Box := ⟨lit "box", ⟨lit "lima", [], [], [], fun _ => []⟩, lit "user"⟩

/-- A helper that says it answered the migration's ask, and exits 0. -/
def sampleSession : Session :=
  ⟨[[105, 100, 61, 121, 111, 108, 111, 98, 111, 120, 58, 108, 117, 107, 115, 45, 109, 105, 103,
    114, 97, 116, 101, 10]], [], 0⟩

def sampleAnswer (s : World) : (c : Cmd) → Answer c
  | .endpointPort | .sshPort => (60022 : ℕ)
  | .initrdSshArgv remote => [remote]
  | .session => sampleSession
  | .probeSshd _ => (⟨0, []⟩ : Completed)
  | .vmStatus => some RUNNING
  | .poll => (none : Option ℤ)
  | .monotonic => s.clock
  | .lock | .release | .verifyInitrdListener _ | .spawn _ | .write _ | .sleep _ | .out _ | .err _ => ()

def sampleHandle (c : Cmd) (s : World) : Option (Answer c) × World :=
  (some (sampleAnswer s c), s.after c (sampleAnswer s c))

theorem machine_sampleHandle (c : Cmd) (s : World) :
    machine c s (sampleHandle c s).1 (sampleHandle c s).2 := by
  refine ⟨?_, rfl⟩
  cases c <;> first | exact trivial | exact le_refl s.clock

def sampleRun : Except PyError Next × World :=
  (unlockDisk sampleBox [1] false 1).interp sampleHandle (World.start 0)

theorem sampleRun_returns : sampleRun.1 = .ok (.inr true) := by decide +kernel

theorem unlockDisk_runs_sample :
    (∃ e ∈ sampleRun.2.history.head?, e.Unlocks) ∧ ∃ e ∈ sampleRun.2.history, e.Migrated := by
  have hends := ends_interp machine_sampleHandle (unlockDisk sampleBox [1] false 1)
    (World.start 0)
  obtain ⟨hunlocks, hmigrated⟩ := (unlockDisk_runs hends).1 true
    (congrArg Outcome.ofExcept sampleRun_returns)
  exact ⟨hunlocks, hmigrated.mp rfl⟩

end Unlock
