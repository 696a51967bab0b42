/-
# Files that are replaced whole

`atomic_write` (`yolobox_cli/proc.py`): a temporary file beside the path, written, closed,
given its mode and renamed over the path; a failure unlinks it.  Any number of processes
write at once, each of them may fail at any step or be killed at any instant, and files that
are not temporary are deleted in between.
-/
import Yolobox.Lib.Inodes
import Yolobox.Lib.Transition
import Yolobox.Lib.Utf8
import Yolobox.Posix

open Inodes Transition Utf8

namespace AtomicWrite

/-! ## Writers -/

structure Job where
  path : PyStr
  content : List Byte
  mode : ℕ
  deriving DecidableEq, Repr

/-- A name that `tempfile.mkstemp` gives. -/
def isTemp (path : PyStr) : Bool :=
  startswith (Posix.basename path) (lit "tmp") && (Posix.basename path).length == 11

inductive Phase
  | writing (left : List Byte)
  | closed                        -- `os.chmod` is next
  | granted                       -- `os.replace` is next
  | failing                       -- `os.unlink` is next
  | returned
  | raised (unlinked : Bool)
  | killed
  deriving DecidableEq, Repr

structure Writer where
  job : Job
  tmp : PyStr
  inode : ℕ
  phase : Phase
  deriving DecidableEq, Repr

structure Host where
  fs : Fs PyStr Byte
  writers : ℕ → Option Writer

inductive Event
  | starts (job : Job) (tmp : PyStr)   -- `mkstemp` in the directory of the path
  | writes (n : ℕ)
  | done                               -- the call at hand returns
  | fails                              -- .. or raises
  | dies

inductive Action
  | writer (i : ℕ) (event : Event)
  | removes (name : PyStr)             -- somebody deletes a file that is no temporary one

def Phase.isOpen : Phase → Bool
  | .writing _ => true
  | .closed => true
  | .granted => true
  | .failing => true
  | _ => false

def PRIVATE : ℕ := 0o600

/-- A call of a writer that returns. -/
def Writer.does (fs : Fs PyStr Byte) (w : Writer) : Option (Fs PyStr Byte × Phase) :=
  match w.phase with
  | .writing [] => some (fs, .closed)
  | .closed => (fs.names w.tmp).map fun inode => (fs.chmod inode w.job.mode, .granted)
  | .granted => (fs.names w.tmp).map fun _ => (fs.rename w.tmp w.job.path, .returned)
  | .failing => some (fs.unlink w.tmp, .raised true)
  | _ => none

def Writer.writes (fs : Fs PyStr Byte) (w : Writer) (n : ℕ) : Option (Fs PyStr Byte × Phase) :=
  match w.phase with
  | .writing left =>
    if 0 < n ∧ n ≤ left.length then some (fs.append w.inode (left.take n), .writing (left.drop n)) else none
  | _ => none

/-- What a failure leaves: the handler, which may fail too. -/
def Phase.fails : Phase → Option Phase
  | .writing _ => some .failing
  | .closed => some .failing
  | .granted => some .failing
  | .failing => some (.raised false)
  | _ => none

/-- A writer that has started. -/
def Writer.step (fs : Fs PyStr Byte) (w : Writer) : Event → Option (Fs PyStr Byte × Phase)
  | .starts _ _ => none
  | .writes n => w.writes fs n
  | .done => w.does fs
  | .fails => w.phase.fails.map fun phase => (fs, phase)
  | .dies => if w.phase.isOpen then some (fs, .killed) else none

/-- `mkstemp`: a new name, and a new file that only its owner reads. -/
def Host.starts (s : Host) (i : ℕ) (job : Job) (tmp : PyStr) : Option Host :=
  if isTemp tmp ∧ Posix.dirname tmp = Posix.dirname job.path ∧ s.fs.names tmp = none then
    some ⟨s.fs.create tmp PRIVATE,
      Function.update s.writers i (some ⟨job, tmp, s.fs.next, .writing job.content⟩)⟩
  else none

def Host.starting (s : Host) (i : ℕ) : Event → Option Host
  | .starts job tmp => s.starts i job tmp
  | _ => none

def step (s : Host) : Action → Option Host
  | .writer i event =>
    match s.writers i with
    | none => s.starting i event
    | some w =>
      (w.step s.fs event).map fun (fs, phase) =>
        ⟨fs, Function.update s.writers i (some { w with phase := phase })⟩
  | .removes name => if isTemp name then none else some ⟨s.fs.unlink name, s.writers⟩

def Host.idle (fs : Fs PyStr Byte) : Host := ⟨fs, fun _ => none⟩

/-! ## What a step does -/

variable {s s' : Host} {a : Action} {i : ℕ} {w : Writer} {event : Event} {fs' : Fs PyStr Byte} {phase : Phase}

theorem step_cases (h : step s a = some s') :
    (∃ i job tmp, a = .writer i (.starts job tmp) ∧ s.writers i = none ∧ isTemp tmp = true ∧
      s.fs.names tmp = none ∧ s' = ⟨s.fs.create tmp PRIVATE,
        Function.update s.writers i (some ⟨job, tmp, s.fs.next, .writing job.content⟩)⟩) ∨
    (∃ i w event fs' phase, a = .writer i event ∧ s.writers i = some w ∧ w.step s.fs event = some (fs', phase) ∧
      s' = ⟨fs', Function.update s.writers i (some { w with phase := phase })⟩) ∨
    ∃ name, a = .removes name ∧ isTemp name = false ∧ s' = ⟨s.fs.unlink name, s.writers⟩ := by
  cases a with
  | writer i event =>
    unfold step at h
    dsimp only at h
    cases hwriter : s.writers i with
    | none =>
      rw [hwriter] at h
      cases event with
      | starts job tmp =>
        dsimp only at h
        rw [Host.starting, Host.starts, Option.ite_none_right_eq_some] at h
        exact .inl ⟨i, job, tmp, rfl, hwriter, h.1.1, h.1.2.2, (Option.some.inj h.2).symm⟩
      | writes n => cases h
      | done => cases h
      | fails => cases h
      | dies => cases h
    | some w =>
      rw [hwriter] at h
      obtain ⟨⟨fs', phase⟩, hstep, rfl⟩ := Option.map_eq_some_iff.mp h
      exact .inr (.inl ⟨i, w, event, fs', phase, rfl, hwriter, hstep, rfl⟩)
  | removes name =>
    rw [step, Option.ite_none_left_eq_some] at h
    exact .inr (.inr ⟨name, rfl, by simpa using h.1, (Option.some.inj h.2).symm⟩)

/-- What a writer's step does: nothing but its phase, its own file, a rename to its path, or
the end of its temporary name. -/
theorem writer_cases (h : w.step s.fs event = some (fs', phase)) : w.phase.isOpen = true ∧
    ((fs' = s.fs ∧ phase.isOpen = false ∧ phase ≠ .returned ∧ phase ≠ .raised true) ∨
     (fs' = s.fs ∧ w.phase = .writing [] ∧ phase = .closed) ∨
     (fs' = s.fs ∧ phase = .failing) ∨
     (∃ left n, w.phase = .writing left ∧ fs' = s.fs.append w.inode (left.take n) ∧ phase = .writing (left.drop n)) ∨
     (∃ inode, w.phase = .closed ∧ s.fs.names w.tmp = some inode ∧ fs' = s.fs.chmod inode w.job.mode ∧
       phase = .granted) ∨
     (w.phase = .granted ∧ fs' = s.fs.rename w.tmp w.job.path ∧ phase = .returned) ∨
     (w.phase = .failing ∧ fs' = s.fs.unlink w.tmp ∧ phase = .raised true)) := by
  cases hphase : w.phase <;> cases event <;>
    simp only [Writer.step, Writer.writes, Writer.does, hphase, Phase.fails, Phase.isOpen, reduceCtorEq,
      Option.map_some, Option.map_none, Option.some.injEq, Prod.mk.injEq, if_true, if_false,
      Option.ite_none_right_eq_some, Bool.false_eq_true] at h
  case writing.writes left n => exact ⟨rfl, .inr (.inr (.inr (.inl ⟨left, n, rfl, h.2.1.symm, h.2.2.symm⟩)))⟩
  case writing.done left =>
    cases left with
    | nil => cases h; exact ⟨rfl, .inr (.inl ⟨rfl, rfl, rfl⟩)⟩
    | cons c left => cases h
  case closed.done =>
    obtain ⟨inode, hinode, heq⟩ := Option.map_eq_some_iff.mp h
    cases heq
    exact ⟨rfl, .inr (.inr (.inr (.inr (.inl ⟨inode, rfl, hinode, rfl, rfl⟩))))⟩
  case granted.done =>
    obtain ⟨inode, hinode, heq⟩ := Option.map_eq_some_iff.mp h
    cases heq
    exact ⟨rfl, .inr (.inr (.inr (.inr (.inr (.inl ⟨rfl, rfl, rfl⟩)))))⟩
  case failing.done => exact ⟨rfl, .inr (.inr (.inr (.inr (.inr (.inr ⟨rfl, h.1.symm, h.2.symm⟩)))))⟩
  case failing.fails => exact ⟨rfl, .inl ⟨h.1.symm, by simp [← h.2, Phase.isOpen]⟩⟩
  case writing.fails => exact ⟨rfl, .inr (.inr (.inl ⟨h.1.symm, h.2.symm⟩))⟩
  case closed.fails => exact ⟨rfl, .inr (.inr (.inl ⟨h.1.symm, h.2.symm⟩))⟩
  case granted.fails => exact ⟨rfl, .inr (.inr (.inl ⟨h.1.symm, h.2.symm⟩))⟩
  all_goals exact ⟨rfl, .inl ⟨h.1.symm, by simp [← h.2, Phase.isOpen]⟩⟩

/-! ## The invariant -/

/-- How far a writer has its file. -/
def Phase.Filled (job : Job) (file : File Byte) : Phase → Prop
  | .writing left => file.data ++ left = job.content
  | .closed => file.data = job.content
  | .granted => file = ⟨job.content, job.mode⟩
  | _ => True

/-- An open writer has a temporary file of its own. -/
structure Writer.Holds (fs : Fs PyStr Byte) (w : Writer) : Prop where
  temp : isTemp w.tmp = true
  names : fs.names w.tmp = some w.inode
  filled : w.phase.Filled w.job (fs.inodes w.inode)

/-- A temporary name that its writer did not get to remove. -/
def Phase.leaves : Phase → Bool
  | .killed => true
  | .raised unlinked => !unlinked
  | phase => phase.isOpen

variable {asked : Job → Prop} {before : Fs PyStr Byte}

structure Inv (asked : Job → Prop) (before : Fs PyStr Byte) (s : Host) : Prop where
  sound : s.fs.Sound
  target : ∀ i w, s.writers i = some w → asked w.job
  holds : ∀ i w, s.writers i = some w → w.phase.isOpen = true → w.Holds s.fs
  apart : ∀ i j w w', s.writers i = some w → s.writers j = some w' → w.phase.isOpen = true →
    w'.phase.isOpen = true → w.inode = w'.inode → i = j
  whole : ∀ name, isTemp name = false → ∀ file, s.fs.file name = some file →
    before.file name = some file ∨ ∃ job, asked job ∧ job.path = name ∧ file = ⟨job.content, job.mode⟩
  leftover : ∀ name, isTemp name = true → s.fs.names name ≠ none →
    before.names name ≠ none ∨ ∃ i w, s.writers i = some w ∧ w.tmp = name ∧ w.phase.leaves = true

/-- What a step of one open writer must leave as it is, to keep the invariant. -/
theorem Inv.put (hinv : Inv asked before s) (hwriter : s.writers i = some w) (hopen : w.phase.isOpen = true)
    (hsound : fs'.Sound)
    (hothers : ∀ tmp inode, tmp ≠ w.tmp → isTemp tmp = true → s.fs.names tmp = some inode →
      fs'.names tmp = some inode ∧ fs'.inodes inode = s.fs.inodes inode)
    (hown : phase.isOpen = true → fs'.names w.tmp = some w.inode ∧ phase.Filled w.job (fs'.inodes w.inode))
    (hwhole : ∀ name, isTemp name = false → ∀ file, fs'.file name = some file → s.fs.file name = some file ∨
      w.job.path = name ∧ file = ⟨w.job.content, w.job.mode⟩)
    (hleft : ∀ name, isTemp name = true → fs'.names name ≠ none → s.fs.names name ≠ none ∧
      (name = w.tmp → phase.leaves = true)) :
    Inv asked before ⟨fs', Function.update s.writers i (some { w with phase := phase })⟩ := by
  have hholds := hinv.holds i w hwriter hopen
  have hcases {j : ℕ} {w' : Writer}
      (hj : Function.update s.writers i (some { w with phase := phase }) j = some w') :
      (j = i ∧ w' = { w with phase := phase }) ∨ (j ≠ i ∧ s.writers j = some w') := by
    rw [Function.update_apply] at hj
    split_ifs at hj with hji
    · exact .inl ⟨hji, (Option.some.inj hj).symm⟩
    · exact .inr ⟨hji, hj⟩
  constructor
  case sound => exact hsound
  case target =>
    intro j w' hj
    rcases hcases hj with ⟨-, rfl⟩ | ⟨-, hj⟩
    · exact hinv.target i w hwriter
    · exact hinv.target j w' hj
  case holds =>
    intro j w' hj hopen'
    rcases hcases hj with ⟨-, rfl⟩ | ⟨hne, hj⟩
    · exact ⟨hholds.temp, (hown hopen').1, (hown hopen').2⟩
    · have hj' := hinv.holds j w' hj hopen'
      have htmp : w'.tmp ≠ w.tmp := by
        intro heq
        have hnames := hj'.names
        rw [heq, hholds.names, Option.some.injEq] at hnames
        exact hne (hinv.apart j i w' w hj hwriter hopen' hopen hnames.symm)
      obtain ⟨hnames, hinode⟩ := hothers w'.tmp w'.inode htmp hj'.temp hj'.names
      exact ⟨hj'.temp, hnames, hinode ▸ hj'.filled⟩
  case apart =>
    intro j k w' w'' hj hk hopen' hopen'' heq
    rcases hcases hj with ⟨rfl, rfl⟩ | ⟨-, hother⟩ <;> rcases hcases hk with ⟨rfl, rfl⟩ | ⟨-, hother'⟩
    · rfl
    · exact hinv.apart j k w w'' hwriter hother' hopen hopen'' heq
    · exact hinv.apart j k w' w hother hwriter hopen' hopen heq
    · exact hinv.apart j k w' w'' hother hother' hopen' hopen'' heq
  case whole =>
    intro name hname file hfile
    rcases hwhole name hname file hfile with hold | ⟨hpath, hfile⟩
    · exact hinv.whole name hname file hold
    · exact .inr ⟨w.job, hinv.target i w hwriter, hpath, hfile⟩
  case leftover =>
    intro name hname hsome
    obtain ⟨hbefore, hown'⟩ := hleft name hname hsome
    refine (hinv.leftover name hname hbefore).imp_right ?_
    rintro ⟨j, w', hj, htmp, hleaves⟩
    by_cases hji : j = i
    · subst hji
      obtain rfl := Option.some.inj (hwriter.symm.trans hj)
      exact ⟨j, { w with phase := phase }, Function.update_self _ _ _, htmp, hown' htmp.symm⟩
    · exact ⟨j, w', (Function.update_of_ne hji _ _).trans hj, htmp, hleaves⟩

/-- A step that changes no name and no file but the writer's own. -/
theorem Inv.put_file (hinv : Inv asked before s) (hwriter : s.writers i = some w) (hopen : w.phase.isOpen = true)
    (f : File Byte → File Byte) (hfilled : phase.isOpen = true → phase.Filled w.job (f (s.fs.inodes w.inode)))
    (hleaves : phase.leaves = true) :
    Inv asked before ⟨s.fs.modify w.inode f, Function.update s.writers i (some { w with phase := phase })⟩ := by
  have hholds := hinv.holds i w hwriter hopen
  have hapart {name : PyStr} {inode : ℕ} (hname : s.fs.names name = some inode) (hne : name ≠ w.tmp) :
      inode ≠ w.inode := by
    rintro rfl
    exact hne (hinv.sound.apart _ _ _ hname hholds.names)
  refine hinv.put hwriter hopen (hinv.sound.modify f) ?_ ?_ ?_ ?_
  · exact fun tmp inode hne _ hname => ⟨hname, Fs.inodes_modify_of_ne (hapart hname hne)⟩
  · intro hphase
    rw [Fs.inodes_modify_self]
    exact ⟨hholds.names, hfilled hphase⟩
  · intro name hname file hfile
    refine .inl ?_
    obtain ⟨inode, hinode, rfl⟩ := Option.map_eq_some_iff.mp hfile
    have hne : name ≠ w.tmp := by
      rintro rfl
      rw [hholds.temp] at hname
      cases hname
    rw [Fs.inodes_modify_of_ne (hapart hinode hne)]
    exact Option.map_eq_some_iff.mpr ⟨inode, hinode, rfl⟩
  · exact fun name _ hsome => ⟨hsome, fun _ => hleaves⟩

/-- A step of the phase alone. -/
theorem Inv.put_phase (hinv : Inv asked before s) (hwriter : s.writers i = some w) (hopen : w.phase.isOpen = true)
    (hfilled : phase.isOpen = true → phase.Filled w.job (s.fs.inodes w.inode)) (hleaves : phase.leaves = true) :
    Inv asked before ⟨s.fs, Function.update s.writers i (some { w with phase := phase })⟩ := by
  have hfs : s.fs.modify w.inode id = s.fs := by
    rw [Fs.modify, id, Function.update_eq_self]
  exact hfs ▸ hinv.put_file hwriter hopen id hfilled hleaves

theorem Inv.put_rename (hinv : Inv asked before s) (hwriter : s.writers i = some w) (hphase : w.phase = .granted)
    (htarget : isTemp w.job.path = false) :
    Inv asked before ⟨s.fs.rename w.tmp w.job.path,
      Function.update s.writers i (some { w with phase := .returned })⟩ := by
  have hopen : w.phase.isOpen = true := by rw [hphase]; rfl
  have hholds := hinv.holds i w hwriter hopen
  have hfile : s.fs.inodes w.inode = ⟨w.job.content, w.job.mode⟩ := by
    have hfilled := hholds.filled
    rwa [hphase] at hfilled
  refine hinv.put hwriter hopen (hinv.sound.rename) ?_ (fun habsurd => Bool.noConfusion habsurd) ?_ ?_
  · intro tmp inode htmp htemp hname
    have hpath : tmp ≠ w.job.path := by
      rintro rfl
      rw [htarget] at htemp
      cases htemp
    rw [Fs.names_rename, if_neg htmp, if_neg hpath]
    exact ⟨hname, rfl⟩
  · intro name hname file hfile'
    have htmp : name ≠ w.tmp := by
      rintro rfl
      rw [hholds.temp] at hname
      cases hname
    obtain ⟨inode, hinode, rfl⟩ := Option.map_eq_some_iff.mp hfile'
    rw [Fs.names_rename, if_neg htmp] at hinode
    split_ifs at hinode with hpath
    · rw [hholds.names, Option.some.injEq] at hinode
      exact .inr ⟨hpath.symm, hinode ▸ hfile⟩
    · exact .inl (Option.map_eq_some_iff.mpr ⟨inode, hinode, rfl⟩)
  · intro name hname hsome
    rw [Fs.names_rename] at hsome
    split_ifs at hsome with htmp hpath
    · exact absurd rfl hsome
    · rw [hpath, htarget] at hname
      cases hname
    · exact ⟨hsome, fun heq => absurd heq htmp⟩

theorem Inv.put_unlink (hinv : Inv asked before s) (hwriter : s.writers i = some w) (hopen : w.phase.isOpen = true) :
    Inv asked before ⟨s.fs.unlink w.tmp, Function.update s.writers i (some { w with phase := .raised true })⟩ := by
  have hkeeps {name : PyStr} (hne : name ≠ w.tmp) : (s.fs.unlink w.tmp).names name = s.fs.names name := by
    rw [Fs.names_unlink, if_neg hne]
  refine hinv.put hwriter hopen hinv.sound.unlink ?_ (fun habsurd => Bool.noConfusion habsurd) ?_ ?_
  · exact fun tmp inode htmp _ hname => ⟨(hkeeps htmp).trans hname, rfl⟩
  · intro name hname file hfile
    refine .inl ?_
    obtain ⟨inode, hinode, rfl⟩ := Option.map_eq_some_iff.mp hfile
    rw [Fs.names_unlink] at hinode
    exact Option.map_eq_some_iff.mpr ⟨inode, (Option.ite_none_left_eq_some.mp hinode).2, rfl⟩
  · intro name _ hsome
    rw [Fs.names_unlink] at hsome
    split_ifs at hsome with htmp
    · exact absurd rfl hsome
    · exact ⟨hsome, fun heq => absurd heq htmp⟩

theorem inv_writer (hinv : Inv asked before s) (htargets : ∀ job, asked job → isTemp job.path = false)
    (hwriter : s.writers i = some w) (h : w.step s.fs event = some (fs', phase)) :
    Inv asked before ⟨fs', Function.update s.writers i (some { w with phase := phase })⟩ := by
  obtain ⟨hopen, hcases⟩ := writer_cases h
  have hholds := hinv.holds i w hwriter hopen
  have hfilled := hholds.filled
  rcases hcases with ⟨rfl, hover, hreturned, hraised⟩ | ⟨rfl, hphase, rfl⟩ | ⟨rfl, rfl⟩ |
    ⟨left, n, hphase, rfl, rfl⟩ | ⟨inode, hphase, hinode, rfl, rfl⟩ | ⟨hphase, rfl, rfl⟩ | ⟨-, rfl, rfl⟩
  · refine hinv.put_phase hwriter hopen (fun habsurd => ?_) ?_
    · rw [hover] at habsurd
      cases habsurd
    · cases phase with
      | raised unlinked =>
        cases unlinked with
        | false => rfl
        | true => exact absurd rfl hraised
      | returned => exact absurd rfl hreturned
      | killed => rfl
      | _ => cases hover
  · refine hinv.put_phase hwriter hopen (fun _ => ?_) rfl
    rw [hphase] at hfilled
    exact (List.append_nil _).symm.trans hfilled
  · exact hinv.put_phase hwriter hopen (fun _ => trivial) rfl
  · refine hinv.put_file hwriter hopen _ (fun _ => ?_) rfl
    rw [hphase] at hfilled
    show (s.fs.inodes w.inode).data ++ left.take n ++ left.drop n = w.job.content
    rw [List.append_assoc, List.take_append_drop]
    exact hfilled
  · rw [hholds.names, Option.some.injEq] at hinode
    subst hinode
    refine hinv.put_file hwriter hopen _ (fun _ => ?_) rfl
    rw [hphase] at hfilled
    show (⟨(s.fs.inodes w.inode).data, w.job.mode⟩ : File Byte) = ⟨w.job.content, w.job.mode⟩
    rw [show (s.fs.inodes w.inode).data = w.job.content from hfilled]
  · exact hinv.put_rename hwriter hphase (htargets _ (hinv.target i w hwriter))
  · exact hinv.put_unlink hwriter hopen

theorem inv_starts {job : Job} {tmp : PyStr} (hinv : Inv asked before s) (hasked : asked job)
    (hnone : s.writers i = none) (htemp : isTemp tmp = true) (hfresh : s.fs.names tmp = none) :
    Inv asked before ⟨s.fs.create tmp PRIVATE,
      Function.update s.writers i (some ⟨job, tmp, s.fs.next, .writing job.content⟩)⟩ := by
  have hcases {j : ℕ} {w' : Writer}
      (hj : Function.update s.writers i (some ⟨job, tmp, s.fs.next, .writing job.content⟩) j = some w') :
      (j = i ∧ w' = ⟨job, tmp, s.fs.next, .writing job.content⟩) ∨ (j ≠ i ∧ s.writers j = some w') := by
    rw [Function.update_apply] at hj
    split_ifs at hj with hji
    · exact .inl ⟨hji, (Option.some.inj hj).symm⟩
    · exact .inr ⟨hji, hj⟩
  have hused {j : ℕ} {w' : Writer} (hj : s.writers j = some w') (hopen : w'.phase.isOpen = true) :
      w'.inode < s.fs.next := hinv.sound.used _ _ (hinv.holds j w' hj hopen).names
  have hkeeps {name : PyStr} (hname : s.fs.names name ≠ none) : (s.fs.create tmp PRIVATE).names name =
      s.fs.names name := by
    rw [Fs.names_create, if_neg]
    rintro rfl
    exact hname hfresh
  constructor
  case sound => exact hinv.sound.create
  case target =>
    intro j w' hj
    rcases hcases hj with ⟨-, rfl⟩ | ⟨-, hj⟩
    · exact hasked
    · exact hinv.target j w' hj
  case holds =>
    intro j w' hj hopen
    rcases hcases hj with ⟨-, rfl⟩ | ⟨-, hj⟩
    · refine ⟨htemp, (Fs.names_create tmp).trans (if_pos rfl), ?_⟩
      show (Function.update s.fs.inodes s.fs.next (⟨[], PRIVATE⟩ : File Byte) s.fs.next).data ++ job.content = job.content
      rw [Function.update_self, List.nil_append]
    · have hj' := hinv.holds j w' hj hopen
      refine ⟨hj'.temp, (hkeeps (by simp [hj'.names])).trans hj'.names, ?_⟩
      rw [Fs.inodes_create_of_lt (hused hj hopen)]
      exact hj'.filled
  case apart =>
    intro j k w' w'' hj hk hopen hopen' heq
    rcases hcases hj with ⟨rfl, rfl⟩ | ⟨-, hother⟩ <;> rcases hcases hk with ⟨rfl, rfl⟩ | ⟨-, hother'⟩
    · rfl
    · exact absurd heq (hused hother' hopen').ne'
    · exact absurd heq (hused hother hopen).ne
    · exact hinv.apart j k w' w'' hother hother' hopen hopen' heq
  case whole =>
    intro name hname file hfile
    obtain ⟨inode, hinode, rfl⟩ := Option.map_eq_some_iff.mp hfile
    rw [Fs.names_create, if_neg] at hinode
    · rw [Fs.inodes_create_of_lt (hinv.sound.used name inode hinode)]
      exact hinv.whole name hname _ (Option.map_eq_some_iff.mpr ⟨inode, hinode, rfl⟩)
    · rintro rfl
      rw [htemp] at hname
      cases hname
  case leftover =>
    intro name hname hsome
    by_cases htmp : name = tmp
    · exact .inr ⟨i, _, Function.update_self _ _ _, htmp.symm, rfl⟩
    · rw [Fs.names_create, if_neg htmp] at hsome
      refine (hinv.leftover name hname hsome).imp_right ?_
      rintro ⟨j, w', hj, htmp', hleaves⟩
      refine ⟨j, w', (Function.update_of_ne ?_ _ _).trans hj, htmp', hleaves⟩
      rintro rfl
      rw [hnone] at hj
      cases hj

theorem inv_removes {name : PyStr} (hinv : Inv asked before s) (hname : isTemp name = false) :
    Inv asked before ⟨s.fs.unlink name, s.writers⟩ := by
  have hkeeps {tmp : PyStr} (htmp : isTemp tmp = true) : (s.fs.unlink name).names tmp = s.fs.names tmp := by
    rw [Fs.names_unlink, if_neg]
    rintro rfl
    rw [hname] at htmp
    cases htmp
  constructor
  case sound => exact hinv.sound.unlink
  case target => exact hinv.target
  case holds =>
    intro j w hj hopen
    have hj' := hinv.holds j w hj hopen
    exact ⟨hj'.temp, (hkeeps hj'.temp).trans hj'.names, hj'.filled⟩
  case apart => exact hinv.apart
  case whole =>
    intro other hother file hfile
    obtain ⟨inode, hinode, rfl⟩ := Option.map_eq_some_iff.mp hfile
    rw [Fs.names_unlink] at hinode
    exact hinv.whole other hother _
      (Option.map_eq_some_iff.mpr ⟨inode, (Option.ite_none_left_eq_some.mp hinode).2, rfl⟩)
  case leftover =>
    intro other hother hsome
    rw [hkeeps hother] at hsome
    exact hinv.leftover other hother hsome

theorem inv_step (hinv : Inv asked before s) (htargets : ∀ job, asked job → isTemp job.path = false)
    (hasked : ∀ i job tmp, a = .writer i (.starts job tmp) → asked job) (h : step s a = some s') :
    Inv asked before s' := by
  rcases step_cases h with ⟨i, job, tmp, rfl, hnone, htemp, hfresh, rfl⟩ |
    ⟨i, w, event, fs', phase, rfl, hwriter, hstep, rfl⟩ | ⟨name, rfl, hname, rfl⟩
  · exact inv_starts hinv (hasked i job tmp rfl) hnone htemp hfresh
  · exact inv_writer hinv htargets hwriter hstep
  · exact inv_removes hinv hname

/-! ## Readers -/

/-- An inode that no open writer has; its file is done. -/
structure Settled (s : Host) (inode : ℕ) : Prop where
  used : inode < s.fs.next
  free : ∀ i w, s.writers i = some w → w.phase.isOpen = true → w.inode ≠ inode

variable {inode : ℕ}

/-- What a name points at that is no temporary one is settled. -/
theorem Inv.settled (hinv : Inv asked before s) {name : PyStr} (hname : isTemp name = false)
    (h : s.fs.names name = some inode) : Settled s inode := by
  refine ⟨hinv.sound.used name inode h, fun i w hwriter hopen => ?_⟩
  rintro rfl
  have hholds := hinv.holds i w hwriter hopen
  rw [hinv.sound.apart _ _ _ h hholds.names, hholds.temp] at hname
  cases hname

theorem settled_step (hinv : Inv asked before s) (hsettled : Settled s inode) (h : step s a = some s') :
    Settled s' inode ∧ s'.fs.inodes inode = s.fs.inodes inode := by
  rcases step_cases h with ⟨i, job, tmp, rfl, hnone, htemp, hfresh, rfl⟩ |
    ⟨i, w, event, fs', phase, rfl, hwriter, hstep, rfl⟩ | ⟨name, rfl, hname, rfl⟩
  · refine ⟨⟨Nat.lt_succ_of_lt hsettled.used, fun j w hj hopen => ?_⟩, Fs.inodes_create_of_lt hsettled.used⟩
    dsimp only at hj
    rw [Function.update_apply] at hj
    split_ifs at hj with hji
    · cases hj
      exact hsettled.used.ne'
    · exact hsettled.free j w hj hopen
  · obtain ⟨hopen, hcases⟩ := writer_cases hstep
    have hne := hsettled.free i w hwriter hopen
    have hfs : fs'.next = s.fs.next ∧ fs'.inodes inode = s.fs.inodes inode := by
      rcases hcases with ⟨rfl, -⟩ | ⟨rfl, -⟩ | ⟨rfl, -⟩ | ⟨left, n, -, rfl, -⟩ | ⟨inode', -, hinode, rfl, -⟩ |
        ⟨-, rfl, -⟩ | ⟨-, rfl, -⟩
      · exact ⟨rfl, rfl⟩
      · exact ⟨rfl, rfl⟩
      · exact ⟨rfl, rfl⟩
      · exact ⟨rfl, Fs.inodes_modify_of_ne hne.symm⟩
      · rw [(hinv.holds i w hwriter hopen).names, Option.some.injEq] at hinode
        exact ⟨rfl, Fs.inodes_modify_of_ne (hinode ▸ hne.symm)⟩
      · exact ⟨rfl, rfl⟩
      · exact ⟨rfl, rfl⟩
    refine ⟨⟨hfs.1 ▸ hsettled.used, fun j w' hj hopen' => ?_⟩, hfs.2⟩
    dsimp only at hj
    rw [Function.update_apply] at hj
    split_ifs at hj with hji
    · cases hj
      exact hne
    · exact hsettled.free j w' hj hopen'
  · exact ⟨⟨hsettled.used, hsettled.free⟩, rfl⟩

/-! ## Runs -/

variable {as : List Action}

theorem inv_run (hinv : Inv asked before s) (htargets : ∀ job, asked job → isTemp job.path = false)
    (hasked : ∀ i job tmp, Action.writer i (.starts job tmp) ∈ as → asked job) (h : run step s as = some s') :
    Inv asked before s' := by
  induction as generalizing s with
  | nil =>
    rw [run_nil, Option.some.injEq] at h
    exact h ▸ hinv
  | cons a as ih =>
    rw [run_cons, Option.bind_eq_some_iff] at h
    obtain ⟨t, ht, hrest⟩ := h
    refine ih (inv_step hinv htargets (fun i job tmp ha => hasked i job tmp ?_) ht)
      (fun i job tmp hmem => hasked i job tmp ?_) hrest
    · exact ha ▸ List.mem_cons_self
    · exact List.mem_cons_of_mem a hmem

theorem settled_run (hinv : Inv asked before s) (htargets : ∀ job, asked job → isTemp job.path = false)
    (hasked : ∀ i job tmp, Action.writer i (.starts job tmp) ∈ as → asked job) (hsettled : Settled s inode)
    (h : run step s as = some s') : s'.fs.inodes inode = s.fs.inodes inode := by
  induction as generalizing s with
  | nil =>
    rw [run_nil, Option.some.injEq] at h
    rw [h]
  | cons a as ih =>
    rw [run_cons, Option.bind_eq_some_iff] at h
    obtain ⟨t, ht, hrest⟩ := h
    have hstep : ∀ i job tmp, a = .writer i (.starts job tmp) → asked job :=
      fun i job tmp ha => hasked i job tmp (ha ▸ List.mem_cons_self)
    obtain ⟨hsettled', hfile⟩ := settled_step hinv hsettled ht
    rw [ih (inv_step hinv htargets hstep ht) (fun i job tmp hmem => hasked i job tmp (List.mem_cons_of_mem a hmem))
      hsettled' hrest, hfile]

theorem inv_idle (hsound : before.Sound) : Inv asked before (Host.idle before) := by
  constructor
  case sound => exact hsound
  case target => exact fun i w h => by cases h
  case holds => exact fun i w h => by cases h
  case apart => exact fun i j w w' h => by cases h
  case whole => exact fun name _ file h => .inl h
  case leftover => exact fun name _ h => .inl h

/-- **Files are whole.**  However the writers interleave, fail and die, and whatever file that is
not temporary is deleted in between: a path holds the file it held before or the whole content
of one writer, in that writer's mode; who has opened it reads that content for good, whatever
comes later; and of the temporary files only those stay that are still written to, or whose
writer was killed or could not unlink it. -/
theorem atomicWrite_whole (h : run step (Host.idle before) as = some s) (hsound : before.Sound)
    (htargets : ∀ i job tmp, Action.writer i (.starts job tmp) ∈ as → isTemp job.path = false) :
    (∀ name, isTemp name = false → ∀ file, s.fs.file name = some file → before.file name = some file ∨
      ∃ i job tmp, Action.writer i (.starts job tmp) ∈ as ∧ job.path = name ∧ file = ⟨job.content, job.mode⟩) ∧
    (∀ first later s₁, as = first ++ later → run step (Host.idle before) first = some s₁ →
      ∀ name inode, isTemp name = false → s₁.fs.names name = some inode →
        s.fs.inodes inode = s₁.fs.inodes inode) ∧
    (∀ name, isTemp name = true → s.fs.names name ≠ none → before.names name ≠ none ∨
      ∃ i w, s.writers i = some w ∧ w.tmp = name ∧ w.phase.leaves = true) := by
  set asked : Job → Prop := fun job => ∃ i tmp, Action.writer i (.starts job tmp) ∈ as with hasked
  have htargets' : ∀ job, asked job → isTemp job.path = false :=
    fun job ⟨i, tmp, hmem⟩ => htargets i job tmp hmem
  have hinv : Inv asked before s :=
    inv_run (inv_idle hsound) htargets' (fun i job tmp hmem => ⟨i, tmp, hmem⟩) h
  refine ⟨fun name hname file hfile => ?_, ?_, hinv.leftover⟩
  · refine (hinv.whole name hname file hfile).imp_right ?_
    rintro ⟨job, ⟨i, tmp, hmem⟩, hpath, hfile⟩
    exact ⟨i, job, tmp, hmem, hpath, hfile⟩
  · rintro first later s₁ rfl hfirst name inode hname hinode
    have hinv₁ : Inv asked before s₁ := inv_run (inv_idle hsound) htargets'
      (fun i job tmp hmem => ⟨i, tmp, List.mem_append_left _ hmem⟩) hfirst
    refine settled_run hinv₁ htargets' (fun i job tmp hmem => ⟨i, tmp, List.mem_append_right _ hmem⟩)
      (hinv₁.settled hname hinode) ?_
    rw [run_append, hfirst] at h
    exact h

def sampleFs : Fs PyStr Byte :=
  ⟨fun name => if name = lit "run/config" then some 0 else none, fun _ => ⟨[1, 2], 0o644⟩, 1⟩

/-- Two writers of one path: the first is done while the second, who then is killed, writes. -/
def sampleRun : List Action :=
  [.writer 0 (.starts ⟨lit "run/config", [3, 4, 5], 0o600⟩ (lit "run/tmpabcdefgh")), .writer 0 (.writes 2),
    .writer 1 (.starts ⟨lit "run/config", [6], 0o644⟩ (lit "run/tmpstuvwxyz")), .writer 0 (.writes 1),
    .writer 0 .done, .writer 0 .done, .writer 1 (.writes 1), .writer 0 .done, .writer 1 .dies]

theorem atomicWrite_whole_killed : ∃ s, run step (Host.idle sampleFs) sampleRun = some s ∧
    s.fs.file (lit "run/config") = some ⟨[3, 4, 5], 0o600⟩ ∧
    (s.fs.names (lit "run/tmpstuvwxyz") ≠ none → sampleFs.names (lit "run/tmpstuvwxyz") ≠ none ∨
      ∃ i w, s.writers i = some w ∧ w.tmp = lit "run/tmpstuvwxyz" ∧ w.phase.leaves = true) := by
  have hsome : (run step (Host.idle sampleFs) sampleRun).isSome = true := by decide
  have hrun := (Option.some_get hsome).symm
  have hsound : sampleFs.Sound := by
    constructor
    case used =>
      intro name inode h
      obtain ⟨-, h⟩ := Option.ite_none_right_eq_some.mp h
      exact Option.some.inj h ▸ Nat.one_pos
    case apart =>
      intro name name' inode h h'
      rw [(Option.ite_none_right_eq_some.mp h).1, (Option.ite_none_right_eq_some.mp h').1]
  have htargets : ∀ i job tmp, Action.writer i (.starts job tmp) ∈ sampleRun → isTemp job.path = false := by
    intro i job tmp hmem
    have hpath : job.path = lit "run/config" := by
      simp only [sampleRun, List.mem_cons, Action.writer.injEq, Event.starts.injEq, reduceCtorEq, and_false,
        List.not_mem_nil, or_false, false_or] at hmem
      rcases hmem with ⟨-, rfl, -⟩ | ⟨-, rfl, -⟩ <;> rfl
    rw [hpath]
    decide
  exact ⟨_, hrun, rfl, (atomicWrite_whole hrun hsound htargets).2.2 _ (by decide)⟩

end AtomicWrite
