/-
# Runs of `stop`

Whatever `domstate` says each time and whenever the watcher ends, a run of `stop` keeps
`Core`: it issues three `virsh` commands and no other, asks for the shutdown once and of
a running domain only, and reads on only after states it waits through.
-/
import Yolobox.Libvirt.Stop

open Script

namespace Stop

variable {domainName : PyStr} {history : List Event} {e : Event}

/-! ## Histories -/

/-- The state a `domstate` read. -/
def Event.state? (domainName : PyStr) : Event → Option PyStr
  | .virsh args (some stdout) => if args = domstateArgs domainName then some (strip stdout) else none
  | _ => none

/-- The states read, newest first. -/
def states (domainName : PyStr) (history : List Event) : List PyStr :=
  history.filterMap (Event.state? domainName)

/-- The commands given to `virsh`, whether they failed or not. -/
def Event.args? : Event → Option (List PyStr)
  | .virsh args _ => some args
  | _ => none

def issued (history : List Event) : List (List PyStr) := history.filterMap Event.args?

/-- The watcher's stdout was read to its end. -/
def WatcherEnded (history : List Event) : Prop := .line [] ∈ history

/-- The invariant of a run. -/
structure Core (domainName : PyStr) (history : List Event) : Prop where
  allowed : ∀ args ∈ issued history,
    args ∈ [listArgs, domstateArgs domainName, shutdownArgs domainName]
  once : (issued history).count (shutdownArgs domainName) ≤ 1
  justified : shutdownArgs domainName ∈ issued history →
    ∃ first ∈ (states domainName history).getLast?, first ∈ [STATE_RUNNING, STATE_BLOCKED]
  past : ∀ word ∈ (states domainName history).tail, word ∈ STATES_STOPPING

@[simp] theorem issued_cons_virsh (args : List PyStr) (stdout : Option PyStr) :
    issued (.virsh args stdout :: history) = args :: issued history := rfl

@[simp] theorem issued_cons_line (line : PyStr) :
    issued (.line line :: history) = issued history := rfl

@[simp] theorem states_cons_line (line : PyStr) :
    states domainName (.line line :: history) = states domainName history := rfl

@[simp] theorem states_cons_failed (args : List PyStr) :
    states domainName (.virsh args none :: history) = states domainName history := rfl

@[simp] theorem states_cons_domstate (stdout : PyStr) :
    states domainName (.virsh (domstateArgs domainName) (some stdout) :: history)
      = strip stdout :: states domainName history := by
  simp [states, Event.state?]

theorem states_cons_other {args : List PyStr} (h : args ≠ domstateArgs domainName)
    (stdout : Option PyStr) :
    states domainName (.virsh args stdout :: history) = states domainName history := by
  cases stdout with
  | none => rfl
  | some stdout => simp [states, Event.state?, h]

theorem listArgs_ne (domainName : PyStr) :
    listArgs ≠ domstateArgs domainName ∧ listArgs ≠ shutdownArgs domainName := by
  constructor <;> intro h <;> have hlength := congrArg List.length h <;> simp [listArgs, domstateArgs, shutdownArgs] at hlength

theorem shutdownArgs_ne (domainName : PyStr) : shutdownArgs domainName ≠ domstateArgs domainName := by
  intro h
  have hword : lit "shutdown" = lit "domstate" := (List.cons.inj h).1
  exact absurd hword (by decide)

theorem core_nil : Core domainName [] := ⟨nofun, Nat.zero_le 1, nofun, nofun⟩

theorem Core.line (h : Core domainName history) (line : PyStr) :
    Core domainName (.line line :: history) :=
  ⟨h.allowed, h.once, h.justified, h.past⟩

theorem Core.list (h : Core domainName history) (stdout : Option PyStr) :
    Core domainName (.virsh listArgs stdout :: history) := by
  obtain ⟨hdomstate, hshutdown⟩ := listArgs_ne domainName
  refine ⟨?_, ?_, ?_, ?_⟩
  · rw [issued_cons_virsh, List.forall_mem_cons]
    exact ⟨List.mem_cons_self, h.allowed⟩
  · rw [issued_cons_virsh, List.count_cons_of_ne hshutdown]
    exact h.once
  · rw [issued_cons_virsh, List.mem_cons, or_iff_right hshutdown.symm, states_cons_other hdomstate]
    exact h.justified
  · rw [states_cons_other hdomstate]
    exact h.past

/-- A reading, after a state that is waited through. -/
theorem Core.domstate (h : Core domainName history)
    (hlast : ∀ word ∈ (states domainName history).head?, word ∈ STATES_STOPPING)
    (stdout : Option PyStr) :
    Core domainName (.virsh (domstateArgs domainName) stdout :: history) := by
  have hne := (shutdownArgs_ne domainName).symm
  have hissued : ∀ args ∈ issued (.virsh (domstateArgs domainName) stdout :: history),
      args ∈ [listArgs, domstateArgs domainName, shutdownArgs domainName] := by
    rw [issued_cons_virsh, List.forall_mem_cons]
    exact ⟨List.mem_cons_of_mem _ List.mem_cons_self, h.allowed⟩
  have honce : (issued (.virsh (domstateArgs domainName) stdout :: history)).count
      (shutdownArgs domainName) ≤ 1 := by
    rw [issued_cons_virsh, List.count_cons_of_ne hne]
    exact h.once
  cases stdout with
  | none =>
    refine ⟨hissued, honce, ?_, h.past⟩
    rw [issued_cons_virsh, List.mem_cons, or_iff_right hne.symm]
    exact h.justified
  | some stdout =>
    refine ⟨hissued, honce, ?_, ?_⟩
    · rw [issued_cons_virsh, List.mem_cons, or_iff_right hne.symm, states_cons_domstate]
      intro hshutdown
      obtain ⟨first, hfirst, hrunning⟩ := h.justified hshutdown
      refine ⟨first, ?_, hrunning⟩
      rw [Option.mem_def] at hfirst ⊢
      rw [List.getLast?_cons, hfirst]
      rfl
    · rw [states_cons_domstate, List.tail_cons]
      intro word hword
      cases hstates : states domainName history with
      | nil =>
        rw [hstates] at hword
        exact absurd hword List.not_mem_nil
      | cons last rest =>
        rw [hstates] at hword
        rcases List.mem_cons.mp hword with rfl | hrest
        · exact hlast word (by rw [hstates]; rfl)
        · exact h.past word (by rw [hstates]; exact hrest)

/-- The shutdown, asked for once the domain was read as running. -/
theorem Core.shutdown (h : Core domainName history)
    (hnone : shutdownArgs domainName ∉ issued history)
    (hfirst : ∃ first ∈ (states domainName history).getLast?, first ∈ [STATE_RUNNING, STATE_BLOCKED])
    (stdout : Option PyStr) :
    Core domainName (.virsh (shutdownArgs domainName) stdout :: history) := by
  refine ⟨?_, ?_, ?_, ?_⟩
  · rw [issued_cons_virsh, List.forall_mem_cons]
    exact ⟨List.mem_cons_of_mem _ (List.mem_cons_of_mem _ List.mem_cons_self), h.allowed⟩
  · rw [issued_cons_virsh, List.count_cons_self, List.count_eq_zero_of_not_mem hnone]
  · rw [states_cons_other (shutdownArgs_ne domainName)]
    exact fun _ => hfirst
  · rw [states_cons_other (shutdownArgs_ne domainName)]
    exact h.past

/-! ## The parts -/

/-- The last state read, if any, is one that is waited through. -/
def Waited (domainName : PyStr) (history : List Event) : Prop :=
  ∀ word ∈ (states domainName history).head?, word ∈ STATES_STOPPING

/-- What is so when a run raises: after a state that is neither waited through nor off, a
refusal, unless the watcher was over. -/
structure Raised (domainName : PyStr) (error : PyError) (history : List Event) : Prop where
  core : Core domainName history
  refused : ∀ word ∈ (states domainName history).head?, word ∉ STATES_STOPPING →
    word ≠ STATE_OFF → (∃ why, error = .refused why) ∨ WatcherEnded history

/-- The post-condition of a part: `Q` if it returns. -/
abbrev keeping {α : Type} (domainName : PyStr) (Q : α → World → Prop) : Post PyError α World :=
  ⟨Q, fun error t => Raised domainName error t.history, fun t => Core domainName t.history⟩

variable {s : World} {α : Type}

theorem Core.raised (h : Core domainName history) (hwaited : Waited domainName history)
    (error : PyError) : Raised domainName error history :=
  ⟨h, fun word hword hnot _ => absurd (hwaited word hword) hnot⟩

/-- A `domstate`, in the rule of the command. -/
theorem wp_domainState_iff {Q : Post PyError PyStr World} :
    (domainState domainName).wp machine Q s ↔ Q.killed s
      ∧ (∀ stdout, Q.killed (s.note (.virsh (domstateArgs domainName) (some stdout)))
        ∧ Q.returned (strip stdout) (s.note (.virsh (domstateArgs domainName) (some stdout))))
      ∧ Q.killed (s.note (.virsh (domstateArgs domainName) none))
        ∧ Q.raised (.raisedBy (.virsh (domstateArgs domainName)))
          (s.note (.virsh (domstateArgs domainName) none)) := by
  show ((py _).bind _).wp machine Q s ↔ _
  rw [wp_bind, py, wp_cmd]
  refine and_congr_right fun _ => and_congr ?_ ?_
  · exact ⟨fun h stdout => h stdout _ rfl, fun h stdout t ht => ht ▸ h stdout⟩
  · exact ⟨fun h => h _ rfl, fun h t ht => ht ▸ h⟩

theorem wp_domainState {Q : PyStr → World → Prop} (hcore : Core domainName s.history)
    (hwaited : Waited domainName s.history)
    (hQ : ∀ stdout, Core domainName (.virsh (domstateArgs domainName) (some stdout) :: s.history) →
      Q (strip stdout) (s.note (.virsh (domstateArgs domainName) (some stdout)))) :
    (domainState domainName).wp machine (keeping domainName Q) s := by
  have hread := fun stdout => hcore.domstate hwaited stdout
  exact wp_domainState_iff.mpr ⟨hcore, fun stdout => ⟨hread _, hQ stdout (hread _)⟩,
    hread none, (hread none).raised hwaited _⟩

theorem wp_requireStoppable {Q : Post PyError Unit World} {word : PyStr}
    (hstopping : word ∈ STATES_STOPPING → Q.returned () s)
    (hother : word ∉ STATES_STOPPING → ∀ why, Q.raised (.refused why) s) :
    (requireStoppable word).wp machine Q s := by
  unfold requireStoppable
  split_ifs with h
  · exact hstopping h
  · exact hother h _

theorem Core.refused (h : Core domainName history) (why : Refusal) :
    Raised domainName (.refused why) history :=
  ⟨h, fun _ _ _ _ => .inl ⟨why, rfl⟩⟩

/-- Why the watcher ended. -/
theorem wp_eventStreamEnded {printed : List PyStr} {Q : PyError → World → Prop}
    (hcore : Core domainName s.history) (hended : WatcherEnded s.history)
    (hQ : ∀ error t, t.history = s.history → Q error t) :
    (eventStreamEnded printed).wp machine (keeping domainName Q) s := by
  have hraised : ∀ error, Raised domainName error s.history :=
    fun error => ⟨hcore, fun _ _ _ _ => .inr hended⟩
  refine wp_seq ((wp_cmd _ _ _ _).mpr ⟨hcore, ?_, ?_⟩)
  · rintro stderr t rfl
    refine ⟨hcore, wp_seq ((wp_cmd _ _ _ _).mpr ⟨hcore, ?_, ?_⟩)⟩
    · rintro code t rfl
      refine ⟨hcore, ?_⟩
      show (if code = 1 ∧ EVENT_TIMEOUT_LINE ∈ printed.map strip then _ else _ : Py PyError).wp
        machine _ _
      split_ifs
      · exact hQ _ _ rfl
      · exact hQ _ _ rfl
    · rintro t rfl
      exact ⟨hcore, hraised _⟩
  · rintro t rfl
    exact ⟨hcore, hraised _⟩

/-! ## The loop -/

/-- Before a turn: the state just read, and the lines that are left of `total`. -/
structure Looping (domainName : PyStr) (total k : ℕ) (st : Loop) (s : World) : Prop where
  core : Core domainName s.history
  last : (states domainName s.history).head? = some st.domainState
  lines : s.lines.length + k = total

/-- The loop found the domain off. -/
structure Off (domainName : PyStr) (s : World) : Prop where
  core : Core domainName s.history
  last : (states domainName s.history).head? = some STATE_OFF

/-- How a turn ends. -/
abbrev Ending (domainName : PyStr) (total k : ℕ) : Post PyError (Loop ⊕ Unit) World :=
  LoopPost.post ⟨Looping domainName total k, fun _ => Off domainName,
    fun error t => Raised domainName error t.history, fun t => Core domainName t.history⟩

theorem Looping.waited {total k : ℕ} {st : Loop} (h : Looping domainName total k st s)
    (hstopping : st.domainState ∈ STATES_STOPPING) : Waited domainName s.history := by
  intro word hword
  rw [Option.mem_def, h.last] at hword
  exact Option.some.inj hword ▸ hstopping

/-- A state that was just read. -/
theorem head?_states_note (s : World) (stdout : PyStr) :
    (states domainName (s.note (.virsh (domstateArgs domainName) (some stdout))).history).head?
      = some (strip stdout) := by
  show (states domainName (.virsh (domstateArgs domainName) (some stdout) :: s.history)).head? = _
  rw [states_cons_domstate]
  rfl

theorem wp_streamOver {printed : List PyStr} {total k : ℕ} (hcore : Core domainName s.history)
    (hwaited : Waited domainName s.history) (hended : WatcherEnded s.history) :
    (streamOver domainName printed).wp machine (Ending domainName total k) s := by
  refine wp_seq (wp_domainState hcore hwaited fun stdout hread => ?_)
  show (if strip stdout = STATE_OFF then _ else _ : Py (Loop ⊕ Unit)).wp machine _ _
  split_ifs with hoff
  · exact ⟨hread, by rw [head?_states_note, hoff]⟩
  · refine wp_seq (wp_eventStreamEnded hread (List.mem_cons_of_mem _ hended) ?_)
    intro error t ht
    show Raised domainName error t.history
    rw [ht]
    exact ⟨hread, fun _ _ _ _ => .inr (List.mem_cons_of_mem _ hended)⟩

/-- **One turn.** -/
theorem wp_turn {total k : ℕ} {st : Loop} (h : Looping domainName total k st s) :
    (turn domainName st).wp machine (Ending domainName total (k + 1)) s := by
  unfold turn
  split_ifs with hoff
  · exact ⟨h.core, hoff ▸ h.last⟩
  · refine wp_seq (wp_requireStoppable (fun hstopping => ?_) fun _ why => h.core.refused why)
    have hwaited := h.waited hstopping
    refine wp_seq ((wp_cmd _ _ _ _).mpr ⟨h.core, ?_, ?_⟩)
    · rintro line t ⟨hline, rfl⟩
      refine ⟨h.core.line line, ?_⟩
      show (if line = [] then _ else _ : Py (Loop ⊕ Unit)).wp machine _ _
      split_ifs with hend
      · exact wp_streamOver (h.core.line line) hwaited (hend ▸ List.mem_cons_self)
      · refine wp_seq (wp_domainState (h.core.line line) hwaited fun stdout hread => ?_)
        refine ⟨hread, head?_states_note _ stdout, ?_⟩
        -- a line that is not empty was one of those left
        show s.lines.tail.length + (k + 1) = total
        cases hlines : s.lines with
        | nil =>
          rw [hlines] at hline
          exact absurd hline hend
        | cons l ls =>
          have hlength := h.lines
          rw [hlines, List.length_cons] at hlength
          rw [List.tail_cons]
          omega
    · rintro t rfl
      exact ⟨h.core, h.core.raised hwaited _⟩

theorem wp_turns_turn {total : ℕ} {st : Loop} (n : ℕ) (h : Looping domainName total 0 st s) :
    (turns (turn domainName) n st).wp machine (Ending domainName total n) s := by
  have hturns := wp_turns (I := Looping domainName total) (fun k st s => wp_turn) n h
  rwa [Nat.zero_add] at hturns

/-! ## The call -/

/-- The domain was read for the first time, and is running or going down. -/
structure First (domainName : PyStr) (first : PyStr) (s : World) : Prop where
  core : Core domainName s.history
  only : states domainName s.history = [first]
  unasked : shutdownArgs domainName ∉ issued s.history
  stopping : first ∈ STATES_STOPPING

theorem First.waited {first : PyStr} (h : First domainName first s) :
    Waited domainName s.history := by
  intro word hword
  rw [h.only] at hword
  exact Option.some.inj hword ▸ h.stopping

theorem wp_askShutdown {first : PyStr} {Q : Unit → World → Prop} (h : First domainName first s)
    (hQ : ∀ t, t.lines = s.lines → Core domainName t.history → Waited domainName t.history →
      Q () t) :
    (askShutdown domainName first).wp machine (keeping domainName Q) s := by
  unfold askShutdown
  split_ifs with hgoing
  · have hfirst : ∃ first ∈ (states domainName s.history).getLast?,
        first ∈ [STATE_RUNNING, STATE_BLOCKED] := by
      refine ⟨first, by rw [h.only]; rfl, ?_⟩
      have hstopping := h.stopping
      simp only [STATES_STOPPING, List.mem_cons, List.not_mem_nil, or_false] at hstopping ⊢
      exact hstopping.imp_right fun h => h.resolve_right hgoing
    have hasked := fun stdout => h.core.shutdown h.unasked hfirst stdout
    have hwaited : ∀ stdout, Waited domainName (.virsh (shutdownArgs domainName) stdout :: s.history) := by
      intro stdout
      rw [Waited, states_cons_other (shutdownArgs_ne domainName)]
      exact h.waited
    refine wp_seq ((wp_cmd _ _ _ _).mpr ⟨h.core, ?_, ?_⟩)
    · rintro stdout t rfl
      exact ⟨hasked _, hQ _ rfl (hasked _) (hwaited _)⟩
    · rintro t rfl
      exact ⟨hasked _, (hasked _).raised (hwaited _) _⟩
  · exact hQ s rfl h.core h.waited

theorem wp_watchStop {first : PyStr} (n : ℕ) (h : First domainName first s) :
    (watchStop domainName n first).wp machine (Ending domainName s.lines.length n) s := by
  refine wp_seq (wp_askShutdown h fun t ht hcore hwaited => ?_)
  refine wp_seq (wp_domainState hcore hwaited fun stdout hread => ?_)
  refine wp_turns_turn n ⟨hread, head?_states_note _ stdout, ?_⟩
  show t.lines.length + 0 = s.lines.length
  rw [ht, Nat.add_zero]

/-- The watcher is reaped, and nothing else changes. -/
theorem wp_endWatcher {Q : Post PyError Unit World}
    (hkilled : ∀ watcher, Q.killed { s with watcher := watcher })
    (hQ : Q.returned () { s with watcher := .reaped }) : endWatcher.wp machine Q s := by
  have hreap : ∀ watcher, (py .communicate).wp machine Q { s with watcher := watcher } := by
    refine fun watcher => (wp_cmd _ _ _ _).mpr ⟨hkilled watcher, ?_, nofun⟩
    rintro _ t rfl
    exact ⟨hkilled _, hQ⟩
  refine wp_seq ((wp_cmd _ _ _ _).mpr ⟨hkilled s.watcher, ?_, nofun⟩)
  rintro code t ht
  cases code with
  | none =>
    obtain rfl : t = s := ht
    refine ⟨hkilled t.watcher, wp_seq ((wp_cmd _ _ _ _).mpr ⟨hkilled t.watcher, ?_, nofun⟩)⟩
    rintro _ u rfl
    exact ⟨hkilled _, hreap _⟩
  | some code =>
    obtain rfl : t = { s with watcher := .reaped } := ht
    exact ⟨hkilled _, hreap _⟩

/-- How a call ends: the watcher is not left running. -/
abbrev Ended (domainName : PyStr) (total n : ℕ) : Post PyError (Loop ⊕ Unit) World where
  returned next s := s.watcher ≠ .running ∧
    Sum.elim (fun _ => n ≤ total ∧ Core domainName s.history) (fun _ => Off domainName s) next
  raised error s := s.watcher ≠ .running ∧ Raised domainName error s.history
  killed s := Core domainName s.history

/-- What the cleanup finds, it leaves. -/
theorem wp_ensured {first : PyStr} {total : ℕ} (n : ℕ) (htotal : s.lines.length = total)
    (h : First domainName first s) :
    (ensuring (watchStop domainName n first) endWatcher).wp machine
      (Ended domainName total n) s := by
  refine wp_ensuring (wp_watchStop n h) ?_ ?_ fun _ h => h
  · rintro (st | _) t ht
    · refine wp_endWatcher (fun _ => ht.core) ⟨nofun, ?_, ht.core⟩
      have hlines := ht.lines
      omega
    · exact wp_endWatcher (fun _ => ht.core) ⟨nofun, ht.core, ht.last⟩
  · rintro error t ht
    exact wp_endWatcher (fun _ => ht.core) ⟨nofun, ht⟩

theorem core_listed (stdout : Option PyStr) : Core domainName [.virsh listArgs stdout] :=
  core_nil.list stdout

theorem states_listed (stdout : Option PyStr) :
    states domainName [.virsh listArgs stdout] = [] :=
  states_cons_other (listArgs_ne domainName).1 stdout

theorem waited_listed (stdout : Option PyStr) :
    Waited domainName [.virsh listArgs stdout] := by
  rw [Waited, states_listed]
  exact nofun

theorem wp_stop (lines : List PyStr) (n : ℕ) :
    (stop domainName n).wp machine (Ended domainName lines.length n) (World.start lines) := by
  have hraised : ∀ error stdout, Raised domainName error [.virsh listArgs stdout] :=
    fun error stdout => (core_listed stdout).raised (waited_listed stdout) error
  refine wp_seq (wp_seq ((wp_cmd _ _ _ _).mpr ⟨core_nil, ?_, ?_⟩))
  · rintro listing t rfl
    refine ⟨core_listed _, ?_⟩
    show (if decide (domainName ∈ namesListed listing) = true then _ else _ :
      Py (Loop ⊕ Unit)).wp machine _ _
    split_ifs with hthere
    · have hlisted : Waited domainName [.virsh listArgs (some listing)] := waited_listed _
      have hfirst : ∀ stdout, Core domainName
          [.virsh (domstateArgs domainName) stdout, .virsh listArgs (some listing)] :=
        fun stdout => (core_listed _).domstate hlisted stdout
      refine wp_seq (wp_domainState_iff.mpr ⟨core_listed _, fun stdout => ⟨hfirst _, ?_⟩,
        hfirst none, nofun, (hfirst none).raised hlisted _⟩)
      show (if strip stdout = STATE_OFF then _ else _ : Py (Loop ⊕ Unit)).wp machine _ _
      split_ifs with hoff
      · exact ⟨nofun, hfirst _, by rw [head?_states_note, hoff]⟩
      · refine wp_seq (wp_requireStoppable (fun hstopping => ?_)
          fun _ why => ⟨nofun, (hfirst _).refused why⟩)
        refine wp_seq ((wp_cmd _ _ _ _).mpr ⟨hfirst _, ?_, ?_⟩)
        · rintro _ t rfl
          refine ⟨hfirst _, wp_ensured n rfl ⟨hfirst _, ?_, ?_, hstopping⟩⟩
          · exact (states_cons_domstate stdout).trans (congrArg _ (states_listed _))
          · show shutdownArgs domainName ∉ [domstateArgs domainName, listArgs]
            simp [(shutdownArgs_ne domainName), (listArgs_ne domainName).2.symm]
        · rintro t rfl
          refine ⟨hfirst _, nofun, hfirst _, fun word hword hnot => ?_⟩
          rw [head?_states_note, Option.mem_def, Option.some.injEq] at hword
          exact absurd (hword ▸ hstopping) hnot
    · exact ⟨nofun, hraised _ _⟩
  · rintro t rfl
    exact ⟨core_listed _, nofun, hraised _ _⟩

/-- **What a run of `stop` can come to.**  For any lines of the watcher, a loop of more
turns than lines is not cut off; the call returns when the last state it read is off; a
state that is not waited through is the last one read, and the call raises on it, a
refusal unless the watcher was over; it asks for the shutdown at most once, of a domain
first read as running or blocked, and issues no other command that changes the domain;
and the watcher is not left running. -/
theorem stop_runs {lines : List PyStr} {n : ℕ} {o : Outcome PyError (Loop ⊕ Unit)}
    (h : (stop domainName n).Ends machine (World.start lines) o s) :
    (lines.length < n → ∀ st, o ≠ .returned (.inl st))
    ∧ (o = .returned (.inr ()) → (states domainName s.history).head? = some STATE_OFF)
    ∧ ((∀ word ∈ (states domainName s.history).tail, word ∈ STATES_STOPPING)
      ∧ ∀ word ∈ (states domainName s.history).head?, word ∉ STATES_STOPPING → word ≠ STATE_OFF →
        o ≠ .returned (.inr ()) ∧ ∀ error, o = .raised error →
          (∃ why, error = .refused why) ∨ .line [] ∈ s.history)
    ∧ ((issued s.history).count (shutdownArgs domainName) ≤ 1
      ∧ (shutdownArgs domainName ∈ issued s.history →
        ∃ first ∈ (states domainName s.history).getLast?, first ∈ [STATE_RUNNING, STATE_BLOCKED]))
    ∧ (∀ args ∈ issued s.history,
      args ∈ [listArgs, domstateArgs domainName, shutdownArgs domainName])
    ∧ (o ≠ .killed → s.watcher ≠ .running) := by
  have hpost := wp_iff.mp (wp_stop lines n) o s h
  have hcore : Core domainName s.history := by
    rcases o with (st | _) | error | _
    · exact hpost.2.2
    · exact hpost.2.core
    · exact hpost.2.core
    · exact hpost
  refine ⟨?_, ?_, ⟨hcore.past, ?_⟩, ⟨hcore.once, hcore.justified⟩, hcore.allowed, ?_⟩
  · rintro hlines st rfl
    exact absurd hpost.2.1 (by omega)
  · rintro rfl
    exact hpost.2.last
  · intro word hword hnot hoff
    refine ⟨?_, ?_⟩
    · rintro rfl
      exact hoff (Option.some.inj (hword.symm.trans hpost.2.last))
    · rintro error rfl
      exact hpost.2.refused word hword hnot hoff
  · rcases o with next | error | _
    · exact fun _ => hpost.1
    · exact fun _ => hpost.1
    · exact fun h => absurd rfl h

/-! ### A run -/

/-- A machine that was running when it was read twice, and then off. -/
def sampleAnswer (s : World) : (c : Cmd) → Answer c
  | .virsh args =>
    if args = listArgs then lit "box\n"
    else if (states (lit "box") s.history).length < 2 then lit "running\n"
    else lit "shut off\n"
  | .readline => s.lines.headD []
  | .readStderr => []
  | .wait => (0 : ℤ)
  | .poll => (none : Option ℤ)
  | .spawnVirsh _ | .terminate | .communicate => ()

def sampleAfter (s : World) : Cmd → World
  | .virsh args => s.note (.virsh args (some (sampleAnswer s (.virsh args))))
  | .spawnVirsh _ => { s with watcher := .running }
  | .readline => { s.note (.line (s.lines.headD [])) with lines := s.lines.tail }
  | .wait | .communicate => { s with watcher := .reaped }
  | .terminate => { s with watcher := .terminated }
  | .readStderr | .poll => s

def sampleHandle (c : Cmd) (s : World) : Option (Answer c) × World :=
  (some (sampleAnswer s c), sampleAfter s c)

theorem machine_sampleHandle (c : Cmd) (s : World) :
    machine c s (sampleHandle c s).1 (sampleHandle c s).2 := by
  cases c with
  | readline => exact ⟨rfl, rfl⟩
  | _ => rfl

def sampleRun : Except PyError (Loop ⊕ Unit) × World :=
  (stop (lit "box") 2).interp sampleHandle (World.start [lit "stopped\n"])

theorem sampleRun_returns : sampleRun.1 = .ok (.inr ()) := by decide +kernel

theorem stop_runs_sample :
    (states (lit "box") sampleRun.2.history).head? = some STATE_OFF := by
  have hends := ends_interp machine_sampleHandle (stop (lit "box") 2)
    (World.start [lit "stopped\n"])
  exact (stop_runs hends).2.1 (congrArg Outcome.ofExcept sampleRun_returns)

end Stop
