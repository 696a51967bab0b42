/-
# The claimed ports stay apart

Only a process that holds the port lock adds a claim; what every other command does, and
what the host does by itself, takes claims away at most (`Shrinks`).  So what a process
has found free under the lock is still free when it takes it, and `Host.Sound` holds in
every state that is reached (`reaches_sound`).
-/
import Yolobox.Libvirt.Ports

namespace Ports

open Script Transition

variable {low high pid : ℕ} {h s t : Host} {machine : PyStr} {port : ℕ}

/-! ## The window -/

theorem fields_portRangeText : fields (portRangeText low high) = [dec low, dec high] := by
  have hnotSpace : ∀ n c, c ∈ dec n → isSpace c = false := by
    intro n c hc
    have hdigit := isDigit_of_mem_dec hc
    simp only [isDigit, Bool.and_eq_true, decide_eq_true_eq] at hdigit
    simp [isSpace]
    omega
  have hkept : ∀ n, (!(dec n).isEmpty) = true := by
    intro n
    rw [Bool.not_eq_true', List.isEmpty_eq_false_iff]
    exact dec_ne_nil n
  rw [fields, portRangeText, List.splitOnP_append_cons_of_forall_mem (hnotSpace low) 9 rfl,
    List.splitOnP_append_cons_of_forall_mem (hnotSpace high) 10 rfl, List.splitOnP_nil]
  simp only [List.filter_cons, hkept, if_true]
  rfl

theorem isAsciiNumber_dec (n : ℕ) : isAsciiNumber (dec n) = true := by
  rw [isAsciiNumber, Bool.and_eq_true, Bool.not_eq_true', List.isEmpty_eq_false_iff, List.all_eq_true]
  exact ⟨dec_ne_nil n, fun c hc => isDigit_of_mem_dec hc⟩

/-- Every port of the window lies above the ephemeral range. -/
theorem hostPortWindow_above {window : List ℕ}
    (hwindow : hostPortWindow (portRangeText low high) = .ok window) : ∀ port ∈ window, high < port := by
  rw [hostPortWindow, fields_portRangeText] at hwindow
  simp only [isAsciiNumber_dec, Bool.and_self, if_true, windowAfter, num_dec] at hwindow
  split_ifs at hwindow
  intro port hport
  rw [← Except.ok.inj hwindow, List.mem_range'_1] at hport
  omega

/-! ## Fewer claims -/

theorem mem_claimed : port ∈ h.claimed ↔
    (∃ d ∈ h.domains, d.claims = some port) ∨ ∃ f ∈ h.forwards, f.port = port := by
  rw [Host.claimed, List.mem_append, List.mem_filterMap, List.mem_map]

theorem claims_eq_some {d : Domain} (hd : d.claims = some port) :
    d.xml.marker.isSome = true ∧ port ∈ d.xml.forwardPorts := by
  unfold Domain.claims at hd
  split_ifs at hd with hdefined
  rw [Bool.and_eq_true] at hdefined
  unfold DomainXml.sshPort at hd
  rw [Option.map_eq_some_iff] at hd
  obtain ⟨range, hrange, hport⟩ := hd
  exact ⟨hdefined.2, List.mem_map.mpr ⟨range, List.mem_of_find?_eq_some hrange, hport⟩⟩

/-- `t` has some of the domains of `s`, each with the XML it had, and some of its claims. -/
structure Shrinks (s t : Host) : Prop where
  names : (t.domains.map (·.name)).Sublist (s.domains.map (·.name))
  domains : ∀ d ∈ t.domains, ∃ e ∈ s.domains, e.name = d.name ∧ e.xml = d.xml
  claimed : t.claimed.Sublist s.claimed
  xmlFile : t.xmlFile = s.xmlFile

theorem Shrinks.refl (s : Host) : Shrinks s s :=
  ⟨.refl _, fun d hd => ⟨d, hd, rfl, rfl⟩, .refl _, rfl⟩

theorem Shrinks.trans {u : Host} (hst : Shrinks s t) (htu : Shrinks t u) : Shrinks s u := by
  refine ⟨htu.names.trans hst.names, ?_, htu.claimed.trans hst.claimed, htu.xmlFile.trans hst.xmlFile⟩
  intro d hd
  obtain ⟨e, he, hename, hexml⟩ := htu.domains d hd
  obtain ⟨f, hf, hfname, hfxml⟩ := hst.domains e he
  exact ⟨f, hf, hfname.trans hename, hfxml.trans hexml⟩

theorem Shrinks.sound (hst : Shrinks s t) (hs : s.Sound high) : t.Sound high where
  names := hs.names.sublist hst.names
  claimed := hs.claimed.sublist hst.claimed
  above port hport := hs.above port (hst.claimed.subset hport)

/-- A change that keeps a domain's name and XML, and does not define it anew. -/
def Keeps (f : Domain → Option Domain) : Prop :=
  ∀ d e, f d = some e → e.name = d.name ∧ e.xml = d.xml ∧ (e.persistent = true → d.persistent = true)

theorem keeps_started (name : PyStr) : Keeps (Domain.started name) := by
  intro d e hde
  unfold Domain.started at hde
  split_ifs at hde <;> cases hde <;> exact ⟨rfl, rfl, id⟩

theorem keeps_off (name : PyStr) : Keeps (Domain.off name) := by
  intro d e hde
  unfold Domain.off at hde
  split_ifs at hde <;> cases hde <;> exact ⟨rfl, rfl, id⟩

theorem keeps_undefined (name : PyStr) : Keeps (Domain.undefined name) := by
  intro d e hde
  unfold Domain.undefined at hde
  split_ifs at hde
  · cases hde
    exact ⟨rfl, rfl, nofun⟩
  · cases hde
    exact ⟨rfl, rfl, id⟩

/-- A partial map that says less picks fewer. -/
theorem filterMap_sublist {α β : Type} {f g : α → Option β} (hfg : ∀ a b, f a = some b → g a = some b)
    (l : List α) : (l.filterMap f).Sublist (l.filterMap g) := by
  induction l with
  | nil => exact .refl _
  | cons a l ih =>
    cases hf : f a with
    | none =>
      rw [List.filterMap_cons_none hf]
      exact ih.trans (List.Sublist.filterMap g (List.sublist_cons_self a l))
    | some b =>
      rw [List.filterMap_cons_some hf, List.filterMap_cons_some (hfg a b hf)]
      exact ih.cons_cons b

theorem shrinks_change {f : Domain → Option Domain} (hf : Keeps f) : Shrinks h (h.change f) where
  names := by
    rw [Host.change, List.map_filterMap, ← List.filterMap_eq_map]
    refine filterMap_sublist (fun d name hd => ?_) h.domains
    obtain ⟨e, he, rfl⟩ := Option.map_eq_some_iff.mp hd
    exact congrArg some (hf d e he).1.symm
  domains e he := by
    obtain ⟨d, hd, hde⟩ := List.mem_filterMap.mp he
    exact ⟨d, hd, (hf d e hde).1.symm, (hf d e hde).2.1.symm⟩
  claimed := by
    refine List.Sublist.append ?_ (.refl _)
    rw [Host.change, List.filterMap_filterMap]
    refine filterMap_sublist (fun d port hd => ?_) h.domains
    obtain ⟨e, hde, he⟩ := Option.bind_eq_some_iff.mp hd
    obtain ⟨-, hxml, hpersistent⟩ := hf d e hde
    unfold Domain.claims at he ⊢
    split_ifs at he with hdefined
    rw [Bool.and_eq_true] at hdefined
    rw [if_pos (by rw [hpersistent hdefined.1, ← hxml, hdefined.2]; rfl), ← hxml, he]
  xmlFile := rfl

theorem shrinks_closeForwards (h : Host) (machine : PyStr) : Shrinks h (closeForwards h machine) where
  names := .refl _
  domains d hd := ⟨d, hd, rfl, rfl⟩
  claimed := List.Sublist.append (.refl _) (List.filter_sublist.map _)
  xmlFile := rfl

/-! ## Sound additions -/

/-- The port lies above the ephemeral range, and nothing claims it. -/
def Free (high port : ℕ) (h : Host) : Prop := high < port ∧ port ∉ h.claimed

/-- One more claim, of a free port. -/
theorem Host.Sound.claim (hs : s.Sound high) (hfree : Free high port s)
    (hnames : (t.domains.map (·.name)).Nodup) (hclaimed : t.claimed.Perm (port :: s.claimed)) :
    t.Sound high where
  names := hnames
  claimed := hclaimed.nodup_iff.mpr (List.nodup_cons.mpr ⟨hfree.2, hs.claimed⟩)
  above p hp := by
    rcases List.mem_cons.mp (hclaimed.mem_iff.mp hp) with rfl | hp
    · exact hfree.1
    · exact hs.above p hp

theorem claims_domainXml (name : PyStr) :
    Domain.claims ⟨name, domainXml machine port, true, false⟩ = some port := rfl

theorem defineDomain_sound (hs : s.Sound high) (hfree : Free high port s)
    (hfile : s.xmlFile machine = some (domainXml machine port)) (ht : defineDomain s machine = some t) :
    t.Sound high := by
  unfold defineDomain at ht
  rw [hfile] at ht
  split at ht
  · rename_i xml hxml hfind
    obtain rfl := Option.some.inj hxml
    obtain rfl := Option.some.inj ht
    refine hs.claim hfree ?_ ?_
    · rw [List.map_append, List.map_singleton, List.nodup_append]
      refine ⟨hs.names, List.nodup_singleton _, ?_⟩
      intro name hname other hother heq
      obtain ⟨d, hd, rfl⟩ := List.mem_map.mp hname
      rw [Host.find, List.find?_eq_none] at hfind
      exact hfind d hd (by rw [heq, List.mem_singleton.mp hother, beq_self_eq_true])
    · rw [Host.claimed, Host.claimed, List.filterMap_append,
        List.filterMap_cons_some (claims_domainXml (vmName machine)), List.filterMap_nil, List.append_assoc]
      exact List.perm_middle
  · cases ht

theorem lock_defineDomain (ht : defineDomain s machine = some t) : t.lock = s.lock := by
  unfold defineDomain at ht
  split at ht
  · exact Option.some.inj ht ▸ rfl
  · cases ht

theorem openForward_sound {guestPort : ℕ} (hs : s.Sound high) (hfree : Free high port s)
    (ht : openForward s machine port guestPort = some t) : t.Sound high := by
  unfold openForward at ht
  split_ifs at ht
  obtain rfl := Option.some.inj ht
  refine hs.claim hfree hs.names ?_
  rw [Host.claimed, Host.claimed, List.map_append, List.map_singleton, ← List.append_assoc]
  exact List.perm_append_singleton port _

theorem lock_openForward {guestPort : ℕ} (ht : openForward s machine port guestPort = some t) :
    t.lock = s.lock := by
  unfold openForward at ht
  split_ifs at ht
  exact Option.some.inj ht ▸ rfl

/-! ## What a command does -/

/-- A process issues the command, and it ends in some way. -/
def does (low high pid : ℕ) : Machine Answer Host := fun c s r t =>
  ∃ how, ending low high pid how c s = some (r, t)

/-- **What a command can do**: nothing, or what it does where it succeeds. -/
theorem does_cases {c : Cmd} {r : Option (Answer c)} (h : does low high pid c s r t) :
    (r = none ∧ t = s ∧ c ≠ .close) ∨
      ∃ a, obey low high pid c s = some (a, t) ∧ (r = some a ∨ r = none ∧ c ≠ .flock ∧ c ≠ .close) := by
  obtain ⟨how, h⟩ := h
  cases how with
  | done =>
    obtain ⟨⟨a, u⟩, ha, hu⟩ := Option.map_eq_some_iff.mp h
    cases hu
    exact .inr ⟨a, ha, .inl rfl⟩
  | failed =>
    unfold ending at h
    simp only at h
    split_ifs at h with hclose
    cases h
    exact .inl ⟨rfl, rfl, hclose⟩
  | failedLate =>
    unfold ending at h
    simp only at h
    split_ifs at h with hc
    obtain ⟨⟨a, u⟩, ha, hu⟩ := Option.map_eq_some_iff.mp h
    cases hu
    exact .inr ⟨a, ha, .inr ⟨rfl, not_or.mp hc⟩⟩

/-- A command that is issued without the lock, and does not take it. -/
def Cmd.isFree : Cmd → Bool
  | .flock | .close | .writeXml _ _ | .define _ | .forward _ _ _ => false
  | _ => true

theorem obey_free {c : Cmd} {a : Answer c} (hc : c.isFree = true) (h : obey low high pid c s = some (a, t)) :
    t.lock = s.lock ∧ Shrinks s t := by
  cases c with
  | flock | close | writeXml _ _ | define _ | forward _ _ _ => cases hc
  | list | readPortRange | probe _ | vmAccount | makeInstancesDir | ensureMaster _ | shutdown _ =>
    cases h
    exact ⟨rfl, .refl s⟩
  | dumpxml name =>
    obtain ⟨d, -, hd⟩ := Option.map_eq_some_iff.mp h
    cases hd
    exact ⟨rfl, .refl s⟩
  | start machine =>
    obtain ⟨u, hu, hut⟩ := Option.map_eq_some_iff.mp h
    cases hut
    unfold startDomain at hu
    split at hu
    · split_ifs at hu
      cases hu
      exact ⟨rfl, shrinks_change (keeps_started _)⟩
    · cases hu
  | undefine machine =>
    obtain ⟨u, hu, hut⟩ := Option.map_eq_some_iff.mp h
    cases hut
    unfold undefineDomain at hu
    split at hu
    · split_ifs at hu
      cases hu
      exact ⟨rfl, shrinks_change (keeps_undefined _)⟩
    · cases hu
  | exitMaster machine =>
    cases h
    exact ⟨rfl, shrinks_closeForwards s machine⟩

/-- A command that changes nothing. -/
def Cmd.reads : Cmd → Bool
  | .list | .dumpxml _ | .readPortRange | .probe _ => true
  | _ => false

theorem obey_reads {c : Cmd} {a : Answer c} (hc : c.reads = true) (h : obey low high pid c s = some (a, t)) :
    t = s := by
  cases c with
  | list | readPortRange | probe _ =>
    cases h
    rfl
  | dumpxml name =>
    obtain ⟨d, -, hd⟩ := Option.map_eq_some_iff.mp h
    cases hd
    rfl
  | _ => cases hc

/-! ## Side by side -/

/-- Who holds the lock keeps it, and meanwhile nothing is claimed anew. -/
def Relies (pid : ℕ) (s t : Host) : Prop := s.lock = some pid → t.lock = some pid ∧ Shrinks s t

instance : IsPreorder Host (Relies pid) where
  refl s hs := ⟨hs, .refl s⟩
  trans s t u hst htu hs := by
    obtain ⟨ht, hshrinks⟩ := hst hs
    obtain ⟨hu, hshrinks'⟩ := htu ht
    exact ⟨hu, hshrinks.trans hshrinks'⟩

theorem relies_of_shrinks (hlock : t.lock = s.lock) (hst : Shrinks s t) (pid : ℕ) : Relies pid s t :=
  fun hs => ⟨hlock.trans hs, hst⟩

/-- Under the lock a process may do anything. -/
theorem others_of_locked (hs : s.lock = some pid) (t : Host) : others Relies pid s t :=
  fun _ hj hlock => absurd (Option.some.inj (hlock.symm.trans hs)) hj

/-- What still holds where claims have gone. -/
def Stable (P : Host → Prop) : Prop := ∀ s t, P s → Shrinks s t → P t

/-- The process holds the lock, and so may know more. -/
def Held (pid : ℕ) (P : Host → Prop) (h : Host) : Prop := h.lock = some pid ∧ P h

/-- The process holds the lock. -/
abbrev Locked (pid : ℕ) : Host → Prop := Held pid fun _ => True

/-- Each domain is such. -/
def Every (P : PyStr → DomainXml → Prop) (h : Host) : Prop := ∀ d ∈ h.domains, P d.name d.xml

section

variable {P : Host → Prop} {α : Type}

theorem Held.relies (hP : Stable P) (s t : Host) (hs : Held pid P s) (hst : Relies pid s t) : Held pid P t :=
  ⟨(hst hs.1).1, hP s t hs.2 (hst hs.1).2⟩

theorem Held.locked (hs : Held pid P s) : Locked pid s := ⟨hs.1, trivial⟩

theorem stable_true : Stable fun _ => True := fun _ _ _ _ => trivial

theorem stable_free (high port : ℕ) : Stable (Free high port) := fun _ _ hs hst =>
  ⟨hs.1, fun hport => hs.2 (hst.claimed.subset hport)⟩

theorem stable_every (P : PyStr → DomainXml → Prop) : Stable (Every P) := by
  intro s t hs hst d hd
  obtain ⟨e, he, hname, hxml⟩ := hst.domains d hd
  rw [← hname, ← hxml]
  exact hs e he

theorem Stable.and {Q : Host → Prop} (hP : Stable P) (hQ : Stable Q) : Stable fun h => P h ∧ Q h :=
  fun s t hs hst => ⟨hP s t hs.1 hst, hQ s t hs.2 hst⟩

theorem Stable.imp {p : Prop} (hP : Stable P) : Stable fun h => p → P h :=
  fun s t hs hst hp => hP s t (hs hp) hst

/-- The script runs well amid the other processes, each of which may hold the lock. -/
abbrev Runs (low high pid : ℕ) (p : Py α) (Q : α → Host → Prop) (E : Host → Prop) (s : Host) : Prop :=
  p.Under (does low high pid) (Host.Sound high) (Relies pid) (others Relies pid) Q (fun _ => E) s

/-- It does so under the lock, which it keeps. -/
abbrev RunsLocked (low high pid : ℕ) (p : Py α) (Q : α → Host → Prop) (s : Host) : Prop :=
  Runs low high pid p (fun a => Held pid (Q a)) (Locked pid) s

theorem runsLocked_ret {a : α} {Q : α → Host → Prop} (hQ : Stable (Q a)) (hs : Held pid (Q a) s) :
    RunsLocked low high pid (.ret a : Py α) Q s :=
  fun t hst => hs.relies hQ s t hst

theorem runsLocked_throw {e : YoError} {Q : α → Host → Prop} (hs : Locked pid s) :
    RunsLocked low high pid (.throw e : Py α) Q s :=
  fun t hst => hs.relies stable_true s t hst

/-- A command that is issued under the lock. -/
theorem runsLocked_py {c : Cmd} {Q : Answer c → Host → Prop} (hP : Stable P) (hQ : ∀ a, Stable (Q a))
    (hs : Held pid P s)
    (hobey : ∀ t a u, P t → t.Sound high → obey low high pid c t = some (a, u) →
      u.lock = t.lock ∧ u.Sound high ∧ Q a u) :
    RunsLocked low high pid (py c) Q s := by
  refine under_cmd hs (Held.relies hP) (fun a => Held.relies (hQ a)) (Held.relies stable_true) ?_ ?_ ?_
  · intro t ht hsound r u hdoes
    refine ⟨others_of_locked ht.1 u, ?_⟩
    rcases does_cases hdoes with ⟨-, rfl, -⟩ | ⟨a, ha, -⟩
    · exact hsound
    · exact (hobey t a u ht.2 hsound ha).2.1
  · intro t ht hsound a u hdoes
    rcases does_cases hdoes with ⟨hnone, -⟩ | ⟨b, hb, hsome | ⟨hnone, -⟩⟩
    · cases hnone
    · cases hsome
      obtain ⟨hlock, -, hQ⟩ := hobey t a u ht.2 hsound hb
      exact ⟨hlock.trans ht.1, hQ⟩
    · cases hnone
  · intro t ht hsound u hdoes
    rcases does_cases hdoes with ⟨-, rfl, -⟩ | ⟨a, ha, -⟩
    · exact ht.locked
    · exact ⟨(hobey t a u ht.2 hsound ha).1.trans ht.1, trivial⟩

/-- A look at the host. -/
theorem runsLocked_look {c : Cmd} {Q : Answer c → Host → Prop} (hc : c.reads = true) (hP : Stable P)
    (hQ : ∀ a, Stable (Q a)) (hs : Held pid P s)
    (hlook : ∀ t a, P t → t.Sound high → obey low high pid c t = some (a, t) → Q a t) :
    RunsLocked low high pid (py c) Q s := by
  refine runsLocked_py hP hQ hs fun t a u ht hsound ha => ?_
  obtain rfl := obey_reads hc ha
  exact ⟨rfl, hsound, hlook u a ht hsound ha⟩

/-- A look that may fail. -/
theorem runsLocked_attempt {c : Cmd} {Q : Option (Answer c) → Host → Prop} (hc : c.reads = true)
    (hP : Stable P) (hQ : ∀ r, Stable (Q r)) (hs : Held pid P s)
    (hsome : ∀ t a, P t → t.Sound high → obey low high pid c t = some (a, t) → Q (some a) t)
    (hnone : ∀ t, P t → Q none t) : RunsLocked low high pid (Script.attempt c) Q s := by
  refine under_exec hs (Held.relies hP) fun t ht hsound r u hdoes => ?_
  rcases does_cases hdoes with ⟨rfl, rfl, -⟩ | ⟨a, ha, hr⟩
  · exact ⟨others_of_locked ht.1 u, hsound, runsLocked_ret (hQ none) ⟨ht.1, hnone u ht.2⟩⟩
  · obtain rfl := obey_reads hc ha
    refine ⟨others_of_locked ht.1 u, hsound, runsLocked_ret (hQ r) ⟨ht.1, ?_⟩⟩
    rcases hr with rfl | ⟨rfl, -⟩
    · exact hsome u a ht.2 hsound ha
    · exact hnone u ht.2

end

/-! ## What is found under the lock -/

section

variable {P : PyStr → DomainXml → Prop} {name : PyStr} {names : List PyStr} {taken window : List ℕ}

theorem list_runs (hs : Held pid (Every P) s) : RunsLocked low high pid (py .list)
    (fun names => Every fun name xml => P name xml ∧ name ∈ names) s := by
  refine runsLocked_look rfl (stable_every P) (fun _ => stable_every _) hs ?_
  intro t a ht _ hanswer d hd
  cases hanswer
  exact ⟨ht d hd, List.mem_map_of_mem hd⟩

theorem raiseUnlessUndefined_runs (hs : Held pid (Every P) s) :
    RunsLocked low high pid (raiseUnlessUndefined name)
      (fun _ => Every fun other xml => P other xml ∧ other ≠ name) s := by
  refine (list_runs hs).bind fun names t ht => ?_
  split_ifs with hmem
  · exact runsLocked_throw ht.locked
  · refine runsLocked_ret (stable_every _) ⟨ht.1, fun d hd => ⟨(ht.2 d hd).1, ?_⟩⟩
    rintro rfl
    exact hmem (ht.2 d hd).2

/-- A domain that was listed is dumped, or gone. -/
theorem dumped_runs (hs : Held pid (Every P) s) :
    RunsLocked low high pid (do let dump ← Script.attempt (.dumpxml name); rootOf name dump)
      (fun here => Every fun other xml => P other xml ∧ (other = name → xml ∈ here)) s := by
  have hattempt : RunsLocked low high pid (Script.attempt (.dumpxml name))
      (fun dump => Every fun other xml => P other xml ∧ (other = name → ∀ root ∈ dump, xml = root)) s := by
    refine runsLocked_attempt rfl (stable_every P) (fun _ => stable_every _) hs ?_ ?_
    · intro t root ht hsound hanswer d hd
      refine ⟨ht d hd, fun hname root' hroot => ?_⟩
      obtain ⟨e, hfind, he⟩ := Option.map_eq_some_iff.mp hanswer
      have hename : e.name = name := by simpa using List.find?_some hfind
      have hde := List.inj_on_of_nodup_map hsound.names hd (List.mem_of_find?_eq_some hfind)
        (hname.trans hename.symm)
      rw [hde, ← Option.some.inj hroot]
      exact (Prod.mk.inj he).1
    · intro t ht d hd
      exact ⟨ht d hd, nofun⟩
  refine hattempt.bind fun dump t ht => ?_
  cases dump with
  | some root =>
    refine runsLocked_ret (stable_every _) ⟨ht.1, fun d hd => ⟨(ht.2 d hd).1, fun hname => ?_⟩⟩
    exact List.mem_singleton.mpr ((ht.2 d hd).2 hname root rfl)
  | none =>
    refine (raiseUnlessUndefined_runs ht).bind fun _ u hu => ?_
    refine runsLocked_ret (stable_every _) ⟨hu.1, fun d hd => ⟨(hu.2 d hd).1.1, fun hname => ?_⟩⟩
    exact absurd hname (hu.2 d hd).2

/-- **Every domain that is still there is among the roots.** -/
theorem roots_runs (hs : Held pid (Every fun name xml => name ∈ names ∨ P name xml) s) :
    RunsLocked low high pid (roots names) (fun all => Every fun name xml => xml ∈ all ∨ P name xml) s := by
  induction names generalizing P s with
  | nil =>
    refine runsLocked_ret (stable_every _) ⟨hs.1, fun d hd => ?_⟩
    exact .inr ((hs.2 d hd).resolve_left List.not_mem_nil)
  | cons name names ih =>
    refine (dumped_runs hs).bind fun here t ht => ?_
    have hrest : Held pid (Every fun other xml => other ∈ names ∨ (xml ∈ here ∨ P other xml)) t := by
      refine ⟨ht.1, fun d hd => ?_⟩
      obtain ⟨hlisted | hP, hhere⟩ := ht.2 d hd
      · rcases List.mem_cons.mp hlisted with hname | hmem
        · exact .inr (.inl (hhere hname))
        · exact .inl hmem
      · exact .inr (.inr hP)
    refine (ih hrest).bind fun more u hu => runsLocked_ret (stable_every _) ⟨hu.1, fun d hd => ?_⟩
    rcases hu.2 d hd with hmore | hhere | hP
    · exact .inl (List.mem_append_right here hmore)
    · exact .inl (List.mem_append_left more hhere)
    · exact .inr hP

/-- Every defined box is among the domains found. -/
theorem yoloboxDomains_runs (hs : Locked pid s) : RunsLocked low high pid yoloboxDomains
    (fun found => Every fun _ xml => xml.marker.isSome = true → xml ∈ found) s := by
  have hany : Held pid (Every fun _ _ => True) s := ⟨hs.1, fun _ _ => trivial⟩
  refine (list_runs hany).bind fun names t ht => ?_
  have hlisted : Held pid (Every fun name _ => name ∈ names ∨ False) t :=
    ⟨ht.1, fun d hd => .inl (ht.2 d hd).2⟩
  refine (roots_runs hlisted).bind fun all u hu => runsLocked_ret (stable_every _) ⟨hu.1, ?_⟩
  intro d hd hmarked
  exact List.mem_filter.mpr ⟨(hu.2 d hd).resolve_right id, hmarked⟩

theorem readPortWindow_runs (hs : Held pid (Every P) s) : RunsLocked low high pid readPortWindow
    (fun window h => Every P h ∧ ∀ port ∈ window, high < port) s := by
  have hread : RunsLocked low high pid (py .readPortRange)
      (fun text h => Every P h ∧ text = portRangeText low high) s := by
    refine runsLocked_look rfl (stable_every P)
      (fun text => (stable_every P).and fun _ _ htext _ => htext) hs ?_
    intro t text ht _ hanswer
    exact ⟨ht, (Prod.mk.inj (Option.some.inj hanswer)).1.symm⟩
  refine hread.bind fun text t ht => ?_
  obtain ⟨hlock, hP, rfl⟩ := ht
  cases hwindow : hostPortWindow (portRangeText low high) with
  | ok window =>
    exact runsLocked_ret ((stable_every P).and fun _ _ habove _ => habove)
      ⟨hlock, hP, hostPortWindow_above hwindow⟩
  | error e => exact runsLocked_throw ⟨hlock, trivial⟩

/-- The port chosen belongs to no box and is bound by no forward. -/
theorem not_claimed (hs : Every (fun _ xml => xml.marker.isSome = true → ∀ port ∈ xml.forwardPorts, port ∈ taken) s)
    (htaken : port ∉ taken) (hbound : s.bound port = false) : port ∉ s.claimed := by
  rw [mem_claimed]
  rintro (⟨d, hd, hclaims⟩ | ⟨f, hf, rfl⟩)
  · obtain ⟨hmarked, hport⟩ := claims_eq_some hclaims
    exact htaken (hs d hd hmarked port hport)
  · rw [Host.bound, Bool.or_eq_false_iff] at hbound
    exact List.any_eq_false.mp hbound.2 f hf (beq_self_eq_true f.port)

theorem lowestFreePort_runs (hwindow : ∀ port ∈ window, high < port)
    (hs : Held pid (Every fun _ xml => xml.marker.isSome = true → ∀ port ∈ xml.forwardPorts, port ∈ taken) s) :
    RunsLocked low high pid (lowestFreePort taken window) (Free high) s := by
  induction window generalizing s with
  | nil => exact runsLocked_throw hs.locked
  | cons port window ih =>
    have hrest : ∀ port ∈ window, high < port := fun p hp => hwindow p (List.mem_cons_of_mem port hp)
    unfold lowestFreePort
    split_ifs with htaken
    · exact ih hrest hs
    · have hprobe : RunsLocked low high pid (py (.probe port))
          (fun isBound h => Every (fun _ xml => xml.marker.isSome = true → ∀ p ∈ xml.forwardPorts, p ∈ taken) h ∧
            (isBound = false → Free high port h)) s := by
        refine runsLocked_look rfl (stable_every _)
          (fun isBound => (stable_every _).and (stable_free high port).imp) hs ?_
        intro t isBound ht _ hanswer
        refine ⟨ht, fun hbound => ⟨hwindow port List.mem_cons_self, not_claimed ht htaken ?_⟩⟩
        rw [← hbound]
        exact (Prod.mk.inj (Option.some.inj hanswer)).1
      refine hprobe.bind fun isBound t ht => ?_
      obtain ⟨hlock, hfound, hfree⟩ := ht
      cases isBound with
      | true => exact ih hrest ⟨hlock, hfound⟩
      | false => exact runsLocked_ret (stable_free high port) ⟨hlock, hfree rfl⟩

/-- **The port that is allocated is free**, as long as the lock is held. -/
theorem allocateHostPort_runs (hs : Locked pid s) :
    RunsLocked low high pid allocateHostPort (Free high) s := by
  refine (yoloboxDomains_runs hs).bind fun found t ht => ?_
  refine (readPortWindow_runs ht).bind fun window u hu => ?_
  obtain ⟨hlock, hfound, hwindow⟩ := hu
  refine lowestFreePort_runs hwindow ⟨hlock, fun d hd hmarked port hport => ?_⟩
  exact List.mem_flatMap.mpr ⟨d.xml, hfound d hd hmarked, hport⟩

end

/-! ## The jobs -/

section

variable {α : Type}

/-- The script runs well wherever it starts. -/
abbrev RunsAlone (low high pid : ℕ) (p : Py α) (s : Host) : Prop :=
  Runs low high pid p (fun _ _ => True) (fun _ => True) s

theorem free_runs {c : Cmd} (hc : c.isFree = true) (s : Host) : RunsAlone low high pid (py c) s := by
  refine under_cmd (A := fun _ => True) trivial (fun _ _ _ _ => trivial) (fun _ _ _ _ _ => trivial)
    (fun _ _ _ _ => trivial) ?_ (fun _ _ _ _ _ _ => trivial) (fun _ _ _ _ _ => trivial)
  intro t _ hsound r u hdoes
  rcases does_cases hdoes with ⟨-, rfl, -⟩ | ⟨a, ha, -⟩
  · exact ⟨fun j _ => refl u, hsound⟩
  · obtain ⟨hlock, hshrinks⟩ := obey_free hc ha
    exact ⟨fun j _ => relies_of_shrinks hlock hshrinks j, hshrinks.sound hsound⟩

theorem flock_cases {r : Option Unit} (h : does low high pid .flock s r t) :
    (r = none ∧ t = s) ∨ s.lock = none ∧ t = { s with lock := some pid } := by
  rcases does_cases h with ⟨rfl, rfl, -⟩ | ⟨a, ha, -⟩
  · exact .inl ⟨rfl, rfl⟩
  · unfold obey at ha
    simp only at ha
    split_ifs at ha with hlock
    cases ha
    exact .inr ⟨hlock, rfl⟩

theorem flock_runs (s : Host) :
    Runs low high pid (py .flock) (fun _ => Locked pid) (fun _ => True) s := by
  refine under_cmd (A := fun _ => True) trivial (fun _ _ _ _ => trivial)
    (fun _ => Held.relies stable_true) (fun _ _ _ _ => trivial) ?_ ?_ (fun _ _ _ _ _ => trivial)
  · intro t _ hsound r u hdoes
    rcases flock_cases hdoes with ⟨-, rfl⟩ | ⟨hlock, rfl⟩
    · exact ⟨fun j _ => refl u, hsound⟩
    · refine ⟨fun j _ hj => ?_, hsound.names, hsound.claimed, hsound.above⟩
      rw [hlock] at hj
      cases hj
  · intro t _ _ r u hdoes
    rcases flock_cases hdoes with ⟨hnone, -⟩ | ⟨-, rfl⟩
    · cases hnone
    · exact ⟨rfl, trivial⟩

theorem close_runs (hs : Locked pid s) : RunsAlone low high pid (py .close) s := by
  refine under_cmd hs (Held.relies stable_true) (fun _ _ _ _ _ => trivial) (fun _ _ _ _ => trivial)
    ?_ (fun _ _ _ _ _ _ => trivial) (fun _ _ _ _ _ => trivial)
  intro t ht hsound r u hdoes
  refine ⟨others_of_locked ht.1 u, ?_⟩
  rcases does_cases hdoes with ⟨-, rfl, -⟩ | ⟨a, ha, -⟩
  · exact hsound
  · cases ha
    exact ⟨hsound.names, hsound.claimed, hsound.above⟩

/-- **The lock is held over the body**, however it ends. -/
theorem portLock_runs {body : Py α} {Q : α → Host → Prop}
    (hbody : ∀ t, Locked pid t → RunsLocked low high pid body Q t) (s : Host) :
    RunsAlone low high pid (portLock body) s := by
  refine (free_runs rfl s).bind fun _ t _ => ?_
  refine (flock_runs t).bind fun _ u hu => ?_
  have hended : Runs low high pid body.caught (fun _ => Locked pid) (fun _ => True) u :=
    Under.caught ((hbody u hu).mono (fun _ _ hv => hv.locked) fun _ _ hv => hv)
  refine hended.bind fun ended v hv => ?_
  refine (close_runs hv).bind fun _ w _ => ?_
  cases ended with
  | ok a => exact fun _ _ => trivial
  | error e => exact fun _ _ => trivial

theorem stable_xmlFile (machine : PyStr) (xml : DomainXml) : Stable fun h => h.xmlFile machine = some xml :=
  fun _ _ hs hst => (congrFun hst.xmlFile machine).trans hs

theorem writeXml_runs (hs : Held pid (Free high port) s) :
    RunsLocked low high pid (py (.writeXml machine (domainXml machine port)))
      (fun _ h => Free high port h ∧ h.xmlFile machine = some (domainXml machine port)) s := by
  refine runsLocked_py (stable_free high port)
    (fun _ => (stable_free high port).and (stable_xmlFile machine _)) hs ?_
  intro t a u ht hsound hobey
  cases hobey
  exact ⟨rfl, ⟨hsound.names, hsound.claimed, hsound.above⟩, ht, Function.update_self ..⟩

theorem createDomain_runs (machine : PyStr) (s : Host) :
    RunsAlone low high pid (createDomain machine) s := by
  refine (free_runs rfl s).bind fun _ t _ => portLock_runs (Q := fun _ _ => True) (fun u hu => ?_) t
  refine (allocateHostPort_runs hu).bind fun port v hv => ?_
  refine (writeXml_runs hv).bind fun _ w hw => ?_
  have hdefine : RunsLocked low high pid (py (.define machine)) (fun _ _ => True) w := by
    refine runsLocked_py ((stable_free high port).and (stable_xmlFile machine _))
      (fun _ => stable_true) hw ?_
    intro t a u ht hsound hobey
    obtain ⟨x, hx, hxu⟩ := Option.map_eq_some_iff.mp hobey
    cases hxu
    exact ⟨lock_defineDomain hx, defineDomain_sound hsound ht.1 ht.2 hx, trivial⟩
  exact hdefine.bind fun _ _ hx => runsLocked_ret (Q := fun _ _ => True) stable_true hx

theorem forwardPort_runs (machine : PyStr) (guestPort : ℕ) (s : Host) :
    RunsAlone low high pid (forwardPort machine guestPort) s := by
  refine (free_runs rfl s).bind fun _ t _ => portLock_runs (Q := fun _ _ => True) (fun u hu => ?_) t
  refine (allocateHostPort_runs hu).bind fun port v hv => ?_
  have hforward : RunsLocked low high pid (py (.forward machine port guestPort)) (fun _ _ => True) v := by
    refine runsLocked_py (stable_free high port) (fun _ => stable_true) hv ?_
    intro t a u ht hsound hobey
    obtain ⟨x, hx, hxu⟩ := Option.map_eq_some_iff.mp hobey
    cases hxu
    exact ⟨lock_openForward hx, openForward_sound hsound ht hx, trivial⟩
  exact hforward.bind fun _ _ hx => runsLocked_ret (Q := fun _ _ => True) stable_true hx

theorem job_runs (job : Job) (s : Host) : RunsAlone low high pid job.script s := by
  cases job with
  | createDomain machine => exact (createDomain_runs machine s).bind fun _ _ _ _ _ => trivial
  | forwardPort machine guestPort =>
    exact (forwardPort_runs machine guestPort s).bind fun _ _ _ _ _ => trivial
  | start machine | stop machine | undefine machine | closeMaster machine => exact free_runs rfl s

end

/-! ## Every run -/

/-- No process runs yet. -/
def Sys.idle (host : Host) : Sys := ⟨host, fun _ => .ret ()⟩

/-- The host is sound, and every process runs well. -/
def Sys.Sound (low high : ℕ) (x : Sys) : Prop :=
  x.host.Sound high ∧ AllUnder (does low high) (Host.Sound high) Relies (fun _ _ => True) (fun _ _ => True)
    x.process x.host

theorem launch_eq {x y : Sys} {job : Job} {p : Py Unit} (h : launch x pid job p = some y) :
    y = x.proceed pid job.script x.host := by
  cases p with
  | exec c k => cases h
  | ret a | throw e => exact (Option.some.inj h).symm

theorem runNext_cases {x y : Sys} {how : How} {p : Py Unit} (h : runNext low high x pid how p = some y) :
    ∃ c k r t, p = .exec c k ∧ ending low high pid how c x.host = some (r, t) ∧ y = x.proceed pid (k r) t := by
  cases p with
  | exec c k =>
    obtain ⟨⟨r, t⟩, hending, hy⟩ := Option.map_eq_some_iff.mp h
    exact ⟨c, k, r, t, rfl, hending, hy.symm⟩
  | ret a | throw e => cases h

theorem step_sound {x y : Sys} {a : Action} (hx : x.Sound low high) (h : step low high x a = some y) :
    y.Sound low high := by
  obtain ⟨hhost, hall⟩ := hx
  cases a with
  | launch pid job =>
    rw [launch_eq h]
    exact ⟨hhost, hall.start (job_runs job x.host)⟩
  | run pid how =>
    obtain ⟨c, k, r, t, hp, hending, rfl⟩ := runNext_cases h
    exact hall.step hp hhost ⟨how, hending⟩
  | goesOff name =>
    cases h
    have hshrinks : Shrinks x.host (x.host.change (Domain.off name)) := shrinks_change (keeps_off name)
    exact ⟨hshrinks.sound hhost, hall.interfered (relies_of_shrinks rfl hshrinks)⟩
  | masterDies machine =>
    cases h
    have hshrinks := shrinks_closeForwards x.host machine
    exact ⟨hshrinks.sound hhost, hall.interfered (relies_of_shrinks rfl hshrinks)⟩

theorem reaches_sound {host : Host} {x : Sys} (hhost : host.Sound high)
    (hx : Reaches (step low high) anyStep (.idle host) x) : x.Sound low high :=
  hx.invariant ⟨hhost, fun _ _ _ => trivial⟩ fun _ _ _ hs _ => step_sound hs

/-- **No two claims are of one port**, in any order of steps: from a host where the ports are
apart, those of the defined boxes and of the live forwards are apart in every state reached,
and each lies above the ephemeral range. -/
theorem claimed_ports_apart {host : Host} {x : Sys} (hhost : host.Sound high)
    (hx : Reaches (step low high) anyStep (.idle host) x) :
    x.host.claimed.Nodup ∧ ∀ port ∈ x.host.claimed, high < port :=
  ⟨(reaches_sound hhost hx).1.claimed, (reaches_sound hhost hx).1.above⟩

/-- Two boxes, the first of which runs, and a forward to the second. -/
def sampleHost : Host where
  domains := [⟨vmName (lit "a"), domainXml (lit "a") 61000, true, true⟩,
    ⟨vmName (lit "b"), domainXml (lit "b") 61001, true, false⟩]
  forwards := [⟨lit "b", 61002, 8080⟩]
  xmlFile _ := none
  lock := none

theorem claimed_ports_apart_sample : ∃ x,
    run (step 32768 60999) (.idle sampleHost) [.launch 7 (.createDomain (lit "c")), .run 7 .done,
      .launch 8 (.undefine (lit "a")), .run 7 .done, .run 7 .done, .run 8 .failedLate] = some x ∧
    x.host.lock = some 7 ∧ x.host.claimed.Nodup ∧ ∀ port ∈ x.host.claimed, 60999 < port := by
  have hsample : sampleHost.Sound 60999 := by constructor <;> decide
  have hfirst : Reaches (step 32768 60999) anyStep (.idle sampleHost) _ :=
    .tail (a := .launch 7 (.createDomain (lit "c"))) .refl trivial rfl
  have hsecond := hfirst.tail (a := .run 7 .done) trivial rfl
  have hthird := hsecond.tail (a := .launch 8 (.undefine (lit "a"))) trivial rfl
  have hfourth := hthird.tail (a := .run 7 .done) trivial rfl
  have hlocked := hfourth.tail (a := .run 7 .done) trivial rfl
  have hlast := hlocked.tail (a := .run 8 .failedLate) trivial rfl
  exact ⟨_, rfl, rfl, claimed_ports_apart hsample hlast⟩

end Ports
