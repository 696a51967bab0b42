/-
# Which port is chosen

`allocate_host_port` on a host where nothing else happens: of the ports of the window it
takes the lowest one that is unbound and that no range of a yolobox domain starts at.
A range with an end holds more ports than the one it starts at, and these are found free
while the domain is off (`allocate_iff`).
-/
import Yolobox.Lib.Lists
import Yolobox.Libvirt.Ports

namespace Ports

/-- A host that stands still: the defined domains, the kernel's port range and the ports of
127.0.0.1 that something is bound to. -/
structure Still where
  domains : List (PyStr × DomainXml)
  names_nodup : (domains.map Prod.fst).Nodup
  rangeText : PyStr
  bound : ℕ → Bool

namespace Still

def answer (h : Still) : (c : Cmd) → Option (Answer c)
  | .list => some (h.domains.map Prod.fst)
  | .dumpxml name => h.domains.lookup name
  | .readPortRange => some h.rangeText
  | .probe port => some (h.bound port)
  | .vmAccount | .makeInstancesDir | .flock | .close | .writeXml _ _ | .define _ | .ensureMaster _
  | .forward _ _ _ | .start _ | .shutdown _ | .undefine _ | .exitMaster _ => some ()

def handle (h : Still) (c : Cmd) (s : Unit) : Option (Answer c) × Unit := (h.answer c, s)

/-- What `allocate_host_port` comes to. -/
def allocate (h : Still) : Except YoError ℕ := (allocateHostPort.interp h.handle ()).1

/-- The domains that carry yolobox's metadata. -/
def yolobox (h : Still) : List DomainXml :=
  (h.domains.map Prod.snd).filter fun xml => xml.marker.isSome

/-- The host ports that the listing counts as taken. -/
def taken (h : Still) : List ℕ := h.yolobox.flatMap (·.forwardPorts)

variable {h : Still} {window : List ℕ} {port : ℕ}

/-! ## The answer -/

theorem lookup_of_mem {domains : List (PyStr × DomainXml)} (hnodup : (domains.map Prod.fst).Nodup)
    {domain : PyStr × DomainXml} (hmem : domain ∈ domains) :
    domains.lookup domain.1 = some domain.2 := by
  induction domains with
  | nil => exact absurd hmem List.not_mem_nil
  | cons first rest ih =>
    rw [List.map_cons, List.nodup_cons] at hnodup
    rw [List.lookup_cons]
    rcases List.mem_cons.mp hmem with rfl | hmem
    · rw [beq_self_eq_true]
    · have hne : (domain.1 == first.1) = false := by
        rw [beq_eq_false_iff_ne]
        rintro heq
        exact hnodup.1 (heq ▸ List.mem_map_of_mem hmem)
      rw [hne]
      exact ih hnodup.2 hmem

theorem interp_roots {domains : List (PyStr × DomainXml)} (hdomains : ∀ d ∈ domains, d ∈ h.domains) :
    (roots (domains.map Prod.fst)).interp h.handle () = (.ok (domains.map Prod.snd), ()) := by
  induction domains with
  | nil => rfl
  | cons domain domains ih =>
    rw [List.forall_mem_cons] at hdomains
    have hlookup : h.handle (.dumpxml domain.1) () = (some domain.2, ()) := by
      rw [handle, answer, lookup_of_mem h.names_nodup hdomains.1]
    rw [List.map_cons, roots]
    show ((rootOf domain.1 (h.handle (.dumpxml domain.1) ()).1).bind fun here =>
      (roots (domains.map Prod.fst)).bind fun more => .ret (here ++ more)).interp h.handle () = _
    rw [hlookup, rootOf, Script.ret_bind, Script.interp_bind, ih hdomains.2]
    rfl

theorem interp_yoloboxDomains : yoloboxDomains.interp h.handle () = (.ok h.yolobox, ()) := by
  show ((roots (h.domains.map Prod.fst)).bind fun all =>
    .ret (all.filter fun xml => xml.marker.isSome)).interp h.handle () = _
  rw [Script.interp_bind, interp_roots fun _ hd => hd]
  rfl

/-- A port that the scan takes. -/
def accepts (h : Still) (port : ℕ) : Bool := decide (port ∉ h.taken) && !h.bound port

/-- What a search that found nothing raises. -/
def found : Option ℕ → Except YoError ℕ
  | some port => .ok port
  | none => .error .noFreePort

/-- **The scan takes the first port that it accepts.** -/
theorem interp_lowestFreePort :
    (lowestFreePort h.taken window).interp h.handle () = (found (window.find? h.accepts), ()) := by
  induction window with
  | nil => rfl
  | cons port ports ih =>
    rw [lowestFreePort, List.find?_cons, accepts]
    by_cases htaken : port ∈ h.taken
    · rw [if_pos htaken, ih, decide_eq_false (not_not.mpr htaken)]
      rfl
    · rw [if_neg htaken, decide_eq_true htaken]
      show (if h.bound port then lowestFreePort h.taken ports else .ret port).interp h.handle () = _
      cases h.bound port with
      | true => exact ih
      | false => rfl

theorem allocate_eq (hwindow : hostPortWindow h.rangeText = .ok window) :
    h.allocate = found (window.find? h.accepts) := by
  have hread : readPortWindow.interp h.handle () = (.ok window, ()) := by
    have hrange : (py .readPortRange).interp h.handle () = (.ok h.rangeText, ()) := rfl
    rw [readPortWindow, Script.bind_eq, Script.interp_bind, hrange]
    simp only [hwindow]
    rfl
  show (allocateHostPort.interp h.handle ()).1 = _
  unfold allocateHostPort
  rw [Script.bind_eq, Script.interp_bind, interp_yoloboxDomains]
  show ((readPortWindow.bind fun window => lowestFreePort h.taken window).interp h.handle ()).1 = _
  rw [Script.interp_bind, hread]
  show ((lowestFreePort h.taken window).interp h.handle ()).1 = _
  rw [interp_lowestFreePort]

/-! ## The window -/

theorem pairwise_window (hwindow : hostPortWindow h.rangeText = .ok window) :
    window.Pairwise (· < ·) := by
  unfold hostPortWindow at hwindow
  split at hwindow
  · split_ifs at hwindow
    unfold windowAfter at hwindow
    simp only at hwindow
    split_ifs at hwindow
    rw [← Except.ok.inj hwindow]
    exact List.pairwise_lt_range'
  · cases hwindow

/-! ## The ports that are free -/

/-- Some yolobox domain forwards the port. -/
def forwards (h : Still) (port : ℕ) : Prop := ∃ xml ∈ h.yolobox, ∃ range ∈ xml.ranges, range.holds port

/-- A port of the window that nothing is bound to and no yolobox domain forwards. -/
def Free (h : Still) (window : List ℕ) (port : ℕ) : Prop :=
  port ∈ window ∧ h.bound port = false ∧ ¬h.forwards port

/-- The lowest free port is returned, and where there is none that is said. -/
def Chooses (h : Still) (window : List ℕ) : Except YoError ℕ → Prop
  | .ok port => h.Free window port ∧ ∀ other, h.Free window other → port ≤ other
  | .error e => e = .noFreePort ∧ ∀ port, ¬h.Free window port

/-- An unbound port of the window within a range that starts below it. -/
def Hidden (h : Still) (window : List ℕ) (port : ℕ) : Prop :=
  port ∈ window ∧ h.bound port = false ∧ h.forwards port ∧
    ∀ xml ∈ h.yolobox, ∀ range ∈ xml.ranges, range.start ≠ port

theorem holds_start (range : PortRange) : range.holds range.start := by
  unfold PortRange.holds
  cases hstop : range.stop with
  | none => simp
  | some last => simpa using range.start_le last hstop

/-- A domain of the template forwards its one port. -/
theorem holds_domainXml {machine : PyStr} {start : ℕ} :
    (∃ range ∈ (domainXml machine start).ranges, range.holds port) ↔ port = start := by
  simp only [domainXml, DomainXml.ranges, List.flatMap_cons, List.flatMap_nil, List.append_nil,
    List.mem_singleton, exists_eq_left, sshRange, PortRange.holds, Option.getD_none,
    Bool.and_eq_true, decide_eq_true_eq]
  omega

theorem mem_taken : port ∈ h.taken ↔ ∃ xml ∈ h.yolobox, ∃ range ∈ xml.ranges, range.start = port := by
  simp only [taken, List.mem_flatMap, DomainXml.forwardPorts, List.mem_map]

theorem accepts_iff : h.accepts port ↔ h.bound port = false ∧ port ∉ h.taken := by
  simp [accepts, and_comm]

theorem Free.accepts (hfree : h.Free window port) : h.accepts port := by
  refine accepts_iff.mpr ⟨hfree.2.1, fun htaken => hfree.2.2 ?_⟩
  obtain ⟨xml, hxml, range, hrange, rfl⟩ := mem_taken.mp htaken
  exact ⟨xml, hxml, range, hrange, holds_start range⟩

/-- A port that the scan takes is free or hidden from it. -/
theorem free_or_hidden (hmem : port ∈ window) (hport : h.accepts port) :
    h.Free window port ∨ h.Hidden window port := by
  obtain ⟨hbound, htaken⟩ := accepts_iff.mp hport
  by_cases hforwards : h.forwards port
  · right
    refine ⟨hmem, hbound, hforwards, ?_⟩
    intro xml hxml range hrange hstart
    exact htaken (mem_taken.mpr ⟨xml, hxml, range, hrange, hstart⟩)
  · left
    exact ⟨hmem, hbound, hforwards⟩

theorem Hidden.accepts (hhidden : h.Hidden window port) : h.accepts port := by
  refine accepts_iff.mpr ⟨hhidden.2.1, fun htaken => ?_⟩
  obtain ⟨xml, hxml, range, hrange, hstart⟩ := mem_taken.mp htaken
  exact hhidden.2.2.2 xml hxml range hrange hstart

/-- **The lowest port that is neither bound nor forwarded** is chosen exactly where each
hidden port has a free one below it. -/
theorem allocate_iff (h : Still) (window : List ℕ) (hwindow : hostPortWindow h.rangeText = .ok window) :
    h.Chooses window h.allocate ↔
      ∀ port, h.Hidden window port → ∃ lower < port, h.Free window lower := by
  rw [allocate_eq hwindow]
  cases hfind : window.find? h.accepts with
  | none =>
    have hnone : ∀ port ∈ window, ¬h.accepts port := List.find?_eq_none.mp hfind
    constructor
    · rintro - port hhidden
      exact absurd hhidden.accepts (hnone port hhidden.1)
    · rintro -
      exact ⟨rfl, fun port hfree => hnone port hfree.1 hfree.accepts⟩
  | some first =>
    have hleast := Lists.least_of_find? (pairwise_window hwindow) hfind
    constructor
    · rintro ⟨hfree, -⟩ port hhidden
      have hle : first ≤ port := hleast port hhidden.1 hhidden.accepts
      have hne : first ≠ port := fun heq => hfree.2.2 (heq ▸ hhidden.2.2.1)
      exact ⟨first, lt_of_le_of_ne hle hne, hfree⟩
    · intro hlower
      have hfree : h.Free window first := by
        rcases free_or_hidden (List.mem_of_find?_eq_some hfind) (List.find?_some hfind) with
          hfree | hhidden
        · exact hfree
        · obtain ⟨lower, hlt, hfree⟩ := hlower first hhidden
          exact absurd (hleast lower hfree.1 hfree.accepts) (not_le.mpr hlt)
      exact ⟨hfree, fun other hother => hleast other hother.1 hother.accepts⟩

/-! ## Two hosts -/

/-- A range of host ports. -/
def rangeOf (machine : PyStr) (start last : ℕ) (hle : start ≤ last) : DomainXml :=
  ⟨some machine, [⟨[⟨[⟨start, some last, some start, by rintro _ ⟨⟩; exact hle⟩]⟩]⟩]⟩

theorem holds_rangeOf {machine : PyStr} {start last : ℕ} {hle : start ≤ last} :
    (∃ range ∈ (rangeOf machine start last hle).ranges, range.holds port) ↔
      start ≤ port ∧ port ≤ last := by
  simp [rangeOf, DomainXml.ranges, PortRange.holds]

/-- One machine as the template defines it, and one edited to forward four ports. -/
def sampleHost : Still where
  domains := [(lit "yolobox-a", domainXml (lit "a") 61000),
    (lit "yolobox-b", rangeOf (lit "b") 61002 61005 (by decide))]
  names_nodup := by decide
  rangeText := portRangeText 32768 60999
  bound _ := false

theorem sampleHost_forwards : sampleHost.forwards port ↔ port = 61000 ∨ 61002 ≤ port ∧ port ≤ 61005 := by
  have hyolobox : sampleHost.yolobox =
      [domainXml (lit "a") 61000, rangeOf (lit "b") 61002 61005 (by decide)] := rfl
  unfold forwards
  rw [hyolobox]
  simp [holds_domainXml, holds_rangeOf]

/-- The port between the two is free, and every hidden one lies above it. -/
theorem allocate_iff_sample :
    sampleHost.Chooses (List.range' 61000 4536) sampleHost.allocate := by
  refine (allocate_iff sampleHost _ rfl).mpr ?_
  rintro port ⟨-, -, hforwards, hstart⟩
  refine ⟨61001, ?_, List.mem_range'_1.mpr (by decide), rfl, ?_⟩
  · rcases sampleHost_forwards.mp hforwards with rfl | hport
    · exact absurd rfl (hstart (domainXml (lit "a") 61000) (by decide) (sshRange 61000) (by decide))
    · omega
  · rw [sampleHost_forwards]
    omega

/-- The edited machine alone, and off. -/
def editedHost : Still where
  domains := [(lit "yolobox-b", rangeOf (lit "b") 61000 61010 (by decide))]
  names_nodup := by decide
  rangeText := portRangeText 32768 60999
  bound _ := false

/-- The second port of the range is given away. -/
theorem not_chooses_edited : ¬∀ window, hostPortWindow editedHost.rangeText = .ok window →
    editedHost.Chooses window editedHost.allocate := by
  have hwindow : hostPortWindow editedHost.rangeText = .ok (List.range' 61000 4536) := rfl
  intro hall
  have hchosen := hall (List.range' 61000 4536) hwindow
  have hgiven : editedHost.allocate = .ok 61001 := by
    rw [allocate_eq hwindow]
    rfl
  rw [hgiven] at hchosen
  refine hchosen.1.2.2 ⟨rangeOf (lit "b") 61000 61010 (by decide), ?_⟩
  decide

end Still

end Ports
