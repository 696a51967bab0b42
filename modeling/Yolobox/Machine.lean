/-
# The names of a machine

`instance_name` of `yolobox_cli/cli.py` and the names that `state.py` and `libvirt.py`
derive from a machine's: ssh host and alias, guest hostname, libvirt domain and volumes,
and the paths under `$HOME`.  Names are compared without regard to case.
-/
import Yolobox.Ssh.Config
import Yolobox.Libvirt.Ports

open Posix SshConfig

/-! ## `instance_name` -/

def DEFAULT_INSTANCE : PyStr := lit "yolobox"

/-- `[A-Za-z0-9]`. -/
def isAlnum (c : ℕ) : Bool := isDigit c || (65 ≤ c && c ≤ 90) || (97 ≤ c && c ≤ 122)

/-- `[._-]`. -/
def isJoint (c : ℕ) : Bool := c == 46 || c == 95 || c == 45

/-- `INSTANCE_NAME_RE`: words, one joint between any two. -/
def isInstanceName (value : PyStr) : Bool :=
  (value.splitOnP isJoint).all fun word => !word.isEmpty && word.all isAlnum

/-- `[a-z0-9]`. -/
def isLowerAlnum (c : ℕ) : Bool := isDigit c || (97 ≤ c && c ≤ 122)

theorem isLowerAlnum_lowerChar (c : ℕ) : isLowerAlnum (lowerChar c) = isAlnum c := by
  rw [Bool.eq_iff_iff]
  unfold lowerChar
  split_ifs with hupper <;>
    simp only [isAlnum, isLowerAlnum, isDigit, Bool.or_eq_true, Bool.and_eq_true,
      decide_eq_true_eq] <;> omega

theorem lowerChar_eq_hyphen (c : ℕ) : lowerChar c = 45 ↔ c = 45 := by
  unfold lowerChar
  split_ifs <;> omega

/-- `HOSTNAME_LABEL_RE`. -/
def isHostnameLabel (label : PyStr) : Bool :=
  !label.isEmpty && decide (label.length ≤ 63) && (label.all fun c => isLowerAlnum c || c == 45) &&
    label.head? != some 45 && label.getLast? != some 45

/-- `hostname_for`. -/
def hostnameFor (name : PyStr) : PyStr :=
  if name = DEFAULT_INSTANCE then name else lower (lit "yolobox-" ++ name)

/-- `instance_name`; `none` is a usage error. -/
def instanceName (value : PyStr) : Option PyStr :=
  if !isInstanceName value || startswith value (lit "lima-") || !isHostnameLabel (hostnameFor value) then none
  else some value

/-- A machine whose name was accepted. -/
structure Machine where
  name : PyStr
  accepted : instanceName name = some name

namespace Machine

variable {m a b : Machine}

/-! ## The names -/

theorem isInstanceName_name (m : Machine) : isInstanceName m.name = true := by
  have haccepted := m.accepted
  unfold instanceName at haccepted
  split_ifs at haccepted with hrefused
  cases hname : isInstanceName m.name with
  | true => rfl
  | false => exact absurd (by rw [hname]; rfl) hrefused

theorem isHostnameLabel_hostname (m : Machine) : isHostnameLabel (hostnameFor m.name) = true := by
  have haccepted := m.accepted
  unfold instanceName at haccepted
  split_ifs at haccepted with hrefused
  cases hlabel : isHostnameLabel (hostnameFor m.name) with
  | true => rfl
  | false => exact absurd (by rw [hlabel, Bool.not_false, Bool.or_true]) hrefused

theorem ne_nil (m : Machine) : m.name ≠ [] := by
  intro hnil
  have hname := m.isInstanceName_name
  rw [hnil] at hname
  exact absurd hname (by decide)

/-- A name is letters, digits and hyphens. -/
theorem isNameChar_of_mem (m : Machine) {c : ℕ} (hc : c ∈ m.name) : isAlnum c = true ∨ c = 45 := by
  by_cases hdefault : m.name = DEFAULT_INSTANCE
  · have hall : ∀ c ∈ DEFAULT_INSTANCE, isAlnum c = true := by decide
    exact .inl (hall c (hdefault ▸ hc))
  · have hlabel := m.isHostnameLabel_hostname
    rw [hostnameFor, if_neg hdefault, isHostnameLabel] at hlabel
    simp only [Bool.and_eq_true, List.all_eq_true] at hlabel
    have hmem : lowerChar c ∈ lower (lit "yolobox-" ++ m.name) :=
      List.mem_map_of_mem (List.mem_append_right _ hc)
    have hlower := hlabel.1.1.2 (lowerChar c) hmem
    rw [Bool.or_eq_true, beq_iff_eq, isLowerAlnum_lowerChar, lowerChar_eq_hyphen] at hlower
    exact hlower

/-- What `state.box` is for the machine. -/
def box (m : Machine) (driver : HostDriver) : Box where
  driver := driver
  name := m.name
  name_ne_nil := m.ne_nil
  isNameChar_name c hc := by
    rcases m.isNameChar_of_mem hc with halnum | rfl
    · simp only [isAlnum, Bool.or_eq_true] at halnum
      simp only [isNameChar, Bool.or_eq_true]
      exact .inl halnum
    · rfl

/-- `UNIX_SOCKET_PATH_LIMIT`, on the platform of the driver. -/
def UNIX_SOCKET_PATH_LIMIT : HostDriver → ℕ
  | .lima => 104
  | .libvirt => 108

def env (m : Machine) (driver : HostDriver) (HOME : PyStr) : Env :=
  ⟨m.box driver, HOME, UNIX_SOCKET_PATH_LIMIT driver⟩

/-- The names that ssh reaches the machine by. -/
def hosts (m : Machine) (driver : HostDriver) : List PyStr := [(m.box driver).vmHost, (m.box driver).herdrAlias]

def hostname (m : Machine) : PyStr := hostnameFor m.name

/-- `domain_name`. -/
def domainName (m : Machine) : PyStr := Ports.vmName m.name

/-- `disk_volume` and `cidata_volume`. -/
def volumes (m : Machine) : List PyStr := [m.domainName ++ lit ".qcow2", m.domainName ++ lit "-cidata.iso"]

/-- `state_dir`. -/
def stateDir (HOME : PyStr) : PyStr := join (normpath HOME) (lit ".local/state/yolobox")

/-- `flake_ref_file`. -/
def flakeRefFile (m : Machine) (HOME : PyStr) : PyStr := join (stateDir HOME) (m.name ++ lit ".flake-ref")

/-- The file of `unlock_lock`. -/
def unlockLock (m : Machine) (HOME : PyStr) : PyStr := join (stateDir HOME) (m.name ++ lit ".unlock.lock")

/-- What the host keeps for one machine. -/
def files (m : Machine) (driver : HostDriver) (HOME : PyStr) : List PyStr :=
  [(m.env driver HOME).instanceDir, m.flakeRefFile HOME, m.unlockLock HOME]

/-- The entries of the state directory that all machines share: the broker's sockets with
their locks, its log directory and yo's lock on it, and the instances. -/
def sharedNames : List PyStr :=
  [lit "aws-broker.sock", lit "aws-broker.sock.lock", lit "aws-broker.ctl.sock",
    lit "aws-broker.ctl.sock.lock", lit "aws-broker", lit "aws-broker.yo.lock", lit "instances"]

/-- What the host keeps for all machines. -/
def shared (HOME : PyStr) : List PyStr :=
  sharedNames.map (join (stateDir HOME)) ++
    [join (join (normpath HOME) (HostDriver.libvirt.instancesDir)) (lit ".port.lock")]

/-! ## Apart -/

/-- No text of one list is one of the other, whatever the case of their letters. -/
def Differ (xs ys : List PyStr) : Prop := ∀ x ∈ xs, ∀ y ∈ ys, lower x ≠ lower y

/-- Nothing that belongs to one machine is named as something of the other's, or of all. -/
structure Apart (driver : HostDriver) (HOME : PyStr) (a b : Machine) : Prop where
  hosts : Differ (a.hosts driver) (b.hosts driver)
  hostname : Differ [a.hostname] [b.hostname]
  domainName : Differ [a.domainName] [b.domainName]
  volumes : Differ a.volumes b.volumes
  files : Differ (a.files driver HOME) (b.files driver HOME)
  sharedFiles : Differ (a.files driver HOME ++ b.files driver HOME) (shared HOME)

/-- The alias of one machine is the ssh host of the other. -/
def Shadows (a b : Machine) : Prop := lower a.name = lit "lima-" ++ lower b.name

/-! ## Names -/

/-- In lower case a name is lower case letters, digits and hyphens. -/
theorem of_mem_lower_name (m : Machine) {c : ℕ} (hc : c ∈ lower m.name) :
    isLowerAlnum c = true ∨ c = 45 := by
  obtain ⟨d, hd, rfl⟩ := List.mem_map.mp hc
  rcases m.isNameChar_of_mem hd with halnum | rfl
  · exact .inl ((isLowerAlnum_lowerChar d).trans halnum)
  · exact .inr rfl

theorem dot_notMem (m : Machine) : 46 ∉ lower m.name := by
  intro hmem
  rcases m.of_mem_lower_name hmem with halnum | heq
  · exact absurd halnum (by decide)
  · exact absurd heq (by decide)

theorem differ_cons_iff {x : PyStr} {xs ys : List PyStr} :
    Differ (x :: xs) ys ↔ (∀ y ∈ ys, lower x ≠ lower y) ∧ Differ xs ys := List.forall_mem_cons

theorem differ_nil (ys : List PyStr) : Differ [] ys := fun _ hx => absurd hx List.not_mem_nil

variable (hname : lower a.name ≠ lower b.name)
include hname

/-- **Hosts and aliases** meet where one machine shadows the other, and nowhere else. -/
theorem hosts_differ_iff (driver : HostDriver) :
    Differ (a.hosts driver) (b.hosts driver) ↔ ¬Shadows a b ∧ ¬Shadows b a := by
  have hlit : lower (lit "lima-") = lit "lima-" := by decide
  unfold hosts Shadows
  simp only [differ_cons_iff, differ_nil, and_true, List.forall_mem_cons, List.not_mem_nil,
    false_imp_iff, implies_true, Box.vmHost, Box.herdrAlias, box, lower_append, hlit, ne_eq,
    List.append_cancel_left_eq]
  constructor
  · rintro ⟨⟨-, hba⟩, hab, -⟩
    exact ⟨hab, fun h => hba h.symm⟩
  · rintro ⟨hab, hba⟩
    exact ⟨⟨hname, fun h => hba h.symm⟩, hab, hname⟩

/-- The default machine's hostname is shorter than any other. -/
theorem hostname_differ : lower a.hostname ≠ lower b.hostname := by
  have hlower : ∀ text, lower (lower text) = lower text := by
    intro text
    rw [lower, lower, List.map_map]
    refine List.map_congr_left fun c _ => ?_
    simp only [Function.comp_apply, lowerChar]
    split_ifs <;> omega
  have hdefault : (lower DEFAULT_INSTANCE).length = 7 := by decide
  have hlong : ∀ m : Machine, (lower (lit "yolobox-" ++ m.name)).length ≠ 7 := by
    intro m
    rw [length_lower, List.length_append]
    show 8 + m.name.length ≠ 7
    omega
  unfold hostname hostnameFor
  split_ifs with ha hb hb
  · rwa [ha, hb] at hname ⊢
  · rw [ha, hlower]
    exact fun heq => hlong b (heq ▸ hdefault)
  · rw [hb, hlower]
    exact fun heq => hlong a (heq ▸ hdefault)
  · rw [hlower, hlower, lower_append, lower_append, ne_eq, List.append_cancel_left_eq]
    exact hname

theorem domainName_differ : lower a.domainName ≠ lower b.domainName := by
  simp only [domainName, Ports.vmName, lower_append, ne_eq, List.append_cancel_left_eq]
  exact hname

/-- A disk and a cidata volume end differently. -/
theorem volumes_differ : Differ a.volumes b.volumes := by
  have hends : ∀ x y : PyStr, x ++ lower (lit ".qcow2") ≠ y ++ lower (lit "-cidata.iso") := by
    intro x y heq
    have hlast := congrArg List.getLast? heq
    rw [List.getLast?_append_of_ne_nil _ (by decide), List.getLast?_append_of_ne_nil _ (by decide)] at hlast
    exact absurd hlast (by decide)
  have hdomain := domainName_differ hname
  unfold volumes
  simp only [differ_cons_iff, differ_nil, and_true, List.forall_mem_cons, List.not_mem_nil,
    false_imp_iff, implies_true, lower_append, ne_eq, List.append_cancel_right_eq]
  exact ⟨⟨hdomain, hends _ _⟩, fun heq => hends _ _ heq.symm, hdomain⟩

omit hname

/-! ## Paths -/

/-- The text that a path below `$HOME` starts with. -/
def below (HOME : PyStr) : PyStr :=
  if normpath HOME = [] ∨ (normpath HOME).getLast? = some 47 then normpath HOME else normpath HOME ++ [47]

theorem join_home {HOME path : PyStr} (hpath : startswith path [47] = false) :
    join (normpath HOME) path = below HOME ++ path := by
  unfold join below
  rw [if_neg (by rw [hpath]; exact Bool.false_ne_true)]
  split_ifs
  · rfl
  · rw [List.append_assoc, List.singleton_append]

theorem join_below {HOME directory path : PyStr} (hdirectory : directory ≠ [])
    (hlast : directory.getLast? ≠ some 47) (hpath : startswith path [47] = false) :
    join (below HOME ++ directory) path = below HOME ++ (directory ++ 47 :: path) := by
  unfold join
  rw [if_neg (by rw [hpath]; exact Bool.false_ne_true), if_neg, List.append_assoc]
  rw [not_or, List.append_eq_nil_iff, not_and, List.getLast?_append_of_ne_nil _ hdirectory]
  exact ⟨fun _ => hdirectory, hlast⟩

theorem startswith_slash (m : Machine) (rest : PyStr) : startswith (m.name ++ rest) [47] = false := by
  obtain ⟨c, cs, hname⟩ := List.exists_cons_of_ne_nil m.ne_nil
  have hc : c ≠ 47 := by
    rintro rfl
    rcases m.isNameChar_of_mem (hname ▸ List.mem_cons_self ..) with halnum | heq
    · exact absurd halnum (by decide)
    · exact absurd heq (by decide)
  rw [hname, List.cons_append, Bool.eq_false_iff, ne_eq, startswith_iff]
  rintro ⟨more, hmore⟩
  exact hc (List.cons.inj hmore).1

/-- The state directory, below `$HOME`. -/
def stateName : PyStr := lit ".local/state/yolobox"

theorem stateDir_eq (HOME : PyStr) : stateDir HOME = below HOME ++ stateName :=
  join_home (by decide)

theorem join_stateDir {HOME path : PyStr} (hpath : startswith path [47] = false) :
    join (stateDir HOME) path = below HOME ++ (stateName ++ 47 :: path) := by
  rw [stateDir_eq]
  exact join_below (by decide) (by decide) hpath

theorem instanceDir_eq (m : Machine) (driver : HostDriver) (HOME : PyStr) :
    (m.env driver HOME).instanceDir = below HOME ++ (driver.instancesDir ++ 47 :: m.name) := by
  have hstart : startswith driver.instancesDir [47] = false := by cases driver <;> decide
  have hne : driver.instancesDir ≠ [] := by cases driver <;> decide
  have hlast : driver.instancesDir.getLast? ≠ some 47 := by cases driver <;> decide
  have hname : startswith m.name [47] = false := by
    rw [← List.append_nil m.name]
    exact m.startswith_slash []
  show join (join (normpath HOME) driver.instancesDir) m.name = _
  rw [join_home hstart, join_below hne hlast hname]

/-- A machine's files, below `$HOME`. -/
def fileNames (m : Machine) (driver : HostDriver) : List PyStr :=
  [driver.instancesDir ++ 47 :: m.name, stateName ++ 47 :: (m.name ++ lit ".flake-ref"),
    stateName ++ 47 :: (m.name ++ lit ".unlock.lock")]

theorem files_eq (m : Machine) (driver : HostDriver) (HOME : PyStr) :
    m.files driver HOME = (m.fileNames driver).map (below HOME ++ ·) := by
  rw [files, instanceDir_eq, flakeRefFile, join_stateDir (m.startswith_slash _), unlockLock,
    join_stateDir (m.startswith_slash _)]
  rfl

/-- What all machines share in the state directory. -/
def sharedPaths : List PyStr := sharedNames ++ [lit "instances/.port.lock"]

theorem shared_eq (HOME : PyStr) :
    shared HOME = sharedPaths.map fun path => below HOME ++ (stateName ++ 47 :: path) := by
  have hnames : ∀ path ∈ sharedNames, startswith path [47] = false := by decide
  have hlock : join (join (normpath HOME) (HostDriver.libvirt.instancesDir)) (lit ".port.lock") =
      below HOME ++ (stateName ++ 47 :: lit "instances/.port.lock") := by
    rw [join_home (by decide), join_below (by decide) (by decide) (by decide)]
    rfl
  rw [shared, sharedPaths, List.map_append, hlock]
  congr 1
  exact List.map_congr_left fun path hpath => join_stateDir (hnames path hpath)

theorem differ_map_append {start : PyStr} {xs ys : List PyStr} (h : Differ xs ys) :
    Differ (xs.map (start ++ ·)) (ys.map (start ++ ·)) := by
  intro x hx y hy
  obtain ⟨x', hx', rfl⟩ := List.mem_map.mp hx
  obtain ⟨y', hy', rfl⟩ := List.mem_map.mp hy
  rw [lower_append, lower_append, ne_eq, List.append_cancel_left_eq]
  exact h x' hx' y' hy'

/-- The text from the first dot on. -/
def extension (text : PyStr) : PyStr := text.dropWhile fun c => c != 46

theorem extension_append {start rest : PyStr} (hstart : 46 ∉ start) :
    extension (start ++ rest) = extension rest := by
  refine List.dropWhile_append_of_pos fun c hc => ?_
  rw [bne_iff_ne]
  rintro rfl
  exact hstart hc

theorem extension_file (m : Machine) (ending : PyStr) :
    extension (lower (m.name ++ ending)) = extension (lower ending) := by
  rw [lower_append, extension_append m.dot_notMem]

theorem extension_instance (m : Machine) : extension (lit "instances/" ++ lower m.name) = [] := by
  rw [extension_append (by decide), ← List.append_nil (lower m.name), extension_append m.dot_notMem]
  rfl

theorem lower_state (path : PyStr) : lower (stateName ++ 47 :: path) = stateName ++ 47 :: lower path := by
  rw [lower_append, lower_cons]
  rfl

theorem state_ne {x y : PyStr} (h : lower x ≠ lower y) :
    lower (stateName ++ 47 :: x) ≠ lower (stateName ++ 47 :: y) := by
  rw [lower_state, lower_state, ne_eq, List.append_cancel_left_eq, List.cons.injEq, not_and]
  exact fun _ => h

/-- An instance directory is elsewhere, on Lima, or in `instances`. -/
theorem instance_ne (m : Machine) (driver : HostDriver) {path : PyStr}
    (hpath : lower path ≠ lit "instances/" ++ lower m.name) :
    lower (driver.instancesDir ++ 47 :: m.name) ≠ lower (stateName ++ 47 :: path) := by
  cases driver with
  | lima =>
    intro heq
    have hlima : (lower (HostDriver.lima.instancesDir ++ 47 :: m.name)).take 3 = lit ".li" := rfl
    have hstate : (lower (stateName ++ 47 :: path)).take 3 = lit ".lo" := rfl
    rw [heq, hstate] at hlima
    exact absurd hlima (by decide)
  | libvirt =>
    have hsplit : HostDriver.libvirt.instancesDir ++ 47 :: m.name =
        stateName ++ 47 :: (lit "instances/" ++ m.name) := rfl
    rw [hsplit]
    refine state_ne fun heq => hpath ?_
    rw [← heq, lower_append]
    rfl

theorem instance_ne_file (m n : Machine) (driver : HostDriver) {ending : PyStr}
    (hending : extension (lower ending) ≠ []) :
    lower (driver.instancesDir ++ 47 :: m.name) ≠ lower (stateName ++ 47 :: (n.name ++ ending)) := by
  refine m.instance_ne driver fun heq => hending ?_
  rw [← n.extension_file ending, heq, m.extension_instance]

/-- The file of the lock is neither the instance directory nor the remembered ref. -/
theorem unlockLock_ne (m : Machine) (driver : HostDriver) (HOME : PyStr) :
    m.unlockLock HOME ≠ (m.env driver HOME).instanceDir ∧ m.unlockLock HOME ≠ m.flakeRefFile HOME := by
  rw [unlockLock, flakeRefFile, join_stateDir (m.startswith_slash _), join_stateDir (m.startswith_slash _),
    instanceDir_eq, ne_eq, ne_eq, List.append_cancel_left_eq, List.append_cancel_left_eq]
  refine ⟨fun heq => ?_, fun heq => ?_⟩
  · exact m.instance_ne_file m driver (by decide) (congrArg lower heq.symm)
  · have hname := (List.cons.inj (List.append_cancel_left heq)).2
    exact absurd (List.append_cancel_left hname) (by decide)

theorem files_differ (hname : lower a.name ≠ lower b.name) (driver : HostDriver) (HOME : PyStr) :
    Differ (a.files driver HOME) (b.files driver HOME) := by
  rw [files_eq, files_eq]
  refine differ_map_append ?_
  have hinstances : lower (driver.instancesDir ++ 47 :: a.name) ≠ lower (driver.instancesDir ++ 47 :: b.name) := by
    rw [lower_append, lower_append, ne_eq, List.append_cancel_left_eq, lower_cons, lower_cons,
      List.cons.injEq, not_and]
    exact fun _ => hname
  have hsame : ∀ ending, lower (a.name ++ ending) ≠ lower (b.name ++ ending) := by
    intro ending
    rw [lower_append, lower_append, ne_eq, List.append_cancel_right_eq]
    exact hname
  have hother : ∀ m n : Machine, lower (m.name ++ lit ".flake-ref") ≠ lower (n.name ++ lit ".unlock.lock") := by
    intro m n heq
    have hext := congrArg extension heq
    rw [extension_file, extension_file] at hext
    exact absurd hext (by decide)
  unfold fileNames
  simp only [differ_cons_iff, differ_nil, and_true, List.forall_mem_cons, List.not_mem_nil,
    false_imp_iff, implies_true]
  refine ⟨⟨hinstances, a.instance_ne_file b driver (by decide), a.instance_ne_file b driver (by decide)⟩,
    ⟨(b.instance_ne_file a driver (by decide)).symm, state_ne (hsame _), state_ne (hother a b)⟩,
    ⟨(b.instance_ne_file a driver (by decide)).symm, state_ne (hother b a).symm, state_ne (hsame _)⟩⟩

theorem shared_differ (m : Machine) (driver : HostDriver) (HOME : PyStr) :
    Differ (m.files driver HOME) (shared HOME) := by
  have hinstances : ∀ path ∈ sharedPaths,
      startswith (lower path) (lit "instances/") = true → 46 ∈ (lower path).drop 10 := by decide
  have hends : ∀ path ∈ sharedPaths, extension (lower path) ≠ lit ".flake-ref" ∧
      extension (lower path) ≠ lit ".unlock.lock" := by decide
  have hfile : ∀ path ∈ sharedPaths, ∀ name ∈ m.fileNames driver,
      lower name ≠ lower (stateName ++ 47 :: path) := by
    intro path hpath
    unfold fileNames
    simp only [List.forall_mem_cons, List.not_mem_nil, false_imp_iff, implies_true, and_true]
    refine ⟨m.instance_ne driver fun heq => ?_, state_ne fun heq => ?_, state_ne fun heq => ?_⟩
    · have hdot := hinstances path hpath (heq ▸ startswith_append _ _)
      rw [heq] at hdot
      exact m.dot_notMem hdot
    · refine (hends path hpath).1 ?_
      rw [← heq, extension_file]
      rfl
    · refine (hends path hpath).2 ?_
      rw [← heq, extension_file]
      rfl
  rw [files_eq, shared_eq]
  intro x hx y hy
  obtain ⟨name, hmem, rfl⟩ := List.mem_map.mp hx
  obtain ⟨path, hpath, rfl⟩ := List.mem_map.mp hy
  rw [lower_append, lower_append, ne_eq, List.append_cancel_left_eq]
  exact hfile path hpath name hmem

/-! ## Two machines -/

/-- **Two machines have nothing in common**, unless one is named after the other's ssh host in
another letter case. -/
theorem apart_iff (driver : HostDriver) (HOME : PyStr) (a b : Machine)
    (hname : lower a.name ≠ lower b.name) :
    Apart driver HOME a b ↔ ¬Shadows a b ∧ ¬Shadows b a := by
  constructor
  · intro hapart
    exact (hosts_differ_iff hname driver).mp hapart.hosts
  · intro hshadows
    refine ⟨(hosts_differ_iff hname driver).mpr hshadows, ?_, ?_, volumes_differ hname,
      files_differ hname driver HOME, ?_⟩
    · rintro x hx y hy
      rw [List.mem_singleton.mp hx, List.mem_singleton.mp hy]
      exact hostname_differ hname
    · rintro x hx y hy
      rw [List.mem_singleton.mp hx, List.mem_singleton.mp hy]
      exact domainName_differ hname
    · rintro x hx
      rcases List.mem_append.mp hx with hx | hx
      · exact a.shared_differ driver HOME x hx
      · exact b.shared_differ driver HOME x hx

/-- The default machine and one more. -/
theorem apart_iff_default :
    Apart .libvirt (lit "/home/op") ⟨DEFAULT_INSTANCE, by decide⟩ ⟨lit "Work-2", by decide⟩ := by
  refine (apart_iff .libvirt (lit "/home/op") _ _ ?_).mpr ⟨?_, ?_⟩ <;> (try unfold Shadows) <;> decide

/-- A machine that is named after the ssh host of `work`. -/
theorem not_apart_shadowing : ¬∀ a b : Machine, lower a.name ≠ lower b.name →
    Apart .lima (lit "/Users/op") a b := by
  intro hall
  have hapart := hall ⟨lit "LIMA-work", by decide⟩ ⟨lit "work", by decide⟩ (by decide)
  exact hapart.hosts (lit "LIMA-work") (by decide) (lit "lima-work") (by decide) (by decide)

end Machine
