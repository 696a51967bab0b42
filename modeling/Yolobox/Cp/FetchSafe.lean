/-
# What a lying listing can make a fetch do

Whatever the two listings print, the fetch asks scp only for paths at or below a source
and makes or fills only directories at or below `staging/basename(source)`, and its
walks end.  Two facts carry this: a record that is accepted names a clean path under a
start, and a walk goes from a directory only to children, which are longer.
-/
import Yolobox.Cp.ScpOperands
import Yolobox.Cp.Fetch
import Yolobox.Paths
import Yolobox.Lib.Lists

open Script Utf8 Posix

namespace Cp

variable {vmHost staging : PyStr} {sources starts : List PyStr}

/-! ## What is safe -/

/-- A directory that the fetch may make or fill. -/
def Lands (sources : List PyStr) (staging loc : PyStr) : Prop :=
  loc = staging ∨
    ∃ source ∈ sources, IsName (basename source) ∧
      ∃ names, (∀ n ∈ names, IsName n) ∧ loc = join staging (basename source) ++ ofNames names

/-- An operand of scp that names a path at or below a source. -/
def Fetches (vmHost : PyStr) (sources : List PyStr) (operand : PyStr) : Prop :=
  ∃ source ∈ sources, ∃ path, AtOrBelow source path ∧ operand = scpGuestSource vmHost path

def Safe (vmHost : PyStr) (sources : List PyStr) (staging : PyStr) : Cmd → Prop
  | .find _ _ => True
  | .scp operands dest =>
    Lands sources staging dest ∧ ∀ operand ∈ operands, Fetches vmHost sources operand
  | .makedirs loc _ => Lands sources staging loc
  | .utime loc _ => Lands sources staging loc
  | .err _ => True

/-- A `YoError`, or the failure of a command. -/
def Proper : Raised → Prop
  | .yoError _ => True
  | .commandFailed => True
  | .keyError => False
  | .stopIteration => False
  | .endless => False

/-- Every command a script issues is safe, and it gives up properly, whatever it is told. -/
abbrev SafePy (vmHost : PyStr) (sources : List PyStr) (staging : PyStr) {α : Type} (A : α → Prop)
    (p : Py α) : Prop :=
  p.Issues (Safe vmHost sources staging) Proper A

theorem safe_py {c : Cmd} (hc : Safe vmHost sources staging c) :
    SafePy vmHost sources staging (fun _ => True) (py c) :=
  issues_cmd hc trivial fun _ => trivial

/-! ## Listings -/

/-- What a listing may name. -/
def Listed (starts : List PyStr) (listsStarts : Bool) (path : PyStr) : Prop :=
  (∃ start ∈ starts, Below start path) ∨ (listsStarts = true ∧ path ∈ starts)

/-- **An accepted record names a clean path under a start.** -/
theorem parseGuestRecord_listed {record : List Byte} {listsStarts : Bool} {entry : GuestEntry}
    (hstarts : ∀ start ∈ starts, Clean start)
    (h : parseGuestRecord record starts listsStarts = .ok entry) :
    Listed starts listsStarts entry.path := by
  unfold parseGuestRecord at h
  split at h
  · simp at h
  · split_ifs at h with hok
    rw [Except.ok.injEq] at h
    subst h
    simp only [Bool.and_eq_true, beq_iff_eq, Bool.or_eq_true, List.any_eq_true,
      decide_eq_true_eq] at hok
    obtain ⟨hnorm, ⟨start, hmem, hunder⟩ | ⟨hlists, hmem⟩⟩ := hok
    · exact .inl ⟨start, hmem, below_of_startswith (hstarts start hmem) hnorm hunder⟩
    · exact .inr ⟨hlists, hmem⟩

/-- What `setdefault` leaves in the dict was there or is the entry. -/
theorem mem_setdefault {entries entries' : List GuestEntry} {entry e : GuestEntry}
    (h : setdefault entries entry = .ok entries') (he : e ∈ entries') :
    e ∈ entries ∨ e = entry := by
  unfold setdefault at h
  split at h
  · rw [Except.ok.injEq] at h
    subst h
    simpa using he
  · split_ifs at h
    rw [Except.ok.injEq] at h
    subst h
    exact .inl he

theorem readRecords_listed {listsStarts : Bool} (hstarts : ∀ start ∈ starts, Clean start)
    {records : List (List Byte)} {entries found : List GuestEntry}
    (hentries : ∀ e ∈ entries, Listed starts listsStarts e.path)
    (h : readRecords starts listsStarts records entries = .ok found) :
    ∀ e ∈ found, Listed starts listsStarts e.path := by
  induction records generalizing entries with
  | nil =>
    rw [readRecords, Except.ok.injEq] at h
    exact h ▸ hentries
  | cons record records ih =>
    unfold readRecords at h
    split_ifs at h with hempty
    · exact ih hentries h
    · cases hparse : parseGuestRecord record starts listsStarts with
      | error refusal => simp [hparse] at h
      | ok entry =>
        cases hset : setdefault entries entry with
        | error refusal => simp [hparse, hset] at h
        | ok entries' =>
          simp only [hparse, hset] at h
          refine ih ?_ h
          intro e he
          rcases mem_setdefault hset he with he | rfl
          · exact hentries e he
          · exact parseGuestRecord_listed hstarts hparse

theorem safe_checked {α : Type} {A : α → Prop} {r : Except Refusal α}
    (h : ∀ a, r = .ok a → A a) : SafePy vmHost sources staging A (checked r) := by
  cases r with
  | ok a => exact h a rfl
  | error refusal => trivial

theorem safe_listGuest {tests : List PyStr} {listsStarts : Bool}
    (hstarts : ∀ start ∈ starts, Clean start) :
    SafePy vmHost sources staging (fun found => ∀ e ∈ found, Listed starts listsStarts e.path)
      (listGuest starts tests listsStarts) := by
  refine (safe_py (c := .find starts tests) trivial).bind fun answer _ => ?_
  obtain ⟨returncode, stdout⟩ := answer
  simp only
  split_ifs with hcode
  · trivial
  · exact safe_checked fun found hread => readRecords_listed hstarts (by simp) hread

/-! ## Build output -/

/-- What was asked for has a key in `BUILD_OUTPUT`. -/
theorem hasManifest_isSome (path : PyStr) (present : List PyStr)
    (h : basename path ∈ asked dirKind) : (hasManifest path present).isSome = true := by
  have hkey : (BUILD_OUTPUT.lookup (basename path)).isSome = true := by
    have hmem : basename path ∈ BUILD_OUTPUT.map Prod.fst := h
    revert hmem
    generalize basename path = name
    revert name
    decide
  unfold hasManifest
  split
  · simp_all
  · rfl
  · rfl

theorem mem_outermost {paths : List PyStr} {path : PyStr} (h : path ∈ outermost paths) :
    path ∈ paths := by
  have hfold : ∀ (paths kept : List PyStr), path ∈ paths.foldl (fun kept path =>
      if kept.any fun k => startswith path (k ++ [47]) then kept else kept ++ [path]) kept →
      path ∈ kept ∨ path ∈ paths := by
    intro paths
    induction paths with
    | nil => exact fun kept h => .inl h
    | cons p paths ih =>
      intro kept h
      rw [List.foldl_cons] at h
      rcases ih _ h with h | h
      · split_ifs at h
        · exact .inl h
        · rcases List.mem_append.mp h with h | h
          · exact .inl h
          · rw [List.mem_singleton.mp h]
            exact .inr (List.mem_cons_self ..)
      · exact .inr (List.mem_cons_of_mem p h)
  rcases hfold paths [] h with h | h
  · exact absurd h List.not_mem_nil
  · exact h

/-- The directories of a listing are paths of its entries. -/
theorem mem_directories {found : List GuestEntry} {path : PyStr} :
    path ∈ directories found ↔ ∃ e ∈ found, e.kind = dirKind ∧ e.path = path := by
  simp [directories, and_assoc]

theorem mem_sorted {texts : List PyStr} {text : PyStr} : text ∈ sorted texts ↔ text ∈ texts :=
  List.mem_insertionSort _

theorem mem_confirmed {found : List GuestEntry} {path : PyStr} :
    path ∈ confirmed found ↔
      path ∈ directories found ∧ hasManifest path (manifestsPresent found) = some true := by
  rw [confirmed, mem_sorted, List.mem_filter, beq_iff_eq]

/-- Each build-output directory comes with a source it lies below. -/
def Attributed (sources : List PyStr) (output : List (PyStr × PyStr)) : Prop :=
  ∀ pair ∈ output, pair.1 ∈ sources ∧ Below pair.1 pair.2

theorem sourceOf_below {source path : PyStr} (hsources : ∀ source ∈ sources, Clean source)
    (hnorm : normpath path = path) (h : sourceOf sources path = some source) :
    source ∈ sources ∧ Below source path := by
  unfold sourceOf at h
  have hmem := List.mem_of_find?_eq_some h
  have hstart := List.find?_some h
  exact ⟨hmem, below_of_startswith (hsources source hmem) hnorm hstart⟩

theorem safe_judge {found : List GuestEntry} (hsources : ∀ source ∈ sources, Clean source)
    (hfound : ∀ e ∈ found, Listed sources false e.path) :
    SafePy vmHost sources staging (Attributed sources) (judge sources found) := by
  unfold judge
  split
  · trivial
  · rename_i hasked
    have hkeys : (directories found).any
        (fun path => (hasManifest path (manifestsPresent found)).isNone) = false := by
      rw [List.any_eq_false]
      intro path hpath
      obtain ⟨e, he, hkind, rfl⟩ := mem_directories.mp hpath
      have hname := List.find?_eq_none.mp hasked e he
      rw [hkind] at hname
      have hsome := hasManifest_isSome e.path (manifestsPresent found) (by simpa using hname)
      simp [Option.isNone_iff_eq_none, Option.isSome_iff_ne_none.mp hsome]
    rw [hkeys, if_neg (by decide)]
    -- every outermost directory was listed, so some source is above it
    have hout : ∀ path ∈ outermost (confirmed found),
        ∃ source, sourceOf sources path = some source ∧ source ∈ sources ∧ Below source path := by
      intro path hpath
      obtain ⟨e, he, -, rfl⟩ := mem_directories.mp (mem_confirmed.mp (mem_outermost hpath)).1
      obtain ⟨start, hstart, hbelow⟩ : ∃ start ∈ sources, Below start e.path := by
        simpa [Listed] using hfound e he
      have hsome : (sourceOf sources e.path).isSome = true :=
        List.find?_isSome.mpr ⟨start, hstart, hbelow.startswith⟩
      obtain ⟨source, hsource⟩ := Option.isSome_iff_exists.mp hsome
      have hnorm := (hbelow.atOrBelow.clean (hsources start hstart)).normpath_eq
      exact ⟨source, hsource, sourceOf_below hsources hnorm hsource⟩
    obtain ⟨output, houtput⟩ := Lists.exists_mapM
      (f := fun path => (sourceOf sources path).map fun source => (source, path)) fun path hpath => by
        obtain ⟨source, hsource, -⟩ := hout path hpath
        exact ⟨(source, path), by rw [hsource]; rfl⟩
    rw [houtput]
    rintro ⟨source, path⟩ hpair
    obtain ⟨path', hpath', hmap⟩ := (Lists.mem_of_mapM houtput).mp hpair
    obtain ⟨source', hsource', hmem, hbelow⟩ := hout path' hpath'
    rw [hsource', Option.map_some, Option.some.injEq, Prod.mk.injEq] at hmap
    obtain ⟨rfl, rfl⟩ := hmap
    exact ⟨hmem, hbelow⟩

theorem safe_findBuildOutput (hsources : ∀ source ∈ sources, Clean source) :
    SafePy vmHost sources staging (Attributed sources) (findBuildOutput sources) :=
  (safe_listGuest hsources).bind fun _ hfound => safe_judge hsources hfound

/-! ## The walk down to build output -/

/-- From some names below the source the loop comes back to it. -/
theorem upTo_ends {source : PyStr} (hsource : Clean source) {rest : List PyStr}
    (hrest : ∀ n ∈ rest, IsName n) {fuel : ℕ} (hfuel : rest.length < fuel) :
    ∃ above, upTo source fuel (source ++ ofNames rest) = some above ∧
      ∀ directory ∈ above, AtOrBelow source directory := by
  induction rest using List.reverseRecOn generalizing fuel with
  | nil =>
    obtain ⟨fuel, rfl⟩ := Nat.exists_eq_succ_of_ne_zero (by omega : fuel ≠ 0)
    refine ⟨[source], by simp [upTo], ?_⟩
    rw [List.forall_mem_singleton]
    exact .refl source
  | append_singleton rest n ih =>
    obtain ⟨fuel, rfl⟩ := Nat.exists_eq_succ_of_ne_zero (by omega : fuel ≠ 0)
    rw [List.forall_mem_append, List.forall_mem_singleton] at hrest
    rw [List.length_append, List.length_singleton] at hfuel
    have hless : rest.length < fuel := by omega
    obtain ⟨above, habove, hall⟩ := ih hrest.1 hless
    have hne : source ++ ofNames (rest ++ [n]) ≠ source := by simp
    refine ⟨(source ++ ofNames (rest ++ [n])) :: above, ?_, ?_⟩
    · rw [upTo, if_neg hne, dirname_below hsource hrest.1 hrest.2, habove, Option.map_some]
    · rw [List.forall_mem_cons]
      refine ⟨⟨rest ++ [n], ?_, rfl⟩, hall⟩
      rw [List.forall_mem_append, List.forall_mem_singleton]
      exact hrest

theorem length_le_ofNames (ns : List PyStr) : ns.length ≤ (ofNames ns).length := by
  induction ns with
  | nil => simp
  | cons n ns ih =>
    rw [ofNames_cons, List.length_cons, List.length_cons, List.length_append]
    omega

theorem directoriesDownTo_ends {source path : PyStr} (hsource : Clean source)
    (h : Below source path) :
    ∃ above, directoriesDownTo source path = some above ∧
      ∀ directory ∈ above, AtOrBelow source directory := by
  obtain ⟨rest, hne, hrest, rfl⟩ := h
  obtain ⟨init, last, rfl⟩ := (List.eq_nil_or_concat rest).resolve_left hne
  rw [List.concat_eq_append, List.forall_mem_append, List.forall_mem_singleton] at hrest
  rw [List.concat_eq_append, directoriesDownTo, dirname_below hsource hrest.1 hrest.2]
  refine upTo_ends hsource hrest.1 ?_
  have hlength := length_le_ofNames (init ++ [last])
  rw [List.length_append, List.length_singleton] at hlength
  rw [List.length_append]
  omega

/-- The walked directories lie at or below the sources. -/
theorem walkedOf_ends {output : List (PyStr × PyStr)} (hsources : ∀ source ∈ sources, Clean source)
    (houtput : Attributed sources output) :
    ∃ walked, walkedOf output = some walked ∧
      ∀ directory ∈ walked, ∃ source ∈ sources, AtOrBelow source directory := by
  obtain ⟨lists, hlists⟩ := Lists.exists_mapM
    (f := fun pair : PyStr × PyStr => directoriesDownTo pair.1 pair.2) fun pair hpair => by
      obtain ⟨hmem, hbelow⟩ := houtput pair hpair
      obtain ⟨above, habove, -⟩ := directoriesDownTo_ends (hsources pair.1 hmem) hbelow
      exact ⟨above, habove⟩
  refine ⟨lists.flatten.dedup, by rw [walkedOf, hlists]; rfl, ?_⟩
  intro directory hdir
  rw [List.mem_dedup, List.mem_flatten] at hdir
  obtain ⟨above, habove, hdir⟩ := hdir
  obtain ⟨pair, hpair, hlist⟩ := (Lists.mem_of_mapM hlists).mp habove
  obtain ⟨hmem, hbelow⟩ := houtput pair hpair
  obtain ⟨above', habove', hall⟩ := directoriesDownTo_ends (hsources pair.1 hmem) hbelow
  rw [hlist, Option.some.injEq] at habove'
  exact ⟨pair.1, hmem, hall directory (habove' ▸ hdir)⟩

/-! ## The walk over children -/

/-- What holds of the walk, whatever the second listing says. -/
structure GuestWalk.Sound (walk : GuestWalk) (sources : List PyStr) : Prop where
  walked : ∀ directory ∈ walk.walked, Clean directory
  entries : ∀ e ∈ walk.entries, Clean e.path

theorem GuestWalk.mem_children {walk : GuestWalk} {directory child : PyStr} :
    child ∈ walk.children directory ↔
      (∃ e ∈ walk.entries, e.path = child) ∧ dirname child = directory := by
  rw [GuestWalk.children, List.mem_filter, mem_sorted, List.mem_map, beq_iff_eq]

/-- The operands of the children that scp takes whole are paths below the source. -/
theorem fetches_plain {walk : GuestWalk} {source directory : PyStr}
    (hwalk : walk.Sound sources) (hsource : source ∈ sources) (hdir : Clean directory)
    (hbelow : AtOrBelow source directory) {batch : List PyStr}
    (hbatch : batch ∈ inBatches ((plainChildren walk directory).map (scpGuestSource vmHost))) :
    ∀ operand ∈ batch, Fetches vmHost sources operand := by
  intro operand hoperand
  have hmem : operand ∈ (plainChildren walk directory).map (scpGuestSource vmHost) := by
    rw [← flatten_inBatches ((plainChildren walk directory).map _)]
    exact List.mem_flatten_of_mem hbatch hoperand
  obtain ⟨child, hchild, rfl⟩ := List.mem_map.mp hmem
  obtain ⟨⟨e, he, rfl⟩, hparent⟩ := GuestWalk.mem_children.mp (List.mem_filter.mp hchild).1
  obtain ⟨hname, htext⟩ := hdir.child (hwalk.entries e he) hparent
  refine ⟨source, hsource, e.path, hbelow.trans ⟨[basename e.path], ?_, htext⟩, rfl⟩
  rw [List.forall_mem_singleton]
  exact hname

/-- **The walk is safe and ends.**  The fuel left is more than any walked directory is
longer than this one. -/
theorem safe_fetchWalked {walk : GuestWalk} {source : PyStr} (hwalk : walk.Sound sources)
    (hsource : source ∈ sources) (hname : IsName (basename source)) {fuel : ℕ} {directory : PyStr}
    {below : List PyStr} (hmem : directory ∈ walk.walked) (hdir : AtOrBelow source directory)
    (hbelow : ∀ n ∈ below, IsName n)
    (hfuel : ∀ d ∈ walk.walked, d.length < directory.length + fuel) :
    SafePy vmHost sources staging (fun _ => True)
      (fetchWalked vmHost walk source fuel directory
        (join staging (basename source) ++ ofNames below)) := by
  induction fuel generalizing directory below with
  | zero => exact absurd (hfuel directory hmem) (by omega)
  | succ fuel ih =>
    have hclean := hwalk.walked directory hmem
    have hlands : Lands sources staging (join staging (basename source) ++ ofNames below) :=
      .inr ⟨source, hsource, hname, below, hbelow, rfl⟩
    unfold fetchWalked
    split
    · trivial
    rename_i entry hentry
    split_ifs with hchanged
    · trivial
    refine (safe_py (c := .makedirs _ _) hlands).bind fun _ _ =>
      Issues.bind (issues_each fun child hchild => ?_) fun _ _ =>
      Issues.bind (issues_each fun batch hbatch => ?_) fun _ _ =>
      safe_py (c := .utime _ _) hlands
    · obtain ⟨⟨e, he, rfl⟩, hparent⟩ := GuestWalk.mem_children.mp hchild
      obtain ⟨hchildName, htext⟩ := hclean.child (hwalk.entries e he) hparent
      split_ifs with hwalked hskipped
      · have hnames : ∀ n ∈ [basename e.path], IsName n := by
          rw [List.forall_mem_singleton]
          exact hchildName
        have hextends := (hname.extends_join staging).append hbelow
        rw [hextends.join hchildName, List.append_assoc, ← ofNames_append]
        have hlength : directory.length + 1 ≤ e.path.length := by
          rw [htext, List.length_append, ofNames_cons, List.length_cons]
          omega
        refine ih hwalked (hdir.trans ⟨_, hnames, htext⟩) ?_ fun d hd => ?_
        · rw [List.forall_mem_append]
          exact ⟨hbelow, hnames⟩
        · have hlt := hfuel d hd
          omega
      · trivial
      · split
        · rename_i hnone
          have hkey := List.find?_eq_none.mp hnone e he
          simp at hkey
        · rename_i e' he'
          split_ifs
          · trivial
          · exact safe_py trivial
    · exact safe_py ⟨hlands, fetches_plain hwalk hsource hclean hdir hbatch⟩

theorem lt_walkFuel {walked : List PyStr} {directory : PyStr} (h : directory ∈ walked) :
    directory.length < walkFuel walked := by
  have hle : ∀ lengths : List ℕ, ∀ x ∈ lengths, x ≤ lengths.foldr max 0 := by
    intro lengths
    induction lengths with
    | nil => simp
    | cons y ys ih =>
      intro x hx
      rw [List.foldr_cons]
      rcases List.mem_cons.mp hx with rfl | hx
      · exact le_max_left _ _
      · exact (ih x hx).trans (le_max_right _ _)
  exact Nat.lt_succ_of_le (hle _ _ (List.mem_map_of_mem h))

/-- What the second listing names is clean. -/
theorem Listed.clean {path : PyStr} {listsStarts : Bool} (hstarts : ∀ start ∈ starts, Clean start)
    (h : Listed starts listsStarts path) : Clean path := by
  rcases h with ⟨start, hmem, hbelow⟩ | ⟨-, hmem⟩
  · exact hbelow.atOrBelow.clean (hstarts start hmem)
  · exact hstarts path hmem

theorem safe_fetchWalkedSources {walked skipped : List PyStr}
    (hsources : ∀ source ∈ sources, Clean source)
    (hwalked : ∀ directory ∈ walked, ∃ source ∈ sources, AtOrBelow source directory) :
    SafePy vmHost sources staging (fun _ => True)
      (fetchWalkedSources vmHost staging sources walked skipped) := by
  have hclean : ∀ directory ∈ walked, Clean directory := by
    intro directory hdir
    obtain ⟨source, hmem, hbelow⟩ := hwalked directory hdir
    exact hbelow.clean (hsources source hmem)
  have hstarts : ∀ start ∈ sorted walked, Clean start :=
    fun start hstart => hclean start (mem_sorted.mp hstart)
  unfold fetchWalkedSources
  split_ifs with hempty
  · trivial
  refine (safe_listGuest hstarts).bind fun entries hentries => issues_each fun source hsource => ?_
  rw [List.mem_filter, decide_eq_true_eq] at hsource
  have hwalk : GuestWalk.Sound ⟨entries, walked, skipped⟩ sources :=
    ⟨hclean, fun e he => (hentries e he).clean hstarts⟩
  have hsafe : SafePy vmHost sources staging (fun _ => True)
      (fetchWalked vmHost ⟨entries, walked, skipped⟩ source (walkFuel walked) source
        (join staging (basename source) ++ ofNames [])) :=
    safe_fetchWalked hwalk hsource.1 (hsources source hsource.1).basename_isName hsource.2
      (.refl source) (by simp) (fun d hd => Nat.lt_add_left _ (lt_walkFuel hd))
  simpa using hsafe

theorem safe_fetchWhole {whole : List PyStr} (hwhole : ∀ source ∈ whole, source ∈ sources) :
    SafePy vmHost sources staging (fun _ => True) (fetchWhole vmHost staging whole) := by
  unfold fetchWhole
  split_ifs with hempty
  · trivial
  · refine safe_py ⟨.inl rfl, fun operand hoperand => ?_⟩
    obtain ⟨source, hsource, rfl⟩ := List.mem_map.mp hoperand
    exact ⟨source, hwhole source hsource, source, .refl source, rfl⟩

/-! ## The whole fetch -/

/-- **A lying listing.**  For sources that `guest_path` accepted and whatever the two
listings print, the fetch issues only safe commands, and it returns or gives up with a
`YoError` or the failure of a command: no key is missing, and no walk is endless. -/
theorem fetchGuestSources_safe (vmHost : PyStr) (sources : List PyStr) (staging : PyStr)
    (haccepted : ∀ source ∈ sources, Paths.Accepted source) :
    (fetchGuestSources vmHost sources staging).Issues (Safe vmHost sources staging) Proper
      fun _ => True := by
  have hsources : ∀ source ∈ sources, Clean source :=
    fun source hmem => (haccepted source hmem).clean
  refine (safe_findBuildOutput hsources).bind fun output houtput => ?_
  obtain ⟨walked, hwalked, hall⟩ := walkedOf_ends hsources houtput
  rw [hwalked]
  exact (safe_fetchWhole fun source hsource => (List.mem_filter.mp hsource).1).bind fun _ _ =>
    (safe_fetchWalkedSources hsources hall).bind fun _ _ =>
    issues_each fun pair _ => safe_py trivial

/-- A source in the agent's home. -/
def sampleSource : PyStr := lit "/home/agent/proj"

theorem fetchGuestSources_safe_sample :
    (fetchGuestSources (lit "lima-yolobox") [sampleSource] (lit "/Users/op/src/.yo-cp-x")).Issues
      (Safe (lit "lima-yolobox") [sampleSource] (lit "/Users/op/src/.yo-cp-x")) Proper
      fun _ => True :=
  fetchGuestSources_safe _ _ _ fun source hsource => by
    rw [List.mem_singleton.mp hsource]
    exact ⟨sampleSource, [Paths.AGENT_HOME], .inl rfl, by decide⟩

end Cp
