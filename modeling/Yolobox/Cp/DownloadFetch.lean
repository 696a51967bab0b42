/-
# A fetch goes through no symlink

Whatever the guest prints and whatever scp leaves under the names it was asked for, no
command of a fetch reaches a symlink, and what stands in the staging directory stands under
the name of a source.  The invariant is that scp is only ever asked to fill names at which
nothing stands yet: a directory is walked before its plain children are fetched, and names
in one directory differ.
-/
import Yolobox.Cp.Download

open Script FileTree Posix Utf8

namespace Cp

variable {vmHost staging : PyStr} {admits : List ℕ → ℕ → Prop} {sources : List PyStr} {st st₀ st' : Staging}
  {here p q : Path} {n : PyStr} {free free' : PyStr → Prop}

/-! ## Symlinks -/

/-- On the way to an entry there are directories only. -/
theorem isLink_above (h : nodeAt st.tree (p ++ q) ≠ none) (hq : q ≠ []) : isLink st.tree p = false := by
  obtain ⟨a, ha⟩ := dir_of_nodeAt_append h hq
  exact isLink_of_dir ha

theorem isLink_of_none (h : nodeAt st.tree p = none) : isLink st.tree p = false := by
  rw [isLink, h]

theorem nodeAt_below_none (h : nodeAt st.tree p = none) : nodeAt st.tree (p ++ q) = none := by
  by_contra hsome
  by_cases hq : q = []
  · rw [hq, List.append_nil] at hsome
    exact hsome h
  · obtain ⟨a, ha⟩ := dir_of_nodeAt_append hsome hq
    rw [h] at ha
    cases ha

theorem not_linkNear (hdir : IsDir (nodeAt st.tree here)) (hnone : nodeAt st.tree (here ++ [n]) = none) :
    ¬ LinkNear st.tree (here ++ [n]) := by
  obtain ⟨a, ha⟩ := hdir
  rintro ⟨q, habove | ⟨r, rfl⟩, hlink⟩
  · rcases (List.prefix_concat_iff).mp habove with rfl | ⟨r, rfl⟩
    · rw [isLink_of_none hnone] at hlink
      cases hlink
    · by_cases hr : r = []
      · subst hr
        rw [List.append_nil] at ha
        rw [isLink_of_dir ha] at hlink
        cases hlink
      · rw [isLink_above (by rw [ha]; exact Option.some_ne_none _) hr] at hlink
        cases hlink
  · rw [isLink_of_none (nodeAt_below_none hnone)] at hlink
    cases hlink

/-! ## One directory of the fetch -/

/-- Nothing escaped, and everything outside a path is as it was. -/
structure Kept (p : Path) (st st' : Staging) : Prop where
  escaped : st'.escaped = false
  frame : ∀ q, ¬ p <+: q → nodeAt st'.tree q = nodeAt st.tree q

/-- A directory being filled, with names at which nothing stands. -/
structure Filling (st₀ : Staging) (here : Path) (free : PyStr → Prop) (st : Staging) : Prop
    extends Kept here st₀ st where
  dir : IsDir (nodeAt st.tree here)
  free : ∀ n, free n → nodeAt st.tree (here ++ [n]) = none

theorem Filling.leads (h : Filling st₀ here free st) : Leads st.tree (here ++ [n]) := by
  obtain ⟨a, ha⟩ := h.dir
  exact (leads_of_nodeAt (by simp [ha])).concat ha

theorem Filling.mono (h : Filling st₀ here free st) (hfree : ∀ n, free' n → free n) :
    Filling st₀ here free' st := ⟨h.toKept, h.dir, fun n hn => h.free n (hfree n hn)⟩

theorem not_concat_prefix_self : ¬ here ++ [n] <+: here := by
  intro h
  have hlength := h.length_le
  rw [List.length_append, List.length_singleton] at hlength
  omega

theorem concat_prefix_concat {n' : PyStr} (h : here ++ [n] <+: here ++ [n']) : n = n' := by
  rw [List.prefix_append_right_inj, List.cons_prefix_cons] at h
  exact h.1

/-- What is kept outside an entry is kept outside its directory. -/
theorem Filling.kept_entry (h : Filling st₀ here free st) (hkept : Kept (here ++ [n]) st st') :
    Kept here st₀ st' := by
  refine ⟨hkept.escaped, fun q hq => ?_⟩
  rw [hkept.frame q fun hbelow => hq ((List.prefix_append here [n]).trans hbelow), h.frame q hq]

theorem Filling.entry (h : Filling st₀ here free st) (hkept : Kept (here ++ [n]) st st')
    (hfree : ∀ n', free' n' → free n' ∧ n' ≠ n) : Filling st₀ here free' st' := by
  refine ⟨h.kept_entry hkept, ?_, fun n' hn' => ?_⟩
  · rw [hkept.frame here not_concat_prefix_self]
    exact h.dir
  · rw [hkept.frame _ fun hbelow => (hfree n' hn').2 (concat_prefix_concat hbelow).symm]
    exact h.free n' (hfree n' hn').1

/-- An scp that fills free names. -/
theorem Filling.copied {operands : List PyStr} (h : Filling st₀ here free st)
    (hcopied : Copied vmHost admits operands here st st') (hapart : PlacedApart vmHost admits operands)
    (hplaces : ∀ o ∈ operands, ∀ n, Places vmHost admits o n → free n)
    (hfree : ∀ n, free' n → free n ∧ ∀ o ∈ operands, ¬ Places vmHost admits o n) :
    Filling st₀ here free' st' := by
  have hsame (q : Path) (hq : ∀ n, here ++ [n] <+: q → ∀ o ∈ operands, ¬ Places vmHost admits o n) :
      nodeAt st'.tree q = nodeAt st.tree q :=
    hcopied.frame q fun o ho n hn hbelow => hq n hbelow o ho hn
  refine ⟨⟨?_, fun q hq => ?_⟩, ?_, fun n hn => ?_⟩
  · rw [← Bool.not_eq_true]
    intro hescaped
    rcases hcopied.escaped hescaped with hbefore | hdoubled | ⟨o, ho, n, hn, hlink⟩
    · rw [h.escaped] at hbefore
      cases hbefore
    · exact hdoubled hapart
    · exact not_linkNear h.dir (h.free n (hplaces o ho n hn)) hlink
  · rw [hsame q fun n hbelow => absurd ((List.prefix_append here [n]).trans hbelow) hq, h.frame q hq]
  · rw [hsame here fun n hbelow => absurd hbelow not_concat_prefix_self]
    exact h.dir
  · rw [hsame (here ++ [n]) fun n' hbelow => concat_prefix_concat hbelow ▸ (hfree n hn).2]
    exact h.free n (hfree n hn).1

/-- A directory that is made where nothing stands. -/
theorem made_filling {done : Bool} (hescaped : st.escaped = false) (hleads : Leads st.tree here)
    (hnone : nodeAt st.tree here = none) (hmade : Made here done st st') :
    Kept here st st' ∧ (done = true → Filling st here (fun _ => True) st') := by
  have hreach : st.reach true here = st := reach_eq hleads fun _ => isLink_of_none hnone
  have hfalse : st'.escaped = false := by rw [hmade.escaped, hreach, hescaped]
  have hframe : ∀ q, q ≠ here → nodeAt st'.tree q = nodeAt st.tree q := by
    intro q hq
    by_contra hne
    obtain ⟨⟨r, rfl⟩, hmissing, -⟩ := hmade.frame q hne
    obtain ⟨a, ha⟩ := hleads q r rfl fun hr => hq (by rw [hr, List.append_nil])
    rw [hmissing] at ha
    cases ha
  have hkept : Kept here st st' := by
    refine ⟨hfalse, fun q hq => hframe q ?_⟩
    rintro rfl
    exact hq List.prefix_rfl
  refine ⟨hkept, fun hdone => ⟨hkept, ?_, fun n _ => ?_⟩⟩
  · refine (hmade.made hdone).resolve_left ?_
    rw [hfalse]
    exact Bool.false_ne_true
  · rw [hframe _ (by simp), nodeAt_below_none hnone]

/-! ## Paths and operands -/

theorem within_ofNames {ns : List PyStr} (hns : ∀ n ∈ ns, IsName n) :
    within staging (staging ++ ofNames ns) = some ns := by
  unfold within
  by_cases hnil : ns = []
  · rw [hnil, ofNames_nil, List.append_nil, if_pos rfl]
  · obtain ⟨n, ns', rfl⟩ := List.exists_cons_of_ne_nil hnil
    rw [if_neg (by simp), if_pos, List.drop_left, names_ofNames hns]
    rw [startswith_iff]
    exact ⟨n ++ ofNames ns', by simp⟩

theorem places_iff {path : PyStr} :
    Places vmHost admits (scpGuestSource vmHost path) n ↔ n = basename path := by
  constructor
  · rintro ⟨pattern, path', hoperand, hmatches, rfl⟩
    rw [scpGuestSource, List.append_cancel_left_eq, List.cons.injEq] at hoperand
    rw [← hoperand.2, scpGlobEscape_matches] at hmatches
    rw [hmatches]
  · rintro rfl
    exact ⟨scpGlobEscape path, path, rfl, (scpGlobEscape_matches admits path path).mpr rfl, rfl⟩

/-- Paths of different names are placed apart. -/
theorem placedApart_map {paths : List PyStr} (h : (paths.map basename).Nodup) :
    PlacedApart vmHost admits (paths.map (scpGuestSource vmHost)) := by
  rw [PlacedApart, List.pairwise_map]
  rw [List.Nodup, List.pairwise_map] at h
  refine h.imp fun {path path'} hne n hn hn' => hne ?_
  rw [places_iff] at hn hn'
  rw [← hn, ← hn']

/-! ## Listings -/

theorem setdefault_nodup {entries entries' : List GuestEntry} {entry : GuestEntry}
    (hnodup : (entries.map GuestEntry.path).Nodup) (h : setdefault entries entry = .ok entries') :
    (entries'.map GuestEntry.path).Nodup := by
  unfold setdefault at h
  split at h
  · rename_i hnone
    rw [Except.ok.injEq] at h
    rw [← h, List.map_append, List.map_singleton, List.nodup_append]
    refine ⟨hnodup, List.nodup_singleton _, fun path hpath path' hpath' heq => ?_⟩
    obtain ⟨e, he, rfl⟩ := List.mem_map.mp hpath
    have hne := List.find?_eq_none.mp hnone e he
    rw [List.mem_singleton] at hpath'
    rw [heq, hpath', beq_self_eq_true] at hne
    exact hne rfl
  · split_ifs at h
    rw [Except.ok.injEq] at h
    exact h ▸ hnodup

/-- A listing describes a path once. -/
theorem readRecords_nodup {starts : List PyStr} {listsStarts : Bool} {records : List (List Byte)}
    {entries found : List GuestEntry} (hnodup : (entries.map GuestEntry.path).Nodup)
    (h : readRecords starts listsStarts records entries = .ok found) :
    (found.map GuestEntry.path).Nodup := by
  induction records generalizing entries with
  | nil =>
    rw [readRecords, Except.ok.injEq] at h
    exact h ▸ hnodup
  | cons record records ih =>
    unfold readRecords at h
    split_ifs at h with hempty
    · exact ih hnodup h
    · cases hparse : parseGuestRecord record starts listsStarts with
      | error refusal => simp [hparse] at h
      | ok entry =>
        cases hset : setdefault entries entry with
        | error refusal => simp [hparse, hset] at h
        | ok entries' =>
          simp only [hparse, hset] at h
          exact ih (setdefault_nodup hnodup hset) h

theorem children_nodup {walk : GuestWalk} (h : (walk.entries.map GuestEntry.path).Nodup) (directory : PyStr) :
    (walk.children directory).Nodup :=
  ((List.perm_insertionSort _ _).nodup_iff.mpr h).filter _

/-- A child of a clean directory, and its name. -/
theorem GuestWalk.Sound.child {walk : GuestWalk} (hwalk : walk.Sound sources) {directory child : PyStr}
    (hdir : Clean directory) (h : child ∈ walk.children directory) :
    IsName (basename child) ∧ child = directory ++ ofNames [basename child] := by
  obtain ⟨⟨e, he, rfl⟩, hparent⟩ := GuestWalk.mem_children.mp h
  exact hdir.child (hwalk.entries e he) hparent

/-- Children of one directory have different names. -/
theorem GuestWalk.Sound.basename_inj {walk : GuestWalk} (hwalk : walk.Sound sources) {directory : PyStr}
    (hdir : Clean directory) {child child' : PyStr} (h : child ∈ walk.children directory)
    (h' : child' ∈ walk.children directory) (heq : basename child = basename child') : child = child' := by
  rw [(hwalk.child hdir h).2, (hwalk.child hdir h').2, heq]

/-! ## The walk -/

/-- A command that leaves a state of a kind, however it ends. -/
theorem wp_py {c : Cmd} {m : Machine Answer Staging} {Q : Post Raised (Answer c) Staging} (hkill : Q.killed st)
    (hstep : ∀ r st', m c st r st' → Q.killed st' ∧ Q.raised .commandFailed st' ∧
      ∀ a, r = some a → Q.returned a st') : (py c).wp m Q st := by
  refine (wp_cmd _ _ _ _).mpr ⟨hkill, fun a st' hm => ?_, fun st' hm => ?_⟩
  · exact ⟨(hstep _ _ hm).1, (hstep _ _ hm).2.2 a rfl⟩
  · exact ⟨(hstep _ _ hm).1, (hstep _ _ hm).2.1⟩

variable {walk : GuestWalk} {directory : PyStr}

/-- The batches of plain children. -/
theorem wp_batches {operands : List PyStr} (hhere : ∀ n ∈ here, IsName n)
    (hapart : PlacedApart vmHost admits operands)
    (hst : Filling st₀ here (fun n => ∃ o ∈ operands, Places vmHost admits o n) st) :
    (each (inBatches operands) fun batch => py (.scp batch (staging ++ ofNames here))).wp
      (fetching vmHost admits staging)
      ⟨fun _ => Filling st₀ here fun _ => False, fun _ => Kept here st₀, Kept here st₀⟩ st := by
  refine wp_each (I := fun rest => Filling st₀ here fun n => ∃ o ∈ rest.flatten, Places vmHost admits o n)
    (fun batch rest st hsuffix hst => ?_) (fun st hst => hst.mono fun n hn => hn.elim) ?_
  · obtain ⟨front, hfront⟩ := hsuffix
    have hleft : PlacedApart vmHost admits (batch ++ rest.flatten) := by
      rw [← flatten_inBatches operands, ← hfront, List.flatten_append, List.flatten_cons] at hapart
      exact (List.pairwise_append.mp hapart).2.1
    obtain ⟨hbatch, -, hcross⟩ := List.pairwise_append.mp hleft
    refine wp_py hst.toKept fun r st' hm => ?_
    have hcopied := hm here (within_ofNames hhere) hst.dir
    have hafter : Filling st₀ here (fun n => ∃ o ∈ rest.flatten, Places vmHost admits o n) st' := by
      refine hst.copied hcopied hbatch (fun o ho n hn => ⟨o, ?_, hn⟩) ?_
      · exact List.mem_flatten_of_mem List.mem_cons_self ho
      · rintro n ⟨o, ho, hn⟩
        refine ⟨⟨o, List.mem_flatten.mpr ?_, hn⟩, fun o' ho' hn' => hcross o' ho' o ho n hn' hn⟩
        obtain ⟨batch', hbatch', ho⟩ := List.mem_flatten.mp ho
        exact ⟨batch', List.mem_cons_of_mem batch hbatch', ho⟩
    exact ⟨hafter.toKept, hafter.toKept, fun _ _ => hafter⟩
  · rw [flatten_inBatches]
    exact hst

/-- The plain children of a directory have names of their own. -/
theorem plainChildren_nodup (hwalk : walk.Sound sources) (hdir : Clean directory)
    (hnodup : (walk.entries.map GuestEntry.path).Nodup) :
    ((plainChildren walk directory).map basename).Nodup := by
  refine List.Nodup.map_on (fun child hchild child' hchild' heq => ?_) ((children_nodup hnodup directory).filter _)
  exact hwalk.basename_inj hdir (List.mem_filter.mp hchild).1 (List.mem_filter.mp hchild').1 heq

/-- **The walk** fills one directory where nothing stood, and follows no symlink. -/
theorem wp_fetchWalked (hwalk : walk.Sound sources) (hnodup : (walk.entries.map GuestEntry.path).Nodup)
    (hstaging : Extends staging) {source : PyStr} {fuel : ℕ} (hdir : Clean directory) (hhere : ∀ n ∈ here, IsName n)
    (hescaped : st.escaped = false) (hleads : Leads st.tree here) (hnone : nodeAt st.tree here = none) :
    (fetchWalked vmHost walk source fuel directory (staging ++ ofNames here)).wp (fetching vmHost admits staging)
      ⟨fun _ => Kept here st, fun _ => Kept here st, Kept here st⟩ st := by
  have hstart : Kept here st st := ⟨hescaped, fun _ _ => rfl⟩
  induction fuel generalizing directory here st with
  | zero => exact hstart
  | succ fuel ih =>
    unfold fetchWalked
    split
    · exact hstart
    rename_i entry hentry
    split_ifs with hchanged
    · exact hstart
    refine wp_seq (wp_py hstart fun r st₁ hm => ?_)
    obtain ⟨hkept, hfilling⟩ := made_filling hescaped hleads hnone (hm here (within_ofNames hhere))
    refine ⟨hkept, hkept, fun a ha => ?_⟩
    have hst₁ := hfilling (by rw [ha]; rfl)
    clear hm hfilling hkept
    refine wp_seq (wp_mono (Q := ⟨fun _ => Filling st here fun n => ∃ child ∈ plainChildren walk directory, basename child = n,
      fun _ => Kept here st, Kept here st⟩) ?_ (fun _ st₂ hst₂ => ?_) (fun _ _ h => h) fun _ h => h)
    · -- the children, the walked ones first
      refine wp_each (I := fun rest => Filling st here fun n =>
        ∃ child, (child ∈ rest ∨ child ∈ plainChildren walk directory) ∧ basename child = n)
        (fun child rest st₂ hsuffix hst₂ => ?_) (fun st₂ hst₂ => hst₂.mono ?_) (hst₁.mono fun _ _ => trivial)
      · have hchild : child ∈ walk.children directory := hsuffix.subset List.mem_cons_self
        obtain ⟨hname, htext⟩ := hwalk.child hdir hchild
        have hmono : Filling st here (fun n =>
            ∃ child, (child ∈ rest ∨ child ∈ plainChildren walk directory) ∧ basename child = n) st₂ := by
          refine hst₂.mono ?_
          rintro n ⟨child', hchild' | hchild', hn⟩
          · exact ⟨child', .inl (List.mem_cons_of_mem child hchild'), hn⟩
          · exact ⟨child', .inr hchild', hn⟩
        split_ifs with hwalked hskipped
        · have hnames : ∀ n ∈ here ++ [basename child], IsName n := by
            rw [List.forall_mem_append, List.forall_mem_singleton]
            exact ⟨hhere, hname⟩
          rw [(hstaging.append hhere).join hname, List.append_assoc, ← ofNames_append]
          refine wp_mono (ih (hwalk.walked child hwalked) hnames hst₂.escaped hst₂.leads
            (hst₂.free _ ⟨child, .inl List.mem_cons_self, rfl⟩) ⟨hst₂.escaped, fun _ _ => rfl⟩)
            (fun _ st₃ hkept => hmono.entry hkept ?_) (fun _ st₃ hkept => hst₂.kept_entry hkept)
            fun st₃ hkept => hst₂.kept_entry hkept
          rintro n ⟨child', hchild', rfl⟩
          refine ⟨⟨child', hchild', rfl⟩, fun heq => ?_⟩
          have hrest : child ∉ rest :=
            (List.nodup_cons.mp (hsuffix.sublist.nodup (children_nodup hnodup directory))).1
          rcases hchild' with hchild' | hchild'
          · have hmem := hsuffix.subset (List.mem_cons_of_mem child hchild')
            exact hrest (hwalk.basename_inj hdir hmem hchild heq ▸ hchild')
          · obtain ⟨hmem, hplain⟩ := List.mem_filter.mp hchild'
            rw [hwalk.basename_inj hdir hmem hchild heq] at hplain
            simp [hwalked] at hplain
        · exact hmono
        · split
          · exact hst₂.toKept
          · split_ifs
            · exact hmono
            · refine wp_py hst₂.toKept fun r st₃ hm => ?_
              rw [show st₃ = st₂ from hm]
              exact ⟨hst₂.toKept, hst₂.toKept, fun _ _ => hmono⟩
      · rintro n ⟨child, hchild, hname⟩
        exact ⟨child, .inr hchild, hname⟩
    · refine wp_seq (wp_mono (wp_batches hhere (placedApart_map (plainChildren_nodup hwalk hdir hnodup)) ?_)
        (fun _ st₃ hst₃ => ?_) (fun _ _ h => h) fun _ h => h)
      · refine hst₂.mono ?_
        rintro n ⟨o, ho, hn⟩
        obtain ⟨child, hchild, rfl⟩ := List.mem_map.mp ho
        exact ⟨child, hchild, (places_iff.mp hn).symm⟩
      · refine wp_py (Q := ⟨fun _ => Kept here st, fun _ => Kept here st, Kept here st⟩) hst₃.toKept
          fun r st₄ hm => ?_
        obtain ⟨a, ha⟩ := hst₃.dir
        rw [hm here (within_ofNames hhere), reach_eq (leads_of_nodeAt (by simp [ha])) fun _ => isLink_of_dir ha]
        exact ⟨hst₃.toKept, hst₃.toKept, fun _ _ => hst₃.toKept⟩

/-! ## The whole fetch -/

def Cmd.isFind : Cmd → Prop
  | .find _ _ => True
  | _ => False

theorem find_keeps {c : Cmd} {r : Option (Answer c)} (hfind : c.isFind) (h : fetching vmHost admits staging c st r st') :
    st' = st := by
  cases c with
  | find starts tests => exact h
  | _ => exact hfind.elim

/-- A listing only asks `find`, and describes a path once. -/
theorem listGuest_finds (starts tests : List PyStr) (listsStarts : Bool) :
    (listGuest starts tests listsStarts).Issues Cmd.isFind (fun _ => True)
      fun found => (found.map GuestEntry.path).Nodup := by
  refine Issues.bind (issues_cmd (A := fun _ => True) trivial trivial fun _ => trivial) fun answer _ => ?_
  obtain ⟨returncode, stdout⟩ := answer
  simp only
  split_ifs with hcode
  · trivial
  · cases hread : readRecords starts listsStarts (stdout.splitOn 0) [] with
    | error refusal => trivial
    | ok found => exact readRecords_nodup (show (([] : List GuestEntry).map GuestEntry.path).Nodup from List.nodup_nil) hread

theorem findBuildOutput_finds (sources : List PyStr) :
    (findBuildOutput sources).Issues Cmd.isFind (fun _ => True) fun _ => True := by
  refine (listGuest_finds _ _ _).bind fun found _ => ?_
  unfold judge
  split
  · trivial
  · split_ifs
    · trivial
    · split <;> trivial

/-- What stands in the staging directory stands under the name of a source, and no symlink was
followed. -/
def Fetched (sources : List PyStr) (st : Staging) : Prop :=
  Filling emptyStaging [] (fun n => ∀ source ∈ sources, basename source ≠ n) st

/-- Sources that are left have nothing at their names. -/
def Left (sources rest : List PyStr) (st : Staging) : Prop :=
  Filling emptyStaging [] (fun n => ∀ source ∈ sources, basename source = n → source ∈ rest) st

theorem Left.fetched {rest : List PyStr} (h : Left sources rest st) : Fetched sources st :=
  Filling.mono h fun _ hn source hmem heq => absurd heq (hn source hmem)

theorem left_emptyStaging (sources : List PyStr) : Left sources sources emptyStaging := by
  refine ⟨⟨rfl, fun _ _ => rfl⟩, ⟨_, rfl⟩, fun n _ => ?_⟩
  simp [emptyStaging, nodeAt_cons, entry]

theorem within_self (staging : PyStr) : within staging (staging ++ ofNames []) = some [] := within_ofNames (List.forall_mem_nil _)

/-- The sources that hold no build output. -/
theorem wp_fetchWhole {walked : List PyStr} (hnodup : (sources.map basename).Nodup) :
    (fetchWhole vmHost staging (sources.filter fun source => decide (source ∉ walked))).wp
      (fetching vmHost admits staging)
      ⟨fun _ => Left sources (sources.filter fun source => decide (source ∈ walked)), fun _ => Fetched sources,
        Fetched sources⟩ emptyStaging := by
  have hmono : ∀ st, Filling emptyStaging [] (fun n => ∀ source ∈ sources, basename source = n → source ∈ walked) st →
      Left sources (sources.filter fun source => decide (source ∈ walked)) st := fun st hst =>
    hst.mono fun n hn source hmem heq => by simpa using (List.mem_filter.mp (hn source hmem heq)).2
  have hleft := left_emptyStaging sources
  unfold fetchWhole
  split_ifs with hempty
  · refine hmono _ (Filling.mono hleft fun n _ source hmem _ => hmem)
  · refine wp_py hleft.fetched fun r st hm => ?_
    have hcopied := hm [] (by simpa using within_self staging) hleft.dir
    have hapart : PlacedApart vmHost admits
        ((sources.filter fun source => decide (source ∉ walked)).map (scpGuestSource vmHost)) :=
      placedApart_map (hnodup.sublist (List.filter_sublist.map basename))
    have hafter : Left sources (sources.filter fun source => decide (source ∈ walked)) st := by
      refine hmono _ (Filling.copied hleft hcopied hapart (fun o ho n hn source hmem _ => hmem) ?_)
      intro n hn
      refine ⟨fun source hmem _ => hmem, fun o ho hplaces => ?_⟩
      obtain ⟨source, hsource, rfl⟩ := List.mem_map.mp ho
      obtain ⟨hmem, hwhole⟩ := List.mem_filter.mp hsource
      exact of_decide_eq_true hwhole (hn source hmem (places_iff.mp hplaces).symm)
    exact ⟨hafter.fetched, hafter.fetched, fun _ _ => hafter⟩

/-- The sources that are walked. -/
theorem wp_fetchWalkedSources {walked skipped : List PyStr} (hnodup : (sources.map basename).Nodup)
    (hstaging : Extends staging) (hsources : ∀ source ∈ sources, Clean source)
    (hwalked : ∀ directory ∈ walked, ∃ source ∈ sources, AtOrBelow source directory)
    (hst : Left sources (sources.filter fun source => decide (source ∈ walked)) st) :
    (fetchWalkedSources vmHost staging sources walked skipped).wp (fetching vmHost admits staging)
      ⟨fun _ => Fetched sources, fun _ => Fetched sources, Fetched sources⟩ st := by
  have hclean : ∀ directory ∈ walked, Clean directory := by
    intro directory hdir
    obtain ⟨source, hmem, hbelow⟩ := hwalked directory hdir
    exact hbelow.clean (hsources source hmem)
  have hstarts : ∀ start ∈ sorted walked, Clean start :=
    fun start hstart => hclean start (mem_sorted.mp hstart)
  unfold fetchWalkedSources
  split_ifs with hempty
  · exact hst.fetched
  refine wp_seq (wp_mono (issues_wp (I := fun st' => st' = st) (fun c st r st' hfind hst hm => ?_)
    (show SafePy vmHost sources staging _ _ from safe_listGuest hstarts)
    (listGuest_finds _ _ _) rfl) (fun entries st' h => ?_) (fun _ st' h => ?_) fun st' h => ?_)
  · rw [find_keeps hfind hm, hst]
  · obtain ⟨⟨hlisted, hpaths⟩, rfl⟩ := h
    have hwalk : GuestWalk.Sound ⟨entries, walked, skipped⟩ sources :=
      ⟨hclean, fun e he => (hlisted e he).clean hstarts⟩
    refine wp_each (I := Left sources) (fun source rest st₁ hsuffix hst₁ => ?_) (fun st₁ hst₁ => hst₁.fetched) hst
    obtain ⟨hmem, -⟩ := List.mem_filter.mp (hsuffix.subset List.mem_cons_self)
    have hname := (hsources source hmem).basename_isName
    have hown : ∀ source' ∈ sources, basename source' = basename source → source' = source :=
      fun source' hmem' heq => List.inj_on_of_nodup_map hnodup hmem' hmem heq
    have hrest : source ∉ rest :=
      (List.nodup_cons.mp (hsuffix.sublist.nodup ((hnodup.of_map basename).filter _))).1
    rw [hstaging.join hname]
    refine wp_mono (wp_fetchWalked hwalk hpaths hstaging (hsources source hmem)
      (List.forall_mem_singleton.mpr hname) hst₁.escaped (Filling.leads hst₁) (hst₁.free _ fun source' hmem' heq => ?_))
      (fun _ st₂ hkept => Filling.entry hst₁ hkept ?_) (fun _ st₂ hkept => Filling.entry hst₁ hkept ?_)
      fun st₂ hkept => Filling.entry hst₁ hkept ?_
    · rw [hown source' hmem' heq]
      exact List.mem_cons_self
    · exact fun n hn => ⟨fun source' hmem' heq => List.mem_cons_of_mem source (hn source' hmem' heq),
        fun heq => hrest (hn source hmem heq.symm)⟩
    · exact fun n hn => ⟨fun source' hmem' heq => absurd heq (hn source' hmem'), (hn source hmem).symm⟩
    · exact fun n hn => ⟨fun source' hmem' heq => absurd heq (hn source' hmem'), (hn source hmem).symm⟩
  · exact h ▸ hst.fetched
  · exact h ▸ hst.fetched

/-- **The fetch**, however it ends. -/
theorem fetched_of_ends (haccepted : ∀ source ∈ sources, Paths.Accepted source)
    (hnodup : (sources.map basename).Nodup) (hstaging : Extends staging) {outcome : Outcome Raised Unit}
    (h : (fetchGuestSources vmHost sources staging).Ends (fetching vmHost admits staging) emptyStaging outcome st) :
    Fetched sources st := by
  have hsources : ∀ source ∈ sources, Clean source := fun source hmem => (haccepted source hmem).clean
  have hwp : (fetchGuestSources vmHost sources staging).wp (fetching vmHost admits staging)
      ⟨fun _ => Fetched sources, fun _ => Fetched sources, Fetched sources⟩ emptyStaging := by
    refine wp_seq (wp_mono (issues_wp (I := fun st' => st' = emptyStaging) (fun c st r st' hfind hst hm => ?_)
      (show SafePy vmHost sources staging _ _ from safe_findBuildOutput hsources) (findBuildOutput_finds sources) rfl)
      (fun output st' h => ?_) (fun _ st' h => ?_) fun st' h => ?_)
    · rw [find_keeps hfind hm, hst]
    · obtain ⟨⟨houtput, -⟩, rfl⟩ := h
      obtain ⟨walked, hwalkedOf, hwalked⟩ := walkedOf_ends hsources houtput
      dsimp only
      rw [hwalkedOf]
      refine wp_seq (wp_mono (wp_fetchWhole hnodup) (fun _ st₁ hst₁ => ?_) (fun _ _ h => h) fun _ h => h)
      refine wp_seq (wp_mono (wp_fetchWalkedSources hnodup hstaging hsources hwalked hst₁) (fun _ st₂ hst₂ => ?_)
        (fun _ _ h => h) fun _ h => h)
      refine wp_each (I := fun _ => Fetched sources) (fun pair rest st₃ _ hst₃ => ?_) (fun _ hst₃ => hst₃) hst₂
      refine wp_py hst₃ fun r st₄ hm => ?_
      rw [show st₄ = st₃ from hm]
      exact ⟨hst₃, hst₃, fun _ _ => hst₃⟩
    · exact h ▸ (left_emptyStaging sources).fetched
    · exact h ▸ (left_emptyStaging sources).fetched
  have hholds := wp_iff.mp hwp outcome st h
  cases outcome with
  | returned a => exact hholds
  | raised e => exact hholds
  | killed => exact hholds

end Cp
