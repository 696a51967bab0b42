/-
# What is dropped from a download

Each function is described by the entries it leaves at every path, so that the
descriptions compose: unlocking adds permissions at and below a directory, removing
leaves nothing there, and the walk leaves nothing below a judged name.  No operation goes
through a symlink, because directories lead to every path it is given.
-/
import Yolobox.Cp.Control
import Yolobox.Lib.Lists

open FileTree

namespace Cp

variable {casefold : PyStr → PyStr} {st : Staging} {p q : Path} {fuel : ℕ}

/-! ## Reaching -/

theorem isRealDir_iff {t : Option Tree} : isRealDir t p = true ↔ ∃ a, nodeAt t p = some (.dir a) := by
  unfold isRealDir
  split <;> simp_all

theorem isLink_of_dir {t : Option Tree} {a : ℕ} (h : nodeAt t p = some (.dir a)) :
    isLink t p = false := by
  simp [isLink, h]

/-- Where directories lead, and no symlink is followed at the end, nothing escapes. -/
theorem reach_eq {follows : Bool} (h : Leads st.tree p)
    (hlink : follows = true → isLink st.tree p = false) : st.reach follows p = st := by
  unfold Staging.reach
  rw [linkAbove_of_leads h]
  cases follows with
  | false => simp
  | true => simp [hlink rfl]

theorem mem_names {n : PyStr} : n ∈ st.names p ↔ nodeAt st.tree (p ++ [n]) ≠ none := by
  rw [Staging.names, nodeAt_append]
  cases get p st.tree with
  | none => simp
  | some t =>
    rw [mem_listing, nodeAt_cons, Option.bind_some]
    cases entry n t <;> simp

theorem nodup_names (st : Staging) (p : Path) : (st.names p).Nodup := by
  unfold Staging.names
  split
  · exact List.nodup_nil
  · exact nodup_listing _

/-! ## Unlocking -/

/-- An entry with the operator's permissions, when it is a directory. -/
def unlockedNode : Node Leaf ℕ → Node Leaf ℕ
  | .leaf a => .leaf a
  | .dir mode => .dir (unlockedMode mode)

theorem nodeAt_chmod {mode : ℕ} (mode' : ℕ) (h : nodeAt st.tree p = some (.dir mode)) :
    (st.chmod p mode').escaped = st.escaped ∧
      ∀ q, nodeAt (st.chmod p mode').tree q =
        if q = p then some (.dir mode') else nodeAt st.tree q := by
  have hleads : Leads st.tree p := leads_of_nodeAt (by simp [h])
  have hreach : st.reach true p = st := reach_eq hleads fun _ => isLink_of_dir h
  refine ⟨by rw [Staging.chmod, hreach], fun q => ?_⟩
  rw [Staging.chmod, hreach]
  obtain ⟨t, ht, hnode⟩ := Option.map_eq_some_iff.mp h
  cases t with
  | leaf a => simp [node] at hnode
  | dir a names child =>
    by_cases hpq : p <+: q
    · obtain ⟨r, rfl⟩ := hpq
      rw [nodeAt_alter_append hleads, ht]
      cases r with
      | nil => simp [node]
      | cons n r =>
        rw [if_neg (by simp), nodeAt_append, ht]
        rfl
    · rw [nodeAt_alter_of_apart hleads hpq, if_neg]
      rintro rfl
      exact hpq List.prefix_rfl

/-- Below what is not a directory there is nothing to unlock. -/
theorem map_unlocked_of_not_dir {t : Option Tree} {n : PyStr} {r : Path}
    (h : ¬ ∃ a, nodeAt t (p ++ [n]) = some (.dir a)) :
    (nodeAt t (p ++ n :: r)).map unlockedNode = nodeAt t (p ++ n :: r) := by
  by_cases hr : r = []
  · subst hr
    cases hn : nodeAt t (p ++ [n]) with
    | none => rfl
    | some m =>
      cases m with
      | leaf a => rfl
      | dir a => exact absurd ⟨a, hn⟩ h
  · have hnone : nodeAt t (p ++ n :: r) = none := by
      by_contra hsome
      rw [List.append_cons] at hsome
      exact h (dir_of_nodeAt_append hsome hr)
    rw [hnone]
    rfl

/-- **Unlocking** adds permissions to the directories at and below a directory. -/
theorem unlockTree_spec (hdir : ∃ a, nodeAt st.tree p = some (.dir a))
    (hdeep : ∀ q a, nodeAt st.tree (p ++ q) = some (.dir a) → q.length < fuel) :
    ∃ st', unlockTree fuel p st = some st' ∧ st'.escaped = st.escaped ∧
      ∀ q, nodeAt st'.tree q =
        if p <+: q then (nodeAt st.tree q).map unlockedNode else nodeAt st.tree q := by
  induction fuel generalizing p st with
  | zero =>
    obtain ⟨a, ha⟩ := hdir
    exact absurd (hdeep [] a (by rwa [List.append_nil])) (by simp)
  | succ fuel ih =>
    obtain ⟨mode, hmode⟩ := hdir
    have hleads : Leads st.tree p := leads_of_nodeAt (by simp [hmode])
    obtain ⟨hescaped, hnodes⟩ := nodeAt_chmod (unlockedMode mode) hmode
    rw [unlockTree, hmode]
    simp only
    have hlstat : st.reach false p = st := reach_eq hleads (by simp)
    rw [hlstat]
    generalize st.chmod p (unlockedMode mode) = st₁ at hescaped hnodes
    have hmode₁ : nodeAt st₁.tree p = some (.dir (unlockedMode mode)) := by
      rw [hnodes, if_pos rfl]
    have hreach : st₁.reach true p = st₁ :=
      reach_eq (leads_of_nodeAt (by simp [hmode₁])) fun _ => isLink_of_dir hmode₁
    rw [hreach]
    have hchild : ∀ n r, nodeAt st₁.tree (p ++ n :: r) = nodeAt st.tree (p ++ n :: r) := by
      intro n r
      rw [hnodes, if_neg (by simp)]
    -- the loop over the directories in it
    obtain ⟨st', hfold, hescaped', hnodes'⟩ := Lists.foldlM_inv
      (fun done s => s.escaped = st.escaped ∧ ∀ q, nodeAt s.tree q =
        if q = p ∨ ∃ n ∈ done, p ++ [n] <+: q then (nodeAt st.tree q).map unlockedNode
        else nodeAt st.tree q)
      ((st₁.names p).filter fun name => isRealDir st₁.tree (p ++ [name]))
      (f := fun st name => unlockTree fuel (p ++ [name]) st)
      (fun done name rest s hsplit hinv => by
        obtain ⟨hs, hsn⟩ := hinv
        have hmem : name ∈ (st₁.names p).filter fun name => isRealDir st₁.tree (p ++ [name]) := by
          rw [hsplit]
          simp
        have hnew : name ∉ done := by
          have hnodup := (nodup_names st₁ p).filter fun name => isRealDir st₁.tree (p ++ [name])
          rw [hsplit, List.nodup_append] at hnodup
          exact fun hdone => hnodup.2.2 name hdone name (List.mem_cons_self ..) rfl
        obtain ⟨a, ha⟩ := isRealDir_iff.mp (List.mem_filter.mp hmem).2
        have hsame : ∀ r, nodeAt s.tree (p ++ name :: r) = nodeAt st.tree (p ++ name :: r) := by
          intro r
          rw [hsn, if_neg]
          rintro (heq | ⟨n, hn, hinit⟩)
          · simp at heq
          · rw [List.prefix_append_right_inj, List.cons_prefix_cons] at hinit
            exact hnew (hinit.1 ▸ hn)
        have hsub : ∃ a, nodeAt s.tree (p ++ [name]) = some (.dir a) :=
          ⟨a, by rw [hsame, ← hchild]; exact ha⟩
        obtain ⟨s', hs', hescapes, hsn'⟩ := ih hsub fun r a hr => by
          rw [List.append_assoc, List.singleton_append, hsame] at hr
          have hlt := hdeep (name :: r) a hr
          rw [List.length_cons] at hlt
          omega
        refine ⟨s', hs', hescapes.trans hs, fun q => ?_⟩
        rw [hsn']
        by_cases hq : p ++ [name] <+: q
        · obtain ⟨r, rfl⟩ := hq
          rw [if_pos (List.prefix_append _ _), if_pos (.inr ⟨name, by simp, List.prefix_append _ _⟩),
            List.append_assoc, List.singleton_append, hsame]
        · rw [if_neg hq, hsn]
          refine if_congr ?_ rfl rfl
          simp only [List.mem_append, List.mem_singleton]
          constructor
          · rintro (heq | ⟨n, hn, hinit⟩)
            · exact .inl heq
            · exact .inr ⟨n, .inl hn, hinit⟩
          · rintro (heq | ⟨n, hn | rfl, hinit⟩)
            · exact .inl heq
            · exact .inr ⟨n, hn, hinit⟩
            · exact absurd hinit hq)
      (s := st₁) ⟨hescaped, fun q => by
        rw [hnodes]
        by_cases hq : q = p
        · subst hq
          rw [if_pos rfl, if_pos (.inl rfl), hmode]
          rfl
        · rw [if_neg hq, if_neg (by simp [hq])]⟩
    refine ⟨st', hfold, hescaped', fun q => ?_⟩
    rw [hnodes']
    by_cases hpq : p <+: q
    · obtain ⟨r, rfl⟩ := hpq
      rw [if_pos (List.prefix_append p r)]
      split_ifs with hdone
      · rfl
      · cases r with
        | nil => simp at hdone
        | cons n r =>
          refine (map_unlocked_of_not_dir ?_).symm
          rintro ⟨a, ha⟩
          refine hdone (.inr ⟨n, ?_, ?_⟩)
          · rw [List.mem_filter, mem_names, isRealDir_iff, hchild, ha]
            simp
          · exact ⟨r, by simp⟩
    · rw [if_neg hpq, if_neg]
      rintro (rfl | ⟨n, -, hinit⟩)
      · exact hpq List.prefix_rfl
      · exact hpq ((List.prefix_append p [n]).trans hinit)

/-! ## Removing -/

theorem nodeAt_remove (h : Leads st.tree p) :
    (st.remove p).escaped = st.escaped ∧
      ∀ q, nodeAt (st.remove p).tree q = if p <+: q then none else nodeAt st.tree q := by
  have hreach : st.reach false p = st := reach_eq h (by simp)
  refine ⟨by rw [Staging.remove, hreach], fun q => ?_⟩
  rw [Staging.remove, hreach]
  by_cases hpq : p <+: q
  · obtain ⟨r, rfl⟩ := hpq
    rw [nodeAt_alter_append h, if_pos (List.prefix_append p r), nodeAt_none]
  · rw [nodeAt_alter_of_apart h hpq, if_neg hpq]

theorem removeTree_spec (hdir : ∃ a, nodeAt st.tree p = some (.dir a))
    (hdeep : ∀ q a, nodeAt st.tree (p ++ q) = some (.dir a) → q.length < fuel) :
    ∃ st', removeTree fuel p st = some st' ∧ st'.escaped = st.escaped ∧
      ∀ q, nodeAt st'.tree q = if p <+: q then none else nodeAt st.tree q := by
  obtain ⟨st₁, hunlock, hescaped, hnodes⟩ := unlockTree_spec hdir hdeep
  obtain ⟨a, ha⟩ := hdir
  have hleads : Leads st₁.tree p := by
    apply leads_of_nodeAt
    rw [hnodes, if_pos List.prefix_rfl, ha]
    simp
  obtain ⟨hescaped', hnodes'⟩ := nodeAt_remove hleads
  refine ⟨st₁.remove p, by rw [removeTree, hunlock]; rfl, hescaped'.trans hescaped, fun q => ?_⟩
  rw [hnodes', hnodes]
  split_ifs <;> rfl

/-- **A judged name** is reported, and nothing is left at or below it. -/
theorem dropJudged_spec {directory : Path} {skipped : List Path} {name : PyStr}
    (hthere : nodeAt st.tree (directory ++ [name]) ≠ none)
    (hdeep : ∀ q a, nodeAt st.tree (directory ++ [name] ++ q) = some (.dir a) → q.length < fuel) :
    ∃ st', dropJudged fuel directory (st, skipped) name =
        some (st', skipped ++ [directory ++ [name]]) ∧
      st'.escaped = st.escaped ∧
      ∀ q, nodeAt st'.tree q = if directory ++ [name] <+: q then none else nodeAt st.tree q := by
  unfold dropJudged
  simp only
  split_ifs with hleaf
  · exact ⟨st.remove (directory ++ [name]), rfl, nodeAt_remove (leads_of_nodeAt hthere)⟩
  · simp only [Bool.or_eq_true, not_or, Bool.not_eq_true', Bool.not_eq_false] at hleaf
    obtain ⟨st', hremove, hrest⟩ := removeTree_spec (isRealDir_iff.mp hleaf.2) hdeep
    exact ⟨st', by rw [hremove]; rfl, hrest⟩

/-! ## The walk -/

/-- The judged names of a directory. -/
theorem dropAll_spec (skipped : List Path) {directory : Path} {judged : List PyStr}
    (hnodup : judged.Nodup)
    (hthere : ∀ n ∈ judged, nodeAt st.tree (directory ++ [n]) ≠ none)
    (hdeep : ∀ q a, nodeAt st.tree (directory ++ q) = some (.dir a) → q.length < fuel + 1) :
    ∃ st', judged.foldlM (dropJudged fuel directory) (st, skipped) =
        some (st', skipped ++ judged.map fun n => directory ++ [n]) ∧
      st'.escaped = st.escaped ∧
      ∀ q, nodeAt st'.tree q =
        if ∃ n ∈ judged, directory ++ [n] <+: q then none else nodeAt st.tree q := by
  obtain ⟨⟨st', skipped'⟩, hfold, hescaped, rfl, hnodes⟩ := Lists.foldlM_inv
    (fun done (s : Staging × List Path) => s.1.escaped = st.escaped ∧
      s.2 = skipped ++ done.map (fun n => directory ++ [n]) ∧
      ∀ q, nodeAt s.1.tree q =
        if ∃ n ∈ done, directory ++ [n] <+: q then none else nodeAt st.tree q)
    judged (f := dropJudged fuel directory)
    (fun done name rest s hsplit hinv => by
      obtain ⟨s, skipped₁⟩ := s
      obtain ⟨hs, rfl, hsn⟩ := hinv
      have hnew : name ∉ done := by
        rw [hsplit, List.nodup_append] at hnodup
        exact fun hdone => hnodup.2.2 name hdone name (List.mem_cons_self ..) rfl
      have hsame : ∀ r, nodeAt s.tree (directory ++ [name] ++ r) =
          nodeAt st.tree (directory ++ [name] ++ r) := by
        intro r
        rw [hsn, if_neg]
        rintro ⟨n, hn, hinit⟩
        rw [List.append_assoc, List.prefix_append_right_inj, List.singleton_append,
          List.cons_prefix_cons] at hinit
        exact hnew (hinit.1 ▸ hn)
      have hthere' : nodeAt s.tree (directory ++ [name]) ≠ none := by
        have hsame' := hsame []
        rw [List.append_nil] at hsame'
        rw [hsame']
        exact hthere name (by rw [hsplit]; simp)
      have hdeep' : ∀ r a, nodeAt s.tree (directory ++ [name] ++ r) = some (.dir a) →
          r.length < fuel := by
        intro r a hr
        rw [hsame, List.append_assoc] at hr
        have hlt := hdeep _ a hr
        rw [List.singleton_append, List.length_cons] at hlt
        omega
      obtain ⟨s', hdrop, hescapes, hsn'⟩ := dropJudged_spec hthere' hdeep'
      refine ⟨_, hdrop, hescapes.trans hs, by simp, fun q => ?_⟩
      rw [hsn', hsn]
      by_cases hq : directory ++ [name] <+: q
      · rw [if_pos hq, if_pos ⟨name, by simp, hq⟩]
      · rw [if_neg hq]
        refine if_congr ?_ rfl rfl
        simp only [List.mem_append, List.mem_singleton]
        constructor
        · rintro ⟨n, hn, hinit⟩
          exact ⟨n, .inl hn, hinit⟩
        · rintro ⟨n, hn | rfl, hinit⟩
          · exact ⟨n, hn, hinit⟩
          · exact absurd hinit hq)
    (s := (st, skipped)) ⟨rfl, by simp, by simp⟩
  exact ⟨st', hfold, hescaped, hnodes⟩

/-- Some name of a path is judged. -/
def controlled (casefold : PyStr → PyStr) (p : Path) : Prop :=
  ∃ n ∈ p, isControl casefold n = true

instance : DecidablePred (controlled casefold) := fun p =>
  inferInstanceAs (Decidable (∃ n ∈ p, isControl casefold n = true))

/-- A path is below a directory, by way of a judged name. -/
def Dropped (casefold : PyStr → PyStr) (directory q : Path) : Prop :=
  ∃ r, q = directory ++ r ∧ controlled casefold r

/-- A path that ends in the first judged name on it, and is there. -/
def Outermost (casefold : PyStr → PyStr) (t : Option Tree) (directory q : Path) : Prop :=
  ∃ r n, q = directory ++ r ++ [n] ∧ isControl casefold n = true ∧ ¬ controlled casefold r ∧
    nodeAt t q ≠ none

variable {t t' : Option Tree}

theorem controlled_cons {n : PyStr} {r : Path} :
    controlled casefold (n :: r) ↔ isControl casefold n = true ∨ controlled casefold r := by
  simp [controlled]

theorem Outermost.below {n : PyStr} (h : Outermost casefold t (p ++ [n]) q) :
    ∃ r, r ≠ [] ∧ q = p ++ n :: r := by
  obtain ⟨r, m, rfl, -⟩ := h
  exact ⟨r ++ [m], by simp, by simp⟩

theorem Dropped.below {n : PyStr} (h : Dropped casefold (p ++ [n]) q) :
    ∃ r, r ≠ [] ∧ q = p ++ n :: r := by
  obtain ⟨r, rfl, m, hm, -⟩ := h
  exact ⟨r, List.ne_nil_of_mem hm, by simp⟩

theorem outermost_congr (h : ∀ r, nodeAt t (p ++ r) = nodeAt t' (p ++ r)) :
    Outermost casefold t p q ↔ Outermost casefold t' p q := by
  unfold Outermost
  refine exists_congr fun r => exists_congr fun n => and_congr_right fun hq => ?_
  rw [hq, List.append_assoc, h]

theorem cons_of_append_cons {n m : PyStr} {r s : Path} (h : p ++ n :: r = p ++ m :: s) :
    n = m ∧ r = s := by
  simpa using h

/-- What is dropped from a directory: the judged names in it, and what is dropped from the
directories that are left. -/
theorem dropped_iff {judged todo : List PyStr}
    (hjudged : ∀ n, n ∈ judged ↔ nodeAt t (p ++ [n]) ≠ none ∧ isControl casefold n = true)
    (htodo : ∀ n, n ∈ todo ↔ (∃ a, nodeAt t (p ++ [n]) = some (.dir a)) ∧
      isControl casefold n = false)
    (hthere : nodeAt t q ≠ none) :
    Dropped casefold p q ↔
      (∃ n ∈ judged, p ++ [n] <+: q) ∨ ∃ n ∈ todo, Dropped casefold (p ++ [n]) q := by
  constructor
  · rintro ⟨r, rfl, hr⟩
    cases r with
    | nil => simp [controlled] at hr
    | cons n r =>
      rw [List.append_cons] at hthere
      cases hn : isControl casefold n with
      | true =>
        refine .inl ⟨n, (hjudged n).mpr ⟨?_, hn⟩, r, by simp⟩
        intro hnone
        rw [nodeAt_append] at hthere
        rw [nodeAt, Option.map_eq_none_iff] at hnone
        simp [hnone] at hthere
      | false =>
        rw [controlled_cons, hn] at hr
        have hrest : controlled casefold r := by simpa using hr
        refine .inr ⟨n, (htodo n).mpr ⟨dir_of_nodeAt_append hthere ?_, hn⟩, r, by simp, hrest⟩
        rintro rfl
        simp [controlled] at hrest
  · rintro (⟨n, hn, r, rfl⟩ | ⟨n, -, r, rfl, hr⟩)
    · exact ⟨n :: r, by simp, controlled_cons.mpr (.inl ((hjudged n).mp hn).2)⟩
    · exact ⟨n :: r, by simp, controlled_cons.mpr (.inr hr)⟩

/-- What is reported from a directory. -/
theorem outermost_iff {judged todo : List PyStr}
    (hjudged : ∀ n, n ∈ judged ↔ nodeAt t (p ++ [n]) ≠ none ∧ isControl casefold n = true)
    (htodo : ∀ n, n ∈ todo ↔ (∃ a, nodeAt t (p ++ [n]) = some (.dir a)) ∧
      isControl casefold n = false) :
    Outermost casefold t p q ↔
      (∃ n ∈ judged, q = p ++ [n]) ∨ ∃ n ∈ todo, Outermost casefold t (p ++ [n]) q := by
  constructor
  · rintro ⟨r, n, rfl, hn, hr, hthere⟩
    cases r with
    | nil =>
      rw [List.append_nil] at hthere ⊢
      exact .inl ⟨n, (hjudged n).mpr ⟨hthere, hn⟩, rfl⟩
    | cons m r =>
      rw [controlled_cons, not_or] at hr
      have hdir : ∃ a, nodeAt t (p ++ [m]) = some (.dir a) := by
        have hsplit : p ++ m :: r ++ [n] = p ++ [m] ++ (r ++ [n]) := by simp
        rw [hsplit] at hthere
        exact dir_of_nodeAt_append hthere (by simp)
      refine .inr ⟨m, (htodo m).mpr ⟨hdir, by simpa using hr.1⟩, r, n, by simp, hn, hr.2, hthere⟩
  · rintro (⟨n, hn, rfl⟩ | ⟨m, hm, r, n, rfl, hn, hr, hthere⟩)
    · obtain ⟨hthere, hcontrol⟩ := (hjudged n).mp hn
      exact ⟨[], n, by simp, hcontrol, by simp [controlled], hthere⟩
    · refine ⟨m :: r, n, by simp, hn, ?_, hthere⟩
      rw [controlled_cons, ((htodo m).mp hm).2]
      simpa using hr

open Classical in
/-- **The walk** from a directory leaves nothing at or below a judged name, changes
nothing else, and reports each outermost judged entry once. -/
theorem walkFrom_spec (casefold : PyStr → PyStr) (skipped : List Path)
    (hdir : ∃ a, nodeAt st.tree p = some (.dir a))
    (hdeep : ∀ q a, nodeAt st.tree (p ++ q) = some (.dir a) → q.length < fuel) :
    ∃ st' new, walkFrom casefold fuel p (st, skipped) = some (st', skipped ++ new) ∧
      st'.escaped = st.escaped ∧ new.Nodup ∧ (∀ q, q ∈ new ↔ Outermost casefold st.tree p q) ∧
      ∀ q, nodeAt st'.tree q = if Dropped casefold p q then none else nodeAt st.tree q := by
  induction fuel generalizing p st skipped with
  | zero =>
    obtain ⟨a, ha⟩ := hdir
    exact absurd (hdeep [] a (by rwa [List.append_nil])) (by simp)
  | succ fuel ih =>
    obtain ⟨mode, hmode⟩ := hdir
    have hreach : st.reach true p = st :=
      reach_eq (leads_of_nodeAt (by simp [hmode])) fun _ => isLink_of_dir hmode
    rw [walkFrom, hreach]
    have hjudged : ∀ n, n ∈ sorted ((st.names p).filter (isControl casefold)) ↔
        nodeAt st.tree (p ++ [n]) ≠ none ∧ isControl casefold n = true := by
      intro n
      rw [sorted, List.mem_insertionSort, List.mem_filter, mem_names]
    have hnodup : (sorted ((st.names p).filter (isControl casefold))).Nodup :=
      (List.perm_insertionSort _ _).nodup_iff.mpr ((nodup_names st p).filter _)
    generalize sorted ((st.names p).filter (isControl casefold)) = judged at hjudged hnodup
    obtain ⟨st₁, hfold₁, hescaped₁, hnodes₁⟩ :=
      dropAll_spec skipped hnodup (fun n hn => ((hjudged n).mp hn).1) hdeep
    rw [hfold₁, Option.bind_some]
    -- the directories that are left are as they were
    have hleft : ∀ n r, n ∉ judged → nodeAt st₁.tree (p ++ n :: r) = nodeAt st.tree (p ++ n :: r) := by
      intro n r hn
      rw [hnodes₁, if_neg]
      rintro ⟨m, hm, hinit⟩
      rw [List.prefix_append_right_inj, List.cons_prefix_cons] at hinit
      exact hn (hinit.1 ▸ hm)
    have htodo : ∀ n, n ∈ (st.names p).filter (fun name =>
          decide (name ∉ judged) && isRealDir st₁.tree (p ++ [name])) ↔
        (∃ a, nodeAt st.tree (p ++ [n]) = some (.dir a)) ∧ isControl casefold n = false := by
      intro n
      rw [List.mem_filter, mem_names, Bool.and_eq_true, decide_eq_true_iff, isRealDir_iff]
      constructor
      · rintro ⟨hthere, hn, a, ha⟩
        rw [hleft n [] hn] at ha
        refine ⟨⟨a, ha⟩, Bool.eq_false_iff.mpr fun hcontrol => ?_⟩
        exact hn ((hjudged n).mpr ⟨hthere, hcontrol⟩)
      · rintro ⟨⟨a, ha⟩, hcontrol⟩
        have hn : n ∉ judged := by
          rw [hjudged, hcontrol]
          simp
        exact ⟨by simp [ha], hn, a, by rw [hleft n [] hn, ha]⟩
    have hnodup' : ((st.names p).filter (fun name =>
        decide (name ∉ judged) && isRealDir st₁.tree (p ++ [name]))).Nodup :=
      (nodup_names st p).filter _
    generalize (st.names p).filter (fun name =>
      decide (name ∉ judged) && isRealDir st₁.tree (p ++ [name])) = todo at htodo hnodup'
    -- the walk into each of them
    obtain ⟨⟨st', skipped'⟩, hfold, hescaped, new, rfl, hnew, hmem, hnodes⟩ := Lists.foldlM_inv
      (fun done (s : Staging × List Path) => s.1.escaped = st.escaped ∧ ∃ new,
        s.2 = skipped ++ new ∧ new.Nodup ∧
        (∀ q, q ∈ new ↔
          (∃ n ∈ judged, q = p ++ [n]) ∨ ∃ n ∈ done, Outermost casefold st.tree (p ++ [n]) q) ∧
        ∀ q, nodeAt s.1.tree q =
          if (∃ n ∈ judged, p ++ [n] <+: q) ∨ ∃ n ∈ done, Dropped casefold (p ++ [n]) q then none
          else nodeAt st.tree q)
      todo (f := fun state name => walkFrom casefold fuel (p ++ [name]) state)
      (fun done name rest s hsplit hinv => by
        obtain ⟨s, skipped₁⟩ := s
        obtain ⟨hs, new, rfl, hnew, hmem, hsn⟩ := hinv
        obtain ⟨⟨a, ha⟩, hcontrol⟩ := (htodo name).mp (by rw [hsplit]; simp)
        have hnotJudged : name ∉ judged := by
          rw [hjudged, hcontrol]
          simp
        have hnotDone : name ∉ done := by
          rw [hsplit, List.nodup_append] at hnodup'
          exact fun hdone => hnodup'.2.2 name hdone name (List.mem_cons_self ..) rfl
        have hsame : ∀ r, nodeAt s.tree (p ++ [name] ++ r) = nodeAt st.tree (p ++ [name] ++ r) := by
          intro r
          rw [hsn, if_neg]
          rw [List.append_assoc, List.singleton_append]
          rintro (⟨n, hn, hinit⟩ | ⟨n, hn, hdropped⟩)
          · rw [List.prefix_append_right_inj, List.cons_prefix_cons] at hinit
            exact hnotJudged (hinit.1 ▸ hn)
          · obtain ⟨r', -, heq⟩ := hdropped.below
            exact hnotDone ((cons_of_append_cons heq).1 ▸ hn)
        have hdir : ∃ a, nodeAt s.tree (p ++ [name]) = some (.dir a) := by
          have hsame' := hsame []
          rw [List.append_nil] at hsame'
          exact ⟨a, hsame'.trans ha⟩
        have hdeep' : ∀ r a, nodeAt s.tree (p ++ [name] ++ r) = some (.dir a) → r.length < fuel := by
          intro r a hr
          rw [hsame, List.append_assoc] at hr
          have hlt := hdeep _ a hr
          rw [List.singleton_append, List.length_cons] at hlt
          omega
        obtain ⟨s', new', hwalk, hescapes, hnew', hmem', hsn'⟩ :=
          ih (skipped ++ new) hdir hdeep'
        have hmem'' : ∀ q, q ∈ new' ↔ Outermost casefold st.tree (p ++ [name]) q :=
          fun q => (hmem' q).trans (outermost_congr hsame)
        refine ⟨_, hwalk, hescapes.trans hs, new ++ new', by simp, ?_, fun q => ?_, fun q => ?_⟩
        · refine List.nodup_append'.mpr ⟨hnew, hnew', fun q hq hq' => ?_⟩
          obtain ⟨r', hr', rfl⟩ := ((hmem'' q).mp hq').below
          rcases (hmem _).mp hq with ⟨n, hn, heq⟩ | ⟨n, hn, houter⟩
          · exact hr' (cons_of_append_cons heq).2
          · obtain ⟨r, -, heq⟩ := houter.below
            exact hnotDone ((cons_of_append_cons heq).1 ▸ hn)
        · rw [List.mem_append, hmem, hmem'', or_assoc]
          simp [or_and_right, exists_or]
        · rw [hsn']
          by_cases hq : Dropped casefold (p ++ [name]) q
          · rw [if_pos hq, if_pos (.inr ⟨name, by simp, hq⟩)]
          · rw [if_neg hq, hsn]
            refine if_congr ?_ rfl rfl
            simp [or_and_right, exists_or, hq])
      (s := (st₁, skipped ++ judged.map fun n => p ++ [n]))
      ⟨hescaped₁, _, rfl, hnodup.map fun n m h => (cons_of_append_cons h).1,
        fun q => by simp [eq_comm], fun q => by rw [hnodes₁]; simp⟩
    refine ⟨st', new, hfold, hescaped, hnew, fun q => ?_, fun q => ?_⟩
    · rw [hmem, outermost_iff hjudged htodo]
    · rw [hnodes]
      by_cases hthere : nodeAt st.tree q = none
      · rw [hthere, ite_self, ite_self]
      · exact if_congr (dropped_iff hjudged htodo hthere).symm rfl rfl

end Cp
