/-
# What a download can change

After the fetch the control paths are dropped, the staged names are planned against the
destination and renamed into it.  What then differs at the destination was fetched under the
name of a source and has no control name on its path; everything else is as it was, and the
staging directory can be removed however far the download came.
-/
import Yolobox.Cp.DownloadFetch

open Script FileTree Posix

namespace Cp

variable {casefold : PyStr → PyStr} {vmHost staging : PyStr} {admits : List ℕ → ℕ → Prop} {sources : List PyStr}
  {st : Staging} {s : Tree} {t : Option Tree} {p q : Path} {mode : ℕ} {names : List PyStr} {child : PyStr → Tree}
  {dest : Dest}

/-! ## The staging directory -/

theorem eq_dir_of_isDir (h : IsDir (nodeAt t [])) : ∃ mode names child, t = some (dir mode names child) := by
  obtain ⟨a, ha⟩ := h
  cases t with
  | none => cases ha
  | some s =>
    cases s with
    | leaf b => cases ha
    | dir mode names child => exact ⟨mode, names, child, rfl⟩

theorem eq_none_of_nodeAt (h : nodeAt t [] = none) : t = none := by
  cases t with
  | none => rfl
  | some s => cases h

/-- A staging directory can be removed, and that follows no symlink. -/
theorem removeStaging_of_isDir (h : IsDir (nodeAt st.tree [])) : removeStaging st = some ⟨none, st.escaped⟩ := by
  obtain ⟨mode, names, child, htree⟩ := eq_dir_of_isDir h
  have hdeep : ∀ q a, nodeAt st.tree ([] ++ q) = some (.dir a) → q.length < (dir mode names child : Tree).height := by
    intro q a hq
    rw [List.nil_append, htree] at hq
    exact length_lt_height hq
  obtain ⟨st', hremove, hescaped, hnodes⟩ := removeTree_spec h hdeep
  have hgone : st'.tree = none := eq_none_of_nodeAt (by rw [hnodes, if_pos List.prefix_rfl])
  rw [removeStaging, htree, Option.bind_some, hremove]
  cases st'
  exact congrArg some (congrArg₂ Staging.mk hgone hescaped)

/-! ## Renames out of the staging directory -/

/-- Taking away what is below a directory leaves the directory. -/
theorem alter_below {f : Option Tree → Option Tree} {n : PyStr} (h : IsDir (nodeAt t [])) :
    IsDir (nodeAt (alter f (n :: p) t) []) := by
  obtain ⟨mode, names, child, rfl⟩ := eq_dir_of_isDir h
  rw [alter_cons, nodeAt_nil, node_setEntry]
  exact ⟨mode, rfl⟩

/-- What a rename leaves of the staging directory. -/
theorem replace_staged {host host' : Host} {move : Path × Path} (h : replace host move = .ok host') :
    host'.1 = alter (fun _ => none) move.1 host.1 := by
  unfold replace at h
  split at h
  · cases h
  · split at h
    · cases h
    · split_ifs at h
      cases h
      rfl

theorem landStaged_isDir {moves : List (Path × Path)} (hmoves : ∀ move ∈ moves, move.1 ≠ []) {host : Host} (landed : ℕ)
    (h : IsDir (nodeAt host.1 [])) : IsDir (nodeAt (landStaged host landed moves).2.1 []) := by
  induction moves generalizing host landed with
  | nil => exact h
  | cons move moves ih =>
    rw [List.forall_mem_cons] at hmoves
    unfold landStaged
    cases hreplace : replace host move with
    | error failure => exact h
    | ok host' =>
      refine ih hmoves.2 (landed + 1) ?_
      obtain ⟨n, p, hmove⟩ := List.exists_cons_of_ne_nil hmoves.1
      rw [replace_staged hreplace, hmove]
      exact alter_below h

/-- Renames of what is staged under one name are renames out of that entry. -/
theorem landStaged_under (n : PyStr) (moves : List (Path × Path)) (landed : ℕ) {staged : Option Tree} (target : Option Tree)
    (h : IsDir (nodeAt staged [])) :
    (landStaged (staged, target) landed (moves.map fun move => (n :: move.1, move.2))).1 =
        (landStaged (get [n] staged, target) landed moves).1 ∧
      (landStaged (staged, target) landed (moves.map fun move => (n :: move.1, move.2))).2.2 =
        (landStaged (get [n] staged, target) landed moves).2.2 := by
  induction moves generalizing staged target landed with
  | nil => exact ⟨rfl, rfl⟩
  | cons move moves ih =>
    obtain ⟨mode, names, child, rfl⟩ := eq_dir_of_isDir h
    have hget (q : Path) : get (n :: q) (some (dir mode names child)) =
        get q (get [n] (some (dir mode names child))) := rfl
    have hafter (f : Option Tree → Option Tree) (q : Path) :
        get [n] (alter f (n :: q) (some (dir mode names child))) =
          alter f q (get [n] (some (dir mode names child))) := by
      rw [alter_cons, get_cons, Option.bind_some, entry_setEntry, if_pos rfl]
      rfl
    rw [List.map_cons]
    unfold landStaged
    unfold replace
    dsimp only
    rw [hget]
    cases get move.1 (get [n] (some (dir mode names child))) with
    | none => exact ⟨rfl, rfl⟩
    | some new =>
      dsimp only
      cases linkAbove target move.2 with
      | some link => exact ⟨rfl, rfl⟩
      | none =>
        dsimp only
        split_ifs
        · exact ⟨rfl, rfl⟩
        · exact ⟨rfl, rfl⟩
        · dsimp only
          rw [← hafter]
          exact ih (landed + 1) _ (alter_below h)

/-! ## Landing -/

theorem overlay_changed (h : overlay s t p ≠ nodeAt t p) :
    nodeAt (some s) p ≠ none ∧ overlay s t p = nodeAt (some s) p := by
  have hs : nodeAt (some s) p ≠ none := fun hnone => h (overlay_of_none hnone)
  by_cases ht : IsDir (nodeAt t p)
  · by_cases hdir : IsDir (nodeAt (some s) p)
    · exact absurd (overlay_of_dirs hdir ht) h
    · obtain ⟨m, hm⟩ := Option.ne_none_iff_exists'.mp hs
      refine ⟨hs, ?_⟩
      unfold overlay
      cases m with
      | leaf a => rw [hm]
      | dir a => exact absurd ⟨a, hm⟩ hdir
  · exact ⟨hs, overlay_of_not_dir ht hs⟩

/-- The staged path that lands at a path of the destination. -/
def Dest.Receives : Dest → Path → Path → Prop
  | .directory _ _ _, p, q => q = p
  | .named _, p, q => ∃ n, q = n :: p

/-- How landing ends: refused with the destination as it was, or landed, and what differs then
is what was staged for it. -/
structure Landing (dest : Dest) (staged : Tree) (escaped : Bool) (placed : Placed) : Prop where
  root : IsDir (nodeAt placed.staging.tree [])
  escaped : placed.staging.escaped = escaped
  ends : placed.merged = .landed ∨ (∃ refusal, placed.merged = .refused refusal) ∧ placed.target = dest.tree
  changes : ∀ p, nodeAt placed.target p ≠ nodeAt dest.tree p →
    ∃ q, q ≠ [] ∧ dest.Receives p q ∧ nodeAt (some staged) q ≠ none ∧
      nodeAt placed.target p = nodeAt (some staged) q

theorem planInto_directory {mode' : ℕ} {names' : List PyStr} {child' : PyStr → Tree} :
    planInto (dir mode names child) (.directory mode' names' child') =
      planMerge (dir mode names child) (some (dir mode' names' child')) [] [] := by
  rw [planMerge]
  rfl

/-- The listing of a directory with one name at most. -/
theorem sorted_of_one (hone : ∀ n ∈ names, ∀ n' ∈ names, n = n') :
    sorted names.dedup = [] ∨ ∃ n ∈ names, sorted names.dedup = [n] := by
  have hnodup : (sorted names.dedup).Nodup :=
    (List.perm_insertionSort _ _).nodup_iff.mpr (List.nodup_dedup names)
  have hmem (n : PyStr) (hn : n ∈ sorted names.dedup) : n ∈ names := by
    rw [mem_sorted, List.mem_dedup] at hn
    exact hn
  cases hsorted : sorted names.dedup with
  | nil => exact .inl rfl
  | cons n rest =>
    rw [hsorted] at hnodup hmem
    refine .inr ⟨n, hmem n List.mem_cons_self, ?_⟩
    cases rest with
    | nil => rfl
    | cons n' rest =>
      have hne := (List.nodup_cons.mp hnodup).1
      rw [hone n (hmem n List.mem_cons_self) n' (hmem n' (by simp))] at hne
      exact absurd List.mem_cons_self hne

/-! ## The whole download -/

theorem destOf_named {text : PyStr} {found target : Option Tree} (h : destOf text found sources = .ok (.named target)) :
    sources.length ≤ 1 := by
  unfold destOf at h
  split at h
  · cases h
  · split_ifs at h with hslash hmany
    exact not_lt.mp hmany

/-- What stands in the staging directory stands under the name of a source. -/
theorem Fetched.head (h : Fetched sources st) {n : PyStr} (hn : nodeAt st.tree (n :: p) ≠ none) :
    ∃ source ∈ sources, basename source = n := by
  by_contra hnone
  push Not at hnone
  exact hn (nodeAt_below_none (h.free n hnone))

/-- A pulled project with a control path and a symlink out of it. -/
def pulledProject : Staging :=
  ⟨some (dir 448 [lit "proj"] fun _ => dir 493 [lit "a.txt", lit ".git"] fun _ => leaf (.link (lit "/Users/op/.zshrc"))),
    false⟩

theorem copied_pulledProject (admits : List ℕ → ℕ → Prop) :
    Copied (lit "lima-yolobox") admits [scpGuestSource (lit "lima-yolobox") sampleSource] [] emptyStaging
      pulledProject := by
  refine ⟨fun q hq => ?_, fun h => by cases h⟩
  cases q with
  | nil => rfl
  | cons n q =>
    have hne : n ≠ lit "proj" := by
      rintro rfl
      exact hq _ (List.mem_singleton.mpr rfl) _ (places_iff.mpr rfl) ⟨q, rfl⟩
    simp [pulledProject, emptyStaging, nodeAt_cons, entry, hne]

end Cp
