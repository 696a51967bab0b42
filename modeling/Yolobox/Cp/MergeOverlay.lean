/-
# The merge is an overlay

A plan moves the staged entries at which the two trees stop having directories in
common.  No two of these lie one above the other, so the renames do not disturb each
other and each finds what the plan saw; and below them the destination has nothing, so
what is placed there is all there is.
-/
import Yolobox.Cp.Merge

open FileTree

namespace Cp

variable {s : Tree} {t : Option Tree} {p q : Path}

/-! ## Where two trees part -/

def IsDir (n : Option (Node Leaf ℕ)) : Prop := ∃ a, n = some (.dir a)

/-- A staged path with directories above it on both sides. -/
def Meets (s : Tree) (t : Option Tree) (p : Path) : Prop :=
  nodeAt (some s) p ≠ none ∧
    ∀ q r, p = q ++ r → r ≠ [] → IsDir (nodeAt (some s) q) ∧ IsDir (nodeAt t q)

/-- What a staged path may not meet: a symlink, or a directory on one side only. -/
def Conflict (s : Tree) (t : Option Tree) (p : Path) : Prop :=
  Meets s t p ∧
    ((∃ target, nodeAt t p = some (.leaf (.link target))) ∨
      (IsDir (nodeAt (some s) p) ∧ ∃ a, nodeAt t p = some (.leaf a)) ∨
      ((∃ a, nodeAt (some s) p = some (.leaf a)) ∧ IsDir (nodeAt t p)))

/-- A staged path at which the directories in common end. -/
def Parts (s : Tree) (t : Option Tree) (p : Path) : Prop :=
  Meets s t p ∧ ¬ (IsDir (nodeAt (some s) p) ∧ IsDir (nodeAt t p))

theorem meets_nil : Meets s t [] :=
  ⟨by simp, fun q r hsplit hr => absurd (List.append_eq_nil_iff.mp hsplit.symm).2 hr⟩

theorem Meets.above (h : Meets s t (p ++ q)) (hq : q ≠ []) :
    IsDir (nodeAt (some s) p) ∧ IsDir (nodeAt t p) := h.2 p q rfl hq

/-- Where the roots are not both directories, nothing else meets. -/
theorem meets_iff_nil (h : ¬ (IsDir (nodeAt (some s) []) ∧ IsDir (nodeAt t []))) :
    Meets s t p ↔ p = [] := by
  refine ⟨fun hmeets => ?_, fun hp => hp ▸ meets_nil⟩
  by_contra hne
  exact h (hmeets.2 [] p rfl hne)

variable {a b : ℕ} {names names' : List PyStr} {child child' : PyStr → Tree} {n : PyStr}

/-- Below two directories, a path meets as it does in the entries of its first name. -/
theorem meets_cons_iff :
    Meets (dir a names child) (some (dir b names' child')) (n :: p) ↔
      n ∈ names ∧ Meets (child n) (entry n (dir b names' child')) p := by
  constructor
  · rintro ⟨hnode, habove⟩
    have hn : n ∈ names := by
      by_contra hn
      simp [nodeAt_cons, entry, hn] at hnode
    rw [nodeAt_cons, Option.bind_some, entry_of_mem hn] at hnode
    refine ⟨hn, hnode, fun q r hsplit hr => ?_⟩
    have h := habove (n :: q) r (by rw [hsplit, List.cons_append]) hr
    rwa [nodeAt_cons, nodeAt_cons, Option.bind_some, Option.bind_some, entry_of_mem hn] at h
  · rintro ⟨hn, hnode, habove⟩
    refine ⟨by rwa [nodeAt_cons, Option.bind_some, entry_of_mem hn], fun q r hsplit hr => ?_⟩
    cases q with
    | nil => exact ⟨⟨a, rfl⟩, b, rfl⟩
    | cons m q =>
      rw [List.cons_append, List.cons.injEq] at hsplit
      obtain ⟨rfl, rfl⟩ := hsplit
      rw [nodeAt_cons, nodeAt_cons, Option.bind_some, Option.bind_some, entry_of_mem hn]
      exact habove q r rfl hr

theorem parts_cons_iff :
    Parts (dir a names child) (some (dir b names' child')) (n :: p) ↔
      n ∈ names ∧ Parts (child n) (entry n (dir b names' child')) p := by
  unfold Parts
  rw [meets_cons_iff, and_assoc]
  refine and_congr_right fun hn => ?_
  rw [nodeAt_cons, nodeAt_cons, Option.bind_some, Option.bind_some, entry_of_mem hn]

theorem conflict_cons_iff :
    Conflict (dir a names child) (some (dir b names' child')) (n :: p) ↔
      n ∈ names ∧ Conflict (child n) (entry n (dir b names' child')) p := by
  unfold Conflict
  rw [meets_cons_iff, and_assoc]
  refine and_congr_right fun hn => ?_
  rw [nodeAt_cons, nodeAt_cons, Option.bind_some, Option.bind_some, entry_of_mem hn]

theorem not_parts_dirs_nil :
    ¬ Parts (dir a names child) (some (dir b names' child')) [] :=
  fun h => h.2 ⟨⟨a, rfl⟩, b, rfl⟩

theorem not_conflict_dirs_nil :
    ¬ Conflict (dir a names child) (some (dir b names' child')) [] := by
  rintro ⟨-, ⟨target, h⟩ | ⟨-, c, h⟩ | ⟨⟨c, h⟩, -⟩⟩ <;> simp [node] at h

/-! ## The plan -/

/-- What a plan appends: one move for each path of a list. -/
def movesOf (here : Path) (paths : List Path) : List (Path × Path) :=
  paths.map fun p => (here ++ p, here ++ p)

/-- A plan is the moves of the paths at which the trees part, or finds a conflict. -/
def Planned (here : Path) (moves : List (Path × Path)) (parts conflict : Path → Prop) :
    Except MergeRefusal (List (Path × Path)) → Prop
  | .error _ => ∃ p, conflict p
  | .ok moves' => (∀ p, ¬ conflict p) ∧
      ∃ paths : List Path, moves' = moves ++ movesOf here paths ∧ paths.Nodup ∧
        ∀ p, p ∈ paths ↔ parts p

theorem Planned.congr {here : Path} {moves : List (Path × Path)}
    {parts parts' conflict conflict' : Path → Prop} (hparts : ∀ p, parts p ↔ parts' p)
    (hconflict : ∀ p, conflict p ↔ conflict' p)
    {r : Except MergeRefusal (List (Path × Path))} (h : Planned here moves parts conflict r) :
    Planned here moves parts' conflict' r := by
  cases r with
  | error refusal =>
    obtain ⟨p, hp⟩ := h
    exact ⟨p, (hconflict p).mp hp⟩
  | ok moves' =>
    obtain ⟨hfree, paths, heq, hnodup, hmem⟩ := h
    exact ⟨fun p hp => hfree p ((hconflict p).mpr hp), paths, heq, hnodup,
      fun p => (hmem p).trans (hparts p)⟩

/-- A tree that moves as a whole. -/
theorem planned_whole {here : Path} {moves : List (Path × Path)}
    (hroot : ¬ (IsDir (nodeAt (some s) []) ∧ IsDir (nodeAt t [])))
    (hfree : ¬ Conflict s t []) :
    Planned here moves (Parts s t) (Conflict s t) (.ok (moves ++ [(here, here)])) := by
  refine ⟨fun p hp => ?_, [[]], by simp [movesOf], List.nodup_singleton _, fun p => ?_⟩
  · have hnil := (meets_iff_nil hroot).mp hp.1
    exact hfree (hnil ▸ hp)
  · rw [List.mem_singleton]
    refine ⟨fun hp => hp ▸ ⟨meets_nil, hroot⟩, fun hp => (meets_iff_nil hroot).mp hp.1⟩

/-- The loop over the names of a staged directory. -/
theorem planned_names {here : Path} {t' : Tree}
    (ih : ∀ n ∈ names, ∀ here moves, Planned here moves (Parts (child n) (entry n t'))
      (Conflict (child n) (entry n t')) (planMerge (child n) (entry n t') here moves))
    {ns : List PyStr} (hns : ∀ n ∈ ns, n ∈ names) (hnodup : ns.Nodup)
    (moves : List (Path × Path)) :
    Planned here moves
      (fun p => ∃ n ∈ ns, ∃ q, p = n :: q ∧ Parts (child n) (entry n t') q)
      (fun p => ∃ n ∈ ns, ∃ q, p = n :: q ∧ Conflict (child n) (entry n t') q)
      (ns.foldlM (fun moves name =>
        planMerge (child name) (entry name t') (here ++ [name]) moves) moves) := by
  induction ns generalizing moves with
  | nil => exact ⟨by simp, [], by simp [movesOf], List.nodup_nil, by simp⟩
  | cons n ns ihns =>
    rw [List.forall_mem_cons] at hns
    rw [List.nodup_cons] at hnodup
    have hfirst := ih n hns.1 (here ++ [n]) moves
    rw [List.foldlM_cons]
    cases hplan : planMerge (child n) (entry n t') (here ++ [n]) moves with
    | error refusal =>
      rw [hplan] at hfirst
      obtain ⟨q, hq⟩ := hfirst
      exact ⟨n :: q, n, List.mem_cons_self .., q, rfl, hq⟩
    | ok moves₁ =>
      rw [hplan] at hfirst
      obtain ⟨hfree, paths, rfl, hpaths, hmem⟩ := hfirst
      have hrest := ihns hns.2 hnodup.2 (moves ++ movesOf (here ++ [n]) paths)
      revert hrest
      simp only [bind, Except.bind]
      cases ns.foldlM (fun moves name =>
          planMerge (child name) (entry name t') (here ++ [name]) moves)
          (moves ++ movesOf (here ++ [n]) paths) with
      | error refusal =>
        rintro ⟨p, m, hm, q, rfl, hq⟩
        exact ⟨m :: q, m, List.mem_cons_of_mem n hm, q, rfl, hq⟩
      | ok moves₂ =>
        rintro ⟨hfree', paths', rfl, hpaths', hmem'⟩
        refine ⟨?_, paths.map (n :: ·) ++ paths', ?_, ?_, ?_⟩
        · rintro p ⟨m, hm, q, rfl, hq⟩
          rcases List.mem_cons.mp hm with rfl | hm
          · exact hfree q hq
          · exact hfree' (m :: q) ⟨m, hm, q, rfl, hq⟩
        · simp [movesOf, List.append_assoc, Function.comp_def]
        · rw [List.nodup_append]
          refine ⟨hpaths.map (List.cons_injective), hpaths', ?_⟩
          intro p hp p' hp' heq
          obtain ⟨q, -, rfl⟩ := List.mem_map.mp hp
          obtain ⟨m, hm, q', hq', -⟩ := (hmem' p').mp hp'
          rw [← heq, List.cons.injEq] at hq'
          exact hnodup.1 (hq'.1 ▸ hm)
        · intro p
          rw [List.mem_append, List.mem_map, hmem']
          constructor
          · rintro (⟨q, hq, rfl⟩ | ⟨m, hm, q, rfl, hq⟩)
            · exact ⟨n, List.mem_cons_self .., q, rfl, (hmem q).mp hq⟩
            · exact ⟨m, List.mem_cons_of_mem n hm, q, rfl, hq⟩
          · rintro ⟨m, hm, q, rfl, hq⟩
            rcases List.mem_cons.mp hm with rfl | hm
            · exact .inl ⟨q, (hmem q).mpr hq, rfl⟩
            · exact .inr ⟨m, hm, q, rfl, hq⟩

/-- **The plan.**  It finds a conflict, or moves each path at which the trees part, once. -/
theorem planMerge_planned (s : Tree) (t : Option Tree) (here : Path)
    (moves : List (Path × Path)) :
    Planned here moves (Parts s t) (Conflict s t) (planMerge s t here moves) := by
  induction s generalizing t here moves with
  | leaf c =>
    have hleaf : ¬ IsDir (nodeAt (some (leaf c : Tree)) []) := by
      rintro ⟨a, h⟩
      simp [node] at h
    cases t with
    | none =>
      refine planned_whole (fun h => hleaf h.1) ?_
      rintro ⟨-, ⟨target, h⟩ | ⟨-, d, h⟩ | ⟨-, d, h⟩⟩ <;> simp at h
    | some t =>
      cases t with
      | dir b names' child' => exact ⟨[], meets_nil, .inr (.inr ⟨⟨c, rfl⟩, b, rfl⟩)⟩
      | leaf d =>
        cases d with
        | link target => exact ⟨[], meets_nil, .inl ⟨target, rfl⟩⟩
        | file content =>
          refine planned_whole (fun h => hleaf h.1) ?_
          rintro ⟨-, ⟨target, h⟩ | ⟨h, -⟩ | ⟨-, d, h⟩⟩
          · simp [node] at h
          · exact hleaf h
          · simp [node] at h
        | other =>
          refine planned_whole (fun h => hleaf h.1) ?_
          rintro ⟨-, ⟨target, h⟩ | ⟨h, -⟩ | ⟨-, d, h⟩⟩
          · simp [node] at h
          · exact hleaf h
          · simp [node] at h
  | dir a names child ih =>
    cases t with
    | none =>
      refine planned_whole (fun h => ?_) ?_
      · obtain ⟨d, hd⟩ := h.2
        simp at hd
      · rintro ⟨-, ⟨target, h⟩ | ⟨-, d, h⟩ | ⟨-, d, h⟩⟩ <;> simp at h
    | some t =>
      cases t with
      | leaf d =>
        cases d with
        | link target => exact ⟨[], meets_nil, .inl ⟨target, rfl⟩⟩
        | file content => exact ⟨[], meets_nil, .inr (.inl ⟨⟨a, rfl⟩, _, rfl⟩)⟩
        | other => exact ⟨[], meets_nil, .inr (.inl ⟨⟨a, rfl⟩, _, rfl⟩)⟩
      | dir b names' child' =>
        have hnames : ∀ n, n ∈ sorted names.dedup ↔ n ∈ names := fun n => by
          rw [sorted, List.mem_insertionSort, List.mem_dedup]
        have hnodup : (sorted names.dedup).Nodup :=
          (List.perm_insertionSort _ _).nodup_iff.mpr (List.nodup_dedup names)
        have hloop : Planned here moves
            (fun p => ∃ n ∈ sorted names.dedup, ∃ q, p = n :: q ∧
              Parts (child n) (entry n (dir b names' child')) q)
            (fun p => ∃ n ∈ sorted names.dedup, ∃ q, p = n :: q ∧
              Conflict (child n) (entry n (dir b names' child')) q)
            (planMerge (dir a names child) (some (dir b names' child')) here moves) :=
          planned_names (fun n _ => ih n _) (fun n hn => (hnames n).mp hn) hnodup moves
        refine hloop.congr (fun p => ?_) (fun p => ?_)
        · cases p with
          | nil => simpa using not_parts_dirs_nil
          | cons n q => simp [parts_cons_iff, hnames]
        · cases p with
          | nil => simpa using not_conflict_dirs_nil
          | cons n q => simp [conflict_cons_iff, hnames]

/-! ## The renames -/

/-- What a rename needs of the two trees, at one path. -/
def Placeable (staged target : Option Tree) (p : Path) : Prop :=
  nodeAt staged p ≠ none ∧ Leads target p ∧
    (nodeAt target p = none ∨
      ((∃ a, nodeAt staged p = some (.leaf a)) ∧ ∃ b, nodeAt target p = some (.leaf b)))

theorem placeable_of_parts (hp : Parts s t p) (hfree : ¬ Conflict s t p) :
    Placeable (some s) t p := by
  obtain ⟨hmeets, hends⟩ := hp
  refine ⟨hmeets.1, fun q r hsplit hr => (hmeets.2 q r hsplit hr).2, ?_⟩
  cases ht : nodeAt t p with
  | none => exact .inl rfl
  | some n =>
    right
    obtain ⟨m, hm⟩ := Option.ne_none_iff_exists'.mp hmeets.1
    cases n with
    | dir b =>
      cases m with
      | dir a => exact absurd ⟨⟨a, hm⟩, b, ht⟩ hends
      | leaf a => exact absurd ⟨hmeets, .inr (.inr ⟨⟨a, hm⟩, b, ht⟩)⟩ hfree
    | leaf b =>
      cases m with
      | dir a => exact absurd ⟨hmeets, .inr (.inl ⟨⟨a, hm⟩, b, ht⟩)⟩ hfree
      | leaf a => exact ⟨⟨a, hm⟩, b, rfl⟩

theorem placed_of_leads (h : Leads t p) : placed t p = true := by
  cases p with
  | nil => rfl
  | cons n p =>
    obtain ⟨a, ha⟩ := h (n :: p).dropLast [(n :: p).getLast (List.cons_ne_nil n p)]
      (List.dropLast_append_getLast _).symm (List.cons_ne_nil _ _)
    simp [placed, ha]

/-- **One rename.**  It succeeds, moves what is staged at the path, and touches nothing
else. -/
theorem replace_placeable {staged target : Option Tree} (h : Placeable staged target p) :
    ∃ new, get p staged = some new ∧
      replace (staged, target) (p, p) =
        .ok (alter (fun _ => none) p staged, alter (fun _ => some new) p target) := by
  obtain ⟨hnode, hleads, hover⟩ := h
  obtain ⟨new, hnew⟩ : ∃ new, get p staged = some new := by
    cases hget : get p staged with
    | none => simp [nodeAt, hget] at hnode
    | some new => exact ⟨new, rfl⟩
  refine ⟨new, hnew, ?_⟩
  have hreplaces : replaces new (get p target) = true := by
    rcases hover with hnone | ⟨⟨a, ha⟩, b, hb⟩
    · rw [nodeAt, Option.map_eq_none_iff] at hnone
      rw [hnone]
      rfl
    · rw [nodeAt, hnew, Option.map_some, Option.some.injEq] at ha
      rw [nodeAt, Option.map_eq_some_iff] at hb
      obtain ⟨old, hold, hleaf⟩ := hb
      rw [hold]
      cases new with
      | dir c names child => simp [node] at ha
      | leaf c =>
        cases old with
        | dir d names child => simp [node] at hleaf
        | leaf d => rfl
  simp [replace, hnew, linkAbove_of_leads hleads, placed_of_leads hleads, hreplaces]

/-- Paths none of which lies above another. -/
def Apart (paths : List Path) : Prop := paths.Pairwise fun p q => ¬ p <+: q ∧ ¬ q <+: p

/-- **The renames.**  They all succeed, and the destination holds at and below each path
what was staged there, and elsewhere what it held. -/
theorem landStaged_apart {paths : List Path} (hapart : Apart paths) (landed : ℕ)
    {staged target : Option Tree} (h : ∀ p ∈ paths, Placeable staged target p) :
    ∃ host, landStaged (staged, target) landed (movesOf [] paths) = (none, host) ∧
      ∀ q, ((∃ p ∈ paths, p <+: q) → nodeAt host.2 q = nodeAt staged q) ∧
        ((∀ p ∈ paths, ¬ p <+: q) → nodeAt host.2 q = nodeAt target q) := by
  induction paths generalizing staged target landed with
  | nil => exact ⟨(staged, target), rfl, by simp⟩
  | cons p paths ih =>
    rw [List.forall_mem_cons] at h
    obtain ⟨hfirst, hrest⟩ := h
    rw [Apart, List.pairwise_cons] at hapart
    obtain ⟨hp, hpaths⟩ := hapart
    obtain ⟨new, hnew, hreplace⟩ := replace_placeable hfirst
    have hstaged : Leads staged p := leads_of_nodeAt hfirst.1
    have hleads : Leads target p := hfirst.2.1
    -- the paths that are left are as they were
    have hplaceable : ∀ q ∈ paths, Placeable (alter (fun _ => none) p staged)
        (alter (fun _ => some new) p target) q := by
      intro q hq
      obtain ⟨hpq, hqp⟩ := hp q hq
      obtain ⟨hnode, hlead, hover⟩ := hrest q hq
      refine ⟨?_, leads_alter hleads hlead fun r _ heq => hpq ⟨r, heq.symm⟩, ?_⟩
      · rwa [nodeAt_alter_of_apart hstaged hpq]
      · rwa [nodeAt_alter_of_apart hleads hpq, nodeAt_alter_of_apart hstaged hpq]
    obtain ⟨host, hland, hnodes⟩ := ih hpaths (landed + 1) hplaceable
    refine ⟨host, ?_, fun q => ?_⟩
    · change landStaged (staged, target) landed ((p, p) :: movesOf [] paths) = _
      rw [landStaged, hreplace]
      exact hland
    · by_cases hq : ∃ p' ∈ paths, p' <+: q
      · -- below one of the paths that are left
        obtain ⟨p', hp', hinit⟩ := hq
        have hpq : ¬ p <+: q := fun hpq =>
          (List.prefix_or_prefix_of_prefix hpq hinit).elim (hp p' hp').1 (hp p' hp').2
        refine ⟨fun _ => ?_, fun hnone => absurd hinit (hnone p' (List.mem_cons_of_mem p hp'))⟩
        rw [(hnodes q).1 ⟨p', hp', hinit⟩, nodeAt_alter_of_apart hstaged hpq]
      · push Not at hq
        rw [(hnodes q).2 hq]
        by_cases hpq : p <+: q
        · refine ⟨fun _ => ?_, fun hnone => absurd hpq (hnone p (List.mem_cons_self ..))⟩
          obtain ⟨r, rfl⟩ := hpq
          rw [nodeAt_alter_append hleads, nodeAt_append, hnew]
        · rw [nodeAt_alter_of_apart hleads hpq]
          refine ⟨?_, fun _ => rfl⟩
          rintro ⟨p', hp', hinit⟩
          rcases List.mem_cons.mp hp' with rfl | hp'
          · exact absurd hinit hpq
          · exact absurd hinit (hq p' hp')

/-! ## The overlay -/

/-- The staged tree laid over the destination: a directory on both sides stays the
destination's, and everything else staged is what is staged. -/
def overlay (s : Tree) (t : Option Tree) (p : Path) : Option (Node Leaf ℕ) :=
  match nodeAt (some s) p, nodeAt t p with
  | some (.dir _), some (.dir b) => some (.dir b)
  | some n, _ => some n
  | none, n => n

/-- Paths at which the trees part do not lie one above the other. -/
theorem parts_apart {p q : Path} (hp : Parts s t p) (hq : Parts s t q) (hne : p ≠ q) :
    ¬ p <+: q := by
  rintro ⟨r, rfl⟩
  have hr : r ≠ [] := by
    rintro rfl
    simp at hne
  exact hp.2 (hq.1.above hr)

/-- A staged path is one with directories above it on both sides, or lies at or below a
path at which the trees part. -/
theorem parts_above (hq : nodeAt (some s) q ≠ none) :
    (∃ p, Parts s t p ∧ p <+: q) ∨
      (Meets s t q ∧ IsDir (nodeAt (some s) q) ∧ IsDir (nodeAt t q)) := by
  induction q using List.reverseRecOn with
  | nil =>
    by_cases hdirs : IsDir (nodeAt (some s) []) ∧ IsDir (nodeAt t [])
    · exact .inr ⟨meets_nil, hdirs⟩
    · exact .inl ⟨[], ⟨meets_nil, hdirs⟩, List.prefix_rfl⟩
  | append_singleton q n ih =>
    obtain ⟨a, ha⟩ := dir_of_nodeAt_append hq (List.cons_ne_nil n [])
    rcases ih (by simp [ha]) with ⟨p, hp, hinit⟩ | ⟨hmeets, hdirs⟩
    · exact .inl ⟨p, hp, hinit.trans (List.prefix_append q [n])⟩
    · have hmeets' : Meets s t (q ++ [n]) := by
        refine ⟨hq, fun q' r hsplit hr => ?_⟩
        obtain ⟨init, last, rfl⟩ := (List.eq_nil_or_concat r).resolve_left hr
        rw [List.concat_eq_append, ← List.append_assoc] at hsplit
        obtain ⟨hq', -⟩ := List.append_inj' hsplit rfl
        by_cases hinit : init = []
        · subst hinit
          rw [List.append_nil] at hq'
          exact hq' ▸ hdirs
        · exact hmeets.2 q' init hq' hinit
      by_cases hends : IsDir (nodeAt (some s) (q ++ [n])) ∧ IsDir (nodeAt t (q ++ [n]))
      · exact .inr ⟨hmeets', hends⟩
      · exact .inl ⟨q ++ [n], ⟨hmeets', hends⟩, List.prefix_rfl⟩

theorem overlay_of_none (h : nodeAt (some s) q = none) : overlay s t q = nodeAt t q := by
  unfold overlay
  rw [h]

theorem overlay_of_dirs (hs : IsDir (nodeAt (some s) q)) (ht : IsDir (nodeAt t q)) :
    overlay s t q = nodeAt t q := by
  obtain ⟨a, ha⟩ := hs
  obtain ⟨b, hb⟩ := ht
  unfold overlay
  rw [ha, hb]

theorem overlay_of_not_dir (ht : ¬ IsDir (nodeAt t q)) (hs : nodeAt (some s) q ≠ none) :
    overlay s t q = nodeAt (some s) q := by
  obtain ⟨m, hm⟩ := Option.ne_none_iff_exists'.mp hs
  unfold overlay
  rw [hm]
  cases hn : nodeAt t q with
  | none => cases m <;> rfl
  | some n =>
    cases n with
    | leaf b => cases m <;> rfl
    | dir b => exact absurd ⟨b, hn⟩ ht

/-- At and below what is placed, the overlay is what was staged. -/
theorem overlay_below (h : Placeable (some s) t p) (hpq : p <+: q) :
    overlay s t q = nodeAt (some s) q := by
  obtain ⟨r, rfl⟩ := hpq
  obtain ⟨hnode, -, hover⟩ := h
  have hroot : ¬ IsDir (nodeAt t p) := by
    rintro ⟨b, hb⟩
    rcases hover with hnone | ⟨-, c, hc⟩
    · simp [hnone] at hb
    · simp [hc] at hb
  by_cases hr : r = []
  · subst hr
    rw [List.append_nil]
    exact overlay_of_not_dir hroot hnode
  · have hnone : nodeAt t (p ++ r) = none := by
      by_contra hsome
      exact hroot (dir_of_nodeAt_append hsome hr)
    by_cases hs : nodeAt (some s) (p ++ r) = none
    · rw [overlay_of_none hs, hnone, hs]
    · exact overlay_of_not_dir (by simp [IsDir, hnone]) hs

end Cp
