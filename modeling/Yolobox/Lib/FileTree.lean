/-
# File trees

A tree of named entries: leaves (files, links, anything that is not entered) and
directories.  A path is a list of names.  Every operation on a tree is `alter`, which
changes what is at one path, so the frame facts are proved once: what is at a path that
neither lies below the changed one nor above it is untouched, and above it directories
stay directories.
-/
import Mathlib

/-- Leaves `L`, directories with attributes `D`, names `N`. -/
inductive FileTree (N L D : Type)
  | leaf (a : L)
  | dir (a : D) (names : List N) (child : N → FileTree N L D)

namespace FileTree

variable {N L D : Type} [DecidableEq N]

/-- An entry without what is in it. -/
inductive Node (L D : Type)
  | leaf (a : L)
  | dir (a : D)
  deriving DecidableEq, Repr

def node : FileTree N L D → Node L D
  | leaf a => .leaf a
  | dir a _ _ => .dir a

/-- The names a directory lists, each once. -/
def listing : FileTree N L D → List N
  | leaf _ => []
  | dir _ names _ => names.dedup

def entry (n : N) : FileTree N L D → Option (FileTree N L D)
  | leaf _ => none
  | dir _ names child => if n ∈ names then some (child n) else none

theorem entry_of_mem {n : N} {a : D} {names : List N} {child : N → FileTree N L D}
    (h : n ∈ names) : entry n (dir a names child) = some (child n) := if_pos h

/-- What is at a path. -/
def get : List N → Option (FileTree N L D) → Option (FileTree N L D)
  | [], t => t
  | n :: p, t => get p (t.bind (entry n))

/-- The entry at a path. -/
def nodeAt (t : Option (FileTree N L D)) (p : List N) : Option (Node L D) := (get p t).map node

/-- A directory with another entry under a name, or with none. -/
def setEntry (n : N) (v : Option (FileTree N L D)) : FileTree N L D → FileTree N L D
  | leaf a => leaf a
  | dir a names child =>
    match v with
    | none => dir a (names.filter fun m => m ≠ n) child
    | some t => dir a (if n ∈ names then names else names ++ [n]) (Function.update child n t)

/-- One more than the directories on the longest way down. -/
def height : FileTree N L D → ℕ
  | leaf _ => 0
  | dir _ names child => (names.map fun n => (child n).height).foldr max 0 + 1

/-- Change what is at a path, when directories lead to it. -/
def alter (f : Option (FileTree N L D) → Option (FileTree N L D)) :
    List N → Option (FileTree N L D) → Option (FileTree N L D)
  | [], t => f t
  | n :: p, some (dir a names child) =>
    some (setEntry n (alter f p (entry n (dir a names child))) (dir a names child))
  | _ :: _, t => t

/-- Directories lead to a path. -/
def Leads (t : Option (FileTree N L D)) (p : List N) : Prop :=
  ∀ q r, p = q ++ r → r ≠ [] → ∃ a, nodeAt t q = some (.dir a)

variable {f : Option (FileTree N L D) → Option (FileTree N L D)} {t : Option (FileTree N L D)}
  {n : N} {p q : List N}

/-! ## Looking up -/

@[simp] theorem get_nil : get [] t = t := rfl

theorem get_cons : get (n :: p) t = get p (t.bind (entry n)) := rfl

theorem get_append : get (p ++ q) t = get q (get p t) := by
  induction p generalizing t with
  | nil => rfl
  | cons n p ih => exact ih

@[simp] theorem get_none : get p (none : Option (FileTree N L D)) = none := by
  induction p with
  | nil => rfl
  | cons n p ih => exact ih

theorem get_leaf (a : L) (h : p ≠ []) : get p (some (leaf a : FileTree N L D)) = none := by
  obtain ⟨n, p, rfl⟩ := List.exists_cons_of_ne_nil h
  exact get_none

theorem nodeAt_append : nodeAt t (p ++ q) = nodeAt (get p t) q := by
  rw [nodeAt, get_append]
  rfl

theorem nodeAt_cons : nodeAt t (n :: p) = nodeAt (t.bind (entry n)) p := rfl

@[simp] theorem nodeAt_none : nodeAt (none : Option (FileTree N L D)) p = none := by
  rw [nodeAt, get_none]
  rfl

@[simp] theorem nodeAt_nil (t : FileTree N L D) : nodeAt (some t) [] = some t.node := rfl

theorem mem_listing {s : FileTree N L D} : n ∈ s.listing ↔ (entry n s).isSome = true := by
  cases s with
  | leaf a => simp [listing, entry]
  | dir a names child => simp [listing, entry]

theorem nodup_listing (s : FileTree N L D) : s.listing.Nodup := by
  cases s with
  | leaf a => exact List.nodup_nil
  | dir a names child => exact List.nodup_dedup names

/-- What has an entry below it is a directory. -/
theorem dir_of_nodeAt_append (h : nodeAt t (p ++ q) ≠ none) (hq : q ≠ []) :
    ∃ a, nodeAt t p = some (.dir a) := by
  rw [nodeAt_append] at h
  cases hget : get p t with
  | none => simp [hget] at h
  | some s =>
    cases s with
    | leaf a =>
      rw [hget, nodeAt, get_leaf a hq] at h
      simp at h
    | dir a names child => exact ⟨a, by rw [nodeAt, hget]; rfl⟩

theorem leads_of_nodeAt (h : nodeAt t p ≠ none) : Leads t p := by
  rintro q r rfl hr
  exact dir_of_nodeAt_append h hr

theorem Leads.cons {a : D} {names : List N} {child : N → FileTree N L D}
    (h : Leads (some (dir a names child)) (n :: p)) : Leads (entry n (dir a names child)) p := by
  intro q r hsplit hr
  exact h (n :: q) r (by rw [hsplit, List.cons_append]) hr

theorem Leads.head (h : Leads t (n :: p)) : ∃ a names child, t = some (dir a names child) := by
  obtain ⟨a, ha⟩ := h [] (n :: p) rfl (List.cons_ne_nil n p)
  cases t with
  | none => simp at ha
  | some s =>
    cases s with
    | leaf b => simp [node] at ha
    | dir b names child => exact ⟨b, names, child, rfl⟩

@[simp] theorem leads_nil : Leads t [] := by
  intro q r hsplit hr
  exact absurd (List.append_eq_nil_iff.mp hsplit.symm).2 hr

/-- Directories lead to what is in a directory. -/
theorem Leads.concat (h : Leads t p) {a : D} (ha : nodeAt t p = some (.dir a)) :
    Leads t (p ++ [n]) := by
  intro q r hsplit hr
  obtain ⟨init, last, rfl⟩ := (List.eq_nil_or_concat r).resolve_left hr
  rw [List.concat_eq_append, ← List.append_assoc] at hsplit
  obtain ⟨hp, -⟩ := List.append_inj' hsplit rfl
  by_cases hinit : init = []
  · subst hinit
    rw [List.append_nil] at hp
    exact ⟨a, hp ▸ ha⟩
  · exact h q init hp hinit

theorem Leads.above (h : Leads t (p ++ q)) : Leads t p := by
  intro a r hsplit hr
  exact h a (r ++ q) (by rw [hsplit, List.append_assoc]) (by simp [hr])

/-- A way down to a directory is shorter than the tree is high. -/
theorem length_lt_height {s : FileTree N L D} {a : D} (h : nodeAt (some s) p = some (.dir a)) :
    p.length < s.height := by
  have hle : ∀ heights : List ℕ, ∀ x ∈ heights, x ≤ heights.foldr max 0 := by
    intro heights
    induction heights with
    | nil => simp
    | cons y ys ih =>
      intro x hx
      rw [List.foldr_cons]
      rcases List.mem_cons.mp hx with rfl | hx
      · exact le_max_left _ _
      · exact (ih x hx).trans (le_max_right _ _)
  induction s generalizing p with
  | leaf b =>
    cases p with
    | nil => simp [node] at h
    | cons n p => simp [nodeAt_cons, entry] at h
  | dir b names child ih =>
    cases p with
    | nil => simp [height]
    | cons n p =>
      rw [nodeAt_cons, Option.bind_some] at h
      by_cases hn : n ∈ names
      · rw [entry_of_mem hn] at h
        have hchild := hle _ _ (List.mem_map_of_mem (f := fun n => (child n).height) hn)
        rw [height, List.length_cons]
        exact Nat.succ_lt_succ ((ih n h).trans_le hchild)
      · simp [entry, hn] at h

/-! ## Changing -/

@[simp] theorem entry_setEntry (v : Option (FileTree N L D)) (a : D) (names : List N)
    (child : N → FileTree N L D) (m : N) :
    entry m (setEntry n v (dir a names child)) =
      if m = n then v else entry m (dir a names child) := by
  cases v with
  | none =>
    by_cases hm : m = n
    · simp [setEntry, entry, hm]
    · simp [setEntry, entry, hm]
  | some s =>
    by_cases hm : m = n
    · subst hm
      by_cases hmem : m ∈ names <;> simp [setEntry, entry, hmem]
    · by_cases hmem : n ∈ names <;> simp [setEntry, entry, hm, hmem]

@[simp] theorem node_setEntry (v : Option (FileTree N L D)) (s : FileTree N L D) :
    (setEntry n v s).node = s.node := by
  cases s with
  | leaf a => rfl
  | dir a names child => cases v <;> rfl

@[simp] theorem alter_nil : alter f [] t = f t := rfl

theorem alter_cons (a : D) (names : List N) (child : N → FileTree N L D) :
    alter f (n :: p) (some (dir a names child)) =
      some (setEntry n (alter f p (entry n (dir a names child))) (dir a names child)) := rfl

/-- What is at and below the changed path. -/
theorem get_alter_append (h : Leads t p) : get (p ++ q) (alter f p t) = get q (f (get p t)) := by
  induction p generalizing t with
  | nil => rfl
  | cons n p ih =>
    obtain ⟨a, names, child, rfl⟩ := h.head
    rw [alter_cons, List.cons_append, get_cons, Option.bind_some, entry_setEntry, if_pos rfl,
      ih h.cons, get_cons, Option.bind_some]

theorem get_alter_self (h : Leads t p) : get p (alter f p t) = f (get p t) := by
  have hself := get_alter_append (f := f) (q := []) h
  rwa [List.append_nil] at hself

theorem nodeAt_alter_append (h : Leads t p) :
    nodeAt (alter f p t) (p ++ q) = nodeAt (f (get p t)) q := by
  rw [nodeAt, get_alter_append h]
  rfl

/-- **Frame.**  What is not at or below the changed path stays as it was, as an entry. -/
theorem nodeAt_alter_of_apart (h : Leads t p) (hpq : ¬ p <+: q) :
    nodeAt (alter f p t) q = nodeAt t q := by
  induction p generalizing t q with
  | nil => exact absurd (List.nil_prefix) hpq
  | cons n p ih =>
    obtain ⟨a, names, child, rfl⟩ := h.head
    rw [alter_cons]
    cases q with
    | nil => simp
    | cons m q =>
      rw [nodeAt_cons, nodeAt_cons, Option.bind_some, Option.bind_some, entry_setEntry]
      split_ifs with hm
      · subst hm
        exact ih h.cons fun hp => hpq (List.cons_prefix_cons.mpr ⟨rfl, hp⟩)
      · rfl

/-- What is neither below nor above the changed path stays as it was, with what is in it. -/
theorem get_alter_of_disjoint (h : Leads t p) (hpq : ¬ p <+: q) (hqp : ¬ q <+: p) :
    get q (alter f p t) = get q t := by
  induction p generalizing t q with
  | nil => exact absurd List.nil_prefix hpq
  | cons n p ih =>
    obtain ⟨a, names, child, rfl⟩ := h.head
    rw [alter_cons]
    cases q with
    | nil => exact absurd List.nil_prefix hqp
    | cons m q =>
      rw [get_cons, get_cons, Option.bind_some, Option.bind_some, entry_setEntry]
      split_ifs with hm
      · subst hm
        exact ih h.cons (fun hp => hpq (List.cons_prefix_cons.mpr ⟨rfl, hp⟩))
          fun hq => hqp (List.cons_prefix_cons.mpr ⟨rfl, hq⟩)
      · rfl

/-- Directories still lead to what is not below the changed path. -/
theorem leads_alter (h : Leads t p) (hq : Leads t q) (hpq : ∀ r, r ≠ [] → q ≠ p ++ r) :
    Leads (alter f p t) q := by
  rintro q' r rfl hr
  obtain ⟨a, ha⟩ := hq q' r rfl hr
  refine ⟨a, ?_⟩
  rw [nodeAt_alter_of_apart h, ha]
  rintro ⟨s, rfl⟩
  exact hpq (s ++ r) (by simp [hr]) (List.append_assoc p s r)

end FileTree
