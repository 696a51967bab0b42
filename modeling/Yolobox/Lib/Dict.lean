/-
# Dictionaries in the order of their keys

A dictionary that keeps its keys in the order they were first set is the list of its
items; setting a key again changes its value in place.
-/
import Mathlib

namespace Dict

variable {κ ν : Type} [DecidableEq κ]

def keys (d : List (κ × ν)) : List κ := d.map Prod.fst

/-- The value of a key that is there is changed. -/
def modify (d : List (κ × ν)) (k : κ) (f : ν → ν) : List (κ × ν) :=
  d.map fun item => if item.1 = k then (item.1, f item.2) else item

/-- `d[k] = v` -/
def set (d : List (κ × ν)) (k : κ) (v : ν) : List (κ × ν) :=
  if k ∈ keys d then modify d k fun _ => v else d ++ [(k, v)]

variable {d : List (κ × ν)} {k : κ} {v : ν} {f : ν → ν}

omit [DecidableEq κ] in
@[simp] theorem keys_append (d e : List (κ × ν)) : keys (d ++ e) = keys d ++ keys e := List.map_append

@[simp] theorem keys_modify : keys (modify d k f) = keys d := by
  rw [keys, modify, List.map_map]
  refine List.map_congr_left fun item _ => ?_
  rw [Function.comp_apply]
  split_ifs
  · rfl
  · rfl

theorem keys_set : keys (set d k v) = if k ∈ keys d then keys d else keys d ++ [k] := by
  unfold set
  split_ifs
  · exact keys_modify
  · exact keys_append d [(k, v)]

theorem nodup_set (h : (keys d).Nodup) : (keys (set d k v)).Nodup := by
  rw [keys_set]
  split_ifs with hmem
  · exact h
  · exact List.nodup_append.mpr ⟨h, List.nodup_singleton k, fun a ha b hb heq =>
      hmem (List.mem_singleton.mp hb ▸ heq ▸ ha)⟩

theorem set_of_notMem (h : k ∉ keys d) : set d k v = d ++ [(k, v)] := if_neg h

/-- The last item is changed alone. -/
theorem modify_concat (h : k ∉ keys d) : modify (d ++ [(k, v)]) k f = d ++ [(k, f v)] := by
  have hself : modify d k f = d := by
    refine (List.map_congr_left fun item hitem => ?_).trans (List.map_id d)
    have hne : item.1 ≠ k := by
      rintro rfl
      exact h (List.mem_map_of_mem hitem)
    rw [if_neg hne]
    rfl
  rw [modify, List.map_append, ← modify, hself, List.map_singleton, if_pos rfl]

/-! ## Values -/

variable [BEq κ] [LawfulBEq κ]

theorem lookup_cons (key k : κ) (v : ν) : ((key, v) :: d).lookup k = if k = key then some v else d.lookup k := by
  rw [List.lookup_cons]
  split_ifs with hkey
  · rw [beq_iff_eq.mpr hkey]
  · rw [beq_eq_false_iff_ne.mpr hkey]

theorem lookup_eq_none_iff : d.lookup k = none ↔ k ∉ keys d := by
  induction d with
  | nil => simp [keys]
  | cons item d ih =>
    rw [lookup_cons, keys, List.map_cons, ← keys, List.mem_cons, not_or]
    split_ifs with hkey
    · simp [hkey]
    · rw [ih]
      simp [hkey]

theorem lookup_modify (k' : κ) : (modify d k f).lookup k' =
    if k' = k then (d.lookup k').map f else d.lookup k' := by
  induction d with
  | nil => simp [modify]
  | cons item d ih =>
    obtain ⟨key, value⟩ := item
    have hcons : modify ((key, value) :: d) k f =
        (key, if key = k then f value else value) :: modify d k f := by
      rw [modify, List.map_cons, ← modify]
      split_ifs
      · rfl
      · rfl
    rw [hcons, lookup_cons, lookup_cons, ih]
    by_cases hkey : k' = key
    · subst hkey
      by_cases hk : k' = k
      · simp [hk]
      · simp [hk]
    · simp [hkey]

/-- **What was set** is the value of its key; the others keep theirs. -/
theorem lookup_set (k' : κ) : (set d k v).lookup k' = if k' = k then some v else d.lookup k' := by
  unfold set
  split_ifs with hmem heq heq
  · rw [lookup_modify, if_pos heq]
    cases hlookup : d.lookup k' with
    | none => exact absurd (heq ▸ hmem) (lookup_eq_none_iff.mp hlookup)
    | some _ => rfl
  · rw [lookup_modify, if_neg heq]
  · rw [List.lookup_append, heq, lookup_eq_none_iff.mpr hmem, lookup_cons, if_pos rfl]
    rfl
  · rw [List.lookup_append, lookup_cons, if_neg heq, List.lookup_nil, Option.or_none]

/-- With one item for each key, its value is what the item has. -/
theorem mem_iff_lookup (h : (keys d).Nodup) : (k, v) ∈ d ↔ d.lookup k = some v := by
  induction d with
  | nil => simp
  | cons item d ih =>
    rw [keys, List.map_cons, List.nodup_cons, ← keys] at h
    obtain ⟨key, value⟩ := item
    rw [List.mem_cons, lookup_cons, ih h.2, Prod.mk.injEq]
    by_cases hkey : k = key
    · have hnone : d.lookup key = none := lookup_eq_none_iff.mpr h.1
      simp [hkey, hnone, eq_comm]
    · simp [hkey]

end Dict
