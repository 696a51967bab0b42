/-
# Lists and optional values
-/
import Mathlib

namespace Lists

variable {α β : Type}

/-- A traversal succeeds with the values of its elements. -/
theorem mapM_eq_some_iff {f : α → Option β} {xs : List α} {ys : List β} :
    xs.mapM f = some ys ↔ xs.map f = ys.map some := by
  induction xs generalizing ys with
  | nil => cases ys <;> simp
  | cons x xs ih =>
    rw [List.mapM_cons, List.map_cons]
    cases ys with
    | nil => cases f x <;> cases xs.mapM f <;> simp
    | cons y ys =>
      rw [List.map_cons, List.cons.injEq, ← ih]
      cases hx : f x <;> cases hxs : xs.mapM f <;> simp

/-- A traversal succeeds when each element does. -/
theorem exists_mapM {f : α → Option β} {xs : List α} (h : ∀ x ∈ xs, ∃ y, f x = some y) :
    ∃ ys, xs.mapM f = some ys := by
  induction xs with
  | nil => exact ⟨[], rfl⟩
  | cons x xs ih =>
    rw [List.forall_mem_cons] at h
    obtain ⟨y, hy⟩ := h.1
    obtain ⟨ys, hys⟩ := ih h.2
    exact ⟨y :: ys, by simp [hy, hys]⟩

theorem mem_of_mapM {f : α → Option β} {xs : List α} {ys : List β} (h : xs.mapM f = some ys)
    {y : β} : y ∈ ys ↔ ∃ x ∈ xs, f x = some y := by
  rw [mapM_eq_some_iff] at h
  rw [← List.mem_map, h]
  simp

/-- **Loops.**  A loop whose body succeeds and carries the invariant from what is done to
what is done and one more succeeds, with the invariant for the whole list. -/
theorem foldlM_inv {σ : Type} {f : σ → α → Option σ} (Inv : List α → σ → Prop) (xs : List α)
    (hstep : ∀ done x rest s, xs = done ++ x :: rest → Inv done s →
      ∃ s', f s x = some s' ∧ Inv (done ++ [x]) s')
    {s : σ} (h : Inv [] s) : ∃ s', xs.foldlM f s = some s' ∧ Inv xs s' := by
  have hloop : ∀ (rest done : List α) (s : σ), xs = done ++ rest → Inv done s →
      ∃ s', rest.foldlM f s = some s' ∧ Inv xs s' := by
    intro rest
    induction rest with
    | nil =>
      intro done s hsplit hinv
      rw [List.append_nil] at hsplit
      exact ⟨s, rfl, hsplit ▸ hinv⟩
    | cons x rest ih =>
      intro done s hsplit hinv
      obtain ⟨s₁, hs₁, hinv₁⟩ := hstep done x rest s hsplit hinv
      obtain ⟨s₂, hs₂, hinv₂⟩ := ih (done ++ [x]) s₁ (by simp [hsplit]) hinv₁
      exact ⟨s₂, by simp [hs₁, hs₂], hinv₂⟩
  exact hloop xs [] s rfl h

/-! ## Splitting -/

theorem mem_intercalate {glue : List α} {parts : List (List α)} {x : α} (h : x ∈ glue.intercalate parts) :
    x ∈ glue ∨ ∃ part ∈ parts, x ∈ part := by
  induction parts with
  | nil => exact absurd h List.not_mem_nil
  | cons first rest ih =>
    cases rest with
    | nil =>
      rw [List.intercalate_singleton] at h
      exact .inr ⟨first, List.mem_singleton_self first, h⟩
    | cons second rest =>
      rw [List.intercalate_cons_cons] at h
      rcases List.mem_append.mp h with h | h
      · rcases List.mem_append.mp h with h | h
        · exact .inr ⟨first, List.mem_cons_self .., h⟩
        · exact .inl h
      · rcases ih h with h | ⟨part, hpart, h⟩
        · exact .inl h
        · exact .inr ⟨part, List.mem_cons_of_mem _ hpart, h⟩

theorem mem_intercalate_of_mem {glue part : List α} {parts : List (List α)} {x : α} (hpart : part ∈ parts) (hx : x ∈ part) :
    x ∈ glue.intercalate parts := by
  induction parts with
  | nil => exact absurd hpart List.not_mem_nil
  | cons first rest ih =>
    cases rest with
    | nil =>
      rw [List.mem_singleton.mp hpart] at hx
      rwa [List.intercalate_singleton]
    | cons second rest =>
      rw [List.intercalate_cons_cons]
      rcases List.mem_cons.mp hpart with rfl | hpart
      · exact List.mem_append_left _ (List.mem_append_left _ hx)
      · exact List.mem_append_right _ (ih hpart)

section
variable [DecidableEq α] {sep : α} {xs part : List α} {parts : List (List α)}

theorem not_mem_of_mem_splitOn (h : part ∈ xs.splitOn sep) : sep ∉ part := by
  induction xs generalizing part with
  | nil =>
    rw [List.splitOn_nil, List.mem_singleton] at h
    rw [h]
    exact List.not_mem_nil
  | cons x xs ih =>
    rw [List.splitOn_cons_eq_if_modifyHead] at h
    split_ifs at h with hx
    · rcases List.mem_cons.mp h with rfl | h
      · exact List.not_mem_nil
      · exact ih h
    · obtain ⟨first, others, hsplit⟩ := List.exists_cons_of_ne_nil (List.splitOn_ne_nil sep xs)
      rw [hsplit] at h ih
      rcases List.mem_cons.mp h with rfl | h
      · rw [List.mem_cons, not_or]
        exact ⟨fun heq => hx (by simp [heq]), ih (List.mem_cons_self ..)⟩
      · exact ih (List.mem_cons_of_mem _ h)

theorem mem_of_mem_splitOn {x : α} (hpart : part ∈ xs.splitOn sep) (hx : x ∈ part) : x ∈ xs := by
  have hjoin : [sep].intercalate (xs.splitOn sep) = xs := List.intercalate_splitOn sep
  exact hjoin ▸ mem_intercalate_of_mem hpart hx

/-- **What a list is split into**, as the list that is joined from it. -/
theorem splitOn_eq_iff (hne : parts ≠ []) :
    xs.splitOn sep = parts ↔ xs = [sep].intercalate parts ∧ ∀ part ∈ parts, sep ∉ part := by
  constructor
  · rintro rfl
    exact ⟨(List.intercalate_splitOn sep).symm, fun part hpart => not_mem_of_mem_splitOn hpart⟩
  · rintro ⟨rfl, hparts⟩
    exact List.splitOn_intercalate sep hparts hne

end

/-- **A search of a sorted list** finds the least element that passes. -/
theorem least_of_find? [LinearOrder α] {p : α → Bool} {xs : List α} {x : α}
    (hsorted : xs.Pairwise (· < ·)) (h : xs.find? p = some x) : ∀ y ∈ xs, p y → x ≤ y := by
  induction xs with
  | nil => exact fun y hy => absurd hy List.not_mem_nil
  | cons first rest ih =>
    rw [List.pairwise_cons] at hsorted
    rw [List.find?_cons] at h
    intro y hy hpass
    by_cases hfirst : p first = true
    · simp only [hfirst, Option.some.injEq] at h
      subst h
      rcases List.mem_cons.mp hy with rfl | hy
      · exact le_refl y
      · exact (hsorted.1 y hy).le
    · simp only [Bool.not_eq_true _ ▸ hfirst] at h
      rcases List.mem_cons.mp hy with rfl | hy
      · exact absurd hpass hfirst
      · exact ih hsorted.2 h y hy hpass

end Lists
