/-
# Bounded semaphores and who holds their permits

Tasks are numbered, `task k` is what task `k` is doing, and `held holds task n` counts
those of the first `n` that hold a permit.  The lemmas say what one task's step does to
the count, so that "held and free make the bound" is kept by arithmetic alone.
-/
import Mathlib

namespace Semaphore

variable {β : Type} (holds : β → Bool)

/-- Take a permit without waiting for one. -/
def acquire (free : ℕ) : Option ℕ := if free = 0 then none else some (free - 1)

/-- Give a permit back; `none` where the semaphore is full (a `ValueError`). -/
def release (bound free : ℕ) : Option ℕ := if free < bound then some (free + 1) else none

/-- How many of the first `n` tasks hold a permit. -/
def held (task : ℕ → β) (n : ℕ) : ℕ := Nat.count (fun k => holds (task k) = true) n

theorem acquire_eq_some_iff {free left : ℕ} : acquire free = some left ↔ free = left + 1 := by
  unfold acquire
  split_ifs with hzero
  · exact iff_of_false nofun (by omega)
  · rw [Option.some.injEq]
    omega

theorem acquire_eq_none_iff {free : ℕ} : acquire free = none ↔ free = 0 := by
  unfold acquire
  split_ifs with hzero <;> simp [hzero]

theorem release_of_lt {bound free : ℕ} (h : free < bound) : release bound free = some (free + 1) :=
  if_pos h

variable {holds} {task : ℕ → β} {t n : ℕ} {b : β}

@[simp] theorem held_zero : held holds task 0 = 0 := Nat.count_zero _

theorem held_succ :
    held holds task (n + 1) = held holds task n + if holds (task n) = true then 1 else 0 :=
  Nat.count_succ _ _

theorem held_congr {task' : ℕ → β} (h : ∀ k < n, holds (task' k) = holds (task k)) :
    held holds task' n = held holds task n := by
  induction n with
  | zero => rfl
  | succ n ih =>
    rw [held_succ, held_succ, ih fun k hk => h k (by omega), h n (by omega)]

/-- A task past those counted. -/
theorem held_update_of_le (h : n ≤ t) : held holds (Function.update task t b) n = held holds task n :=
  held_congr fun k hk => by rw [Function.update_of_ne (by omega)]

/-- **What one task's step does to the count.** -/
theorem held_update (ht : t < n) :
    held holds (Function.update task t b) n + (if holds (task t) = true then 1 else 0)
      = held holds task n + if holds b = true then 1 else 0 := by
  induction n with
  | zero => exact absurd ht (Nat.not_lt_zero t)
  | succ n ih =>
    rw [held_succ, held_succ]
    obtain rfl | hlt := Nat.eq_or_lt_of_le (Nat.le_of_lt_succ ht)
    · rw [held_update_of_le le_rfl, Function.update_self]
      omega
    · have hn := ih hlt
      rw [Function.update_of_ne (by omega)]
      omega

/-- A task that holds a permit is counted. -/
theorem held_pos (ht : t < n) (h : holds (task t) = true) : 0 < held holds task n := by
  induction n with
  | zero => exact absurd ht (Nat.not_lt_zero t)
  | succ n ih =>
    rw [held_succ]
    obtain rfl | hlt := Nat.eq_or_lt_of_le (Nat.le_of_lt_succ ht)
    · rw [if_pos h]
      omega
    · have hn := ih hlt
      omega

/-- Fewer tasks do what not every holder does. -/
theorem held_le {holds' : β → Bool} (h : ∀ b, holds' b = true → holds b = true) :
    held holds' task n ≤ held holds task n := by
  induction n with
  | zero => exact le_rfl
  | succ n ih =>
    rw [held_succ, held_succ]
    have hn := h (task n)
    split_ifs with h' h'' <;> first | omega | exact absurd (hn h') h''

end Semaphore
