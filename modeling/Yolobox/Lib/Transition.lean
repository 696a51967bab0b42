/-
# Transition systems whose steps are computed

A system is a step function `step : S → A → Option S`: action `a` is enabled in
`s` when `step s a` is some state.  A schedule is a list of actions, so the
interleavings of any number of parties are the lists over their actions, and a
concrete schedule is evaluated by `run`.

`Reaches step ok s₀ s` is reachability through steps that all meet `ok`, a
condition on an action and the state it is taken in.  `Reaches.invariant` is the
induction every safety result goes through: what one step preserves, every run
preserves.
-/
import Mathlib

namespace Transition

variable {S A : Type*}

/-- Carry out the actions in order, from `s`. -/
def run (step : S → A → Option S) : S → List A → Option S
  | s, [] => some s
  | s, a :: as => (step s a).bind fun s' => run step s' as

@[simp] theorem run_nil (step : S → A → Option S) (s : S) : run step s [] = some s := rfl

theorem run_cons (step : S → A → Option S) (s : S) (a : A) (as : List A) :
    run step s (a :: as) = (step s a).bind fun s' => run step s' as := rfl

theorem run_append (step : S → A → Option S) (s : S) (as bs : List A) :
    run step s (as ++ bs) = (run step s as).bind fun s' => run step s' bs := by
  induction as generalizing s with
  | nil => rfl
  | cons a as ih =>
    rw [List.cons_append, run_cons, run_cons, Option.bind_assoc]
    exact Option.bind_congr fun t _ => ih t

/-- `s` is reached from `s₀` by steps that each meet `ok` where they are taken. -/
inductive Reaches (step : S → A → Option S) (ok : S → A → Prop) (s₀ : S) : S → Prop
  | refl : Reaches step ok s₀ s₀
  | tail {s s' : S} {a : A} :
      Reaches step ok s₀ s → ok s a → step s a = some s' → Reaches step ok s₀ s'

/-- Any step may be taken. -/
def anyStep : S → A → Prop := fun _ _ => True

instance (s : S) (a : A) : Decidable (anyStep s a) := inferInstanceAs (Decidable True)

variable {step : S → A → Option S} {ok ok' : S → A → Prop} {s₀ s s' : S}

/-- **The invariant rule.**  What holds at the start and is preserved by every
step that meets the condition holds wherever such steps lead. -/
theorem Reaches.invariant {I : S → Prop} (h : Reaches step ok s₀ s) (h₀ : I s₀)
    (hstep : ∀ s a s', I s → ok s a → step s a = some s' → I s') : I s := by
  induction h with
  | refl => exact h₀
  | tail _ hok hs ih => exact hstep _ _ _ ih hok hs

/-- Asking less of the steps reaches no fewer states. -/
theorem Reaches.mono (hle : ∀ s a, ok s a → ok' s a) (h : Reaches step ok s₀ s) :
    Reaches step ok' s₀ s := by
  induction h with
  | refl => exact .refl
  | tail _ hok hs ih => exact .tail ih (hle _ _ hok) hs

theorem Reaches.trans {s₁ s₂ : S} (h₁ : Reaches step ok s₀ s₁) (h₂ : Reaches step ok s₁ s₂) :
    Reaches step ok s₀ s₂ := by
  induction h₂ with
  | refl => exact h₁
  | tail _ hok hs ih => exact .tail ih hok hs

/-- The step function that refuses an action its condition does not allow. -/
def guarded (step : S → A → Option S) (ok : S → A → Prop) [∀ s a, Decidable (ok s a)] :
    S → A → Option S :=
  fun s a => if ok s a then step s a else none

/-- **Schedules reach.**  A schedule that the guarded steps carry to its end
reaches the state it ends in, through steps that meet the condition. -/
theorem reaches_of_run [∀ s a, Decidable (ok s a)] (as : List A)
    (h : run (guarded step ok) s as = some s') : Reaches step ok s s' := by
  induction as generalizing s with
  | nil =>
    rw [run_nil, Option.some.injEq] at h
    exact h ▸ .refl
  | cons a as ih =>
    rw [run_cons, Option.bind_eq_some_iff] at h
    obtain ⟨t, ht, hrest⟩ := h
    unfold guarded at ht
    split_ifs at ht with hok
    exact Reaches.trans (.tail .refl hok ht) (ih hrest)

end Transition
