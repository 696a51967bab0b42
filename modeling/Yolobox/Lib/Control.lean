/-
# Loops and cleanups of scripts

`turns body n st` is `while True:` cut off after `n` turns: `Sum.inl` is the state the
next turn starts from, `Sum.inr` what the body returned.  What holds of the cut loop
for every `n` holds of every run of the loop, ended or not.

`ensuring p cleanup` is `try: p finally: cleanup`.
-/
import Yolobox.Lib.Script

namespace Script

variable {C : Type} {R : C → Type} {ε α S σ : Type}

def turns (body : S → Script C R ε (S ⊕ α)) : ℕ → S → Script C R ε (S ⊕ α)
  | 0, st => ret (.inl st)
  | n + 1, st => (body st).bind fun
    | .inl st => turns body n st
    | .inr a => ret (.inr a)

@[simp] theorem turns_zero (body : S → Script C R ε (S ⊕ α)) (st : S) :
    turns body 0 st = ret (.inl st) := rfl

theorem turns_succ (body : S → Script C R ε (S ⊕ α)) (n : ℕ) (st : S) :
    turns body (n + 1) st = (body st).bind fun
      | .inl st => turns body n st
      | .inr a => ret (.inr a) := rfl

/-- What is asked of each way to end a loop's body. -/
structure LoopPost (S ε α σ : Type) where
  again : S → σ → Prop
  finished : α → σ → Prop
  raised : ε → σ → Prop
  killed : σ → Prop

/-- The same, of a script. -/
def LoopPost.post (Q : LoopPost S ε α σ) : Post ε (S ⊕ α) σ where
  returned := Sum.elim Q.again Q.finished
  raised := Q.raised
  killed := Q.killed

variable {m : Machine R σ} {body : S → Script C R ε (S ⊕ α)}

/-- **The rule of the loop.**  `I k` is what holds before the `k`-th turn. -/
theorem wp_turns {I : ℕ → S → σ → Prop} {finished : α → σ → Prop} {raised : ε → σ → Prop}
    {killed : σ → Prop}
    (hbody : ∀ k st s, I k st s →
      (body st).wp m (LoopPost.post ⟨I (k + 1), finished, raised, killed⟩) s)
    (n : ℕ) {k : ℕ} {st : S} {s : σ} (h : I k st s) :
    (turns body n st).wp m (LoopPost.post ⟨I (k + n), finished, raised, killed⟩) s := by
  induction n generalizing k st s with
  | zero => exact h
  | succ n ih =>
    rw [turns_succ]
    refine wp_seq (wp_mono (hbody k st s h) ?_ (fun _ _ h => h) fun _ h => h)
    rintro (st' | a) t ht
    · rw [show k + (n + 1) = k + 1 + n by omega]
      exact ih ht
    · exact ht

/-! ## Cleanups -/

/-- Return what was returned, or give up again with what was given up with. -/
def reraise : Except ε α → Script C R ε α
  | .ok a => ret a
  | .error e => throw e

/-- Run `p`, and then `cleanup` however it ended. -/
def ensuring (p : Script C R ε α) (cleanup : Script C R ε Unit) : Script C R ε α :=
  p.caught.bind fun ended => cleanup.bind fun _ => reraise ended

/-- **The rule of the cleanup.** -/
theorem wp_ensuring {p : Script C R ε α} {cleanup : Script C R ε Unit} {Q P : Post ε α σ} {s : σ}
    (hp : p.wp m P s)
    (hreturned : ∀ a t, P.returned a t →
      cleanup.wp m ⟨fun _ u => Q.returned a u, Q.raised, Q.killed⟩ t)
    (hraised : ∀ e t, P.raised e t →
      cleanup.wp m ⟨fun _ u => Q.raised e u, Q.raised, Q.killed⟩ t)
    (hkilled : ∀ t, P.killed t → Q.killed t) : (ensuring p cleanup).wp m Q s := by
  refine wp_seq ?_
  rw [wp_caught]
  exact wp_mono hp (fun a t ht => wp_seq (hreturned a t ht))
    (fun e t ht => wp_seq (hraised e t ht)) hkilled

end Script
