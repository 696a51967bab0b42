/-
# Scripts that run side by side

Several parties run scripts over one shared state, one command at a time in any order.
`Under` is rely-guarantee for one party: between its commands the others may take any
`rely` steps; each of its own commands is a `guar` step and keeps the invariant `I`; and
what it comes to is stable under `rely`.  `parallel` and `interfered` are the rules of
the whole system: where every party guarantees what the others rely on, a step of one
party, or of the surroundings, leaves every party as it was judged.
-/
import Yolobox.Lib.Script

namespace Script

variable {C : Type} {R : C → Type} {ε α β σ : Type}

/-- Run from `s` amid `rely` steps, the script makes only `guar` steps that keep `I`,
and ends with `Q` or gives up with `E`. -/
def Under (m : Machine R σ) (I : σ → Prop) (rely guar : σ → σ → Prop) :
    Script C R ε α → (α → σ → Prop) → (ε → σ → Prop) → σ → Prop
  | ret a, Q, _, s => ∀ t, rely s t → Q a t
  | throw e, _, E, s => ∀ t, rely s t → E e t
  | exec c k, Q, E, s =>
    ∀ t, rely s t → I t → ∀ r u, m c t r u → guar t u ∧ I u ∧ (k r).Under m I rely guar Q E u

variable {m : Machine R σ} {I : σ → Prop} {rely guar : σ → σ → Prop}

/-! ## One party -/

theorem Under.mono {p : Script C R ε α} {Q Q' : α → σ → Prop} {E E' : ε → σ → Prop} {s : σ}
    (h : p.Under m I rely guar Q E s) (hQ : ∀ a t, Q a t → Q' a t)
    (hE : ∀ e t, E e t → E' e t) : p.Under m I rely guar Q' E' s := by
  induction p generalizing s with
  | ret a => exact fun t hst => hQ a t (h t hst)
  | throw e => exact fun t hst => hE e t (h t hst)
  | exec c k ih =>
    intro t hst hI r u hm
    obtain ⟨hguar, hIu, hrest⟩ := h t hst hI r u hm
    exact ⟨hguar, hIu, ih r hrest⟩

theorem Under.caught {p : Script C R ε α} {Q : Except ε α → σ → Prop} {E : ε → σ → Prop} {s : σ}
    (h : p.Under m I rely guar (fun a t => Q (.ok a) t) (fun e t => Q (.error e) t) s) :
    p.caught.Under m I rely guar Q E s := by
  induction p generalizing s with
  | ret a => exact h
  | throw e => exact h
  | exec c k ih =>
    intro t hst hI r u hm
    obtain ⟨hguar, hIu, hrest⟩ := h t hst hI r u hm
    exact ⟨hguar, hIu, ih r hrest⟩

/-- A command that is issued where `A` holds, which the others do not disturb. -/
theorem under_exec {c : C} {k : Option (R c) → Script C R ε α} {Q : α → σ → Prop}
    {E : ε → σ → Prop} {s : σ} {A : σ → Prop} (hA : A s) (hstable : ∀ t u, A t → rely t u → A u)
    (h : ∀ t, A t → I t → ∀ r u, m c t r u →
      guar t u ∧ I u ∧ (k r).Under m I rely guar Q E u) :
    (exec c k).Under m I rely guar Q E s :=
  fun t hst hI => h t (hstable s t hA hst) hI

theorem under_cmd {e : ε} {c : C} {Q : R c → σ → Prop} {E : ε → σ → Prop} {s : σ} {A : σ → Prop}
    (hA : A s) (hstable : ∀ t u, A t → rely t u → A u)
    (hQ : ∀ r t u, Q r t → rely t u → Q r u) (hE : ∀ t u, E e t → rely t u → E e u)
    (hstep : ∀ t, A t → I t → ∀ r u, m c t r u → guar t u ∧ I u)
    (hsome : ∀ t, A t → I t → ∀ r u, m c t (some r) u → Q r u)
    (hnone : ∀ t, A t → I t → ∀ u, m c t none u → E e u) :
    (cmd e c : Script C R ε (R c)).Under m I rely guar Q E s := by
  refine under_exec hA hstable fun t hAt hI r u hm => ?_
  obtain ⟨hguar, hIu⟩ := hstep t hAt hI r u hm
  refine ⟨hguar, hIu, ?_⟩
  cases r with
  | some r => exact fun v huv => hQ r u v (hsome t hAt hI r u hm) huv
  | none => exact fun v huv => hE u v (hnone t hAt hI u hm) huv

variable [IsPreorder σ rely]

/-- What the others do changes nothing about the judgement. -/
theorem Under.interfered {p : Script C R ε α} {Q : α → σ → Prop} {E : ε → σ → Prop} {s t : σ}
    (h : p.Under m I rely guar Q E s) (hst : rely s t) : p.Under m I rely guar Q E t := by
  cases p with
  | ret a => exact fun u htu => h u (Trans.trans hst htu)
  | throw e => exact fun u htu => h u (Trans.trans hst htu)
  | exec c k => exact fun u htu => h u (Trans.trans hst htu)

/-- **The rule of sequencing.** -/
theorem Under.bind {p : Script C R ε α} {f : α → Script C R ε β} {Q : α → σ → Prop}
    {Q' : β → σ → Prop} {E : ε → σ → Prop} {s : σ} (hp : p.Under m I rely guar Q E s)
    (hf : ∀ a t, Q a t → (f a).Under m I rely guar Q' E t) :
    (p.bind f).Under m I rely guar Q' E s := by
  induction p generalizing s with
  | ret a => exact hf a s (hp s (refl s))
  | throw e => exact hp
  | exec c k ih =>
    intro t hst hI r u hm
    obtain ⟨hguar, hIu, hrest⟩ := hp t hst hI r u hm
    exact ⟨hguar, hIu, ih r hrest⟩

/-! ## All parties -/

variable {ι : Type} {mach : ι → Machine R σ} {relies : ι → σ → σ → Prop}
  {party : ι → Script C R ε α} {Q : α → σ → Prop} {E : ε → σ → Prop}

/-- What the others rely on. -/
def others (relies : ι → σ → σ → Prop) (i : ι) (s t : σ) : Prop := ∀ j, j ≠ i → relies j s t

/-- Every party is judged to run well amid the others. -/
def AllUnder (mach : ι → Machine R σ) (I : σ → Prop) (relies : ι → σ → σ → Prop)
    (Q : α → σ → Prop) (E : ε → σ → Prop) (party : ι → Script C R ε α) (s : σ) : Prop :=
  ∀ i, (party i).Under (mach i) I (relies i) (others relies i) Q E s

/-- A party starts another script. -/
theorem AllUnder.start [DecidableEq ι] {i : ι} {p : Script C R ε α} {s : σ} (h : AllUnder mach I relies Q E party s)
    (hp : p.Under (mach i) I (relies i) (others relies i) Q E s) :
    AllUnder mach I relies Q E (Function.update party i p) s := by
  intro j
  by_cases hj : j = i
  · subst hj
    rw [Function.update_self]
    exact hp
  · rw [Function.update_of_ne hj]
    exact h j

variable [∀ i, IsPreorder σ (relies i)]

/-- **A step of the surroundings.** -/
theorem AllUnder.interfered {s t : σ} (h : AllUnder mach I relies Q E party s)
    (hst : ∀ i, relies i s t) : AllUnder mach I relies Q E party t :=
  fun i => (h i).interfered (hst i)

/-- **A step of one party.** -/
theorem AllUnder.step [DecidableEq ι] {i : ι} {c : C} {k : Option (R c) → Script C R ε α} {s t : σ}
    {r : Option (R c)} (h : AllUnder mach I relies Q E party s) (hi : party i = exec c k)
    (hI : I s) (hm : mach i c s r t) :
    I t ∧ AllUnder mach I relies Q E (Function.update party i (k r)) t := by
  have hown := h i
  rw [hi] at hown
  obtain ⟨hguar, hIt, hrest⟩ := hown s (refl s) hI r t hm
  refine ⟨hIt, fun j => ?_⟩
  by_cases hj : j = i
  · subst hj
    rw [Function.update_self]
    exact hrest
  · rw [Function.update_of_ne hj]
    exact (h j).interfered (hguar j hj)

end Script
