/-
# Scripts over failing commands

A `Script C R ε α` issues commands `c : C` one after another.  A command answers
with some `R c` or fails (`none`: a nonzero exit, an exception); what follows may
depend on the answer and on the failure.  The script returns an `α` or gives up
with an `ε`.

The same script has several readings:

* `interp` runs it against a handler, a computed answer for each command;
* `Ends` is what it can come to on a machine, a relation between a command, the
  state before, the answer and the state after, where it may also be killed
  before any command or right after one (a power cut, `kill -9`);
* `wp` is the weakest precondition of `Ends` (`wp_iff`), computed over the
  script, with one rule for each construct;
* `Ensures` is the partial-correctness part of `wp`: what holds whenever the script
  returns;
* `wpIn` is `wp` with a condition on the state in which each command is issued
  (`wpIn_iff`);
* `Issues` says that a script issues only commands of a kind, whatever the
  answers are.
-/
import Mathlib

/-- A script that issues commands `C`, with answers `R`. -/
inductive Script (C : Type) (R : C → Type) (ε α : Type) : Type
  | ret (a : α)
  | throw (e : ε)
  | exec (c : C) (k : Option (R c) → Script C R ε α)

namespace Script

variable {C : Type} {R : C → Type} {ε α β σ : Type}

/-- Go on with the value a script returns. -/
def bind : Script C R ε α → (α → Script C R ε β) → Script C R ε β
  | ret a, f => f a
  | throw e, _ => throw e
  | exec c k, f => exec c fun r => (k r).bind f

instance : Monad (Script C R ε) where
  pure := ret
  bind := bind

/-- Issue a command whose failure ends the script (a shell's `errexit`, a raised
exception). -/
def cmd (e : ε) (c : C) : Script C R ε (R c) :=
  exec c fun
    | some r => ret r
    | none => throw e

/-- Issue a command and look at whether it failed. -/
def attempt (c : C) : Script C R ε (Option (R c)) := exec c ret

/-- Turn giving up into a value. -/
def caught : Script C R ε α → Script C R ε (Except ε α)
  | ret a => ret (.ok a)
  | throw e => ret (.error e)
  | exec c k => exec c fun r => (k r).caught

/-- Give up with another error (`except E as error: raise F(error)`). -/
def mapError (f : ε → ε) : Script C R ε α → Script C R ε α
  | ret a => ret a
  | throw e => throw (f e)
  | exec c k => exec c fun r => (k r).mapError f

/-- One script for each element, in order. -/
def each {ι : Type} : List ι → (ι → Script C R ε Unit) → Script C R ε Unit
  | [], _ => ret ()
  | i :: is, f => (f i).bind fun _ => each is f

@[simp] theorem pure_eq (a : α) : (pure a : Script C R ε α) = ret a := rfl

@[simp] theorem bind_eq (p : Script C R ε α) (f : α → Script C R ε β) :
    (p >>= f) = p.bind f := rfl

@[simp] theorem ret_bind (a : α) (f : α → Script C R ε β) : (ret a).bind f = f a := rfl

@[simp] theorem throw_bind (e : ε) (f : α → Script C R ε β) :
    (throw e : Script C R ε α).bind f = throw e := rfl

@[simp] theorem exec_bind (c : C) (k : Option (R c) → Script C R ε α)
    (f : α → Script C R ε β) : (exec c k).bind f = exec c fun r => (k r).bind f := rfl

theorem bind_bind {γ : Type} (p : Script C R ε α) (f : α → Script C R ε β) (g : β → Script C R ε γ) :
    (p.bind f).bind g = p.bind fun a => (f a).bind g := by
  induction p with
  | ret a => rfl
  | throw e => rfl
  | exec c k ih => exact congrArg (exec c) (funext ih)

theorem each_append {ι : Type} (is js : List ι) (f : ι → Script C R ε Unit) :
    each (is ++ js) f = (each is f).bind fun _ => each js f := by
  induction is with
  | nil => rfl
  | cons i is ih => rw [List.cons_append, each, each, ih, bind_bind]

/-! ## Against a handler -/

/-- Run a script against a handler. -/
def interp (handle : (c : C) → σ → Option (R c) × σ) :
    Script C R ε α → σ → Except ε α × σ
  | ret a, s => (.ok a, s)
  | throw e, s => (.error e, s)
  | exec c k, s => (k (handle c s).1).interp handle (handle c s).2

theorem interp_bind (handle : (c : C) → σ → Option (R c) × σ) (p : Script C R ε α)
    (f : α → Script C R ε β) (s : σ) :
    (p.bind f).interp handle s
      = match p.interp handle s with
        | (.ok a, s') => (f a).interp handle s'
        | (.error e, s') => (.error e, s') := by
  induction p generalizing s with
  | ret a => rfl
  | throw e => rfl
  | exec c k ih => exact ih _ _

theorem interp_caught (handle : (c : C) → σ → Option (R c) × σ) (p : Script C R ε α) (s : σ) :
    p.caught.interp handle s = (.ok (p.interp handle s).1, (p.interp handle s).2) := by
  induction p generalizing s with
  | ret a => rfl
  | throw e => rfl
  | exec c k ih => exact ih _ _

/-- Two continuations that agree on what a script returns. -/
theorem interp_bind_congr {handle : (c : C) → σ → Option (R c) × σ} {p : Script C R ε α}
    {f g : α → Script C R ε β} {s : σ}
    (h : ∀ a s', p.interp handle s = (.ok a, s') →
      (f a).interp handle s' = (g a).interp handle s') :
    (p.bind f).interp handle s = (p.bind g).interp handle s := by
  rw [interp_bind, interp_bind]
  split
  · rename_i a s' hp
    exact h a s' hp
  · rfl

/-! ## On a machine -/

/-- How a run ends. -/
inductive Outcome (ε α : Type)
  | returned (a : α)
  | raised (e : ε)
  | killed
  deriving DecidableEq, Repr

/-- What a command may answer in a state, and the state it leaves. -/
abbrev Machine (R : C → Type) (σ : Type) := (c : C) → σ → Option (R c) → σ → Prop

/-- The outcomes and end states of a script on a machine. -/
def Ends (m : Machine R σ) : Script C R ε α → σ → Outcome ε α → σ → Prop
  | ret a, s, o, s' => o = .returned a ∧ s' = s
  | throw e, s, o, s' => o = .raised e ∧ s' = s
  | exec c k, s, o, s' =>
    o = .killed ∧ s' = s ∨
      ∃ r t, m c s r t ∧ (o = .killed ∧ s' = t ∨ (k r).Ends m t o s')

/-- What is asked of each way to end. -/
structure Post (ε α σ : Type) where
  returned : α → σ → Prop
  raised : ε → σ → Prop
  killed : σ → Prop

/-- What a postcondition says about one outcome. -/
def Post.Holds (Q : Post ε α σ) : Outcome ε α → σ → Prop
  | .returned a, s => Q.returned a s
  | .raised e, s => Q.raised e s
  | .killed, s => Q.killed s

/-- The weakest precondition. -/
def wp (m : Machine R σ) : Script C R ε α → Post ε α σ → σ → Prop
  | ret a, Q, s => Q.returned a s
  | throw e, Q, s => Q.raised e s
  | exec c k, Q, s => Q.killed s ∧ ∀ r t, m c s r t → Q.killed t ∧ (k r).wp m Q t

variable {m : Machine R σ}

/-- **Soundness and completeness of `wp`.** -/
theorem wp_iff {p : Script C R ε α} {Q : Post ε α σ} {s : σ} :
    p.wp m Q s ↔ ∀ o s', p.Ends m s o s' → Q.Holds o s' := by
  induction p generalizing s with
  | ret a =>
    constructor
    · rintro h o s' ⟨rfl, rfl⟩
      exact h
    · intro h
      exact h (.returned a) s ⟨rfl, rfl⟩
  | throw e =>
    constructor
    · rintro h o s' ⟨rfl, rfl⟩
      exact h
    · intro h
      exact h (.raised e) s ⟨rfl, rfl⟩
  | exec c k ih =>
    constructor
    · rintro ⟨hkill, hnext⟩ o s' (⟨rfl, rfl⟩ | ⟨r, t, hm, ⟨rfl, rfl⟩ | hrest⟩)
      · exact hkill
      · exact (hnext r _ hm).1
      · exact (ih r).mp (hnext r t hm).2 o s' hrest
    · intro h
      refine ⟨h .killed s (.inl ⟨rfl, rfl⟩), fun r t hm => ⟨?_, ?_⟩⟩
      · exact h .killed t (.inr ⟨r, t, hm, .inl ⟨rfl, rfl⟩⟩)
      · exact (ih r).mpr fun o s' hrest => h o s' (.inr ⟨r, t, hm, .inr hrest⟩)

@[simp] theorem wp_ret (a : α) (Q : Post ε α σ) (s : σ) :
    (ret a : Script C R ε α).wp m Q s = Q.returned a s := rfl

@[simp] theorem wp_throw (e : ε) (Q : Post ε α σ) (s : σ) :
    (throw e : Script C R ε α).wp m Q s = Q.raised e s := rfl

theorem wp_exec (c : C) (k : Option (R c) → Script C R ε α) (Q : Post ε α σ) (s : σ) :
    (exec c k).wp m Q s
      = (Q.killed s ∧ ∀ r t, m c s r t → Q.killed t ∧ (k r).wp m Q t) := rfl

/-- **The rule of sequencing.** -/
theorem wp_bind (p : Script C R ε α) (f : α → Script C R ε β) (Q : Post ε β σ) (s : σ) :
    (p.bind f).wp m Q s
      = p.wp m ⟨fun a t => (f a).wp m Q t, Q.raised, Q.killed⟩ s := by
  induction p generalizing s with
  | ret a => rfl
  | throw e => rfl
  | exec c k ih =>
    simp only [exec_bind, wp_exec, ih]

/-- The rule of sequencing, as a goal is reduced by it. -/
theorem wp_seq {p : Script C R ε α} {f : α → Script C R ε β} {Q : Post ε β σ} {s : σ}
    (h : p.wp m ⟨fun a t => (f a).wp m Q t, Q.raised, Q.killed⟩ s) : (p.bind f).wp m Q s :=
  (wp_bind p f Q s).mpr h

/-- **The rule of consequence.** -/
theorem wp_mono {p : Script C R ε α} {Q Q' : Post ε α σ} {s : σ} (h : p.wp m Q s)
    (hret : ∀ a t, Q.returned a t → Q'.returned a t)
    (hraise : ∀ e t, Q.raised e t → Q'.raised e t) (hkill : ∀ t, Q.killed t → Q'.killed t) :
    p.wp m Q' s := by
  induction p generalizing s with
  | ret a => exact hret a s h
  | throw e => exact hraise e s h
  | exec c k ih =>
    exact ⟨hkill s h.1, fun r t hm => ⟨hkill t (h.2 r t hm).1, ih r (h.2 r t hm).2⟩⟩

/-- **The loop rule**, with an invariant over what is left of the list. -/
theorem wp_each {ι : Type} {I : List ι → σ → Prop} {Q : Post ε Unit σ} {is : List ι}
    {f : ι → Script C R ε Unit} {s : σ}
    (hstep : ∀ i rest t, i :: rest <:+ is → I (i :: rest) t →
      (f i).wp m ⟨fun _ u => I rest u, Q.raised, Q.killed⟩ t)
    (hend : ∀ t, I [] t → Q.returned () t) (hs : I is s) : (each is f).wp m Q s := by
  have hloop : ∀ rest t, rest <:+ is → I rest t → (each rest f).wp m Q t := by
    intro rest
    induction rest with
    | nil => exact fun t _ ht => hend t ht
    | cons i rest ih =>
      intro t hsuffix ht
      refine wp_seq (wp_mono (hstep i rest t hsuffix ht) (fun _ u hu => ?_) (fun _ _ h => h) fun _ h => h)
      exact ih u ((List.suffix_cons i rest).trans hsuffix) hu
  exact hloop is s List.suffix_rfl hs

/-- A command whose failure ends the script. -/
theorem wp_cmd (e : ε) (c : C) (Q : Post ε (R c) σ) (s : σ) :
    (cmd e c : Script C R ε (R c)).wp m Q s
      ↔ Q.killed s ∧ (∀ r t, m c s (some r) t → Q.killed t ∧ Q.returned r t)
        ∧ ∀ t, m c s none t → Q.killed t ∧ Q.raised e t := by
  rw [cmd, wp_exec]
  constructor
  · rintro ⟨hk, h⟩
    exact ⟨hk, fun r t hm => h (some r) t hm, fun t hm => h none t hm⟩
  · rintro ⟨hk, hsome, hnone⟩
    refine ⟨hk, fun r t hm => ?_⟩
    cases r with
    | some r => exact hsome r t hm
    | none => exact hnone t hm

theorem wp_attempt (c : C) (Q : Post ε (Option (R c)) σ) (s : σ) :
    (attempt c : Script C R ε (Option (R c))).wp m Q s
      ↔ Q.killed s ∧ ∀ r t, m c s r t → Q.killed t ∧ Q.returned r t :=
  Iff.rfl

theorem wp_caught (p : Script C R ε α) (Q : Post ε (Except ε α) σ) (s : σ) :
    p.caught.wp m Q s
      = p.wp m ⟨fun a t => Q.returned (.ok a) t, fun e t => Q.returned (.error e) t,
          Q.killed⟩ s := by
  induction p generalizing s with
  | ret a => rfl
  | throw e => rfl
  | exec c k ih => simp only [caught, wp_exec, ih]

/-! ## What a script returns -/

/-- Whenever the script returns, `Q` holds of what it returns and the state it leaves. -/
def Ensures (m : Machine R σ) (p : Script C R ε α) (Q : α → σ → Prop) (s : σ) : Prop :=
  ∀ a s', p.Ends m s (.returned a) s' → Q a s'

theorem ensures_iff_wp {p : Script C R ε α} {Q : α → σ → Prop} {s : σ} :
    p.Ensures m Q s ↔ p.wp m ⟨Q, fun _ _ => True, fun _ => True⟩ s := by
  rw [wp_iff]
  constructor
  · intro h o s' hends
    cases o with
    | returned a => exact h a s' hends
    | raised e => trivial
    | killed => trivial
  · intro h a s' hends
    exact h _ s' hends

@[simp] theorem ensures_ret {a : α} {Q : α → σ → Prop} {s : σ} :
    (ret a : Script C R ε α).Ensures m Q s ↔ Q a s := by
  rw [ensures_iff_wp, wp_ret]

@[simp] theorem ensures_throw {e : ε} {Q : α → σ → Prop} {s : σ} :
    (throw e : Script C R ε α).Ensures m Q s := by
  rw [ensures_iff_wp, wp_throw]
  trivial

@[simp] theorem ensures_bind {p : Script C R ε α} {f : α → Script C R ε β} {Q : β → σ → Prop}
    {s : σ} :
    (p.bind f).Ensures m Q s ↔ p.Ensures m (fun a t => (f a).Ensures m Q t) s := by
  simp only [ensures_iff_wp, wp_bind]

theorem ensures_exec {c : C} {k : Option (R c) → Script C R ε α} {Q : α → σ → Prop} {s : σ} :
    (exec c k).Ensures m Q s ↔ ∀ r t, m c s r t → (k r).Ensures m Q t := by
  simp only [ensures_iff_wp, wp_exec, true_and]

@[simp] theorem ensures_cmd {e : ε} {c : C} {Q : R c → σ → Prop} {s : σ} :
    (cmd e c : Script C R ε (R c)).Ensures m Q s ↔ ∀ r t, m c s (some r) t → Q r t := by
  simp only [ensures_iff_wp, wp_cmd, true_and, and_true, imp_true_iff]

@[simp] theorem ensures_attempt {c : C} {Q : Option (R c) → σ → Prop} {s : σ} :
    (attempt c : Script C R ε (Option (R c))).Ensures m Q s ↔ ∀ r t, m c s r t → Q r t := by
  simp only [ensures_iff_wp, wp_attempt, true_and]

@[simp] theorem ensures_mapError {f : ε → ε} {p : Script C R ε α} {Q : α → σ → Prop} {s : σ} :
    (p.mapError f).Ensures m Q s ↔ p.Ensures m Q s := by
  induction p generalizing s with
  | ret a => rfl
  | throw e => simp only [mapError, ensures_throw]
  | exec c k ih => simp only [mapError, ensures_exec, ih]

theorem Ensures.mono {p : Script C R ε α} {Q Q' : α → σ → Prop} {s : σ} (h : p.Ensures m Q s)
    (hQ : ∀ a t, Q a t → Q' a t) : p.Ensures m Q' s :=
  fun a s' hends => hQ a s' (h a s' hends)

/-- A machine with fewer answers has fewer runs. -/
theorem Ends.mono {m' : Machine R σ} (hm : ∀ c s r t, m c s r t → m' c s r t)
    {p : Script C R ε α} {s s' : σ} {o : Outcome ε α} (h : p.Ends m s o s') :
    p.Ends m' s o s' := by
  induction p generalizing s with
  | ret a => exact h
  | throw e => exact h
  | exec c k ih =>
    obtain hkill | ⟨r, t, hstep, hkill | hrest⟩ := h
    · exact .inl hkill
    · exact .inr ⟨r, t, hm c s r t hstep, .inl hkill⟩
    · exact .inr ⟨r, t, hm c s r t hstep, .inr (ih r hrest)⟩

/-- The rule of sequencing, with what the first script ensures. -/
theorem Ensures.bind {p : Script C R ε α} {f : α → Script C R ε β} {Q : α → σ → Prop}
    {Q' : β → σ → Prop} {s : σ} (hp : p.Ensures m Q s)
    (hf : ∀ a t, Q a t → (f a).Ensures m Q' t) : (p.bind f).Ensures m Q' s :=
  ensures_bind.mpr (hp.mono hf)

/-- **What every command keeps, every script keeps**, however it ends. -/
theorem Ends.keeps {I : σ → Prop} (hI : ∀ c s r t, I s → m c s r t → I t) {p : Script C R ε α}
    {s s' : σ} {o : Outcome ε α} (hends : p.Ends m s o s') (hs : I s) : I s' := by
  induction p generalizing s with
  | ret a => exact hends.2 ▸ hs
  | throw e => exact hends.2 ▸ hs
  | exec c k ih =>
    obtain ⟨-, rfl⟩ | ⟨r, t, hm, ⟨-, rfl⟩ | hrest⟩ := hends
    · exact hs
    · exact hI c s r _ hs hm
    · exact ih r hrest (hI c s r t hs hm)

/-- A run may also be killed right after its last command. -/
theorem Ends.killed_or_eq {p : Script C R ε α} {s s' : σ} {o : Outcome ε α}
    (h : p.Ends m s o s') : p.Ends m s .killed s' ∨ s' = s := by
  induction p generalizing s with
  | ret a => exact .inr h.2
  | throw e => exact .inr h.2
  | exec c k ih =>
    obtain ⟨-, rfl⟩ | ⟨r, t, hm, ⟨-, rfl⟩ | hrest⟩ := h
    · exact .inr rfl
    · exact .inl (.inr ⟨r, _, hm, .inl ⟨rfl, rfl⟩⟩)
    · rcases ih r hrest with hkilled | rfl
      · exact .inl (.inr ⟨r, t, hm, .inr hkilled⟩)
      · exact .inl (.inr ⟨r, _, hm, .inl ⟨rfl, rfl⟩⟩)

/-- What is kept may be added to what is ensured. -/
theorem Ensures.and_keeps {I : σ → Prop} (hI : ∀ c s r t, I s → m c s r t → I t)
    {p : Script C R ε α} {Q : α → σ → Prop} {s : σ} (h : p.Ensures m Q s) (hs : I s) :
    p.Ensures m (fun a t => Q a t ∧ I t) s :=
  fun a s' hends => ⟨h a s' hends, hends.keeps hI hs⟩

/-- The outcome a value or a failure stands for. -/
def Outcome.ofExcept : Except ε α → Outcome ε α
  | .ok a => .returned a
  | .error e => .raised e

/-- A run against a handler is one of the runs on a machine that allows what the
handler does, from states the handler stays within. -/
theorem ends_interp_within {handle : (c : C) → σ → Option (R c) × σ} {J : σ → Prop}
    (hm : ∀ c s, J s → m c s (handle c s).1 (handle c s).2 ∧ J (handle c s).2)
    (p : Script C R ε α) {s : σ} (hs : J s) :
    p.Ends m s (.ofExcept (p.interp handle s).1) (p.interp handle s).2 := by
  induction p generalizing s with
  | ret a => exact ⟨rfl, rfl⟩
  | throw e => exact ⟨rfl, rfl⟩
  | exec c k ih => exact .inr ⟨_, _, (hm c s hs).1, .inr (ih _ (hm c s hs).2)⟩

theorem ends_interp {handle : (c : C) → σ → Option (R c) × σ}
    (hm : ∀ c s, m c s (handle c s).1 (handle c s).2) (p : Script C R ε α) (s : σ) :
    p.Ends m s (.ofExcept (p.interp handle s).1) (p.interp handle s).2 :=
  ends_interp_within (J := fun _ => True) (fun c s _ => ⟨hm c s, trivial⟩) p trivial

/-! ## Where the commands are issued -/

/-- A command a script may issue on a machine, and the state it is issued in. -/
def Issued (m : Machine R σ) : Script C R ε α → σ → C → σ → Prop
  | ret _, _, _, _ => False
  | throw _, _, _, _ => False
  | exec c k, s, c', s' => c' = c ∧ s' = s ∨ ∃ r t, m c s r t ∧ (k r).Issued m t c' s'

/-- The weakest precondition of a script whose every command is issued where `ok`
allows it. -/
def wpIn (m : Machine R σ) (ok : C → σ → Prop) : Script C R ε α → Post ε α σ → σ → Prop
  | ret a, Q, s => Q.returned a s
  | throw e, Q, s => Q.raised e s
  | exec c k, Q, s =>
    ok c s ∧ Q.killed s ∧ ∀ r t, m c s r t → Q.killed t ∧ (k r).wpIn m ok Q t

variable {ok : C → σ → Prop}

/-- **Soundness and completeness of `wpIn`.** -/
theorem wpIn_iff {p : Script C R ε α} {Q : Post ε α σ} {s : σ} :
    p.wpIn m ok Q s ↔ (∀ c t, p.Issued m s c t → ok c t) ∧ ∀ o s', p.Ends m s o s' → Q.Holds o s' := by
  rw [← wp_iff]
  induction p generalizing s with
  | ret a => exact ⟨fun h => ⟨nofun, h⟩, And.right⟩
  | throw e => exact ⟨fun h => ⟨nofun, h⟩, And.right⟩
  | exec c k ih =>
    constructor
    · rintro ⟨hok, hkill, hnext⟩
      refine ⟨?_, hkill, fun r t hm => ⟨(hnext r t hm).1, ((ih r).mp (hnext r t hm).2).2⟩⟩
      rintro c' s' (⟨rfl, rfl⟩ | ⟨r, t, hm, hrest⟩)
      · exact hok
      · exact ((ih r).mp (hnext r t hm).2).1 c' s' hrest
    · rintro ⟨hissued, hkill, hnext⟩
      refine ⟨hissued c s (.inl ⟨rfl, rfl⟩), hkill, fun r t hm => ⟨(hnext r t hm).1, ?_⟩⟩
      exact (ih r).mpr ⟨fun c' s' h => hissued c' s' (.inr ⟨r, t, hm, h⟩), (hnext r t hm).2⟩

@[simp] theorem wpIn_ret {a : α} {Q : Post ε α σ} {s : σ} :
    (ret a : Script C R ε α).wpIn m ok Q s ↔ Q.returned a s := Iff.rfl

@[simp] theorem wpIn_throw {e : ε} {Q : Post ε α σ} {s : σ} :
    (throw e : Script C R ε α).wpIn m ok Q s ↔ Q.raised e s := Iff.rfl

theorem wpIn_bind {p : Script C R ε α} {f : α → Script C R ε β} {Q : Post ε β σ} {s : σ} :
    (p.bind f).wpIn m ok Q s
      ↔ p.wpIn m ok ⟨fun a t => (f a).wpIn m ok Q t, Q.raised, Q.killed⟩ s := by
  induction p generalizing s with
  | ret a => rfl
  | throw e => rfl
  | exec c k ih => simp only [exec_bind, wpIn, ih]

theorem wpIn_mono {p : Script C R ε α} {Q Q' : Post ε α σ} {s : σ} (h : p.wpIn m ok Q s)
    (hret : ∀ a t, Q.returned a t → Q'.returned a t)
    (hraise : ∀ e t, Q.raised e t → Q'.raised e t) (hkill : ∀ t, Q.killed t → Q'.killed t) :
    p.wpIn m ok Q' s := by
  induction p generalizing s with
  | ret a => exact hret a s h
  | throw e => exact hraise e s h
  | exec c k ih =>
    exact ⟨h.1, hkill s h.2.1,
      fun r t hm => ⟨hkill t (h.2.2 r t hm).1, ih r (h.2.2 r t hm).2⟩⟩

/-- The rule of sequencing, with what the first script returns in between. -/
theorem wpIn.bind {p : Script C R ε α} {f : α → Script C R ε β} {Q : Post ε β σ}
    {M : α → σ → Prop} {s : σ} (hp : p.wpIn m ok ⟨M, Q.raised, Q.killed⟩ s)
    (hf : ∀ a t, M a t → (f a).wpIn m ok Q t) : (p.bind f).wpIn m ok Q s :=
  wpIn_bind.mpr (wpIn_mono hp hf (fun _ _ h => h) fun _ h => h)

theorem wpIn_cmd {e : ε} {c : C} {Q : Post ε (R c) σ} {s : σ} (hok : ok c s)
    (hkill : Q.killed s) (hsome : ∀ r t, m c s (some r) t → Q.killed t ∧ Q.returned r t)
    (hnone : ∀ t, m c s none t → Q.killed t ∧ Q.raised e t) :
    (cmd e c : Script C R ε (R c)).wpIn m ok Q s := by
  refine ⟨hok, hkill, fun r t hm => ?_⟩
  cases r with
  | some r => exact hsome r t hm
  | none => exact hnone t hm

theorem wpIn_caught {p : Script C R ε α} {Q : Post ε (Except ε α) σ} {s : σ} :
    p.caught.wpIn m ok Q s
      ↔ p.wpIn m ok ⟨fun a t => Q.returned (.ok a) t, fun e t => Q.returned (.error e) t,
          Q.killed⟩ s := by
  induction p generalizing s with
  | ret a => rfl
  | throw e => rfl
  | exec c k ih => simp only [caught, wpIn, ih]

theorem wpIn_mapError {f : ε → ε} {p : Script C R ε α} {Q : Post ε α σ} {s : σ} :
    (p.mapError f).wpIn m ok Q s
      ↔ p.wpIn m ok ⟨Q.returned, fun e t => Q.raised (f e) t, Q.killed⟩ s := by
  induction p generalizing s with
  | ret a => rfl
  | throw e => rfl
  | exec c k ih => simp only [mapError, wpIn, ih]

/-! ## The commands alone -/

/-- Every command issued is a `P`, every giving up an `E` and every value returned an
`A`, whatever the commands answer. -/
def Issues (P : C → Prop) (E : ε → Prop) (A : α → Prop) : Script C R ε α → Prop
  | ret a => A a
  | throw e => E e
  | exec c k => P c ∧ ∀ r, (k r).Issues P E A

variable {P : C → Prop} {E : ε → Prop} {A : α → Prop} {B : β → Prop}

@[simp] theorem issues_ret (a : α) : (ret a : Script C R ε α).Issues P E A ↔ A a := Iff.rfl

@[simp] theorem issues_throw (e : ε) :
    (throw e : Script C R ε α).Issues P E A ↔ E e := Iff.rfl

theorem issues_cmd {e : ε} {c : C} {A : R c → Prop} (hc : P c) (he : E e) (hr : ∀ r, A r) :
    (cmd e c : Script C R ε (R c)).Issues P E A := by
  refine ⟨hc, fun r => ?_⟩
  cases r with
  | some r => exact hr r
  | none => exact he

theorem Issues.bind {p : Script C R ε α} {f : α → Script C R ε β} (hp : p.Issues P E A)
    (hf : ∀ a, A a → (f a).Issues P E B) : (p.bind f).Issues P E B := by
  induction p with
  | ret a => exact hf a hp
  | throw e => exact hp
  | exec c k ih => exact ⟨hp.1, fun r => ih r (hp.2 r)⟩

theorem Issues.mono {P' : C → Prop} (hP : ∀ c, P c → P' c) {p : Script C R ε α}
    (hp : p.Issues P E A) : p.Issues P' E A := by
  induction p with
  | ret a => exact hp
  | throw e => exact hp
  | exec c k ih => exact ⟨hP c hp.1, fun r => ih r (hp.2 r)⟩

/-- What the commands of a kind keep, a script that issues only these keeps. -/
theorem Issues.keeps {I : σ → Prop} (hI : ∀ c s r t, P c → I s → m c s r t → I t)
    {p : Script C R ε α} (hp : p.Issues P E A) {s s' : σ} {o : Outcome ε α}
    (hends : p.Ends m s o s') (hs : I s) : I s' := by
  induction p generalizing s with
  | ret a => exact hends.2 ▸ hs
  | throw e => exact hends.2 ▸ hs
  | exec c k ih =>
    obtain ⟨-, rfl⟩ | ⟨r, t, hm, ⟨-, rfl⟩ | hrest⟩ := hends
    · exact hs
    · exact hI c s r _ hp.1 hs hm
    · exact ih r (hp.2 r) hrest (hI c s r t hp.1 hs hm)

/-- The same before the run: what its commands keep holds wherever the script is left. -/
theorem issues_wp {P' : C → Prop} {E' : ε → Prop} {A' : α → Prop} {I : σ → Prop}
    (hI : ∀ c s r t, P' c → I s → m c s r t → I t) {p : Script C R ε α} (h : p.Issues P E A)
    (h' : p.Issues P' E' A') {s : σ} (hs : I s) :
    p.wp m ⟨fun a t => (A a ∧ A' a) ∧ I t, fun _ => I, I⟩ s := by
  induction p generalizing s with
  | ret a => exact ⟨⟨h, h'⟩, hs⟩
  | throw e => exact hs
  | exec c k ih =>
    refine ⟨hs, fun r t hm => ?_⟩
    have ht := hI c s r t h'.1 hs hm
    exact ⟨ht, ih r (h.2 r) (h'.2 r) ht⟩

/-- Where every command of a kind may be issued, so may a script that issues only these. -/
theorem Issues.wpIn (hok : ∀ c s, P c → ok c s) {p : Script C R ε α} (hp : p.Issues P E A) (s : σ) :
    p.wpIn m ok ⟨fun a _ => A a, fun e _ => E e, fun _ => True⟩ s := by
  induction p generalizing s with
  | ret a => exact hp
  | throw e => exact hp
  | exec c k ih => exact ⟨hok c s hp.1, trivial, fun r t _ => ⟨trivial, ih r (hp.2 r) t⟩⟩

theorem wpIn_each {ι : Type} {is : List ι} {f : ι → Script C R ε Unit} {Q : Post ε Unit σ}
    (h : ∀ i ∈ is, ∀ s, Q.returned () s → (f i).wpIn m ok Q s) {s : σ} (hs : Q.returned () s) :
    (each is f).wpIn m ok Q s := by
  induction is generalizing s with
  | nil => exact hs
  | cons i is ih =>
    rw [List.forall_mem_cons] at h
    exact wpIn.bind (h.1 s hs) fun _ t ht => ih h.2 ht

theorem issues_each {ι : Type} {is : List ι} {f : ι → Script C R ε Unit}
    (h : ∀ i ∈ is, (f i).Issues P E fun _ => True) : (each is f).Issues P E fun _ => True := by
  induction is with
  | nil => trivial
  | cons i is ih =>
    rw [List.forall_mem_cons] at h
    exact h.1.bind fun _ _ => ih h.2

end Script
