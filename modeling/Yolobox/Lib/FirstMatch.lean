/-
# Ordered rules, the first match deciding

A rule decides some inputs and passes the others on; a list of rules with a
policy decides every input by the first rule that does.  This is how a packet
filter reads a chain and how a port mapper reads its rules.
-/
import Mathlib

namespace FirstMatch

variable {I V : Type*}

/-- What a rule decides on an input; `none` passes it on to the next rule. -/
abbrev Rule (I V : Type*) := I → Option V

/-- The rule that decides `v` on the inputs `p` covers. -/
def rule (p : I → Bool) (v : V) : Rule I V := fun i => if p i then some v else none

/-- The rule that only takes note of an input. -/
def note : Rule I V := fun _ => none

/-- What the first deciding rule says, or the policy. -/
def verdict (rules : List (Rule I V)) (policy : V) (i : I) : V :=
  (rules.findSome? fun r => r i).getD policy

variable {rules a b : List (Rule I V)} {policy v : V} {i : I}

@[simp] theorem verdict_nil : verdict [] policy i = policy := rfl

theorem verdict_cons (r : Rule I V) :
    verdict (r :: rules) policy i = (r i).getD (verdict rules policy i) := by
  unfold verdict
  rw [List.findSome?_cons]
  cases r i <;> rfl

@[simp] theorem verdict_rule (p : I → Bool) :
    verdict (rule p v :: rules) policy i = if p i then v else verdict rules policy i := by
  rw [verdict_cons, rule]
  split_ifs <;> rfl

@[simp] theorem verdict_note : verdict (note :: rules) policy i = verdict rules policy i := by
  rw [verdict_cons]
  rfl

/-- The rules of a second list are the policy of the first. -/
theorem verdict_append : verdict (a ++ b) policy i = verdict a (verdict b policy i) i := by
  induction a with
  | nil => rfl
  | cons r a ih => rw [List.cons_append, verdict_cons, verdict_cons, ih]

/-- Rules that pass an input on may be left out. -/
theorem verdict_filter {R : Type*} (f : R → Rule I V) (keep : R → Bool) {rs : List R}
    (h : ∀ r ∈ rs, keep r = false → f r i = none) :
    verdict ((rs.filter keep).map f) policy i = verdict (rs.map f) policy i := by
  induction rs with
  | nil => rfl
  | cons r rs ih =>
    have ih' := ih fun q hq => h q (List.mem_cons_of_mem r hq)
    rw [List.map_cons, verdict_cons, List.filter_cons]
    split_ifs with hk
    · rw [List.map_cons, verdict_cons, ih']
    · rw [ih', h r (List.mem_cons_self ..) (by simpa using hk), Option.getD_none]

/-- Rules that all say the same decide the inputs that one of them covers. -/
theorem verdict_uniform {R : Type*} {f : R → Rule I V} {covers : R → Bool} {rs : List R}
    (h : ∀ r, f r i = if covers r then some v else none) :
    verdict (rs.map f) policy i = if rs.any covers then v else policy := by
  induction rs with
  | nil => rfl
  | cons r rs ih =>
    rw [List.map_cons, verdict_cons, ih, h, List.any_cons]
    cases covers r <;> simp

/-- **First match.**  A property `P` of verdicts, which the policy has, holds of the
verdict on an input exactly when each rule that decides the input against `P`
stands after one that decides it with `P`. -/
theorem verdict_iff {R : Type*} {f : R → Rule I V} {rs : List R} {P : V → Prop} (hp : P policy) :
    P (verdict (rs.map f) policy i) ↔
      ∀ pre r post, rs = pre ++ r :: post → ∀ v, f r i = some v → ¬ P v →
        ∃ q ∈ pre, ∃ w, f q i = some w ∧ P w := by
  induction rs with
  | nil => simp [hp]
  | cons r rs ih =>
    rw [List.map_cons, verdict_cons]
    constructor
    · rintro h (_ | ⟨q, pre⟩) r' post hsplit v hv hbad
      · rw [List.nil_append, List.cons.injEq] at hsplit
        obtain ⟨rfl, rfl⟩ := hsplit
        rw [hv, Option.getD_some] at h
        exact absurd h hbad
      · rw [List.cons_append, List.cons.injEq] at hsplit
        obtain ⟨rfl, rfl⟩ := hsplit
        cases hr : f r i with
        | some w =>
          rw [hr, Option.getD_some] at h
          exact ⟨r, List.mem_cons_self .., w, hr, h⟩
        | none =>
          rw [hr, Option.getD_none] at h
          obtain ⟨q, hq, hw⟩ := ih.mp h pre r' post rfl v hv hbad
          exact ⟨q, List.mem_cons_of_mem r hq, hw⟩
    · intro h
      cases hr : f r i with
      | some w =>
        rw [Option.getD_some]
        by_contra hbad
        obtain ⟨q, hq, -⟩ := h [] r rs rfl w hr hbad
        exact absurd hq List.not_mem_nil
      | none =>
        rw [Option.getD_none, ih]
        rintro pre r' post rfl v hv hbad
        obtain ⟨q, hq, w, hw, hgood⟩ := h (r :: pre) r' post rfl v hv hbad
        rcases List.mem_cons.mp hq with rfl | hq
        · rw [hr] at hw
          exact absurd hw (by simp)
        · exact ⟨q, hq, w, hw, hgood⟩

end FirstMatch
