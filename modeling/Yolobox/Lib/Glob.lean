/-
# Wildcard patterns

A pattern of `*`, `?`, bracket expressions and a character that makes the next one
literal, over any alphabet.  What a bracket expression admits (ranges, negation, classes)
is left open, so what is proved here holds of every dialect.
-/
import Mathlib

namespace Glob

variable {α : Type}

/-- The characters that mean something in a pattern. -/
structure Syntax (α : Type) where
  backslash : α
  star : α
  question : α
  opening : α
  closing : α

/-- A character that does not stand for itself. -/
def Syntax.Special (s : Syntax α) (c : α) : Prop :=
  c = s.backslash ∨ c = s.star ∨ c = s.question ∨ c = s.opening

/-- The pattern matches the text; `admits body c` says what a bracket expression admits. -/
inductive Matches (s : Syntax α) (admits : List α → α → Prop) : List α → List α → Prop
  | nil : Matches s admits [] []
  | plain {c : α} {pattern text : List α} (hplain : ¬s.Special c) (h : Matches s admits pattern text) :
      Matches s admits (c :: pattern) (c :: text)
  | literal {c : α} {pattern text : List α} (h : Matches s admits pattern text) :
      Matches s admits (s.backslash :: c :: pattern) (c :: text)
  | star {pattern text : List α} (skipped : List α) (h : Matches s admits pattern text) :
      Matches s admits (s.star :: pattern) (skipped ++ text)
  | question {c : α} {pattern text : List α} (h : Matches s admits pattern text) :
      Matches s admits (s.question :: pattern) (c :: text)
  | bracket {c : α} {body pattern text : List α} (hadmits : admits body c)
      (h : Matches s admits pattern text) :
      Matches s admits (s.opening :: body ++ s.closing :: pattern) (c :: text)
  | unclosed {pattern text : List α} (hopen : s.closing ∉ pattern) (h : Matches s admits pattern text) :
      Matches s admits (s.opening :: pattern) (s.opening :: text)
  | trailing : Matches s admits [s.backslash] [s.backslash]

variable {s : Syntax α} {admits : List α → α → Prop} {c : α} {pattern text : List α}

/-- The wildcards are different characters. -/
structure Syntax.Apart (s : Syntax α) : Prop where
  star : s.star ≠ s.backslash
  question : s.question ≠ s.backslash
  opening : s.opening ≠ s.backslash

theorem matches_nil_iff : Matches s admits [] text ↔ text = [] := by
  constructor
  · rintro ⟨⟩
    rfl
  · rintro rfl
    exact .nil

/-- A plain character matches itself. -/
theorem matches_plain_iff (hplain : ¬s.Special c) :
    Matches s admits (c :: pattern) text ↔ ∃ rest, text = c :: rest ∧ Matches s admits pattern rest := by
  simp only [Syntax.Special, not_or] at hplain
  obtain ⟨hbackslash, hstar, hquestion, hopening⟩ := hplain
  constructor
  · intro h
    generalize hwhole : c :: pattern = whole at h
    cases h with
    | plain _ h =>
      obtain ⟨rfl, rfl⟩ := List.cons.inj hwhole
      exact ⟨_, rfl, h⟩
    | nil => cases hwhole
    | literal | trailing => exact absurd (List.cons.inj hwhole).1 hbackslash
    | star => exact absurd (List.cons.inj hwhole).1 hstar
    | question => exact absurd (List.cons.inj hwhole).1 hquestion
    | bracket | unclosed => exact absurd (List.cons.inj hwhole).1 hopening
  · rintro ⟨rest, rfl, h⟩
    exact .plain (by simp [Syntax.Special, hbackslash, hstar, hquestion, hopening]) h

/-- After the backslash any character matches itself. -/
theorem matches_literal_iff (hs : s.Apart) :
    Matches s admits (s.backslash :: c :: pattern) text ↔
      ∃ rest, text = c :: rest ∧ Matches s admits pattern rest := by
  constructor
  · intro h
    generalize hwhole : s.backslash :: c :: pattern = whole at h
    cases h with
    | literal h =>
      obtain ⟨-, hrest⟩ := List.cons.inj hwhole
      obtain ⟨rfl, rfl⟩ := List.cons.inj hrest
      exact ⟨_, rfl, h⟩
    | nil | trailing => cases hwhole
    | plain hplain _ =>
      obtain ⟨rfl, -⟩ := List.cons.inj hwhole
      exact absurd (Or.inl rfl) hplain
    | star => exact absurd (List.cons.inj hwhole).1.symm hs.star
    | question => exact absurd (List.cons.inj hwhole).1.symm hs.question
    | bracket | unclosed => exact absurd (List.cons.inj hwhole).1.symm hs.opening
  · rintro ⟨rest, rfl, h⟩
    exact .literal h

/-- **Escaping.**  A text in which every special character is made literal, and others may
be, matches itself and nothing else. -/
theorem matches_escaped_iff (hs : s.Apart) (quoted : α → Bool) (hquoted : ∀ c, s.Special c → quoted c)
    (source : List α) :
    Matches s admits (source.flatMap fun c => if quoted c then [s.backslash, c] else [c]) text ↔
      text = source := by
  induction source generalizing text with
  | nil => exact matches_nil_iff
  | cons c source ih =>
    have hstep : Matches s admits
        ((c :: source).flatMap fun c => if quoted c then [s.backslash, c] else [c]) text ↔
        ∃ rest, text = c :: rest ∧
          Matches s admits (source.flatMap fun c => if quoted c then [s.backslash, c] else [c]) rest := by
      rw [List.flatMap_cons]
      split_ifs with hc
      · exact matches_literal_iff hs
      · exact matches_plain_iff fun hspecial => hc (hquoted c hspecial)
    rw [hstep]
    constructor
    · rintro ⟨rest, rfl, h⟩
      rw [ih.mp h]
    · rintro rfl
      exact ⟨source, rfl, ih.mpr rfl⟩

end Glob
