/-
# Patterns of regular expressions

Mathlib's regular expressions, with the combinators that patterns are written in
(classes, literals, `+` and `?`) and the groups of a match: each factor of a pattern takes
the longest text that leaves the factors behind it a match.
-/
import Mathlib

namespace Regex

open RegularExpression

variable {α : Type}

/-! ## Combinators -/

/-- One symbol of a class. -/
def oneOf : List α → RegularExpression α
  | [] => 0
  | a :: class' => char a + oneOf class'

/-- The symbols of a text, in their order. -/
def literal : List α → RegularExpression α
  | [] => 1
  | a :: text => char a * literal text

/-- `P+` -/
def many1 (P : RegularExpression α) : RegularExpression α := P * star P

/-- `P?` -/
def opt (P : RegularExpression α) : RegularExpression α := 1 + P

variable {P : RegularExpression α} {cs text : List α}

section Matching

variable [DecidableEq α]

@[simp] theorem oneOf_rmatch_iff : (oneOf cs).rmatch text = true ↔ ∃ c ∈ cs, text = [c] := by
  induction cs with
  | nil => simp [oneOf]
  | cons a cs ih =>
    rw [oneOf, add_rmatch_iff, char_rmatch_iff, ih, List.exists_mem_cons_iff]

@[simp] theorem literal_rmatch_iff {word : List α} : (literal word).rmatch text = true ↔ text = word := by
  induction word generalizing text with
  | nil => exact one_rmatch_iff text
  | cons a word ih =>
    rw [literal, mul_rmatch_iff]
    constructor
    · rintro ⟨_, rest, rfl, hhead, hrest⟩
      rw [(char_rmatch_iff ..).mp hhead, ih.mp hrest, List.singleton_append]
    · rintro rfl
      exact ⟨[a], word, rfl, (char_rmatch_iff ..).mpr rfl, ih.mpr rfl⟩

@[simp] theorem opt_rmatch_iff : (opt P).rmatch text = true ↔ text = [] ∨ P.rmatch text = true := by
  rw [opt, add_rmatch_iff, one_rmatch_iff]

/-- A class over and over matches the texts of its symbols. -/
@[simp] theorem star_oneOf_rmatch_iff : (star (oneOf cs)).rmatch text = true ↔ ∀ c ∈ text, c ∈ cs := by
  rw [star_rmatch_iff]
  constructor
  · rintro ⟨parts, rfl, hparts⟩ c hc
    obtain ⟨part, hpart, hc⟩ := List.mem_flatten.mp hc
    obtain ⟨a, ha, rfl⟩ := oneOf_rmatch_iff.mp (hparts part hpart).2
    rwa [List.mem_singleton.mp hc]
  · intro h
    refine ⟨text.map fun c => [c], ?_, ?_⟩
    · rw [← List.flatMap_def, List.flatMap_singleton']
    · intro part hpart
      obtain ⟨c, hc, rfl⟩ := List.mem_map.mp hpart
      exact ⟨List.cons_ne_nil c [], oneOf_rmatch_iff.mpr ⟨c, h c hc, rfl⟩⟩

/-- One symbol of a class, then any of another. -/
theorem word_rmatch_iff {first : List α} : (oneOf first * star (oneOf cs)).rmatch text = true ↔
    ∃ c rest, text = c :: rest ∧ c ∈ first ∧ ∀ d ∈ rest, d ∈ cs := by
  rw [mul_rmatch_iff]
  constructor
  · rintro ⟨head, rest, rfl, hhead, hrest⟩
    obtain ⟨c, hc, rfl⟩ := oneOf_rmatch_iff.mp hhead
    exact ⟨c, rest, rfl, hc, star_oneOf_rmatch_iff.mp hrest⟩
  · rintro ⟨c, rest, rfl, hc, hrest⟩
    exact ⟨[c], rest, rfl, oneOf_rmatch_iff.mpr ⟨c, hc, rfl⟩, star_oneOf_rmatch_iff.mpr hrest⟩

@[simp] theorem many1_oneOf_rmatch_iff : (many1 (oneOf cs)).rmatch text = true ↔
    text ≠ [] ∧ ∀ c ∈ text, c ∈ cs := by
  rw [many1, word_rmatch_iff]
  constructor
  · rintro ⟨c, rest, rfl, hc, hrest⟩
    exact ⟨List.cons_ne_nil c rest, List.forall_mem_cons.mpr ⟨hc, hrest⟩⟩
  · rintro ⟨hne, hall⟩
    obtain ⟨c, rest, rfl⟩ := List.exists_cons_of_ne_nil hne
    exact ⟨c, rest, rfl, List.forall_mem_cons.mp hall⟩

/-! ## Symbols -/

/-- The symbols that a pattern names. -/
def symbols : RegularExpression α → List α
  | .zero => []
  | .epsilon => []
  | .char a => [a]
  | .plus P Q => symbols P ++ symbols Q
  | .comp P Q => symbols P ++ symbols Q
  | .star P => symbols P

/-- A text that matches has no other symbols. -/
theorem mem_symbols (h : P.rmatch text = true) : ∀ c ∈ text, c ∈ symbols P := by
  induction P generalizing text with
  | zero => exact absurd h (by rw [zero_def, zero_rmatch]; exact Bool.false_ne_true)
  | epsilon =>
    rw [(one_rmatch_iff text).mp h]
    exact fun c hc => absurd hc List.not_mem_nil
  | char a =>
    rw [(char_rmatch_iff a text).mp h]
    exact fun c hc => hc
  | plus P Q ihP ihQ =>
    intro c hc
    rw [symbols, List.mem_append]
    rcases (add_rmatch_iff P Q text).mp h with hP | hQ
    · exact .inl (ihP hP c hc)
    · exact .inr (ihQ hQ c hc)
  | comp P Q ihP ihQ =>
    intro c hc
    obtain ⟨taken, rest, rfl, hP, hQ⟩ := (mul_rmatch_iff P Q text).mp h
    rw [symbols, List.mem_append]
    rcases List.mem_append.mp hc with hc | hc
    · exact .inl (ihP hP c hc)
    · exact .inr (ihQ hQ c hc)
  | star P ih =>
    intro c hc
    obtain ⟨parts, rfl, hparts⟩ := (star_rmatch_iff P text).mp h
    obtain ⟨part, hpart, hc⟩ := List.mem_flatten.mp hc
    exact ih (hparts part hpart).2 c hc

end Matching

/-! ## Other alphabets -/

variable {β : Type} {f : α → β}

@[simp] theorem map_oneOf : map f (oneOf cs) = oneOf (cs.map f) := by
  induction cs with
  | nil => rfl
  | cons a cs ih =>
    show char (f a) + map f (oneOf cs) = char (f a) + oneOf (cs.map f)
    rw [ih]

@[simp] theorem map_literal : map f (literal text) = literal (text.map f) := by
  induction text with
  | nil => rfl
  | cons a text ih =>
    show char (f a) * map f (literal text) = char (f a) * literal (text.map f)
    rw [ih]

@[simp] theorem map_many1 : map f (many1 P) = many1 (map f P) := rfl

/-! ## Groups -/

/-- What each factor takes of the text, each as much as the factors behind it allow. -/
def captures : List (List α → Bool) → List α → Option (List (List α))
  | [], text => if text = [] then some [] else none
  | takes :: rest, text =>
    text.inits.reverse.findSome? fun taken =>
      if takes taken then (captures rest (text.drop taken.length)).map (taken :: ·) else none

variable {takes : List (List α → Bool)} {parts : List (List α)}

/-- What the factors take makes up the text. -/
theorem captures_sound (h : captures takes text = some parts) :
    parts.flatten = text ∧ List.Forall₂ (fun take part => take part = true) takes parts := by
  induction takes generalizing text parts with
  | nil =>
    unfold captures at h
    split_ifs at h with hnil
    obtain rfl := Option.some.inj h
    exact ⟨hnil.symm, .nil⟩
  | cons take takes ih =>
    obtain ⟨taken, hmem, htaken⟩ := List.exists_of_findSome?_eq_some h
    obtain ⟨rest, rfl⟩ := (List.mem_inits _ _).mp (List.mem_reverse.mp hmem)
    rw [List.drop_left] at htaken
    split_ifs at htaken with htake
    obtain ⟨more, hmore, rfl⟩ := Option.map_eq_some_iff.mp htaken
    obtain ⟨hflat, hall⟩ := ih hmore
    exact ⟨by rw [List.flatten_cons, hflat], .cons htake hall⟩

/-- Where the text is made up of what the factors take, there is a match. -/
theorem exists_captures (h : List.Forall₂ (fun take part => take part = true) takes parts) :
    ∃ found, captures takes parts.flatten = some found := by
  induction h with
  | nil => exact ⟨[], rfl⟩
  | @cons take part takes parts htake hall ih =>
    rw [← Option.isSome_iff_exists, captures, List.findSome?_isSome_iff]
    obtain ⟨found, hfound⟩ := ih
    refine ⟨part, ?_, ?_⟩
    · rw [List.mem_reverse, List.mem_inits]
      exact List.prefix_append part parts.flatten
    · rw [if_pos htake, List.flatten_cons, List.drop_left, hfound]
      rfl

variable [DecidableEq α]

/-- `re.fullmatch`: the factors of the pattern and the text, the groups among them. -/
def fullmatch (pattern : List (RegularExpression α)) (text : List α) : Option (List (List α)) :=
  captures (pattern.map RegularExpression.rmatch) text

/-- `re.fullmatch` of a pattern under `re.IGNORECASE`. -/
def fullmatchIgnoringCase (lower : α → α) (pattern : List (RegularExpression α)) (text : List α) :
    Option (List (List α)) :=
  captures (pattern.map fun P part => (P.map lower).rmatch (part.map lower)) text

variable {pattern : List (RegularExpression α)} {lower : α → α}

theorem fullmatch_sound (h : fullmatch pattern text = some parts) :
    parts.flatten = text ∧ List.Forall₂ (fun P part => rmatch P part = true) pattern parts := by
  obtain ⟨hflat, hall⟩ := captures_sound h
  exact ⟨hflat, List.forall₂_map_left_iff.mp hall⟩

theorem fullmatchIgnoringCase_sound (h : fullmatchIgnoringCase lower pattern text = some parts) :
    parts.flatten = text ∧
      List.Forall₂ (fun P part => (map lower P).rmatch (part.map lower) = true) pattern parts := by
  obtain ⟨hflat, hall⟩ := captures_sound h
  exact ⟨hflat, List.forall₂_map_left_iff.mp hall⟩

theorem exists_fullmatchIgnoringCase
    (h : List.Forall₂ (fun P part => (map lower P).rmatch (part.map lower) = true) pattern parts) :
    ∃ found, fullmatchIgnoringCase lower pattern parts.flatten = some found :=
  exists_captures (List.forall₂_map_left_iff.mpr h)

end Regex
