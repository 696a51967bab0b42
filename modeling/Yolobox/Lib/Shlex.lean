/-
# Quoting words for a shell

`quote` and `join` are Python's `shlex.quote` and `shlex.join`, and `words` reads a
command line as a POSIX shell does: blanks part words, single quotes keep everything,
double quotes everything but a few characters.  It reads only what means the same
everywhere (`none` for the rest), which is all that `join` writes (`words_join`).

Texts are lists of codes; every character with a meaning is ASCII, so they may be code
points or bytes.
-/
import Mathlib

namespace Shlex

/-! ## Writing -/

/-- An ASCII letter or digit, or one of `_@%+=:,.`, a slash or a hyphen. -/
def isSafe (c : ℕ) : Bool :=
  (48 ≤ c && c ≤ 57) || (65 ≤ c && c ≤ 90) || (97 ≤ c && c ≤ 122) ||
    c ∈ [95, 64, 37, 43, 61, 58, 44, 46, 47, 45]

/-- A single quote inside single quotes: close, quote it, open again. -/
def escapeQuote (c : ℕ) : List ℕ := if c = 39 then [39, 34, 39, 34, 39] else [c]

def quote (text : List ℕ) : List ℕ :=
  if text = [] then [39, 39]
  else if text.all isSafe then text
  else 39 :: (text.flatMap escapeQuote ++ [39])

def join (args : List (List ℕ)) : List ℕ := [32].intercalate (args.map quote)

/-- A safe text needs no quotes. -/
theorem quote_eq_self {text : List ℕ} (hne : text ≠ []) (h : ∀ c ∈ text, isSafe c = true) :
    quote text = text := by
  rw [quote, if_neg hne, if_pos (List.all_eq_true.mpr h)]

theorem join_append {args args' : List (List ℕ)} (hargs : args ≠ []) (hargs' : args' ≠ []) :
    join (args ++ args') = join args ++ 32 :: join args' := by
  induction args with
  | nil => exact absurd rfl hargs
  | cons arg args ih =>
    have hcons : ∀ {rest : List (List ℕ)}, rest ≠ [] → join (arg :: rest) = quote arg ++ 32 :: join rest := by
      intro rest hrest
      rw [join, List.map_cons, List.intercalate_cons_of_ne_nil (by simpa using hrest), List.append_assoc]
      rfl
    rw [List.cons_append]
    by_cases hnil : args = []
    · subst hnil
      rw [List.nil_append, hcons hargs', join, join, List.map_singleton, List.intercalate_singleton]
    · rw [hcons (by simp [hnil]), ih hnil, hcons hnil, List.append_assoc, List.cons_append]

/-! ## Reading -/

inductive Quotes
  | none
  | single
  | double
  deriving DecidableEq

/-- Read on; `word` is what is there of a word that has begun. -/
def scan : Quotes → Option (List ℕ) → List ℕ → Option (List (List ℕ))
  | .none, word, [] => some word.toList
  | .single, _, [] | .double, _, [] => none
  | .none, word, c :: rest =>
    if c = 32 then (scan .none none rest).map (word.toList ++ ·)
    else if c = 39 then scan .single (some (word.getD [])) rest
    else if c = 34 then scan .double (some (word.getD [])) rest
    else if isSafe c then scan .none (some (word.getD [] ++ [c])) rest
    else none
  | .single, word, c :: rest =>
    if c = 39 then scan .none word rest else scan .single (some (word.getD [] ++ [c])) rest
  | .double, word, c :: rest =>
    if c = 34 then scan .none word rest
    else if c ∈ [36, 96, 92, 33] then none
    else scan .double (some (word.getD [] ++ [c])) rest

/-- The words of a command line. -/
def words (line : List ℕ) : Option (List (List ℕ)) := scan .none none line

/-! ## The round trip -/

theorem scan_safe {text : List ℕ} (h : ∀ c ∈ text, isSafe c = true) (word rest : List ℕ) :
    scan .none (some word) (text ++ rest) = scan .none (some (word ++ text)) rest := by
  induction text generalizing word with
  | nil => simp
  | cons c text ih =>
    rw [List.forall_mem_cons] at h
    have hne : c ≠ 32 ∧ c ≠ 39 ∧ c ≠ 34 := by
      refine ⟨?_, ?_, ?_⟩ <;> rintro rfl <;> exact absurd h.1 (by decide)
    rw [List.cons_append, scan, if_neg hne.1, if_neg hne.2.1, if_neg hne.2.2, if_pos h.1,
      Option.getD_some, ih h.2, List.append_assoc, List.singleton_append]

/-- A safe text begins a word. -/
theorem scan_safe_start {text : List ℕ} (hne : text ≠ []) (h : ∀ c ∈ text, isSafe c = true)
    (rest : List ℕ) : scan .none none (text ++ rest) = scan .none (some text) rest := by
  obtain ⟨c, text, rfl⟩ := List.exists_cons_of_ne_nil hne
  rw [List.forall_mem_cons] at h
  have hneq : c ≠ 32 ∧ c ≠ 39 ∧ c ≠ 34 := by
    refine ⟨?_, ?_, ?_⟩ <;> rintro rfl <;> exact absurd h.1 (by decide)
  rw [List.cons_append, scan, if_neg hneq.1, if_neg hneq.2.1, if_neg hneq.2.2, if_pos h.1,
    Option.getD_none, List.nil_append, scan_safe h.2, List.singleton_append]

/-- Between single quotes every text stands for itself, its own quotes escaped. -/
theorem scan_escaped (text word rest : List ℕ) :
    scan .single (some word) (text.flatMap escapeQuote ++ rest)
      = scan .single (some (word ++ text)) rest := by
  induction text generalizing word with
  | nil => simp
  | cons c text ih =>
    rw [List.flatMap_cons, List.append_assoc]
    by_cases hc : c = 39
    · subst hc
      show scan .single (some word) (39 :: 34 :: 39 :: 34 :: 39 :: (text.flatMap escapeQuote ++ rest)) = _
      simp only [scan, if_true, Option.getD_some]
      show scan .single (some (word ++ [39])) (text.flatMap escapeQuote ++ rest) = _
      rw [ih, List.append_assoc, List.singleton_append]
    · have hescape : escapeQuote c = [c] := if_neg hc
      rw [hescape, List.singleton_append, scan, if_neg hc, Option.getD_some, ih, List.append_assoc,
        List.singleton_append]

/-- **A quoted text is read as one word.** -/
theorem scan_quote (text rest : List ℕ) :
    scan .none none (quote text ++ rest) = scan .none (some text) rest := by
  unfold quote
  split_ifs with hnil hsafe
  · subst hnil
    rfl
  · exact scan_safe_start hnil (List.all_eq_true.mp hsafe) rest
  · show scan .single (some []) (text.flatMap escapeQuote ++ [39] ++ rest) = _
    rw [List.append_assoc, scan_escaped, List.nil_append]
    rfl

/-- **What is joined is read back**, word by word. -/
theorem words_join (args : List (List ℕ)) : words (join args) = some args := by
  induction args with
  | nil => rfl
  | cons arg args ih =>
    cases args with
    | nil =>
      have hquote := scan_quote arg []
      rw [List.append_nil] at hquote
      rw [words, join, List.map_singleton, List.intercalate_singleton, hquote]
      rfl
    | cons arg' args =>
      have hjoin : join (arg :: arg' :: args) = quote arg ++ 32 :: join (arg' :: args) := by
        rw [join, List.map_cons, List.map_cons, List.intercalate_cons_cons, List.append_assoc,
          List.singleton_append]
        rfl
      rw [words] at ih
      rw [words, hjoin, scan_quote, scan, if_pos rfl, ih]
      rfl

end Shlex
