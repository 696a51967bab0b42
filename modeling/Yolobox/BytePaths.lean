/-
# Clean paths as bytes

A file name is any bytes but a slash and NUL, so the path of a file is bytes too, and
Python sees its decoding.  The decoding of a clean path is clean, name by name.
-/
import Yolobox.Lib.Utf8
import Yolobox.Posix

open Utf8 Posix

namespace BytePaths

/-- The slash. -/
def slash : Byte := Fin.ofNat 256 47

/-- A file name that stands for itself. -/
structure IsFileName (n : List Byte) : Prop where
  ne_nil : n ≠ []
  ne_dot : n ≠ ascii (lit ".")
  ne_dots : n ≠ ascii (lit "..")
  slash : slash ∉ n
  nul : 0 ∉ n

/-- The bytes of a list of names, a slash before each. -/
def spell (names : List (List Byte)) : List Byte := names.flatMap fun n => slash :: n

@[simp] theorem spell_nil : spell [] = [] := rfl

@[simp] theorem spell_cons (n : List Byte) (ns : List (List Byte)) :
    spell (n :: ns) = slash :: (n ++ spell ns) := rfl

@[simp] theorem spell_append (ns ms : List (List Byte)) : spell (ns ++ ms) = spell ns ++ spell ms :=
  List.flatMap_append

/-- A clean absolute path other than the root. -/
def CleanBytes (path : List Byte) : Prop :=
  ∃ ns, ns ≠ [] ∧ (∀ n ∈ ns, IsFileName n) ∧ path = spell ns

theorem IsFileName.decode {n : List Byte} (h : IsFileName n) : IsName (decode n) := by
  refine ⟨?_, ?_, ?_, ?_⟩
  · intro hnil
    exact h.ne_nil (decode_injective hnil)
  · intro hdot
    refine h.ne_dot (decode_injective ?_)
    rw [decode_ascii (by decide), hdot]
  · intro hdots
    refine h.ne_dots (decode_injective ?_)
    rw [decode_ascii (by decide), hdots]
  · rw [ascii_mem_decode (by decide)]
    exact h.slash

theorem forall_isName_decode {ns : List (List Byte)} (h : ∀ n ∈ ns, IsFileName n) :
    ∀ n ∈ ns.map decode, IsName n := by
  rw [List.forall_mem_map]
  exact fun n hn => (h n hn).decode

/-- **Decoding, name by name.** -/
theorem decode_append_spell (start : List Byte) (ns : List (List Byte)) :
    decode (start ++ spell ns) = decode start ++ ofNames (ns.map decode) := by
  induction ns generalizing start with
  | nil => simp
  | cons n ns ih =>
    have hcut : start ++ spell (n :: ns) = start ++ Fin.ofNat 256 47 :: (n ++ spell ns) := rfl
    rw [hcut, decode_append_ascii (by decide), ih, List.map_cons, ofNames_cons]

theorem decode_spell (ns : List (List Byte)) : decode (spell ns) = ofNames (ns.map decode) :=
  decode_append_spell [] ns

theorem CleanBytes.decode {path : List Byte} (h : CleanBytes path) : Clean (decode path) := by
  obtain ⟨ns, hne, hns, rfl⟩ := h
  exact ⟨ns.map Utf8.decode, by simpa using hne, forall_isName_decode hns, decode_spell ns⟩

end BytePaths
