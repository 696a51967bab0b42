/-
# Guest operands

`operand_is_guest` and `resolve_guest_operand` of `yolobox_cli/cp.py`: three spellings are
put on different bases, made normal, and held against the roots that the spelling may
name.
-/
import Yolobox.Paths

open Posix Paths

namespace Cp

def operandIsGuest (operand : PyStr) : Bool := startswith operand (lit ":")

/-- What `resolve_guest_operand` raises. -/
inductive OperandError
  | relative (operand : PyStr)          -- and the host's cwd is outside `$HOME`
  | refused (refusal : Paths.Refusal)
  deriving DecidableEq, Repr

/-- `guest_path`, as an operand's error. -/
def targeted (path : PyStr) (roots : List PyStr) : Except OperandError PyStr :=
  (guestPath path roots).mapError .refused

def resolveGuestOperand (operand : PyStr) (cwdMirror : Option PyStr) : Except OperandError PyStr :=
  let spelling := operand.drop 1
  if spelling = lit "~" ∨ startswith spelling (lit "~/") then
    targeted (AGENT_HOME ++ spelling.drop 1) [AGENT_HOME]
  else if startswith spelling (lit "/") then targeted spelling CP_GUEST_ROOTS
  else
    match cwdMirror with
    | none => .error (.relative operand)
    | some cwd =>
      if spelling = [] then targeted cwd [AGENT_HOME]
      else targeted (cwd ++ 47 :: spelling) [AGENT_HOME]

/-- The roots that a spelling may name. -/
def rootsOf (operand : PyStr) : List PyStr :=
  if startswith operand (lit ":/") then CP_GUEST_ROOTS else [AGENT_HOME]

/-- A clean path without a newline or NUL, at or below a root. -/
structure Confined (roots : List PyStr) (path : PyStr) : Prop where
  clean : Clean path
  newline : 10 ∉ path
  nul : 0 ∉ path
  below : ∃ root ∈ roots, AtOrBelow root path

/-! ## What an operand may name -/

theorem clean_of_mem_CP_GUEST_ROOTS {root : PyStr} (h : root ∈ CP_GUEST_ROOTS) : Clean root := by
  rcases List.mem_pair.mp h with rfl | rfl
  · exact ⟨[lit "home", lit "agent"], by simp, by decide, by decide⟩
  · exact ⟨[lit "tmp"], by simp, by decide, by decide⟩

theorem guestPath_confined {path found : PyStr} {roots : List PyStr}
    (hroots : roots = [AGENT_HOME] ∨ roots = CP_GUEST_ROOTS) (h : guestPath path roots = .ok found) :
    Confined roots found := by
  have hclean : Clean found := Accepted.clean ⟨path, roots, hroots, h⟩
  unfold guestPath at h
  simp only at h
  split_ifs at h with hbytes hany
  rw [Except.ok.injEq] at h
  subst h
  rw [not_or] at hbytes
  have hkept : ∀ c, c ≠ 46 → c ≠ 47 → c ∉ path → c ∉ normpath path := by
    intro c hdot hslash hc hmem
    rcases mem_normpath hmem with h | h | h
    · exact hdot h
    · exact hslash h
    · exact hc h
  refine ⟨hclean, hkept 10 (by decide) (by decide) hbytes.2, hkept 0 (by decide) (by decide) hbytes.1, ?_⟩
  obtain ⟨root, hmem, hroot⟩ := List.any_eq_true.mp hany
  have hrootClean : Clean root := by
    refine clean_of_mem_CP_GUEST_ROOTS ?_
    rcases hroots with rfl | rfl
    · rw [List.mem_singleton.mp hmem]
      exact List.mem_cons_self ..
    · exact hmem
  rw [Bool.or_eq_true, beq_iff_eq] at hroot
  rcases hroot with heq | hstart
  · exact ⟨root, hmem, heq ▸ AtOrBelow.refl _⟩
  · exact ⟨root, hmem, (below_of_startswith hrootClean hclean.normpath_eq hstart).atOrBelow⟩

theorem targeted_confined {path found : PyStr} {roots : List PyStr}
    (hroots : roots = [AGENT_HOME] ∨ roots = CP_GUEST_ROOTS) (h : targeted path roots = .ok found) :
    Confined roots found := by
  unfold targeted at h
  cases hpath : guestPath path roots with
  | error refusal => simp [hpath, Except.mapError] at h
  | ok p =>
    simp only [hpath, Except.mapError, Except.ok.injEq] at h
    exact h ▸ guestPath_confined hroots hpath

theorem Confined.mono {roots roots' : List PyStr} {path : PyStr} (h : Confined roots path)
    (hle : roots ⊆ roots') : Confined roots' path := by
  obtain ⟨root, hmem, hbelow⟩ := h.below
  exact ⟨h.clean, h.newline, h.nul, root, hle hmem, hbelow⟩

/-- **An operand names a clean path under its roots**, whatever the host's cwd is. -/
theorem resolveGuestOperand_confined (operand : PyStr) (hguest : operandIsGuest operand = true)
    (cwdMirror : Option PyStr) :
    (∃ e, resolveGuestOperand operand cwdMirror = .error e) ∨
      ∃ path, resolveGuestOperand operand cwdMirror = .ok path ∧ Confined (rootsOf operand) path := by
  cases hres : resolveGuestOperand operand cwdMirror with
  | error e => exact .inl ⟨e, rfl⟩
  | ok path =>
    refine .inr ⟨path, rfl, ?_⟩
    obtain ⟨spelling, rfl⟩ := startswith_iff.mp hguest
    have hhome : ∀ {p}, targeted p [AGENT_HOME] = .ok path →
        Confined (rootsOf (lit ":" ++ spelling)) path := by
      intro p h
      refine (targeted_confined (.inl rfl) h).mono ?_
      unfold rootsOf
      split_ifs
      · simp [CP_GUEST_ROOTS]
      · exact List.Subset.refl _
    have hspelling : (lit ":" ++ spelling).drop 1 = spelling := rfl
    unfold resolveGuestOperand at hres
    simp only [hspelling] at hres
    by_cases htilde : spelling = lit "~" ∨ startswith spelling (lit "~/") = true
    · rw [if_pos htilde] at hres
      exact hhome hres
    rw [if_neg htilde] at hres
    by_cases hslash : startswith spelling (lit "/") = true
    · rw [if_pos hslash] at hres
      obtain ⟨rest, rfl⟩ := startswith_iff.mp hslash
      have hroots : rootsOf (lit ":" ++ (lit "/" ++ rest)) = CP_GUEST_ROOTS :=
        if_pos (startswith_append (lit ":/") rest)
      rw [hroots]
      exact targeted_confined (.inr rfl) hres
    · rw [if_neg hslash] at hres
      cases cwdMirror with
      | none => cases hres
      | some cwd =>
        simp only at hres
        split_ifs at hres
        · exact hhome hres
        · exact hhome hres

/-- A path in `/tmp`, spelled from the root. -/
theorem resolveGuestOperand_confined_tmp :
    resolveGuestOperand (lit ":///tmp/./a/../b") none = .ok (lit "/tmp/b") ∧
      ((∃ e, resolveGuestOperand (lit ":///tmp/./a/../b") none = .error e) ∨
        ∃ path, resolveGuestOperand (lit ":///tmp/./a/../b") none = .ok path ∧
          Confined (rootsOf (lit ":///tmp/./a/../b")) path) :=
  ⟨by decide, resolveGuestOperand_confined _ (by decide) none⟩

end Cp
