/-
# Guest paths that a command may use

`guest_path` of `yolobox_cli/paths.py`.
-/
import Yolobox.Posix

open Posix

namespace Paths

def AGENT_HOME : PyStr := lit "/home/agent"

def CP_GUEST_ROOTS : List PyStr := [AGENT_HOME, lit "/tmp"]

/-- What `guest_path` raises. -/
inductive Refusal
  | newlineOrNul
  | leavesHome (path : PyStr)
  | outside (path : PyStr) (roots : List PyStr)
  deriving DecidableEq, Repr

/-- `guest_path`. -/
def guestPath (path : PyStr) (roots : List PyStr) : Except Refusal PyStr :=
  if 0 ∈ path ∨ 10 ∈ path then .error .newlineOrNul
  else
    let normalised := normpath path
    if roots.any (fun root => normalised == root || startswith normalised (root ++ [47])) then
      .ok normalised
    else if roots = [AGENT_HOME] then .error (.leavesHome path)
    else .error (.outside path roots)

/-- A path that some command's roots let through. -/
def Accepted (source : PyStr) : Prop :=
  ∃ path roots, (roots = [AGENT_HOME] ∨ roots = CP_GUEST_ROOTS) ∧
    guestPath path roots = .ok source

/-- **What `guest_path` accepts is clean.** -/
theorem Accepted.clean {source : PyStr} (h : Accepted source) :
    ∃ ns, ns ≠ [] ∧ (∀ n ∈ ns, IsName n) ∧ source = ofNames ns := by
  obtain ⟨path, roots, hroots, h⟩ := h
  unfold guestPath at h
  simp only at h
  split_ifs at h with hbytes hany
  rw [Except.ok.injEq] at h
  have hstart : ∃ c rest, c ≠ 47 ∧ normpath path = 47 :: c :: rest := by
    obtain ⟨root, hmem, hroot⟩ := List.any_eq_true.mp hany
    have hshape : ∃ c rest, c ≠ 47 ∧ root = 47 :: c :: rest := by
      rcases hroots with rfl | rfl
      · rw [List.mem_singleton.mp hmem]
        exact ⟨_, _, by decide, rfl⟩
      · rcases List.mem_pair.mp hmem with rfl | rfl
        · exact ⟨_, _, by decide, rfl⟩
        · exact ⟨_, _, by decide, rfl⟩
    obtain ⟨c, rest, hc, rfl⟩ := hshape
    rw [Bool.or_eq_true, beq_iff_eq, startswith_iff] at hroot
    rcases hroot with hroot | ⟨more, hmore⟩
    · exact ⟨c, rest, hc, hroot⟩
    · exact ⟨c, _, hc, hmore⟩
  obtain ⟨c, rest, hc, htext⟩ := hstart
  rw [← h]
  exact clean_of_normpath hc htext

end Paths
