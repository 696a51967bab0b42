/-
# Planning a merge and landing it

`plan_merge` and `land_staged` of `yolobox_cli/cp.py`.  The plan is made from the staged
tree and what is at the destination before anything moves; landing it is one rename
after another.  Both trees are walked by the same names, so a path is relative to the
staging directory on one side and to the destination on the other.
-/
import Yolobox.Cp.Listing
import Yolobox.Lib.FileTree

open FileTree

namespace Cp

/-! ## Trees on the host -/

/-- Anything but a directory. -/
inductive Leaf
  | file (content : List ℕ)
  | link (target : PyStr)
  | other
  deriving DecidableEq, Repr

/-- A tree on the host; a directory has its mode. -/
abbrev Tree := FileTree PyStr Leaf ℕ

abbrev Path := List PyStr

/-! ## The plan -/

/-- What `plan_merge` raises. -/
inductive MergeRefusal
  | overSymlink (target : Path) (linkTarget : PyStr)
  | directoryOnOneSide (target : Path)
  deriving DecidableEq, Repr

/-- `plan_merge`, with the list it appends to: `here` is the path on both sides. -/
def planMerge : Tree → Option Tree → Path → List (Path × Path) →
    Except MergeRefusal (List (Path × Path))
  | _, none, here, moves => .ok (moves ++ [(here, here)])
  | _, some (leaf (.link target)), here, _ => .error (.overSymlink here target)
  | dir _ names child, some (dir a names' child'), here, moves =>
    (sorted names.dedup).foldlM (fun moves name =>
      planMerge (child name) (entry name (dir a names' child')) (here ++ [name]) moves) moves
  | dir _ _ _, some (leaf _), here, _ => .error (.directoryOnOneSide here)
  | leaf _, some (dir _ _ _), here, _ => .error (.directoryOnOneSide here)
  | leaf _, some (leaf _), here, moves => .ok (moves ++ [(here, here)])

/-! ## Landing -/

/-- Why `os.replace` fails, or where it would have gone. -/
inductive RenameFailure
  | missing                      -- no source, or no directory to place it in
  | conflict                     -- a directory on one side, or one that is not empty
  | throughLink (link : Path)    -- the target's path leads through a symlink
  deriving DecidableEq, Repr

/-- The first symlink on the way to a path. -/
def linkAbove (t : Option Tree) (p : Path) : Option Path :=
  ((List.range p.length).map p.take).find? fun q =>
    match nodeAt t q with
    | some (.leaf (.link _)) => true
    | _ => false

/-- No symlink stands where directories lead. -/
theorem linkAbove_of_leads {t : Option Tree} {p : Path} (h : Leads t p) : linkAbove t p = none := by
  rw [linkAbove, List.find?_eq_none]
  intro q hq
  obtain ⟨k, hk, rfl⟩ := List.mem_map.mp hq
  rw [List.mem_range] at hk
  obtain ⟨a, ha⟩ := h (p.take k) (p.drop k) (List.take_append_drop k p).symm
    (by simp; omega)
  simp [ha]

/-- A rename may put an entry over another: a file over a file, a directory over an
empty one. -/
def replaces (new : Tree) : Option Tree → Bool
  | none => true
  | some (leaf _) => match new with
    | leaf _ => true
    | dir _ _ _ => false
  | some (dir _ names _) => match new with
    | leaf _ => false
    | dir _ _ _ => names.isEmpty

/-- A directory is what a path's last name is in; nothing is above the root. -/
def placed (t : Option Tree) : Path → Bool
  | [] => true
  | n :: p =>
    match nodeAt t (n :: p).dropLast with
    | some (.dir _) => true
    | _ => false

/-- The staging directory and the destination. -/
abbrev Host := Option Tree × Option Tree

/-- `os.replace(staged, target)`. -/
def replace (host : Host) (move : Path × Path) : Except RenameFailure Host :=
  match get move.1 host.1 with
  | none => .error .missing
  | some new =>
    match linkAbove host.2 move.2 with
    | some link => .error (.throughLink link)
    | none =>
      if !placed host.2 move.2 then .error .missing
      else if !replaces new (get move.2 host.2) then .error .conflict
      else .ok (alter (fun _ => none) move.1 host.1, alter (fun _ => some new) move.2 host.2)

/-- `land_staged`: the failure that ended it, with the number of entries landed before. -/
def landStaged (host : Host) : ℕ → List (Path × Path) → Option (RenameFailure × ℕ) × Host
  | _, [] => (none, host)
  | landed, move :: moves =>
    match replace host move with
    | .error failure => (some (failure, landed), host)
    | .ok host => landStaged host (landed + 1) moves

/-- How planning and landing end. -/
inductive Merged
  | refused (refusal : MergeRefusal)
  | failed (failure : RenameFailure) (landed : ℕ)
  | landed
  deriving DecidableEq, Repr

/-- Planning, then landing, of one staged tree; with what the destination then holds. -/
def merge (staged : Tree) (target : Option Tree) : Merged × Option Tree :=
  match planMerge staged target [] [] with
  | .error refusal => (.refused refusal, target)
  | .ok moves =>
    match landStaged (some staged, target) 0 moves with
    | (some (failure, landed), host) => (.failed failure landed, host.2)
    | (none, host) => (.landed, host.2)

end Cp
