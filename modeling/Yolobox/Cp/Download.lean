/-
# A download from one end to the other

`download_from_guest` of `yolobox_cli/cp.py`: a fetch into an empty staging directory, the
control paths dropped from it, the plan over every staged name, the renames, and the
staging directory removed.  What `find` prints and what `scp` leaves under a name it was
asked for are anything at all, symlinks included; `escaped` remembers an operation that a
symlink may have led out of the staging directory.
-/
import Yolobox.Cp.ControlDropped
import Yolobox.Cp.MergeOverlay
import Yolobox.Cp.FetchSafe

open Script FileTree Posix

namespace Cp

/-! ## The fetch, on the staging directory -/

/-- Where a path of the host lies in the staging directory. -/
def within (staging loc : PyStr) : Option Path :=
  if loc = staging then some []
  else if startswith loc (staging ++ [47]) then some (names (loc.drop staging.length))
  else none

/-- A symlink on the way to a path, at it, or below it. -/
def LinkNear (t : Option Tree) (p : Path) : Prop := ∃ q, (q <+: p ∨ p <+: q) ∧ isLink t q = true

variable (vmHost : PyStr) (admits : List ℕ → ℕ → Prop)

/-- A name under which scp places what an operand matches. -/
def Places (operand n : PyStr) : Prop :=
  ∃ pattern path, operand = vmHost ++ 58 :: pattern ∧ Glob.Matches scpGlob admits pattern path ∧
    n = basename path

/-- No two operands are placed under one name. -/
def PlacedApart (operands : List PyStr) : Prop :=
  operands.Pairwise fun o o' => ∀ n, Places vmHost admits o n → ¬ Places vmHost admits o' n

/-- What `scp -r` may leave, done or cut off, when its destination is a directory.  It writes
through a symlink that it meets, or that it made itself under the name of another operand. -/
structure Copied (operands : List PyStr) (p : Path) (st st' : Staging) : Prop where
  frame : ∀ q, (∀ o ∈ operands, ∀ n, Places vmHost admits o n → ¬ p ++ [n] <+: q) →
    nodeAt st'.tree q = nodeAt st.tree q
  escaped : st'.escaped = true → st.escaped = true ∨ ¬ PlacedApart vmHost admits operands ∨
    ∃ o ∈ operands, ∃ n, Places vmHost admits o n ∧ LinkNear st.tree (p ++ [n])

/-- What `os.makedirs(exist_ok=True)` may leave, done or not. -/
structure Made (p : Path) (done : Bool) (st st' : Staging) : Prop where
  frame : ∀ q, nodeAt st'.tree q ≠ nodeAt st.tree q →
    q <+: p ∧ nodeAt st.tree q = none ∧ IsDir (nodeAt st'.tree q)
  escaped : st'.escaped = (st.reach true p).escaped
  made : done = true → st'.escaped = true ∨ IsDir (nodeAt st'.tree p)

/-- What the commands of a fetch do to the staging directory.  Nothing is known of a command
whose path is not in it. -/
def fetching (staging : PyStr) : Machine Answer Staging
  | .find _ _, st, _, st' => st' = st
  | .err _, st, _, st' => st' = st
  | .makedirs loc _, st, r, st' => ∀ p, within staging loc = some p → Made p r.isSome st st'
  | .utime loc _, st, _, st' => ∀ p, within staging loc = some p → st' = st.reach true p
  | .scp operands loc, st, _, st' =>
    ∀ p, within staging loc = some p → IsDir (nodeAt st.tree p) → Copied vmHost admits operands p st st'

/-- What `mkdtemp` makes. -/
def emptyStaging : Staging := ⟨some (dir 448 [] fun _ => leaf .other), false⟩

/-! ## Where a download lands -/

/-- An existing directory, or another name with what is there. -/
inductive Dest
  | directory (mode : ℕ) (names : List PyStr) (child : PyStr → Tree)
  | named (target : Option Tree)

def Dest.tree : Dest → Option Tree
  | .directory mode names child => some (dir mode names child)
  | .named target => target

inductive DestRefusal
  | notDirectory
  | neededBy (sources : ℕ)
  deriving DecidableEq, Repr

/-- The refusals of `download_from_guest`: `found` is what is at the destination, behind the
symlinks that the operator named. -/
def destOf (dest : PyStr) (found : Option Tree) (sources : List PyStr) : Except DestRefusal Dest :=
  match found with
  | some (dir mode names child) => .ok (.directory mode names child)
  | target =>
    if dest.getLast? = some 47 then .error .notDirectory
    else if 1 < sources.length then .error (.neededBy sources.length)
    else .ok (.named target)

/-- The loop over the staged names.  A path is relative to the staging directory on one side
and to the destination on the other. -/
def planInto : Tree → Dest → Except MergeRefusal (List (Path × Path))
  | leaf _, _ => .ok []
  | dir _ names child, .directory mode names' child' =>
    (sorted names.dedup).foldlM (fun moves name =>
      planMerge (child name) (entry name (dir mode names' child')) [name] moves) []
  | dir _ names child, .named target =>
    (sorted names.dedup).foldlM (fun moves name =>
      (planMerge (child name) target [] []).map fun new =>
        moves ++ new.map fun move => (name :: move.1, move.2)) []

/-- How a download that was fetched ends. -/
structure Placed where
  merged : Merged
  staging : Staging
  target : Option Tree

/-- What the renames leave. -/
def placedOf (escaped : Bool) : Option (RenameFailure × ℕ) × Host → Placed
  | (some (failure, landed), host) => ⟨.failed failure landed, ⟨host.1, escaped⟩, host.2⟩
  | (none, host) => ⟨.landed, ⟨host.1, escaped⟩, host.2⟩

/-- `plan_merge` over the staged names, then `land_staged`. -/
def landInto (escaped : Bool) (staged : Tree) (dest : Dest) : Placed :=
  match planInto staged dest with
  | .error refusal => ⟨.refused refusal, ⟨some staged, escaped⟩, dest.tree⟩
  | .ok moves => placedOf escaped (landStaged (some staged, dest.tree) 0 moves)

/-- What follows the fetch; `none` is an `OSError` of `drop_control_paths`. -/
def place (casefold : PyStr → PyStr) (st : Staging) (dest : Dest) : Option Placed :=
  st.tree.bind fun fetched =>
    (dropControlPaths casefold fetched).bind fun dropped =>
      dropped.1.tree.map fun staged => landInto (st.escaped || dropped.1.escaped) staged dest

/-- `remove_staging`; `none` is its `OSError`. -/
def removeStaging (st : Staging) : Option Staging :=
  st.tree.bind fun staged => removeTree staged.height [] st

end Cp
