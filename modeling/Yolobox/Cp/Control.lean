/-
# Control paths

`unlock_tree`, `remove_tree` and `drop_control_paths` of `yolobox_cli/cp.py`, on the
staging directory.  An operation on a path goes wrong when there is a symlink on the way,
or at the path itself if the call follows one: it would reach a file of the host, and
`escaped` remembers that it did.
-/
import Yolobox.Cp.Merge

open FileTree

namespace Cp

/-- The staging directory, and whether a symlink was ever followed. -/
structure Staging where
  tree : Option Tree
  escaped : Bool

def LANDING_CONTROL_NAMES : List PyStr :=
  [lit ".git", lit ".hg", lit ".svn", lit ".envrc", lit ".vscode", lit ".idea"]

def isLink (t : Option Tree) (p : Path) : Bool :=
  match nodeAt t p with
  | some (.leaf (.link _)) => true
  | _ => false

/-- A real directory: `is_dir(follow_symlinks=False)`. -/
def isRealDir (t : Option Tree) (p : Path) : Bool :=
  match nodeAt t p with
  | some (.dir _) => true
  | _ => false

/-- Reach a path, by a call that does or does not follow a symlink there. -/
def Staging.reach (st : Staging) (follows : Bool) (p : Path) : Staging :=
  { st with escaped := st.escaped || (linkAbove st.tree p).isSome || (follows && isLink st.tree p) }

/-- `os.chmod`, which follows a symlink. -/
def Staging.chmod (st : Staging) (p : Path) (mode : ℕ) : Staging :=
  { st.reach true p with
    tree := alter (fun t => t.map fun t =>
      match t with
      | leaf a => leaf a
      | dir _ names child => dir mode names child) p st.tree }

/-- Taking a name away: `os.unlink`, or the end of `shutil.rmtree`. -/
def Staging.remove (st : Staging) (p : Path) : Staging :=
  { st.reach false p with tree := alter (fun _ => none) p st.tree }

/-- The names `os.scandir` yields, which follows a symlink at the path. -/
def Staging.names (st : Staging) (p : Path) : List PyStr :=
  match get p st.tree with
  | none => []
  | some t => t.listing

/-- `mode | 0o700`. -/
def unlockedMode (mode : ℕ) : ℕ := mode ||| 448

/-- `unlock_tree`; `none` is an `OSError`, or a tree deeper than the fuel. -/
def unlockTree : ℕ → Path → Staging → Option Staging
  | 0, _, _ => none
  | fuel + 1, p, st =>
    match nodeAt st.tree p with
    | none => none
    | some (.leaf (.link _)) => some (st.reach false p)
    | some (.leaf _) => none
    | some (.dir mode) =>
      let st := (st.reach false p).chmod p (unlockedMode mode)
      let st := st.reach true p
      let subdirs := (st.names p).filter fun name => isRealDir st.tree (p ++ [name])
      subdirs.foldlM (fun st name => unlockTree fuel (p ++ [name]) st) st

/-- `remove_tree`. -/
def removeTree (fuel : ℕ) (p : Path) (st : Staging) : Option Staging :=
  (unlockTree fuel p st).map fun st => st.remove p

variable (casefold : PyStr → PyStr)

/-- A name that is judged for what it folds to. -/
def isControl (name : PyStr) : Bool := decide (casefold name ∈ LANDING_CONTROL_NAMES)

/-- One judged name of a directory: reported, then removed. -/
def dropJudged (fuel : ℕ) (directory : Path) (state : Staging × List Path) (name : PyStr) :
    Option (Staging × List Path) :=
  let path := directory ++ [name]
  let skipped := state.2 ++ [path]
  if isLink state.1.tree path || !isRealDir state.1.tree path then
    some (state.1.remove path, skipped)
  else (removeTree fuel path state.1).map fun st => (st, skipped)

/-- The walk, from one directory: its judged names, then the directories that are left,
none of which is entered through a symlink. -/
def walkFrom : ℕ → Path → Staging × List Path → Option (Staging × List Path)
  | 0, _, _ => none
  | fuel + 1, directory, (st, skipped) =>
    let st := st.reach true directory
    let names := st.names directory
    let judged := sorted (names.filter (isControl casefold))
    (judged.foldlM (dropJudged fuel directory) (st, skipped)).bind fun state =>
      (names.filter fun name =>
          decide (name ∉ judged) && isRealDir state.1.tree (directory ++ [name])).foldlM
        (fun state name => walkFrom fuel (directory ++ [name]) state) state

/-- `drop_control_paths`: the staging directory after it, and the paths it reports. -/
def dropControlPaths (staging : Tree) : Option (Staging × List Path) :=
  (unlockTree staging.height [] ⟨some staging, false⟩).bind fun st =>
    walkFrom casefold staging.height [] (st, [])

end Cp
