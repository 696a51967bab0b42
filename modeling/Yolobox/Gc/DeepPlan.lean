/-
# The project tier of `gc --deep`

`deep_plan` and `apply_deep_plan` of `nix/guest/yolobox-guest.sh`: what is planned from the
walks under `$HOME`, and what is run and removed later, when the project's own commands may
have changed have changed anything.  The file system has symbolic links: `chmod -R` follows the one it is
given, `rm` does not.  It has hard links: a name stands for an inode, which keeps the mode.
-/
import Yolobox.Text
import Yolobox.Lib.Script
import Yolobox.Lib.FileTree

open FileTree (nodeAt get alter Node)

namespace Gc

/-! ## Files and links -/

/-- A path from the root, as its names. -/
abbrev Path := List PyStr

inductive Leaf
  | file (inode : ℕ)
  | link (target : PyStr)
  deriving DecidableEq

/-- What an inode holds, whatever names it has. -/
structure File where
  mode : ℕ
  content : PyStr
  deriving DecidableEq

/-- A directory has its mode. -/
abbrev Tree := Option (FileTree PyStr Leaf ℕ)

/-- The way from a directory along names; `follow` goes on where a link points. -/
def walk (follow : Path → Path → Option Path) (t : Tree) : Path → Path → Option Path
  | place, [] => some place
  | place, name :: rest =>
    if name = [] ∨ name = lit "." then walk follow t place rest
    else if name = lit ".." then walk follow t place.dropLast rest
    else match nodeAt t (place ++ [name]) with
      | some (.dir _) => walk follow t (place ++ [name]) rest
      | some (.leaf (.link target)) =>
        follow (if startswith target [47] then [] else place) (target.splitOn 47 ++ rest)
      | some (.leaf (.file _)) => if rest = [] then some (place ++ [name]) else none
      | none => none

/-- The same, over fewer links than a number. -/
def resolve (t : Tree) : ℕ → Path → Path → Option Path
  | 0, _, _ => none
  | links + 1, place, path => walk (resolve t links) t place path

/-- Where a path leads, with every link followed: at most 40. -/
def realpath (t : Tree) (path : Path) : Option Path := resolve t 41 [] path

/-- Where the last name of a path stands: links are followed on the way, not there. -/
def locate (t : Tree) (path : Path) : Option Path :=
  match path.getLast?, realpath t path.dropLast with
  | some name, some place =>
    match nodeAt t place with
    | some (.dir _) => some (place ++ [name])
    | _ => none
  | _, _ => none

def IsLink (t : Tree) (path : Path) : Prop := ∃ p target, locate t path = some p ∧ nodeAt t p = some (.leaf (.link target))

def IsFile (t : Tree) (path : Path) : Prop :=
  ∃ p inode, realpath t path = some p ∧ nodeAt t p = some (.leaf (.file inode))

/-- A hard link of the file is in the tree. -/
def Holds (t : Tree) (inode : ℕ) : Prop := ∃ q, nodeAt t q = some (.leaf (.file inode))

/-- `u+w` on a directory; a file's mode is not in the tree. -/
def grant : Node Leaf ℕ → Node Leaf ℕ
  | .dir mode => .dir (mode ||| 128)
  | .leaf leaf => .leaf leaf

/-- `u+w` on a file. -/
def File.grant (file : File) : File := { file with mode := file.mode ||| 128 }

/-- What `chmod -R u+w` may leave of a tree, when it stops early as well. -/
def Granted (old new : Tree) : Prop :=
  ∀ q, nodeAt new q = nodeAt old q ∨ nodeAt new q = (nodeAt old q).map grant

/-- What `rm -rf` may leave of a tree, when it stops early as well. -/
def Pruned (old new : Tree) : Prop := ∀ q, nodeAt new q = none ∨ nodeAt new q = nodeAt old q

/-! ## Repositories -/

/-- The repository around a directory: the files in its index, and the entries that an
ignore rule covers. -/
structure Repository where
  tracked : Path → Prop
  covered : Path → Prop

/-- A rule covers the entry or a directory that it is in. -/
def Repository.Ignores (repo : Repository) (p : Path) : Prop := ∃ above, above <+: p ∧ repo.covered above

/-- A file that git reports as untracked. -/
def Repository.Untracked (repo : Repository) (t : Tree) (p : Path) : Prop :=
  (∃ leaf, nodeAt t p = some (.leaf leaf)) ∧ ¬repo.tracked p ∧ ¬repo.Ignores p

/-! ## The commands -/

/-- The labels of `step`, and what `require_tool` keeps. -/
inductive Label
  | makeClean (root : Path)     -- "make clean in %s"
  | cargoClean (parent : Path)  -- "cargo clean in %s"
  | goClean (root : Path)       -- "go clean in %s"
  | remove (dir : Path)         -- "rm -rf %s"
  | target (dir : Path)         -- "%s"

/-- What `fail` reports. -/
inductive Failure
  | walk (rc : ℕ)                                    -- "the project walk under $HOME could not read …"
  | targets (rc : ℕ)                                 -- "the build-directory walk under $HOME could not …"
  | noTool (tool : PyStr) (root : Path) (what : Label)   -- "kept %s: %s is not in %s's environment"
  | makeDryRun (root : Path) (rc : ℕ) (out : PyStr)  -- "make -n clean failed in %s (exit %s)"
  | noAction (dir : Path)                            -- "gc --deep has no action for %s"
  | notIgnored (dir : Path)                          -- "kept %s: git does not ignore it"
  | step (label : Label) (rc : ℕ)                    -- "%s (exit %s)"

/-- What is said of what is well. -/
inductive Note
  | ok (label : Label)
  | alreadyGone (dir : Path)                     -- "already gone: %s"
  | notInRepository (dir : Path)                 -- "kept %s: not inside a git repository"
  | noManifest (dir : Path) (manifest : PyStr)   -- "kept %s: no %s beside it …"

inductive Cmd
  | mktemp
  | removeTemp
  | projectRoots
  | buildTargets
  | isFile (path : Path)
  | exists (path : Path)
  | isLink (path : Path)
  | inWorkTree (parent : Path)              -- `git rev-parse --is-inside-work-tree`
  | checkIgnore (parent dir : Path)         -- `git check-ignore -q`
  | lsFiles (parent dir : Path)
  | status (parent dir : Path)              -- `git status --porcelain --untracked-files=all`
  | run (root : Path) (devbox : Bool) (argv : List PyStr)
  | rmLink (dir : Path)                     -- `rm -f`
  | chmod (dir : Path)                      -- `chmod -R u+w`
  | rmTree (dir : Path)                     -- `rm -rf`
  | fail (why : Failure)
  | say (note : Note)

/-- A walk answers with what it found and its exit code, a run with its exit code and its
output, git with the lines it lists. -/
abbrev Answer : Cmd → Type
  | .projectRoots | .buildTargets => List Path × ℕ
  | .lsFiles _ _ | .status _ _ => List PyStr
  | .run _ _ _ => ℕ × PyStr
  | .rmLink _ | .chmod _ | .rmTree _ => ℕ
  | _ => Unit

/-- `errexit` ends the script. -/
inductive Errexit
  | errexit

abbrev Sh := Script Cmd Answer Errexit

/-- A command that may fail where a condition is looked for. -/
def holds (c : Cmd) : Sh Bool := (Script.attempt c).bind fun r => .ret r.isSome

/-- A command that only says something. -/
def report (c : Cmd) : Sh Unit := (Script.attempt c).bind fun _ => .ret ()

/-- A command for its exit code; one that cannot be run has another. -/
def code (c : Cmd) (exit : Answer c → ℕ) : Sh ℕ :=
  (Script.attempt c).bind fun r => .ret ((r.map exit).getD 127)

/-! ## `remove_tree` and the tools -/

/-- `remove_tree` -/
def removeTree (dir : Path) : Sh ℕ := do
  if ← holds (.isLink dir) then code (.rmLink dir) id
  else
    let rc ← code (.chmod dir) id
    if rc = 0 then code (.rmTree dir) id else return rc

/-- `in_project_env` -/
def inProjectEnv (root : Path) (argv : List PyStr) : Sh (ℕ × PyStr) := do
  let devbox ← holds (.isFile (root ++ [lit "devbox.json"]))
  let answer ← Script.attempt (.run root devbox argv)
  return answer.getD (127, [])

/-- `require_tool` -/
def requireTool (root : Path) (tool : PyStr) (what : Label) : Sh Bool := do
  let found ← inProjectEnv root [lit "sh", lit "-c", lit "command -v " ++ tool ++ lit " >/dev/null"]
  if found.1 = 0 then return true
  report (.fail (.noTool tool root what))
  return false

/-- `step` -/
def step (label : Label) (command : Sh ℕ) : Sh Unit := do
  let rc ← command
  if rc = 0 then report (.say (.ok label)) else report (.fail (.step label rc))

/-! ## `deep_plan` -/

/-- What `deep_plan` decides: the `DEEP_*` globals. -/
structure Plan where
  makeRoots : List (Path × PyStr)
  cargoTargets : List Path
  goRoots : List Path
  removals : List Path

/-- `NEEDS_MANIFEST` -/
def NEEDS_MANIFEST : List (PyStr × PyStr) :=
  [(lit "target", lit "Cargo.toml"), (lit ".next", lit "package.json")]

/-- `plan_make` -/
def planMake (root : Path) (plan : Plan) : Sh Plan := do
  if ← requireTool root (lit "make") (.makeClean root) then
    let dry ← inProjectEnv root [lit "make", lit "-n", lit "clean"]
    if dry.1 = 0 then return { plan with makeRoots := plan.makeRoots ++ [(root, dry.2)] }
    if lit "No rule to make target 'clean'" <:+: dry.2 ∨ lit "No rule to make target \x60clean'" <:+: dry.2 then
      return plan
    report (.fail (.makeDryRun root dry.1 dry.2))
    return plan
  else return plan

/-- Whether there is a Makefile, under one of its names. -/
def hasMakefile (root : Path) : Sh Bool := do
  if ← holds (.isFile (root ++ [lit "Makefile"])) then return true
  if ← holds (.isFile (root ++ [lit "GNUmakefile"])) then return true
  holds (.isFile (root ++ [lit "makefile"]))

/-- One project of `deep_plan`. -/
def planRoot (root : Path) (plan : Plan) : Sh Plan := do
  let plan ← if ← hasMakefile root then planMake root plan else pure plan
  if ← holds (.isFile (root ++ [lit "go.mod"])) then
    if ← requireTool root (lit "go") (.goClean root) then
      return { plan with goRoots := plan.goRoots ++ [root] }
    else return plan
  else return plan

/-- One directory of `deep_plan`, by its name. -/
def planNamed (dir : Path) (name : PyStr) (plan : Plan) : Sh Plan := do
  if name = lit "target" then
    if ← requireTool dir.dropLast (lit "cargo") (.target dir) then
      return { plan with cargoTargets := plan.cargoTargets ++ [dir] }
    else return plan
  else if name = lit "node_modules" ∨ name = lit ".venv" ∨ name = lit ".next" then
    return { plan with removals := plan.removals ++ [dir] }
  else
    report (.fail (.noAction dir))
    return plan

/-- One directory of `deep_plan`. -/
def planTarget (dir : Path) (plan : Plan) : Sh Plan := do
  let name := dir.getLast?.getD []
  if ← holds (.inWorkTree dir.dropLast) then
    match NEEDS_MANIFEST.lookup name with
    | none => planNamed dir name plan
    | some manifest =>
      if ← holds (.isFile (dir.dropLast ++ [manifest])) then planNamed dir name plan
      else
        report (.say (.noManifest dir manifest))
        return plan
  else
    report (.say (.notInRepository dir))
    return plan

/-- A plan that grows with each path of a list. -/
def planEach (one : Path → Plan → Sh Plan) : List Path → Plan → Sh Plan
  | [], plan => .ret plan
  | path :: paths, plan => (one path plan).bind fun plan => planEach one paths plan

/-- A walk, its failure reported. -/
def walked (c : Cmd) (found : Answer c → List Path × ℕ) (failure : ℕ → Failure) : Sh (List Path) := do
  let _ ← Script.cmd .errexit .mktemp
  let answer ← Script.attempt c
  let result := (answer.map found).getD ([], 127)
  if result.2 ≠ 0 then report (.fail (failure result.2))
  return result.1

/-- `deep_plan` -/
def deepPlan : Sh Plan := do
  let roots ← walked .projectRoots id .walk
  let plan ← planEach planRoot roots ⟨[], [], [], []⟩
  let _ ← Script.cmd .errexit .removeTemp
  let targets ← walked .buildTargets id .targets
  let plan ← planEach planTarget targets plan
  let _ ← Script.cmd .errexit .removeTemp
  return plan

/-! ## `apply_deep_plan` -/

/-- `git_ignores` -/
def gitIgnores (dir : Path) : Sh Bool := do
  if ← holds (.checkIgnore dir.dropLast dir) then return true
  match ← Script.attempt (.lsFiles dir.dropLast dir) with
  | none => return false
  | some tracked =>
    match ← Script.attempt (.status dir.dropLast dir) with
    | none => return false
    | some changed => return (tracked ++ changed).isEmpty

/-- `step_if_ignored` -/
def stepIfIgnored (dir : Path) (label : Label) (command : Sh ℕ) : Sh Unit := do
  if ← holds (.exists dir) then
    if ← gitIgnores dir then step label command else report (.fail (.notIgnored dir))
  else report (.say (.alreadyGone dir))

/-- A command of a project, for its exit code. -/
def cleaned (root : Path) (argv : List PyStr) : Sh ℕ :=
  (inProjectEnv root argv).bind fun answer => .ret answer.1

/-- The outright removal of a directory. -/
def removeOutright (dir : Path) : Sh Unit := stepIfIgnored dir (.remove dir) (removeTree dir)

/-- `apply_deep_plan` -/
def applyDeepPlan (plan : Plan) : Sh Unit := do
  Script.each plan.makeRoots fun root => step (.makeClean root.1) (cleaned root.1 [lit "make", lit "clean"])
  Script.each plan.cargoTargets fun dir =>
    stepIfIgnored dir (.cargoClean dir.dropLast) (cleaned dir.dropLast [lit "cargo", lit "clean"])
  Script.each plan.goRoots fun root => step (.goClean root) (cleaned root [lit "go", lit "clean"])
  Script.each plan.removals removeOutright

/-- The project tier of `gc --deep`. -/
def deep : Sh Unit := deepPlan.bind applyDeepPlan

/-! ## The box -/

/-- The names, the files they stand for, what git finds around each directory, and the
failures so far. -/
structure World where
  tree : Tree
  file : ℕ → File
  git : Path → Option Repository
  failures : List Failure

/-- The repository that `git -C` works in. -/
def World.around (s : World) (directory : Path) : Option Repository := (realpath s.tree directory).bind s.git

/-- What git was asked about, of a repository it can read. -/
def World.Judges (s : World) (parent dir : Path) (judged : Repository → Path → Prop) : Prop :=
  ∃ repo p, s.around parent = some repo ∧ locate s.tree dir = some p ∧ judged repo p

/-- **The machine.**  A command of a project may do anything to the files and repositories.
git answers for what it finds, or fails. -/
def machine : Script.Machine Answer World
  | .isFile path, s, r, t => t = s ∧ (r.isSome = true ↔ IsFile s.tree path)
  | .exists path, s, r, t => t = s ∧ (r.isSome = true ↔ (realpath s.tree path).isSome = true)
  | .isLink path, s, r, t => t = s ∧ (r.isSome = true ↔ IsLink s.tree path)
  | .checkIgnore parent dir, s, r, t => t = s ∧ (r.isSome = true →
      s.Judges parent dir fun repo p => repo.Ignores p ∧ ∀ q, p <+: q → ¬repo.tracked q)
  | .lsFiles parent dir, s, r, t => t = s ∧ ∀ lines, r = some lines →
      s.Judges parent dir fun repo p => (∃ q, p <+: q ∧ repo.tracked q) → lines ≠ []
  | .status parent dir, s, r, t => t = s ∧ ∀ lines, r = some lines →
      s.Judges parent dir fun repo p => (∃ q, p <+: q ∧ repo.Untracked s.tree q) → lines ≠ []
  | .run _ _ _, s, _, t => t.failures = s.failures
  | .rmLink dir, s, _, t => t.failures = s.failures ∧ t.file = s.file ∧ (t.tree = s.tree ∨ ∃ p leaf,
      locate s.tree dir = some p ∧ nodeAt s.tree p = some (.leaf leaf) ∧ t.tree = alter (fun _ => none) p s.tree)
  | .chmod dir, s, _, t => t.failures = s.failures ∧ t.git = s.git ∧
      (t.tree = s.tree ∧ t.file = s.file ∨ ∃ p new, realpath s.tree dir = some p ∧
        Granted (get p s.tree) new ∧ t.tree = alter (fun _ => new) p s.tree ∧
        ∀ i, t.file i = s.file i ∨ Holds (get p s.tree) i ∧ t.file i = (s.file i).grant)
  | .rmTree dir, s, _, t => t.failures = s.failures ∧ t.file = s.file ∧ (t.tree = s.tree ∨ ∃ p new,
      locate s.tree dir = some p ∧ Pruned (get p s.tree) new ∧ t.tree = alter (fun _ => new) p s.tree)
  | .fail why, s, _, t => t = { s with failures := s.failures ++ [why] }
  | _, s, _, t => t = s

end Gc
