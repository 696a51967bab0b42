/-
# Fetching guest sources

`fetch_guest_sources` and `fetch_walked` of `yolobox_cli/cp.py`.  A directory on the way
down to build output is made here and its children are fetched one by one; everything
else is fetched whole.  The walks take fuel: one step for each directory on the way.
-/
import Yolobox.Cp.Listing

open Script Utf8 Posix

namespace Cp

/-! ## The directories to walk -/

/-- The loop of `directories_down_to`, at `directory`. -/
def upTo (source : PyStr) : ℕ → PyStr → Option (List PyStr)
  | 0, _ => none
  | fuel + 1, directory =>
    if directory = source then some [source]
    else (upTo source fuel (dirname directory)).map fun above => directory :: above

/-- `directories_down_to`: `none` when the loop does not end. -/
def directoriesDownTo (source path : PyStr) : Option (List PyStr) :=
  upTo source path.length (dirname path)

/-- The set `walked`. -/
def walkedOf (buildOutput : List (PyStr × PyStr)) : Option (List PyStr) :=
  (buildOutput.mapM fun (source, path) => directoriesDownTo source path).map fun (lists : List (List PyStr)) =>
    lists.flatten.dedup

structure GuestWalk where
  entries : List GuestEntry
  walked : List PyStr
  skipped : List PyStr

namespace GuestWalk

/-- `walk.entries.get(path)`. -/
def entry (walk : GuestWalk) (path : PyStr) : Option GuestEntry :=
  walk.entries.find? fun e => e.path == path

/-- `walk.children.get(directory)`, with no children for a missing key. -/
def children (walk : GuestWalk) (directory : PyStr) : List PyStr :=
  (sorted (walk.entries.map GuestEntry.path)).filter fun path => dirname path == directory

end GuestWalk

/-! ## Operands of scp -/

/-- `[\[\]*?\\]`. -/
def isGlobChar (c : ℕ) : Bool := c == 91 || c == 93 || c == 42 || c == 63 || c == 92

/-- `scp_glob_escape`. -/
def scpGlobEscape (path : PyStr) : PyStr :=
  path.flatMap fun c => if isGlobChar c then [92, c] else [c]

/-- `scp_guest_source`, with `state.box.vm_host`. -/
def scpGuestSource (vmHost path : PyStr) : PyStr := vmHost ++ 58 :: scpGlobEscape path

def SCP_ARGV_BUDGET : ℕ := 64 * 1024

/-- The bytes of an operand in argv, with the NUL that ends it.  Every operand is made of
text that `os.fsdecode` returned, so it has its bytes. -/
def argvCost (operand : PyStr) : ℕ := ((encode operand).getD []).length + 1

/-- The loop of `in_batches`, with the batch so far and its size. -/
def batchesFrom : List PyStr → ℕ → List PyStr → List (List PyStr)
  | batch, _, [] => if batch = [] then [] else [batch]
  | batch, size, operand :: operands =>
    if batch ≠ [] ∧ SCP_ARGV_BUDGET < size + argvCost operand then
      batch :: batchesFrom [operand] (argvCost operand) operands
    else batchesFrom (batch ++ [operand]) (size + argvCost operand) operands

/-- `in_batches`. -/
def inBatches (operands : List PyStr) : List (List PyStr) := batchesFrom [] 0 operands

/-- `os.path.relpath` of a clean path to a directory above it. -/
def relpath (path start : PyStr) : PyStr :=
  joinSlash ((names path).drop (names start).length)

/-- `as_pulled`. -/
def asPulled (source path : PyStr) : PyStr := relpath path (dirname source)

/-! ## Fetching -/

/-- `FETCHABLE_KINDS`: a directory, a regular file, a symlink. -/
def fetchable (kind : ℕ) : Bool := kind == dirKind || kind == fileKind || kind == 108

/-- `(entry.mode & 0o1777) | stat.S_IRWXU`. -/
def madeMode (mode : ℕ) : ℕ := (mode &&& 1023) ||| 448

/-- The children that one scp takes whole. -/
def plainChildren (walk : GuestWalk) (directory : PyStr) : List PyStr :=
  (walk.children directory).filter fun child =>
    decide (child ∉ walk.walked) && decide (child ∉ walk.skipped) &&
      (walk.entry child).any fun e => fetchable e.kind

/-- `fetch_walked`. -/
def fetchWalked (vmHost : PyStr) (walk : GuestWalk) (source : PyStr) :
    ℕ → PyStr → PyStr → Py Unit
  | 0, _, _ => .throw .endless
  | fuel + 1, directory, loc =>
    match walk.entry directory with
    | none => .throw (.yoError (.changed (asPulled source directory)))
    | some entry =>
      if entry.kind ≠ dirKind ∨ walk.children directory = [] then
        .throw (.yoError (.changed (asPulled source directory)))
      else
        (py (.makedirs loc (madeMode entry.mode))).bind fun _ =>
        (each (walk.children directory) fun child =>
          if child ∈ walk.walked then
            fetchWalked vmHost walk source fuel child (join loc (basename child))
          else if child ∈ walk.skipped then .ret ()
          else
            match walk.entry child with
            | none => .throw .keyError
            | some e =>
              if fetchable e.kind then .ret ()
              else py (.err (.notRegular (asPulled source child)))).bind fun _ =>
        (each (inBatches ((plainChildren walk directory).map (scpGuestSource vmHost))) fun batch =>
          py (.scp batch loc)).bind fun _ =>
        py (.utime loc entry.mtime)

/-- The tests of the second listing. -/
def childTests : List PyStr := [lit "-maxdepth", lit "1", lit "-printf", GUEST_RECORD]

/-- More fuel than any walked directory has characters. -/
def walkFuel (walked : List PyStr) : ℕ := (walked.map List.length).foldr max 0 + 1

/-- The scp of the sources that hold no build output. -/
def fetchWhole (vmHost staging : PyStr) (whole : List PyStr) : Py Unit :=
  if whole = [] then .ret () else py (.scp (whole.map (scpGuestSource vmHost)) staging)

/-- The second listing, and the walk of the sources that hold build output. -/
def fetchWalkedSources (vmHost staging : PyStr) (sources walked skipped : List PyStr) : Py Unit :=
  if walked = [] then .ret ()
  else
    (listGuest (sorted walked) childTests true).bind fun entries =>
      each (sources.filter fun source => decide (source ∈ walked)) fun source =>
        fetchWalked vmHost ⟨entries, walked, skipped⟩ source (walkFuel walked) source
          (join staging (basename source))

/-- `fetch_guest_sources`. -/
def fetchGuestSources (vmHost : PyStr) (sources : List PyStr) (staging : PyStr) : Py Unit :=
  (findBuildOutput sources).bind fun buildOutput =>
    match walkedOf buildOutput with
    | none => .throw .endless
    | some walked =>
      (fetchWhole vmHost staging (sources.filter fun source => decide (source ∉ walked))).bind
        fun _ =>
      (fetchWalkedSources vmHost staging sources walked (buildOutput.map Prod.snd)).bind fun _ =>
      each buildOutput fun (source, path) => py (.err (.buildOutput (asPulled source path)))

end Cp
