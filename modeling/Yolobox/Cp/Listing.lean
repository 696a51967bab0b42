/-
# Listing the guest

`list_guest` and `find_build_output` of `yolobox_cli/cp.py`.  What `find` prints comes
out of the agent's shell, so it is any bytes at all; a record that survives
`parse_guest_record` names a clean path under one of the starts.
-/
import Yolobox.Lib.Script
import Yolobox.Lib.Utf8
import Yolobox.Posix

open Script Utf8 Posix

namespace Cp

/-! ## The interface -/

/-- What `yo` prints on stderr and goes on: paths as they land. -/
inductive Note
  | notRegular (asPulled : PyStr)
  | buildOutput (asPulled : PyStr)
  deriving DecidableEq, Repr

inductive Cmd
  | find (starts tests : List PyStr)                -- `find -H`, in the guest
  | scp (operands : List PyStr) (dest : PyStr)      -- `scp_transfer`
  | makedirs (path : PyStr) (mode : ℕ)              -- `exist_ok`
  | utime (path : PyStr) (mtime : ℚ)
  | err (note : Note)
  deriving DecidableEq

/-- `find` answers with its exit status and what it printed. -/
abbrev Answer : Cmd → Type
  | .find _ _ => ℤ × List Byte
  | _ => Unit

/-- The `YoError`s of the listing and the walk. -/
inductive Refusal
  | cannotList (starts : List PyStr)
  | malformedRecord (text : PyStr)
  | notCleanUnder (starts : List PyStr) (text : PyStr)
  | describedTwice (path : PyStr)
  | notAskedFor (path : PyStr)
  | changed (asPulled : PyStr)
  deriving DecidableEq, Repr

/-- What a script of `cp.py` raises. -/
inductive Raised
  | yoError (refusal : Refusal)
  | commandFailed            -- an `OSError`, or the `YoError` of a failed ssh or scp
  | keyError
  | stopIteration
  | endless                  -- a walk that would not come to an end
  deriving DecidableEq, Repr

abbrev Py := Script Cmd Answer Raised

def py (c : Cmd) : Py (Answer c) := Script.cmd .commandFailed c

/-- A computation that may refuse. -/
def checked {α : Type} : Except Refusal α → Py α
  | .ok a => .ret a
  | .error refusal => .throw (.yoError refusal)

/-- `sorted`. -/
def sorted (texts : List PyStr) : List PyStr := texts.insertionSort (· ≤ ·)

/-! ## Records -/

structure GuestEntry where
  kind : ℕ
  mode : ℕ
  mtime : ℚ
  path : PyStr
  deriving DecidableEq, Repr

/-- `[a-zA-Z]`. -/
def isLetter (c : ℕ) : Bool := (65 ≤ c && c ≤ 90) || (97 ≤ c && c ≤ 122)

/-- `[0-7]{1,6}`. -/
def isModeText (text : PyStr) : Bool :=
  !text.isEmpty && decide (text.length ≤ 6) && text.all fun c => 48 ≤ c && c ≤ 55

/-- `[0-9]{1,11}(?:\.[0-9]+)?`. -/
def isTimeText (text : PyStr) : Bool :=
  let seconds := text.takeWhile isDigit
  !seconds.isEmpty && decide (seconds.length ≤ 11) &&
    match text.dropWhile isDigit with
    | [] => true
    | dot :: fraction => dot == 46 && !fraction.isEmpty && fraction.all isDigit

/-- The text up to the first tab, and the text after it. -/
def cutTab (text : PyStr) : Option (PyStr × PyStr) :=
  match text.dropWhile fun c => c != 9 with
  | [] => none
  | _ :: rest => some (text.takeWhile fun c => c != 9, rest)

/-- `GUEST_RECORD_RE`: no field but the path may hold a tab. -/
def matchRecord (text : PyStr) : Option (ℕ × PyStr × PyStr × PyStr) :=
  match cutTab text with
  | some ([kind], rest) =>
    match cutTab rest with
    | some (mode, rest) =>
      match cutTab rest with
      | some (mtime, path) =>
        if isLetter kind && isModeText mode && isTimeText mtime && !path.isEmpty then
          some (kind, mode, mtime, path)
        else none
      | none => none
    | none => none
  | _ => none

/-- `int(mode, 8)`. -/
def octal (text : PyStr) : ℕ := Nat.ofDigits 8 (text.reverse.map (· - 48))

def roundHalfEven (q : ℚ) : ℤ :=
  let below := ⌊q⌋
  if q - below < 1 / 2 then below
  else if 1 / 2 < q - below then below + 1
  else if below % 2 = 0 then below
  else below + 1

/-- The double nearest to a number in the range of a time. -/
def toDouble (q : ℚ) : ℚ :=
  if q = 0 then 0
  else
    let exponent := max (Int.log 2 q - 52) (-1074)
    roundHalfEven (q / 2 ^ exponent) * 2 ^ exponent

/-- `float(mtime)` of a decimal. -/
def float (text : PyStr) : ℚ :=
  let fraction := (text.dropWhile isDigit).tail
  toDouble (num (text.takeWhile isDigit) + num fraction / 10 ^ fraction.length)

/-- `parse_guest_record`. -/
def parseGuestRecord (record : List Byte) (starts : List PyStr) (listsStarts : Bool) :
    Except Refusal GuestEntry :=
  match matchRecord (decode record) with
  | none => .error (.malformedRecord (decode record))
  | some (kind, mode, mtime, path) =>
    if normpath path == path &&
        (starts.any (fun start => startswith path (start ++ [47]))
          || (listsStarts && decide (path ∈ starts))) then
      .ok ⟨kind, octal mode, float mtime, path⟩
    else .error (.notCleanUnder starts (decode record))

/-- `entries.setdefault`, and the check that follows it.  A dict is the list of its
values, in order of insertion. -/
def setdefault (entries : List GuestEntry) (entry : GuestEntry) :
    Except Refusal (List GuestEntry) :=
  match entries.find? fun e => e.path == entry.path with
  | none => .ok (entries ++ [entry])
  | some first => if first = entry then .ok entries else .error (.describedTwice entry.path)

/-- The loop of `list_guest`. -/
def readRecords (starts : List PyStr) (listsStarts : Bool) :
    List (List Byte) → List GuestEntry → Except Refusal (List GuestEntry)
  | [], entries => .ok entries
  | record :: records, entries =>
    if record = [] then readRecords starts listsStarts records entries
    else
      match parseGuestRecord record starts listsStarts with
      | .error refusal => .error refusal
      | .ok entry =>
        match setdefault entries entry with
        | .error refusal => .error refusal
        | .ok entries => readRecords starts listsStarts records entries

/-- `list_guest`. -/
def listGuest (starts tests : List PyStr) (listsStarts : Bool) : Py (List GuestEntry) :=
  (py (.find starts tests)).bind fun (returncode, stdout) =>
    if returncode ≠ 0 then .throw (.yoError (.cannotList starts))
    else checked (readRecords starts listsStarts (stdout.splitOn 0) [])

/-! ## Build output -/

/-- `BUILD_OUTPUT`: the names, and the manifest that must sit beside each. -/
def BUILD_OUTPUT : List (PyStr × Option PyStr) :=
  [(lit "node_modules", none), (lit ".venv", none), (lit "target", some (lit "Cargo.toml")),
    (lit ".next", some (lit "package.json"))]

def MANIFEST_NAMES : List PyStr := [lit "Cargo.toml", lit "package.json"]

def GUEST_RECORD : PyStr := lit "%y\t%m\t%T@\t%p\\0"

/-- `any_name`. -/
def anyName (names : List PyStr) : List PyStr :=
  (lit "(" :: names.flatMap fun name => [lit "-name", name, lit "-o"]).dropLast ++ [lit ")"]

/-- The names that need no manifest. -/
def plainNames : List PyStr :=
  (BUILD_OUTPUT.filter fun output => output.2.isNone).map Prod.fst

def needyNames : List PyStr :=
  (BUILD_OUTPUT.filter fun output => output.2.isSome).map Prod.fst

/-- The tests of the first listing. -/
def buildOutputTests : List PyStr :=
  ([lit "-mindepth", lit "1"] ++
    [(lit "d", plainNames, [lit "-prune", lit "-printf", GUEST_RECORD]),
     (lit "d", needyNames, [lit "-printf", GUEST_RECORD]),
     (lit "f", sorted MANIFEST_NAMES, [lit "-printf", GUEST_RECORD])].flatMap
      fun (kind, names, action) =>
        [lit "(", lit "-type", kind] ++ anyName names ++ action ++ [lit ")", lit "-o"]).dropLast

/-- `d` and `f`, as `find` prints them. -/
def dirKind : ℕ := 100
def fileKind : ℕ := 102

/-- The names that were asked for with a type. -/
def asked (kind : ℕ) : List PyStr :=
  if kind = dirKind then BUILD_OUTPUT.map Prod.fst
  else if kind = fileKind then MANIFEST_NAMES
  else []

/-- `has_manifest`; `none` is a `KeyError`. -/
def hasManifest (directory : PyStr) (manifestsPresent : List PyStr) : Option Bool :=
  match BUILD_OUTPUT.lookup (basename directory) with
  | none => none
  | some none => some true
  | some (some manifest) => some (decide (join (dirname directory) manifest ∈ manifestsPresent))

def manifestsPresent (found : List GuestEntry) : List PyStr :=
  (found.filter fun entry => entry.kind == fileKind).map GuestEntry.path

/-- The directories of a listing. -/
def directories (found : List GuestEntry) : List PyStr :=
  (found.filter fun entry => entry.kind == dirKind).map GuestEntry.path

def confirmed (found : List GuestEntry) : List PyStr :=
  sorted ((directories found).filter fun path =>
    hasManifest path (manifestsPresent found) == some true)

/-- The loop over the confirmed directories. -/
def outermost (paths : List PyStr) : List PyStr :=
  paths.foldl (fun kept path =>
    if kept.any fun k => startswith path (k ++ [47]) then kept else kept ++ [path]) []

/-- The first source that a path lies under. -/
def sourceOf (sources : List PyStr) (path : PyStr) : Option PyStr :=
  sources.find? fun source => startswith path (source ++ [47])

/-- What `find_build_output` makes of a listing. -/
def judge (sources : List PyStr) (found : List GuestEntry) : Py (List (PyStr × PyStr)) :=
  match found.find? fun entry => !decide (basename entry.path ∈ asked entry.kind) with
  | some entry => .throw (.yoError (.notAskedFor entry.path))
  | none =>
    if (directories found).any fun path => (hasManifest path (manifestsPresent found)).isNone then
      .throw .keyError
    else
      match (outermost (confirmed found)).mapM fun path =>
          (sourceOf sources path).map fun source => (source, path) with
      | none => .throw .stopIteration
      | some output => .ret output

/-- `find_build_output`. -/
def findBuildOutput (sources : List PyStr) : Py (List (PyStr × PyStr)) :=
  (listGuest sources buildOutputTests false).bind (judge sources)

end Cp
