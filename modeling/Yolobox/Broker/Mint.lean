/-
# One mint

`export_credentials` of `aws-broker`: what a finished `aws configure
export-credentials` is taken for.  `json.loads` is a parameter, so what follows holds
of any parser.  A message is kept as its form with what is filled in.

Times are microseconds since 1970 in UTC.  `parseExpiration` rebuilds the timestamp
as the source does and reads it as `datetime.fromisoformat`; `servedExpiration` is
`strftime` with `EXPIRATION_SERVED_FORMAT`, which on some systems leaves a year below
1000 unpadded.
-/
import Yolobox.Text

namespace Broker

/-! ## Timestamps -/

/-- The zeros of Unicode, each followed by the other digits of its script. -/
def decimalZeros : List ℕ :=
  [48, 1632, 1776, 1984, 2406, 2534, 2662, 2790, 2918, 3046, 3174, 3302, 3430, 3558, 3664, 3792,
    3872, 4160, 4240, 6112, 6160, 6470, 6608, 6784, 6800, 6992, 7088, 7232, 7248, 42528, 43216,
    43264, 43472, 43504, 43600, 44016, 65296, 66720, 68912, 69734, 69872, 69942, 70096, 70384,
    70736, 70864, 71248, 71360, 71472, 71904, 72016, 72784, 73040, 73120, 92768, 92864, 93008,
    120782, 120792, 120802, 120812, 120822, 123200, 123632, 125264, 130032]

/-- `\d` in a pattern for text, which matches the digits of every script. -/
def isDecimal (c : ℕ) : Bool := decimalZeros.any fun first => first ≤ c && c < first + 10

/-- Whether a text has the form of a pattern, where `d` stands for a digit. -/
def shaped (pattern text : PyStr) : Bool :=
  pattern.length == text.length &&
    (pattern.zip text).all fun (p, c) => if p = 100 then isDigit c else p == c

def isLeap (year : ℕ) : Bool := year % 4 == 0 && (year % 100 != 0 || year % 400 == 0)

def daysInMonth (year month : ℕ) : ℕ :=
  if month = 2 then (if isLeap year then 29 else 28)
  else if month = 4 ∨ month = 6 ∨ month = 9 ∨ month = 11 then 30
  else 31

def daysBeforeMonth (year month : ℕ) : ℕ :=
  ((List.range (month - 1)).map fun m => daysInMonth year (m + 1)).sum

def daysBeforeYear (year : ℕ) : ℕ :=
  (year - 1) * 365 + (year - 1) / 4 - (year - 1) / 100 + (year - 1) / 400

/-- `toordinal()` of 1970-01-01. -/
def epochOrdinal : ℕ := 719163

def secondMicros : ℤ := 1000000

/-- `datetime.fromisoformat` on the one shape it is given. -/
def fromisoformat (text : PyStr) : Option ℤ :=
  let field (start length : ℕ) := num ((text.drop start).take length)
  if shaped (lit "dddd-dd-ddTdd:dd:dd.dddddd+dd:dd") text ∨
      shaped (lit "dddd-dd-ddTdd:dd:dd.dddddd-dd:dd") text then
    let year := field 0 4
    let month := field 5 2
    let day := field 8 2
    let offset := field 27 2 * 60 + field 30 2
    if (1 ≤ year ∧ 1 ≤ month ∧ month ≤ 12 ∧ 1 ≤ day ∧ day ≤ daysInMonth year month) ∧
        field 11 2 < 24 ∧ field 14 2 < 60 ∧ field 17 2 < 60 ∧ offset < 24 * 60 then
      let days : ℤ := daysBeforeYear year + daysBeforeMonth year month + day - epochOrdinal
      let clock : ℤ := field 11 2 * 3600 + field 14 2 * 60 + field 17 2
      let east : ℤ := if (text.drop 26).head? = some 45 then -offset else offset
      some ((days * 86400 + clock - east * 60) * secondMicros + field 20 6)
    else none
  else none

/-- The zone of a timestamp, rebuilt. -/
def rebuiltZone (zone : PyStr) : Option PyStr :=
  if zone = [] ∨ zone = lit "Z" then some (lit "+00:00")
  else if shaped (lit "+dd:dd") zone ∨ shaped (lit "-dd:dd") zone then some zone
  else if shaped (lit "+dddd") zone ∨ shaped (lit "-dddd") zone then
    some (zone.take 3 ++ lit ":" ++ zone.drop 3)
  else none

/-- `parse_expiration`, without its `ValueError`s' texts.  A digit of another script passes
the pattern, and `fromisoformat` refuses it, unless it is cut off with the fraction. -/
def parseExpiration (expiration : PyStr) : Option ℤ :=
  let day := expiration.take 10
  let clock := (expiration.drop 11).take 8
  let rest := expiration.drop 19
  let fraction := rest.tail.takeWhile isDecimal
  if shaped (lit "dddd-dd-dd dd:dd:dd") (day ++ lit " " ++ clock) ∧
      ((expiration.drop 10).head? = some 84 ∨ (expiration.drop 10).head? = some 32) then
    if rest.head? = some 46 then
      if fraction = [] then none
      else
        (rebuiltZone (rest.tail.drop fraction.length)).bind fun zone =>
          fromisoformat (day ++ lit "T" ++ clock ++ lit "." ++
            (fraction.take 6).rightpad 6 48 ++ zone)
    else
      (rebuiltZone rest).bind fun zone =>
        fromisoformat (day ++ lit "T" ++ clock ++ lit ".000000" ++ zone)
  else none

/-- The date of an ordinal from 1 on. -/
def dateOf (ordinal : ℕ) : ℕ × ℕ × ℕ :=
  let n := ordinal - 1
  let century := n % 146097 / 36524
  let quad := n % 146097 % 36524 / 1461
  let single := n % 146097 % 36524 % 1461 / 365
  let left := n % 146097 % 36524 % 1461 % 365
  let year := n / 146097 * 400 + century * 100 + quad * 4 + single + 1
  if single = 4 ∨ century = 4 then (year - 1, 12, 31)
  else
    let month := ((List.range 12).filter fun m => daysBeforeMonth year (m + 1) ≤ left).length
    (year, month, left - daysBeforeMonth year month + 1)

def twoDigits (n : ℕ) : PyStr := [48 + n / 10, 48 + n % 10]

/-- `astimezone(timezone.utc)`, which overflows outside the years 1 to 9999, and
`strftime`. -/
def servedExpiration (padsYear : Bool) (time : ℤ) : Option PyStr :=
  let seconds := time / secondMicros
  let ordinal := seconds / 86400 + epochOrdinal
  let clock := (seconds % 86400).toNat
  if 1 ≤ ordinal ∧ ordinal ≤ 3652059 then
    let (year, month, day) := dateOf ordinal.toNat
    let yearText := if padsYear then (dec year).leftpad 4 48 else dec year
    some (yearText ++ lit "-" ++ twoDigits month ++ lit "-" ++ twoDigits day ++ lit "T" ++
      twoDigits (clock / 3600) ++ lit ":" ++ twoDigits (clock / 60 % 60) ++ lit ":" ++
      twoDigits (clock % 60) ++ lit "Z")
  else none

example : (parseExpiration (lit "2024-02-29 23:59:59.5+0130")).bind (servedExpiration true)
    = some (lit "2024-02-29T22:29:59Z") := by decide +kernel

/-! ## The credentials -/

/-- What `json.loads` returns. -/
inductive Json
  | null
  | bool (b : Bool)
  | int (n : ℤ)
  | float (zero : Bool)
  | str (text : PyStr)
  | list (items : List Json)
  | dict (items : List (PyStr × Json))

/-- `type(data).__name__` -/
def Json.typeName : Json → PyStr
  | .null => lit "NoneType"
  | .bool _ => lit "bool"
  | .int _ => lit "int"
  | .float _ => lit "float"
  | .str _ => lit "str"
  | .list _ => lit "list"
  | .dict _ => lit "dict"

def Json.truthy : Json → Bool
  | .null => false
  | .bool b => b
  | .int n => n != 0
  | .float zero => !zero
  | .str text => !text.isEmpty
  | .list items => !items.isEmpty
  | .dict items => !items.isEmpty

/-- The text of a non-empty string. -/
def Json.text : Json → Option PyStr
  | .str text => if text = [] then none else some text
  | _ => none

structure Creds where
  accessKeyId : PyStr
  secretAccessKey : PyStr
  sessionToken : PyStr
  expiration : PyStr
  deriving DecidableEq, Repr

inductive MintError
  | timedOut
  | notOnPath
  | failed (code : ℤ) (stdout stderr : PyStr)
  | unparseable (message : PyStr)
  | notAnObject (typeName : PyStr)
  | noSessionToken
  | badField (name : PyStr)
  | unusableExpiration (expiration : PyStr)
  deriving DecidableEq, Repr

/-- How `subprocess.run` ends, its output decoded. -/
inductive AwsRun
  | timedOut
  | notFound
  | exited (code : ℤ) (stdout stderr : PyStr)
  deriving DecidableEq, Repr

/-- How `json.loads` ends. -/
inductive Loaded
  | value (json : Json)
  | notJson (message : PyStr)   -- `JSONDecodeError`
  | raised                      -- an integer of too many digits, lists too deep

/-- What depends on the Python that runs the broker, and on its system. -/
structure Python where
  loads : PyStr → Loaded
  padsYear : Bool               -- `%Y` of a year below 1000

variable (py : Python)

/-- The checks on the fields of the parsed object, in order.  It is `none` where
`astimezone` raises. -/
def checkedCreds (data : List (PyStr × Json)) : Option (Except MintError Creds) :=
  let field (name : String) := (data.lookup (lit name)).bind Json.text
  if !((data.lookup (lit "SessionToken")).any Json.truthy) then some (.error .noSessionToken)
  else
    match field "AccessKeyId", field "SecretAccessKey", field "SessionToken",
      field "Expiration" with
    | none, _, _, _ => some (.error (.badField (lit "AccessKeyId")))
    | _, none, _, _ => some (.error (.badField (lit "SecretAccessKey")))
    | _, _, none, _ => some (.error (.badField (lit "SessionToken")))
    | _, _, _, none => some (.error (.badField (lit "Expiration")))
    | some accessKeyId, some secretAccessKey, some sessionToken, some expiration =>
      match parseExpiration expiration with
      | none => some (.error (.unusableExpiration expiration))
      | some time =>
        (servedExpiration py.padsYear time).map fun served =>
          .ok ⟨accessKeyId, secretAccessKey, sessionToken, served⟩

/-- `export_credentials`; `none` where it raises. -/
def exportCredentials : AwsRun → Option (Except MintError Creds)
  | .timedOut => some (.error .timedOut)
  | .notFound => some (.error .notOnPath)
  | .exited code stdout stderr =>
    if code ≠ 0 then some (.error (.failed code stdout stderr))
    else
      match py.loads stdout with
      | .raised => none
      | .notJson message => some (.error (.unparseable message))
      | .value (.dict data) => checkedCreds py data
      | .value data => some (.error (.notAnObject data.typeName))

theorem Json.text_ne_nil {json : Json} {text : PyStr} (h : json.text = some text) :
    text ≠ [] := by
  cases json with
  | str t =>
    rw [Json.text, Option.ite_none_left_eq_some, Option.some.injEq] at h
    exact h.2 ▸ h.1
  | _ => cases h

theorem sessionToken_of_checkedCreds {data : List (PyStr × Json)} {creds : Creds}
    (h : checkedCreds py data = some (.ok creds)) : creds.sessionToken ≠ [] := by
  unfold checkedCreds at h
  dsimp only at h
  split_ifs at h
  · simp at h
  split at h <;> try simp at h
  rename_i token _ _ _ htoken _
  split at h
  · simp at h
  · obtain ⟨served, -, h⟩ := Option.map_eq_some_iff.mp h
    obtain ⟨json, -, hjson⟩ := Option.bind_eq_some_iff.mp htoken
    cases h
    exact Json.text_ne_nil hjson

/-- **Long-lived keys are never minted**: what is minted has a session token. -/
theorem sessionToken_of_export {run : AwsRun} {creds : Creds}
    (h : exportCredentials py run = some (.ok creds)) : creds.sessionToken ≠ [] := by
  cases run with
  | timedOut => simp [exportCredentials] at h
  | notFound => simp [exportCredentials] at h
  | exited code stdout stderr =>
    simp only [exportCredentials] at h
    split_ifs at h
    · simp at h
    · split at h
      · simp at h
      · simp at h
      · exact sessionToken_of_checkedCreds py h
      · simp at h

end Broker
