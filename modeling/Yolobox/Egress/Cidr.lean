/-
# Address ranges as text

The checks of `nix/egress.nix` on a `lanAllow` entry, and the reading nft gives the
elements of a set.  The rule file carries the entries as text, so nothing here
depends on which of the two reads an entry first.
-/
import Yolobox.Text
import Yolobox.Lib.Ip

namespace Egress

/-! ## The checks -/

/-- `(0|[1-9][0-9]{0,2})`. -/
def isNumeral : PyStr → Bool
  | [] => false
  | c :: cs =>
    (c == 48 && cs.isEmpty) || (49 ≤ c && c ≤ 57 && decide (cs.length ≤ 2) && cs.all isDigit)

/-- `[0-9a-fA-F]`. -/
def isHexDigit (c : ℕ) : Bool :=
  isDigit c || (65 ≤ c && c ≤ 70) || (97 ≤ c && c ≤ 102)

/-- `[0-9a-fA-F]{1,4}`. -/
def isHexGroup (g : PyStr) : Bool :=
  !g.isEmpty && decide (g.length ≤ 4) && g.all isHexDigit

/-- `cidrSplit`: the text before the slash and the numeral after it. -/
def cidrSplit (entry : PyStr) : Option (PyStr × PyStr) :=
  match entry.splitOn 47 with
  | [addr, length] => if !addr.isEmpty && isNumeral length then some (addr, length) else none
  | _ => none

/-- `v4Octets`: four numerals between dots. -/
def v4Octets (addr : PyStr) : Option (List PyStr) :=
  let octets := addr.splitOn 46
  if octets.length == 4 && octets.all isNumeral then some octets else none

/-- `lib.splitString "::"`. -/
def splitDoubleColon : PyStr → List PyStr
  | [] => [[]]
  | 58 :: 58 :: rest => [] :: splitDoubleColon rest
  | c :: rest =>
    match splitDoubleColon rest with
    | [] => [[c]]
    | part :: parts => (c :: part) :: parts

/-- `v6Groups`. -/
def v6Groups (part : PyStr) : List PyStr := if part.isEmpty then [] else part.splitOn 58

def isV4Addr (addr : PyStr) : Bool :=
  match v4Octets addr with
  | none => false
  | some octets => octets.all fun o => decide (num o ≤ 255)

def isV6Addr (addr : PyStr) : Bool :=
  let parts := (splitDoubleColon addr).map v6Groups
  let groups := parts.flatten
  groups.all isHexGroup &&
    (if parts.length == 1 then groups.length == 8
     else parts.length == 2 && decide (groups.length ≤ 7))

def isCidr (isAddr : PyStr → Bool) (maxPrefix : ℕ) (entry : PyStr) : Bool :=
  match cidrSplit entry with
  | none => false
  | some (addr, length) => isAddr addr && decide (num length ≤ maxPrefix)

def isV4 : PyStr → Bool := isCidr isV4Addr 32

def isV6 : PyStr → Bool := isCidr isV6Addr 128

/-! ## The reading -/

def hexDigit (c : ℕ) : ℕ := if c ≤ 57 then c - 48 else if c ≤ 70 then c - 55 else c - 87

/-- The number a group spells in hexadecimal. -/
def hexNum (g : PyStr) : ℕ := Nat.ofDigits 16 (g.reverse.map hexDigit)

/-- Digits of a base, the most significant first. -/
def ofWords (base : ℕ) (words : List ℕ) : ℕ := Nat.ofDigits base words.reverse

def v4Bits (addr : PyStr) : BitVec 32 := BitVec.ofNat 32 (ofWords 256 ((addr.splitOn 46).map num))

/-- The eight groups of an IPv6 address: `::` stands for the zero groups left out. -/
def v6Words (addr : PyStr) : List ℕ :=
  match (splitDoubleColon addr).map fun part => (v6Groups part).map hexNum with
  | [before, after] => before ++ List.replicate (8 - (before.length + after.length)) 0 ++ after
  | parts => parts.flatten

def v6Bits (addr : PyStr) : BitVec 128 := BitVec.ofNat 128 (ofWords 65536 (v6Words addr))

/-- An element of a set: a range, or one address. -/
def readElement (text : PyStr) : Option Block :=
  match cidrSplit text with
  | some (addr, length) =>
    if isV4Addr addr && decide (num length ≤ 32) then some (.v4 (v4Bits addr) (num length))
    else if isV6Addr addr && decide (num length ≤ 128) then some (.v6 (v6Bits addr) (num length))
    else none
  | none =>
    if isV4Addr text then some (.v4 (v4Bits text) 32)
    else if isV6Addr text then some (.v6 (v6Bits text) 128)
    else none

/-- An element covers an address. -/
def covers (text : PyStr) (a : Addr) : Bool :=
  match readElement text with
  | none => false
  | some block => block.contains a

/-- What `isV4` accepts is read as a range of IPv4 addresses. -/
theorem readElement_of_isV4 {entry : PyStr} (h : isV4 entry = true) :
    ∃ bits length, readElement entry = some (.v4 bits length) := by
  unfold isV4 isCidr at h
  unfold readElement
  cases hsplit : cidrSplit entry with
  | none => simp [hsplit] at h
  | some parts => exact ⟨_, _, by rw [hsplit] at h; exact if_pos h⟩

/-- What only `isV6` accepts is read as a range of IPv6 addresses. -/
theorem readElement_of_isV6 {entry : PyStr} (h4 : isV4 entry = false) (h : isV6 entry = true) :
    ∃ bits length, readElement entry = some (.v6 bits length) := by
  unfold isV4 isCidr at h4
  unfold isV6 isCidr at h
  unfold readElement
  cases hsplit : cidrSplit entry with
  | none => simp [hsplit] at h
  | some parts =>
    rw [hsplit] at h4 h
    exact ⟨_, _, (if_neg (by simpa using h4)).trans (if_pos h)⟩

/-- A range covers addresses of its own family only. -/
theorem covers_v4 {text : PyStr} {a : BitVec 32} (h : covers text (.v4 a) = true) :
    ∃ bits length, readElement text = some (.v4 bits length) := by
  unfold covers at h
  cases hread : readElement text with
  | none => simp [hread] at h
  | some block =>
    cases block with
    | v4 bits length => exact ⟨bits, length, rfl⟩
    | v6 bits length => simp [hread, Block.contains] at h

theorem covers_v6 {text : PyStr} {a : BitVec 128} (h : covers text (.v6 a) = true) :
    ∃ bits length, readElement text = some (.v6 bits length) := by
  unfold covers at h
  cases hread : readElement text with
  | none => simp [hread] at h
  | some block =>
    cases block with
    | v4 bits length => simp [hread, Block.contains] at h
    | v6 bits length => exact ⟨bits, length, rfl⟩

end Egress
