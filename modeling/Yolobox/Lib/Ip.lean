/-
# IP addresses and address blocks
-/
import Mathlib

/-- An address, by value: one address has one spelling. -/
inductive Addr
  | v4 (bits : BitVec 32)
  | v6 (bits : BitVec 128)
  deriving DecidableEq, Repr

namespace Addr

/-- The dotted quad `a.b.c.d`. -/
def quad (a b c d : ℕ) : Addr := .v4 (BitVec.ofNat 32 (((a * 256 + b) * 256 + c) * 256 + d))

/-- `0.0.0.0` or `::`. -/
def isUnspecified : Addr → Bool
  | .v4 bits => bits == 0
  | .v6 bits => bits == 0

/-- `127.0.0.1`. -/
def loopback4 : Addr := quad 127 0 0 1

/-- `::1`. -/
def loopback6 : Addr := .v6 1

end Addr

/-- The addresses that share the first `length` bits of `bits`. -/
inductive Block
  | v4 (bits : BitVec 32) (length : ℕ)
  | v6 (bits : BitVec 128) (length : ℕ)
  deriving DecidableEq, Repr

namespace Block

def contains : Block → Addr → Bool
  | .v4 bits length, .v4 a => a >>> (32 - length) == bits >>> (32 - length)
  | .v6 bits length, .v6 a => a >>> (128 - length) == bits >>> (128 - length)
  | _, _ => false

/-- A block of full length is one address. -/
@[simp] theorem contains_host_v4 (bits : BitVec 32) (a : Addr) :
    (Block.v4 bits 32).contains a = true ↔ a = .v4 bits := by
  cases a <;> simp [contains]

end Block
