/-
BrokerExam/Bytes/Varint.lean

Variable-length integers.  A number is cut into groups of seven bits, the lowest
first; every byte but the last has its top bit set.  Signed numbers are folded
onto the unsigned ones first (`zigzag`), so that small magnitudes stay short.

A 64-bit number needs at most `maxBytes` groups.  Reading stops after that many:
the tenth group holds the bits from 63 up, and those above 63 are dropped.
-/
import BrokerExam.Bytes.BigEndian

namespace BrokerExam.Varint

/-- The longest a 64-bit number can be. -/
def maxBytes : Nat := 10

/-- Why no number could be read. -/
inductive Malformed
  /-- The bytes ended after `read` of them, all with their top bit set. -/
  | endOfData (read : Nat)
  /-- The top bit was still set in the last byte allowed. -/
  | overflow
  deriving DecidableEq, Repr

/-- `n` in at most `k` groups of seven bits. -/
def groups : Nat → Nat → Bytes
  | 0, _ => []
  | k + 1, n =>
    if n < 128 then [UInt8.ofNat n] else UInt8.ofNat (n % 128 + 128) :: groups k (n / 128)

def encode (n : UInt64) : Bytes := groups maxBytes n.toNat

/-- The number in at most `k` groups, and how many bytes it took. -/
def ungroup : Nat → Bytes → Except Malformed (Nat × Nat)
  | 0, _ => .error .overflow
  | k + 1, [] => .error (.endOfData (maxBytes - (k + 1)))
  | k + 1, b :: bs =>
    if b < 128 then .ok (b.toNat, 1)
    else match ungroup k bs with
      | .ok (n, used) => .ok (b.toNat - 128 + 128 * n, used + 1)
      | .error e => .error e

/-- The number at the front of `bs`, and how many bytes it took. -/
def decode (bs : Bytes) : Except Malformed (UInt64 × Nat) :=
  match ungroup maxBytes bs with
  | .ok (n, used) => .ok (UInt64.ofNat n, used)
  | .error e => .error e

/-! ### Signed numbers -/

/-- The place of `n` in the sequence `0, -1, 1, -2, 2, …`. -/
def zigzag (n : Int64) : UInt64 :=
  UInt64.ofNat (if 0 ≤ n.toInt then 2 * n.toInt.toNat else 2 * (-n.toInt).toNat - 1)

/-- The number at place `u` of that sequence. -/
def unzigzag (u : UInt64) : Int64 :=
  Int64.ofInt (if u.toNat % 2 = 0 then (u.toNat / 2 : Nat) else -((u.toNat / 2 : Nat) : Int) - 1)

def encodeSigned (n : Int64) : Bytes := encode (zigzag n)

def decodeSigned (bs : Bytes) : Except Malformed (Int64 × Nat) :=
  match decode bs with
  | .ok (u, used) => .ok (unzigzag u, used)
  | .error e => .error e

end BrokerExam.Varint
