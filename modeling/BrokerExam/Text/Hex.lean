/-
BrokerExam/Text/Hex.lean

Bytes as pairs of lower-case hexadecimal digits.
-/
import BrokerExam.Bytes.BigEndian

namespace BrokerExam.Hex

/-- The two digits of a byte. -/
def digits (b : UInt8) : List Char :=
  [Nat.digitChar (b.toNat / 16), Nat.digitChar (b.toNat % 16)]

def ofBytes (bs : Bytes) : String := String.ofList (bs.flatMap digits)

end BrokerExam.Hex
