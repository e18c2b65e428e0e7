/-
BrokerExam/Bytes/Crc32c.lean

CRC-32C (Castagnoli), bit by bit.  The register holds the remainder with its
lowest bit first; one step shifts it down and, if a bit fell out, adds the
reflected polynomial.  The register starts as all ones and is inverted at the
end.
-/
import BrokerExam.Bytes.BigEndian

namespace BrokerExam.Crc32c

/-- The reflected Castagnoli polynomial. -/
def polynomial : UInt32 := 0x82F63B78

/-- One bit of the division. -/
def shift (r : UInt32) : UInt32 :=
  if r &&& 1 = 1 then (r >>> 1) ^^^ polynomial else r >>> 1

/-- One byte of the division. -/
def step (r : UInt32) (b : UInt8) : UInt32 :=
  let r := r ^^^ b.toUInt32
  shift (shift (shift (shift (shift (shift (shift (shift r)))))))

/-- The register after `bs`, from register `r`. -/
def run (r : UInt32) (bs : Bytes) : UInt32 := bs.foldl step r

end BrokerExam.Crc32c

namespace BrokerExam

/-- The checksum of a byte string. -/
def crc32c (bs : Bytes) : UInt32 := ~~~ Crc32c.run 0xFFFFFFFF bs

end BrokerExam
