/-
BrokerExam/Uuid.lean

Universally unique identifiers: 128 bits, sixteen bytes on the wire, and in text
thirty-two hexadecimal digits in groups of 8, 4, 4, 4 and 12.
-/
import BrokerExam.Text.Hex

namespace BrokerExam

structure Uuid where
  bits : BitVec 128
  deriving DecidableEq, Repr

namespace Uuid

/-- The identifier of all zeros, which stands for "no topic". -/
def nil : Uuid := ⟨0⟩

instance : Inhabited Uuid := ⟨nil⟩

def toBytes (u : Uuid) : Bytes := BigEndian.encode 16 u.bits.toNat

/-- The identifier that sixteen bytes spell. -/
def ofBytes (bs : Bytes) : Uuid := ⟨BitVec.ofNat 128 (BigEndian.decode bs)⟩

theorem ofBytes_toBytes (u : Uuid) : ofBytes u.toBytes = u := by
  cases u with
  | mk bits =>
    simp only [ofBytes, toBytes, BigEndian.decode_encode]
    congr 1
    apply BitVec.eq_of_toNat_eq
    have all : BigEndian.span 16 = 340282366920938463463374607431768211456 := rfl
    simp [all, Nat.mod_eq_of_lt bits.isLt]

/-- A random (version 4) identifier made of the given bits: the version and variant bits are
fixed, the rest is taken as it is. -/
def ofRandom (bits : BitVec 128) : Uuid :=
  let keep : BitVec 128 := 0xFFFFFFFFFFFF0FFF3FFFFFFFFFFFFFFF
  ⟨(bits &&& keep) ||| 0x00000000000040008000000000000000⟩

def text (u : Uuid) : String :=
  let bs := u.toBytes
  "-".intercalate [Hex.ofBytes (bs.take 4), Hex.ofBytes ((bs.drop 4).take 2),
    Hex.ofBytes ((bs.drop 6).take 2), Hex.ofBytes ((bs.drop 8).take 2), Hex.ofBytes (bs.drop 10)]

instance : ToString Uuid := ⟨text⟩

end Uuid
end BrokerExam
