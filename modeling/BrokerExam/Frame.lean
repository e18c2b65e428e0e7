/-
BrokerExam/Frame.lean

One message as it arrives: the four bytes of its size, and the payload behind
them.
-/
import BrokerExam.Failure

namespace BrokerExam

structure Frame where
  /-- All that arrived, the size included. -/
  raw : Bytes
  deriving DecidableEq, Repr

namespace Frame

/-- How many bytes the size takes. -/
def sizeBytes : Nat := 4

/-- What is behind the size. -/
def payload (f : Frame) : Bytes := f.raw.drop sizeBytes

/-- The size that the first four bytes declare. -/
def declared (f : Frame) : Int32 := Int32.ofNat (BigEndian.decode (f.raw.take sizeBytes))

/-- The size is there and is that of the payload. -/
def checkSize (f : Frame) : Except Objection Unit :=
  if f.raw.length < sizeBytes then .error (.missingSize f.raw.length)
  else if f.declared.toInt = f.payload.length then .ok ()
  else .error (.wrongSize f.declared.toInt f.payload.length)

end Frame
end BrokerExam
