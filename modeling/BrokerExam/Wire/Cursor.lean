/-
BrokerExam/Wire/Cursor.lean

Reading primitive values.  A cursor stands between the bytes read and the bytes
ahead; a `RawRead` moves it.  A read that fails leaves the cursor where it was,
except that a length prefix stays read when the contents behind it are at fault.

A cursor can be confined to the bytes before an absolute offset (`confine`) and
be given back what was hidden (`release`).
-/
import BrokerExam.Wire.Error
import BrokerExam.Text.Utf8
import BrokerExam.Uuid

namespace BrokerExam

structure Cursor where
  /-- How many bytes have been read. -/
  offset : Nat
  /-- The bytes that can still be read. -/
  ahead : Bytes
  deriving DecidableEq, Repr

namespace Cursor

/-- Before the first of the bytes. -/
def start (bs : Bytes) : Cursor := ⟨0, bs⟩

/-- The offset at which the bytes that can be read end. -/
def stop (c : Cursor) : Nat := c.offset + c.ahead.length

def advance (c : Cursor) (n : Nat) : Cursor := ⟨c.offset + n, c.ahead.drop n⟩

/-- The cursor with every byte hidden from the absolute offset `stop` on. -/
def confine (c : Cursor) (stop : Nat) : Cursor := ⟨c.offset, c.ahead.take (stop - c.offset)⟩

/-- The cursor with the bytes visible again that it saw when it stood at `full`. -/
def release (c full : Cursor) : Cursor := ⟨c.offset, full.ahead.drop (c.offset - full.offset)⟩

end Cursor

/-- A read of primitive values. -/
abbrev RawRead := EStateM CodecError Cursor

namespace RawRead

/-- The next `n` bytes, called `what` in an error. -/
def take (n : Nat) (what : String) : RawRead Bytes := fun c =>
  let taken := c.ahead.take n
  if taken.length = n then .ok taken (c.advance n)
  else .error (.truncated what n c.ahead.length) c

/-- The next `k` bytes as a big-endian number. -/
def fixed (k : Nat) (what : String) : RawRead Nat := BigEndian.decode <$> take k what

def int8 : RawRead Int8 := (fun n => (UInt8.ofNat n).toInt8) <$> fixed 1 "int8"

def int16 : RawRead Int16 := (fun n => (UInt16.ofNat n).toInt16) <$> fixed 2 "int16"

def int32 : RawRead Int32 := (fun n => (UInt32.ofNat n).toInt32) <$> fixed 4 "int32"

def int64 : RawRead Int64 := (fun n => (UInt64.ofNat n).toInt64) <$> fixed 8 "int64"

def uint32 : RawRead UInt32 := UInt32.ofNat <$> fixed 4 "uint32"

def unsignedVarint : RawRead UInt64 := fun c =>
  match Varint.decode c.ahead with
  | .ok (v, used) => .ok v (c.advance used)
  | .error e => .error (.malformedVarint e) c

def varint : RawRead Int64 := fun c =>
  match Varint.decodeSigned c.ahead with
  | .ok (v, used) => .ok v (c.advance used)
  | .error e => .error (.malformedVarint e) c

def rawBytes (n : Nat) : RawRead Bytes := take n "raw bytes"

/-- The `n` bytes of a text. -/
def contents (n : Nat) : RawRead String := Utf8.decodeLossy <$> take n "string"

/-- A text behind a length that counts one more than its bytes. -/
def compactString : RawRead String := do
  let length ← unsignedVarint
  if length = 0 then throw (.invalidLength .emptyCompactString)
  else contents (length.toNat - 1)

/-- As `compactString`; a length of zero stands for null. -/
def compactNullableString : RawRead (Option String) := do
  let length ← unsignedVarint
  if length = 0 then pure none else some <$> contents (length.toNat - 1)

/-- A text behind a signed 16-bit length, of which `-1` stands for null. -/
def string : RawRead (Option String) := do
  let length ← int16
  if length = -1 then pure none
  else if length < -1 then throw (.invalidLength (.negativeString length))
  else some <$> contents length.toInt.toNat

def uuid : RawRead Uuid := Uuid.ofBytes <$> take 16 "UUID"

def boolean : RawRead Bool := do
  let v ← int8
  if v = 0 then pure false
  else if v = 1 then pure true
  else throw (.invalidValue (.boolean v))

/-- The number of tagged fields, which must be zero. -/
def tagBuffer : RawRead UInt64 := do
  let count ← unsignedVarint
  if count = 0 then pure count else throw (.unsupportedTags count)

end RawRead
end BrokerExam
