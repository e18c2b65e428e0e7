/-
BrokerExam/Batch/Record.lean

Records and their headers.  Inside a record every number is a varint, null is a
length of `-1`, and the whole is preceded by the number of bytes it takes.
-/
import BrokerExam.Wire.Codec

namespace BrokerExam

structure RecordHeader where
  key : String
  value : Option Bytes
  deriving DecidableEq, Repr, Inhabited

structure Record where
  attributes : Int8 := 0
  timestampDelta : Int64 := 0
  /-- Written as the index of the record within its batch. -/
  offsetDelta : Int32 := 0
  key : Option Bytes := none
  value : Option Bytes := none
  headers : List RecordHeader := []
  deriving DecidableEq, Repr, Inhabited

/-! ### Codecs of the parts -/

namespace Codec

/-- Bytes behind a varint length, of which `-1` stands for null. -/
def varintBytes (lengthSegment segment : String) : Codec (Option Bytes) (Option Bytes) :=
  { write := fun
      | none => (none, Encoding.leaf lengthSegment (.varint (-1)))
      | some bs =>
        (some bs, Encoding.leaf lengthSegment (.varint (Int64.ofNat bs.length))
          ++ Encoding.leaf segment (.rawBytes bs))
    read := do
      let (length, anchor) ← FieldRead.anchored lengthSegment Kind.varint
      if length = -1 then pure none
      else if length < -1 then
        throw (anchor.error (.invalidLength (.negative lengthSegment length)))
      else some <$> FieldRead.field segment (Kind.rawBytes length.toInt.toNat) }

/-- Elements behind a varint count, each below its index; `-1` stands for null and reads as
empty. -/
def varintArray {α β : Type} (lengthSegment name : String) (element : Codec α β) :
    Codec (List α) (List β) :=
  { write := fun as =>
      let (bs, es) := element.writeItems as
      (bs, Encoding.leaf lengthSegment (.varint (Int64.ofNat as.length))
        ++ Encoding.items name es)
    read := do
      let (length, anchor) ← FieldRead.anchored lengthSegment Kind.varint
      if length < -1 then
        throw (anchor.error (.invalidLength (.negative lengthSegment length)))
      else
        FieldRead.repeated (fun i => FieldRead.scope (indexed name i) element.read)
          length.toInt.toNat 0 }

/-- What `c` writes, behind the number of its bytes as a varint. -/
def sized {α β : Type} (segment : String) (c : Codec α β) : Codec α β :=
  { write := fun a =>
      let (b, e) := c.write a
      (b, Encoding.leaf segment (.varint (Int64.ofNat (Encoding.bytes e).length)) ++ e)
    read := do
      let (declared, anchor) ← FieldRead.anchored segment Kind.varint
      let start ← FieldRead.offset
      let b ← c.read
      let actual := (← FieldRead.offset) - start
      if declared.toInt = actual then pure b
      else throw (anchor.error (.batchSizeMismatch (.record actual declared))) }

/-- A signed 32-bit number written as a varint. -/
def narrowVarint (segment : String) : Codec Int32 Int32 :=
  { write := fun v => (v, Encoding.leaf segment (.varint v.toInt64))
    read := do
      let (v, anchor) ← FieldRead.anchored segment Kind.varint
      if v.toInt32.toInt64 = v then pure v.toInt32
      else throw (anchor.error (.invalidValue (.offsetDelta v))) }

end Codec

/-! ### Records -/

/-- A header with a value. -/
def RecordHeader.of (key : String) (value : Bytes) : RecordHeader := ⟨key, some value⟩

/-- A key is text, written as its bytes; null reads as empty. -/
def RecordHeader.codec : Codec RecordHeader RecordHeader := do
  let key ← (Codec.varintBytes "KeyLength" "Key").on fun h => some (Utf8.encode h.key)
  let value ← (Codec.varintBytes "ValueLength" "Value").on (·.value)
  return { key := (key.map Utf8.decodeLossy).getD "", value }

namespace Record

/-- A record without a key. -/
def ofValue (value : Bytes) : Record := { value := some value }

/-- The record without its size. -/
def contents : Codec Record Record := do
  let attributes ← (Codec.int8 "Attributes").on (·.attributes)
  let timestampDelta ← (Codec.varint "TimestampDelta").on (·.timestampDelta)
  let offsetDelta ← (Codec.narrowVarint "OffsetDelta").on (·.offsetDelta)
  let key ← (Codec.varintBytes "KeyLength" "Key").on (·.key)
  let value ← (Codec.varintBytes "ValueLength" "Value").on (·.value)
  let headers ← (Codec.varintArray "HeadersLength" "Headers" RecordHeader.codec).on (·.headers)
  return { attributes, timestampDelta, offsetDelta, key, value, headers }

def codec : Codec Record Record := Codec.sized "Size" contents

end Record
end BrokerExam
