/-
BrokerExam/Field/Value.lean

The typed values that cross the wire, the bytes each of them takes, and the text
in which a report shows them.

Compact array lengths and record sizes keep the number that is on the wire,
which is one more than the length: `0` stands for null and `1` for empty.
-/
import BrokerExam.Bytes.Varint
import BrokerExam.Text.Utf8
import BrokerExam.Uuid

namespace BrokerExam

inductive ValueType
  | int8 | int16 | int32 | int64 | unsignedVarint | varint
  | compactString | compactNullableString | compactArrayLength | compactRecordSize
  | rawBytes | uuid | boolean | string
  deriving DecidableEq, Repr

namespace ValueType

def name : ValueType → String
  | int8 => "INT8"
  | int16 => "INT16"
  | int32 => "INT32"
  | int64 => "INT64"
  | unsignedVarint => "UNSIGNED_VARINT"
  | varint => "VARINT"
  | compactString => "COMPACT_STRING"
  | compactNullableString => "COMPACT_NULLABLE_STRING"
  | compactArrayLength => "COMPACT_ARRAY_LENGTH"
  | compactRecordSize => "COMPACT_RECORD_SIZE"
  | rawBytes => "RAW_BYTES"
  | uuid => "UUID"
  | boolean => "BOOLEAN"
  | string => "STRING"

instance : ToString ValueType := ⟨name⟩

end ValueType

inductive Value
  | int8 (v : Int8)
  | int16 (v : Int16)
  | int32 (v : Int32)
  | int64 (v : Int64)
  | unsignedVarint (v : UInt64)
  | varint (v : Int64)
  | compactString (v : String)
  | compactNullableString (v : Option String)
  | compactArrayLength (raw : UInt64)
  | compactRecordSize (raw : UInt64)
  | rawBytes (v : Bytes)
  | uuid (v : Uuid)
  | boolean (v : Bool)
  | string (v : Option String)
  deriving DecidableEq, Repr

namespace Value

def type : Value → ValueType
  | int8 _ => .int8
  | int16 _ => .int16
  | int32 _ => .int32
  | int64 _ => .int64
  | unsignedVarint _ => .unsignedVarint
  | varint _ => .varint
  | compactString _ => .compactString
  | compactNullableString _ => .compactNullableString
  | compactArrayLength _ => .compactArrayLength
  | compactRecordSize _ => .compactRecordSize
  | rawBytes _ => .rawBytes
  | uuid _ => .uuid
  | boolean _ => .boolean
  | string _ => .string

/-! ### Bytes -/

/-- A text behind a length that counts one more than its bytes. -/
def compactBytes (s : String) : Bytes :=
  let contents := Utf8.encode s
  Varint.encode (UInt64.ofNat (contents.length + 1)) ++ contents

/-- The bytes of a value on the wire. -/
def bytes : Value → Bytes
  | int8 v => BigEndian.encode 1 v.toUInt8.toNat
  | int16 v => BigEndian.encode 2 v.toUInt16.toNat
  | int32 v => BigEndian.encode 4 v.toUInt32.toNat
  | int64 v => BigEndian.encode 8 v.toUInt64.toNat
  | unsignedVarint v => Varint.encode v
  | varint v => Varint.encodeSigned v
  | compactString v => compactBytes v
  | compactNullableString none => Varint.encode 0
  | compactNullableString (some v) => compactBytes v
  | compactArrayLength raw => Varint.encode raw
  | compactRecordSize raw => Varint.encode raw
  | rawBytes v => v
  | uuid v => v.toBytes
  | boolean v => [if v then 1 else 0]
  | string none => BigEndian.encode 2 (-1 : Int16).toUInt16.toNat
  | string (some v) =>
    let contents := Utf8.encode v
    BigEndian.encode 2 contents.length ++ contents

/-- The most bytes of a text that a signed 16-bit length can count. -/
def maxStringBytes : Nat := 32767

/-- The length of a text that is too long for the signed 16 bits in front of it. -/
def overlong? : Value → Option Nat
  | string (some v) =>
    let n := (Utf8.encode v).length
    if maxStringBytes < n then some n else none
  | _ => none

/-! ### Text -/

/-- Null and empty are told apart from every other text. -/
def showText : Option String → String
  | none => "NULL"
  | some "" => "\"\""
  | some s => s

/-- A length on the wire, with what it stands for. -/
def showLength (raw : UInt64) (what label : String) : String :=
  if raw = 0 then s!"0 (NULL {what})"
  else if raw = 1 then s!"1 (EMPTY {what})"
  else s!"{raw} ({label}({raw - 1}) + 1)"

/-- Bytes as numbers and as text. -/
def showBytes (bs : Bytes) : String :=
  let numbers := ", ".intercalate (bs.map fun b => toString b.toNat)
  s!"[{numbers}] -> UTF-8: ({Utf8.decodeLossy bs})"

def display : Value → String
  | int8 v => toString v.toInt
  | int16 v => toString v.toInt
  | int32 v => toString v.toInt
  | int64 v => toString v.toInt
  | unsignedVarint v => toString v.toNat
  | varint v => toString v.toInt
  | compactString v => showText (some v)
  | compactNullableString v => showText v
  | compactArrayLength raw => showLength raw "ARRAY" "Array length"
  | compactRecordSize raw => showLength raw "RECORD" "Record size"
  | rawBytes v => showBytes v
  | uuid v => v.text
  | boolean true => "True"
  | boolean false => "False"
  | string v => showText v

end Value
end BrokerExam
