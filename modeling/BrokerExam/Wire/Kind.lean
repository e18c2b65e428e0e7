/-
BrokerExam/Wire/Kind.lean

The kinds of primitive field.  A kind says how a value is read and as which
`Value` it is recorded; the bytes written for it are those of that value
(`Value.bytes`).  A checksum is read unsigned and recorded as its signed bit
pattern, and a tag buffer is recorded as its count.
-/
import BrokerExam.Wire.Cursor
import BrokerExam.Field.Basic

namespace BrokerExam

structure Kind (α : Type) where
  read : RawRead α
  value : α → Value

namespace Kind

def int8 : Kind Int8 := ⟨RawRead.int8, .int8⟩
def int16 : Kind Int16 := ⟨RawRead.int16, .int16⟩
def int32 : Kind Int32 := ⟨RawRead.int32, .int32⟩
def int64 : Kind Int64 := ⟨RawRead.int64, .int64⟩
def uint32 : Kind UInt32 := ⟨RawRead.uint32, fun v => .int32 v.toInt32⟩
def unsignedVarint : Kind UInt64 := ⟨RawRead.unsignedVarint, .unsignedVarint⟩
def varint : Kind Int64 := ⟨RawRead.varint, .varint⟩
def compactString : Kind String := ⟨RawRead.compactString, .compactString⟩
def compactNullableString : Kind (Option String) :=
  ⟨RawRead.compactNullableString, .compactNullableString⟩
def string : Kind (Option String) := ⟨RawRead.string, .string⟩
def uuid : Kind Uuid := ⟨RawRead.uuid, .uuid⟩
def boolean : Kind Bool := ⟨RawRead.boolean, .boolean⟩
def rawBytes (n : Nat) : Kind Bytes := ⟨RawRead.rawBytes n, .rawBytes⟩
def compactArrayLength : Kind UInt64 := ⟨RawRead.unsignedVarint, .compactArrayLength⟩
def compactRecordSize : Kind UInt64 := ⟨RawRead.unsignedVarint, .compactRecordSize⟩
def tagBuffer : Kind UInt64 := ⟨RawRead.tagBuffer, .unsignedVarint⟩

end Kind

/-- The segment under which every tag buffer is recorded. -/
def tagBufferSegment : String := "TAG_BUFFER"

/-- The segment of the element at index `i` of the array `name`. -/
def indexed (name : String) (i : Nat) : String := s!"{name}[{i}]"

end BrokerExam
