/-
BrokerExam/Proofs/Wire/Kind.lean

Kinds of field that hold any value.  The bytes written for a value of a plain
kind are read as that value, and they are never none at all.  A text behind a
signed 16-bit length, a tag buffer and raw bytes are not plain: they hold only
some of their values.

Main results: `Plain.takes` and `Plain.isLocal`.
-/
import BrokerExam.Proofs.Wire.RawRead

namespace BrokerExam.Kind

variable {α : Type} {kind : Kind α}

/-- The bytes written for `a` are read as `a`. -/
def Takes (kind : Kind α) (a : α) : Prop := kind.read.Reads (kind.value a).bytes a

inductive Plain : {α : Type} → Kind α → Prop
  | int8 : Plain int8
  | int16 : Plain int16
  | int32 : Plain int32
  | int64 : Plain int64
  | uint32 : Plain uint32
  | unsignedVarint : Plain unsignedVarint
  | varint : Plain varint
  | compactString : Plain compactString
  | compactNullableString : Plain compactNullableString
  | uuid : Plain uuid
  | boolean : Plain boolean
  | compactArrayLength : Plain compactArrayLength
  | compactRecordSize : Plain compactRecordSize

theorem length_compactBytes (s : String) :
    (Utf8.encode s).length < (Value.compactBytes s).length := by
  have prefixed := Varint.length_encode_pos (UInt64.ofNat ((Utf8.encode s).length + 1))
  rw [Value.compactBytes, List.length_append]
  omega

/-- A plain kind reads back whatever was written, as long as there can be so many bytes. -/
theorem Plain.takes (h : kind.Plain) {a : α}
    (fits : (kind.value a).bytes.length < 0x8000000000000000) : kind.Takes a := by
  cases h with
  | int8 => exact RawRead.reads_int8 a
  | int16 => exact RawRead.reads_int16 a
  | int32 => exact RawRead.reads_int32 a
  | int64 => exact RawRead.reads_int64 a
  | uint32 => exact RawRead.reads_uint32 a
  | unsignedVarint => exact RawRead.reads_unsignedVarint a
  | varint => exact RawRead.reads_varint a
  | compactString =>
    exact RawRead.reads_compactString (Nat.lt_trans (length_compactBytes a) fits)
  | compactNullableString =>
    apply RawRead.reads_compactNullableString
    rintro s rfl
    exact Nat.lt_trans (length_compactBytes s) fits
  | uuid => exact RawRead.reads_uuid a
  | boolean => exact RawRead.reads_boolean a
  | compactArrayLength => exact RawRead.reads_unsignedVarint a
  | compactRecordSize => exact RawRead.reads_unsignedVarint a

theorem Plain.isLocal (h : kind.Plain) : kind.read.Local := by
  cases h with
  | int8 => exact RawRead.int8_isLocal
  | int16 => exact RawRead.int16_isLocal
  | int32 => exact RawRead.int32_isLocal
  | int64 => exact (RawRead.fixed_isLocal 8 "int64").map _
  | uint32 => exact (RawRead.fixed_isLocal 4 "uint32").map _
  | unsignedVarint => exact RawRead.unsignedVarint_isLocal
  | varint => exact RawRead.varint_isLocal
  | compactString => exact RawRead.compactString_isLocal
  | compactNullableString => exact RawRead.compactNullableString_isLocal
  | uuid => exact RawRead.uuid_isLocal
  | boolean => exact RawRead.boolean_isLocal
  | compactArrayLength => exact RawRead.unsignedVarint_isLocal
  | compactRecordSize => exact RawRead.unsignedVarint_isLocal

theorem Plain.overlong?_eq_none (h : kind.Plain) (a : α) : (kind.value a).overlong? = none := by
  cases h <;> rfl

/-- Every value of a plain kind takes at least one byte. -/
theorem Plain.length_pos (h : kind.Plain) (a : α) : 0 < (kind.value a).bytes.length := by
  have compact (s : String) : 0 < (Value.compactBytes s).length :=
    Nat.lt_of_le_of_lt (Nat.zero_le _) (length_compactBytes s)
  have fixed (k n : Nat) : 0 < (BigEndian.encode (k + 1) n).length := by
    rw [BigEndian.length_encode]
    exact Nat.succ_pos k
  cases h with
  | int8 => exact fixed 0 _
  | int16 => exact fixed 1 _
  | int32 => exact fixed 3 _
  | int64 => exact fixed 7 _
  | uint32 => exact fixed 3 _
  | unsignedVarint => exact Varint.length_encode_pos a
  | varint => exact Varint.length_encode_pos (Varint.zigzag a)
  | compactString => exact compact a
  | compactNullableString =>
    cases a with
    | none => exact Varint.length_encode_pos 0
    | some s => exact compact s
  | compactArrayLength => exact Varint.length_encode_pos a
  | compactRecordSize => exact Varint.length_encode_pos a
  | uuid => exact fixed 15 _
  | boolean => exact Nat.succ_pos 0

end BrokerExam.Kind
