/-
BrokerExam/Proofs/Metadata/Reading.lean

Which bytes are read as a payload.  A record looks at no byte behind it and is of the
type that it is read for, so that a payload is accepted exactly if its bytes are the
three in front and what its record is read from.

Main results: `MetadataRecord.read_isLocal`, `MetadataRecord.read_yields` and
`MetadataPayload.decode_eq_ok_iff`.
-/
import Mathlib.Tactic.SplitIfs
import BrokerExam.Metadata.Payload
import BrokerExam.Proofs.Wire.RawRead

namespace BrokerExam

open RawRead

namespace MetadataRecord

/-! ### Arrays -/

section Arrays

variable {α : Type} {element : RawRead α}

theorem readMany_isLocal (h : element.Local) (count : Nat) : (readMany element count).Local := by
  induction count with
  | zero => exact .pure []
  | succ count ih => exact h.bind fun _ => ih.bind fun _ => .pure _

theorem readArray_isLocal (h : element.Local) : (readArray element).Local :=
  unsignedVarint_isLocal.bind fun _ => readMany_isLocal h _

end Arrays

/-! ### Tagged fields -/

/-- The value of a field: under tag zero a name, and otherwise as many bytes as are declared. -/
def readValue (tag size : UInt64) (given : Option String) : RawRead (Option String) :=
  if tag = 0 then some <$> RawRead.compactString
  else (fun _ => given) <$> RawRead.rawBytes size.toNat

/-- One tagged field. -/
def readField (given : Option String) : RawRead (Option String) := do
  let tag ← RawRead.unsignedVarint
  let size ← RawRead.unsignedVarint
  readValue tag size given

theorem readTags_succ (count : Nat) (given : Option String) :
    readTags (count + 1) given = readField given >>= readTags count := by
  rw [readTags, readField, bind_assoc]
  refine bind_congr fun tag => ?_
  rw [bind_assoc]
  refine bind_congr fun size => ?_
  rw [readValue]
  split
  · rw [map_eq_pure_bind, bind_assoc]
    simp only [pure_bind]
  · rw [map_eq_pure_bind, bind_assoc]
    simp only [pure_bind]

theorem readValue_isLocal (tag size : UInt64) (given : Option String) :
    (readValue tag size given).Local := by
  rw [readValue]
  split
  · exact compactString_isLocal.map _
  · exact (take_isLocal _ _).map _

theorem readField_isLocal (given : Option String) : (readField given).Local :=
  unsignedVarint_isLocal.bind fun _ => unsignedVarint_isLocal.bind fun _ => readValue_isLocal _ _ _

theorem readTags_isLocal (count : Nat) (given : Option String) : (readTags count given).Local := by
  induction count generalizing given with
  | zero => exact .pure given
  | succ count ih =>
    rw [readTags_succ]
    exact (readField_isLocal given).bind ih

/-! ### Records -/

/-- A record is read from its own bytes alone. -/
theorem read_isLocal (type : Int8) : (read type).Local := by
  have int32s := readArray_isLocal int32_isLocal
  have tags {α : Type} (a : α) : (RawRead.tagBuffer >>= fun _ => pure a).Local :=
    tagBuffer_isLocal.bind fun _ => .pure a
  rw [read]
  split_ifs
  · exact compactString_isLocal.bind fun _ => uuid_isLocal.bind fun _ => tags _
  · refine int32_isLocal.bind fun _ => uuid_isLocal.bind fun _ => ?_
    refine int32s.bind fun _ => int32s.bind fun _ => int32s.bind fun _ => int32s.bind fun _ => ?_
    refine int32_isLocal.bind fun _ => int32_isLocal.bind fun _ => int32_isLocal.bind fun _ => ?_
    exact (readArray_isLocal uuid_isLocal).bind fun _ => tags _
  · exact compactString_isLocal.bind fun _ => int16_isLocal.bind fun _ => tags _
  · exact int8_isLocal.bind fun _ => tags _
  · exact unsignedVarint_isLocal.bind fun _ => (readTags_isLocal _ _).bind fun _ => .pure _
  · exact tags _
  · exact .throw _

/-- A record that is read is of the type that it is read for. -/
theorem read_yields (type : Int8) : (read type).Yields fun r => r.type = type := by
  rw [read]
  split_ifs with topic partition level migration begins ends
  · exact .bind fun _ => .bind fun _ => .bind fun _ => .pure topic.symm
  · refine .bind fun _ => .bind fun _ => ?_
    refine .bind fun _ => .bind fun _ => .bind fun _ => .bind fun _ => ?_
    refine .bind fun _ => .bind fun _ => .bind fun _ => ?_
    exact .bind fun _ => .bind fun _ => .pure partition.symm
  · exact .bind fun _ => .bind fun _ => .bind fun _ => .pure level.symm
  · exact .bind fun _ => .bind fun _ => .pure migration.symm
  · exact .bind fun _ => .bind fun _ => .pure begins.symm
  · exact .bind fun _ => .pure ends.symm
  · exact .throw _

end MetadataRecord

namespace MetadataPayload

/-! ### Payloads -/

/-- The reading of a payload, without the complaint about what is behind it. -/
def contents : RawRead MetadataPayload := do
  let frameVersion ← RawRead.int8
  let type ← RawRead.int8
  let version ← RawRead.int8
  mk frameVersion version <$> MetadataRecord.read type

theorem contents_isLocal : contents.Local :=
  int8_isLocal.bind fun _ => int8_isLocal.bind fun type => int8_isLocal.bind fun _ =>
    (MetadataRecord.read_isLocal type).map _

/-- The three bytes in front are read, and the record of the type among them. -/
theorem reads_contents_iff {u : Bytes} {p : MetadataPayload} : contents.Reads u p ↔
    ∃ v, u = p.frameVersion.toUInt8 :: p.data.type.toUInt8 :: p.version.toUInt8 :: v ∧
      (MetadataRecord.read p.data.type).Reads v p.data := by
  constructor
  · intro h
    obtain ⟨frameVersion, _, _, rfl, first, h⟩ := int8_isLocal.reads_of_bind
      (fun _ => int8_isLocal.bind fun type => int8_isLocal.bind fun _ =>
        (MetadataRecord.read_isLocal type).map _) h
    obtain ⟨type, _, _, rfl, second, h⟩ := int8_isLocal.reads_of_bind
      (fun type => int8_isLocal.bind fun _ => (MetadataRecord.read_isLocal type).map _) h
    obtain ⟨version, _, _, rfl, third, h⟩ := int8_isLocal.reads_of_bind
      (fun _ => (MetadataRecord.read_isLocal type).map _) h
    obtain ⟨data, record, rfl⟩ := (MetadataRecord.read_isLocal type).reads_of_map h
    obtain rfl : data.type = type := MetadataRecord.read_yields type _ _ _ (record 0 [])
    obtain rfl := reads_int8_iff.1 first
    obtain rfl := reads_int8_iff.1 second
    obtain rfl := reads_int8_iff.1 third
    exact ⟨_, rfl, record⟩
  · rintro ⟨v, rfl, record⟩
    exact Reads.bind (reads_int8_iff.2 rfl) (Reads.bind (reads_int8_iff.2 rfl)
      (Reads.bind (reads_int8_iff.2 rfl) (record.map (mk p.frameVersion p.version))))

theorem read_eq : read = contents >>= fun p => do
    let left := (← get).ahead.length
    if left ≠ 0 then throw (.invalidLength (.trailingMetadata left)) else return p := by
  rw [read, contents]
  simp only [bind_assoc, map_eq_pure_bind, pure_bind]

/-- **A payload is read** from the three bytes in front and those of its record, all of them. -/
theorem decode_eq_ok_iff {bs : Bytes} {p : MetadataPayload} :
    decode bs = .ok p ↔ contents.Reads bs p := by
  have decoded : decode bs = .ok p ↔ ∃ c, read (Cursor.start bs) = .ok p c := by
    rw [decode]
    cases read (Cursor.start bs) with
    | ok q c => simp
    | error e c => simp
  rw [decoded, read_eq]
  constructor
  · rintro ⟨c, run⟩
    obtain ⟨q, c', front, finish⟩ := ok_of_bind run
    obtain ⟨_, _, here, finish⟩ := ok_of_bind finish
    obtain ⟨rfl, rfl⟩ := EStateM.Result.ok.inj here
    dsimp only at finish
    split at finish
    · cases finish
    · next whole =>
      obtain ⟨rfl, rfl⟩ := EStateM.Result.ok.inj finish
      have whole := List.eq_nil_of_length_eq_zero (Decidable.not_not.1 whole)
      exact contents_isLocal.reads_of_run front whole
  · intro h
    have run := h 0 []
    rw [List.append_nil] at run
    exact ⟨_, bind_of_ok run⟩

end MetadataPayload
end BrokerExam
