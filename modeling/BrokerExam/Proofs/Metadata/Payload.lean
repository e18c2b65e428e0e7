/-
BrokerExam/Proofs/Metadata/Payload.lean

Cluster metadata records read back.  A payload is a row of values, and reading it
is a row of primitive reads:

    ReadsValues r vs a

says that `r` takes the bytes of the values `vs`, one after the other, for `a`.
For each kind of record the values that are written are those that are read
(`MetadataRecord.reads_values`); what is behind the last of them is complained of.

Main result: `metadata_roundTrip`.
-/
import BrokerExam.Metadata.Payload
import BrokerExam.Proofs.Wire.Arrays

namespace BrokerExam

namespace RawRead

variable {α β : Type} {r : RawRead α} {f : α → RawRead β} {a : α} {b : β} {v : Value}
  {vs ws : List Value}

/-- `r` takes the bytes of the values, one after the other, for `a`. -/
def ReadsValues (r : RawRead α) (vs : List Value) (a : α) : Prop :=
  r.Reads (vs.flatMap Value.bytes) a

namespace ReadsValues

theorem pure (a : α) : ReadsValues (Pure.pure a) [] a := Reads.pure a

theorem cons (hr : r.Reads v.bytes a) (hf : ReadsValues (f a) vs b) :
    ReadsValues (r >>= f) (v :: vs) b := Reads.bind hr hf

theorem append (hr : ReadsValues r vs a) (hf : ReadsValues (f a) ws b) :
    ReadsValues (r >>= f) (vs ++ ws) b := by
  rw [ReadsValues, List.flatMap_append]
  exact Reads.bind hr hf

theorem bind_pure (hr : ReadsValues r vs a) (g : α → β) :
    ReadsValues (r >>= fun a => Pure.pure (g a)) vs (g a) := by
  have whole := hr.append (f := fun a => Pure.pure (g a)) (pure (g a))
  rwa [List.append_nil] at whole

/-- No tagged fields are written at the end of a record. -/
theorem noTags (b : β) :
    ReadsValues (tagBuffer >>= fun _ => Pure.pure b) [MetadataRecord.noTags] b :=
  cons reads_tagBuffer (pure b)

end ReadsValues
end RawRead

namespace MetadataRecord

open RawRead

/-! ### Arrays -/

section Arrays

variable {α : Type} {element : RawRead α} {value : α → Value}

theorem reads_many (each : ∀ a, element.Reads (value a).bytes a) (as : List α) :
    ReadsValues (readMany element as.length) (as.map value) as := by
  induction as with
  | nil => exact .pure []
  | cons a as ih => exact .cons (each a) (ih.bind_pure (a :: ·))

/-- The length in front counts one more than the elements. -/
theorem reads_array (each : ∀ a, element.Reads (value a).bytes a) {as : List α}
    (few : as.length < 0x8000000000000000) :
    ReadsValues (readArray element) (arrayValues (as.map value)) as := by
  obtain ⟨-, counts⟩ := compactLength_counts few
  rw [arrayValues, List.length_map]
  refine .cons (reads_unsignedVarint _) ?_
  rw [counts]
  exact reads_many each as

/-- An array has no more elements than bytes. -/
theorem length_le_arrayValues (some : ∀ a, 0 < (value a).bytes.length) (as : List α) :
    as.length ≤ ((arrayValues (as.map value)).flatMap Value.bytes).length := by
  have few : as.length ≤ (as.flatMap fun a => (value a).bytes).length :=
    length_le_flatMap fun a _ => some a
  rw [arrayValues, List.flatMap_cons, List.length_append, List.flatMap_map]
  exact Nat.le_trans few (Nat.le_add_left _ _)

end Arrays

/-! ### Records -/

/-- A text is shorter than a row of values of which it takes some bytes. -/
theorem short_of_mem {s : String} {v : Value} {vs : List Value} {n : Nat}
    (fits : (vs.flatMap Value.bytes).length < n) (h : v ∈ vs)
    (text : v.bytes = Value.compactBytes s) : (Utf8.encode s).length < n := by
  have part : v.bytes.Sublist (vs.map Value.bytes).flatten :=
    List.sublist_flatten_of_mem (List.mem_map_of_mem h)
  rw [List.flatMap_def] at fits
  calc (Utf8.encode s).length
    _ < (Value.compactBytes s).length := Kind.length_compactBytes s
    _ = v.bytes.length := by rw [text]
    _ ≤ (vs.map Value.bytes).flatten.length := part.length_le
    _ < n := fits

theorem reads_partition (r : PartitionRecord)
    (fits : ((partition r).values.flatMap Value.bytes).length < 0x8000000000000000) :
    ReadsValues (read 3) (partition r).values (partition r) := by
  have four (v : Int32) : 0 < (Value.int32 v).bytes.length := by
    rw [Value.bytes, BigEndian.length_encode]
    decide
  have sixteen (u : Uuid) : 0 < (Value.uuid u).bytes.length := by
    rw [Value.bytes, Uuid.toBytes, BigEndian.length_encode]
    decide
  have replicas := length_le_arrayValues four r.replicas
  have isr := length_le_arrayValues four r.isr
  have removing := length_le_arrayValues four r.removingReplicas
  have adding := length_le_arrayValues four r.addingReplicas
  have directories := length_le_arrayValues sixteen r.directories
  simp only [values, List.flatMap_append, List.length_append] at fits
  -- the arrays are read in the order in which they are written
  have row : ReadsValues (read 3) (.int32 r.partitionId :: .uuid r.topicUuid ::
      (arrayValues (r.replicas.map .int32) ++ (arrayValues (r.isr.map .int32) ++
      (arrayValues (r.removingReplicas.map .int32) ++ (arrayValues (r.addingReplicas.map .int32) ++
      (.int32 r.leader :: .int32 r.leaderEpoch :: .int32 r.partitionEpoch ::
      (arrayValues (r.directories.map .uuid) ++ [noTags])))))))
      (partition r) := by
    refine .cons (reads_int32 r.partitionId) (.cons (reads_uuid r.topicUuid) ?_)
    refine .append (reads_array reads_int32 (by omega)) ?_
    refine .append (reads_array reads_int32 (by omega)) ?_
    refine .append (reads_array reads_int32 (by omega)) ?_
    refine .append (reads_array reads_int32 (by omega)) ?_
    refine .cons (reads_int32 r.leader) (.cons (reads_int32 r.leaderEpoch) ?_)
    refine .cons (reads_int32 r.partitionEpoch) ?_
    exact .append (reads_array reads_uuid (by omega)) (.noTags _)
  simpa only [values, List.append_assoc, List.cons_append, List.nil_append] using row

/-- The one tagged field is the name, behind its tag and its size. -/
theorem reads_name {name : String} (short : (Utf8.encode name).length < 0x8000000000000000)
    (size : UInt64) : ReadsValues (readTags 1 none)
      [.unsignedVarint 0, .unsignedVarint size, .rawBytes (Value.compactBytes name)]
      (some name) := by
  have given : ReadsValues (RawRead.compactString >>= fun given => readTags 0 (some given))
      [.rawBytes (Value.compactBytes name)] (some name) :=
    .cons (reads_compactString short) (.pure (some name))
  exact .cons (reads_unsignedVarint 0) (.cons (reads_unsignedVarint size) given)

/-- **The record of each type** is read from the values that are written for it. -/
theorem reads_values (r : MetadataRecord)
    (fits : (r.values.flatMap Value.bytes).length < 0x8000000000000000) :
    ReadsValues (read r.type) r.values r := by
  cases r with
  | featureLevel r =>
    have short := short_of_mem fits List.mem_cons_self rfl
    exact .cons (reads_compactString short) (.cons (reads_int16 r.featureLevel) (.noTags _))
  | topic r =>
    have short := short_of_mem fits List.mem_cons_self rfl
    exact .cons (reads_compactString short) (.cons (reads_uuid r.topicUuid) (.noTags _))
  | partition r => exact reads_partition r fits
  | zkMigrationState s => exact .cons (reads_int8 s) (.noTags _)
  | beginTransaction name =>
    cases name with
    | none => exact .cons (reads_unsignedVarint 0) (.pure _)
    | some name =>
      have short := short_of_mem (v := .rawBytes (Value.compactBytes name)) fits
        (by simp [values]) rfl
      exact .cons (reads_unsignedVarint 1) ((reads_name short _).bind_pure beginTransaction)
  | endTransaction => exact .noTags _

end MetadataRecord

namespace MetadataPayload

open RawRead

/-! ### Payloads -/

/-- The three bytes in front, and the record. -/
theorem encode_eq (p : MetadataPayload) : p.encode = (Value.int8 p.frameVersion).bytes ++
    ((Value.int8 p.data.type).bytes ++ ((Value.int8 p.version).bytes ++
      p.data.values.flatMap Value.bytes)) := rfl

/-- A payload is read up to its end, and what stands behind it is complained of. -/
theorem read_encode (p : MetadataPayload) (fits : p.encode.length < 0x8000000000000000)
    (rest : Bytes) : read (Cursor.start (p.encode ++ rest)) =
      if rest = [] then .ok p ⟨p.encode.length, rest⟩
      else .error (.invalidLength (.trailingMetadata rest.length)) ⟨p.encode.length, rest⟩ := by
  have record : ReadsValues (MetadataRecord.read p.data.type) p.data.values p.data := by
    refine MetadataRecord.reads_values p.data (Nat.lt_of_le_of_lt ?_ fits)
    simp only [encode_eq, List.length_append]
    omega
  have here : Cursor.mk p.encode.length rest = ⟨0 + (Value.int8 p.frameVersion).bytes.length +
      (Value.int8 p.data.type).bytes.length + (Value.int8 p.version).bytes.length +
      (p.data.values.flatMap Value.bytes).length, rest⟩ := by
    simp only [encode_eq, List.length_append, Nat.zero_add, Nat.add_assoc]
  rw [here, encode_eq, Cursor.start, List.append_assoc, List.append_assoc, List.append_assoc, read,
    bind_of_ok (reads_int8 p.frameVersion 0 _), bind_of_ok (reads_int8 p.data.type _ _),
    bind_of_ok (reads_int8 p.version _ _), bind_of_ok (record _ rest)]
  cases rest with
  | nil => rfl
  | cons b rest => rfl

end MetadataPayload

/-- **Metadata payloads read back**, of whatever kind and with lists of any length: from their
bytes, all of which are consumed; and any bytes behind these are refused. -/
theorem metadata_roundTrip (p : MetadataPayload) (fits : p.encode.length < 0x8000000000000000) :
    MetadataPayload.decode p.encode = .ok p ∧
    MetadataPayload.read (Cursor.start p.encode) = .ok p ⟨p.encode.length, []⟩ ∧
    ∀ rest : Bytes, rest ≠ [] → MetadataPayload.decode (p.encode ++ rest) =
      .error (.invalidLength (.trailingMetadata rest.length)) := by
  have whole := p.read_encode fits []
  rw [List.append_nil, if_pos rfl] at whole
  refine ⟨by rw [MetadataPayload.decode, whole], whole, fun rest some => ?_⟩
  rw [MetadataPayload.decode, p.read_encode fits rest, if_neg some]

/-- A partition that is on its way from one replica to others. -/
def sampleMove : MetadataPayload := .ofPartition {
  partitionId := 3
  topicUuid := ⟨7⟩
  replicas := [1, 2, 5]
  isr := [1]
  removingReplicas := [1]
  addingReplicas := [2, 5]
  leader := 1
  leaderEpoch := 4
  partitionEpoch := -1
  directories := [⟨8⟩, Uuid.nil] }

/-- The beginning of a transaction with a name. -/
def sampleBeginning : MetadataPayload := ⟨-1, 2, .beginTransaction (some "é")⟩

/-- The condition of `metadata_roundTrip` holds of a record with arrays of each length, and of one
with a tagged field, in front of a byte that is too many. -/
theorem metadata_roundTrip_samples :
    sampleMove.encode.length = 101 ∧ MetadataPayload.decode sampleMove.encode = .ok sampleMove ∧
    sampleBeginning.encode = [255, 23, 2, 1, 0, 3, 3, 0xC3, 0xA9] ∧
    MetadataPayload.decode sampleBeginning.encode = .ok sampleBeginning ∧
    MetadataPayload.decode (sampleBeginning.encode ++ [0]) =
      .error (.invalidLength (.trailingMetadata 1)) := by
  have length : sampleMove.encode.length = 101 := by decide +kernel
  have bytes : sampleBeginning.encode = [255, 23, 2, 1, 0, 3, 3, 0xC3, 0xA9] := by decide +kernel
  have moved := metadata_roundTrip sampleMove (by rw [length]; decide)
  obtain ⟨begun, -, further⟩ := metadata_roundTrip sampleBeginning (by rw [bytes]; decide)
  exact ⟨length, moved.1, bytes, begun, further [0] (by decide)⟩

end BrokerExam
