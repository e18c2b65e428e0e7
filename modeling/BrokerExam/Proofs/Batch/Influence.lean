/-
BrokerExam/Proofs/Batch/Influence.lean

What of a batch has an influence on which of its bytes.  Its length, magic byte and
checksum and the offset deltas are computed on writing, so that nothing depends on
what the batch holds for them (`RecordBatch.stripped`), and everything else can be
told from the bytes.  Base offset and leader epoch have places of their own, which
neither the length counts nor the checksum covers: whatever a broker puts there,
length and checksum stay right (`Sealed.reassigned`).

Main results: `bytes_eq_iff`, `bytes_storedAt` and `bytes_influences`.
-/
import BrokerExam.Proofs.Batch.Framing

namespace BrokerExam

/-! ### Bytes that are put in place -/

/-- The length of the segment is the one it tells, and in their places are the magic byte and the
checksum of what stands behind it. -/
structure Sealed (segment : Bytes) : Prop where
  length : (int32At segment 8).toInt = (segment.length : Int) - 12
  magic : segment[16]? = some 2
  checksum : (segment.drop 17).take 4 = BigEndian.encode 4 (crc32c (segment.drop 21)).toNat

/-- The bytes are the same but for the first eight and the four from the twelfth on. -/
structure Reassigned (original segment : Bytes) : Prop where
  length : segment.length = original.length
  lengthField : (segment.drop 8).take 4 = (original.drop 8).take 4
  behind : segment.drop 16 = original.drop 16

/-- Length and checksum stay right. -/
theorem Sealed.reassigned {original segment : Bytes} (sealed : Sealed original)
    (same : Reassigned original segment) : Sealed segment := by
  have further (n : Nat) : segment.drop (16 + n) = original.drop (16 + n) := by
    rw [← List.drop_drop, same.behind, List.drop_drop]
  refine ⟨?_, ?_, ?_⟩
  · rw [int32At, same.lengthField, same.length]
    exact sealed.length
  · have first := congrArg (fun bs => bs[0]?) same.behind
    rw [List.getElem?_drop, List.getElem?_drop] at first
    exact first.trans sealed.magic
  · rw [further 1, further 5]
    exact sealed.checksum

/-- Any eight bytes are those of a number. -/
theorem exists_int64 {u : Bytes} (width : u.length = 8) : ∃ n, (Value.int64 n).bytes = u := by
  refine ⟨(UInt64.ofNat (BigEndian.decode u)).toInt64, ?_⟩
  rw [Value.bytes, UInt64.toUInt64_toInt64, UInt64.toNat_ofNat',
    show 2 ^ 64 = BigEndian.span 8 from rfl, BigEndian.encode_mod, ← width, BigEndian.encode_decode]

/-- Any four bytes are those of a number. -/
theorem exists_int32 {u : Bytes} (width : u.length = 4) : ∃ n, (Value.int32 n).bytes = u := by
  refine ⟨(UInt32.ofNat (BigEndian.decode u)).toInt32, ?_⟩
  rw [Value.bytes, UInt32.toUInt32_toInt32, UInt32.toNat_ofNat',
    show 2 ^ 32 = BigEndian.span 4 from rfl, BigEndian.encode_mod, ← width, BigEndian.encode_decode]

namespace RecordBatch

variable {b c : RecordBatch}

/-! ### What is computed on writing -/

/-- The batch without the values that are computed on writing. -/
def stripped (b : RecordBatch) : RecordBatch :=
  { b with
    batchLength := 0, magic := 0, crc := 0, lastOffsetDelta := 0
    records := b.records.map fun r => { r with offsetDelta := 0 } }

/-- What is computed takes the place of whatever was there. -/
theorem normalized_stripped (b : RecordBatch) : b.stripped.normalized = b.normalized := by
  have length : b.stripped.records.length = b.records.length := List.length_map _
  have records : b.stripped.records.mapIdx (fun i r => { r with offsetDelta := Int32.ofNat i }) =
      b.numbered.records := by
    apply List.ext_getElem?
    intro i
    simp only [stripped, numbered, List.getElem?_mapIdx, List.getElem?_map, Option.map_map]
    rfl
  have numbered : b.stripped.numbered =
      { b.numbered with batchLength := 0, magic := 0, crc := 0 } := by
    rw [RecordBatch.numbered, length, records]
    rfl
  have covered : b.stripped.coveredBytes = b.coveredBytes := by
    rw [coveredBytes, numbered]
    rfl
  rw [normalized, numbered, covered]
  rfl

theorem stripped_normalized (b : RecordBatch) : b.normalized.stripped = b.stripped := by
  have records : b.normalized.records.map (fun r => { r with offsetDelta := 0 }) =
      b.stripped.records := by
    apply List.ext_getElem?
    intro i
    simp only [stripped, normalized, numbered, List.getElem?_mapIdx, List.getElem?_map,
      Option.map_map]
    rfl
  rw [stripped, records]
  rfl

theorem Fits.congr (fits : b.Fits) (same : c.bytes = b.bytes) : c.Fits := by
  have lengths := congrArg List.length same
  rw [length_bytes, length_bytes] at lengths
  have small : b.coveredBytes.length + bytesBeforeCovered < 0x80000000 := fits
  show c.coveredBytes.length + bytesBeforeCovered < 0x80000000
  omega

/-- Batches that are written the same read back the same. -/
theorem normalized_eq_of_bytes_eq (fits : b.Fits) (same : c.bytes = b.bytes) :
    c.normalized = b.normalized := by
  have read := (readsBack fits).run_start ()
  have read' := (readsBack (fits.congr same)).run_start ()
  rw [show c.encoding.bytes = b.encoding.bytes from same, read] at read'
  exact (EStateM.Result.ok.inj read').1.symm

/-- **What a batch is written as** tells everything but what is computed on writing, and depends on
nothing else. -/
theorem bytes_eq_iff (fits : b.Fits) : c.bytes = b.bytes ↔ c.stripped = b.stripped := by
  constructor
  · intro same
    rw [← stripped_normalized c, normalized_eq_of_bytes_eq fits same, stripped_normalized]
  · intro same
    rw [← bytes_normalized c, ← normalized_stripped c, same, normalized_stripped, bytes_normalized]

/-! ### Base offset and leader epoch -/

/-- The batch as the leader of an epoch stores it at an offset. -/
def assigned (b : RecordBatch) (offset : Int64) (epoch : Int32) : RecordBatch :=
  { b with baseOffset := offset, partitionLeaderEpoch := epoch }

/-- The magic byte, the checksum and what it covers. -/
def behindEpoch (b : RecordBatch) : Bytes :=
  Encoding.bytes (Encoding.leaf "Magic" (.int8 magicByte) ++
    (Encoding.leaf "CRC" (Kind.uint32.value b.normalized.crc) ++ (covered.write b.numbered).2))

/-- Base offset, length and leader epoch stand in front, and what is behind them depends on
neither offset nor epoch. -/
theorem bytes_assigned (b : RecordBatch) (offset : Int64) (epoch : Int32) :
    (b.assigned offset epoch).bytes = (Value.int64 offset).bytes ++
      ((Value.int32 b.normalized.batchLength).bytes ++
        ((Value.int32 epoch).bytes ++ b.behindEpoch)) := by
  rw [bytes, encoding_eq, countedEncoding, Encoding.bytes_append, Encoding.bytes_append,
    Encoding.bytes_append]
  simp only [Encoding.bytes_leaf]
  rfl

theorem bytes_parts (b : RecordBatch) : b.bytes = (Value.int64 b.baseOffset).bytes ++
    ((Value.int32 b.normalized.batchLength).bytes ++
      ((Value.int32 b.partitionLeaderEpoch).bytes ++ b.behindEpoch)) :=
  b.bytes_assigned b.baseOffset b.partitionLeaderEpoch

theorem length_int64 (n : Int64) : (Value.int64 n).bytes.length = 8 := BigEndian.length_encode ..

theorem length_int32 (n : Int32) : (Value.int32 n).bytes.length = 4 := BigEndian.length_encode ..

/-- The bytes in front of the leader epoch. -/
theorem take_bytes (b : RecordBatch) : b.bytes.take 12 =
    (Value.int64 b.baseOffset).bytes ++ (Value.int32 b.normalized.batchLength).bytes := by
  rw [bytes_parts, ← List.append_assoc]
  apply List.take_left'
  rw [List.length_append, length_int64, length_int32]

theorem drop_bytes (b : RecordBatch) : b.bytes.drop 16 = b.behindEpoch := by
  rw [bytes_parts, ← List.append_assoc, ← List.append_assoc]
  apply List.drop_left'
  rw [List.length_append, List.length_append, length_int64, length_int32, length_int32]

/-- **The base offset is the first eight bytes**, and no other byte depends on it: neither the
length nor the checksum counts it. -/
theorem bytes_storedAt (b : RecordBatch) (offset : Int64) :
    (b.storedAt offset).bytes = (Value.int64 offset).bytes ++ b.bytes.drop 8 := by
  rw [bytes_parts b, List.drop_left' (length_int64 _)]
  exact b.bytes_assigned offset b.partitionLeaderEpoch

/-- **The leader epoch is the four bytes from the twelfth on**, and no other byte depends on it. -/
theorem bytes_ledIn (b : RecordBatch) (epoch : Int32) :
    ({ b with partitionLeaderEpoch := epoch } : RecordBatch).bytes =
      b.bytes.take 12 ++ ((Value.int32 epoch).bytes ++ b.bytes.drop 16) := by
  rw [take_bytes, drop_bytes, List.append_assoc]
  exact b.bytes_assigned b.baseOffset epoch

theorem reassigned_assigned (b : RecordBatch) (offset : Int64) (epoch : Int32) :
    Reassigned b.bytes (b.assigned offset epoch).bytes := by
  have behind : (b.assigned offset epoch).bytes.drop 16 = b.bytes.drop 16 := by
    rw [drop_bytes, drop_bytes]
    rfl
  refine ⟨(length_bytes _).trans (length_bytes b).symm, ?_, behind⟩
  rw [bytes_assigned, bytes_parts b, slice_eq (length_int64 _) (length_int32 _),
    slice_eq (length_int64 _) (length_int32 _)]

/-- Whatever is put in the places of base offset and leader epoch is the one and the other. -/
theorem exists_assigned {segment : Bytes} (same : Reassigned b.bytes segment) :
    ∃ offset epoch, segment = (b.assigned offset epoch).bytes := by
  have length : 16 ≤ segment.length := by
    rw [same.length, length_bytes, bytesBeforeCovered]
    omega
  obtain ⟨offset, first⟩ := exists_int64 (u := segment.take 8) (List.length_take_of_le (by omega))
  obtain ⟨epoch, fourth⟩ := exists_int32 (u := (segment.drop 12).take 4)
    (List.length_take_of_le (by rw [List.length_drop]; omega))
  have counted : (segment.drop 8).take 4 = (Value.int32 b.normalized.batchLength).bytes := by
    rw [same.lengthField, bytes_parts]
    exact slice_eq (length_int64 _) (length_int32 _)
  refine ⟨offset, epoch, ?_⟩
  calc segment
    _ = segment.take 8 ++ ((segment.drop 8).take 4 ++
          ((segment.drop 12).take 4 ++ segment.drop 16)) := by
      have behindEpoch : segment.drop 16 = (segment.drop 12).drop 4 := by rw [List.drop_drop]
      have behindLength : segment.drop 12 = (segment.drop 8).drop 4 := by rw [List.drop_drop]
      rw [behindEpoch, List.take_append_drop, behindLength, List.take_append_drop,
        List.take_append_drop]
    _ = (b.assigned offset epoch).bytes := by
      rw [bytes_assigned, first, counted, fourth, same.behind, drop_bytes]

theorem sealed_bytes (fits : b.Fits) : Sealed b.bytes := by
  have framed : Framed b.bytes b.normalized := framed_of_reads (readsBack fits)
  have length := framed.length
  refine ⟨?_, framed.magic, framed.crc⟩
  rw [framed.batchLength]
  omega

/-- **What of a batch has an influence on which of its bytes.**  In the bytes of a batch that fits
its length, the length, the magic byte and the checksum are right.  Two batches are written the same
if and only if they agree in everything but length, magic byte, checksum and offset deltas.  The
base offset is the first eight bytes and the leader epoch the four behind the length, and they have
no influence on others: whatever is put in their places, length and checksum stay right, and the
batch reads back with that base offset and leader epoch. -/
theorem bytes_influences (fits : b.Fits) :
    Sealed b.bytes ∧
    (∀ c : RecordBatch, c.bytes = b.bytes ↔ c.stripped = b.stripped) ∧
    (∀ offset, ({ b with baseOffset := offset } : RecordBatch).bytes =
      BigEndian.encode 8 offset.toUInt64.toNat ++ b.bytes.drop 8) ∧
    (∀ epoch, ({ b with partitionLeaderEpoch := epoch } : RecordBatch).bytes =
      b.bytes.take 12 ++ (BigEndian.encode 4 epoch.toUInt32.toNat ++ b.bytes.drop 16)) ∧
    ∀ segment, Reassigned b.bytes segment → Sealed segment ∧ ∃ offset epoch,
      segment = (b.assigned offset epoch).bytes ∧
        decodeLog segment = .ok [b.normalized.assigned offset epoch] := by
  have sealed := sealed_bytes fits
  refine ⟨sealed, fun c => bytes_eq_iff fits, b.bytes_storedAt, b.bytes_ledIn,
    fun segment same => ⟨sealed.reassigned same, ?_⟩⟩
  obtain ⟨offset, epoch, rfl⟩ := exists_assigned same
  have log : encodeLog [b.assigned offset epoch] = (b.assigned offset epoch).bytes :=
    List.append_nil _
  have decoded : decodeLog (encodeLog [b.assigned offset epoch]) =
      .ok [b.normalized.assigned offset epoch] :=
    decodeLog_encodeLog (List.forall_mem_singleton.2 fits)
  rw [log] at decoded
  exact ⟨offset, epoch, rfl, decoded⟩

/-- The condition of `bytes_influences` holds of a batch that holds other values than are written,
and it reads back from the offset and the epoch that it is assigned. -/
theorem bytes_influences_stale :
    staleBatch.Fits ∧ Sealed staleBatch.bytes ∧ staleBatch.stripped ≠ staleBatch ∧
    staleBatch.stripped.bytes = staleBatch.bytes ∧
    ∃ segment offset epoch, Reassigned staleBatch.bytes segment ∧ segment ≠ staleBatch.bytes ∧
      decodeLog segment = .ok [staleBatch.normalized.assigned offset epoch] := by
  have fits : staleBatch.Fits := by decide +kernel
  obtain ⟨sealed, depends, -, -, decodes⟩ := bytes_influences fits
  have same := staleBatch.reassigned_assigned 40 6
  obtain ⟨-, offset, epoch, -, decoded⟩ := decodes _ same
  exact ⟨fits, sealed, by decide +kernel, (depends staleBatch.stripped).2 (by decide +kernel),
    _, offset, epoch, same, by decide +kernel, decoded⟩

end RecordBatch
end BrokerExam
