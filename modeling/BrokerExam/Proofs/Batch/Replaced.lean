/-
BrokerExam/Proofs/Batch/Replaced.lean

Batches with text that is replaced.  The key of a header is read as text from any
bytes, so that it can be longer than they are, and the batch written again longer
than it was.

Main result: `exists_replaced`, for bytes of any kind.
-/
import BrokerExam.Proofs.Batch.Stream

namespace BrokerExam

/-! ### Keys of any bytes -/

/-- A header without a value that has the bytes as its key. -/
def RecordHeader.raw : Codec Bytes RecordHeader := do
  let key ← (Codec.varintBytes "KeyLength" "Key").on some
  let value ← (Codec.varintBytes "ValueLength" "Value").on fun _ => none
  return { key := (key.map Utf8.decodeLossy).getD "", value }

instance : RecordHeader.raw.Lawful := by
  unfold RecordHeader.raw
  infer_instance

instance : RecordHeader.raw.Solid := by
  unfold RecordHeader.raw
  infer_instance

/-- A record with nothing but such a header. -/
def Record.raw : Codec Bytes Record := Codec.sized "Size" do
  let attributes ← (Codec.int8 "Attributes").on fun _ => 0
  let timestampDelta ← (Codec.varint "TimestampDelta").on fun _ => 0
  let offsetDelta ← (Codec.narrowVarint "OffsetDelta").on fun _ => 0
  let key ← (Codec.varintBytes "KeyLength" "Key").on fun _ => none
  let value ← (Codec.varintBytes "ValueLength" "Value").on fun _ => none
  let headers ← (Codec.varintArray "HeadersLength" "Headers" RecordHeader.raw).on fun key => [key]
  return { attributes, timestampDelta, offsetDelta, key, value, headers }

instance : Record.raw.Lawful := by
  unfold Record.raw
  infer_instance

instance : Record.raw.Solid := by
  unfold Record.raw
  infer_instance

namespace RecordBatch

/-- What the checksum covers of a batch with nothing but such a record. -/
def rawCovered : Codec Bytes RecordBatch := do
  let attributes ← (Codec.int16 "Attributes").on fun _ => 0
  let lastOffsetDelta ← (Codec.int32 "LastOffsetDelta").on fun _ => 0
  let firstTimestamp ← (Codec.int64 "FirstTimestamp").on fun _ => 0
  let maxTimestamp ← (Codec.int64 "MaxTimestamp").on fun _ => 0
  let producerId ← (Codec.int64 "ProducerId").on fun _ => -1
  let producerEpoch ← (Codec.int16 "ProducerEpoch").on fun _ => -1
  let baseSequence ← (Codec.int32 "BaseSequence").on fun _ => -1
  let records ← (Codec.array "Records" Record.raw).on fun key => [key]
  return {
    attributes, lastOffsetDelta, firstTimestamp, maxTimestamp
    producerId, producerEpoch, baseSequence, records }

theorem rawCovered_lawfulOn : rawCovered.LawfulOn fun _ => True :=
  .bind .of fun _ => .bind .of fun _ => .bind .of fun _ => .bind .of fun _ => .bind .of fun _ =>
  .bind .of fun _ => .bind .of fun _ =>
  .bind (.on (.array "Records" .of) fun _ _ => ⟨Nat.succ_lt_succ (by decide), fun _ _ => trivial⟩)
    fun _ => .of

/-- The batch of one record with the text as the key of its only header. -/
def ofKey (text : String) : RecordBatch := { records := [{ headers := [⟨text, none⟩] }] }

theorem rawCovered_write_fst (key : Bytes) :
    (rawCovered.write key).1 = ofKey (Utf8.decodeLossy key) := rfl

theorem coveredBytes_ofKey (text : String) :
    (ofKey text).coveredBytes = (rawCovered.write (Utf8.encode text)).2.bytes := by
  have numbered : (ofKey text).numbered = ofKey text := by
    simp only [numbered, ofKey, List.mapIdx_cons, List.mapIdx_nil, List.length_singleton]
    rfl
  rw [coveredBytes, numbered]
  rfl

/-- The checksum covers neither itself nor the length. -/
theorem coveredBytes_sealed (b : RecordBatch) (batchLength : Int32) (crc : UInt32) :
    RecordBatch.coveredBytes { b with batchLength, crc } = b.coveredBytes := rfl

end RecordBatch

/-! ### How long they are -/

theorem Value.length_varint_le (n : Int64) : (Value.varint n).bytes.length ≤ 10 :=
  Varint.length_encode_le _

theorem RecordHeader.length_raw (key : Bytes) :
    key.length ≤ (RecordHeader.raw.write key).2.bytes.length ∧
      (RecordHeader.raw.write key).2.bytes.length ≤ key.length + 20 := by
  have length := Value.length_varint_le (Int64.ofNat key.length)
  have null := Value.length_varint_le (-1)
  have fields : (RecordHeader.raw.write key).2 =
      (Encoding.leaf "KeyLength" (.varint (Int64.ofNat key.length)) ++
        Encoding.leaf "Key" (.rawBytes key)) ++
      (Encoding.leaf "ValueLength" (.varint (-1)) ++ []) := rfl
  have all : (Value.rawBytes key).bytes = key := rfl
  rw [fields]
  simp only [Encoding.bytes_append, Encoding.bytes_leaf, List.length_append, List.append_nil, all]
  omega

theorem Record.length_raw (key : Bytes) :
    key.length ≤ (Record.raw.write key).2.bytes.length ∧
      (Record.raw.write key).2.bytes.length ≤ key.length + 91 := by
  have header := RecordHeader.length_raw key
  have zero := Value.length_varint_le 0
  have one := Value.length_varint_le 1
  have null := Value.length_varint_le (-1)
  have small : (Value.int8 0).bytes.length = 1 := BigEndian.length_encode ..
  obtain ⟨size, fields⟩ : ∃ size, (Record.raw.write key).2 =
      Encoding.leaf "Size" (.varint size) ++
      (Encoding.leaf "Attributes" (.int8 0) ++ (Encoding.leaf "TimestampDelta" (.varint 0) ++
      (Encoding.leaf "OffsetDelta" (.varint 0) ++ (Encoding.leaf "KeyLength" (.varint (-1)) ++
      (Encoding.leaf "ValueLength" (.varint (-1)) ++
      ((Encoding.leaf "HeadersLength" (.varint 1) ++
        Encoding.items "Headers" [(RecordHeader.raw.write key).2]) ++ [])))))) := ⟨_, rfl⟩
  have count := Value.length_varint_le size
  rw [fields]
  simp only [Encoding.bytes_append, Encoding.bytes_leaf, Encoding.bytes_items, List.length_append,
    List.append_nil, List.flatMap_cons, List.flatMap_nil]
  omega

namespace RecordBatch

theorem length_rawCovered (key : Bytes) :
    key.length ≤ (rawCovered.write key).2.bytes.length ∧
      (rawCovered.write key).2.bytes.length ≤ key.length + 131 := by
  have record := Record.length_raw key
  have int16 (n : Int16) : (Value.int16 n).bytes.length = 2 := BigEndian.length_encode ..
  have int32 (n : Int32) : (Value.int32 n).bytes.length = 4 := BigEndian.length_encode ..
  have int64 (n : Int64) : (Value.int64 n).bytes.length = 8 := BigEndian.length_encode ..
  have fields : (rawCovered.write key).2 = Encoding.leaf "Attributes" (.int16 0) ++
      (Encoding.leaf "LastOffsetDelta" (.int32 0) ++ (Encoding.leaf "FirstTimestamp" (.int64 0) ++
      (Encoding.leaf "MaxTimestamp" (.int64 0) ++ (Encoding.leaf "ProducerId" (.int64 (-1)) ++
      (Encoding.leaf "ProducerEpoch" (.int16 (-1)) ++
      (Encoding.leaf "BaseSequence" (.int32 (-1)) ++
      (Encoding.array "Records" [(Record.raw.write key).2] ++ []))))))) := rfl
  rw [fields]
  simp only [Encoding.bytes_append, Encoding.bytes_leaf, Encoding.array, Encoding.bytes_scope,
    Encoding.bytes_items, List.length_append, List.append_nil, List.flatMap_cons, List.flatMap_nil,
    int16, int32, int64]
  omega

/-! ### Reading them -/

/-- The bytes of one batch are a log. -/
theorem decodeLog_eq_ok_of_reads {used : Bytes} {t : Trace} {b : RecordBatch}
    (reads : Reads read used t b) : decodeLog used = .ok [b] := by
  refine decodeLog_eq_ok_iff.2 ⟨[⟨used, t, b⟩], (List.append_nil _).symm, rfl, fun piece mem => ?_⟩
  obtain rfl := List.mem_singleton.1 mem
  exact reads

/-- **Any bytes can be the key of a header**: they are read as the text that replaces them, and
written again the batch has the bytes of that text. -/
theorem exists_replaced {raw : Bytes} (small : raw.length + 140 < 0x80000000) :
    ∃ (log : Bytes) (b : RecordBatch), decodeLog log = .ok [b] ∧ log.length ≤ raw.length + 152 ∧
      b.coveredBytes = (ofKey (Utf8.decodeLossy raw)).coveredBytes := by
  have most := (length_rawCovered raw).2
  let bytes := (rawCovered.write raw).2.bytes
  have reads : Reads covered.read bytes _ (rawCovered.write raw).1 :=
    rawCovered_lawfulOn.reads raw trivial (by omega)
  rw [rawCovered_write_fst] at reads
  let b : RecordBatch := { ofKey (Utf8.decodeLossy raw) with
    batchLength := Int32.ofNat (bytes.length + bytesBeforeCovered), crc := crc32c bytes }
  let p : Parts := {
    leaderEpoch := BigEndian.encode 4 0, magic := BigEndian.encode 1 2
    crc := (Kind.uint32.value (crc32c bytes)).bytes, covered := bytes }
  have counted : p.bytes.length = bytes.length + bytesBeforeCovered := by
    simp only [p, Parts.bytes, List.length_append, bytesBeforeCovered, Kind.uint32, Value.bytes,
      BigEndian.length_encode]
    omega
  have fits : bytes.length + bytesBeforeCovered < 0x80000000 := by
    show (rawCovered.write raw).2.bytes.length + 9 < _
    omega
  have counts : b.batchLength.toInt = p.bytes.length := by
    rw [counted]
    exact (int32Length_counts fits).2
  have parts : p.Of b := ⟨RawRead.reads_int32 0, RawRead.reads_int8 2, RawRead.reads_uint32 _,
    ⟨_, _, reads, rfl⟩, counts, rfl⟩
  have positive : ¬ b.batchLength ≤ 0 := by
    rw [Int32.le_iff_toInt_le, counts, counted, bytesBeforeCovered,
      show (0 : Int32).toInt = 0 from rfl]
    omega
  have offset : Kind.int64.read.Reads (Value.int64 0).bytes b.baseOffset := RawRead.reads_int64 0
  obtain ⟨t, whole⟩ := parts.reads_batch offset (RawRead.reads_int32 _) positive
  refine ⟨_, b, decodeLog_eq_ok_of_reads whole, ?_, coveredBytes_sealed _ _ _⟩
  rw [List.length_append, List.length_append, counted, Value.bytes, Value.bytes,
    BigEndian.length_encode, BigEndian.length_encode]
  show _ + (_ + ((rawCovered.write raw).2.bytes.length + 9)) ≤ _
  omega

end RecordBatch
end BrokerExam
