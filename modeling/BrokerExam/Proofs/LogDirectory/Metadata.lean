/-
BrokerExam/Proofs/LogDirectory/Metadata.lean

The cluster metadata log describes the topics of a plan.  The base offset of each
batch is the number of records in front of it, so that the offsets of the records
run on without a gap; and the values of the records read back as what they were
made of, the feature level first and then each topic with its partitions.

Main result: `metadataLog_describes`.
-/
import BrokerExam.Proofs.Batch.Stream
import BrokerExam.Proofs.LogDirectory.Reading
import BrokerExam.Proofs.Metadata.Payload
import Mathlib.Data.List.Forall2

namespace BrokerExam

/-! ### Records and their values -/

/-- A value has no more bytes than its record. -/
theorem Record.length_value_le {r : Record} {value : Bytes} (h : r.value = some value) :
    value.length ≤ (codec.write r).2.bytes.length := by
  show _ ≤ (Encoding.bytes (Encoding.leaf "Size" _ ++ (contents.write r).2)).length
  rw [Encoding.bytes_append, List.length_append]
  simp only [contents, Codec.length_bytes_bind]
  simp only [Codec.on, h, Codec.varintBytes, Encoding.bytes_append, List.length_append,
    Encoding.bytes_leaf, Value.bytes]
  omega

namespace RecordBatch

/-- The offsets of the records, in order. -/
def offsets (b : RecordBatch) : List Int :=
  b.records.map fun r => b.baseOffset.toInt + r.offsetDelta.toInt

/-- A batch that fits its length has few records. -/
theorem Fits.length_records_lt {b : RecordBatch} (fits : b.Fits) :
    b.records.length < 0x80000000 := by
  have small : (covered.write b.numbered).2.bytes.length + bytesBeforeCovered < 0x80000000 := fits
  have few := length_records_le b.numbered
  have same : b.numbered.records.length = b.records.length := List.length_mapIdx
  omega

/-- A batch that fits its length has short values. -/
theorem Fits.length_value_lt {b : RecordBatch} (fits : b.Fits) {r : Record}
    (hr : r ∈ b.numbered.records) {value : Bytes} (h : r.value = some value) :
    value.length < 0x80000000 :=
  calc value.length
    _ ≤ (Record.codec.write r).2.bytes.length := Record.length_value_le h
    _ ≤ (Encoding.items "Records"
          ((b.numbered.records.map Record.codec.write).map Prod.snd)).bytes.length :=
      Codec.length_item_le (List.mem_map_of_mem (f := Record.codec.write) hr) "Records"
    _ ≤ ((Codec.array "Records" Record.codec).write b.numbered.records).2.bytes.length :=
      Codec.length_items_le_array Record.codec b.numbered.records "Records"
    _ ≤ (covered.write b.numbered).2.bytes.length := length_array_le_covered b.numbered
    _ ≤ (covered.write b.numbered).2.bytes.length + bytesBeforeCovered := Nat.le_add_right _ _
    _ < 0x80000000 := fits

end RecordBatch

namespace LogDirectory

open Files Rehearsal

/-! ### Batches of payloads -/

section Batch

variable {baseOffset timestamp : Int64} {payloads : List MetadataPayload}

theorem records_metadataBatch (baseOffset timestamp : Int64) (payloads : List MetadataPayload) :
    (metadataBatch baseOffset timestamp payloads).records =
      (payloads.map payloadRecord).mapIdx fun i r => { r with offsetDelta := Int32.ofNat i } := rfl

theorem length_records_metadataBatch :
    (metadataBatch baseOffset timestamp payloads).records.length = payloads.length := by
  rw [records_metadataBatch, List.length_mapIdx, List.length_map]

/-- The offsets of a batch run on from its base offset. -/
theorem offsets_metadataBatch {n : Nat} (start : baseOffset.toInt = n)
    (few : payloads.length < 0x80000000) :
    (metadataBatch baseOffset timestamp payloads).offsets =
      (List.range' n payloads.length).map Nat.cast := by
  apply List.ext_getElem
  · rw [RecordBatch.offsets, List.length_map, length_records_metadataBatch, List.length_map,
      List.length_range']
  · intro i h _
    rw [RecordBatch.offsets, List.length_map, length_records_metadataBatch] at h
    have base : (metadataBatch baseOffset timestamp payloads).baseOffset.toInt = n := start
    have delta : (Int32.ofNat i).toInt = i := Int32.toInt_ofNat_of_lt (Nat.lt_trans h few)
    simp only [RecordBatch.offsets, records_metadataBatch, List.getElem_map, List.getElem_mapIdx,
      List.getElem_range', delta, base, Nat.one_mul, Int.natCast_add]

/-- The values of a batch are the payloads. -/
theorem values_metadataBatch : (metadataBatch baseOffset timestamp payloads).records.map
    Record.value = payloads.map fun p => some p.encode := by
  apply List.ext_getElem
  · rw [List.length_map, List.length_map, length_records_metadataBatch]
  · intro i _ _
    simp only [records_metadataBatch, List.getElem_map, List.getElem_mapIdx, payloadRecord]

/-- The payloads of a batch that fits its length read back. -/
theorem decode_encode_of_fits (fits : (metadataBatch baseOffset timestamp payloads).Fits)
    {p : MetadataPayload} (hp : p ∈ payloads) : MetadataPayload.decode p.encode = .ok p := by
  have held : some p.encode ∈
      (metadataBatch baseOffset timestamp payloads).numbered.records.map Record.value := by
    rw [metadataBatch, RecordBatch.numbered_normalized]
    exact values_metadataBatch ▸ List.mem_map_of_mem hp
  obtain ⟨r, hr, value⟩ := List.mem_map.1 held
  have short := fits.length_value_lt hr value
  exact (metadata_roundTrip p (Nat.lt_trans short (by decide))).1

theorem normalized_metadataBatch (baseOffset timestamp : Int64) (payloads : List MetadataPayload) :
    (metadataBatch baseOffset timestamp payloads).normalized =
      metadataBatch baseOffset timestamp payloads :=
  RecordBatch.normalized_normalized _

end Batch

/-! ### The log -/

theorem normalized_of_mem_topicBatches {topics : List PlannedTopic} {offset : Int64}
    {b : RecordBatch} (hb : b ∈ topicBatches offset topics) : b.normalized = b := by
  induction topics generalizing offset with
  | nil => exact nomatch hb
  | cons t ts ih =>
    obtain rfl | later := List.mem_cons.1 hb
    · exact normalized_metadataBatch ..
    · exact ih later

/-- Each batch of the log has its length and its checksum. -/
theorem map_normalized_metadataBatches (topics : List PlannedTopic) :
    (metadataBatches topics).map RecordBatch.normalized = metadataBatches topics := by
  refine (List.map_congr_left fun b hb => ?_).trans (List.map_id' _)
  obtain rfl | later := List.mem_cons.1 hb
  · exact normalized_metadataBatch ..
  · exact normalized_of_mem_topicBatches later

/-- The batches hold the payloads, at the offsets from `n` on. -/
structure Holds (n : Nat) (bs : List RecordBatch) (payloads : List MetadataPayload) : Prop where
  offsets : bs.flatMap RecordBatch.offsets = (List.range' n payloads.length).map Nat.cast
  values : (bs.flatMap RecordBatch.records).map (fun r => r.value.map MetadataPayload.decode) =
    payloads.map fun p => some (.ok p)

namespace Holds

variable {n : Nat} {bs bs' : List RecordBatch} {payloads payloads' : List MetadataPayload}

theorem nil (n : Nat) : Holds n [] [] := ⟨rfl, rfl⟩

theorem append (h : Holds n bs payloads) (h' : Holds (n + payloads.length) bs' payloads') :
    Holds n (bs ++ bs') (payloads ++ payloads') where
  offsets := by
    rw [List.flatMap_append, h.offsets, h'.offsets, List.length_append, ← List.range'_append_1,
      List.map_append]
  values := by
    rw [List.flatMap_append, List.map_append, List.map_append, h.values, h'.values]

theorem batch {baseOffset timestamp : Int64} (start : baseOffset.toInt = n)
    (fits : (metadataBatch baseOffset timestamp payloads).Fits) :
    Holds n [metadataBatch baseOffset timestamp payloads] payloads where
  offsets := by
    have few := fits.length_records_lt
    rw [length_records_metadataBatch] at few
    rw [List.flatMap_singleton, offsets_metadataBatch start few]
  values := by
    have decoded : payloads.map (fun p => some (MetadataPayload.decode p.encode)) =
        payloads.map fun p => some (.ok p) :=
      List.map_congr_left fun p hp => congrArg some (decode_encode_of_fits fits hp)
    calc ([metadataBatch baseOffset timestamp payloads].flatMap RecordBatch.records).map _
      _ = ((metadataBatch baseOffset timestamp payloads).records.map Record.value).map
          (Option.map MetadataPayload.decode) := by rw [List.flatMap_singleton, List.map_map]; rfl
      _ = payloads.map fun p => some (MetadataPayload.decode p.encode) := by
        rw [values_metadataBatch, List.map_map]
        rfl
      _ = payloads.map fun p => some (.ok p) := decoded

/-- The next base offset counts the payloads of the batch before. -/
theorem topics {topics : List PlannedTopic} {offset : Int64} {n : Nat}
    (start : offset.toInt = n) (fits : ∀ b ∈ topicBatches offset topics, b.Fits)
    (few : n + (topics.flatMap topicPayloads).length < 0x8000000000000000) :
    Holds n (topicBatches offset topics) (topics.flatMap topicPayloads) := by
  induction topics generalizing offset n with
  | nil => exact nil n
  | cons t ts ih =>
    obtain ⟨first, others⟩ := List.forall_mem_cons.1 fits
    rw [List.flatMap_cons, List.length_append] at few
    have next : (offset + Int64.ofNat (topicPayloads t).length).toInt =
        (n + (topicPayloads t).length : Nat) := by
      have length : (Int64.ofNat (topicPayloads t).length).toInt = (topicPayloads t).length :=
        Int64.toInt_ofNat_of_lt (by omega)
      rw [Int64.toInt_add, start, length, Int.bmod_eq_of_le (by omega) (by omega)]
      rfl
    exact (batch start first).append (ih next others (by omega))

end Holds

/-- The feature level, and then each topic with its partitions. -/
def metadataPayloads (topics : List PlannedTopic) : List MetadataPayload :=
  .ofFeatureLevel "metadata.version" metadataVersion :: topics.flatMap topicPayloads

/-- How many records the log has: one for the feature level, one for each topic and one for each
partition. -/
def recordCount (topics : List PlannedTopic) : Nat :=
  1 + topics.length + (topics.flatMap PlannedTopic.partitions).length

theorem length_metadataPayloads (topics : List PlannedTopic) :
    (metadataPayloads topics).length = recordCount topics := by
  rw [metadataPayloads, recordCount, List.length_cons]
  induction topics with
  | nil => rfl
  | cons t topics ih =>
    simp only [List.flatMap_cons, List.length_append, List.length_cons, topicPayloads,
      List.length_map] at ih ⊢
    omega

theorem holds_metadataBatches {topics : List PlannedTopic}
    (fits : ∀ b ∈ metadataBatches topics, b.Fits)
    (few : recordCount topics < 0x8000000000000000) :
    Holds 0 (metadataBatches topics) (metadataPayloads topics) := by
  obtain ⟨first, others⟩ := List.forall_mem_cons.1 fits
  rw [← length_metadataPayloads, metadataPayloads, List.length_cons, Nat.add_comm] at few
  exact (Holds.batch rfl first).append (.topics (n := 1) rfl others few)

/-! ### Reading -/

/-- The payload of a record, if it has one. -/
def payload? (r : Record) : Option MetadataPayload :=
  r.value.bind fun value => (MetadataPayload.decode value).toOption

namespace Holds

variable {n : Nat} {bs : List RecordBatch} {payloads : List MetadataPayload}

theorem map_payload? (h : Holds n bs payloads) :
    (bs.flatMap RecordBatch.records).map payload? = payloads.map some := by
  have read := congrArg (List.map fun v => v.bind Except.toOption) h.values
  rw [List.map_map, List.map_map] at read
  refine Eq.trans (List.map_congr_left fun r _ => ?_) read
  cases value : r.value with
  | none => simp [payload?, value]
  | some bytes => simp [payload?, value]

/-- Each record is read: its offset can be told, and its value is a payload. -/
theorem run_readPayload (h : Holds n bs payloads)
    (few : n + payloads.length < 0x8000000000000000) {b : RecordBatch} (hb : b ∈ bs) {r : Record}
    (hr : r ∈ b.records) (w : World) :
    (readPayload b r : Tried InWorld _).run w = .ok (.ok (payload? r)) w := by
  have offset : b.baseOffset.toInt + r.offsetDelta.toInt ∈ bs.flatMap RecordBatch.offsets :=
    List.mem_flatMap.2 ⟨b, hb, List.mem_map_of_mem hr⟩
  rw [h.offsets] at offset
  obtain ⟨k, inside, sum⟩ := List.mem_map.1 offset
  have small : k < n + payloads.length := (List.mem_range'_1.1 inside).2
  have fine : (Int64.ofInt k).toInt = k := Int64.toInt_ofInt_of_le (by omega) (by omega)
  have held := h.values ▸ List.mem_map_of_mem (f := fun r : Record =>
    r.value.map MetadataPayload.decode) (List.mem_flatMap.2 ⟨b, hb, hr⟩)
  obtain ⟨p, -, read⟩ := List.mem_map.1 held
  obtain ⟨value, here, decoded⟩ := Option.map_eq_some_iff.1 read.symm
  have payload : payload? r = some p := by
    rw [payload?, here, Option.bind_some, decoded]
    rfl
  rw [payload, readPayload, here]
  dsimp only
  rw [← sum, fine, decoded, if_neg (not_not.2 rfl)]
  rfl

/-- **What is read of a log** are the payloads that it holds. -/
theorem run_readClusterMetadata (h : Holds n bs payloads)
    (few : n + payloads.length < 0x8000000000000000) {root : String} {log : Bytes} {w : World}
    (read : w.files.read (join (join root metadataDirectoryName) logFileName) = .ok log)
    (decoded : decodeLog log = .ok bs) :
    (readClusterMetadata root : Tried InWorld _).run w = .ok (.ok payloads) w := by
  have each : (bs.mapM fun b => b.records.mapM (readPayload b) : Tried InWorld _).run w =
      .ok (.ok (bs.map fun b => b.records.map payload?)) w :=
    run_mapM_of_ok fun b hb => run_mapM_of_ok fun r hr => h.run_readPayload few hb hr w
  have all : (bs.map fun b => b.records.map payload?).flatten.filterMap id = payloads := by
    rw [← List.flatMap_def, ← List.map_flatMap, h.map_payload?, List.filterMap_map]
    exact List.filterMap_some
  rw [readClusterMetadata, run_bind_of_ok (run_readRecordBatches read decoded),
    run_bind_of_ok each, all]
  rfl

end Holds

/-! ### What the log says -/

/-- A payload says that a topic has a partition. -/
def DescribesPartition (t : PlannedTopic) (p : PlannedPartition) (payload : MetadataPayload) :
    Prop :=
  ∃ r, payload.data = .partition r ∧ r.topicUuid = t.uuid ∧ r.partitionId = p.partitionId

/-- Payloads say what a topic is called, and then which partitions it has. -/
def DescribesTopic (t : PlannedTopic) (payloads : List MetadataPayload) : Prop :=
  ∃ first others, payloads = first :: others ∧ first.data = .topic ⟨t.name, t.uuid⟩ ∧
    List.Forall₂ (DescribesPartition t) t.partitions others

/-- Payloads say which version the metadata have, and then which topics there are. -/
def Describes (topics : List PlannedTopic) (payloads : List MetadataPayload) : Prop :=
  ∃ level groups, payloads = level :: List.flatten groups ∧
    level.data = .featureLevel ⟨"metadata.version", 20⟩ ∧ List.Forall₂ DescribesTopic topics groups

theorem describes_metadataPayloads (topics : List PlannedTopic) :
    Describes topics (metadataPayloads topics) := by
  refine ⟨_, topics.map topicPayloads, rfl, rfl, ?_⟩
  rw [List.forall₂_map_right_iff, List.forall₂_same]
  intro t _
  refine ⟨_, _, rfl, rfl, ?_⟩
  rw [List.forall₂_map_right_iff, List.forall₂_same]
  exact fun p _ => ⟨_, rfl, rfl, rfl⟩

/-- **The metadata log describes the topics**, whatever they are called and however many partitions
they have: it can be read, the offsets of its records are `0, 1, 2, …` to the last, and the values
of the records are, in order, the feature level and each topic with its partitions.  Reading the
log from the directory gives these payloads. -/
theorem metadataLog_describes (topics : List PlannedTopic)
    (fits : ∀ b ∈ metadataBatches topics, b.Fits)
    (few : recordCount topics < 0x8000000000000000) :
    ∃ bs, decodeLog (encodeLog (metadataBatches topics)) = .ok bs ∧
      bs.flatMap RecordBatch.offsets = (List.range (recordCount topics)).map Nat.cast ∧
      ∃ payloads, Describes topics payloads ∧
        (bs.flatMap RecordBatch.records).map (fun r => r.value.map MetadataPayload.decode) =
          payloads.map (fun p => some (.ok p)) ∧
        ∀ (root : String) (w : World),
          w.files.read (join (join root metadataDirectoryName) logFileName) =
            .ok (encodeLog (metadataBatches topics)) →
          (readClusterMetadata root : Tried InWorld _).run w = .ok (.ok payloads) w := by
  have holds := holds_metadataBatches fits few
  have decoded := decodeLog_encodeLog fits
  rw [map_normalized_metadataBatches] at decoded
  have few' : 0 + (metadataPayloads topics).length < 0x8000000000000000 := by
    rwa [length_metadataPayloads, Nat.zero_add]
  refine ⟨_, decoded, ?_, _, describes_metadataPayloads topics, holds.values, fun root w there =>
    holds.run_readClusterMetadata few' there decoded⟩
  rw [holds.offsets, length_metadataPayloads, List.range_eq_range']

/-- Topics with two partitions, with none, and with one. -/
def unevenTopics : List PlannedTopic :=
  [⟨"bread", ⟨71⟩, [⟨1, []⟩, ⟨0, ["rye"]⟩]⟩, ⟨"", ⟨7⟩, []⟩,
    ⟨"bread-1", ⟨71⟩, [⟨-1, []⟩]⟩]

/-- The offsets of a topic without partitions and of those after it. -/
theorem metadataLog_describes_uneven :
    (∀ b ∈ metadataBatches unevenTopics, b.Fits) ∧ recordCount unevenTopics = 7 ∧
      ∃ bs, decodeLog (encodeLog (metadataBatches unevenTopics)) = .ok bs ∧
        bs.flatMap RecordBatch.offsets = [0, 1, 2, 3, 4, 5, 6] ∧
        ∃ payloads, Describes unevenTopics payloads ∧
          (bs.flatMap RecordBatch.records).map (fun r => r.value.map MetadataPayload.decode) =
            payloads.map fun p => some (.ok p) := by
  have fits : ∀ b ∈ metadataBatches unevenTopics, b.Fits := by decide +kernel
  have seven : recordCount unevenTopics = 7 := rfl
  obtain ⟨bs, decoded, offsets, payloads, describes, values, -⟩ :=
    metadataLog_describes unevenTopics fits (by decide)
  exact ⟨fits, seven, bs, decoded, offsets, payloads, describes, values⟩

end LogDirectory
end BrokerExam
