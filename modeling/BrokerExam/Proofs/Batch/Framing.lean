/-
BrokerExam/Proofs/Batch/Framing.lean

How the bytes of a log are framed that was read.  Reading is not held within the
length of a batch or the size of a record; both are only compared with the way the
cursor has come.  So the frames have to be found again in what was read: the log is
cut into segments, one for each batch, and behind the fields of fixed width each
segment is cut into frames, one for each record.

Main results: `framed_of_reads`, for one batch, and `decodeLog_framed`, for every
log that is read.
-/
import BrokerExam.Proofs.Batch.Stream
import BrokerExam.Proofs.Wire.Pieces
import Mathlib.Data.List.Forall2

namespace BrokerExam

/-! ### Numbers at an offset -/

/-- The signed 32-bit number at an offset. -/
def int32At (bs : Bytes) (offset : Nat) : Int32 :=
  (UInt32.ofNat (BigEndian.decode ((bs.drop offset).take 4))).toInt32

section Slices

variable {front middle back : Bytes}

/-- What stands behind some bytes is found at their number. -/
theorem slice_eq {n k : Nat} (before : front.length = n) (width : middle.length = k) :
    ((front ++ (middle ++ back)).drop n).take k = middle := by
  rw [List.drop_left' before, List.take_left' width]

/-- A number that is read is the one at its offset. -/
theorem int32At_eq {n : Nat} {v : Int32} (before : front.length = n)
    (value : Kind.int32.read.Reads middle v) : int32At (front ++ (middle ++ back)) n = v := by
  obtain ⟨width, rfl⟩ := RawRead.eq_of_reads_fixed value
  rw [int32At, slice_eq before width]

/-- A checksum that is read is in its bytes, the highest first. -/
theorem encode_of_reads_uint32 {u : Bytes} {v : UInt32} (value : Kind.uint32.read.Reads u v) :
    BigEndian.encode 4 v.toNat = u := by
  obtain ⟨width, rfl⟩ := RawRead.eq_of_reads_fixed value
  calc BigEndian.encode 4 (UInt32.ofNat (BigEndian.decode u)).toNat
    _ = BigEndian.encode 4 (BigEndian.decode u % BigEndian.span 4) :=
      congrArg (BigEndian.encode 4) UInt32.toNat_ofNat'
    _ = BigEndian.encode 4 (BigEndian.decode u) := BigEndian.encode_mod ..
    _ = u := by rw [← width, BigEndian.encode_decode]

/-- A magic byte that is read is that byte. -/
theorem eq_of_reads_magicByte {u : Bytes} (value : Kind.int8.read.Reads u RecordBatch.magicByte) :
    u = [2] := RawRead.reads_int8_iff.1 value

end Slices

/-! ### Records -/

/-- The bytes are a size, and as many bytes of contents as it declares, which read as the
record. -/
def Record.Framed (frame : Bytes) (r : Record) : Prop :=
  ∃ (size contents : Bytes) (declared : Int64), frame = size ++ contents ∧
    Varint.decodeSigned size = .ok (declared, size.length) ∧
    declared.toInt = contents.length ∧ ∃ t, Reads Record.contents.read contents t r

/-- A record that was read is framed: the cursor has moved over its contents as far as the size
declares. -/
theorem Record.framed_of_reads {used : Bytes} {t : Trace} {r : Record}
    (reads : Reads Record.codec.read used t r) : Record.Framed used r := by
  have contentsLocal : FieldRead.Local Record.contents.read := Codec.Lawful.on_all.isLocal
  obtain ⟨⟨declared, anchor⟩, _, first, second⟩ := ok_of_bind (reads.run_start ())
  obtain ⟨size, left, ahead, value, rfl⟩ :=
    FieldRead.ok_of_anchored Kind.Plain.varint.isLocal first
  obtain ⟨_, _, start, second⟩ := ok_of_bind second
  obtain ⟨rfl, rfl⟩ := EStateM.Result.ok.inj start
  obtain ⟨r', s₁, body, second⟩ := ok_of_bind second
  obtain ⟨contents, behind, t', ahead', inside⟩ := contentsLocal _ r' s₁ body
  obtain ⟨-, rfl⟩ := (inside behind).eq_past ahead' body
  obtain ⟨_, _, stop, second⟩ := ok_of_bind second
  obtain ⟨rfl, rfl⟩ := EStateM.Result.ok.inj stop
  dsimp only at second
  split at second
  · next counts =>
    obtain ⟨rfl, same⟩ := EStateM.Result.ok.inj second
    -- nothing is left over behind the contents
    obtain rfl : behind = [] := congrArg (fun s : ReadState Unit => s.cursor.ahead) same
    rw [ReadState.past_offset, Nat.add_sub_cancel_left, (inside []).width] at counts
    have ahead : used = size ++ left := ahead
    have ahead' : left = contents ++ [] := ahead'
    rw [List.append_nil] at ahead'
    exact ⟨size, contents, declared, ahead' ▸ ahead, RawRead.reads_varint_iff.1 value, counts,
      t', inside⟩
  · cases second

/-! ### The part that the checksum covers -/

namespace RecordBatch

/-- The fields of fixed width in front of the records. -/
def head : Codec RecordBatch RecordBatch := do
  let attributes ← (Codec.int16 "Attributes").on (·.attributes)
  let lastOffsetDelta ← (Codec.int32 "LastOffsetDelta").on (·.lastOffsetDelta)
  let firstTimestamp ← (Codec.int64 "FirstTimestamp").on (·.firstTimestamp)
  let maxTimestamp ← (Codec.int64 "MaxTimestamp").on (·.maxTimestamp)
  let producerId ← (Codec.int64 "ProducerId").on (·.producerId)
  let producerEpoch ← (Codec.int16 "ProducerEpoch").on (·.producerEpoch)
  let baseSequence ← (Codec.int32 "BaseSequence").on (·.baseSequence)
  return {
    attributes, lastOffsetDelta, firstTimestamp, maxTimestamp
    producerId, producerEpoch, baseSequence }

instance : head.Spans (2 + (4 + (8 + (8 + (8 + (2 + (4 + 0))))))) := by
  unfold head
  infer_instance

theorem covered_read_eq_head : covered.read = (do
    let c ← head.read
    (fun records => { c with records }) <$> FieldRead.array "Records" Record.codec.read) := by
  have bind {α β γ : Type} (c : Codec α β) (f : β → Codec α γ) :
      (c >>= f).read = c.read >>= fun b => (f b).read := rfl
  have pure {α β : Type} (b : β) : (Pure.pure b : Codec α β).read = Pure.pure b := rfl
  simp only [covered, head, bind, pure, bind_assoc, pure_bind, map_eq_pure_bind]
  rfl

/-- What the checksum covers are fields of fixed width, the number of the records, and a frame for
each of them. -/
theorem framed_of_reads_covered {used : Bytes} {t : Trace} {c : RecordBatch}
    (reads : Reads covered.read used t c) :
    ∃ (fixed count : Bytes) (n : Int32) (frames : List Bytes),
      used = fixed ++ (count ++ frames.flatten) ∧ fixed.length = 36 ∧
      Kind.int32.read.Reads count n ∧ (n.toInt = c.records.length ∨ n = -1 ∧ c.records = []) ∧
      List.Forall₂ Record.Framed frames c.records := by
  have recordLocal : FieldRead.Local Record.codec.read := Codec.Lawful.on_all.isLocal
  have arrayLocal : FieldRead.Local (FieldRead.array "Records" Record.codec.read) :=
    recordLocal.array "Records"
  rw [covered_read_eq_head] at reads
  obtain ⟨b, fixed, rest, _, _, rfl, first, second⟩ :=
    (Codec.Spans.isLocal (c := head)).reads_of_bind (fun _ => arrayLocal.map _) reads
  obtain ⟨records, _, rfl, array⟩ := arrayLocal.reads_of_map second
  obtain ⟨n, count, ps, rfl, value, counts, rfl, each⟩ :=
    FieldRead.reads_of_array recordLocal array
  refine ⟨fixed, count, n, ps.map Piece.bytes, ?_, Codec.Spans.length first, value, counts, ?_⟩
  · rw [List.flatMap_def]
  · rw [List.forall₂_map_left_iff, List.forall₂_map_right_iff, List.forall₂_same]
    exact fun p hp => Record.framed_of_reads (each p hp)

/-! ### Batches -/

/-- The bytes are framed as the batch: as long as its length says, with the magic byte and the
checksum of what stands behind it in their places, and behind the number of the records a frame for
each. -/
structure Framed (segment : Bytes) (b : RecordBatch) : Prop where
  positive : 0 < b.batchLength.toInt
  length : (segment.length : Int) = 12 + b.batchLength.toInt
  batchLength : int32At segment 8 = b.batchLength
  magic : segment[16]? = some 2
  crc : (segment.drop 17).take 4 = BigEndian.encode 4 (crc32c (segment.drop 21)).toNat
  count : (int32At segment 57).toInt = b.records.length ∨
    int32At segment 57 = -1 ∧ b.records = []
  records : ∃ frames : List Bytes, segment.drop 61 = frames.flatten ∧
    List.Forall₂ Record.Framed frames b.records

/-- **A batch that was read is framed.** -/
theorem framed_of_reads {used : Bytes} {t : Trace} {b : RecordBatch} (reads : Reads read used t b) :
    Framed used b := by
  obtain ⟨o, l, p, rfl, offset, length, positive, parts⟩ := parts_of_reads reads
  obtain ⟨_, c, covered, same⟩ := parts.covered
  have records : b.records = c.records := (congrArg RecordBatch.records same :)
  obtain ⟨fixed, count, n, frames, split, widthFixed, value, counts, each⟩ :=
    framed_of_reads_covered covered
  rw [← records] at counts each
  have widthO : o.length = 8 := RawRead.length_of_reads_fixed offset
  have widthL : l.length = 4 := RawRead.length_of_reads_fixed length
  have widthEpoch : p.leaderEpoch.length = 4 := RawRead.length_of_reads_fixed parts.leaderEpoch
  have magic : p.magic = [2] := eq_of_reads_magicByte parts.magic
  have widthCrc : p.crc.length = 4 := RawRead.length_of_reads_fixed parts.crc
  have widthCount : count.length = 4 := RawRead.length_of_reads_fixed value
  -- what stands in front of each place, taken together
  let beforeMagic := o ++ (l ++ p.leaderEpoch)
  let beforeCovered := beforeMagic ++ ([2] ++ p.crc)
  let beforeRecords := beforeCovered ++ (fixed ++ count)
  have widthMagic : beforeMagic.length = 16 := by
    simp only [beforeMagic, List.length_append, widthO, widthL, widthEpoch]
  have widthCovered : beforeCovered.length = 21 := by
    simp only [beforeCovered, List.length_append, widthMagic, widthCrc, List.length_singleton]
  have widthRecords : beforeRecords.length = 61 := by
    simp only [beforeRecords, List.length_append, widthCovered, widthFixed, widthCount]
  have atMagic : o ++ (l ++ p.bytes) = beforeMagic ++ ([2] ++ (p.crc ++ p.covered)) := by
    simp only [beforeMagic, Parts.bytes, magic, List.append_assoc]
  have atCrc : o ++ (l ++ p.bytes) = (beforeMagic ++ [2]) ++ (p.crc ++ p.covered) :=
    atMagic.trans (List.append_assoc ..).symm
  have atCovered : o ++ (l ++ p.bytes) = beforeCovered ++ p.covered := by
    simp only [atMagic, beforeCovered, List.append_assoc]
  have atCount : o ++ (l ++ p.bytes) = (beforeCovered ++ fixed) ++ (count ++ frames.flatten) := by
    simp only [atCovered, split, List.append_assoc]
  have atRecords : o ++ (l ++ p.bytes) = beforeRecords ++ frames.flatten := by
    simp only [atCovered, split, beforeRecords, List.append_assoc]
  have number : int32At (o ++ (l ++ p.bytes)) 57 = n := by
    rw [atCount]
    apply int32At_eq _ value
    rw [List.length_append, widthCovered, widthFixed]
  refine ⟨?_, ?_, int32At_eq widthO length, ?_, ?_, ?_, frames, ?_, each⟩
  · rw [Int32.le_iff_toInt_le, show (0 : Int32).toInt = 0 from rfl] at positive
    exact Int.not_le.1 positive
  · rw [parts.counts, List.length_append, List.length_append, widthO, widthL]
    omega
  · rw [atMagic, List.getElem?_append_right (Nat.le_of_eq widthMagic), widthMagic]
    rfl
  · have behind : (o ++ (l ++ p.bytes)).drop 21 = p.covered := by
      rw [atCovered, List.drop_left' widthCovered]
    rw [behind, parts.sum, encode_of_reads_uint32 parts.crc, atCrc]
    apply slice_eq _ widthCrc
    rw [List.length_append, widthMagic, List.length_singleton]
  · rw [number]
    exact counts
  · rw [atRecords, List.drop_left' widthRecords]

end RecordBatch

/-! ### Logs -/

/-- **Whatever is read as a log is framed**: the bytes are cut into segments, one for each batch
and nothing left over, each of the length that its batch declares, with the right magic byte and
checksum and the number of its records in their places, and then as many frames, each of the size
that its record declares. -/
theorem decodeLog_framed {log : Bytes} {bs : List RecordBatch} (decoded : decodeLog log = .ok bs) :
    ∃ segments : List Bytes, log = segments.flatten ∧
      List.Forall₂ RecordBatch.Framed segments bs := by
  obtain ⟨ps, rfl, rfl, each⟩ := decodeLog_eq_ok_iff.1 decoded
  refine ⟨ps.map Piece.bytes, List.flatMap_def .., ?_⟩
  rw [List.forall₂_map_left_iff, List.forall₂_map_right_iff, List.forall₂_same]
  exact fun p hp => RecordBatch.framed_of_reads (each p hp)

/-- A log of two batches, of which the first holds two records, is framed. -/
theorem decodeLog_framed_stale :
    decodeLog (encodeLog [staleBatch, {}]) =
      .ok [staleBatch.normalized, ({} : RecordBatch).normalized] ∧
    ∃ segments : List Bytes, encodeLog [staleBatch, {}] = segments.flatten ∧
      List.Forall₂ RecordBatch.Framed segments
        [staleBatch.normalized, ({} : RecordBatch).normalized] := by
  have decoded : decodeLog (encodeLog [staleBatch, {}]) =
      .ok [staleBatch.normalized, ({} : RecordBatch).normalized] :=
    decodeLog_encodeLog (by decide +kernel)
  exact ⟨decoded, decodeLog_framed decoded⟩

end BrokerExam
