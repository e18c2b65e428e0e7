/-
BrokerExam/Proofs/Batch/Basic.lean

Record batches read back as their normal form.  What `encoding` computes is
consistent: the length counts what stands behind it, the checksum is that of the
part it covers, and neither depends on the values that the batch held for them.

Main results: `normalized_normalized`, `encoding_normalized` and `readsBack`,
which says that a batch whose length fits its 32 bits reads back normalized;
`reads_iff_parts`, which says of any bytes when they read as a batch; and
`read_isLocal`, that reading one looks at no byte behind it.
-/
import BrokerExam.Proofs.Batch.Record
import BrokerExam.Batch.Basic

namespace BrokerExam.RecordBatch

/-- The length of the batch, computed on writing, fits its 32 bits. -/
def Fits (b : RecordBatch) : Prop := b.coveredBytes.length + bytesBeforeCovered < 0x80000000

instance (b : RecordBatch) : Decidable b.Fits :=
  inferInstanceAs (Decidable (b.coveredBytes.length + bytesBeforeCovered < 0x80000000))

/-! ### Normal forms -/

/-- A batch in normal form has its offset deltas counted from zero. -/
theorem numbered_normalized (b : RecordBatch) : b.normalized.numbered = b.normalized := by
  have length : b.normalized.records.length = b.records.length := List.length_mapIdx
  have records : b.normalized.records.mapIdx (fun i r => { r with offsetDelta := Int32.ofNat i })
      = b.normalized.records := List.mapIdx_mapIdx
  rw [numbered, length, records]
  rfl

/-- The checksum covers none of the values that are computed from it. -/
theorem coveredBytes_normalized (b : RecordBatch) : b.normalized.coveredBytes = b.coveredBytes := by
  rw [coveredBytes, numbered_normalized]
  rfl

theorem normalized_normalized (b : RecordBatch) : b.normalized.normalized = b.normalized := by
  rw [normalized, numbered_normalized, coveredBytes_normalized]
  rfl

theorem encoding_normalized (b : RecordBatch) : b.normalized.encoding = b.encoding := by
  rw [encoding, normalized_normalized, numbered_normalized]
  rfl

theorem bytes_normalized (b : RecordBatch) : b.normalized.bytes = b.bytes := by
  rw [bytes, encoding_normalized, bytes]

/-! ### The part that the checksum covers -/

theorem covered_lawfulOn : covered.LawfulOn fun b => b.records.length < 0x80000000 :=
  .bind .of fun _ => .bind .of fun _ => .bind .of fun _ => .bind .of fun _ => .bind .of fun _ =>
  .bind .of fun _ => .bind .of fun _ =>
  .bind (.on (.array "Records" .of) fun _ few => ⟨few, fun _ _ => trivial⟩) fun _ => .of

theorem covered_write_fst (b : RecordBatch) :
    (covered.write b).1 = {
      attributes := b.attributes, lastOffsetDelta := b.lastOffsetDelta
      firstTimestamp := b.firstTimestamp, maxTimestamp := b.maxTimestamp
      producerId := b.producerId, producerEpoch := b.producerEpoch
      baseSequence := b.baseSequence, records := b.records } := by
  have records : b.records.map (fun r => (Record.codec.write r).1) = b.records := by
    simp only [Record.codec_write_fst, List.map_id']
  show ({
      attributes := b.attributes, lastOffsetDelta := b.lastOffsetDelta
      firstTimestamp := b.firstTimestamp, maxTimestamp := b.maxTimestamp
      producerId := b.producerId, producerEpoch := b.producerEpoch
      baseSequence := b.baseSequence
      records := b.records.map fun r => (Record.codec.write r).1 } : RecordBatch) = _
  rw [records]

/-- The records take some of the bytes that the checksum covers. -/
theorem length_array_le_covered (b : RecordBatch) :
    ((Codec.array "Records" Record.codec).write b.records).2.bytes.length
      ≤ (covered.write b).2.bytes.length := by
  simp only [covered, Codec.length_bytes_bind]
  simp only [Codec.on]
  omega

/-- There are no more records than bytes. -/
theorem length_records_le (b : RecordBatch) :
    b.records.length ≤ (covered.write b).2.bytes.length :=
  calc b.records.length
    _ ≤ (Encoding.items "Records" ((b.records.map Record.codec.write).map Prod.snd)).bytes.length :=
      Codec.length_le_items b.records "Records"
    _ ≤ ((Codec.array "Records" Record.codec).write b.records).2.bytes.length :=
      Codec.length_items_le_array Record.codec b.records "Records"
    _ ≤ (covered.write b).2.bytes.length := length_array_le_covered b

/-! ### Reading -/

section Reading

variable {rest used₁ used₂ used₃ used₄ : Bytes} {t : Trace} {epoch : Int32} {crc : UInt32}
  {b : RecordBatch}

/-- The cursor has moved by the last of four widths since it had moved by the first three. -/
theorem distance_covered (o w₁ w₂ w₃ w₄ : Nat) :
    o + (w₁ + (w₂ + (w₃ + w₄))) - (o + (w₁ + (w₂ + w₃))) = w₄ := by
  omega

/-- What stands behind a length that counts it is read, if its checksum is right. -/
theorem readsBefore_readCounted (baseOffset : Int64) {batchLength : Int32} (anchor : Anchor)
    (h₁ : Kind.int32.read.Reads used₁ epoch) (h₂ : Kind.int8.read.Reads used₂ magicByte)
    (h₃ : Kind.uint32.read.Reads used₃ crc) (h₄ : ReadsBefore rest covered.read used₄ t b)
    (counts : batchLength.toInt = (used₁ ++ (used₂ ++ (used₃ ++ used₄))).length)
    (sum : crc32c used₄ = crc) :
    ReadsBefore rest (readCounted baseOffset batchLength anchor)
      (used₁ ++ (used₂ ++ (used₃ ++ used₄)))
      (⟨["PartitionLeaderEpoch"], .int32 epoch, used₁.length⟩ ::
        ⟨["Magic"], .int8 magicByte, used₂.length⟩ ::
        ⟨["CRC"], Kind.uint32.value crc, used₃.length⟩ :: t)
      { b with
        baseOffset, batchLength, partitionLeaderEpoch := epoch, magic := magicByte, crc } where
  width := by
    simp only [Trace.width_cons, h₄.width, List.length_append]
  run := by
    intro s ahead
    simp only [List.append_assoc] at ahead
    rw [readCounted, bind_of_ok (FieldRead.offset_ok s),
      bind_of_ok ((ReadsBefore.field "PartitionLeaderEpoch" h₁).run s ahead),
      bind_of_ok (run_anchored "Magic" h₂ rfl)]
    simp only [ne_eq, not_true, if_false]
    rw [bind_of_ok (run_anchored "CRC" h₃ rfl)]
    simp only
    rw [bind_of_ok (FieldRead.get_ok _), bind_of_ok (h₄.run _ rfl),
      bind_of_ok (FieldRead.offset_ok _)]
    -- both the length and the checksum are held against what the cursor has passed since
    simp only [ReadState.past_past, ReadState.past_offset, ReadState.past_ahead, List.cons_append,
      List.nil_append, Trace.width_cons, Trace.width_nil, Nat.add_zero, h₄.width,
      Nat.add_sub_cancel_left, distance_covered, List.take_left, counts, sum, List.length_append,
      not_true, if_false]
    rfl

end Reading

theorem batchLength_counts {b : RecordBatch} (fits : b.Fits) :
    ¬ b.normalized.batchLength ≤ 0 ∧
      b.normalized.batchLength.toInt = (b.coveredBytes.length + bytesBeforeCovered : Nat) := by
  have counts : b.normalized.batchLength.toInt = _ := (int32Length_counts fits).2
  refine ⟨fun small => ?_, counts⟩
  rw [Int32.le_iff_toInt_le, counts, show (0 : Int32).toInt = 0 from rfl, bytesBeforeCovered]
    at small
  omega

/-- The part that the checksum covers reads back, since it has fewer records than bytes. -/
theorem readsBack_covered {b : RecordBatch} (fits : b.Fits) :
    ReadsBack covered.read (covered.write b.numbered).2 (covered.write b.numbered).1 := by
  have small : (covered.write b.numbered).2.bytes.length + bytesBeforeCovered < 0x80000000 := fits
  have few := length_records_le b.numbered
  exact covered_lawfulOn.reads b.numbered (by omega) (by omega)

/-- What the length of a batch counts. -/
def countedEncoding (b : RecordBatch) : Encoding :=
  Encoding.leaf "PartitionLeaderEpoch" (.int32 b.partitionLeaderEpoch) ++
    (Encoding.leaf "Magic" (.int8 magicByte) ++
      (Encoding.leaf "CRC" (Kind.uint32.value b.normalized.crc) ++ (covered.write b.numbered).2))

theorem encoding_eq (b : RecordBatch) :
    b.encoding = Encoding.leaf "BaseOffset" (.int64 b.baseOffset) ++
      (Encoding.leaf "BatchLength" (.int32 b.normalized.batchLength) ++ b.countedEncoding) := by
  simp only [encoding, countedEncoding, List.append_assoc]
  rfl

theorem length_countedEncoding (b : RecordBatch) :
    b.countedEncoding.bytes.length = b.coveredBytes.length + bytesBeforeCovered := by
  simp only [countedEncoding, Encoding.bytes_append, Encoding.bytes_leaf, List.length_append,
    Value.bytes, Kind.uint32, BigEndian.length_encode, bytesBeforeCovered, coveredBytes]
  omega

theorem length_bytes (b : RecordBatch) :
    b.bytes.length = 12 + (b.coveredBytes.length + bytesBeforeCovered) := by
  rw [bytes, encoding_eq, Encoding.bytes_append, Encoding.bytes_append, List.length_append,
    List.length_append, length_countedEncoding, Encoding.bytes_leaf, Encoding.bytes_leaf,
    Value.bytes, Value.bytes, BigEndian.length_encode, BigEndian.length_encode]
  omega

/-- A batch in fewer than `2 ^ 31` bytes fits its length, which counts only some of them. -/
theorem fits_of_length {b : RecordBatch} (h : b.bytes.length < 0x80000000) : b.Fits := by
  rw [length_bytes] at h
  show b.coveredBytes.length + bytesBeforeCovered < 0x80000000
  omega

theorem readsBack_countedEncoding {b : RecordBatch} (fits : b.Fits) (anchor : Anchor) :
    ReadsBack (readCounted b.baseOffset b.normalized.batchLength anchor) b.countedEncoding
      b.normalized := by
  have counted : b.normalized.batchLength.toInt = b.countedEncoding.bytes.length := by
    rw [length_countedEncoding]
    exact (batchLength_counts fits).2
  simp only [countedEncoding, Encoding.bytes_append, Encoding.bytes_leaf] at counted
  have covered := readsBack_covered fits
  rw [covered_write_fst] at covered
  intro rest
  simp only [countedEncoding, Encoding.bytes_append, Encoding.bytes_leaf]
  have whole := readsBefore_readCounted b.baseOffset anchor
    (RawRead.reads_int32 b.partitionLeaderEpoch) (RawRead.reads_int8 magicByte)
    (RawRead.reads_uint32 b.normalized.crc) (covered rest) counted rfl
  exact whole

/-- **A batch reads back in normal form**, whatever values it held for what is computed. -/
theorem readsBack {b : RecordBatch} (fits : b.Fits) : ReadsBack read b.encoding b.normalized := by
  rw [encoding_eq]
  refine ReadsBack.bind (ReadsBack.field "BaseOffset" (RawRead.reads_int64 _)) ?_
  refine ReadsBack.anchored_bind "BatchLength" (RawRead.reads_int32 _) fun anchor => ?_
  show ReadsBack (if b.normalized.batchLength ≤ 0 then _ else _) _ _
  rw [if_neg (batchLength_counts fits).1]
  exact readsBack_countedEncoding fits anchor

theorem length_records_numbered (b : RecordBatch) : b.numbered.records.length = b.records.length :=
  List.length_mapIdx

theorem Fits.few {b : RecordBatch} (fits : b.Fits) : b.records.length < 0x80000000 := by
  have small : (covered.write b.numbered).2.bytes.length + bytesBeforeCovered < 0x80000000 := fits
  have few := length_records_le b.numbered
  rw [length_records_numbered] at few
  omega

/-- A batch can be written if its records can be counted, whether or not it fits its length. -/
theorem short_encoding {b : RecordBatch} (few : b.records.length < 0x80000000) :
    b.encoding.Short := by
  rw [← length_records_numbered] at few
  have covered := covered_lawfulOn.short b.numbered few
  rw [encoding_eq, countedEncoding]
  exact (Encoding.Short.leaf _ rfl).append ((Encoding.Short.leaf _ rfl).append
    ((Encoding.Short.leaf _ rfl).append ((Encoding.Short.leaf _ rfl).append
      ((Encoding.Short.leaf _ rfl).append covered))))

/-! ### The parts of a batch -/

/-- The bytes that the length of a batch counts, part by part. -/
structure Parts where
  leaderEpoch : Bytes
  magic : Bytes
  crc : Bytes
  covered : Bytes

def Parts.bytes (p : Parts) : Bytes := p.leaderEpoch ++ (p.magic ++ (p.crc ++ p.covered))

/-- The parts read as the batch: its length counts them, and its checksum is that of the covered
one. -/
structure Parts.Of (p : Parts) (b : RecordBatch) : Prop where
  leaderEpoch : Kind.int32.read.Reads p.leaderEpoch b.partitionLeaderEpoch
  magic : Kind.int8.read.Reads p.magic magicByte
  crc : Kind.uint32.read.Reads p.crc b.crc
  covered : ∃ t c, Reads RecordBatch.covered.read p.covered t c ∧ b = { c with
    baseOffset := b.baseOffset, batchLength := b.batchLength
    partitionLeaderEpoch := b.partitionLeaderEpoch, magic := magicByte, crc := b.crc }
  counts : b.batchLength.toInt = p.bytes.length
  sum : crc32c p.covered = b.crc

theorem Parts.Of.reads {p : Parts} {b : RecordBatch} (h : p.Of b) :
    ∃ t, ∀ anchor, Reads (readCounted b.baseOffset b.batchLength anchor) p.bytes t b := by
  obtain ⟨t, c, hc, same⟩ := h.covered
  have whole (anchor : Anchor) (rest : Bytes) := readsBefore_readCounted b.baseOffset anchor
    h.leaderEpoch h.magic h.crc (hc rest) h.counts h.sum
  rw [← same] at whole
  exact ⟨_, whole⟩

/-- What was read behind a length are the parts that it counts. -/
theorem ok_of_readCounted {baseOffset : Int64} {batchLength : Int32} {anchor : Anchor}
    {s s' : ReadState Unit} {b : RecordBatch}
    (run : readCounted baseOffset batchLength anchor s = .ok b s') :
    ∃ (p : Parts) (left : Bytes), s.cursor.ahead = p.bytes ++ left ∧ p.Of b ∧
      b.baseOffset = baseOffset ∧ b.batchLength = batchLength := by
  simp only [readCounted] at run
  obtain ⟨_, _, start, run⟩ := ok_of_bind run
  obtain ⟨rfl, rfl⟩ := EStateM.Result.ok.inj start
  obtain ⟨epoch, _, first, run⟩ := ok_of_bind run
  obtain ⟨used₁, left₁, ahead₁, h₁, rfl⟩ := FieldRead.ok_of_field Kind.Plain.int32.isLocal first
  obtain ⟨⟨magic, magicAnchor⟩, _, second, run⟩ := ok_of_bind run
  obtain ⟨used₂, left₂, ahead₂, h₂, rfl⟩ := FieldRead.ok_of_anchored Kind.Plain.int8.isLocal second
  dsimp only at run
  split at run
  · cases run
  · next version =>
    obtain rfl : magic = magicByte := Decidable.not_not.1 version
    obtain ⟨⟨crc, crcAnchor⟩, _, third, run⟩ := ok_of_bind run
    obtain ⟨used₃, left₃, ahead₃, h₃, rfl⟩ :=
      FieldRead.ok_of_anchored Kind.Plain.uint32.isLocal third
    obtain ⟨_, _, here, run⟩ := ok_of_bind run
    obtain ⟨rfl, rfl⟩ := EStateM.Result.ok.inj here
    obtain ⟨c, s₄, fourth, run⟩ := ok_of_bind run
    obtain ⟨used₄, left₄, t, ahead₄, h₄⟩ := covered_lawfulOn.isLocal _ c s₄ fourth
    obtain ⟨-, rfl⟩ := (h₄ left₄).eq_past ahead₄ fourth
    obtain ⟨_, _, stop, run⟩ := ok_of_bind run
    obtain ⟨rfl, rfl⟩ := EStateM.Result.ok.inj stop
    dsimp only at run
    split at run
    · cases run
    · next counts =>
      split at run
      · cases run
      · next sum =>
        obtain ⟨rfl, rfl⟩ := EStateM.Result.ok.inj run
        -- each part begins where the one before has ended
        obtain rfl : left₁ = used₂ ++ left₂ := ahead₂
        obtain rfl : left₂ = used₃ ++ left₃ := ahead₃
        obtain rfl : left₃ = used₄ ++ left₄ := ahead₄
        simp only [ReadState.past_past, ReadState.past_offset, ReadState.past_ahead,
          List.cons_append, List.nil_append, Trace.width_cons, Trace.width_nil, Nat.add_zero,
          (h₄ left₄).width, Nat.add_sub_cancel_left, distance_covered, List.take_left,
          Decidable.not_not] at counts sum
        refine ⟨⟨used₁, used₂, used₃, used₄⟩, left₄, ?_, ⟨h₁, h₂, h₃, ⟨t, c, h₄, rfl⟩, ?_, sum⟩,
          rfl, rfl⟩
        · simp only [ahead₁, Parts.bytes, List.append_assoc]
        · simp only [counts, Parts.bytes, List.length_append]

/-! ### Locality -/

theorem localFamily_readCounted (baseOffset : Int64) (batchLength : Int32) :
    FieldRead.LocalFamily fun anchor => readCounted baseOffset batchLength anchor := by
  intro anchor s b s' run
  obtain ⟨p, left, ahead, parts, rfl, rfl⟩ := ok_of_readCounted run
  obtain ⟨t, reads⟩ := parts.reads
  exact ⟨p.bytes, left, t, ahead, reads⟩

/-- A batch is a base offset and something local behind it. -/
theorem read_eq_bind : ∃ f : Int64 → FieldRead RecordBatch,
    read = FieldRead.field "BaseOffset" Kind.int64 >>= f ∧ ∀ o, FieldRead.Local (f o) := by
  refine ⟨_, rfl, fun baseOffset => ?_⟩
  refine FieldRead.Local.anchored_bind "BatchLength" Kind.Plain.int32.isLocal fun batchLength => ?_
  show FieldRead.LocalFamily fun anchor : Anchor => if batchLength ≤ 0 then _ else _
  split
  · exact FieldRead.LocalFamily.throw _
  · exact localFamily_readCounted baseOffset batchLength

theorem read_isLocal : FieldRead.Local read := by
  obtain ⟨f, hf, after⟩ := read_eq_bind
  rw [hf]
  exact (FieldRead.Local.field "BaseOffset" Kind.Plain.int64.isLocal).bind after

/-- A batch takes at least the eight bytes of its base offset. -/
theorem read_eats : FieldRead.Eats read := by
  obtain ⟨f, hf, after⟩ := read_eq_bind
  rw [hf]
  refine FieldRead.Eats.bind_left (fun s v s' run => ?_) after
  obtain ⟨used, left, ahead, hused, rfl⟩ := FieldRead.ok_of_field Kind.Plain.int64.isLocal run
  have eight : used.length = 8 := RawRead.length_of_reads_fixed hused
  rw [ReadState.past_offset, eight]
  exact Nat.lt_add_of_pos_right (Nat.succ_pos 7)

/-- A batch that was read had a base offset, a positive length and the parts that it counts. -/
theorem parts_of_reads {used : Bytes} {t : Trace} {b : RecordBatch} (h : Reads read used t b) :
    ∃ (o l : Bytes) (p : Parts), used = o ++ (l ++ p.bytes) ∧
      Kind.int64.read.Reads o b.baseOffset ∧ Kind.int32.read.Reads l b.batchLength ∧
      ¬ b.batchLength ≤ 0 ∧ p.Of b := by
  have run := h.run_start ()
  unfold read at run
  obtain ⟨offset, _, first, run⟩ := ok_of_bind run
  obtain ⟨o, left₁, ahead₁, ho, rfl⟩ := FieldRead.ok_of_field Kind.Plain.int64.isLocal first
  obtain ⟨⟨length, anchor⟩, _, second, run⟩ := ok_of_bind run
  obtain ⟨l, left₂, ahead₂, hl, rfl⟩ := FieldRead.ok_of_anchored Kind.Plain.int32.isLocal second
  dsimp only at run
  split at run
  · cases run
  · next positive =>
    obtain ⟨p, left₃, ahead₃, parts, rfl, rfl⟩ := ok_of_readCounted run
    obtain ⟨t', reads⟩ := parts.reads
    obtain ⟨-, stop⟩ := (reads anchor left₃).eq_past ahead₃ run
    -- the whole was read to its end
    obtain rfl : [] = left₃ := congrArg (fun s => s.cursor.ahead) stop
    refine ⟨o, l, p, ?_, ho, hl, positive, parts⟩
    have ahead₁ : used = o ++ left₁ := ahead₁
    have ahead₂ : left₁ = l ++ left₂ := ahead₂
    have ahead₃ : left₂ = p.bytes ++ [] := ahead₃
    rw [ahead₁, ahead₂, ahead₃, List.append_nil]

/-- The parts of a batch are read behind a base offset and a positive length that counts them. -/
theorem Parts.Of.reads_batch {o l : Bytes} {p : Parts} {b : RecordBatch}
    (ho : Kind.int64.read.Reads o b.baseOffset) (hl : Kind.int32.read.Reads l b.batchLength)
    (positive : ¬ b.batchLength ≤ 0) (parts : p.Of b) :
    ∃ t, Reads read (o ++ (l ++ p.bytes)) t b := by
  obtain ⟨t, reads⟩ := parts.reads
  have behind (rest : Bytes) (anchor : Anchor) : ReadsBefore rest
      (if b.batchLength ≤ 0 then
        throw (anchor.error (.invalidLength (.nonPositiveBatch b.batchLength)))
      else readCounted b.baseOffset b.batchLength anchor) p.bytes t b := by
    rw [if_neg positive]
    exact reads anchor rest
  exact ⟨_, fun rest => (ReadsBefore.field "BaseOffset" ho).bind
    (ReadsBefore.anchored_bind "BatchLength" hl (behind rest))⟩

/-- **How a batch stands in bytes**: a base offset, a positive length, and the parts it counts. -/
theorem reads_iff_parts {used : Bytes} {b : RecordBatch} :
    (∃ t, Reads read used t b) ↔ ∃ (o l : Bytes) (p : Parts), used = o ++ (l ++ p.bytes) ∧
      Kind.int64.read.Reads o b.baseOffset ∧ Kind.int32.read.Reads l b.batchLength ∧
      ¬ b.batchLength ≤ 0 ∧ p.Of b := by
  constructor
  · rintro ⟨t, whole⟩
    exact parts_of_reads whole
  · rintro ⟨o, l, p, rfl, ho, hl, positive, parts⟩
    exact parts.reads_batch ho hl positive

theorem codec_lawfulOn : codec.LawfulOn Fits where
  reads _ fits _ := readsBack fits
  short _ fits := short_encoding fits.few
  isLocal := read_isLocal

instance : codec.Solid where
  length_pos b := by
    show 0 < b.encoding.bytes.length
    rw [encoding_eq, Encoding.bytes_append, List.length_append]
    exact Nat.add_pos_left ((Codec.solid_field "BaseOffset" Kind.Plain.int64).length_pos _) _

end BrokerExam.RecordBatch
